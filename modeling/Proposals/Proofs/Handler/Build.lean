import Proposals.Proofs.Handler.Lane
import Proposals.Proofs.Handler.Stream

/-!
# `Proofs.Handler.Build` — what a handler builds

On a pool of readable transactions every handler either finds no block in it or takes one (`Builds`): the
block is the pattern of the action, and if it stood in front of the rest the handler would take it
again. No block is found exactly when none is a sublist of the pool, which is what allows to compare
pools in a different order.
-/

namespace Proposals.Handler

open Proposals.Outcome

/-! ## Single transactions -/

theorem AreReadable.haveKinds {pool : List Transaction} (h : AreReadable pool) : HaveKinds pool :=
  fun t ht => (h t ht).exists_kind.imp fun _ hk => hk.1

theorem isOfKind_eq_false {kind : TransactionKind} {t : Transaction} (ht : ∃ k, t.kind? = some k)
    (h : t.kind? ≠ some kind) : isOfKind kind t = .ok false := by
  obtain ⟨k, hk⟩ := ht
  rw [isOfKind_of_kind hk, decide_eq_false]
  rintro rfl
  exact h hk

theorem isOfKind_eq_true {kind : TransactionKind} {t : Transaction} (h : t.kind? = some kind) :
    isOfKind kind t = .ok true := by
  rw [isOfKind_of_kind h, decide_eq_true rfl]

/-- No transaction of the pool has the kind. -/
def Lacks (kind : TransactionKind) (pool : List Transaction) : Prop :=
  ∀ t ∈ pool, t.kind? ≠ some kind

theorem takeFirst_eq_none {kind : TransactionKind} {pool : List Transaction}
    (hpool : HaveKinds pool) (h : Lacks kind pool) : takeFirst kind pool = .ok none := by
  unfold takeFirst
  rw [splitFirst_eq_none fun t ht => isOfKind_eq_false (hpool t ht) (h t ht)]
  rfl

theorem takeFirst_append {kind : TransactionKind} {before after : List Transaction} {t : Transaction}
    (hpool : HaveKinds before) (hbefore : Lacks kind before) (ht : t.kind? = some kind) :
    takeFirst kind (before ++ t :: after) = .ok (some (t, before ++ after)) := by
  unfold takeFirst
  rw [splitFirst_eq_some (fun u hu => isOfKind_eq_false (hpool u hu) (hbefore u hu))
    (isOfKind_eq_true ht)]
  rfl

/-- A pool lacks a kind or has a first transaction of it. -/
theorem lacks_or_first (kind : TransactionKind) (pool : List Transaction) :
    Lacks kind pool ∨ ∃ before t after, pool = before ++ t :: after ∧ Lacks kind before ∧
      t.kind? = some kind := by
  induction pool with
  | nil => exact .inl fun t ht => absurd ht (by simp)
  | cons u pool ih =>
    by_cases hu : u.kind? = some kind
    · exact .inr ⟨[], u, pool, rfl, fun t ht => absurd ht (by simp), hu⟩
    · have hcons : ∀ {rest : List Transaction}, Lacks kind rest → Lacks kind (u :: rest) :=
        fun hrest t ht => (List.mem_cons.mp ht).elim (fun heq => heq ▸ hu) (hrest t)
      rcases ih with hpool | ⟨before, t, after, rfl, hbefore, ht⟩
      · exact .inl (hcons hpool)
      · exact .inr ⟨u :: before, t, after, rfl, hcons hbefore, ht⟩

/-! ## Builders -/

variable {k : ActionKind} {t : Transaction} {before after pool : List Transaction} {a : Action}

/-- A single transaction is built from where it stands first; stablecoin only when the pool has no
    transfer of ether. -/
theorem buildAs_first (hblock : IsBlock k [t]) (hpool : HaveKinds (before ++ t :: after))
    (hbefore : ∀ kind, t.kind? = some kind → Lacks kind before)
    (htransfer : t.kind? = some .usdcTransferViaPayer → Lacks .transfer (before ++ t :: after))
    (ha : actionOf [t] = .ok a) :
    buildAs k (before ++ t :: after) = .ok (some (a, before ++ after)) := by
  have hfound : ∀ kind, t.kind? = some kind →
      takeFirst kind (before ++ t :: after) = .ok (some (t, before ++ after)) := fun kind hkind =>
    takeFirst_append (hpool.sublist (List.sublist_append_left _ _)) (hbefore kind hkind) hkind
  cases k with
  | streamingPayment =>
    -- the funding of a stream is never empty
    obtain ⟨s, c, -, heq⟩ := hblock
    cases c <;> exact absurd heq (by simp [fundingOf])
  | oneTimePayment =>
    rcases hblock with ⟨target, value, heq⟩ | ⟨receiver, amount, heq⟩
    · cases heq
      obtain ⟨text, htext, rfl⟩ := map_eq_ok.mp ha
      show buildOneTimePayment _ = _
      unfold buildOneTimePayment
      rw [hfound _ rfl, ok_bind]
      simp only [htext]
      rfl
    · -- transfers of ether are looked for first, and there are none
      cases heq
      obtain ⟨text, htext, rfl⟩ := map_eq_ok.mp ha
      show buildOneTimePayment _ = _
      unfold buildOneTimePayment
      rw [takeFirst_eq_none hpool (htransfer rfl), hfound _ rfl]
      simp only [ok_bind, htext]
      rfl
  | payerTopUp =>
    obtain ⟨value, heq⟩ := hblock
    cases heq
    obtain ⟨text, htext, rfl⟩ := map_eq_ok.mp ha
    show buildPayerTopUp _ = _
    unfold buildPayerTopUp
    rw [hfound _ rfl, ok_bind]
    simp only [htext]
    rfl
  | treasuryNounTransfer =>
    obtain ⟨receiver, nounId, heq⟩ := hblock
    cases heq
    cases ha
    show buildTreasuryNounTransfer _ = _
    unfold buildTreasuryNounTransfer
    rw [hfound _ rfl]
    rfl
  | customTransaction => exact absurd hblock (by simp [IsBlock])

/-- What building an action means: its block is taken out of the pool as a pattern, and would be taken
    again if it stood in front of the rest. -/
structure Builds (k : ActionKind) (pool : List Transaction) (a : Action)
    (block rest : List Transaction) : Prop where
  built : buildAs k pool = .ok (some (a, rest))
  isBlock : IsBlock k block
  action : actionOf block = .ok a
  takes : Takes block pool rest
  again : ∀ {pool' : List Transaction}, pool'.Perm rest →
    buildAs k (block ++ pool') = .ok (some (a, pool'))

/-- The handler finds nothing in a pool without its blocks. -/
structure BuildsNothing (k : ActionKind) (pool : List Transaction) : Prop where
  built : buildAs k pool = .ok none
  lacks : ∀ block, IsBlock k block → ¬ block.Sublist pool

/-- Building the first transaction of a kind that is an action by itself. -/
theorem builds_first {kind : TransactionKind} (hk : alone? kind = some k) (ht : t.kind? = some kind)
    (hpool : AreReadable (before ++ t :: after)) (hbefore : Lacks kind before)
    (htransfer : kind = .usdcTransferViaPayer → Lacks .transfer (before ++ t :: after))
    (ha : actionOf [t] = .ok a) : Builds k (before ++ t :: after) a [t] (before ++ after) := by
  have hblock : IsBlock k [t] := isBlock_singleton ht hk
  have hkind : ∀ {kind'}, t.kind? = some kind' → kind' = kind := fun h =>
    Option.some.inj (h.symm.trans ht)
  have hmem : t ∉ before := fun hmem => hbefore t hmem ht
  refine ⟨?_, hblock, ha, .next hmem (.done after), ?_⟩
  · exact buildAs_first hblock hpool.haveKinds (fun kind' h => hkind h ▸ hbefore)
      (fun h => htransfer (hkind h).symm) ha
  · -- nothing stands before it any more, and the others are the same in another order
    intro pool' hperm
    have hperm' : (t :: pool').Perm (before ++ t :: after) :=
      (hperm.cons t).trans List.perm_middle.symm
    have hfirst : buildAs k ([] ++ t :: pool') = .ok (some (a, [] ++ pool')) :=
      buildAs_first hblock (fun u hu => hpool.haveKinds u (hperm'.subset hu))
        (fun _ _ u hu => absurd hu (by simp))
        (fun h u hu => htransfer (hkind h).symm u (hperm'.subset hu)) ha
    exact hfirst

/-- A pool lacks transactions of a kind that are actions by themselves, or its first one is built. -/
theorem lacks_or_builds (kind : TransactionKind) (hk : alone? kind = some k) (hpool : AreReadable pool)
    (htransfer : kind = .usdcTransferViaPayer → Lacks .transfer pool) :
    Lacks kind pool ∨ ∃ a block rest, Builds k pool a block rest := by
  rcases lacks_or_first kind pool with hlacks | ⟨before, t, after, rfl, hbefore, ht⟩
  · exact .inl hlacks
  · obtain ⟨a, ha, -⟩ := exists_actionOf (isBlock_singleton ht hk) (hpool.sublist
      (List.singleton_sublist.mpr (List.mem_append_right _ List.mem_cons_self)))
    exact .inr ⟨a, _, _, builds_first hk ht hpool hbefore htransfer ha⟩

theorem Lacks.not_sublist {kind : TransactionKind} (h : Lacks kind pool) (ht : t.kind? = some kind) :
    ¬ [t].Sublist pool := fun hsub => h t (List.singleton_sublist.mp hsub) ht

/-- A stream that is built with its funding would be built again. -/
theorem builds_stream {block rest : List Transaction} (hpool : AreReadable pool)
    (hblock : IsBlock .streamingPayment block) (ha : actionOf block = .ok a)
    (htakes : Takes block pool rest) (hbuilt : buildStreamingPayment pool = .ok (some (a, rest))) :
    Builds .streamingPayment pool a block rest := by
  refine ⟨hbuilt, hblock, ha, htakes, fun hperm => buildStreamingPayment_append hblock ha fun t ht => ?_⟩
  exact hpool t (htakes.perm.subset ((hperm.append_left block).subset ht))

theorem buildsNothing_oneTimePayment (hpool : AreReadable pool) (htransfer : Lacks .transfer pool)
    (husdc : Lacks .usdcTransferViaPayer pool) : BuildsNothing .oneTimePayment pool where
  built := by
    show buildOneTimePayment pool = _
    unfold buildOneTimePayment
    rw [takeFirst_eq_none hpool.haveKinds htransfer, takeFirst_eq_none hpool.haveKinds husdc]
    rfl
  lacks := by
    rintro block (⟨target, value, rfl⟩ | ⟨receiver, amount, rfl⟩)
    · exact htransfer.not_sublist rfl
    · exact husdc.not_sublist rfl

theorem buildsNothing_payerTopUp (hpool : AreReadable pool) (h : Lacks .payerTopUp pool) :
    BuildsNothing .payerTopUp pool where
  built := by
    show buildPayerTopUp pool = _
    unfold buildPayerTopUp
    rw [takeFirst_eq_none hpool.haveKinds h]
    rfl
  lacks := by
    rintro block ⟨value, rfl⟩
    exact h.not_sublist rfl

theorem buildsNothing_treasuryNounTransfer (hpool : AreReadable pool)
    (h : Lacks .treasuryNounTransfer pool) : BuildsNothing .treasuryNounTransfer pool where
  built := by
    show buildTreasuryNounTransfer pool = _
    unfold buildTreasuryNounTransfer
    rw [takeFirst_eq_none hpool.haveKinds h]
    rfl
  lacks := by
    rintro block ⟨receiver, nounId, rfl⟩
    exact h.not_sublist rfl

/-- **Every handler takes a block out of the pool, or the pool contains none.** -/
theorem buildAs_cases (k : ActionKind) (hpool : AreReadable pool) :
    BuildsNothing k pool ∨ ∃ a block rest, Builds k pool a block rest := by
  cases k with
  | streamingPayment =>
    rcases buildStreamingPayment_cases hpool with ⟨hnone, hnot⟩ | ⟨a, block, rest, hbuilt, hblock, ha, h⟩
    · exact .inl ⟨hnone, hnot⟩
    · exact .inr ⟨a, block, rest, builds_stream hpool hblock ha h hbuilt⟩
  | oneTimePayment =>
    -- transfers of ether come first, then those of stablecoin
    rcases lacks_or_builds .transfer rfl hpool (by simp) with htransfer | hbuilt
    · rcases lacks_or_builds .usdcTransferViaPayer rfl hpool fun _ => htransfer with husdc | hbuilt
      · exact .inl (buildsNothing_oneTimePayment hpool htransfer husdc)
      · exact .inr hbuilt
    · exact .inr hbuilt
  | payerTopUp =>
    exact (lacks_or_builds .payerTopUp rfl hpool (by simp)).imp_left (buildsNothing_payerTopUp hpool)
  | treasuryNounTransfer =>
    exact (lacks_or_builds .treasuryNounTransfer rfl hpool (by simp)).imp_left
      (buildsNothing_treasuryNounTransfer hpool)
  | customTransaction => exact .inl ⟨rfl, fun _ h => absurd h (by simp [IsBlock])⟩

theorem BuildsNothing.of_lacks (hpool : AreReadable pool)
    (h : ∀ block, IsBlock k block → ¬ block.Sublist pool) : BuildsNothing k pool := by
  rcases buildAs_cases k hpool with hnothing | ⟨a, block, rest, hbuilds⟩
  · exact hnothing
  · exact absurd hbuilds.takes.sublist (h block hbuilds.isBlock)

/-- Nothing is built from a pool that lacks the kinds that blocks begin with. -/
theorem BuildsNothing.of_kinds (hpool : AreReadable pool)
    (h : ∀ kind, leads? kind = some k → Lacks kind pool) : BuildsNothing k pool := by
  refine .of_lacks hpool fun block hblock hsub => ?_
  obtain ⟨t, kind, ht, hkind, hk⟩ := hblock.exists_lead
  exact h kind hk t (hsub.subset ht) hkind

/-- For single transactions the order of the pool does not matter. -/
theorem BuildsNothing.of_perm {pool' : List Transaction} (h : BuildsNothing k pool)
    (hk : k ≠ .streamingPayment) (hpool : AreReadable pool) (hperm : pool'.Perm pool) :
    BuildsNothing k pool' := by
  refine .of_lacks (fun t ht => hpool t (hperm.subset ht)) fun block hblock hsub => ?_
  obtain ⟨t, rfl, -⟩ := hblock.eq_singleton hk
  exact h.lacks [t] hblock (List.singleton_sublist.mpr (hperm.subset (List.singleton_sublist.mp hsub)))

end Proposals.Handler
