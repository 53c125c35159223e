import Proposals.Proofs.Handler.Block

/-!
# `Proofs.Handler.Stream` — streams claim their funding

A stream becomes a streaming payment when the transactions that fund it stand behind it. What they are
compared by are contracts, which are texts, and amounts, which are natural numbers; on such pools
(`AreComparable`) the search takes the funding as a pattern (`takeFunding_of_takes`), and it fails exactly
when the stream is not funded by what stands behind it (`takeFunding_eq_none`). The builder passes over
everything else, so it finds the first stream that is funded, if there is one
(`buildStreamingPayment_split`). On readable pools it takes a block out of the pool
(`buildStreamingPayment_cases`).
-/

namespace Proposals

/-- What a stream and its funding are compared by: the contract is a text and the amount a natural number
    of any size. -/
structure Stream.IsComparable (s : Stream) : Prop where
  contract : s.contract.IsText
  amount : s.amount.IsNatural

/-- The transaction is of a kind. If it can be a stream or part of its funding, its contract is a text and
    its amount a natural number. -/
def Transaction.IsComparable : Transaction → Prop
  | .stream s => s.IsComparable
  | .usdcTransferViaPayer receiver amount => receiver.IsText ∧ amount.IsNatural
  | .wethDeposit value => value.IsNatural
  | .wethTransfer receiver amount => receiver.IsText ∧ amount.IsNatural
  | .foreign => False
  | _ => True

theorem Stream.IsReadable.isComparable {s : Stream} (h : s.IsReadable) : s.IsComparable :=
  ⟨h.contract.isText, h.amount.isNatural⟩

theorem Transaction.IsReadable.isComparable {t : Transaction} (h : t.IsReadable) : t.IsComparable := by
  cases t with
  | stream s => exact Stream.IsReadable.isComparable h
  | usdcTransferViaPayer receiver amount | wethTransfer receiver amount =>
    exact ⟨h.1.isText, h.2.isNatural⟩
  | wethDeposit value => exact h
  | foreign => exact h
  | _ => trivial

theorem Transaction.IsComparable.exists_kind {t : Transaction} (h : t.IsComparable) :
    ∃ k, t.kind = .ok k := by
  cases t with
  | foreign => exact h.elim
  | _ => exact ⟨_, rfl⟩

namespace Handler

open Proposals.Amount Proposals.Outcome

variable {s : Stream} {c : Currency} {after left rest : List Transaction}

/-- All transactions of the pool are comparable. -/
def AreComparable (pool : List Transaction) : Prop := ∀ t ∈ pool, t.IsComparable

theorem AreComparable.sublist {pool pool' : List Transaction} (h : AreComparable pool)
    (hsub : pool'.Sublist pool) : AreComparable pool' := fun t ht => h t (hsub.subset ht)

theorem AreReadable.areComparable {pool : List Transaction} (h : AreReadable pool) :
    AreComparable pool := fun t ht => (h t ht).isComparable

/-! ## The tests -/

/-- Receiver and amount are compared as numbers and texts, which on comparable values is equality. -/
theorem same_pair_iff {receiver amount : Value} (hs : s.IsComparable) (hreceiver : receiver.IsText)
    (hamount : amount.IsNatural) :
    (receiver.same s.contract && amount.same s.amount) = true ↔
      receiver = s.contract ∧ amount = s.amount := by
  rw [Bool.and_eq_true, Value.IsText.same_iff hreceiver hs.contract,
    Value.IsNatural.same_iff hamount hs.amount]

theorem finds_paysStream (hs : s.IsComparable) (hafter : AreComparable after) :
    Finds (paysStream s) (.usdcTransferViaPayer s.contract s.amount) after := by
  constructor
  · show Except.ok (s.contract.same s.contract && s.amount.same s.amount) = .ok true
    rw [(same_pair_iff hs hs.contract hs.amount).mpr ⟨rfl, rfl⟩]
  · intro t ht hne
    have hcomparable := hafter t ht
    cases t with
    | usdcTransferViaPayer receiver amount =>
      show Except.ok (receiver.same s.contract && amount.same s.amount) = .ok false
      refine congrArg Except.ok (Bool.eq_false_iff.mpr ?_)
      intro h
      obtain ⟨rfl, rfl⟩ := (same_pair_iff hs hcomparable.1 hcomparable.2).mp h
      exact hne rfl
    | foreign => exact hcomparable.elim
    | _ => rfl

theorem finds_wrapsForStream (hs : s.IsComparable) (hafter : AreComparable after) :
    Finds (wrapsForStream s) (.wethDeposit s.amount) after := by
  constructor
  · show Except.ok (s.amount.same s.amount) = .ok true
    rw [(Value.IsNatural.same_iff hs.amount hs.amount).mpr rfl]
  · intro t ht hne
    have hcomparable := hafter t ht
    cases t with
    | wethDeposit value =>
      show Except.ok (value.same s.amount) = .ok false
      refine congrArg Except.ok (Bool.eq_false_iff.mpr ?_)
      intro h
      rw [(Value.IsNatural.same_iff hcomparable hs.amount).mp h] at hne
      exact hne rfl
    | foreign => exact hcomparable.elim
    | _ => rfl

theorem finds_sendsToStream (hs : s.IsComparable) (hafter : AreComparable after) :
    Finds (sendsToStream s) (.wethTransfer s.contract s.amount) after := by
  constructor
  · show Except.ok (s.contract.same s.contract && s.amount.same s.amount) = .ok true
    rw [(same_pair_iff hs hs.contract hs.amount).mpr ⟨rfl, rfl⟩]
  · intro t ht hne
    have hcomparable := hafter t ht
    cases t with
    | wethTransfer receiver amount =>
      show Except.ok (receiver.same s.contract && amount.same s.amount) = .ok false
      refine congrArg Except.ok (Bool.eq_false_iff.mpr ?_)
      intro h
      obtain ⟨rfl, rfl⟩ := (same_pair_iff hs hcomparable.1 hcomparable.2).mp h
      exact hne rfl
    | foreign => exact hcomparable.elim
    | _ => rfl

/-! ## The funding -/

/-- A stream carries a token in stablecoin or wrapped ether. -/
theorem currency_of_isReadable (hs : s.IsReadable) (htoken : s.token = .currency c) :
    c = .usdc ∨ c = .weth := by
  have h := hs.token
  rwa [Value.IsStreamToken, htoken, Value.currency.injEq, Value.currency.injEq] at h

/-- **The funding of a stream is taken as a pattern.** -/
theorem takeFunding_of_takes (hs : s.IsComparable) (hafter : AreComparable after)
    (htoken : s.token = .currency c) (hc : c = .usdc ∨ c = .weth) (h : Takes (fundingOf c s.contract s.amount) after left) :
    takeFunding s after = .ok (some (c, left)) := by
  unfold takeFunding
  rcases hc with rfl | rfl
  · -- stablecoin: one transaction of the payer
    obtain ⟨before, rest, left', hx, hnil, rfl, rfl⟩ := Takes.exists_split h
    obtain rfl := hnil.eq_of_nil
    simp only [htoken, (finds_paysStream hs hafter).splitFirst_append hx, ok_bind]
    rfl
  · -- wrapped ether: the deposit, and behind it the transfer
    obtain ⟨before, behind, left', hx, hsecond, rfl, rfl⟩ := Takes.exists_split h
    have hbehind := hafter.sublist ((List.sublist_cons_self _ _).trans (List.sublist_append_right _ _))
    obtain ⟨between, rest, left'', hy, hnil, rfl, rfl⟩ := hsecond.exists_split
    obtain rfl := hnil.eq_of_nil
    simp only [htoken, (finds_wrapsForStream hs hafter).splitFirst_append hx, ok_bind,
      (finds_sendsToStream hs hbehind).splitFirst_append hy, ← List.append_assoc]
    rfl

/-- The stream carries stablecoin or wrapped ether, and the transactions contain its funding. -/
def IsFunded (s : Stream) (after : List Transaction) : Prop :=
  ∃ c, s.token = .currency c ∧ (c = .usdc ∨ c = .weth) ∧
    (fundingOf c s.contract s.amount).Sublist after

/-- **No funding is found for a stream that is not funded.** -/
theorem takeFunding_eq_none (hs : s.IsComparable) (hafter : AreComparable after)
    (h : ¬ IsFunded s after) : takeFunding s after = .ok none := by
  unfold takeFunding
  split
  · next htoken =>
    have hx : Transaction.usdcTransferViaPayer s.contract s.amount ∉ after :=
      fun hmem => h ⟨.usdc, htoken, .inl rfl, List.singleton_sublist.mpr hmem⟩
    simp only [(finds_paysStream hs hafter).splitFirst_of_not_mem hx, ok_bind]
    rfl
  · next htoken =>
    by_cases hx : Transaction.wethDeposit s.amount ∈ after
    · -- the search only looks behind the first deposit, where a later one would leave even less
      obtain ⟨before, rest, rfl, hbefore⟩ := List.eq_append_cons_of_mem hx
      have hrest := hafter.sublist ((List.sublist_cons_self _ _).trans (List.sublist_append_right _ _))
      have hy : Transaction.wethTransfer s.contract s.amount ∉ rest := fun hmem =>
        h ⟨.weth, htoken, .inr rfl,
          ((List.singleton_sublist.mpr hmem).cons_cons _).trans (List.sublist_append_right _ _)⟩
      simp only [(finds_wrapsForStream hs hafter).splitFirst_append hbefore, ok_bind,
        (finds_sendsToStream hs hrest).splitFirst_of_not_mem hy]
      rfl
    · simp only [(finds_wrapsForStream hs hafter).splitFirst_of_not_mem hx, ok_bind]
      rfl
  · rfl

/-! ## The builder -/

variable {t : Transaction} {a : Action} {block pool : List Transaction}

/-- The transaction is no stream that the transactions fund. -/
def IsUnfunded (t : Transaction) (rest : List Transaction) : Prop :=
  ∀ s, t = .stream s → ¬ IsFunded s rest

/-- The action of a comparable stream, with the amount written in its currency. -/
theorem exists_streamingPaymentOf (hs : s.IsComparable) (c : Currency) :
    ∃ amount, formatUnits s.amount c.decimals = .ok amount ∧ streamingPaymentOf s c =
      .ok (.streamingPayment
        ⟨s.receiver, s.token, .text amount, s.start, s.stop, s.contract, s.nonce⟩) := by
  obtain ⟨text, n, htext, -, -⟩ := exists_amountIn c hs.amount
  have hformat : formatUnits s.amount c.decimals = .ok text := by
    obtain ⟨amount, hamount, heq⟩ := map_eq_ok.mp htext
    cases heq
    exact hamount
  refine ⟨text, hformat, ?_⟩
  unfold streamingPaymentOf
  rw [htext]
  rfl

/-- The first stream that is funded is built. -/
theorem buildStreamingPayment_funded (hs : s.IsComparable) (hrest : AreComparable rest)
    (htoken : s.token = .currency c) (hc : c = .usdc ∨ c = .weth)
    (h : Takes (fundingOf c s.contract s.amount) rest left) (ha : streamingPaymentOf s c = .ok a) :
    buildStreamingPayment (.stream s :: rest) = .ok (some (a, left)) := by
  unfold buildStreamingPayment
  simp only [takeFunding_of_takes hs hrest htoken hc h, ok_bind, ha]
  rfl

/-- Everything in front of it is passed over. -/
theorem buildStreamingPayment_unfunded (ht : t.IsComparable) (hrest : AreComparable rest)
    (h : IsUnfunded t rest) : buildStreamingPayment (t :: rest) =
      (buildStreamingPayment rest).map (Option.map fun (a, left) => (a, t :: left)) := by
  obtain ⟨k, hk⟩ := ht.exists_kind
  rw [buildStreamingPayment, hk]
  cases t with
  | stream s =>
    simp only [takeFunding_eq_none ht hrest (h s rfl), ok_bind, pure_eq_ok]
    rfl
  | _ => rfl

/-- Transactions that are no streams are passed over. -/
theorem buildStreamingPayment_skip {before : List Transaction} (hpool : AreComparable (before ++ pool))
    (hbefore : ∀ t ∈ before, t.kind? ≠ some .stream)
    (h : buildStreamingPayment pool = .ok (some (a, rest))) :
    buildStreamingPayment (before ++ pool) = .ok (some (a, before ++ rest)) := by
  induction before with
  | nil => exact h
  | cons t before ih =>
    have hunfunded : IsUnfunded t (before ++ pool) := by
      rintro s rfl
      exact absurd rfl (hbefore _ List.mem_cons_self)
    have hrest := hpool.sublist (List.sublist_cons_self t (before ++ pool))
    have hbuilt := ih hrest fun u hu => hbefore u (List.mem_cons_of_mem _ hu)
    rw [List.cons_append,
      buildStreamingPayment_unfunded (hpool t List.mem_cons_self) hrest hunfunded, hbuilt]
    rfl

/-- A stream of the pool that is funded by what stands behind it, while nothing in front of it is. -/
structure FirstFunded (pool before after left : List Transaction) (s : Stream) (c : Currency) : Prop where
  stands : pool = before ++ .stream s :: after
  first : ∀ front t back, before = front ++ t :: back → IsUnfunded t (back ++ .stream s :: after)
  token : s.token = .currency c
  carried : c = .usdc ∨ c = .weth
  takes : Takes (fundingOf c s.contract s.amount) after left

/-- What is funded first behind an unfunded transaction is funded first with it. -/
theorem FirstFunded.cons {before : List Transaction} (h : FirstFunded pool before after left s c)
    (ht : IsUnfunded t pool) : FirstFunded (t :: pool) (t :: before) after left s c where
  stands := by rw [h.stands, List.cons_append]
  first front u back heq := by
    cases front with
    | nil =>
      obtain ⟨rfl, rfl⟩ := List.cons.inj heq
      rw [← h.stands]
      exact ht
    | cons v front =>
      rw [List.cons_append] at heq
      exact h.first front u back (List.cons.inj heq).2
  token := h.token
  carried := h.carried
  takes := h.takes

/-- **The builder takes the first stream that is funded, with its funding, or no stream is funded.** -/
theorem buildStreamingPayment_split (hpool : AreComparable pool) :
    (buildStreamingPayment pool = .ok none ∧
      ∀ front t back, pool = front ++ t :: back → IsUnfunded t back) ∨
    ∃ before after left s c a, FirstFunded pool before after left s c ∧
      streamingPaymentOf s c = .ok a ∧
      buildStreamingPayment pool = .ok (some (a, before ++ left)) := by
  induction pool with
  | nil => exact .inl ⟨rfl, fun front t back heq => absurd heq (by simp)⟩
  | cons t pool ih =>
    have ht : t.IsComparable := hpool t List.mem_cons_self
    have hrest : AreComparable pool := hpool.sublist (List.sublist_cons_self _ _)
    by_cases hfunded : IsUnfunded t pool
    · -- the first transaction stays, so whatever happens behind it happens here
      rw [buildStreamingPayment_unfunded ht hrest hfunded]
      rcases ih hrest with ⟨hnone, hall⟩ | ⟨before, after, left, s, c, a, hfirst, ha, hbuilt⟩
      · rw [hnone]
        refine .inl ⟨rfl, fun front u back heq => ?_⟩
        cases front with
        | nil =>
          obtain ⟨rfl, rfl⟩ := List.cons.inj heq
          exact hfunded
        | cons v front => exact hall front u back (List.cons.inj heq).2
      · rw [hbuilt]
        exact .inr ⟨t :: before, after, left, s, c, a, hfirst.cons hfunded, ha, rfl⟩
    · -- the first transaction is a stream, and its funding can be taken
      simp only [IsUnfunded, not_forall, not_not] at hfunded
      obtain ⟨s, rfl, c, htoken, hc, hsub⟩ := hfunded
      obtain ⟨left, hleft⟩ := exists_takes hsub
      obtain ⟨amount, -, ha⟩ := exists_streamingPaymentOf ht c
      refine .inr ⟨[], pool, left, s, c, _, ⟨rfl, ?_, htoken, hc, hleft⟩, ha, ?_⟩
      · exact fun front u back heq => absurd heq (by simp)
      · exact buildStreamingPayment_funded ht hrest htoken hc hleft ha

/-! ## Readable pools -/

/-- A block in front of a pool is built from there. -/
theorem buildStreamingPayment_append (hblock : IsBlock .streamingPayment block)
    (ha : actionOf block = .ok a) (hreadable : AreReadable (block ++ rest)) :
    buildStreamingPayment (block ++ rest) = .ok (some (a, rest)) := by
  obtain ⟨s, c, htoken, rfl⟩ := hblock
  rw [actionOf, htoken] at ha
  have hs : s.IsReadable := hreadable _ List.mem_cons_self
  exact buildStreamingPayment_funded hs.isComparable
    (hreadable.areComparable.sublist (List.sublist_cons_self _ _)) htoken
    (currency_of_isReadable hs htoken) (.append _ rest) ha

/-- A stream that is funded first is taken with its funding: an equal stream in front would have been
    funded by the same transactions. -/
theorem FirstFunded.takes_block {before : List Transaction}
    (h : FirstFunded pool before after left s c) :
    Takes (.stream s :: fundingOf c s.contract s.amount) pool (before ++ left) := by
  rw [h.stands]
  refine .next (fun hmem => ?_) h.takes
  obtain ⟨front, back, rfl⟩ := List.append_of_mem hmem
  refine h.first front (.stream s) back rfl s rfl ⟨c, h.token, h.carried, ?_⟩
  exact h.takes.sublist.trans ((List.sublist_cons_self _ _).trans (List.sublist_append_right _ _))

/-- **The builder of streams takes a block out of the pool, or the pool contains none.** -/
theorem buildStreamingPayment_cases (hpool : AreReadable pool) :
    (buildStreamingPayment pool = .ok none ∧
      ∀ block, IsBlock .streamingPayment block → ¬ block.Sublist pool) ∨
    ∃ a block rest, buildStreamingPayment pool = .ok (some (a, rest)) ∧
      IsBlock .streamingPayment block ∧ actionOf block = .ok a ∧ Takes block pool rest := by
  rcases buildStreamingPayment_split hpool.areComparable with
    ⟨hnone, hall⟩ | ⟨before, after, left, s, c, a, hfirst, ha, hbuilt⟩
  · refine .inl ⟨hnone, ?_⟩
    rintro block ⟨s, c, htoken, rfl⟩ hsub
    have hs : s.IsReadable := hpool _ (hsub.subset List.mem_cons_self)
    obtain ⟨front, behind, rfl, hmem, hfunding⟩ := List.cons_sublist_iff.mp hsub
    obtain ⟨before, between, rfl⟩ := List.append_of_mem hmem
    refine hall before (.stream s) (between ++ behind) (by simp) s rfl
      ⟨c, htoken, currency_of_isReadable hs htoken, ?_⟩
    exact hfunding.trans (List.sublist_append_right _ _)
  · refine .inr ⟨a, _, before ++ left, hbuilt, ⟨s, c, hfirst.token, rfl⟩, ?_, hfirst.takes_block⟩
    rw [actionOf, hfirst.token]
    exact ha

end Handler

end Proposals
