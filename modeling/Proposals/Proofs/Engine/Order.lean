import Proposals.Proofs.Engine.Run

/-!
# `Proofs.Engine.Order` — the order in which blocks are taken

When a pool consists of whole blocks, the loop takes exactly these blocks: first the streams, each with
the funding that stands right behind it, then the payments in ether, the payments in stablecoin, the
top-ups and the transfers of nouns, and the blocks of each kind in their order (`run_of_items`). The
proof goes kind by kind: as long as blocks of the first kind are left, the first of them is what the loop
takes next (`round_of_first`).
-/

namespace Proposals

/-- The kind of the first transaction that an action stands for. -/
def Action.lead? : Action → Option TransactionKind
  | .streamingPayment _ => some .stream
  | .oneTimePayment _ (.currency .eth) _ => some .transfer
  | .oneTimePayment _ (.currency .usdc) _ => some .usdcTransferViaPayer
  | .payerTopUp _ => some .payerTopUp
  | .treasuryNounTransfer _ _ => some .treasuryNounTransfer
  | _ => none

namespace Engine

open Proposals.Handler Proposals.Outcome

/-- The kinds of first transactions, in the order in which the loop takes their blocks. -/
def leads : List TransactionKind :=
  [.stream, .transfer, .usdcTransferViaPayer, .payerTopUp, .treasuryNounTransfer]

/-- The actions in the order in which the loop takes them: streaming payments, payments in ether, payments
    in stablecoin, top-ups and transfers of nouns, each part in its original order. -/
def inOrder (actions : List Action) : List Action :=
  leads.flatMap fun lead => actions.filter fun a => a.lead? = some lead

/-! ## Blocks with their actions -/

/-- An action with its block, and the kind of the first transaction of the block. -/
structure Item where
  action : Action
  block : List Transaction
  lead : TransactionKind
  stands : actionOf block = .ok action
  led : action.lead? = some lead
  shape : (lead = .stream ∧ IsBlock .streamingPayment block) ∨
    ∃ t k, block = [t] ∧ t.kind? = some lead ∧ alone? lead = some k

theorem exists_item {k : ActionKind} {block : List Transaction} {a : Action} (hblock : IsBlock k block)
    (ha : actionOf block = .ok a) : ∃ i : Item, i.action = a ∧ i.block = block := by
  cases k with
  | streamingPayment =>
    obtain ⟨s, c, htoken, rfl⟩ := id hblock
    have hstream : a.lead? = some .stream := by
      rw [actionOf, htoken] at ha
      obtain ⟨amount, -, ha⟩ := bind_eq_ok.mp ha
      cases ha; rfl
    exact ⟨⟨a, _, .stream, ha, hstream, .inl ⟨rfl, hblock⟩⟩, rfl, rfl⟩
  | oneTimePayment =>
    rcases hblock with ⟨target, value, rfl⟩ | ⟨receiver, amount, rfl⟩
    · obtain ⟨text, -, rfl⟩ := map_eq_ok.mp ha
      exact ⟨⟨_, _, .transfer, ha, rfl, .inr ⟨_, _, rfl, rfl, rfl⟩⟩, rfl, rfl⟩
    · obtain ⟨text, -, rfl⟩ := map_eq_ok.mp ha
      exact ⟨⟨_, _, .usdcTransferViaPayer, ha, rfl, .inr ⟨_, _, rfl, rfl, rfl⟩⟩, rfl, rfl⟩
  | payerTopUp =>
    obtain ⟨value, rfl⟩ := hblock
    obtain ⟨text, -, rfl⟩ := map_eq_ok.mp ha
    exact ⟨⟨_, _, .payerTopUp, ha, rfl, .inr ⟨_, _, rfl, rfl, rfl⟩⟩, rfl, rfl⟩
  | treasuryNounTransfer =>
    obtain ⟨receiver, nounId, rfl⟩ := hblock
    cases id ha
    exact ⟨⟨_, _, .treasuryNounTransfer, ha, rfl, .inr ⟨_, _, rfl, rfl, rfl⟩⟩, rfl, rfl⟩
  | customTransaction => exact absurd hblock (by simp [IsBlock])

namespace Item

theorem lead_mem (i : Item) : i.lead ∈ leads := by
  rcases i.shape with ⟨hlead, -⟩ | ⟨t, k, -, -, hk⟩
  · rw [hlead]; decide
  · revert hk
    cases i.lead <;> simp [alone?, leads]

/-- The transactions of a block that is no stream are of its kind. -/
theorem lacks (i : Item) {kind : TransactionKind} (hstream : i.lead ≠ .stream) (hkind : i.lead ≠ kind) :
    Lacks kind i.block := by
  rcases i.shape with ⟨hlead, -⟩ | ⟨t, k, hblock, ht, -⟩
  · exact absurd hlead hstream
  · intro u hu hukind
    rw [hblock, List.mem_singleton] at hu
    rw [hu, ht] at hukind
    exact hkind (Option.some.inj hukind)

end Item

/-- The blocks of the items, one after the other. -/
def poolOf (items : List Item) : List Transaction := (items.map (·.block)).flatten

theorem poolOf_append (items items' : List Item) :
    poolOf (items ++ items') = poolOf items ++ poolOf items' := by
  unfold poolOf
  rw [List.map_append, List.flatten_append]

theorem poolOf_cons (i : Item) (items : List Item) : poolOf (i :: items) = i.block ++ poolOf items := rfl

theorem lacks_poolOf {items : List Item} {kind : TransactionKind}
    (h : ∀ i ∈ items, i.lead ≠ .stream ∧ i.lead ≠ kind) : Lacks kind (poolOf items) := by
  intro t ht
  obtain ⟨block, hblock, ht⟩ := List.mem_flatten.mp ht
  obtain ⟨i, hi, rfl⟩ := List.mem_map.mp hblock
  exact i.lacks (h i hi).1 (h i hi).2 t ht

/-! ## The first block of the first kind -/

/-- The kinds that come before one. -/
def leadsBefore (lead : TransactionKind) : List TransactionKind := leads.takeWhile (· ≠ lead)

/-- The handler of a kind is only preceded by handlers whose blocks begin with kinds before it. -/
theorem exists_handler {lead : TransactionKind} (h : lead ∈ leads) :
    ∃ earlier k later, defaultHandlers = earlier ++ k :: later ∧ leads? lead = some k ∧
      ∀ k' ∈ earlier, ∀ kind ∈ TransactionKind.all, leads? kind = some k' → kind ∈ leadsBefore lead := by
  have hcases : lead = .stream ∨ lead = .transfer ∨ lead = .usdcTransferViaPayer ∨ lead = .payerTopUp ∨
      lead = .treasuryNounTransfer := by simpa [leads] using h
  rcases hcases with rfl | rfl | rfl | rfl | rfl
  · exact ⟨[], _, _, rfl, rfl, by decide⟩
  · exact ⟨[.streamingPayment], _, _, rfl, rfl, by decide⟩
  · exact ⟨[.streamingPayment], _, _, rfl, rfl, by decide⟩
  · exact ⟨[.streamingPayment, .oneTimePayment], _, _, rfl, rfl, by decide⟩
  · exact ⟨[.streamingPayment, .oneTimePayment, .payerTopUp], _, _, rfl, rfl, by decide⟩

theorem stream_mem_leadsBefore {lead : TransactionKind} (h : lead ≠ .stream) :
    .stream ∈ leadsBefore lead := by
  cases lead <;> first | exact absurd rfl h | decide

variable {before after items : List Item} {i : Item}

/-- No block begins with a kind before that of the first one, and then none contains it: streams, whose
    funding could, come before all. -/
theorem lacks_of_mem_leadsBefore {lead kind : TransactionKind}
    (hall : ∀ j ∈ items, j.lead ∉ leadsBefore lead) (hkind : kind ∈ leadsBefore lead) :
    Lacks kind (poolOf items) := by
  have hlead : lead ≠ .stream := by
    rintro rfl
    exact absurd hkind (by simp [leadsBefore, leads])
  refine lacks_poolOf fun j hj => ⟨fun heq => ?_, fun heq => ?_⟩
  · exact hall j hj (heq ▸ stream_mem_leadsBefore hlead)
  · exact hall j hj (heq ▸ hkind)

/-- A stream is built with its funding behind it if no stream stands in front. -/
theorem builds_of_stream (hbefore : ∀ j ∈ before, j.lead ≠ .stream)
    (hblock : IsBlock .streamingPayment i.block)
    (hreadable : AreReadable (poolOf before ++ (i.block ++ poolOf after))) :
    Builds .streamingPayment (poolOf before ++ (i.block ++ poolOf after)) i.action i.block
      (poolOf before ++ poolOf after) := by
  have hlacks : Lacks .stream (poolOf before) :=
    lacks_poolOf fun j hj => ⟨hbefore j hj, hbefore j hj⟩
  have hbuilt := buildStreamingPayment_append hblock i.stands
    (hreadable.sublist (List.sublist_append_right _ _))
  have htakes : Takes i.block (poolOf before ++ (i.block ++ poolOf after))
      (poolOf before ++ poolOf after) := by
    obtain ⟨s, c, -, heq⟩ := id hblock
    rw [heq]
    exact .next (fun hmem => hlacks _ hmem rfl) (.append _ _)
  exact builds_stream hreadable hblock i.stands htakes
    (buildStreamingPayment_skip hreadable.areComparable hlacks hbuilt)

theorem leads?_eq_alone? {lead : TransactionKind} (h : lead ≠ .stream) : leads? lead = alone? lead := by
  cases lead <;> first | exact absurd rfl h | rfl

/-- The first block of the first kind is built by the handler of the kind. -/
theorem builds_of_first {k : ActionKind} (hk : leads? i.lead = some k)
    (hbefore : ∀ j ∈ before, j.lead ≠ i.lead)
    (hall : ∀ j ∈ before ++ i :: after, j.lead ∉ leadsBefore i.lead)
    (hreadable : AreReadable (poolOf (before ++ i :: after))) :
    Builds k (poolOf (before ++ i :: after)) i.action i.block (poolOf (before ++ after)) := by
  have hkinds : ∀ kind ∈ leadsBefore i.lead, Lacks kind (poolOf (before ++ i :: after)) := fun _ =>
    lacks_of_mem_leadsBefore hall
  rw [poolOf_append, poolOf_cons] at hreadable hkinds ⊢
  rw [poolOf_append]
  rcases i.shape with ⟨hlead, hblock⟩ | ⟨t, k', hblock, ht, hk'⟩
  · rw [hlead] at hk hbefore
    cases hk
    exact builds_of_stream hbefore hblock hreadable
  · -- a single transaction, the first of its kind
    have hlead : i.lead ≠ .stream := by
      intro hlead
      rw [hlead] at hk'
      exact absurd hk' (by simp [alone?])
    obtain rfl : k = k' := Option.some.inj (hk.symm.trans ((leads?_eq_alone? hlead).trans hk'))
    have hlacks : Lacks i.lead (poolOf before) := lacks_poolOf fun j hj =>
      ⟨fun heq => hall j (List.mem_append_left _ hj) (heq ▸ stream_mem_leadsBefore hlead), hbefore j hj⟩
    have hstands := i.stands
    rw [hblock] at hreadable hkinds hstands ⊢
    refine builds_first hk' ht hreadable hlacks (fun heq => hkinds _ ?_) hstands
    rw [heq]
    decide

/-- **The first block of the first kind is taken next.** -/
theorem round_of_first (hbefore : ∀ j ∈ before, j.lead ≠ i.lead)
    (hall : ∀ j ∈ before ++ i :: after, j.lead ∉ leadsBefore i.lead)
    (hreadable : AreReadable (poolOf (before ++ i :: after))) :
    Round defaultHandlers (poolOf (before ++ i :: after)) i.action i.block
      (poolOf (before ++ after)) := by
  obtain ⟨earlier, k, later, hsplit, hk, hearlier⟩ := exists_handler i.lead_mem
  refine ⟨earlier, k, later, hsplit, fun k' hk' => ?_, builds_of_first hk hbefore hall hreadable⟩
  -- an earlier handler builds blocks that begin with kinds before this one
  refine .of_kinds hreadable fun kind hkind => ?_
  exact lacks_of_mem_leadsBefore hall (hearlier k' hk' kind kind.mem_all hkind)

/-! ## All blocks -/

/-- Taking all blocks of the first kind. -/
theorem run_of_kind {lead : TransactionKind} {actions : List Action} {blocks : List (List Transaction)}
    (hbefore : ∀ j ∈ before, j.lead ≠ lead)
    (hall : ∀ j ∈ before ++ items, j.lead ∉ leadsBefore lead)
    (hreadable : AreReadable (poolOf (before ++ items)))
    (hrun : Run defaultHandlers (poolOf (before ++ items.filter fun j => j.lead ≠ lead)) actions blocks
      []) :
    Run defaultHandlers (poolOf (before ++ items))
      ((items.filter fun j => j.lead = lead).map (·.action) ++ actions)
      ((items.filter fun j => j.lead = lead).map (·.block) ++ blocks) [] := by
  -- `before` collects the blocks of later kinds that the loop has to look past
  induction items generalizing before with
  | nil => exact hrun
  | cons i items ih =>
    by_cases hi : i.lead = lead
    · subst hi
      have hround := round_of_first hbefore hall hreadable
      obtain ⟨k, -, hbuilds⟩ := hround.exists_builds
      have hsub : (before ++ items).Sublist (before ++ i :: items) :=
        (List.sublist_cons_self _ _).append_left _
      rw [List.filter_cons_of_neg (by simp)] at hrun
      have hrest := ih hbefore (fun j hj => hall j (hsub.subset hj))
        (hreadable.sublist hbuilds.takes.left_sublist) hrun
      rw [List.filter_cons_of_pos (by simp)]
      exact .round hround hrest
    · -- the block stays where it is, in front of the others
      have hmove : ∀ rest : List Item, before ++ i :: rest = (before ++ [i]) ++ rest := fun rest => by
        rw [List.append_assoc, List.singleton_append]
      have hbefore' : ∀ j ∈ before ++ [i], j.lead ≠ lead := by
        intro j hj
        rcases List.mem_append.mp hj with hj | hj
        · exact hbefore j hj
        · rwa [List.mem_singleton.mp hj]
      rw [List.filter_cons_of_pos (by simpa using hi), hmove] at hrun
      rw [hmove] at hall hreadable ⊢
      rw [List.filter_cons_of_neg (by simpa using hi)]
      exact ih hbefore' hall hreadable hrun

/-- The kinds before one of them are those that stand before it. -/
theorem leadsBefore_eq {earlier later : List TransactionKind} {lead : TransactionKind}
    (h : leads = earlier ++ lead :: later) : leadsBefore lead = earlier := by
  have hnodup : (earlier ++ lead :: later).Nodup := h ▸ (by decide : leads.Nodup)
  have hmem : ∀ kind ∈ earlier, kind ≠ lead := by
    rintro kind hkind rfl
    exact (List.nodup_append.mp hnodup).2.2 kind hkind kind List.mem_cons_self rfl
  unfold leadsBefore
  rw [h, List.takeWhile_append_of_pos (by simpa using hmem), List.takeWhile_cons_of_neg (by simp),
    List.append_nil]

/-- Items of the given kinds, kind by kind. -/
def inOrderOf (order : List TransactionKind) (items : List Item) : List Item :=
  order.flatMap fun lead => items.filter fun i => i.lead = lead

/-- Items of another kind are not missed. -/
theorem inOrderOf_filter {order : List TransactionKind} {lead : TransactionKind} (h : lead ∉ order)
    (items : List Item) :
    inOrderOf order (items.filter fun i => i.lead ≠ lead) = inOrderOf order items := by
  unfold inOrderOf
  refine List.flatMap_congr fun lead' hlead' => ?_
  rw [List.filter_filter]
  refine List.filter_congr fun i _ => ?_
  by_cases hi : i.lead = lead'
  · have hne : i.lead ≠ lead := fun heq => h (heq ▸ hi ▸ hlead')
    simp [hi, hi ▸ hne]
  · simp [hi]

theorem poolOf_subset {items' : List Item} (h : items' ⊆ items) : poolOf items' ⊆ poolOf items := by
  intro t ht
  obtain ⟨block, hblock, ht⟩ := List.mem_flatten.mp ht
  obtain ⟨i, hi, rfl⟩ := List.mem_map.mp hblock
  exact List.mem_flatten.mpr ⟨i.block, List.mem_map.mpr ⟨i, h hi, rfl⟩, ht⟩

/-- Taking the blocks of the last kinds, when there are no others. -/
theorem run_of_order {earlier order : List TransactionKind} (h : leads = earlier ++ order)
    (hitems : ∀ i ∈ items, i.lead ∈ order) (hreadable : AreReadable (poolOf items)) :
    Run defaultHandlers (poolOf items) ((inOrderOf order items).map (·.action))
      ((inOrderOf order items).map (·.block)) [] := by
  induction order generalizing earlier items with
  | nil =>
    have hnone : items = [] := List.eq_nil_iff_forall_not_mem.mpr fun i hi => by simpa using hitems i hi
    subst hnone
    exact .done fun k _ => .of_kinds hreadable fun kind _ t ht => absurd ht (by simp [poolOf])
  | cons lead order ih =>
    have hnodup : (earlier ++ lead :: order).Nodup := h ▸ (by decide : leads.Nodup)
    have hlead : lead ∉ order := (List.nodup_cons.mp (List.nodup_append.mp hnodup).2.1).1
    have hall : ∀ j ∈ items, j.lead ∉ leadsBefore lead := by
      intro j hj hmem
      rw [leadsBefore_eq h] at hmem
      exact (List.nodup_append.mp hnodup).2.2 _ hmem _ (hitems j hj) rfl
    -- the other blocks begin with the later kinds, so they are taken by induction
    have hothers : ∀ j ∈ items.filter fun j => j.lead ≠ lead, j.lead ∈ order := by
      intro j hj
      obtain ⟨hj, hne⟩ := List.mem_filter.mp hj
      exact (List.mem_cons.mp (hitems j hj)).resolve_left (by simpa using hne)
    have hsub : (items.filter fun j => j.lead ≠ lead) ⊆ items := List.filter_subset_self _
    have hsplit : leads = (earlier ++ [lead]) ++ order := by rw [h, List.append_assoc]; rfl
    have hrun := ih hsplit hothers fun t ht => hreadable t (poolOf_subset hsub ht)
    rw [inOrderOf_filter hlead] at hrun
    have hwhole : inOrderOf (lead :: order) items =
        (items.filter fun j => j.lead = lead) ++ inOrderOf order items := rfl
    rw [hwhole, List.map_append, List.map_append]
    have hbefore : ∀ j ∈ ([] : List Item), j.lead ≠ lead := fun j hj => absurd hj (by simp)
    exact run_of_kind hbefore hall hreadable hrun

/-- **A pool of whole blocks is taken block by block**, in the order of their kinds. -/
theorem run_of_items (hreadable : AreReadable (poolOf items)) :
    ∃ blocks, Run defaultHandlers (poolOf items) (inOrder (items.map (·.action))) blocks [] := by
  have hleads : leads = [] ++ leads := rfl
  have hrun := run_of_order hleads (fun i _ => i.lead_mem) hreadable
  have horder : (inOrderOf leads items).map (·.action) = inOrder (items.map (·.action)) := by
    unfold inOrderOf inOrder
    rw [List.map_flatMap]
    refine List.flatMap_congr fun lead _ => ?_
    rw [List.filter_map]
    refine congrArg (List.map _) (List.filter_congr fun i _ => ?_)
    simp [i.led]
  rw [horder] at hrun
  exact ⟨_, hrun⟩

end Engine

end Proposals
