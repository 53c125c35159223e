import Proposals.Proofs.Handler.Build

/-!
# `Proofs.Handler.Inverse` — building inverts resolving, in any unrelated pool

The transactions that an action resolves to are a block, and their action is the normal form of the
action: addresses in normal form, the currency itself, the amount written as the units it is read as, and
integers (`Resolved`). Transactions of other kinds may stand between those of the block in any way.
Since none of them equals a member of the block, the block is still what is taken as a pattern
(`Interleaves.takes`), and none of them can be mistaken for it; so the builder finds the normal form and
leaves the others in order (`buildAs_of_interleaves`).
-/

namespace Proposals.Handler

open Proposals.Amount Proposals.Codec Proposals.Outcome

/-! ## Interleavings -/

/-- The last list consists of the items of the first two, each in its order. -/
inductive Interleaves {α : Type} : List α → List α → List α → Prop
  | nil : Interleaves [] [] []
  | left {x : α} {xs ys zs : List α} (h : Interleaves xs ys zs) : Interleaves (x :: xs) ys (x :: zs)
  | right {y : α} {xs ys zs : List α} (h : Interleaves xs ys zs) : Interleaves xs (y :: ys) (y :: zs)

namespace Interleaves

theorem eq_of_nil {α : Type} {ys zs : List α} (h : Interleaves [] ys zs) : zs = ys := by
  generalize hxs : ([] : List α) = xs at h
  induction h with
  | nil => rfl
  | left h ih => exact absurd hxs nofun
  | right h ih => rw [ih hxs]

theorem mem_or_mem {α : Type} {xs ys zs : List α} (h : Interleaves xs ys zs) :
    ∀ z ∈ zs, z ∈ xs ∨ z ∈ ys := by
  induction h with
  | nil => exact List.forall_mem_nil _
  | left h ih =>
    refine List.forall_mem_cons.mpr ⟨.inl List.mem_cons_self, fun z hz => ?_⟩
    exact (ih z hz).imp_left (List.mem_cons_of_mem _)
  | right h ih =>
    refine List.forall_mem_cons.mpr ⟨.inr List.mem_cons_self, fun z hz => ?_⟩
    exact (ih z hz).imp_right (List.mem_cons_of_mem _)

/-- **A pattern is taken out of any interleaving** with transactions that are not of the pattern, and
    leaves these. -/
theorem takes {pattern others pool : List Transaction} (h : Interleaves pattern others pool)
    (hothers : ∀ x ∈ pattern, x ∉ others) : Takes pattern pool others := by
  induction h with
  | nil => exact .done []
  | left h ih =>
    have hrest := ih fun x hx => hothers x (List.mem_cons_of_mem _ hx)
    exact hrest.cons
  | @right y pattern others pool h ih =>
    have hrest := ih fun x hx hmem => hothers x hx (List.mem_cons_of_mem _ hmem)
    cases pattern with
    | nil =>
      rw [h.eq_of_nil]
      exact .done _
    | cons x pattern =>
      have hne : y ≠ x := by
        rintro rfl
        exact hothers y List.mem_cons_self List.mem_cons_self
      exact hrest.cons_of_ne hne

end Interleaves

/-! ## Normal forms -/

/-- The normal form of an action, as the handler of the kind reads its fields. -/
def normalAs : ActionKind → Action → Outcome Action
  | .oneTimePayment, a => do
    let c ← currencyOf (← a.field "currency")
    return .oneTimePayment (← addressOf (← a.field "target")) (.currency c)
      (← normalAmount c (← a.field "amount"))
  | .streamingPayment, a => do
    let c ← currencyOf (← a.field "currency")
    return .streamingPayment
      { target := ← addressOf (← a.field "target"), currency := .currency c,
        amount := ← normalAmount c (← a.field "amount"),
        start := .int (← (← a.field "start_timestamp").toInteger),
        stop := .int (← (← a.field "end_timestamp").toInteger),
        contract := ← addressOf (← a.field "stream_contract_address"),
        nonce := .int (← (← a.field "nonce").toInteger) }
  | .payerTopUp, a => do return .payerTopUp (← normalAmount .eth (← a.field "amount"))
  | .treasuryNounTransfer, a => do
    return .treasuryNounTransfer (← addressOf (← a.field "target")) (← a.field "noun_id")
  | .customTransaction, a => .ok a

variable {a b : Action} {k : ActionKind} {ts others pool : List Transaction}

/-- An amount that is read has a normal form: what its units are written as. -/
theorem exists_normalAmount {c : Currency} {amount : Value} {n : Nat}
    (h : parseUnits amount c.decimals = .ok n) :
    ∃ text, amountIn c (.int n) = .ok text ∧ normalAmount c amount = .ok text := by
  obtain ⟨text, -, htext, -⟩ := exists_amountIn c (v := .int n) ⟨n, rfl⟩
  exact ⟨_, htext, (normalAmount_eq h).trans htext⟩

/-- What an action resolves to is its block, and the action of the block is the normal form. -/
structure Resolved (k : ActionKind) (a b : Action) (ts : List Transaction) : Prop where
  normal : normalAs k a = .ok b
  isBlock : IsBlock k ts
  action : actionOf ts = .ok b

theorem exists_resolved_oneTimePayment (h : resolveOneTimePayment a = .ok ts) :
    ∃ b, Resolved .oneTimePayment a b ts := by
  obtain ⟨currency, amount, target, c, units, account, hcurrency, hamount, htarget, hgiven, hc, hunits,
    haccount, rfl⟩ := resolveOneTimePayment_sound h
  obtain ⟨text, htext, hnormal⟩ := exists_normalAmount hunits
  refine ⟨.oneTimePayment account (.currency c) text, ?_, ?_, ?_⟩
  · simp only [normalAs, hcurrency, currencyOf_eq hgiven, htarget, haccount, hamount, hnormal, ok_bind,
      pure_eq_ok]
  · rcases hc with rfl | rfl
    · exact .inl ⟨account, .int units, rfl⟩
    · exact .inr ⟨account, .int units, rfl⟩
  · rcases hc with rfl | rfl
    · show (amountIn .eth (.int units)).map _ = _
      rw [htext]
      rfl
    · show (amountIn .usdc (.int units)).map _ = _
      rw [htext]
      rfl

theorem exists_resolved_payerTopUp (h : resolvePayerTopUp a = .ok ts) :
    ∃ b, Resolved .payerTopUp a b ts := by
  obtain ⟨amount, units, hamount, hunits, rfl⟩ := resolvePayerTopUp_sound h
  obtain ⟨text, htext, hnormal⟩ := exists_normalAmount hunits
  refine ⟨.payerTopUp text, ?_, ⟨_, rfl⟩, ?_⟩
  · simp only [normalAs, hamount, hnormal, ok_bind, pure_eq_ok]
  · rw [actionOf, htext]
    rfl

theorem exists_resolved_treasuryNounTransfer (h : resolveTreasuryNounTransfer a = .ok ts) :
    ∃ b, Resolved .treasuryNounTransfer a b ts := by
  obtain ⟨target, nounId, rfl⟩ := exists_treasuryNounTransfer h
  obtain ⟨n, account, rfl, haccount, rfl⟩ := resolveTreasuryNounTransfer_eq_ok.mp h
  refine ⟨.treasuryNounTransfer account (.int n), ?_, ⟨_, _, rfl⟩, rfl⟩
  show (addressOf target >>= _) = _
  rw [haccount]
  rfl

/-- A streaming payment resolves to a stream that can be compared, and its funding. -/
theorem exists_resolved_streamingPayment (h : resolveStreamingPayment a = .ok ts) :
    ∃ b, Resolved .streamingPayment a b ts ∧ AreComparable ts ∧
      ∃ s c, s.token = .currency c ∧ (c = .usdc ∨ c = .weth) ∧
        ts = .stream s :: fundingOf c s.contract s.amount := by
  obtain ⟨p, rfl⟩ := exists_streamingPayment h
  obtain ⟨c, units, contract, receiver, start, stop, nonce, hgiven, hc, hunits, hcontract, hreceiver,
    hstart, hstop, hnonce, rfl⟩ := resolveStreamingPayment_eq_ok.mp h
  obtain ⟨text, htext, hnormal⟩ := exists_normalAmount hunits
  refine ⟨.streamingPayment ⟨receiver, .currency c, text, .int start, .int stop, contract, .int nonce⟩,
    ⟨?_, ⟨_, c, rfl, rfl⟩, ?_⟩, ?_, _, c, rfl, hc, rfl⟩
  · simp only [normalAs, field_streamingPayment p, currencyOf_eq hgiven, hreceiver, hcontract, hstart,
      hstop, hnonce, hnormal, ok_bind, pure_eq_ok]
  · simp only [actionOf, streamingPaymentOf, htext]
    rfl
  · have hcontract' : contract.IsText := (addressOf_sound hcontract).1.isText
    have hunits' : (Value.int units).IsNatural := ⟨units, rfl⟩
    rcases hc with rfl | rfl
    · exact List.forall_mem_cons.mpr
        ⟨⟨hcontract', hunits'⟩, List.forall_mem_singleton.mpr ⟨hcontract', hunits'⟩⟩
    · exact List.forall_mem_cons.mpr ⟨⟨hcontract', hunits'⟩, List.forall_mem_cons.mpr
        ⟨hunits', List.forall_mem_singleton.mpr ⟨hcontract', hunits'⟩⟩⟩

/-! ## Unrelated transactions -/

/-- None of the transactions is of a kind that actions of the kind stand for. -/
def AreUnrelated (k : ActionKind) (others : List Transaction) : Prop :=
  ∀ t ∈ others, ∃ kind, t.kind? = some kind ∧ kind ∉ transactionKinds k

theorem AreUnrelated.lacks (h : AreUnrelated k others) {kind : TransactionKind}
    (hkind : kind ∈ transactionKinds k) : Lacks kind others := by
  intro t ht heq
  obtain ⟨kind', hkind', hnot⟩ := h t ht
  cases hkind'.symm.trans heq
  exact hnot hkind

/-- A block is of the kinds that its actions stand for. -/
theorem IsBlock.exists_kind (h : IsBlock k ts) :
    ∀ t ∈ ts, ∃ kind, t.kind? = some kind ∧ kind ∈ transactionKinds k := by
  cases k with
  | oneTimePayment =>
    rcases h with ⟨target, value, rfl⟩ | ⟨receiver, amount, rfl⟩
    · exact List.forall_mem_singleton.mpr ⟨_, rfl, by decide⟩
    · exact List.forall_mem_singleton.mpr ⟨_, rfl, by decide⟩
  | streamingPayment =>
    obtain ⟨s, c, -, rfl⟩ := h
    refine List.forall_mem_cons.mpr ⟨⟨_, rfl, by decide⟩, ?_⟩
    unfold fundingOf
    split
    · exact List.forall_mem_singleton.mpr ⟨_, rfl, by decide⟩
    · exact List.forall_mem_cons.mpr
        ⟨⟨_, rfl, by decide⟩, List.forall_mem_singleton.mpr ⟨_, rfl, by decide⟩⟩
  | payerTopUp =>
    obtain ⟨value, rfl⟩ := h
    exact List.forall_mem_singleton.mpr ⟨_, rfl, by decide⟩
  | treasuryNounTransfer =>
    obtain ⟨receiver, nounId, rfl⟩ := h
    exact List.forall_mem_singleton.mpr ⟨_, rfl, by decide⟩
  | customTransaction => exact h.elim

/-- No member of a block is among the others. -/
theorem AreUnrelated.not_mem (h : AreUnrelated k others) (hblock : IsBlock k ts) :
    ∀ t ∈ ts, t ∉ others := by
  intro t ht hmem
  obtain ⟨kind, hkind, hin⟩ := hblock.exists_kind t ht
  exact h.lacks hin t hmem hkind

/-- Unrelated transactions are compared with nothing. -/
theorem AreUnrelated.areComparable (h : AreUnrelated .streamingPayment others) :
    AreComparable others := by
  intro t ht
  obtain ⟨kind, hkind, hnot⟩ := h t ht
  cases t with
  | stream | usdcTransferViaPayer | wethDeposit | wethTransfer =>
    cases hkind
    exact absurd (by decide) hnot
  | foreign => exact absurd hkind nofun
  | _ => trivial

/-! ## Building -/

/-- A streaming payment is built from a stream with its funding behind it, whatever else there is. -/
theorem buildStreamingPayment_of_takes {s : Stream} {c : Currency} (hpool : AreComparable pool)
    (hothers : Lacks .stream others) (htoken : s.token = .currency c) (hc : c = .usdc ∨ c = .weth)
    (h : Takes (.stream s :: fundingOf c s.contract s.amount) pool others)
    (hb : streamingPaymentOf s c = .ok b) : buildStreamingPayment pool = .ok (some (b, others)) := by
  obtain ⟨before, after, left, -, hfunding, rfl, rfl⟩ := h.exists_split
  have hbehind : AreComparable (.stream s :: after) := hpool.sublist (List.sublist_append_right _ _)
  have hs : s.IsComparable := hbehind _ List.mem_cons_self
  have hafter : AreComparable after := hbehind.sublist (List.sublist_cons_self _ _)
  apply buildStreamingPayment_skip hpool
  · exact fun t ht => hothers t (List.mem_append_left _ ht)
  · exact buildStreamingPayment_funded hs hafter htoken hc hfunding hb

/-- Any other action is built from its transaction, whatever else there is. -/
theorem buildAs_of_takes (hk : k ≠ .streamingPayment) (hpool : HaveKinds pool)
    (hothers : AreUnrelated k others) (hblock : IsBlock k ts) (h : Takes ts pool others)
    (hb : actionOf ts = .ok b) : buildAs k pool = .ok (some (b, others)) := by
  have hkinds := hblock.exists_kind
  obtain ⟨t, rfl, -⟩ := hblock.eq_singleton hk
  obtain ⟨before, after, left, -, hnil, rfl, rfl⟩ := h.exists_split
  obtain rfl := hnil.eq_of_nil
  have hkind : ∀ kind, t.kind? = some kind → kind ∈ transactionKinds k := by
    intro kind heq
    obtain ⟨kind', heq', hmem⟩ := hkinds t List.mem_cons_self
    cases heq.symm.trans heq'
    exact hmem
  apply buildAs_first hblock hpool
  · exact fun kind heq u hu => hothers.lacks (hkind kind heq) u (List.mem_append_left _ hu)
  · -- stablecoin is only sent where ether could be, and there is no transfer of it
    intro husdc
    have htransfer : .transfer ∈ transactionKinds k := by
      have husdc' := hkind _ husdc
      revert husdc' hk
      cases k <;> decide
    intro u hu heq
    rcases List.mem_append.mp hu with hu | hu
    · exact hothers.lacks htransfer u (List.mem_append_left _ hu) heq
    · rcases List.mem_cons.mp hu with rfl | hu
      · exact absurd (heq.symm.trans husdc) (by simp)
      · exact hothers.lacks htransfer u (List.mem_append_right _ hu) heq
  · exact hb

/-- **Building inverts resolving, in any unrelated pool.** Let a handler that builds accept an action, and
    let its transactions be interleaved in any way with others, none of which is of a kind of the handler.
    Then the handler builds the normal form of the action from the pool and leaves the others in order. -/
theorem buildAs_of_interleaves (hk : builds k = true) (ha : resolveAs k a = .ok ts)
    (hothers : AreUnrelated k others) (hpool : Interleaves ts others pool) :
    ∃ b, normalAs k a = .ok b ∧ buildAs k pool = .ok (some (b, others)) := by
  by_cases hstream : k = .streamingPayment
  · subst hstream
    obtain ⟨b, hresolved, hcomparable, s, c, htoken, hc, rfl⟩ := exists_resolved_streamingPayment ha
    have htakes := hpool.takes (hothers.not_mem hresolved.isBlock)
    have hall : AreComparable pool := fun t ht =>
      (hpool.mem_or_mem t ht).elim (hcomparable t) (hothers.areComparable t)
    have hb := hresolved.action
    rw [actionOf, htoken] at hb
    refine ⟨b, hresolved.normal, buildStreamingPayment_of_takes hall ?_ htoken hc htakes hb⟩
    exact hothers.lacks (by decide)
  · obtain ⟨b, hresolved⟩ : ∃ b, Resolved k a b ts := by
      cases k with
      | oneTimePayment => exact exists_resolved_oneTimePayment ha
      | streamingPayment => exact absurd rfl hstream
      | payerTopUp => exact exists_resolved_payerTopUp ha
      | treasuryNounTransfer => exact exists_resolved_treasuryNounTransfer ha
      | customTransaction => exact absurd hk (by decide)
    have htakes := hpool.takes (hothers.not_mem hresolved.isBlock)
    have hkinds : HaveKinds pool := fun t ht => (hpool.mem_or_mem t ht).elim
      (fun hmem => (hresolved.isBlock.exists_kind t hmem).imp fun _ h => h.1)
      fun hmem => (hothers t hmem).imp fun _ h => h.1
    exact ⟨b, hresolved.normal,
      buildAs_of_takes hstream hkinds hothers hresolved.isBlock htakes hresolved.action⟩

/-- A stream of wrapped ether, with capital digits, a padded amount and numbers as texts. -/
def looseStream : Action :=
  .streamingPayment
    { target := .text "0x0FD206FC7A7DBCD5661157EDCB1FFDD0D02A61FF"
      currency := .text "weth"
      amount := .text " 02.50 "
      start := .text "1"
      stop := .text " 2 "
      contract := .text "2222222222222222222222222222222222222222" }

/-- What it resolves to. -/
def looseBlock : List Transaction :=
  [.stream
    { receiver := .text "0x0fd206fc7a7dbcd5661157edcb1ffdd0d02a61ff"
      token := .currency .weth
      amount := .int 2500000000000000000
      start := .int 1
      stop := .int 2
      contract := .text "0x2222222222222222222222222222222222222222" },
    .wethDeposit (.int 2500000000000000000),
    .wethTransfer (.text "0x2222222222222222222222222222222222222222") (.int 2500000000000000000)]

/-- A transfer and an approval of wrapped ether, none of which belongs to a stream. -/
def looseOthers : List Transaction :=
  [.transfer (.text "0x1111111111111111111111111111111111111111") (.int 7),
    .wethApproval (.text "0x2222222222222222222222222222222222222222") (.int 2500000000000000000)]

/-- The transfer first, and the approval between the stream and its funding. -/
def loosePool : List Transaction :=
  looseOthers.take 1 ++ looseBlock.take 1 ++ looseOthers.drop 1 ++ looseBlock.drop 1

theorem resolveAs_looseStream : resolveAs .streamingPayment looseStream = .ok looseBlock := rfl

/-- The stream is built in normal form, and the others stay. -/
theorem buildAs_of_interleaves_looseStream :
    resolveAs .streamingPayment looseStream = .ok looseBlock ∧
      Interleaves looseBlock looseOthers loosePool ∧
      ∃ b, normalAs .streamingPayment looseStream = .ok b ∧
        buildAs .streamingPayment loosePool = .ok (some (b, looseOthers)) := by
  have hpool : Interleaves looseBlock looseOthers loosePool :=
    .right (.left (.right (.left (.left .nil))))
  refine ⟨resolveAs_looseStream, hpool,
    buildAs_of_interleaves (by decide) resolveAs_looseStream ?_ hpool⟩
  exact List.forall_mem_cons.mpr
    ⟨⟨_, rfl, by decide⟩, List.forall_mem_singleton.mpr ⟨_, rfl, by decide⟩⟩

/-- Its normal form. -/
example : normalAs .streamingPayment looseStream = .ok (.streamingPayment
    ⟨.text "0x0fd206fc7a7dbcd5661157edcb1ffdd0d02a61ff", .currency .weth, .text "2.5", .int 1, .int 2,
      .text "0x2222222222222222222222222222222222222222", .int 0⟩) := rfl

end Proposals.Handler
