import Proposals.Proofs.Codec
import Proposals.Proofs.Handler.Pool
import Proposals.Proofs.Handler.Resolve

/-!
# `Proofs.Handler.Block` — the transactions that an action stands for

An action stands for a *block* of transactions (`IsBlock`): a stream with its funding, or one transaction
of a kind. A block of readable transactions determines its action (`actionOf`), and that action resolves
to the block again if its values are in range, and to nothing else (`exists_actionOf`): amounts are read
as the units that they were written for, and addresses are already in normal form.
-/

namespace Proposals.Handler

open Proposals.Amount Proposals.Codec Proposals.Outcome

/-! ## Blocks -/

/-- The transactions that an action of the kind stands for. -/
def IsBlock : ActionKind → List Transaction → Prop
  | .streamingPayment, block => ∃ s c, s.token = .currency c ∧
      block = .stream s :: fundingOf c s.contract s.amount
  | .oneTimePayment, block => (∃ target value, block = [.transfer target value]) ∨
      ∃ receiver amount, block = [.usdcTransferViaPayer receiver amount]
  | .payerTopUp, block => ∃ value, block = [.payerTopUp value]
  | .treasuryNounTransfer, block => ∃ receiver nounId, block = [.treasuryNounTransfer receiver nounId]
  | .customTransaction, _ => False

/-- The kind of action that a transaction of the kind is by itself. -/
def alone? : TransactionKind → Option ActionKind
  | .transfer | .usdcTransferViaPayer => some .oneTimePayment
  | .payerTopUp => some .payerTopUp
  | .treasuryNounTransfer => some .treasuryNounTransfer
  | _ => none

theorem isBlock_singleton {k : ActionKind} {kind : TransactionKind} {t : Transaction}
    (ht : t.kind? = some kind) (hk : alone? kind = some k) : IsBlock k [t] := by
  cases t <;> cases ht <;> cases hk
  case payerTopUp value => exact ⟨value, rfl⟩
  case transfer target value => exact .inl ⟨target, value, rfl⟩
  case usdcTransferViaPayer receiver amount => exact .inr ⟨receiver, amount, rfl⟩
  case treasuryNounTransfer receiver nounId => exact ⟨receiver, nounId, rfl⟩

/-- The kind of action whose block a transaction of the kind begins. -/
def leads? : TransactionKind → Option ActionKind
  | .stream => some .streamingPayment
  | kind => alone? kind

/-- A block begins with a transaction of a kind that leads it. -/
theorem IsBlock.exists_lead {k : ActionKind} {block : List Transaction} (h : IsBlock k block) :
    ∃ t kind, t ∈ block ∧ t.kind? = some kind ∧ leads? kind = some k := by
  cases k with
  | streamingPayment =>
    obtain ⟨s, c, -, rfl⟩ := h
    exact ⟨.stream s, .stream, List.mem_cons_self, rfl, rfl⟩
  | oneTimePayment =>
    rcases h with ⟨target, value, rfl⟩ | ⟨receiver, amount, rfl⟩ <;>
      exact ⟨_, _, List.mem_cons_self, rfl, rfl⟩
  | payerTopUp => obtain ⟨value, rfl⟩ := h; exact ⟨_, _, List.mem_cons_self, rfl, rfl⟩
  | treasuryNounTransfer =>
    obtain ⟨receiver, nounId, rfl⟩ := h
    exact ⟨_, _, List.mem_cons_self, rfl, rfl⟩
  | customTransaction => exact absurd h (by simp [IsBlock])

/-- Only streams stand for more than one transaction. -/
theorem IsBlock.eq_singleton {k : ActionKind} {block : List Transaction} (h : IsBlock k block)
    (hk : k ≠ .streamingPayment) : ∃ t, block = [t] ∧ t.kind? ≠ some .stream := by
  cases k with
  | streamingPayment => exact absurd rfl hk
  | oneTimePayment =>
    rcases h with ⟨target, value, rfl⟩ | ⟨receiver, amount, rfl⟩ <;>
      exact ⟨_, rfl, by simp [Transaction.kind?]⟩
  | payerTopUp => obtain ⟨value, rfl⟩ := h; exact ⟨_, rfl, by simp [Transaction.kind?]⟩
  | treasuryNounTransfer =>
    obtain ⟨receiver, nounId, rfl⟩ := h
    exact ⟨_, rfl, by simp [Transaction.kind?]⟩
  | customTransaction => exact absurd h (by simp [IsBlock])

theorem IsBlock.length_pos {k : ActionKind} {block : List Transaction} (h : IsBlock k block) :
    0 < block.length := by
  cases k with
  | streamingPayment => obtain ⟨s, c, -, rfl⟩ := h; simp
  | oneTimePayment => rcases h with ⟨target, value, rfl⟩ | ⟨receiver, amount, rfl⟩ <;> simp
  | payerTopUp => obtain ⟨value, rfl⟩ := h; simp
  | treasuryNounTransfer => obtain ⟨receiver, nounId, rfl⟩ := h; simp
  | customTransaction => exact absurd h (by simp [IsBlock])

/-- All transactions of the pool are readable. -/
def AreReadable (pool : List Transaction) : Prop := ∀ t ∈ pool, t.IsReadable

theorem AreReadable.sublist {pool pool' : List Transaction} (h : AreReadable pool)
    (hsub : pool'.Sublist pool) : AreReadable pool' := fun t ht => h t (hsub.subset ht)

/-! ## Amounts of actions -/

/-- The amount of an action is read as the units it was written for, and it is read if these are in
    range. -/
theorem exists_amountIn (c : Currency) {v : Value} (hv : v.IsNatural) :
    ∃ (s : String) (n : Nat), amountIn c v = .ok (.text s) ∧ v = .int n ∧
      (∀ units, parseUnits (.text s) c.decimals = .ok units → units = n) ∧
      (v.IsAmount → parseUnits (.text s) c.decimals = .ok n) := by
  have hd : (c.decimals : Int) ≤ -Number.Decimal.minExponent := by cases c <;> decide
  obtain ⟨s, n, hs, rfl, honly, hread⟩ := exists_formatUnits hv hd
  refine ⟨s, n, ?_, rfl, honly, fun hamount => ?_⟩
  · unfold amountIn
    rw [hs]; rfl
  · obtain ⟨m, hm, hmax⟩ := hamount
    obtain rfl : n = m := Int.ofNat.inj (Value.int.inj hm)
    exact hread hmax

/-! ## The action of a block -/

/-- The action that a block stands for, by its first transaction. -/
def actionOf : List Transaction → Outcome Action
  | .transfer target value :: _ =>
    (amountIn .eth value).map (.oneTimePayment target (.currency .eth))
  | .usdcTransferViaPayer receiver amount :: _ =>
    (amountIn .usdc amount).map (.oneTimePayment receiver (.currency .usdc))
  | .payerTopUp value :: _ => (amountIn .eth value).map .payerTopUp
  | .treasuryNounTransfer receiver nounId :: _ => .ok (.treasuryNounTransfer receiver nounId)
  | .stream s :: _ =>
    match s.token with
    | .currency c => streamingPaymentOf s c
    | _ => .error (.data .badValue)
  | _ => .error (.data .badValue)

theorem toInteger_of_isAmount {v : Value} (hv : v.IsAmount) :
    ∃ n : Int, v = .int n ∧ v.toInteger = .ok n := by
  obtain ⟨n, rfl, -⟩ := hv
  exact ⟨n, rfl, rfl⟩

/-- The action resolves to the block if values are in range, and to nothing else. -/
structure ResolvesTo (k : ActionKind) (a : Action) (block : List Transaction) : Prop where
  eq : ∀ {ts}, resolveAs k a = .ok ts → ts = block
  resolves : (∀ t ∈ block, t.IsInRange) → resolveAs k a = .ok block

theorem ResolvesTo.of_eq {k : ActionKind} {a : Action} {block : List Transaction}
    (h : resolveAs k a = .ok block) : ResolvesTo k a block :=
  ⟨fun hts => Except.ok.inj (hts.symm.trans h), fun _ => h⟩

/-- The action of a stream: its fields are the very values that resolving computes. -/
theorem exists_actionOf_stream {s : Stream} (hs : s.IsReadable) {c : Currency}
    (htoken : s.token = .currency c) :
    ∃ a, actionOf (.stream s :: fundingOf c s.contract s.amount) = .ok a ∧
      a.kind? = some .streamingPayment ∧
      resolveStreamingPayment a = .ok (.stream s :: fundingOf c s.contract s.amount) := by
  have hc : c = .usdc ∨ c = .weth := by
    have hkinds := hs.token
    rw [Value.IsStreamToken, htoken, Value.currency.injEq, Value.currency.injEq] at hkinds
    exact hkinds
  obtain ⟨receiver, token, amount, start, stop, contract, nonce⟩ := s
  obtain ⟨text, n, htext, hn, -, hread⟩ := exists_amountIn c hs.amount.isNatural
  have hparse := hread hs.amount
  clear hread
  obtain ⟨start', hstart, hstart'⟩ := toInteger_of_isAmount hs.start
  obtain ⟨stop', hstop, hstop'⟩ := toInteger_of_isAmount hs.stop
  obtain ⟨nonce', hnonce, hnonce'⟩ := toInteger_of_isAmount hs.nonce
  simp only at htoken hn hstart hstop hnonce htext
  subst htoken hn hstart hstop hnonce
  refine ⟨.streamingPayment ⟨receiver, .currency c, .text text, .int start', .int stop', contract,
    .int nonce'⟩, ?_, rfl, ?_⟩
  · simp only [actionOf, streamingPaymentOf, htext]
    rfl
  · exact resolveStreamingPayment_eq_ok.mpr ⟨c, n, contract, receiver, start', stop', nonce', rfl, hc,
      hparse, addressOf_of_isAccount hs.contract, addressOf_of_isAccount hs.receiver,
      hstart', hstop', hnonce', rfl⟩

/-- The action of a payment. -/
theorem exists_actionOf_payment {c : Currency} (hc : c = .eth ∨ c = .usdc) {target value : Value}
    (htarget : target.IsAccount) (hvalue : value.IsNatural)
    (hrange : (paymentIn c target value).IsInRange → value.IsAmount) :
    ∃ a, actionOf [paymentIn c target value] = .ok a ∧ a.kind? = some .oneTimePayment ∧
      ResolvesTo .oneTimePayment a [paymentIn c target value] := by
  obtain ⟨text, n, htext, rfl, hunits, hread⟩ := exists_amountIn c hvalue
  refine ⟨.oneTimePayment target (.currency c) (.text text), ?_, rfl, fun h => ?_, fun h => ?_⟩
  · rcases hc with rfl | rfl
    · show (amountIn .eth (.int n)).map _ = _
      rw [htext]; rfl
    · show (amountIn .usdc (.int n)).map _ = _
      rw [htext]; rfl
  · obtain ⟨c', units, account, hcurrency, -, hparse, haccount, rfl⟩ :=
      resolveOneTimePayment_eq_ok.mp h
    cases hcurrency
    rw [addressOf_of_isAccount htarget, Except.ok.injEq] at haccount
    rw [hunits units hparse, ← haccount]
  · exact resolveOneTimePayment_eq_ok.mpr ⟨c, n, target, rfl, hc,
      hread (hrange (h _ List.mem_cons_self)), addressOf_of_isAccount htarget, rfl⟩

/-- **A readable block has an action that resolves to it.** -/
theorem exists_actionOf {k : ActionKind} {block : List Transaction} (hblock : IsBlock k block)
    (hreadable : AreReadable block) :
    ∃ a, actionOf block = .ok a ∧ a.kind? = some k ∧ ResolvesTo k a block := by
  cases k with
  | oneTimePayment =>
    rcases hblock with ⟨target, value, rfl⟩ | ⟨receiver, amount, rfl⟩
    · obtain ⟨htarget, hvalue⟩ := hreadable _ List.mem_cons_self
      exact exists_actionOf_payment (c := .eth) (.inl rfl) htarget hvalue id
    · obtain ⟨hreceiver, hamount⟩ := hreadable _ List.mem_cons_self
      exact exists_actionOf_payment (c := .usdc) (.inr rfl) hreceiver hamount.isNatural fun _ => hamount
  | payerTopUp =>
    obtain ⟨value, rfl⟩ := hblock
    obtain ⟨s, n, hs, rfl, hunits, hread⟩ := exists_amountIn .eth (hreadable _ List.mem_cons_self)
    refine ⟨.payerTopUp (.text s), ?_, rfl, fun h => ?_, fun h => ?_⟩
    · rw [actionOf, hs]; rfl
    · obtain ⟨units, hparse, rfl⟩ := resolvePayerTopUp_eq_ok.mp h
      rw [hunits units hparse]
    · exact resolvePayerTopUp_eq_ok.mpr ⟨n, hread (h _ List.mem_cons_self), rfl⟩
  | treasuryNounTransfer =>
    obtain ⟨receiver, nounId, rfl⟩ := hblock
    obtain ⟨hreceiver, n, rfl, -⟩ := hreadable _ List.mem_cons_self
    exact ⟨.treasuryNounTransfer receiver (.int n), rfl, rfl, .of_eq
      (resolveTreasuryNounTransfer_eq_ok.mpr
        ⟨n, receiver, rfl, addressOf_of_isAccount hreceiver, rfl⟩)⟩
  | streamingPayment =>
    obtain ⟨s, c, htoken, rfl⟩ := hblock
    obtain ⟨a, ha, hkind, hresolve⟩ :=
      exists_actionOf_stream (hreadable _ List.mem_cons_self) htoken
    exact ⟨a, ha, hkind, .of_eq hresolve⟩
  | customTransaction => exact absurd hblock (by simp [IsBlock])

end Proposals.Handler
