import Proposals.Handler
import Proposals.Proofs.Outcome

/-!
# `Proofs.Handler.Resolve` — when an action resolves, and to what

Each handler reads the fields of its action one after the other. The lemmas here list what has to
succeed and what comes out, so that neither building nor authoring needs to follow the steps again. An
action of another kind that has the fields is resolved as well: a streaming payment as a one-time payment,
and both as top-ups.
-/

namespace Proposals

open Proposals.Amount Proposals.Handler

/-- The amount, written as the units it is read as. -/
def normalAmount (c : Currency) (amount : Value) : Outcome Value := do
  amountIn c (.int (← parseUnits amount c.decimals))

/-- The currency that a value names, which must be one. -/
def currencyOf (v : Value) : Outcome Currency :=
  match v.currency? with
  | some c => .ok c
  | none => .error (.data .badValue)

theorem normalAmount_eq {c : Currency} {amount : Value} {n : Nat}
    (h : parseUnits amount c.decimals = .ok n) : normalAmount c amount = amountIn c (.int n) := by
  unfold normalAmount
  rw [h, Outcome.ok_bind]

theorem currencyOf_eq {v : Value} {c : Currency} (h : v.currency? = some c) : currencyOf v = .ok c := by
  unfold currencyOf
  rw [h]

end Proposals

namespace Proposals.Handler

open Proposals.Amount Proposals.Codec Proposals.Outcome

theorem supportedCurrency_eq_ok {a : Action} {given : Value} (hfield : a.field "currency" = .ok given)
    {k : ActionKind} (hk : a.kind = .ok k) {supported : List Currency} {c : Currency} :
    supportedCurrency a supported = .ok c ↔ given.currency? = some c ∧ c ∈ supported := by
  unfold supportedCurrency
  rw [hfield, ok_bind, hk]
  cases given.currency? with
  | none => simp
  | some d =>
    by_cases hd : d ∈ supported
    · simp only [List.contains_iff_mem, hd, if_true, pure_eq_ok, Except.ok.injEq, Option.some.injEq]
      exact ⟨fun h => ⟨h, h ▸ hd⟩, fun h => h.1⟩
    · simp only [List.contains_iff_mem, hd, if_false, ok_bind, throw_eq_error, Option.some.injEq]
      exact ⟨fun h => absurd h (by simp), fun h => absurd (h.1 ▸ h.2) hd⟩

/-- Whatever the kind of the action, its currency was read and is supported. -/
theorem supportedCurrency_sound {a : Action} {supported : List Currency} {c : Currency}
    (h : supportedCurrency a supported = .ok c) :
    ∃ given, a.field "currency" = .ok given ∧ given.currency? = some c ∧ c ∈ supported := by
  obtain ⟨given, hgiven, h⟩ := bind_eq_ok.mp h
  refine ⟨given, hgiven, ?_⟩
  cases hc : given.currency? with
  | none =>
    rw [hc] at h
    obtain ⟨kind, -, h⟩ := bind_eq_ok.mp h
    exact absurd h nofun
  | some d =>
    rw [hc] at h
    dsimp only at h
    by_cases hd : supported.contains d = true
    · rw [if_pos hd] at h
      cases h
      exact ⟨rfl, List.contains_iff_mem.mp hd⟩
    · rw [if_neg hd] at h
      obtain ⟨kind, -, h⟩ := bind_eq_ok.mp h
      exact absurd h nofun

/-- The transaction that pays an amount in a currency. -/
def paymentIn (c : Currency) (target units : Value) : Transaction :=
  if c = .eth then .transfer target units else .usdcTransferViaPayer target units

/-- What a payment is resolved from, and to what, whatever has its fields. -/
theorem resolveOneTimePayment_sound {a : Action} {ts : List Transaction}
    (h : resolveOneTimePayment a = .ok ts) : ∃ currency amount target c units account,
      a.field "currency" = .ok currency ∧ a.field "amount" = .ok amount ∧
        a.field "target" = .ok target ∧ currency.currency? = some c ∧ (c = .eth ∨ c = .usdc) ∧
        parseUnits amount c.decimals = .ok units ∧ addressOf target = .ok account ∧
        ts = [paymentIn c account (.int units)] := by
  obtain ⟨c, hc, h⟩ := bind_eq_ok.mp h
  obtain ⟨currency, hcurrency, hgiven, hmem⟩ := supportedCurrency_sound hc
  obtain ⟨amount, hamount, h⟩ := bind_eq_ok.mp h
  obtain ⟨units, hunits, h⟩ := bind_eq_ok.mp h
  obtain ⟨target, htarget, h⟩ := bind_eq_ok.mp h
  obtain ⟨account, haccount, h⟩ := bind_eq_ok.mp h
  rw [pure_eq_ok, Except.ok.injEq] at h
  refine ⟨currency, amount, target, c, units, account, hcurrency, hamount, htarget, hgiven,
    by simpa using hmem, hunits, haccount, ?_⟩
  rw [← h]
  unfold paymentIn
  split <;> rfl

theorem resolveOneTimePayment_eq_ok {target currency amount : Value} {ts : List Transaction} :
    resolveOneTimePayment (.oneTimePayment target currency amount) = .ok ts ↔
      ∃ c units account, currency.currency? = some c ∧ (c = .eth ∨ c = .usdc) ∧
        parseUnits amount c.decimals = .ok units ∧ addressOf target = .ok account ∧
        ts = [paymentIn c account (.int units)] := by
  constructor
  · intro h
    obtain ⟨_, _, _, c, units, account, hcurrency, hamount, htarget, hresolved⟩ :=
      resolveOneTimePayment_sound h
    cases hcurrency
    cases hamount
    cases htarget
    exact ⟨c, units, account, hresolved⟩
  · rintro ⟨c, units, account, hgiven, hc, hunits, haccount, rfl⟩
    have hcurrency : supportedCurrency (.oneTimePayment target currency amount) [.eth, .usdc] = .ok c :=
      (supportedCurrency_eq_ok (k := .oneTimePayment) rfl rfl).mpr ⟨hgiven, by simpa using hc⟩
    have hfields : Action.field (.oneTimePayment target currency amount) "amount" = .ok amount ∧
        Action.field (.oneTimePayment target currency amount) "target" = .ok target := ⟨rfl, rfl⟩
    unfold resolveOneTimePayment
    rw [hcurrency, ok_bind, hfields.1, ok_bind, hunits, ok_bind, hfields.2, ok_bind, haccount, ok_bind,
      pure_eq_ok, Except.ok.injEq]
    unfold paymentIn
    split <;> rfl

/-- Only streaming payments have the contract of a stream. -/
theorem exists_streamingPayment {a : Action} {ts : List Transaction}
    (h : resolveStreamingPayment a = .ok ts) : ∃ p, a = .streamingPayment p := by
  obtain ⟨c, -, h⟩ := bind_eq_ok.mp h
  obtain ⟨amount, -, h⟩ := bind_eq_ok.mp h
  obtain ⟨units, -, h⟩ := bind_eq_ok.mp h
  obtain ⟨contract, hcontract, -⟩ := bind_eq_ok.mp h
  cases a with
  | streamingPayment p => exact ⟨p, rfl⟩
  | _ => exact absurd hcontract nofun

/-- The fields of a streaming payment by name. -/
theorem field_streamingPayment (p : StreamingPayment) :
    Action.field (.streamingPayment p) "currency" = .ok p.currency ∧
      Action.field (.streamingPayment p) "amount" = .ok p.amount ∧
      Action.field (.streamingPayment p) "stream_contract_address" = .ok p.contract ∧
      Action.field (.streamingPayment p) "target" = .ok p.target ∧
      Action.field (.streamingPayment p) "start_timestamp" = .ok p.start ∧
      Action.field (.streamingPayment p) "end_timestamp" = .ok p.stop ∧
      Action.field (.streamingPayment p) "nonce" = .ok p.nonce := ⟨rfl, rfl, rfl, rfl, rfl, rfl, rfl⟩

theorem resolveStreamingPayment_eq_ok {p : StreamingPayment} {ts : List Transaction} :
    resolveStreamingPayment (.streamingPayment p) = .ok ts ↔
      ∃ c units contract receiver start stop nonce, p.currency.currency? = some c ∧
        (c = .usdc ∨ c = .weth) ∧ parseUnits p.amount c.decimals = .ok units ∧
        addressOf p.contract = .ok contract ∧ addressOf p.target = .ok receiver ∧
        p.start.toInteger = .ok start ∧ p.stop.toInteger = .ok stop ∧ p.nonce.toInteger = .ok nonce ∧
        ts = .stream ⟨receiver, .currency c, .int units, .int start, .int stop, contract, .int nonce⟩ ::
          fundingOf c contract (.int units) := by
  have hcurrency : ∀ {c}, supportedCurrency (.streamingPayment p) [.usdc, .weth] = .ok c ↔
      p.currency.currency? = some c ∧ c ∈ [Currency.usdc, .weth] :=
    supportedCurrency_eq_ok (k := .streamingPayment) rfl rfl
  obtain ⟨-, hamount, hcontract, htarget, hstart, hstop, hnonce⟩ := field_streamingPayment p
  -- every step of resolving succeeds on its own, in the order of the steps
  unfold resolveStreamingPayment
  simp only [hamount, hcontract, htarget, hstart, hstop, hnonce, ok_bind]
  constructor
  · intro h
    obtain ⟨c, hc, h⟩ := bind_eq_ok.mp h
    obtain ⟨units, hunits, h⟩ := bind_eq_ok.mp h
    obtain ⟨contract, hcontract, h⟩ := bind_eq_ok.mp h
    obtain ⟨receiver, hreceiver, h⟩ := bind_eq_ok.mp h
    obtain ⟨start, hstart, h⟩ := bind_eq_ok.mp h
    obtain ⟨stop, hstop, h⟩ := bind_eq_ok.mp h
    obtain ⟨nonce, hnonce, h⟩ := bind_eq_ok.mp h
    rw [pure_eq_ok, Except.ok.injEq] at h
    obtain ⟨hgiven, hc⟩ := hcurrency.mp hc
    exact ⟨c, units, contract, receiver, start, stop, nonce, hgiven, by simpa using hc, hunits,
      hcontract, hreceiver, hstart, hstop, hnonce, h.symm⟩
  · rintro ⟨c, units, contract, receiver, start, stop, nonce, hgiven, hc, hunits, hcontract, hreceiver,
      hstart, hstop, hnonce, rfl⟩
    rw [hcurrency.mpr ⟨hgiven, by simpa using hc⟩, ok_bind, hunits, ok_bind, hcontract, ok_bind,
      hreceiver, ok_bind, hstart, ok_bind, hstop, ok_bind, hnonce, ok_bind]
    rfl

/-- What a top-up is resolved from, and to what, whatever has its field. -/
theorem resolvePayerTopUp_sound {a : Action} {ts : List Transaction} (h : resolvePayerTopUp a = .ok ts) :
    ∃ amount units, a.field "amount" = .ok amount ∧
      parseUnits amount Currency.eth.decimals = .ok units ∧ ts = [.payerTopUp (.int units)] := by
  obtain ⟨amount, hamount, h⟩ := bind_eq_ok.mp h
  obtain ⟨units, hunits, h⟩ := bind_eq_ok.mp h
  rw [pure_eq_ok, Except.ok.injEq] at h
  exact ⟨amount, units, hamount, hunits, h.symm⟩

theorem resolvePayerTopUp_eq_ok {amount : Value} {ts : List Transaction} :
    resolvePayerTopUp (.payerTopUp amount) = .ok ts ↔
      ∃ units, parseUnits amount Currency.eth.decimals = .ok units ∧
        ts = [.payerTopUp (.int units)] := by
  constructor
  · intro h
    obtain ⟨_, units, hamount, hresolved⟩ := resolvePayerTopUp_sound h
    cases hamount
    exact ⟨units, hresolved⟩
  · rintro ⟨units, hunits, rfl⟩
    have hamount : Action.field (.payerTopUp amount) "amount" = .ok amount := rfl
    unfold resolvePayerTopUp
    rw [hamount, ok_bind, hunits]
    rfl

/-- Only the transfer of a noun has the number of one. -/
theorem exists_treasuryNounTransfer {a : Action} {ts : List Transaction}
    (h : resolveTreasuryNounTransfer a = .ok ts) :
    ∃ target nounId, a = .treasuryNounTransfer target nounId := by
  obtain ⟨nounId, hnoun, -⟩ := bind_eq_ok.mp h
  cases a with
  | treasuryNounTransfer target nounId => exact ⟨target, nounId, rfl⟩
  | _ => exact absurd hnoun nofun

theorem resolveTreasuryNounTransfer_eq_ok {target nounId : Value} {ts : List Transaction} :
    resolveTreasuryNounTransfer (.treasuryNounTransfer target nounId) = .ok ts ↔
      ∃ (n : Nat) (account : Value), nounId = .int n ∧ addressOf target = .ok account ∧
        ts = [.treasuryNounTransfer account (.int n)] := by
  have hfields : Action.field (.treasuryNounTransfer target nounId) "noun_id" = .ok nounId ∧
      Action.field (.treasuryNounTransfer target nounId) "target" = .ok target := ⟨rfl, rfl⟩
  unfold resolveTreasuryNounTransfer
  rw [hfields.1, ok_bind]
  cases nounId with
  | int n =>
    simp only [hfields.2, ok_bind, throw_eq_error, error_bind]
    constructor
    · intro h
      -- a negative number is refused
      split at h
      · exact absurd h (by simp)
      · next hpositive =>
        obtain ⟨account, haccount, h⟩ := bind_eq_ok.mp h
        rw [pure_eq_ok, Except.ok.injEq] at h
        obtain ⟨k, rfl⟩ := Int.eq_ofNat_of_zero_le (Int.not_lt.mp hpositive)
        exact ⟨k, account, rfl, haccount, h.symm⟩
    · rintro ⟨k, account, hk, haccount, rfl⟩
      cases hk
      rw [if_neg (by omega), haccount]; rfl
  | _ => simp

end Proposals.Handler
