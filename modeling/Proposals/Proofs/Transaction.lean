import Proposals.Transaction
import Proposals.Proofs.Wire

/-!
# `Proofs.Transaction` — the readable transactions that reading gives

The fields of a transaction are unchecked, but those that come from raw transactions are not
arbitrary: values are natural numbers, amounts in calldata are of 256 bits, receivers and targets are
addresses in normal form, and streams carry one of the two tokens (`Transaction.IsReadable`). A value of
more than 256 bits can be read, but no action stands for it (`Transaction.IsInRange`).
-/

namespace Proposals

theorem TransactionKind.mem_all (kind : TransactionKind) : kind ∈ all := by
  cases kind <;> decide

/-- The token of a stream is one of the two that streams can carry. -/
def Value.IsStreamToken (v : Value) : Prop := v = .currency .usdc ∨ v = .currency .weth

/-- The stream has addresses in normal form, a token and numbers in range. -/
structure Stream.IsReadable (s : Stream) : Prop where
  receiver : s.receiver.IsAccount
  token : s.token.IsStreamToken
  amount : s.amount.IsAmount
  start : s.start.IsAmount
  stop : s.stop.IsAmount
  contract : s.contract.IsAccount
  nonce : s.nonce.IsAmount

/-- The transaction is of a kind, its value is a natural number, its other amounts are in range and its
    addresses in normal form. -/
def Transaction.IsReadable : Transaction → Prop
  | .payerTopUp value => value.IsNatural
  | .transfer target value => target.IsAccount ∧ value.IsNatural
  | .usdcTransferViaPayer receiver amount => receiver.IsAccount ∧ amount.IsAmount
  | .usdcApproval spender amount => spender.IsAccount ∧ amount.IsAmount
  | .wethDeposit value => value.IsNatural
  | .wethTransfer receiver amount => receiver.IsAccount ∧ amount.IsAmount
  | .wethApproval spender amount => spender.IsAccount ∧ amount.IsAmount
  | .stream s => s.IsReadable
  | .treasuryNounTransfer receiver nounId => receiver.IsAccount ∧ nounId.IsAmount
  | .unparsedPayableFunctionCall target _ value => target.IsAccount ∧ value.IsNatural
  | .unparsedFunctionCall target _ => target.IsAccount
  | .payableFunctionCall call value => call.target.IsAccount ∧ value.IsNatural
  | .functionCall call => call.target.IsAccount
  | .foreign => False

/-- The value of a transaction that is an action by itself is in range. -/
def Transaction.IsInRange : Transaction → Prop
  | .payerTopUp value => value.IsAmount
  | .transfer _ value => value.IsAmount
  | _ => True

/-- The ether that goes with a transaction. -/
def Transaction.nativeValue : Transaction → Value
  | .payerTopUp value => value
  | .transfer _ value => value
  | .wethDeposit value => value
  | .unparsedPayableFunctionCall _ _ value => value
  | .payableFunctionCall _ value => value
  | _ => .int 0

theorem Transaction.IsReadable.isNatural_nativeValue {t : Transaction} (h : t.IsReadable) :
    t.nativeValue.IsNatural := by
  cases t with
  | payerTopUp value => exact h
  | transfer target value => exact h.2
  | wethDeposit value => exact h
  | unparsedPayableFunctionCall target calldata value => exact h.2
  | payableFunctionCall call value => exact h.2
  | _ => exact ⟨0, rfl⟩

/-- A readable transaction has a kind. -/
theorem Transaction.IsReadable.exists_kind {t : Transaction} (h : t.IsReadable) :
    ∃ k, t.kind? = some k ∧ t.kind = .ok k := by
  cases t with
  | foreign => exact absurd h (by simp [IsReadable])
  | _ => exact ⟨_, rfl, rfl⟩

end Proposals
