import Proposals.Wire
import Proposals.Abi.Signature
import Proposals.Proofs.Abi.Arguments

/-!
# `Proofs.Wire` — raw transactions from the lists of a proposal

The lists of a proposal are checked once, when they are read: every value is a number of 256 bits
(`isAmount_of_fromWire`). Targets, signatures and calldata stay as they are written. Their *normal form*
(`RawTransaction.normalForm`) is what writing a readable transaction gives back.
-/

namespace Proposals

open Proposals.Text Proposals.Number Proposals.Abi Proposals.Outcome

/-- The value is a natural number of 256 bits. -/
def Value.IsAmount (v : Value) : Prop := ∃ n : Nat, v = .int n ∧ n ≤ maxUint256

/-- The value is a natural number of any size. -/
def Value.IsNatural (v : Value) : Prop := ∃ n : Nat, v = .int n

theorem Value.IsAmount.isNatural {v : Value} (hv : v.IsAmount) : v.IsNatural :=
  hv.imp fun _ h => h.1

theorem isAmount_zero : (Value.int 0).IsAmount := ⟨0, rfl, Nat.zero_le _⟩

@[simp] theorem Value.isZero_int (n : Int) : (Value.int n).isZero = (n == 0) := by
  simp [Value.isZero, Value.same]

/-- A natural number that is zero is the number zero itself. -/
theorem Value.IsNatural.eq_zero {v : Value} (hv : v.IsNatural) (h : v.isZero = true) :
    v = .int 0 := by
  obtain ⟨n, rfl⟩ := hv
  rw [Value.isZero_int, beq_iff_eq] at h
  rw [h]

theorem le_of_readValue {index n : Nat} {v : Value} (h : readValue index v = .ok n) :
    n ≤ maxUint256 := by
  simp only [readValue] at h
  split at h
  · exact absurd h (by simp)
  · split at h
    · exact absurd h (by simp)
    · split at h
      · exact absurd h (by simp)
      · split at h
        · exact absurd h (by simp)
        · next hle => cases h; exact Nat.le_of_not_lt hle

theorem isText_of_checkCalldata {index : Nat} {v : Value} (h : checkCalldata index v = .ok ()) :
    ∃ s, v = .text s := by
  unfold checkCalldata at h
  split at h
  · exact ⟨_, rfl⟩
  · exact absurd h (by simp)

theorem checked_of_fromLists {index : Nat} {targets values signatures calldatas : List Value}
    {raws : List RawTransaction} (h : fromLists index targets values signatures calldatas = .ok raws) :
    ∀ raw ∈ raws, raw.value.IsAmount ∧ ∃ s, raw.calldata = .text s := by
  induction targets generalizing index values signatures calldatas raws with
  | nil => cases h; exact fun _ hraw => absurd hraw (by simp)
  | cons target targets ih =>
    unfold fromLists at h
    split at h
    · next v values signature signatures calldata calldatas heq =>
      cases heq
      obtain ⟨n, hn, h⟩ := bind_eq_ok.mp h
      obtain ⟨⟨⟩, hcalldata, h⟩ := bind_eq_ok.mp h
      obtain ⟨rest, hrest, h⟩ := bind_eq_ok.mp h
      cases h
      intro raw hraw
      rcases List.mem_cons.mp hraw with rfl | hraw
      · exact ⟨⟨n, rfl, le_of_readValue hn⟩, isText_of_checkCalldata hcalldata⟩
      · exact ih hrest raw hraw
    · cases h; exact fun _ hraw => absurd hraw (by simp)

theorem checked_of_fromWire {w : Wire} {raws : List RawTransaction} (h : fromWire w = .ok raws)
    {raw : RawTransaction} (hraw : raw ∈ raws) :
    raw.value.IsAmount ∧ ∃ s, raw.calldata = .text s := by
  unfold fromWire at h
  split at h
  · exact checked_of_fromLists h raw hraw
  · exact absurd h (by simp)

/-- **The value of a raw transaction of a proposal** is a number of 256 bits. -/
theorem isAmount_of_fromWire {w : Wire} {raws : List RawTransaction} (h : fromWire w = .ok raws)
    {raw : RawTransaction} (hraw : raw ∈ raws) : raw.value.IsAmount := (checked_of_fromWire h hraw).1

/-- The calldata of a raw transaction of a proposal are a text. -/
theorem isText_of_fromWire {w : Wire} {raws : List RawTransaction} (h : fromWire w = .ok raws)
    {raw : RawTransaction} (hraw : raw ∈ raws) : ∃ s, raw.calldata = .text s :=
  (checked_of_fromWire h hraw).2

/-- The raw transaction stands in a proposal that is accepted. -/
def RawTransaction.IsProposed (raw : RawTransaction) : Prop :=
  ∃ w raws, fromWire w = .ok raws ∧ raw ∈ raws

/-! ## The normal form -/

/-- Calldata with small letters; what is no text stays. -/
def lowerCalldata : Value → Value
  | .text c => .text (lowerHex c)
  | v => v

/-- The raw transaction with its target in normal form and, if it has a signature, the signature in
    canonical form and the calldata in small letters. -/
def RawTransaction.normalForm (raw : RawTransaction) : Outcome RawTransaction :=
  match raw.target.toAddress? with
  | none => .error (.malformed (.badAddress raw.target))
  | some a =>
    if raw.signature.isText "" then .ok { raw with target := .text a }
    else
      (normalizeSignature raw.signature).map fun signature =>
        { raw with
          target := .text a, signature := .text signature, calldata := lowerCalldata raw.calldata }

end Proposals
