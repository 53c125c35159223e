import Proposals.Proofs.Engine.Normal
import Proposals.Proofs.Valid
import Proposals.Proofs.Wire.Reading

/-!
# `Proofs.Wire.Document` — proposals and their documents

A document is read as a proposal in two steps: its four lists are taken from it, and the transactions from
the lists. The first step looks at the shape only and the second one at the items only, so the two say
together which documents are proposals (`exists_fromWire_ofDocument_iff`). What is wrong with any other
document is reported, but for two kinds of data that are not checked: a document of another shape, and a
value with thousands of zeros in front of it.

Writing transactions and reading them again gives them back; reading a proposal and writing it again gives
the proposal back, with its values in plain notation (`fromWire_toDocument_toWire`).
-/

namespace Proposals

open Proposals.Amount Proposals.Number Proposals.Outcome Proposals.Text

variable {d : Value} {w : Wire} {raws : List RawTransaction}

/-! ## Which documents are proposals -/

namespace Wire

/-- The shape of the document is not the one of a proposal, or the first place of its lists that is not in
    order has an overlong value. -/
def IsUnchecked (d : Value) : Prop := ¬ IsTidyDocument d ∨ ∃ w, ofDocument d = .ok w ∧ w.MeetsOverlong

theorem isUnchecked_iff (htidy : IsTidyDocument d) (hw : ofDocument d = .ok w) :
    IsUnchecked d ↔ w.MeetsOverlong := by
  refine ⟨fun h => ?_, fun h => .inr ⟨w, hw, h⟩⟩
  obtain ⟨v, hv, hmeets⟩ := h.resolve_left (not_not_intro htidy)
  exact Except.ok.inj (hw.symm.trans hv) ▸ hmeets

end Wire

/-- Reading a document gives transactions or reports what is malformed, unless the document holds data that
    are not checked. -/
theorem fromWire_ofDocument_cases (d : Value) :
    ((∃ raws, (Wire.ofDocument d >>= fromWire) = .ok raws) ∨
        ∃ cause, (Wire.ofDocument d >>= fromWire) = .error (.malformed cause)) ∧
        ¬ Wire.IsUnchecked d ∨
      (∃ cause, (Wire.ofDocument d >>= fromWire) = .error (.data cause)) ∧ Wire.IsUnchecked d := by
  rcases Wire.ofDocument_cases d with ⟨⟨w, hw⟩ | ⟨missing, hmissing⟩, htidy⟩ | ⟨⟨cause, hfault⟩, hnot⟩
  · rw [Wire.isUnchecked_iff htidy hw, hw, ok_bind]
    exact (fromWire_cases (Wire.isText_of_ofDocument hw)).imp_right (And.imp_left fun h => ⟨_, h⟩)
  · have hchecked : ¬ Wire.IsUnchecked d := fun h =>
      h.elim (not_not_intro htidy) fun ⟨w, hw, _⟩ => nomatch hmissing.symm.trans hw
    rw [hmissing, error_bind]
    exact .inl ⟨.inr ⟨_, rfl⟩, hchecked⟩
  · rw [hfault, error_bind]
    exact .inr ⟨⟨cause, rfl⟩, .inl hnot⟩

/-- **Documents are read exactly if they are proposals.** Reading ends with transactions, or with a report of
    what is malformed, or with a fault about unchecked data, the last exactly if the document holds some. Four
    lists are read exactly if they are well formed, and then as the transactions that stand in them, each at
    its place. -/
theorem exists_fromWire_ofDocument_iff (d : Value) (w : Wire) (raws : List RawTransaction) :
    (((∃ raws, (Wire.ofDocument d >>= fromWire) = .ok raws) ∨
        (∃ cause, (Wire.ofDocument d >>= fromWire) = .error (.malformed cause)) ∨
        ∃ cause, (Wire.ofDocument d >>= fromWire) = .error (.data cause)) ∧
      ((∃ cause, (Wire.ofDocument d >>= fromWire) = .error (.data cause)) ↔ Wire.IsUnchecked d)) ∧
    ((∃ raws, fromWire w = .ok raws) ↔ w.IsWellFormed) ∧ (fromWire w = .ok raws ↔ w.Lists raws) := by
  refine ⟨?_, exists_fromWire_iff, fromWire_eq_ok_iff⟩
  rcases fromWire_ofDocument_cases d with ⟨⟨raws, hraws⟩ | ⟨cause, hfault⟩, hnot⟩ | ⟨hfault, hcause⟩
  · refine ⟨.inl ⟨raws, hraws⟩, fun ⟨_, h⟩ => ?_, fun h => absurd h hnot⟩
    exact absurd (hraws.symm.trans h) nofun
  · refine ⟨.inr (.inl ⟨cause, hfault⟩), fun ⟨_, h⟩ => ?_, fun h => absurd h hnot⟩
    exact absurd (hfault.symm.trans h) nofun
  · exact ⟨.inr (.inr hfault), fun _ => hcause, fun _ => hfault⟩

/-- A zero is not read if it is written with more digits than are read. -/
theorem fromWire_zeros {n : Nat} (h : maxDigits < n) (target signature : Value) {calldata : String} :
    fromWire ⟨[target], [.text (String.ofList (List.replicate n '0'))], [signature], [.text calldata]⟩ =
      .error (.data .badValue) := by
  have hmeets : Wire.MeetsOverlong
      ⟨[target], [.text (String.ofList (List.replicate n '0'))], [signature], [.text calldata]⟩ :=
    ⟨rfl, rfl, rfl, [], _, [], rfl, Value.isOverlong_zeros h, List.forall_mem_nil _,
      List.forall_mem_nil _⟩
  have htexts : ∀ v ∈ [Value.text calldata], ∃ s, v = .text s := List.forall_mem_singleton.mpr ⟨_, rfl⟩
  exact ((fromWire_cases htexts).resolve_left fun h => h.2 hmeets).1

/-- A document that is no object, a line break behind calldata, and a zero that is written with more digits
    than are read. -/
theorem not_exists_fromWire_ofDocument_iff :
    (Wire.ofDocument (.int 5) >>= fromWire) = .error (.data .wrongKind) ∧
      fromWire ⟨[.text "t"], [.text "1"], [.text ""], [.text "0x\n"]⟩ =
        .ok [⟨.text "t", .text "", .text "0x\n", .int 1⟩] ∧
      fromWire ⟨[.text "t"], [.text (String.ofList (List.replicate 4301 '0'))], [.text ""],
        [.text "0x"]⟩ = .error (.data .badValue) :=
  ⟨rfl, rfl, fromWire_zeros (by decide) _ _⟩

/-! ## Writing and reading again -/

/-- Transactions of texts, with values in range and calldata, come back from the document of their
    proposal. -/
theorem fromWire_ofDocument_toDocument
    (h : ∀ raw ∈ raws, raw.HasTexts ∧ raw.value.IsAmount ∧ raw.calldata.IsCalldata) :
    (Wire.ofDocument (toWire raws).toDocument >>= fromWire) = .ok raws := by
  have htexts : (toWire raws).HasTexts := hasTexts_toWire fun raw hraw => (h raw hraw).1
  rw [htexts.ofDocument_eq, ok_bind]
  exact fromWire_eq_ok_iff.mpr (lists_toWire fun raw hraw =>
    ⟨(h raw hraw).2.1, (h raw hraw).2.2.isCalldataLine⟩)

/-- The value is the plain notation of the number in the other one: digits without blanks around them and
    without zeros in front. -/
def Value.IsPlainFormOf (v u : Value) : Prop :=
  ∃ digits : String, v = .text digits ∧ IsWhole digits.toList ∧
    asciiNumber digits.toList = asciiNumber u.core

/-- The values of a proposal are written in plain notation. -/
theorem Wire.Lists.isPlainFormOf (h : w.Lists raws) :
    List.Forall₂ (fun u v => Value.IsPlainFormOf v u) w.values (toWire raws).values := by
  show List.Forall₂ _ w.values (raws.map _)
  rw [List.forall₂_map_right_iff]
  refine h.values.imp fun u raw ⟨n, hn, hvalue⟩ => ?_
  have hwritten : (Value.int n).display.toList = natText n := String.toList_ofList
  refine ⟨_, rfl, ?_, ?_⟩ <;> rw [hvalue, hwritten]
  · exact isWhole_natText n
  · rw [asciiNumber_natText, hn.number]

/-- **Raw transactions go through the document of their proposal unchanged, and proposals through their raw
    transactions** but for the spelling of the values, which becomes the plain one. -/
theorem fromWire_toDocument_toWire :
    (∀ raws : List RawTransaction,
      (∀ raw ∈ raws, raw.HasTexts ∧ raw.value.IsAmount ∧ raw.calldata.IsCalldata) →
        (Wire.ofDocument (toWire raws).toDocument >>= fromWire) = .ok raws) ∧
    ∀ (w : Wire) (raws : List RawTransaction), fromWire w = .ok raws →
      (toWire raws).targets = w.targets ∧ (toWire raws).signatures = w.signatures ∧
        (toWire raws).calldatas = w.calldatas ∧
        List.Forall₂ (fun u v => Value.IsPlainFormOf v u) w.values (toWire raws).values := by
  refine ⟨fun raws => fromWire_ofDocument_toDocument, fun w raws hraws => ?_⟩
  have hlists := fromWire_eq_ok_iff.mp hraws
  exact ⟨hlists.targets.symm, hlists.signatures.symm, hlists.calldatas.symm, hlists.isPlainFormOf⟩

/-- The largest value with a call, and a value with a blank and zeros in front. -/
theorem fromWire_toDocument_toWire_largest :
    (Wire.ofDocument (toWire [⟨.text "t", .text "f(bytes1)", .text "0xAb", .int maxUint256⟩]).toDocument >>=
        fromWire) = .ok [⟨.text "t", .text "f(bytes1)", .text "0xAb", .int maxUint256⟩] ∧
      fromWire ⟨[.text "t"], [.text " 007"], [.text ""], [.text "0x"]⟩ =
        .ok [⟨.text "t", .text "", .text "0x", .int 7⟩] ∧
      (toWire [⟨.text "t", .text "", .text "0x", .int 7⟩]).targets = [.text "t"] := by
  have hread : fromWire ⟨[.text "t"], [.text " 007"], [.text ""], [.text "0x"]⟩ =
      .ok [⟨.text "t", .text "", .text "0x", .int 7⟩] := rfl
  refine ⟨?_, hread, (fromWire_toDocument_toWire.2 _ _ hread).1⟩
  refine fromWire_toDocument_toWire.1 _ (List.forall_mem_singleton.mpr ?_)
  exact ⟨⟨⟨_, rfl⟩, ⟨_, rfl⟩, _, rfl⟩, ⟨maxUint256, rfl, Nat.le_refl _⟩,
    "0xAb", ['A', 'b'], rfl, rfl, by decide, rfl⟩

end Proposals
