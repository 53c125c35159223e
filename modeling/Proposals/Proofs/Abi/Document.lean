import Proposals.Abi.Document
import Proposals.Proofs.Abi.Strict
import Proposals.Proofs.Json.Document

/-!
# `Proofs.Abi.Document` — arguments are read back from documents

What calldata are decoded to is written in a document by its type: byte strings in base sixteen, all
else as it is. Of the canonical values (`Coder.IsCanonical`) only exact decimals have no JSON form
(`Value.HasNoDecimal`), and every canonical value is restored from its written form by the same type
(`exists_isWritten`).

A function value is twenty-four bytes, but its type is not written like that of a byte string, so it
would stay as it is. Canonical signatures have no such type: they are written in full.
-/

namespace Proposals

open Proposals.Number

/-! ## Values without decimals -/

namespace Value

mutual
/-- No part of the argument is an exact decimal. -/
def HasNoDecimal : Value → Prop
  | .decimal _ => False
  | .list items => HaveNoDecimals items
  | _ => True

/-- The same for several arguments. -/
def HaveNoDecimals : List Value → Prop
  | [] => True
  | v :: vs => HasNoDecimal v ∧ HaveNoDecimals vs
end

theorem haveNoDecimals_iff {vs : List Value} : HaveNoDecimals vs ↔ ∀ v ∈ vs, v.HasNoDecimal := by
  induction vs with
  | nil => simp [HaveNoDecimals]
  | cons v vs ih => rw [HaveNoDecimals, ih, List.forall_mem_cons]

end Value

/-- Numbers of 256 bits are never too long for a document. -/
theorem twoTo_lt_tenTo_maxDigits {bits : Nat} (h : bits ≤ 256) : twoTo bits < tenTo maxDigits :=
  calc twoTo bits ≤ twoTo 256 := twoTo_le h
    _ < tenTo 78 := by decide
    _ ≤ tenTo maxDigits := tenTo_le (by decide)

namespace Abi

open Proposals.Outcome Proposals.Text AbiType

/-! ## Canonical values in documents -/

namespace Coder

theorem isLossless_int {n : Int} (h : n.natAbs < tenTo maxDigits) : (Value.int n).IsLossless :=
  fun _ => h

/-- Amounts are never too long. -/
theorem isLossless_of_isAmount {v : Value} (h : v.IsAmount) : v.IsLossless := by
  obtain ⟨n, rfl, hn⟩ := h
  exact isLossless_int (calc
    n < twoTo 256 := Nat.lt_of_le_pred (twoTo_pos 256) hn
    _ < tenTo maxDigits := twoTo_lt_tenTo_maxDigits (Nat.le_refl 256))

theorem isLossless_of_areCanonical {cs : List Coder} {vs : List Value}
    (ih : ∀ c ∈ cs, ∀ {v : Value}, c.IsCanonical v → v.IsLossless) (hvs : AreCanonical cs vs) :
    ∀ v ∈ vs, v.IsLossless := by
  induction cs generalizing vs with
  | nil => cases hvs; exact List.forall_mem_nil _
  | cons c cs ihcs =>
    obtain ⟨w, ws, rfl, hw, hws⟩ := hvs
    exact List.forall_mem_cons.mpr ⟨ih c List.mem_cons_self hw,
      ihcs (fun d hd => ih d (List.mem_cons_of_mem c hd)) hws⟩

/-- **Canonical values that are printed are read back.** -/
theorem IsCanonical.isLossless {c : Coder} (hsized : c.IsSized) {v : Value} (hv : c.IsCanonical v) :
    v.IsLossless := by
  induction c using componentInduction generalizing v with
  | single c hc =>
    cases c with
    | uint bits =>
      obtain ⟨n, rfl, hn⟩ := hv
      exact isLossless_int (Nat.lt_trans hn (twoTo_lt_tenTo_maxDigits hsized))
    | int bits =>
      obtain ⟨n, rfl, hn⟩ := hv
      have hlimit := twoTo_lt_tenTo_maxDigits (Nat.le_trans (Nat.sub_le bits 1) hsized.2)
      unfold IsSigned at hn
      exact isLossless_int (by omega)
    | address => obtain ⟨a, rfl, -⟩ := hv; exact Value.isLossless_text a
    | bool => obtain ⟨b, rfl⟩ := hv; exact fun _ => trivial
    | fixed signed bits places =>
      cases signed <;> (obtain ⟨n, rfl, -⟩ := hv; exact False.elim)
    | fixedBytes size => obtain ⟨bs, rfl, -⟩ := hv; exact False.elim
    | _ => exact absurd hc (by simp [isSingle])
  | bytes => obtain ⟨bs, rfl⟩ := hv; exact False.elim
  | string => obtain ⟨s, rfl⟩ := hv; exact Value.isLossless_text s
  | array item length ih =>
    obtain ⟨vs, rfl, -, hall⟩ := hv
    exact Value.isLossless_list fun w hw => ih hsized.1 (hall w hw)
  | tuple components ih =>
    obtain ⟨vs, rfl, hvs⟩ := hv
    exact Value.isLossless_list (isLossless_of_areCanonical
      (fun c hc _ hw => ih c hc (areSized_iff.mp hsized.2 c hc) hw) hvs)

end Coder

/-- The arguments of a decoded call are canonical for the types of its signature. -/
theorem exists_areCanonical_of_decodeCall {signature calldata : Value} {call : DecodedCall}
    (h : decodeCall signature calldata = .ok call) :
    ∃ coders, HasCoders call.types coders ∧ Coder.AreCanonical coders call.inputs := by
  obtain ⟨s, -, h⟩ := bind_eq_ok.mp h
  obtain ⟨vs, hvs, h⟩ := bind_eq_ok.mp h
  cases h
  obtain ⟨c, abiTypes, coders, data, rfl, htypes, hof, -, -, -⟩ := decodeArguments_sound hvs
  have hcoders : HasCoders s.types coders := ⟨abiTypes, htypes, hof⟩
  exact ⟨coders, hcoders, (areCanonical_of_decodeArguments hcoders hvs).1⟩

/-- If they can be printed, they can be read back. -/
theorem isLossless_of_decodeCall {signature calldata : Value} {call : DecodedCall}
    (h : decodeCall signature calldata = .ok call) : ∀ v ∈ call.inputs, v.IsLossless := by
  obtain ⟨coders, hcoders, hinputs⟩ := exists_areCanonical_of_decodeCall h
  exact Coder.isLossless_of_areCanonical
    (fun c hc => Coder.IsCanonical.isLossless (Coder.areSized_iff.mp hcoders.areSized c hc)) hinputs

/-! ## Written forms -/

/-- The value has a written form in a document, from which its type restores it. Only decimals keep
    the form from being printed. -/
structure IsWritten (t : AbiType) (v w : Value) : Prop where
  written : writeAs t v = .ok w
  read : readAs t w = .ok v
  isLossless : w.IsLossless
  printable : w.IsPrintable ↔ v.HasNoDecimal

/-- The same for the components of a tuple. -/
structure AreWritten (ts : List AbiType) (vs ws : List Value) : Prop where
  written : writeAllAs ts vs = .ok ws
  read : readAllAs ts ws = .ok vs
  isLossless : ∀ w ∈ ws, w.IsLossless
  printable : Value.ArePrintable ws ↔ Value.HaveNoDecimals vs

theorem hexOfValue_bytes (bs : List UInt8) :
    hexOfValue (.bytes bs) = .ok (.text (String.ofList (bytesToHex bs))) := rfl

/-- Bytes are restored from base sixteen. -/
theorem readBasic_bytes (bs : List UInt8) :
    readBasic "bytes" (.text (String.ofList (bytesToHex bs))) = .ok (.bytes bs) := by
  have hread : hexToBytes? (bytesToHex bs) = some bs := decodeHex?_encodeHex bs
  simp only [readBasic, String.toList_ofList, hread]
  rfl

theorem isWritten_bytes (size : Option TypeSize) (bs : List UInt8) :
    IsWritten (.basic "bytes" size) (.bytes bs) (.text (String.ofList (bytesToHex bs))) where
  written := by rw [writeAs]; exact hexOfValue_bytes bs
  read := by rw [readAs]; exact readBasic_bytes bs
  isLossless := Value.isLossless_text _
  printable := Iff.rfl

/-- All but byte strings are written as they are. -/
theorem isWritten_self {base : String} {size : Option TypeSize} {v : Value} (hbase : base ≠ "bytes")
    (hread : readBasic base v = .ok v) (hv : v.IsLossless) (hprint : v.IsPrintable ↔ v.HasNoDecimal) :
    IsWritten (.basic base size) v v where
  written := by rw [writeAs, if_neg (by rwa [beq_iff_eq])]
  read := by rw [readAs, hread]
  isLossless := hv
  printable := hprint

/-- A canonical value of a basic type, which is not that of a function. -/
theorem exists_isWritten_basic {base : String} {size : Option TypeSize} {c : Coder} {v : Value}
    (hfull : full (.basic base size) = .basic base size) (hof : Coder.ofBasic? base size = some c)
    (hsized : c.IsSized) (hv : c.IsCanonical v) : ∃ w, IsWritten (.basic base size) v w := by
  have hlossless := hv.isLossless hsized
  cases isBasic_of_ofBasic? hof with
  | bool size =>
    obtain ⟨b, rfl⟩ := hv
    exact ⟨_, isWritten_self (by decide) rfl hlossless Iff.rfl⟩
  | address =>
    obtain ⟨a, rfl, ha⟩ := hv
    have hread : readBasic "address" (.text a) = .ok (.text a) := by
      have hnormal := ha.toAddress?
      simp only [readBasic, hnormal]
      rfl
    exact ⟨_, isWritten_self (by decide) hread hlossless Iff.rfl⟩
  | string =>
    obtain ⟨s, rfl⟩ := hv
    exact ⟨_, isWritten_self (by decide) rfl hlossless Iff.rfl⟩
  | bytes =>
    obtain ⟨bs, rfl⟩ := hv
    exact ⟨_, isWritten_bytes none bs⟩
  | fixedBytes n =>
    obtain ⟨bs, rfl, -⟩ := hv
    exact ⟨_, isWritten_bytes _ bs⟩
  | function => exact absurd hfull (by simp [full])
  | uint n =>
    obtain ⟨n, rfl, -⟩ := hv
    exact ⟨_, isWritten_self (by decide) rfl hlossless Iff.rfl⟩
  | int n =>
    obtain ⟨n, rfl, -⟩ := hv
    exact ⟨_, isWritten_self (by decide) rfl hlossless Iff.rfl⟩
  | fixed m n =>
    obtain ⟨n, rfl, -⟩ := hv
    exact ⟨_, isWritten_self (by decide) rfl hlossless Iff.rfl⟩
  | ufixed m n =>
    obtain ⟨n, rfl, -⟩ := hv
    exact ⟨_, isWritten_self (by decide) rfl hlossless Iff.rfl⟩

/-- Items are written and restored one by one. -/
theorem exists_isWritten_array {item : AbiType} {length : Option Nat} {vs : List Value}
    (h : ∀ v ∈ vs, ∃ w, IsWritten item v w) : ∃ w, IsWritten (.array item length) (.list vs) w := by
  have hall : ∃ ws, vs.mapM (writeAs item) = .ok ws ∧ ws.mapM (readAs item) = .ok vs ∧
      (∀ w ∈ ws, w.IsLossless) ∧ (Value.ArePrintable ws ↔ Value.HaveNoDecimals vs) := by
    induction vs with
    | nil => exact ⟨[], rfl, rfl, List.forall_mem_nil _, Iff.rfl⟩
    | cons v vs ih =>
      obtain ⟨⟨w, hw⟩, hvs⟩ := List.forall_mem_cons.mp h
      obtain ⟨ws, hwritten, hread, hlossless, hprint⟩ := ih hvs
      refine ⟨w :: ws, ?_, ?_, List.forall_mem_cons.mpr ⟨hw.isLossless, hlossless⟩,
        and_congr hw.printable hprint⟩
      · rw [List.mapM_cons, hw.written, ok_bind, hwritten]; rfl
      · rw [List.mapM_cons, hw.read, ok_bind, hread]; rfl
  obtain ⟨ws, hwritten, hread, hlossless, hprint⟩ := hall
  refine ⟨.list ws, ?_, ?_, Value.isLossless_list hlossless, hprint⟩
  · rw [writeAs, Value.items, ok_bind, hwritten]; rfl
  · rw [readAs, Value.items, ok_bind, hread]; rfl

mutual
/-- **Every canonical value is written in a document and restored from there.** -/
theorem exists_isWritten : (t : AbiType) → {c : Coder} → {v : Value} → full t = t →
    Coder.ofType? t = some c → c.IsSized → c.IsCanonical v → ∃ w, IsWritten t v w
  | .basic base size, c, v, hfull, hof, hsized, hv =>
    exists_isWritten_basic hfull hof hsized hv
  | .array item length, c, v, hfull, hof, hsized, hv => by
    rw [Coder.ofType?, Option.map_eq_some_iff] at hof
    obtain ⟨d, hd, rfl⟩ := hof
    obtain ⟨vs, rfl, -, hall⟩ := hv
    rw [full, AbiType.array.injEq] at hfull
    exact exists_isWritten_array fun v hv =>
      exists_isWritten item hfull.1 hd hsized.1 (hall v hv)
  | .tuple components, c, v, hfull, hof, hsized, hv => by
    rw [Coder.ofType?, Option.map_eq_some_iff] at hof
    obtain ⟨cs, hcs, rfl⟩ := hof
    obtain ⟨vs, rfl, hvs⟩ := hv
    rw [full, AbiType.tuple.injEq] at hfull
    obtain ⟨ws, hws⟩ := exists_areWritten components hfull hcs hsized.2 hvs
    refine ⟨.list ws, ?_, ?_, Value.isLossless_list hws.isLossless, hws.printable⟩
    · rw [writeAs, Value.items, ok_bind, hws.written]; rfl
    · rw [readAs, Value.items, ok_bind, hws.read]; rfl

/-- The same for the components of a tuple. -/
theorem exists_areWritten : (ts : List AbiType) → {cs : List Coder} → {vs : List Value} →
    fullAll ts = ts → Coder.ofTypes? ts = some cs → Coder.AreSized cs → Coder.AreCanonical cs vs →
    ∃ ws, AreWritten ts vs ws
  | [], cs, vs, _, hof, _, hvs => by
    cases hof
    cases hvs
    exact ⟨[], by simp [writeAllAs], by simp [readAllAs], List.forall_mem_nil _, Iff.rfl⟩
  | t :: ts, cs, vs, hfull, hof, hsized, hvs => by
    simp only [Coder.ofTypes?, Option.bind_eq_bind, Option.bind_eq_some_iff, Option.pure_def,
      Option.some.injEq] at hof
    obtain ⟨c, hc, rest, hrest, rfl⟩ := hof
    obtain ⟨v, vs, rfl, hv, hvs⟩ := hvs
    rw [fullAll, List.cons.injEq] at hfull
    obtain ⟨w, hw⟩ := exists_isWritten t hfull.1 hc hsized.1 hv
    obtain ⟨ws, hws⟩ := exists_areWritten ts hfull.2 hrest hsized.2 hvs
    refine ⟨w :: ws, ?_, ?_, List.forall_mem_cons.mpr ⟨hw.isLossless, hws.isLossless⟩,
      and_congr hw.printable hws.printable⟩
    · rw [writeAllAs, hw.written, ok_bind, hws.written]; rfl
    · rw [readAllAs, hw.read, ok_bind, hws.read]; rfl
end

end Abi

end Proposals
