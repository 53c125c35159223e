import Proposals.Proofs.Abi.Layout
import Proposals.Proofs.Amount

/-!
# `Proofs.Abi.Canonical` — values in the form in which they are read

Encoding accepts several forms of one value: a decimal with closing zeros, a byte string that is too
short, an address in capitals. Reading makes one of them, the *canonical* one (`Coder.IsCanonical`).
This module has the two halves that concern values only: what is read is canonical
(`areCanonical_of_decodeAll`), and canonical values always have an encoding (`encodes`,
`exists_parts`), which is as long as the offsets are checked against.

The coders of a type that can be written have sizes that fit a word and no empty lists
(`Coder.IsSized`); both halves rest on that.
-/

namespace Proposals.Abi

open Proposals.Number Proposals.Outcome Proposals.Text Proposals.Amount AbiType

/-! ## Signed words -/

/-- The integer fits the bits with its sign. -/
def IsSigned (bits : Nat) (n : Int) : Prop :=
  -(twoTo (bits - 1) : Int) ≤ n ∧ n < twoTo (bits - 1)

theorem lt_of_wordAt? {data : List UInt8} {place n : Nat} (h : wordAt? data place = some n) :
    n < twoTo 256 := by
  obtain ⟨bs, hbs, rfl⟩ := Option.map_eq_some_iff.mp h
  have hlength : bs.length = 32 := by
    simp only [bytesAt?, Option.ite_none_right_eq_some, Option.some.injEq] at hbs
    rw [← hbs.2]
    exact hbs.1
  have hlt := ofBigEndian_lt bs
  rw [hlength] at hlt
  exact hlt

/-- What is read from a signed word fits its bits. -/
theorem isSigned_of_signedValue? {bits n : Nat} {i : Int} (hn : n < twoTo 256)
    (h : signedValue? bits n = some i) : IsSigned bits i := by
  unfold signedValue? at h
  unfold IsSigned
  split at h
  · obtain rfl := Option.some.inj h
    omega
  · split at h
    · obtain rfl := Option.some.inj h
      omega
    · exact absurd h (by simp)

/-- The words have room for the integers of either sign. -/
theorem twoTo_signed_le {bits : Nat} (hpos : 0 < bits) (hbits : bits ≤ 256) :
    twoTo (bits - 1) * 2 ≤ twoTo 256 := by
  rw [← twoTo_succ, Nat.sub_add_cancel hpos]
  exact Nat.pow_le_pow_right (by decide) hbits

/-- **A signed integer is read from its word.** -/
theorem signedValue?_signed {bits : Nat} (hpos : 0 < bits) (hbits : bits ≤ 256) {i : Int}
    (hi : IsSigned bits i) :
    (i % twoTo 256).toNat < twoTo 256 ∧ signedValue? bits (i % twoTo 256).toNat = some i := by
  have hhalf := twoTo_signed_le hpos hbits
  unfold IsSigned at hi
  unfold signedValue?
  generalize twoTo 256 = limit at *
  generalize twoTo (bits - 1) = half at *
  rcases Int.lt_or_le i 0 with hneg | hnonneg
  · -- a negative integer is counted down from the end, past the first half
    have hword : i % limit = i + limit := by
      rw [← Int.add_emod_right, Int.emod_eq_of_lt (by omega) (by omega)]
    rw [hword, if_neg (by omega), if_pos (by omega)]
    refine ⟨by omega, congrArg some ?_⟩
    omega
  · have hword : i % limit = i := Int.emod_eq_of_lt hnonneg (by omega)
    rw [hword, if_pos (by omega)]
    refine ⟨by omega, congrArg some ?_⟩
    omega

theorem signedWord_natCast {n : Nat} (h : n < twoTo 256) : signedWord n = word n := by
  unfold signedWord
  rw [Int.emod_eq_of_lt (Int.natCast_nonneg n) (Int.ofNat_lt.mpr h), Int.toNat_natCast]

/-! ## Fixed point numbers -/

/-- A number that was scaled is scaled back without loss. -/
theorem integerPart?_trimPlaces (places : Nat) {n : Nat} (hn : n ≤ maxUint256) :
    integerPart? (Decimal.trimPlaces n places).1
      (-((Decimal.trimPlaces n places).2 : Int) + places) = some (n, true) := by
  obtain ⟨hle, hvalue⟩ := Decimal.trimPlaces_sound n places
  generalize Decimal.trimPlaces n places = trimmed at *
  obtain ⟨coefficient, left⟩ := trimmed
  dsimp only at hle hvalue ⊢
  have hexponent : -(left : Int) + places = (places - left : Nat) := by omega
  unfold integerPart?
  rcases Nat.eq_zero_or_pos coefficient with hzero | hpos
  · rw [if_pos hzero, ← hvalue, hzero, Nat.mul_zero]
  · have hdigits := digitCount_add_le hpos (hvalue ▸ hn)
    have hlimit : maxValueDigits = 78 := rfl
    rw [hexponent, if_neg (by omega), if_neg (by unfold Decimal.adjusted; omega),
      if_pos (Int.natCast_nonneg _), Int.toNat_natCast, Nat.mul_comm, hvalue]

/-- **A signed fixed point number is encoded as the integer that it is scaled from.** -/
theorem encodeFixedValue?_signed {bits places : Nat} {n : Int} (hpos : 0 < bits) (hbits : bits ≤ 256)
    (hn : IsSigned bits n) :
    encodeFixedValue? true bits places (.decimal (.ofScaled n places)) = some (signedWord n) := by
  have hhalf := twoTo_signed_le hpos hbits
  have hsize : n.natAbs < twoTo 256 := by unfold IsSigned at hn; omega
  have hpart := integerPart?_trimPlaces places (Nat.le_pred_of_lt hsize)
  have hvalue := (Decimal.trimPlaces_sound n.natAbs places).2
  simp only [encodeFixedValue?, Decimal.ofScaled, encodeFixed?, hpart]
  generalize Decimal.trimPlaces n.natAbs places = trimmed at *
  unfold IsSigned at hn
  rcases Int.lt_or_le n 0 with hneg | hnonneg
  · have hcoefficient : trimmed.1 ≠ 0 := by
      intro hzero
      rw [hzero, Nat.mul_zero] at hvalue
      omega
    have habs : -(n.natAbs : Int) = n := by omega
    have hfits : ¬ twoTo (bits - 1) < n.natAbs := by omega
    have hne : n ≠ 0 := by omega
    simp only [hneg, decide_true, Bool.true_and, bne_iff_ne, ne_eq, hcoefficient, not_false_eq_true,
      if_true, Bool.not_true, Bool.false_eq_true, hfits, and_false, or_self, if_false,
      Int.natAbs_eq_zero, hne, habs]
  · have hfits : n.natAbs < twoTo (bits - 1) := by omega
    have hcast : signedWord n = word n.natAbs := by
      rw [← signedWord_natCast hsize, show ((n.natAbs : Nat) : Int) = n by omega]
    simp [show ¬ n < 0 by omega, hfits, hcast]

/-- **An unsigned fixed point number is encoded as the number that it is scaled from.** -/
theorem encodeFixedValue?_unsigned {bits places n : Nat} (hbits : bits ≤ 256) (hn : n < twoTo bits) :
    encodeFixedValue? false bits places (.decimal (.ofScaled n places)) = some (word n) := by
  have hlimit : twoTo bits ≤ twoTo 256 := Nat.pow_le_pow_right (by decide) hbits
  have hpart := integerPart?_trimPlaces places
    (Nat.le_pred_of_lt (Nat.lt_of_lt_of_le hn hlimit))
  have hsign : ¬ (n : Int) < 0 := by omega
  simp only [encodeFixedValue?, Decimal.ofScaled, Int.natAbs_natCast, encodeFixed?, hpart]
  simp [hsign, hn]

/-! ## Words of bytes -/

theorem length_padTo {size : Nat} {bs : List UInt8} (h : bs.length ≤ size) :
    (padTo size bs).length = size := by
  unfold padTo
  rw [List.length_append, List.length_replicate]
  omega

theorem length_padRight (bs : List UInt8) : (padRight bs).length = wordCeil bs.length :=
  length_padTo (by unfold wordCeil; omega)

theorem zeroPadded?_padTo (size : Nat) (bs : List UInt8) :
    zeroPadded? bs.length (padTo size bs) = some bs := by
  unfold zeroPadded? padTo
  rw [List.drop_left, List.take_left, if_pos]
  exact List.all_eq_true.mpr fun b hb => by rw [List.eq_of_mem_replicate hb]; rfl

/-! ## Reading -/

theorem required_eq_ok {α : Type} {x : Option α} {a : α} : required x = .ok a ↔ x = some a := by
  cases x <;> simp [required]

theorem follow_eq_ok {data : List UInt8} {start place next : Nat}
    {read : Nat → Decoded (Value × Nat)} {v : Value} :
    follow data start read place = .ok (v, next) ↔
      ∃ distance behind, wordAt? data place = some distance ∧
        read (start + distance) = .ok (v, behind) ∧ next = place + 32 := by
  unfold follow readWord
  simp only [bind_eq_ok, required_eq_ok, pure_eq_ok, Except.ok.injEq, Prod.mk.injEq]
  constructor
  · rintro ⟨distance, hword, ⟨w, behind⟩, hread, rfl, rfl⟩
    exact ⟨distance, behind, hword, hread, rfl⟩
  · rintro ⟨distance, behind, hword, hread, rfl⟩
    exact ⟨distance, hword, (v, behind), hread, rfl, rfl⟩

/-- Reading many values is reading each of them at some place. -/
theorem readMany_sound {read : Nat → Decoded (Value × Nat)} {count place next : Nat}
    {vs : List Value} (h : readMany read count place = .ok (vs, next)) :
    vs.length = count ∧ ∀ v ∈ vs, ∃ here behind, read here = .ok (v, behind) := by
  induction count generalizing place vs with
  | zero => cases h; simp
  | succ count ih =>
    obtain ⟨⟨v, behind⟩, hv, h⟩ := bind_eq_ok.mp h
    obtain ⟨⟨ws, last⟩, hws, h⟩ := bind_eq_ok.mp h
    cases h
    obtain ⟨hlength, hall⟩ := ih hws
    exact ⟨congrArg (· + 1) hlength, List.forall_mem_cons.mpr ⟨⟨place, behind, hv⟩, hall⟩⟩

theorem readItems_sound {data : List UInt8} {dynamic : Bool} {read : Nat → Decoded (Value × Nat)}
    {start count next : Nat} {vs : List Value}
    (h : readItems data dynamic read start count = .ok (vs, next)) :
    vs.length = count ∧ ∀ v ∈ vs, ∃ here behind, read here = .ok (v, behind) := by
  unfold readItems at h
  dsimp only at h
  split at h
  · exact absurd h (by simp)
  split at h
  · obtain ⟨-, -, h⟩ := bind_eq_ok.mp h
    obtain ⟨hlength, hall⟩ := readMany_sound h
    refine ⟨hlength, fun v hv => ?_⟩
    obtain ⟨_, _, hfollow⟩ := hall v hv
    obtain ⟨_, behind, -, hread, -⟩ := follow_eq_ok.mp hfollow
    exact ⟨_, behind, hread⟩
  · exact readMany_sound h

namespace Coder

/-! ## Sizes and canonical values -/

mutual
/-- The sizes of the coder fit a word, and neither its arrays nor its tuples are empty. -/
def IsSized : Coder → Prop
  | .uint bits => bits ≤ 256
  | .int bits => 0 < bits ∧ bits ≤ 256
  | .fixed _ bits _ => 0 < bits ∧ bits ≤ 256
  | .fixedBytes size => 0 < size ∧ size ≤ 32
  | .array item length => IsSized item ∧ IsPositiveLength length
  | .tuple components => components ≠ [] ∧ AreSized components
  | _ => True

/-- All coders of a list are sized. -/
def AreSized : List Coder → Prop
  | [] => True
  | c :: cs => IsSized c ∧ AreSized cs
end

mutual
/-- The value is in the form in which it is read: an integer in range, an address in normal form, a
    byte string of just its size, a decimal without closing zeros, and one value for each item. -/
def IsCanonical : Coder → Value → Prop
  | .uint bits, v => ∃ n : Nat, v = .int n ∧ n < twoTo bits
  | .int bits, v => ∃ n : Int, v = .int n ∧ IsSigned bits n
  | .address, v => v.IsAccount
  | .bool, v => ∃ b, v = .bool b
  | .fixed true bits places, v => ∃ n : Int, v = .decimal (.ofScaled n places) ∧ IsSigned bits n
  | .fixed false bits places, v => ∃ n : Nat, v = .decimal (.ofScaled n places) ∧ n < twoTo bits
  | .fixedBytes size, v => ∃ bs, v = .bytes bs ∧ bs.length = size
  | .bytes, v => ∃ bs, v = .bytes bs
  | .string, v => ∃ s, v = .text s
  | .array item length, v =>
    ∃ vs, v = .list vs ∧ (∀ n, length = some n → vs.length = n) ∧ ∀ w ∈ vs, IsCanonical item w
  | .tuple components, v => ∃ vs, v = .list vs ∧ AreCanonical components vs

/-- There is one canonical value for each coder. -/
def AreCanonical : List Coder → List Value → Prop
  | [], vs => vs = []
  | c :: cs, vs => ∃ w ws, vs = w :: ws ∧ IsCanonical c w ∧ AreCanonical cs ws
end

/-- The coder takes a single word. -/
def isSingle : Coder → Bool
  | .bytes => false
  | .string => false
  | .array _ _ => false
  | .tuple _ => false
  | _ => true

theorem decode_of_isSingle {c : Coder} (hc : c.isSingle = true) (data : List UInt8) (place : Nat) :
    decode data c place = readWordAs data place (wordValue? c) := by
  cases c with
  | bytes | string | array | tuple => exact absurd hc (by simp [isSingle])
  | _ => rw [decode]

/-! ## Words -/

/-- **A canonical value of one word** is encoded as a number whose value it is. -/
theorem exists_word {c : Coder} {v : Value} (hc : c.isSingle = true) (hsized : c.IsSized)
    (hv : c.IsCanonical v) :
    ∃ n, n < twoTo 256 ∧ encode? c v = some (word n) ∧ wordValue? c n = some v := by
  cases c with
  | uint bits =>
    rw [IsCanonical] at hv
    rw [IsSized] at hsized
    obtain ⟨n, rfl, hn⟩ := hv
    exact ⟨n, exists_word_uint hsized hn⟩
  | int bits =>
    rw [IsCanonical] at hv
    rw [IsSized] at hsized
    obtain ⟨n, rfl, hn⟩ := hv
    obtain ⟨hlt, hback⟩ := signedValue?_signed hsized.1 hsized.2 hn
    refine ⟨_, hlt, ?_, ?_⟩
    · rw [encode?, if_pos (show _ ∧ _ from hn)]; rfl
    · rw [wordValue?, hback]; rfl
  | address =>
    rw [IsCanonical] at hv
    obtain ⟨a, rfl, ha⟩ := hv
    exact exists_word_address ha
  | bool =>
    rw [IsCanonical] at hv
    obtain ⟨b, rfl⟩ := hv
    refine ⟨if b then 1 else 0, ?_, by rw [encode?], by cases b <;> rfl⟩
    exact Nat.lt_of_lt_of_le (by cases b <;> decide : (if b then 1 else 0) < 2)
      (Nat.pow_le_pow_right (by decide : 0 < 2) (by decide : 1 ≤ 256))
  | fixed signed bits places =>
    rw [IsSized] at hsized
    cases signed with
    | true =>
      rw [IsCanonical] at hv
      obtain ⟨n, rfl, hn⟩ := hv
      obtain ⟨hlt, hback⟩ := signedValue?_signed hsized.1 hsized.2 hn
      refine ⟨_, hlt, ?_, ?_⟩
      · rw [encode?, encodeFixedValue?_signed hsized.1 hsized.2 hn]; rfl
      · rw [wordValue?, hback]; rfl
    | false =>
      rw [IsCanonical] at hv
      obtain ⟨n, rfl, hn⟩ := hv
      have hlimit : twoTo bits ≤ twoTo 256 := Nat.pow_le_pow_right (by decide) hsized.2
      refine ⟨n, Nat.lt_of_lt_of_le hn hlimit, ?_, ?_⟩
      · rw [encode?, encodeFixedValue?_unsigned hsized.2 hn]
      · rw [wordValue?, if_pos hn]
  | fixedBytes size =>
    rw [IsCanonical] at hv
    rw [IsSized] at hsized
    obtain ⟨bs, rfl, rfl⟩ := hv
    have hword : (padTo 32 bs).length = 32 := length_padTo hsized.2
    refine ⟨ofBigEndian (padTo 32 bs), ?_, ?_, ?_⟩
    · have hlt := ofBigEndian_lt (padTo 32 bs)
      rw [hword] at hlt
      exact hlt
    · rw [encode?, if_pos (Nat.le_refl _), word_ofBigEndian hword]
    · rw [wordValue?, word_ofBigEndian hword, zeroPadded?_padTo]; rfl
  | bytes | string | array | tuple => exact absurd hc (by simp [isSingle])

/-- What is read from a word is canonical. -/
theorem isCanonical_of_wordValue? {c : Coder} {n : Nat} {v : Value} (hsized : c.IsSized)
    (hn : n < twoTo 256) (h : wordValue? c n = some v) : c.IsCanonical v := by
  cases c with
  | uint bits =>
    rw [wordValue?, Option.ite_none_right_eq_some] at h
    rw [IsCanonical]
    exact ⟨n, (Option.some.inj h.2).symm, h.1⟩
  | int bits =>
    rw [wordValue?, Option.map_eq_some_iff] at h
    obtain ⟨i, hi, rfl⟩ := h
    rw [IsCanonical]
    exact ⟨i, rfl, isSigned_of_signedValue? hn hi⟩
  | address =>
    rw [wordValue?, Option.ite_none_right_eq_some] at h
    rw [IsCanonical]
    exact ⟨_, (Option.some.inj h.2).symm, isNormalAddress_addressOfBytes (length_bigEndian 20 n)⟩
  | bool =>
    rw [IsCanonical]
    rw [wordValue?] at h
    split at h
    · exact ⟨false, (Option.some.inj h).symm⟩
    · rw [Option.ite_none_right_eq_some] at h
      exact ⟨true, (Option.some.inj h.2).symm⟩
  | fixed signed bits places =>
    cases signed with
    | true =>
      rw [wordValue?, Option.map_eq_some_iff] at h
      obtain ⟨i, hi, rfl⟩ := h
      rw [IsCanonical]
      exact ⟨i, rfl, isSigned_of_signedValue? hn hi⟩
    | false =>
      rw [wordValue?, Option.ite_none_right_eq_some] at h
      rw [IsCanonical]
      exact ⟨n, (Option.some.inj h.2).symm, h.1⟩
  | fixedBytes size =>
    rw [wordValue?, Option.map_eq_some_iff] at h
    obtain ⟨bs, hbs, rfl⟩ := h
    rw [IsSized] at hsized
    rw [IsCanonical]
    rw [zeroPadded?, Option.ite_none_right_eq_some] at hbs
    obtain rfl := Option.some.inj hbs.2
    refine ⟨_, rfl, ?_⟩
    rw [List.length_take, length_word]
    omega
  | _ => exact absurd h (by simp [wordValue?])

/-- What is canonical for an address or an unsigned number fits it. -/
theorem IsCanonical.fits {c : Coder} {v : Value} (h : c.IsCanonical v) : c.Fits v := by
  cases c with
  | uint bits => rw [IsCanonical] at h; exact h
  | address => rw [IsCanonical] at h; exact h
  | _ => trivial

theorem AreCanonical.fits {cs : List Coder} {vs : List Value} (h : AreCanonical cs vs) :
    List.Forall₂ Fits cs vs := by
  induction cs generalizing vs with
  | nil => cases h; exact .nil
  | cons c cs ih =>
    obtain ⟨w, ws, rfl, hw, hws⟩ := h
    exact .cons hw.fits (ih hws)

/-! ## Components -/

mutual
/-- Induction over a coder, where a tuple may use the statement for each component. -/
theorem componentInduction {P : Coder → Prop} (single : ∀ c : Coder, c.isSingle = true → P c)
    (bytes : P .bytes) (string : P .string)
    (array : ∀ item length, P item → P (.array item length))
    (tuple : ∀ components : List Coder, (∀ c ∈ components, P c) → P (.tuple components)) :
    (c : Coder) → P c
  | .uint _ | .int _ | .address | .bool | .fixed _ _ _ | .fixedBytes _ => single _ rfl
  | .bytes => bytes
  | .string => string
  | .array item length =>
    array item length (componentInduction single bytes string array tuple item)
  | .tuple components =>
    tuple components (forall_of_componentInduction single bytes string array tuple components)

/-- The statement for each coder of a list. -/
theorem forall_of_componentInduction {P : Coder → Prop}
    (single : ∀ c : Coder, c.isSingle = true → P c) (bytes : P .bytes) (string : P .string)
    (array : ∀ item length, P item → P (.array item length))
    (tuple : ∀ components : List Coder, (∀ c ∈ components, P c) → P (.tuple components)) :
    (cs : List Coder) → ∀ c ∈ cs, P c
  | [] => List.forall_mem_nil P
  | c :: cs => List.forall_mem_cons.mpr
    ⟨componentInduction single bytes string array tuple c,
      forall_of_componentInduction single bytes string array tuple cs⟩
end

theorem areSized_iff {cs : List Coder} : AreSized cs ↔ ∀ c ∈ cs, c.IsSized := by
  induction cs with
  | nil => simp [AreSized]
  | cons c cs ih => rw [AreSized, ih, List.forall_mem_cons]

theorem areCanonical_replicate {c : Coder} {n : Nat} {vs : List Value} :
    AreCanonical (List.replicate n c) vs ↔ vs.length = n ∧ ∀ w ∈ vs, c.IsCanonical w := by
  induction n generalizing vs with
  | zero => simp +contextual [AreCanonical, List.length_eq_zero_iff]
  | succ n ih =>
    rw [List.replicate_succ, AreCanonical]
    constructor
    · rintro ⟨w, ws, rfl, hw, hws⟩
      obtain ⟨hlength, hall⟩ := ih.mp hws
      exact ⟨congrArg (· + 1) hlength, List.forall_mem_cons.mpr ⟨hw, hall⟩⟩
    · rintro ⟨hlength, hall⟩
      obtain ⟨w, ws, rfl⟩ := List.exists_cons_of_length_eq_add_one hlength
      obtain ⟨hw, hws⟩ := List.forall_mem_cons.mp hall
      exact ⟨w, ws, rfl, hw, ih.mpr ⟨Nat.succ.inj hlength, hws⟩⟩

/-! ## What is read is canonical -/

theorem isCanonical_of_readWordAs {data : List UInt8} {c : Coder} {place next : Nat} {v : Value}
    (hsized : c.IsSized) (h : readWordAs data place (wordValue? c) = .ok (v, next)) :
    c.IsCanonical v := by
  obtain ⟨n, hn, h⟩ := bind_eq_ok.mp h
  obtain ⟨w, hw, h⟩ := bind_eq_ok.mp h
  rw [pure_eq_ok, Except.ok.injEq, Prod.mk.injEq] at h
  obtain ⟨rfl, -⟩ := h
  refine isCanonical_of_wordValue? hsized (lt_of_wordAt? (required_eq_ok.mp hn)) (required_eq_ok.mp hw)

theorem readParts_cons (data : List UInt8) (start : Nat) (c : Coder) (cs : List Coder) (place : Nat) :
    readParts data start (c :: cs) place =
      (if c.isDynamic then follow data start (decode data c) place else decode data c place) >>=
        fun (v, behind) => readParts data start cs behind >>= fun (vs, last) => .ok (v :: vs, last) := by
  rw [readParts]
  split <;> rfl

theorem areCanonical_of_readParts {data : List UInt8} {start place next : Nat} {cs : List Coder}
    {vs : List Value} (h : readParts data start cs place = .ok (vs, next))
    (hcs : ∀ c ∈ cs, ∀ here v behind, decode data c here = .ok (v, behind) → c.IsCanonical v) :
    AreCanonical cs vs := by
  induction cs generalizing place vs with
  | nil => cases h; rfl
  | cons c cs ih =>
    obtain ⟨hc, hcs⟩ := List.forall_mem_cons.mp hcs
    rw [readParts_cons] at h
    obtain ⟨⟨v, behind⟩, hv, h⟩ := bind_eq_ok.mp h
    obtain ⟨⟨ws, last⟩, hws, h⟩ := bind_eq_ok.mp h
    cases h
    refine ⟨v, ws, rfl, ?_, ih hws hcs⟩
    split at hv
    · obtain ⟨_, _, -, hread, -⟩ := follow_eq_ok.mp hv
      exact hc _ _ _ hread
    · exact hc _ _ _ hv

/-- **What is read is canonical.** -/
theorem isCanonical_of_decode {data : List UInt8} {c : Coder} (hsized : c.IsSized) {place : Nat}
    {v : Value} {next : Nat} (h : decode data c place = .ok (v, next)) : c.IsCanonical v := by
  induction c using componentInduction generalizing place v next with
  | single c hc => exact isCanonical_of_readWordAs hsized (decode_of_isSingle hc data place ▸ h)
  | bytes =>
    rw [decode] at h
    obtain ⟨bs, -, h⟩ := bind_eq_ok.mp h
    cases h
    exact ⟨bs, rfl⟩
  | string =>
    rw [decode] at h
    obtain ⟨bs, -, h⟩ := bind_eq_ok.mp h
    obtain ⟨s, -, h⟩ := bind_eq_ok.mp h
    cases h
    exact ⟨s, rfl⟩
  | array item length ih =>
    rw [IsSized] at hsized
    rw [IsCanonical]
    cases length with
    | none =>
      rw [decode] at h
      obtain ⟨count, -, h⟩ := bind_eq_ok.mp h
      obtain ⟨⟨vs, last⟩, hvs, h⟩ := bind_eq_ok.mp h
      cases h
      refine ⟨vs, rfl, fun n hn => absurd hn (by simp), fun w hw => ?_⟩
      obtain ⟨_, _, hread⟩ := (readItems_sound hvs).2 w hw
      exact ih hsized.1 hread
    | some count =>
      rw [decode] at h
      obtain ⟨⟨vs, last⟩, hvs, h⟩ := bind_eq_ok.mp h
      cases h
      obtain ⟨hlength, hall⟩ := readItems_sound hvs
      refine ⟨vs, rfl, fun n hn => Option.some.inj hn ▸ hlength, fun w hw => ?_⟩
      obtain ⟨_, _, hread⟩ := hall w hw
      exact ih hsized.1 hread
  | tuple components ih =>
    rw [IsSized] at hsized
    rw [IsCanonical]
    rw [decode] at h
    obtain ⟨-, -, h⟩ := bind_eq_ok.mp h
    obtain ⟨⟨vs, last⟩, hvs, h⟩ := bind_eq_ok.mp h
    cases h
    exact ⟨vs, rfl, areCanonical_of_readParts hvs fun c hc _ _ _ hread =>
      ih c hc (areSized_iff.mp hsized.2 c hc) hread⟩

/-- **Decoded arguments are canonical.** -/
theorem areCanonical_of_decodeAll {data : List UInt8} {cs : List Coder} {vs : List Value}
    (hsized : AreSized cs) (h : decodeAll cs data = .ok vs) : AreCanonical cs vs := by
  unfold decodeAll at h
  obtain ⟨-, -, h⟩ := bind_eq_ok.mp h
  obtain ⟨⟨ws, last⟩, hws, h⟩ := bind_eq_ok.mp h
  cases h
  exact areCanonical_of_readParts hws fun c hc _ _ _ hread =>
    isCanonical_of_decode (areSized_iff.mp hsized c hc) hread

/-! ## Canonical values have an encoding -/

theorem length_heads (place : Nat) (parts : List Part) :
    (heads place parts).length = headSize parts := by
  induction parts generalizing place with
  | nil => rfl
  | cons part parts ih =>
    obtain ⟨dynamic, bs⟩ := part
    cases dynamic
    · rw [heads, headSize, List.length_append, ih]
    · rw [heads, headSize, List.length_append, ih, length_word]

theorem length_assemble (parts : List Part) :
    (assemble parts).length = headSize parts + (tails parts).length := by
  rw [assemble, List.length_append, length_heads]

theorem places_of_isDynamic {c : Coder} (h : c.isDynamic = true) : c.places = 1 := by
  cases c with
  | array item length =>
    cases length with
    | none => rfl
    | some n => rw [isDynamic] at h; rw [places, if_pos h]
  | _ => rfl

theorem places_pos {c : Coder} (h : c.IsSized) : 1 ≤ c.places := by
  cases c with
  | array item length =>
    cases length with
    | none => exact Nat.le_refl 1
    | some n =>
      rw [IsSized] at h
      rw [places]
      split
      · exact Nat.le_refl 1
      · exact h.2
  | _ => exact Nat.le_refl 1

/-- A list of one component over and over, each by the same coder. -/
theorem encodeParts?_replicate (c : Coder) (vs : List Value) :
    encodeParts? (List.replicate vs.length c) vs =
      (vs.mapM (encode? c)).map (·.map (c.isDynamic, ·)) := by
  induction vs with
  | nil => rfl
  | cons v vs ih =>
    rw [List.length_cons, List.replicate_succ, encodeParts?, ih, List.mapM_cons]
    cases encode? c v with
    | none => rfl
    | some bs => cases vs.mapM (encode? c) <;> rfl

theorem countPlaces_replicate (n : Nat) (c : Coder) :
    countPlaces (List.replicate n c) = n * c.places := by
  induction n with
  | zero => rw [Nat.zero_mul]; rfl
  | succ n ih => rw [List.replicate_succ, countPlaces, ih, Nat.succ_mul, Nat.add_comm]

/-- The canonical values of the coder have encodings, each with a word for every place. -/
def Encodes (c : Coder) : Prop :=
  ∀ v, c.IsCanonical v → ∃ e, encode? c v = some e ∧ 32 * c.places ≤ e.length

theorem exists_parts_of_encodes {cs : List Coder} {vs : List Value}
    (hcs : ∀ c ∈ cs, c.Encodes) (hvs : AreCanonical cs vs) :
    ∃ parts, encodeParts? cs vs = some parts ∧ 32 * countPlaces cs ≤ headSize parts := by
  induction cs generalizing vs with
  | nil => cases hvs; exact ⟨[], rfl, Nat.le_refl 0⟩
  | cons c cs ih =>
    obtain ⟨hc, hcs⟩ := List.forall_mem_cons.mp hcs
    obtain ⟨v, ws, rfl, hv, hws⟩ := hvs
    obtain ⟨e, he, hlength⟩ := hc v hv
    obtain ⟨parts, hparts, hsize⟩ := ih hcs hws
    refine ⟨(c.isDynamic, e) :: parts, by rw [encodeParts?, he, hparts]; rfl, ?_⟩
    rw [countPlaces]
    cases hdynamic : c.isDynamic with
    | false => rw [headSize]; omega
    | true => rw [headSize, places_of_isDynamic hdynamic]; omega

theorem encodes_array {item : Coder} {length : Option Nat} (hitem : item.Encodes)
    (hsized : (array item length).IsSized) : (array item length).Encodes := by
  intro v hv
  rw [IsSized] at hsized
  rw [IsCanonical] at hv
  obtain ⟨vs, rfl, hlength, hall⟩ := hv
  obtain ⟨parts, hparts, hsize⟩ := exists_parts_of_encodes
    (fun c hc => List.eq_of_mem_replicate hc ▸ hitem) (areCanonical_replicate.mpr ⟨rfl, hall⟩)
  rw [encodeParts?_replicate, Option.map_eq_some_iff] at hparts
  obtain ⟨es, hes, rfl⟩ := hparts
  rw [countPlaces_replicate] at hsize
  have hplaces := places_pos hsized.1
  cases length with
  | none =>
    refine ⟨_, by rw [encode?, hes]; rfl, ?_⟩
    rw [List.length_append, length_word]
    exact Nat.le_add_right _ _
  | some n =>
    have hn := hlength n rfl
    refine ⟨_, by rw [encode?, if_pos hn, hes]; rfl, ?_⟩
    have hcount : vs.length ≤ vs.length * item.places := Nat.le_mul_of_pos_right _ hplaces
    have hpos : 0 < n := hsized.2
    rw [length_assemble, places]
    split <;> omega

theorem encodes_tuple {components : List Coder} (hcomponents : ∀ c ∈ components, c.Encodes)
    (hsized : (tuple components).IsSized) : (tuple components).Encodes := by
  intro v hv
  rw [IsSized] at hsized
  rw [IsCanonical] at hv
  obtain ⟨vs, rfl, hvs⟩ := hv
  obtain ⟨parts, hparts, hsize⟩ := exists_parts_of_encodes hcomponents hvs
  refine ⟨assemble parts, by rw [encode?, hparts]; rfl, ?_⟩
  have hpos : 1 ≤ countPlaces components := by
    obtain ⟨c, cs, rfl⟩ := List.exists_cons_of_ne_nil hsized.1
    exact Nat.le_add_right_of_le (places_pos (areSized_iff.mp hsized.2 c (by simp)))
  rw [length_assemble, places]
  · omega
  · exact fun _ _ h => Coder.noConfusion h

/-- **Every canonical value has an encoding.** -/
theorem encodes {c : Coder} (hsized : c.IsSized) : c.Encodes := by
  induction c using componentInduction with
  | single c hc =>
    intro v hv
    obtain ⟨n, -, hencode, -⟩ := exists_word hc hsized hv
    refine ⟨word n, hencode, ?_⟩
    rw [length_word]
    cases c <;> first | exact Nat.le_refl 32 | exact absurd hc (by simp [isSingle])
  | bytes =>
    rintro v ⟨bs, rfl⟩
    refine ⟨_, by rw [encode?], ?_⟩
    rw [encodeBytes, List.length_append, length_word]
    exact Nat.le_add_right _ _
  | string =>
    rintro v ⟨s, rfl⟩
    refine ⟨_, by rw [encode?], ?_⟩
    rw [encodeBytes, List.length_append, length_word]
    exact Nat.le_add_right _ _
  | array item length ih =>
    have hitem := hsized
    rw [IsSized] at hitem
    exact encodes_array (ih hitem.1) hsized
  | tuple components ih =>
    have hcomponents := hsized
    rw [IsSized] at hcomponents
    exact encodes_tuple (fun c hc => ih c hc (areSized_iff.mp hcomponents.2 c hc)) hsized

/-- **Every list of canonical values has an encoding.** -/
theorem exists_parts {cs : List Coder} {vs : List Value} (hsized : AreSized cs)
    (hvs : AreCanonical cs vs) :
    ∃ parts, encodeParts? cs vs = some parts ∧ 32 * countPlaces cs ≤ headSize parts :=
  exists_parts_of_encodes (fun c hc => encodes (areSized_iff.mp hsized c hc)) hvs

end Coder

end Proposals.Abi
