import Proposals.Number.Decimal
import Proposals.Proofs.Number.Digits
import Mathlib.Algebra.Field.Rat
import Mathlib.Data.List.TakeWhile

/-!
# `Proofs.Number.Decimal` — decimal notation and its reader

Decimal notation is described here apart from the reader, as a relation of a text with a sign, a
coefficient and an exponent: a sign (`IsSign`), digits with at most one point among them (`IsMantissa`)
and a power of ten behind a mark (`IsPower`). The reader gives what the text writes, unless its power of
ten is out of bounds (`read?_of_isNumeral`), and gives a finite number for no other text
(`isNumeral_of_read?`); so a text writes at most one number.

The reader looks for the mark first and for the point in what stands before it. Digits are neither, so
each part of a numeral ends where the reader cuts; that is all the argument there is.
-/

namespace Proposals.Number.Decimal

open Proposals.Text

/-! ## Notation -/

/-- A run of digits. -/
def IsDigits (cs : List Char) : Prop := cs ≠ [] ∧ ∀ c ∈ cs, isAsciiDigit c = true

/-- A sign, and whether it is a minus sign. There may be none. -/
inductive IsSign : List Char → Bool → Prop where
  | absent : IsSign [] false
  | plus : IsSign ['+'] false
  | minus : IsSign ['-'] true

/-- The integer of a size and a sign. -/
def signed (negative : Bool) (n : Nat) : Int := if negative then -n else n

/-- A power of ten: a mark and an integer behind it. There may be none. -/
inductive IsPower : List Char → Int → Prop where
  | absent : IsPower [] 0
  | marked {mark : Char} {sign digits : List Char} {negative : Bool} :
    mark = 'e' ∨ mark = 'E' → IsSign sign negative → IsDigits digits →
    IsPower (mark :: (sign ++ digits)) (signed negative (asciiNumber digits))

/-- Digits with at most one point, which may also stand at one of their ends; then the digits before
    and behind it. -/
inductive IsMantissa : List Char → List Char → List Char → Prop where
  | plain {whole : List Char} : IsDigits whole → IsMantissa whole whole []
  | pointed {whole fraction : List Char} :
    IsDigits (whole ++ fraction) → IsMantissa (whole ++ '.' :: fraction) whole fraction

/-- A numeral without sign, with the number that all its digits write and the power of ten of the last
    one. -/
inductive IsMagnitude : List Char → Nat → Int → Prop where
  | mk {mantissa whole fraction power : List Char} {n : Int} :
    IsMantissa mantissa whole fraction → IsPower power n →
    IsMagnitude (mantissa ++ power) (asciiNumber (whole ++ fraction)) (n - fraction.length)

/-- A numeral: a sign, digits and a power of ten. -/
inductive IsNumeral : List Char → Bool → Nat → Int → Prop where
  | mk {sign cs : List Char} {negative : Bool} {coefficient : Nat} {exponent : Int} :
    IsSign sign negative → IsMagnitude cs coefficient exponent →
    IsNumeral (sign ++ cs) negative coefficient exponent

/-- The powers of ten of the first and of the last digit are within the bounds of decimals. -/
def IsInRange (coefficient : Nat) (exponent : Int) : Prop :=
  adjusted coefficient exponent ≤ maxAdjusted ∧ minExponent ≤ exponent

instance (coefficient : Nat) (exponent : Int) : Decidable (IsInRange coefficient exponent) :=
  inferInstanceAs (Decidable (_ ∧ _))

/-- The number that a sign, a coefficient and an exponent stand for. -/
def value (negative : Bool) (coefficient : Nat) (exponent : Int) : ℚ :=
  (if negative then -1 else 1) * coefficient * 10 ^ exponent

/-! ## Characters of numerals -/

/-- Digits and points are no marks and no signs, open no word, and have no case. -/
theorem of_isAsciiDigit_or_point {c : Char} (h : isAsciiDigit c = true ∨ c = '.') :
    (c ≠ 'e' ∧ c ≠ 'E') ∧ (c ≠ '-' ∧ c ≠ '+') ∧
      c.toLower ≠ 'i' ∧ c.toLower ≠ 'n' ∧ c.toLower ≠ 's' := by
  rcases h with hdigit | rfl
  · exact of_toNat_lt_128 (p := fun c => isAsciiDigit c = true → (c ≠ 'e' ∧ c ≠ 'E') ∧
      (c ≠ '-' ∧ c ≠ '+') ∧ c.toLower ≠ 'i' ∧ c.toLower ≠ 'n' ∧ c.toLower ≠ 's')
      (by decide) (toNat_lt_of_isAsciiDigit hdigit) hdigit
  · decide

theorem ne_point_of_isAsciiDigit {c : Char} (h : isAsciiDigit c = true) : c ≠ '.' := by
  rintro rfl
  exact absurd h (by decide)

theorem IsDigits.head? {cs : List Char} (h : IsDigits cs) :
    ∃ c, cs.head? = some c ∧ isAsciiDigit c = true := by
  obtain ⟨c, rest, rfl⟩ := List.exists_cons_of_ne_nil h.1
  exact ⟨c, rfl, h.2 c List.mem_cons_self⟩

namespace IsMantissa

variable {mantissa whole fraction : List Char}

theorem isDigits (h : IsMantissa mantissa whole fraction) : IsDigits (whole ++ fraction) := by
  cases h with
  | plain hdigits => rw [List.append_nil]; exact hdigits
  | pointed hdigits => exact hdigits

theorem isAsciiDigit_or_point (h : IsMantissa mantissa whole fraction) {c : Char} (hc : c ∈ mantissa) :
    isAsciiDigit c = true ∨ c = '.' := by
  cases h with
  | plain hdigits => exact .inl (hdigits.2 c hc)
  | pointed hdigits =>
    rcases List.mem_append.mp hc with hc | hc
    · exact .inl (hdigits.2 c (List.mem_append_left _ hc))
    · rcases List.mem_cons.mp hc with rfl | hc
      · exact .inr rfl
      · exact .inl (hdigits.2 c (List.mem_append_right _ hc))

theorem ne_nil (h : IsMantissa mantissa whole fraction) : mantissa ≠ [] := by
  cases h with
  | plain hdigits => exact hdigits.1
  | pointed hdigits => simp

end IsMantissa

/-- A numeral without sign opens with a digit or a point. -/
theorem IsMagnitude.head? {cs : List Char} {coefficient : Nat} {exponent : Int}
    (h : IsMagnitude cs coefficient exponent) :
    ∃ c rest, cs = c :: rest ∧ (isAsciiDigit c = true ∨ c = '.') := by
  obtain ⟨hmantissa, hpower⟩ := h
  obtain ⟨c, rest, rfl⟩ := List.exists_cons_of_ne_nil hmantissa.ne_nil
  exact ⟨c, _, rfl, hmantissa.isAsciiDigit_or_point List.mem_cons_self⟩

/-! ## Reading the parts -/

theorem asciiNat?_eq_some_iff {cs : List Char} {n : Nat} :
    asciiNat? cs = some n ↔ IsDigits cs ∧ asciiNumber cs = n := by
  have hdigits : (!cs.isEmpty && cs.all isAsciiDigit) = true ↔ IsDigits cs := by
    rw [Bool.and_eq_true, List.all_eq_true, Bool.not_eq_true', List.isEmpty_eq_false_iff]
    rfl
  unfold asciiNat?
  rw [Option.ite_none_right_eq_some, hdigits, Option.some.injEq]

/-- The integer behind the mark has an optional sign. -/
theorem readExponent?_eq_some_iff {cs : List Char} {n : Int} :
    readExponent? cs = some n ↔ ∃ sign digits negative,
      cs = sign ++ digits ∧ IsSign sign negative ∧ IsDigits digits ∧
        signed negative (asciiNumber digits) = n := by
  constructor
  · intro h
    unfold readExponent? at h
    split at h
    all_goals
      simp only [Option.map_eq_some_iff, Option.bind_eq_bind, Option.bind_eq_some_iff, Option.pure_def,
        Option.some.injEq] at h
      obtain ⟨_, ⟨m, hm, rfl⟩, rfl⟩ := h
      obtain ⟨hdigits, rfl⟩ := asciiNat?_eq_some_iff.mp hm
    · exact ⟨['-'], _, true, rfl, .minus, hdigits, rfl⟩
    · exact ⟨['+'], _, false, rfl, .plus, hdigits, rfl⟩
    · exact ⟨[], _, false, rfl, .absent, hdigits, rfl⟩
  · rintro ⟨sign, digits, negative, rfl, hsign, hdigits, rfl⟩
    have hread : asciiNat? digits = some (asciiNumber digits) :=
      asciiNat?_eq_some_iff.mpr ⟨hdigits, rfl⟩
    cases hsign with
    | minus => simp [readExponent?, hread, signed]
    | plus => simp [readExponent?, hread, signed]
    | absent =>
      -- a digit is no sign
      obtain ⟨c, hhead, hc⟩ := hdigits.head?
      have hfacts := (of_isAsciiDigit_or_point (.inl hc)).2.1
      rw [List.nil_append]
      unfold readExponent?
      split
      · exact absurd (Option.some.inj hhead).symm hfacts.1
      · exact absurd (Option.some.inj hhead).symm hfacts.2
      · simp [hread, signed]

/-- Whether the character marks a power of ten. -/
abbrev isMark (c : Char) : Bool := c == 'e' || c == 'E'

theorem isMark_iff {c : Char} : isMark c = true ↔ c = 'e' ∨ c = 'E' := by simp [isMark]

/-- The power of ten in the text that is left from the mark on. -/
def powerOf? : List Char → Option Int
  | [] => some 0
  | _ :: rest => readExponent? rest

/-- What is left from the first mark on is empty or a mark with an integer. -/
theorem powerOf?_dropWhile_eq_some_iff {cs : List Char} {n : Int} :
    powerOf? (cs.dropWhile (!isMark ·)) = some n ↔ IsPower (cs.dropWhile (!isMark ·)) n := by
  have hhead := List.head?_dropWhile_not (!isMark ·) cs
  generalize cs.dropWhile (!isMark ·) = rest at hhead ⊢
  cases rest with
  | nil =>
    constructor
    · rintro ⟨⟩
      exact .absent
    · rintro ⟨⟩
      rfl
  | cons mark rest =>
    have hmark : mark = 'e' ∨ mark = 'E' := by
      have hnot : (!isMark mark) = false := hhead
      rw [Bool.not_eq_false'] at hnot
      exact isMark_iff.mp hnot
    show readExponent? rest = some n ↔ _
    rw [readExponent?_eq_some_iff]
    constructor
    · rintro ⟨sign, digits, negative, rfl, hsign, hdigits, rfl⟩
      exact .marked hmark hsign hdigits
    · intro hpower
      cases hpower with
      | marked _ hsign hdigits => exact ⟨_, _, _, rfl, hsign, hdigits, rfl⟩

/-- The digits before the point and those behind it. -/
def cutAtPoint (mantissa : List Char) : List Char × List Char :=
  (mantissa.takeWhile (· != '.'), (mantissa.dropWhile (· != '.')).drop 1)

/-- A text is a mantissa exactly if it has digits and nothing else but the point at which it is cut. -/
theorem isMantissa_cutAtPoint_iff {mantissa : List Char} :
    IsMantissa mantissa (cutAtPoint mantissa).1 (cutAtPoint mantissa).2 ↔
      IsDigits ((cutAtPoint mantissa).1 ++ (cutAtPoint mantissa).2) := by
  refine ⟨IsMantissa.isDigits, fun hdigits => ?_⟩
  have hsplit : mantissa.takeWhile (· != '.') ++ mantissa.dropWhile (· != '.') = mantissa :=
    List.takeWhile_append_dropWhile
  have hhead := List.head?_dropWhile_not (· != '.') mantissa
  unfold cutAtPoint at hdigits ⊢
  generalize mantissa.takeWhile (· != '.') = whole at hsplit hdigits ⊢
  generalize mantissa.dropWhile (· != '.') = rest at hsplit hdigits hhead ⊢
  subst hsplit
  cases rest with
  | nil =>
    rw [List.drop_nil, List.append_nil] at hdigits
    rw [List.append_nil]
    exact .plain hdigits
  | cons point fraction =>
    obtain rfl : point = '.' := by simpa using hhead
    exact .pointed hdigits

theorem IsMantissa.cutAtPoint_eq {mantissa whole fraction : List Char}
    (h : IsMantissa mantissa whole fraction) : cutAtPoint mantissa = (whole, fraction) := by
  have hpass : ∀ {cs : List Char}, (∀ c ∈ cs, isAsciiDigit c = true) → ∀ c ∈ cs, (c != '.') = true :=
    fun hdigits c hc => bne_iff_ne.mpr (ne_point_of_isAsciiDigit (hdigits c hc))
  unfold cutAtPoint
  cases h with
  | plain hdigits =>
    have hwhole := hpass hdigits.2
    rw [List.takeWhile_eq_self_iff.mpr hwhole, List.dropWhile_eq_nil_iff.mpr hwhole]
    rfl
  | pointed hdigits =>
    have hwhole : ∀ c ∈ whole, (c != '.') = true :=
      hpass fun c hc => hdigits.2 c (List.mem_append_left _ hc)
    have hpoint : ∀ c, ('.' :: fraction).head? = some c → (c != '.') = false := by
      rintro c ⟨⟩
      rfl
    obtain ⟨htake, hdrop⟩ := takeWhile_dropWhile_append hwhole hpoint
    rw [htake, hdrop]
    rfl

/-! ## Reading numerals -/

/-- The reader cuts a text at the mark, and what stands before it at the point. -/
theorem readMagnitude?_eq (cs : List Char) : readMagnitude? cs =
    (powerOf? (cs.dropWhile (!isMark ·))).bind fun n =>
      (asciiNat? ((cutAtPoint (cs.takeWhile (!isMark ·))).1 ++
        (cutAtPoint (cs.takeWhile (!isMark ·))).2)).bind fun coefficient =>
          if IsInRange coefficient (n - (cutAtPoint (cs.takeWhile (!isMark ·))).2.length) then
            some (coefficient, n - (cutAtPoint (cs.takeWhile (!isMark ·))).2.length)
          else none := by
  have hrange : ∀ (coefficient : Nat) (exponent : Int),
      (if maxAdjusted < adjusted coefficient exponent then none
        else if exponent < minExponent then none else some (coefficient, exponent)) =
      if IsInRange coefficient exponent then some (coefficient, exponent) else none := by
    intro coefficient exponent
    by_cases hfirst : maxAdjusted < adjusted coefficient exponent
    · rw [if_pos hfirst, if_neg fun h => Int.not_le.mpr hfirst h.1]
    · by_cases hlast : exponent < minExponent
      · rw [if_neg hfirst, if_pos hlast, if_neg fun h => Int.not_le.mpr hlast h.2]
      · rw [if_neg hfirst, if_neg hlast, if_pos ⟨Int.not_lt.mp hfirst, Int.not_lt.mp hlast⟩]
  simp only [← hrange]
  unfold readMagnitude? powerOf? cutAtPoint
  simp only [isMark]
  generalize cs.dropWhile (fun c => !(c == 'e' || c == 'E')) = rest
  cases rest with
  | nil => rfl
  | cons c rest => rfl

theorem isMagnitude_of_readMagnitude? {cs : List Char} {coefficient : Nat} {exponent : Int}
    (h : readMagnitude? cs = some (coefficient, exponent)) :
    IsMagnitude cs coefficient exponent ∧ IsInRange coefficient exponent := by
  rw [readMagnitude?_eq] at h
  obtain ⟨n, hpower, h⟩ := Option.bind_eq_some_iff.mp h
  obtain ⟨m, hnumber, h⟩ := Option.bind_eq_some_iff.mp h
  obtain ⟨hrange, h⟩ := Option.ite_none_right_eq_some.mp h
  cases h
  obtain ⟨hdigits, rfl⟩ := asciiNat?_eq_some_iff.mp hnumber
  refine ⟨?_, hrange⟩
  have hmagnitude := IsMagnitude.mk (isMantissa_cutAtPoint_iff.mpr hdigits)
    (powerOf?_dropWhile_eq_some_iff.mp hpower)
  rw [List.takeWhile_append_dropWhile] at hmagnitude
  exact hmagnitude

theorem readMagnitude?_of_isMagnitude {cs : List Char} {coefficient : Nat} {exponent : Int}
    (h : IsMagnitude cs coefficient exponent) : readMagnitude? cs =
      if IsInRange coefficient exponent then some (coefficient, exponent) else none := by
  obtain @⟨mantissa, whole, fraction, power, n, hmantissa, hpower⟩ := h
  -- no character of the mantissa is a mark, and the power of ten opens with one
  have hplain : ∀ c ∈ mantissa, (!isMark c) = true := by
    intro c hc
    have hfacts := (of_isAsciiDigit_or_point (hmantissa.isAsciiDigit_or_point hc)).1
    simp [isMark, hfacts]
  have hhead : ∀ c, power.head? = some c → (!isMark c) = false := by
    intro c hc
    cases hpower with
    | absent => exact absurd hc (by simp)
    | marked hmark =>
      cases hc
      rw [isMark_iff.mpr hmark]
      rfl
  obtain ⟨htake, hdrop⟩ := takeWhile_dropWhile_append hplain hhead
  have hread : powerOf? power = some n := by
    rw [← hdrop]
    exact powerOf?_dropWhile_eq_some_iff.mpr (hdrop.symm ▸ hpower)
  have hnumber : asciiNat? (whole ++ fraction) = some (asciiNumber (whole ++ fraction)) :=
    asciiNat?_eq_some_iff.mpr ⟨hmantissa.isDigits, rfl⟩
  rw [readMagnitude?_eq, htake, hdrop, hmantissa.cutAtPoint_eq, hread, Option.bind_some, hnumber,
    Option.bind_some]

/-- A numeral is none of the words for infinite and invalid numbers. -/
theorem readUnsigned?_of_isMagnitude {cs : List Char} {coefficient : Nat} {exponent : Int}
    (h : IsMagnitude cs coefficient exponent) (negative : Bool) : readUnsigned? negative cs =
      if IsInRange coefficient exponent then some (.finite negative coefficient exponent) else none := by
  obtain ⟨c, rest, hcons, hc⟩ := h.head?
  obtain ⟨-, -, hi, hn, hs⟩ := of_isAsciiDigit_or_point hc
  have hlower : readUnsigned?.lowercase cs = c.toLower :: readUnsigned?.lowercase rest := by
    rw [hcons]; rfl
  have hinfinite : ¬ (readUnsigned?.lowercase cs = "inf".toList ∨
      readUnsigned?.lowercase cs = "infinity".toList) := by
    rw [hlower]
    rintro (h | h) <;> exact hi (List.cons.inj h).1
  have hinvalid : ¬ (readUnsigned?.lowercase cs).take 3 = "nan".toList := by
    rw [hlower]
    exact fun h => hn (List.cons.inj h).1
  have hsignaling : ¬ (readUnsigned?.lowercase cs).take 4 = "snan".toList := by
    rw [hlower]
    exact fun h => hs (List.cons.inj h).1
  unfold readUnsigned?
  simp only [if_neg hinfinite, if_neg hinvalid, if_neg hsignaling, readMagnitude?_of_isMagnitude h]
  split <;> rfl

theorem isMagnitude_of_readUnsigned? {cs : List Char} {negative negative' : Bool} {coefficient : Nat}
    {exponent : Int} (h : readUnsigned? negative cs = some (.finite negative' coefficient exponent)) :
    negative' = negative ∧ IsMagnitude cs coefficient exponent ∧ IsInRange coefficient exponent := by
  unfold readUnsigned? at h
  simp only at h
  split at h
  · exact absurd h (by simp)
  · split at h
    · exact absurd h (by simp)
    · split at h
      · exact absurd h (by simp)
      · obtain ⟨⟨c, e⟩, hread, heq⟩ := Option.map_eq_some_iff.mp h
        cases heq
        exact ⟨rfl, isMagnitude_of_readMagnitude? hread⟩

/-- **A numeral is read as what it writes**, if that is within the bounds of decimals. -/
theorem read?_of_isNumeral {cs : List Char} {negative : Bool} {coefficient : Nat} {exponent : Int}
    (h : IsNumeral (asciiForm (strip cs)) negative coefficient exponent) : read? cs =
      if IsInRange coefficient exponent then some (.finite negative coefficient exponent) else none := by
  unfold read?
  generalize asciiForm (strip cs) = text at h ⊢
  obtain ⟨hsign, hmagnitude⟩ := h
  have hread := readUnsigned?_of_isMagnitude hmagnitude
  cases hsign with
  | plus => exact hread false
  | minus => exact hread true
  | absent =>
    obtain ⟨c, rest, rfl, hc⟩ := hmagnitude.head?
    obtain ⟨-, ⟨hminus, hplus⟩, -⟩ := of_isAsciiDigit_or_point hc
    rw [List.nil_append]
    split
    · next hcons => exact absurd (List.cons.inj hcons).1 hminus
    · next hcons => exact absurd (List.cons.inj hcons).1 hplus
    · exact hread false

/-- **Only numerals are read as finite numbers.** -/
theorem isNumeral_of_read? {cs : List Char} {negative : Bool} {coefficient : Nat} {exponent : Int}
    (h : read? cs = some (.finite negative coefficient exponent)) :
    IsNumeral (asciiForm (strip cs)) negative coefficient exponent ∧
      IsInRange coefficient exponent := by
  unfold read? at h
  generalize asciiForm (strip cs) = text at h ⊢
  split at h
  · obtain ⟨rfl, hmagnitude, hrange⟩ := isMagnitude_of_readUnsigned? h
    exact ⟨.mk .minus hmagnitude, hrange⟩
  · obtain ⟨rfl, hmagnitude, hrange⟩ := isMagnitude_of_readUnsigned? h
    exact ⟨.mk .plus hmagnitude, hrange⟩
  · obtain ⟨rfl, hmagnitude, hrange⟩ := isMagnitude_of_readUnsigned? h
    exact ⟨.mk .absent hmagnitude, hrange⟩

/-! ## Closing zeros and digits -/

/-- The zeros that are taken off a coefficient are those of the number. -/
theorem trimPlaces_sound (coefficient places : Nat) :
    (trimPlaces coefficient places).2 ≤ places ∧
      tenTo (places - (trimPlaces coefficient places).2) * (trimPlaces coefficient places).1 =
        coefficient := by
  induction places generalizing coefficient with
  | zero => exact ⟨Nat.le_refl 0, Nat.one_mul coefficient⟩
  | succ places ih =>
    unfold trimPlaces
    split
    · next hzero =>
      obtain ⟨hle, hvalue⟩ := ih (coefficient / 10)
      refine ⟨Nat.le_succ_of_le hle, ?_⟩
      rw [Nat.succ_sub hle, tenTo_succ, Nat.mul_right_comm, hvalue]
      omega
    · refine ⟨Nat.le_refl _, ?_⟩
      rw [Nat.sub_self]
      exact Nat.one_mul coefficient

/-- Places are left only behind a last digit that is not zero. -/
theorem trimPlaces_mod_ten {coefficient places : Nat} (h : 0 < (trimPlaces coefficient places).2) :
    (trimPlaces coefficient places).1 % 10 ≠ 0 := by
  induction places generalizing coefficient with
  | zero => exact absurd h (Nat.lt_irrefl 0)
  | succ places ih =>
    unfold trimPlaces at h ⊢
    split at h
    · next hzero => rw [if_pos hzero]; exact ih h
    · next hzero => rw [if_neg hzero]; exact hzero

/-- A number is at least the power of ten of its first digit. -/
theorem tenTo_le_of_lt_digitCount {n k : Nat} (hn : 0 < n) (hk : k < digitCount n) : tenTo k ≤ n := by
  rcases Nat.eq_zero_or_pos k with rfl | hpos
  · exact hn
  · exact Nat.le_of_not_lt fun hlt => Nat.not_le.mpr hk ((length_natText_le_iff hpos).mpr hlt)

end Proposals.Number.Decimal
