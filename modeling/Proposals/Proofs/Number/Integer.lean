import Mathlib.Data.List.DropRight
import Mathlib.Data.Nat.Digits.Defs
import Mathlib.Data.Rat.Floor
import Proposals.Proofs.Number.Decimal
import Proposals.Proofs.Number.Size
import Proposals.Value.Reading

/-!
# `Proofs.Number.Integer` — the integer that a value stands for

Integer notation is described here apart from the reader: blanks, a sign, and digits of any script with
single underscores between them (`IsIntegerText`). The reader gives what a text writes, and gives nothing
for other texts (`readInteger?_eq_some_iff`).

A number that is not written is a coefficient with a power of two or of ten, and its integer part is cut
off towards zero (`towardZero`). So a value is used for the integer that it denotes (`Value.Denotes`),
unless it is a truth value or a fraction (`Value.IsInexact`), which become another number
(`Value.toInteger_eq_ok_iff`).
-/

namespace Proposals

namespace Number

open Proposals.Text Proposals.Number.Decimal

/-! ## Integer notation -/

/-- Digits behind the first, with their values: an underscore may stand before each of them. -/
inductive IsDigitTail : List Char → List Nat → Prop where
  | nil : IsDigitTail [] []
  | digit {c : Char} {v : Nat} {cs : List Char} {vs : List Nat} :
    digit? c = some v → IsDigitTail cs vs → IsDigitTail (c :: cs) (v :: vs)
  | underscore {c : Char} {v : Nat} {cs : List Char} {vs : List Nat} :
    digit? c = some v → IsDigitTail cs vs → IsDigitTail ('_' :: c :: cs) (v :: vs)

/-- Digits with their values; single underscores may stand between them. -/
inductive IsDigitRun : List Char → List Nat → Prop where
  | mk {c : Char} {v : Nat} {cs : List Char} {vs : List Nat} :
    digit? c = some v → IsDigitTail cs vs → IsDigitRun (c :: cs) (v :: vs)

/-- An integer: blanks, a sign, digits that are not too many, and blanks again. -/
inductive IsIntegerText : List Char → Int → Prop where
  | mk {before sign digits after : List Char} {negative : Bool} {vs : List Nat} :
    (∀ c ∈ before, isIntegerBlank c = true) → IsSign sign negative → IsDigitRun digits vs →
    vs.length ≤ maxDigits → (∀ c ∈ after, isIntegerBlank c = true) →
    IsIntegerText (before ++ (sign ++ digits) ++ after) (signed negative (Nat.ofDigits 10 vs.reverse))

/-! ## Digits -/

theorem isIntegerBlank_of_digit? {c : Char} {v : Nat} (h : digit? c = some v) :
    isIntegerBlank c = false := by
  have hrun : ∀ z ∈ zeroPoints, ∀ k < 10, isIntegerBlank (Char.ofNat (z + k)) = false := by
    decide +kernel
  -- digits of ASCII and of the other scripts are found in different ways
  unfold digit? at h
  split at h
  · next hc =>
    exact of_toNat_lt_128 (p := fun c => isAsciiDigit c = true → isIntegerBlank c = false)
      (by decide) (Nat.lt_of_le_of_lt hc.2 (by decide)) (by simpa [isAsciiDigit] using hc)
  · split at h
    · cases h
    · obtain ⟨z, hz, -⟩ := Option.map_eq_some_iff.mp h
      have hbounds := List.find?_some hz
      simp only [Bool.and_eq_true, decide_eq_true_eq] at hbounds
      have hblank := hrun z (List.mem_of_find?_eq_some hz) (c.toNat - z) (by omega)
      rwa [Nat.add_sub_of_le hbounds.1, Char.ofNat_toNat] at hblank

/-- The number that values of digits make behind others. -/
def digitsFrom (acc : Nat) (vs : List Nat) : Nat := vs.foldl (fun n v => 10 * n + v) acc

theorem digitsFrom_eq_ofDigits (acc : Nat) (vs : List Nat) :
    digitsFrom acc vs = Nat.ofDigits 10 (vs.reverse ++ [acc]) := by
  induction vs generalizing acc with
  | nil => simp [digitsFrom]
  | cons v vs ih =>
    have hstep : digitsFrom acc (v :: vs) = digitsFrom (10 * acc + v) vs := rfl
    rw [hstep, ih, List.reverse_cons, List.append_assoc, Nat.ofDigits_append, Nat.ofDigits_append]
    simp [Nat.ofDigits_cons, Nat.add_comm]

theorem readDigitsFrom?_eq_some {acc n : Nat} {cs : List Char} (h : readDigitsFrom? acc cs = some n) :
    ∃ vs, IsDigitTail cs vs ∧ n = digitsFrom acc vs := by
  induction acc, cs using readDigitsFrom?.induct with
  | case1 acc =>
    cases h
    exact ⟨[], .nil, rfl⟩
  | case2 acc => exact absurd h (by simp [readDigitsFrom?])
  | case3 acc d rest ih =>
    unfold readDigitsFrom? at h
    rw [if_pos rfl] at h
    obtain ⟨v, hv, h⟩ := Option.bind_eq_some_iff.mp h
    obtain ⟨vs, hvs, rfl⟩ := ih v h
    exact ⟨v :: vs, .underscore hv hvs, rfl⟩
  | case4 acc c rest hc ih =>
    unfold readDigitsFrom? at h
    rw [if_neg hc] at h
    obtain ⟨v, hv, h⟩ := Option.bind_eq_some_iff.mp h
    obtain ⟨vs, hvs, rfl⟩ := ih v h
    exact ⟨v :: vs, .digit hv hvs, rfl⟩

namespace IsDigitTail

variable {cs : List Char} {vs : List Nat}

theorem readDigitsFrom? (h : IsDigitTail cs vs) (acc : Nat) :
    readDigitsFrom? acc cs = some (digitsFrom acc vs) := by
  induction h generalizing acc with
  | nil => rfl
  | digit hv _ ih =>
    unfold Number.readDigitsFrom?
    rw [if_neg (ne_underscore_of_digit? hv), hv]
    exact ih _
  | underscore hv _ ih =>
    unfold Number.readDigitsFrom?
    dsimp only
    rw [if_pos rfl, hv]
    exact ih _

theorem digitCount (h : IsDigitTail cs vs) : digitCount cs = vs.length := by
  induction h with
  | nil => rfl
  | digit hv _ ih => rw [digitCount_cons (ne_underscore_of_digit? hv), ih, List.length_cons]
  | underscore hv _ ih =>
    rw [Number.digitCount, List.filter_cons_of_neg (by simp)]
    show Number.digitCount _ = _
    rw [digitCount_cons (ne_underscore_of_digit? hv), ih, List.length_cons]

theorem not_isIntegerBlank_of_getLast? (h : IsDigitTail cs vs) {c : Char} (hc : cs.getLast? = some c) :
    isIntegerBlank c = false := by
  induction h with
  | nil => cases hc
  | @digit _ _ cs _ hv _ ih =>
    cases cs with
    | nil =>
      cases hc
      exact isIntegerBlank_of_digit? hv
    | cons d cs => exact ih (by rwa [List.getLast?_cons_cons] at hc)
  | @underscore _ _ cs _ hv _ ih =>
    rw [List.getLast?_cons_cons] at hc
    cases cs with
    | nil =>
      cases hc
      exact isIntegerBlank_of_digit? hv
    | cons d cs => exact ih (by rwa [List.getLast?_cons_cons] at hc)

end IsDigitTail

theorem digitsFrom_eq_ofDigits_cons (v : Nat) (vs : List Nat) :
    digitsFrom v vs = Nat.ofDigits 10 (v :: vs).reverse := by
  rw [digitsFrom_eq_ofDigits, List.reverse_cons]

/-- **A run of digits is read as the number that its digits make.** -/
theorem readDigits?_eq_some_iff {cs : List Char} {n : Nat} : readDigits? cs = some n ↔
    ∃ vs, IsDigitRun cs vs ∧ vs.length ≤ maxDigits ∧ n = Nat.ofDigits 10 vs.reverse := by
  cases cs with
  | nil => exact iff_of_false nofun (by rintro ⟨_, ⟨⟩, -⟩)
  | cons c cs =>
    show (if maxDigits < digitCount (c :: cs) then none else
      (digit? c).bind fun v => readDigitsFrom? v cs) = some n ↔ _
    constructor
    · intro h
      split at h
      · cases h
      · next hcount =>
        obtain ⟨v, hv, h⟩ := Option.bind_eq_some_iff.mp h
        obtain ⟨vs, hvs, rfl⟩ := readDigitsFrom?_eq_some h
        refine ⟨v :: vs, .mk hv hvs, ?_, digitsFrom_eq_ofDigits_cons v vs⟩
        rw [List.length_cons, ← hvs.digitCount, ← digitCount_cons (ne_underscore_of_digit? hv)]
        exact Nat.not_lt.mp hcount
    · rintro ⟨_, ⟨hv, hvs⟩, hcount, rfl⟩
      rw [List.length_cons, ← hvs.digitCount, ← digitCount_cons (ne_underscore_of_digit? hv)] at hcount
      rw [if_neg (Nat.not_lt.mpr hcount), hv, Option.bind_some, hvs.readDigitsFrom?,
        digitsFrom_eq_ofDigits_cons]

/-! ## Blanks -/

/-- The text neither opens nor ends with a blank. -/
structure IsIntegerTrimmed (cs : List Char) : Prop where
  nonempty : cs ≠ []
  opens : ∀ c, cs.head? = some c → isIntegerBlank c = false
  ends : ∀ c, cs.getLast? = some c → isIntegerBlank c = false

theorem exists_trimInteger (cs : List Char) : ∃ before after, cs = before ++ trimInteger cs ++ after ∧
    (∀ c ∈ before, isIntegerBlank c = true) ∧ ∀ c ∈ after, isIntegerBlank c = true := by
  refine ⟨cs.takeWhile isIntegerBlank, (cs.dropWhile isIntegerBlank).rtakeWhile isIntegerBlank, ?_,
    fun c => List.mem_takeWhile_imp, fun c => List.mem_rtakeWhile_imp⟩
  have hright : trimInteger cs ++ (cs.dropWhile isIntegerBlank).rtakeWhile isIntegerBlank =
      cs.dropWhile isIntegerBlank := List.rdropWhile_append_rtakeWhile
  rw [List.append_assoc, hright, List.takeWhile_append_dropWhile]

theorem IsIntegerTrimmed.trimInteger_append {core before after : List Char} (h : IsIntegerTrimmed core)
    (hbefore : ∀ c ∈ before, isIntegerBlank c = true) (hafter : ∀ c ∈ after, isIntegerBlank c = true) :
    trimInteger (before ++ core ++ after) = core := by
  have hdrop : ∀ {cs : List Char} (rest : List Char), cs ≠ [] →
      (∀ c, cs.head? = some c → isIntegerBlank c = false) →
      (cs ++ rest).dropWhile isIntegerBlank = cs ++ rest := by
    intro cs rest hne hhead
    obtain ⟨c, cs, rfl⟩ := List.exists_cons_of_ne_nil hne
    rw [List.cons_append, List.dropWhile_cons, hhead c rfl]
    rfl
  -- blanks behind the core are dropped from the reversed text
  have hreverse := hdrop [] (List.reverse_ne_nil_iff.mpr h.nonempty) fun c hc => by
    rw [List.head?_reverse] at hc
    exact h.ends c hc
  rw [List.append_nil] at hreverse
  rw [trimInteger, List.append_assoc, List.dropWhile_append_of_pos hbefore, hdrop _ h.nonempty h.opens,
    List.reverse_append, List.dropWhile_append_of_pos fun c hc => hafter c (List.mem_reverse.mp hc),
    hreverse, List.reverse_reverse]

theorem IsDigitRun.head? {cs : List Char} {vs : List Nat} (h : IsDigitRun cs vs) :
    ∃ c v, cs.head? = some c ∧ digit? c = some v := by
  obtain ⟨hv, -⟩ := h
  exact ⟨_, _, rfl, hv⟩

theorem IsDigitRun.not_isIntegerBlank_of_getLast? {cs : List Char} {vs : List Nat} (h : IsDigitRun cs vs)
    {c : Char} (hc : cs.getLast? = some c) : isIntegerBlank c = false := by
  obtain ⟨hv, hvs⟩ := h
  exact (IsDigitTail.digit hv hvs).not_isIntegerBlank_of_getLast? hc

/-- A sign and digits neither open nor end with a blank. -/
theorem isIntegerTrimmed_of_isDigitRun {sign digits : List Char} {negative : Bool} {vs : List Nat}
    (hsign : IsSign sign negative) (hdigits : IsDigitRun digits vs) : IsIntegerTrimmed (sign ++ digits) := by
  obtain ⟨d, v, hhead, hv⟩ := hdigits.head?
  have hne : digits ≠ [] := by
    rintro rfl
    cases hhead
  refine ⟨List.append_ne_nil_of_right_ne_nil _ hne, fun c hc => ?_, fun c hc => ?_⟩
  · cases hsign with
    | absent =>
      cases hhead.symm.trans hc
      exact isIntegerBlank_of_digit? hv
    | plus | minus =>
      cases hc
      decide
  · rw [List.getLast?_append_of_ne_nil _ hne] at hc
    exact hdigits.not_isIntegerBlank_of_getLast? hc

/-- What is left without blanks is a sign and digits. -/
theorem readInteger?_eq_some_iff_trimInteger {cs : List Char} {n : Int} : readInteger? cs = some n ↔
    ∃ sign digits negative m, trimInteger cs = sign ++ digits ∧ IsSign sign negative ∧
      readDigits? digits = some m ∧ n = signed negative m := by
  have hnumber : ∀ (digits : List Char) (f : Int → Int),
      ((do return (← readDigits? digits : Int)) : Option Int).map f = some n ↔
        ∃ m : Nat, readDigits? digits = some m ∧ n = f m := by
    intro digits f
    cases readDigits? digits <;> simp [eq_comm]
  constructor
  · intro h
    unfold readInteger? at h
    split at h
    · next digits hcore =>
      obtain ⟨m, hm, hn⟩ := (hnumber _ _).mp h
      exact ⟨['-'], digits, true, m, hcore, .minus, hm, hn⟩
    · next digits hcore =>
      obtain ⟨m, hm, hn⟩ := (hnumber _ _).mp h
      exact ⟨['+'], digits, false, m, hcore, .plus, hm, hn⟩
    · obtain ⟨m, hm, hn⟩ := (hnumber _ _).mp h
      exact ⟨[], _, false, m, rfl, .absent, hm, hn⟩
  · rintro ⟨sign, digits, negative, m, hcore, hsign, hm, hn⟩
    unfold readInteger?
    rw [hcore]
    cases hsign with
    | minus => exact (hnumber _ _).mpr ⟨m, hm, hn⟩
    | plus => exact (hnumber _ _).mpr ⟨m, hm, hn⟩
    | absent =>
      -- a digit is no sign
      have hnone : digit? '-' = none ∧ digit? '+' = none := by decide
      obtain ⟨vs, hvs, -, -⟩ := readDigits?_eq_some_iff.mp hm
      obtain ⟨d, v, hhead, hv⟩ := hvs.head?
      rw [List.nil_append]
      split
      · cases hhead
        cases hnone.1.symm.trans hv
      · cases hhead
        cases hnone.2.symm.trans hv
      · exact (hnumber _ _).mpr ⟨m, hm, hn⟩

/-- **The reader gives what a text writes, and nothing for other texts.** -/
theorem readInteger?_eq_some_iff {cs : List Char} {n : Int} :
    readInteger? cs = some n ↔ IsIntegerText cs n := by
  rw [readInteger?_eq_some_iff_trimInteger]
  constructor
  · rintro ⟨sign, digits, negative, m, hcore, hsign, hm, rfl⟩
    obtain ⟨vs, hvs, hcount, rfl⟩ := readDigits?_eq_some_iff.mp hm
    obtain ⟨before, after, hcs, hbefore, hafter⟩ := exists_trimInteger cs
    rw [hcs, hcore]
    exact .mk hbefore hsign hvs hcount hafter
  · rintro ⟨hbefore, hsign, hvs, hcount, hafter⟩
    exact ⟨_, _, _, _, (isIntegerTrimmed_of_isDigitRun hsign hvs).trimInteger_append hbefore hafter, hsign,
      readDigits?_eq_some_iff.mpr ⟨_, hvs, hcount, rfl⟩, rfl⟩

/-! ## Integer parts -/

/-- The integer part of a number: what is behind the point is cut off. -/
def towardZero (q : ℚ) : Int := if 0 ≤ q then ⌊q⌋ else ⌈q⌉

/-- The number that a sign, a significand and an exponent of two stand for. -/
def Binary.value (negative : Bool) (m : Nat) (e : Int) : ℚ := (if negative then -1 else 1) * m * 2 ^ e

theorem towardZero_intCast (n : Int) : towardZero n = n := by simp [towardZero]

theorem towardZero_neg (q : ℚ) : towardZero (-q) = -towardZero q := by
  unfold towardZero
  rcases lt_trichotomy q 0 with hq | rfl | hq
  · rw [if_pos (by linarith), if_neg (by linarith), Int.floor_neg]
  · simp
  · rw [if_neg (by linarith), if_pos hq.le, Int.ceil_neg]

/-- A coefficient times a power of a base, as a quotient of natural numbers. -/
theorem floor_mul_zpow {base : Nat} (hbase : 0 < base) (m : Nat) (e : Int) :
    ⌊(m : ℚ) * (base : ℚ) ^ e⌋ = ((m * base ^ e.toNat / base ^ (-e).toNat : Nat) : Int) := by
  have hne : (base : ℚ) ≠ 0 := Nat.cast_ne_zero.mpr hbase.ne'
  have hquotient : (m : ℚ) * (base : ℚ) ^ e =
      ((m * base ^ e.toNat : Nat) : ℚ) / ((base ^ (-e).toNat : Nat) : ℚ) := by
    -- one of the two powers has exponent zero
    obtain ⟨k, rfl | rfl⟩ := e.eq_nat_or_neg
    · simp
    · simp [div_eq_mul_inv]
  rw [hquotient, Rat.floor_natCast_div_natCast]
  rfl

/-- **The integer part of a number with a sign, a coefficient and an exponent.** -/
theorem towardZero_scaled (base : Nat) (hbase : 0 < base) (negative : Bool) (m : Nat) (e : Int) :
    towardZero ((if negative then -1 else 1) * m * (base : ℚ) ^ e) =
      signed negative (m * base ^ e.toNat / base ^ (-e).toNat) := by
  have hnonneg : (0 : ℚ) ≤ (m : ℚ) * (base : ℚ) ^ e := mul_nonneg m.cast_nonneg (zpow_nonneg base.cast_nonneg e)
  have hpart : towardZero ((m : ℚ) * (base : ℚ) ^ e) =
      ((m * base ^ e.toNat / base ^ (-e).toNat : Nat) : Int) := by
    rw [towardZero, if_pos hnonneg, floor_mul_zpow hbase]
  cases negative with
  | false => simp only [Bool.false_eq_true, if_false, one_mul, hpart, signed]
  | true => simp only [if_true, neg_mul, one_mul, towardZero_neg, hpart, signed]

theorem Binary.truncate_eq_towardZero (negative : Bool) (m : Nat) (e : Int) :
    Binary.truncate negative m e = towardZero (Binary.value negative m e) := by
  -- the program multiplies or divides, and need not do both
  have hpart : (if 0 ≤ e then m * twoTo e.toNat else m / twoTo (-e).toNat) =
      m * 2 ^ e.toNat / 2 ^ (-e).toNat := by
    split
    · next he => rw [show (-e).toNat = 0 by omega, Nat.pow_zero, Nat.div_one]; rfl
    · next he => rw [show e.toNat = 0 by omega, Nat.pow_zero, Nat.mul_one]; rfl
  have hvalue := towardZero_scaled 2 (by decide) negative m e
  rw [Nat.cast_ofNat] at hvalue
  rw [Binary.value, hvalue, Binary.truncate, hpart]
  rfl

theorem decimalInteger_eq_towardZero (negative : Bool) (coefficient : Nat) (exponent : Int) :
    Value.decimalInteger (.finite negative coefficient exponent) =
      .ok (towardZero (Decimal.value negative coefficient exponent)) := by
  have hvalue := towardZero_scaled 10 (by decide) negative coefficient exponent
  rw [Nat.cast_ofNat] at hvalue
  rw [Decimal.value, hvalue]
  rfl

end Number

namespace Value

open Proposals.Number

/-! ## Values in place of integers -/

/-- The value is a finite number with a point. -/
inductive IsNumber : Value → ℚ → Prop where
  | float (negative : Bool) (m : Nat) (e : Int) :
    IsNumber (.float (.finite negative m e)) (Binary.value negative m e)
  | decimal (negative : Bool) (coefficient : Nat) (exponent : Int) :
    IsNumber (.decimal (.finite negative coefficient exponent)) (Decimal.value negative coefficient exponent)

/-- **The value denotes the integer**: it is the integer, or a text or ASCII bytes that write it, or a
    number that is equal to it. -/
inductive Denotes : Value → Int → Prop where
  | int (n : Int) : Denotes (.int n) n
  | text {s : String} {n : Int} : IsIntegerText s.toList n → Denotes (.text s) n
  | bytes {bs : List UInt8} {n : Int} : (∀ b ∈ bs, b.toNat < 128) →
    IsIntegerText (bs.map fun b => Char.ofNat b.toNat) n → Denotes (.bytes bs) n
  | number {v : Value} {n : Int} : v.IsNumber n → Denotes v n

/-- The value is a truth value, which becomes one or zero, or a fraction, which is cut off. -/
inductive IsForcedTo : Value → Int → Prop where
  | truth (b : Bool) : IsForcedTo (.bool b) (if b then 1 else 0)
  | fraction {v : Value} {q : ℚ} : v.IsNumber q → (∀ n : Int, q ≠ n) → IsForcedTo v (towardZero q)

/-- The value is a truth value or a fraction. -/
def IsInexact (v : Value) : Prop := ∃ n, v.IsForcedTo n

variable {v : Value} {n : Int}

theorem IsNumber.toInteger {q : ℚ} (h : v.IsNumber q) : v.toInteger = .ok (towardZero q) := by
  cases h with
  | float negative m e => exact congrArg Except.ok (Binary.truncate_eq_towardZero negative m e)
  | decimal negative coefficient exponent => exact decimalInteger_eq_towardZero negative coefficient exponent

theorem IsNumber.unique {q r : ℚ} (h : v.IsNumber q) (h' : v.IsNumber r) : q = r := by
  cases h <;> cases h' <;> rfl

theorem textInteger_eq_ok_iff {cs : List Char} : textInteger cs = .ok n ↔ IsIntegerText cs n := by
  rw [← readInteger?_eq_some_iff]
  unfold textInteger
  cases readInteger? cs <;> simp

theorem toInteger_of_denotes (h : v.Denotes n) : v.toInteger = .ok n := by
  cases h with
  | int => rfl
  | text h => exact textInteger_eq_ok_iff.mpr h
  | bytes hascii h => exact (if_pos (by simpa using hascii)).trans (textInteger_eq_ok_iff.mpr h)
  | number h => rw [h.toInteger, towardZero_intCast]

theorem IsNumber.denotes_or_isForcedTo {q : ℚ} (h : v.IsNumber q) :
    v.Denotes (towardZero q) ∨ v.IsForcedTo (towardZero q) := by
  by_cases hq : ∃ n : Int, q = n
  · obtain ⟨n, rfl⟩ := hq
    rw [towardZero_intCast]
    exact .inl (.number h)
  · exact .inr (.fraction h (not_exists.mp hq))

/-- **A value is used for the integer that it denotes, or it is forced to one.** -/
theorem toInteger_eq_ok_iff : v.toInteger = .ok n ↔ v.Denotes n ∨ v.IsForcedTo n := by
  constructor
  · intro h
    have hnumber : ∀ {q : ℚ}, v.IsNumber q → v.Denotes n ∨ v.IsForcedTo n := by
      intro q hq
      cases hq.toInteger.symm.trans h
      exact hq.denotes_or_isForcedTo
    cases v with
    | int m =>
      cases h
      exact .inl (.int _)
    | bool b =>
      cases h
      exact .inr (.truth b)
    | float x =>
      cases x with
      | finite negative m e => exact hnumber (.float negative m e)
      | infinite | nan => cases h
    | decimal d =>
      cases d with
      | finite negative coefficient exponent => exact hnumber (.decimal negative coefficient exponent)
      | infinite | invalid => cases h
    | text s => exact .inl (.text (textInteger_eq_ok_iff.mp h))
    | bytes bs =>
      rw [toInteger] at h
      split at h
      · next hascii => exact .inl (.bytes (by simpa using hascii) (textInteger_eq_ok_iff.mp h))
      · cases h
    | _ => cases h
  · rintro (h | h)
    · exact toInteger_of_denotes h
    · cases h with
      | truth b => rfl
      | fraction hq _ => exact hq.toInteger

/-- What a value is used for is what it denotes, unless it is a truth value or a fraction. -/
theorem denotes_iff_not_isInexact (h : v.toInteger = .ok n) : v.Denotes n ↔ ¬ v.IsInexact := by
  constructor
  · rintro hdenotes ⟨m, hforced⟩
    cases hforced with
    | truth b =>
      cases hdenotes with
      | number h => cases h
    | fraction hq hne =>
      cases hdenotes with
      | number h => exact hne _ (hq.unique h)
      | _ => cases hq
  · exact fun hnot => (toInteger_eq_ok_iff.mp h).resolve_right fun hforced => hnot ⟨n, hforced⟩

end Value

end Proposals
