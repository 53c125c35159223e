import Proposals.Amount
import Proposals.Proofs.Fault
import Proposals.Proofs.Number.Decimal
import Proposals.Proofs.Text.Blank
import Proposals.Proofs.Wire
import Mathlib.Algebra.Order.Field.Power
import Mathlib.Algebra.Order.Ring.Rat
import Mathlib.Tactic.NormNum
import Mathlib.Tactic.Positivity
import Mathlib.Tactic.Ring

/-!
# `Proofs.Amount` — amounts are read and written without loss

An amount is a decimal number of whole units. Reading it gives the least units that this number stands
for, if they are a whole number in range, and a fault of amounts otherwise
(`parseUnits_eq_ok_iff`, `within_parseUnits`). The number is a rational one here, so that "exactly" says
what it says: the digits of a decimal may reach far behind the point or far before it, and what is
compared with the limit or trimmed on the way is shown to be that number each time (`mul_zpow_eq`).

The written form of a number of units is plain notation: a whole part and, unless it is zero, a fraction
without closing zeros (`exists_formatNat`). It stands for the number that the units are of a whole unit,
so reading gives the units back.
-/

namespace Proposals.Amount

open Proposals.Text Proposals.Number Proposals.Outcome Decimal

/-! ## The units of a decimal -/

theorem cast_tenTo (n : Nat) : ((tenTo n : Nat) : ℚ) = 10 ^ n := by
  exact_mod_cast congrArg (Nat.cast (R := ℚ)) (show tenTo n = 10 ^ n from rfl)

theorem ten_ne_zero : (10 : ℚ) ≠ 0 := by norm_num

/-- A number of least units, before it is known to be whole: the digits that are left when zeros were taken off the
    coefficient, and the places that are left. -/
theorem mul_zpow_eq (c : Nat) (s : Int) :
    (c : ℚ) * 10 ^ s * 10 ^ (trimPlaces c (-s).toNat).2 = ((trimPlaces c (-s).toNat).1 * tenTo s.toNat : Nat) := by
  obtain ⟨hle, hvalue⟩ := trimPlaces_sound c (-s).toNat
  generalize trimPlaces c (-s).toNat = trimmed at hle hvalue ⊢
  obtain ⟨digits, places⟩ := trimmed
  simp only at hle hvalue ⊢
  have hsum : (((-s).toNat - places : Nat) : Int) + s + places = s.toNat := by omega
  rw [← hvalue]
  push_cast
  rw [cast_tenTo, cast_tenTo, ← zpow_natCast, ← zpow_natCast, ← zpow_natCast, ← hsum,
    zpow_add₀ ten_ne_zero, zpow_add₀ ten_ne_zero]
  ring

/-- A number whose first digit stands that high is larger than the largest value. -/
theorem lt_of_le_adjusted {c n : Nat} {s : Int} (hc : 0 < c) (hn : (c : ℚ) * 10 ^ s = n)
    (h : (maxValueDigits : Int) ≤ adjusted c s) : maxUint256 < n := by
  have hcount : 0 < digitCount c := List.length_pos_of_ne_nil (natText_ne_nil c)
  have hdigits : (10 : ℚ) ^ (digitCount c - 1) ≤ c := by
    rw [← cast_tenTo]
    exact_mod_cast tenTo_le_of_lt_digitCount hc (Nat.sub_one_lt (Nat.ne_of_gt hcount))
  have hplaces : (maxValueDigits : Int) ≤ (digitCount c - 1 : Nat) + s := by
    unfold adjusted at h
    omega
  have hlarge : (10 : ℚ) ^ maxValueDigits ≤ n := calc
    (10 : ℚ) ^ maxValueDigits = 10 ^ (maxValueDigits : Int) := (zpow_natCast _ _).symm
    _ ≤ 10 ^ (((digitCount c - 1 : Nat) : Int) + s) := zpow_le_zpow_right₀ (by norm_num) hplaces
    _ = 10 ^ (digitCount c - 1) * 10 ^ s := by rw [zpow_add₀ ten_ne_zero, zpow_natCast]
    _ ≤ c * 10 ^ s := mul_le_mul_of_nonneg_right hdigits (by positivity)
    _ = n := hn
  have hle : tenTo maxValueDigits ≤ n := by
    rw [← cast_tenTo] at hlarge
    exact_mod_cast hlarge
  have hlimit : maxUint256 < tenTo maxValueDigits := by decide
  exact Nat.lt_of_lt_of_le hlimit hle

/-- No places are left of a whole number: behind them stands a digit that is not zero. -/
theorem trimPlaces_eq_zero {c n : Nat} {s : Int} (hn : (c : ℚ) * 10 ^ s = n) :
    (trimPlaces c (-s).toNat).2 = 0 := by
  have hvalue := mul_zpow_eq c s
  have hle := (trimPlaces_sound c (-s).toNat).1
  have hlast := @trimPlaces_mod_ten c (-s).toNat
  generalize trimPlaces c (-s).toNat = trimmed at hvalue hle hlast ⊢
  obtain ⟨digits, places⟩ := trimmed
  dsimp only at hvalue hle hlast ⊢
  by_contra hplaces
  have hpos : 0 < places := Nat.pos_of_ne_zero hplaces
  -- the shift is to the right, so the digits are a multiple of ten
  have hshift : s.toNat = 0 := by omega
  rw [hn, hshift, ← cast_tenTo] at hvalue
  have hdigits : n * tenTo places = digits * tenTo 0 := by exact_mod_cast hvalue
  obtain ⟨k, rfl⟩ := Nat.exists_eq_add_one_of_ne_zero hplaces
  rw [tenTo_succ, ← Nat.mul_assoc] at hdigits
  refine hlast hpos ?_
  rw [← Nat.mul_one digits, show 1 = tenTo 0 from rfl, ← hdigits]
  exact Nat.mul_mod_left _ 10

/-- **A positive decimal has exactly the units that it stands for**, if these are whole and in range. -/
theorem unitsOf_eq_ok_iff {amount : String} {c d n : Nat} {e : Int} (hc : 0 < c) :
    unitsOf amount c e d = .ok n ↔ (c : ℚ) * 10 ^ e * 10 ^ d = n ∧ n ≤ maxUint256 := by
  have hshift : (c : ℚ) * 10 ^ e * 10 ^ d = c * 10 ^ (e + d) := by
    rw [mul_assoc, zpow_add₀ ten_ne_zero, zpow_natCast]
  have hadjusted : adjusted c e + d = adjusted c (e + d) := by
    unfold adjusted
    omega
  unfold unitsOf
  rw [hshift, hadjusted]
  generalize e + d = s
  dsimp only
  by_cases hlarge : (maxValueDigits : Int) ≤ adjusted c s
  · rw [if_pos hlarge]
    refine ⟨fun h => absurd h (by simp), fun ⟨hn, hmax⟩ => ?_⟩
    exact absurd (lt_of_le_adjusted hc hn hlarge) (Nat.not_lt.mpr hmax)
  · rw [if_neg hlarge]
    by_cases hplaces : 0 < (trimPlaces c (-s).toNat).2
    · rw [if_pos hplaces]
      refine ⟨fun h => absurd h (by simp), fun ⟨hn, _⟩ => ?_⟩
      exact absurd (trimPlaces_eq_zero hn) (Nat.ne_of_gt hplaces)
    · have hvalue := mul_zpow_eq c s
      rw [Nat.eq_zero_of_not_pos hplaces, pow_zero, mul_one] at hvalue
      rw [if_neg hplaces, hvalue, Nat.cast_inj]
      generalize (trimPlaces c (-s).toNat).1 * tenTo s.toNat = units
      by_cases hmax : maxUint256 < units
      · rw [if_pos hmax]
        refine ⟨fun h => absurd h (by simp), fun ⟨hn, hle⟩ => ?_⟩
        exact absurd (hn ▸ hle) (Nat.not_le.mpr hmax)
      · rw [if_neg hmax, Except.ok.injEq]
        exact ⟨fun h => ⟨h, h ▸ Nat.not_lt.mp hmax⟩, And.left⟩

/-! ## Reading -/

/-- The text writes the number: it is a numeral, apart from blanks around it, underscores in it and the
    script of its digits, and its power of ten is within the bounds of decimals. -/
def Denotes (amount : String) (x : ℚ) : Prop :=
  ∃ negative coefficient exponent,
    IsNumeral (asciiForm (strip amount.toList)) negative coefficient exponent ∧
      IsInRange coefficient exponent ∧ value negative coefficient exponent = x

/-- A text denotes a number exactly if it is read as a finite decimal of that value. -/
theorem denotes_iff {amount : String} {x : ℚ} :
    Denotes amount x ↔ ∃ negative coefficient exponent,
      read? (strip amount.toList) = some (.finite negative coefficient exponent) ∧
        value negative coefficient exponent = x := by
  have hstrip := strip_strip amount.toList
  constructor
  · rintro ⟨negative, coefficient, exponent, hnumeral, hrange, hx⟩
    rw [← hstrip] at hnumeral
    exact ⟨negative, coefficient, exponent, (read?_of_isNumeral hnumeral).trans (if_pos hrange), hx⟩
  · rintro ⟨negative, coefficient, exponent, hread, hx⟩
    obtain ⟨hnumeral, hrange⟩ := isNumeral_of_read? hread
    rw [hstrip] at hnumeral
    exact ⟨negative, coefficient, exponent, hnumeral, hrange, hx⟩

/-- A text denotes at most one number. -/
theorem Denotes.unique {amount : String} {x y : ℚ} (hx : Denotes amount x) (hy : Denotes amount y) :
    x = y := by
  obtain ⟨_, _, _, hread, rfl⟩ := denotes_iff.mp hx
  obtain ⟨_, _, _, hread', rfl⟩ := denotes_iff.mp hy
  cases hread.symm.trans hread'
  rfl

/-- A decimal is not below zero if it is zero or has no minus sign. -/
theorem value_nonneg_iff {negative : Bool} {coefficient : Nat} {exponent : Int}
    (hpos : 0 < coefficient) : 0 ≤ value negative coefficient exponent ↔ negative = false := by
  have hsize : (0 : ℚ) < coefficient * 10 ^ exponent :=
    mul_pos (Nat.cast_pos.mpr hpos) (zpow_pos (by norm_num) exponent)
  unfold value
  rw [mul_assoc]
  cases negative with
  | false => simpa using hsize.le
  | true => simpa using hsize

/-- What is read as a finite number is not below zero, whole and in range where it has units. -/
theorem parseUnits_eq_ok_iff_of_read? {amount : String} {d n : Nat} {negative : Bool}
    {coefficient : Nat} {exponent : Int}
    (h : read? (strip amount.toList) = some (.finite negative coefficient exponent)) :
    parseUnits (.text amount) d = .ok n ↔ 0 ≤ value negative coefficient exponent ∧
      value negative coefficient exponent * 10 ^ d = n ∧ n ≤ maxUint256 := by
  unfold parseUnits
  simp only [h]
  by_cases hzero : coefficient = 0
  · have hvalue : value negative coefficient exponent = 0 := by
      rw [value, hzero, Nat.cast_zero, mul_zero, zero_mul]
    rw [if_pos hzero, hvalue, zero_mul, Except.ok.injEq]
    constructor
    · rintro rfl
      exact ⟨le_refl 0, Nat.cast_zero.symm, Nat.zero_le _⟩
    · rintro ⟨-, hn, -⟩
      exact_mod_cast hn
  · have hpos : 0 < coefficient := Nat.pos_of_ne_zero hzero
    rw [if_neg hzero, value_nonneg_iff hpos]
    cases negative with
    | true => simp
    | false =>
      have hvalue : value false coefficient exponent = coefficient * 10 ^ exponent := by simp [value]
      rw [if_neg Bool.false_ne_true, unitsOf_eq_ok_iff hpos, hvalue]
      exact ⟨fun hn => ⟨rfl, hn⟩, And.right⟩

/-- Only finite numbers have units. -/
theorem exists_read?_of_parseUnits {amount : String} {d : Int} {n : Nat}
    (h : parseUnits (.text amount) d = .ok n) : ∃ negative coefficient exponent,
      read? (strip amount.toList) = some (.finite negative coefficient exponent) := by
  unfold parseUnits at h
  dsimp only at h
  split at h
  · exact absurd h (by simp)
  · next negative coefficient exponent hread => exact ⟨negative, coefficient, exponent, hread⟩
  · exact absurd h (by simp)

/-- **An amount is read as the units that its number stands for**, if they are a whole number in range,
    and is not read otherwise. -/
theorem parseUnits_eq_ok_iff {amount : String} {d n : Nat} :
    parseUnits (.text amount) d = .ok n ↔
      ∃ x, Denotes amount x ∧ 0 ≤ x ∧ x * 10 ^ d = n ∧ n ≤ maxUint256 := by
  constructor
  · intro h
    obtain ⟨negative, coefficient, exponent, hread⟩ := exists_read?_of_parseUnits h
    exact ⟨_, denotes_iff.mpr ⟨_, _, _, hread, rfl⟩, (parseUnits_eq_ok_iff_of_read? hread).mp h⟩
  · rintro ⟨x, hx, hunits⟩
    obtain ⟨negative, coefficient, exponent, hread, rfl⟩ := denotes_iff.mp hx
    exact (parseUnits_eq_ok_iff_of_read? hread).mpr hunits

/-- Whatever is not read as units is refused as an amount. -/
theorem within_parseUnits (amount : Value) (d : Int) :
    Within (fun f => ∃ cause, f = .amount cause) (parseUnits amount d) := by
  have hunits : ∀ s c e, Within (fun f => ∃ cause, f = .amount cause) (unitsOf s c e d) := by
    intro s c e
    unfold unitsOf
    refine within_ite (fun _ => within_error.mpr ⟨_, rfl⟩) fun _ => ?_
    refine within_ite (fun _ => within_error.mpr ⟨_, rfl⟩) fun _ => ?_
    exact within_ite (fun _ => within_error.mpr ⟨_, rfl⟩) fun _ => within_ok _ _
  unfold parseUnits
  split
  · split
    · exact within_error.mpr ⟨_, rfl⟩
    · exact within_ite (fun _ => within_ok _ _) fun _ =>
        within_ite (fun _ => within_error.mpr ⟨_, rfl⟩) fun _ => hunits _ _ _
    · exact within_error.mpr ⟨_, rfl⟩
  · exact within_error.mpr ⟨_, rfl⟩

/-- Units that are read are in range. -/
theorem parseUnits_le {amount : Value} {d : Int} {n : Nat} (h : parseUnits amount d = .ok n) :
    n ≤ maxUint256 := by
  unfold parseUnits at h
  split at h
  · split at h
    · exact absurd h (by simp)
    · split at h
      · cases h; exact Nat.zero_le _
      · split at h
        · exact absurd h (by simp)
        · unfold unitsOf at h
          split at h
          · exact absurd h (by simp)
          · simp only at h
            split at h
            · exact absurd h (by simp)
            · split at h
              · exact absurd h (by simp)
              · next hle => cases h; exact Nat.le_of_not_lt hle
    · exact absurd h (by simp)
  · exact absurd h (by simp)

/-! ## Plain notation -/

/-- Digits without a leading zero, or a single zero. -/
def IsWhole (cs : List Char) : Prop := IsDigits cs ∧ (cs.head? = some '0' → cs = ['0'])

/-- Plain notation: a whole part, and behind a point the digits of a fraction, the last of which is not
    zero. There is no point without a fraction. -/
inductive IsPlainText : List Char → List Char → List Char → Prop where
  | whole {whole : List Char} : IsWhole whole → IsPlainText whole whole []
  | pointed {whole fraction : List Char} :
    IsWhole whole → IsDigits fraction → fraction.getLast? ≠ some '0' →
    IsPlainText (whole ++ '.' :: fraction) whole fraction

theorem isWhole_natText (n : Nat) : IsWhole (natText n) := by
  refine ⟨⟨natText_ne_nil n, fun c hc => isAsciiDigit_of_mem_natText hc⟩, fun hhead => ?_⟩
  rcases Nat.eq_zero_or_pos n with rfl | hpos
  · rfl
  · exact absurd hhead (head?_natText_ne_zero hpos)

theorem IsPlainText.isMantissa {cs whole fraction : List Char} (h : IsPlainText cs whole fraction) :
    IsMantissa cs whole fraction := by
  cases h with
  | whole hwhole => exact .plain hwhole.1
  | pointed hwhole hfraction =>
    refine .pointed ⟨List.append_ne_nil_of_left_ne_nil hwhole.1.1 fraction, fun c hc => ?_⟩
    exact (List.mem_append.mp hc).elim (hwhole.1.2 c) (hfraction.2 c)

/-- A digit or the point. -/
def IsPlain (c : Char) : Prop := isAsciiDigit c = true ∨ c = '.'

theorem toNat_lt_of_isPlain {c : Char} (h : IsPlain c) : c.toNat < 128 := by
  rcases h with h | rfl
  · exact toNat_lt_of_isAsciiDigit h
  · decide

/-- A digit or a point is kept as it is before reading. -/
theorem isPlain_facts {c : Char} (h : IsPlain c) :
    isBlank c = false ∧ c ≠ '_' ∧
      (match digit? c with
        | some d => Char.ofNat (48 + d)
        | none => c) = c := by
  have hcheck : ∀ n < 128, (isAsciiDigit (Char.ofNat n) = true ∨ Char.ofNat n = '.') →
      isBlank (Char.ofNat n) = false ∧ Char.ofNat n ≠ '_' ∧
        (match digit? (Char.ofNat n) with
          | some d => Char.ofNat (48 + d)
          | none => Char.ofNat n) = Char.ofNat n := by decide
  have hfact := hcheck c.toNat (toNat_lt_of_isPlain h)
  rw [Char.ofNat_toNat] at hfact
  exact hfact h

/-- Plain notation is not rewritten before reading. -/
theorem IsPlainText.asciiForm_strip_eq_self {cs whole fraction : List Char}
    (h : IsPlainText cs whole fraction) : asciiForm (strip cs) = cs := by
  have hfacts := fun c hc => isPlain_facts (h.isMantissa.isAsciiDigit_or_point (c := c) hc)
  have hsolid : IsSolid cs := fun c hc => (hfacts c hc).1
  rw [hsolid.strip_eq_self]
  unfold asciiForm
  rw [List.filter_eq_self.mpr fun c hc => by simpa using (hfacts c hc).2.1]
  exact (List.map_congr_left fun c hc => (hfacts c hc).2.2).trans (List.map_id _)

theorem IsPlainText.isNumeral {cs whole fraction : List Char} (h : IsPlainText cs whole fraction) :
    IsNumeral (asciiForm (strip cs)) false (asciiNumber (whole ++ fraction)) (-fraction.length) := by
  rw [h.asciiForm_strip_eq_self]
  have hmagnitude := IsMagnitude.mk h.isMantissa .absent
  rw [List.append_nil, Int.zero_sub] at hmagnitude
  exact .mk .absent hmagnitude

/-! ## Closing zeros -/

/-- The closing zeros of a fraction. -/
theorem exists_dropZeros (cs : List Char) : ∃ k, dropZeros cs ++ List.replicate k '0' = cs := by
  have hsplit : cs.reverse.takeWhile (· == '0') ++ cs.reverse.dropWhile (· == '0') = cs.reverse :=
    List.takeWhile_append_dropWhile
  have hzeros : cs.reverse.takeWhile (· == '0') =
      List.replicate (cs.reverse.takeWhile (· == '0')).length '0' :=
    List.eq_replicate_of_mem fun c hc => by simpa using List.mem_takeWhile_imp hc
  refine ⟨(cs.reverse.takeWhile (· == '0')).length, ?_⟩
  unfold dropZeros
  calc (cs.reverse.dropWhile (· == '0')).reverse ++
        List.replicate (cs.reverse.takeWhile (· == '0')).length '0'
      = (cs.reverse.dropWhile (· == '0')).reverse ++ (cs.reverse.takeWhile (· == '0')).reverse := by
        conv_rhs => rw [hzeros, List.reverse_replicate]
    _ = cs := by rw [← List.reverse_append, hsplit, List.reverse_reverse]

/-- No zero closes what is left. -/
theorem getLast?_dropZeros (cs : List Char) : (dropZeros cs).getLast? ≠ some '0' := by
  have hhead := List.head?_dropWhile_not (· == '0') cs.reverse
  unfold dropZeros
  rw [List.getLast?_reverse]
  intro hzero
  rw [hzero] at hhead
  exact absurd hhead (by decide)

theorem asciiNumber_zeros (k : Nat) : asciiNumber (List.replicate k '0') = 0 := by
  induction k with
  | zero => rfl
  | succ k ih =>
    have hcons : List.replicate (k + 1) '0' = ['0'] ++ List.replicate k '0' := rfl
    rw [hcons, asciiNumber_append, ih]
    show _ * asciiNumber ['0'] + 0 = 0
    rw [show asciiNumber ['0'] = 0 from rfl, Nat.mul_zero]

/-- A fraction is written with as many digits as there are places, less the closing zeros. -/
theorem exists_fraction {fraction d : Nat} (hpos : 0 < fraction) (h : fraction < tenTo d) :
    ∃ k, (dropZeros (padLeft d (natText fraction))).length + k = d ∧
      tenTo k * asciiNumber (dropZeros (padLeft d (natText fraction))) = fraction ∧
      IsDigits (dropZeros (padLeft d (natText fraction))) := by
  have hd : 0 < d := by
    rcases Nat.eq_zero_or_pos d with rfl | hd
    · exact absurd h (Nat.not_lt.mpr hpos)
    · exact hd
  have hwidth : (natText fraction).length ≤ d := (length_natText_le_iff hd).mpr h
  have hlength : (padLeft d (natText fraction)).length = d := by
    unfold padLeft
    rw [List.length_append, List.length_replicate]; omega
  have hvalue : asciiNumber (padLeft d (natText fraction)) = fraction := by
    unfold padLeft
    rw [asciiNumber_append, asciiNumber_zeros, asciiNumber_natText, Nat.mul_zero, Nat.zero_add]
  have hdigits : ∀ c ∈ padLeft d (natText fraction), isAsciiDigit c = true := by
    intro c hc
    rcases List.mem_append.mp hc with hc | hc
    · rw [List.eq_of_mem_replicate hc]; decide
    · exact isAsciiDigit_of_mem_natText hc
  -- `k` zeros are dropped, which divides the value by `tenTo k`
  obtain ⟨k, hk⟩ := exists_dropZeros (padLeft d (natText fraction))
  have hkept : tenTo k * asciiNumber (dropZeros (padLeft d (natText fraction))) = fraction := by
    rw [← hk, asciiNumber_append, asciiNumber_zeros, List.length_replicate, Nat.add_zero] at hvalue
    exact hvalue
  refine ⟨k, ?_, hkept, ?_, fun c hc => hdigits c ?_⟩
  · have hsum := congrArg List.length hk
    rw [List.length_append, List.length_replicate, hlength] at hsum
    exact hsum
  · intro hnil
    rw [hnil, show asciiNumber [] = 0 from rfl, Nat.mul_zero] at hkept
    omega
  · rw [← hk]
    exact List.mem_append_left _ hc

/-! ## Writing -/

/-- A coefficient with its missing places has no more digits than the largest value. -/
theorem digitCount_add_le {coefficient k : Nat} (hc : 0 < coefficient)
    (hmax : tenTo k * coefficient ≤ maxUint256) : digitCount coefficient + k ≤ maxValueDigits := by
  -- the largest value has 78 digits, so `k` of them leave `78 - k` to the coefficient
  have hlimit : maxUint256 < tenTo 78 := by decide
  have hk : k < 78 := by
    by_contra hk
    have hle : tenTo 78 ≤ tenTo k := Nat.pow_le_pow_right (by decide) (by omega)
    have hge : tenTo k ≤ tenTo k * coefficient := Nat.le_mul_of_pos_right _ hc
    omega
  have hsplit : tenTo 78 = tenTo k * tenTo (78 - k) := by
    rw [← tenTo_add, show k + (78 - k) = 78 by omega]
  have hlt : coefficient < tenTo (78 - k) := by
    have hprod : tenTo k * coefficient < tenTo k * tenTo (78 - k) :=
      hsplit ▸ Nat.lt_of_le_of_lt hmax hlimit
    exact Nat.lt_of_mul_lt_mul_left hprod
  have hdigits : (natText coefficient).length ≤ 78 - k :=
    (length_natText_le_iff (by omega)).mpr hlt
  show (natText coefficient).length + k ≤ 78
  omega

/-- The written form of an amount is plain notation with at most as many places as one unit has, and
    with the missing places its digits are those of the units. -/
theorem exists_formatNat (n d : Nat) :
    ∃ (whole fraction : List Char) (k : Nat), IsPlainText (formatNat n d) whole fraction ∧
      fraction.length + k = d ∧ tenTo k * asciiNumber (whole ++ fraction) = n := by
  have hsum := Nat.div_add_mod n (tenTo d)
  unfold formatNat
  dsimp only
  by_cases hzero : n % tenTo d = 0
  · -- a whole number of units is written without a point
    refine ⟨natText (n / tenTo d), [], d, ?_, Nat.zero_add d, ?_⟩
    · rw [if_pos hzero]
      exact .whole (isWhole_natText _)
    · rw [List.append_nil, asciiNumber_natText]
      omega
  · obtain ⟨k, hlength, hvalue, hdigits⟩ :=
      exists_fraction (Nat.pos_of_ne_zero hzero) (Nat.mod_lt n (tenTo_pos d))
    refine ⟨natText (n / tenTo d), dropZeros (padLeft d (natText (n % tenTo d))), k, ?_, hlength, ?_⟩
    · rw [if_neg hzero]
      exact .pointed (isWhole_natText _) hdigits (getLast?_dropZeros _)
    · rw [asciiNumber_append, asciiNumber_natText, Nat.mul_add, hvalue, ← Nat.mul_assoc, ← tenTo_add,
        Nat.add_comm k, hlength]
      exact hsum

/-! ## Reading what was written -/

/-- Digits with some places are the number of units that they make with the missing places. -/
theorem value_mul_tenTo (digits places k : Nat) :
    value false digits (-places) * 10 ^ (places + k) = (tenTo k * digits : Nat) := by
  have hcancel : (10 : ℚ) ^ (-(places : Int)) * 10 ^ places = 1 := by
    rw [zpow_neg, zpow_natCast, inv_mul_cancel₀ (pow_ne_zero _ ten_ne_zero)]
  push_cast
  rw [value, if_neg Bool.false_ne_true, cast_tenTo, pow_add]
  calc (1 : ℚ) * digits * 10 ^ (-(places : Int)) * (10 ^ places * 10 ^ k)
      = digits * 10 ^ k * (10 ^ (-(places : Int)) * 10 ^ places) := by ring
    _ = 10 ^ k * digits := by rw [hcancel]; ring

/-- The digits of a number in range are few, so only their places can be too many. -/
theorem isInRange_iff {digits places k : Nat} (hmax : tenTo k * digits ≤ maxUint256) :
    IsInRange digits (-places) ↔ (places : Int) ≤ -minExponent := by
  have hcount : digitCount digits ≤ maxValueDigits := by
    rcases Nat.eq_zero_or_pos digits with rfl | hpos
    · decide
    · exact Nat.le_trans (Nat.le_add_right _ k) (digitCount_add_le hpos hmax)
  have hlimit : maxValueDigits = 78 := rfl
  unfold IsInRange adjusted maxAdjusted
  omega

/-- Plain notation is read as its digits, unless its places are out of bounds. -/
theorem IsPlainText.read? {cs whole fraction : List Char} (h : IsPlainText cs whole fraction) :
    read? (strip cs) =
      if IsInRange (asciiNumber (whole ++ fraction)) (-fraction.length) then
        some (.finite false (asciiNumber (whole ++ fraction)) (-fraction.length))
      else none := by
  apply read?_of_isNumeral
  rw [strip_strip]
  exact h.isNumeral

/-- **The written form of units is read as these units.** It is refused only if it has more places than a
    decimal may have. -/
theorem parseUnits_of_isPlainText {cs whole fraction : List Char} {n k : Nat}
    (h : IsPlainText cs whole fraction) (hn : tenTo k * asciiNumber (whole ++ fraction) = n)
    (hmax : n ≤ maxUint256) :
    parseUnits (.text (String.ofList cs)) (fraction.length + k : Nat) =
      if (fraction.length : Int) ≤ -minExponent then .ok n
      else .error (.amount (.notDecimal (String.ofList cs))) := by
  have hread := h.read?
  rw [← String.toList_ofList (l := cs)] at hread
  simp only [isInRange_iff (hn ▸ hmax)] at hread
  by_cases hplaces : (fraction.length : Int) ≤ -minExponent
  · rw [if_pos hplaces] at hread ⊢
    apply (parseUnits_eq_ok_iff_of_read? hread).mpr
    refine ⟨?_, ?_, hmax⟩
    · rw [value, if_neg Bool.false_ne_true]
      positivity
    · rw [value_mul_tenTo, hn]
  · rw [if_neg hplaces] at hread ⊢
    unfold parseUnits
    simp only [hread]

/-- Written units are read as no other units, however many they are. -/
theorem eq_of_parseUnits_isPlainText {cs whole fraction : List Char} {n m k : Nat}
    (h : IsPlainText cs whole fraction) (hn : tenTo k * asciiNumber (whole ++ fraction) = n)
    (hm : parseUnits (.text (String.ofList cs)) (fraction.length + k : Nat) = .ok m) : m = n := by
  have hread := h.read?
  rw [← String.toList_ofList (l := cs)] at hread
  obtain ⟨negative, coefficient, exponent, hfinite⟩ := exists_read?_of_parseUnits hm
  have hsame := hread.symm.trans hfinite
  split at hsame
  · cases hsame
    have hvalue := ((parseUnits_eq_ok_iff_of_read? hfinite).mp hm).2.1
    rw [value_mul_tenTo, hn] at hvalue
    exact_mod_cast hvalue.symm
  · exact absurd hsame (by simp)

/-- A natural number of units is written, and read as itself if it is in range. -/
theorem exists_formatUnits {v : Value} (hv : v.IsNatural) {d : Nat} (hd : (d : Int) ≤ -minExponent) :
    ∃ (s : String) (n : Nat), formatUnits v d = .ok s ∧ v = .int n ∧
      (∀ units, parseUnits (.text s) d = .ok units → units = n) ∧
      (n ≤ maxUint256 → parseUnits (.text s) d = .ok n) := by
  obtain ⟨n, rfl⟩ := hv
  obtain ⟨whole, fraction, k, hplain, rfl, hn⟩ := exists_formatNat n d
  refine ⟨_, n, rfl, rfl, fun units hunits => eq_of_parseUnits_isPlainText hplain hn hunits, ?_⟩
  intro hmax
  have hplaces : (fraction.length : Int) ≤ -minExponent := by omega
  exact (parseUnits_of_isPlainText hplain hn hmax).trans (if_pos hplaces)

/-- The last digit of a fraction is not zero, so its digits are no multiple of ten. -/
theorem IsPlainText.mod_ten {cs whole fraction : List Char} (h : IsPlainText cs whole fraction)
    (hfraction : fraction ≠ []) : asciiNumber (whole ++ fraction) % 10 ≠ 0 := by
  cases h with
  | whole hwhole => exact absurd rfl hfraction
  | pointed hwhole hdigits hlast =>
    obtain ⟨front, c, rfl⟩ := (List.eq_nil_or_concat' fraction).resolve_left hfraction
    have hc : isAsciiDigit c = true := hdigits.2 c (by simp)
    obtain ⟨hlt, hchar⟩ := digitChar_of_isAsciiDigit hc
    have hne : asciiNumber [c] ≠ 0 := by
      intro hzero
      rw [hzero] at hchar
      exact hlast (by rw [List.getLast?_concat, ← hchar]; rfl)
    have hvalue := asciiNumber_append (whole ++ front) [c]
    rw [List.append_assoc] at hvalue
    rw [hvalue, show tenTo [c].length = 10 from rfl]
    omega

/-- Plain notation has no more places than any other numeral for its number. -/
theorem IsPlainText.length_le {cs whole fraction : List Char} (h : IsPlainText cs whole fraction)
    {negative : Bool} {coefficient : Nat} {exponent : Int} (hrange : minExponent ≤ exponent)
    (hvalue : value false (asciiNumber (whole ++ fraction)) (-fraction.length) =
      value negative coefficient exponent) : (fraction.length : Int) ≤ -minExponent := by
  by_contra hlong
  have hmin : minExponent < 0 := by decide
  have hne : fraction ≠ [] := by
    rintro rfl
    exact hlong (by decide)
  -- the other numeral needs fewer places, so the digits are its coefficient with a zero behind it
  obtain ⟨k, hk⟩ : ∃ k : Nat, exponent + fraction.length = (k + 1 : Nat) :=
    ⟨(exponent + fraction.length - 1).toNat, by omega⟩
  have hscaled := congrArg (· * (10 : ℚ) ^ fraction.length) hvalue
  have hdigits := value_mul_tenTo (asciiNumber (whole ++ fraction)) fraction.length 0
  rw [Nat.add_zero, show tenTo 0 = 1 from rfl, Nat.one_mul] at hdigits
  have hother : value negative coefficient exponent * 10 ^ fraction.length =
      ((signed negative coefficient * 10 ^ (k + 1) : Int) : ℚ) := by
    rw [value, mul_assoc, ← zpow_natCast (10 : ℚ) fraction.length, ← zpow_add₀ ten_ne_zero, hk, zpow_natCast]
    cases negative <;> simp [signed]
  have hsame : (asciiNumber (whole ++ fraction) : Int) = signed negative coefficient * 10 ^ (k + 1) := by
    have hcast := hdigits.symm.trans (hscaled.trans hother)
    exact_mod_cast hcast
  refine h.mod_ten hne ?_
  rw [pow_succ, ← mul_assoc] at hsame
  omega

/-- **Reading is exact.** An amount is read as `n` units exactly if it denotes a number that is not
    below zero and makes `n` units, with `n` in range; everything else is refused as an amount. -/
theorem parseUnits_exact (amount : String) (d : Nat) :
    (∀ n, parseUnits (.text amount) d = .ok n ↔
      ∃ x, Denotes amount x ∧ 0 ≤ x ∧ x * 10 ^ d = n ∧ n ≤ maxUint256) ∧
    ∀ f, parseUnits (.text amount) d = .error f → ∃ cause, f = .amount cause :=
  ⟨fun _ => parseUnits_eq_ok_iff, within_parseUnits _ _⟩

/-- Zeros behind the point are no digits too many, however many they are. -/
example : parseUnits (.text "1.5000000") 6 = .ok 1500000 := rfl

/-- **Writing and reading are inverse.** Units in range are written in plain notation, with at most as
    many digits behind the point as a unit has places, and read back; and if an amount is read, what is
    written for its units denotes the number that the amount denotes. Only a text with more places than a
    decimal may have, which no memory holds, would be refused. -/
theorem parseUnits_formatUnits_inverse (d : Nat) :
    (∀ v ≤ maxUint256, ∃ (text : String) (whole fraction : List Char),
      formatUnits (.int v) d = .ok text ∧ IsPlainText text.toList whole fraction ∧
        fraction.length ≤ d ∧
        parseUnits (.text text) d =
          if (fraction.length : Int) ≤ -minExponent then .ok v
          else .error (.amount (.notDecimal text))) ∧
    ∀ amount n, parseUnits (.text amount) d = .ok n →
      ∃ text x, formatUnits (.int n) d = .ok text ∧ Denotes amount x ∧ Denotes text x := by
  constructor
  · intro v hmax
    obtain ⟨whole, fraction, k, hplain, rfl, hv⟩ := exists_formatNat v d
    refine ⟨_, whole, fraction, rfl, ?_, Nat.le_add_right _ k, ?_⟩
    · rw [String.toList_ofList]
      exact hplain
    · exact parseUnits_of_isPlainText hplain hv hmax
  · intro amount n hn
    obtain ⟨x, hx, -, hunits, hmax⟩ := parseUnits_eq_ok_iff.mp hn
    obtain ⟨whole, fraction, k, hplain, rfl, hdigits⟩ := exists_formatNat n d
    refine ⟨_, x, rfl, hx, ?_⟩
    obtain ⟨negative, coefficient, exponent, -, hrange, rfl⟩ := hx
    -- both texts denote the number that makes `n` units
    have hsame : value false (asciiNumber (whole ++ fraction)) (-fraction.length) =
        value negative coefficient exponent := by
      have hwritten := value_mul_tenTo (asciiNumber (whole ++ fraction)) fraction.length k
      rw [hdigits, ← hunits] at hwritten
      exact mul_right_cancel₀ (pow_ne_zero _ ten_ne_zero) hwritten
    refine ⟨_, _, _, ?_, ?_, hsame⟩
    · rw [String.toList_ofList]
      exact hplain.isNumeral
    · exact (isInRange_iff (hdigits ▸ hmax)).mpr (hplain.length_le hrange.2 hsame)

theorem parseUnits_formatUnits_inverse_oneAndHalf :
    (1500000000000000000 ≤ maxUint256 ∧
      formatUnits (.int 1500000000000000000) 18 = .ok "1.5" ∧
      parseUnits (.text "1.5") 18 = .ok 1500000000000000000) ∧
    ∃ x, Denotes " 01_5.0e-1 " x ∧ Denotes "1.5" x := by
  have hmax : 1500000000000000000 ≤ maxUint256 := by decide
  have hformat : formatUnits (.int 1500000000000000000) 18 = .ok "1.5" := rfl
  have hother : parseUnits (.text " 01_5.0e-1 ") 18 = .ok 1500000000000000000 := rfl
  obtain ⟨hwritten, hread⟩ := parseUnits_formatUnits_inverse 18
  refine ⟨⟨hmax, hformat, ?_⟩, ?_⟩
  · obtain ⟨text, whole, fraction, htext, -, hlength, hback⟩ := hwritten _ hmax
    obtain rfl : text = "1.5" := Except.ok.inj (htext.symm.trans hformat)
    rw [if_pos (Int.le_trans (Int.ofNat_le.mpr hlength) (by decide))] at hback
    exact hback
  · obtain ⟨text, x, htext, hx, hsame⟩ := hread _ _ hother
    obtain rfl : text = "1.5" := Except.ok.inj (htext.symm.trans hformat)
    exact ⟨x, hx, hsame⟩

end Proposals.Amount
