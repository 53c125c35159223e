import Mathlib.Data.List.TakeWhile
import Proposals.Proofs.Number.Digits
import Proposals.Validation

/-!
# `Proofs.Number.Size` — the size of integers that are read

Readers refuse texts of too many digits, so what they give is below the least number that has one more
(`natAbs_lt_of_readInteger?`, `natAbs_lt_of_integerOfText`).
-/

namespace Proposals.Number

open Proposals.Text

/-- How many characters of the text are no underscores. -/
abbrev digitCount (cs : List Char) : Nat := (cs.filter (· ≠ '_')).length

theorem ne_underscore_of_digit? {c : Char} {v : Nat} (h : digit? c = some v) : c ≠ '_' := by
  have hmark : digit? '_' = none := by decide
  rintro rfl
  exact absurd (hmark.symm.trans h) nofun

theorem digitCount_cons {c : Char} (h : c ≠ '_') (cs : List Char) :
    digitCount (c :: cs) = digitCount cs + 1 := by
  rw [digitCount, List.filter_cons_of_pos (by simpa using h), List.length_cons]

/-- One more digit multiplies the bound by ten. -/
theorem lt_of_lt_digit {acc v n k : Nat} (hv : v < 10) (h : n < (10 * acc + v + 1) * tenTo k) :
    n < (acc + 1) * tenTo (k + 1) := calc
  n < (10 * acc + v + 1) * tenTo k := h
  _ ≤ (10 * (acc + 1)) * tenTo k := Nat.mul_le_mul_right _ (by omega)
  _ = (acc + 1) * tenTo (k + 1) := by rw [tenTo_succ]; ac_rfl

theorem lt_of_readDigitsFrom? {acc n : Nat} {cs : List Char} (h : readDigitsFrom? acc cs = some n) :
    n < (acc + 1) * tenTo (digitCount cs) := by
  induction acc, cs using readDigitsFrom?.induct with
  | case1 acc =>
    cases h
    exact Nat.lt_of_lt_of_eq (Nat.lt_succ_self _) (Nat.mul_one _).symm
  | case2 acc => exact absurd h (by simp [readDigitsFrom?])
  | case3 acc d rest ih =>
    -- an underscore counts for nothing, and a digit stands behind it
    unfold readDigitsFrom? at h
    rw [if_pos rfl] at h
    obtain ⟨v, hv, h⟩ := Option.bind_eq_some_iff.mp h
    have hcount : digitCount ('_' :: d :: rest) = digitCount rest + 1 := by
      rw [← digitCount_cons (ne_underscore_of_digit? hv) rest, digitCount, List.filter_cons_of_neg (by simp)]
    rw [hcount]
    exact lt_of_lt_digit (digit?_lt hv) (ih v h)
  | case4 acc c rest hc ih =>
    unfold readDigitsFrom? at h
    rw [if_neg hc] at h
    obtain ⟨v, hv, h⟩ := Option.bind_eq_some_iff.mp h
    rw [digitCount_cons hc]
    exact lt_of_lt_digit (digit?_lt hv) (ih v h)

theorem lt_of_readDigits? {cs : List Char} {n : Nat} (h : readDigits? cs = some n) :
    n < tenTo maxDigits := by
  cases cs with
  | nil => exact absurd h nofun
  | cons c cs =>
    have h : (if maxDigits < digitCount (c :: cs) then none else
      (digit? c).bind fun v => readDigitsFrom? v cs) = some n := h
    split at h
    · exact absurd h nofun
    · next hcount =>
      obtain ⟨v, hv, h⟩ := Option.bind_eq_some_iff.mp h
      have hfirst : n < (0 + 1) * tenTo (digitCount cs + 1) :=
        lt_of_lt_digit (digit?_lt hv) (by rw [Nat.mul_zero, Nat.zero_add]; exact lt_of_readDigitsFrom? h)
      rw [← digitCount_cons (ne_underscore_of_digit? hv), Nat.zero_add, Nat.one_mul] at hfirst
      exact Nat.lt_of_lt_of_le hfirst (tenTo_le (Nat.not_lt.mp hcount))

theorem natAbs_lt_of_readInteger? {cs : List Char} {n : Int} (h : readInteger? cs = some n) :
    n.natAbs < tenTo maxDigits := by
  unfold readInteger? at h
  split at h <;>
  · simp only [Option.map_eq_some_iff, Option.bind_eq_bind, Option.bind_eq_some_iff, Option.pure_def,
      Option.some.injEq] at h
    obtain ⟨_, ⟨m, hm, rfl⟩, rfl⟩ := h
    simpa using lt_of_readDigits? hm

end Proposals.Number

namespace Proposals.Validation

open Proposals.Number Proposals.Text

/-- A natural number without leading zeros is a run of digits, which are counted. -/
theorem lt_of_isPlainNatural {cs : List Char} (h : isPlainNatural cs = true) (hlong : isTooLong cs = false) :
    asciiNumber cs < tenTo maxDigits := by
  unfold isPlainNatural at h
  split at h
  · exact tenTo_pos maxDigits
  · next c rest hzero =>
    rw [Bool.and_eq_true, List.all_eq_true] at h
    obtain ⟨hlead, hrest⟩ := h
    have hfirst : isAsciiDigit c = true := by
      simp only [isLeadingDigit, isAsciiDigit, Bool.and_eq_true, decide_eq_true_eq] at hlead ⊢
      exact ⟨Char.le_trans (by decide) hlead.1, hlead.2⟩
    have hdigits : ∀ d ∈ c :: rest, isAsciiDigit d = true := List.forall_mem_cons.mpr ⟨hfirst, hrest⟩
    have hlimit : (c :: rest).length ≤ maxDigits := by
      have htake : (c :: rest).takeWhile isAsciiDigit = c :: rest := List.takeWhile_eq_self_iff.mpr hdigits
      simpa [isTooLong, hlead, htake] using hlong
    exact lt_of_readDigits? (readDigits?_digits (List.cons_ne_nil c rest) hdigits hlimit)
  · cases h

theorem natAbs_lt_of_plainInteger {cs : List Char} {n : Int} (h : plainInteger cs = .ok n) :
    n.natAbs < tenTo maxDigits := by
  unfold plainInteger at h
  split at h
  next negative digits hsplit =>
  split at h
  · exact absurd h nofun
  · next hlong =>
    split at h
    · exact absurd h nofun
    · next hplain =>
      rw [Bool.not_eq_true] at hlong
      have hlt := lt_of_isPlainNatural (by simpa using hplain) hlong
      cases h
      split <;> simpa using hlt

theorem natAbs_lt_of_integerOfText {cs : List Char} {n : Int} (h : integerOfText cs = .ok n) :
    n.natAbs < tenTo maxDigits := by
  unfold integerOfText at h
  split at h
  · next hplain =>
    cases h
    exact natAbs_lt_of_plainInteger hplain
  · exact absurd h nofun
  · split at h
    · exact absurd h nofun
    · split at h
      · next hplain =>
        cases h
        exact natAbs_lt_of_plainInteger hplain
      · exact absurd h nofun

end Proposals.Validation
