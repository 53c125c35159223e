import Proposals.Number.Integer
import Proposals.Number.Power
import Proposals.Proofs.Text.Hex
import Mathlib.Data.List.Basic
import Mathlib.Data.List.Induction

/-!
# `Proofs.Number.Digits` — decimal digits of natural numbers

Amounts, type sizes and array lengths are written with `natText` and read with `asciiNumber`. The two
are inverse: `asciiNumber_natText` on every number, `natText_asciiNumber` on every digit text that does
not begin with a zero, which is the form that the type reader accepts.
-/

namespace Proposals.Number

open Proposals.Text

/-- A run of characters of a class ends where the first other character stands. -/
theorem takeWhile_dropWhile_append {p : Char → Bool} {run rest : List Char}
    (hrun : ∀ c ∈ run, p c = true) (hrest : ∀ c, rest.head? = some c → p c = false) :
    (run ++ rest).takeWhile p = run ∧ (run ++ rest).dropWhile p = rest := by
  rw [List.takeWhile_append_of_pos hrun, List.dropWhile_append_of_pos hrun]
  cases rest with
  | nil => exact ⟨List.append_nil run, rfl⟩
  | cons c rest =>
    have hc := hrest c rfl
    rw [List.takeWhile_cons, List.dropWhile_cons, hc]
    exact ⟨List.append_nil run, rfl⟩

theorem isAsciiDigit_eq_isDigit (c : Char) : isAsciiDigit c = c.isDigit := rfl

theorem isAsciiDigit_of_mem_natText {n : Nat} {c : Char} (h : c ∈ natText n) :
    isAsciiDigit c = true := by
  rw [isAsciiDigit_eq_isDigit]
  exact Nat.isDigit_of_mem_toDigits (by decide) (by decide) h

theorem toNat_lt_of_isAsciiDigit {c : Char} (h : isAsciiDigit c = true) : c.toNat < 128 := by
  have hc : '0' ≤ c ∧ c ≤ '9' := by simpa [isAsciiDigit] using h
  exact Nat.lt_of_le_of_lt hc.2 (by decide)

theorem isAlpha_of_isAsciiDigit {c : Char} (h : isAsciiDigit c = true) : c.isAlpha = false :=
  of_toNat_lt_128 (p := fun c => isAsciiDigit c = true → c.isAlpha = false) (by decide)
    (toNat_lt_of_isAsciiDigit h) h

theorem twoTo_le {a b : Nat} (h : a ≤ b) : twoTo a ≤ twoTo b := Nat.pow_le_pow_right (by decide) h

theorem tenTo_le {a b : Nat} (h : a ≤ b) : tenTo a ≤ tenTo b := Nat.pow_le_pow_right (by decide) h

theorem tenTo_add (a b : Nat) : tenTo (a + b) = tenTo a * tenTo b := Nat.pow_add 10 a b

theorem natText_ne_nil (n : Nat) : natText n ≠ [] := Nat.toDigits_ne_nil

theorem length_natText_le_iff {n k : Nat} (hk : 0 < k) : (natText n).length ≤ k ↔ n < tenTo k :=
  Nat.length_toDigits_le_iff (by decide) hk

/-- **Reading undoes writing.** -/
theorem asciiNumber_natText (n : Nat) : asciiNumber (natText n) = n := Nat.ofDigitChars_ten_toDigits

/-- A positive number does not begin with a zero. -/
theorem head?_natText_ne_zero {n : Nat} (hn : 0 < n) : (natText n).head? ≠ some '0' := by
  induction n using Nat.strongRecOn with
  | _ n ih =>
    show (Nat.toDigits 10 n).head? ≠ some '0'
    rw [Nat.toDigits_eq_if (by decide)]
    split
    · next hlt =>
      have check : ∀ n < 10, 0 < n → n.digitChar ≠ '0' := by decide
      simpa using check n hlt hn
    · next hge =>
      rw [List.head?_append_of_ne_nil (Nat.toDigits 10 (n / 10)) Nat.toDigits_ne_nil]
      exact ih (n / 10) (by omega) (by omega)

theorem asciiNumber_append (l m : List Char) :
    asciiNumber (l ++ m) = tenTo m.length * asciiNumber l + asciiNumber m := by
  show Nat.ofDigitChars 10 (l ++ m) 0 = _
  rw [Nat.ofDigitChars_append, Nat.ofDigitChars_eq_ofDigitChars_zero]
  rfl

/-- The value of one digit, and the digit of that value. -/
theorem digitChar_of_isAsciiDigit {c : Char} (h : isAsciiDigit c = true) :
    asciiNumber [c] < 10 ∧ (asciiNumber [c]).digitChar = c := by
  have hc : '0' ≤ c ∧ c ≤ '9' := by simpa [isAsciiDigit] using h
  have hlow : 48 ≤ c.toNat := hc.1
  have hhigh : c.toNat ≤ 57 := hc.2
  have hvalue : asciiNumber [c] = c.toNat - 48 := by
    show 10 * 0 + (c.toNat - '0'.toNat) = _
    rw [Nat.mul_zero, Nat.zero_add]; rfl
  have check : ∀ n < 10, n.digitChar = Char.ofNat (48 + n) := by decide
  refine ⟨by omega, ?_⟩
  rw [hvalue, check _ (by omega), show 48 + (c.toNat - 48) = c.toNat by omega, Char.ofNat_toNat]

/-- **Writing undoes reading** of digits without a leading zero. -/
theorem natText_asciiNumber {digits : List Char} (hne : digits ≠ [])
    (hdigits : ∀ c ∈ digits, isAsciiDigit c = true) (hzero : digits.head? ≠ some '0') :
    natText (asciiNumber digits) = digits := by
  induction digits using List.reverseRecOn with
  | nil => exact absurd rfl hne
  | append_singleton ds c ih =>
    obtain ⟨hlt, hchar⟩ := digitChar_of_isAsciiDigit (hdigits c (by simp))
    have hone : natText (asciiNumber [c]) = [c] := by
      show Nat.toDigits 10 _ = [c]
      rw [Nat.toDigits_of_lt_base hlt, hchar]
    rcases ds.eq_nil_or_concat with hds | ⟨_, _, hds⟩
    · rw [hds, List.nil_append]; exact hone
    · have hne' : ds ≠ [] := by rw [hds]; simp
      have hhead : (ds ++ [c]).head? = ds.head? := List.head?_append_of_ne_nil ds hne'
      have hfront := ih hne' (fun d hd => hdigits d (by simp [hd])) (by rw [← hhead]; exact hzero)
      -- A zero in front would be the only digit, and leading zeros are excluded.
      have hpos : 0 < asciiNumber ds := by
        rcases Nat.eq_zero_or_pos (asciiNumber ds) with h0 | hp
        · rw [h0] at hfront
          have : ds = ['0'] := hfront.symm
          rw [hhead, this] at hzero
          exact absurd rfl hzero
        · exact hp
      rw [asciiNumber_append]
      show Nat.toDigits 10 (10 * asciiNumber ds + asciiNumber [c]) = ds ++ [c]
      rw [← Nat.toDigits_append_toDigits (by decide) hpos hlt]
      show natText (asciiNumber ds) ++ natText (asciiNumber [c]) = ds ++ [c]
      rw [hfront, hone]

/-! ## Reading digits of any script -/

theorem readDigitsFrom?_digits {cs : List Char} (h : ∀ c ∈ cs, isAsciiDigit c = true) (acc : Nat) :
    readDigitsFrom? acc cs = some (cs.foldl (fun n c => 10 * n + (c.toNat - '0'.toNat)) acc) := by
  induction cs generalizing acc with
  | nil => rfl
  | cons c cs ih =>
    have hc : isAsciiDigit c = true := h c (by simp)
    have hmark : c ≠ '_' := by
      rintro rfl
      exact absurd hc (by decide)
    have hdigit : digit? c = some (c.toNat - '0'.toNat) := if_pos (by simpa [isAsciiDigit] using hc)
    unfold readDigitsFrom?
    simp only [if_neg hmark, hdigit, Option.bind_some]
    exact ih (fun d hd => h d (by simp [hd])) _

/-- Digits of ASCII are read as the number that they write, unless they are too many. -/
theorem readDigits?_digits {cs : List Char} (hne : cs ≠ []) (h : ∀ c ∈ cs, isAsciiDigit c = true)
    (hlimit : cs.length ≤ maxDigits) : readDigits? cs = some (asciiNumber cs) := by
  obtain ⟨c, cs, rfl⟩ := List.exists_cons_of_ne_nil hne
  have hcount : ¬ maxDigits < ((c :: cs).filter (· ≠ '_')).length :=
    Nat.not_lt.mpr (Nat.le_trans (List.length_filter_le _ _) hlimit)
  have hdigit : digit? c = some (c.toNat - '0'.toNat) :=
    if_pos (by simpa [isAsciiDigit] using h c (by simp))
  show (if maxDigits < ((c :: cs).filter (· ≠ '_')).length then none else _) = _
  rw [if_neg hcount, hdigit, Option.bind_some, readDigitsFrom?_digits fun d hd => h d (by simp [hd])]
  rw [asciiNumber, List.foldl_cons, Nat.mul_zero, Nat.zero_add]

/-- A natural number is read from its digits, unless they are too many. -/
theorem readInteger?_natText {n : Nat} (h : n < tenTo maxDigits) :
    readInteger? (natText n) = some (n : Int) := by
  have hdigits : ∀ c ∈ natText n, isAsciiDigit c = true := fun c => isAsciiDigit_of_mem_natText
  have hblank : ∀ c ∈ natText n, isIntegerBlank c = false := fun c hc =>
    of_toNat_lt_128 (p := fun c => isAsciiDigit c = true → isIntegerBlank c = false)
      (by decide) (toNat_lt_of_isAsciiDigit (hdigits c hc)) (hdigits c hc)
  have htrim : trimInteger (natText n) = natText n := by
    have hdrop : ∀ {cs : List Char}, (∀ c ∈ cs, isIntegerBlank c = false) →
        cs.dropWhile isIntegerBlank = cs := fun {cs} hcs => by
      cases cs with
      | nil => rfl
      | cons c cs => rw [List.dropWhile_cons, hcs c List.mem_cons_self]; rfl
    rw [trimInteger, hdrop hblank, hdrop fun c hc => hblank c (List.mem_reverse.mp hc),
      List.reverse_reverse]
  have hread := readDigits?_digits (natText_ne_nil n) hdigits
    ((length_natText_le_iff (by decide)).mpr h)
  rw [asciiNumber_natText] at hread
  unfold readInteger?
  rw [htrim]
  -- a digit is no sign
  split
  · next digits hsign => exact absurd (hdigits '-' (hsign ▸ List.mem_cons_self)) (by decide)
  · next digits hsign => exact absurd (hdigits '+' (hsign ▸ List.mem_cons_self)) (by decide)
  · rw [hread]; rfl

end Proposals.Number
