import Proposals.Json.Printer
import Proposals.Json.Reader
import Proposals.Proofs.Outcome
import Proposals.Proofs.Text.Hex

/-!
# `Proofs.Json.Text` — texts in quotes are read back

A text is printed in ASCII: quotes, backslashes and control characters with escapes, all else outside
ASCII by number, in two halves if the number has more than sixteen bits. The reader takes an escape by
number only if the text goes on behind it. In a quoted text it always does, since the closing quote is
still to come; so every character comes back (`takeTextChar_escapedChar`), and with it the text
(`readText_quotedText`).
-/

namespace Proposals.Json

open Proposals.Text Proposals.Outcome

/-! ## Escapes by number -/

theorem takeHex4?_hexPadded {n : Nat} (h : n < 0x10000) (rest : List Char) :
    takeHex4? (hexPadded 4 n ++ rest) = some (n, rest) := by
  have hdigit : ∀ m : Nat, hexValue? (lowerHexDigit (m % 16)) = some (m % 16) := fun m =>
    hexValue?_lowerHexDigit (Nat.mod_lt m (by decide))
  have hnumber :
      ((n / 16 / 16 / 16 % 16 * 16 + n / 16 / 16 % 16) * 16 + n / 16 % 16) * 16 + n % 16 = n := by omega
  simp only [hexPadded, List.nil_append, List.cons_append, takeHex4?, hdigit, Option.bind_eq_bind,
    Option.bind_some, hnumber]
  rfl

theorem length_hexPadded (width n : Nat) : (hexPadded width n).length = width := by
  induction width generalizing n with
  | zero => rfl
  | succ width ih => rw [hexPadded, List.length_append, ih, List.length_singleton]

/-- Four digits and what follows them. -/
theorem drop_hexPadded (n : Nat) (rest : List Char) : (hexPadded 4 n ++ rest).drop 4 = rest :=
  List.drop_left' (length_hexPadded 4 n)

/-- A number of sixteen bits that is no half of a pair. -/
theorem takeEscaped?_hexPadded {n : Nat} (h : n < 0x10000) (hhigh : isHighHalf n = false)
    (hlow : isLowHalf n = false) {rest : List Char} (hrest : rest ≠ []) :
    takeEscaped? (hexPadded 4 n ++ rest) = some (Char.ofNat n, rest) := by
  have hmore : rest.isEmpty = false := by
    rwa [Bool.eq_false_iff, ne_eq, List.isEmpty_iff]
  simp only [takeEscaped?, drop_hexPadded, hmore, takeHex4?_hexPadded h, hhigh, hlow,
    Bool.false_eq_true, if_false]

/-- Two halves of a pair. -/
theorem takeEscaped?_pair {m : Nat} (h : m < 0x100000) {rest : List Char} (hrest : rest ≠ []) :
    takeEscaped? (hexPadded 4 (0xd800 + m / 1024) ++
      backslash :: 'u' :: hexPadded 4 (0xdc00 + m % 1024) ++ rest) =
      some (Char.ofNat (0x10000 + m), rest) := by
  have hmore : rest.isEmpty = false := by
    rwa [Bool.eq_false_iff, ne_eq, List.isEmpty_iff]
  have hhigh : isHighHalf (0xd800 + m / 1024) = true := by
    simp only [isHighHalf, Bool.and_eq_true, decide_eq_true_eq]; omega
  have hlow : isLowHalf (0xdc00 + m % 1024) = true := by
    simp only [isLowHalf, Bool.and_eq_true, decide_eq_true_eq]; omega
  have hnumber : 0x10000 + (0xd800 + m / 1024 - 0xd800) * 1024 + (0xdc00 + m % 1024 - 0xdc00) =
      0x10000 + m := by omega
  have htake : takeLowHalf? (backslash :: 'u' :: (hexPadded 4 (0xdc00 + m % 1024) ++ rest)) =
      some (0xdc00 + m % 1024, rest) := by
    have htaken := takeHex4?_hexPadded (n := 0xdc00 + m % 1024) (by omega) rest
    simp only [takeLowHalf?, drop_hexPadded, hmore, htaken, beq_self_eq_true, Bool.not_false,
      Bool.and_self, if_true, Option.filter, hlow]
  have htaken := takeHex4?_hexPadded (n := 0xd800 + m / 1024) (by omega)
    (backslash :: 'u' :: (hexPadded 4 (0xdc00 + m % 1024) ++ rest))
  rw [List.append_assoc, List.cons_append, List.cons_append]
  simp only [takeEscaped?, drop_hexPadded, htaken, List.isEmpty_cons, hhigh, htake, hnumber,
    Bool.false_eq_true, if_false, if_true]

/-- **A character is read back from its escape by number.** -/
theorem takeTextChar_numberEscape (c : Char) (start : Nat) {rest : List Char} (hrest : rest ≠ []) :
    takeTextChar start (numberEscape c.toNat ++ rest) = .ok (some c, rest) := by
  have hback : (backslash == doubleQuote) = false := by decide
  have hescape : ∀ {tail behind : List Char} {d : Char}, takeEscaped? tail = some (d, behind) →
      takeTextChar start (backslash :: 'u' :: tail) = .ok (some d, behind) := by
    intro tail behind d htail
    simp only [takeTextChar, hback, beq_self_eq_true, if_true, Bool.false_eq_true, if_false, htail]
  have hvalid : c.toNat < 0xd800 ∨ 0xdfff < c.toNat ∧ c.toNat < 0x110000 := c.valid
  unfold numberEscape
  split
  · next hsmall =>
    rw [List.cons_append, List.cons_append]
    refine hescape ?_
    rw [takeEscaped?_hexPadded hsmall ?_ ?_ hrest, Char.ofNat_toNat]
    · simp only [isHighHalf, Bool.and_eq_false_iff, decide_eq_false_iff_not]; omega
    · simp only [isLowHalf, Bool.and_eq_false_iff, decide_eq_false_iff_not]; omega
  · next hlarge =>
    have hnumber : 0x10000 + (c.toNat - 0x10000) = c.toNat := by omega
    have hpair := takeEscaped?_pair (m := c.toNat - 0x10000) (by omega) hrest
    rw [hnumber, Char.ofNat_toNat] at hpair
    exact hescape hpair

/-! ## Characters and texts -/

/-- **A character is read back from its written form** inside a text. -/
theorem takeTextChar_escapedChar (c : Char) (start : Nat) {rest : List Char} (hrest : rest ≠ []) :
    takeTextChar start (escapedChar c ++ rest) = .ok (some c, rest) := by
  have hback : (backslash == doubleQuote) = false := by decide
  -- an escape of one letter
  have hsimple : ∀ {e d : Char}, simpleEscape? e = some d → (e == 'u') = false →
      takeTextChar start ([backslash, e] ++ rest) = .ok (some d, rest) := by
    intro e d hd hu
    simp only [takeTextChar, List.cons_append, List.nil_append, hback, beq_self_eq_true, if_true,
      Bool.false_eq_true, if_false, hu, hd]
  have hpoint : ∀ {n : Nat}, (c.toNat == n) = true → Char.ofNat n = c := fun h => by
    rw [← beq_iff_eq.mp h, Char.ofNat_toNat]
  unfold escapedChar
  split
  · next h =>
    rw [Bool.or_eq_true, beq_iff_eq, beq_iff_eq] at h
    rcases h with rfl | rfl
    · exact hsimple (by decide) (by decide)
    · exact hsimple (by decide) (by decide)
  · next hplain =>
    split
    · next h => rw [beq_iff_eq.mp h]; exact hsimple (by decide) (by decide)
    split
    · next h => rw [beq_iff_eq.mp h]; exact hsimple (by decide) (by decide)
    split
    · next h => rw [beq_iff_eq.mp h]; exact hsimple (by decide) (by decide)
    split
    · next h => rw [← hpoint h]; exact hsimple (by decide) (by decide)
    split
    · next h => rw [← hpoint h]; exact hsimple (by decide) (by decide)
    split
    · next h =>
      -- a plain character stands for itself
      rw [Bool.or_eq_true, not_or, Bool.not_eq_true, Bool.not_eq_true] at hplain
      rw [Bool.and_eq_true, decide_eq_true_eq] at h
      simp only [takeTextChar, List.cons_append, List.nil_append, hplain.1, hplain.2,
        Bool.false_eq_true, if_false, if_neg (Nat.not_lt.mpr h.1)]
    · exact takeTextChar_numberEscape c start hrest

theorem escapedChar_ne_nil (c : Char) : escapedChar c ≠ [] := by
  unfold escapedChar numberEscape
  repeat' split
  all_goals simp

theorem length_le_flatMap_escapedChar (cs : List Char) :
    cs.length ≤ (cs.flatMap escapedChar).length := by
  induction cs with
  | nil => exact Nat.le_refl 0
  | cons c cs ih =>
    have hpos := List.length_pos_of_ne_nil (escapedChar_ne_nil c)
    rw [List.flatMap_cons, List.length_append, List.length_cons]
    omega

theorem readTextFrom_flatMap (start : Nat) {fuel : Nat} {cs : List Char} (h : cs.length < fuel)
    (rest : List Char) :
    readTextFrom start fuel (cs.flatMap escapedChar ++ doubleQuote :: rest) = .ok (cs, rest) := by
  induction cs generalizing fuel with
  | nil =>
    obtain ⟨fuel, rfl⟩ := Nat.exists_eq_add_one_of_ne_zero (Nat.ne_of_gt h)
    rfl
  | cons c cs ih =>
    obtain ⟨fuel, rfl⟩ := Nat.exists_eq_add_one_of_ne_zero (Nat.ne_of_gt (Nat.zero_lt_of_lt h))
    rw [List.flatMap_cons, List.append_assoc, readTextFrom, takeTextChar_escapedChar c start (by simp),
      ok_bind]
    simp only [ih (Nat.lt_of_succ_lt_succ h), ok_bind]
    rfl

/-- **A text is read back from its written form.** -/
theorem readText_quotedText (s : String) (rest : List Char) :
    ∃ behind, quotedText s ++ rest = doubleQuote :: behind ∧ readText behind = .ok (s.toList, rest) := by
  refine ⟨s.toList.flatMap escapedChar ++ doubleQuote :: rest, ?_, ?_⟩
  · rw [quotedText, List.append_assoc, List.cons_append, List.singleton_append]
  · refine readTextFrom_flatMap _ ?_ rest
    have hlength := length_le_flatMap_escapedChar s.toList
    rw [List.length_append]
    omega

end Proposals.Json
