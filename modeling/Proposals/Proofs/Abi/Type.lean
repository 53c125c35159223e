import Proposals.Abi.Type
import Proposals.Proofs.Number.Digits
import Proposals.Proofs.Text.Hex
import Mathlib.Data.List.TakeWhile

/-!
# `Proofs.Abi.Type` — the reader of types accepts exactly the written forms

Reading a type leaves no freedom: a text is read as a type exactly when it is the written form of that
type. Each reader is shown to split its input into the written form of what it reads and the rest
(`chars_of_read`), the leaves first (a number, a size, brackets), then types and tuples together. For
the way back (`read_chars`) the written form must end where the reader stops: no letter, digit or
bracket follows it.

What the reader makes is *well formed* (`IsWellFormed`): base names are words of letters, sizes and
lengths are positive, tuples have a component. Not every value of `AbiType` is.
-/

namespace Proposals.Abi.AbiType

open Proposals.Text Proposals.Number

/-! ## Well-formed types -/

/-- The numbers of a size are positive. -/
def IsPositiveSize : Option TypeSize → Prop
  | none => True
  | some (.plain n) => 0 < n
  | some (.pair m n) => 0 < m ∧ 0 < n

/-- The length of an array, if it is fixed, is positive. -/
def IsPositiveLength : Option Nat → Prop
  | none => True
  | some n => 0 < n

mutual
/-- Every base name in the type is a word of letters, every number positive, and every tuple has a
    component. -/
def IsWellFormed : AbiType → Prop
  | .basic base size =>
    base.toList ≠ [] ∧ (∀ c ∈ base.toList, c.isAlpha = true) ∧ IsPositiveSize size
  | .tuple components => components ≠ [] ∧ AreWellFormed components
  | .array item length => IsWellFormed item ∧ IsPositiveLength length

/-- All types of a list are well formed. -/
def AreWellFormed : List AbiType → Prop
  | [] => True
  | t :: rest => IsWellFormed t ∧ AreWellFormed rest
end

/-- The written form of components behind the first: each follows a comma. -/
def furtherChars (ts : List AbiType) : List Char := ts.flatMap fun t => ',' :: chars t

theorem joined_charsList_cons (t : AbiType) (ts : List AbiType) :
    joined (charsList (t :: ts)) = chars t ++ furtherChars ts := by
  induction ts generalizing t with
  | nil => exact (List.append_nil _).symm
  | cons u ts ih =>
    show chars t ++ ',' :: joined (charsList (u :: ts)) = _
    rw [ih]; rfl

theorem chars_tuple_cons (t : AbiType) (ts : List AbiType) :
    chars (.tuple (t :: ts)) = '(' :: (chars t ++ (furtherChars ts ++ [')'])) := by
  show '(' :: joined (charsList (t :: ts)) ++ [')'] = _
  rw [joined_charsList_cons, List.cons_append, List.append_assoc]

/-! ## What is read is written as it stood: numbers, sizes and brackets -/

theorem natText_of_takeNumber? {cs rest : List Char} {n : Nat}
    (h : takeNumber? cs = some (n, rest)) : natText n ++ rest = cs ∧ 0 < n := by
  unfold takeNumber? at h
  have hsplit : cs.takeWhile isAsciiDigit ++ cs.dropWhile isAsciiDigit = cs :=
    List.takeWhile_append_dropWhile
  have hdigits : ∀ c ∈ cs.takeWhile isAsciiDigit, isAsciiDigit c = true :=
    fun c hc => List.mem_takeWhile_imp hc
  generalize cs.takeWhile isAsciiDigit = digits at h hsplit hdigits
  cases digits with
  | nil => exact absurd h (by simp)
  | cons first more =>
    simp only [beq_iff_eq] at h
    split at h
    · exact absurd h (by simp)
    · next hfirst =>
      rw [Option.some.injEq, Prod.mk.injEq] at h
      obtain ⟨hn, rfl⟩ := h
      have htext : natText n = first :: more := by
        rw [← hn]; exact natText_asciiNumber (by simp) hdigits (by simpa using hfirst)
      refine ⟨by rw [htext]; exact hsplit, ?_⟩
      -- zero is written with the very digit that a number may not open with
      rcases Nat.eq_zero_or_pos n with rfl | hpos
      · have hzero : ['0'] = first :: more := htext
        exact absurd (List.cons.inj hzero).1.symm hfirst
      · exact hpos

theorem sizeChars_takeSize (cs : List Char) :
    sizeChars (takeSize cs).1 ++ (takeSize cs).2 = cs ∧ IsPositiveSize (takeSize cs).1 := by
  unfold takeSize
  split
  · exact ⟨rfl, trivial⟩
  · next m rest hm =>
    obtain ⟨htext, hpos⟩ := natText_of_takeNumber? hm
    split
    · next tail =>
      split
      · next n rest' hn =>
        obtain ⟨htail, hpos'⟩ := natText_of_takeNumber? hn
        refine ⟨?_, hpos, hpos'⟩
        show (natText m ++ 'x' :: natText n) ++ rest' = cs
        rw [List.append_assoc, List.cons_append, htail]; exact htext
      · exact ⟨htext, hpos⟩
    · exact ⟨htext, hpos⟩

theorem lengthChars_of_takeLength? {cs rest : List Char} {length : Option Nat}
    (h : takeLength? cs = some (length, rest)) :
    lengthChars length ++ rest = cs ∧ IsPositiveLength length := by
  unfold takeLength? at h
  split at h
  · rw [Option.some.injEq, Prod.mk.injEq] at h
    obtain ⟨rfl, rfl⟩ := h
    exact ⟨rfl, trivial⟩
  · next tail _ =>
    split at h
    · next n rest' hn =>
      rw [Option.some.injEq, Prod.mk.injEq] at h
      obtain ⟨rfl, rfl⟩ := h
      obtain ⟨htext, hpos⟩ := natText_of_takeNumber? hn
      refine ⟨?_, hpos⟩
      show '[' :: natText n ++ [']'] ++ rest' = _
      rw [List.append_assoc, List.cons_append, List.singleton_append, htext]
    · exact absurd h (by simp)
  · exact absurd h (by simp)

theorem chars_takeArrays {t : AbiType} (ht : IsWellFormed t) (fuel : Nat) (cs : List Char) :
    chars (takeArrays fuel t cs).1 ++ (takeArrays fuel t cs).2 = chars t ++ cs ∧
      IsWellFormed (takeArrays fuel t cs).1 := by
  induction fuel generalizing t cs with
  | zero => exact ⟨rfl, ht⟩
  | succ fuel ih =>
    unfold takeArrays
    split
    · next length rest h =>
      obtain ⟨htext, hpos⟩ := lengthChars_of_takeLength? h
      obtain ⟨hchars, hwf⟩ := ih (t := .array t length) ⟨ht, hpos⟩ rest
      refine ⟨?_, hwf⟩
      rw [hchars, ← htext, ← List.append_assoc]; rfl
    · exact ⟨rfl, ht⟩

/-! ## What is read is written as it stood: types and tuples -/

/-- A text that opens no tuple is read as a base name with its size. -/
theorem takeType?_of_head?_ne {cs : List Char} (h : cs.head? ≠ some '(') (fuel : Nat) :
    takeType? (fuel + 1) cs =
      if (cs.takeWhile Char.isAlpha).isEmpty then none
      else
        let (size, rest) := takeSize (cs.dropWhile Char.isAlpha)
        some (takeArrays rest.length
          (.basic (String.ofList (cs.takeWhile Char.isAlpha)) size) rest) := by
  unfold takeType?
  split
  · exact absurd ‹fuel + 1 = 0› (by simp)
  · exact absurd rfl h
  · rfl

/-- Reading a base name, its size and the arrays around it. -/
theorem takeType?_sound_of_head?_ne {cs rest : List Char} {t : AbiType} {fuel : Nat}
    (hhead : cs.head? ≠ some '(') (h : takeType? (fuel + 1) cs = some (t, rest)) :
    chars t ++ rest = cs ∧ IsWellFormed t := by
  rw [takeType?_of_head?_ne hhead] at h
  obtain ⟨htext, hpositive⟩ := sizeChars_takeSize (cs.dropWhile Char.isAlpha)
  have hbase : (String.ofList (cs.takeWhile Char.isAlpha)).toList = cs.takeWhile Char.isAlpha :=
    String.toList_ofList
  split at h
  · exact absurd h (by simp)
  · next hne =>
    rw [Option.some.injEq] at h
    generalize takeSize (cs.dropWhile Char.isAlpha) = sized at h htext hpositive
    obtain ⟨size, behind⟩ := sized
    have hwf : IsWellFormed (.basic (String.ofList (cs.takeWhile Char.isAlpha)) size) := by
      refine ⟨by rw [hbase]; simpa using hne, fun c hc => ?_, hpositive⟩
      rw [hbase] at hc
      exact List.mem_takeWhile_imp hc
    have harrays := chars_takeArrays hwf behind.length behind
    rw [h] at harrays
    refine ⟨?_, harrays.2⟩
    rw [harrays.1]
    show (String.ofList (cs.takeWhile Char.isAlpha)).toList ++ sizeChars size ++ behind = cs
    rw [hbase, List.append_assoc, htext]
    exact List.takeWhile_append_dropWhile

/-- **The readers split their input** into the written form of what they read and the rest. -/
theorem takeType?_takeMore?_sound (fuel : Nat) :
    (∀ cs t rest, takeType? fuel cs = some (t, rest) → chars t ++ rest = cs ∧ IsWellFormed t) ∧
    (∀ cs ts rest, takeMore? fuel cs = some (ts, rest) →
      furtherChars ts ++ ')' :: rest = cs ∧ AreWellFormed ts) := by
  induction fuel with
  | zero => exact ⟨fun _ _ _ h => absurd h (by simp [takeType?]),
      fun _ _ _ h => absurd h (by simp [takeMore?])⟩
  | succ fuel ih =>
    obtain ⟨ihType, ihMore⟩ := ih
    refine ⟨fun cs t rest h => ?_, fun cs ts rest h => ?_⟩
    · by_cases hhead : cs.head? = some '('
      · -- a tuple: its first component, the further ones, then the arrays around it
        obtain ⟨cs', rfl⟩ := List.head?_eq_some_iff.mp hhead
        simp only [takeType?, Option.bind_eq_bind, Option.bind_eq_some_iff, Prod.exists,
          Option.pure_def, Option.some.injEq] at h
        obtain ⟨first, cs₁, hfirst, more, cs₂, hmore, h⟩ := h
        obtain ⟨hc₁, hw₁⟩ := ihType _ _ _ hfirst
        obtain ⟨hc₂, hw₂⟩ := ihMore _ _ _ hmore
        have hwf : IsWellFormed (.tuple (first :: more)) := ⟨by simp, hw₁, hw₂⟩
        have harrays := chars_takeArrays hwf cs₂.length cs₂
        rw [h] at harrays
        refine ⟨?_, harrays.2⟩
        rw [harrays.1, chars_tuple_cons, List.cons_append, List.append_assoc, List.append_assoc,
          List.singleton_append, hc₂, hc₁]
      · exact takeType?_sound_of_head?_ne hhead h
    · unfold takeMore? at h
      split at h
      · exact absurd ‹_› (by simp)
      · -- the closing parenthesis
        rw [Option.some.injEq, Prod.mk.injEq] at h
        obtain ⟨rfl, rfl⟩ := h
        exact ⟨rfl, trivial⟩
      · -- a comma: one more component, then those behind it
        next f cs' hf =>
        cases hf
        simp only [Option.bind_eq_bind, Option.bind_eq_some_iff, Prod.exists, Option.pure_def,
          Option.some.injEq, Prod.mk.injEq] at h
        obtain ⟨t, cs₁, ht, more, cs₂, hmore, rfl, rfl⟩ := h
        obtain ⟨hc₁, hw₁⟩ := ihType _ _ _ ht
        obtain ⟨hc₂, hw₂⟩ := ihMore _ _ _ hmore
        refine ⟨?_, hw₁, hw₂⟩
        show ',' :: chars t ++ furtherChars more ++ ')' :: cs₂ = _
        rw [List.append_assoc, hc₂, List.cons_append, hc₁]
      · exact absurd h (by simp)

theorem chars_of_parse? {cs : List Char} {t : AbiType} (h : parse? cs = some t) :
    chars t = cs ∧ IsWellFormed t := by
  unfold parse? at h
  split at h
  · next u hu =>
    cases h
    obtain ⟨hchars, hwf⟩ := (takeType?_takeMore?_sound _).1 _ _ _ hu
    rw [List.append_nil] at hchars
    exact ⟨hchars, hwf⟩
  · exact absurd h (by simp)

/-- **A text that is read as a type is its written form.** -/
theorem chars_of_read {cs : List Char} {t : AbiType} (h : read cs = .ok t) :
    chars t = cs ∧ IsWellFormed t ∧ t.isValid = true := by
  unfold read at h
  split at h
  · next u hu =>
    split at h
    · next hvalid =>
      cases h
      obtain ⟨hchars, hwf⟩ := chars_of_parse? hu
      exact ⟨hchars, hwf, hvalid⟩
    · exact absurd h (by simp)
  · exact absurd h (by simp)

/-! ## Written forms are read back -/

theorem takeNumber?_natText {n : Nat} (hn : 0 < n) {rest : List Char}
    (hrest : ∀ c, rest.head? = some c → isAsciiDigit c = false) :
    takeNumber? (natText n ++ rest) = some (n, rest) := by
  obtain ⟨htake, hdrop⟩ :=
    takeWhile_dropWhile_append (fun c hc => isAsciiDigit_of_mem_natText (n := n) hc) hrest
  unfold takeNumber?
  simp only [htake, hdrop]
  have hhead := head?_natText_ne_zero hn
  have hnumber := asciiNumber_natText n
  generalize natText n = digits at hhead hnumber
  cases digits with
  | nil => exact absurd hnumber (Nat.ne_of_lt hn)
  | cons first more =>
    have hfirst : ¬ first = '0' := by simpa using hhead
    simp only [beq_iff_eq, if_neg hfirst, hnumber]

/-- What may stand behind a written type: nothing that the reader would still take. -/
def IsStop (rest : List Char) : Prop := ∀ c, rest.head? = some c → c.isAlphanum = false ∧ c ≠ '['

/-- The written forms of the brackets around a type. -/
def bracketChars (lengths : List (Option Nat)) : List Char := lengths.flatMap lengthChars

/-- The type with arrays around it, the innermost first. -/
def arraysOf (t : AbiType) (lengths : List (Option Nat)) : AbiType := lengths.foldl .array t

theorem head?_bracketChars_append {lengths : List (Option Nat)} {rest : List Char} {c : Char}
    (h : (bracketChars lengths ++ rest).head? = some c) : c = '[' ∨ rest.head? = some c := by
  cases lengths with
  | nil => exact .inr h
  | cons length lengths =>
    left
    cases length <;> exact (Option.some.inj h).symm

/-- Brackets and what may follow a type end a base name and its size. -/
theorem not_isAlphanum_of_head? {lengths : List (Option Nat)} {rest : List Char} (hstop : IsStop rest)
    {c : Char} (h : (bracketChars lengths ++ rest).head? = some c) : c.isAlphanum = false := by
  rcases head?_bracketChars_append h with rfl | hc
  · decide
  · exact (hstop c hc).1

theorem takeSize_sizeChars {size : Option TypeSize} (hsize : IsPositiveSize size) {rest : List Char}
    (hrest : ∀ c, rest.head? = some c → c.isAlphanum = false) :
    takeSize (sizeChars size ++ rest) = (size, rest) := by
  have hdigit : ∀ c, rest.head? = some c → isAsciiDigit c = false := fun c hc => by
    have := hrest c hc
    rw [Char.isAlphanum, Bool.or_eq_false_iff] at this
    exact this.2
  have hx : rest.head? ≠ some 'x' := fun h => absurd (hrest 'x' h) (by decide)
  unfold takeSize
  cases size with
  | none =>
    have hnone : takeNumber? rest = none := by
      unfold takeNumber?
      have hnil : rest.takeWhile isAsciiDigit = [] :=
        (takeWhile_dropWhile_append (fun c (hc : c ∈ []) => absurd hc (by simp)) hdigit).1
      simp only [hnil]
    rw [show sizeChars none ++ rest = rest from rfl, hnone]
  | some size =>
    cases size with
    | plain n =>
      rw [show sizeChars (some (.plain n)) = natText n from rfl, takeNumber?_natText hsize hdigit]
      simp only
      -- an `x` behind the number would make it a pair, but none follows
      split
      · next tail => exact absurd rfl hx
      · rfl
    | pair m n =>
      have htext : sizeChars (some (.pair m n)) ++ rest = natText m ++ 'x' :: (natText n ++ rest) :=
        List.append_assoc ..
      rw [htext, takeNumber?_natText hsize.1 (by rintro c ⟨⟩; decide)]
      simp only [takeNumber?_natText hsize.2 hdigit]

theorem takeLength?_lengthChars {length : Option Nat} (hlength : IsPositiveLength length)
    (rest : List Char) : takeLength? (lengthChars length ++ rest) = some (length, rest) := by
  cases length with
  | none => rfl
  | some n =>
    have htext : lengthChars (some n) ++ rest = '[' :: (natText n ++ ']' :: rest) := by
      show '[' :: natText n ++ [']'] ++ rest = _
      rw [List.append_assoc]; rfl
    rw [htext]
    have hread : takeNumber? (natText n ++ ']' :: rest) = some (n, ']' :: rest) :=
      takeNumber?_natText hlength (by rintro c ⟨⟩; decide)
    unfold takeLength?
    split
    · -- a number does not open with the closing bracket
      next h =>
      rw [List.cons.injEq] at h
      have hhead : (natText n ++ ']' :: rest).head? = some ']' := by rw [h.2]; rfl
      rw [List.head?_append_of_ne_nil _ (natText_ne_nil n)] at hhead
      have hmem : ']' ∈ natText n := List.mem_of_mem_head? hhead
      exact absurd (isAsciiDigit_of_mem_natText hmem) (by decide)
    · next tail _ h =>
      rw [List.cons.injEq] at h
      rw [← h.2, hread]
      rfl
    · next h => exact absurd rfl (h _)

theorem takeArrays_bracketChars {lengths : List (Option Nat)}
    (hlengths : ∀ length ∈ lengths, IsPositiveLength length) {rest : List Char}
    (hrest : rest.head? ≠ some '[') {fuel : Nat} (hfuel : lengths.length ≤ fuel) (t : AbiType) :
    takeArrays fuel t (bracketChars lengths ++ rest) = (arraysOf t lengths, rest) := by
  induction lengths generalizing fuel t with
  | nil =>
    cases fuel with
    | zero => rfl
    | succ fuel =>
      have hnone : takeLength? rest = none := by
        unfold takeLength?
        split
        · exact absurd rfl hrest
        · exact absurd rfl hrest
        · rfl
      rw [show bracketChars [] ++ rest = rest from rfl, takeArrays, hnone]
      rfl
  | cons length lengths ih =>
    cases fuel with
    | zero => exact absurd hfuel (by simp)
    | succ fuel =>
      have htext : bracketChars (length :: lengths) ++ rest =
          lengthChars length ++ (bracketChars lengths ++ rest) := List.append_assoc ..
      unfold takeArrays
      rw [htext, takeLength?_lengthChars (hlengths length (by simp))]
      exact ih (fun l hl => hlengths l (by simp [hl])) (Nat.le_of_succ_le_succ hfuel) _

theorem length_le_bracketChars (lengths : List (Option Nat)) :
    lengths.length ≤ (bracketChars lengths).length := by
  induction lengths with
  | nil => exact Nat.le_refl 0
  | cons length lengths ih =>
    have hone : 1 ≤ (lengthChars length).length := by cases length <;> simp [lengthChars]
    show lengths.length + 1 ≤ (lengthChars length ++ bracketChars lengths).length
    rw [List.length_append]; omega

/-- The length of the text is fuel enough for the brackets in it. -/
theorem takeArrays_length {lengths : List (Option Nat)}
    (hlengths : ∀ length ∈ lengths, IsPositiveLength length) {rest : List Char} (hstop : IsStop rest)
    (t : AbiType) :
    takeArrays (bracketChars lengths ++ rest).length t (bracketChars lengths ++ rest) =
      (arraysOf t lengths, rest) := by
  have hfuel : lengths.length ≤ (bracketChars lengths ++ rest).length := by
    rw [List.length_append]
    exact Nat.le_trans (length_le_bracketChars lengths) (Nat.le_add_right _ _)
  exact takeArrays_bracketChars hlengths (fun h => (hstop '[' h).2 rfl) hfuel t

/-- A size and what follows it end the letters of a base name. -/
theorem not_isAlpha_of_head?_sizeChars {size : Option TypeSize} {rest : List Char}
    (hrest : ∀ c, rest.head? = some c → c.isAlphanum = false) {c : Char}
    (h : (sizeChars size ++ rest).head? = some c) : c.isAlpha = false := by
  have hdigit : ∀ {n : Nat} {more : List Char}, (natText n ++ more).head? = some c →
      c.isAlpha = false := by
    intro n more hc
    rw [List.head?_append_of_ne_nil _ (natText_ne_nil n)] at hc
    exact isAlpha_of_isAsciiDigit (isAsciiDigit_of_mem_natText (List.mem_of_mem_head? hc))
  cases size with
  | none =>
    have := hrest c h
    rw [Char.isAlphanum, Bool.or_eq_false_iff] at this
    exact this.1
  | some size =>
    cases size with
    | plain n => exact hdigit h
    | pair m n =>
      have htext : sizeChars (some (.pair m n)) ++ rest = natText m ++ ('x' :: natText n ++ rest) :=
        List.append_assoc ..
      rw [htext] at h
      exact hdigit h

theorem takeType?_basic {base : String} {size : Option TypeSize} (ht : IsWellFormed (.basic base size))
    {lengths : List (Option Nat)} (hlengths : ∀ length ∈ lengths, IsPositiveLength length)
    {rest : List Char} (hstop : IsStop rest) (fuel : Nat) :
    takeType? (fuel + 1) (chars (.basic base size) ++ (bracketChars lengths ++ rest)) =
      some (arraysOf (.basic base size) lengths, rest) := by
  obtain ⟨hne, halpha, hsize⟩ := ht
  have hafter : ∀ c, (bracketChars lengths ++ rest).head? = some c → c.isAlphanum = false :=
    fun c hc => not_isAlphanum_of_head? hstop hc
  have hend : ∀ c, (sizeChars size ++ (bracketChars lengths ++ rest)).head? = some c →
      c.isAlpha = false := fun c hc => not_isAlpha_of_head?_sizeChars hafter hc
  obtain ⟨htake, hdrop⟩ := takeWhile_dropWhile_append halpha hend
  have htext : chars (.basic base size) ++ (bracketChars lengths ++ rest) =
      base.toList ++ (sizeChars size ++ (bracketChars lengths ++ rest)) := List.append_assoc ..
  have hhead : (base.toList ++ (sizeChars size ++ (bracketChars lengths ++ rest))).head? ≠
      some '(' := by
    rw [List.head?_append_of_ne_nil _ hne]
    intro h
    exact absurd (halpha _ (List.mem_of_mem_head? h)) (by decide)
  rw [htext, takeType?_of_head?_ne hhead, htake, hdrop, takeSize_sizeChars hsize hafter,
    if_neg (by simpa using hne)]
  simp only [takeArrays_length hlengths hstop, String.ofList_toList]

theorem isStop_furtherChars (ts : List AbiType) (rest : List Char) :
    IsStop (furtherChars ts ++ ')' :: rest) := by
  intro c hc
  cases ts with
  | nil => cases hc; decide
  | cons t ts => cases hc; decide

mutual
/-- **The written form of a type is read back**, with the arrays around it. -/
theorem takeType?_chars : (t : AbiType) → IsWellFormed t →
    ∀ lengths : List (Option Nat), (∀ length ∈ lengths, IsPositiveLength length) →
    ∀ rest : List Char, IsStop rest → ∀ fuel : Nat, (chars t).length < fuel →
      takeType? fuel (chars t ++ (bracketChars lengths ++ rest)) = some (arraysOf t lengths, rest)
  | .basic _ _, ht, _, hlengths, _, hstop, fuel + 1, _ => takeType?_basic ht hlengths hstop fuel
  | .tuple [], ht, _, _, _, _, _, _ => absurd rfl ht.1
  | .tuple (t :: ts), ht, lengths, hlengths, rest, hstop, fuel + 1, hfuel => by
    -- the parentheses and what stands between them are shorter than the fuel that is left
    rw [chars_tuple_cons, List.length_cons, List.length_append, List.length_append,
      List.length_singleton] at hfuel
    have htext : chars (.tuple (t :: ts)) ++ (bracketChars lengths ++ rest) =
        '(' :: (chars t ++ (bracketChars [] ++
          (furtherChars ts ++ ')' :: (bracketChars lengths ++ rest)))) := by
      rw [chars_tuple_cons, List.cons_append, List.append_assoc, List.append_assoc,
        List.singleton_append]; rfl
    have hfirst := takeType?_chars t ht.2.1 [] (fun _ h => absurd h (by simp)) _
      (isStop_furtherChars ts (bracketChars lengths ++ rest)) fuel (by omega)
    have hmore := takeMore?_furtherChars ts ht.2.2 (bracketChars lengths ++ rest) fuel (by omega)
    rw [htext, takeType?, hfirst]
    show (takeMore? fuel (furtherChars ts ++ ')' :: (bracketChars lengths ++ rest)) >>= _) = _
    rw [hmore]
    exact congrArg some (takeArrays_length hlengths hstop (.tuple (t :: ts)))
  | .array item length, ht, lengths, hlengths, rest, hstop, fuel, hfuel => by
    -- the brackets of this array join those around it
    have htext : chars (.array item length) ++ (bracketChars lengths ++ rest) =
        chars item ++ (bracketChars (length :: lengths) ++ rest) := by
      show chars item ++ lengthChars length ++ (bracketChars lengths ++ rest) =
        chars item ++ (lengthChars length ++ bracketChars lengths ++ rest)
      rw [List.append_assoc, List.append_assoc]
    have hitem : (chars item).length < fuel := by
      have : (chars (.array item length)).length =
        (chars item).length + (lengthChars length).length := List.length_append
      omega
    rw [htext]
    refine takeType?_chars item ht.1 (length :: lengths) (fun l hl => ?_) rest hstop fuel hitem
    rcases List.mem_cons.mp hl with rfl | hl
    · exact ht.2
    · exact hlengths l hl

/-- The further components of a tuple are read back up to its closing parenthesis. -/
theorem takeMore?_furtherChars : (ts : List AbiType) → AreWellFormed ts →
    ∀ (rest : List Char) (fuel : Nat), (furtherChars ts).length < fuel →
      takeMore? fuel (furtherChars ts ++ ')' :: rest) = some (ts, rest)
  | [], _, _, fuel + 1, _ => rfl
  | t :: ts, ht, rest, fuel + 1, hfuel => by
    have hlength : (furtherChars (t :: ts)).length = (chars t).length + 1 + (furtherChars ts).length :=
      List.length_append
    have htext : furtherChars (t :: ts) ++ ')' :: rest =
        ',' :: (chars t ++ (bracketChars [] ++ (furtherChars ts ++ ')' :: rest))) :=
      congrArg (List.cons ',') (List.append_assoc ..)
    have hfirst := takeType?_chars t ht.1 [] (fun _ h => absurd h (by simp)) _
      (isStop_furtherChars ts rest) fuel (by omega)
    have hmore := takeMore?_furtherChars ts ht.2 rest fuel (by omega)
    rw [htext, takeMore?, hfirst]
    show (takeMore? fuel (furtherChars ts ++ ')' :: rest) >>= _) = _
    rw [hmore]
    rfl
end

theorem parse?_chars {t : AbiType} (ht : IsWellFormed t) : parse? (chars t) = some t := by
  have hread := takeType?_chars t ht [] (fun _ h => absurd h (by simp)) []
    (fun _ h => absurd h (by simp)) _ (Nat.lt_succ_self _)
  rw [show chars t ++ (bracketChars [] ++ []) = chars t from List.append_nil _] at hread
  unfold parse?
  rw [hread]
  rfl

/-- Well-formed types are written differently. -/
theorem eq_of_chars_eq {t u : AbiType} (ht : IsWellFormed t) (hu : IsWellFormed u)
    (h : chars t = chars u) : t = u :=
  Option.some.inj ((parse?_chars ht).symm.trans (h ▸ parse?_chars hu))

/-- **A valid well-formed type is read from its written form.** -/
theorem read_chars {t : AbiType} (ht : IsWellFormed t) (hvalid : t.isValid = true) :
    read (chars t) = .ok t := by
  unfold read
  rw [parse?_chars ht]
  simp only [hvalid, if_true]

end Proposals.Abi.AbiType
