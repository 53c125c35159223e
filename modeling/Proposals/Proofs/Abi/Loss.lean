import Proposals.Proofs.Abi.Parentheses

/-!
# `Proofs.Abi.Loss` — types that lose arrays

If a type is cut off behind one of its marks, what is left can be a type again: the same one without the
outer arrays (`exists_lost`). A tuple is made again from its components, each of which may have lost arrays;
and the word `tuple` alone is a base name like any other. These are the ways to come from a type to a smaller
one by mistake (`Loses`).
-/

namespace Proposals.Abi

open Proposals.Text Proposals.Number Proposals.Outcome AbiType

namespace AbiType

/-! ## Arrays around a type -/

theorem eq_arraysOf (t : AbiType) : arraysOf t.core t.lengths = t := by
  induction t using lengths.induct with
  | case1 item length ih =>
    rw [core, lengths, arraysOf, List.foldl_append]
    exact congrArg (array · length) ih
  | case2 t hscalar =>
    rw [lengths.eq_2 t hscalar, core.eq_2 t hscalar]
    rfl

theorem isPositiveLength_of_mem_lengths : (t : AbiType) → IsWellFormed t →
    ∀ length ∈ t.lengths, IsPositiveLength length
  | .basic _ _, _, _, hlength => absurd hlength (by simp [lengths])
  | .tuple _, _, _, hlength => absurd hlength (by simp [lengths])
  | .array item length, ht, other, hother => by
    rcases List.mem_append.mp hother with hother | hother
    · exact isPositiveLength_of_mem_lengths item ht.1 other hother
    · rw [List.mem_singleton.mp hother]
      exact ht.2

/-- Brackets that go on after others are those and further ones. -/
theorem exists_bracketChars {kept lengths : List (Option Nat)} {rest : List Char}
    (hkept : ∀ length ∈ kept, IsPositiveLength length)
    (hlengths : ∀ length ∈ lengths, IsPositiveLength length)
    (h : bracketChars lengths = bracketChars kept ++ rest) :
    ∃ lost, lengths = kept ++ lost ∧ rest = bracketChars lost := by
  induction kept generalizing lengths with
  | nil => exact ⟨lengths, rfl, h.symm⟩
  | cons length kept ih =>
    obtain ⟨hlength, hmore⟩ := List.forall_mem_cons.mp hkept
    have hfirst := takeLength?_lengthChars hlength (bracketChars kept ++ rest)
    rw [← List.append_assoc, show lengthChars length ++ bracketChars kept =
      bracketChars (length :: kept) from rfl, ← h] at hfirst
    cases lengths with
    | nil => exact absurd hfirst (by simp [bracketChars, takeLength?])
    | cons other lengths =>
      obtain ⟨hother, hothers⟩ := List.forall_mem_cons.mp hlengths
      rw [show bracketChars (other :: lengths) = lengthChars other ++ bracketChars lengths from rfl,
        takeLength?_lengthChars hother, Option.some.injEq, Prod.mk.injEq] at hfirst
      obtain ⟨rfl, hrest⟩ := hfirst
      obtain ⟨lost, rfl, hlost⟩ := ih hmore hothers hrest
      exact ⟨lost, rfl, hlost⟩

/-! ## Types that begin in the same way -/

theorem isPassed_joined {ts : List AbiType} (hts : AreWellFormed ts) :
    IsPassed 1 (joined (charsList ts)) := (IsPiece.joined (isPiece_of_mem_charsList ts hts)).toIsPassed

theorem isAlphanum_of_mem_core {t : AbiType} (ht : IsWellFormed t) {base : String}
    {size : Option TypeSize} (hcore : t.core = .basic base size) :
    ∀ c ∈ chars t.core, c.isAlphanum = true := by
  have hbase := isWellFormed_core t ht
  rw [hcore] at hbase ⊢
  exact fun c hc => isAlphanum_of_mem_basic hbase.2.1 hc

/-- A base name opens with a letter, and a tuple with a parenthesis. -/
theorem isAlphanum_of_head?_chars {t : AbiType} (ht : IsWellFormed t) {base : String}
    {size : Option TypeSize} (hcore : t.core = .basic base size) {c : Char}
    (h : (chars t).head? = some c) : c.isAlphanum = true := by
  rw [chars_eq_core, List.head?_append_of_ne_nil _ (chars_ne_nil _ (isWellFormed_core t ht))] at h
  exact isAlphanum_of_mem_core ht hcore c (List.mem_of_mem_head? h)

theorem head?_chars_of_core {t : AbiType} {components : List AbiType}
    (hcore : t.core = .tuple components) : (chars t).head? = some '(' := by
  rw [chars_of_core hcore]
  rfl

/-- Behind a base name with its size stands no letter or digit. -/
theorem isAlphanum_of_head?_rest {u : AbiType} (hword : ∀ c ∈ chars u.core, c.isAlphanum = true)
    {rest : List Char} (hend : (∃ c, rest.head? = some c ∧ c.isAlphanum = false) ∨
      ∃ c, (chars u).getLast? = some c ∧ c.isAlphanum = false) :
    ∀ c, (bracketChars u.lengths ++ rest).head? = some c → c.isAlphanum = false := by
  intro c hc
  rcases head?_bracketChars_append hc with rfl | hrest
  · decide
  · rcases hend with ⟨d, hd, hnot⟩ | ⟨d, hd, hnot⟩
    · cases hrest.symm.trans hd
      exact hnot
    · -- the last character of the type is a bracket, and so is the first behind the name
      cases hlengths : u.lengths with
      | nil =>
        rw [chars_eq_core, hlengths, show bracketChars [] = [] from rfl, List.append_nil] at hd
        exact absurd (hword d (List.mem_of_getLast? hd)) (by rw [hnot]; exact Bool.false_ne_true)
      | cons length lengths =>
        rw [hlengths] at hc
        cases length <;> cases hc <;> decide

/-- **A type that goes on after another one, behind a mark, has further arrays around it.** -/
theorem exists_lost {t u : AbiType} (ht : IsWellFormed t) (hu : IsWellFormed u) {rest : List Char}
    (h : chars t = chars u ++ rest)
    (hend : (∃ c, rest.head? = some c ∧ c.isAlphanum = false) ∨
      ∃ c, (chars u).getLast? = some c ∧ c.isAlphanum = false) :
    ∃ lost, t.core = u.core ∧ t.lengths = u.lengths ++ lost ∧ rest = bracketChars lost := by
  have htcore := isWellFormed_core t ht
  have hucore := isWellFormed_core u hu
  have hopens : (chars t).head? = (chars u).head? := by
    rw [h, List.head?_append_of_ne_nil _ (chars_ne_nil u hu)]
  have hcores : chars t.core = chars u.core ∧ bracketChars t.lengths = bracketChars u.lengths ++ rest := by
    rw [chars_eq_core t, chars_eq_core u, List.append_assoc] at h
    rcases core_cases t with ⟨base, size, htbase⟩ | ⟨components, httuple⟩ <;>
      rcases core_cases u with ⟨base', size', hubase⟩ | ⟨components', hutuple⟩
    · -- a base name ends where its letters and digits end
      have htword := isAlphanum_of_mem_core ht htbase
      have huword := isAlphanum_of_mem_core hu hubase
      have hstop : IsStop [] := fun c hc => absurd hc (by simp)
      have htafter : ∀ c, (bracketChars t.lengths).head? = some c → c.isAlphanum = false :=
        fun c hc => not_isAlphanum_of_head? hstop (by rwa [List.append_nil])
      have htparts := takeWhile_dropWhile_append htword htafter
      have huparts := takeWhile_dropWhile_append huword (isAlphanum_of_head?_rest huword hend)
      rw [h] at htparts
      exact ⟨htparts.1.symm.trans huparts.1, htparts.2.symm.trans huparts.2⟩
    · have hhead := isAlphanum_of_head?_chars ht htbase (hopens.trans (head?_chars_of_core hutuple))
      exact absurd hhead (by decide)
    · have hhead := isAlphanum_of_head?_chars hu hubase (hopens.symm.trans (head?_chars_of_core httuple))
      exact absurd hhead (by decide)
    · -- a tuple ends where its parenthesis closes
      rw [httuple] at htcore
      rw [hutuple] at hucore
      rw [httuple, hutuple, chars, chars, List.append_assoc, List.append_assoc,
        List.singleton_append, List.singleton_append] at h
      obtain ⟨hinner, hrest⟩ := parentheses_ext (isPassed_joined htcore.2) (isPassed_joined hucore.2) h
      rw [httuple, hutuple, chars, chars, hinner]
      exact ⟨rfl, hrest⟩
  obtain ⟨lost, hlengths, hrest⟩ := exists_bracketChars (isPositiveLength_of_mem_lengths u hu)
    (isPositiveLength_of_mem_lengths t ht) hcores.2
  exact ⟨lost, eq_of_chars_eq htcore hucore hcores.1, hlengths, hrest⟩

/-! ## Rebuilt tuples -/

/-- A type that is written as a tuple of given types with a word behind it is that tuple in arrays. -/
theorem core_of_chars_eq {t : AbiType} (ht : IsWellFormed t) {components : List AbiType}
    (hcomponents : AreWellFormed components) {suffix : List Char}
    (h : chars t = '(' :: joined (charsList components) ++ ')' :: suffix) :
    t.core = .tuple components ∧ suffix = bracketChars t.lengths := by
  obtain ⟨own, hcore, hchars⟩ := chars_eq_of_head? ht (by rw [h]; rfl)
  have hwf := isWellFormed_core t ht
  rw [hcore] at hwf
  obtain ⟨hinner, hsuffix⟩ := parentheses_ext (isPassed_joined hcomponents) (isPassed_joined hwf.2)
    (h.symm.trans hchars)
  refine ⟨?_, hsuffix⟩
  have hne : components ≠ [] := by
    rintro rfl
    obtain ⟨first, more, rfl⟩ := List.exists_cons_of_ne_nil hwf.1
    rw [joined_charsList_cons] at hinner
    exact chars_ne_nil first hwf.2.1 (List.append_eq_nil_iff.mp hinner.symm).1
  have htuple : IsWellFormed (.tuple components) := ⟨hne, hcomponents⟩
  rw [hcore]
  exact eq_of_chars_eq hwf htuple (by rw [chars, chars, hinner])

/-! ## Losing arrays -/

/-- The second type is what can be left of the first: the outer arrays are lost, or components of a tuple
    have lost something, or only the word in front of a tuple is left. -/
inductive Loses : AbiType → AbiType → Prop where
  | arrays (t : AbiType) (lost : List (Option Nat)) : Loses (arraysOf t lost) t
  | tuple {components components' : List AbiType} (kept lost : List (Option Nat))
      (h : List.Forall₂ Loses components components') :
      Loses (arraysOf (.tuple components) (kept ++ lost)) (arraysOf (.tuple components') kept)
  | word (components : List AbiType) (lost : List (Option Nat)) :
      Loses (arraysOf (.tuple components) lost) (.basic "tuple" none)

theorem Loses.refl (t : AbiType) : Loses t t := .arrays t []

theorem arraysOf_append (t : AbiType) (kept lost : List (Option Nat)) :
    arraysOf t (kept ++ lost) = arraysOf (arraysOf t kept) lost := List.foldl_append

theorem head?_bracketChars {lengths : List (Option Nat)} (h : lengths ≠ []) :
    (bracketChars lengths).head? = some '[' := by
  cases lengths with
  | nil => exact absurd rfl h
  | cons length lengths => cases length <;> rfl

end AbiType

end Proposals.Abi
