import Proposals.Text.Blank
import Proposals.Text.Identifier
import Proposals.Proofs.Text.Hex
import Mathlib.Data.List.DropRight

/-!
# `Proofs.Text.Blank` — texts without blanks

Names and canonical types hold no blanks, so stripping leaves them alone and they are words of their
own. The blanks outside ASCII are few: a fact about all of them is checked point by point
(`mem_farBlanks`), which is how names are kept apart from blanks.
-/

namespace Proposals.Text

/-- The text has no blanks. -/
def IsSolid (cs : List Char) : Prop := ∀ c ∈ cs, isBlank c = false

theorem isSolid_of_all {cs : List Char} (h : cs.all (!isBlank ·) = true) : IsSolid cs :=
  fun c hc => by simpa using List.all_eq_true.mp h c hc

theorem IsSolid.append {v w : List Char} (hv : IsSolid v) (hw : IsSolid w) : IsSolid (v ++ w) :=
  List.forall_mem_append.mpr ⟨hv, hw⟩

/-! ## Stripping -/

/-- The text consists of blanks. -/
def IsGap (cs : List Char) : Prop := ∀ c ∈ cs, isBlank c = true

/-- The text is not empty, and neither opens nor ends with a blank. -/
structure IsTrimmed (cs : List Char) : Prop where
  nonempty : cs ≠ []
  opens : ∀ c, cs.head? = some c → isBlank c = false
  ends : ∀ c, cs.getLast? = some c → isBlank c = false

theorem IsSolid.isTrimmed {cs : List Char} (h : IsSolid cs) (hne : cs ≠ []) : IsTrimmed cs where
  nonempty := hne
  opens := fun c hc => h c (List.mem_of_mem_head? hc)
  ends := fun c hc => h c (List.mem_of_getLast? hc)

theorem isTrimmed_singleton {c : Char} (h : isBlank c = false) : IsTrimmed [c] :=
  IsSolid.isTrimmed (List.forall_mem_singleton.mpr h) (List.cons_ne_nil c [])

/-- What stands between two trimmed texts is out of reach of stripping. -/
theorem IsTrimmed.append {v w : List Char} (hv : IsTrimmed v) (hw : IsTrimmed w)
    (middle : List Char) : IsTrimmed (v ++ middle ++ w) where
  nonempty := List.append_ne_nil_of_right_ne_nil _ hw.nonempty
  opens := fun c hc => by
    rw [List.append_assoc, List.head?_append_of_ne_nil _ hv.nonempty] at hc
    exact hv.opens c hc
  ends := fun c hc => by
    rw [List.getLast?_append_of_ne_nil _ hw.nonempty] at hc
    exact hw.ends c hc

theorem IsTrimmed.exists_visible {cs : List Char} (h : IsTrimmed cs) :
    ∃ c ∈ cs, isBlank c = false := by
  obtain ⟨c, rest, rfl⟩ := List.exists_cons_of_ne_nil h.nonempty
  exact ⟨c, by simp, h.opens c rfl⟩

theorem stripRight_eq_rdropWhile (cs : List Char) : stripRight cs = cs.rdropWhile isBlank := rfl

theorem stripRight_isPrefix (cs : List Char) : stripRight cs <+: cs :=
  List.rdropWhile_prefix isBlank cs

theorem stripRight_eq_nil {cs : List Char} (h : IsGap cs) : stripRight cs = [] :=
  List.rdropWhile_eq_nil_iff.mpr h

theorem stripLeft_eq_self {cs : List Char} (h : ∀ c, cs.head? = some c → isBlank c = false) :
    stripLeft cs = cs := by
  cases cs with
  | nil => rfl
  | cons c cs =>
    unfold stripLeft
    rw [List.dropWhile_cons, h c rfl]
    rfl

/-- Stripping on the right stops at a trimmed text. -/
theorem IsTrimmed.stripRight_append {core : List Char} (h : IsTrimmed core) (behind : List Char) :
    stripRight (core ++ behind) = core ++ stripRight behind := by
  have hcore : core.reverse.dropWhile isBlank = core.reverse := stripLeft_eq_self fun c hc => by
    rw [List.head?_reverse] at hc
    exact h.ends c hc
  unfold stripRight
  rw [List.reverse_append, List.dropWhile_append, hcore]
  split
  · next hempty =>
    rw [List.isEmpty_iff.mp hempty, List.reverse_reverse, List.reverse_nil, List.append_nil]
  · rw [List.reverse_append, List.reverse_reverse]

/-- **Blanks before and behind a trimmed text are stripped.** -/
theorem IsTrimmed.strip_append {core : List Char} (h : IsTrimmed core) {before : List Char}
    (hbefore : IsGap before) (behind : List Char) :
    strip (before ++ core ++ behind) = core ++ stripRight behind := by
  have hleft : stripLeft (before ++ (core ++ behind)) = core ++ behind := by
    unfold stripLeft
    rw [List.dropWhile_append_of_pos hbefore]
    refine stripLeft_eq_self fun c hc => h.opens c ?_
    rwa [List.head?_append_of_ne_nil _ h.nonempty] at hc
  unfold strip
  rw [List.append_assoc, hleft, h.stripRight_append]

theorem IsTrimmed.strip_eq_self {cs : List Char} (h : IsTrimmed cs) : strip cs = cs := by
  have hstrip := h.strip_append (List.forall_mem_nil _) []
  rwa [List.nil_append, List.append_nil, stripRight_eq_nil (List.forall_mem_nil _),
    List.append_nil] at hstrip

theorem IsSolid.strip_eq_self {cs : List Char} (h : IsSolid cs) : strip cs = cs := by
  by_cases hne : cs = []
  · rw [hne]; rfl
  · exact (h.isTrimmed hne).strip_eq_self

theorem not_isBlank_of_stripLeft {cs : List Char} {c : Char} (h : (stripLeft cs).head? = some c) :
    isBlank c = false := by
  have hhead := List.head?_dropWhile_not isBlank cs
  rwa [show cs.dropWhile isBlank = stripLeft cs from rfl, h] at hhead

/-- A stripped text does not open with a blank. -/
theorem not_isBlank_of_head?_strip {cs : List Char} {c : Char} (h : (strip cs).head? = some c) :
    isBlank c = false := by
  -- stripping on the right keeps the first character, if any is left
  obtain ⟨tail, htail⟩ := stripRight_isPrefix (stripLeft cs)
  refine @not_isBlank_of_stripLeft cs c ?_
  rw [← htail, List.head?_append, show stripRight (stripLeft cs) = strip cs from rfl, h]
  rfl

/-- Nothing is left to strip of a stripped text. -/
theorem strip_strip (cs : List Char) : strip (strip cs) = strip cs := by
  have hleft : stripLeft (strip cs) = strip cs :=
    stripLeft_eq_self fun c hc => not_isBlank_of_head?_strip hc
  rw [strip, hleft, strip, stripRight_eq_rdropWhile, stripRight_eq_rdropWhile, List.rdropWhile_idempotent]

/-! ## Words -/

/-- A text without blanks goes in front of the first word. -/
theorem IsSolid.splitWords_append {w : List Char} (h : IsSolid w) (behind : List Char) :
    splitWords (w ++ behind) = (w ++ (splitWords behind).1, (splitWords behind).2) := by
  induction w with
  | nil => rfl
  | cons c w ih =>
    have hc : isBlank c = false := h c (by simp)
    have hrest := ih fun d hd => h d (by simp [hd])
    show (if isBlank c then _ else
      (c :: (splitWords (w ++ behind)).1, (splitWords (w ++ behind)).2)) = _
    rw [hc, hrest]
    rfl

/-- **A text without blanks is a word**, and what stands behind it after a blank are the others. -/
theorem IsSolid.words_append {w : List Char} (h : IsSolid w) (hne : w ≠ []) {behind : List Char}
    (hbehind : ∀ c, behind.head? = some c → isBlank c = true) :
    words (w ++ behind) = w :: words behind := by
  obtain ⟨others, hothers⟩ : ∃ others, splitWords behind = ([], others) := by
    cases behind with
    | nil => exact ⟨[], rfl⟩
    | cons c behind =>
      rw [splitWords, hbehind c rfl]
      exact ⟨_, rfl⟩
  unfold words
  rw [h.splitWords_append, hothers, List.append_nil]
  cases w with
  | nil => exact absurd rfl hne
  | cons c w => rfl

/-- A nonempty text without blanks is one word. -/
theorem IsSolid.words_eq {cs : List Char} (h : IsSolid cs) (hne : cs ≠ []) : words cs = [cs] := by
  have hwords : words (cs ++ []) = cs :: words [] := h.words_append hne fun c hc => absurd hc (by simp)
  rwa [List.append_nil] at hwords

/-! ## Names -/

/-- The code points of the blanks outside ASCII. -/
def farBlanks : List Nat :=
  [0x85, 0xa0, 0x1680, 0x2000, 0x2001, 0x2002, 0x2003, 0x2004, 0x2005, 0x2006, 0x2007, 0x2008,
    0x2009, 0x200a, 0x2028, 0x2029, 0x202f, 0x205f, 0x3000]

theorem mem_farBlanks {c : Char} (h : isBlank c = true) (hc : 128 ≤ c.toNat) :
    c.toNat ∈ farBlanks := by
  simp only [isBlank, Bool.or_eq_true, Bool.and_eq_true, decide_eq_true_eq, beq_iff_eq] at h
  simp only [farBlanks, List.mem_cons, List.not_mem_nil, or_false]
  omega

theorem isBlank_of_isNameContinue {c : Char} (h : isNameContinue c = true) : isBlank c = false := by
  by_cases hc : c.toNat < 128
  · exact of_toNat_lt_128 (p := fun c => isNameContinue c = true → isBlank c = false)
      (by decide +kernel) hc h
  · cases hblank : isBlank c with
    | false => rfl
    | true =>
      have hpoint := mem_farBlanks hblank (by omega)
      have hnone : ∀ n ∈ farBlanks, inRanges continueRanges n = false := by decide +kernel
      rw [isNameContinue, if_neg hc, hnone _ hpoint] at h
      exact absurd h (by simp)

theorem isBlank_of_isNameStart {c : Char} (h : isNameStart c = true) : isBlank c = false := by
  by_cases hc : c.toNat < 128
  · exact of_toNat_lt_128 (p := fun c => isNameStart c = true → isBlank c = false)
      (by decide +kernel) hc h
  · cases hblank : isBlank c with
    | false => rfl
    | true =>
      have hpoint := mem_farBlanks hblank (by omega)
      have hnone : ∀ n ∈ farBlanks, inRanges startRanges n = false := by decide +kernel
      rw [isNameStart, if_neg hc, hnone _ hpoint] at h
      exact absurd h (by simp)

/-- A name has no blanks. -/
theorem isSolid_of_isIdentifier {name : List Char} (h : isIdentifier name = true) :
    IsSolid name := by
  cases name with
  | nil => exact absurd h (by simp [isIdentifier])
  | cons c name =>
    rw [isIdentifier, Bool.and_eq_true, List.all_eq_true] at h
    intro d hd
    rcases List.mem_cons.mp hd with rfl | hd
    · exact isBlank_of_isNameStart h.1
    · exact isBlank_of_isNameContinue (h.2 d hd)

/-- A name has no opening parenthesis. -/
theorem ne_parenthesis_of_isIdentifier {name : List Char} (h : isIdentifier name = true) {c : Char}
    (hc : c ∈ name) : c ≠ '(' := by
  rintro rfl
  cases name with
  | nil => exact absurd hc (by simp)
  | cons d name =>
    rw [isIdentifier, Bool.and_eq_true, List.all_eq_true] at h
    rcases List.mem_cons.mp hc with rfl | hc
    · exact absurd h.1 (by decide)
    · exact absurd (h.2 _ hc) (by decide)

end Proposals.Text
