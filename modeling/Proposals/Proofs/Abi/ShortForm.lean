import Proposals.Abi.Coder
import Proposals.Proofs.Abi.Piece
import Proposals.Proofs.Outcome

/-!
# `Proofs.Abi.ShortForm` — short forms of types

Some types may be written shorter, as `uint` for `uint256`. Short forms are tracked through the words of a
text (`wordsFrom`), which split at every character that belongs to no word; replacing them replaces word
by word, so it goes through parentheses, commas and brackets (`expandAliases_tuple`).

The written form of a type that has a layout has only one word that is short for another: a function
value is twenty-four bytes. Replacing it makes the written form of a type with the same layout
(`chars_full`).
-/

namespace Proposals.Abi

open Proposals.Text Proposals.Number Proposals.Outcome AbiType

/-! ## Words and short forms -/

/-- The words of the text behind the word under way, empty ones included. -/
def wordsFrom (word : List Char) : List Char → List (List Char)
  | [] => [word]
  | c :: cs => if isWordChar c then wordsFrom (word ++ [c]) cs else word :: wordsFrom [] cs

/-- No word of the text is short for another. -/
def HasNoShortForm (cs : List Char) : Prop := ∀ w ∈ wordsFrom [] cs, expandWord w = w

theorem wordsFrom_append_of_isWordChar {w : List Char} (hw : ∀ c ∈ w, isWordChar c = true)
    (word rest : List Char) : wordsFrom word (w ++ rest) = wordsFrom (word ++ w) rest := by
  induction w generalizing word with
  | nil => rw [List.nil_append, List.append_nil]
  | cons c w ih =>
    have hc : isWordChar c = true := hw c (by simp)
    rw [List.cons_append, wordsFrom, if_pos hc, ih fun d hd => hw d (by simp [hd]),
      List.append_assoc, List.singleton_append]

/-- The words of a text fall apart at a character that belongs to none. -/
theorem wordsFrom_append {c : Char} (hc : isWordChar c = false) (word cs rest : List Char) :
    wordsFrom word (cs ++ c :: rest) = wordsFrom word cs ++ wordsFrom [] rest := by
  induction cs generalizing word with
  | nil =>
    have hnot : ¬ isWordChar c = true := by rw [hc]; exact Bool.false_ne_true
    show (if isWordChar c then _ else _) = _
    rw [if_neg hnot]; rfl
  | cons d cs ih =>
    by_cases hd : isWordChar d = true
    · rw [List.cons_append, wordsFrom, if_pos hd, ih, wordsFrom, if_pos hd]
    · rw [List.cons_append, wordsFrom, if_neg hd, ih, wordsFrom, if_neg hd]; rfl

theorem hasNoShortForm_append {c : Char} (hc : isWordChar c = false) {cs rest : List Char} :
    HasNoShortForm (cs ++ c :: rest) ↔ HasNoShortForm cs ∧ HasNoShortForm rest := by
  unfold HasNoShortForm
  rw [wordsFrom_append hc]
  exact List.forall_mem_append

/-- A word is short for a full word that is short for nothing. -/
theorem expandWord_cases (w : List Char) :
    expandWord w = w ∨
      (∀ c ∈ expandWord w, isWordChar c = true) ∧ expandWord (expandWord w) = expandWord w := by
  unfold expandWord
  split
  · next short full h =>
    right
    have hmem := List.mem_of_find?_eq_some h
    have hall : ∀ entry ∈ aliases, entry.2.toList.all isWordChar = true ∧
        expandWord entry.2.toList = entry.2.toList := by decide
    exact (hall _ hmem).imp_left List.all_eq_true.mp
  · exact .inl rfl

/-- **Replacing short forms replaces each word by itself.** -/
theorem wordsFrom_expandFrom {word : List Char} (hword : ∀ c ∈ word, isWordChar c = true)
    (cs : List Char) : wordsFrom [] (expandFrom word cs) = (wordsFrom word cs).map expandWord := by
  have hexpanded : ∀ {w : List Char}, (∀ c ∈ w, isWordChar c = true) →
      ∀ c ∈ expandWord w, isWordChar c = true := fun {w} hw => by
    rcases expandWord_cases w with h | h
    · rw [h]; exact hw
    · exact h.1
  induction cs generalizing word with
  | nil =>
    have h := wordsFrom_append_of_isWordChar (hexpanded hword) [] []
    rw [List.append_nil, List.nil_append] at h
    exact h
  | cons c cs ih =>
    by_cases hc : isWordChar c = true
    · rw [expandFrom, if_pos hc, wordsFrom, if_pos hc]
      refine ih fun d hd => ?_
      rcases List.mem_append.mp hd with hd | hd
      · exact hword d hd
      · rw [List.mem_singleton.mp hd]; exact hc
    · have hsplit := wordsFrom_append_of_isWordChar (hexpanded hword) [] []
      rw [List.append_nil, List.nil_append] at hsplit
      rw [expandFrom, if_neg hc, wordsFrom, if_neg hc, wordsFrom_append (by simpa using hc), hsplit,
        ih fun d hd => absurd hd (by simp)]
      rfl

/-- What replacing short forms makes has none. -/
theorem hasNoShortForm_expandAliases (cs : List Char) : HasNoShortForm (expandAliases cs) := by
  intro w hw
  unfold expandAliases at hw
  rw [wordsFrom_expandFrom (fun _ h => absurd h (by simp))] at hw
  obtain ⟨v, -, rfl⟩ := List.mem_map.mp hw
  rcases expandWord_cases v with h | h
  · rw [h, h]
  · exact h.2

theorem expandFrom_eq_self {word cs : List Char} (h : ∀ w ∈ wordsFrom word cs, expandWord w = w) :
    expandFrom word cs = word ++ cs := by
  induction cs generalizing word with
  | nil =>
    rw [List.append_nil]
    exact h word (by simp [wordsFrom])
  | cons c cs ih =>
    by_cases hc : isWordChar c = true
    · rw [wordsFrom, if_pos hc] at h
      rw [expandFrom, if_pos hc, ih h, List.append_assoc, List.singleton_append]
    · rw [wordsFrom, if_neg hc] at h
      rw [expandFrom, if_neg hc, h word (by simp), ih fun w hw => h w (by simp [hw]), List.nil_append]

/-- A text without short forms stays as it is. -/
theorem HasNoShortForm.expandAliases_eq_self {cs : List Char} (h : HasNoShortForm cs) :
    expandAliases cs = cs := expandFrom_eq_self h

theorem hasNoShortForm_nil : HasNoShortForm [] := fun w hw => by
  rw [List.mem_singleton.mp hw]; decide

theorem hasNoShortForm_joined {pieces : List (List Char)} :
    HasNoShortForm (joined pieces) ↔ ∀ p ∈ pieces, HasNoShortForm p := by
  induction pieces with
  | nil => exact ⟨fun _ _ h => absurd h (by simp), fun _ => hasNoShortForm_nil⟩
  | cons p pieces ih =>
    cases pieces with
    | nil => exact List.forall_mem_singleton.symm
    | cons q pieces =>
      show HasNoShortForm (p ++ ',' :: joined (q :: pieces)) ↔ _
      rw [hasNoShortForm_append (by decide), ih, List.forall_mem_cons (a := p)]

/-! ## The layers of a type -/

namespace AbiType

/-- The type inside all arrays. -/
def core : AbiType → AbiType
  | .array item _ => core item
  | t => t

/-- The lengths of the arrays around a type, the innermost first. -/
def lengths : AbiType → List (Option Nat)
  | .array item length => lengths item ++ [length]
  | _ => []

theorem bracketChars_array (item : AbiType) (length : Option Nat) :
    bracketChars (array item length).lengths = bracketChars item.lengths ++ lengthChars length := by
  rw [lengths, bracketChars, bracketChars, List.flatMap_append, List.flatMap_singleton]

theorem chars_eq_core : (t : AbiType) → chars t = chars t.core ++ bracketChars t.lengths
  | .basic _ _ => (List.append_nil _).symm
  | .tuple _ => (List.append_nil _).symm
  | .array item length => by
    rw [chars, bracketChars_array, core, chars_eq_core item, List.append_assoc]

/-- The written form of a tuple in arrays: the components in parentheses, and brackets behind them. -/
theorem chars_of_core {t : AbiType} {components : List AbiType} (h : t.core = .tuple components) :
    chars t = '(' :: joined (charsList components) ++ ')' :: bracketChars t.lengths := by
  rw [chars_eq_core t, h, chars, List.append_assoc, List.singleton_append]

theorem isWellFormed_core (t : AbiType) (h : IsWellFormed t) : IsWellFormed t.core := by
  cases t with
  | basic base size => exact h
  | tuple components => exact h
  | array item length => exact isWellFormed_core item h.1

theorem isValid_core : (t : AbiType) → t.core.isValid = t.isValid
  | .basic _ _ => rfl
  | .tuple _ => rfl
  | .array item _ => isValid_core item

theorem isSome_ofType?_core : (t : AbiType) →
    (Coder.ofType? t.core).isSome = (Coder.ofType? t).isSome
  | .basic _ _ => rfl
  | .tuple _ => rfl
  | .array item _ => by
    rw [Coder.ofType?, Option.isSome_map]
    exact isSome_ofType?_core item

theorem core_cases : (t : AbiType) →
    (∃ base size, t.core = .basic base size) ∨ ∃ components, t.core = .tuple components
  | .basic base size => .inl ⟨base, size, rfl⟩
  | .tuple components => .inr ⟨components, rfl⟩
  | .array item _ => core_cases item

end AbiType

/-- The type has a layout, so that arguments can be encoded by it. -/
def HasCoder (t : AbiType) : Prop := ∃ c, Coder.ofType? t = some c

theorem hasCoder_iff_isSome {t : AbiType} : HasCoder t ↔ (Coder.ofType? t).isSome = true :=
  Option.isSome_iff_exists.symm

theorem hasCoder_core {t : AbiType} : HasCoder t.core ↔ HasCoder t := by
  rw [hasCoder_iff_isSome, hasCoder_iff_isSome, isSome_ofType?_core]

theorem hasCoder_of_mem {t : AbiType} {ts : List AbiType} {cs : List Coder}
    (h : Coder.ofTypes? ts = some cs) (ht : t ∈ ts) : HasCoder t := by
  induction ts generalizing cs with
  | nil => exact absurd ht (by simp)
  | cons u ts ih =>
    simp only [Coder.ofTypes?, Option.bind_eq_bind, Option.bind_eq_some_iff] at h
    obtain ⟨c, hc, more, hmore, -⟩ := h
    rcases List.mem_cons.mp ht with rfl | ht
    · exact ⟨c, hc⟩
    · exact ih hmore ht

/-! ## Texts without short forms -/

/-- A number is no short form. -/
theorem expandWord_natText (n : Nat) : expandWord (natText n) = natText n := by
  have hnone : aliases.find? (·.1 == String.ofList (natText n)) = none := by
    rw [List.find?_eq_none]
    intro entry hentry heq
    have hletter : ∀ entry ∈ aliases, entry.1.toList.all isAsciiDigit = false := by decide
    rw [beq_iff_eq] at heq
    have hdigits : entry.1.toList.all isAsciiDigit = true := by
      rw [heq, String.toList_ofList, List.all_eq_true]
      exact fun c hc => isAsciiDigit_of_mem_natText hc
    rw [hletter entry hentry] at hdigits
    exact absurd hdigits (by simp)
  unfold expandWord
  rw [hnone]

theorem isWordChar_of_isAlphanum {c : Char} (h : c.isAlphanum = true) : isWordChar c = true := by
  rw [isWordChar, h, Bool.true_or]

theorem hasNoShortForm_natText (n : Nat) : HasNoShortForm (natText n) := by
  have hword := wordsFrom_append_of_isWordChar
    (fun c (hc : c ∈ natText n) => isWordChar_of_isAlphanum (isAlphanum_of_mem_natText hc)) [] []
  rw [List.append_nil, List.nil_append] at hword
  intro w hw
  rw [hword] at hw
  rw [List.mem_singleton.mp hw, expandWord_natText]

theorem hasNoShortForm_bracketChars (lengths : List (Option Nat)) :
    HasNoShortForm (bracketChars lengths) := by
  induction lengths with
  | nil => exact hasNoShortForm_nil
  | cons length lengths ih =>
    cases length with
    | none =>
      have h : HasNoShortForm ([] ++ '[' :: ([] ++ ']' :: bracketChars lengths)) :=
        (hasNoShortForm_append (by decide)).mpr ⟨hasNoShortForm_nil,
          (hasNoShortForm_append (by decide)).mpr ⟨hasNoShortForm_nil, ih⟩⟩
      exact h
    | some n =>
      have h : HasNoShortForm ([] ++ '[' :: (natText n ++ ']' :: bracketChars lengths)) :=
        (hasNoShortForm_append (by decide)).mpr ⟨hasNoShortForm_nil,
          (hasNoShortForm_append (by decide)).mpr ⟨hasNoShortForm_natText n, ih⟩⟩
      have htext : bracketChars (some n :: lengths) =
          [] ++ '[' :: (natText n ++ ']' :: bracketChars lengths) := by
        show '[' :: natText n ++ [']'] ++ bracketChars lengths = _
        rw [List.append_assoc]; rfl
      rw [htext]; exact h

/-- In parentheses with brackets behind them, only the pieces can be short forms. -/
theorem hasNoShortForm_tuple {pieces : List (List Char)} (lengths : List (Option Nat)) :
    HasNoShortForm ('(' :: joined pieces ++ ')' :: bracketChars lengths) ↔
      ∀ p ∈ pieces, HasNoShortForm p := by
  have hopened : '(' :: joined pieces ++ ')' :: bracketChars lengths =
      [] ++ '(' :: (joined pieces ++ ')' :: bracketChars lengths) := rfl
  rw [hopened, hasNoShortForm_append (by decide), hasNoShortForm_append (by decide),
    hasNoShortForm_joined]
  constructor
  · intro h
    exact h.2.1
  · intro h
    exact ⟨hasNoShortForm_nil, h, hasNoShortForm_bracketChars lengths⟩

/-! ## Replacing short forms -/

/-- Replacing short forms goes through a character that belongs to no word. -/
theorem expandFrom_append {c : Char} (hc : isWordChar c = false) (word cs rest : List Char) :
    expandFrom word (cs ++ c :: rest) = expandFrom word cs ++ c :: expandAliases rest := by
  induction cs generalizing word with
  | nil =>
    have hnot : ¬ isWordChar c = true := by rw [hc]; exact Bool.false_ne_true
    show (if isWordChar c then _ else _) = _
    rw [if_neg hnot]; rfl
  | cons d cs ih =>
    by_cases hd : isWordChar d = true
    · rw [List.cons_append, expandFrom, if_pos hd, ih, expandFrom, if_pos hd]
    · rw [List.cons_append, expandFrom, if_neg hd, ih, expandFrom, if_neg hd, List.append_assoc]; rfl

theorem expandAliases_append {c : Char} (hc : isWordChar c = false) (cs rest : List Char) :
    expandAliases (cs ++ c :: rest) = expandAliases cs ++ c :: expandAliases rest :=
  expandFrom_append hc [] cs rest

/-- A single word is replaced as a whole. -/
theorem expandFrom_of_isWordChar {w : List Char} (hw : ∀ c ∈ w, isWordChar c = true)
    (word : List Char) : expandFrom word w = expandWord (word ++ w) := by
  induction w generalizing word with
  | nil => rw [List.append_nil]; rfl
  | cons c w ih =>
    rw [expandFrom, if_pos (hw c (by simp)), ih fun d hd => hw d (by simp [hd]), List.append_assoc,
      List.singleton_append]

theorem expandAliases_of_isAlphanum {w : List Char} (hw : ∀ c ∈ w, c.isAlphanum = true) :
    expandAliases w = expandWord w := by
  rw [expandAliases, expandFrom_of_isWordChar fun c hc => isWordChar_of_isAlphanum (hw c hc),
    List.nil_append]

theorem expandAliases_joined (pieces : List (List Char)) :
    expandAliases (joined pieces) = joined (pieces.map expandAliases) := by
  induction pieces with
  | nil => exact hasNoShortForm_nil.expandAliases_eq_self
  | cons p pieces ih =>
    cases pieces with
    | nil => rfl
    | cons q pieces =>
      show expandAliases (p ++ ',' :: joined (q :: pieces)) = _
      rw [expandAliases_append (by decide), ih]
      rfl

/-- The brackets behind a type stay. -/
theorem expandAliases_bracketChars (cs : List Char) (lengths : List (Option Nat)) :
    expandAliases (cs ++ bracketChars lengths) = expandAliases cs ++ bracketChars lengths := by
  have hbrackets := hasNoShortForm_bracketChars lengths
  cases lengths with
  | nil => rw [show bracketChars [] = [] from rfl, List.append_nil, List.append_nil]
  | cons length lengths =>
    obtain ⟨rest, hrest⟩ : ∃ rest, bracketChars (length :: lengths) = '[' :: rest := by
      cases length <;> exact ⟨_, rfl⟩
    have hfree : HasNoShortForm ([] ++ '[' :: rest) := hrest ▸ hbrackets
    rw [hrest, expandAliases_append (by decide),
      ((hasNoShortForm_append (by decide)).mp hfree).2.expandAliases_eq_self]

/-- In parentheses with brackets behind them, the pieces are replaced one by one. -/
theorem expandAliases_tuple (pieces : List (List Char)) (lengths : List (Option Nat)) :
    expandAliases ('(' :: joined pieces ++ ')' :: bracketChars lengths) =
      '(' :: joined (pieces.map expandAliases) ++ ')' :: bracketChars lengths := by
  have hopened : '(' :: joined pieces ++ ')' :: bracketChars lengths =
      [] ++ '(' :: (joined pieces ++ ')' :: bracketChars lengths) := rfl
  rw [hopened, expandAliases_append (by decide), expandAliases_append (by decide),
    expandAliases_joined, (hasNoShortForm_bracketChars lengths).expandAliases_eq_self,
    hasNoShortForm_nil.expandAliases_eq_self]
  rfl

/-! ## Full types -/

namespace AbiType

mutual
/-- The type with twenty-four bytes for every function value. -/
def full : AbiType → AbiType
  | .basic base size =>
    if base = "function" ∧ size = none then .basic "bytes" (some (.plain 24)) else .basic base size
  | .tuple components => .tuple (fullAll components)
  | .array item length => .array (full item) length

/-- The same for several types. -/
def fullAll : List AbiType → List AbiType
  | [] => []
  | t :: rest => full t :: fullAll rest
end

mutual
/-- A full type has the same layout. -/
theorem ofType?_full : (t : AbiType) → Coder.ofType? (full t) = Coder.ofType? t
  | .basic base size => by
    rw [full]
    split
    · next h => rw [h.1, h.2]; rfl
    · rfl
  | .tuple components => by rw [full, Coder.ofType?, Coder.ofType?, ofTypes?_fullAll components]
  | .array item length => by rw [full, Coder.ofType?, Coder.ofType?, ofType?_full item]

/-- The same for several types. -/
theorem ofTypes?_fullAll : (ts : List AbiType) → Coder.ofTypes? (fullAll ts) = Coder.ofTypes? ts
  | [] => rfl
  | t :: ts => by rw [fullAll, Coder.ofTypes?, Coder.ofTypes?, ofType?_full t, ofTypes?_fullAll ts]
end

mutual
theorem isWellFormed_full : (t : AbiType) → IsWellFormed t → IsWellFormed (full t)
  | .basic base size, ht => by
    rw [full]
    split
    · have hletters : "bytes".toList.all Char.isAlpha = true := by decide
      exact ⟨by decide, List.all_eq_true.mp hletters, Nat.succ_pos 23⟩
    · exact ht
  | .tuple components, ht => by
    rw [full]
    refine ⟨?_, areWellFormed_fullAll components ht.2⟩
    cases components with
    | nil => exact absurd rfl ht.1
    | cons t ts => exact List.cons_ne_nil _ _
  | .array item length, ht => by
    rw [full]
    exact ⟨isWellFormed_full item ht.1, ht.2⟩

theorem areWellFormed_fullAll : (ts : List AbiType) → AreWellFormed ts → AreWellFormed (fullAll ts)
  | [], _ => trivial
  | t :: ts, ht => ⟨isWellFormed_full t ht.1, areWellFormed_fullAll ts ht.2⟩
end

mutual
theorem isValid_full : (t : AbiType) → t.isValid = true → (full t).isValid = true
  | .basic base size, ht => by
    rw [full]
    split
    · rfl
    · exact ht
  | .tuple components, ht => areValid_fullAll components ht
  | .array item _, ht => isValid_full item ht

theorem areValid_fullAll : (ts : List AbiType) → areValid ts = true → areValid (fullAll ts) = true
  | [], _ => rfl
  | t :: ts, ht => by
    rw [areValid, Bool.and_eq_true] at ht
    rw [fullAll, areValid, isValid_full t ht.1, areValid_fullAll ts ht.2]
    rfl
end

end AbiType

/-- A size is written with digits. -/
theorem exists_digit_mem_sizeChars (size : TypeSize) :
    ∃ c ∈ sizeChars (some size), isAsciiDigit c = true := by
  cases size with
  | plain n =>
    obtain ⟨c, hc⟩ := List.exists_mem_of_ne_nil _ (natText_ne_nil n)
    exact ⟨c, hc, isAsciiDigit_of_mem_natText hc⟩
  | pair m n =>
    obtain ⟨c, hc⟩ := List.exists_mem_of_ne_nil _ (natText_ne_nil m)
    exact ⟨c, List.mem_append_left _ hc, isAsciiDigit_of_mem_natText hc⟩

/-- The only base name with a layout that is a short form is that of function values. -/
theorem expandWord_basic {base : String} {size : Option TypeSize} {c : Coder}
    (hc : Coder.ofBasic? base size = some c) :
    expandWord (chars (.basic base size)) = chars (full (.basic base size)) := by
  have hshort : ∀ entry ∈ aliases, entry.1.toList.all (!isAsciiDigit ·) = true ∧
      ((Coder.ofBasic? entry.1 none).isSome = true → entry.1 = "function" ∧ entry.2 = "bytes24") := by
    decide
  unfold expandWord
  split
  · next short word hfind =>
    -- a short form has no size, so it is the base name
    have hname : short = String.ofList (chars (.basic base size)) := by
      have hsame := List.find?_some hfind
      exact beq_iff_eq.mp hsame
    obtain ⟨hdigits, hfunction⟩ := hshort _ (List.mem_of_find?_eq_some hfind)
    have hsize : size = none := by
      cases size with
      | none => rfl
      | some size =>
        obtain ⟨d, hd, hdigit⟩ := exists_digit_mem_sizeChars size
        have hmem : d ∈ short.toList := by
          rw [hname, String.toList_ofList]
          exact List.mem_append_right _ hd
        have hnot := List.all_eq_true.mp hdigits d hmem
        rw [hdigit] at hnot
        exact absurd hnot (by decide)
    subst hsize
    have hbase : short = base := by
      rw [hname, chars, sizeChars, List.append_nil, String.ofList_toList]
    obtain ⟨hshortName, hword⟩ := hfunction (by rw [hbase, hc]; rfl)
    have hword' : word = "bytes24" := hword
    have hbase' : base = "function" := hbase ▸ hshortName
    rw [full, if_pos ⟨hbase', rfl⟩, hword']
    decide
  · next hfind =>
    rw [full, if_neg]
    rintro ⟨rfl, rfl⟩
    exact absurd hfind (by decide)

mutual
/-- **Replacing short forms makes the written form of the full type.** -/
theorem chars_full : (t : AbiType) → {c : Coder} → IsWellFormed t → Coder.ofType? t = some c →
    chars (full t) = expandAliases (chars t)
  | .basic base size, c, ht, hc => by
    rw [expandAliases_of_isAlphanum fun d hd => isAlphanum_of_mem_basic ht.2.1 hd,
      expandWord_basic hc]
  | .tuple components, c, ht, hc => by
    rw [Coder.ofType?, Option.map_eq_some_iff] at hc
    obtain ⟨cs, hcs, -⟩ := hc
    have hopened := expandAliases_tuple (charsList components) []
    rw [show bracketChars [] = [] from rfl] at hopened
    rw [full, chars, chars, charsList_fullAll components ht.2 hcs, hopened]
  | .array item length, c, ht, hc => by
    rw [Coder.ofType?, Option.map_eq_some_iff] at hc
    obtain ⟨d, hd, -⟩ := hc
    have hbrackets := expandAliases_bracketChars (chars item) [length]
    rw [show bracketChars [length] = lengthChars length from List.flatMap_singleton _ _] at hbrackets
    rw [full, chars, chars, chars_full item ht.1 hd, hbrackets]

/-- The same for several types. -/
theorem charsList_fullAll : (ts : List AbiType) → {cs : List Coder} → AreWellFormed ts →
    Coder.ofTypes? ts = some cs → charsList (fullAll ts) = (charsList ts).map expandAliases
  | [], cs, _, _ => rfl
  | t :: ts, cs, ht, hcs => by
    simp only [Coder.ofTypes?, Option.bind_eq_bind, Option.bind_eq_some_iff, Option.pure_def,
      Option.some.injEq] at hcs
    obtain ⟨c, hc, rest, hrest, -⟩ := hcs
    rw [fullAll, charsList, charsList, List.map_cons, chars_full t ht.1 hc,
      charsList_fullAll ts ht.2 hrest]
end

end Proposals.Abi
