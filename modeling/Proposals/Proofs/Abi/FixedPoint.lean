import Proposals.Proofs.Abi.Signature
import Proposals.Proofs.Fault

/-!
# `Proofs.Abi.FixedPoint` — canonical signatures read again

A canonical signature is a signature, so it can be read in its turn. What comes out is the same
signature unless a component of a tuple is written like a word that says nothing about a type, as
`memory` in `(memory)` (`Signature.isLegible`). Such a component is refused when it is read on its own,
but not when its tuple stands behind another such word: then the tuple is one word for the reader and
its components are not looked at.

What a canonical type is made of is canonical (`IsCanonical.component`), so the induction of
`StaysReadable` applies to the types in which all components are legible; in all others some component is
the first that is refused (`exists_missingType`).
-/

namespace Proposals.Abi

open Proposals.Text Proposals.Number Proposals.Outcome AbiType

/-! ## Legible types -/

namespace AbiType

mutual
/-- Whether no component of a tuple in the type is written like a word that says nothing about types. -/
def isLegible : AbiType → Bool
  | .basic _ _ => true
  | .tuple components => areLegible components
  | .array item _ => isLegible item

/-- Whether no type of a list is written so, nor a component in one. -/
def areLegible : List AbiType → Bool
  | [] => true
  | t :: rest => !ignoredWords.contains t.text && isLegible t && areLegible rest
end

theorem isLegible_core (t : AbiType) : t.core.isLegible = t.isLegible := by
  cases t with
  | basic base size => rfl
  | tuple components => rfl
  | array item length => exact isLegible_core item

end AbiType

/-- Whether the text is a type in which no component is written so. -/
def isLegibleText (type : String) : Bool :=
  match read type.toList with
  | .ok t => t.isLegible
  | .error _ => false

/-- Whether no component in the types of the signature is written so. -/
def Signature.isLegible (s : Signature) : Bool := s.types.all isLegibleText

/-- The type is not taken for a word that says nothing, and neither is a component in it. -/
structure IsLegible (t : AbiType) : Prop where
  counts : ¬ IsIgnored (chars t)
  components : t.isLegible = true

theorem areLegible_iff {ts : List AbiType} : areLegible ts = true ↔ ∀ t ∈ ts, IsLegible t := by
  induction ts with
  | nil => simp [areLegible]
  | cons t ts ih =>
    rw [areLegible, Bool.and_eq_true, Bool.and_eq_true, ih, List.forall_mem_cons]
    refine and_congr_left fun _ => ⟨fun h => ⟨?_, h.2⟩, fun h => ⟨?_, h.components⟩⟩
    · simpa [IsIgnored, AbiType.text] using h.1
    · simpa [IsIgnored, AbiType.text] using h.counts

/-- Of a type with components, all of them are legible or it is not. -/
theorem isLegible_iff_of_core {t : AbiType} {components : List AbiType}
    (hcore : t.core = .tuple components) :
    t.isLegible = true ↔ ∀ u ∈ components, IsLegible u := by
  rw [← isLegible_core, hcore]
  exact areLegible_iff

/-! ## Canonical types -/

/-- The type is read from its written form, in which no word is short for another. -/
structure IsCanonical (t : AbiType) : Prop where
  read : AbiType.read (chars t) = .ok t
  noShortForm : HasNoShortForm (chars t)

theorem IsCanonical.wellFormed {t : AbiType} (h : IsCanonical t) : IsWellFormed t :=
  (chars_of_read h.read).2.1

/-- The components of a canonical type are canonical. -/
theorem IsCanonical.component {t : AbiType} (h : IsCanonical t) {components : List AbiType}
    (hcore : t.core = .tuple components) : ∀ u ∈ components, IsCanonical u := by
  intro u hu
  have hfree := h.noShortForm
  rw [chars_of_core hcore] at hfree
  exact ⟨read_of_mem_core h.read hcore hu,
    (hasNoShortForm_tuple t.lengths).mp hfree _ (mem_charsList.mpr ⟨u, hu, rfl⟩)⟩

theorem staysReadable_isLegible : StaysReadable fun t => IsCanonical t ∧ IsLegible t where
  wellFormed := fun h => h.1.wellFormed
  counts := fun h => h.2.counts
  full := fun {t} h => ⟨t, by rw [h.1.noShortForm.expandAliases_eq_self]; exact h.1.read⟩
  component := fun h hcore u hu =>
    ⟨h.1.component hcore u hu, (isLegible_iff_of_core hcore).mp h.2.components u hu⟩

/-- A legible canonical type is its own canonical form. -/
theorem canonicalTypeWithin_of_isLegible {fuel : Nat} {t : AbiType} (h : IsCanonical t)
    (hlegible : IsLegible t) (hfuel : (chars t).length < fuel) :
    canonicalTypeWithin fuel (chars t) = .ok (chars t) := by
  rw [staysReadable_isLegible.canonicalTypeWithin_chars ⟨h, hlegible⟩ hfuel,
    h.noShortForm.expandAliases_eq_self]

/-- The fault says that a parameter with this word has no type, and the word is one that says nothing
    about types. -/
def IsMissingType (f : Fault) : Prop := ∃ word ∈ ignoredWords, f = .abi (.missingType word)

/-- **Any other canonical type is refused**, for the first component that is not legible. -/
theorem exists_missingType {fuel : Nat} {t : AbiType} (h : IsCanonical t) (hnot : ¬ IsLegible t)
    (hfuel : (chars t).length < fuel) :
    ∃ f, canonicalTypeWithin fuel (chars t) = .error f ∧ IsMissingType f := by
  induction fuel generalizing t with
  | zero => exact absurd hfuel (by omega)
  | succ fuel ih =>
    have hwf := h.wellFormed
    rcases core_cases t with ⟨base, size, hcore⟩ | ⟨components, hcore⟩
    · -- without components the type itself is such a word
      have hignored : IsIgnored (chars t) := by
        by_contra hcounts
        refine hnot ⟨hcounts, ?_⟩
        rw [← isLegible_core, hcore]
        rfl
      rw [canonicalTypeWithin_chars_basic fuel hwf hcore, if_pos hignored]
      exact ⟨_, rfl, t.text, List.contains_iff_mem.mp hignored, rfl⟩
    · have hsome : ∃ u ∈ components, ¬ IsLegible u := by
        by_contra hall
        exact hnot ⟨not_isIgnored_of_core hcore, (isLegible_iff_of_core hcore).mpr fun u hu =>
          by_contra fun hbad => hall ⟨u, hu, hbad⟩⟩
      obtain ⟨f, hf, hmissing⟩ : ∃ f, (charsList components).mapM (canonicalTypeWithin fuel) =
          .error f ∧ IsMissingType f := by
        rw [charsList_eq_map, List.mapM_map]
        refine exists_error_of_mapM (fun u hu hlegible => ?_) (fun u hu hbad => ?_) hsome
        · have hlength := length_lt_of_mem_core hcore hu
          exact ⟨_, canonicalTypeWithin_of_isLegible (h.component hcore u hu) hlegible (by omega)⟩
        · have hlength := length_lt_of_mem_core hcore hu
          exact ih (h.component hcore u hu) hbad (by omega)
      rw [canonicalTypeWithin_chars_tuple fuel hwf hcore, hf]
      exact ⟨f, rfl, hmissing⟩

/-! ## What is read is canonical -/

theorem wordsFrom_ne_nil (word cs : List Char) : wordsFrom word cs ≠ [] := by
  induction cs generalizing word with
  | nil => exact List.cons_ne_nil word []
  | cons c cs ih =>
    rw [wordsFrom]
    split
    · exact ih (word ++ [c])
    · exact List.cons_ne_nil word _

/-- A text with a single word is that word. -/
theorem eq_of_wordsFrom_eq_singleton {word cs w : List Char} (h : wordsFrom word cs = [w]) :
    w = word ++ cs := by
  induction cs generalizing word with
  | nil =>
    rw [List.append_nil]
    exact (List.singleton_inj.mp h).symm
  | cons c cs ih =>
    by_cases hc : isWordChar c = true
    · rw [wordsFrom, if_pos hc] at h
      rw [ih h, List.append_assoc, List.singleton_append]
    · rw [wordsFrom, if_neg hc] at h
      exact absurd (List.cons.inj h).2 (wordsFrom_ne_nil [] cs)

/-- No short form stands for a word that says nothing about types. -/
theorem isIgnored_of_expandWord {w : List Char} (h : IsIgnored (expandWord w)) : IsIgnored w := by
  have hfull : ∀ entry ∈ aliases, ¬ IsIgnored entry.2.toList := by decide
  unfold expandWord at h
  split at h
  · next short full hfind => exact absurd h (hfull (short, full) (List.mem_of_find?_eq_some hfind))
  · exact h

/-- Replacing short forms makes no such word out of other texts. -/
theorem isIgnored_of_expandAliases {w : List Char} (h : IsIgnored (expandAliases w)) :
    IsIgnored w := by
  -- the text is a single word, so it was one before
  have hletters : ∀ c ∈ expandAliases w, isWordChar c = true := fun c hc => by
    refine isWordChar_of_isAlphanum ?_
    rw [Char.isAlphanum, isAlpha_of_isIgnored h hc, Bool.true_or]
  have hsingle := wordsFrom_append_of_isWordChar hletters [] []
  rw [List.append_nil, List.nil_append, wordsFrom, expandAliases,
    wordsFrom_expandFrom (List.forall_mem_nil _)] at hsingle
  obtain ⟨v, hv, hword⟩ := List.map_eq_singleton_iff.mp hsingle
  have hvw : v = w := eq_of_wordsFrom_eq_singleton hv
  subst hvw
  refine isIgnored_of_expandWord ?_
  rw [hword]
  exact h

theorem not_isIgnored_of_canonicalTypeWithin {fuel : Nat} {parameter cs : List Char}
    (h : canonicalTypeWithin fuel parameter = .ok cs) : ¬ IsIgnored cs := by
  cases fuel with
  | zero => exact absurd h (by simp [canonicalTypeWithin])
  | succ fuel =>
    obtain ⟨⟨components, inner, rest, -, rfl⟩ | ⟨w, hw, rfl⟩, -⟩ := canonicalTypeWithin_cases h
    · intro hignored
      exact absurd (isAlpha_of_isIgnored hignored (c := '(') (by simp)) (by decide)
    · exact fun hignored => hw (isIgnored_of_expandAliases hignored)

/-- The types of a signature that is read are canonical, and none is such a word. -/
theorem exists_isCanonical {signature : String} {s : Signature}
    (h : parseSignature signature = .ok s) {type : String} (htype : type ∈ s.types) :
    ∃ t, chars t = type.toList ∧ IsCanonical t ∧ ¬ IsIgnored (chars t) := by
  obtain ⟨parameter, hparameter⟩ := (parseSignature_eq_ok h).2 type htype
  obtain ⟨⟨t, ht⟩, hfree⟩ := canonicalTypeWithin_sound hparameter
  have hchars := (chars_of_read ht).1
  exact ⟨t, hchars, ⟨hchars ▸ ht, hchars ▸ hfree⟩,
    hchars ▸ not_isIgnored_of_canonicalTypeWithin hparameter⟩

/-! ## Reading a signature again -/

section Again

variable {signature : String} {s : Signature} (h : parseSignature signature = .ok s)

include h

/-- A type of the signature is read again as it is, or not at all. -/
theorem canonicalType_of_mem {type : String} (htype : type ∈ s.types) :
    (isLegibleText type = true → canonicalType type.toList = .ok type.toList) ∧
      (isLegibleText type = false →
        ∃ f, canonicalType type.toList = .error f ∧ IsMissingType f) := by
  obtain ⟨t, hchars, ht, hcounts⟩ := exists_isCanonical h htype
  have htext : isLegibleText type = t.isLegible := by
    unfold isLegibleText
    rw [← hchars, ht.read]
  rw [htext, ← hchars]
  constructor
  · intro hlegible
    exact canonicalTypeWithin_of_isLegible ht ⟨hcounts, hlegible⟩ (Nat.lt_succ_self _)
  · intro hnot
    refine exists_missingType ht (fun hlegible => ?_) (Nat.lt_succ_self _)
    exact absurd hlegible.components (by rw [hnot]; exact Bool.false_ne_true)

/-- The types of the signature are found in its canonical form. -/
theorem parseSignature_text_eq :
    parseSignature s.text =
      ((s.types.map String.toList).mapM canonicalType).map fun types =>
        ⟨s.name, types.map String.ofList⟩ := by
  refine parseSignature_text_eq_map (parseSignature_eq_ok h).1 fun type htype => ?_
  obtain ⟨t, hchars, ht, -⟩ := exists_isCanonical h htype
  rw [← hchars]
  exact (isPiece_chars t ht.wellFormed).isParameter (chars_ne_nil t ht.wellFormed)

theorem parseSignature_text_of_isLegible (hlegible : s.isLegible = true) :
    parseSignature s.text = .ok s := by
  have hall := List.all_eq_true.mp hlegible
  have hmapM : (s.types.map String.toList).mapM canonicalType = .ok (s.types.map String.toList) :=
    mapM_eq_self fun cs hcs => by
      obtain ⟨type, htype, rfl⟩ := List.mem_map.mp hcs
      exact (canonicalType_of_mem h htype).1 (hall type htype)
  have hback : (s.types.map String.toList).map String.ofList = s.types.map id := by
    rw [List.map_map]
    exact List.map_congr_left fun type _ => String.ofList_toList
  rw [parseSignature_text_eq h, hmapM, Except.map, hback, List.map_id]

theorem exists_missingType_of_not_isLegible (hnot : s.isLegible = false) :
    ∃ f, parseSignature s.text = .error f ∧ IsMissingType f := by
  have hsome : ∃ type ∈ s.types, ¬ isLegibleText type = true := List.all_eq_false.mp hnot
  obtain ⟨f, hf, hmissing⟩ : ∃ f, (s.types.map String.toList).mapM canonicalType = .error f ∧
      IsMissingType f := by
    rw [List.mapM_map]
    refine exists_error_of_mapM (fun type htype hlegible => ?_) (fun type htype hbad => ?_) hsome
    · exact ⟨_, (canonicalType_of_mem h htype).1 hlegible⟩
    · exact (canonicalType_of_mem h htype).2 (by simpa using hbad)
  rw [parseSignature_text_eq h, hf]
  exact ⟨f, rfl, hmissing⟩

/-- **Normalizing has reached a fixed point if and only if the canonical form is legible.** Then the
    canonical form is read as the signature, and is its own canonical form; otherwise it is refused for a
    component that is written like a word that says nothing about types. A text and its canonical form
    therefore match in the first case only. -/
theorem parseSignature_text_iff_isLegible :
    (s.isLegible = true → parseSignature s.text = .ok s ∧
        normalizeSignature (.text s.text) = normalizeSignature (.text signature)) ∧
      (s.isLegible = false → ∃ word ∈ ignoredWords,
        parseSignature s.text = .error (.abi (.missingType word))) ∧
      signaturesMatch (.text signature) (.text s.text) = .ok s.isLegible := by
  have hleft : normalizeSignature (.text signature) = .ok s.text := by
    rw [normalizeSignature, signatureOf, h]
    rfl
  cases hlegible : s.isLegible with
  | true =>
    have hread := parseSignature_text_of_isLegible h hlegible
    have hright : normalizeSignature (.text s.text) = .ok s.text := by
      rw [normalizeSignature, signatureOf, hread]
      rfl
    refine ⟨fun _ => ⟨hread, hright.trans hleft.symm⟩, fun hfalse => absurd hfalse (by simp), ?_⟩
    simp only [signaturesMatch, hleft, hright, beq_self_eq_true]
  | false =>
    obtain ⟨f, hf, word, hword, rfl⟩ := exists_missingType_of_not_isLegible h hlegible
    have hright : normalizeSignature (.text s.text) = .error (.abi (.missingType word)) := by
      rw [normalizeSignature, signatureOf, hf]
      rfl
    refine ⟨fun htrue => absurd htrue (by simp), fun _ => ⟨word, hword, hf⟩, ?_⟩
    simp only [signaturesMatch, hleft, hright]

end Again

/-- A signature with a named tuple and a short form, and its canonical form. -/
theorem parseSignature_text_iff_isLegible_submit :
    parseSignature "submit((address,uint) memory data)" = .ok ⟨"submit", ["(address,uint256)"]⟩ ∧
      parseSignature "submit((address,uint256))" = .ok ⟨"submit", ["(address,uint256)"]⟩ := by
  have h : parseSignature "submit((address,uint) memory data)" =
      .ok ⟨"submit", ["(address,uint256)"]⟩ := by rfl
  have htext : Signature.text ⟨"submit", ["(address,uint256)"]⟩ = "submit((address,uint256))" := rfl
  have hread := ((parseSignature_text_iff_isLegible h).1 rfl).1
  rw [htext] at hread
  exact ⟨h, hread⟩

/-- A tuple behind a data location keeps a component that is one, and is refused without it. -/
theorem not_parseSignature_text_iff :
    parseSignature "f(memory (memory))" = .ok ⟨"f", ["(memory)"]⟩ ∧
      Signature.text ⟨"f", ["(memory)"]⟩ = "f((memory))" ∧
      parseSignature "f((memory))" = .error (.abi (.missingType "memory")) ∧
      signaturesMatch (.text "f(memory (memory))") (.text "f((memory))") = .ok false :=
  ⟨rfl, rfl, rfl, rfl⟩

end Proposals.Abi
