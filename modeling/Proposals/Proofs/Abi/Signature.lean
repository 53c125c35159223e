import Proposals.Proofs.Abi.Parameter

/-!
# `Proofs.Abi.Signature` — canonical signatures are fixed

Normalizing a signature is not idempotent on all texts: a component of a tuple that is written like a
data location is refused when the canonical form is read again. It is so for signatures whose types
have a layout (`Signature.IsCoded`), and only those can carry calldata; that is `parseSignature_text`.

Types with a layout are a class that stays readable (`staysReadable_hasLayout`). A signature is read in two
halves: a text has the parts of one, a name and what stands in its parentheses, or is refused
(`parseSignature_cases`); and the parameters are then read one by one (`HasParts.parseSignature_eq`).
-/

namespace Proposals.Abi

open Proposals.Text Proposals.Number Proposals.Outcome AbiType

/-! ## Types with a layout -/

/-- No type with a layout is written like a word that says nothing about a type. -/
theorem not_isIgnored_of_hasCoder {t : AbiType} (hc : HasCoder t) : ¬ IsIgnored (chars t) := by
  rcases core_cases t with ⟨base, size, hcore⟩ | ⟨components, hcore⟩
  · intro hignored
    -- every such word is a base name without size or brackets, and that name has no layout
    have hnone : ∀ w ∈ ignoredWords, Coder.ofBasic? w none = none := by decide
    obtain ⟨c, hcoder⟩ := hasCoder_core.mpr hc
    rw [hcore] at hcoder
    rw [chars_eq_core t, hcore] at hignored
    rw [lengths_eq_nil_of_isIgnored hignored, show bracketChars [] = [] from rfl,
      List.append_nil] at hignored
    cases size with
    | none =>
      have hbase : String.ofList (chars (.basic base none)) = base := by
        rw [chars, sizeChars, List.append_nil, String.ofList_toList]
      have hword := hnone _ (List.contains_iff_mem.mp hignored)
      rw [hbase] at hword
      exact absurd (hword.symm.trans hcoder) (by simp)
    | some size =>
      obtain ⟨d, hmem, hdigit⟩ := exists_digit_mem_sizeChars size
      have hletter := isAlpha_of_isIgnored hignored (List.mem_append_right _ hmem)
      rw [isAlpha_of_isAsciiDigit hdigit] at hletter
      exact absurd hletter (by simp)
  · exact not_isIgnored_of_core hcore

/-- A type that is read from its written form and has a layout. -/
structure HasLayout (t : AbiType) : Prop where
  read : AbiType.read (chars t) = .ok t
  coder : HasCoder t

theorem HasLayout.wellFormed {t : AbiType} (h : HasLayout t) : IsWellFormed t :=
  (chars_of_read h.read).2.1

theorem HasLayout.chars_full {t : AbiType} (h : HasLayout t) :
    chars (full t) = expandAliases (chars t) := by
  obtain ⟨c, hc⟩ := h.coder
  exact Abi.chars_full t h.wellFormed hc

/-- Without its short forms the text is read as the full type. -/
theorem HasLayout.read_full {t : AbiType} (h : HasLayout t) :
    AbiType.read (expandAliases (chars t)) = .ok (full t) := by
  obtain ⟨-, hwf, hvalid⟩ := chars_of_read h.read
  rw [← h.chars_full]
  exact read_chars (isWellFormed_full t hwf) (isValid_full t hvalid)

/-- The components of a tuple with a layout have layouts. -/
theorem HasLayout.component {t : AbiType} (h : HasLayout t) {components : List AbiType}
    (hcore : t.core = .tuple components) : ∀ u ∈ components, HasLayout u := by
  intro u hu
  obtain ⟨c, hc⟩ := hasCoder_core.mpr h.coder
  rw [hcore, Coder.ofType?, Option.map_eq_some_iff] at hc
  obtain ⟨coders, hcoders, -⟩ := hc
  exact ⟨read_of_mem_core h.read hcore hu, hasCoder_of_mem hcoders hu⟩

theorem staysReadable_hasLayout : StaysReadable HasLayout where
  wellFormed := HasLayout.wellFormed
  counts := fun h => not_isIgnored_of_hasCoder h.coder
  full := fun h => ⟨_, h.read_full⟩
  component := fun h hcore => h.component hcore

/-! ## Signatures -/

/-- Every type of the signature has a layout. -/
def Signature.IsCoded (s : Signature) : Prop :=
  ∀ type ∈ s.types, ∃ t, read type.toList = .ok t ∧ HasCoder t

theorem toList_intercalate (types : List String) :
    (",".intercalate types).toList = joined (types.map String.toList) := by
  induction types with
  | nil => rw [String.intercalate_nil]; rfl
  | cons type types ih =>
    cases types with
    | nil => rw [String.intercalate_singleton]; rfl
    | cons next types =>
      rw [String.intercalate_cons_cons, String.toList_append, String.toList_append, ih,
        List.append_assoc]
      rfl

theorem toList_text (s : Signature) :
    s.text.toList = s.name.toList ++ ('(' :: joined (s.types.map String.toList) ++ [')']) := by
  unfold Signature.text typeList
  rw [String.toList_append, String.toList_append, String.toList_append, toList_intercalate]
  rfl

/-- The text is a name and parameters in parentheses, up to blanks and the keyword in front. -/
structure HasParts (signature : String) (front body : List Char) : Prop where
  text : strip signature.toList = front ++ ('(' :: body ++ [')'])
  plain : ∀ c ∈ front, c ≠ '('
  name : isIdentifier (dropKeyword (strip front)) = true

theorem takeWhile_front {front rest : List Char} (h : ∀ c ∈ front, c ≠ '(') :
    (front ++ '(' :: rest).takeWhile (· ≠ '(') = front :=
  (takeWhile_dropWhile_append (fun c hc => by simpa using h c hc) (by rintro _ ⟨⟩; decide)).1

/-- **Such a text is read parameter by parameter.** -/
theorem HasParts.parseSignature_eq {signature : String} {front body : List Char}
    (h : HasParts signature front body) :
    parseSignature signature =
      splitParameters body >>= fun parameters => (parameters.mapM canonicalType).map fun types =>
        ⟨String.ofList (dropKeyword (strip front)), types.map String.ofList⟩ := by
  have hne : front ≠ [] := by
    rintro rfl
    exact absurd h.name (by decide)
  -- the name ends at the first parenthesis
  have htake : (strip signature.toList).takeWhile (· ≠ '(') = front := by
    rw [h.text]
    exact takeWhile_front h.plain
  have hdrop : (strip signature.toList).drop front.length = '(' :: body ++ [')'] := by
    rw [h.text, List.drop_left]
  have hlast : ('(' :: body ++ [')']).getLast? = some ')' := List.getLast?_concat
  have hbody : (('(' :: body ++ [')']).drop 1).dropLast = body := by
    rw [List.cons_append, List.drop_one, List.tail_cons, List.dropLast_concat]
  have hgood : ¬ ((front.isEmpty || ('(' :: body ++ [')']).isEmpty ||
      decide (some ')' ≠ some ')')) = true) := by
    simp [List.isEmpty_iff, hne]
  simp only [parseSignature, throw_eq_error, error_bind, htake, hdrop, hlast, h.name, hbody]
  rw [if_neg hgood, if_neg (by simp)]
  cases splitParameters body with
  | error f => rfl
  | ok parameters =>
    rw [ok_bind, ok_bind]
    cases parameters.mapM canonicalType <;> rfl

/-- Any other text is refused at once. -/
theorem parseSignature_cases (signature : String) :
    (∃ front body, HasParts signature front body) ∨
      ∃ cause, parseSignature signature = .error (.abi cause) := by
  simp only [parseSignature, throw_eq_error, error_bind]
  generalize hfront : (strip signature.toList).takeWhile (· ≠ '(') = front
  generalize hrest : (strip signature.toList).drop front.length = rest
  split
  · exact .inr ⟨_, rfl⟩
  · next hgood =>
    split
    · exact .inr ⟨_, rfl⟩
    · next hname =>
      rw [Bool.or_eq_true, Bool.or_eq_true, not_or, not_or, List.isEmpty_iff, List.isEmpty_iff,
        decide_eq_true_eq, not_not] at hgood
      obtain ⟨⟨-, hne⟩, hlast⟩ := hgood
      have hcut : strip signature.toList = front ++ rest := by
        rw [← hrest, ← hfront]
        exact (List.prefix_iff_eq_append.mp (List.takeWhile_prefix _)).symm
      have hopen : (strip signature.toList).dropWhile (· ≠ '(') = rest := by
        have hparts : front ++ (strip signature.toList).dropWhile (· ≠ '(') = front ++ rest := by
          rw [← hcut, ← hfront]
          exact List.takeWhile_append_dropWhile
        exact List.append_cancel_left hparts
      have hhead := List.head?_dropWhile_not (· ≠ '(') (strip signature.toList)
      rw [hopen] at hhead
      -- behind the first parenthesis there is another character, the last one
      obtain ⟨c, tail, rfl⟩ := List.exists_cons_of_ne_nil hne
      obtain rfl : c = '(' := by simpa using hhead
      have htail : tail ≠ [] := by
        rintro rfl
        exact absurd hlast (by decide)
      obtain ⟨body, d, rfl⟩ := List.eq_nil_or_concat' tail |>.resolve_left htail
      rw [← List.cons_append, List.getLast?_concat, Option.some.injEq] at hlast
      subst hlast
      refine .inl ⟨front, body, hcut, fun c hc => ?_, by simpa using hname⟩
      rw [← hfront] at hc
      simpa using List.mem_takeWhile_imp hc

/-- A signature that is read has a name, and each type is what a parameter was reduced to. -/
theorem parseSignature_eq_ok {signature : String} {s : Signature}
    (h : parseSignature signature = .ok s) :
    isIdentifier s.name.toList = true ∧
      ∀ type ∈ s.types, ∃ parameter, canonicalType parameter = .ok type.toList := by
  obtain ⟨front, body, hparts⟩ | ⟨cause, hcause⟩ := parseSignature_cases signature
  · rw [hparts.parseSignature_eq] at h
    obtain ⟨parameters, -, h⟩ := bind_eq_ok.mp h
    obtain ⟨types, htypes, rfl⟩ := map_eq_ok.mp h
    refine ⟨by rw [String.toList_ofList]; exact hparts.name, fun type htype => ?_⟩
    obtain ⟨cs, hcs, rfl⟩ := List.mem_map.mp htype
    obtain ⟨p, -, hp⟩ := exists_of_mem_mapM htypes hcs
    exact ⟨p, by rw [String.toList_ofList, hp]⟩
  · exact absurd (hcause.symm.trans h) (by simp)

/-- **A signature that is read has a name and canonical types.** -/
theorem parseSignature_sound {signature : String} {s : Signature}
    (h : parseSignature signature = .ok s) :
    isIdentifier s.name.toList = true ∧
      ∀ type ∈ s.types, (∃ t, read type.toList = .ok t) ∧ HasNoShortForm type.toList := by
  obtain ⟨hname, htypes⟩ := parseSignature_eq_ok h
  refine ⟨hname, fun type htype => ?_⟩
  obtain ⟨parameter, hparameter⟩ := htypes type htype
  exact canonicalTypeWithin_sound hparameter

theorem ne_nil_of_isIdentifier {name : List Char} (h : isIdentifier name = true) : name ≠ [] := by
  rintro rfl
  exact absurd h (by simp [isIdentifier])

/-- A name does not begin with the keyword and a blank. -/
theorem dropKeyword_eq_self {name : List Char} (h : isIdentifier name = true) :
    dropKeyword name = name := by
  unfold dropKeyword
  rw [if_neg]
  intro hprefix
  have hblank := (List.isPrefixOf_iff_prefix.mp hprefix).subset
    (show ' ' ∈ "function ".toList by decide)
  exact absurd (isSolid_of_isIdentifier h _ hblank) (by decide)

/-- A list of parameters is read parameter by parameter. There may be blanks around the name, and the
    keyword in front of it. -/
theorem parseSignature_of_strip {signature : String} {front name : List Char}
    {pieces : List (List Char)}
    (htext : strip signature.toList = front ++ ('(' :: joined pieces ++ [')']))
    (hfront : ∀ c ∈ front, c ≠ '(') (hname : dropKeyword (strip front) = name)
    (hidentifier : isIdentifier name = true) (hpieces : ∀ p ∈ pieces, IsParameter p) :
    parseSignature signature =
      (pieces.mapM canonicalType).map fun types =>
        ⟨String.ofList name, types.map String.ofList⟩ := by
  have hparts : HasParts signature front (joined pieces) := ⟨htext, hfront, hname ▸ hidentifier⟩
  rw [hparts.parseSignature_eq, splitParameters_joined hpieces, ok_bind, hname]

/-- The canonical form of a signature is read type by type. -/
theorem parseSignature_text_eq_map {s : Signature} (hname : isIdentifier s.name.toList = true)
    (htypes : ∀ type ∈ s.types, IsParameter type.toList) :
    parseSignature s.text =
      ((s.types.map String.toList).mapM canonicalType).map fun types =>
        ⟨s.name, types.map String.ofList⟩ := by
  have hsolid := isSolid_of_isIdentifier hname
  have hne := ne_nil_of_isIdentifier hname
  have hclose : IsTrimmed [')'] := isTrimmed_singleton (by decide)
  have htext : strip s.text.toList =
      s.name.toList ++ ('(' :: joined (s.types.map String.toList) ++ [')']) := by
    have htrimmed := (hsolid.isTrimmed hne).append hclose
      ('(' :: joined (s.types.map String.toList))
    rw [List.append_assoc] at htrimmed
    rw [toList_text, htrimmed.strip_eq_self]
  have hdrop : dropKeyword (strip s.name.toList) = s.name.toList := by
    rw [hsolid.strip_eq_self, dropKeyword_eq_self hname]
  have hpieces : ∀ p ∈ s.types.map String.toList, IsParameter p := fun p hp => by
    obtain ⟨type, htype, rfl⟩ := List.mem_map.mp hp
    exact htypes type htype
  rw [parseSignature_of_strip htext (fun c hc => ne_parenthesis_of_isIdentifier hname hc) hdrop
    hname hpieces, String.ofList_toList]

/-- The type without short forms. -/
def fullType (type : String) : String := String.ofList (expandAliases type.toList)

/-- **A signature with a name and types that have layouts is read**, with its types in full. -/
theorem parseSignature_text_of_isCoded {s : Signature} (hname : isIdentifier s.name.toList = true)
    (hcoded : s.IsCoded) : parseSignature s.text = .ok ⟨s.name, s.types.map fullType⟩ := by
  have hwritten : ∀ type ∈ s.types, ∃ t, type.toList = chars t ∧ HasLayout t := by
    intro type htype
    obtain ⟨t, ht, hcoder⟩ := hcoded type htype
    have hchars := (chars_of_read ht).1
    exact ⟨t, hchars.symm, hchars ▸ ht, hcoder⟩
  have hpieces : ∀ type ∈ s.types, IsParameter type.toList := fun type htype => by
    obtain ⟨t, hchars, ht⟩ := hwritten type htype
    rw [hchars]
    exact (isPiece_chars t ht.wellFormed).isParameter (chars_ne_nil t ht.wellFormed)
  have hcanonical : (s.types.map String.toList).mapM canonicalType =
      .ok ((s.types.map String.toList).map expandAliases) := mapM_eq_map fun cs hcs => by
    obtain ⟨type, htype, rfl⟩ := List.mem_map.mp hcs
    obtain ⟨t, hchars, ht⟩ := hwritten type htype
    rw [hchars]
    exact staysReadable_hasLayout.canonicalTypeWithin_chars ht (Nat.lt_succ_self _)
  rw [parseSignature_text_eq_map hname hpieces, hcanonical, Except.map, List.map_map, List.map_map]
  rfl

/-- A signature with a name and full types that have layouts is read from its written form. -/
theorem parseSignature_text_of_full {s : Signature} (hname : isIdentifier s.name.toList = true)
    (htypes : ∀ type ∈ s.types, HasNoShortForm type.toList) (hcoded : s.IsCoded) :
    parseSignature s.text = .ok s := by
  have hfull : s.types.map fullType = s.types.map id := List.map_congr_left fun type htype => by
    rw [fullType, (htypes type htype).expandAliases_eq_self, String.ofList_toList, id]
  rw [parseSignature_text_of_isCoded hname hcoded, hfull, List.map_id]

/-- **The canonical form of a signature with layouts is read as the signature.** -/
theorem parseSignature_text {signature : String} {s : Signature}
    (h : parseSignature signature = .ok s) (hcoded : s.IsCoded) :
    parseSignature s.text = .ok s := by
  obtain ⟨hname, htypes⟩ := parseSignature_sound h
  exact parseSignature_text_of_full hname (fun type htype => (htypes type htype).2) hcoded

end Proposals.Abi
