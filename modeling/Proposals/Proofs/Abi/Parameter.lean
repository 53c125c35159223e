import Proposals.Proofs.Abi.ShortForm

/-!
# `Proofs.Abi.Parameter` — one parameter of a signature

A parameter is reduced to its canonical type in one of two ways. One that opens with a parenthesis is
rebuilt from its components (`IsTuple`); of any other, the first word counts that says something about the
type (`IsLedBy`). A parameter is one of the two or is refused (`parameter_cases`). What a successful step can
have been is said once (`canonicalTypeWithin_cases`), and so is the induction over written types: a class of
types stays as it is, but for short forms, if the words that say nothing are not in it and it is closed under
components (`StaysReadable`).
-/

namespace Proposals.Abi

open Proposals.Text Proposals.Number Proposals.Outcome AbiType

/-- The word says nothing about a type. -/
def IsIgnored (w : List Char) : Prop := ignoredWords.contains (String.ofList w) = true

instance (w : List Char) : Decidable (IsIgnored w) := inferInstanceAs (Decidable (_ = true))

/-- The words that say nothing about a type are of letters only. -/
theorem isAlpha_of_isIgnored {w : List Char} (h : IsIgnored w) {c : Char} (hc : c ∈ w) :
    c.isAlpha = true := by
  have hletters : ∀ word ∈ ignoredWords, word.toList.all Char.isAlpha = true := by decide
  have hall := hletters _ (List.contains_iff_mem.mp h)
  rw [String.toList_ofList, List.all_eq_true] at hall
  exact hall c hc

/-- Such a word has no brackets. -/
theorem lengths_eq_nil_of_isIgnored {cs : List Char} {lengths : List (Option Nat)}
    (h : IsIgnored (cs ++ bracketChars lengths)) : lengths = [] := by
  cases lengths with
  | nil => rfl
  | cons length lengths =>
    have hmem : '[' ∈ bracketChars (length :: lengths) := by
      cases length <;> simp [bracketChars, lengthChars]
    exact absurd (isAlpha_of_isIgnored h (List.mem_append_right _ hmem)) (by decide)

/-! ## What a parameter is -/

/-- Without a parenthesis there is no tuple for the word `tuple` to stand in front of. -/
theorem head?_dropTupleWord_ne {cs : List Char} (h : '(' ∉ cs) :
    (dropTupleWord cs).head? ≠ some '(' := by
  unfold dropTupleWord
  split
  · next rest => exact absurd (by simp) h
  · exact fun hhead => h (List.mem_of_mem_head? hhead)

theorem dropTupleWord_of_head?_ne {cs : List Char} (h : (dropTupleWord cs).head? ≠ some '(') :
    dropTupleWord cs = cs := by
  unfold dropTupleWord at h ⊢
  split at h
  · exact absurd rfl h
  · rfl

theorem not_isEmpty_of_dropTupleWord {cs tail : List Char} (h : dropTupleWord cs = '(' :: tail) :
    ¬ cs.isEmpty = true := by
  intro hnil
  rw [List.isEmpty_iff.mp hnil] at h
  exact absurd h (by simp [dropTupleWord])

/-- The parameter is a tuple, up to blanks and the word in front of it: `body` stands in its
    parentheses and `behind` behind them. -/
def IsTuple (parameter body behind : List Char) : Prop :=
  Opens (dropTupleWord (strip parameter)) body behind

/-- The words of a text that say something about a type. -/
def countingWords (cs : List Char) : List (List Char) :=
  (words cs).filter fun w => !ignoredWords.contains (String.ofList w)

/-- The parameter opens with no parenthesis, and `w` is the first of its words that counts. -/
structure IsLedBy (parameter w : List Char) : Prop where
  plain : (dropTupleWord (strip parameter)).head? ≠ some '('
  first : (countingWords (strip parameter)).head? = some w

theorem IsLedBy.not_isIgnored {parameter w : List Char} (h : IsLedBy parameter w) : ¬ IsIgnored w := by
  have hkept := List.of_mem_filter (List.mem_of_mem_head? h.first)
  simpa [IsIgnored] using hkept

/-- **A tuple is rebuilt from its components**, with the word that stands directly behind it. -/
theorem IsTuple.canonicalTypeWithin_eq {parameter body behind : List Char}
    (h : IsTuple parameter body behind) (fuel : Nat) :
    canonicalTypeWithin (fuel + 1) parameter =
      splitParameters body >>= fun components =>
        components.mapM (canonicalTypeWithin fuel) >>= fun inner =>
          canonicalOf parameter ('(' :: joined inner ++ ')' :: leadingWord behind) := by
  have hempty := not_isEmpty_of_dropTupleWord h.eq
  have hclose := h.matchingParenthesis?
  obtain ⟨htake, hdrop⟩ := take_drop_parentheses body behind
  rw [h.eq] at hclose
  simp only [canonicalTypeWithin, throw_eq_error, error_bind, if_neg hempty, h.eq]
  simp only [List.cons_append] at hclose htake hdrop ⊢
  simp only [hclose, htake, hdrop]

/-- A parameter that opens with a parenthesis without partner is refused. -/
theorem canonicalTypeWithin_unclosed {parameter tail : List Char}
    (htail : dropTupleWord (strip parameter) = '(' :: tail)
    (hnone : matchingParenthesis? ('(' :: tail) = none) (fuel : Nat) :
    canonicalTypeWithin (fuel + 1) parameter = .error (.abi .unbalanced) := by
  have hempty := not_isEmpty_of_dropTupleWord htail
  simp only [canonicalTypeWithin, throw_eq_error, error_bind, if_neg hempty, htail, hnone]

/-- Without a parenthesis in front, the words count that say something about the type. -/
theorem canonicalTypeWithin_word (fuel : Nat) {parameter : List Char} (hne : strip parameter ≠ [])
    (hplain : (dropTupleWord (strip parameter)).head? ≠ some '(') :
    canonicalTypeWithin (fuel + 1) parameter =
      match countingWords (strip parameter) with
      | [] => .error (.abi (.missingType (String.ofList parameter)))
      | w :: _ => canonicalOf parameter (expandAliases w) := by
  have hempty : ¬ (strip parameter).isEmpty = true := fun hnil => hne (List.isEmpty_iff.mp hnil)
  have hself := dropTupleWord_of_head?_ne hplain
  rw [hself] at hplain
  simp only [canonicalTypeWithin, throw_eq_error, error_bind, if_neg hempty, hself]
  split
  · next tail hopen => exact absurd (by rw [hopen]; rfl) hplain
  · rfl

/-- **Of any other parameter, the first word counts that says something about the type.** -/
theorem IsLedBy.canonicalTypeWithin_eq {parameter w : List Char} (h : IsLedBy parameter w)
    (fuel : Nat) :
    canonicalTypeWithin (fuel + 1) parameter = canonicalOf parameter (expandAliases w) := by
  obtain ⟨ws, hws⟩ := List.head?_eq_some_iff.mp h.first
  have hne : strip parameter ≠ [] := by
    intro hnil
    rw [hnil] at hws
    exact absurd hws (by simp [countingWords, words, splitWords])
  rw [canonicalTypeWithin_word fuel hne h.plain, hws]

/-- A parameter is a tuple, or led by a word, or refused at once. -/
theorem parameter_cases (parameter : List Char) :
    (∃ body behind, IsTuple parameter body behind) ∨ (∃ w, IsLedBy parameter w) ∨
      ∃ cause, ∀ fuel, canonicalTypeWithin (fuel + 1) parameter = .error (.abi cause) := by
  by_cases hempty : (strip parameter).isEmpty = true
  · refine .inr (.inr ⟨.emptyParameter, fun fuel => ?_⟩)
    simp only [canonicalTypeWithin, throw_eq_error, error_bind, if_pos hempty]
  · by_cases hhead : (dropTupleWord (strip parameter)).head? = some '('
    · obtain ⟨tail, htail⟩ := List.head?_eq_some_iff.mp hhead
      cases hclose : closingFrom? 1 tail with
      | none =>
        have hnone : matchingParenthesis? ('(' :: tail) = none := by
          rw [matchingParenthesis?, closingFrom?, if_pos rfl, hclose, Option.map_none]
        exact .inr (.inr ⟨.unbalanced, canonicalTypeWithin_unclosed htail hnone⟩)
      | some close =>
        obtain ⟨body, behind, hopens⟩ := exists_opens hclose
        exact .inl ⟨body, behind, by rw [IsTuple, htail]; exact hopens⟩
    · cases hfirst : (countingWords (strip parameter)).head? with
      | some w => exact .inr (.inl ⟨w, hhead, hfirst⟩)
      | none =>
        refine .inr (.inr ⟨.missingType (String.ofList parameter), fun fuel => ?_⟩)
        rw [canonicalTypeWithin_word fuel (by simpa using hempty) hhead,
          List.head?_eq_none_iff.mp hfirst]

/-! ## What a step makes -/

theorem canonicalOf_eq_ok {parameter candidate cs : List Char} :
    canonicalOf parameter candidate = .ok cs ↔
      cs = candidate ∧ ∃ t, read candidate = .ok t := by
  unfold canonicalOf
  split
  · next t h =>
    obtain ⟨rfl, -, -⟩ := chars_of_read h
    rw [Except.ok.injEq]
    exact ⟨fun e => ⟨e.symm, t, h⟩, fun e => e.1.symm⟩
  all_goals
    next h =>
    refine ⟨fun e => absurd e (by simp), ?_⟩
    rintro ⟨-, t, ht⟩
    exact absurd (h.symm.trans ht) (by simp)

/-- The written form of a type that opens with a parenthesis: its components, then brackets. -/
theorem chars_eq_of_head? {t : AbiType} (ht : IsWellFormed t) (h : (chars t).head? = some '(') :
    ∃ components, t.core = .tuple components ∧
      chars t = '(' :: joined (charsList components) ++ ')' :: bracketChars t.lengths := by
  rcases core_cases t with ⟨base, size, hcore⟩ | ⟨components, hcore⟩
  · have hbase := isWellFormed_core t ht
    rw [hcore] at hbase
    rw [chars_eq_core t, hcore, chars, List.append_assoc,
      List.head?_append_of_ne_nil _ hbase.1] at h
    exact absurd (hbase.2.1 _ (List.mem_of_mem_head? h)) (by decide)
  · exact ⟨components, hcore, chars_of_core hcore⟩

/-- **What a step can have made**: a tuple of canonical types, or a word with its short forms replaced.
    It is a written type in both cases. -/
theorem canonicalTypeWithin_cases {fuel : Nat} {parameter cs : List Char}
    (h : canonicalTypeWithin (fuel + 1) parameter = .ok cs) :
    ((∃ (components inner : List (List Char)) (rest : List Char),
        components.mapM (canonicalTypeWithin fuel) = .ok inner ∧
          cs = '(' :: joined inner ++ ')' :: rest) ∨
      ∃ w, ¬ IsIgnored w ∧ cs = expandAliases w) ∧ ∃ t, read cs = .ok t := by
  rcases parameter_cases parameter with ⟨body, behind, htuple⟩ | ⟨w, hw⟩ | ⟨cause, hcause⟩
  · rw [htuple.canonicalTypeWithin_eq] at h
    obtain ⟨components, -, h⟩ := bind_eq_ok.mp h
    obtain ⟨inner, hinner, h⟩ := bind_eq_ok.mp h
    obtain ⟨rfl, ht⟩ := canonicalOf_eq_ok.mp h
    exact ⟨.inl ⟨components, inner, _, hinner, rfl⟩, ht⟩
  · rw [hw.canonicalTypeWithin_eq] at h
    obtain ⟨rfl, ht⟩ := canonicalOf_eq_ok.mp h
    exact ⟨.inr ⟨w, hw.not_isIgnored, rfl⟩, ht⟩
  · exact absurd ((hcause fuel).symm.trans h) (by simp)

/-- **A canonical type is a written type, and no word in it is a short form.** -/
theorem canonicalTypeWithin_sound {fuel : Nat} {parameter cs : List Char}
    (h : canonicalTypeWithin fuel parameter = .ok cs) :
    (∃ t, read cs = .ok t) ∧ HasNoShortForm cs := by
  induction fuel generalizing parameter cs with
  | zero => exact absurd h (by simp [canonicalTypeWithin])
  | succ fuel ih =>
    obtain ⟨⟨components, inner, rest, hinner, rfl⟩ | ⟨w, -, rfl⟩, t, ht⟩ :=
      canonicalTypeWithin_cases h
    · -- a tuple: the components are canonical, and what follows them are brackets
      refine ⟨⟨t, ht⟩, ?_⟩
      have hcanonical : ∀ p ∈ inner, (∃ t, read p = .ok t) ∧ HasNoShortForm p := by
        intro p hp
        obtain ⟨q, -, hq⟩ := exists_of_mem_mapM hinner hp
        exact ih hq
      have hpassed : IsPassed 1 (joined inner) := IsPassed.joined fun p hp => by
        obtain ⟨⟨u, hu⟩, -⟩ := hcanonical p hp
        obtain ⟨rfl, hwf, -⟩ := chars_of_read hu
        exact (isPiece_chars u hwf).toIsPassed
      obtain ⟨hchars, hwf, -⟩ := chars_of_read ht
      obtain ⟨components, hcore, hsplit⟩ := chars_eq_of_head? hwf (by rw [hchars]; rfl)
      have hcomponents := isWellFormed_core t hwf
      rw [hcore] at hcomponents
      obtain ⟨-, hsuffix⟩ := parentheses_ext hpassed
        (IsPiece.joined (isPiece_of_mem_charsList components hcomponents.2)).toIsPassed
        (hchars.symm.trans hsplit)
      rw [hsuffix]
      exact (hasNoShortForm_tuple _).mpr fun p hp => (hcanonical p hp).2
    · exact ⟨⟨t, ht⟩, hasNoShortForm_expandAliases w⟩

/-! ## Taking a step -/

/-- A tuple of parameters is rebuilt from them. -/
theorem canonicalTypeWithin_tuple (fuel : Nat) {parameter rest : List Char}
    {pieces : List (List Char)}
    (hopen : dropTupleWord (strip parameter) = '(' :: joined pieces ++ ')' :: rest)
    (hpieces : ∀ p ∈ pieces, IsParameter p) :
    canonicalTypeWithin (fuel + 1) parameter =
      pieces.mapM (canonicalTypeWithin fuel) >>= fun inner =>
        canonicalOf parameter ('(' :: joined inner ++ ')' :: leadingWord rest) := by
  have htuple : IsTuple parameter (joined pieces) rest := by
    rw [IsTuple, hopen]
    exact (IsPassed.joined fun p hp => (hpieces p hp).toIsPassed).opens rest
  rw [htuple.canonicalTypeWithin_eq, splitParameters_joined hpieces, ok_bind]

/-! ## A step at a written type -/

/-- A type with components is not written like a word that says nothing. -/
theorem not_isIgnored_of_core {t : AbiType} {components : List AbiType}
    (hcore : t.core = .tuple components) : ¬ IsIgnored (chars t) := by
  intro hignored
  have hopen : '(' ∈ chars t := by
    rw [chars_of_core hcore]
    simp
  exact absurd (isAlpha_of_isIgnored hignored hopen) (by decide)

theorem chars_ne_nil (t : AbiType) (ht : IsWellFormed t) : chars t ≠ [] := by
  cases t with
  | basic base size => exact List.append_ne_nil_of_left_ne_nil ht.1 _
  | tuple components => simp [chars]
  | array item length => exact List.append_ne_nil_of_left_ne_nil (chars_ne_nil item ht.1) _

theorem charsList_eq_map (ts : List AbiType) : charsList ts = ts.map chars := by
  induction ts with
  | nil => rfl
  | cons t ts ih => rw [charsList, ih, List.map_cons]

theorem mem_charsList {ts : List AbiType} {p : List Char} :
    p ∈ charsList ts ↔ ∃ t ∈ ts, p = chars t := by
  rw [charsList_eq_map, List.mem_map]
  exact exists_congr fun t => and_congr_right fun _ => eq_comm

theorem length_le_joined {pieces : List (List Char)} {p : List Char} (h : p ∈ pieces) :
    p.length ≤ (joined pieces).length := by
  induction pieces with
  | nil => exact absurd h (by simp)
  | cons q pieces ih =>
    cases pieces with
    | nil => rw [List.mem_singleton.mp h]; exact Nat.le_refl _
    | cons r pieces =>
      have hlength : (joined (q :: r :: pieces)).length =
          q.length + ((joined (r :: pieces)).length + 1) := List.length_append
      rcases List.mem_cons.mp h with rfl | h
      · omega
      · have := ih h
        omega

theorem isWellFormed_of_mem {ts : List AbiType} (h : AreWellFormed ts) {t : AbiType} (ht : t ∈ ts) :
    IsWellFormed t := by
  induction ts with
  | nil => exact absurd ht (by simp)
  | cons u ts ih =>
    rcases List.mem_cons.mp ht with rfl | ht
    · exact h.1
    · exact ih h.2 ht

theorem isValid_of_mem {ts : List AbiType} (h : areValid ts = true) {t : AbiType} (ht : t ∈ ts) :
    t.isValid = true := by
  induction ts with
  | nil => exact absurd ht (by simp)
  | cons u ts ih =>
    rw [areValid, Bool.and_eq_true] at h
    rcases List.mem_cons.mp ht with rfl | ht
    · exact h.1
    · exact ih h.2 ht

/-- The components of a tuple are shorter than the tuple with its brackets. -/
theorem length_lt_of_mem_core {t u : AbiType} {components : List AbiType}
    (hcore : t.core = .tuple components) (hu : u ∈ components) :
    (chars u).length < (chars t).length := by
  have hmem : chars u ∈ charsList components := mem_charsList.mpr ⟨u, hu, rfl⟩
  have hlength := length_le_joined hmem
  rw [chars_of_core hcore, List.length_append, List.length_cons]
  omega

/-- The components of a tuple that is read are read from their written forms. -/
theorem read_of_mem_core {t u : AbiType} {components : List AbiType} (h : read (chars t) = .ok t)
    (hcore : t.core = .tuple components) (hu : u ∈ components) : read (chars u) = .ok u := by
  obtain ⟨-, hwf, hvalid⟩ := chars_of_read h
  have hcwf := isWellFormed_core t hwf
  have hcvalid := isValid_core t
  rw [hcore] at hcwf hcvalid
  exact read_chars (isWellFormed_of_mem hcwf.2 hu) (isValid_of_mem (hcvalid.trans hvalid) hu)

/-- The brackets behind a type end at the first blank. -/
theorem leadingWord_bracketChars (lengths : List (Option Nat)) {behind : List Char}
    (hbehind : ∀ c, behind.head? = some c → isBlank c = true) :
    leadingWord (bracketChars lengths ++ behind) = bracketChars lengths := by
  refine (takeWhile_dropWhile_append (fun c hc => ?_) fun c hc => ?_).1
  · rw [(isPlainChar_of_mem_bracketChars hc).isPlain.2]; rfl
  · rw [hbehind c hc]; rfl

theorem not_mem_chars_of_core {t : AbiType} (ht : IsWellFormed t) {base : String}
    {size : Option TypeSize} (hcore : t.core = .basic base size) : '(' ∉ chars t := by
  -- a base name, its size and brackets are plain characters
  have hbase := isWellFormed_core t ht
  rw [hcore] at hbase
  rw [chars_eq_core t, hcore, List.mem_append]
  rintro (hmem | hmem)
  · exact not_isPlainChar_parenthesis (.inl (isAlphanum_of_mem_basic hbase.2.1 hmem))
  · exact not_isPlainChar_parenthesis (isPlainChar_of_mem_bracketChars hmem)

/-- Of a type without components the short forms are replaced, if it is not taken for a word that
    says nothing. -/
theorem canonicalTypeWithin_chars_basic (fuel : Nat) {t : AbiType} (ht : IsWellFormed t)
    {base : String} {size : Option TypeSize} (hcore : t.core = .basic base size) :
    canonicalTypeWithin (fuel + 1) (chars t) =
      if IsIgnored (chars t) then .error (.abi (.missingType t.text))
      else canonicalOf (chars t) (expandAliases (chars t)) := by
  have hsolid := (isPiece_chars t ht).solid
  have hne := chars_ne_nil t ht
  have hstrip := hsolid.strip_eq_self
  have hplain : '(' ∉ strip (chars t) := by
    rw [hstrip]
    exact not_mem_chars_of_core ht hcore
  rw [canonicalTypeWithin_word fuel (by rwa [hstrip]) (head?_dropTupleWord_ne hplain), hstrip,
    countingWords, hsolid.words_eq hne, List.filter_cons, List.filter_nil]
  by_cases hignored : IsIgnored (chars t)
  · rw [if_pos hignored, if_neg (by simpa [IsIgnored] using hignored)]
    rfl
  · rw [if_neg hignored, if_pos (by simpa [IsIgnored] using hignored)]

/-- A tuple with its brackets is rebuilt from its components. -/
theorem canonicalTypeWithin_chars_tuple (fuel : Nat) {t : AbiType} (ht : IsWellFormed t)
    {components : List AbiType} (hcore : t.core = .tuple components) :
    canonicalTypeWithin (fuel + 1) (chars t) =
      (charsList components).mapM (canonicalTypeWithin fuel) >>= fun inner =>
        canonicalOf (chars t) ('(' :: joined inner ++ ')' :: bracketChars t.lengths) := by
  have hcomponents := isWellFormed_core t ht
  rw [hcore] at hcomponents
  have hpieces : ∀ p ∈ charsList components, IsParameter p := fun p hp => by
    obtain ⟨u, hu, rfl⟩ := mem_charsList.mp hp
    have huwf := isWellFormed_of_mem hcomponents.2 hu
    exact (isPiece_chars u huwf).isParameter (chars_ne_nil u huwf)
  have hopen : dropTupleWord (strip (chars t)) =
      '(' :: joined (charsList components) ++ ')' :: bracketChars t.lengths := by
    rw [(isPiece_chars t ht).solid.strip_eq_self, chars_of_core hcore]
    rfl
  have hbrackets : leadingWord (bracketChars t.lengths ++ []) = bracketChars t.lengths :=
    leadingWord_bracketChars t.lengths fun c hc => absurd hc (by simp)
  rw [List.append_nil] at hbrackets
  rw [canonicalTypeWithin_tuple fuel hopen hpieces, hbrackets]

/-- A class of types of which reading a written form again leaves all but the short forms: none is
    written like a word that says nothing, all are types without their short forms, and the components
    of a tuple in the class are in it. -/
structure StaysReadable (P : AbiType → Prop) : Prop where
  wellFormed : ∀ {t}, P t → IsWellFormed t
  counts : ∀ {t}, P t → ¬ IsIgnored (chars t)
  full : ∀ {t}, P t → ∃ u, read (expandAliases (chars t)) = .ok u
  component : ∀ {t components}, P t → t.core = .tuple components → ∀ u ∈ components, P u

/-- **Of a written type in such a class, only short forms are replaced.** -/
theorem StaysReadable.canonicalTypeWithin_chars {P : AbiType → Prop} (h : StaysReadable P)
    {fuel : Nat} {t : AbiType} (ht : P t) (hfuel : (chars t).length < fuel) :
    canonicalTypeWithin fuel (chars t) = .ok (expandAliases (chars t)) := by
  induction fuel generalizing t with
  | zero => exact absurd hfuel (by omega)
  | succ fuel ih =>
    have hwf := h.wellFormed ht
    have hcanonical : canonicalOf (chars t) (expandAliases (chars t)) =
        .ok (expandAliases (chars t)) := canonicalOf_eq_ok.mpr ⟨rfl, h.full ht⟩
    rcases core_cases t with ⟨base, size, hcore⟩ | ⟨components, hcore⟩
    · rw [canonicalTypeWithin_chars_basic fuel hwf hcore, if_neg (h.counts ht), hcanonical]
    · have hinner : (charsList components).mapM (canonicalTypeWithin fuel) =
          .ok ((charsList components).map expandAliases) := mapM_eq_map fun p hp => by
        obtain ⟨u, hu, rfl⟩ := mem_charsList.mp hp
        have hlength := length_lt_of_mem_core hcore hu
        exact ih (h.component ht hcore u hu) (by omega)
      have hexpanded : expandAliases (chars t) =
          '(' :: joined ((charsList components).map expandAliases) ++
            ')' :: bracketChars t.lengths := by
        rw [← expandAliases_tuple, chars_of_core hcore]
      rw [canonicalTypeWithin_chars_tuple fuel hwf hcore, hinner, ok_bind, ← hexpanded, hcanonical]

end Proposals.Abi
