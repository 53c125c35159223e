import Proposals.Proofs.Abi.Loss
import Proposals.Proofs.Abi.Spacing

/-!
# `Proofs.Abi.Insensitive` — blanks around the marks of a signature

Parameters, types, brackets and names are told apart by splitting at blanks, so a blank beside a mark can
be harmless, or make a text unreadable, or take something away from a type. What it can take away is little:
a type loses the arrays that stand behind the blank, and a tuple is lost to the word `tuple` in front of it
(`Keeps`). Whether anything is lost can be seen at the places themselves (`Parts`).

The statement goes through the two ways in which a parameter is read. A tuple stays a tuple with spaced
components (`isTuple_of_spaces`), and so keeps its type if they do (`keeps_of_tuple`), or it is parted from
the word in front of it (`keeps_of_word`). Of any other parameter the word that counts may be cut
(`cut_of_isLedBy`), and what is left is a type only if brackets were cut off (`keeps_of_cut`). The main
statement is `parseSignature_insensitive`.
-/

namespace Proposals.Abi

open Proposals.Text Proposals.Number Proposals.Outcome AbiType

/-! ## Cutting a word with short forms -/

/-- What replaces a text that opens with a word opens with a word. -/
theorem head?_expandFrom_of_ne_nil {word : List Char} (hne : word ≠ [])
    (hword : ∀ c ∈ word, isWordChar c = true) (cs : List Char) :
    ∃ c, (expandFrom word cs).head? = some c ∧ isWordChar c = true := by
  have hopen : ∀ {w : List Char} (rest : List Char), w ≠ [] → (∀ c ∈ w, isWordChar c = true) →
      ∃ c, (expandWord w ++ rest).head? = some c ∧ isWordChar c = true := by
    intro w rest hw hchars
    obtain ⟨c, tail, htail⟩ := List.exists_cons_of_ne_nil (expandWord_ne_nil hw)
    refine ⟨c, by rw [htail]; rfl, ?_⟩
    have hmem : c ∈ expandWord w := by rw [htail]; simp
    rcases expandWord_cases w with hself | hfull
    · exact hchars c (hself ▸ hmem)
    · exact hfull.1 c hmem
  induction cs generalizing word with
  | nil =>
    have hwhole := hopen [] hne hword
    rwa [List.append_nil] at hwhole
  | cons c cs ih =>
    unfold expandFrom
    split
    · next hc => exact ih (by simp) (isWordChar_of_mem_append hword hc)
    · exact hopen _ hne hword

theorem head?_expandAliases {c : Char} (hc : isWordChar c = true) (cs : List Char) :
    ∃ d, (expandAliases (c :: cs)).head? = some d ∧ isWordChar d = true := by
  rw [expandAliases, expandFrom, if_pos hc]
  exact head?_expandFrom_of_ne_nil (by simp) (by simpa using hc) cs

theorem expandAliases_cons {c : Char} (hc : isWordChar c = false) (cs : List Char) :
    expandAliases (c :: cs) = c :: expandAliases cs :=
  expandAliases_append hc [] cs

theorem IsMark.isAlphanum {c : Char} (h : IsMark c) : c.isAlphanum = false := by
  have hword := h.isWordChar
  rw [Abi.isWordChar, Bool.or_eq_false_iff] at hword
  exact hword.1

/-- **Short forms are replaced on both sides of a mark.** -/
theorem exists_expandAliases_append {w : List Char} {c : Char}
    (h : IsMark c ∨ ∃ d, w.getLast? = some d ∧ IsMark d) (behind : List Char) :
    ∃ rest, expandAliases (w ++ c :: behind) = expandAliases w ++ rest ∧ rest ≠ [] ∧
      (rest.head? = some '[' → c = '[') ∧
      ((∃ d, rest.head? = some d ∧ d.isAlphanum = false) ∨
        ∃ d, (expandAliases w).getLast? = some d ∧ d.isAlphanum = false) := by
  rcases h with hc | ⟨d, hd, hmark⟩
  · refine ⟨c :: expandAliases behind, expandAliases_append hc.isWordChar w behind, by simp, ?_,
      .inl ⟨c, rfl, hc.isAlphanum⟩⟩
    exact fun hhead => Option.some.inj hhead
  · obtain ⟨front, rfl⟩ := List.getLast?_eq_some_iff.mp hd
    have hlast : expandAliases (front ++ [d]) = expandAliases front ++ [d] :=
      expandAliases_append hmark.isWordChar front []
    refine ⟨expandAliases (c :: behind), ?_, ?_, ?_, .inr ⟨d, ?_, hmark.isAlphanum⟩⟩
    · rw [hlast, List.append_assoc, List.append_assoc, List.singleton_append, List.singleton_append,
        expandAliases_append hmark.isWordChar]
    · cases hc : isWordChar c with
      | true =>
        obtain ⟨e, he, -⟩ := head?_expandAliases hc behind
        intro hnil
        rw [hnil] at he
        exact absurd he (by simp)
      | false => rw [expandAliases_cons hc]; simp
    · cases hc : isWordChar c with
      | true =>
        obtain ⟨e, he, hword⟩ := head?_expandAliases hc behind
        intro hhead
        cases he.symm.trans hhead
        exact absurd hword (by decide)
      | false =>
        rw [expandAliases_cons hc]
        exact fun hhead => Option.some.inj hhead
    · rw [hlast, List.getLast?_concat]

/-! ## Types with blanks put in -/

/-- The places where blanks take something away from a type: in front of a bracket, and between the word
    `tuple` and the parenthesis behind it, among the parameters. -/
def Parts (before : List Char) (c : Char) : Prop :=
  c = '[' ∨ c = '(' ∧ '(' ∈ before ∧ "tuple".toList.reverse <+: before

/-- The second type is what can be left of the first, and the first itself if no such place is allowed. -/
structure Keeps (may : List Char → Char → Prop) (t u : AbiType) : Prop where
  loses : Loses t u
  eq : (∀ before c, may before c → ¬ Parts before c) → u = t

variable {may : List Char → Char → Prop}

theorem Keeps.refl (t : AbiType) : Keeps may t t := ⟨.refl t, fun _ => rfl⟩

/-- Arrays are lost in front of a bracket. -/
theorem eq_nil_of_lost (hnot : ∀ before c, may before c → ¬ Parts before c) {lost : List (Option Nat)}
    (h : (bracketChars lost).head? = some '[' → ∃ before, may before '[') : lost = [] := by
  by_contra hne
  obtain ⟨before, hplace⟩ := h (head?_bracketChars hne)
  exact hnot _ _ hplace (.inl rfl)

/-- **A tuple keeps its components as they are kept**, and its arrays up to a place for blanks. -/
theorem keeps_of_tuple {t u : AbiType} (ht : IsWellFormed t) (hu : IsWellFormed u) {ts us : List AbiType}
    (hts : AreWellFormed ts) (hus : AreWellFormed us) (hcomponents : List.Forall₂ (Keeps may) ts us)
    {suffix rest : List Char}
    (htext : chars t = '(' :: joined (charsList ts) ++ ')' :: (suffix ++ rest))
    (htext' : chars u = '(' :: joined (charsList us) ++ ')' :: suffix)
    (hrest : ∀ c, rest.head? = some c → ∃ before, may before c) : Keeps may t u := by
  obtain ⟨hcore, hbrackets⟩ := core_of_chars_eq ht hts htext
  obtain ⟨hcore', hbrackets'⟩ := core_of_chars_eq hu hus htext'
  rw [hbrackets'] at hbrackets
  obtain ⟨lost, hlengths, rfl⟩ := exists_bracketChars (isPositiveLength_of_mem_lengths u hu)
    (isPositiveLength_of_mem_lengths t ht) hbrackets.symm
  have htuple : arraysOf (.tuple ts) (u.lengths ++ lost) = t := by
    rw [← hcore, ← hlengths, eq_arraysOf]
  have htuple' : arraysOf (.tuple us) u.lengths = u := by rw [← hcore', eq_arraysOf]
  generalize u.lengths = kept at htuple htuple'
  refine ⟨?_, fun hnot => ?_⟩
  · rw [← htuple, ← htuple']
    exact .tuple kept lost (hcomponents.imp fun _ _ h => h.loses)
  · have hsame : us = ts := by
      have hpairs : List.Forall₂ Eq us ts := (hcomponents.imp fun _ _ h => h.eq hnot).flip
      exact List.forall₂_eq_eq_eq ▸ hpairs
    rw [eq_nil_of_lost hnot (hrest '['), List.append_nil] at htuple
    rw [← htuple, ← htuple', hsame]

/-- Of a tuple that is parted from the word `tuple`, the word is left. -/
theorem keeps_of_word {t u : AbiType} (ht : IsWellFormed t) (hopens : (chars t).head? = some '(')
    (hu : read (expandAliases "tuple".toList) = .ok u) (hlost : ∃ before c, may before c ∧ Parts before c) :
    Keeps may t u := by
  have hname : read (expandAliases "tuple".toList) = .ok (.basic "tuple" none) := rfl
  cases hu.symm.trans hname
  obtain ⟨components, hcore, -⟩ := chars_eq_of_head? ht hopens
  obtain ⟨before, c, hplace, hparts⟩ := hlost
  refine ⟨?_, fun hnot => absurd hparts (hnot before c hplace)⟩
  rw [← eq_arraysOf t, hcore]
  exact .word components t.lengths

/-- **A word keeps its type up to a place for blanks.** -/
theorem keeps_of_cut (hmay : ∀ before c, may before c → BesideMark before c) {w w' : List Char}
    (hcut : Cut may w w') {t u : AbiType} (ht : read (expandAliases w) = .ok t)
    (hu : read (expandAliases w') = .ok u) : Keeps may t u := by
  obtain ⟨htext, htwf, -⟩ := chars_of_read ht
  obtain ⟨hutext, huwf, -⟩ := chars_of_read hu
  cases hcut with
  | same =>
    cases ht.symm.trans hu
    exact .refl t
  | @short _ behind front c hw hplace =>
    obtain ⟨rest, hexpanded, -, hbracket, hend⟩ :=
      exists_expandAliases_append ((hmay _ _ hplace).of_append hw) behind
    rw [← htext, ← hutext] at hexpanded
    rw [← hutext] at hend
    obtain ⟨lost, hcore, hlengths, rfl⟩ := exists_lost htwf huwf hexpanded hend
    have harrays : arraysOf u lost = t := by
      rw [← eq_arraysOf t, hcore, hlengths, arraysOf_append, eq_arraysOf]
    refine ⟨harrays ▸ .arrays u lost, fun hnot => ?_⟩
    have hnone : lost = [] := eq_nil_of_lost hnot fun hhead => ⟨_, hbracket hhead ▸ hplace⟩
    rw [hnone] at harrays
    exact harrays
  | @mark x behind _ c hx hignored hc =>
    -- the cut word would open with a parenthesis, and then so would the whole one
    exfalso
    rw [expandAliases_cons hc.isWordChar] at hutext
    obtain ⟨first, more, rfl⟩ := List.exists_cons_of_ne_nil hx
    have hfirst : isWordChar first = true := isWordChar_of_isAlphanum (by
      rw [Char.isAlphanum, isAlpha_of_isIgnored hignored (by simp), Bool.true_or])
    obtain ⟨d, hd, hword⟩ := head?_expandAliases hfirst (more ++ c :: behind)
    rw [← List.cons_append, ← htext] at hd
    have hopens : (chars u).head? = some c := by rw [hutext]; rfl
    rcases core_cases u with ⟨base, size, hbase⟩ | ⟨components, htuple⟩
    · have hletter := isAlphanum_of_head?_chars huwf hbase hopens
      exact absurd hc (not_isMark_of_isAlphanum hletter)
    · cases hopens.symm.trans (head?_chars_of_core htuple)
      rcases core_cases t with ⟨base, size, hbase⟩ | ⟨components, htuple⟩
      · refine not_mem_chars_of_core htwf hbase ?_
        rw [htext, expandAliases_append hc.isWordChar]
        simp
      · cases hd.symm.trans (head?_chars_of_core htuple)
        exact absurd hword (by decide)

/-! ## Parameters with blanks put in -/

/-- A text that is a tuple opens with its parenthesis, or with the word in front of it. -/
theorem eq_of_dropTupleWord_eq {cs tail : List Char} (h : dropTupleWord cs = '(' :: tail) :
    cs = '(' :: tail ∨ cs = "tuple".toList ++ '(' :: tail := by
  unfold dropTupleWord at h
  split at h
  · next rest => exact .inr (congrArg ("tuple".toList ++ ·) h)
  · exact .inl h

theorem toList_tuple : "tuple".toList = 't' :: ['u', 'p', 'l', 'e'] := rfl

/-- The word `tuple` in front of a blank is the word that counts. -/
theorem isLedBy_tuple {parameter gap rest : List Char} (hgap : IsGap gap) (hne : gap ≠ [])
    (h : strip parameter = "tuple".toList ++ (gap ++ rest)) : IsLedBy parameter "tuple".toList := by
  obtain ⟨b, gap, rfl⟩ := List.exists_cons_of_ne_nil hne
  have hb := (isGap_cons.mp hgap).1
  have hwords : words (strip parameter) = "tuple".toList :: words (b :: gap ++ rest) := by
    rw [h]
    refine (isSolid_of_all (by decide)).words_append (by decide) ?_
    rintro _ ⟨⟩
    exact hb
  refine ⟨fun hhead => ?_, ?_⟩
  · obtain ⟨tail, htail⟩ := List.head?_eq_some_iff.mp hhead
    rcases eq_of_dropTupleWord_eq htail with hplain | hword
    · exact absurd (h.symm.trans hplain) (by simp)
    · obtain ⟨rfl, -⟩ := List.cons.inj (List.append_cancel_left (h.symm.trans hword))
      exact absurd hb (by decide)
  · rw [countingWords_eq hwords, if_neg (by decide), List.head?_cons]

/-- The word behind a tuple is the same in the spaced text, or its front up to a place for blanks. -/
theorem leadingWord_of_spaces {before cs ds : List Char} (h : Spaces may before cs ds) :
    ∃ rest, leadingWord cs = leadingWord ds ++ rest ∧ ∀ c, rest.head? = some c → ∃ front, may front c := by
  rcases h.takeWhile with ⟨hsame, -⟩ | ⟨c, cut, tail, hcut, hplace, -⟩
  · refine ⟨[], by rw [List.append_nil, leadingWord, leadingWord, hsame], fun c hc => ?_⟩
    exact absurd hc (by simp)
  · refine ⟨c :: cut, hcut, ?_⟩
    rintro _ ⟨⟩
    exact ⟨_, hplace⟩

/-- The types of spaced parameters, if each is kept. -/
theorem exists_keeps {before : List Char} {f g : List Char → Outcome (List Char)}
    (hkeeps : ∀ {front p p' cs cs'}, before <:+ front → Spaces may front p p' → f p = .ok cs →
      g p' = .ok cs' → ∃ t u, read cs = .ok t ∧ read cs' = .ok u ∧ Keeps may t u)
    {components components' inner inner' : List (List Char)}
    (h : List.Forall₂ (SpacesWithin may before) components components')
    (hinner : components.mapM f = .ok inner) (hinner' : components'.mapM g = .ok inner') :
    ∃ ts us, inner = charsList ts ∧ inner' = charsList us ∧ AreWellFormed ts ∧ AreWellFormed us ∧
      List.Forall₂ (Keeps may) ts us := by
  rw [mapM_eq_ok] at hinner hinner'
  induction h generalizing inner inner' with
  | nil =>
    cases hinner
    cases hinner'
    exact ⟨[], [], rfl, rfl, trivial, trivial, .nil⟩
  | cons hspaced _ ih =>
    obtain ⟨front, hfront, hspaced⟩ := hspaced
    cases hinner with
    | cons hcs hrest =>
      cases hinner' with
      | cons hcs' hrest' =>
        obtain ⟨t, u, ht, hu, hkept⟩ := hkeeps hfront hspaced hcs hcs'
        obtain ⟨ts, us, rfl, rfl, hts, hus, hall⟩ := ih hrest hrest'
        obtain ⟨rfl, htwf, -⟩ := chars_of_read ht
        obtain ⟨rfl, huwf, -⟩ := chars_of_read hu
        exact ⟨t :: ts, u :: us, rfl, rfl, ⟨htwf, hts⟩, ⟨huwf, hus⟩, .cons hkept hall⟩

section

variable (hmay : ∀ before c, may before c → BesideMark before c)

include hmay

/-- **A tuple stays a tuple**, with its components and what follows them spaced, or its parenthesis is parted
    from the word in front of it. -/
theorem isTuple_of_spaces {before parameter parameter' body behind : List Char} (hbefore : '(' ∈ before)
    (h : Spaces may before parameter parameter') (htuple : IsTuple parameter body behind) :
    (∃ front body' behind', IsTuple parameter' body' behind' ∧ Spaces may ('(' :: front) body body' ∧
        Spaces may (')' :: (body.reverse ++ '(' :: front)) behind behind') ∨
      IsLedBy parameter' "tuple".toList ∧ ∃ front c, may front c ∧ Parts front c := by
  obtain ⟨gap, -, hstrip⟩ := h.strip
  have hopens : ∀ d, (strip parameter').head? = some d → isBlank d = false :=
    fun d hd => not_isBlank_of_head?_strip hd
  -- what is spaced from the parenthesis on is a tuple
  have hspaced : ∀ {front tail : List Char},
      Spaces may ('(' :: front) (body ++ ')' :: behind) tail →
      dropTupleWord (strip parameter') = '(' :: tail →
      ∃ body' behind', IsTuple parameter' body' behind' ∧ Spaces may ('(' :: front) body body' ∧
        Spaces may (')' :: (body.reverse ++ '(' :: front)) behind behind' := by
    intro front tail htail hdrop
    obtain ⟨body', behind', rfl, hclose, hbody, hbehind⟩ :=
      closingFrom?_of_spaces Nat.one_pos htuple.closes htail
    exact ⟨body', behind', ⟨hdrop, hclose⟩, hbody, hbehind⟩
  rcases eq_of_dropTupleWord_eq htuple.eq with hplain | hword
  · rw [hplain] at hstrip
    obtain ⟨tail, htail, hrest⟩ := hstrip.of_cons_of_opens hopens
    exact .inl ⟨_, hspaced hrest (by rw [htail]; rfl)⟩
  · rw [hword, toList_tuple, List.cons_append] at hstrip
    obtain ⟨tail, htail, hrest⟩ := hstrip.of_cons_of_opens hopens
    have hletters : ∀ c ∈ ['u', 'p', 'l', 'e'], ¬ IsMark c := not_isMark_of_all (by decide)
    have hbehind : ∀ d, ('t' :: (gap ++ before)).head? = some d → ¬ IsMark d := by
      rintro _ ⟨⟩
      decide
    obtain ⟨behindWord, rfl, hopen⟩ := eq_append_of_spaces hmay hletters hbehind hrest
    obtain ⟨gap', tail, rfl, hgap', hplace, hinner⟩ := hopen.of_cons
    by_cases hnil : gap' = []
    · subst hnil
      exact .inl ⟨_, hspaced hinner (by rw [htail]; rfl)⟩
    · refine .inr ⟨isLedBy_tuple hgap' hnil htail, _, _, hplace.resolve_left hnil,
        .inr ⟨rfl, by simp [hbefore], ?_⟩⟩
      exact ⟨gap ++ before, rfl⟩

/-- **A parameter that opens with no parenthesis stays one**, and the word that counts is the same or cut. -/
theorem cut_of_isLedBy {before parameter parameter' w : List Char}
    (h : Spaces may before parameter parameter') (hw : IsLedBy parameter w) {fuel : Nat} {cs : List Char}
    (hcs : canonicalTypeWithin (fuel + 1) parameter' = .ok cs) :
    ∃ w', IsLedBy parameter' w' ∧ Cut may w w' := by
  obtain ⟨gap, -, hstrip⟩ := h.strip
  have hplain : (dropTupleWord (strip parameter')).head? ≠ some '(' := fun hhead => by
    obtain ⟨tail, htail⟩ := List.head?_eq_some_iff.mp hhead
    refine hw.plain ?_
    rcases eq_of_dropTupleWord_eq htail with hopen | hword
    · have hsolid : IsSolid ['('] := List.forall_mem_singleton.mpr (by decide)
      rw [hopen] at hstrip
      obtain ⟨rest, hrest, -⟩ := Spaces.of_isSolid hsolid hstrip
      rw [hrest]
      rfl
    · have hsolid : IsSolid "tuple(".toList := isSolid_of_all (by decide)
      have hwhole : "tuple".toList ++ '(' :: tail = "tuple(".toList ++ tail := rfl
      rw [hword, hwhole] at hstrip
      obtain ⟨rest, hrest, -⟩ := Spaces.of_isSolid hsolid hstrip
      rw [hrest]
      rfl
  rcases parameter_cases parameter' with ⟨body, behind, htuple⟩ | ⟨w', hw'⟩ | ⟨cause, hcause⟩
  · exact absurd (by rw [htuple.eq]; rfl) hplain
  · exact ⟨w', hw', cut_of_spaces hmay hstrip hw.first hw'.first⟩
  · exact absurd ((hcause fuel).symm.trans hcs) (by simp)

/-- **What is read from a spaced parameter** is what can be left of the type, and the type itself if no blanks
    were put where they take something away. -/
theorem keeps_of_spaces {before parameter parameter' cs cs' : List Char} {fuel fuel' : Nat}
    (hbefore : '(' ∈ before) (h : Spaces may before parameter parameter')
    (hcs : canonicalTypeWithin fuel parameter = .ok cs)
    (hcs' : canonicalTypeWithin fuel' parameter' = .ok cs') :
    ∃ t u, read cs = .ok t ∧ read cs' = .ok u ∧ Keeps may t u := by
  induction fuel generalizing before parameter parameter' cs cs' fuel' with
  | zero => exact absurd hcs (by simp [canonicalTypeWithin])
  | succ fuel ih =>
    cases fuel' with
    | zero => exact absurd hcs' (by simp [canonicalTypeWithin])
    | succ fuel' =>
      obtain ⟨⟨t, ht⟩, -⟩ := canonicalTypeWithin_sound hcs
      obtain ⟨⟨u, hu⟩, -⟩ := canonicalTypeWithin_sound hcs'
      refine ⟨t, u, ht, hu, ?_⟩
      rcases parameter_cases parameter with ⟨body, behind, htuple⟩ | ⟨w, hw⟩ | ⟨cause, hcause⟩
      · rw [htuple.canonicalTypeWithin_eq] at hcs
        obtain ⟨components, hparts, hcs⟩ := bind_eq_ok.mp hcs
        obtain ⟨inner, hinner, hcs⟩ := bind_eq_ok.mp hcs
        obtain ⟨rfl, -⟩ := canonicalOf_eq_ok.mp hcs
        obtain ⟨htext, htwf, -⟩ := chars_of_read ht
        rcases isTuple_of_spaces hmay hbefore h htuple with
          ⟨front, body', behind', htuple', hbody, hbehind⟩ | ⟨hword, hlost⟩
        · rw [htuple'.canonicalTypeWithin_eq] at hcs'
          obtain ⟨components', hparts', hcs'⟩ := bind_eq_ok.mp hcs'
          obtain ⟨inner', hinner', hcs'⟩ := bind_eq_ok.mp hcs'
          obtain ⟨rfl, -⟩ := canonicalOf_eq_ok.mp hcs'
          obtain ⟨htext', huwf, -⟩ := chars_of_read hu
          obtain ⟨ts, us, rfl, rfl, hts, hus, hkept⟩ := exists_keeps
            (fun hfront => ih (hfront.subset List.mem_cons_self))
            (splitParameters_of_spaces hbody hparts hparts') hinner hinner'
          obtain ⟨rest, hsuffix, hrest⟩ := leadingWord_of_spaces hbehind
          rw [hsuffix] at htext
          exact keeps_of_tuple htwf huwf hts hus hkept htext htext' hrest
        · rw [hword.canonicalTypeWithin_eq] at hcs'
          obtain ⟨rfl, -⟩ := canonicalOf_eq_ok.mp hcs'
          exact keeps_of_word htwf (by rw [htext]; rfl) hu hlost
      · obtain ⟨w', hw', hcut⟩ := cut_of_isLedBy hmay h hw hcs'
        rw [hw.canonicalTypeWithin_eq] at hcs
        rw [hw'.canonicalTypeWithin_eq] at hcs'
        obtain ⟨rfl, -⟩ := canonicalOf_eq_ok.mp hcs
        obtain ⟨rfl, -⟩ := canonicalOf_eq_ok.mp hcs'
        exact keeps_of_cut hmay hcut ht hu
      · exact absurd ((hcause fuel).symm.trans hcs) (by simp)

/-! ## Signatures with blanks put in -/

/-- **The parts of a spaced signature**: its name is the same, and its parameters are spaced. -/
theorem HasParts.of_spaces {signature spaced : String} {front front' body body' : List Char}
    (h : Spaces may [] signature.toList spaced.toList) (hparts : HasParts signature front body)
    (hparts' : HasParts spaced front' body') :
    dropKeyword (strip front') = dropKeyword (strip front) ∧
      ∃ before, '(' ∈ before ∧ Spaces may before body body' := by
  obtain ⟨gap, hgap, hstrip⟩ := h.strip
  rw [List.append_nil, hparts.text] at hstrip
  have hbefore : ∀ d, gap.head? = some d → ¬ IsMark d := fun d hd hmark =>
    absurd (hgap.head? d hd) (by rw [hmark.isBlank]; exact Bool.false_ne_true)
  obtain ⟨tail, htail, hopen⟩ := eq_append_of_spaces hmay hparts.not_isMark hbefore hstrip
  obtain ⟨gap', inner, rfl, hgap', -, hinner⟩ := hopen.of_cons
  -- the first parenthesis is the same in both texts
  have hplain : ∀ c ∈ front ++ gap', c ≠ '(' := by
    intro c hc
    rcases List.mem_append.mp hc with hc | hc
    · exact hparts.plain c hc
    · rintro rfl
      exact absurd (hgap' _ hc) (by decide)
  have htext : front' ++ '(' :: (body' ++ [')']) = (front ++ gap') ++ '(' :: inner := by
    rw [List.append_assoc, ← htail, hparts'.text]
    rfl
  obtain rfl : front' = front ++ gap' := by
    rw [← takeWhile_front hparts'.plain, htext, takeWhile_front hplain]
  obtain ⟨-, rfl⟩ := List.cons.inj (List.append_cancel_left htext)
  exact ⟨by rw [strip_append_of_isGap front hgap'], _, List.mem_cons_self, hinner.of_concat (by decide)⟩

/-- What is read from a spaced signature. -/
theorem keeps_of_parseSignature {signature spaced : String} {s s' : Signature}
    (h : Spaces may [] signature.toList spaced.toList) (hs : parseSignature signature = .ok s)
    (hs' : parseSignature spaced = .ok s') :
    s'.name = s.name ∧ ∃ ts us, s.types = ts.map AbiType.text ∧ s'.types = us.map AbiType.text ∧
      AreWellFormed ts ∧ AreWellFormed us ∧ List.Forall₂ (Keeps may) ts us := by
  rcases parseSignature_cases signature with ⟨front, body, hparts⟩ | ⟨cause, hcause⟩
  · rcases parseSignature_cases spaced with ⟨front', body', hparts'⟩ | ⟨cause, hcause⟩
    · rw [hparts.parseSignature_eq] at hs
      rw [hparts'.parseSignature_eq] at hs'
      obtain ⟨parameters, hsplit, hs⟩ := bind_eq_ok.mp hs
      obtain ⟨types, htypes, rfl⟩ := map_eq_ok.mp hs
      obtain ⟨parameters', hsplit', hs'⟩ := bind_eq_ok.mp hs'
      obtain ⟨types', htypes', rfl⟩ := map_eq_ok.mp hs'
      obtain ⟨hname, before, hbefore, hbody⟩ := hparts.of_spaces hmay h hparts'
      obtain ⟨ts, us, rfl, rfl, hts, hus, hkept⟩ := exists_keeps
        (fun hfront => keeps_of_spaces hmay (hfront.subset hbefore))
        (splitParameters_of_spaces hbody hsplit hsplit') htypes htypes'
      refine ⟨congrArg String.ofList hname, ts, us, ?_, ?_, hts, hus, hkept⟩ <;>
        rw [charsList_eq_map, List.map_map] <;> rfl
    · exact absurd (hcause.symm.trans hs') (by simp)
  · exact absurd (hcause.symm.trans hs) (by simp)

end

/-- The places beside marks where blanks take nothing away. -/
def IsHarmless (before : List Char) (c : Char) : Prop := BesideMark before c ∧ ¬ Parts before c

/-- **Blanks around the marks of a signature make no difference**, except in front of a bracket and
    between the word `tuple` and its parenthesis: if the spaced text is a signature at all, it has the name
    of the other and as many types, of which each is what can be left of its counterpart; and it is the same
    signature if no blanks were put into those places. -/
theorem parseSignature_insensitive {signature spaced : String} {s s' : Signature}
    (h : Spaces BesideMark [] signature.toList spaced.toList) (hs : parseSignature signature = .ok s)
    (hs' : parseSignature spaced = .ok s') :
    s'.name = s.name ∧
      (∃ ts us, s.types = ts.map AbiType.text ∧ s'.types = us.map AbiType.text ∧
        AreWellFormed ts ∧ AreWellFormed us ∧ List.Forall₂ Loses ts us) ∧
      (Spaces IsHarmless [] signature.toList spaced.toList → s' = s) := by
  obtain ⟨hname, ts, us, hts, hus, htswf, huswf, hkept⟩ :=
    keeps_of_parseSignature (fun _ _ hplace => hplace) h hs hs'
  refine ⟨hname, ⟨ts, us, hts, hus, htswf, huswf, hkept.imp fun _ _ hpair => hpair.loses⟩,
    fun hharmless => ?_⟩
  obtain ⟨-, ts, us, hts, hus, -, -, hkept⟩ :=
    keeps_of_parseSignature (fun _ _ hplace => hplace.1) hharmless hs hs'
  have hpairs : List.Forall₂ Eq us ts :=
    (hkept.imp fun _ _ hpair => hpair.eq fun _ _ hplace => hplace.2).flip
  obtain rfl : us = ts := List.forall₂_eq_eq_eq ▸ hpairs
  obtain ⟨name, types⟩ := s
  obtain ⟨name', types'⟩ := s'
  rw [Signature.mk.injEq]
  exact ⟨hname, hus.trans hts.symm⟩

/-- Blanks behind a parenthesis and a comma, and in front of them. -/
theorem parseSignature_insensitive_pay :
    Spaces IsHarmless [] "pay(uint,int)".toList "pay (uint , int)".toList ∧
      parseSignature "pay(uint,int)" = .ok ⟨"pay", ["uint256", "int256"]⟩ ∧
      parseSignature "pay (uint , int)" = .ok ⟨"pay", ["uint256", "int256"]⟩ := by
  have hharmless : Spaces IsHarmless [] "pay(uint,int)".toList "pay (uint , int)".toList := by
    have hleft : "pay(uint,int)".toList =
        ['p', 'a', 'y', '(', 'u', 'i', 'n', 't', ',', 'i', 'n', 't', ')'] := rfl
    have hright : "pay (uint , int)".toList =
        ['p', 'a', 'y', ' ', '(', 'u', 'i', 'n', 't', ' ', ',', ' ', 'i', 'n', 't', ')'] := rfl
    have hopen : IsHarmless ['y', 'a', 'p'] '(' := ⟨.inl (by decide), by unfold Parts; decide⟩
    have hcomma : IsHarmless ['t', 'n', 'i', 'u', '(', 'y', 'a', 'p'] ',' :=
      ⟨.inl (by decide), by unfold Parts; decide⟩
    have hbehind : IsHarmless [',', 't', 'n', 'i', 'u', '(', 'y', 'a', 'p'] 'i' :=
      ⟨.inr ⟨',', rfl, by decide⟩, by unfold Parts; decide⟩
    rw [hleft, hright]
    exact .cons_self <| .cons_self <| .cons_self <| .cons_blank rfl hopen <| .cons_self <| .cons_self <|
      .cons_self <| .cons_self <| .cons_blank rfl hcomma <| .cons_blank rfl hbehind <| .refl _ _
  have hs : parseSignature "pay(uint,int)" = .ok ⟨"pay", ["uint256", "int256"]⟩ := rfl
  obtain ⟨s', hs'⟩ : ∃ s', parseSignature "pay (uint , int)" = .ok s' := ⟨_, rfl⟩
  have hsame := parseSignature_insensitive (hharmless.mono fun _ _ hplace => hplace.1) hs hs'
  exact ⟨hharmless, hs, hsame.2.2 hharmless ▸ hs'⟩

/-- A blank in front of the brackets makes a number of an array, and one behind the word `tuple` makes that
    word the type. -/
theorem not_parseSignature_insensitive :
    Spaces BesideMark [] "f(int[])".toList "f(int [])".toList ∧
      parseSignature "f(int[])" = .ok ⟨"f", ["int256[]"]⟩ ∧
      parseSignature "f(int [])" = .ok ⟨"f", ["int256"]⟩ ∧
      parseSignature "f(tuple(int))" = .ok ⟨"f", ["(int256)"]⟩ ∧
      parseSignature "f(tuple (int))" = .ok ⟨"f", ["tuple"]⟩ := by
  refine ⟨?_, rfl, rfl, rfl, rfl⟩
  have hleft : "f(int[])".toList = ['f', '(', 'i', 'n', 't', '[', ']', ')'] := rfl
  have hright : "f(int [])".toList = ['f', '(', 'i', 'n', 't', ' ', '[', ']', ')'] := rfl
  have hplace : BesideMark ['t', 'n', 'i', '(', 'f'] '[' := .inl (by decide)
  rw [hleft, hright]
  exact .cons_self <| .cons_self <| .cons_self <| .cons_self <| .cons_self <| .cons_blank rfl hplace <|
    .refl _ _

end Proposals.Abi
