import Proposals.Proofs.Abi.Signature
import Proposals.Proofs.Fault

/-!
# `Proofs.Abi.Parentheses` — what can be wrong with a signature

Reading a signature ends with a fault of its own kind, with one exception: a pair of parentheses with
nothing in it (`HasHollow`) among the parameters. The types that are read have no such pair (`IsTight`),
so it is one of the text itself. Each step of the reader looks at a part of the text, and a hollow pair
in a part is one in the whole (`HasHollow.of_isInfix`); with that the statement goes through the recursion
of `canonicalTypeWithin` (`within_canonicalTypeWithin`).
-/

namespace Proposals.Abi

open Proposals.Text Proposals.Number Proposals.Outcome AbiType

/-! ## Hollow pairs -/

/-- Somewhere in the text a parenthesis is opened and closed with nothing but blanks in between. -/
def HasHollow (cs : List Char) : Prop :=
  ∃ blanks : List Char, (∀ c ∈ blanks, isBlank c = true) ∧ '(' :: blanks ++ [')'] <:+: cs

theorem HasHollow.of_isInfix {cs ds : List Char} (h : HasHollow cs) (hin : cs <:+: ds) :
    HasHollow ds := by
  obtain ⟨blanks, hblanks, hpair⟩ := h
  exact ⟨blanks, hblanks, hpair.trans hin⟩

theorem isInfix_of_hasEmptyParentheses {cs : List Char} (h : hasEmptyParentheses cs = true) :
    ['(', ')'] <:+: cs := by
  induction cs using hasEmptyParentheses.induct with
  | case1 rest => exact ⟨[], rest, rfl⟩
  | case2 c rest hnot ih =>
    rw [hasEmptyParentheses.eq_2 c rest hnot] at h
    exact (ih h).trans (List.suffix_cons c rest).isInfix
  | case3 => exact absurd h (by simp [hasEmptyParentheses])

theorem hasEmptyParentheses_of_isInfix {cs : List Char} (h : ['(', ')'] <:+: cs) :
    hasEmptyParentheses cs = true := by
  obtain ⟨front, behind, rfl⟩ := h
  rw [List.append_assoc]
  induction front with
  | nil => rfl
  | cons c front ih =>
    rw [List.cons_append]
    unfold hasEmptyParentheses
    split
    · rfl
    · next heq =>
      obtain ⟨-, rfl⟩ := List.cons.inj heq
      exact ih
    · next heq => exact absurd heq (by simp)

theorem hasHollow_of_hasEmptyParentheses {cs : List Char} (h : hasEmptyParentheses cs = true) :
    HasHollow cs :=
  ⟨[], fun _ hc => absurd hc (by simp), isInfix_of_hasEmptyParentheses h⟩

/-! ## Parts of a text -/

theorem strip_isInfix (cs : List Char) : strip cs <:+: cs :=
  (stripRight_isPrefix (stripLeft cs)).isInfix.trans (List.dropWhile_suffix isBlank).isInfix

theorem splitWords_isInfix (cs : List Char) :
    (splitWords cs).1 <+: cs ∧ ∀ w ∈ (splitWords cs).2, w <:+: cs := by
  induction cs with
  | nil => exact ⟨List.prefix_rfl, fun w hw => absurd hw (by simp [splitWords])⟩
  | cons c cs ih =>
    obtain ⟨hword, hrest⟩ := ih
    have hcons : cs <:+: c :: cs := (List.suffix_cons c cs).isInfix
    simp only [splitWords]
    split
    · refine ⟨List.nil_prefix, fun w hw => ?_⟩
      simp only at hw
      split at hw
      · exact (hrest w hw).trans hcons
      · rcases List.mem_cons.mp hw with rfl | hw
        · exact hword.isInfix.trans hcons
        · exact (hrest w hw).trans hcons
    · exact ⟨List.cons_prefix_cons.mpr ⟨rfl, hword⟩, fun w hw => (hrest w hw).trans hcons⟩

theorem isInfix_of_mem_words {cs w : List Char} (h : w ∈ words cs) : w <:+: cs := by
  obtain ⟨hword, hrest⟩ := splitWords_isInfix cs
  unfold words at h
  simp only at h
  split at h
  · exact hrest w h
  · rcases List.mem_cons.mp h with rfl | h
    · exact hword.isInfix
    · exact hrest w h

theorem dropTupleWord_isSuffix (cs : List Char) : dropTupleWord cs <:+ cs := by
  unfold dropTupleWord
  split
  · next rest => exact ⟨"tuple".toList, rfl⟩
  · exact List.suffix_rfl

theorem joined_cons_cons (c : Char) (p : List Char) (ps : List (List Char)) :
    joined ((c :: p) :: ps) = c :: joined (p :: ps) := by
  cases ps <;> rfl

/-- The pieces with the commas between them are the text. -/
theorem joined_splitPieces? {depth : Nat} {cs p : List Char} {ps : List (List Char)}
    (h : splitPieces? depth cs = some (p, ps)) : joined (p :: ps) = cs := by
  induction cs generalizing depth p ps with
  | nil =>
    obtain ⟨-, rfl, rfl⟩ := splitPieces?_nil_eq_some h
    rfl
  | cons c cs ih =>
    rcases splitPieces?_cons_eq_some h with ⟨q, qs, rfl, rfl, rfl, rfl, hq⟩ | ⟨next, q, -, -, rfl, hq⟩
    · rw [← ih hq]
      rfl
    · rw [joined_cons_cons, ih hq]

theorem isInfix_joined {pieces : List (List Char)} {p : List Char} (h : p ∈ pieces) :
    p <:+: joined pieces := by
  induction pieces with
  | nil => exact absurd h (by simp)
  | cons q pieces ih =>
    cases pieces with
    | nil => rw [List.mem_singleton.mp h]; exact List.infix_rfl
    | cons r pieces =>
      rcases List.mem_cons.mp h with rfl | h
      · exact (List.prefix_append _ _).isInfix
      · exact (ih h).trans ((List.suffix_cons ',' _).trans (List.suffix_append _ _)).isInfix

/-- A list of parameters is blank, or its parameters are parts of it. -/
theorem splitParameters_eq_ok {body : List Char} {ps : List (List Char)}
    (h : splitParameters body = .ok ps) :
    (ps = [] ∧ ∀ c ∈ body, isBlank c = true) ∨ (ps ≠ [] ∧ ∀ p ∈ ps, p <:+: body) := by
  unfold splitParameters at h
  split at h
  · next hblank =>
    cases h
    exact .inl ⟨rfl, List.all_eq_true.mp hblank⟩
  · split at h
    · next p ps hsplit =>
      cases h
      refine .inr ⟨by simp, fun q hq => ?_⟩
      rw [← joined_splitPieces? hsplit]
      exact isInfix_joined hq
    · exact absurd h (by simp)

theorem splitParameters_eq_error {body : List Char} {f : Fault} (h : splitParameters body = .error f) :
    f = .abi .unbalanced := by
  unfold splitParameters at h
  split at h
  · exact absurd h (by simp)
  · split at h
    · exact absurd h (by simp)
    · exact (Except.error.inj h).symm

/-- The parts of a tuple are parts of the parameter. -/
theorem IsTuple.isInfix {parameter body behind : List Char} (h : IsTuple parameter body behind) :
    '(' :: body ++ ')' :: behind <:+: parameter :=
  h.eq ▸ (dropTupleWord_isSuffix _).isInfix.trans (strip_isInfix parameter)

theorem IsLedBy.isInfix {parameter w : List Char} (h : IsLedBy parameter w) : w <:+: parameter :=
  (isInfix_of_mem_words (List.mem_filter.mp (List.mem_of_mem_head? h.first)).1).trans
    (strip_isInfix parameter)

/-! ## Tight texts -/

/-- The text has no hollow pair, and none arises if it is put between others. -/
structure IsTight (cs : List Char) : Prop where
  ne_nil : cs ≠ []
  head : cs.head? ≠ some ')'
  last : cs.getLast? ≠ some '('
  inner : hasEmptyParentheses cs = false

theorem hasEmptyParentheses_cons {c : Char} {cs : List Char} (h : c ≠ '(' ∨ cs.head? ≠ some ')') :
    hasEmptyParentheses (c :: cs) = hasEmptyParentheses cs := by
  refine hasEmptyParentheses.eq_2 c cs ?_
  rintro rest rfl rfl
  rcases h with h | h
  · exact h rfl
  · exact h rfl

theorem hasEmptyParentheses_append {cs : List Char} (h : hasEmptyParentheses cs = false)
    (hlast : cs.getLast? ≠ some '(') (rest : List Char) :
    hasEmptyParentheses (cs ++ rest) = hasEmptyParentheses rest := by
  induction cs with
  | nil => rfl
  | cons c cs ih =>
    cases cs with
    | nil =>
      refine hasEmptyParentheses_cons (.inl ?_)
      rintro rfl
      exact hlast rfl
    | cons d cs =>
      have hpair : c ≠ '(' ∨ (d :: cs).head? ≠ some ')' := by
        by_contra hnot
        rw [not_or, not_not, not_not] at hnot
        obtain ⟨rfl, hd⟩ := hnot
        cases hd
        exact absurd h (by simp [hasEmptyParentheses])
      rw [hasEmptyParentheses_cons hpair] at h
      rw [List.getLast?_cons_cons] at hlast
      rw [List.cons_append, hasEmptyParentheses_cons (by simpa using hpair)]
      exact ih h hlast

namespace IsTight

theorem append {cs ds : List Char} (hcs : IsTight cs) (hds : ds ≠ [])
    (hlast : ds.getLast? ≠ some '(') (hinner : hasEmptyParentheses ds = false) :
    IsTight (cs ++ ds) where
  ne_nil := List.append_ne_nil_of_left_ne_nil hcs.ne_nil ds
  head := by rw [List.head?_append_of_ne_nil _ hcs.ne_nil]; exact hcs.head
  last := by rw [List.getLast?_append_of_ne_nil _ hds]; exact hlast
  inner := by rw [hasEmptyParentheses_append hcs.inner hcs.last]; exact hinner

theorem cons {c : Char} {cs : List Char} (hc : c ≠ ')') (hcs : IsTight cs) : IsTight (c :: cs) where
  ne_nil := by simp
  head := by simpa using hc
  last := by
    obtain ⟨d, ds, rfl⟩ := List.exists_cons_of_ne_nil hcs.ne_nil
    rw [List.getLast?_cons_cons]
    exact hcs.last
  inner := by rw [hasEmptyParentheses_cons (.inr hcs.head)]; exact hcs.inner

/-- A text without parentheses. -/
theorem of_plain {cs : List Char} (hne : cs ≠ []) (h : ∀ c ∈ cs, IsPlainChar c) : IsTight cs where
  ne_nil := hne
  head := fun hhead =>
    absurd (h _ (List.mem_of_mem_head? hhead)) (by unfold IsPlainChar; decide)
  last := fun hlast => not_isPlainChar_parenthesis (h _ (List.mem_of_getLast? hlast))
  inner := by
    cases hcase : hasEmptyParentheses cs with
    | false => rfl
    | true =>
      have hmem := (isInfix_of_hasEmptyParentheses hcase).subset (List.mem_cons_self (a := '('))
      exact absurd (h _ hmem) not_isPlainChar_parenthesis

/-- Texts with commas between them. -/
theorem joined {pieces : List (List Char)} (hne : pieces ≠ []) (h : ∀ p ∈ pieces, IsTight p) :
    IsTight (joined pieces) := by
  induction pieces with
  | nil => exact absurd rfl hne
  | cons p pieces ih =>
    obtain ⟨hp, hpieces⟩ := List.forall_mem_cons.mp h
    cases pieces with
    | nil => exact hp
    | cons q pieces =>
      have hrest := (ih (by simp) hpieces).cons (c := ',') (by decide)
      exact hp.append hrest.ne_nil hrest.last hrest.inner

/-- Behind a tight text in parentheses, what follows is as it was. -/
theorem hasEmptyParentheses_parentheses {cs : List Char} (h : IsTight cs) (rest : List Char) :
    hasEmptyParentheses ('(' :: cs ++ ')' :: rest) = hasEmptyParentheses rest := by
  have hopen := h.cons (c := '(') (by decide)
  rw [hasEmptyParentheses_append hopen.inner hopen.last]
  exact hasEmptyParentheses_cons (.inl (by decide))

theorem parentheses {cs : List Char} (h : IsTight cs) : IsTight ('(' :: cs ++ [')']) where
  ne_nil := by simp
  head := by simp
  last := by rw [List.getLast?_concat]; simp
  inner := h.hasEmptyParentheses_parentheses []

end IsTight

mutual
theorem isTight_chars : (t : AbiType) → IsWellFormed t → IsTight (chars t)
  | .basic _ _, ht =>
    IsTight.of_plain (List.append_ne_nil_of_left_ne_nil ht.1 _) fun _ hc =>
      .inl (isAlphanum_of_mem_basic ht.2.1 hc)
  | .tuple components, ht =>
    (IsTight.joined (by cases components with
      | nil => exact absurd rfl ht.1
      | cons t ts => simp [charsList]) (isTight_of_mem_charsList components ht.2)).parentheses
  | .array item length, ht => by
    have hplain : IsTight (lengthChars length) :=
      IsTight.of_plain (by cases length <;> simp [lengthChars]) fun c hc =>
        isPlainChar_of_mem_lengthChars hc
    exact (isTight_chars item ht.1).append hplain.ne_nil hplain.last hplain.inner

theorem isTight_of_mem_charsList : (ts : List AbiType) → AreWellFormed ts →
    ∀ p ∈ charsList ts, IsTight p
  | [], _ => fun p hp => absurd hp (by simp [charsList])
  | t :: ts, h => fun p hp => by
    rcases List.mem_cons.mp hp with rfl | hp
    · exact isTight_chars t h.1
    · exact isTight_of_mem_charsList ts h.2 p hp
end

/-- What is read as a type is tight. -/
theorem isTight_of_read {cs : List Char} {t : AbiType} (h : read cs = .ok t) : IsTight cs := by
  obtain ⟨rfl, hwf, -⟩ := chars_of_read h
  exact isTight_chars t hwf

/-! ## Short forms -/

theorem expandWord_ne_nil {w : List Char} (h : w ≠ []) : expandWord w ≠ [] := by
  unfold expandWord
  split
  · next short full hfind =>
    have hall : ∀ entry ∈ aliases, entry.2.toList ≠ [] := by decide
    exact hall _ (List.mem_of_find?_eq_some hfind)
  · exact h

/-- Nothing in a word is a parenthesis, nor is it in what the word is short for. -/
theorem isTight_expandWord {w : List Char} (hne : w ≠ []) (h : ∀ c ∈ w, isWordChar c = true) :
    IsTight (expandWord w) := by
  have hword : ∀ c ∈ expandWord w, isWordChar c = true := by
    rcases expandWord_cases w with hself | hfull
    · rw [hself]; exact h
    · exact hfull.1
  have hnot : ∀ {c : Char}, isWordChar c = false → c ∉ expandWord w := fun hc hmem =>
    absurd (hword _ hmem) (by rw [hc]; simp)
  refine ⟨expandWord_ne_nil hne, fun hhead => hnot (by decide) (List.mem_of_mem_head? hhead),
    fun hlast => hnot (by decide) (List.mem_of_getLast? hlast), ?_⟩
  cases hcase : hasEmptyParentheses (expandWord w) with
  | false => rfl
  | true =>
    exact absurd ((isInfix_of_hasEmptyParentheses hcase).subset (List.mem_cons_self (a := '(')))
      (hnot (by decide))

/-- The word under way goes on with a character of a word. -/
theorem isWordChar_of_mem_append {word : List Char} (hword : ∀ c ∈ word, isWordChar c = true) {c : Char}
    (hc : isWordChar c = true) : ∀ d ∈ word ++ [c], isWordChar d = true := by
  intro d hd
  rcases List.mem_append.mp hd with hd | hd
  · exact hword d hd
  · rw [List.mem_singleton.mp hd]; exact hc

/-- Replacing short forms neither makes nor removes a closing parenthesis in front. -/
theorem head?_expandFrom {word : List Char} (hword : ∀ c ∈ word, isWordChar c = true)
    (cs : List Char) (h : (expandFrom word cs).head? = some ')') : word = [] ∧ cs.head? = some ')' := by
  have hopen : ∀ w rest : List Char, (∀ c ∈ w, isWordChar c = true) →
      (expandWord w ++ rest).head? = some ')' → w = [] := by
    intro w rest hw hhead
    by_contra hne
    have htight := isTight_expandWord hne hw
    rw [List.head?_append_of_ne_nil _ htight.ne_nil] at hhead
    exact htight.head hhead
  induction cs generalizing word with
  | nil =>
    have hnil := hopen word [] hword (by rw [List.append_nil]; exact h)
    subst hnil
    exact absurd h (by decide)
  | cons c cs ih =>
    unfold expandFrom at h
    split at h
    · next hc =>
      obtain ⟨hnil, -⟩ := ih (isWordChar_of_mem_append hword hc) h
      exact absurd hnil (by simp)
    · have hnil := hopen _ _ hword h
      subst hnil
      exact ⟨rfl, h⟩

/-- Replacing short forms makes no empty pair of parentheses. -/
theorem hasEmptyParentheses_of_expandFrom {word : List Char} (hword : ∀ c ∈ word, isWordChar c = true)
    (cs : List Char) (h : hasEmptyParentheses (expandFrom word cs) = true) :
    hasEmptyParentheses cs = true := by
  -- a word under way is passed over
  have hpass : ∀ w rest : List Char, (∀ c ∈ w, isWordChar c = true) →
      hasEmptyParentheses (expandWord w ++ rest) = hasEmptyParentheses rest := by
    intro w rest hw
    by_cases hne : w = []
    · subst hne
      rfl
    · have htight := isTight_expandWord hne hw
      exact hasEmptyParentheses_append htight.inner htight.last rest
  induction cs generalizing word with
  | nil =>
    have hempty := hpass word [] hword
    rw [List.append_nil] at hempty
    exact absurd (hempty.symm.trans h) (by simp [hasEmptyParentheses])
  | cons c cs ih =>
    unfold expandFrom at h
    split at h
    · next hc =>
      have hrest := ih (isWordChar_of_mem_append hword hc) h
      rw [hasEmptyParentheses_cons (.inl (by rintro rfl; exact absurd hc (by decide)))]
      exact hrest
    · rw [hpass _ _ hword] at h
      by_cases hpair : c = '(' ∧ cs.head? = some ')'
      · obtain ⟨rfl, hhead⟩ := hpair
        obtain ⟨rest, rfl⟩ := List.head?_eq_some_iff.mp hhead
        rfl
      · rw [not_and_or] at hpair
        rw [hasEmptyParentheses_cons (hpair.imp_right fun hne hhead =>
          hne (head?_expandFrom (fun d hd => absurd hd (by simp)) cs hhead).2)] at h
        rw [hasEmptyParentheses_cons hpair]
        exact ih (fun d hd => absurd hd (by simp)) h

/-! ## Reading types and signatures -/

/-- The faults that reading a text as types may end with. -/
def IsTextFault (cs : List Char) (f : Fault) : Prop :=
  (∃ cause, f = .abi cause) ∨ f = .data .badValue ∧ HasHollow cs

theorem IsTextFault.of_isInfix {cs ds : List Char} (hin : cs <:+: ds) (f : Fault)
    (h : IsTextFault cs f) : IsTextFault ds f :=
  h.imp_right fun ⟨hf, hhollow⟩ => ⟨hf, hhollow.of_isInfix hin⟩

theorem within_canonicalOf {cs : List Char} (parameter : List Char) {candidate : List Char}
    (h : hasEmptyParentheses candidate = true → HasHollow cs) :
    Within (IsTextFault cs) (canonicalOf parameter candidate) := by
  unfold canonicalOf
  split
  · exact within_ok _ _
  · exact within_error.mpr (.inl ⟨_, rfl⟩)
  · next hread =>
    refine within_error.mpr (.inr ⟨rfl, h ?_⟩)
    unfold AbiType.read at hread
    split at hread
    · split at hread <;> exact absurd hread (by simp)
    · split at hread
      · next hempty => exact hempty
      · exact absurd hread (by simp)

/-- Canonical types are tight, with commas in between. -/
theorem isTight_joined_of_mapM {f : List Char → Outcome (List Char)} {components inner : List (List Char)}
    (hne : components ≠ []) (h : components.mapM f = .ok inner)
    (hread : ∀ p cs, f p = .ok cs → ∃ t, read cs = .ok t) : IsTight (AbiType.joined inner) := by
  refine IsTight.joined ?_ fun cs hcs => ?_
  · rintro rfl
    exact hne (List.forall₂_nil_right_iff.mp (mapM_eq_ok.mp h))
  · obtain ⟨p, -, hp⟩ := exists_of_mem_mapM h hcs
    obtain ⟨t, ht⟩ := hread p cs hp
    exact isTight_of_read ht

/-- **Only a hollow pair is a fault of another kind** in the text of a type. -/
theorem within_canonicalTypeWithin (fuel : Nat) (parameter : List Char) :
    Within (IsTextFault parameter) (canonicalTypeWithin fuel parameter) := by
  induction fuel generalizing parameter with
  | zero => exact within_error.mpr (.inl ⟨_, rfl⟩)
  | succ fuel ih =>
    rcases parameter_cases parameter with ⟨body, behind, htuple⟩ | ⟨w, hw⟩ | ⟨cause, hcause⟩
    · rw [htuple.canonicalTypeWithin_eq]
      have hin := htuple.isInfix
      have hpair : '(' :: body ++ [')'] <:+: parameter :=
        List.IsInfix.trans ⟨[], behind, by simp⟩ hin
      have hbody : body <:+: parameter := List.IsInfix.trans ⟨['('], [')'], by simp⟩ hpair
      have hbehind : behind <:+: parameter :=
        List.IsInfix.trans ⟨'(' :: (body ++ [')']), [], by simp⟩ hin
      refine Within.bind (fun f hf => .inl ⟨_, splitParameters_eq_error hf⟩)
        fun components hparts => ?_
      refine Within.bind (within_mapM fun p hp => ?_) fun inner hinner => ?_
      · -- a component is a part of the text
        rcases splitParameters_eq_ok hparts with ⟨rfl, -⟩ | ⟨-, hparts⟩
        · exact absurd hp (by simp)
        · exact (ih p).mono (IsTextFault.of_isInfix ((hparts p hp).trans hbody))
      · refine within_canonicalOf parameter fun hempty => ?_
        rcases splitParameters_eq_ok hparts with ⟨rfl, hblank⟩ | ⟨hne, -⟩
        · exact ⟨body, hblank, hpair⟩
        · -- the components are tight, so the empty pair stands behind them
          have htight := isTight_joined_of_mapM hne hinner fun _ _ hp => (canonicalTypeWithin_sound hp).1
          rw [htight.hasEmptyParentheses_parentheses] at hempty
          exact (hasHollow_of_hasEmptyParentheses hempty).of_isInfix
            ((List.takeWhile_prefix _).isInfix.trans hbehind)
    · rw [hw.canonicalTypeWithin_eq]
      refine within_canonicalOf parameter fun hempty => ?_
      exact (hasHollow_of_hasEmptyParentheses
        (hasEmptyParentheses_of_expandFrom (fun _ hc => absurd hc (by simp)) w hempty)).of_isInfix
        hw.isInfix
    · rw [hcause fuel]
      exact within_error.mpr (.inl ⟨_, rfl⟩)

/-- A hollow pair stands behind another opening parenthesis: it is no list of parameters but a part of
    one. -/
def HasHollowParameter (cs : List Char) : Prop :=
  ∃ body, '(' :: body <:+: cs ∧ HasHollow body

/-- The body of a signature stands behind an opening parenthesis of the text. -/
theorem HasParts.isInfix {signature : String} {front body : List Char}
    (h : HasParts signature front body) : '(' :: body <:+: signature.toList :=
  List.IsInfix.trans ⟨front, [')'], by rw [h.text, List.append_assoc]⟩ (strip_isInfix _)

/-- **Only a hollow pair among the parameters is a fault of another kind** in a signature. -/
theorem within_parseSignature (signature : String) :
    Within (fun f => (∃ cause, f = .abi cause) ∨
      f = .data .badValue ∧ HasHollowParameter signature.toList) (parseSignature signature) := by
  rcases parseSignature_cases signature with ⟨front, body, hparts⟩ | ⟨cause, hcause⟩
  · rw [hparts.parseSignature_eq]
    refine Within.bind (fun f hf => .inl ⟨_, splitParameters_eq_error hf⟩) fun parameters hsplit => ?_
    refine (within_mapM fun p hp => ?_).map _
    rcases splitParameters_eq_ok hsplit with ⟨rfl, -⟩ | ⟨-, hin⟩
    · exact absurd hp (by simp)
    · refine (within_canonicalTypeWithin _ p).mono fun f hf => hf.imp_right fun hfault => ?_
      exact ⟨hfault.1, _, hparts.isInfix, hfault.2.of_isInfix (hin p hp)⟩
  · rw [hcause]
    exact within_error.mpr (.inl ⟨_, rfl⟩)

end Proposals.Abi
