import Proposals.Proofs.Abi.Nesting
import Proposals.Proofs.Text.Spacing

/-!
# `Proofs.Abi.Spacing` — signatures with blanks put in

The marks of a signature are its parentheses, commas and brackets. A text that is spaced beside marks
only (`BesideMark`) is the same where it has none (`eq_append_of_spaces`). The scanners count parentheses
and split at commas, and blanks are neither, so they find in a spaced text what they find in the text itself,
with the parts spaced (`closingFrom?_of_spaces`, `splitParameters_of_spaces`).

Words are another matter. The word that counts may be cut beside a mark in it, and where its front says
nothing, the next word counts instead (`Cut`, `cut_of_spaces`).
-/

namespace Proposals.Abi

open Proposals.Text Proposals.Outcome AbiType

/-! ## Marks -/

/-- The characters that structure the parameters of a signature. -/
def marks : List Char := ['(', ')', ',', '[', ']']

/-- The character is one of them. -/
def IsMark (c : Char) : Prop := c ∈ marks

instance (c : Char) : Decidable (IsMark c) := inferInstanceAs (Decidable (_ ∈ _))

/-- The place in front of the character is in front of a mark or behind one. -/
def BesideMark (before : List Char) (c : Char) : Prop :=
  IsMark c ∨ ∃ d, before.head? = some d ∧ IsMark d

/-- Behind a text, that place is in front of a mark or behind one that the text ends with. -/
theorem BesideMark.of_append {w front : List Char} {c : Char} (hw : w ≠ [])
    (h : BesideMark (w.reverse ++ front) c) : IsMark c ∨ ∃ d, w.getLast? = some d ∧ IsMark d := by
  rcases h with hc | ⟨d, hd, hmark⟩
  · exact .inl hc
  · rw [List.head?_append_of_ne_nil _ (by simpa using hw), List.head?_reverse] at hd
    exact .inr ⟨d, hd, hmark⟩

/-- What none of the marks is, no mark is. -/
theorem IsMark.eq_false {p : Char → Bool} {c : Char} (h : IsMark c) (hall : marks.all (!p ·) = true) :
    p c = false := by
  simpa using List.all_eq_true.mp hall c h

theorem IsMark.isBlank {c : Char} (h : IsMark c) : isBlank c = false := h.eq_false (by decide)

theorem IsMark.isWordChar {c : Char} (h : IsMark c) : isWordChar c = false := h.eq_false (by decide)

theorem not_isMark_of_all {w : List Char} (h : w.all (fun c => !decide (IsMark c)) = true) :
    ∀ c ∈ w, ¬ IsMark c := fun c hc => by simpa using List.all_eq_true.mp h c hc

theorem not_isMark_of_isAlphanum {c : Char} (h : c.isAlphanum = true) : ¬ IsMark c := fun hmark =>
  absurd (isWordChar_of_isAlphanum h) (by rw [hmark.isWordChar]; exact Bool.false_ne_true)

theorem not_isMark_of_isIgnored {w : List Char} (h : IsIgnored w) {c : Char} (hc : c ∈ w) :
    ¬ IsMark c :=
  not_isMark_of_isAlphanum (by rw [Char.isAlphanum, isAlpha_of_isIgnored h hc, Bool.true_or])

/-- A name has no marks. -/
theorem not_isMark_of_isIdentifier {name : List Char} (h : isIdentifier name = true) :
    ∀ c ∈ name, ¬ IsMark c := by
  cases name with
  | nil => exact List.forall_mem_nil _
  | cons d name =>
    rw [isIdentifier, Bool.and_eq_true, List.all_eq_true] at h
    intro c hc hmark
    rcases List.mem_cons.mp hc with rfl | hc
    · have hnot : isNameStart c = false := hmark.eq_false (by decide)
      exact absurd h.1 (by rw [hnot]; exact Bool.false_ne_true)
    · have hnot : isNameContinue c = false := hmark.eq_false (by decide)
      exact absurd (h.2 c hc) (by rw [hnot]; exact Bool.false_ne_true)

/-- In front of its parameters a signature has no marks. -/
theorem HasParts.not_isMark {signature : String} {front body : List Char}
    (h : HasParts signature front body) : ∀ c ∈ front, ¬ IsMark c := by
  have hstripped : ∀ {cs : List Char}, (∀ c ∈ strip cs, ¬ IsMark c) → ∀ c ∈ cs, ¬ IsMark c := by
    intro cs hcs c hc hmark
    rcases isBlank_or_mem_strip hc with hblank | hmem
    · exact absurd hblank (by rw [hmark.isBlank]; exact Bool.false_ne_true)
    · exact hcs c hmem hmark
  refine hstripped fun c hc => ?_
  have hname := not_isMark_of_isIdentifier h.name
  unfold dropKeyword at hname
  split at hname
  · next hkeyword =>
    obtain ⟨rest, hrest⟩ := List.isPrefixOf_iff_prefix.mp hkeyword
    have hdrop : (strip front).drop "function ".length = rest := by
      rw [← hrest]
      exact List.drop_left
    rw [hdrop] at hname
    rw [← hrest] at hc
    rcases List.mem_append.mp hc with hc | hc
    · exact not_isMark_of_all (by decide) c hc
    · exact hstripped hname c hc
  · exact hname c hc

section

variable {may : List Char → Char → Prop} (hmay : ∀ before c, may before c → BesideMark before c)
  {before cs ds : List Char}

include hmay

/-- **No blanks are put into a text without marks.** -/
theorem eq_append_of_spaces {w : List Char} (hw : ∀ c ∈ w, ¬ IsMark c)
    (hbefore : ∀ d, before.head? = some d → ¬ IsMark d) (h : Spaces may before (w ++ cs) ds) :
    ∃ tail, ds = w ++ tail ∧ Spaces may (w.reverse ++ before) cs tail := by
  induction w generalizing before ds with
  | nil => exact ⟨ds, rfl, h⟩
  | cons c w ih =>
    obtain ⟨hc, hw⟩ := List.forall_mem_cons.mp hw
    obtain ⟨gap, tail, rfl, hgap, hplace, htail⟩ := h.of_cons
    have hnil : gap = [] := hplace.resolve_right fun hplace => by
      rcases hmay _ _ hplace with hmark | ⟨d, hd, hmark⟩
      · exact hc hmark
      · exact hbefore d hd hmark
    subst hnil
    have hbehind : ∀ d, (c :: before).head? = some d → ¬ IsMark d := by
      rintro _ ⟨⟩
      exact hc
    obtain ⟨rest, rfl, hrest⟩ := ih hw hbehind htail
    refine ⟨rest, rfl, ?_⟩
    rwa [List.reverse_cons, List.append_assoc, List.singleton_append]

end

/-! ## Scanners -/

/-- **The closing parenthesis is found where it was**: what it closes is spaced, and so is the rest. -/
theorem closingFrom?_of_spaces {may : List Char → Char → Prop} {depth : Nat} (hdepth : 0 < depth)
    {before body behind ds : List Char}
    (hclose : closingFrom? depth (body ++ ')' :: behind) = some body.length)
    (h : Spaces may before (body ++ ')' :: behind) ds) :
    ∃ body' behind', ds = body' ++ ')' :: behind' ∧
      closingFrom? depth (body' ++ ')' :: behind') = some body'.length ∧
      Spaces may before body body' ∧ Spaces may (')' :: (body.reverse ++ before)) behind behind' := by
  induction body generalizing depth before ds with
  | nil =>
    obtain ⟨gap, tail, rfl, hgap, -, h⟩ := h.of_cons
    refine ⟨gap, tail, rfl, ?_, .nil hgap, h⟩
    have hone : depth ≤ 1 := by
      rcases closingFrom?_cons_eq_some hdepth hclose with ⟨-, hone, -⟩ | ⟨_, n, -, -, hlength, -⟩
      · exact hone.le
      · exact absurd hlength (Nat.succ_ne_zero n).symm
    rw [(IsPassed.of_isGap hgap).closes depth (Nat.zero_le _) hdepth, closingFrom?,
      if_neg (by decide), if_pos rfl, if_pos hone, Option.map_some, Nat.zero_add]
  | cons c body ih =>
    obtain ⟨gap, tail, rfl, hgap, hplace, h⟩ := h.of_cons
    obtain ⟨deeper, n, hdeeper, hleads, hlength, hn⟩ :=
      (closingFrom?_cons_eq_some hdepth hclose).resolve_left fun hend => Nat.succ_ne_zero _ hend.1
    obtain rfl : body.length = n := Nat.succ_injective hlength
    obtain ⟨body', behind', rfl, hclose', hbody, hbehind⟩ := ih hdeeper hn h
    refine ⟨gap ++ c :: body', behind', by rw [List.append_assoc, List.cons_append], ?_,
      .cons hgap hplace hbody, ?_⟩
    · rw [List.append_assoc, (IsPassed.of_isGap hgap).closes depth (Nat.zero_le _) hdepth,
        List.cons_append, closingFrom?_of_leads hleads hdeeper, hclose', Option.map_some,
        Option.map_some, List.length_append, List.length_cons]
      exact congrArg some (by omega)
    · rwa [List.reverse_cons, List.append_assoc, List.singleton_append]

/-- One of the two texts is the other with gaps, behind a text that holds what stands in front of both. -/
def SpacesWithin (may : List Char → Char → Prop) (before cs ds : List Char) : Prop :=
  ∃ front, before <:+ front ∧ Spaces may front cs ds

/-- **The pieces between commas are spaced one by one.** -/
theorem splitPieces?_of_spaces {may : List Char → Char → Prop} {depth : Nat}
    {before cs ds p : List Char} {ps : List (List Char)} (h : Spaces may before cs ds)
    (hsplit : splitPieces? depth cs = some (p, ps)) :
    ∃ p' ps', splitPieces? depth ds = some (p', ps') ∧ Spaces may before p p' ∧
      List.Forall₂ (SpacesWithin may before) ps ps' := by
  induction h generalizing depth p ps with
  | @nil before gap hgap =>
    obtain ⟨rfl, rfl, rfl⟩ := splitPieces?_nil_eq_some hsplit
    have hpassed := (IsPassed.of_isGap hgap).splits 0 (Nat.le_refl 0) []
    rw [List.append_nil] at hpassed
    exact ⟨gap, [], hpassed.trans (by simp [splitPieces?]), .nil hgap, .nil⟩
  | @cons before gap cs ds c hgap hplace h ih =>
    have hpassed := (IsPassed.of_isGap hgap).splits depth (Nat.zero_le _) (c :: ds)
    have hwiden : ∀ {qs qs' : List (List Char)}, List.Forall₂ (SpacesWithin may (c :: before)) qs qs' →
        List.Forall₂ (SpacesWithin may before) qs qs' := by
      intro qs qs' hqs
      refine hqs.imp fun q q' hq => ?_
      obtain ⟨front, hfront, hq⟩ := hq
      exact ⟨front, (List.suffix_cons c before).trans hfront, hq⟩
    rcases splitPieces?_cons_eq_some hsplit with
      ⟨q, qs, rfl, rfl, rfl, rfl, hq⟩ | ⟨deeper, q, hleads, hcomma, rfl, hq⟩
    · obtain ⟨q', qs', hq', hspaced, hqs⟩ := ih hq
      refine ⟨gap, q' :: qs', ?_, .nil hgap, .cons ⟨_, List.suffix_cons _ _, hspaced⟩ (hwiden hqs)⟩
      rw [hpassed, splitPieces?_comma, hq']
      simp
    · obtain ⟨q', qs', hq', hspaced, hqs⟩ := ih hq
      refine ⟨gap ++ c :: q', qs', ?_, .cons hgap hplace hspaced, hwiden hqs⟩
      rw [hpassed, splitPieces?_of_leads hleads hcomma, hq']
      simp

/-- The parameters of a list are spaced one by one. -/
theorem splitParameters_of_spaces {may : List Char → Char → Prop} {before body body' : List Char}
    {parameters parameters' : List (List Char)} (h : Spaces may before body body')
    (hsplit : splitParameters body = .ok parameters) (hsplit' : splitParameters body' = .ok parameters') :
    List.Forall₂ (SpacesWithin may before) parameters parameters' := by
  by_cases hgap : IsGap body
  · rw [splitParameters_of_isGap hgap] at hsplit
    rw [splitParameters_of_isGap (h.isGap_iff.mpr hgap)] at hsplit'
    cases hsplit
    cases hsplit'
    exact .nil
  · have hgap' := mt h.isGap_iff.mp hgap
    obtain ⟨p, ps, hpieces, rfl⟩ := (splitParameters_eq_ok_iff_splitPieces? hgap).mp hsplit
    obtain ⟨p', ps', hpieces', rfl⟩ := (splitParameters_eq_ok_iff_splitPieces? hgap').mp hsplit'
    obtain ⟨q, qs, hq, hspaced, hqs⟩ := splitPieces?_of_spaces h hpieces
    cases hpieces'.symm.trans hq
    exact .cons ⟨before, List.suffix_rfl, hspaced⟩ hqs

/-! ## The word that counts -/

/-- What the word that counts can have become: it is the same, or cut in front of a place for blanks, or
    what is left in front says nothing and the word that counts now opens with a mark. -/
inductive Cut (may : List Char → Char → Prop) : List Char → List Char → Prop where
  | same (w : List Char) : Cut may w w
  | short {w behind front : List Char} {c : Char} (hw : w ≠ []) (hplace : may (w.reverse ++ front) c) :
      Cut may (w ++ c :: behind) w
  | mark {x behind w' : List Char} {c : Char} (hx : x ≠ []) (hignored : IsIgnored x) (hc : IsMark c) :
      Cut may (x ++ c :: behind) (c :: w')

theorem countingWords_eq {cs w rest : List Char} (h : words cs = w :: words rest) :
    countingWords cs = if IsIgnored w then countingWords rest else w :: countingWords rest := by
  unfold countingWords
  rw [h, List.filter_cons]
  by_cases hw : IsIgnored w
  · rw [if_pos hw, if_neg (by simpa [IsIgnored] using hw)]
  · rw [if_neg hw, if_pos (by simpa [IsIgnored] using hw)]

section

variable {may : List Char → Char → Prop} (hmay : ∀ before c, may before c → BesideMark before c)

include hmay

/-- A word that can be cut says something: there is a mark beside the place. -/
theorem not_isIgnored_of_place {x front behind : List Char} {d : Char} (hx : x ≠ [])
    (hplace : may (x.reverse ++ front) d) : ¬ IsIgnored (x ++ d :: behind) := by
  intro hignored
  rcases (hmay _ _ hplace).of_append hx with hd | ⟨e, he, hmark⟩
  · exact not_isMark_of_isIgnored hignored (by simp) hd
  · exact not_isMark_of_isIgnored hignored (List.mem_append_left _ (List.mem_of_getLast? he)) hmark

/-- Where a word is cut, what is left in front counts, or says nothing and what stands behind opens with
    the mark. -/
theorem cut_of_place {x front behind after tail w' : List Char} {d : Char} (hx : x ≠ [])
    (hplace : may (x.reverse ++ front) d) (hafter : stripLeft after = d :: tail)
    (hw' : (if IsIgnored x then countingWords after else x :: countingWords after).head? = some w') :
    Cut may (x ++ d :: behind) w' := by
  split at hw'
  · next hignored =>
    have hd : IsMark d := by
      rcases (hmay _ _ hplace).of_append hx with hd | ⟨e, he, hmark⟩
      · exact hd
      · exact absurd hmark (not_isMark_of_isIgnored hignored (List.mem_of_getLast? he))
    have hwords := (words_stripLeft after).symm.trans
      ((congrArg words hafter).trans (words_cons_of_opens hd.isBlank tail))
    have hopens : (d :: tail).takeWhile (!isBlank ·) = d :: tail.takeWhile (!isBlank ·) :=
      List.takeWhile_cons_of_pos (by simp [hd.isBlank])
    rw [countingWords_eq hwords, hopens,
      if_neg fun hignored => not_isMark_of_isIgnored hignored (by simp) hd] at hw'
    cases hw'
    exact .mark hx hignored hd
  · cases hw'
    exact .short hx hplace

/-- **The word that counts is the same in the spaced text, or it is cut.** -/
theorem cut_of_spaces {before cs ds w w' : List Char} (h : Spaces may before cs ds)
    (hw : (countingWords cs).head? = some w) (hw' : (countingWords ds).head? = some w') :
    Cut may w w' := by
  induction hwords : words cs generalizing before cs ds with
  | nil =>
    rw [countingWords, hwords] at hw
    exact absurd hw (by simp)
  | cons v vs ih =>
    -- both texts open with a word, from the same character on
    obtain ⟨gap, -, hleft⟩ := h.stripLeft
    have hleftWords := (words_stripLeft cs).trans hwords
    cases hcs : stripLeft cs with
    | nil => exact absurd (hcs ▸ hleftWords) (by simp [words, splitWords])
    | cons c rest =>
      have hc := not_isBlank_of_stripLeft (congrArg List.head? hcs)
      obtain ⟨rest', hds, -⟩ := (hcs ▸ hleft).of_cons_of_opens fun d hd => not_isBlank_of_stripLeft hd
      rw [hcs, hds] at hleft
      rw [hcs, words_cons_of_opens hc] at hleftWords
      obtain ⟨rfl, rfl⟩ := List.cons.inj hleftWords
      have hcounting := countingWords_eq hwords
      have hcounting' := countingWords_eq ((words_stripLeft ds).symm.trans
        ((congrArg words hds).trans (words_cons_of_opens hc rest')))
      rw [hcounting] at hw
      rw [hcounting'] at hw'
      rcases hleft.takeWhile with ⟨hsame, hrest⟩ | ⟨d, cut, tail, hcut, hplace, htail⟩
      · rw [hsame] at hw'
        split at hw
        · next hignored =>
          rw [if_pos hignored] at hw'
          exact ih hrest hw hw' rfl
        · next hcounts =>
          rw [if_neg hcounts] at hw'
          cases hw
          cases hw'
          exact .same _
      · have hx : (c :: rest').takeWhile (!isBlank ·) ≠ [] := by
          rw [List.takeWhile_cons_of_pos (by simp [hc])]
          exact List.cons_ne_nil _ _
        rw [hcut, if_neg (not_isIgnored_of_place hmay hx hplace)] at hw
        cases hw
        exact cut_of_place hmay hx hplace htail hw'

end

end Proposals.Abi
