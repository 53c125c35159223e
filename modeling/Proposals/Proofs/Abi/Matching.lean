import Proposals.Proofs.Abi.Parentheses

/-!
# `Proofs.Abi.Matching` — which texts are signatures, and which of them match

Reading any text ends with a signature or with a fault that says why it is none, but for one: where an
empty pair of parentheses stands in a type. It matters when such a pair is met, since a fault in front of it
hides it, and so the exact condition follows the reader through the parameters (`MeetsHollow`). The fuel of
the reader never runs out (`canonicalTypeWithin_eq_canonicalType`), so the condition does not mention it.

Matching compares canonical forms (`signaturesMatch_eq_true_iff`). It is therefore symmetric and transitive,
and a text matches itself if it has a canonical form; an answer is missing only where a hollow pair is met
(`signaturesMatch_total`).
-/

namespace Proposals.Abi

open Proposals.Text Proposals.Outcome AbiType

/-! ## Fuel -/

/-- What is left of a parameter in its components is shorter. -/
theorem IsTuple.length_lt {parameter body behind : List Char} (h : IsTuple parameter body behind)
    {components : List (List Char)} (hparts : splitParameters body = .ok components) :
    ∀ p ∈ components, p.length < parameter.length := by
  intro p hp
  rcases splitParameters_eq_ok hparts with ⟨rfl, -⟩ | ⟨-, hin⟩
  · exact absurd hp (by simp)
  · have hwhole := h.isInfix.length_le
    have hpart := (hin p hp).length_le
    simp only [List.length_append, List.length_cons] at hwhole
    omega

theorem canonicalTypeWithin_congr {parameter : List Char} {fuel fuel' : Nat}
    (h : parameter.length < fuel) (h' : parameter.length < fuel') :
    canonicalTypeWithin fuel parameter = canonicalTypeWithin fuel' parameter := by
  induction fuel generalizing parameter fuel' with
  | zero => exact absurd h (Nat.not_lt_zero _)
  | succ fuel ih =>
    obtain ⟨fuel', rfl⟩ := Nat.exists_eq_add_one_of_ne_zero (Nat.ne_zero_of_lt h')
    rcases parameter_cases parameter with ⟨body, behind, htuple⟩ | ⟨w, hw⟩ | ⟨cause, hcause⟩
    · rw [htuple.canonicalTypeWithin_eq, htuple.canonicalTypeWithin_eq]
      cases hparts : splitParameters body with
      | error f => rfl
      | ok components =>
        have hlength := htuple.length_lt hparts
        have hcomponents : components.mapM (canonicalTypeWithin fuel) =
            components.mapM (canonicalTypeWithin fuel') := mapM_congr fun p hp => by
          have hlt := hlength p hp
          exact ih (by omega) (by omega)
        rw [ok_bind, ok_bind, hcomponents]
    · rw [hw.canonicalTypeWithin_eq, hw.canonicalTypeWithin_eq]
    · rw [hcause, hcause]

/-- Fuel beyond the length of the parameter makes no difference. -/
theorem canonicalTypeWithin_eq_canonicalType {parameter : List Char} {fuel : Nat}
    (h : parameter.length < fuel) : canonicalTypeWithin fuel parameter = canonicalType parameter :=
  canonicalTypeWithin_congr h (Nat.lt_succ_self _)

theorem IsTuple.canonicalType_eq {parameter body behind : List Char}
    (h : IsTuple parameter body behind) :
    canonicalType parameter =
      splitParameters body >>= fun components => components.mapM canonicalType >>= fun inner =>
        canonicalOf parameter ('(' :: joined inner ++ ')' :: leadingWord behind) := by
  rw [canonicalType, h.canonicalTypeWithin_eq]
  cases hparts : splitParameters body with
  | error f => rfl
  | ok components =>
    have hcomponents : components.mapM (canonicalTypeWithin parameter.length) =
        components.mapM canonicalType := mapM_congr fun p hp =>
      canonicalTypeWithin_eq_canonicalType (h.length_lt hparts p hp)
    rw [ok_bind, ok_bind, hcomponents]

/-! ## Where a hollow pair is met -/

/-- Only a text that is no type can have an empty pair of parentheses, and it is refused for it. -/
theorem canonicalOf_eq_badValue {parameter candidate : List Char} :
    canonicalOf parameter candidate = .error (.data .badValue) ↔
      hasEmptyParentheses candidate = true := by
  unfold canonicalOf AbiType.read
  cases hparse : parse? candidate with
  | some t =>
    obtain ⟨rfl, hwf⟩ := chars_of_parse? hparse
    rw [(isTight_chars t hwf).inner]
    cases hvalid : t.isValid <;> simp [hvalid]
  | none => cases hempty : hasEmptyParentheses candidate <;> simp

theorem hasEmptyParentheses_expandAliases {w : List Char} :
    hasEmptyParentheses (expandAliases w) = true ↔ hasEmptyParentheses w = true := by
  constructor
  · exact hasEmptyParentheses_of_expandFrom (List.forall_mem_nil _) w
  · intro h
    obtain ⟨front, behind, rfl⟩ := isInfix_of_hasEmptyParentheses h
    have hclose : expandAliases (')' :: behind) = ')' :: expandAliases behind :=
      expandAliases_append (by decide) [] behind
    have hexpanded : expandAliases (front ++ ['(', ')'] ++ behind) =
        expandAliases front ++ ['(', ')'] ++ expandAliases behind := by
      rw [List.append_assoc, List.cons_append, List.singleton_append,
        expandAliases_append (by decide), hclose, List.append_assoc]
      rfl
    exact hasEmptyParentheses_of_isInfix ⟨_, _, hexpanded.symm⟩

/-- The reader comes to a hollow pair before it comes to any other fault: the parentheses of a tuple are
    blank, or it is in the first component that is no type, or in the word behind a tuple of types, or
    in the word that counts. -/
inductive MeetsHollow : List Char → Prop where
  | blank {parameter body behind : List Char} (htuple : IsTuple parameter body behind)
      (hblank : IsGap body) : MeetsHollow parameter
  | component {parameter body behind p : List Char} {before after : List (List Char)}
      (htuple : IsTuple parameter body behind)
      (hparts : splitParameters body = .ok (before ++ p :: after))
      (hbefore : ∀ q ∈ before, ∃ cs, canonicalType q = .ok cs) (hp : MeetsHollow p) :
      MeetsHollow parameter
  | suffix {parameter body behind : List Char} {components : List (List Char)}
      (htuple : IsTuple parameter body behind) (hparts : splitParameters body = .ok components)
      (htypes : ∀ q ∈ components, ∃ cs, canonicalType q = .ok cs)
      (hempty : hasEmptyParentheses (leadingWord behind) = true) : MeetsHollow parameter
  | word {parameter w : List Char} (hw : IsLedBy parameter w) (hempty : hasEmptyParentheses w = true) :
      MeetsHollow parameter

theorem splitParameters_of_isGap {body : List Char} (h : IsGap body) : splitParameters body = .ok [] := by
  rw [splitParameters, if_pos (List.all_eq_true.mpr h)]

/-- An empty pair in a rebuilt tuple stands behind it, unless there are no components. -/
theorem hasEmptyParentheses_tuple {body behind : List Char} {components inner : List (List Char)}
    (hparts : splitParameters body = .ok components) (hinner : components.mapM canonicalType = .ok inner) :
    hasEmptyParentheses ('(' :: joined inner ++ ')' :: leadingWord behind) = true ↔
      IsGap body ∨ hasEmptyParentheses (leadingWord behind) = true := by
  rcases splitParameters_eq_ok hparts with ⟨rfl, hblank⟩ | ⟨hne, hin⟩
  · rw [List.forall₂_nil_left_iff.mp (mapM_eq_ok.mp hinner)]
    exact ⟨fun _ => .inl hblank, fun _ => rfl⟩
  · have hvisible : ¬ IsGap body := fun hblank => by
      rw [splitParameters_of_isGap hblank] at hparts
      exact hne (Except.ok.inj hparts).symm
    have htight := isTight_joined_of_mapM hne hinner fun _ _ hp => (canonicalTypeWithin_sound hp).1
    rw [htight.hasEmptyParentheses_parentheses]
    exact ⟨.inr, fun h => h.resolve_left hvisible⟩

/-- **A parameter is refused for a hollow pair exactly if one is met.** -/
theorem canonicalType_eq_badValue {parameter : List Char} :
    canonicalType parameter = .error (.data .badValue) ↔ MeetsHollow parameter := by
  constructor
  · intro h
    induction hlength : parameter.length using Nat.strong_induction_on generalizing parameter with
    | _ n ih =>
      rcases parameter_cases parameter with ⟨body, behind, htuple⟩ | ⟨w, hw⟩ | ⟨cause, hcause⟩
      · rw [htuple.canonicalType_eq] at h
        cases hparts : splitParameters body with
        | error f =>
          rw [hparts, splitParameters_eq_error hparts] at h
          exact absurd h (by simp)
        | ok components =>
          rw [hparts, ok_bind] at h
          cases hinner : components.mapM canonicalType with
          | error f =>
            rw [hinner, error_bind, Except.error.injEq] at h
            subst h
            obtain ⟨before, p, after, rfl, hbefore, hp⟩ := mapM_eq_error.mp hinner
            have hlt := htuple.length_lt hparts p (by simp)
            exact .component htuple hparts hbefore (ih _ (hlength ▸ hlt) hp rfl)
          | ok inner =>
            rw [hinner, ok_bind, canonicalOf_eq_badValue, hasEmptyParentheses_tuple hparts hinner] at h
            rcases h with hblank | hempty
            · exact .blank htuple hblank
            · refine .suffix htuple hparts (fun q hq => ?_) hempty
              obtain ⟨cs, -, hcs⟩ := exists_mapM_of_mem hinner hq
              exact ⟨cs, hcs⟩
      · rw [canonicalType, hw.canonicalTypeWithin_eq, canonicalOf_eq_badValue,
          hasEmptyParentheses_expandAliases] at h
        exact .word hw h
      · exact absurd ((hcause _).symm.trans h) (by simp)
  · intro h
    induction h with
    | blank htuple hblank =>
      have hparts := splitParameters_of_isGap hblank
      have hinner : ([] : List (List Char)).mapM canonicalType = .ok [] := rfl
      rw [htuple.canonicalType_eq, hparts, ok_bind, hinner, ok_bind]
      exact canonicalOf_eq_badValue.mpr ((hasEmptyParentheses_tuple hparts hinner).mpr (.inl hblank))
    | component htuple hparts hbefore hp ih =>
      rw [htuple.canonicalType_eq, hparts, ok_bind, mapM_eq_error.mpr ⟨_, _, _, rfl, hbefore, ih⟩,
        error_bind]
    | suffix htuple hparts htypes hempty =>
      obtain ⟨inner, hinner⟩ := exists_mapM_of_forall htypes
      rw [htuple.canonicalType_eq, hparts, ok_bind, hinner, ok_bind]
      exact canonicalOf_eq_badValue.mpr ((hasEmptyParentheses_tuple hparts hinner).mpr (.inr hempty))
    | word hw hempty =>
      rw [canonicalType, hw.canonicalTypeWithin_eq]
      exact canonicalOf_eq_badValue.mpr (hasEmptyParentheses_expandAliases.mpr hempty)

/-- The text has the parts of a signature, the first parameters of it are types, and a hollow pair is met in
    the next one. -/
def MeetsHollowParameter (signature : String) : Prop :=
  ∃ front body before p after, HasParts signature front body ∧
    splitParameters body = .ok (before ++ p :: after) ∧
    (∀ q ∈ before, ∃ cs, canonicalType q = .ok cs) ∧ MeetsHollow p

/-- **A text is refused for a hollow pair exactly if one is met among its parameters.** -/
theorem parseSignature_eq_badValue {signature : String} :
    parseSignature signature = .error (.data .badValue) ↔ MeetsHollowParameter signature := by
  constructor
  · intro h
    rcases parseSignature_cases signature with ⟨front, body, hparts⟩ | ⟨cause, hcause⟩
    · rw [hparts.parseSignature_eq] at h
      cases hsplit : splitParameters body with
      | error f =>
        rw [hsplit, splitParameters_eq_error hsplit] at h
        exact absurd h (by simp)
      | ok parameters =>
        rw [hsplit, ok_bind, map_eq_error] at h
        obtain ⟨before, p, after, rfl, hbefore, hp⟩ := mapM_eq_error.mp h
        exact ⟨front, body, before, p, after, hparts, hsplit, hbefore,
          canonicalType_eq_badValue.mp hp⟩
    · exact absurd (hcause.symm.trans h) (by simp)
  · rintro ⟨front, body, before, p, after, hparts, hsplit, hbefore, hp⟩
    have hmapM : (before ++ p :: after).mapM canonicalType = .error (.data .badValue) :=
      mapM_eq_error.mpr ⟨before, p, after, rfl, hbefore, canonicalType_eq_badValue.mpr hp⟩
    rw [hparts.parseSignature_eq, hsplit, ok_bind, hmapM]
    rfl

/-- A text is a signature, or it is reported what is wrong with it, or a hollow pair is met. -/
theorem parseSignature_outcomes (signature : String) :
    (∃ s, parseSignature signature = .ok s) ∨
      (∃ cause, parseSignature signature = .error (.abi cause)) ∨
        parseSignature signature = .error (.data .badValue) := by
  rcases (within_parseSignature signature).cases with ⟨s, hs⟩ | ⟨f, hf, ⟨cause, rfl⟩ | ⟨rfl, -⟩⟩
  · exact .inl ⟨s, hs⟩
  · exact .inr (.inl ⟨cause, hf⟩)
  · exact .inr (.inr hf)

/-! ## Matching -/

/-- Texts match exactly if they have the same canonical form. -/
theorem signaturesMatch_eq_true_iff {l r : Value} :
    signaturesMatch l r = .ok true ↔
      ∃ canonical, normalizeSignature l = .ok canonical ∧ normalizeSignature r = .ok canonical := by
  unfold signaturesMatch
  split
  · next hl => simp [hl]
  · next hl => simp [hl]
  · next hl =>
    split
    · next hr => simp [hr]
    · next hr => simp [hr]
    · next canonical hr =>
      rw [Except.ok.injEq, beq_iff_eq]
      constructor
      · rintro rfl
        exact ⟨_, hl, hr⟩
      · rintro ⟨_, hl', hr'⟩
        exact (Except.ok.inj (hl.symm.trans hl')).trans (Except.ok.inj (hr.symm.trans hr')).symm

/-- Matching sees only the canonical forms. -/
theorem signaturesMatch_congr {l l' : Value} (h : normalizeSignature l' = normalizeSignature l)
    (r : Value) : signaturesMatch l' r = signaturesMatch l r := by
  unfold signaturesMatch
  rw [h]

theorem signaturesMatch_of_ok {l r : Value} {s s' : String} (hl : normalizeSignature l = .ok s)
    (hr : normalizeSignature r = .ok s') : signaturesMatch l r = .ok (s == s') := by
  unfold signaturesMatch
  rw [hl, hr]

theorem normalizeSignature_text (signature : String) :
    normalizeSignature (.text signature) = (parseSignature signature).map (·.text) := rfl

/-- Where no hollow pair is met, a text has a canonical form, or it matches nothing. -/
theorem normalizeSignature_cases {signature : String} (h : ¬ MeetsHollowParameter signature) :
    (∃ s, parseSignature signature = .ok s ∧ normalizeSignature (.text signature) = .ok s.text) ∨
      ((∀ s, parseSignature signature ≠ .ok s) ∧
        ∃ cause, normalizeSignature (.text signature) = .error (.abi cause)) := by
  rw [normalizeSignature_text]
  rcases parseSignature_outcomes signature with ⟨s, hs⟩ | ⟨cause, hcause⟩ | hbad
  · exact .inl ⟨s, hs, by rw [hs]; rfl⟩
  · exact .inr ⟨fun s hs => absurd (hcause.symm.trans hs) (by simp), cause, by rw [hcause]; rfl⟩
  · exact absurd (parseSignature_eq_badValue.mp hbad) h

/-- The answer is missing exactly if a hollow pair is met on the left, or on the right of a signature. -/
theorem exists_signaturesMatch_iff {l r : String} :
    (∃ matched, signaturesMatch (.text l) (.text r) = .ok matched) ↔
      ¬ MeetsHollowParameter l ∧ ((∃ s, parseSignature l = .ok s) → ¬ MeetsHollowParameter r) := by
  have hbad : ∀ {text : String}, MeetsHollowParameter text →
      normalizeSignature (.text text) = .error (.data .badValue) := fun {text} h => by
    rw [normalizeSignature_text, parseSignature_eq_badValue.mpr h]
    rfl
  by_cases hl : MeetsHollowParameter l
  · have hnone : ¬ ∃ matched, signaturesMatch (.text l) (.text r) = .ok matched := by
      simp [signaturesMatch, hbad hl]
    exact ⟨fun h => absurd h hnone, fun h => absurd hl h.1⟩
  · rcases normalizeSignature_cases hl with ⟨s, hs, hleft⟩ | ⟨hno, cause, hleft⟩
    · by_cases hr : MeetsHollowParameter r
      · have hnone : ¬ ∃ matched, signaturesMatch (.text l) (.text r) = .ok matched := by
          simp [signaturesMatch, hleft, hbad hr]
        exact ⟨fun h => absurd h hnone, fun h => absurd hr (h.2 ⟨s, hs⟩)⟩
      · refine ⟨fun _ => ⟨hl, fun _ => hr⟩, fun _ => ?_⟩
        rcases normalizeSignature_cases hr with ⟨s', -, hright⟩ | ⟨-, cause, hright⟩
        · exact ⟨_, signaturesMatch_of_ok hleft hright⟩
        · exact ⟨false, by simp only [signaturesMatch, hleft, hright]⟩
    · refine ⟨fun _ => ⟨hl, fun ⟨s, hs⟩ => absurd hs (hno s)⟩, fun _ => ⟨false, ?_⟩⟩
      simp only [signaturesMatch, hleft]

/-- Where no hollow pair is met, the order makes no difference. -/
theorem signaturesMatch_comm {l r : String} (hl : ¬ MeetsHollowParameter l)
    (hr : ¬ MeetsHollowParameter r) :
    signaturesMatch (.text l) (.text r) = signaturesMatch (.text r) (.text l) := by
  obtain ⟨matched, hmatched⟩ := exists_signaturesMatch_iff.mpr ⟨hl, fun _ => hr⟩
  obtain ⟨matched', hmatched'⟩ := exists_signaturesMatch_iff.mpr ⟨hr, fun _ => hl⟩
  have hsame : matched = true ↔ matched' = true := by
    have hswap : signaturesMatch (.text l) (.text r) = .ok true ↔
        signaturesMatch (.text r) (.text l) = .ok true := by
      rw [signaturesMatch_eq_true_iff, signaturesMatch_eq_true_iff]
      exact exists_congr fun _ => and_comm
    rwa [hmatched, hmatched', Except.ok.injEq, Except.ok.injEq] at hswap
  rw [hmatched, hmatched', Bool.eq_iff_iff.mpr hsame]

/-- **Every text is a signature or refused as none, and matching compares canonical forms**, unless a hollow
    pair is met. Then it is total and symmetric; it is always transitive, and the texts with a canonical form
    are those that match themselves. -/
theorem signaturesMatch_total (l m r : String) :
    (((∃ s, parseSignature l = .ok s) ∨ (∃ cause, parseSignature l = .error (.abi cause)) ∨
        parseSignature l = .error (.data .badValue)) ∧
      (parseSignature l = .error (.data .badValue) ↔ MeetsHollowParameter l)) ∧
    ((∃ matched, signaturesMatch (.text l) (.text r) = .ok matched) ↔
      ¬ MeetsHollowParameter l ∧ ((∃ s, parseSignature l = .ok s) → ¬ MeetsHollowParameter r)) ∧
    (¬ MeetsHollowParameter l → ¬ MeetsHollowParameter r →
      signaturesMatch (.text l) (.text r) = signaturesMatch (.text r) (.text l)) ∧
    (signaturesMatch (.text l) (.text m) = .ok true → signaturesMatch (.text m) (.text r) = .ok true →
      signaturesMatch (.text l) (.text r) = .ok true) ∧
    (signaturesMatch (.text l) (.text l) = .ok true ↔
      ∃ canonical, normalizeSignature (.text l) = .ok canonical) := by
  refine ⟨⟨parseSignature_outcomes l, parseSignature_eq_badValue⟩, exists_signaturesMatch_iff,
    signaturesMatch_comm, fun hlm hmr => ?_, ?_⟩
  · obtain ⟨canonical, hl, hm⟩ := signaturesMatch_eq_true_iff.mp hlm
    obtain ⟨canonical', hm', hr⟩ := signaturesMatch_eq_true_iff.mp hmr
    obtain rfl := Except.ok.inj (hm.symm.trans hm')
    exact signaturesMatch_eq_true_iff.mpr ⟨canonical, hl, hr⟩
  · rw [signaturesMatch_eq_true_iff]
    exact exists_congr fun _ => and_self_iff

/-- Three texts of one signature, and one that is none. -/
theorem signaturesMatch_total_vote :
    signaturesMatch (.text "vote(uint)") (.text "vote( uint256 )") = .ok true ∧
      signaturesMatch (.text "vote( uint256 )") (.text "function vote(uint256 id)") = .ok true ∧
      signaturesMatch (.text "vote(uint)") (.text "function vote(uint256 id)") = .ok true ∧
      ¬ MeetsHollowParameter "vote(uint)" ∧ ¬ MeetsHollowParameter "vote(,)" ∧
      signaturesMatch (.text "vote(uint)") (.text "vote(,)") =
        signaturesMatch (.text "vote(,)") (.text "vote(uint)") := by
  have hleft : signaturesMatch (.text "vote(uint)") (.text "vote( uint256 )") = .ok true := by rfl
  have hright : signaturesMatch (.text "vote( uint256 )") (.text "function vote(uint256 id)") =
      .ok true := by rfl
  have hvote : parseSignature "vote(uint)" = .ok ⟨"vote", ["uint256"]⟩ := by rfl
  have hnone : parseSignature "vote(,)" = .error (.abi .emptyParameter) := by rfl
  have hfree : ∀ {text : String}, parseSignature text ≠ .error (.data .badValue) →
      ¬ MeetsHollowParameter text := fun hne h => hne (parseSignature_eq_badValue.mpr h)
  have hl := hfree (by rw [hvote]; simp)
  have hr := hfree (by rw [hnone]; simp)
  exact ⟨hleft, hright, (signaturesMatch_total _ _ _).2.2.2.1 hleft hright, hl, hr,
    (signaturesMatch_total _ "" _).2.2.1 hl hr⟩

/-- An empty tuple among the parameters is met, and keeps the text from being compared with another one. -/
theorem not_signaturesMatch_total :
    parseSignature "f(())" = .error (.data .badValue) ∧
      signaturesMatch (.text "f(())") (.text "f()") = .error (.data .badValue) ∧
      signaturesMatch (.text "f()") (.text "f(())") = .error (.data .badValue) :=
  ⟨rfl, rfl, rfl⟩

end Proposals.Abi
