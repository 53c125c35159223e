import Proposals.Proofs.Text.Blank

/-!
# `Proofs.Text.Spacing` — texts with blanks put in

A text may be spaced out by putting blanks between its characters. Where they may be put depends on the
character they are put in front of and on the text before it, so the relation `Spaces` walks along the text
and keeps what it has passed, last character first. Blanks may be put at the end of any text.

Stripping a text and cutting it into words see the blanks, so they are followed through the relation. What
is left of a stripped text is spaced as the text is (`Spaces.strip`). A word may be cut where blanks are put
into it, and only its front is left then (`Spaces.takeWhile`).
-/

namespace Proposals.Text

/-- The second text is the first with gaps in it, `before` being what stands in front. A gap may be put in
    front of a character if `may` allows it there, and at the end. -/
inductive Spaces (may : List Char → Char → Prop) : List Char → List Char → List Char → Prop where
  | nil {before gap : List Char} (hgap : IsGap gap) : Spaces may before [] gap
  | cons {before gap cs ds : List Char} {c : Char} (hgap : IsGap gap)
      (hplace : gap = [] ∨ may before c) (h : Spaces may (c :: before) cs ds) :
      Spaces may before (c :: cs) (gap ++ c :: ds)

variable {may may' : List Char → Char → Prop} {before cs ds : List Char}

/-! ## Gaps -/

theorem isGap_nil : IsGap [] := List.forall_mem_nil _

theorem isGap_append {v w : List Char} : IsGap (v ++ w) ↔ IsGap v ∧ IsGap w := List.forall_mem_append

theorem isGap_cons {c : Char} {cs : List Char} : IsGap (c :: cs) ↔ isBlank c = true ∧ IsGap cs :=
  List.forall_mem_cons

theorem stripLeft_eq_nil {cs : List Char} (h : IsGap cs) : stripLeft cs = [] :=
  List.dropWhile_eq_nil_iff.mpr h

theorem stripLeft_append_of_isGap {gap : List Char} (h : IsGap gap) (cs : List Char) :
    stripLeft (gap ++ cs) = stripLeft cs := List.dropWhile_append_of_pos h

theorem stripLeft_cons_of_isBlank {c : Char} (h : isBlank c = true) (cs : List Char) :
    stripLeft (c :: cs) = stripLeft cs := List.dropWhile_cons_of_pos h

theorem stripRight_append_of_isGap (cs : List Char) {gap : List Char} (h : IsGap gap) :
    stripRight (cs ++ gap) = stripRight cs := by
  unfold stripRight
  rw [List.reverse_append, List.dropWhile_append_of_pos fun c hc => h c (List.mem_reverse.mp hc)]

/-- Blanks put at the end are stripped again. -/
theorem strip_append_of_isGap (cs : List Char) {gap : List Char} (h : IsGap gap) :
    strip (cs ++ gap) = strip cs := by
  by_cases hcs : IsGap cs
  · rw [strip, strip, stripLeft_eq_nil hcs, stripLeft_eq_nil (isGap_append.mpr ⟨hcs, h⟩)]
  · have hleft : stripLeft (cs ++ gap) = stripLeft cs ++ gap := by
      unfold stripLeft
      rw [List.dropWhile_append, if_neg]
      rwa [List.isEmpty_iff, List.dropWhile_eq_nil_iff]
    rw [strip, hleft, stripRight_append_of_isGap _ h, ← strip]

/-- Stripping takes only blanks away. -/
theorem isBlank_or_mem_strip {cs : List Char} {c : Char} (h : c ∈ cs) :
    isBlank c = true ∨ c ∈ strip cs := by
  have hleft : isBlank c = true ∨ c ∈ stripLeft cs := by
    rw [← List.takeWhile_append_dropWhile (p := isBlank) (l := cs)] at h
    exact (List.mem_append.mp h).imp_left List.mem_takeWhile_imp
  refine hleft.elim .inl fun hmem => ?_
  rw [← List.mem_reverse, ← List.takeWhile_append_dropWhile (p := isBlank)
    (l := (stripLeft cs).reverse)] at hmem
  exact (List.mem_append.mp hmem).imp List.mem_takeWhile_imp List.mem_reverse.mpr

theorem stripRight_append_of_not_isGap {cs : List Char} (front : List Char) (h : ¬ IsGap cs) :
    stripRight (front ++ cs) = front ++ stripRight cs := by
  unfold stripRight
  rw [List.reverse_append, List.dropWhile_append, if_neg, List.reverse_append, List.reverse_reverse]
  rw [List.isEmpty_iff, List.dropWhile_eq_nil_iff]
  exact fun hgap => h fun c hc => hgap c (List.mem_reverse.mpr hc)

theorem stripRight_cons_of_not_isGap {c : Char} {cs : List Char} (h : ¬ IsGap (c :: cs)) :
    stripRight (c :: cs) = c :: stripRight cs := by
  by_cases hcs : IsGap cs
  · -- the character is the last one that is no blank
    have hc : isBlank c = false := by
      by_contra hblank
      exact h (isGap_cons.mpr ⟨by simpa using hblank, hcs⟩)
    rw [stripRight_eq_nil hcs]
    exact ((isTrimmed_singleton hc).stripRight_append cs).trans (by rw [stripRight_eq_nil hcs]; rfl)
  · exact stripRight_append_of_not_isGap [c] hcs

/-- No word stands in front of a blank. -/
theorem takeWhile_dropWhile_of_head? {cs : List Char} (h : ∀ c, cs.head? = some c → isBlank c = true) :
    cs.takeWhile (!isBlank ·) = [] ∧ cs.dropWhile (!isBlank ·) = cs := by
  cases cs with
  | nil => exact ⟨rfl, rfl⟩
  | cons c cs =>
    have hc := h c rfl
    exact ⟨List.takeWhile_cons_of_neg (by simp [hc]), List.dropWhile_cons_of_neg (by simp [hc])⟩

theorem IsGap.head? {gap : List Char} (h : IsGap gap) : ∀ c, gap.head? = some c → isBlank c = true :=
  fun c hc => h c (List.mem_of_mem_head? hc)

theorem words_stripLeft (cs : List Char) : words (stripLeft cs) = words cs := by
  induction cs with
  | nil => rfl
  | cons c cs ih =>
    cases hc : isBlank c with
    | true =>
      rw [stripLeft_cons_of_isBlank hc, ih]
      simp only [words, splitWords, hc, if_true, List.isEmpty_nil]
    | false => rw [stripLeft_eq_self (by rintro _ ⟨⟩; exact hc)]

/-- A text that does not open with a blank opens with a word. -/
theorem words_cons_of_opens {c : Char} (hc : isBlank c = false) (cs : List Char) :
    words (c :: cs) =
      (c :: cs).takeWhile (!isBlank ·) :: words ((c :: cs).dropWhile (!isBlank ·)) := by
  have hsolid : IsSolid ((c :: cs).takeWhile (!isBlank ·)) := fun d hd => by
    simpa using List.mem_takeWhile_imp hd
  have hne : (c :: cs).takeWhile (!isBlank ·) ≠ [] := by
    rw [List.takeWhile_cons_of_pos (by simp [hc])]
    exact List.cons_ne_nil _ _
  have hbehind : ∀ d, ((c :: cs).dropWhile (!isBlank ·)).head? = some d → isBlank d = true := by
    intro d hd
    have hhead := List.head?_dropWhile_not (!isBlank ·) (c :: cs)
    rw [hd] at hhead
    simpa using hhead
  have hwords := hsolid.words_append hne hbehind
  rwa [List.takeWhile_append_dropWhile] at hwords

namespace Spaces

/-! ## Taking a spaced text apart -/

theorem mono (hmay : ∀ before c, may before c → may' before c) (h : Spaces may before cs ds) :
    Spaces may' before cs ds := by
  induction h with
  | nil hgap => exact .nil hgap
  | cons hgap hplace _ ih => exact .cons hgap (hplace.imp_right (hmay _ _)) ih

theorem cons_self {c : Char} (h : Spaces may (c :: before) cs ds) :
    Spaces may before (c :: cs) (c :: ds) := by
  show Spaces may before (c :: cs) ([] ++ c :: ds)
  exact .cons isGap_nil (.inl rfl) h

theorem cons_blank {b c : Char} (hb : isBlank b = true) (hplace : may before c)
    (h : Spaces may (c :: before) cs ds) : Spaces may before (c :: cs) (b :: c :: ds) := by
  show Spaces may before (c :: cs) ([b] ++ c :: ds)
  exact .cons (List.forall_mem_singleton.mpr hb) (.inr hplace) h

theorem refl (before cs : List Char) : Spaces may before cs cs := by
  induction cs generalizing before with
  | nil => exact .nil isGap_nil
  | cons c cs ih => exact (ih _).cons_self

theorem of_cons {c : Char} (h : Spaces may before (c :: cs) ds) :
    ∃ gap tail, ds = gap ++ c :: tail ∧ IsGap gap ∧ (gap = [] ∨ may before c) ∧
      Spaces may (c :: before) cs tail := by
  cases h with
  | cons hgap hplace h => exact ⟨_, _, rfl, hgap, hplace, h⟩

/-- A text that does not open with a blank is not preceded by a gap. -/
theorem of_cons_of_opens {c : Char} (h : Spaces may before (c :: cs) ds)
    (hopens : ∀ d, ds.head? = some d → isBlank d = false) :
    ∃ tail, ds = c :: tail ∧ Spaces may (c :: before) cs tail := by
  obtain ⟨gap, tail, rfl, hgap, -, htail⟩ := h.of_cons
  cases gap with
  | nil => exact ⟨tail, rfl, htail⟩
  | cons d gap => exact absurd (isGap_cons.mp hgap).1 (by rw [hopens d rfl]; exact Bool.false_ne_true)

theorem isGap_iff (h : Spaces may before cs ds) : IsGap ds ↔ IsGap cs := by
  induction h with
  | nil hgap => exact ⟨fun _ => isGap_nil, fun _ => hgap⟩
  | cons hgap _ _ ih => rw [isGap_append, isGap_cons, isGap_cons, ih, and_iff_right hgap]

/-- A gap may be put at the end. -/
theorem append_gap (h : Spaces may before cs ds) {gap : List Char} (hgap : IsGap gap) :
    Spaces may before cs (ds ++ gap) := by
  induction h with
  | nil hends => exact .nil (isGap_append.mpr ⟨hends, hgap⟩)
  | cons hgap' hplace _ ih =>
    rw [List.append_assoc, List.cons_append]
    exact .cons hgap' hplace ih

theorem exists_append {u v : List Char} (h : Spaces may before (u ++ v) ds) :
    ∃ u' v', ds = u' ++ v' ∧ Spaces may before u u' ∧ Spaces may (u.reverse ++ before) v v' := by
  induction u generalizing before ds with
  | nil => exact ⟨[], ds, rfl, .nil isGap_nil, h⟩
  | cons c u ih =>
    obtain ⟨gap, tail, rfl, hgap, hplace, h⟩ := h.of_cons
    obtain ⟨u', v', rfl, hu, hv⟩ := ih h
    refine ⟨gap ++ c :: u', v', by rw [List.append_assoc, List.cons_append], .cons hgap hplace hu, ?_⟩
    rwa [List.reverse_cons, List.append_assoc, List.singleton_append]

/-- What a character that is no blank ends stays so ended. -/
theorem of_concat {c : Char} (hc : isBlank c = false) (h : Spaces may before (cs ++ [c]) (ds ++ [c])) :
    Spaces may before cs ds := by
  obtain ⟨u, v, hsplit, hu, hv⟩ := h.exists_append
  obtain ⟨gap, tail, rfl, hgap, -, htail⟩ := hv.of_cons
  have hends : IsGap tail := htail.isGap_iff.mpr isGap_nil
  have hlast : tail = [] := by
    by_contra hne
    obtain ⟨rest, d, rfl⟩ := (List.eq_nil_or_concat' tail).resolve_left hne
    have hsame : c = d := by
      have hcat : ds ++ [c] = (u ++ (gap ++ c :: rest)) ++ [d] := by rw [hsplit]; simp
      exact (List.cons.inj (List.append_inj_right' hcat rfl)).1
    subst hsame
    exact absurd (hends c (by simp)) (by rw [hc]; exact Bool.false_ne_true)
  subst hlast
  have hfront : ds = u ++ gap := by
    have hcat : ds ++ [c] = (u ++ gap) ++ [c] := by rw [hsplit]; simp
    exact List.append_cancel_right hcat
  rw [hfront]
  exact hu.append_gap hgap

/-! ## Stripping -/

theorem stripLeft (h : Spaces may before cs ds) :
    ∃ gap, IsGap gap ∧ Spaces may (gap ++ before) (Text.stripLeft cs) (Text.stripLeft ds) := by
  induction h with
  | nil hgap =>
    refine ⟨[], isGap_nil, ?_⟩
    rw [stripLeft_eq_nil hgap]
    exact .nil isGap_nil
  | @cons before gap cs ds c hgap hplace h ih =>
    rw [stripLeft_append_of_isGap hgap]
    cases hc : isBlank c with
    | true =>
      obtain ⟨gap', hgap', ih⟩ := ih
      rw [stripLeft_cons_of_isBlank hc, stripLeft_cons_of_isBlank hc]
      refine ⟨gap' ++ [c], isGap_append.mpr ⟨hgap', List.forall_mem_singleton.mpr hc⟩, ?_⟩
      rwa [List.append_assoc]
    | false =>
      rw [stripLeft_eq_self (by rintro _ ⟨⟩; exact hc), stripLeft_eq_self (by rintro _ ⟨⟩; exact hc)]
      exact ⟨[], isGap_nil, h.cons_self⟩

theorem stripRight (h : Spaces may before cs ds) :
    Spaces may before (Text.stripRight cs) (Text.stripRight ds) := by
  induction h with
  | nil hgap =>
    rw [stripRight_eq_nil hgap]
    exact .nil isGap_nil
  | @cons before gap cs ds c hgap hplace h ih =>
    by_cases hall : IsGap (c :: cs)
    · rw [stripRight_eq_nil hall, stripRight_eq_nil]
      · exact .nil isGap_nil
      · exact isGap_append.mpr ⟨hgap, isGap_cons.mpr ((isGap_cons.mp hall).imp_right h.isGap_iff.mpr)⟩
    · have hall' : ¬ IsGap (c :: ds) := fun hgaps =>
        hall (isGap_cons.mpr ((isGap_cons.mp hgaps).imp_right h.isGap_iff.mp))
      rw [stripRight_append_of_not_isGap gap hall', stripRight_cons_of_not_isGap hall,
        stripRight_cons_of_not_isGap hall']
      exact .cons hgap hplace ih

/-- **What is left of a spaced text without the blanks at its ends is spaced.** -/
theorem strip (h : Spaces may before cs ds) :
    ∃ gap, IsGap gap ∧ Spaces may (gap ++ before) (Text.strip cs) (Text.strip ds) := by
  obtain ⟨gap, hgap, hleft⟩ := h.stripLeft
  exact ⟨gap, hgap, hleft.stripRight⟩

/-! ## Words -/

/-- No blanks were put into the front of a text if there are none. -/
theorem of_isSolid {w : List Char} (hw : IsSolid w) (h : Spaces may before cs (w ++ ds)) :
    ∃ tail, cs = w ++ tail ∧ Spaces may (w.reverse ++ before) tail ds := by
  induction w generalizing before cs with
  | nil => exact ⟨cs, rfl, h⟩
  | cons c w ih =>
    obtain ⟨hc, hw⟩ := List.forall_mem_cons.mp hw
    cases cs with
    | nil =>
      have hgap := h.isGap_iff.mpr isGap_nil
      exact absurd (isGap_cons.mp hgap).1 (by rw [hc]; exact Bool.false_ne_true)
    | cons d cs =>
      obtain ⟨tail, htail, h⟩ := h.of_cons_of_opens (by rintro _ ⟨⟩; exact hc)
      obtain ⟨rfl, rfl⟩ := List.cons.inj htail
      obtain ⟨rest, rfl, h⟩ := ih hw h
      refine ⟨rest, rfl, ?_⟩
      rwa [List.reverse_cons, List.append_assoc, List.singleton_append]

/-- **The first word of a spaced text** is that of the text, or its front up to a place where blanks are
    put. -/
theorem takeWhile (h : Spaces may before cs ds) :
    (ds.takeWhile (!isBlank ·) = cs.takeWhile (!isBlank ·) ∧
      Spaces may ((cs.takeWhile (!isBlank ·)).reverse ++ before) (cs.dropWhile (!isBlank ·))
        (ds.dropWhile (!isBlank ·))) ∨
    ∃ c cut tail, cs.takeWhile (!isBlank ·) = ds.takeWhile (!isBlank ·) ++ c :: cut ∧
      may ((ds.takeWhile (!isBlank ·)).reverse ++ before) c ∧
      Text.stripLeft (ds.dropWhile (!isBlank ·)) = c :: tail := by
  induction h with
  | nil hgap =>
    obtain ⟨htake, hdrop⟩ := takeWhile_dropWhile_of_head? hgap.head?
    rw [htake, hdrop]
    exact .inl ⟨rfl, .nil hgap⟩
  | @cons before gap cs ds c hgap hplace h ih =>
    cases hc : isBlank c with
    | true =>
      -- there is no word to cut: with a gap or without, the text opens with a blank
      have hopens : ∀ d, (gap ++ c :: ds).head? = some d → isBlank d = true := by
        cases gap with
        | nil => rintro d ⟨⟩; exact hc
        | cons b gap => exact fun d hd => hgap.head? d hd
      obtain ⟨htake, hdrop⟩ := takeWhile_dropWhile_of_head? hopens
      rw [htake, hdrop, List.takeWhile_cons_of_neg (by simp [hc]),
        List.dropWhile_cons_of_neg (by simp [hc])]
      exact .inl ⟨rfl, .cons hgap hplace h⟩
    | false =>
      rw [List.takeWhile_cons_of_pos (by simp [hc]), List.dropWhile_cons_of_pos (by simp [hc])]
      cases gap with
      | nil =>
        rw [List.nil_append, List.takeWhile_cons_of_pos (by simp [hc]),
          List.dropWhile_cons_of_pos (by simp [hc]), List.reverse_cons, List.reverse_cons,
          List.append_assoc, List.append_assoc, List.singleton_append]
        refine ih.imp (fun ⟨hsame, hrest⟩ => ⟨congrArg (c :: ·) hsame, hrest⟩) ?_
        rintro ⟨d, cut, tail, hcut, hmay, htail⟩
        exact ⟨d, cut, tail, congrArg (c :: ·) hcut, hmay, htail⟩
      | cons b gap =>
        obtain ⟨hb, hgap'⟩ := isGap_cons.mp hgap
        rw [List.cons_append, List.takeWhile_cons_of_neg (by simp [hb]),
          List.dropWhile_cons_of_neg (by simp [hb])]
        refine .inr ⟨c, _, ds, rfl, hplace.resolve_left (List.cons_ne_nil b gap), ?_⟩
        rw [← List.cons_append, stripLeft_append_of_isGap hgap]
        exact stripLeft_eq_self (by rintro _ ⟨⟩; exact hc)

end Spaces

end Proposals.Text
