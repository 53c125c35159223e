import Proposals.Proofs.Abi.Matching
import Mathlib.Data.List.Infix

/-!
# `Proofs.Abi.Nesting` — the scanners of signatures follow the nesting of parentheses

Which parentheses belong together is said by counting: in a balanced text no prefix closes more than it
opens, and in the end all are closed (`IsBalanced`); an item of a list has its commas in parentheses besides
(`IsItem`). The scanners keep a depth instead. The two are compared at any depth: behind `depth` open
parentheses a text closes them and its own (`Closes`), and a character that leads from one depth to the next
does to the counts what it does to the scanners (`closes_cons`, `commasInside_cons`). The rest are inductions
along the text.

So the scanners pass over the balanced texts in parentheses and over the items outside of them
(`isPassed_one_iff`, `isPassed_zero_iff`), and they agree with each other: what stands in matching
parentheses can be split (`IsTuple.exists_splitParameters`).
-/

namespace Proposals.Abi

open Proposals.Text AbiType

variable {cs w p body behind rest : List Char} {ps : List (List Char)} {c : Char}
  {depth next place : Nat}

/-! ## Balanced texts -/

/-- The parentheses of the text are balanced: no prefix closes more than it opens, and in the end as many
    are closed as are opened. -/
structure IsBalanced (cs : List Char) : Prop where
  prefixes : ∀ front, front <+: cs → front.count ')' ≤ front.count '('
  total : cs.count ')' = cs.count '('

/-- An item of a list: its parentheses are balanced, and each comma of it stands in parentheses, since in
    front of it more of them are opened than closed. -/
structure IsItem (cs : List Char) : Prop extends IsBalanced cs where
  commas : ∀ front, front ++ [','] <+: cs → front.count ')' < front.count '('

/-- The parenthesis at `place` closes the one that the text opens with: what stands between them is
    balanced. -/
structure ClosesFirst (cs : List Char) (place : Nat) : Prop where
  close : cs[place]? = some ')'
  inner : IsBalanced ((cs.take place).drop 1)

/-! ## Behind open parentheses -/

/-- Behind `depth` open parentheses, the text closes them and all that it opens. -/
structure Closes (depth : Nat) (cs : List Char) : Prop where
  prefixes : ∀ front, front <+: cs → front.count ')' ≤ depth + front.count '('
  total : cs.count ')' = depth + cs.count '('

/-- Behind `depth` open parentheses, each comma of the text stands in parentheses. -/
def CommasInside (depth : Nat) (cs : List Char) : Prop :=
  ∀ front, front ++ [','] <+: cs → front.count ')' < depth + front.count '('

theorem closes_zero : Closes 0 cs ↔ IsBalanced cs := by
  constructor
  · rintro ⟨hprefixes, htotal⟩
    exact ⟨by simpa using hprefixes, by simpa using htotal⟩
  · rintro ⟨hprefixes, htotal⟩
    exact ⟨by simpa using hprefixes, by simpa using htotal⟩

theorem isItem_iff : IsItem cs ↔ Closes 0 cs ∧ CommasInside 0 cs := by
  have hcommas : CommasInside 0 cs ↔
      ∀ front, front ++ [','] <+: cs → front.count ')' < front.count '(' := by
    simp [CommasInside]
  rw [closes_zero, hcommas]
  exact ⟨fun h => ⟨h.toIsBalanced, h.commas⟩, fun h => ⟨h.1, h.2⟩⟩

theorem CommasInside.mono {deeper : Nat} (h : CommasInside depth cs) (hle : depth ≤ deeper) :
    CommasInside deeper cs := fun front hfront =>
  Nat.lt_of_lt_of_le (h front hfront) (Nat.add_le_add_right hle _)

/-- Within parentheses, a balanced text has all its commas in parentheses. -/
theorem IsBalanced.commasInside (h : IsBalanced cs) : CommasInside 1 cs := by
  intro front hfront
  have hle := h.prefixes front ((List.prefix_append _ _).trans hfront)
  omega

theorem closes_nil : Closes depth [] ↔ depth = 0 := by
  constructor
  · intro h
    simpa using h.total.symm
  · rintro rfl
    exact closes_zero.mpr ⟨by simp, rfl⟩

theorem commasInside_nil : CommasInside depth [] := by
  intro front hfront
  simp at hfront

theorem not_closes_zero_cons : ¬ Closes 0 (')' :: cs) := by
  intro h
  have hle := h.prefixes [')'] ⟨cs, rfl⟩
  simp at hle

theorem Closes.exists_leads (h : Closes depth (c :: cs)) : ∃ next, Leads depth c next :=
  (Abi.exists_leads depth c).resolve_right fun ⟨hdepth, hc⟩ =>
    not_closes_zero_cons (hdepth ▸ hc ▸ h)

namespace Leads

/-- Further parentheses that are open stay open. -/
theorem add (h : Leads depth c next) (more : Nat) : Leads (more + depth) c (more + next) := by
  cases h with
  | opened => exact .opened _
  | closed => exact .closed _
  | plain _ hopen hclose => exact .plain _ hopen hclose

/-- One that stays open makes no difference. -/
theorem of_add_one (h : Leads (depth + 1) c (next + 1)) : Leads depth c next := by
  cases h with
  | opened => exact .opened _
  | closed => exact .closed _
  | plain _ hopen hclose => exact .plain _ hopen hclose

theorem of_comma (h : Leads depth ',' next) : next = depth := by
  cases h
  rfl

/-- The character changes the depth by what it adds to the counts. -/
theorem count (h : Leads depth c next) (cs : List Char) :
    depth + (c :: cs).count '(' + cs.count ')' = next + cs.count '(' + (c :: cs).count ')' := by
  cases h with
  | opened =>
    rw [List.count_cons_self, List.count_cons_of_ne (by decide)]
    omega
  | closed =>
    rw [List.count_cons_self, List.count_cons_of_ne (by decide)]
    omega
  | plain _ hopen hclose => rw [List.count_cons_of_ne hopen, List.count_cons_of_ne hclose]

end Leads

theorem closes_cons (h : Leads depth c next) : Closes depth (c :: cs) ↔ Closes next cs := by
  have hcs := h.count cs
  constructor
  · rintro ⟨hprefixes, htotal⟩
    -- with the character in front, a prefix of the rest is one of the text
    refine ⟨fun front hfront => ?_, by omega⟩
    have hle := hprefixes (c :: front) (List.cons_prefix_cons.mpr ⟨rfl, hfront⟩)
    have hcount := h.count front
    omega
  · rintro ⟨hprefixes, htotal⟩
    refine ⟨fun front hfront => ?_, by omega⟩
    rcases List.prefix_cons_iff.mp hfront with rfl | ⟨tail, rfl, htail⟩
    · exact Nat.zero_le _
    · have hle := hprefixes tail htail
      have hcount := h.count tail
      omega

theorem commasInside_cons (h : Leads depth c next) :
    CommasInside depth (c :: cs) ↔ (c = ',' → 0 < depth) ∧ CommasInside next cs := by
  constructor
  · intro hcommas
    refine ⟨?_, fun front hfront => ?_⟩
    · rintro rfl
      simpa using hcommas [] ⟨cs, rfl⟩
    · have hlt := hcommas (c :: front) (List.cons_prefix_cons.mpr ⟨rfl, hfront⟩)
      have hcount := h.count front
      omega
  · rintro ⟨hfirst, hcommas⟩ front hfront
    cases front with
    | nil =>
      -- the character is the comma
      have hc : ',' = c := (List.cons_prefix_cons.mp hfront).1
      simpa using hfirst hc.symm
    | cons d tail =>
      obtain ⟨rfl, htail⟩ := List.cons_prefix_cons.mp hfront
      have hlt := hcommas tail htail
      have hcount := h.count tail
      omega

/-! ## Splitting -/

/-- **A text is split exactly if it closes what is open.** -/
theorem isSome_splitPieces?_iff : (splitPieces? depth cs).isSome ↔ Closes depth cs := by
  induction cs generalizing depth with
  | nil =>
    rw [closes_nil, splitPieces?]
    split <;> simp [*]
  | cons c cs ih =>
    rcases exists_leads depth c with ⟨next, h⟩ | ⟨rfl, rfl⟩
    · rw [closes_cons h, ← ih]
      by_cases hcomma : c = ',' ∧ depth = 0
      · -- the depth stays zero behind the comma
        obtain ⟨rfl, rfl⟩ := hcomma
        rw [h.of_comma, splitPieces?_comma, Option.isSome_map]
      · rw [splitPieces?_of_leads h hcomma, Option.isSome_map]
    · exact iff_of_false (by simp [splitPieces?]) not_closes_zero_cons

instance (cs : List Char) : Decidable (IsBalanced cs) :=
  decidable_of_iff _ (isSome_splitPieces?_iff.trans closes_zero)

/-- **The pieces are items**, the first one behind the parentheses that are open. -/
theorem items_of_splitPieces? (h : splitPieces? depth cs = some (p, ps)) :
    Closes depth p ∧ CommasInside depth p ∧ ∀ q ∈ ps, IsItem q := by
  induction cs generalizing depth p ps with
  | nil =>
    obtain ⟨hdepth, rfl, rfl⟩ := splitPieces?_nil_eq_some h
    exact ⟨closes_nil.mpr hdepth, commasInside_nil, List.forall_mem_nil _⟩
  | cons c cs ih =>
    rcases splitPieces?_cons_eq_some h with
      ⟨q, qs, rfl, rfl, rfl, rfl, hq⟩ | ⟨next, q, hleads, hcomma, rfl, hq⟩
    · -- the piece ends at the comma, and what was under way behind it becomes an item
      obtain ⟨hcloses, hcommas, hqs⟩ := ih hq
      exact ⟨closes_nil.mpr rfl, commasInside_nil,
        List.forall_mem_cons.mpr ⟨isItem_iff.mpr ⟨hcloses, hcommas⟩, hqs⟩⟩
    · obtain ⟨hcloses, hcommas, hqs⟩ := ih hq
      have hfirst : c = ',' → 0 < depth := fun hc =>
        Nat.pos_of_ne_zero fun hdepth => hcomma ⟨hc, hdepth⟩
      exact ⟨(closes_cons hleads).mpr hcloses, (commasInside_cons hleads).mpr ⟨hfirst, hcommas⟩, hqs⟩

/-! ## Searching -/

/-- Up to where the search ends, the text closes all but one of the parentheses that are open. -/
theorem closes_of_closingFrom? (h : closingFrom? (depth + 1) (w ++ ')' :: rest) = some w.length) :
    Closes depth w := by
  induction w generalizing depth with
  | nil =>
    rcases closingFrom?_cons_eq_some (Nat.succ_pos depth) h with
      ⟨-, hdepth, -⟩ | ⟨next, n, -, -, hplace, -⟩
    · exact closes_nil.mpr (Nat.succ_injective hdepth)
    · exact absurd hplace (Nat.succ_ne_zero n).symm
  | cons c w ih =>
    rcases closingFrom?_cons_eq_some (Nat.succ_pos depth) h with
      ⟨hplace, -, -⟩ | ⟨next, n, hnext, hleads, hplace, hn⟩
    · exact absurd hplace (Nat.succ_ne_zero _)
    · -- the parenthesis that is searched for stays open, also behind the character
      obtain rfl : w.length = n := Nat.succ_injective hplace
      obtain ⟨next, rfl⟩ := Nat.exists_eq_add_one_of_ne_zero hnext.ne'
      exact (closes_cons hleads.of_add_one).mpr (ih hn)

/-! ## What is passed over -/

/-- The splitter comes out of the text at the depth that is left. -/
theorem Closes.splitPieces?_append {lo : Nat} (h : Closes depth w)
    (hcommas : CommasInside (lo + depth) w) (rest : List Char) :
    splitPieces? (lo + depth) (w ++ rest) =
      (splitPieces? lo rest).map fun (p, ps) => (w ++ p, ps) := by
  induction w generalizing depth with
  | nil =>
    rw [closes_nil.mp h]
    exact (IsPassed.nil 0).splits lo (Nat.zero_le _) rest
  | cons c w ih =>
    obtain ⟨next, hleads⟩ := h.exists_leads
    obtain ⟨hfirst, hcommas⟩ := (commasInside_cons (hleads.add lo)).mp hcommas
    have hgoes : ¬ (c = ',' ∧ lo + depth = 0) := fun ⟨hc, hdepth⟩ => (hfirst hc).ne' hdepth
    rw [List.cons_append, splitPieces?_of_leads (hleads.add lo) hgoes,
      ih ((closes_cons hleads).mp h) hcommas, Option.map_map]
    rfl

/-- So does the search, if some parenthesis is left open. -/
theorem Closes.closingFrom?_append {lo : Nat} (h : Closes depth w) (hlo : 0 < lo)
    (rest : List Char) :
    closingFrom? (lo + depth) (w ++ rest) = (closingFrom? lo rest).map (· + w.length) := by
  induction w generalizing depth with
  | nil =>
    rw [closes_nil.mp h]
    exact (IsPassed.nil 0).closes lo (Nat.zero_le _) hlo rest
  | cons c w ih =>
    obtain ⟨next, hleads⟩ := h.exists_leads
    rw [List.cons_append, closingFrom?_of_leads (hleads.add lo) (Nat.add_pos_left hlo next),
      ih ((closes_cons hleads).mp h), Option.map_map]
    rfl

theorem Closes.isPassed {lo : Nat} (h : Closes 0 w) (hcommas : CommasInside lo w) :
    IsPassed lo w where
  splits := fun _ hlo rest => h.splitPieces?_append (hcommas.mono hlo) rest
  closes := fun _ _ hdepth rest => h.closingFrom?_append hdepth rest

/-- **In parentheses, the scanners pass over the balanced texts.** -/
theorem isPassed_one_iff : IsPassed 1 w ↔ IsBalanced w :=
  ⟨fun h => closes_zero.mp (closes_of_closingFrom? (h.opens []).closes),
    fun h => (closes_zero.mpr h).isPassed h.commasInside⟩

/-- **Outside of them, they pass over the items.** -/
theorem isPassed_zero_iff : IsPassed 0 w ↔ IsItem w := by
  rw [isItem_iff]
  constructor
  · intro h
    -- such a text is its own only piece
    have hsplit := h.splits 0 (Nat.le_refl 0) []
    rw [List.append_nil] at hsplit
    obtain ⟨hcloses, hcommas, -⟩ := items_of_splitPieces? hsplit
    rw [List.append_nil] at hcloses hcommas
    exact ⟨hcloses, hcommas⟩
  · exact fun ⟨hcloses, hcommas⟩ => hcloses.isPassed hcommas

/-! ## Lists of parameters -/

/-- A list that is not blank is split into its pieces. -/
theorem splitParameters_eq_ok_iff_splitPieces? (hgap : ¬ IsGap body) :
    splitParameters body = .ok ps ↔ ∃ p qs, splitPieces? 0 body = some (p, qs) ∧ ps = p :: qs := by
  rw [splitParameters, if_neg (by rwa [List.all_eq_true])]
  cases hsplit : splitPieces? 0 body with
  | none => simp
  | some pieces =>
    obtain ⟨p, qs⟩ := pieces
    rw [Except.ok.injEq]
    constructor
    · rintro rfl
      exact ⟨p, qs, rfl, rfl⟩
    · rintro ⟨q, rs, heq, rfl⟩
      cases heq
      rfl

/-- **A list that is not blank is split exactly if it is balanced.** -/
theorem exists_splitParameters_iff (hgap : ¬ IsGap body) :
    (∃ ps, splitParameters body = .ok ps) ↔ IsBalanced body := by
  rw [← closes_zero, ← isSome_splitPieces?_iff, Option.isSome_iff_exists]
  constructor
  · rintro ⟨ps, hps⟩
    obtain ⟨p, qs, hsplit, -⟩ := (splitParameters_eq_ok_iff_splitPieces? hgap).mp hps
    exact ⟨_, hsplit⟩
  · rintro ⟨⟨p, qs⟩, hsplit⟩
    exact ⟨_, (splitParameters_eq_ok_iff_splitPieces? hgap).mpr ⟨p, qs, hsplit, rfl⟩⟩

/-- Otherwise it is refused. -/
theorem splitParameters_of_not_isBalanced (hgap : ¬ IsGap body) (h : ¬ IsBalanced body) :
    splitParameters body = .error (.abi .unbalanced) := by
  cases hsplit : splitParameters body with
  | ok ps => exact absurd ((exists_splitParameters_iff hgap).mp ⟨ps, hsplit⟩) h
  | error f => rw [splitParameters_eq_error hsplit]

/-- **The parameters are the only items that make up the list**, with commas between them. -/
theorem splitParameters_eq_ok_iff (hgap : ¬ IsGap body) :
    splitParameters body = .ok ps ↔ joined ps = body ∧ ∀ p ∈ ps, IsItem p := by
  rw [splitParameters_eq_ok_iff_splitPieces? hgap]
  constructor
  · rintro ⟨p, qs, hsplit, rfl⟩
    obtain ⟨hcloses, hcommas, hqs⟩ := items_of_splitPieces? hsplit
    exact ⟨joined_splitPieces? hsplit,
      List.forall_mem_cons.mpr ⟨isItem_iff.mpr ⟨hcloses, hcommas⟩, hqs⟩⟩
  · rintro ⟨rfl, hps⟩
    cases ps with
    | nil =>
      -- without parameters the list is empty, hence blank
      exact absurd (List.forall_mem_nil _) hgap
    | cons p qs => exact ⟨p, qs, splitPieces?_joined fun q hq => isPassed_zero_iff.mpr (hps q hq), rfl⟩

/-- A balanced list is split, blank or not. -/
theorem IsBalanced.exists_splitParameters (h : IsBalanced body) :
    ∃ ps, splitParameters body = .ok ps := by
  by_cases hgap : IsGap body
  · exact ⟨[], splitParameters_of_isGap hgap⟩
  · exact (exists_splitParameters_iff hgap).mpr h

/-! ## Matching parentheses -/

/-- A text opens with a parenthesis around a text exactly if that is balanced. -/
theorem opens_iff : Opens cs body behind ↔ cs = '(' :: body ++ ')' :: behind ∧ IsBalanced body := by
  constructor
  · exact fun h => ⟨h.eq, closes_zero.mp (closes_of_closingFrom? h.closes)⟩
  · rintro ⟨rfl, h⟩
    exact (isPassed_one_iff.mpr h).opens behind

/-- The place that closes the first parenthesis cuts the text in three. -/
theorem closesFirst_iff (hopen : cs.head? = some '(') :
    ClosesFirst cs place ↔ ∃ body behind, Opens cs body behind ∧ place = body.length + 1 := by
  constructor
  · rintro ⟨hclose, hinner⟩
    obtain ⟨tail, rfl⟩ := List.head?_eq_some_iff.mp hopen
    cases place with
    | zero => exact absurd hclose (by simp)
    | succ close =>
      rw [List.take_succ_cons, List.drop_one, List.tail_cons] at hinner
      rw [List.getElem?_cons_succ] at hclose
      obtain ⟨hcut, hlength⟩ := take_cons_drop_of_getElem? hclose
      refine ⟨tail.take close, tail.drop (close + 1), opens_iff.mpr ⟨?_, hinner⟩, ?_⟩
      · rw [List.cons_append, hcut]
      · rw [hlength]
  · rintro ⟨body, behind, h, rfl⟩
    obtain ⟨rfl, hbalanced⟩ := opens_iff.mp h
    refine ⟨?_, ?_⟩
    · rw [List.cons_append, List.getElem?_cons_succ, List.getElem?_append_right (Nat.le_refl _),
        Nat.sub_self, List.getElem?_cons_zero]
    · rwa [(take_drop_parentheses body behind).1]

/-- **The parenthesis is found that closes the first one**, if there is one. -/
theorem matchingParenthesis?_eq_some_iff (hopen : cs.head? = some '(') :
    matchingParenthesis? cs = some place ↔ ClosesFirst cs place := by
  rw [closesFirst_iff hopen]
  constructor
  · intro h
    obtain ⟨tail, rfl⟩ := List.head?_eq_some_iff.mp hopen
    -- the search says how the text is cut, and the cut says where the parenthesis stands
    have hfound := h
    rw [matchingParenthesis?, closingFrom?_of_leads (.opened 0) Nat.one_pos,
      Option.map_eq_some_iff] at hfound
    obtain ⟨close, hclose, -⟩ := hfound
    obtain ⟨body, behind, hopens⟩ := exists_opens hclose
    exact ⟨body, behind, hopens, Option.some.inj (h.symm.trans hopens.matchingParenthesis?)⟩
  · rintro ⟨body, behind, h, rfl⟩
    exact h.matchingParenthesis?

theorem matchingParenthesis?_eq_none_iff (hopen : cs.head? = some '(') :
    matchingParenthesis? cs = none ↔ ∀ place, ¬ ClosesFirst cs place := by
  rw [Option.eq_none_iff_forall_ne_some]
  exact forall_congr' fun place => not_congr (matchingParenthesis?_eq_some_iff hopen)

/-- **The two scanners agree**: what stands in the parentheses of a tuple can be split. -/
theorem IsTuple.exists_splitParameters {parameter : List Char} (h : IsTuple parameter body behind) :
    ∃ ps, splitParameters body = .ok ps :=
  (opens_iff.mp h).2.exists_splitParameters

/-- **Splitting and matching are exact.** A list that is not blank is split exactly if it is balanced, into
    the only items that make it up, and is refused otherwise. In a text that opens with a parenthesis, the
    place is found that closes it; if there is none, nothing is found, and a parameter that comes to this
    text is refused. -/
theorem splitParameters_matchingParenthesis_exact (body cs : List Char) :
    (¬ IsGap body →
      ((∃ ps, splitParameters body = .ok ps) ↔ IsBalanced body) ∧
      (∀ ps, splitParameters body = .ok ps ↔ joined ps = body ∧ ∀ p ∈ ps, IsItem p) ∧
      (¬ IsBalanced body → splitParameters body = .error (.abi .unbalanced))) ∧
    (cs.head? = some '(' →
      (∀ place, matchingParenthesis? cs = some place ↔ ClosesFirst cs place) ∧
      ((∀ place, ¬ ClosesFirst cs place) → matchingParenthesis? cs = none ∧
        ∀ parameter, dropTupleWord (strip parameter) = cs →
          ∀ fuel, canonicalTypeWithin (fuel + 1) parameter = .error (.abi .unbalanced))) := by
  refine ⟨fun hgap => ⟨exists_splitParameters_iff hgap, fun ps => splitParameters_eq_ok_iff hgap,
    splitParameters_of_not_isBalanced hgap⟩, fun hopen => ⟨fun place =>
      matchingParenthesis?_eq_some_iff hopen, fun hnot => ?_⟩⟩
  have hnone := (matchingParenthesis?_eq_none_iff hopen).mpr hnot
  refine ⟨hnone, fun parameter hparameter fuel => ?_⟩
  obtain ⟨tail, rfl⟩ := List.head?_eq_some_iff.mp hopen
  exact canonicalTypeWithin_unclosed hparameter hnone fuel

/-- An array of tuples beside a plain type, and a list that closes a parenthesis first; a tuple with a tuple
    in it, and one that is not closed. -/
theorem splitParameters_matchingParenthesis_exact_tuples :
    (¬ IsGap "(int,bool)[] a,byte".toList ∧ IsBalanced "(int,bool)[] a,byte".toList ∧
      IsItem "(int,bool)[] a".toList ∧ IsItem "byte".toList) ∧
    (¬ IsGap "int),(bool".toList ∧ ¬ IsBalanced "int),(bool".toList ∧
      splitParameters "int),(bool".toList = .error (.abi .unbalanced)) ∧
    ("(int,(bool))[] a".toList.head? = some '(' ∧ ClosesFirst "(int,(bool))[] a".toList 11) ∧
    ("(int,(bool)".toList.head? = some '(' ∧ (∀ place, ¬ ClosesFirst "(int,(bool)".toList place) ∧
      canonicalType " tuple(int,(bool)".toList = .error (.abi .unbalanced)) := by
  have hvisible : ∀ {body : List Char}, body.all isBlank = false → ¬ IsGap body := fun hbody hgap =>
    absurd (List.all_eq_true.mpr hgap) (by rw [hbody]; simp)
  have hlist : ¬ IsGap "(int,bool)[] a,byte".toList := hvisible (by decide)
  have hwrong : ¬ IsGap "int),(bool".toList := hvisible (by decide)
  have hunbalanced : ¬ IsBalanced "int),(bool".toList := by decide
  have hsplit : splitParameters "(int,bool)[] a,byte".toList =
      .ok ["(int,bool)[] a".toList, "byte".toList] := by rfl
  obtain ⟨hbalanced, hitems, -⟩ := (splitParameters_matchingParenthesis_exact _ []).1 hlist
  have hpieces := ((hitems _).mp hsplit).2
  have hrefused := ((splitParameters_matchingParenthesis_exact _ []).1 hwrong).2.2 hunbalanced
  have hclosed : ClosesFirst "(int,(bool))[] a".toList 11 :=
    (((splitParameters_matchingParenthesis_exact [] _).2 rfl).1 11).mp (by rfl)
  obtain ⟨hmatching, hnone⟩ := (splitParameters_matchingParenthesis_exact [] "(int,(bool)".toList).2 rfl
  have hopen : ∀ place, ¬ ClosesFirst "(int,(bool)".toList place := fun place hplace =>
    absurd ((hmatching place).mpr hplace) (by simp [matchingParenthesis?, closingFrom?])
  exact ⟨⟨hlist, hbalanced.mp ⟨_, hsplit⟩, hpieces _ (by simp), hpieces _ (by simp)⟩,
    ⟨hwrong, hunbalanced, hrefused⟩, ⟨rfl, hclosed⟩,
    ⟨rfl, hopen, (hnone hopen).2 " tuple(int,(bool)".toList (by rfl) _⟩⟩

end Proposals.Abi
