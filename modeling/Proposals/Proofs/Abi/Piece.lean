import Proposals.Abi.Signature
import Proposals.Proofs.Abi.Type
import Proposals.Proofs.Text.Blank

/-!
# `Proofs.Abi.Piece` — the scanners of signatures pass over parameters

Splitting at commas and looking for the closing parenthesis both count parentheses. Both *pass over* a
text (`IsPassed`) if they come out of it at the depth at which they went in. They pass over texts
without parentheses and commas, over such texts put together, and over what stands in parentheses. So
a parameter is passed over however much is said in it; a *piece* (`IsPiece`) has no blanks besides, as
the written form of a type.

What a scanner does at one character depends on the depth that the character leads to (`Leads`). It is said
once for each of them, forwards (`splitPieces?_of_leads`, `closingFrom?_of_leads`) and for what a step can
have been (`splitPieces?_cons_eq_some`, `closingFrom?_cons_eq_some`).

A list of parameters is therefore cut at the commas between them (`splitParameters_joined`), and two
texts that open with a parenthesis around a text that is passed over split in the same way
(`parentheses_ext`).
-/

namespace Proposals.Abi

open Proposals.Text Proposals.Number AbiType

/-- At depth `lo` or deeper the scanners pass over the text. Commas are passed over in parentheses
    only, so `lo` is one for lists and zero for their items. -/
structure IsPassed (lo : Nat) (w : List Char) : Prop where
  splits : ∀ depth, lo ≤ depth → ∀ rest,
    splitPieces? depth (w ++ rest) = (splitPieces? depth rest).map fun (p, ps) => (w ++ p, ps)
  closes : ∀ depth, lo ≤ depth → 0 < depth → ∀ rest,
    closingFrom? depth (w ++ rest) = (closingFrom? depth rest).map (· + w.length)

/-- The scanners pass over the text, and it has no blanks. -/
structure IsPiece (lo : Nat) (w : List Char) : Prop extends IsPassed lo w where
  solid : IsSolid w

/-- An item of a list: the scanners pass over it, and it is not blank. -/
structure IsParameter (w : List Char) : Prop extends IsPassed 0 w where
  visible : ∃ c ∈ w, isBlank c = false

/-- The character neither nests nor separates. -/
def IsPlain (c : Char) : Prop := c ≠ '(' ∧ c ≠ ')' ∧ c ≠ ','

instance (c : Char) : Decidable (IsPlain c) := inferInstanceAs (Decidable (_ ∧ _))

theorem isPlain_of_isGap {gap : List Char} (h : IsGap gap) : ∀ c ∈ gap, IsPlain c := by
  intro c hc
  have hblank := h c hc
  refine ⟨?_, ?_, ?_⟩ <;> rintro rfl <;> exact absurd hblank (by decide)

/-! ## One step of the scanners -/

theorem splitPieces?_open (depth : Nat) (cs : List Char) :
    splitPieces? depth ('(' :: cs) =
      (splitPieces? (depth + 1) cs).map fun (p, ps) => ('(' :: p, ps) := by
  cases depth <;> rfl

theorem splitPieces?_close (depth : Nat) (cs : List Char) :
    splitPieces? (depth + 1) (')' :: cs) =
      (splitPieces? depth cs).map fun (p, ps) => (')' :: p, ps) := rfl

theorem splitPieces?_comma (cs : List Char) :
    splitPieces? 0 (',' :: cs) = (splitPieces? 0 cs).map fun (p, ps) => ([], p :: ps) := rfl

theorem splitPieces?_plain {depth : Nat} {c : Char} (hopen : c ≠ '(') (hclose : c ≠ ')')
    (hcomma : ¬ (c = ',' ∧ depth = 0)) (cs : List Char) :
    splitPieces? depth (c :: cs) = (splitPieces? depth cs).map fun (p, ps) => (c :: p, ps) := by
  rw [splitPieces?.eq_def]
  simp only [if_neg hopen, if_neg hclose, if_neg hcomma]

/-- Behind the character `next` parentheses are open, if `depth` are open in front of it. -/
inductive Leads : Nat → Char → Nat → Prop where
  | opened (depth : Nat) : Leads depth '(' (depth + 1)
  | closed (depth : Nat) : Leads (depth + 1) ')' depth
  | plain (depth : Nat) {c : Char} (hopen : c ≠ '(') (hclose : c ≠ ')') : Leads depth c depth

/-- Only a closing parenthesis leads nowhere, where none is open. -/
theorem exists_leads (depth : Nat) (c : Char) :
    (∃ next, Leads depth c next) ∨ depth = 0 ∧ c = ')' := by
  by_cases hopen : c = '('
  · subst hopen
    exact .inl ⟨_, .opened depth⟩
  · by_cases hclose : c = ')'
    · subst hclose
      cases depth with
      | zero => exact .inr ⟨rfl, rfl⟩
      | succ depth => exact .inl ⟨_, .closed depth⟩
    · exact .inl ⟨_, .plain depth hopen hclose⟩

/-- But for a comma outside parentheses, a character goes on with the piece. -/
theorem splitPieces?_of_leads {depth next : Nat} {c : Char} (h : Leads depth c next)
    (hcomma : ¬ (c = ',' ∧ depth = 0)) (cs : List Char) :
    splitPieces? depth (c :: cs) = (splitPieces? next cs).map fun (p, ps) => (c :: p, ps) := by
  cases h with
  | opened => exact splitPieces?_open depth cs
  | closed => exact splitPieces?_close next cs
  | plain _ hopen hclose => exact splitPieces?_plain hopen hclose hcomma cs

/-- Where parentheses stay open, the search for the closing one goes on. -/
theorem closingFrom?_of_leads {depth next : Nat} {c : Char} (h : Leads depth c next)
    (hnext : 0 < next) (cs : List Char) :
    closingFrom? depth (c :: cs) = (closingFrom? next cs).map (· + 1) := by
  cases h with
  | opened => rw [closingFrom?, if_pos rfl]
  | closed =>
    rw [closingFrom?, if_neg (by decide), if_pos rfl, if_neg (by omega), Nat.add_sub_cancel]
  | plain _ hopen hclose => rw [closingFrom?, if_neg hopen, if_neg hclose]

theorem splitPieces?_nil_eq_some {depth : Nat} {p : List Char} {ps : List (List Char)}
    (h : splitPieces? depth [] = some (p, ps)) : depth = 0 ∧ p = [] ∧ ps = [] := by
  unfold splitPieces? at h
  split at h
  · next hdepth =>
    cases h
    exact ⟨hdepth, rfl, rfl⟩
  · exact absurd h (by simp)

/-- **What a step of the splitter can have been**: a comma outside parentheses ends the piece under way,
    and any other character belongs to it. -/
theorem splitPieces?_cons_eq_some {depth : Nat} {c : Char} {cs p : List Char}
    {ps : List (List Char)} (h : splitPieces? depth (c :: cs) = some (p, ps)) :
    (∃ q qs, c = ',' ∧ depth = 0 ∧ p = [] ∧ ps = q :: qs ∧ splitPieces? 0 cs = some (q, qs)) ∨
      ∃ next q, Leads depth c next ∧ ¬ (c = ',' ∧ depth = 0) ∧ p = c :: q ∧
        splitPieces? next cs = some (q, ps) := by
  rcases exists_leads depth c with ⟨next, hleads⟩ | ⟨rfl, rfl⟩
  · by_cases hcomma : c = ',' ∧ depth = 0
    · obtain ⟨rfl, rfl⟩ := hcomma
      rw [splitPieces?_comma, Option.map_eq_some_iff] at h
      obtain ⟨⟨q, qs⟩, hq, heq⟩ := h
      cases heq
      exact .inl ⟨q, qs, rfl, rfl, rfl, rfl, hq⟩
    · rw [splitPieces?_of_leads hleads hcomma, Option.map_eq_some_iff] at h
      obtain ⟨⟨q, qs⟩, hq, heq⟩ := h
      cases heq
      exact .inr ⟨next, q, hleads, hcomma, rfl, hq⟩
  · exact absurd h (by simp [splitPieces?])

/-- **What a step of the search can have been**: it ends at a closing parenthesis if one is open, or goes on
    behind the character. -/
theorem closingFrom?_cons_eq_some {depth place : Nat} {c : Char} {cs : List Char} (hdepth : 0 < depth)
    (h : closingFrom? depth (c :: cs) = some place) :
    (place = 0 ∧ depth = 1 ∧ c = ')') ∨
      ∃ next n, 0 < next ∧ Leads depth c next ∧ place = n + 1 ∧ closingFrom? next cs = some n := by
  rcases exists_leads depth c with ⟨next, hleads⟩ | ⟨hzero, -⟩
  · rcases Nat.eq_zero_or_pos next with rfl | hnext
    · cases hleads with
      | closed =>
        cases h
        exact .inl ⟨rfl, rfl, rfl⟩
      | plain => exact absurd hdepth (Nat.lt_irrefl 0)
    · rw [closingFrom?_of_leads hleads hnext, Option.map_eq_some_iff] at h
      obtain ⟨n, hn, rfl⟩ := h
      exact .inr ⟨next, n, hnext, hleads, rfl, hn⟩
  · exact absurd hzero hdepth.ne'

/-! ## What is passed over -/

namespace IsPassed

theorem nil (lo : Nat) : IsPassed lo [] where
  splits := fun depth _ rest => by
    show splitPieces? depth rest = (splitPieces? depth rest).map id
    rw [Option.map_id, id]
  closes := fun depth _ _ rest => by
    show closingFrom? depth rest = (closingFrom? depth rest).map id
    rw [Option.map_id, id]

theorem append {lo : Nat} {v w : List Char} (hv : IsPassed lo v) (hw : IsPassed lo w) :
    IsPassed lo (v ++ w) where
  splits := fun depth hlo rest => by
    rw [List.append_assoc, hv.splits depth hlo, hw.splits depth hlo, Option.map_map]
    refine congrArg (Option.map · _) (funext fun ⟨p, ps⟩ => ?_)
    show (v ++ (w ++ p), ps) = (v ++ w ++ p, ps)
    rw [List.append_assoc]
  closes := fun depth hlo hpos rest => by
    rw [List.append_assoc, hv.closes depth hlo hpos, hw.closes depth hlo hpos, Option.map_map]
    refine congrArg (Option.map · _) (funext fun n => ?_)
    show n + w.length + v.length = n + (v ++ w).length
    rw [List.length_append]; omega

theorem mono {lo hi : Nat} {w : List Char} (h : IsPassed lo w) (hle : lo ≤ hi) : IsPassed hi w where
  splits := fun depth hhi => h.splits depth (Nat.le_trans hle hhi)
  closes := fun depth hhi => h.closes depth (Nat.le_trans hle hhi)

/-- A character that is neither a parenthesis nor, outside of them, a comma. -/
theorem singleton {lo : Nat} {c : Char} (hopen : c ≠ '(') (hclose : c ≠ ')')
    (hcomma : c ≠ ',' ∨ 0 < lo) : IsPassed lo [c] where
  splits := fun depth hlo rest => by
    have hplain : ¬ (c = ',' ∧ depth = 0) := by
      rintro ⟨rfl, rfl⟩
      rcases hcomma with h | h
      · exact h rfl
      · exact absurd hlo (by omega)
    exact splitPieces?_plain hopen hclose hplain rest
  closes := fun depth _ _ rest => by
    rw [List.singleton_append, closingFrom?, if_neg hopen, if_neg hclose]
    rfl

theorem of_isPlain {w : List Char} (h : ∀ c ∈ w, IsPlain c) : IsPassed 0 w := by
  induction w with
  | nil => exact nil 0
  | cons c w ih =>
    obtain ⟨hopen, hclose, hcomma⟩ := h c (by simp)
    exact (singleton hopen hclose (.inl hcomma)).append (ih fun d hd => h d (by simp [hd]))

theorem of_isGap {gap : List Char} (h : IsGap gap) : IsPassed 0 gap := of_isPlain (isPlain_of_isGap h)

theorem parentheses {w : List Char} (h : IsPassed 1 w) : IsPassed 0 ('(' :: w ++ [')']) where
  splits := fun depth _ rest => by
    rw [List.append_assoc, List.cons_append, List.singleton_append, splitPieces?_open,
      h.splits (depth + 1) (by omega), splitPieces?_close, Option.map_map, Option.map_map]
    refine congrArg (Option.map · _) (funext fun ⟨p, ps⟩ => ?_)
    show ('(' :: (w ++ ')' :: p), ps) = ('(' :: w ++ [')'] ++ p, ps)
    rw [List.append_assoc]; rfl
  closes := fun depth _ hpos rest => by
    rw [List.append_assoc, List.cons_append, List.singleton_append, closingFrom?, if_pos rfl,
      h.closes (depth + 1) (by omega) (by omega), closingFrom?, if_neg (by decide), if_pos rfl,
      if_neg (by omega), Option.map_map, Option.map_map]
    refine congrArg (Option.map · _) (funext fun n => ?_)
    show n + 1 + w.length + 1 = n + ('(' :: w ++ [')']).length
    rw [List.length_append, List.length_cons, List.length_singleton]; omega

/-- Items with commas between them. -/
theorem joined {pieces : List (List Char)} (h : ∀ p ∈ pieces, IsPassed 0 p) :
    IsPassed 1 (joined pieces) := by
  induction pieces with
  | nil => exact nil 1
  | cons p pieces ih =>
    have hp : IsPassed 1 p := (h p (by simp)).mono (by omega)
    cases pieces with
    | nil => exact hp
    | cons q pieces =>
      have hcomma : IsPassed 1 [','] := singleton (by decide) (by decide) (.inr Nat.one_pos)
      exact hp.append (hcomma.append (ih fun r hr => h r (by simp [hr])))

end IsPassed

/-! ## Pieces -/

namespace IsPiece

theorem append {lo : Nat} {v w : List Char} (hv : IsPiece lo v) (hw : IsPiece lo w) :
    IsPiece lo (v ++ w) where
  toIsPassed := hv.toIsPassed.append hw.toIsPassed
  solid := hv.solid.append hw.solid

theorem parentheses {w : List Char} (h : IsPiece 1 w) : IsPiece 0 ('(' :: w ++ [')']) where
  toIsPassed := h.toIsPassed.parentheses
  solid := List.forall_mem_append.mpr
    ⟨List.forall_mem_cons.mpr ⟨by decide, h.solid⟩, List.forall_mem_singleton.mpr (by decide)⟩

/-- A list of pieces with commas between them. -/
theorem joined {pieces : List (List Char)} (h : ∀ p ∈ pieces, IsPiece 0 p) :
    IsPiece 1 (joined pieces) where
  toIsPassed := IsPassed.joined fun p hp => (h p hp).toIsPassed
  solid := by
    induction pieces with
    | nil => exact List.forall_mem_nil _
    | cons p pieces ih =>
      have hp := (h p (by simp)).solid
      cases pieces with
      | nil => exact hp
      | cons q pieces =>
        exact hp.append (List.forall_mem_cons.mpr ⟨by decide, ih fun r hr => h r (by simp [hr])⟩)

theorem isParameter {w : List Char} (h : IsPiece 0 w) (hne : w ≠ []) : IsParameter w where
  toIsPassed := h.toIsPassed
  visible := by
    obtain ⟨c, hc⟩ := List.exists_mem_of_ne_nil w hne
    exact ⟨c, hc, h.solid c hc⟩

end IsPiece

/-! ## Written types -/

/-- The characters of base names, sizes and brackets. -/
def IsPlainChar (c : Char) : Prop := c.isAlphanum = true ∨ c = '[' ∨ c = ']'

/-- Letters and digits are among the first 128 characters. -/
theorem toNat_lt_of_isAlphanum {c : Char} (h : c.isAlphanum = true) : c.toNat < 128 := by
  have hranges : (decide (c.val ≥ 'A'.val ∧ c.val ≤ 'Z'.val) ||
      (decide (c.val ≥ 'a'.val) && decide (c.val ≤ 'z'.val)) ||
      (decide (c.val ≥ '0'.val) && decide (c.val ≤ '9'.val))) = true := h
  simp only [Bool.or_eq_true, Bool.and_eq_true, decide_eq_true_eq, UInt32.le_iff_toNat_le,
    ge_iff_le] at hranges
  have hval : c.toNat = c.val.toNat := rfl
  have hZ : 'Z'.val.toNat = 90 := rfl
  have hz : 'z'.val.toNat = 122 := rfl
  have h9 : '9'.val.toNat = 57 := rfl
  omega

theorem IsPlainChar.isPlain {c : Char} (h : IsPlainChar c) : IsPlain c ∧ isBlank c = false := by
  unfold IsPlain
  rcases h with halnum | rfl | rfl
  · -- the first 128 characters are checked one by one
    exact of_toNat_lt_128 (p := fun c => c.isAlphanum = true →
      (c ≠ '(' ∧ c ≠ ')' ∧ c ≠ ',') ∧ isBlank c = false) (by decide)
      (toNat_lt_of_isAlphanum halnum) halnum
  · decide
  · decide

theorem isPiece_of_isPlainChar {w : List Char} (h : ∀ c ∈ w, IsPlainChar c) : IsPiece 0 w where
  toIsPassed := IsPassed.of_isPlain fun c hc => (h c hc).isPlain.1
  solid := fun c hc => (h c hc).isPlain.2

theorem not_isPlainChar_parenthesis : ¬ IsPlainChar '(' := fun h => h.isPlain.1.1 rfl

theorem isAlphanum_of_mem_natText {n : Nat} {c : Char} (h : c ∈ natText n) :
    c.isAlphanum = true := by
  rw [Char.isAlphanum, ← isAsciiDigit_eq_isDigit, isAsciiDigit_of_mem_natText h, Bool.or_true]

theorem isAlphanum_of_mem_sizeChars {size : Option TypeSize} {c : Char} (h : c ∈ sizeChars size) :
    c.isAlphanum = true := by
  cases size with
  | none => exact absurd h (by simp [sizeChars])
  | some size =>
    cases size with
    | plain n => exact isAlphanum_of_mem_natText h
    | pair m n =>
      rcases List.mem_append.mp h with h | h
      · exact isAlphanum_of_mem_natText h
      · rcases List.mem_cons.mp h with rfl | h
        · decide
        · exact isAlphanum_of_mem_natText h

/-- A base name with its size is a word of letters and digits. -/
theorem isAlphanum_of_mem_basic {base : String} {size : Option TypeSize}
    (hbase : ∀ c ∈ base.toList, c.isAlpha = true) {c : Char} (h : c ∈ chars (.basic base size)) :
    c.isAlphanum = true := by
  rcases List.mem_append.mp h with h | h
  · rw [Char.isAlphanum, hbase c h, Bool.true_or]
  · exact isAlphanum_of_mem_sizeChars h

theorem isPlainChar_of_mem_lengthChars {length : Option Nat} {c : Char}
    (h : c ∈ lengthChars length) : IsPlainChar c := by
  cases length with
  | none =>
    have hc : c = '[' ∨ c = ']' := by simpa [lengthChars] using h
    exact .inr hc
  | some n =>
    have hc : c = '[' ∨ c ∈ natText n ∨ c = ']' := by simpa [lengthChars, or_assoc] using h
    rcases hc with hc | hc | hc
    · exact .inr (.inl hc)
    · exact .inl (isAlphanum_of_mem_natText hc)
    · exact .inr (.inr hc)

theorem isPlainChar_of_mem_bracketChars {lengths : List (Option Nat)} {c : Char}
    (h : c ∈ bracketChars lengths) : IsPlainChar c := by
  obtain ⟨length, -, hc⟩ := List.mem_flatMap.mp h
  exact isPlainChar_of_mem_lengthChars hc

mutual
/-- **The written form of a type is a piece.** -/
theorem isPiece_chars : (t : AbiType) → IsWellFormed t → IsPiece 0 (chars t)
  | .basic _ _, ht =>
    isPiece_of_isPlainChar fun _ hc => .inl (isAlphanum_of_mem_basic ht.2.1 hc)
  | .tuple components, ht => (IsPiece.joined (isPiece_of_mem_charsList components ht.2)).parentheses
  | .array item _, ht =>
    (isPiece_chars item ht.1).append
      (isPiece_of_isPlainChar fun _ hc => isPlainChar_of_mem_lengthChars hc)

/-- The written forms of several types are pieces. -/
theorem isPiece_of_mem_charsList : (ts : List AbiType) → AreWellFormed ts →
    ∀ p ∈ charsList ts, IsPiece 0 p
  | [], _, _, hp => absurd hp (by simp [charsList])
  | t :: ts, ht, p, hp => by
    rcases List.mem_cons.mp hp with rfl | hp
    · exact isPiece_chars t ht.1
    · exact isPiece_of_mem_charsList ts ht.2 p hp
end

/-! ## What the scanners find -/

/-- What stands before and behind the closing parenthesis. -/
theorem take_drop_parentheses (w rest : List Char) :
    (('(' :: w ++ ')' :: rest).take (w.length + 1)).drop 1 = w ∧
      ('(' :: w ++ ')' :: rest).drop (w.length + 1 + 1) = rest := by
  rw [List.cons_append, List.take_succ_cons, List.drop_succ_cons, List.drop_succ_cons,
    List.take_left, List.drop_length_add_append]
  exact ⟨rfl, rfl⟩

/-- The text opens with a parenthesis that closes between `body` and `behind`. -/
structure Opens (cs body behind : List Char) : Prop where
  eq : cs = '(' :: body ++ ')' :: behind
  closes : closingFrom? 1 (body ++ ')' :: behind) = some body.length

theorem IsPassed.opens {body : List Char} (h : IsPassed 1 body) (behind : List Char) :
    Opens ('(' :: body ++ ')' :: behind) body behind where
  eq := rfl
  closes := by
    rw [h.closes 1 (Nat.le_refl 1) Nat.one_pos, closingFrom?, if_neg (by decide), if_pos rfl,
      if_pos (Nat.le_refl 1), Option.map_some, Nat.zero_add]

theorem Opens.matchingParenthesis? {cs body behind : List Char} (h : Opens cs body behind) :
    matchingParenthesis? cs = some (body.length + 1) := by
  rw [h.eq, Abi.matchingParenthesis?, List.cons_append, closingFrom?, if_pos rfl, h.closes,
    Option.map_some]

theorem getElem?_closingFrom? {depth : Nat} (hdepth : 0 < depth) {cs : List Char} {close : Nat}
    (h : closingFrom? depth cs = some close) : cs[close]? = some ')' := by
  induction cs generalizing depth close with
  | nil => exact absurd h (by simp [closingFrom?])
  | cons c cs ih =>
    rcases closingFrom?_cons_eq_some hdepth h with ⟨rfl, -, rfl⟩ | ⟨next, n, hnext, -, rfl, hn⟩
    · rfl
    · exact ih hnext hn

/-- A text is cut at one of its characters. -/
theorem take_cons_drop_of_getElem? {cs : List Char} {place : Nat} {c : Char}
    (h : cs[place]? = some c) :
    cs.take place ++ c :: cs.drop (place + 1) = cs ∧ (cs.take place).length = place := by
  obtain ⟨hlt, rfl⟩ := List.getElem?_eq_some_iff.mp h
  rw [← List.drop_eq_getElem_cons hlt]
  exact ⟨List.take_append_drop place cs, List.length_take_of_le (Nat.le_of_lt hlt)⟩

/-- The text behind an opening parenthesis is cut at the one that closes it. -/
theorem exists_opens {tail : List Char} {close : Nat} (h : closingFrom? 1 tail = some close) :
    ∃ body behind, Opens ('(' :: tail) body behind := by
  obtain ⟨hcut, hlength⟩ := take_cons_drop_of_getElem? (getElem?_closingFrom? Nat.one_pos h)
  refine ⟨tail.take close, tail.drop (close + 1), by rw [List.cons_append, hcut], ?_⟩
  rw [hcut, h, hlength]

/-- **Parentheses determine what stands in them**: two texts that open with one each, around texts
    that are passed over, and are the same have the same in them and the same behind them. -/
theorem parentheses_ext {v w rest rest' : List Char} (hv : IsPassed 1 v) (hw : IsPassed 1 w)
    (h : '(' :: v ++ ')' :: rest = '(' :: w ++ ')' :: rest') : v = w ∧ rest = rest' := by
  have hclose := (hv.opens rest).matchingParenthesis?
  rw [h, (hw.opens rest').matchingParenthesis?] at hclose
  -- both texts close at the same place
  have hlength : v.length = w.length := by
    have := Option.some.inj hclose
    omega
  have hinner : v ++ ')' :: rest = w ++ ')' :: rest' := (List.cons.inj h).2
  obtain ⟨hvw, hrest⟩ := List.append_inj hinner hlength
  exact ⟨hvw, (List.cons.inj hrest).2⟩

/-- A list is cut at the commas between its items. -/
theorem splitPieces?_joined {p : List Char} {ps : List (List Char)}
    (h : ∀ q ∈ p :: ps, IsPassed 0 q) : splitPieces? 0 (joined (p :: ps)) = some (p, ps) := by
  induction ps generalizing p with
  | nil =>
    have hp := (h p (by simp)).splits 0 (Nat.le_refl 0) []
    rw [List.append_nil] at hp
    show splitPieces? 0 p = _
    rw [hp]
    show some (p ++ [], []) = _
    rw [List.append_nil]
  | cons q ps ih =>
    show splitPieces? 0 (p ++ ',' :: joined (q :: ps)) = _
    rw [(h p (by simp)).splits 0 (Nat.le_refl 0), splitPieces?_comma,
      ih fun r hr => h r (by simp [hr])]
    show some (p ++ [], q :: ps) = _
    rw [List.append_nil]

/-- **A list of parameters is split into them**; the empty list has none. -/
theorem splitParameters_joined {pieces : List (List Char)} (h : ∀ p ∈ pieces, IsParameter p) :
    splitParameters (joined pieces) = .ok pieces := by
  cases pieces with
  | nil => rfl
  | cons p ps =>
    have hsplit := splitPieces?_joined fun q hq => (h q hq).toIsPassed
    have hblank : ¬ (joined (p :: ps)).all isBlank = true := by
      obtain ⟨c, hc, hvisible⟩ := (h p (by simp)).visible
      have hmem : c ∈ joined (p :: ps) := by cases ps <;> simp [AbiType.joined, hc]
      intro hall
      rw [List.all_eq_true.mp hall c hmem] at hvisible
      exact absurd hvisible (by simp)
    unfold splitParameters
    rw [if_neg hblank, hsplit]

end Proposals.Abi
