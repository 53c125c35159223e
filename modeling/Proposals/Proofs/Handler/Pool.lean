import Proposals.Handler
import Proposals.Proofs.Amount
import Proposals.Proofs.Transaction
import Mathlib.Data.List.Perm.Basic

/-!
# `Proofs.Handler.Pool` — taking transactions out of a pool

A builder looks for transactions with a test and takes the first that passes. On readable transactions
every test used is the equality with one given transaction (`Finds`), so looking for several in a row
takes a pattern out of the pool: the first occurrence of its first member, then the first occurrence
of the next behind that, and so on (`Takes`). A pattern can be taken exactly when it is a sublist of
the pool; what is left is a sublist again, and pattern and rest together are a permutation of the pool.
-/

namespace Proposals

/-! ## Equality of values -/

/-- The value is a text. -/
def Value.IsText (v : Value) : Prop := ∃ s, v = .text s

theorem Value.IsAccount.isText {v : Value} (hv : v.IsAccount) : v.IsText := hv.imp fun _ h => h.1

theorem Value.IsText.same_iff {v w : Value} (hv : v.IsText) (hw : w.IsText) :
    v.same w = true ↔ v = w := by
  obtain ⟨a, rfl⟩ := hv
  obtain ⟨b, rfl⟩ := hw
  simp [Value.same]

theorem Value.IsNatural.same_iff {v w : Value} (hv : v.IsNatural) (hw : w.IsNatural) :
    v.same w = true ↔ v = w := by
  obtain ⟨m, rfl⟩ := hv
  obtain ⟨n, rfl⟩ := hw
  simp [Value.same]

namespace Handler

open Proposals.Outcome

/-! ## Looking for the first -/

theorem splitFirst_eq_none {test : Transaction → Outcome Bool} {pool : List Transaction}
    (h : ∀ t ∈ pool, test t = .ok false) : splitFirst test pool = .ok none := by
  induction pool with
  | nil => rfl
  | cons t pool ih =>
    unfold splitFirst
    rw [h t (by simp), ih fun u hu => h u (by simp [hu])]
    rfl

theorem splitFirst_eq_some {test : Transaction → Outcome Bool} {before after : List Transaction}
    {t : Transaction} (hbefore : ∀ u ∈ before, test u = .ok false) (ht : test t = .ok true) :
    splitFirst test (before ++ t :: after) = .ok (some (before, t, after)) := by
  induction before with
  | nil =>
    rw [List.nil_append]
    unfold splitFirst
    rw [ht]
    rfl
  | cons u before ih =>
    rw [List.cons_append]
    unfold splitFirst
    rw [hbefore u (by simp), ih fun v hv => hbefore v (by simp [hv])]
    rfl

/-- The test accepts one transaction and refuses all others. -/
structure Finds (test : Transaction → Outcome Bool) (x : Transaction) (pool : List Transaction) :
    Prop where
  accepts : test x = .ok true
  refuses : ∀ t ∈ pool, t ≠ x → test t = .ok false

theorem Finds.splitFirst_of_not_mem {test : Transaction → Outcome Bool} {x : Transaction}
    {pool : List Transaction} (h : Finds test x pool) (hx : x ∉ pool) :
    splitFirst test pool = .ok none :=
  splitFirst_eq_none fun t ht => h.refuses t ht fun heq => hx (heq ▸ ht)

theorem Finds.splitFirst_append {test : Transaction → Outcome Bool} {x : Transaction}
    {before after : List Transaction} (h : Finds test x (before ++ x :: after)) (hx : x ∉ before) :
    splitFirst test (before ++ x :: after) = .ok (some (before, x, after)) :=
  splitFirst_eq_some
    (fun t ht => h.refuses t (List.mem_append_left _ ht) fun heq => hx (heq ▸ ht)) h.accepts

/-! ## Taking a pattern -/

/-- Taking the pattern out of the pool, each member where it first stands behind the one before it. -/
inductive Takes : List Transaction → List Transaction → List Transaction → Prop where
  | done (pool : List Transaction) : Takes [] pool pool
  | next {x : Transaction} {pattern before after left : List Transaction} (hx : x ∉ before)
      (h : Takes pattern after left) : Takes (x :: pattern) (before ++ x :: after) (before ++ left)

/-- An item of two lists joined stands in the first or in the second. -/
theorem append_cons_eq_append {α : Type} {before after passed rest : List α} {x : α}
    (h : before ++ x :: after = passed ++ rest) :
    (∃ between, passed = before ++ x :: between ∧ after = between ++ rest) ∨
      ∃ between, before = passed ++ between ∧ between ++ x :: after = rest := by
  rcases List.append_eq_append_iff.mp h with ⟨between, rfl, hx⟩ | ⟨between, rfl, hrest⟩
  · cases between with
    | nil => exact .inr ⟨[], by simp, hx⟩
    | cons y between =>
      obtain ⟨rfl, rfl⟩ := List.cons.inj hx
      exact .inl ⟨between, rfl, rfl⟩
  · exact .inr ⟨between, rfl, hrest.symm⟩

namespace Takes

variable {pattern pool left : List Transaction}

theorem eq_of_nil (h : Takes [] pool left) : left = pool := by
  cases h; rfl

theorem exists_split {x : Transaction} (h : Takes (x :: pattern) pool left) :
    ∃ before after rest, x ∉ before ∧ Takes pattern after rest ∧ pool = before ++ x :: after ∧
      left = before ++ rest := by
  cases h with
  | next hx h => exact ⟨_, _, _, hx, h, rfl, rfl⟩

/-- Any other transaction in front of the pool stays there. -/
theorem cons_of_ne {x t : Transaction} (hne : t ≠ x) (h : Takes (x :: pattern) pool left) :
    Takes (x :: pattern) (t :: pool) (t :: left) := by
  obtain ⟨before, after, rest, hx, hrest, rfl, rfl⟩ := h.exists_split
  have hx' : x ∉ t :: before := fun hmem =>
    (List.mem_cons.mp hmem).elim (fun heq => hne heq.symm) hx
  exact .next hx' hrest

theorem cons {x : Transaction} (h : Takes pattern pool left) :
    Takes (x :: pattern) (x :: pool) left := by
  have hnext : Takes (x :: pattern) ([] ++ x :: pool) ([] ++ left) := .next (by simp) h
  exact hnext

/-- A pattern in front of the pool is taken from there. -/
theorem append (pattern rest : List Transaction) : Takes pattern (pattern ++ rest) rest := by
  induction pattern with
  | nil => exact .done rest
  | cons x pattern ih => exact ih.cons

theorem perm (h : Takes pattern pool left) : (pattern ++ left).Perm pool := by
  induction h with
  | done => exact .refl _
  | @next x pattern before after left _ _ ih =>
    -- only `before` has to move behind the rest of the pattern
    have hmove : (pattern ++ (before ++ left)).Perm (before ++ (pattern ++ left)) := by
      rw [← List.append_assoc, ← List.append_assoc]
      exact List.perm_append_comm.append_right left
    exact ((hmove.trans (ih.append_left before)).cons x).trans List.perm_middle.symm

theorem sublist (h : Takes pattern pool left) : pattern.Sublist pool := by
  induction h with
  | done => exact List.nil_sublist _
  | next _ _ ih => exact (ih.cons_cons _).trans (List.sublist_append_right _ _)

theorem left_sublist (h : Takes pattern pool left) : left.Sublist pool := by
  induction h with
  | done => exact .refl _
  | next _ _ ih => exact (ih.trans (List.sublist_cons_self _ _)).append_left _

/-- What stays in the pool cuts the pattern: one part is taken in front of it, the other behind it. -/
theorem cut {x : Transaction} {before after : List Transaction}
    (h : Takes pattern pool (before ++ x :: after)) :
    ∃ taken behind front back, pattern = taken ++ behind ∧ pool = front ++ x :: back ∧
      Takes taken front before ∧ Takes behind back after := by
  generalize hleft : before ++ x :: after = left at h
  induction h generalizing before with
  | done pool =>
    subst hleft
    exact ⟨[], [], before, after, rfl, rfl, .done _, .done _⟩
  | @next y pattern passed pool left hy htakes ih =>
    rcases append_cons_eq_append hleft with ⟨between, rfl, rfl⟩ | ⟨between, rfl, hrest⟩
    · -- `x` is passed before the first member is found
      refine ⟨[], y :: pattern, before, between ++ y :: pool, rfl, ?_, .done _, .next ?_ htakes⟩
      · rw [List.append_assoc, List.cons_append]
      · exact fun hmem => hy (by simp [hmem])
    · -- `x` stands behind the first member
      obtain ⟨taken, behind, front, back, rfl, rfl, hfront, hback⟩ := ih hrest
      refine ⟨y :: taken, behind, passed ++ y :: front, back, rfl, ?_, .next hy hfront, hback⟩
      rw [List.append_assoc, List.cons_append]

end Takes

/-- A pattern cannot begin where its first member is missing. -/
theorem sublist_of_not_mem {α : Type} {x : α} {pattern before after : List α} (hx : x ∉ before)
    (h : (x :: pattern).Sublist (before ++ after)) : (x :: pattern).Sublist after := by
  induction before with
  | nil => exact h
  | cons u before ih =>
    rw [List.mem_cons, not_or] at hx
    rcases List.sublist_cons_iff.mp h with h | ⟨rest, heq, h⟩
    · exact ih hx.2 h
    · exact absurd (List.cons.inj heq).1 hx.1

/-- **A sublist can be taken.** -/
theorem exists_takes {pattern pool : List Transaction} (h : pattern.Sublist pool) :
    ∃ left, Takes pattern pool left := by
  induction pattern generalizing pool with
  | nil => exact ⟨pool, .done pool⟩
  | cons x pattern ih =>
    obtain ⟨before, after, rfl, hx⟩ := List.eq_append_cons_of_mem (h.subset List.mem_cons_self)
    -- the first occurrence leaves at least as much behind it as any other
    obtain ⟨left, hleft⟩ := ih (List.cons_sublist_cons.mp (sublist_of_not_mem hx h))
    exact ⟨before ++ left, .next hx hleft⟩

end Handler

end Proposals
