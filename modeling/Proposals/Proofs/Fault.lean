import Proposals.Fault
import Proposals.Proofs.Outcome

/-!
# `Proofs.Fault` — how a chain of steps may end

That an operation ends with no faults but certain ones is a property of the operation (`Within`), and a
chain has it if each of its steps has. The rest of a chain is only asked about results that the steps
before can have, so facts about those results are at hand there.
-/

namespace Proposals.Outcome

variable {ε ε' α β : Type}

/-- Whatever fault the chain ends with, it is one of `P`. -/
def Within (P : ε → Prop) (x : Except ε α) : Prop := ∀ e, x = .error e → P e

@[simp] theorem within_ok (P : ε → Prop) (a : α) : Within P (.ok a : Except ε α) :=
  fun _ h => absurd h (by simp)

@[simp] theorem within_error {P : ε → Prop} {e : ε} : Within P (.error e : Except ε α) ↔ P e :=
  ⟨fun h => h e rfl, fun h _ he => Except.error.inj he ▸ h⟩

/-- A chain with a result ends with no fault. -/
theorem within_of_eq_ok (P : ε → Prop) {x : Except ε α} {a : α} (h : x = .ok a) : Within P x :=
  h ▸ within_ok P a

/-- There is a result, or a fault among those. -/
theorem Within.cases {P : ε → Prop} {x : Except ε α} (h : Within P x) :
    (∃ a, x = .ok a) ∨ ∃ e, x = .error e ∧ P e := by
  cases hx : x with
  | ok a => exact .inl ⟨a, rfl⟩
  | error e => exact .inr ⟨e, rfl, h e hx⟩

theorem Within.mono {P Q : ε → Prop} {x : Except ε α} (h : Within P x) (hPQ : ∀ e, P e → Q e) :
    Within Q x := fun e he => hPQ e (h e he)

/-- A chain ends as its first step may, or as the rest may on a result of the first step. -/
theorem Within.bind {P : ε → Prop} {x : Except ε α} {f : α → Except ε β} (hx : Within P x)
    (hf : ∀ a, x = .ok a → Within P (f a)) : Within P (x >>= f) := by
  cases hcase : x with
  | error e => exact within_error.mpr (hx e hcase)
  | ok a => exact hf a hcase

theorem Within.map {P : ε → Prop} {x : Except ε α} (h : Within P x) (f : α → β) :
    Within P (x.map f) := by
  cases hcase : x with
  | error e => exact within_error.mpr (h e hcase)
  | ok a => exact within_ok P (f a)

theorem within_ite {P : ε → Prop} {c : Prop} [Decidable c] {x y : Except ε α}
    (hx : c → Within P x) (hy : ¬ c → Within P y) : Within P (if c then x else y) := by
  split
  · next h => exact hx h
  · next h => exact hy h

/-- A traversal ends as it may at one of the items. -/
theorem within_mapM {P : ε → Prop} {f : α → Except ε β} {xs : List α}
    (h : ∀ x ∈ xs, Within P (f x)) : Within P (xs.mapM f) := by
  induction xs with
  | nil => exact within_ok P []
  | cons x xs ih =>
    obtain ⟨hx, hxs⟩ := List.forall_mem_cons.mp h
    rw [List.mapM_cons]
    exact hx.bind fun y _ => (ih hxs).bind fun ys _ => within_ok P (y :: ys)

/-- A traversal is refused as one of its items is, if those that are not good are refused and one of
    them is not. -/
theorem exists_error_of_mapM {P : ε → Prop} {f : α → Except ε β} {good : α → Prop} {xs : List α}
    (hgood : ∀ x ∈ xs, good x → ∃ y, f x = .ok y)
    (hbad : ∀ x ∈ xs, ¬ good x → ∃ e, f x = .error e ∧ P e) (hsome : ∃ x ∈ xs, ¬ good x) :
    ∃ e, xs.mapM f = .error e ∧ P e := by
  have hwithin : ∀ x ∈ xs, Within P (f x) := by
    intro x hx
    by_cases hx' : good x
    · obtain ⟨y, hy⟩ := hgood x hx hx'
      exact within_of_eq_ok P hy
    · obtain ⟨e, he, hP⟩ := hbad x hx hx'
      rw [he]
      exact within_error.mpr hP
  obtain ⟨ys, hys⟩ | hrefused := (within_mapM hwithin).cases
  · -- all items would have results
    obtain ⟨x, hx, hx'⟩ := hsome
    obtain ⟨e, he, -⟩ := hbad x hx hx'
    obtain ⟨y, -, hy⟩ := exists_mapM_of_mem hys hx
    exact absurd (hy.symm.trans he) (by simp)
  · exact hrefused

theorem exists_mapM_of_forall {f : α → Except ε β} {xs : List α} (h : ∀ x ∈ xs, ∃ y, f x = .ok y) :
    ∃ ys, xs.mapM f = .ok ys := (exists_forall₂ h).imp fun _ => mapM_eq_ok.mpr

/-- Faults that are given a new cause are those of the new kind. -/
theorem Within.mapError {P : ε → Prop} {Q : ε' → Prop} {x : Except ε α} {g : ε → ε'}
    (h : Within P x) (hg : ∀ e, P e → Q (g e)) : Within Q (x.mapError g) := by
  cases hcase : x with
  | error e => exact within_error.mpr (hg e (h e hcase))
  | ok a => exact within_ok Q a

end Proposals.Outcome
