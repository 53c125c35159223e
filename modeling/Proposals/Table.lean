/-!
# `Proposals.Table` — tables in order of first entry

A table is a list of keys with values. Setting a key that is already there changes its value and
keeps its place.

## Contents
- `Table.find?`, `Table.insert`.
- `Table.find?_insert`: what is found after setting a key.
-/

namespace Proposals.Table

variable {κ α : Type} [DecidableEq κ]

/-- The value under a key. -/
def find? (key : κ) : List (κ × α) → Option α
  | [] => none
  | (k, v) :: rest => if k = key then some v else find? key rest

/-- The table with the key set to the value. -/
def insert (key : κ) (v : α) : List (κ × α) → List (κ × α)
  | [] => [(key, v)]
  | (k, w) :: rest => if k = key then (k, v) :: rest else (k, w) :: insert key v rest

theorem find?_insert (key key' : κ) (v : α) (t : List (κ × α)) :
    find? key' (insert key v t) = if key = key' then some v else find? key' t := by
  induction t with
  | nil => simp [insert, find?]
  | cons entry rest ih =>
    obtain ⟨k, w⟩ := entry
    by_cases h : k = key
    · subst h
      by_cases h' : k = key' <;> simp [insert, find?, h']
    · by_cases h' : k = key'
      · subst h'
        simp [insert, find?, h, Ne.symm h]
      · simp [insert, find?, h, h', ih]

end Proposals.Table
