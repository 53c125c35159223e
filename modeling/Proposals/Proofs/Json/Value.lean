import Proposals.Proofs.Fault
import Proposals.Proofs.Json.Document
import Proposals.Proofs.Registry

/-!
# `Proofs.Json.Value` — what is read from JSON texts

A JSON text is read, breaks the grammar, or has an integer with too many digits (`within_read`). What is
read has a JSON form itself (`isPrintable_of_read`), so it can be put into documents as it is.
-/

namespace Proposals.Json

open Text Number Outcome Value

theorem isPrintable_of_readNumber {cs rest : List Char} {v : Value}
    (h : readNumber cs = .ok (v, rest)) : v.IsPrintable := by
  unfold readNumber at h
  dsimp only at h
  split at h
  · exact absurd h nofun
  · split at h
    · split at h
      · exact absurd h nofun
      · cases h
        trivial
    · cases h
      trivial

theorem isPrintable_of_readSimple {cs rest : List Char} {v : Value}
    (h : readSimple cs = .ok (v, rest)) : v.IsPrintable := by
  have hnamed : ∀ entry ∈ namedValues, entry.2.IsPrintable := by
    simp [namedValues, IsPrintable]
  unfold readSimple at h
  split at h
  · next name v' hfound =>
    cases h
    exact hnamed _ (List.mem_of_find?_eq_some hfound)
  · exact isPrintable_of_readNumber h

/-- What each step of the reader gives can be printed, if it can be in front of the step. -/
structure ReadsPrintable (fuel : Nat) : Prop where
  value : ∀ {cs v rest}, readValue fuel cs = .ok (v, rest) → v.IsPrintable
  items : ∀ {cs vs rest}, readItems fuel cs = .ok (vs, rest) → ArePrintable vs
  entries : ∀ {entries cs entries' rest}, AreEntriesPrintable entries →
    readEntries fuel entries cs = .ok (entries', rest) → AreEntriesPrintable entries'

theorem areEntriesPrintable_insert (key : String) {v : Value} {entries : List (String × Value)}
    (hv : v.IsPrintable) (h : AreEntriesPrintable entries) :
    AreEntriesPrintable (Table.insert key v entries) := by
  rw [areEntriesPrintable_iff] at h ⊢
  intro entry hentry
  rcases Table.mem_insert hentry with rfl | hentry
  · exact hv
  · exact h entry hentry

namespace ReadsPrintable

variable {fuel : Nat} {cs rest : List Char} (h : ReadsPrintable fuel)

include h

/-- A value is simple, a text, or made of items or entries that the reader comes to with less fuel. -/
theorem value_succ {v : Value} (hread : readValue (fuel + 1) cs = .ok (v, rest)) : v.IsPrintable := by
  unfold readValue at hread
  split at hread
  · cases hread
  · split at hread
    · obtain ⟨⟨s, rest'⟩, -, hread⟩ := bind_eq_ok.mp hread
      cases hread
      trivial
    · split at hread
      · split at hread
        · cases hread
          trivial
        · obtain ⟨⟨vs, rest'⟩, hitems, hread⟩ := bind_eq_ok.mp hread
          cases hread
          exact h.items hitems
      · split at hread
        · dsimp only at hread
          split at hread
          · cases hread
            trivial
          · obtain ⟨⟨entries, rest'⟩, hentries, hread⟩ := bind_eq_ok.mp hread
            cases hread
            have hnone : AreEntriesPrintable [] := trivial
            exact h.entries hnone hentries
        · exact isPrintable_of_readSimple hread

theorem items_succ {vs : List Value} (hread : readItems (fuel + 1) cs = .ok (vs, rest)) :
    ArePrintable vs := by
  unfold readItems at hread
  obtain ⟨⟨v, rest'⟩, hv, hread⟩ := bind_eq_ok.mp hread
  dsimp only at hread
  split at hread
  · obtain ⟨⟨vs', rest''⟩, hvs, hread⟩ := bind_eq_ok.mp hread
    cases hread
    exact ⟨h.value hv, h.items hvs⟩
  · cases hread
    exact ⟨h.value hv, trivial⟩
  · cases hread

/-- Each entry joins those that have been read before it. -/
theorem entries_succ {entries entries' : List (String × Value)} (hentries : AreEntriesPrintable entries)
    (hread : readEntries (fuel + 1) entries cs = .ok (entries', rest)) : AreEntriesPrintable entries' := by
  unfold readEntries at hread
  split at hread
  · split at hread
    · cases hread
    · obtain ⟨⟨key, rest'⟩, -, hread⟩ := bind_eq_ok.mp hread
      dsimp only at hread
      split at hread
      · obtain ⟨⟨v, rest''⟩, hv, hread⟩ := bind_eq_ok.mp hread
        have hnext := areEntriesPrintable_insert (String.ofList key) (h.value hv) hentries
        dsimp only at hread
        split at hread
        · exact h.entries hnext hread
        · split at hread
          · cases hread
            exact hnext
          · cases hread
        · cases hread
      · cases hread
  · cases hread

end ReadsPrintable

theorem readsPrintable (fuel : Nat) : ReadsPrintable fuel := by
  induction fuel with
  | zero => refine ⟨fun h => ?_, fun h => ?_, fun _ h => ?_⟩ <;> cases h
  | succ fuel ih => exact ⟨ih.value_succ, ih.items_succ, ih.entries_succ⟩

/-- An integer with more digits than any that is read stops the reader. -/
def HasLongInteger (text : String) : Prop := readChars text.toList = .error .longInteger

/-- A JSON text is read, or it breaks the grammar, or it has an integer with too many digits. -/
theorem within_read (text : String) :
    Within (fun fault => (∃ cause, fault = .json cause) ∨ fault = .data .badValue ∧ HasLongInteger text)
      (read text) := by
  unfold read
  split
  · exact within_ok _ _
  · exact within_error.mpr (.inl ⟨_, rfl⟩)
  · next hlong => exact within_error.mpr (.inr ⟨rfl, hlong⟩)

theorem not_hasLongInteger_of_read {text : String} {v : Value} (h : read text = .ok v) :
    ¬ HasLongInteger text := by
  intro hlong
  unfold read at h
  rw [hlong] at h
  exact absurd h nofun

/-- **What is read from a JSON text can be printed.** -/
theorem isPrintable_of_read {text : String} {v : Value} (h : read text = .ok v) : v.IsPrintable := by
  unfold read at h
  split at h
  · next v' hv =>
    cases h
    unfold readChars at hv
    split at hv
    · next v'' rest hread =>
      split at hv
      · cases hv
        exact (readsPrintable _).value hread
      · exact absurd hv nofun
    · exact absurd hv nofun
  · exact absurd h nofun
  · exact absurd h nofun

end Proposals.Json
