/-!
# `Proposals.Text.Digit` — decimal digits of every script

Numbers may be written in any script whose digits zero to nine stand in one run of ten code points.

## Contents
- `zeroPoints`: where the runs outside ASCII begin, as of version 14 of the character standard.
- `isAsciiDigit`: the digits of ASCII.
- `digit?`: the value of a digit.
- `digit?_lt`: it is below ten.
-/

namespace Proposals.Text

/-- The code points of the digits zero outside ASCII. -/
def zeroPoints : List Nat := [
  0x0660, 0x06f0, 0x07c0, 0x0966, 0x09e6, 0x0a66, 0x0ae6, 0x0b66, 0x0be6, 0x0c66, 0x0ce6, 0x0d66,
  0x0de6, 0x0e50, 0x0ed0, 0x0f20, 0x1040, 0x1090, 0x17e0, 0x1810, 0x1946, 0x19d0, 0x1a80, 0x1a90,
  0x1b50, 0x1bb0, 0x1c40, 0x1c50, 0xa620, 0xa8d0, 0xa900, 0xa9d0, 0xa9f0, 0xaa50, 0xabf0, 0xff10,
  0x104a0, 0x10d30, 0x11066, 0x110f0, 0x11136, 0x111d0, 0x112f0, 0x11450, 0x114d0, 0x11650,
  0x116c0, 0x11730, 0x118e0, 0x11950, 0x11c50, 0x11d50, 0x11da0, 0x16a60, 0x16ac0, 0x16b50,
  0x1d7ce, 0x1d7d8, 0x1d7e2, 0x1d7ec, 0x1d7f6, 0x1e140, 0x1e2f0, 0x1e950, 0x1fbf0]

/-- Whether the character is a decimal digit of ASCII. -/
def isAsciiDigit (c : Char) : Bool := '0' ≤ c && c ≤ '9'

/-- The value of a decimal digit of any script. -/
def digit? (c : Char) : Option Nat :=
  if '0' ≤ c ∧ c ≤ '9' then some (c.toNat - '0'.toNat)
  else if c.toNat < 128 then none
  else
    (zeroPoints.find? fun z => decide (z ≤ c.toNat) && decide (c.toNat < z + 10)).map (c.toNat - ·)

theorem digit?_lt {c : Char} {d : Nat} (h : digit? c = some d) : d < 10 := by
  unfold digit? at h
  split at h
  · rename_i hc
    have h9 : c.toNat ≤ '9'.toNat := hc.2
    have : '9'.toNat = '0'.toNat + 9 := by decide
    injection h with h
    omega
  · split at h
    · simp at h
    · obtain ⟨z, hz, rfl⟩ := Option.map_eq_some_iff.1 h
      have := List.find?_some hz
      simp only [Bool.and_eq_true, decide_eq_true_eq] at this
      omega

end Proposals.Text
