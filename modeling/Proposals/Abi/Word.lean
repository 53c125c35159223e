import Proposals.Number.Power

/-!
# `Proposals.Abi.Word` — words of 32 bytes

Encoded arguments consist of words. Numbers fill a word from the right; byte strings are filled up
with zeros on the right to whole words.

## Contents
- `bigEndian`, `ofBigEndian`: numbers as bytes.
- `word`, `signedWord`: one word.
- `padTo`, `padRight`, `wordCeil`: bytes filled up with zeros.
- `wordAt?`: the word at a place of the data.
-/

namespace Proposals.Abi

open Proposals.Number

/-- The last `width` bytes of a number, the most significant first. -/
def bigEndian : Nat → Nat → List UInt8
  | 0, _ => []
  | width + 1, n => bigEndian width (n / 256) ++ [UInt8.ofNat (n % 256)]

/-- The number that bytes write, the most significant first. -/
def ofBigEndian (bs : List UInt8) : Nat := bs.foldl (fun n b => 256 * n + b.toNat) 0

/-- A number in one word. -/
def word (n : Nat) : List UInt8 := bigEndian 32 n

/-- An integer in one word; a negative one is counted down from the end. -/
def signedWord (n : Int) : List UInt8 := word (n % twoTo 256).toNat

/-- The length in whole words, counted in bytes. -/
def wordCeil (n : Nat) : Nat := (n + 31) / 32 * 32

/-- The bytes, filled up with zeros to a size. -/
def padTo (size : Nat) (bs : List UInt8) : List UInt8 := bs ++ List.replicate (size - bs.length) 0

/-- The bytes, filled up with zeros to whole words. -/
def padRight (bs : List UInt8) : List UInt8 := padTo (wordCeil bs.length) bs

/-- `size` bytes from a place of the data on. -/
def bytesAt? (data : List UInt8) (place size : Nat) : Option (List UInt8) :=
  let bs := (data.drop place).take size
  if bs.length = size then some bs else none

/-- The word at a place of the data, as a number. -/
def wordAt? (data : List UInt8) (place : Nat) : Option Nat :=
  (bytesAt? data place 32).map ofBigEndian

theorem length_bigEndian (width n : Nat) : (bigEndian width n).length = width := by
  induction width generalizing n with
  | zero => rfl
  | succ width ih => simp [bigEndian, ih]

theorem length_word (n : Nat) : (word n).length = 32 := length_bigEndian 32 n

end Proposals.Abi
