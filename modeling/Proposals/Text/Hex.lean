import Proposals.Text.Quoted

/-!
# `Proposals.Text.Hex` — bytes written in base sixteen

## Contents
- `hexValue?`: the value of a digit, in either case.
- `encodeHex`, `decodeHex?`: bytes to digits and back.
- `stripMark`: the mark `0x` in front.
- `bytesToHex`, `hexToBytes?`: both together.
-/

namespace Proposals.Text

/-- The value of a digit of base sixteen, in either case. -/
def hexValue? (c : Char) : Option Nat :=
  if '0' ≤ c ∧ c ≤ '9' then some (c.toNat - 48)
  else if 'a' ≤ c ∧ c ≤ 'f' then some (c.toNat - 87)
  else if 'A' ≤ c ∧ c ≤ 'F' then some (c.toNat - 55)
  else none

/-- Whether the character is a digit of base sixteen. -/
def isHexDigit (c : Char) : Bool := (hexValue? c).isSome

/-- Two digits for each byte, in small letters. -/
def encodeHex : List UInt8 → List Char
  | [] => []
  | b :: rest => lowerHexDigit (b.toNat / 16) :: lowerHexDigit (b.toNat % 16) :: encodeHex rest

/-- The bytes that an even number of digits writes. -/
def decodeHex? : List Char → Option (List UInt8)
  | [] => some []
  | [_] => none
  | hi :: lo :: rest => do
    let h ← hexValue? hi
    let l ← hexValue? lo
    let bytes ← decodeHex? rest
    return UInt8.ofNat (16 * h + l) :: bytes

/-- The text without a mark `0x` or `0X` in front. -/
def stripMark : List Char → List Char
  | '0' :: 'x' :: rest => rest
  | '0' :: 'X' :: rest => rest
  | cs => cs

/-- The written form of bytes, with the mark. -/
def bytesToHex (bytes : List UInt8) : List Char := '0' :: 'x' :: encodeHex bytes

/-- The bytes of a written form; the mark may be left out. -/
def hexToBytes? (cs : List Char) : Option (List UInt8) := decodeHex? (stripMark cs)

end Proposals.Text
