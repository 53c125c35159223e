import Proposals.Value.Reading

/-!
# `Proposals.Address` — account addresses

An address is twenty bytes. As a text it has forty digits of base sixteen in any case, with or
without the mark `0x`; its normal form has the mark and small letters.

## Contents
- `isAddressText`, `normalizeText`: texts.
- `Value.isAddress`, `Value.toAddress?`: values; bytes and numbers can be addresses too.
- `sameAddress`: equality of addresses in any form.
- `addressBytes?`: the twenty bytes.
-/

namespace Proposals

open Proposals.Text Proposals.Number

/-- Whether the text is an address. -/
def isAddressText (cs : List Char) : Bool :=
  (stripMark cs).length == 40 && (stripMark cs).all isHexDigit

/-- The normal form of an address. -/
def normalizeText (cs : List Char) : List Char := '0' :: 'x' :: lowerAscii (stripMark cs)

/-- The text in normal form, if it is an address. -/
def addressOfText? (s : String) : Option String :=
  if isAddressText s.toList then some (String.ofList (normalizeText s.toList)) else none

/-- The bytes of an address. -/
def addressBytes? (s : String) : Option (List UInt8) :=
  if isAddressText s.toList then decodeHex? (stripMark s.toList) else none

/-- The address with the given twenty bytes. -/
def addressOfBytes (bs : List UInt8) : String := String.ofList (bytesToHex bs)

/-- The digits of a number in base sixteen, with the mark. -/
def hexOfNat (n : Nat) : List Char := '0' :: 'x' :: Nat.toDigits 16 n

namespace Value

/-- Whether the value is an address: a text in one of the accepted forms, or twenty bytes. -/
def isAddress : Value → Bool
  | .text s => isAddressText s.toList
  | .bytes bs => bs.length == 20
  | _ => false

/-- The address in normal form. A number counts as the address with its digits in base sixteen,
if it has exactly forty of them. -/
def toAddress? : Value → Option String
  | .text s => addressOfText? s
  | .bytes bs => if bs.length = 20 then some (addressOfBytes bs) else none
  | .int (.ofNat n) => addressOfText? (String.ofList (hexOfNat n))
  | _ => none

end Value

/-- Whether two values are the same address. -/
def sameAddress (v w : Value) : Bool :=
  v.isAddress && w.isAddress && v.toAddress? == w.toAddress?

end Proposals
