import Proposals.Abi.Encoding

/-!
# `Proposals.Abi.Decoding` — reading values back

The data are read from places in them. Before the components of a list are read, the distances of
the dynamic ones are checked: they lie past the heads and inside the data. Padding must be zero, or
the sign of a negative number. Whether the distances are those that encoding writes is not checked
here.

## Contents
- `DecodeFault`: data that do not follow the layout, and lengths past all bounds.
- `Coder.decode`: the value at a place, and the place behind it.
- `Coder.decodeAll`: the components of a list.
-/

namespace Proposals.Abi

open Proposals.Text Proposals.Number

/-- Why data cannot be decoded. -/
inductive DecodeFault where
  | layout
  | tooLong
deriving DecidableEq, Repr

/-- A result of decoding. -/
abbrev Decoded (α : Type) := Except DecodeFault α

/-- A part that the data must have. -/
def required {α : Type} : Option α → Decoded α
  | some a => .ok a
  | none => .error .layout

/-- The word at a place. -/
def readWord (data : List UInt8) (place : Nat) : Decoded Nat := required (wordAt? data place)

/-- The integer in a word whose last `bits` bits hold it, if the rest repeats its sign. -/
def signedValue? (bits n : Nat) : Option Int :=
  if n < twoTo (bits - 1) then some n
  else if twoTo 256 - twoTo (bits - 1) ≤ n then some ((n : Int) - twoTo 256)
  else none

/-- The bytes at the front, if only zeros follow them. -/
def zeroPadded? (size : Nat) (bs : List UInt8) : Option (List UInt8) :=
  if (bs.drop size).all (· == 0) then some (bs.take size) else none

/-- Whole words that may be asked for at once. -/
def maxLength : Nat := twoTo 63

/-- The byte string at a place, behind its length. -/
def readBytes (data : List UInt8) (place : Nat) : Decoded (List UInt8) := do
  let size ← readWord data place
  if maxLength ≤ wordCeil size then throw .tooLong
  let bs ← required (bytesAt? data (place + 32) (wordCeil size))
  required (zeroPadded? size bs)

/-- Reads `count` values one after the other. -/
def readMany (read : Nat → Decoded (Value × Nat)) : Nat → Nat → Decoded (List Value × Nat)
  | 0, place => .ok ([], place)
  | count + 1, place => do
    let (v, place) ← read place
    let (vs, place) ← readMany read count place
    return (v :: vs, place)

/-- Whether a distance leads from `start` past `count` heads to a place inside the data. -/
def isDistance (data : List UInt8) (start count distance : Nat) : Bool :=
  start + 32 * count ≤ start + distance && start + distance < data.length

/-- The distance at a place, checked. -/
def readDistance (data : List UInt8) (start count place : Nat) : Decoded Nat := do
  let distance ← readWord data place
  if isDistance data start count distance then return distance else throw .layout

/-- Checks the distances of `count` dynamic items, of which `left` are still to come. -/
def checkDistances (data : List UInt8) (start count : Nat) : Nat → Nat → Decoded Unit
  | 0, _ => .ok ()
  | left + 1, place => do
    let _ ← readDistance data start count place
    checkDistances data start count left (place + 32)

/-- Follows the distance at a place and reads there; the next head is one word further. -/
def follow (data : List UInt8) (start : Nat) (read : Nat → Decoded (Value × Nat)) (place : Nat) :
    Decoded (Value × Nat) := do
  let distance ← readWord data place
  let (v, _) ← read (start + distance)
  return (v, place + 32)

/-- The items of an array whose heads begin at `start`. Each head takes a word or more, so a count
that the data have no room for is refused at once. -/
def readItems (data : List UInt8) (dynamic : Bool) (read : Nat → Decoded (Value × Nat))
    (start count : Nat) : Decoded (List Value × Nat) := do
  if data.length < start + 32 * count then throw .layout
  if dynamic then
    checkDistances data start count count start
    readMany (follow data start read) count start
  else readMany read count start

/-- A word as a value. -/
def readWordAs (data : List UInt8) (place : Nat) (value? : Nat → Option Value) :
    Decoded (Value × Nat) := do
  let n ← readWord data place
  let v ← required (value? n)
  return (v, place + 32)

namespace Coder

/-- The value of a word. -/
def wordValue? : Coder → Nat → Option Value
  | .uint bits, n => if n < twoTo bits then some (.int n) else none
  | .int bits, n => (signedValue? bits n).map .int
  | .address, n =>
    if n < twoTo 160 then some (.text (addressOfBytes (bigEndian 20 n))) else none
  | .bool, n => if n = 0 then some (.bool false) else if n = 1 then some (.bool true) else none
  | .fixed true bits places, n =>
    (signedValue? bits n).map fun i => .decimal (.ofScaled i places)
  | .fixed false bits places, n =>
    if n < twoTo bits then some (.decimal (.ofScaled n places)) else none
  | .fixedBytes size, n => (zeroPadded? size (word n)).map .bytes
  | _, _ => none

mutual
/-- The value at a place of the data, and the place behind its static part. -/
def decode (data : List UInt8) : Coder → Nat → Decoded (Value × Nat)
  | .bytes, place => do
    let bs ← readBytes data place
    return (.bytes bs, place)
  | .string, place => do
    let bs ← readBytes data place
    let s ← required (ofUtf8? bs)
    return (.text s, place)
  | .array item (some n), place => do
    let (vs, place) ← readItems data item.isDynamic (decode data item) place n
    return (.list vs, place)
  | .array item none, place => do
    let count ← readWord data place
    let (vs, place) ← readItems data item.isDynamic (decode data item) (place + 32) count
    return (.list vs, place)
  | .tuple components, place => do
    checkParts data place (countPlaces components) components place
    let (vs, place) ← readParts data place components place
    return (.list vs, place)
  | .uint bits, place => readWordAs data place (wordValue? (.uint bits))
  | .int bits, place => readWordAs data place (wordValue? (.int bits))
  | .address, place => readWordAs data place (wordValue? .address)
  | .bool, place => readWordAs data place (wordValue? .bool)
  | .fixed signed bits places, place =>
    readWordAs data place (wordValue? (.fixed signed bits places))
  | .fixedBytes size, place => readWordAs data place (wordValue? (.fixedBytes size))

/-- Checks the distances of the dynamic components that begin at `start`; static ones in between
are read to find the next head. -/
def checkParts (data : List UInt8) (start count : Nat) : List Coder → Nat → Decoded Unit
  | [], _ => .ok ()
  | c :: cs, place => do
    if c.isDynamic then
      let _ ← readDistance data start count place
      checkParts data start count cs (place + 32)
    else
      let (_, place) ← decode data c place
      checkParts data start count cs place

/-- Reads the components that begin at `start`. -/
def readParts (data : List UInt8) (start : Nat) : List Coder → Nat → Decoded (List Value × Nat)
  | [], place => .ok ([], place)
  | c :: cs, place => do
    let (v, place) ←
      if c.isDynamic then follow data start (decode data c) place else decode data c place
    let (vs, place) ← readParts data start cs place
    return (v :: vs, place)
end

/-- The components of a list whose encoding is all of the data. -/
def decodeAll (components : List Coder) (data : List UInt8) : Decoded (List Value) := do
  checkParts data 0 (countPlaces components) components 0
  let (vs, _) ← readParts data 0 components 0
  return vs

end Coder

end Proposals.Abi
