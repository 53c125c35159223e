import Proposals.Abi.Coder
import Proposals.Abi.Word
import Proposals.Address
import Proposals.Text.Utf8

/-!
# `Proposals.Abi.Encoding` — the layout of values

The encoding of a list of components is their heads followed by their tails. A static component has
its encoding in its head; a dynamic one has there the distance to its encoding, which is its tail.

## Contents
- `assemble`: heads and tails.
- `encodeFixed?`: fixed point numbers.
- `Coder.encode?`: a value by its coder, if it fits.
-/

namespace Proposals.Abi

open Proposals.Text Proposals.Number

/-- A component: whether it is dynamic, and its encoding. -/
abbrev Part := Bool × List UInt8

/-- How many bytes the heads take. -/
def headSize : List Part → Nat
  | [] => 0
  | (true, _) :: rest => 32 + headSize rest
  | (false, bs) :: rest => bs.length + headSize rest

/-- The heads; the next tail stands at distance `place`. -/
def heads (place : Nat) : List Part → List UInt8
  | [] => []
  | (true, bs) :: rest => word place ++ heads (place + bs.length) rest
  | (false, bs) :: rest => bs ++ heads place rest

/-- The tails. -/
def tails : List Part → List UInt8
  | [] => []
  | (true, bs) :: rest => bs ++ tails rest
  | (false, _) :: rest => tails rest

/-- The encoding of a list of components. -/
def assemble (parts : List Part) : List UInt8 := heads (headSize parts) parts ++ tails parts

/-! ## Fixed point numbers -/

/-- The integer part of `coefficient * 10 ^ exponent`, and whether that is all of it; none if the
number has more than a hundred digits before the point. -/
def integerPart? (coefficient : Nat) (exponent : Int) : Option (Nat × Bool) :=
  if coefficient = 0 then some (0, true)
  else if 100 < Decimal.adjusted coefficient exponent then none
  else if 0 ≤ exponent then some (coefficient * tenTo exponent.toNat, true)
  else
    let shift := (-exponent).toNat
    if Decimal.digitCount coefficient < shift then some (0, false)
    else some (coefficient / tenTo shift, coefficient % tenTo shift = 0)

/-- A decimal scaled to `places` decimal places, in one word. A negative number with more places is
cut off; less than one unit of the last place leaves the least negative byte string. -/
def encodeFixed? (signed : Bool) (bits places : Nat) (negative : Bool) (coefficient : Nat)
    (exponent : Int) : Option (List UInt8) :=
  match integerPart? coefficient (exponent + places) with
  | none => none
  | some (n, exact) =>
    if negative && coefficient != 0 then
      if !signed then none
      else if twoTo (bits - 1) < n ∨ (n = twoTo (bits - 1) ∧ !exact) then none
      else some (if n = 0 then signedWord (-256) else signedWord (-n))
    else if !exact then none
    else if n < twoTo (if signed then bits - 1 else bits) then some (word n)
    else none

/-- A number of any exact kind as a fixed point number. -/
def encodeFixedValue? (signed : Bool) (bits places : Nat) : Value → Option (List UInt8)
  | .int n => encodeFixed? signed bits places (n < 0) n.natAbs 0
  | .bool b => encodeFixed? signed bits places false (if b then 1 else 0) 0
  | .decimal (.finite negative coefficient exponent) =>
    encodeFixed? signed bits places negative coefficient exponent
  | _ => none

/-! ## Values -/

/-- A byte string behind its length. -/
def encodeBytes (bs : List UInt8) : List UInt8 := word bs.length ++ padRight bs

namespace Coder

mutual
/-- The encoding of a value, if it fits the coder. -/
def encode? : Coder → Value → Option (List UInt8)
  | .uint bits, .int n => if 0 ≤ n ∧ n < twoTo bits then some (word n.toNat) else none
  | .int bits, .int n =>
    if -(twoTo (bits - 1) : Int) ≤ n ∧ n < twoTo (bits - 1) then some (signedWord n) else none
  | .address, .text s => (addressBytes? s).map fun bs => List.replicate 12 0 ++ bs
  | .bool, .bool b => some (word (if b then 1 else 0))
  | .fixed signed bits places, v => encodeFixedValue? signed bits places v
  | .fixedBytes size, .bytes bs => if bs.length ≤ size then some (padTo 32 bs) else none
  | .bytes, .bytes bs => some (encodeBytes bs)
  | .string, .text s => some (encodeBytes (utf8Bytes s))
  | .array item (some n), .list vs =>
    if vs.length = n then
      (vs.mapM (encode? item)).map fun es => assemble (es.map (item.isDynamic, ·))
    else none
  | .array item none, .list vs =>
    (vs.mapM (encode? item)).map fun es =>
      word vs.length ++ assemble (es.map (item.isDynamic, ·))
  | .tuple components, .list vs => (encodeParts? components vs).map assemble
  | _, _ => none

/-- The components of a tuple, if there is one value for each. -/
def encodeParts? : List Coder → List Value → Option (List Part)
  | [], [] => some []
  | c :: cs, v :: vs => do
    let bs ← encode? c v
    let rest ← encodeParts? cs vs
    return (c.isDynamic, bs) :: rest
  | _, _ => none
end

end Coder

end Proposals.Abi
