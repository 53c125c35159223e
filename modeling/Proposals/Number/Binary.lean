import Proposals.Number.Decimal

/-!
# `Proposals.Number.Binary` — floating point numbers of 64 bits

A finite number is `significand * 2 ^ exponent` with at most 53 bits, kept in one form per number:
53 bits, or the least exponent. A real number that lies between two of them is rounded to the
nearer, of two equally near to the one with even significand.

## Contents
- `Binary`, `ofRatio`, `ofDecimal`, `ofInt`: the type and rounding into it.
- `toDecimal`: the exact value.
- `truncate`: the integer part.
- `shortest`: the fewest decimal digits that round back to the number, nearest to it.
- `text`: the written form.
- `read?`: the reader.
- `divMod`: whole part and remainder of a quotient.
-/

namespace Proposals.Number

open Proposals.Text

/-- A floating point number: finite, infinite or not a number. -/
inductive Binary where
  | finite (negative : Bool) (significand : Nat) (exponent : Int)
  | infinite (negative : Bool)
  | nan
deriving DecidableEq, Repr

namespace Binary

/-- The quotient rounded to the nearest integer, a half to the even one. -/
def divRound (num den : Nat) : Nat :=
  let q := num / den
  let twice := 2 * (num % den)
  if den < twice ∨ (twice = den ∧ q % 2 = 1) then q + 1 else q

/-- The least exponent. -/
def minExponent : Int := -1074

/-- The greatest exponent. -/
def maxExponent : Int := 971

/-- The ratio divided by a power of two, again as a ratio. -/
def scaleDown (num den : Nat) (exponent : Int) : Nat × Nat :=
  (num * twoTo (-exponent).toNat, den * twoTo exponent.toNat)

/-- The exponent at which the ratio has 53 bits before the point, but not below the least. -/
def exponentOf (num den : Nat) : Int :=
  let guess := (Nat.log2 num : Int) - Nat.log2 den - 53
  let (n, d) := scaleDown num den guess
  max minExponent (if n / d < twoTo 53 then guess else guess + 1)

/-- The number nearest to a ratio of natural numbers. -/
def ofRatio (negative : Bool) (num den : Nat) : Binary :=
  if num = 0 then .finite negative 0 0
  else
    let exponent := exponentOf num den
    let (n, d) := scaleDown num den exponent
    let significand := divRound n d
    let (significand, exponent) :=
      if significand = twoTo 53 then (twoTo 52, exponent + 1) else (significand, exponent)
    if significand = 0 then .finite negative 0 0
    else if maxExponent < exponent then .infinite negative
    else .finite negative significand exponent

/-- The number nearest to a finite decimal. A first digit past the power 310 is out of range, one
before the power -330 is nothing. -/
def ofDecimal (negative : Bool) (coefficient : Nat) (exponent : Int) : Binary :=
  let size := Decimal.adjusted coefficient exponent
  if coefficient = 0 ∨ size < -330 then .finite negative 0 0
  else if 310 < size then .infinite negative
  else ofRatio negative (coefficient * tenTo exponent.toNat) (tenTo (-exponent).toNat)

/-- The number nearest to an integer. -/
def ofInt (n : Int) : Binary := ofRatio (n < 0) n.natAbs 1

/-- The exact value as a decimal. -/
def toDecimal : Binary → Decimal
  | .finite negative m e =>
    if 0 ≤ e then .finite negative (m * twoTo e.toNat) 0
    else .finite negative (m * Nat.pow 5 (-e).toNat) e
  | .infinite negative => .infinite negative
  | .nan => .invalid false false 0

/-- The integer part of a finite number. -/
def truncate (negative : Bool) (m : Nat) (e : Int) : Int :=
  let n : Nat := if 0 ≤ e then m * twoTo e.toNat else m / twoTo (-e).toNat
  if negative then -(n : Int) else n

/-! ## Shortest decimal digits -/

/-- The power of ten of the first digit of a positive ratio. -/
def decimalExponent (num den : Nat) : Int :=
  let guess := (Decimal.digitCount num : Int) - Decimal.digitCount den
  if num * tenTo (-guess).toNat < den * tenTo guess.toNat then guess - 1 else guess

/-- A positive number in quarters of its last place, with the interval that rounds to it:
`low`, `value`, `high`, all over `den`, and whether the ends belong to it. -/
structure Neighbourhood where
  low : Nat
  value : Nat
  high : Nat
  den : Nat
  closed : Bool

/-- The interval of the reals that round to `m * 2 ^ e`. Below a power of two the numbers are twice
as close. -/
def neighbourhood (m : Nat) (e : Int) : Neighbourhood :=
  let narrow := m = twoTo 52 ∧ minExponent < e
  let up := twoTo (e - 2).toNat
  { low := (if narrow then 4 * m - 1 else 4 * m - 2) * up
    value := 4 * m * up
    high := (4 * m + 2) * up
    den := twoTo (2 - e).toNat
    closed := m % 2 = 0 }

/-- Whether `digits * 10 ^ power` lies in the interval. -/
def Neighbourhood.holds (n : Neighbourhood) (digits : Nat) (power : Int) : Bool :=
  let x := digits * tenTo power.toNat * n.den
  let unit := tenTo (-power).toNat
  if n.closed then n.low * unit ≤ x && x ≤ n.high * unit
  else n.low * unit < x && x < n.high * unit

/-- The best multiple of `10 ^ power` in the interval: one of the two next to the value. -/
def Neighbourhood.nearest? (n : Neighbourhood) (power : Int) : Option Nat :=
  let num := n.value * tenTo (-power).toNat
  let den := n.den * tenTo power.toNat
  let below := num / den
  let near := divRound num den
  let far := if near = below then below + 1 else below
  if n.holds near power then some near
  else if n.holds far power then some far
  else none

/-- Tries ever finer grids of decimals, at most `tries` of them. -/
def Neighbourhood.search (n : Neighbourhood) : Nat → Int → Nat × Int
  | 0, power => (n.value * tenTo (-power).toNat / (n.den * tenTo power.toNat), power)
  | tries + 1, power =>
    match n.nearest? power with
    | some digits => (digits, power)
    | none => n.search tries (power - 1)

/-- The fewest digits, and their power of ten, that round to `m * 2 ^ e`. -/
def shortest (m : Nat) (e : Int) : Nat × Int :=
  let n := neighbourhood m e
  n.search 17 (decimalExponent n.value n.den)

/-- An exponent of two digits or more, with its sign. -/
def exponentText (n : Int) : List Char :=
  let digits := natText n.natAbs
  (if n < 0 then '-' else '+') :: (if digits.length < 2 then '0' :: digits else digits)

/-- The written form of a finite number: positional from `0.0001` to below `10 ^ 16`, always with a
point, else with an exponent. -/
def finiteText (m : Nat) (e : Int) : List Char :=
  if m = 0 then "0.0".toList
  else
    let (coefficient, power) := shortest m e
    let all := natText coefficient
    let digits := (all.reverse.dropWhile (· == '0')).reverse
    let size := power + all.length - 1
    if -4 ≤ size ∧ size < 16 then
      let shown := Decimal.pointedDigits digits (size + 1)
      if shown.contains '.' then shown else shown ++ ".0".toList
    else Decimal.pointedDigits digits 1 ++ 'e' :: exponentText size

/-- The written form. -/
def text : Binary → List Char
  | .finite negative m e => Decimal.signText negative ++ finiteText m e
  | .infinite negative => Decimal.signText negative ++ "inf".toList
  | .nan => "nan".toList

/-- The number that a text writes. -/
def read? (cs : List Char) : Option Binary :=
  (Decimal.read? cs).map fun d =>
    match d with
    | .finite negative coefficient exponent => ofDecimal negative coefficient exponent
    | .infinite negative => .infinite negative
    | .invalid _ _ _ => .nan

/-! ## Division -/

/-- A finite number as a ratio, without its sign. -/
def ratio (m : Nat) (e : Int) : Nat × Nat := (m * twoTo e.toNat, twoTo (-e).toNat)

/-- Whole part and remainder of a number without sign divided by a positive one. The remainder is
exact; the whole part comes from the rounded quotient of what the remainder leaves. -/
def divMod : Binary → Binary → Binary × Binary
  | .finite negative 0 e, .finite _ _ _ => (.finite negative 0 e, .finite false 0 0)
  | .finite _ m1 e1, .finite _ m2 e2 =>
    let (a, b) := ratio m1 e1
    let (c, d) := ratio m2 e2
    let q := a * d / (b * c)
    let r := a * d - q * (b * c)
    let remainder := ofRatio false r (b * d)
    let left := ofRatio false (a * d - r) (b * d)
    match left with
    | .finite _ m e =>
      let (x, y) := ratio m e
      match ofRatio false (x * d) (y * c) with
      | .finite _ m e =>
        let (x, y) := ratio m e
        let whole := x / y
        (ofInt (if y < 2 * (x % y) then whole + 1 else whole : Nat), remainder)
      | other => (other, remainder)
    | other => (other, remainder)
  | .finite negative m e, .infinite _ => (.finite false 0 0, .finite negative m e)
  | _, _ => (.nan, .nan)

end Binary

end Proposals.Number
