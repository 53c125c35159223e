import Proposals.Number.Integer
import Proposals.Number.Power

/-!
# `Proposals.Number.Decimal` — exact decimal numbers

A finite decimal is a sign, a coefficient and a power of ten. Two of them can be the same number
(`1.5` and `1.50`); `compare?` and `plainText` see the number, equality sees the form. The infinities
and the invalid numbers are kept because an amount may be written that way before it is refused.

## Contents
- `Decimal`, `ofInt`, `ofScaled`: the type and its makers.
- `adjusted`, `compare?`: size and order.
- `text`: the written form, with an exponent for very large and very small numbers.
- `plainText`: the written form without exponent.
- `read?`: the reader.
-/

namespace Proposals.Number

open Proposals.Text

/-- A decimal number: finite, infinite or invalid. -/
inductive Decimal where
  | finite (negative : Bool) (coefficient : Nat) (exponent : Int)
  | infinite (negative : Bool)
  | invalid (negative signaling : Bool) (payload : Nat)
deriving DecidableEq, Repr

namespace Decimal

/-- The integer as a decimal. -/
def ofInt (n : Int) : Decimal := .finite (n < 0) n.natAbs 0

/-- Takes zeros off the end of a coefficient while decimal places are left. -/
def trimPlaces : Nat → Nat → Nat × Nat
  | coefficient, 0 => (coefficient, 0)
  | coefficient, places + 1 =>
    if coefficient % 10 = 0 then trimPlaces (coefficient / 10) places
    else (coefficient, places + 1)

/-- `n` divided by `10 ^ places`, written with as few places as it needs. -/
def ofScaled (n : Int) (places : Nat) : Decimal :=
  let (coefficient, places) := trimPlaces n.natAbs places
  .finite (n < 0) coefficient (-(places : Int))

/-- How many digits a natural number has. -/
def digitCount (n : Nat) : Nat := (natText n).length

/-- The power of ten of the first digit. -/
def adjusted (coefficient : Nat) (exponent : Int) : Int :=
  exponent + (digitCount coefficient : Int) - 1

/-- Order of the magnitudes of two finite decimals, by their first digits and then by their
coefficients at a common power of ten. -/
def compareMagnitude (c1 : Nat) (e1 : Int) (c2 : Nat) (e2 : Int) : Ordering :=
  if c1 = 0 then (if c2 = 0 then .eq else .lt)
  else if c2 = 0 then .gt
  else if adjusted c1 e1 < adjusted c2 e2 then .lt
  else if adjusted c2 e2 < adjusted c1 e1 then .gt
  else compare (c1 * tenTo (e1 - e2).toNat) (c2 * tenTo (e2 - e1).toNat)

/-- Order of two decimals as numbers; none if one is invalid. -/
def compare? : Decimal → Decimal → Option Ordering
  | .finite n1 c1 e1, .finite n2 c2 e2 =>
    let s1 := n1 && c1 != 0
    let s2 := n2 && c2 != 0
    match s1, s2 with
    | false, false => some (compareMagnitude c1 e1 c2 e2)
    | false, true => some .gt
    | true, false => some .lt
    | true, true => some (compareMagnitude c2 e2 c1 e1)
  | .infinite n1, .infinite n2 =>
    some (if n1 = n2 then .eq else if n1 then .lt else .gt)
  | .infinite n1, .finite _ _ _ => some (if n1 then .lt else .gt)
  | .finite _ _ _, .infinite n2 => some (if n2 then .gt else .lt)
  | .invalid _ _ _, _ => none
  | _, .invalid _ _ _ => none

/-- Digits with a point after the first `point` of them, zeros filled in. -/
def pointedDigits (digits : List Char) (point : Int) : List Char :=
  if point ≤ 0 then '0' :: '.' :: (List.replicate (-point).toNat '0' ++ digits)
  else if (digits.length : Int) ≤ point then
    digits ++ List.replicate (point - digits.length).toNat '0'
  else digits.take point.toNat ++ '.' :: digits.drop point.toNat

/-- A minus sign, if there is one. -/
def signText (negative : Bool) : List Char := if negative then ['-'] else []

/-- An exponent with its sign. -/
def signedText (n : Int) : List Char := (if n < 0 then [] else ['+']) ++ intText n

/-- The written form: positional while no zeros must be filled in on the right and at most six on
the left of the digits, else with an exponent. -/
def text : Decimal → List Char
  | .finite negative coefficient exponent =>
    let digits := natText coefficient
    let point := exponent + digits.length
    signText negative ++
      if exponent ≤ 0 ∧ -6 < point then pointedDigits digits point
      else pointedDigits digits 1 ++ 'E' :: signedText (point - 1)
  | .infinite negative => signText negative ++ "Infinity".toList
  | .invalid negative signaling payload =>
    signText negative ++ (if signaling then ['s'] else []) ++ "NaN".toList ++
      if payload = 0 then [] else natText payload

/-- The digits of a plain number without the zeros that close its fraction. -/
def trimFraction (cs : List Char) : List Char :=
  if cs.contains '.' then
    ((cs.reverse.dropWhile (· == '0')).dropWhile (· == '.')).reverse
  else cs

/-- The written form without exponent and without closing zeros; zero has no sign. -/
def plainText : Decimal → List Char
  | .finite negative coefficient exponent =>
    if coefficient = 0 then ['0']
    else
      let digits := natText coefficient
      signText negative ++ trimFraction (pointedDigits digits (exponent + digits.length))
  | d => text d

/-- The largest power of ten that the first digit may have. -/
def maxAdjusted : Int := 999999999999999999

/-- The smallest exponent. -/
def minExponent : Int := -1999999999999999997

/-- The number of a nonempty run of ASCII digits. -/
def asciiNat? (cs : List Char) : Option Nat :=
  if !cs.isEmpty && cs.all isAsciiDigit then some (asciiNumber cs) else none

/-- Digits of every script as ASCII digits, underscores left out. -/
def asciiForm (cs : List Char) : List Char :=
  (cs.filter (· ≠ '_')).map fun c =>
    match digit? c with
    | some d => Char.ofNat (48 + d)
    | none => c

/-- The exponent after the mark `e`. -/
def readExponent? : List Char → Option Int
  | '-' :: digits => (asciiNat? digits).map fun n => -(n : Int)
  | '+' :: digits => (asciiNat? digits).map fun n => (n : Int)
  | digits => (asciiNat? digits).map fun n => (n : Int)

/-- A number without sign: digits with at most one point and an optional exponent. -/
def readMagnitude? (cs : List Char) : Option (Nat × Int) := do
  let isMark (c : Char) : Bool := c == 'e' || c == 'E'
  let mantissa := cs.takeWhile (!isMark ·)
  let exponent ← match cs.dropWhile (!isMark ·) with
    | [] => some 0
    | _ :: rest => readExponent? rest
  let whole := mantissa.takeWhile (· != '.')
  let fraction := (mantissa.dropWhile (· != '.')).drop 1
  let coefficient ← asciiNat? (whole ++ fraction)
  let exponent := exponent - fraction.length
  if maxAdjusted < adjusted coefficient exponent then none
  else if exponent < minExponent then none
  else return (coefficient, exponent)

/-- The number in the digits after a mark for an invalid number; none of them is zero. -/
def readPayload? (cs : List Char) : Option Nat :=
  if cs.isEmpty then some 0 else asciiNat? cs

/-- A decimal without sign. -/
def readUnsigned? (negative : Bool) (cs : List Char) : Option Decimal :=
  let small := lowercase cs
  if small = "inf".toList ∨ small = "infinity".toList then some (.infinite negative)
  else if small.take 3 = "nan".toList then
    (readPayload? (small.drop 3)).map (.invalid negative false)
  else if small.take 4 = "snan".toList then
    (readPayload? (small.drop 4)).map (.invalid negative true)
  else (readMagnitude? cs).map fun (c, e) => .finite negative c e
where
  /-- Small letters for the capital letters of ASCII. -/
  lowercase (cs : List Char) : List Char := cs.map Char.toLower

/-- The decimal that a text writes: blanks around it and underscores in it are left out, digits may
be of any script. -/
def read? (cs : List Char) : Option Decimal :=
  match asciiForm (strip cs) with
  | '-' :: rest => readUnsigned? true rest
  | '+' :: rest => readUnsigned? false rest
  | rest => readUnsigned? false rest

end Decimal

end Proposals.Number
