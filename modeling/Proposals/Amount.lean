import Proposals.Wire

/-!
# `Proposals.Amount` — amounts of whole units and of least units

People write amounts as decimals of whole units; transactions count least units. `decimals` is the
number of decimal places that one whole unit has.

## Contents
- `parseUnits`: least units from a written amount, never rounded.
- `formatNat`: the written amount of a number of least units.
- `formatUnits`: the same for unchecked values; `formatAt`: at any number of decimal places.
-/

namespace Proposals.Amount

open Proposals.Text Proposals.Number

/-! ## Reading -/

/-- The least units of a finite positive decimal, whose written form is `amount`. -/
def unitsOf (amount : String) (coefficient : Nat) (exponent decimals : Int) : Outcome Nat :=
  if (maxValueDigits : Int) ≤ Decimal.adjusted coefficient exponent + decimals then
    .error (.amount (.tooLarge amount))
  else
    let shift := exponent + decimals
    let (digits, places) := Decimal.trimPlaces coefficient (-shift).toNat
    if 0 < places then .error (.amount (.tooFine amount decimals))
    else
      let units := digits * tenTo shift.toNat
      if maxUint256 < units then .error (.amount (.tooLarge amount)) else .ok units

/-- The least units of a written amount. -/
def parseUnits (amount : Value) (decimals : Int) : Outcome Nat :=
  match amount with
  | .text s =>
    match Decimal.read? (strip s.toList) with
    | none => .error (.amount (.notDecimal s))
    | some (.finite negative coefficient exponent) =>
      if coefficient = 0 then .ok 0
      else if negative then .error (.amount (.negative s))
      else unitsOf s coefficient exponent decimals
    | some _ => .error (.amount (.notFinite s))
  | _ => .error (.amount .notText)

/-! ## Writing -/

/-- The text, filled up with zeros on the left to a width. -/
def padLeft (width : Nat) (cs : List Char) : List Char :=
  List.replicate (width - cs.length) '0' ++ cs

/-- The text without its closing zeros. -/
def dropZeros (cs : List Char) : List Char := (cs.reverse.dropWhile (· == '0')).reverse

/-- A whole part and a part behind the point, which is not zero. -/
def pointed (decimals : Nat) (whole fraction : List Char) : List Char :=
  whole ++ '.' :: dropZeros (padLeft decimals fraction)

/-- The written amount of a number of least units. -/
def formatNat (units decimals : Nat) : List Char :=
  let whole := units / tenTo decimals
  let fraction := units % tenTo decimals
  if fraction = 0 then natText whole else pointed decimals (natText whole) (natText fraction)

/-- The most digits of the results of decimal division. -/
def divisionDigits : Nat := 28

/-- A decimal remainder, rounded to the digits that division keeps. -/
def roundRemainder (coefficient : Nat) (exponent : Int) : Decimal :=
  let excess := Decimal.digitCount coefficient - divisionDigits
  .finite false (Binary.divRound coefficient (tenTo excess)) (exponent + excess)

/-- The written amount of a decimal number of least units. -/
def formatDecimal (decimals : Nat) : Decimal → Outcome (List Char)
  | .finite negative coefficient exponent =>
    if negative && coefficient != 0 then .error (.amount .negativeUnits)
    else
      let scale := min exponent 0
      let num := coefficient * tenTo (exponent - scale).toNat
      let den := tenTo decimals * tenTo (-scale).toNat
      if divisionDigits < Decimal.digitCount (num / den) then .error (.data .inexact)
      else
        let whole := Decimal.signText negative ++ natText (num / den)
        if num % den = 0 then .ok whole
        else .ok (pointed decimals whole (roundRemainder (num % den) scale).text)
  | .infinite true => .error (.amount .negativeUnits)
  | _ => .error (.data .inexact)

/-- The written amount of a floating point number of least units, of which a whole unit has `scale`;
its two parts are shown as such numbers. -/
def formatBinary (decimals : Nat) (scale x : Binary) : Outcome (List Char) :=
  match scale, x with
  | _, .infinite true => .error (.amount .negativeUnits)
  | _, .finite true (_ + 1) _ => .error (.amount .negativeUnits)
  | .infinite _, _ => .error (.data .overflow)
  | scale, x =>
    let (whole, fraction) := x.divMod scale
    if (Value.float fraction).isZero then .ok whole.text
    else .ok (pointed decimals whole.text fraction.text)

/-- The written amount of least units, which may be any number that is not negative. -/
def formatUnits (units : Value) (decimals : Nat) : Outcome String :=
  match units with
  | .int (.ofNat n) => .ok (String.ofList (formatNat n decimals))
  | .int (.negSucc _) => .error (.amount .negativeUnits)
  | .bool b => .ok (String.ofList (formatNat (if b then 1 else 0) decimals))
  | .float x => (formatBinary decimals (.ofInt (tenTo decimals : Nat)) x).map String.ofList
  | .decimal d => (formatDecimal decimals d).map String.ofList
  | _ => .error (.data .wrongKind)

/-- The written amount where a least unit has `power` more digits than a whole one, so that a whole
unit has a fraction of a least one. It comes from floating point division. -/
def formatCoarse (units : Value) (power : Nat) : Outcome String :=
  let scale := Binary.ofDecimal false 1 (-(power : Int))
  let format := fun x => (formatBinary 0 scale x).map String.ofList
  match units with
  | .int n =>
    match Binary.ofInt n with
    | .infinite false => .error (.data .overflow)
    | x => format x
  | .bool b => format (.ofInt (if b then 1 else 0))
  | .float x => format x
  | .decimal d =>
    match d.compare? (.ofInt 0) with
    | some .lt => .error (.amount .negativeUnits)
    | some _ => .error (.data .wrongKind)
    | none => .error (.data .inexact)
  | _ => .error (.data .wrongKind)

/-- The written amount of least units at any number of decimal places. -/
def formatAt (units : Value) : Int → Outcome String
  | .ofNat decimals => formatUnits units decimals
  | .negSucc n => formatCoarse units (n + 1)

end Proposals.Amount
