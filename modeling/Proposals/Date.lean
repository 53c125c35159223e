import Proposals.Value.Reading

/-!
# `Proposals.Date` — dates of timestamps

A timestamp counts the seconds since the beginning of 1970. It is shown as a day of the calendar if
its year has at most four digits, else as the number itself.

## Contents
- `Day`, `dayOf`: the calendar.
- `secondsOf`, `dateText`: timestamps.
-/

namespace Proposals.Date

open Proposals.Number

/-- A day of the calendar. -/
structure Day where
  year : Int
  month : Nat
  day : Nat
deriving DecidableEq, Repr

/-- The day with the given number, counted from the beginning of 1970. Years begin in March here, so
that the leap day comes last; four hundred of them have 146097 days. -/
def dayOf (number : Int) : Day :=
  let shifted := number + 719468
  let era := shifted.fdiv 146097
  let inEra := (shifted.fmod 146097).toNat
  let year := (inEra - inEra / 1460 + inEra / 36524 - inEra / 146096) / 365
  let inYear := inEra - (365 * year + year / 4 - year / 100)
  let month := (5 * inYear + 2) / 153
  let day := inYear - (153 * month + 2) / 5 + 1
  let month := if month < 10 then month + 3 else month - 9
  ⟨year + era * 400 + (if month ≤ 2 then 1 else 0), month, day⟩

/-- The short names of the months. -/
def monthNames : List String :=
  ["Jan", "Feb", "Mar", "Apr", "May", "Jun", "Jul", "Aug", "Sep", "Oct", "Nov", "Dec"]

/-- The short name of a month. -/
def monthName (month : Nat) : String := (monthNames[month - 1]?).getD ""

/-- A number of two digits or more. -/
def twoDigits (n : Nat) : List Char := if n < 10 then '0' :: natText n else natText n

/-- A day as a text. -/
def Day.text (d : Day) : String :=
  monthName d.month ++ " " ++ String.ofList (twoDigits d.day) ++ ", " ++
    String.ofList (intText d.year)

/-- The first second of the year 1. -/
def firstSecond : Int := -62135596800

/-- The last second of the year 9999. -/
def lastSecond : Int := 253402300799

/-- The whole seconds of a floating point timestamp, which counts to the nearest microsecond. -/
def binarySeconds (negative : Bool) (m : Nat) (e : Int) : Int :=
  let (num, den) := Binary.ratio m e
  let micros : Nat := Binary.divRound (num * 1000000) den
  (if negative then -(micros : Int) else micros).fdiv 1000000

/-- The seconds of a timestamp; none if the number is not finite. -/
def secondsOf : Value → Outcome (Option Int)
  | .int n => .ok (some n)
  | .bool b => .ok (some (if b then 1 else 0))
  | .float (.finite negative m e) => .ok (some (binarySeconds negative m e))
  | .float _ => .ok none
  | _ => .error (.data .wrongKind)

/-- The date of a timestamp. -/
def dateText (timestamp : Value) : Outcome String := do
  match ← secondsOf timestamp with
  | some n =>
    if firstSecond ≤ n ∧ n ≤ lastSecond then return (dayOf (n.fdiv 86400)).text
    else return "timestamp " ++ timestamp.display
  | none => return "timestamp " ++ timestamp.display

end Proposals.Date
