import Proposals.Text.Blank
import Proposals.Text.Digit

/-!
# `Proposals.Number.Integer` — integers as text

Written form: an optional sign and decimal digits. The reader is wider: blanks around the number,
digits of any script, and one `_` between two digits; it refuses more than 4300 digits.

## Contents
- `natText`, `intText`: the written form.
- `asciiNumber`: the number of a run of digits.
- `readDigits?`, `readInteger?`: the reader.
-/

namespace Proposals.Number

open Proposals.Text

/-- A natural number in decimal digits. -/
def natText (n : Nat) : List Char := Nat.toDigits 10 n

/-- An integer in decimal digits, with a minus sign if it is negative. -/
def intText : Int → List Char
  | .ofNat n => natText n
  | .negSucc n => '-' :: natText (n + 1)

/-- The number that a run of ASCII digits writes. -/
def asciiNumber (digits : List Char) : Nat :=
  digits.foldl (fun n c => 10 * n + (c.toNat - '0'.toNat)) 0

/-- The most digits that a written integer may have. -/
def maxDigits : Nat := 4300

/-- Blanks that may surround a written integer: all but the four information separators. -/
def isIntegerBlank (c : Char) : Bool := isBlank c && !(28 ≤ c.toNat && c.toNat ≤ 31)

/-- Reads the digits after those of `acc`; an underscore stands between two digits. -/
def readDigitsFrom? (acc : Nat) : List Char → Option Nat
  | [] => some acc
  | c :: rest =>
    if c = '_' then
      match rest with
      | [] => none
      | d :: rest => (digit? d).bind fun v => readDigitsFrom? (10 * acc + v) rest
    else (digit? c).bind fun v => readDigitsFrom? (10 * acc + v) rest

/-- The number that a nonempty run of digits writes. -/
def readDigits? (cs : List Char) : Option Nat :=
  match cs with
  | [] => none
  | c :: rest =>
    if maxDigits < (cs.filter (· ≠ '_')).length then none
    else (digit? c).bind fun v => readDigitsFrom? v rest

/-- The text without the blanks around an integer. -/
def trimInteger (cs : List Char) : List Char :=
  ((cs.dropWhile isIntegerBlank).reverse.dropWhile isIntegerBlank).reverse

/-- The integer that a text writes. -/
def readInteger? (cs : List Char) : Option Int :=
  match trimInteger cs with
  | '-' :: digits => (readDigits? digits).map fun n => -(n : Int)
  | '+' :: digits => (readDigits? digits).map fun n => (n : Int)
  | digits => (readDigits? digits).map fun n => (n : Int)

end Proposals.Number
