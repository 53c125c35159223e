import Proposals.Text.Printable

/-!
# `Proposals.Text.Quoted` — texts in messages

A text inside a message is put in single quotes, or in double quotes if it has a single quote and
no double one. The quote and the backslash are escaped, and characters that do not show are written
by number.

## Contents
- `lowerHexDigit`, `hexPadded`: numbers in base sixteen.
- `escapeChar`, `quoted`: a text in quotes.
-/

namespace Proposals.Text

/-- The single quote. -/
def singleQuote : Char := Char.ofNat 0x27

/-- The double quote. -/
def doubleQuote : Char := Char.ofNat 0x22

/-- The backslash. -/
def backslash : Char := Char.ofNat 0x5c

/-- The digit of base sixteen with the given value, in small letters. -/
def lowerHexDigit (n : Nat) : Char :=
  if n < 10 then Char.ofNat (48 + n) else Char.ofNat (87 + n)

/-- The last `width` digits of a number in base sixteen. -/
def hexPadded : Nat → Nat → List Char
  | 0, _ => []
  | width + 1, n => hexPadded width (n / 16) ++ [lowerHexDigit (n % 16)]

/-- How a character is written between the quotes `mark`. -/
def escapeChar (mark : Char) (c : Char) : List Char :=
  if c == mark || c == backslash then [backslash, c]
  else if c == '\n' then [backslash, 'n']
  else if c == '\r' then [backslash, 'r']
  else if c == '\t' then [backslash, 't']
  else if isPrintable c then [c]
  else if c.toNat < 0x100 then backslash :: 'x' :: hexPadded 2 c.toNat
  else if c.toNat < 0x10000 then backslash :: 'u' :: hexPadded 4 c.toNat
  else backslash :: 'U' :: hexPadded 8 c.toNat

/-- The text in quotes. -/
def quoted (cs : List Char) : List Char :=
  let mark := if cs.contains singleQuote && !cs.contains doubleQuote then doubleQuote
    else singleQuote
  mark :: cs.flatMap (escapeChar mark) ++ [mark]

end Proposals.Text
