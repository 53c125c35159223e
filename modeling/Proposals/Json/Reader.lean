import Proposals.Fault
import Proposals.Text.Hex

/-!
# `Proposals.Json.Reader` — JSON texts

A JSON text becomes a `Value`. A number with a fraction or an exponent is a floating point number,
any other an integer of any size; `NaN`, `Infinity` and `-Infinity` are numbers too. Of two entries
of an object under one key the later one counts, at the place of the earlier.

## Contents
- `Stop`: where reading stopped.
- `readText`, `readNumber`, `readValue`: the parts.
- `Json.read`: a whole text.
-/

namespace Proposals.Json

open Proposals.Text Proposals.Number

/-- Why reading stopped: the grammar is broken with `left` characters to go, or an integer has too
many digits. -/
inductive Stop where
  | grammar (left : Nat)
  | longInteger

/-- The outcome of a reading step: something read with the rest of the text, or a stop. -/
abbrev Step (α : Type) := Except Stop α

/-- Reading stops here. -/
def stop {α : Type} (cs : List Char) : Step (α × List Char) := .error (.grammar cs.length)

/-- Whether the character may stand between the parts. -/
def isSpace (c : Char) : Bool := c == ' ' || c == '\t' || c == '\n' || c == '\r'

/-- The text without the blanks in front. -/
def skip (cs : List Char) : List Char := cs.dropWhile isSpace

/-! ## Texts -/

/-- A number of four digits in base sixteen. -/
def takeHex4? : List Char → Option (Nat × List Char)
  | a :: b :: c :: d :: rest => do
    let w ← hexValue? a
    let x ← hexValue? b
    let y ← hexValue? c
    let z ← hexValue? d
    return (((w * 16 + x) * 16 + y) * 16 + z, rest)
  | _ => none

/-- Whether the number is the first half of a pair. -/
def isHighHalf (n : Nat) : Bool := 0xd800 ≤ n && n < 0xdc00

/-- Whether the number is the second half of a pair. -/
def isLowHalf (n : Nat) : Bool := 0xdc00 ≤ n && n < 0xe000

/-- The second half of a pair, if an escape with one comes next and the text goes on behind it. -/
def takeLowHalf? : List Char → Option (Nat × List Char)
  | c :: 'u' :: rest =>
    if c == backslash && !(rest.drop 4).isEmpty then
      (takeHex4? rest).filter fun (n, _) => isLowHalf n
    else none
  | _ => none

/-- The character after the mark `u`, if the text goes on behind it; a half without its partner
becomes the replacement character. -/
def takeEscaped? (cs : List Char) : Option (Char × List Char) :=
  match if (cs.drop 4).isEmpty then none else takeHex4? cs with
  | none => none
  | some (n, rest) =>
    if isHighHalf n then
      match takeLowHalf? rest with
      | some (m, rest) => some (Char.ofNat (0x10000 + (n - 0xd800) * 1024 + (m - 0xdc00)), rest)
      | none => some (Char.ofNat 0xfffd, rest)
    else if isLowHalf n then some (Char.ofNat 0xfffd, rest)
    else some (Char.ofNat n, rest)

/-- The character that an escape of one letter stands for. -/
def simpleEscape? (c : Char) : Option Char :=
  if c == doubleQuote || c == backslash || c == '/' then some c
  else if c == 'b' then some (Char.ofNat 8)
  else if c == 'f' then some (Char.ofNat 12)
  else if c == 'n' then some '\n'
  else if c == 'r' then some '\r'
  else if c == 't' then some '\t'
  else none

/-- One character of a text, or its end. A text that is not closed is at fault where it begins, with
`start` characters to go. -/
def takeTextChar (start : Nat) (cs : List Char) : Step (Option Char × List Char) :=
  match cs with
  | [] => .error (.grammar start)
  | c :: rest =>
    if c == doubleQuote then .ok (none, rest)
    else if c == backslash then
      match rest with
      | [] => .error (.grammar start)
      | e :: tail =>
        if e == 'u' then
          match takeEscaped? tail with
          | some (c, rest) => .ok (some c, rest)
          | none => stop rest
        else match simpleEscape? e with
          | some c => .ok (some c, tail)
          | none => stop cs
    else if c.toNat < 32 then stop cs
    else .ok (some c, rest)

/-- A text behind its opening quote, with a bound on its length. -/
def readTextFrom (start : Nat) : Nat → List Char → Step (List Char × List Char)
  | 0, cs => stop cs
  | fuel + 1, cs => do
    let (c, rest) ← takeTextChar start cs
    match c with
    | none => return ([], rest)
    | some c =>
      let (more, rest) ← readTextFrom start fuel rest
      return (c :: more, rest)

/-- A text behind its opening quote. -/
def readText (cs : List Char) : Step (List Char × List Char) :=
  readTextFrom (cs.length + 1) (cs.length + 1) cs

/-! ## Numbers -/

/-- The digits at the front, if there are any. -/
def takeDigits? (cs : List Char) : Option (List Char × List Char) :=
  let digits := cs.takeWhile isAsciiDigit
  if digits.isEmpty then none else some (digits, cs.dropWhile isAsciiDigit)

/-- The digits before the point: a zero alone, or digits without leading zero. -/
def takeWhole? : List Char → Option (List Char × List Char)
  | '0' :: rest => some (['0'], rest)
  | cs => takeDigits? cs

/-- The digits behind a point, if there is one with digits. -/
def takeFraction (cs : List Char) : Option (List Char) × List Char :=
  match cs with
  | '.' :: rest =>
    match takeDigits? rest with
    | some (digits, rest) => (some digits, rest)
    | none => (none, cs)
  | _ => (none, cs)

/-- The exponent behind its mark, if there is one with digits. -/
def takeExponent (cs : List Char) : Option Int × List Char :=
  match cs with
  | e :: rest =>
    if e == 'e' || e == 'E' then
      let (negative, rest) := match rest with
        | '-' :: rest => (true, rest)
        | '+' :: rest => (false, rest)
        | rest => (false, rest)
      match takeDigits? rest with
      | some (digits, rest) =>
        (some (if negative then -(asciiNumber digits : Int) else asciiNumber digits), rest)
      | none => (none, cs)
    else (none, cs)
  | [] => (none, cs)

/-- A number. -/
def readNumber (cs : List Char) : Step (Value × List Char) :=
  let (negative, body) := match cs with
    | '-' :: rest => (true, rest)
    | rest => (false, rest)
  match takeWhole? body with
  | none => stop cs
  | some (whole, rest) =>
    let (fraction, rest) := takeFraction rest
    let (exponent, rest) := takeExponent rest
    if fraction.isNone && exponent.isNone then
      if maxDigits < whole.length then .error .longInteger
      else
        let n : Int := asciiNumber whole
        .ok (.int (if negative then -n else n), rest)
    else
      let places := fraction.getD []
      let power := exponent.getD 0 - (places.length : Int)
      .ok (.float (.ofDecimal negative (asciiNumber (whole ++ places)) power), rest)

/-- Words that stand for a value. -/
def namedValues : List (String × Value) :=
  [("null", .null), ("true", .bool true), ("false", .bool false), ("NaN", .float .nan),
    ("Infinity", .float (.infinite false)), ("-Infinity", .float (.infinite true))]

/-- A word or a number. -/
def readSimple (cs : List Char) : Step (Value × List Char) :=
  match namedValues.find? fun (name, _) => name.toList.isPrefixOf cs with
  | some (name, v) => .ok (v, cs.drop name.length)
  | none => readNumber cs

/-! ## Values -/

mutual
/-- A value. -/
def readValue : Nat → List Char → Step (Value × List Char)
  | 0, cs => stop cs
  | fuel + 1, cs =>
    match cs with
    | [] => stop cs
    | c :: rest =>
      if c == doubleQuote then do
        let (s, rest) ← readText rest
        return (.text (String.ofList s), rest)
      else if c == '[' then
        match skip rest with
        | ']' :: rest => .ok (.list [], rest)
        | rest => do
          let (vs, rest) ← readItems fuel rest
          return (.list vs, rest)
      else if c.toNat == 0x7b then
        let rest := skip rest
        if rest.head?.map Char.toNat == some 0x7d then .ok (.dict [], rest.drop 1)
        else do
          let (entries, rest) ← readEntries fuel [] rest
          return (.dict entries, rest)
      else readSimple cs

/-- The items of a list up to its closing bracket. -/
def readItems : Nat → List Char → Step (List Value × List Char)
  | 0, cs => stop cs
  | fuel + 1, cs => do
    let (v, rest) ← readValue fuel cs
    match skip rest with
    | ',' :: rest =>
      let (vs, rest) ← readItems fuel (skip rest)
      return (v :: vs, rest)
    | ']' :: rest => return ([v], rest)
    | rest => stop rest

/-- The entries of an object up to its closing brace, behind those already read. -/
def readEntries : Nat → List (String × Value) → List Char → Step (List (String × Value) × List Char)
  | 0, _, cs => stop cs
  | fuel + 1, entries, cs => do
    match cs with
    | c :: rest =>
      if c != doubleQuote then stop cs
      else
        let (key, rest) ← readText rest
        match skip rest with
        | ':' :: rest =>
          let (v, rest) ← readValue fuel (skip rest)
          let entries := Table.insert (String.ofList key) v entries
          match skip rest with
          | ',' :: rest => readEntries fuel entries (skip rest)
          | c :: rest =>
            if c.toNat == 0x7d then return (entries, rest) else stop (c :: rest)
          | [] => stop []
        | rest => stop rest
    | [] => stop cs
end

/-- Line, column and offset of the place with `left` characters to go. -/
def faultAt (cs : List Char) (left : Nat) : JsonFault :=
  let before := cs.take (cs.length - left)
  { line := (before.filter (· == '\n')).length + 1
    column := (before.reverse.takeWhile (· != '\n')).length + 1
    offset := before.length }

/-- The value that a whole text writes. Every step takes a character, so the length of the text
bounds their number. -/
def readChars (cs : List Char) : Except Stop Value :=
  match readValue (2 * cs.length + 2) (skip cs) with
  | .ok (v, rest) => if (skip rest).isEmpty then .ok v else .error (.grammar (skip rest).length)
  | .error s => .error s

/-- The value that a JSON text writes. -/
def read (text : String) : Outcome Value :=
  match readChars text.toList with
  | .ok v => .ok v
  | .error (.grammar left) => .error (.json (faultAt text.toList left))
  | .error .longInteger => .error (.data .badValue)

end Proposals.Json
