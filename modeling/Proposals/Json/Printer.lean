import Proposals.Fault

/-!
# `Proposals.Json.Printer` — values as JSON texts

Documents are printed with one item or entry on a line, indented by two blanks a level, in ASCII.
Exact decimals, bytes and currencies have no JSON form.

## Contents
- `quotedText`: a text with escapes.
- `document`: a value over several lines.
-/

namespace Proposals.Json

open Proposals.Text Proposals.Number

/-- An escape by number, in two halves for a character past the sixteen bit range. -/
def numberEscape (n : Nat) : List Char :=
  if n < 0x10000 then backslash :: 'u' :: hexPadded 4 n
  else
    let m := n - 0x10000
    backslash :: 'u' :: hexPadded 4 (0xd800 + m / 1024) ++
      backslash :: 'u' :: hexPadded 4 (0xdc00 + m % 1024)

/-- One character inside quotes. -/
def escapedChar (c : Char) : List Char :=
  if c == doubleQuote || c == backslash then [backslash, c]
  else if c == '\n' then [backslash, 'n']
  else if c == '\r' then [backslash, 'r']
  else if c == '\t' then [backslash, 't']
  else if c.toNat == 8 then [backslash, 'b']
  else if c.toNat == 12 then [backslash, 'f']
  else if 32 ≤ c.toNat && c.toNat < 127 then [c]
  else numberEscape c.toNat

/-- A text in quotes. -/
def quotedText (s : String) : List Char :=
  doubleQuote :: s.toList.flatMap escapedChar ++ [doubleQuote]

/-- A floating point number; those that JSON lacks are written as words. -/
def floatChars : Binary → List Char
  | .infinite negative => Decimal.signText negative ++ "Infinity".toList
  | .nan => "NaN".toList
  | x => x.text

/-- A line break and the blanks of a level. -/
def newLine (level : Nat) : List Char := '\n' :: List.replicate (2 * level) ' '

/-- Pieces with a comma and a line break between them. -/
def lines (level : Nat) : List (List Char) → List Char
  | [] => []
  | [piece] => piece
  | piece :: rest => piece ++ ',' :: newLine level ++ lines level rest

/-- Pieces on lines of their own between two brackets. -/
def block (level : Nat) (opening closing : Char) (pieces : List (List Char)) : List Char :=
  if pieces.isEmpty then [opening, closing]
  else opening :: newLine (level + 1) ++ lines (level + 1) pieces ++ newLine level ++ [closing]

mutual
/-- A value at a level of indentation. -/
def printAt (level : Nat) : Value → Outcome (List Char)
  | .null => .ok "null".toList
  | .bool b => .ok (if b then "true" else "false").toList
  | .int n => .ok (intText n)
  | .float x => .ok (floatChars x)
  | .text s => .ok (quotedText s)
  | .list items => (printItems (level + 1) items).map (block level '[' ']')
  | .dict entries =>
    (printEntries (level + 1) entries).map (block level (Char.ofNat 0x7b) (Char.ofNat 0x7d))
  | _ => .error (.data .wrongKind)

/-- The items of a list. -/
def printItems (level : Nat) : List Value → Outcome (List (List Char))
  | [] => .ok []
  | v :: rest => do
    let piece ← printAt level v
    let pieces ← printItems level rest
    return piece :: pieces

/-- The entries of an object. -/
def printEntries (level : Nat) : List (String × Value) → Outcome (List (List Char))
  | [] => .ok []
  | (key, v) :: rest => do
    let piece ← printAt level v
    let pieces ← printEntries level rest
    return (quotedText key ++ ':' :: ' ' :: piece) :: pieces
end

/-- The document that shows a value. -/
def document (v : Value) : Outcome String := (printAt 0 v).map String.ofList

end Proposals.Json
