import Proposals.Kind
import Proposals.Number.Binary
import Proposals.Table
import Proposals.Text.Quoted

/-!
# `Proposals.Value` — data before it is checked

Documents, call arguments and the fields of records hold values of any kind; each operation checks
what it needs. A `Value` is such a datum.

## Contents
- `Value`: the type.
- `inspect`: how a value is quoted in a message.
- `display`: the same, but a text stands for itself.
- `toDecimal?`, `same`: the number in a value, and equality as numbers, texts, lists and objects.
- `find?`: the entry of an object.
-/

namespace Proposals

open Proposals.Text Proposals.Number

/-- A datum of any kind. `foreign` is an object that has none of the expected parts. -/
inductive Value where
  | null
  | bool (b : Bool)
  | int (n : Int)
  | float (x : Binary)
  | decimal (d : Decimal)
  | text (s : String)
  | bytes (bs : List UInt8)
  | currency (c : Currency)
  | list (items : List Value)
  | dict (entries : List (String × Value))
  | foreign
deriving Repr, Inhabited

namespace Value

/-! ## Written forms -/

/-- One byte inside quotes. -/
def escapeByte (mark : Char) (b : UInt8) : List Char :=
  let c := Char.ofNat b.toNat
  if c == mark || c == backslash then [backslash, c]
  else if c == '\n' then [backslash, 'n']
  else if c == '\r' then [backslash, 'r']
  else if c == '\t' then [backslash, 't']
  else if 32 ≤ b.toNat && b.toNat < 127 then [c]
  else backslash :: 'x' :: hexPadded 2 b.toNat

/-- Bytes in quotes behind the mark `b`. -/
def quotedBytes (bs : List UInt8) : List Char :=
  let single := bs.any (·.toNat == singleQuote.toNat)
  let double := bs.any (·.toNat == doubleQuote.toNat)
  let mark := if single && !double then doubleQuote else singleQuote
  'b' :: mark :: bs.flatMap (escapeByte mark) ++ [mark]

/-- A member of a closed list: its name and its tag in angle brackets. -/
def inspectMember (list tag : String) : List Char :=
  '<' :: list.toList ++ '.' :: (constantCase tag).toList ++ ": ".toList ++ quoted tag.toList ++
    ['>']

/-- Pieces with a comma and a blank between them. -/
def commaSeparated : List (List Char) → List Char
  | [] => []
  | [piece] => piece
  | piece :: rest => piece ++ ',' :: ' ' :: commaSeparated rest

mutual
/-- How a value is quoted in a message. -/
def inspectChars : Value → List Char
  | .null => "None".toList
  | .bool b => (if b then "True" else "False").toList
  | .int n => intText n
  | .float x => x.text
  | .decimal d => "Decimal(".toList ++ quoted d.text ++ [')']
  | .text s => quoted s.toList
  | .bytes bs => quotedBytes bs
  | .currency c => inspectMember "Currency" c.symbol
  | .list items => '[' :: commaSeparated (inspectItems items) ++ [']']
  | .dict entries => Char.ofNat 0x7b :: commaSeparated (inspectEntries entries) ++ [Char.ofNat 0x7d]
  | .foreign => "<object>".toList

/-- The quoted items of a list. -/
def inspectItems : List Value → List (List Char)
  | [] => []
  | v :: rest => inspectChars v :: inspectItems rest

/-- The quoted entries of an object. -/
def inspectEntries : List (String × Value) → List (List Char)
  | [] => []
  | (key, v) :: rest => (quoted key.toList ++ ": ".toList ++ inspectChars v) :: inspectEntries rest
end

/-- How a value is quoted in a message. -/
def inspect (v : Value) : String := String.ofList (inspectChars v)

/-- How a value reads inside a sentence: a text as it stands, a decimal without its wrapping, all
else as quoted. -/
def display : Value → String
  | .text s => s
  | .decimal d => String.ofList d.text
  | .currency c => "Currency." ++ constantCase c.symbol
  | v => v.inspect

/-! ## Equality -/

/-- The number in a value; the truth values count as one and zero. -/
def toDecimal? : Value → Option Decimal
  | .bool b => some (.ofInt (if b then 1 else 0))
  | .int n => some (.ofInt n)
  | .float x => some x.toDecimal
  | .decimal d => some d
  | _ => none

/-- Whether two values are the same number. -/
def sameNumber (v w : Value) : Bool :=
  match v.toDecimal?, w.toDecimal? with
  | some x, some y => x.compare? y == some .eq
  | _, _ => false

mutual
/-- Equality of values: numbers of any kind by value, all else within its kind. An invalid number
and a foreign object differ from everything. -/
def same : Value → Value → Bool
  | .null, .null => true
  | .int m, .int n => m == n
  | .text s, .text t => s == t
  | .bytes bs, .bytes cs => bs == cs
  | .currency c, .currency d => c == d
  | .list vs, .list ws => sameItems vs ws
  | .dict es, .dict fs => es.length == fs.length && sameEntries es fs
  | v, w => sameNumber v w

/-- Equality of lists, item by item. -/
def sameItems : List Value → List Value → Bool
  | [], [] => true
  | v :: vs, w :: ws => same v w && sameItems vs ws
  | _, _ => false

/-- Whether each entry of an object has an equal one in the other. -/
def sameEntries : List (String × Value) → List (String × Value) → Bool
  | [], _ => true
  | (key, v) :: es, fs =>
    (match Table.find? key fs with
      | some w => same v w
      | none => false) && sameEntries es fs
end

/-- Whether the value is the number zero. -/
def isZero (v : Value) : Bool := v.same (.int 0)

/-- Whether the value is the given text. -/
def isText (v : Value) (s : String) : Bool :=
  match v with
  | .text t => t == s
  | _ => false

/-- The text in a value. -/
def text? : Value → Option String
  | .text s => some s
  | _ => none

/-- Whether the value can be looked up in a table; lists and objects cannot. -/
def isKey : Value → Bool
  | .list _ => false
  | .dict _ => false
  | _ => true

/-- The value under a key of an object; none for other kinds of values. -/
def find? (key : String) : Value → Option Value
  | .dict entries => Table.find? key entries
  | _ => none

/-- The currency that a value names: a currency itself, or its symbol in any case with blanks
around it. -/
def currency? : Value → Option Currency
  | .currency c => some c
  | .text s => Currency.ofSymbol? (String.ofList (lowerAscii (strip s.toList)))
  | _ => none

end Value

end Proposals
