import Proposals.Fault

/-!
# `Proposals.Abi.Type` — types of call arguments

A type is a base name with an optional size, a tuple of types, or an array of a type. Every base
name can be written; the known ones restrict their sizes.

## Contents
- `AbiType`: the type, with its written form `chars`.
- `isValid`: the sizes that the known base names allow.
- `parse?`: the reader of the written form.
- `AbiType.read`: reading and checking.
- `typeOf`: the type that a value names.
-/

namespace Proposals.Abi

open Proposals.Text Proposals.Number

/-- The size behind a base name: one number, or two with an `x` between them. -/
inductive TypeSize where
  | plain (n : Nat)
  | pair (m n : Nat)
deriving DecidableEq, Repr

/-- The type of an argument. An array without length is dynamic. -/
inductive AbiType where
  | basic (base : String) (size : Option TypeSize)
  | tuple (components : List AbiType)
  | array (item : AbiType) (length : Option Nat)
deriving Repr, Inhabited

namespace AbiType

/-! ## Written form -/

/-- The written form of a size. -/
def sizeChars : Option TypeSize → List Char
  | none => []
  | some (.plain n) => natText n
  | some (.pair m n) => natText m ++ 'x' :: natText n

/-- The brackets of an array. -/
def lengthChars : Option Nat → List Char
  | none => ['[', ']']
  | some n => '[' :: natText n ++ [']']

/-- Pieces with a comma between them. -/
def joined : List (List Char) → List Char
  | [] => []
  | [piece] => piece
  | piece :: rest => piece ++ ',' :: joined rest

mutual
/-- The written form of a type. -/
def chars : AbiType → List Char
  | .basic base size => base.toList ++ sizeChars size
  | .tuple components => '(' :: joined (charsList components) ++ [')']
  | .array item length => chars item ++ lengthChars length

/-- The written forms of several types. -/
def charsList : List AbiType → List (List Char)
  | [] => []
  | t :: rest => chars t :: charsList rest
end

/-- The written form of a type, as a text. -/
def text (t : AbiType) : String := String.ofList (chars t)

/-! ## Validity -/

/-- Whether an integer may have this many bits. -/
def isBitSize (n : Nat) : Bool := 8 ≤ n && n ≤ 256 && n % 8 == 0

/-- Whether the base name allows the size. Unknown names allow any. -/
def isValidBasic (base : String) (size : Option TypeSize) : Bool :=
  if base == "string" || base == "address" then size.isNone
  else if base == "bytes" then
    match size with
    | none => true
    | some (.plain n) => n ≤ 32
    | some (.pair _ _) => false
  else if base == "int" || base == "uint" then
    match size with
    | some (.plain n) => isBitSize n
    | _ => false
  else if base == "fixed" || base == "ufixed" then
    match size with
    | some (.pair m n) => isBitSize m && 1 ≤ n && n ≤ 80
    | _ => false
  else if base == "hash" then
    match size with
    | some (.plain _) => true
    | _ => false
  else true

mutual
/-- Whether every base name in the type allows its size. -/
def isValid : AbiType → Bool
  | .basic base size => isValidBasic base size
  | .tuple components => areValid components
  | .array item _ => isValid item

/-- Whether all types of a list are valid. -/
def areValid : List AbiType → Bool
  | [] => true
  | t :: rest => isValid t && areValid rest
end

/-! ## Reader -/

/-- A number without leading zero from the front of the text. -/
def takeNumber? (cs : List Char) : Option (Nat × List Char) :=
  let digits := cs.takeWhile isAsciiDigit
  match digits with
  | [] => none
  | first :: _ =>
    if first == '0' then none
    else some (asciiNumber digits, cs.dropWhile isAsciiDigit)

/-- A size from the front of the text; there may be none. -/
def takeSize (cs : List Char) : Option TypeSize × List Char :=
  match takeNumber? cs with
  | none => (none, cs)
  | some (m, rest) =>
    match rest with
    | 'x' :: tail =>
      match takeNumber? tail with
      | some (n, rest) => (some (.pair m n), rest)
      | none => (some (.plain m), rest)
    | _ => (some (.plain m), rest)

/-- The brackets of one array from the front of the text. -/
def takeLength? : List Char → Option (Option Nat × List Char)
  | '[' :: ']' :: rest => some (none, rest)
  | '[' :: rest =>
    match takeNumber? rest with
    | some (n, ']' :: rest) => some (some n, rest)
    | _ => none
  | _ => none

/-- The arrays that the brackets behind a type make of it. -/
def takeArrays : Nat → AbiType → List Char → AbiType × List Char
  | 0, t, cs => (t, cs)
  | fuel + 1, t, cs =>
    match takeLength? cs with
    | some (length, rest) => takeArrays fuel (.array t length) rest
    | none => (t, cs)

mutual
/-- A type from the front of the text, and the rest. -/
def takeType? : Nat → List Char → Option (AbiType × List Char)
  | 0, _ => none
  | fuel + 1, '(' :: cs => do
    let (first, cs) ← takeType? fuel cs
    let (more, cs) ← takeMore? fuel cs
    return takeArrays cs.length (.tuple (first :: more)) cs
  | _ + 1, cs =>
    let base := cs.takeWhile Char.isAlpha
    if base.isEmpty then none
    else
      let (size, cs) := takeSize (cs.dropWhile Char.isAlpha)
      some (takeArrays cs.length (.basic (String.ofList base) size) cs)

/-- The other components of a tuple, up to its closing parenthesis, and the rest. -/
def takeMore? : Nat → List Char → Option (List AbiType × List Char)
  | 0, _ => none
  | _ + 1, ')' :: cs => some ([], cs)
  | fuel + 1, ',' :: cs => do
    let (t, cs) ← takeType? fuel cs
    let (more, cs) ← takeMore? fuel cs
    return (t :: more, cs)
  | _ + 1, _ => none
end

/-- The type that a whole text writes. Every step takes a character, so the length of the text
bounds their number. -/
def parse? (cs : List Char) : Option AbiType :=
  match takeType? (cs.length + 1) cs with
  | some (t, []) => some t
  | _ => none

/-- Why a text is no type. An empty pair of parentheses is a fault of its own. -/
inductive ReadFault where
  | emptyParentheses
  | notType
deriving DecidableEq, Repr

/-- Whether an opening parenthesis is closed at once. -/
def hasEmptyParentheses : List Char → Bool
  | '(' :: ')' :: _ => true
  | _ :: rest => hasEmptyParentheses rest
  | [] => false

/-- The valid type that a text writes. -/
def read (cs : List Char) : Except ReadFault AbiType :=
  match parse? cs with
  | some t => if t.isValid then .ok t else .error .notType
  | none => .error (if hasEmptyParentheses cs then .emptyParentheses else .notType)

end AbiType

/-- The type that a value names. -/
def typeOf : Value → Outcome AbiType
  | .text s =>
    match AbiType.read s.toList with
    | .ok t => .ok t
    | .error .notType => .error (.abi (.badType s))
    | .error .emptyParentheses => .error (.data .badValue)
  | _ => .error (.data .wrongKind)

end Proposals.Abi
