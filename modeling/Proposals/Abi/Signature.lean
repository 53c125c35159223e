import Proposals.Abi.Type
import Proposals.Text.Identifier

/-!
# `Proposals.Abi.Signature` — function signatures

A signature is a function name and a list of parameters in parentheses. Parameters may carry names,
data locations and short forms of types; the canonical form has neither names nor blanks and only
full types.

## Contents
- `splitParameters`, `matchingParenthesis?`: commas and parentheses.
- `expandAliases`: short forms of types.
- `canonicalType`: one parameter.
- `parseSignature`, `normalizeSignature`, `signaturesMatch`.
-/

namespace Proposals.Abi

open Proposals.Text

/-- A function name with the canonical forms of its parameter types. -/
structure Signature where
  name : String
  types : List String
deriving DecidableEq, Repr

/-- The canonical form of a signature. -/
def Signature.text (s : Signature) : String := s.name ++ typeList s.types

/-! ## Parentheses and commas -/

/-- The pieces of the text from depth `depth` on, cut at the commas outside parentheses; none if a
parenthesis has no partner. The first piece is the one under way. -/
def splitPieces? : Nat → List Char → Option (List Char × List (List Char))
  | depth, [] => if depth = 0 then some ([], []) else none
  | depth, c :: cs =>
    if c = '(' then (splitPieces? (depth + 1) cs).map fun (p, ps) => (c :: p, ps)
    else if c = ')' then
      match depth with
      | 0 => none
      | depth + 1 => (splitPieces? depth cs).map fun (p, ps) => (c :: p, ps)
    else if c = ',' ∧ depth = 0 then (splitPieces? 0 cs).map fun (p, ps) => ([], p :: ps)
    else (splitPieces? depth cs).map fun (p, ps) => (c :: p, ps)

/-- The parameters of a list; a blank list has none. -/
def splitParameters (body : List Char) : Outcome (List (List Char)) :=
  if body.all isBlank then .ok []
  else match splitPieces? 0 body with
    | some (p, ps) => .ok (p :: ps)
    | none => .error (.abi .unbalanced)

/-- Where the parenthesis closes that brings the depth back to zero. -/
def closingFrom? : Nat → List Char → Option Nat
  | _, [] => none
  | depth, c :: cs =>
    if c = '(' then (closingFrom? (depth + 1) cs).map (· + 1)
    else if c = ')' then
      if depth ≤ 1 then some 0 else (closingFrom? (depth - 1) cs).map (· + 1)
    else (closingFrom? depth cs).map (· + 1)

/-- Where the parenthesis closes that the text opens with. -/
def matchingParenthesis? (cs : List Char) : Option Nat := closingFrom? 0 cs

/-! ## Types of parameters -/

/-- Short forms of types and what they stand for. -/
def aliases : List (String × String) :=
  [("int", "int256"), ("uint", "uint256"), ("fixed", "fixed128x18"), ("ufixed", "ufixed128x18"),
    ("function", "bytes24"), ("byte", "bytes1")]

/-- Whether a character belongs to a word of a type. -/
def isWordChar (c : Char) : Bool := c.isAlphanum || c == '_'

/-- A word, or what it is short for. -/
def expandWord (word : List Char) : List Char :=
  match aliases.find? (·.1 == String.ofList word) with
  | some (_, full) => full.toList
  | none => word

/-- Replaces the short forms in a text behind the word under way. A short form is a whole word. -/
def expandFrom (word : List Char) : List Char → List Char
  | [] => expandWord word
  | c :: cs =>
    if isWordChar c then expandFrom (word ++ [c]) cs
    else expandWord word ++ c :: expandFrom [] cs

/-- Replaces every short form of a type in the text. -/
def expandAliases (cs : List Char) : List Char := expandFrom [] cs

/-- Words of a parameter that say nothing about its type. -/
def ignoredWords : List String := ["memory", "calldata", "storage", "indexed", "payable"]

/-- The first word of a text, empty if the text opens with a blank. -/
def leadingWord (cs : List Char) : List Char := cs.takeWhile (!isBlank ·)

/-- The canonical form of a candidate for a type of the given parameter. -/
def canonicalOf (parameter candidate : List Char) : Outcome (List Char) :=
  match AbiType.read candidate with
  | .ok t => .ok t.chars
  | .error .notType => .error (.abi (.badParameter (String.ofList parameter)))
  | .error .emptyParentheses => .error (.data .badValue)

/-- The text without the word `tuple` in front of an opening parenthesis. -/
def dropTupleWord : List Char → List Char
  | 't' :: 'u' :: 'p' :: 'l' :: 'e' :: '(' :: rest => '(' :: rest
  | cs => cs

/-- The canonical type of a parameter. A tuple is rebuilt from its components, which are shorter, so
the length of the text bounds the depth. -/
def canonicalTypeWithin : Nat → List Char → Outcome (List Char)
  | 0, _ => .error (.abi .emptyParameter)
  | fuel + 1, parameter => do
    let cs := strip parameter
    if cs.isEmpty then throw (.abi .emptyParameter)
    let cs := dropTupleWord cs
    match cs with
    | '(' :: _ =>
      match matchingParenthesis? cs with
      | none => throw (.abi .unbalanced)
      | some close =>
        let components ← splitParameters ((cs.take close).drop 1)
        let inner ← components.mapM (canonicalTypeWithin fuel)
        let suffix := leadingWord (cs.drop (close + 1))
        canonicalOf parameter ('(' :: AbiType.joined inner ++ ')' :: suffix)
    | _ =>
      match (words cs).filter fun w => !ignoredWords.contains (String.ofList w) with
      | [] => throw (.abi (.missingType (String.ofList parameter)))
      | w :: _ => canonicalOf parameter (expandAliases w)

/-- The canonical type of a parameter. -/
def canonicalType (parameter : List Char) : Outcome (List Char) :=
  canonicalTypeWithin (parameter.length + 1) parameter

/-! ## Signatures -/

/-- The name without the keyword in front of it. -/
def dropKeyword (name : List Char) : List Char :=
  if "function ".toList.isPrefixOf name then strip (name.drop "function ".length) else name

/-- Name and parameters of a signature, in canonical form. -/
def parseSignature (signature : String) : Outcome Signature := do
  let cs := strip signature.toList
  let front := cs.takeWhile (· ≠ '(')
  let rest := cs.drop front.length
  if front.isEmpty || rest.isEmpty || rest.getLast? ≠ some ')' then
    throw (.abi (.badSignature signature))
  let name := dropKeyword (strip front)
  if !isIdentifier name then throw (.abi (.badName signature))
  let parameters ← splitParameters ((rest.drop 1).dropLast)
  let types ← parameters.mapM canonicalType
  return ⟨String.ofList name, types.map String.ofList⟩

/-- The same for a value, which must be a text. -/
def signatureOf : Value → Outcome Signature
  | .text s => parseSignature s
  | _ => .error (.abi .signatureNotText)

/-- The canonical form of a signature. -/
def normalizeSignature (v : Value) : Outcome String := (signatureOf v).map (·.text)

/-- Whether two signatures have the same canonical form; what is no signature matches nothing. -/
def signaturesMatch (left right : Value) : Outcome Bool :=
  match normalizeSignature left with
  | .error (.abi _) => .ok false
  | .error fault => .error fault
  | .ok l =>
    match normalizeSignature right with
    | .error (.abi _) => .ok false
    | .error fault => .error fault
    | .ok r => .ok (l == r)

end Proposals.Abi
