import Proposals.Fault

/-!
# `Proposals.Validation` — checked fields of settings and requests

A field may be given as a text even where an integer is meant, and an integer as a number without
fraction. What does not fit is a problem at a place.

## Contents
- `ProblemKind`, `Problem`: what is wrong, and where.
- `integerOfText`: integers in texts.
- `integerOf`: integers in values.
-/

namespace Proposals

open Proposals.Text Proposals.Number

/-- What is wrong with a field. -/
inductive ProblemKind where
  | missing
  | badJson
  | notModel
  | notList
  | notObject
  | notText
  | notInteger
  | unreadableInteger
  | longInteger
  | fraction
  | notFinite
deriving DecidableEq, Repr

/-- The name of the kind in answers. -/
def ProblemKind.code : ProblemKind → String
  | .missing => "missing"
  | .badJson => "json_invalid"
  | .notModel => "model_attributes_type"
  | .notList => "list_type"
  | .notObject => "dict_type"
  | .notText => "string_type"
  | .notInteger => "int_type"
  | .unreadableInteger => "int_parsing"
  | .longInteger => "int_parsing_size"
  | .fraction => "int_from_float"
  | .notFinite => "finite_number"

/-- A problem and the names that lead to its place. -/
structure Problem where
  kind : ProblemKind
  place : List String
deriving DecidableEq, Repr

namespace Validation

/-! ## Integers in texts -/

/-- Whether the character is a digit other than zero. -/
def isLeadingDigit (c : Char) : Bool := '1' ≤ c && c ≤ '9'

/-- Whether the text is a natural number without leading zeros. -/
def isPlainNatural : List Char → Bool
  | ['0'] => true
  | c :: rest => isLeadingDigit c && rest.all isAsciiDigit
  | [] => false

/-- Whether more digits than are read stand in front of the text, whatever follows them. -/
def isTooLong (cs : List Char) : Bool :=
  (cs.head?.map isLeadingDigit).getD false && maxDigits < (cs.takeWhile isAsciiDigit).length

/-- The integer that a text writes without blanks, leading zeros and plus sign. -/
def plainInteger (cs : List Char) : Except ProblemKind Int :=
  let (negative, digits) := match cs with
    | '-' :: rest => (true, rest)
    | rest => (false, rest)
  if isTooLong digits then .error .longInteger
  else if !isPlainNatural digits then .error .unreadableInteger
  else .ok (if negative then -(asciiNumber digits : Int) else asciiNumber digits)

/-- The text without a plus sign in front; a minus sign may not follow it. -/
def dropPlus : List Char → List Char
  | '+' :: '-' :: rest => '+' :: '-' :: rest
  | '+' :: rest => rest
  | cs => cs

/-- The rest of a number behind zeros and underscores. A minus sign may stand there, and a zero is
kept in front of a point and at the end. -/
def dropMoreZeros (last : Char) : List Char → Option (List Char)
  | [] => some [last]
  | c :: rest =>
    if c == '0' || c == '_' then dropMoreZeros c rest
    else if isLeadingDigit c || c == '-' then some (c :: rest)
    else if c == '.' then some (last :: c :: rest)
    else none

/-- The number without leading zeros; it begins with a digit. -/
def dropZeros : List Char → Option (List Char)
  | [] => none
  | c :: rest =>
    if c == '0' then dropMoreZeros c rest
    else if isLeadingDigit c then some (c :: rest)
    else none

/-- The number without the zeros that lead it or follow its minus sign. -/
def dropSignedZeros : List Char → Option (List Char)
  | '-' :: rest => (dropZeros rest).map ('-' :: ·)
  | cs => dropZeros cs

/-- The number without a fraction of zeros; behind the point there is at least one. -/
def dropFraction (cs : List Char) : List Char :=
  let fraction := (cs.dropWhile (· != '.')).drop 1
  if !fraction.isEmpty && fraction.all (· == '0') then cs.takeWhile (· != '.') else cs

/-- Whether two underscores stand side by side. -/
def hasDoubleUnderscore : List Char → Bool
  | a :: b :: rest => (a == '_' && b == '_') || hasDoubleUnderscore (b :: rest)
  | _ => false

/-- The number without underscores, each of which stands between two other characters. -/
def dropUnderscores (cs : List Char) : List Char :=
  if cs.head? == some '_' || cs.getLast? == some '_' || hasDoubleUnderscore cs then cs
  else cs.filter (· != '_')

/-- The integer that a text writes: blanks around it, a plus sign, leading zeros, single
underscores and a fraction of zeros do not count. -/
def integerOfText (cs : List Char) : Except ProblemKind Int :=
  match plainInteger cs with
  | .ok n => .ok n
  | .error .longInteger => .error .longInteger
  | .error _ =>
    match dropSignedZeros (dropPlus (trimInteger cs)) with
    | none => .error .unreadableInteger
    | some cs =>
      match plainInteger (dropUnderscores (dropFraction cs)) with
      | .ok n => .ok n
      | .error _ => .error .unreadableInteger

/-! ## Integers in values -/

/-- Numbers with a point are integers only below this bound. -/
def maxInteger64 : Nat := twoTo 63

/-- The integer that a value stands for. -/
def integerOf : Value → Except ProblemKind Int
  | .bool b => .ok (if b then 1 else 0)
  | .int n => .ok n
  | .text s => integerOfText s.toList
  | .float (.finite negative m e) =>
    let n := Binary.truncate negative m e
    if !(Value.float (.finite negative m e)).same (.int n) then .error .fraction
    else if maxInteger64 ≤ n.natAbs then .error .longInteger
    else .ok n
  | .float _ => .error .notFinite
  | _ => .error .notInteger

end Validation

end Proposals
