import Proposals.Abi.Type

/-!
# `Proposals.Abi.Coder` — types that values can be encoded by

Only some base names say how a value is laid out. A `Coder` is a type all of whose parts do.

## Contents
- `Coder`: the type.
- `ofType?`: the coder of a type.
- `decodingFault?`: the first part of a type that data cannot be decoded by.
- `isDynamic`: whether the size of an encoding depends on the value.
-/

namespace Proposals.Abi

/-- A type with a layout. Fixed point numbers have a number of bits and of decimal places. -/
inductive Coder where
  | uint (bits : Nat)
  | int (bits : Nat)
  | address
  | bool
  | fixed (signed : Bool) (bits places : Nat)
  | fixedBytes (size : Nat)
  | bytes
  | string
  | array (item : Coder) (length : Option Nat)
  | tuple (components : List Coder)
deriving Repr, Inhabited

namespace Coder

/-- The coder of a base name with its size. A function value is twenty-four bytes. -/
def ofBasic? (base : String) (size : Option TypeSize) : Option Coder :=
  if base == "bool" then some .bool
  else match size with
    | none =>
      if base == "address" then some .address
      else if base == "bytes" then some .bytes
      else if base == "string" then some .string
      else if base == "function" then some (.fixedBytes 24)
      else none
    | some (.plain n) =>
      if base == "uint" then some (.uint n)
      else if base == "int" then some (.int n)
      else if base == "bytes" then some (.fixedBytes n)
      else none
    | some (.pair m n) =>
      if base == "fixed" then some (.fixed true m n)
      else if base == "ufixed" then some (.fixed false m n)
      else none

mutual
/-- The coder of a type, if all its parts have one. -/
def ofType? : AbiType → Option Coder
  | .basic base size => ofBasic? base size
  | .tuple components => (ofTypes? components).map .tuple
  | .array item length => (ofType? item).map (.array · length)

/-- The coders of several types. -/
def ofTypes? : List AbiType → Option (List Coder)
  | [] => some []
  | t :: rest => do
    let c ← ofType? t
    let cs ← ofTypes? rest
    return c :: cs
end

mutual
/-- Why data cannot be decoded by a type: its first part without a coder. A function value with a
size is not a value at all. -/
def decodingFault? : AbiType → Option DataFault
  | .basic base size =>
    if (ofBasic? base size).isSome then none
    else if base == "function" then some .badValue
    else some .noCoder
  | .tuple components => decodingFaults? components
  | .array item _ => decodingFault? item

/-- The same for several types. -/
def decodingFaults? : List AbiType → Option DataFault
  | [] => none
  | t :: rest =>
    match decodingFault? t with
    | some fault => some fault
    | none => decodingFaults? rest
end

mutual
/-- Whether the size of an encoding depends on the value. -/
def isDynamic : Coder → Bool
  | .bytes => true
  | .string => true
  | .array _ none => true
  | .array item (some _) => isDynamic item
  | .tuple components => anyDynamic components
  | _ => false

/-- Whether one of several coders is dynamic. -/
def anyDynamic : List Coder → Bool
  | [] => false
  | c :: rest => isDynamic c || anyDynamic rest
end

/-- How many places a component takes in the count that offsets are checked against: a static array
of fixed length counts its items, all else is one. -/
def places (c : Coder) : Nat :=
  match c with
  | .array item (some n) => if item.isDynamic then 1 else n
  | _ => 1

/-- The count for a list of components. -/
def countPlaces : List Coder → Nat
  | [] => 0
  | c :: rest => places c + countPlaces rest

end Coder

end Proposals.Abi
