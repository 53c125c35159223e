import Proposals.Abi.Arguments

/-!
# `Proposals.Abi.Document` — arguments in documents

In a document byte strings are written in base sixteen and integers may be written as texts.

## Contents
- `toDocument`, `fromDocument`: one argument, out and in.
-/

namespace Proposals.Abi

open Proposals.Text

/-- Bytes in base sixteen; a text counts as its ASCII bytes. -/
def hexOfValue : Value → Outcome Value
  | .bytes bs => .ok (.text (String.ofList (bytesToHex bs)))
  | .text s =>
    if s.toList.all (·.toNat < 128) then .ok (.text (String.ofList (bytesToHex (utf8Bytes s))))
    else .error (.data .notAscii)
  | _ => .error (.data .wrongKind)

mutual
/-- The form of an argument in a document. -/
def writeAs : AbiType → Value → Outcome Value
  | .array item _, v => do
    let vs ← v.items
    return .list (← vs.mapM (writeAs item))
  | .tuple components, v => do
    let vs ← v.items
    return .list (← writeAllAs components vs)
  | .basic base _, v => if base == "bytes" then hexOfValue v else .ok v

/-- The components of a tuple, as far as there are both a type and a value. -/
def writeAllAs : List AbiType → List Value → Outcome (List Value)
  | t :: ts, v :: vs => do
    let w ← writeAs t v
    let ws ← writeAllAs ts vs
    return w :: ws
  | _, _ => .ok []
end

/-- The form of an argument in a document. -/
def toDocument (type value : Value) : Outcome Value := do
  writeAs (← typeOf type) value

/-- The value that a document has at a place for one basic type. -/
def readBasic (base : String) (v : Value) : Outcome Value :=
  if base == "address" then
    match v.toAddress? with
    | some a => .ok (.text a)
    | none => .error (.data .badValue)
  else if base == "bytes" then
    match v with
    | .text s =>
      match hexToBytes? s.toList with
      | some bs => .ok (.bytes bs)
      | none => .error (.data .badValue)
    | _ => .error (.data .wrongKind)
  else if base == "uint" || base == "int" then v.toInteger.map .int
  else .ok v

mutual
/-- The argument that a document writes. -/
def readAs : AbiType → Value → Outcome Value
  | .array item _, v => do
    let vs ← v.items
    return .list (← vs.mapM (readAs item))
  | .tuple components, v => do
    let vs ← v.items
    return .list (← readAllAs components vs)
  | .basic base _, v => readBasic base v

/-- The components of a tuple, as far as there are both a type and a value. -/
def readAllAs : List AbiType → List Value → Outcome (List Value)
  | t :: ts, v :: vs => do
    let w ← readAs t v
    let ws ← readAllAs ts vs
    return w :: ws
  | _, _ => .ok []
end

/-- Whether the fault says that a value does not fit its type. -/
def isMisfit (fault : Fault) : Bool :=
  fault.isBadValue ||
    match fault with
    | .data .wrongKind => true
    | _ => false

/-- The argument that a document writes for a type. -/
def fromDocument (type value : Value) : Outcome Value :=
  match (do readAs (← typeOf type) value : Outcome Value) with
  | .ok v => .ok v
  | .error fault => .error (if isMisfit fault then .abi (.badValue type value) else fault)

end Proposals.Abi
