import Proposals.Abi.Decoding
import Proposals.Abi.Signature

/-!
# `Proposals.Abi.Arguments` — calldata

Calldata is the encoding of the arguments of a call, written in base sixteen behind the mark `0x`.
Reading it is strict: only the encoding of the result is accepted.

## Contents
- `prepare`: values made ready for their types.
- `encodeArguments`, `decodeArguments`: calldata from arguments and back.
- `DecodedCall`, `decodeCall`: the same with a signature.
-/

namespace Proposals.Abi

open Proposals.Text

/-! ## Preparation -/

mutual
/-- The value with every address in normal form. Arrays and tuples may be any sequence but a text or
bytes; items without a type are left out. -/
def prepare : AbiType → Value → Outcome Value
  | .array item length, v => do
    let vs ← sequenceOf (.array item length) v
    return .list (← vs.mapM (prepare item))
  | .tuple components, v => do
    let vs ← sequenceOf (.tuple components) v
    return .list (← prepareAll components vs)
  | .basic base _, v =>
    if base == "address" then
      match v with
      | .text s =>
        match addressOfText? s with
        | some a => .ok (.text a)
        | none => .error (.abi (.badAddress v))
      | _ => .error (.abi (.badAddress v))
    else .ok v
where
  /-- The members of a sequence that is neither a text nor bytes. -/
  sequenceOf (t : AbiType) : Value → Outcome (List Value)
    | .text _ => .error (.abi (.notSequence t.text))
    | .bytes _ => .error (.abi (.notSequence t.text))
    | v => v.items

/-- The components of a tuple, as far as there are both a type and a value. -/
def prepareAll : List AbiType → List Value → Outcome (List Value)
  | t :: ts, v :: vs => do
    let w ← prepare t v
    let ws ← prepareAll ts vs
    return w :: ws
  | _, _ => .ok []
end

/-- The types and the prepared values of an argument list, one after the other. -/
def prepareArguments : List Value → List Value → Outcome (List AbiType × List Value)
  | t :: ts, v :: vs => do
    let type ← typeOf t
    let w ← prepare type v
    let (types, ws) ← prepareArguments ts vs
    return (type :: types, w :: ws)
  | _, _ => .ok ([], [])

/-! ## Calldata -/

/-- The encoding of prepared values, if they fit. -/
def encodeValues? (types : List AbiType) (vs : List Value) : Option (List UInt8) := do
  let coders ← Coder.ofTypes? types
  let parts ← Coder.encodeParts? coders vs
  return assemble parts

/-- The calldata of an argument list. -/
def encodeArguments (types values : List Value) : Outcome String := do
  if types.length ≠ values.length then
    throw (.abi (.argumentCount types.length values.length))
  let (abiTypes, prepared) ← prepareArguments types values
  match encodeValues? abiTypes prepared with
  | some bs => return String.ofList (bytesToHex bs)
  | none => throw (.abi .unencodable)

/-- The bytes of calldata, which must have the mark `0x`. -/
def calldataBytes : Value → Outcome (List UInt8)
  | .text s =>
    if "0x".toList.isPrefixOf s.toList then
      match hexToBytes? s.toList with
      | some bs => .ok bs
      | none => .error (.abi .calldataNotHex)
    else .error (.abi .calldataNotText)
  | _ => .error (.abi .calldataNotText)

/-- The values that data hold. -/
def decodeValues (names : List String) (types : List AbiType) (data : List UInt8) :
    Outcome (List Value) :=
  match Coder.ofTypes? types with
  | none => .error (.data ((Coder.decodingFaults? types).getD .noCoder))
  | some coders =>
    match Coder.decodeAll coders data with
    | .ok vs => .ok vs
    | .error .layout => .error (.abi (.undecodable names))
    | .error .tooLong => .error (.data .overflow)

/-- The arguments that calldata hold. Calldata that are not the encoding of their arguments are
refused. -/
def decodeArguments (types : List Value) (calldata : Value) : Outcome (List Value) := do
  let abiTypes ← types.mapM typeOf
  let data ← calldataBytes calldata
  let names := types.map Value.display
  let vs ← decodeValues names abiTypes data
  let again ← encodeArguments types vs
  if again.toList = bytesToHex data then return vs
  else throw (.abi (.notCanonical names))

/-- A call with its arguments. -/
structure DecodedCall where
  name : String
  inputs : List Value
  types : List String

/-- The call that a signature and calldata describe. -/
def decodeCall (signature calldata : Value) : Outcome DecodedCall := do
  let s ← signatureOf signature
  let inputs ← decodeArguments (s.types.map .text) calldata
  return ⟨s.name, inputs, s.types⟩

end Proposals.Abi
