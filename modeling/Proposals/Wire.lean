import Proposals.Registry.File

/-!
# `Proposals.Wire` — raw transactions and the lists that executors take

A raw transaction is one place of four lists of equal lengths: targets, values, signatures and
calldatas.

## Contents
- `RawTransaction`: one transaction.
- `Wire`: the four lists; `Wire.ofDocument`, `Wire.toDocument`.
- `fromWire`, `toWire`: transactions from lists and back.
-/

namespace Proposals

open Proposals.Text Proposals.Number

/-- A transaction as it is executed. Its parts are unchecked. -/
structure RawTransaction where
  target : Value
  signature : Value
  calldata : Value
  value : Value := .int 0

/-- Whether the transaction only moves a value: it has neither signature nor calldata. -/
def RawTransaction.isNativeTransfer (raw : RawTransaction) : Bool :=
  raw.signature.isText "" && raw.calldata.isText "0x"

/-- The document that shows a raw transaction. -/
def RawTransaction.toDocument (raw : RawTransaction) : Value :=
  .dict [("target", raw.target), ("signature", raw.signature), ("calldata", raw.calldata),
    ("value", .text raw.value.display)]

/-- The four lists of a proposal. -/
structure Wire where
  targets : List Value
  values : List Value
  signatures : List Value
  calldatas : List Value

/-- The largest number of 256 bits. -/
def maxUint256 : Nat := twoTo 256 - 1

/-- How many digits the largest value has. -/
def maxValueDigits : Nat := 78

namespace Wire

/-- The names of the four lists. -/
def names : List String := ["targets", "values", "signatures", "calldatas"]

/-- The texts in the list of a document under a name. -/
def textsOf (document : Value) (name : String) : Outcome (List Value) :=
  match document with
  | .dict entries => do
    let vs ← ((Table.find? name entries).getD .null).items
    return vs.map fun v => .text v.display
  | _ => .error (.data .wrongKind)

/-- The names that a document lacks. -/
def missingNames (document : Value) : List String → Outcome (List String)
  | [] => .ok []
  | name :: rest => do
    let present ← Registry.hasKey name document
    let missing ← missingNames document rest
    return if present then missing else name :: missing

/-- The lists in a document; their items become texts. -/
def ofDocument (document : Value) : Outcome Wire := do
  let missing ← missingNames document names
  if !missing.isEmpty then throw (.malformed (.missingLists missing))
  return {
    targets := ← textsOf document "targets"
    values := ← textsOf document "values"
    signatures := ← textsOf document "signatures"
    calldatas := ← textsOf document "calldatas" }

/-- The document that shows the lists. -/
def toDocument (w : Wire) : Value :=
  .dict [("targets", .list w.targets), ("values", .list w.values),
    ("signatures", .list w.signatures), ("calldatas", .list w.calldatas)]

end Wire

/-! ## Reading the lists -/

/-- Whether the text is a run of decimal digits of ASCII. -/
def isDigits (cs : List Char) : Bool := !cs.isEmpty && cs.all isAsciiDigit

/-- The value at a place of the list. -/
def readValue (index : Nat) (v : Value) : Outcome Nat :=
  let cs := strip v.display.toList
  if !isDigits cs then .error (.malformed (.valueNotNumber index))
  else if maxValueDigits < (cs.dropWhile (· == '0')).length then
    .error (.malformed (.valueTooLarge index))
  else match readDigits? cs with
    | none => .error (.data .badValue)
    | some n => if maxUint256 < n then .error (.malformed (.valueTooLarge index)) else .ok n

/-- Whether the text is calldata: pairs of digits behind the mark `0x`; one line break may
follow. -/
def isCalldata : List Char → Bool
  | '0' :: 'x' :: digits => pairs digits
  | _ => false
where
  /-- Pairs of digits of base sixteen. -/
  pairs : List Char → Bool
    | [] => true
    | [c] => c == '\n'
    | a :: b :: rest => isHexDigit a && isHexDigit b && pairs rest

/-- Checks the calldata at a place of the list. -/
def checkCalldata (index : Nat) : Value → Outcome Unit
  | .text s =>
    if isCalldata s.toList then .ok () else .error (.malformed (.calldataNotHex index))
  | _ => .error (.data .wrongKind)

/-- The transactions of four lists from a place on, as far as all of them go. -/
def fromLists (index : Nat) :
    List Value → List Value → List Value → List Value → Outcome (List RawTransaction)
  | target :: targets, v :: values, signature :: signatures, calldata :: calldatas => do
    let n ← readValue index v
    checkCalldata index calldata
    let rest ← fromLists (index + 1) targets values signatures calldatas
    return ⟨target, signature, calldata, .int n⟩ :: rest
  | _, _, _, _ => .ok []

/-- The transactions of a proposal. -/
def fromWire (w : Wire) : Outcome (List RawTransaction) :=
  if w.values.length = w.targets.length ∧ w.signatures.length = w.targets.length ∧
      w.calldatas.length = w.targets.length then
    fromLists 0 w.targets w.values w.signatures w.calldatas
  else .error (.malformed .unequalLists)

/-- The proposal of some transactions. -/
def toWire (raws : List RawTransaction) : Wire :=
  { targets := raws.map (·.target)
    values := raws.map fun raw => .text raw.value.display
    signatures := raws.map (·.signature)
    calldatas := raws.map (·.calldata) }

end Proposals
