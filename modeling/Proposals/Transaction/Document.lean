import Proposals.Abi.Document
import Proposals.Transaction

/-!
# `Proposals.Transaction.Document` — transactions in documents

A document of a transaction has its tag and its fields. Numbers are written as decimal texts and
read from anything that stands for an integer; the inputs of a call follow their types.

## Contents
- `Transaction.toDocument`, `Transaction.ofDocument`.
-/

namespace Proposals.Transaction

open Proposals.Abi

/-- Fields that hold integers. -/
def integerFields : List String :=
  ["value", "usdc_amount", "weth_amount", "token_amount", "start_timestamp", "end_timestamp",
    "nonce", "noun_id"]

/-! ## Writing -/

/-- The inputs of a call in their written forms, as far as there are types. -/
def inputsToDocument (types inputs : Value) : Outcome Value := do
  let ts ← types.items
  let vs ← inputs.items
  return .list (← (ts.zip vs).mapM fun (t, v) => Abi.toDocument t v)

/-- The written form of a field. -/
def fieldToDocument (t : Transaction) (name : String) (v : Value) : Outcome Value :=
  if name == "function_inputs" then do
    inputsToDocument (← t.field "function_input_types") v
  else if name == "function_input_types" then v.items.map .list
  else if name == "token" then
    match v with
    | .currency c => .ok (.text c.symbol)
    | _ => .error (.data .missingPart)
  else if integerFields.contains name then .ok (.text v.display)
  else .ok v

/-- The document that shows a transaction. -/
def toDocument (t : Transaction) : Outcome Value := do
  let kind ← t.kind
  let entries ← t.fields.mapM fun (name, v) => do return (name, ← fieldToDocument t name v)
  return .dict (("type", .text kind.tag) :: entries)

/-! ## Reading -/

/-- The fault of a field that cannot be read; sizes past all bounds are not reported as such. -/
def badField (kind : TransactionKind) (fault : Fault) : Fault :=
  match fault with
  | .abi cause => .document (.badTransaction kind (some cause))
  | fault => if isMisfit fault then .document (.badTransaction kind none) else fault

/-- The integer that a field stands for. -/
def readInteger (kind : TransactionKind) (v : Value) : Outcome Value :=
  match v.toInteger with
  | .ok n => .ok (.int n)
  | .error fault => .error (badField kind fault)

/-- The inputs of a call, read by their types. -/
def readInputs (kind : TransactionKind) : List Value → List Value → Outcome (List Value)
  | t :: ts, v :: vs =>
    match fromDocument t v with
    | .ok w => do return w :: (← readInputs kind ts vs)
    | .error fault => .error (badField kind fault)
  | _, _ => .ok []

/-- The entries with the currency of a stream and the inputs of a call read. -/
def readSpecial (kind : TransactionKind) (entries : List (String × Value)) :
    Outcome (List (String × Value)) :=
  match kind with
  | .stream =>
    let token := (Table.find? "token" entries).getD .null
    match token.currency? with
    | some c => .ok (Table.insert "token" (.currency c) entries)
    | none => .error (.document (.unknownToken token))
  | .functionCall | .payableFunctionCall => do
    let types ← ((Table.find? "function_input_types" entries).getD .null).items
    let inputs ← ((Table.find? "function_inputs" entries).getD .null).items
    if types.length ≠ inputs.length then throw (.document .unequalInputs)
    let inputs ← readInputs kind types inputs
    return Table.insert "function_inputs" (.list inputs)
      (Table.insert "function_input_types" (.list types) entries)
  | _ => .ok entries

/-- The entries with the integers among them read. -/
def readIntegers (kind : TransactionKind) :
    List (String × Value) → Outcome (List (String × Value))
  | [] => .ok []
  | (name, v) :: rest => do
    let w ← if integerFields.contains name then readInteger kind v else .ok v
    return (name, w) :: (← readIntegers kind rest)

/-- The entries under the names of the fields of a kind. -/
def knownEntries (names : List String) (entries : List (String × Value)) :
    List (String × Value) :=
  names.filterMap fun name => (Table.find? name entries).map fun v => (name, v)

/-- The names that have no entry. -/
def missingNames (names : List String) (entries : List (String × Value)) : List String :=
  names.filter fun name => (Table.find? name entries).isNone

/-- The kind that the tag of a document names. -/
def kindOf (tag : Value) : Outcome TransactionKind :=
  match tag.text?.bind TransactionKind.ofTag? with
  | some kind => .ok kind
  | none => .error (.document (.unknownTransaction tag))

/-- The transaction that a document describes. -/
def ofDocument : Value → Outcome Transaction
  | .dict entries => do
    let kind ← kindOf ((Table.find? "type" entries).getD .null)
    let missing := missingNames kind.fieldNames entries
    if !missing.isEmpty then throw (.document (.missingFields kind.recordName missing))
    let known := knownEntries (kind.fieldNames ++ kind.optionalNames) entries
    let known ← readIntegers kind (← readSpecial kind known)
    match ofFields? kind fun name => Table.find? name known with
    | some t => return t
    | none => throw (.document (.missingFields kind.recordName []))
  | _ => .error (.document (.notObject "transaction"))

end Proposals.Transaction
