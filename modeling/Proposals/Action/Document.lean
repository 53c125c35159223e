import Proposals.Action
import Proposals.Transaction.Document

/-!
# `Proposals.Action.Document` — actions in documents

## Contents
- `Action.toDocument`, `Action.ofDocument`.
-/

namespace Proposals.Action

/-- The written form of a field: a currency is written by its symbol. -/
def fieldToDocument : Value → Value
  | .currency c => .text c.symbol
  | v => v

/-- The document that shows an action. -/
def toDocument (a : Action) : Outcome Value := do
  let kind ← a.kind
  let tag : String × Value := ("type", .text kind.tag)
  match a with
  | .customTransaction transactions =>
    let documents ← transactions.mapM Transaction.toDocument
    return .dict [tag, ("transactions", .list documents)]
  | a =>
    return .dict (tag :: a.fields.map fun (name, v) =>
      (name, if name == "currency" then fieldToDocument v else v))

/-- The kind that the tag of a document names. -/
def kindOf (tag : Value) : Outcome ActionKind :=
  match tag.text?.bind ActionKind.ofTag? with
  | some kind => .ok kind
  | none => .error (.document (.unknownAction tag))

/-- Fields that hold integers. -/
def integerFields : ActionKind → List String
  | .streamingPayment => ["start_timestamp", "end_timestamp", "nonce"]
  | .treasuryNounTransfer => ["noun_id"]
  | _ => []

/-- The value of a field: a currency that is known, the text of an amount, an integer. -/
def readField (kind : ActionKind) (name : String) (v : Value) : Outcome Value :=
  if name == "currency" then
    .ok (match v.currency? with
      | some c => .currency c
      | none => v)
  else if name == "amount" then .ok (.text v.display)
  else if (integerFields kind).contains name then
    match v.toInteger with
    | .ok n => .ok (.int n)
    | .error fault =>
      .error (if Abi.isMisfit fault then .document (.badAction kind none) else fault)
  else .ok v

/-- The entries with their values read. -/
def readFields (kind : ActionKind) : List (String × Value) → Outcome (List (String × Value))
  | [] => .ok []
  | (name, v) :: rest => do
    let w ← readField kind name v
    return (name, w) :: (← readFields kind rest)

/-- The action that a document describes. -/
def ofDocument : Value → Outcome Action
  | .dict entries => do
    let kind ← kindOf ((Table.find? "type" entries).getD .null)
    if kind = .customTransaction then
      match Table.find? "transactions" entries with
      | some (.list vs) => return .customTransaction (← vs.mapM Transaction.ofDocument)
      | _ => throw (.document .noTransactions)
    else
      let missing := Transaction.missingNames kind.fieldNames entries
      if !missing.isEmpty then throw (.document (.missingFields kind.recordName missing))
      let names := kind.fieldNames ++ kind.optionalNames
      let known ← readFields kind (Transaction.knownEntries names entries)
      match ofFields? kind fun name => Table.find? name known with
      | some a => return a
      | none => throw (.document (.missingFields kind.recordName []))
  | _ => .error (.document (.notObject "action"))

end Proposals.Action
