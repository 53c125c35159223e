import Proposals.Transaction

/-!
# `Proposals.Action` — what a proposal is meant to do

An action stands for one or more transactions. Its fields are unchecked; some operations read a
field by name, whatever the kind.

## Contents
- `Action`: the type.
- `kind?`, `fields`, `field`, `bundle`: its kind and its parts.
- `ofFields?`: an action from named fields.
-/

namespace Proposals

/-- A payment that runs from a start to an end through a stream contract. -/
structure StreamingPayment where
  target : Value
  currency : Value
  amount : Value
  start : Value
  stop : Value
  contract : Value
  nonce : Value := .int 0

/-- What a proposal is meant to do. A foreign object is no action of any kind. -/
inductive Action where
  | oneTimePayment (target currency amount : Value)
  | streamingPayment (payment : StreamingPayment)
  | payerTopUp (amount : Value)
  | treasuryNounTransfer (target nounId : Value)
  | customTransaction (transactions : List Transaction)
  | foreign

namespace Action

/-- The kind of an action. -/
def kind? : Action → Option ActionKind
  | .oneTimePayment _ _ _ => some .oneTimePayment
  | .streamingPayment _ => some .streamingPayment
  | .payerTopUp _ => some .payerTopUp
  | .treasuryNounTransfer _ _ => some .treasuryNounTransfer
  | .customTransaction _ => some .customTransaction
  | .foreign => none

/-- The fields of an action, in order; the transactions of a bundle are no field. -/
def fields : Action → List (String × Value)
  | .oneTimePayment target currency amount =>
    [("target", target), ("currency", currency), ("amount", amount)]
  | .streamingPayment p =>
    [("target", p.target), ("currency", p.currency), ("amount", p.amount),
      ("start_timestamp", p.start), ("end_timestamp", p.stop),
      ("stream_contract_address", p.contract), ("nonce", p.nonce)]
  | .payerTopUp amount => [("amount", amount)]
  | .treasuryNounTransfer target nounId => [("target", target), ("noun_id", nounId)]
  | .customTransaction _ => []
  | .foreign => []

/-- The field with a name, which the kind of the action must have. -/
def field (a : Action) (name : String) : Outcome Value :=
  match Table.find? name a.fields with
  | some v => .ok v
  | none => .error (.data .missingPart)

/-- The kind of an action, which must have one. -/
def kind (a : Action) : Outcome ActionKind :=
  match a.kind? with
  | some k => .ok k
  | none => .error (.data .missingPart)

/-- The transactions of a bundle. -/
def bundle : Action → Outcome (List Transaction)
  | .customTransaction transactions => .ok transactions
  | _ => .error (.data .missingPart)

/-- The action of a kind with the given fields. The nonce of a streaming payment may be left out; a
bundle has no fields. -/
def ofFields? (kind : ActionKind) (get : String → Option Value) : Option Action := do
  match kind with
  | .oneTimePayment => return .oneTimePayment (← get "target") (← get "currency") (← get "amount")
  | .streamingPayment =>
    return .streamingPayment
      { target := ← get "target", currency := ← get "currency", amount := ← get "amount",
        start := ← get "start_timestamp", stop := ← get "end_timestamp",
        contract := ← get "stream_contract_address", nonce := (get "nonce").getD (.int 0) }
  | .payerTopUp => return .payerTopUp (← get "amount")
  | .treasuryNounTransfer => return .treasuryNounTransfer (← get "target") (← get "noun_id")
  | .customTransaction => none

end Action

namespace ActionKind

/-- The fields that an action of the kind must have, in order. -/
def fieldNames : ActionKind → List String
  | .oneTimePayment => ["target", "currency", "amount"]
  | .streamingPayment =>
    ["target", "currency", "amount", "start_timestamp", "end_timestamp",
      "stream_contract_address"]
  | .payerTopUp => ["amount"]
  | .treasuryNounTransfer => ["target", "noun_id"]
  | .customTransaction => []

/-- The fields that an action of the kind may lack. -/
def optionalNames : ActionKind → List String
  | .streamingPayment => ["nonce"]
  | _ => []

/-- The name of the record of the kind in messages. -/
def recordName (kind : ActionKind) : String := camelCase kind.tag ++ "Action"

end ActionKind

end Proposals
