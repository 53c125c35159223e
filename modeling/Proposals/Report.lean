import Proposals.Action.Document
import Proposals.Engine
import Proposals.Summary

/-!
# `Proposals.Report` — documents about proposals, actions and contracts

The same documents are printed for operators and sent to clients.

## Contents
- `ofProposal`: what a proposal does.
- `actionsOf`, `proposalOf`: the proposal that actions make.
- `ofContracts`: the contracts of a chain.
-/

namespace Proposals.Report

/-- An action with the sentence that describes it. -/
def ofAction (a : Action) : Outcome Value := do
  match ← a.toDocument with
  | .dict entries => return .dict (Table.insert "summary" (.text (← Summary.summarize a)) entries)
  | document => return document

/-- The actions and transactions of a proposal. -/
def ofProposal (e : Engine) (chain : Int) (raws : List RawTransaction) : Outcome Value := do
  let (transactions, _) ← e.parse chain raws
  let (actions, _) ← e.buildActions transactions
  let actionDocuments ← actions.mapM ofAction
  let transactionDocuments ← transactions.mapM Transaction.toDocument
  return .dict [("chain_id", .int chain), ("actions", .list actionDocuments),
    ("transactions", .list transactionDocuments)]

/-- The actions that documents describe. -/
def actionsOf (documents : List Value) : Outcome (List Action) := documents.mapM Action.ofDocument

/-- The proposal that actions make. -/
def proposalOf (e : Engine) (chain : Int) (actions : List Action) : Outcome Wire := do
  return toWire (← e.encode chain actions)

/-- The contracts of a chain, of which there must be some. -/
def ofContracts (registry : Registry) (chain : Int) : Outcome Value :=
  match registry.contracts chain with
  | [] => .error (.contract (.noContracts chain))
  | contracts => .ok (.list (contracts.map Contract.toDocument))

end Proposals.Report
