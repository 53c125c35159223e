import Proposals.Abi.Signature
import Proposals.Address

/-!
# `Proposals.Contract` — well-known contracts

## Contents
- `Contract`: a name, an address and the signatures of its functions.
- `Contract.signatureFor`: the canonical signature of a function.
- `Contract.normalized`: the contract with its address in normal form.
-/

namespace Proposals

open Proposals.Abi

/-- A contract with the functions that are known of it. -/
structure Contract where
  name : String
  address : String
  abi : List Value := []

namespace Contract

/-- The first signature with the given function name among those of the contract. All before it must
be signatures. -/
def signatureAmong (contract : String) (function : Value) : List Value → Outcome Signature
  | [] => .error (.contract (.noFunction contract function))
  | entry :: rest =>
    match signatureOf entry with
    | .error (.abi _) => .error (.contract (.badEntry contract entry))
    | .error fault => .error fault
    | .ok s =>
      if function.isText s.name then .ok s else signatureAmong contract function rest

/-- The canonical signature of a function of the contract. -/
def signatureFor (c : Contract) (function : Value) : Outcome Signature :=
  signatureAmong c.name function c.abi

/-- The contract with its address in normal form. -/
def normalized (c : Contract) : Outcome Contract :=
  match addressOfText? c.address with
  | some a => .ok { c with address := a }
  | none => .error (.contract (.badAddress c.name c.address))

/-- The document that shows a contract. -/
def toDocument (c : Contract) : Value :=
  .dict [("name", .text c.name), ("address", .text c.address), ("abi", .list c.abi)]

end Contract

end Proposals
