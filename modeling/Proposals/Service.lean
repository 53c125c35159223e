import Proposals.Report
import Proposals.Service.Payload
import Proposals.Service.Route
import Proposals.Settings

/-!
# `Proposals.Service` — answers to requests over the network

The service tells what it knows, lists contracts, and decodes and encodes proposals. A fault in what
a request says is its sender's; all other faults go to the caller.

## Contents
- `Request`, `Response`: what comes in and what goes out.
- `plain`: documents as they are sent.
- `status`, `contracts`, `decode`, `encode`: the answers.
- `respond`: the answer to a request.
-/

namespace Proposals.Service

open Proposals.Number

/-- A request with the text of its body. -/
structure Request where
  method : String
  path : String
  body : String := ""

/-- An answer: a document, a fault of the sender, problems with the form of the request, or a status
alone. -/
inductive Response where
  | document (body : Value)
  | refused (fault : Fault)
  | invalid (problems : List Problem)
  | unserved (status : Nat) (detail : String)

/-- The status of an answer. -/
def Response.status : Response → Nat
  | .document _ => 200
  | .refused _ => 400
  | .invalid _ => 422
  | .unserved status _ => status

/-- The document that shows a problem. -/
def problemDocument (p : Problem) : Value :=
  .dict [("type", .text p.kind.code), ("loc", .list (p.place.map .text))]

/-- The body of an answer. -/
def Response.body : Response → Value
  | .document body => body
  | .refused fault => .dict [("error", .text fault.message)]
  | .invalid problems => .dict [("detail", .list (problems.map problemDocument))]
  | .unserved _ detail => .dict [("detail", .text detail)]

/-! ## Documents as they are sent -/

/-- An exact decimal as a number: an integer if it has no decimal places. -/
def plainDecimal : Decimal → Outcome Value
  | .finite negative coefficient exponent =>
    if 0 ≤ exponent then
      let n : Int := coefficient * tenTo exponent.toNat
      .ok (.int (if negative then -n else n))
    else .ok (.float (.ofDecimal negative coefficient exponent))
  | _ => .error (.data .badValue)

/-- Bytes as the text that they write. -/
def plainBytes (bs : List UInt8) : Outcome Value :=
  match Text.ofUtf8? bs with
  | some s => .ok (.text s)
  | none => .error (.data .badValue)

mutual
/-- A document with parts that every client reads: exact decimals become numbers and bytes become
texts; numbers that JSON lacks are refused. -/
def plain : Value → Outcome Value
  | .float (.finite negative m e) => .ok (.float (.finite negative m e))
  | .float _ => .error (.data .badValue)
  | .decimal d => plainDecimal d
  | .bytes bs => plainBytes bs
  | .list items => do return .list (← plainItems items)
  | .dict entries => do return .dict (← plainEntries entries)
  | v => .ok v

/-- The items of a list. -/
def plainItems : List Value → Outcome (List Value)
  | [] => .ok []
  | v :: rest => do return (← plain v) :: (← plainItems rest)

/-- The entries of an object. -/
def plainEntries : List (String × Value) → Outcome (List (String × Value))
  | [] => .ok []
  | (key, v) :: rest => do return (key, ← plain v) :: (← plainEntries rest)
end

/-! ## Answers -/

/-- The engine that serves requests. -/
def engine (s : Surroundings) : Outcome Engine := do
  let settings ← s.settings
  return Engine.standard (← s.registryAt settings.contractsFile)

/-- The chain of a request: the one it names, or that of the settings. -/
def chainOr (s : Surroundings) : Option Int → Outcome Int
  | some chain => .ok chain
  | none => do return (← s.settings).chain

/-- What the service knows. -/
def status (s : Surroundings) : Outcome Value := do
  let settings ← s.settings
  let e ← engine s
  return .dict [("status", .text "ok"), ("default_chain_id", .int settings.chain),
    ("chain_ids", .list (e.registry.chainIds.map .int)),
    ("transaction_types", .list (e.codecs.map fun kind => .text kind.tag)),
    ("action_types", .list (e.handlers.map fun kind => .text kind.tag))]

/-- The contracts of a chain. -/
def contracts (s : Surroundings) (chain : Int) : Outcome Value := do
  let e ← engine s
  return .dict [("chain_id", .int chain), ("contracts", ← Report.ofContracts e.registry chain)]

/-- What a proposal does. -/
def decode (s : Surroundings) (p : DecodePayload) : Outcome Value := do
  let chain ← chainOr s p.chain
  let e ← engine s
  let raws ← fromWire ⟨p.targets, p.values, p.signatures, p.calldatas⟩
  Report.ofProposal e chain raws

/-- The proposal that actions make. -/
def encode (s : Surroundings) (p : EncodePayload) : Outcome Value := do
  let chain ← chainOr s p.chain
  let actions ← Report.actionsOf p.actions
  let wire ← Report.proposalOf (← engine s) chain actions
  match wire.toDocument with
  | .dict entries => return .dict (("chain_id", .int chain) :: entries)
  | document => return document

/-- The answer with a document, or with the sender's fault. -/
def answer (document : Outcome Value) : Outcome Response :=
  match document.bind plain with
  | .ok body => .ok (.document body)
  | .error fault => if fault.isBadValue then .ok (.refused fault) else .error fault

/-- The answer to a body. -/
def answerBody {α : Type} (act : α → Outcome Value) : Body α → Outcome Response
  | .problems problems => .ok (.invalid problems)
  | .unreadable => .ok (.unserved 400 "There was an error parsing the body")
  | .read payload => answer (act payload)

/-- The answer on a route. -/
def serve (s : Surroundings) (body : String) : Route → Outcome Response
  | .status => answer (status s)
  | .contracts chain =>
    match Validation.integerOfText chain with
    | .ok chain => answer (contracts s chain)
    | .error kind => .ok (.invalid [⟨kind, ["path", "chain_id"]⟩])
  | .decode => answerBody (decode s) (Payload.ofBody Payload.decodePayload body)
  | .encode => answerBody (encode s) (Payload.ofBody Payload.encodePayload body)

/-- The answer to a request. -/
def respond (s : Surroundings) (r : Request) : Outcome Response :=
  match Route.ofPath? r.path.toList with
  | none => .ok (.unserved 404 "Not Found")
  | some route =>
    if String.ofList (r.method.toList.map Char.toUpper) = route.method then serve s r.body route
    else .ok (.unserved 405 "Method Not Allowed")

end Proposals.Service
