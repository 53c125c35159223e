import Proposals.Json.Reader
import Proposals.Text.Utf8
import Proposals.Validation

/-!
# `Proposals.Service.Payload` — what requests carry

A body is a JSON object with fields of known kinds; others are ignored. All problems of a body are
reported together.

## Contents
- `DecodePayload`, `EncodePayload` with `ofBody`: the two kinds of bodies.
- `Body`: a body that was read, or why not.
-/

namespace Proposals.Service

/-- A body as it was read: problems, a text that is beyond reading, or a result. -/
inductive Body (α : Type) where
  | problems (problems : List Problem)
  | unreadable
  | read (payload : α)

/-- The four lists of a proposal, with the chain if it is given. -/
structure DecodePayload where
  targets : List Value
  values : List Value
  signatures : List Value
  calldatas : List Value
  chain : Option Int

/-- The documents of actions, with the chain if it is given. -/
structure EncodePayload where
  actions : List Value
  chain : Option Int

namespace Payload

/-! ## Fields -/

/-- The outcome of reading a field: its value, or all problems in it. -/
abbrev Field (α : Type) := Except (List Problem) α

/-- The place of a field. -/
def place (name : String) : List String := ["body", name]

/-- A problem at one place. -/
def problem {α : Type} (kind : ProblemKind) (place : List String) : Field α :=
  .error [⟨kind, place⟩]

/-- The problems of a field. -/
def problemsOf {α : Type} : Field α → List Problem
  | .ok _ => []
  | .error problems => problems

/-- The problems of the items of a list that fail a test. -/
def itemProblems (kind : ProblemKind) (fits : Value → Bool) (place : List String) :
    Nat → List Value → List Problem
  | _, [] => []
  | index, v :: rest =>
    let more := itemProblems kind fits place (index + 1) rest
    if fits v then more
    else ⟨kind, place ++ [String.ofList (Number.natText index)]⟩ :: more

/-- The list under a name, whose items pass a test. -/
def listField (kind : ProblemKind) (fits : Value → Bool) (name : String)
    (entries : List (String × Value)) : Field (List Value) :=
  match Table.find? name entries with
  | none => problem .missing (place name)
  | some (.list items) =>
    match itemProblems kind fits (place name) 0 items with
    | [] => .ok items
    | problems => .error problems
  | some _ => problem .notList (place name)

/-- Whether the value is a text. -/
def isTextValue : Value → Bool
  | .text _ => true
  | _ => false

/-- Whether the value is an object. -/
def isObject : Value → Bool
  | .dict _ => true
  | _ => false

/-- The texts under a name. -/
def textsField (name : String) (entries : List (String × Value)) : Field (List Value) :=
  listField .notText isTextValue name entries

/-- The objects under a name. -/
def objectsField (name : String) (entries : List (String × Value)) : Field (List Value) :=
  listField .notObject isObject name entries

/-- The chain, which need not be given. -/
def chainField (entries : List (String × Value)) : Field (Option Int) :=
  match (Table.find? "chain_id" entries).getD .null with
  | .null => .ok none
  | v =>
    match Validation.integerOf v with
    | .ok n => .ok (some n)
    | .error kind => problem kind (place "chain_id")

/-! ## Whole bodies -/

/-- The four lists and the chain in an object. -/
def decodePayload (entries : List (String × Value)) : Field DecodePayload :=
  let targets := textsField "targets" entries
  let values := textsField "values" entries
  let signatures := textsField "signatures" entries
  let calldatas := textsField "calldatas" entries
  let chain := chainField entries
  match targets, values, signatures, calldatas, chain with
  | .ok targets, .ok values, .ok signatures, .ok calldatas, .ok chain =>
    .ok ⟨targets, values, signatures, calldatas, chain⟩
  | _, _, _, _, _ =>
    .error (problemsOf targets ++ problemsOf values ++ problemsOf signatures ++
      problemsOf calldatas ++ problemsOf chain)

/-- The actions and the chain in an object. -/
def encodePayload (entries : List (String × Value)) : Field EncodePayload :=
  let actions := objectsField "actions" entries
  let chain := chainField entries
  match actions, chain with
  | .ok actions, .ok chain => .ok ⟨actions, chain⟩
  | _, _ => .error (problemsOf actions ++ problemsOf chain)

/-- The body that a text holds; no text at all and a null count as no body. -/
def ofBody {α : Type} (payload : List (String × Value) → Field α) (text : String) : Body α :=
  if text.isEmpty then .problems [⟨.missing, ["body"]⟩]
  else match Json.read (String.ofList (Text.dropOrderMark text.toList)) with
    | .error (.json fault) =>
      .problems [⟨.badJson, ["body", String.ofList (Number.natText fault.offset)]⟩]
    | .error _ => .unreadable
    | .ok .null => .problems [⟨.missing, ["body"]⟩]
    | .ok (.dict entries) =>
      match payload entries with
      | .ok result => .read result
      | .error problems => .problems problems
    | .ok _ => .problems [⟨.notModel, ["body"]⟩]

end Payload

end Proposals.Service
