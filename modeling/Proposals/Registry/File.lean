import Proposals.Json.Reader
import Proposals.Registry.BuiltIn

/-!
# `Proposals.Registry.File` — contracts files

A contracts file maps chain ids to names to contracts. It is laid over the built-in table: an entry
takes the place of the one with its name on its chain. An entry without functions takes those of the
well-known contract with its name.

## Contents
- `contractOf`: one entry.
- `overlay`: the table under a file.
- `load`: the registry of a file's text, or of the built-in table alone.
-/

namespace Proposals.Registry

/-- Contracts by name, for each chain. -/
abbrev Overlay := List (Int × List (String × Contract))

/-- Whether a piece of text occurs in another. -/
def occurs (piece : List Char) : List Char → Bool
  | [] => piece.isEmpty
  | c :: rest => piece.isPrefixOf (c :: rest) || occurs piece rest

/-- Whether an unchecked value has the key, in the sense in which its kind can have one: an object
as an entry, a list as an item, a text as a piece. -/
def hasKey (key : String) : Value → Outcome Bool
  | .dict entries => .ok (Table.find? key entries).isSome
  | .list vs => .ok (vs.any (·.isText key))
  | .text s => .ok (occurs key.toList s.toList)
  | _ => .error (.data .wrongKind)

/-- The functions in an entry: those given, or those of the well-known contract. -/
def abiOf (name : String) : Option Value → Outcome (List Value)
  | none => .ok (knownAbi name)
  | some .null => .ok (knownAbi name)
  | some abi => abi.items

/-- The contract that an entry of a file describes. -/
def contractOf (name : String) (spec : Value) : Outcome Contract := do
  if !(← hasKey "address" spec) then throw (.contract (.noAddress name))
  match spec with
  | .dict entries =>
    let abi ← abiOf name (Table.find? "abi" entries)
    return ⟨name, ((Table.find? "address" entries).getD .null).display, abi⟩
  | _ => throw (.data .missingPart)

/-- The contracts of a chain with those of a file laid over them. -/
def overlayContracts (table : List (String × Contract)) :
    List (String × Value) → Outcome (List (String × Contract))
  | [] => .ok table
  | (name, spec) :: rest => do
    let c ← contractOf name spec
    overlayContracts (Table.insert name c table) rest

/-- The table with the chains of a file laid over it. -/
def overlay (table : Overlay) : List (String × Value) → Outcome Overlay
  | [] => .ok table
  | (key, contracts) :: rest => do
    let id ← (Value.text key).toInteger
    match contracts with
    | .dict entries =>
      let chain ← overlayContracts ((Table.find? id table).getD []) entries
      overlay (Table.insert id chain table) rest
    | _ => throw (.data .missingPart)

/-- The built-in table, by name. -/
def builtInOverlay : Overlay :=
  [(mainnet, builtInContracts.map fun c => (c.name, c))]

/-- The registry of a table by name. -/
def ofOverlay (table : Overlay) : Outcome Registry :=
  ofEntries (table.map fun (id, contracts) => (id, contracts.map (·.2)))

/-- The registry of the built-in table with a contracts file laid over it. -/
def ofDocument : Value → Outcome Registry
  | .dict entries => do ofOverlay (← overlay builtInOverlay entries)
  | _ => .error (.contract .notTable)

/-- The registry for the text of a contracts file, if there is one. -/
def load : Option String → Outcome Registry
  | none => ofOverlay builtInOverlay
  | some text => do ofDocument (← Json.read text)

end Proposals.Registry
