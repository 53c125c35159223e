import Proposals.Contract
import Proposals.Table

/-!
# `Proposals.Registry` — the contracts of each chain

A registry finds contracts by name and by address. It is built from entries in order; a later entry
takes the place of an earlier one with the same name, and likewise with the same address.

## Contents
- `Registry`, `ofEntries`: the type and its maker.
- `lookup?`, `identify?`, `resolve`: one contract.
- `chainIds`, `contracts`: all of them.
-/

namespace Proposals

/-- The contracts of one chain, by name and by address. -/
structure Chain where
  byName : List (String × Contract) := []
  byAddress : List (String × Contract) := []

/-- The contracts of each chain. -/
structure Registry where
  chains : List (Int × Chain) := []

namespace Chain

/-- The chain with a contract set, whose address is in normal form. -/
def add (chain : Chain) (c : Contract) : Chain :=
  { byName := Table.insert c.name c chain.byName
    byAddress := Table.insert c.address c chain.byAddress }

/-- The chain with several contracts set. -/
def addAll (chain : Chain) : List Contract → Outcome Chain
  | [] => .ok chain
  | c :: rest => do (chain.add (← c.normalized)).addAll rest

end Chain

namespace Registry

/-- What is known of a chain. -/
def chain (r : Registry) (id : Int) : Chain := (Table.find? id r.chains).getD {}

/-- The registry with more entries of a chain. -/
def addChain (r : Registry) (id : Int) (entries : List Contract) : Outcome Registry := do
  let chain ← (r.chain id).addAll entries
  return ⟨Table.insert id chain r.chains⟩

/-- The registry with more entries of several chains. -/
def addChains (r : Registry) : List (Int × List Contract) → Outcome Registry
  | [] => .ok r
  | (id, entries) :: rest => do (← r.addChain id entries).addChains rest

/-- The registry of the given entries. -/
def ofEntries (entries : List (Int × List Contract)) : Outcome Registry :=
  addChains {} entries

/-- The contract with the given name. -/
def lookup? (r : Registry) (id : Int) (name : String) : Option Contract :=
  Table.find? name (r.chain id).byName

/-- The contract with the given name, which must be there. -/
def resolve (r : Registry) (id : Int) (name : String) : Outcome Contract :=
  match r.lookup? id name with
  | some c => .ok c
  | none => .error (.contract (.notRegistered (.text name) (.int id)))

/-- The contract that was last registered at an address. -/
def identify? (r : Registry) (id : Int) (address : Value) : Option Contract :=
  match address with
  | .text s => (addressOfText? s).bind fun a => Table.find? a (r.chain id).byAddress
  | _ => none

/-- The chains, in ascending order. -/
def chainIds (r : Registry) : List Int :=
  (r.chains.map (·.1)).mergeSort fun a b => decide (a ≤ b)

/-- The contracts of a chain, in the order of their names. -/
def contracts (r : Registry) (id : Int) : List Contract :=
  ((r.chain id).byName.mergeSort fun a b => decide (a.1 ≤ b.1)).map (·.2)

end Registry

end Proposals
