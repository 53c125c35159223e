import Proposals.Registry

/-!
# `Proposals.Registry.Query` — questions with unchecked keys

A chain may be given by any value that equals its number; a value that equals none belongs to no
chain.

## Contents
- `chainOf?`, `checkKey`: keys.
- `lookupValue`, `resolveValue`, `contractsOf`, `identifyValue`: the questions.
-/

namespace Proposals.Registry

open Proposals.Number

/-- The integer that equals a value. -/
def chainOf? (v : Value) : Option Int :=
  match v with
  | .int n => some n
  | v => match v.toInteger with
    | .ok n => if v.same (.int n) then some n else none
    | .error _ => none

/-- Only plain values can be keys. -/
def checkKey (v : Value) : Outcome Unit :=
  if v.isKey then .ok () else .error (.data .wrongKind)

/-- The contracts of a chain. -/
def contractsOf (r : Registry) (id : Value) : Outcome (List Contract) := do
  checkKey id
  return match chainOf? id with
    | some n => r.contracts n
    | none => []

/-- The contract with a name, if there is one. -/
def lookupValue (r : Registry) (id name : Value) : Outcome (Option Contract) := do
  checkKey id
  checkKey name
  return match chainOf? id, name with
    | some n, .text s => r.lookup? n s
    | _, _ => none

/-- The contract with a name, which must be there. -/
def resolveValue (r : Registry) (id name : Value) : Outcome Contract := do
  match ← r.lookupValue id name with
  | some c => return c
  | none => throw (.contract (.notRegistered name id))

/-- The contract at an address, if there is one. -/
def identifyValue (r : Registry) (id address : Value) : Outcome (Option Contract) := do
  match address with
  | .text s =>
    if isAddressText s.toList then
      checkKey id
      return (chainOf? id).bind fun n => r.identify? n address
    else return none
  | _ => return none

end Proposals.Registry
