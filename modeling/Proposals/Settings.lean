import Proposals.Folder
import Proposals.Registry.File
import Proposals.Settings.EnvFile
import Proposals.Validation

/-!
# `Proposals.Settings` — settings from the surroundings

Settings come from variables with a common mark in front of their names, in any case. A variable of
the surroundings counts before one of the assignment file, and that before the built-in value.

## Contents
- `Surroundings`: variables, and texts by path.
- `Settings`, `Surroundings.settings`: the type and its reader.
- `Surroundings.registryAt`: the registry for a contracts file.
-/

namespace Proposals

open Proposals.Text

/-- Where a program runs: its variables, and the texts that it can read. -/
structure Surroundings where
  env : List (String × String)
  read : String → Outcome String

/-- The settings of a run. -/
structure Settings where
  chain : Int := Registry.mainnet
  contractsFile : Option String := none
  logLevel : String := "INFO"

namespace Settings

/-- The path of the file of assignments. -/
def assignmentFile : String := ".env"

/-- The name of a variable, in small letters. -/
def variableName (name : String) : String := "govkit_" ++ name

/-- The small letter of a character in a name. Of the characters beyond ASCII only the Kelvin sign
has a small letter that a name of a setting can hold. -/
def lowerChar (c : Char) : Char := if c.toNat == 0x212a then 'k' else c.toLower

/-- Values by their names in small letters; the last one with a name counts. -/
def byLowerName {α : Type} (entries : List (String × α)) : List (String × α) :=
  entries.foldl
    (fun table (name, value) => Table.insert (String.ofList (name.toList.map lowerChar)) value table)
    []

/-- The settings that variables give. -/
def ofVariables (find? : String → Option String) : Outcome Settings := do
  let chain ← match find? (variableName "chain_id") with
    | none => .ok Registry.mainnet
    | some text =>
      match Validation.integerOfText text.toList with
      | .ok n => .ok n
      | .error _ => .error .settings
  return {
    chain
    contractsFile := (find? (variableName "contracts_file")).map Path.normal
    logLevel := (find? (variableName "log_level")).getD "INFO" }

end Settings

namespace Surroundings

/-- The assignments of the file, if it can be read. -/
def assigned (s : Surroundings) : List (String × Option String) :=
  match s.read Settings.assignmentFile with
  | .ok text => Settings.EnvFile.assignments s.env text
  | .error _ => []

/-- The settings that hold in the surroundings. A name of the file without a value gives none. -/
def settings (s : Surroundings) : Outcome Settings :=
  let outer := Settings.byLowerName s.env
  let inner := Settings.byLowerName s.assigned
  Settings.ofVariables fun name =>
    (Table.find? name outer).orElse fun _ => (Table.find? name inner).join

/-- The registry with the contracts file at a path, if there is one. -/
def registryAt (s : Surroundings) : Option String → Outcome Registry
  | none => Registry.load none
  | some path => do Registry.load (some (← s.read path))

end Surroundings

end Proposals
