import Proposals.CommandLine.Argument
import Proposals.Json.Printer
import Proposals.Report
import Proposals.Settings

/-!
# `Proposals.CommandLine` — the commands for operators

Three commands: decode a proposal, encode actions, and list contracts. A command prints one JSON
document, or reports a fault and fails; faults of data that it does not know how to report go to the
caller.

## Contents
- `Command`, `Invocation`, `Invocation.ofArguments`: what is asked for.
- `document`: what a command prints.
- `isReported`, `Ending`, `run`: how a command ends.
-/

namespace Proposals.CommandLine

open Proposals.Number

/-! ## Invocations -/

/-- The commands, with the path of what they read; a hyphen means the standard input. -/
inductive Command where
  | decode (proposal : String)
  | encode (actions : String)
  | contracts

/-- A command with its options. -/
structure Invocation where
  logLevel : String
  contractsFile : Option String
  chain : Int
  command : Command

/-- The path of what a command reads, if it reads anything. -/
def Command.source? : Command → Option String
  | .decode proposal => some proposal
  | .encode actions => some actions
  | .contracts => none

/-- The path that stands for the standard input. -/
def standardInput : String := "-"

/-- The paths in normal form that an invocation may read. -/
def Invocation.paths (i : Invocation) : List String :=
  let sources := i.command.source?.toList.filter (· != standardInput)
  i.contractsFile.toList ++ sources.map Path.normal

/-- Options in front of the command. -/
def commonParameters : List Parameter :=
  [{ name := "--log-level".toList }, { name := "--contracts-file".toList }]

/-- The option for the chain, which takes an integer. -/
def chainParameter : Parameter :=
  { name := "--chain-id".toList, accepts := fun cs => (readInteger? cs).isSome }

/-- The option for the path of what is decoded. -/
def proposalParameter : Parameter := { name := "--proposal".toList }

/-- The option for the path of what is encoded. -/
def actionsParameter : Parameter := { name := "--actions".toList }

/-- The scan of the arguments of a command, which takes options only. -/
def scanOptions (parameters : List Parameter) (args : List String) : Except Halt Scan :=
  scan (chainParameter :: parameters) false args

/-- The value of an option that must be there, as a text. -/
def required (s : Scan) (p : Parameter) : Except Halt String :=
  match s.value? p.name with
  | some value => .ok (String.ofList value)
  | none => .error .usage

/-- The command with a name, and the scan of its options. -/
def commandOf : List String → Except Halt (Command × Scan)
  | "decode" :: args => do
    let s ← scanOptions [proposalParameter] args
    return (.decode (← required s proposalParameter), s)
  | "encode" :: args => do
    let s ← scanOptions [actionsParameter] args
    return (.encode (← required s actionsParameter), s)
  | "contracts" :: args => do return (.contracts, ← scanOptions [] args)
  | _ => .error .usage

/-- The contracts file that is asked for: none if its path is empty. -/
def chosenFile (settings : Settings) : Option (List Char) → Option String
  | none => settings.contractsFile
  | some [] => none
  | some path => some (Path.normal (String.ofList path))

/-- What the arguments ask for under the given settings. -/
def Invocation.ofArguments (settings : Settings) (args : List String) :
    Except Halt Invocation := do
  let common ← scan commonParameters true args
  let (command, own) ← commandOf common.words
  if common.strays || own.strays then throw .usage
  return {
    logLevel := ((common.value? "--log-level".toList).map String.ofList).getD settings.logLevel
    contractsFile := chosenFile settings (common.value? "--contracts-file".toList)
    chain := ((own.value? chainParameter.name).bind readInteger?).getD settings.chain
    command }

/-! ## Running -/

/-- The JSON text at a path, or from the standard input. -/
def load (s : Surroundings) (stdin source : String) : Outcome Value := do
  if source = standardInput then Json.read stdin
  else Json.read (← s.read (Path.normal source))

/-- The documents of the actions in a JSON text: a list, or the list of an object. -/
def actionList (payload : Value) : Outcome (List Value) :=
  let payload := match payload with
    | .dict entries => (Table.find? "actions" entries).getD .null
    | payload => payload
  match payload with
  | .list documents => .ok documents
  | _ => .error (.document .noActions)

/-- The document that a command prints. -/
def document (s : Surroundings) (stdin : String) (i : Invocation) : Outcome Value := do
  let e := Engine.standard (← s.registryAt i.contractsFile)
  match i.command with
  | .decode proposal =>
    let wire ← Wire.ofDocument (← load s stdin proposal)
    Report.ofProposal e i.chain (← fromWire wire)
  | .encode actions =>
    let documents ← actionList (← load s stdin actions)
    return (← Report.proposalOf e i.chain (← Report.actionsOf documents)).toDocument
  | .contracts => Report.ofContracts e.registry i.chain

/-- Whether a command reports the fault; all others go to the caller. -/
def isReported : Fault → Bool
  | .amount _ => true
  | .malformed _ => true
  | .document _ => true
  | .contract _ => true
  | .unrecognized _ => true
  | .variant _ => true
  | .json _ => true
  | .file _ => true
  | _ => false

/-- The exit status of a command and what it wrote. -/
structure Result where
  code : Nat
  stdout : String
  stderr : String

/-- How a run ends: without a command, or with its result. -/
inductive Ending where
  | halted (halt : Halt)
  | finished (result : Result)

/-- What is written about a fault. -/
def faultLine (fault : Fault) : String := "ERROR: " ++ fault.message ++ "\n"

/-- The result of an invocation. -/
def execute (s : Surroundings) (stdin : String) (i : Invocation) : Outcome Result :=
  let text : Outcome String := do Json.document (← document s stdin i)
  match text with
  | .ok text => .ok ⟨0, text ++ "\n", ""⟩
  | .error fault => if isReported fault then .ok ⟨2, "", faultLine fault⟩ else .error fault

/-- Runs the command that the arguments ask for. -/
def run (s : Surroundings) (stdin : String) (args : List String) : Outcome Ending := do
  let settings ← s.settings
  match Invocation.ofArguments settings args with
  | .error halt => return .halted halt
  | .ok i => return .finished (← execute s stdin i)

end Proposals.CommandLine
