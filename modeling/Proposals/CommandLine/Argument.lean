import Proposals.Number.Integer

/-!
# `Proposals.CommandLine.Argument` — options and words on a command line

An option is a name behind two hyphens. Its value follows as the next word, or in the same argument
behind an equals sign; a name may be cut short as long as it means one option only. Two hyphens
alone divide the options from words that are left as they stand. Asking for help ends the reading at
that place.

## Contents
- `Halt`: why no command is run.
- `Parameter`: an option with a value.
- `Piece`, `classify`: what an argument is.
- `Scan`, `scan`: the options in front of the first word, or all of them.
-/

namespace Proposals.CommandLine

open Proposals.Text Proposals.Number

/-- Why no command is run: help was asked for, or the arguments are wrong. -/
inductive Halt where
  | help
  | usage
deriving DecidableEq, Repr

/-- The exit status. -/
def Halt.status : Halt → Nat
  | .help => 0
  | .usage => 2

/-- An option with a value: its name with the hyphens, and which values it takes. -/
structure Parameter where
  name : List Char
  accepts : List Char → Bool := fun _ => true

/-- What an argument is. Unknown options are passed over at first. -/
inductive Piece where
  | word
  | divider
  | option (name : List Char) (given : Option (List Char))
  | unknown
deriving DecidableEq, Repr

/-! ## Single arguments -/

/-- The name of the option that asks for help. -/
def helpName : List Char := "--help".toList

/-- A piece that asks for help. -/
def Piece.help : Piece := .option helpName none

/-- A piece that asks for help with a value, which is wrong. -/
def Piece.badHelp : Piece := .option helpName (some [])

/-- The text up to the first equals sign, and the text behind it if there is one. -/
def splitAtEquals : List Char → List Char × Option (List Char)
  | [] => ([], none)
  | c :: rest =>
    if c = '=' then ([], some rest)
    else
      let (name, value) := splitAtEquals rest
      (c :: name, value)

/-- Whether the text is a run of digits of any script. -/
def isNumeral (cs : List Char) : Bool := !cs.isEmpty && cs.all fun c => (digit? c).isSome

/-- Whether the text behind a hyphen makes a negative number; one line break may follow. -/
def isNegativeNumeral (cs : List Char) : Bool :=
  let cs := if cs.getLast? == some '\n' then cs.dropLast else cs
  let whole := cs.takeWhile fun c => (digit? c).isSome
  match cs.dropWhile fun c => (digit? c).isSome with
  | [] => isNumeral whole
  | '.' :: places => isNumeral places
  | _ => false

/-- What an argument is that begins like an option and names none. -/
def classifyUnnamed (arg : List Char) : Piece :=
  if isNegativeNumeral (arg.drop 1) || arg.contains ' ' then .word else .unknown

/-- What an argument behind two hyphens is. -/
def classifyLong (names : List (List Char)) (arg : List Char) : Except Halt Piece :=
  let (name, given) := splitAtEquals arg
  if names.contains name then .ok (.option name given)
  else
    match names.filter name.isPrefixOf with
    | [] => .ok (classifyUnnamed arg)
    | [full] => .ok (.option full given)
    | _ => .error .usage

/-- What an argument behind one hyphen is: `h` asks for help, as often as it stands there, and
takes no value. -/
def classifyShort (arg body : List Char) : Piece :=
  if body.head? == some 'h' then
    match body.dropWhile (· == 'h') with
    | c :: _ => if c == '=' || c == '-' then .badHelp else .help
    | [] => .help
  else classifyUnnamed arg

/-- What an argument is, given the names of the options. -/
def classify (names : List (List Char)) : List Char → Except Halt Piece
  | '-' :: '-' :: rest => classifyLong names ('-' :: '-' :: rest)
  | '-' :: c :: rest => .ok (classifyShort ('-' :: c :: rest) (c :: rest))
  | _ => .ok .word

/-- What each argument is. -/
def classifyAll (names : List (List Char)) : List String → Except Halt (List (String × Piece))
  | [] => .ok []
  | arg :: rest =>
    if arg = "--" then .ok ((arg, .divider) :: rest.map fun arg => (arg, .word))
    else do
      let piece ← classify names arg.toList
      return (arg, piece) :: (← classifyAll names rest)

/-! ## Whole command lines -/

/-- The options read, the last value for each counting; whether other arguments were passed over;
and the arguments from the first word on, if reading stops there. -/
structure Scan where
  values : List (List Char × List Char) := []
  strays : Bool := false
  words : List String := []

/-- Takes the value of a parameter into a scan. -/
def Scan.take (s : Scan) (parameters : List Parameter) (name value : List Char) :
    Except Halt Scan :=
  match parameters.find? (·.name == name) with
  | some p => if p.accepts value then .ok { s with values := (name, value) :: s.values }
    else .error .usage
  | none => .error .usage

/-- Reads arguments in order. A word without an option ends the reading if `stopAtWord`, and is a
stray else. No command takes words of its own, so a divider is always wrong. -/
def scanPieces (parameters : List Parameter) (stopAtWord : Bool) (s : Scan) :
    List (String × Piece) → Except Halt Scan
  | [] => .ok s
  | (arg, .word) :: rest =>
    if stopAtWord then .ok { s with words := arg :: rest.map (·.1) }
    else scanPieces parameters stopAtWord { s with strays := true } rest
  | (_, .divider) :: _ => .error .usage
  | (_, .unknown) :: rest => scanPieces parameters stopAtWord { s with strays := true } rest
  | (_, .option name (some value)) :: rest => do
    scanPieces parameters stopAtWord (← s.take parameters name value) rest
  | (_, .option name none) :: rest =>
    if name = helpName then .error .help
    else match rest with
      | (value, .word) :: rest => do
        scanPieces parameters stopAtWord (← s.take parameters name value.toList) rest
      | _ => .error .usage

/-- The options among the arguments. -/
def scan (parameters : List Parameter) (stopAtWord : Bool) (args : List String) :
    Except Halt Scan := do
  let pieces ← classifyAll (helpName :: parameters.map (·.name)) args
  scanPieces parameters stopAtWord {} pieces

/-- The value of an option. -/
def Scan.value? (s : Scan) (name : List Char) : Option (List Char) :=
  (s.values.find? (·.1 == name)).map (·.2)

end Proposals.CommandLine
