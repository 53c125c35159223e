import Proposals.Table
import Proposals.Text.Blank
import Proposals.Text.Quoted
import Proposals.Text.Utf8

/-!
# `Proposals.Settings.EnvFile` — files of assignments

Each line assigns a value to a name: `NAME=value`, with an optional `export` in front. A value may
stand in quotes, and then run over several lines; else it ends with the line or with a comment. A
name in braces behind a dollar sign stands for the value of that name. Lines that break these rules
are passed over.

## Contents
- `lines`: the text as it is read.
- `takeBinding`: one line.
- `bindings`: all assignments of a file, as they stand.
- `expand`: names in values.
- `assignments`: the names of a file and their values.
-/

namespace Proposals.Settings.EnvFile

open Proposals.Text

/-! ## Lines -/

/-- The text with a line feed for every end of a line. -/
def unifyLineEnds : List Char → List Char
  | [] => []
  | '\r' :: '\n' :: rest => '\n' :: unifyLineEnds rest
  | '\r' :: rest => '\n' :: unifyLineEnds rest
  | c :: rest => c :: unifyLineEnds rest

/-- The text of a file as it is read: without a mark in front, and with line feeds between lines. -/
def lines (cs : List Char) : List Char := unifyLineEnds (dropOrderMark cs)

/-- Whether the character is a blank inside a line. -/
def isInnerBlank (c : Char) : Bool := isBlank c && c != '\n'

/-- The text without the blanks of its line in front. -/
def skip (cs : List Char) : List Char := cs.dropWhile isInnerBlank

/-- The text behind the end of its first line. -/
def skipLine (cs : List Char) : List Char := (cs.dropWhile (· != '\n')).drop 1

/-! ## One line -/

/-- The text behind the word `export`, if blanks follow it. -/
def dropExport (cs : List Char) : List Char :=
  if "export".toList.isPrefixOf cs then
    match cs.drop 6 with
    | c :: rest => if isInnerBlank c then skip rest else cs
    | [] => cs
  else cs

/-- The name at the front; a comment has none. -/
def takeName (cs : List Char) : Except (List Char) (Option (List Char) × List Char) :=
  match cs with
  | [] => .error cs
  | c :: rest =>
    if c == '#' then .ok (none, cs)
    else if c == singleQuote then
      let name := rest.takeWhile (· != singleQuote)
      match rest.dropWhile (· != singleQuote) with
      | _ :: rest => if name.isEmpty then .error cs else .ok (some name, rest)
      | [] => .error cs
    else
      let inName := fun c => c != '=' && c != '#' && !isBlank c
      if inName c then .ok (some (cs.takeWhile inName), cs.dropWhile inName) else .error cs

/-- The characters that an escape in double quotes can name. -/
def doubleEscapes : List (Char × Char) :=
  [(backslash, backslash), (singleQuote, singleQuote), (doubleQuote, doubleQuote),
    ('a', Char.ofNat 7), ('b', Char.ofNat 8), ('f', Char.ofNat 12), ('n', '\n'), ('r', '\r'),
    ('t', '\t'), ('v', Char.ofNat 11)]

/-- The characters that an escape in single quotes can name. -/
def singleEscapes : List (Char × Char) :=
  [(backslash, backslash), (singleQuote, singleQuote)]

/-- The text up to the closing mark, with its escapes replaced, and the text behind the mark. A
backslash takes the next character with it, whether or not the two are an escape. -/
def takeQuoted (mark : Char) (escapes : List (Char × Char)) :
    List Char → Option (List Char × List Char)
  | [] => none
  | [c] => if c == mark then some ([], []) else none
  | c :: e :: rest =>
    if c == mark then some ([], e :: rest)
    else if c == backslash then
      (takeQuoted mark escapes rest).map fun (inner, after) =>
        (match Table.find? e escapes with
          | some d => d :: inner
          | none => c :: e :: inner, after)
    else (takeQuoted mark escapes (e :: rest)).map fun (inner, after) => (c :: inner, after)

/-- The line without a comment, which begins behind a blank. -/
def dropComment : List Char → List Char
  | [] => []
  | c :: rest =>
    if isBlank c && (rest.dropWhile isBlank).head? == some '#' then [] else c :: dropComment rest

/-- The value at the front: a text in quotes, or the line as far as a comment. -/
def takeValue (cs : List Char) : Except (List Char) (List Char × List Char) :=
  let quotedBy := fun mark escapes =>
    match takeQuoted mark escapes ((skip cs).drop 1) with
    | some result => .ok result
    | none => .error cs
  if (skip cs).head? == some singleQuote then quotedBy singleQuote singleEscapes
  else if (skip cs).head? == some doubleQuote then quotedBy doubleQuote doubleEscapes
  else .ok (strip (dropComment (cs.takeWhile (· != '\n'))), cs.dropWhile (· != '\n'))

/-- Checks that nothing but a comment is left of a line, and leaves the line. -/
def endLine (cs : List Char) : Except (List Char) (List Char) :=
  let rest := match skip cs with
    | '#' :: rest => rest.dropWhile (· != '\n')
    | rest => rest
  match rest with
  | [] => .ok []
  | c :: after => if c == '\n' then .ok after else .error rest

/-- One assignment: a name with its value, if it has one. -/
abbrev Binding := List Char × Option (List Char)

/-- A line with its assignment; a broken line ends where it breaks. -/
def readBinding (cs : List Char) : Except (List Char) (Option Binding × List Char) := do
  let (name, rest) ← takeName (dropExport cs)
  let rest := skip rest
  let (value, rest) ← match rest with
    | '=' :: rest => do
      let (value, rest) ← takeValue rest
      pure (some value, rest)
    | rest => pure (none, rest)
  let rest ← endLine rest
  return (name.map fun name => (name, value), rest)

/-- The assignment at the front, and the text behind its line. -/
def takeBinding (cs : List Char) : Option Binding × List Char :=
  match readBinding cs with
  | .ok result => result
  | .error rest => (none, skipLine rest)

/-! ## Whole files -/

/-- The assignments of a text, with a bound on their number. -/
def bindingsFrom : Nat → List Char → List Binding
  | 0, _ => []
  | fuel + 1, cs =>
    match cs.dropWhile isBlank with
    | [] => []
    | cs =>
      let (binding, rest) := takeBinding cs
      binding.toList ++ bindingsFrom fuel rest

/-- The assignments of a text. Every line takes a character, so the length bounds their number. -/
def bindings (cs : List Char) : List Binding := bindingsFrom cs.length cs

/-- Values by name; a name may stand without a value. -/
abbrev Scope := List (List Char × Option (List Char))

/-- The value of a name: none, or no such name, count as what is given instead. -/
def valueIn (scope : Scope) (name default : List Char) : List Char :=
  match Table.find? name scope with
  | some value => value.getD []
  | none => default

/-- The opening brace. -/
def openBrace : Char := Char.ofNat 0x7b

/-- The closing brace. -/
def closeBrace : Char := Char.ofNat 0x7d

/-- A name behind its opening brace, with what stands for it if it has no value, and the text behind
the closing brace. -/
def takeReference (cs : List Char) : Option ((List Char × List Char) × List Char) :=
  let inName := fun c => c != closeBrace && c != ':'
  let name := cs.takeWhile inName
  match cs.dropWhile inName with
  | ':' :: '-' :: rest =>
    match rest.dropWhile (· != closeBrace) with
    | _ :: after => some ((name, rest.takeWhile (· != closeBrace)), after)
    | [] => none
  | c :: after => if c == closeBrace then some ((name, []), after) else none
  | [] => none

/-- A value with the names in it replaced, with a bound on its length. -/
def expandFrom (scope : Scope) : Nat → List Char → List Char
  | 0, cs => cs
  | _, [] => []
  | fuel + 1, c :: rest =>
    if c == '$' && rest.head? == some openBrace then
      match takeReference (rest.drop 1) with
      | some ((name, default), after) => valueIn scope name default ++ expandFrom scope fuel after
      | none => c :: expandFrom scope fuel rest
    else c :: expandFrom scope fuel rest

/-- A value with the names in it replaced. -/
def expand (scope : Scope) (cs : List Char) : List Char := expandFrom scope cs.length cs

/-- The names assigned in turn, each value expanded by those before it and the surroundings. -/
def assign (outer : Scope) (assigned : Scope) : List Binding → Scope
  | [] => assigned
  | (name, value) :: rest =>
    let value := value.map (expand (assigned ++ outer))
    assign outer (Table.insert name value assigned) rest

/-- The names of a file and their values, given the surroundings. -/
def assignments (env : List (String × String)) (text : String) : List (String × Option String) :=
  let outer : Scope := env.map fun (name, value) => (name.toList, some value.toList)
  (assign outer [] (bindings (lines text.toList))).map fun (name, value) =>
    (String.ofList name, value.map String.ofList)

end Proposals.Settings.EnvFile
