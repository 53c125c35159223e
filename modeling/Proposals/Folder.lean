import Proposals.Fault

/-!
# `Proposals.Folder` — texts by path

A path is a list of names between slashes; empty names and single dots are left out, and two dots
go up. A folder holds texts under paths; nothing is known of what lies outside it.

## Contents
- `Path.parts`, `Path.normal`: the names in a path, and its normal form.
- `Folder`, `Folder.read`: the text at a path.
-/

namespace Proposals

/-! ## Paths -/

namespace Path

/-- The pieces of a text between slashes, empty ones included. -/
def pieces : List Char → List (List Char)
  | [] => [[]]
  | c :: rest =>
    if c = '/' then [] :: pieces rest
    else match pieces rest with
      | [] => [[c]]
      | piece :: more => (c :: piece) :: more

/-- The names in a path. -/
def parts (path : List Char) : List (List Char) :=
  (pieces path).filter fun piece => piece ≠ [] && piece ≠ ['.']

/-- The slashes in front of a path that do not begin in the folder. Just two of them are kept
apart from one. -/
def root (path : List Char) : List Char :=
  match path.takeWhile (· == '/') with
  | [] => []
  | ['/', '/'] => ['/', '/']
  | _ => ['/']

/-- Names with slashes between them. -/
def join : List (List Char) → List Char
  | [] => []
  | [name] => name
  | name :: rest => name ++ '/' :: join rest

/-- A path without the names that change nothing; a single dot if no name is left. -/
def normal (path : String) : String :=
  match root path.toList ++ join (parts path.toList) with
  | [] => "."
  | cs => String.ofList cs

end Path

/-! ## Folders -/

/-- Texts by path. -/
abbrev Folder := List (String × String)

namespace Folder

/-- Where a walk stands: in the folder below the given names, or outside of it. -/
inductive Place where
  | inside (names : List (List Char))
  | outside

/-- The text whose path has the given names. -/
def textAt? (folder : Folder) (names : List (List Char)) : Option String :=
  (folder.find? fun entry => Path.parts entry.1.toList == names).map (·.2)

/-- Whether a path leads through the given names. -/
def hasFolder (folder : Folder) (names : List (List Char)) : Bool :=
  folder.any fun entry =>
    let path := Path.parts entry.1.toList
    names.isPrefixOf path && names.length < path.length

/-- The longest name in bytes. -/
def maxName : Nat := 255

/-- The text at the end of a walk along the names of `path`. -/
def walk (folder : Folder) (path : String) : Place → List (List Char) → Outcome String
  | _, [] => .error (.file (.isDirectory path))
  | place, name :: rest =>
    if maxName < (String.ofList name).utf8ByteSize then .error (.file (.nameTooLong path))
    else if name = ['.', '.'] then
      match place with
      | .inside (n :: ns) => walk folder path (.inside (n :: ns).dropLast) rest
      | _ => walk folder path .outside rest
    else match place with
      | .outside => .error (.file (.notFound path))
      | .inside names =>
        let names := names ++ [name]
        match folder.textAt? names with
        | some text => if rest.isEmpty then .ok text else .error (.file (.notDirectory path))
        | none =>
          if folder.hasFolder names then walk folder path (.inside names) rest
          else .error (.file (.notFound path))

/-- The text at a path in normal form. -/
def read (folder : Folder) (path : String) : Outcome String :=
  let cs := path.toList
  if cs.contains (Char.ofNat 0) then .error (.data .badValue)
  else walk folder path (if (Path.root cs).isEmpty then .inside [] else .outside) (Path.parts cs)

end Folder

end Proposals
