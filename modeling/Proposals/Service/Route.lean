import Proposals.Folder
import Proposals.Text.Hex
import Proposals.Text.Utf8

/-!
# `Proposals.Service.Route` — what a request is for

A path is matched name by name, without its query and with its escapes replaced. Slashes at its end
are dropped if it matches nothing else.

## Contents
- `Route`, `Route.ofPath?`: the routes, and the one of a path.
- `Route.method`: the method that a route answers.
-/

namespace Proposals.Service

open Proposals.Text

/-- What a request can be for. -/
inductive Route where
  | status
  | contracts (chain : List Char)
  | decode
  | encode
deriving DecidableEq, Repr

namespace Route

/-- The method that the route answers. -/
def method : Route → String
  | .status => "GET"
  | .contracts _ => "GET"
  | .decode => "POST"
  | .encode => "POST"

/-- The route of a list of names. -/
def ofNames? : List String → Option Route
  | ["", "api", "status"] => some .status
  | ["", "api", "contracts", chain] =>
    if chain.isEmpty then none else some (.contracts chain.toList)
  | ["", "api", "decode"] => some .decode
  | ["", "api", "encode"] => some .encode
  | _ => none

/-- The bytes of a path, where a percent sign with two digits of base sixteen stands for one. -/
def pathBytes : List Char → List UInt8
  | '%' :: a :: b :: rest =>
    match hexValue? a, hexValue? b with
    | some high, some low => UInt8.ofNat (16 * high + low) :: pathBytes rest
    | _, _ => utf8Bytes "%" ++ pathBytes (a :: b :: rest)
  | c :: rest => utf8Bytes (String.singleton c) ++ pathBytes rest
  | [] => []

/-- The path in front of its query, with escapes replaced. -/
def plainPath (path : List Char) : List Char :=
  let bare := path.takeWhile fun c => c != '?' && c != '#'
  match ofUtf8? (pathBytes bare) with
  | some text => text.toList
  | none => bare

/-- The route of a path without query and escapes. -/
def ofPlainPath? (path : List Char) : Option Route :=
  ofNames? ((Path.pieces path).map String.ofList)

/-- The path without slashes at its end. -/
def dropSlashes (path : List Char) : List Char := (path.reverse.dropWhile (· == '/')).reverse

/-- The route of a path. -/
def ofPath? (path : List Char) : Option Route :=
  let path := plainPath path
  (ofPlainPath? path).orElse fun _ => ofPlainPath? (dropSlashes path)

end Route

end Proposals.Service
