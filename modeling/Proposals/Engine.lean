import Proposals.Handler

/-!
# `Proposals.Engine` — decomposing proposals and encoding actions

An engine has lists of codecs and handlers, tried in order, and a registry. It reads the raw
transactions of a proposal, recovers actions from them, and goes the way back. What no handler
claims becomes one bundle at the end.

## Contents
- `Engine`, `Engine.make`: no kind may be registered twice.
- `parse`, `unparse`: raw and readable transactions.
- `buildActions`, `resolveAll`: readable transactions and actions.
- `decompose`, `encode`: both steps.
- `LogLine`: what is reported on the way.
-/

namespace Proposals

open Proposals.Codec Proposals.Handler Proposals.Number

/-- A line of the log. -/
structure LogLine where
  level : String
  message : String

/-- The lines logged on the way to a result. -/
abbrev Log := List LogLine

/-- The lists of codecs and handlers in order, and the registry. -/
structure Engine where
  codecs : List TransactionKind
  handlers : List ActionKind
  registry : Registry

namespace Engine

/-- The first entry that stands in the list a second time. -/
def firstDuplicate? {α : Type} [DecidableEq α] (seen : List α) : List α → Option α
  | [] => none
  | a :: rest => if a ∈ seen then some a else firstDuplicate? (a :: seen) rest

/-- The engine with the given lists, each without repetition. -/
def make (codecs : List TransactionKind) (handlers : List ActionKind) (registry : Registry) :
    Outcome Engine :=
  match firstDuplicate? [] codecs with
  | some kind => .error (.registration (.codec kind))
  | none =>
    match firstDuplicate? [] handlers with
    | some kind => .error (.registration (.handler kind))
    | none => .ok ⟨codecs, handlers, registry⟩

/-- The engine with all codecs and handlers. -/
def standard (registry : Registry) : Engine := ⟨defaultCodecs, defaultHandlers, registry⟩

/-- The surroundings of a codec. -/
def context (e : Engine) (chain : Int) : Context := ⟨chain, e.registry⟩

/-! ## Raw and readable transactions -/

/-- The first of the codecs that reads the raw transaction, with what it reads. -/
def firstParsed (ctx : Context) (raw : RawTransaction) :
    List TransactionKind → Outcome (TransactionKind × Transaction)
  | [] => .error (.unrecognized (.raw raw.target raw.signature))
  | kind :: rest => do
    match ← parseAs kind ctx raw with
    | some t => return (kind, t)
    | none => firstParsed ctx raw rest

/-- The readable form of a raw transaction. -/
def parseOne (e : Engine) (chain : Int) (raw : RawTransaction) : Outcome (Transaction × Log) := do
  let (kind, t) ← firstParsed (e.context chain) raw e.codecs
  return (t, [⟨"DEBUG", "Parsed transaction to " ++ raw.target.display ++ " as " ++ kind.tag⟩])

/-- The readable forms of raw transactions. -/
def parse (e : Engine) (chain : Int) : List RawTransaction → Outcome (List Transaction × Log)
  | [] => .ok ([], [])
  | raw :: rest => do
    let (t, line) ← e.parseOne chain raw
    let (ts, lines) ← e.parse chain rest
    return (t :: ts, line ++ lines)

/-- The raw form of a transaction, whose kind must be registered. -/
def unparseOne (e : Engine) (chain : Int) (t : Transaction) : Outcome RawTransaction :=
  match t.kind? with
  | some kind =>
    if kind ∈ e.codecs then unparseAs kind (e.context chain) t
    else .error (.unrecognized (.transaction (some kind)))
  | none => .error (.unrecognized (.transaction none))

/-- The raw forms of transactions. -/
def unparse (e : Engine) (chain : Int) (ts : List Transaction) : Outcome (List RawTransaction) :=
  ts.mapM (e.unparseOne chain)

/-! ## Readable transactions and actions -/

/-- The first of the handlers that builds an action from the pool. -/
def firstBuilt (pool : List Transaction) :
    List ActionKind → Outcome (Option (ActionKind × Built))
  | [] => .ok none
  | kind :: rest => do
    match ← buildAs kind pool with
    | some built => return some (kind, built)
    | none => firstBuilt pool rest

/-- The number of transactions as a text. -/
def countText (ts : List Transaction) : String := String.ofList (natText ts.length)

/-- Takes actions out of the pool, at most `fuel` of them, beginning with the first handler each
time. Gives the actions and what is left. -/
def takeActions (handlers : List ActionKind) :
    Nat → List Transaction → Outcome ((List Action × List Transaction) × Log)
  | 0, pool => .ok (([], pool), [])
  | fuel + 1, pool => do
    if pool.isEmpty then return (([], []), [])
    match ← firstBuilt pool handlers with
    | none => return (([], pool), [])
    | some (kind, a, left) =>
      let line : LogLine :=
        ⟨"DEBUG", "Handler " ++ kind.tag ++ " matched; " ++ countText left ++
          " transactions remain"⟩
      let ((actions, left), lines) ← takeActions handlers fuel left
      return ((a :: actions, left), line :: lines)

/-- The actions of a pool of transactions. Every action takes a transaction out of the pool, so its
size bounds their number. -/
def buildActions (e : Engine) (pool : List Transaction) : Outcome (List Action × Log) := do
  let ((actions, left), lines) ← takeActions e.handlers pool.length pool
  if left.isEmpty then return (actions, lines)
  else
    let line : LogLine :=
      ⟨"INFO", "Wrapping " ++ countText left ++
        " unrecognized transactions as a custom transaction"⟩
    return (actions ++ [.customTransaction left], lines ++ [line])

/-- The transactions of an action, whose kind must be registered. -/
def resolveOne (e : Engine) (a : Action) : Outcome (List Transaction) :=
  match a.kind? with
  | some kind =>
    if kind ∈ e.handlers then resolveAs kind a
    else .error (.unrecognized (.action (some kind)))
  | none => .error (.unrecognized (.action none))

/-- The transactions of actions, in order. -/
def resolveAll (e : Engine) : List Action → Outcome (List Transaction)
  | [] => .ok []
  | a :: rest => do
    let ts ← e.resolveOne a
    let us ← e.resolveAll rest
    return ts ++ us

/-! ## Both steps -/

/-- The actions of raw transactions. -/
def decompose (e : Engine) (chain : Int) (raws : List RawTransaction) :
    Outcome (List Action × Log) := do
  let (ts, parsing) ← e.parse chain raws
  let (actions, building) ← e.buildActions ts
  let line : LogLine :=
    ⟨"DEBUG", "Decomposed " ++ countText ts ++ " transactions into " ++
      String.ofList (natText actions.length) ++ " actions on chain " ++
      String.ofList (intText chain)⟩
  return (actions, parsing ++ building ++ [line])

/-- The raw transactions of actions. -/
def encode (e : Engine) (chain : Int) (actions : List Action) : Outcome (List RawTransaction) := do
  e.unparse chain (← e.resolveAll actions)

end Engine

end Proposals
