import Proposals.Action
import Proposals.Amount
import Proposals.Codec

/-!
# `Proposals.Handler` — actions from transactions and back

Each kind of action has a handler. Resolving an action gives its transactions in order. Building
looks for those transactions anywhere in a pool, takes them out and gives the action with the rest
of the pool; a bundle is never built.

## Contents
- `resolveAs`: the transactions of an action.
- `splitFirst`: the first transaction that passes a test.
- `Built`, `buildAs`: an action from a pool.
- `transactionKinds`, `builds`, `defaultHandlers`.
-/

namespace Proposals.Handler

open Proposals.Amount Proposals.Codec

/-! ## Resolving -/

/-- The currency of an action, which must be one of those supported. -/
def supportedCurrency (a : Action) (supported : List Currency) : Outcome Currency := do
  let given ← a.field "currency"
  match given.currency? with
  | some c =>
    if supported.contains c then return c
    else throw (.variant (.currency (← a.kind) given))
  | none => throw (.variant (.currency (← a.kind) given))

/-- A payment is a transfer of ether, or stablecoin sent by the payer. -/
def resolveOneTimePayment (a : Action) : Outcome (List Transaction) := do
  let currency ← supportedCurrency a [.eth, .usdc]
  let units ← parseUnits (← a.field "amount") currency.decimals
  let target ← addressOf (← a.field "target")
  return if currency = .eth then [.transfer target (.int units)]
    else [.usdcTransferViaPayer target (.int units)]

/-- The transactions that fund a stream contract: stablecoin comes from the payer, ether is wrapped
before it is sent. -/
def fundingOf (currency : Currency) (contract units : Value) : List Transaction :=
  if currency = .usdc then [.usdcTransferViaPayer contract units]
  else [.wethDeposit units, .wethTransfer contract units]

/-- A streaming payment creates the stream and then funds it. -/
def resolveStreamingPayment (a : Action) : Outcome (List Transaction) := do
  let currency ← supportedCurrency a [.usdc, .weth]
  let units ← parseUnits (← a.field "amount") currency.decimals
  let contract ← addressOf (← a.field "stream_contract_address")
  let receiver ← addressOf (← a.field "target")
  let start ← (← a.field "start_timestamp").toInteger
  let stop ← (← a.field "end_timestamp").toInteger
  let nonce ← (← a.field "nonce").toInteger
  return .stream ⟨receiver, .currency currency, .int units, .int start, .int stop, contract,
    .int nonce⟩ :: fundingOf currency contract (.int units)

/-- A top-up of the payer is one transaction. -/
def resolvePayerTopUp (a : Action) : Outcome (List Transaction) := do
  let units ← parseUnits (← a.field "amount") Currency.eth.decimals
  return [.payerTopUp (.int units)]

/-- The transfer of a noun is one transaction. -/
def resolveTreasuryNounTransfer (a : Action) : Outcome (List Transaction) := do
  let nounId ← a.field "noun_id"
  match nounId with
  | .int n =>
    if n < 0 then throw (.variant .nounNegative)
    return [.treasuryNounTransfer (← addressOf (← a.field "target")) nounId]
  | _ => throw (.variant .nounNotInteger)

/-- The transactions of an action, by the handler of the given kind. -/
def resolveAs : ActionKind → Action → Outcome (List Transaction)
  | .oneTimePayment => resolveOneTimePayment
  | .streamingPayment => resolveStreamingPayment
  | .payerTopUp => resolvePayerTopUp
  | .treasuryNounTransfer => resolveTreasuryNounTransfer
  | .customTransaction => Action.bundle

/-! ## Building -/

/-- A transaction of a pool with those before and after it. -/
abbrev Split := List Transaction × Transaction × List Transaction

/-- The first transaction of a pool that passes the test. -/
def splitFirst (test : Transaction → Outcome Bool) : List Transaction → Outcome (Option Split)
  | [] => .ok none
  | t :: rest => do
    if ← test t then return some ([], t, rest)
    else
      let found ← splitFirst test rest
      return found.map fun (before, found, after) => (t :: before, found, after)

/-- Whether the transaction has the kind. -/
def isOfKind (kind : TransactionKind) (t : Transaction) : Outcome Bool := do
  return (← t.kind) = kind

/-- An action with the rest of the pool. -/
abbrev Built := Action × List Transaction

/-- The first transaction of a kind, and the pool without it. -/
def takeFirst (kind : TransactionKind) (pool : List Transaction) :
    Outcome (Option (Transaction × List Transaction)) := do
  let found ← splitFirst (isOfKind kind) pool
  return found.map fun (before, t, after) => (t, before ++ after)

/-- The written amount of a value in a currency. -/
def amountIn (currency : Currency) (units : Value) : Outcome Value :=
  (formatUnits units currency.decimals).map .text

/-- A payment from the first transfer, or else from the first sending of stablecoin. -/
def buildOneTimePayment (pool : List Transaction) : Outcome (Option Built) := do
  match ← takeFirst .transfer pool with
  | some (.transfer target value, rest) =>
    return some (.oneTimePayment target (.currency .eth) (← amountIn .eth value), rest)
  | _ =>
    match ← takeFirst .usdcTransferViaPayer pool with
    | some (.usdcTransferViaPayer receiver amount, rest) =>
      return some (.oneTimePayment receiver (.currency .usdc) (← amountIn .usdc amount), rest)
    | _ => return none

/-- Whether the payer sends the amount of the stream to its contract. -/
def paysStream (s : Stream) (t : Transaction) : Outcome Bool := do
  let _ ← t.kind
  match t with
  | .usdcTransferViaPayer receiver amount =>
    return receiver.same s.contract && amount.same s.amount
  | _ => return false

/-- Whether the amount of the stream is wrapped. -/
def wrapsForStream (s : Stream) (t : Transaction) : Outcome Bool := do
  let _ ← t.kind
  match t with
  | .wethDeposit value => return value.same s.amount
  | _ => return false

/-- Whether wrapped ether of the amount of the stream is sent to its contract. -/
def sendsToStream (s : Stream) (t : Transaction) : Outcome Bool := do
  let _ ← t.kind
  match t with
  | .wethTransfer receiver amount =>
    return receiver.same s.contract && amount.same s.amount
  | _ => return false

/-- The currency of a stream and what is left of the transactions after it when its funding is
taken out. -/
def takeFunding (s : Stream) (after : List Transaction) :
    Outcome (Option (Currency × List Transaction)) := do
  match s.token with
  | .currency .usdc =>
    let found ← splitFirst (paysStream s) after
    return found.map fun (before, _, rest) => (.usdc, before ++ rest)
  | .currency .weth =>
    match ← splitFirst (wrapsForStream s) after with
    | none => return none
    | some (before, _, rest) =>
      let found ← splitFirst (sendsToStream s) rest
      return found.map fun (between, _, rest) => (.weth, before ++ between ++ rest)
  | _ => return none

/-- The action of a funded stream. -/
def streamingPaymentOf (s : Stream) (currency : Currency) : Outcome Action := do
  let amount ← amountIn currency s.amount
  return .streamingPayment
    ⟨s.receiver, s.token, amount, s.start, s.stop, s.contract, s.nonce⟩

/-- A streaming payment from the first stream that is funded by transactions after it. -/
def buildStreamingPayment : List Transaction → Outcome (Option Built)
  | [] => .ok none
  | t :: rest => do
    let _ ← t.kind
    let funded ← match t with
      | .stream s => do
        match ← takeFunding s rest with
        | some (currency, left) => pure (some (← streamingPaymentOf s currency, left))
        | none => pure none
      | _ => pure none
    match funded with
    | some built => return some built
    | none =>
      let found ← buildStreamingPayment rest
      return found.map fun (a, left) => (a, t :: left)

/-- A top-up from the first top-up transaction. -/
def buildPayerTopUp (pool : List Transaction) : Outcome (Option Built) := do
  match ← takeFirst .payerTopUp pool with
  | some (.payerTopUp value, rest) => return some (.payerTopUp (← amountIn .eth value), rest)
  | _ => return none

/-- The transfer of a noun from the first transaction that is one. -/
def buildTreasuryNounTransfer (pool : List Transaction) : Outcome (Option Built) := do
  match ← takeFirst .treasuryNounTransfer pool with
  | some (.treasuryNounTransfer receiver nounId, rest) =>
    return some (.treasuryNounTransfer receiver nounId, rest)
  | _ => return none

/-- An action from a pool, by the handler of the given kind. -/
def buildAs : ActionKind → List Transaction → Outcome (Option Built)
  | .oneTimePayment => buildOneTimePayment
  | .streamingPayment => buildStreamingPayment
  | .payerTopUp => buildPayerTopUp
  | .treasuryNounTransfer => buildTreasuryNounTransfer
  | .customTransaction => fun _ => .ok none

/-- Whether the handler of the kind builds actions at all. -/
def builds (kind : ActionKind) : Bool := kind != .customTransaction

/-- The kinds of transactions that the actions of a kind stand for. -/
def transactionKinds : ActionKind → List TransactionKind
  | .oneTimePayment => [.transfer, .usdcTransferViaPayer]
  | .streamingPayment => [.stream, .usdcTransferViaPayer, .wethDeposit, .wethTransfer]
  | .payerTopUp => [.payerTopUp]
  | .treasuryNounTransfer => [.treasuryNounTransfer]
  | .customTransaction => TransactionKind.all

/-- The order in which handlers are tried: streams claim their funding before payments can. -/
def defaultHandlers : List ActionKind :=
  [.streamingPayment, .oneTimePayment, .payerTopUp, .treasuryNounTransfer, .customTransaction]

end Proposals.Handler
