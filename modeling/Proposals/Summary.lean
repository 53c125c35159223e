import Proposals.Action
import Proposals.Amount
import Proposals.Date

/-!
# `Proposals.Summary` — one sentence for a transaction or an action

## Contents
- `explain`: a transaction.
- `summarize`: an action.
-/

namespace Proposals.Summary

open Proposals.Amount Proposals.Date Proposals.Text

/-- An amount of ether, wrapped or not. -/
def ether (units : Value) : Outcome String := formatUnits units Currency.eth.decimals

/-- An amount of stablecoin. -/
def stablecoin (units : Value) : Outcome String := formatUnits units Currency.usdc.decimals

/-- The symbol of a currency in capital letters. -/
def symbol (v : Value) : String :=
  match v with
  | .currency c => String.ofList (uppercase c.symbol.toList)
  | v => String.ofList (uppercase v.display.toList)

/-- The currency of a stream. -/
def streamCurrency (token : Value) : Outcome Currency :=
  match token with
  | .currency c => .ok c
  | token => .error (.data (if token.isKey then .missingKey else .wrongKind))

/-- The sentence for a transaction. -/
def explain (t : Transaction) : Outcome String :=
  match t with
  | .transfer target value => do
    return "Transfer " ++ (← ether value) ++ " ETH to " ++ target.display
  | .payerTopUp value => do return "Top up the payer with " ++ (← ether value) ++ " ETH"
  | .usdcTransferViaPayer receiver amount => do
    return "Transfer " ++ (← stablecoin amount) ++ " USDC to " ++ receiver.display
  | .usdcApproval spender amount => do
    return "Approve " ++ spender.display ++ " to spend " ++ (← stablecoin amount) ++ " USDC"
  | .wethDeposit value => do
    return "Deposit " ++ (← ether value) ++ " ETH to the WETH contract"
  | .wethTransfer receiver amount => do
    return "Transfer " ++ (← ether amount) ++ " WETH to " ++ receiver.display
  | .wethApproval spender amount => do
    return "Approve " ++ spender.display ++ " to spend " ++ (← ether amount) ++ " WETH"
  | .stream s => do
    let currency ← streamCurrency s.token
    let amount ← formatUnits s.amount currency.decimals
    let start ← dateText s.start
    let stop ← dateText s.stop
    return "Stream " ++ amount ++ " " ++ symbol s.token ++ " to " ++ s.receiver.display ++
      " between " ++ start ++ " and " ++ stop
  | .treasuryNounTransfer receiver nounId =>
    .ok ("Transfer Noun " ++ nounId.display ++ " to " ++ receiver.display)
  | .functionCall call => .ok ("Function call to contract " ++ call.target.display)
  | .unparsedFunctionCall target _ => .ok ("Function call to contract " ++ target.display)
  | .payableFunctionCall call value => do
    return (← ether value) ++ " ETH payable function call to contract " ++ call.target.display
  | .unparsedPayableFunctionCall target _ value => do
    return (← ether value) ++ " ETH payable function call to contract " ++ target.display
  | .foreign => .error (.unrecognized (.transaction none))

/-- The sentence for an action. -/
def summarize (a : Action) : Outcome String :=
  match a with
  | .oneTimePayment target currency amount =>
    .ok ("Transfer " ++ amount.display ++ " " ++ symbol currency ++ " to " ++ target.display)
  | .streamingPayment p => do
    let start ← dateText p.start
    let stop ← dateText p.stop
    return "Stream " ++ p.amount.display ++ " " ++ symbol p.currency ++ " to " ++
      p.target.display ++ " between " ++ start ++ " and " ++ stop
  | .payerTopUp amount => .ok ("Top up the payer with " ++ amount.display ++ " ETH")
  | .treasuryNounTransfer target nounId =>
    .ok ("Transfer Noun " ++ nounId.display ++ " to " ++ target.display)
  | .customTransaction [t] => explain t
  | .customTransaction ts =>
    .ok ("Custom transaction bundle (" ++ String.ofList (Number.natText ts.length) ++
      " transactions)")
  | .foreign => .error (.unrecognized (.action none))

end Proposals.Summary
