import Proposals.Text.Uppercase

/-!
# `Proposals.Kind` — the closed lists of currencies, transactions and actions

## Contents
- `Currency`: what amounts are counted in, with its symbol and number of decimal places.
- `TransactionKind`: the thirteen kinds of readable transactions, with their tags.
- `ActionKind`: the five kinds of actions, with their tags.
- `ofTag?`: the kind with a tag.
-/

namespace Proposals

open Proposals.Text

/-- The currencies that amounts are given in. -/
inductive Currency where
  | eth
  | weth
  | usdc
deriving DecidableEq, Repr

namespace Currency

/-- Every currency, in the order of declaration. -/
def all : List Currency := [.eth, .weth, .usdc]

/-- The symbol in small letters. -/
def symbol : Currency → String
  | .eth => "eth"
  | .weth => "weth"
  | .usdc => "usdc"

/-- How many decimal places one whole unit has. -/
def decimals : Currency → Nat
  | .eth => 18
  | .weth => 18
  | .usdc => 6

/-- The currency with the given symbol in small letters. -/
def ofSymbol? (s : String) : Option Currency := all.find? (·.symbol == s)

end Currency

/-- The kinds of readable transactions. -/
inductive TransactionKind where
  | payerTopUp
  | transfer
  | usdcTransferViaPayer
  | usdcApproval
  | wethDeposit
  | wethTransfer
  | wethApproval
  | stream
  | treasuryNounTransfer
  | unparsedPayableFunctionCall
  | unparsedFunctionCall
  | payableFunctionCall
  | functionCall
deriving DecidableEq, Repr

namespace TransactionKind

/-- Every kind, in the order of declaration. -/
def all : List TransactionKind :=
  [.payerTopUp, .transfer, .usdcTransferViaPayer, .usdcApproval, .wethDeposit, .wethTransfer,
    .wethApproval, .stream, .treasuryNounTransfer, .unparsedPayableFunctionCall,
    .unparsedFunctionCall, .payableFunctionCall, .functionCall]

/-- The tag of the kind in documents. -/
def tag : TransactionKind → String
  | .payerTopUp => "payer-top-up"
  | .transfer => "transfer"
  | .usdcTransferViaPayer => "usdc-transfer-via-payer"
  | .usdcApproval => "usdc-approval"
  | .wethDeposit => "weth-deposit"
  | .wethTransfer => "weth-transfer"
  | .wethApproval => "weth-approval"
  | .stream => "stream"
  | .treasuryNounTransfer => "treasury-noun-transfer"
  | .unparsedPayableFunctionCall => "unparsed-payable-function-call"
  | .unparsedFunctionCall => "unparsed-function-call"
  | .payableFunctionCall => "payable-function-call"
  | .functionCall => "function-call"

/-- The kind with the given tag. -/
def ofTag? (s : String) : Option TransactionKind := all.find? (·.tag == s)

end TransactionKind

/-- The kinds of actions. -/
inductive ActionKind where
  | oneTimePayment
  | streamingPayment
  | payerTopUp
  | treasuryNounTransfer
  | customTransaction
deriving DecidableEq, Repr

namespace ActionKind

/-- Every kind, in the order of declaration. -/
def all : List ActionKind :=
  [.oneTimePayment, .streamingPayment, .payerTopUp, .treasuryNounTransfer, .customTransaction]

/-- The tag of the kind in documents. -/
def tag : ActionKind → String
  | .oneTimePayment => "one-time-payment"
  | .streamingPayment => "streaming-payment"
  | .payerTopUp => "payer-top-up"
  | .treasuryNounTransfer => "treasury-noun-transfer"
  | .customTransaction => "custom-transaction"

/-- The kind with the given tag. -/
def ofTag? (s : String) : Option ActionKind := all.find? (·.tag == s)

end ActionKind

/-! ## Spellings of a tag in messages -/

/-- The words of a tag, which hyphens separate. -/
def tagWords (tag : String) : List (List Char) :=
  tag.toList.foldr
    (fun c words => match words with
      | [] => [[c]]
      | w :: ws => if c == '-' then [] :: w :: ws else (c :: w) :: ws) [[]]

/-- The tag in capital letters with underscores for hyphens. -/
def constantCase (tag : String) : String :=
  String.ofList ((uppercase tag.toList).map fun c => if c == '-' then '_' else c)

/-- The words of the tag, each with a capital letter, written together. -/
def camelCase (tag : String) : String :=
  String.ofList ((tagWords tag).flatMap fun w => match w with
    | [] => []
    | c :: rest => c.toUpper :: rest)

end Proposals
