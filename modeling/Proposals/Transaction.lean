import Proposals.Fault

/-!
# `Proposals.Transaction` — readable transactions

A readable transaction says what a raw one does. Each kind has its own fields, whose content is
unchecked. Some operations read a field by name, whatever the kind.

## Contents
- `Transaction`: the type.
- `kind?`, `fields`, `field`: its kind and its fields by name.
- `fieldNames`, `ofFields?`: a transaction from named fields.
-/

namespace Proposals

/-- The stream of a token from a start to an end, paid out by a contract of its own. -/
structure Stream where
  receiver : Value
  token : Value
  amount : Value
  start : Value
  stop : Value
  contract : Value
  nonce : Value := .int 0

/-- A call of a function with typed inputs. -/
structure FunctionCall where
  target : Value
  name : Value
  inputs : Value
  inputTypes : Value

/-- What a raw transaction does. A foreign object is no transaction of any kind. -/
inductive Transaction where
  | payerTopUp (value : Value)
  | transfer (target value : Value)
  | usdcTransferViaPayer (receiver amount : Value)
  | usdcApproval (spender amount : Value)
  | wethDeposit (value : Value)
  | wethTransfer (receiver amount : Value)
  | wethApproval (spender amount : Value)
  | stream (s : Stream)
  | treasuryNounTransfer (receiver nounId : Value)
  | unparsedPayableFunctionCall (target calldata value : Value)
  | unparsedFunctionCall (target calldata : Value)
  | payableFunctionCall (call : FunctionCall) (value : Value)
  | functionCall (call : FunctionCall)
  | foreign

namespace Transaction

/-- The kind of a transaction. -/
def kind? : Transaction → Option TransactionKind
  | .payerTopUp _ => some .payerTopUp
  | .transfer _ _ => some .transfer
  | .usdcTransferViaPayer _ _ => some .usdcTransferViaPayer
  | .usdcApproval _ _ => some .usdcApproval
  | .wethDeposit _ => some .wethDeposit
  | .wethTransfer _ _ => some .wethTransfer
  | .wethApproval _ _ => some .wethApproval
  | .stream _ => some .stream
  | .treasuryNounTransfer _ _ => some .treasuryNounTransfer
  | .unparsedPayableFunctionCall _ _ _ => some .unparsedPayableFunctionCall
  | .unparsedFunctionCall _ _ => some .unparsedFunctionCall
  | .payableFunctionCall _ _ => some .payableFunctionCall
  | .functionCall _ => some .functionCall
  | .foreign => none

/-- The fields of a call. -/
def callFields (call : FunctionCall) : List (String × Value) :=
  [("target", call.target), ("function_name", call.name), ("function_inputs", call.inputs),
    ("function_input_types", call.inputTypes)]

/-- The fields of a transaction, in order. -/
def fields : Transaction → List (String × Value)
  | .payerTopUp value => [("value", value)]
  | .transfer target value => [("target", target), ("value", value)]
  | .usdcTransferViaPayer receiver amount =>
    [("receiver_address", receiver), ("usdc_amount", amount)]
  | .usdcApproval spender amount => [("spender_address", spender), ("usdc_amount", amount)]
  | .wethDeposit value => [("value", value)]
  | .wethTransfer receiver amount => [("receiver_address", receiver), ("weth_amount", amount)]
  | .wethApproval spender amount => [("spender_address", spender), ("weth_amount", amount)]
  | .stream s =>
    [("receiver_address", s.receiver), ("token", s.token), ("token_amount", s.amount),
      ("start_timestamp", s.start), ("end_timestamp", s.stop),
      ("stream_contract_address", s.contract), ("nonce", s.nonce)]
  | .treasuryNounTransfer receiver nounId =>
    [("receiver_address", receiver), ("noun_id", nounId)]
  | .unparsedPayableFunctionCall target calldata value =>
    [("target", target), ("calldata", calldata), ("value", value)]
  | .unparsedFunctionCall target calldata => [("target", target), ("calldata", calldata)]
  | .payableFunctionCall call value => callFields call ++ [("value", value)]
  | .functionCall call => callFields call
  | .foreign => []

/-- The field with a name, which the kind of the transaction must have. -/
def field (t : Transaction) (name : String) : Outcome Value :=
  match Table.find? name t.fields with
  | some v => .ok v
  | none => .error (.data .missingPart)

/-- The kind of a transaction, which must have one. -/
def kind (t : Transaction) : Outcome TransactionKind :=
  match t.kind? with
  | some k => .ok k
  | none => .error (.data .missingPart)

/-- The call that named fields describe. -/
def callOf? (get : String → Option Value) : Option FunctionCall := do
  return { target := ← get "target", name := ← get "function_name",
           inputs := ← get "function_inputs", inputTypes := ← get "function_input_types" }

/-- The transaction of a kind with the given fields. The nonce of a stream may be left out. -/
def ofFields? (kind : TransactionKind) (get : String → Option Value) : Option Transaction := do
  match kind with
  | .payerTopUp => return .payerTopUp (← get "value")
  | .transfer => return .transfer (← get "target") (← get "value")
  | .usdcTransferViaPayer =>
    return .usdcTransferViaPayer (← get "receiver_address") (← get "usdc_amount")
  | .usdcApproval => return .usdcApproval (← get "spender_address") (← get "usdc_amount")
  | .wethDeposit => return .wethDeposit (← get "value")
  | .wethTransfer => return .wethTransfer (← get "receiver_address") (← get "weth_amount")
  | .wethApproval => return .wethApproval (← get "spender_address") (← get "weth_amount")
  | .stream =>
    return .stream
      { receiver := ← get "receiver_address", token := ← get "token",
        amount := ← get "token_amount", start := ← get "start_timestamp",
        stop := ← get "end_timestamp", contract := ← get "stream_contract_address",
        nonce := (get "nonce").getD (.int 0) }
  | .treasuryNounTransfer =>
    return .treasuryNounTransfer (← get "receiver_address") (← get "noun_id")
  | .unparsedPayableFunctionCall =>
    return .unparsedPayableFunctionCall (← get "target") (← get "calldata") (← get "value")
  | .unparsedFunctionCall => return .unparsedFunctionCall (← get "target") (← get "calldata")
  | .payableFunctionCall => return .payableFunctionCall (← callOf? get) (← get "value")
  | .functionCall => return .functionCall (← callOf? get)

end Transaction

namespace TransactionKind

/-- The fields that a transaction of the kind must have, in order. -/
def fieldNames : TransactionKind → List String
  | .payerTopUp => ["value"]
  | .transfer => ["target", "value"]
  | .usdcTransferViaPayer => ["receiver_address", "usdc_amount"]
  | .usdcApproval => ["spender_address", "usdc_amount"]
  | .wethDeposit => ["value"]
  | .wethTransfer => ["receiver_address", "weth_amount"]
  | .wethApproval => ["spender_address", "weth_amount"]
  | .stream =>
    ["receiver_address", "token", "token_amount", "start_timestamp", "end_timestamp",
      "stream_contract_address"]
  | .treasuryNounTransfer => ["receiver_address", "noun_id"]
  | .unparsedPayableFunctionCall => ["target", "calldata", "value"]
  | .unparsedFunctionCall => ["target", "calldata"]
  | .payableFunctionCall =>
    ["target", "function_name", "function_inputs", "function_input_types", "value"]
  | .functionCall => ["target", "function_name", "function_inputs", "function_input_types"]

/-- The fields that a transaction of the kind may lack. -/
def optionalNames : TransactionKind → List String
  | .stream => ["nonce"]
  | _ => []

/-- The name of the record of the kind in messages. -/
def recordName (kind : TransactionKind) : String := camelCase kind.tag ++ "Transaction"

end TransactionKind

end Proposals
