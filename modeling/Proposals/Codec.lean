import Proposals.Abi.Arguments
import Proposals.Transaction
import Proposals.Wire

/-!
# `Proposals.Codec` — reading raw transactions and writing them

Each kind of readable transaction has a codec. Reading gives nothing if the raw transaction does not
have the pattern of the kind, and a fault if it has the pattern but its arguments cannot be read.
Writing rebuilds the raw transaction; contracts are found in the registry of the chain.

## Contents
- `Context`: a chain and a registry.
- `matchesCall`, `decodeFor`, `encodeCall`: calls of well-known contracts.
- one `parse...` and one `unparse...` per kind.
- `parseAs`, `unparseAs`: the codec of a kind.
- `defaultCodecs`: the order in which codecs are tried.
-/

namespace Proposals.Codec

open Proposals.Abi

/-- The chain that transactions are for, and the contracts of all chains. -/
structure Context where
  chain : Int
  registry : Registry

/-- What reading a raw transaction gives: a transaction, nothing or a fault. -/
abbrev Parsed := Outcome (Option Transaction)

/-! ## Addresses and calls -/

/-- The address in normal form; only a text will do. -/
def addressOf (v : Value) : Outcome Value :=
  match v with
  | .text s =>
    match addressOfText? s with
    | some a => .ok (.text a)
    | none => .error (.malformed (.badAddress v))
  | _ => .error (.malformed (.badAddress v))

/-- Whether the raw transaction calls the function of a well-known contract. -/
def matchesCall (ctx : Context) (contract function : String) (raw : RawTransaction) :
    Outcome Bool := do
  match ctx.registry.lookup? ctx.chain contract with
  | none => return false
  | some c =>
    if !sameAddress raw.target (.text c.address) then return false
    let s ← c.signatureFor (.text function)
    signaturesMatch raw.signature (.text s.text)

/-- The arguments of a call that has the right signature. -/
def decodeFor (raw : RawTransaction) : Outcome (List Value) :=
  match decodeCall raw.signature raw.calldata with
  | .ok call => .ok call.inputs
  | .error (.abi cause) => .error (.malformed (.badCalldata raw.signature raw.target cause))
  | .error fault => .error fault

/-- The two arguments of a call that should have two. -/
def decodePair (raw : RawTransaction) : Outcome (Value × Value) := do
  match ← decodeFor raw with
  | [a, b] => return (a, b)
  | _ => throw (.data .badValue)

/-- The well-known contract with a name. -/
def Context.resolve (ctx : Context) (name : String) : Outcome Contract :=
  ctx.registry.resolve ctx.chain name

/-- The raw transaction that calls a function of a contract. -/
def encodeCall (c : Contract) (function : String) (arguments : List Value)
    (value : Value := .int 0) : Outcome RawTransaction := do
  let s ← c.signatureFor (.text function)
  match encodeArguments (s.types.map .text) arguments with
  | .ok calldata => return ⟨.text c.address, .text s.text, .text calldata, value⟩
  | .error (.abi cause) => throw (.malformed (.unencodableCall s.text cause))
  | .error fault => throw fault

/-! ## Native transfers -/

/-- A transfer to the token buyer tops up the payer. -/
def parsePayerTopUp (ctx : Context) (raw : RawTransaction) : Parsed :=
  match ctx.registry.lookup? ctx.chain "token-buyer" with
  | none => .ok none
  | some buyer =>
    if raw.isNativeTransfer && sameAddress raw.target (.text buyer.address) then
      .ok (some (.payerTopUp raw.value))
    else .ok none

/-- Writes a transfer to the token buyer. -/
def unparsePayerTopUp (ctx : Context) (t : Transaction) : Outcome RawTransaction := do
  let buyer ← ctx.resolve "token-buyer"
  return ⟨.text buyer.address, .text "", .text "0x", ← t.field "value"⟩

/-- A transaction without signature and calldata is a transfer. -/
def parseTransfer (_ : Context) (raw : RawTransaction) : Parsed := do
  if !raw.isNativeTransfer then return none
  return some (.transfer (← addressOf raw.target) raw.value)

/-- Writes a transfer. -/
def unparseTransfer (_ : Context) (t : Transaction) : Outcome RawTransaction := do
  return ⟨← t.field "target", .text "", .text "0x", ← t.field "value"⟩

/-! ## Stablecoin and wrapped ether -/

/-- A call of a function with a receiver and an amount, without value. -/
def parsePair (contract function : String) (make : Value → Value → Transaction) (ctx : Context)
    (raw : RawTransaction) : Parsed := do
  if !raw.value.isZero then return none
  if !(← matchesCall ctx contract function raw) then return none
  let (a, b) ← decodePair raw
  return some (make a b)

/-- Writes a call of a function with a receiver and an amount. -/
def unparsePair (contract function first second : String) (ctx : Context) (t : Transaction) :
    Outcome RawTransaction := do
  let c ← ctx.resolve contract
  encodeCall c function [← t.field first, ← t.field second]

/-- The payer sends stablecoin or registers a debt. -/
def parseUsdcTransferViaPayer : Context → RawTransaction → Parsed :=
  parsePair "payer" "sendOrRegisterDebt" .usdcTransferViaPayer

/-- Writes a call of the payer. -/
def unparseUsdcTransferViaPayer : Context → Transaction → Outcome RawTransaction :=
  unparsePair "payer" "sendOrRegisterDebt" "receiver_address" "usdc_amount"

/-- An approval of stablecoin. -/
def parseUsdcApproval : Context → RawTransaction → Parsed :=
  parsePair "usdc-token" "approve" .usdcApproval

/-- Writes an approval of stablecoin. -/
def unparseUsdcApproval : Context → Transaction → Outcome RawTransaction :=
  unparsePair "usdc-token" "approve" "spender_address" "usdc_amount"

/-- Ether is wrapped; the call may carry a value. -/
def parseWethDeposit (ctx : Context) (raw : RawTransaction) : Parsed := do
  if !(← matchesCall ctx "weth-token" "deposit" raw) then return none
  let _ ← decodeFor raw
  return some (.wethDeposit raw.value)

/-- Writes a deposit. -/
def unparseWethDeposit (ctx : Context) (t : Transaction) : Outcome RawTransaction := do
  let c ← ctx.resolve "weth-token"
  encodeCall c "deposit" [] (← t.field "value")

/-- A transfer of wrapped ether. -/
def parseWethTransfer : Context → RawTransaction → Parsed :=
  parsePair "weth-token" "transfer" .wethTransfer

/-- Writes a transfer of wrapped ether. -/
def unparseWethTransfer : Context → Transaction → Outcome RawTransaction :=
  unparsePair "weth-token" "transfer" "receiver_address" "weth_amount"

/-- An approval of wrapped ether. -/
def parseWethApproval : Context → RawTransaction → Parsed :=
  parsePair "weth-token" "approve" .wethApproval

/-- Writes an approval of wrapped ether. -/
def unparseWethApproval : Context → Transaction → Outcome RawTransaction :=
  unparsePair "weth-token" "approve" "spender_address" "weth_amount"

/-! ## Streams and nouns -/

/-- The contract of the token of a currency; ether has none. -/
def tokenContract? : Currency → Option String
  | .usdc => some "usdc-token"
  | .weth => some "weth-token"
  | .eth => none

/-- The currency whose token contract has the name. -/
def currencyOfContract? (name : String) : Option Currency :=
  if name == "usdc-token" then some .usdc
  else if name == "weth-token" then some .weth
  else none

/-- The currency whose token is at an address. -/
def currencyAt? (ctx : Context) (address : Value) : Option Currency :=
  (ctx.registry.identify? ctx.chain address).bind fun c => currencyOfContract? c.name

/-- A stream of a known token is created. -/
def parseStream (ctx : Context) (raw : RawTransaction) : Parsed := do
  if !raw.value.isZero then return none
  if !(← matchesCall ctx "stream-factory" "createStream" raw) then return none
  match ← decodeFor raw with
  | [receiver, amount, token, start, stop, nonce, contract] =>
    return (currencyAt? ctx token).map fun currency =>
      .stream ⟨receiver, .currency currency, amount, start, stop, contract, nonce⟩
  | _ => throw (.data .badValue)

/-- The contract of the token of a stream. -/
def streamToken (token : Value) : Outcome String :=
  if !token.isKey then .error (.data .wrongKind)
  else match token with
    | .currency c =>
      match tokenContract? c with
      | some name => .ok name
      | none => .error (.malformed (.streamToken token))
    | _ => .error (.malformed (.streamToken token))

/-- Writes the creation of a stream. -/
def unparseStream (ctx : Context) (t : Transaction) : Outcome RawTransaction := do
  let token ← streamToken (← t.field "token")
  let tokenContract ← ctx.resolve token
  let factory ← ctx.resolve "stream-factory"
  encodeCall factory "createStream"
    [← t.field "receiver_address", ← t.field "token_amount", .text tokenContract.address,
      ← t.field "start_timestamp", ← t.field "end_timestamp", ← t.field "nonce",
      ← t.field "stream_contract_address"]

/-- The executor sends one of its nouns. -/
def parseTreasuryNounTransfer (ctx : Context) (raw : RawTransaction) : Parsed := do
  match ctx.registry.lookup? ctx.chain "executor" with
  | none => return none
  | some executor =>
    if !raw.value.isZero then return none
    if !(← matchesCall ctx "token" "safeTransferFrom" raw) then return none
    match ← decodeFor raw with
    | [sender, receiver, nounId] =>
      if sameAddress sender (.text executor.address) then
        return some (.treasuryNounTransfer receiver nounId)
      else return none
    | _ => throw (.data .badValue)

/-- Writes the transfer of a noun by the executor. -/
def unparseTreasuryNounTransfer (ctx : Context) (t : Transaction) : Outcome RawTransaction := do
  let executor ← ctx.resolve "executor"
  let token ← ctx.resolve "token"
  encodeCall token "safeTransferFrom"
    [.text executor.address, ← t.field "receiver_address", ← t.field "noun_id"]

/-! ## Any other call -/

/-- Whether the raw transaction has calldata without a signature. -/
def isUnparsed (raw : RawTransaction) : Bool :=
  raw.signature.isText "" && !raw.calldata.isText "0x"

/-- Calldata without a signature, with a value. -/
def parseUnparsedPayable (_ : Context) (raw : RawTransaction) : Parsed := do
  if !isUnparsed raw || raw.value.isZero then return none
  return some (.unparsedPayableFunctionCall (← addressOf raw.target) raw.calldata raw.value)

/-- Writes calldata as they stand, with a value. -/
def unparseUnparsedPayable (_ : Context) (t : Transaction) : Outcome RawTransaction := do
  return ⟨← t.field "target", .text "", ← t.field "calldata", ← t.field "value"⟩

/-- Calldata without a signature and without value. -/
def parseUnparsed (_ : Context) (raw : RawTransaction) : Parsed := do
  if !isUnparsed raw || !raw.value.isZero then return none
  return some (.unparsedFunctionCall (← addressOf raw.target) raw.calldata)

/-- Writes calldata as they stand. -/
def unparseUnparsed (_ : Context) (t : Transaction) : Outcome RawTransaction := do
  return ⟨← t.field "target", .text "", ← t.field "calldata", .int 0⟩

/-- The call that signature and calldata describe. -/
def parseCall (raw : RawTransaction) : Outcome FunctionCall := do
  match decodeCall raw.signature raw.calldata with
  | .ok call =>
    return { target := ← addressOf raw.target, name := .text call.name,
             inputs := .list call.inputs, inputTypes := .list (call.types.map .text) }
  | .error (.abi cause) => throw (.malformed (.badCall raw.signature raw.target cause))
  | .error fault => throw fault

/-- The text in a value, which must be one. -/
def textOf : Value → Outcome String
  | .text s => .ok s
  | _ => .error (.data .wrongKind)

/-- Writes a call with typed inputs. -/
def unparseCall (t : Transaction) (value : Value) : Outcome RawTransaction := do
  let types ← (← t.field "function_input_types").items
  let inputs ← (← t.field "function_inputs").items
  match encodeArguments types inputs with
  | .ok calldata =>
    let target ← t.field "target"
    let name ← t.field "function_name"
    let signature := name.display ++ typeList (← types.mapM textOf)
    return ⟨target, .text signature, .text calldata, value⟩
  | .error (.abi cause) =>
    throw (.malformed (.unencodableCall (← t.field "function_name").display cause))
  | .error fault => throw fault

/-- A call with a signature, with a value. -/
def parsePayableCall (_ : Context) (raw : RawTransaction) : Parsed := do
  if raw.signature.isText "" || raw.value.isZero then return none
  return some (.payableFunctionCall (← parseCall raw) raw.value)

/-- Writes a call with a value. -/
def unparsePayableCall (_ : Context) (t : Transaction) : Outcome RawTransaction := do
  unparseCall t (← t.field "value")

/-- A call with a signature and without value. -/
def parseFunctionCall (_ : Context) (raw : RawTransaction) : Parsed := do
  if raw.signature.isText "" || !raw.value.isZero then return none
  return some (.functionCall (← parseCall raw))

/-- Writes a call without value. -/
def unparseFunctionCall (_ : Context) (t : Transaction) : Outcome RawTransaction :=
  unparseCall t (.int 0)

/-! ## The codec of a kind -/

/-- Reads a raw transaction as one of the given kind. -/
def parseAs : TransactionKind → Context → RawTransaction → Parsed
  | .payerTopUp => parsePayerTopUp
  | .transfer => parseTransfer
  | .usdcTransferViaPayer => parseUsdcTransferViaPayer
  | .usdcApproval => parseUsdcApproval
  | .wethDeposit => parseWethDeposit
  | .wethTransfer => parseWethTransfer
  | .wethApproval => parseWethApproval
  | .stream => parseStream
  | .treasuryNounTransfer => parseTreasuryNounTransfer
  | .unparsedPayableFunctionCall => parseUnparsedPayable
  | .unparsedFunctionCall => parseUnparsed
  | .payableFunctionCall => parsePayableCall
  | .functionCall => parseFunctionCall

/-- Writes a transaction as one of the given kind. -/
def unparseAs : TransactionKind → Context → Transaction → Outcome RawTransaction
  | .payerTopUp => unparsePayerTopUp
  | .transfer => unparseTransfer
  | .usdcTransferViaPayer => unparseUsdcTransferViaPayer
  | .usdcApproval => unparseUsdcApproval
  | .wethDeposit => unparseWethDeposit
  | .wethTransfer => unparseWethTransfer
  | .wethApproval => unparseWethApproval
  | .stream => unparseStream
  | .treasuryNounTransfer => unparseTreasuryNounTransfer
  | .unparsedPayableFunctionCall => unparseUnparsedPayable
  | .unparsedFunctionCall => unparseUnparsed
  | .payableFunctionCall => unparsePayableCall
  | .functionCall => unparseFunctionCall

/-- The order in which codecs are tried: special patterns before general ones. -/
def defaultCodecs : List TransactionKind := TransactionKind.all

end Proposals.Codec
