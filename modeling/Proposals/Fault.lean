import Proposals.Value

/-!
# `Proposals.Fault` — why an operation has no result

Each family of causes belongs to one stage: call arguments, raw transactions, contracts, kinds,
variants, amounts and documents. The last family holds what goes wrong with data that was never
checked (a value of the wrong kind, a missing part) and with files.

## Contents
- one type of causes per family, each with its `message`.
- `Fault`: all of them, `Fault.message`, and `Fault.isBadValue`.
- `Outcome`: a result or a fault.
-/

namespace Proposals

open Proposals.Number

/-- Items with a comma and a blank between them. -/
def enumerated (items : List String) : String := ", ".intercalate items

/-- A list of types in parentheses. -/
def typeList (types : List String) : String := "(" ++ ",".intercalate types ++ ")"

/-! ## Signatures and call arguments -/

/-- Faults of signatures, types, arguments and calldata. -/
inductive AbiFault where
  | signatureNotText
  | badSignature (signature : String)
  | badName (signature : String)
  | unbalanced
  | emptyParameter
  | missingType (parameter : String)
  | badParameter (parameter : String)
  | badType (type : String)
  | argumentCount (expected got : Nat)
  | notSequence (type : String)
  | badAddress (value : Value)
  | unencodable
  | undecodable (types : List String)
  | notCanonical (types : List String)
  | calldataNotText
  | calldataNotHex
  | badValue (type value : Value)

/-- The wording of the fault. -/
def AbiFault.message : AbiFault → String
  | .signatureNotText => "Signature must be a string."
  | .badSignature s => "Invalid function signature: " ++ (Value.text s).inspect
  | .badName s => "Invalid function name in signature: " ++ (Value.text s).inspect
  | .unbalanced => "Unbalanced parentheses in signature."
  | .emptyParameter => "Empty parameter in signature."
  | .missingType p => "Missing type in parameter: " ++ (Value.text p).inspect
  | .badParameter p => "Invalid parameter type: " ++ (Value.text p).inspect
  | .badType t => "Invalid ABI type: " ++ (Value.text t).inspect
  | .argumentCount expected got =>
    "Expected " ++ String.ofList (natText expected) ++ " arguments, got " ++
      String.ofList (natText got) ++ "."
  | .notSequence t => "Expected a sequence for " ++ t ++ "."
  | .badAddress v => "Invalid address: " ++ v.inspect
  | .unencodable => "Cannot encode arguments: a value does not fit its type"
  | .undecodable types =>
    "Cannot decode calldata as " ++ typeList types ++ ": the data do not follow the layout"
  | .notCanonical types => "Calldata is not a canonical encoding of " ++ typeList types ++ "."
  | .calldataNotText => "Calldata must be a 0x-prefixed hex string."
  | .calldataNotHex => "Calldata is not valid hex."
  | .badValue t v => "Invalid " ++ t.display ++ " value: " ++ v.inspect

/-! ## Raw transactions -/

/-- Faults of transactions that match a pattern but cannot be read or written. -/
inductive MalformedFault where
  | badAddress (value : Value)
  | badCalldata (signature target : Value) (cause : AbiFault)
  | badCall (signature target : Value) (cause : AbiFault)
  | unencodableCall (name : String) (cause : AbiFault)
  | streamToken (token : Value)
  | missingLists (names : List String)
  | unequalLists
  | valueNotNumber (index : Nat)
  | valueTooLarge (index : Nat)
  | calldataNotHex (index : Nat)

/-- The wording of the fault. -/
def MalformedFault.message : MalformedFault → String
  | .badAddress v => "Invalid address: " ++ v.inspect
  | .badCalldata signature target cause =>
    "Calldata for " ++ signature.inspect ++ " on " ++ target.display ++ " is malformed: " ++
      cause.message
  | .badCall signature target cause =>
    "Function call " ++ signature.inspect ++ " on " ++ target.display ++ " is malformed: " ++
      cause.message
  | .unencodableCall name cause => "Cannot encode " ++ name ++ ": " ++ cause.message
  | .streamToken token => "Streams cannot carry " ++ token.inspect ++ "."
  | .missingLists names => "Proposal is missing " ++ enumerated names ++ "."
  | .unequalLists => "targets, values, signatures and calldatas must have equal lengths."
  | .valueNotNumber i =>
    "Value at index " ++ String.ofList (natText i) ++ " must be a non-negative integer string."
  | .valueTooLarge i => "Value at index " ++ String.ofList (natText i) ++ " exceeds uint256."
  | .calldataNotHex i =>
    "Calldata at index " ++ String.ofList (natText i) ++ " must be 0x-prefixed hex."

/-! ## Contracts -/

/-- Faults of the table of contracts. -/
inductive ContractFault where
  | badEntry (contract : String) (entry : Value)
  | noFunction (contract : String) (function : Value)
  | notRegistered (name chain : Value)
  | notTable
  | noAddress (name : String)
  | badAddress (name address : String)
  | noContracts (chain : Int)

/-- The wording of the fault. -/
def ContractFault.message : ContractFault → String
  | .badEntry contract entry =>
    "Contract " ++ contract ++ " has an invalid ABI entry: " ++ entry.inspect
  | .noFunction contract function =>
    "Contract " ++ contract ++ " has no function " ++ function.inspect ++ "."
  | .notRegistered name chain =>
    "No " ++ name.inspect ++ " contract registered for chain " ++ chain.display ++ "."
  | .notTable => "Contracts file must map chain ids to contracts."
  | .noAddress name => "Contract " ++ (Value.text name).inspect ++ " is missing an address."
  | .badAddress name address =>
    "Contract " ++ (Value.text name).inspect ++ " has an invalid address: " ++
      (Value.text address).inspect
  | .noContracts chain =>
    "No contracts registered for chain " ++ String.ofList (intText chain) ++ "."

/-! ## Kinds, variants and amounts -/

/-- How a kind is quoted; an object of no kind shows as nothing. -/
def inspectTag (list : String) : Option String → String
  | some tag => String.ofList (Value.inspectMember list tag)
  | none => Value.null.inspect

/-- Faults of records whose kind nothing is registered for. -/
inductive UnrecognizedFault where
  | transaction (kind : Option TransactionKind)
  | action (kind : Option ActionKind)
  | raw (target signature : Value)

/-- The wording of the fault. -/
def UnrecognizedFault.message : UnrecognizedFault → String
  | .transaction kind =>
    "Unknown transaction type: " ++ inspectTag "TransactionType" (kind.map (·.tag))
  | .action kind => "Unknown action type: " ++ inspectTag "ActionType" (kind.map (·.tag))
  | .raw target signature =>
    "No codec recognizes the transaction to " ++ target.display ++ " (" ++ signature.inspect ++ ")."

/-- Faults of actions that no transactions can express. -/
inductive VariantFault where
  | currency (kind : ActionKind) (given : Value)
  | nounNotInteger
  | nounNegative

/-- The wording of the fault. -/
def VariantFault.message : VariantFault → String
  | .currency kind given =>
    kind.tag ++ " does not support currency " ++ given.inspect ++ "."
  | .nounNotInteger => "Noun id must be an integer."
  | .nounNegative => "Noun id must be non-negative."

/-- Faults of amounts. -/
inductive AmountFault where
  | notText
  | notDecimal (amount : String)
  | notFinite (amount : String)
  | negative (amount : String)
  | tooLarge (amount : String)
  | tooFine (amount : String) (decimals : Int)
  | negativeUnits

/-- The wording of the fault. -/
def AmountFault.message : AmountFault → String
  | .notText => "Amount must be a decimal string."
  | .notDecimal a => "Amount is not a decimal number: " ++ (Value.text a).inspect
  | .notFinite a => "Amount must be finite: " ++ (Value.text a).inspect
  | .negative a => "Amount must be non-negative: " ++ (Value.text a).inspect
  | .tooLarge a => "Amount exceeds uint256: " ++ (Value.text a).inspect
  | .tooFine a decimals =>
    "Amount " ++ (Value.text a).inspect ++ " has more than " ++ String.ofList (intText decimals) ++
      " decimal places."
  | .negativeUnits => "Token amounts must be non-negative."

/-! ## Documents -/

/-- Faults of documents that describe transactions or actions. A field that cannot be read carries
the fault of its argument list, or nothing if it is not an integer. -/
inductive DocumentFault where
  | notObject (what : String)
  | unknownTransaction (tag : Value)
  | unknownAction (tag : Value)
  | missingFields (record : String) (names : List String)
  | unknownToken (token : Value)
  | unequalInputs
  | badTransaction (kind : TransactionKind) (cause : Option AbiFault)
  | badAction (kind : ActionKind) (cause : Option AbiFault)
  | noTransactions
  | noActions

/-- The wording of the cause of a bad field. -/
def fieldCause : Option AbiFault → String
  | some cause => cause.message
  | none => "a field is not an integer"

/-- The wording of the fault. -/
def DocumentFault.message : DocumentFault → String
  | .notObject what => "Each " ++ what ++ " must be a JSON object."
  | .unknownTransaction tag => "Unknown TransactionType " ++ tag.inspect ++ "."
  | .unknownAction tag => "Unknown ActionType " ++ tag.inspect ++ "."
  | .missingFields record names => record ++ " is missing fields: " ++ enumerated names ++ "."
  | .unknownToken token => "Unknown stream token: " ++ token.inspect
  | .unequalInputs => "function_inputs and function_input_types differ in length."
  | .badTransaction kind cause =>
    "Invalid " ++ kind.tag ++ " transaction: " ++ fieldCause cause
  | .badAction kind cause => "Invalid " ++ kind.tag ++ " action: " ++ fieldCause cause
  | .noTransactions => "custom-transaction requires a transactions list."
  | .noActions => "Actions must be a JSON list or an object with 'actions'."

/-! ## Registration, unchecked data and files -/

/-- Two entries of one kind in a list where each kind stands once. -/
inductive RegistrationFault where
  | codec (kind : TransactionKind)
  | handler (kind : ActionKind)

/-- The wording of the fault. -/
def RegistrationFault.message : RegistrationFault → String
  | .codec kind => "Duplicate codec registered for " ++ kind.tag ++ "."
  | .handler kind => "Duplicate handler registered for " ++ kind.tag ++ "."

/-- Faults of reading a file. -/
inductive FileFault where
  | notFound (path : String)
  | notDirectory (path : String)
  | isDirectory (path : String)
  | nameTooLong (path : String)

/-- The wording of the fault. -/
def FileFault.message : FileFault → String
  | .notFound path =>
    "[Errno 2] No such file or directory: " ++ (Value.text path).inspect
  | .notDirectory path => "[Errno 20] Not a directory: " ++ (Value.text path).inspect
  | .isDirectory path => "[Errno 21] Is a directory: " ++ (Value.text path).inspect
  | .nameTooLong path => "[Errno 36] File name too long: " ++ (Value.text path).inspect

/-- Where a JSON text breaks its grammar: line and column, both from one, and the number of
characters before the place. -/
structure JsonFault where
  line : Nat
  column : Nat
  offset : Nat

/-- The wording of the fault. -/
def JsonFault.message (f : JsonFault) : String :=
  "Not a JSON document: line " ++ String.ofList (natText f.line) ++ " column " ++
    String.ofList (natText f.column) ++ " (char " ++ String.ofList (natText f.offset) ++ ")"

/-- Faults of data that were not checked. -/
inductive DataFault where
  | wrongKind
  | badValue
  | noCoder
  | notAscii
  | overflow
  | missingKey
  | missingPart
  | inexact
deriving DecidableEq, Repr

/-- The wording of the fault. -/
def DataFault.message : DataFault → String
  | .wrongKind => "a value has the wrong kind"
  | .badValue => "a value is out of bounds"
  | .noCoder => "no coder is known for a type"
  | .notAscii => "a text is not ASCII"
  | .overflow => "a number is too large"
  | .missingKey => "a table has no such entry"
  | .missingPart => "an object has no such part"
  | .inexact => "a decimal operation has no exact result"

/-- Why an operation has no result. -/
inductive Fault where
  | abi (cause : AbiFault)
  | malformed (cause : MalformedFault)
  | contract (cause : ContractFault)
  | unrecognized (cause : UnrecognizedFault)
  | variant (cause : VariantFault)
  | amount (cause : AmountFault)
  | document (cause : DocumentFault)
  | registration (cause : RegistrationFault)
  | data (cause : DataFault)
  | file (cause : FileFault)
  | json (cause : JsonFault)
  | settings

namespace Fault

/-- The wording of the fault. -/
def message : Fault → String
  | .abi cause => cause.message
  | .malformed cause => cause.message
  | .contract cause => cause.message
  | .unrecognized cause => cause.message
  | .variant cause => cause.message
  | .amount cause => cause.message
  | .document cause => cause.message
  | .registration cause => cause.message
  | .data cause => cause.message
  | .file cause => cause.message
  | .json cause => cause.message
  | .settings => "the settings are not valid"

/-- Whether the fault is a complaint about the content of a value, as against its kind, its size,
a missing part or a file. -/
def isBadValue : Fault → Bool
  | .data cause => cause == .badValue || cause == .noCoder || cause == .notAscii
  | .file _ => false
  | _ => true

end Fault

/-- A result or the reason why there is none. -/
abbrev Outcome (α : Type) := Except Fault α

end Proposals
