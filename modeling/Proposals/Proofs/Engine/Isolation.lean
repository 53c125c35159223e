import Proposals.Proofs.Engine.Parse
import Proposals.Proofs.Registry.Entries

/-!
# `Proofs.Engine.Isolation` — chains do not influence each other

Codecs ask the registry two questions, for the contract with a name and for the contract at an address,
and both only of the chain that they work for. So registries that agree on a chain cannot be told apart
by what is read and written there (`parseAs_congr`, `unparseAs_congr`), nor by a whole engine; and what a
registry knows of a chain comes from the entries of that chain. Hence nothing that is registered on other
chains, be it under the same names or at the same addresses, changes a result or a fault
(`results_eq_of_holdSame`).
-/

namespace Proposals

open Proposals.Registry

namespace Codec

variable {chain : Int} {r r' : Registry}

/-! ## The questions of codecs -/

theorem resolve_congr (h : AgreeOn chain r r') (name : String) :
    Context.resolve ⟨chain, r⟩ name = Context.resolve ⟨chain, r'⟩ name := by
  unfold Context.resolve Registry.resolve
  rw [h.named]

theorem matchesCall_congr (h : AgreeOn chain r r') (contract function : String) (raw : RawTransaction) :
    matchesCall ⟨chain, r⟩ contract function raw = matchesCall ⟨chain, r'⟩ contract function raw := by
  unfold matchesCall
  rw [h.named]

theorem currencyAt?_congr (h : AgreeOn chain r r') (address : Value) :
    currencyAt? ⟨chain, r⟩ address = currencyAt? ⟨chain, r'⟩ address := by
  unfold currencyAt?
  rw [h.placed]

/-! ## Reading and writing -/

theorem parsePair_congr (h : AgreeOn chain r r') (contract function : String)
    (make : Value → Value → Transaction) (raw : RawTransaction) :
    parsePair contract function make ⟨chain, r⟩ raw = parsePair contract function make ⟨chain, r'⟩ raw := by
  unfold parsePair
  rw [matchesCall_congr h]

theorem unparsePair_congr (h : AgreeOn chain r r') (contract function first second : String)
    (t : Transaction) : unparsePair contract function first second ⟨chain, r⟩ t =
      unparsePair contract function first second ⟨chain, r'⟩ t := by
  unfold unparsePair
  rw [resolve_congr h]

/-- **Codecs read alike** where registries agree. -/
theorem parseAs_congr (h : AgreeOn chain r r') (kind : TransactionKind) (raw : RawTransaction) :
    parseAs kind ⟨chain, r⟩ raw = parseAs kind ⟨chain, r'⟩ raw := by
  cases kind with
  | payerTopUp =>
    show parsePayerTopUp _ raw = parsePayerTopUp _ raw
    unfold parsePayerTopUp
    rw [h.named]
  | usdcTransferViaPayer | usdcApproval | wethTransfer | wethApproval => exact parsePair_congr h _ _ _ raw
  | wethDeposit =>
    show parseWethDeposit _ raw = parseWethDeposit _ raw
    unfold parseWethDeposit
    rw [matchesCall_congr h]
  | stream =>
    show parseStream _ raw = parseStream _ raw
    unfold parseStream
    simp only [matchesCall_congr h, currencyAt?_congr h]
  | treasuryNounTransfer =>
    show parseTreasuryNounTransfer _ raw = parseTreasuryNounTransfer _ raw
    unfold parseTreasuryNounTransfer
    simp only [h.named, matchesCall_congr h]
  -- the other codecs do not look at the registry
  | transfer | unparsedPayableFunctionCall | unparsedFunctionCall | payableFunctionCall
  | functionCall => rfl

/-- **Codecs write alike** where registries agree. -/
theorem unparseAs_congr (h : AgreeOn chain r r') (kind : TransactionKind) (t : Transaction) :
    unparseAs kind ⟨chain, r⟩ t = unparseAs kind ⟨chain, r'⟩ t := by
  cases kind with
  | payerTopUp =>
    show unparsePayerTopUp _ t = unparsePayerTopUp _ t
    unfold unparsePayerTopUp
    rw [resolve_congr h]
  | usdcTransferViaPayer | usdcApproval | wethTransfer | wethApproval =>
    exact unparsePair_congr h _ _ _ _ t
  | wethDeposit =>
    show unparseWethDeposit _ t = unparseWethDeposit _ t
    unfold unparseWethDeposit
    rw [resolve_congr h]
  | stream =>
    show unparseStream _ t = unparseStream _ t
    unfold unparseStream
    simp only [resolve_congr h]
  | treasuryNounTransfer =>
    show unparseTreasuryNounTransfer _ t = unparseTreasuryNounTransfer _ t
    unfold unparseTreasuryNounTransfer
    simp only [resolve_congr h]
  | transfer | unparsedPayableFunctionCall | unparsedFunctionCall | payableFunctionCall
  | functionCall => rfl

end Codec

namespace Engine

open Proposals.Codec

variable {chain : Int} {r r' : Registry} {codecs : List TransactionKind} {handlers : List ActionKind}

/-! ## The engine -/

theorem firstParsed_congr (h : AgreeOn chain r r') (raw : RawTransaction)
    (codecs : List TransactionKind) :
    firstParsed ⟨chain, r⟩ raw codecs = firstParsed ⟨chain, r'⟩ raw codecs := by
  induction codecs with
  | nil => rfl
  | cons kind codecs ih =>
    unfold firstParsed
    rw [parseAs_congr h, ih]

theorem parseOne_congr (h : AgreeOn chain r r') (raw : RawTransaction) :
    parseOne ⟨codecs, handlers, r⟩ chain raw = parseOne ⟨codecs, handlers, r'⟩ chain raw := by
  unfold parseOne context
  rw [firstParsed_congr h]

theorem parse_congr (h : AgreeOn chain r r') (raws : List RawTransaction) :
    parse ⟨codecs, handlers, r⟩ chain raws = parse ⟨codecs, handlers, r'⟩ chain raws := by
  induction raws with
  | nil => rfl
  | cons raw raws ih =>
    unfold parse
    rw [parseOne_congr h, ih]

theorem unparseOne_congr (h : AgreeOn chain r r') (t : Transaction) :
    unparseOne ⟨codecs, handlers, r⟩ chain t = unparseOne ⟨codecs, handlers, r'⟩ chain t := by
  unfold unparseOne context
  simp only [unparseAs_congr h]

/-- Actions are resolved without a registry. -/
theorem resolveAll_congr (r r' : Registry) (actions : List Action) :
    resolveAll ⟨codecs, handlers, r⟩ actions = resolveAll ⟨codecs, handlers, r'⟩ actions := by
  induction actions with
  | nil => rfl
  | cons a actions ih =>
    unfold resolveAll
    rw [ih]
    rfl

theorem decompose_congr (h : AgreeOn chain r r') (raws : List RawTransaction) :
    decompose ⟨codecs, handlers, r⟩ chain raws = decompose ⟨codecs, handlers, r'⟩ chain raws := by
  unfold decompose
  rw [parse_congr h]
  rfl

theorem encode_congr (h : AgreeOn chain r r') (actions : List Action) :
    encode ⟨codecs, handlers, r⟩ chain actions = encode ⟨codecs, handlers, r'⟩ chain actions := by
  unfold encode unparse
  rw [resolveAll_congr r r']
  simp only [funext (unparseOne_congr h)]

/-- **Chains are isolated.** Take two registries whose entries for a chain have the same last contract
    under each name and at each address; equal lists do, and the entries of all other chains may be any.
    Then with any lists of codecs and handlers the engine has the same results on that chain, or the same
    faults: for every raw transaction that is read, every transaction that is written, every proposal that
    is decomposed and all actions that are encoded. -/
theorem results_eq_of_holdSame {table table' : List (Int × List Contract)}
    (hr : ofEntries table = .ok r) (hr' : ofEntries table' = .ok r')
    (hsame : HoldSame (entriesOn chain table) (entriesOn chain table'))
    (codecs : List TransactionKind) (handlers : List ActionKind) :
    (∀ raw, parseOne ⟨codecs, handlers, r⟩ chain raw = parseOne ⟨codecs, handlers, r'⟩ chain raw) ∧
    (∀ t, unparseOne ⟨codecs, handlers, r⟩ chain t = unparseOne ⟨codecs, handlers, r'⟩ chain t) ∧
    (∀ raws, decompose ⟨codecs, handlers, r⟩ chain raws = decompose ⟨codecs, handlers, r'⟩ chain raws) ∧
    ∀ actions, encode ⟨codecs, handlers, r⟩ chain actions = encode ⟨codecs, handlers, r'⟩ chain actions := by
  have hagree := agreeOn_of_holdSame hr hr' hsame
  refine ⟨?_, ?_, ?_, ?_⟩
  · exact parseOne_congr hagree
  · exact unparseOne_congr hagree
  · exact decompose_congr hagree
  · exact encode_congr hagree

/-- The built-in contracts in two parts, and between them contracts of another chain, which have the name
    of one token and the address of the other. -/
def crossedEntries : List (Int × List Contract) :=
  [(mainnet, builtInContracts.take 3),
    (5, [⟨"weth-token", "0xa0b86991c6218b36c1d19d4a2e9eb0ce3606eb48", []⟩,
      ⟨"usdc-token", "0xc02aaa39b223fe8d0a0e5c4f27ead9083c756cc2", []⟩]),
    (mainnet, builtInContracts.drop 3)]

/-- The contracts of the other chain are there, and change nothing on the first. -/
theorem results_eq_of_crossedEntries :
    ∃ r', ofEntries builtInEntries = .ok builtInRegistry ∧ ofEntries crossedEntries = .ok r' ∧
      HoldSame (entriesOn 1 builtInEntries) (entriesOn 1 crossedEntries) ∧
      (r'.lookup? 5 "usdc-token").isSome ∧
      (∀ raw, (standard builtInRegistry).parseOne 1 raw = (standard r').parseOne 1 raw) ∧
      (∀ t, (standard builtInRegistry).unparseOne 1 t = (standard r').unparseOne 1 t) ∧
      (∀ raws, (standard builtInRegistry).decompose 1 raws = (standard r').decompose 1 raws) ∧
      ∀ actions, (standard builtInRegistry).encode 1 actions = (standard r').encode 1 actions := by
  obtain ⟨r', hr', hother⟩ : ∃ r', ofEntries crossedEntries = .ok r' ∧
      (r'.lookup? 5 "usdc-token").isSome := ⟨_, rfl, rfl⟩
  have hsame : HoldSame (entriesOn 1 builtInEntries) (entriesOn 1 crossedEntries) := HoldSame.refl _
  exact ⟨r', builtIn_eq_ok, hr', hsame, hother, results_eq_of_holdSame builtIn_eq_ok hr' hsame
    defaultCodecs Handler.defaultHandlers⟩

end Engine

end Proposals
