import Proposals.Proofs.Codec

/-!
# `Proofs.Written` — what is written on mainnet is read as it was meant

The calls that codecs write go to different addresses or have different signatures, so the codec that
reads what was written is the one that wrote it (`matchesCall_eq`). The arguments of such a call are
words that come back from the calldata, and writing succeeds only if they are in range
(`encodeCall_sound`). So a transaction whose addresses are in normal form is readable and read back from
what is written for it (`IsWritten`).

What of this needs only a contract that has the function (`Offers`) is said of any registry.
-/

namespace Proposals.Codec

open Proposals.Abi Proposals.Outcome

/-- The surroundings of codecs with the built-in table. -/
def builtInContext (chain : Int) : Context := ⟨chain, Registry.builtInRegistry⟩

theorem isSound_builtInContext (chain : Int) :
    ((builtInContext chain).registry.chain (builtInContext chain).chain).IsSound :=
  Registry.isSound_of_ofEntries Registry.areConforming_builtInEntries Registry.builtIn_eq_ok chain

/-- The surroundings of codecs on the chain of the built-in table. -/
def mainnet : Context := ⟨Registry.mainnet, Registry.builtInRegistry⟩

theorem isSound_mainnet : (mainnet.registry.chain mainnet.chain).IsSound :=
  isSound_builtInContext Registry.mainnet

/-! ## The calls that codecs look for -/

/-- A function of a well-known contract, with the layouts of its arguments. -/
structure KnownCall where
  contract : String
  signature : Signature
  coders : List Coder

/-- The call that the codec of a kind reads and writes. -/
def knownCall? : TransactionKind → Option KnownCall
  | .usdcTransferViaPayer =>
    some ⟨"payer", ⟨"sendOrRegisterDebt", ["address", "uint256"]⟩, [.address, .uint 256]⟩
  | .usdcApproval => some ⟨"usdc-token", ⟨"approve", ["address", "uint256"]⟩, [.address, .uint 256]⟩
  | .wethDeposit => some ⟨"weth-token", ⟨"deposit", []⟩, []⟩
  | .wethTransfer => some ⟨"weth-token", ⟨"transfer", ["address", "uint256"]⟩, [.address, .uint 256]⟩
  | .wethApproval => some ⟨"weth-token", ⟨"approve", ["address", "uint256"]⟩, [.address, .uint 256]⟩
  | .stream =>
    some ⟨"stream-factory",
      ⟨"createStream", ["address", "uint256", "address", "uint256", "uint256", "uint8", "address"]⟩,
      [.address, .uint 256, .address, .uint 256, .uint 256, .uint 8, .address]⟩
  | .treasuryNounTransfer =>
    some ⟨"token", ⟨"safeTransferFrom", ["address", "address", "uint256"]⟩,
      [.address, .address, .uint 256]⟩
  | _ => none

/-- The contract of a known call, as the registry of mainnet has it. -/
structure IsAt (call : KnownCall) (c : Contract) : Prop where
  found : mainnet.registry.lookup? mainnet.chain call.contract = some c
  address : IsNormalAddress c.address
  signed : c.signatureFor (.text call.signature.name) = .ok call.signature
  coders : HasCoders call.signature.types call.coders
  words : ∀ d ∈ call.coders, d.IsWord

/-- The contract has the function of a known call, wherever it is. -/
structure Offers (c : Contract) (call : KnownCall) : Prop where
  signed : c.signatureFor (.text call.signature.name) = .ok call.signature
  coders : HasCoders call.signature.types call.coders
  words : ∀ d ∈ call.coders, d.IsWord

theorem IsAt.offers {call : KnownCall} {c : Contract} (h : IsAt call c) : Offers c call :=
  ⟨h.signed, h.coders, h.words⟩

/-- The well-known contracts have the functions of known calls. -/
theorem signatureAmong_knownAbi {kind : TransactionKind} {call : KnownCall}
    (h : knownCall? kind = some call) (contract : String) :
    Contract.signatureAmong contract (.text call.signature.name) (Registry.knownAbi call.contract) =
      .ok call.signature := by
  cases kind <;> cases h <;> rfl

/-- Where the registry has the function that the codec of the kind looks for, it has the known types. -/
def KeepsCall (ctx : Context) (kind : TransactionKind) : Prop :=
  ∀ call c s, knownCall? kind = some call → ctx.registry.lookup? ctx.chain call.contract = some c →
    c.signatureFor (.text call.signature.name) = .ok s → s.types = call.signature.types

/-- A sound registry keeps all known calls. -/
theorem keepsCall_of_isSound {ctx : Context} (hsound : (ctx.registry.chain ctx.chain).IsSound)
    (kind : TransactionKind) : KeepsCall ctx kind := by
  intro call c s hcall hc hs
  obtain ⟨hname, -, htypes⟩ := hsound.named call.contract c hc
  exact htypes _ s _ hs (hname ▸ signatureAmong_knownAbi hcall c.name)

/-- A contract that keeps the well-known functions has those of known calls. -/
theorem offers_of_knownAbi {kind : TransactionKind} {call : KnownCall} {c : Contract}
    (h : knownCall? kind = some call) (habi : c.abi = Registry.knownAbi call.contract) :
    Offers c call where
  signed := by
    unfold Contract.signatureFor
    rw [habi]
    exact signatureAmong_knownAbi h c.name
  coders := by cases kind <;> cases h <;> exact ⟨_, rfl, rfl⟩
  words := by cases kind <;> cases h <;> simp [Coder.IsWord]

theorem exists_isAt {kind : TransactionKind} {call : KnownCall} (h : knownCall? kind = some call) :
    ∃ c, IsAt call c := by
  obtain ⟨c, hc, habi⟩ : ∃ c, mainnet.registry.lookup? mainnet.chain call.contract = some c ∧
      c.abi = Registry.knownAbi call.contract := by
    cases kind <;> cases h <;> exact ⟨_, rfl, rfl⟩
  obtain ⟨-, haddress, -⟩ := isSound_mainnet.named _ c hc
  have hoffers := offers_of_knownAbi h habi
  exact ⟨c, hc, haddress, hoffers.signed, hoffers.coders, hoffers.words⟩

/-- The canonical form of the signature is read as it. -/
theorem Offers.signatureOf_eq {call : KnownCall} {c : Contract} (h : Offers c call) :
    signatureOf (.text call.signature.text) = .ok call.signature :=
  parseSignature_of_signatureFor h.signed (isCoded_of_hasCoders h.coders)

theorem IsAt.signatureOf_eq {call : KnownCall} {c : Contract} (h : IsAt call c) :
    signatureOf (.text call.signature.text) = .ok call.signature :=
  h.offers.signatureOf_eq

/-- The address and the signature of the call of a kind. -/
def place? (kind : TransactionKind) : Option (String × String) := do
  let call ← knownCall? kind
  let c ← mainnet.registry.lookup? mainnet.chain call.contract
  return (c.address, call.signature.text)

/-- Calls of different kinds have different places. -/
theorem place?_injective : ∀ kind ∈ TransactionKind.all, ∀ kind' ∈ TransactionKind.all,
    (knownCall? kind).isSome → place? kind = place? kind' → kind = kind' := by decide

theorem IsAt.place?_eq {kind : TransactionKind} {call : KnownCall} {c : Contract} (h : IsAt call c)
    (hcall : knownCall? kind = some call) : place? kind = some (c.address, call.signature.text) := by
  unfold place?
  rw [hcall, Option.bind_eq_bind, Option.bind_some, h.found]
  rfl

/-- The raw transaction is the call of the contract. -/
structure Calls (call : KnownCall) (c : Contract) (raw : RawTransaction) : Prop where
  target : raw.target = .text c.address
  signature : raw.signature = .text call.signature.text

theorem sameAddress_self {a : String} (h : IsNormalAddress a) :
    sameAddress (.text a) (.text a) = true :=
  (sameAddress_text h).mpr ⟨h.isAddress, h.toAddress?⟩

theorem sameAddress_of_ne {a b : String} (ha : IsNormalAddress a) (hb : IsNormalAddress b) (h : a ≠ b) :
    sameAddress (.text a) (.text b) = false := by
  refine Bool.eq_false_iff.mpr fun hsame => h ?_
  obtain ⟨-, heq⟩ := (sameAddress_text hb).mp hsame
  exact Option.some.inj (ha.toAddress?.symm.trans heq)

variable {kind kind' : TransactionKind} {call call' : KnownCall} {c c' : Contract}
  {raw : RawTransaction}

/-- **A known call is matched by the codec of its kind alone.** -/
theorem matchesCall_eq (hcall : knownCall? kind = some call) (hc : IsAt call c)
    (hraw : Calls call c raw) (hcall' : knownCall? kind' = some call') (hc' : IsAt call' c') :
    matchesCall mainnet call'.contract call'.signature.name raw = .ok (decide (kind = kind')) := by
  have htexts : signaturesMatch (.text call.signature.text) (.text call'.signature.text) =
      .ok (call.signature.text == call'.signature.text) :=
    signaturesMatch_of_ok (normalizeSignature_eq_ok hc.signatureOf_eq)
      (normalizeSignature_eq_ok hc'.signatureOf_eq)
  -- kinds of calls differ in their address or their signature
  have hplaces : kind = kind' ↔
      c.address = c'.address ∧ call.signature.text = call'.signature.text := by
    constructor
    · rintro rfl
      obtain rfl : call = call' := Option.some.inj (hcall.symm.trans hcall')
      exact ⟨congrArg (·.address) (Option.some.inj (hc.found.symm.trans hc'.found)), rfl⟩
    · rintro ⟨haddress, htext⟩
      refine place?_injective kind kind.mem_all kind' kind'.mem_all (by rw [hcall]; rfl) ?_
      rw [hc.place?_eq hcall, hc'.place?_eq hcall', haddress, htext]
  unfold matchesCall
  rw [hc'.found, hraw.target, hraw.signature]
  by_cases haddress : c.address = c'.address
  · -- the same contract, so the signatures decide
    simp only [haddress, sameAddress_self hc'.address, hc'.signed, ok_bind, htexts]
    refine congrArg Except.ok ?_
    rw [beq_eq_decide]
    exact decide_eq_decide.mpr (hplaces.trans (and_iff_right haddress)).symm
  · simp only [sameAddress_of_ne hc.address hc'.address haddress]
    refine congrArg Except.ok (Eq.symm ?_)
    exact decide_eq_false fun heq => haddress (hplaces.mp heq).1

/-! ## A call that is written -/

theorem encodeCall_sound (hc : Offers c call) {args : List Value} {value : Value}
    (hready : List.Forall₂ IsReady call.coders args)
    (h : encodeCall c call.signature.name args value = .ok raw) :
    Calls call c raw ∧ raw.value = value ∧ List.Forall₂ Coder.Fits call.coders args ∧
      decodeFor raw = .ok args := by
  unfold encodeCall at h
  rw [hc.signed, ok_bind] at h
  split at h
  · next calldata hcalldata =>
    cases h
    obtain ⟨hfits, hdecode⟩ :=
      decodeArguments_of_encodeArguments hc.coders hc.words hready hcalldata
    refine ⟨⟨rfl, rfl⟩, rfl, hfits, ?_⟩
    unfold decodeFor decodeCall
    simp only [hc.signatureOf_eq, ok_bind, hdecode]
    rfl
  · exact absurd h (by simp)
  · exact absurd h (by simp)

/-- A call is matched by the codec that finds its contract, in any registry. -/
theorem matchesCall_of_calls {ctx : Context}
    (hfound : ctx.registry.lookup? ctx.chain call.contract = some c) (haddress : IsNormalAddress c.address)
    (hc : Offers c call) (hraw : Calls call c raw) :
    matchesCall ctx call.contract call.signature.name raw = .ok true := by
  have hnormal := normalizeSignature_eq_ok hc.signatureOf_eq
  have htexts : signaturesMatch (.text call.signature.text) (.text call.signature.text) = .ok true :=
    signaturesMatch_eq_true_iff.mpr ⟨_, hnormal, hnormal⟩
  unfold matchesCall
  simp only [hfound, hraw.target, hraw.signature, sameAddress_self haddress, hc.signed, ok_bind, htexts]
  rfl

theorem readCall_of_matchesCall {ctx : Context} {contract function : String}
    (hmatch : matchesCall ctx contract function raw = .ok true) {args : List Value}
    (hargs : decodeFor raw = .ok args) (use : List Value → Parsed) :
    readCall ctx contract function use raw = use args := by
  unfold readCall
  rw [hmatch, ok_bind]
  show decodeFor raw >>= use = use args
  rw [hargs, ok_bind]

theorem readCall_eq (hc : IsAt call c) (hraw : Calls call c raw) {args : List Value}
    (hargs : decodeFor raw = .ok args) (use : List Value → Parsed) :
    readCall mainnet call.contract call.signature.name use raw = use args :=
  readCall_of_matchesCall (matchesCall_of_calls hc.found hc.address hc.offers hraw) hargs use

/-- A codec of a known call passes on, for what it sees of the raw transaction before it looks for the
    call, or reads the call. -/
theorem parseAs_cases (hcall : knownCall? kind = some call) (ctx : Context) (raw : RawTransaction) :
    parseAs kind ctx raw = .ok none ∨
      ∃ use, parseAs kind ctx raw = readCall ctx call.contract call.signature.name use raw := by
  have hguarded : ∀ {skip : Bool} {p : Parsed}, (if skip then .ok none else p) = .ok none ∨
      (if skip then .ok none else p) = p := by
    rintro (- | -) p
    · exact .inr rfl
    · exact .inl rfl
  cases kind with
  | usdcTransferViaPayer | usdcApproval | wethTransfer | wethApproval =>
    cases hcall
    exact (parsePair_eq _ _ _ ctx raw ▸ hguarded).imp_right fun h => ⟨_, h⟩
  | wethDeposit =>
    cases hcall
    exact .inr ⟨_, parseWethDeposit_eq ctx raw⟩
  | stream =>
    cases hcall
    exact (parseStream_eq ctx raw ▸ hguarded).imp_right fun h => ⟨_, h⟩
  | treasuryNounTransfer =>
    cases hcall
    have heq : parseAs .treasuryNounTransfer ctx raw = _ := parseTreasuryNounTransfer_eq ctx raw
    rw [heq]
    split
    · exact .inl rfl
    · exact hguarded.imp_right fun h => ⟨_, h⟩
  | _ => exact absurd hcall (by simp [knownCall?])

/-- A codec reads nothing from a raw transaction that is not its call. -/
theorem parseAs_unmatched {ctx : Context} (hcall : knownCall? kind = some call)
    (h : matchesCall ctx call.contract call.signature.name raw = .ok false) :
    parseAs kind ctx raw = .ok none := by
  rcases parseAs_cases hcall ctx raw with hnone | ⟨use, hread⟩
  · exact hnone
  · rw [hread, readCall, h, ok_bind]
    rfl

/-- **The codecs of other calls read nothing.** -/
theorem parseAs_other (hcall : knownCall? kind = some call) (hc : IsAt call c)
    (hraw : Calls call c raw) (hcall' : knownCall? kind' = some call') (hne : kind ≠ kind') :
    parseAs kind' mainnet raw = .ok none := by
  obtain ⟨c', hc'⟩ := exists_isAt hcall'
  refine parseAs_unmatched hcall' ?_
  rw [matchesCall_eq hcall hc hraw hcall' hc', decide_eq_false hne]

/-- What is no transfer is not read as one. -/
theorem parseAs_of_not_isNativeTransfer (ctx : Context) (h : raw.isNativeTransfer = false) :
    parseAs .payerTopUp ctx raw = .ok none ∧ parseAs .transfer ctx raw = .ok none := by
  constructor
  · show parsePayerTopUp ctx raw = .ok none
    unfold parsePayerTopUp
    rw [h]
    split <;> rfl
  · show parseTransfer ctx raw = .ok none
    unfold parseTransfer
    rw [h]
    rfl

/-- A raw transaction with a signature is no transfer. -/
theorem isNativeTransfer_of_signatureOf {s : Signature} (h : signatureOf raw.signature = .ok s) :
    raw.isNativeTransfer = false := by
  unfold RawTransaction.isNativeTransfer
  rw [not_isText_of_signatureOf h, Bool.false_and]

/-! ## Each codec reads what it writes -/

/-- What was written for the transaction is the call of its kind, which its codec reads back; so the
    numbers of the transaction are in range. -/
structure IsWritten (kind : TransactionKind) (t : Transaction) (raw : RawTransaction) : Prop where
  readable : t.IsReadable
  isCall : ∃ call c, knownCall? kind = some call ∧ IsAt call c ∧ Calls call c raw
  read : parseAs kind mainnet raw = .ok (some t)

theorem resolve_eq_ok {ctx : Context} {name : String} {c : Contract} (h : ctx.resolve name = .ok c) :
    ctx.registry.lookup? ctx.chain name = some c := by
  unfold Context.resolve Registry.resolve at h
  split at h
  · next hc => rw [hc, Except.ok.inj h]
  · exact absurd h (by simp)

/-- The contract that a codec writes to is the one of its call. -/
theorem isAt_of_resolve (hcall : knownCall? kind = some call)
    (h : mainnet.resolve call.contract = .ok c) : IsAt call c := by
  obtain ⟨c', hc'⟩ := exists_isAt hcall
  obtain rfl : c' = c := Option.some.inj (hc'.found.symm.trans (resolve_eq_ok h))
  exact hc'

theorem isReady_address {v : Value} (hv : v.IsAccount) : IsReady .address v := fun _ => hv

theorem isReady_uint {bits : Nat} (v : Value) : IsReady (.uint bits) v := fun h => absurd h (by simp)

/-- A call with a receiver and an amount. -/
theorem unparsePair_sound (kind : TransactionKind) {contract function first second : String}
    (hcall : knownCall? kind =
      some ⟨contract, ⟨function, ["address", "uint256"]⟩, [.address, .uint 256]⟩)
    {make : Value → Value → Transaction} {receiver amount : Value} (hreceiver : receiver.IsAccount)
    (hfields : (make receiver amount).field first = .ok receiver ∧
      (make receiver amount).field second = .ok amount)
    (h : unparsePair contract function first second mainnet (make receiver amount) = .ok raw) :
    amount.IsAmount ∧ (∃ call c, knownCall? kind = some call ∧ IsAt call c ∧ Calls call c raw) ∧
      parsePair contract function make mainnet raw = .ok (some (make receiver amount)) := by
  unfold unparsePair at h
  rw [hfields.1, hfields.2] at h
  obtain ⟨c, hc, h⟩ := bind_eq_ok.mp h
  have hat := isAt_of_resolve hcall hc
  have hready : List.Forall₂ IsReady [Coder.address, .uint 256] [receiver, amount] :=
    .cons (isReady_address hreceiver) (.cons (isReady_uint amount) .nil)
  obtain ⟨hraw, hvalue, hfits, hargs⟩ := encodeCall_sound hat.offers hready h
  -- the amount was encoded, so it is in range
  obtain - | ⟨-, - | ⟨hamount, -⟩⟩ := hfits
  refine ⟨isAmount_of_fits (Nat.le_refl _) hamount, ⟨_, c, hcall, hat, hraw⟩, ?_⟩
  rw [parsePair_eq, hvalue, readCall_eq hat hraw hargs]
  rfl

theorem isWritten_wethDeposit {value : Value} (hvalue : value.IsAmount)
    (h : unparseWethDeposit mainnet (.wethDeposit value) = .ok raw) :
    IsWritten .wethDeposit (.wethDeposit value) raw := by
  have hcall : knownCall? .wethDeposit = some ⟨"weth-token", ⟨"deposit", []⟩, []⟩ := rfl
  obtain ⟨c, hc, h⟩ := bind_eq_ok.mp h
  have hat := isAt_of_resolve hcall hc
  obtain ⟨hraw, hsame, -, hargs⟩ := encodeCall_sound hat.offers .nil h
  refine ⟨hvalue.isNatural, ⟨_, c, hcall, hat, hraw⟩, ?_⟩
  show parseWethDeposit mainnet raw = _
  rw [parseWethDeposit_eq, readCall_eq hat hraw hargs, hsame]

/-- The tokens of mainnet are found by their addresses. -/
theorem currencyAt?_of_streamToken {token : Value} (htoken : token.IsStreamToken) {name : String}
    {c : Contract} (hname : streamToken token = .ok name) (hc : mainnet.resolve name = .ok c) :
    IsNormalAddress c.address ∧ ∃ currency, token = .currency currency ∧
      currencyAt? mainnet (.text c.address) = some currency := by
  rcases htoken with rfl | rfl
  · cases hname
    cases resolve_eq_ok hc
    exact ⟨rfl, .usdc, rfl, rfl⟩
  · cases hname
    cases resolve_eq_ok hc
    exact ⟨rfl, .weth, rfl, rfl⟩

/-- The arguments of the call that creates a stream of a token. -/
def streamArguments (s : Stream) (token : String) : List Value :=
  [s.receiver, s.amount, .text token, s.start, s.stop, s.nonce, s.contract]

theorem unparseStream_eq {ctx : Context} {s : Stream} {name : String} {token factory : Contract}
    (hname : streamToken s.token = .ok name) (htoken : ctx.resolve name = .ok token)
    (hfactory : ctx.resolve "stream-factory" = .ok factory) :
    unparseStream ctx (.stream s) =
      encodeCall factory "createStream" (streamArguments s token.address) := by
  show (streamToken s.token >>= _) = _
  rw [hname, ok_bind, htoken, ok_bind, hfactory]
  rfl

/-- What is written for a stream is read as a stream of the currency that is at the address of the
    token, and its numbers are in range. -/
theorem parseStream_of_encodeCall {ctx : Context} {factory : Contract}
    (hfactory : ctx.registry.lookup? ctx.chain "stream-factory" = some factory)
    (hplace : IsNormalAddress factory.address) (hcall : knownCall? .stream = some call)
    (hoffers : Offers factory call) {s : Stream} (hreceiver : s.receiver.IsAccount)
    (htoken : s.token.IsStreamToken) (hcontract : s.contract.IsAccount) {a : String}
    (ha : IsNormalAddress a)
    (h : encodeCall factory "createStream" (streamArguments s a) = .ok raw) :
    s.IsReadable ∧ Calls call factory raw ∧
      parseStream ctx raw = .ok ((currencyAt? ctx (.text a)).map fun currency =>
        .stream ⟨s.receiver, .currency currency, s.amount, s.start, s.stop, s.contract, s.nonce⟩) := by
  cases hcall
  have hready : List.Forall₂ IsReady
      [Coder.address, .uint 256, .address, .uint 256, .uint 256, .uint 8, .address]
      (streamArguments s a) :=
    .cons (isReady_address hreceiver) (.cons (isReady_uint _) (.cons (isReady_address ⟨_, rfl, ha⟩)
      (.cons (isReady_uint _) (.cons (isReady_uint _) (.cons (isReady_uint _)
        (.cons (isReady_address hcontract) .nil))))))
  obtain ⟨hraw, hvalue, hfits, hargs⟩ := encodeCall_sound hoffers hready h
  obtain - | ⟨-, - | ⟨hamount, - | ⟨-, - | ⟨hstart, - | ⟨hstop, - | ⟨hnonce, -⟩⟩⟩⟩⟩⟩ := hfits
  refine ⟨⟨hreceiver, htoken, isAmount_of_fits (by decide) hamount, isAmount_of_fits (by decide) hstart,
    isAmount_of_fits (by decide) hstop, hcontract, isAmount_of_fits (by decide) hnonce⟩, hraw, ?_⟩
  have hmatch := matchesCall_of_calls hfactory hplace hoffers hraw
  rw [parseStream_eq, hvalue]
  exact readCall_of_matchesCall hmatch hargs (streamOf ctx)

theorem isWritten_stream {s : Stream} (hreceiver : s.receiver.IsAccount)
    (htoken : s.token.IsStreamToken) (hcontract : s.contract.IsAccount)
    (h : unparseStream mainnet (.stream s) = .ok raw) : IsWritten .stream (.stream s) raw := by
  obtain ⟨call, hcall⟩ : ∃ call, knownCall? .stream = some call := ⟨_, rfl⟩
  obtain ⟨factory, hat⟩ := exists_isAt hcall
  have hfactory : mainnet.registry.lookup? mainnet.chain "stream-factory" = some factory := by
    cases hcall
    exact hat.found
  -- both tokens are in the registry of mainnet
  obtain ⟨name, token, hname, htokenContract⟩ : ∃ name token, streamToken s.token = .ok name ∧
      mainnet.resolve name = .ok token := by
    rcases htoken with h | h <;> rw [h] <;> exact ⟨_, _, rfl, rfl⟩
  obtain ⟨haddress, currency, hcurrency, hfound⟩ :=
    currencyAt?_of_streamToken htoken hname htokenContract
  rw [unparseStream_eq hname htokenContract (resolve_of_lookup? hfactory)] at h
  obtain ⟨hreadable, hraw, hparse⟩ :=
    parseStream_of_encodeCall hfactory hat.address hcall hat.offers hreceiver htoken hcontract haddress h
  refine ⟨hreadable, ⟨call, factory, hcall, hat, hraw⟩, ?_⟩
  show parseStream mainnet raw = _
  rw [hparse, hfound, Option.map_some, ← hcurrency]

theorem isWritten_treasuryNounTransfer {receiver nounId : Value} (hreceiver : receiver.IsAccount)
    (h : unparseTreasuryNounTransfer mainnet (.treasuryNounTransfer receiver nounId) = .ok raw) :
    IsWritten .treasuryNounTransfer (.treasuryNounTransfer receiver nounId) raw := by
  have hcall : knownCall? .treasuryNounTransfer = some ⟨"token",
      ⟨"safeTransferFrom", ["address", "address", "uint256"]⟩, [.address, .address, .uint 256]⟩ := rfl
  obtain ⟨executor, hexecutor, h⟩ := bind_eq_ok.mp h
  obtain ⟨c, hc, h⟩ := bind_eq_ok.mp h
  have hat := isAt_of_resolve hcall hc
  have hfound := resolve_eq_ok hexecutor
  obtain ⟨-, haddress, -⟩ := isSound_mainnet.named _ executor hfound
  have hready : List.Forall₂ IsReady [Coder.address, .address, .uint 256]
      [.text executor.address, receiver, nounId] :=
    .cons (isReady_address ⟨_, rfl, haddress⟩) (.cons (isReady_address hreceiver) (.cons
      (isReady_uint _) .nil))
  obtain ⟨hraw, hvalue, hfits, hargs⟩ := encodeCall_sound hat.offers hready h
  obtain - | ⟨-, - | ⟨-, - | ⟨hnounId, -⟩⟩⟩ := hfits
  refine ⟨⟨hreceiver, isAmount_of_fits (by decide) hnounId⟩, ⟨_, c, hcall, hat, hraw⟩, ?_⟩
  show parseTreasuryNounTransfer mainnet raw = _
  rw [parseTreasuryNounTransfer_eq, hfound, hvalue]
  show readCall mainnet "token" "safeTransferFrom" (nounOf executor.address) raw = _
  rw [readCall_eq hat hraw hargs, nounOf, sameAddress_self haddress]
  rfl

end Proposals.Codec
