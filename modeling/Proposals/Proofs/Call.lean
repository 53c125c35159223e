import Proposals.Proofs.Abi.Strict
import Proposals.Proofs.Written

/-!
# `Proofs.Call` — calls with typed inputs

A call with typed inputs is written without any contract in the registry: its signature is its name with
its types, and its calldata are its encoded inputs. If name, types and inputs are in the form in which
they are read (`IsTyped`), the raw transaction (`IsRawOf`) is read as the same call, by the codec of
calls (`parseCall_of_isRawOf`).

The codecs of known calls are tried before that one. Each of them matches just the calls of its own
function (`FunctionCall.IsCallOf`), and `parseAs_known` says what it makes of them.
-/

namespace Proposals

open Proposals.Abi Proposals.Text Proposals.Outcome

/-- The parts of a call whose inputs have types with layouts: an account, an identifier, the canonical
    form of each type, and one canonical value for each. What they are encoded to is short enough to be
    a text. -/
structure FunctionCall.IsTyped (call : FunctionCall) (target name : String) (types : List String)
    (inputs : List Value) : Prop where
  eq : call = ⟨.text target, .text name, .list inputs, .list (types.map .text)⟩
  account : IsNormalAddress target
  identifier : isIdentifier name.toList = true
  canonicalTypes : ∀ type ∈ types, canonicalType type.toList = .ok type.toList
  canonicalInputs : ∃ coders, HasCoders types coders ∧ Coder.AreCanonical coders inputs
  short : ∀ calldata, encodeArguments (types.map .text) inputs = .ok calldata →
    calldata.length < maxLength

/-- The call can be written and read back. -/
def FunctionCall.IsWellFormed (call : FunctionCall) : Prop :=
  ∃ target name types inputs, call.IsTyped target name types inputs

/-! ## Calls that a codec of known calls reads -/

/-- The call has the target and the signature of the call that the codec of the kind looks for. -/
def FunctionCall.IsCallOf (kind : TransactionKind) (call : FunctionCall) : Prop :=
  ∃ known c, Codec.knownCall? kind = some known ∧
    Codec.mainnet.registry.lookup? Codec.mainnet.chain known.contract = some c ∧
    call.target = .text c.address ∧ call.name = .text known.signature.name ∧
    call.inputTypes = .list (known.signature.types.map .text)

/-- The third input of the call is the token of a currency. -/
def FunctionCall.HasStreamToken (call : FunctionCall) : Prop :=
  ∃ receiver amount rest name c, (name = "usdc-token" ∨ name = "weth-token") ∧
    Codec.mainnet.registry.lookup? Codec.mainnet.chain name = some c ∧
    call.inputs = .list (receiver :: amount :: .text c.address :: rest)

/-- The first input of the call is the executor. -/
def FunctionCall.IsFromExecutor (call : FunctionCall) : Prop :=
  ∃ c rest, Codec.mainnet.registry.lookup? Codec.mainnet.chain "executor" = some c ∧
    call.inputs = .list (.text c.address :: rest)

/-- The codec of the kind reads the call, if it carries no value: it is a call of the function that the
    codec looks for, with a known token if that is a stream, and from the executor if it moves a noun. -/
def FunctionCall.IsKnownAs (kind : TransactionKind) (call : FunctionCall) : Prop :=
  call.IsCallOf kind ∧ (kind = .stream → call.HasStreamToken) ∧
    (kind = .treasuryNounTransfer → call.IsFromExecutor)

namespace Codec

/-! ## The raw transaction of a call -/

/-- The call of a function with the inputs. -/
def callOf (target : String) (s : Signature) (inputs : List Value) : FunctionCall :=
  ⟨.text target, .text s.name, .list inputs, .list (s.types.map .text)⟩

/-- The raw transaction is the call of a function with the inputs. -/
structure IsRawOf (target : String) (s : Signature) (inputs : List Value) (raw : RawTransaction) :
    Prop where
  target_eq : raw.target = .text target
  account : IsNormalAddress target
  signature : raw.signature = .text s.text
  read : parseSignature s.text = .ok s
  decoded : decodeCall raw.signature raw.calldata = .ok ⟨s.name, inputs, s.types⟩
  canonical : ∃ coders, HasCoders s.types coders ∧ Coder.AreCanonical coders inputs

variable {target name : String} {types : List String} {inputs : List Value} {s : Signature}
  {raw : RawTransaction} {call : FunctionCall}

theorem IsRawOf.signatureOf_eq (h : IsRawOf target s inputs raw) : signatureOf raw.signature = .ok s := by
  rw [h.signature]
  exact h.read

theorem parseSignature_of_isTyped (h : call.IsTyped target name types inputs) :
    parseSignature (Signature.text ⟨name, types⟩) = .ok ⟨name, types⟩ := by
  obtain ⟨coders, hcoders, -⟩ := h.canonicalInputs
  refine parseSignature_text_of_full h.identifier (fun type htype => ?_)
    (isCoded_of_hasCoders hcoders)
  exact (canonicalTypeWithin_sound (h.canonicalTypes type htype)).2

/-- **A typed call is written**, as the raw transaction of its function. -/
theorem exists_unparseCall (h : call.IsTyped target name types inputs) {t : Transaction}
    (ht : t = .functionCall call ∨ ∃ value, t = .payableFunctionCall call value) (value : Value) :
    ∃ raw, unparseCall t value = .ok raw ∧ raw.value = value ∧
      IsRawOf target ⟨name, types⟩ inputs raw := by
  obtain ⟨coders, hcoders, hinputs⟩ := h.canonicalInputs
  obtain ⟨calldata, hencode⟩ : ∃ calldata, encodeArguments (types.map .text) inputs = .ok calldata := by
    obtain ⟨parts, -, -, hencode⟩ := exists_encodeArguments hcoders hinputs
    exact ⟨_, hencode⟩
  obtain ⟨hlower, hmarked⟩ := lowerHex_of_encodeArguments hcoders hinputs hencode
  have hdecode := decodeArguments_of_areCanonical hcoders (h.short _ hencode) hinputs hmarked
    (hlower.symm ▸ hencode)
  have hread := parseSignature_of_isTyped h
  obtain ⟨htypes, hinputs', htarget, hname⟩ := field_of_call ht
  rw [h.eq] at htypes hinputs' htarget hname
  refine ⟨⟨.text target, .text (Signature.text ⟨name, types⟩), .text calldata, value⟩, ?_, rfl,
    ⟨rfl, h.account, rfl, hread, ?_, coders, hcoders, hinputs⟩⟩
  · unfold unparseCall
    simp only [htypes, hinputs', ok_bind, Value.items, hencode, htarget, hname, mapM_textOf]
    rfl
  · have hsigned : signatureOf (.text (Signature.text ⟨name, types⟩)) = .ok ⟨name, types⟩ := hread
    unfold decodeCall
    simp only [hsigned, ok_bind, hdecode, pure_eq_ok]

/-- **The codec of calls reads it back.** -/
theorem parseCall_of_isRawOf (h : IsRawOf target s inputs raw) :
    parseCall raw = .ok (callOf target s inputs) := by
  have haddress : addressOf raw.target = .ok (.text target) := by
    rw [h.target_eq]
    exact addressOf_of_isAccount ⟨target, rfl, h.account⟩
  unfold parseCall
  simp only [h.decoded, haddress, ok_bind, pure_eq_ok]
  rfl

/-- The call of a function of a contract with encoded arguments. -/
def callWith (c : Contract) (s : Signature) (parts : List Part) (value : Value) : RawTransaction :=
  ⟨.text c.address, .text s.text, .text (String.ofList (bytesToHex (assemble parts))), value⟩

theorem encodeCall_eq_callWith {known : KnownCall} {c : Contract} (hc : Offers c known) {args : List Value}
    (hargs : Coder.AreCanonical known.coders args) {parts : List Part}
    (hparts : Coder.encodeParts? known.coders args = some parts) (value : Value) :
    encodeCall c known.signature.name args value = .ok (callWith c known.signature parts value) := by
  obtain ⟨parts', hparts', -, hencode⟩ := exists_encodeArguments hc.coders hargs
  obtain rfl : parts = parts' := Option.some.inj (hparts.symm.trans hparts')
  unfold encodeCall
  rw [hc.signed, ok_bind, hencode]
  rfl

/-- Canonical arguments of a known function are written. -/
theorem exists_encodeCall {known : KnownCall} {c : Contract} (hc : Offers c known) (args : List Value)
    (hargs : Coder.AreCanonical known.coders args) (value : Value) :
    ∃ raw, encodeCall c known.signature.name args value = .ok raw := by
  obtain ⟨parts, hparts, -⟩ := exists_encodeArguments hc.coders hargs
  exact ⟨_, encodeCall_eq_callWith hc hargs hparts value⟩

theorem isCanonical_amount {v : Value} (h : v.IsAmount) : (Coder.uint 256).IsCanonical v := by
  obtain ⟨n, rfl, hn⟩ := h
  exact ⟨n, rfl, Nat.lt_of_le_of_lt hn (Nat.sub_lt (Number.twoTo_pos 256) Nat.one_pos)⟩

/-- The call that creates a stream is written. -/
theorem exists_encodeStream {known : KnownCall} (hcall : knownCall? .stream = some known)
    {factory : Contract} (hc : Offers factory known) {s : Stream} (hs : s.IsReadable) {nonce : Nat}
    (hnonce : s.nonce = .int nonce) (hlimit : nonce ≤ 255) {a : String} (ha : IsNormalAddress a) :
    ∃ raw, encodeCall factory "createStream" (streamArguments s a) = .ok raw := by
  cases hcall
  have hnonce' : (Coder.uint 8).IsCanonical s.nonce :=
    ⟨nonce, hnonce, Nat.lt_of_le_of_lt hlimit (by decide)⟩
  exact exists_encodeCall hc (streamArguments s a)
    ⟨_, _, rfl, hs.receiver, _, _, rfl, isCanonical_amount hs.amount, _, _, rfl, ⟨_, rfl, ha⟩,
      _, _, rfl, isCanonical_amount hs.start, _, _, rfl, isCanonical_amount hs.stop, _, _, rfl,
      hnonce', _, _, rfl, hs.contract, rfl⟩ (.int 0)

/-! ## What codecs of known calls make of it -/

variable {kind : TransactionKind} {known : KnownCall} {c : Contract}

theorem isCallOf_iff (hcall : knownCall? kind = some known) (hc : IsAt known c) :
    (callOf target s inputs).IsCallOf kind ↔ target = c.address ∧ s = known.signature := by
  constructor
  · rintro ⟨known', c', hcall', hc', htarget, hname, htypes⟩
    obtain rfl : known = known' := Option.some.inj (hcall.symm.trans hcall')
    obtain rfl : c = c' := Option.some.inj (hc.found.symm.trans hc')
    obtain ⟨name, types⟩ := s
    have hnames : name = known.signature.name := Value.text.inj hname
    have htypes' : types = known.signature.types :=
      List.map_injective_iff.mpr (fun _ _ h => Value.text.inj h) (Value.list.inj htypes)
    exact ⟨Value.text.inj htarget, by rw [hnames, htypes']⟩
  · rintro ⟨rfl, rfl⟩
    exact ⟨known, c, hcall, hc.found, rfl, rfl, rfl⟩

/-- **The codec of a known call matches just the calls of its function.** -/
theorem matchesCall_of_isRawOf (hc : IsAt known c) (h : IsRawOf target s inputs raw) :
    matchesCall mainnet known.contract known.signature.name raw =
      .ok (decide (target = c.address ∧ s = known.signature)) := by
  have hknown : parseSignature known.signature.text = .ok known.signature := hc.signatureOf_eq
  have htexts : signaturesMatch raw.signature (.text known.signature.text) =
      .ok (decide (s = known.signature)) := by
    rw [signaturesMatch_of_ok (normalizeSignature_eq_ok h.signatureOf_eq)
      (normalizeSignature_eq_ok hc.signatureOf_eq)]
    refine congrArg Except.ok ?_
    rw [beq_eq_decide]
    refine decide_eq_decide.mpr ⟨fun htext => ?_, fun heq => by rw [heq]⟩
    -- a signature is read from its text, so the text determines it
    exact Except.ok.inj (h.read.symm.trans (htext ▸ hknown))
  unfold matchesCall
  rw [hc.found, h.target_eq]
  by_cases haddress : target = c.address
  · simp only [haddress, sameAddress_self hc.address, hc.signed, ok_bind, htexts, true_and]
    rfl
  · simp only [sameAddress_of_ne h.account hc.address haddress, haddress, false_and]
    rfl

theorem parseAs_of_not_isCallOf (hcall : knownCall? kind = some known)
    (h : IsRawOf target s inputs raw) (hmatch : ¬ (callOf target s inputs).IsCallOf kind) :
    parseAs kind mainnet raw = .ok none := by
  obtain ⟨c, hc⟩ := exists_isAt hcall
  refine parseAs_unmatched hcall ?_
  rw [matchesCall_of_isRawOf hc h, decide_eq_false (mt (isCallOf_iff hcall hc).mpr hmatch)]

theorem readCall_of_isRawOf (hcall : knownCall? kind = some known) (hc : IsAt known c)
    (h : IsRawOf target s inputs raw) (hmatch : (callOf target s inputs).IsCallOf kind)
    (use : List Value → Parsed) :
    readCall mainnet known.contract known.signature.name use raw = use inputs := by
  unfold readCall
  rw [matchesCall_of_isRawOf hc h, decide_eq_true ((isCallOf_iff hcall hc).mp hmatch), ok_bind]
  show decodeFor raw >>= use = use inputs
  rw [decodeFor_of_decodeCall h.decoded, ok_bind]

/-- The inputs of a call of a known function are canonical for its types. -/
theorem areCanonical_of_isCallOf (hcall : knownCall? kind = some known) (hc : IsAt known c)
    (h : IsRawOf target s inputs raw) (hmatch : (callOf target s inputs).IsCallOf kind) :
    Coder.AreCanonical known.coders inputs := by
  obtain ⟨-, rfl⟩ := (isCallOf_iff hcall hc).mp hmatch
  obtain ⟨coders, hcoders, hinputs⟩ := h.canonical
  exact hcoders.unique hc.coders ▸ hinputs

theorem currencyAt?_isSome_iff {a : String} (ha : IsNormalAddress a) :
    (currencyAt? mainnet (.text a)).isSome = true ↔ ∃ name c,
      (name = "usdc-token" ∨ name = "weth-token") ∧
        mainnet.registry.lookup? mainnet.chain name = some c ∧ a = c.address := by
  constructor
  · intro h
    obtain ⟨currency, hcurrency⟩ := Option.isSome_iff_exists.mp h
    obtain ⟨htoken, name, c, hname, hc, haddress⟩ := currencyAt?_sound isSound_mainnet.placed hcurrency
    refine ⟨name, c, ?_, resolve_eq_ok hc, Option.some.inj (ha.toAddress?.symm.trans haddress)⟩
    rcases htoken with htoken | htoken <;> cases htoken <;> cases hname
    · exact .inl rfl
    · exact .inr rfl
  · rintro ⟨name, c, rfl | rfl, hc, rfl⟩ <;> cases hc <;> rfl

theorem parsePair_of_isRawOf {contract function : String}
    (hcall : knownCall? kind =
      some ⟨contract, ⟨function, ["address", "uint256"]⟩, [.address, .uint 256]⟩)
    (h : IsRawOf target s inputs raw) (hvalue : raw.value = .int 0)
    (hmatch : (callOf target s inputs).IsCallOf kind) (make : Value → Value → Transaction) :
    ∃ a b, parsePair contract function make mainnet raw = .ok (some (make a b)) := by
  obtain ⟨c, hc⟩ := exists_isAt hcall
  obtain ⟨a, _, rfl, -, b, _, rfl, -, rfl⟩ := areCanonical_of_isCallOf hcall hc h hmatch
  refine ⟨a, b, ?_⟩
  rw [parsePair_eq, hvalue, readCall_of_isRawOf hcall hc h hmatch]
  rfl

theorem parseWethDeposit_of_isRawOf (h : IsRawOf target s inputs raw)
    (hmatch : (callOf target s inputs).IsCallOf .wethDeposit) :
    parseWethDeposit mainnet raw = .ok (some (.wethDeposit raw.value)) := by
  have hcall : knownCall? .wethDeposit = some ⟨"weth-token", ⟨"deposit", []⟩, []⟩ := rfl
  obtain ⟨c, hc⟩ := exists_isAt hcall
  rw [parseWethDeposit_eq, readCall_of_isRawOf hcall hc h hmatch]

theorem parseStream_of_isRawOf (h : IsRawOf target s inputs raw) (hvalue : raw.value = .int 0)
    (hmatch : (callOf target s inputs).IsCallOf .stream) :
    ∃ o, parseStream mainnet raw = .ok o ∧
      (o.isSome = true ↔ (callOf target s inputs).HasStreamToken) := by
  have hcall : knownCall? .stream = some ⟨"stream-factory",
      ⟨"createStream", ["address", "uint256", "address", "uint256", "uint256", "uint8", "address"]⟩,
      [.address, .uint 256, .address, .uint 256, .uint 256, .uint 8, .address]⟩ := rfl
  obtain ⟨c, hc⟩ := exists_isAt hcall
  obtain ⟨receiver, _, rfl, -, amount, _, rfl, -, token, _, rfl, ⟨a, rfl, ha⟩, start, _, rfl, -, stop, _,
    rfl, -, nonce, _, rfl, -, contract, _, rfl, -, rfl⟩ := areCanonical_of_isCallOf hcall hc h hmatch
  refine ⟨(currencyAt? mainnet (.text a)).map fun currency =>
    .stream ⟨receiver, .currency currency, amount, start, stop, contract, nonce⟩, ?_, ?_⟩
  · rw [parseStream_eq, hvalue, readCall_of_isRawOf hcall hc h hmatch]
    rfl
  · rw [Option.isSome_map, currencyAt?_isSome_iff ha]
    constructor
    · rintro ⟨name, c, hname, hfound, rfl⟩
      exact ⟨receiver, amount, _, name, c, hname, hfound, rfl⟩
    · rintro ⟨_, _, _, name, c, hname, hfound, hinputs⟩
      cases Value.list.inj hinputs
      exact ⟨name, c, hname, hfound, rfl⟩

theorem parseTreasuryNounTransfer_of_isRawOf (h : IsRawOf target s inputs raw)
    (hvalue : raw.value = .int 0) (hmatch : (callOf target s inputs).IsCallOf .treasuryNounTransfer) :
    ∃ o, parseTreasuryNounTransfer mainnet raw = .ok o ∧
      (o.isSome = true ↔ (callOf target s inputs).IsFromExecutor) := by
  have hcall : knownCall? .treasuryNounTransfer = some ⟨"token",
      ⟨"safeTransferFrom", ["address", "address", "uint256"]⟩, [.address, .address, .uint 256]⟩ := rfl
  obtain ⟨c, hc⟩ := exists_isAt hcall
  obtain ⟨_, _, rfl, ⟨giver, rfl, hgiver⟩, receiver, _, rfl, -, nounId, _, rfl, -, rfl⟩ :=
    areCanonical_of_isCallOf hcall hc h hmatch
  obtain ⟨executor, hexecutor⟩ :
      ∃ executor, mainnet.registry.lookup? mainnet.chain "executor" = some executor := ⟨_, rfl⟩
  obtain ⟨-, haddress, -⟩ := isSound_mainnet.named _ executor hexecutor
  refine ⟨if giver = executor.address then some (.treasuryNounTransfer receiver nounId) else none,
    ?_, ?_⟩
  · rw [parseTreasuryNounTransfer_eq, hexecutor, hvalue]
    refine (readCall_of_isRawOf hcall hc h hmatch _).trans ?_
    by_cases hsame : giver = executor.address
    · rw [if_pos hsame, hsame, nounOf, sameAddress_self haddress]
      rfl
    · rw [if_neg hsame, nounOf, sameAddress_of_ne hgiver haddress hsame]
      rfl
  · constructor
    · intro hsome
      have hsame : giver = executor.address := by
        by_contra hne
        rw [if_neg hne] at hsome
        exact absurd hsome (by simp)
      exact ⟨executor, _, hexecutor, by rw [callOf, hsame]⟩
    · rintro ⟨executor', _, hexecutor', hinputs⟩
      obtain rfl : executor = executor' := Option.some.inj (hexecutor.symm.trans hexecutor')
      cases Value.list.inj hinputs
      rw [if_pos rfl]
      rfl

/-- **A codec of a known function reads a call without value** just if the call is one of the function
    and its inputs are those that the codec asks for. -/
theorem parseAs_known (hcall : knownCall? kind = some known) (h : IsRawOf target s inputs raw)
    (hvalue : raw.value = .int 0) :
    ∃ o, parseAs kind mainnet raw = .ok o ∧
      (o.isSome = true ↔ (callOf target s inputs).IsKnownAs kind) := by
  by_cases hmatch : (callOf target s inputs).IsCallOf kind
  · cases kind with
    | usdcTransferViaPayer | usdcApproval | wethTransfer | wethApproval =>
      obtain ⟨a, b, hparse⟩ := parsePair_of_isRawOf rfl h hvalue hmatch _
      exact ⟨_, hparse, iff_of_true rfl ⟨hmatch, nofun, nofun⟩⟩
    | wethDeposit =>
      exact ⟨_, parseWethDeposit_of_isRawOf h hmatch, iff_of_true rfl ⟨hmatch, nofun, nofun⟩⟩
    | stream =>
      obtain ⟨o, hparse, ho⟩ := parseStream_of_isRawOf h hvalue hmatch
      exact ⟨o, hparse, ho.trans ⟨fun htoken => ⟨hmatch, fun _ => htoken, nofun⟩, fun hk => hk.2.1 rfl⟩⟩
    | treasuryNounTransfer =>
      obtain ⟨o, hparse, ho⟩ := parseTreasuryNounTransfer_of_isRawOf h hvalue hmatch
      exact ⟨o, hparse, ho.trans ⟨fun hfrom => ⟨hmatch, nofun, fun _ => hfrom⟩, fun hk => hk.2.2 rfl⟩⟩
    | _ => exact absurd hcall (by simp [knownCall?])
  · exact ⟨none, parseAs_of_not_isCallOf hcall h hmatch,
      iff_of_false (by simp) fun hknown => hmatch hknown.1⟩

/-- **With a value, only the codec of deposits reads a call.** -/
theorem parseAs_known_payable (hcall : knownCall? kind = some known) (h : IsRawOf target s inputs raw)
    (hvalue : raw.value.isZero = false) :
    ∃ o, parseAs kind mainnet raw = .ok o ∧
      (o.isSome = true ↔ kind = .wethDeposit ∧ (callOf target s inputs).IsCallOf .wethDeposit) := by
  have hskip : ∀ p : Parsed, (if !raw.value.isZero then .ok none else p) = .ok none := fun p => by
    rw [hvalue]; rfl
  cases kind with
  | usdcTransferViaPayer | usdcApproval | wethTransfer | wethApproval =>
    exact ⟨none, (parsePair_eq _ _ _ _ _).trans (hskip _), by simp⟩
  | stream => exact ⟨none, (parseStream_eq _ _).trans (hskip _), by simp⟩
  | treasuryNounTransfer =>
    have hparse : parseTreasuryNounTransfer mainnet raw = .ok none := by
      rw [parseTreasuryNounTransfer_eq]
      split
      · rfl
      · exact hskip _
    exact ⟨none, hparse, by simp⟩
  | wethDeposit =>
    by_cases hmatch : (callOf target s inputs).IsCallOf .wethDeposit
    · exact ⟨_, parseWethDeposit_of_isRawOf h hmatch, iff_of_true rfl ⟨rfl, hmatch⟩⟩
    · exact ⟨none, parseAs_of_not_isCallOf hcall h hmatch,
        iff_of_false (by simp) fun hk => hmatch hk.2⟩
  | _ => exact absurd hcall (by simp [knownCall?])

end Codec

end Proposals
