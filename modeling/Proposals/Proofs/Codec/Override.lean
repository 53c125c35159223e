import Proposals.Proofs.Call
import Proposals.Proofs.Registry.File
import Proposals.Proofs.Valid

/-!
# `Proofs.Codec.Override` — known functions with other argument lists

A contracts file may give the function of a known call other argument types. The codec of the call goes by
what the registry has: it matches calls of the new signature, decodes them by the new types, and then
takes apart as many arguments as the well-known function has.

It keeps what it reads exactly if there are that many arguments, and those that it replaces by addresses
of the registry are such addresses, in normal form, already (`AreUsable`, `keeps_iff_areUsable`).
Otherwise the codec fails, or writes another call than it has read, or none (`not_keeps`). Both rest on
encoding: canonical arguments are encoded to the calldata that they were read from, and different ones
never are.
-/

namespace Proposals

open Proposals.Abi Proposals.Outcome Proposals.Text

/-! ## An address among the arguments -/

namespace Abi

/-- An address that is encoded is canonical, as an address or as a text. -/
theorem isCanonical_of_encode?_text {c : Coder} {a : String} (ha : IsNormalAddress a) {e : List UInt8}
    (h : Coder.encode? c (.text a) = some e) : c.IsCanonical (.text a) := by
  cases c with
  | address => exact ⟨a, rfl, ha⟩
  | string => exact ⟨a, rfl⟩
  | array item length => cases length <;> exact absurd h (by simp [Coder.encode?])
  | _ => exact absurd h (by simp [Coder.encode?, encodeFixedValue?])

/-- Preparing leaves an address in normal form as it is, or refuses it. -/
theorem eq_of_prepare_text {t : AbiType} {a : String} (ha : IsNormalAddress a) {w : Value}
    (h : prepare t (.text a) = .ok w) : w = .text a := by
  cases t with
  | basic base size =>
    have hnormal : addressOfText? a = some a := ha
    by_cases hbase : base = "address"
    · simp only [prepare, hbase, beq_self_eq_true, if_true, hnormal] at h
      exact (Except.ok.inj h).symm
    · simp only [prepare, beq_eq_false_iff_ne.mpr hbase, Bool.false_eq_true, if_false] at h
      exact (Except.ok.inj h).symm
  | _ =>
    rw [prepare] at h
    cases h

/-- Preparing arguments is preparing the first and the others. -/
theorem prepareArguments_cons {types : List Value} {v : Value} {vs : List Value} {t : AbiType}
    {ts : List AbiType} {ws : List Value} (h : prepareArguments types (v :: vs) = .ok (t :: ts, ws)) :
    ∃ rest w ws', prepare t v = .ok w ∧ prepareArguments rest vs = .ok (ts, ws') ∧ ws = w :: ws' := by
  cases types with
  | nil => exact absurd h nofun
  | cons type types =>
    rw [prepareArguments] at h
    obtain ⟨t', -, h⟩ := bind_eq_ok.mp h
    obtain ⟨w, hw, h⟩ := bind_eq_ok.mp h
    obtain ⟨⟨ts', ws'⟩, hws, h⟩ := bind_eq_ok.mp h
    cases h
    exact ⟨types, w, ws', hw, hws, rfl⟩

/-- Among canonical arguments, an address that is encoded in place of another one is canonical too. -/
theorem areCanonical_of_prepareArguments {types : List Value} {abiTypes : List AbiType}
    {coders : List Coder} (hof : Coder.ofTypes? abiTypes = some coders) {before after : List Value}
    {v : Value} (hvs : Coder.AreCanonical coders (before ++ v :: after)) {a : String}
    (ha : IsNormalAddress a) {ws : List Value}
    (hprepare : prepareArguments types (before ++ .text a :: after) = .ok (abiTypes, ws))
    {parts : List Part} (hparts : Coder.encodeParts? coders ws = some parts) :
    Coder.AreCanonical coders (before ++ .text a :: after) := by
  induction before generalizing types abiTypes coders ws parts with
  | nil =>
    cases abiTypes with
    | nil => cases hof; exact absurd hvs (List.cons_ne_nil _ _)
    | cons t ts =>
      simp only [Coder.ofTypes?, Option.bind_eq_bind, Option.bind_eq_some_iff, Option.pure_def,
        Option.some.injEq] at hof
      obtain ⟨c, -, cs, -, rfl⟩ := hof
      obtain ⟨_, _, heq, -, hafter⟩ := hvs
      cases heq
      obtain ⟨_, w, ws', hw, -, rfl⟩ := prepareArguments_cons hprepare
      obtain rfl := eq_of_prepare_text ha hw
      simp only [Coder.encodeParts?, Option.bind_eq_bind, Option.bind_eq_some_iff] at hparts
      obtain ⟨e, he, -⟩ := hparts
      exact ⟨_, _, rfl, isCanonical_of_encode?_text ha he, hafter⟩
  | cons u before ih =>
    cases abiTypes with
    | nil => cases hof; exact absurd hvs (List.cons_ne_nil _ _)
    | cons t ts =>
      simp only [Coder.ofTypes?, Option.bind_eq_bind, Option.bind_eq_some_iff, Option.pure_def,
        Option.some.injEq] at hof
      obtain ⟨c, -, cs, hcs, rfl⟩ := hof
      obtain ⟨_, _, heq, hu, hrest⟩ := hvs
      cases heq
      obtain ⟨_, w, ws', -, hws, rfl⟩ := prepareArguments_cons hprepare
      simp only [Coder.encodeParts?, Option.bind_eq_bind, Option.bind_eq_some_iff] at hparts
      obtain ⟨e, -, rest, hrestParts, -⟩ := hparts
      exact ⟨_, _, rfl, hu, ih hcs hrest hws hrestParts⟩

/-- **No address takes the place of another argument** without changing the calldata. -/
theorem eq_of_encodeArguments_text {types : List String} {coders : List Coder} {before after : List Value}
    {v : Value} {a calldata : String} (hcoders : HasCoders types coders)
    (hshort : calldata.length < maxLength) (ha : IsNormalAddress a)
    (hvs : Coder.AreCanonical coders (before ++ v :: after))
    (h : encodeArguments (types.map .text) (before ++ v :: after) = .ok calldata)
    (h' : encodeArguments (types.map .text) (before ++ .text a :: after) = .ok calldata) :
    v = .text a := by
  obtain ⟨-, abiTypes, coders', ws, parts, hcoders', hof, hprepare, hparts, -⟩ := encodeArguments_eq_ok h'
  obtain rfl : coders = coders' := hcoders.unique hcoders'
  have hws := areCanonical_of_prepareArguments hof hvs ha hprepare hparts
  have hsame := encodeArguments_injective hcoders hshort hvs hws h h'
  exact (List.cons.inj (List.append_cancel_left hsame)).1

end Abi

namespace Codec

variable {ctx : Context} {kind : TransactionKind} {call : KnownCall} {c : Contract} {s : Signature}
  {coders : List Coder} {raw : RawTransaction} {inputs : List Value}

/-! ## Calls of the functions of a registry -/

/-- The registry has a contract for the known call, with a function of this name whose types have layouts.
    The raw transaction is a call of this function, and its calldata are decoded. -/
structure CallsRegistered (ctx : Context) (call : KnownCall) (c : Contract) (s : Signature)
    (coders : List Coder) (raw : RawTransaction) (inputs : List Value) : Prop where
  found : ctx.registry.lookup? ctx.chain call.contract = some c
  signed : c.signatureFor (.text call.signature.name) = .ok s
  coders : HasCoders s.types coders
  matched : matchesCall ctx call.contract call.signature.name raw = .ok true
  decoded : decodeFor raw = .ok inputs

/-- The raw transaction is passed on, refused as malformed, or written in normal form from what is read of
    it. -/
def Keeps (kind : TransactionKind) (ctx : Context) (raw : RawTransaction) : Prop :=
  match parseAs kind ctx raw with
  | .ok none => True
  | .ok (some t) => ∃ normal, IsNormalOf raw normal ∧ unparseAs kind ctx t = .ok normal
  | .error fault => ∃ cause, fault = .malformed cause

/-- The codec of the kind does not pass the raw transaction on before it looks at the call. -/
def LooksAt (ctx : Context) (raw : RawTransaction) : TransactionKind → Prop
  | .wethDeposit => True
  | .treasuryNounTransfer =>
    raw.value.isZero = true ∧ (ctx.registry.lookup? ctx.chain "executor").isSome = true
  | _ => raw.value.isZero = true

/-- The codec of the kind can rebuild the arguments: there are as many as it takes apart, and one that it
    replaces by an address of the registry is in normal form. -/
def AreUsable (ctx : Context) : TransactionKind → List Value → Prop
  | .wethDeposit, inputs => inputs = []
  | .stream, inputs =>
    inputs.length = 7 ∧ ∀ token ∈ inputs[2]?, (currencyAt? ctx token).isSome = true → token.IsAccount
  | .treasuryNounTransfer, inputs =>
    inputs.length = 3 ∧ ∀ giver ∈ inputs[0]?, ∀ executor ∈ ctx.registry.lookup? ctx.chain "executor",
      sameAddress giver (.text executor.address) = true → giver.IsAccount
  | _, inputs => inputs.length = 2

theorem keeps_of_none (h : parseAs kind ctx raw = .ok none) : Keeps kind ctx raw := by
  unfold Keeps
  rw [h]
  trivial

theorem keeps_iff_of_some {t : Transaction} (h : parseAs kind ctx raw = .ok (some t)) :
    Keeps kind ctx raw ↔ ∃ normal, IsNormalOf raw normal ∧ unparseAs kind ctx t = .ok normal := by
  unfold Keeps
  rw [h]

/-- A fault of unchecked data is no refusal. -/
theorem not_keeps_of_data {cause : DataFault} (h : parseAs kind ctx raw = .error (.data cause)) :
    ¬ Keeps kind ctx raw := by
  unfold Keeps
  rw [h]
  exact fun ⟨_, hcause⟩ => nomatch hcause

namespace CallsRegistered

/-- The call is written in normal form from its arguments. -/
theorem written (h : CallsRegistered ctx call c s coders raw inputs)
    (haddress : IsNormalAddress c.address) :
    ∃ normal, IsNormalOf raw normal ∧
      encodeCall c call.signature.name inputs raw.value = .ok normal :=
  (encodeCall_of_matchesCall h.found haddress h.signed h.coders h.matched h.decoded).2

/-- There are as many arguments as types. -/
theorem length_eq (h : CallsRegistered ctx call c s coders raw inputs)
    (haddress : IsNormalAddress c.address) : s.types.length = inputs.length := by
  obtain ⟨normal, -, hencode⟩ := h.written haddress
  obtain ⟨s', calldata, hs, hcalldata, -⟩ := encodeCall_eq_ok hencode
  obtain rfl : s = s' := Except.ok.inj (h.signed.symm.trans hs)
  exact (encodeArguments_eq_ok hcalldata).1

/-- **The same call is written with an address in place of an argument only if it is this argument.** -/
theorem eq_text (before : List Value) {after : List Value} {v : Value}
    (h : CallsRegistered ctx call c s coders raw (before ++ v :: after))
    (haddress : IsNormalAddress c.address)
    (hshort : ∀ calldata, raw.calldata = .text calldata → calldata.length < maxLength) {a : String}
    (ha : IsNormalAddress a) {normal : RawTransaction} (hnormal : IsNormalOf raw normal)
    (hencode : encodeCall c call.signature.name (before ++ .text a :: after) raw.value = .ok normal) :
    v = .text a := by
  obtain ⟨hcanonical, normal', hnormal', hencode'⟩ :=
    encodeCall_of_matchesCall h.found haddress h.signed h.coders h.matched h.decoded
  obtain rfl : normal = normal' := Except.ok.inj (hnormal.normalForm_eq.symm.trans hnormal'.normalForm_eq)
  obtain ⟨s₁, calldata, hs₁, hcalldata, hsame⟩ := encodeCall_eq_ok hencode
  obtain ⟨s₂, calldata', hs₂, hcalldata', hsame'⟩ := encodeCall_eq_ok hencode'
  obtain rfl : s = s₁ := Except.ok.inj (h.signed.symm.trans hs₁)
  obtain rfl : s = s₂ := Except.ok.inj (h.signed.symm.trans hs₂)
  rw [hsame] at hsame' hnormal
  obtain rfl : calldata = calldata' := Value.text.inj (congrArg RawTransaction.calldata hsame')
  -- the case of the digits does not change the length
  have hlimit : calldata.length < maxLength := by
    rcases hnormal.call with ⟨-, -, heq⟩ | ⟨_, written, -, hwritten, -, heq⟩
    · exact hshort calldata heq.symm
    · rw [Value.text.inj heq, lowerHex, String.length_ofList, length_lowerAscii, String.length_toList]
      exact hshort written hwritten
  exact eq_of_encodeArguments_text h.coders hlimit ha hcanonical hcalldata' hcalldata

end CallsRegistered

/-! ## Each codec -/

/-- A codec that passes on what has a value keeps it. -/
theorem keeps_guarded {p : Parsed} {P : Prop}
    (hparse : parseAs kind ctx raw = if !raw.value.isZero then .ok none else p)
    (h : raw.value.isZero = true → parseAs kind ctx raw = p → (Keeps kind ctx raw ↔ P)) :
    Keeps kind ctx raw ↔ (raw.value.isZero = true → P) := by
  cases hzero : raw.value.isZero with
  | false =>
    rw [hzero] at hparse
    exact iff_of_true (keeps_of_none hparse) nofun
  | true =>
    rw [hzero] at hparse
    exact (h hzero hparse).trans (imp_iff_right rfl).symm

/-- Two arguments make a transaction, and no other number of them does. -/
theorem pairOf_cases (make : Value → Value → Transaction) (inputs : List Value) :
    (∃ a b, inputs = [a, b]) ∨ inputs.length ≠ 2 ∧ pairOf make inputs = .error (.data .badValue) := by
  match inputs with
  | [a, b] => exact .inl ⟨a, b, rfl⟩
  | [] | [_] | _ :: _ :: _ :: _ => exact .inr ⟨by simp, rfl⟩

/-- Seven arguments make a stream, and no other number of them does. -/
theorem streamOf_cases (ctx : Context) (inputs : List Value) :
    (∃ receiver amount token start stop nonce contract,
        inputs = [receiver, amount, token, start, stop, nonce, contract]) ∨
      inputs.length ≠ 7 ∧ streamOf ctx inputs = .error (.data .badValue) := by
  match inputs with
  | [receiver, amount, token, start, stop, nonce, contract] =>
    exact .inl ⟨receiver, amount, token, start, stop, nonce, contract, rfl⟩
  | [] | [_] | [_, _] | [_, _, _] | [_, _, _, _] | [_, _, _, _, _] | [_, _, _, _, _, _]
  | _ :: _ :: _ :: _ :: _ :: _ :: _ :: _ :: _ => exact .inr ⟨by simp, rfl⟩

/-- Three arguments make the transfer of a noun, and no other number of them does. -/
theorem nounOf_cases (sender : String) (inputs : List Value) :
    (∃ giver receiver nounId, inputs = [giver, receiver, nounId]) ∨
      inputs.length ≠ 3 ∧ nounOf sender inputs = .error (.data .badValue) := by
  match inputs with
  | [giver, receiver, nounId] => exact .inl ⟨giver, receiver, nounId, rfl⟩
  | [] | [_] | [_, _] | _ :: _ :: _ :: _ :: _ => exact .inr ⟨by simp, rfl⟩

/-- The codec of a call with a receiver and an amount keeps what has two arguments. -/
theorem keeps_pair {contract function first second : String} {types : List String} {cs : List Coder}
    {make : Value → Value → Transaction}
    (hparse : parseAs kind ctx raw = parsePair contract function make ctx raw)
    (hunparse : ∀ t, unparseAs kind ctx t = unparsePair contract function first second ctx t)
    (hfields : ∀ a b, (make a b).field first = .ok a ∧ (make a b).field second = .ok b)
    (hvalue : raw.value.IsNatural) (haddress : IsNormalAddress c.address)
    (h : CallsRegistered ctx ⟨contract, ⟨function, types⟩, cs⟩ c s coders raw inputs) :
    Keeps kind ctx raw ↔ (raw.value.isZero = true → inputs.length = 2) := by
  refine keeps_guarded (hparse.trans (parsePair_eq ..)) fun hzero hparse => ?_
  rw [readCall_of_matchesCall h.matched h.decoded] at hparse
  rcases pairOf_cases make inputs with ⟨a, b, rfl⟩ | ⟨hlength, hfault⟩
  · refine iff_of_true ((keeps_iff_of_some hparse).mpr ?_) rfl
    obtain ⟨normal, hnormal, hencode⟩ := h.written haddress
    rw [hvalue.eq_zero hzero] at hencode
    refine ⟨normal, hnormal, (hunparse _).trans ?_⟩
    unfold unparsePair
    rw [resolve_of_lookup? h.found, ok_bind, (hfields a b).1, ok_bind, (hfields a b).2]
    exact hencode
  · exact iff_of_false (not_keeps_of_data (hparse.trans hfault)) hlength

/-- The codec of deposits keeps what has no arguments. -/
theorem keeps_wethDeposit {types : List String} {cs : List Coder} (haddress : IsNormalAddress c.address)
    (h : CallsRegistered ctx ⟨"weth-token", ⟨"deposit", types⟩, cs⟩ c s coders raw inputs) :
    Keeps .wethDeposit ctx raw ↔ inputs = [] := by
  have hparse : parseAs .wethDeposit ctx raw = .ok (some (.wethDeposit raw.value)) := by
    show parseWethDeposit ctx raw = _
    rw [parseWethDeposit_eq]
    exact readCall_of_matchesCall h.matched h.decoded _
  have hunparse : unparseAs .wethDeposit ctx (.wethDeposit raw.value) =
      encodeCall c "deposit" [] raw.value := by
    show (ctx.resolve "weth-token" >>= _) = _
    rw [resolve_of_lookup? h.found]
    rfl
  rw [keeps_iff_of_some hparse, hunparse]
  constructor
  · rintro ⟨normal, -, hencode⟩
    -- without arguments a call is only written if there are no types
    obtain ⟨s', calldata, hs, hcalldata, -⟩ := encodeCall_eq_ok hencode
    obtain rfl : s = s' := Except.ok.inj (h.signed.symm.trans hs)
    have hnone : inputs.length = 0 := (h.length_eq haddress).symm.trans (encodeArguments_eq_ok hcalldata).1
    exact List.length_eq_zero_iff.mp hnone
  · rintro rfl
    exact h.written haddress

/-- The codec of streams keeps what has seven arguments, if a token among them is an account. -/
theorem keeps_stream {types : List String} {cs : List Coder}
    (hindexed : (ctx.registry.chain ctx.chain).IsIndexed) (hvalue : raw.value.IsNatural)
    (hshort : ∀ calldata, raw.calldata = .text calldata → calldata.length < maxLength)
    (h : CallsRegistered ctx ⟨"stream-factory", ⟨"createStream", types⟩, cs⟩ c s coders raw inputs) :
    Keeps .stream ctx raw ↔ (raw.value.isZero = true → AreUsable ctx .stream inputs) := by
  obtain ⟨-, haddress, -⟩ := hindexed.named _ c h.found
  refine keeps_guarded (parseStream_eq ctx raw) fun hzero hparse => ?_
  rw [readCall_of_matchesCall h.matched h.decoded] at hparse
  rcases streamOf_cases ctx inputs with
    ⟨receiver, amount, token, start, stop, nonce, contract, rfl⟩ | ⟨hlength, hfault⟩
  · rw [streamOf] at hparse
    cases hcurrency : currencyAt? ctx token with
    | none =>
      rw [hcurrency] at hparse
      refine iff_of_true (keeps_of_none hparse) ⟨rfl, ?_⟩
      rintro _ ⟨⟩ hsome
      rw [hcurrency] at hsome
      cases hsome
    | some currency =>
      rw [hcurrency] at hparse
      obtain ⟨-, name, tokenContract, hname, hresolve, htoken⟩ :=
        currencyAt?_sound hindexed.placed hcurrency
      obtain ⟨-, hplace, -⟩ := hindexed.named name tokenContract (resolve_eq_ok hresolve)
      have hunparse : unparseAs .stream ctx _ = _ := unparseStream_eq
        (s := ⟨receiver, .currency currency, amount, start, stop, contract, nonce⟩) hname hresolve
        (resolve_of_lookup? h.found)
      rw [keeps_iff_of_some hparse, hunparse, ← hvalue.eq_zero hzero]
      constructor
      · rintro ⟨normal, hnormal, hencode⟩
        have hsame : token = .text tokenContract.address :=
          h.eq_text [receiver, amount] haddress hshort hplace hnormal hencode
        refine ⟨rfl, ?_⟩
        rintro _ ⟨⟩ -
        exact ⟨_, hsame, hplace⟩
      · rintro ⟨-, husable⟩
        obtain rfl := (husable token rfl (by rw [hcurrency]; rfl)).eq_of_toAddress? htoken
        exact h.written haddress
  · exact iff_of_false (not_keeps_of_data (hparse.trans hfault)) fun husable => hlength husable.1

/-- The codec of nouns keeps what has three arguments, if the executor among them is an account. -/
theorem keeps_treasuryNounTransfer {types : List String} {cs : List Coder}
    (hindexed : (ctx.registry.chain ctx.chain).IsIndexed) (hvalue : raw.value.IsNatural)
    (hshort : ∀ calldata, raw.calldata = .text calldata → calldata.length < maxLength)
    (h : CallsRegistered ctx ⟨"token", ⟨"safeTransferFrom", types⟩, cs⟩ c s coders raw inputs) :
    Keeps .treasuryNounTransfer ctx raw ↔
      (LooksAt ctx raw .treasuryNounTransfer → AreUsable ctx .treasuryNounTransfer inputs) := by
  obtain ⟨-, haddress, -⟩ := hindexed.named _ c h.found
  have heq : parseAs .treasuryNounTransfer ctx raw = _ := parseTreasuryNounTransfer_eq ctx raw
  unfold LooksAt
  cases hexecutor : ctx.registry.lookup? ctx.chain "executor" with
  | none =>
    rw [hexecutor] at heq
    exact iff_of_true (keeps_of_none heq) fun hlooks => absurd hlooks.2 Bool.false_ne_true
  | some executor =>
    rw [hexecutor] at heq
    obtain ⟨-, hplace, -⟩ := hindexed.named _ executor hexecutor
    rw [Option.isSome_some, and_iff_left rfl]
    refine keeps_guarded heq fun hzero hparse => ?_
    rw [readCall_of_matchesCall h.matched h.decoded] at hparse
    rcases nounOf_cases executor.address inputs with ⟨giver, receiver, nounId, rfl⟩ | ⟨hlength, hfault⟩
    · rw [nounOf] at hparse
      cases hsame : sameAddress giver (.text executor.address) with
      | false =>
        rw [hsame] at hparse
        refine iff_of_true (keeps_of_none hparse) ⟨rfl, ?_⟩
        rintro _ ⟨⟩ executor' hexecutor' hsame'
        obtain rfl : executor = executor' := Option.some.inj (hexecutor.symm.trans hexecutor')
        exact absurd (hsame.symm.trans hsame') Bool.false_ne_true
      | true =>
        rw [hsame] at hparse
        have hunparse : unparseAs .treasuryNounTransfer ctx (.treasuryNounTransfer receiver nounId) =
            encodeCall c "safeTransferFrom" [.text executor.address, receiver, nounId] := by
          show (ctx.resolve "executor" >>= _) = _
          rw [resolve_of_lookup? hexecutor, ok_bind, resolve_of_lookup? h.found]
          rfl
        rw [keeps_iff_of_some hparse, hunparse, ← hvalue.eq_zero hzero]
        constructor
        · rintro ⟨normal, hnormal, hencode⟩
          refine ⟨rfl, ?_⟩
          rintro _ ⟨⟩ _ - -
          exact ⟨_, h.eq_text [] haddress hshort hplace hnormal hencode, hplace⟩
        · rintro ⟨-, husable⟩
          obtain rfl := (husable giver rfl executor hexecutor hsame).eq_of_sameAddress hplace hsame
          exact h.written haddress
    · exact iff_of_false (not_keeps_of_data (hparse.trans hfault)) fun husable => hlength husable.1

/-- **A codec keeps calls of the function that a registry has** for it exactly if it passes them on before it
    looks at them, or can rebuild their arguments. -/
theorem keeps_iff_areUsable {file : Option String} (hload : Registry.load file = .ok ctx.registry)
    {w : Wire} {raws : List RawTransaction} (hwire : fromWire w = .ok raws) (hraw : raw ∈ raws)
    (hshort : ∀ calldata, raw.calldata = .text calldata → calldata.length < maxLength)
    (hcall : knownCall? kind = some call) (h : CallsRegistered ctx call c s coders raw inputs) :
    Keeps kind ctx raw ↔ (LooksAt ctx raw kind → AreUsable ctx kind inputs) := by
  have hindexed := Registry.isIndexed_of_load hload ctx.chain
  have hvalue : raw.value.IsNatural := (checked_of_fromWire hwire hraw).1.isNatural
  obtain ⟨-, haddress, -⟩ := hindexed.named _ c h.found
  cases kind with
  | usdcTransferViaPayer | usdcApproval | wethTransfer | wethApproval =>
    cases hcall
    exact keeps_pair rfl (fun _ => rfl) (fun _ _ => ⟨rfl, rfl⟩) hvalue haddress h
  | wethDeposit =>
    cases hcall
    exact (keeps_wethDeposit haddress h).trans (imp_iff_right trivial).symm
  | stream =>
    cases hcall
    exact keeps_stream hindexed hvalue hshort h
  | treasuryNounTransfer =>
    cases hcall
    exact keeps_treasuryNounTransfer hindexed hvalue hshort h
  | _ => exact absurd hcall nofun

/-- **Canonical words are the arguments of a call** that can be put into a proposal, whatever words the
    function of the registry takes. -/
theorem callsRegistered_callWith {other : KnownCall} (hc : Offers c other)
    (hfound : ctx.registry.lookup? ctx.chain other.contract = some c) (haddress : IsNormalAddress c.address)
    (hinputs : Coder.AreCanonical other.coders inputs) {parts : List Part}
    (hparts : Coder.encodeParts? other.coders inputs = some parts) (types : List String) (cs : List Coder) :
    (callWith c other.signature parts (.int 0)).IsValid ∧
      CallsRegistered ctx ⟨other.contract, ⟨other.signature.name, types⟩, cs⟩ c other.signature other.coders
        (callWith c other.signature parts (.int 0)) inputs := by
  have hencode := encodeCall_eq_callWith hc hinputs hparts (.int 0)
  have hready : List.Forall₂ IsReady other.coders inputs :=
    hinputs.fits.imp fun coder v hfits (_ : coder = .address) => hfits
  obtain ⟨hcalls, -, -, hdecode⟩ := encodeCall_sound hc hready hencode
  obtain ⟨decoded, hdecoded, -⟩ := decodeFor_eq_ok hdecode
  obtain ⟨s, calldata, -, hcalldata, hsame⟩ := encodeCall_eq_ok hencode
  have hmatched := matchesCall_of_calls hfound haddress hc hcalls
  refine ⟨⟨haddress.isAddressText, isAmount_zero, ?_, .inr ⟨decoded, hdecoded⟩⟩,
    ⟨hfound, hc.signed, hc.coders, hmatched, hdecode⟩⟩
  rw [congrArg RawTransaction.calldata hsame]
  exact isCalldata_of_encodeArguments hcalldata

/-- Wrapped ether whose deposits have an argument and whose transfers are between numbers. -/
def otherWeth : Contract :=
  ⟨"weth-token", "0xc02aaa39b223fe8d0a0e5c4f27ead9083c756cc2",
    [.text "deposit(uint256)", .text "transfer(uint256,uint128)"]⟩

/-- A contracts file with this contract. -/
def otherWethFile : List (String × Value) :=
  [("1", .dict [("weth-token", .dict [("address", .text otherWeth.address), ("abi", .list otherWeth.abi)])])]

/-- The built-in contracts with this one in its place. -/
def otherWethContracts : List Contract :=
  Registry.builtInContracts.map fun c => if c.name = "weth-token" then otherWeth else c

/-- The surroundings of codecs with these contracts. -/
def otherWethContext : Context := ⟨1, Registry.onChain 1 otherWethContracts⟩

theorem isNormalAddress_otherWeth : ∀ c ∈ otherWethContracts, IsNormalAddress c.address := by
  refine List.forall_mem_map.mpr fun c hc => ?_
  split
  · exact rfl
  · exact Registry.isNormalAddress_builtIn c hc

theorem exists_load_otherWeth : ∃ file, Registry.load (some file) = .ok otherWethContext.registry := by
  have hd : (Value.dict otherWethFile).IsDocument :=
    ⟨by decide, ⟨by decide, ⟨by decide, trivial, ⟨trivial, trivial, trivial⟩, trivial⟩, trivial⟩, trivial⟩
  have hover : Registry.overlay Registry.builtInOverlay otherWethFile =
    .ok [(1, otherWethContracts.map fun c => (c.name, c))] := rfl
  exact Registry.exists_load_eq_ok hd hover isNormalAddress_otherWeth

/-- A transfer by its function. -/
def otherTransfer : RawTransaction :=
  callWith otherWeth ⟨"transfer", ["uint256", "uint128"]⟩ [(false, word 5), (false, word 7)] (.int 0)

theorem callsRegistered_otherTransfer :
    otherTransfer.IsValid ∧ CallsRegistered otherWethContext
      ⟨"weth-token", ⟨"transfer", ["address", "uint256"]⟩, [.address, .uint 256]⟩ otherWeth
      ⟨"transfer", ["uint256", "uint128"]⟩ [.uint 256, .uint 128] otherTransfer [.int 5, .int 7] := by
  have hoffers : Offers otherWeth
      ⟨"weth-token", ⟨"transfer", ["uint256", "uint128"]⟩, [.uint 256, .uint 128]⟩ :=
    ⟨rfl, ⟨_, rfl, rfl⟩, by simp [Coder.IsWord]⟩
  have hcanonical : Coder.AreCanonical [.uint 256, .uint 128] [.int 5, .int 7] :=
    ⟨_, _, rfl, ⟨5, rfl, by decide⟩, _, _, rfl, ⟨7, rfl, by decide⟩, rfl⟩
  have hparts : Coder.encodeParts? [.uint 256, .uint 128] [.int 5, .int 7] =
    some [(false, word 5), (false, word 7)] := rfl
  have hfound : otherWethContext.registry.lookup? otherWethContext.chain "weth-token" = some otherWeth := rfl
  exact callsRegistered_callWith hoffers hfound rfl hcanonical hparts _ _

/-- A transfer has two arguments as before, and is kept. -/
theorem keeps_iff_areUsable_transfer :
    ∃ file, Registry.load (some file) = .ok otherWethContext.registry ∧
      fromWire (toWire [otherTransfer]) = .ok [otherTransfer] ∧
      Keeps .wethTransfer otherWethContext otherTransfer := by
  obtain ⟨file, hfile⟩ := exists_load_otherWeth
  obtain ⟨hvalid, hcalls⟩ := callsRegistered_otherTransfer
  have hcall : knownCall? .wethTransfer =
    some ⟨"weth-token", ⟨"transfer", ["address", "uint256"]⟩, [.address, .uint 256]⟩ := rfl
  have hwire : fromWire (toWire [otherTransfer]) = .ok [otherTransfer] :=
    fromWire_toWire (List.forall_mem_singleton.mpr hvalid)
  have hlength : (bytesToHex (assemble [(false, word 5), (false, word 7)])).length < maxLength := by
    decide +kernel
  have hshort : ∀ calldata, otherTransfer.calldata = .text calldata → calldata.length < maxLength := by
    intro calldata hcalldata
    rw [← Value.text.inj hcalldata, String.length_ofList]
    exact hlength
  have hraw : otherTransfer ∈ [otherTransfer] := List.mem_singleton_self _
  have hpair : AreUsable otherWethContext .wethTransfer [.int 5, .int 7] := rfl
  refine ⟨file, hfile, hwire, ?_⟩
  rw [keeps_iff_areUsable hfile hwire hraw hshort hcall hcalls]
  exact fun _ => hpair

/-- **Not every call of the function of a registry is kept**: the argument of a deposit is read and dropped,
    and without it the deposit cannot be written. -/
theorem not_keeps :
    ¬ ∀ (file : Option String) (ctx : Context) (w : Wire) (raws : List RawTransaction)
      (raw : RawTransaction) (kind : TransactionKind) (call : KnownCall) (c : Contract) (s : Signature)
      (coders : List Coder) (inputs : List Value),
      Registry.load file = .ok ctx.registry → fromWire w = .ok raws → raw ∈ raws →
      knownCall? kind = some call → CallsRegistered ctx call c s coders raw inputs →
      Keeps kind ctx raw := by
  intro hall
  obtain ⟨file, hfile⟩ := exists_load_otherWeth
  have hoffers : Offers otherWeth ⟨"weth-token", ⟨"deposit", ["uint256"]⟩, [.uint 256]⟩ :=
    ⟨rfl, ⟨_, rfl, rfl⟩, by simp [Coder.IsWord]⟩
  have hcanonical : Coder.AreCanonical [.uint 256] [.int 5] := ⟨_, _, rfl, ⟨5, rfl, by decide⟩, rfl⟩
  have hparts : Coder.encodeParts? [.uint 256] [.int 5] = some [(false, word 5)] := rfl
  have hcall : knownCall? .wethDeposit = some ⟨"weth-token", ⟨"deposit", []⟩, []⟩ := rfl
  have hfound : otherWethContext.registry.lookup? otherWethContext.chain "weth-token" = some otherWeth := rfl
  have haddress : IsNormalAddress otherWeth.address := rfl
  obtain ⟨hvalid, hcalls⟩ := callsRegistered_callWith hoffers hfound haddress hcanonical hparts [] []
  have hwire := fromWire_toWire (List.forall_mem_singleton.mpr hvalid)
  have hkept := hall _ _ _ _ _ _ _ _ _ _ _ hfile hwire (List.mem_singleton_self _) hcall hcalls
  exact absurd ((keeps_wethDeposit haddress hcalls).mp hkept) (List.cons_ne_nil _ _)

end Codec

end Proposals
