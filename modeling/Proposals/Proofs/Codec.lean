import Proposals.Codec
import Proposals.Proofs.Abi.Matching
import Proposals.Proofs.Abi.Strict
import Proposals.Proofs.Registry
import Proposals.Proofs.Transaction

/-!
# `Proofs.Codec` — what is read can be written, and reads the same

Each codec drops what its pattern fixes and rebuilds it from the registry. Reading and writing again
does not give the raw transaction back but its normal form (`IsNormalOf`): the target in normal form
and, for calls, the canonical signature and calldata in small letters.

Two facts about each codec make up the round trip. Writing what was read gives the normal form
(`Reads`), where calls of well-known contracts all go through one lemma (`call_sound`). And the codec
does not tell a raw transaction from its normal form (`parseAs_normal`), so whatever read the original
reads the normal form in the same way, and whatever passed on the original passes on the normal form.
-/

namespace Proposals.Codec

open Proposals.Abi Proposals.Outcome

/-! ## Signatures of calls -/

/-- The empty text is no signature. -/
theorem signatureOf_empty : signatureOf (.text "") = .error (.abi (.badSignature "")) := rfl

theorem isText_eq_true {v : Value} {s : String} : v.isText s = true ↔ v = .text s := by
  cases v with
  | text t => simp [Value.isText]
  | _ => simp [Value.isText]

/-- What is read as a signature is not empty. -/
theorem not_isText_of_signatureOf {v : Value} {s : Signature} (h : signatureOf v = .ok s) :
    v.isText "" = false := by
  cases htext : v.isText "" with
  | false => rfl
  | true =>
    rw [isText_eq_true.mp htext, signatureOf_empty] at h
    exact absurd h (by simp)

theorem normalizeSignature_eq_ok {v : Value} {s : Signature} (h : signatureOf v = .ok s) :
    normalizeSignature v = .ok s.text := by
  unfold normalizeSignature
  rw [h]; rfl

theorem decodeFor_eq_ok {raw : RawTransaction} {inputs : List Value} (h : decodeFor raw = .ok inputs) :
    ∃ call, decodeCall raw.signature raw.calldata = .ok call ∧ call.inputs = inputs := by
  unfold decodeFor at h
  split at h
  · next call hcall => cases h; exact ⟨call, hcall, rfl⟩
  · exact absurd h (by simp)
  · exact absurd h (by simp)

theorem decodeFor_of_decodeCall {raw : RawTransaction} {call : DecodedCall}
    (h : decodeCall raw.signature raw.calldata = .ok call) : decodeFor raw = .ok call.inputs := by
  unfold decodeFor
  rw [h]

/-! ## The normal form -/

/-- The raw transaction `normal` is the normal form of `raw`, which has a target and either no
    signature or calldata that its signature decodes. -/
structure IsNormalOf (raw normal : RawTransaction) : Prop where
  target : ∃ a, raw.target.isAddress = true ∧ raw.target.toAddress? = some a ∧ normal.target = .text a
  value : normal.value = raw.value
  call : (raw.signature = .text "" ∧ normal.signature = .text "" ∧ normal.calldata = raw.calldata) ∨
    ∃ call c, decodeCall raw.signature raw.calldata = .ok call ∧ raw.calldata = .text c ∧
      normal.signature = .text (Signature.text ⟨call.name, call.types⟩) ∧
      normal.calldata = .text (lowerHex c)

namespace IsNormalOf

variable {raw normal : RawTransaction}

theorem normalForm_eq (h : IsNormalOf raw normal) : raw.normalForm = .ok normal := by
  obtain ⟨a, -, ha, htarget⟩ := h.target
  obtain ⟨target, signature, calldata, value⟩ := normal
  have hvalue := h.value
  unfold RawTransaction.normalForm
  rw [ha]
  simp only at htarget hvalue ⊢
  -- without a signature nothing but the target changes
  rcases h.call with ⟨hraw, hsignature, hcalldata⟩ | ⟨call, c, hcall, hc, hsignature, hcalldata⟩
  · rw [if_pos (isText_eq_true.mpr hraw), htarget, hvalue]
    simp only at hsignature hcalldata
    rw [hsignature, hcalldata, hraw]
  · obtain ⟨-, -, hs, -, -, -⟩ := decodeCall_sound hcall
    have hsigned := not_isText_of_signatureOf hs
    rw [if_neg (by rw [hsigned]; simp), normalizeSignature_eq_ok hs, htarget, hvalue]
    simp only at hsignature hcalldata
    rw [hsignature, hcalldata, hc]
    rfl

theorem sameAddress_eq (h : IsNormalOf raw normal) (v : Value) :
    sameAddress normal.target v = sameAddress raw.target v := by
  obtain ⟨a, haddress, ha, htarget⟩ := h.target
  rw [htarget]
  exact sameAddress_normal haddress ha

/-- Reading the target again changes nothing. -/
theorem addressOf_eq (h : IsNormalOf raw normal) {v : Value} (hv : addressOf raw.target = .ok v) :
    addressOf normal.target = .ok v := by
  obtain ⟨a, -, ha, htarget⟩ := h.target
  unfold addressOf at hv
  split at hv
  · next s hs =>
    have hnormal : addressOfText? s = some a := by rw [hs] at ha; exact ha
    rw [hnormal, Except.ok.injEq] at hv
    have hagain : addressOfText? a = some a := isNormalAddress_of_addressOfText? hnormal
    rw [htarget, ← hv]
    simp only [addressOf, hagain]
  · exact absurd hv (by simp)

theorem isSigned_eq (h : IsNormalOf raw normal) :
    normal.signature.isText "" = raw.signature.isText "" := by
  rcases h.call with ⟨hraw, hsignature, -⟩ | ⟨call, c, hcall, -, hsignature, -⟩
  · rw [hraw, hsignature]
  · obtain ⟨-, -, hs, htext, -, -⟩ := decodeCall_sound hcall
    rw [not_isText_of_signatureOf hs, hsignature]
    exact not_isText_of_signatureOf (s := ⟨call.name, call.types⟩) htext

theorem isNativeTransfer_eq (h : IsNormalOf raw normal) :
    normal.isNativeTransfer = raw.isNativeTransfer := by
  unfold RawTransaction.isNativeTransfer
  rw [h.isSigned_eq]
  rcases h.call with ⟨-, -, hcalldata⟩ | ⟨call, c, hcall, -, -, -⟩
  · rw [hcalldata]
  · obtain ⟨-, -, hs, -, -, -⟩ := decodeCall_sound hcall
    rw [not_isText_of_signatureOf hs, Bool.false_and, Bool.false_and]

theorem isUnparsed_eq (h : IsNormalOf raw normal) : isUnparsed normal = isUnparsed raw := by
  unfold isUnparsed
  rw [h.isSigned_eq]
  rcases h.call with ⟨-, -, hcalldata⟩ | ⟨call, c, hcall, -, -, -⟩
  · rw [hcalldata]
  · obtain ⟨-, -, hs, -, -, -⟩ := decodeCall_sound hcall
    rw [not_isText_of_signatureOf hs, Bool.false_and, Bool.false_and]

theorem normalizeSignature_eq (h : IsNormalOf raw normal) :
    normalizeSignature normal.signature = normalizeSignature raw.signature := by
  rcases h.call with ⟨hraw, hsignature, -⟩ | ⟨call, c, hcall, -, hsignature, -⟩
  · rw [hraw, hsignature]
  · obtain ⟨-, -, hs, htext, -, -⟩ := decodeCall_sound hcall
    rw [normalizeSignature_eq_ok hs, hsignature]
    exact normalizeSignature_eq_ok htext

/-- A call is matched in the same way. -/
theorem matchesCall_eq (h : IsNormalOf raw normal) (ctx : Context) (contract function : String) :
    matchesCall ctx contract function normal = matchesCall ctx contract function raw := by
  unfold matchesCall
  simp only [h.sameAddress_eq, signaturesMatch_congr h.normalizeSignature_eq]

/-- Calldata are decoded in the same way. -/
theorem decodeCall_eq (h : IsNormalOf raw normal) (hsigned : raw.signature.isText "" = false) :
    ∃ call, decodeCall raw.signature raw.calldata = .ok call ∧
      decodeCall normal.signature normal.calldata = .ok call := by
  rcases h.call with ⟨hraw, -, -⟩ | ⟨call, c, hcall, hc, hsignature, hcalldata⟩
  · rw [isText_eq_true.mpr hraw] at hsigned
    exact absurd hsigned (by simp)
  · obtain ⟨c', hc', -, -, -, hagain⟩ := decodeCall_sound hcall
    obtain rfl : c = c' := Value.text.inj (hc.symm.trans hc')
    exact ⟨call, hcall, by rw [hsignature, hcalldata]; exact hagain⟩

/-- Calldata without signature stay as they are. -/
theorem calldata_eq (h : IsNormalOf raw normal) (hunparsed : isUnparsed raw = true) :
    normal.calldata = raw.calldata := by
  rw [isUnparsed, Bool.and_eq_true] at hunparsed
  rcases h.call with ⟨-, -, hcalldata⟩ | ⟨call, c, hcall, -, -, -⟩
  · exact hcalldata
  · obtain ⟨-, -, hs, -, -, -⟩ := decodeCall_sound hcall
    rw [not_isText_of_signatureOf hs] at hunparsed
    exact absurd hunparsed.1 (by simp)

end IsNormalOf

/-! ## The normal form is read in the same way -/

theorem decodeFor_normal {raw normal : RawTransaction} (h : IsNormalOf raw normal)
    {inputs : List Value} (hinputs : decodeFor raw = .ok inputs) : decodeFor normal = .ok inputs := by
  obtain ⟨call, hcall, rfl⟩ := decodeFor_eq_ok hinputs
  obtain ⟨-, -, hs, -, -, -⟩ := decodeCall_sound hcall
  obtain ⟨call', hcall', hagain⟩ := h.decodeCall_eq (not_isText_of_signatureOf hs)
  obtain rfl : call = call' := Except.ok.inj (hcall.symm.trans hcall')
  exact decodeFor_of_decodeCall hagain

theorem parseCall_normal {raw normal : RawTransaction} (h : IsNormalOf raw normal)
    {call : FunctionCall} (hcall : parseCall raw = .ok call) : parseCall normal = .ok call := by
  unfold parseCall at hcall
  split at hcall
  · next decoded hdecoded =>
    obtain ⟨-, -, hs, -, -, -⟩ := decodeCall_sound hdecoded
    obtain ⟨decoded', hdecoded', hagain⟩ := h.decodeCall_eq (not_isText_of_signatureOf hs)
    obtain rfl : decoded = decoded' := Except.ok.inj (hdecoded.symm.trans hdecoded')
    obtain ⟨target, htarget, hcall⟩ := bind_eq_ok.mp hcall
    unfold parseCall
    rw [hagain]
    simp only [h.addressOf_eq htarget, ok_bind]
    exact hcall
  · exact absurd hcall (by simp)
  · exact absurd hcall (by simp)

/-- The common shape of the codecs of well-known calls: nothing if the call is another one, else what
    `use` makes of the decoded arguments. -/
def readCall (ctx : Context) (contract function : String) (use : List Value → Parsed)
    (raw : RawTransaction) : Parsed :=
  matchesCall ctx contract function raw >>= fun matched =>
    if !matched then .ok none else decodeFor raw >>= use

theorem readCall_normal {raw normal : RawTransaction} (h : IsNormalOf raw normal) {ctx : Context}
    {contract function : String} {use : List Value → Parsed} {o : Option Transaction}
    (ho : readCall ctx contract function use raw = .ok o) :
    readCall ctx contract function use normal = .ok o := by
  unfold readCall at ho ⊢
  obtain ⟨matched, hmatched, ho⟩ := bind_eq_ok.mp ho
  rw [h.matchesCall_eq, hmatched, ok_bind]
  cases matched with
  | false => exact ho
  | true =>
    obtain ⟨inputs, hinputs, ho⟩ := bind_eq_ok.mp ho
    show decodeFor normal >>= use = .ok o
    rw [decodeFor_normal h hinputs]
    exact ho

/-- The two arguments of a call make a transaction. -/
def pairOf (make : Value → Value → Transaction) : List Value → Parsed
  | [a, b] => .ok (some (make a b))
  | _ => .error (.data .badValue)

/-- The seven arguments of `createStream` make a stream, if its token is known. -/
def streamOf (ctx : Context) : List Value → Parsed
  | [receiver, amount, token, start, stop, nonce, contract] =>
    .ok ((currencyAt? ctx token).map fun currency =>
      .stream ⟨receiver, .currency currency, amount, start, stop, contract, nonce⟩)
  | _ => .error (.data .badValue)

/-- The three arguments of `safeTransferFrom` make the transfer of a noun of the sender. -/
def nounOf (sender : String) : List Value → Parsed
  | [giver, receiver, nounId] =>
    if sameAddress giver (.text sender) then .ok (some (.treasuryNounTransfer receiver nounId))
    else .ok none
  | _ => .error (.data .badValue)

theorem parsePair_eq (contract function : String) (make : Value → Value → Transaction) (ctx : Context)
    (raw : RawTransaction) :
    parsePair contract function make ctx raw =
      if !raw.value.isZero then .ok none else readCall ctx contract function (pairOf make) raw := by
  unfold parsePair decodePair readCall
  cases raw.value.isZero with
  | false => rfl
  | true =>
    refine congrArg (matchesCall ctx contract function raw >>= ·) (funext fun matched => ?_)
    cases matched with
    | false => rfl
    | true =>
      show (decodeFor raw >>= _) >>= _ = decodeFor raw >>= _
      cases decodeFor raw with
      | error fault => rfl
      | ok inputs =>
        match inputs with
        | [] | [_] | [_, _] | _ :: _ :: _ :: _ => rfl

theorem parseWethDeposit_eq (ctx : Context) (raw : RawTransaction) :
    parseWethDeposit ctx raw =
      readCall ctx "weth-token" "deposit" (fun _ => .ok (some (.wethDeposit raw.value))) raw := by
  unfold parseWethDeposit readCall
  refine congrArg (matchesCall ctx "weth-token" "deposit" raw >>= ·) (funext fun matched => ?_)
  cases matched <;> rfl

theorem parseStream_eq (ctx : Context) (raw : RawTransaction) :
    parseStream ctx raw =
      if !raw.value.isZero then .ok none
      else readCall ctx "stream-factory" "createStream" (streamOf ctx) raw := by
  unfold parseStream readCall
  cases raw.value.isZero with
  | false => rfl
  | true =>
    refine congrArg (matchesCall ctx "stream-factory" "createStream" raw >>= ·)
      (funext fun matched => ?_)
    cases matched with
    | false => rfl
    | true =>
      refine congrArg (decodeFor raw >>= ·) (funext fun inputs => ?_)
      match inputs with
      | [] | [_] | [_, _] | [_, _, _] | [_, _, _, _] | [_, _, _, _, _] | [_, _, _, _, _, _]
      | [_, _, _, _, _, _, _] | _ :: _ :: _ :: _ :: _ :: _ :: _ :: _ :: _ => rfl

theorem parseTreasuryNounTransfer_eq (ctx : Context) (raw : RawTransaction) :
    parseTreasuryNounTransfer ctx raw =
      match ctx.registry.lookup? ctx.chain "executor" with
      | none => .ok none
      | some executor =>
        if !raw.value.isZero then .ok none
        else readCall ctx "token" "safeTransferFrom" (nounOf executor.address) raw := by
  unfold parseTreasuryNounTransfer readCall
  cases ctx.registry.lookup? ctx.chain "executor" with
  | none => rfl
  | some executor =>
    cases raw.value.isZero with
    | false => rfl
    | true =>
      refine congrArg (matchesCall ctx "token" "safeTransferFrom" raw >>= ·)
        (funext fun matched => ?_)
      cases matched with
      | false => rfl
      | true =>
        refine congrArg (decodeFor raw >>= ·) (funext fun inputs => ?_)
        match inputs with
        | [] | [_] | [_, _] | [_, _, _] | _ :: _ :: _ :: _ :: _ => rfl

/-- A codec passes on the normal form if it passes on the original, and if it does not pass it is
    enough that it reads the same. -/
theorem guarded_normal {skip skip' : Bool} {p p' : Parsed} {o : Option Transaction}
    (hskip : skip' = skip) (h : skip = false → p = .ok o → p' = .ok o)
    (ho : (if skip then .ok none else p) = .ok o) : (if skip' then .ok none else p') = .ok o := by
  rw [hskip]
  cases hcase : skip with
  | true => rw [hcase] at ho; exact ho
  | false => rw [hcase] at ho; exact h hcase ho

theorem parsePayerTopUp_normal {raw normal : RawTransaction} (h : IsNormalOf raw normal)
    (ctx : Context) : parsePayerTopUp ctx normal = parsePayerTopUp ctx raw := by
  unfold parsePayerTopUp
  simp only [h.isNativeTransfer_eq, h.sameAddress_eq, h.value]

theorem parseTransfer_normal {raw normal : RawTransaction} (h : IsNormalOf raw normal)
    (ctx : Context) {o : Option Transaction} (ho : parseTransfer ctx raw = .ok o) :
    parseTransfer ctx normal = .ok o := by
  unfold parseTransfer at ho ⊢
  refine guarded_normal (by rw [h.isNativeTransfer_eq]) (fun _ ho => ?_) ho
  obtain ⟨target, htarget, ho⟩ := bind_eq_ok.mp ho
  rw [h.addressOf_eq htarget, h.value]
  exact ho

theorem parsePair_normal {raw normal : RawTransaction} (h : IsNormalOf raw normal)
    {contract function : String} {make : Value → Value → Transaction} {ctx : Context}
    {o : Option Transaction} (ho : parsePair contract function make ctx raw = .ok o) :
    parsePair contract function make ctx normal = .ok o := by
  rw [parsePair_eq] at ho ⊢
  exact guarded_normal (by rw [h.value]) (fun _ => readCall_normal h) ho

theorem parseWethDeposit_normal {raw normal : RawTransaction} (h : IsNormalOf raw normal)
    {ctx : Context} {o : Option Transaction} (ho : parseWethDeposit ctx raw = .ok o) :
    parseWethDeposit ctx normal = .ok o := by
  rw [parseWethDeposit_eq] at ho ⊢
  rw [h.value]
  exact readCall_normal h ho

theorem parseStream_normal {raw normal : RawTransaction} (h : IsNormalOf raw normal)
    {ctx : Context} {o : Option Transaction} (ho : parseStream ctx raw = .ok o) :
    parseStream ctx normal = .ok o := by
  rw [parseStream_eq] at ho ⊢
  exact guarded_normal (by rw [h.value]) (fun _ => readCall_normal h) ho

theorem parseTreasuryNounTransfer_normal {raw normal : RawTransaction} (h : IsNormalOf raw normal)
    {ctx : Context} {o : Option Transaction} (ho : parseTreasuryNounTransfer ctx raw = .ok o) :
    parseTreasuryNounTransfer ctx normal = .ok o := by
  rw [parseTreasuryNounTransfer_eq] at ho ⊢
  cases hexecutor : ctx.registry.lookup? ctx.chain "executor" with
  | none => rw [hexecutor] at ho; exact ho
  | some executor =>
    rw [hexecutor] at ho
    exact guarded_normal (by rw [h.value]) (fun _ => readCall_normal h) ho

/-- Calldata without a signature are left as they are in the normal form. -/
theorem addressOf_calldata_normal {raw normal : RawTransaction} (h : IsNormalOf raw normal)
    (hunparsed : isUnparsed raw = true) (use : Value → Value → Transaction) {o : Option Transaction}
    (ho : (addressOf raw.target >>= fun target => .ok (some (use target raw.calldata))) = .ok o) :
    (addressOf normal.target >>= fun target => .ok (some (use target normal.calldata))) = .ok o := by
  obtain ⟨target, htarget, ho⟩ := bind_eq_ok.mp ho
  rw [h.addressOf_eq htarget, h.calldata_eq hunparsed]
  exact ho

theorem parseUnparsedPayable_normal {raw normal : RawTransaction} (h : IsNormalOf raw normal)
    (ctx : Context) {o : Option Transaction} (ho : parseUnparsedPayable ctx raw = .ok o) :
    parseUnparsedPayable ctx normal = .ok o := by
  unfold parseUnparsedPayable at ho ⊢
  refine guarded_normal (by rw [h.isUnparsed_eq, h.value]) (fun hskip ho => ?_) ho
  rw [Bool.or_eq_false_iff, Bool.not_eq_false'] at hskip
  rw [h.value]
  exact addressOf_calldata_normal h hskip.1
    (fun target calldata => .unparsedPayableFunctionCall target calldata raw.value) ho

theorem parseUnparsed_normal {raw normal : RawTransaction} (h : IsNormalOf raw normal)
    (ctx : Context) {o : Option Transaction} (ho : parseUnparsed ctx raw = .ok o) :
    parseUnparsed ctx normal = .ok o := by
  unfold parseUnparsed at ho ⊢
  refine guarded_normal (by rw [h.isUnparsed_eq, h.value]) (fun hskip ho => ?_) ho
  rw [Bool.or_eq_false_iff, Bool.not_eq_false'] at hskip
  exact addressOf_calldata_normal h hskip.1 .unparsedFunctionCall ho

theorem parsePayableCall_normal {raw normal : RawTransaction} (h : IsNormalOf raw normal)
    (ctx : Context) {o : Option Transaction} (ho : parsePayableCall ctx raw = .ok o) :
    parsePayableCall ctx normal = .ok o := by
  unfold parsePayableCall at ho ⊢
  refine guarded_normal (by rw [h.isSigned_eq, h.value]) (fun _ ho => ?_) ho
  obtain ⟨call, hcall, ho⟩ := bind_eq_ok.mp ho
  rw [parseCall_normal h hcall, h.value]
  exact ho

theorem parseFunctionCall_normal {raw normal : RawTransaction} (h : IsNormalOf raw normal)
    (ctx : Context) {o : Option Transaction} (ho : parseFunctionCall ctx raw = .ok o) :
    parseFunctionCall ctx normal = .ok o := by
  unfold parseFunctionCall at ho ⊢
  refine guarded_normal (by rw [h.isSigned_eq, h.value]) (fun _ ho => ?_) ho
  obtain ⟨call, hcall, ho⟩ := bind_eq_ok.mp ho
  rw [parseCall_normal h hcall]
  exact ho

/-- **No codec tells a raw transaction from its normal form.** -/
theorem parseAs_normal {raw normal : RawTransaction} (h : IsNormalOf raw normal)
    {kind : TransactionKind} {ctx : Context} {o : Option Transaction}
    (ho : parseAs kind ctx raw = .ok o) : parseAs kind ctx normal = .ok o := by
  cases kind with
  | payerTopUp => exact (parsePayerTopUp_normal h ctx).trans ho
  | transfer => exact parseTransfer_normal h ctx ho
  | usdcTransferViaPayer => exact parsePair_normal h ho
  | usdcApproval => exact parsePair_normal h ho
  | wethTransfer => exact parsePair_normal h ho
  | wethApproval => exact parsePair_normal h ho
  | wethDeposit => exact parseWethDeposit_normal h ho
  | stream => exact parseStream_normal h ho
  | treasuryNounTransfer => exact parseTreasuryNounTransfer_normal h ho
  | unparsedPayableFunctionCall => exact parseUnparsedPayable_normal h ctx ho
  | unparsedFunctionCall => exact parseUnparsed_normal h ctx ho
  | payableFunctionCall => exact parsePayableCall_normal h ctx ho
  | functionCall => exact parseFunctionCall_normal h ctx ho

/-! ## What is read is written in normal form: calls of well-known contracts -/

/-- What the codec of a kind reads is readable and of that kind, and writing it gives the raw
    transaction in normal form. -/
structure Reads (kind : TransactionKind) (ctx : Context) (raw : RawTransaction) (t : Transaction) :
    Prop where
  isKind : t.kind? = some kind
  readable : t.IsReadable
  written : ∃ normal, IsNormalOf raw normal ∧ unparseAs kind ctx t = .ok normal

/-- A codec with a guard reads something only if the guard lets it. -/
theorem guarded_eq_some {skip : Bool} {p : Parsed} {t : Transaction} :
    (if skip then .ok none else p) = .ok (some t) ↔ skip = false ∧ p = .ok (some t) := by
  cases skip with
  | true => simp
  | false => simp

theorem resolve_of_lookup? {ctx : Context} {contract : String} {c : Contract}
    (h : ctx.registry.lookup? ctx.chain contract = some c) : ctx.resolve contract = .ok c := by
  unfold Context.resolve Registry.resolve
  rw [h]

theorem isAmount_of_fits {bits : Nat} (hbits : bits ≤ 256) {v : Value}
    (h : (Coder.uint bits).Fits v) : v.IsAmount := by
  obtain ⟨n, rfl, hn⟩ := h
  have hlimit : Number.twoTo bits ≤ Number.twoTo 256 := Nat.pow_le_pow_right (by decide) hbits
  exact ⟨n, rfl, Nat.le_sub_one_of_lt (Nat.lt_of_lt_of_le hn hlimit)⟩

theorem isCoded_of_hasCoders {s : Signature} {coders : List Coder} (h : HasCoders s.types coders) :
    s.IsCoded := by
  obtain ⟨abiTypes, htypes, hcoders⟩ := h
  exact isCoded_of_ofTypes? htypes hcoders

/-- A call that matches: the contract is there at the target, and the signature is the same as that of
    the function. -/
theorem matchesCall_eq_true {ctx : Context} {contract function : String} {raw : RawTransaction}
    (h : matchesCall ctx contract function raw = .ok true) :
    ∃ c s, ctx.registry.lookup? ctx.chain contract = some c ∧
      sameAddress raw.target (.text c.address) = true ∧ c.signatureFor (.text function) = .ok s ∧
      signaturesMatch raw.signature (.text s.text) = .ok true := by
  unfold matchesCall at h
  cases hc : ctx.registry.lookup? ctx.chain contract with
  | none => rw [hc] at h; exact absurd h (by simp)
  | some c =>
    rw [hc] at h
    simp only [pure_eq_ok] at h
    cases hsame : sameAddress raw.target (.text c.address) with
    | false => rw [hsame] at h; exact absurd h (by simp)
    | true =>
      rw [hsame] at h
      obtain ⟨s, hs, hmatch⟩ := bind_eq_ok.mp h
      exact ⟨c, s, rfl, hsame, hs, hmatch⟩

/-- The canonical form of a function whose types have layouts is read as the function. -/
theorem parseSignature_of_signatureFor {c : Contract} {function : String} {s : Signature}
    (h : c.signatureFor (.text function) = .ok s) (hcoded : s.IsCoded) :
    parseSignature s.text = .ok s := by
  obtain ⟨-, entry, -, hentry⟩ := Contract.signatureAmong_sound h
  cases entry with
  | text entry => exact parseSignature_text hentry hcoded
  | _ => exact absurd hentry (by simp [signatureOf])

/-- Signatures that match and can be read again are the same. -/
theorem eq_of_signaturesMatch {signature : Value} {s s' : Signature}
    (h : signaturesMatch signature (.text s.text) = .ok true) (hs : parseSignature s.text = .ok s)
    (hsigned : signatureOf signature = .ok s') (hs' : parseSignature s'.text = .ok s') : s' = s := by
  obtain ⟨canonical, hleft, hright⟩ := signaturesMatch_eq_true_iff.mp h
  have htext : canonical = s.text :=
    Except.ok.inj (hright.symm.trans (normalizeSignature_eq_ok hs))
  have htext' : canonical = s'.text :=
    Except.ok.inj (hleft.symm.trans (normalizeSignature_eq_ok hsigned))
  rw [← htext', htext] at hs'
  exact Except.ok.inj (hs'.symm.trans hs)

/-- **A call that is matched and decoded**: its arguments are canonical for the types that the registry has,
    and encoding them for the contract gives the raw transaction in normal form. -/
theorem encodeCall_of_matchesCall {ctx : Context} {contract function : String} {c : Contract}
    {s : Signature} {coders : List Coder} {raw : RawTransaction} {inputs : List Value}
    (hc : ctx.registry.lookup? ctx.chain contract = some c) (haddress : IsNormalAddress c.address)
    (hs : c.signatureFor (.text function) = .ok s) (hcoders : HasCoders s.types coders)
    (hmatch : matchesCall ctx contract function raw = .ok true) (hinputs : decodeFor raw = .ok inputs) :
    Coder.AreCanonical coders inputs ∧
      ∃ normal, IsNormalOf raw normal ∧ encodeCall c function inputs raw.value = .ok normal := by
  obtain ⟨c', s', hc', hsame, hs', hmatch⟩ := matchesCall_eq_true hmatch
  obtain rfl : c = c' := Option.some.inj (hc.symm.trans hc')
  obtain rfl : s = s' := Except.ok.inj (hs.symm.trans hs')
  -- the types have layouts, so the canonical form of the signature is read as it
  have htext : parseSignature s.text = .ok s :=
    parseSignature_of_signatureFor hs (isCoded_of_hasCoders hcoders)
  obtain ⟨call, hcall, rfl⟩ := decodeFor_eq_ok hinputs
  obtain ⟨calldata, hcalldata, hsigned, hagain, hencode, -⟩ := decodeCall_sound hcall
  have hcallSignature : (⟨call.name, call.types⟩ : Signature) = s :=
    eq_of_signaturesMatch hmatch htext hsigned hagain
  have hcallTypes : call.types = s.types := congrArg Signature.types hcallSignature
  obtain ⟨htarget, hnormal⟩ := (sameAddress_text haddress).mp hsame
  refine ⟨areCanonical_of_decodeCall hcall (hcallTypes ▸ hcoders),
    ⟨.text c.address, .text s.text, .text (lowerHex calldata), raw.value⟩, ?_, ?_⟩
  · exact ⟨⟨c.address, htarget, hnormal, rfl⟩, rfl,
      .inr ⟨call, calldata, hcall, hcalldata, by rw [hcallSignature], rfl⟩⟩
  · unfold encodeCall
    rw [hs, ok_bind, ← hcallTypes, hencode]
    rfl

/-- **A call of a well-known contract**: its arguments fit the known types, and encoding them for the
    contract gives the raw transaction in normal form. -/
theorem call_sound {ctx : Context} {contract function : String} {types : List String}
    {coders : List Coder} {raw : RawTransaction} {inputs : List Value}
    (hsound : (ctx.registry.chain ctx.chain).IsSound)
    (hknown : Contract.signatureAmong contract (.text function) (Registry.knownAbi contract) =
      .ok ⟨function, types⟩)
    (hcoders : HasCoders types coders) (hmatch : matchesCall ctx contract function raw = .ok true)
    (hinputs : decodeFor raw = .ok inputs) :
    ∃ c normal, ctx.resolve contract = .ok c ∧ IsNormalOf raw normal ∧
      encodeCall c function inputs raw.value = .ok normal ∧ List.Forall₂ Coder.Fits coders inputs := by
  obtain ⟨c, s, hc, -, hs, -⟩ := matchesCall_eq_true hmatch
  obtain ⟨hname, haddress, hkeeps⟩ := hsound.named contract c hc
  have htypes : s.types = types := hkeeps function s _ hs (hname ▸ hknown)
  obtain ⟨hcanonical, normal, hnormal, hencode⟩ :=
    encodeCall_of_matchesCall hc haddress hs (htypes ▸ hcoders) hmatch hinputs
  exact ⟨c, normal, resolve_of_lookup? hc, hnormal, hencode, hcanonical.fits⟩

/-- The same for a codec of the common shape. -/
theorem readCall_sound {ctx : Context} {contract function : String} {types : List String}
    {coders : List Coder} {use : List Value → Parsed} {raw : RawTransaction} {t : Transaction}
    (hsound : (ctx.registry.chain ctx.chain).IsSound)
    (hknown : Contract.signatureAmong contract (.text function) (Registry.knownAbi contract) =
      .ok ⟨function, types⟩)
    (hcoders : HasCoders types coders) (h : readCall ctx contract function use raw = .ok (some t)) :
    ∃ inputs c normal, use inputs = .ok (some t) ∧ ctx.resolve contract = .ok c ∧
      IsNormalOf raw normal ∧ encodeCall c function inputs raw.value = .ok normal ∧
      List.Forall₂ Coder.Fits coders inputs := by
  unfold readCall at h
  obtain ⟨matched, hmatch, h⟩ := bind_eq_ok.mp h
  cases matched with
  | false => exact absurd h (by simp)
  | true =>
    obtain ⟨inputs, hinputs, huse⟩ := bind_eq_ok.mp h
    obtain ⟨c, normal, hc, hnormal, hencode, hfits⟩ :=
      call_sound hsound hknown hcoders hmatch hinputs
    exact ⟨inputs, c, normal, huse, hc, hnormal, hencode, hfits⟩

/-- A codec of a call with a receiver and an amount, which are fields of what it reads. -/
theorem parsePair_sound {ctx : Context} {contract function : String} (first second : String)
    {make : Value → Value → Transaction} {raw : RawTransaction} {t : Transaction}
    (hsound : (ctx.registry.chain ctx.chain).IsSound) (hvalue : raw.value.IsNatural)
    (hknown : Contract.signatureAmong contract (.text function) (Registry.knownAbi contract) =
      .ok ⟨function, ["address", "uint256"]⟩)
    (hfields : ∀ a b, (make a b).field first = .ok a ∧ (make a b).field second = .ok b)
    (h : parsePair contract function make ctx raw = .ok (some t)) :
    ∃ a b normal, t = make a b ∧ a.IsAccount ∧ b.IsAmount ∧ IsNormalOf raw normal ∧
      unparsePair contract function first second ctx t = .ok normal := by
  rw [parsePair_eq] at h
  obtain ⟨hskip, h⟩ := guarded_eq_some.mp h
  have hcoders : HasCoders ["address", "uint256"] [.address, .uint 256] := ⟨_, rfl, rfl⟩
  obtain ⟨inputs, c, normal, huse, hc, hnormal, hencode, hfits⟩ :=
    readCall_sound hsound hknown hcoders h
  rw [Bool.not_eq_false'] at hskip
  rw [hvalue.eq_zero hskip] at hencode
  cases hfits with
  | @cons _ a _ _ ha hfits =>
    cases hfits with
    | @cons _ b _ _ hb hfits =>
      cases hfits
      cases huse
      refine ⟨a, b, normal, rfl, ha, isAmount_of_fits (Nat.le_refl _) hb, hnormal, ?_⟩
      unfold unparsePair
      rw [hc, ok_bind, (hfields a b).1, ok_bind, (hfields a b).2]
      exact hencode

/-! ## What is read is written in normal form: each codec -/

section Codecs

variable {ctx : Context} {raw : RawTransaction} {t : Transaction}

theorem reads_payerTopUp (hsound : (ctx.registry.chain ctx.chain).IsSound)
    (hvalue : raw.value.IsNatural) (h : parsePayerTopUp ctx raw = .ok (some t)) :
    Reads .payerTopUp ctx raw t := by
  unfold parsePayerTopUp at h
  cases hbuyer : ctx.registry.lookup? ctx.chain "token-buyer" with
  | none => rw [hbuyer] at h; exact absurd h (by simp)
  | some buyer =>
    rw [hbuyer] at h
    obtain ⟨-, haddress, -⟩ := hsound.named _ buyer hbuyer
    simp only at h
    split at h
    · next hpattern =>
      cases h
      rw [Bool.and_eq_true, RawTransaction.isNativeTransfer, Bool.and_eq_true] at hpattern
      obtain ⟨⟨hsignature, hcalldata⟩, hsame⟩ := hpattern
      -- the target is the token buyer, so its address in the registry is the normal form
      obtain ⟨htarget, hnormal⟩ := (sameAddress_text haddress).mp hsame
      refine ⟨rfl, hvalue, ⟨.text buyer.address, .text "", .text "0x", raw.value⟩, ?_, ?_⟩
      · exact ⟨⟨_, htarget, hnormal, rfl⟩, rfl,
          .inl ⟨isText_eq_true.mp hsignature, rfl, (isText_eq_true.mp hcalldata).symm⟩⟩
      · show (ctx.resolve "token-buyer" >>= _) = _
        rw [resolve_of_lookup? hbuyer]
        rfl
    · exact absurd h (by simp)

/-- A target that is read is an account and the normal form of the raw target. -/
theorem addressOf_sound {v w : Value} (h : addressOf v = .ok w) :
    w.IsAccount ∧ ∃ a, v.isAddress = true ∧ v.toAddress? = some a ∧ w = .text a := by
  unfold addressOf at h
  split at h
  · next s =>
    split at h
    · next a ha =>
      cases h
      exact ⟨⟨a, rfl, isNormalAddress_of_addressOfText? ha⟩, a, (addressOfText?_eq_some.mp ha).1, ha,
        rfl⟩
    · exact absurd h (by simp)
  · exact absurd h (by simp)

theorem addressOf_of_isAccount {v : Value} (hv : v.IsAccount) : addressOf v = .ok v := by
  obtain ⟨a, rfl, ha⟩ := hv
  have hnormal : addressOfText? a = some a := ha
  simp only [addressOf, hnormal]

theorem reads_transfer (hvalue : raw.value.IsNatural) (h : parseTransfer ctx raw = .ok (some t)) :
    Reads .transfer ctx raw t := by
  unfold parseTransfer at h
  obtain ⟨hskip, h⟩ := guarded_eq_some.mp h
  obtain ⟨target, htarget, h⟩ := bind_eq_ok.mp h
  cases h
  rw [Bool.not_eq_false', RawTransaction.isNativeTransfer, Bool.and_eq_true] at hskip
  obtain ⟨haccount, hnormal⟩ := addressOf_sound htarget
  refine ⟨rfl, ⟨haccount, hvalue⟩, ⟨target, .text "", .text "0x", raw.value⟩, ?_, rfl⟩
  exact ⟨hnormal, rfl, .inl ⟨isText_eq_true.mp hskip.1, rfl, (isText_eq_true.mp hskip.2).symm⟩⟩

theorem reads_wethDeposit (hsound : (ctx.registry.chain ctx.chain).IsSound)
    (hvalue : raw.value.IsNatural) (h : parseWethDeposit ctx raw = .ok (some t)) :
    Reads .wethDeposit ctx raw t := by
  rw [parseWethDeposit_eq] at h
  have hcoders : HasCoders [] [] := ⟨_, rfl, rfl⟩
  obtain ⟨inputs, c, normal, huse, hc, hnormal, hencode, hfits⟩ := readCall_sound hsound rfl hcoders h
  cases hfits
  cases huse
  refine ⟨rfl, hvalue, normal, hnormal, ?_⟩
  show (ctx.resolve "weth-token" >>= _) = _
  rw [hc]; exact hencode

theorem tokenContract?_of_currencyOfContract? {name : String} {currency : Currency}
    (h : currencyOfContract? name = some currency) :
    tokenContract? currency = some name ∧ (Value.currency currency).IsStreamToken := by
  unfold currencyOfContract? at h
  split at h
  · next hname =>
    cases h
    exact ⟨congrArg some (beq_iff_eq.mp hname).symm, .inl rfl⟩
  · split at h
    · next hname =>
      cases h
      exact ⟨congrArg some (beq_iff_eq.mp hname).symm, .inr rfl⟩
    · exact absurd h (by simp)

/-- The token of a stream is found again by the name of its contract. -/
theorem currencyAt?_sound
    (hplaced : ∀ a c, Table.find? a (ctx.registry.chain ctx.chain).byAddress = some c →
      c.address = a ∧ Table.find? c.name (ctx.registry.chain ctx.chain).byName = some c)
    {token : Value} {currency : Currency} (h : currencyAt? ctx token = some currency) :
    (Value.currency currency).IsStreamToken ∧ ∃ name c, streamToken (.currency currency) = .ok name ∧
      ctx.resolve name = .ok c ∧ token.toAddress? = some c.address := by
  unfold currencyAt? Registry.identify? at h
  obtain ⟨c, hc, hcurrency⟩ := Option.bind_eq_some_iff.mp h
  split at hc
  · next s =>
    obtain ⟨a, ha, hfind⟩ := Option.bind_eq_some_iff.mp hc
    obtain ⟨haddress, hname⟩ := hplaced a c hfind
    obtain ⟨hcontract, htoken⟩ := tokenContract?_of_currencyOfContract? hcurrency
    refine ⟨htoken, c.name, c, ?_, resolve_of_lookup? hname, haddress.symm ▸ ha⟩
    simp only [streamToken, hcontract]
    rfl
  · cases hc

/-- The arguments of `createStream` are accounts and amounts. -/
theorem exists_of_fits_stream {inputs : List Value}
    (h : List.Forall₂ Coder.Fits
      [.address, .uint 256, .address, .uint 256, .uint 256, .uint 8, .address] inputs) :
    ∃ receiver amount token start stop nonce contract,
      inputs = [receiver, amount, token, start, stop, nonce, contract] ∧ receiver.IsAccount ∧
      amount.IsAmount ∧ token.IsAccount ∧ start.IsAmount ∧ stop.IsAmount ∧ nonce.IsAmount ∧
      contract.IsAccount := by
  rcases h with _ | ⟨h₁, _ | ⟨h₂, _ | ⟨h₃, _ | ⟨h₄, _ | ⟨h₅, _ | ⟨h₆, _ | ⟨h₇, hnil⟩⟩⟩⟩⟩⟩⟩
  cases hnil
  exact ⟨_, _, _, _, _, _, _, rfl, h₁, isAmount_of_fits (by decide) h₂, h₃,
    isAmount_of_fits (by decide) h₄, isAmount_of_fits (by decide) h₅,
    isAmount_of_fits (by decide) h₆, h₇⟩

theorem reads_stream (hsound : (ctx.registry.chain ctx.chain).IsSound)
    (hvalue : raw.value.IsNatural) (h : parseStream ctx raw = .ok (some t)) :
    Reads .stream ctx raw t := by
  rw [parseStream_eq] at h
  obtain ⟨hskip, h⟩ := guarded_eq_some.mp h
  have hcoders : HasCoders
      ["address", "uint256", "address", "uint256", "uint256", "uint8", "address"]
      [.address, .uint 256, .address, .uint 256, .uint 256, .uint 8, .address] := ⟨_, rfl, rfl⟩
  obtain ⟨inputs, c, normal, huse, hc, hnormal, hencode, hfits⟩ := readCall_sound hsound rfl hcoders h
  rw [Bool.not_eq_false'] at hskip
  rw [hvalue.eq_zero hskip] at hencode
  obtain ⟨receiver, amount, token, start, stop, nonce, contract, rfl, hreceiver, hamount, htoken,
    hstart, hstop, hnonce, hcontract⟩ := exists_of_fits_stream hfits
  cases hcurrency : currencyAt? ctx token with
  | none =>
    rw [streamOf, hcurrency] at huse
    exact absurd huse (by simp)
  | some currency =>
    rw [streamOf, hcurrency] at huse
    cases huse
    obtain ⟨hstreamToken, name, tokenContract, hname, hresolve, haddress⟩ :=
      currencyAt?_sound hsound.placed hcurrency
    obtain rfl := htoken.eq_of_toAddress? haddress
    refine ⟨rfl, ⟨hreceiver, hstreamToken, hamount, hstart, hstop, hcontract, hnonce⟩, normal,
      hnormal, ?_⟩
    show (streamToken (.currency currency) >>= _) = _
    rw [hname, ok_bind, hresolve, ok_bind, hc]
    exact hencode

/-- The arguments of `safeTransferFrom` are two accounts and an amount. -/
theorem exists_of_fits_noun {inputs : List Value}
    (h : List.Forall₂ Coder.Fits [.address, .address, .uint 256] inputs) :
    ∃ giver receiver nounId, inputs = [giver, receiver, nounId] ∧ giver.IsAccount ∧
      receiver.IsAccount ∧ nounId.IsAmount := by
  rcases h with _ | ⟨h₁, _ | ⟨h₂, _ | ⟨h₃, hnil⟩⟩⟩
  cases hnil
  exact ⟨_, _, _, rfl, h₁, h₂, isAmount_of_fits (by decide) h₃⟩

theorem reads_treasuryNounTransfer (hsound : (ctx.registry.chain ctx.chain).IsSound)
    (hvalue : raw.value.IsNatural) (h : parseTreasuryNounTransfer ctx raw = .ok (some t)) :
    Reads .treasuryNounTransfer ctx raw t := by
  rw [parseTreasuryNounTransfer_eq] at h
  cases hexecutor : ctx.registry.lookup? ctx.chain "executor" with
  | none => rw [hexecutor] at h; exact absurd h (by simp)
  | some executor =>
    rw [hexecutor] at h
    obtain ⟨-, haddress, -⟩ := hsound.named _ executor hexecutor
    obtain ⟨hskip, h⟩ := guarded_eq_some.mp h
    have hcoders : HasCoders ["address", "address", "uint256"] [.address, .address, .uint 256] :=
      ⟨_, rfl, rfl⟩
    obtain ⟨inputs, c, normal, huse, hc, hnormal, hencode, hfits⟩ :=
      readCall_sound hsound rfl hcoders h
    rw [Bool.not_eq_false'] at hskip
    rw [hvalue.eq_zero hskip] at hencode
    obtain ⟨giver, receiver, nounId, rfl, hgiver, hreceiver, hnounId⟩ := exists_of_fits_noun hfits
    simp only [nounOf] at huse
    split at huse
    · next hsame =>
      -- the giver is the executor, which writing puts back in its place
      cases huse
      obtain rfl := hgiver.eq_of_sameAddress haddress hsame
      refine ⟨rfl, ⟨hreceiver, hnounId⟩, normal, hnormal, ?_⟩
      show (ctx.resolve "executor" >>= _) = _
      rw [resolve_of_lookup? hexecutor, ok_bind, hc]
      exact hencode
    · exact absurd huse (by simp)

theorem reads_unparsedPayable (hvalue : raw.value.IsNatural)
    (h : parseUnparsedPayable ctx raw = .ok (some t)) :
    Reads .unparsedPayableFunctionCall ctx raw t := by
  unfold parseUnparsedPayable at h
  obtain ⟨hskip, h⟩ := guarded_eq_some.mp h
  obtain ⟨target, htarget, h⟩ := bind_eq_ok.mp h
  cases h
  rw [Bool.or_eq_false_iff, Bool.not_eq_false', isUnparsed, Bool.and_eq_true] at hskip
  obtain ⟨haccount, hnormal⟩ := addressOf_sound htarget
  exact ⟨rfl, ⟨haccount, hvalue⟩, ⟨target, .text "", raw.calldata, raw.value⟩,
    ⟨hnormal, rfl, .inl ⟨isText_eq_true.mp hskip.1.1, rfl, rfl⟩⟩, rfl⟩

theorem reads_unparsed (hvalue : raw.value.IsNatural) (h : parseUnparsed ctx raw = .ok (some t)) :
    Reads .unparsedFunctionCall ctx raw t := by
  unfold parseUnparsed at h
  obtain ⟨hskip, h⟩ := guarded_eq_some.mp h
  obtain ⟨target, htarget, h⟩ := bind_eq_ok.mp h
  cases h
  rw [Bool.or_eq_false_iff, Bool.not_eq_false', Bool.not_eq_false', isUnparsed,
    Bool.and_eq_true] at hskip
  obtain ⟨haccount, hnormal⟩ := addressOf_sound htarget
  exact ⟨rfl, haccount, ⟨target, .text "", raw.calldata, .int 0⟩,
    ⟨hnormal, (hvalue.eq_zero hskip.2).symm, .inl ⟨isText_eq_true.mp hskip.1.1, rfl, rfl⟩⟩, rfl⟩

theorem mapM_textOf (types : List String) : (types.map Value.text).mapM textOf = .ok types := by
  induction types with
  | nil => rfl
  | cons type types ih =>
    rw [List.map_cons, List.mapM_cons, ih]; rfl

/-- The fields of a transaction that is a call, with or without value. -/
theorem field_of_call {call : FunctionCall}
    (ht : t = .functionCall call ∨ ∃ value, t = .payableFunctionCall call value) :
    t.field "function_input_types" = .ok call.inputTypes ∧
      t.field "function_inputs" = .ok call.inputs ∧ t.field "target" = .ok call.target ∧
      t.field "function_name" = .ok call.name := by
  rcases ht with rfl | ⟨value, rfl⟩ <;> exact ⟨rfl, rfl, rfl, rfl⟩

/-- A call with a signature is written with the canonical one. -/
theorem unparseCall_of_parseCall {call : FunctionCall} (hcall : parseCall raw = .ok call)
    (ht : t = .functionCall call ∨ ∃ value, t = .payableFunctionCall call value) :
    call.target.IsAccount ∧
      ∃ normal, IsNormalOf raw normal ∧ unparseCall t raw.value = .ok normal := by
  unfold parseCall at hcall
  split at hcall
  · next decoded hdecoded =>
    obtain ⟨target, htarget, hcall⟩ := bind_eq_ok.mp hcall
    cases hcall
    obtain ⟨haccount, hnormal⟩ := addressOf_sound htarget
    obtain ⟨c, hc, hs, -, hencode, -⟩ := decodeCall_sound hdecoded
    refine ⟨haccount, ⟨target, .text (Signature.text ⟨decoded.name, decoded.types⟩),
      .text (lowerHex c), raw.value⟩, ⟨hnormal, rfl, .inr ⟨decoded, c, hdecoded, hc, rfl, rfl⟩⟩, ?_⟩
    obtain ⟨htypes, hinputs, htarget', hname⟩ := field_of_call ht
    unfold unparseCall
    simp only [htypes, hinputs, ok_bind, Value.items, hencode, htarget', hname, mapM_textOf]
    rfl
  · exact absurd hcall (by simp)
  · exact absurd hcall (by simp)

theorem reads_payableCall (hvalue : raw.value.IsNatural)
    (h : parsePayableCall ctx raw = .ok (some t)) : Reads .payableFunctionCall ctx raw t := by
  unfold parsePayableCall at h
  obtain ⟨-, h⟩ := guarded_eq_some.mp h
  obtain ⟨call, hcall, h⟩ := bind_eq_ok.mp h
  cases h
  obtain ⟨haccount, normal, hnormal, hwritten⟩ :=
    unparseCall_of_parseCall hcall (.inr ⟨raw.value, rfl⟩)
  exact ⟨rfl, ⟨haccount, hvalue⟩, normal, hnormal, hwritten⟩

theorem reads_functionCall (hvalue : raw.value.IsNatural)
    (h : parseFunctionCall ctx raw = .ok (some t)) : Reads .functionCall ctx raw t := by
  unfold parseFunctionCall at h
  obtain ⟨hskip, h⟩ := guarded_eq_some.mp h
  obtain ⟨call, hcall, h⟩ := bind_eq_ok.mp h
  cases h
  rw [Bool.or_eq_false_iff, Bool.not_eq_false'] at hskip
  obtain ⟨haccount, normal, hnormal, hwritten⟩ := unparseCall_of_parseCall hcall (.inl rfl)
  rw [hvalue.eq_zero hskip.2] at hwritten
  exact ⟨rfl, haccount, normal, hnormal, hwritten⟩

/-- **Whatever a codec reads, it writes in normal form.** -/
theorem reads_of_parseAs {kind : TransactionKind} (hsound : (ctx.registry.chain ctx.chain).IsSound)
    (hvalue : raw.value.IsNatural) (h : parseAs kind ctx raw = .ok (some t)) :
    Reads kind ctx raw t := by
  cases kind with
  | payerTopUp => exact reads_payerTopUp hsound hvalue h
  | transfer => exact reads_transfer hvalue h
  | usdcTransferViaPayer =>
    obtain ⟨a, b, normal, rfl, ha, hb, hnormal, hwritten⟩ :=
      parsePair_sound "receiver_address" "usdc_amount" hsound hvalue rfl (fun _ _ => ⟨rfl, rfl⟩) h
    exact ⟨rfl, ⟨ha, hb⟩, normal, hnormal, hwritten⟩
  | usdcApproval =>
    obtain ⟨a, b, normal, rfl, ha, hb, hnormal, hwritten⟩ :=
      parsePair_sound "spender_address" "usdc_amount" hsound hvalue rfl (fun _ _ => ⟨rfl, rfl⟩) h
    exact ⟨rfl, ⟨ha, hb⟩, normal, hnormal, hwritten⟩
  | wethDeposit => exact reads_wethDeposit hsound hvalue h
  | wethTransfer =>
    obtain ⟨a, b, normal, rfl, ha, hb, hnormal, hwritten⟩ :=
      parsePair_sound "receiver_address" "weth_amount" hsound hvalue rfl (fun _ _ => ⟨rfl, rfl⟩) h
    exact ⟨rfl, ⟨ha, hb⟩, normal, hnormal, hwritten⟩
  | wethApproval =>
    obtain ⟨a, b, normal, rfl, ha, hb, hnormal, hwritten⟩ :=
      parsePair_sound "spender_address" "weth_amount" hsound hvalue rfl (fun _ _ => ⟨rfl, rfl⟩) h
    exact ⟨rfl, ⟨ha, hb⟩, normal, hnormal, hwritten⟩
  | stream => exact reads_stream hsound hvalue h
  | treasuryNounTransfer => exact reads_treasuryNounTransfer hsound hvalue h
  | unparsedPayableFunctionCall => exact reads_unparsedPayable hvalue h
  | unparsedFunctionCall => exact reads_unparsed hvalue h
  | payableFunctionCall => exact reads_payableCall hvalue h
  | functionCall => exact reads_functionCall hvalue h

/-- A value in range is read as one. -/
theorem isInRange_of_parseAs {kind : TransactionKind} (hsound : (ctx.registry.chain ctx.chain).IsSound)
    (hvalue : raw.value.IsAmount) (h : parseAs kind ctx raw = .ok (some t)) : t.IsInRange := by
  have hkind := (reads_of_parseAs hsound hvalue.isNatural h).isKind
  cases t with
  | payerTopUp value =>
    cases hkind
    simp only [parseAs, parsePayerTopUp] at h
    split at h
    · exact absurd h (by simp)
    · split at h
      · cases h; exact hvalue
      · exact absurd h (by simp)
  | transfer target value =>
    cases hkind
    obtain ⟨-, h⟩ := guarded_eq_some.mp h
    obtain ⟨account, -, h⟩ := bind_eq_ok.mp h
    cases h
    exact hvalue
  | _ => trivial

end Codecs

end Proposals.Codec
