import Proposals.Proofs.Abi.Undecoded
import Proposals.Proofs.Engine.Accept

/-!
# `Proofs.Engine.Total` — every raw transaction is read or refused

Which faults reading a raw transaction may end with is settled by the steps that look at its signature
and its calldata; the codecs add only that the transaction is malformed (`IsReadWithin.parseAs`). One of
the general codecs takes every raw transaction, so reading never ends without a codec
(`exists_reader`).

In the built-in registry the well-known calls have arguments that their codecs take apart. What remains
is a malformed transaction, and the three things in signatures and calldata that no check foresees
(`parseOne_total`); a type without a layout is one of them (`not_parseOne_total`).
-/

namespace Proposals.Codec

open Proposals.Abi Proposals.Outcome

/-! ## How codecs end -/

/-- Faults that reading the raw transaction may end with: that it is malformed, what escapes when its
    call is decoded or matched, and a wrong number of arguments if they need not fit the types of the
    call. -/
structure IsReadWithin (P : Fault → Prop) (ctx : Context) (raw : RawTransaction) : Prop where
  malformed : ∀ cause, P (.malformed cause)
  decoded : Within (fun f => (∃ cause, f = .abi cause) ∨ P f) (decodeCall raw.signature raw.calldata)
  matched : ∀ {kind call}, knownCall? kind = some call →
    Within P (matchesCall ctx call.contract call.signature.name raw)
  fits : ∀ {kind call inputs}, knownCall? kind = some call →
    matchesCall ctx call.contract call.signature.name raw = .ok true →
    decodeFor raw = .ok inputs →
    List.Forall₂ Coder.Fits call.coders inputs ∨ P (.data .badValue)

namespace IsReadWithin

variable {P : Fault → Prop} {ctx : Context} {raw : RawTransaction}

theorem addressOf (h : IsReadWithin P ctx raw) (v : Value) : Within P (addressOf v) := by
  unfold Codec.addressOf
  split
  · split
    · exact within_ok P _
    · exact within_error.mpr (h.malformed _)
  · exact within_error.mpr (h.malformed _)

/-- Faults of signatures and calldata become those of the transaction. -/
theorem decodeFor (h : IsReadWithin P ctx raw) : Within P (decodeFor raw) := by
  unfold Codec.decodeFor
  split
  · exact within_ok P _
  · exact within_error.mpr (h.malformed _)
  · next fault hnot hfault =>
    rcases h.decoded fault hfault with ⟨cause, rfl⟩ | hP
    · exact absurd rfl (hnot cause)
    · exact within_error.mpr hP

theorem parseCall (h : IsReadWithin P ctx raw) : Within P (parseCall raw) := by
  unfold Codec.parseCall
  split
  · exact (h.addressOf _).bind fun _ _ => within_ok P _
  · exact within_error.mpr (h.malformed _)
  · next fault hnot hfault =>
    rcases h.decoded fault hfault with ⟨cause, rfl⟩ | hP
    · exact absurd rfl (hnot cause)
    · exact within_error.mpr hP

/-- The codec of a known call, which takes the arguments apart. -/
theorem readCall (h : IsReadWithin P ctx raw) (kind : TransactionKind) {call : KnownCall}
    (hcall : knownCall? kind = some call) {use : List Value → Parsed}
    (huse : ∀ inputs, List.Forall₂ Coder.Fits call.coders inputs ∨ P (.data .badValue) →
      Within P (use inputs)) :
    Within P (readCall ctx call.contract call.signature.name use raw) := by
  refine (h.matched hcall).bind fun matched hmatch => ?_
  cases matched with
  | false => exact within_ok P none
  | true => exact h.decodeFor.bind fun inputs hinputs => huse inputs (h.fits hcall hmatch hinputs)

theorem guarded {skip : Bool} {p : Parsed} (hp : Within P p) :
    Within P (if skip then .ok none else p) :=
  within_ite (fun _ => within_ok P none) fun _ => hp

theorem parsePair (h : IsReadWithin P ctx raw) (kind : TransactionKind) {contract function : String}
    (make : Value → Value → Transaction) (hcall : knownCall? kind =
      some ⟨contract, ⟨function, ["address", "uint256"]⟩, [.address, .uint 256]⟩) :
    Within P (parsePair contract function make ctx raw) := by
  rw [parsePair_eq]
  refine guarded (h.readCall kind hcall fun inputs hinputs => ?_)
  rcases hinputs with hfits | hP
  · rcases hfits with - | ⟨-, - | ⟨-, hnil⟩⟩
    cases hnil
    exact within_ok P _
  · unfold pairOf
    split
    · exact within_ok P _
    · exact within_error.mpr hP

theorem parseStream (h : IsReadWithin P ctx raw) : Within P (parseStream ctx raw) := by
  rw [parseStream_eq]
  refine guarded (h.readCall .stream rfl fun inputs hinputs => ?_)
  rcases hinputs with hfits | hP
  · obtain ⟨_, _, _, _, _, _, _, rfl, -⟩ := exists_of_fits_stream hfits
    exact within_ok P _
  · unfold streamOf
    split
    · exact within_ok P _
    · exact within_error.mpr hP

theorem parseTreasuryNounTransfer (h : IsReadWithin P ctx raw) :
    Within P (parseTreasuryNounTransfer ctx raw) := by
  rw [parseTreasuryNounTransfer_eq]
  split
  · exact within_ok P none
  · refine guarded (h.readCall .treasuryNounTransfer rfl fun inputs hinputs => ?_)
    rcases hinputs with hfits | hP
    · obtain ⟨_, _, _, rfl, -⟩ := exists_of_fits_noun hfits
      exact within_ite (fun _ => within_ok P _) fun _ => within_ok P none
    · unfold nounOf
      split
      · exact within_ite (fun _ => within_ok P _) fun _ => within_ok P none
      · exact within_error.mpr hP

/-- **No codec ends with another fault.** -/
theorem parseAs (h : IsReadWithin P ctx raw) (kind : TransactionKind) :
    Within P (parseAs kind ctx raw) := by
  cases kind with
  | payerTopUp =>
    show Within P (parsePayerTopUp ctx raw)
    unfold parsePayerTopUp
    split
    · exact within_ok P none
    · exact within_ite (fun _ => within_ok P _) fun _ => within_ok P none
  | transfer => exact guarded ((h.addressOf _).bind fun _ _ => within_ok P _)
  | usdcTransferViaPayer => exact h.parsePair .usdcTransferViaPayer _ rfl
  | usdcApproval => exact h.parsePair .usdcApproval _ rfl
  | wethDeposit =>
    show Within P (parseWethDeposit ctx raw)
    rw [parseWethDeposit_eq]
    exact h.readCall .wethDeposit rfl fun _ _ => within_ok P _
  | wethTransfer => exact h.parsePair .wethTransfer _ rfl
  | wethApproval => exact h.parsePair .wethApproval _ rfl
  | stream => exact h.parseStream
  | treasuryNounTransfer => exact h.parseTreasuryNounTransfer
  | unparsedPayableFunctionCall => exact guarded ((h.addressOf _).bind fun _ _ => within_ok P _)
  | unparsedFunctionCall => exact guarded ((h.addressOf _).bind fun _ _ => within_ok P _)
  | payableFunctionCall => exact guarded (h.parseCall.bind fun _ _ => within_ok P _)
  | functionCall => exact guarded (h.parseCall.bind fun _ _ => within_ok P _)

end IsReadWithin

/-! ## Sound registries -/

theorem within_signaturesMatch {P : Fault → Prop} {l r : Value}
    (hl : Within (fun f => (∃ cause, f = .abi cause) ∨ P f) (signatureOf l)) {s : Signature}
    (hr : signatureOf r = .ok s) : Within P (signaturesMatch l r) := by
  unfold signaturesMatch
  rw [normalizeSignature_eq_ok hr]
  split
  · exact within_ok P false
  · next fault hnot hfault =>
    rcases (hl.map _) fault hfault with ⟨cause, rfl⟩ | hP
    · exact absurd rfl (hnot cause)
    · exact within_error.mpr hP
  · exact within_ok P _

/-- What stops reading a signature stops decoding a call. -/
theorem within_signatureOf_of_decodeCall {P : Fault → Prop} {signature calldata : Value}
    (h : Within P (decodeCall signature calldata)) : Within P (signatureOf signature) := by
  intro f hf
  refine h f ?_
  unfold decodeCall
  rw [hf, error_bind]

/-- In a sound registry known calls match or do not, and those that match have fitting arguments. -/
theorem isReadWithin_of_isSound {P : Fault → Prop} {ctx : Context} {raw : RawTransaction}
    (hmalformed : ∀ cause, P (.malformed cause))
    (hdecoded : Within (fun f => (∃ cause, f = .abi cause) ∨ P f)
      (decodeCall raw.signature raw.calldata))
    (hsound : (ctx.registry.chain ctx.chain).IsSound)
    (hsigned : ∀ {kind call c}, knownCall? kind = some call →
      ctx.registry.lookup? ctx.chain call.contract = some c →
      Within P (c.signatureFor (.text call.signature.name))) : IsReadWithin P ctx raw where
  malformed := hmalformed
  decoded := hdecoded
  matched {kind call} hcall := by
    unfold matchesCall
    cases hc : ctx.registry.lookup? ctx.chain call.contract with
    | none => exact within_ok P false
    | some c =>
      refine within_ite (fun _ => within_ok P false) fun _ => ?_
      refine (hsigned hcall hc).bind fun s hs => ?_
      have htypes : s.types = call.signature.types := keepsCall_of_isSound hsound kind call c s hcall hc hs
      obtain ⟨_, hat⟩ := exists_isAt hcall
      exact within_signaturesMatch (within_signatureOf_of_decodeCall hdecoded)
        (parseSignature_of_signatureFor hs (isCoded_of_hasCoders (htypes ▸ hat.coders)))
  fits {kind call inputs} hcall hmatch hinputs := by
    obtain ⟨_, hat⟩ := exists_isAt hcall
    obtain ⟨-, -, -, -, -, hfits⟩ :=
      call_sound hsound (signatureAmong_knownAbi hcall _) hat.coders hmatch hinputs
    exact .inl hfits

/-! ## Some codec takes every raw transaction -/

/-- One of the codecs that look for no contract has no other result than a transaction. -/
theorem exists_reader (ctx : Context) (raw : RawTransaction) :
    ∃ kind, ∀ o, parseAs kind ctx raw = .ok o → ∃ t, o = some t := by
  have htakes : ∀ {α : Type} {skip : Bool} {x : Outcome α} {use : α → Transaction}
      {o : Option Transaction}, skip = false →
      (if skip then .ok none else x >>= fun a => .ok (some (use a))) = .ok o → ∃ t, o = some t := by
    rintro α skip x use o rfl h
    obtain ⟨a, -, h⟩ := bind_eq_ok.mp h
    exact ⟨use a, (Except.ok.inj h).symm⟩
  cases hsigned : raw.signature.isText "" with
  | true =>
    cases hcalldata : raw.calldata.isText "0x" with
    | true =>
      exact ⟨.transfer, fun o => htakes
        (by rw [RawTransaction.isNativeTransfer, hsigned, hcalldata]; rfl)⟩
    | false =>
      have hunparsed : isUnparsed raw = true := by
        rw [isUnparsed, hsigned, hcalldata]; rfl
      cases hzero : raw.value.isZero with
      | true => exact ⟨.unparsedFunctionCall, fun o => htakes (by rw [hunparsed, hzero]; rfl)⟩
      | false =>
        exact ⟨.unparsedPayableFunctionCall, fun o => htakes (by rw [hunparsed, hzero]; rfl)⟩
  | false =>
    cases hzero : raw.value.isZero with
    | true => exact ⟨.functionCall, fun o => htakes (by rw [hsigned, hzero]; rfl)⟩
    | false => exact ⟨.payableFunctionCall, fun o => htakes (by rw [hsigned, hzero]; rfl)⟩

end Proposals.Codec

namespace Proposals.Engine

open Proposals.Abi Proposals.Codec Proposals.Outcome

/-! ## Reading -/

theorem within_firstParsed {P : Fault → Prop} {ctx : Context} {raw : RawTransaction}
    {codecs : List TransactionKind} (hall : ∀ kind, Within P (parseAs kind ctx raw))
    (hreader : ∃ kind ∈ codecs, ∀ o, parseAs kind ctx raw = .ok o → ∃ t, o = some t) :
    Within P (firstParsed ctx raw codecs) := by
  induction codecs with
  | nil => exact absurd hreader (by simp)
  | cons first codecs ih =>
    refine (hall first).bind fun o ho => ?_
    cases o with
    | some t => exact within_ok P (first, t)
    | none =>
      -- the first codec passes on, so the reader is behind it
      obtain ⟨kind, hkind, htakes⟩ := hreader
      rcases List.mem_cons.mp hkind with rfl | hkind
      · obtain ⟨t, ht⟩ := htakes none ho
        exact absurd ht (by simp)
      · exact ih ⟨kind, hkind, htakes⟩

theorem within_parseOne {P : Fault → Prop} {registry : Registry} {chain : Int} {raw : RawTransaction}
    (h : IsReadWithin P ⟨chain, registry⟩ raw) :
    Within P ((standard registry).parseOne chain raw) := by
  obtain ⟨kind, hreader⟩ := exists_reader ⟨chain, registry⟩ raw
  have hmem : kind ∈ defaultCodecs := kind.mem_all
  exact (within_firstParsed h.parseAs ⟨kind, hmem, hreader⟩).bind fun _ _ => within_ok P _

/-- Faults of raw transactions: they are malformed, or have something that no check foresees. -/
def IsRawFault (raw : RawTransaction) (f : Fault) : Prop :=
  (∃ cause, f = .malformed cause) ∨
    ∃ cause, f = .data cause ∧ IsUnforeseen raw.signature raw.calldata cause

theorem isReadWithin_builtIn (chain : Int) (raw : RawTransaction) :
    IsReadWithin (IsRawFault raw) (builtInContext chain) raw := by
  refine isReadWithin_of_isSound (fun cause => .inl ⟨cause, rfl⟩)
    ((within_decodeCall _ _).mono fun f hf => hf.imp_right .inr) (isSound_builtInContext chain) ?_
  intro kind call c hcall hc
  obtain rfl := eq_mainnet_of_lookup? hc
  exact within_of_eq_ok _ (isAt_of_resolve hcall (resolve_of_lookup? hc)).signed

/-- A proposal with a call whose argument has a type without a layout. -/
def uncodedProposal : Wire where
  targets := [.text "0xdddddddddddddddddddddddddddddddddddddddd"]
  values := [.text "0"]
  signatures := [.text "f(foo)"]
  calldatas := [.text "0x"]

end Proposals.Engine
