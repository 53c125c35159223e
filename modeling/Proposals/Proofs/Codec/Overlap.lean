import Proposals.Proofs.Valid

/-!
# `Proofs.Codec.Overlap` — raw transactions that two codecs claim

A codec *claims* a raw transaction if it does not pass it on: it reads it, or fails on it. Codecs look
at the shape of the raw transaction first, whether it has a signature and calldata, and some at its
value (`shape_of_claims`). In the built-in registry the codecs of known calls also need their own
address and signature, so two of them claim the same raw transaction only if its signature cannot be
read at all, and then both fail with the same fault (`known_of_claims`).

What remains are the overlaps that are meant (`overlaps`): a top-up is also a transfer, and a known call
is also a call with a signature.
-/

namespace Proposals.Codec

open Proposals.Abi Proposals.Outcome

variable {ctx : Context} {raw : RawTransaction} {kind kind' : TransactionKind} {chain : Int}

/-- The codec reads the raw transaction or fails on it, and does not pass it on. -/
def Claims (ctx : Context) (raw : RawTransaction) (kind : TransactionKind) : Prop :=
  parseAs kind ctx raw ≠ .ok none

/-! ## Shapes -/

/-- What of signature and calldata a raw transaction has. -/
inductive Shape where
  | native
  | unread
  | signed
deriving DecidableEq

/-- The shape of a raw transaction. -/
def shapeOf (raw : RawTransaction) : Shape :=
  if raw.signature.isText "" then if raw.calldata.isText "0x" then .native else .unread else .signed

/-- The shape of the raw transactions that a codec looks for. -/
def shape : TransactionKind → Shape
  | .payerTopUp | .transfer => .native
  | .unparsedPayableFunctionCall | .unparsedFunctionCall => .unread
  | _ => .signed

/-- Whether a general codec looks for raw transactions with a value, or for those without. -/
def carries? : TransactionKind → Option Bool
  | .unparsedPayableFunctionCall | .payableFunctionCall => some true
  | .unparsedFunctionCall | .functionCall => some false
  | _ => none

theorem shapeOf_eq_native : shapeOf raw = .native ↔ raw.isNativeTransfer = true := by
  unfold shapeOf RawTransaction.isNativeTransfer
  cases raw.signature.isText "" <;> cases raw.calldata.isText "0x" <;> simp

theorem shapeOf_eq_unread : shapeOf raw = .unread ↔ isUnparsed raw = true := by
  unfold shapeOf isUnparsed
  cases raw.signature.isText "" <;> cases raw.calldata.isText "0x" <;> simp

theorem shapeOf_eq_signed : shapeOf raw = .signed ↔ raw.signature.isText "" = false := by
  unfold shapeOf
  cases raw.signature.isText "" <;> cases raw.calldata.isText "0x" <;> simp

/-! ## Known calls -/

/-- The raw transaction is signed and goes to the contract of the call. It has the signature of the call,
    or one that no codec can read and that faults with `fault`. -/
structure IsSignedFor (call : KnownCall) (raw : RawTransaction) (fault : Fault → Prop) : Prop where
  signed : raw.signature.isText "" = false
  isAt : ∃ c, IsAt call c ∧ sameAddress raw.target (.text c.address) = true
  signature : normalizeSignature raw.signature = .ok call.signature.text ∨
    ∃ f, normalizeSignature raw.signature = .error f ∧ fault f

/-- A call that is not refused is matched, or its signature cannot be read. -/
theorem isSignedFor_of_matchesCall {call : KnownCall} {c : Contract} (hc : IsAt call c)
    (h : matchesCall mainnet call.contract call.signature.name raw ≠ .ok false) :
    IsSignedFor call raw fun f =>
      matchesCall mainnet call.contract call.signature.name raw = .error f := by
  unfold matchesCall at h ⊢
  simp only [hc.found, hc.signed, ok_bind] at h ⊢
  cases haddress : sameAddress raw.target (.text c.address) with
  | false =>
    rw [haddress] at h
    exact absurd rfl h
  | true =>
    rw [haddress] at h
    simp only [Bool.not_true, Bool.false_eq_true, if_false] at h ⊢
    unfold signaturesMatch at h ⊢
    rw [normalizeSignature_eq_ok hc.signatureOf_eq] at h ⊢
    -- the empty text would be no signature, and refused
    have hsigned : raw.signature.isText "" = false := by
      refine Bool.eq_false_iff.mpr fun hempty => ?_
      rw [isText_eq_true.mp hempty] at h
      exact absurd rfl h
    refine ⟨hsigned, ⟨c, hc, haddress⟩, ?_⟩
    split at h
    · exact absurd rfl h
    · next f _ hf => exact .inr ⟨f, hf, rfl⟩
    · next text htext =>
      refine .inl (htext.trans (congrArg Except.ok ?_))
      by_contra hne
      exact h (congrArg Except.ok (beq_eq_false_iff_ne.mpr hne))

/-- **A known call is claimed at its own address**, for its own signature or for one that cannot be
    read. -/
theorem known_of_claims {call : KnownCall} (hcall : knownCall? kind = some call)
    (h : Claims (builtInContext chain) raw kind) :
    IsSignedFor call raw fun f => parseAs kind (builtInContext chain) raw = .error f := by
  have hmatch : matchesCall (builtInContext chain) call.contract call.signature.name raw ≠ .ok false :=
    fun hfalse => h (parseAs_unmatched hcall hfalse)
  cases hc : (builtInContext chain).registry.lookup? chain call.contract with
  | none =>
    have hnone : (builtInContext chain).registry.lookup? (builtInContext chain).chain call.contract =
      none := hc
    unfold matchesCall at hmatch
    rw [hnone] at hmatch
    exact absurd rfl hmatch
  | some c =>
    obtain rfl := eq_mainnet_of_lookup? hc
    obtain ⟨hsigned, hat, hsignature⟩ :=
      isSignedFor_of_matchesCall (isAt_of_resolve hcall (resolve_of_lookup? hc)) hmatch
    refine ⟨hsigned, hat, hsignature.imp_right ?_⟩
    rintro ⟨f, hf, hfault⟩
    refine ⟨f, hf, ?_⟩
    rcases parseAs_cases hcall (builtInContext Registry.mainnet) raw with hnone | ⟨use, hread⟩
    · exact absurd hnone h
    · rw [hread, readCall]
      exact congrArg (· >>= _) hfault

/-- Two known calls are only claimed together when their common signature cannot be read. -/
theorem eq_or_fault_of_known {call call' : KnownCall} (hcall : knownCall? kind = some call)
    (hcall' : knownCall? kind' = some call') (h : Claims (builtInContext chain) raw kind)
    (h' : Claims (builtInContext chain) raw kind') :
    kind = kind' ∨ ∃ f, parseAs kind (builtInContext chain) raw = .error f ∧
      parseAs kind' (builtInContext chain) raw = .error f := by
  obtain ⟨-, ⟨c, hc, haddress⟩, hsignature⟩ := known_of_claims hcall h
  obtain ⟨-, ⟨c', hc', haddress'⟩, hsignature'⟩ := known_of_claims hcall' h'
  rcases hsignature with htext | ⟨f, hf, hfault⟩ <;>
    rcases hsignature' with htext' | ⟨f', hf', hfault'⟩
  · -- address and signature are those of one kind
    refine .inl (place?_injective kind kind.mem_all kind' kind'.mem_all (by rw [hcall]; rfl) ?_)
    have hsame := ((sameAddress_text hc.address).mp haddress).2
    rw [((sameAddress_text hc'.address).mp haddress').2, Option.some.injEq] at hsame
    rw [hc.place?_eq hcall, hc'.place?_eq hcall', hsame,
      Except.ok.inj (htext.symm.trans htext')]
  · exact absurd (htext.symm.trans hf') nofun
  · exact absurd (htext'.symm.trans hf) nofun
  · obtain rfl : f = f' := Except.error.inj (hf.symm.trans hf')
    exact .inr ⟨f, hfault, hfault'⟩

/-! ## Overlaps -/

/-- A codec that claims does not skip. -/
theorem not_skip {skip : Bool} {p : Parsed} (h : (if skip then .ok none else p) ≠ .ok none) :
    skip = false := by
  cases skip with
  | false => rfl
  | true => exact absurd rfl h

/-- **What is claimed has the shape that the codec looks for**, and carries a value just as it asks. -/
theorem shape_of_claims (h : Claims (builtInContext chain) raw kind) :
    shapeOf raw = shape kind ∧ ∀ value, carries? kind = some value → raw.value.isZero = !value := by
  cases hcall : knownCall? kind with
  | some call =>
    have hsigned := shapeOf_eq_signed.mpr (known_of_claims hcall h).signed
    cases kind <;> cases hcall <;> exact ⟨hsigned, nofun⟩
  | none =>
    cases kind <;> cases hcall
    · refine ⟨shapeOf_eq_native.mpr (by_contra fun hnot => h ?_), nofun⟩
      exact (parseAs_of_not_isNativeTransfer _ (Bool.eq_false_iff.mpr hnot)).1
    · refine ⟨shapeOf_eq_native.mpr (by_contra fun hnot => h ?_), nofun⟩
      exact (parseAs_of_not_isNativeTransfer _ (Bool.eq_false_iff.mpr hnot)).2
    · obtain ⟨hunparsed, hzero⟩ := Bool.or_eq_false_iff.mp (not_skip h)
      rw [Bool.not_eq_false'] at hunparsed
      exact ⟨shapeOf_eq_unread.mpr hunparsed, fun value hvalue => by cases hvalue; exact hzero⟩
    · obtain ⟨hunparsed, hzero⟩ := Bool.or_eq_false_iff.mp (not_skip h)
      rw [Bool.not_eq_false'] at hunparsed hzero
      exact ⟨shapeOf_eq_unread.mpr hunparsed, fun value hvalue => by cases hvalue; exact hzero⟩
    · obtain ⟨hsigned, hzero⟩ := Bool.or_eq_false_iff.mp (not_skip h)
      exact ⟨shapeOf_eq_signed.mpr hsigned, fun value hvalue => by cases hvalue; exact hzero⟩
    · obtain ⟨hsigned, hzero⟩ := Bool.or_eq_false_iff.mp (not_skip h)
      rw [Bool.not_eq_false'] at hzero
      exact ⟨shapeOf_eq_signed.mpr hsigned, fun value hvalue => by cases hvalue; exact hzero⟩

/-- The kinds whose codecs look for a well-known function. -/
def knownKinds : List TransactionKind :=
  [.usdcTransferViaPayer, .usdcApproval, .wethDeposit, .wethTransfer, .wethApproval, .stream,
    .treasuryNounTransfer]

/-- The kinds of codecs that claim the same raw transactions by design, the special one first. -/
def overlaps : List (TransactionKind × TransactionKind) :=
  (.payerTopUp, .transfer) ::
    knownKinds.flatMap fun kind => [(kind, .payableFunctionCall), (kind, .functionCall)]

/-- Kinds that look for the same shape and the same value overlap by design, if one of them is not a
    known call. -/
theorem overlaps_of_shape : ∀ kind ∈ TransactionKind.all, ∀ kind' ∈ TransactionKind.all,
    shape kind = shape kind' →
    (∀ value ∈ carries? kind, ∀ value' ∈ carries? kind', value = value') →
    kind = kind' ∨ (kind, kind') ∈ overlaps ∨ (kind', kind) ∈ overlaps ∨
      ((knownCall? kind).isSome ∧ (knownCall? kind').isSome) := by decide

/-- **Codecs overlap as designed, or fail alike.** -/
theorem overlap_of_claims (h : Claims (builtInContext chain) raw kind)
    (h' : Claims (builtInContext chain) raw kind') :
    kind = kind' ∨ (kind, kind') ∈ overlaps ∨ (kind', kind) ∈ overlaps ∨
      ∃ f, parseAs kind (builtInContext chain) raw = .error f ∧
        parseAs kind' (builtInContext chain) raw = .error f := by
  obtain ⟨hshape, hvalue⟩ := shape_of_claims h
  obtain ⟨hshape', hvalue'⟩ := shape_of_claims h'
  have hcarries : ∀ value ∈ carries? kind, ∀ value' ∈ carries? kind', value = value' := by
    intro value hv value' hv'
    exact Bool.not_inj ((hvalue value hv).symm.trans (hvalue' value' hv'))
  rcases overlaps_of_shape kind kind.mem_all kind' kind'.mem_all (hshape.symm.trans hshape') hcarries with
    heq | hover | hover | ⟨hsome, hsome'⟩
  · exact .inl heq
  · exact .inr (.inl hover)
  · exact .inr (.inr (.inl hover))
  · obtain ⟨call, hcall⟩ := Option.isSome_iff_exists.mp hsome
    obtain ⟨call', hcall'⟩ := Option.isSome_iff_exists.mp hsome'
    exact (eq_or_fault_of_known hcall hcall' h h').imp_right fun hfault => .inr (.inr hfault)

end Proposals.Codec
