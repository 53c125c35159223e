import Proposals.Engine
import Proposals.Proofs.Written

/-!
# `Proofs.Unparse` — the raw transactions that codecs write

Codecs write without looking at what they write: a field of the transaction is put in its place as it
is, and only arguments of calls are encoded. `Writes` lists what can come out, once for all kinds, so
that what holds of all written transactions is shown by cases of it. The first such fact is that the
ether of the raw transaction is that of the transaction (`Writes.value_eq`).
-/

namespace Proposals.Codec

open Proposals.Abi Proposals.Outcome

variable {ctx : Context} {t : Transaction} {raw : RawTransaction}

/-- A call of a function of a contract has the canonical signature and the calldata of its
    arguments. -/
theorem encodeCall_eq_ok {c : Contract} {function : String} {args : List Value} {value : Value}
    (h : encodeCall c function args value = .ok raw) :
    ∃ s calldata, c.signatureFor (.text function) = .ok s ∧
      encodeArguments (s.types.map .text) args = .ok calldata ∧
      raw = ⟨.text c.address, .text s.text, .text calldata, value⟩ := by
  obtain ⟨s, hs, h⟩ := bind_eq_ok.mp h
  split at h
  · next calldata hcalldata =>
    cases h
    exact ⟨s, calldata, hs, hcalldata, rfl⟩
  · exact absurd h (by simp)
  · exact absurd h (by simp)

/-- The raw transaction that is written for a call with typed inputs: the signature is the name with
    the types, just as they are given. -/
def IsCallWritten (call : FunctionCall) (value : Value) (raw : RawTransaction) : Prop :=
  ∃ types inputs names calldata, call.inputTypes.items = .ok types ∧
    call.inputs.items = .ok inputs ∧ types.mapM textOf = .ok names ∧
    encodeArguments types inputs = .ok calldata ∧
    raw = ⟨call.target, .text (call.name.display ++ typeList names), .text calldata, value⟩

theorem isCallWritten_of_unparseCall {call : FunctionCall} {value : Value}
    (ht : t = .functionCall call ∨ ∃ value, t = .payableFunctionCall call value)
    (h : unparseCall t value = .ok raw) : IsCallWritten call value raw := by
  obtain ⟨htypes, hinputs, htarget, hname⟩ := field_of_call ht
  unfold unparseCall at h
  simp only [htypes, hinputs, htarget, hname, ok_bind] at h
  obtain ⟨types, htypes, h⟩ := bind_eq_ok.mp h
  obtain ⟨inputs, hinputs, h⟩ := bind_eq_ok.mp h
  split at h
  · next calldata hcalldata =>
    obtain ⟨names, hnames, h⟩ := bind_eq_ok.mp h
    cases h
    exact ⟨types, inputs, names, calldata, htypes, hinputs, hnames, hcalldata, rfl⟩
  · exact absurd h (by simp)
  · exact absurd h (by simp)

/-- **What a codec writes** for a transaction. -/
inductive Writes (ctx : Context) : Transaction → RawTransaction → Prop
  | payerTopUp {value : Value} {c : Contract} (hc : ctx.resolve "token-buyer" = .ok c) :
      Writes ctx (.payerTopUp value) ⟨.text c.address, .text "", .text "0x", value⟩
  | transfer {target value : Value} :
      Writes ctx (.transfer target value) ⟨target, .text "", .text "0x", value⟩
  | unparsedPayable {target calldata value : Value} :
      Writes ctx (.unparsedPayableFunctionCall target calldata value)
        ⟨target, .text "", calldata, value⟩
  | unparsed {target calldata : Value} :
      Writes ctx (.unparsedFunctionCall target calldata) ⟨target, .text "", calldata, .int 0⟩
  | known {t : Transaction} {raw : RawTransaction} {kind : TransactionKind} {call : KnownCall}
      {c : Contract} {args : List Value} (hkind : t.kind? = some kind)
      (hcall : knownCall? kind = some call) (hc : ctx.resolve call.contract = .ok c)
      (hraw : encodeCall c call.signature.name args t.nativeValue = .ok raw) : Writes ctx t raw
  | payableCall {call : FunctionCall} {value : Value} {raw : RawTransaction}
      (h : IsCallWritten call value raw) : Writes ctx (.payableFunctionCall call value) raw
  | call {call : FunctionCall} {raw : RawTransaction} (h : IsCallWritten call (.int 0) raw) :
      Writes ctx (.functionCall call) raw

/-- A call with a receiver and an amount. -/
theorem writes_of_unparsePair {kind : TransactionKind} {call : KnownCall} {first second : String}
    (hkind : t.kind? = some kind) (hcall : knownCall? kind = some call) (hvalue : t.nativeValue = .int 0)
    (h : unparsePair call.contract call.signature.name first second ctx t = .ok raw) :
    Writes ctx t raw := by
  obtain ⟨c, hc, h⟩ := bind_eq_ok.mp h
  obtain ⟨a, -, h⟩ := bind_eq_ok.mp h
  obtain ⟨b, -, h⟩ := bind_eq_ok.mp h
  exact .known hkind hcall hc (hvalue ▸ h)

/-- **Codecs write nothing else.** -/
theorem writes_of_unparseAs {kind : TransactionKind} (hkind : t.kind? = some kind)
    (h : unparseAs kind ctx t = .ok raw) : Writes ctx t raw := by
  cases t with
  | payerTopUp value =>
    cases hkind
    obtain ⟨c, hc, h⟩ := bind_eq_ok.mp h
    cases h
    exact .payerTopUp hc
  | transfer target value => cases hkind; cases h; exact .transfer
  | usdcTransferViaPayer receiver amount =>
    cases hkind
    exact writes_of_unparsePair rfl rfl rfl h
  | usdcApproval spender amount => cases hkind; exact writes_of_unparsePair rfl rfl rfl h
  | wethDeposit value =>
    cases hkind
    obtain ⟨c, hc, h⟩ := bind_eq_ok.mp h
    exact .known rfl rfl hc h
  | wethTransfer receiver amount => cases hkind; exact writes_of_unparsePair rfl rfl rfl h
  | wethApproval spender amount => cases hkind; exact writes_of_unparsePair rfl rfl rfl h
  | stream s =>
    cases hkind
    obtain ⟨token, -, h⟩ := bind_eq_ok.mp (show (streamToken s.token >>= _) = _ from h)
    obtain ⟨tokenContract, -, h⟩ := bind_eq_ok.mp h
    obtain ⟨factory, hfactory, h⟩ := bind_eq_ok.mp h
    exact .known rfl rfl hfactory h
  | treasuryNounTransfer receiver nounId =>
    cases hkind
    obtain ⟨executor, -, h⟩ := bind_eq_ok.mp h
    obtain ⟨token, htoken, h⟩ := bind_eq_ok.mp h
    exact .known rfl rfl htoken h
  | unparsedPayableFunctionCall target calldata value => cases hkind; cases h; exact .unparsedPayable
  | unparsedFunctionCall target calldata => cases hkind; cases h; exact .unparsed
  | payableFunctionCall call value =>
    cases hkind
    exact .payableCall (isCallWritten_of_unparseCall (.inr ⟨value, rfl⟩) h)
  | functionCall call => cases hkind; exact .call (isCallWritten_of_unparseCall (.inl rfl) h)
  | foreign => exact absurd hkind (by simp [Transaction.kind?])

/-- The ether of a raw transaction is that of the transaction. -/
theorem Writes.value_eq (h : Writes ctx t raw) : raw.value = t.nativeValue := by
  cases h with
  | known _ _ _ hraw =>
    obtain ⟨s, calldata, -, -, rfl⟩ := encodeCall_eq_ok hraw
    rfl
  | payableCall h =>
    obtain ⟨-, -, -, -, -, -, -, -, rfl⟩ := h
    rfl
  | call h =>
    obtain ⟨-, -, -, -, -, -, -, -, rfl⟩ := h
    rfl
  | _ => rfl

end Proposals.Codec

namespace Proposals.Engine

open Proposals.Codec Proposals.Outcome

variable {e : Engine} {chain : Int}

/-- The engine writes what a codec writes. -/
theorem writes_of_unparseOne {t : Transaction} {raw : RawTransaction}
    (h : e.unparseOne chain t = .ok raw) : Writes (e.context chain) t raw := by
  unfold unparseOne at h
  split at h
  · next kind hkind =>
    split at h
    · exact writes_of_unparseAs hkind h
    · exact absurd h (by simp)
  · exact absurd h (by simp)

/-- What is written for readable transactions carries natural numbers. -/
theorem isNatural_of_unparse {ts : List Transaction} {raws : List RawTransaction}
    (hts : ∀ t ∈ ts, t.IsReadable) (h : e.unparse chain ts = .ok raws) :
    ∀ raw ∈ raws, raw.value.IsNatural := by
  intro raw hraw
  obtain ⟨t, ht, hwritten⟩ := exists_of_mem_mapM h hraw
  rw [(writes_of_unparseOne hwritten).value_eq]
  exact (hts t ht).isNatural_nativeValue

end Proposals.Engine
