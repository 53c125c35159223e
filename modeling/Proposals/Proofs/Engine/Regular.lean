import Proposals.Proofs.Abi.Shape
import Proposals.Proofs.Action.Reading
import Proposals.Proofs.Engine.Total
import Proposals.Proofs.Unparse

/-!
# `Proofs.Engine.Regular` — chains on which faults are reported

On a sound chain known calls have the argument types that their codecs expect. What then still makes
reading a signature of the registry fail with a fault that is not reported, is a hollow pair of parentheses
in one of the signatures of a contract. A chain without that is regular (`Chain.IsRegular`). On a regular
chain the engine reports all that is wrong with transactions that are ready to be encoded
(`within_encode`), and with raw transactions that have nothing unforeseen (`within_parse_isRegular`).
-/

namespace Proposals

open Proposals.Abi Proposals.Outcome

/-- **Sound, and without hollow parentheses** in the signatures of its contracts. -/
structure Chain.IsRegular (chain : Chain) : Prop where
  sound : chain.IsSound
  solid : ∀ name c, Table.find? name chain.byName = some c →
    ∀ s, .text s ∈ c.abi → ¬ HasHollowParameter s.toList

/-- A text with a single parenthesis has no hollow pair behind it. -/
theorem Abi.not_hasHollowParameter {cs : List Char} (h : cs.count '(' ≤ 1) : ¬ HasHollowParameter cs := by
  rintro ⟨body, hbody, blanks, -, hpair⟩
  have hcount := hbody.sublist.count_le '('
  have hcount' := hpair.sublist.count_le '('
  simp only [List.count_cons, List.count_append, beq_self_eq_true, if_true] at hcount hcount'
  omega

/-- A call whose arguments are words has nothing that no check foresees, if its signature is solid. -/
theorem Abi.not_isUnforeseen {signature : String} (hsolid : ¬ HasHollowParameter signature.toList)
    {s : Signature} (hs : signatureOf (.text signature) = .ok s) {coders : List Coder}
    (hcoders : HasCoders s.types coders) (hwords : ∀ c ∈ coders, c.IsWord) (calldata : Value)
    (cause : DataFault) : ¬ IsUnforeseen (.text signature) calldata cause := by
  intro h
  cases h with
  | hollow htext hpair =>
    cases htext
    exact hsolid hpair
  | uncoded hread huncoded =>
    cases hs.symm.trans hread
    exact huncoded (Codec.isCoded_of_hasCoders hcoders)
  | endless hread hcoded hbytes =>
    cases hs.symm.trans hread
    rw [hcoders.unique hcoded] at hwords
    obtain ⟨c, hc, hbytes⟩ := Coder.anyHoldsBytes_iff.mp hbytes
    cases c <;> first | exact hbytes | exact hwords _ hc

/-- **The built-in registry is regular** on every chain. -/
theorem Registry.isRegular_builtInRegistry (chain : Int) :
    (Registry.builtInRegistry.chain chain).IsRegular where
  sound := Codec.isSound_builtInContext chain
  solid name c hc s hs := by
    have hsingle : ∀ c ∈ Registry.builtInContracts, ∀ v ∈ c.abi, ∀ s ∈ v.text?, s.toList.count '(' ≤ 1 := by
      decide
    obtain rfl := Codec.eq_mainnet_of_lookup? hc
    obtain ⟨_, hmem, heq⟩ := List.mem_map.mp (Table.mem_of_find? hc)
    cases heq
    exact not_hasHollowParameter (hsingle _ hmem _ hs s rfl)

/-! ## Arguments -/

namespace Abi

variable {p : Prop}

/-- The fault is one of an argument list; or it is about unchecked data, and `p` does not hold. -/
def IsArgumentFaultIf (p : Prop) (fault : Fault) : Prop :=
  (∃ cause, fault = .abi cause) ∨ (∃ cause, fault = .data cause) ∧ ¬ p

theorem within_typeOf_data (t : Value) :
    Within (fun fault => (∃ cause, fault = .abi cause) ∨ ∃ cause, fault = .data cause) (typeOf t) := by
  unfold typeOf
  split
  · split
    · exact within_ok _ _
    · exact within_error.mpr (.inl ⟨_, rfl⟩)
    · exact within_error.mpr (.inr ⟨_, rfl⟩)
  · exact within_error.mpr (.inr ⟨_, rfl⟩)

mutual
/-- In a value with the lists that its type asks for, no value without members is met. -/
theorem not_meetsMemberless_of_isShaped : (t : AbiType) → {v : Value} → IsShaped t v →
    ¬ MeetsMemberless t v
  | .array item _, _, ⟨vs, rfl, hvs⟩, h => by
    rw [MeetsMemberless] at h
    rcases h with hnone | ⟨before, u, after, ⟨⟩, -, hmeets⟩
    · exact hnone vs rfl
    · exact not_meetsMemberless_of_isShaped item (hvs u List.mem_append_cons_self) hmeets
  | .tuple components, _, ⟨vs, rfl, hvs⟩, h => by
    rw [MeetsMemberless] at h
    rcases h with hnone | ⟨_, ⟨⟩, hmeets⟩
    · exact hnone vs rfl
    · exact not_meetMemberless_of_areShaped components hvs hmeets
  | .basic _ _, _, _, h => by rwa [MeetsMemberless] at h

theorem not_meetMemberless_of_areShaped : (ts : List AbiType) → {vs : List Value} → AreShaped ts vs →
    ¬ MeetMemberless ts vs
  | [], _, _ => by
    rw [MeetMemberless]
    · exact id
    · exact nofun
  | _ :: _, [], _ => by
    rw [MeetMemberless]
    · exact id
    · exact nofun
  | t :: ts, _ :: _, ⟨hv, hvs⟩ => by
    rintro (hmeets | ⟨-, hmeets⟩)
    · exact not_meetsMemberless_of_isShaped t hv hmeets
    · exact not_meetMemberless_of_areShaped ts hvs hmeets
end

theorem within_prepare (t : AbiType) {v : Value} (hv : p → IsShaped t v) :
    Within (IsArgumentFaultIf p) (prepare t v) := by
  intro fault hfault
  rcases within_prepare_isPrepareFault t v fault hfault with habi | rfl
  · exact .inl habi
  · exact .inr ⟨⟨_, rfl⟩, fun hp =>
      not_meetsMemberless_of_isShaped t (hv hp) ((prepare_eq_wrongKind_iff t).mp hfault)⟩

theorem within_prepareArguments {types vs : List Value}
    (h : p → ∀ pair ∈ types.zip vs, IsShapedFor pair.1 pair.2) :
    Within (IsArgumentFaultIf p) (prepareArguments types vs) := by
  induction types generalizing vs with
  | nil => exact within_ok _ _
  | cons t types ih =>
    cases vs with
    | nil => exact within_ok _ _
    | cons v vs =>
      have htype : Within (IsArgumentFaultIf p) (typeOf t) := by
        intro fault hfault
        by_cases hp : p
        · obtain ⟨type, htype, -⟩ := h hp (t, v) List.mem_cons_self
          exact absurd (htype.symm.trans hfault) nofun
        · exact (within_typeOf_data t fault hfault).imp_right fun hdata => ⟨hdata, hp⟩
      refine htype.bind fun type ht => (within_prepare type fun hp => ?_).bind fun _ _ =>
        (ih fun hp pair hpair => h hp pair (List.mem_cons_of_mem _ hpair)).bind fun _ _ => within_ok _ _
      obtain ⟨type', htype', hshaped⟩ := h hp (t, v) List.mem_cons_self
      cases ht.symm.trans htype'
      exact hshaped

/-- **Encoding arguments has only faults of arguments**, if they have the lists that their types ask
    for. -/
theorem within_encodeArguments {types vs : List Value}
    (h : p → ∀ pair ∈ types.zip vs, IsShapedFor pair.1 pair.2) :
    Within (IsArgumentFaultIf p) (encodeArguments types vs) := by
  unfold encodeArguments
  refine within_ite (fun _ => within_error.mpr (.inl ⟨_, rfl⟩)) fun _ => ?_
  refine (within_prepareArguments h).bind fun ⟨_, _⟩ _ => ?_
  dsimp only
  split
  · exact within_ok _ _
  · exact within_error.mpr (.inl ⟨_, rfl⟩)

end Abi

/-! ## Signatures of the registry -/

theorem Contract.within_signatureFor {p : Prop} {c : Contract}
    (h : p → ∀ s, .text s ∈ c.abi → ¬ HasHollowParameter s.toList) (function : Value) :
    Within (Fault.IsReportedIf p) (c.signatureFor function) := by
  unfold signatureFor
  generalize habi : c.abi = abi at h
  clear habi
  induction abi with
  | nil => exact within_error.mpr (.inl rfl)
  | cons entry abi ih =>
    unfold signatureAmong
    split
    · exact within_error.mpr (.inl rfl)
    · next fault hnot hfault =>
      cases entry with
      | text s =>
        rcases within_parseSignature s fault hfault with ⟨cause, rfl⟩ | ⟨rfl, hhollow⟩
        · exact absurd rfl (hnot cause)
        · exact within_error.mpr (.inr ⟨⟨_, rfl⟩, fun hp => h hp s List.mem_cons_self hhollow⟩)
      | _ => exact absurd (Except.error.inj hfault).symm (hnot _)
    · exact within_ite (fun _ => within_ok _ _) fun _ =>
        ih fun hp s hs => h hp s (List.mem_cons_of_mem _ hs)

namespace Codec

variable {p : Prop} {ctx : Context} {t : Transaction}

theorem within_resolve (ctx : Context) (name : String) :
    Within (Fault.IsReportedIf p) (ctx.resolve name) := by
  unfold Context.resolve Registry.resolve
  split
  · exact within_ok _ _
  · exact within_error.mpr (.inl rfl)

/-- The arguments of known calls are no lists. -/
theorem exists_basic {kind : TransactionKind} {call : KnownCall} (hcall : knownCall? kind = some call) :
    ∀ type ∈ call.signature.types, ∃ base size, typeOf (.text type) = .ok (.basic base size) := by
  have haddress : typeOf (.text "address") = .ok (.basic "address" none) := rfl
  have hword : typeOf (.text "uint256") = .ok (.basic "uint" (some (.plain 256))) := rfl
  have hbyte : typeOf (.text "uint8") = .ok (.basic "uint" (some (.plain 8))) := rfl
  cases kind <;> cases hcall <;>
    simp only [List.forall_mem_cons, List.not_mem_nil, haddress, hword, hbyte] <;> simp

/-- A known call reports arguments that do not fit, on a regular chain. -/
theorem within_encodeCall (kind : TransactionKind) {call : KnownCall}
    (hcall : knownCall? kind = some call) {c : Contract} (hc : ctx.resolve call.contract = .ok c)
    (hregular : p → (ctx.registry.chain ctx.chain).IsRegular) (args : List Value) (value : Value) :
    Within (Fault.IsReportedIf p) (encodeCall c call.signature.name args value) := by
  have hfound : ctx.registry.lookup? ctx.chain call.contract = some c := resolve_eq_ok hc
  unfold encodeCall
  refine (Contract.within_signatureFor (fun hp => (hregular hp).solid _ c hfound) _).bind fun s hs => ?_
  have hargs : Within (IsArgumentFaultIf p) (encodeArguments (s.types.map .text) args) := by
    refine within_encodeArguments fun hp pair hpair => ?_
    have htypes := keepsCall_of_isSound (hregular hp).sound kind call c s hcall hfound hs
    obtain ⟨type, htype, hpair⟩ := List.mem_map.mp (List.of_mem_zip hpair).1
    rw [htypes] at htype
    obtain ⟨base, size, hbasic⟩ := exists_basic hcall type htype
    rw [← hpair]
    exact ⟨_, hbasic, by rw [IsShaped]; trivial⟩
  split
  · exact within_ok _ _
  · exact within_error.mpr (.inl rfl)
  · next fault hnot hfault =>
    rcases hargs fault hfault with ⟨cause, rfl⟩ | hdata
    · exact absurd rfl (hnot cause)
    · exact within_error.mpr (.inr hdata)

/-! ## Writing -/

theorem within_unparsePair (kind : TransactionKind) {call : KnownCall}
    (hcall : knownCall? kind = some call)
    (hregular : p → (ctx.registry.chain ctx.chain).IsRegular) {first second : String} {a b : Value}
    (ha : t.field first = .ok a) (hb : t.field second = .ok b) :
    Within (Fault.IsReportedIf p) (unparsePair call.contract call.signature.name first second ctx t) := by
  refine (within_resolve ctx _).bind fun c hc => ?_
  rw [ha, ok_bind, hb, ok_bind]
  exact within_encodeCall kind hcall hc hregular _ _

theorem within_unparseStream {s : Stream} (htoken : ∃ c, s.token = .currency c)
    (hregular : p → (ctx.registry.chain ctx.chain).IsRegular) :
    Within (Fault.IsReportedIf p) (unparseStream ctx (.stream s)) := by
  have hstream : Within (Fault.IsReportedIf p) (streamToken s.token) := by
    obtain ⟨c, hc⟩ := htoken
    rw [hc]
    cases c with
    | eth => exact within_error.mpr (.inl rfl)
    | usdc | weth => exact within_ok _ _
  exact hstream.bind fun _ _ => (within_resolve ctx _).bind fun _ _ =>
    (within_resolve ctx _).bind fun _ hc => within_encodeCall .stream rfl hc hregular _ _

theorem exists_text_of_typeOf {v : Value} {type : AbiType} (h : typeOf v = .ok type) : ∃ s, v = .text s := by
  cases v with
  | text s => exact ⟨s, rfl⟩
  | _ => exact absurd h nofun

theorem within_unparseCall {call : FunctionCall}
    (ht : t = .functionCall call ∨ ∃ value, t = .payableFunctionCall call value) (hshaped : call.IsShaped)
    (value : Value) : Within (Fault.IsReportedIf p) (unparseCall t value) := by
  obtain ⟨types, inputs, htypes, hinputs, hshaped⟩ := hshaped
  obtain ⟨htypesField, hinputsField, htarget, hname⟩ := field_of_call ht
  obtain ⟨-, hzip⟩ := List.forall₂_iff_zip.mp hshaped
  have hargs : Within (IsArgumentFaultIf p) (encodeArguments types inputs) :=
    within_encodeArguments fun _ _ hpair => hzip hpair
  obtain ⟨names, hnames⟩ : ∃ names, types.mapM textOf = .ok names := by
    refine exists_mapM_of_forall fun type htype => ?_
    obtain ⟨_, -, _, hread, -⟩ := exists_of_mem_forall₂ hshaped.flip htype
    obtain ⟨s, rfl⟩ := exists_text_of_typeOf hread
    exact ⟨s, rfl⟩
  unfold unparseCall
  simp only [htypesField, hinputsField, htypes, hinputs, Value.items, ok_bind, htarget, hname, hnames]
  split
  · exact within_ok _ _
  · exact within_error.mpr (.inl rfl)
  · next fault hnot hfault =>
    rcases hargs fault hfault with ⟨cause, rfl⟩ | hdata
    · exact absurd rfl (hnot cause)
    · exact within_error.mpr (.inr hdata)

/-- **On a regular chain codecs report what they cannot write** of a transaction that is ready to be
    encoded. -/
theorem within_unparseAs {kind : TransactionKind} (hkind : t.kind? = some kind) (ht : t.IsEncodable)
    (hregular : p → (ctx.registry.chain ctx.chain).IsRegular) :
    Within (Fault.IsReportedIf p) (unparseAs kind ctx t) := by
  cases t with
  | payerTopUp value =>
    cases hkind
    exact (within_resolve ctx _).bind fun _ _ => within_ok _ _
  | transfer | unparsedPayableFunctionCall | unparsedFunctionCall => cases hkind; exact within_ok _ _
  | usdcTransferViaPayer =>
    cases hkind
    exact within_unparsePair .usdcTransferViaPayer rfl hregular rfl rfl
  | usdcApproval => cases hkind; exact within_unparsePair .usdcApproval rfl hregular rfl rfl
  | wethDeposit value =>
    cases hkind
    exact (within_resolve ctx _).bind fun _ hc =>
      within_encodeCall .wethDeposit rfl hc hregular _ _
  | wethTransfer => cases hkind; exact within_unparsePair .wethTransfer rfl hregular rfl rfl
  | wethApproval => cases hkind; exact within_unparsePair .wethApproval rfl hregular rfl rfl
  | stream s => cases hkind; exact within_unparseStream (ht.token s rfl) hregular
  | treasuryNounTransfer receiver nounId =>
    cases hkind
    exact (within_resolve ctx _).bind fun _ _ => (within_resolve ctx _).bind fun _ hc =>
      within_encodeCall .treasuryNounTransfer rfl hc hregular _ _
  | payableFunctionCall call value =>
    cases hkind
    exact within_unparseCall (.inr ⟨value, rfl⟩) (ht.inputs call rfl) value
  | functionCall call => cases hkind; exact within_unparseCall (.inl rfl) (ht.inputs call rfl) _
  | foreign => exact absurd hkind nofun

/-- What is written has a target and calldata that can be printed, and its signature is a text. -/
theorem Writes.isPrintable {raw : RawTransaction} (h : Writes ctx t raw) (ht : t.IsEncodable) :
    raw.target.IsPrintable ∧ raw.signature.IsPrintable ∧ raw.calldata.IsPrintable := by
  have htarget : ∀ {v : Value}, ("target", v) ∈ t.fields → v.IsPrintable := fun hv =>
    ht.printable _ hv (.inl rfl)
  have hcalldata : ∀ {v : Value}, ("calldata", v) ∈ t.fields → v.IsPrintable := fun hv =>
    ht.printable _ hv (.inr rfl)
  cases h with
  | payerTopUp => exact ⟨trivial, trivial, trivial⟩
  | transfer => exact ⟨htarget (by simp [Transaction.fields]), trivial, trivial⟩
  | unparsedPayable | unparsed =>
    exact ⟨htarget (by simp [Transaction.fields]), trivial, hcalldata (by simp [Transaction.fields])⟩
  | known _ _ _ hraw =>
    obtain ⟨s, calldata, -, -, rfl⟩ := encodeCall_eq_ok hraw
    exact ⟨trivial, trivial, trivial⟩
  | payableCall h =>
    obtain ⟨-, -, -, -, -, -, -, -, rfl⟩ := h
    exact ⟨htarget (by simp [Transaction.fields, Transaction.callFields]), trivial, trivial⟩
  | call h =>
    obtain ⟨-, -, -, -, -, -, -, -, rfl⟩ := h
    exact ⟨htarget (by simp [Transaction.fields, Transaction.callFields]), trivial, trivial⟩

end Codec

/-! ## Whole proposals -/

namespace Engine

open Proposals.Codec

variable {p : Prop} {e : Engine} {chain : Int}

/-- The engine reports what it cannot write. -/
theorem within_unparse {ts : List Transaction} (hts : ∀ t ∈ ts, t.IsEncodable)
    (hregular : p → (e.registry.chain chain).IsRegular) :
    Within (Fault.IsReportedIf p) (e.unparse chain ts) := by
  refine within_mapM fun t ht => ?_
  unfold unparseOne
  split
  · next kind hkind =>
    exact within_ite (fun _ => within_unparseAs hkind (hts t ht) hregular) fun _ =>
      within_error.mpr (.inl rfl)
  · exact within_error.mpr (.inl rfl)

/-- **On a regular chain the engine reports what it cannot encode.** -/
theorem within_encode {actions : List Action} (ha : ∀ a ∈ actions, a.IsResolvable)
    (hregular : p → (e.registry.chain chain).IsRegular) :
    Within (Fault.IsReportedIf p) (e.encode chain actions) :=
  (within_resolveAll ha).bind fun _ hts =>
    within_unparse (isEncodable_of_resolveAll ha hts) hregular

/-- The lists of what is encoded can be printed. -/
theorem isPrintable_of_encode {actions : List Action} (ha : ∀ a ∈ actions, a.IsResolvable)
    {raws : List RawTransaction} (h : e.encode chain actions = .ok raws) :
    (toWire raws).toDocument.IsPrintable := by
  obtain ⟨ts, hts, h⟩ := bind_eq_ok.mp h
  have hencodable := isEncodable_of_resolveAll ha hts
  have hraws : ∀ raw ∈ raws,
      raw.target.IsPrintable ∧ raw.signature.IsPrintable ∧ raw.calldata.IsPrintable := by
    intro raw hraw
    obtain ⟨t, ht, hwritten⟩ := exists_of_mem_mapM h hraw
    exact (writes_of_unparseOne hwritten).isPrintable (hencodable t ht)
  have hlist : ∀ {f : RawTransaction → Value}, (∀ raw ∈ raws, (f raw).IsPrintable) →
      (Value.list (raws.map f)).IsPrintable := fun hall =>
    Value.arePrintable_iff.mpr (List.forall_mem_map.mpr hall)
  exact ⟨hlist fun raw hraw => (hraws raw hraw).1, hlist fun _ _ => trivial,
    hlist fun raw hraw => (hraws raw hraw).2.1, hlist fun raw hraw => (hraws raw hraw).2.2, trivial⟩

/-- **On a regular chain the engine reports what it cannot read**, but for the unforeseen. -/
theorem within_parse_isRegular {registry : Registry} {raws : List RawTransaction}
    (hregular : (registry.chain chain).IsRegular)
    (hforeseen : ∀ raw ∈ raws, ∀ cause, ¬ IsUnforeseen raw.signature raw.calldata cause) :
    Within (fun fault => CommandLine.isReported fault = true) ((standard registry).parse chain raws) := by
  induction raws with
  | nil => exact within_ok _ _
  | cons raw raws ih =>
    obtain ⟨hraw, hraws⟩ := List.forall_mem_cons.mp hforeseen
    have hread : IsReadWithin (fun fault => CommandLine.isReported fault = true) ⟨chain, registry⟩ raw := by
      refine isReadWithin_of_isSound (fun _ => rfl) ((within_decodeCall _ _).mono fun _ hf => ?_)
        hregular.sound fun {kind call c} _ hc => ?_
      · exact hf.imp_right fun ⟨cause, _, hunforeseen⟩ => absurd hunforeseen (hraw cause)
      · exact (Contract.within_signatureFor (fun _ : True => hregular.solid _ c hc) _).mono fun _ hf =>
          hf.resolve_right fun hdata => hdata.2 trivial
    unfold parse
    exact (within_parseOne hread).bind fun _ _ => (ih hraws).bind fun _ _ => within_ok _ _

end Engine

end Proposals
