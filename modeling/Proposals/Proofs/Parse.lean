import Proposals.Proofs.Engine.Parse
import Proposals.Proofs.Transaction.Document
import Proposals.Proofs.Unparse

/-!
# `Proofs.Parse` — the transactions that codecs read

Codecs read without looking at what they read: a part of the raw transaction is put in its field as it
is, and the fields of a known call are its decoded arguments. `Parses` lists what can come out, once for
all kinds and for every registry, so that what holds of all transactions that are read is shown by cases
of it.

What is read can be shown in documents (`isShowable_of_parse`). In a sound registry it has its value in
range and inputs that calldata were decoded to (`isDecoded_of_parse`). For that it is enough that the
registry has the known types for the one call that is read (`isDecoded_of_keepsCall`).
-/

namespace Proposals.Codec

open Proposals.Abi Proposals.Outcome

variable {ctx : Context} {raw : RawTransaction} {t : Transaction}

/-- The field is a decoded argument, or a token by its currency. -/
def IsArgumentField (inputs : List Value) (field : String × Value) : Prop :=
  if field.1 = "token" then ∃ c, field.2 = .currency c else field.2 ∈ inputs

/-- **What a codec reads** from a raw transaction. -/
inductive Parses (raw : RawTransaction) : Transaction → Prop
  | payerTopUp : Parses raw (.payerTopUp raw.value)
  | transfer {target : Value} (htarget : addressOf raw.target = .ok target) :
      Parses raw (.transfer target raw.value)
  | deposit : Parses raw (.wethDeposit raw.value)
  | known {t : Transaction} {kind : TransactionKind} {call : KnownCall} {inputs : List Value}
      (hkind : t.kind? = some kind) (hcall : knownCall? kind = some call)
      (hinputs : decodeFor raw = .ok inputs) (hfields : ∀ field ∈ t.fields, IsArgumentField inputs field) :
      Parses raw t
  | unparsedPayable {target : Value} (htarget : addressOf raw.target = .ok target) :
      Parses raw (.unparsedPayableFunctionCall target raw.calldata raw.value)
  | unparsed {target : Value} (htarget : addressOf raw.target = .ok target) :
      Parses raw (.unparsedFunctionCall target raw.calldata)
  | payableCall {call : FunctionCall} (hcall : parseCall raw = .ok call) :
      Parses raw (.payableFunctionCall call raw.value)
  | call {call : FunctionCall} (hcall : parseCall raw = .ok call) : Parses raw (.functionCall call)

/-- What a codec of the common shape reads, it makes of the decoded arguments. -/
theorem exists_of_readCall {contract function : String} {use : List Value → Parsed}
    (h : readCall ctx contract function use raw = .ok (some t)) :
    ∃ inputs, matchesCall ctx contract function raw = .ok true ∧ decodeFor raw = .ok inputs ∧
      use inputs = .ok (some t) := by
  obtain ⟨matched, hmatch, h⟩ := bind_eq_ok.mp h
  cases matched with
  | false => exact absurd h (by simp)
  | true =>
    obtain ⟨inputs, hinputs, huse⟩ := bind_eq_ok.mp h
    exact ⟨inputs, hmatch, hinputs, huse⟩

theorem parses_of_parsePair {contract function : String} {make : Value → Value → Transaction}
    {kind : TransactionKind} {call : KnownCall} (hcall : knownCall? kind = some call)
    (hmake : ∀ a b, (make a b).kind? = some kind ∧ ∀ field ∈ (make a b).fields, IsArgumentField [a, b] field)
    (h : parsePair contract function make ctx raw = .ok (some t)) : Parses raw t ∧ t.kind? = some kind := by
  rw [parsePair_eq] at h
  obtain ⟨-, h⟩ := guarded_eq_some.mp h
  obtain ⟨inputs, -, hinputs, huse⟩ := exists_of_readCall h
  unfold pairOf at huse
  split at huse
  · next a b =>
    cases huse
    obtain ⟨hkind, hfields⟩ := hmake a b
    exact ⟨.known hkind hcall hinputs hfields, hkind⟩
  · exact absurd huse (by simp)

/-- **Codecs read nothing else.** -/
theorem parses_of_parseAs {kind : TransactionKind} (h : parseAs kind ctx raw = .ok (some t)) :
    Parses raw t ∧ t.kind? = some kind := by
  cases kind with
  | payerTopUp =>
    simp only [parseAs, parsePayerTopUp] at h
    split at h
    · exact absurd h (by simp)
    · split at h
      · cases h
        exact ⟨.payerTopUp, rfl⟩
      · exact absurd h (by simp)
  | transfer =>
    obtain ⟨-, h⟩ := guarded_eq_some.mp h
    obtain ⟨target, htarget, h⟩ := bind_eq_ok.mp h
    cases h
    exact ⟨.transfer htarget, rfl⟩
  | usdcTransferViaPayer =>
    exact parses_of_parsePair rfl (fun _ _ => ⟨rfl, by simp [Transaction.fields, IsArgumentField]⟩) h
  | usdcApproval =>
    exact parses_of_parsePair rfl (fun _ _ => ⟨rfl, by simp [Transaction.fields, IsArgumentField]⟩) h
  | wethDeposit =>
    obtain ⟨inputs, -, -, huse⟩ := exists_of_readCall ((parseWethDeposit_eq ctx raw).symm.trans h)
    cases huse
    exact ⟨.deposit, rfl⟩
  | wethTransfer =>
    exact parses_of_parsePair rfl (fun _ _ => ⟨rfl, by simp [Transaction.fields, IsArgumentField]⟩) h
  | wethApproval =>
    exact parses_of_parsePair rfl (fun _ _ => ⟨rfl, by simp [Transaction.fields, IsArgumentField]⟩) h
  | stream =>
    obtain ⟨-, h⟩ := guarded_eq_some.mp ((parseStream_eq ctx raw).symm.trans h)
    obtain ⟨inputs, -, hinputs, huse⟩ := exists_of_readCall h
    unfold streamOf at huse
    split at huse
    · next receiver amount token start stop nonce contract =>
      obtain ⟨c, -, rfl⟩ := Option.map_eq_some_iff.mp (Except.ok.inj huse)
      refine ⟨.known rfl rfl hinputs ?_, rfl⟩
      simp [Transaction.fields, IsArgumentField]
    · exact absurd huse (by simp)
  | treasuryNounTransfer =>
    have h := (parseTreasuryNounTransfer_eq ctx raw).symm.trans h
    split at h
    · exact absurd h (by simp)
    · obtain ⟨-, h⟩ := guarded_eq_some.mp h
      obtain ⟨inputs, -, hinputs, huse⟩ := exists_of_readCall h
      unfold nounOf at huse
      split at huse
      · split at huse
        · cases huse
          refine ⟨.known rfl rfl hinputs ?_, rfl⟩
          simp [Transaction.fields, IsArgumentField]
        · exact absurd huse (by simp)
      · exact absurd huse (by simp)
  | unparsedPayableFunctionCall =>
    obtain ⟨-, h⟩ := guarded_eq_some.mp h
    obtain ⟨target, htarget, h⟩ := bind_eq_ok.mp h
    cases h
    exact ⟨.unparsedPayable htarget, rfl⟩
  | unparsedFunctionCall =>
    obtain ⟨-, h⟩ := guarded_eq_some.mp h
    obtain ⟨target, htarget, h⟩ := bind_eq_ok.mp h
    cases h
    exact ⟨.unparsed htarget, rfl⟩
  | payableFunctionCall =>
    obtain ⟨-, h⟩ := guarded_eq_some.mp h
    obtain ⟨call, hcall, h⟩ := bind_eq_ok.mp h
    cases h
    exact ⟨.payableCall hcall, rfl⟩
  | functionCall =>
    obtain ⟨-, h⟩ := guarded_eq_some.mp h
    obtain ⟨call, hcall, h⟩ := bind_eq_ok.mp h
    cases h
    exact ⟨.call hcall, rfl⟩

/-- A known call has neither calldata nor a call of its own. -/
theorem fieldless_of_knownCall? {kind : TransactionKind} {call : KnownCall} (hkind : t.kind? = some kind)
    (hcall : knownCall? kind = some call) :
    (∀ v, t.field "calldata" ≠ .ok v) ∧ t.call? = none := by
  cases t <;> cases hkind <;> cases hcall <;> exact ⟨fun _ => nofun, rfl⟩

/-- Decoded arguments that are printed are read back. -/
theorem isLossless_of_decodeFor {inputs : List Value} (h : decodeFor raw = .ok inputs) :
    ∀ v ∈ inputs, v.IsLossless := by
  obtain ⟨call, hcall, rfl⟩ := decodeFor_eq_ok h
  exact isLossless_of_decodeCall hcall

theorem isLossless_of_addressOf {v w : Value} (h : addressOf v = .ok w) : w.IsLossless := by
  obtain ⟨⟨a, rfl, -⟩, -⟩ := addressOf_sound h
  exact Value.isLossless_text a

/-- **What is read can be shown**, in every registry. -/
theorem isShowable_of_parses (hvalue : raw.value.IsAmount) (hcalldata : ∃ s, raw.calldata = .text s)
    (h : Parses raw t) : t.IsShowable := by
  have hraw : raw.value.IsLossless := Coder.isLossless_of_isAmount hvalue
  have hdata : raw.calldata.IsLossless := by
    obtain ⟨s, hs⟩ := hcalldata
    rw [hs]
    exact Value.isLossless_text s
  cases h with
  | payerTopUp | deposit => exact ⟨⟨_, rfl⟩, fun _ => List.forall_mem_singleton.mpr hraw, nofun⟩
  | transfer htarget =>
    exact ⟨⟨_, rfl⟩, fun _ => List.forall_mem_cons.mpr
      ⟨isLossless_of_addressOf htarget, List.forall_mem_singleton.mpr hraw⟩, nofun⟩
  | known hkind hcall hinputs hfields =>
    have hnone := (fieldless_of_knownCall? hkind hcall).2
    refine ⟨⟨_, hkind⟩, fun _ field hfield => ?_, fun call hsome => ?_⟩
    · have hpart := hfields field hfield
      unfold IsArgumentField at hpart
      split
      · next hname => rwa [if_pos hname] at hpart
      · next hname =>
        rw [if_neg hname] at hpart
        exact isLossless_of_decodeFor hinputs _ hpart
    · exact absurd (hnone.symm.trans hsome) nofun
  | unparsedPayable htarget =>
    exact ⟨⟨_, rfl⟩, fun _ => List.forall_mem_cons.mpr ⟨isLossless_of_addressOf htarget,
      List.forall_mem_cons.mpr ⟨hdata, List.forall_mem_singleton.mpr hraw⟩⟩, nofun⟩
  | unparsed htarget =>
    exact ⟨⟨_, rfl⟩, fun _ => List.forall_mem_cons.mpr
      ⟨isLossless_of_addressOf htarget, List.forall_mem_singleton.mpr hdata⟩, nofun⟩
  | payableCall hcall | call hcall =>
    refine ⟨⟨_, rfl⟩, nofun, fun call heq => ?_⟩
    cases heq
    exact isDecoded_of_parseCall hcall

/-! ## What is read is decoded -/

/-- The ether of what is read is that of the raw transaction, or none. -/
theorem isAmount_nativeValue {kind : TransactionKind} (hvalue : raw.value.IsAmount)
    (h : parseAs kind ctx raw = .ok (some t)) : t.nativeValue.IsAmount := by
  obtain ⟨hparses, hkind⟩ := parses_of_parseAs h
  cases hparses with
  | payerTopUp | deposit | transfer | unparsedPayable | payableCall => exact hvalue
  | unparsed | call => exact isAmount_zero
  | known hkind' hcall hinputs hfields =>
    cases t with
    | wethDeposit value =>
      cases hkind
      obtain ⟨inputs, -, -, huse⟩ := exists_of_readCall ((parseWethDeposit_eq ctx raw).symm.trans h)
      cases huse
      exact hvalue
    | payerTopUp | transfer | unparsedPayableFunctionCall | payableFunctionCall =>
      cases hkind'
      cases hcall
    | _ => exact isAmount_zero

/-- A readable transaction that was read is decoded. -/
theorem isDecoded_of_isReadable {kind : TransactionKind} (hvalue : raw.value.IsAmount)
    (hcalldata : ∃ s, raw.calldata = .text s) (h : parseAs kind ctx raw = .ok (some t))
    (hreadable : t.IsReadable) : t.IsDecoded := by
  have hparses := (parses_of_parseAs h).1
  refine ⟨hreadable, isAmount_nativeValue hvalue h, ?_, ?_⟩
  · intro v hv
    cases hparses with
    | known hkind hcall => exact absurd hv ((fieldless_of_knownCall? hkind hcall).1 v)
    | unparsedPayable | unparsed =>
      obtain rfl := Except.ok.inj hv
      exact hcalldata
    | _ => exact absurd hv nofun
  · intro call hcall
    cases hparses with
    | known hkind hknown => exact absurd ((fieldless_of_knownCall? hkind hknown).2.symm.trans hcall) nofun
    | payableCall hcall' | call hcall' =>
      cases hcall
      exact isDecoded_of_parseCall hcall'
    | _ => exact absurd hcall nofun

/-- **What is read in a sound registry** is decoded. -/
theorem isDecoded_of_parseAs {kind : TransactionKind} (hsound : (ctx.registry.chain ctx.chain).IsSound)
    (hvalue : raw.value.IsAmount) (hcalldata : ∃ s, raw.calldata = .text s)
    (h : parseAs kind ctx raw = .ok (some t)) : t.IsDecoded :=
  isDecoded_of_isReadable hvalue hcalldata h (reads_of_parseAs hsound hvalue.isNatural h).readable

/-! ## Calls whose types the registry keeps -/

/-- All contracts of the chain have addresses in normal form. -/
def HasNormalAddresses (ctx : Context) : Prop :=
  ∀ name c, ctx.registry.lookup? ctx.chain name = some c → IsNormalAddress c.address

section KeepsCall

variable {kind : TransactionKind} {call : KnownCall}

/-- The arguments of a call with the known types fit them. -/
theorem fits_of_readCall (haddresses : HasNormalAddresses ctx) (hkeeps : KeepsCall ctx kind)
    (hcall : knownCall? kind = some call) {use : List Value → Parsed}
    (h : readCall ctx call.contract call.signature.name use raw = .ok (some t)) :
    ∃ inputs, List.Forall₂ Coder.Fits call.coders inputs ∧ use inputs = .ok (some t) := by
  obtain ⟨inputs, hmatch, hinputs, huse⟩ := exists_of_readCall h
  obtain ⟨c, s, hc, -, hs, -⟩ := matchesCall_eq_true hmatch
  obtain ⟨_, hat⟩ := exists_isAt hcall
  have htypes : s.types = call.signature.types := hkeeps call c s hcall hc hs
  obtain ⟨hcanonical, -⟩ := encodeCall_of_matchesCall hc (haddresses _ c hc) hs (htypes ▸ hat.coders)
    hmatch hinputs
  exact ⟨inputs, hcanonical.fits, huse⟩

/-- A call with a receiver and an amount has an account and an amount. -/
theorem readable_of_parsePair (haddresses : HasNormalAddresses ctx) (hkeeps : KeepsCall ctx kind)
    (hcall : knownCall? kind = some call) (hcoders : call.coders = [.address, .uint 256])
    {make : Value → Value → Transaction}
    (h : parsePair call.contract call.signature.name make ctx raw = .ok (some t)) :
    ∃ a b, t = make a b ∧ a.IsAccount ∧ b.IsAmount := by
  rw [parsePair_eq] at h
  obtain ⟨-, h⟩ := guarded_eq_some.mp h
  obtain ⟨inputs, hfits, huse⟩ := fits_of_readCall haddresses hkeeps hcall h
  rw [hcoders] at hfits
  rcases hfits with _ | ⟨ha, _ | ⟨hb, hnil⟩⟩
  cases hnil
  cases huse
  exact ⟨_, _, rfl, ha, isAmount_of_fits (Nat.le_refl _) hb⟩

/-- The arguments of a stream with the known types are those of a readable one. -/
theorem readable_of_parseStream (haddresses : HasNormalAddresses ctx) (hkeeps : KeepsCall ctx .stream)
    (h : parseStream ctx raw = .ok (some t)) : t.IsReadable := by
  rw [parseStream_eq] at h
  obtain ⟨-, h⟩ := guarded_eq_some.mp h
  obtain ⟨inputs, hfits, huse⟩ := fits_of_readCall haddresses hkeeps rfl h
  obtain ⟨receiver, amount, token, start, stop, nonce, contract, rfl, hreceiver, hamount, -, hstart, hstop,
    hnonce, hcontract⟩ := exists_of_fits_stream hfits
  obtain ⟨currency, hcurrency, rfl⟩ := Option.map_eq_some_iff.mp (Except.ok.inj huse)
  obtain ⟨c, -, hname⟩ := Option.bind_eq_some_iff.mp hcurrency
  exact ⟨hreceiver, (tokenContract?_of_currencyOfContract? hname).2, hamount, hstart, hstop, hcontract,
    hnonce⟩

/-- The arguments of the transfer of a noun with the known types are those of a readable one. -/
theorem readable_of_parseTreasuryNounTransfer (haddresses : HasNormalAddresses ctx)
    (hkeeps : KeepsCall ctx .treasuryNounTransfer)
    (h : parseTreasuryNounTransfer ctx raw = .ok (some t)) : t.IsReadable := by
  rw [parseTreasuryNounTransfer_eq] at h
  cases hexecutor : ctx.registry.lookup? ctx.chain "executor" with
  | none =>
    rw [hexecutor] at h
    cases h
  | some executor =>
    rw [hexecutor] at h
    obtain ⟨-, h⟩ := guarded_eq_some.mp h
    obtain ⟨inputs, hfits, huse⟩ := fits_of_readCall haddresses hkeeps rfl h
    obtain ⟨giver, receiver, nounId, rfl, -, hreceiver, hnounId⟩ := exists_of_fits_noun hfits
    simp only [nounOf] at huse
    split at huse
    · cases huse
      exact ⟨hreceiver, hnounId⟩
    · cases huse

/-- **What is read of a call with the known types is readable**, whatever else the registry has. -/
theorem isReadable_of_keepsCall (haddresses : HasNormalAddresses ctx) (hkeeps : KeepsCall ctx kind)
    (hvalue : raw.value.IsNatural) (h : parseAs kind ctx raw = .ok (some t)) : t.IsReadable := by
  obtain ⟨hparses, hkind⟩ := parses_of_parseAs h
  cases hparses with
  | payerTopUp | deposit => exact hvalue
  | transfer htarget | unparsedPayable htarget => exact ⟨(addressOf_sound htarget).1, hvalue⟩
  | unparsed htarget => exact (addressOf_sound htarget).1
  | payableCall hcall => exact ⟨(unparseCall_of_parseCall hcall (.inr ⟨raw.value, rfl⟩)).1, hvalue⟩
  | call hcall => exact (unparseCall_of_parseCall hcall (.inl rfl)).1
  | known hkind' hcall =>
    obtain rfl := Option.some.inj (hkind.symm.trans hkind')
    cases kind with
    | usdcTransferViaPayer | usdcApproval | wethTransfer | wethApproval =>
      obtain ⟨a, b, rfl, hreadable⟩ := readable_of_parsePair haddresses hkeeps rfl rfl h
      exact hreadable
    | wethDeposit =>
      obtain ⟨inputs, -, -, huse⟩ := exists_of_readCall ((parseWethDeposit_eq ctx raw).symm.trans h)
      cases huse
      exact hvalue
    | stream => exact readable_of_parseStream haddresses hkeeps h
    | treasuryNounTransfer => exact readable_of_parseTreasuryNounTransfer haddresses hkeeps h
    | _ => cases hcall

theorem isDecoded_of_keepsCall (haddresses : HasNormalAddresses ctx) (hkeeps : KeepsCall ctx kind)
    (hvalue : raw.value.IsAmount) (hcalldata : ∃ s, raw.calldata = .text s)
    (h : parseAs kind ctx raw = .ok (some t)) : t.IsDecoded :=
  isDecoded_of_isReadable hvalue hcalldata h
    (isReadable_of_keepsCall haddresses hkeeps hvalue.isNatural h)

end KeepsCall

end Proposals.Codec

namespace Proposals.Engine

open Proposals.Codec Proposals.Outcome

variable {e : Engine} {chain : Int}

/-- Each transaction that is read, some codec read from one of the raw transactions. -/
theorem exists_parseAs_of_parse {raws : List RawTransaction} {ts : List Transaction} {log : Log}
    (h : e.parse chain raws = .ok (ts, log)) :
    ∀ t ∈ ts, ∃ raw ∈ raws, ∃ kind, parseAs kind (e.context chain) raw = .ok (some t) := by
  induction raws generalizing ts log with
  | nil => cases h; exact fun t ht => absurd ht (by simp)
  | cons raw raws ih =>
    obtain ⟨t, us, rfl, ⟨line, hone⟩, lines, hrest⟩ := parse_cons_eq_ok h
    obtain ⟨⟨kind, u⟩, hfound, hone⟩ := bind_eq_ok.mp hone
    cases hone
    refine List.forall_mem_cons.mpr
      ⟨⟨raw, List.mem_cons_self, kind, (firstParsed_sound hfound).2⟩, fun v hv => ?_⟩
    obtain ⟨raw', hraw', hkind⟩ := ih hrest v hv
    exact ⟨raw', List.mem_cons_of_mem _ hraw', hkind⟩

/-- **What is read from a proposal can be shown**. -/
theorem isShowable_of_parse {w : Wire} {raws : List RawTransaction} (hraws : fromWire w = .ok raws)
    {ts : List Transaction} {log : Log} (h : e.parse chain raws = .ok (ts, log)) :
    ∀ t ∈ ts, t.IsShowable := by
  intro t ht
  obtain ⟨raw, hraw, kind, hparse⟩ := exists_parseAs_of_parse h t ht
  exact isShowable_of_parses (isAmount_of_fromWire hraws hraw) (isText_of_fromWire hraws hraw)
    (parses_of_parseAs hparse).1

/-- **What is read from proposals in a sound registry** is decoded. -/
theorem isDecoded_of_parse (hsound : (e.registry.chain chain).IsSound) {raws : List RawTransaction}
    (hraws : ∀ raw ∈ raws, raw.IsProposed) {ts : List Transaction} {log : Log}
    (h : e.parse chain raws = .ok (ts, log)) : ∀ t ∈ ts, t.IsDecoded := by
  intro t ht
  obtain ⟨raw, hraw, kind, hparse⟩ := exists_parseAs_of_parse h t ht
  obtain ⟨w, all, hall, hmem⟩ := hraws raw hraw
  exact isDecoded_of_parseAs hsound (isAmount_of_fromWire hall hmem) (isText_of_fromWire hall hmem) hparse

end Proposals.Engine
