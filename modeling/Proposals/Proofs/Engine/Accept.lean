import Proposals.Action.Document
import Proposals.Proofs.Engine.Authoring
import Proposals.Proofs.Valid

/-!
# `Proofs.Engine.Accept` — what is authored can be submitted

No codec ends with a fault on a valid raw transaction: a call that a codec matches has calldata that can
be decoded, and their arguments are as many as the codec takes apart (`exists_parseAs`). One of the
general codecs reads the transaction if no other does, so the engine reads every valid proposal, on
any chain (`exists_parse`).

Payments check their addresses and amounts before they are written, and bundles do not. So a proposal
that is authored is valid if the transactions of its bundles are in order (`accepts_encode`), and need
not be if they are not (`not_accepts_encode`).
-/

namespace Proposals.Codec

open Proposals.Abi Proposals.Outcome

variable {chain : Int} {raw : RawTransaction} {kind : TransactionKind} {call : KnownCall}

/-! ## Calls that a codec looks for -/

theorem exists_addressOf {v : Value} (h : v.IsAddressText) : ∃ w, addressOf v = .ok w := by
  obtain ⟨s, a, rfl, ha⟩ := h
  refine ⟨.text a, ?_⟩
  simp only [addressOf, ha]

theorem exists_signaturesMatch (h : raw.IsValid) {r : Value} {s : Signature}
    (hr : signatureOf r = .ok s) : ∃ matched, signaturesMatch raw.signature r = .ok matched := by
  rcases h.signature with hempty | ⟨decoded, hdecoded⟩
  · rw [hempty]
    exact ⟨false, rfl⟩
  · obtain ⟨-, -, hs, -⟩ := decodeCall_sound hdecoded
    exact ⟨_, signaturesMatch_of_ok (normalizeSignature_eq_ok hs) (normalizeSignature_eq_ok hr)⟩

theorem exists_matchesCall (chain : Int) (h : raw.IsValid) (hcall : knownCall? kind = some call) :
    ∃ matched, matchesCall (builtInContext chain) call.contract call.signature.name raw =
      .ok matched := by
  unfold matchesCall
  cases hc : (builtInContext chain).registry.lookup? (builtInContext chain).chain call.contract with
  | none => exact ⟨false, rfl⟩
  | some c =>
    obtain rfl := eq_mainnet_of_lookup? hc
    have hat : IsAt call c := isAt_of_resolve hcall (resolve_of_lookup? hc)
    cases hsame : sameAddress raw.target (.text c.address) with
    | false => exact ⟨false, by simp only [hsame]; rfl⟩
    | true =>
      obtain ⟨matched, hmatched⟩ := exists_signaturesMatch h hat.signatureOf_eq
      refine ⟨matched, ?_⟩
      simp only [hsame, hat.signed, ok_bind]
      exact hmatched

/-- A call that is matched has arguments that fit its types. -/
theorem exists_decodeFor (h : raw.IsValid) (hcall : knownCall? kind = some call)
    (hmatch : matchesCall (builtInContext chain) call.contract call.signature.name raw = .ok true) :
    ∃ inputs, decodeFor raw = .ok inputs ∧ List.Forall₂ Coder.Fits call.coders inputs := by
  obtain ⟨_, _, -, -, -, hsame⟩ := matchesCall_eq_true hmatch
  obtain ⟨text, htext, -⟩ := signaturesMatch_eq_true_iff.mp hsame
  rcases h.signature with hempty | ⟨decoded, hdecoded⟩
  · rw [hempty, normalizeSignature, signatureOf_empty] at htext
    exact absurd htext (by simp [Except.map])
  · have hinputs := decodeFor_of_decodeCall hdecoded
    obtain ⟨c, hat⟩ := exists_isAt hcall
    obtain ⟨-, -, -, -, -, hfits⟩ := call_sound (isSound_builtInContext chain)
      (signatureAmong_knownAbi hcall _) hat.coders hmatch hinputs
    exact ⟨decoded.inputs, hinputs, hfits⟩

theorem exists_readCall (chain : Int) (kind : TransactionKind) (h : raw.IsValid) (hcall : knownCall? kind = some call)
    {use : List Value → Parsed}
    (huse : ∀ inputs, List.Forall₂ Coder.Fits call.coders inputs → ∃ o, use inputs = .ok o) :
    ∃ o, readCall (builtInContext chain) call.contract call.signature.name use raw = .ok o := by
  obtain ⟨matched, hmatch⟩ := exists_matchesCall chain h hcall
  unfold readCall
  rw [hmatch, ok_bind]
  cases matched with
  | false => exact ⟨none, rfl⟩
  | true =>
    obtain ⟨inputs, hinputs, hfits⟩ := exists_decodeFor h hcall hmatch
    obtain ⟨o, ho⟩ := huse inputs hfits
    refine ⟨o, ?_⟩
    show decodeFor raw >>= use = .ok o
    rw [hinputs, ok_bind, ho]

/-! ## Every codec -/

/-- A codec with a guard has a result if it has one behind the guard. -/
theorem exists_guarded {skip : Bool} {p : Parsed} (h : skip = false → ∃ o, p = .ok o) :
    ∃ o, (if skip then .ok none else p) = .ok o := by
  cases hskip : skip with
  | true => exact ⟨none, rfl⟩
  | false => exact h hskip

theorem exists_parsePair (kind : TransactionKind) {contract function : String}
    (make : Value → Value → Transaction) (hcall : knownCall? kind =
      some ⟨contract, ⟨function, ["address", "uint256"]⟩, [.address, .uint 256]⟩) (h : raw.IsValid) :
    ∃ o, parsePair contract function make (builtInContext chain) raw = .ok o := by
  rw [parsePair_eq]
  refine exists_guarded fun _ => exists_readCall chain kind h hcall fun inputs hfits => ?_
  rcases hfits with - | ⟨-, - | ⟨-, hnil⟩⟩
  cases hnil
  exact ⟨_, rfl⟩

theorem exists_parseStream (h : raw.IsValid) :
    ∃ o, parseStream (builtInContext chain) raw = .ok o := by
  rw [parseStream_eq]
  refine exists_guarded fun _ => exists_readCall chain .stream h rfl fun inputs hfits => ?_
  obtain ⟨_, _, _, _, _, _, _, rfl, -⟩ := exists_of_fits_stream hfits
  exact ⟨_, rfl⟩

theorem exists_parseTreasuryNounTransfer (h : raw.IsValid) :
    ∃ o, parseTreasuryNounTransfer (builtInContext chain) raw = .ok o := by
  rw [parseTreasuryNounTransfer_eq]
  split
  · exact ⟨none, rfl⟩
  · refine exists_guarded fun _ =>
      exists_readCall chain .treasuryNounTransfer h rfl fun inputs hfits => ?_
    obtain ⟨giver, _, _, rfl, -⟩ := exists_of_fits_noun hfits
    simp only [nounOf]
    split <;> exact ⟨_, rfl⟩

theorem exists_parseCall (h : raw.IsValid) (hsigned : raw.signature.isText "" = false) :
    ∃ call, parseCall raw = .ok call := by
  obtain ⟨target, htarget⟩ := exists_addressOf h.target
  rcases h.signature with hempty | ⟨decoded, hdecoded⟩
  · rw [isText_eq_true.mpr hempty] at hsigned
    exact absurd hsigned (by simp)
  · unfold parseCall
    simp only [hdecoded, htarget]
    exact ⟨_, rfl⟩

/-- **No codec ends with a fault** on a valid raw transaction. -/
theorem exists_parseAs (chain : Int) (h : raw.IsValid) (kind : TransactionKind) :
    ∃ o, parseAs kind (builtInContext chain) raw = .ok o := by
  obtain ⟨target, htarget⟩ := exists_addressOf h.target
  cases kind with
  | payerTopUp =>
    show ∃ o, parsePayerTopUp _ raw = .ok o
    unfold parsePayerTopUp
    split
    · exact ⟨none, rfl⟩
    · split <;> exact ⟨_, rfl⟩
  | transfer => exact exists_guarded fun _ => ⟨_, bind_eq_ok.mpr ⟨target, htarget, rfl⟩⟩
  | usdcTransferViaPayer => exact exists_parsePair .usdcTransferViaPayer _ rfl h
  | usdcApproval => exact exists_parsePair .usdcApproval _ rfl h
  | wethDeposit =>
    show ∃ o, parseWethDeposit _ raw = .ok o
    rw [parseWethDeposit_eq]
    exact exists_readCall chain .wethDeposit h rfl fun _ _ => ⟨_, rfl⟩
  | wethTransfer => exact exists_parsePair .wethTransfer _ rfl h
  | wethApproval => exact exists_parsePair .wethApproval _ rfl h
  | stream => exact exists_parseStream h
  | treasuryNounTransfer => exact exists_parseTreasuryNounTransfer h
  | unparsedPayableFunctionCall =>
    exact exists_guarded fun _ => ⟨_, bind_eq_ok.mpr ⟨target, htarget, rfl⟩⟩
  | unparsedFunctionCall =>
    exact exists_guarded fun _ => ⟨_, bind_eq_ok.mpr ⟨target, htarget, rfl⟩⟩
  | payableFunctionCall =>
    refine exists_guarded fun hskip => ?_
    obtain ⟨call, hcall⟩ := exists_parseCall h (Bool.or_eq_false_iff.mp hskip).1
    exact ⟨_, bind_eq_ok.mpr ⟨call, hcall, rfl⟩⟩
  | functionCall =>
    refine exists_guarded fun hskip => ?_
    obtain ⟨call, hcall⟩ := exists_parseCall h (Bool.or_eq_false_iff.mp hskip).1
    exact ⟨_, bind_eq_ok.mpr ⟨call, hcall, rfl⟩⟩

/-- One of the codecs that look for no contract reads a valid raw transaction. -/
theorem exists_parseAs_some (chain : Int) (h : raw.IsValid) :
    ∃ kind t, parseAs kind (builtInContext chain) raw = .ok (some t) := by
  obtain ⟨target, htarget⟩ := exists_addressOf h.target
  cases hsigned : raw.signature.isText "" with
  | true =>
    cases hcalldata : raw.calldata.isText "0x" with
    | true =>
      have hnative : (!raw.isNativeTransfer) = false := by
        rw [RawTransaction.isNativeTransfer, hsigned, hcalldata]
        rfl
      exact ⟨.transfer, _, guarded_eq_some.mpr ⟨hnative, bind_eq_ok.mpr ⟨target, htarget, rfl⟩⟩⟩
    | false =>
      have hunparsed : (!isUnparsed raw) = false := by
        rw [isUnparsed, hsigned, hcalldata]
        rfl
      cases hzero : raw.value.isZero with
      | true =>
        exact ⟨.unparsedFunctionCall, _, guarded_eq_some.mpr
          ⟨by rw [hunparsed, hzero]; rfl, bind_eq_ok.mpr ⟨target, htarget, rfl⟩⟩⟩
      | false =>
        exact ⟨.unparsedPayableFunctionCall, _, guarded_eq_some.mpr
          ⟨by rw [hunparsed, hzero]; rfl, bind_eq_ok.mpr ⟨target, htarget, rfl⟩⟩⟩
  | false =>
    obtain ⟨call, hcall⟩ := exists_parseCall h hsigned
    cases hzero : raw.value.isZero with
    | true =>
      exact ⟨.functionCall, _, guarded_eq_some.mpr
        ⟨by rw [hsigned, hzero]; rfl, bind_eq_ok.mpr ⟨call, hcall, rfl⟩⟩⟩
    | false =>
      exact ⟨.payableFunctionCall, _, guarded_eq_some.mpr
        ⟨by rw [hsigned, hzero]; rfl, bind_eq_ok.mpr ⟨call, hcall, rfl⟩⟩⟩

end Proposals.Codec

namespace Proposals.Engine

open Proposals.Abi Proposals.Codec Proposals.Handler Proposals.Outcome

variable {chain : Int}

/-! ## Valid proposals are read -/

theorem exists_firstParsed {ctx : Context} {raw : RawTransaction} {codecs : List TransactionKind}
    (hall : ∀ kind, ∃ o, parseAs kind ctx raw = .ok o)
    (hsome : ∃ kind ∈ codecs, ∃ t, parseAs kind ctx raw = .ok (some t)) :
    ∃ kind t, firstParsed ctx raw codecs = .ok (kind, t) := by
  induction codecs with
  | nil => exact absurd hsome (by simp)
  | cons first codecs ih =>
    obtain ⟨o, ho⟩ := hall first
    unfold firstParsed
    rw [ho, ok_bind]
    cases o with
    | some t => exact ⟨first, t, rfl⟩
    | none =>
      obtain ⟨kind, hkind, t, ht⟩ := hsome
      rcases List.mem_cons.mp hkind with rfl | hkind
      · exact absurd (ho.symm.trans ht) (by simp)
      · exact ih ⟨kind, hkind, t, ht⟩

theorem exists_parseOne (chain : Int) {raw : RawTransaction} (h : raw.IsValid) :
    ∃ t log, (standard Registry.builtInRegistry).parseOne chain raw = .ok (t, log) := by
  obtain ⟨kind, t, ht⟩ := exists_parseAs_some chain h
  have hmem : kind ∈ defaultCodecs := kind.mem_all
  obtain ⟨kind, t, hfirst⟩ := exists_firstParsed (exists_parseAs chain h) ⟨kind, hmem, t, ht⟩
  exact ⟨t, _, bind_eq_ok.mpr ⟨(kind, t), hfirst, rfl⟩⟩

/-- **Valid proposals are read**, on any chain. -/
theorem exists_parse (chain : Int) {raws : List RawTransaction} (h : ∀ raw ∈ raws, raw.IsValid) :
    ∃ ts log, (standard Registry.builtInRegistry).parse chain raws = .ok (ts, log) := by
  induction raws with
  | nil => exact ⟨[], [], rfl⟩
  | cons raw raws ih =>
    obtain ⟨hraw, hraws⟩ := List.forall_mem_cons.mp h
    obtain ⟨t, line, ht⟩ := exists_parseOne chain hraw
    obtain ⟨ts, lines, hts⟩ := ih hraws
    refine ⟨t :: ts, line ++ lines, ?_⟩
    rw [parse, ht, ok_bind, hts]
    rfl

/-! ## What actions resolve to -/

theorem isAddressText_of_isAccount {v : Value} (h : v.IsAccount) : v.IsAddressText := by
  obtain ⟨a, rfl, ha⟩ := h
  exact ha.isAddressText

/-- Payments and transfers of nouns are in order. -/
theorem isChecked_of_isPrepared {t : Transaction} (h : IsPrepared t) : t.IsChecked := by
  cases t with
  | payerTopUp value => exact h
  | transfer target value => exact ⟨isAddressText_of_isAccount h.1, h.2⟩
  | wethDeposit value => exact h
  | usdcTransferViaPayer | wethTransfer | stream | treasuryNounTransfer => trivial
  | _ => exact absurd h (by simp [IsPrepared])

/-- All transactions of actions are in order if those in bundles are. -/
theorem isChecked_of_resolveAll {actions : List Action} {ts : List Transaction}
    (hbundled : ∀ t, IsBundled t actions → t.IsChecked)
    (h : (standard Registry.builtInRegistry).resolveAll actions = .ok ts) :
    ∀ t ∈ ts, t.IsChecked := by
  induction actions generalizing ts with
  | nil => cases h; exact fun t ht => absurd ht (by simp)
  | cons a actions ih =>
    obtain ⟨first, hfirst, h⟩ := bind_eq_ok.mp h
    obtain ⟨others, hothers, h⟩ := bind_eq_ok.mp h
    cases h
    obtain ⟨kind, hkind, hresolve⟩ := resolveOne_eq_ok hfirst
    have hrest := ih (fun t ⟨bundle, hmem, ht⟩ => hbundled t ⟨bundle, List.mem_cons_of_mem _ hmem, ht⟩)
      hothers
    intro t ht
    rcases List.mem_append.mp ht with ht | ht
    · by_cases hcustom : kind = .customTransaction
      · -- a bundle resolves to its own transactions
        subst hcustom
        cases a with
        | customTransaction bundle =>
          cases hresolve
          exact hbundled t ⟨_, List.mem_cons_self, ht⟩
        | _ => exact absurd hkind (by simp [Action.kind?])
      · exact isChecked_of_isPrepared ((standsFor_of_resolveAs hkind hcustom hresolve).prepared t ht)
    · exact hrest t ht

/-! ## Authored proposals -/

/-- **What is authored is accepted**, on any chain, if the transactions in bundles are in order: the raw
    transactions come back from the lists of the proposal, each of them is valid, and all of them are
    read. Calldata are texts, whose lengths are bounded by the number that holds them. -/
theorem accepts_encode {actions : List Action} {raws : List RawTransaction}
    (hbundled : ∀ t, IsBundled t actions → t.IsChecked)
    (hshort : ∀ raw ∈ raws, ∀ c, raw.calldata = .text c → c.length < maxLength)
    (h : (standard Registry.builtInRegistry).encode chain actions = .ok raws) :
    fromWire (toWire raws) = .ok raws ∧ (∀ raw ∈ raws, raw.IsValid) ∧
      ∃ ts log, (standard Registry.builtInRegistry).parse chain raws = .ok (ts, log) := by
  obtain ⟨ts, hts, hraws⟩ := bind_eq_ok.mp h
  have hvalid : ∀ raw ∈ raws, raw.IsValid := by
    intro raw hraw
    obtain ⟨t, ht, hwritten⟩ := exists_of_mem_mapM hraws hraw
    exact (writes_of_unparseOne hwritten).isValid (isChecked_of_resolveAll hbundled hts t ht)
      (hshort raw hraw)
  exact ⟨fromWire_toWire hvalid, hvalid, exists_parse chain hvalid⟩

/-- A payment, and a bundle of a top-up and a call. -/
def orderlyDocuments : List Value := [
  .dict [("type", .text "one-time-payment"), ("currency", .text "eth"), ("amount", .text "1.5"),
    ("target", .text "0x00000000000000000000000000000000000000Aa")],
  .dict [("type", .text "custom-transaction"), ("transactions", .list [
    .dict [("type", .text "payer-top-up"), ("value", .text "7")],
    .dict [("type", .text "function-call"),
      ("target", .text "0x00000000000000000000000000000000000000bB"), ("function_name", .text "mint"),
      ("function_input_types", .list [.text "uint256"]), ("function_inputs", .list [.text "5"])]])]]

/-- The bundled call. -/
def mintCall : FunctionCall :=
  ⟨.text "0x00000000000000000000000000000000000000bB", .text "mint", .list [.int 5],
    .list [.text "uint256"]⟩

/-- The actions of the documents. -/
def orderlyActions : List Action := [
  .oneTimePayment (.text "0x00000000000000000000000000000000000000Aa") (.currency .eth) (.text "1.5"),
  .customTransaction [.payerTopUp (.int 7), .functionCall mintCall]]

/-- What is written for them. -/
def orderlyRaws : List RawTransaction := [
  ⟨.text "0x00000000000000000000000000000000000000aa", .text "", .text "0x", .int 1500000000000000000⟩,
  ⟨.text tokenBuyer, .text "", .text "0x", .int 7⟩,
  ⟨mintCall.target, .text "mint(uint256)",
    .text "0x0000000000000000000000000000000000000000000000000000000000000005", .int 0⟩]

theorem isChecked_mintCall : mintCall.IsChecked := by
  refine ⟨⟨_, _, rfl, rfl⟩, ⟨"mint", rfl, rfl⟩, fun types coders htypes hcoders => ?_⟩
  obtain rfl : types = ["uint256"] :=
    List.map_injective_iff.mpr (fun _ _ h => Value.text.inj h) (Except.ok.inj htypes).symm
  have huint : HasCoders ["uint256"] [.uint 256] := ⟨_, rfl, rfl⟩
  rw [hcoders.unique huint]
  exact haveRoom_of_isWord (by simp [Coder.IsWord])

set_option maxRecDepth 20000 in
/-- The payment and the bundle are accepted. -/
theorem accepts_encode_orderly :
    ∃ actions raws, orderlyDocuments.mapM Action.ofDocument = .ok actions ∧
      (standard Registry.builtInRegistry).encode 1 actions = .ok raws ∧
      fromWire (toWire raws) = .ok raws ∧ (∀ raw ∈ raws, raw.IsValid) ∧
      ∃ ts log, (standard Registry.builtInRegistry).parse 1 raws = .ok (ts, log) := by
  have hactions : orderlyDocuments.mapM Action.ofDocument = .ok orderlyActions := rfl
  have hbundled : ∀ t, IsBundled t orderlyActions → t.IsChecked := by
    rintro t ⟨bundle, hbundle, ht⟩
    obtain rfl : bundle = [.payerTopUp (.int 7), .functionCall mintCall] := by
      simpa [orderlyActions] using hbundle
    rcases List.mem_pair.mp ht with rfl | rfl
    · exact ⟨7, rfl, by decide⟩
    · exact isChecked_mintCall
  have hraws : (standard Registry.builtInRegistry).encode 1 orderlyActions = .ok orderlyRaws := rfl
  have hshort : ∀ raw ∈ orderlyRaws, ∀ c, raw.calldata = .text c → c.length < maxLength := by
    simp only [orderlyRaws, List.forall_mem_cons]
    exact ⟨by rintro c ⟨⟩; decide, by rintro c ⟨⟩; decide, by rintro c ⟨⟩; decide,
      List.forall_mem_nil _⟩
  exact ⟨orderlyActions, orderlyRaws, hactions, hraws, accepts_encode hbundled hshort hraws⟩

/-- A bundle of a transfer to no address. -/
def unaddressedDocument : Value :=
  .dict [("type", .text "custom-transaction"), ("transactions", .list [
    .dict [("type", .text "transfer"), ("target", .text "nowhere"), ("value", .text "1")]])]

/-- **What is authored need not be accepted**: the target of a bundled transfer is written as it is, and
    cannot be read. -/
theorem not_accepts_encode :
    ¬ ∀ (documents : List Value) (actions : List Action) (chain : Int) (raws : List RawTransaction),
      documents.mapM Action.ofDocument = .ok actions →
      (standard Registry.builtInRegistry).encode chain actions = .ok raws →
      fromWire (toWire raws) = .ok raws ∧
        ∃ ts log, (standard Registry.builtInRegistry).parse chain raws = .ok (ts, log) := by
  intro hall
  have hactions : [unaddressedDocument].mapM Action.ofDocument =
    .ok [.customTransaction [.transfer (.text "nowhere") (.int 1)]] := rfl
  obtain ⟨-, ts, log, hread⟩ := hall _ _ 1 _ hactions rfl
  exact absurd hread nofun

/-- A top-up by less than nothing is written too, and cannot be read from the lists. -/
example : ∃ raws, mainnetEngine.encode 1 [.customTransaction [.payerTopUp (.int (-1))]] = .ok raws ∧
    fromWire (toWire raws) = .error (.malformed (.valueNotNumber 0)) := ⟨_, rfl, rfl⟩

end Proposals.Engine
