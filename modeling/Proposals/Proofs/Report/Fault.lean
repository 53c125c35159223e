import Proposals.CommandLine
import Proposals.Proofs.Engine.Total
import Proposals.Proofs.Report

/-!
# `Proofs.Report.Fault` — how decoding can fail

Signatures that are no signatures, registrations, files and settings have faults of their own. None of
them comes out of decoding a proposal, whatever the registry: at each place where one could arise, it is
either impossible or becomes a fault of the transaction or of the contract. What does come out is a fault
that everyone who asks for decoding reports, or one of unchecked data (`Fault.IsShared`,
`Report.within_ofWire`).
-/

namespace Proposals

open Proposals.Outcome

/-! ## Faults of decoding -/

/-- The fault is one of unchecked data, or one that both the service and the command line report. -/
def Fault.IsShared : Fault → Prop
  | .abi _ | .registration _ | .file _ | .settings => False
  | _ => True

/-- Shared faults that are not about data are reported by both. -/
theorem Fault.IsShared.cases {f : Fault} (h : f.IsShared) :
    (∃ cause, f = .data cause) ∨ CommandLine.isReported f = true ∧ f.isBadValue = true := by
  cases f with
  | data cause => exact .inl ⟨cause, rfl⟩
  | abi | registration | file | settings => exact h.elim
  | _ => exact .inr ⟨rfl, rfl⟩

/-! ### Reading -/

section Reading

open Proposals.Abi Proposals.Codec

theorem within_readValue (index : Nat) (v : Value) : Within Fault.IsShared (readValue index v) := by
  unfold readValue
  refine within_ite (fun _ => within_error.mpr trivial) fun _ => ?_
  refine within_ite (fun _ => within_error.mpr trivial) fun _ => ?_
  split
  · exact within_error.mpr trivial
  · exact within_ite (fun _ => within_error.mpr trivial) fun _ => within_ok _ _

theorem within_checkCalldata (index : Nat) (v : Value) : Within Fault.IsShared (checkCalldata index v) := by
  unfold checkCalldata
  split
  · exact within_ite (fun _ => within_ok _ _) fun _ => within_error.mpr trivial
  · exact within_error.mpr trivial

theorem within_fromLists (index : Nat) (targets values signatures calldatas : List Value) :
    Within Fault.IsShared (fromLists index targets values signatures calldatas) := by
  induction targets generalizing index values signatures calldatas with
  | nil => exact within_ok _ _
  | cons target targets ih =>
    unfold fromLists
    split
    · next heq =>
      cases heq
      exact (within_readValue _ _).bind fun _ _ => (within_checkCalldata _ _).bind fun _ _ =>
        (ih _ _ _ _).bind fun _ _ => within_ok _ _
    · exact within_ok _ _

theorem within_fromWire (w : Wire) : Within Fault.IsShared (fromWire w) := by
  unfold fromWire
  exact within_ite (fun _ => within_fromLists _ _ _ _ _) fun _ => within_error.mpr trivial

theorem within_signatureOf_isShared (v : Value) :
    Within (fun f => (∃ cause, f = .abi cause) ∨ f.IsShared) (signatureOf v) := by
  cases v with
  | text s =>
    refine (within_parseSignature s).mono fun f hf => hf.imp_right ?_
    rintro ⟨rfl, -⟩
    trivial
  | _ => exact within_error.mpr (.inl ⟨_, rfl⟩)

theorem within_signatureAmong (contract : String) (function : Value) (abi : List Value) :
    Within Fault.IsShared (Contract.signatureAmong contract function abi) := by
  induction abi with
  | nil => exact within_error.mpr trivial
  | cons entry abi ih =>
    unfold Contract.signatureAmong
    split
    · exact within_error.mpr trivial
    · next fault hnot hfault =>
      rcases within_signatureOf_isShared entry fault hfault with ⟨cause, rfl⟩ | hshared
      · exact absurd rfl (hnot cause)
      · exact within_error.mpr hshared
    · exact within_ite (fun _ => within_ok _ _) fun _ => ih

theorem within_signaturesMatch_isShared (left right : Value) :
    Within Fault.IsShared (signaturesMatch left right) := by
  have hnormal : ∀ {v : Value} {fault : Fault}, normalizeSignature v = .error fault →
      (∀ cause, fault = .abi cause → False) → fault.IsShared := by
    intro v fault hfault hnot
    rcases (within_signatureOf_isShared v).map _ fault hfault with ⟨cause, rfl⟩ | hshared
    · exact (hnot cause rfl).elim
    · exact hshared
  unfold signaturesMatch
  split
  · exact within_ok _ _
  · next fault hnot hfault => exact within_error.mpr (hnormal hfault hnot)
  · split
    · exact within_ok _ _
    · next fault hnot hfault => exact within_error.mpr (hnormal hfault hnot)
    · exact within_ok _ _

/-- Whatever the registry, codecs end with shared faults only. -/
theorem isReadWithin_isShared (ctx : Context) (raw : RawTransaction) :
    IsReadWithin Fault.IsShared ctx raw where
  malformed _ := trivial
  decoded := (within_decodeCall _ _).mono fun f hf => hf.imp_right (by rintro ⟨cause, rfl, -⟩; trivial)
  matched _ := by
    unfold matchesCall
    split
    · exact within_ok _ _
    · exact within_ite (fun _ => within_ok _ _) fun _ =>
        (within_signatureAmong _ _ _).bind fun _ _ => within_signaturesMatch_isShared _ _
  fits _ _ _ := .inr trivial

theorem within_parse (registry : Registry) (chain : Int) (raws : List RawTransaction) :
    Within Fault.IsShared ((Engine.standard registry).parse chain raws) := by
  induction raws with
  | nil => exact within_ok _ _
  | cons raw raws ih =>
    unfold Engine.parse
    exact (Engine.within_parseOne (isReadWithin_isShared _ raw)).bind fun _ _ =>
      ih.bind fun _ _ => within_ok _ _

end Reading

/-! ### Building and describing -/

section Building

open Proposals.Amount Proposals.Date Proposals.Handler

theorem within_kind (t : Transaction) : Within Fault.IsShared t.kind := by
  unfold Transaction.kind
  split
  · exact within_ok _ _
  · exact within_error.mpr trivial

theorem within_formatBinary (decimals : Nat) (scale x : Number.Binary) :
    Within Fault.IsShared (formatBinary decimals scale x) := by
  unfold formatBinary
  split
  · exact within_error.mpr trivial
  · exact within_error.mpr trivial
  · exact within_error.mpr trivial
  · exact within_ite (fun _ => within_ok _ _) fun _ => within_ok _ _

theorem within_formatDecimal (decimals : Nat) (d : Number.Decimal) :
    Within Fault.IsShared (formatDecimal decimals d) := by
  unfold formatDecimal
  split
  · refine within_ite (fun _ => within_error.mpr trivial) fun _ => ?_
    refine within_ite (fun _ => within_error.mpr trivial) fun _ => ?_
    exact within_ite (fun _ => within_ok _ _) fun _ => within_ok _ _
  · exact within_error.mpr trivial
  · exact within_error.mpr trivial

theorem within_formatUnits (units : Value) (decimals : Nat) :
    Within Fault.IsShared (formatUnits units decimals) := by
  unfold formatUnits
  split
  · exact within_ok _ _
  · exact within_error.mpr trivial
  · exact within_ok _ _
  · exact (within_formatBinary _ _ _).map _
  · exact (within_formatDecimal _ _).map _
  · exact within_error.mpr trivial

theorem within_dateText (timestamp : Value) : Within Fault.IsShared (dateText timestamp) := by
  have hseconds : Within Fault.IsShared (secondsOf timestamp) := by
    unfold secondsOf
    split <;> first | exact within_ok _ _ | exact within_error.mpr trivial
  refine hseconds.bind fun seconds _ => ?_
  split
  · exact within_ite (fun _ => within_ok _ _) fun _ => within_ok _ _
  · exact within_ok _ _

/-! #### Actions from a pool -/

theorem within_splitFirst {test : Transaction → Outcome Bool} (htest : ∀ t, Within Fault.IsShared (test t))
    (pool : List Transaction) : Within Fault.IsShared (splitFirst test pool) := by
  induction pool with
  | nil => exact within_ok _ _
  | cons t pool ih =>
    exact (htest t).bind fun _ _ => within_ite (fun _ => within_ok _ _) fun _ =>
      ih.bind fun _ _ => within_ok _ _

theorem within_takeFirst (kind : TransactionKind) (pool : List Transaction) :
    Within Fault.IsShared (takeFirst kind pool) :=
  (within_splitFirst (fun t => (within_kind t).bind fun _ _ => within_ok _ _) pool).bind
    fun _ _ => within_ok _ _

theorem within_amountIn (c : Currency) (units : Value) : Within Fault.IsShared (amountIn c units) :=
  (within_formatUnits _ _).map _

theorem within_takeFunding (s : Stream) (after : List Transaction) :
    Within Fault.IsShared (takeFunding s after) := by
  have htest : ∀ {use : Transaction → Outcome Bool}, (∀ t, Within Fault.IsShared (use t)) →
      ∀ t, Within Fault.IsShared (t.kind >>= fun _ => use t) :=
    fun huse t => (within_kind t).bind fun _ _ => huse t
  unfold takeFunding
  split
  · refine (within_splitFirst (htest fun t => ?_) _).bind fun _ _ => within_ok _ _
    split <;> exact within_ok _ _
  · refine (within_splitFirst (htest fun t => ?_) _).bind fun _ _ => ?_
    · split <;> exact within_ok _ _
    · split
      · exact within_ok _ _
      · refine (within_splitFirst (htest fun t => ?_) _).bind fun _ _ => within_ok _ _
        split <;> exact within_ok _ _
  · exact within_ok _ _

theorem within_buildStreamingPayment (pool : List Transaction) :
    Within Fault.IsShared (buildStreamingPayment pool) := by
  induction pool with
  | nil => exact within_ok _ _
  | cons t pool ih =>
    -- where the transaction is no funded stream, the others are looked at
    have hothers : Within Fault.IsShared (buildStreamingPayment pool >>= fun found =>
        pure (found.map fun built => (built.1, t :: built.2))) := ih.bind fun _ _ => within_ok _ _
    unfold buildStreamingPayment
    refine (within_kind t).bind fun _ _ => ?_
    dsimp only
    split
    · refine (within_takeFunding _ _).bind fun taken _ => ?_
      split
      · exact ((within_amountIn _ _).bind fun _ _ => within_ok _ _).bind fun _ _ => within_ok _ _
      · exact hothers
    · exact hothers

theorem within_buildAs (kind : ActionKind) (pool : List Transaction) :
    Within Fault.IsShared (buildAs kind pool) := by
  cases kind with
  | oneTimePayment =>
    refine (within_takeFirst _ _).bind fun _ _ => ?_
    split
    · exact (within_amountIn _ _).bind fun _ _ => within_ok _ _
    · refine (within_takeFirst _ _).bind fun _ _ => ?_
      split
      · exact (within_amountIn _ _).bind fun _ _ => within_ok _ _
      · exact within_ok _ _
  | streamingPayment => exact within_buildStreamingPayment pool
  | payerTopUp =>
    refine (within_takeFirst _ _).bind fun _ _ => ?_
    split
    · exact (within_amountIn _ _).bind fun _ _ => within_ok _ _
    · exact within_ok _ _
  | treasuryNounTransfer =>
    refine (within_takeFirst _ _).bind fun _ _ => ?_
    split <;> exact within_ok _ _
  | customTransaction => exact within_ok _ _

theorem within_firstBuilt (pool : List Transaction) (handlers : List ActionKind) :
    Within Fault.IsShared (Engine.firstBuilt pool handlers) := by
  induction handlers with
  | nil => exact within_ok _ _
  | cons first handlers ih =>
    refine (within_buildAs first pool).bind fun built _ => ?_
    cases built with
    | some built => exact within_ok _ _
    | none => exact ih

theorem within_takeActions (handlers : List ActionKind) (fuel : Nat) (pool : List Transaction) :
    Within Fault.IsShared (Engine.takeActions handlers fuel pool) := by
  induction fuel generalizing pool with
  | zero => exact within_ok _ _
  | succ fuel ih =>
    unfold Engine.takeActions
    refine within_ite (fun _ => within_ok _ _) fun _ => (within_firstBuilt pool handlers).bind ?_
    rintro (- | ⟨kind, a, left⟩) -
    · exact within_ok _ _
    · exact (ih left).bind fun _ _ => within_ok _ _

theorem within_buildActions (e : Engine) (pool : List Transaction) :
    Within Fault.IsShared (e.buildActions pool) :=
  (within_takeActions _ _ _).bind fun _ _ => within_ite (fun _ => within_ok _ _) fun _ => within_ok _ _

/-! #### Sentences -/

theorem within_explain (t : Transaction) : Within Fault.IsShared (Summary.explain t) := by
  have hunits : ∀ {v : Value} {decimals : Nat} {use : String → String},
      Within Fault.IsShared (formatUnits v decimals >>= fun amount => .ok (use amount)) :=
    (within_formatUnits _ _).bind fun _ _ => within_ok _ _
  cases t with
  | stream s =>
    have htoken : Within Fault.IsShared (Summary.streamCurrency s.token) := by
      unfold Summary.streamCurrency
      split
      · exact within_ok _ _
      · split <;> exact within_error.mpr trivial
    exact htoken.bind fun _ _ => (within_formatUnits _ _).bind fun _ _ =>
      (within_dateText _).bind fun _ _ => (within_dateText _).bind fun _ _ => within_ok _ _
  | treasuryNounTransfer | functionCall | unparsedFunctionCall => exact within_ok _ _
  | foreign => exact within_error.mpr trivial
  | _ => exact hunits

theorem within_summarize (a : Action) : Within Fault.IsShared (Summary.summarize a) := by
  cases a with
  | streamingPayment p =>
    exact (within_dateText _).bind fun _ _ => (within_dateText _).bind fun _ _ => within_ok _ _
  | customTransaction ts =>
    match ts with
    | [t] => exact within_explain t
    | [] | _ :: _ :: _ => exact within_ok _ _
  | foreign => exact within_error.mpr trivial
  | _ => exact within_ok _ _

end Building

/-! ### Whole proposals -/

namespace Report

/-- **No fault of decoding is the own affair of one caller**, whatever the registry. -/
theorem within_ofProposal {w : Wire} {raws : List RawTransaction} (hraws : fromWire w = .ok raws)
    (registry : Registry) (chain : Int) :
    Within Fault.IsShared (Report.ofProposal (Engine.standard registry) chain raws) := by
  refine (within_parse registry chain raws).bind ?_
  rintro ⟨ts, log⟩ hparse
  have hts := Engine.isShowable_of_parse hraws hparse
  refine (within_buildActions _ ts).bind ?_
  rintro ⟨actions, log'⟩ hbuild
  refine Within.bind (within_mapM fun a ha => ?_) fun _ _ => ?_
  · obtain ⟨entries, hwritten, -, -, hnew⟩ := (isShowable_of_buildActions hts hbuild a ha).exists_document
    rw [ofAction_eq hwritten hnew]
    exact (within_summarize a).map _
  · refine Within.bind (within_mapM fun t ht => ?_) fun _ _ => within_ok _ _
    obtain ⟨d, hd, -⟩ := (hts t ht).exists_document
    exact within_of_eq_ok _ hd

/-- The document about the proposal in the four lists. -/
def ofWire (e : Engine) (chain : Int) (w : Wire) : Outcome Value := fromWire w >>= ofProposal e chain

theorem within_ofWire (registry : Registry) (chain : Int) (w : Wire) :
    Within Fault.IsShared (ofWire (Engine.standard registry) chain w) :=
  (within_fromWire w).bind fun _ hraws => within_ofProposal hraws registry chain

end Report

end Proposals
