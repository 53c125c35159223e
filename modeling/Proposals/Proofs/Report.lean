import Mathlib.Data.List.Nodup
import Proposals.Proofs.Action.Document
import Proposals.Proofs.Engine.Decompose
import Proposals.Proofs.Parse
import Proposals.Report

/-!
# `Proofs.Report` — documents about proposals

What can be printed of a document about a proposal is read back as it, whatever the registry
(`isLossless_of_ofProposal`). If what is read from the proposal is decoded, the document exists; its
actions are restored from it, and only decimals keep it from being printed (`exists_ofProposal`).
-/

namespace Proposals

open Proposals.Outcome

/-! ## Sentences -/

namespace Summary

open Proposals.Amount Proposals.Date

theorem exists_units {v : Value} (hv : v.IsAmount) (decimals : Nat) :
    ∃ s, formatUnits v decimals = .ok s := by
  obtain ⟨n, rfl, -⟩ := hv
  exact ⟨_, rfl⟩

theorem exists_dateText {v : Value} (hv : v.IsAmount) : ∃ s, dateText v = .ok s := by
  obtain ⟨n, rfl, -⟩ := hv
  unfold dateText secondsOf
  simp only [ok_bind]
  split <;> exact ⟨_, rfl⟩

/-- **A decoded transaction has a sentence.** -/
theorem exists_explain {t : Transaction} (h : t.IsDecoded) : ∃ s, explain t = .ok s := by
  have hreadable := h.readable
  have hvalue := h.value
  have hunits : ∀ {v : Value} {decimals : Nat} {use : String → String}, v.IsAmount →
      ∃ s, (formatUnits v decimals >>= fun amount => .ok (use amount)) = .ok s := by
    intro v decimals use hv
    obtain ⟨amount, hamount⟩ := exists_units hv decimals
    exact ⟨_, bind_eq_ok.mpr ⟨amount, hamount, rfl⟩⟩
  cases t with
  | payerTopUp value | wethDeposit value | transfer target value
  | unparsedPayableFunctionCall target calldata value | payableFunctionCall call value =>
    exact hunits hvalue
  | usdcTransferViaPayer a b | usdcApproval a b | wethTransfer a b | wethApproval a b =>
    exact hunits hreadable.2
  | stream s =>
    have hs : s.IsReadable := hreadable
    obtain ⟨c, hc⟩ : ∃ c, s.token = .currency c := hs.token.elim (fun h => ⟨_, h⟩) fun h => ⟨_, h⟩
    obtain ⟨amount, hamount⟩ := exists_units hs.amount c.decimals
    obtain ⟨start, hstart⟩ := exists_dateText hs.start
    obtain ⟨stop, hstop⟩ := exists_dateText hs.stop
    unfold explain
    simp only [hc, streamCurrency, ok_bind, hamount, hstart, hstop]
    exact ⟨_, rfl⟩
  | treasuryNounTransfer | functionCall | unparsedFunctionCall => exact ⟨_, rfl⟩
  | foreign => exact hreadable.elim

/-- **A decoded action has a sentence.** -/
theorem exists_summarize {a : Action} (h : a.IsDecoded) : ∃ s, summarize a = .ok s := by
  cases a with
  | streamingPayment p =>
    obtain ⟨-, -, -, hstart, hstop, -⟩ := h
    obtain ⟨start, hstart⟩ := exists_dateText hstart
    obtain ⟨stop, hstop⟩ := exists_dateText hstop
    unfold summarize
    simp only [hstart, hstop, ok_bind]
    exact ⟨_, rfl⟩
  | customTransaction ts =>
    match ts with
    | [t] => exact exists_explain (h t List.mem_cons_self)
    | [] | _ :: _ :: _ => exact ⟨_, rfl⟩
  | foreign => exact h.elim
  | _ => exact ⟨_, rfl⟩

end Summary

/-! ## Documents of actions -/

/-- The transactions of a bundle have no decimals; other actions have none anyway. -/
def Action.HasNoDecimal (a : Action) : Prop :=
  ∀ ts, a = .customTransaction ts → ∀ t ∈ ts, t.HasNoDecimal

/-- The document shows the action with its sentence, and the action can be read from it. Only decimals
    keep it from being printed. -/
structure Action.IsShown (a : Action) (d : Value) : Prop where
  written : Report.ofAction a = .ok d
  read : Action.ofDocument d = .ok a
  printable : d.IsPrintable ↔ a.HasNoDecimal

namespace Report

variable {a : Action} {d : Value}

/-- The sentence stands behind the entries of an action. -/
theorem ofAction_eq {entries : List (String × Value)} (hwritten : a.toDocument = .ok (.dict entries))
    (hnew : "summary" ∉ entries.map Prod.fst) :
    ofAction a = (Summary.summarize a).map fun s => .dict (entries ++ [("summary", .text s)]) := by
  unfold ofAction
  rw [hwritten, ok_bind]
  cases Summary.summarize a with
  | error fault => rfl
  | ok s =>
    show Except.ok (Value.dict (Table.insert "summary" (.text s) entries)) = _
    rw [Json.insert_of_not_mem hnew]
    rfl

theorem isLossless_of_ofAction (h : a.IsShowable) (hd : ofAction a = .ok d) : d.IsLossless := by
  obtain ⟨entries, hwritten, hlossless, hkeys, hnew⟩ := h.exists_document
  rw [ofAction_eq hwritten hnew] at hd
  obtain ⟨s, -, rfl⟩ := map_eq_ok.mp hd
  refine Value.isLossless_dict ?_ ?_
  · rw [List.map_append, List.map_singleton, ← List.concat_eq_append]
    exact List.Nodup.concat hnew hkeys
  · exact List.forall_mem_append.mpr
      ⟨hlossless, List.forall_mem_singleton.mpr (Value.isLossless_text s)⟩

/-- **A decoded action has a document with its sentence, from which it is restored.** -/
theorem exists_isShown (h : a.IsDecoded) : ∃ d, a.IsShown d := by
  obtain ⟨entries, hwritten, -, -, hnew⟩ := h.isShowable.exists_document
  obtain ⟨s, hs⟩ := Summary.exists_summarize h
  have hdocument : ofAction a = .ok (.dict (entries ++ [("summary", .text s)])) := by
    rw [ofAction_eq hwritten hnew, hs]
    rfl
  refine ⟨_, hdocument, Action.ofDocument_append h hwritten _, ?_⟩
  have hentries : (Value.dict (entries ++ [("summary", .text s)])).IsPrintable ↔
      ∀ entry ∈ entries, entry.2.IsPrintable := by
    rw [Value.IsPrintable, Value.areEntriesPrintable_iff, List.forall_mem_append]
    exact and_iff_left (List.forall_mem_singleton.mpr trivial)
  rw [hentries, Action.isPrintable_iff h hwritten]
  rfl

/-! ## Documents of proposals -/

/-- The document about a proposal with the given documents of its actions and transactions. -/
def proposalDocument (chain : Int) (actions transactions : List Value) : Value :=
  .dict [("chain_id", .int chain), ("actions", .list actions), ("transactions", .list transactions)]

variable {e : Engine} {chain : Int} {w : Wire} {raws : List RawTransaction} {ts : List Transaction}
  {log : Log}

theorem ofProposal_eq_ok : ofProposal e chain raws = .ok d ↔
    ∃ ts actions actionDocuments transactionDocuments, (∃ log, e.parse chain raws = .ok (ts, log)) ∧
      (∃ log, e.buildActions ts = .ok (actions, log)) ∧ actions.mapM ofAction = .ok actionDocuments ∧
      ts.mapM Transaction.toDocument = .ok transactionDocuments ∧
      d = proposalDocument chain actionDocuments transactionDocuments := by
  constructor
  · intro h
    obtain ⟨⟨ts, log⟩, hparse, h⟩ := bind_eq_ok.mp h
    obtain ⟨⟨actions, log'⟩, hbuild, h⟩ := bind_eq_ok.mp h
    obtain ⟨ads, hads, h⟩ := bind_eq_ok.mp h
    obtain ⟨tds, htds, h⟩ := bind_eq_ok.mp h
    exact ⟨ts, actions, ads, tds, ⟨log, hparse⟩, ⟨log', hbuild⟩, hads, htds, (Except.ok.inj h).symm⟩
  · rintro ⟨ts, actions, ads, tds, ⟨log, hparse⟩, ⟨log', hbuild⟩, hads, htds, rfl⟩
    unfold ofProposal
    simp only [hparse, ok_bind, hbuild, hads, htds]
    rfl

/-- The actions of transactions that can be shown can be shown. -/
theorem isShowable_of_buildActions (hts : ∀ t ∈ ts, t.IsShowable) {actions : List Action}
    (h : e.buildActions ts = .ok (actions, log)) : ∀ a ∈ actions, a.IsShowable := by
  intro a ha
  rcases Engine.builtFrom_of_buildActions h a ha with hbuilt | ⟨us, rfl, hsub⟩
  · exact Action.isShowable_of_builtFrom hts hbuilt
  · exact Action.isShowable_of_bundle fun t ht => hts t (hsub ht)

/-- **What is printed about a proposal is read back**, whatever the registry. -/
theorem isLossless_of_ofProposal (hchain : chain.natAbs < Number.tenTo Number.maxDigits)
    (hraws : fromWire w = .ok raws) (h : ofProposal e chain raws = .ok d) : d.IsLossless := by
  obtain ⟨ts, actions, ads, tds, ⟨log, hparse⟩, ⟨log', hbuild⟩, hads, htds, rfl⟩ := ofProposal_eq_ok.mp h
  have hts := Engine.isShowable_of_parse hraws hparse
  have hkeys : ["chain_id", "actions", "transactions"].Nodup := by decide
  refine Value.isLossless_dict hkeys ?_
  simp only [List.forall_mem_cons, List.not_mem_nil, false_imp_iff, implies_true, and_true]
  refine ⟨Abi.Coder.isLossless_int hchain, Value.isLossless_list fun ad had => ?_,
    Value.isLossless_list fun td htd => ?_⟩
  · obtain ⟨a, ha, had⟩ := exists_of_mem_mapM hads had
    exact isLossless_of_ofAction (isShowable_of_buildActions hts hbuild a ha) had
  · obtain ⟨t, ht, htd⟩ := exists_of_mem_mapM htds htd
    obtain ⟨td', htd', hlossless⟩ := (hts t ht).exists_document
    rwa [Except.ok.inj (htd.symm.trans htd')]

/-- **A proposal that is read as decoded transactions has a document.** The actions are restored from
    it, and it can be printed exactly if no decimals were decoded. -/
theorem exists_ofProposal (hsound : (e.registry.chain chain).IsSound) (hraws : fromWire w = .ok raws)
    (hparse : e.parse chain raws = .ok (ts, log)) :
    ∃ actions actionDocuments transactionDocuments, (∃ log, e.buildActions ts = .ok (actions, log)) ∧
      ofProposal e chain raws = .ok (proposalDocument chain actionDocuments transactionDocuments) ∧
      actionDocuments.mapM Action.ofDocument = .ok actions ∧
      ((proposalDocument chain actionDocuments transactionDocuments).IsPrintable ↔
        ∀ t ∈ ts, t.HasNoDecimal) := by
  have hts := Engine.isDecoded_of_parse hsound (fun raw hraw => ⟨w, raws, hraws, hraw⟩) hparse
  have hreadable : Handler.AreReadable ts := fun t ht => (hts t ht).readable
  obtain ⟨actions, blocks, rest, hrun⟩ := Engine.exists_run e.handlers hreadable
  obtain ⟨log', hbuild⟩ := Engine.buildActions_of_run hrun
  have hbuilt := Engine.builtFrom_of_buildActions hbuild
  have hdecoded := Engine.isDecoded_of_buildActions hts hbuild
  obtain ⟨ads, hads⟩ : ∃ ads, List.Forall₂ Action.IsShown (actions ++ Engine.bundleOf rest) ads :=
    exists_forall₂ fun a ha => exists_isShown (hdecoded a ha)
  obtain ⟨tds, htds⟩ : ∃ tds, List.Forall₂ Transaction.IsShown ts tds :=
    exists_forall₂ fun t ht => Transaction.exists_isShown (hts t ht)
  refine ⟨_, ads, tds, ⟨log', hbuild⟩, ofProposal_eq_ok.mpr ⟨ts, _, ads, tds, ⟨log, hparse⟩,
    ⟨log', hbuild⟩, mapM_eq_ok.mpr (hads.imp fun _ _ ha => ha.written),
    (Action.mapM_ofDocument htds).1, rfl⟩, mapM_eq_ok.mpr (hads.flip.imp fun _ _ ha => ha.read), ?_⟩
  have htransactions := Value.arePrintable_iff_of_forall₂ (htds.imp fun _ _ ht => ht.printable)
  have hactions := Value.arePrintable_iff_of_forall₂ (hads.imp fun _ _ ha => ha.printable)
  -- the bundle is of transactions of the proposal, so the actions have no other decimals
  have hbundles : (∀ t ∈ ts, t.HasNoDecimal) →
      ∀ a ∈ actions ++ Engine.bundleOf rest, a.HasNoDecimal := by
    rintro hall a ha us rfl
    rcases hbuilt _ ha with hbuilt | ⟨us', heq, hsub⟩
    · exact absurd hbuilt nofun
    · cases heq
      exact fun t ht => hall t (hsub ht)
  show True ∧ Value.ArePrintable ads ∧ Value.ArePrintable tds ∧ True ↔ _
  rw [hactions, htransactions]
  exact ⟨fun h => h.2.2.1, fun h => ⟨trivial, hbundles h, h, trivial⟩⟩

end Report

end Proposals
