import Mathlib.Data.List.Perm.Basic
import Proposals.Proofs.Engine.Decompose
import Proposals.Proofs.Parse

/-!
# `Proofs.Engine.Normal` — the raw transactions that a decomposed proposal is written as

Reading a proposal and writing what was read gives its raw transactions in normal form, one by one
(`exists_normals`). Decomposing puts the transactions into another order, and loses none; so what is
written for the actions is a permutation of the normal forms (`exists_encode_buildActions`).
-/

namespace Proposals

open Proposals.Codec Proposals.Outcome

/-- Target, signature and calldata are texts. -/
structure RawTransaction.HasTexts (raw : RawTransaction) : Prop where
  target : ∃ s, raw.target = .text s
  signature : ∃ s, raw.signature = .text s
  calldata : ∃ s, raw.calldata = .text s

/-- Normal forms consist of texts. -/
theorem Codec.IsNormalOf.hasTexts {raw normal : RawTransaction} (h : IsNormalOf raw normal)
    (hcalldata : ∃ s, raw.calldata = .text s) : normal.HasTexts := by
  obtain ⟨a, -, -, htarget⟩ := h.target
  rcases h.call with ⟨-, hsignature, hnormal⟩ | ⟨call, c, -, -, hsignature, hnormal⟩
  · exact ⟨⟨a, htarget⟩, ⟨_, hsignature⟩, hnormal ▸ hcalldata⟩
  · exact ⟨⟨a, htarget⟩, ⟨_, hsignature⟩, _, hnormal⟩

/-- The items of the four lists are texts. -/
def Wire.HasTexts (w : Wire) : Prop :=
  ∀ vs ∈ [w.targets, w.values, w.signatures, w.calldatas], ∀ v ∈ vs, ∃ s, v = .text s

/-- Lists of texts can be printed and read back. -/
theorem Wire.HasTexts.isDocument {w : Wire} (h : w.HasTexts) : w.toDocument.IsDocument := by
  have hlist : ∀ vs ∈ [w.targets, w.values, w.signatures, w.calldatas], Value.AreDocuments vs := by
    refine fun vs hvs => Value.areDocuments_iff.mpr fun v hv => ?_
    obtain ⟨s, rfl⟩ := h vs hvs v hv
    trivial
  simp only [List.forall_mem_cons] at hlist
  obtain ⟨htargets, hvalues, hsignatures, hcalldatas, -⟩ := hlist
  have hkeys : Wire.names.Nodup := by decide
  exact ⟨hkeys, htargets, hvalues, hsignatures, hcalldatas, trivial⟩

/-- Lists of texts are taken from their document as they are. -/
theorem Wire.HasTexts.ofDocument_eq {w : Wire} (h : w.HasTexts) :
    Wire.ofDocument w.toDocument = .ok w := by
  have hlist : ∀ vs ∈ [w.targets, w.values, w.signatures, w.calldatas],
      vs.map (fun v => Value.text v.display) = vs := by
    refine fun vs hvs => (List.map_congr_left fun v hv => ?_).trans (List.map_id vs)
    obtain ⟨s, rfl⟩ := h vs hvs v hv
    rfl
  simp only [List.forall_mem_cons] at hlist
  obtain ⟨htargets, hvalues, hsignatures, hcalldatas, -⟩ := hlist
  show Except.ok (Wire.mk (w.targets.map _) (w.values.map _) (w.signatures.map _)
    (w.calldatas.map _)) = _
  rw [htargets, hvalues, hsignatures, hcalldatas]

theorem hasTexts_toWire {raws : List RawTransaction} (h : ∀ raw ∈ raws, raw.HasTexts) :
    (toWire raws).HasTexts := by
  have hlist : ∀ {part : RawTransaction → Value}, (∀ raw ∈ raws, ∃ s, part raw = .text s) →
      ∀ v ∈ raws.map part, ∃ s, v = .text s := fun hpart => List.forall_mem_map.mpr hpart
  refine List.forall_mem_cons.mpr ⟨hlist fun raw hraw => (h raw hraw).target, ?_⟩
  refine List.forall_mem_cons.mpr ⟨hlist fun _ _ => ⟨_, rfl⟩, ?_⟩
  exact List.forall_mem_cons.mpr ⟨hlist fun raw hraw => (h raw hraw).signature,
    List.forall_mem_singleton.mpr (hlist fun raw hraw => (h raw hraw).calldata)⟩

/-- Traversals of a list in two orders give results in two orders. -/
theorem Outcome.perm_of_mapM {ε α β : Type} {f : α → Except ε β} {xs ys : List α} {us vs : List β}
    (h : xs.Perm ys) (hus : xs.mapM f = .ok us) (hvs : ys.mapM f = .ok vs) : us.Perm vs := by
  obtain ⟨ws, hws, hperm⟩ := List.perm_comp_forall₂ h (mapM_eq_ok.mp hvs)
  rwa [Except.ok.inj (hus.symm.trans (mapM_eq_ok.mpr hws))]

namespace Engine

variable {e : Engine} {chain : Int} {w : Wire} {raws : List RawTransaction} {ts : List Transaction}
  {log : Log}

/-- **What is read from raw transactions is written as their normal forms.** -/
theorem exists_normals (hsound : (e.registry.chain chain).IsSound)
    (hraws : ∀ raw ∈ raws, raw.value.IsAmount ∧ ∃ s, raw.calldata = .text s)
    (h : e.parse chain raws = .ok (ts, log)) :
    ∃ normals, raws.mapM RawTransaction.normalForm = .ok normals ∧ e.unparse chain ts = .ok normals ∧
      ∀ normal ∈ normals, normal.HasTexts := by
  induction raws generalizing ts log with
  | nil => cases h; exact ⟨[], rfl, rfl, List.forall_mem_nil _⟩
  | cons raw raws ih =>
    obtain ⟨t, us, rfl, ⟨line, hone⟩, lines, hrest⟩ := parse_cons_eq_ok h
    obtain ⟨⟨hvalue, hcalldata⟩, hothers⟩ := List.forall_mem_cons.mp hraws
    obtain ⟨-, normal, hnormal, hwritten, -⟩ := readsBack_of_parseOne hsound hvalue.isNatural hone
    obtain ⟨normals, hnormals, hunparse, htexts⟩ := ih hothers hrest
    exact ⟨normal :: normals, mapM_eq_ok.mpr (.cons hnormal.normalForm_eq (mapM_eq_ok.mp hnormals)),
      mapM_eq_ok.mpr (.cons hwritten (mapM_eq_ok.mp hunparse)),
      List.forall_mem_cons.mpr ⟨hnormal.hasTexts hcalldata, htexts⟩⟩

/-- **The actions of a proposal are written as its raw transactions in normal form**, in some order. -/
theorem exists_encode_buildActions (hsound : (e.registry.chain chain).IsSound)
    (hcustom : ActionKind.customTransaction ∈ e.handlers) (hraws : fromWire w = .ok raws)
    (hparse : e.parse chain raws = .ok (ts, log)) {actions : List Action} {log' : Log}
    (hbuild : e.buildActions ts = .ok (actions, log')) :
    ∃ raws' normals, e.encode chain actions = .ok raws' ∧
      raws.mapM RawTransaction.normalForm = .ok normals ∧ raws'.Perm normals ∧
      ∀ raw ∈ raws', raw.HasTexts := by
  have hchecked : ∀ raw ∈ raws, raw.value.IsAmount ∧ ∃ s, raw.calldata = .text s := fun raw hraw =>
    checked_of_fromWire hraws hraw
  have hreads := readsBack_of_parse hsound (fun raw hraw => (hchecked raw hraw).1.isNatural) hparse
  have hrange := isInRange_of_parse hsound (fun raw hraw => (hchecked raw hraw).1) hparse
  have hreadable : Handler.AreReadable ts := fun t ht => (hreads t ht).elim fun _ hread => hread.readable
  obtain ⟨taken, blocks, rest, hrun⟩ := exists_run e.handlers hreadable
  obtain ⟨lines, hbuilt⟩ := buildActions_of_run hrun
  obtain rfl : actions = taken ++ bundleOf rest :=
    congrArg Prod.fst (Except.ok.inj (hbuild.symm.trans hbuilt))
  obtain ⟨normals, hnormals, hunparse, htexts⟩ := exists_normals hsound hchecked hparse
  obtain ⟨raws', hraws', -⟩ := exists_unparse_of_run hreads hrun
  have hperm := perm_of_mapM hrun.perm hraws' hunparse
  refine ⟨raws', normals, ?_, hnormals, hperm, fun raw hraw => htexts raw (hperm.subset hraw)⟩
  unfold encode
  rw [resolveAll_of_run hrun hreadable hrange hcustom, ok_bind]
  exact hraws'

end Engine

end Proposals
