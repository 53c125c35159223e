import Proposals.Proofs.Action.Document
import Proposals.Proofs.Engine.Decompose
import Proposals.Proofs.Parse
import Proposals.Proofs.Written

/-!
# `Proofs.Engine.Document` — documents of what a proposal is read as

Transactions and actions are written field by field, and read by the names of the fields, by code that
shares nothing but the names. What is read from a proposal has a shape that both sides treat alike
(`Transaction.IsDecoded`, `Action.IsDecoded`), however deep the types of its arguments are; hence it
comes back from its document, and so does what it is decomposed into (`ofDocument_toDocument`).
-/

namespace Proposals

open Proposals.Outcome

/-- A decoded transaction comes back from its document. -/
theorem Transaction.IsDecoded.restored {t : Transaction} (h : t.IsDecoded) :
    (t.toDocument >>= Transaction.ofDocument) = .ok t := by
  obtain ⟨d, hd⟩ := exists_isShown h
  rw [hd.written, ok_bind]
  exact hd.read

/-- A decoded action comes back from its document. -/
theorem Action.IsDecoded.restored {a : Action} (h : a.IsDecoded) :
    (a.toDocument >>= Action.ofDocument) = .ok a := by
  obtain ⟨entries, hwritten, -⟩ := h.isShowable.exists_document
  have hread := ofDocument_append h hwritten []
  rw [List.append_nil] at hread
  rw [hwritten, ok_bind]
  exact hread

namespace Engine

variable {e : Engine} {chain : Int} {raws : List RawTransaction}

/-- **What is read from a single raw transaction** is decoded. -/
theorem isDecoded_of_parseOne (hsound : (e.registry.chain chain).IsSound) {raw : RawTransaction}
    (hraw : raw.IsProposed) {t : Transaction} {log : Log} (h : e.parseOne chain raw = .ok (t, log)) :
    t.IsDecoded := by
  have hparse : e.parse chain [raw] = .ok ([t], log ++ []) := by
    simp only [parse, h, ok_bind, pure_eq_ok]
  exact isDecoded_of_parse hsound (List.forall_mem_singleton.mpr hraw) hparse t List.mem_cons_self

/-- **What raw transactions are decomposed into** is decoded. -/
theorem isDecoded_of_decompose (hsound : (e.registry.chain chain).IsSound)
    (hraws : ∀ raw ∈ raws, raw.IsProposed) {actions : List Action} {log : Log}
    (h : e.decompose chain raws = .ok (actions, log)) : ∀ a ∈ actions, a.IsDecoded := by
  obtain ⟨ts, ⟨parsing, hparse⟩, building, hbuild⟩ := decompose_eq_ok.mp ⟨log, h⟩
  exact isDecoded_of_buildActions (isDecoded_of_parse hsound hraws hparse) hbuild

/-! ## Documents lose nothing -/

/-- **Documents lose nothing.** With the built-in registry, on any chain and with any lists of codecs and
    handlers: what is read from a raw transaction of a proposal comes back from its document, and so does
    every action, a bundle among them, that such raw transactions are decomposed into. -/
theorem ofDocument_toDocument (hregistry : e.registry = Registry.builtInRegistry) (chain : Int)
    (hraws : ∀ raw ∈ raws, raw.IsProposed) :
    (∀ raw ∈ raws, ∀ t log, e.parseOne chain raw = .ok (t, log) →
      (t.toDocument >>= Transaction.ofDocument) = .ok t) ∧
    ∀ actions log, e.decompose chain raws = .ok (actions, log) →
      ∀ a ∈ actions, (a.toDocument >>= Action.ofDocument) = .ok a := by
  have hsound : (e.registry.chain chain).IsSound := by
    rw [hregistry]
    exact Codec.isSound_builtInContext chain
  constructor
  · intro raw hraw t log hparse
    exact (isDecoded_of_parseOne hsound (hraws raw hraw) hparse).restored
  · intro actions log hdecompose a ha
    exact (isDecoded_of_decompose hsound hraws hdecompose a ha).restored

/-- A proposal with a payment and a call of a function that takes an array of tuples with bytes. -/
def nestedProposal : Wire where
  targets := paymentProposal.targets ++ [.text "0x1111111111111111111111111111111111111111"]
  values := paymentProposal.values ++ [.text "0"]
  signatures := paymentProposal.signatures ++ [.text "f((bytes2)[1])"]
  calldatas := paymentProposal.calldatas ++
    [.text "0x6869000000000000000000000000000000000000000000000000000000000000"]

/-- The raw transaction of that call. -/
def nestedCall : RawTransaction where
  target := .text "0x1111111111111111111111111111111111111111"
  signature := .text "f((bytes2)[1])"
  calldata := .text "0x6869000000000000000000000000000000000000000000000000000000000000"

/-- What the call does. -/
def nestedRead : Transaction :=
  .functionCall
    { target := .text "0x1111111111111111111111111111111111111111"
      name := .text "f"
      inputs := .list [.list [.list [.bytes [104, 105]]]]
      inputTypes := .list [.text "(bytes2)[1]"] }

set_option maxRecDepth 2000 in
theorem fromWire_nestedProposal : fromWire nestedProposal = .ok [payment, nestedCall] := rfl

set_option maxRecDepth 20000 in
theorem parseOne_nestedCall :
    ∃ log, (standard Registry.builtInRegistry).parseOne 1 nestedCall = .ok (nestedRead, log) := ⟨_, rfl⟩

/-- The call comes back from its document, and so do the payment and the bundle with the call. -/
theorem ofDocument_toDocument_nested :
    fromWire nestedProposal = .ok [payment, nestedCall] ∧
      (∃ log, (standard Registry.builtInRegistry).parseOne 1 nestedCall = .ok (nestedRead, log)) ∧
      (nestedRead.toDocument >>= Transaction.ofDocument) = .ok nestedRead ∧
      ∃ a log, (standard Registry.builtInRegistry).decompose 1 [payment, nestedCall] =
          .ok ([a, .customTransaction [nestedRead]], log) ∧
        (a.toDocument >>= Action.ofDocument) = .ok a ∧
        ((Action.customTransaction [nestedRead]).toDocument >>= Action.ofDocument) =
          .ok (.customTransaction [nestedRead]) := by
  obtain ⟨line, hpayment⟩ := parseOne_payment
  obtain ⟨line', hcall⟩ := parseOne_nestedCall
  have hread : ∃ log, (standard Registry.builtInRegistry).parse 1 [payment, nestedCall] =
      .ok ([paymentRead, nestedRead], log) := by
    simp only [parse, hpayment, hcall, ok_bind, pure_eq_ok]
    exact ⟨_, rfl⟩
  have hbuilt : ∃ log, (standard Registry.builtInRegistry).buildActions [paymentRead, nestedRead] =
      .ok ([.oneTimePayment (.text "0x0fd206fc7a7dbcd5661157edcb1ffdd0d02a61ff") (.currency .usdc)
        (.text "1"), .customTransaction [nestedRead]], log) := ⟨_, rfl⟩
  obtain ⟨log, hdecompose⟩ := decompose_eq_ok.mpr ⟨_, hread, hbuilt⟩
  obtain ⟨htransactions, hactions⟩ := ofDocument_toDocument (e := standard Registry.builtInRegistry) rfl 1
    fun raw hraw => ⟨nestedProposal, _, fromWire_nestedProposal, hraw⟩
  have hall := hactions _ _ hdecompose
  exact ⟨fromWire_nestedProposal, ⟨line', hcall⟩, htransactions nestedCall (by simp) _ _ hcall, _, log,
    hdecompose, hall _ List.mem_cons_self, hall _ (List.mem_cons_of_mem _ List.mem_cons_self)⟩

end Engine

end Proposals
