import Proposals.Proofs.Codec.Override
import Proposals.Proofs.Engine.Interleave
import Proposals.Proofs.Registry.Entries
import Proposals.Proofs.Report

/-!
# `Proofs.Engine.Sentence` — an action is described as the transaction that it is built from

The sentence for a transaction writes its amount in whole units. For an action the handler has written the
amount before, and the sentence repeats it. Both come out the same, whatever the transaction holds, and
where a date cannot be shown both fail alike (`summarize_of_builtFrom`). A bundle of one transaction is
described as that one, and a larger one only by its size; so an action has no sentence only where a
transaction has none (`summarize_of_buildActions`).

Transactions that were read have one if the registry has the known types for the call in question
(`IsReadAs.isDecoded`). Codecs do not look at the types, so with others a text may take the place of an
amount, and the transaction cannot be described (`not_summarize_eq_explain`).
-/

namespace Proposals.Summary

open Proposals.Amount Proposals.Engine Proposals.Handler Proposals.Outcome

variable {a : Action} {t : Transaction} {pool : List Transaction}

/-! ## Actions and the transactions they are built from -/

/-- The symbol of ether between the amount and the receiver. -/
theorem symbol_eth : " " ++ symbol (.currency .eth) ++ " to " = " ETH to " := rfl

theorem symbol_usdc : " " ++ symbol (.currency .usdc) ++ " to " = " USDC to " := rfl

/-- **An action is described as the transaction whose fields it has.** -/
theorem summarize_of_builtFrom (h : BuiltFrom [t] a) : summarize a = explain t := by
  cases h with
  | @transfer target value _ hmem hamount =>
    obtain rfl := List.mem_singleton.mp hmem
    obtain ⟨text, htext, rfl⟩ := map_eq_ok.mp hamount
    show Except.ok ("Transfer " ++ text ++ " " ++ symbol (.currency .eth) ++ " to " ++ target.display) =
      (formatUnits value Currency.eth.decimals).map ("Transfer " ++ · ++ " ETH to " ++ target.display)
    rw [htext, ← symbol_eth]
    simp only [Except.map, String.append_assoc]
  | @usdcTransfer receiver units _ hmem hamount =>
    obtain rfl := List.mem_singleton.mp hmem
    obtain ⟨text, htext, rfl⟩ := map_eq_ok.mp hamount
    show Except.ok ("Transfer " ++ text ++ " " ++ symbol (.currency .usdc) ++ " to " ++ receiver.display) =
      (formatUnits units Currency.usdc.decimals).map ("Transfer " ++ · ++ " USDC to " ++ receiver.display)
    rw [htext, ← symbol_usdc]
    simp only [Except.map, String.append_assoc]
  | stream hmem htoken hamount =>
    obtain rfl := List.mem_singleton.mp hmem
    obtain ⟨text, htext, rfl⟩ := map_eq_ok.mp hamount
    -- the dates are written by both
    unfold explain
    simp only [htoken, streamCurrency, ok_bind, htext]
    rfl
  | @topUp value _ hmem hamount =>
    obtain rfl := List.mem_singleton.mp hmem
    obtain ⟨text, htext, rfl⟩ := map_eq_ok.mp hamount
    show Except.ok ("Top up the payer with " ++ text ++ " ETH") =
      (formatUnits value Currency.eth.decimals).map ("Top up the payer with " ++ · ++ " ETH")
    rw [htext]
    rfl
  | nounTransfer hmem =>
    obtain rfl := List.mem_singleton.mp hmem
    rfl

/-- **Every action is described as some transaction of the pool**, unless it is a bundle that is described
    by its size. -/
theorem summarize_of_buildActions {e : Engine} {actions : List Action} {log : Log}
    (h : e.buildActions pool = .ok (actions, log)) (ha : a ∈ actions) :
    (∃ s, summarize a = .ok s) ∨ ∃ t ∈ pool, summarize a = explain t := by
  rcases builtFrom_of_buildActions h a ha with hbuilt | ⟨ts, rfl, hsub⟩
  · obtain ⟨t, ht, hbuilt⟩ := hbuilt.exists_singleton
    exact .inr ⟨t, ht, summarize_of_builtFrom hbuilt⟩
  · match ts with
    | [t] => exact .inr ⟨t, hsub List.mem_cons_self, rfl⟩
    | [] | _ :: _ :: _ => exact .inl ⟨_, rfl⟩

end Proposals.Summary

namespace Proposals.Engine

open Proposals.Abi Proposals.Codec Proposals.Handler Proposals.Outcome Proposals.Summary

variable {registry : Registry} {entries : List (Int × List Contract)} {t : Transaction}

/-! ## Transactions that are read with the known types -/

/-- The codec of the kind reads the transaction from a raw transaction of a proposal. -/
def IsReadAs (ctx : Context) (kind : TransactionKind) (t : Transaction) : Prop :=
  ∃ w raws raw, fromWire w = .ok raws ∧ raw ∈ raws ∧ parseAs kind ctx raw = .ok (some t)

theorem IsRead.exists_isReadAs (h : IsRead registry t) : ∃ chain kind, IsReadAs ⟨chain, registry⟩ kind t := by
  obtain ⟨e, chain, w, raws, raw, log, rfl, hraws, hraw, hparse⟩ := h
  obtain ⟨⟨kind, u⟩, hfound, hone⟩ := bind_eq_ok.mp hparse
  cases hone
  exact ⟨chain, kind, w, raws, raw, hraws, hraw, (firstParsed_sound hfound).2⟩

theorem hasNormalAddresses_of_ofEntries (hregistry : Registry.ofEntries entries = .ok registry)
    (chain : Int) : HasNormalAddresses ⟨chain, registry⟩ := by
  intro name c hc
  rw [Registry.lookup?_of_ofEntries hregistry] at hc
  exact Registry.isNormalAddress_of_mem_entriesOn (mem_of_lastWith? hc).1

/-- What is read of a call with the known types is decoded. -/
theorem IsReadAs.isDecoded {ctx : Context} {kind : TransactionKind} (haddresses : HasNormalAddresses ctx)
    (hkeeps : KeepsCall ctx kind) (h : IsReadAs ctx kind t) : t.IsDecoded := by
  obtain ⟨w, raws, raw, hraws, hraw, hparse⟩ := h
  exact isDecoded_of_keepsCall haddresses hkeeps (isAmount_of_fromWire hraws hraw)
    (isText_of_fromWire hraws hraw) hparse

/-- The transaction is read on some chain on which the registry has the known types for its call. -/
def IsReadAsKnown (registry : Registry) (t : Transaction) : Prop :=
  ∃ chain kind, IsReadAs ⟨chain, registry⟩ kind t ∧ KeepsCall ⟨chain, registry⟩ kind

/-- In a registry that keeps the types of well-known functions, all transactions are read with them. -/
theorem IsRead.isReadAsKnown (hentries : Registry.AreConforming entries)
    (hregistry : Registry.ofEntries entries = .ok registry) (h : IsRead registry t) :
    IsReadAsKnown registry t := by
  obtain ⟨chain, kind, hread⟩ := h.exists_isReadAs
  have hsound := Registry.isSound_of_ofEntries hentries hregistry chain
  exact ⟨chain, kind, hread, keepsCall_of_isSound hsound kind⟩

/-! ## Sentences -/

/-- **An action is described as the transaction it was built from.** Whatever handler builds an action from
    transactions that were read, the action has the sentence of the first transaction that is taken, for
    streaming payments of the stream. If all were read with the known types, building succeeds and every
    action has a sentence. In any other registry, an action without sentence is described as a
    transaction that was read with types other than the known ones. -/
theorem summarize_eq_explain (e : Engine) (hregistry : Registry.ofEntries entries = .ok registry)
    {pool : List Transaction} (hpool : ∀ t ∈ pool, IsRead registry t) :
    (∀ kind a left, buildAs kind pool = .ok (some (a, left)) → ∃ t, IsFirstTaken pool left t ∧
        (kind = .streamingPayment → ∃ s, t = .stream s) ∧ summarize a = explain t) ∧
      ((∀ t ∈ pool, IsReadAsKnown registry t) → ∃ actions log,
        e.buildActions pool = .ok (actions, log) ∧ ∀ a ∈ actions, ∃ s, summarize a = .ok s) ∧
      ∀ actions log, e.buildActions pool = .ok (actions, log) → ∀ a ∈ actions,
        (∃ s, summarize a = .ok s) ∨ ∃ t ∈ pool, summarize a = explain t ∧
          ∃ chain kind, IsReadAs ⟨chain, registry⟩ kind t ∧ ¬ KeepsCall ⟨chain, registry⟩ kind := by
  refine ⟨fun kind a left hbuilt => ?_, fun hknown => ?_, fun actions log hactions a ha => ?_⟩
  · obtain ⟨t, hfirst, hfrom, hstream⟩ := builtFrom_firstTaken hbuilt
    exact ⟨t, hfirst, hstream, summarize_of_builtFrom hfrom⟩
  · have hdecoded : ∀ t ∈ pool, t.IsDecoded := by
      intro t ht
      obtain ⟨chain, kind, hread, hkeeps⟩ := hknown t ht
      exact hread.isDecoded (hasNormalAddresses_of_ofEntries hregistry chain) hkeeps
    obtain ⟨actions, blocks, rest, hrun⟩ := exists_run e.handlers fun t ht => (hdecoded t ht).readable
    obtain ⟨log, hactions⟩ := buildActions_of_run hrun
    exact ⟨_, log, hactions, fun a ha => exists_summarize (isDecoded_of_buildActions hdecoded hactions a ha)⟩
  · rcases summarize_of_buildActions hactions ha with hsentence | ⟨t, ht, hsame⟩
    · exact .inl hsentence
    · obtain ⟨chain, kind, hread⟩ := (hpool t ht).exists_isReadAs
      by_cases hkeeps : KeepsCall ⟨chain, registry⟩ kind
      · -- with the known types the transaction is decoded, and has a sentence
        rw [hsame]
        exact .inl (exists_explain
          (hread.isDecoded (hasNormalAddresses_of_ofEntries hregistry chain) hkeeps))
      · exact .inr ⟨t, ht, hsame, chain, kind, hread, hkeeps⟩

/-- A transfer and a payment are described as they were read, the transfer first. -/
theorem summarize_eq_explain_transfer :
    (∃ a left t, buildAs .oneTimePayment [transferRead, paymentRead] = .ok (some (a, left)) ∧
        IsFirstTaken [transferRead, paymentRead] left t ∧ summarize a = explain t) ∧
      ∃ actions log, (standard Registry.builtInRegistry).buildActions [transferRead, paymentRead] =
        .ok (actions, log) ∧ ∀ a ∈ actions, ∃ s, summarize a = .ok s := by
  have hread : ∀ t ∈ [transferRead, paymentRead], IsRead Registry.builtInRegistry t := by
    rintro t (- | ⟨-, - | ⟨-, ⟨⟩⟩⟩)
    · exact isRead_transferRead
    · exact isRead_paymentRead
  obtain ⟨a, left, hbuilt⟩ : ∃ a left, buildAs .oneTimePayment [transferRead, paymentRead] =
    .ok (some (a, left)) := ⟨_, _, rfl⟩
  obtain ⟨hfirst, hknown, -⟩ :=
    summarize_eq_explain (standard Registry.builtInRegistry) Registry.builtIn_eq_ok hread
  obtain ⟨t, htaken, -, hsame⟩ := hfirst .oneTimePayment a left hbuilt
  refine ⟨⟨a, left, t, hbuilt, htaken, hsame⟩, hknown fun t ht => ?_⟩
  exact (hread t ht).isReadAsKnown Registry.areConforming_builtInEntries Registry.builtIn_eq_ok

/-- Stablecoin whose approvals are between two addresses. -/
def otherUsdc : Contract :=
  ⟨"usdc-token", "0xa0b86991c6218b36c1d19d4a2e9eb0ce3606eb48", [.text "approve(address,address)"]⟩

/-- A contracts file with this contract. -/
def otherUsdcFile : List (String × Value) :=
  [("1", .dict [("usdc-token", .dict [("address", .text otherUsdc.address), ("abi", .list otherUsdc.abi)])])]

/-- The built-in contracts with this one in its place. -/
def otherUsdcContracts : List Contract :=
  Registry.builtInContracts.map fun c => if c.name = "usdc-token" then otherUsdc else c

/-- The surroundings of codecs with these contracts. -/
def otherUsdcContext : Context := ⟨1, Registry.onChain 1 otherUsdcContracts⟩

theorem exists_load_otherUsdc : ∃ file, Registry.load (some file) = .ok otherUsdcContext.registry := by
  have hd : (Value.dict otherUsdcFile).IsDocument :=
    ⟨by decide, ⟨by decide, ⟨by decide, trivial, ⟨trivial, trivial⟩, trivial⟩, trivial⟩, trivial⟩
  have hover : Registry.overlay Registry.builtInOverlay otherUsdcFile =
    .ok [(1, otherUsdcContracts.map fun c => (c.name, c))] := rfl
  refine Registry.exists_load_eq_ok hd hover (List.forall_mem_map.mpr fun c hc => ?_)
  split
  · exact rfl
  · exact Registry.isNormalAddress_builtIn c hc

/-- Its function. -/
def otherApprove : KnownCall :=
  ⟨"usdc-token", ⟨"approve", ["address", "address"]⟩, [.address, .address]⟩

/-- What is read of a call of this function, with an address in place of the amount. -/
def otherApprovalRead : Transaction :=
  .usdcApproval (.text "0x1111111111111111111111111111111111111111")
    (.text "0x2222222222222222222222222222222222222222")

/-- The codec of approvals reads the call, since codecs before it look for transfers or for the payer. -/
theorem firstParsed_otherApproval {parts : List Part} (h : parseAs .usdcApproval otherUsdcContext
      (callWith otherUsdc otherApprove.signature parts (.int 0)) = .ok (some otherApprovalRead)) :
    firstParsed otherUsdcContext (callWith otherUsdc otherApprove.signature parts (.int 0)) defaultCodecs =
      .ok (.usdcApproval, otherApprovalRead) := by
  show (parseAs .usdcApproval otherUsdcContext _ >>= _) = _
  rw [h]
  rfl

theorem isRead_otherApprovalRead : IsRead otherUsdcContext.registry otherApprovalRead := by
  have hoffers : Offers otherUsdc otherApprove := ⟨rfl, ⟨_, rfl, rfl⟩, by simp [otherApprove, Coder.IsWord]⟩
  have hcanonical : Coder.AreCanonical [.address, .address]
      [.text "0x1111111111111111111111111111111111111111",
        .text "0x2222222222222222222222222222222222222222"] :=
    ⟨_, _, rfl, ⟨_, rfl, rfl⟩, _, _, rfl, ⟨_, rfl, rfl⟩, rfl⟩
  obtain ⟨parts, hparts⟩ : ∃ parts, Coder.encodeParts? [.address, .address]
      [.text "0x1111111111111111111111111111111111111111",
        .text "0x2222222222222222222222222222222222222222"] = some parts := ⟨_, rfl⟩
  have hfound : otherUsdcContext.registry.lookup? otherUsdcContext.chain "usdc-token" = some otherUsdc := rfl
  obtain ⟨hvalid, hcalls⟩ := callsRegistered_callWith hoffers hfound rfl hcanonical hparts [] []
  have hwire := fromWire_toWire (List.forall_mem_singleton.mpr hvalid)
  have hparse : parseAs .usdcApproval otherUsdcContext
      (callWith otherUsdc otherApprove.signature parts (.int 0)) = .ok (some otherApprovalRead) := by
    refine (parsePair_eq "usdc-token" "approve" .usdcApproval otherUsdcContext
      (callWith otherUsdc otherApprove.signature parts (.int 0))).trans ?_
    exact readCall_of_matchesCall hcalls.matched hcalls.decoded (pairOf .usdcApproval)
  obtain ⟨log, hone⟩ : ∃ log, (standard otherUsdcContext.registry).parseOne 1
      (callWith otherUsdc otherApprove.signature parts (.int 0)) = .ok (otherApprovalRead, log) :=
    ⟨_, bind_eq_ok.mpr ⟨_, firstParsed_otherApproval hparse, rfl⟩⟩
  exact ⟨_, 1, _, _, _, log, rfl, hwire, List.mem_singleton_self _, hone⟩

/-- **Not every action has a sentence**: an approval of an address is bundled, and cannot be described. -/
theorem not_summarize_eq_explain :
    ¬ ∀ (file : Option String) (registry : Registry) (e : Engine) (pool : List Transaction)
      (actions : List Action) (log : Log),
      Registry.load file = .ok registry → (∀ t ∈ pool, IsRead registry t) →
      e.buildActions pool = .ok (actions, log) → ∀ a ∈ actions, ∃ s, summarize a = .ok s := by
  intro hall
  obtain ⟨file, hfile⟩ := exists_load_otherUsdc
  obtain ⟨log, hactions⟩ : ∃ log, (standard otherUsdcContext.registry).buildActions [otherApprovalRead] =
    .ok ([.customTransaction [otherApprovalRead]], log) := ⟨_, rfl⟩
  obtain ⟨s, hs⟩ := hall _ _ _ _ _ log hfile
    (List.forall_mem_singleton.mpr isRead_otherApprovalRead) hactions _ (List.mem_singleton_self _)
  cases hs

end Proposals.Engine
