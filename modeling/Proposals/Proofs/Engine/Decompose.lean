import Proposals.Proofs.Engine.Parse
import Proposals.Proofs.Engine.Run

/-!
# `Proofs.Engine.Decompose` — what decomposing keeps

Decomposing reads a proposal, runs the loop over the transactions and bundles what is left. Since a
run only regroups its pool, the actions stand for every transaction exactly once
(`buildActions_conserves`); and since a run can be repeated on the regrouped pool, the actions are found
again when they are written and decomposed once more (`decompose_encode`).
-/

namespace Proposals.Engine

open Proposals.Handler Proposals.Outcome

variable {e : Engine} {pool rest : List Transaction} {actions : List Action}
  {blocks : List (List Transaction)}

/-! ## The bundle -/

/-- The bundle of what is left, if anything is. -/
def bundleOf : List Transaction → List Action
  | [] => []
  | rest => [.customTransaction rest]

theorem append_bundleOf_nil (actions : List Action) : actions ++ bundleOf [] = actions :=
  List.append_nil actions

/-- A transaction of a bundle among the actions. -/
def IsBundled (t : Transaction) (actions : List Action) : Prop :=
  ∃ bundle, .customTransaction bundle ∈ actions ∧ t ∈ bundle

theorem isBundled_append_bundleOf {t : Transaction} (ht : t ∈ rest) :
    IsBundled t (actions ++ bundleOf rest) := by
  cases rest with
  | nil => exact absurd ht (by simp)
  | cons u rest => exact ⟨u :: rest, List.mem_append_right _ (List.mem_singleton.mpr rfl), ht⟩

theorem length_bundleOf_le (rest : List Transaction) : (bundleOf rest).length ≤ rest.length := by
  cases rest with
  | nil => exact Nat.le_refl 0
  | cons t rest => exact Nat.le_add_left 1 rest.length

/-- The actions of a pool are those of its run and the bundle. -/
theorem buildActions_of_run (h : Run e.handlers pool actions blocks rest) :
    ∃ log, e.buildActions pool = .ok (actions ++ bundleOf rest, log) := by
  obtain ⟨log, hlog⟩ := h.takeActions_eq
  unfold buildActions
  rw [hlog pool.length (Nat.le_refl _), ok_bind]
  cases rest with
  | nil =>
    rw [append_bundleOf_nil]
    exact ⟨log, rfl⟩
  | cons t rest => exact ⟨_, rfl⟩

theorem resolveAll_append_eq_ok {as bs : List Action} {us : List Transaction} :
    e.resolveAll (as ++ bs) = .ok us ↔
      ∃ ts ts', e.resolveAll as = .ok ts ∧ e.resolveAll bs = .ok ts' ∧ us = ts ++ ts' := by
  induction as generalizing us with
  | nil =>
    refine ⟨fun h => ⟨[], us, rfl, h, rfl⟩, ?_⟩
    rintro ⟨ts, ts', hts, hts', rfl⟩
    cases hts
    exact hts'
  | cons a as ih =>
    rw [List.cons_append]
    constructor
    · intro h
      obtain ⟨block, hblock, h⟩ := bind_eq_ok.mp h
      obtain ⟨others, hothers, h⟩ := bind_eq_ok.mp h
      cases h
      obtain ⟨ts, ts', hts, hts', rfl⟩ := ih.mp hothers
      refine ⟨block ++ ts, ts', ?_, hts', (List.append_assoc _ _ _).symm⟩
      rw [resolveAll, hblock, ok_bind, hts]
      rfl
    · rintro ⟨ts, ts', hts, hts', rfl⟩
      obtain ⟨block, hblock, hts⟩ := bind_eq_ok.mp hts
      obtain ⟨others, hothers, hts⟩ := bind_eq_ok.mp hts
      cases hts
      rw [resolveAll, hblock, ok_bind, ih.mpr ⟨others, ts', hothers, hts', rfl⟩, ok_bind,
        List.append_assoc]
      rfl

theorem resolveAll_bundleOf (h : ActionKind.customTransaction ∈ e.handlers) (rest : List Transaction) :
    e.resolveAll (bundleOf rest) = .ok rest := by
  cases rest with
  | nil => rfl
  | cons t rest =>
    have hone : e.resolveOne (.customTransaction (t :: rest)) = .ok (t :: rest) := if_pos h
    show e.resolveAll [.customTransaction (t :: rest)] = _
    rw [resolveAll, hone, ok_bind]
    show Except.ok ((t :: rest) ++ []) = _
    rw [List.append_nil]

/-- The actions of a pool resolve to its blocks in order and what is left. -/
theorem resolveAll_of_run (h : Run e.handlers pool actions blocks rest) (hpool : AreReadable pool)
    (hrange : ∀ t ∈ pool, t.IsInRange) (hcustom : ActionKind.customTransaction ∈ e.handlers) :
    e.resolveAll (actions ++ bundleOf rest) = .ok (blocks.flatten ++ rest) :=
  resolveAll_append_eq_ok.mpr
    ⟨_, _, h.resolveAll_eq hpool hrange, resolveAll_bundleOf hcustom rest, rfl⟩

/-- If they resolve at all. -/
theorem eq_of_resolveAll_run (h : Run e.handlers pool actions blocks rest) (hpool : AreReadable pool)
    (hcustom : ActionKind.customTransaction ∈ e.handlers) {us : List Transaction}
    (hus : e.resolveAll (actions ++ bundleOf rest) = .ok us) : us = blocks.flatten ++ rest := by
  obtain ⟨ts, ts', hts, hts', rfl⟩ := resolveAll_append_eq_ok.mp hus
  obtain rfl : ts' = rest := Except.ok.inj (hts'.symm.trans (resolveAll_bundleOf hcustom rest))
  rw [h.eq_of_resolveAll hpool hts]

/-- Behind actions that are no bundles, a bundle is the last action and holds what is left. -/
theorem eq_of_append_bundleOf {before after : List Action} {bundle : List Transaction}
    (hactions : ∀ a ∈ actions, a.kind? ≠ some .customTransaction)
    (h : actions ++ bundleOf rest = before ++ .customTransaction bundle :: after) :
    before = actions ∧ bundle = rest ∧ after = [] := by
  rcases append_cons_eq_append h.symm with ⟨between, rfl, -⟩ | ⟨between, rfl, hbundle⟩
  · exact absurd rfl (hactions (.customTransaction bundle) (by simp))
  · -- the bundle stands behind all actions
    cases rest with
    | nil => exact absurd hbundle (by simp [bundleOf])
    | cons t rest =>
      rcases List.append_eq_singleton_iff.mp hbundle with ⟨rfl, heq⟩ | ⟨-, heq⟩
      · cases heq
        exact ⟨List.append_nil _, rfl, rfl⟩
      · exact absurd heq (by simp)

/-! ## Conservation -/

theorem isSound_of_make {codecs : List TransactionKind} {handlers : List ActionKind}
    {entries : List (Int × List Contract)} {registry : Registry}
    (hentries : Registry.AreConforming entries) (hregistry : Registry.ofEntries entries = .ok registry)
    (he : make codecs handlers registry = .ok e) (chain : Int) : (e.registry.chain chain).IsSound := by
  rw [registry_of_make he]
  exact Registry.isSound_of_ofEntries hentries hregistry chain

/-- **Building conserves the pool.** From transactions that were read from proposals it gives at most as
    many actions as there are transactions, and further rounds of the loop would give no others; the
    actions resolve to a permutation of the pool, and a bundle only stands at the end and keeps the
    order of the pool. -/
theorem buildActions_conserves {codecs : List TransactionKind} {handlers : List ActionKind}
    (he : make codecs handlers Registry.builtInRegistry = .ok e)
    (hcustom : ActionKind.customTransaction ∈ handlers) {ts : List Transaction}
    (hts : ∀ t ∈ ts, ∃ w raws raw chain log, fromWire w = .ok raws ∧ raw ∈ raws ∧
      e.parseOne chain raw = .ok (t, log)) :
    ∃ actions log us, e.buildActions ts = .ok (actions, log) ∧
      (∀ fuel, ts.length ≤ fuel →
        takeActions e.handlers fuel ts = takeActions e.handlers ts.length ts) ∧
      actions.length ≤ ts.length ∧ e.resolveAll actions = .ok us ∧ us.Perm ts ∧
      ∀ before bundle after, actions = before ++ .customTransaction bundle :: after →
        (∀ a ∈ before, a.kind? ≠ some .customTransaction) ∧ after = [] ∧ bundle.Sublist ts := by
  have hread : ∀ t ∈ ts, t.IsReadable ∧ t.IsInRange := by
    intro t ht
    obtain ⟨w, raws, raw, chain, log, hraws, hraw, hparse⟩ := hts t ht
    have hsound := isSound_of_make Registry.areConforming_builtInEntries Registry.builtIn_eq_ok he chain
    have hvalue := isAmount_of_fromWire hraws hraw
    exact ⟨(readsBack_of_parseOne hsound hvalue.isNatural hparse).readable,
      isInRange_of_parseOne hsound hvalue hparse⟩
  have hreadable : AreReadable ts := fun t ht => (hread t ht).1
  have hhandlers : e.handlers = handlers := by rw [registry_of_make he]
  rw [← hhandlers] at hcustom
  -- the loop is a run, so the rest are facts about runs
  obtain ⟨actions, blocks, rest, hrun⟩ := exists_run e.handlers hreadable
  obtain ⟨log, hbuilt⟩ := buildActions_of_run hrun
  obtain ⟨lines, htaken⟩ := hrun.takeActions_eq
  have hlength : (actions ++ bundleOf rest).length ≤ ts.length := by
    have hrest := length_bundleOf_le rest
    have hall := hrun.length_le
    rw [List.length_append]
    omega
  refine ⟨actions ++ bundleOf rest, log, _, hbuilt, fun fuel hfuel => ?_, hlength,
    resolveAll_of_run hrun hreadable (fun t ht => (hread t ht).2) hcustom, hrun.perm,
    fun before bundle after heq => ?_⟩
  · rw [htaken fuel hfuel, htaken ts.length (Nat.le_refl _)]
  · have hkinds := hrun.kind_ne hreadable
    obtain ⟨rfl, rfl, rfl⟩ := eq_of_append_bundleOf hkinds heq
    exact ⟨hkinds, rfl, hrun.rest_sublist⟩

/-- The pool of two equal payments is conserved. -/
theorem buildActions_conserves_payments :
    ∃ actions log us,
      (standard Registry.builtInRegistry).buildActions [paymentRead, paymentRead] =
        .ok (actions, log) ∧
      (∀ fuel, 2 ≤ fuel → takeActions defaultHandlers fuel [paymentRead, paymentRead] =
        takeActions defaultHandlers 2 [paymentRead, paymentRead]) ∧
      actions.length ≤ 2 ∧ (standard Registry.builtInRegistry).resolveAll actions = .ok us ∧
      us.Perm [paymentRead, paymentRead] ∧
      ∀ before bundle after, actions = before ++ .customTransaction bundle :: after →
        (∀ a ∈ before, a.kind? ≠ some .customTransaction) ∧ after = [] ∧
          bundle.Sublist [paymentRead, paymentRead] := by
  obtain ⟨log, hparse⟩ := parseOne_payment
  refine buildActions_conserves (make_standard _) (by decide) fun t ht => ?_
  obtain rfl : t = paymentRead := by simpa using ht
  exact ⟨paymentProposal, [payment], payment, 1, log, fromWire_paymentProposal, List.mem_cons_self,
    hparse⟩

/-! ## Decomposing again -/

theorem decompose_eq_ok {chain : Int} {raws : List RawTransaction} :
    (∃ log, e.decompose chain raws = .ok (actions, log)) ↔
      ∃ ts, (∃ log, e.parse chain raws = .ok (ts, log)) ∧
        ∃ log, e.buildActions ts = .ok (actions, log) := by
  constructor
  · rintro ⟨log, h⟩
    obtain ⟨⟨ts, parsing⟩, hparse, h⟩ := bind_eq_ok.mp h
    obtain ⟨⟨actions', building⟩, hbuild, h⟩ := bind_eq_ok.mp h
    cases h
    exact ⟨ts, ⟨parsing, hparse⟩, building, hbuild⟩
  · rintro ⟨ts, ⟨parsing, hparse⟩, building, hbuild⟩
    unfold decompose
    simp only [hparse, ok_bind, hbuild]
    exact ⟨_, rfl⟩

/-- The actions of a proposal come from a run over what is read, and a bundle of what is left. -/
theorem exists_run_of_decompose {chain : Int} {raws : List RawTransaction} {log : Log}
    (hsound : (e.registry.chain chain).IsSound) (hvalues : ∀ raw ∈ raws, raw.value.IsNatural)
    (h : e.decompose chain raws = .ok (actions, log)) :
    ∃ ts taken blocks rest, (∃ log, e.parse chain raws = .ok (ts, log)) ∧
      (∀ t ∈ ts, ∃ raw, e.ReadsBack chain raw t) ∧ Run e.handlers ts taken blocks rest ∧
      actions = taken ++ bundleOf rest := by
  obtain ⟨ts, ⟨parsing, hparse⟩, building, hbuild⟩ := decompose_eq_ok.mp ⟨log, h⟩
  have hreads := readsBack_of_parse hsound hvalues hparse
  have hreadable : AreReadable ts := fun t ht => (hreads t ht).elim fun _ hread => hread.readable
  obtain ⟨taken, blocks, rest, hrun⟩ := exists_run e.handlers hreadable
  obtain ⟨lines, hbuilt⟩ := buildActions_of_run hrun
  rw [hbuild] at hbuilt
  exact ⟨ts, taken, blocks, rest, ⟨parsing, hparse⟩, hreads, hrun,
    congrArg Prod.fst (Except.ok.inj hbuilt)⟩

/-- The regrouped transactions of a run are written and read back. -/
theorem exists_unparse_of_run {chain : Int} (hreads : ∀ t ∈ pool, ∃ raw, e.ReadsBack chain raw t)
    (hrun : Run e.handlers pool actions blocks rest) :
    ∃ raws, e.unparse chain (blocks.flatten ++ rest) = .ok raws ∧
      ∃ log, e.parse chain raws = .ok (blocks.flatten ++ rest, log) := by
  have heach : ∀ t ∈ blocks.flatten ++ rest, ∃ raw, e.unparseOne chain t = .ok raw ∧
      ∃ line, e.parseOne chain raw = .ok (t, line) := by
    intro t ht
    obtain ⟨raw, hback⟩ := hreads t (hrun.perm.subset ht)
    obtain ⟨normal, -, hnormal⟩ := hback.written
    exact ⟨normal, hnormal⟩
  exact parse_unparse heach

/-- The actions of a run are written as its blocks and what is left, if values are in range. -/
theorem exists_encode_of_run {chain : Int} (hcustom : ActionKind.customTransaction ∈ e.handlers)
    (hreads : ∀ t ∈ pool, ∃ raw, e.ReadsBack chain raw t) (hrange : ∀ t ∈ pool, t.IsInRange)
    (hrun : Run e.handlers pool actions blocks rest) :
    ∃ raws, e.encode chain (actions ++ bundleOf rest) = .ok raws ∧
      ∃ log, e.parse chain raws = .ok (blocks.flatten ++ rest, log) := by
  have hreadable : AreReadable pool := fun t ht => (hreads t ht).elim fun _ hread => hread.readable
  obtain ⟨raws, hwritten, hread⟩ := exists_unparse_of_run hreads hrun
  refine ⟨raws, ?_, hread⟩
  unfold encode
  rw [resolveAll_of_run hrun hreadable hrange hcustom, ok_bind]
  exact hwritten

/-- Nothing else is written for them. -/
theorem parse_of_encode_run {chain : Int} (hcustom : ActionKind.customTransaction ∈ e.handlers)
    (hreads : ∀ t ∈ pool, ∃ raw, e.ReadsBack chain raw t)
    (hrun : Run e.handlers pool actions blocks rest) {raws : List RawTransaction}
    (h : e.encode chain (actions ++ bundleOf rest) = .ok raws) :
    ∃ log, e.parse chain raws = .ok (blocks.flatten ++ rest, log) := by
  have hreadable : AreReadable pool := fun t ht => (hreads t ht).elim fun _ hread => hread.readable
  obtain ⟨us, hus, h⟩ := bind_eq_ok.mp h
  obtain rfl := eq_of_resolveAll_run hrun hreadable hcustom hus
  obtain ⟨raws', hwritten, hread⟩ := exists_unparse_of_run hreads hrun
  obtain rfl : raws = raws' := Except.ok.inj (h.symm.trans hwritten)
  exact hread

/-- **Decomposing is stable.** The actions that a proposal is decomposed into can be written, and what is
    written is decomposed into the same actions in the same order: with any registry that keeps the
    well-known functions, any codecs, any chain, and any handlers with the bundle among them. -/
theorem decompose_encode {entries : List (Int × List Contract)} {registry : Registry}
    (hentries : Registry.AreConforming entries) (hregistry : Registry.ofEntries entries = .ok registry)
    {codecs : List TransactionKind} {handlers : List ActionKind}
    (he : make codecs handlers registry = .ok e)
    (hcustom : ActionKind.customTransaction ∈ handlers) {w : Wire} {raws : List RawTransaction}
    (hraws : fromWire w = .ok raws) {chain : Int} {log : Log}
    (h : e.decompose chain raws = .ok (actions, log)) :
    ∃ raws', e.encode chain actions = .ok raws' ∧
      ∃ log', e.decompose chain raws' = .ok (actions, log') := by
  have hhandlers : e.handlers = handlers := by rw [registry_of_make he]
  rw [← hhandlers] at hcustom
  have hsound := isSound_of_make hentries hregistry he chain
  obtain ⟨ts, taken, blocks, rest, ⟨parsing, hparse⟩, hreads, hrun, rfl⟩ := exists_run_of_decompose hsound
    (fun raw hraw => (isAmount_of_fromWire hraws hraw).isNatural) h
  have hreadable : AreReadable ts := fun t ht => (hreads t ht).elim fun _ hread => hread.readable
  have hrange := isInRange_of_parse hsound (fun raw hraw => isAmount_of_fromWire hraws hraw) hparse
  obtain ⟨raws', hencode, hread⟩ := exists_encode_of_run hcustom hreads hrange hrun
  exact ⟨raws', hencode, decompose_eq_ok.mpr ⟨_, hread, buildActions_of_run (hrun.repeat hreadable)⟩⟩

/-- A payment is found again. -/
theorem decompose_encode_payment :
    ∃ actions log raws', (standard Registry.builtInRegistry).decompose 1 [payment] =
        .ok (actions, log) ∧
      (standard Registry.builtInRegistry).encode 1 actions = .ok raws' ∧
      ∃ log', (standard Registry.builtInRegistry).decompose 1 raws' = .ok (actions, log') := by
  obtain ⟨line, hparse⟩ := parseOne_payment
  have hread : ∃ log, (standard Registry.builtInRegistry).parse 1 [payment] =
      .ok ([paymentRead], log) := by
    unfold parse
    rw [hparse]
    exact ⟨_, rfl⟩
  have hbuilt : ∃ log, (standard Registry.builtInRegistry).buildActions [paymentRead] =
      .ok ([.oneTimePayment (.text "0x0fd206fc7a7dbcd5661157edcb1ffdd0d02a61ff") (.currency .usdc)
        (.text "1")], log) := ⟨_, rfl⟩
  obtain ⟨log, h⟩ := decompose_eq_ok.mpr ⟨_, hread, hbuilt⟩
  obtain ⟨raws', hencode, hagain⟩ := decompose_encode Registry.areConforming_builtInEntries
    Registry.builtIn_eq_ok (make_standard _) (by decide) fromWire_paymentProposal h
  exact ⟨_, log, raws', h, hencode, hagain⟩

end Proposals.Engine
