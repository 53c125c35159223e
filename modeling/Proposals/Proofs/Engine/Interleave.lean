import Proposals.Proofs.Engine.Decompose
import Proposals.Proofs.Handler.Lane
import Proposals.Proofs.Parse

/-!
# `Proofs.Engine.Interleave` — the order between lanes does not matter

No handler can tell apart pools that agree lane by lane, and what it leaves of them agrees lane by lane
again. So the loop that takes actions out of a pool goes the same way on both of them, one round after
the other (`map_takeActions_of_sameLanes`), although the pools may have different sizes and the
transactions may stand at different places in every round. Only the bundle of what is left shows how
they were interleaved.
-/

namespace Proposals.Engine

open Proposals.Codec Proposals.Handler Proposals.Outcome

variable {handlers : List ActionKind} {pool pool' left : List Transaction} {fuel : Nat}

/-! ## One round -/

/-- The same handler builds the same action, and the rests agree lane by lane. -/
def SameBuilt (x y : ActionKind × Built) : Prop := x.1 = y.1 ∧ SameTaken x.2 y.2

theorem alike_firstBuilt (handlers : List ActionKind) (h : SameLanes pool pool') :
    Alike SameBuilt (firstBuilt pool handlers) (firstBuilt pool' handlers) := by
  induction handlers with
  | nil => exact .nothing
  | cons k handlers ih => exact (alike_buildAs k h).bind ih fun hR => .found ⟨rfl, hR⟩

theorem length_of_firstBuilt {k : ActionKind} {a : Action}
    (h : firstBuilt pool handlers = .ok (some (k, a, left))) : left.length < pool.length := by
  induction handlers with
  | nil => exact absurd h (by simp [firstBuilt])
  | cons first handlers ih =>
    obtain ⟨built, hbuilt, h⟩ := bind_eq_ok.mp h
    cases built with
    | none => exact ih h
    | some built =>
      cases h
      exact length_of_buildAs hbuilt

theorem firstBuilt_nil (handlers : List ActionKind) : firstBuilt [] handlers = .ok none := by
  induction handlers with
  | nil => rfl
  | cons k handlers ih => cases k <;> exact ih

/-- A pool on which something else happens than on the empty pool is not empty. -/
theorem isEmpty_eq_false (h : firstBuilt pool handlers ≠ .ok none) : pool.isEmpty = false := by
  cases pool with
  | nil => exact absurd (firstBuilt_nil handlers) h
  | cons t pool => rfl

theorem exists_fuel (h : pool.isEmpty = false) (hfuel : pool.length ≤ fuel) : ∃ n, fuel = n + 1 := by
  cases fuel with
  | zero =>
    obtain rfl := List.length_eq_zero_iff.mp (Nat.le_zero.mp hfuel)
    exact absurd h (by simp)
  | succ n => exact ⟨n, rfl⟩

/-! ### What a round decides about the loop -/

theorem takeActions_of_error {f : Fault} (h : firstBuilt pool handlers = .error f)
    (hfuel : pool.length ≤ fuel) : takeActions handlers fuel pool = .error f := by
  have hempty := isEmpty_eq_false (by rw [h]; exact nofun)
  obtain ⟨n, rfl⟩ := exists_fuel hempty hfuel
  unfold takeActions
  simp only [hempty, h, Bool.false_eq_true, if_false, error_bind]

theorem takeActions_of_none (h : firstBuilt pool handlers = .ok none) :
    takeActions handlers fuel pool = .ok (([], pool), []) := by
  cases fuel with
  | zero => rfl
  | succ n =>
    unfold takeActions
    cases pool with
    | nil => rfl
    | cons t pool =>
      rw [h]
      rfl

theorem map_takeActions_of_some {k : ActionKind} {a : Action}
    (h : firstBuilt pool handlers = .ok (some (k, a, left))) (hfuel : pool.length ≤ fuel) :
    (takeActions handlers fuel pool).map (·.1.1) =
      ((takeActions handlers (fuel - 1) left).map (·.1.1)).map (a :: ·) := by
  have hempty := isEmpty_eq_false (by rw [h]; exact nofun)
  obtain ⟨n, rfl⟩ := exists_fuel hempty hfuel
  rw [takeActions, Nat.add_sub_cancel]
  simp only [hempty, h, Bool.false_eq_true, if_false, ok_bind]
  rcases takeActions handlers n left with f | ⟨⟨actions, rest⟩, lines⟩ <;> rfl

/-! ## The whole loop -/

/-- **The loop takes the same actions, in the same order, out of pools that agree lane by lane**, or fails
    alike on both. -/
theorem map_takeActions_of_sameLanes {fuel' : Nat} (h : SameLanes pool pool')
    (hfuel : pool.length ≤ fuel) (hfuel' : pool'.length ≤ fuel') :
    (takeActions handlers fuel pool).map (·.1.1) = (takeActions handlers fuel' pool').map (·.1.1) := by
  -- every round makes the pools shorter, and leaves fuel for what is left of them
  induction hn : pool.length using Nat.strong_induction_on generalizing pool pool' fuel fuel' with
  | _ n ih =>
    have hround := alike_firstBuilt handlers h
    generalize hx : firstBuilt pool handlers = x at hround
    generalize hy : firstBuilt pool' handlers = y at hround
    cases hround with
    | fault f => rw [takeActions_of_error hx hfuel, takeActions_of_error hy hfuel']
    | nothing => rw [takeActions_of_none hx, takeActions_of_none hy]; rfl
    | @found built built' hsame =>
      obtain ⟨k, a, left⟩ := built
      obtain ⟨k', a', left'⟩ := built'
      obtain ⟨-, haction, hleft⟩ := hsame
      obtain rfl : a = a' := haction
      have hrest : SameLanes left left' := hleft
      have hshort := length_of_firstBuilt hx
      have hshort' := length_of_firstBuilt hy
      rw [map_takeActions_of_some hx hfuel, map_takeActions_of_some hy hfuel']
      exact congrArg _ (ih left.length (hn ▸ hshort) hrest (by omega) (by omega) rfl)

/-! ## Actions that handlers build -/

/-- The actions that are no bundles, in order. -/
def ownActions (actions : List Action) : List Action :=
  actions.filter fun a => a.kind? ≠ some .customTransaction

theorem ownActions_append_bundle (actions : List Action) (bundle : List Transaction) :
    ownActions (actions ++ [.customTransaction bundle]) = ownActions actions := by
  rw [ownActions, List.filter_append, List.filter_cons_of_neg (by simp [Action.kind?]), List.filter_nil,
    List.append_nil]
  rfl

/-- The bundle at the end is none of them. -/
theorem map_ownActions_buildActions (e : Engine) (pool : List Transaction) :
    (e.buildActions pool).map (fun r => ownActions r.1) =
      ((takeActions e.handlers pool.length pool).map (·.1.1)).map ownActions := by
  unfold buildActions
  rcases takeActions e.handlers pool.length pool with f | ⟨⟨actions, left⟩, lines⟩
  · rfl
  · simp only [ok_bind]
    split
    · rfl
    · exact congrArg Except.ok (ownActions_append_bundle actions left)

/-! ## Transactions that are read -/

/-- Some engine with the registry reads the transaction from a raw transaction of a proposal. -/
def IsRead (registry : Registry) (t : Transaction) : Prop :=
  ∃ (e : Engine) (chain : Int) (w : Wire) (raws : List RawTransaction) (raw : RawTransaction) (log : Log),
    e.registry = registry ∧ fromWire w = .ok raws ∧ raw ∈ raws ∧ e.parseOne chain raw = .ok (t, log)

variable {registry : Registry} {t : Transaction} {ts us : List Transaction}

theorem IsRead.exists_kind (h : IsRead registry t) : ∃ kind, t.kind? = some kind := by
  obtain ⟨e, chain, w, raws, raw, log, -, -, -, hparse⟩ := h
  obtain ⟨⟨kind, u⟩, hfound, hone⟩ := bind_eq_ok.mp hparse
  cases hone
  exact ⟨kind, (parses_of_parseAs (firstParsed_sound hfound).2).2⟩

theorem IsRead.isReadable {entries : List (Int × List Contract)}
    (hentries : Registry.AreConforming entries) (hregistry : Registry.ofEntries entries = .ok registry)
    (h : IsRead registry t) : t.IsReadable := by
  obtain ⟨e, chain, w, raws, raw, log, rfl, hraws, hraw, hparse⟩ := h
  exact (readsBack_of_parseOne (Registry.isSound_of_ofEntries hentries hregistry chain)
    (isAmount_of_fromWire hraws hraw).isNatural hparse).readable

/-- **Only the order within lanes matters.** Let two lists of transactions, read from proposals in any
    registry, have the same streams and transactions that fund streams in the same order, and likewise
    the same transfers, the same top-ups and the same transfers of nouns, while their interleaving and
    all other transactions may differ. Then they are built into the same actions in the same order, up
    to the bundle, or building fails alike; and in a registry that keeps the well-known functions it
    does not fail. -/
theorem buildActions_of_lanes (e : Engine) (hts : ∀ t ∈ ts, IsRead registry t)
    (hus : ∀ t ∈ us, IsRead registry t) (hlanes : ∀ lane ∈ lanes, ofKinds lane ts = ofKinds lane us) :
    (e.buildActions ts).map (fun r => ownActions r.1) = (e.buildActions us).map (fun r => ownActions r.1) ∧
      ∀ entries, Registry.AreConforming entries → Registry.ofEntries entries = .ok registry →
        ∃ actions log actions' log', e.buildActions ts = .ok (actions, log) ∧
          e.buildActions us = .ok (actions', log') ∧ ownActions actions = ownActions actions' := by
  have hsame : SameLanes ts us :=
    ⟨hlanes, fun t ht => (hts t ht).exists_kind, fun t ht => (hus t ht).exists_kind⟩
  have heq : (e.buildActions ts).map (fun r => ownActions r.1) =
      (e.buildActions us).map (fun r => ownActions r.1) := by
    rw [map_ownActions_buildActions, map_ownActions_buildActions,
      map_takeActions_of_sameLanes hsame (Nat.le_refl _) (Nat.le_refl _)]
  refine ⟨heq, fun entries hentries hregistry => ?_⟩
  have hbuilds : ∀ {ts}, (∀ t ∈ ts, IsRead registry t) → ∃ actions log, e.buildActions ts =
      .ok (actions, log) := by
    intro ts hts
    obtain ⟨actions, blocks, rest, hrun⟩ := exists_run e.handlers fun t ht =>
      (hts t ht).isReadable hentries hregistry
    exact ⟨_, buildActions_of_run hrun⟩
  obtain ⟨actions, log, hactions⟩ := hbuilds hts
  obtain ⟨actions', log', hactions'⟩ := hbuilds hus
  rw [hactions, hactions'] at heq
  exact ⟨actions, log, actions', log', hactions, hactions', Except.ok.inj heq⟩

/-! ### A transfer and a payment -/

/-- A proposal that only sends ether. -/
def transferProposal : Wire where
  targets := [.text "0xDDdDddDdDdddDDddDDddDDDDdDdDDdDDdDDDDDDd"]
  values := [.text "5"]
  signatures := [.text ""]
  calldatas := [.text "0x"]

/-- What it does. -/
def transferRead : Transaction :=
  .transfer (.text "0xdddddddddddddddddddddddddddddddddddddddd") (.int 5)

set_option maxRecDepth 2000 in
theorem isRead_transferRead : IsRead Registry.builtInRegistry transferRead :=
  ⟨standard _, 1, transferProposal, [⟨.text "0xDDdDddDdDdddDDddDDddDDDDdDdDDdDDdDDDDDDd", .text "",
    .text "0x", .int 5⟩], _, _, rfl, rfl, List.mem_cons_self, rfl⟩

theorem isRead_paymentRead : IsRead Registry.builtInRegistry paymentRead := by
  obtain ⟨log, hparse⟩ := parseOne_payment
  exact ⟨standard _, 1, paymentProposal, [payment], payment, log, rfl, fromWire_paymentProposal,
    List.mem_cons_self, hparse⟩

/-- They may change places. -/
theorem buildActions_of_lanes_transfer :
    ((standard Registry.builtInRegistry).buildActions [transferRead, paymentRead]).map
        (fun r => ownActions r.1) =
      ((standard Registry.builtInRegistry).buildActions [paymentRead, transferRead]).map
        (fun r => ownActions r.1) ∧
      ∃ actions log actions' log', (standard Registry.builtInRegistry).buildActions
          [transferRead, paymentRead] = .ok (actions, log) ∧
        (standard Registry.builtInRegistry).buildActions [paymentRead, transferRead] =
          .ok (actions', log') ∧ ownActions actions = ownActions actions' := by
  have hread : ∀ t ∈ [transferRead, paymentRead], IsRead Registry.builtInRegistry t := by
    rintro t (- | ⟨-, - | ⟨-, ⟨⟩⟩⟩)
    · exact isRead_transferRead
    · exact isRead_paymentRead
  have hlanes : ∀ lane ∈ lanes,
      ofKinds lane [transferRead, paymentRead] = ofKinds lane [paymentRead, transferRead] := by
    rintro lane (- | ⟨-, - | ⟨-, - | ⟨-, - | ⟨-, ⟨⟩⟩⟩⟩⟩) <;> rfl
  obtain ⟨heq, hbuilds⟩ := buildActions_of_lanes (standard Registry.builtInRegistry) hread
    (fun t ht => hread t ((List.Perm.swap _ _ _).subset ht)) hlanes
  exact ⟨heq, hbuilds _ Registry.areConforming_builtInEntries Registry.builtIn_eq_ok⟩

end Proposals.Engine
