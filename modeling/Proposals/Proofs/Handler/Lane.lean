import Proposals.Proofs.Outcome
import Proposals.Handler

/-!
# `Proofs.Handler.Lane` — what a builder sees of a pool

A builder only looks at the transactions of some kinds, its *lane*: the rest of the pool is passed over
and stays. So a builder does the same with a pool as with its lane alone (`DrawsFrom.restricts`), and
leaves all other lanes as they are (`DrawsFrom.leaves`). Two pools that agree lane by lane
(`SameLanes`) therefore look alike to every handler, however their transactions are interleaved, and
what is left of them agrees lane by lane again (`alike_buildAs`).

Nothing is assumed of the fields of the transactions, so builders that fail do so alike as well.
-/

namespace Proposals.Handler

open Proposals.Outcome

/-! ## Lanes -/

/-- Whether the transaction is of one of the kinds. -/
def isAmong (kinds : List TransactionKind) (t : Transaction) : Bool :=
  t.kind?.any fun kind => decide (kind ∈ kinds)

/-- The transactions of the given kinds, in the order of the pool. -/
def ofKinds (kinds : List TransactionKind) (pool : List Transaction) : List Transaction :=
  pool.filter (isAmong kinds)

/-- The kinds that builders look at together: those of a stream and its funding, and every other kind
    that is an action by itself. -/
def lanes : List (List TransactionKind) :=
  [transactionKinds .streamingPayment, [.transfer], transactionKinds .payerTopUp,
    transactionKinds .treasuryNounTransfer]

/-- Every transaction of the pool has a kind. -/
def HaveKinds (pool : List Transaction) : Prop := ∀ t ∈ pool, ∃ kind, t.kind? = some kind

variable {kinds lane : List TransactionKind} {kind : TransactionKind} {t : Transaction}
  {pool pool' left left' before after : List Transaction}

theorem isAmong_of_kind (h : t.kind? = some kind) : isAmong kinds t = decide (kind ∈ kinds) := by
  rw [isAmong, h, Option.any_some]

theorem isAmong_eq_true : isAmong kinds t = true ↔ ∃ kind, t.kind? = some kind ∧ kind ∈ kinds := by
  rw [isAmong]
  cases t.kind? <;> simp

theorem HaveKinds.sublist (h : HaveKinds pool) (hsub : left.Sublist pool) : HaveKinds left :=
  fun t ht => h t (hsub.subset ht)

theorem ofKinds_cons_of_mem (h : isAmong kinds t = true) :
    ofKinds kinds (t :: pool) = t :: ofKinds kinds pool := List.filter_cons_of_pos h

theorem ofKinds_cons_of_not_mem (h : isAmong kinds t = false) :
    ofKinds kinds (t :: pool) = ofKinds kinds pool := List.filter_cons_of_neg (by simp [h])

theorem ofKinds_append : ofKinds kinds (before ++ after) = ofKinds kinds before ++ ofKinds kinds after :=
  List.filter_append ..

/-- Different lanes have no kind in common. -/
theorem disjoint_of_lanes (hlane : lane ∈ lanes) {lane' : List TransactionKind}
    (hlane' : lane' ∈ lanes) (hne : lane' ≠ lane) : ∀ kind ∈ lane', kind ∉ lane := by
  revert lane' lane
  decide

/-! ## What is left -/

/-- Transactions of the kinds, at least one, are taken out of the pool; the others stay in order. -/
structure Leaves (kinds : List TransactionKind) (pool left : List Transaction) : Prop where
  sublist : left.Sublist pool
  shorter : left.length < pool.length
  others : ∀ lane, (∀ kind ∈ lane, kind ∉ kinds) → ofKinds lane left = ofKinds lane pool

theorem isAmong_eq_false_of_disjoint (h : ∀ kind ∈ lane, kind ∉ kinds) (ht : isAmong kinds t = true) :
    isAmong lane t = false := by
  obtain ⟨kind, hkind, hmem⟩ := isAmong_eq_true.mp ht
  rw [isAmong_of_kind hkind, decide_eq_false]
  exact fun hlane => h kind hlane hmem

theorem leaves_of_mem (ht : isAmong kinds t = true) :
    Leaves kinds (before ++ t :: after) (before ++ after) where
  sublist := (List.sublist_cons_self t after).append_left before
  shorter := by simp
  others lane hlane := by
    rw [ofKinds_append, ofKinds_append,
      ofKinds_cons_of_not_mem (isAmong_eq_false_of_disjoint hlane ht)]

theorem Leaves.trans {between : List Transaction} (h : Leaves kinds pool between)
    (h' : Leaves kinds between left) : Leaves kinds pool left where
  sublist := h'.sublist.trans h.sublist
  shorter := Nat.lt_trans h'.shorter h.shorter
  others lane hlane := (h'.others lane hlane).trans (h.others lane hlane)

theorem Leaves.append_left (h : Leaves kinds pool left) (before : List Transaction) :
    Leaves kinds (before ++ pool) (before ++ left) where
  sublist := h.sublist.append_left before
  shorter := by simpa using h.shorter
  others lane hlane := by rw [ofKinds_append, ofKinds_append, h.others lane hlane]

theorem Leaves.cons (h : Leaves kinds pool left) (t : Transaction) :
    Leaves kinds (t :: pool) (t :: left) := h.append_left [t]

/-! ## Looking for the first -/

variable {test : Transaction → Outcome Bool}

theorem splitFirst_sound (h : splitFirst test pool = .ok (some (before, t, after))) :
    pool = before ++ t :: after ∧ test t = .ok true := by
  induction pool generalizing before with
  | nil => exact absurd h (by simp [splitFirst])
  | cons u pool ih =>
    obtain ⟨passes, hu, h⟩ := bind_eq_ok.mp h
    cases passes with
    | true =>
      cases h
      exact ⟨rfl, hu⟩
    | false =>
      obtain ⟨found, hfound, h⟩ := bind_eq_ok.mp h
      obtain ⟨⟨front, v, back⟩, rfl, hsplit⟩ := Option.map_eq_some_iff.mp (Except.ok.inj h)
      cases hsplit
      obtain ⟨rfl, ht⟩ := ih hfound
      exact ⟨rfl, ht⟩

/-- Transactions that the test refuses may be left out of the pool. -/
theorem splitFirst_ofKinds (h : ∀ t ∈ pool, isAmong lane t = false → test t = .ok false) :
    splitFirst test (ofKinds lane pool) = (splitFirst test pool).map
      (Option.map fun (before, t, after) => (ofKinds lane before, t, ofKinds lane after)) := by
  induction pool with
  | nil => rfl
  | cons t pool ih =>
    have hpool := ih fun u hu => h u (List.mem_cons_of_mem _ hu)
    by_cases ht : isAmong lane t = true
    · rw [ofKinds_cons_of_mem ht, splitFirst, splitFirst]
      rcases test t with f | passes
      · rfl
      · cases passes with
        | true => rfl
        | false =>
          rw [ok_bind, ok_bind, hpool]
          rcases splitFirst test pool with f | found
          · rfl
          · rcases found with - | ⟨before, u, after⟩
            · rfl
            · exact congrArg (fun front => Except.ok (some (front, u, ofKinds lane after)))
                (ofKinds_cons_of_mem ht).symm
    · rw [Bool.not_eq_true] at ht
      rw [ofKinds_cons_of_not_mem ht, hpool, splitFirst, h t List.mem_cons_self ht, ok_bind]
      rcases splitFirst test pool with f | found
      · rfl
      · rcases found with - | ⟨before, u, after⟩
        · rfl
        · exact congrArg (fun front => Except.ok (some (front, u, ofKinds lane after)))
            (ofKinds_cons_of_not_mem ht).symm

/-! ## Builders that draw from a lane -/

/-- The builder does with a pool what it does with the transactions of the lane alone, and only takes
    such transactions out of it. -/
structure DrawsFrom {α : Type} (lane : List TransactionKind)
    (take : List Transaction → Outcome (Option (α × List Transaction))) : Prop where
  restricts : ∀ {pool}, HaveKinds pool →
    take (ofKinds lane pool) = (take pool).map (Option.map (Prod.map id (ofKinds lane)))
  leaves : ∀ {pool a left}, take pool = .ok (some (a, left)) → Leaves lane pool left

theorem isOfKind_of_kind {kind' : TransactionKind} (h : t.kind? = some kind') :
    isOfKind kind t = .ok (decide (kind' = kind)) := by
  unfold isOfKind Transaction.kind
  rw [h]
  rfl

theorem kind_of_isOfKind (h : isOfKind kind t = .ok true) : t.kind? = some kind := by
  obtain ⟨kind', hkind, h⟩ := bind_eq_ok.mp h
  unfold Transaction.kind at hkind
  split at hkind
  · next k hk =>
    rw [hk, Except.ok.inj hkind]
    exact congrArg some (of_decide_eq_true (Except.ok.inj h))
  · exact absurd hkind (by simp)

theorem takeFirst_sound {left : List Transaction} (h : takeFirst kind pool = .ok (some (t, left))) :
    t.kind? = some kind ∧ ∃ before after, pool = before ++ t :: after ∧ left = before ++ after := by
  obtain ⟨found, hfound, h⟩ := bind_eq_ok.mp h
  obtain ⟨⟨before, u, after⟩, rfl, hsplit⟩ := Option.map_eq_some_iff.mp (Except.ok.inj h)
  cases hsplit
  obtain ⟨rfl, ht⟩ := splitFirst_sound hfound
  exact ⟨kind_of_isOfKind ht, before, after, rfl, rfl⟩

theorem drawsFrom_takeFirst (hkind : kind ∈ lane) : DrawsFrom lane (takeFirst kind) where
  restricts {pool} hpool := by
    unfold takeFirst
    rw [splitFirst_ofKinds]
    · rcases splitFirst (isOfKind kind) pool with f | found
      · rfl
      · rcases found with - | ⟨before, t, after⟩
        · rfl
        · exact congrArg (fun rest => Except.ok (some (t, rest))) ofKinds_append.symm
    · intro t ht hlane
      obtain ⟨kind', hkind'⟩ := hpool t ht
      rw [isOfKind_of_kind hkind', decide_eq_false]
      rintro rfl
      rw [isAmong_of_kind hkind', decide_eq_true hkind] at hlane
      exact absurd hlane (by simp)
  leaves h := by
    obtain ⟨ht, before, after, rfl, rfl⟩ := takeFirst_sound h
    exact leaves_of_mem ((isAmong_of_kind ht).trans (decide_eq_true hkind))

/-! ### Streams with their funding -/

variable {s : Stream}

/-- The tests for the funding of a stream refuse everything that is not of its kinds. -/
theorem funding_refused (ht : t.kind? = some kind) (hkind : kind ∉ transactionKinds .streamingPayment) :
    paysStream s t = .ok false ∧ wrapsForStream s t = .ok false ∧ sendsToStream s t = .ok false := by
  cases t <;> cases ht <;> first | exact ⟨rfl, rfl, rfl⟩ | exact absurd (by decide) hkind

/-- What one of them accepts is of its kinds. -/
theorem isAmong_of_funding (h : paysStream s t = .ok true ∨ wrapsForStream s t = .ok true ∨
    sendsToStream s t = .ok true) : isAmong (transactionKinds .streamingPayment) t = true := by
  cases hkind : t.kind? with
  | none =>
    unfold paysStream wrapsForStream sendsToStream Transaction.kind at h
    rw [hkind] at h
    exact absurd h (by simp)
  | some kind =>
    rw [isAmong_of_kind hkind]
    refine decide_eq_true (by_contra fun hnot => ?_)
    obtain ⟨hpays, hwraps, hsends⟩ := funding_refused hkind hnot
    rw [hpays, hwraps, hsends] at h
    exact absurd h (by simp)

theorem splitFirst_funding (hpool : HaveKinds pool)
    (htest : test = paysStream s ∨ test = wrapsForStream s ∨ test = sendsToStream s) :
    splitFirst test (ofKinds (transactionKinds .streamingPayment) pool) = (splitFirst test pool).map
      (Option.map fun (before, t, after) => (ofKinds (transactionKinds .streamingPayment) before, t,
        ofKinds (transactionKinds .streamingPayment) after)) := by
  refine splitFirst_ofKinds fun t ht hlane => ?_
  obtain ⟨kind, hkind⟩ := hpool t ht
  rw [isAmong_of_kind hkind] at hlane
  obtain ⟨hpays, hwraps, hsends⟩ := funding_refused (s := s) hkind (of_decide_eq_false hlane)
  rcases htest with rfl | rfl | rfl
  · exact hpays
  · exact hwraps
  · exact hsends

theorem drawsFrom_takeFunding (s : Stream) :
    DrawsFrom (transactionKinds .streamingPayment) (takeFunding s) where
  restricts {pool} hpool := by
    unfold takeFunding
    split
    · -- stablecoin: one search
      rw [splitFirst_funding hpool (.inl rfl)]
      rcases splitFirst (paysStream s) pool with f | - | ⟨before, t, after⟩
      · rfl
      · rfl
      · exact congrArg (fun rest => Except.ok (some (Currency.usdc, rest))) ofKinds_append.symm
    · -- wrapped ether: the second search is behind what the first one finds
      rw [splitFirst_funding hpool (.inr (.inl rfl))]
      rcases hfirst : splitFirst (wrapsForStream s) pool with f | - | ⟨before, t, rest⟩
      · rfl
      · rfl
      · obtain ⟨rfl, -⟩ := splitFirst_sound hfirst
        have hrest : HaveKinds rest := hpool.sublist (by simp)
        show (splitFirst _ (ofKinds _ rest) >>= _) = _
        rw [splitFirst_funding hrest (.inr (.inr rfl))]
        simp only [ok_bind]
        rcases splitFirst (sendsToStream s) rest with f | - | ⟨between, u, after⟩
        · rfl
        · rfl
        · show Except.ok (some (Currency.weth, _)) = Except.ok (some (Currency.weth, _))
          rw [ofKinds_append, ofKinds_append]
    · rfl
  leaves {pool c left} h := by
    unfold takeFunding at h
    split at h
    · obtain ⟨found, hfound, h⟩ := bind_eq_ok.mp h
      obtain ⟨⟨before, t, after⟩, rfl, hsplit⟩ := Option.map_eq_some_iff.mp (Except.ok.inj h)
      cases hsplit
      obtain ⟨rfl, ht⟩ := splitFirst_sound hfound
      exact leaves_of_mem (isAmong_of_funding (.inl ht))
    · obtain ⟨first, hfirst, hbehind⟩ := bind_eq_ok.mp h
      rcases first with - | ⟨before, t, rest⟩
      · exact absurd hbehind (by simp)
      · obtain ⟨rfl, ht⟩ := splitFirst_sound hfirst
        obtain ⟨second, hsecond, hleft⟩ := bind_eq_ok.mp hbehind
        obtain ⟨⟨between, u, after⟩, rfl, hsplit⟩ := Option.map_eq_some_iff.mp (Except.ok.inj hleft)
        cases hsplit
        obtain ⟨rfl, hu⟩ := splitFirst_sound hsecond
        have hsent : Leaves (transactionKinds .streamingPayment) (between ++ u :: after)
            (between ++ after) := leaves_of_mem (isAmong_of_funding (.inr (.inr hu)))
        rw [List.append_assoc]
        exact (leaves_of_mem (isAmong_of_funding (.inr (.inl ht)))).trans (hsent.append_left before)
    · exact absurd h (by simp)

theorem isAmong_stream (s : Stream) :
    isAmong (transactionKinds .streamingPayment) (.stream s) = true := rfl

/-- A stream in front of the pool. -/
theorem buildStreamingPayment_stream (s : Stream) (rest : List Transaction) :
    buildStreamingPayment (.stream s :: rest) = (takeFunding s rest >>= fun funded =>
      match funded with
      | some (c, left) => streamingPaymentOf s c >>= fun a => .ok (some (a, left))
      | none => (buildStreamingPayment rest).map
          (Option.map fun (a, left) => (a, .stream s :: left))) := by
  rw [buildStreamingPayment]
  dsimp only
  rcases takeFunding s rest with f | - | ⟨c, left⟩
  · rfl
  · rfl
  · dsimp only [ok_bind]
    rcases streamingPaymentOf s c with f | a <;> rfl

/-- Any other transaction in front of the pool stays there. -/
theorem buildStreamingPayment_of_kind (ht : t.kind? = some kind) (hkind : kind ≠ .stream)
    (rest : List Transaction) : buildStreamingPayment (t :: rest) =
      (buildStreamingPayment rest).map (Option.map fun (a, left) => (a, t :: left)) := by
  rw [buildStreamingPayment]
  cases t <;> cases ht <;> first | rfl | exact absurd rfl hkind

theorem restricts_buildStreamingPayment (hpool : HaveKinds pool) :
    buildStreamingPayment (ofKinds (transactionKinds .streamingPayment) pool) =
      (buildStreamingPayment pool).map
        (Option.map (Prod.map id (ofKinds (transactionKinds .streamingPayment)))) := by
  induction pool with
  | nil => rfl
  | cons t pool ih =>
    have hrest : HaveKinds pool := hpool.sublist (List.sublist_cons_self _ _)
    obtain ⟨kind, hkind⟩ := hpool t List.mem_cons_self
    by_cases hstream : kind = .stream
    · subst hstream
      obtain ⟨s, rfl⟩ : ∃ s, t = .stream s := by cases t <;> cases hkind; exact ⟨_, rfl⟩
      rw [ofKinds_cons_of_mem (isAmong_stream s), buildStreamingPayment_stream,
        buildStreamingPayment_stream, (drawsFrom_takeFunding s).restricts hrest, ih hrest]
      rcases takeFunding s pool with f | - | ⟨c, left⟩
      · rfl
      · show Except.map _ (Except.map _ _) = Except.map _ (Except.map _ _)
        rcases buildStreamingPayment pool with f | - | ⟨a, left⟩
        · rfl
        · rfl
        · exact congrArg (fun rest => Except.ok (some (a, rest)))
            (ofKinds_cons_of_mem (isAmong_stream s)).symm
      · show streamingPaymentOf s c >>= _ = Except.map _ (streamingPaymentOf s c >>= _)
        rcases streamingPaymentOf s c with f | a <;> rfl
    · rw [buildStreamingPayment_of_kind hkind hstream]
      by_cases ht : isAmong (transactionKinds .streamingPayment) t = true
      · rw [ofKinds_cons_of_mem ht, buildStreamingPayment_of_kind hkind hstream, ih hrest]
        rcases buildStreamingPayment pool with f | - | ⟨a, left⟩
        · rfl
        · rfl
        · exact congrArg (fun rest => Except.ok (some (a, rest))) (ofKinds_cons_of_mem ht).symm
      · rw [Bool.not_eq_true] at ht
        rw [ofKinds_cons_of_not_mem ht, ih hrest]
        rcases buildStreamingPayment pool with f | - | ⟨a, left⟩
        · rfl
        · rfl
        · exact congrArg (fun rest => Except.ok (some (a, rest))) (ofKinds_cons_of_not_mem ht).symm

theorem leaves_buildStreamingPayment {a : Action}
    (h : buildStreamingPayment pool = .ok (some (a, left))) :
    Leaves (transactionKinds .streamingPayment) pool left := by
  induction pool generalizing left with
  | nil => exact absurd h (by simp [buildStreamingPayment])
  | cons t pool ih =>
    have hpassed : (buildStreamingPayment pool).map (Option.map fun (a, left) => (a, t :: left)) =
        .ok (some (a, left)) → Leaves (transactionKinds .streamingPayment) (t :: pool) left := by
      intro h
      obtain ⟨found, hfound, h⟩ := map_eq_ok.mp h
      obtain ⟨⟨b, rest⟩, rfl, hcons⟩ := Option.map_eq_some_iff.mp h
      cases hcons
      exact (ih hfound).cons t
    cases hkind : t.kind? with
    | none =>
      unfold buildStreamingPayment Transaction.kind at h
      rw [hkind] at h
      exact absurd h (by simp)
    | some kind =>
      by_cases hstream : kind = .stream
      · subst hstream
        obtain ⟨s, rfl⟩ : ∃ s, t = .stream s := by cases t <;> cases hkind; exact ⟨_, rfl⟩
        rw [buildStreamingPayment_stream] at h
        obtain ⟨funded, hfunded, h⟩ := bind_eq_ok.mp h
        rcases funded with - | ⟨c, rest⟩
        · exact hpassed h
        · obtain ⟨b, -, h⟩ := bind_eq_ok.mp h
          cases h
          have htaken : Leaves (transactionKinds .streamingPayment) ([] ++ .stream s :: pool)
              ([] ++ pool) := leaves_of_mem (isAmong_stream s)
          exact htaken.trans ((drawsFrom_takeFunding s).leaves hfunded)
      · rw [buildStreamingPayment_of_kind hkind hstream] at h
        exact hpassed h

theorem drawsFrom_buildStreamingPayment :
    DrawsFrom (transactionKinds .streamingPayment) buildStreamingPayment :=
  ⟨restricts_buildStreamingPayment, leaves_buildStreamingPayment⟩

/-! ## Two pools that look alike -/

/-- Pools of transactions with a kind that agree lane by lane, in whatever order the lanes are
    interleaved. -/
structure SameLanes (pool pool' : List Transaction) : Prop where
  same : ∀ lane ∈ lanes, ofKinds lane pool = ofKinds lane pool'
  kinds : HaveKinds pool
  kinds' : HaveKinds pool'

/-- Both searches fail alike, both find nothing, or what they find is related. -/
inductive Alike {α : Type} (R : α → α → Prop) : Outcome (Option α) → Outcome (Option α) → Prop
  | fault (f : Fault) : Alike R (.error f) (.error f)
  | nothing : Alike R (.ok none) (.ok none)
  | found {a b : α} (h : R a b) : Alike R (.ok (some a)) (.ok (some b))

/-- The same is taken out of two pools, and what is left of them agrees lane by lane. -/
def SameTaken {α : Type} (x y : α × List Transaction) : Prop := x.1 = y.1 ∧ SameLanes x.2 y.2

/-- **A builder that draws from a lane cannot tell such pools apart.** -/
theorem DrawsFrom.alike {α : Type} {take : List Transaction → Outcome (Option (α × List Transaction))}
    (h : DrawsFrom lane take) (hlane : lane ∈ lanes) (hsame : SameLanes pool pool') :
    Alike SameTaken (take pool) (take pool') := by
  have heq : (take pool).map (Option.map (Prod.map id (ofKinds lane))) =
      (take pool').map (Option.map (Prod.map id (ofKinds lane))) := by
    rw [← h.restricts hsame.kinds, ← h.restricts hsame.kinds', hsame.same lane hlane]
  rcases htake : take pool with f | - | ⟨a, left⟩ <;>
    rcases htake' : take pool' with f' | - | ⟨a', left'⟩ <;> rw [htake, htake'] at heq
  case error.error => exact Except.error.inj heq ▸ .fault f
  case ok.none.ok.none => exact .nothing
  case ok.some.ok.some =>
    obtain ⟨rfl, hleft⟩ := Prod.mk.inj (Option.some.inj (Except.ok.inj heq))
    refine .found ⟨rfl, fun lane' hlane' => ?_, hsame.kinds.sublist (h.leaves htake).sublist,
      hsame.kinds'.sublist (h.leaves htake').sublist⟩
    by_cases hne : lane' = lane
    · rw [hne]
      exact hleft
    · -- the other lanes are left as they are in both pools
      have hother := disjoint_of_lanes hlane hlane' hne
      rw [(h.leaves htake).others lane' hother, (h.leaves htake').others lane' hother]
      exact hsame.same lane' hlane'
  all_goals exact absurd heq nofun

/-- Searches that go on alike. -/
theorem Alike.bind {α β : Type} {R : α → α → Prop} {S : β → β → Prop} {x y : Outcome (Option α)}
    {f g : Option α → Outcome (Option β)} (h : Alike R x y) (hnothing : Alike S (f none) (g none))
    (hfound : ∀ {a b}, R a b → Alike S (f (some a)) (g (some b))) : Alike S (x >>= f) (y >>= g) := by
  cases h with
  | fault f => exact .fault f
  | nothing => exact hnothing
  | found hR => exact hfound hR

/-- The same action with what is left. -/
theorem alike_of_amount {β : Type} (amount : Outcome β) (make : β → Action)
    (h : SameLanes left left') :
    Alike SameTaken (amount >>= fun v => .ok (some (make v, left)))
      (amount >>= fun v => .ok (some (make v, left'))) := by
  rcases amount with f | v
  · exact .fault f
  · exact .found ⟨rfl, h⟩

/-- The first transaction of a kind that has a lane is the same in both pools. -/
theorem alike_takeFirst (kind : TransactionKind) (lane : List TransactionKind) (hkind : kind ∈ lane)
    (hlane : lane ∈ lanes) (h : SameLanes pool pool') :
    Alike SameTaken (takeFirst kind pool) (takeFirst kind pool') :=
  (drawsFrom_takeFirst hkind).alike hlane h

/-- A payment from the first sending of stablecoin. -/
def usdcPaymentOf : Option (Transaction × List Transaction) → Outcome (Option Built)
  | some (.usdcTransferViaPayer receiver amount, rest) => do
    return some (.oneTimePayment receiver (.currency .usdc) (← amountIn .usdc amount), rest)
  | _ => .ok none

theorem alike_usdcPaymentOf (h : SameLanes pool pool') :
    Alike SameTaken (takeFirst .usdcTransferViaPayer pool >>= usdcPaymentOf)
      (takeFirst .usdcTransferViaPayer pool' >>= usdcPaymentOf) := by
  refine (alike_takeFirst .usdcTransferViaPayer (transactionKinds .streamingPayment) (by decide)
    (by decide) h).bind .nothing ?_
  rintro ⟨t, left⟩ ⟨-, left'⟩ ⟨rfl, hleft⟩
  cases t with
  | usdcTransferViaPayer receiver amount =>
    exact alike_of_amount _ (.oneTimePayment receiver (.currency .usdc)) hleft
  | _ => exact .nothing

theorem alike_buildOneTimePayment (h : SameLanes pool pool') :
    Alike SameTaken (buildOneTimePayment pool) (buildOneTimePayment pool') := by
  refine (alike_takeFirst .transfer [.transfer] (by decide) (by decide) h).bind
    (alike_usdcPaymentOf h) ?_
  rintro ⟨t, left⟩ ⟨-, left'⟩ ⟨rfl, hleft⟩
  cases t with
  | transfer target value => exact alike_of_amount _ (.oneTimePayment target (.currency .eth)) hleft
  | _ => exact alike_usdcPaymentOf h

theorem alike_buildPayerTopUp (h : SameLanes pool pool') :
    Alike SameTaken (buildPayerTopUp pool) (buildPayerTopUp pool') := by
  refine (alike_takeFirst .payerTopUp (transactionKinds .payerTopUp) (by decide) (by decide) h).bind
    .nothing ?_
  rintro ⟨t, left⟩ ⟨-, left'⟩ ⟨rfl, hleft⟩
  cases t with
  | payerTopUp value => exact alike_of_amount _ .payerTopUp hleft
  | _ => exact .nothing

theorem alike_buildTreasuryNounTransfer (h : SameLanes pool pool') :
    Alike SameTaken (buildTreasuryNounTransfer pool) (buildTreasuryNounTransfer pool') := by
  refine (alike_takeFirst .treasuryNounTransfer (transactionKinds .treasuryNounTransfer) (by decide)
    (by decide) h).bind .nothing ?_
  rintro ⟨t, left⟩ ⟨-, left'⟩ ⟨rfl, hleft⟩
  cases t with
  | treasuryNounTransfer receiver nounId => exact .found ⟨rfl, hleft⟩
  | _ => exact .nothing

/-- **No handler can tell apart pools that agree lane by lane.** -/
theorem alike_buildAs (k : ActionKind) (h : SameLanes pool pool') :
    Alike SameTaken (buildAs k pool) (buildAs k pool') := by
  cases k with
  | oneTimePayment => exact alike_buildOneTimePayment h
  | streamingPayment => exact drawsFrom_buildStreamingPayment.alike (by decide) h
  | payerTopUp => exact alike_buildPayerTopUp h
  | treasuryNounTransfer => exact alike_buildTreasuryNounTransfer h
  | customTransaction => exact .nothing

/-! ## Every action takes something -/

theorem length_of_takeFirst (h : takeFirst kind pool = .ok (some (t, left))) :
    left.length < pool.length := by
  obtain ⟨-, before, after, rfl, rfl⟩ := takeFirst_sound h
  simp

theorem length_of_usdcPaymentOf {a : Action}
    (h : (takeFirst .usdcTransferViaPayer pool >>= usdcPaymentOf) = .ok (some (a, left))) :
    left.length < pool.length := by
  obtain ⟨found, hfound, h⟩ := bind_eq_ok.mp h
  unfold usdcPaymentOf at h
  split at h
  · obtain ⟨v, -, h⟩ := bind_eq_ok.mp h
    cases h
    exact length_of_takeFirst hfound
  · exact absurd h (by simp)

theorem length_of_buildAs {k : ActionKind} {a : Action} (h : buildAs k pool = .ok (some (a, left))) :
    left.length < pool.length := by
  cases k with
  | streamingPayment => exact (leaves_buildStreamingPayment h).shorter
  | customTransaction => exact absurd h (by simp [buildAs])
  | oneTimePayment =>
    obtain ⟨found, hfound, h⟩ := bind_eq_ok.mp h
    split at h
    · obtain ⟨v, -, h⟩ := bind_eq_ok.mp h
      cases h
      exact length_of_takeFirst hfound
    · exact length_of_usdcPaymentOf h
  | payerTopUp =>
    obtain ⟨found, hfound, h⟩ := bind_eq_ok.mp h
    split at h
    · obtain ⟨v, -, h⟩ := bind_eq_ok.mp h
      cases h
      exact length_of_takeFirst hfound
    · exact absurd h (by simp)
  | treasuryNounTransfer =>
    obtain ⟨found, hfound, h⟩ := bind_eq_ok.mp h
    split at h
    · cases h
      exact length_of_takeFirst hfound
    · exact absurd h (by simp)

end Proposals.Handler
