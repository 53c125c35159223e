import Proposals.Engine
import Proposals.Proofs.Outcome

/-!
# `Proofs.Build` — the actions that handlers build

Handlers take transactions out of a pool and put their fields into an action, without looking at what
they are. `BuiltFrom` lists the actions that can come out, once for all handlers and for any pool, so
that what holds of all actions that are built is shown by cases of it. An action has the fields of the first
transaction that is taken (`builtFrom_firstTaken`); others only fund it.
-/

namespace Proposals.Handler

open Proposals.Outcome

variable {pool left : List Transaction} {a : Action}

/-- **What a handler builds** from a pool: the action has the fields of a transaction of the pool, its
    amount in the written form. -/
inductive BuiltFrom (pool : List Transaction) : Action → Prop
  | transfer {target value amount : Value} (hmem : .transfer target value ∈ pool)
      (hamount : amountIn .eth value = .ok amount) :
      BuiltFrom pool (.oneTimePayment target (.currency .eth) amount)
  | usdcTransfer {receiver units amount : Value} (hmem : .usdcTransferViaPayer receiver units ∈ pool)
      (hamount : amountIn .usdc units = .ok amount) :
      BuiltFrom pool (.oneTimePayment receiver (.currency .usdc) amount)
  | stream {s : Stream} {c : Currency} {amount : Value} (hmem : .stream s ∈ pool)
      (htoken : s.token = .currency c) (hamount : amountIn c s.amount = .ok amount) :
      BuiltFrom pool (.streamingPayment
        ⟨s.receiver, s.token, amount, s.start, s.stop, s.contract, s.nonce⟩)
  | topUp {value amount : Value} (hmem : .payerTopUp value ∈ pool)
      (hamount : amountIn .eth value = .ok amount) : BuiltFrom pool (.payerTopUp amount)
  | nounTransfer {receiver nounId : Value} (hmem : .treasuryNounTransfer receiver nounId ∈ pool) :
      BuiltFrom pool (.treasuryNounTransfer receiver nounId)

theorem BuiltFrom.subset {pool' : List Transaction} (h : BuiltFrom pool a) (hsub : pool ⊆ pool') :
    BuiltFrom pool' a := by
  cases h with
  | transfer hmem hamount => exact .transfer (hsub hmem) hamount
  | usdcTransfer hmem hamount => exact .usdcTransfer (hsub hmem) hamount
  | stream hmem htoken hamount => exact .stream (hsub hmem) htoken hamount
  | topUp hmem hamount => exact .topUp (hsub hmem) hamount
  | nounTransfer hmem => exact .nounTransfer (hsub hmem)

/-- The other transactions of the pool do not matter. -/
theorem BuiltFrom.exists_singleton (h : BuiltFrom pool a) : ∃ t ∈ pool, BuiltFrom [t] a := by
  cases h with
  | transfer hmem hamount => exact ⟨_, hmem, .transfer (List.mem_singleton_self _) hamount⟩
  | usdcTransfer hmem hamount => exact ⟨_, hmem, .usdcTransfer (List.mem_singleton_self _) hamount⟩
  | stream hmem htoken hamount => exact ⟨_, hmem, .stream (List.mem_singleton_self _) htoken hamount⟩
  | topUp hmem hamount => exact ⟨_, hmem, .topUp (List.mem_singleton_self _) hamount⟩
  | nounTransfer hmem => exact ⟨_, hmem, .nounTransfer (List.mem_singleton_self _)⟩

/-! ## Looking in a pool -/

/-- What is found and what stands around it make up the pool. -/
theorem eq_of_splitFirst {test : Transaction → Outcome Bool} {before after : List Transaction}
    {t : Transaction} (h : splitFirst test pool = .ok (some (before, t, after))) :
    pool = before ++ t :: after := by
  induction pool generalizing before t after with
  | nil => exact absurd h nofun
  | cons u pool ih =>
    obtain ⟨passes, -, h⟩ := bind_eq_ok.mp h
    cases passes with
    | true => cases h; rfl
    | false =>
      obtain ⟨found, hfound, h⟩ := bind_eq_ok.mp h
      obtain ⟨⟨before', t', after'⟩, rfl, heq⟩ := Option.map_eq_some_iff.mp (Except.ok.inj h)
      cases heq
      rw [ih hfound]
      rfl

/-- The transaction is the first that is taken: all before it is left, and some of what is after it. -/
def IsFirstTaken (pool left : List Transaction) (t : Transaction) : Prop :=
  ∃ before after kept, pool = before ++ t :: after ∧ left = before ++ kept ∧ kept.Sublist after

namespace IsFirstTaken

variable {t : Transaction}

theorem mem (h : IsFirstTaken pool left t) : t ∈ pool := by
  obtain ⟨before, after, kept, rfl, rfl, -⟩ := h
  exact List.mem_append_right before List.mem_cons_self

theorem sublist (h : IsFirstTaken pool left t) : left.Sublist pool := by
  obtain ⟨before, after, kept, rfl, rfl, hkept⟩ := h
  exact (hkept.cons t).append_left before

/-- Another transaction in front of the pool stays there. -/
theorem cons (u : Transaction) (h : IsFirstTaken pool left t) : IsFirstTaken (u :: pool) (u :: left) t := by
  obtain ⟨before, after, kept, rfl, rfl, hkept⟩ := h
  exact ⟨u :: before, after, kept, rfl, rfl, hkept⟩

end IsFirstTaken

theorem isFirstTaken_of_takeFirst {kind : TransactionKind} {t : Transaction}
    (h : takeFirst kind pool = .ok (some (t, left))) : IsFirstTaken pool left t := by
  obtain ⟨found, hfound, h⟩ := bind_eq_ok.mp h
  obtain ⟨⟨before, t', after⟩, rfl, heq⟩ := Option.map_eq_some_iff.mp (Except.ok.inj h)
  cases heq
  exact ⟨before, after, after, eq_of_splitFirst hfound, rfl, .refl after⟩

/-- The funding of a stream is for its token and comes out of the transactions after it. -/
theorem takeFunding_sound {s : Stream} {c : Currency} {after : List Transaction}
    (h : takeFunding s after = .ok (some (c, left))) : s.token = .currency c ∧ left.Sublist after := by
  unfold takeFunding at h
  split at h
  · next htoken =>
    obtain ⟨found, hfound, h⟩ := bind_eq_ok.mp h
    obtain ⟨⟨before, t, rest⟩, rfl, heq⟩ := Option.map_eq_some_iff.mp (Except.ok.inj h)
    cases heq
    rw [eq_of_splitFirst hfound]
    exact ⟨htoken, (List.sublist_cons_self t rest).append_left before⟩
  · next htoken =>
    obtain ⟨wrapped, hwrapped, h⟩ := bind_eq_ok.mp h
    cases wrapped with
    | none => exact absurd h nofun
    | some wrapped =>
      obtain ⟨before, t, behind⟩ := wrapped
      obtain ⟨found, hfound, h⟩ := bind_eq_ok.mp h
      obtain ⟨⟨between, u, rest⟩, rfl, heq⟩ := Option.map_eq_some_iff.mp (Except.ok.inj h)
      cases heq
      have hbehind : (between ++ rest).Sublist (t :: (between ++ u :: rest)) :=
        ((List.sublist_cons_self u rest).append_left between).cons t
      rw [eq_of_splitFirst hwrapped, eq_of_splitFirst hfound, List.append_assoc]
      exact ⟨htoken, hbehind.append_left before⟩
  · exact absurd h nofun

/-! ## Each handler -/

theorem builtFrom_of_streamingPayment (h : buildStreamingPayment pool = .ok (some (a, left))) :
    ∃ s, IsFirstTaken pool left (.stream s) ∧ BuiltFrom [.stream s] a := by
  induction pool generalizing a left with
  | nil => cases h
  | cons t pool ih =>
    -- where the transaction is no funded stream, the action comes from the others
    have hothers : ∀ {a left}, (buildStreamingPayment pool >>= fun found => pure (found.map
        fun built => (built.1, t :: built.2))) = .ok (some (a, left)) →
        ∃ s, IsFirstTaken (t :: pool) left (.stream s) ∧ BuiltFrom [.stream s] a := by
      intro a left h
      obtain ⟨found, hfound, h⟩ := bind_eq_ok.mp h
      obtain ⟨⟨a', left'⟩, rfl, heq⟩ := Option.map_eq_some_iff.mp (Except.ok.inj h)
      cases heq
      obtain ⟨s, hfirst, hbuilt⟩ := ih hfound
      exact ⟨s, hfirst.cons t, hbuilt⟩
    obtain ⟨_, -, h⟩ := bind_eq_ok.mp h
    dsimp only at h
    split at h
    · next s _ =>
      obtain ⟨taken, htaken, h⟩ := bind_eq_ok.mp h
      cases taken with
      | none => exact hothers h
      | some taken =>
        obtain ⟨c, rest⟩ := taken
        obtain ⟨a', haction, h⟩ := bind_eq_ok.mp h
        cases h
        obtain ⟨amount, hamount, haction⟩ := bind_eq_ok.mp haction
        cases haction
        obtain ⟨htoken, hsub⟩ := takeFunding_sound htaken
        exact ⟨s, ⟨[], pool, left, rfl, rfl, hsub⟩, .stream (List.mem_singleton_self _) htoken hamount⟩
    · exact hothers h

theorem builtFrom_of_oneTimePayment (h : buildOneTimePayment pool = .ok (some (a, left))) :
    ∃ t, IsFirstTaken pool left t ∧ BuiltFrom [t] a := by
  obtain ⟨found, hfound, h⟩ := bind_eq_ok.mp h
  split at h
  · next target value rest =>
    obtain ⟨amount, hamount, h⟩ := bind_eq_ok.mp h
    cases h
    exact ⟨_, isFirstTaken_of_takeFirst hfound, .transfer (List.mem_singleton_self _) hamount⟩
  · obtain ⟨found', hfound', h⟩ := bind_eq_ok.mp h
    split at h
    · next receiver amount rest =>
      obtain ⟨amount, hamount, h⟩ := bind_eq_ok.mp h
      cases h
      exact ⟨_, isFirstTaken_of_takeFirst hfound', .usdcTransfer (List.mem_singleton_self _) hamount⟩
    · exact absurd h nofun

/-- **Handlers build nothing else**, each action from the first transaction that is taken, which for
    streaming payments is the stream. -/
theorem builtFrom_firstTaken {kind : ActionKind} (h : buildAs kind pool = .ok (some (a, left))) :
    ∃ t, IsFirstTaken pool left t ∧ BuiltFrom [t] a ∧ (kind = .streamingPayment → ∃ s, t = .stream s) := by
  cases kind with
  | oneTimePayment =>
    obtain ⟨t, hfirst, hbuilt⟩ := builtFrom_of_oneTimePayment h
    exact ⟨t, hfirst, hbuilt, nofun⟩
  | streamingPayment =>
    obtain ⟨s, hfirst, hbuilt⟩ := builtFrom_of_streamingPayment h
    exact ⟨_, hfirst, hbuilt, fun _ => ⟨s, rfl⟩⟩
  | payerTopUp =>
    obtain ⟨found, hfound, h⟩ := bind_eq_ok.mp h
    split at h
    · obtain ⟨amount, hamount, h⟩ := bind_eq_ok.mp h
      cases h
      exact ⟨_, isFirstTaken_of_takeFirst hfound, .topUp (List.mem_singleton_self _) hamount, nofun⟩
    · exact absurd h nofun
  | treasuryNounTransfer =>
    obtain ⟨found, hfound, h⟩ := bind_eq_ok.mp h
    split at h
    · cases h
      exact ⟨_, isFirstTaken_of_takeFirst hfound, .nounTransfer (List.mem_singleton_self _), nofun⟩
    · exact absurd h nofun
  | customTransaction => exact absurd h nofun

/-- What handlers build comes from the pool, and what they leave was in it. -/
theorem builtFrom_of_buildAs {kind : ActionKind} (h : buildAs kind pool = .ok (some (a, left))) :
    BuiltFrom pool a ∧ left ⊆ pool := by
  obtain ⟨t, hfirst, hbuilt, -⟩ := builtFrom_firstTaken h
  exact ⟨hbuilt.subset (List.cons_subset.mpr ⟨hfirst.mem, List.nil_subset _⟩), hfirst.sublist.subset⟩

end Proposals.Handler

namespace Proposals.Engine

open Proposals.Handler Proposals.Outcome

variable {handlers : List ActionKind} {pool left : List Transaction} {a : Action}

theorem builtFrom_of_firstBuilt {kind : ActionKind}
    (h : firstBuilt pool handlers = .ok (some (kind, a, left))) : BuiltFrom pool a ∧ left ⊆ pool := by
  induction handlers with
  | nil => exact absurd h nofun
  | cons first handlers ih =>
    obtain ⟨built, hbuilt, h⟩ := bind_eq_ok.mp h
    cases built with
    | none => exact ih h
    | some built =>
      cases h
      exact builtFrom_of_buildAs hbuilt

/-- The loop takes nothing but such actions, and leaves nothing new. -/
theorem builtFrom_of_takeActions {fuel : Nat} {actions : List Action} {log : Log}
    (h : takeActions handlers fuel pool = .ok ((actions, left), log)) :
    (∀ a ∈ actions, BuiltFrom pool a) ∧ left ⊆ pool := by
  induction fuel generalizing pool actions left log with
  | zero => cases h; exact ⟨List.forall_mem_nil _, List.Subset.refl _⟩
  | succ fuel ih =>
    unfold takeActions at h
    split at h
    · cases h
      exact ⟨List.forall_mem_nil _, List.nil_subset _⟩
    · obtain ⟨found, hfound, h⟩ := bind_eq_ok.mp h
      cases found with
      | none => cases h; exact ⟨List.forall_mem_nil _, List.Subset.refl _⟩
      | some found =>
        obtain ⟨kind, a, rest⟩ := found
        obtain ⟨⟨⟨others, left'⟩, lines⟩, hrun, h⟩ := bind_eq_ok.mp h
        cases h
        obtain ⟨hbuilt, hsub⟩ := builtFrom_of_firstBuilt hfound
        obtain ⟨hothers, hleft⟩ := ih hrun
        exact ⟨List.forall_mem_cons.mpr ⟨hbuilt, fun b hb => (hothers b hb).subset hsub⟩,
          List.Subset.trans hleft hsub⟩

/-- **The actions of a pool** are built by handlers, but for a bundle of transactions of the pool. -/
theorem builtFrom_of_buildActions {e : Engine} {actions : List Action} {log : Log}
    (h : e.buildActions pool = .ok (actions, log)) :
    ∀ a ∈ actions, BuiltFrom pool a ∨ ∃ ts, a = .customTransaction ts ∧ ts ⊆ pool := by
  obtain ⟨⟨⟨taken, left⟩, lines⟩, hrun, h⟩ := bind_eq_ok.mp h
  obtain ⟨htaken, hleft⟩ := builtFrom_of_takeActions hrun
  dsimp only at h
  split at h
  · cases h
    exact fun a ha => .inl (htaken a ha)
  · cases h
    intro a ha
    rcases List.mem_append.mp ha with ha | ha
    · exact .inl (htaken a ha)
    · exact .inr ⟨left, List.mem_singleton.mp ha, hleft⟩

end Proposals.Engine
