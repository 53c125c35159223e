import Proposals.Engine
import Proposals.Proofs.Handler.Build

/-!
# `Proofs.Engine.Run` — the loop that takes actions out of a pool

The loop always tries the handlers from the first one. One round either takes a block (`Round`) or ends
the loop, and a whole loop is a `Run`: the actions, the blocks they stand for, and what is left. Blocks
and rest are a permutation of the pool, so no transaction is lost or invented; and a run can be repeated
on the pool in which the blocks stand in order in front of the rest (`Run.repeat`), which is how the
actions are written.
-/

namespace Proposals.Engine

open Proposals.Handler Proposals.Outcome

variable {handlers : List ActionKind} {pool block left rest : List Transaction} {a : Action}
  {actions : List Action} {blocks : List (List Transaction)}

/-! ## One round -/

/-- One round of the loop: the first handler that finds a block takes it. -/
inductive Round (handlers : List ActionKind) (pool : List Transaction) (a : Action)
    (block left : List Transaction) : Prop where
  | intro (earlier : List ActionKind) (k : ActionKind) (later : List ActionKind)
      (split : handlers = earlier ++ k :: later)
      (nothing : ∀ k' ∈ earlier, BuildsNothing k' pool) (builds : Builds k pool a block left)

theorem Round.exists_builds (h : Round handlers pool a block left) :
    ∃ k ∈ handlers, Builds k pool a block left := by
  obtain ⟨earlier, k, later, rfl, -, hbuilds⟩ := h
  exact ⟨k, by simp, hbuilds⟩

theorem firstBuilt_eq_none (h : ∀ k ∈ handlers, BuildsNothing k pool) :
    firstBuilt pool handlers = .ok none := by
  induction handlers with
  | nil => rfl
  | cons k handlers ih =>
    unfold firstBuilt
    rw [(h k List.mem_cons_self).built, ok_bind]
    exact ih fun k' hk' => h k' (List.mem_cons_of_mem _ hk')

theorem firstBuilt_eq_some (h : Round handlers pool a block left) :
    ∃ k, firstBuilt pool handlers = .ok (some (k, a, left)) := by
  obtain ⟨earlier, k, later, rfl, hnothing, hbuilds⟩ := h
  refine ⟨k, ?_⟩
  induction earlier with
  | nil =>
    rw [List.nil_append]
    unfold firstBuilt
    rw [hbuilds.built]; rfl
  | cons k' earlier ih =>
    rw [List.cons_append]
    unfold firstBuilt
    rw [(hnothing k' List.mem_cons_self).built, ok_bind]
    exact ih fun k'' hk'' => hnothing k'' (List.mem_cons_of_mem _ hk'')

theorem round_or_nothing (handlers : List ActionKind) (hpool : AreReadable pool) :
    (∃ a block left, Round handlers pool a block left) ∨ ∀ k ∈ handlers, BuildsNothing k pool := by
  induction handlers with
  | nil => exact .inr fun k hk => absurd hk (by simp)
  | cons k handlers ih =>
    rcases buildAs_cases k hpool with hnothing | ⟨a, block, left, hbuilds⟩
    · rcases ih with ⟨a, block, left, earlier, k', later, rfl, hearlier, hbuilds⟩ | hall
      · refine .inl ⟨a, block, left, k :: earlier, k', later, rfl, fun k'' hk'' => ?_, hbuilds⟩
        exact (List.mem_cons.mp hk'').elim (fun heq => heq ▸ hnothing) (hearlier k'')
      · exact .inr fun k' hk' => (List.mem_cons.mp hk').elim (fun heq => heq ▸ hnothing) (hall k')
    · exact .inl ⟨a, block, left, [], k, handlers, rfl, fun k' hk' => absurd hk' (by simp), hbuilds⟩

/-! ## The whole loop -/

/-- A run of the loop, with the actions that it takes, their blocks and what is left. -/
inductive Run (handlers : List ActionKind) : List Transaction → List Action →
    List (List Transaction) → List Transaction → Prop where
  | done {pool : List Transaction} (h : ∀ k ∈ handlers, BuildsNothing k pool) :
      Run handlers pool [] [] pool
  | round {pool block left rest : List Transaction} {a : Action} {actions : List Action}
      {blocks : List (List Transaction)} (h : Round handlers pool a block left)
      (hrun : Run handlers left actions blocks rest) :
      Run handlers pool (a :: actions) (block :: blocks) rest

theorem Round.length_lt (h : Round handlers pool a block left) : left.length < pool.length := by
  obtain ⟨k, -, hbuilds⟩ := h.exists_builds
  have hlength := hbuilds.takes.perm.length_eq
  have hblock := hbuilds.isBlock.length_pos
  rw [List.length_append] at hlength
  omega

/-- Every pool of readable transactions has a run. -/
theorem exists_run (handlers : List ActionKind) (hpool : AreReadable pool) :
    ∃ actions blocks rest, Run handlers pool actions blocks rest := by
  -- every round makes the pool shorter
  induction hn : pool.length using Nat.strong_induction_on generalizing pool with
  | _ n ih =>
    rcases round_or_nothing handlers hpool with ⟨a, block, left, hround⟩ | hnothing
    · obtain ⟨k, -, hbuilds⟩ := hround.exists_builds
      obtain ⟨actions, blocks, rest, hrun⟩ :=
        ih left.length (hn ▸ hround.length_lt) (hpool.sublist hbuilds.takes.left_sublist) rfl
      exact ⟨a :: actions, block :: blocks, rest, .round hround hrun⟩
    · exact ⟨[], [], pool, .done hnothing⟩

/-- **The loop computes the run**, with any number of rounds that the size of the pool allows. -/
theorem Run.takeActions_eq (h : Run handlers pool actions blocks rest) :
    ∃ log, ∀ fuel, pool.length ≤ fuel →
      takeActions handlers fuel pool = .ok ((actions, rest), log) := by
  induction h with
  | @done pool hnothing =>
    refine ⟨[], fun fuel hfuel => ?_⟩
    cases fuel with
    | zero => rfl
    | succ fuel =>
      unfold takeActions
      cases pool with
      | nil => rfl
      | cons t pool =>
        rw [firstBuilt_eq_none hnothing]
        rfl
  | @round pool block left rest a actions blocks hround _ ih =>
    obtain ⟨k, hbuilt⟩ := firstBuilt_eq_some hround
    obtain ⟨log, hlog⟩ := ih
    let line : LogLine :=
      ⟨"DEBUG", "Handler " ++ k.tag ++ " matched; " ++ countText left ++ " transactions remain"⟩
    refine ⟨line :: log, fun fuel hfuel => ?_⟩
    have hlt := hround.length_lt
    obtain ⟨fuel, rfl⟩ : ∃ n, fuel = n + 1 := ⟨fuel - 1, by omega⟩
    -- the loop looks whether the pool is empty before it tries the handlers
    have hempty : pool.isEmpty = false := by
      cases pool with
      | nil => simp at hlt
      | cons t pool => rfl
    unfold takeActions
    simp only [hempty, hbuilt, ok_bind, hlog fuel (by omega)]
    rfl

/-! ## What a run preserves -/

/-- The engine resolves the action of a block with the handler of its kind. -/
theorem resolvesTo_of_isBlock {e : Engine} {k : ActionKind} (hk : k ∈ e.handlers)
    (hblock : IsBlock k block) (hreadable : AreReadable block) (ha : actionOf block = .ok a) :
    e.resolveOne a = resolveAs k a ∧ ResolvesTo k a block := by
  obtain ⟨a', ha', hkind, hresolves⟩ := exists_actionOf hblock hreadable
  obtain rfl : a = a' := Except.ok.inj (ha.symm.trans ha')
  refine ⟨?_, hresolves⟩
  unfold resolveOne
  rw [hkind]
  exact if_pos hk

theorem Run.perm (h : Run handlers pool actions blocks rest) : (blocks.flatten ++ rest).Perm pool := by
  induction h with
  | done => exact .refl _
  | @round pool block left rest a actions blocks hround _ ih =>
    obtain ⟨k, -, hbuilds⟩ := hround.exists_builds
    rw [List.flatten_cons, List.append_assoc]
    exact (ih.append_left block).trans hbuilds.takes.perm

theorem Run.rest_sublist (h : Run handlers pool actions blocks rest) : rest.Sublist pool := by
  induction h with
  | done => exact .refl _
  | round hround _ ih =>
    obtain ⟨k, -, hbuilds⟩ := hround.exists_builds
    exact ih.trans hbuilds.takes.left_sublist

/-- **What the actions of a run stand for**: each resolves to its block, if values are in range. -/
theorem Run.resolveAll_eq {e : Engine} (h : Run e.handlers pool actions blocks rest)
    (hpool : AreReadable pool) (hrange : ∀ t ∈ pool, t.IsInRange) :
    e.resolveAll actions = .ok blocks.flatten := by
  induction h with
  | done => rfl
  | @round pool block left rest a actions blocks hround _ ih =>
    obtain ⟨k, hk, hbuilds⟩ := hround.exists_builds
    -- the block is what the action resolves to, the others follow by induction
    obtain ⟨hone, hresolves⟩ := resolvesTo_of_isBlock hk hbuilds.isBlock
      (hpool.sublist hbuilds.takes.sublist) hbuilds.action
    unfold resolveAll
    rw [hone, hresolves.resolves fun t ht => hrange t (hbuilds.takes.sublist.subset ht), ok_bind,
      ih (hpool.sublist hbuilds.takes.left_sublist)
        fun t ht => hrange t (hbuilds.takes.left_sublist.subset ht)]
    rfl

/-- In any range, the actions resolve to nothing but their blocks. -/
theorem Run.eq_of_resolveAll {e : Engine} (h : Run e.handlers pool actions blocks rest)
    (hpool : AreReadable pool) {ts : List Transaction} (hts : e.resolveAll actions = .ok ts) :
    ts = blocks.flatten := by
  induction h generalizing ts with
  | done => cases hts; rfl
  | @round pool block left rest a actions blocks hround _ ih =>
    obtain ⟨k, hk, hbuilds⟩ := hround.exists_builds
    obtain ⟨hone, hresolves⟩ := resolvesTo_of_isBlock hk hbuilds.isBlock
      (hpool.sublist hbuilds.takes.sublist) hbuilds.action
    obtain ⟨first, hfirst, hts⟩ := bind_eq_ok.mp hts
    obtain ⟨others, hothers, hts⟩ := bind_eq_ok.mp hts
    cases hts
    rw [List.flatten_cons, hresolves.eq (hone.symm.trans hfirst),
      ih (hpool.sublist hbuilds.takes.left_sublist) hothers]

theorem Run.length_le (h : Run handlers pool actions blocks rest) :
    actions.length + rest.length ≤ pool.length := by
  induction h with
  | done => simp
  | round hround _ ih =>
    have hlt := hround.length_lt
    rw [List.length_cons]
    omega

/-- A run takes no bundles. -/
theorem Run.kind_ne (h : Run handlers pool actions blocks rest) (hpool : AreReadable pool) :
    ∀ a ∈ actions, a.kind? ≠ some .customTransaction := by
  induction h with
  | done => exact fun a ha => absurd ha (by simp)
  | @round pool block left rest a actions blocks hround _ ih =>
    obtain ⟨k, -, hbuilds⟩ := hround.exists_builds
    obtain ⟨a', ha', hkind, -⟩ :=
      exists_actionOf hbuilds.isBlock (hpool.sublist hbuilds.takes.sublist)
    obtain rfl : a = a' := Except.ok.inj (hbuilds.action.symm.trans ha')
    have ha : a.kind? ≠ some .customTransaction := by
      rw [hkind]
      rintro heq
      cases heq
      exact absurd hbuilds.isBlock (by simp [IsBlock])
    exact fun a'' ha'' => (List.mem_cons.mp ha'').elim (fun heq => heq ▸ ha)
      (ih (hpool.sublist hbuilds.takes.left_sublist) a'')

/-! ## Running again -/

/-- Where no stream is funded, a run takes none. -/
theorem Run.lacks_stream (h : Run handlers pool actions blocks rest)
    (hpool : ∀ block, IsBlock .streamingPayment block → ¬ block.Sublist pool) :
    Lacks .stream blocks.flatten := by
  induction h with
  | done => exact fun t ht => absurd ht (by simp)
  | @round pool block left rest a actions blocks hround _ ih =>
    obtain ⟨k, -, hbuilds⟩ := hround.exists_builds
    have hk : k ≠ .streamingPayment := by
      rintro rfl
      exact hpool block hbuilds.isBlock hbuilds.takes.sublist
    obtain ⟨t, rfl, ht⟩ := hbuilds.isBlock.eq_singleton hk
    have hleft := ih fun block' hblock' hsub =>
      hpool block' hblock' (hsub.trans hbuilds.takes.left_sublist)
    exact fun u hu => (List.mem_cons.mp hu).elim (fun heq => heq ▸ ht) (hleft u)

/-- **A run can be repeated** on the pool in which the blocks stand in order in front of what is left. -/
theorem Run.repeat (h : Run handlers pool actions blocks rest) (hpool : AreReadable pool) :
    Run handlers (blocks.flatten ++ rest) actions blocks rest := by
  induction h with
  | done h => exact .done h
  | @round pool block left rest a actions blocks hround hrun ih =>
    -- the whole run is needed for its permutation and for the streams it lacks
    have hwhole := Run.round hround hrun
    obtain ⟨earlier, k, later, hsplit, hnothing, hbuilds⟩ := hround
    have hperm := hwhole.perm
    have hreadable : AreReadable ((block :: blocks).flatten ++ rest) :=
      fun t ht => hpool t (hperm.subset ht)
    have hbuilds' : Builds k (block ++ (blocks.flatten ++ rest)) a block (blocks.flatten ++ rest) :=
      ⟨hbuilds.again hrun.perm, hbuilds.isBlock, hbuilds.action, .append _ _,
        fun hpool' => hbuilds.again (hpool'.trans hrun.perm)⟩
    have hagain : ∀ k' ∈ earlier, BuildsNothing k' ((block :: blocks).flatten ++ rest) := by
      intro k' hk'
      by_cases hstream : k' = .streamingPayment
      · subst hstream
        have hlacks := (hnothing _ hk').lacks
        refine .of_lacks hreadable fun block' hblock' hsub => ?_
        -- the actions taken have no stream, so a block would lie in what is left
        obtain ⟨s, c, -, rfl⟩ := id hblock'
        have hmem : Transaction.stream s ∉ (block :: blocks).flatten :=
          fun hmem => hwhole.lacks_stream hlacks _ hmem rfl
        exact hlacks _ hblock' ((sublist_of_not_mem hmem hsub).trans hwhole.rest_sublist)
      · exact (hnothing k' hk').of_perm hstream hpool hperm
    rw [List.flatten_cons, List.append_assoc] at hagain ⊢
    exact .round ⟨earlier, k, later, hsplit, hagain, hbuilds'⟩
      (ih (hpool.sublist hbuilds.takes.left_sublist))

end Proposals.Engine
