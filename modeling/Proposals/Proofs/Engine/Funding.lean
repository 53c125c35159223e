import Mathlib.Algebra.BigOperators.Group.List.Basic
import Mathlib.Algebra.Ring.Int.Defs
import Mathlib.Data.List.Infix
import Proposals.Proofs.Engine.Shadow
import Proposals.Proofs.Unparse

/-!
# `Proofs.Engine.Funding` — wrapped ether comes in before it goes out

A proposal changes how much wrapped ether the executor has: deposits add to it, transfers take from it.
Decomposing a proposal and writing it again moves every stream that is funded, with its deposit and its
transfer, in front of what no handler claims. Such a block adds as much as it takes and never takes
first (`Run.wethSum_prefix_flatten`), so along the recovered actions nothing is missing. In the bundle
behind them a transaction finds what it found before, less the amounts of the streams whose deposit
stood in front of it and whose transfer stood behind it (`Run.cut`): that wrapped ether is spent by now.
-/

namespace Proposals

/-- The number of units in a value. -/
def Value.units : Value → Int
  | .int n => n
  | _ => 0

/-- How much wrapped ether a transaction adds to that of the executor. -/
def Transaction.wethChange : Transaction → Int
  | .wethDeposit value => value.units
  | .wethTransfer _ amount => -amount.units
  | _ => 0

theorem Value.IsNatural.units_nonneg {v : Value} (h : v.IsNatural) : 0 ≤ v.units := by
  obtain ⟨n, rfl⟩ := h
  exact Int.natCast_nonneg n

/-- Only transfers take wrapped ether away. -/
theorem Transaction.IsReadable.wethChange_nonneg {t : Transaction} (ht : t.IsReadable)
    (h : t.kind? ≠ some .wethTransfer) : 0 ≤ t.wethChange := by
  cases t with
  | wethDeposit value => exact Value.IsNatural.units_nonneg ht
  | wethTransfer receiver amount => exact absurd rfl h
  | _ => exact Int.le_refl 0

namespace Engine

open Proposals.Handler Proposals.Outcome

/-! ## Sums of changes -/

/-- How much wrapped ether the transactions add. -/
def wethSum (ts : List Transaction) : Int := (ts.map Transaction.wethChange).sum

@[simp] theorem wethSum_nil : wethSum [] = 0 := rfl

@[simp] theorem wethSum_cons (t : Transaction) (ts : List Transaction) :
    wethSum (t :: ts) = t.wethChange + wethSum ts := by
  simp [wethSum]

@[simp] theorem wethSum_append (ts us : List Transaction) :
    wethSum (ts ++ us) = wethSum ts + wethSum us := by
  simp [wethSum]

theorem wethSum_perm {ts us : List Transaction} (h : ts.Perm us) : wethSum ts = wethSum us :=
  (h.map _).sum_eq

theorem wethSum_eq_zero {ts : List Transaction} (h : ∀ t ∈ ts, t.wethChange = 0) : wethSum ts = 0 := by
  induction ts with
  | nil => rfl
  | cons t ts ih =>
    rw [wethSum_cons, h t List.mem_cons_self, ih fun u hu => h u (List.mem_cons_of_mem _ hu),
      Int.add_zero]

/-- A prefix ends in the first part or in the second. -/
theorem prefix_append_cases {before xs ys : List Transaction} (h : before <+: xs ++ ys) :
    before <+: xs ∨ ∃ behind, behind <+: ys ∧ before = xs ++ behind := by
  rcases List.prefix_or_prefix_of_prefix h (List.prefix_append xs ys) with hfirst | ⟨behind, rfl⟩
  · exact .inl hfirst
  · exact .inr ⟨behind, (List.prefix_append_right_inj xs).mp h, rfl⟩

/-! ## Blocks -/

/-- Only streams in wrapped ether change how much there is. -/
theorem wethChange_of_mem_block {k : ActionKind} {block : List Transaction} {t : Transaction}
    (hblock : IsBlock k block) (ht : t ∈ block) :
    t.wethChange = 0 ∨ ∃ s c, s.token = .currency c ∧ c ≠ .usdc ∧
      block = [.stream s, .wethDeposit s.amount, .wethTransfer s.contract s.amount] := by
  cases k with
  | streamingPayment =>
    obtain ⟨s, c, htoken, rfl⟩ := hblock
    by_cases hc : c = .usdc
    · subst hc
      have hcases : t = .stream s ∨ t = .usdcTransferViaPayer s.contract s.amount := by
        simpa [fundingOf] using ht
      rcases hcases with rfl | rfl <;> exact .inl rfl
    · exact .inr ⟨s, c, htoken, hc, by rw [fundingOf, if_neg hc]⟩
  | oneTimePayment =>
    rcases hblock with ⟨target, value, rfl⟩ | ⟨receiver, amount, rfl⟩ <;>
      exact .inl (by rw [List.mem_singleton.mp ht]; rfl)
  | payerTopUp => obtain ⟨value, rfl⟩ := hblock; exact .inl (by rw [List.mem_singleton.mp ht]; rfl)
  | treasuryNounTransfer =>
    obtain ⟨receiver, nounId, rfl⟩ := hblock
    exact .inl (by rw [List.mem_singleton.mp ht]; rfl)
  | customTransaction => exact absurd hblock (by simp [IsBlock])

/-- The first part of a block adds nothing, or the amount of a stream whose transfer is in the other
    part. -/
theorem wethSum_of_cut {k : ActionKind} {block taken behind : List Transaction}
    (hblock : IsBlock k block) (hreadable : AreReadable block) (hcut : block = taken ++ behind) :
    wethSum taken = 0 ∨ ∃ s : Stream, s.token = .currency .weth ∧ s.amount.IsAmount ∧
      taken = [.stream s, .wethDeposit s.amount] ∧ behind = [.wethTransfer s.contract s.amount] := by
  by_cases hquiet : ∀ t ∈ block, t.wethChange = 0
  · exact .inl (wethSum_eq_zero fun t ht => hquiet t (hcut ▸ List.mem_append_left _ ht))
  · obtain ⟨t, ht, hchange⟩ := not_forall₂.mp hquiet
    obtain ⟨s, c, htoken, hc, rfl⟩ := (wethChange_of_mem_block hblock ht).resolve_left hchange
    have hs : s.IsReadable := hreadable _ List.mem_cons_self
    obtain rfl := (currency_of_isReadable hs htoken).resolve_left hc
    -- the cut is before, in or behind the funding
    rcases taken with _ | ⟨a, _ | ⟨b, _ | ⟨d, taken⟩⟩⟩
    · exact .inl rfl
    · cases hcut
      exact .inl rfl
    · cases hcut
      exact .inr ⟨s, htoken, hs.amount, rfl, rfl⟩
    · obtain ⟨rfl, rfl, rfl, hrest⟩ : a = .stream s ∧ b = .wethDeposit s.amount ∧
          d = .wethTransfer s.contract s.amount ∧ taken = [] := by
        simp only [List.cons_append, List.cons.injEq] at hcut
        exact ⟨hcut.1.symm, hcut.2.1.symm, hcut.2.2.1.symm, (List.append_eq_nil_iff.mp hcut.2.2.2.symm).1⟩
      rw [hrest]
      exact .inl (by simp [Transaction.wethChange])

/-! ## Runs -/

variable {handlers : List ActionKind} {pool rest : List Transaction} {actions : List Action}
  {blocks : List (List Transaction)}

/-- The blocks of a run add as much as they take. -/
theorem Run.wethSum_flatten (h : Run handlers pool actions blocks rest) (hpool : AreReadable pool) :
    wethSum blocks.flatten = 0 := by
  induction h with
  | done => rfl
  | @round pool block left rest a actions blocks hround _ ih =>
    obtain ⟨k, -, hbuilds⟩ := hround.exists_builds
    rw [List.flatten_cons, wethSum_append, ih (hpool.sublist hbuilds.takes.left_sublist), Int.add_zero]
    -- the whole block leaves no transfer behind
    rcases wethSum_of_cut hbuilds.isBlock (hpool.sublist hbuilds.takes.sublist)
      (List.append_nil block).symm with hsum | ⟨s, -, -, -, hbehind⟩
    · exact hsum
    · exact absurd hbehind (by simp)

/-- Along the blocks of a run, wrapped ether comes in before it goes out. -/
theorem Run.wethSum_prefix_flatten (h : Run handlers pool actions blocks rest)
    (hpool : AreReadable pool) {before : List Transaction} (hbefore : before <+: blocks.flatten) :
    0 ≤ wethSum before := by
  induction h generalizing before with
  | done =>
    rw [List.prefix_nil.mp hbefore]
    exact Int.le_refl 0
  | @round pool block left rest a actions blocks hround hrun ih =>
    obtain ⟨k, -, hbuilds⟩ := hround.exists_builds
    have hblock := hpool.sublist hbuilds.takes.sublist
    have hleft := hpool.sublist hbuilds.takes.left_sublist
    have hcut : ∀ {taken behind}, block = taken ++ behind → 0 ≤ wethSum taken := by
      intro taken behind hcut
      rcases wethSum_of_cut hbuilds.isBlock hblock hcut with hsum | ⟨s, -, hamount, rfl, -⟩
      · exact Int.le_of_eq hsum.symm
      · have hunits := hamount.isNatural.units_nonneg
        simpa [Transaction.wethChange] using hunits
    rw [List.flatten_cons] at hbefore
    rcases prefix_append_cases hbefore with ⟨behind, hblock⟩ | ⟨behind, hbehind, rfl⟩
    · exact hcut hblock.symm
    · rw [wethSum_append]
      exact Int.add_nonneg (hcut (List.append_nil block).symm) (ih hleft hbehind)

/-- The stream and its deposit stand in the first list, the transfer that spends the deposit in the
    second. -/
structure IsFundedAcross (s : Stream) (front back : List Transaction) : Prop where
  token : s.token = .currency .weth
  deposit : [.stream s, .wethDeposit s.amount].Sublist front
  transfer : .wethTransfer s.contract s.amount ∈ back

/-- The actions contain the payments of the streams, in order. -/
def ContainsPayments (actions : List Action) (streams : List Stream) : Prop :=
  ∃ payments, streams.mapM (streamingPaymentOf · .weth) = .ok payments ∧ payments.Sublist actions

/-- The amounts of the streams. -/
def amountOf (streams : List Stream) : Int := (streams.map (·.amount.units)).sum

/-- **What is left over cuts a run.** Where a transaction is left over, the transactions left over in
    front of it add less than all those that stood in front of it in the pool: the amounts of the
    streams that were taken with deposits in front of it and transfers behind it are missing. -/
theorem Run.cut {x : Transaction} {before after : List Transaction}
    (h : Run handlers pool actions blocks (before ++ x :: after)) (hpool : AreReadable pool) :
    ∃ front back streams, pool = front ++ x :: back ∧
      wethSum before = wethSum front - amountOf streams ∧
      (∀ s ∈ streams, IsFundedAcross s front back) ∧ ContainsPayments actions streams := by
  generalize hrest : before ++ x :: after = rest at h
  induction h with
  | done =>
    subst hrest
    exact ⟨before, after, [], rfl, by simp [amountOf], fun s hs => absurd hs (by simp), [], rfl,
      List.nil_sublist _⟩
  | @round pool block left rest a actions blocks hround _ ih =>
    obtain ⟨k, -, hbuilds⟩ := hround.exists_builds
    obtain ⟨front, back, streams, rfl, hsum, hacross, payments, hpayments, hsub⟩ :=
      ih (hpool.sublist hbuilds.takes.left_sublist) hrest
    -- the transaction also cuts the block that is taken first
    obtain ⟨taken, behind, front', back', rfl, rfl, hfront, hback⟩ := hbuilds.takes.cut
    have hall : wethSum front' = wethSum taken + wethSum front := by
      rw [← wethSum_perm hfront.perm, wethSum_append]
    have hacross' : ∀ s ∈ streams, IsFundedAcross s front' back' := fun s hs =>
      ⟨(hacross s hs).token, (hacross s hs).deposit.trans hfront.left_sublist,
        hback.left_sublist.subset (hacross s hs).transfer⟩
    rcases wethSum_of_cut hbuilds.isBlock (hpool.sublist hbuilds.takes.sublist) rfl with
      hzero | ⟨s, htoken, -, rfl, rfl⟩
    · refine ⟨front', back', streams, rfl, ?_, hacross', payments, hpayments,
        hsub.trans (List.sublist_cons_self _ _)⟩
      rw [hsum, hall, hzero, Int.zero_add]
    · -- the funding of a stream is cut, so its amount is missing as well
      have ha : streamingPaymentOf s .weth = .ok a := by
        have haction := hbuilds.action
        simp only [List.cons_append, actionOf, htoken] at haction
        exact haction
      refine ⟨front', back', s :: streams, rfl, ?_, fun s' hs' => ?_, a :: payments, ?_,
        hsub.cons_cons a⟩
      · have hfunding : wethSum [.stream s, .wethDeposit s.amount] = s.amount.units := by
          simp [Transaction.wethChange]
        have hamounts : amountOf (s :: streams) = s.amount.units + amountOf streams := by
          simp [amountOf]
        rw [hsum, hall, hfunding, hamounts]
        omega
      · rcases List.mem_cons.mp hs' with rfl | hs'
        · exact ⟨htoken, hfront.sublist, hback.sublist.subset List.mem_cons_self⟩
        · exact hacross' s' hs'
      · rw [List.mapM_cons, ha, ok_bind, hpayments]
        rfl

/-- The sum of changes up to a bundled transaction: as much as where the transaction stood before, less
    the amounts of the streams among the actions that were funded across it. -/
def IsSumUpTo (t : Transaction) (ts : List Transaction) (actions : List Action) (sum : Int) : Prop :=
  IsBundled t actions ∧ ∃ front back streams, ts = front ++ t :: back ∧
    (∀ s ∈ streams, IsFundedAcross s front back) ∧ ContainsPayments actions streams ∧
    sum = wethSum (front ++ [t]) - amountOf streams

/-- No transfer of the bundle stands where a stream among the actions was funded across it. -/
def NoneFundedAcross (ts : List Transaction) (actions : List Action) : Prop :=
  ∀ front t back s a, ts = front ++ t :: back → t.kind? = some .wethTransfer → IsBundled t actions →
    IsFundedAcross s front back → streamingPaymentOf s .weth = .ok a → a ∉ actions

theorem ContainsPayments.append {streams : List Stream} (h : ContainsPayments actions streams)
    (more : List Action) : ContainsPayments (actions ++ more) streams :=
  h.imp fun _ h => ⟨h.1, h.2.trans (List.sublist_append_left _ _)⟩

/-- Every stream whose payment is contained is paid by one of the actions. -/
theorem ContainsPayments.exists_mem {streams : List Stream} (h : ContainsPayments actions streams)
    {s : Stream} (hs : s ∈ streams) : ∃ a ∈ actions, streamingPaymentOf s .weth = .ok a := by
  obtain ⟨payments, hpayments, hsub⟩ := h
  obtain ⟨a, ha, hpays⟩ := exists_mapM_of_mem hpayments hs
  exact ⟨a, hsub.subset ha, hpays⟩

/-- **Sums along the regrouped pool**: none of the recovered actions takes more than there was at the
    start, and behind a bundled transaction only the amounts of streams are missing that were funded
    across it. -/
theorem Run.wethSum_prefix (h : Run handlers pool actions blocks rest) (hpool : AreReadable pool)
    {before : List Transaction} (hbefore : before <+: blocks.flatten ++ rest) :
    0 ≤ wethSum before ∨ ∃ left t, before = left ++ [t] ∧
      IsSumUpTo t pool (actions ++ bundleOf rest) (wethSum before) := by
  rcases prefix_append_cases hbefore with hbefore | ⟨left, ⟨after, hleft⟩, rfl⟩
  · exact .inl (h.wethSum_prefix_flatten hpool hbefore)
  · rw [wethSum_append, h.wethSum_flatten hpool, Int.zero_add]
    rcases List.eq_nil_or_concat left with rfl | ⟨left, t, rfl⟩
    · exact .inl (Int.le_refl 0)
    · rw [List.concat_eq_append] at hleft ⊢
      have hrest : left ++ t :: after = rest := by rw [← hleft, List.append_assoc]; rfl
      have ht : t ∈ rest := hrest ▸ List.mem_append_right _ List.mem_cons_self
      obtain ⟨front, back, streams, hsplit, hsum, hacross, hpayments⟩ := (hrest ▸ h).cut hpool
      refine .inr ⟨blocks.flatten ++ left, t, (List.append_assoc _ _ _).symm,
        isBundled_append_bundleOf ht, front, back, streams, hsplit, hacross, hpayments.append _, ?_⟩
      rw [wethSum_append, wethSum_append, hsum]
      omega

/-- If no stream was funded across a bundled transfer, the regrouped pool can be paid for as well as the
    pool. -/
theorem Run.wethSum_nonneg (h : Run handlers pool actions blocks rest) (hpool : AreReadable pool)
    {start : Int} (hstart : ∀ before, before <+: pool → 0 ≤ start + wethSum before)
    (hnone : NoneFundedAcross pool (actions ++ bundleOf rest)) {before : List Transaction}
    (hbefore : before <+: blocks.flatten ++ rest) : 0 ≤ start + wethSum before := by
  have hzero : 0 ≤ start := by simpa using hstart [] (List.nil_prefix)
  -- backwards along the prefix: what is no transfer takes nothing away
  induction before using List.reverseRecOn with
  | nil => simpa using hzero
  | append_singleton left t ih =>
    have hleft := ih ((List.prefix_append left [t]).trans hbefore)
    by_cases ht : t.kind? = some .wethTransfer
    · rcases h.wethSum_prefix hpool hbefore with hsum |
        ⟨left', t', hlast, hbundled, front, back, streams, hsplit, hacross, hpayments, hsum⟩
      · omega
      · obtain ⟨-, rfl⟩ := List.append_singleton_inj.mp hlast
        have hnothing : streams = [] := List.eq_nil_iff_forall_not_mem.mpr fun s hs => by
          obtain ⟨a, ha, hpays⟩ := hpayments.exists_mem hs
          exact hnone front t back s a hsplit ht hbundled (hacross s hs) hpays ha
        have hfront := hstart (front ++ [t]) (hsplit ▸ by simp)
        rw [hsum, hnothing]
        simpa [amountOf] using hfront
    · have hreadable : t.IsReadable := hpool t (h.perm.subset (hbefore.subset (by simp)))
      have hchange := hreadable.wethChange_nonneg ht
      rw [wethSum_append, wethSum_cons, wethSum_nil]
      omega

/-! ## The balance of a proposal -/

/-- How much wrapped ether a raw transaction adds, by what it is read as. -/
def wethChange (e : Engine) (chain : Int) (raw : RawTransaction) : Int :=
  match e.parseOne chain raw with
  | .ok (t, _) => t.wethChange
  | .error _ => 0

/-- How much wrapped ether the executor has after raw transactions, from what it has at the start. -/
def wethBalance (e : Engine) (chain start : Int) (raws : List RawTransaction) : Int :=
  start + (raws.map (e.wethChange chain)).sum

/-- Nowhere along the raw transactions has the executor less than nothing. -/
def StaysFunded (e : Engine) (chain start : Int) (raws : List RawTransaction) : Prop :=
  ∀ before, before <+: raws → 0 ≤ e.wethBalance chain start before

variable {e : Engine} {chain start : Int} {raws : List RawTransaction} {ts : List Transaction} {log : Log}

theorem map_wethChange_of_parse (h : e.parse chain raws = .ok (ts, log)) :
    raws.map (e.wethChange chain) = ts.map Transaction.wethChange := by
  induction raws generalizing ts log with
  | nil => cases h; rfl
  | cons raw raws ih =>
    obtain ⟨t, us, rfl, ⟨line, hone⟩, lines, hrest⟩ := parse_cons_eq_ok h
    have hchange : e.wethChange chain raw = t.wethChange := by
      unfold wethChange
      rw [hone]
    rw [List.map_cons, List.map_cons, hchange, ih hrest]

/-- The balance along raw transactions follows what is read. -/
theorem wethBalance_take (h : e.parse chain raws = .ok (ts, log)) (n : Nat) :
    e.wethBalance chain start (raws.take n) = start + wethSum (ts.take n) := by
  unfold wethBalance wethSum
  rw [List.map_take, List.map_take, map_wethChange_of_parse h]

theorem exists_wethBalance_eq (h : e.parse chain raws = .ok (ts, log)) {before : List RawTransaction}
    (hbefore : before <+: raws) :
    ∃ read, read <+: ts ∧ ∀ start, e.wethBalance chain start before = start + wethSum read := by
  refine ⟨ts.take before.length, List.take_prefix _ _, fun start => ?_⟩
  conv_lhs => rw [List.prefix_iff_eq_take.mp hbefore]
  exact wethBalance_take h _

theorem staysFunded_iff (h : e.parse chain raws = .ok (ts, log)) :
    e.StaysFunded chain start raws ↔ ∀ before, before <+: ts → 0 ≤ start + wethSum before := by
  constructor
  · intro hfunded before hbefore
    have hbalance := hfunded _ (List.take_prefix before.length raws)
    rwa [wethBalance_take h, ← List.prefix_iff_eq_take.mp hbefore] at hbalance
  · intro hsums before hbefore
    obtain ⟨read, hread, hbalance⟩ := exists_wethBalance_eq h hbefore
    rw [hbalance start]
    exact hsums read hread

/-- A stream of five units of wrapped ether. -/
def wethStream : Stream where
  receiver := .text "0x00000000000000000000000000000000000000cc"
  token := .currency .weth
  amount := .int 5
  start := .int 1
  stop := .int 2
  contract := .text "0x00000000000000000000000000000000000000aa"

/-- The amount of the stream is wrapped. -/
def wrapping : Transaction := .wethDeposit (.int 5)

/-- The stream gets its amount. -/
def payStream : Transaction := .wethTransfer wethStream.contract (.int 5)

/-- Someone else gets the same amount. -/
def payOther : Transaction :=
  .wethTransfer (.text "0x00000000000000000000000000000000000000bb") (.int 5)

/-- Someone else is paid from what was wrapped for the stream, before more is wrapped. -/
def crossing : List Transaction := [.stream wethStream, wrapping, payOther, wrapping, payStream]

/-- The stream and someone else are paid in turn, from what was wrapped for both. -/
def inTurn : List Transaction := [.stream wethStream, wrapping, wrapping, payStream, payOther]

theorem isWellFormed_of_mem_crossing : ∀ t ∈ crossing, t.IsWellFormed ∧ ¬ t.IsShadowed := by
  have hamount : ∀ n : Nat, n ≤ 5 → (Value.int n).IsAmount := fun n hn =>
    ⟨n, rfl, Nat.le_trans hn (by decide)⟩
  have haccount : ∀ a, IsNormalAddress a → (Value.text a).IsAccount := fun a ha => ⟨a, rfl, ha⟩
  have hstream : wethStream.IsReadable :=
    ⟨haccount _ rfl, .inr rfl, hamount 5 (by decide), hamount 1 (by decide), hamount 2 (by decide),
      haccount _ rfl, hamount 0 (by decide)⟩
  have hwrapping : wrapping.IsWellFormed ∧ ¬ wrapping.IsShadowed := ⟨hamount 5 (by decide), nofun⟩
  simp only [crossing, List.forall_mem_cons]
  exact ⟨⟨⟨hstream, 0, rfl, by decide⟩, nofun⟩, hwrapping,
    ⟨⟨haccount _ rfl, hamount 5 (by decide)⟩, nofun⟩, hwrapping,
    ⟨⟨haccount _ rfl, hamount 5 (by decide)⟩, nofun⟩, List.forall_mem_nil _⟩

/-- Well-formed transactions can be written, and so can what their actions resolve to. -/
theorem exists_regrouped {ts us : List Transaction}
    (hts : ∀ t ∈ ts, t.IsWellFormed ∧ ¬ t.IsShadowed) (hsub : us ⊆ ts) {actions : List Action}
    (hbuilt : ∃ log, mainnetEngine.buildActions ts = .ok (actions, log))
    (hresolve : mainnetEngine.resolveAll actions = .ok us) :
    ∃ raws raws', (∀ raw ∈ raws, raw.value.IsNatural) ∧
      (∃ log, mainnetEngine.decompose 1 raws = .ok (actions, log)) ∧
      mainnetEngine.encode 1 actions = .ok raws' ∧
      (∃ log, mainnetEngine.parse 1 raws = .ok (ts, log)) ∧
      ∃ log, mainnetEngine.parse 1 raws' = .ok (us, log) := by
  obtain ⟨raws, hraws, hread⟩ := exists_unparse_of_isWellFormed hts
  obtain ⟨raws', hraws', hread'⟩ :=
    exists_unparse_of_isWellFormed fun t ht => hts t (hsub ht)
  refine ⟨raws, raws', isNatural_of_unparse (fun t ht => (hts t ht).1.isReadable) hraws,
    decompose_eq_ok.mpr ⟨ts, hread, hbuilt⟩, ?_, hread, hread'⟩
  rw [encode, hresolve]
  exact hraws'

theorem inTurn_subset : inTurn ⊆ crossing := by
  simp [inTurn, crossing]

/-- In turn, nothing is funded across the other payment, which stands at the end. -/
theorem noneFundedAcross_inTurn (p : StreamingPayment) :
    NoneFundedAcross inTurn [.streamingPayment p, .customTransaction [wrapping, payOther]] := by
  rintro front t back s a hsplit hkind ⟨bundle, hbundle, ht⟩ hacross - -
  obtain rfl : bundle = [wrapping, payOther] := by simpa using hbundle
  obtain rfl : t = payOther := by
    rcases List.mem_pair.mp ht with rfl | rfl
    · exact absurd hkind (by simp [wrapping, Transaction.kind?])
    · rfl
  rcases List.eq_nil_or_concat back with rfl | ⟨back, last, rfl⟩
  · exact absurd hacross.transfer (by simp)
  · -- the payment would also stand in front of the last place
    rw [List.concat_eq_append] at hsplit
    have hlast : [.stream wethStream, wrapping, wrapping, payStream] ++ [payOther] =
        (front ++ payOther :: back) ++ [last] :=
      hsplit.trans (List.append_assoc front (payOther :: back) [last]).symm
    obtain ⟨hinit, -⟩ := List.append_singleton_inj.mp hlast
    have hmem : payOther ∈ [.stream wethStream, wrapping, wrapping, payStream] := by
      rw [hinit]
      simp
    exact absurd hmem (by simp [payOther, payStream, wrapping, wethStream])

end Engine

end Proposals
