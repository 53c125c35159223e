import Proposals.Proofs.Handler.Stream

/-!
# `Proofs.Handler.Recognition` — which streams are recognized, by positions

A stream is recognized if its funding stands behind it: a payment to its contract, or a deposit and behind
it a transfer to its contract, each of exactly its amount (`FundedAt`). The builder commits to the first
transaction that fits before it looks for the next one. Nothing is lost by that, since the first deposit
leaves more behind it than any other; so the builder finds a funded stream exactly when there is one
(`buildStreamingPayment_recognizes`), takes the first of them with the first funding that fits, and leaves
the pool without these positions.
-/

namespace Proposals.Handler

open Proposals.Amount

/-! ## Positions -/

/-- A stream at a position of the pool, with places behind it at which its funding stands. -/
inductive FundedAt (pool : List Transaction) (s : Stream) (i : Nat) : List Nat → Prop
  | usdc {j : Nat} (hstream : pool[i]? = some (.stream s)) (htoken : s.token = .currency .usdc)
      (hj : i < j) (hpayment : pool[j]? = some (.usdcTransferViaPayer s.contract s.amount)) :
      FundedAt pool s i [j]
  | weth {d t : Nat} (hstream : pool[i]? = some (.stream s)) (htoken : s.token = .currency .weth)
      (hd : i < d) (hdeposit : pool[d]? = some (.wethDeposit s.amount))
      (ht : d < t) (htransfer : pool[t]? = some (.wethTransfer s.contract s.amount)) :
      FundedAt pool s i [d, t]

/-- Each transaction of the funding is the first that fits: behind the stream, and the transfer of wrapped
    ether behind the deposit. -/
inductive FirstFundedAt (pool : List Transaction) (s : Stream) (i : Nat) : List Nat → Prop
  | usdc {j : Nat} (hfunded : FundedAt pool s i [j])
      (hfirst : ∀ k, i < k → k < j → pool[k]? ≠ some (.usdcTransferViaPayer s.contract s.amount)) :
      FirstFundedAt pool s i [j]
  | weth {d t : Nat} (hfunded : FundedAt pool s i [d, t])
      (hdeposit : ∀ k, i < k → k < d → pool[k]? ≠ some (.wethDeposit s.amount))
      (htransfer : ∀ k, d < k → k < t → pool[k]? ≠ some (.wethTransfer s.contract s.amount)) :
      FirstFundedAt pool s i [d, t]

theorem FirstFundedAt.fundedAt {pool : List Transaction} {s : Stream} {i : Nat} {places : List Nat}
    (h : FirstFundedAt pool s i places) : FundedAt pool s i places := by
  cases h with
  | usdc hfunded hfirst => exact hfunded
  | weth hfunded hdeposit htransfer => exact hfunded

/-- The transactions that do not stand at the given positions, counted from `n` on. -/
def withoutFrom (n : Nat) (positions : List Nat) (pool : List Transaction) : List Transaction :=
  ((pool.zipIdx n).filter fun entry => entry.2 ∉ positions).map Prod.fst

/-- The pool without the transactions at the given positions. -/
def without (positions : List Nat) (pool : List Transaction) : List Transaction :=
  withoutFrom 0 positions pool

variable {pool front back after left : List Transaction} {x : Transaction} {i j n : Nat}

/-! ## From positions to parts of the pool -/

/-- A transaction at a position cuts the pool there. -/
theorem exists_cut (h : pool[i]? = some x) :
    ∃ front back, pool = front ++ x :: back ∧ front.length = i := by
  induction pool generalizing i with
  | nil => exact absurd h (by simp)
  | cons t pool ih =>
    cases i with
    | zero =>
      obtain rfl : t = x := by simpa using h
      exact ⟨[], pool, rfl, rfl⟩
    | succ i =>
      rw [List.getElem?_cons_succ] at h
      obtain ⟨front, back, rfl, rfl⟩ := ih h
      exact ⟨t :: front, back, rfl, rfl⟩

/-- A transaction at a later position cuts what stands behind. -/
theorem exists_cut_behind {t : Transaction} (h : (front ++ t :: back)[j]? = some x)
    (hj : front.length < j) :
    ∃ between rest, back = between ++ x :: rest ∧ (front ++ t :: between).length = j := by
  rw [List.getElem?_append_right hj.le, List.getElem?_cons] at h
  rw [if_neg (by omega)] at h
  obtain ⟨between, rest, rfl, hlength⟩ := exists_cut h
  refine ⟨between, rest, rfl, ?_⟩
  rw [List.length_append, List.length_cons]
  omega

/-- A stream that is funded at some places is funded by what stands behind it. -/
theorem FundedAt.exists_isFunded {s : Stream} {places : List Nat} (h : FundedAt pool s i places) :
    ∃ front back, pool = front ++ .stream s :: back ∧ front.length = i ∧ IsFunded s back := by
  cases h with
  | usdc hstream htoken hj hpayment =>
    obtain ⟨front, back, rfl, rfl⟩ := exists_cut hstream
    obtain ⟨between, rest, rfl, -⟩ := exists_cut_behind hpayment hj
    refine ⟨front, _, rfl, rfl, .usdc, htoken, .inl rfl, ?_⟩
    exact List.singleton_sublist.mpr (by simp)
  | weth hstream htoken hd hdeposit ht htransfer =>
    obtain ⟨front, back, rfl, rfl⟩ := exists_cut hstream
    obtain ⟨between, behind, rfl, rfl⟩ := exists_cut_behind hdeposit hd
    have hcut : front ++ .stream s :: (between ++ .wethDeposit s.amount :: behind) =
        (front ++ .stream s :: between) ++ .wethDeposit s.amount :: behind := by simp
    rw [hcut] at htransfer
    obtain ⟨between', rest, rfl, -⟩ := exists_cut_behind htransfer ht
    refine ⟨front, _, rfl, rfl, .weth, htoken, .inr rfl, ?_⟩
    have htail : [Transaction.wethTransfer s.contract s.amount].Sublist
        (between' ++ .wethTransfer s.contract s.amount :: rest) :=
      List.singleton_sublist.mpr (by simp)
    exact (htail.cons_cons _).trans (List.sublist_append_right _ _)

/-! ## From parts of the pool to positions -/

theorem withoutFrom_nil (n : Nat) (pool : List Transaction) : withoutFrom n [] pool = pool := by
  simp [withoutFrom, List.zipIdx_map_fst]

/-- The first position that is left out parts the pool. -/
theorem withoutFrom_cons {positions : List Nat} (h : ∀ k ∈ positions, n + front.length < k) :
    withoutFrom n ((n + front.length) :: positions) (front ++ x :: back) =
      front ++ withoutFrom (n + front.length + 1) positions back := by
  have hfront : (front.zipIdx n).filter
      (fun entry => decide (entry.2 ∉ (n + front.length) :: positions)) = front.zipIdx n := by
    refine List.filter_eq_self.mpr fun entry hentry => decide_eq_true ?_
    have hlt := List.snd_lt_add_of_mem_zipIdx hentry
    intro hmem
    rcases List.mem_cons.mp hmem with heq | hmem
    · omega
    · have hlater := h _ hmem
      omega
  have hback : (back.zipIdx (n + front.length + 1)).filter
      (fun entry => decide (entry.2 ∉ (n + front.length) :: positions)) =
        (back.zipIdx (n + front.length + 1)).filter fun entry => decide (entry.2 ∉ positions) := by
    refine List.filter_congr fun entry hentry => ?_
    have hle := List.le_snd_of_mem_zipIdx hentry
    have hne : entry.2 ≠ n + front.length := by omega
    simp [List.mem_cons, hne]
  unfold withoutFrom
  rw [List.zipIdx_append, List.zipIdx_cons, List.filter_append, hfront,
    List.filter_cons_of_neg (by simp), hback, List.map_append, List.zipIdx_map_fst]

/-- From a position on, the first transaction that is the given one. -/
structure FirstFrom (pool : List Transaction) (n : Nat) (x : Transaction) (j : Nat) : Prop where
  le : n ≤ j
  stands : pool[j]? = some x
  first : ∀ k, n ≤ k → k < j → pool[k]? ≠ some x

/-- The members of a pattern, each at the first place behind the one before it. -/
inductive PlacedFrom (pool : List Transaction) : Nat → List Transaction → List Nat → Prop
  | nil (n : Nat) : PlacedFrom pool n [] []
  | cons {n j : Nat} {x : Transaction} {pattern : List Transaction} {places : List Nat}
      (hj : FirstFrom pool n x j) (h : PlacedFrom pool (j + 1) pattern places) :
      PlacedFrom pool n (x :: pattern) (j :: places)

theorem PlacedFrom.le {pattern : List Transaction} {places : List Nat}
    (h : PlacedFrom pool n pattern places) : ∀ k ∈ places, n ≤ k := by
  induction h with
  | nil n => exact List.forall_mem_nil _
  | cons hj h ih =>
    refine List.forall_mem_cons.mpr ⟨hj.le, fun k hk => ?_⟩
    have hbehind := ih k hk
    have hle := hj.le
    omega

theorem firstFrom_append {between rest : List Transaction} (hx : x ∉ between) :
    FirstFrom (front ++ (between ++ x :: rest)) front.length x (front.length + between.length) where
  le := Nat.le_add_right _ _
  stands := by simp
  first k hk hlt heq := by
    rw [List.getElem?_append_right hk, List.getElem?_append_left (by omega)] at heq
    exact hx (List.mem_of_getElem? heq)

/-- **What is taken as a pattern stands at first places**, and what is left is the rest without them. -/
theorem Takes.exists_placedFrom {pattern : List Transaction} (h : Takes pattern after left)
    (front : List Transaction) : ∃ places, PlacedFrom (front ++ after) front.length pattern places ∧
      withoutFrom front.length places after = left := by
  induction h generalizing front with
  | done pool => exact ⟨[], .nil _, withoutFrom_nil _ _⟩
  | @next x pattern before after left hx h ih =>
    -- what stands in front of the rest of the pattern ends with the first member
    obtain ⟨places, hplaced, hleft⟩ := ih (front ++ (before ++ [x]))
    have hlength : (front ++ (before ++ [x])).length = front.length + before.length + 1 := by
      simp [Nat.add_assoc]
    have hpool : front ++ (before ++ [x]) ++ after = front ++ (before ++ x :: after) := by simp
    rw [hlength, hpool] at hplaced
    rw [hlength] at hleft
    refine ⟨(front.length + before.length) :: places, .cons (firstFrom_append hx) hplaced, ?_⟩
    rw [withoutFrom_cons fun k hk => hplaced.le k hk, hleft]

/-- The first funded stream with its funding, by positions. -/
theorem FirstFunded.exists_places {before : List Transaction} {s : Stream} {c : Currency}
    (h : FirstFunded pool before after left s c) :
    ∃ places, FirstFundedAt pool s before.length places ∧
      before ++ left = without (before.length :: places) pool := by
  obtain ⟨places, hplaced, hleft⟩ := h.takes.exists_placedFrom (before ++ [.stream s])
  have hlength : (before ++ [Transaction.stream s]).length = before.length + 1 := by simp
  have hpool : before ++ [.stream s] ++ after = pool := by simp [h.stands]
  rw [hlength, hpool] at hplaced
  rw [hlength] at hleft
  have hstream : pool[before.length]? = some (.stream s) := by simp [h.stands]
  refine ⟨places, ?_, ?_⟩
  · have htoken := h.token
    rcases h.carried with rfl | rfl
    · cases hplaced with
      | cons hj hnil =>
        cases hnil
        exact .usdc (.usdc hstream htoken hj.le hj.stands) hj.first
    · cases hplaced with
      | cons hd hrest =>
        cases hrest with
        | cons ht hnil =>
          cases hnil
          exact .weth (.weth hstream htoken hd.le hd.stands ht.le ht.stands) hd.first ht.first
  · have hbehind : ∀ k ∈ places, 0 + before.length < k := fun k hk => by
      have := hplaced.le k hk
      omega
    have hwithout : withoutFrom 0 ((0 + before.length) :: places) (before ++ .stream s :: after) =
        before ++ withoutFrom (0 + before.length + 1) places after := withoutFrom_cons hbehind
    rw [Nat.zero_add, hleft, ← h.stands] at hwithout
    exact hwithout.symm

/-- No stream at an earlier position is funded. -/
theorem FirstFunded.le {before : List Transaction} {s : Stream} {c : Currency}
    (h : FirstFunded pool before after left s c) {s' : Stream} {places : List Nat}
    (hfunded : FundedAt pool s' i places) : before.length ≤ i := by
  obtain ⟨front, back, hpool, rfl, hback⟩ := hfunded.exists_isFunded
  rcases append_cons_eq_append (hpool.symm.trans h.stands) with
    ⟨between, hbefore, hbetween⟩ | ⟨between, hfront, -⟩
  · -- the other stream would stand in front of the first funded one
    subst hbetween
    exact absurd hback (h.first front (.stream s') between hbefore s' rfl)
  · rw [hfront, List.length_append]
    exact Nat.le_add_right _ _

/-! ## Recognition -/

/-- **The recognition of streams is sound and complete**, for every pool in which contracts are texts and
    amounts natural numbers. Nothing is built exactly if no position holds a funded stream. Otherwise the
    stream at the first such position is taken with the first funding that fits; the action has its fields,
    and the pool stays without exactly these positions. -/
theorem buildStreamingPayment_recognizes (hpool : AreComparable pool) :
    (buildStreamingPayment pool = .ok none ↔ ∀ s i places, ¬ FundedAt pool s i places) ∧
    ((∃ s i places, FundedAt pool s i places) → ∃ s i places c amount, FirstFundedAt pool s i places ∧
      (∀ s' i' places', FundedAt pool s' i' places' → i ≤ i') ∧
      s.token = .currency c ∧ formatUnits s.amount c.decimals = .ok amount ∧
      buildStreamingPayment pool = .ok (some (.streamingPayment
        ⟨s.receiver, s.token, .text amount, s.start, s.stop, s.contract, s.nonce⟩,
          without (i :: places) pool))) := by
  rcases buildStreamingPayment_split hpool with
    ⟨hnone, hall⟩ | ⟨before, after, left, s, c, a, hfirst, ha, hbuilt⟩
  · -- no stream is funded by what stands behind it
    have hunfunded : ∀ s i places, ¬ FundedAt pool s i places := by
      intro s i places hfunded
      obtain ⟨front, back, heq, -, hback⟩ := hfunded.exists_isFunded
      exact hall front (.stream s) back heq s rfl hback
    refine ⟨iff_of_true hnone hunfunded, ?_⟩
    rintro ⟨s, i, places, hfunded⟩
    exact absurd hfunded (hunfunded s i places)
  · obtain ⟨places, hplaces, hleft⟩ := hfirst.exists_places
    have hs : s.IsComparable := hpool (.stream s) (by simp [hfirst.stands])
    obtain ⟨amount, hamount, haction⟩ := exists_streamingPaymentOf hs c
    obtain rfl := Except.ok.inj (ha.symm.trans haction)
    constructor
    · rw [hbuilt]
      exact iff_of_false (by simp) fun hall => hall _ _ _ hplaces.fundedAt
    · rintro -
      refine ⟨s, before.length, places, c, amount, hplaces, ?_, hfirst.token, hamount, ?_⟩
      · exact fun s' i' places' hfunded => hfirst.le hfunded
      · rw [hbuilt, hleft]

/-- A stream of wrapped ether. -/
def mixedStream : Stream where
  receiver := .text "0x1111111111111111111111111111111111111111"
  token := .currency .weth
  amount := .int 5000000000000000000
  start := .int 1
  stop := .int 2
  contract := .text "0x2222222222222222222222222222222222222222"

/-- A pool with deposits in front of the stream, of another amount and more than once, and with a transfer
    to another contract. -/
def mixedPool : List Transaction :=
  [.wethDeposit mixedStream.amount, .stream mixedStream, .wethDeposit (.int 7),
    .wethDeposit mixedStream.amount, .wethTransfer mixedStream.receiver mixedStream.amount,
    .wethDeposit mixedStream.amount, .wethTransfer mixedStream.contract mixedStream.amount]

/-- The stream is recognized among them. -/
theorem buildStreamingPayment_recognizes_mixed :
    AreComparable mixedPool ∧ FundedAt mixedPool mixedStream 1 [3, 6] ∧
      buildStreamingPayment mixedPool ≠ .ok none ∧
      ∃ s i places c amount, FirstFundedAt mixedPool s i places ∧
        (∀ s' i' places', FundedAt mixedPool s' i' places' → i ≤ i') ∧
        s.token = .currency c ∧ formatUnits s.amount c.decimals = .ok amount ∧
        buildStreamingPayment mixedPool = .ok (some (.streamingPayment
          ⟨s.receiver, s.token, .text amount, s.start, s.stop, s.contract, s.nonce⟩,
            without (i :: places) mixedPool)) := by
  have hamount : mixedStream.amount.IsNatural := ⟨5000000000000000000, rfl⟩
  have hreceiver : mixedStream.receiver.IsText := ⟨_, rfl⟩
  have hcontract : mixedStream.contract.IsText := ⟨_, rfl⟩
  have hseven : (Value.int 7).IsNatural := ⟨7, rfl⟩
  have hpool : AreComparable mixedPool := by
    simp only [AreComparable, mixedPool, List.forall_mem_cons, List.not_mem_nil, false_imp_iff,
      implies_true, and_true]
    exact ⟨hamount, ⟨hcontract, hamount⟩, hseven, hamount, ⟨hreceiver, hamount⟩, hamount,
      hcontract, hamount⟩
  have hfunded : FundedAt mixedPool mixedStream 1 [3, 6] :=
    .weth rfl rfl (by decide) rfl (by decide) rfl
  obtain ⟨hnone, hsome⟩ := buildStreamingPayment_recognizes hpool
  exact ⟨hpool, hfunded, fun h => hnone.mp h _ _ _ hfunded, hsome ⟨_, _, _, hfunded⟩⟩

/-- The first deposit behind the stream is taken, and the transfer to its contract. -/
example : buildStreamingPayment mixedPool = .ok (some (.streamingPayment
    ⟨mixedStream.receiver, mixedStream.token, .text "5", .int 1, .int 2, mixedStream.contract, .int 0⟩,
      without [1, 3, 6] mixedPool)) := rfl

end Proposals.Handler
