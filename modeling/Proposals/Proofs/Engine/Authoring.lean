import Proposals.Proofs.Engine.Decompose
import Proposals.Proofs.Engine.Order
import Proposals.Proofs.Written

/-!
# `Proofs.Engine.Authoring` — authored actions are found again

Whoever writes a proposal from actions and decomposes it again finds the same actions, in normal form
and in the order of the handlers (`decompose_encode_authored`). Each action resolves to transactions
that are read back from what is written for them, with one exception: a transfer to the token buyer is
read as a top-up (`asRead`). So the pool that is decomposed consists of whole blocks, one for each
action.
-/

namespace Proposals

open Proposals.Amount Proposals.Codec Proposals.Handler Proposals.Outcome

/-- The address of the token buyer on mainnet. -/
def tokenBuyer : String := "0x4f2acdc74f6941390d9b1804fabc3e780388cfe5"

/-- How a transaction is read after it was written. -/
def asRead : Transaction → Transaction
  | .transfer target value =>
    if target.isText tokenBuyer then .payerTopUp value else .transfer target value
  | t => t

/-- The action with addresses in normal form, its currency itself, its amount written as the units it is
    read as and its numbers as integers. A payment in ether to the token buyer is a top-up. -/
def Action.normalForm : Action → Outcome Action
  | .oneTimePayment target currency amount => do
    let c ← currencyOf currency
    let account ← addressOf target
    let written ← normalAmount c amount
    return if c = .eth ∧ account.isText tokenBuyer then .payerTopUp written
      else .oneTimePayment account (.currency c) written
  | .streamingPayment p => do
    let c ← currencyOf p.currency
    return .streamingPayment
      { target := ← addressOf p.target, currency := .currency c, amount := ← normalAmount c p.amount,
        start := .int (← p.start.toInteger), stop := .int (← p.stop.toInteger),
        contract := ← addressOf p.contract, nonce := .int (← p.nonce.toInteger) }
  | .payerTopUp amount => do return .payerTopUp (← normalAmount .eth amount)
  | .treasuryNounTransfer target nounId => do
    return .treasuryNounTransfer (← addressOf target) nounId
  | a => .ok a

namespace Engine

/-- The engine that the program uses by default. -/
def mainnetEngine : Engine := standard Registry.builtInRegistry

/-! ## One transaction -/

/-- The addresses of the transaction are in normal form, and so is what writing does not check. -/
def IsPrepared : Transaction → Prop
  | .payerTopUp value => value.IsAmount
  | .transfer target value => target.IsAccount ∧ value.IsAmount
  | .usdcTransferViaPayer receiver _ => receiver.IsAccount
  | .wethDeposit value => value.IsAmount
  | .wethTransfer receiver _ => receiver.IsAccount
  | .stream s => s.receiver.IsAccount ∧ s.token.IsStreamToken ∧ s.contract.IsAccount
  | .treasuryNounTransfer receiver _ => receiver.IsAccount
  | _ => False

theorem firstParsed_append {ctx : Context} {raw : RawTransaction} {earlier later : List TransactionKind}
    {kind : TransactionKind} {t : Transaction}
    (hearlier : ∀ k ∈ earlier, parseAs k ctx raw = .ok none) (h : parseAs kind ctx raw = .ok (some t)) :
    firstParsed ctx raw (earlier ++ kind :: later) = .ok (kind, t) := by
  induction earlier with
  | nil =>
    rw [List.nil_append]
    unfold firstParsed
    rw [h]; rfl
  | cons k earlier ih =>
    rw [List.cons_append]
    unfold firstParsed
    rw [hearlier k List.mem_cons_self, ok_bind]
    exact ih fun k' hk' => hearlier k' (List.mem_cons_of_mem _ hk')

/-- The codecs that are tried before that of the kind. -/
def earlierCodecs (kind : TransactionKind) : List TransactionKind :=
  defaultCodecs.takeWhile (· ≠ kind)

theorem exists_codecs (kind : TransactionKind) :
    ∃ later, defaultCodecs = earlierCodecs kind ++ kind :: later := by
  cases kind <;> exact ⟨_, rfl⟩

/-- Only codecs of transfers and of other calls are tried before the codec of a call. -/
theorem earlierCodecs_of_known : ∀ kind ∈ TransactionKind.all, (knownCall? kind).isSome →
    ∀ k ∈ earlierCodecs kind,
      k = .payerTopUp ∨ k = .transfer ∨ ((knownCall? k).isSome ∧ k ≠ kind) := by decide

theorem parseOne_of_firstParsed {raw : RawTransaction} {kind : TransactionKind} {t : Transaction}
    (h : firstParsed mainnet raw defaultCodecs = .ok (kind, t)) :
    ∃ log, mainnetEngine.parseOne 1 raw = .ok (t, log) := by
  have hsame : firstParsed (mainnetEngine.context 1) raw mainnetEngine.codecs = .ok (kind, t) := h
  unfold parseOne
  rw [hsame]
  exact ⟨_, rfl⟩

/-- The engine reads what a codec reads if the codecs before it read nothing. -/
theorem parseOne_of_earlier (kind : TransactionKind) {raw : RawTransaction} {t : Transaction}
    (hearlier : ∀ k ∈ earlierCodecs kind, parseAs k mainnet raw = .ok none)
    (h : parseAs kind mainnet raw = .ok (some t)) :
    ∃ log, mainnetEngine.parseOne 1 raw = .ok (t, log) := by
  obtain ⟨later, hsplit⟩ := exists_codecs kind
  have hfirst : firstParsed mainnet raw (earlierCodecs kind ++ kind :: later) = .ok (kind, t) :=
    firstParsed_append hearlier h
  exact parseOne_of_firstParsed (hsplit ▸ hfirst)

/-- **A call that was written is read by the engine.** -/
theorem parseOne_of_isWritten {kind : TransactionKind} {t : Transaction} {raw : RawTransaction}
    (h : IsWritten kind t raw) : ∃ log, mainnetEngine.parseOne 1 raw = .ok (t, log) := by
  obtain ⟨call, c, hcall, hc, hraw⟩ := h.isCall
  have hsome : (knownCall? kind).isSome := by rw [hcall]; rfl
  have hnative := parseAs_of_not_isNativeTransfer mainnet
    (isNativeTransfer_of_signatureOf (hraw.signature ▸ hc.signatureOf_eq))
  -- the codecs tried before it read nothing, those of transfers and those of other calls
  refine parseOne_of_earlier kind (fun k hk => ?_) h.read
  rcases earlierCodecs_of_known kind kind.mem_all hsome k hk with rfl | rfl | ⟨hother, hne⟩
  · exact hnative.1
  · exact hnative.2
  · obtain ⟨call', hcall'⟩ := Option.isSome_iff_exists.mp hother
    exact parseAs_other hcall hc hraw hcall' hne.symm

/-- The codec of top-ups reads a transfer to the token buyer. -/
theorem parsePayerTopUp_transfer {a : String} (ha : IsNormalAddress a) (value : Value) :
    parsePayerTopUp mainnet ⟨.text a, .text "", .text "0x", value⟩ =
      .ok (if a = tokenBuyer then some (.payerTopUp value) else none) := by
  have hbuyer : IsNormalAddress tokenBuyer := rfl
  have hlookup : mainnet.registry.lookup? mainnet.chain "token-buyer" =
      some ⟨"token-buyer", tokenBuyer, []⟩ := rfl
  unfold parsePayerTopUp
  rw [hlookup]
  by_cases h : a = tokenBuyer
  · subst h
    simp only [sameAddress_self hbuyer]
    rfl
  · simp only [sameAddress_of_ne ha hbuyer h, if_neg h, Bool.and_false]
    rfl

/-- The codec of transfers reads a transfer. -/
theorem parseTransfer_transfer {a : String} (ha : IsNormalAddress a) (value : Value) :
    parseTransfer mainnet ⟨.text a, .text "", .text "0x", value⟩ =
      .ok (some (.transfer (.text a) value)) := by
  have haddress : addressOf (.text a) = .ok (.text a) := addressOf_of_isAccount ⟨a, rfl, ha⟩
  show addressOf (.text a) >>= _ = _
  rw [haddress]; rfl

/-- A transfer is read as one, or as a top-up if it goes to the token buyer. -/
theorem parseOne_transfer {target : Value} (htarget : target.IsAccount) (value : Value) :
    ∃ log, mainnetEngine.parseOne 1 ⟨target, .text "", .text "0x", value⟩ =
      .ok (asRead (.transfer target value), log) := by
  obtain ⟨a, rfl, ha⟩ := htarget
  have htopUp := parsePayerTopUp_transfer ha value
  by_cases h : a = tokenBuyer
  · rw [if_pos h] at htopUp
    have hread : asRead (.transfer (.text a) value) = .payerTopUp value := by
      rw [h]; rfl
    rw [hread]
    exact parseOne_of_earlier .payerTopUp (fun k hk => absurd hk (by decide +revert)) htopUp
  · rw [if_neg h] at htopUp
    have hread : asRead (.transfer (.text a) value) = .transfer (.text a) value :=
      if_neg (by rw [isText_eq_true, Value.text.injEq]; exact h)
    rw [hread]
    have hearlier : earlierCodecs .transfer = [.payerTopUp] := rfl
    refine parseOne_of_earlier .transfer (fun k hk => ?_) (parseTransfer_transfer ha value)
    rw [hearlier, List.mem_singleton] at hk
    rw [hk]
    exact htopUp

theorem unparseOne_eq {t : Transaction} {kind : TransactionKind} (h : t.kind? = some kind) :
    mainnetEngine.unparseOne 1 t = unparseAs kind mainnet t := by
  have hmem : kind ∈ mainnetEngine.codecs := kind.mem_all
  unfold unparseOne
  rw [h]
  exact if_pos hmem

/-- **What is written for a prepared transaction is read**, as itself or as a top-up. -/
theorem parseOne_of_unparseOne {t : Transaction} {raw : RawTransaction} (ht : IsPrepared t)
    (h : mainnetEngine.unparseOne 1 t = .ok raw) :
    (asRead t).IsReadable ∧ ∃ log, mainnetEngine.parseOne 1 raw = .ok (asRead t, log) := by
  cases t with
  | payerTopUp value =>
    rw [unparseOne_eq rfl] at h
    obtain rfl : ⟨.text tokenBuyer, .text "", .text "0x", value⟩ = raw := Except.ok.inj h
    exact ⟨Value.IsAmount.isNatural ht, parseOne_transfer ⟨tokenBuyer, rfl, rfl⟩ value⟩
  | transfer target value =>
    rw [unparseOne_eq rfl] at h
    obtain rfl : ⟨target, .text "", .text "0x", value⟩ = raw := Except.ok.inj h
    refine ⟨?_, parseOne_transfer ht.1 value⟩
    -- what is read has the same value, as a top-up or as the transfer it is
    by_cases hbuyer : target.isText tokenBuyer = true
    · rw [show asRead (.transfer target value) = .payerTopUp value from if_pos hbuyer]
      exact ht.2.isNatural
    · rw [show asRead (.transfer target value) = .transfer target value from if_neg hbuyer]
      exact ⟨ht.1, ht.2.isNatural⟩
  | usdcTransferViaPayer receiver amount =>
    rw [unparseOne_eq rfl] at h
    obtain ⟨hamount, hcall, hread⟩ := unparsePair_sound .usdcTransferViaPayer rfl ht ⟨rfl, rfl⟩ h
    have hwritten : IsWritten .usdcTransferViaPayer (.usdcTransferViaPayer receiver amount) raw :=
      ⟨⟨ht, hamount⟩, hcall, hread⟩
    exact ⟨hwritten.readable, parseOne_of_isWritten hwritten⟩
  | wethDeposit value =>
    rw [unparseOne_eq rfl] at h
    exact ⟨Value.IsAmount.isNatural ht, parseOne_of_isWritten (isWritten_wethDeposit ht h)⟩
  | wethTransfer receiver amount =>
    rw [unparseOne_eq rfl] at h
    obtain ⟨hamount, hcall, hread⟩ := unparsePair_sound .wethTransfer rfl ht ⟨rfl, rfl⟩ h
    have hwritten : IsWritten .wethTransfer (.wethTransfer receiver amount) raw :=
      ⟨⟨ht, hamount⟩, hcall, hread⟩
    exact ⟨hwritten.readable, parseOne_of_isWritten hwritten⟩
  | stream s =>
    rw [unparseOne_eq rfl] at h
    have hwritten := isWritten_stream ht.1 ht.2.1 ht.2.2 h
    exact ⟨hwritten.readable, parseOne_of_isWritten hwritten⟩
  | treasuryNounTransfer receiver nounId =>
    rw [unparseOne_eq rfl] at h
    have hwritten := isWritten_treasuryNounTransfer ht h
    exact ⟨hwritten.readable, parseOne_of_isWritten hwritten⟩
  | _ => exact absurd ht (by simp [IsPrepared])

/-- The same for many transactions. -/
theorem parse_of_unparse {ts : List Transaction} {raws : List RawTransaction}
    (hts : ∀ t ∈ ts, IsPrepared t) (h : mainnetEngine.unparse 1 ts = .ok raws) :
    AreReadable (ts.map asRead) ∧ ∃ log, mainnetEngine.parse 1 raws = .ok (ts.map asRead, log) := by
  induction ts generalizing raws with
  | nil =>
    cases h
    exact ⟨fun t ht => absurd ht (by simp), [], rfl⟩
  | cons t ts ih =>
    unfold unparse at h
    rw [List.mapM_cons] at h
    obtain ⟨raw, hraw, h⟩ := bind_eq_ok.mp h
    obtain ⟨raws', hraws, h⟩ := bind_eq_ok.mp h
    cases h
    obtain ⟨hreadable, line, hline⟩ := parseOne_of_unparseOne (hts t List.mem_cons_self) hraw
    obtain ⟨hrest, lines, hlines⟩ := ih (fun u hu => hts u (List.mem_cons_of_mem _ hu)) hraws
    refine ⟨fun u hu => ?_, line ++ lines, ?_⟩
    · rw [List.map_cons] at hu
      exact (List.mem_cons.mp hu).elim (fun heq => heq ▸ hreadable) (hrest u)
    · unfold parse
      rw [hline, ok_bind, hlines]
      rfl

/-! ## One action -/

theorem isAmount_of_parseUnits {amount : Value} {d : Int} {n : Nat} (h : parseUnits amount d = .ok n) :
    (Value.int n).IsAmount := ⟨n, rfl, parseUnits_le h⟩

theorem asRead_transfer (target value : Value) : asRead (.transfer target value) =
    if target.isText tokenBuyer then .payerTopUp value else .transfer target value := rfl

/-- The transactions behind a stream are read as they were written. -/
theorem map_asRead_fundingOf (c : Currency) (contract units : Value) :
    (fundingOf c contract units).map asRead = fundingOf c contract units := by
  cases c <;> rfl

/-- Transactions that stand for an action: they can be written and read, what is read is one block, and
    the action of that block is the action in normal form. -/
structure StandsFor (ts : List Transaction) (a : Action) : Prop where
  prepared : ∀ t ∈ ts, IsPrepared t
  block : ∃ k, IsBlock k (ts.map asRead)
  normal : a.normalForm = actionOf (ts.map asRead)

theorem standsFor_oneTimePayment {target currency amount : Value} {ts : List Transaction}
    (h : resolveOneTimePayment (.oneTimePayment target currency amount) = .ok ts) :
    StandsFor ts (.oneTimePayment target currency amount) := by
  obtain ⟨c, units, account, hcurrency, hc, hunits, haccount, rfl⟩ := resolveOneTimePayment_eq_ok.mp h
  have hamount := isAmount_of_parseUnits hunits
  obtain ⟨haccount', -⟩ := addressOf_sound haccount
  obtain ⟨text, n, htext, -, -⟩ := exists_amountIn c hamount.isNatural
  have hnormal : Action.normalForm (.oneTimePayment target currency amount) =
      .ok (if c = .eth ∧ account.isText tokenBuyer then .payerTopUp (.text text)
        else .oneTimePayment account (.currency c) (.text text)) := by
    rw [Action.normalForm, currencyOf_eq hcurrency, ok_bind, haccount, ok_bind,
      normalAmount_eq hunits, htext]
    rfl
  rcases hc with rfl | rfl
  · -- ether: the target decides what the transfer is read as
    refine ⟨fun t ht => List.mem_singleton.mp ht ▸ ⟨haccount', hamount⟩, ?_, ?_⟩
    · show ∃ k, IsBlock k [asRead (.transfer account (.int units))]
      rw [asRead_transfer]
      by_cases hbuyer : account.isText tokenBuyer = true
      · rw [if_pos hbuyer]
        exact ⟨.payerTopUp, _, rfl⟩
      · rw [if_neg hbuyer]
        exact ⟨.oneTimePayment, .inl ⟨_, _, rfl⟩⟩
    · rw [hnormal]
      show _ = actionOf [asRead (.transfer account (.int units))]
      rw [asRead_transfer]
      by_cases hbuyer : account.isText tokenBuyer = true
      · rw [if_pos hbuyer, if_pos ⟨rfl, hbuyer⟩, actionOf, htext]
        rfl
      · rw [if_neg hbuyer, if_neg fun h => hbuyer h.2, actionOf, htext]
        rfl
  · refine ⟨fun t ht => List.mem_singleton.mp ht ▸ haccount', ⟨.oneTimePayment, .inr ⟨_, _, rfl⟩⟩, ?_⟩
    rw [hnormal]
    show _ = actionOf [.usdcTransferViaPayer account (.int units)]
    rw [if_neg (by simp), actionOf, htext]
    rfl

theorem isPrepared_of_mem_fundingOf {c : Currency} (hc : c = .usdc ∨ c = .weth)
    {contract units : Value} (hcontract : contract.IsAccount) (hunits : units.IsAmount)
    {t : Transaction} (ht : t ∈ fundingOf c contract units) : IsPrepared t := by
  rcases hc with rfl | rfl
  · rw [List.mem_singleton.mp ht]
    exact hcontract
  · rcases List.mem_cons.mp ht with rfl | ht
    · exact hunits
    · rw [List.mem_singleton.mp ht]
      exact hcontract

theorem standsFor_streamingPayment {p : StreamingPayment} {ts : List Transaction}
    (h : resolveStreamingPayment (.streamingPayment p) = .ok ts) :
    StandsFor ts (.streamingPayment p) := by
  obtain ⟨c, units, contract, receiver, start, stop, nonce, hcurrency, hc, hunits, hcontract,
    hreceiver, hstart, hstop, hnonce, rfl⟩ := resolveStreamingPayment_eq_ok.mp h
  have hamount := isAmount_of_parseUnits hunits
  obtain ⟨hcontract', -⟩ := addressOf_sound hcontract
  obtain ⟨hreceiver', -⟩ := addressOf_sound hreceiver
  have htoken : (Value.currency c).IsStreamToken := hc.imp (congrArg _) (congrArg _)
  refine ⟨fun t ht => ?_, ⟨.streamingPayment, ?_⟩, ?_⟩
  · rcases List.mem_cons.mp ht with rfl | ht
    · exact ⟨hreceiver', htoken, hcontract'⟩
    · exact isPrepared_of_mem_fundingOf hc hcontract' hamount ht
  · rw [List.map_cons, map_asRead_fundingOf]
    exact ⟨_, c, rfl, rfl⟩
  · rw [List.map_cons, map_asRead_fundingOf]
    show _ = streamingPaymentOf _ c
    rw [Action.normalForm, streamingPaymentOf]
    simp only [currencyOf_eq hcurrency, hreceiver, normalAmount_eq hunits, hstart, hstop, hcontract,
      hnonce, ok_bind]

theorem standsFor_payerTopUp {amount : Value} {ts : List Transaction}
    (h : resolvePayerTopUp (.payerTopUp amount) = .ok ts) : StandsFor ts (.payerTopUp amount) := by
  obtain ⟨units, hunits, rfl⟩ := resolvePayerTopUp_eq_ok.mp h
  have hamount := isAmount_of_parseUnits hunits
  refine ⟨fun t ht => List.mem_singleton.mp ht ▸ hamount, ⟨.payerTopUp, _, rfl⟩, ?_⟩
  rw [Action.normalForm, normalAmount_eq hunits]
  show (amountIn .eth (.int units) >>= _) = (amountIn .eth (.int units)).map Action.payerTopUp
  cases amountIn .eth (.int units) <;> rfl

theorem standsFor_treasuryNounTransfer {target nounId : Value} {ts : List Transaction}
    (h : resolveTreasuryNounTransfer (.treasuryNounTransfer target nounId) = .ok ts) :
    StandsFor ts (.treasuryNounTransfer target nounId) := by
  obtain ⟨n, account, rfl, haccount, rfl⟩ := resolveTreasuryNounTransfer_eq_ok.mp h
  obtain ⟨haccount', -⟩ := addressOf_sound haccount
  refine ⟨fun t ht => List.mem_singleton.mp ht ▸ haccount', ⟨.treasuryNounTransfer, _, _, rfl⟩, ?_⟩
  rw [Action.normalForm, haccount]
  rfl

/-- **An action resolves to transactions that stand for it.** -/
theorem standsFor_of_resolveAs {k : ActionKind} {a : Action} {ts : List Transaction}
    (hkind : a.kind? = some k) (hcustom : k ≠ .customTransaction) (h : resolveAs k a = .ok ts) :
    StandsFor ts a := by
  cases a with
  | oneTimePayment target currency amount =>
    cases hkind
    exact standsFor_oneTimePayment h
  | streamingPayment p =>
    cases hkind
    exact standsFor_streamingPayment h
  | payerTopUp amount =>
    cases hkind
    exact standsFor_payerTopUp h
  | treasuryNounTransfer target nounId =>
    cases hkind
    exact standsFor_treasuryNounTransfer h
  | customTransaction transactions => cases hkind; exact absurd rfl hcustom
  | foreign => exact absurd hkind (by simp [Action.kind?])

/-! ## All actions -/

theorem resolveOne_eq_ok {a : Action} {ts : List Transaction} (h : mainnetEngine.resolveOne a = .ok ts) :
    ∃ k, a.kind? = some k ∧ resolveAs k a = .ok ts := by
  unfold resolveOne at h
  split at h
  · next k hk =>
    split at h
    · exact ⟨k, hk, h⟩
    · exact absurd h (by simp)
  · exact absurd h (by simp)

theorem isPrepared_of_resolveAll {actions : List Action} {ts : List Transaction}
    (hactions : ∀ a ∈ actions, a.kind? ≠ some .customTransaction)
    (h : mainnetEngine.resolveAll actions = .ok ts) : ∀ t ∈ ts, IsPrepared t := by
  induction actions generalizing ts with
  | nil => cases h; exact fun t ht => absurd ht (by simp)
  | cons a actions ih =>
    obtain ⟨first, hfirst, h⟩ := bind_eq_ok.mp h
    obtain ⟨others, hothers, h⟩ := bind_eq_ok.mp h
    cases h
    obtain ⟨k, hk, hresolve⟩ := resolveOne_eq_ok hfirst
    have hcustom : k ≠ .customTransaction := fun heq => hactions a List.mem_cons_self (heq ▸ hk)
    have hprepared := (standsFor_of_resolveAs hk hcustom hresolve).prepared
    intro t ht
    exact (List.mem_append.mp ht).elim (hprepared t)
      (ih (fun b hb => hactions b (List.mem_cons_of_mem _ hb)) hothers t)

/-- What is read consists of whole blocks, which stand for the actions in normal form. -/
theorem exists_items {actions : List Action} {ts : List Transaction}
    (hactions : ∀ a ∈ actions, a.kind? ≠ some .customTransaction)
    (h : mainnetEngine.resolveAll actions = .ok ts) (hreadable : AreReadable (ts.map asRead)) :
    ∃ items : List Item, poolOf items = ts.map asRead ∧
      actions.mapM Action.normalForm = .ok (items.map (·.action)) := by
  induction actions generalizing ts with
  | nil => cases h; exact ⟨[], rfl, rfl⟩
  | cons a actions ih =>
    obtain ⟨first, hfirst, h⟩ := bind_eq_ok.mp h
    obtain ⟨others, hothers, h⟩ := bind_eq_ok.mp h
    cases h
    rw [List.map_append] at hreadable ⊢
    obtain ⟨k, hk, hresolve⟩ := resolveOne_eq_ok hfirst
    have hcustom : k ≠ .customTransaction := fun heq => hactions a List.mem_cons_self (heq ▸ hk)
    obtain ⟨-, ⟨k', hblock⟩, hnormal⟩ := standsFor_of_resolveAs hk hcustom hresolve
    obtain ⟨normal, haction, -⟩ :=
      exists_actionOf hblock (hreadable.sublist (List.sublist_append_left _ _))
    obtain ⟨item, rfl, hitem⟩ := exists_item hblock haction
    obtain ⟨items, hpool, hnormals⟩ := ih (fun b hb => hactions b (List.mem_cons_of_mem _ hb)) hothers
      (hreadable.sublist (List.sublist_append_right _ _))
    refine ⟨item :: items, ?_, ?_⟩
    · rw [poolOf_cons, hitem, hpool]
    · rw [List.mapM_cons, hnormal, haction, ok_bind, hnormals]
      rfl

theorem kind_ne_of_mem_inOrder {actions : List Action} {a : Action} (h : a ∈ inOrder actions) :
    a.kind? ≠ some .customTransaction := by
  obtain ⟨lead, -, h⟩ := List.mem_flatMap.mp h
  have hlead := (List.mem_filter.mp h).2
  cases a with
  | customTransaction transactions => exact absurd hlead (by simp [Action.lead?])
  | _ => simp [Action.kind?]

/-- **Authored actions are found again.** If actions without bundles can be written, the proposal that is
    written is decomposed into the same actions in normal form: the streaming payments, the payments
    in ether, the payments in stablecoin, the top-ups, with the payments in ether to the token
    buyer among them, and the transfers of nouns, each part in its original order. -/
theorem decompose_encode_authored {actions : List Action} {raws : List RawTransaction}
    (hactions : ∀ a ∈ actions, a.kind? ≠ some .customTransaction)
    (h : (standard Registry.builtInRegistry).encode 1 actions = .ok raws) :
    ∃ normals, actions.mapM Action.normalForm = .ok normals ∧
      (∃ log, (standard Registry.builtInRegistry).decompose 1 raws = .ok (inOrder normals, log)) ∧
      ∀ a ∈ inOrder normals, a.kind? ≠ some .customTransaction := by
  obtain ⟨ts, hts, hraws⟩ := bind_eq_ok.mp h
  obtain ⟨hreadable, hread⟩ := parse_of_unparse (isPrepared_of_resolveAll hactions hts) hraws
  obtain ⟨items, hpool, hnormals⟩ := exists_items hactions hts hreadable
  rw [← hpool] at hreadable hread
  -- what is read are the blocks of the actions, which the loop takes one by one
  obtain ⟨blocks, hrun⟩ := run_of_items hreadable
  have hrun' : Run mainnetEngine.handlers (poolOf items) (inOrder (items.map (·.action))) blocks [] :=
    hrun
  have hbuilt := buildActions_of_run hrun'
  rw [append_bundleOf_nil] at hbuilt
  exact ⟨_, hnormals, decompose_eq_ok.mpr ⟨_, hread, hbuilt⟩, fun a ha => kind_ne_of_mem_inOrder ha⟩

/-- A top-up, a payment to the token buyer and a stream, with capital digits and short forms. -/
def authoredActions : List Action := [
  .payerTopUp (.text "1"),
  .oneTimePayment (.text "0x4F2acdc74f6941390d9b1804fabc3e780388cfe5") (.text "ETH") (.text "0.50"),
  .streamingPayment
    { target := .text "0x00000000000000000000000000000000000000Aa", currency := .text "usdc",
      amount := .text "12.50", start := .int 1, stop := .text "2",
      contract := .text "0x00000000000000000000000000000000000000bB" }]

/-- How they are found again. -/
def authoredActionsFound : List Action := [
  .streamingPayment
    { target := .text "0x00000000000000000000000000000000000000aa", currency := .currency .usdc,
      amount := .text "12.5", start := .int 1, stop := .int 2,
      contract := .text "0x00000000000000000000000000000000000000bb" },
  .payerTopUp (.text "1"), .payerTopUp (.text "0.5")]

set_option maxRecDepth 20000 in
/-- The stream comes first, and the payment to the token buyer is a top-up behind the other. -/
theorem decompose_encode_authored_stream :
    (∀ a ∈ authoredActions, a.kind? ≠ some .customTransaction) ∧
      ∃ raws, (standard Registry.builtInRegistry).encode 1 authoredActions = .ok raws ∧
        ∃ log, (standard Registry.builtInRegistry).decompose 1 raws =
          .ok (authoredActionsFound, log) := by
  have hactions : ∀ a ∈ authoredActions, a.kind? ≠ some .customTransaction := by
    simp [authoredActions, Action.kind?]
  obtain ⟨raws, hraws⟩ : ∃ raws,
      (standard Registry.builtInRegistry).encode 1 authoredActions = .ok raws := ⟨_, rfl⟩
  obtain ⟨normals, hnormals, ⟨log, hlog⟩, -⟩ := decompose_encode_authored hactions hraws
  have hfound : ∃ normals, authoredActions.mapM Action.normalForm = .ok normals ∧
      inOrder normals = authoredActionsFound := ⟨_, rfl, rfl⟩
  obtain ⟨normals', hnormals', horder⟩ := hfound
  obtain rfl : normals = normals' := Except.ok.inj (hnormals.symm.trans hnormals')
  exact ⟨hactions, raws, hraws, log, horder ▸ hlog⟩

end Engine

end Proposals
