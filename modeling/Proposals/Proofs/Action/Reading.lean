import Proposals.Engine
import Proposals.Proofs.Handler.Resolve
import Proposals.Proofs.Transaction.Reading

/-!
# `Proofs.Action.Reading` — how reading and resolving actions can fail

An action is read like a transaction, and a bundle by reading its transactions. What is read can be
resolved: all that is then wrong with it is reported (`within_resolveAll`), and the transactions that it
stands for are ready to be encoded (`isEncodable_of_resolveAll`).
-/

namespace Proposals

open Proposals.Outcome

namespace Action

variable {p : Prop} {kind : ActionKind} {entries entries' : List (String × Value)} {d : Value} {a : Action}

/-- The document has nothing infinite in it, and its transactions are tidy. -/
structure IsTidyDocument (d : Value) : Prop where
  finite : d.IsFinite
  transactions : ∀ vs, d.find? "transactions" = some (.list vs) → ∀ v ∈ vs, Transaction.IsTidyDocument v

theorem within_readField (kind : ActionKind) (name : String) {v : Value} (hv : p → v.IsFinite) :
    Within (Fault.IsReportedIf p) (readField kind name v) := by
  unfold readField
  refine within_ite (fun _ => within_ok _ _) fun _ => within_ite (fun _ => within_ok _ _) fun _ => ?_
  refine within_ite (fun _ => ?_) fun _ => within_ok _ _
  split
  · exact within_ok _ _
  · next fault hfault =>
    refine within_error.mpr ?_
    split
    · exact .inl rfl
    · next hmisfit => exact .inr ((Abi.within_toInteger hv fault hfault).resolve_left hmisfit)

theorem within_readFields (kind : ActionKind) (h : p → ∀ entry ∈ entries, entry.2.IsFinite) :
    Within (Fault.IsReportedIf p) (readFields kind entries) := by
  induction entries with
  | nil => exact within_ok _ _
  | cons entry entries ih =>
    exact (within_readField kind entry.1 fun hp => h hp entry List.mem_cons_self).bind fun _ _ =>
      (ih fun hp e he => h hp e (List.mem_cons_of_mem _ he)).bind fun _ _ => within_ok _ _

/-- **Reading an action reports what it cannot read**, if the document is tidy. -/
theorem within_ofDocument (hd : p → IsTidyDocument d) : Within (Fault.IsReportedIf p) (ofDocument d) := by
  cases d with
  | dict entries =>
    have hkind : Within (Fault.IsReportedIf p) (kindOf ((Table.find? "type" entries).getD .null)) := by
      unfold kindOf
      split
      · exact within_ok _ _
      · exact within_error.mpr (.inl rfl)
    refine hkind.bind fun kind _ => ?_
    dsimp only
    refine within_ite (fun _ => ?_) fun _ => within_ite (fun _ => within_error.mpr (.inl rfl)) fun _ => ?_
    · split
      · next vs hvs =>
        exact (within_mapM fun v hv => Transaction.within_ofDocument fun hp =>
          (hd hp).transactions vs hvs v hv).bind fun _ _ => within_ok _ _
      · exact within_error.mpr (.inl rfl)
    · refine (within_readFields kind fun hp entry hentry => ?_).bind fun _ _ => ?_
      · exact Value.areEntriesFinite_iff.mp (hd hp).finite _
          (Table.mem_of_find? (Transaction.find?_of_mem_knownEntries hentry))
      · split
        · exact within_ok _ _
        · exact within_error.mpr (.inl rfl)
  | _ => exact within_error.mpr (.inl rfl)

/-! ### What is read -/

/-- What resolving an action needs: integers where it takes them, and transactions that are ready to be
    encoded. -/
def IsResolvable : Action → Prop
  | .streamingPayment p => (∃ n, p.start = .int n) ∧ (∃ n, p.stop = .int n) ∧ ∃ n, p.nonce = .int n
  | .customTransaction ts => ∀ t ∈ ts, t.IsEncodable
  | _ => True

theorem exists_of_mem_readFields (h : readFields kind entries = .ok entries') {entry : String × Value}
    (hentry : entry ∈ entries') : ∃ v, readField kind entry.1 v = .ok entry.2 := by
  induction entries generalizing entries' with
  | nil =>
    cases h
    exact absurd hentry List.not_mem_nil
  | cons first entries ih =>
    obtain ⟨w, hw, h⟩ := bind_eq_ok.mp h
    obtain ⟨rest, hrest, h⟩ := bind_eq_ok.mp h
    cases h
    rcases List.mem_cons.mp hentry with rfl | hentry
    · exact ⟨first.2, hw⟩
    · exact ih hrest hentry

theorem exists_int_of_readField {name : String} {v w : Value} (h : readField .streamingPayment name v = .ok w)
    (hname : name ∈ integerFields .streamingPayment) : ∃ n, w = .int n := by
  have hall : ∀ name ∈ integerFields .streamingPayment, (name == "currency") = false ∧
      (name == "amount") = false ∧ (integerFields .streamingPayment).contains name = true := by decide
  have hplain := hall name hname
  unfold readField at h
  rw [hplain.1, hplain.2.1, hplain.2.2] at h
  simp only [Bool.false_eq_true, if_false, if_true] at h
  split at h
  · cases h
    exact ⟨_, rfl⟩
  · exact absurd h nofun

theorem isResolvable_of_ofFields? (htable : readFields kind entries = .ok entries')
    (h : ofFields? kind (fun name => Table.find? name entries') = some a) : a.IsResolvable := by
  cases kind <;> simp only [ofFields?, Option.bind_eq_bind, Option.bind_eq_some_iff, Option.pure_def,
    Option.some.injEq, reduceCtorEq] at h
  case streamingPayment =>
    obtain ⟨target, -, currency, -, amount, -, start, hstart, stop, hstop, contract, -, rfl⟩ := h
    have hint : ∀ {name : String} {v : Value}, Table.find? name entries' = some v →
        name ∈ integerFields .streamingPayment → ∃ n, v = .int n := by
      intro name v hfind hname
      obtain ⟨w, hw⟩ := exists_of_mem_readFields htable (Table.mem_of_find? hfind)
      exact exists_int_of_readField hw hname
    refine ⟨hint hstart (by decide), hint hstop (by decide), ?_⟩
    cases hnonce : Table.find? "nonce" entries' with
    | none => exact ⟨0, rfl⟩
    | some v => exact hint hnonce (by decide)
  case oneTimePayment =>
    obtain ⟨_, -, _, -, _, -, rfl⟩ := h
    trivial
  case payerTopUp =>
    obtain ⟨_, -, rfl⟩ := h
    trivial
  case treasuryNounTransfer =>
    obtain ⟨_, -, _, -, rfl⟩ := h
    trivial

/-- **What is read from a document that can be printed can be resolved.** -/
theorem isResolvable_of_ofDocument (hd : d.IsPrintable) (h : ofDocument d = .ok a) : a.IsResolvable := by
  cases d with
  | dict entries =>
    obtain ⟨kind, -, h⟩ := bind_eq_ok.mp h
    dsimp only at h
    split at h
    · split at h
      · next vs hvs =>
        obtain ⟨ts, hts, h⟩ := bind_eq_ok.mp h
        cases h
        intro t ht
        obtain ⟨v, hv, hread⟩ := exists_of_mem_mapM hts ht
        have hlist := Value.areEntriesPrintable_iff.mp hd _ (Table.mem_of_find? hvs)
        exact Transaction.isEncodable_of_ofDocument (Value.arePrintable_iff.mp hlist v hv) hread
      · cases h
    · split at h
      · cases h
      · obtain ⟨table, htable, h⟩ := bind_eq_ok.mp h
        split at h
        · next hmake =>
          cases h
          exact isResolvable_of_ofFields? htable hmake
        · cases h
  | _ => cases h

end Action

/-! ## Resolving -/

namespace Handler

open Proposals.Amount Proposals.Codec

variable {p : Prop} {a : Action} {ts : List Transaction}

theorem within_parseUnits (amount : Value) (decimals : Int) :
    Within (Fault.IsReportedIf p) (parseUnits amount decimals) := by
  refine (Amount.within_parseUnits amount decimals).mono fun f hf => ?_
  obtain ⟨cause, rfl⟩ := hf
  exact .inl rfl

theorem within_addressOf (v : Value) : Within (Fault.IsReportedIf p) (addressOf v) := by
  unfold addressOf
  split
  · split
    · exact within_ok _ _
    · exact within_error.mpr (.inl rfl)
  · exact within_error.mpr (.inl rfl)

theorem within_supportedCurrency {kind : ActionKind} (hkind : a.kind? = some kind) {given : Value}
    (hfield : a.field "currency" = .ok given) (supported : List Currency) :
    Within (Fault.IsReportedIf p) (supportedCurrency a supported) := by
  have hkind : a.kind = .ok kind := by
    unfold Action.kind
    rw [hkind]
  unfold supportedCurrency
  rw [hfield, ok_bind, hkind]
  split
  · exact within_ite (fun _ => within_ok _ _) fun _ => within_error.mpr (.inl rfl)
  · exact within_error.mpr (.inl rfl)

/-- **Resolving an action reports what is wrong with it**, if it can be resolved. -/
theorem within_resolveAs (ha : a.IsResolvable) {kind : ActionKind} (hkind : a.kind? = some kind) :
    Within (Fault.IsReportedIf p) (resolveAs kind a) := by
  cases a with
  | oneTimePayment target currency amount =>
    cases hkind
    exact (within_supportedCurrency rfl rfl _).bind fun _ _ => (within_parseUnits amount _).bind
      fun _ _ => (within_addressOf target).bind fun _ _ => within_ok _ _
  | streamingPayment payment =>
    cases hkind
    obtain ⟨⟨start, hstart⟩, ⟨stop, hstop⟩, ⟨nonce, hnonce⟩⟩ := ha
    have hint : ∀ {v : Value} {n : Int}, v = .int n → Within (Fault.IsReportedIf p) v.toInteger := by
      rintro v n rfl
      exact within_ok _ _
    exact (within_supportedCurrency rfl rfl _).bind fun _ _ => (within_parseUnits payment.amount _).bind
      fun _ _ => (within_addressOf payment.contract).bind fun _ _ => (within_addressOf payment.target).bind
      fun _ _ => (hint hstart).bind fun _ _ => (hint hstop).bind fun _ _ => (hint hnonce).bind
      fun _ _ => within_ok _ _
  | payerTopUp amount =>
    cases hkind
    exact (within_parseUnits amount _).bind fun _ _ => within_ok _ _
  | treasuryNounTransfer target nounId =>
    cases hkind
    cases nounId with
    | int n =>
      exact within_ite (fun _ => within_error.mpr (.inl rfl)) fun _ =>
        (within_addressOf target).bind fun _ _ => within_ok _ _
    | _ => exact within_error.mpr (.inl rfl)
  | customTransaction ts =>
    cases hkind
    exact within_ok _ _
  | foreign => exact absurd hkind nofun

theorem isEncodable_of_account {v w units : Value} (h : addressOf v = .ok w) :
    (Transaction.transfer w units).IsEncodable := by
  obtain ⟨⟨s, rfl, -⟩, -⟩ := addressOf_sound h
  refine ⟨?_, nofun, nofun⟩
  simp [Transaction.fields, Value.IsPrintable]

/-- **What an action stands for is ready to be encoded.** -/
theorem isEncodable_of_resolveAs (ha : a.IsResolvable) {kind : ActionKind} (hkind : a.kind? = some kind)
    (h : resolveAs kind a = .ok ts) : ∀ t ∈ ts, t.IsEncodable := by
  -- most transactions have no fields that could be in the way
  have hplain : ∀ {t : Transaction}, (∀ field ∈ t.fields, field.1 ≠ "target" ∧ field.1 ≠ "calldata") →
      (∀ s, t ≠ .stream s) → t.call? = none → t.IsEncodable := fun hfields hstream hcall =>
    ⟨fun field hfield hname => (hname.elim (hfields field hfield).1 (hfields field hfield).2).elim,
      fun s hs => absurd hs (hstream s), fun call hsome => by cases hcall.symm.trans hsome⟩
  cases a with
  | oneTimePayment target currency amount =>
    cases hkind
    obtain ⟨c, units, account, -, -, -, haccount, rfl⟩ := resolveOneTimePayment_eq_ok.mp h
    refine List.forall_mem_singleton.mpr ?_
    unfold paymentIn
    split
    · exact isEncodable_of_account haccount
    · exact hplain (by simp [Transaction.fields]) (by simp) rfl
  | streamingPayment payment =>
    cases hkind
    obtain ⟨c, units, contract, receiver, start, stop, nonce, -, -, -, -, -, -, -, -, rfl⟩ :=
      resolveStreamingPayment_eq_ok.mp h
    refine List.forall_mem_cons.mpr ⟨⟨by simp [Transaction.fields], ?_, ?_⟩, fun t ht => ?_⟩
    · rintro s hs
      cases hs
      exact ⟨c, rfl⟩
    · intro call hcall
      cases hcall
    · unfold fundingOf at ht
      split at ht
      · obtain rfl := List.mem_singleton.mp ht
        exact hplain (by simp [Transaction.fields]) (by simp) rfl
      · simp only [List.mem_cons, List.not_mem_nil, or_false] at ht
        rcases ht with rfl | rfl <;>
          exact hplain (by simp [Transaction.fields]) (by simp) rfl
  | payerTopUp amount =>
    cases hkind
    obtain ⟨units, -, rfl⟩ := resolvePayerTopUp_eq_ok.mp h
    exact List.forall_mem_singleton.mpr (hplain (by simp [Transaction.fields]) (by simp) rfl)
  | treasuryNounTransfer target nounId =>
    cases hkind
    obtain ⟨n, account, -, -, rfl⟩ := resolveTreasuryNounTransfer_eq_ok.mp h
    exact List.forall_mem_singleton.mpr (hplain (by simp [Transaction.fields]) (by simp) rfl)
  | customTransaction us =>
    cases hkind
    cases h
    exact ha
  | foreign => cases hkind

end Handler

namespace Engine

open Proposals.Handler

variable {p : Prop} {e : Engine} {actions : List Action}

theorem within_resolveAll (h : ∀ a ∈ actions, a.IsResolvable) :
    Within (Fault.IsReportedIf p) (e.resolveAll actions) := by
  induction actions with
  | nil => exact within_ok _ _
  | cons a actions ih =>
    obtain ⟨ha, hactions⟩ := List.forall_mem_cons.mp h
    have hone : Within (Fault.IsReportedIf p) (e.resolveOne a) := by
      unfold resolveOne
      split
      · next kind hkind =>
        exact within_ite (fun _ => within_resolveAs ha hkind) fun _ => within_error.mpr (.inl rfl)
      · exact within_error.mpr (.inl rfl)
    exact hone.bind fun _ _ => (ih hactions).bind fun _ _ => within_ok _ _

theorem isEncodable_of_resolveAll (ha : ∀ a ∈ actions, a.IsResolvable) {ts : List Transaction}
    (h : e.resolveAll actions = .ok ts) : ∀ t ∈ ts, t.IsEncodable := by
  induction actions generalizing ts with
  | nil =>
    cases h
    exact List.forall_mem_nil _
  | cons a actions ih =>
    obtain ⟨ha, hactions⟩ := List.forall_mem_cons.mp ha
    obtain ⟨us, hone, h⟩ := bind_eq_ok.mp h
    obtain ⟨vs, hrest, h⟩ := bind_eq_ok.mp h
    cases h
    refine List.forall_mem_append.mpr ⟨?_, ih hactions hrest⟩
    unfold resolveOne at hone
    split at hone
    · next kind hkind =>
      split at hone
      · exact isEncodable_of_resolveAs ha hkind hone
      · exact absurd hone nofun
    · exact absurd hone nofun

end Engine

end Proposals
