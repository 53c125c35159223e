import Proposals.Action.Document
import Proposals.Proofs.Transaction.Unreported

/-!
# `Proofs.Action.Unreported` — what documents of actions are refused without a report

An action is read with a report like a transaction, unless it is unreported (`Action.IsUnreported`): its
integers meet an infinite number, or it is a bundle, and the first of its transactions that cannot be read
is unreported.
-/

namespace Proposals

open Proposals.Outcome

namespace Action

variable {kind : ActionKind} {entries : List (String × Value)}

/-! ## Actions -/

theorem reportsMisfits_badAction (kind : ActionKind) : ReportsMisfits fun fault =>
    if Abi.isMisfit fault then .document (.badAction kind none) else fault where
  misfit _ h := ⟨_, if_pos h⟩
  overflow := rfl

theorem readFields_eq_mapM (kind : ActionKind) (entries : List (String × Value)) :
    readFields kind entries = entries.mapM fun e => (readField kind e.1 e.2).map (Prod.mk e.1) := by
  induction entries with
  | nil => rfl
  | cons e entries ih =>
    rw [readFields, List.mapM_cons, ih]
    cases readField kind e.1 e.2 <;> rfl

theorem readField_of_mem {name : String} (hname : name ∈ integerFields kind) (v : Value) :
    readField kind name v = (v.toInteger.map .int).mapError fun fault =>
      if Abi.isMisfit fault then .document (.badAction kind none) else fault := by
  have hplain : name ≠ "currency" ∧ name ≠ "amount" := by
    revert name
    cases kind <;> decide
  unfold readField
  simp only [beq_iff_eq, hplain.1, hplain.2, if_false, List.contains_iff_mem, hname, if_true]
  cases v.toInteger <;> rfl

theorem exists_readField_of_not_mem {name : String} (hname : name ∉ integerFields kind) (v : Value) :
    ∃ w, readField kind name v = .ok w := by
  unfold readField
  simp only [List.contains_iff_mem, hname, if_false]
  split
  · exact ⟨_, rfl⟩
  · split <;> exact ⟨_, rfl⟩

theorem reportsExcept_readFields (kind : ActionKind) (entries : List (String × Value)) :
    ReportsExcept (fun cause => cause = .overflow ∧ MeetsInfiniteField (integerFields kind) entries)
      (readFields kind entries) := by
  rw [readFields_eq_mapM]
  exact reportsExcept_mapM_entries (reportsMisfits_badAction kind) (readField kind)
    (fun _ hname v => readField_of_mem hname v) (fun _ hname v => exists_readField_of_not_mem hname v)
    entries

/-- The document names a kind of actions with fields, and has these. -/
structure IsComplete (kind : ActionKind) (entries : List (String × Value)) : Prop where
  tag : kindOf (valueUnder "type" entries) = .ok kind
  plain : kind ≠ .customTransaction
  fields : Transaction.missingNames kind.fieldNames entries = []

/-- The entries that an action of the kind is made of, in the order of its fields. -/
def ownEntries (kind : ActionKind) (entries : List (String × Value)) : List (String × Value) :=
  Transaction.knownEntries (kind.fieldNames ++ kind.optionalNames) entries

/-- The action of the kind that entries make. -/
def make (kind : ActionKind) (entries : List (String × Value)) : Outcome Action :=
  match ofFields? kind fun name => Table.find? name entries with
  | some a => .ok a
  | none => .error (.document (.missingFields kind.recordName []))

/-- The bundle of the transactions that documents describe. -/
def readBundle : Option Value → Outcome Action
  | some (.list ds) => (ds.mapM Transaction.ofDocument).map .customTransaction
  | _ => .error (.document .noTransactions)

theorem ofDocument_eq (entries : List (String × Value)) :
    ofDocument (.dict entries) = (kindOf (valueUnder "type" entries) >>= fun kind =>
      if kind = .customTransaction then readBundle (Table.find? "transactions" entries)
      else if Transaction.missingNames kind.fieldNames entries = [] then
        readFields kind (ownEntries kind entries) >>= make kind
      else .error (.document (.missingFields kind.recordName
        (Transaction.missingNames kind.fieldNames entries)))) := by
  show (kindOf _ >>= _) = _
  refine congrArg _ (funext fun kind => ?_)
  dsimp only
  split
  · split
    · next ds hds =>
      rw [hds, readBundle]
      cases ds.mapM Transaction.ofDocument <;> rfl
    · next hnone =>
      rw [readBundle]
      · rfl
      · exact hnone
  · by_cases hmissing : Transaction.missingNames kind.fieldNames entries = []
    · rw [if_pos hmissing, hmissing]
      rfl
    · rw [if_neg hmissing, if_pos (by simpa using hmissing)]
      rfl

theorem ofDocument_of_bundle (htag : kindOf (valueUnder "type" entries) = .ok .customTransaction) :
    ofDocument (.dict entries) = readBundle (Table.find? "transactions" entries) := by
  rw [ofDocument_eq, htag, ok_bind, if_pos rfl]

theorem ofDocument_of_isComplete (h : IsComplete kind entries) :
    ofDocument (.dict entries) = (readFields kind (ownEntries kind entries) >>= make kind) := by
  rw [ofDocument_eq, h.tag, ok_bind, if_neg h.plain, if_pos h.fields]

theorem reportsExcept_kindOf (tag : Value) : ReportsExcept (fun _ => False) (kindOf tag) := by
  unfold kindOf
  split
  · exact reportsExcept_ok _
  · exact reportsExcept_document _

theorem exists_document_of_not_isComplete
    (hbundle : kindOf (valueUnder "type" entries) ≠ .ok .customTransaction)
    (h : ∀ kind, ¬ IsComplete kind entries) :
    ∃ cause, ofDocument (.dict entries) = .error (.document cause) := by
  rw [ofDocument_eq]
  have hkind := reportsExcept_kindOf (valueUnder "type" entries)
  rcases hkind.cases with ⟨kind, htag⟩ | ⟨cause, hcause⟩ | ⟨cause, hcause⟩
  · have hplain : kind ≠ .customTransaction := fun heq => hbundle (heq ▸ htag)
    rw [htag, ok_bind, if_neg hplain, if_neg fun hfields => h kind ⟨htag, hplain, hfields⟩]
    exact ⟨_, rfl⟩
  · rw [hcause]
    exact ⟨cause, rfl⟩
  · exact ((hkind.data_iff cause).mp hcause).elim

theorem reportsExcept_make (kind : ActionKind) (entries : List (String × Value)) :
    ReportsExcept (fun _ => False) (make kind entries) := by
  unfold make
  split
  · exact reportsExcept_ok _
  · exact reportsExcept_document _

/-- A bundle is read with a report, unless the first transaction that cannot be read is unreported. -/
theorem reportsExcept_readBundle (field : Option Value) :
    ReportsExcept (fun cause => ∃ before d after, field = some (.list (before ++ d :: after)) ∧
      (∀ u ∈ before, ∃ t, Transaction.ofDocument u = .ok t) ∧ Transaction.IsUnreported d cause)
      (readBundle field) := by
  unfold readBundle
  split
  · next ds =>
    exact ((reportsExcept_mapM fun d _ => Transaction.reportsExcept_ofDocument d).map _).congr
      fun cause => by simp
  · next hnone =>
    refine (reportsExcept_document _).congr fun cause => ⟨False.elim, ?_⟩
    rintro ⟨before, d, after, rfl, -⟩
    exact hnone _ rfl

/-- What is wrong with the document of an action and not reported: in a bundle, the first transaction that
    cannot be read is unreported; or the integers of an action with fields meet an infinite number. -/
inductive IsUnreported : Value → DataFault → Prop
  | bundle {entries : List (String × Value)} {before after : List Value} {d : Value} {cause : DataFault}
      (htag : kindOf (valueUnder "type" entries) = .ok .customTransaction)
      (hlist : Table.find? "transactions" entries = some (.list (before ++ d :: after)))
      (hbefore : ∀ u ∈ before, ∃ t, Transaction.ofDocument u = .ok t)
      (h : Transaction.IsUnreported d cause) : IsUnreported (.dict entries) cause
  | integer {kind : ActionKind} {entries : List (String × Value)} (hcomplete : IsComplete kind entries)
      (h : MeetsInfiniteField (integerFields kind) (ownEntries kind entries)) :
      IsUnreported (.dict entries) .overflow

/-- **An action is read with a report, unless it is unreported.** -/
theorem reportsExcept_ofDocument (d : Value) : ReportsExcept (IsUnreported d) (ofDocument d) := by
  cases d with
  | dict entries =>
    -- a bundle has no fields, and an action with fields has no transactions
    by_cases htag : kindOf (valueUnder "type" entries) = .ok .customTransaction
    · rw [ofDocument_of_bundle htag]
      refine (reportsExcept_readBundle _).congr fun cause => ⟨?_, ?_⟩
      · rintro ⟨before, d, after, hlist, hbefore, h⟩
        exact .bundle htag hlist hbefore h
      · rintro (⟨-, hlist, hbefore, h⟩ | ⟨hcomplete, -⟩)
        · exact ⟨_, _, _, hlist, hbefore, h⟩
        · exact absurd (Except.ok.inj (hcomplete.tag.symm.trans htag)) hcomplete.plain
    by_cases hcomplete : ∃ kind, IsComplete kind entries
    · obtain ⟨kind, hcomplete⟩ := hcomplete
      rw [ofDocument_of_isComplete hcomplete]
      refine ((reportsExcept_readFields kind _).bind fun known _ =>
        reportsExcept_make kind known).congr fun cause => ⟨?_, ?_⟩
      · rintro (⟨rfl, h⟩ | ⟨_, _, hnone⟩)
        · exact .integer hcomplete h
        · exact hnone.elim
      · rintro (⟨htag', -⟩ | ⟨hcomplete', h⟩)
        · exact absurd htag' htag
        · cases Except.ok.inj (hcomplete.tag.symm.trans hcomplete'.tag)
          exact .inl ⟨rfl, h⟩
    · have hnone := not_exists.mp hcomplete
      obtain ⟨cause, hcause⟩ := exists_document_of_not_isComplete htag hnone
      rw [hcause]
      refine (reportsExcept_document _).congr fun cause => ⟨False.elim, ?_⟩
      rintro (⟨htag', -⟩ | ⟨hcomplete, -⟩)
      · exact htag htag'
      · exact hnone _ hcomplete
  | _ => exact (reportsExcept_document _).congr fun _ => ⟨False.elim, nofun⟩

end Action

end Proposals
