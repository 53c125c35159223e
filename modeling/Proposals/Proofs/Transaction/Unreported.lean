import Proposals.Proofs.Abi.Shape
import Proposals.Proofs.Transaction.Reading

/-!
# `Proofs.Transaction.Unreported` — what documents are refused without a report

A document of a transaction may have any shape. What is wrong with it is to be reported as a fault of
documents, but some of it is not: the types and inputs of a call are walked through before faults are
caught, and an infinite number in place of an integer is a fault that is not caught at all.

For each part of a document there is a condition under which such a fault of data comes up, and reading
ends with one exactly if the document is unreported (`Transaction.IsUnreported`); in all other cases there
is a result or a report. This is one property of a chain of steps (`Outcome.ReportsExcept`), and a chain
has it if its steps have it.
-/

namespace Proposals

/-! ## Chains that report their faults -/

namespace Outcome

variable {α β : Type} {P Q : DataFault → Prop}

/-- Where there is no result, the fault is one of documents or of data; and it is one of data exactly if
    `P` holds of that. -/
structure ReportsExcept (P : DataFault → Prop) (x : Outcome α) : Prop where
  within : Within (fun fault => (∃ cause, fault = .document cause) ∨ ∃ cause, fault = .data cause) x
  data_iff : ∀ cause, x = .error (.data cause) ↔ P cause

theorem ReportsExcept.congr {x : Outcome α} (h : ReportsExcept P x) (hiff : ∀ cause, P cause ↔ Q cause) :
    ReportsExcept Q x :=
  ⟨h.within, fun cause => (h.data_iff cause).trans (hiff cause)⟩

theorem ReportsExcept.cases {x : Outcome α} (h : ReportsExcept P x) :
    (∃ a, x = .ok a) ∨ (∃ cause, x = .error (.document cause)) ∨ ∃ cause, x = .error (.data cause) := by
  rcases h.within.cases with hok | ⟨fault, hfault, ⟨cause, rfl⟩ | ⟨cause, rfl⟩⟩
  · exact .inl hok
  · exact .inr (.inl ⟨cause, hfault⟩)
  · exact .inr (.inr ⟨cause, hfault⟩)

theorem reportsExcept_ok (a : α) : ReportsExcept (fun _ => False) (.ok a : Outcome α) :=
  ⟨within_ok _ _, fun _ => ⟨nofun, False.elim⟩⟩

theorem reportsExcept_document (cause : DocumentFault) :
    ReportsExcept (fun _ => False) (.error (.document cause) : Outcome α) :=
  ⟨within_error.mpr (.inl ⟨cause, rfl⟩), fun _ => ⟨nofun, False.elim⟩⟩

theorem reportsExcept_data (cause : DataFault) :
    ReportsExcept (fun c => c = cause) (.error (.data cause) : Outcome α) :=
  ⟨within_error.mpr (.inr ⟨cause, rfl⟩), fun _ =>
    ⟨fun h => (Fault.data.inj (Except.error.inj h)).symm, fun h => h ▸ rfl⟩⟩

/-- A chain ends with a fault of data if its first step does, or the rest on the result of that. -/
theorem ReportsExcept.bind {x : Outcome α} {f : α → Outcome β} {Q : α → DataFault → Prop}
    (hx : ReportsExcept P x) (hf : ∀ a, x = .ok a → ReportsExcept (Q a) (f a)) :
    ReportsExcept (fun cause => P cause ∨ ∃ a, x = .ok a ∧ Q a cause) (x >>= f) := by
  refine ⟨hx.within.bind fun a ha => (hf a ha).within, fun cause => ?_⟩
  rw [← hx.data_iff cause]
  cases hcase : x with
  | error fault => simp
  | ok a => simp [(hf a hcase).data_iff]

theorem ReportsExcept.map {x : Outcome α} (h : ReportsExcept P x) (f : α → β) :
    ReportsExcept P (x.map f) :=
  ⟨h.within.map f, fun cause => map_eq_error.trans (h.data_iff cause)⟩

/-- A traversal ends with the fault of data of the first item that has one. -/
theorem reportsExcept_mapM {f : α → Outcome β} {P : α → DataFault → Prop} {xs : List α}
    (h : ∀ x ∈ xs, ReportsExcept (P x) (f x)) :
    ReportsExcept (fun cause => ∃ before x after, xs = before ++ x :: after ∧
      (∀ w ∈ before, ∃ y, f w = .ok y) ∧ P x cause) (xs.mapM f) := by
  refine ⟨within_mapM fun x hx => (h x hx).within, fun cause => mapM_eq_error.trans ?_⟩
  refine exists_congr fun before => exists_congr fun x => exists_congr fun after =>
    and_congr_right fun hsplit => and_congr_right fun _ => (h x ?_).data_iff cause
  rw [hsplit]
  exact List.mem_append_cons_self

theorem reportsExcept_items (v : Value) :
    ReportsExcept (fun cause => cause = .wrongKind ∧ v.IsMemberless) v.items := by
  cases h : v.items with
  | ok vs => exact (reportsExcept_ok vs).congr fun cause => ⟨False.elim, fun hnone => hnone.2 vs h⟩
  | error fault =>
    obtain rfl := Value.items_eq_error h
    refine (reportsExcept_data _).congr fun cause => (and_iff_left fun vs hvs => ?_).symm
    exact absurd (h.symm.trans hvs) nofun

end Outcome

open Proposals.Outcome

/-! ## Entries -/

/-- The value under a name, and nothing if there is none. -/
def valueUnder (name : String) (entries : List (String × Value)) : Value :=
  (Table.find? name entries).getD .null

/-- Among the entries that hold integers there is an infinite number, and those before can be read. -/
def MeetsInfiniteField (integers : List String) : List (String × Value) → Prop
  | [] => False
  | (name, v) :: entries => name ∈ integers ∧ v.IsInfinite ∨
    (name ∈ integers → ∃ n, v.toInteger = .ok n) ∧ MeetsInfiniteField integers entries

/-- Entries that hold no integer make no difference. -/
theorem meetsInfiniteField_insert {integers : List String} {key : String} (hkey : key ∉ integers) (v : Value)
    (entries : List (String × Value)) :
    MeetsInfiniteField integers (Table.insert key v entries) ↔ MeetsInfiniteField integers entries := by
  induction entries with
  | nil => simp [Table.insert, MeetsInfiniteField, hkey]
  | cons entry entries ih =>
    obtain ⟨name, w⟩ := entry
    rw [Table.insert]
    split
    · next heq =>
      -- the value is replaced, but neither is looked at
      subst heq
      simp [MeetsInfiniteField, hkey]
    · rw [MeetsInfiniteField, MeetsInfiniteField, ih]

/-- Faults are passed on as ones of documents if they say that a value does not fit; that of an infinite
    number is passed on as it is. -/
structure ReportsMisfits (report : Fault → Fault) : Prop where
  misfit : ∀ fault, Abi.isMisfit fault = true → ∃ cause, report fault = .document cause
  overflow : report (.data .overflow) = .data .overflow

variable {report : Fault → Fault}

/-- An integer is read with a report, unless the number is infinite: all other faults say that the value
    does not fit. -/
theorem reportsExcept_toInteger (hreport : ReportsMisfits report) (v : Value) :
    ReportsExcept (fun cause => cause = .overflow ∧ v.IsInfinite)
      ((v.toInteger.map Value.int).mapError report) := by
  simp only [← Value.toInteger_eq_overflow_iff]
  cases h : v.toInteger with
  | ok n => exact (reportsExcept_ok _).congr fun cause => by simp
  | error fault =>
    rcases Abi.within_toInteger_isReadFault v fault h with hfault | rfl
    · obtain ⟨cause, hcause⟩ := hreport.misfit fault hfault
      have hne : fault ≠ .data .overflow := by
        rintro rfl
        cases hfault
      show ReportsExcept _ (.error (report fault))
      rw [hcause]
      exact (reportsExcept_document _).congr fun cause => by simp [hne]
    · show ReportsExcept _ (.error (report (.data .overflow)))
      rw [hreport.overflow]
      exact (reportsExcept_data _).congr fun cause => by simp

/-- Entries are read one after the other, where those that hold integers are read as such and the others
    are kept. -/
theorem reportsExcept_mapM_entries (hreport : ReportsMisfits report) {integers : List String}
    (read : String → Value → Outcome Value)
    (hinteger : ∀ name ∈ integers, ∀ v, read name v = (v.toInteger.map Value.int).mapError report)
    (hother : ∀ name, name ∉ integers → ∀ v, ∃ w, read name v = .ok w)
    (entries : List (String × Value)) :
    ReportsExcept (fun cause => cause = .overflow ∧ MeetsInfiniteField integers entries)
      (entries.mapM fun e => (read e.1 e.2).map (Prod.mk e.1)) := by
  induction entries with
  | nil => exact (reportsExcept_ok _).congr fun cause => by simp [MeetsInfiniteField]
  | cons e entries ih =>
    obtain ⟨name, v⟩ := e
    rw [List.mapM_cons, MeetsInfiniteField]
    by_cases hname : name ∈ integers
    · rw [hinteger name hname]
      refine (((reportsExcept_toInteger hreport v).map _).bind fun _ _ => ih.bind fun _ _ =>
        reportsExcept_ok _).congr fun cause => ?_
      rw [← Value.toInteger_eq_overflow_iff]
      cases v.toInteger with
      | ok n => simp [hname, Except.map, Except.mapError]
      | error fault => simp [hname, Except.map, Except.mapError]
    · obtain ⟨w, hw⟩ := hother name hname v
      rw [hw]
      exact (ih.bind fun _ _ => reportsExcept_ok _).congr fun cause => by simp [hname]

namespace Transaction

open Proposals.Abi

variable {kind : TransactionKind} {entries : List (String × Value)}

/-! ## Calls -/

/-- The type is one, and the value can be read by it. -/
def IsReadableBy (type v : Value) : Prop := ∃ t, typeOf type = .ok t ∧ Abi.IsReadable t v

/-- There is an input that meets an infinite number, and those before can be read by their types. -/
def MeetInfiniteInput : List Value → List Value → Prop
  | type :: types, v :: vs => (∃ t, typeOf type = .ok t ∧ MeetsInfinite t v) ∨
    IsReadableBy type v ∧ MeetInfiniteInput types vs
  | _, _ => False

theorem exists_fromDocument_iff {type v : Value} :
    (∃ x, fromDocument type v = .ok x) ↔ IsReadableBy type v := by
  constructor
  · rintro ⟨x, hx⟩
    cases htype : typeOf type with
    | error fault =>
      unfold fromDocument at hx
      rw [htype] at hx
      cases hx
    | ok t => exact ⟨t, htype, x, (fromDocument_eq_ok_iff htype).mp hx⟩
  · rintro ⟨t, htype, x, hx⟩
    exact ⟨x, (fromDocument_eq_ok_iff htype).mpr hx⟩

/-- Inputs are read with a report, unless they meet an infinite number. -/
theorem reportsExcept_readInputs (kind : TransactionKind) (types inputs : List Value) :
    ReportsExcept (fun cause => cause = .overflow ∧ MeetInfiniteInput types inputs)
      (readInputs kind types inputs) := by
  induction types generalizing inputs with
  | nil =>
    rw [readInputs]
    · exact (reportsExcept_ok _).congr fun _ => by simp [MeetInfiniteInput]
    · simp
  | cons type types ih =>
    cases inputs with
    | nil =>
      rw [readInputs]
      · exact (reportsExcept_ok _).congr fun _ => by simp [MeetInfiniteInput]
      · simp
    | cons v inputs =>
      rw [readInputs, MeetInfiniteInput, ← fromDocument_eq_overflow_iff, ← exists_fromDocument_iff]
      -- whether the later inputs are come to depends on this one
      cases hread : fromDocument type v with
      | ok x =>
        exact ((ih inputs).bind fun xs _ => reportsExcept_ok _).congr fun cause => by simp
      | error fault =>
        rcases fromDocument_eq_error hread with rfl | ⟨rfl, -⟩
        · exact (reportsExcept_document _).congr fun cause => by simp
        · exact (reportsExcept_data _).congr fun cause => by simp

theorem exists_readInputs_iff (kind : TransactionKind) {types inputs : List Value}
    (hlength : types.length = inputs.length) :
    (∃ xs, readInputs kind types inputs = .ok xs) ↔ List.Forall₂ IsReadableBy types inputs := by
  induction types generalizing inputs with
  | nil =>
    obtain rfl := List.length_eq_zero_iff.mp hlength.symm
    exact iff_of_true ⟨_, rfl⟩ .nil
  | cons type types ih =>
    obtain ⟨v, inputs, rfl⟩ := List.exists_cons_of_length_eq_add_one hlength.symm
    rw [List.forall₂_cons, ← exists_fromDocument_iff, ← ih (Nat.succ.inj hlength), readInputs]
    cases fromDocument type v with
    | error fault => simp
    | ok x => cases readInputs kind types inputs <;> simp

/-- The lists of the types and of the inputs of a call. -/
structure HasLists (entries : List (String × Value)) (types inputs : List Value) : Prop where
  types : (valueUnder "function_input_types" entries).items = .ok types
  inputs : (valueUnder "function_inputs" entries).items = .ok inputs

/-- What is wrong with a call and not reported: its types or its inputs have no members, or there are
    as many of both and an input meets an infinite number. -/
inductive IsUnreportedCall (entries : List (String × Value)) : DataFault → Prop
  | noTypes (h : (valueUnder "function_input_types" entries).IsMemberless) :
      IsUnreportedCall entries .wrongKind
  | noInputs (h : (valueUnder "function_inputs" entries).IsMemberless) :
      IsUnreportedCall entries .wrongKind
  | input {types inputs : List Value} (hlists : HasLists entries types inputs)
      (hlength : types.length = inputs.length) (h : MeetInfiniteInput types inputs) :
      IsUnreportedCall entries .overflow

/-- A call with typed inputs, with or without value. -/
def IsCallKind (kind : TransactionKind) : Prop := kind = .functionCall ∨ kind = .payableFunctionCall

/-- The token of a stream is a currency, and the inputs of a call can be read by their types. -/
structure HasReadableParts (kind : TransactionKind) (entries : List (String × Value)) : Prop where
  token : kind = .stream → ∃ c, (valueUnder "token" entries).currency? = some c
  inputs : IsCallKind kind → ∃ types inputs, HasLists entries types inputs ∧
    List.Forall₂ IsReadableBy types inputs

/-- What becomes of the lists of a call. -/
def readLists (kind : TransactionKind) (entries : List (String × Value)) (types inputs : List Value) :
    Outcome (List (String × Value)) :=
  if types.length ≠ inputs.length then .error (.document .unequalInputs)
  else (readInputs kind types inputs).map fun read =>
    Table.insert "function_inputs" (.list read) (Table.insert "function_input_types" (.list types) entries)

theorem readSpecial_of_isCallKind (h : IsCallKind kind) (entries : List (String × Value)) :
    readSpecial kind entries = ((valueUnder "function_input_types" entries).items >>= fun types =>
      (valueUnder "function_inputs" entries).items >>= readLists kind entries types) := by
  have hlists : ∀ types inputs : List Value, (do
      if types.length ≠ inputs.length then throw (.document .unequalInputs)
      let read ← readInputs kind types inputs
      return Table.insert "function_inputs" (.list read)
        (Table.insert "function_input_types" (.list types) entries) : Outcome _) =
      readLists kind entries types inputs := by
    intro types inputs
    unfold readLists
    split <;> rfl
  simp only [← funext (hlists _)]
  rcases h with rfl | rfl <;> rfl

theorem reportsExcept_readLists (kind : TransactionKind) (entries : List (String × Value))
    (types inputs : List Value) :
    ReportsExcept (fun cause => cause = .overflow ∧ types.length = inputs.length ∧
      MeetInfiniteInput types inputs) (readLists kind entries types inputs) := by
  unfold readLists
  split
  · next hlength => exact (reportsExcept_document _).congr fun cause => by simp [hlength]
  · next hlength =>
    exact ((reportsExcept_readInputs kind types inputs).map _).congr fun cause => by
      simp [not_not.mp hlength]

/-- A call is read with a report, unless it is unreported. -/
theorem reportsExcept_readCall (h : IsCallKind kind) (entries : List (String × Value)) :
    ReportsExcept (IsUnreportedCall entries) (readSpecial kind entries) := by
  rw [readSpecial_of_isCallKind h]
  refine ((reportsExcept_items _).bind fun types _ => (reportsExcept_items _).bind fun inputs _ =>
    reportsExcept_readLists kind entries types inputs).congr fun cause => ?_
  constructor
  · rintro (⟨rfl, hnone⟩ | ⟨types, htypes, ⟨rfl, hnone⟩ | ⟨inputs, hinputs, rfl, hlength, hmeets⟩⟩)
    · exact .noTypes hnone
    · exact .noInputs hnone
    · exact .input ⟨htypes, hinputs⟩ hlength hmeets
  · rintro (hnone | hnone | ⟨⟨htypes, hinputs⟩, hlength, hmeets⟩)
    · exact .inl ⟨rfl, hnone⟩
    · -- types without members come up before inputs do, with the same fault
      cases htypes : (valueUnder "function_input_types" entries).items with
      | error fault => exact .inl ⟨rfl, fun vs hvs => absurd (htypes.symm.trans hvs) (by simp)⟩
      | ok types => exact .inr ⟨types, rfl, .inl ⟨rfl, hnone⟩⟩
    · exact .inr ⟨_, htypes, .inr ⟨_, hinputs, rfl, hlength, hmeets⟩⟩

theorem exists_readLists_iff (kind : TransactionKind) (entries : List (String × Value))
    {types inputs : List Value} : (∃ special, readLists kind entries types inputs = .ok special) ↔
      List.Forall₂ IsReadableBy types inputs := by
  unfold readLists
  split
  · next hlength => exact iff_of_false nofun fun h => hlength h.length_eq
  · next hlength =>
    rw [← exists_readInputs_iff kind (not_not.mp hlength)]
    cases readInputs kind types inputs <;> simp [Except.map]

/-! ## Transactions -/

/-- The currency of a stream and the inputs of a call are read with a report, unless a call is
    unreported. -/
theorem reportsExcept_readSpecial (kind : TransactionKind) (entries : List (String × Value)) :
    ReportsExcept (fun cause => IsCallKind kind ∧ IsUnreportedCall entries cause)
      (readSpecial kind entries) := by
  by_cases hcall : IsCallKind kind
  · exact (reportsExcept_readCall hcall entries).congr fun cause => (and_iff_right hcall).symm
  · have hnone : ∀ cause, False ↔ IsCallKind kind ∧ IsUnreportedCall entries cause := fun cause =>
      ⟨False.elim, fun h => hcall h.1⟩
    cases kind with
    | stream =>
      unfold readSpecial
      dsimp only
      split
      · exact (reportsExcept_ok _).congr hnone
      · exact (reportsExcept_document _).congr hnone
    | functionCall => exact absurd (.inl rfl) hcall
    | payableFunctionCall => exact absurd (.inr rfl) hcall
    | _ => exact (reportsExcept_ok _).congr hnone

theorem exists_readSpecial_iff :
    (∃ special, readSpecial kind entries = .ok special) ↔ HasReadableParts kind entries := by
  by_cases hcall : IsCallKind kind
  · have hstream : kind ≠ .stream := by
      rintro rfl
      exact absurd hcall (by simp [IsCallKind])
    have hparts : HasReadableParts kind entries ↔ ∃ types inputs, HasLists entries types inputs ∧
        List.Forall₂ IsReadableBy types inputs :=
      ⟨fun h => h.inputs hcall, fun h => ⟨fun h => absurd h hstream, fun _ => h⟩⟩
    rw [hparts, readSpecial_of_isCallKind hcall]
    simp only [← exists_readLists_iff kind entries, bind_eq_ok]
    constructor
    · rintro ⟨special, types, htypes, inputs, hinputs, h⟩
      exact ⟨types, inputs, ⟨htypes, hinputs⟩, special, h⟩
    · rintro ⟨types, inputs, ⟨htypes, hinputs⟩, special, h⟩
      exact ⟨special, types, htypes, inputs, hinputs, h⟩
  · have hparts : HasReadableParts kind entries ↔
        (kind = .stream → ∃ c, (valueUnder "token" entries).currency? = some c) :=
      ⟨fun h => h.token, fun h => ⟨h, fun h => absurd h hcall⟩⟩
    rw [hparts]
    cases kind with
    | stream =>
      unfold readSpecial
      dsimp only
      rw [valueUnder]
      split
      · next c hc => simp [hc]
      · next hnone => simp [hnone]
    | functionCall => exact absurd (.inl rfl) hcall
    | payableFunctionCall => exact absurd (.inr rfl) hcall
    | _ => exact iff_of_true ⟨_, rfl⟩ nofun

/-- The entries that are replaced hold no integers. -/
theorem meetsInfiniteField_of_readSpecial {special : List (String × Value)}
    (h : readSpecial kind entries = .ok special) :
    MeetsInfiniteField integerFields special ↔ MeetsInfiniteField integerFields entries := by
  have htoken : "token" ∉ integerFields := by decide
  have htypes : "function_input_types" ∉ integerFields := by decide
  have hinputs : "function_inputs" ∉ integerFields := by decide
  cases isSpecial_of_readSpecial h with
  | stream => exact meetsInfiniteField_insert htoken _ _
  | call => exact (meetsInfiniteField_insert hinputs _ _).trans (meetsInfiniteField_insert htypes _ _)
  | plain => exact Iff.rfl

theorem reportsMisfits_badField (kind : TransactionKind) : ReportsMisfits (badField kind) where
  misfit fault h := by
    unfold badField
    split
    · exact ⟨_, rfl⟩
    · exact ⟨_, if_pos h⟩
  overflow := rfl

theorem readInteger_eq (kind : TransactionKind) (v : Value) :
    readInteger kind v = (v.toInteger.map .int).mapError (badField kind) := by
  unfold readInteger
  cases v.toInteger <;> rfl

theorem readIntegers_eq_mapM (kind : TransactionKind) (entries : List (String × Value)) :
    readIntegers kind entries = entries.mapM fun e =>
      (if e.1 ∈ integerFields then readInteger kind e.2 else .ok e.2).map (Prod.mk e.1) := by
  induction entries with
  | nil => rfl
  | cons e entries ih =>
    rw [readIntegers, List.mapM_cons, ih]
    simp only [List.contains_iff_mem]
    split
    · cases readInteger kind e.2 <;> rfl
    · rfl

/-- Integers are read with a report, unless they meet an infinite number. -/
theorem reportsExcept_readIntegers (kind : TransactionKind) (entries : List (String × Value)) :
    ReportsExcept (fun cause => cause = .overflow ∧ MeetsInfiniteField integerFields entries)
      (readIntegers kind entries) := by
  rw [readIntegers_eq_mapM]
  refine reportsExcept_mapM_entries (reportsMisfits_badField kind)
    (fun name v => if name ∈ integerFields then readInteger kind v else .ok v) (fun name hname v => ?_)
    (fun name hname v => ⟨v, if_neg hname⟩) entries
  rw [if_pos hname, readInteger_eq]

theorem reportsExcept_kindOf (tag : Value) : ReportsExcept (fun _ => False) (kindOf tag) := by
  unfold kindOf
  split
  · exact reportsExcept_ok _
  · exact reportsExcept_document _

/-- The document names a kind of transactions and has the fields of the kind. -/
structure IsComplete (kind : TransactionKind) (entries : List (String × Value)) : Prop where
  tag : kindOf (valueUnder "type" entries) = .ok kind
  fields : missingNames kind.fieldNames entries = []

theorem IsComplete.unique {kind' : TransactionKind} (h : IsComplete kind entries)
    (h' : IsComplete kind' entries) : kind = kind' :=
  Except.ok.inj (h.tag.symm.trans h'.tag)

/-- The entries that a transaction of the kind is made of, in the order of its fields. -/
def ownEntries (kind : TransactionKind) (entries : List (String × Value)) : List (String × Value) :=
  knownEntries (kind.fieldNames ++ kind.optionalNames) entries

/-- The transaction of the kind that entries make. -/
def make (kind : TransactionKind) (entries : List (String × Value)) : Outcome Transaction :=
  match ofFields? kind fun name => Table.find? name entries with
  | some t => .ok t
  | none => .error (.document (.missingFields kind.recordName []))

theorem ofDocument_eq (entries : List (String × Value)) :
    ofDocument (.dict entries) = (kindOf (valueUnder "type" entries) >>= fun kind =>
      if missingNames kind.fieldNames entries = [] then
        readSpecial kind (ownEntries kind entries) >>= fun special => readIntegers kind special >>= make kind
      else .error (.document (.missingFields kind.recordName (missingNames kind.fieldNames entries)))) := by
  show (kindOf _ >>= _) = _
  refine congrArg _ (funext fun kind => ?_)
  by_cases hmissing : missingNames kind.fieldNames entries = []
  · rw [if_pos hmissing, hmissing]
    rfl
  · dsimp only
    rw [if_neg hmissing, if_pos (by simpa using hmissing)]
    rfl

theorem ofDocument_of_isComplete (h : IsComplete kind entries) :
    ofDocument (.dict entries) =
      (readSpecial kind (ownEntries kind entries) >>= fun special => readIntegers kind special >>= make kind) := by
  rw [ofDocument_eq, h.tag, ok_bind, if_pos h.fields]

theorem exists_document_of_not_isComplete (h : ∀ kind, ¬ IsComplete kind entries) :
    ∃ cause, ofDocument (.dict entries) = .error (.document cause) := by
  rw [ofDocument_eq]
  have hkind := reportsExcept_kindOf (valueUnder "type" entries)
  rcases hkind.cases with ⟨kind, htag⟩ | ⟨cause, hcause⟩ | ⟨cause, hcause⟩
  · rw [htag, ok_bind, if_neg fun hfields => h kind ⟨htag, hfields⟩]
    exact ⟨_, rfl⟩
  · rw [hcause]
    exact ⟨cause, rfl⟩
  · exact ((hkind.data_iff cause).mp hcause).elim

/-- What is wrong with the document of a transaction and not reported: it is the document of a call that
    is unreported, or its integers meet an infinite number, where all else can be read. -/
inductive IsUnreported : Value → DataFault → Prop
  | call {kind : TransactionKind} {entries : List (String × Value)} {cause : DataFault}
      (hcomplete : IsComplete kind entries) (hcall : IsCallKind kind)
      (h : IsUnreportedCall (ownEntries kind entries) cause) : IsUnreported (.dict entries) cause
  | integer {kind : TransactionKind} {entries : List (String × Value)}
      (hcomplete : IsComplete kind entries) (hparts : HasReadableParts kind (ownEntries kind entries))
      (h : MeetsInfiniteField integerFields (ownEntries kind entries)) :
      IsUnreported (.dict entries) .overflow

/-- **A transaction is read with a report, unless it is unreported.** -/
theorem reportsExcept_ofDocument (d : Value) : ReportsExcept (IsUnreported d) (ofDocument d) := by
  cases d with
  | dict entries =>
    by_cases hcomplete : ∃ kind, IsComplete kind entries
    · obtain ⟨kind, hcomplete⟩ := hcomplete
      have hmake : ∀ known, ReportsExcept (fun _ => False) (make kind known) := by
        intro known
        unfold make
        split
        · exact reportsExcept_ok _
        · exact reportsExcept_document _
      rw [ofDocument_of_isComplete hcomplete]
      refine ((reportsExcept_readSpecial kind _).bind fun special _ =>
        (reportsExcept_readIntegers kind special).bind fun known _ => hmake known).congr fun cause => ?_
      -- a fault of data comes from the inputs of a call, or else from the integers behind them
      constructor
      · rintro (⟨hcall, h⟩ | ⟨special, hspecial, ⟨rfl, h⟩ | ⟨_, _, hnone⟩⟩)
        · exact .call hcomplete hcall h
        · exact .integer hcomplete (exists_readSpecial_iff.mp ⟨special, hspecial⟩)
            ((meetsInfiniteField_of_readSpecial hspecial).mp h)
        · exact hnone.elim
      · rintro (⟨hcomplete', hcall, h⟩ | ⟨hcomplete', hparts, h⟩)
        · cases hcomplete.unique hcomplete'
          exact .inl ⟨hcall, h⟩
        · cases hcomplete.unique hcomplete'
          obtain ⟨special, hspecial⟩ := exists_readSpecial_iff.mpr hparts
          exact .inr ⟨special, hspecial, .inl ⟨rfl, (meetsInfiniteField_of_readSpecial hspecial).mpr h⟩⟩
    · -- without a kind or one of its fields, nothing that is under the names is looked at
      have hnone := not_exists.mp hcomplete
      obtain ⟨cause, hcause⟩ := exists_document_of_not_isComplete hnone
      rw [hcause]
      refine (reportsExcept_document _).congr fun cause => ⟨False.elim, ?_⟩
      rintro (⟨hcomplete, -, -⟩ | ⟨hcomplete, -, -⟩) <;> exact hnone _ hcomplete
  | _ => exact (reportsExcept_document _).congr fun _ => ⟨False.elim, nofun⟩

end Transaction

end Proposals
