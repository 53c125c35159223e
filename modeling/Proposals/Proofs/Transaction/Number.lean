import Proposals.Proofs.Number.Integer
import Proposals.Proofs.Transaction.Unreported

/-!
# `Proofs.Transaction.Number` — the numbers of transactions that are read

A transaction that is read from a document has integers in it: those of its fields, and those that stand
among the inputs of a call where their types ask for integers. For each of them there is a value in the
document, and what the two have to do with each other is a relation `R` of values and integers
(`Transaction.NumbersAre`).

Whatever document is read, that relation is the one by which values are used for integers
(`numbersAre_of_ofDocument`). So the integers are those that the document denotes, unless some of the
values are truth values or fractions (`numbersAre_iff_not_holdsNumber`).
-/

namespace Proposals

open Proposals.Outcome

/-! ## Numbers in arguments -/

namespace Abi

open AbiType

variable {leaf leaf' : LeafRelation} {p : String → Value → Prop}

mutual
/-- Somewhere along the type `p` holds of what stands in the value for a basic type. -/
def HoldsLeaf (p : String → Value → Prop) : AbiType → Value → Prop
  | .array item _, v => ∃ vs, v.items = .ok vs ∧ ∃ u ∈ vs, HoldsLeaf p item u
  | .tuple components, v => ∃ vs, v.items = .ok vs ∧ HoldLeaf p components vs
  | .basic base _, v => p base v

/-- The same for the components of a tuple, as far as there are both a type and a member. -/
def HoldLeaf (p : String → Value → Prop) : List AbiType → List Value → Prop
  | t :: ts, v :: vs => HoldsLeaf p t v ∨ HoldLeaf p ts vs
  | _, _ => False
end

mutual
/-- Corresponding values correspond in a closer way too, unless `p` holds of one of their parts. -/
theorem corresponds_iff_not_holdsLeaf
    (hleaf : ∀ base v x, leaf base v x → (leaf' base v x ↔ ¬ p base v)) : (t : AbiType) → {v x : Value} →
    Corresponds leaf t v x → (Corresponds leaf' t v x ↔ ¬ HoldsLeaf p t v)
  | .array item _, v, x, ⟨vs, xs, hvs, hx, hall⟩ => by
    have hitems := forall₂_iff_forall_mem hall fun _ _ => corresponds_iff_not_holdsLeaf hleaf item
    subst hx
    simp [Corresponds, HoldsLeaf, hvs, hitems]
  | .tuple components, v, x, ⟨vs, xs, hvs, hx, hall⟩ => by
    have hitems := correspondAll_iff_not_holdLeaf hleaf components hall
    subst hx
    simp [Corresponds, HoldsLeaf, hvs, hitems]
  | .basic base _, v, x, h => hleaf base v x h

theorem correspondAll_iff_not_holdLeaf
    (hleaf : ∀ base v x, leaf base v x → (leaf' base v x ↔ ¬ p base v)) :
    (ts : List AbiType) → {vs xs : List Value} →
    CorrespondAll leaf ts vs xs → (CorrespondAll leaf' ts vs xs ↔ ¬ HoldLeaf p ts vs)
  | [], vs, xs, h => by
    rw [CorrespondAll] at h ⊢
    · simp [h, HoldLeaf]
    all_goals exact nofun
  | t :: ts, [], xs, h => by
    rw [CorrespondAll] at h ⊢
    · simp [h, HoldLeaf]
    all_goals exact nofun
  | t :: ts, v :: vs, _, ⟨y, ys, rfl, hy, hys⟩ => by
    have hhead := corresponds_iff_not_holdsLeaf hleaf t hy
    have htail := correspondAll_iff_not_holdLeaf hleaf ts hys
    simp [CorrespondAll, HoldLeaf, hhead, htail]
end

/-- Where an integer is asked for, there is one, and it is related to the value. -/
def IntegerLeaf (R : Value → Int → Prop) : LeafRelation := fun base v x =>
  base = "uint" ∨ base = "int" → ∃ n, x = .int n ∧ R v n

/-- An integer is asked for, and `P` holds of the value. -/
def HoldsInteger (P : Value → Prop) (base : String) (v : Value) : Prop :=
  (base = "uint" ∨ base = "int") ∧ P v

theorem integerLeaf_of_readsBasic {base : String} {v x : Value} (h : ReadsBasic base v x) :
    IntegerLeaf (fun v n => v.toInteger = .ok n) base v x := by
  intro hbase
  have hother : base ≠ "address" ∧ base ≠ "bytes" := by
    rcases hbase with rfl | rfl <;> decide
  unfold ReadsBasic readBasic at h
  simp only [beq_iff_eq, hother.1, hother.2, if_false, Bool.or_eq_true] at h
  rw [if_pos hbase] at h
  obtain ⟨n, hn, rfl⟩ := map_eq_ok.mp h
  exact ⟨n, rfl, hn⟩

theorem integerLeaf_iff {R S : Value → Int → Prop} {P : Value → Prop}
    (h : ∀ v n, R v n → (S v n ↔ ¬ P v)) (base : String) (v x : Value) (hleaf : IntegerLeaf R base v x) :
    IntegerLeaf S base v x ↔ ¬ HoldsInteger P base v := by
  rw [HoldsInteger, not_and]
  refine forall_congr' fun hbase => ?_
  obtain ⟨n, rfl, hn⟩ := hleaf hbase
  simp [h v n hn]

end Abi

/-! ## Numbers in fields -/

/-- **The field comes from the value under its name**, to which it is related; a nonce that is left out is
    zero. -/
def ReadsField (R : Value → Int → Prop) (d : Value) (name : String) (w : Value) : Prop :=
  (∃ v n, d.find? name = some v ∧ w = .int n ∧ R v n) ∨
    name = "nonce" ∧ d.find? name = none ∧ w = .int 0

/-- The fields that hold integers come from the document. -/
def FieldsAre (R : Value → Int → Prop) (d : Value) (fields : List (String × Value)) : Prop :=
  ∀ field ∈ fields, field.1 ∈ Transaction.integerFields → ReadsField R d field.1 field.2

/-- Under the name of a field that holds an integer, the document has a value of which `P` holds. -/
def FieldsHold (P : Value → Prop) (d : Value) (fields : List (String × Value)) : Prop :=
  ∃ field ∈ fields, field.1 ∈ Transaction.integerFields ∧ ∃ v, d.find? field.1 = some v ∧ P v

variable {R S : Value → Int → Prop} {P : Value → Prop} {d : Value}

theorem ReadsField.iff_not (h : ∀ v n, R v n → (S v n ↔ ¬ P v)) {name : String} {w : Value}
    (hfield : ReadsField R d name w) :
    ReadsField S d name w ↔ ¬ ∃ v, d.find? name = some v ∧ P v := by
  rcases hfield with ⟨v, n, hv, rfl, hR⟩ | ⟨rfl, hnone, rfl⟩
  · simp [ReadsField, hv, h v n hR]
  · simp [ReadsField, hnone]

theorem FieldsAre.iff_not (h : ∀ v n, R v n → (S v n ↔ ¬ P v)) {fields : List (String × Value)}
    (hfields : FieldsAre R d fields) : FieldsAre S d fields ↔ ¬ FieldsHold P d fields := by
  unfold FieldsAre FieldsHold
  simp only [not_exists, not_and]
  refine forall₂_congr fun field hfield => forall_congr' fun hname => ?_
  rw [(hfields field hfield hname).iff_not h]
  simp only [not_exists, not_and]

/-- Reading entries one after the other finds a value under a name where there was one. -/
theorem find?_of_mapM {read : String → Value → Outcome Value} {entries known : List (String × Value)}
    (h : (entries.mapM fun e => (read e.1 e.2).map (Prod.mk e.1)) = .ok known) (name : String) :
    Table.find? name entries = none ∧ Table.find? name known = none ∨
      ∃ v w, Table.find? name entries = some v ∧ Table.find? name known = some w ∧ read name v = .ok w := by
  induction entries generalizing known with
  | nil =>
    cases h
    exact .inl ⟨rfl, rfl⟩
  | cons e entries ih =>
    rw [List.mapM_cons] at h
    obtain ⟨_, he, h⟩ := bind_eq_ok.mp h
    obtain ⟨w, hw, rfl⟩ := map_eq_ok.mp he
    obtain ⟨known, hknown, h⟩ := bind_eq_ok.mp h
    cases h
    rw [Table.find?, Table.find?]
    by_cases hname : e.1 = name
    · subst hname
      exact .inr ⟨e.2, w, if_pos rfl, if_pos rfl, hw⟩
    · rw [if_neg hname, if_neg hname]
      exact ih hknown

/-- A field is the value under its name, or the nonce that is left out. -/
def IsFieldIn (entries : List (String × Value)) (field : String × Value) : Prop :=
  Table.find? field.1 entries = some field.2 ∨
    Table.find? field.1 entries = none ∧ field = ("nonce", .int 0)

/-- **A field that holds an integer is read from the document.** -/
theorem readsField_of_mapM (read : String → Value → Outcome Value) {report : Fault → Fault}
    {entries known : List (String × Value)}
    (hknown : (entries.mapM fun e => (read e.1 e.2).map (Prod.mk e.1)) = .ok known)
    {field : String × Value} (hfield : IsFieldIn known field)
    (hread : ∀ v, read field.1 v = (v.toInteger.map Value.int).mapError report)
    (hsource : Table.find? field.1 entries = d.find? field.1) :
    ReadsField (fun v n => v.toInteger = .ok n) d field.1 field.2 := by
  rcases find?_of_mapM hknown field.1 with ⟨hnone, hnone'⟩ | ⟨v, w, hv, hw, hvw⟩
  · rcases hfield with hsome | ⟨-, rfl⟩
    · cases hnone'.symm.trans hsome
    · exact .inr ⟨rfl, hsource.symm.trans hnone, rfl⟩
  · rcases hfield with hsome | ⟨hnone, -⟩
    · cases hw.symm.trans hsome
      rw [hread] at hvw
      cases hn : v.toInteger with
      | error fault =>
        rw [hn] at hvw
        cases hvw
      | ok n =>
        rw [hn] at hvw
        rw [← Except.ok.inj hvw]
        exact .inl ⟨v, n, hsource.symm.trans hv, rfl, hn⟩
    · cases hw.symm.trans hnone

namespace Transaction

open Proposals.Abi

variable {kind : TransactionKind} {entries : List (String × Value)} {t : Transaction}

/-! ## Numbers of transactions -/

/-- The document has types and values for the inputs of a call. -/
structure HasInputs (d : Value) (names : List Value) (ts : List AbiType) (vs : List Value) : Prop where
  typesField : ∃ v, d.find? "function_input_types" = some v ∧ v.items = .ok names
  areTypes : names.mapM typeOf = .ok ts
  inputsField : ∃ v, d.find? "function_inputs" = some v ∧ v.items = .ok vs
  equal : names.length = vs.length

theorem HasInputs.unique {names names' : List Value} {ts ts' : List AbiType} {vs vs' : List Value}
    (h : HasInputs d names ts vs) (h' : HasInputs d names' ts' vs') : ts = ts' ∧ vs = vs' := by
  obtain ⟨⟨_, hname, hitems⟩, hts, ⟨_, hinput, hvs⟩, -⟩ := h
  obtain ⟨⟨_, hname', hitems'⟩, hts', ⟨_, hinput', hvs'⟩, -⟩ := h'
  cases hname.symm.trans hname'
  cases hitems.symm.trans hitems'
  cases hinput.symm.trans hinput'
  exact ⟨Except.ok.inj (hts.symm.trans hts'), Except.ok.inj (hvs.symm.trans hvs')⟩

/-- The inputs of a call come from those of the document, along their types. -/
inductive InputsAre (R : Value → Int → Prop) (d : Value) (call : FunctionCall) : Prop where
  | mk {names vs xs : List Value} {ts : List AbiType} : HasInputs d names ts vs →
    call.inputTypes = .list names → call.inputs = .list xs → CorrespondAll (IntegerLeaf R) ts vs xs →
    InputsAre R d call

/-- Among the inputs that the document has for a call, and where their types ask for an integer, there is
    a value of which `P` holds. -/
inductive InputsHold (P : Value → Prop) (d : Value) : Prop where
  | mk {names vs : List Value} {ts : List AbiType} : HasInputs d names ts vs →
    HoldLeaf (HoldsInteger P) ts vs → InputsHold P d

/-- **The integers of the transaction come from the document**: those of its fields, and those among the
    inputs of a call. -/
structure NumbersAre (R : Value → Int → Prop) (d : Value) (t : Transaction) : Prop where
  fields : FieldsAre R d t.fields
  inputs : ∀ call, t.call? = some call → InputsAre R d call

/-- Where the transaction has an integer, the document has a value of which `P` holds. -/
def HoldsNumber (P : Value → Prop) (d : Value) (t : Transaction) : Prop :=
  FieldsHold P d t.fields ∨ (∃ call, t.call? = some call) ∧ InputsHold P d

theorem InputsAre.iff_not (h : ∀ v n, R v n → (S v n ↔ ¬ P v)) {call : FunctionCall}
    (hinputs : InputsAre R d call) : InputsAre S d call ↔ ¬ InputsHold P d := by
  obtain ⟨hdocument, hnames, hxs, hall⟩ := hinputs
  have hleaf := correspondAll_iff_not_holdLeaf (integerLeaf_iff h) _ hall
  constructor
  · rintro ⟨hdocument', -, hxs', hall'⟩ ⟨hdocument'', hhold⟩
    obtain ⟨rfl, rfl⟩ := hdocument.unique hdocument'
    obtain ⟨rfl, rfl⟩ := hdocument.unique hdocument''
    cases hxs.symm.trans hxs'
    exact hleaf.mp hall' hhold
  · exact fun hnot => .mk hdocument hnames hxs (hleaf.mpr fun hhold => hnot (.mk hdocument hhold))

/-- **The integers are related in a closer way too, unless `P` holds of one of their values.** -/
theorem numbersAre_iff_not_holdsNumber (h : ∀ v n, R v n → (S v n ↔ ¬ P v)) (ht : t.NumbersAre R d) :
    t.NumbersAre S d ↔ ¬ t.HoldsNumber P d := by
  rw [HoldsNumber, not_or, ← ht.fields.iff_not h]
  constructor
  · refine fun hS => ⟨hS.fields, ?_⟩
    rintro ⟨⟨call, hcall⟩, hhold⟩
    exact ((ht.inputs call hcall).iff_not h).mp (hS.inputs call hcall) hhold
  · exact fun ⟨hfields, hnot⟩ => ⟨hfields, fun call hcall =>
      ((ht.inputs call hcall).iff_not h).mpr fun hhold => hnot ⟨⟨call, hcall⟩, hhold⟩⟩

/-! ## Reading -/

theorem exists_correspondAll_of_readInputs {names vs xs : List Value}
    (h : readInputs kind names vs = .ok xs) (hlength : names.length = vs.length) :
    ∃ ts, names.mapM typeOf = .ok ts ∧ CorrespondAll ReadsBasic ts vs xs := by
  induction names generalizing vs xs with
  | nil =>
    cases h
    exact ⟨[], rfl, rfl⟩
  | cons name names ih =>
    obtain ⟨v, vs, rfl⟩ := List.exists_cons_of_length_eq_add_one hlength.symm
    unfold readInputs at h
    split at h
    · next x hx =>
      obtain ⟨xs, hxs, h⟩ := bind_eq_ok.mp h
      cases h
      obtain ⟨t, htype, -⟩ := exists_fromDocument_iff.mp ⟨x, hx⟩
      obtain ⟨ts, hts, hall⟩ := ih hxs (Nat.succ.inj hlength)
      refine ⟨t :: ts, ?_, x, xs, rfl, (fromDocument_eq_ok_iff htype).mp hx, hall⟩
      rw [List.mapM_cons, htype, ok_bind, hts]
      rfl
    · cases h

/-- Only streams have a nonce. -/
theorem exists_stream_of_nonce {w : Value} (h : ("nonce", w) ∈ t.fields) :
    ∃ s, t = .stream s ∧ w = s.nonce := by
  cases t <;> simp [fields, callFields] at h
  exact ⟨_, rfl, h⟩

theorem nonce_of_ofFields? {get : String → Option Value} {s : Stream}
    (h : ofFields? kind get = some (.stream s)) : s.nonce = (get "nonce").getD (.int 0) := by
  cases kind <;> simp only [ofFields?, callOf?, Option.bind_eq_bind, Option.bind_eq_some_iff,
    Option.pure_def, Option.some.injEq, reduceCtorEq, and_false, exists_false, stream.injEq] at h
  obtain ⟨_, -, _, -, _, -, _, -, _, -, _, -, rfl⟩ := h
  rfl

/-- The fields of a transaction are the entries that it is made of. -/
theorem isFieldIn_of_make (h : make kind entries = .ok t) :
    t.kind? = some kind ∧ ∀ field ∈ t.fields, IsFieldIn entries field := by
  unfold make at h
  split at h
  · next t' hmake =>
    cases h
    obtain ⟨hkind, hget⟩ := get_of_ofFields? hmake
    refine ⟨hkind, fun ⟨name, w⟩ hfield => ?_⟩
    -- all fields but the nonce of a stream must be there
    by_cases hname : name = "nonce"
    · subst hname
      obtain ⟨s, rfl, rfl⟩ := exists_stream_of_nonce hfield
      have hnonce := nonce_of_ofFields? hmake
      cases hentry : Table.find? "nonce" entries with
      | some v => exact .inl (by rw [hentry, hnonce, hentry, Option.getD_some])
      | none => exact .inr ⟨hentry, by rw [hnonce, hentry, Option.getD_none]⟩
    · exact .inl (hget _ hfield hname)
  · cases h

/-- The document of a transaction that is read is complete, and read step by step. -/
theorem steps_of_ofDocument (h : ofDocument d = .ok t) :
    ∃ kind entries special known, d = .dict entries ∧ IsComplete kind entries ∧
      readSpecial kind (ownEntries kind entries) = .ok special ∧ readIntegers kind special = .ok known ∧
      make kind known = .ok t := by
  cases d with
  | dict entries =>
    by_cases hcomplete : ∃ kind, IsComplete kind entries
    · obtain ⟨kind, hcomplete⟩ := hcomplete
      rw [ofDocument_of_isComplete hcomplete] at h
      obtain ⟨special, hspecial, h⟩ := bind_eq_ok.mp h
      obtain ⟨known, hknown, hmake⟩ := bind_eq_ok.mp h
      exact ⟨kind, entries, special, known, rfl, hcomplete, hspecial, hknown, hmake⟩
    · obtain ⟨cause, hcause⟩ := exists_document_of_not_isComplete (not_exists.mp hcomplete)
      cases hcause.symm.trans h
  | _ => cases h

/-- The entries that are replaced hold no integers. -/
theorem find?_of_readSpecial {special : List (String × Value)} (h : readSpecial kind entries = .ok special)
    {name : String} (hname : name ∈ integerFields) :
    Table.find? name special = Table.find? name entries := by
  have hplain : name ≠ "token" ∧ name ≠ "function_input_types" ∧ name ≠ "function_inputs" := by
    revert name
    decide
  obtain ⟨htoken, htypes, hinputs⟩ := hplain
  cases isSpecial_of_readSpecial h with
  | stream => rw [Table.find?_insert, if_neg htoken.symm]
  | call => rw [Table.find?_insert, if_neg hinputs.symm, Table.find?_insert, if_neg htypes.symm]
  | plain => rfl

theorem find?_ownEntries {name : String} (hname : name ∈ kind.fieldNames ++ kind.optionalNames) :
    Table.find? name (ownEntries kind entries) = Table.find? name entries := by
  rw [ownEntries, find?_knownEntries, if_pos hname]

/-- A call is of a kind with typed inputs, and these are among its fields. -/
theorem fields_of_call? {call : FunctionCall} (hcall : t.call? = some call) (hkind : t.kind? = some kind) :
    IsCallKind kind ∧ ("function_inputs", call.inputs) ∈ t.fields ∧
      ("function_input_types", call.inputTypes) ∈ t.fields := by
  cases t <;> cases hcall <;> cases hkind <;> simp [IsCallKind, fields, callFields]

theorem exists_find?_of_items {name : String} {vs : List Value} (h : (valueUnder name entries).items = .ok vs) :
    ∃ v, Table.find? name entries = some v ∧ v.items = .ok vs := by
  unfold valueUnder at h
  cases hfind : Table.find? name entries with
  | none =>
    rw [hfind] at h
    cases h
  | some v =>
    rw [hfind] at h
    exact ⟨v, rfl, h⟩

/-- Reading a call replaces its types and inputs by the lists that they are read to. -/
theorem lists_of_readSpecial {special : List (String × Value)} (hkind : IsCallKind kind)
    (h : readSpecial kind entries = .ok special) :
    ∃ names vs xs, HasLists entries names vs ∧ names.length = vs.length ∧ readInputs kind names vs = .ok xs ∧
      Table.find? "function_inputs" special = some (.list xs) ∧
      Table.find? "function_input_types" special = some (.list names) := by
  rw [readSpecial_of_isCallKind hkind] at h
  obtain ⟨names, hnames, h⟩ := bind_eq_ok.mp h
  obtain ⟨vs, hvs, h⟩ := bind_eq_ok.mp h
  unfold readLists at h
  split at h
  · cases h
  · next hlength =>
    obtain ⟨xs, hxs, rfl⟩ := map_eq_ok.mp h
    refine ⟨names, vs, xs, ⟨hnames, hvs⟩, not_not.mp hlength, hxs, ?_, ?_⟩
    · rw [Table.find?_insert, if_pos rfl]
    · rw [Table.find?_insert, if_neg (by decide), Table.find?_insert, if_pos rfl]

/-- **The integers of a transaction that is read are those that its values are used for.** -/
theorem numbersAre_of_ofDocument (h : ofDocument d = .ok t) :
    t.NumbersAre (fun v n => v.toInteger = .ok n) d := by
  obtain ⟨kind, entries, special, known, rfl, hcomplete, hspecial, hknown, hmake⟩ := steps_of_ofDocument h
  obtain ⟨hkind, hfields⟩ := isFieldIn_of_make hmake
  have hown : ∀ field ∈ t.fields, field.1 ∈ kind.fieldNames ++ kind.optionalNames := fun field hfield =>
    map_fst_fields hkind ▸ List.mem_map_of_mem hfield
  constructor
  · -- integers are read last, from the values that the document has under their names
    intro field hfield hname
    rw [readIntegers_eq_mapM] at hknown
    refine readsField_of_mapM (fun name v => if name ∈ integerFields then readInteger kind v else .ok v)
      hknown (hfields field hfield) (fun v => (if_pos hname).trans (readInteger_eq kind v)) ?_
    exact (find?_of_readSpecial hspecial hname).trans (find?_ownEntries (hown field hfield))
  · intro call hcall
    obtain ⟨hcallKind, hinputs, htypes⟩ := fields_of_call? hcall hkind
    obtain ⟨names, vs, xs, hlists, hlength, hxs, hreadInputs, hreadTypes⟩ :=
      lists_of_readSpecial hcallKind hspecial
    -- what is read is among the fields
    have hfield : ∀ {name : String} {v w : Value}, (name, v) ∈ t.fields → Table.find? name special = some w →
        integerFields.contains name = false → name ≠ "nonce" → v = w := by
      intro name v w hmem hfind hname hnonce
      rcases hfields _ hmem with hsome | ⟨-, heq⟩
      · rw [find?_readIntegers hknown hname] at hsome
        exact Option.some.inj (hsome.symm.trans hfind)
      · exact absurd (congrArg Prod.fst heq) hnonce
    have hsource : ∀ {name : String} {v w : Value}, (name, v) ∈ t.fields →
        Table.find? name (ownEntries kind entries) = some w → Table.find? name entries = some w :=
      fun hmem hfind => (find?_ownEntries (hown _ hmem)).symm.trans hfind
    obtain ⟨v, hv, hnames⟩ := exists_find?_of_items hlists.types
    obtain ⟨w, hw, hvs⟩ := exists_find?_of_items hlists.inputs
    obtain ⟨ts, hts, hall⟩ := exists_correspondAll_of_readInputs hxs hlength
    refine .mk ⟨⟨v, hsource htypes hv, hnames⟩, hts, ⟨w, hsource hinputs hw, hvs⟩, hlength⟩
      (hfield htypes hreadTypes (by decide) (by decide)) (hfield hinputs hreadInputs (by decide) (by decide))
      (CorrespondAll.mono (fun _ _ _ => integerLeaf_of_readsBasic) ts hall)

end Transaction

end Proposals
