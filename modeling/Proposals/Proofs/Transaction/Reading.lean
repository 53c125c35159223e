import Proposals.CommandLine
import Proposals.Proofs.Abi.Structure
import Proposals.Proofs.Json.Value
import Proposals.Proofs.Transaction.Document

/-!
# `Proofs.Transaction.Reading` — how reading transactions from documents can fail

Documents of transactions come from outside and may have any shape. What does not fit is reported, with
two exceptions: an infinite number where an integer should be, and inputs of a call, or their types, that
cannot be walked through (`Transaction.IsTidyDocument`). So which faults reading ends with is stated under
a condition `p`: they are reported, or they are faults of unchecked data and `p` does not hold
(`Fault.IsReportedIf`). Lemmas ask that `p` makes the value in hand tidy, which passes on to its parts.

What is read from a document that can be printed is ready to be encoded (`isEncodable_of_ofDocument`).
-/

namespace Proposals

open Proposals.Outcome

/-! ## Finite values -/

namespace Value

mutual
/-- No number in the value is infinite. -/
def IsFinite : Value → Prop
  | .float (.infinite _) => False
  | .decimal (.infinite _) => False
  | .list items => AreFinite items
  | .dict entries => AreEntriesFinite entries
  | _ => True

/-- The same for each item of a list. -/
def AreFinite : List Value → Prop
  | [] => True
  | v :: vs => IsFinite v ∧ AreFinite vs

/-- The same for the value of each entry. -/
def AreEntriesFinite : List (String × Value) → Prop
  | [] => True
  | (_, v) :: entries => IsFinite v ∧ AreEntriesFinite entries
end

theorem areFinite_iff {vs : List Value} : AreFinite vs ↔ ∀ v ∈ vs, v.IsFinite := by
  induction vs with
  | nil => simp [AreFinite]
  | cons v vs ih => rw [AreFinite, ih, List.forall_mem_cons]

theorem areEntriesFinite_iff {entries : List (String × Value)} :
    AreEntriesFinite entries ↔ ∀ entry ∈ entries, entry.2.IsFinite := by
  induction entries with
  | nil => simp [AreEntriesFinite]
  | cons entry entries ih => rw [AreEntriesFinite, ih, List.forall_mem_cons]

/-- The members of a finite value are finite. -/
theorem IsFinite.items {v : Value} (hv : v.IsFinite) {vs : List Value} (h : v.items = .ok vs) :
    ∀ u ∈ vs, u.IsFinite := by
  cases v with
  | list items =>
    cases h
    exact areFinite_iff.mp hv
  | text | bytes | dict =>
    cases h
    exact List.forall_mem_map.mpr fun _ _ => trivial
  | _ => exact absurd h nofun

end Value

/-! ## Faults under a condition -/

/-- The fault is one that commands report; or it is about unchecked data, and `p` does not hold. -/
def Fault.IsReportedIf (p : Prop) (fault : Fault) : Prop :=
  CommandLine.isReported fault = true ∨ (∃ cause, fault = .data cause) ∧ ¬ p

/-- The fault says that a value does not fit its type; or it is about unchecked data, and `p` does not
    hold. -/
def Fault.IsMisfitIf (p : Prop) (fault : Fault) : Prop :=
  Abi.isMisfit fault = true ∨ (∃ cause, fault = .data cause) ∧ ¬ p

namespace Abi

variable {p : Prop}

/-- The fault of reading is a misfit, or there is an infinite number, which `p` excludes. -/
theorem isMisfitIf_of_isReadFault {fault : Fault} (h : IsReadFault fault)
    (hfinite : fault = .data .overflow → ¬ p) : fault.IsMisfitIf p :=
  h.imp_right fun hoverflow => ⟨⟨_, hoverflow⟩, hfinite hoverflow⟩

theorem not_isInfinite_of_isFinite {v : Value} (hv : v.IsFinite) : ¬ v.IsInfinite := by
  rintro (_ | _) <;> exact hv

theorem within_toInteger {v : Value} (hv : p → v.IsFinite) :
    Within (Fault.IsMisfitIf p) v.toInteger := fun fault hfault =>
  isMisfitIf_of_isReadFault (within_toInteger_isReadFault v fault hfault) fun hoverflow hp =>
    not_isInfinite_of_isFinite (hv hp) (Value.toInteger_eq_overflow_iff.mp (hoverflow ▸ hfault))

mutual
/-- In a finite value no infinite number is met. -/
theorem not_meetsInfinite_of_isFinite : (t : AbiType) → {v : Value} → v.IsFinite → ¬ MeetsInfinite t v
  | .array item _, _, hv, ⟨_, u, _, hitems, _, hmeets⟩ =>
    not_meetsInfinite_of_isFinite item (hv.items hitems u List.mem_append_cons_self) hmeets
  | .tuple components, _, hv, ⟨_, hitems, hmeets⟩ =>
    not_meetInfinite_of_isFinite components (hv.items hitems) hmeets
  | .basic _ _, _, hv, ⟨_, hinfinite⟩ => not_isInfinite_of_isFinite hv hinfinite

theorem not_meetInfinite_of_isFinite : (ts : List AbiType) → {vs : List Value} → (∀ v ∈ vs, v.IsFinite) →
    ¬ MeetInfinite ts vs
  | [], _, _ => by
    rw [MeetInfinite]
    · exact id
    · exact nofun
  | _ :: _, [], _ => by
    rw [MeetInfinite]
    · exact id
    · exact nofun
  | t :: ts, v :: vs, h => by
    obtain ⟨hv, hvs⟩ := List.forall_mem_cons.mp h
    rintro (hmeets | ⟨-, hmeets⟩)
    · exact not_meetsInfinite_of_isFinite t hv hmeets
    · exact not_meetInfinite_of_isFinite ts hvs hmeets
end

theorem within_fromDocument (t : Value) {v : Value} (hv : p → v.IsFinite) :
    Within (Fault.IsMisfitIf p) (fromDocument t v) := by
  intro fault hfault
  rcases fromDocument_eq_error hfault with rfl | ⟨rfl, type, -, hmeets⟩
  · exact .inl rfl
  · exact .inr ⟨⟨_, rfl⟩, fun hp => not_meetsInfinite_of_isFinite type (hv hp) hmeets⟩

mutual
/-- The value has the lists that the type asks for. -/
def IsShaped : AbiType → Value → Prop
  | .array item _, v => ∃ vs, v = .list vs ∧ ∀ u ∈ vs, IsShaped item u
  | .tuple components, v => ∃ vs, v = .list vs ∧ AreShaped components vs
  | .basic _ _, _ => True

/-- The same for the components of a tuple, as far as there are both a type and a value. -/
def AreShaped : List AbiType → List Value → Prop
  | t :: ts, v :: vs => IsShaped t v ∧ AreShaped ts vs
  | _, _ => True
end

mutual
theorem isShaped_of_readAs : (t : AbiType) → {w v : Value} → readAs t w = .ok v → IsShaped t v
  | .array item _, w, v, h => by
    rw [readAs] at h
    obtain ⟨ws, -, h⟩ := bind_eq_ok.mp h
    obtain ⟨vs, hvs, h⟩ := bind_eq_ok.mp h
    cases h
    refine ⟨vs, rfl, fun u hu => ?_⟩
    obtain ⟨w', -, hw'⟩ := exists_of_mem_mapM hvs hu
    exact isShaped_of_readAs item hw'
  | .tuple components, w, v, h => by
    rw [readAs] at h
    obtain ⟨ws, -, h⟩ := bind_eq_ok.mp h
    obtain ⟨vs, hvs, h⟩ := bind_eq_ok.mp h
    cases h
    exact ⟨vs, rfl, areShaped_of_readAllAs components hvs⟩
  | .basic _ _, _, _, _ => trivial

theorem areShaped_of_readAllAs : (ts : List AbiType) → {ws vs : List Value} →
    readAllAs ts ws = .ok vs → AreShaped ts vs
  | [], _, _, _ => trivial
  | t :: ts, [], vs, h => by
    rw [readAllAs] at h
    · cases h
      trivial
    · exact nofun
  | t :: ts, w :: ws, vs, h => by
    rw [readAllAs] at h
    obtain ⟨u, hu, h⟩ := bind_eq_ok.mp h
    obtain ⟨us, hus, h⟩ := bind_eq_ok.mp h
    cases h
    exact ⟨isShaped_of_readAs t hu, areShaped_of_readAllAs ts hus⟩
end

/-- The type is one, and the value has the lists that it asks for. -/
def IsShapedFor (t v : Value) : Prop := ∃ type, typeOf t = .ok type ∧ IsShaped type v

theorem isShapedFor_of_fromDocument {t w v : Value} (h : fromDocument t w = .ok v) :
    IsShapedFor t v := by
  unfold fromDocument at h
  split at h
  · next v' hread =>
    cases h
    obtain ⟨type, htype, hread⟩ := bind_eq_ok.mp hread
    exact ⟨type, htype, isShaped_of_readAs type hread⟩
  · exact absurd h nofun

end Abi

/-- The inputs of the call have the lists that their types ask for. -/
def FunctionCall.IsShaped (call : FunctionCall) : Prop :=
  ∃ types inputs, call.inputTypes = .list types ∧ call.inputs = .list inputs ∧
    List.Forall₂ Abi.IsShapedFor types inputs

/-! ## Transactions -/

namespace Transaction

open Proposals.Abi

variable {p : Prop} {kind : TransactionKind} {entries entries' : List (String × Value)} {d : Value}

theorem isReportedIf_badField (kind : TransactionKind) {fault : Fault} (h : fault.IsMisfitIf p) :
    (badField kind fault).IsReportedIf p := by
  unfold badField
  split
  · exact .inl rfl
  · split
    · exact .inl rfl
    · next hmisfit => exact .inr (h.resolve_left hmisfit)

theorem within_readInteger (kind : TransactionKind) {v : Value} (hv : p → v.IsFinite) :
    Within (Fault.IsReportedIf p) (readInteger kind v) := by
  unfold readInteger
  split
  · exact within_ok _ _
  · next fault hfault =>
    exact within_error.mpr (isReportedIf_badField kind (within_toInteger hv fault hfault))

theorem within_readInputs (kind : TransactionKind) (types : List Value) {inputs : List Value}
    (h : p → ∀ v ∈ inputs, v.IsFinite) : Within (Fault.IsReportedIf p) (readInputs kind types inputs) := by
  induction types generalizing inputs with
  | nil => exact within_ok _ _
  | cons t types ih =>
    cases inputs with
    | nil => exact within_ok _ _
    | cons v inputs =>
      have hv : p → v.IsFinite := fun hp => h hp v List.mem_cons_self
      unfold readInputs
      split
      · exact (ih fun hp u hu => h hp u (List.mem_cons_of_mem v hu)).bind fun _ _ => within_ok _ _
      · next fault hfault =>
        exact within_error.mpr (isReportedIf_badField kind (within_fromDocument t hv fault hfault))

theorem within_readIntegers (kind : TransactionKind)
    (h : p → ∀ entry ∈ entries, integerFields.contains entry.1 = true → entry.2.IsFinite) :
    Within (Fault.IsReportedIf p) (readIntegers kind entries) := by
  induction entries with
  | nil => exact within_ok _ _
  | cons entry entries ih =>
    obtain ⟨name, v⟩ := entry
    have hrest := ih fun hp e he => h hp e (List.mem_cons_of_mem _ he)
    unfold readIntegers
    split
    · next hname =>
      exact (within_readInteger kind fun hp => h hp _ List.mem_cons_self hname).bind fun _ _ =>
        hrest.bind fun _ _ => within_ok _ _
    · exact hrest.bind fun _ _ => within_ok _ _

/-- The fields of a call that are walked through. -/
def listFields : List String := ["function_input_types", "function_inputs"]

/-- The document has nothing infinite in it, and what a call is made of can be walked through. -/
structure IsTidyDocument (d : Value) : Prop where
  finite : d.IsFinite
  items : ∀ name ∈ listFields, ∀ v, d.find? name = some v → ∃ vs, v.items = .ok vs

theorem find?_knownEntries (names : List String) (entries : List (String × Value)) (name : String) :
    Table.find? name (knownEntries names entries) =
      if name ∈ names then Table.find? name entries else none := by
  induction names with
  | nil => rfl
  | cons first names ih =>
    have hcons : knownEntries (first :: names) entries =
        ((Table.find? first entries).map fun v => (first, v)).toList ++ knownEntries names entries := by
      unfold knownEntries
      rw [List.filterMap_cons]
      cases Table.find? first entries <;> rfl
    rw [hcons]
    cases hfirst : Table.find? first entries with
    | none =>
      rw [Option.map_none, Option.toList_none, List.nil_append, ih]
      by_cases hname : name = first
      · subst hname
        simp [hfirst]
      · simp [hname]
    | some v =>
      rw [Option.map_some, Option.toList_some, List.singleton_append, Table.find?, ih]
      by_cases hname : first = name
      · subst hname
        simp [hfirst]
      · simp [hname, Ne.symm hname]

theorem find?_of_mem_knownEntries {names : List String} {entry : String × Value}
    (h : entry ∈ knownEntries names entries) : Table.find? entry.1 entries = some entry.2 := by
  obtain ⟨name, -, h⟩ := List.mem_filterMap.mp h
  obtain ⟨v, hv, rfl⟩ := Option.map_eq_some_iff.mp h
  exact hv

/-- What can be walked through under the condition. -/
theorem within_walk {v : Value} (h : p → ∃ vs, v.items = .ok vs) :
    Within (Fault.IsReportedIf p) v.items := by
  have hdata : Within (fun fault => ∃ cause, fault = .data cause) v.items := by
    cases v with
    | list | text | bytes | dict => exact within_ok _ _
    | _ => exact within_error.mpr ⟨_, rfl⟩
  intro fault hfault
  refine .inr ⟨hdata fault hfault, fun hp => ?_⟩
  obtain ⟨vs, hvs⟩ := h hp
  exact absurd (hvs.symm.trans hfault) nofun

/-- The fields of a call are found, and can be walked through under the condition. -/
structure HasListFields (p : Prop) (entries : List (String × Value)) : Prop where
  types : ∃ v, Table.find? "function_input_types" entries = some v ∧ (p → ∃ vs, v.items = .ok vs)
  inputs : ∃ v, Table.find? "function_inputs" entries = some v ∧ (p → ∃ vs, v.items = .ok vs)

theorem within_readSpecial (hfinite : p → ∀ entry ∈ entries, entry.2.IsFinite)
    (hlists : "function_inputs" ∈ kind.fieldNames → HasListFields p entries) :
    Within (Fault.IsReportedIf p) (readSpecial kind entries) := by
  have hcall : "function_inputs" ∈ kind.fieldNames → Within (Fault.IsReportedIf p) (do
      let types ← ((Table.find? "function_input_types" entries).getD .null).items
      let inputs ← ((Table.find? "function_inputs" entries).getD .null).items
      if types.length ≠ inputs.length then throw (.document .unequalInputs)
      let inputs ← readInputs kind types inputs
      return Table.insert "function_inputs" (.list inputs)
        (Table.insert "function_input_types" (.list types) entries) : Outcome _) := by
    intro hmem
    obtain ⟨⟨types, htypes, hwalkTypes⟩, ⟨inputs, hinputs, hwalkInputs⟩⟩ := hlists hmem
    rw [htypes, hinputs]
    refine (within_walk hwalkTypes).bind fun ts _ => (within_walk hwalkInputs).bind fun vs hvs => ?_
    refine within_ite (fun _ => within_error.mpr (.inl rfl)) fun _ => ?_
    refine (within_readInputs kind ts fun hp => ?_).bind fun _ _ => within_ok _ _
    exact (hfinite hp _ (Table.mem_of_find? hinputs)).items hvs
  cases kind with
  | stream =>
    unfold readSpecial
    dsimp only
    split
    · exact within_ok _ _
    · exact within_error.mpr (.inl rfl)
  | functionCall | payableFunctionCall => exact hcall (by decide)
  | _ => exact within_ok _ _

theorem forall₂_of_readInputs {types inputs inputs' : List Value}
    (h : readInputs kind types inputs = .ok inputs') (hlength : types.length = inputs.length) :
    List.Forall₂ IsShapedFor types inputs' := by
  induction types generalizing inputs inputs' with
  | nil =>
    cases h
    exact .nil
  | cons t types ih =>
    cases inputs with
    | nil => exact absurd hlength nofun
    | cons v inputs =>
      unfold readInputs at h
      split at h
      · next w hw =>
        obtain ⟨rest, hrest, h⟩ := bind_eq_ok.mp h
        cases h
        exact .cons (isShapedFor_of_fromDocument hw) (ih hrest (Nat.succ.inj hlength))
      · exact absurd h nofun

/-- Entries after their currency or inputs are read: a stream has its token replaced, a call its types
    and inputs. -/
inductive IsSpecial (kind : TransactionKind) (entries : List (String × Value)) :
    List (String × Value) → Prop
  | stream {c : Currency} (hkind : kind = .stream) :
      IsSpecial kind entries (Table.insert "token" (.currency c) entries)
  | call {types inputs : List Value} (hkind : kind = .functionCall ∨ kind = .payableFunctionCall)
      (hinputs : List.Forall₂ IsShapedFor types inputs) :
      IsSpecial kind entries (Table.insert "function_inputs" (.list inputs)
        (Table.insert "function_input_types" (.list types) entries))
  | plain (hstream : kind ≠ .stream) (hcall : kind ≠ .functionCall ∧ kind ≠ .payableFunctionCall) :
      IsSpecial kind entries entries

theorem isSpecial_of_readSpecial (h : readSpecial kind entries = .ok entries') :
    IsSpecial kind entries entries' := by
  have hcall : (kind = .functionCall ∨ kind = .payableFunctionCall) →
      (do
        let types ← ((Table.find? "function_input_types" entries).getD .null).items
        let inputs ← ((Table.find? "function_inputs" entries).getD .null).items
        if types.length ≠ inputs.length then throw (.document .unequalInputs)
        let inputs ← readInputs kind types inputs
        return Table.insert "function_inputs" (.list inputs)
          (Table.insert "function_input_types" (.list types) entries) : Outcome _) = .ok entries' →
      IsSpecial kind entries entries' := by
    intro hkind h
    obtain ⟨types, -, h⟩ := bind_eq_ok.mp h
    obtain ⟨inputs, -, h⟩ := bind_eq_ok.mp h
    dsimp only at h
    split at h
    · exact absurd h nofun
    · next hlength =>
      obtain ⟨read, hread, h⟩ := bind_eq_ok.mp h
      cases h
      exact .call hkind (forall₂_of_readInputs hread (Decidable.not_not.mp hlength))
  cases kind with
  | stream =>
    unfold readSpecial at h
    dsimp only at h
    split at h
    · cases h
      exact .stream rfl
    · exact absurd h nofun
  | functionCall => exact hcall (.inl rfl) h
  | payableFunctionCall => exact hcall (.inr rfl) h
  | _ => cases h; exact .plain nofun ⟨nofun, nofun⟩

/-- Only the token and the parts of a call are replaced. -/
theorem IsSpecial.mem (h : IsSpecial kind entries entries') {entry : String × Value}
    (hentry : entry ∈ entries') (hname : entry.1 ≠ "token" ∧ entry.1 ∉ listFields) : entry ∈ entries := by
  have hkey : ∀ {key : String} {v : Value} {table : List (String × Value)}, key ≠ entry.1 →
      entry ∈ Table.insert key v table → entry ∈ table := fun hkey hmem =>
    (Table.mem_insert hmem).resolve_left fun heq => hkey (by rw [heq])
  obtain ⟨htoken, hlist⟩ := hname
  simp only [listFields, List.mem_cons, List.not_mem_nil, or_false, not_or] at hlist
  cases h with
  | stream => exact hkey (Ne.symm htoken) hentry
  | call => exact hkey (Ne.symm hlist.1) (hkey (Ne.symm hlist.2) hentry)
  | plain => exact hentry

theorem plain_of_integer {name : String} (h : integerFields.contains name = true) :
    name ≠ "token" ∧ name ∉ listFields := by
  constructor
  · rintro rfl
    exact absurd h (by decide)
  · intro hlist
    simp only [listFields, List.mem_cons, List.not_mem_nil, or_false] at hlist
    rcases hlist with rfl | rfl <;> exact absurd h (by decide)

theorem within_kindOf (tag : Value) : Within (Fault.IsReportedIf p) (kindOf tag) := by
  unfold kindOf
  split
  · exact within_ok _ _
  · exact within_error.mpr (.inl rfl)

/-- Where nothing is missing, what is asked for stands in the entries, also in those that are known. -/
theorem exists_find?_knownEntries {entries : List (String × Value)} {kind : TransactionKind} {name : String}
    (hmissing : (missingNames kind.fieldNames entries).isEmpty = true) (hname : name ∈ kind.fieldNames) :
    ∃ v, Table.find? name entries = some v ∧
      Table.find? name (knownEntries (kind.fieldNames ++ kind.optionalNames) entries) = some v := by
  rw [find?_knownEntries, if_pos (List.mem_append_left _ hname)]
  cases hfind : Table.find? name entries with
  | some v => exact ⟨v, rfl, rfl⟩
  | none =>
    have hmem : name ∈ missingNames kind.fieldNames entries :=
      List.mem_filter.mpr ⟨hname, by rw [hfind]; rfl⟩
    rw [List.isEmpty_iff.mp hmissing] at hmem
    exact absurd hmem List.not_mem_nil

/-- **Reading a transaction reports what it cannot read**, if the document is tidy. -/
theorem within_ofDocument (hd : p → IsTidyDocument d) : Within (Fault.IsReportedIf p) (ofDocument d) := by
  cases d with
  | dict entries =>
    refine (within_kindOf _).bind fun kind _ => ?_
    dsimp only
    refine within_ite (fun _ => within_error.mpr (.inl rfl)) fun hmissing => ?_
    rw [Bool.not_eq_true, Bool.not_eq_false'] at hmissing
    have hfinite : p → ∀ entry ∈ knownEntries (kind.fieldNames ++ kind.optionalNames) entries,
        entry.2.IsFinite := fun hp entry hentry =>
      Value.areEntriesFinite_iff.mp (hd hp).finite _ (Table.mem_of_find? (find?_of_mem_knownEntries hentry))
    refine (within_readSpecial hfinite fun hmem => ?_).bind fun special hspecial => ?_
    · have hwalk : ∀ name ∈ listFields, name ∈ kind.fieldNames → ∃ v,
          Table.find? name (knownEntries (kind.fieldNames ++ kind.optionalNames) entries) = some v ∧
          (p → ∃ vs, v.items = .ok vs) := by
        intro name hlist hname
        obtain ⟨v, hv, hfound⟩ := exists_find?_knownEntries hmissing hname
        exact ⟨v, hfound, fun hp => (hd hp).items name hlist v hv⟩
      have htypes : "function_input_types" ∈ kind.fieldNames := by
        cases kind <;> first | exact absurd hmem (by decide) | decide
      exact ⟨hwalk _ (by decide) htypes, hwalk _ (by decide) hmem⟩
    · have hspecial := isSpecial_of_readSpecial hspecial
      refine (within_readIntegers kind fun hp entry hentry hname =>
        hfinite hp entry (hspecial.mem hentry (plain_of_integer hname))).bind fun _ _ => ?_
      split
      · exact within_ok _ _
      · exact within_error.mpr (.inl rfl)
  | _ => exact within_error.mpr (.inl rfl)

/-! ### What is read -/

theorem get_of_ofFields? {get : String → Option Value} {t : Transaction}
    (h : ofFields? kind get = some t) :
    t.kind? = some kind ∧ ∀ field ∈ t.fields, field.1 ≠ "nonce" → get field.1 = some field.2 := by
  cases kind <;> simp only [ofFields?, callOf?, Option.bind_eq_bind, Option.bind_eq_some_iff,
    Option.pure_def, Option.some.injEq] at h
  case stream =>
    obtain ⟨a, ha, b, hb, c, hc, d, hd, e, he, f, hf, rfl⟩ := h
    simp_all [fields, kind?]
  case payableFunctionCall =>
    obtain ⟨call, ⟨a, ha, b, hb, c, hc, d, hd, rfl⟩, v, hv, rfl⟩ := h
    simp_all [fields, callFields, kind?]
  case functionCall =>
    obtain ⟨call, ⟨a, ha, b, hb, c, hc, d, hd, rfl⟩, rfl⟩ := h
    simp_all [fields, callFields, kind?]
  case payerTopUp | wethDeposit =>
    obtain ⟨a, ha, rfl⟩ := h
    simp_all [fields, kind?]
  case unparsedPayableFunctionCall =>
    obtain ⟨a, ha, b, hb, c, hc, rfl⟩ := h
    simp_all [fields, kind?]
  all_goals
    obtain ⟨a, ha, b, hb, rfl⟩ := h
    simp_all [fields, kind?]

theorem find?_readIntegers (h : readIntegers kind entries = .ok entries') {name : String}
    (hname : integerFields.contains name = false) : Table.find? name entries' = Table.find? name entries := by
  induction entries generalizing entries' with
  | nil => cases h; rfl
  | cons entry entries ih =>
    obtain ⟨key, v⟩ := entry
    unfold readIntegers at h
    split at h
    · next hkey =>
      obtain ⟨w, -, h⟩ := bind_eq_ok.mp h
      obtain ⟨rest, hrest, h⟩ := bind_eq_ok.mp h
      cases h
      have hne : key ≠ name := by
        rintro rfl
        cases hname.symm.trans hkey
      rw [Table.find?, if_neg hne, Table.find?, if_neg hne, ih hrest]
    · obtain ⟨w, hw, h⟩ := bind_eq_ok.mp h
      cases hw
      obtain ⟨rest, hrest, h⟩ := bind_eq_ok.mp h
      cases h
      rw [Table.find?, Table.find?, ih hrest]

/-- What writing a transaction needs: its target and calldata can be printed, the token of a stream is a
    currency, and the inputs of a call have the lists that their types ask for. -/
structure IsEncodable (t : Transaction) : Prop where
  printable : ∀ field ∈ t.fields, field.1 = "target" ∨ field.1 = "calldata" → field.2.IsPrintable
  token : ∀ s, t = .stream s → ∃ c, s.token = .currency c
  inputs : ∀ call, t.call? = some call → call.IsShaped

/-- The fields of a transaction that is read stand among the entries after those of a stream or a call
    are replaced, but for integers. -/
theorem exists_isSpecial_of_ofDocument {t : Transaction} (h : ofDocument (.dict entries) = .ok t) :
    ∃ kind special, t.kind? = some kind ∧
      IsSpecial kind (knownEntries (kind.fieldNames ++ kind.optionalNames) entries) special ∧
      ∀ {name : String} {v : Value}, (name, v) ∈ t.fields → name ≠ "nonce" →
        integerFields.contains name = false → Table.find? name special = some v := by
  obtain ⟨kind, -, h⟩ := bind_eq_ok.mp h
  dsimp only at h
  split at h
  · cases h
  · obtain ⟨special, hspecial, h⟩ := bind_eq_ok.mp h
    obtain ⟨table, htable, h⟩ := bind_eq_ok.mp h
    split at h
    · next hmake =>
      cases h
      obtain ⟨hkind, hfields⟩ := get_of_ofFields? hmake
      exact ⟨kind, special, hkind, isSpecial_of_readSpecial hspecial, fun hfield hnonce hplain =>
        (find?_readIntegers htable hplain).symm.trans (hfields _ hfield hnonce)⟩
    · cases h

/-- **What is read from a document that can be printed is ready to be encoded.** -/
theorem isEncodable_of_ofDocument (hd : d.IsPrintable) {t : Transaction} (h : ofDocument d = .ok t) :
    t.IsEncodable := by
  cases d with
  | dict entries =>
    obtain ⟨kind, special, hkind, hspecial, hfound⟩ := exists_isSpecial_of_ofDocument h
    refine ⟨?_, ?_, ?_⟩
    · rintro ⟨name, v⟩ hfield hname
      have hplain : name ≠ "nonce" ∧ integerFields.contains name = false ∧
          name ≠ "token" ∧ name ∉ listFields := by
        rcases hname with rfl | rfl <;> decide
      have hmem := hspecial.mem (Table.mem_of_find? (hfound hfield hplain.1 hplain.2.1)) hplain.2.2
      exact Value.areEntriesPrintable_iff.mp hd _ (Table.mem_of_find? (find?_of_mem_knownEntries hmem))
    · rintro s rfl
      cases hkind
      have hmem : ("token", s.token) ∈ (Transaction.stream s).fields := by simp [fields]
      have htoken := hfound hmem (by decide) (by decide)
      cases hspecial with
      | stream =>
        rw [Table.find?_insert, if_pos rfl, Option.some.injEq] at htoken
        exact ⟨_, htoken.symm⟩
      | call hkind => exact absurd hkind (by decide)
      | plain hstream => exact absurd rfl hstream
    · intro call hcall
      have hcalls : kind = .functionCall ∨ kind = .payableFunctionCall := by
        cases t <;> cases hcall <;> cases hkind <;> decide
      have hmem : ("function_inputs", call.inputs) ∈ t.fields ∧
          ("function_input_types", call.inputTypes) ∈ t.fields := by
        cases t <;> cases hcall <;> simp [fields, callFields]
      have hinputs := hfound hmem.1 (by decide) (by decide)
      have htypes := hfound hmem.2 (by decide) (by decide)
      cases hspecial with
      | stream hstream => exact absurd (hstream ▸ hcalls) (by decide)
      | call _ hread =>
        rw [Table.find?_insert, if_pos rfl, Option.some.injEq] at hinputs
        rw [Table.find?_insert, if_neg (by decide), Table.find?_insert, if_pos rfl,
          Option.some.injEq] at htypes
        exact ⟨_, _, htypes.symm, hinputs.symm, hread⟩
      | plain _ hcall => exact absurd hcalls (by simp [hcall.1, hcall.2])
  | _ => cases h

end Transaction

end Proposals
