import Proposals.Proofs.Abi.Normalize
import Proposals.Proofs.Abi.Structure

/-!
# `Proofs.Abi.Shape` — encoding refuses arguments of the wrong shape

The shape of a type is what can be said of its values without their basic parts: where lists stand, and
how many items they have (`HasShape`). Coders check it, but they do not see the values that were given:
preparing goes through the values first. It takes the keys of an object for a list, and of the items of a
tuple only as many as there are components. Such a *surplus* is dropped before anything is checked
(`HasSurplus`, `withoutSurplus`, `encodeArguments_withoutSurplus`), and what is encoded has the right shape
exactly if it has none (`hasShape_iff_not_hasSurplus`).

All other arguments of the wrong shape are refused; but where preparing comes to a value that has no
members at all in place of a list (`MeetsMemberless`), the fault is not one of arguments.
-/

namespace Proposals

open Proposals.Outcome

namespace Value

/-- The members of a value that preparing takes for a list: the items of a list, the keys of an object. -/
inductive IsSequence : Value → List Value → Prop where
  | list (vs : List Value) : IsSequence (.list vs) vs
  | dict (entries : List (String × Value)) : IsSequence (.dict entries) (entries.map fun e => .text e.1)

/-- The value has no members. -/
def IsMemberless (v : Value) : Prop := ∀ vs, v.items ≠ .ok vs

theorem IsSequence.unique {v : Value} {vs ws : List Value} (h : v.IsSequence vs) (h' : v.IsSequence ws) :
    vs = ws := by
  cases h <;> cases h' <;> rfl

theorem IsSequence.not_isMemberless {v : Value} {vs : List Value} (h : v.IsSequence vs) :
    ¬ v.IsMemberless := fun hnone => by
  cases h with
  | list => exact hnone _ rfl
  | dict => exact hnone _ rfl

end Value

namespace Abi

open AbiType

/-! ## Shapes -/

mutual
/-- The value has a list wherever the type asks for one, as long as the array if that has a length, and
    with an item for each component of a tuple. -/
def HasShape : AbiType → Value → Prop
  | .array item length, v =>
    ∃ vs, v = .list vs ∧ (∀ n, length = some n → vs.length = n) ∧ ∀ u ∈ vs, HasShape item u
  | .tuple components, v => ∃ vs, v = .list vs ∧ HaveShape components vs
  | .basic _ _, _ => True

/-- There is a value for each type, and each has the shape of its type. -/
def HaveShape : List AbiType → List Value → Prop
  | [], [] => True
  | t :: ts, v :: vs => HasShape t v ∧ HaveShape ts vs
  | _, _ => False
end

mutual
/-- Somewhere in the value an object stands in place of a list, or a tuple has more items than
    components. -/
def HasSurplus : AbiType → Value → Prop
  | .array item _, v => (∃ entries, v = .dict entries) ∨ ∃ vs, v = .list vs ∧ ∃ u ∈ vs, HasSurplus item u
  | .tuple components, v =>
    (∃ entries, v = .dict entries) ∨ ∃ vs, v = .list vs ∧ HaveSurplus components vs
  | .basic _ _, _ => False

/-- There are more values than types, or one of the values has a surplus. -/
def HaveSurplus : List AbiType → List Value → Prop
  | [], vs => vs ≠ []
  | t :: ts, v :: vs => HasSurplus t v ∨ HaveSurplus ts vs
  | _ :: _, [] => False
end

mutual
/-- The value with the keys of objects in place of the objects, and of the items of a tuple only as many as
    it has components. -/
def withoutSurplus : AbiType → Value → Value
  | .array item _, .list vs => .list (vs.map (withoutSurplus item))
  | .array item _, .dict entries => .list ((entries.map fun e => .text e.1).map (withoutSurplus item))
  | .tuple components, .list vs => .list (withoutSurplusAll components vs)
  | .tuple components, .dict entries =>
    .list (withoutSurplusAll components (entries.map fun e => .text e.1))
  | _, v => v

/-- The same for the items of a tuple. -/
def withoutSurplusAll : List AbiType → List Value → List Value
  | t :: ts, v :: vs => withoutSurplus t v :: withoutSurplusAll ts vs
  | _, _ => []
end

/-! ## Preparing -/

theorem sequenceOf_eq_ok_iff {t : AbiType} {v : Value} {vs : List Value} :
    prepare.sequenceOf t v = .ok vs ↔ v.IsSequence vs := by
  constructor
  · intro h
    cases v with
    | list =>
      cases h
      exact .list _
    | dict entries =>
      cases h
      exact .dict entries
    | _ => exact absurd h nofun
  · rintro (vs | entries) <;> rfl

/-- A value that is not taken for a list is refused, or has no members. -/
theorem sequenceOf_eq_error {t : AbiType} {v : Value} {fault : Fault}
    (h : prepare.sequenceOf t v = .error fault) :
    (∃ cause, fault = .abi cause) ∧ ¬ v.IsMemberless ∨ fault = .data .wrongKind ∧ v.IsMemberless := by
  cases v with
  | list | dict => exact absurd h nofun
  | text s => exact .inl ⟨⟨_, (Except.error.inj h).symm⟩, fun hnone => hnone _ rfl⟩
  | bytes bs => exact .inl ⟨⟨_, (Except.error.inj h).symm⟩, fun hnone => hnone _ rfl⟩
  | _ => exact .inr ⟨(Except.error.inj h).symm, nofun⟩

mutual
/-- Nothing in the value keeps it from being prepared: it has lists or objects where the type asks for
    lists, and addresses where it asks for addresses. -/
def IsPreparable : AbiType → Value → Prop
  | .array item _, v => ∃ vs, v.IsSequence vs ∧ ∀ u ∈ vs, IsPreparable item u
  | .tuple components, v => ∃ vs, v.IsSequence vs ∧ ArePreparable components vs
  | .basic base _, v => base = "address" → ∃ s, v = .text s ∧ (addressOfText? s).isSome

/-- The same for the items of a tuple, as far as there are both a type and an item. -/
def ArePreparable : List AbiType → List Value → Prop
  | t :: ts, v :: vs => IsPreparable t v ∧ ArePreparable ts vs
  | _, _ => True
end

mutual
/-- A value without members stands in place of a list, and all that preparing comes to before can be
    prepared. -/
def MeetsMemberless : AbiType → Value → Prop
  | .array item _, v => v.IsMemberless ∨ ∃ before u after, v.IsSequence (before ++ u :: after) ∧
    (∀ w ∈ before, IsPreparable item w) ∧ MeetsMemberless item u
  | .tuple components, v => v.IsMemberless ∨ ∃ vs, v.IsSequence vs ∧ MeetMemberless components vs
  | .basic _ _, _ => False

/-- The same for the items of a tuple, as far as there are both a type and an item. -/
def MeetMemberless : List AbiType → List Value → Prop
  | t :: ts, v :: vs => MeetsMemberless t v ∨ IsPreparable t v ∧ MeetMemberless ts vs
  | _, _ => False
end

mutual
/-- **What can be prepared.** -/
theorem exists_prepare_iff : (t : AbiType) → {v : Value} →
    ((∃ w, prepare t v = .ok w) ↔ IsPreparable t v)
  | .array item length, v => by
    rw [IsPreparable]
    constructor
    · rintro ⟨w, h⟩
      rw [prepare] at h
      obtain ⟨vs, hvs, h⟩ := bind_eq_ok.mp h
      obtain ⟨ws, hws, -⟩ := bind_eq_ok.mp h
      refine ⟨vs, sequenceOf_eq_ok_iff.mp hvs, fun u hu => ?_⟩
      obtain ⟨w', -, hw'⟩ := exists_mapM_of_mem hws hu
      exact (exists_prepare_iff item).mp ⟨w', hw'⟩
    · rintro ⟨vs, hvs, hall⟩
      obtain ⟨ws, hws⟩ := exists_mapM_of_forall fun u hu => (exists_prepare_iff item).mpr (hall u hu)
      rw [prepare, sequenceOf_eq_ok_iff.mpr hvs, ok_bind, hws]
      exact ⟨_, rfl⟩
  | .tuple components, v => by
    rw [IsPreparable]
    constructor
    · rintro ⟨w, h⟩
      rw [prepare] at h
      obtain ⟨vs, hvs, h⟩ := bind_eq_ok.mp h
      obtain ⟨ws, hws, -⟩ := bind_eq_ok.mp h
      exact ⟨vs, sequenceOf_eq_ok_iff.mp hvs, (exists_prepareAll_iff components).mp ⟨ws, hws⟩⟩
    · rintro ⟨vs, hvs, hall⟩
      obtain ⟨ws, hws⟩ := (exists_prepareAll_iff components).mpr hall
      rw [prepare, sequenceOf_eq_ok_iff.mpr hvs, ok_bind, hws]
      exact ⟨_, rfl⟩
  | .basic base _, v => by
    rw [IsPreparable]
    by_cases hbase : base = "address"
    · subst hbase
      cases v with
      | text s =>
        cases ha : addressOfText? s <;> simp [prepare, ha]
      | _ => simp [prepare]
    · simp [prepare, hbase]

theorem exists_prepareAll_iff : (ts : List AbiType) → {vs : List Value} →
    ((∃ ws, prepareAll ts vs = .ok ws) ↔ ArePreparable ts vs)
  | [], vs => by
    rw [prepareAll, ArePreparable]
    · simp
    all_goals exact nofun
  | t :: ts, [] => by
    rw [prepareAll, ArePreparable]
    · simp
    all_goals exact nofun
  | t :: ts, v :: vs => by
    rw [prepareAll, ArePreparable, ← exists_prepare_iff t, ← exists_prepareAll_iff ts]
    cases prepare t v with
    | error fault => simp
    | ok w => cases prepareAll ts vs <;> simp
end

/-- The fault is one of arguments, or of a value without members. -/
def IsPrepareFault (fault : Fault) : Prop := (∃ cause, fault = .abi cause) ∨ fault = .data .wrongKind

theorem within_sequenceOf_isPrepareFault (t : AbiType) (v : Value) :
    Within IsPrepareFault (prepare.sequenceOf t v) := fun _ hfault =>
  (sequenceOf_eq_error hfault).imp And.left And.left

mutual
theorem within_prepare_isPrepareFault : (t : AbiType) → (v : Value) → Within IsPrepareFault (prepare t v)
  | .array item length, v => by
    rw [prepare]
    exact (within_sequenceOf_isPrepareFault _ v).bind fun vs _ => (within_mapM fun u _ =>
      within_prepare_isPrepareFault item u).bind fun _ _ => within_ok _ _
  | .tuple components, v => by
    rw [prepare]
    exact (within_sequenceOf_isPrepareFault _ v).bind fun vs _ =>
      (within_prepareAll_isPrepareFault components vs).bind fun _ _ => within_ok _ _
  | .basic base _, v => by
    cases v with
    | text s =>
      simp only [prepare]
      refine within_ite (fun _ => ?_) fun _ => within_ok _ _
      split
      · exact within_ok _ _
      · exact within_error.mpr (.inl ⟨_, rfl⟩)
    | _ =>
      simp only [prepare]
      exact within_ite (fun _ => within_error.mpr (.inl ⟨_, rfl⟩)) fun _ => within_ok _ _

theorem within_prepareAll_isPrepareFault : (ts : List AbiType) → (vs : List Value) →
    Within IsPrepareFault (prepareAll ts vs)
  | [], _ => by
    rw [prepareAll]
    · exact within_ok _ _
    · exact nofun
  | _ :: _, [] => by
    rw [prepareAll]
    · exact within_ok _ _
    · exact nofun
  | t :: ts, v :: vs => by
    rw [prepareAll]
    exact (within_prepare_isPrepareFault t v).bind fun _ _ =>
      (within_prepareAll_isPrepareFault ts vs).bind fun _ _ => within_ok _ _
end

/-- The fault of a value that is not taken for a list is about members exactly if it has none. -/
theorem eq_wrongKind_iff_of_sequenceOf {t : AbiType} {v : Value} {fault : Fault}
    (h : prepare.sequenceOf t v = .error fault) : fault = .data .wrongKind ↔ v.IsMemberless := by
  rcases sequenceOf_eq_error h with ⟨⟨cause, rfl⟩, hmembers⟩ | ⟨rfl, hnone⟩
  · exact iff_of_false nofun hmembers
  · exact iff_of_true rfl hnone

mutual
/-- **The fault of a value without members comes up exactly where one is met.** -/
theorem prepare_eq_wrongKind_iff : (t : AbiType) → {v : Value} →
    (prepare t v = .error (.data .wrongKind) ↔ MeetsMemberless t v)
  | .array item length, v => by
    rw [prepare, MeetsMemberless]
    cases hvs : prepare.sequenceOf (.array item length) v with
    | error fault =>
      -- it is not taken for a list, so nothing in it is come to
      rw [error_bind, Except.error.injEq, eq_wrongKind_iff_of_sequenceOf hvs, or_iff_left]
      rintro ⟨_, _, _, hsequence, -⟩
      exact absurd (hvs.symm.trans (sequenceOf_eq_ok_iff.mpr hsequence)) nofun
    | ok vs =>
      have hsequence := sequenceOf_eq_ok_iff.mp hvs
      have hitems : vs.mapM (prepare item) = .error (.data .wrongKind) ↔
          ∃ before u after, vs = before ++ u :: after ∧ (∀ w ∈ before, IsPreparable item w) ∧
            MeetsMemberless item u := by
        simp only [mapM_eq_error, exists_prepare_iff, prepare_eq_wrongKind_iff item]
      have hsplit : (∃ before u after, v.IsSequence (before ++ u :: after) ∧
          (∀ w ∈ before, IsPreparable item w) ∧ MeetsMemberless item u) ↔
          ∃ before u after, vs = before ++ u :: after ∧ (∀ w ∈ before, IsPreparable item w) ∧
            MeetsMemberless item u := by
        refine exists_congr fun before => exists_congr fun u => exists_congr fun after =>
          and_congr_left fun _ => ⟨fun h => hsequence.unique h, ?_⟩
        rintro rfl
        exact hsequence
      rw [ok_bind, or_iff_right hsequence.not_isMemberless, hsplit, ← hitems]
      cases vs.mapM (prepare item) <;> simp
  | .tuple components, v => by
    rw [prepare, MeetsMemberless]
    cases hvs : prepare.sequenceOf (.tuple components) v with
    | error fault =>
      rw [error_bind, Except.error.injEq, eq_wrongKind_iff_of_sequenceOf hvs, or_iff_left]
      rintro ⟨_, hsequence, -⟩
      exact absurd (hvs.symm.trans (sequenceOf_eq_ok_iff.mpr hsequence)) nofun
    | ok vs =>
      have hsequence := sequenceOf_eq_ok_iff.mp hvs
      have hsplit : (∃ vs, v.IsSequence vs ∧ MeetMemberless components vs) ↔
          MeetMemberless components vs :=
        ⟨fun ⟨_, h, hmeets⟩ => h.unique hsequence ▸ hmeets, fun hmeets => ⟨vs, hsequence, hmeets⟩⟩
      rw [ok_bind, or_iff_right hsequence.not_isMemberless, hsplit,
        ← prepareAll_eq_wrongKind_iff components]
      cases prepareAll components vs <;> simp
  | .basic base _, v => by
    rw [MeetsMemberless, iff_false]
    intro h
    cases v with
    | text s =>
      simp only [prepare] at h
      split at h
      · split at h <;> cases h
      · cases h
    | _ =>
      simp only [prepare] at h
      split at h <;> cases h

theorem prepareAll_eq_wrongKind_iff : (ts : List AbiType) → {vs : List Value} →
    (prepareAll ts vs = .error (.data .wrongKind) ↔ MeetMemberless ts vs)
  | [], vs => by
    rw [prepareAll, MeetMemberless]
    · simp
    all_goals exact nofun
  | t :: ts, [] => by
    rw [prepareAll, MeetMemberless]
    · simp
    all_goals exact nofun
  | t :: ts, v :: vs => by
    rw [prepareAll, MeetMemberless, ← prepare_eq_wrongKind_iff t, ← prepareAll_eq_wrongKind_iff ts,
      ← exists_prepare_iff]
    cases prepare t v with
    | error fault => simp
    | ok x => cases prepareAll ts vs <;> simp
end

/-! ## What is encoded -/

namespace Coder

theorem exists_encode?_of_mapM {item : Coder} {ws : List Value} {es : List (List UInt8)}
    (h : ws.mapM (encode? item) = some es) : ∀ w ∈ ws, ∃ bs, encode? item w = some bs := by
  induction ws generalizing es with
  | nil => exact List.forall_mem_nil _
  | cons w ws ih =>
    simp only [List.mapM_cons, Option.bind_eq_bind, Option.bind_eq_some_iff, Option.pure_def,
      Option.some.injEq] at h
    obtain ⟨bs, hbs, rest, hrest, -⟩ := h
    exact List.forall_mem_cons.mpr ⟨⟨bs, hbs⟩, ih hrest⟩

/-- The items of an array that is encoded are as many as it has, and each is encoded. -/
theorem items_of_encode? {item : Coder} {length : Option Nat} {ws : List Value} {bs : List UInt8}
    (h : encode? (.array item length) (.list ws) = some bs) :
    (∀ n, length = some n → ws.length = n) ∧ ∀ w ∈ ws, ∃ bs, encode? item w = some bs := by
  cases length with
  | none =>
    rw [encode?, Option.map_eq_some_iff] at h
    obtain ⟨es, hes, -⟩ := h
    exact ⟨by simp, exists_encode?_of_mapM hes⟩
  | some n =>
    rw [encode?, Option.ite_none_right_eq_some, Option.map_eq_some_iff] at h
    obtain ⟨hn, es, hes, -⟩ := h
    exact ⟨fun m hm => Option.some.inj hm ▸ hn, exists_encode?_of_mapM hes⟩

end Coder

mutual
/-- **What is encoded has the right shape exactly if it has no surplus.** -/
theorem hasShape_iff_not_hasSurplus : (t : AbiType) → {c : Coder} → {v w : Value} → {bs : List UInt8} →
    Coder.ofType? t = some c → prepare t v = .ok w → c.encode? w = some bs →
      (HasShape t v ↔ ¬ HasSurplus t v)
  | .array item length, c, v, w, bs, hof, hprepare, hencode => by
    rw [Coder.ofType?, Option.map_eq_some_iff] at hof
    obtain ⟨d, hd, rfl⟩ := hof
    rw [prepare] at hprepare
    obtain ⟨vs, hvs, hprepare⟩ := bind_eq_ok.mp hprepare
    obtain ⟨ws, hws, hprepare⟩ := bind_eq_ok.mp hprepare
    cases hprepare
    obtain ⟨hlength, hitems⟩ := Coder.items_of_encode? hencode
    cases sequenceOf_eq_ok_iff.mp hvs with
    | list =>
      -- preparing keeps the number of items, so the coder checks that of what was given
      have hcount : ∀ n, length = some n → vs.length = n := fun n hn =>
        (mapM_eq_ok.mp hws).length_eq.trans (hlength n hn)
      have hall : ∀ u ∈ vs, (HasShape item u ↔ ¬ HasSurplus item u) := fun u hu => by
        obtain ⟨w, hw, hprepared⟩ := exists_mapM_of_mem hws hu
        obtain ⟨bs, hbs⟩ := hitems w hw
        exact hasShape_iff_not_hasSurplus item hd hprepared hbs
      simp only [HasShape, HasSurplus, Value.list.injEq, exists_eq_left', reduceCtorEq, exists_false,
        false_or, not_exists, not_and]
      exact (and_iff_right hcount).trans (forall₂_congr hall)
    -- the keys of an object are encoded, but it is no list
    | dict => simp [HasShape, HasSurplus]
  | .tuple components, c, v, w, bs, hof, hprepare, hencode => by
    rw [Coder.ofType?, Option.map_eq_some_iff] at hof
    obtain ⟨cs, hcs, rfl⟩ := hof
    rw [prepare] at hprepare
    obtain ⟨vs, hvs, hprepare⟩ := bind_eq_ok.mp hprepare
    obtain ⟨ws, hws, hprepare⟩ := bind_eq_ok.mp hprepare
    cases hprepare
    rw [Coder.encode?, Option.map_eq_some_iff] at hencode
    obtain ⟨parts, hparts, rfl⟩ := hencode
    cases sequenceOf_eq_ok_iff.mp hvs with
    -- the items behind the last component are gone before anything is encoded
    | list => simp [HasShape, HasSurplus, haveShape_iff_not_haveSurplus components hcs hws hparts]
    | dict => simp [HasShape, HasSurplus]
  | .basic _ _, _, _, _, _, _, _, _ => by simp [HasShape, HasSurplus]

theorem haveShape_iff_not_haveSurplus : (ts : List AbiType) → {cs : List Coder} → {vs ws : List Value} →
    {parts : List Part} → Coder.ofTypes? ts = some cs → prepareAll ts vs = .ok ws →
      Coder.encodeParts? cs ws = some parts → (HaveShape ts vs ↔ ¬ HaveSurplus ts vs)
  | [], cs, vs, ws, parts, hof, hprepare, hparts => by
    cases vs <;> simp [HaveShape, HaveSurplus]
  | t :: ts, cs, vs, ws, parts, hof, hprepare, hparts => by
    simp only [Coder.ofTypes?, Option.bind_eq_bind, Option.bind_eq_some_iff, Option.pure_def,
      Option.some.injEq] at hof
    obtain ⟨c, hc, cs, hcs, rfl⟩ := hof
    cases vs with
    | nil =>
      -- a component without an item is not encoded
      rw [prepareAll] at hprepare
      · cases hprepare
        exact absurd hparts (by simp [Coder.encodeParts?])
      · exact nofun
    | cons v vs =>
      rw [prepareAll] at hprepare
      obtain ⟨w, hw, hprepare⟩ := bind_eq_ok.mp hprepare
      obtain ⟨ws, hws, hprepare⟩ := bind_eq_ok.mp hprepare
      cases hprepare
      simp only [Coder.encodeParts?, Option.bind_eq_bind, Option.bind_eq_some_iff, Option.pure_def,
        Option.some.injEq] at hparts
      obtain ⟨bs, hbs, rest, hrest, -⟩ := hparts
      rw [HaveShape, HaveSurplus, hasShape_iff_not_hasSurplus t hc hw hbs,
        haveShape_iff_not_haveSurplus ts hcs hws hrest, not_or]
end

mutual
/-- **Preparing does not see the surplus.** -/
theorem prepare_withoutSurplus : (t : AbiType) → (v : Value) →
    prepare t (withoutSurplus t v) = prepare t v
  | .array item length, v => by
    have hitems : ∀ vs : List Value, (vs.map (withoutSurplus item)).mapM (prepare item) =
        vs.mapM (prepare item) := fun vs => by
      rw [List.mapM_map]
      exact mapM_congr fun u _ => prepare_withoutSurplus item u
    cases v with
    | list vs =>
      rw [withoutSurplus, prepare, prepare, sequenceOf_eq_ok_iff.mpr (.list _),
        sequenceOf_eq_ok_iff.mpr (.list _), ok_bind, ok_bind, hitems]
    | dict entries =>
      rw [withoutSurplus, prepare, prepare, sequenceOf_eq_ok_iff.mpr (.list _),
        sequenceOf_eq_ok_iff.mpr (.dict _), ok_bind, ok_bind, hitems]
    | _ => rw [withoutSurplus] <;> exact nofun
  | .tuple components, v => by
    cases v with
    | list vs =>
      rw [withoutSurplus, prepare, prepare, sequenceOf_eq_ok_iff.mpr (.list _),
        sequenceOf_eq_ok_iff.mpr (.list _), ok_bind, ok_bind, prepareAll_withoutSurplusAll]
    | dict entries =>
      rw [withoutSurplus, prepare, prepare, sequenceOf_eq_ok_iff.mpr (.list _),
        sequenceOf_eq_ok_iff.mpr (.dict _), ok_bind, ok_bind, prepareAll_withoutSurplusAll]
    | _ => rw [withoutSurplus] <;> exact nofun
  | .basic _ _, v => by rw [withoutSurplus] <;> exact nofun

theorem prepareAll_withoutSurplusAll : (ts : List AbiType) → (vs : List Value) →
    prepareAll ts (withoutSurplusAll ts vs) = prepareAll ts vs
  | [], vs => by
    rw [prepareAll, prepareAll] <;> exact nofun
  | t :: ts, [] => by
    rw [withoutSurplusAll]
    exact nofun
  | t :: ts, v :: vs => by
    rw [withoutSurplusAll, prepareAll, prepareAll, prepare_withoutSurplus t v,
      prepareAll_withoutSurplusAll ts vs]
end

/-! ## Argument lists -/

variable {types : List Value} {abiTypes : List AbiType}

/-- The arguments are prepared like the components of a tuple. -/
theorem prepareArguments_eq (htypes : types.mapM typeOf = .ok abiTypes) {values : List Value}
    (hlength : types.length = values.length) :
    prepareArguments types values = (prepareAll abiTypes values).map (Prod.mk abiTypes) := by
  induction types generalizing abiTypes values with
  | nil =>
    cases htypes
    obtain rfl := List.length_eq_zero_iff.mp hlength.symm
    rw [prepareAll]
    · rfl
    · exact nofun
  | cons type types ih =>
    rw [List.mapM_cons] at htypes
    obtain ⟨t, ht, htypes⟩ := bind_eq_ok.mp htypes
    obtain ⟨ts, hts, htypes⟩ := bind_eq_ok.mp htypes
    cases htypes
    obtain ⟨v, values, rfl⟩ := List.exists_cons_of_length_eq_add_one hlength.symm
    rw [prepareArguments, ht, ok_bind, ih hts (Nat.succ.inj hlength), prepareAll]
    cases prepare t v with
    | error fault => rfl
    | ok w => cases prepareAll ts values <;> rfl

theorem length_eq_of_mapM_typeOf (htypes : types.mapM typeOf = .ok abiTypes) :
    types.length = abiTypes.length := (mapM_eq_ok.mp htypes).length_eq

theorem length_withoutSurplusAll (ts : List AbiType) {vs : List Value} (h : ts.length = vs.length) :
    (withoutSurplusAll ts vs).length = vs.length := by
  induction ts generalizing vs with
  | nil =>
    obtain rfl := List.length_eq_zero_iff.mp h.symm
    rfl
  | cons t ts ih =>
    obtain ⟨v, vs, rfl⟩ := List.exists_cons_of_length_eq_add_one h.symm
    rw [withoutSurplusAll, List.length_cons, List.length_cons, ih (Nat.succ.inj h)]

/-- As many arguments as types are prepared and then encoded. -/
theorem encodeArguments_eq (htypes : types.mapM typeOf = .ok abiTypes) {values : List Value}
    (hlength : types.length = values.length) :
    encodeArguments types values = (prepareAll abiTypes values >>= fun prepared =>
      match encodeValues? abiTypes prepared with
      | some bs => .ok (String.ofList (Text.bytesToHex bs))
      | none => .error (.abi .unencodable)) := by
  unfold encodeArguments
  rw [if_neg (not_not_intro hlength), prepareArguments_eq htypes hlength]
  cases prepareAll abiTypes values with
  | error fault => rfl
  | ok prepared => rfl

/-- Encoding sees the arguments without their surplus. -/
theorem encodeArguments_withoutSurplus (htypes : types.mapM typeOf = .ok abiTypes) {values : List Value}
    (hlength : types.length = values.length) :
    encodeArguments types (withoutSurplusAll abiTypes values) = encodeArguments types values := by
  have hcount := (length_eq_of_mapM_typeOf htypes).symm.trans hlength
  rw [encodeArguments_eq htypes hlength, encodeArguments_eq htypes
    (hlength.trans (length_withoutSurplusAll abiTypes hcount).symm), prepareAll_withoutSurplusAll]

theorem encodeArguments_of_length_ne {values : List Value} (h : types.length ≠ values.length) :
    encodeArguments types values = .error (.abi (.argumentCount types.length values.length)) := by
  unfold encodeArguments
  rw [if_pos h]
  rfl

theorem encodeArguments_eq_wrongKind_iff (htypes : types.mapM typeOf = .ok abiTypes)
    (values : List Value) : encodeArguments types values = .error (.data .wrongKind) ↔
      types.length = values.length ∧ MeetMemberless abiTypes values := by
  by_cases hlength : types.length = values.length
  · rw [and_iff_right hlength, encodeArguments_eq htypes hlength, ← prepareAll_eq_wrongKind_iff]
    cases prepareAll abiTypes values with
    | error fault => simp
    | ok prepared =>
      rw [ok_bind]
      cases encodeValues? abiTypes prepared <;> simp
  · rw [encodeArguments_of_length_ne hlength]
    simp [hlength]

theorem length_eq_of_encodeArguments {values : List Value} {calldata : String}
    (h : encodeArguments types values = .ok calldata) : types.length = values.length := by
  by_contra hlength
  rw [encodeArguments_of_length_ne hlength] at h
  cases h

/-- What becomes calldata has the right shape exactly if it has no surplus. -/
theorem haveShape_iff_of_encodeArguments (htypes : types.mapM typeOf = .ok abiTypes) {values : List Value}
    {calldata : String} (h : encodeArguments types values = .ok calldata) :
    HaveShape abiTypes values ↔ ¬ HaveSurplus abiTypes values := by
  rw [encodeArguments_eq htypes (length_eq_of_encodeArguments h)] at h
  obtain ⟨prepared, hprepared, h⟩ := bind_eq_ok.mp h
  cases hbytes : encodeValues? abiTypes prepared with
  | none =>
    rw [hbytes] at h
    cases h
  | some bs =>
    rw [encodeValues?, Option.bind_eq_bind, Option.bind_eq_some_iff] at hbytes
    obtain ⟨cs, hcs, hbytes⟩ := hbytes
    rw [Option.bind_eq_bind, Option.bind_eq_some_iff] at hbytes
    obtain ⟨parts, hparts, -⟩ := hbytes
    exact haveShape_iff_not_haveSurplus abiTypes hcs hprepared hparts

theorem within_encodeArguments_isPrepareFault (htypes : types.mapM typeOf = .ok abiTypes)
    (values : List Value) : Within IsPrepareFault (encodeArguments types values) := by
  by_cases hlength : types.length = values.length
  · rw [encodeArguments_eq htypes hlength]
    refine (within_prepareAll_isPrepareFault abiTypes values).bind fun prepared _ => ?_
    cases encodeValues? abiTypes prepared with
    | none => exact within_error.mpr (.inl ⟨_, rfl⟩)
    | some bs => exact within_ok _ _
  · rw [encodeArguments_of_length_ne hlength]
    exact within_error.mpr (.inl ⟨_, rfl⟩)

/-- **Arguments of the wrong shape are refused, unless something misses members or is dropped.** What is
    encoded in spite of its shape is encoded like what is left of it. -/
theorem encodeArguments_total (htypes : types.mapM typeOf = .ok abiTypes) (values : List Value) :
    (¬ HaveShape abiTypes values →
      (∃ cause, encodeArguments types values = .error (.abi cause)) ∨
      (encodeArguments types values = .error (.data .wrongKind) ∧ MeetMemberless abiTypes values) ∨
      HaveSurplus abiTypes values ∧ ∃ calldata, encodeArguments types values = .ok calldata ∧
        encodeArguments types (withoutSurplusAll abiTypes values) = .ok calldata) ∧
    (∀ calldata, encodeArguments types values = .ok calldata →
      (HaveShape abiTypes values ↔ ¬ HaveSurplus abiTypes values)) ∧
    (encodeArguments types values = .error (.data .wrongKind) ↔
      types.length = values.length ∧ MeetMemberless abiTypes values) := by
  refine ⟨fun hshape => ?_, fun _ => haveShape_iff_of_encodeArguments htypes,
    encodeArguments_eq_wrongKind_iff htypes values⟩
  cases h : encodeArguments types values with
  | ok calldata =>
    -- only what is dropped lets a wrong shape through
    have hsurplus := not_not.mp (mt (haveShape_iff_of_encodeArguments htypes h).mpr hshape)
    refine .inr (.inr ⟨hsurplus, calldata, rfl, ?_⟩)
    rw [encodeArguments_withoutSurplus htypes (length_eq_of_encodeArguments h), h]
  | error fault =>
    rcases within_encodeArguments_isPrepareFault htypes values fault h with ⟨cause, rfl⟩ | rfl
    · exact .inl ⟨cause, rfl⟩
    · exact .inr (.inl ⟨rfl, ((encodeArguments_eq_wrongKind_iff htypes values).mp h).2⟩)

/-- An array of pairs, where the second has only one item. -/
theorem encodeArguments_total_pairs :
    [Value.text "(uint256,bool)[]"].mapM typeOf = .ok [.array (.tuple
      [.basic "uint" (some (.plain 256)), .basic "bool" none]) none] ∧
    ¬ HaveShape [.array (.tuple [.basic "uint" (some (.plain 256)), .basic "bool" none]) none]
      [.list [.list [.int 7, .bool true], .list [.int 8]]] ∧
    ∃ cause, encodeArguments [.text "(uint256,bool)[]"]
      [.list [.list [.int 7, .bool true], .list [.int 8]]] = .error (.abi cause) := by
  have htypes : [Value.text "(uint256,bool)[]"].mapM typeOf = .ok [.array (.tuple
      [.basic "uint" (some (.plain 256)), .basic "bool" none]) none] := by rfl
  have hshape : ¬ HaveShape [.array (.tuple [.basic "uint" (some (.plain 256)), .basic "bool" none]) none]
      [.list [.list [.int 7, .bool true], .list [.int 8]]] := by
    simp [HaveShape, HasShape]
  have hsurplus : ¬ HaveSurplus
      [.array (.tuple [.basic "uint" (some (.plain 256)), .basic "bool" none]) none]
      [.list [.list [.int 7, .bool true], .list [.int 8]]] := by
    simp [HaveSurplus, HasSurplus]
  refine ⟨htypes, hshape, ?_⟩
  rcases (encodeArguments_total htypes _).1 hshape with h | ⟨-, hmeets⟩ | ⟨h, -⟩
  · exact h
  · exact absurd ((prepareAll_eq_wrongKind_iff _).mpr hmeets) nofun
  · exact absurd h hsurplus

/-- Of two items in place of one, the second is dropped. A number in place of a list is a fault of another
    kind. -/
theorem not_encodeArguments_total :
    ¬ HaveShape [.tuple [.basic "uint" (some (.plain 256))]] [.list [.int 1, .int 2]] ∧
      encodeArguments [.text "(uint256)"] [.list [.int 1, .int 2]] =
        .ok "0x0000000000000000000000000000000000000000000000000000000000000001" ∧
      encodeArguments [.text "uint256[]"] [.int 5] = .error (.data .wrongKind) :=
  ⟨by simp [HaveShape, HasShape], rfl, rfl⟩

end Abi

end Proposals
