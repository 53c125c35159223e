import Proposals.Abi.Document
import Proposals.Proofs.Fault

/-!
# `Proofs.Abi.Structure` — arguments have the structure of what they are read from

A document value is read along its type. Where the type asks for a list, reading goes through the members
of whatever has some: the items of a list, but also the characters of a text and the keys of an object.
And a tuple is read as far as there are both a component and a member. So what is read *corresponds* to
the value member by member (`Corresponds`, `readAs_eq_ok_iff`), which is less than having its structure
(`Mirrors`). The two are the same for values that are not loose: `IsLoose` says of a value alone, along the
type, that a text or an object stands for a list in it or that a tuple has too few or too many items
(`mirrors_iff_not_isLoose`).

What cannot be read is a fault of the argument, with one exception: an infinite number in place of an
integer, if nothing else that cannot be read stands before it (`MeetsInfinite`).
-/

namespace Proposals

open Proposals.Outcome

/-! ## Values in place of lists and of integers -/

namespace Value

/-- The value is no list, but has members like one: characters, bytes or keys. -/
inductive IsListLike : Value → Prop where
  | text (s : String) : IsListLike (.text s)
  | bytes (bs : List UInt8) : IsListLike (.bytes bs)
  | dict (entries : List (String × Value)) : IsListLike (.dict entries)

/-- The value is an infinite number. -/
inductive IsInfinite : Value → Prop where
  | float (negative : Bool) : IsInfinite (.float (.infinite negative))
  | decimal (negative : Bool) : IsInfinite (.decimal (.infinite negative))

theorem not_isListLike_list (vs : List Value) : ¬ IsListLike (.list vs) := nofun

/-- What has members is a list, or like one. -/
theorem list_or_isListLike_of_items {v : Value} {vs : List Value} (h : v.items = .ok vs) :
    v = .list vs ∨ v.IsListLike := by
  cases v with
  | list items =>
    cases h
    exact .inl rfl
  | text s => exact .inr (.text s)
  | bytes bs => exact .inr (.bytes bs)
  | dict entries => exact .inr (.dict entries)
  | _ => exact absurd h nofun

/-- A value without members is of the wrong kind. -/
theorem items_eq_error {v : Value} {fault : Fault} (h : v.items = .error fault) :
    fault = .data .wrongKind := by
  cases v with
  | list | text | bytes | dict => exact absurd h nofun
  | _ => exact (Except.error.inj h).symm

/-- **No integer is in an infinite number**, and whatever else has none does not overflow. -/
theorem toInteger_eq_overflow_iff {v : Value} : v.toInteger = .error (.data .overflow) ↔ v.IsInfinite := by
  have htext : ∀ cs : List Char, textInteger cs ≠ .error (.data .overflow) := by
    intro cs h
    unfold textInteger at h
    split at h <;> cases h
  constructor
  · intro h
    cases v with
    | float x =>
      cases x with
      | infinite negative => exact .float negative
      | finite | nan => cases h
    | decimal d =>
      cases d with
      | infinite negative => exact .decimal negative
      | finite | invalid => cases h
    | text s => exact absurd h (htext s.toList)
    | bytes bs =>
      rw [toInteger] at h
      split at h
      · exact absurd h (htext _)
      · cases h
    | _ => cases h
  · rintro (negative | negative) <;> rfl

end Value

namespace Abi

/-! ## Corresponding values -/

/-- A relation between what stands in a document for a basic type and what is read there. -/
abbrev LeafRelation := String → Value → Value → Prop

mutual
/-- The argument has, along the type, an item for each member of the value, and what stands at their ends
    is related. -/
def Corresponds (leaf : LeafRelation) : AbiType → Value → Value → Prop
  | .array item _, v, x =>
    ∃ vs xs, v.items = .ok vs ∧ x = .list xs ∧ List.Forall₂ (Corresponds leaf item) vs xs
  | .tuple components, v, x =>
    ∃ vs xs, v.items = .ok vs ∧ x = .list xs ∧ CorrespondAll leaf components vs xs
  | .basic base _, v, x => leaf base v x

/-- The same for the components of a tuple, as far as there are both a type and a member. -/
def CorrespondAll (leaf : LeafRelation) : List AbiType → List Value → List Value → Prop
  | t :: ts, v :: vs, xs =>
    ∃ y ys, xs = y :: ys ∧ Corresponds leaf t v y ∧ CorrespondAll leaf ts vs ys
  | _, _, xs => xs = []
end

mutual
theorem Corresponds.mono {leaf leaf' : LeafRelation} (hleaf : ∀ base v x, leaf base v x → leaf' base v x) :
    (t : AbiType) → {v x : Value} → Corresponds leaf t v x → Corresponds leaf' t v x
  | .array item _, _, _, ⟨vs, xs, hvs, hx, hall⟩ =>
    ⟨vs, xs, hvs, hx, hall.imp fun _ _ => Corresponds.mono hleaf item⟩
  | .tuple components, _, _, ⟨vs, xs, hvs, hx, hall⟩ =>
    ⟨vs, xs, hvs, hx, CorrespondAll.mono hleaf components hall⟩
  | .basic base _, _, _, h => hleaf base _ _ h

theorem CorrespondAll.mono {leaf leaf' : LeafRelation}
    (hleaf : ∀ base v x, leaf base v x → leaf' base v x) :
    (ts : List AbiType) → {vs xs : List Value} → CorrespondAll leaf ts vs xs → CorrespondAll leaf' ts vs xs
  | [], _, _, h => h
  | _ :: _, [], _, h => h
  | t :: ts, _ :: _, _, ⟨y, ys, hxs, hy, hys⟩ =>
    ⟨y, ys, hxs, Corresponds.mono hleaf t hy, CorrespondAll.mono hleaf ts hys⟩
end

/-- What is read for a basic type. -/
def ReadsBasic : LeafRelation := fun base v x => readBasic base v = .ok x

mutual
/-- **What is read corresponds to the value, and all that corresponds is read.** -/
theorem readAs_eq_ok_iff : (t : AbiType) → {v x : Value} →
    (readAs t v = .ok x ↔ Corresponds ReadsBasic t v x)
  | .array item _, v, x => by
    rw [readAs, Corresponds, bind_eq_ok]
    constructor
    · rintro ⟨vs, hvs, h⟩
      obtain ⟨xs, hxs, h⟩ := bind_eq_ok.mp h
      cases h
      exact ⟨vs, xs, hvs, rfl, (mapM_eq_ok.mp hxs).imp fun _ _ => (readAs_eq_ok_iff item).mp⟩
    · rintro ⟨vs, xs, hvs, rfl, hall⟩
      have hxs := mapM_eq_ok.mpr (hall.imp fun _ _ => (readAs_eq_ok_iff item).mpr)
      exact ⟨vs, hvs, bind_eq_ok.mpr ⟨xs, hxs, rfl⟩⟩
  | .tuple components, v, x => by
    rw [readAs, Corresponds, bind_eq_ok]
    constructor
    · rintro ⟨vs, hvs, h⟩
      obtain ⟨xs, hxs, h⟩ := bind_eq_ok.mp h
      cases h
      exact ⟨vs, xs, hvs, rfl, (readAllAs_eq_ok_iff components).mp hxs⟩
    · rintro ⟨vs, xs, hvs, rfl, hall⟩
      exact ⟨vs, hvs, bind_eq_ok.mpr ⟨xs, (readAllAs_eq_ok_iff components).mpr hall, rfl⟩⟩
  | .basic base _, v, x => by
    rw [readAs]
    rfl

theorem readAllAs_eq_ok_iff : (ts : List AbiType) → {vs xs : List Value} →
    (readAllAs ts vs = .ok xs ↔ CorrespondAll ReadsBasic ts vs xs)
  | [], vs, xs => by
    rw [readAllAs, CorrespondAll, Except.ok.injEq, eq_comm] <;> exact nofun
  | t :: ts, [], xs => by
    rw [readAllAs, CorrespondAll, Except.ok.injEq, eq_comm] <;> exact nofun
  | t :: ts, v :: vs, xs => by
    rw [readAllAs, CorrespondAll, bind_eq_ok]
    constructor
    · rintro ⟨y, hy, h⟩
      obtain ⟨ys, hys, h⟩ := bind_eq_ok.mp h
      cases h
      exact ⟨y, ys, rfl, (readAs_eq_ok_iff t).mp hy, (readAllAs_eq_ok_iff ts).mp hys⟩
    · rintro ⟨y, ys, rfl, hy, hys⟩
      exact ⟨y, (readAs_eq_ok_iff t).mpr hy,
        bind_eq_ok.mpr ⟨ys, (readAllAs_eq_ok_iff ts).mpr hys, rfl⟩⟩
end

/-! ## Values with the structure of their type -/

mutual
/-- The value has a list wherever the type asks for one, with as many items as the argument has there, and
    for a tuple an item for each component. -/
def Mirrors : AbiType → Value → Value → Prop
  | .array item _, v, x => ∃ vs xs, v = .list vs ∧ x = .list xs ∧ List.Forall₂ (Mirrors item) vs xs
  | .tuple components, v, x => ∃ vs xs, v = .list vs ∧ x = .list xs ∧ MirrorAll components vs xs
  | .basic _ _, _, _ => True

/-- The same for the components of a tuple. -/
def MirrorAll : List AbiType → List Value → List Value → Prop
  | [], [], [] => True
  | t :: ts, v :: vs, x :: xs => Mirrors t v x ∧ MirrorAll ts vs xs
  | _, _, _ => False
end

mutual
/-- Somewhere in the value there is no list where the type asks for one, but something that has members all
    the same, or a tuple has too few or too many items. -/
def IsLoose : AbiType → Value → Prop
  | .array item _, v => v.IsListLike ∨ ∃ vs, v = .list vs ∧ ∃ u ∈ vs, IsLoose item u
  | .tuple components, v => v.IsListLike ∨ ∃ vs, v = .list vs ∧ AreLoose components vs
  | .basic _ _, _ => False

/-- The same for the items of a tuple. -/
def AreLoose : List AbiType → List Value → Prop
  | [], [] => False
  | t :: ts, v :: vs => IsLoose t v ∨ AreLoose ts vs
  | _, _ => True
end

theorem forall₂_iff_forall_mem {α β : Type} {R S : α → β → Prop} {P : α → Prop} {xs : List α} {ys : List β}
    (h : List.Forall₂ R xs ys) (hiff : ∀ x y, R x y → (S x y ↔ P x)) :
    List.Forall₂ S xs ys ↔ ∀ x ∈ xs, P x := by
  induction h with
  | nil => simp
  | cons hhead _ ih => rw [List.forall₂_cons, List.forall_mem_cons, hiff _ _ hhead, ih]

mutual
/-- **A corresponding argument has the structure of the value exactly if the value is not loose.** -/
theorem mirrors_iff_not_isLoose {leaf : LeafRelation} : (t : AbiType) → {v x : Value} →
    Corresponds leaf t v x → (Mirrors t v x ↔ ¬ IsLoose t v)
  | .array item _, v, x, ⟨vs, xs, hvs, hx, hall⟩ => by
    -- the members are the items of a list, or the value is loose itself
    rcases Value.list_or_isListLike_of_items hvs with rfl | hlike
    · have hitems := forall₂_iff_forall_mem hall fun _ _ => mirrors_iff_not_isLoose item
      subst hx
      simp [Mirrors, IsLoose, Value.not_isListLike_list, hitems]
    · have hnot : ∀ ws, v ≠ .list ws := by
        rintro ws rfl
        exact Value.not_isListLike_list ws hlike
      simp [Mirrors, IsLoose, hlike, hnot]
  | .tuple components, v, x, ⟨vs, xs, hvs, hx, hall⟩ => by
    rcases Value.list_or_isListLike_of_items hvs with rfl | hlike
    · have hitems := mirrorAll_iff_not_areLoose components hall
      subst hx
      simp [Mirrors, IsLoose, Value.not_isListLike_list, hitems]
    · have hnot : ∀ ws, v ≠ .list ws := by
        rintro ws rfl
        exact Value.not_isListLike_list ws hlike
      simp [Mirrors, IsLoose, hlike, hnot]
  | .basic _ _, _, _, _ => by simp [Mirrors, IsLoose]

theorem mirrorAll_iff_not_areLoose {leaf : LeafRelation} : (ts : List AbiType) → {vs xs : List Value} →
    CorrespondAll leaf ts vs xs → (MirrorAll ts vs xs ↔ ¬ AreLoose ts vs)
  | [], [], _, h => by
    cases h
    simp [MirrorAll, AreLoose]
  | [], _ :: _, _, h => by
    cases h
    simp [MirrorAll, AreLoose]
  | _ :: _, [], _, h => by
    cases h
    simp [MirrorAll, AreLoose]
  | t :: ts, v :: vs, _, ⟨y, ys, rfl, hy, hys⟩ => by
    rw [MirrorAll, AreLoose, mirrors_iff_not_isLoose t hy, mirrorAll_iff_not_areLoose ts hys, not_or]
end

/-! ## Infinite numbers -/

/-- The type can be read from the value. -/
def IsReadable (t : AbiType) (v : Value) : Prop := ∃ x, Corresponds ReadsBasic t v x

mutual
/-- An infinite number stands in place of an integer, and all that reading comes to before can be read. -/
def MeetsInfinite : AbiType → Value → Prop
  | .array item _, v => ∃ before u after, v.items = .ok (before ++ u :: after) ∧
    (∀ w ∈ before, IsReadable item w) ∧ MeetsInfinite item u
  | .tuple components, v => ∃ vs, v.items = .ok vs ∧ MeetInfinite components vs
  | .basic base _, v => (base = "uint" ∨ base = "int") ∧ v.IsInfinite

/-- The same for the components of a tuple, as far as there are both a type and a member. -/
def MeetInfinite : List AbiType → List Value → Prop
  | t :: ts, v :: vs => MeetsInfinite t v ∨ IsReadable t v ∧ MeetInfinite ts vs
  | _, _ => False
end

theorem exists_readAs_iff (t : AbiType) (v : Value) : (∃ x, readAs t v = .ok x) ↔ IsReadable t v :=
  exists_congr fun _ => readAs_eq_ok_iff t

theorem readBasic_eq_overflow_iff {base : String} {v : Value} :
    readBasic base v = .error (.data .overflow) ↔ (base = "uint" ∨ base = "int") ∧ v.IsInfinite := by
  unfold readBasic
  simp only [Bool.or_eq_true, beq_iff_eq]
  split
  · next hbase =>
    subst hbase
    split <;> simp
  · split
    · next hbase =>
      subst hbase
      split
      · split <;> simp
      · simp
    · split
      · next hbase => rw [map_eq_error, Value.toInteger_eq_overflow_iff, and_iff_right hbase]
      · next hbase => simp [hbase]

mutual
/-- **Reading overflows exactly if it meets an infinite number.** -/
theorem readAs_eq_overflow_iff : (t : AbiType) → {v : Value} →
    (readAs t v = .error (.data .overflow) ↔ MeetsInfinite t v)
  | .array item _, v => by
    rw [readAs, MeetsInfinite]
    cases hvs : v.items with
    | error fault =>
      obtain rfl := Value.items_eq_error hvs
      simp
    | ok vs =>
      have hitems : vs.mapM (readAs item) = .error (.data .overflow) ↔
          ∃ before u after, vs = before ++ u :: after ∧ (∀ w ∈ before, IsReadable item w) ∧
            MeetsInfinite item u := by
        simp only [mapM_eq_error, exists_readAs_iff, readAs_eq_overflow_iff item]
      rw [ok_bind]
      simp only [Except.ok.injEq, ← hitems]
      cases vs.mapM (readAs item) <;> simp
  | .tuple components, v => by
    rw [readAs, MeetsInfinite]
    cases hvs : v.items with
    | error fault =>
      obtain rfl := Value.items_eq_error hvs
      simp
    | ok vs =>
      rw [ok_bind]
      simp only [Except.ok.injEq, exists_eq_left', ← readAllAs_eq_overflow_iff components]
      cases readAllAs components vs <;> simp
  | .basic base _, v => by
    rw [readAs, MeetsInfinite]
    exact readBasic_eq_overflow_iff

theorem readAllAs_eq_overflow_iff : (ts : List AbiType) → {vs : List Value} →
    (readAllAs ts vs = .error (.data .overflow) ↔ MeetInfinite ts vs)
  | [], vs => by
    rw [readAllAs, MeetInfinite]
    · simp
    all_goals exact nofun
  | t :: ts, [] => by
    rw [readAllAs, MeetInfinite]
    · simp
    all_goals exact nofun
  | t :: ts, v :: vs => by
    rw [readAllAs, MeetInfinite, ← readAs_eq_overflow_iff t, ← readAllAs_eq_overflow_iff ts,
      ← exists_readAs_iff]
    cases readAs t v with
    | error fault => simp
    | ok x => cases readAllAs ts vs <;> simp
end

/-! ## Faults of reading -/

/-- The fault says that a value does not fit its type, or that a number is infinite. -/
def IsReadFault (fault : Fault) : Prop := isMisfit fault = true ∨ fault = .data .overflow

theorem within_items_isReadFault (v : Value) : Within IsReadFault v.items := by
  intro fault hfault
  rw [Value.items_eq_error hfault]
  exact .inl rfl

theorem within_toInteger_isReadFault (v : Value) : Within IsReadFault v.toInteger := by
  have htext : ∀ cs : List Char, Within IsReadFault (Value.textInteger cs) := by
    intro cs
    unfold Value.textInteger
    split
    · exact within_ok _ _
    · exact within_error.mpr (.inl rfl)
  match v with
  | .bool _ | .int _ | .float (.finite _ _ _) | .decimal (.finite _ _ _) => exact within_ok _ _
  | .float (.infinite _) | .decimal (.infinite _) => exact within_error.mpr (.inr rfl)
  | .text s => exact htext s.toList
  | .bytes bs => exact within_ite (fun _ => htext _) fun _ => within_error.mpr (.inl rfl)
  | .float .nan | .decimal (.invalid _ _ _) | .null | .currency _ | .list _ | .dict _ | .foreign =>
    exact within_error.mpr (.inl rfl)

theorem within_readBasic_isReadFault (base : String) (v : Value) :
    Within IsReadFault (readBasic base v) := by
  unfold readBasic
  refine within_ite (fun _ => ?_) fun _ => within_ite (fun _ => ?_) fun _ => ?_
  · split
    · exact within_ok _ _
    · exact within_error.mpr (.inl rfl)
  · split
    · split
      · exact within_ok _ _
      · exact within_error.mpr (.inl rfl)
    · exact within_error.mpr (.inl rfl)
  · exact within_ite (fun _ => (within_toInteger_isReadFault v).map _) fun _ => within_ok _ _

mutual
theorem within_readAs_isReadFault : (t : AbiType) → (v : Value) → Within IsReadFault (readAs t v)
  | .array item _, v => by
    rw [readAs]
    exact (within_items_isReadFault v).bind fun vs _ => (within_mapM fun u _ =>
      within_readAs_isReadFault item u).bind fun _ _ => within_ok _ _
  | .tuple components, v => by
    rw [readAs]
    exact (within_items_isReadFault v).bind fun vs _ =>
      (within_readAllAs_isReadFault components vs).bind fun _ _ => within_ok _ _
  | .basic base _, v => by
    rw [readAs]
    exact within_readBasic_isReadFault base v

theorem within_readAllAs_isReadFault : (ts : List AbiType) → (vs : List Value) →
    Within IsReadFault (readAllAs ts vs)
  | [], _ => by
    rw [readAllAs]
    · exact within_ok _ _
    · exact nofun
  | _ :: _, [] => by
    rw [readAllAs]
    · exact within_ok _ _
    · exact nofun
  | t :: ts, v :: vs => by
    rw [readAllAs]
    exact (within_readAs_isReadFault t v).bind fun _ _ =>
      (within_readAllAs_isReadFault ts vs).bind fun _ _ => within_ok _ _
end

/-- A type that cannot be read does not fit. -/
theorem isMisfit_of_typeOf {type : Value} {fault : Fault} (h : typeOf type = .error fault) :
    isMisfit fault = true := by
  unfold typeOf at h
  split at h
  · split at h <;> cases h <;> rfl
  · cases h
    rfl

/-! ## Arguments of documents -/

variable {type : Value} {t : AbiType} {v : Value}

theorem fromDocument_eq_ok_iff (htype : typeOf type = .ok t) {x : Value} :
    fromDocument type v = .ok x ↔ Corresponds ReadsBasic t v x := by
  rw [← readAs_eq_ok_iff]
  unfold fromDocument
  rw [htype, ok_bind]
  cases readAs t v <;> simp

/-- What is not read is refused as no argument of the type, but for infinite numbers. -/
theorem fromDocument_eq_error {fault : Fault} (h : fromDocument type v = .error fault) :
    fault = .abi (.badValue type v) ∨
      fault = .data .overflow ∧ ∃ t, typeOf type = .ok t ∧ MeetsInfinite t v := by
  unfold fromDocument at h
  split at h
  · cases h
  · next cause hcause =>
    obtain rfl := Except.error.inj h
    cases htype : typeOf type with
    | error fault =>
      rw [htype] at hcause
      cases hcause
      exact .inl (if_pos (isMisfit_of_typeOf htype))
    | ok t =>
      rw [htype, ok_bind] at hcause
      -- misfits are given a new cause, an overflow is passed on
      rcases within_readAs_isReadFault t v cause hcause with hmisfit | rfl
      · exact .inl (if_pos hmisfit)
      · exact .inr ⟨rfl, t, rfl, readAs_eq_overflow_iff t |>.mp hcause⟩

theorem fromDocument_eq_overflow_iff :
    fromDocument type v = .error (.data .overflow) ↔ ∃ t, typeOf type = .ok t ∧ MeetsInfinite t v := by
  constructor
  · intro h
    rcases fromDocument_eq_error h with hbad | ⟨-, hmeets⟩
    · cases hbad
    · exact hmeets
  · rintro ⟨t, htype, hmeets⟩
    unfold fromDocument
    rw [htype, ok_bind, (readAs_eq_overflow_iff t).mpr hmeets]
    rfl

/-- **Reading keeps the structure of what was written, unless that is loose.** An argument corresponds to
    the value that it is read from, and has its structure exactly if the value is not loose; a value that
    is not read is refused as no argument of the type, unless an infinite number is met. -/
theorem fromDocument_mirrors_iff (htype : typeOf type = .ok t) (v : Value) :
    (∀ x, fromDocument type v = .ok x ↔ Corresponds ReadsBasic t v x) ∧
    (∀ x, fromDocument type v = .ok x → (Mirrors t v x ↔ ¬ IsLoose t v)) ∧
    ((∃ x, fromDocument type v = .ok x) ∨
      fromDocument type v = .error (.abi (.badValue type v)) ∨
      fromDocument type v = .error (.data .overflow) ∧ MeetsInfinite t v) := by
  refine ⟨fun x => fromDocument_eq_ok_iff htype, fun x hx => ?_, ?_⟩
  · exact mirrors_iff_not_isLoose t ((fromDocument_eq_ok_iff htype).mp hx)
  · cases hread : fromDocument type v with
    | ok x => exact .inl ⟨x, rfl⟩
    | error fault =>
      rcases fromDocument_eq_error hread with rfl | ⟨rfl, t', htype', hmeets⟩
      · exact .inr (.inl rfl)
      · cases htype.symm.trans htype'
        exact .inr (.inr ⟨rfl, hmeets⟩)

/-- A list of pairs of a number and texts. -/
theorem fromDocument_mirrors_pairs :
    typeOf (.text "(uint256,string[])[]") = .ok (.array (.tuple
      [.basic "uint" (some (.plain 256)), .array (.basic "string" none) none]) none) ∧
    fromDocument (.text "(uint256,string[])[]")
        (.list [.list [.text "7", .list [.text "a", .text "b"]], .list [.int 8, .list []]]) =
      .ok (.list [.list [.int 7, .list [.text "a", .text "b"]], .list [.int 8, .list []]]) ∧
    Mirrors (.array (.tuple [.basic "uint" (some (.plain 256)), .array (.basic "string" none) none]) none)
      (.list [.list [.text "7", .list [.text "a", .text "b"]], .list [.int 8, .list []]])
      (.list [.list [.int 7, .list [.text "a", .text "b"]], .list [.int 8, .list []]]) := by
  have htype : typeOf (.text "(uint256,string[])[]") = .ok (.array (.tuple
      [.basic "uint" (some (.plain 256)), .array (.basic "string" none) none]) none) := by rfl
  have hread : fromDocument (.text "(uint256,string[])[]")
      (.list [.list [.text "7", .list [.text "a", .text "b"]], .list [.int 8, .list []]]) =
        .ok (.list [.list [.int 7, .list [.text "a", .text "b"]], .list [.int 8, .list []]]) := by rfl
  refine ⟨htype, hread, ((fromDocument_mirrors_iff htype _).2.1 _ hread).mpr ?_⟩
  simp [IsLoose, AreLoose, Value.not_isListLike_list]

/-- The characters of a text become the items of an array, the keys of an object too, and the third of the
    items of a pair is dropped. -/
theorem not_fromDocument_mirrors :
    fromDocument (.text "uint256[]") (.text "12") = .ok (.list [.int 1, .int 2]) ∧
      fromDocument (.text "string[]") (.dict [("key", .int 1)]) = .ok (.list [.text "key"]) ∧
      fromDocument (.text "(uint256,uint256)") (.list [.int 1, .int 2, .int 3]) =
        .ok (.list [.int 1, .int 2]) ∧
      ¬ Mirrors (.array (.basic "uint" (some (.plain 256))) none) (.text "12") (.list [.int 1, .int 2]) :=
  ⟨rfl, rfl, rfl, nofun⟩

end Abi

end Proposals
