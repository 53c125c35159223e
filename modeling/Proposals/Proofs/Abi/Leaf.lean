import Proposals.Proofs.Abi.Shape

/-!
# `Proofs.Abi.Leaf` — addresses on the two ways to calldata

An address may stand anywhere in an argument: in an item of an array, in a component of a tuple, and so on
down (`AddressPlace`). Reading an argument from a document and preparing one for its encoding both go through
the argument along its type (`IsWalk`). If all else passes, what such a walk makes of an argument is what it
makes of the value in the place, put into the same place of the result (`IsWalk.place`).

So it is the leaf that decides. Both ways take the texts of addresses, in any spelling, for the same address
in normal form (`Value.addressText?`). Preparing refuses all other values. Reading also takes some that are
no texts, numbers with forty digits in base sixteen among them (`Value.IsBareAddress`), and refuses the rest
(`fromDocument_encodeArguments_place`, `not_acceptsAlike`).
-/

namespace Proposals

open Proposals.Outcome

/-! ## Values of addresses -/

namespace Value

/-- The address that a text spells, in normal form; other values spell none. -/
def addressText? : Value → Option String
  | .text s => addressOfText? s
  | _ => none

/-- The value is no text, but passes for an address: a number with forty digits in base sixteen, or twenty
    bytes. -/
inductive IsBareAddress : Value → Prop where
  | number {n : Nat} (lower : 16 ^ 39 ≤ n) (upper : n < 16 ^ 40) : IsBareAddress (.int n)
  | bytes {bs : List UInt8} (length : bs.length = 20) : IsBareAddress (.bytes bs)

theorem isNormalAddress_of_addressText? {v : Value} {a : String} (h : v.addressText? = some a) :
    IsNormalAddress a := by
  cases v with
  | text s => exact isNormalAddress_of_addressOfText? h
  | _ => cases h

theorem toAddress?_of_addressText? {v : Value} {a : String} (h : v.addressText? = some a) :
    v.toAddress? = some a := by
  cases v with
  | text s => exact h
  | _ => cases h

theorem isNormalAddress_of_toAddress? {v : Value} {a : String} (h : v.toAddress? = some a) :
    IsNormalAddress a := by
  cases v with
  | text s => exact isNormalAddress_of_addressOfText? h
  | bytes bs =>
    rw [toAddress?, Option.ite_none_right_eq_some] at h
    obtain ⟨hlength, h⟩ := h
    cases h
    exact isNormalAddress_addressOfBytes hlength
  | int n =>
    cases n with
    | ofNat n => exact isNormalAddress_of_addressOfText? h
    | negSucc n => cases h
  | _ => cases h

end Value

theorem all_isHexDigit_toDigits (n : Nat) : (Nat.toDigits 16 n).all Text.isHexDigit = true := by
  have hdigit : ∀ d < 16, Text.isHexDigit d.digitChar = true := by decide
  induction n using Nat.strongRecOn with
  | ind n ih =>
    by_cases hn : n < 16
    · rw [Nat.toDigits_of_lt_base hn]
      simp [hdigit n hn]
    · rw [Nat.toDigits_of_base_le (by decide) (Nat.le_of_not_lt hn), List.all_append,
        ih (n / 16) (Nat.div_lt_self (by omega) (by decide))]
      simp [hdigit (n % 16) (Nat.mod_lt n (by decide))]

/-- A number is an address if it has exactly forty digits in base sixteen. -/
theorem isAddressText_hexOfNat (n : Nat) :
    isAddressText (hexOfNat n) = true ↔ 16 ^ 39 ≤ n ∧ n < 16 ^ 40 := by
  have hstrip : Text.stripMark (hexOfNat n) = Nat.toDigits 16 n := rfl
  have hlower : (Nat.toDigits 16 n).length ≤ 39 ↔ n < 16 ^ 39 :=
    Nat.length_toDigits_le_iff (by decide) (by decide)
  have hupper : (Nat.toDigits 16 n).length ≤ 40 ↔ n < 16 ^ 40 :=
    Nat.length_toDigits_le_iff (by decide) (by decide)
  unfold isAddressText
  rw [hstrip, all_isHexDigit_toDigits, Bool.and_true, beq_iff_eq]
  omega

/-- **What is not the text of an address passes for one if and only if it is a bare address.** -/
theorem Value.exists_toAddress?_iff {v : Value} (h : v.addressText? = none) :
    (∃ a, v.toAddress? = some a) ↔ v.IsBareAddress := by
  cases v with
  | text s =>
    refine iff_of_false ?_ nofun
    rintro ⟨a, ha⟩
    cases h.symm.trans ha
  | bytes bs =>
    by_cases hlength : bs.length = 20
    · exact iff_of_true ⟨_, if_pos hlength⟩ (.bytes hlength)
    · refine iff_of_false ?_ ?_
      · rintro ⟨a, ha⟩
        cases (if_neg hlength).symm.trans ha
      · rintro (_ | h)
        exact hlength h
  | int n =>
    cases n with
    | negSucc n => exact iff_of_false nofun nofun
    | ofNat n =>
      have hvalue : (Value.int (.ofNat n)).toAddress? =
          if isAddressText (hexOfNat n) then some (String.ofList (normalizeText (hexOfNat n))) else none := by
        show addressOfText? (String.ofList (hexOfNat n)) = _
        rw [addressOfText?, String.toList_ofList]
      rw [hvalue]
      by_cases hn : isAddressText (hexOfNat n) = true
      · obtain ⟨hlower, hupper⟩ := (isAddressText_hexOfNat n).mp hn
        exact iff_of_true ⟨_, if_pos hn⟩ (.number hlower hupper)
      · refine iff_of_false ?_ ?_
        · rintro ⟨a, ha⟩
          cases (if_neg hn).symm.trans ha
        · rintro (⟨hlower, hupper⟩ | _)
          exact hn ((isAddressText_hexOfNat n).mpr ⟨hlower, hupper⟩)
  | _ => exact iff_of_false nofun nofun

/-- If a list passes, what becomes of it with another item depends on this item alone. -/
theorem exists_mapM_place {ε α β : Type} {f : α → Except ε β} {before after : List α} {x₀ : α}
    {zs : List β} (h : (before ++ x₀ :: after).mapM f = .ok zs) :
    ∃ ys ys', ∀ x, (before ++ x :: after).mapM f = (f x).map fun y => ys ++ y :: ys' := by
  induction before generalizing zs with
  | nil =>
    rw [List.nil_append, List.mapM_cons] at h
    obtain ⟨y₀, -, h⟩ := bind_eq_ok.mp h
    obtain ⟨ys', hys', -⟩ := bind_eq_ok.mp h
    refine ⟨[], ys', fun x => ?_⟩
    rw [List.nil_append, List.mapM_cons, hys']
    cases f x <;> rfl
  | cons b before ih =>
    rw [List.cons_append, List.mapM_cons] at h
    obtain ⟨y, hy, h⟩ := bind_eq_ok.mp h
    obtain ⟨zs, hzs, -⟩ := bind_eq_ok.mp h
    obtain ⟨ys, ys', hplace⟩ := ih hzs
    refine ⟨y :: ys, ys', fun x => ?_⟩
    rw [List.cons_append, List.mapM_cons, hy, ok_bind, hplace]
    cases f x <;> rfl

namespace Abi

/-! ## Places -/

/-- A place of an address in the values of a type: the rest of the value, which does not change. -/
inductive AddressPlace : AbiType → (Value → Value) → Prop where
  | leaf : AddressPlace (.basic "address" none) id
  | item {t : AbiType} {place : Value → Value} (length : Option Nat) (before after : List Value)
      (h : AddressPlace t place) :
      AddressPlace (.array t length) fun v => .list (before ++ place v :: after)
  | component {t : AbiType} {place : Value → Value} (ts us : List AbiType) (before after : List Value)
      (hlength : before.length = ts.length) (h : AddressPlace t place) :
      AddressPlace (.tuple (ts ++ t :: us)) fun v => .list (before ++ place v :: after)

/-- The function goes through the items of lists and the components of tuples, one after the other. -/
structure IsWalk (f : AbiType → Value → Outcome Value)
    (fAll : List AbiType → List Value → Outcome (List Value)) : Prop where
  array : ∀ item length vs, f (.array item length) (.list vs) = (vs.mapM (f item)).map .list
  tuple : ∀ components vs, f (.tuple components) (.list vs) = (fAll components vs).map .list
  cons : ∀ t ts v vs, fAll (t :: ts) (v :: vs) = (do
    let w ← f t v
    let ws ← fAll ts vs
    return w :: ws)

theorem isWalk_readAs : IsWalk readAs readAllAs where
  array item length vs := by
    rw [readAs]
    show (vs.mapM (readAs item) >>= _) = _
    cases vs.mapM (readAs item) <;> rfl
  tuple components vs := by
    rw [readAs]
    show (readAllAs components vs >>= _) = _
    cases readAllAs components vs <;> rfl
  cons t ts v vs := by rw [readAllAs]

theorem isWalk_prepare : IsWalk prepare prepareAll where
  array item length vs := by
    rw [prepare]
    show (vs.mapM (prepare item) >>= _) = _
    cases vs.mapM (prepare item) <;> rfl
  tuple components vs := by
    rw [prepare]
    show (prepareAll components vs >>= _) = _
    cases prepareAll components vs <;> rfl
  cons t ts v vs := by rw [prepareAll]

section Walk

variable {f : AbiType → Value → Outcome Value} {fAll : List AbiType → List Value → Outcome (List Value)}
variable {t : AbiType} {ts us : List AbiType} {before after : List Value}

/-- If components pass, what becomes of them with another value in one place depends on it alone. -/
theorem IsWalk.all_place (h : IsWalk f fAll) (hlength : before.length = ts.length) {v₀ : Value}
    {xs : List Value} (hok : fAll (ts ++ t :: us) (before ++ v₀ :: after) = .ok xs) :
    ∃ ys ys', ys.length = ts.length ∧
      ∀ v, fAll (ts ++ t :: us) (before ++ v :: after) = (f t v).map fun y => ys ++ y :: ys' := by
  induction ts generalizing before xs with
  | nil =>
    obtain rfl := List.length_eq_zero_iff.mp hlength
    rw [List.nil_append, List.nil_append, h.cons] at hok
    obtain ⟨y₀, -, hok⟩ := bind_eq_ok.mp hok
    obtain ⟨ys', hys', -⟩ := bind_eq_ok.mp hok
    refine ⟨[], ys', rfl, fun v => ?_⟩
    rw [List.nil_append, List.nil_append, h.cons, hys']
    cases f t v <;> rfl
  | cons s ts ih =>
    obtain ⟨b, before, rfl⟩ := List.exists_cons_of_length_eq_add_one hlength
    rw [List.cons_append, List.cons_append, h.cons] at hok
    obtain ⟨y, hy, hok⟩ := bind_eq_ok.mp hok
    obtain ⟨xs, hxs, -⟩ := bind_eq_ok.mp hok
    obtain ⟨ys, ys', hcount, hplace⟩ := ih (Nat.succ.inj hlength) hxs
    refine ⟨y :: ys, ys', congrArg Nat.succ hcount, fun v => ?_⟩
    rw [List.cons_append, List.cons_append, h.cons, hy, ok_bind, hplace]
    cases f t v <;> rfl

/-- **What a walk makes of a value with an address in it depends on the address alone,** if the rest
    passes. -/
theorem IsWalk.place (h : IsWalk f fAll) {place : Value → Value} (hplace : AddressPlace t place)
    {v₀ x₀ : Value} (hok : f t (place v₀) = .ok x₀) :
    ∃ filled, AddressPlace t filled ∧
      ∀ v, f t (place v) = (f (.basic "address" none) v).map filled := by
  induction hplace generalizing x₀ with
  | leaf =>
    refine ⟨id, .leaf, fun v => ?_⟩
    show f _ v = _
    cases f (.basic "address" none) v <;> rfl
  | item length before after _ ih =>
    rw [h.array] at hok
    obtain ⟨zs, hzs, -⟩ := map_eq_ok.mp hok
    obtain ⟨ys, ys', hall⟩ := exists_mapM_place hzs
    obtain ⟨y₀, hy₀, -⟩ := map_eq_ok.mp ((hall _).symm.trans hzs)
    obtain ⟨filled, hfilled, hinner⟩ := ih hy₀
    refine ⟨_, .item length ys ys' hfilled, fun v => ?_⟩
    rw [h.array, hall, hinner]
    cases f (.basic "address" none) v <;> rfl
  | component ts us before after hlength _ ih =>
    rw [h.tuple] at hok
    obtain ⟨zs, hzs, -⟩ := map_eq_ok.mp hok
    obtain ⟨ys, ys', hcount, hall⟩ := h.all_place hlength hzs
    obtain ⟨y₀, hy₀, -⟩ := map_eq_ok.mp ((hall _).symm.trans hzs)
    obtain ⟨filled, hfilled, hinner⟩ := ih hy₀
    refine ⟨_, .component ts us ys ys' hcount hfilled, fun v => ?_⟩
    rw [h.tuple, hall, hinner]
    cases f (.basic "address" none) v <;> rfl

end Walk

/-! ## Encoding -/

namespace Coder

theorem exists_mapM_encode?_iff {item : Coder} {vs : List Value} :
    (∃ es, vs.mapM (encode? item) = some es) ↔ ∀ v ∈ vs, ∃ e, encode? item v = some e := by
  refine ⟨fun ⟨es, hes⟩ => exists_encode?_of_mapM hes, fun h => ?_⟩
  induction vs with
  | nil => exact ⟨[], rfl⟩
  | cons v vs ih =>
    obtain ⟨⟨e, he⟩, hvs⟩ := List.forall_mem_cons.mp h
    obtain ⟨es, hes⟩ := ih hvs
    exact ⟨e :: es, by rw [List.mapM_cons, he, hes]; rfl⟩

/-- An array is encoded exactly if it has the right length and its items are encoded. -/
theorem exists_encode?_array_iff {item : Coder} {length : Option Nat} {vs : List Value} :
    (∃ e, encode? (.array item length) (.list vs) = some e) ↔
      (∀ n, length = some n → vs.length = n) ∧ ∀ v ∈ vs, ∃ e, encode? item v = some e := by
  refine ⟨fun ⟨e, he⟩ => items_of_encode? he, fun ⟨hlength, hvs⟩ => ?_⟩
  obtain ⟨es, hes⟩ := exists_mapM_encode?_iff.mpr hvs
  cases length with
  | none => exact ⟨_, by rw [encode?, hes]; rfl⟩
  | some n => exact ⟨_, by rw [encode?, if_pos (hlength n rfl), hes]; rfl⟩

theorem encodeParts?_cons {c : Coder} {cs : List Coder} {v : Value} {vs : List Value} :
    (∃ parts, encodeParts? (c :: cs) (v :: vs) = some parts) ↔
      (∃ e, encode? c v = some e) ∧ ∃ parts, encodeParts? cs vs = some parts := by
  rw [encodeParts?]
  cases encode? c v with
  | none => simp
  | some e => cases encodeParts? cs vs <;> simp

theorem ofTypes?_cons {t : AbiType} {ts : List AbiType} {cs : List Coder}
    (h : ofTypes? (t :: ts) = some cs) :
    ∃ c ds, cs = c :: ds ∧ ofType? t = some c ∧ ofTypes? ts = some ds := by
  simp only [ofTypes?, Option.bind_eq_bind, Option.bind_eq_some_iff, Option.pure_def,
    Option.some.injEq] at h
  obtain ⟨c, hc, ds, hds, rfl⟩ := h
  exact ⟨c, ds, rfl, hc, hds⟩

/-- Components are still encoded if the one in some place is exchanged for another that is. -/
theorem exists_encodeParts?_place {t : AbiType} {ts us : List AbiType} {cs : List Coder}
    {before after : List Value} {v w : Value} (hof : ofTypes? (ts ++ t :: us) = some cs)
    (hlength : before.length = ts.length)
    (hok : ∃ parts, encodeParts? cs (before ++ v :: after) = some parts)
    (hw : ∀ c, ofType? t = some c → (∃ e, encode? c v = some e) → ∃ e, encode? c w = some e) :
    ∃ parts, encodeParts? cs (before ++ w :: after) = some parts := by
  induction ts generalizing before cs with
  | nil =>
    obtain rfl := List.length_eq_zero_iff.mp hlength
    obtain ⟨c, ds, rfl, hc, -⟩ := ofTypes?_cons hof
    obtain ⟨hv, hafter⟩ := encodeParts?_cons.mp hok
    exact encodeParts?_cons.mpr ⟨hw c hc hv, hafter⟩
  | cons s ts ih =>
    obtain ⟨b, before, rfl⟩ := List.exists_cons_of_length_eq_add_one hlength
    obtain ⟨d, ds, rfl, -, hds⟩ := ofTypes?_cons hof
    obtain ⟨hb, hrest⟩ := encodeParts?_cons.mp hok
    exact encodeParts?_cons.mpr ⟨hb, ih hds (Nat.succ.inj hlength) hrest⟩

/-- **Any address can stand in the place of what is encoded there.** -/
theorem exists_encode?_place {t : AbiType} {place : Value → Value} (hplace : AddressPlace t place)
    {a : String} (ha : IsNormalAddress a) {c : Coder} (hof : ofType? t = some c) {v : Value}
    (hok : ∃ e, encode? c (place v) = some e) : ∃ e, encode? c (place (.text a)) = some e := by
  induction hplace generalizing c with
  | leaf =>
    cases hof
    obtain ⟨n, -, hencode, -⟩ := exists_word_address ha
    exact ⟨word n, hencode⟩
  | item length before after _ ih =>
    rw [ofType?, Option.map_eq_some_iff] at hof
    obtain ⟨d, hd, rfl⟩ := hof
    obtain ⟨hlength, hall⟩ := exists_encode?_array_iff.mp hok
    rw [List.forall_mem_append, List.forall_mem_cons] at hall
    obtain ⟨hbefore, hv, hafter⟩ := hall
    refine exists_encode?_array_iff.mpr ⟨fun n hn => ?_, ?_⟩
    · have hcount := hlength n hn
      rw [List.length_append, List.length_cons] at hcount ⊢
      exact hcount
    · rw [List.forall_mem_append, List.forall_mem_cons]
      exact ⟨hbefore, ih hd hv, hafter⟩
  | component ts us before after hlength _ ih =>
    rw [ofType?, Option.map_eq_some_iff] at hof
    obtain ⟨cs, hcs, rfl⟩ := hof
    obtain ⟨e, he⟩ := hok
    rw [encode?, Option.map_eq_some_iff] at he
    obtain ⟨parts, hparts, -⟩ := he
    obtain ⟨parts', hparts'⟩ := exists_encodeParts?_place hcs hlength ⟨parts, hparts⟩ fun c hc => ih hc
    exact ⟨_, by rw [encode?, hparts']; rfl⟩

end Coder

theorem exists_encodeValues?_place {t : AbiType} {ts us : List AbiType} {before after : List Value}
    {place : Value → Value} (hplace : AddressPlace t place) (hlength : before.length = ts.length)
    {a : String} (ha : IsNormalAddress a) {v : Value} {bs : List UInt8}
    (hok : encodeValues? (ts ++ t :: us) (before ++ place v :: after) = some bs) :
    ∃ bs', encodeValues? (ts ++ t :: us) (before ++ place (.text a) :: after) = some bs' := by
  obtain ⟨cs, hcs, hok⟩ := Option.bind_eq_some_iff.mp hok
  obtain ⟨parts, hparts, -⟩ := Option.bind_eq_some_iff.mp hok
  obtain ⟨parts', hparts'⟩ := Coder.exists_encodeParts?_place hcs hlength ⟨parts, hparts⟩
    fun _ hc => Coder.exists_encode?_place hplace ha hc
  exact ⟨assemble parts', by rw [encodeValues?, hcs]; simp [hparts']⟩

/-! ## The two ways -/

section Ways

variable {type : Value} {types : List Value} {t : AbiType} {ts us : List AbiType}
variable {before after : List Value} {place : Value → Value}

theorem readAs_address (v : Value) : readAs (.basic "address" none) v =
    match v.toAddress? with
    | some a => .ok (.text a)
    | none => .error (.data .badValue) := by
  rw [readAs]
  rfl

theorem prepare_address (v : Value) : prepare (.basic "address" none) v =
    match v.addressText? with
    | some a => .ok (.text a)
    | none => .error (.abi (.badAddress v)) := by
  cases v with
  | text s =>
    rw [prepare]
    show (match addressOfText? s with | some a => _ | none => _) = _
    cases h : addressOfText? s <;> simp [Value.addressText?, h]
  | _ => rfl

/-- **Reading decides at the leaf whether there is an address.** -/
theorem fromDocument_place (htype : typeOf type = .ok t) (hplace : AddressPlace t place)
    (hok : ∃ v x, fromDocument type (place v) = .ok x) :
    ∃ filled, AddressPlace t filled ∧ ∀ v, fromDocument type (place v) =
      match v.toAddress? with
      | some a => .ok (filled (.text a))
      | none => .error (.abi (.badValue type (place v))) := by
  obtain ⟨v₀, x₀, hok⟩ := hok
  have hread : readAs t (place v₀) = .ok x₀ :=
    (readAs_eq_ok_iff t).mpr ((fromDocument_eq_ok_iff htype).mp hok)
  obtain ⟨filled, hfilled, hall⟩ := isWalk_readAs.place hplace hread
  refine ⟨filled, hfilled, fun v => ?_⟩
  unfold fromDocument
  rw [htype, ok_bind, hall, readAs_address]
  cases v.toAddress? <;> rfl

/-- **Preparing decides at the leaf whether there is the text of an address.** -/
theorem prepareAll_place (hplace : AddressPlace t place) (hlength : before.length = ts.length) {v₀ : Value}
    {prepared : List Value} (hok : prepareAll (ts ++ t :: us) (before ++ place v₀ :: after) = .ok prepared) :
    ∃ ys ys' filled, ys.length = ts.length ∧ AddressPlace t filled ∧
      ∀ v, prepareAll (ts ++ t :: us) (before ++ place v :: after) =
        match v.addressText? with
        | some a => .ok (ys ++ filled (.text a) :: ys')
        | none => .error (.abi (.badAddress v)) := by
  obtain ⟨ys, ys', hys, hall⟩ := isWalk_prepare.all_place hlength hok
  obtain ⟨x₀, hx₀, -⟩ := map_eq_ok.mp ((hall _).symm.trans hok)
  obtain ⟨filled, hfilled, hinner⟩ := isWalk_prepare.place hplace hx₀
  refine ⟨ys, ys', filled, hys, hfilled, fun v => ?_⟩
  rw [hall, hinner, prepare_address]
  cases v.addressText? <;> rfl

/-- **Encoding decides at the leaf whether there is the text of an address.** -/
theorem encodeArguments_place (htypes : types.mapM typeOf = .ok (ts ++ t :: us))
    (hplace : AddressPlace t place) (hlength : before.length = ts.length)
    (hok : ∃ v calldata, encodeArguments types (before ++ place v :: after) = .ok calldata) :
    (∀ a, IsNormalAddress a →
        ∃ calldata, encodeArguments types (before ++ place (.text a) :: after) = .ok calldata) ∧
      (∀ v a, v.addressText? = some a → encodeArguments types (before ++ place v :: after) =
        encodeArguments types (before ++ place (.text a) :: after)) ∧
      ∀ v, v.addressText? = none →
        encodeArguments types (before ++ place v :: after) = .error (.abi (.badAddress v)) := by
  obtain ⟨v₀, calldata₀, hok⟩ := hok
  have hcount : ∀ v, types.length = (before ++ place v :: after).length := by
    intro v
    rw [length_eq_of_encodeArguments hok, List.length_append, List.length_append]
    rfl
  rw [encodeArguments_eq htypes (hcount v₀)] at hok
  obtain ⟨prepared₀, hprepared₀, hencoded⟩ := bind_eq_ok.mp hok
  obtain ⟨ys, ys', filled, hys, hfilled, hall⟩ := prepareAll_place hplace hlength hprepared₀
  refine ⟨fun a ha => ?_, fun v a ha => ?_, fun v hv => ?_⟩
  · -- an address has been encoded there, so any other is
    have hnormal : (Value.text a).addressText? = some a := ha
    rw [encodeArguments_eq htypes (hcount (.text a)), hall, hnormal]
    rw [hall] at hprepared₀
    cases ha₀ : v₀.addressText? with
    | none =>
      rw [ha₀] at hprepared₀
      cases hprepared₀
    | some a₀ =>
      rw [ha₀] at hprepared₀
      cases hprepared₀
      cases hbs : encodeValues? (ts ++ t :: us) (ys ++ filled (.text a₀) :: ys') with
      | none =>
        simp only [hbs] at hencoded
        cases hencoded
      | some bs =>
        obtain ⟨bs', hbs'⟩ := exists_encodeValues?_place hfilled hys ha hbs
        simp only [ok_bind, hbs']
        exact ⟨_, rfl⟩
  · have hnormal : (Value.text a).addressText? = some a := Value.isNormalAddress_of_addressText? ha
    rw [encodeArguments_eq htypes (hcount v), encodeArguments_eq htypes (hcount (.text a)), hall, hall, ha,
      hnormal]
  · rw [encodeArguments_eq htypes (hcount v), hall, hv]
    rfl

/-- **Addresses are validated alike, but for bare ones.** Let a value stand in the place of an address in a
    document, and in an argument that is to be encoded, where all else passes. If it is the text of an
    address, both ways accept it, and go on with the same address in normal form. If not, encoding refuses
    it as no address, and reading refuses it as no argument of the type, unless it is a bare address: this
    is read as the text of an address. -/
theorem fromDocument_encodeArguments_place {place' : Value → Value} (htype : typeOf type = .ok t)
    (hplace : AddressPlace t place) (hread : ∃ v x, fromDocument type (place v) = .ok x)
    (htypes : types.mapM typeOf = .ok (ts ++ t :: us)) (hplace' : AddressPlace t place')
    (hlength : before.length = ts.length)
    (hencode : ∃ v calldata, encodeArguments types (before ++ place' v :: after) = .ok calldata) :
    ∃ filled, AddressPlace t filled ∧ ∀ v : Value,
      (∀ a, v.addressText? = some a → IsNormalAddress a ∧
        fromDocument type (place v) = .ok (filled (.text a)) ∧
        ∃ calldata, encodeArguments types (before ++ place' v :: after) = .ok calldata ∧
          encodeArguments types (before ++ place' (.text a) :: after) = .ok calldata) ∧
      (v.addressText? = none →
        encodeArguments types (before ++ place' v :: after) = .error (.abi (.badAddress v)) ∧
        (¬ v.IsBareAddress → fromDocument type (place v) = .error (.abi (.badValue type (place v)))) ∧
        (v.IsBareAddress → ∃ a, IsNormalAddress a ∧
          fromDocument type (place v) = .ok (filled (.text a)))) := by
  obtain ⟨filled, hfilled, hreads⟩ := fromDocument_place htype hplace hread
  obtain ⟨haccepts, hencodes, hrefuses⟩ := encodeArguments_place htypes hplace' hlength hencode
  refine ⟨filled, hfilled, fun v => ⟨fun a ha => ?_, fun hnone => ?_⟩⟩
  · have hnormal := Value.isNormalAddress_of_addressText? ha
    obtain ⟨calldata, hcalldata⟩ := haccepts a hnormal
    refine ⟨hnormal, ?_, calldata, ?_, hcalldata⟩
    · rw [hreads, Value.toAddress?_of_addressText? ha]
    · rw [hencodes v a ha]
      exact hcalldata
  · refine ⟨hrefuses v hnone, fun hbare => ?_, fun hbare => ?_⟩
    · have hno : v.toAddress? = none := Option.eq_none_iff_forall_ne_some.mpr fun a ha =>
        hbare ((Value.exists_toAddress?_iff hnone).mp ⟨a, ha⟩)
      rw [hreads, hno]
    · obtain ⟨a, ha⟩ := (Value.exists_toAddress?_iff hnone).mpr hbare
      exact ⟨a, Value.isNormalAddress_of_toAddress? ha, by rw [hreads, ha]⟩

end Ways

/-- Pairs of an address and a truth value, behind a number: the text of an address is taken without its mark
    and in capitals, a number is only read. -/
theorem fromDocument_encodeArguments_place_pair :
    typeOf (.text "(address,bool)[]") =
      .ok (.array (.tuple [.basic "address" none, .basic "bool" none]) none) ∧
    ∃ filled : Value → Value,
      fromDocument (.text "(address,bool)[]")
        (.list [.list [.text "ABCDABCDABCDABCDABCDABCDABCDABCDABCDABCD", .bool true]]) =
          .ok (filled (.text "0xabcdabcdabcdabcdabcdabcdabcdabcdabcdabcd")) ∧
      (∃ calldata, encodeArguments [.text "uint256", .text "(address,bool)[]"]
        [.int 7, .list [.list [.text "ABCDABCDABCDABCDABCDABCDABCDABCDABCDABCD", .bool false]]] =
          .ok calldata) ∧
      (∃ a, fromDocument (.text "(address,bool)[]") (.list [.list [.int (16 ^ 39), .bool true]]) =
        .ok (filled (.text a))) ∧
      encodeArguments [.text "uint256", .text "(address,bool)[]"]
        [.int 7, .list [.list [.int (16 ^ 39), .bool false]]] = .error (.abi (.badAddress (.int (16 ^ 39)))) := by
  have htype : typeOf (.text "(address,bool)[]") =
      .ok (.array (.tuple [.basic "address" none, .basic "bool" none]) none) := by rfl
  have htypes : [Value.text "uint256", .text "(address,bool)[]"].mapM typeOf =
      .ok ([.basic "uint" (some (.plain 256))] ++
        [.array (.tuple [.basic "address" none, .basic "bool" none]) none]) := by rfl
  have hplace : ∀ b, AddressPlace (.array (.tuple [.basic "address" none, .basic "bool" none]) none)
      fun v => .list [.list [v, .bool b]] := fun b =>
    .item none [] [] (.component [] [.basic "bool" none] [] [.bool b] rfl .leaf)
  have hread : ∃ v x, fromDocument (.text "(address,bool)[]") (.list [.list [v, .bool true]]) = .ok x :=
    ⟨.text "0x1111111111111111111111111111111111111111", _, rfl⟩
  have hencode : ∃ v calldata, encodeArguments [.text "uint256", .text "(address,bool)[]"]
      ([.int 7] ++ Value.list [.list [v, .bool false]] :: []) = .ok calldata :=
    ⟨.text "0x1111111111111111111111111111111111111111", _, rfl⟩
  obtain ⟨filled, -, hall⟩ := fromDocument_encodeArguments_place htype (hplace true) hread htypes
    (hplace false) rfl hencode
  obtain ⟨-, htext, calldata, hcalldata, -⟩ :=
    (hall (.text "ABCDABCDABCDABCDABCDABCDABCDABCDABCDABCD")).1 _ rfl
  obtain ⟨hrefused, -, hbare⟩ := (hall (.int (16 ^ 39))).2 rfl
  obtain ⟨a, -, ha⟩ := hbare (.number (n := 16 ^ 39) (by decide) (by decide))
  exact ⟨htype, filled, htext, ⟨calldata, hcalldata⟩, ⟨a, ha⟩, hrefused⟩

/-- **The two ways do not accept the same values in the place of an address:** a number with forty digits in
    base sixteen is read, but not encoded. -/
theorem not_acceptsAlike :
    ¬ ∀ (type : Value) (types : List Value) (t : AbiType) (ts us : List AbiType) (before after : List Value)
      (place place' : Value → Value), typeOf type = .ok t → AddressPlace t place →
      (∃ v x, fromDocument type (place v) = .ok x) → types.mapM typeOf = .ok (ts ++ t :: us) →
      AddressPlace t place' → before.length = ts.length →
      (∃ v calldata, encodeArguments types (before ++ place' v :: after) = .ok calldata) →
      ∀ v, (∃ x, fromDocument type (place v) = .ok x) ↔
        ∃ calldata, encodeArguments types (before ++ place' v :: after) = .ok calldata := by
  intro h
  have haccepted : ∃ v x, fromDocument (.text "address") (id v) = .ok x :=
    ⟨.text "0x1111111111111111111111111111111111111111", _, rfl⟩
  have hencoded : ∃ v calldata, encodeArguments [.text "address"] ([] ++ id v :: []) = .ok calldata :=
    ⟨.text "0x1111111111111111111111111111111111111111", _, rfl⟩
  have hbare := h (.text "address") [.text "address"] (.basic "address" none) [] [] [] [] id id rfl .leaf
    haccepted rfl .leaf rfl hencoded (.int 0xaaaaaaaaaaaaaaaaaaaaaaaaaaaaaaaaaaaaaaaa)
  obtain ⟨calldata, hcalldata⟩ := hbare.mp ⟨_, rfl⟩
  cases hcalldata

end Abi

end Proposals
