import Proposals.Proofs.Amount

/-!
# `Proofs.Wire.Lists` — which lists are proposals, and what they say

The lists of a proposal are read place by place. `Wire.Lists` says what transactions they hold, without
reading them: every value is a run of digits with blanks around it (`Value.SpellsAmount`), and all calldata
are pairs of digits behind the mark `0x` (`Value.IsCalldataLine`). Reading succeeds exactly for such lists
and then gives those transactions (`fromWire_eq_ok_iff`).

Two things are not as one would have them. A line break may follow the calldata. And a value in range is not
read if too many zeros stand in front of it (`Value.IsOverlong`). The fault is about unchecked data then, and
says what is malformed in all other cases (`fromWire_cases`): the place of the first fault decides, so only an
overlong value at that place counts (`Wire.MeetsOverlong`).

What transactions are written as is such lists again (`lists_toWire`).
-/

namespace Proposals

open Proposals.Amount Proposals.Number Proposals.Number.Decimal Proposals.Outcome Proposals.Text

/-! ## Values -/

namespace Value

/-- The digits in a value, without the blanks around them. -/
def core (v : Value) : List Char := strip v.display.toList

/-- The value is a run of digits, with blanks around it, that writes the number: a number of 256 bits, in
    no more digits than are read. -/
structure SpellsAmount (v : Value) (n : Nat) : Prop where
  digits : IsDigits v.core
  short : v.core.length ≤ maxDigits
  number : asciiNumber v.core = n
  inRange : n ≤ maxUint256

/-- The value is written in more digits than are read, but not all of them count: the others are zeros in
    front. -/
structure IsOverlong (v : Value) : Prop where
  digits : IsDigits v.core
  long : maxDigits < v.core.length
  counting : (v.core.dropWhile (· == '0')).length ≤ maxValueDigits

/-- Pairs of digits of base sixteen behind the mark `0x`; a line break may follow. -/
def IsCalldataLine (v : Value) : Prop :=
  ∃ c digits, v = .text c ∧
    (c.toList = '0' :: 'x' :: digits ∨ c.toList = '0' :: 'x' :: digits ++ ['\n']) ∧
    digits.all isHexDigit = true ∧ digits.length % 2 = 0

end Value

theorem isDigits_iff {cs : List Char} : isDigits cs = true ↔ IsDigits cs := by
  rw [isDigits, Bool.and_eq_true, Bool.not_eq_true', List.isEmpty_eq_false_iff, List.all_eq_true]
  exact Iff.rfl

/-- Zeros in front do not count. -/
theorem asciiNumber_dropWhile_zero (cs : List Char) :
    asciiNumber (cs.dropWhile (· == '0')) = asciiNumber cs := by
  induction cs with
  | nil => rfl
  | cons c cs ih =>
    by_cases hc : c = '0'
    · subst hc
      have hzero : asciiNumber ('0' :: cs) = tenTo cs.length * 0 + asciiNumber cs :=
        asciiNumber_append ['0'] cs
      rw [List.dropWhile_cons_of_pos (by rfl), ih, hzero, Nat.mul_zero, Nat.zero_add]
    · rw [List.dropWhile_cons_of_neg (by simpa using hc)]

/-- A number in range has no more digits that count than the largest one. -/
theorem length_dropWhile_zero_le {cs : List Char} (hdigits : ∀ c ∈ cs, isAsciiDigit c = true)
    (hrange : asciiNumber cs ≤ maxUint256) :
    (cs.dropWhile (· == '0')).length ≤ maxValueDigits := by
  rw [← asciiNumber_dropWhile_zero] at hrange
  have hhead := List.head?_dropWhile_not (· == '0') cs
  have hcounting : ∀ c ∈ cs.dropWhile (· == '0'), isAsciiDigit c = true := fun c hc =>
    hdigits c ((List.dropWhile_suffix _).subset hc)
  generalize cs.dropWhile (· == '0') = counting at *
  by_cases hnil : counting = []
  · rw [hnil]; exact Nat.zero_le _
  · have hwritten : natText (asciiNumber counting) = counting :=
      natText_asciiNumber hnil hcounting fun hzero => by
        rw [hzero] at hhead
        exact absurd hhead (by decide)
    rw [← hwritten]
    exact (length_natText_le_iff (by decide)).mpr (Nat.lt_of_le_of_lt hrange (by decide))

/-- More digits than are read are no number. -/
theorem readDigits?_eq_none {cs : List Char} (h : ∀ c ∈ cs, isAsciiDigit c = true)
    (hlong : maxDigits < cs.length) : readDigits? cs = none := by
  have hkept : cs.filter (· ≠ '_') = cs := List.filter_eq_self.mpr fun c hc => by
    refine decide_eq_true ?_
    rintro rfl
    exact absurd (h _ hc) (by decide)
  cases cs with
  | nil => exact absurd hlong (Nat.not_lt_zero _)
  | cons c cs =>
    show (if maxDigits < ((c :: cs).filter (· ≠ '_')).length then none else _) = none
    rw [hkept, if_pos hlong]

/-- **How a value is read**: as the number that it spells, or with a fault, which is about unchecked data
    only if the value is overlong. -/
theorem readValue_cases (index : Nat) (v : Value) :
    (∃ n, readValue index v = .ok n ∧ v.SpellsAmount n) ∨
      ((∃ cause, readValue index v = .error (.malformed cause)) ∧
        (∀ n, ¬ v.SpellsAmount n) ∧ ¬ v.IsOverlong) ∨
      (readValue index v = .error (.data .badValue) ∧ (∀ n, ¬ v.SpellsAmount n) ∧ v.IsOverlong) := by
  have hread : readValue index v =
      if (!isDigits v.core) = true then .error (.malformed (.valueNotNumber index))
      else if maxValueDigits < (v.core.dropWhile (· == '0')).length then
        .error (.malformed (.valueTooLarge index))
      else (readDigits? v.core).elim (.error (.data .badValue)) fun n =>
        if maxUint256 < n then .error (.malformed (.valueTooLarge index)) else .ok n := by
    simp only [readValue, Value.core]
    cases readDigits? (strip v.display.toList) <;> rfl
  rw [hread]
  by_cases hdigits : IsDigits v.core
  · rw [isDigits_iff.mpr hdigits, if_neg (by simp)]
    by_cases hcounting : maxValueDigits < (v.core.dropWhile (· == '0')).length
    · rw [if_pos hcounting]
      refine .inr (.inl ⟨⟨_, rfl⟩, fun n hn => ?_, fun hlong => ?_⟩)
      · have := length_dropWhile_zero_le hdigits.2 (hn.number ▸ hn.inRange)
        omega
      · exact absurd hlong.counting (by omega)
    · rw [if_neg hcounting]
      by_cases hlong : maxDigits < v.core.length
      · rw [readDigits?_eq_none hdigits.2 hlong]
        exact .inr (.inr ⟨rfl, fun n hn => absurd hn.short (by omega), hdigits, hlong, by omega⟩)
      · rw [readDigits?_digits hdigits.1 hdigits.2 (by omega)]
        by_cases hrange : maxUint256 < asciiNumber v.core
        · refine .inr (.inl ⟨⟨_, if_pos hrange⟩, fun n hn => ?_, fun hover => hlong hover.long⟩)
          rw [hn.number] at hrange
          exact absurd hn.inRange (by omega)
        · exact .inl ⟨_, if_neg hrange, hdigits, by omega, rfl, by omega⟩
  · have hnot : isDigits v.core = false := by
      rw [← Bool.not_eq_true, isDigits_iff]
      exact hdigits
    rw [hnot]
    exact .inr (.inl ⟨⟨_, rfl⟩, fun n hn => hdigits hn.digits, fun hover => hdigits hover.digits⟩)

theorem readValue_eq_ok_iff {index n : Nat} {v : Value} :
    readValue index v = .ok n ↔ v.SpellsAmount n := by
  rcases readValue_cases index v with ⟨m, hm, hspells⟩ | ⟨⟨cause, hfault⟩, hnot, -⟩ | ⟨hfault, hnot, -⟩
  · rw [hm, Except.ok.injEq]
    exact ⟨fun h => h ▸ hspells, fun h => hspells.number.symm.trans h.number⟩
  · rw [hfault]
    exact ⟨nofun, fun h => absurd h (hnot n)⟩
  · rw [hfault]
    exact ⟨nofun, fun h => absurd h (hnot n)⟩
/-! ## Calldata -/

theorem pairs_iff {cs : List Char} :
    isCalldata.pairs cs = true ↔ ∃ digits, (cs = digits ∨ cs = digits ++ ['\n']) ∧
      digits.all isHexDigit = true ∧ digits.length % 2 = 0 := by
  constructor
  · intro h
    induction cs using isCalldata.pairs.induct with
    | case1 => exact ⟨[], .inl rfl, rfl, rfl⟩
    | case2 c =>
      have hc : c = '\n' := by simpa [isCalldata.pairs] using h
      exact ⟨[], .inr (by rw [hc]; rfl), rfl, rfl⟩
    | case3 a b rest ih =>
      rw [isCalldata.pairs, Bool.and_eq_true, Bool.and_eq_true] at h
      obtain ⟨⟨ha, hb⟩, hrest⟩ := h
      obtain ⟨digits, hsplit, hall, heven⟩ := ih hrest
      refine ⟨a :: b :: digits, ?_, ?_, ?_⟩
      · exact hsplit.imp (congrArg (a :: b :: ·)) (congrArg (a :: b :: ·))
      · rw [List.all_cons, List.all_cons, ha, hb, hall]; rfl
      · rw [List.length_cons, List.length_cons]; omega
  · rintro ⟨digits, hsplit, hall, heven⟩
    induction digits using isCalldata.pairs.induct generalizing cs with
    | case1 => rcases hsplit with rfl | rfl <;> rfl
    | case2 c => exact absurd heven (by simp)
    | case3 a b digits ih =>
      rw [List.all_cons, List.all_cons, Bool.and_eq_true, Bool.and_eq_true] at hall
      rw [List.length_cons, List.length_cons] at heven
      obtain ⟨rest, rfl, hrest⟩ : ∃ rest, cs = a :: b :: rest ∧
          (rest = digits ∨ rest = digits ++ ['\n']) := by
        rcases hsplit with rfl | rfl
        · exact ⟨_, rfl, .inl rfl⟩
        · exact ⟨_, rfl, .inr rfl⟩
      rw [isCalldata.pairs, hall.1, hall.2.1, ih hrest hall.2.2 (by omega)]
      rfl

/-- Behind the mark are the pairs. -/
theorem isCalldata_iff {cs : List Char} :
    isCalldata cs = true ↔ ∃ digits, cs = '0' :: 'x' :: digits ∧ isCalldata.pairs digits = true := by
  unfold isCalldata
  split
  · next digits =>
    constructor
    · exact fun h => ⟨digits, rfl, h⟩
    · rintro ⟨_, heq, h⟩
      cases heq
      exact h
  · next hnot =>
    constructor
    · exact fun h => absurd h Bool.false_ne_true
    · rintro ⟨digits, heq, -⟩
      exact absurd heq (hnot digits)

/-- Of a text that is no calldata, that is said. -/
theorem checkCalldata_text_cases (index : Nat) (s : String) :
    checkCalldata index (.text s) = .ok () ∧ isCalldata s.toList = true ∨
      checkCalldata index (.text s) = .error (.malformed (.calldataNotHex index)) ∧
        ¬ isCalldata s.toList = true := by
  by_cases h : isCalldata s.toList = true
  · exact .inl ⟨if_pos h, h⟩
  · exact .inr ⟨if_neg h, h⟩

theorem checkCalldata_text_eq_ok_iff {index : Nat} {s : String} :
    checkCalldata index (.text s) = .ok () ↔ isCalldata s.toList = true := by
  rcases checkCalldata_text_cases index s with ⟨hcheck, h⟩ | ⟨hcheck, hnot⟩
  · exact iff_of_true hcheck h
  · exact iff_of_false (fun hok => absurd (hcheck.symm.trans hok) nofun) hnot

theorem checkCalldata_eq_ok_iff {index : Nat} {v : Value} :
    checkCalldata index v = .ok () ↔ v.IsCalldataLine := by
  cases v with
  | text c =>
    rw [checkCalldata_text_eq_ok_iff, isCalldata_iff]
    constructor
    · rintro ⟨body, hc, hpairs⟩
      obtain ⟨digits, hsplit, hdigits⟩ := pairs_iff.mp hpairs
      refine ⟨c, digits, rfl, hsplit.imp (fun h => ?_) (fun h => ?_), hdigits⟩
      · rw [hc, h]
      · rw [hc, h]; rfl
    · rintro ⟨_, digits, heq, hsplit, hdigits⟩
      cases heq
      rcases hsplit with hc | hc
      · exact ⟨digits, hc, pairs_iff.mpr ⟨digits, .inl rfl, hdigits⟩⟩
      · exact ⟨digits ++ ['\n'], hc, pairs_iff.mpr ⟨digits, .inr rfl, hdigits⟩⟩
  | _ =>
    constructor
    · intro h
      cases h
    · rintro ⟨_, _, heq, -⟩
      cases heq

/-! ## Places -/

namespace Wire

/-- The lists hold the transactions, each at its place. -/
structure Lists (w : Wire) (raws : List RawTransaction) : Prop where
  targets : w.targets = raws.map (·.target)
  values : List.Forall₂ (fun v raw => ∃ n : Nat, v.SpellsAmount n ∧ raw.value = .int n) w.values raws
  signatures : w.signatures = raws.map (·.signature)
  calldatas : w.calldatas = raws.map (·.calldata)
  lines : ∀ raw ∈ raws, raw.calldata.IsCalldataLine

/-- The lists are as long as each other, the values are amounts, and the calldata are calldata. -/
structure IsWellFormed (w : Wire) : Prop where
  values_length : w.values.length = w.targets.length
  signatures_length : w.signatures.length = w.targets.length
  calldatas_length : w.calldatas.length = w.targets.length
  values : ∀ v ∈ w.values, ∃ n, v.SpellsAmount n
  calldatas : ∀ v ∈ w.calldatas, v.IsCalldataLine

/-- The lists are as long as each other, and the first place that is not in order has an overlong value. -/
structure MeetsOverlong (w : Wire) : Prop where
  values_length : w.values.length = w.targets.length
  signatures_length : w.signatures.length = w.targets.length
  calldatas_length : w.calldatas.length = w.targets.length
  meets : ∃ front v back, w.values = front ++ v :: back ∧ v.IsOverlong ∧
    (∀ u ∈ front, ∃ n, u.SpellsAmount n) ∧ ∀ c ∈ w.calldatas.take front.length, c.IsCalldataLine

end Wire

section

variable {target v signature calldata : Value} {targets values signatures calldatas : List Value}

/-- Lists that hold transactions hold the first one in the first place, and the others behind it. -/
theorem Wire.lists_cons_iff {raws : List RawTransaction} :
    Wire.Lists ⟨target :: targets, v :: values, signature :: signatures, calldata :: calldatas⟩ raws ↔
      ∃ n rest, raws = ⟨target, signature, calldata, .int (n : Nat)⟩ :: rest ∧ v.SpellsAmount n ∧
        calldata.IsCalldataLine ∧ Wire.Lists ⟨targets, values, signatures, calldatas⟩ rest := by
  constructor
  · rintro ⟨htargets, hspelled, hsigned, hcalled, hlines⟩
    cases hspelled with
    | @cons _ raw _ rest hfirst hrest =>
      obtain ⟨n, hn, hvalue⟩ := hfirst
      obtain ⟨rfl, hrestTargets⟩ := List.cons.inj htargets
      obtain ⟨rfl, hrestSigned⟩ := List.cons.inj hsigned
      obtain ⟨rfl, hrestCalled⟩ := List.cons.inj hcalled
      obtain ⟨hline, hrestLines⟩ := List.forall_mem_cons.mp hlines
      exact ⟨n, rest, by rw [← hvalue], hn, hline, hrestTargets, hrest, hrestSigned, hrestCalled, hrestLines⟩
  · rintro ⟨n, rest, rfl, hn, hline, hlists⟩
    exact ⟨congrArg (target :: ·) hlists.targets, .cons ⟨n, hn, rfl⟩ hlists.values,
      congrArg (signature :: ·) hlists.signatures, congrArg (calldata :: ·) hlists.calldatas,
      List.forall_mem_cons.mpr ⟨hline, hlists.lines⟩⟩

end

/-- The transactions of lists are those that stand in them. -/
theorem fromLists_eq_ok_iff {index : Nat} {targets values signatures calldatas : List Value}
    (hvalues : values.length = targets.length) (hsignatures : signatures.length = targets.length)
    (hcalldatas : calldatas.length = targets.length) {raws : List RawTransaction} :
    fromLists index targets values signatures calldatas = .ok raws ↔
      Wire.Lists ⟨targets, values, signatures, calldatas⟩ raws := by
  induction targets generalizing index values signatures calldatas raws with
  | nil =>
    obtain rfl := List.length_eq_zero_iff.mp hvalues
    obtain rfl := List.length_eq_zero_iff.mp hsignatures
    obtain rfl := List.length_eq_zero_iff.mp hcalldatas
    constructor
    · intro h
      cases h
      exact ⟨rfl, .nil, rfl, rfl, List.forall_mem_nil _⟩
    · intro h
      cases h.values
      rfl
  | cons target targets ih =>
    obtain ⟨v, values, rfl⟩ := List.exists_cons_of_length_eq_add_one hvalues
    obtain ⟨signature, signatures, rfl⟩ := List.exists_cons_of_length_eq_add_one hsignatures
    obtain ⟨calldata, calldatas, rfl⟩ := List.exists_cons_of_length_eq_add_one hcalldatas
    have hrest : ∀ {raws}, fromLists (index + 1) targets values signatures calldatas = .ok raws ↔
        Wire.Lists ⟨targets, values, signatures, calldatas⟩ raws :=
      ih (Nat.succ.inj hvalues) (Nat.succ.inj hsignatures) (Nat.succ.inj hcalldatas)
    rw [Wire.lists_cons_iff]
    unfold fromLists
    constructor
    · intro h
      obtain ⟨n, hn, h⟩ := bind_eq_ok.mp h
      obtain ⟨⟨⟩, hcalldata, h⟩ := bind_eq_ok.mp h
      obtain ⟨others, hothers, h⟩ := bind_eq_ok.mp h
      cases h
      exact ⟨n, others, rfl, readValue_eq_ok_iff.mp hn, checkCalldata_eq_ok_iff.mp hcalldata,
        hrest.mp hothers⟩
    · rintro ⟨n, others, rfl, hn, hline, hothers⟩
      rw [readValue_eq_ok_iff.mpr hn, ok_bind, checkCalldata_eq_ok_iff.mpr hline, ok_bind,
        hrest.mpr hothers, ok_bind]
      rfl

theorem Wire.Lists.lengths {w : Wire} {raws : List RawTransaction} (h : w.Lists raws) :
    w.values.length = w.targets.length ∧ w.signatures.length = w.targets.length ∧
      w.calldatas.length = w.targets.length := by
  rw [h.values.length_eq, h.targets, h.signatures, h.calldatas]
  simp only [List.length_map, and_self]

/-- **The transactions of a proposal are those that its lists hold.** -/
theorem fromWire_eq_ok_iff {w : Wire} {raws : List RawTransaction} :
    fromWire w = .ok raws ↔ w.Lists raws := by
  unfold fromWire
  by_cases hlengths : w.values.length = w.targets.length ∧ w.signatures.length = w.targets.length ∧
      w.calldatas.length = w.targets.length
  · rw [if_pos hlengths]
    exact fromLists_eq_ok_iff hlengths.1 hlengths.2.1 hlengths.2.2
  · rw [if_neg hlengths]
    exact ⟨nofun, fun h => absurd h.lengths hlengths⟩

/-- Lists in order hold transactions. -/
theorem Wire.IsWellFormed.exists_lists {w : Wire} (h : w.IsWellFormed) : ∃ raws, w.Lists raws := by
  obtain ⟨targets, values, signatures, calldatas⟩ := w
  obtain ⟨hvalues, hsignatures, hcalldatas, hspelled, hlines⟩ := h
  dsimp only at *
  induction targets generalizing values signatures calldatas with
  | nil =>
    obtain rfl := List.length_eq_zero_iff.mp hvalues
    obtain rfl := List.length_eq_zero_iff.mp hsignatures
    obtain rfl := List.length_eq_zero_iff.mp hcalldatas
    exact ⟨[], rfl, .nil, rfl, rfl, List.forall_mem_nil _⟩
  | cons target targets ih =>
    obtain ⟨v, values, rfl⟩ := List.exists_cons_of_length_eq_add_one hvalues
    obtain ⟨signature, signatures, rfl⟩ := List.exists_cons_of_length_eq_add_one hsignatures
    obtain ⟨calldata, calldatas, rfl⟩ := List.exists_cons_of_length_eq_add_one hcalldatas
    obtain ⟨⟨n, hn⟩, hspelled⟩ := List.forall_mem_cons.mp hspelled
    obtain ⟨hline, hlines⟩ := List.forall_mem_cons.mp hlines
    obtain ⟨raws, hraws⟩ := ih values signatures calldatas (Nat.succ.inj hvalues)
      (Nat.succ.inj hsignatures) (Nat.succ.inj hcalldatas) hspelled hlines
    exact ⟨_, Wire.lists_cons_iff.mpr ⟨n, raws, rfl, hn, hline, hraws⟩⟩

theorem Wire.Lists.isWellFormed {w : Wire} {raws : List RawTransaction} (h : w.Lists raws) :
    w.IsWellFormed := by
  obtain ⟨hvalues, hsignatures, hcalldatas⟩ := h.lengths
  refine ⟨hvalues, hsignatures, hcalldatas, fun v hv => ?_, fun c hc => ?_⟩
  · obtain ⟨raw, -, n, hn, -⟩ := exists_of_mem_forall₂ h.values.flip hv
    exact ⟨n, hn⟩
  · rw [h.calldatas] at hc
    obtain ⟨raw, hraw, rfl⟩ := List.mem_map.mp hc
    exact h.lines raw hraw

/-- **A proposal is read if and only if it is well formed.** -/
theorem exists_fromWire_iff {w : Wire} : (∃ raws, fromWire w = .ok raws) ↔ w.IsWellFormed :=
  ⟨fun ⟨_, h⟩ => (fromWire_eq_ok_iff.mp h).isWellFormed, fun h =>
    h.exists_lists.imp fun _ => fromWire_eq_ok_iff.mpr⟩

/-! ## Faults -/

/-- The first place that is not in order has an overlong value: it is the first one, or one behind it. -/
theorem meets_cons_iff {v calldata : Value} {values calldatas : List Value} :
    (∃ front u back, v :: values = front ++ u :: back ∧ u.IsOverlong ∧
        (∀ w ∈ front, ∃ n, w.SpellsAmount n) ∧
        ∀ c ∈ (calldata :: calldatas).take front.length, c.IsCalldataLine) ↔
      v.IsOverlong ∨ (∃ n, v.SpellsAmount n) ∧ calldata.IsCalldataLine ∧
        ∃ front u back, values = front ++ u :: back ∧ u.IsOverlong ∧
          (∀ w ∈ front, ∃ n, w.SpellsAmount n) ∧
          ∀ c ∈ calldatas.take front.length, c.IsCalldataLine := by
  constructor
  · rintro ⟨front, u, back, hsplit, hover, hfront, hlines⟩
    cases front with
    | nil =>
      cases hsplit
      exact .inl hover
    | cons w front =>
      cases hsplit
      obtain ⟨hv, hfront⟩ := List.forall_mem_cons.mp hfront
      rw [List.length_cons, List.take_succ_cons] at hlines
      obtain ⟨hline, hlines⟩ := List.forall_mem_cons.mp hlines
      exact .inr ⟨hv, hline, front, u, back, rfl, hover, hfront, hlines⟩
  · rintro (hover | ⟨hv, hline, front, u, back, rfl, hover, hfront, hlines⟩)
    · exact ⟨[], v, values, rfl, hover, List.forall_mem_nil _, List.forall_mem_nil _⟩
    · refine ⟨v :: front, u, back, rfl, hover, List.forall_mem_cons.mpr ⟨hv, hfront⟩, ?_⟩
      rw [List.length_cons, List.take_succ_cons]
      exact List.forall_mem_cons.mpr ⟨hline, hlines⟩

/-- An overlong value is met in the first place, or behind a first place in order. -/
theorem Wire.meetsOverlong_cons_iff {target v signature calldata : Value}
    {targets values signatures calldatas : List Value} (hvalues : values.length = targets.length)
    (hsignatures : signatures.length = targets.length) (hcalldatas : calldatas.length = targets.length) :
    Wire.MeetsOverlong ⟨target :: targets, v :: values, signature :: signatures, calldata :: calldatas⟩ ↔
      v.IsOverlong ∨ (∃ n, v.SpellsAmount n) ∧ calldata.IsCalldataLine ∧
        Wire.MeetsOverlong ⟨targets, values, signatures, calldatas⟩ := by
  constructor
  · intro h
    rcases meets_cons_iff.mp h.meets with hover | ⟨hv, hline, h⟩
    · exact .inl hover
    · exact .inr ⟨hv, hline, hvalues, hsignatures, hcalldatas, h⟩
  · intro h
    refine ⟨congrArg (· + 1) hvalues, congrArg (· + 1) hsignatures, congrArg (· + 1) hcalldatas,
      meets_cons_iff.mpr ?_⟩
    exact h.imp_right fun ⟨hv, hline, h⟩ => ⟨hv, hline, h.meets⟩

/-- **The first place that is not in order decides about the fault.** -/
theorem fromLists_cases (index : Nat) {targets values signatures calldatas : List Value}
    (hvalues : values.length = targets.length) (hsignatures : signatures.length = targets.length)
    (hlength : calldatas.length = targets.length) (hcalldatas : ∀ v ∈ calldatas, ∃ s, v = .text s) :
    (∃ raws, fromLists index targets values signatures calldatas = .ok raws) ∨
      (∃ cause, fromLists index targets values signatures calldatas = .error (.malformed cause)) ∧
          ¬ Wire.MeetsOverlong ⟨targets, values, signatures, calldatas⟩ ∨
        fromLists index targets values signatures calldatas = .error (.data .badValue) ∧
          Wire.MeetsOverlong ⟨targets, values, signatures, calldatas⟩ := by
  induction targets generalizing index values signatures calldatas with
  | nil => exact .inl ⟨[], rfl⟩
  | cons target targets ih =>
    obtain ⟨v, values, rfl⟩ := List.exists_cons_of_length_eq_add_one hvalues
    obtain ⟨signature, signatures, rfl⟩ := List.exists_cons_of_length_eq_add_one hsignatures
    obtain ⟨calldata, calldatas, rfl⟩ := List.exists_cons_of_length_eq_add_one hlength
    obtain ⟨⟨s, rfl⟩, htexts⟩ := List.forall_mem_cons.mp hcalldatas
    have hrest := ih (index + 1) (Nat.succ.inj hvalues) (Nat.succ.inj hsignatures)
      (Nat.succ.inj hlength) htexts
    rw [Wire.meetsOverlong_cons_iff (Nat.succ.inj hvalues) (Nat.succ.inj hsignatures) (Nat.succ.inj hlength)]
    unfold fromLists
    rcases readValue_cases index v with ⟨n, hn, hspells⟩ | ⟨⟨cause, hfault⟩, hnot, hover⟩ |
      ⟨hfault, -, hover⟩
    · have hshort : ¬ v.IsOverlong := fun hover => absurd hspells.short (Nat.not_le.mpr hover.long)
      rw [hn, ok_bind]
      rcases checkCalldata_text_cases index s with ⟨hcheck, -⟩ | ⟨hcheck, -⟩
      · have hline := checkCalldata_eq_ok_iff.mp hcheck
        rw [hcheck, ok_bind]
        rcases hrest with ⟨raws, hraws⟩ | ⟨⟨cause, hfault⟩, hnot⟩ | ⟨hfault, hmeets⟩
        · rw [hraws]
          exact .inl ⟨_, rfl⟩
        · rw [hfault]
          exact .inr (.inl ⟨⟨cause, rfl⟩, fun h => h.elim hshort (hnot ·.2.2)⟩)
        · rw [hfault]
          exact .inr (.inr ⟨rfl, .inr ⟨⟨n, hspells⟩, hline, hmeets⟩⟩)
      · rw [hcheck]
        refine .inr (.inl ⟨⟨_, rfl⟩, fun h => h.elim hshort fun h => ?_⟩)
        cases hcheck.symm.trans (checkCalldata_eq_ok_iff.mpr h.2.1)
    · rw [hfault]
      exact .inr (.inl ⟨⟨cause, rfl⟩, fun h => h.elim hover fun h => h.1.elim hnot⟩)
    · rw [hfault]
      exact .inr (.inr ⟨rfl, .inl hover⟩)

theorem Wire.MeetsOverlong.exists_isOverlong {w : Wire} (h : w.MeetsOverlong) :
    ∃ v ∈ w.values, v.IsOverlong := by
  obtain ⟨front, v, back, hvalues, hover, -⟩ := h.meets
  exact ⟨v, hvalues ▸ List.mem_append_right front List.mem_cons_self, hover⟩

/-- What is in order holds no overlong value. -/
theorem Wire.IsWellFormed.not_meetsOverlong {w : Wire} (h : w.IsWellFormed) : ¬ w.MeetsOverlong := by
  intro hmeets
  obtain ⟨v, hv, hover⟩ := hmeets.exists_isOverlong
  obtain ⟨n, hn⟩ := h.values v hv
  exact absurd hn.short (Nat.not_le.mpr hover.long)

/-- **How a proposal is read**: as transactions, or with a fault, which is about unchecked data exactly if the
    first place that is not in order has an overlong value. -/
theorem fromWire_cases {w : Wire} (hcalldatas : ∀ v ∈ w.calldatas, ∃ s, v = .text s) :
    ((∃ raws, fromWire w = .ok raws) ∨ ∃ cause, fromWire w = .error (.malformed cause)) ∧
        ¬ w.MeetsOverlong ∨
      fromWire w = .error (.data .badValue) ∧ w.MeetsOverlong := by
  by_cases hlengths : w.values.length = w.targets.length ∧ w.signatures.length = w.targets.length ∧
      w.calldatas.length = w.targets.length
  · have hread : fromWire w = fromLists 0 w.targets w.values w.signatures w.calldatas :=
      if_pos hlengths
    rcases fromLists_cases 0 hlengths.1 hlengths.2.1 hlengths.2.2 hcalldatas with ⟨raws, hraws⟩ |
      ⟨hmalformed, hnot⟩ | hfault
    · have hraws : fromWire w = .ok raws := hread.trans hraws
      exact .inl ⟨.inl ⟨raws, hraws⟩, (fromWire_eq_ok_iff.mp hraws).isWellFormed.not_meetsOverlong⟩
    · exact .inl ⟨.inr (hread ▸ hmalformed), hnot⟩
    · exact .inr (hread ▸ hfault)
  · refine .inl ⟨.inr ⟨_, if_neg hlengths⟩, fun h => hlengths ?_⟩
    exact ⟨h.values_length, h.signatures_length, h.calldatas_length⟩

/-- Thousands of zeros are an overlong value. -/
theorem Value.isOverlong_zeros {n : Nat} (h : maxDigits < n) :
    (Value.text (String.ofList (List.replicate n '0'))).IsOverlong := by
  have hzero : ∀ c ∈ List.replicate n '0', c = '0' := fun c => List.eq_of_mem_replicate
  have hsolid : IsSolid (List.replicate n '0') := fun c hc => by rw [hzero c hc]; rfl
  have hcore : (Value.text (String.ofList (List.replicate n '0'))).core = List.replicate n '0' := by
    show strip (String.ofList (List.replicate n '0')).toList = _
    rw [String.toList_ofList, hsolid.strip_eq_self]
  refine ⟨?_, ?_, ?_⟩ <;> rw [hcore]
  · refine ⟨fun hnil => ?_, fun c hc => by rw [hzero c hc]; rfl⟩
    have hlength := congrArg List.length hnil
    rw [List.length_replicate, List.length_nil] at hlength
    omega
  · rw [List.length_replicate]
    exact h
  · have hdrop : (List.replicate n '0').dropWhile (· == '0') = [] :=
      List.dropWhile_eq_nil_iff.mpr fun c hc => by rw [hzero c hc]; rfl
    rw [hdrop]
    exact Nat.zero_le _

/-! ## Writing -/

/-- A number in range is spelled by its written form. -/
theorem Value.spellsAmount_display {n : Nat} (hn : n ≤ maxUint256) :
    (Value.text (Value.int n).display).SpellsAmount n := by
  have hdigits : ∀ c ∈ natText n, isAsciiDigit c = true := fun c => isAsciiDigit_of_mem_natText
  have hsolid : IsSolid (natText n) := fun c hc => (isPlain_facts (.inl (hdigits c hc))).1
  have hcore : (Value.text (Value.int n).display).core = natText n := by
    show strip (String.ofList (natText n)).toList = _
    rw [String.toList_ofList, hsolid.strip_eq_self]
  have hlength : (natText n).length ≤ maxDigits :=
    (length_natText_le_iff (by decide)).mpr (Nat.lt_of_le_of_lt hn (by decide +kernel))
  refine ⟨?_, ?_, ?_, hn⟩ <;> rw [hcore]
  · exact ⟨natText_ne_nil n, hdigits⟩
  · exact hlength
  · exact asciiNumber_natText n

/-- **The lists that transactions are written to hold them.** -/
theorem lists_toWire {raws : List RawTransaction}
    (h : ∀ raw ∈ raws, raw.value.IsAmount ∧ raw.calldata.IsCalldataLine) : (toWire raws).Lists raws where
  targets := rfl
  values := by
    show List.Forall₂ _ (raws.map _) raws
    rw [List.forall₂_map_left_iff]
    refine List.forall₂_same.mpr fun raw hraw => ?_
    obtain ⟨n, hvalue, hn⟩ := (h raw hraw).1
    rw [hvalue]
    exact ⟨n, Value.spellsAmount_display hn, rfl⟩
  signatures := rfl
  calldatas := rfl
  lines := fun raw hraw => (h raw hraw).2

end Proposals
