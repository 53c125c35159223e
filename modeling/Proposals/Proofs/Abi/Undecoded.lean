import Proposals.Proofs.Abi.Parentheses
import Proposals.Proofs.Abi.Strict

/-!
# `Proofs.Abi.Undecoded` — what can be wrong with a call

A call that cannot be decoded has a fault of signatures, types and calldata, with three exceptions: a
hollow pair among the parameters, a type without a layout, and the length of a byte string past all bounds
(`IsUnforeseen`). Nothing else escapes (`within_decodeCall`): canonical types are types, and what decoding
gives is canonical, so the encoding that strict decoding compares with is always there.
-/

namespace Proposals.Abi

open Proposals.Text Proposals.Number Proposals.Outcome AbiType

/-! ## Lengths past all bounds -/

/-- Some word of the data is no length of a byte string that could be asked for. -/
def HasEndlessLength (data : List UInt8) : Prop :=
  ∃ place n, wordAt? data place = some n ∧ maxLength ≤ wordCeil n

/-- The data are too long only under a condition; they may always break the layout. -/
abbrev IsTooLongIf (p : Prop) : DecodeFault → Prop := fun f => f = .tooLong → p

theorem within_layout {α : Type} (p : Prop) : Within (IsTooLongIf p) (.error .layout : Decoded α) :=
  within_error.mpr fun h => absurd h (by simp)

theorem within_required {α : Type} (p : Prop) (x : Option α) :
    Within (IsTooLongIf p) (required x) := by
  cases x with
  | none => exact within_layout p
  | some a => exact within_ok _ a

theorem within_readBytes (data : List UInt8) (place : Nat) :
    Within (IsTooLongIf (HasEndlessLength data)) (readBytes data place) := by
  simp only [readBytes, throw_eq_error, error_bind]
  refine Within.bind (within_required _ _) fun size hsize => within_ite (fun hlong => ?_) fun _ => ?_
  · exact within_error.mpr fun _ => ⟨place, size, required_eq_ok.mp hsize, hlong⟩
  · exact Within.bind (within_required _ _) fun bs _ => within_required _ _

namespace Coder

mutual
/-- A byte string or a text is among the parts of the type. -/
def HoldsBytes : Coder → Prop
  | .bytes => True
  | .string => True
  | .array item _ => HoldsBytes item
  | .tuple components => AnyHoldsBytes components
  | _ => False

/-- The same for one of several types. -/
def AnyHoldsBytes : List Coder → Prop
  | [] => False
  | c :: cs => HoldsBytes c ∨ AnyHoldsBytes cs
end

theorem anyHoldsBytes_iff {cs : List Coder} : AnyHoldsBytes cs ↔ ∃ c ∈ cs, c.HoldsBytes := by
  induction cs with
  | nil => simp [AnyHoldsBytes]
  | cons c cs ih => rw [AnyHoldsBytes, ih, List.exists_mem_cons_iff]

section Reading

variable {data : List UInt8} {p : Prop}

theorem within_readDistance (start count place : Nat) :
    Within (IsTooLongIf p) (readDistance data start count place) :=
  Within.bind (within_required p _) fun _ _ =>
    within_ite (fun _ => within_ok _ _) fun _ => within_layout p

theorem within_checkDistances (start count left place : Nat) :
    Within (IsTooLongIf p) (checkDistances data start count left place) := by
  induction left generalizing place with
  | zero => exact within_ok _ ()
  | succ left ih => exact Within.bind (within_readDistance start count place) fun _ _ => ih _

theorem within_follow {read : Nat → Decoded (Value × Nat)}
    (hread : ∀ place, Within (IsTooLongIf p) (read place)) (start place : Nat) :
    Within (IsTooLongIf p) (follow data start read place) :=
  Within.bind (within_required p _) fun _ _ =>
    Within.bind (hread _) fun _ _ => within_ok _ _

theorem within_readMany {read : Nat → Decoded (Value × Nat)}
    (hread : ∀ place, Within (IsTooLongIf p) (read place)) (count place : Nat) :
    Within (IsTooLongIf p) (readMany read count place) := by
  induction count generalizing place with
  | zero => exact within_ok _ _
  | succ count ih =>
    exact Within.bind (hread place) fun _ _ => Within.bind (ih _) fun _ _ => within_ok _ _

theorem within_readItems {dynamic : Bool} {read : Nat → Decoded (Value × Nat)}
    (hread : ∀ place, Within (IsTooLongIf p) (read place)) (start count : Nat) :
    Within (IsTooLongIf p) (readItems data dynamic read start count) := by
  simp only [readItems, throw_eq_error, error_bind]
  refine within_ite (fun _ => within_layout p) fun _ => ?_
  refine within_ite (fun _ => ?_) fun _ => within_readMany hread count start
  exact Within.bind (within_checkDistances start count count start) fun _ _ =>
    within_readMany (within_follow hread start) count start

theorem within_readParts {cs : List Coder}
    (hcs : ∀ c ∈ cs, ∀ place, Within (IsTooLongIf p) (decode data c place)) (start place : Nat) :
    Within (IsTooLongIf p) (readParts data start cs place) := by
  induction cs generalizing place with
  | nil => exact within_ok _ _
  | cons c cs ih =>
    obtain ⟨hc, hcs⟩ := List.forall_mem_cons.mp hcs
    rw [readParts_cons]
    refine Within.bind (within_ite (fun _ => within_follow hc start place) fun _ => hc place)
      fun _ _ => ?_
    exact Within.bind (ih hcs _) fun _ _ => within_ok _ _

theorem within_checkParts {cs : List Coder}
    (hcs : ∀ c ∈ cs, ∀ place, Within (IsTooLongIf p) (decode data c place))
    (start count place : Nat) : Within (IsTooLongIf p) (checkParts data start count cs place) := by
  induction cs generalizing place with
  | nil => exact within_ok _ ()
  | cons c cs ih =>
    obtain ⟨hc, hcs⟩ := List.forall_mem_cons.mp hcs
    rw [checkParts]
    refine within_ite (fun _ => ?_) fun _ => ?_
    · exact Within.bind (within_readDistance start count place) fun _ _ => ih hcs _
    · exact Within.bind (hc place) fun _ _ => ih hcs _

end Reading

/-- **Only a byte string can be too long.** -/
theorem within_decode (data : List UInt8) (c : Coder) (place : Nat) :
    Within (IsTooLongIf (c.HoldsBytes ∧ HasEndlessLength data)) (decode data c place) := by
  induction c using componentInduction generalizing place with
  | single c hc =>
    rw [decode_of_isSingle hc]
    exact Within.bind (within_required _ _) fun _ _ =>
      Within.bind (within_required _ _) fun _ _ => within_ok _ _
  | bytes =>
    rw [decode]
    exact Within.bind ((within_readBytes data place).mono fun f h hf => ⟨trivial, h hf⟩)
      fun _ _ => within_ok _ _
  | string =>
    rw [decode]
    exact Within.bind ((within_readBytes data place).mono fun f h hf => ⟨trivial, h hf⟩)
      fun _ _ => Within.bind (within_required _ _) fun _ _ => within_ok _ _
  | array item length ih =>
    rw [HoldsBytes]
    cases length with
    | none =>
      rw [decode]
      exact Within.bind (within_required _ _) fun count _ =>
        Within.bind (within_readItems ih _ _) fun _ _ => within_ok _ _
    | some count =>
      rw [decode]
      exact Within.bind (within_readItems ih _ _) fun _ _ => within_ok _ _
  | tuple components ih =>
    rw [HoldsBytes, decode]
    have hparts : ∀ c ∈ components, ∀ place, Within
        (IsTooLongIf (AnyHoldsBytes components ∧ HasEndlessLength data)) (decode data c place) :=
      fun c hc place => (ih c hc place).mono fun f h hf =>
        (h hf).imp_left fun hbytes => anyHoldsBytes_iff.mpr ⟨c, hc, hbytes⟩
    exact Within.bind (within_checkParts hparts place _ place) fun _ _ =>
      Within.bind (within_readParts hparts place place) fun _ _ => within_ok _ _

theorem within_decodeAll (data : List UInt8) (cs : List Coder) :
    Within (IsTooLongIf (AnyHoldsBytes cs ∧ HasEndlessLength data)) (decodeAll cs data) := by
  have hparts : ∀ c ∈ cs, ∀ place, Within
      (IsTooLongIf (AnyHoldsBytes cs ∧ HasEndlessLength data)) (decode data c place) :=
    fun c hc place => (within_decode data c place).mono fun f h hf =>
      (h hf).imp_left fun hbytes => anyHoldsBytes_iff.mpr ⟨c, hc, hbytes⟩
  exact Within.bind (within_checkParts hparts 0 _ 0) fun _ _ =>
    Within.bind (within_readParts hparts 0 0) fun _ _ => within_ok _ _

end Coder

/-! ## Types without a layout -/

mutual
/-- A type without a layout holds a base name without one, or a function value with a size. -/
theorem cause_of_decodingFault? : (t : AbiType) → {cause : DataFault} →
    Coder.decodingFault? t = some cause → cause = .badValue ∨ cause = .noCoder
  | .basic base size, cause, h => by
    rw [Coder.decodingFault?] at h
    split at h
    · exact absurd h (by simp)
    · split at h
      · exact .inl (Option.some.inj h).symm
      · exact .inr (Option.some.inj h).symm
  | .tuple components, cause, h => cause_of_decodingFaults? components h
  | .array item _, cause, h => cause_of_decodingFault? item h

theorem cause_of_decodingFaults? : (ts : List AbiType) → {cause : DataFault} →
    Coder.decodingFaults? ts = some cause → cause = .badValue ∨ cause = .noCoder
  | [], cause, h => absurd h (by simp [Coder.decodingFaults?])
  | t :: ts, cause, h => by
    rw [Coder.decodingFaults?] at h
    split at h
    · next hfault =>
      cases h
      exact cause_of_decodingFault? t hfault
    · exact cause_of_decodingFaults? ts h
end

theorem exists_ofTypes? {ts : List AbiType} (h : ∀ t ∈ ts, HasCoder t) :
    ∃ cs, Coder.ofTypes? ts = some cs := by
  induction ts with
  | nil => exact ⟨[], rfl⟩
  | cons t ts ih =>
    obtain ⟨⟨c, hc⟩, hts⟩ := List.forall_mem_cons.mp h
    obtain ⟨cs, hcs⟩ := ih hts
    exact ⟨c :: cs, by rw [Coder.ofTypes?, hc, hcs]; rfl⟩

/-- The types of a signature that is read are types. -/
theorem exists_abiTypes {signature : String} {s : Signature} (hs : parseSignature signature = .ok s) :
    ∃ abiTypes, (s.types.map Value.text).mapM typeOf = .ok abiTypes :=
  exists_mapM_of_forall fun v hv => by
    obtain ⟨type, htype, rfl⟩ := List.mem_map.mp hv
    obtain ⟨⟨t, ht⟩, -⟩ := (parseSignature_sound hs).2 type htype
    exact ⟨t, typeOf_text_eq_ok.mpr ht⟩

/-- They have coders if they have layouts. -/
theorem exists_coders {s : Signature} (hcoded : s.IsCoded) {abiTypes : List AbiType}
    (htypes : (s.types.map Value.text).mapM typeOf = .ok abiTypes) :
    ∃ coders, Coder.ofTypes? abiTypes = some coders :=
  exists_ofTypes? fun t ht => by
    obtain ⟨v, hv, hread⟩ := exists_of_mem_mapM htypes ht
    obtain ⟨type, htype, rfl⟩ := List.mem_map.mp hv
    obtain ⟨u, hu, hcoder⟩ := hcoded type htype
    obtain rfl := Except.ok.inj ((typeOf_text_eq_ok.mp hread).symm.trans hu)
    exact hcoder

/-! ## Calls -/

/-- What signature and calldata may have that no check foresees: a hollow pair of parentheses among the
    parameters, a type without a layout, or a byte string with a length past all bounds. -/
inductive IsUnforeseen (signature calldata : Value) : DataFault → Prop
  | hollow {s : String} (text : signature = .text s) (pair : HasHollowParameter s.toList) :
    IsUnforeseen signature calldata .badValue
  | uncoded {s : Signature} {cause : DataFault} (read : signatureOf signature = .ok s)
    (uncoded : ¬ s.IsCoded) (kind : cause = .badValue ∨ cause = .noCoder) :
    IsUnforeseen signature calldata cause
  | endless {s : Signature} {coders : List Coder} {data : List UInt8}
    (read : signatureOf signature = .ok s) (coded : HasCoders s.types coders)
    (bytes : Coder.AnyHoldsBytes coders) (hex : calldataBytes calldata = .ok data)
    (length : HasEndlessLength data) : IsUnforeseen signature calldata .overflow

/-- The faults that a call with such a signature and such calldata may end with. -/
def IsCallFault (signature calldata : Value) (f : Fault) : Prop :=
  (∃ cause, f = .abi cause) ∨ ∃ cause, f = .data cause ∧ IsUnforeseen signature calldata cause

theorem within_calldataBytes {P : Fault → Prop} (habi : ∀ cause, P (.abi cause)) (v : Value) :
    Within P (calldataBytes v) := by
  unfold calldataBytes
  split
  · refine within_ite (fun _ => ?_) fun _ => within_error.mpr (habi _)
    split
    · exact within_ok _ _
    · exact within_error.mpr (habi _)
  · exact within_error.mpr (habi _)

theorem within_signatureOf (signature calldata : Value) :
    Within (IsCallFault signature calldata) (signatureOf signature) := by
  unfold signatureOf
  split
  · next s =>
    refine (within_parseSignature s).mono fun f hf => hf.imp_right ?_
    rintro ⟨rfl, hpair⟩
    exact ⟨.badValue, rfl, .hollow rfl hpair⟩
  · exact within_error.mpr (.inl ⟨_, rfl⟩)

theorem within_decodeValues {signature calldata : Value} {s : Signature}
    (hs : signatureOf signature = .ok s) {abiTypes : List AbiType}
    (htypes : (s.types.map Value.text).mapM typeOf = .ok abiTypes) {data : List UInt8}
    (hdata : calldataBytes calldata = .ok data) (names : List String) :
    Within (IsCallFault signature calldata) (decodeValues names abiTypes data) := by
  unfold decodeValues
  split
  · next hnone =>
    have huncoded : ¬ s.IsCoded := fun hcoded => by
      obtain ⟨coders, hcoders⟩ := exists_coders hcoded htypes
      exact absurd (hnone.symm.trans hcoders) (by simp)
    refine within_error.mpr (.inr ⟨_, rfl, .uncoded hs huncoded ?_⟩)
    cases hfault : Coder.decodingFaults? abiTypes with
    | none => exact .inr rfl
    | some cause => exact cause_of_decodingFaults? abiTypes hfault
  · next coders hcoders =>
    split
    · exact within_ok _ _
    · exact within_error.mpr (.inl ⟨_, rfl⟩)
    · next hlong =>
      obtain ⟨hbytes, hlength⟩ := Coder.within_decodeAll data coders _ hlong rfl
      exact within_error.mpr
        (.inr ⟨_, rfl, .endless hs ⟨abiTypes, htypes, hcoders⟩ hbytes hdata hlength⟩)

/-- **Nothing but that escapes** when a call is decoded. -/
theorem within_decodeCall (signature calldata : Value) :
    Within (IsCallFault signature calldata) (decodeCall signature calldata) := by
  refine Within.bind (within_signatureOf signature calldata) fun s hs => ?_
  refine Within.bind ?_ fun inputs _ => within_ok _ _
  have hparsed : ∃ text, parseSignature text = .ok s := by
    cases signature with
    | text text => exact ⟨text, hs⟩
    | _ => exact absurd hs (by simp [signatureOf])
  obtain ⟨text, hparsed⟩ := hparsed
  obtain ⟨abiTypes, htypes⟩ := exists_abiTypes hparsed
  unfold decodeArguments
  rw [htypes, ok_bind]
  refine Within.bind (within_calldataBytes (fun _ => .inl ⟨_, rfl⟩) calldata) fun data hdata => ?_
  refine Within.bind (within_decodeValues hs htypes hdata _) fun vs hvs => ?_
  -- what is decoded is canonical, so it has an encoding
  obtain ⟨coders, hcoders, hdecode⟩ := ofTypes?_of_decodeValues hvs
  have hcoded : HasCoders s.types coders := ⟨abiTypes, htypes, hcoders⟩
  obtain ⟨parts, -, -, hencode⟩ := exists_encodeArguments hcoded
    (Coder.areCanonical_of_decodeAll hcoded.areSized hdecode)
  rw [hencode, ok_bind]
  exact within_ite (fun _ => within_ok _ _) fun _ => within_error.mpr (.inl ⟨_, rfl⟩)

end Proposals.Abi
