import Proposals.Proofs.Abi.Normalize
import Proposals.Proofs.Unparse
import Proposals.Proofs.Wire.Lists

/-!
# `Proofs.Valid` — raw transactions that an executor takes

A raw transaction is *valid* if its target is an address, its value in range, its calldata in base sixteen,
and its signature, if it has one, decodes the calldata. Valid transactions can be put into the lists of a
proposal and read from them unchanged (`fromWire_toWire`).

What codecs write is valid where they encode: a call has the address and the signature of the registry,
and the calldata of its arguments can be decoded. What they put in its place as it is must be in order
before (`Transaction.IsChecked`). Then what is written is valid, on any chain (`Writes.isValid`).
-/

namespace Proposals

open Proposals.Abi Proposals.Codec Proposals.Number Proposals.Outcome Proposals.Text

/-- The text of an address, in any form. -/
def Value.IsAddressText (v : Value) : Prop := ∃ s a, v = .text s ∧ addressOfText? s = some a

/-- Pairs of digits of base sixteen behind the mark `0x`. -/
def Value.IsCalldata (v : Value) : Prop :=
  ∃ c digits, v = .text c ∧ c.toList = '0' :: 'x' :: digits ∧ digits.all isHexDigit = true ∧
    digits.length % 2 = 0

/-- The raw transaction has an address, a value in range, calldata, and a signature that decodes them, if
    it has one. -/
structure RawTransaction.IsValid (raw : RawTransaction) : Prop where
  target : raw.target.IsAddressText
  value : raw.value.IsAmount
  calldata : raw.calldata.IsCalldata
  signature : raw.signature = .text "" ∨
    ∃ call, decodeCall raw.signature raw.calldata = .ok call

/-! ## The lists of a proposal -/

theorem Value.IsCalldata.isCalldataLine {v : Value} (h : v.IsCalldata) : v.IsCalldataLine := by
  obtain ⟨c, digits, hv, hc, hdigits⟩ := h
  exact ⟨c, digits, hv, .inl hc, hdigits⟩

/-- **Valid transactions are read from the lists of their proposal.** -/
theorem fromWire_toWire {raws : List RawTransaction} (h : ∀ raw ∈ raws, raw.IsValid) :
    fromWire (toWire raws) = .ok raws :=
  fromWire_eq_ok_iff.mpr (lists_toWire fun raw hraw =>
    ⟨(h raw hraw).value, (h raw hraw).calldata.isCalldataLine⟩)

/-! ## Checked transactions -/

/-- The target is an address, the name an identifier, and no input is a signed decimal of eight bits. -/
structure FunctionCall.IsChecked (call : FunctionCall) : Prop where
  target : call.target.IsAddressText
  name : ∃ name, call.name = .text name ∧ isIdentifier name.toList = true
  room : ∀ types coders, call.inputTypes.items = .ok (types.map .text) → HasCoders types coders →
    Coder.HaveRoom coders

/-- What a codec writes as it is, is in order: targets are addresses, values in range, calldata in base
    sixteen, and calls have a name. Nothing is asked of what is encoded. -/
def Transaction.IsChecked : Transaction → Prop
  | .payerTopUp value => value.IsAmount
  | .transfer target value => target.IsAddressText ∧ value.IsAmount
  | .wethDeposit value => value.IsAmount
  | .unparsedPayableFunctionCall target calldata value =>
    target.IsAddressText ∧ calldata.IsCalldata ∧ value.IsAmount
  | .unparsedFunctionCall target calldata => target.IsAddressText ∧ calldata.IsCalldata
  | .payableFunctionCall call value => call.IsChecked ∧ value.IsAmount
  | .functionCall call => call.IsChecked
  | _ => True

theorem Transaction.IsChecked.isAmount_nativeValue {t : Transaction} (h : t.IsChecked) :
    t.nativeValue.IsAmount := by
  cases t with
  | payerTopUp value => exact h
  | transfer target value => exact h.2
  | wethDeposit value => exact h
  | unparsedPayableFunctionCall target calldata value => exact h.2.2
  | payableFunctionCall call value => exact h.2
  | _ => exact isAmount_zero

/-! ## What is written is valid -/

theorem IsNormalAddress.isAddressText {a : String} (h : IsNormalAddress a) :
    (Value.text a).IsAddressText := ⟨a, a, rfl, h⟩

/-- Without calldata there is nothing behind the mark. -/
theorem isCalldata_mark : (Value.text "0x").IsCalldata := ⟨"0x", [], rfl, rfl, rfl, rfl⟩

/-- What arguments are encoded to are calldata. -/
theorem isCalldata_of_encodeArguments {types : List String} {args : List Value} {calldata : String}
    (h : encodeArguments (types.map .text) args = .ok calldata) : (Value.text calldata).IsCalldata := by
  obtain ⟨coders, ws, parts, -, -, rfl⟩ := hasCoders_of_encodeArguments h
  exact ⟨_, encodeHex (assemble parts), rfl, String.toList_ofList, all_isHexDigit_encodeHex _,
    by rw [length_encodeHex, Nat.mul_mod_right]⟩

/-- A call is valid if its target is an address, its value in range, its name an identifier and its types
    have room. -/
theorem isValid_of_encodeArguments {target value : Value} {name : String} {types : List String}
    {args : List Value} {calldata : String} (htarget : target.IsAddressText) (hvalue : value.IsAmount)
    (hname : isIdentifier name.toList = true)
    (hencode : encodeArguments (types.map .text) args = .ok calldata)
    (hroom : ∀ coders, HasCoders types coders → Coder.HaveRoom coders)
    (hshort : calldata.length < maxLength) :
    RawTransaction.IsValid ⟨target, .text (Signature.text ⟨name, types⟩), .text calldata, value⟩ :=
  ⟨htarget, hvalue, isCalldata_of_encodeArguments hencode,
    .inr (exists_decodeCall hname hencode hroom hshort)⟩

theorem haveRoom_of_isWord {coders : List Coder} (h : ∀ c ∈ coders, c.IsWord) :
    Coder.HaveRoom coders := by
  refine Coder.haveRoom_iff.mpr fun c hc => ?_
  have hword := h c hc
  cases c with
  | uint bits => trivial
  | address => trivial
  | _ => exact absurd hword (by simp [Coder.IsWord])

theorem eq_map_of_mapM_textOf {types : List Value} {names : List String}
    (h : types.mapM textOf = .ok names) : types = names.map .text := by
  induction types generalizing names with
  | nil => cases h; rfl
  | cons type types ih =>
    rw [List.mapM_cons] at h
    obtain ⟨name, hname, h⟩ := bind_eq_ok.mp h
    obtain ⟨rest, hrest, h⟩ := bind_eq_ok.mp h
    cases h
    cases type with
    | text s => cases hname; rw [ih hrest, List.map_cons]
    | _ => exact absurd hname (by simp [textOf])

theorem Codec.IsCallWritten.isValid {call : FunctionCall} {value : Value} {raw : RawTransaction}
    (h : IsCallWritten call value raw) (hcall : call.IsChecked) (hvalue : value.IsAmount)
    (hshort : ∀ c, raw.calldata = .text c → c.length < maxLength) : raw.IsValid := by
  obtain ⟨types, inputs, names, calldata, htypes, -, hnames, hencode, rfl⟩ := h
  obtain ⟨name, hname, hidentifier⟩ := hcall.name
  obtain rfl := eq_map_of_mapM_textOf hnames
  rw [hname]
  exact isValid_of_encodeArguments hcall.target hvalue hidentifier hencode
    (fun coders => hcall.room names coders htypes) (hshort calldata rfl)

namespace Codec

variable {chain : Int}

/-- The built-in table has contracts of one chain only. -/
theorem eq_mainnet_of_lookup? {name : String} {c : Contract}
    (h : (builtInContext chain).registry.lookup? chain name = some c) : chain = Registry.mainnet := by
  by_contra hne
  have hempty : Registry.builtInRegistry.chain chain = {} := by
    unfold Registry.chain Registry.builtInRegistry
    rw [Table.find?, if_neg (Ne.symm hne)]
    rfl
  unfold Registry.lookup? at h
  rw [show (builtInContext chain).registry.chain chain = {} from hempty] at h
  exact absurd h (by simp [Table.find?])

/-- **What is written for a checked transaction is valid**, on any chain. -/
theorem Writes.isValid {t : Transaction} {raw : RawTransaction} (h : Writes (builtInContext chain) t raw)
    (ht : t.IsChecked) (hshort : ∀ c, raw.calldata = .text c → c.length < maxLength) : raw.IsValid := by
  have hvalue := ht.isAmount_nativeValue
  cases h with
  | payerTopUp hc =>
    obtain ⟨-, haddress, -⟩ := (isSound_builtInContext chain).named _ _ (resolve_eq_ok hc)
    exact ⟨haddress.isAddressText, hvalue, isCalldata_mark, .inl rfl⟩
  | transfer => exact ⟨ht.1, hvalue, isCalldata_mark, .inl rfl⟩
  | unparsedPayable => exact ⟨ht.1, hvalue, ht.2.1, .inl rfl⟩
  | unparsed => exact ⟨ht.1, hvalue, ht.2, .inl rfl⟩
  | known hkind hcall hc hraw =>
    -- only one chain has known contracts, and their calls have words as arguments
    obtain rfl := eq_mainnet_of_lookup? (resolve_eq_ok hc)
    have hat := isAt_of_resolve hcall hc
    obtain ⟨s, calldata, hs, hencode, rfl⟩ := encodeCall_eq_ok hraw
    obtain rfl := Except.ok.inj (hs.symm.trans hat.signed)
    exact isValid_of_encodeArguments hat.address.isAddressText hvalue
      (parseSignature_sound hat.signatureOf_eq).1 hencode
      (fun coders hcoders => hcoders.unique hat.coders ▸ haveRoom_of_isWord hat.words)
      (hshort calldata rfl)
  | payableCall h => exact h.isValid ht.1 hvalue hshort
  | call h => exact h.isValid ht hvalue hshort

end Codec

end Proposals
