import Proposals.Proofs.Abi.Strict

/-!
# `Proofs.Abi.Normalize` — whatever is encoded can be decoded

Encoding takes more values than reading gives: addresses in capitals, short byte strings, decimals with
closing zeros. But the encoding of a value is also that of a canonical one (`Coder.normalizes`), so
a call that was written can be decoded, though not always with the values that were written
(`exists_decodeCall`).

There is one exception. A negative decimal of less than one unit of its last place is encoded as minus 256
units, and a type of eight bits has no room for them (`Coder.HasRoom`).
-/

namespace Proposals.Abi

open Proposals.Number Proposals.Outcome Proposals.Text AbiType

/-- The bytes of an address are those of its normal form. -/
theorem exists_normal_of_addressBytes? {s : String} {bs : List UInt8} (h : addressBytes? s = some bs) :
    ∃ a, IsNormalAddress a ∧ addressBytes? a = some bs := by
  rw [addressBytes?, Option.ite_none_right_eq_some] at h
  obtain ⟨hs, hbs⟩ := h
  refine ⟨String.ofList (normalizeText s.toList),
    isNormalAddress_of_addressOfText? (addressOfText?_eq_some.mpr ⟨hs, rfl⟩), ?_⟩
  rw [addressBytes?, String.toList_ofList, isAddressText_normalizeText, if_pos hs,
    stripMark_normalizeText, decodeHex?_lowerAscii, hbs]

/-! ## Fixed point numbers -/

/-- A decimal is encoded as a signed integer that fits the bits or is minus 256, or without a sign as a
    number that fits the bits. -/
theorem encodeFixed?_sound {signed negative : Bool} {bits places coefficient : Nat} {exponent : Int}
    {e : List UInt8} (hpos : 0 < bits) (hbits : bits ≤ 256)
    (h : encodeFixed? signed bits places negative coefficient exponent = some e) :
    (signed = true ∧ ∃ n : Int, (IsSigned bits n ∨ n = -256) ∧ e = signedWord n) ∨
      (signed = false ∧ ∃ n : Nat, n < twoTo bits ∧ e = word n) := by
  have hhalf := twoTo_signed_le hpos hbits
  unfold encodeFixed? at h
  split at h
  · exact absurd h (by simp)
  · next n exact _ =>
    split at h
    · -- negative: none without a sign, else the integer part counted down
      cases signed with
      | false => exact absurd h (by simp)
      | true =>
        simp only [Bool.not_true, Bool.false_eq_true, if_false, Option.ite_none_left_eq_some,
          Option.some.injEq] at h
        obtain ⟨hfits, rfl⟩ := h
        refine .inl ⟨rfl, ?_⟩
        by_cases hn : n = 0
        · exact ⟨-256, .inr rfl, if_pos hn⟩
        · exact ⟨-n, .inl (by unfold IsSigned; omega), if_neg hn⟩
    · simp only [Option.ite_none_left_eq_some, Option.ite_none_right_eq_some, Option.some.injEq] at h
      obtain ⟨-, hfits, rfl⟩ := h
      cases signed with
      | false => exact .inr ⟨rfl, n, hfits, rfl⟩
      | true =>
        have hlt : n < twoTo (bits - 1) := hfits
        refine .inl ⟨rfl, n, .inl (by unfold IsSigned; omega), ?_⟩
        exact (signedWord_natCast (by omega)).symm

theorem encodeFixedValue?_sound {signed : Bool} {bits places : Nat} {v : Value} {e : List UInt8}
    (hpos : 0 < bits) (hbits : bits ≤ 256) (h : encodeFixedValue? signed bits places v = some e) :
    (signed = true ∧ ∃ n : Int, (IsSigned bits n ∨ n = -256) ∧ e = signedWord n) ∨
      (signed = false ∧ ∃ n : Nat, n < twoTo bits ∧ e = word n) := by
  unfold encodeFixedValue? at h
  split at h
  · exact encodeFixed?_sound hpos hbits h
  · exact encodeFixed?_sound hpos hbits h
  · exact encodeFixed?_sound hpos hbits h
  · exact absurd h (by simp)

namespace Coder

/-! ## One value -/

mutual
/-- Every signed decimal in the type has more than eight bits. -/
def HasRoom : Coder → Prop
  | .fixed true bits _ => 8 < bits
  | .array item _ => HasRoom item
  | .tuple components => HaveRoom components
  | _ => True

/-- All coders of a list have room. -/
def HaveRoom : List Coder → Prop
  | [] => True
  | c :: cs => HasRoom c ∧ HaveRoom cs
end

theorem haveRoom_iff {cs : List Coder} : HaveRoom cs ↔ ∀ c ∈ cs, c.HasRoom := by
  induction cs with
  | nil => simp [HaveRoom]
  | cons c cs ih => rw [HaveRoom, ih, List.forall_mem_cons]

/-- Whatever the coder encodes is the encoding of a canonical value. -/
def Normalizes (c : Coder) : Prop :=
  ∀ v e, encode? c v = some e → ∃ w, c.IsCanonical w ∧ encode? c w = some e

/-- More than eight bits have room for minus 256. -/
theorem isSigned_of_lt {bits : Nat} (h : 8 < bits) : IsSigned bits (-256) := by
  have hlimit : twoTo 8 ≤ twoTo (bits - 1) :=
    Nat.pow_le_pow_right (by decide) (Nat.le_sub_one_of_lt h)
  have hsmall : twoTo 8 = 256 := by decide
  unfold IsSigned
  generalize twoTo (bits - 1) = half at *
  omega

theorem normalizes_fixed {signed : Bool} {bits places : Nat}
    (hsized : (Coder.fixed signed bits places).IsSized)
    (hroom : (Coder.fixed signed bits places).HasRoom) : (Coder.fixed signed bits places).Normalizes := by
  intro v e h
  rw [IsSized] at hsized
  rw [encode?] at h
  rcases encodeFixedValue?_sound hsized.1 hsized.2 h with ⟨rfl, n, hn, he⟩ | ⟨rfl, n, hn, he⟩
  · rw [HasRoom] at hroom
    have hsigned : IsSigned bits n := hn.elim id fun heq => heq ▸ isSigned_of_lt hroom
    refine ⟨.decimal (.ofScaled n places), ?_, ?_⟩
    · rw [IsCanonical]
      exact ⟨n, rfl, hsigned⟩
    · rw [encode?, encodeFixedValue?_signed hsized.1 hsized.2 hsigned, he]
  · refine ⟨.decimal (.ofScaled n places), ?_, ?_⟩
    · rw [IsCanonical]
      exact ⟨n, rfl, hn⟩
    · rw [encode?, encodeFixedValue?_unsigned hsized.2 hn, he]

theorem padTo_padTo {size limit : Nat} {bs : List UInt8} (hbs : bs.length ≤ size)
    (hsize : size ≤ limit) : padTo limit (padTo size bs) = padTo limit bs := by
  have hlength := length_padTo hbs
  unfold padTo at hlength ⊢
  rw [hlength, List.append_assoc, List.replicate_append_replicate,
    show size - bs.length + (limit - size) = limit - bs.length by omega]

theorem normalizes_of_isSingle {c : Coder} (hc : c.isSingle = true) (hsized : c.IsSized)
    (hroom : c.HasRoom) : c.Normalizes := by
  cases c with
  | uint bits =>
    intro v e h
    cases v with
    | int n =>
      have hencode := h
      rw [encode?, Option.ite_none_right_eq_some] at hencode
      obtain ⟨⟨hnonneg, hlt⟩, -⟩ := hencode
      refine ⟨.int n, ?_, h⟩
      rw [IsCanonical]
      exact ⟨n.toNat, by rw [Int.toNat_of_nonneg hnonneg], by omega⟩
    | _ => exact absurd h (by simp [encode?])
  | int bits =>
    intro v e h
    cases v with
    | int n =>
      have hencode := h
      rw [encode?, Option.ite_none_right_eq_some] at hencode
      refine ⟨.int n, ?_, h⟩
      rw [IsCanonical]
      exact ⟨n, rfl, hencode.1⟩
    | _ => exact absurd h (by simp [encode?])
  | address =>
    intro v e h
    cases v with
    | text s =>
      rw [encode?, Option.map_eq_some_iff] at h
      obtain ⟨bs, hbs, rfl⟩ := h
      obtain ⟨a, ha, habs⟩ := exists_normal_of_addressBytes? hbs
      refine ⟨.text a, ?_, ?_⟩
      · rw [IsCanonical]
        exact ⟨a, rfl, ha⟩
      · rw [encode?, habs]
        rfl
    | _ => exact absurd h (by simp [encode?])
  | bool =>
    intro v e h
    cases v with
    | bool b =>
      refine ⟨.bool b, ?_, h⟩
      rw [IsCanonical]
      exact ⟨b, rfl⟩
    | _ => exact absurd h (by simp [encode?])
  | fixed signed bits places => exact normalizes_fixed hsized hroom
  | fixedBytes size =>
    intro v e h
    rw [IsSized] at hsized
    cases v with
    | bytes bs =>
      rw [encode?, Option.ite_none_right_eq_some, Option.some.injEq] at h
      obtain ⟨hlength, rfl⟩ := h
      refine ⟨.bytes (padTo size bs), ?_, ?_⟩
      · rw [IsCanonical]
        exact ⟨_, rfl, length_padTo hlength⟩
      · rw [encode?, if_pos (length_padTo hlength).le, padTo_padTo hlength hsized.2]
    | _ => exact absurd h (by simp [encode?])
  | bytes | string | array | tuple => exact absurd hc (by simp [isSingle])

/-! ## Components -/

theorem exists_areCanonical_of_normalizes {cs : List Coder} {vs : List Value} {parts : List Part}
    (hcs : ∀ c ∈ cs, c.Normalizes) (h : encodeParts? cs vs = some parts) :
    ∃ ws, AreCanonical cs ws ∧ encodeParts? cs ws = some parts := by
  induction cs generalizing vs parts with
  | nil =>
    cases vs with
    | nil => exact ⟨[], rfl, h⟩
    | cons v vs => exact absurd h (by simp [encodeParts?])
  | cons c cs ih =>
    obtain ⟨hc, hcs⟩ := List.forall_mem_cons.mp hcs
    cases vs with
    | nil => exact absurd h (by simp [encodeParts?])
    | cons v vs =>
      simp only [encodeParts?, Option.bind_eq_bind, Option.bind_eq_some_iff, Option.pure_def,
        Option.some.injEq] at h
      obtain ⟨e, he, rest, hrest, rfl⟩ := h
      obtain ⟨w, hw, hencode⟩ := hc v e he
      obtain ⟨ws, hws, hparts⟩ := ih hcs hrest
      refine ⟨w :: ws, ⟨w, ws, rfl, hw, hws⟩, ?_⟩
      rw [encodeParts?, hencode, hparts]
      rfl

/-- The items of an array may be replaced by canonical ones. -/
theorem exists_items_of_normalizes {item : Coder} (hitem : item.Normalizes) {vs : List Value}
    {es : List (List UInt8)} (h : vs.mapM (encode? item) = some es) :
    ∃ ws : List Value, ws.length = vs.length ∧ (∀ w ∈ ws, item.IsCanonical w) ∧
      ws.mapM (encode? item) = some es := by
  have hparts := encodeParts?_replicate item vs
  rw [h, Option.map_some] at hparts
  obtain ⟨ws, hws, hencode⟩ := exists_areCanonical_of_normalizes
    (fun c hc => List.eq_of_mem_replicate hc ▸ hitem) hparts
  obtain ⟨hlength, hall⟩ := areCanonical_replicate.mp hws
  refine ⟨ws, hlength, hall, ?_⟩
  rw [← hlength, encodeParts?_replicate, Option.map_eq_some_iff] at hencode
  obtain ⟨es', hes', hsame⟩ := hencode
  have hinjective : Function.Injective (fun e : List UInt8 => (item.isDynamic, e)) :=
    fun _ _ heq => (Prod.mk.inj heq).2
  rw [hes', List.map_injective_iff.mpr hinjective hsame]

theorem normalizes_array {item : Coder} {length : Option Nat} (hitem : item.Normalizes) :
    (array item length).Normalizes := by
  intro v e h
  cases v with
  | list vs =>
    cases length with
    | none =>
      rw [encode?, Option.map_eq_some_iff] at h
      obtain ⟨es, hes, rfl⟩ := h
      obtain ⟨ws, hlength, hall, hencode⟩ := exists_items_of_normalizes hitem hes
      refine ⟨.list ws, ?_, by rw [encode?, hencode, hlength]; rfl⟩
      rw [IsCanonical]
      exact ⟨ws, rfl, fun n hn => absurd hn (by simp), hall⟩
    | some n =>
      rw [encode?, Option.ite_none_right_eq_some, Option.map_eq_some_iff] at h
      obtain ⟨hn, es, hes, rfl⟩ := h
      obtain ⟨ws, hlength, hall, hencode⟩ := exists_items_of_normalizes hitem hes
      refine ⟨.list ws, ?_, by rw [encode?, if_pos (hlength.trans hn), hencode]; rfl⟩
      rw [IsCanonical]
      exact ⟨ws, rfl, fun m hm => Option.some.inj hm ▸ hlength.trans hn, hall⟩
  | _ => cases length <;> exact absurd h (by simp [encode?])

theorem normalizes_tuple {components : List Coder} (hcomponents : ∀ c ∈ components, c.Normalizes) :
    (tuple components).Normalizes := by
  intro v e h
  cases v with
  | list vs =>
    rw [encode?, Option.map_eq_some_iff] at h
    obtain ⟨parts, hparts, rfl⟩ := h
    obtain ⟨ws, hws, hencode⟩ := exists_areCanonical_of_normalizes hcomponents hparts
    refine ⟨.list ws, ?_, by rw [encode?, hencode]; rfl⟩
    rw [IsCanonical]
    exact ⟨ws, rfl, hws⟩
  | _ => exact absurd h (by simp [encode?])

/-- **Whatever is encoded is the encoding of a canonical value.** -/
theorem normalizes {c : Coder} (hsized : c.IsSized) (hroom : c.HasRoom) : c.Normalizes := by
  induction c using componentInduction with
  | single c hc => exact normalizes_of_isSingle hc hsized hroom
  | bytes =>
    intro v e h
    cases v with
    | bytes bs => exact ⟨.bytes bs, ⟨bs, rfl⟩, h⟩
    | _ => exact absurd h (by simp [encode?])
  | string =>
    intro v e h
    cases v with
    | text s => exact ⟨.text s, ⟨s, rfl⟩, h⟩
    | _ => exact absurd h (by simp [encode?])
  | array item length ih =>
    rw [IsSized] at hsized
    rw [HasRoom] at hroom
    exact normalizes_array (ih hsized.1 hroom)
  | tuple components ih =>
    rw [IsSized] at hsized
    rw [HasRoom] at hroom
    exact normalizes_tuple fun c hc =>
      ih c hc (areSized_iff.mp hsized.2 c hc) (haveRoom_iff.mp hroom c hc)

/-- The same for a list of values. -/
theorem exists_areCanonical {cs : List Coder} {vs : List Value} {parts : List Part}
    (hsized : AreSized cs) (hroom : HaveRoom cs) (h : encodeParts? cs vs = some parts) :
    ∃ ws, AreCanonical cs ws ∧ encodeParts? cs ws = some parts :=
  exists_areCanonical_of_normalizes (fun c hc =>
    normalizes (areSized_iff.mp hsized c hc) (haveRoom_iff.mp hroom c hc)) h

end Coder

/-! ## Calldata -/

theorem mapM_typeOf_of_prepareArguments {types vs : List Value} (hlength : types.length = vs.length)
    {abiTypes : List AbiType} {ws : List Value} (h : prepareArguments types vs = .ok (abiTypes, ws)) :
    types.mapM typeOf = .ok abiTypes := by
  induction types generalizing vs abiTypes ws with
  | nil =>
    rw [List.length_eq_zero_iff.mp hlength.symm] at h
    cases h
    rfl
  | cons type types ih =>
    obtain ⟨v, vs, rfl⟩ := List.exists_cons_of_length_eq_add_one hlength.symm
    rw [prepareArguments] at h
    obtain ⟨t, ht, h⟩ := bind_eq_ok.mp h
    obtain ⟨w, -, h⟩ := bind_eq_ok.mp h
    obtain ⟨⟨ts, ws'⟩, hrest, h⟩ := bind_eq_ok.mp h
    cases h
    rw [List.mapM_cons, ht, ok_bind, ih (Nat.succ.inj hlength) hrest]
    rfl

/-- Arguments that are encoded are as many as their types, and what they are prepared to is encoded by
    the layouts of the types. -/
theorem encodeArguments_eq_ok {types : List String} {vs : List Value} {calldata : String}
    (h : encodeArguments (types.map .text) vs = .ok calldata) :
    types.length = vs.length ∧ ∃ abiTypes coders ws parts, HasCoders types coders ∧
      Coder.ofTypes? abiTypes = some coders ∧
      prepareArguments (types.map .text) vs = .ok (abiTypes, ws) ∧
      Coder.encodeParts? coders ws = some parts ∧
      calldata = String.ofList (bytesToHex (assemble parts)) := by
  simp only [encodeArguments, throw_eq_error, error_bind] at h
  split at h
  · exact absurd h (by simp)
  · next hlength =>
    obtain ⟨⟨abiTypes, ws⟩, hprepared, h⟩ := bind_eq_ok.mp h
    have htypes := mapM_typeOf_of_prepareArguments (not_not.mp hlength) hprepared
    rw [not_not, List.length_map] at hlength
    dsimp only at h
    split at h
    · next bs hbs =>
      cases h
      simp only [encodeValues?, Option.bind_eq_bind, Option.bind_eq_some_iff, Option.pure_def,
        Option.some.injEq] at hbs
      obtain ⟨coders, hcoders, parts, hparts, rfl⟩ := hbs
      exact ⟨hlength, abiTypes, coders, ws, parts, ⟨abiTypes, htypes, hcoders⟩, hcoders, hprepared,
        hparts, rfl⟩
    · exact absurd h (by simp)

/-- Arguments that are encoded have types with layouts. -/
theorem hasCoders_of_encodeArguments {types : List String} {vs : List Value} {calldata : String}
    (h : encodeArguments (types.map .text) vs = .ok calldata) :
    ∃ coders ws parts, HasCoders types coders ∧ Coder.encodeParts? coders ws = some parts ∧
      calldata = String.ofList (bytesToHex (assemble parts)) := by
  obtain ⟨-, -, coders, ws, parts, hcoders, -, -, hparts, hcalldata⟩ := encodeArguments_eq_ok h
  exact ⟨coders, ws, parts, hcoders, hparts, hcalldata⟩

/-- The full types have the same layouts. -/
theorem HasCoders.full {types : List String} {coders : List Coder} (h : HasCoders types coders) :
    HasCoders (types.map fullType) coders := by
  obtain ⟨abiTypes, htypes, hof⟩ := h
  refine ⟨AbiType.fullAll abiTypes, ?_, (AbiType.ofTypes?_fullAll abiTypes).trans hof⟩
  induction types generalizing abiTypes coders with
  | nil => cases htypes; rfl
  | cons type types ih =>
    rw [List.map_cons, List.mapM_cons] at htypes
    obtain ⟨t, ht, htypes⟩ := bind_eq_ok.mp htypes
    obtain ⟨ts, hts, htypes⟩ := bind_eq_ok.mp htypes
    cases htypes
    have hread := typeOf_text_eq_ok.mp ht
    obtain ⟨hchars, -, -⟩ := chars_of_read hread
    have hlayout : HasLayout t := ⟨hchars ▸ hread, hasCoder_of_mem hof (by simp)⟩
    have hfull : typeOf (.text (fullType type)) = .ok (AbiType.full t) := by
      rw [typeOf_text_eq_ok, fullType, String.toList_ofList, ← hchars]
      exact hlayout.read_full
    simp only [Coder.ofTypes?, Option.bind_eq_bind, Option.bind_eq_some_iff] at hof
    obtain ⟨c, -, cs, hcs, -⟩ := hof
    rw [List.map_cons, List.map_cons, List.mapM_cons, hfull, ok_bind, ih _ hts hcs]
    rfl

/-- **What is written for a call can be decoded**, if the types have room: the signature is read with its
    types in full, and these have the same layouts. -/
theorem exists_decodeCall {name : String} {types : List String} {vs : List Value} {calldata : String}
    (hname : isIdentifier name.toList = true)
    (h : encodeArguments (types.map .text) vs = .ok calldata)
    (hroom : ∀ coders, HasCoders types coders → Coder.HaveRoom coders)
    (hshort : calldata.length < maxLength) :
    ∃ call, decodeCall (.text (Signature.text ⟨name, types⟩)) (.text calldata) = .ok call := by
  obtain ⟨coders, prepared, parts, hcoders, hparts, rfl⟩ := hasCoders_of_encodeArguments h
  obtain ⟨ws, hws, hencode⟩ :=
    Coder.exists_areCanonical hcoders.areSized (hroom coders hcoders) hparts
  obtain ⟨parts', hparts', -, hcalldata⟩ := exists_encodeArguments hcoders.full hws
  obtain rfl : parts = parts' := Option.some.inj (hencode.symm.trans hparts')
  have hdecode := decodeArguments_of_areCanonical hcoders.full hshort hws (isMarkedHex_bytesToHex _)
    ((lowerHex_bytesToHex (assemble parts)).symm ▸ hcalldata)
  obtain ⟨abiTypes, htypes, hof⟩ := hcoders
  have hsignature : signatureOf (.text (Signature.text ⟨name, types⟩)) =
      .ok ⟨name, types.map fullType⟩ :=
    parseSignature_text_of_isCoded (s := ⟨name, types⟩) hname (isCoded_of_ofTypes? htypes hof)
  refine ⟨⟨name, ws, types.map fullType⟩, ?_⟩
  unfold decodeCall
  rw [hsignature, ok_bind, hdecode]
  rfl

end Proposals.Abi
