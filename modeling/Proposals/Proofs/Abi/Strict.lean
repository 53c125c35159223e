import Proposals.Proofs.Abi.Layout
import Proposals.Proofs.Abi.Place

/-!
# `Proofs.Abi.Strict` — strict decoding inverts encoding

Decoding checks only that the offsets are inside the data; what makes it strict is the comparison of the
calldata with the encoding of the result. `decodeArguments_eq_ok_iff` says what is accepted in the end,
for all types that have a layout: calldata are decoded to canonical values exactly when they are the
encoding of those values, up to the case of the digits. So no other layout of the same values is read,
and no canonical encoding is refused.

Texts are shorter than `maxLength`, which the length of a text is by the number that holds it; the
reader refuses byte strings from that size on.
-/

namespace Proposals.Abi

open Proposals.Number Proposals.Outcome Proposals.Text AbiType

/-! ## The coders of written types -/

/-- The base names that have a coder, each with its sizes. -/
inductive IsBasic : String → Option TypeSize → Coder → Prop where
  | bool (size : Option TypeSize) : IsBasic "bool" size .bool
  | address : IsBasic "address" none .address
  | bytes : IsBasic "bytes" none .bytes
  | string : IsBasic "string" none .string
  | function : IsBasic "function" none (.fixedBytes 24)
  | uint (n : Nat) : IsBasic "uint" (some (.plain n)) (.uint n)
  | int (n : Nat) : IsBasic "int" (some (.plain n)) (.int n)
  | fixedBytes (n : Nat) : IsBasic "bytes" (some (.plain n)) (.fixedBytes n)
  | fixed (m n : Nat) : IsBasic "fixed" (some (.pair m n)) (.fixed true m n)
  | ufixed (m n : Nat) : IsBasic "ufixed" (some (.pair m n)) (.fixed false m n)

theorem isBasic_of_ofBasic? {base : String} {size : Option TypeSize} {c : Coder}
    (h : Coder.ofBasic? base size = some c) : IsBasic base size c := by
  simp only [Coder.ofBasic?, beq_iff_eq] at h
  split at h
  · next hbase => cases hbase; cases h; exact .bool size
  · -- what is left are the base names of each form of size
    split at h <;> repeat' split at h
    all_goals cases h
    all_goals subst base; constructor

theorem isSized_of_ofBasic? {base : String} {size : Option TypeSize} {c : Coder}
    (hsize : IsPositiveSize size) (hvalid : isValidBasic base size = true)
    (h : Coder.ofBasic? base size = some c) : c.IsSized := by
  have hbits : ∀ {n : Nat}, isBitSize n = true → 0 < n ∧ n ≤ 256 := fun {n} hn => by
    simp only [isBitSize, Bool.and_eq_true, decide_eq_true_eq] at hn
    omega
  cases isBasic_of_ofBasic? h with
  | bool | address | bytes | string => trivial
  | function => exact ⟨by decide, by decide⟩
  | uint n => exact (hbits hvalid).2
  | int n => exact hbits hvalid
  | fixedBytes n => exact ⟨hsize, of_decide_eq_true hvalid⟩
  | fixed m n => exact hbits (Bool.and_eq_true_iff.mp (Bool.and_eq_true_iff.mp hvalid).1).1
  | ufixed m n => exact hbits (Bool.and_eq_true_iff.mp (Bool.and_eq_true_iff.mp hvalid).1).1

mutual
/-- **The coder of a written type is sized.** -/
theorem isSized_of_ofType? : (t : AbiType) → {c : Coder} → IsWellFormed t → t.isValid = true →
    Coder.ofType? t = some c → c.IsSized
  | .basic base size, c, ht, hvalid, h => isSized_of_ofBasic? ht.2.2 hvalid h
  | .tuple components, c, ht, hvalid, h => by
    rw [Coder.ofType?, Option.map_eq_some_iff] at h
    obtain ⟨cs, hcs, rfl⟩ := h
    rw [IsWellFormed] at ht
    rw [isValid] at hvalid
    refine ⟨?_, areSized_of_ofTypes? components ht.2 hvalid hcs⟩
    rintro rfl
    cases components with
    | nil => exact ht.1 rfl
    | cons t ts => exact absurd hcs (by simp [Coder.ofTypes?, Option.bind_eq_some_iff])
  | .array item length, c, ht, hvalid, h => by
    rw [Coder.ofType?, Option.map_eq_some_iff] at h
    obtain ⟨d, hd, rfl⟩ := h
    rw [IsWellFormed] at ht
    rw [isValid] at hvalid
    exact ⟨isSized_of_ofType? item ht.1 hvalid hd, ht.2⟩

/-- The same for several types. -/
theorem areSized_of_ofTypes? : (ts : List AbiType) → {cs : List Coder} → AreWellFormed ts →
    areValid ts = true → Coder.ofTypes? ts = some cs → Coder.AreSized cs
  | [], cs, _, _, h => by cases h; trivial
  | t :: ts, cs, ht, hvalid, h => by
    simp only [Coder.ofTypes?, Option.bind_eq_bind, Option.bind_eq_some_iff, Option.pure_def,
      Option.some.injEq] at h
    obtain ⟨c, hc, rest, hrest, rfl⟩ := h
    rw [AreWellFormed] at ht
    rw [areValid, Bool.and_eq_true] at hvalid
    exact ⟨isSized_of_ofType? t ht.1 hvalid.1 hc, areSized_of_ofTypes? ts ht.2 hvalid.2 hrest⟩
end

theorem HasCoders.areSized {types : List String} {coders : List Coder} (h : HasCoders types coders) :
    Coder.AreSized coders := by
  obtain ⟨abiTypes, htypes, hof⟩ := h
  induction types generalizing abiTypes coders with
  | nil => cases htypes; cases hof; trivial
  | cons type types ih =>
    rw [List.map_cons, List.mapM_cons] at htypes
    obtain ⟨t, ht, htypes⟩ := bind_eq_ok.mp htypes
    obtain ⟨ts, hts, htypes⟩ := bind_eq_ok.mp htypes
    cases htypes
    simp only [Coder.ofTypes?, Option.bind_eq_bind, Option.bind_eq_some_iff, Option.pure_def,
      Option.some.injEq] at hof
    obtain ⟨c, hc, cs, hcs, rfl⟩ := hof
    obtain ⟨-, hwf, hvalid⟩ := chars_of_read (typeOf_text_eq_ok.mp ht)
    exact ⟨isSized_of_ofType? t hwf hvalid hc, ih ts hts hcs⟩

/-! ## Canonical values are ready -/

theorem eq_address_of_ofBasic? {size : Option TypeSize} {c : Coder}
    (h : Coder.ofBasic? "address" size = some c) : c = .address := by
  generalize hbase : "address" = base at h
  cases isBasic_of_ofBasic? h with
  | address => rfl
  | _ => exact absurd hbase (by decide)

mutual
/-- **Preparing leaves a canonical value as it is.** -/
theorem prepare_of_isCanonical : (t : AbiType) → {c : Coder} → {v : Value} →
    Coder.ofType? t = some c → c.IsCanonical v → prepare t v = .ok v
  | .basic base size, c, v, hof, hv => by
    by_cases hbase : base = "address"
    · subst hbase
      obtain rfl := eq_address_of_ofBasic? hof
      rw [Coder.IsCanonical] at hv
      obtain ⟨a, rfl, ha⟩ := hv
      have hnormal : addressOfText? a = some a := ha
      simp [prepare, hnormal]
    · simp [prepare, hbase]
  | .tuple components, c, v, hof, hv => by
    rw [Coder.ofType?, Option.map_eq_some_iff] at hof
    obtain ⟨cs, hcs, rfl⟩ := hof
    rw [Coder.IsCanonical] at hv
    obtain ⟨vs, rfl, hvs⟩ := hv
    have hitems : prepare.sequenceOf (.tuple components) (.list vs) = .ok vs := rfl
    rw [prepare, hitems, ok_bind, prepareAll_of_areCanonical components hcs hvs]
    rfl
  | .array item length, c, v, hof, hv => by
    rw [Coder.ofType?, Option.map_eq_some_iff] at hof
    obtain ⟨d, hd, rfl⟩ := hof
    rw [Coder.IsCanonical] at hv
    obtain ⟨vs, rfl, -, hall⟩ := hv
    have hitems : prepare.sequenceOf (.array item length) (.list vs) = .ok vs := rfl
    rw [prepare, hitems, ok_bind,
      mapM_eq_self fun w hw => prepare_of_isCanonical item hd (hall w hw)]
    rfl

/-- The same for several values. -/
theorem prepareAll_of_areCanonical : (ts : List AbiType) → {cs : List Coder} → {vs : List Value} →
    Coder.ofTypes? ts = some cs → Coder.AreCanonical cs vs → prepareAll ts vs = .ok vs
  | [], cs, vs, hof, hvs => by cases hof; cases hvs; simp [prepareAll]
  | t :: ts, cs, vs, hof, hvs => by
    simp only [Coder.ofTypes?, Option.bind_eq_bind, Option.bind_eq_some_iff, Option.pure_def,
      Option.some.injEq] at hof
    obtain ⟨c, hc, rest, hrest, rfl⟩ := hof
    obtain ⟨w, ws, rfl, hw, hws⟩ := hvs
    rw [prepareAll, prepare_of_isCanonical t hc hw, prepareAll_of_areCanonical ts hrest hws]
    rfl
end

/-! ## Argument lists -/

theorem prepareArguments_of_areCanonical {types : List Value} {abiTypes : List AbiType}
    {coders : List Coder} {vs : List Value} (htypes : types.mapM typeOf = .ok abiTypes)
    (hof : Coder.ofTypes? abiTypes = some coders) (hvs : Coder.AreCanonical coders vs) :
    types.length = vs.length ∧ prepareArguments types vs = .ok (abiTypes, vs) := by
  induction types generalizing abiTypes coders vs with
  | nil =>
    cases htypes
    cases hof
    cases hvs
    exact ⟨rfl, rfl⟩
  | cons type types ih =>
    rw [List.mapM_cons] at htypes
    obtain ⟨t, ht, htypes⟩ := bind_eq_ok.mp htypes
    obtain ⟨ts, hts, htypes⟩ := bind_eq_ok.mp htypes
    cases htypes
    simp only [Coder.ofTypes?, Option.bind_eq_bind, Option.bind_eq_some_iff, Option.pure_def,
      Option.some.injEq] at hof
    obtain ⟨c, hc, cs, hcs, rfl⟩ := hof
    obtain ⟨w, ws, rfl, hw, hws⟩ := hvs
    obtain ⟨hlength, hrest⟩ := ih hts hcs hws
    refine ⟨congrArg (· + 1) hlength, ?_⟩
    simp only [prepareArguments, ht, prepare_of_isCanonical t hc hw, hrest, ok_bind, pure_eq_ok]

/-- **Canonical arguments have calldata**, the written form of their encoding. -/
theorem exists_encodeArguments {types : List String} {coders : List Coder} {vs : List Value}
    (hcoders : HasCoders types coders) (hvs : Coder.AreCanonical coders vs) :
    ∃ parts, Coder.encodeParts? coders vs = some parts ∧
      32 * Coder.countPlaces coders ≤ headSize parts ∧
      encodeArguments (types.map .text) vs = .ok (String.ofList (bytesToHex (assemble parts))) := by
  obtain ⟨parts, hparts, hsize⟩ := Coder.exists_parts hcoders.areSized hvs
  obtain ⟨abiTypes, htypes, hof⟩ := hcoders
  obtain ⟨hlength, hprepared⟩ := prepareArguments_of_areCanonical htypes hof hvs
  refine ⟨parts, hparts, hsize, ?_⟩
  have hcount : ¬ (types.map Value.text).length ≠ vs.length := not_not_intro hlength
  unfold encodeArguments
  simp only [hcount, if_false, hprepared, ok_bind, encodeValues?, hof, hparts, Option.bind_eq_bind,
    Option.bind_some, Option.pure_def, pure_eq_ok]

/-- **Canonical arguments are decoded from their encoding.** -/
theorem decodeAll_of_areCanonical {coders : List Coder} {vs : List Value} {parts : List Part}
    (hsized : Coder.AreSized coders) (hvs : Coder.AreCanonical coders vs)
    (hparts : Coder.encodeParts? coders vs = some parts)
    (hsize : 32 * Coder.countPlaces coders ≤ headSize parts)
    (hlimit : (assemble parts).length < maxLength) :
    Coder.decodeAll coders (assemble parts) = .ok vs := by
  obtain ⟨hcheck, next, hread, -⟩ := Coder.readParts_assemble hlimit
    (fun c hc => Coder.decodes hlimit (Coder.areSized_iff.mp hsized c hc)) hsized hvs hparts
    (at_self _) hsize
  unfold Coder.decodeAll
  simp only [hcheck, hread, ok_bind, pure_eq_ok]

/-- The text is base sixteen behind the mark `0x`. -/
def IsMarkedHex (s : String) : Prop :=
  ∃ digits, s.toList = '0' :: 'x' :: digits ∧ digits.all isHexDigit = true

/-- The written form of bytes is marked. -/
theorem isMarkedHex_bytesToHex (bs : List UInt8) : IsMarkedHex (String.ofList (bytesToHex bs)) :=
  ⟨encodeHex bs, String.toList_ofList, all_isHexDigit_encodeHex bs⟩

/-- The written form of bytes has no capital digits. -/
theorem lowerHex_bytesToHex (bs : List UInt8) :
    lowerHex (String.ofList (bytesToHex bs)) = String.ofList (bytesToHex bs) := by
  rw [lowerHex, String.toList_ofList]
  exact congrArg (fun digits => String.ofList ('0' :: 'x' :: digits)) (lowerAscii_encodeHex bs)

theorem isMarkedHex_of_calldataBytes {c : String} {data : List UInt8}
    (h : calldataBytes (.text c) = .ok data) : IsMarkedHex c := by
  simp only [calldataBytes] at h
  split at h
  · next hmark =>
    obtain ⟨digits, hdigits⟩ := List.isPrefixOf_iff_prefix.mp hmark
    have hc : c.toList = '0' :: 'x' :: digits := hdigits.symm
    split at h
    · next bs hbs =>
      have hread : decodeHex? digits = some bs := by rw [hc] at hbs; exact hbs
      refine ⟨digits, hc, ?_⟩
      rw [← all_isHexDigit_lowerAscii, ← encodeHex_of_decodeHex? hread]
      exact all_isHexDigit_encodeHex bs
    · exact absurd h (by simp)
  · exact absurd h (by simp)

/-- Calldata hold the bytes whose written form they are, in whatever case. -/
theorem calldataBytes_of_lowerHex {c : String} {data : List UInt8} (hc : IsMarkedHex c)
    (h : (lowerHex c).toList = bytesToHex data) : calldataBytes (.text c) = .ok data := by
  obtain ⟨digits, hdigits, -⟩ := hc
  have hmark : "0x".toList.isPrefixOf c.toList = true := by rw [hdigits]; rfl
  rw [lowerHex, String.toList_ofList, hdigits] at h
  have hlower : lowerAscii digits = encodeHex data := congrArg (List.drop 2) h
  have hread : hexToBytes? c.toList = some data := by
    rw [hdigits]
    show decodeHex? digits = some data
    rw [← decodeHex?_lowerAscii, hlower, decodeHex?_encodeHex]
  simp only [calldataBytes, hmark, hread, if_true]

/-- Decoded arguments are canonical, and their calldata are marked. -/
theorem areCanonical_of_decodeArguments {types : List String} {coders : List Coder}
    (hcoders : HasCoders types coders) {c : String} {vs : List Value}
    (h : decodeArguments (types.map .text) (.text c) = .ok vs) :
    Coder.AreCanonical coders vs ∧ IsMarkedHex c := by
  obtain ⟨-, abiTypes, coders', data, -, htypes, hof, hdecode, -, -⟩ := decodeArguments_sound h
  obtain rfl := hcoders.unique ⟨abiTypes, htypes, hof⟩
  refine ⟨Coder.areCanonical_of_decodeAll hcoders.areSized hdecode, ?_⟩
  unfold decodeArguments at h
  obtain ⟨_, -, h⟩ := bind_eq_ok.mp h
  obtain ⟨_, hbytes, -⟩ := bind_eq_ok.mp h
  exact isMarkedHex_of_calldataBytes hbytes

/-- **The arguments of a decoded call are canonical** for the types of its signature. -/
theorem areCanonical_of_decodeCall {signature calldata : Value} {call : DecodedCall} {coders : List Coder}
    (h : decodeCall signature calldata = .ok call) (hcoders : HasCoders call.types coders) :
    Coder.AreCanonical coders call.inputs := by
  obtain ⟨c, rfl, -⟩ := decodeCall_sound h
  unfold decodeCall at h
  obtain ⟨s, -, h⟩ := bind_eq_ok.mp h
  obtain ⟨vs, hvs, h⟩ := bind_eq_ok.mp h
  cases h
  exact (areCanonical_of_decodeArguments hcoders hvs).1

/-- **Canonical arguments are decoded from their calldata**, in whatever case the digits are. -/
theorem decodeArguments_of_areCanonical {types : List String} {coders : List Coder}
    (hcoders : HasCoders types coders) {c : String} (hc : c.length < maxLength) {vs : List Value}
    (hvs : Coder.AreCanonical coders vs) (hmarked : IsMarkedHex c)
    (hencode : encodeArguments (types.map .text) vs = .ok (lowerHex c)) :
    decodeArguments (types.map .text) (.text c) = .ok vs := by
  obtain ⟨parts, hparts, hsize, hencode'⟩ := exists_encodeArguments hcoders hvs
  have hlower : lowerHex c = String.ofList (bytesToHex (assemble parts)) :=
    Except.ok.inj (hencode.symm.trans hencode')
  have hwritten : (lowerHex c).toList = bytesToHex (assemble parts) := by
    rw [hlower, String.toList_ofList]
  -- two digits for each byte, so the data are no longer than the text
  have hlimit : (assemble parts).length < maxLength := by
    have hlength := congrArg List.length hwritten
    rw [lowerHex, String.toList_ofList, length_lowerAscii, String.length_toList, bytesToHex,
      List.length_cons, List.length_cons, length_encodeHex] at hlength
    omega
  have hdecode := decodeAll_of_areCanonical hcoders.areSized hvs hparts hsize hlimit
  obtain ⟨abiTypes, htypes, hof⟩ := hcoders
  unfold decodeArguments
  simp only [htypes, calldataBytes_of_lowerHex hmarked hwritten, decodeValues, hof, hdecode, hencode,
    ok_bind, hwritten, if_true, pure_eq_ok]

/-- The calldata of canonical arguments have no capital digits. -/
theorem lowerHex_of_encodeArguments {types : List String} {coders : List Coder} {vs : List Value}
    {calldata : String} (hcoders : HasCoders types coders) (hvs : Coder.AreCanonical coders vs)
    (h : encodeArguments (types.map .text) vs = .ok calldata) :
    lowerHex calldata = calldata ∧ IsMarkedHex calldata := by
  obtain ⟨parts, -, -, hencode⟩ := exists_encodeArguments hcoders hvs
  obtain rfl := Except.ok.inj (h.symm.trans hencode)
  exact ⟨lowerHex_bytesToHex _, isMarkedHex_bytesToHex _⟩

/-- **Different canonical arguments have different calldata.** -/
theorem encodeArguments_injective {types : List String} {coders : List Coder} {vs ws : List Value}
    {calldata : String} (hcoders : HasCoders types coders) (hshort : calldata.length < maxLength)
    (hvs : Coder.AreCanonical coders vs) (hws : Coder.AreCanonical coders ws)
    (h : encodeArguments (types.map .text) vs = .ok calldata)
    (h' : encodeArguments (types.map .text) ws = .ok calldata) : vs = ws := by
  obtain ⟨hlower, hmarked⟩ := lowerHex_of_encodeArguments hcoders hvs h
  have hread := decodeArguments_of_areCanonical hcoders hshort hvs hmarked (hlower.symm ▸ h)
  have hread' := decodeArguments_of_areCanonical hcoders hshort hws hmarked (hlower.symm ▸ h')
  exact Except.ok.inj (hread.symm.trans hread')

/-- **Strict decoding is the inverse of encoding**: what is decoded are the canonical values whose
    encoding the calldata are, up to the case of the digits, and all of them are. -/
theorem decodeArguments_eq_ok_iff {types : List String} {coders : List Coder}
    (hcoders : HasCoders types coders) {c : String} (hc : c.length < maxLength) (vs : List Value) :
    decodeArguments (types.map .text) (.text c) = .ok vs ↔
      Coder.AreCanonical coders vs ∧ IsMarkedHex c ∧
        encodeArguments (types.map .text) vs = .ok (lowerHex c) := by
  constructor
  · intro h
    obtain ⟨hvs, hmarked⟩ := areCanonical_of_decodeArguments hcoders h
    obtain ⟨c', -, -, -, hc', -, -, -, hencode, -⟩ := decodeArguments_sound h
    obtain rfl := Value.text.inj hc'
    exact ⟨hvs, hmarked, hencode⟩
  · rintro ⟨hvs, hmarked, hencode⟩
    exact decodeArguments_of_areCanonical hcoders hc hvs hmarked hencode

/-- Arguments with an array of tuples with a text, and a negative decimal. -/
def nestedArguments : List Value :=
  [.list [.list [.int 1, .text "hi"]], .decimal (.finite true 15 (-1))]

/-- The encoding of `nestedArguments`: two heads, the array with its tuple, and the text. -/
def nestedData : List UInt8 :=
  word 64 ++ signedWord (-150) ++ (word 1 ++ word 32) ++ (word 1 ++ word 64) ++
    encodeBytes (utf8Bytes "hi")

theorem decodeArguments_nestedArguments :
    (String.ofList (bytesToHex nestedData)).length < maxLength ∧
      decodeArguments (["(uint8,string)[]", "fixed64x2"].map .text)
        (.text (String.ofList (bytesToHex nestedData))) = .ok nestedArguments := by
  have hcoders : HasCoders ["(uint8,string)[]", "fixed64x2"]
      [.array (.tuple [.uint 8, .string]) none, .fixed true 64 2] := ⟨_, rfl, rfl⟩
  have hlength : (String.ofList (bytesToHex nestedData)).length < maxLength := by
    rw [String.length_ofList]
    decide +kernel
  have htuple : Coder.AreCanonical [.uint 8, .string] [.int 1, .text "hi"] :=
    ⟨_, _, rfl, ⟨1, rfl, by decide⟩, _, _, rfl, ⟨"hi", rfl⟩, rfl⟩
  have hcanonical : Coder.AreCanonical [.array (.tuple [.uint 8, .string]) none, .fixed true 64 2]
      nestedArguments := by
    refine ⟨_, _, rfl, ⟨_, rfl, fun n hn => absurd hn (by simp), fun w hw => ?_⟩, _, _, rfl,
      ⟨-150, rfl, by decide, by decide⟩, rfl⟩
    rw [List.mem_singleton.mp hw]
    exact ⟨_, rfl, htuple⟩
  obtain ⟨parts, hparts, -, hencode⟩ := exists_encodeArguments hcoders hcanonical
  have hdata : (Coder.encodeParts? [.array (.tuple [.uint 8, .string]) none, .fixed true 64 2]
      nestedArguments).map assemble = some nestedData := by decide +kernel
  rw [hparts, Option.map_some, Option.some.injEq] at hdata
  rw [hdata] at hencode
  exact ⟨hlength, (decodeArguments_eq_ok_iff hcoders hlength nestedArguments).mpr
    ⟨hcanonical, isMarkedHex_bytesToHex _, (lowerHex_bytesToHex nestedData).symm ▸ hencode⟩⟩

end Proposals.Abi
