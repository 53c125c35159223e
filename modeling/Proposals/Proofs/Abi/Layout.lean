import Proposals.Proofs.Abi.Arguments
import Proposals.Proofs.Abi.Word

/-!
# `Proofs.Abi.Layout` — arguments that are words

The functions of the well-known contracts take addresses and unsigned numbers only. Arguments in normal
form and in range (`Coder.Fits`) come back from calldata unchanged
(`decodeArguments_of_encodeArguments`): each takes one word, and the words follow each other without
distances. That what is decoded fits is shown with the other layouts (`areCanonical_of_decodeCall`).
-/

namespace Proposals.Abi

open Proposals.Number Proposals.Outcome AbiType

namespace Coder

/-- An address is in normal form, an unsigned number in range; nothing is asked of other values. -/
def Fits : Coder → Value → Prop
  | .uint bits, v => ∃ n : Nat, v = .int n ∧ n < twoTo bits
  | .address, v => ∃ a, v = .text a ∧ IsNormalAddress a
  | _, _ => True

/-! ## Words are read back -/

/-- The coder takes one word, and what it knows of a value is enough to encode it. -/
def IsWord : Coder → Prop
  | .uint bits => bits ≤ 256
  | .address => True
  | _ => False

theorem IsWord.not_isDynamic {c : Coder} (h : c.IsWord) : c.isDynamic = false := by
  cases c with
  | uint bits => rfl
  | address => rfl
  | _ => exact absurd h (by simp [IsWord])

/-- An address is a word: twelve zeros and its bytes, which the value of the word gives back. -/
theorem exists_word_address {a : String} (ha : IsNormalAddress a) :
    ∃ n, n < twoTo 256 ∧ encode? .address (.text a) = some (word n) ∧
      wordValue? .address n = some (.text a) := by
  obtain ⟨bs, hbs, hlength, hwritten⟩ := ha.exists_bytes
  have hword : (List.replicate 12 0 ++ bs).length = 32 := by
    rw [List.length_append, List.length_replicate, hlength]
  have hencoded := word_ofBigEndian hword
  rw [ofBigEndian_zeros_append] at hencoded
  have hlimit : ofBigEndian bs < twoTo 160 := by
    have hlt := ofBigEndian_lt bs
    rw [hlength] at hlt
    exact hlt
  have hback : bigEndian 20 (ofBigEndian bs) = bs := by
    rw [← hlength]; exact bigEndian_ofBigEndian bs
  refine ⟨ofBigEndian bs, Nat.lt_of_lt_of_le hlimit (Nat.pow_le_pow_right (by decide) (by decide)),
    ?_, ?_⟩
  · rw [encode?, hbs, hencoded]; rfl
  · rw [wordValue?, if_pos hlimit, hback, hwritten]

/-- A number that fits is a word. -/
theorem exists_word_uint {bits n : Nat} (hbits : bits ≤ 256) (hn : n < twoTo bits) :
    n < twoTo 256 ∧ encode? (.uint bits) (.int n) = some (word n) ∧
      wordValue? (.uint bits) n = some (.int n) := by
  have hlimit : twoTo bits ≤ twoTo 256 := Nat.pow_le_pow_right (by decide) hbits
  refine ⟨Nat.lt_of_lt_of_le hn hlimit, ?_, ?_⟩
  · rw [encode?, if_pos ⟨Int.natCast_nonneg n, Int.ofNat_lt.mpr hn⟩]; rfl
  · rw [wordValue?, if_pos hn]

/-- The encoding of a value that fits a word is read where it stands. -/
theorem exists_encode? {c : Coder} {v : Value} (hc : c.IsWord) (hv : c.Fits v) :
    ∃ e, encode? c v = some e ∧ e.length = 32 ∧ ∀ before after,
      decode (before ++ (e ++ after)) c before.length = .ok (v, before.length + 32) := by
  have hword : ∃ n, n < twoTo 256 ∧ encode? c v = some (word n) ∧ wordValue? c n = some v := by
    cases c with
    | uint bits =>
      obtain ⟨n, rfl, hn⟩ := hv
      exact ⟨n, exists_word_uint hc hn⟩
    | address =>
      obtain ⟨a, rfl, ha⟩ := hv
      exact exists_word_address ha
    | _ => exact absurd hc (by simp [IsWord])
  obtain ⟨n, hn, hencode, hvalue⟩ := hword
  refine ⟨word n, hencode, length_word n, fun before after => ?_⟩
  have hdecode : decode (before ++ (word n ++ after)) c before.length =
      readWordAs (before ++ (word n ++ after)) before.length (wordValue? c) := by
    cases c with
    | uint bits => rw [decode]
    | address => rw [decode]
    | _ => exact absurd hc (by simp [IsWord])
  rw [hdecode]
  simp only [readWordAs, readWord, wordAt?_append before (length_word n), required, ok_bind,
    ofBigEndian_word hn, hvalue, pure_eq_ok]

/-- The encodings of values that fit words are read one after the other. -/
theorem exists_encodeParts? {coders : List Coder} {vs : List Value}
    (hcoders : ∀ c ∈ coders, c.IsWord) (hvs : List.Forall₂ Fits coders vs) :
    ∃ es : List (List UInt8), encodeParts? coders vs = some (es.map (Prod.mk false)) ∧
      ∀ start count before,
        checkParts (before ++ es.flatten) start count coders before.length = .ok () ∧
        ∃ next, readParts (before ++ es.flatten) start coders before.length = .ok (vs, next) := by
  induction hvs with
  | nil => exact ⟨[], rfl, fun _ _ _ => ⟨rfl, _, rfl⟩⟩
  | @cons c v coders vs hv _ ih =>
    have hc : c.IsWord := hcoders c (by simp)
    obtain ⟨e, hencode, hlength, hread⟩ := exists_encode? hc hv
    obtain ⟨es, hparts, hrest⟩ := ih fun d hd => hcoders d (by simp [hd])
    refine ⟨e :: es, ?_, fun start count before => ?_⟩
    · simp only [encodeParts?, hencode, hparts, hc.not_isDynamic, Option.bind_eq_bind,
        Option.bind_some, Option.pure_def, List.map_cons]
    · have hnow := hread before es.flatten
      have hdata : before ++ (e :: es).flatten = (before ++ e) ++ es.flatten := by
        rw [List.flatten_cons, List.append_assoc]
      have hplace : before.length + 32 = (before ++ e).length := by
        rw [List.length_append, hlength]
      rw [← List.append_assoc, hplace] at hnow
      obtain ⟨hcheck, next, hlater⟩ := hrest start count (before ++ e)
      rw [hdata]
      have hstatic : ¬ c.isDynamic = true := by rw [hc.not_isDynamic]; simp
      refine ⟨?_, next, ?_⟩
      · simp only [checkParts, if_neg hstatic, hnow, ok_bind, hcheck]
      · simp only [readParts, if_neg hstatic, hnow, ok_bind, hlater, pure_eq_ok]

theorem assemble_static (es : List (List UInt8)) : assemble (es.map (Prod.mk false)) = es.flatten := by
  have hheads : ∀ place, heads place (es.map (Prod.mk false)) = es.flatten := by
    intro place
    induction es with
    | nil => rfl
    | cons e es ih => rw [List.map_cons, heads, ih, List.flatten_cons]
  have htails : tails (es.map (Prod.mk false)) = [] := by
    clear hheads
    induction es with
    | nil => rfl
    | cons e es ih => rw [List.map_cons, tails, ih]
  rw [assemble, hheads, htails, List.append_nil]

/-- **Values that fit words are decoded from their encoding.** -/
theorem decodeAll_assemble {coders : List Coder} {vs : List Value} {parts : List Part}
    (hcoders : ∀ c ∈ coders, c.IsWord) (hvs : List.Forall₂ Fits coders vs)
    (h : encodeParts? coders vs = some parts) : decodeAll coders (assemble parts) = .ok vs := by
  obtain ⟨es, hes, hread⟩ := exists_encodeParts? hcoders hvs
  obtain rfl : parts = es.map (Prod.mk false) := Option.some.inj (h.symm.trans hes)
  -- words stand in the heads, with nothing in front and no tails
  obtain ⟨hcheck, next, hparts⟩ := hread 0 (countPlaces coders) []
  rw [List.nil_append, List.length_nil] at hcheck hparts
  rw [assemble_static, decodeAll, hcheck, ok_bind, hparts, ok_bind]
  rfl

end Coder

/-! ## Argument lists -/

/-- The layouts of the types of a signature. -/
def HasCoders (types : List String) (coders : List Coder) : Prop :=
  ∃ abiTypes, (types.map Value.text).mapM typeOf = .ok abiTypes ∧
    Coder.ofTypes? abiTypes = some coders

/-- Types have one layout. -/
theorem HasCoders.unique {types : List String} {coders coders' : List Coder}
    (h : HasCoders types coders) (h' : HasCoders types coders') : coders = coders' := by
  obtain ⟨abiTypes, htypes, hof⟩ := h
  obtain ⟨abiTypes', htypes', hof'⟩ := h'
  obtain rfl : abiTypes = abiTypes' := Except.ok.inj (htypes.symm.trans htypes')
  exact Option.some.inj (hof.symm.trans hof')

/-- The value is an address in normal form if its type asks for an address. -/
def IsReady (c : Coder) (v : Value) : Prop := c = .address → c.Fits v

theorem prepare_of_isReady {t : AbiType} {c : Coder} {v : Value} (hof : Coder.ofType? t = some c)
    (hc : c.IsWord) (hv : IsReady c v) : prepare t v = .ok v := by
  cases t with
  | basic base size =>
    by_cases hbase : base = "address"
    · subst hbase
      have haddress : c = .address := by
        cases size with
        | none => exact (Option.some.inj hof).symm
        | some size => cases size <;> exact absurd hof (by simp [Coder.ofType?, Coder.ofBasic?])
      obtain ⟨a, rfl, ha⟩ := haddress ▸ hv haddress
      have hnormal : addressOfText? a = some a := ha
      simp [prepare, hnormal]
    · simp [prepare, hbase]
  | tuple components =>
    rw [Coder.ofType?, Option.map_eq_some_iff] at hof
    obtain ⟨cs, -, rfl⟩ := hof
    exact absurd hc (by simp [Coder.IsWord])
  | array item length =>
    rw [Coder.ofType?, Option.map_eq_some_iff] at hof
    obtain ⟨d, -, rfl⟩ := hof
    exact absurd hc (by simp [Coder.IsWord])

theorem prepareArguments_of_isReady {types : List Value} {abiTypes : List AbiType}
    {coders : List Coder} {vs : List Value} (htypes : types.mapM typeOf = .ok abiTypes)
    (hof : Coder.ofTypes? abiTypes = some coders) (hwords : ∀ c ∈ coders, c.IsWord)
    (hvs : List.Forall₂ IsReady coders vs) : prepareArguments types vs = .ok (abiTypes, vs) := by
  induction types generalizing abiTypes coders vs with
  | nil =>
    cases htypes
    cases hof
    cases hvs
    rfl
  | cons type types ih =>
    rw [List.mapM_cons] at htypes
    obtain ⟨t, ht, htypes⟩ := bind_eq_ok.mp htypes
    obtain ⟨ts, hts, htypes⟩ := bind_eq_ok.mp htypes
    cases htypes
    simp only [Coder.ofTypes?, Option.bind_eq_bind, Option.bind_eq_some_iff, Option.pure_def,
      Option.some.injEq] at hof
    obtain ⟨c, hc, cs, hcs, rfl⟩ := hof
    cases hvs with
    | @cons _ v _ ws hv hws =>
      have hprepared := prepare_of_isReady hc (hwords c (by simp)) hv
      have hrest := ih hts hcs (fun d hd => hwords d (by simp [hd])) hws
      simp only [prepareArguments, ht, hprepared, hrest, ok_bind, pure_eq_ok]

theorem fits_of_encodeParts? {coders : List Coder} {vs : List Value} {parts : List Part}
    (hwords : ∀ c ∈ coders, c.IsWord) (hready : List.Forall₂ IsReady coders vs)
    (h : Coder.encodeParts? coders vs = some parts) : List.Forall₂ Coder.Fits coders vs := by
  induction hready generalizing parts with
  | nil => exact .nil
  | @cons c v coders vs hv _ ih =>
    simp only [Coder.encodeParts?, Option.bind_eq_bind, Option.bind_eq_some_iff] at h
    obtain ⟨e, he, rest, hrest, -⟩ := h
    refine .cons ?_ (ih (fun d hd => hwords d (by simp [hd])) hrest)
    -- a number is encoded only in range, and an address is ready
    have hc := hwords c (by simp)
    cases c with
    | uint bits =>
      cases v with
      | int n =>
        rw [Coder.encode?] at he
        split at he
        · next hrange =>
          obtain ⟨k, rfl⟩ := Int.eq_ofNat_of_zero_le hrange.1
          exact ⟨k, rfl, Int.ofNat_lt.mp hrange.2⟩
        · exact absurd he (by simp)
      | _ => exact absurd he (by simp [Coder.encode?])
    | address => exact hv rfl
    | _ => exact absurd hc (by simp [Coder.IsWord])

/-- **Arguments that are words come back from their calldata**, and they fit. -/
theorem decodeArguments_of_encodeArguments {types : List String} {coders : List Coder}
    {vs : List Value} {calldata : String} (hcoders : HasCoders types coders)
    (hwords : ∀ c ∈ coders, c.IsWord) (hready : List.Forall₂ IsReady coders vs)
    (h : encodeArguments (types.map .text) vs = .ok calldata) :
    List.Forall₂ Coder.Fits coders vs ∧
      decodeArguments (types.map .text) (.text calldata) = .ok vs := by
  obtain ⟨abiTypes, htypes, hof⟩ := hcoders
  have hencode := h
  unfold encodeArguments at hencode
  split at hencode
  · exact absurd hencode (by simp)
  · rw [prepareArguments_of_isReady htypes hof hwords hready, ok_bind] at hencode
    simp only [encodeValues?, hof, Option.bind_eq_bind, Option.bind_some] at hencode
    cases hparts : Coder.encodeParts? coders vs with
    | none => rw [hparts] at hencode; exact absurd hencode (by simp)
    | some parts =>
      have hfits := fits_of_encodeParts? hwords hready hparts
      have hdecode := Coder.decodeAll_assemble hwords hfits hparts
      rw [hparts] at hencode
      simp only [Option.bind_some, Option.pure_def, pure_eq_ok, Except.ok.injEq] at hencode
      subst hencode
      refine ⟨hfits, ?_⟩
      unfold decodeArguments
      simp only [htypes, calldataBytes_bytesToHex, decodeValues, hof, hdecode, h, ok_bind,
        String.toList_ofList, if_true, pure_eq_ok]

end Proposals.Abi
