import Proposals.Proofs.Abi.Canonical

/-!
# `Proofs.Abi.Place` — encodings are read where they stand

Heads are read in place and tails behind an offset, so the reader of a nested value sees neither the
front of the data nor their end. The statement that goes through the nesting is therefore about an
encoding that stands somewhere in the data (`At`): the reader finds the canonical value there, and
behind a static one it goes on where the encoding ends (`Coder.decodes`).

A list of components stands in two places at once, its heads in one and its tails in the other;
`Coder.readParts_of_decodes` moves through both. Arrays are lists of equal components.
-/

namespace Proposals.Abi

open Proposals.Number Proposals.Outcome Proposals.Text AbiType

/-! ## Places -/

/-- The bytes stand at the place of the data. -/
def At (data : List UInt8) (place : Nat) (bs : List UInt8) : Prop :=
  ∃ before after, data = before ++ (bs ++ after) ∧ before.length = place

variable {data : List UInt8} {place : Nat} {bs cs : List UInt8}

theorem At.left (h : At data place (bs ++ cs)) : At data place bs := by
  obtain ⟨before, after, rfl, rfl⟩ := h
  exact ⟨before, cs ++ after, by rw [List.append_assoc], rfl⟩

theorem At.right (h : At data place (bs ++ cs)) : At data (place + bs.length) cs := by
  obtain ⟨before, after, rfl, rfl⟩ := h
  refine ⟨before ++ bs, after, ?_, List.length_append⟩
  simp only [List.append_assoc]

theorem At.length_le (h : At data place bs) : place + bs.length ≤ data.length := by
  obtain ⟨before, after, rfl, rfl⟩ := h
  simp only [List.length_append]
  omega

theorem at_self (data : List UInt8) : At data 0 data :=
  ⟨[], [], by rw [List.append_nil, List.nil_append], rfl⟩

theorem At.bytesAt? (h : At data place bs) : bytesAt? data place bs.length = some bs := by
  obtain ⟨before, after, rfl, rfl⟩ := h
  unfold Abi.bytesAt?
  rw [List.drop_left, List.take_left]
  exact if_pos rfl

theorem At.wordAt? {n : Nat} (h : At data place (word n)) (hn : n < twoTo 256) :
    wordAt? data place = some n := by
  have hbytes := h.bytesAt?
  rw [length_word] at hbytes
  rw [Abi.wordAt?, hbytes, Option.map_some, ofBigEndian_word hn]

/-- Places in the data are numbers that fit a word. -/
theorem lt_of_lt_maxLength {n : Nat} (h : n < maxLength) : n < twoTo 256 :=
  Nat.lt_of_lt_of_le h (Nat.pow_le_pow_right (by decide) (by decide))

/-- A byte string is read behind its length. -/
theorem readBytes_at (hdata : data.length < maxLength) (h : At data place (encodeBytes bs)) :
    readBytes data place = .ok bs := by
  have hpadded := h.right
  rw [length_word] at hpadded
  have hend := hpadded.length_le
  have hbytes := hpadded.bytesAt?
  rw [length_padRight] at hend hbytes
  have hsize : bs.length ≤ wordCeil bs.length := by unfold wordCeil; omega
  have hword := h.left.wordAt? (lt_of_lt_maxLength (by omega))
  have hshort : ¬ maxLength ≤ wordCeil bs.length := by omega
  unfold readBytes readWord
  simp only [hword, required, ok_bind, if_neg hshort, hbytes, padRight, zeroPadded?_padTo]

namespace Coder

/-! ## Components -/

/-- A canonical value is read where its encoding stands; the place behind a static one is where the
    encoding ends. -/
def Decodes (data : List UInt8) (c : Coder) : Prop :=
  ∀ v e place, c.IsCanonical v → encode? c v = some e → At data place e →
    ∃ next, decode data c place = .ok (v, next) ∧
      (c.isDynamic = false → next = place + e.length)

theorem readDistance_eq_ok {start count place distance : Nat}
    (hword : wordAt? data place = some distance)
    (hdistance : isDistance data start count distance = true) :
    readDistance data start count place = .ok distance := by
  unfold readDistance readWord
  simp only [hword, required, ok_bind, hdistance, if_true, pure_eq_ok]

/-- A value behind an offset is read from the place that the offset counts to. -/
theorem follow_of_decodes {c : Coder} {v : Value} {e : List UInt8} {start count distance : Nat}
    (hdata : data.length < maxLength) (hc : c.Decodes data) (hsized : c.IsSized)
    (hv : c.IsCanonical v) (he : encode? c v = some e) (hhead : At data place (word distance))
    (htail : At data (start + distance) e) (hcount : 32 * count ≤ distance) :
    readDistance data start count place = .ok distance ∧
      follow data start (decode data c) place = .ok (v, place + 32) := by
  obtain ⟨e', he', hlength⟩ := encodes hsized v hv
  obtain rfl : e = e' := Option.some.inj (he.symm.trans he')
  have hplaces := places_pos hsized
  have hend := htail.length_le
  have hword := hhead.wordAt? (lt_of_lt_maxLength (by omega))
  have hdistance : isDistance data start count distance = true := by
    rw [isDistance, Bool.and_eq_true, decide_eq_true_eq, decide_eq_true_eq]
    omega
  obtain ⟨next, hread, -⟩ := hc v e (start + distance) hv he htail
  exact ⟨readDistance_eq_ok hword hdistance, follow_eq_ok.mpr ⟨distance, next, hword, hread, rfl⟩⟩

/-- **Components are read from their heads and tails**, wherever the two stand: the heads count from
    the place of the tails. -/
theorem readParts_of_decodes {components : List Coder} {vs : List Value} {parts : List Part}
    {start count distance : Nat} (hdata : data.length < maxLength)
    (hdecodes : ∀ c ∈ components, c.Decodes data) (hsized : AreSized components)
    (hvs : AreCanonical components vs) (hparts : encodeParts? components vs = some parts)
    (hheads : At data place (heads distance parts))
    (htails : At data (start + distance) (tails parts)) (hcount : 32 * count ≤ distance) :
    checkParts data start count components place = .ok () ∧
      readParts data start components place = .ok (vs, place + headSize parts) := by
  induction components generalizing vs parts place distance with
  | nil =>
    cases hvs
    cases hparts
    exact ⟨rfl, rfl⟩
  | cons c components ih =>
    obtain ⟨hc, hrest⟩ := List.forall_mem_cons.mp hdecodes
    obtain ⟨v, ws, rfl, hv, hws⟩ := hvs
    simp only [encodeParts?, Option.bind_eq_bind, Option.bind_eq_some_iff, Option.pure_def,
      Option.some.injEq] at hparts
    obtain ⟨e, he, rest, hparts, rfl⟩ := hparts
    rw [readParts_cons, checkParts]
    cases hdynamic : c.isDynamic with
    | true =>
      -- a word with the distance stands here, the value behind the start
      rw [hdynamic, heads] at hheads
      rw [hdynamic, tails] at htails
      obtain ⟨hdistance, hfollow⟩ :=
        follow_of_decodes hdata hc hsized.1 hv he hheads.left htails.left hcount
      have hheads' := hheads.right
      rw [length_word] at hheads'
      have htails' := htails.right
      rw [Nat.add_assoc] at htails'
      obtain ⟨hcheck, hlater⟩ := ih hrest hsized.2 hws hparts hheads' htails' (by omega)
      rw [hdistance, hfollow]
      refine ⟨hcheck, ?_⟩
      rw [if_pos rfl, ok_bind]
      dsimp only
      rw [hlater, ok_bind, headSize, Nat.add_assoc]
    | false =>
      rw [hdynamic, heads] at hheads
      rw [hdynamic, tails] at htails
      obtain ⟨next, hread, hnext⟩ := hc v e place hv he hheads.left
      obtain rfl := hnext hdynamic
      obtain ⟨hcheck, hlater⟩ := ih hrest hsized.2 hws hparts hheads.right htails hcount
      rw [hread]
      refine ⟨hcheck, ?_⟩
      rw [if_neg (by decide), ok_bind]
      dsimp only
      rw [hlater, ok_bind, headSize, Nat.add_assoc]

/-- A static list has no tails. -/
theorem tails_of_static {components : List Coder} {vs : List Value} {parts : List Part}
    (hstatic : anyDynamic components = false) (hparts : encodeParts? components vs = some parts) :
    tails parts = [] := by
  induction components generalizing vs parts with
  | nil =>
    cases vs with
    | nil => cases hparts; rfl
    | cons v vs => exact absurd hparts (by simp [encodeParts?])
  | cons c components ih =>
    cases vs with
    | nil => exact absurd hparts (by simp [encodeParts?])
    | cons v vs =>
      rw [anyDynamic, Bool.or_eq_false_iff] at hstatic
      simp only [encodeParts?, Option.bind_eq_bind, Option.bind_eq_some_iff, Option.pure_def,
        Option.some.injEq] at hparts
      obtain ⟨e, -, rest, hparts, rfl⟩ := hparts
      rw [hstatic.1, tails]
      exact ih hstatic.2 hparts

theorem anyDynamic_replicate {c : Coder} (h : c.isDynamic = false) (n : Nat) :
    anyDynamic (List.replicate n c) = false := by
  induction n with
  | zero => rfl
  | succ n ih => rw [List.replicate_succ, anyDynamic, h, ih]; rfl

/-- **A list of components is read from its encoding.** -/
theorem readParts_assemble {components : List Coder} {vs : List Value} {parts : List Part}
    (hdata : data.length < maxLength) (hdecodes : ∀ c ∈ components, c.Decodes data)
    (hsized : AreSized components) (hvs : AreCanonical components vs)
    (hparts : encodeParts? components vs = some parts) (h : At data place (assemble parts))
    {count : Nat} (hcount : 32 * count ≤ headSize parts) :
    checkParts data place count components place = .ok () ∧
      ∃ next, readParts data place components place = .ok (vs, next) ∧
        (anyDynamic components = false → next = place + (assemble parts).length) := by
  have htails := h.right
  rw [length_heads] at htails
  obtain ⟨hcheck, hread⟩ :=
    readParts_of_decodes hdata hdecodes hsized hvs hparts h.left htails hcount
  refine ⟨hcheck, _, hread, fun hstatic => ?_⟩
  rw [length_assemble, tails_of_static hstatic hparts, List.length_nil, Nat.add_zero]

/-! ## Arrays -/

theorem readMany_eq_readParts (data : List UInt8) (start : Nat) (item : Coder) (count place : Nat) :
    readMany (if item.isDynamic then follow data start (decode data item) else decode data item)
      count place = readParts data start (List.replicate count item) place := by
  induction count generalizing place with
  | zero => rfl
  | succ count ih =>
    rw [List.replicate_succ, readParts_cons]
    simp only [← ih]
    rw [readMany]
    cases item.isDynamic <;> rfl

theorem checkDistances_eq_checkParts (data : List UInt8) (start count : Nat) {item : Coder}
    (hdynamic : item.isDynamic = true) (left place : Nat) :
    checkDistances data start count left place =
      checkParts data start count (List.replicate left item) place := by
  induction left generalizing place with
  | zero => rfl
  | succ left ih =>
    rw [List.replicate_succ, checkParts, if_pos hdynamic, checkDistances]
    simp only [ih]

/-- The items of an array are read as a list of equal components. -/
theorem readItems_of_readParts {item : Coder} {start count next : Nat} {vs : List Value}
    (hroom : start + 32 * count ≤ data.length)
    (hcheck : checkParts data start count (List.replicate count item) start = .ok ())
    (hread : readParts data start (List.replicate count item) start = .ok (vs, next)) :
    readItems data item.isDynamic (decode data item) start count = .ok (vs, next) := by
  rw [← readMany_eq_readParts] at hread
  unfold readItems
  dsimp only
  rw [if_neg (by omega)]
  cases hdynamic : item.isDynamic with
  | true =>
    rw [hdynamic] at hread
    rw [if_pos rfl, checkDistances_eq_checkParts data start count hdynamic, hcheck, ok_bind]
    exact hread
  | false =>
    rw [hdynamic] at hread
    exact hread

/-- The items of an array, as a list of components. -/
theorem encodeParts?_items {item : Coder} {vs : List Value} {es : List (List UInt8)}
    (hes : vs.mapM (encode? item) = some es) :
    encodeParts? (List.replicate vs.length item) vs = some (es.map (item.isDynamic, ·)) := by
  rw [encodeParts?_replicate, hes, Option.map_some]

theorem areSized_replicate {item : Coder} (hsized : item.IsSized) (n : Nat) :
    AreSized (List.replicate n item) :=
  areSized_iff.mpr fun _ hc => List.eq_of_mem_replicate hc ▸ hsized

/-- Each item has at least a word in the heads. -/
theorem le_headSize_items {item : Coder} {vs : List Value} {es : List (List UInt8)}
    (hsized : item.IsSized) (hvs : ∀ w ∈ vs, item.IsCanonical w)
    (hes : vs.mapM (encode? item) = some es) :
    32 * vs.length ≤ headSize (es.map (item.isDynamic, ·)) := by
  obtain ⟨parts, hparts, hsize⟩ :=
    exists_parts (areSized_replicate hsized vs.length) (areCanonical_replicate.mpr ⟨rfl, hvs⟩)
  obtain rfl := Option.some.inj ((encodeParts?_items hes).symm.trans hparts)
  rw [countPlaces_replicate] at hsize
  have hcount := Nat.le_mul_of_pos_right vs.length (places_pos hsized)
  omega

/-- **The items of an array are read from their encoding.** -/
theorem readItems_assemble {item : Coder} {vs : List Value} {es : List (List UInt8)}
    (hdata : data.length < maxLength) (hdecodes : item.Decodes data) (hsized : item.IsSized)
    (hvs : ∀ w ∈ vs, item.IsCanonical w) (hes : vs.mapM (encode? item) = some es)
    (h : At data place (assemble (es.map (item.isDynamic, ·)))) :
    ∃ next, readItems data item.isDynamic (decode data item) place vs.length = .ok (vs, next) ∧
      (item.isDynamic = false →
        next = place + (assemble (es.map (item.isDynamic, ·))).length) := by
  have hsize := le_headSize_items hsized hvs hes
  obtain ⟨hcheck, next, hread, hnext⟩ := readParts_assemble hdata
    (fun c hc => List.eq_of_mem_replicate hc ▸ hdecodes) (areSized_replicate hsized _)
    (areCanonical_replicate.mpr ⟨rfl, hvs⟩) (encodeParts?_items hes) h hsize
  have hroom := h.length_le
  rw [length_assemble] at hroom
  exact ⟨next, readItems_of_readParts (by omega) hcheck hread,
    fun hstatic => hnext (anyDynamic_replicate hstatic _)⟩

/-! ## All values -/

theorem decodes_of_isSingle {c : Coder} (hc : c.isSingle = true) (hsized : c.IsSized) :
    c.Decodes data := by
  intro v e place hv he h
  obtain ⟨n, hn, hencode, hvalue⟩ := exists_word hc hsized hv
  have hword : e = word n := Option.some.inj (he.symm.trans hencode)
  rw [hword] at h ⊢
  refine ⟨place + 32, ?_, fun _ => by rw [length_word]⟩
  rw [decode_of_isSingle hc, readWordAs, readWord, h.wordAt? hn]
  simp only [required, ok_bind, hvalue, pure_eq_ok]

/-- The number of items stands in front of them, unless the type fixes it. -/
theorem decodes_array {item : Coder} {length : Option Nat} (hdata : data.length < maxLength)
    (hitem : item.Decodes data) (hsized : item.IsSized) : (array item length).Decodes data := by
  intro v e place hv he h
  rw [IsCanonical] at hv
  obtain ⟨vs, rfl, hlength, hall⟩ := hv
  cases length with
  | none =>
    rw [encode?, Option.map_eq_some_iff] at he
    obtain ⟨es, hes, rfl⟩ := he
    have hitems := h.right
    rw [length_word] at hitems
    obtain ⟨next, hread, -⟩ := readItems_assemble hdata hitem hsized hall hes hitems
    have hcount : vs.length < twoTo 256 := by
      have hsize := le_headSize_items hsized hall hes
      have hroom := hitems.length_le
      rw [length_assemble] at hroom
      exact lt_of_lt_maxLength (by omega)
    refine ⟨next, ?_, fun hstatic => absurd hstatic (by simp [isDynamic])⟩
    rw [decode, readWord, h.left.wordAt? hcount]
    simp only [required, ok_bind, hread, pure_eq_ok]
  | some n =>
    obtain rfl := hlength n rfl
    rw [encode?, if_pos rfl, Option.map_eq_some_iff] at he
    obtain ⟨es, hes, rfl⟩ := he
    obtain ⟨next, hread, hnext⟩ := readItems_assemble hdata hitem hsized hall hes h
    refine ⟨next, ?_, fun hstatic => hnext (by rw [← hstatic, isDynamic])⟩
    rw [decode]
    simp only [hread, ok_bind, pure_eq_ok]

theorem decodes_tuple {components : List Coder} (hdata : data.length < maxLength)
    (hcomponents : ∀ c ∈ components, c.Decodes data) (hsized : AreSized components) :
    (tuple components).Decodes data := by
  intro v e place hv he h
  rw [IsCanonical] at hv
  obtain ⟨vs, rfl, hvs⟩ := hv
  rw [encode?, Option.map_eq_some_iff] at he
  obtain ⟨parts, hparts, rfl⟩ := he
  have hcount : 32 * countPlaces components ≤ headSize parts := by
    obtain ⟨parts', hparts', hsize⟩ := exists_parts hsized hvs
    obtain rfl := Option.some.inj (hparts.symm.trans hparts')
    exact hsize
  obtain ⟨hcheck, next, hread, hnext⟩ :=
    readParts_assemble hdata hcomponents hsized hvs hparts h hcount
  refine ⟨next, ?_, fun hstatic => hnext (by rw [← hstatic, isDynamic])⟩
  rw [decode]
  simp only [hcheck, hread, ok_bind, pure_eq_ok]

/-- **Every canonical value is read where its encoding stands.** -/
theorem decodes {c : Coder} (hdata : data.length < maxLength) (hsized : c.IsSized) :
    c.Decodes data := by
  induction c using componentInduction with
  | single c hc => exact decodes_of_isSingle hc hsized
  | bytes =>
    rintro v e place ⟨bs, rfl⟩ he h
    rw [encode?, Option.some.injEq] at he
    subst he
    refine ⟨place, ?_, fun hstatic => absurd hstatic (by simp [isDynamic])⟩
    rw [decode, readBytes_at hdata h]
    rfl
  | string =>
    rintro v e place ⟨s, rfl⟩ he h
    rw [encode?, Option.some.injEq] at he
    subst he
    refine ⟨place, ?_, fun hstatic => absurd hstatic (by simp [isDynamic])⟩
    rw [decode, readBytes_at hdata h, ok_bind, ofUtf8?_utf8Bytes]
    rfl
  | array item length ih =>
    rw [IsSized] at hsized
    exact decodes_array hdata (ih hsized.1) hsized.1
  | tuple components ih =>
    rw [IsSized] at hsized
    exact decodes_tuple hdata (fun c hc => ih c hc (areSized_iff.mp hsized.2 c hc)) hsized.2

end Coder

end Proposals.Abi
