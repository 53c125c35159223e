import Proposals.Text.Hex
import Proposals.Text.Uppercase
import Mathlib.Data.List.Basic

/-!
# `Proofs.Text.Hex` — reading and writing base sixteen

Digits of base sixteen may be capital or small; bytes are always written with small ones. Reading and
writing are therefore inverse up to `lowerAscii`:

* `encodeHex_of_decodeHex?`: writing what was read gives the text in small letters;
* `decodeHex?_encodeHex`: reading what was written gives the bytes;
* `decodeHex?_lowerAscii`: the case of the digits does not matter.
-/

namespace Proposals.Text

/-- A statement on the first 128 code points is checked one by one. -/
theorem of_toNat_lt_128 {p : Char → Prop} (h : ∀ n < 128, p (Char.ofNat n)) {c : Char}
    (hc : c.toNat < 128) : p c := by
  have hp := h c.toNat hc
  rwa [Char.ofNat_toNat] at hp

/-! ## Digits -/

/-- A digit of base sixteen is an ASCII character. -/
theorem toNat_lt_of_hexValue? {c : Char} {v : Nat} (h : hexValue? c = some v) : c.toNat < 128 := by
  have bound (b : Char) (hb : b.toNat < 128) (hc : c ≤ b) : c.toNat < 128 := Nat.lt_of_le_of_lt hc hb
  unfold hexValue? at h
  split at h
  · next hc => exact bound '9' (by decide) hc.2
  · split at h
    · next hc => exact bound 'f' (by decide) hc.2
    · split at h
      · next hc => exact bound 'F' (by decide) hc.2
      · exact absurd h (by simp)

theorem hexValue?_lt {c : Char} {v : Nat} (h : hexValue? c = some v) : v < 16 := by
  have check := of_toNat_lt_128 (p := fun c => ((hexValue? c).all (· < 16)) = true)
    (by decide) (toNat_lt_of_hexValue? h)
  rw [h] at check
  exact of_decide_eq_true check

/-- The small digit of a value is the digit that had the value, in small letters. -/
theorem lowerHexDigit_of_hexValue? {c : Char} {v : Nat} (h : hexValue? c = some v) :
    lowerHexDigit v = c.toLower := by
  have check := of_toNat_lt_128
    (p := fun c => ((hexValue? c).all fun v => lowerHexDigit v = c.toLower) = true)
    (by decide) (toNat_lt_of_hexValue? h)
  rw [h] at check
  exact of_decide_eq_true check

theorem hexValue?_lowerHexDigit {v : Nat} (h : v < 16) : hexValue? (lowerHexDigit v) = some v := by
  have check : ∀ v < 16, hexValue? (lowerHexDigit v) = some v := by decide
  exact check v h

/-- Past ASCII there are no small letters to take. -/
theorem toLower_of_le_toNat {c : Char} (h : 128 ≤ c.toNat) : c.toLower = c := by
  unfold Char.toLower
  rw [dif_neg]
  rintro ⟨-, hz⟩
  have hz : c.toNat ≤ 90 := hz
  omega

theorem hexValue?_toLower (c : Char) : hexValue? c.toLower = hexValue? c := by
  rcases Nat.lt_or_ge c.toNat 128 with hc | hc
  · exact of_toNat_lt_128 (p := fun c => hexValue? c.toLower = hexValue? c) (by decide) hc
  · rw [toLower_of_le_toNat hc]

theorem isHexDigit_toLower (c : Char) : isHexDigit c.toLower = isHexDigit c := by
  unfold isHexDigit; rw [hexValue?_toLower]

theorem isHexDigit_lowerHexDigit {v : Nat} (h : v < 16) : isHexDigit (lowerHexDigit v) = true := by
  unfold isHexDigit; rw [hexValue?_lowerHexDigit h]; rfl

/-! ## Small letters -/

theorem toLower_toLower (c : Char) : c.toLower.toLower = c.toLower := by
  rcases Nat.lt_or_ge c.toNat 128 with hc | hc
  · exact of_toNat_lt_128 (p := fun c => c.toLower.toLower = c.toLower) (by decide) hc
  · rw [toLower_of_le_toNat hc, toLower_of_le_toNat hc]

theorem lowerAscii_lowerAscii (cs : List Char) : lowerAscii (lowerAscii cs) = lowerAscii cs := by
  unfold lowerAscii
  rw [List.map_map]
  exact List.map_congr_left fun c _ => toLower_toLower c

theorem length_lowerAscii (cs : List Char) : (lowerAscii cs).length = cs.length := List.length_map _

theorem all_isHexDigit_lowerAscii (cs : List Char) :
    (lowerAscii cs).all isHexDigit = cs.all isHexDigit := by
  unfold lowerAscii
  rw [List.all_map]
  congr 1
  exact funext isHexDigit_toLower

/-! ## Bytes -/

theorem decodeHex?_lowerAscii (cs : List Char) : decodeHex? (lowerAscii cs) = decodeHex? cs := by
  fun_induction decodeHex? cs with
  | case1 => rfl
  | case2 c => rfl
  | case3 hi lo rest ih =>
    show decodeHex? (hi.toLower :: lo.toLower :: lowerAscii rest) = _
    rw [decodeHex?, hexValue?_toLower, hexValue?_toLower, ih]

/-- **Writing undoes reading** up to the case of the digits. -/
theorem encodeHex_of_decodeHex? {cs : List Char} {bs : List UInt8} (h : decodeHex? cs = some bs) :
    encodeHex bs = lowerAscii cs := by
  fun_induction decodeHex? cs generalizing bs with
  | case1 => cases h; rfl
  | case2 c => exact absurd h (by simp)
  | case3 hi lo rest ih =>
    simp only [Option.bind_eq_bind, Option.bind_eq_some_iff] at h
    obtain ⟨u, hu, v, hv, tail, htail, h⟩ := h
    rw [Option.pure_def, Option.some.injEq] at h
    subst h
    have hu' := hexValue?_lt hu
    have hv' := hexValue?_lt hv
    have hbyte : (UInt8.ofNat (16 * u + v)).toNat = 16 * u + v :=
      UInt8.toNat_ofNat_of_lt' (by show 16 * u + v < 256; omega)
    rw [encodeHex, hbyte, show (16 * u + v) / 16 = u by omega,
      show (16 * u + v) % 16 = v by omega, lowerHexDigit_of_hexValue? hu,
      lowerHexDigit_of_hexValue? hv, ih htail]
    rfl

/-- **Reading undoes writing.** -/
theorem decodeHex?_encodeHex (bs : List UInt8) : decodeHex? (encodeHex bs) = some bs := by
  induction bs with
  | nil => rfl
  | cons b bs ih =>
    have hb : b.toNat < 256 := b.toNat_lt
    rw [encodeHex, decodeHex?, hexValue?_lowerHexDigit (by omega), hexValue?_lowerHexDigit (by omega),
      ih]
    show some (UInt8.ofNat (16 * (b.toNat / 16) + b.toNat % 16) :: bs) = some (b :: bs)
    rw [show 16 * (b.toNat / 16) + b.toNat % 16 = b.toNat by omega, UInt8.ofNat_toNat]

theorem length_encodeHex (bs : List UInt8) : (encodeHex bs).length = 2 * bs.length := by
  induction bs with
  | nil => rfl
  | cons b bs ih => rw [encodeHex, List.length_cons, List.length_cons, ih, List.length_cons]; omega

theorem all_isHexDigit_encodeHex (bs : List UInt8) : (encodeHex bs).all isHexDigit = true := by
  induction bs with
  | nil => rfl
  | cons b bs ih =>
    have hb : b.toNat < 256 := b.toNat_lt
    rw [encodeHex, List.all_cons, List.all_cons, isHexDigit_lowerHexDigit (by omega),
      isHexDigit_lowerHexDigit (by omega), ih]
    rfl

theorem lowerAscii_encodeHex (bs : List UInt8) : lowerAscii (encodeHex bs) = encodeHex bs := by
  rw [← encodeHex_of_decodeHex? (decodeHex?_encodeHex bs)]

/-- An even number of digits is always read. -/
theorem exists_decodeHex? {cs : List Char} (hdigits : cs.all isHexDigit = true)
    (heven : cs.length % 2 = 0) : ∃ bs, decodeHex? cs = some bs ∧ 2 * bs.length = cs.length := by
  fun_induction decodeHex? cs with
  | case1 => exact ⟨[], rfl, rfl⟩
  | case2 c => exact absurd heven (by simp)
  | case3 hi lo rest ih =>
    rw [List.all_cons, List.all_cons, Bool.and_eq_true, Bool.and_eq_true] at hdigits
    obtain ⟨hhi, hlo, hrest⟩ := hdigits
    obtain ⟨u, hu⟩ := Option.isSome_iff_exists.mp hhi
    obtain ⟨v, hv⟩ := Option.isSome_iff_exists.mp hlo
    rw [List.length_cons, List.length_cons] at heven ⊢
    obtain ⟨bs, hbs, hlen⟩ := ih hrest (by omega)
    refine ⟨UInt8.ofNat (16 * u + v) :: bs, by rw [hu, hv, hbs]; rfl, ?_⟩
    rw [List.length_cons]; omega

end Proposals.Text
