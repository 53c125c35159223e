import Proposals.Address
import Proposals.Proofs.Text.Hex

/-!
# `Proofs.Address` — addresses in normal form

Contracts, receivers and targets come in several spellings; all comparisons go through the normal
form. An address in normal form is a fixed point of `addressOfText?` (`IsNormalAddress`), and every
way to make a normal form ends in such a fixed point. `sameAddress` cannot tell an address from its
normal form, which is what makes reading a rewritten transaction the same as reading the original.
-/

namespace Proposals

open Proposals.Text

/-- The text is an address in normal form. -/
def IsNormalAddress (a : String) : Prop := addressOfText? a = some a

theorem addressOfText?_eq_some {s a : String} :
    addressOfText? s = some a ↔
      isAddressText s.toList = true ∧ a = String.ofList (normalizeText s.toList) := by
  unfold addressOfText?
  split
  · next h => rw [Option.some.injEq]; exact ⟨fun e => ⟨h, e.symm⟩, fun e => e.2.symm⟩
  · next h => exact ⟨fun e => absurd e (by simp), fun e => absurd e.1 h⟩

/-- The mark in front of forty digits is what `stripMark` takes off. -/
theorem stripMark_normalizeText (cs : List Char) :
    stripMark (normalizeText cs) = lowerAscii (stripMark cs) := rfl

theorem isAddressText_normalizeText (cs : List Char) :
    isAddressText (normalizeText cs) = isAddressText cs := by
  unfold isAddressText
  rw [stripMark_normalizeText, length_lowerAscii, all_isHexDigit_lowerAscii]

theorem normalizeText_normalizeText (cs : List Char) :
    normalizeText (normalizeText cs) = normalizeText cs := by
  show '0' :: 'x' :: lowerAscii (stripMark (normalizeText cs)) = normalizeText cs
  rw [stripMark_normalizeText, lowerAscii_lowerAscii]
  rfl

/-- **The normal form of a text is in normal form.** -/
theorem isNormalAddress_of_addressOfText? {s a : String} (h : addressOfText? s = some a) :
    IsNormalAddress a := by
  obtain ⟨hs, rfl⟩ := addressOfText?_eq_some.mp h
  refine addressOfText?_eq_some.mpr ⟨?_, ?_⟩
  · rw [String.toList_ofList, isAddressText_normalizeText]; exact hs
  · rw [String.toList_ofList, normalizeText_normalizeText]

/-- Twenty bytes are written in normal form. -/
theorem isNormalAddress_addressOfBytes {bs : List UInt8} (h : bs.length = 20) :
    IsNormalAddress (addressOfBytes bs) := by
  have hstrip : stripMark (addressOfBytes bs).toList = encodeHex bs := by
    unfold addressOfBytes; rw [String.toList_ofList]; rfl
  refine addressOfText?_eq_some.mpr ⟨?_, ?_⟩
  · unfold isAddressText
    rw [hstrip, length_encodeHex, all_isHexDigit_encodeHex, h]; rfl
  · unfold normalizeText
    rw [hstrip, lowerAscii_encodeHex]; rfl

/-- An address in normal form is the written form of its bytes. -/
theorem IsNormalAddress.exists_bytes {a : String} (h : IsNormalAddress a) :
    ∃ bs, addressBytes? a = some bs ∧ bs.length = 20 ∧ addressOfBytes bs = a := by
  obtain ⟨ha, hnormal⟩ := addressOfText?_eq_some.mp h
  have hdigits := ha
  rw [isAddressText, Bool.and_eq_true, beq_iff_eq] at hdigits
  obtain ⟨bs, hbs, hlen⟩ := exists_decodeHex? hdigits.2 (by rw [hdigits.1])
  refine ⟨bs, ?_, by omega, ?_⟩
  · unfold addressBytes?; rw [if_pos ha]; exact hbs
  · conv_rhs => rw [hnormal]
    unfold addressOfBytes bytesToHex normalizeText
    rw [encodeHex_of_decodeHex? hbs]

/-! ## Values -/

theorem IsNormalAddress.isAddress {a : String} (h : IsNormalAddress a) :
    (Value.text a).isAddress = true := (addressOfText?_eq_some.mp h).1

theorem IsNormalAddress.toAddress? {a : String} (h : IsNormalAddress a) :
    (Value.text a).toAddress? = some a := h

/-- An address of any kind has a normal form. -/
theorem exists_toAddress? {v : Value} (h : v.isAddress = true) :
    ∃ a, v.toAddress? = some a ∧ IsNormalAddress a := by
  cases v with
  | text s =>
    have hs : isAddressText s.toList = true := h
    refine ⟨_, addressOfText?_eq_some.mpr ⟨hs, rfl⟩, ?_⟩
    exact isNormalAddress_of_addressOfText? (addressOfText?_eq_some.mpr ⟨hs, rfl⟩)
  | bytes bs =>
    have hbs : bs.length = 20 := by simpa [Value.isAddress] using h
    exact ⟨_, if_pos hbs, isNormalAddress_addressOfBytes hbs⟩
  | _ => exact absurd h (by simp [Value.isAddress])

/-- A value is at an address in normal form exactly when that is its normal form. -/
theorem sameAddress_text {v : Value} {a : String} (ha : IsNormalAddress a) :
    sameAddress v (.text a) = true ↔ v.isAddress = true ∧ v.toAddress? = some a := by
  unfold sameAddress
  rw [ha.isAddress, ha.toAddress?, Bool.and_true, Bool.and_eq_true, beq_iff_eq]

/-- The normal form of an address is the same address as it. -/
theorem sameAddress_normal {v w : Value} {a : String} (hv : v.isAddress = true)
    (ha : v.toAddress? = some a) : sameAddress (.text a) w = sameAddress v w := by
  obtain ⟨b, hb, hnormal⟩ := exists_toAddress? hv
  obtain rfl : a = b := Option.some.inj (ha.symm.trans hb)
  unfold sameAddress
  rw [hnormal.isAddress, hnormal.toAddress?, hv, ha]

/-- The value is the text of an address in normal form. -/
def Value.IsAccount (v : Value) : Prop := ∃ a, v = .text a ∧ IsNormalAddress a

/-- An account is its own normal form. -/
theorem Value.IsAccount.eq_of_toAddress? {v : Value} (hv : v.IsAccount) {a : String}
    (h : v.toAddress? = some a) : v = .text a := by
  obtain ⟨b, rfl, hb⟩ := hv
  rw [hb.toAddress?, Option.some.injEq] at h
  rw [h]

/-- An account that is the same address as another is that one. -/
theorem Value.IsAccount.eq_of_sameAddress {v : Value} (hv : v.IsAccount) {a : String}
    (ha : IsNormalAddress a) (h : sameAddress v (.text a) = true) : v = .text a :=
  hv.eq_of_toAddress? ((sameAddress_text ha).mp h).2

end Proposals
