import Proposals.Abi.Word
import Mathlib.Data.List.Induction

/-!
# `Proofs.Abi.Word` — numbers and words

Writing a number most significant byte first and reading it back are inverse: on numbers that fit into
the width (`ofBigEndian_bigEndian`) and on all bytes (`bigEndian_ofBigEndian`).
-/

namespace Proposals.Abi

open Proposals.Number

theorem ofBigEndian_append_singleton (bs : List UInt8) (b : UInt8) :
    ofBigEndian (bs ++ [b]) = 256 * ofBigEndian bs + b.toNat := by
  unfold ofBigEndian
  rw [List.foldl_append]; rfl

/-- One byte more multiplies the limit by 256. -/
theorem twoTo_byte (n : Nat) : twoTo (8 * (n + 1)) = 256 * twoTo (8 * n) := by
  show Nat.pow 2 (8 * n + 8) = 256 * Nat.pow 2 (8 * n)
  exact (Nat.pow_add 2 (8 * n) 8).trans (Nat.mul_comm _ 256)

theorem ofBigEndian_lt (bs : List UInt8) : ofBigEndian bs < twoTo (8 * bs.length) := by
  induction bs using List.reverseRecOn with
  | nil => exact Nat.one_pos
  | append_singleton bs b ih =>
    have hb : b.toNat < 256 := b.toNat_lt
    rw [ofBigEndian_append_singleton, List.length_append, List.length_singleton, twoTo_byte]
    omega

theorem ofBigEndian_bigEndian (width n : Nat) :
    ofBigEndian (bigEndian width n) = n % twoTo (8 * width) := by
  induction width generalizing n with
  | zero => exact (Nat.mod_one n).symm
  | succ width ih =>
    have hlast : (UInt8.ofNat (n % 256)).toNat = n % 256 :=
      UInt8.toNat_ofNat_of_lt' (Nat.mod_lt n (by decide))
    rw [bigEndian, ofBigEndian_append_singleton, ih, hlast, twoTo_byte, Nat.mod_mul, Nat.add_comm]

theorem bigEndian_ofBigEndian (bs : List UInt8) : bigEndian bs.length (ofBigEndian bs) = bs := by
  induction bs using List.reverseRecOn with
  | nil => rfl
  | append_singleton bs b ih =>
    have hb : b.toNat < 256 := b.toNat_lt
    rw [ofBigEndian_append_singleton, List.length_append, List.length_singleton, bigEndian,
      show (256 * ofBigEndian bs + b.toNat) / 256 = ofBigEndian bs by omega,
      show (256 * ofBigEndian bs + b.toNat) % 256 = b.toNat by omega, ih, UInt8.ofNat_toNat]

theorem ofBigEndian_zeros_append (count : Nat) (bs : List UInt8) :
    ofBigEndian (List.replicate count 0 ++ bs) = ofBigEndian bs := by
  unfold ofBigEndian
  rw [List.foldl_append]
  refine congrArg (List.foldl _ · bs) ?_
  induction count with
  | zero => rfl
  | succ count ih => rw [List.replicate_succ, List.foldl_cons]; exact ih

theorem ofBigEndian_word {n : Nat} (h : n < twoTo 256) : ofBigEndian (word n) = n := by
  rw [word, ofBigEndian_bigEndian]
  exact Nat.mod_eq_of_lt h

theorem word_ofBigEndian {bs : List UInt8} (h : bs.length = 32) : word (ofBigEndian bs) = bs := by
  have hback := bigEndian_ofBigEndian bs
  rw [h] at hback
  exact hback

/-- The word that stands at a place is found there. -/
theorem wordAt?_append (before : List UInt8) {bs : List UInt8} (hbs : bs.length = 32)
    (after : List UInt8) :
    wordAt? (before ++ (bs ++ after)) before.length = some (ofBigEndian bs) := by
  have htake : ((before ++ (bs ++ after)).drop before.length).take 32 = bs := by
    rw [List.drop_left, ← hbs, List.take_left]
  simp only [wordAt?, bytesAt?, htake, hbs, if_true, Option.map_some]

end Proposals.Abi
