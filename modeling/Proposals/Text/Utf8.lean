/-!
# `Proposals.Text.Utf8` — texts as bytes

## Contents
- `utf8Bytes`, `ofUtf8?`: the bytes of a text, and the text that bytes write, if they write one.
- `dropOrderMark`: a text without the mark that may open it.
- `ofUtf8?_utf8Bytes`, `utf8Bytes_of_ofUtf8?`: each undoes the other.
-/

namespace Proposals.Text

/-- The bytes of a text. -/
def utf8Bytes (s : String) : List UInt8 := s.toUTF8.data.toList

/-- The text that the bytes write. -/
def ofUtf8? (bs : List UInt8) : Option String := String.fromUTF8? bs.toByteArray

/-- The mark that may open a text to tell the order of its bytes. -/
def orderMark : Char := Char.ofNat 0xfeff

/-- The text without one mark in front. -/
def dropOrderMark (cs : List Char) : List Char :=
  if cs.head? == some orderMark then cs.drop 1 else cs

/-- A byte array is determined by its list of bytes. -/
theorem toByteArray_data_toList (b : ByteArray) : b.data.toList.toByteArray = b := by
  apply ByteArray.ext
  rw [List.data_toByteArray, Array.toArray_toList]

theorem ofUtf8?_utf8Bytes (s : String) : ofUtf8? (utf8Bytes s) = some s := by
  unfold ofUtf8? utf8Bytes
  rw [toByteArray_data_toList]
  unfold String.fromUTF8?
  rw [String.toUTF8_eq_toByteArray, dif_pos s.isValidUTF8]
  rfl

theorem utf8Bytes_of_ofUtf8? {bs : List UInt8} {s : String} (h : ofUtf8? bs = some s) :
    utf8Bytes s = bs := by
  unfold ofUtf8? String.fromUTF8? at h
  split at h
  · rw [Option.some.injEq] at h
    subst h
    show bs.toByteArray.data.toList = bs
    rw [List.data_toByteArray]
  · contradiction

end Proposals.Text
