import Proposals.Abi.Arguments
import Proposals.Proofs.Abi.Signature
import Proposals.Proofs.Address

/-!
# `Proofs.Abi.Arguments` — what strict decoding accepts

Calldata are decoded only if encoding the result gives them back, so a decoded call can be written again
without any knowledge of the layout: the arguments encode to the calldata in small letters. The case of
the digits is all that is lost, and neither reading the signature again in canonical form nor reading the
calldata again in small letters changes the call (`decodeCall_sound`).
-/

namespace Proposals.Abi

open Proposals.Text Proposals.Number Proposals.Outcome AbiType

/-- Calldata with small letters. -/
def lowerHex (calldata : String) : String := String.ofList (lowerAscii calldata.toList)

/-! ## Calldata -/

theorem typeOf_text_eq_ok {s : String} {t : AbiType} :
    typeOf (.text s) = .ok t ↔ read s.toList = .ok t := by
  cases hread : read s.toList with
  | ok u => simp only [typeOf, hread, Except.ok.injEq]
  | error fault => cases fault <;> simp [typeOf, hread]

/-- Calldata hold the bytes that their digits write. -/
theorem calldataBytes_sound {v : Value} {data : List UInt8} (h : calldataBytes v = .ok data) :
    ∃ c, v = .text c ∧ (lowerHex c).toList = bytesToHex data ∧
      calldataBytes (.text (lowerHex c)) = .ok data := by
  unfold calldataBytes at h
  split at h
  · next c =>
    split at h
    · next hmark =>
      split at h
      · next bs hbs =>
        cases h
        -- behind the mark only the case of the digits changes, and it is not read
        obtain ⟨digits, hdigits⟩ := List.isPrefixOf_iff_prefix.mp hmark
        have hc : c.toList = '0' :: 'x' :: digits := hdigits.symm
        rw [hc] at hbs
        have hlower : (lowerHex c).toList = '0' :: 'x' :: lowerAscii digits := by
          unfold lowerHex
          rw [String.toList_ofList, hc]; rfl
        have hread : hexToBytes? (lowerHex c).toList = some data := by
          rw [hlower]
          exact (decodeHex?_lowerAscii digits).trans hbs
        refine ⟨c, rfl, ?_, ?_⟩
        · rw [hlower, bytesToHex, encodeHex_of_decodeHex? hbs]; rfl
        · have hmarked : "0x".toList.isPrefixOf (lowerHex c).toList = true := by rw [hlower]; rfl
          simp only [calldataBytes, hmarked, hread, if_true]
      · exact absurd h (by simp)
    · exact absurd h (by simp)
  · exact absurd h (by simp)

/-- The written form of bytes is read as calldata. -/
theorem calldataBytes_bytesToHex (bs : List UInt8) :
    calldataBytes (.text (String.ofList (bytesToHex bs))) = .ok bs := by
  have hmarked : "0x".toList.isPrefixOf (bytesToHex bs) = true := rfl
  have hread : hexToBytes? (bytesToHex bs) = some bs := decodeHex?_encodeHex bs
  simp only [calldataBytes, String.toList_ofList, hmarked, hread, if_true]

theorem ofTypes?_of_decodeValues {names : List String} {types : List AbiType} {data : List UInt8}
    {vs : List Value} (h : decodeValues names types data = .ok vs) :
    ∃ coders, Coder.ofTypes? types = some coders ∧ Coder.decodeAll coders data = .ok vs := by
  unfold decodeValues at h
  split at h
  · exact absurd h (by simp)
  · next coders hcoders =>
    refine ⟨coders, hcoders, ?_⟩
    split at h
    · cases h; assumption
    all_goals exact absurd h (by simp)

/-- **Decoded arguments encode to the calldata** in small letters, from which they are decoded
    again. -/
theorem decodeArguments_sound {types : List Value} {v : Value} {vs : List Value}
    (h : decodeArguments types v = .ok vs) :
    ∃ c abiTypes coders data, v = .text c ∧ types.mapM typeOf = .ok abiTypes ∧
      Coder.ofTypes? abiTypes = some coders ∧ Coder.decodeAll coders data = .ok vs ∧
      encodeArguments types vs = .ok (lowerHex c) ∧
      decodeArguments types (.text (lowerHex c)) = .ok vs := by
  unfold decodeArguments at h
  obtain ⟨abiTypes, htypes, h⟩ := bind_eq_ok.mp h
  obtain ⟨data, hdata, h⟩ := bind_eq_ok.mp h
  obtain ⟨ws, hws, h⟩ := bind_eq_ok.mp h
  obtain ⟨again, hagain, h⟩ := bind_eq_ok.mp h
  split at h
  · next hsame =>
    rw [pure_eq_ok, Except.ok.injEq] at h
    subst h
    obtain ⟨c, rfl, hlower, hread⟩ := calldataBytes_sound hdata
    obtain ⟨coders, hcoders, hvs⟩ := ofTypes?_of_decodeValues hws
    have hc : again = lowerHex c := String.toList_injective (hsame.trans hlower.symm)
    subst hc
    -- strict decoding has compared the encoding already, and compares it again below
    refine ⟨c, abiTypes, coders, data, rfl, htypes, hcoders, hvs, hagain, ?_⟩
    unfold decodeArguments
    simp only [htypes, hread, hws, hagain, ok_bind]
    exact if_pos hlower
  · exact absurd h (by simp)

/-! ## Calls -/

theorem isCoded_of_ofTypes? {s : Signature} {abiTypes : List AbiType} {coders : List Coder}
    (htypes : (s.types.map Value.text).mapM typeOf = .ok abiTypes)
    (hcoders : Coder.ofTypes? abiTypes = some coders) : s.IsCoded := by
  intro type htype
  obtain ⟨t, ht, hread⟩ := exists_mapM_of_mem htypes (List.mem_map_of_mem htype)
  exact ⟨t, typeOf_text_eq_ok.mp hread, hasCoder_of_mem hcoders ht⟩

/-- **A decoded call in normal form**: it is decoded again from the canonical signature and the
    calldata in small letters, and its arguments encode to the latter. -/
theorem decodeCall_sound {signature calldata : Value} {call : DecodedCall}
    (h : decodeCall signature calldata = .ok call) :
    ∃ c, calldata = .text c ∧ signatureOf signature = .ok ⟨call.name, call.types⟩ ∧
      parseSignature (Signature.text ⟨call.name, call.types⟩) = .ok ⟨call.name, call.types⟩ ∧
      encodeArguments (call.types.map .text) call.inputs = .ok (lowerHex c) ∧
      decodeCall (.text (Signature.text ⟨call.name, call.types⟩)) (.text (lowerHex c)) = .ok call := by
  unfold decodeCall at h
  obtain ⟨s, hs, h⟩ := bind_eq_ok.mp h
  obtain ⟨vs, hvs, h⟩ := bind_eq_ok.mp h
  rw [pure_eq_ok, Except.ok.injEq] at h
  subst h
  obtain ⟨c, abiTypes, coders, data, rfl, htypes, hcoders, -, hencode, hagain⟩ :=
    decodeArguments_sound hvs
  have htext : parseSignature s.text = .ok s := by
    cases signature with
    | text signature => exact parseSignature_text hs (isCoded_of_ofTypes? htypes hcoders)
    | _ => exact absurd hs (by simp [signatureOf])
  refine ⟨c, rfl, hs, htext, hencode, ?_⟩
  have hsignature : signatureOf (.text s.text) = .ok s := htext
  unfold decodeCall
  simp only [hsignature, hagain, ok_bind, pure_eq_ok]

end Proposals.Abi
