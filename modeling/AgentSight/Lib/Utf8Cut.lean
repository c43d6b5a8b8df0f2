import AgentSight.Lib.ByteOffsets

/-!
# Texts that are cut between bytes

The bytes of a text up to an offset are the bytes of a text exactly if the offset stands between two
characters (`decode_take`).
-/

namespace ByteOffsets

open List

def encode (text : List Char) : List UInt8 := text.flatMap String.utf8EncodeChar

/-- `String::from_utf8`. -/
def decode (bytes : List UInt8) : Option (List Char) :=
  (String.fromUTF8? bytes.toByteArray).map String.toList

variable {text front : List Char} {n : ℕ}

@[simp] theorem encode_nil : encode [] = [] := rfl

@[simp] theorem encode_append (front back : List Char) :
    encode (front ++ back) = encode front ++ encode back := flatMap_append

@[simp] theorem encode_cons (c : Char) (text : List Char) :
    encode (c :: text) = String.utf8EncodeChar c ++ encode text := rfl

@[simp] theorem length_encode (text : List Char) : (encode text).length = byteLength text := by
  induction text with
  | nil => rfl
  | cons c text ih => simp [ih]

theorem toByteArray_encode (text : List Char) :
    (encode text).toByteArray = (String.ofList text).toByteArray :=
  String.toByteArray_ofList.symm

@[simp] theorem decode_encode (text : List Char) : decode (encode text) = some text := by
  have hvalid : (encode text).toByteArray.IsValidUTF8 := by
    exact (String.ofList text).isValidUTF8
  have hstring : String.fromUTF8? (encode text).toByteArray = some (String.ofList text) := by
    unfold String.fromUTF8?
    rw [dif_pos hvalid, Option.some_inj, ← String.toByteArray_inj]
    exact toByteArray_encode text
  rw [decode, hstring, Option.map_some, String.toList_ofList]

theorem encode_of_decode {bytes : List UInt8} (h : decode bytes = some text) :
    bytes = encode text := by
  obtain ⟨s, hs, rfl⟩ := Option.map_eq_some_iff.mp h
  unfold String.fromUTF8? at hs
  split at hs
  · next hvalid =>
    cases hs
    rw [← toByteArray_inj, toByteArray_encode, String.ofList_toList]
    rfl
  · cases hs

theorem sliceTo_eq_some :
    sliceTo text n = some front ↔ ∃ back, text = front ++ back ∧ byteLength front = n := by
  constructor
  · intro h
    induction text generalizing n front with
    | nil =>
      cases n with
      | zero =>
        cases h
        exact ⟨[], rfl, rfl⟩
      | succ n => cases h
    | cons c text ih =>
      cases n with
      | zero =>
        cases h
        exact ⟨c :: text, rfl, rfl⟩
      | succ n =>
        rw [sliceTo] at h
        split at h
        · obtain ⟨front, hfront, rfl⟩ := Option.map_eq_some_iff.mp h
          obtain ⟨back, rfl, hlength⟩ := ih hfront
          refine ⟨back, rfl, ?_⟩
          rw [byteLength_cons]
          omega
        · cases h
  · rintro ⟨back, rfl, rfl⟩
    exact sliceTo_append front back

theorem byteLength_ofList (text : List Char) :
    (String.ofList text).utf8ByteSize = byteLength text := by
  rw [← String.size_toByteArray, ← toByteArray_encode, size_toByteArray, length_encode]

/-- The bytes up to an offset are a text if the offset stands between two characters. -/
theorem decode_take (hn : n ≤ byteLength text) :
    decode ((encode text).take n) = sliceTo text n := by
  cases hslice : sliceTo text n with
  | some front =>
    obtain ⟨back, rfl, rfl⟩ := sliceTo_eq_some.mp hslice
    rw [encode_append, take_left' (length_encode front), decode_encode]
  | none =>
    cases hdecode : decode ((encode text).take n) with
    | none => rfl
    | some front =>
      have hfront := encode_of_decode hdecode
      have hvalid : String.Pos.Raw.IsValid (String.ofList text) ⟨n⟩ := by
        refine String.Pos.Raw.isValid_iff_isValidUTF8_extract_zero.mpr ⟨?_, ?_⟩
        · exact String.Pos.Raw.le_iff.mpr (hn.trans_eq (byteLength_ofList text).symm)
        · have hextract : (String.ofList text).toByteArray.extract 0 n =
              (String.ofList front).toByteArray := by
            have hlength : n = ((encode text).take n).toByteArray.size := by simp [hn]
            rw [← toByteArray_encode, ← toByteArray_encode, ← hfront]
            conv_lhs => rw [← take_append_drop n (encode text), toByteArray_append]
            exact ByteArray.extract_append_eq_left hlength
          rw [hextract]
          exact (String.ofList front).isValidUTF8
      obtain ⟨i, hi⟩ := String.Pos.Raw.isValid_ofList.mp hvalid
      rw [byteLength_ofList] at hi
      have hsome : sliceTo text n = some (text.take i) :=
        sliceTo_eq_some.mpr ⟨text.drop i, (take_append_drop i text).symm, hi.symm⟩
      rw [hslice] at hsome
      cases hsome

end ByteOffsets
