import AgentSight.Lib.BigEndian
import Mathlib.Data.List.Basic

/-!
# Masked WebSocket frames

`parse_masked_websocket_frame` of `analyzers/http_parser.rs`: bytes are accepted if they are one
final text or binary frame of a client, and its payload is unmasked. The only sum that the source
does not check is an outcome of its own where it does not fit a word, so that the proofs show that
it fits.
-/

namespace AgentSight.Http

open BigEndian List Option

/-- `bytes.get(start..end_)`. -/
def getRange (bytes : List UInt8) (start end_ : ℕ) : Option (List UInt8) :=
  if start ≤ end_ ∧ end_ ≤ bytes.length then some ((bytes.take end_).drop start) else none

/-- `usize::checked_add`. -/
def checkedAdd (a b : ℕ) : Option ℕ := if a + b < 2 ^ 64 then some (a + b) else none

/-- The sum of two words, where a sum that is too large is a panic. -/
def addWords (a b : ℕ) : Except Unit ℕ := if a + b < 2 ^ 64 then .ok (a + b) else .error ()

/-- The first byte of a final text or binary frame, which may be compressed. -/
def acceptsOpcode (first : UInt8) : Bool :=
  first &&& 0x80 != 0 && first &&& 0x30 == 0 && (first &&& 0x0f == 1 || first &&& 0x0f == 2)

/-- The payload length and where the mask is. -/
def payloadLength (bytes : List UInt8) (second : UInt8) : Option (ℕ × ℕ) :=
  if second &&& 0x7f = 126 then (getRange bytes 2 4).map fun word => (ofBytes word, 4)
  else if second &&& 0x7f = 127 then (getRange bytes 2 10).map fun word => (ofBytes word, 10)
  else some ((second &&& 0x7f).toNat, 2)

def unmask (mask payload : List UInt8) : List UInt8 :=
  payload.mapIdx fun i byte => byte ^^^ mask.getD (i % 4) 0

/-- Whether the payload is compressed, and the payload. -/
def parseMaskedWebsocketFrame (bytes : List UInt8) : Except Unit (Option (Bool × List UInt8)) :=
  match bytes with
  | first :: second :: _ =>
    if !acceptsOpcode first || second &&& 0x80 == 0 then .ok none
    else
      match payloadLength bytes second with
      | none => .ok none
      | some (payloadLen, offset) =>
        match getRange bytes offset (offset + 4) with
        | none => .ok none
        | some mask =>
          match (checkedAdd (offset + 4) payloadLen).bind (getRange bytes (offset + 4)) with
          | none => .ok none
          | some payload =>
            (addWords (offset + 4) payloadLen).map fun frameEnd =>
              if frameEnd ≠ bytes.length then none
              else some (first &&& 0x40 != 0, unmask mask payload)
  | _ => .ok none

/-! ### The frames of a client -/

/-- The three ways to write a length. -/
inductive LengthForm where
  | inline
  | word16
  | word64

namespace LengthForm

def Fits : LengthForm → ℕ → Prop
  | .inline, n => n < 126
  | .word16, n => n < 2 ^ 16
  | .word64, n => n < 2 ^ 64

/-- The second byte of a frame with a mask. -/
def second : LengthForm → ℕ → UInt8
  | .inline, n => UInt8.ofNat (0x80 + n)
  | .word16, _ => 0xFE
  | .word64, _ => 0xFF

/-- The bytes of the length after the second one. -/
def extension : LengthForm → ℕ → List UInt8
  | .inline, _ => []
  | .word16, n => toBytes 2 n
  | .word64, n => toBytes 8 n

end LengthForm

def encodeMaskedWebsocketFrame (first : UInt8) (form : LengthForm) (mask payload : List UInt8) :
    List UInt8 :=
  first :: form.second payload.length ::
    (form.extension payload.length ++ (mask ++ unmask mask payload))

variable {bytes mask payload : List UInt8} {first : UInt8} {form : LengthForm} {n start end_ : ℕ}

/-! ### Ranges -/

theorem getRange_middle (front middle rest : List UInt8) :
    getRange (front ++ (middle ++ rest)) front.length (front.length + middle.length) =
      some middle := by
  rw [getRange, if_pos (by simp only [length_append]; omega), take_length_add_append,
    drop_left, take_left]

theorem getRange_eq_none (h : bytes.length < end_) : getRange bytes start end_ = none :=
  if_neg fun hin => by omega

/-- What is cut off behind a range does not change it, and a range that is cut is none. -/
theorem getRange_take (n : ℕ) :
    getRange (bytes.take n) start end_ = if end_ ≤ n then getRange bytes start end_ else none := by
  rw [getRange, length_take]
  by_cases hn : end_ ≤ n
  · rw [if_pos hn, take_take, Nat.min_eq_left hn]
    refine if_congr ?_ rfl rfl
    omega
  · rw [if_neg hn, if_neg (by omega)]

/-! ### Masks -/

theorem unmask_unmask (mask payload : List UInt8) :
    unmask mask (unmask mask payload) = payload := by
  refine ext_getElem? fun i => ?_
  rw [unmask, unmask, getElem?_mapIdx, getElem?_mapIdx]
  cases payload[i]? with
  | none => rfl
  | some byte => simp only [map_some, UInt8.xor_assoc, UInt8.xor_self, UInt8.xor_zero]

theorem length_unmask (mask payload : List UInt8) : (unmask mask payload).length = payload.length :=
  length_mapIdx

/-! ### Lengths -/

theorem second_inline (h : n < 126) : LengthForm.inline.second n &&& 0x80 ≠ 0 ∧
      LengthForm.inline.second n &&& 0x7f = UInt8.ofNat n := by
  have hall : ∀ n < 126, (UInt8.ofNat (0x80 + n)) &&& 0x80 ≠ 0 ∧
      (UInt8.ofNat (0x80 + n)) &&& 0x7f = UInt8.ofNat n := by decide
  exact hall n h

theorem second_masked (h : form.Fits n) : form.second n &&& 0x80 ≠ 0 := by
  cases form with
  | inline => exact (second_inline h).1
  | word16 => exact show 0xFE &&& 0x80 ≠ 0 by decide
  | word64 => exact show 0xFF &&& 0x80 ≠ 0 by decide

/-- The length is read where it was written, whatever is after it. -/
theorem payloadLength_extension (h : form.Fits n) (rest : List UInt8) :
    payloadLength (first :: form.second n :: (form.extension n ++ rest)) (form.second n) =
      some (n, 2 + (form.extension n).length) := by
  have hrange second k rest :
      getRange (first :: second :: (toBytes k n ++ rest)) 2 (2 + k) = some (toBytes k n) := by
    have hmiddle := getRange_middle [first, second] (toBytes k n) rest
    rw [length_toBytes] at hmiddle
    exact hmiddle
  cases form with
  | inline =>
    have hn : (UInt8.ofNat n).toNat = n := UInt8.toNat_ofNat_of_lt' (h.trans (by decide))
    have hne m (hm : 126 ≤ m.toNat) : UInt8.ofNat n ≠ m := by
      rintro rfl
      rw [hn] at hm
      exact absurd h (not_lt.mpr hm)
    rw [payloadLength, (second_inline h).2, if_neg (hne 126 (by decide)),
      if_neg (hne 127 (by decide)), hn]
    rfl
  | word16 =>
    have hn : n % 256 ^ 2 = n := Nat.mod_eq_of_lt h
    rw [LengthForm.second, LengthForm.extension, payloadLength, hrange _ 2,
      map_some, ofBytes_toBytes, hn]
    rfl
  | word64 =>
    have hn : n % 256 ^ 8 = n := Nat.mod_eq_of_lt h
    rw [LengthForm.second, LengthForm.extension, payloadLength, hrange _ 8, map_some,
      ofBytes_toBytes, hn]
    rfl

/-- A length that is cut off is none. -/
theorem payloadLength_take {second : UInt8} {offset m : ℕ}
    (h : payloadLength bytes second = some (n, offset)) (hm : 2 ≤ m) :
    payloadLength (bytes.take m) second = if offset ≤ m then some (n, offset) else none := by
  unfold payloadLength at h ⊢
  simp only [getRange_take]
  by_cases h126 : second &&& 0x7f = 126
  · rw [if_pos h126] at h ⊢
    obtain ⟨word, hword, heq⟩ := map_eq_some_iff.mp h
    cases heq
    split_ifs
    · exact h
    · rfl
  · rw [if_neg h126] at h ⊢
    by_cases h127 : second &&& 0x7f = 127
    · rw [if_pos h127] at h ⊢
      obtain ⟨word, hword, heq⟩ := map_eq_some_iff.mp h
      cases heq
      split_ifs
      · exact h
      · rfl
    · rw [if_neg h127] at h ⊢
      cases h
      rw [if_pos hm]

/-! ### Frames -/

/-- No length makes a sum that does not fit a word. -/
theorem parseMaskedWebsocketFrame_ne_error (bytes : List UInt8) :
    ∀ e, parseMaskedWebsocketFrame bytes ≠ .error e := by
  unfold parseMaskedWebsocketFrame
  split
  · split_ifs
    · nofun
    · split
      · nofun
      · next payloadLen offset _ =>
        split
        · nofun
        · split
          · nofun
          · next payload hpayload =>
            obtain ⟨sum, hsum, -⟩ := bind_eq_some_iff.mp hpayload
            unfold checkedAdd at hsum
            split_ifs at hsum with hfits
            rw [addWords, if_pos hfits]
            nofun
  · nofun

section Encoded

variable (hstart : acceptsOpcode first = true) (hfits : form.Fits payload.length)
  (hmask : mask.length = 4)
  (hmemory : (encodeMaskedWebsocketFrame first form mask payload).length < 2 ^ 63)

include hstart hfits hmask hmemory

/-- What the parser reads of a frame that other bytes come after. -/
theorem parseMaskedWebsocketFrame_append (rest : List UInt8) :
    parseMaskedWebsocketFrame (encodeMaskedWebsocketFrame first form mask payload ++ rest) =
      .ok (if rest = [] then some (first &&& 0x40 != 0, payload) else none) := by
  set extension := form.extension payload.length with hextension
  have hlength : (encodeMaskedWebsocketFrame first form mask payload).length =
      2 + extension.length + 4 + payload.length := by
    simp only [encodeMaskedWebsocketFrame, length_cons, length_append, length_unmask,
      hmask, ← hextension]
    omega
  have hbytes : encodeMaskedWebsocketFrame first form mask payload ++ rest =
      first :: form.second payload.length ::
        (extension ++ (mask ++ (unmask mask payload ++ rest))) := by
    simp [encodeMaskedWebsocketFrame, ← hextension]
  have hmaskRange := getRange_middle (first :: form.second payload.length :: extension) mask
    (unmask mask payload ++ rest)
  have hpayloadRange := getRange_middle (first :: form.second payload.length :: (extension ++ mask))
    (unmask mask payload) rest
  simp only [length_cons, length_append, hmask, length_unmask, cons_append,
    append_assoc] at hmaskRange hpayloadRange
  have hoffset : extension.length + 1 + 1 = 2 + extension.length := by omega
  have hoffset' : extension.length + 4 + 1 + 1 = 2 + extension.length + 4 := by omega
  have hsum : 2 + extension.length + 4 + payload.length < 2 ^ 64 := by omega
  rw [hoffset] at hmaskRange
  rw [hoffset'] at hpayloadRange
  rw [hbytes, parseMaskedWebsocketFrame, hstart, if_neg (by simpa using second_masked hfits),
    payloadLength_extension hfits]
  dsimp only
  rw [← hextension, hmaskRange]
  rw [checkedAdd, if_pos hsum, bind_some, hpayloadRange, addWords, if_pos hsum, ← hbytes,
    length_append, hlength]
  dsimp only [Except.map]
  rw [unmask_unmask]
  cases rest with
  | nil => simp
  | cons b rest => simp

/-- A frame that is cut off is none. -/
theorem parseMaskedWebsocketFrame_take {m : ℕ}
    (hm : m < (encodeMaskedWebsocketFrame first form mask payload).length) :
    parseMaskedWebsocketFrame ((encodeMaskedWebsocketFrame first form mask payload).take m) =
      .ok none := by
  have hlength : (encodeMaskedWebsocketFrame first form mask payload).length =
      2 + (form.extension payload.length).length + 4 + payload.length := by
    simp only [encodeMaskedWebsocketFrame, length_cons, length_append, length_unmask,
      hmask]
    omega
  have hoffset : payloadLength (encodeMaskedWebsocketFrame first form mask payload) _ = _ :=
    payloadLength_extension hfits (mask ++ unmask mask payload)
  match m with
  | 0 | 1 => rfl
  | m + 2 =>
    have htake := payloadLength_take hoffset (m := m + 2) (by omega)
    have hcut : (encodeMaskedWebsocketFrame first form mask payload).take (m + 2) =
        first :: form.second payload.length ::
          (form.extension payload.length ++ (mask ++ unmask mask payload)).take m := rfl
    rw [hcut, parseMaskedWebsocketFrame, ← hcut, hstart,
      if_neg (by simpa using second_masked hfits), htake]
    split_ifs with hle
    · dsimp only
      split
      · rfl
      · rw [checkedAdd, if_pos (by omega), bind_some, getRange_eq_none]
        rw [length_take]
        omega
    · rfl

/-- **A masked frame is read back, and nothing else is.** What is cut off and what has more bytes is
rejected, and no length that a frame declares makes a sum that does not fit. -/
theorem masked_websocket_frames :
    parseMaskedWebsocketFrame (encodeMaskedWebsocketFrame first form mask payload) =
        .ok (some (first &&& 0x40 != 0, payload)) ∧
      (∀ m < (encodeMaskedWebsocketFrame first form mask payload).length,
        parseMaskedWebsocketFrame ((encodeMaskedWebsocketFrame first form mask payload).take m) =
          .ok none) ∧
      (∀ rest ≠ [],
        parseMaskedWebsocketFrame (encodeMaskedWebsocketFrame first form mask payload ++ rest) =
          .ok none) ∧
      ∀ bytes e, parseMaskedWebsocketFrame bytes ≠ .error e := by
  have happend := parseMaskedWebsocketFrame_append hstart hfits hmask hmemory
  refine ⟨?_, fun m hm => parseMaskedWebsocketFrame_take hstart hfits hmask hmemory hm,
    fun rest hrest => ?_, parseMaskedWebsocketFrame_ne_error⟩
  · have hwhole := happend []
    rwa [append_nil] at hwhole
  · rw [happend rest, if_neg hrest]

end Encoded

/-- `Hello` in a compressed frame whose length is in eight bytes. -/
theorem masked_websocket_frames_hello :
    parseMaskedWebsocketFrame (encodeMaskedWebsocketFrame 0xC1 .word64 [0x37, 0xFA, 0x21, 0x3D]
        [0x48, 0x65, 0x6C, 0x6C, 0x6F]) =
      .ok (some (true, [0x48, 0x65, 0x6C, 0x6C, 0x6F])) :=
  have hfits : LengthForm.word64.Fits 5 := show 5 < 2 ^ 64 by decide
  (masked_websocket_frames (by decide) hfits rfl (by decide)).1

end AgentSight.Http
