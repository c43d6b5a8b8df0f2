import AgentSight.Http.Frame
import AgentSight.Lib.BigEndian
import Mathlib.Data.List.Basic

/-!
# The HTTP/2 frame codec

The encoding of a frame, and that `parse_http2_frames` reads back what is encoded, frame by frame,
and accepts nothing but encoded frames. The payload functions take off what padding and priority
fields put around a fragment.
-/

namespace AgentSight.Http

open BigEndian List HTTP2Frame

/-! ### Frames on the wire -/

namespace HTTP2Frame

structure IsWellFormed (frame : HTTP2Frame) : Prop where
  length_lt : frame.payload.length < 2 ^ 24
  streamId_lt : frame.streamId < 2 ^ 31

/-- The types that the parser keeps. -/
def isKnown (frame : HTTP2Frame) : Bool := frame.frameType ≤ 0x9

/-- The nine bytes before the payload, with the reserved bit. -/
def header (reserved : Bool) (frame : HTTP2Frame) : List UInt8 :=
  toBytes 3 frame.payload.length ++ frame.frameType :: frame.flags ::
    toBytes 4 (frame.streamId + if reserved then 2 ^ 31 else 0)

def encode (reserved : Bool) (frame : HTTP2Frame) : List UInt8 :=
  frame.header reserved ++ frame.payload

end HTTP2Frame

def encodeFrames (frames : List (Bool × HTTP2Frame)) : List UInt8 :=
  frames.flatMap fun (reserved, frame) => frame.encode reserved

def startOf (withPreface : Bool) : List UInt8 := if withPreface then preface else []

variable {frame : HTTP2Frame} {reserved : Bool} {frames : List (Bool × HTTP2Frame)}
  {bytes rest : List UInt8} {n fuel : ℕ}

theorem length_header (reserved : Bool) (frame : HTTP2Frame) :
    (frame.header reserved).length = 9 := by
  simp [header, length_append, length_cons, length_toBytes]

theorem length_encode (reserved : Bool) (frame : HTTP2Frame) :
    (frame.encode reserved).length = 9 + frame.payload.length := by
  rw [encode, length_append, length_header]

/-! ### Words -/

theorem toNat_length (a b c : UInt8) :
    a.toNat <<< 16 ||| b.toNat <<< 8 ||| c.toNat = ofBytes [a, b, c] := by
  have hb := b.toNat_lt
  have hc := c.toNat_lt
  rw [Nat.or_assoc, ← Nat.shiftLeft_add_eq_or_of_lt hc, ← Nat.shiftLeft_add_eq_or_of_lt]
  · simp only [ofBytes, continued, List.foldl, Nat.shiftLeft_eq]
    ring
  · omega

theorem toNat_streamId (a b c d : UInt8) :
    (a &&& 0x7f).toNat <<< 24 ||| b.toNat <<< 16 ||| c.toNat <<< 8 ||| d.toNat =
      ofBytes [a, b, c, d] % 2 ^ 31 := by
  have ha : (a &&& 0x7f).toNat = a.toNat % 128 := by
    exact Nat.and_two_pow_sub_one_eq_mod _ 7
  have hb := b.toNat_lt
  have hc := c.toNat_lt
  have hd := d.toNat_lt
  rw [Nat.or_assoc, Nat.or_assoc, ← Nat.or_assoc (b.toNat <<< 16), toNat_length,
    ← Nat.shiftLeft_add_eq_or_of_lt]
  · simp only [ofBytes, continued, List.foldl, Nat.shiftLeft_eq]
    omega
  · exact (ofBytes_lt [b, c, d]).trans_eq (by norm_num)

/-! ### The loop -/

/-- The loop has fuel enough, whatever is left of it. -/
theorem parseFrames_congr (fuel fuel' : ℕ) (bytes : List UInt8) (h : bytes.length ≤ fuel)
    (h' : bytes.length ≤ fuel') : parseFrames fuel bytes = parseFrames fuel' bytes := by
  induction fuel generalizing fuel' bytes with
  | zero =>
    obtain rfl := length_eq_zero_iff.mp (Nat.le_zero.mp h)
    cases fuel' <;> rfl
  | succ fuel ih =>
    match bytes, fuel' with
    | [], 0 => rfl
    | [], _ + 1 => rfl
    | _ :: _, 0 => exact absurd h' (by simp)
    | l₀ :: l₁ :: l₂ :: frameType :: flags :: s₀ :: s₁ :: s₂ :: s₃ :: rest, fuel' + 1 =>
      simp only [length_cons] at h h'
      rw [parseFrames, parseFrames, ih fuel' _ _ _]
      · rw [length_drop]
        omega
      · rw [length_drop]
        omega
    | [_], _ + 1 | [_, _], _ + 1 | [_, _, _], _ + 1 | [_, _, _, _], _ + 1 => rfl
    | [_, _, _, _, _], _ + 1 | [_, _, _, _, _, _], _ + 1 => rfl
    | [_, _, _, _, _, _, _], _ + 1 | [_, _, _, _, _, _, _, _], _ + 1 => rfl

/-- What the loop returns of a text that is all there is. -/
def framesOf (bytes : List UInt8) : Option (List HTTP2Frame) := parseFrames bytes.length bytes

/-- The header of a frame, by the number that its words are. -/
theorem framesOf_header (length : List UInt8) (hlength : length.length = 3)
    (frameType flags : UInt8) (streamId : List UInt8) (hstreamId : streamId.length = 4)
    (rest : List UInt8) :
    framesOf (length ++ frameType :: flags :: (streamId ++ rest)) =
      if rest.length < ofBytes length then none
      else
        if 0x9 < frameType then framesOf (rest.drop (ofBytes length))
        else (framesOf (rest.drop (ofBytes length))).map
          ({ frameType, flags, streamId := ofBytes streamId % 2 ^ 31
             payload := rest.take (ofBytes length) } :: ·) := by
  obtain ⟨l₀, l₁, l₂, rfl⟩ := length_eq_three.mp hlength
  match streamId, hstreamId with
  | [s₀, s₁, s₂, s₃], _ =>
    rw [framesOf]
    simp only [cons_append, nil_append, length_cons]
    rw [parseFrames, toNat_length, toNat_streamId]
    rw [parseFrames_congr _ (rest.drop (ofBytes [l₀, l₁, l₂])).length _ _ le_rfl]
    · rfl
    · rw [length_drop]
      omega

/-- What the loop makes of the bytes behind a header. -/
theorem framesOf_header_append (h : frame.IsWellFormed) (reserved : Bool) (rest : List UInt8) :
    framesOf (frame.header reserved ++ rest) =
      if rest.length < frame.payload.length then none
      else
        if frame.isKnown then (framesOf (rest.drop frame.payload.length)).map
          ({ frame with payload := rest.take frame.payload.length } :: ·)
        else framesOf (rest.drop frame.payload.length) := by
  have hlength : ofBytes (toBytes 3 frame.payload.length) = frame.payload.length :=
    (ofBytes_toBytes _ _).trans (Nat.mod_eq_of_lt h.length_lt)
  have hstreamId : ofBytes (toBytes 4 (frame.streamId + if reserved then 2 ^ 31 else 0)) % 2 ^ 31 =
      frame.streamId := by
    have hlt := h.streamId_lt
    rw [ofBytes_toBytes]
    split_ifs <;> omega
  have hheader := framesOf_header _ (length_toBytes 3 frame.payload.length) frame.frameType
    frame.flags _ (length_toBytes 4 (frame.streamId + if reserved then 2 ^ 31 else 0)) rest
  rw [hlength, hstreamId] at hheader
  simp only [header, append_assoc, cons_append]
  rw [hheader, isKnown]
  refine if_congr Iff.rfl rfl ?_
  by_cases hknown : frame.frameType ≤ 0x9
  · rw [if_neg (UInt8.not_lt.mpr hknown), if_pos (decide_eq_true hknown)]
  · rw [if_pos (UInt8.not_le.mp hknown), if_neg (by simpa using hknown)]

/-- A frame is read, or left out, and the loop goes on behind it. -/
theorem framesOf_encode (h : frame.IsWellFormed) (reserved : Bool) (rest : List UInt8) :
    framesOf (frame.encode reserved ++ rest) =
      if frame.isKnown then (framesOf rest).map (frame :: ·) else framesOf rest := by
  rw [encode, append_assoc, framesOf_header_append h, if_neg, drop_left,
    take_left]
  rw [length_append]
  omega

/-- The frames that are kept, and then those of what is behind the encoding. -/
theorem framesOf_encodeFrames (h : ∀ item ∈ frames, item.2.IsWellFormed) (rest : List UInt8) :
    framesOf (encodeFrames frames ++ rest) =
      (framesOf rest).map ((frames.map Prod.snd).filter HTTP2Frame.isKnown ++ ·) := by
  induction frames with
  | nil => exact (Option.map_id_apply (x := framesOf rest)).symm
  | cons item frames ih =>
    obtain ⟨reserved, frame⟩ := item
    rw [forall_mem_cons] at h
    have hcons : encodeFrames ((reserved, frame) :: frames) =
        frame.encode reserved ++ encodeFrames frames := rfl
    rw [hcons, append_assoc, framesOf_encode h.1, ih h.2, map_cons]
    split_ifs with hknown
    · rw [filter_cons_of_pos hknown, Option.map_map]
      rfl
    · rw [filter_cons_of_neg hknown]

/-- Less than a header is none. -/
theorem framesOf_short (hne : bytes ≠ []) (h : bytes.length < 9) : framesOf bytes = none := by
  match bytes with
  | [] => exact absurd rfl hne
  | [_] | [_, _] | [_, _, _] | [_, _, _, _] => rfl
  | [_, _, _, _, _] | [_, _, _, _, _, _] => rfl
  | [_, _, _, _, _, _, _] | [_, _, _, _, _, _, _, _] => rfl
  | _ :: _ :: _ :: _ :: _ :: _ :: _ :: _ :: _ :: rest =>
    simp only [length_cons] at h
    omega

/-- What is cut off within a frame is none. -/
theorem framesOf_take (h : frame.IsWellFormed) (reserved : Bool) (hpos : 0 < n)
    (hn : n < (frame.encode reserved).length) :
    framesOf ((frame.encode reserved).take n) = none := by
  have hlength := length_encode reserved frame
  obtain hshort | hlong := lt_or_ge n 9
  · refine framesOf_short (fun hnil => ?_) ?_
    · rw [take_eq_nil_iff] at hnil
      rcases hnil with rfl | hnil
      · exact lt_irrefl _ hpos
      · rw [hnil] at hlength
        simp only [length_nil] at hlength
        omega
    · rw [length_take]
      omega
  · obtain ⟨m, rfl⟩ := Nat.exists_eq_add_of_le hlong
    rw [encode, ← length_header reserved frame, take_length_add_append,
      framesOf_header_append h, if_pos]
    rw [length_take]
    omega

/-- What is accepted starts with a frame. -/
theorem exists_encode (hne : bytes ≠ []) (h : framesOf bytes ≠ none) :
    ∃ (reserved : Bool) (frame : HTTP2Frame) (rest : List UInt8),
      frame.IsWellFormed ∧ bytes = frame.encode reserved ++ rest := by
  obtain hshort | hlong := lt_or_ge bytes.length 9
  · exact absurd (framesOf_short hne hshort) h
  match bytes, hlong with
  | l₀ :: l₁ :: l₂ :: frameType :: flags :: s₀ :: s₁ :: s₂ :: s₃ :: rest, _ =>
    have hheader := framesOf_header [l₀, l₁, l₂] rfl frameType flags [s₀, s₁, s₂, s₃] rfl rest
    simp only [cons_append, nil_append] at hheader
    rw [hheader] at h
    have hroom : ¬rest.length < ofBytes [l₀, l₁, l₂] := fun hroom => h (if_pos hroom)
    have hlength : (rest.take (ofBytes [l₀, l₁, l₂])).length = ofBytes [l₀, l₁, l₂] := by
      rw [length_take]
      omega
    have hwords := ofBytes_lt [s₀, s₁, s₂, s₃]
    have hthree : toBytes 3 (ofBytes [l₀, l₁, l₂]) = [l₀, l₁, l₂] := toBytes_ofBytes [l₀, l₁, l₂]
    have hfour : toBytes 4 (ofBytes [s₀, s₁, s₂, s₃]) = [s₀, s₁, s₂, s₃] :=
      toBytes_ofBytes [s₀, s₁, s₂, s₃]
    set streamId := ofBytes [s₀, s₁, s₂, s₃] with hstreamId
    have hword : (streamId % 2 ^ 31 + if decide (2 ^ 31 ≤ streamId) then 2 ^ 31 else 0) =
        streamId := by
      have hlt : streamId < 2 ^ 32 := hwords.trans_eq (by norm_num)
      simp only [decide_eq_true_eq]
      split_ifs <;> omega
    refine ⟨2 ^ 31 ≤ streamId, { frameType, flags, streamId := streamId % 2 ^ 31
                                 payload := rest.take (ofBytes [l₀, l₁, l₂]) },
      rest.drop (ofBytes [l₀, l₁, l₂]), ⟨?_, Nat.mod_lt _ (by norm_num)⟩, ?_⟩
    · rw [hlength]
      exact (ofBytes_lt [l₀, l₁, l₂]).trans_eq (by norm_num)
    · rw [encode, header, hlength, hthree, hword, hfour, append_assoc,
        take_append_drop]
      rfl

/-- Only encoded frames are accepted. -/
theorem framesOf_eq_some {kept : List HTTP2Frame} (h : framesOf bytes = some kept) :
    ∃ items, (∀ item ∈ items, item.2.IsWellFormed) ∧
      bytes = encodeFrames items ∧ kept = (items.map Prod.snd).filter HTTP2Frame.isKnown := by
  induction hlength : bytes.length using Nat.strong_induction_on generalizing bytes kept with
  | _ length ih =>
    by_cases hnil : bytes = []
    · subst hnil
      cases h
      exact ⟨[], by simp, rfl, rfl⟩
    obtain ⟨reserved, frame, rest, hframe, rfl⟩ :=
      exists_encode hnil (by rw [h]; exact Option.some_ne_none _)
    have hrest : rest.length < length := by
      rw [← hlength, length_append, length_encode]
      omega
    rw [framesOf_encode hframe] at h
    obtain ⟨kept', hkept', hkept⟩ : ∃ kept', framesOf rest = some kept' ∧
        kept = if frame.isKnown then frame :: kept' else kept' := by
      split_ifs at h ⊢
      · obtain ⟨kept', hkept', rfl⟩ := Option.map_eq_some_iff.mp h
        exact ⟨kept', hkept', rfl⟩
      · exact ⟨kept, h, rfl⟩
    obtain ⟨items, hitems, rfl, rfl⟩ := ih _ hrest hkept' rfl
    refine ⟨(reserved, frame) :: items, forall_mem_cons.mpr ⟨hframe, hitems⟩, rfl, ?_⟩
    rw [hkept, map_cons, filter_cons]

/-! ### The preface -/

/-- The preface is no part of a frame of a known type. -/
theorem not_preface_prefix (h : frame.isKnown = true) (reserved : Bool) (rest : List UInt8) :
    ¬preface <+: frame.encode reserved ++ rest := by
  rintro ⟨tail, htail⟩
  have htype := congrArg (·[3]?) htail
  rw [isKnown, ← Option.some_inj.mp htype] at h
  exact absurd h (by decide)

theorem parseHttp2Frames_start {withPreface : Bool} (h : withPreface = true ∨ ¬preface <+: bytes) :
    parseHttp2Frames (startOf withPreface ++ bytes) = (framesOf bytes).filter (!·.isEmpty) := by
  rw [parseHttp2Frames]
  cases withPreface with
  | true =>
    rfl
  | false =>
    have hpre : ¬preface.isPrefixOf bytes = true := fun hpre =>
      h.elim nofun fun h => h (List.isPrefixOf_iff_prefix.mp hpre)
    rw [startOf, if_neg Bool.false_ne_true, nil_append, if_neg hpre]
    rfl

theorem not_preface_prefix_encodeFrames (h : ∀ item ∈ frames, item.2.isKnown = true) :
    ¬preface <+: encodeFrames frames := by
  cases frames with
  | nil => decide
  | cons item frames => exact not_preface_prefix (h item mem_cons_self) _ _

/-! ### Payloads -/

/-- The payload of a frame whose flags say that it is padded: the length of the padding, the fields
before the fragment, the fragment and the padding. -/
def layout (flags : UInt8) (fields fragment padding : List UInt8) : List UInt8 :=
  (if flags &&& 0x8 != 0 then [UInt8.ofNat padding.length] else []) ++
    (fields ++ (fragment ++ if flags &&& 0x8 != 0 then padding else []))

/-- The priority fields are in a frame whose flags say so. -/
def priorityFields (flags : UInt8) (priority : List UInt8) : List UInt8 :=
  if flags &&& 0x20 != 0 then priority else []

theorem slice_middle (front middle rest : List UInt8) :
    slice (front ++ (middle ++ rest)) front.length (front.length + middle.length) = middle := by
  rw [slice, if_neg, take_length_add_append, drop_left, take_left]
  simp only [length_append, gt_iff_lt, Bool.or_eq_true, decide_eq_true_eq]
  omega

/-- The part that is taken of a padded payload. -/
theorem slice_padded (fields fragment padding : List UInt8) :
    slice (UInt8.ofNat padding.length :: (fields ++ (fragment ++ padding))) (1 + fields.length)
        ((UInt8.ofNat padding.length :: (fields ++ (fragment ++ padding))).length -
          padding.length) = fragment := by
  have hend : (UInt8.ofNat padding.length :: (fields ++ (fragment ++ padding))).length -
      padding.length = fields.length + 1 + fragment.length := by
    simp only [length_cons, length_append]
    omega
  rw [hend, Nat.add_comm 1]
  exact slice_middle (UInt8.ofNat padding.length :: fields) fragment padding

theorem headersPayload_layout (flags : UInt8) {priority fragment padding : List UInt8}
    (hpriority : priority.length = 5) (hpadding : padding.length < 256) :
    headersPayload flags (layout flags (priorityFields flags priority) fragment padding) =
      fragment := by
  have hpad : (UInt8.ofNat padding.length).toNat = padding.length :=
    UInt8.toNat_ofNat_of_lt' hpadding
  set fields := priorityFields flags priority with hfields
  have hoffset : (if flags &&& 0x20 != 0 then 5 else 0) = fields.length := by
    rw [hfields, priorityFields]
    split_ifs
    · exact hpriority.symm
    · rfl
  unfold headersPayload layout
  rw [hoffset]
  by_cases hpadded : (flags &&& 0x8 != 0) = true
  · rw [if_pos hpadded, if_pos hpadded, if_pos hpadded]
    simp only [singleton_append, hpad]
    exact slice_padded fields fragment padding
  · rw [if_neg hpadded, if_neg hpadded, if_neg hpadded]
    simpa using slice_middle fields fragment []

theorem dataPayload_layout (flags : UInt8) {fragment padding : List UInt8}
    (hpadding : padding.length < 256) :
    dataPayload flags (layout flags [] fragment padding) = fragment := by
  have hpad : (UInt8.ofNat padding.length).toNat = padding.length :=
    UInt8.toNat_ofNat_of_lt' hpadding
  unfold dataPayload layout
  by_cases hpadded : flags &&& 0x8 = 0
  · rw [if_pos hpadded, if_neg (by simpa using hpadded), if_neg (by simpa using hpadded)]
    exact append_nil fragment
  · rw [if_neg hpadded, if_pos (by simpa using hpadded), if_pos (by simpa using hpadded)]
    simp only [singleton_append, nil_append, hpad]
    exact slice_padded [] fragment padding

/-! ### The codec -/

/-- **The codec reads back what is encoded.** Frames come back in their order, nothing else is
accepted, in particular no frame that is cut off, and a fragment comes back without what is around
it. -/
theorem parse_http2_frames_codec :
    (∀ (withPreface : Bool) (frames : List (Bool × HTTP2Frame)), frames ≠ [] →
      (∀ item ∈ frames, item.2.IsWellFormed ∧ item.2.isKnown = true) →
        parseHttp2Frames (startOf withPreface ++ encodeFrames frames) =
          some (frames.map Prod.snd)) ∧
      (∀ (withPreface reserved : Bool) (frames : List (Bool × HTTP2Frame)) (frame : HTTP2Frame)
          (n : ℕ), (∀ item ∈ frames, item.2.IsWellFormed ∧ item.2.isKnown = true) →
        frame.IsWellFormed ∧ frame.isKnown = true → 0 < n → n < (frame.encode reserved).length →
          parseHttp2Frames (startOf withPreface ++ (encodeFrames frames ++
            (frame.encode reserved).take n)) = none) ∧
      (∀ (bytes : List UInt8) (kept : List HTTP2Frame), parseHttp2Frames bytes = some kept →
        ∃ (withPreface : Bool) (frames : List (Bool × HTTP2Frame)),
          (∀ item ∈ frames, item.2.IsWellFormed) ∧
            bytes = startOf withPreface ++ encodeFrames frames ∧
            kept = (frames.map Prod.snd).filter HTTP2Frame.isKnown ∧ kept ≠ []) ∧
      (∀ (flags : UInt8) (priority fragment padding : List UInt8), priority.length = 5 →
        padding.length < 256 →
          headersPayload flags (layout flags (priorityFields flags priority) fragment padding) =
            fragment) ∧
      ∀ (flags : UInt8) (fragment padding : List UInt8), padding.length < 256 →
        dataPayload flags (layout flags [] fragment padding) = fragment := by
  refine ⟨fun withPreface frames hne hframes => ?_,
    fun withPreface reserved frames frame n hframes hframe hpos hn => ?_,
    fun bytes kept hkept => ?_, fun flags _ _ _ => headersPayload_layout flags,
    fun flags _ _ => dataPayload_layout flags⟩
  · have hall := framesOf_encodeFrames (fun item hitem => (hframes item hitem).1) []
    rw [append_nil] at hall
    have hknown : (frames.map Prod.snd).filter HTTP2Frame.isKnown = frames.map Prod.snd := by
      rw [filter_eq_self]
      intro frame hframe
      obtain ⟨item, hitem, rfl⟩ := mem_map.mp hframe
      exact (hframes item hitem).2
    have hstart := not_preface_prefix_encodeFrames fun item hitem => (hframes item hitem).2
    rw [parseHttp2Frames_start (.inr hstart), hall, hknown]
    simp [framesOf, parseFrames, hne]
  · have hstart : ¬preface <+: encodeFrames frames ++ (frame.encode reserved).take n := by
      cases frames with
      | nil =>
        intro hpre
        refine not_preface_prefix hframe.2 reserved [] (hpre.trans ?_)
        rw [append_nil]
        exact take_prefix _ _
      | cons item frames =>
        rw [encodeFrames, flatMap_cons, append_assoc]
        exact not_preface_prefix (hframes item mem_cons_self).2 _ _
    rw [parseHttp2Frames_start (.inr hstart),
      framesOf_encodeFrames (fun item hitem => (hframes item hitem).1),
      framesOf_take hframe.1 reserved hpos hn]
    rfl
  · obtain ⟨hframes, hne⟩ := Option.filter_eq_some_iff.mp hkept
    obtain ⟨items, hitems, hbytes, hkept⟩ := framesOf_eq_some hframes
    refine ⟨preface.isPrefixOf bytes, items, hitems, ?_, hkept, by simpa using hne⟩
    by_cases hpre : preface.isPrefixOf bytes = true
    · obtain ⟨rest, rfl⟩ := isPrefixOf_iff_prefix.mp hpre
      rw [if_pos hpre, drop_left] at hbytes
      rw [hbytes]
      rfl
    · rw [if_neg hpre] at hbytes
      rw [Bool.eq_false_of_not_eq_true hpre, ← hbytes]
      rfl

/-- SETTINGS and the HEADERS of a request, at the start of a connection. -/
theorem parse_http2_frames_start : parseHttp2Frames (startOf true ++ encodeFrames
        [(false, { frameType := 0x4, flags := 0, streamId := 0, payload := [] }),
          (false, { frameType := 0x1, flags := 0x5, streamId := 1, payload := [0x82, 0x84] })]) =
      some [{ frameType := 0x4, flags := 0, streamId := 0, payload := [] },
        { frameType := 0x1, flags := 0x5, streamId := 1, payload := [0x82, 0x84] }] :=
  parse_http2_frames_codec.1 true _ (cons_ne_nil _ _) fun item hitem => by
    obtain rfl | hitem := mem_cons.mp hitem
    · exact ⟨⟨by decide, by decide⟩, rfl⟩
    · rw [mem_singleton.mp hitem]
      exact ⟨⟨by decide, by decide⟩, rfl⟩

/-- No frames are not a list of frames that is read back. -/
theorem parse_http2_frames_empty : ¬∀ (withPreface : Bool) (frames : List (Bool × HTTP2Frame)),
      (∀ item ∈ frames, item.2.IsWellFormed ∧ item.2.isKnown = true) →
        parseHttp2Frames (startOf withPreface ++ encodeFrames frames) =
          some (frames.map Prod.snd) := by
  intro h
  have hempty := h false [] (by simp)
  revert hempty
  decide

end AgentSight.Http
