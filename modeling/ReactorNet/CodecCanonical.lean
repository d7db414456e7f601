import ReactorNet.CodecRoundTrip

/-!
# Which accepted frames are the encoder's

The fields of a frame, as the decoder cuts them out, are encoded again. The checks of the
decoder pin down every byte of the frame but one: the byte behind the type name, where
the encoder writes the terminating zero.
-/
namespace ReactorNet.ProtobufCodec

open VectorStorage NetworkByteOrder FrameStreams

variable {M : Type*} (lib : Protobuf M)

def nameLen (frame : List UInt8) : ℤ := (asInt32 (frame.drop kHeaderLen.toNat)).toInt

def typeName (frame : List UInt8) : List UInt8 :=
  slice (frame.drop kHeaderLen.toNat) kHeaderLen.toNat (nameLen frame - 1).toNat

def payload (frame : List UInt8) : List UInt8 :=
  slice (frame.drop kHeaderLen.toNat) (kHeaderLen + nameLen frame).toNat
    ((asInt32 frame).toInt - nameLen frame - 2 * kHeaderLen).toNat

/-- The last byte of the type name field. -/
def terminator (frame : List UInt8) : Option UInt8 :=
  (frame.drop kHeaderLen.toNat)[(kHeaderLen + nameLen frame - 1).toNat]?

/-- The library whose messages are a type name and a payload as they stand in a frame. -/
def raw : Protobuf (List UInt8 × List UInt8) :=
  { Protobuf.uninterpreted with adler32 := lib.adler32 }

/-- Encode the type name and the payload of a frame again. -/
def reencode (frame : List UInt8) : Option (List UInt8) :=
  (fillEmptyBuffer (raw lib) .fresh (typeName frame, payload frame)).map Buffer.content

/-- The byte string is one frame, and `onMessage` takes it with `kNoError`. -/
structure Accepted (frame : List UInt8) (m : M) : Prop where
  length : (frame.length : ℤ) = kHeaderLen + (asInt32 frame).toInt
  min_le : kMinMessageLen ≤ (asInt32 frame).toInt
  le_max : (asInt32 frame).toInt ≤ kMaxMessageLen
  parses : parse lib (frame.drop kHeaderLen.toNat) (asInt32 frame).toInt = (some m, .kNoError)

theorem hostToNetwork_asInt32 {bs : List UInt8} (h : 4 ≤ bs.length) :
    hostToNetwork 4 (asInt32 bs) = bs.take 4 := by
  apply hostToNetwork_networkToHost
  rw [List.length_take, Nat.min_eq_left h]

/-- The checks that a body passes. -/
theorem parse_eq_noError {body : List UInt8} {len : ℤ} {m : M}
    (h : parse lib body len = (some m, .kNoError)) :
    lib.adler32 (body.take (len - kHeaderLen).toNat) =
        asInt32 (body.drop (len - kHeaderLen).toNat) ∧
      2 ≤ (asInt32 body).toInt ∧ (asInt32 body).toInt ≤ len - 2 * kHeaderLen := by
  simp only [parse] at h
  split at h
  · next hsum =>
    split at h
    · next hname => exact ⟨hsum, hname⟩
    · cases h
  · cases h

namespace Accepted

variable {lib} {frame : List UInt8} {m : M} (h : Accepted lib frame m)
include h

theorem two_le_nameLen : 2 ≤ nameLen frame := (parse_eq_noError lib h.parses).2.1

theorem nameLen_le : nameLen frame ≤ (asInt32 frame).toInt - 2 * kHeaderLen :=
  (parse_eq_noError lib h.parses).2.2

theorem length_body :
    ((frame.drop kHeaderLen.toNat).length : ℤ) = (asInt32 frame).toInt := by
  have hlen := h.length
  have hmin := h.min_le
  simp only [kHeaderLen, kMinMessageLen, List.length_drop] at *
  omega

theorem length_typeName : ((typeName frame).length : ℤ) = nameLen frame - 1 := by
  have hbody := h.length_body
  have htwo := h.two_le_nameLen
  have hle := h.nameLen_le
  rw [typeName, length_slice]
  · omega
  · simp only [kHeaderLen] at *
    omega

theorem length_payload :
    ((payload frame).length : ℤ) = (asInt32 frame).toInt - nameLen frame - 2 * kHeaderLen := by
  have hbody := h.length_body
  have htwo := h.two_le_nameLen
  have hle := h.nameLen_le
  rw [payload, length_slice]
  · omega
  · simp only [kHeaderLen] at *
    omega

theorem exists_terminator : ∃ c, terminator frame = some c := by
  have hbody := h.length_body
  have htwo := h.two_le_nameLen
  have hle := h.nameLen_le
  have hlt : (kHeaderLen + nameLen frame - 1).toNat < (frame.drop kHeaderLen.toNat).length := by
    simp only [kHeaderLen] at *
    omega
  exact ⟨_, List.getElem?_eq_getElem hlt⟩

/-- The length of the type name and the terminator make up the field the frame announces. -/
theorem bodyLength_eq :
    (bodyLength (raw lib) (typeName frame, payload frame) : ℤ) = (asInt32 frame).toInt := by
  have hname := h.length_typeName
  have hdata := h.length_payload
  change ((4 + ((typeName frame).length + 1) + (payload frame).length + 4 : ℕ) : ℤ) = _
  simp only [kHeaderLen] at hdata
  omega

theorem ofNat_bodyLength :
    BitVec.ofNat 32 (bodyLength (raw lib) (typeName frame, payload frame)) = asInt32 frame := by
  have hbody := h.bodyLength_eq
  apply BitVec.eq_of_toInt_eq
  rw [toInt_ofNat_of_le (hbody ▸ h.le_max), hbody]

theorem ofNat_nameLen :
    BitVec.ofNat 32 ((typeName frame).length + 1) = asInt32 (frame.drop kHeaderLen.toNat) := by
  have hname := h.length_typeName
  have hle := h.nameLen_le
  have hmax := h.le_max
  apply BitVec.eq_of_toInt_eq
  rw [toInt_ofNat_of_le]
  · change _ = nameLen frame
    omega
  · simp only [kHeaderLen, kMaxMessageLen] at *
    omega

/-- The part of the frame that the checksum covers, with the terminator it carries. -/
theorem checked_eq {c : UInt8} (hc : terminator frame = some c) :
    (frame.drop kHeaderLen.toNat).take ((asInt32 frame).toInt - kHeaderLen).toNat =
      hostToNetwork 4 (BitVec.ofNat 32 ((typeName frame).length + 1)) ++
        (typeName frame ++ [c]) ++ payload frame := by
  have hbody := h.length_body
  have htwo := h.two_le_nameLen
  have hle := h.nameLen_le
  have hend : (kHeaderLen + nameLen frame - 1).toNat =
      kHeaderLen.toNat + (nameLen frame - 1).toNat := by
    simp only [kHeaderLen]
    omega
  rw [terminator, hend] at hc
  have hdata : (kHeaderLen + nameLen frame).toNat =
      kHeaderLen.toNat + (nameLen frame - 1).toNat + 1 := by
    simp only [kHeaderLen]
    omega
  rw [h.ofNat_nameLen, hostToNetwork_asInt32, typeName, payload, hdata, ← slice_one hc,
    slice_append_slice, Nat.add_assoc, List.append_assoc, slice_append_slice]
  · rw [← slice_zero_eq_take _ 4]
    change _ = _ ++ slice _ (0 + 4) _
    rw [slice_append_slice, slice_zero_eq_take]
    congr 1
    simp only [kHeaderLen] at *
    omega
  · simp only [kHeaderLen] at *
    omega

/-- The whole frame, field by field. -/
theorem frame_eq {c : UInt8} (hc : terminator frame = some c) :
    frame = hostToNetwork 4 (asInt32 frame) ++
      ((hostToNetwork 4 (BitVec.ofNat 32 ((typeName frame).length + 1)) ++
          (typeName frame ++ [c]) ++ payload frame) ++
        hostToNetwork 4 (lib.adler32 (hostToNetwork 4 (BitVec.ofNat 32
          ((typeName frame).length + 1)) ++ (typeName frame ++ [c]) ++ payload frame))) := by
  have hbody := h.length_body
  have hmin := h.min_le
  have hlen := h.length
  have hsum := (parse_eq_noError lib h.parses).1
  have hfour : ((frame.drop kHeaderLen.toNat).drop
      ((asInt32 frame).toInt - kHeaderLen).toNat).length = 4 := by
    rw [List.length_drop]
    simp only [kHeaderLen, kMinMessageLen] at *
    omega
  rw [← h.checked_eq hc, hsum, hostToNetwork_asInt32 (Nat.le_of_eq hfour.symm),
    List.take_of_length_le (Nat.le_of_eq hfour), List.take_append_drop, hostToNetwork_asInt32]
  · exact (List.take_append_drop 4 frame).symm
  · simp only [kHeaderLen, kMinMessageLen] at *
    omega

theorem faithful_raw : Faithful (raw lib) (typeName frame, payload frame) where
  byteSize := rfl
  typeName := by
    have hname := h.length_typeName
    have htwo := h.two_le_nameLen
    apply List.ne_nil_of_length_pos
    change 0 < (ProtobufCodec.typeName frame).length
    omega
  parses := ⟨(typeName frame, []), rfl, rfl⟩

/-- The encoder writes the fields of the frame with a zero behind the type name. -/
theorem reencode_eq :
    reencode lib frame =
      some (ProtobufCodec.frame (raw lib) (typeName frame, payload frame)) := by
  have hlen : (bodyLength (raw lib) (typeName frame, payload frame) : ℤ) ≤ kMaxMessageLen :=
    h.bodyLength_eq ▸ h.le_max
  obtain ⟨out, hout, -, hcontent⟩ :=
    fillEmptyBuffer_eq_frame h.faithful_raw hlen Buffer.valid_fresh rfl
  rw [reencode, hout, Option.map_some, hcontent]

theorem reencode_iff : reencode lib frame = some frame ↔ terminator frame = some 0 := by
  obtain ⟨c, hc⟩ := h.exists_terminator
  have hframe := h.frame_eq hc
  have hout : ProtobufCodec.frame (raw lib) (typeName frame, payload frame) =
      hostToNetwork 4 (asInt32 frame) ++
        ((hostToNetwork 4 (BitVec.ofNat 32 ((typeName frame).length + 1)) ++
            (typeName frame ++ [0]) ++ payload frame) ++
          hostToNetwork 4 (lib.adler32 (hostToNetwork 4 (BitVec.ofNat 32
            ((typeName frame).length + 1)) ++ (typeName frame ++ [0]) ++ payload frame))) := by
    rw [ProtobufCodec.frame, h.ofNat_bodyLength]
    rfl
  rw [h.reencode_eq, hout, hc, Option.some.injEq, Option.some.injEq]
  constructor
  · intro heq
    have hchecked := List.append_inj_left (List.append_cancel_left (heq.trans hframe)) (by simp)
    have hname := List.append_cancel_left (List.append_cancel_right hchecked)
    exact (List.cons.inj (List.append_cancel_left hname)).1.symm
  · rintro rfl
    exact hframe.symm

theorem front_frame_eq : front lib frame = .item m frame.length := by
  have hlen := h.length
  have hmin := h.min_le
  have hmax := h.le_max
  have hheader : (kHeaderLen + kMinMessageLen).toNat ≤ frame.length := by omega
  have hbounds : ¬ ((asInt32 frame).toInt > kMaxMessageLen ∨
      (asInt32 frame).toInt < kMinMessageLen) := by omega
  have hsize : (kHeaderLen + (asInt32 frame).toInt).toNat = frame.length := by omega
  simp only [front, if_pos hheader, if_neg hbounds, hsize, Nat.le_refl, if_true, h.parses]

theorem drain_eq : (frames lib).drain frame = ⟨[m], none, []⟩ := by
  have hfront : (frames lib).front frame = .item m frame.length := h.front_frame_eq
  rw [(frames lib).drain_item hfront, List.drop_length, (frames lib).drain_more (frames lib).front_nil]

theorem taken_eq : (frames lib).taken frame = [frame] := by
  have hfront : (frames lib).front frame = .item m frame.length := h.front_frame_eq
  rw [(frames lib).taken_item hfront, List.drop_length, List.take_length,
    (frames lib).taken_more (frames lib).front_nil]

end Accepted

theorem front_eq_item {s : List UInt8} {m : M} {n : ℕ} (h : front lib s = .item m n) :
    (kMinMessageLen ≤ (asInt32 s).toInt ∧ (asInt32 s).toInt ≤ kMaxMessageLen) ∧
      (kHeaderLen + (asInt32 s).toInt).toNat ≤ s.length ∧
      parse lib (s.drop kHeaderLen.toNat) (asInt32 s).toInt = (some m, .kNoError) ∧
      n = (kHeaderLen + (asInt32 s).toInt).toNat := by
  simp only [front] at h
  split at h
  · split at h
    · cases h
    · next hbounds =>
      split at h
      · next hframe =>
        split at h
        · next message hparse =>
          cases h
          rw [not_or, Int.not_lt, Int.not_lt] at hbounds
          exact ⟨⟨hbounds.2, hbounds.1⟩, hframe, hparse, rfl⟩
        · cases h
      · cases h
  · cases h

/-- What the frame parser cuts off is a frame on its own. -/
theorem front_item_accepted {s : List UInt8} {m : M} {n : ℕ} (h : front lib s = .item m n) :
    Accepted lib (s.take n) m := by
  obtain ⟨⟨hmin, hmax⟩, hframe, hparse, rfl⟩ := front_eq_item lib h
  have hpos : 0 ≤ (asInt32 s).toInt := Int.le_trans (by decide) hmin
  have hfour : 4 ≤ (kHeaderLen + (asInt32 s).toInt).toNat := by
    simp only [kHeaderLen]
    omega
  have hbody : (s.take (kHeaderLen + (asInt32 s).toInt).toNat).drop kHeaderLen.toNat =
      (s.drop kHeaderLen.toNat).take (asInt32 s).toInt.toNat := by
    rw [List.drop_take]
    congr 1
    simp only [kHeaderLen]
    omega
  constructor
  · rw [asInt32_take s hfour, List.length_take, Nat.min_eq_left hframe, Int.toNat_of_nonneg]
    simp only [kHeaderLen]
    omega
  · rw [asInt32_take s hfour]
    exact hmin
  · rw [asInt32_take s hfour]
    exact hmax
  · rw [asInt32_take s hfour, hbody, parse_take lib _ hmin]
    exact hparse

theorem dispatched_callbacks (d : Drained UInt8 ErrorCode M) : dispatched (callbacks d) = d.items := by
  simp [dispatched, callbacks, List.filterMap_append, List.filterMap_map]

/-- The frames that `onMessage` takes from any buffer and the messages it dispatches for
them: encoding the type name and the payload again gives back the bytes of the frame
exactly if the frame carries the zero behind its type name. -/
theorem accepted_canonical_iff {buf : Buffer} (h : buf.Reachable) :
    ((frames lib).taken buf.content).flatten ++ (onMessage lib buf).1.content = buf.content ∧
      List.Forall₂ (fun frame m => Accepted lib frame m ∧
          (reencode lib frame = some frame ↔ terminator frame = some 0))
        ((frames lib).taken buf.content) (dispatched (onMessage lib buf).2) := by
  obtain ⟨-, hrest, hcalls, -⟩ := onMessage_eq_drain lib h.valid
  constructor
  · rw [hrest]
    exact (frames lib).flatten_taken_append_rest buf.content
  · rw [hcalls, dispatched_callbacks]
    apply (frames lib).forall₂_taken
    intro s m n hfront
    have haccepted := front_item_accepted lib hfront
    exact ⟨haccepted, haccepted.reencode_iff⟩

theorem reachable_append_fresh (data : List UInt8) : (Buffer.fresh.append data).Reachable := by
  refine ⟨[.on 0 (.append data)], Function.update (fun _ => .fresh) 0 (Buffer.fresh.append data), 0,
    rfl, ?_⟩
  exact Function.update_self ..

/-- A type name of one letter with a one behind it, and no payload. -/
theorem accepted_unterminated :
    Accepted .uninterpreted [0, 0, 0, 10, 0, 0, 0, 2, 65, 1, 0, 143, 0, 69] ([65], []) where
  length := by decide
  min_le := by decide
  le_max := by decide
  parses := by decide +kernel

/-- A buffer with the frame of a one-letter type name. -/
theorem accepted_canonical_iff_one :
    ∃ buf : Buffer, buf.Reachable ∧
      buf.content = [0, 0, 0, 10, 0, 0, 0, 2, 65, 0, 0, 142, 0, 68] ∧
      ((frames .uninterpreted).taken buf.content).flatten ++
        (onMessage .uninterpreted buf).1.content = buf.content ∧
      List.Forall₂ (fun frame m => Accepted .uninterpreted frame m ∧
          (reencode .uninterpreted frame = some frame ↔ terminator frame = some 0))
        ((frames .uninterpreted).taken buf.content)
        (dispatched (onMessage .uninterpreted buf).2) := by
  have hreach := reachable_append_fresh [0, 0, 0, 10, 0, 0, 0, 2, 65, 0, 0, 142, 0, 68]
  obtain ⟨-, hcontent, -⟩ := Buffer.valid_fresh.append [0, 0, 0, 10, 0, 0, 0, 2, 65, 0, 0, 142, 0, 68]
  exact ⟨_, hreach, hcontent, accepted_canonical_iff .uninterpreted hreach⟩

/-- The decoder dispatches the message of a frame whose type name ends in a one, which
the encoder never writes. -/
theorem accepts_unterminated_name :
    ∃ buf : Buffer, buf.Reachable ∧ dispatched (onMessage .uninterpreted buf).2 = [([65], [])] ∧
      ∃ frame ∈ (frames .uninterpreted).taken buf.content,
        Accepted .uninterpreted frame ([65], []) ∧ reencode .uninterpreted frame ≠ some frame := by
  have hframe := accepted_unterminated
  have hreach := reachable_append_fresh [0, 0, 0, 10, 0, 0, 0, 2, 65, 1, 0, 143, 0, 69]
  obtain ⟨-, hcontent, -⟩ := Buffer.valid_fresh.append [0, 0, 0, 10, 0, 0, 0, 2, 65, 1, 0, 143, 0, 69]
  rw [Buffer.content_fresh, List.nil_append] at hcontent
  obtain ⟨-, -, hcalls, -⟩ := onMessage_eq_drain .uninterpreted hreach.valid
  refine ⟨_, hreach, ?_, _, ?_, hframe, ?_⟩
  · rw [hcalls, dispatched_callbacks, hcontent, hframe.drain_eq]
  · rw [hcontent, hframe.taken_eq]
    exact List.mem_singleton_self _
  · rw [ne_eq, hframe.reencode_iff]
    decide +kernel

end ReactorNet.ProtobufCodec
