import ReactorNet.CodecFragmentation

/-!
# Encoding and decoding

`fillEmptyBuffer` leaves a frame as the readable bytes of any buffer that had none,
and the frame parser takes that frame, but none of its beginnings, for the message.
-/
namespace ReactorNet.ProtobufCodec

open VectorStorage NetworkByteOrder FrameStreams

variable {M : Type*} (lib : Protobuf M)

/-- What is assumed of the libraries for one message: serialization writes the announced
number of bytes, the type name is found again, and parsing undoes serialization. -/
structure Faithful (m : M) : Prop where
  byteSize : lib.ByteSize m = (lib.SerializeWithCachedSizesToArray m).length
  typeName : lib.GetTypeName m ≠ []
  parses : ∃ prototype, lib.createMessage (lib.GetTypeName m) = some prototype ∧
    lib.ParseFromArray prototype (lib.SerializeWithCachedSizesToArray m) = (true, m)

/-- Length of the frame after its length field. -/
def bodyLength (m : M) : ℕ :=
  4 + ((lib.GetTypeName m).length + 1) + (lib.SerializeWithCachedSizesToArray m).length + 4

/-- The part of the frame that the checksum covers. -/
def checked (m : M) : List UInt8 :=
  hostToNetwork 4 (BitVec.ofNat 32 ((lib.GetTypeName m).length + 1)) ++ (lib.GetTypeName m ++ [0]) ++
    lib.SerializeWithCachedSizesToArray m

def body (m : M) : List UInt8 := checked lib m ++ hostToNetwork 4 (lib.adler32 (checked lib m))

def frame (m : M) : List UInt8 :=
  hostToNetwork 4 (BitVec.ofNat 32 (bodyLength lib m)) ++ body lib m

theorem length_checked (m : M) : (checked lib m).length = bodyLength lib m - 4 := by
  simp only [checked, bodyLength, List.length_append, length_hostToNetwork,
    List.length_singleton]
  omega

theorem length_body (m : M) : (body lib m).length = bodyLength lib m := by
  rw [body, List.length_append, length_checked, length_hostToNetwork, bodyLength]
  omega

theorem length_frame (m : M) : (frame lib m).length = 4 + bodyLength lib m := by
  rw [frame, List.length_append, length_hostToNetwork, length_body]

theorem toInt_ofNat_of_le {n : ℕ} (h : (n : ℤ) ≤ kMaxMessageLen) :
    (BitVec.ofNat 32 n).toInt = n := by
  simp only [kMaxMessageLen] at h
  have hmod : n % 2 ^ 32 = n := Nat.mod_eq_of_lt (by omega)
  rw [BitVec.toInt_eq_toNat_of_lt] <;> rw [BitVec.toNat_ofNat, hmod]
  omega

theorem asInt32_hostToNetwork (x : BitVec 32) (t : List UInt8) :
    asInt32 (hostToNetwork 4 x ++ t) = x := by
  rw [asInt32, List.take_append_of_le_length (by simp),
    List.take_of_length_le (by simp)]
  exact networkToHost_hostToNetwork 4 x

section Message

variable {lib} {m : M} (hm : Faithful lib m) (hlen : (bodyLength lib m : ℤ) ≤ kMaxMessageLen)
include hm hlen

/-- Into a valid buffer without readable bytes the encoder writes the frame, with the
room in front that `prepend` asserts. -/
theorem fillEmptyBuffer_eq_frame {buf : Buffer} (h : buf.Valid) (hempty : buf.readableBytes = 0) :
    ∃ out, fillEmptyBuffer lib buf m = some out ∧ out.Valid ∧ out.content = frame lib m := by
  have hcontent : buf.content = [] := List.eq_nil_of_length_eq_zero (h.length_content.trans hempty)
  have hreader : Buffer.kCheapPrepend ≤ buf.readerIndex_ := by
    have hw := h.reader_add_readable
    have hp := h.prepend_le
    omega
  have hname : (BitVec.ofNat 32 ((lib.GetTypeName m).length + 1)).toNat =
      (lib.GetTypeName m).length + 1 := by
    simp only [bodyLength, kMaxMessageLen] at hlen
    rw [BitVec.toNat_ofNat, Nat.mod_eq_of_lt]
    omega
  have htake : (lib.GetTypeName m ++ [0]).take (((lib.GetTypeName m).length + 1)) = lib.GetTypeName m ++ [0] :=
    List.take_of_length_le (by simp)
  obtain ⟨hv₁, hc₁, -⟩ := h.append (hostToNetwork 4 (BitVec.ofNat 32 ((lib.GetTypeName m).length + 1)))
  have hr₁ := Buffer.kCheapPrepend_le_append hreader
    (hostToNetwork 4 (BitVec.ofNat 32 ((lib.GetTypeName m).length + 1)))
  obtain ⟨hv₂, hc₂, -⟩ := hv₁.append (lib.GetTypeName m ++ [0])
  have hr₂ := Buffer.kCheapPrepend_le_append hr₁ (lib.GetTypeName m ++ [0])
  obtain ⟨hv₃, hc₃, hroom⟩ := hv₂.ensureWritableBytes (lib.SerializeWithCachedSizesToArray m).length
  have hr₃ := Buffer.kCheapPrepend_le_ensureWritableBytes hr₂
    (lib.SerializeWithCachedSizesToArray m).length
  obtain ⟨hv₄, hc₄⟩ := hv₃.copyToWrite_hasWritten hroom.2
  have hr₄ := Buffer.kCheapPrepend_le_written hr₃ (lib.SerializeWithCachedSizesToArray m)
  rw [hc₃, hc₂, hc₁, hcontent, List.nil_append] at hc₄
  change _ = checked lib m at hc₄
  obtain ⟨hv₅, hc₅, -⟩ := hv₄.append (hostToNetwork 4 (lib.adler32 (checked lib m)))
  have hr₅ := Buffer.kCheapPrepend_le_append hr₄ (hostToNetwork 4 (lib.adler32 (checked lib m)))
  rw [hc₄] at hc₅
  have hread := hv₅.length_content
  rw [hc₅] at hread
  have hfront : (hostToNetwork 4 (BitVec.ofNat 32 (bodyLength lib m))).length ≤
      Buffer.kCheapPrepend := by
    rw [length_hostToNetwork]
    decide
  obtain ⟨hv₆, hc₆⟩ := hv₅.prepend (Nat.le_trans hfront hr₅)
  refine ⟨_, ?_, hv₆, hc₆.trans (congrArg _ hc₅)⟩
  have hbody : bodyLength lib m = _ := (length_body lib m).symm.trans hread
  rw [hbody]
  simp only [fillEmptyBuffer, Buffer.appendInt32, hname, htake, hm.byteSize, ne_eq,
    not_true_eq_false, if_false, hc₄]

theorem parse_body : parse lib (body lib m) (bodyLength lib m) = (some m, .kNoError) := by
  obtain ⟨prototype, hcreate, hparse⟩ := hm.parses
  have hsum : ((bodyLength lib m : ℤ) - kHeaderLen).toNat = (checked lib m).length := by
    rw [length_checked]
    simp only [kHeaderLen]
    omega
  have hexpected : asInt32 ((body lib m).drop ((bodyLength lib m : ℤ) - kHeaderLen).toNat) =
      lib.adler32 (checked lib m) := by
    rw [hsum, body, List.drop_left]
    simpa using asInt32_hostToNetwork (lib.adler32 (checked lib m)) []
  have hrange : (body lib m).take ((bodyLength lib m : ℤ) - kHeaderLen).toNat = checked lib m := by
    rw [hsum, body, List.take_left]
  have hname : (asInt32 (body lib m)).toInt = (lib.GetTypeName m).length + 1 := by
    rw [body, checked, List.append_assoc, List.append_assoc, asInt32_hostToNetwork,
      toInt_ofNat_of_le]
    · rfl
    · simp only [bodyLength] at hlen
      omega
  have hpos : 0 < (lib.GetTypeName m).length := List.length_pos_of_ne_nil hm.typeName
  have hvalid : (2 : ℤ) ≤ (lib.GetTypeName m).length + 1 ∧
      ((lib.GetTypeName m).length : ℤ) + 1 ≤ bodyLength lib m - 2 * kHeaderLen := by
    simp only [bodyLength, kHeaderLen]
    omega
  have htype : slice (body lib m) kHeaderLen.toNat
      (((lib.GetTypeName m).length : ℤ) + 1 - 1).toNat = lib.GetTypeName m := by
    simp [slice, body, checked, kHeaderLen, List.append_assoc]
  have hdata : ((body lib m).drop (kHeaderLen + (((lib.GetTypeName m).length : ℤ) + 1)).toNat).take
      (bodyLength lib m - (((lib.GetTypeName m).length : ℤ) + 1) - 2 * kHeaderLen).toNat =
      lib.SerializeWithCachedSizesToArray m := by
    have hskip : (kHeaderLen + (((lib.GetTypeName m).length : ℤ) + 1)).toNat =
        (hostToNetwork 4 (BitVec.ofNat 32 ((lib.GetTypeName m).length + 1)) ++
          (lib.GetTypeName m ++ [0])).length := by
      simp only [kHeaderLen, List.length_append, length_hostToNetwork, List.length_singleton]
      omega
    have hsize : (bodyLength lib m - (((lib.GetTypeName m).length : ℤ) + 1) -
        2 * kHeaderLen).toNat = (lib.SerializeWithCachedSizesToArray m).length := by
      simp only [bodyLength, kHeaderLen]
      omega
    rw [hskip, hsize, body, checked, List.append_assoc, List.drop_left, List.take_left]
  simp only [parse, hexpected, hrange, hname, if_true, if_pos hvalid, htype, hcreate, hdata, hparse]

omit hm in
/-- Every beginning of the frame that contains its length field announces the body. -/
theorem asInt32_take_frame {k : ℕ} (hk : 4 ≤ k) :
    (asInt32 ((frame lib m).take k)).toInt = bodyLength lib m := by
  rw [asInt32_take _ hk, frame, asInt32_hostToNetwork, toInt_ofNat_of_le hlen]

theorem length_bounds : ¬ ((bodyLength lib m : ℤ) > kMaxMessageLen ∨
    (bodyLength lib m : ℤ) < kMinMessageLen) := by
  have hpos : 0 < (lib.GetTypeName m).length := List.length_pos_of_ne_nil hm.typeName
  simp only [bodyLength, kMinMessageLen] at hlen ⊢
  omega

theorem front_frame : front lib (frame lib m) = .item m (frame lib m).length := by
  have hbounds := length_bounds hm hlen
  have hlength := length_frame lib m
  have hheader : (kHeaderLen + kMinMessageLen).toNat ≤ (frame lib m).length := by
    simp only [kHeaderLen, kMinMessageLen] at hbounds ⊢
    omega
  have hann : (asInt32 (frame lib m)).toInt = bodyLength lib m := by
    have h4 : 4 ≤ (frame lib m).length := by omega
    have h := asInt32_take_frame hlen h4
    rwa [List.take_length] at h
  have hsize : (kHeaderLen + (bodyLength lib m : ℤ)).toNat = (frame lib m).length := by
    simp only [kHeaderLen]
    omega
  have hbody : (frame lib m).drop kHeaderLen.toNat = body lib m := by
    rw [frame]
    exact List.drop_left' (length_hostToNetwork 4 _)
  simp only [front, if_pos hheader, hann, if_neg hbounds, hsize, Nat.le_refl, if_true, hbody,
    parse_body hm hlen]

theorem front_take_frame {k : ℕ} (hk : k < (frame lib m).length) :
    front lib ((frame lib m).take k) = .more := by
  have hlength := length_frame lib m
  have htake : ((frame lib m).take k).length = k := by
    rw [List.length_take]
    omega
  by_cases hheader : (kHeaderLen + kMinMessageLen).toNat ≤ k
  · have hann := asInt32_take_frame hlen (Nat.le_trans (by decide) hheader)
    have hshort : ¬ (kHeaderLen + (bodyLength lib m : ℤ)).toNat ≤ k := by
      simp only [kHeaderLen]
      omega
    simp only [front, htake, if_pos hheader, hann, if_neg (length_bounds hm hlen), if_neg hshort]
  · simp only [front, htake, if_neg hheader]

end Message

section Jobs

variable {lib} {jobs : List (Buffer × M)} (hlib : ∀ job ∈ jobs, Faithful lib job.2)
  (hlen : ∀ job ∈ jobs, (bodyLength lib job.2 : ℤ) ≤ kMaxMessageLen)
include hlib hlen

theorem mapM_fillEmptyBuffer (hbuf : ∀ job ∈ jobs, job.1.Reachable ∧ job.1.readableBytes = 0) :
    ∃ encoded : List Buffer,
      jobs.mapM (fun job => fillEmptyBuffer lib job.1 job.2) = some encoded ∧
        encoded.map Buffer.content = jobs.map fun job => frame lib job.2 := by
  induction jobs with
  | nil => exact ⟨[], rfl, rfl⟩
  | cons job jobs ih =>
    obtain ⟨encoded, hencoded, hframes⟩ := ih (fun j hj => hlib j (List.mem_cons_of_mem _ hj))
      (fun j hj => hlen j (List.mem_cons_of_mem _ hj))
      (fun j hj => hbuf j (List.mem_cons_of_mem _ hj))
    obtain ⟨hreach, hempty⟩ := hbuf job List.mem_cons_self
    obtain ⟨out, hout, -, hcontent⟩ := fillEmptyBuffer_eq_frame (hlib job List.mem_cons_self)
      (hlen job List.mem_cons_self) hreach.valid hempty
    refine ⟨out :: encoded, ?_, ?_⟩
    · simp [List.mapM_cons, hout, hencoded]
    · rw [List.map_cons, List.map_cons, hcontent, hframes]

theorem renders_frames :
    (frames lib).Renders (jobs.map fun job => frame lib job.2) (jobs.map Prod.snd) := by
  rw [FrameParser.Renders, List.forall₂_map_left_iff, List.forall₂_map_right_iff,
    List.forall₂_same]
  intro job hjob
  exact ⟨front_frame (hlib job hjob) (hlen job hjob),
    fun k hk => front_take_frame (hlib job hjob) (hlen job hjob) hk⟩

end Jobs

/-- Encoding into any reachable buffers without readable bytes and decoding the stream
of the encodings, cut into chunks in any way, gives the messages back, each of them as
soon as its last byte has been received, without an error and without bytes left over. -/
theorem encode_decode {jobs : List (Buffer × M)}
    (hlib : ∀ job ∈ jobs, Faithful lib job.2)
    (hlen : ∀ job ∈ jobs, (bodyLength lib job.2 : ℤ) ≤ kMaxMessageLen)
    (hbuf : ∀ job ∈ jobs, job.1.Reachable ∧ job.1.readableBytes = 0) :
    ∃ encoded : List Buffer,
      jobs.mapM (fun job => fillEmptyBuffer lib job.1 job.2) = some encoded ∧
      ∀ chunks : List (List UInt8), chunks.flatten = (encoded.map Buffer.content).flatten →
        dispatched (receive lib .fresh chunks).2 = jobs.map Prod.snd ∧
        errors (receive lib .fresh chunks).2 = [] ∧
        (receive lib .fresh chunks).1.readableBytes = 0 ∧
        ∀ received, received <+: chunks →
          dispatched (receive lib .fresh received).2 = (jobs.map Prod.snd).take
            (completeFrames (encoded.map Buffer.content) received.flatten.length) := by
  obtain ⟨encoded, hencoded, hframes⟩ := mapM_fillEmptyBuffer hlib hlen hbuf
  have hrender := renders_frames hlib hlen
  rw [← hframes] at hrender
  refine ⟨encoded, hencoded, fun chunks hchunks => ?_⟩
  have hreceived (received : List (List UInt8)) (hpre : received <+: chunks) :
      received.flatten = (encoded.map Buffer.content).flatten.take received.flatten.length := by
    obtain ⟨rest, rfl⟩ := hpre
    rw [← hchunks, List.flatten_append, List.take_left]
  have hdelivered (received : List (List UInt8)) (hpre : received <+: chunks) :
      dispatched (receive lib .fresh received).2 = (jobs.map Prod.snd).take
        (completeFrames (encoded.map Buffer.content) received.flatten.length) := by
    obtain ⟨-, -, hitems, -⟩ := receive_eq_feed lib Buffer.valid_fresh received
    rw [Buffer.content_fresh, (frames lib).feed_nil_eq_drain, hreceived received hpre] at hitems
    rw [hitems]
    exact ((frames lib).drain_take_flatten hrender _).1
  obtain ⟨hv, hc, -, herror⟩ := receive_eq_feed lib Buffer.valid_fresh chunks
  rw [Buffer.content_fresh, (frames lib).feed_nil_eq_drain, hchunks] at hc herror
  obtain ⟨-, hnone, hrest⟩ :=
    (frames lib).drain_take_flatten hrender (encoded.map Buffer.content).flatten.length
  rw [List.take_length] at hnone hrest
  refine ⟨?_, ?_, ?_, hdelivered⟩
  · have hlength := congrArg List.length hframes
    rw [List.length_map, List.length_map] at hlength
    rw [hdelivered chunks (List.prefix_refl chunks), hchunks, FrameParser.completeFrames_length,
      List.length_map, hlength, List.take_of_length_le (by simp)]
  · exact List.head?_eq_none_iff.mp (herror.trans hnone)
  · rw [← hv.length_content, hc, hrest (Nat.le_refl _)]
    rfl

theorem faithful_uninterpreted {m : List UInt8 × List UInt8} (h : m.1 ≠ []) :
    Faithful .uninterpreted m where
  byteSize := rfl
  typeName := h
  parses := ⟨(m.1, []), rfl, rfl⟩

/-- A message without payload and one with four bytes of it, in fresh buffers. -/
theorem encode_decode_two :
    ∃ encoded : List Buffer,
      [(Buffer.fresh, ([65], [])), (Buffer.fresh, ([66, 67], [1, 2, 3, 4]))].mapM
        (fun job => fillEmptyBuffer .uninterpreted job.1 job.2) = some encoded ∧
      ∀ chunks : List (List UInt8), chunks.flatten = (encoded.map Buffer.content).flatten →
        dispatched (receive .uninterpreted .fresh chunks).2 =
          [([65], []), ([66, 67], [1, 2, 3, 4])] ∧
        errors (receive .uninterpreted .fresh chunks).2 = [] ∧
        (receive .uninterpreted .fresh chunks).1.readableBytes = 0 ∧
        ∀ received, received <+: chunks →
          dispatched (receive .uninterpreted .fresh received).2 =
            [([65], []), ([66, 67], [1, 2, 3, 4])].take
              (completeFrames (encoded.map Buffer.content) received.flatten.length) := by
  apply encode_decode .uninterpreted
  all_goals
    intro job hjob
    simp only [List.mem_cons, List.not_mem_nil, or_false] at hjob
  · apply faithful_uninterpreted
    rcases hjob with rfl | rfl <;> exact List.cons_ne_nil _ _
  · rcases hjob with rfl | rfl <;> decide
  · rcases hjob with rfl | rfl <;> exact ⟨Buffer.reachable_fresh, rfl⟩

end ReactorNet.ProtobufCodec
