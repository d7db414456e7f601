import ReactorNet.ProtobufCodec
import ReactorNet.FrameStreams

/-!
# The decoder as a frame parser

`parse` reads nothing outside the frame, so what `onMessage` does is a function of
the readable bytes: it drains them with the frame parser `frames`. Independence of
fragmentation and the behaviour after an error follow from the general facts about
draining a stream.
-/
namespace ReactorNet.ProtobufCodec

open VectorStorage NetworkByteOrder FrameStreams

variable {M : Type*} (lib : Protobuf M)

theorem asInt32_drop_take (buf : List UInt8) {i k : ℕ} (h : i + 4 ≤ k) :
    asInt32 ((buf.take k).drop i) = asInt32 (buf.drop i) :=
  congrArg (networkToHost 4) (slice_take buf h)

theorem asInt32_take (buf : List UInt8) {k : ℕ} (h : 4 ≤ k) :
    asInt32 (buf.take k) = asInt32 buf := by
  simpa using asInt32_drop_take buf (i := 0) (by omega)

/-- `parse` depends on the `len` bytes of the frame only. -/
theorem parse_take (buf : List UInt8) {len : ℤ} (hmin : kMinMessageLen ≤ len) :
    parse lib (buf.take len.toNat) len = parse lib buf len := by
  simp only [kMinMessageLen] at hmin
  have hsum : asInt32 ((buf.take len.toNat).drop (len - kHeaderLen).toNat) =
      asInt32 (buf.drop (len - kHeaderLen).toNat) := by
    apply asInt32_drop_take
    simp only [kHeaderLen]
    omega
  have hrange : (buf.take len.toNat).take (len - kHeaderLen).toNat =
      buf.take (len - kHeaderLen).toNat := by
    rw [List.take_take, Nat.min_eq_left]
    simp only [kHeaderLen]
    omega
  have hname : asInt32 (buf.take len.toNat) = asInt32 buf := asInt32_take buf (by omega)
  simp only [parse, hsum, hrange, hname]
  by_cases hlen : 2 ≤ (asInt32 buf).toInt ∧ (asInt32 buf).toInt ≤ len - 2 * kHeaderLen
  · have htype : slice (buf.take len.toNat) kHeaderLen.toNat ((asInt32 buf).toInt - 1).toNat =
        slice buf kHeaderLen.toNat ((asInt32 buf).toInt - 1).toNat := by
      apply slice_take
      simp only [kHeaderLen] at hlen ⊢
      omega
    have hdata : ((buf.take len.toNat).drop (kHeaderLen + (asInt32 buf).toInt).toNat).take
          (len - (asInt32 buf).toInt - 2 * kHeaderLen).toNat =
        (buf.drop (kHeaderLen + (asInt32 buf).toInt).toNat).take
          (len - (asInt32 buf).toInt - 2 * kHeaderLen).toNat := by
      apply slice_take
      simp only [kHeaderLen] at hlen ⊢
      omega
    rw [htype, hdata]
  · simp only [if_neg hlen]

/-- What the decoder makes of the bytes at the front of a stream. -/
def front (s : List UInt8) : Verdict ErrorCode M :=
  if (kHeaderLen + kMinMessageLen).toNat ≤ s.length then
    let len := (asInt32 s).toInt
    if len > kMaxMessageLen ∨ len < kMinMessageLen then .fail .kInvalidLength
    else if (kHeaderLen + len).toNat ≤ s.length then
      match parse lib (s.drop kHeaderLen.toNat) len with
      | (some message, .kNoError) => .item message (kHeaderLen + len).toNat
      | (_, errorCode) => .fail errorCode
    else .more
  else .more

theorem front_append {s : List UInt8} (h : front lib s ≠ .more) (t : List UInt8) :
    front lib (s ++ t) = front lib s := by
  have hheader : (kHeaderLen + kMinMessageLen).toNat ≤ s.length := by
    by_contra hshort
    exact h (by rw [front, if_neg hshort])
  have hlen : asInt32 (s ++ t) = asInt32 s := by
    rw [← asInt32_take (s ++ t) (Nat.le_refl 4), List.take_append_of_le_length, asInt32_take s (Nat.le_refl 4)]
    exact Nat.le_trans (by decide) hheader
  have hheader' : (kHeaderLen + kMinMessageLen).toNat ≤ (s ++ t).length := by
    rw [List.length_append]
    omega
  by_cases hbad : (asInt32 s).toInt > kMaxMessageLen ∨ (asInt32 s).toInt < kMinMessageLen
  · simp only [front, hlen, if_pos hheader, if_pos hheader', if_pos hbad]
  · have hframe : (kHeaderLen + (asInt32 s).toInt).toNat ≤ s.length := by
      by_contra hshort
      exact h (by simp only [front, if_pos hheader, if_neg hbad, if_neg hshort])
    have hframe' : (kHeaderLen + (asInt32 s).toInt).toNat ≤ (s ++ t).length := by
      rw [List.length_append]
      omega
    have hparse : parse lib ((s ++ t).drop kHeaderLen.toNat) (asInt32 s).toInt =
        parse lib (s.drop kHeaderLen.toNat) (asInt32 s).toInt := by
      have hmin : kMinMessageLen ≤ (asInt32 s).toInt := by omega
      simp only [kMinMessageLen, kHeaderLen] at hmin hframe
      rw [← parse_take lib _ (by omega), ← parse_take lib (s.drop _) (by omega),
        List.drop_append_of_le_length, List.take_append_of_le_length]
      · simp only [kHeaderLen, List.length_drop]
        omega
      · simp only [kHeaderLen]
        omega
    simp only [front, hlen, if_pos hheader, if_pos hheader', if_neg hbad, if_pos hframe,
      if_pos hframe', hparse]

theorem front_item_bounds {s : List UInt8} {m : M} {n : ℕ} (h : front lib s = .item m n) :
    0 < n ∧ n ≤ s.length := by
  simp only [front] at h
  split at h
  · split at h
    · cases h
    · split at h
      · next hbad hframe =>
        split at h
        · cases h
          refine ⟨?_, hframe⟩
          simp only [kHeaderLen, kMinMessageLen] at hbad ⊢
          omega
        · cases h
      · cases h
  · cases h

/-- The decoder, as a parser of frames. -/
def frames : FrameParser UInt8 ErrorCode M where
  front := front lib
  front_nil := rfl
  item_bounds := front_item_bounds lib
  item_append h t := (front_append lib (h ▸ nofun) t).trans h
  fail_append h t := (front_append lib (h ▸ nofun) t).trans h

/-- The callbacks that a drained stream amounts to. -/
def callbacks (d : Drained UInt8 ErrorCode M) : List (Callback M) :=
  d.items.map .message ++ d.error.toList.map .error

theorem asInt32_content {buf : Buffer} (hlen : 4 ≤ buf.readableBytes) :
    asInt32 buf.content = buf.peekInt32 :=
  congrArg (networkToHost 4) (take_slice _ _ hlen)

/-- The frame seen through the pointer is the frame seen in the readable bytes. -/
theorem parse_content {buf : Buffer} {len : ℤ} (hmin : kMinMessageLen ≤ len)
    (hlen : (kHeaderLen + len).toNat ≤ buf.readableBytes) :
    parse lib (buf.buffer_.drop (buf.readerIndex_ + kHeaderLen.toNat)) len =
      parse lib (buf.content.drop kHeaderLen.toNat) len := by
  rw [← parse_take lib _ hmin, ← parse_take lib (buf.content.drop _) hmin]
  congr 1
  simp only [kMinMessageLen, kHeaderLen] at hmin hlen ⊢
  rw [Buffer.content, drop_slice, take_slice]
  · rfl
  · omega

/-- One turn of the loop in `onMessage`, as the frame parser sees it. -/
theorem onMessage_eq_front {buf : Buffer} (h : buf.Valid) :
    onMessage lib buf = match front lib buf.content with
      | .more => (buf, [])
      | .fail errorCode => (buf, [.error errorCode])
      | .item message n =>
        ((onMessage lib (buf.retrieve n)).1, .message message :: (onMessage lib (buf.retrieve n)).2) := by
  rw [onMessage, front, h.length_content]
  by_cases hheader : (kHeaderLen + kMinMessageLen).toNat ≤ buf.readableBytes
  · rw [if_pos hheader, if_pos hheader, asInt32_content (Nat.le_trans (by decide) hheader)]
    by_cases hbad : buf.peekInt32.toInt > kMaxMessageLen ∨ buf.peekInt32.toInt < kMinMessageLen
    · simp only [dif_pos hbad, if_pos hbad]
    · by_cases hframe : (kHeaderLen + buf.peekInt32.toInt).toNat ≤ buf.readableBytes
      · simp only [dif_neg hbad, if_neg hbad, dif_pos hframe, if_pos hframe,
          parse_content lib (by omega) hframe]
        split <;> simp_all
      · simp only [dif_neg hbad, if_neg hbad, dif_neg hframe, if_neg hframe]
  · rw [if_neg hheader, if_neg hheader]

/-- `onMessage` drains the readable bytes, and moves the buffer only over frames. -/
theorem onMessage_eq_drain {buf : Buffer} (h : buf.Valid) :
    (onMessage lib buf).1.Valid ∧
      (onMessage lib buf).1.content = ((frames lib).drain buf.content).rest ∧
      (onMessage lib buf).2 = callbacks ((frames lib).drain buf.content) ∧
      (((frames lib).drain buf.content).items = [] → (onMessage lib buf).1 = buf) := by
  induction hs : buf.content using FrameParser.drain.induct (frames lib) generalizing buf with
  | case1 s hfront =>
    have hfront' : front lib buf.content = .more := hs ▸ hfront
    rw [onMessage_eq_front lib h, hfront', (frames lib).drain_more hfront]
    exact ⟨h, hs, rfl, fun _ => rfl⟩
  | case2 s e hfront =>
    have hfront' : front lib buf.content = .fail e := hs ▸ hfront
    rw [onMessage_eq_front lib h, hfront', (frames lib).drain_fail hfront]
    exact ⟨h, hs, rfl, fun _ => rfl⟩
  | case3 s m n hfront ih =>
    have hfront' : front lib buf.content = .item m n := hs ▸ hfront
    have hn : n ≤ buf.readableBytes := h.length_content ▸ (front_item_bounds lib hfront').2
    obtain ⟨hv, hc⟩ := h.retrieve hn
    obtain ⟨hv', hc', hcalls, -⟩ := ih hv (by rw [hc, hs])
    rw [onMessage_eq_front lib h, hfront', (frames lib).drain_item hfront]
    exact ⟨hv', hc', congrArg (Callback.message m :: ·) hcalls, fun hnil => by cases hnil⟩

/-- Chunks received by a connection are fed to the frame parser. -/
theorem receive_eq_feed {buf : Buffer} (h : buf.Valid) (chunks : List (List UInt8)) :
    (receive lib buf chunks).1.Valid ∧
      (receive lib buf chunks).1.content = ((frames lib).feed buf.content chunks).rest ∧
      dispatched (receive lib buf chunks).2 = ((frames lib).feed buf.content chunks).items ∧
      (errors (receive lib buf chunks).2).head? = ((frames lib).feed buf.content chunks).error := by
  induction chunks generalizing buf with
  | nil => exact ⟨h, rfl, rfl, rfl⟩
  | cons chunk chunks ih =>
    obtain ⟨hv, hc, -⟩ := h.append chunk
    obtain ⟨hv', hc', hcalls, -⟩ := onMessage_eq_drain lib hv
    rw [hc] at hc' hcalls
    obtain ⟨hv'', hc'', hitems, herror⟩ := ih hv'
    rw [hc'] at hc'' hitems herror
    refine ⟨hv'', hc'', ?_, ?_⟩
    · simp only [receive, FrameParser.feed, Drained.andThen, ← hitems, hcalls, callbacks]
      simp [dispatched, List.filterMap_append, List.filterMap_map]
    · simp only [receive, FrameParser.feed, Drained.andThen, ← herror, hcalls, callbacks]
      cases ((frames lib).drain (buf.content ++ chunk)).error <;>
        simp [errors, List.filterMap_append, List.filterMap_map]

/-- A connection whose decoder has failed dispatches nothing more, leaves every byte in
its buffer and reports the same error for every chunk. -/
theorem receive_fail {buf : Buffer} (h : buf.Valid) {e : ErrorCode}
    (hfront : front lib buf.content = .fail e) (chunks : List (List UInt8)) :
    receive lib buf chunks =
      (chunks.foldl Buffer.append buf, List.replicate chunks.length (.error e)) := by
  induction chunks generalizing buf with
  | nil => rfl
  | cons chunk chunks ih =>
    obtain ⟨hv, hc, -⟩ := h.append chunk
    have hfront' : front lib (buf.append chunk).content = .fail e := by
      rw [hc]
      exact (frames lib).fail_append hfront chunk
    have hcall : onMessage lib (buf.append chunk) = (buf.append chunk, [.error e]) := by
      rw [onMessage_eq_front lib hv, hfront']
    rw [receive, hcall, ih hv hfront']
    rfl

/-- The messages dispatched and the first error reported do not depend on how the
received stream was cut into chunks; once an error has been reported, every later call
dispatches nothing, consumes nothing and reports that error again. -/
theorem decoder_fragmentation (chunks₁ chunks₂ later : List (List UInt8))
    (hstream : chunks₁.flatten = chunks₂.flatten) :
    dispatched (receive lib .fresh chunks₁).2 = dispatched (receive lib .fresh chunks₂).2 ∧
      (errors (receive lib .fresh chunks₁).2).head? =
        (errors (receive lib .fresh chunks₂).2).head? ∧
      ∀ e, (errors (receive lib .fresh chunks₁).2).head? = some e →
        receive lib (receive lib .fresh chunks₁).1 later =
          (later.foldl Buffer.append (receive lib .fresh chunks₁).1,
            List.replicate later.length (.error e)) := by
  obtain ⟨hv, hc, hitems₁, herror₁⟩ := receive_eq_feed lib Buffer.valid_fresh chunks₁
  obtain ⟨-, -, hitems₂, herror₂⟩ := receive_eq_feed lib Buffer.valid_fresh chunks₂
  rw [Buffer.content_fresh, (frames lib).feed_nil_eq_drain] at hc hitems₁ herror₁ hitems₂ herror₂
  refine ⟨?_, ?_, fun e he => ?_⟩
  · rw [hitems₁, hitems₂, hstream]
  · rw [herror₁, herror₂, hstream]
  · apply receive_fail lib hv
    have hrest := (frames lib).front_drain_rest chunks₁.flatten
    rw [← herror₁, he] at hrest
    rw [hc]
    exact hrest

/-- A length field that is too large, cut in its middle or received at once. -/
theorem decoder_fragmentation_invalidLength :
    let halves : List (List UInt8) := [[255, 0], [0, 0, 0, 0, 0, 0, 0, 0, 0, 0, 0, 0]]
    let whole : List (List UInt8) := [[255, 0, 0, 0, 0, 0, 0, 0, 0, 0, 0, 0, 0, 0]]
    dispatched (receive .uninterpreted .fresh halves).2 =
        dispatched (receive .uninterpreted .fresh whole).2 ∧
      (errors (receive .uninterpreted .fresh halves).2).head? =
        (errors (receive .uninterpreted .fresh whole).2).head? ∧
      ∀ e, (errors (receive .uninterpreted .fresh halves).2).head? = some e →
        receive .uninterpreted (receive .uninterpreted .fresh halves).1 [[1], [2]] =
          ([[1], [2]].foldl Buffer.append (receive .uninterpreted .fresh halves).1,
            List.replicate 2 (.error e)) :=
  decoder_fragmentation .uninterpreted [[255, 0], [0, 0, 0, 0, 0, 0, 0, 0, 0, 0, 0, 0]]
    [[255, 0, 0, 0, 0, 0, 0, 0, 0, 0, 0, 0, 0, 0]] [[1], [2]] rfl

end ReactorNet.ProtobufCodec
