import ReactorNet.CodecCanonical
import ReactorNet.CheckedIntegers

/-!
# The decoder reads inside the frame

The loop of `onMessage` and `parse` once more, with every read checked against the bytes
received, every sum of lengths against the width of `int`, and `retrieve` against the
readable bytes; `none` is a violation. No content of a buffer leads to one.
-/
namespace ReactorNet.ProtobufCodec

open VectorStorage NetworkByteOrder FrameStreams

variable {M : Type*} (lib : Protobuf M)

/-- The `n` bytes from position `i` on, if they lie inside `bs`. -/
def window (bs : List UInt8) (i n : ℤ) : Option (List UInt8) :=
  if 0 ≤ i ∧ 0 ≤ n ∧ i + n ≤ bs.length then some (slice bs i.toNat n.toNat) else none

def asInt32Checked (bs : List UInt8) (i : ℤ) : Option (BitVec 32) :=
  (window bs i 4).map asInt32

def parseChecked (received : List UInt8) (len : ℤ) : Option (Option M × ErrorCode) :=
  (int32 (len - kHeaderLen)).bind fun summedLen =>
  (asInt32Checked received summedLen).bind fun expectedCheckSum =>
  (window received 0 summedLen).bind fun summed =>
  if lib.adler32 summed = expectedCheckSum then
    (asInt32Checked received 0).bind fun name =>
    (int32 (len - 2 * kHeaderLen)).bind fun most =>
    let nameLen := name.toInt
    if 2 ≤ nameLen ∧ nameLen ≤ most then
      (window received kHeaderLen (nameLen - 1)).bind fun typeName =>
      match lib.createMessage typeName with
      | some message =>
        (int32 (len - nameLen)).bind fun rest =>
        (int32 (rest - 2 * kHeaderLen)).bind fun dataLen =>
        (window received (kHeaderLen + nameLen) dataLen).bind fun data =>
        match lib.ParseFromArray message data with
        | (true, parsed) => some (some parsed, .kNoError)
        | (false, parsed) => some (some parsed, .kParseError)
      | none => some (none, .kUnknownMessageType)
    else some (none, .kInvalidNameLen)
  else some (none, .kCheckSumError)

/-- One turn of the loop: what it finds at the front of the readable bytes. -/
def turnChecked (buf : Buffer) : Option (Verdict ErrorCode M) :=
  (int32 (kHeaderLen + kMinMessageLen)).bind fun least =>
  if toSize least ≤ buf.readableBytes then
    (asInt32Checked buf.content 0).bind fun word =>
    let len := word.toInt
    if len > kMaxMessageLen ∨ len < kMinMessageLen then some (.fail .kInvalidLength)
    else
      (int32 (kHeaderLen + len)).bind fun total =>
      if toSize total ≤ buf.readableBytes then
        (window buf.content kHeaderLen len).bind fun received =>
        (parseChecked lib received len).bind fun
          | (some message, .kNoError) => some (.item message (toSize total))
          | (_, errorCode) => some (.fail errorCode)
      else some .more
  else some .more

/-- `retrieve` with its assertion. -/
def retrieveChecked (buf : Buffer) (len : ℕ) : Option Buffer :=
  if len ≤ buf.readableBytes then some (buf.retrieve len) else none

/-- At most `fuel` turns of the loop. -/
def loopChecked : ℕ → Buffer → Option (Buffer × List (Callback M))
  | 0, _ => none
  | fuel + 1, buf =>
    (turnChecked lib buf).bind fun
      | .more => some (buf, [])
      | .fail errorCode => some (buf, [.error errorCode])
      | .item message n =>
        (retrieveChecked buf n).bind fun next =>
        (loopChecked fuel next).map fun rest => (rest.1, .message message :: rest.2)

/-- Every turn retrieves at least one byte, so there are no more turns than bytes. -/
def onMessageChecked (buf : Buffer) : Option (Buffer × List (Callback M)) :=
  loopChecked lib (buf.readableBytes + 1) buf

theorem window_eq {bs : List UInt8} {i n : ℤ} (hi : 0 ≤ i) (hn : 0 ≤ n) (h : i + n ≤ bs.length) :
    window bs i n = some (slice bs i.toNat n.toNat) := if_pos ⟨hi, hn, h⟩

theorem asInt32Checked_eq {bs : List UInt8} {i : ℤ} (hi : 0 ≤ i) (h : i + 4 ≤ bs.length) :
    asInt32Checked bs i = some (asInt32 (bs.drop i.toNat)) := by
  rw [asInt32Checked, window_eq hi (by decide) h, Option.map_some, slice]
  exact congrArg some (asInt32_take _ (Nat.le_refl 4))

/-- Of a frame that is long enough `parse` reads nothing outside, whatever lengths stand
in it. -/
theorem parseChecked_eq {received : List UInt8} {len : ℤ} (hlen : (received.length : ℤ) = len)
    (hmin : kMinMessageLen ≤ len) (hmax : len ≤ kMaxMessageLen) :
    parseChecked lib received len = some (parse lib received len) := by
  have hsum : asInt32Checked received (len - kHeaderLen) =
      some (asInt32 (received.drop (len - kHeaderLen).toNat)) := by
    apply asInt32Checked_eq <;> simp only [kHeaderLen, kMinMessageLen] at * <;> omega
  have hsummed : window received 0 (len - kHeaderLen) =
      some (received.take (len - kHeaderLen).toNat) := by
    apply window_eq <;> simp only [kHeaderLen, kMinMessageLen] at * <;> omega
  have hname : asInt32Checked received 0 = some (asInt32 received) := by
    apply asInt32Checked_eq <;> simp only [kMinMessageLen] at * <;> omega
  have hint (n : ℤ) (h : 0 ≤ n) (h' : n ≤ len) : int32 n = some n := by
    apply int32_eq <;> simp only [kMaxMessageLen] at * <;> omega
  rw [parseChecked, parse, hint _ (by simp only [kHeaderLen, kMinMessageLen] at *; omega)
    (by simp only [kHeaderLen]; omega), Option.bind_some, hsum, Option.bind_some, hsummed,
    Option.bind_some]
  by_cases hchecked : lib.adler32 (received.take (len - kHeaderLen).toNat) =
      asInt32 (received.drop (len - kHeaderLen).toNat)
  · rw [if_pos hchecked, if_pos hchecked, hname, Option.bind_some,
      hint _ (by simp only [kHeaderLen, kMinMessageLen] at *; omega)
        (by simp only [kHeaderLen]; omega), Option.bind_some]
    by_cases hvalid : 2 ≤ (asInt32 received).toInt ∧
        (asInt32 received).toInt ≤ len - 2 * kHeaderLen
    · obtain ⟨htwo, hle⟩ := hvalid
      have htype : window received kHeaderLen ((asInt32 received).toInt - 1) =
          some (slice received kHeaderLen.toNat ((asInt32 received).toInt - 1).toNat) := by
        apply window_eq <;> simp only [kHeaderLen] at * <;> omega
      have hdata : window received (kHeaderLen + (asInt32 received).toInt)
            (len - (asInt32 received).toInt - 2 * kHeaderLen) =
          some ((received.drop (kHeaderLen + (asInt32 received).toInt).toNat).take
            (len - (asInt32 received).toInt - 2 * kHeaderLen).toNat) := by
        apply window_eq <;> simp only [kHeaderLen] at * <;> omega
      rw [if_pos ⟨htwo, hle⟩, if_pos ⟨htwo, hle⟩, htype, Option.bind_some]
      cases lib.createMessage (slice received kHeaderLen.toNat ((asInt32 received).toInt - 1).toNat) with
      | none => rfl
      | some message =>
        simp only [kHeaderLen] at hle
        simp only [hint (len - (asInt32 received).toInt) (by omega) (by omega),
          hint (len - (asInt32 received).toInt - 2 * kHeaderLen) (by simp only [kHeaderLen]; omega)
            (by simp only [kHeaderLen]; omega), hdata, Option.bind_some]
        rcases lib.ParseFromArray message _ with ⟨_ | _, parsed⟩
        · rfl
        · rfl
    · rw [if_neg hvalid, if_neg hvalid]
  · rw [if_neg hchecked, if_neg hchecked]

theorem length_window {buf : Buffer} (h : buf.Valid) {len : ℤ}
    (hframe : (kHeaderLen + len).toNat ≤ buf.readableBytes) (hlen : 0 ≤ len) :
    window buf.content kHeaderLen len = some (slice buf.content kHeaderLen.toNat len.toNat) ∧
      ((slice buf.content kHeaderLen.toNat len.toNat).length : ℤ) = len := by
  have hlength := h.length_content
  constructor
  · apply window_eq <;> simp only [kHeaderLen] at * <;> omega
  · rw [length_slice]
    · omega
    · simp only [kHeaderLen] at *
      omega

/-- One turn violates nothing and finds what the frame parser finds. -/
theorem turnChecked_eq {buf : Buffer} (h : buf.Valid) :
    turnChecked lib buf = some (front lib buf.content) := by
  have hlength := h.length_content
  have hleast : int32 (kHeaderLen + kMinMessageLen) = some (kHeaderLen + kMinMessageLen) := rfl
  have hleast' : toSize (kHeaderLen + kMinMessageLen) = (kHeaderLen + kMinMessageLen).toNat := rfl
  rw [turnChecked, front, hleast, Option.bind_some, hleast', hlength]
  by_cases hheader : (kHeaderLen + kMinMessageLen).toNat ≤ buf.readableBytes
  · have hword : asInt32Checked buf.content 0 = some (asInt32 buf.content) := by
      apply asInt32Checked_eq <;> simp only [kHeaderLen, kMinMessageLen] at * <;> omega
    rw [if_pos hheader, if_pos hheader, hword, Option.bind_some]
    by_cases hbad : (asInt32 buf.content).toInt > kMaxMessageLen ∨
        (asInt32 buf.content).toInt < kMinMessageLen
    · rw [if_pos hbad, if_pos hbad]
    · have hmin : kMinMessageLen ≤ (asInt32 buf.content).toInt := by omega
      have hmax : (asInt32 buf.content).toInt ≤ kMaxMessageLen := by omega
      have hpos : 0 ≤ (asInt32 buf.content).toInt := Int.le_trans (by decide) hmin
      have htotal : int32 (kHeaderLen + (asInt32 buf.content).toInt) =
          some (kHeaderLen + (asInt32 buf.content).toInt) := by
        apply int32_eq <;> simp only [kHeaderLen, kMaxMessageLen] at * <;> omega
      have hsize : toSize (kHeaderLen + (asInt32 buf.content).toInt) =
          (kHeaderLen + (asInt32 buf.content).toInt).toNat := by
        apply toSize_eq <;> simp only [kHeaderLen, kMaxMessageLen] at * <;> omega
      rw [if_neg hbad, if_neg hbad, htotal, Option.bind_some, hsize]
      by_cases hframe : (kHeaderLen + (asInt32 buf.content).toInt).toNat ≤ buf.readableBytes
      · obtain ⟨hreceived, hlen⟩ := length_window h hframe hpos
        rw [if_pos hframe, if_pos hframe, hreceived, Option.bind_some,
          parseChecked_eq lib hlen hmin hmax, Option.bind_some]
        have hparse : parse lib (slice buf.content kHeaderLen.toNat
              (asInt32 buf.content).toInt.toNat) (asInt32 buf.content).toInt =
            parse lib (buf.content.drop kHeaderLen.toNat) (asInt32 buf.content).toInt :=
          parse_take lib _ hmin
        rw [hparse]
        split <;> simp_all
      · rw [if_neg hframe, if_neg hframe]
  · rw [if_neg hheader, if_neg hheader]

theorem loopChecked_eq {fuel : ℕ} {buf : Buffer} (h : buf.Valid) (hfuel : buf.readableBytes < fuel) :
    loopChecked lib fuel buf = some (onMessage lib buf) := by
  induction fuel generalizing buf with
  | zero => omega
  | succ fuel ih =>
    rw [loopChecked, turnChecked_eq lib h, Option.bind_some, onMessage_eq_front lib h]
    cases hfront : front lib buf.content with
    | more => rfl
    | fail errorCode => rfl
    | item message n =>
      obtain ⟨hpos, hn⟩ := front_item_bounds lib hfront
      rw [h.length_content] at hn
      have hnext : retrieveChecked buf n = some (buf.retrieve n) := if_pos hn
      have hless : (buf.retrieve n).readableBytes < fuel := by
        simp only [Buffer.retrieve, Buffer.readableBytes] at *
        omega
      simp only [hnext, Option.bind_some, ih (h.retrieve hn).1 hless, Option.map_some]

/-- Whatever bytes have been received: `onMessage` and `parse` read inside the frame they
look at, the lengths they compute are not negative and fit into `int`, and no more is
retrieved than there is. -/
theorem onMessage_inBounds {buf : Buffer} (h : buf.Reachable) :
    onMessageChecked lib buf = some (onMessage lib buf) :=
  loopChecked_eq lib h.valid (Nat.lt_succ_self _)

/-- A length field with the sign bit set. -/
theorem onMessage_inBounds_negative :
    ∃ buf : Buffer, buf.content = [128, 0, 0, 0, 255, 255, 255, 255, 0, 0, 0, 0, 0, 0] ∧
      onMessageChecked .uninterpreted buf = some (onMessage .uninterpreted buf) := by
  obtain ⟨-, hcontent, -⟩ :=
    Buffer.valid_fresh.append [128, 0, 0, 0, 255, 255, 255, 255, 0, 0, 0, 0, 0, 0]
  exact ⟨_, hcontent, onMessage_inBounds .uninterpreted (reachable_append_fresh _)⟩

end ReactorNet.ProtobufCodec
