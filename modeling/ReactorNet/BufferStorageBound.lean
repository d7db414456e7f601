import ReactorNet.BufferByteQueue

/-!
# The storage of a buffer is bounded by its peak content

`retrieve` only advances the read index, so the space in front of it comes back when
`makeSpace` slides the content. A vector that grows instead has little space in front,
and its new size is bounded by the content and the request.
-/
namespace ReactorNet.Buffer

open VectorStorage GuardedRuns

/-- The bytes an operation asks room for. -/
def Op.demand : Op → Option ℕ
  | .append data => some data.length
  | .appendInt64 _ => some 8
  | .appendInt32 _ => some 4
  | .appendInt16 _ => some 2
  | .appendInt8 _ => some 1
  | .ensureWritableBytes len => some len
  | .readFd delivered => delivered.map List.length
  | .prepend _ | .retrieve _ | .retrieveUntil _ | .retrieveAll | .retrieveAsString
  | .written _ => none

/-- The content and the bytes asked for together stay within `M`. -/
def DemandWithin {ι : Type*} (M : ℕ) (c : ι → Buffer) : StoreOp ι → Prop
  | .on i op => ∀ len ∈ op.demand, (c i).readableBytes + len ≤ M
  | .swap _ _ => True

instance {ι : Type*} (M : ℕ) (c : ι → Buffer) (op : StoreOp ι) : Decidable (DemandWithin M c op) :=
  match op with
  | .on i op => inferInstanceAs (Decidable (∀ len ∈ op.demand, (c i).readableBytes + len ≤ M))
  | .swap _ _ => isTrue trivial

def storageBound (M : ℕ) : ℕ := max (kCheapPrepend + kInitialSize) (2 * M + kCheapPrepend)

theorem length_fresh_le (M : ℕ) : fresh.buffer_.length ≤ storageBound M := by
  rw [fresh, List.length_replicate]
  exact Nat.le_max_left _ _

namespace Valid

variable {b : Buffer} (h : b.Valid) {M : ℕ}
include h

/-- The vector grows only while the space in front is smaller than the request. -/
theorem length_grow_le {len : ℕ}
    (hroom : b.writableBytes + b.prependableBytes < len + kCheapPrepend)
    (hM : b.readableBytes + len ≤ M) : (b.grow len).buffer_.length ≤ 2 * M + kCheapPrepend := by
  have hw := h.reader_add_readable
  simp only [prependableBytes] at hroom
  have hsize : (b.grow len).buffer_.length = b.writerIndex_ + len := by
    simp only [Buffer.grow, List.length_append, List.length_take, List.length_replicate]
    omega
  calc (b.grow len).buffer_.length
      = b.readerIndex_ + (b.readableBytes + len) := by omega
    _ ≤ (len + kCheapPrepend) + (b.readableBytes + len) := by omega
    _ ≤ 2 * M + kCheapPrepend := by omega

theorem length_ensureWritableBytes_le {len : ℕ} (hM : b.readableBytes + len ≤ M)
    (hb : b.buffer_.length ≤ storageBound M) :
    (b.ensureWritableBytes len).buffer_.length ≤ storageBound M := by
  by_cases hlen : b.writableBytes < len
  · by_cases hroom : b.writableBytes + b.prependableBytes < len + kCheapPrepend
    · rw [Buffer.ensureWritableBytes, if_pos hlen, makeSpace, if_pos hroom]
      exact Nat.le_trans (h.length_grow_le hroom hM) (Nat.le_max_right _ _)
    · rw [Buffer.ensureWritableBytes, if_pos hlen, makeSpace, if_neg hroom, Buffer.slide,
        length_copyForward]
      exact hb
  · rw [Buffer.ensureWritableBytes, if_neg hlen]
    exact hb

theorem length_copyToWrite {data : List UInt8} (hd : data.length ≤ b.writableBytes) :
    (b.copyToWrite data).buffer_.length = b.buffer_.length := by
  apply length_overwrite
  have hl := h.writer_le
  simp only [writableBytes] at hd
  omega

theorem length_append_le {data : List UInt8} (hM : b.readableBytes + data.length ≤ M)
    (hb : b.buffer_.length ≤ storageBound M) :
    (b.append data).buffer_.length ≤ storageBound M := by
  obtain ⟨hv, -, -, hroom⟩ := h.ensureWritableBytes data.length
  rw [Buffer.append, hasWritten, hv.length_copyToWrite hroom]
  exact h.length_ensureWritableBytes_le hM hb

/-- What overflows into the stack buffer is appended to a vector that is filled up. -/
theorem length_readFd_le {data : List UInt8} (hM : b.readableBytes + data.length ≤ M)
    (hb : b.buffer_.length ≤ storageBound M) :
    (b.readFd (some data)).buffer_.length ≤ storageBound M := by
  have htake : (data.take b.writableBytes).length ≤ b.writableBytes := List.length_take_le _ _
  have hfilled := h.length_copyToWrite htake
  by_cases hd : data.length ≤ b.writableBytes
  · rw [Buffer.readFd, if_pos hd, hasWritten, hfilled]
    exact hb
  · obtain ⟨hv, -⟩ := h.readFd_fill data (Nat.lt_of_not_le hd)
    rw [Buffer.readFd, if_neg hd, hfilled]
    apply hv.length_append_le
    · have hw := h.reader_add_readable
      have hl := h.writer_le
      simp only [writableBytes] at hd
      simp only [readableBytes, copyToWrite, List.length_drop, writableBytes] at hM ⊢
      omega
    · rw [hfilled]
      exact hb

theorem length_apply_le {op : Op} (hl : op.Legal b)
    (hM : ∀ len ∈ op.demand, b.readableBytes + len ≤ M) (hb : b.buffer_.length ≤ storageBound M) :
    (op.apply b).buffer_.length ≤ storageBound M := by
  cases op with
  | append data => exact h.length_append_le (hM _ rfl) hb
  | appendInt64 x | appendInt32 x | appendInt16 x | appendInt8 x =>
    exact h.length_append_le (hM _ (by simp [Op.demand])) hb
  | ensureWritableBytes len => exact h.length_ensureWritableBytes_le (hM _ rfl) hb
  | readFd delivered =>
    cases delivered with
    | none => exact hb
    | some data => exact h.length_readFd_le (hM _ rfl) hb
  | written data =>
    rw [Op.apply, hasWritten, h.length_copyToWrite hl]
    exact hb
  | prepend data =>
    have hdata : data.length ≤ b.readerIndex_ := hl
    have hread := Nat.le_trans h.reader_le h.writer_le
    rw [Op.apply, Buffer.prepend, length_overwrite (by omega)]
    exact hb
  | retrieve _ | retrieveUntil _ | retrieveAll | retrieveAsString => exact hb

end Valid

variable {ι : Type*} [DecidableEq ι]

/-- The invariant of a run whose requests stay within `M`. -/
def Bounded (M : ℕ) (c : ι → Buffer) : Prop :=
  ∀ i, (c i).Valid ∧ (c i).buffer_.length ≤ storageBound M

theorem bounded_step (M : ℕ) (c : ι → Buffer) (op : StoreOp ι) (d : ι → Buffer)
    (h : Bounded M c) (hM : DemandWithin M c op) (hs : storeStep c op = some d) : Bounded M d := by
  apply forall_storeStep (P := fun b => b.Valid ∧ b.buffer_.length ≤ storageBound M) h _ hs
  intro i o ho hl
  cases ho
  exact ⟨((h i).1.apply hl).1, (h i).1.length_apply_le hl hM (h i).2⟩

/-- In every run in which content and request together never exceed `M` bytes, no
vector outgrows the bound, whatever the number of bytes that passed through. -/
theorem storage_le_peak {M : ℕ} {ops : List (StoreOp ι)} {c : ι → Buffer}
    (hM : Meets storeStep (DemandWithin M) (fun _ => fresh) ops)
    (hr : run storeStep (fun _ => fresh) ops = some c) (i : ι) :
    (c i).buffer_.length ≤ max (kCheapPrepend + kInitialSize) (2 * M + kCheapPrepend) :=
  (meets_invariant (bounded_step M) (fun _ => ⟨valid_fresh, length_fresh_le M⟩) hM hr i).2

/-- A buffer that is filled, read and filled again. -/
theorem storage_le_peak_refilled :
    ∃ c : Bool → Buffer,
      run storeStep (fun _ => fresh) [.on true (.append [1, 2, 3]), .on true (.retrieve 2),
        .on true (.ensureWritableBytes 1022), .on true (.prepend [9]),
        .on true (.append [4])] = some c ∧
      (c true).buffer_.length ≤ max (kCheapPrepend + kInitialSize) (2 * 1023 + kCheapPrepend) := by
  obtain ⟨c, hc⟩ := Option.isSome_iff_exists.mp (show (run storeStep (fun _ => fresh)
    [.on true (.append [1, 2, 3]), .on true (.retrieve 2), .on true (.ensureWritableBytes 1022),
      .on true (.prepend [9]), .on true (.append [4])]).isSome by decide +kernel)
  exact ⟨c, hc, storage_le_peak (by decide +kernel) hc true⟩

end ReactorNet.Buffer
