import ReactorNet.Buffer
import ReactorNet.GuardedRuns
import Mathlib.Logic.Function.Basic
import Mathlib.Tactic.TypeStar

/-!
# The buffer is a byte queue

The representation invariant of a single buffer, the effect of every operation on
the readable bytes, and the refinement of a store of buffers by a store of byte
queues over arbitrary runs.
-/
namespace ReactorNet.Buffer

open VectorStorage NetworkByteOrder GuardedRuns

/-- The order of the indices that every operation relies on. -/
structure Valid (b : Buffer) : Prop where
  reader_le : b.readerIndex_ ≤ b.writerIndex_
  writer_le : b.writerIndex_ ≤ b.buffer_.length
  prepend_le : kCheapPrepend ≤ b.writerIndex_

theorem valid_fresh : fresh.Valid where
  reader_le := Nat.le_refl _
  writer_le := by
    rw [fresh, List.length_replicate]
    exact Nat.le_add_right _ _
  prepend_le := Nat.le_refl _

@[simp] theorem content_fresh : fresh.content = [] := by
  simp [content, fresh, readableBytes]

/-- Making room never uses up the room in front that is reserved for `prepend`. -/
theorem kCheapPrepend_le_ensureWritableBytes {b : Buffer}
    (hp : kCheapPrepend ≤ b.readerIndex_) (len : ℕ) :
    kCheapPrepend ≤ (b.ensureWritableBytes len).readerIndex_ := by
  by_cases hlen : b.writableBytes < len
  · by_cases hroom : b.writableBytes + b.prependableBytes < len + kCheapPrepend
    · simpa [ensureWritableBytes, makeSpace, hlen, hroom, grow] using hp
    · simp [ensureWritableBytes, makeSpace, hlen, hroom, slide]
  · simpa [ensureWritableBytes, hlen] using hp

theorem kCheapPrepend_le_written {b : Buffer} (hp : kCheapPrepend ≤ b.readerIndex_)
    (data : List UInt8) :
    kCheapPrepend ≤ ((b.copyToWrite data).hasWritten data.length).readerIndex_ := hp

theorem kCheapPrepend_le_append {b : Buffer} (hp : kCheapPrepend ≤ b.readerIndex_)
    (data : List UInt8) : kCheapPrepend ≤ (b.append data).readerIndex_ :=
  kCheapPrepend_le_written (kCheapPrepend_le_ensureWritableBytes hp data.length) data

namespace Valid

variable {b : Buffer} (h : b.Valid)
include h

theorem reader_add_readable : b.readerIndex_ + b.readableBytes = b.writerIndex_ :=
  Nat.add_sub_cancel' h.reader_le

theorem length_content : b.content.length = b.readableBytes := by
  apply length_slice
  have hw := h.reader_add_readable
  have hl := h.writer_le
  omega

theorem grow (len : ℕ) (hlen : b.writableBytes < len) :
    (b.grow len).Valid ∧ (b.grow len).content = b.content ∧
      len ≤ (b.grow len).writableBytes := by
  have hlt : b.buffer_.length ≤ b.writerIndex_ + len := by
    simp only [writableBytes] at hlen
    omega
  have hbuf : (b.grow len).buffer_ =
      b.buffer_ ++ List.replicate (b.writerIndex_ + len - b.buffer_.length) 0 := by
    simp [Buffer.grow, List.take_of_length_le hlt]
  have hw := h.reader_add_readable
  have hl := h.writer_le
  refine ⟨⟨h.reader_le, ?_, h.prepend_le⟩, ?_, ?_⟩
  · rw [hbuf, List.length_append]
    change b.writerIndex_ ≤ _
    omega
  · rw [content, hbuf]
    exact slice_append_left (hw.symm ▸ hl) _
  · rw [writableBytes, hbuf, List.length_append, List.length_replicate]
    change len ≤ _ - b.writerIndex_
    omega

theorem slide (len : ℕ) (hlen : b.writableBytes < len)
    (hroom : len + kCheapPrepend ≤ b.writableBytes + b.prependableBytes) :
    b.slide.Valid ∧ b.slide.content = b.content ∧ len ≤ b.slide.writableBytes ∧
      kCheapPrepend < b.readerIndex_ ∧ b.readableBytes = b.slide.readableBytes := by
  have hw := h.reader_add_readable
  have hl := h.writer_le
  simp only [prependableBytes] at hroom
  have hread : b.slide.readableBytes = b.readableBytes := by
    simp [Buffer.slide, readableBytes]
  have hlength : b.slide.buffer_.length = b.buffer_.length := length_copyForward ..
  simp only [writableBytes] at hlen hroom ⊢
  rw [hlength]
  refine ⟨⟨?_, ?_, ?_⟩, ?_, ?_, by omega, hread.symm⟩
  · simp [Buffer.slide]
  · rw [hlength]
    simp only [Buffer.slide]
    omega
  · simp [Buffer.slide]
  · rw [content, hread]
    exact slice_copyForward (by omega) (by omega)
  · simp only [Buffer.slide]
    omega

/-- `ensureWritableBytes` keeps the readable bytes, makes the room it promises, and
meets its assertions, the one on the read index in `makeSpace` included. -/
theorem ensureWritableBytes (len : ℕ) :
    (b.ensureWritableBytes len).Valid ∧ (b.ensureWritableBytes len).content = b.content ∧
      b.ensureWritableBytesAssert len := by
  by_cases hlen : b.writableBytes < len
  · by_cases hroom : b.writableBytes + b.prependableBytes < len + kCheapPrepend
    · obtain ⟨hv, hc, hspace⟩ := h.grow len hlen
      simpa [ensureWritableBytesAssert, makeSpaceAssert, Buffer.ensureWritableBytes, makeSpace,
        hlen, hroom] using ⟨hv, hc, hspace⟩
    · obtain ⟨hv, hc, hspace, hread, heq⟩ := h.slide len hlen (Nat.le_of_not_lt hroom)
      simpa [ensureWritableBytesAssert, makeSpaceAssert, Buffer.ensureWritableBytes, makeSpace,
        hlen, hroom] using ⟨hv, hc, ⟨hread, heq⟩, hspace⟩
  · simpa [ensureWritableBytesAssert, Buffer.ensureWritableBytes, hlen] using
      And.intro h (Nat.le_of_not_lt hlen)

/-- Bytes copied to `beginWrite()` and then claimed become the last readable ones. -/
theorem copyToWrite_hasWritten {data : List UInt8} (hd : data.length ≤ b.writableBytes) :
    ((b.copyToWrite data).hasWritten data.length).Valid ∧
      ((b.copyToWrite data).hasWritten data.length).content = b.content ++ data := by
  have hw := h.reader_add_readable
  have hl := h.writer_le
  have hp := h.prepend_le
  simp only [writableBytes] at hd
  have hroom : b.writerIndex_ + data.length ≤ b.buffer_.length := by omega
  have hread : ((b.copyToWrite data).hasWritten data.length).readableBytes =
      b.readableBytes + data.length := by
    simp only [copyToWrite, hasWritten, readableBytes] at hw ⊢
    omega
  refine ⟨⟨?_, ?_, ?_⟩, ?_⟩
  · simp only [copyToWrite, hasWritten]
    omega
  · simpa [copyToWrite, hasWritten, length_overwrite hroom] using hroom
  · simp only [copyToWrite, hasWritten]
    omega
  · rw [content, hread]
    simp only [copyToWrite, hasWritten, ← hw]
    exact slice_overwrite_end (by omega)

theorem append (data : List UInt8) :
    (b.append data).Valid ∧ (b.append data).content = b.content ++ data ∧ b.appendAssert data := by
  obtain ⟨hv, hc, ha⟩ := h.ensureWritableBytes data.length
  obtain ⟨hv', hc'⟩ := hv.copyToWrite_hasWritten ha.2
  exact ⟨hv', by rw [← hc]; exact hc', ha⟩

theorem prepend {data : List UInt8} (hd : data.length ≤ b.prependableBytes) :
    (b.prepend data).Valid ∧ (b.prepend data).content = data ++ b.content := by
  have hw := h.reader_add_readable
  have hl := h.writer_le
  have hp := h.prepend_le
  simp only [prependableBytes] at hd
  have hback : b.readerIndex_ - data.length + data.length = b.readerIndex_ := by omega
  have hread : (b.prepend data).readableBytes = data.length + b.readableBytes := by
    simp only [Buffer.prepend, readableBytes] at hw ⊢
    omega
  have hroom : b.readerIndex_ - data.length + data.length ≤ b.buffer_.length := by omega
  refine ⟨⟨?_, ?_, hp⟩, ?_⟩
  · simp only [Buffer.prepend]
    omega
  · simpa [Buffer.prepend, length_overwrite hroom] using hl
  · rw [content, hread, content]
    have hs : slice (overwrite b.buffer_ (b.readerIndex_ - data.length) data)
        (b.readerIndex_ - data.length) (data.length + b.readableBytes) =
        data ++ slice b.buffer_ (b.readerIndex_ - data.length + data.length) b.readableBytes :=
      slice_overwrite_front (by omega)
    rw [hback] at hs
    exact hs

theorem retrieve {len : ℕ} (hlen : len ≤ b.readableBytes) :
    (b.retrieve len).Valid ∧ (b.retrieve len).content = b.content.drop len := by
  have hw := h.reader_add_readable
  refine ⟨⟨?_, h.writer_le, h.prepend_le⟩, ?_⟩
  · simp only [Buffer.retrieve]
    omega
  · have hread : (b.retrieve len).readableBytes = b.readableBytes - len := by
      simp only [Buffer.retrieve, readableBytes]
      omega
    rw [content, hread, content, drop_slice]
    rfl

theorem retrieveAll : b.retrieveAll.Valid ∧ b.retrieveAll.content = [] := by
  refine ⟨⟨Nat.le_refl _, Nat.le_trans h.prepend_le h.writer_le, Nat.le_refl _⟩, ?_⟩
  simp [content, Buffer.retrieveAll, readableBytes]

/-- A `readFd` that overflows into the stack buffer first fills the vector. -/
theorem readFd_fill (data : List UInt8) (hd : b.writableBytes < data.length) :
    ({ b.copyToWrite (data.take b.writableBytes) with
        writerIndex_ := b.buffer_.length } : Buffer).Valid ∧
      ({ b.copyToWrite (data.take b.writableBytes) with
        writerIndex_ := b.buffer_.length } : Buffer).content =
          b.content ++ data.take b.writableBytes := by
  have htake : (data.take b.writableBytes).length = b.writableBytes := by
    rw [List.length_take]
    omega
  have hfill := h.copyToWrite_hasWritten (Nat.le_of_eq htake)
  have heq : (b.copyToWrite (data.take b.writableBytes)).hasWritten b.writableBytes =
      { b.copyToWrite (data.take b.writableBytes) with writerIndex_ := b.buffer_.length } := by
    have hl := h.writer_le
    simp only [hasWritten, copyToWrite, writableBytes, Buffer.mk.injEq, true_and]
    omega
  rw [htake, heq] at hfill
  exact hfill

theorem readFd (delivered : Option (List UInt8)) :
    (b.readFd delivered).Valid ∧ (b.readFd delivered).content = b.content ++ delivered.getD [] ∧
      b.readFdAssert delivered := by
  cases delivered with
  | none => simpa [Buffer.readFd, readFdAssert] using h
  | some data =>
    by_cases hd : data.length ≤ b.writableBytes
    · obtain ⟨hv, hc⟩ := h.copyToWrite_hasWritten hd
      simpa [Buffer.readFd, readFdAssert, hd, List.take_of_length_le hd] using ⟨hv, hc⟩
    · obtain ⟨hv, hc⟩ := h.readFd_fill data (Nat.lt_of_not_le hd)
      obtain ⟨hv', hc', ha⟩ := hv.append (data.drop b.writableBytes)
      have hlength : (b.copyToWrite (data.take b.writableBytes)).buffer_.length =
          b.buffer_.length := by
        have hl := h.writer_le
        apply length_overwrite
        simp only [List.length_take, writableBytes]
        omega
      simp only [Buffer.readFd, hd, if_false, hlength, readFdAssert, false_or, Option.getD_some]
      refine ⟨hv', ?_, ha⟩
      rw [hc', hc, List.append_assoc, List.take_append_drop]

end Valid

/-! ## Runs over a store of buffers -/

/-- The public operations; the argument of `retrieveUntil` is counted from `peek()`,
and `written` stands for filling bytes in at `beginWrite()` and claiming them. -/
inductive Op where
  | append (data : List UInt8)
  | appendInt64 (x : BitVec 64)
  | appendInt32 (x : BitVec 32)
  | appendInt16 (x : BitVec 16)
  | appendInt8 (x : BitVec 8)
  | prepend (data : List UInt8)
  | retrieve (len : ℕ)
  | retrieveUntil (len : ℕ)
  | retrieveAll
  | retrieveAsString
  | ensureWritableBytes (len : ℕ)
  | written (data : List UInt8)
  | readFd (delivered : Option (List UInt8))

def Op.apply (b : Buffer) : Op → Buffer
  | .append data => b.append data
  | .appendInt64 x => b.appendInt64 x
  | .appendInt32 x => b.appendInt32 x
  | .appendInt16 x => b.appendInt16 x
  | .appendInt8 x => b.appendInt8 x
  | .prepend data => b.prepend data
  | .retrieve len => b.retrieve len
  | .retrieveUntil len => b.retrieveUntil (b.readerIndex_ + len)
  | .retrieveAll => b.retrieveAll
  | .retrieveAsString => b.retrieveAsString.2
  | .ensureWritableBytes len => b.ensureWritableBytes len
  | .written data => (b.copyToWrite data).hasWritten data.length
  | .readFd delivered => b.readFd delivered

/-- What the caller of an operation has to see to. -/
def Op.Legal (b : Buffer) : Op → Prop
  | .prepend data => data.length ≤ b.prependableBytes
  | .retrieve len | .retrieveUntil len => len ≤ b.readableBytes
  | .written data => data.length ≤ b.writableBytes
  | .readFd delivered => (delivered.getD []).length ≤ b.writableBytes + kExtraBuf
  | _ => True

instance (b : Buffer) (op : Op) : Decidable (op.Legal b) :=
  match op with
  | .prepend data => inferInstanceAs (Decidable (data.length ≤ b.prependableBytes))
  | .retrieve len | .retrieveUntil len => inferInstanceAs (Decidable (len ≤ b.readableBytes))
  | .written data => inferInstanceAs (Decidable (data.length ≤ b.writableBytes))
  | .readFd delivered =>
    inferInstanceAs (Decidable ((delivered.getD []).length ≤ b.writableBytes + kExtraBuf))
  | .append _ | .appendInt64 _ | .appendInt32 _ | .appendInt16 _ | .appendInt8 _
  | .retrieveAll | .retrieveAsString | .ensureWritableBytes _ => isTrue trivial

/-- Every assertion the operation evaluates. -/
def Op.Assert (b : Buffer) : Op → Prop
  | .append data => b.appendAssert data
  | .appendInt64 x => b.appendAssert (hostToNetwork 8 x)
  | .appendInt32 x => b.appendAssert (hostToNetwork 4 x)
  | .appendInt16 x => b.appendAssert (hostToNetwork 2 x)
  | .appendInt8 x => b.appendAssert (hostToNetwork 1 x)
  | .prepend data => b.prependAssert data
  | .retrieve len => b.retrieveAssert len
  | .retrieveUntil len => b.retrieveUntilAssert (b.readerIndex_ + len)
  | .ensureWritableBytes len => b.ensureWritableBytesAssert len
  | .readFd delivered => b.readFdAssert delivered
  | .retrieveAll | .retrieveAsString | .written _ => True

/-- The operation on an abstract byte queue, first byte first. -/
def Op.onQueue (q : List UInt8) : Op → Option (List UInt8)
  | .append data | .written data => some (q ++ data)
  | .appendInt64 x => some (q ++ hostToNetwork 8 x)
  | .appendInt32 x => some (q ++ hostToNetwork 4 x)
  | .appendInt16 x => some (q ++ hostToNetwork 2 x)
  | .appendInt8 x => some (q ++ hostToNetwork 1 x)
  | .prepend data => some (data ++ q)
  | .retrieve len | .retrieveUntil len => if len ≤ q.length then some (q.drop len) else none
  | .retrieveAll | .retrieveAsString => some []
  | .ensureWritableBytes _ => some q
  | .readFd delivered => some (q ++ delivered.getD [])

/-- One operation on a valid buffer: the invariant is kept, the readable bytes change as
the queue does, and no assertion fails. -/
theorem Valid.apply {b : Buffer} (h : b.Valid) {op : Op} (hl : op.Legal b) :
    (op.apply b).Valid ∧ op.onQueue b.content = some (op.apply b).content ∧ op.Assert b := by
  cases op with
  | append data =>
    obtain ⟨hv, hc, ha⟩ := h.append data
    exact ⟨hv, congrArg some hc.symm, ha⟩
  | appendInt64 x =>
    obtain ⟨hv, hc, ha⟩ := h.append (hostToNetwork 8 x)
    exact ⟨hv, congrArg some hc.symm, ha⟩
  | appendInt32 x =>
    obtain ⟨hv, hc, ha⟩ := h.append (hostToNetwork 4 x)
    exact ⟨hv, congrArg some hc.symm, ha⟩
  | appendInt16 x =>
    obtain ⟨hv, hc, ha⟩ := h.append (hostToNetwork 2 x)
    exact ⟨hv, congrArg some hc.symm, ha⟩
  | appendInt8 x =>
    obtain ⟨hv, hc, ha⟩ := h.append (hostToNetwork 1 x)
    exact ⟨hv, congrArg some hc.symm, ha⟩
  | prepend data =>
    obtain ⟨hv, hc⟩ := h.prepend hl
    exact ⟨hv, congrArg some hc.symm, hl⟩
  | retrieve len =>
    obtain ⟨hv, hc⟩ := h.retrieve hl
    refine ⟨hv, ?_, hl⟩
    rw [Op.onQueue, if_pos (h.length_content ▸ hl)]
    exact congrArg some hc.symm
  | retrieveUntil len =>
    have hw := h.reader_add_readable
    have hlen : len ≤ b.readableBytes := hl
    obtain ⟨hv, hc⟩ := h.retrieve hlen
    simp only [Op.apply, Op.Assert, retrieveUntil, retrieveUntilAssert, retrieveAssert,
      Nat.add_sub_cancel_left]
    refine ⟨hv, ?_, by omega, by omega, hlen⟩
    rw [Op.onQueue, if_pos (h.length_content ▸ hlen), hc]
  | retrieveAll => exact ⟨h.retrieveAll.1, congrArg some h.retrieveAll.2.symm, trivial⟩
  | retrieveAsString => exact ⟨h.retrieveAll.1, congrArg some h.retrieveAll.2.symm, trivial⟩
  | ensureWritableBytes len =>
    obtain ⟨hv, hc, ha⟩ := h.ensureWritableBytes len
    exact ⟨hv, congrArg some hc.symm, ha⟩
  | written data =>
    obtain ⟨hv, hc⟩ := h.copyToWrite_hasWritten hl
    exact ⟨hv, congrArg some hc.symm, trivial⟩
  | readFd delivered =>
    obtain ⟨hv, hc, ha⟩ := h.readFd delivered
    exact ⟨hv, congrArg some hc.symm, ha⟩

/-- An operation on one buffer of a store, or the swap of two of them. -/
inductive StoreOp (ι : Type*) where
  | on (i : ι) (op : Op)
  | swap (i j : ι)

section Store

variable {ι : Type*} [DecidableEq ι]

def storeStep (c : ι → Buffer) : StoreOp ι → Option (ι → Buffer)
  | .on i op => if op.Legal (c i) then some (Function.update c i (op.apply (c i))) else none
  | .swap i j =>
    let swapped := (c i).swap (c j)
    some (Function.update (Function.update c i swapped.1) j swapped.2)

theorem forall_update {P : Buffer → Prop} {c : ι → Buffer} (h : ∀ i, P (c i)) (i : ι)
    {b : Buffer} (hb : P b) : ∀ j, P (Function.update c i b j) :=
  (Function.forall_update_iff c fun _ => P).mpr ⟨hb, fun j _ => h j⟩

/-- What holds of each buffer of a store stays so if the operations on one buffer keep it. -/
theorem forall_storeStep {P : Buffer → Prop} {c d : ι → Buffer} {op : StoreOp ι}
    (h : ∀ i, P (c i)) (happly : ∀ i o, op = .on i o → o.Legal (c i) → P (o.apply (c i)))
    (hs : storeStep c op = some d) : ∀ i, P (d i) := by
  cases op with
  | on i op =>
    simp only [storeStep, Option.ite_none_right_eq_some, Option.some.injEq] at hs
    obtain ⟨hl, rfl⟩ := hs
    exact forall_update h i (happly i op rfl hl)
  | swap i j =>
    cases hs
    exact forall_update (forall_update h i (h j)) j (h i)

def queueStep (q : ι → List UInt8) : StoreOp ι → Option (ι → List UInt8)
  | .on i op => (op.onQueue (q i)).map (Function.update q i)
  | .swap i j => some (Function.update (Function.update q i (q j)) j (q i))

/-- The queue that each buffer of a store stands for. -/
def Refines (c : ι → Buffer) (q : ι → List UInt8) : Prop :=
  ∀ i, (c i).Valid ∧ (c i).content = q i

theorem Refines.update {c : ι → Buffer} {q : ι → List UInt8} (h : Refines c q) (i : ι)
    {b : Buffer} {xs : List UInt8} (hv : b.Valid) (hc : b.content = xs) :
    Refines (Function.update c i b) (Function.update q i xs) := by
  intro j
  by_cases hj : j = i
  · subst hj
    simpa using ⟨hv, hc⟩
  · simpa [hj] using h j

theorem refines_step (c : ι → Buffer) (q : ι → List UInt8) (op : StoreOp ι) (d : ι → Buffer)
    (h : Refines c q) (hs : storeStep c op = some d) :
    ∃ r, queueStep q op = some r ∧ Refines d r := by
  cases op with
  | on i op =>
    simp only [storeStep, Option.ite_none_right_eq_some, Option.some.injEq] at hs
    obtain ⟨hl, rfl⟩ := hs
    obtain ⟨hv, hq, -⟩ := (h i).1.apply hl
    rw [(h i).2] at hq
    exact ⟨_, by simp [queueStep, hq], h.update i hv rfl⟩
  | swap i j =>
    cases hs
    exact ⟨_, rfl, (h.update i (h j).1 (h j).2).update j (h i).1 (h i).2⟩

/-- A buffer that some sequence of operations leads to. -/
def Reachable (b : Buffer) : Prop :=
  ∃ (ops : List (StoreOp ℕ)) (c : ℕ → Buffer) (i : ℕ),
    run storeStep (fun _ => fresh) ops = some c ∧ c i = b

theorem reachable_fresh : fresh.Reachable := ⟨[], fun _ => fresh, 0, rfl, rfl⟩

theorem refines_run {ops : List (StoreOp ι)} {c : ι → Buffer}
    (hr : run storeStep (fun _ => fresh) ops = some c) :
    ∃ q, run queueStep (fun _ => []) ops = some q ∧ Refines c q :=
  run_simulation refines_step (fun _ => ⟨valid_fresh, content_fresh⟩) hr

theorem Reachable.valid {b : Buffer} (h : b.Reachable) : b.Valid := by
  obtain ⟨ops, c, i, hr, rfl⟩ := h
  obtain ⟨q, -, hq⟩ := refines_run hr
  exact (hq i).1

/-- Every run over a store of buffers is a run of byte queues with the same operations:
the readable bytes are the queue, the indices stay in order, no assertion fails, and
`ensureWritableBytes` makes the room it was asked for. -/
theorem store_refines_byteQueues {ops : List (StoreOp ι)} {c : ι → Buffer}
    (hr : run storeStep (fun _ => fresh) ops = some c) :
    run queueStep (fun _ => []) ops = some (fun i => (c i).content) ∧
      (∀ i, (c i).readerIndex_ ≤ (c i).writerIndex_ ∧
        (c i).writerIndex_ ≤ (c i).buffer_.length ∧ kCheapPrepend ≤ (c i).writerIndex_) ∧
      (∀ i (op : Op), op.Legal (c i) → op.Assert (c i)) ∧
      (∀ i len, len ≤ ((c i).ensureWritableBytes len).writableBytes) ∧
      ∀ i len, (c i).writableBytes < len →
        ¬ (c i).writableBytes + (c i).prependableBytes < len + kCheapPrepend →
          kCheapPrepend < (c i).readerIndex_ := by
  obtain ⟨q, hq, href⟩ := refines_run hr
  have hcontent : q = fun i => (c i).content := funext fun i => (href i).2.symm
  refine ⟨hcontent ▸ hq, fun i => ?_, fun i op hl => ((href i).1.apply hl).2.2, fun i len => ?_,
    fun i len hlen hroom => ?_⟩
  · exact ⟨(href i).1.reader_le, (href i).1.writer_le, (href i).1.prepend_le⟩
  · exact ((href i).1.ensureWritableBytes len).2.2.2
  · exact (((href i).1.slide len hlen (Nat.le_of_not_lt hroom)).2.2.2).1

end Store

/-- Two buffers: one is filled, partly retrieved, prepended to, and swapped away. -/
theorem store_refines_byteQueues_two :
    ∃ c : Bool → Buffer,
      run storeStep (fun _ => fresh) [.on true (.append [1, 2, 3]), .on true (.retrieve 2),
        .on true (.prepend [9]), .swap true false, .on true (.readFd (some [7]))] = some c ∧
      run queueStep (fun _ => []) [.on true (.append [1, 2, 3]), .on true (.retrieve 2),
        .on true (.prepend [9]), .swap true false, .on true (.readFd (some [7]))] =
          some (fun i => (c i).content) := by
  obtain ⟨c, hc⟩ := Option.isSome_iff_exists.mp (show (run storeStep (fun _ => fresh)
    [.on true (.append [1, 2, 3]), .on true (.retrieve 2), .on true (.prepend [9]),
      .swap true false, .on true (.readFd (some [7]))]).isSome by decide +kernel)
  exact ⟨c, hc, (store_refines_byteQueues hc).1⟩

end ReactorNet.Buffer
