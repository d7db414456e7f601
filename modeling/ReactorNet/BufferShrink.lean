import ReactorNet.BufferByteQueue

/-!
# Shrinking a buffer

`shrink` moves the readable bytes to a vector of their own size, but leaves the two
indices where they stood in the old one. Runs with `shrink` reach buffers whose indices
point beyond the vector; an operation on such a buffer is a step only where it stays
inside the vector.
-/
namespace ReactorNet.Buffer

open VectorStorage GuardedRuns

/-- The readable window lies in the vector. -/
def Inside (b : Buffer) : Prop := b.writerIndex_ ≤ b.buffer_.length

instance (b : Buffer) : Decidable b.Inside :=
  inferInstanceAs (Decidable (b.writerIndex_ ≤ b.buffer_.length))

/-- `none` where the readable bytes would be read from outside the vector. -/
def shrink (b : Buffer) (reserve : ℕ) : Option Buffer :=
  if b.Inside then
    let buf := List.replicate (kCheapPrepend + b.readableBytes + reserve) 0
    some { b with buffer_ := overwrite buf kCheapPrepend b.content }
  else none

/-- What `shrink` is for: the readable bytes stay, the indices stay in order inside the
vector, and there is room for `reserve` bytes. -/
def ShrinkKeeps (b : Buffer) (reserve : ℕ) : Prop :=
  ∃ s, b.shrink reserve = some s ∧ s.content = b.content ∧
    s.readerIndex_ ≤ s.writerIndex_ ∧ s.writerIndex_ ≤ s.buffer_.length ∧
    reserve ≤ s.writableBytes

/-- The read index stands where `shrink` puts the content, or in front of it while the
content cannot be told from the fill bytes. -/
def ShrinkFits (b : Buffer) : Prop :=
  b.Inside ∧ (b.readerIndex_ = kCheapPrepend ∨
    b.readerIndex_ < kCheapPrepend ∧ ∀ byte ∈ b.content, byte = 0)

instance (b : Buffer) : Decidable b.ShrinkFits :=
  inferInstanceAs (Decidable (b.Inside ∧ (b.readerIndex_ = kCheapPrepend ∨
    b.readerIndex_ < kCheapPrepend ∧ ∀ byte ∈ b.content, byte = 0)))

variable {ι : Type*}

inductive ShrinkOp (ι : Type*) where
  | store (op : StoreOp ι)
  | shrink (i : ι) (reserve : ℕ)

/-- Whether the operation reads and writes inside the vector only. -/
def Op.Defined (b : Buffer) : Op → Prop
  | .retrieve _ | .retrieveAll => True
  | .prepend _ => b.readerIndex_ ≤ b.buffer_.length
  | _ => b.Inside

instance (b : Buffer) (op : Op) : Decidable (op.Defined b) :=
  match op with
  | .retrieve _ | .retrieveAll => isTrue trivial
  | .prepend _ => inferInstanceAs (Decidable (b.readerIndex_ ≤ b.buffer_.length))
  | .append _ | .appendInt64 _ | .appendInt32 _ | .appendInt16 _ | .appendInt8 _
  | .retrieveUntil _ | .retrieveAsString | .ensureWritableBytes _ | .written _ | .readFd _ =>
    inferInstanceAs (Decidable b.Inside)

section Store

variable [DecidableEq ι]

def shrinkStep (c : ι → Buffer) : ShrinkOp ι → Option (ι → Buffer)
  | .store (.on i op) => if op.Defined (c i) then storeStep c (.on i op) else none
  | .store (.swap i j) => storeStep c (.swap i j)
  | .shrink i reserve => ((c i).shrink reserve).map (Function.update c i)

end Store

/-- A buffer that some sequence of operations leads to, `shrink` among them. -/
def ShrinkReachable (b : Buffer) : Prop :=
  ∃ (ops : List (ShrinkOp ℕ)) (c : ℕ → Buffer) (i : ℕ),
    run shrinkStep (fun _ => fresh) ops = some c ∧ c i = b

/-- What is left of the order of the indices when `shrink` is among the operations. -/
structure Ordered (b : Buffer) : Prop where
  reader_le : b.readerIndex_ ≤ b.writerIndex_
  prepend_le : kCheapPrepend ≤ b.writerIndex_
  prepend_le_length : kCheapPrepend ≤ b.buffer_.length

theorem Valid.ordered {b : Buffer} (h : b.Valid) : b.Ordered where
  reader_le := h.reader_le
  prepend_le := h.prepend_le
  prepend_le_length := Nat.le_trans h.prepend_le h.writer_le

theorem Ordered.valid {b : Buffer} (h : b.Ordered) (hi : b.Inside) : b.Valid where
  reader_le := h.reader_le
  writer_le := hi
  prepend_le := h.prepend_le

/-- The vector that `shrink` swaps in. -/
theorem shrink_eq_some {b s : Buffer} {reserve : ℕ} (hs : b.shrink reserve = some s) :
    b.Inside ∧ s.readerIndex_ = b.readerIndex_ ∧ s.writerIndex_ = b.writerIndex_ ∧
      s.buffer_ = overwrite (List.replicate (kCheapPrepend + b.readableBytes + reserve) 0)
        kCheapPrepend b.content := by
  simp only [shrink, Option.ite_none_right_eq_some, Option.some.injEq] at hs
  obtain ⟨hi, rfl⟩ := hs
  exact ⟨hi, rfl, rfl, rfl⟩

section Shrunk

variable {b s : Buffer} {reserve : ℕ} (h : b.Ordered) (hs : b.shrink reserve = some s)
include h hs

theorem content_fits_shrunk :
    kCheapPrepend + b.content.length ≤
      (List.replicate (kCheapPrepend + b.readableBytes + reserve) (0 : UInt8)).length := by
  rw [List.length_replicate, (h.valid (shrink_eq_some hs).1).length_content]
  exact Nat.le_add_right _ _

theorem length_shrunk : s.buffer_.length = kCheapPrepend + b.readableBytes + reserve := by
  rw [(shrink_eq_some hs).2.2.2, length_overwrite (content_fits_shrunk h hs),
    List.length_replicate]

omit h in
theorem readableBytes_shrunk : s.readableBytes = b.readableBytes := by
  rw [readableBytes, (shrink_eq_some hs).2.1, (shrink_eq_some hs).2.2.1, readableBytes]

theorem Ordered.shrunk : s.Ordered where
  reader_le := by
    rw [(shrink_eq_some hs).2.1, (shrink_eq_some hs).2.2.1]
    exact h.reader_le
  prepend_le := by
    rw [(shrink_eq_some hs).2.2.1]
    exact h.prepend_le
  prepend_le_length := by
    rw [length_shrunk h hs, Nat.add_assoc]
    exact Nat.le_add_right _ _

/-- The room and the order of the indices are kept exactly where nothing in front of the
content is left behind. -/
theorem room_shrunk_iff :
    s.writerIndex_ ≤ s.buffer_.length ∧ reserve ≤ s.writableBytes ↔
      b.readerIndex_ ≤ kCheapPrepend := by
  have hw := (h.valid (shrink_eq_some hs).1).reader_add_readable
  rw [writableBytes, length_shrunk h hs, (shrink_eq_some hs).2.2.1]
  omega

/-- The old read index sees fill bytes first and the content behind them. -/
theorem getElem?_shrunk {k : ℕ} (hr : b.readerIndex_ ≤ kCheapPrepend)
    (hk : k < b.readableBytes) :
    s.content[k]? = if b.readerIndex_ + k < kCheapPrepend then some 0
      else b.content[b.readerIndex_ + k - kCheapPrepend]? := by
  have hlength := (h.valid (shrink_eq_some hs).1).length_content
  rw [content, readableBytes_shrunk hs, getElem?_slice, if_pos hk, (shrink_eq_some hs).2.2.2,
    (shrink_eq_some hs).2.1, getElem?_overwrite (content_fits_shrunk h hs)]
  by_cases hfront : b.readerIndex_ + k < kCheapPrepend
  · rw [if_neg (by omega), if_pos hfront, List.getElem?_replicate, if_pos (by omega)]
  · rw [if_pos (by omega), if_neg hfront]

theorem length_content_shrunk (hr : b.readerIndex_ ≤ kCheapPrepend) :
    s.content.length = b.content.length := by
  have hroom := ((room_shrunk_iff h hs).mpr hr).1
  rw [((h.shrunk hs).valid hroom).length_content, readableBytes_shrunk hs,
    (h.valid (shrink_eq_some hs).1).length_content]

theorem content_shrunk_of_eq (hr : b.readerIndex_ = kCheapPrepend) : s.content = b.content := by
  have hlength := (h.valid (shrink_eq_some hs).1).length_content
  apply List.ext_getElem?
  intro k
  by_cases hk : k < b.readableBytes
  · rw [getElem?_shrunk h hs (Nat.le_of_eq hr) hk, if_neg (by omega), hr, Nat.add_sub_cancel_left]
  · have hlength' := length_content_shrunk h hs (Nat.le_of_eq hr)
    rw [List.getElem?_eq_none (by omega), List.getElem?_eq_none (by omega)]

/-- In front of the content the old window shows the content shifted behind fill bytes,
which is the content itself only if it consists of fill bytes. -/
theorem content_shrunk_of_lt (hr : b.readerIndex_ < kCheapPrepend) :
    s.content = b.content ↔ ∀ byte ∈ b.content, byte = 0 := by
  have hlength := (h.valid (shrink_eq_some hs).1).length_content
  have hget {k : ℕ} (hk : k < b.readableBytes) := getElem?_shrunk h hs (Nat.le_of_lt hr) hk
  constructor
  · intro heq
    have hzero : ∀ k, k < b.readableBytes → b.content[k]? = some 0 := by
      intro k
      induction k using Nat.strongRecOn with
      | ind k ih =>
        intro hk
        rw [← heq, hget hk]
        by_cases hfront : b.readerIndex_ + k < kCheapPrepend
        · rw [if_pos hfront]
        · rw [if_neg hfront]
          exact ih _ (by omega) (by omega)
    intro byte hb
    obtain ⟨k, hk, rfl⟩ := List.getElem_of_mem hb
    have hz := hzero k (hlength ▸ hk)
    rw [List.getElem?_eq_getElem hk] at hz
    exact Option.some.inj hz
  · intro hzero
    have hall {k : ℕ} (hk : k < b.readableBytes) : b.content[k]? = some 0 := by
      rw [List.getElem?_eq_getElem (hlength.symm ▸ hk), hzero _ (List.getElem_mem _)]
    apply List.ext_getElem?
    intro k
    by_cases hk : k < b.readableBytes
    · rw [hget hk, hall hk]
      by_cases hfront : b.readerIndex_ + k < kCheapPrepend
      · rw [if_pos hfront]
      · rw [if_neg hfront, hall (by omega)]
    · have hlength' := length_content_shrunk h hs (Nat.le_of_lt hr)
      rw [List.getElem?_eq_none (by omega), List.getElem?_eq_none (by omega)]

theorem content_shrunk_iff (hr : b.readerIndex_ ≤ kCheapPrepend) :
    s.content = b.content ↔ b.readerIndex_ = kCheapPrepend ∨
      b.readerIndex_ < kCheapPrepend ∧ ∀ byte ∈ b.content, byte = 0 := by
  rcases Nat.eq_or_lt_of_le hr with heq | hlt
  · exact ⟨fun _ => .inl heq, fun _ => content_shrunk_of_eq h hs heq⟩
  · rw [content_shrunk_of_lt h hs hlt]
    constructor
    · exact fun hz => .inr ⟨hlt, hz⟩
    · rintro (heq | ⟨-, hz⟩)
      · omega
      · exact hz

end Shrunk

theorem Ordered.shrinkKeeps_iff {b : Buffer} (h : b.Ordered) (reserve : ℕ) :
    b.ShrinkKeeps reserve ↔ b.ShrinkFits := by
  constructor
  · rintro ⟨s, hs, hc, -, hw, hroom⟩
    have hr := (room_shrunk_iff h hs).mp ⟨hw, hroom⟩
    exact ⟨(shrink_eq_some hs).1, (content_shrunk_iff h hs hr).mp hc⟩
  · rintro ⟨hi, hfit⟩
    have hs : b.shrink reserve = some _ := if_pos hi
    have hr : b.readerIndex_ ≤ kCheapPrepend := by
      rcases hfit with heq | ⟨hlt, -⟩
      · exact Nat.le_of_eq heq
      · exact Nat.le_of_lt hlt
    obtain ⟨hw, hroom⟩ := (room_shrunk_iff h hs).mpr hr
    exact ⟨_, hs, (content_shrunk_iff h hs hr).mpr hfit, (h.shrunk hs).reader_le, hw, hroom⟩

/-! ## Runs with shrink -/

theorem Ordered.apply {b : Buffer} (h : b.Ordered) {op : Op} (hl : op.Legal b)
    (hd : op.Defined b) : (op.apply b).Ordered := by
  by_cases hi : b.Inside
  · exact ((h.valid hi).apply hl).1.ordered
  · cases op with
    | retrieve len =>
      have hlen : len ≤ b.readableBytes := hl
      refine ⟨?_, h.prepend_le, h.prepend_le_length⟩
      have := h.reader_le
      simp only [readableBytes] at hlen
      simp only [Op.apply, Buffer.retrieve]
      omega
    | retrieveAll => exact ⟨Nat.le_refl _, Nat.le_refl _, h.prepend_le_length⟩
    | prepend data =>
      have hroom : b.readerIndex_ - data.length + data.length ≤ b.buffer_.length := by
        have hdata : data.length ≤ b.readerIndex_ := hl
        have hread : b.readerIndex_ ≤ b.buffer_.length := hd
        omega
      refine ⟨Nat.le_trans (Nat.sub_le _ _) h.reader_le, h.prepend_le, ?_⟩
      rw [Op.apply, Buffer.prepend, length_overwrite hroom]
      exact h.prepend_le_length
    | append _ | appendInt64 _ | appendInt32 _ | appendInt16 _ | appendInt8 _ | retrieveUntil _
    | retrieveAsString | ensureWritableBytes _ | written _ | readFd _ => exact absurd hd hi

section Store

variable [DecidableEq ι]

/-- An operation other than `shrink` is a step of the store, inside the vector. -/
theorem storeStep_of_shrinkStep {c d : ι → Buffer} {op : StoreOp ι}
    (hs : shrinkStep c (.store op) = some d) :
    storeStep c op = some d ∧ ∀ i o, op = .on i o → o.Defined (c i) := by
  cases op with
  | on i op =>
    obtain ⟨hd, hstore⟩ := Option.ite_none_right_eq_some.mp hs
    refine ⟨hstore, ?_⟩
    intro j o ho
    cases ho
    exact hd
  | swap i j => exact ⟨hs, nofun⟩

theorem ordered_step (c : ι → Buffer) (op : ShrinkOp ι) (d : ι → Buffer)
    (h : ∀ i, (c i).Ordered) (hs : shrinkStep c op = some d) : ∀ i, (d i).Ordered := by
  cases op with
  | store op =>
    obtain ⟨hstore, hdefined⟩ := storeStep_of_shrinkStep hs
    apply forall_storeStep h _ hstore
    intro i o ho hl
    exact (h i).apply hl (hdefined i o ho)
  | shrink i reserve =>
    obtain ⟨s, hshrunk, rfl⟩ := Option.map_eq_some_iff.mp hs
    exact forall_update h i ((h i).shrunk hshrunk)

theorem ordered_run {ops : List (ShrinkOp ι)} {c : ι → Buffer}
    (hr : run shrinkStep (fun _ => fresh) ops = some c) : ∀ i, (c i).Ordered :=
  run_invariant ordered_step (fun _ => valid_fresh.ordered) hr

/-- The buffer that is shrunk meets the condition. -/
def FitsAt (c : ι → Buffer) : ShrinkOp ι → Prop
  | .store _ => True
  | .shrink i _ => (c i).ShrinkFits

/-- As long as every `shrink` finds the read index where it needs it, the buffers stay
the byte queues they are without `shrink`. -/
theorem valid_run {ops : List (ShrinkOp ι)} {c : ι → Buffer}
    (hm : Meets shrinkStep FitsAt (fun _ => fresh) ops)
    (hr : run shrinkStep (fun _ => fresh) ops = some c) : ∀ i, (c i).Valid := by
  have hstep : ∀ (c : ι → Buffer) op d, (∀ i, (c i).Valid) → FitsAt c op →
      shrinkStep c op = some d → ∀ i, (d i).Valid := by
    intro c op d h hok hs
    cases op with
    | store op =>
      apply forall_storeStep h _ (storeStep_of_shrinkStep hs).1
      intro i o _ hl
      exact ((h i).apply hl).1
    | shrink i reserve =>
      obtain ⟨s, hshrunk, rfl⟩ := Option.map_eq_some_iff.mp hs
      obtain ⟨s', hs', -, -, hw, -⟩ := ((h i).ordered.shrinkKeeps_iff reserve).mpr hok
      cases hshrunk.symm.trans hs'
      exact forall_update h i (((h i).ordered.shrunk hshrunk).valid hw)
  exact meets_invariant hstep (fun _ => valid_fresh) hm hr

end Store

/-- For every buffer and every `reserve`: `shrink` keeps what it is for exactly if the
window lies in the vector and the read index stands at `kCheapPrepend`, or in front of it
with nothing but fill bytes to read. -/
theorem shrink_keeps_iff {b : Buffer} (h : b.ShrinkReachable) (reserve : ℕ) :
    b.ShrinkKeeps reserve ↔ b.ShrinkFits := by
  obtain ⟨ops, c, i, hr, rfl⟩ := h
  exact (ordered_run hr i).shrinkKeeps_iff reserve

/-- A buffer that was never read. -/
theorem shrink_keeps_iff_unread :
    ∃ b : Buffer, b.ShrinkReachable ∧ b.ShrinkKeeps 4 := by
  obtain ⟨c, hc, hfit⟩ := Option.map_eq_some_iff.mp (show
    (run shrinkStep (fun _ : ℕ => fresh) [.store (.on 0 (.append [1, 2]))]).map
      (fun c => decide (c 0).ShrinkFits) = some true by decide +kernel)
  have hreach : (c 0).ShrinkReachable := ⟨_, c, 0, hc, rfl⟩
  exact ⟨c 0, hreach, (shrink_keeps_iff hreach 4).mpr (of_decide_eq_true hfit)⟩

/-- Two bytes arrive, one is retrieved, and `shrink(0)` leaves the indices beyond the
vector. -/
theorem shrink_loses_after_retrieve :
    ∃ b : Buffer, b.ShrinkReachable ∧ ¬ b.ShrinkKeeps 0 := by
  obtain ⟨c, hc, hlost⟩ := Option.map_eq_some_iff.mp (show
    (run shrinkStep (fun _ : ℕ => fresh)
      [.store (.on 0 (.append [1, 2])), .store (.on 0 (.retrieve 1))]).map
      (fun c => ((c 0).shrink 0).map fun s => decide (s.writerIndex_ ≤ s.buffer_.length)) =
        some (some false) by decide +kernel)
  obtain ⟨s, hs, hw⟩ := Option.map_eq_some_iff.mp hlost
  refine ⟨c 0, ⟨_, c, 0, hc, rfl⟩, ?_⟩
  rintro ⟨s', hs', -, -, hin, -⟩
  cases hs.symm.trans hs'
  exact of_decide_eq_false hw hin

end ReactorNet.Buffer
