import ReactorNet.AsyncLogging
import ReactorNet.GuardedRuns

/-!
# The order of the log

Every line that fits a buffer is in exactly one place: written, in the rest of the batch,
in a queued buffer or in the current one, and these places follow one another in the
order of the calls of `append`. Only a batch of more than 25 buffers loses some.
-/
namespace ReactorNet

/-- The thread has swapped and not yet refilled its spare buffers. -/
def LogPc.working : LogPc → Bool
  | .trim | .write _ | .recycle => true
  | _ => false

/-- The thread holds the mutex or waits to have it back, and is about to swap. -/
def LogPc.beforeSwap : LogPc → Bool
  | .lock | .waitForSeconds => true
  | _ => false

/-- The line of an action. -/
def LogAction.line : LogAction → List (List UInt8)
  | .append logline => [logline]
  | _ => []

namespace AsyncLogging

def ptrLines (ptr : BufferPtr) : List Line := ptr.elim [] FixedBuffer.lines

def ptrBytes (ptr : BufferPtr) : List UInt8 := ptr.elim [] FixedBuffer.data

theorem ptrBytes_eq (ptr : BufferPtr) : ptrBytes ptr = Line.bytes (ptrLines ptr) := by
  cases ptr with
  | none => rfl
  | some b => exact b.data_eq

/-- The part of the batch that is still to be written. -/
def unwritten (x : AsyncLogging) : List BufferPtr :=
  match x.pc with
  | .trim => x.buffersToWrite
  | .write i => x.buffersToWrite.drop i
  | _ => []

def written (x : AsyncLogging) : List Line := x.output.flatMap LogChunk.lines

/-- The lines that wait for the next swap. -/
def pending (x : AsyncLogging) : List Line :=
  x.buffers_.flatMap ptrLines ++ ptrLines x.currentBuffer_

/-- All lines that are written or still held, in the order of the buffers. -/
def ledger (x : AsyncLogging) : List Line :=
  x.written ++ x.unwritten.flatMap ptrLines ++ x.pending

def dropped (x : AsyncLogging) : List Line := x.erased.flatMap ptrLines

/-- A line that a buffer can take. -/
def fits (line : Line) : Bool := line.text.length < kLargeBuffer

structure Sound (x : AsyncLogging) : Prop where
  current : x.currentBuffer_.isSome = true
  queued : ∀ ptr ∈ x.buffers_, ptr.isSome = true
  batch : ∀ ptr ∈ x.buffersToWrite, ptr.isSome = true
  next : x.nextBuffer_ = none ∧ x.buffers_ ≠ [] ∨ x.nextBuffer_ = some .empty
  idle : x.pc.working = false →
    x.newBuffer1 = some .empty ∧ x.newBuffer2 = some .empty ∧ x.buffersToWrite = []
  busy : x.pc.working = true → x.newBuffer1 = none ∧
    (x.newBuffer2 = some .empty ∧ 1 ≤ x.buffersToWrite.length ∨
      x.newBuffer2 = none ∧ 2 ≤ x.buffersToWrite.length)

theorem sound_start : Sound start := by
  refine ⟨rfl, by simp [start], by simp [start], Or.inr rfl, fun _ => ⟨rfl, rfl, rfl⟩, ?_⟩
  intro h
  cases h

variable {x : AsyncLogging}

theorem append_room {current : Buffer} {logline : List UInt8}
    (hcurrent : x.currentBuffer_ = some current) (havail : current.avail > logline.length) :
    x.append logline = some { x with
      appended := x.appended ++ [⟨x.appended.length, logline⟩]
      currentBuffer_ := some (current.append ⟨x.appended.length, logline⟩) } := by
  simp [append, hcurrent, havail]

theorem append_full {current : Buffer} {logline : List UInt8}
    (hcurrent : x.currentBuffer_ = some current) (havail : ¬current.avail > logline.length) :
    x.append logline = some { x with
      appended := x.appended ++ [⟨x.appended.length, logline⟩]
      buffers_ := x.buffers_ ++ [some current]
      currentBuffer_ :=
        some (FixedBuffer.append (x.nextBuffer_.getD .empty) ⟨x.appended.length, logline⟩)
      nextBuffer_ := none } := by
  simp [append, hcurrent, havail]

/-- What an append does: its line joins the pending ones, unless no buffer can take it. -/
structure Appended (x : AsyncLogging) (logline : List UInt8) (y : AsyncLogging) : Prop where
  pending : y.pending = x.pending ++ [(⟨x.appended.length, logline⟩ : Line)].filter fits
  appended : y.appended = x.appended ++ [⟨x.appended.length, logline⟩]
  pc : y.pc = x.pc
  running : y.running_ = x.running_
  output : y.output = x.output
  batch : y.buffersToWrite = x.buffersToWrite
  erased : y.erased = x.erased

theorem Appended.ledger {logline : List UInt8} {y : AsyncLogging} (h : Appended x logline y) :
    y.ledger = x.ledger ++ [(⟨x.appended.length, logline⟩ : Line)].filter fits := by
  simp only [AsyncLogging.ledger, h.pending, written, unwritten, h.output, h.batch, h.pc,
    List.append_assoc]

theorem Sound.append (h : Sound x) (logline : List UInt8) :
    ∃ y, x.append logline = some y ∧ Sound y ∧ Appended x logline y := by
  obtain ⟨current, hcurrent⟩ := Option.isSome_iff_exists.mp h.current
  by_cases havail : current.avail > logline.length
  · have hfits : fits ⟨x.appended.length, logline⟩ = true := by
      have := current.avail_le
      simp only [fits, decide_eq_true_eq]
      omega
    refine ⟨_, append_room hcurrent havail,
      ⟨rfl, h.queued, h.batch, h.next, h.idle, h.busy⟩, ?_, rfl, rfl, rfl, rfl, rfl, rfl⟩
    simp [pending, ptrLines, hcurrent, FixedBuffer.lines_append, havail, hfits]
  · have hfresh : x.nextBuffer_.getD .empty = .empty := by
      rcases h.next with hnext | hnext
      · rw [hnext.1]
        rfl
      · rw [hnext]
        rfl
    refine ⟨_, append_full hcurrent havail, ⟨rfl, ?_, h.batch, ?_, h.idle, h.busy⟩, ?_, rfl, rfl,
      rfl, rfl, rfl, rfl⟩
    · intro ptr hptr
      rcases List.mem_append.mp hptr with hptr | hptr
      · exact h.queued ptr hptr
      · rw [List.mem_singleton.mp hptr]
        rfl
    · exact Or.inl ⟨rfl, List.append_ne_nil_of_right_ne_nil _ (List.cons_ne_nil _ _)⟩
    · by_cases hfits : logline.length < kLargeBuffer <;>
        simp [pending, hfresh, hcurrent, ptrLines, FixedBuffer.lines_append, fits, hfits]

theorem Sound.stop (h : Sound x) : Sound x.stop :=
  ⟨h.current, h.queued, h.batch, h.next, h.idle, h.busy⟩

/-- What a step of the thread does. -/
structure Stepped (x y : AsyncLogging) : Prop where
  appended : y.appended = x.appended
  running : y.running_ = x.running_
  conserved : (y.ledger ++ y.dropped).Perm (x.ledger ++ x.dropped)
  ordered : (x.pc = .trim → x.buffersToWrite.length ≤ 25) → y.ledger = x.ledger
  entered : y.pc.beforeSwap = true → x.pc.beforeSwap = true ∨ x.running_ = true
  pending : x.pc.beforeSwap = false → y.pending = x.pending
  swapped : x.pc.beforeSwap = true → y.pc.beforeSwap = true ∧ y.pending = x.pending ∨
    y.pc.beforeSwap = false ∧ y.pending = []

theorem conserved_of_ledger {y : AsyncLogging} (hledger : y.ledger = x.ledger)
    (herased : y.erased = x.erased) : (y.ledger ++ y.dropped).Perm (x.ledger ++ x.dropped) := by
  rw [hledger, dropped, dropped, herased]

/-- A step that is not about the swap. -/
theorem Stepped.elsewhere {y : AsyncLogging} (hx : x.pc.beforeSwap = false)
    (hy : y.pc.beforeSwap = false) (happended : y.appended = x.appended)
    (hrunning : y.running_ = x.running_) (hpending : y.pending = x.pending)
    (hledger : y.ledger = x.ledger) (herased : y.erased = x.erased) : Stepped x y where
  appended := happended
  running := hrunning
  conserved := conserved_of_ledger hledger herased
  ordered _ := hledger
  entered h := by
    rw [hy] at h
    cases h
  pending _ := hpending
  swapped h := by
    rw [hx] at h
    cases h

theorem Sound.swap (h : Sound x) (hpc : x.pc.beforeSwap = true) :
    Sound x.swap ∧ Stepped x x.swap := by
  have hidle : x.pc.working = false ∧ x.unwritten = [] := by
    rw [unwritten]
    cases hx : x.pc <;> rw [hx] at hpc <;> first | exact ⟨rfl, rfl⟩ | cases hpc
  obtain ⟨hnew1, hnew2, hbatch⟩ := h.idle hidle.1
  have hpending : x.swap.pending = [] := by
    simp [pending, AsyncLogging.swap, hbatch, hnew1, ptrLines]
  have hledger : x.swap.ledger = x.ledger := by
    rw [ledger, ledger, hpending, hidle.2]
    simp [written, unwritten, pending, AsyncLogging.swap]
  constructor
  · refine ⟨?_, ?_, ?_, ?_, ?_, ?_⟩
    · simp [AsyncLogging.swap, hnew1]
    · simp [AsyncLogging.swap, hbatch]
    · intro ptr hptr
      rcases List.mem_append.mp hptr with hptr | hptr
      · exact h.queued ptr hptr
      · rw [List.mem_singleton.mp hptr]
        exact h.current
    · right
      rcases h.next with hnext | hnext
      · simp [AsyncLogging.swap, hnext.1, hnew2]
      · simp [AsyncLogging.swap, hnext]
    · intro hidle
      cases hidle
    · intro _
      refine ⟨rfl, ?_⟩
      rcases h.next with hnext | hnext
      · right
        have := List.length_pos_of_ne_nil hnext.2
        simp only [AsyncLogging.swap, hnext.1, List.length_append, List.length_singleton]
        exact ⟨rfl, by omega⟩
      · left
        simp [AsyncLogging.swap, hnext, hnew2]
  · refine ⟨rfl, rfl, conserved_of_ledger hledger rfl, fun _ => hledger, ?_, ?_, ?_⟩
    · intro _
      exact Or.inl hpc
    · intro hnot
      rw [hpc] at hnot
      cases hnot
    · intro _
      exact Or.inr ⟨rfl, hpending⟩

theorem Sound.trim (h : Sound x) (hpc : x.pc = .trim) (now : String) :
    ∃ y, x.trim now = some y ∧ Sound y ∧ Stepped x y := by
  obtain ⟨hnew1, hnew2⟩ := h.busy (by rw [hpc]; rfl)
  have hne : x.buffersToWrite ≠ [] := by
    intro hnil
    rcases hnew2 with hnew2 | hnew2 <;> simp [hnil] at hnew2
  have hbefore : x.pc.beforeSwap = false := by
    rw [hpc]
    rfl
  by_cases hmany : x.buffersToWrite.length > 25
  · refine ⟨_, by rw [AsyncLogging.trim, if_neg hne, if_pos hmany], ?_, ?_⟩
    · refine ⟨h.current, h.queued, fun ptr hptr => h.batch ptr (List.mem_of_mem_take hptr), h.next,
        ?_, fun _ => ⟨hnew1, ?_⟩⟩
      · intro hidle
        cases hidle
      · have hlen : 2 ≤ (x.buffersToWrite.take 2).length := by
          rw [List.length_take]
          omega
        rcases hnew2 with hnew2 | hnew2
        · exact Or.inl ⟨hnew2.1, Nat.le_trans (by decide) hlen⟩
        · exact Or.inr ⟨hnew2.1, hlen⟩
    · refine ⟨rfl, rfl, ?_, ?_, ?_, fun _ => rfl, ?_⟩
      · have hsplit := congrArg (List.flatMap ptrLines) (List.take_append_drop 2 x.buffersToWrite)
        rw [List.flatMap_append] at hsplit
        rw [List.perm_iff_count]
        intro line
        simp only [ledger, unwritten, hpc, written, pending, dropped, List.drop_zero, ← hsplit,
          List.flatMap_append, List.flatMap_singleton, LogChunk.lines, List.append_nil,
          List.count_append]
        omega
      · intro hfew
        exact absurd (hfew hpc) (by omega)
      · intro hswap
        cases hswap
      · intro hswap
        rw [hbefore] at hswap
        cases hswap
  · refine ⟨_, by rw [AsyncLogging.trim, if_neg hne, if_neg hmany], ?_, ?_⟩
    · refine ⟨h.current, h.queued, h.batch, h.next, ?_, fun _ => ⟨hnew1, hnew2⟩⟩
      intro hidle
      cases hidle
    · exact .elsewhere hbefore rfl rfl rfl rfl
        (by simp [ledger, unwritten, hpc, written, pending]) rfl

theorem Sound.write (h : Sound x) {i : ℕ} (hpc : x.pc = .write i) :
    ∃ y, x.write i = some y ∧ Sound y ∧ Stepped x y := by
  have hbusy := h.busy (by rw [hpc]; rfl)
  have hbefore : x.pc.beforeSwap = false := by
    rw [hpc]
    rfl
  cases hi : x.buffersToWrite[i]? with
  | none =>
    have hdrop : x.buffersToWrite.drop i = [] :=
      List.drop_eq_nil_of_le (List.getElem?_eq_none_iff.mp hi)
    refine ⟨_, by rw [AsyncLogging.write, hi], ?_, ?_⟩
    · refine ⟨h.current, h.queued, h.batch, h.next, ?_, fun _ => hbusy⟩
      intro hidle
      cases hidle
    · exact .elsewhere hbefore rfl rfl rfl rfl
        (by simp [ledger, unwritten, hpc, written, pending, hdrop]) rfl
  | some ptr =>
    obtain ⟨hlt, hget⟩ := List.getElem?_eq_some_iff.mp hi
    obtain ⟨b, rfl⟩ := Option.isSome_iff_exists.mp (h.batch ptr (List.mem_of_getElem? hi))
    have hdrop : x.buffersToWrite.drop i = some b :: x.buffersToWrite.drop (i + 1) := by
      rw [List.drop_eq_getElem_cons hlt, hget]
    refine ⟨_, by rw [AsyncLogging.write, hi]; rfl, ?_, ?_⟩
    · refine ⟨h.current, h.queued, h.batch, h.next, ?_, fun _ => hbusy⟩
      intro hidle
      cases hidle
    · refine .elsewhere hbefore rfl rfl rfl rfl ?_ rfl
      simp [ledger, unwritten, hpc, written, pending, hdrop, LogChunk.lines, ptrLines]

theorem refill_null {batch : List BufferPtr} (hbatch : ∀ ptr ∈ batch, ptr.isSome = true)
    (hne : batch ≠ []) : refill none batch = some (some .empty, batch.dropLast) := by
  have hlast := List.getLast?_eq_some_getLast hne
  obtain ⟨b, hb⟩ := Option.isSome_iff_exists.mp (hbatch _ (List.getLast_mem hne))
  rw [refill, hlast, Option.bind_some, hb]
  rfl

theorem Sound.recycle (h : Sound x) (hpc : x.pc = .recycle) :
    ∃ y, x.recycle = some y ∧ Sound y ∧ Stepped x y := by
  obtain ⟨hnew1, hnew2⟩ := h.busy (by rw [hpc]; rfl)
  have hbefore : x.pc.beforeSwap = false := by
    rw [hpc]
    rfl
  have hbatch : ∀ ptr ∈ x.buffersToWrite.take 2, ptr.isSome = true :=
    fun ptr hptr => h.batch ptr (List.mem_of_mem_take hptr)
  have hrefill : x.recycle = some { x with
      newBuffer1 := some .empty
      newBuffer2 := some .empty
      buffersToWrite := []
      pc := .whileRunning } := by
    rcases hnew2 with ⟨hnew2, hlen⟩ | ⟨hnew2, hlen⟩
    · have hne : x.buffersToWrite.take 2 ≠ [] := by
        apply List.ne_nil_of_length_pos
        rw [List.length_take]
        omega
      rw [AsyncLogging.recycle, hnew1, refill_null hbatch hne, hnew2]
      rfl
    · have hne : x.buffersToWrite.take 2 ≠ [] := by
        apply List.ne_nil_of_length_pos
        rw [List.length_take]
        omega
      have hne' : (x.buffersToWrite.take 2).dropLast ≠ [] := by
        apply List.ne_nil_of_length_pos
        rw [List.length_dropLast, List.length_take]
        omega
      rw [AsyncLogging.recycle, hnew1, refill_null hbatch hne, hnew2, Option.bind_some,
        refill_null (fun ptr hptr => hbatch ptr ((List.dropLast_sublist _).subset hptr)) hne']
      rfl
  refine ⟨_, hrefill, ?_, ?_⟩
  · refine ⟨h.current, h.queued, ?_, h.next, fun _ => ⟨rfl, rfl, rfl⟩, ?_⟩
    · intro ptr hptr
      cases hptr
    · intro hbusy
      cases hbusy
  · exact .elsewhere hbefore rfl rfl rfl rfl (by simp [ledger, unwritten, hpc, written, pending]) rfl

/-- The thread never gets stuck: its assertions hold, and no pointer it uses is null. -/
theorem Sound.thread (h : Sound x) (hpc : x.pc ≠ .exited) (now : String) :
    ∃ y, x.threadFunc now = some y ∧ Sound y ∧ Stepped x y := by
  rw [threadFunc]
  cases hx : x.pc with
  | whileRunning =>
    have hidle := h.idle (by rw [hx]; rfl)
    have hledger : ∀ pc : LogPc, pc = .lock ∨ pc = .exited →
        ({ x with pc := pc } : AsyncLogging).ledger = x.ledger := by
      rintro pc (rfl | rfl) <;> simp [ledger, unwritten, hx, written, pending]
    have hbefore : x.pc.beforeSwap = false := by
      rw [hx]
      rfl
    by_cases hrunning : x.running_ = true
    · have hassert : spare x.newBuffer1 ∧ spare x.newBuffer2 ∧ x.buffersToWrite.isEmpty := by
        rw [hidle.1, hidle.2.1, hidle.2.2]
        exact ⟨rfl, rfl, rfl⟩
      refine ⟨{ x with pc := .lock }, by simp only [if_pos hrunning, if_pos hassert], ?_, ?_⟩
      · refine ⟨h.current, h.queued, h.batch, h.next, fun _ => hidle, ?_⟩
        intro hbusy
        cases hbusy
      · refine ⟨rfl, rfl, conserved_of_ledger (hledger _ (Or.inl rfl)) rfl,
          fun _ => hledger _ (Or.inl rfl), fun _ => Or.inr hrunning, fun _ => rfl, ?_⟩
        intro hswap
        rw [hbefore] at hswap
        cases hswap
    · refine ⟨{ x with pc := .exited }, by simp only [if_neg hrunning], ?_,
        .elsewhere hbefore rfl rfl rfl rfl (hledger _ (Or.inr rfl)) rfl⟩
      refine ⟨h.current, h.queued, h.batch, h.next, fun _ => hidle, ?_⟩
      intro hbusy
      cases hbusy
  | lock =>
    have hbefore : x.pc.beforeSwap = true := by
      rw [hx]
      rfl
    cases hempty : x.buffers_.isEmpty with
    | true =>
      have hledger : ({ x with pc := .waitForSeconds } : AsyncLogging).ledger = x.ledger := by
        simp [ledger, unwritten, hx, written, pending]
      refine ⟨_, rfl, ?_, ?_⟩
      · refine ⟨h.current, h.queued, h.batch, h.next, fun _ => h.idle (by rw [hx]; rfl), ?_⟩
        intro hbusy
        cases hbusy
      · refine ⟨rfl, rfl, conserved_of_ledger hledger rfl, fun _ => hledger, fun _ => Or.inl hbefore,
          fun _ => rfl, fun _ => Or.inl ⟨rfl, rfl⟩⟩
    | false =>
      obtain ⟨hs, hstep⟩ := h.swap hbefore
      exact ⟨_, rfl, hs, hstep⟩
  | waitForSeconds =>
    obtain ⟨hs, hstep⟩ := h.swap (by rw [hx]; rfl)
    exact ⟨_, rfl, hs, hstep⟩
  | trim => exact h.trim hx now
  | write i => exact h.write hx
  | recycle => exact h.recycle hx
  | exited => exact absurd hx hpc

/-! ## Runs -/

/-- The bytes passed to `output.append` so far. -/
def outputBytes (x : AsyncLogging) : List UInt8 := x.output.flatMap LogChunk.bytes

/-- The actions a run may take: lines shorter than a buffer, and steps of a thread that is
not gone and has not swapped out more than 25 buffers. -/
def steady (x : AsyncLogging) : LogAction → Prop
  | .append logline => logline.length < kLargeBuffer
  | .stop => True
  | .thread _ => x.pc ≠ .exited ∧ (x.pc = .trim → x.buffersToWrite.length ≤ 25)

instance (x : AsyncLogging) : (a : LogAction) → Decidable (steady x a)
  | .append logline => inferInstanceAs (Decidable (logline.length < kLargeBuffer))
  | .stop => inferInstanceAs (Decidable True)
  | .thread _ => inferInstanceAs
    (Decidable (x.pc ≠ .exited ∧ (x.pc = .trim → x.buffersToWrite.length ≤ 25)))

/-- Without a dropped batch the thread passes on nothing but buffers. -/
theorem output_threadFunc {now : String} {y : AsyncLogging} (h : x.threadFunc now = some y)
    (hfew : x.pc = .trim → x.buffersToWrite.length ≤ 25) :
    y.output = x.output ∨ ∃ b, y.output = x.output ++ [.buffer b] := by
  rw [threadFunc] at h
  cases hx : x.pc with
  | whileRunning =>
    simp only [hx] at h
    split at h
    · split at h
      · cases h
        exact Or.inl rfl
      · cases h
    · cases h
      exact Or.inl rfl
  | lock =>
    simp only [hx] at h
    split at h <;> cases h <;> exact Or.inl rfl
  | waitForSeconds =>
    simp only [hx] at h
    cases h
    exact Or.inl rfl
  | trim =>
    have := hfew hx
    simp only [hx, trim] at h
    rw [if_neg (by omega : ¬x.buffersToWrite.length > 25)] at h
    split at h
    · cases h
    · cases h
      exact Or.inl rfl
  | write i =>
    simp only [hx, write] at h
    split at h
    · obtain ⟨b, -, rfl⟩ := Option.map_eq_some_iff.mp h
      exact Or.inr ⟨b, rfl⟩
    · cases h
      exact Or.inl rfl
  | recycle =>
    simp only [hx, recycle] at h
    obtain ⟨first, -, h⟩ := Option.bind_eq_some_iff.mp h
    obtain ⟨second, -, rfl⟩ := Option.map_eq_some_iff.mp h
    exact Or.inl rfl
  | exited =>
    simp only [hx] at h
    cases h

/-- Nothing is lost, doubled or out of order, and what is written are whole buffers. -/
structure InOrder (x : AsyncLogging) : Prop where
  sound : Sound x
  ledger : x.ledger = x.appended
  buffers : ∀ chunk ∈ x.output, ∃ b, chunk = .buffer b

theorem inOrder_start : InOrder start := by
  refine ⟨sound_start, rfl, ?_⟩
  intro chunk h
  cases h

theorem InOrder.step (h : InOrder x) {a : LogAction} (ha : steady x a) :
    ∃ y, x.step a = some y ∧ InOrder y ∧
      y.appended.map Line.text = x.appended.map Line.text ++ a.line := by
  cases a with
  | append logline =>
    obtain ⟨y, hy, hs, happended⟩ := h.sound.append logline
    have hfits : fits ⟨x.appended.length, logline⟩ = true := decide_eq_true ha
    refine ⟨y, hy, ⟨hs, ?_, by rw [happended.output]; exact h.buffers⟩, ?_⟩
    · rw [happended.ledger, h.ledger, happended.appended, List.filter_singleton, hfits]
      rfl
    · rw [happended.appended, List.map_append]
      rfl
  | stop =>
    exact ⟨x.stop, rfl, ⟨h.sound.stop, h.ledger, h.buffers⟩, (List.append_nil _).symm⟩
  | thread now =>
    obtain ⟨y, hy, hs, hstep⟩ := h.sound.thread ha.1 now
    refine ⟨y, hy, ⟨hs, ?_, ?_⟩, ?_⟩
    · rw [hstep.ordered ha.2, hstep.appended]
      exact h.ledger
    · rcases output_threadFunc hy ha.2 with hout | ⟨b, hout⟩
      · rw [hout]
        exact h.buffers
      · intro chunk hchunk
        rw [hout] at hchunk
        rcases List.mem_append.mp hchunk with hchunk | hchunk
        · exact h.buffers chunk hchunk
        · exact ⟨b, List.mem_singleton.mp hchunk⟩
    · rw [hstep.appended]
      exact (List.append_nil _).symm

theorem InOrder.run (h : InOrder x) {actions : List LogAction}
    (hsteady : GuardedRuns.Meets AsyncLogging.step steady x actions) :
    ∃ y, GuardedRuns.run AsyncLogging.step x actions = some y ∧ InOrder y ∧
      y.appended.map Line.text = x.appended.map Line.text ++ actions.flatMap LogAction.line := by
  induction actions generalizing x with
  | nil => exact ⟨x, rfl, h, (List.append_nil _).symm⟩
  | cons a actions ih =>
    obtain ⟨y, hy, hin, htext⟩ := h.step hsteady.1
    obtain ⟨z, hz, hin, htext'⟩ := ih hin (hsteady.2 y hy)
    refine ⟨z, GuardedRuns.run_cons_eq_some.mpr ⟨y, hy, hz⟩, hin, ?_⟩
    rw [htext', htext, List.flatMap_cons, List.append_assoc]

theorem flatMap_ptrBytes (ptrs : List BufferPtr) :
    ptrs.flatMap ptrBytes = Line.bytes (ptrs.flatMap ptrLines) := by
  induction ptrs with
  | nil => rfl
  | cons ptr ptrs ih =>
    rw [List.flatMap_cons, List.flatMap_cons, ih, ptrBytes_eq]
    simp [Line.bytes]

theorem flatMap_bytes {chunks : List LogChunk} (h : ∀ chunk ∈ chunks, ∃ b, chunk = .buffer b) :
    chunks.flatMap LogChunk.bytes = Line.bytes (chunks.flatMap LogChunk.lines) := by
  induction chunks with
  | nil => rfl
  | cons chunk chunks ih =>
    obtain ⟨b, rfl⟩ := h chunk List.mem_cons_self
    rw [List.flatMap_cons, List.flatMap_cons, ih fun c hc => h c (List.mem_cons_of_mem _ hc)]
    simp [Line.bytes, LogChunk.bytes, LogChunk.lines, b.data_eq]

/-- What is written, the rest of the batch, the queued buffers and the current one hold
the appended lines, in their order and each in one buffer; so do their bytes. -/
theorem log_in_order (actions : List LogAction)
    (hsteady : GuardedRuns.Meets step steady start actions) :
    ∃ x, GuardedRuns.run step start actions = some x ∧
      x.appended.map Line.text = actions.flatMap LogAction.line ∧
      x.written ++ x.unwritten.flatMap ptrLines ++ x.buffers_.flatMap ptrLines ++
        ptrLines x.currentBuffer_ = x.appended ∧
      (∀ chunk ∈ x.output, ∃ b, chunk = .buffer b) ∧
      x.outputBytes ++ x.unwritten.flatMap ptrBytes ++ x.buffers_.flatMap ptrBytes ++
        ptrBytes x.currentBuffer_ = (actions.flatMap LogAction.line).flatten := by
  obtain ⟨x, hx, hin, htext⟩ := inOrder_start.run hsteady
  have htext' : x.appended.map Line.text = actions.flatMap LogAction.line := htext
  have hlines : x.written ++ x.unwritten.flatMap ptrLines ++ x.buffers_.flatMap ptrLines ++
      ptrLines x.currentBuffer_ = x.appended := by
    rw [← hin.ledger, ledger, pending, List.append_assoc _ (x.buffers_.flatMap ptrLines)]
  refine ⟨x, hx, htext', hlines, hin.buffers, ?_⟩
  rw [outputBytes, flatMap_bytes hin.buffers, flatMap_ptrBytes, flatMap_ptrBytes, ptrBytes_eq,
    ← htext', ← List.flatMap_def, ← hlines]
  simp [Line.bytes, written]

/-- Two lines around a swap: the first is written while the second waits. -/
theorem log_in_order_swapped :
    ∃ x, GuardedRuns.run step start [.append [97, 10], .thread "", .thread "", .thread "",
        .append [98, 10], .thread "", .thread ""] = some x ∧
      x.outputBytes ++ x.unwritten.flatMap ptrBytes ++ x.buffers_.flatMap ptrBytes ++
        ptrBytes x.currentBuffer_ = [97, 10, 98, 10] := by
  obtain ⟨x, hx, -, -, -, hbytes⟩ := log_in_order [.append [97, 10], .thread "", .thread "",
    .thread "", .append [98, 10], .thread "", .thread ""] (by decide +kernel)
  exact ⟨x, hx, hbytes⟩

end AsyncLogging

end ReactorNet
