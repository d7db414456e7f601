import ReactorNet.AsyncLoggingOrder

/-!
# The spare buffers of the log

A swap takes one or two of the thread's spare buffers, and the batch it swaps out holds at
least as many to make up for them, also where it is cut to two.
-/
namespace ReactorNet.AsyncLogging

variable {x y : AsyncLogging}

/-- The assertions of `threadFunc` at the point where the thread is. -/
def Asserts (x : AsyncLogging) : Prop :=
  match x.pc with
  | .whileRunning => spare x.newBuffer1 ∧ spare x.newBuffer2 ∧ x.buffersToWrite = []
  | .trim => x.buffersToWrite ≠ []
  | .recycle =>
    (x.newBuffer1 = none → x.buffersToWrite.take 2 ≠ []) ∧
      ∀ first, refill x.newBuffer1 (x.buffersToWrite.take 2) = some first →
        x.newBuffer2 = none → first.2 ≠ []
  | _ => True

/-- Nothing but a thread that is gone is without a step. -/
theorem Sound.step (h : Sound x) {a : LogAction} (ha : ∀ now, a = .thread now → x.pc ≠ .exited) :
    ∃ y, x.step a = some y ∧ Sound y := by
  cases a with
  | append logline =>
    obtain ⟨y, hy, hs, -⟩ := h.append logline
    exact ⟨y, hy, hs⟩
  | stop => exact ⟨x.stop, rfl, h.stop⟩
  | thread now =>
    obtain ⟨y, hy, hs, -⟩ := h.thread (ha now rfl) now
    exact ⟨y, hy, hs⟩

theorem Sound.of_step (h : Sound x) {a : LogAction} (hy : x.step a = some y) : Sound y := by
  have ha : ∀ now, a = .thread now → x.pc ≠ .exited := by
    rintro now rfl hpc
    simp [AsyncLogging.step, threadFunc, hpc] at hy
  obtain ⟨y', hy', hs⟩ := h.step ha
  cases hy.symm.trans hy'
  exact hs

theorem Sound.run (h : Sound x) {actions : List LogAction}
    (hy : GuardedRuns.run AsyncLogging.step x actions = some y) : Sound y :=
  GuardedRuns.run_invariant (fun _ _ _ hs ht => hs.of_step ht) h hy

theorem Sound.length_batch (h : Sound x) (hpc : x.pc.working = true) :
    1 ≤ x.buffersToWrite.length := by
  obtain ⟨-, ⟨-, hlen⟩ | ⟨-, hlen⟩⟩ := h.busy hpc
  · exact hlen
  · exact Nat.le_of_succ_le hlen

theorem Sound.batch_ne_nil (h : Sound x) (hpc : x.pc.working = true) : x.buffersToWrite ≠ [] :=
  List.ne_nil_of_length_pos (h.length_batch hpc)

theorem Sound.refills (h : Sound x) (hpc : x.pc = .recycle) :
    (x.newBuffer1 = none → x.buffersToWrite.take 2 ≠ []) ∧
      ∀ first, refill x.newBuffer1 (x.buffersToWrite.take 2) = some first →
        x.newBuffer2 = none → first.2 ≠ [] := by
  have hworking : x.pc.working = true := by
    rw [hpc]
    rfl
  have hlength := h.length_batch hworking
  have hbatch : ∀ ptr ∈ x.buffersToWrite.take 2, ptr.isSome = true :=
    fun ptr hptr => h.batch ptr (List.mem_of_mem_take hptr)
  have hne : x.buffersToWrite.take 2 ≠ [] := by
    apply List.ne_nil_of_length_pos
    rw [List.length_take]
    omega
  obtain ⟨hnew1, hnew2⟩ := h.busy hworking
  refine ⟨fun _ => hne, ?_⟩
  intro first hfirst hnull
  rw [hnew1, refill_null hbatch hne] at hfirst
  cases hfirst
  rcases hnew2 with ⟨hnew2, -⟩ | ⟨-, hlen⟩
  · rw [hnull] at hnew2
    cases hnew2
  · apply List.ne_nil_of_length_pos
    rw [List.length_dropLast, List.length_take]
    omega

theorem Sound.asserts (h : Sound x) : x.Asserts := by
  rw [Asserts]
  cases hpc : x.pc with
  | whileRunning =>
    obtain ⟨hnew1, hnew2, hbatch⟩ := h.idle (by rw [hpc]; rfl)
    rw [hnew1, hnew2]
    exact ⟨rfl, rfl, hbatch⟩
  | trim => exact h.batch_ne_nil (by rw [hpc]; rfl)
  | recycle => exact h.refills hpc
  | lock => trivial
  | waitForSeconds => trivial
  | write i => trivial
  | exited => trivial

/-- Wherever lines and steps of the thread interleave, there is a current buffer, the next
one is missing only while some are queued, the assertions of the thread hold, and no step
but that of a thread that is gone fails. -/
theorem buffers_never_run_dry (actions : List LogAction) (x : AsyncLogging)
    (hx : GuardedRuns.run step start actions = some x) :
    x.currentBuffer_.isSome = true ∧
      (x.nextBuffer_ = none → x.buffers_ ≠ []) ∧
      x.Asserts ∧
      ∀ a, (∀ now, a = .thread now → x.pc ≠ .exited) → (x.step a).isSome = true := by
  have hs := sound_start.run hx
  refine ⟨hs.current, ?_, hs.asserts, ?_⟩
  · intro hnone
    rcases hs.next with ⟨-, hqueued⟩ | hnext
    · exact hqueued
    · rw [hnone] at hnext
      cases hnext
  · intro a ha
    obtain ⟨y, hy, -⟩ := hs.step ha
    rw [hy]
    rfl

/-- A cycle without a line, up to the refill. -/
theorem buffers_never_run_dry_idle :
    ∃ x, GuardedRuns.run step start [.thread "", .thread "", .thread "", .thread "", .thread "",
        .thread ""] = some x ∧ x.pc = .recycle ∧ x.Asserts := by
  refine ⟨_, rfl, rfl, ?_⟩
  exact (buffers_never_run_dry [.thread "", .thread "", .thread "", .thread "", .thread "",
    .thread ""] _ rfl).2.2.1

end ReactorNet.AsyncLogging
