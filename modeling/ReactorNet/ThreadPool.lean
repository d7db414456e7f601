import ReactorNet.ConditionVariables
import ReactorNet.GuardedRuns

/-!
# The thread pool

`ThreadPool` as a monitor: a step is one critical section of `run`, `take` or `stop`, from the
lock, or from the return of a wait, to the next wait or the unlock. Threads are numbers; a
producer that waits keeps its task. The workers call `take` again and again; here any thread
may, at any time.
-/
namespace ReactorNet

/-- `pushed` and `taken` are the tasks that have entered the queue and left it, `executed` those
that `run` has run itself; `failed` is a failed assertion. -/
structure ThreadPool (Task : Type*) where
  maxQueueSize_ : ℕ
  threads_ : ℕ
  running_ : Bool
  queue_ : List Task
  notEmpty_ : Condition ℕ
  notFull_ : Condition (ℕ × Task)
  pushed : List Task
  taken : List Task
  executed : List Task
  failed : Bool

/-- The first number of a step is the thread; `chosen` is the waiter a notification wakes. -/
inductive PoolAction (Task : Type*) where
  | run (thread : ℕ) (task : Task) (chosen : ℕ)
  | runAgain (notified : Bool) (i : ℕ) (chosen : ℕ)
  | take (thread : ℕ) (chosen : ℕ)
  | takeAgain (notified : Bool) (i : ℕ) (chosen : ℕ)
  | stop
  | wakeProducer (i : ℕ)
  | wakeWorker (i : ℕ)

namespace ThreadPool

open GuardedRuns

variable {Task : Type*}

/-- A pool after `setMaxQueueSize` and `start`. -/
def start (maxSize numThreads : ℕ) : ThreadPool Task :=
  ⟨maxSize, numThreads, true, [], .idle, .idle, [], [], [], false⟩

def isFull (s : ThreadPool Task) : Bool :=
  decide (0 < s.maxQueueSize_) && decide (s.maxQueueSize_ ≤ s.queue_.length)

/-- `run` from the test of its loop on. -/
def runLocked (s : ThreadPool Task) (thread : ℕ) (task : Task) (chosen : ℕ) :
    Option (ThreadPool Task) :=
  if s.isFull && s.running_ then some { s with notFull_ := s.notFull_.wait (thread, task) }
  else if !s.running_ then some s
  else (s.notEmpty_.notify chosen).map fun notEmpty_ => { s with
    failed := s.failed || s.isFull
    queue_ := s.queue_ ++ [task]
    pushed := s.pushed ++ [task]
    notEmpty_ := notEmpty_ }

/-- `take` from the test of its loop on. -/
def takeLocked (s : ThreadPool Task) (thread : ℕ) (chosen : ℕ) : Option (ThreadPool Task) :=
  if s.queue_.isEmpty && s.running_ then some { s with notEmpty_ := s.notEmpty_.wait thread }
  else match s.queue_ with
    | [] => some s
    | task :: rest =>
      let s := { s with queue_ := rest, taken := s.taken ++ [task] }
      if 0 < s.maxQueueSize_ then
        (s.notFull_.notify chosen).map fun notFull_ => { s with notFull_ := notFull_ }
      else some s

/-- The part of `stop` that holds the mutex. -/
def stopLocked (s : ThreadPool Task) : ThreadPool Task :=
  { s with
    running_ := false
    notEmpty_ := s.notEmpty_.notifyAll
    notFull_ := s.notFull_.notifyAll }

/-- The threads that are inside a call. -/
def inside (s : ThreadPool Task) : List ℕ :=
  s.notEmpty_.inside ++ s.notFull_.inside.map Prod.fst

def step (s : ThreadPool Task) : PoolAction Task → Option (ThreadPool Task)
  | .run thread task chosen =>
    if thread ∈ s.inside then none
    else if s.threads_ = 0 then some { s with executed := s.executed ++ [task] }
    else s.runLocked thread task chosen
  | .runAgain notified i chosen =>
    (s.notFull_.reenter notified i).bind fun (w, notFull_) =>
      { s with notFull_ := notFull_ }.runLocked w.1 w.2 chosen
  | .take thread chosen => if thread ∈ s.inside then none else s.takeLocked thread chosen
  | .takeAgain notified i chosen =>
    (s.notEmpty_.reenter notified i).bind fun (thread, notEmpty_) =>
      { s with notEmpty_ := notEmpty_ }.takeLocked thread chosen
  | .stop => some s.stopLocked
  | .wakeProducer i => (s.notFull_.wake i).map fun notFull_ => { s with notFull_ := notFull_ }
  | .wakeWorker i => (s.notEmpty_.wake i).map fun notEmpty_ => { s with notEmpty_ := notEmpty_ }

/-! ## The invariant -/

/-- What holds whatever has been notified. -/
structure Base (s : ThreadPool Task) : Prop where
  size_le : 0 < s.maxQueueSize_ → s.queue_.length ≤ s.maxQueueSize_
  failed : s.failed = false
  order : s.taken ++ s.queue_ = s.pushed
  stopped : s.running_ = false → s.notEmpty_.waiting = [] ∧ s.notFull_.waiting = []

/-- A worker that waits has a notified worker for every task in the queue, and a producer
that waits a notified producer for every free place. -/
structure Sound (s : ThreadPool Task) : Prop extends Base s where
  workers : s.notEmpty_.Covers s.queue_.length
  producers : s.notFull_.Covers (s.maxQueueSize_ - s.queue_.length)

theorem sound_start (maxSize numThreads : ℕ) :
    (start maxSize numThreads : ThreadPool Task).Sound where
  size_le _ := Nat.zero_le _
  failed := rfl
  order := rfl
  stopped _ := ⟨rfl, rfl⟩
  workers := Condition.covers_idle
  producers := Condition.covers_idle

theorem isFull_iff {s : ThreadPool Task} :
    s.isFull = true ↔ 0 < s.maxQueueSize_ ∧ s.maxQueueSize_ ≤ s.queue_.length := by
  rw [isFull, Bool.and_eq_true, decide_eq_true_iff, decide_eq_true_iff]

variable {s s' : ThreadPool Task}

/-- The place the producer takes is one it need not share with a notified one. -/
theorem Base.runLocked (h : s.Base) (hworkers : s.notEmpty_.Covers s.queue_.length)
    (hproducers : s.notFull_.Covers (s.maxQueueSize_ - (s.queue_.length + 1))) {thread chosen : ℕ}
    {task : Task} (hs : s.runLocked thread task chosen = some s') : s'.Sound := by
  rw [ThreadPool.runLocked] at hs
  split at hs
  · next hwait =>
    obtain ⟨hfull, hrunning⟩ := Bool.and_eq_true_iff.mp hwait
    cases hs
    have hzero : s.maxQueueSize_ - s.queue_.length = 0 :=
      Nat.sub_eq_zero_of_le (isFull_iff.mp hfull).2
    refine ⟨⟨h.size_le, h.failed, h.order, fun hno => ?_⟩, hworkers, ?_⟩
    · cases hno.symm.trans hrunning
    · simp only [hzero]
      exact Condition.covers_zero
  · next hwait =>
    split at hs
    · next hrunning =>
      cases hs
      rw [Bool.not_eq_true'] at hrunning
      exact ⟨h, hworkers, fun hw => absurd (h.stopped hrunning).2 hw⟩
    · next hrunning =>
      obtain ⟨c, hnotify, rfl⟩ := Option.map_eq_some_iff.mp hs
      have hrunning : s.running_ = true := by simpa using hrunning
      have hfull : s.isFull = false := by simpa [hrunning] using hwait
      refine ⟨⟨fun hpos => ?_, ?_, ?_, fun hno => ?_⟩, ?_, ?_⟩
      · have hlt : ¬ s.maxQueueSize_ ≤ s.queue_.length := fun hle =>
          Bool.false_ne_true (hfull.symm.trans (isFull_iff.mpr ⟨hpos, hle⟩))
        rw [List.length_append, List.length_singleton]
        exact Nat.lt_of_not_le hlt
      · simp only [h.failed, hfull, Bool.or_false]
      · simp only [← h.order, List.append_assoc]
      · cases hno.symm.trans hrunning
      · rw [List.length_append]
        exact hworkers.notify hnotify
      · rw [List.length_append]
        exact hproducers

/-- The worker takes the task that it need not share with a notified one. -/
theorem Base.takeLocked (h : s.Base) (hworkers : s.notEmpty_.Covers (s.queue_.length - 1))
    (hproducers : s.notFull_.Covers (s.maxQueueSize_ - s.queue_.length)) {thread chosen : ℕ}
    (hs : s.takeLocked thread chosen = some s') : s'.Sound := by
  rw [ThreadPool.takeLocked] at hs
  split at hs
  · next hwait =>
    obtain ⟨hempty, hrunning⟩ := Bool.and_eq_true_iff.mp hwait
    cases hs
    refine ⟨⟨h.size_le, h.failed, h.order, fun hno => ?_⟩, ?_, hproducers⟩
    · cases hno.symm.trans hrunning
    · simp only [List.isEmpty_iff.mp hempty]
      exact Condition.covers_zero
  · cases hqueue : s.queue_ with
    | nil =>
      rw [hqueue] at hs
      cases hs
      refine ⟨h, ?_, hproducers⟩
      rw [hqueue]
      exact Condition.covers_zero
    | cons task rest =>
      have hsize := h.size_le
      have horder := h.order
      rw [hqueue] at hs hworkers hproducers hsize horder
      have hbase (c : Condition (ℕ × Task)) (hc : s.notFull_.waiting = [] → c.waiting = []) :
          Base { s with queue_ := rest, taken := s.taken ++ [task], notFull_ := c } := by
        refine ⟨fun hpos => Nat.le_of_succ_le (hsize hpos), h.failed, ?_, fun hno => ?_⟩
        · simp only [List.append_assoc, List.singleton_append]
          exact horder
        · exact ⟨(h.stopped hno).1, hc (h.stopped hno).2⟩
      simp only at hs
      split at hs
      · obtain ⟨c, hnotify, rfl⟩ := Option.map_eq_some_iff.mp hs
        refine ⟨hbase c (Condition.waiting_of_notify hnotify), hworkers, ?_⟩
        refine (hproducers.notify hnotify).mono ?_
        simp only [List.length_cons]
        omega
      · next hzero =>
        cases hs
        refine ⟨hbase s.notFull_ id, hworkers, ?_⟩
        have hmax : s.maxQueueSize_ = 0 := Nat.eq_zero_of_not_pos hzero
        simp only [hmax, Nat.zero_sub]
        exact Condition.covers_zero

theorem Sound.base_reenter {c : Condition (ℕ × Task)} (h : s.Sound)
    (hc : c.waiting = s.notFull_.waiting) : Base { s with notFull_ := c } :=
  ⟨h.size_le, h.failed, h.order, fun hno => ⟨(h.stopped hno).1, hc.trans (h.stopped hno).2⟩⟩

theorem Sound.step {a : PoolAction Task} (h : s.Sound) (hs : s.step a = some s') : s'.Sound := by
  cases a with
  | run thread task chosen =>
    simp only [ThreadPool.step, Option.ite_none_left_eq_some] at hs
    obtain ⟨-, hs⟩ := hs
    split at hs
    · cases hs
      exact ⟨⟨h.size_le, h.failed, h.order, h.stopped⟩, h.workers, h.producers⟩
    · exact h.toBase.runLocked h.workers (h.producers.mono (by omega)) hs
  | runAgain notified i chosen =>
    obtain ⟨⟨w, c⟩, hreenter, hs⟩ := Option.bind_eq_some_iff.mp hs
    refine (h.base_reenter (Condition.reenter_eq hreenter).1).runLocked h.workers ?_ hs
    rcases Nat.lt_or_ge s.queue_.length s.maxQueueSize_ with hlt | hge
    · refine Condition.Covers.reenter (h.producers.mono ?_) hreenter
      simp only
      omega
    · simp only [Nat.sub_eq_zero_of_le (Nat.le_succ_of_le hge)]
      exact Condition.covers_zero
  | take thread chosen =>
    simp only [ThreadPool.step, Option.ite_none_left_eq_some] at hs
    exact h.toBase.takeLocked (h.workers.mono (Nat.sub_le _ _)) h.producers hs.2
  | takeAgain notified i chosen =>
    obtain ⟨⟨w, c⟩, hreenter, hs⟩ := Option.bind_eq_some_iff.mp hs
    have hwaiting := (Condition.reenter_eq hreenter).1
    refine Base.takeLocked (s := { s with notEmpty_ := c }) ⟨h.size_le, h.failed, h.order,
      fun hno => ⟨hwaiting.trans (h.stopped hno).1, (h.stopped hno).2⟩⟩ ?_ h.producers hs
    cases hqueue : s.queue_ with
    | nil => exact Condition.covers_zero
    | cons task rest =>
      have hworkers := h.workers
      rw [hqueue] at hworkers
      exact hworkers.reenter hreenter
  | stop =>
    cases hs
    exact ⟨⟨h.size_le, h.failed, h.order, fun _ => ⟨rfl, rfl⟩⟩, Condition.covers_notifyAll,
      Condition.covers_notifyAll⟩
  | wakeProducer i =>
    obtain ⟨c, hwake, rfl⟩ := Option.map_eq_some_iff.mp hs
    refine ⟨⟨h.size_le, h.failed, h.order, fun hno => ?_⟩, h.workers, h.producers.wake hwake⟩
    exact absurd (h.stopped hno).2 (Condition.waiting_of_wake hwake)
  | wakeWorker i =>
    obtain ⟨c, hwake, rfl⟩ := Option.map_eq_some_iff.mp hs
    refine ⟨⟨h.size_le, h.failed, h.order, fun hno => ?_⟩, h.workers.wake hwake, h.producers⟩
    exact absurd (h.stopped hno).1 (Condition.waiting_of_wake hwake)

/-! ## Runs -/

theorem sound_run {as : List (PoolAction Task)} {maxSize numThreads : ℕ}
    (hr : run step (start maxSize numThreads) as = some s) : s.Sound :=
  run_invariant (fun _ _ _ h hs => h.step hs) (sound_start maxSize numThreads) hr

/-- What no critical section changes, and what only `stop` does. -/
structure Frame (s s' : ThreadPool Task) : Prop where
  maxQueueSize : s'.maxQueueSize_ = s.maxQueueSize_
  running : s.running_ = false → s'.running_ = false

theorem frame_runLocked {thread chosen : ℕ} {task : Task}
    (hs : s.runLocked thread task chosen = some s') : Frame s s' := by
  rw [runLocked] at hs
  split at hs
  · cases hs
    exact ⟨rfl, id⟩
  · split at hs
    · cases hs
      exact ⟨rfl, id⟩
    · obtain ⟨c, -, rfl⟩ := Option.map_eq_some_iff.mp hs
      exact ⟨rfl, id⟩

theorem frame_takeLocked {thread chosen : ℕ} (hs : s.takeLocked thread chosen = some s') :
    Frame s s' := by
  rw [takeLocked] at hs
  split at hs
  · cases hs
    exact ⟨rfl, id⟩
  · split at hs
    · cases hs
      exact ⟨rfl, id⟩
    · simp only at hs
      split at hs
      · obtain ⟨c, -, rfl⟩ := Option.map_eq_some_iff.mp hs
        exact ⟨rfl, id⟩
      · cases hs
        exact ⟨rfl, id⟩

theorem frame_step {a : PoolAction Task} (hs : s.step a = some s') : Frame s s' := by
  cases a with
  | run thread task chosen =>
    simp only [step, Option.ite_none_left_eq_some] at hs
    obtain ⟨-, hs⟩ := hs
    split at hs
    · cases hs
      exact ⟨rfl, id⟩
    · exact frame_runLocked hs
  | runAgain notified i chosen =>
    obtain ⟨⟨w, c⟩, -, hs⟩ := Option.bind_eq_some_iff.mp hs
    obtain ⟨hmax, hrunning⟩ := frame_runLocked hs
    exact ⟨hmax, hrunning⟩
  | take thread chosen =>
    simp only [step, Option.ite_none_left_eq_some] at hs
    exact frame_takeLocked hs.2
  | takeAgain notified i chosen =>
    obtain ⟨⟨w, c⟩, -, hs⟩ := Option.bind_eq_some_iff.mp hs
    obtain ⟨hmax, hrunning⟩ := frame_takeLocked hs
    exact ⟨hmax, hrunning⟩
  | stop =>
    cases hs
    exact ⟨rfl, fun _ => rfl⟩
  | wakeProducer i =>
    obtain ⟨c, -, rfl⟩ := Option.map_eq_some_iff.mp hs
    exact ⟨rfl, id⟩
  | wakeWorker i =>
    obtain ⟨c, -, rfl⟩ := Option.map_eq_some_iff.mp hs
    exact ⟨rfl, id⟩

theorem frame_run {as : List (PoolAction Task)} (hr : run step s as = some s') : Frame s s' := by
  refine run_invariant (P := fun t => Frame s t) (fun t a u h hs => ?_) ⟨rfl, id⟩ hr
  obtain ⟨hmax, hrunning⟩ := frame_step hs
  exact ⟨hmax.trans h.maxQueueSize, fun hno => hrunning (h.running hno)⟩

theorem stopped_of_mem {as : List (PoolAction Task)} (hr : run step s as = some s')
    (hstop : .stop ∈ as) : s'.running_ = false := by
  obtain ⟨before, after, rfl⟩ := List.append_of_mem hstop
  rw [run_append, Option.bind_eq_some_iff] at hr
  obtain ⟨t, -, hr⟩ := hr
  obtain ⟨u, hs, hr⟩ := run_cons_eq_some.mp hr
  cases hs
  exact (frame_run hr).running rfl

/-- The pool as a monitor, in every state of every interleaving. The queue keeps to its bound
and the assertion holds; tasks leave the queue in the order in which they entered it; no
wakeup is lost; and once `stop` has let go of the mutex, nobody waits any more. -/
theorem threadPool_monitor {maxSize numThreads : ℕ} {as : List (PoolAction Task)}
    (hr : run step (start maxSize numThreads) as = some s) :
    (0 < maxSize → s.queue_.length ≤ maxSize) ∧ s.failed = false ∧
      s.taken ++ s.queue_ = s.pushed ∧
      (s.notEmpty_.waiting ≠ [] → s.queue_.length ≤ s.notEmpty_.signalled.length) ∧
      (s.notFull_.waiting ≠ [] → maxSize - s.queue_.length ≤ s.notFull_.signalled.length) ∧
      (.stop ∈ as → s.notEmpty_.waiting = [] ∧ s.notFull_.waiting = []) := by
  have h := sound_run hr
  have hmax : s.maxQueueSize_ = maxSize := (frame_run hr).maxQueueSize
  have hsize := h.size_le
  have hproducers := h.producers
  rw [hmax] at hsize hproducers
  exact ⟨hsize, h.failed, h.order, h.workers, hproducers,
    fun hstop => h.stopped (stopped_of_mem hr hstop)⟩

/-- A worker that has been notified finds its task taken by another one and waits again, while
a producer waits for a place; then the pool is stopped. -/
theorem threadPool_monitor_overtaken : ∃ s, run step (start 1 2 : ThreadPool ℕ)
      [.take 1 0, .run 7 100 0, .run 8 101 0, .take 2 0, .takeAgain true 0 0, .runAgain true 0 0,
        .stop] = some s ∧ s.taken = [100] ∧ s.queue_ = [101] ∧ s.pushed = [100, 101] ∧
      s.notEmpty_.waiting = [] ∧ s.notFull_.waiting = [] := by
  obtain ⟨s, hr, hdata⟩ : ∃ s, run step (start 1 2 : ThreadPool ℕ)
      [.take 1 0, .run 7 100 0, .run 8 101 0, .take 2 0, .takeAgain true 0 0, .runAgain true 0 0,
        .stop] = some s ∧ (s.taken, s.queue_) = ([100], [101]) :=
    Option.map_eq_some_iff.mp (by decide +kernel)
  obtain ⟨htaken, hqueue⟩ := Prod.mk.inj hdata
  obtain ⟨-, -, horder, -, -, hstopped⟩ := threadPool_monitor hr
  rw [htaken, hqueue] at horder
  exact ⟨s, hr, htaken, hqueue, horder.symm, hstopped (by simp)⟩

end ThreadPool

end ReactorNet
