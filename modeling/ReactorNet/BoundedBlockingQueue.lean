import ReactorNet.ConditionVariables
import ReactorNet.GuardedRuns

/-!
# The bounded blocking queue

`BoundedBlockingQueue` as a monitor: a step is one critical section of `put` or `take`, from the
lock, or from the return of a wait, to the next wait or the unlock. Threads are numbers; a
producer that waits keeps its value.
-/
namespace ReactorNet

/-- The first number of a step is the thread; `chosen` is the waiter a notification wakes. -/
inductive QueueAction (T : Type*) where
  | put (thread : ℕ) (x : T) (chosen : ℕ)
  | putAgain (notified : Bool) (i : ℕ) (chosen : ℕ)
  | take (thread : ℕ) (chosen : ℕ)
  | takeAgain (notified : Bool) (i : ℕ) (chosen : ℕ)
  | wakeProducer (i : ℕ)
  | wakeConsumer (i : ℕ)

/-- A thread that has been woken goes on. -/
def QueueAction.isAgain {T : Type*} : QueueAction T → Bool
  | .putAgain .. => true
  | .takeAgain .. => true
  | _ => false

/-- `offered` are the arguments of all calls of `put`, `stored` those that have entered the queue,
`taken` the results of `take`, in the order of the critical sections. -/
structure BoundedBlockingQueue (T : Type*) where
  capacity : ℕ
  queue_ : List T
  notEmpty_ : Condition ℕ
  notFull_ : Condition (ℕ × T)
  offered : List T
  stored : List T
  takes : ℕ
  taken : List T

namespace BoundedBlockingQueue

open GuardedRuns

variable {T : Type*}

def construct (max_size : ℕ) : BoundedBlockingQueue T :=
  ⟨max_size, [], .idle, .idle, [], [], 0, []⟩

def full (s : BoundedBlockingQueue T) : Bool := s.queue_.length == s.capacity

/-- `push_back` of the circular buffer gives up the oldest elements for room. -/
def push_back (s : BoundedBlockingQueue T) (x : T) : List T :=
  (s.queue_ ++ [x]).drop (s.queue_.length + 1 - s.capacity)

/-- `put` from the test of its loop on. -/
def putLocked (s : BoundedBlockingQueue T) (thread : ℕ) (x : T) (chosen : ℕ) :
    Option (BoundedBlockingQueue T) :=
  if s.full then some { s with notFull_ := s.notFull_.wait (thread, x) }
  else (s.notEmpty_.notify chosen).map fun notEmpty_ => { s with
    queue_ := s.push_back x
    stored := s.stored ++ [x]
    notEmpty_ := notEmpty_ }

/-- `take` from the test of its loop on. -/
def takeLocked (s : BoundedBlockingQueue T) (thread : ℕ) (chosen : ℕ) :
    Option (BoundedBlockingQueue T) :=
  match s.queue_ with
  | [] => some { s with notEmpty_ := s.notEmpty_.wait thread }
  | front :: rest => (s.notFull_.notify chosen).map fun notFull_ => { s with
    queue_ := rest
    taken := s.taken ++ [front]
    notFull_ := notFull_ }

/-- The threads that are inside a call. -/
def inside (s : BoundedBlockingQueue T) : List ℕ :=
  s.notEmpty_.inside ++ s.notFull_.inside.map Prod.fst

def step (s : BoundedBlockingQueue T) : QueueAction T → Option (BoundedBlockingQueue T)
  | .put thread x chosen =>
    if thread ∈ s.inside then none
    else { s with offered := s.offered ++ [x] }.putLocked thread x chosen
  | .putAgain notified i chosen =>
    (s.notFull_.reenter notified i).bind fun (w, notFull_) =>
      { s with notFull_ := notFull_ }.putLocked w.1 w.2 chosen
  | .take thread chosen =>
    if thread ∈ s.inside then none else { s with takes := s.takes + 1 }.takeLocked thread chosen
  | .takeAgain notified i chosen =>
    (s.notEmpty_.reenter notified i).bind fun (thread, notEmpty_) =>
      { s with notEmpty_ := notEmpty_ }.takeLocked thread chosen
  | .wakeProducer i => (s.notFull_.wake i).map fun notFull_ => { s with notFull_ := notFull_ }
  | .wakeConsumer i => (s.notEmpty_.wake i).map fun notEmpty_ => { s with notEmpty_ := notEmpty_ }

/-! ## The invariant -/

/-- The values of the calls of `put` are stored or kept by a producer, with `xs` those kept;
`consumers` calls of `take` have not returned yet. -/
structure Counts (s : BoundedBlockingQueue T) (xs : List T) (consumers : ℕ) : Prop where
  size_le : s.queue_.length ≤ s.capacity
  order : s.taken ++ s.queue_ = s.stored
  offered : (s.stored ++ xs).Perm s.offered
  takes : s.taken.length + consumers = s.takes

/-- Besides, a consumer that waits has a notified consumer for every element of the queue, and a
producer that waits a notified producer for every free place. -/
structure Sound (s : BoundedBlockingQueue T) : Prop
    extends Counts s (s.notFull_.inside.map Prod.snd) s.notEmpty_.inside.length where
  consumers : s.notEmpty_.Covers s.queue_.length
  producers : s.notFull_.Covers (s.capacity - s.queue_.length)

theorem sound_construct (max_size : ℕ) : (construct max_size : BoundedBlockingQueue T).Sound where
  size_le := Nat.zero_le _
  order := rfl
  offered := List.Perm.refl _
  takes := rfl
  consumers := Condition.covers_idle
  producers := Condition.covers_idle

variable {s s' : BoundedBlockingQueue T}

theorem full_eq_false (h : s.queue_.length ≤ s.capacity) (hfull : s.full = false) :
    s.queue_.length < s.capacity := by
  rw [full, beq_eq_false_iff_ne] at hfull
  omega

/-- With a free place nothing is given up. -/
theorem push_back_eq (h : s.queue_.length < s.capacity) (x : T) :
    s.push_back x = s.queue_ ++ [x] := by
  rw [push_back, Nat.sub_eq_zero_of_le h, List.drop_zero]

/-- The place that the producer takes is one it need not share with a notified one. -/
theorem Counts.putLocked {thread chosen : ℕ} {x : T}
    (h : Counts s (x :: s.notFull_.inside.map Prod.snd) s.notEmpty_.inside.length)
    (hconsumers : s.notEmpty_.Covers s.queue_.length)
    (hproducers : s.notFull_.Covers (s.capacity - (s.queue_.length + 1)))
    (hs : s.putLocked thread x chosen = some s') : s'.Sound := by
  rw [BoundedBlockingQueue.putLocked] at hs
  split at hs
  · next hfull =>
    cases hs
    have hsize : s.queue_.length = s.capacity := eq_of_beq hfull
    refine ⟨⟨h.size_le, h.order, h.offered, h.takes⟩, hconsumers, ?_⟩
    rw [hsize, Nat.sub_self]
    exact Condition.covers_zero
  · next hfull =>
    obtain ⟨c, hnotify, rfl⟩ := Option.map_eq_some_iff.mp hs
    have hlt := full_eq_false h.size_le (Bool.eq_false_iff.mpr hfull)
    have hpush := push_back_eq hlt x
    refine ⟨⟨?_, ?_, ?_, ?_⟩, ?_, ?_⟩
    · simp only [hpush, List.length_append, List.length_singleton]
      exact hlt
    · simp only [hpush, ← h.order, List.append_assoc]
    · simp only [List.append_assoc, List.singleton_append]
      exact h.offered
    · simp only [(Condition.inside_notify hnotify).length_eq]
      exact h.takes
    · simp only [hpush, List.length_append, List.length_singleton]
      exact hconsumers.notify hnotify
    · simp only [hpush, List.length_append, List.length_singleton]
      exact hproducers

/-- The element that the consumer takes is one it need not share with a notified one. -/
theorem Counts.takeLocked {thread chosen : ℕ}
    (h : Counts s (s.notFull_.inside.map Prod.snd) (s.notEmpty_.inside.length + 1))
    (hconsumers : s.notEmpty_.Covers (s.queue_.length - 1))
    (hproducers : s.notFull_.Covers (s.capacity - s.queue_.length))
    (hs : s.takeLocked thread chosen = some s') : s'.Sound := by
  rw [BoundedBlockingQueue.takeLocked] at hs
  cases hqueue : s.queue_ with
  | nil =>
    have horder := h.order
    rw [hqueue] at hs hproducers horder
    cases hs
    exact ⟨⟨Nat.zero_le _, horder, h.offered, h.takes⟩, Condition.covers_zero, hproducers⟩
  | cons front rest =>
    rw [hqueue] at hs hconsumers hproducers
    obtain ⟨c, hnotify, rfl⟩ := Option.map_eq_some_iff.mp hs
    have hsize := h.size_le
    have horder := h.order
    have htakes := h.takes
    rw [hqueue] at hsize horder
    refine ⟨⟨Nat.le_of_succ_le hsize, ?_, ?_, ?_⟩, hconsumers, ?_⟩
    · simp only [List.append_assoc, List.singleton_append]
      exact horder
    · exact (((Condition.inside_notify hnotify).map Prod.snd).append_left s.stored).trans h.offered
    · simp only [List.length_append, List.length_singleton]
      omega
    · refine (hproducers.notify hnotify).mono ?_
      simp only [List.length_cons]
      omega

theorem Sound.step {a : QueueAction T} (h : s.Sound) (hs : s.step a = some s') : s'.Sound := by
  cases a with
  | put thread x chosen =>
    simp only [BoundedBlockingQueue.step, Option.ite_none_left_eq_some] at hs
    refine Counts.putLocked (s := { s with offered := s.offered ++ [x] })
      ⟨h.size_le, h.order, ?_, h.takes⟩ h.consumers
        (h.producers.mono (Nat.sub_le_sub_left (Nat.le_succ _) _)) hs.2
    exact List.perm_middle.trans ((List.Perm.cons x h.offered).trans
      (List.perm_append_singleton x _).symm)
  | putAgain notified i chosen =>
    obtain ⟨⟨w, c⟩, hreenter, hs⟩ := Option.bind_eq_some_iff.mp hs
    have hinside := (Condition.inside_reenter hreenter).1
    refine Counts.putLocked (s := { s with notFull_ := c }) ⟨h.size_le, h.order, ?_, h.takes⟩
      h.consumers ?_ hs
    · exact ((hinside.map Prod.snd).symm.append_left s.stored).trans h.offered
    · rcases Nat.lt_or_ge s.queue_.length s.capacity with hlt | hge
      · refine Condition.Covers.reenter (h.producers.mono ?_) hreenter
        simp only
        omega
      · simp only [Nat.sub_eq_zero_of_le (Nat.le_succ_of_le hge)]
        exact Condition.covers_zero
  | take thread chosen =>
    simp only [BoundedBlockingQueue.step, Option.ite_none_left_eq_some] at hs
    refine Counts.takeLocked (s := { s with takes := s.takes + 1 })
      ⟨h.size_le, h.order, h.offered, ?_⟩ (h.consumers.mono (Nat.sub_le _ _)) h.producers hs.2
    exact congrArg (· + 1) h.takes
  | takeAgain notified i chosen =>
    obtain ⟨⟨thread, c⟩, hreenter, hs⟩ := Option.bind_eq_some_iff.mp hs
    have hinside := (Condition.inside_reenter hreenter).1.length_eq
    refine Counts.takeLocked (s := { s with notEmpty_ := c }) ⟨h.size_le, h.order, h.offered, ?_⟩ ?_
      h.producers hs
    · rw [← h.takes, hinside]
      rfl
    · cases hqueue : s.queue_ with
      | nil => exact Condition.covers_zero
      | cons front rest =>
        have hconsumers := h.consumers
        rw [hqueue] at hconsumers
        exact hconsumers.reenter hreenter
  | wakeProducer i =>
    obtain ⟨c, hwake, rfl⟩ := Option.map_eq_some_iff.mp hs
    refine ⟨⟨h.size_le, h.order, ?_, h.takes⟩, h.consumers, h.producers.wake hwake⟩
    exact (((Condition.inside_wake hwake).map Prod.snd).append_left s.stored).trans h.offered
  | wakeConsumer i =>
    obtain ⟨c, hwake, rfl⟩ := Option.map_eq_some_iff.mp hs
    refine ⟨⟨h.size_le, h.order, h.offered, ?_⟩, h.consumers.wake hwake, h.producers⟩
    simp only [(Condition.inside_wake hwake).length_eq]
    exact h.takes

theorem sound_run {max_size : ℕ} {as : List (QueueAction T)}
    (hr : run step (construct max_size) as = some s) : s.Sound :=
  run_invariant (fun _ _ _ h hs => h.step hs) (sound_construct max_size) hr

/-! ## Woken threads go on -/

/-- An upper bound of the number of times that woken threads can go on. -/
def work (s : BoundedBlockingQueue T) : ℕ :=
  s.notEmpty_.inside.length + s.notFull_.inside.length + s.notEmpty_.pending.length +
    s.notFull_.pending.length

/-- A producer that goes on either waits again or has returned. -/
theorem work_putLocked {thread chosen : ℕ} {x : T} (hs : s.putLocked thread x chosen = some s') :
    s'.work ≤ s.work + 1 := by
  rw [BoundedBlockingQueue.putLocked] at hs
  split at hs
  · cases hs
    simp only [work, Condition.inside_wait, Condition.pending_wait, List.length_cons]
    omega
  · obtain ⟨c, hnotify, rfl⟩ := Option.map_eq_some_iff.mp hs
    have hinside := (Condition.inside_notify hnotify).length_eq
    have hpending := Condition.length_pending_notify hnotify
    simp only [work]
    omega

theorem work_takeLocked {thread chosen : ℕ} (hs : s.takeLocked thread chosen = some s') :
    s'.work ≤ s.work + 1 := by
  rw [BoundedBlockingQueue.takeLocked] at hs
  split at hs
  · cases hs
    simp only [work, Condition.inside_wait, Condition.pending_wait, List.length_cons]
    omega
  · obtain ⟨c, hnotify, rfl⟩ := Option.map_eq_some_iff.mp hs
    have hinside := (Condition.inside_notify hnotify).length_eq
    have hpending := Condition.length_pending_notify hnotify
    simp only [work]
    omega

theorem work_step {a : QueueAction T} (ha : a.isAgain) (hs : s.step a = some s') :
    s'.work < s.work := by
  cases a with
  | putAgain notified i chosen =>
    obtain ⟨⟨w, c⟩, hreenter, hs⟩ := Option.bind_eq_some_iff.mp hs
    obtain ⟨hinside, hpending⟩ := Condition.inside_reenter hreenter
    have hinside := hinside.length_eq
    have hpending := hpending.length_eq
    have hwork := work_putLocked hs
    simp only [work, List.length_cons] at hinside hpending hwork ⊢
    omega
  | takeAgain notified i chosen =>
    obtain ⟨⟨thread, c⟩, hreenter, hs⟩ := Option.bind_eq_some_iff.mp hs
    obtain ⟨hinside, hpending⟩ := Condition.inside_reenter hreenter
    have hinside := hinside.length_eq
    have hpending := hpending.length_eq
    have hwork := work_takeLocked hs
    simp only [work, List.length_cons] at hinside hpending hwork ⊢
    omega
  | put => cases ha
  | take => cases ha
  | wakeProducer => cases ha
  | wakeConsumer => cases ha

theorem length_le_work {bs : List (QueueAction T)} (hbs : ∀ b ∈ bs, b.isAgain = true)
    (hr : run step s bs = some s') : bs.length + s'.work ≤ s.work := by
  induction bs generalizing s with
  | nil =>
    cases hr
    exact Nat.le_of_eq (Nat.zero_add _)
  | cons b bs ih =>
    obtain ⟨t, ht, hr⟩ := run_cons_eq_some.mp hr
    have hlt := work_step (hbs b List.mem_cons_self) ht
    have hle := ih (fun b hb => hbs b (List.mem_cons_of_mem _ hb)) hr
    rw [List.length_cons]
    omega

/-- A thread that has been woken can go on, whoever is notified then. -/
theorem exists_putLocked (s : BoundedBlockingQueue T) (thread : ℕ) (x : T) :
    ∃ s', s.putLocked thread x 0 = some s' := by
  rw [BoundedBlockingQueue.putLocked]
  obtain ⟨c, hc⟩ := s.notEmpty_.exists_notify
  split
  · exact ⟨_, rfl⟩
  · exact ⟨_, by rw [hc]; rfl⟩

theorem exists_takeLocked (s : BoundedBlockingQueue T) (thread : ℕ) :
    ∃ s', s.takeLocked thread 0 = some s' := by
  rw [BoundedBlockingQueue.takeLocked]
  obtain ⟨c, hc⟩ := s.notFull_.exists_notify
  split
  · exact ⟨_, rfl⟩
  · exact ⟨_, by rw [hc]; rfl⟩

/-- No thread that has been woken is left. -/
def Settled (s : BoundedBlockingQueue T) : Prop := ∀ a, a.isAgain = true → s.step a = none

theorem Settled.pending (h : s.Settled) : s.notEmpty_.pending = [] ∧ s.notFull_.pending = [] := by
  constructor
  · apply Condition.pending_eq_nil
    intro notified i
    have hstep := h (.takeAgain notified i 0) rfl
    cases hreenter : s.notEmpty_.reenter notified i with
    | none => rfl
    | some read =>
      obtain ⟨s', hs'⟩ := exists_takeLocked { s with notEmpty_ := read.2 } read.1
      rw [step, hreenter, Option.bind_some] at hstep
      exact absurd (hs'.symm.trans hstep) nofun
  · apply Condition.pending_eq_nil
    intro notified i
    have hstep := h (.putAgain notified i 0) rfl
    cases hreenter : s.notFull_.reenter notified i with
    | none => rfl
    | some read =>
      obtain ⟨s', hs'⟩ := exists_putLocked { s with notFull_ := read.2 } read.1.1 read.1.2
      rw [step, hreenter, Option.bind_some] at hstep
      exact absurd (hs'.symm.trans hstep) nofun

/-- When no woken thread is left, as many calls have returned as the numbers of calls allow. -/
theorem Sound.settled (h : s.Sound) (hsettled : s.Settled) (hcapacity : 0 < s.capacity) :
    s.taken.length = min s.takes s.offered.length ∧
      s.stored.length = min s.offered.length (s.takes + s.capacity) := by
  obtain ⟨hempty, hfull⟩ := hsettled.pending
  obtain ⟨hconsumers, hsignalled⟩ := Condition.inside_of_pending_nil hempty
  obtain ⟨hproducers, hsignalled'⟩ := Condition.inside_of_pending_nil hfull
  have hsize := h.size_le
  have horder := congrArg List.length h.order
  have hoffered := h.offered.length_eq
  have htakes := h.takes
  rw [List.length_append] at horder hoffered
  rw [hproducers, List.length_map] at hoffered
  rw [hconsumers] at htakes
  have hconsumer : s.notEmpty_.waiting = [] ∨ s.queue_.length = 0 := by
    by_cases hw : s.notEmpty_.waiting = []
    · exact Or.inl hw
    · have hle := h.consumers hw
      rw [hsignalled] at hle
      exact Or.inr (Nat.le_zero.mp hle)
  have hproducer : s.notFull_.waiting = [] ∨ s.capacity ≤ s.queue_.length := by
    by_cases hw : s.notFull_.waiting = []
    · exact Or.inl hw
    · have hle := h.producers hw
      rw [hsignalled'] at hle
      exact Or.inr (Nat.le_of_sub_eq_zero (Nat.le_zero.mp hle))
  have hconsumer' : s.notEmpty_.waiting.length = 0 ∨ s.queue_.length = 0 :=
    hconsumer.imp_left List.length_eq_zero_iff.mpr
  have hproducer' : s.notFull_.waiting.length = 0 ∨ s.capacity ≤ s.queue_.length :=
    hproducer.imp_left List.length_eq_zero_iff.mpr
  omega

theorem capacity_step {a : QueueAction T} (hs : s.step a = some s') : s'.capacity = s.capacity := by
  have hput {t : BoundedBlockingQueue T} {thread chosen : ℕ} {x : T}
      (ht : t.putLocked thread x chosen = some s') : s'.capacity = t.capacity := by
    rw [BoundedBlockingQueue.putLocked] at ht
    split at ht
    · cases ht
      rfl
    · obtain ⟨c, -, rfl⟩ := Option.map_eq_some_iff.mp ht
      rfl
  have htake {t : BoundedBlockingQueue T} {thread chosen : ℕ}
      (ht : t.takeLocked thread chosen = some s') : s'.capacity = t.capacity := by
    rw [BoundedBlockingQueue.takeLocked] at ht
    split at ht
    · cases ht
      rfl
    · obtain ⟨c, -, rfl⟩ := Option.map_eq_some_iff.mp ht
      rfl
  cases a with
  | put thread x chosen =>
    simp only [step, Option.ite_none_left_eq_some] at hs
    exact (hput hs.2).trans rfl
  | putAgain notified i chosen =>
    obtain ⟨⟨w, c⟩, -, hs⟩ := Option.bind_eq_some_iff.mp hs
    exact (hput hs).trans rfl
  | take thread chosen =>
    simp only [step, Option.ite_none_left_eq_some] at hs
    exact (htake hs.2).trans rfl
  | takeAgain notified i chosen =>
    obtain ⟨⟨thread, c⟩, -, hs⟩ := Option.bind_eq_some_iff.mp hs
    exact (htake hs).trans rfl
  | wakeProducer i =>
    obtain ⟨c, -, rfl⟩ := Option.map_eq_some_iff.mp hs
    rfl
  | wakeConsumer i =>
    obtain ⟨c, -, rfl⟩ := Option.map_eq_some_iff.mp hs
    rfl

theorem capacity_run {as : List (QueueAction T)} (hr : run step s as = some s') :
    s'.capacity = s.capacity :=
  run_invariant (P := fun t => t.capacity = s.capacity)
    (fun _ _ _ h hs => (capacity_step hs).trans h) rfl hr

/-- The bounded queue in every interleaving, whoever is notified and whoever wakes on his own.
What is taken is what was stored, in that order, nothing is overwritten, and every value that is
not stored is kept by a producer that has not returned. Let the threads that have been woken go
on: they stop after a bounded number of steps, and then as many calls have returned as the
numbers of calls allow. -/
theorem boundedBlockingQueue_delivers {max_size : ℕ} {as bs : List (QueueAction T)}
    {t : BoundedBlockingQueue T} (hr : run step (construct max_size) as = some s)
    (hbs : ∀ b ∈ bs, b.isAgain = true) (hr' : run step s bs = some t) :
    s.queue_.length ≤ max_size ∧ s.taken ++ s.queue_ = s.stored ∧
      (s.stored ++ s.notFull_.inside.map Prod.snd).Perm s.offered ∧
      s.taken.length + s.notEmpty_.inside.length = s.takes ∧ bs.length ≤ s.work ∧
      (0 < max_size → t.Settled → t.taken.length = min t.takes t.offered.length ∧
        t.stored.length = min t.offered.length (t.takes + max_size)) := by
  have h := sound_run hr
  have ht : t.Sound := run_invariant (fun _ _ _ h hs => h.step hs) h hr'
  have hcapacity : s.capacity = max_size := capacity_run hr
  have hcapacity' : t.capacity = max_size := (capacity_run hr').trans hcapacity
  have hwork := length_le_work hbs hr'
  refine ⟨hcapacity ▸ h.size_le, h.order, h.offered, h.takes, by omega, ?_⟩
  intro hpos hsettled
  rw [← hcapacity'] at hpos ⊢
  exact ht.settled hsettled hpos

/-- Three producers and a consumer at a queue of one place; the second producer is notified, and the
third one wakes without a notification and waits again. -/
theorem boundedBlockingQueue_delivers_one : ∃ s t,
    run step (construct 1 : BoundedBlockingQueue ℕ)
      [.put 1 10 0, .put 2 20 0, .put 3 30 0, .take 4 1, .wakeProducer 0] = some s ∧
    run step s [.putAgain true 0 0, .putAgain false 0 0] = some t ∧
    s.queue_.length ≤ 1 ∧ s.taken ++ s.queue_ = s.stored ∧ 2 ≤ s.work ∧ t.taken = [10] ∧
      t.stored = [10, 20] := by
  obtain ⟨s, hr, hs⟩ : ∃ s, run step (construct 1 : BoundedBlockingQueue ℕ)
      [.put 1 10 0, .put 2 20 0, .put 3 30 0, .take 4 1, .wakeProducer 0] = some s ∧
      (run step s [.putAgain true 0 0, .putAgain false 0 0]).map
        (fun t => (t.taken, t.stored)) = some ([10], [10, 20]) :=
    ⟨_, rfl, by decide⟩
  obtain ⟨t, hr', ht⟩ := Option.map_eq_some_iff.mp hs
  obtain ⟨htaken, hstored⟩ := Prod.mk.inj ht
  obtain ⟨hsize, horder, -, -, hwork, -⟩ := boundedBlockingQueue_delivers hr (by decide) hr'
  exact ⟨s, t, hr, hr', hsize, horder, hwork, htaken, hstored⟩

end BoundedBlockingQueue

end ReactorNet
