import ReactorNet.BoundedBlockingQueue

/-!
# The blocking queue

`BlockingQueue` as a monitor. It does what a bounded queue does that never gets full, so its runs
are runs of a bounded queue that is large enough.
-/
namespace ReactorNet

structure BlockingQueue (T : Type*) where
  queue_ : List T
  condition_ : Condition ℕ
  stored : List T
  takes : ℕ
  taken : List T

namespace BlockingQueue

open GuardedRuns

variable {T : Type*}

def construct : BlockingQueue T := ⟨[], .idle, [], 0, []⟩

/-- `take` from the test of its loop on. -/
def takeLocked (s : BlockingQueue T) (thread : ℕ) : BlockingQueue T :=
  match s.queue_ with
  | [] => { s with condition_ := s.condition_.wait thread }
  | front :: rest => { s with queue_ := rest, taken := s.taken ++ [front] }

/-- A producer never waits. -/
def step (s : BlockingQueue T) : QueueAction T → Option (BlockingQueue T)
  | .put thread x chosen =>
    if thread ∈ s.condition_.inside then none
    else (s.condition_.notify chosen).map fun condition_ => { s with
      queue_ := s.queue_ ++ [x]
      stored := s.stored ++ [x]
      condition_ := condition_ }
  | .take thread _ =>
    if thread ∈ s.condition_.inside then none
    else some ({ s with takes := s.takes + 1 }.takeLocked thread)
  | .takeAgain notified i _ =>
    (s.condition_.reenter notified i).map fun (thread, condition_) =>
      { s with condition_ := condition_ }.takeLocked thread
  | .wakeConsumer i =>
    (s.condition_.wake i).map fun condition_ => { s with condition_ := condition_ }
  | .putAgain .. => none
  | .wakeProducer _ => none

def Settled (s : BlockingQueue T) : Prop := ∀ a, a.isAgain = true → s.step a = none

/-- The bounded queue with the same elements and consumers. -/
def bounded (n : ℕ) (s : BlockingQueue T) : BoundedBlockingQueue T :=
  ⟨n, s.queue_, s.condition_, .idle, s.stored, s.stored, s.takes, s.taken⟩

variable {s s' : BlockingQueue T} {n : ℕ}

theorem reenter_idle {W : Type*} (notified : Bool) (i : ℕ) :
    (Condition.idle : Condition W).reenter notified i = none := by
  cases notified with
  | true => rfl
  | false => rfl

theorem inside_bounded : (s.bounded n).inside = s.condition_.inside := List.append_nil _

theorem takeLocked_bounded (s : BlockingQueue T) (n thread chosen : ℕ) :
    (s.bounded n).takeLocked thread chosen = some ((s.takeLocked thread).bounded n) := by
  obtain ⟨queue_, condition_, stored, takes, taken⟩ := s
  cases queue_ with
  | nil => rfl
  | cons front rest => rfl

/-- With a free place the bounded queue takes the same step. -/
theorem step_bounded {a : QueueAction T} (hlt : s.queue_.length < n) (hs : s.step a = some s') :
    (s.bounded n).step a = some (s'.bounded n) ∧ s'.queue_.length ≤ s.queue_.length + 1 := by
  have htake (u : BlockingQueue T) (thread : ℕ) :
      (u.takeLocked thread).queue_.length ≤ u.queue_.length := by
    rw [takeLocked]
    cases hqueue : u.queue_ with
    | nil => exact Nat.le_refl _
    | cons front rest => exact Nat.le_succ _
  cases a with
  | put thread x chosen =>
    simp only [step, Option.ite_none_left_eq_some] at hs
    obtain ⟨hidle, hs⟩ := hs
    obtain ⟨c, hnotify, rfl⟩ := Option.map_eq_some_iff.mp hs
    refine ⟨?_, ?_⟩
    · have hfull : s.queue_.length ≠ n := Nat.ne_of_lt hlt
      have hpush : (s.bounded n).push_back x = s.queue_ ++ [x] :=
        BoundedBlockingQueue.push_back_eq hlt x
      have hnotify' : (s.bounded n).notEmpty_.notify chosen = some c := hnotify
      rw [BoundedBlockingQueue.step, inside_bounded, if_neg hidle, BoundedBlockingQueue.putLocked,
        if_neg (by simpa [BoundedBlockingQueue.full, bounded] using hfull)]
      simp only [hnotify', Option.map_some]
      exact congrArg some (by rw [BoundedBlockingQueue.push_back] at hpush ⊢; rw [hpush]; rfl)
    · simp
  | take thread chosen =>
    simp only [step, Option.ite_none_left_eq_some] at hs
    obtain ⟨hidle, hs⟩ := hs
    cases hs
    refine ⟨?_, Nat.le_succ_of_le (htake _ _)⟩
    rw [BoundedBlockingQueue.step, inside_bounded, if_neg hidle]
    exact takeLocked_bounded { s with takes := s.takes + 1 } n thread chosen
  | takeAgain notified i chosen =>
    obtain ⟨⟨thread, c⟩, hreenter, rfl⟩ := Option.map_eq_some_iff.mp hs
    refine ⟨?_, Nat.le_succ_of_le (htake _ _)⟩
    have hreenter' : (s.bounded n).notEmpty_.reenter notified i = some (thread, c) := hreenter
    rw [BoundedBlockingQueue.step, hreenter', Option.bind_some]
    exact takeLocked_bounded { s with condition_ := c } n thread chosen
  | wakeConsumer i =>
    obtain ⟨c, hwake, rfl⟩ := Option.map_eq_some_iff.mp hs
    have hwake' : (s.bounded n).notEmpty_.wake i = some c := hwake
    refine ⟨?_, Nat.le_succ _⟩
    rw [BoundedBlockingQueue.step, hwake']
    rfl
  | putAgain => cases hs
  | wakeProducer => cases hs

/-- A run is one of the bounded queue with room for all that could be put in. -/
theorem run_bounded {as : List (QueueAction T)} (hlt : s.queue_.length + as.length ≤ n)
    (hr : run step s as = some s') :
    run BoundedBlockingQueue.step (s.bounded n) as = some (s'.bounded n) ∧
      s'.queue_.length ≤ s.queue_.length + as.length := by
  induction as generalizing s with
  | nil =>
    cases hr
    exact ⟨rfl, Nat.le_refl _⟩
  | cons a as ih =>
    obtain ⟨t, ht, hr⟩ := run_cons_eq_some.mp hr
    rw [List.length_cons] at hlt ⊢
    obtain ⟨hstep, hle⟩ := step_bounded (n := n) (by omega) ht
    obtain ⟨hrun, hle'⟩ := ih (by omega) hr
    exact ⟨run_cons_eq_some.mpr ⟨_, hstep, hrun⟩, by omega⟩

theorem Settled.bounded (h : s.Settled) : (s.bounded n).Settled := by
  intro a ha
  cases a with
  | putAgain notified i chosen =>
    rw [BoundedBlockingQueue.step]
    exact congrArg (Option.bind · _) (reenter_idle notified i)
  | takeAgain notified i chosen =>
    have hnone : (s.bounded n).notEmpty_.reenter notified i = none :=
      Option.map_eq_none_iff.mp (h (.takeAgain notified i chosen) rfl)
    rw [BoundedBlockingQueue.step, hnone]
    rfl
  | put => cases ha
  | take => cases ha
  | wakeProducer => cases ha
  | wakeConsumer => cases ha

/-- The unbounded queue in every interleaving: what is taken is what was put, in that order. Let
the consumers that have been woken go on: they stop after a bounded number of steps, and then as
many of them have returned as there were values for. -/
theorem blockingQueue_delivers {as bs : List (QueueAction T)} {t : BlockingQueue T}
    (hr : run step construct as = some s) (hbs : ∀ b ∈ bs, b.isAgain = true)
    (hr' : run step s bs = some t) :
    s.taken ++ s.queue_ = s.stored ∧ s.taken.length + s.condition_.inside.length = s.takes ∧
      bs.length ≤ s.condition_.inside.length + s.condition_.pending.length ∧
      (t.Settled → t.taken.length = min t.takes t.stored.length) := by
  obtain ⟨hrun, hle⟩ := run_bounded (n := as.length + bs.length + 1) (by simp [construct]; omega) hr
  have h : (s.bounded (as.length + bs.length + 1)).Sound := BoundedBlockingQueue.sound_run hrun
  have hlength : (construct : BlockingQueue T).queue_.length = 0 := rfl
  obtain ⟨hrun', -⟩ := run_bounded (n := as.length + bs.length + 1) (by omega) hr'
  have ht : (t.bounded (as.length + bs.length + 1)).Sound :=
    run_invariant (fun _ _ _ h hs => h.step hs) h hrun'
  have hwork := BoundedBlockingQueue.length_le_work hbs hrun'
  refine ⟨h.order, h.takes, ?_, ?_⟩
  · have hwork' : (s.bounded (as.length + bs.length + 1)).work =
        s.condition_.inside.length + s.condition_.pending.length := rfl
    omega
  · intro hsettled
    exact (ht.settled hsettled.bounded (Nat.succ_pos _)).1

/-- Two consumers wait for the values of two producers. -/
theorem blockingQueue_delivers_two : ∃ s t,
    run step (construct : BlockingQueue ℕ)
      [.take 1 0, .take 2 0, .put 3 30 1, .put 4 40 0] = some s ∧
    run step s [.takeAgain true 0 0, .takeAgain true 0 0] = some t ∧
    s.stored = [30, 40] ∧ s.takes = 2 ∧
      2 ≤ s.condition_.inside.length + s.condition_.pending.length ∧
      t.taken = [30, 40] := by
  obtain ⟨s, hr, hs⟩ : ∃ s, run step (construct : BlockingQueue ℕ)
      [.take 1 0, .take 2 0, .put 3 30 1, .put 4 40 0] = some s ∧
      (s.stored, s.takes, (run step s [.takeAgain true 0 0, .takeAgain true 0 0]).map (·.taken)) =
        ([30, 40], 2, some [30, 40]) :=
    ⟨_, rfl, by decide⟩
  obtain ⟨hstored, hs⟩ := Prod.mk.inj hs
  obtain ⟨htakes, hs⟩ := Prod.mk.inj hs
  obtain ⟨t, hr', ht⟩ := Option.map_eq_some_iff.mp hs
  obtain ⟨-, -, hle, -⟩ := blockingQueue_delivers hr (by decide) hr'
  exact ⟨s, t, hr, hr', hstored, htakes, hle, ht⟩

end BlockingQueue

end ReactorNet
