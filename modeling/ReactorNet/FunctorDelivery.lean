import ReactorNet.PendingFunctors
import Mathlib.Data.List.Basic

/-!
# Functors reach the loop, once and in order

The functors started, the rest of the batch and the queue are at every point the functors
pushed, in order, and a batch holds only what was pushed before it was swapped out. Once
the loop runs, it does not enter the poller with a functor in the queue unless the wakeup
descriptor is raised or about to be; a call of the loop thread before `loop()` raises
nothing.
-/
namespace ReactorNet.LoopThread

open GuardedRuns

variable {F : Type*}

/-! ## Steps -/

/-- The queue and the order of pushes after a push. -/
def push (s : LoopThread F) (cb : F) : LoopThread F :=
  { s with
    pendingFunctors_ := s.pendingFunctors_ ++ [⟨cb, s.passes⟩]
    pushed := s.pushed ++ [⟨cb, s.passes⟩] }

/-- The moves of the system, one case for every branch. -/
inductive Move (s : LoopThread F) : LoopStep F → LoopThread F → Prop
  | queueElsewhere (cb : F) :
      Move s (.queueInLoop false cb) { s.push cb with calls := s.calls + 1 }
  | queueInFunctor (cb : F) (huser : s.inUserCode = true)
      (hcalling : s.callingPendingFunctors_ = true) :
      Move s (.queueInLoop true cb) { s.push cb with waking := true }
  | queueQuietly (cb : F) (huser : s.inUserCode = true)
      (hcalling : s.callingPendingFunctors_ = false) : Move s (.queueInLoop true cb) (s.push cb)
  | wakeupElsewhere (hcalls : 0 < s.calls) :
      Move s (.wakeup false) { s with wakeupFd_ := s.wakeupFd_ + 1, calls := s.calls - 1 }
  | wakeupInLoop (hwaking : s.waking = true) :
      Move s (.wakeup true) { s with wakeupFd_ := s.wakeupFd_ + 1, waking := false }
  | enterLoop (hwaking : s.waking = false) (hphase : s.phase = .outside) :
      Move s .enterLoop { s with phase := .condition }
  | leaveLoop (hwaking : s.waking = false) (hphase : s.phase = .condition) :
      Move s .leaveLoop { s with phase := .outside }
  | poll (hwaking : s.waking = false) (hphase : s.phase = .condition) :
      Move s .poll { s with phase := .polling }
  | pollReturns {wakeup : Bool} (hwaking : s.waking = false) (hphase : s.phase = .polling) :
      Move s (.pollReturns wakeup) { s with phase := .handlingEvents wakeup }
  | handleRead (hwaking : s.waking = false) (hphase : s.phase = .handlingEvents true) :
      Move s .handleRead { s with phase := .handlingEvents false, wakeupFd_ := 0 }
  | doPendingFunctors (hwaking : s.waking = false) (hphase : s.phase = .handlingEvents false) :
      Move s .doPendingFunctors { s with phase := .swapping, callingPendingFunctors_ := true }
  | swap (hwaking : s.waking = false) (hphase : s.phase = .swapping) :
      Move s .swap { s with
        phase := .runningFunctors s.pendingFunctors_
        pendingFunctors_ := []
        passes := s.passes + 1 }
  | runFunctor {cb : Queued F} {rest : List (Queued F)} (hwaking : s.waking = false)
      (hphase : s.phase = .runningFunctors (cb :: rest)) :
      Move s .runFunctor { s with
        phase := .runningFunctors rest
        started := s.started ++ [(cb, s.passes)] }
  | endPendingFunctors (hwaking : s.waking = false) (hphase : s.phase = .runningFunctors []) :
      Move s .endPendingFunctors { s with phase := .condition, callingPendingFunctors_ := false }

theorem advance_move {s t : LoopThread F} {a : LoopStep F} (hwaking : s.waking = false)
    (h : s.advance a = some t) : Move s a t := by
  unfold advance at h
  split at h
  · split at h
    · next hphase =>
      cases h
      exact .enterLoop hwaking hphase
    · cases h
  · split at h
    · next hphase =>
      cases h
      exact .leaveLoop hwaking hphase
    · cases h
  · split at h
    · next hphase =>
      cases h
      exact .poll hwaking hphase
    · cases h
  · split at h
    · next hphase =>
      obtain ⟨-, rfl⟩ : _ ∧ { s with phase := _ } = t := by simpa using h
      exact .pollReturns hwaking hphase
    · cases h
  · split at h
    · next hphase =>
      cases h
      exact .handleRead hwaking hphase
    · cases h
  · split at h
    · next hphase =>
      cases h
      exact .doPendingFunctors hwaking hphase
    · cases h
  · split at h
    · next hphase =>
      cases h
      exact .swap hwaking hphase
    · cases h
  · split at h
    · next cb rest hphase =>
      cases h
      exact .runFunctor hwaking hphase
    · cases h
  · split at h
    · next hphase =>
      cases h
      exact .endPendingFunctors hwaking hphase
    · cases h
  · cases h

theorem step_move {s t : LoopThread F} {a : LoopStep F} (h : step s a = some t) : Move s a t := by
  cases a with
  | queueInLoop isInLoopThread cb =>
    cases isInLoopThread with
    | false =>
      cases h
      exact .queueElsewhere cb
    | true =>
      simp only [step, Option.ite_none_right_eq_some, Option.some.injEq] at h
      obtain ⟨⟨huser, -⟩, rfl⟩ := h
      cases hcalling : s.callingPendingFunctors_ with
      | true =>
        have heq : s.queueInLoop true cb = { s.push cb with waking := true } := by
          simp [queueInLoop, push, hcalling]
        rw [heq]
        exact .queueInFunctor cb huser hcalling
      | false =>
        have heq : s.queueInLoop true cb = s.push cb := by
          simp [queueInLoop, push, hcalling]
        rw [heq]
        exact .queueQuietly cb huser hcalling
  | wakeup isInLoopThread =>
    cases isInLoopThread with
    | false =>
      simp only [step, wakeup, Bool.false_eq_true, if_false, Option.ite_none_right_eq_some,
        Option.some.injEq] at h
      obtain ⟨hcalls, rfl⟩ := h
      exact .wakeupElsewhere hcalls
    | true =>
      simp only [step, wakeup, if_true, Option.ite_none_right_eq_some, Option.some.injEq] at h
      obtain ⟨hwaking, rfl⟩ := h
      exact .wakeupInLoop hwaking
  | _ =>
    simp only [step, Option.ite_none_left_eq_some] at h
    exact advance_move (by simpa using h.1) h.2

/-! ## Order -/

/-- What has been pushed is started, in the batch, or in the queue, in this order, and
what the latest batch holds was pushed before it. -/
structure Ordered (s : LoopThread F) : Prop where
  order : s.started.map Prod.fst ++ s.functors ++ s.pendingFunctors_ = s.pushed
  started : ∀ e ∈ s.started, e.1.pass < e.2
  batch : ∀ e ∈ s.functors, e.pass < s.passes
  queue : ∀ e ∈ s.pendingFunctors_, e.pass ≤ s.passes

theorem ordered_construct : Ordered (construct : LoopThread F) where
  order := rfl
  started := nofun
  batch := nofun
  queue := nofun

theorem Ordered.push {s : LoopThread F} (h : Ordered s) (cb : F) : Ordered (s.push cb) where
  order := by
    show s.started.map Prod.fst ++ s.functors ++ (s.pendingFunctors_ ++ [_]) = s.pushed ++ [_]
    rw [← h.order, List.append_assoc, List.append_assoc, List.append_assoc]
  started := h.started
  batch := h.batch
  queue := by
    intro e he
    rcases List.mem_append.mp he with he | he
    · exact h.queue e he
    · rw [List.mem_singleton.mp he]
      exact Nat.le_refl _

/-- Moves of the loop thread between batches. -/
theorem Ordered.frame {s t : LoopThread F} (h : Ordered s) (hfunctors : t.functors = s.functors)
    (hpending : t.pendingFunctors_ = s.pendingFunctors_) (hpasses : t.passes = s.passes)
    (hpushed : t.pushed = s.pushed) (hstarted : t.started = s.started) : Ordered t where
  order := by
    rw [hstarted, hfunctors, hpending, hpushed]
    exact h.order
  started := by
    rw [hstarted]
    exact h.started
  batch := by
    rw [hfunctors, hpasses]
    exact h.batch
  queue := by
    rw [hpending, hpasses]
    exact h.queue

theorem ordered_step (s : LoopThread F) (a : LoopStep F) (t : LoopThread F) (h : Ordered s)
    (hstep : step s a = some t) : Ordered t := by
  cases step_move hstep with
  | queueElsewhere cb => exact (h.push cb).frame rfl rfl rfl rfl rfl
  | queueInFunctor cb huser hcalling => exact (h.push cb).frame rfl rfl rfl rfl rfl
  | queueQuietly cb huser hcalling => exact h.push cb
  | wakeupElsewhere hcalls => exact h.frame rfl rfl rfl rfl rfl
  | wakeupInLoop hwaking => exact h.frame rfl rfl rfl rfl rfl
  | enterLoop hwaking hphase =>
    exact h.frame (by simp only [functors, hphase]) rfl rfl rfl rfl
  | leaveLoop hwaking hphase =>
    exact h.frame (by simp only [functors, hphase]) rfl rfl rfl rfl
  | poll hwaking hphase =>
    exact h.frame (by simp only [functors, hphase]) rfl rfl rfl rfl
  | pollReturns hwaking hphase =>
    exact h.frame (by simp only [functors, hphase]) rfl rfl rfl rfl
  | handleRead hwaking hphase =>
    exact h.frame (by simp only [functors, hphase]) rfl rfl rfl rfl
  | doPendingFunctors hwaking hphase =>
    exact h.frame (by simp only [functors, hphase]) rfl rfl rfl rfl
  | swap hwaking hphase =>
    have hbatch : s.functors = [] := by simp only [functors, hphase]
    have horder := h.order
    rw [hbatch, List.append_nil] at horder
    refine ⟨?_, h.started, fun e he => Nat.lt_succ_of_le (h.queue e he), nofun⟩
    show s.started.map Prod.fst ++ s.pendingFunctors_ ++ [] = s.pushed
    rw [List.append_nil, horder]
  | @runFunctor cb rest hwaking hphase =>
    have hbatch : s.functors = cb :: rest := by simp only [functors, hphase]
    have horder := h.order
    have hpass := h.batch
    rw [hbatch] at horder hpass
    refine ⟨?_, ?_, fun e he => hpass e (List.mem_cons_of_mem cb he), h.queue⟩
    · show (s.started ++ [(cb, s.passes)]).map Prod.fst ++ rest ++ s.pendingFunctors_ = s.pushed
      rw [← horder]
      simp
    · intro e he
      rcases List.mem_append.mp he with he | he
      · exact h.started e he
      · rw [List.mem_singleton.mp he]
        exact hpass cb List.mem_cons_self
  | endPendingFunctors hwaking hphase =>
    exact h.frame (by simp only [functors, hphase]) rfl rfl rfl rfl

/-- At every point the functors started, the rest of the batch and the queue are the
functors pushed, in the order of the pushes; a functor pushed when `n` batches had been
swapped out is started with a later batch than the `n`-th. -/
theorem functors_once_in_order {as : List (LoopStep F)} {s : LoopThread F}
    (h : run step construct as = some s) :
    s.started.map Prod.fst ++ s.functors ++ s.pendingFunctors_ = s.pushed ∧
      ∀ e ∈ s.started, e.1.pass < e.2 := by
  have hs := run_invariant ordered_step ordered_construct h
  exact ⟨hs.order, hs.started⟩

/-- A functor pushed by another thread, and one pushed by that functor while it runs. -/
def nestedRun : List (LoopStep ℕ) :=
  [.enterLoop, .poll, .queueInLoop false 1, .wakeup false, .pollReturns true, .handleRead,
    .doPendingFunctors, .swap, .runFunctor, .queueInLoop true 2, .wakeup true,
    .endPendingFunctors, .poll]

theorem functors_once_in_order_nestedRun :
    ∃ s, run step construct nestedRun = some s ∧
      s.started.map Prod.fst ++ s.functors ++ s.pendingFunctors_ = s.pushed ∧
        ∀ e ∈ s.started, e.1.pass < e.2 := by
  obtain ⟨s, hs, -⟩ := Option.map_eq_some_iff.mp
    (show (run step construct nestedRun).map (fun s => s.pendingFunctors_) = some [⟨2, 1⟩] by
      decide +kernel)
  exact ⟨s, hs, functors_once_in_order hs⟩

/-! ## Wakeups -/

/-- The loop thread does not call `queueInLoop` outside of `loop()`. -/
def CallsInsideLoop (s : LoopThread F) : LoopStep F → Prop
  | .queueInLoop true _ => s.phase ≠ .outside
  | _ => True

/-- `handleRead` and the swap are still to come in this turn of the loop. -/
def beforeSwap (s : LoopThread F) : Prop := s.phase = .swapping ∨ ∃ b, s.phase = .handlingEvents b

/-- Something will make the next poll return: the descriptor is raised, or a call that has
pushed is about to raise it. -/
def Signalled (s : LoopThread F) : Prop := s.wakeupFd_ ≠ 0 ∨ s.calls ≠ 0 ∨ s.waking = true

structure Awake (s : LoopThread F) : Prop where
  signalled : ¬ s.beforeSwap → s.pendingFunctors_ ≠ [] → s.Signalled
  calling : s.callingPendingFunctors_ = true ↔
    s.phase = .swapping ∨ ∃ rest, s.phase = .runningFunctors rest
  waking : s.waking = true → ∃ rest, s.phase = .runningFunctors rest

theorem awake_construct : Awake (construct : LoopThread F) where
  signalled _ h := absurd rfl h
  calling := by
    constructor
    · intro h
      cases h
    · rintro (h | ⟨rest, h⟩)
      · cases h
      · cases h
  waking := nofun

/-- A state in which the loop thread is not about to wake itself up. -/
theorem Awake.quiet {s : LoopThread F} (hwaking : s.waking = false)
    (hsignalled : ¬ s.beforeSwap → s.pendingFunctors_ ≠ [] → s.Signalled)
    (hcalling : s.callingPendingFunctors_ = true ↔
      s.phase = .swapping ∨ ∃ rest, s.phase = .runningFunctors rest) : Awake s where
  signalled := hsignalled
  calling := hcalling
  waking h := by
    rw [hwaking] at h
    cases h

theorem awake_step (s : LoopThread F) (a : LoopStep F) (t : LoopThread F) (h : Awake s)
    (hok : CallsInsideLoop s a) (hstep : step s a = some t) : Awake t := by
  cases step_move hstep with
  | queueElsewhere cb =>
    exact ⟨fun _ _ => Or.inr (Or.inl (Nat.succ_ne_zero _)), h.calling, h.waking⟩
  | queueInFunctor cb huser hcalling =>
    refine ⟨fun _ _ => Or.inr (Or.inr rfl), h.calling, fun _ => ?_⟩
    rcases h.calling.mp hcalling with hphase | hphase
    · simp only [inUserCode, hphase] at huser
      cases huser
    · exact hphase
  | queueQuietly cb huser hcalling =>
    refine ⟨fun hbefore _ => absurd ?_ hbefore, h.calling, h.waking⟩
    have hrunning (rest : List (Queued F)) : s.phase ≠ .runningFunctors rest := by
      intro hphase
      rw [h.calling.mpr (Or.inr ⟨rest, hphase⟩)] at hcalling
      cases hcalling
    cases hphase : s.phase with
    | outside => exact absurd hphase hok
    | handlingEvents b => exact Or.inr ⟨b, hphase⟩
    | swapping => exact Or.inl hphase
    | runningFunctors rest => exact absurd hphase (hrunning rest)
    | condition =>
      simp only [inUserCode, hphase] at huser
      cases huser
    | polling =>
      simp only [inUserCode, hphase] at huser
      cases huser
  | wakeupElsewhere hcalls => exact ⟨fun _ _ => Or.inl (Nat.succ_ne_zero _), h.calling, h.waking⟩
  | wakeupInLoop hwaking => exact ⟨fun _ _ => Or.inl (Nat.succ_ne_zero _), h.calling, nofun⟩
  | enterLoop hwaking hphase =>
    refine .quiet hwaking (fun _ => h.signalled ?_) ?_
    · simp [beforeSwap, hphase]
    · simpa [hphase] using h.calling
  | leaveLoop hwaking hphase =>
    refine .quiet hwaking (fun _ => h.signalled ?_) ?_
    · simp [beforeSwap, hphase]
    · simpa [hphase] using h.calling
  | poll hwaking hphase =>
    refine .quiet hwaking (fun _ => h.signalled ?_) ?_
    · simp [beforeSwap, hphase]
    · simpa [hphase] using h.calling
  | @pollReturns wakeup hwaking hphase =>
    refine .quiet hwaking (fun hbefore => absurd (Or.inr ⟨wakeup, rfl⟩) hbefore) ?_
    simpa [hphase] using h.calling
  | handleRead hwaking hphase =>
    refine .quiet hwaking (fun hbefore => absurd (Or.inr ⟨false, rfl⟩) hbefore) ?_
    simpa [hphase] using h.calling
  | doPendingFunctors hwaking hphase =>
    refine .quiet hwaking (fun hbefore => absurd (Or.inl rfl) hbefore) ?_
    exact ⟨fun _ => Or.inl rfl, fun _ => rfl⟩
  | swap hwaking hphase =>
    refine .quiet hwaking (fun _ hne => absurd rfl hne) ?_
    exact ⟨fun _ => Or.inr ⟨_, rfl⟩, fun _ => h.calling.mpr (Or.inl hphase)⟩
  | runFunctor hwaking hphase =>
    refine .quiet hwaking (fun _ => h.signalled ?_) ?_
    · simp [beforeSwap, hphase]
    · exact ⟨fun _ => Or.inr ⟨_, rfl⟩, fun _ => h.calling.mpr (Or.inr ⟨_, hphase⟩)⟩
  | endPendingFunctors hwaking hphase =>
    refine .quiet hwaking (fun _ => h.signalled ?_) ?_
    · simp [beforeSwap, hphase]
    · simp

/-- In a run in which the loop thread calls `queueInLoop` inside of `loop()` only, it is
in the poller with a functor in the queue only if the wakeup descriptor is raised or
another thread has pushed and is about to raise it. -/
theorem no_functor_behind_blocking_poll {as : List (LoopStep F)} {s : LoopThread F}
    (hok : Meets step CallsInsideLoop construct as) (h : run step construct as = some s)
    (hpoll : s.phase = .polling) (hpending : s.pendingFunctors_ ≠ []) :
    s.wakeupFd_ ≠ 0 ∨ s.calls ≠ 0 := by
  have hs := meets_invariant awake_step awake_construct hok h
  rcases hs.signalled (by simp [beforeSwap, hpoll]) hpending with hfd | hcalls | hwaking
  · exact Or.inl hfd
  · exact Or.inr hcalls
  · obtain ⟨rest, hphase⟩ := hs.waking hwaking
    rw [hpoll] at hphase
    cases hphase

instance [DecidableEq F] (s : LoopThread F) (a : LoopStep F) : Decidable (CallsInsideLoop s a) :=
  match a with
  | .queueInLoop true _ => inferInstanceAs (Decidable (s.phase ≠ .outside))
  | .queueInLoop false _ | .wakeup _ | .enterLoop | .leaveLoop | .poll | .pollReturns _
  | .handleRead | .doPendingFunctors | .swap | .runFunctor | .endPendingFunctors => isTrue trivial

/-- The functor pushed by a functor has raised the descriptor for the next poll. -/
theorem no_functor_behind_blocking_poll_nestedRun :
    ∃ s, run step construct nestedRun = some s ∧ s.pendingFunctors_ = [⟨2, 1⟩] ∧
      (s.wakeupFd_ ≠ 0 ∨ s.calls ≠ 0) := by
  obtain ⟨s, hs, hpolling⟩ := Option.map_eq_some_iff.mp
    (show (run step construct nestedRun).map (fun s => (s.pendingFunctors_, s.phase)) =
      some ([⟨2, 1⟩], .polling) by decide +kernel)
  obtain ⟨hpending, hphase⟩ := Prod.mk.inj hpolling
  refine ⟨s, hs, hpending, no_functor_behind_blocking_poll (by decide +kernel) hs hphase ?_⟩
  rw [hpending]
  nofun

/-- A functor queued by the loop thread before it enters `loop()`. -/
theorem functor_behind_blocking_poll :
    ¬ ∀ (as : List (LoopStep ℕ)) (s : LoopThread ℕ), run step construct as = some s →
      s.phase = .polling → s.pendingFunctors_ ≠ [] → s.wakeupFd_ ≠ 0 ∨ s.calls ≠ 0 := by
  intro h
  have hrun : run step construct [.queueInLoop true 0, .enterLoop, .poll] =
      some (⟨.polling, false, [⟨0, 0⟩], 0, 0, false, 0, [⟨0, 0⟩], []⟩ : LoopThread ℕ) := rfl
  rcases h _ _ hrun rfl nofun with hfd | hcalls
  · exact hfd rfl
  · exact hcalls rfl

end ReactorNet.LoopThread
