import ReactorNet.GuardedRuns
import Mathlib.Data.Nat.Notation
import Mathlib.Tactic.ByContra

/-!
# Stopping a loop thread

`threadFunc` constructs the loop, publishes it and enters `loop()`, which stores `false`
to `quit_` before it evaluates its condition. The owner waits in `startLoop` for the loop
to be published; its destructor calls `quit()` and joins the thread. A request to quit
survives exactly when it comes after that first store.
-/
namespace ReactorNet

/-- The thread of `threadFunc`: not started, before the publication, before `loop()`, in
`loop()` before the store, at the condition, in the poller, handling events and functors,
or at its end. -/
inductive ThreadPhase where
  | notStarted
  | constructing
  | published
  | entering
  | condition
  | polling
  | handling (wakeup : Bool)
  | finished
deriving DecidableEq

/-- The owner: before and in `startLoop`, after it has returned, and in the destructor
after the store to `exiting_`, after the one to `quit_`, in `join` and after it. -/
inductive OwnerPhase where
  | constructed
  | starting
  | started
  | exiting
  | quitting
  | joining
  | joined
deriving DecidableEq

/-- `loop_` tells whether the pointer has been published. -/
structure EventLoopThread where
  thread : ThreadPhase
  owner : OwnerPhase
  loop_ : Bool
  exiting_ : Bool
  looping_ : Bool
  quit_ : Bool
  wakeupFd_ : ℕ

inductive ThreadStep where
  | startLoop
  | publish
  | returnLoop
  | enterLoop
  | resetQuit
  | evaluate
  | pollReturns (wakeup : Bool)
  | endTurn
  | beginDestroy
  | quit
  | wakeup
  | join
deriving DecidableEq

namespace EventLoopThread

open GuardedRuns

def construct : EventLoopThread := ⟨.notStarted, .constructed, false, false, false, false, 0⟩

/-- The loop thread: `threadFunc` and `loop()`. The poller returns with or without the
wakeup channel, and at the latest when it times out. -/
def advance (s : EventLoopThread) : ThreadStep → Option EventLoopThread
  | .publish =>
    match s.thread with
    | .constructing =>
      some { s with thread := .published, looping_ := false, quit_ := false, loop_ := true }
    | _ => none
  | .enterLoop =>
    match s.thread with
    | .published => some { s with thread := .entering, looping_ := true }
    | _ => none
  | .resetQuit =>
    match s.thread with
    | .entering => some { s with thread := .condition, quit_ := false }
    | _ => none
  | .evaluate =>
    match s.thread with
    | .condition =>
      if s.quit_ then some { s with thread := .finished, looping_ := false }
      else some { s with thread := .polling }
    | _ => none
  | .pollReturns wakeup =>
    match s.thread with
    | .polling =>
      if wakeup ∧ s.wakeupFd_ = 0 then none else some { s with thread := .handling wakeup }
    | _ => none
  | .endTurn =>
    match s.thread with
    | .handling wakeup =>
      some { s with thread := .condition, wakeupFd_ := if wakeup then 0 else s.wakeupFd_ }
    | _ => none
  | _ => none

/-- The owner: `startLoop` up to its wait, its return, and the destructor. -/
def own (s : EventLoopThread) : ThreadStep → Option EventLoopThread
  | .startLoop =>
    match s.owner with
    | .constructed => some { s with owner := .starting, thread := .constructing }
    | _ => none
  | .returnLoop =>
    match s.owner with
    | .starting => if s.loop_ then some { s with owner := .started } else none
    | _ => none
  | .beginDestroy =>
    match s.owner with
    | .started => some { s with owner := .exiting, exiting_ := true }
    | _ => none
  | .quit =>
    match s.owner with
    | .exiting => some { s with owner := .quitting, quit_ := true }
    | _ => none
  | .wakeup =>
    match s.owner with
    | .quitting => some { s with owner := .joining, wakeupFd_ := s.wakeupFd_ + 1 }
    | _ => none
  | .join =>
    match s.owner with
    | .joining => if s.thread = .finished then some { s with owner := .joined } else none
    | _ => none
  | _ => none

def step (s : EventLoopThread) (a : ThreadStep) : Option EventLoopThread :=
  match a with
  | .startLoop | .returnLoop | .beginDestroy | .quit | .wakeup | .join => s.own a
  | _ => s.advance a

/-- The store to `quit_` in `quit()` has been executed. -/
def QuitCalled (s : EventLoopThread) : Prop :=
  s.owner = .quitting ∨ s.owner = .joining ∨ s.owner = .joined

/-- The loop thread has passed the publication of the loop. -/
def Published (s : EventLoopThread) : Prop := s.thread ≠ .notStarted ∧ s.thread ≠ .constructing

/-- The loop thread has executed the store to `quit_` at the beginning of `loop()`. -/
def AfterReset (s : EventLoopThread) : Prop :=
  s.Published ∧ s.thread ≠ .published ∧ s.thread ≠ .entering

/-- After `quit()` a thread that has yet to leave the loop sees the request. -/
def QuitKept (s : EventLoopThread) : Prop :=
  s.QuitCalled → s.thread ≠ .finished → s.quit_ = true

/-- `quit()` comes after the store at the beginning of `loop()`. -/
def QuitAfterReset (s : EventLoopThread) (a : ThreadStep) : Prop := a = .quit → s.AfterReset

instance (s : EventLoopThread) : Decidable s.AfterReset :=
  inferInstanceAs (Decidable ((_ ∧ _) ∧ _ ∧ _))

instance (s : EventLoopThread) (a : ThreadStep) : Decidable (QuitAfterReset s a) :=
  inferInstanceAs (Decidable (_ → _))

/-! ## Steps -/

/-- The moves of the two threads, one case for every branch. -/
inductive Move (s : EventLoopThread) : ThreadStep → EventLoopThread → Prop
  | startLoop (howner : s.owner = .constructed) :
      Move s .startLoop { s with owner := .starting, thread := .constructing }
  | publish (hthread : s.thread = .constructing) :
      Move s .publish
        { s with thread := .published, looping_ := false, quit_ := false, loop_ := true }
  | returnLoop (howner : s.owner = .starting) (hloop : s.loop_ = true) :
      Move s .returnLoop { s with owner := .started }
  | enterLoop (hthread : s.thread = .published) :
      Move s .enterLoop { s with thread := .entering, looping_ := true }
  | resetQuit (hthread : s.thread = .entering) :
      Move s .resetQuit { s with thread := .condition, quit_ := false }
  | leaveLoop (hthread : s.thread = .condition) (hquit : s.quit_ = true) :
      Move s .evaluate { s with thread := .finished, looping_ := false }
  | poll (hthread : s.thread = .condition) (hquit : s.quit_ = false) :
      Move s .evaluate { s with thread := .polling }
  | pollReturns {wakeup : Bool} (hthread : s.thread = .polling) :
      Move s (.pollReturns wakeup) { s with thread := .handling wakeup }
  | endTurn {wakeup : Bool} (fd : ℕ) (hthread : s.thread = .handling wakeup) :
      Move s .endTurn { s with thread := .condition, wakeupFd_ := fd }
  | beginDestroy (howner : s.owner = .started) :
      Move s .beginDestroy { s with owner := .exiting, exiting_ := true }
  | quit (howner : s.owner = .exiting) :
      Move s .quit { s with owner := .quitting, quit_ := true }
  | wakeup (howner : s.owner = .quitting) :
      Move s .wakeup { s with owner := .joining, wakeupFd_ := s.wakeupFd_ + 1 }
  | join (howner : s.owner = .joining) (hthread : s.thread = .finished) :
      Move s .join { s with owner := .joined }

theorem advance_move {s t : EventLoopThread} {a : ThreadStep} (h : s.advance a = some t) :
    Move s a t := by
  unfold advance at h
  split at h
  · split at h
    · next hthread =>
      cases h
      exact .publish hthread
    · cases h
  · split at h
    · next hthread =>
      cases h
      exact .enterLoop hthread
    · cases h
  · split at h
    · next hthread =>
      cases h
      exact .resetQuit hthread
    · cases h
  · split at h
    · next hthread =>
      split at h
      · next hquit =>
        cases h
        exact .leaveLoop hthread hquit
      · next hquit =>
        cases h
        exact .poll hthread (Bool.eq_false_iff.mpr hquit)
    · cases h
  · split at h
    · next hthread =>
      obtain ⟨-, rfl⟩ : _ ∧ { s with thread := _ } = t := by simpa using h
      exact .pollReturns hthread
    · cases h
  · split at h
    · next hthread =>
      cases h
      exact .endTurn _ hthread
    · cases h
  · cases h

theorem own_move {s t : EventLoopThread} {a : ThreadStep} (h : s.own a = some t) : Move s a t := by
  unfold own at h
  split at h
  · split at h
    · next howner =>
      cases h
      exact .startLoop howner
    · cases h
  · split at h
    · next howner =>
      obtain ⟨hloop, ⟨⟩⟩ := Option.ite_none_right_eq_some.mp h
      exact .returnLoop howner hloop
    · cases h
  · split at h
    · next howner =>
      cases h
      exact .beginDestroy howner
    · cases h
  · split at h
    · next howner =>
      cases h
      exact .quit howner
    · cases h
  · split at h
    · next howner =>
      cases h
      exact .wakeup howner
    · cases h
  · split at h
    · next howner =>
      obtain ⟨hthread, ⟨⟩⟩ := Option.ite_none_right_eq_some.mp h
      exact .join howner hthread
    · cases h
  · cases h

theorem step_move {s t : EventLoopThread} {a : ThreadStep} (h : step s a = some t) :
    Move s a t := by
  unfold step at h
  split at h
  all_goals first
    | exact own_move h
    | exact advance_move h

/-! ## Before `quit()` -/

/-- The owner returns from `startLoop` with the pointer, which it finds only after its
publication. -/
structure Handed (s : EventLoopThread) : Prop where
  waiting : s.owner = .constructed → s.thread = .notStarted
  owner : s.owner = .constructed ∨ s.owner = .starting ∨ s.loop_ = true
  published : s.loop_ = true → s.Published

theorem handed_construct : Handed construct := ⟨fun _ => rfl, Or.inl rfl, nofun⟩

/-- A move of the loop thread past the publication. -/
theorem Handed.advance {s t : EventLoopThread} (h : Handed s) (howner : t.owner = s.owner)
    (hloop : t.loop_ = s.loop_) (hthread : s.thread ≠ .notStarted) (hpublished : t.Published) :
    Handed t where
  waiting hconstructed := absurd (h.waiting (howner ▸ hconstructed)) hthread
  owner := by
    rw [howner, hloop]
    exact h.owner
  published _ := hpublished

/-- A move of the owner that has the pointer. -/
theorem Handed.own {s t : EventLoopThread} (h : Handed s) (hthread : t.thread = s.thread)
    (hloop : t.loop_ = s.loop_) (hs : s.loop_ = true) (ht : t.owner ≠ .constructed) : Handed t where
  waiting hconstructed := absurd hconstructed ht
  owner := Or.inr (Or.inr (hloop.trans hs))
  published _ := by
    unfold Published
    rw [hthread]
    exact h.published hs

theorem Handed.loop {s : EventLoopThread} (h : Handed s) (hconstructed : s.owner ≠ .constructed)
    (hstarting : s.owner ≠ .starting) : s.loop_ = true :=
  (h.owner.resolve_left hconstructed).resolve_left hstarting

theorem handed_step (s : EventLoopThread) (a : ThreadStep) (t : EventLoopThread) (h : Handed s)
    (hstep : step s a = some t) : Handed t := by
  cases step_move hstep with
  | startLoop howner =>
    refine ⟨nofun, Or.inr (Or.inl rfl), fun hloop => ?_⟩
    exact absurd (h.waiting howner) (h.published hloop).1
  | publish hthread =>
    refine ⟨fun hconstructed => ?_, Or.inr (Or.inr rfl), fun _ => ⟨nofun, nofun⟩⟩
    have hwaiting := h.waiting hconstructed
    rw [hthread] at hwaiting
    cases hwaiting
  | returnLoop howner hloop => exact h.own rfl rfl hloop nofun
  | enterLoop hthread => exact h.advance rfl rfl (by simp [hthread]) ⟨nofun, nofun⟩
  | resetQuit hthread => exact h.advance rfl rfl (by simp [hthread]) ⟨nofun, nofun⟩
  | leaveLoop hthread hquit => exact h.advance rfl rfl (by simp [hthread]) ⟨nofun, nofun⟩
  | poll hthread hquit => exact h.advance rfl rfl (by simp [hthread]) ⟨nofun, nofun⟩
  | pollReturns hthread => exact h.advance rfl rfl (by simp [hthread]) ⟨nofun, nofun⟩
  | endTurn fd hthread => exact h.advance rfl rfl (by simp [hthread]) ⟨nofun, nofun⟩
  | beginDestroy howner =>
    exact h.own rfl rfl (h.loop (by simp [howner]) (by simp [howner])) nofun
  | quit howner => exact h.own rfl rfl (h.loop (by simp [howner]) (by simp [howner])) nofun
  | wakeup howner => exact h.own rfl rfl (h.loop (by simp [howner]) (by simp [howner])) nofun
  | join howner hthread =>
    exact h.own rfl rfl (h.loop (by simp [howner]) (by simp [howner])) nofun

/-! ## After `quit()` -/

/-- The request is seen by the loop thread, which has not left the loop or has seen it. -/
structure Kept (s : EventLoopThread) : Prop where
  called : s.QuitCalled
  reset : s.AfterReset
  quit : s.thread ≠ .finished → s.quit_ = true

/-- The request is overwritten, or the store that overwrites it is still to come. -/
structure Lost (s : EventLoopThread) : Prop where
  waiting : s.owner = .quitting ∨ s.owner = .joining
  published : s.Published
  running : s.thread ≠ .finished
  quit : s.AfterReset → s.quit_ = false

theorem kept_step (s : EventLoopThread) (a : ThreadStep) (t : EventLoopThread) (h : Kept s)
    (hstep : step s a = some t) : Kept t := by
  obtain ⟨hcalled, hreset, hquit⟩ := h
  cases step_move hstep with
  | startLoop howner => simp [QuitCalled, howner] at hcalled
  | publish hthread => exact absurd hthread hreset.1.2
  | returnLoop howner hloop => simp [QuitCalled, howner] at hcalled
  | enterLoop hthread => exact absurd hthread hreset.2.1
  | resetQuit hthread => exact absurd hthread hreset.2.2
  | leaveLoop hthread hquit_ => exact ⟨hcalled, ⟨⟨nofun, nofun⟩, nofun, nofun⟩, fun h => absurd rfl h⟩
  | poll hthread hquit_ =>
    rw [hquit (by simp [hthread])] at hquit_
    cases hquit_
  | pollReturns hthread =>
    exact ⟨hcalled, ⟨⟨nofun, nofun⟩, nofun, nofun⟩, fun _ => hquit (by simp [hthread])⟩
  | endTurn fd hthread =>
    exact ⟨hcalled, ⟨⟨nofun, nofun⟩, nofun, nofun⟩, fun _ => hquit (by simp [hthread])⟩
  | beginDestroy howner => simp [QuitCalled, howner] at hcalled
  | quit howner => simp [QuitCalled, howner] at hcalled
  | wakeup howner => exact ⟨Or.inr (Or.inl rfl), hreset, hquit⟩
  | join howner hthread => exact ⟨Or.inr (Or.inr rfl), hreset, hquit⟩

theorem lost_step (s : EventLoopThread) (a : ThreadStep) (t : EventLoopThread) (h : Lost s)
    (hstep : step s a = some t) : Lost t := by
  obtain ⟨hwaiting, hpublished, hrunning, hquit⟩ := h
  cases step_move hstep with
  | startLoop howner => simp [howner] at hwaiting
  | publish hthread => exact absurd hthread hpublished.2
  | returnLoop howner hloop => simp [howner] at hwaiting
  | enterLoop hthread =>
    exact ⟨hwaiting, ⟨nofun, nofun⟩, nofun, fun hreset => absurd rfl hreset.2.2⟩
  | resetQuit hthread => exact ⟨hwaiting, ⟨nofun, nofun⟩, nofun, fun _ => rfl⟩
  | leaveLoop hthread hquit_ =>
    rw [hquit (by simp [AfterReset, Published, hthread])] at hquit_
    cases hquit_
  | poll hthread hquit_ => exact ⟨hwaiting, ⟨nofun, nofun⟩, nofun, fun _ => hquit_⟩
  | pollReturns hthread =>
    exact ⟨hwaiting, ⟨nofun, nofun⟩, nofun, fun _ => hquit (by simp [AfterReset, Published, hthread])⟩
  | endTurn fd hthread =>
    exact ⟨hwaiting, ⟨nofun, nofun⟩, nofun, fun _ => hquit (by simp [AfterReset, Published, hthread])⟩
  | beginDestroy howner => simp [howner] at hwaiting
  | quit howner => simp [howner] at hwaiting
  | wakeup howner => exact ⟨Or.inr rfl, hpublished, hrunning, hquit⟩
  | join howner hthread => exact absurd hthread hrunning

theorem Kept.quitKept {s : EventLoopThread} (h : Kept s) : QuitKept s := fun _ => h.quit

theorem quit_kept {s t : EventLoopThread} (hreset : s.AfterReset) (hstep : step s .quit = some t) :
    Kept t := by
  cases step_move hstep with
  | quit howner => exact ⟨Or.inl rfl, hreset, fun _ => rfl⟩

theorem quit_lost {s t : EventLoopThread} (h : Handed s) (hreset : ¬ s.AfterReset)
    (hstep : step s .quit = some t) : Lost t := by
  cases step_move hstep with
  | quit howner =>
    have hpublished := h.published (h.loop (by simp [howner]) (by simp [howner]))
    refine ⟨Or.inl rfl, hpublished, ?_, fun hreset' => absurd hreset' hreset⟩
    intro hfinished
    replace hfinished : s.thread = .finished := hfinished
    exact hreset ⟨hpublished, by simp [hfinished], by simp [hfinished]⟩

theorem called_step {s t : EventLoopThread} {a : ThreadStep} (hn : ¬ s.QuitCalled)
    (hstep : step s a = some t) (hcalled : t.QuitCalled) : a = .quit := by
  cases step_move hstep with
  | quit howner => rfl
  | startLoop howner => simp [QuitCalled] at hcalled
  | returnLoop howner hloop => simp [QuitCalled] at hcalled
  | beginDestroy howner => simp [QuitCalled] at hcalled
  | wakeup howner => exact absurd (Or.inl howner) hn
  | join howner hthread => exact absurd (Or.inr (Or.inl howner)) hn
  | _ => exact absurd hcalled hn

theorem kept_of_meets {s u : EventLoopThread} {as : List ThreadStep}
    (hn : ¬ s.QuitCalled) (hm : Meets step QuitAfterReset s as) (hr : run step s as = some u) :
    u.QuitCalled → Kept u := by
  refine meets_invariant (P := fun s => s.QuitCalled → Kept s) ?_ (fun h => absurd h hn) hm hr
  intro s a t h hok hstep hcalled
  by_cases hs : s.QuitCalled
  · exact kept_step s a t (h hs) hstep
  · have ha := called_step hs hstep hcalled
    subst ha
    exact quit_kept (hok rfl) hstep

theorem meets_of_not_lost {s u : EventLoopThread} {as : List ThreadStep} (h : Handed s)
    (hr : run step s as = some u) (hu : ¬ Lost u) : Meets step QuitAfterReset s as := by
  induction as generalizing s with
  | nil => trivial
  | cons a as ih =>
    obtain ⟨t, hstep, hrest⟩ := run_cons_eq_some.mp hr
    refine ⟨?_, fun t' ht' => ?_⟩
    · rintro rfl
      by_contra hreset
      exact hu (run_invariant lost_step (quit_lost h hreset hstep) hrest)
    · cases hstep.symm.trans ht'
      exact ih (handed_step s a t h hstep) hrest

/-! ## The join -/

/-- The loop thread reaches the end of the loop at its next test of the condition. -/
theorem Kept.finishes {s : EventLoopThread} (h : Kept s) :
    ∃ bs u, run step s bs = some u ∧ u.thread = .finished ∧ u.owner = s.owner := by
  obtain ⟨-, hreset, hquit⟩ := h
  cases hthread : s.thread with
  | notStarted => exact absurd hthread hreset.1.1
  | constructing => exact absurd hthread hreset.1.2
  | published => exact absurd hthread hreset.2.1
  | entering => exact absurd hthread hreset.2.2
  | condition =>
    refine ⟨[.evaluate], { s with thread := .finished, looping_ := false }, ?_, rfl, rfl⟩
    simp [step, advance, hthread, hquit]
  | polling =>
    refine ⟨[.pollReturns false, .endTurn, .evaluate],
      { s with thread := .finished, looping_ := false }, ?_, rfl, rfl⟩
    simp [step, advance, hthread, hquit]
  | handling wakeup =>
    refine ⟨[.endTurn, .evaluate], { s with
      thread := .finished, looping_ := false, wakeupFd_ := if wakeup then 0 else s.wakeupFd_ },
      ?_, rfl, rfl⟩
    simp [step, advance, hthread, hquit]
  | finished => exact ⟨[], s, rfl, hthread, rfl⟩

theorem Kept.joins {s : EventLoopThread} (h : Kept s) :
    ∃ bs u, run step s bs = some u ∧ u.owner = .joined := by
  obtain ⟨bs, t, hr, hthread, howner⟩ := h.finishes
  have hcalled := (run_invariant kept_step h hr).called
  rcases hcalled with hquitting | hjoining | hjoined
  · refine ⟨bs ++ [.wakeup, .join],
      { t with owner := .joined, wakeupFd_ := t.wakeupFd_ + 1 }, ?_, rfl⟩
    simp [run_append, hr, step, own, hquitting, hthread]
  · refine ⟨bs ++ [.join], { t with owner := .joined }, ?_, rfl⟩
    simp [run_append, hr, step, own, hjoining, hthread]
  · exact ⟨bs, t, hr, hjoined⟩

/-- The loop thread reaches the store at the beginning of the loop. -/
theorem Lost.resets {s : EventLoopThread} (h : Lost s) :
    ∃ bs u, run step s bs = some u ∧ u.AfterReset := by
  cases hthread : s.thread with
  | notStarted => exact absurd hthread h.published.1
  | constructing => exact absurd hthread h.published.2
  | published =>
    refine ⟨[.enterLoop, .resetQuit],
      { s with thread := .condition, looping_ := true, quit_ := false }, ?_, ?_⟩
    · simp [step, advance, hthread]
    · simp [AfterReset, Published]
  | entering =>
    refine ⟨[.resetQuit], { s with thread := .condition, quit_ := false }, ?_, ?_⟩
    · simp [step, advance, hthread]
    · simp [AfterReset, Published]
  | _ => exact ⟨[], s, rfl, by simp [AfterReset, Published, hthread]⟩

theorem Lost.overwritten {s : EventLoopThread} (h : Lost s) :
    ∃ bs u, run step s bs = some u ∧ ¬ QuitKept u := by
  obtain ⟨bs, u, hr, hreset⟩ := h.resets
  have hlost := run_invariant lost_step h hr
  refine ⟨bs, u, hr, fun hkept => ?_⟩
  have hquit := hkept (hlost.waiting.imp_right Or.inl) hlost.running
  rw [hlost.quit hreset] at hquit
  cases hquit

theorem Lost.not_joined {s u : EventLoopThread} {bs : List ThreadStep} (h : Lost s)
    (hr : run step s bs = some u) : u.owner ≠ .joined := by
  intro hjoined
  have hwaiting := (run_invariant lost_step h hr).waiting
  simp [hjoined] at hwaiting

/-- A request to quit reaches the loop, in every order of the two threads' later steps,
exactly when it came after the store at the beginning of `loop()`, and exactly then the
join can complete. -/
theorem quit_kept_iff {as : List ThreadStep} {s : EventLoopThread}
    (hr : run step construct as = some s) :
    (Meets step QuitAfterReset construct as → s.QuitKept) ∧
      (s.QuitCalled →
        ((∀ bs u, run step s bs = some u → u.QuitKept) ↔
          Meets step QuitAfterReset construct as) ∧
        ((∃ bs u, run step s bs = some u ∧ u.owner = .joined) ↔
          Meets step QuitAfterReset construct as)) := by
  have hn : ¬ construct.QuitCalled := by simp [QuitCalled, construct]
  refine ⟨fun hm hcalled => (kept_of_meets hn hm hr hcalled).quit, fun hcalled => ⟨⟨?_, ?_⟩, ?_, ?_⟩⟩
  · intro hkept
    apply meets_of_not_lost handed_construct hr
    intro hlost
    obtain ⟨bs, u, hu, hnot⟩ := hlost.overwritten
    exact hnot (hkept bs u hu)
  · intro hm bs u hu
    exact (run_invariant kept_step (kept_of_meets hn hm hr hcalled) hu).quitKept
  · rintro ⟨bs, u, hu, hjoined⟩
    exact meets_of_not_lost handed_construct hr fun hlost => hlost.not_joined hu hjoined
  · intro hm
    exact (kept_of_meets hn hm hr hcalled).joins

/-- The owner stops a loop that is waiting in the poller. -/
def stopPolling : List ThreadStep :=
  [.startLoop, .publish, .returnLoop, .enterLoop, .resetQuit, .evaluate, .beginDestroy, .quit,
    .wakeup]

theorem quit_kept_iff_stopPolling : ∃ s, run step construct stopPolling = some s ∧
    s.QuitKept ∧ ∃ bs u, run step s bs = some u ∧ u.owner = .joined := by
  obtain ⟨s, hs, howner⟩ : ∃ s, run step construct stopPolling = some s ∧ s.owner = .joining :=
    Option.map_eq_some_iff.mp (by decide +kernel)
  have hm : Meets step QuitAfterReset construct stopPolling := by decide +kernel
  obtain ⟨hkept, hjoin⟩ := quit_kept_iff hs
  exact ⟨s, hs, hkept hm, (hjoin (Or.inr (Or.inl howner))).2.mpr hm⟩

/-- The owner is destroyed before the thread has entered `loop()`. -/
def stopEarly : List ThreadStep :=
  [.startLoop, .publish, .returnLoop, .beginDestroy, .quit, .wakeup, .enterLoop, .resetQuit,
    .evaluate]

/-- The request is overwritten, and no later step lets the join complete. -/
theorem quit_overwritten : ∃ s, run step construct stopEarly = some s ∧ ¬ s.QuitKept ∧
    ∀ bs u, run step s bs = some u → u.owner ≠ .joined := by
  obtain ⟨s, hs, he⟩ : ∃ s, run step construct stopEarly = some s ∧
      (s.owner, s.thread, s.quit_) = (.joining, .polling, false) :=
    Option.map_eq_some_iff.mp (by decide +kernel)
  simp only [Prod.mk.injEq] at he
  obtain ⟨howner, hthread, hquit⟩ := he
  have hlost : Lost s := by
    refine ⟨Or.inr howner, ?_, ?_, fun _ => hquit⟩
    · simp [Published, hthread]
    · simp [hthread]
  refine ⟨s, hs, fun hkept => ?_, fun bs u hu => hlost.not_joined hu⟩
  have hquit' := hkept (Or.inr (Or.inl howner)) hlost.running
  rw [hquit] at hquit'
  cases hquit'

end EventLoopThread

end ReactorNet
