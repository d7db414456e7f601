import ReactorNet.TimedLoop
import ReactorNet.TimerLoopInvariant
import Mathlib.Order.MinMax

/-!
# No timer without an alarm

The descriptor is armed when an insertion changes the earliest entry and at the end of a
round that leaves a valid expiration in front. Within a round only the expirations that
would not be valid need an alarm, and those can only have been added by its callbacks.
-/
namespace ReactorNet

open TimerQueue GuardedRuns

/-! ## Arming -/

/-- A descriptor that expires at most the minimal delay after it was armed, or no later
than `when`. -/
def Covers (timerfd_ armedAt : Option Timestamp) (when : Timestamp) : Prop :=
  ∃ deadline armed, timerfd_ = some deadline ∧ armedAt = some armed ∧
    deadline ≤ max when (armed + 100)

theorem Covers.mono {fd armedAt : Option Timestamp} {when when' : Timestamp}
    (h : Covers fd armedAt when) (hle : when ≤ when') : Covers fd armedAt when' := by
  obtain ⟨deadline, armed, hfd, harmed, hdeadline⟩ := h
  exact ⟨deadline, armed, hfd, harmed, le_trans hdeadline (max_le_max_right _ hle)⟩

theorem covers_resetTimerfd {expiration when clock : Timestamp} (h : expiration ≤ when) :
    Covers (some (clock + howMuchTimeFromNow expiration clock)) (some clock) when := by
  refine ⟨_, _, rfl, rfl, ?_⟩
  unfold howMuchTimeFromNow
  split
  · exact le_max_right ..
  · rw [Int.add_comm, Int.sub_add_cancel]
    exact le_trans h (le_max_left ..)

namespace TimerQueue

/-- The expirations of the entries are in the order of the set. -/
theorem expiration_le {e e' : Entry} (h : e ≤ e') : (ofLex e).1 ≤ (ofLex e').1 := by
  rcases Prod.Lex.le_iff.mp h with hlt | ⟨heq, -⟩
  · exact le_of_lt hlt
  · exact le_of_eq heq

variable {q : TimerQueue} {a : ℕ} {t : Timer} {outside : List ℕ}

/-- Either the new Timer is the earliest and armed for, or an entry in front of it was. -/
theorem Consistent.addTimerInLoop_alarm (h : Consistent q (a :: outside)) (ht : q.heap a = some t)
    (clock : Timestamp) :
    ∃ fd, q.addTimerInLoop a clock = .ok { q.inserted a t with timerfd_ := fd } ∧
      ((q.earliestChanged a = true ∧
          fd = some (clock + howMuchTimeFromNow t.expiration_ clock) ∧
          ∀ e ∈ q.timers_, t.expiration_ ≤ (ofLex e).1) ∨
        (q.earliestChanged a = false ∧ fd = q.timerfd_ ∧
          ∃ e ∈ q.timers_, (ofLex e).1 ≤ t.expiration_)) := by
  obtain ⟨earliestChanged, hinsert⟩ := h.insert_eq ht
  obtain ⟨hnew, hnew'⟩ := h.fresh ht
  have hsize := (h.inserted ht).size_eq
  have hflag : q.earliestChanged a = earliestChanged := by rw [TimerQueue.earliestChanged, hinsert]
  have hderef : (q.inserted a t).deref a = .ok t := by simp [TimerQueue.inserted, deref, ht]
  have hfirst : earliestChanged = q.timers_.first?.all fun it => t.expiration_ < (ofLex it).1 := by
    simp only [TimerQueue.inserted] at hsize
    simp [TimerQueue.insert, deref, ht, h.size_eq, hsize, bind, Except.bind,
      OrderedSet.insert_isNew hnew, OrderedSet.insert_isNew hnew', pure, Except.pure] at hinsert
    rw [← hinsert.2]
    cases q.timers_.first? with
    | none => rfl
    | some it => rfl
  cases earliestChanged with
  | true =>
    refine ⟨_, ?_, Or.inl ⟨hflag, rfl, fun e he => ?_⟩⟩
    · rw [addTimerInLoop, hinsert]
      simp [bind, Except.bind, hderef, resetTimerfd, pure, Except.pure]
    · cases hit : q.timers_.first? with
      | none => exact absurd he (OrderedSet.notMem_of_first? hit)
      | some it =>
        rw [hit] at hfirst
        have hlt : t.expiration_ < (ofLex it).1 := of_decide_eq_true hfirst.symm
        exact le_trans (le_of_lt hlt) (expiration_le (OrderedSet.le_of_first? hit he))
  | false =>
    refine ⟨q.timerfd_, ?_, Or.inr ⟨hflag, rfl, ?_⟩⟩
    · rw [addTimerInLoop, hinsert]
      rfl
    · cases hit : q.timers_.first? with
      | none =>
        rw [hit] at hfirst
        cases hfirst
      | some it =>
        rw [hit] at hfirst
        exact ⟨it, OrderedSet.mem_of_first? hit, not_lt.mp (of_decide_eq_false hfirst.symm)⟩

/-- What is left alone: the descriptor, the entries but for new ones that are `new`, and
the intervals. -/
structure Frame (new : Entry → Prop) (q q' : TimerQueue) : Prop where
  timers : ∀ e ∈ q'.timers_, e ∈ q.timers_ ∨ new e
  timerfd : q'.timerfd_ = q.timerfd_
  forward : (∀ a t, q.heap a = some t → t.Forward) → ∀ a t, q'.heap a = some t → t.Forward

theorem Frame.refl (new : Entry → Prop) (q : TimerQueue) : Frame new q q :=
  ⟨fun _ => Or.inl, rfl, fun hf => hf⟩

theorem Frame.trans {new : Entry → Prop} {q q' q'' : TimerQueue} (h : Frame new q q')
    (h' : Frame new q' q'') : Frame new q q'' where
  timers e he := (h'.timers e he).elim (h.timers e) Or.inr
  timerfd := h'.timerfd.trans h.timerfd
  forward hf := h'.forward (h.forward hf)

theorem Consistent.cancelInLoop_frame (h : Consistent q outside) (id : TimerId) :
    ∃ q', q.cancelInLoop id = .ok q' ∧ Frame (fun _ => False) q q' := by
  rcases h.cancelInLoop_cases id with ⟨-, t, -, -, heq⟩ | ⟨-, -, heq⟩ | ⟨-, -, heq⟩
  · refine ⟨_, heq, fun e he => Or.inl (OrderedSet.mem_erase.mp he).1, rfl, fun hf a u hu => ?_⟩
    exact hf a u (heap_release.mp hu).2
  · exact ⟨_, heq, fun e he => Or.inl he, rfl, fun hf => hf⟩
  · exact ⟨q, heq, Frame.refl _ q⟩

/-! ## The end of a round -/

theorem restart_pos {t : Timer} {now : Timestamp} (hnow : 0 < now) (ht : t.Forward)
    (hrepeat : t.repeat_ = true) : 0 < (t.restart now).expiration_ := by
  have hmicro := ht hrepeat
  simp only [Timer.restart, hrepeat, if_true, addTime]
  exact Int.add_pos_of_pos_of_nonneg hnow hmicro

theorem Consistent.resetTimer_frame {q' : TimerQueue} {deleted : Option ℕ} {it : Entry}
    {now : Timestamp} (h : Consistent q (it.timer :: outside)) (hnow : 0 < now)
    (hf : ∀ a t, q.heap a = some t → t.Forward) (hq : q.resetTimer now it = .ok (q', deleted)) :
    Frame (fun e => 0 < (ofLex e).1) q q' := by
  obtain ⟨t, ht, ⟨hputs, hu, heq, -⟩ | ⟨-, heq, -⟩⟩ := h.resetTimer_cases it now
  · cases heq.symm.trans hq
    refine ⟨fun e he => ?_, rfl, fun _ a u hau => ?_⟩
    · rcases OrderedSet.mem_insert.mp he with rfl | he
      · exact Or.inr (restart_pos hnow (hf _ t ht) hputs.2.1)
      · exact Or.inl he
    · by_cases ha : a = it.timer
      · subst ha
        cases hu.symm.trans hau
        exact hf _ t ht
      · exact hf a u (by simpa [TimerQueue.inserted, TimerQueue.store, ha] using hau)
  · cases heq.symm.trans hq
    exact ⟨fun e he => Or.inl he, rfl, fun _ a u hau => hf a u (heap_release.mp hau).2⟩

theorem Consistent.nextExpire_eq (h : Consistent q outside) :
    ∃ when, q.nextExpire = .ok when ∧
      ∀ e ∈ q.timers_, ∃ it ∈ q.timers_, (ofLex it).1 = when ∧ when ≤ (ofLex e).1 := by
  unfold nextExpire
  cases hfirst : q.timers_.first? with
  | none => exact ⟨_, rfl, fun e he => absurd he (OrderedSet.notMem_of_first? hfirst)⟩
  | some it =>
    have hmem := OrderedSet.mem_of_first? hfirst
    obtain ⟨t, ht, hwhen, -⟩ := (h.mem_timers (ofLex it).1 it.timer).mp hmem
    refine ⟨t.expiration_, by simp [deref, ht, bind, Except.bind, pure, Except.pure], fun e he => ?_⟩
    exact ⟨it, hmem, hwhen.symm, hwhen ▸ expiration_le (OrderedSet.le_of_first? hfirst he)⟩

/-- The end of `reset` arms the descriptor or leaves an entry in front that needs an alarm
within the round. -/
theorem Consistent.endReset_alarm (h : Consistent q outside) (clock : Timestamp) :
    ∃ fd when, q.endReset clock = .ok { q with timerfd_ := fd } ∧ q.nextExpire = .ok when ∧
      ((when.valid = true ∧ ∀ e ∈ q.timers_, Covers fd (some clock) (ofLex e).1) ∨
        (when.valid = false ∧ fd = q.timerfd_ ∧
          ∀ e ∈ q.timers_, ∃ it ∈ q.timers_, (ofLex it).1 ≤ 0 ∧ (ofLex it).1 ≤ (ofLex e).1)) := by
  obtain ⟨when, hwhen, hfront⟩ := h.nextExpire_eq
  have hreset : q.endReset clock = .ok (if when.valid then q.resetTimerfd when clock else q) := by
    simp [endReset, hwhen, bind, Except.bind, pure, Except.pure]
  cases hvalid : when.valid with
  | true =>
    rw [hvalid, if_pos rfl] at hreset
    refine ⟨_, when, hreset, hwhen, Or.inl ⟨hvalid, fun e he => ?_⟩⟩
    obtain ⟨-, -, -, hle⟩ := hfront e he
    exact covers_resetTimerfd hle
  | false =>
    rw [hvalid, if_neg Bool.false_ne_true] at hreset
    refine ⟨_, when, hreset, hwhen, Or.inr ⟨hvalid, rfl, fun e he => ?_⟩⟩
    obtain ⟨it, hit, rfl, hle⟩ := hfront e he
    exact ⟨it, hit, not_lt.mp (of_decide_eq_false hvalid), hle⟩

theorem Consistent.beginRead_later (h : Consistent q outside) (now : Timestamp) :
    ∃ q', q.beginRead now = .ok (q', q.timers_.below (sentry now)) ∧ q'.heap = q.heap ∧
      ∀ e ∈ q'.timers_, now < (ofLex e).1 := by
  have hread : Consistent (q.readTimerfd now) outside := h.update _ _ _
  obtain ⟨active, heq, -, -⟩ := hread.getExpired_eq now
  refine ⟨{ q.readTimerfd now with
    timers_ := q.timers_.eraseBelow (sentry now), activeTimers_ := active
    cancelingTimers_ := OrderedSet.empty, callingExpiredTimers_ := true }, ?_, rfl, fun e he => ?_⟩
  · rw [beginRead, heq]
    rfl
  · obtain ⟨hmem, hle⟩ := OrderedSet.mem_eraseBelow.mp he
    exact h.lt_of_sentry_le hmem hle

end TimerQueue

/-! ## The loop -/

/-- Between rounds every entry has its alarm; within one the entries that would not be
valid have theirs. -/
structure Alarmed (s : TimerLoop) (armedAt : Option Timestamp) : Prop where
  forward : ∀ a t, s.queue.heap a = some t → t.Forward
  round : ∀ r ∈ s.round, 0 < r.now
  covered : ∀ e ∈ s.queue.timers_, s.round = none ∨ (ofLex e).1 ≤ 0 →
    Covers s.queue.timerfd_ armedAt (ofLex e).1

namespace Alarmed

variable {s s' : TimerLoop} {armedAt : Option Timestamp}

theorem frame (h : Alarmed s armedAt) (hframe : Frame (fun _ => False) s.queue s'.queue)
    (hround : s'.round.map Round.now = s.round.map Round.now) : Alarmed s' armedAt where
  forward := hframe.forward h.forward
  round r hr := by
    have hnow : r.now ∈ s.round.map Round.now := by
      rw [← hround]
      exact Option.mem_map_of_mem Round.now hr
    obtain ⟨r', hr', he⟩ := Option.map_eq_some_iff.mp hnow
    exact he ▸ h.round r' hr'
  covered e he hneeds := by
    rw [hframe.timerfd]
    refine h.covered e ((hframe.timers e he).resolve_right id) (hneeds.imp_left fun hnone => ?_)
    rw [hnone] at hround
    exact Option.map_eq_none_iff.mp hround.symm

theorem add {a : ℕ} {t : Timer} {outside : List ℕ} (h : Alarmed s armedAt)
    (hc : Consistent s.queue (a :: outside)) (ht : s.queue.heap a = some t) (clock : Timestamp) :
    ∃ q, s.queue.addTimerInLoop a clock = .ok q ∧
      ∀ s' : TimerLoop, s'.queue = q → s'.round = s.round →
        Alarmed s' (if s.queue.earliestChanged a then some clock else armedAt) := by
  obtain ⟨fd, heq, halarm⟩ := hc.addTimerInLoop_alarm ht clock
  refine ⟨_, heq, fun s' hq hround => ⟨?_, ?_, fun e he hneeds => ?_⟩⟩
  · rw [hq]
    exact h.forward
  · rw [hround]
    exact h.round
  · rw [hq] at he ⊢
    rw [hround] at hneeds
    have hin := OrderedSet.mem_insert.mp he
    rcases halarm with ⟨hchanged, rfl, hfirst⟩ | ⟨hchanged, rfl, it, hit, hle⟩
    · rw [hchanged, if_pos rfl]
      apply covers_resetTimerfd
      rcases hin with rfl | hin
      · exact le_refl _
      · exact hfirst e hin
    · rw [hchanged, if_neg Bool.false_ne_true]
      rcases hin with rfl | hin
      · exact (h.covered it hit (hneeds.imp_right (le_trans hle))).mono hle
      · exact h.covered e hin hneeds

theorem allocate {timer others : ℕ} {when : Timestamp} {interval : Seconds} {id : TimerId}
    (h : Alarmed s armedAt) (hforward : interval.Forward)
    (ha : s.allocate timer others when interval = some (s', id)) : Alarmed s' armedAt := by
  obtain ⟨-, -, -, -, rfl⟩ := TimerLoop.allocate_eq_some ha
  refine h.frame ⟨fun e he => Or.inl he, rfl, fun hf a t ht => ?_⟩ rfl
  by_cases hat : a = id.timer_
  · subst hat
    simp only [TimerQueue.store, Function.update_self, Option.some.injEq] at ht
    exact ht ▸ hforward
  · exact hf a t (by simpa [TimerQueue.store, hat] using ht)

theorem addTimer {timer others : ℕ} {when clock : Timestamp} {interval : Seconds} (hg : s.Good)
    (h : Alarmed s armedAt) (hforward : interval.Forward)
    (hs : s.addTimer timer others when interval clock = some s') :
    Alarmed s' (if TimedLoop.arms s (.addTimer timer others when interval clock) then some clock
      else armedAt) := by
  simp only [TimerLoop.addTimer, Option.map_eq_some_iff, Prod.exists] at hs
  obtain ⟨s₁, id, ha, rfl⟩ := hs
  obtain ⟨hc, ⟨t, ht, -⟩, -⟩ := hg.allocate ha
  obtain ⟨-, -, -, htimer, -⟩ := TimerLoop.allocate_eq_some ha
  rw [htimer] at hc ht
  obtain ⟨q, hq, halarmed⟩ := (h.allocate hforward ha).add hc ht clock
  rw [TimedLoop.arms, ha, hq]
  exact halarmed _ rfl rfl

theorem cancel (hg : s.Good) (h : Alarmed s armedAt) (id : TimerId) :
    Alarmed (s.cancel id) armedAt := by
  obtain ⟨q, hq, hframe⟩ := hg.consistent.cancelInLoop_frame id
  rw [TimerLoop.cancel, hq]
  exact h.frame hframe rfl

theorem handleRead {now clock : Timestamp} (hg : s.Good) (h : Alarmed s armedAt) (hnow : 0 < now)
    (hs : s.handleRead now = some s') :
    Alarmed { s' with queue := s'.queue.readTimerfd clock } armedAt := by
  simp only [TimerLoop.handleRead, Option.ite_none_right_eq_some, Option.some.injEq] at hs
  obtain ⟨-, rfl⟩ := hs
  obtain ⟨q', hq, hheap, hlater⟩ := hg.consistent.beginRead_later now
  rw [hq]
  refine ⟨?_, ?_, fun e he hneeds => ?_⟩
  · show ∀ a t, q'.heap a = some t → t.Forward
    rw [hheap]
    exact h.forward
  · rintro r ⟨⟩
    exact hnow
  · have hpos : 0 < (ofLex e).1 := lt_trans hnow (hlater e he)
    rcases hneeds with hnone | hpast
    · cases hnone
    · exact absurd hpast (not_le.mpr hpos)

theorem arms_endRead {clock when : Timestamp} (hs : s.endRead clock = some s')
    (hnext : s'.queue.nextExpire = .ok when) :
    TimedLoop.arms s (.endRead clock) = when.valid := by
  rw [TimedLoop.arms, hs, Option.any_some, hnext]

/-- What `reset` puts back has a valid expiration. -/
theorem resetTimer (hg : s.Good) (h : Alarmed s armedAt) (hs : s.resetTimer = some s') :
    Alarmed s' armedAt := by
  obtain ⟨now, expired, it, rest, q', deleted, hround, hc, hq, -, rfl, -⟩ :=
    TimerLoop.resetTimer_eq hg hs
  have hnow := h.round _ hround
  have hframe := hc.resetTimer_frame hnow h.forward hq
  refine ⟨hframe.forward h.forward, ?_, fun e he hneeds => ?_⟩
  · rintro r ⟨⟩
    exact hnow
  · have hpast : (ofLex e).1 ≤ 0 := hneeds.resolve_left nofun
    rw [show q'.timerfd_ = s.queue.timerfd_ from hframe.timerfd]
    exact h.covered e ((hframe.timers e he).resolve_right (not_lt.mpr hpast)) (Or.inr hpast)

theorem endRead {clock : Timestamp} (hg : s.Good) (h : Alarmed s armedAt)
    (hs : s.endRead clock = some s') :
    Alarmed s' (if TimedLoop.arms s (.endRead clock) then some clock else armedAt) := by
  obtain ⟨now, expired, fd, -, hq, rfl, -⟩ := TimerLoop.endRead_eq hg hs
  obtain ⟨fd', when, hq', hnext, halarm⟩ := hg.consistent.endReset_alarm clock
  cases hq.symm.trans hq'
  rw [arms_endRead hs hnext]
  refine ⟨h.forward, nofun, fun e he _ => ?_⟩
  rcases halarm with ⟨hvalid, hcovers⟩ | ⟨hvalid, rfl, hfront⟩
  · rw [hvalid, if_pos rfl]
    exact hcovers e he
  · rw [hvalid, if_neg Bool.false_ne_true]
    obtain ⟨it, hit, hpast, hle⟩ := hfront e he
    exact (h.covered it hit (Or.inr hpast)).mono hle

theorem runFunctor {clock : Timestamp} (hg : s.Good) (h : Alarmed s armedAt)
    (hs : s.runFunctor clock = some s') :
    Alarmed s' (if TimedLoop.arms s (.runFunctor clock) then some clock else armedAt) := by
  rcases hnext : s.loop.next with _ | ⟨id | id, l⟩ <;>
    simp only [TimerLoop.runFunctor, hnext, Option.some.injEq, reduceCtorEq] at hs
  · obtain ⟨-, hc, t, ht, -⟩ := hg.queued_timer hnext
    obtain ⟨q, hq, halarmed⟩ := h.add hc ht clock
    rw [hq] at hs
    rw [TimedLoop.arms, hnext]
    exact halarmed s' (by rw [← hs]; rfl) (by rw [← hs]; rfl)
  · obtain ⟨q, hq, hframe⟩ := hg.consistent.cancelInLoop_frame id
    rw [hq] at hs
    subst hs
    rw [TimedLoop.arms, hnext]
    exact h.frame hframe rfl

theorem step {a : TimedAction} {before : Clock} (hg : s.Good) (h : Alarmed s armedAt)
    (hreads : a.reads before = true) (hconverts : a.converts = true)
    (hs : s.step a.action = some s') :
    Alarmed (TimedLoop.readLater s' a)
      (if TimedLoop.arms s a.action then some a.clock.now else armedAt) := by
  obtain ⟨action, clock⟩ := a
  obtain ⟨-, hs⟩ := TimerLoop.step_eq_some.mp hs
  cases action with
  | addTimer timer others when interval reading =>
    obtain ⟨-, hs⟩ := Option.ite_none_right_eq_some.mp hs
    obtain rfl : reading = clock.now := of_decide_eq_true hreads
    exact h.addTimer hg (of_decide_eq_true hconverts) hs
  | cancel id =>
    obtain ⟨-, hs⟩ := Option.ite_none_right_eq_some.mp hs
    cases hs
    exact h.cancel hg id
  | construct timer others when interval =>
    simp only [TimerLoop.act, TimerLoop.construct, Option.map_eq_some_iff, Prod.exists] at hs
    obtain ⟨s₁, id, ha, rfl⟩ := hs
    exact (h.allocate (of_decide_eq_true hconverts) ha).frame (Frame.refl _ _) rfl
  | queueTimer id =>
    obtain ⟨-, -, rfl, -⟩ := TimerLoop.queueTimer_ok hg hs
    exact h.frame (Frame.refl _ _) rfl
  | returnTimer id =>
    obtain ⟨-, -, ⟨-, rfl⟩ | ⟨-, rfl⟩⟩ := TimerLoop.returnTimer_ok hg hs
    · exact h.frame (Frame.refl _ _) rfl
    · exact h.frame (Frame.refl _ _) rfl
  | queueCancel id =>
    cases hs
    exact h.frame (Frame.refl _ _) rfl
  | handleRead now =>
    obtain ⟨hbefore, -⟩ : before.now ≤ now ∧ now ≤ clock.now := of_decide_eq_true hreads
    exact h.handleRead hg (lt_of_lt_of_le (of_decide_eq_true before.valid) hbefore) hs
  | runTimer =>
    obtain ⟨now, expired, it, rest, t, hround, -, rfl, -⟩ := TimerLoop.runTimer_ok hg hs
    refine h.frame (Frame.refl _ _) ?_
    rw [hround]
    rfl
  | reset =>
    obtain ⟨now, expired, hround, rfl, -⟩ := TimerLoop.reset_ok hg hs
    refine h.frame ⟨fun _ => Or.inl, rfl, fun hf => hf⟩ ?_
    rw [hround]
    rfl
  | resetTimer => exact h.resetTimer hg hs
  | endDelete =>
    obtain ⟨now, expired, timer, rest, hround, rfl, -⟩ := TimerLoop.endDelete_ok hg hs
    refine h.frame (Frame.refl _ _) ?_
    rw [hround]
    rfl
  | endRead reading =>
    obtain rfl : reading = clock.now := of_decide_eq_true hreads
    exact h.endRead hg hs
  | loop a =>
    obtain ⟨l, -, rfl, -⟩ := TimerLoop.loopAct_ok hg hs
    exact h.frame (Frame.refl _ _) rfl
  | runFunctor reading =>
    obtain ⟨-, hs⟩ := Option.ite_none_right_eq_some.mp hs
    obtain rfl : reading = clock.now := of_decide_eq_true hreads
    exact h.runFunctor hg hs

end Alarmed

namespace TimedLoop

theorem good_readLater {s : TimerLoop} (h : s.Good) (a : TimedAction) : (readLater s a).Good := by
  unfold readLater
  split
  · exact ⟨h.consistent.update _ _ _, h.named, h.created, h.calling, h.rest_suffix⟩
  · exact h

theorem alarmed_step (s : TimedLoop) (a : TimedAction) (t : TimedLoop)
    (h : s.loop.Good ∧ Alarmed s.loop s.armedAt) (hs : step s a = some t) :
    t.loop.Good ∧ Alarmed t.loop t.armedAt := by
  simp only [step, Option.ite_none_right_eq_some, Option.map_eq_some_iff] at hs
  obtain ⟨⟨-, hreads, hconverts⟩, loop, hloop, rfl⟩ := hs
  exact ⟨good_readLater (h.1.step hloop) a, h.2.step h.1 hreads hconverts hloop⟩

theorem alarmed_start (clock : Clock) :
    (start clock).loop.Good ∧ Alarmed (start clock).loop (start clock).armedAt :=
  ⟨TimerLoop.good_start, nofun, nofun, fun _ he => absurd he OrderedSet.notMem_empty⟩

theorem fault_readLater (s : TimerLoop) (a : TimedAction) : (readLater s a).fault = s.fault := by
  unfold readLater
  split <;> rfl

/-- The last step of a run that ends in a fault. -/
theorem fault_run {clock : Clock} {as : List TimedAction} {s : TimedLoop}
    (hr : run step (start clock) as = some s) : s.loop.fault = none ∨
      ∃ id, as.getLast?.map TimedAction.action = some (.returnTimer id) ∧
        s.loop.fault = some .dangling ∧ ¬ s.loop.queue.Alive id := by
  rcases as.eq_nil_or_concat' with rfl | ⟨as, a, rfl⟩
  · cases hr
    exact Or.inl rfl
  · rw [run_append, Option.bind_eq_some_iff] at hr
    obtain ⟨t, ht, hr⟩ := hr
    obtain ⟨_, hs, hr⟩ := run_cons_eq_some.mp hr
    cases hr
    simp only [step, Option.ite_none_right_eq_some, Option.map_eq_some_iff] at hs
    obtain ⟨-, loop, hloop, rfl⟩ := hs
    obtain ⟨hnone, hloop⟩ := TimerLoop.step_eq_some.mp hloop
    rw [fault_readLater]
    have hgood := (run_invariant alarmed_step (alarmed_start clock) ht).1
    rcases (hgood.act hloop).2 with hsame | ⟨id, -, hret, hfault, hdead⟩
    · exact Or.inl (hsame.trans hnone)
    · refine Or.inr ⟨id, by simp [hret], hfault, ?_⟩
      rwa [readLater, hret]

/-- Whenever no round is being run, every entry has the descriptor armed or expired and
unread, with a deadline no later than its expiration or the minimal delay after the last
arming. No step fails, but for the return of an `addTimer` in another thread whose Timer the
loop has deleted. -/
theorem timers_have_alarm {clock : Clock} {as : List TimedAction} {s : TimedLoop}
    (hr : run step (start clock) as = some s) :
    (s.loop.fault = none ∨ ∃ id, as.getLast?.map TimedAction.action = some (.returnTimer id) ∧
        s.loop.fault = some .dangling ∧ ¬ s.loop.queue.Alive id) ∧
      (s.loop.round = none → ∀ e ∈ s.loop.queue.timers_,
        ∃ deadline armed, s.loop.queue.timerfd_ = some deadline ∧ s.armedAt = some armed ∧
          deadline ≤ max (ofLex e).1 (armed + 100)) := by
  obtain ⟨-, h⟩ := run_invariant alarmed_step (alarmed_start clock) hr
  exact ⟨fault_run hr, fun hround e he => h.covered e he (Or.inl hround)⟩

/-- A callback adds two timers that would not be valid in front of one that is due later,
and cancels the one the descriptor was armed for. -/
def pastRun : List TimedAction :=
  [⟨.addTimer 8 0 1000 ⟨false, 0⟩ 1, ⟨1, rfl⟩⟩, ⟨.addTimer 16 0 5000 ⟨false, 0⟩ 2, ⟨2, rfl⟩⟩,
    ⟨.loop .poll, ⟨1000, rfl⟩⟩, ⟨.handleRead 1000, ⟨1001, rfl⟩⟩, ⟨.runTimer, ⟨1002, rfl⟩⟩,
    ⟨.addTimer 24 0 (-7) ⟨false, 0⟩ 1003, ⟨1003, rfl⟩⟩,
    ⟨.addTimer 32 0 0 ⟨false, 0⟩ 1004, ⟨1004, rfl⟩⟩, ⟨.cancel ⟨24, 3⟩, ⟨1005, rfl⟩⟩,
    ⟨.reset, ⟨1005, rfl⟩⟩, ⟨.resetTimer, ⟨1005, rfl⟩⟩, ⟨.endDelete, ⟨1005, rfl⟩⟩,
    ⟨.endRead 1006, ⟨1006, rfl⟩⟩]

theorem timers_have_alarm_pastRun : ∃ s, run step (start ⟨1, rfl⟩) pastRun = some s ∧
    toLex (0, 32) ∈ s.loop.queue.timers_ ∧ ∃ deadline armed, s.loop.queue.timerfd_ = some deadline ∧
      s.armedAt = some armed ∧ deadline ≤ max 0 (armed + 100) := by
  obtain ⟨s, hs, he⟩ : ∃ s, run step (start ⟨1, rfl⟩) pastRun = some s ∧
      (s.loop.round.isNone, s.loop.queue.timers_.toList) = (true, [toLex (0, 32), toLex (5000, 16)]) :=
    Option.map_eq_some_iff.mp (by decide +kernel)
  simp only [Prod.mk.injEq, Option.isNone_iff_eq_none] at he
  have hmem : toLex (0, 32) ∈ s.loop.queue.timers_ := by simp [OrderedSet.mem_def, he.2]
  exact ⟨s, hs, hmem, (timers_have_alarm hs).2 he.1 _ hmem⟩

end TimedLoop

end ReactorNet
