import ReactorNet.TimerLoop
import ReactorNet.TimerQueueInvariant
import Mathlib.Data.List.Perm.Basic

/-!
# The timer queue over whole runs

The representation invariant holds in every state that any run of the loop thread and
the other threads reaches: no fault occurs, and no Timer is lost.
-/
namespace ReactorNet

namespace TimerFunctor

/-- The Timer an insertion carries. -/
def added : TimerFunctor → Option TimerId
  | .addTimerInLoop id => some id
  | .cancelInLoop _ => none

end TimerFunctor

namespace Round

def calling (r : Round) : Bool :=
  match r.stage with
  | .calling => true
  | _ => false

/-- The entries whose Timers are out of the queue: all until `reset` is called, then those that
it has not come to. -/
def batch (r : Round) : List Entry := if r.calling then r.expired else r.rest

/-- The entries whose callbacks are still to be run. -/
def upcoming (r : Round) : List Entry := if r.calling then r.rest else []

end Round

@[simp] theorem Stage.ofDeleted_ne (deleted : Option ℕ) : Stage.ofDeleted deleted ≠ .calling := by
  cases deleted <;> exact Stage.noConfusion

@[simp] theorem Round.calling_ofDeleted (now : Timestamp) (expired rest : List Entry)
    (deleted : Option ℕ) : calling ⟨now, expired, .ofDeleted deleted, rest⟩ = false := by
  cases deleted <;> rfl

namespace TimerLoop

open TimerQueue GuardedRuns

/-- The batch of the round that is under way. -/
def batch (s : TimerLoop) : List Entry :=
  match s.round with
  | some r => r.batch
  | none => []

theorem batch_of_round {s : TimerLoop} {r : Round} (h : s.round = some r) : s.batch = r.batch := by
  rw [batch, h]

/-- The Timers constructed and not yet inserted. -/
def pendingAdds (s : TimerLoop) : List TimerId :=
  s.constructed ++ s.loop.queued.filterMap TimerFunctor.added

/-- The addresses of the Timers that are alive outside the sets. -/
def outside (s : TimerLoop) : List ℕ :=
  s.batch.map Entry.timer ++ s.pendingAdds.map TimerId.timer_

structure Good (s : TimerLoop) : Prop where
  consistent : Consistent s.queue s.outside
  named : ∀ id ∈ s.pendingAdds, s.queue.Alive id
  created : ∀ id, s.queue.Alive id → id.sequence_ ≤ s.s_numCreated_
  calling : s.queue.callingExpiredTimers_ = s.round.any Round.calling
  rest_suffix : ∀ r ∈ s.round, r.rest <:+ r.expired

theorem good_start : start.Good where
  consistent := consistent_empty
  named id h := by cases h
  created := by
    rintro id ⟨t, ht, -⟩
    cases ht
  calling := rfl
  rest_suffix r h := by cases h

/-- A state whose queue is `q'`, which an operation has made of `q` and which keeps its
invariant. -/
theorem good_of_keeps {s : TimerLoop} {q : TimerQueue} (hc : Consistent s.queue s.outside)
    (hk : Keeps q s.queue) (hn : ∀ id ∈ s.pendingAdds, q.Alive id)
    (hcr : ∀ id, q.Alive id → id.sequence_ ≤ s.s_numCreated_)
    (hcall : s.queue.callingExpiredTimers_ = s.round.any Round.calling)
    (hrest : ∀ r ∈ s.round, r.rest <:+ r.expired) : s.Good where
  consistent := hc
  named id hid := by
    obtain ⟨t, ht, -⟩ := hc.outside_alive id.timer_
      (List.mem_append_right _ (List.mem_map_of_mem hid))
    have hsame : t.sequence_ = id.sequence_ :=
      (hk ⟨id.timer_, t.sequence_⟩ ⟨t, ht, rfl⟩).unique (hn id hid)
    exact ⟨t, ht, hsame⟩
  created id hid := hcr id (hk id hid)
  calling := hcall
  rest_suffix := hrest

/-- A step that leaves the queue alone and only moves pending insertions about. -/
theorem Good.of_perm {s s' : TimerLoop} (h : s.Good) (hq : s'.queue = s.queue)
    (hnum : s'.s_numCreated_ = s.s_numCreated_) (hr : s'.round = s.round)
    (hp : s'.pendingAdds.Perm s.pendingAdds) : s'.Good where
  consistent := by
    have hbatch : s'.batch = s.batch := by simp only [batch, hr]
    have hout : s.outside.Perm s'.outside := by
      simp only [outside, hbatch]
      exact (hp.symm.map _).append_left _
    exact hq ▸ h.consistent.perm hout
  named id hid := hq ▸ h.named id (hp.mem_iff.mp hid)
  created id hid := hnum ▸ h.created id (hq ▸ hid)
  calling := by rw [hq, hr, h.calling]
  rest_suffix r hmem := h.rest_suffix r (hr ▸ hmem)

/-- In a round the batch is outside the sets. -/
theorem Good.consistent_of_round {s : TimerLoop} {r : Round} (h : s.Good)
    (hround : s.round = some r) :
    Consistent s.queue (r.batch.map Entry.timer ++ s.pendingAdds.map TimerId.timer_) := by
  have hc := h.consistent
  simp only [outside, batch, hround] at hc
  exact hc

/-! ## Allocation -/

theorem allocate_eq_some {s s' : TimerLoop} {timer others : ℕ} {when : Timestamp}
    {interval : Seconds} {id : TimerId} (h : s.allocate timer others when interval = some (s', id)) :
    s.queue.heap id.timer_ = none ∧ id.timer_ < UINTPTR_MAX ∧ s.s_numCreated_ < id.sequence_ ∧
      id.timer_ = timer ∧ s' = { s with
        queue := s.queue.store id.timer_ (Timer.construct when interval id.sequence_)
        s_numCreated_ := id.sequence_ } := by
  simp only [allocate, Option.ite_none_right_eq_some, Option.some.injEq, Prod.mk.injEq] at h
  obtain ⟨⟨-, hlt, hnone, -⟩, rfl, rfl⟩ := h
  refine ⟨Option.isNone_iff_eq_none.mp hnone, hlt, ?_, rfl, rfl⟩
  simp only
  omega

theorem alive_store {q : TimerQueue} {a : ℕ} {t : Timer} {id : TimerId} (ha : q.heap a = none) :
    (q.store a t).Alive id ↔ q.Alive id ∨ id = ⟨a, t.sequence_⟩ := by
  obtain ⟨b, n⟩ := id
  by_cases hb : b = a
  · subst hb
    simp [TimerQueue.Alive, TimerQueue.store, ha, eq_comm]
  · simp [TimerQueue.Alive, TimerQueue.store, hb]

/-- After `new Timer` the invariant holds but for the new Timer, which has no place yet. -/
theorem Good.allocate {s s' : TimerLoop} {timer others : ℕ} {when : Timestamp}
    {interval : Seconds} {id : TimerId} (h : s.Good)
    (ha : s.allocate timer others when interval = some (s', id)) :
    Consistent s'.queue (id.timer_ :: s'.outside) ∧ s'.queue.Alive id ∧
      (∀ id' ∈ s'.pendingAdds, s'.queue.Alive id') ∧
      (∀ id', s'.queue.Alive id' → id'.sequence_ ≤ s'.s_numCreated_) ∧
      s'.queue.callingExpiredTimers_ = s'.round.any Round.calling := by
  obtain ⟨hnone, hlt, hnum, -, rfl⟩ := allocate_eq_some ha
  refine ⟨h.consistent.store hnone hlt, (alive_store hnone).mpr (Or.inr rfl),
    fun id' hid' => (alive_store hnone).mpr (Or.inl (h.named id' hid')), fun id' hid' => ?_,
    h.calling⟩
  rcases (alive_store hnone).mp hid' with hid' | rfl
  · exact Nat.le_trans (h.created id' hid') (Nat.le_of_lt hnum)
  · exact Nat.le_refl _

/-! ## What a step does

Each of these says how the state changes when the invariant holds before. -/

theorem addTimer_eq {s s' : TimerLoop} {timer others : ℕ} {when clock : Timestamp}
    {interval : Seconds} (h : s.Good) (hs : s.addTimer timer others when interval clock = some s') :
    ∃ id t q', s.queue.heap id.timer_ = none ∧ id = ⟨timer, id.sequence_⟩ ∧
      t = Timer.construct when interval id.sequence_ ∧
      s.s_numCreated_ < id.sequence_ ∧ Consistent q' s.outside ∧
      q' = { (s.queue.store id.timer_ t).inserted id.timer_ t with timerfd_ := q'.timerfd_ } ∧
      s' = { s with
        queue := q', s_numCreated_ := id.sequence_
        trace := [.returned id, .addedInLoop id] ++ s.trace } ∧ s'.Good := by
  simp only [addTimer, Option.map_eq_some_iff, Prod.exists] at hs
  obtain ⟨s₁, id, ha, rfl⟩ := hs
  obtain ⟨hc, -, hn, hcr, hcall⟩ := h.allocate ha
  obtain ⟨hnone, hlt, hnum, rfl, rfl⟩ := allocate_eq_some ha
  have ht : (s.queue.store id.timer_ (Timer.construct when interval id.sequence_)).heap id.timer_ =
      some (Timer.construct when interval id.sequence_) := by simp [TimerQueue.store]
  obtain ⟨fd, heq⟩ := hc.addTimerInLoop_eq ht clock
  have hc' := (hc.inserted ht).update s.queue.cancelingTimers_ s.queue.callingExpiredTimers_ fd
  refine ⟨id, _, _, hnone, rfl, rfl, hnum, hc', rfl, ?_, ?_⟩
  · simp only [heq]
    rfl
  · simp only [heq]
    exact good_of_keeps hc' (fun id hid => hid) hn hcr hcall h.rest_suffix

theorem addTimer_ok {s s' : TimerLoop} {timer others : ℕ} {when clock : Timestamp}
    {interval : Seconds} (h : s.Good) (hs : s.addTimer timer others when interval clock = some s') :
    ∃ id t q', s.queue.heap id.timer_ = none ∧ t.sequence_ = id.sequence_ ∧
      s.s_numCreated_ < id.sequence_ ∧ Consistent q' s.outside ∧
      q' = { (s.queue.store id.timer_ t).inserted id.timer_ t with timerfd_ := q'.timerfd_ } ∧
      s' = { s with
        queue := q', s_numCreated_ := id.sequence_
        trace := [.returned id, .addedInLoop id] ++ s.trace } ∧ s'.Good := by
  obtain ⟨id, t, q', hnone, -, rfl, hrest⟩ := addTimer_eq h hs
  exact ⟨id, _, q', hnone, rfl, hrest⟩

theorem cancel_ok {s : TimerLoop} (h : s.Good) (id : TimerId) :
    ∃ q', s.queue.cancelInLoop id = .ok q' ∧ Cancelled s.queue q' id ∧ s.cancel id =
      { s with queue := q', trace := [.cancelReturned id, .cancelledInLoop id] ++ s.trace } ∧
      (s.cancel id).Good := by
  obtain ⟨q', heq, hc, hcancelled⟩ := h.consistent.cancelInLoop_ok id
  refine ⟨q', heq, hcancelled, ?_, ?_⟩
  · simp only [cancel, heq]
    rfl
  · simp only [cancel, heq]
    exact good_of_keeps hc hcancelled.keeps h.named h.created
      (hcancelled.calling_eq.trans h.calling) h.rest_suffix

theorem construct_ok {s s' : TimerLoop} {timer others : ℕ} {when : Timestamp}
    {interval : Seconds} (h : s.Good) (hs : s.construct timer others when interval = some s') :
    ∃ id t, s.queue.heap id.timer_ = none ∧ t.sequence_ = id.sequence_ ∧
      s.s_numCreated_ < id.sequence_ ∧ s' = { s with
        queue := s.queue.store id.timer_ t, s_numCreated_ := id.sequence_
        constructed := id :: s.constructed } ∧ s'.Good := by
  simp only [construct, Option.map_eq_some_iff, Prod.exists] at hs
  obtain ⟨s₁, id, ha, rfl⟩ := hs
  obtain ⟨hc, hid, hn, hcr, hcall⟩ := h.allocate ha
  obtain ⟨hnone, hlt, hnum, rfl, rfl⟩ := allocate_eq_some ha
  refine ⟨id, _, hnone, rfl, hnum, rfl, ⟨hc.perm ?_, ?_, hcr, hcall, h.rest_suffix⟩⟩
  · exact List.perm_middle.symm
  · intro id' hid'
    rcases List.mem_cons.mp hid' with rfl | hid'
    · exact hid
    · exact hn id' hid'

theorem queueTimer_ok {s s' : TimerLoop} {id : TimerId} (h : s.Good)
    (hs : s.queueTimer id = some s') :
    id ∈ s.constructed ∧ s'.pendingAdds.Perm s.pendingAdds ∧ s' = { s with
      constructed := s.constructed.erase id, handedOver := id :: s.handedOver
      loop := s.loop.queueInLoop false (.addTimerInLoop id) } ∧ s'.Good := by
  simp only [queueTimer, Option.ite_none_right_eq_some, Option.some.injEq] at hs
  obtain ⟨hin, rfl⟩ := hs
  have hmove : (s.constructed.erase id ++ [id]).Perm s.constructed :=
    (List.perm_append_singleton id _).trans (List.perm_cons_erase hin).symm
  have hperm : (s.constructed.erase id ++ (s.loop.queueInLoop false (.addTimerInLoop id)).queued.filterMap
      TimerFunctor.added).Perm s.pendingAdds := by
    rw [EventLoop.queued_queueInLoop, List.filterMap_append]
    exact (List.perm_append_comm_assoc ..).trans
      ((hmove.append_left _).trans List.perm_append_comm)
  exact ⟨hin, hperm, rfl, h.of_perm rfl rfl rfl hperm⟩

/-- The Timer is there to be read, or the program stops. -/
theorem returnTimer_ok {s s' : TimerLoop} {id : TimerId} (h : s.Good)
    (hs : s.returnTimer id = some s') :
    id ∈ s.handedOver ∧ s'.Good ∧
      (s.queue.Alive id ∧ s' = { s with
          handedOver := s.handedOver.erase id, trace := .returned id :: s.trace } ∨
        ¬ s.queue.Alive id ∧ s' = { s with fault := some .dangling }) := by
  simp only [returnTimer, Option.ite_none_right_eq_some, Option.some.injEq] at hs
  obtain ⟨hin, rfl⟩ := hs
  have halive : (s.queue.heap id.timer_).any (·.sequence_ == id.sequence_) = true ↔
      s.queue.Alive id := by
    simp only [Option.any_eq_true, beq_iff_eq, TimerQueue.Alive]
  refine ⟨hin, ?_⟩
  split
  · next hread => exact ⟨h.of_perm rfl rfl rfl (.refl _), Or.inl ⟨halive.mp hread, rfl⟩⟩
  · next hread => exact ⟨h.of_perm rfl rfl rfl (.refl _), Or.inr ⟨mt halive.mpr hread, rfl⟩⟩

theorem queueCancel_ok {s : TimerLoop} (h : s.Good) (id : TimerId) :
    (s.queueCancel id).pendingAdds = s.pendingAdds ∧ (s.queueCancel id).Good := by
  have hadds : (s.queueCancel id).pendingAdds = s.pendingAdds := by
    simp [pendingAdds, queueCancel, List.filterMap_append, TimerFunctor.added]
  exact ⟨hadds, h.of_perm rfl rfl rfl (hadds ▸ .refl _)⟩

theorem outside_of_round_none {s : TimerLoop} (h : s.round = none) :
    s.outside = s.pendingAdds.map TimerId.timer_ := by
  simp [outside, batch, h]

theorem handleRead_eq {s s' : TimerLoop} {now : Timestamp} (h : s.Good)
    (hs : s.handleRead now = some s') :
    ∃ q', s.round = none ∧ s.loop.handlingEvents = true ∧ q'.heap = s.queue.heap ∧
      q'.cancelingTimers_ = OrderedSet.empty ∧
      (∀ a n, toLex (a, n) ∈ q'.activeTimers_ ↔ toLex (a, n) ∈ s.queue.activeTimers_ ∧
        a ∉ (s.queue.timers_.below (sentry now)).map Entry.timer) ∧
      s' = { s with
        queue := q'
        round := some ⟨now, s.queue.timers_.below (sentry now), .calling,
          s.queue.timers_.below (sentry now)⟩ } ∧ s'.Good := by
  simp only [handleRead, Option.ite_none_right_eq_some, Option.some.injEq] at hs
  obtain ⟨⟨hhandling, hround⟩, rfl⟩ := hs
  have hround := Option.isNone_iff_eq_none.mp hround
  obtain ⟨q', heq, hc, hheap, hcall, hcanceling, hmem⟩ := h.consistent.beginRead_eq now
  rw [outside_of_round_none hround] at hc
  have halive (id : TimerId) (hid : q'.Alive id) : s.queue.Alive id := by
    obtain ⟨t, ht, hn⟩ := hid
    exact ⟨t, hheap ▸ ht, hn⟩
  refine ⟨q', hround, hhandling, hheap, hcanceling, hmem, by rw [heq], ?_⟩
  rw [heq]
  refine ⟨hc, fun id hid => ?_, fun id hid => h.created id (halive id hid), hcall, ?_⟩
  · obtain ⟨t, ht, hn⟩ := h.named id hid
    exact ⟨t, hheap.symm ▸ ht, hn⟩
  · rintro r ⟨⟩
    exact List.suffix_refl _

theorem handleRead_ok {s s' : TimerLoop} {now : Timestamp} (h : s.Good)
    (hs : s.handleRead now = some s') :
    ∃ q' expired, s.round = none ∧ q'.heap = s.queue.heap ∧
      (∀ a n, toLex (a, n) ∈ q'.activeTimers_ ↔
        toLex (a, n) ∈ s.queue.activeTimers_ ∧ a ∉ expired.map Entry.timer) ∧
      (∀ e ∈ expired, ∃ n, toLex (e.timer, n) ∈ s.queue.activeTimers_) ∧
      s' = { s with queue := q', round := some ⟨now, expired, .calling, expired⟩ } ∧ s'.Good := by
  obtain ⟨q', hround, -, hheap, -, hmem, hs', hgood⟩ := handleRead_eq h hs
  refine ⟨q', _, hround, hheap, hmem, fun e he => ?_, hs', hgood⟩
  obtain ⟨t, -, hin⟩ := h.consistent.expired_alive he
  exact ⟨_, hin⟩

theorem Good.batch_alive {s : TimerLoop} (h : s.Good) {e : Entry} (he : e ∈ s.batch) :
    ∃ t, s.queue.heap e.timer = some t ∧ toLex (e.timer, t.sequence_) ∉ s.queue.activeTimers_ :=
  h.consistent.outside_alive e.timer (List.mem_append_left _ (List.mem_map_of_mem he))

theorem runTimer_ok {s s' : TimerLoop} (h : s.Good) (hs : s.runTimer = some s') :
    ∃ now expired it rest t, s.round = some ⟨now, expired, .calling, it :: rest⟩ ∧
      s.queue.heap it.timer = some t ∧ s' = { s with
        round := some ⟨now, expired, .calling, rest⟩
        trace := .started ⟨it.timer, t.sequence_⟩ :: s.trace } ∧ s'.Good := by
  rcases hround : s.round with _ | ⟨now, expired, _ | _ | _, _ | ⟨it, rest⟩⟩ <;>
    simp only [runTimer, hround, Option.some.injEq, reduceCtorEq] at hs
  have hsuffix := h.rest_suffix _ hround
  have hc := h.consistent_of_round hround
  have hbatch : s.batch = expired := batch_of_round hround
  obtain ⟨t, ht, -⟩ := h.batch_alive (hbatch ▸ hsuffix.subset (List.mem_cons_self ..))
  simp only [deref, ht] at hs
  subst hs
  refine ⟨now, expired, it, rest, t, rfl, ht, rfl, ⟨hc, h.named, h.created, ?_, ?_⟩⟩
  · change s.queue.callingExpiredTimers_ = true
    rw [h.calling, hround]
    rfl
  · rintro r ⟨⟩
    exact (List.suffix_cons ..).trans hsuffix

theorem reset_ok {s s' : TimerLoop} (h : s.Good) (hs : s.reset = some s') :
    ∃ now expired, s.round = some ⟨now, expired, .calling, []⟩ ∧ s' = { s with
      queue := { s.queue with callingExpiredTimers_ := false }
      round := some ⟨now, expired, .resetting, expired⟩ } ∧ s'.Good := by
  rcases hround : s.round with _ | ⟨now, expired, _ | _ | _, _ | ⟨it, rest⟩⟩ <;>
    simp only [TimerLoop.reset, hround, Option.some.injEq, reduceCtorEq] at hs
  subst hs
  have hc := h.consistent_of_round hround
  refine ⟨now, expired, rfl, rfl, ⟨hc.update _ _ _, h.named, h.created, rfl, ?_⟩⟩
  rintro r ⟨⟩
  exact List.suffix_refl _

theorem resetTimer_eq {s s' : TimerLoop} (h : s.Good) (hs : s.resetTimer = some s') :
    ∃ now expired it rest q' deleted,
      s.round = some ⟨now, expired, .resetting, it :: rest⟩ ∧
      Consistent s.queue (it.timer :: { s with
        round := some ⟨now, expired, .ofDeleted deleted, rest⟩ }.outside) ∧
      s.queue.resetTimer now it = .ok (q', deleted) ∧ Restarted s.queue q' it ∧ s' = { s with
        queue := q', round := some ⟨now, expired, .ofDeleted deleted, rest⟩ } ∧ s'.Good := by
  rcases hround : s.round with _ | ⟨now, expired, _ | _ | _, _ | ⟨it, rest⟩⟩ <;>
    simp only [TimerLoop.resetTimer, hround, Option.some.injEq, reduceCtorEq] at hs
  have hc : Consistent s.queue (it.timer :: (rest.map Entry.timer ++
      s.pendingAdds.map TimerId.timer_)) := h.consistent_of_round hround
  obtain ⟨q', deleted, heq, hc', hr⟩ := hc.resetTimer_ok it now
  have hout : { s with round := some ⟨now, expired, .ofDeleted deleted, rest⟩ }.outside =
      rest.map Entry.timer ++ s.pendingAdds.map TimerId.timer_ := by
    simp [outside, batch, Round.batch, pendingAdds]
  rw [heq] at hs
  subst hs
  refine ⟨now, expired, it, rest, q', deleted, rfl, hout ▸ hc, heq, hr, rfl, ?_⟩
  refine good_of_keeps (q := s.queue) ?_ hr.keeps h.named h.created ?_ ?_
  · change Consistent q' { s with round := some ⟨now, expired, .ofDeleted deleted, rest⟩ }.outside
    rw [hout]
    exact hc'
  · change q'.callingExpiredTimers_ = Round.calling _
    rw [hr.calling_eq, h.calling, hround, Round.calling_ofDeleted]
    rfl
  · rintro r ⟨⟩
    exact (List.suffix_cons ..).trans (h.rest_suffix _ hround)

theorem resetTimer_ok {s s' : TimerLoop} (h : s.Good) (hs : s.resetTimer = some s') :
    ∃ now expired it rest q' deleted,
      s.round = some ⟨now, expired, .resetting, it :: rest⟩ ∧ Restarted s.queue q' it ∧
      s' = { s with queue := q', round := some ⟨now, expired, .ofDeleted deleted, rest⟩ } ∧
      s'.Good := by
  obtain ⟨now, expired, it, rest, q', deleted, hround, -, -, hrest⟩ := resetTimer_eq h hs
  exact ⟨now, expired, it, rest, q', deleted, hround, hrest⟩

theorem endDelete_ok {s s' : TimerLoop} (h : s.Good) (hs : s.endDelete = some s') :
    ∃ now expired timer rest, s.round = some ⟨now, expired, .deleting timer, rest⟩ ∧
      s' = { s with round := some ⟨now, expired, .resetting, rest⟩ } ∧ s'.Good := by
  rcases hround : s.round with _ | ⟨now, expired, _ | _ | timer, rest⟩ <;>
    simp only [endDelete, hround, Option.some.injEq, reduceCtorEq] at hs
  subst hs
  have hc := h.consistent_of_round hround
  refine ⟨now, expired, timer, rest, rfl, rfl, ⟨hc, h.named, h.created, ?_, ?_⟩⟩
  · change s.queue.callingExpiredTimers_ = false
    rw [h.calling, hround]
    rfl
  · have hsuffix := h.rest_suffix _ hround
    rintro r ⟨⟩
    exact hsuffix

theorem endRead_eq {s s' : TimerLoop} {clock : Timestamp} (h : s.Good)
    (hs : s.endRead clock = some s') :
    ∃ now expired fd, s.round = some ⟨now, expired, .resetting, []⟩ ∧
      s.queue.endReset clock = .ok { s.queue with timerfd_ := fd } ∧
      s' = { s with queue := { s.queue with timerfd_ := fd }, round := none } ∧ s'.Good := by
  rcases hround : s.round with _ | ⟨now, expired, _ | _ | _, _ | ⟨it, rest⟩⟩ <;>
    simp only [endRead, hround, Option.some.injEq, reduceCtorEq] at hs
  have hc := h.consistent_of_round hround
  obtain ⟨fd, heq⟩ := hc.endReset_eq clock
  rw [heq] at hs
  subst hs
  refine ⟨now, expired, fd, rfl, heq, rfl, ⟨hc.update _ _ _, h.named, h.created, ?_, ?_⟩⟩
  · change s.queue.callingExpiredTimers_ = false
    rw [h.calling, hround]
    rfl
  · intro r hr
    cases hr

theorem endRead_ok {s s' : TimerLoop} {clock : Timestamp} (h : s.Good)
    (hs : s.endRead clock = some s') :
    ∃ now expired fd, s.round = some ⟨now, expired, .resetting, []⟩ ∧
      s' = { s with queue := { s.queue with timerfd_ := fd }, round := none } ∧ s'.Good := by
  obtain ⟨now, expired, fd, hround, -, hrest⟩ := endRead_eq h hs
  exact ⟨now, expired, fd, hround, hrest⟩

theorem loopAct_ok {s s' : TimerLoop} {a : LoopAction} (h : s.Good)
    (hs : s.loopAct a = some s') :
    ∃ l, l.queued = s.loop.queued ∧ s' = { s with loop := l } ∧ s'.Good := by
  simp only [loopAct, Option.ite_none_right_eq_some, Option.map_eq_some_iff] at hs
  obtain ⟨-, l, hl, rfl⟩ := hs
  have hq := EventLoop.queued_act hl
  refine ⟨l, hq, rfl, h.of_perm rfl rfl rfl ?_⟩
  simp only [pendingAdds, hq]
  exact .refl _

/-- The Timer of an insertion that is next waits outside the sets. -/
theorem Good.queued_timer {s : TimerLoop} {id : TimerId} {l : EventLoop TimerFunctor} (h : s.Good)
    (hnext : s.loop.next = some (.addTimerInLoop id, l)) :
    s.pendingAdds.Perm (id :: { s with loop := l }.pendingAdds) ∧
      Consistent s.queue (id.timer_ :: { s with loop := l }.outside) ∧ s.queue.Alive id := by
  have hadds : s.pendingAdds.Perm (id :: { s with loop := l }.pendingAdds) := by
    simp only [pendingAdds, EventLoop.queued_next hnext, List.filterMap_cons, TimerFunctor.added]
    exact List.perm_middle
  have hout : s.outside.Perm (id.timer_ :: { s with loop := l }.outside) :=
    ((hadds.map _).append_left _).trans List.perm_middle
  exact ⟨hadds, h.consistent.perm hout,
    h.named id (hadds.mem_iff.mpr (List.mem_cons_self ..))⟩

theorem runFunctor_ok {s s' : TimerLoop} {clock : Timestamp} (h : s.Good)
    (hs : s.runFunctor clock = some s') :
    (∃ id t q' l, s.loop.queued = .addTimerInLoop id :: l.queued ∧
      s.queue.heap id.timer_ = some t ∧ t.sequence_ = id.sequence_ ∧
      q' = { s.queue.inserted id.timer_ t with timerfd_ := q'.timerfd_ } ∧
      s' = { s with queue := q', loop := l, trace := .addedInLoop id :: s.trace } ∧ s'.Good) ∨
    (∃ id q' l, s.loop.queued = .cancelInLoop id :: l.queued ∧ Cancelled s.queue q' id ∧
      s' = { s with queue := q', loop := l, trace := .cancelledInLoop id :: s.trace } ∧ s'.Good) := by
  rcases hnext : s.loop.next with _ | ⟨id | id, l⟩ <;>
    simp only [runFunctor, hnext, Option.some.injEq, reduceCtorEq] at hs
  · have hqueued := EventLoop.queued_next hnext
    obtain ⟨hadds, hc, t, ht, hn⟩ := h.queued_timer hnext
    obtain ⟨fd, heq⟩ := hc.addTimerInLoop_eq ht clock
    rw [heq] at hs
    subst hs
    refine Or.inl ⟨id, t, _, l, hqueued, ht, hn, rfl, rfl, ?_⟩
    exact good_of_keeps (q := s.queue) ((hc.inserted ht).update _ _ fd) (fun _ hid => hid)
      (fun id' hid' => h.named id' (hadds.mem_iff.mpr (List.mem_cons_of_mem _ hid'))) h.created
      h.calling h.rest_suffix
  · have hqueued := EventLoop.queued_next hnext
    have hadds : s.pendingAdds = { s with loop := l }.pendingAdds := by
      simp [pendingAdds, hqueued, List.filterMap_cons, TimerFunctor.added]
    have hout : s.outside = { s with loop := l }.outside := by
      rw [outside, hadds]
      rfl
    obtain ⟨q', heq, hc, hcancelled⟩ := h.consistent.cancelInLoop_ok id
    rw [heq] at hs
    subst hs
    refine Or.inr ⟨id, q', l, hqueued, hcancelled, rfl, ?_⟩
    exact good_of_keeps (q := s.queue) (hout ▸ hc) hcancelled.keeps
      (fun id' hid' => h.named id' (hadds ▸ hid')) h.created
      (hcancelled.calling_eq.trans h.calling) h.rest_suffix

/-! ## Runs -/

/-- Every step keeps the invariant; only the return statement of an `addTimer` in another
thread can be a fault. -/
theorem Good.act {s s' : TimerLoop} {a : TimerAction} (h : s.Good) (hs : s.act a = some s') :
    s'.Good ∧ (s'.fault = s.fault ∨ ∃ id ∈ s'.handedOver, a = .returnTimer id ∧
      s'.fault = some .dangling ∧ ¬ s'.queue.Alive id) := by
  cases a with
  | addTimer timer others when interval clock =>
    obtain ⟨-, hs⟩ := Option.ite_none_right_eq_some.mp hs
    obtain ⟨_, _, _, -, -, -, -, -, rfl, hgood⟩ := addTimer_ok h hs
    exact ⟨hgood, Or.inl rfl⟩
  | cancel id =>
    obtain ⟨-, hs⟩ := Option.ite_none_right_eq_some.mp hs
    obtain ⟨_, -, -, heq, hgood⟩ := cancel_ok h id
    cases hs
    exact ⟨hgood, Or.inl (by rw [heq])⟩
  | construct timer others when interval =>
    obtain ⟨_, _, -, -, -, rfl, hgood⟩ := construct_ok h hs
    exact ⟨hgood, Or.inl rfl⟩
  | queueTimer id =>
    obtain ⟨-, -, rfl, hgood⟩ := queueTimer_ok h hs
    exact ⟨hgood, Or.inl rfl⟩
  | returnTimer id =>
    obtain ⟨hin, hgood, ⟨-, rfl⟩ | ⟨hdead, rfl⟩⟩ := returnTimer_ok h hs
    · exact ⟨hgood, Or.inl rfl⟩
    · exact ⟨hgood, Or.inr ⟨id, hin, rfl, rfl, hdead⟩⟩
  | queueCancel id =>
    cases hs
    exact ⟨(queueCancel_ok h id).2, Or.inl rfl⟩
  | handleRead now =>
    obtain ⟨_, _, -, -, -, -, rfl, hgood⟩ := handleRead_ok h hs
    exact ⟨hgood, Or.inl rfl⟩
  | runTimer =>
    obtain ⟨_, _, _, _, _, -, -, rfl, hgood⟩ := runTimer_ok h hs
    exact ⟨hgood, Or.inl rfl⟩
  | reset =>
    obtain ⟨_, _, -, rfl, hgood⟩ := reset_ok h hs
    exact ⟨hgood, Or.inl rfl⟩
  | resetTimer =>
    obtain ⟨_, _, _, _, _, _, -, -, rfl, hgood⟩ := resetTimer_ok h hs
    exact ⟨hgood, Or.inl rfl⟩
  | endDelete =>
    obtain ⟨_, _, _, _, -, rfl, hgood⟩ := endDelete_ok h hs
    exact ⟨hgood, Or.inl rfl⟩
  | endRead clock =>
    obtain ⟨_, _, _, -, rfl, hgood⟩ := endRead_ok h hs
    exact ⟨hgood, Or.inl rfl⟩
  | loop a =>
    obtain ⟨_, -, rfl, hgood⟩ := loopAct_ok h hs
    exact ⟨hgood, Or.inl rfl⟩
  | runFunctor clock =>
    obtain ⟨-, hs⟩ := Option.ite_none_right_eq_some.mp hs
    rcases runFunctor_ok h hs with ⟨_, _, _, _, -, -, -, -, rfl, hgood⟩ | ⟨_, _, _, -, -, rfl, hgood⟩
    · exact ⟨hgood, Or.inl rfl⟩
    · exact ⟨hgood, Or.inl rfl⟩

theorem Good.step {s s' : TimerLoop} {a : TimerAction} (h : s.Good) (hs : s.step a = some s') :
    s'.Good := (h.act (step_eq_some.mp hs).2).1

theorem good_run {as : List TimerAction} {s : TimerLoop} (hr : run step start as = some s) :
    s.Good :=
  run_invariant (fun _ _ _ h hs => h.step hs) good_start hr

/-- The last step of a run that ends in a fault. -/
theorem fault_run {as : List TimerAction} {s : TimerLoop} (hr : run TimerLoop.step start as = some s) :
    s.fault = none ∨ ∃ id ∈ s.handedOver, as.getLast? = some (.returnTimer id) ∧
      s.fault = some .dangling ∧ ¬ s.queue.Alive id := by
  rcases as.eq_nil_or_concat' with rfl | ⟨as, a, rfl⟩
  · cases hr
    exact Or.inl rfl
  · rw [run_append, Option.bind_eq_some_iff] at hr
    obtain ⟨t, ht, hr⟩ := hr
    obtain ⟨_, hs, hr⟩ := run_cons_eq_some.mp hr
    cases hr
    obtain ⟨hnone, hs⟩ := step_eq_some.mp hs
    rcases ((good_run ht).act hs).2 with hsame | ⟨id, hin, rfl, hfault⟩
    · exact Or.inl (hsame.trans hnone)
    · exact Or.inr ⟨id, hin, by simp, hfault⟩

/-- In every state of every run: no assertion has failed and no deleted Timer was used or
deleted, unless the last step was the return statement of an `addTimer` in another thread,
whose Timer the loop had deleted before; the two sets describe the same Timers; every Timer
in them or in the batch is alive, and every Timer alive is in them, in the batch, or waits to
be inserted; and a cancel, of whatever id, removes and deletes no Timer but the one `id`
names. -/
theorem timerQueue_representation {as : List TimerAction} {s : TimerLoop}
    (hr : run step start as = some s) :
    (s.fault = none ∨ ∃ id ∈ s.handedOver, as.getLast? = some (.returnTimer id) ∧
        s.fault = some .dangling ∧ ¬ s.queue.Alive id) ∧
      s.queue.timers_.size = s.queue.activeTimers_.size ∧
      (∀ a t, s.queue.heap a = some t → (toLex (t.expiration_, a) ∈ s.queue.timers_ ↔
        toLex (a, t.sequence_) ∈ s.queue.activeTimers_)) ∧
      (∀ when a, toLex (when, a) ∈ s.queue.timers_ →
        ∃ t, s.queue.heap a = some t ∧ t.expiration_ = when) ∧
      (∀ a n, toLex (a, n) ∈ s.queue.activeTimers_ →
        ∃ t, s.queue.heap a = some t ∧ t.sequence_ = n) ∧
      (∀ e ∈ s.batch, ∃ t, s.queue.heap e.timer = some t) ∧
      (∀ a t, s.queue.heap a = some t → toLex (a, t.sequence_) ∈ s.queue.activeTimers_ ∨
        (∃ e ∈ s.batch, e.timer = a) ∨ ⟨a, t.sequence_⟩ ∈ s.pendingAdds) ∧
      ∀ id : TimerId, ∃ q, s.queue.cancelInLoop id = .ok q ∧
        (∀ a n, toLex (a, n) ∈ s.queue.activeTimers_ → toLex (a, n) ∉ q.activeTimers_ →
          a = id.timer_ ∧ n = id.sequence_) ∧
        (∀ when a, toLex (when, a) ∈ s.queue.timers_ → toLex (when, a) ∉ q.timers_ →
          a = id.timer_ ∧ s.queue.Alive id) ∧
        ∀ a, q.heap a ≠ s.queue.heap a → a = id.timer_ ∧ s.queue.Alive id := by
  have h := good_run hr
  refine ⟨fault_run hr, h.consistent.size_eq, fun a t ht => h.consistent.mem_timers_iff ht,
    fun when a hmem => ?_, h.consistent.mem_active, fun e he => ?_, fun a t ht => ?_, fun id => ?_⟩
  · obtain ⟨t, ht, hwhen, -⟩ := (h.consistent.mem_timers when a).mp hmem
    exact ⟨t, ht, hwhen⟩
  · obtain ⟨t, ht, -⟩ := h.batch_alive he
    exact ⟨t, ht⟩
  · refine (h.consistent.held a t ht).imp_right fun hout => ?_
    rcases List.mem_append.mp hout with hout | hout
    · exact Or.inl (List.mem_map.mp hout)
    · obtain ⟨id, hid, rfl⟩ := List.mem_map.mp hout
      have hn : id.sequence_ = t.sequence_ := (h.named id hid).unique ⟨t, ht, rfl⟩
      exact Or.inr (hn ▸ hid)
  · obtain ⟨q, heq, -, hc⟩ := h.consistent.cancelInLoop_ok id
    refine ⟨q, heq, fun a n hin hout => ?_, hc.timers, hc.heap⟩
    by_contra hne
    refine hout ((hc.active a n).mpr ⟨hin, fun he => hne ?_⟩)
    subst he
    exact ⟨rfl, rfl⟩

/-- A timer cancels itself while it runs and is deleted; its address is used again, and a
cancel with the stale id does not touch the new Timer. -/
theorem timerQueue_representation_reuse : ∃ s, run step start
      [.addTimer 8 0 5 ⟨true, 3⟩ 0, .loop .poll, .handleRead 10, .runTimer,
        .addTimer 16 0 20 ⟨false, 0⟩ 10, .cancel ⟨8, 1⟩, .reset, .resetTimer, .endDelete,
        .endRead 10, .addTimer 8 0 30 ⟨false, 0⟩ 10] = some s ∧ s.fault = none ∧
      ∃ q, s.queue.cancelInLoop ⟨8, 1⟩ = .ok q ∧ toLex (8, 3) ∈ q.activeTimers_ := by
  obtain ⟨s, hs, hactive⟩ : ∃ s, run step start
      [.addTimer 8 0 5 ⟨true, 3⟩ 0, .loop .poll, .handleRead 10, .runTimer,
        .addTimer 16 0 20 ⟨false, 0⟩ 10, .cancel ⟨8, 1⟩, .reset, .resetTimer, .endDelete,
        .endRead 10, .addTimer 8 0 30 ⟨false, 0⟩ 10] = some s ∧
      s.queue.activeTimers_.toList = [toLex (8, 3), toLex (16, 2)] :=
    Option.map_eq_some_iff.mp (by decide +kernel)
  obtain ⟨hf, -, -, -, -, -, -, hcancel⟩ := timerQueue_representation hs
  have hf : s.fault = none := by
    rcases hf with hf | ⟨_, _, hlast, _⟩
    · exact hf
    · simp at hlast
  obtain ⟨q, heq, hremoved, -⟩ := hcancel ⟨8, 1⟩
  refine ⟨s, hs, hf, q, heq, by_contra fun hout => ?_⟩
  have hin : toLex (8, 3) ∈ s.queue.activeTimers_ := by simp [OrderedSet.mem_def, hactive]
  exact absurd (hremoved 8 3 hin hout).2 (by decide)

end TimerLoop

end ReactorNet
