import ReactorNet.TimerCancellation
import ReactorNet.TimerRegistered
import Mathlib.Data.List.Induction

/-!
# One round of the timer queue

`handleRead` from its first line to its last, with whatever its callbacks and the other
threads do in between: which Timers it runs, and which are in the queue when it is done.
-/
namespace ReactorNet

def TimerEvent.startedId : TimerEvent → Option TimerId
  | .started id => some id
  | _ => none

namespace TimerLoop

open TimerQueue GuardedRuns

/-- The Timers whose callbacks are started, the latest in front. -/
def startedIds (events : List TimerEvent) : List TimerId :=
  events.filterMap TimerEvent.startedId

/-- The ids of the Timers at the addresses of the entries. -/
def ids (q : TimerQueue) (es : List Entry) : List TimerId :=
  es.filterMap fun e => (q.heap e.timer).map fun t => ⟨e.timer, t.sequence_⟩

/-- A call of `addTimer` in the loop thread that returns `id`. -/
def Adds (t : TimerLoop) (a : TimerAction) (id : TimerId) (u : Timer) : Prop :=
  ∃ timer others when interval clock t', a = .addTimer timer others when interval clock ∧
    t.step a = some t' ∧ t'.trace = [.returned id, .addedInLoop id] ++ t.trace ∧
    u = Timer.construct when interval id.sequence_

/-- A callback of the round added the Timer, and nobody has cancelled it since. -/
def Added (s : TimerLoop) (now : Timestamp) (done : List TimerAction) (id : TimerId)
    (u : Timer) : Prop :=
  ∃ before a after t, done = before ++ a :: after ∧
    run step s (.handleRead now :: before) = some t ∧ t.Adds a id u ∧ .cancel id ∉ after

/-- A cancel of `id` in the round that has its effect: `callingExpiredTimers_` is true, as it is
for every callback of the round, or `reset` is not to put the Timer back anyway. -/
def EffectiveCancel (s : TimerLoop) (now : Timestamp) (done : List TimerAction) (id : TimerId) :
    Prop :=
  ∃ before after t, done = before ++ .cancel id :: after ∧
    run step s (.handleRead now :: before) = some t ∧ Recorded id t (.cancel id)

/-- An action of `done ++ [b]` is one of `done` or the last. -/
theorem concat_eq_split {done before after : List TimerAction} {a b : TimerAction} :
    done ++ [b] = before ++ a :: after ↔
      (∃ after', done = before ++ a :: after' ∧ after = after' ++ [b]) ∨
        done = before ∧ b = a ∧ after = [] := by
  constructor
  · intro hsplit
    rcases after.eq_nil_or_concat' with rfl | ⟨after', b', rfl⟩
    · obtain ⟨rfl, hb⟩ := List.append_inj' hsplit rfl
      exact Or.inr ⟨rfl, (List.cons.inj hb).1, rfl⟩
    · rw [← List.cons_append, ← List.append_assoc] at hsplit
      obtain ⟨rfl, hb⟩ := List.append_inj' hsplit rfl
      exact Or.inl ⟨after', rfl, by rw [hb]⟩
  · rintro (⟨after', rfl, rfl⟩ | ⟨rfl, rfl, rfl⟩)
    · simp
    · rfl

theorem added_concat {s t : TimerLoop} {now : Timestamp} {done : List TimerAction}
    (hr : run step s (.handleRead now :: done) = some t) (b : TimerAction) (id : TimerId)
    (u : Timer) : s.Added now (done ++ [b]) id u ↔
      (s.Added now done id u ∧ b ≠ .cancel id) ∨ t.Adds b id u := by
  constructor
  · rintro ⟨before, a, after, t', hsplit, hr', hadds, hno⟩
    rcases concat_eq_split.mp hsplit with ⟨after', rfl, rfl⟩ | ⟨rfl, rfl, rfl⟩
    · rw [List.mem_append, List.mem_singleton, not_or] at hno
      exact Or.inl ⟨⟨before, a, after', t', rfl, hr', hadds, hno.1⟩, Ne.symm hno.2⟩
    · cases hr.symm.trans hr'
      exact Or.inr hadds
  · rintro (⟨⟨before, a, after, t', rfl, hr', hadds, hno⟩, hb⟩ | hadds)
    · refine ⟨before, a, after ++ [b], t', by simp, hr', hadds, ?_⟩
      rw [List.mem_append, List.mem_singleton, not_or]
      exact ⟨hno, Ne.symm hb⟩
    · exact ⟨done, b, [], t, rfl, hr, hadds, List.not_mem_nil⟩

theorem effectiveCancel_concat {s t : TimerLoop} {now : Timestamp} {done : List TimerAction}
    (hr : run step s (.handleRead now :: done) = some t) (b : TimerAction) (id : TimerId) :
    s.EffectiveCancel now (done ++ [b]) id ↔
      s.EffectiveCancel now done id ∨ b = .cancel id ∧ Recorded id t b := by
  constructor
  · rintro ⟨before, after, t', hsplit, hr', hrec⟩
    rcases concat_eq_split.mp hsplit with ⟨after', rfl, rfl⟩ | ⟨rfl, rfl, rfl⟩
    · exact Or.inl ⟨before, after', t', rfl, hr', hrec⟩
    · cases hr.symm.trans hr'
      exact Or.inr ⟨rfl, hrec⟩
  · rintro (⟨before, after, t', rfl, hr', hrec⟩ | ⟨rfl, hrec⟩)
    · exact ⟨before, after ++ [b], t', by simp, hr', hrec⟩
    · exact ⟨done, [], t, rfl, hr, hrec⟩

theorem effectiveCancel_other {s t : TimerLoop} {now : Timestamp} {done : List TimerAction}
    (hr : run step s (.handleRead now :: done) = some t) {a : TimerAction}
    (hcancel : ∀ id, a ≠ .cancel id) (id : TimerId) :
    s.EffectiveCancel now (done ++ [a]) id ↔ s.EffectiveCancel now done id := by
  rw [effectiveCancel_concat hr]
  exact or_iff_left fun h => hcancel id h.1

theorem not_effectiveCancel_nil (s : TimerLoop) (now : Timestamp) (id : TimerId) :
    ¬ s.EffectiveCancel now [] id := by
  rintro ⟨before, after, t, hsplit, -⟩
  simp at hsplit

/-- The loop of `reset` has put back the Timer of the batch, which nobody has cancelled in
time. -/
def Returned (s : TimerLoop) (now : Timestamp) (done : List TimerAction) (left : List Entry)
    (id : TimerId) (u : Timer) : Prop :=
  ∃ w, s.queue.Registered id w ∧ w.expiration_ ≤ now ∧ w.repeat_ = true ∧
    ¬ s.EffectiveCancel now done id ∧ toLex (w.expiration_, id.timer_) ∉ left ∧
    u = { w with expiration_ := addTime now w.interval_ }

/-- Where the round is, and the callbacks it has started. -/
def Progress (s : TimerLoop) (now : Timestamp) (t : TimerLoop) : Prop :=
  ∃ stage rest events, t.round = some ⟨now, s.queue.timers_.below (sentry now), stage, rest⟩ ∧
    t.trace = events ++ s.trace ∧ (startedIds events).reverse ++
      ids s.queue (Round.upcoming ⟨now, s.queue.timers_.below (sentry now), stage, rest⟩) =
        ids s.queue (s.queue.timers_.below (sentry now))

/-- The state in the middle of a round that began in `s` and in which `done` has happened. -/
structure InRound (s : TimerLoop) (now : Timestamp) (done : List TimerAction) (t : TimerLoop) :
    Prop where
  progress : s.Progress now t
  kept : ∀ e ∈ t.batch, t.queue.heap e.timer = s.queue.heap e.timer
  marked : ∀ e ∈ t.batch, ∀ w, s.queue.heap e.timer = some w → w.repeat_ = true →
    (toLex (e.timer, w.sequence_) ∈ t.queue.cancelingTimers_ ↔
      s.EffectiveCancel now done ⟨e.timer, w.sequence_⟩)
  calling : .reset ∉ done → t.queue.callingExpiredTimers_ = true
  numbered : s.s_numCreated_ ≤ t.s_numCreated_
  registered : ∀ id u, t.queue.Registered id u ↔
    (s.queue.Registered id u ∧ now < u.expiration_ ∧ .cancel id ∉ done) ∨ s.Added now done id u ∨
      s.Returned now done t.batch id u
  gone : ∀ e ∈ s.queue.timers_.below (sentry now), e ∉ t.batch → ∀ w,
    s.queue.heap e.timer = some w →
      w.repeat_ = false ∨ s.EffectiveCancel now done ⟨e.timer, w.sequence_⟩ →
        ¬ t.queue.Alive ⟨e.timer, w.sequence_⟩

section Batch

variable {s : TimerLoop} {now : Timestamp}

theorem mem_ids {q : TimerQueue} {es : List Entry} {id : TimerId} :
    id ∈ ids q es ↔ ∃ e ∈ es, ∃ t, q.heap e.timer = some t ∧ ⟨e.timer, t.sequence_⟩ = id := by
  simp only [ids, List.mem_filterMap, Option.map_eq_some_iff]

theorem mem_ids_batch (h : s.Good) {id : TimerId} :
    id ∈ ids s.queue (s.queue.timers_.below (sentry now)) ↔
      ∃ u, s.queue.Registered id u ∧ u.expiration_ ≤ now := by
  rw [mem_ids]
  constructor
  · rintro ⟨e, he, u, hu, rfl⟩
    obtain ⟨hreg, hle, -⟩ := (h.consistent.mem_batch hu).mp he
    exact ⟨u, hreg, hle⟩
  · rintro ⟨u, hreg, hle⟩
    obtain ⟨a, n⟩ := id
    obtain ⟨hu, rfl, hmem⟩ := hreg
    exact ⟨toLex (u.expiration_, a), (h.consistent.mem_batch (e := toLex (u.expiration_, a)) hu).mpr
      ⟨⟨hu, rfl, hmem⟩, hle, rfl⟩, u, hu, rfl⟩

/-- The batch names no Timer twice, and in the order of the expirations. -/
theorem pairwise_ids_batch (h : s.Good) (now : Timestamp) :
    (ids s.queue (s.queue.timers_.below (sentry now))).Pairwise fun i j => i ≠ j ∧
      ∀ u v, s.queue.Registered i u → s.queue.Registered j v → u.expiration_ ≤ v.expiration_ := by
  have hsorted : (s.queue.timers_.below (sentry now)).Pairwise (· < ·) :=
    s.queue.timers_.sorted.filter _
  refine (List.Pairwise.and_mem.mp hsorted).filterMap _ ?_
  rintro e e' ⟨he, he', hlt⟩ i hi j hj
  obtain ⟨u, hu, rfl⟩ := Option.map_eq_some_iff.mp hi
  obtain ⟨v, hv, rfl⟩ := Option.map_eq_some_iff.mp hj
  obtain ⟨-, -, hentry⟩ := (h.consistent.mem_batch hu).mp he
  obtain ⟨-, -, hentry'⟩ := (h.consistent.mem_batch hv).mp he'
  refine ⟨fun hsame => ?_, fun u' v' hu' hv' => ?_⟩
  · obtain ⟨htimer, -⟩ := TimerId.mk.inj hsame
    rw [htimer, hv, Option.some.injEq] at hu
    rw [hentry, hentry', hu, htimer] at hlt
    exact lt_irrefl _ hlt
  · cases hu.symm.trans hu'.1
    cases hv.symm.trans hv'.1
    rw [hentry, hentry', Prod.Lex.toLex_lt_toLex] at hlt
    rcases hlt with hlt | ⟨heq, -⟩
    · exact le_of_lt hlt
    · exact le_of_eq heq

end Batch

theorem inRound_handleRead {s t : TimerLoop} {now : Timestamp} (h : s.Good)
    (hs : s.handleRead now = some t) : InRound s now [] t := by
  obtain ⟨q', -, -, hheap, hcanceling, hactive, rfl, hgood⟩ := handleRead_eq h hs
  refine ⟨⟨_, _, [], rfl, rfl, rfl⟩, fun e _ => congrFun hheap _, fun e _ w _ _ => ?_,
    fun _ => hgood.calling, Nat.le_refl _, fun id u => ?_, fun e he hout => absurd he hout⟩
  · rw [hcanceling]
    simp [not_effectiveCancel_nil]
  · rw [h.consistent.registered_beginRead hgood.consistent hheap hactive]
    constructor
    · rintro ⟨hreg, hlt⟩
      exact Or.inl ⟨hreg, hlt, List.not_mem_nil⟩
    · rintro (⟨hreg, hlt, -⟩ | ⟨before, a, after, t', hsplit, -⟩ | ⟨w, ⟨hw, hn, hmem⟩, hle, -, -, hout, -⟩)
      · exact ⟨hreg, hlt⟩
      · simp at hsplit
      · have hreg : s.queue.Registered ⟨id.timer_, w.sequence_⟩ w := ⟨hw, rfl, hmem⟩
        exact absurd ((h.consistent.mem_batch (e := toLex (w.expiration_, id.timer_)) hw).mpr
          ⟨hreg, hle, rfl⟩) hout

namespace InRound

variable {s t t' : TimerLoop} {now : Timestamp} {done : List TimerAction} {a : TimerAction}

theorem batch_subset (h : InRound s now done t) (ht : t.Good) :
    t.batch <:+ s.queue.timers_.below (sentry now) := by
  obtain ⟨stage, rest, -, hround, -⟩ := h.progress
  have hsuffix := ht.rest_suffix _ hround
  simp only [batch, hround, Round.batch]
  split
  · exact List.suffix_refl _
  · exact hsuffix

theorem progress_same (h : InRound s now done t) (events : List TimerEvent)
    (hround : t'.round = t.round) (htrace : t'.trace = events ++ t.trace)
    (hnone : startedIds events = []) : s.Progress now t' := by
  obtain ⟨stage, rest, before, hrest, hbefore, hstarted⟩ := h.progress
  refine ⟨stage, rest, events ++ before, hround.trans hrest, ?_, ?_⟩
  · rw [htrace, hbefore, List.append_assoc]
  · rw [startedIds, List.filterMap_append, ← startedIds, hnone]
    exact hstarted

theorem calling_concat (h : InRound s now done t)
    (hcalling : a ≠ .reset → t'.queue.callingExpiredTimers_ = t.queue.callingExpiredTimers_)
    (hno : .reset ∉ done ++ [a]) : t'.queue.callingExpiredTimers_ = true := by
  rw [List.mem_append, List.mem_singleton, not_or] at hno
  rw [hcalling (Ne.symm hno.2)]
  exact h.calling hno.1

/-- A step that neither adds, cancels nor puts back. -/
theorem frame (h : InRound s now done t) (hr : run step s (.handleRead now :: done) = some t)
    (hprogress : s.Progress now t') (hbatch : t'.batch = t.batch)
    (hheap : ∀ e ∈ t.batch, t'.queue.heap e.timer = t.queue.heap e.timer)
    (hcanceling : t'.queue.cancelingTimers_ = t.queue.cancelingTimers_)
    (hnum : t.s_numCreated_ ≤ t'.s_numCreated_)
    (hreg : ∀ id u, t'.queue.Registered id u ↔ t.queue.Registered id u)
    (halive : ∀ id, t'.queue.Alive id → t.queue.Alive id ∨ t.s_numCreated_ < id.sequence_)
    (hcalling : a ≠ .reset → t'.queue.callingExpiredTimers_ = t.queue.callingExpiredTimers_)
    (hs : s.Good) (hcancel : ∀ id, a ≠ .cancel id) (hadds : ∀ id u, ¬ t.Adds a id u) :
    InRound s now (done ++ [a]) t' := by
  have hdone (id : TimerId) : .cancel id ∈ done ++ [a] ↔ .cancel id ∈ done := by
    simp [Ne.symm (hcancel id)]
  have heffect := effectiveCancel_other hr hcancel
  refine ⟨hprogress, fun e he => ?_, fun e he w hw hrepeat => ?_, h.calling_concat hcalling,
    Nat.le_trans h.numbered hnum, fun id u => ?_, fun e he hout w hw hgone hid => ?_⟩
  · rw [hbatch] at he
    exact (hheap e he).trans (h.kept e he)
  · rw [hbatch] at he
    rw [hcanceling, heffect]
    exact h.marked e he w hw hrepeat
  · rw [hreg, h.registered, added_concat hr, Returned, Returned, hdone, heffect, hbatch]
    simp [hcancel id, hadds id u]
  · rw [hbatch] at hout
    rw [heffect] at hgone
    rcases halive _ hid with hid | hlt
    · exact h.gone e he hout w hw hgone hid
    · have hcreated := hs.created ⟨e.timer, w.sequence_⟩ ⟨w, hw, rfl⟩
      exact Nat.not_le_of_lt hlt (Nat.le_trans hcreated h.numbered)

/-- A step of another thread leaves the queue and the round as they are. -/
theorem frame_queue (h : InRound s now done t)
    (hr : run step s (.handleRead now :: done) = some t) (hs : s.Good) (events : List TimerEvent)
    (hqueue : t'.queue = t.queue) (hround : t'.round = t.round)
    (htrace : t'.trace = events ++ t.trace) (hnone : startedIds events = [])
    (hnum : t'.s_numCreated_ = t.s_numCreated_) (hcancel : ∀ id, a ≠ .cancel id)
    (hadds : ∀ id u, ¬ t.Adds a id u) : InRound s now (done ++ [a]) t' := by
  refine h.frame hr (h.progress_same events hround htrace hnone) ?_ (fun e _ => ?_) ?_
    (Nat.le_of_eq hnum.symm) (fun id u => ?_) (fun id hid => Or.inl (hqueue ▸ hid)) (fun _ => ?_) hs
    hcancel hadds
  · rw [batch, hround, batch]
  · rw [hqueue]
  · rw [hqueue]
  · rw [hqueue]
  · rw [hqueue]

/-- The Timers of the batch are alive and outside the queue. -/
theorem ne_of_free (ht : t.Good) {e : Entry} {b : ℕ} (he : e ∈ t.batch)
    (hb : t.queue.heap b = none) : e.timer ≠ b := by
  rintro rfl
  obtain ⟨w, hw, -⟩ := ht.batch_alive he
  cases hb.symm.trans hw

theorem step_addTimer (h : InRound s now done t) (hs : s.Good) (ht : t.Good)
    (hr : run step s (.handleRead now :: done) = some t) {timer others : ℕ}
    {when clock : Timestamp} {interval : Seconds}
    (hstep : t.step (.addTimer timer others when interval clock) = some t')
    (hadd : t.addTimer timer others when interval clock = some t') :
    InRound s now (done ++ [.addTimer timer others when interval clock]) t' := by
  obtain ⟨id, u, q', hfree, hid, hu, hnum, -, hq', rfl, -⟩ := addTimer_eq ht hadd
  have hdone (id' : TimerId) :
      .cancel id' ∈ done ++ [.addTimer timer others when interval clock] ↔ .cancel id' ∈ done := by
    simp
  have heffect := effectiveCancel_other hr
    (a := .addTimer timer others when interval clock) (fun _ => TimerAction.noConfusion)
  have hsame : u.sequence_ = id.sequence_ := by
    rw [hu]
    rfl
  refine ⟨h.progress_same [.returned id, .addedInLoop id] rfl rfl rfl, fun e he => ?_,
    fun e he w hw hrepeat => ?_, h.calling_concat fun _ => ?_,
    Nat.le_trans h.numbered (Nat.le_of_lt hnum), fun id' u' => ?_,
    fun e he hout w hw hgone halive => ?_⟩
  · rw [← h.kept e he, hq']
    simp [TimerQueue.inserted, TimerQueue.store, ne_of_free ht he hfree]
  · rw [heffect, ← h.marked e he w hw hrepeat, hq']
    rfl
  · rw [hq']
    rfl
  · have hadds : t.Adds (.addTimer timer others when interval clock) id' u' ↔
        id' = id ∧ u' = u := by
      constructor
      · rintro ⟨timer', others', when', interval', clock', t', heq, hs', htrace, rfl⟩
        cases heq
        cases hstep.symm.trans hs'
        simp only [List.append_cancel_right_eq, List.cons.injEq, TimerEvent.returned.injEq] at htrace
        obtain rfl := htrace.1
        exact ⟨rfl, hu.symm⟩
      · rintro ⟨rfl, rfl⟩
        exact ⟨_, _, _, _, _, _, rfl, hstep, rfl, hu⟩
    have hstore : (t.queue.store id.timer_ u).heap id.timer_ = some u := by
      simp [TimerQueue.store]
    have hregistered : q'.Registered id' u' ↔
        ((t.queue.store id.timer_ u).inserted id.timer_ u).Registered id' u' := by
      rw [hq']
      exact registered_congr rfl rfl id' u'
    have hreturned : s.Returned now (done ++ [.addTimer timer others when interval clock])
        t.batch id' u' ↔ s.Returned now done t.batch id' u' := by
      simp only [Returned, heffect]
    change q'.Registered id' u' ↔ _ ∨ _ ∨ s.Returned now _ t.batch id' u'
    rw [added_concat hr, hadds, hdone, hreturned, hregistered, registered_inserted hstore,
      registered_store (ht.consistent.vacant_free hfree), h.registered, hsame]
    simp only [ne_eq, reduceCtorEq, not_false_eq_true, and_true]
    grind
  · rw [heffect] at hgone
    rw [hq'] at halive
    rcases (alive_store hfree).mp halive with halive | heq
    · exact h.gone e he hout w hw hgone halive
    · have hcreated := hs.created ⟨e.timer, w.sequence_⟩ ⟨w, hw, rfl⟩
      have hseq : w.sequence_ = u.sequence_ := congrArg TimerId.sequence_ heq
      rw [hseq, hsame] at hcreated
      exact Nat.not_le_of_lt hnum (Nat.le_trans hcreated h.numbered)

/-- What `reset` has put back it is not to put back again. -/
theorem returned_notMem_returning (h : InRound s now done t) (hs : s.Good) (ht : t.Good)
    {id : TimerId} {u : Timer} (hreturned : s.Returned now done t.batch id u) :
    id ∉ t.returning := by
  obtain ⟨w, ⟨hw, -, -⟩, -, -, -, hout, -⟩ := hreturned
  intro hin
  obtain ⟨e, he, u', -, rfl⟩ := mem_returning.mp hin
  obtain ⟨-, -, hentry⟩ := (hs.consistent.mem_batch hw).mp ((h.batch_subset ht).subset he)
  exact hout (hentry ▸ he)

/-- The next state of the round after a cancel, by what the queue `q'` is like then. -/
theorem cancelled (h : InRound s now done t)
    (hr : run step s (.handleRead now :: done) = some t) (hs : s.Good) (ht : t.Good) {id : TimerId}
    {q' : TimerQueue} (heq : t.queue.cancelInLoop id = .ok q')
    (hheap : ∀ e ∈ t.batch, q'.heap e.timer = t.queue.heap e.timer)
    (hmark : ∀ e ∈ t.batch, ∀ w, s.queue.heap e.timer = some w → w.repeat_ = true →
      (toLex (e.timer, w.sequence_) ∈ q'.cancelingTimers_ ↔
        toLex (e.timer, w.sequence_) ∈ t.queue.cancelingTimers_ ∨
          ⟨e.timer, w.sequence_⟩ = id ∧ Recorded id t (.cancel id)))
    (hreg : ∀ id' u, q'.Registered id' u ↔ t.queue.Registered id' u ∧ id' ≠ id)
    (hc : Cancelled t.queue q' id) (hfreed : ∀ u, t.queue.Registered id u → ¬ q'.Alive id) :
    InRound s now (done ++ [.cancel id]) (t.cancel id) := by
  have hcancel : t.cancel id =
      { t with queue := q', trace := [.cancelReturned id, .cancelledInLoop id] ++ t.trace } := by
    simp only [cancel, heq]
    rfl
  have hdone (id' : TimerId) :
      .cancel id' ∈ done ++ [.cancel id] ↔ .cancel id' ∈ done ∨ id' = id := by
    simp
  have heffect (id' : TimerId) : s.EffectiveCancel now (done ++ [.cancel id]) id' ↔
      s.EffectiveCancel now done id' ∨ id' = id ∧ Recorded id t (.cancel id) := by
    rw [effectiveCancel_concat hr, TimerAction.cancel.injEq, eq_comm]
    refine or_congr_right (and_congr_right ?_)
    rintro rfl
    rfl
  have hadds (id' : TimerId) (u : Timer) : ¬ t.Adds (.cancel id) id' u := by
    rintro ⟨_, _, _, _, _, _, heq, -⟩
    cases heq
  rw [hcancel]
  refine ⟨h.progress_same [.cancelReturned id, .cancelledInLoop id] rfl rfl rfl,
    fun e he => (hheap e he).trans (h.kept e he), fun e he w hw hrepeat => ?_,
    h.calling_concat fun _ => hc.calling_eq, h.numbered, fun id' u => ?_,
    fun e he hout w hw hgone halive => ?_⟩
  · rw [hmark e he w hw hrepeat, h.marked e he w hw hrepeat, heffect]
  · have hreturned : s.Returned now (done ++ [.cancel id]) t.batch id' u ↔
        s.Returned now done t.batch id' u ∧ id' ≠ id := by
      simp only [Returned, heffect, not_or]
      constructor
      · rintro ⟨w, hw, hle, hrepeat, ⟨hno, hlost⟩, hrest⟩
        have hback : s.Returned now done t.batch id' u := ⟨w, hw, hle, hrepeat, hno, hrest⟩
        refine ⟨hback, fun hsame => hlost ⟨hsame, fun _ hin => ?_⟩⟩
        exact absurd (hsame ▸ hin) (h.returned_notMem_returning hs ht hback)
      · rintro ⟨⟨w, hw, hle, hrepeat, hno, hrest⟩, hne⟩
        exact ⟨w, hw, hle, hrepeat, ⟨hno, fun hsame => hne hsame.1⟩, hrest⟩
    have hadded : s.Added now (done ++ [.cancel id]) id' u ↔
        s.Added now done id' u ∧ id' ≠ id := by
      rw [added_concat hr, or_iff_left (hadds id' u), ne_eq, TimerAction.cancel.injEq, eq_comm]
    change q'.Registered id' u ↔ _ ∨ _ ∨ s.Returned now _ t.batch id' u
    rw [hreg, h.registered, hdone, hadded, hreturned, not_or]
    grind
  · change e ∉ t.batch at hout
    rw [heffect, ← or_assoc] at hgone
    by_cases hbefore : w.repeat_ = false ∨ s.EffectiveCancel now done ⟨e.timer, w.sequence_⟩
    · exact h.gone e he hout w hw hbefore (hc.keeps _ halive)
    · -- The Timer had been put back, and the cancel finds it.
      obtain ⟨rfl, -⟩ := hgone.resolve_left hbefore
      obtain ⟨hrepeat, hno⟩ := not_or.mp hbefore
      obtain ⟨hin, hle, hentry⟩ := (hs.consistent.mem_batch hw).mp he
      have hreturned : s.Returned now done t.batch ⟨e.timer, w.sequence_⟩
          { w with expiration_ := addTime now w.interval_ } :=
        ⟨w, hin, hle, by simpa using hrepeat, hno, hentry ▸ hout, rfl⟩
      exact hfreed _ ((h.registered _ _).mpr (Or.inr (Or.inr hreturned))) halive

theorem step_cancel (h : InRound s now done t) (hs : s.Good) (ht : t.Good)
    (hr : run step s (.handleRead now :: done) = some t) (id : TimerId) :
    InRound s now (done ++ [.cancel id]) (t.cancel id) := by
  have hc : ∀ q', t.queue.cancelInLoop id = .ok q' → Cancelled t.queue q' id := by
    intro q' hq'
    obtain ⟨q'', heq, -, hc⟩ := ht.consistent.cancelInLoop_ok id
    cases hq'.symm.trans heq
    exact hc
  have hinactive (u : Timer) (hreg : t.queue.Registered id u) : id.active ∈ t.queue.activeTimers_ :=
    (ht.consistent.registered_iff.mp hreg).2.2
  rcases ht.consistent.cancelInLoop_cases id with ⟨hmem, u, hu, hn, heq⟩ | ⟨hmem, hcall, heq⟩ |
    ⟨hmem, hcall, heq⟩
  · have hout : ∀ e ∈ t.batch, e.timer ≠ id.timer_ := by
      intro e he hid
      obtain ⟨w, hw, hactive⟩ := ht.batch_alive he
      rw [hid, hu, Option.some.injEq] at hw
      rw [← hw, hn, hid] at hactive
      exact hactive hmem
    refine h.cancelled hr hs ht heq (fun e he => ?_) (fun e he w _ _ => ?_) (fun id' u' => ?_)
      (hc _ heq) (fun _ _ => ?_)
    · simp [TimerQueue.release, TimerQueue.removed, hout e he]
    · have hne : (⟨e.timer, w.sequence_⟩ : TimerId) ≠ id := fun hid =>
        hout e he (congrArg TimerId.timer_ hid)
      exact (or_iff_left fun hcancel => hne hcancel.1).symm
    · rw [registered_cancelled hu, hn]
    · rintro ⟨u', hu', -⟩
      simp [TimerQueue.release] at hu'
  · refine h.cancelled hr hs ht heq (fun e he => rfl) (fun e he w _ _ => ?_) (fun id' u' => ?_)
      (hc _ heq) (fun u hreg => absurd (hinactive u hreg) hmem)
    · have hsame : toLex (e.timer, w.sequence_) = id.active ↔ ⟨e.timer, w.sequence_⟩ = id := by
        cases id
        simp [TimerId.active]
      have hrec : Recorded id t (.cancel id) := fun _ _ => hcall
      rw [OrderedSet.mem_insert, hsame, or_comm, and_iff_left hrec]
    · refine (registered_congr rfl rfl id' u').trans (iff_self_and.mpr ?_)
      rintro hreg rfl
      exact hmem (hinactive u' hreg)
  · refine h.cancelled hr hs ht heq (fun e he => rfl) (fun e he w hw hrepeat => ?_)
      (fun id' u' => ?_) (hc _ heq) (fun u hreg => absurd (hinactive u hreg) hmem)
    · -- Nothing is recorded: where `reset` is to put the Timer back, the cancel has no effect.
      refine (or_iff_left_of_imp ?_).symm
      rintro ⟨rfl, hrec⟩
      by_contra hno
      have hreturning := mem_returning.mpr ⟨e, he, w, ⟨(h.kept e he).trans hw, hrepeat, hno⟩, rfl⟩
      cases hcall.symm.trans (hrec rfl hreturning)
    · refine iff_self_and.mpr ?_
      rintro hreg rfl
      exact hmem (hinactive u' hreg)

theorem step_runTimer (h : InRound s now done t) (hs : s.Good) (ht : t.Good)
    (hr : run step s (.handleRead now :: done) = some t) (hstep : t.runTimer = some t') :
    InRound s now (done ++ [.runTimer]) t' := by
  obtain ⟨stage, rest, events, hrest, htrace, hstarted⟩ := h.progress
  obtain ⟨now', expired, it, rest', w, hround, hw, rfl, -⟩ := runTimer_ok ht hstep
  cases hrest.symm.trans hround
  have hbatch : t.batch = s.queue.timers_.below (sentry now) := batch_of_round hround
  have hit : it ∈ t.batch := hbatch ▸ (ht.rest_suffix _ hround).subset List.mem_cons_self
  have hids : ids s.queue (it :: rest') = ⟨it.timer, w.sequence_⟩ :: ids s.queue rest' := by
    rw [h.kept it hit] at hw
    simp [ids, hw]
  refine h.frame hr ⟨.calling, rest', .started ⟨it.timer, w.sequence_⟩ :: events, rfl, ?_, ?_⟩
    hbatch.symm (fun _ _ => rfl) rfl (Nat.le_refl _) (fun _ _ => Iff.rfl) (fun _ => Or.inl)
    (fun _ => rfl) hs (by simp) (by simp [Adds])
  · rw [List.cons_append, ← htrace]
  · have hstarted : (startedIds events).reverse ++ ids s.queue (it :: rest') = _ := hstarted
    rw [← hstarted, hids]
    change (startedIds (_ :: events)).reverse ++ ids s.queue rest' = _
    simp [startedIds, TimerEvent.startedId]

theorem step_reset (h : InRound s now done t) (hs : s.Good) (ht : t.Good)
    (hr : run step s (.handleRead now :: done) = some t) (hstep : t.reset = some t') :
    InRound s now (done ++ [.reset]) t' := by
  obtain ⟨stage, rest, events, hrest, htrace, hstarted⟩ := h.progress
  obtain ⟨now', expired, hround, rfl, -⟩ := reset_ok ht hstep
  cases hrest.symm.trans hround
  have hbatch : t.batch = s.queue.timers_.below (sentry now) := batch_of_round hround
  exact h.frame hr ⟨_, _, events, rfl, htrace, hstarted⟩ hbatch.symm (fun _ _ => rfl) rfl
    (Nat.le_refl _) (fun id u => registered_congr rfl rfl id u) (fun _ => Or.inl)
    (fun hne => absurd rfl hne) hs (by simp) (by simp [Adds])

theorem step_endDelete (h : InRound s now done t) (hs : s.Good) (ht : t.Good)
    (hr : run step s (.handleRead now :: done) = some t) (hstep : t.endDelete = some t') :
    InRound s now (done ++ [.endDelete]) t' := by
  obtain ⟨stage, rest, events, hrest, htrace, hstarted⟩ := h.progress
  obtain ⟨now', expired, timer, rest', hround, rfl, -⟩ := endDelete_ok ht hstep
  cases hrest.symm.trans hround
  have hbatch : t.batch = rest := batch_of_round hround
  exact h.frame hr ⟨_, _, events, rfl, htrace, hstarted⟩ hbatch.symm (fun _ _ => rfl) rfl
    (Nat.le_refl _) (fun _ _ => Iff.rfl) (fun _ => Or.inl) (fun _ => rfl) hs (by simp)
    (by simp [Adds])

theorem putsBack_iff (h : InRound s now done t) {e : Entry} (he : e ∈ t.batch) (u : Timer) :
    t.queue.putsBack e u ↔ s.queue.heap e.timer = some u ∧ u.repeat_ = true ∧
      ¬ s.EffectiveCancel now done ⟨e.timer, u.sequence_⟩ := by
  rw [putsBack, h.kept e he]
  refine and_congr_right fun hu => and_congr_right fun hrepeat => ?_
  rw [h.marked e he u hu hrepeat]

/-- One entry further, `reset` has put back what it had, and the Timer of the entry if it is
repeated and not cancelled. -/
theorem returned_cons (h : InRound s now done t) (hs : s.Good) (ht : t.Good) {it : Entry}
    {rest : List Entry} (hbatch : t.batch = it :: rest) (hnew : it ∉ rest) (id : TimerId)
    (u : Timer) : s.Returned now done rest id u ↔ s.Returned now done (it :: rest) id u ∨
      ∃ w, t.queue.putsBack it w ∧ id = ⟨it.timer, w.sequence_⟩ ∧ u = w.restart now := by
  have hit : it ∈ t.batch := hbatch ▸ List.mem_cons_self
  have hdue := (h.batch_subset ht).subset hit
  constructor
  · rintro ⟨w, hreg, hle, hrepeat, hno, hout, rfl⟩
    by_cases hsame : toLex (w.expiration_, id.timer_) = it
    · right
      obtain ⟨a, n⟩ := id
      obtain ⟨hw, rfl, -⟩ := hreg
      subst hsame
      refine ⟨w, (h.putsBack_iff hit w).mpr ⟨hw, hrepeat, hno⟩, rfl, ?_⟩
      rw [Timer.restart, if_pos hrepeat]
    · left
      exact ⟨w, hreg, hle, hrepeat, hno, List.not_mem_cons_of_ne_of_not_mem hsame hout, rfl⟩
  · rintro (⟨w, hreg, hle, hrepeat, hno, hout, rfl⟩ | ⟨w, hputs, rfl, rfl⟩)
    · exact ⟨w, hreg, hle, hrepeat, hno, List.not_mem_of_not_mem_cons hout, rfl⟩
    · obtain ⟨hw, hrepeat, hno⟩ := (h.putsBack_iff hit w).mp hputs
      obtain ⟨hreg, hle, hentry⟩ := (hs.consistent.mem_batch hw).mp hdue
      refine ⟨w, hreg, hle, hrepeat, hno, ?_, ?_⟩
      · rw [← hentry]
        exact hnew
      · rw [Timer.restart, if_pos hrepeat]

theorem step_resetTimer (h : InRound s now done t) (hs : s.Good) (ht : t.Good)
    (hr : run step s (.handleRead now :: done) = some t) (hstep : t.resetTimer = some t') :
    InRound s now (done ++ [.resetTimer]) t' := by
  obtain ⟨stage, rest, events, hrest, htrace, hstarted⟩ := h.progress
  obtain ⟨now', expired, it, rest', q', deleted, hround, hc, hq, hrestarted, rfl, -⟩ :=
    resetTimer_eq ht hstep
  cases hrest.symm.trans hround
  have hput := hc.resetTimer_putBack hq
  have hbatch : t.batch = it :: rest' := batch_of_round hround
  have hbatch' : TimerLoop.batch { t with
      queue := q'
      round := some ⟨now, s.queue.timers_.below (sentry now), .ofDeleted deleted, rest'⟩ } =
        rest' := by
    simp [batch, Round.batch]
  have hnew : it.timer ∉ rest'.map Entry.timer := fun hin =>
    (List.nodup_cons.mp hc.outside_nodup).1 (List.mem_append_left _ (hbatch'.symm ▸ hin))
  have hdone (id : TimerId) : .cancel id ∈ done ++ [.resetTimer] ↔ .cancel id ∈ done := by simp
  have heffect := effectiveCancel_other hr (a := .resetTimer) (fun _ => TimerAction.noConfusion)
  refine ⟨⟨_, _, events, rfl, htrace, ?_⟩, fun e he => ?_, fun e he w hw hrepeat => ?_,
    h.calling_concat fun _ => hrestarted.calling_eq, h.numbered, fun id u => ?_,
    fun e he hout w hw hgone halive => ?_⟩
  · have hstarted : (startedIds events).reverse ++ ids s.queue [] = _ := hstarted
    simpa only [Round.upcoming, Round.calling_ofDeleted, Bool.false_eq_true, if_false] using hstarted
  · rw [hbatch'] at he
    have hne : e.timer ≠ it.timer := fun hsame => hnew (hsame ▸ List.mem_map_of_mem he)
    exact (hrestarted.heap _ hne).trans (h.kept e (hbatch ▸ List.mem_cons_of_mem _ he))
  · rw [hbatch'] at he
    rw [heffect]
    change _ ∈ q'.cancelingTimers_ ↔ _
    rw [hrestarted.canceling_eq]
    exact h.marked e (hbatch ▸ List.mem_cons_of_mem _ he) w hw hrepeat
  · have hit : it ∉ rest' := fun hin => hnew (List.mem_map_of_mem hin)
    have hadded : s.Added now (done ++ [.resetTimer]) id u ↔ s.Added now done id u := by
      rw [added_concat hr]
      simp [Adds]
    have hreturned : s.Returned now (done ++ [.resetTimer]) rest' id u ↔
        s.Returned now done rest' id u := by
      simp only [Returned, heffect]
    rw [hbatch', hdone, hadded, hreturned, h.returned_cons hs ht hbatch hit, ← hbatch]
    change q'.Registered id u ↔ _
    rw [hput.registered, h.registered, or_assoc, or_assoc]
  · rw [hbatch'] at hout
    rw [heffect] at hgone
    by_cases hsame : e = it
    · subst hsame
      have hnone : q'.heap e.timer = none := by
        refine hput.deleted fun u hputs => ?_
        obtain ⟨hu, hrepeat, hno⟩ := (h.putsBack_iff (hbatch ▸ List.mem_cons_self) u).mp hputs
        cases hw.symm.trans hu
        rcases hgone with hone | hcancel
        · cases hone.symm.trans hrepeat
        · exact hno hcancel
      obtain ⟨u, hu, -⟩ := halive
      cases hnone.symm.trans hu
    · refine h.gone e he ?_ w hw hgone (hrestarted.keeps _ halive)
      rw [hbatch]
      exact List.not_mem_cons_of_ne_of_not_mem hsame hout

/-- What any step in the middle of a round does to it. -/
theorem step (h : InRound s now done t) (hs : s.Good) (ht : t.Good)
    (hr : run TimerLoop.step s (.handleRead now :: done) = some t) (hstep : t.step a = some t')
    (hend : ∀ clock, a ≠ .endRead clock) : InRound s now (done ++ [a]) t' := by
  obtain ⟨stage, rest, -, hrest, -⟩ := h.progress
  obtain ⟨-, hact⟩ := step_eq_some.mp hstep
  cases a with
  | addTimer timer others when interval clock =>
    obtain ⟨-, hact⟩ := Option.ite_none_right_eq_some.mp hact
    exact h.step_addTimer hs ht hr hstep hact
  | cancel id =>
    obtain ⟨-, hact⟩ := Option.ite_none_right_eq_some.mp hact
    cases hact
    exact h.step_cancel hs ht hr id
  | construct timer others when interval =>
    obtain ⟨id, u, hfree, hn, hnum, rfl, -⟩ := construct_ok ht hact
    refine h.frame hr (h.progress_same [] rfl rfl rfl) rfl (fun e he => ?_) rfl
      (Nat.le_of_lt hnum) (fun id u => registered_store (ht.consistent.vacant_free hfree) _ id u)
      (fun id' hid' => ?_) (fun _ => rfl) hs (by simp) (by simp [Adds])
    · simp [TimerQueue.store, ne_of_free ht he hfree]
    · refine ((alive_store hfree).mp hid').imp_right ?_
      rintro rfl
      rwa [hn]
  | queueTimer id =>
    obtain ⟨-, -, rfl, -⟩ := queueTimer_ok ht hact
    exact h.frame_queue hr hs [] rfl rfl rfl rfl rfl (by simp) (by simp [Adds])
  | returnTimer id =>
    obtain ⟨-, -, ⟨-, rfl⟩ | ⟨-, rfl⟩⟩ := returnTimer_ok ht hact
    · exact h.frame_queue hr hs [.returned id] rfl rfl rfl rfl rfl (by simp) (by simp [Adds])
    · exact h.frame_queue hr hs [] rfl rfl rfl rfl rfl (by simp) (by simp [Adds])
  | queueCancel id =>
    cases hact
    exact h.frame_queue hr hs [] rfl rfl rfl rfl rfl (by simp) (by simp [Adds])
  | handleRead now' => simp [act, TimerLoop.handleRead, hrest] at hact
  | runTimer => exact h.step_runTimer hs ht hr hact
  | reset => exact h.step_reset hs ht hr hact
  | resetTimer => exact h.step_resetTimer hs ht hr hact
  | endDelete => exact h.step_endDelete hs ht hr hact
  | endRead clock => exact absurd rfl (hend clock)
  | loop a => simp [act, loopAct, hrest] at hact
  | runFunctor clock => simp [act, hrest] at hact

theorem of_run {mid : List TimerAction} (h : s.Good) (hmid : ∀ clock, .endRead clock ∉ mid)
    (hr : run TimerLoop.step s (.handleRead now :: mid) = some t) : InRound s now mid t := by
  induction mid using List.reverseRecOn generalizing t with
  | nil =>
    obtain ⟨t', hs, hr⟩ := run_cons_eq_some.mp hr
    cases hr
    exact inRound_handleRead h (step_eq_some.mp hs).2
  | append_singleton done a ih =>
    rw [← List.cons_append, run_append, Option.bind_eq_some_iff] at hr
    obtain ⟨t₀, hr₀, hr⟩ := hr
    obtain ⟨t₁, hs, hr⟩ := run_cons_eq_some.mp hr
    cases hr
    have hgood : t₀.Good := run_invariant (fun _ _ _ hg hs => hg.step hs) h hr₀
    have hin := ih (fun clock hin => hmid clock (List.mem_append_left _ hin)) hr₀
    refine hin.step h hgood hr₀ hs ?_
    rintro clock rfl
    exact hmid clock (List.mem_append_right _ (List.mem_singleton_self _))

/-- A cancel before `reset` begins has its effect. -/
theorem effectiveCancel {before after : List TimerAction} {id : TimerId} (hs : s.Good)
    (hmid : ∀ clock, .endRead clock ∉ before ++ .cancel id :: after)
    (hr : run TimerLoop.step s (.handleRead now :: (before ++ .cancel id :: after)) = some t)
    (hno : .reset ∉ before) : s.EffectiveCancel now (before ++ .cancel id :: after) id := by
  rw [← List.cons_append, run_append, Option.bind_eq_some_iff] at hr
  obtain ⟨t₀, hr₀, -⟩ := hr
  have h := of_run hs (fun clock hin => hmid clock (List.mem_append_left _ hin)) hr₀
  exact ⟨before, after, t₀, rfl, hr₀, fun _ _ => h.calling hno⟩

/-- The last step of the round. -/
theorem endRead (h : InRound s now done t) (ht : t.Good) {clock : Timestamp}
    (hs : t.endRead clock = some t') :
    t.round = some ⟨now, s.queue.timers_.below (sentry now), .resetting, []⟩ ∧ t.batch = [] ∧
      t'.trace = t.trace ∧ (∀ id u, t'.queue.Registered id u ↔ t.queue.Registered id u) ∧
      t'.queue.heap = t.queue.heap := by
  obtain ⟨stage, rest, -, hrest, -⟩ := h.progress
  obtain ⟨now', expired, fd, hround, rfl, -⟩ := endRead_ok ht hs
  cases hrest.symm.trans hround
  exact ⟨hround, batch_of_round hround, rfl, fun id u => registered_congr rfl rfl id u, rfl⟩

end InRound

/-! ## The way to the end of a round -/

/-- The steps that `handleRead` takes on its own account bring it to its last. -/
def Ends (t : TimerLoop) : Prop :=
  ∃ as, as ⊆ [TimerAction.runTimer, .reset, .resetTimer, .endDelete] ∧
    ∀ clock, ∃ t', run step t (as ++ [.endRead clock]) = some t'

theorem Ends.of_act {t t' : TimerLoop} {a : TimerAction} (hf : t.fault = none)
    (ha : a ∈ [TimerAction.runTimer, .reset, .resetTimer, .endDelete]) (hs : t.act a = some t')
    (h : t'.Ends) : t.Ends := by
  obtain ⟨as, has, hend⟩ := h
  refine ⟨a :: as, List.cons_subset.mpr ⟨ha, has⟩, fun clock => ?_⟩
  obtain ⟨t'', hr⟩ := hend clock
  exact ⟨t'', run_cons_eq_some.mpr ⟨t', step_eq_some.mpr ⟨hf, hs⟩, hr⟩⟩

theorem Good.ends_deleting {t : TimerLoop} {now : Timestamp} {expired rest : List Entry}
    {timer : ℕ} (h : t.Good) (hf : t.fault = none)
    (hround : t.round = some ⟨now, expired, .deleting timer, rest⟩)
    (hends : ∀ u : TimerLoop, u.Good → u.fault = none →
      u.round = some ⟨now, expired, .resetting, rest⟩ → u.Ends) : t.Ends := by
  obtain ⟨t', hs⟩ : ∃ t', t.endDelete = some t' := by simp [endDelete, hround]
  obtain ⟨now', expired', timer', rest', hround', rfl, hgood⟩ := endDelete_ok h hs
  cases hround.symm.trans hround'
  exact Ends.of_act (a := .endDelete) hf (by simp) hs (hends _ hgood hf rfl)

theorem Good.ends_resetting {t : TimerLoop} {now : Timestamp} {expired : List Entry}
    (rest : List Entry) (h : t.Good) (hf : t.fault = none)
    (hround : t.round = some ⟨now, expired, .resetting, rest⟩) : t.Ends := by
  induction rest generalizing t with
  | nil =>
    refine ⟨[], List.nil_subset _, fun clock => ?_⟩
    simp [TimerLoop.step, hf, TimerLoop.act, TimerLoop.endRead, hround]
  | cons it rest ih =>
    obtain ⟨t', hs⟩ : ∃ t', t.resetTimer = some t' := by simp [resetTimer, hround]
    obtain ⟨now', expired', it', rest', q', deleted, hround', -, rfl, hgood⟩ := resetTimer_ok h hs
    cases hround.symm.trans hround'
    refine Ends.of_act (a := .resetTimer) hf (by simp) hs ?_
    cases deleted with
    | none => exact ih hgood hf rfl
    | some timer => exact hgood.ends_deleting hf rfl fun u hu huf hur => ih hu huf hur

theorem Good.ends_calling {t : TimerLoop} {now : Timestamp} {expired : List Entry}
    (rest : List Entry) (h : t.Good) (hf : t.fault = none)
    (hround : t.round = some ⟨now, expired, .calling, rest⟩) : t.Ends := by
  induction rest generalizing t with
  | nil =>
    obtain ⟨t', hs⟩ : ∃ t', t.reset = some t' := by simp [TimerLoop.reset, hround]
    obtain ⟨now', expired', hround', rfl, hgood⟩ := reset_ok h hs
    cases hround.symm.trans hround'
    exact Ends.of_act (a := .reset) hf (by simp) hs (hgood.ends_resetting _ hf rfl)
  | cons it rest ih =>
    obtain ⟨t', hs⟩ : ∃ t', t.runTimer = some t' := by simp [runTimer, hround]
    obtain ⟨now', expired', it', rest', w, hround', -, rfl, hgood⟩ := runTimer_ok h hs
    cases hround.symm.trans hround'
    exact Ends.of_act (a := .runTimer) hf (by simp) hs (ih hgood hf rfl)

theorem Good.ends {t : TimerLoop} {r : Round} (h : t.Good) (hf : t.fault = none)
    (hround : t.round = some r) : t.Ends := by
  obtain ⟨now, expired, stage, rest⟩ := r
  cases stage with
  | calling => exact h.ends_calling rest hf hround
  | resetting => exact h.ends_resetting rest hf hround
  | deleting timer =>
    exact h.ends_deleting hf hround fun u hu huf hur => hu.ends_resetting rest huf hur

/-- One expiry round. Whatever happens between the first line of `handleRead` and its last,
the round can be brought to its end. It has then run the callbacks of exactly the Timers that
were registered and due when it began, each once and in the order of their expirations; and
`timers_` holds exactly the Timers that were not due, those that callbacks have added, less
all that were cancelled, and the repeated Timers of the batch that were not cancelled, with
their next expiration. The other Timers of the batch are deleted. The cancels of callbacks
all have this effect; one that is made in a destructor that `reset` runs has none where the
Timer is still to be put back. -/
theorem expiry_round {as mid : List TimerAction} {s t : TimerLoop} {now : Timestamp}
    (hr : run step start as = some s) (hmid : ∀ clock, .endRead clock ∉ mid)
    (hround : run step s (.handleRead now :: mid) = some t) :
    (t.fault = none → t.Ends) ∧
    (∀ before after id, mid = before ++ .cancel id :: after → .reset ∉ before →
      s.EffectiveCancel now mid id) ∧
    ∀ clock s', t.step (.endRead clock) = some s' →
      (∃ events, s'.trace = events ++ s.trace ∧ (startedIds events).Nodup ∧
        (∀ id, id ∈ startedIds events ↔ ∃ u, s.queue.Registered id u ∧ u.expiration_ ≤ now) ∧
        (startedIds events).reverse.Pairwise fun i j => ∀ u v, s.queue.Registered i u →
          s.queue.Registered j v → u.expiration_ ≤ v.expiration_) ∧
      (∀ id u, s'.queue.Registered id u ↔
        (s.queue.Registered id u ∧ now < u.expiration_ ∧ .cancel id ∉ mid) ∨
        s.Added now mid id u ∨
        ∃ w, s.queue.Registered id w ∧ w.expiration_ ≤ now ∧ w.repeat_ = true ∧
          ¬ s.EffectiveCancel now mid id ∧
          u = { w with expiration_ := addTime now w.interval_ }) ∧
      (∀ e ∈ s'.queue.timers_, ∃ id u,
        s'.queue.Registered id u ∧ e = toLex (u.expiration_, id.timer_)) ∧
      ∀ id w, s.queue.Registered id w → w.expiration_ ≤ now →
        w.repeat_ = false ∨ s.EffectiveCancel now mid id → ¬ s'.queue.Alive id := by
  have hgood := good_run hr
  have ht : t.Good := run_invariant (fun _ _ _ hg hs => hg.step hs) hgood hround
  have h := InRound.of_run hgood hmid hround
  obtain ⟨stage, rest, events, hrest, htrace, hstarted⟩ := h.progress
  refine ⟨fun hf => ht.ends hf hrest, fun before after id hsplit hno => ?_, fun clock s' hs => ?_⟩
  · subst hsplit
    exact InRound.effectiveCancel hgood hmid hround hno
  have hgood' := ht.step hs
  obtain ⟨hdone, hbatch, htrace', hreg, hheap⟩ := h.endRead ht (step_eq_some.mp hs).2
  cases hrest.symm.trans hdone
  have hids : (startedIds events).reverse = ids s.queue (s.queue.timers_.below (sentry now)) := by
    rw [← hstarted]
    exact (List.append_nil _).symm
  have hpairwise := pairwise_ids_batch hgood now
  rw [← hids] at hpairwise
  refine ⟨⟨events, htrace'.trans htrace, ?_, fun id => ?_, hpairwise.imp fun hij => hij.2⟩,
    fun id u => ?_, fun e he => ?_, fun id w hin hle hgone => ?_⟩
  · exact List.nodup_reverse.mp (hpairwise.imp fun hij => hij.1)
  · rw [← List.mem_reverse, hids, mem_ids_batch hgood]
  · rw [hreg, h.registered, Returned, hbatch]
    simp only [List.not_mem_nil, not_false_eq_true, true_and]
  · obtain ⟨u, hu, hwhen, -⟩ := (hgood'.consistent.mem_timers (ofLex e).1 e.timer).mp he
    have hentry : e = toLex (u.expiration_, e.timer) := ofLex.injective (Prod.ext hwhen.symm rfl)
    exact ⟨⟨e.timer, u.sequence_⟩, u, ⟨hu, rfl, hentry ▸ he⟩, hentry⟩
  · obtain ⟨a, n⟩ := id
    obtain ⟨hw, rfl, hmem⟩ := hin
    have he : toLex (w.expiration_, a) ∈ s.queue.timers_.below (sentry now) :=
      (hgood.consistent.mem_batch (e := toLex (w.expiration_, a)) hw).mpr ⟨⟨hw, rfl, hmem⟩, hle, rfl⟩
    have hout : toLex (w.expiration_, a) ∉ t.batch := hbatch ▸ List.not_mem_nil
    rintro ⟨u, hu, hn⟩
    exact h.gone _ he hout w hw hgone ⟨u, hheap ▸ hu, hn⟩

/-- Two Timers are due; the callbacks add one that is due as well, and cancel one that is
not; the destructor of the second callback adds another one. -/
theorem expiry_round_edited : ∃ s t s', run step start
      [.addTimer 8 0 5 ⟨true, 3⟩ 0, .addTimer 16 0 10 ⟨false, 0⟩ 0, .addTimer 24 0 30 ⟨false, 0⟩ 0,
        .loop .poll] = some s ∧
    run step s [.handleRead 10, .runTimer, .addTimer 32 0 7 ⟨false, 0⟩ 10, .cancel ⟨24, 3⟩,
      .runTimer, .reset, .resetTimer, .resetTimer, .addTimer 40 0 9 ⟨false, 0⟩ 11, .endDelete] =
        some t ∧
    t.step (.endRead 11) = some s' ∧
    s'.queue.timers_.toList = [toLex (7, 32), toLex (9, 40), toLex (13, 8)] ∧
    ∃ events, s'.trace = events ++ s.trace ∧ (startedIds events).Nodup ∧
      ∀ id, id ∈ startedIds events ↔ ∃ u, s.queue.Registered id u ∧ u.expiration_ ≤ 10 := by
  obtain ⟨s, hr, hrest⟩ : ∃ s, run step start
      [.addTimer 8 0 5 ⟨true, 3⟩ 0, .addTimer 16 0 10 ⟨false, 0⟩ 0,
        .addTimer 24 0 30 ⟨false, 0⟩ 0, .loop .poll] = some s ∧
      (run step s ([.handleRead 10, .runTimer, .addTimer 32 0 7 ⟨false, 0⟩ 10, .cancel ⟨24, 3⟩,
        .runTimer, .reset, .resetTimer, .resetTimer, .addTimer 40 0 9 ⟨false, 0⟩ 11,
        .endDelete] ++ [.endRead 11])).map (fun s' => s'.queue.timers_.toList) =
      some [toLex (7, 32), toLex (9, 40), toLex (13, 8)] :=
    Option.map_eq_some_iff.mp (by decide +kernel)
  obtain ⟨s', hr', htimers⟩ := Option.map_eq_some_iff.mp hrest
  rw [run_append, Option.bind_eq_some_iff] at hr'
  obtain ⟨t, hround, hr'⟩ := hr'
  obtain ⟨_, hs, hr'⟩ := run_cons_eq_some.mp hr'
  cases hr'
  obtain ⟨-, -, hended⟩ := expiry_round hr (by simp) hround
  obtain ⟨⟨events, htrace, hnodup, hmem, -⟩, -⟩ := hended 11 s' hs
  exact ⟨s, t, s', hr, hround, hs, htimers, events, htrace, hnodup, hmem⟩

end TimerLoop

end ReactorNet
