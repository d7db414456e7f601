import ReactorNet.TimerLoopInvariant

/-!
# Cancelling a timer

What a cancel of an id achieves, in the loop thread and across threads. An id that
has left the queue for good stays out of it whatever happens later; a cancel gets it
there, provided the Timer is not still waiting to be inserted or to be run.
-/
namespace ReactorNet.TimerLoop

open TimerQueue GuardedRuns

/-! ## The steps of `handleRead` -/

/-- The Timers of the batch that are still to be run. -/
def upcoming (s : TimerLoop) : List TimerId :=
  match s.round with
  | some r =>
    r.upcoming.filterMap fun e => (s.queue.heap e.timer).map fun t => ⟨e.timer, t.sequence_⟩
  | none => []

theorem mem_upcoming {s : TimerLoop} {id : TimerId} : id ∈ s.upcoming ↔
    ∃ r ∈ s.round, ∃ e ∈ r.upcoming, e.timer = id.timer_ ∧ s.queue.Alive id := by
  cases hround : s.round with
  | none => simp [upcoming, hround]
  | some r =>
    simp only [upcoming, hround, List.mem_filterMap, Option.map_eq_some_iff, Option.mem_def,
      Option.some.injEq, exists_eq_left']
    constructor
    · rintro ⟨e, he, t, ht, rfl⟩
      exact ⟨e, he, rfl, t, ht, rfl⟩
    · rintro ⟨e, he, htimer, t, ht, hn⟩
      exact ⟨e, he, t, htimer ▸ ht, by rw [htimer, hn]⟩

/-- The steps of the loop thread from the first line of `handleRead` to its end. -/
def ofRound : TimerAction → Bool
  | .handleRead _ | .runTimer | .reset | .resetTimer | .endDelete | .endRead _ => true
  | _ => false

/-- A step of `handleRead` changes the queue and the round alone, and starts at most one
callback. -/
theorem Good.round_step {s s' : TimerLoop} {a : TimerAction} (h : s.Good) (ha : ofRound a = true)
    (hs : s.act a = some s') :
    ∃ q' round events, s' = { s with queue := q', round := round, trace := events ++ s.trace } ∧
      (events = [] ∨ ∃ id ∈ s.upcoming, events = [.started id]) := by
  cases a with
  | handleRead now =>
    obtain ⟨q', expired, -, -, -, -, rfl, -⟩ := handleRead_ok h hs
    exact ⟨q', _, [], rfl, Or.inl rfl⟩
  | runTimer =>
    obtain ⟨now, expired, it, rest, t, hround, ht, rfl, -⟩ := runTimer_ok h hs
    refine ⟨s.queue, _, [.started ⟨it.timer, t.sequence_⟩], rfl, Or.inr ⟨_, ?_, rfl⟩⟩
    exact mem_upcoming.mpr ⟨_, hround, it, List.mem_cons_self .., rfl, t, ht, rfl⟩
  | reset =>
    obtain ⟨now, expired, -, rfl, -⟩ := reset_ok h hs
    exact ⟨_, _, [], rfl, Or.inl rfl⟩
  | resetTimer =>
    obtain ⟨now, expired, it, rest, q', deleted, -, -, rfl, -⟩ := resetTimer_ok h hs
    exact ⟨q', _, [], rfl, Or.inl rfl⟩
  | endDelete =>
    obtain ⟨now, expired, timer, rest, -, rfl, -⟩ := endDelete_ok h hs
    exact ⟨s.queue, _, [], rfl, Or.inl rfl⟩
  | endRead clock =>
    obtain ⟨now, expired, fd, -, rfl, -⟩ := endRead_ok h hs
    exact ⟨_, none, [], rfl, Or.inl rfl⟩
  | _ => cases ha

/-! ## Ids that have been given out -/

/-- The ids that callers know or will know are not those of unfinished constructions. -/
structure Issued (s : TimerLoop) : Prop where
  handedOver : ∀ id ∈ s.handedOver, id.sequence_ ≤ s.s_numCreated_ ∧ id ∉ s.constructed
  returned : ∀ id, .returned id ∈ s.trace → id.sequence_ ≤ s.s_numCreated_ ∧ id ∉ s.constructed

theorem issued_start : start.Issued := ⟨fun _ h => (List.not_mem_nil h).elim,
  fun _ h => (List.not_mem_nil h).elim⟩

theorem Good.constructed_le {s : TimerLoop} (h : s.Good) {id : TimerId} (hid : id ∈ s.constructed) :
    id.sequence_ ≤ s.s_numCreated_ :=
  h.created id (h.named id (List.mem_append_left _ hid))

theorem Good.constructed_nodup {s : TimerLoop} (h : s.Good) : s.constructed.Nodup := by
  have hadds := List.Nodup.of_append_right h.consistent.outside_nodup
  exact List.Nodup.of_append_left hadds.of_map

/-- A step with no new event of a return and no change of the calls in other threads. -/
theorem Issued.frame {s s' : TimerLoop} (h : s.Issued) (hh : s'.handedOver = s.handedOver)
    (hc : s'.constructed = s.constructed) (hn : s'.s_numCreated_ = s.s_numCreated_)
    (ht : ∀ id, .returned id ∈ s'.trace → .returned id ∈ s.trace) : s'.Issued where
  handedOver id hid := by
    rw [hc, hn]
    exact h.handedOver id (hh ▸ hid)
  returned id hid := by
    rw [hc, hn]
    exact h.returned id (ht id hid)

theorem Issued.step {s s' : TimerLoop} {a : TimerAction} (h : s.Issued) (hg : s.Good)
    (hs : s.step a = some s') : s'.Issued := by
  obtain ⟨-, hs⟩ := step_eq_some.mp hs
  cases a with
  | addTimer timer others when interval clock =>
    obtain ⟨-, hs⟩ := Option.ite_none_right_eq_some.mp hs
    obtain ⟨id, _, _, -, -, hnum, -, -, rfl, -⟩ := addTimer_ok hg hs
    refine ⟨fun id' hid' => ?_, fun id' hid' => ?_⟩
    · exact (h.handedOver id' hid').imp_left fun hle => Nat.le_trans hle (Nat.le_of_lt hnum)
    · simp only [List.cons_append, List.nil_append, List.mem_cons, TimerEvent.returned.injEq,
        reduceCtorEq, false_or] at hid'
      rcases hid' with rfl | hid'
      · exact ⟨Nat.le_refl _, fun hin => Nat.not_le_of_lt hnum (hg.constructed_le hin)⟩
      · exact (h.returned id' hid').imp_left fun hle => Nat.le_trans hle (Nat.le_of_lt hnum)
  | cancel id =>
    obtain ⟨-, hs⟩ := Option.ite_none_right_eq_some.mp hs
    obtain ⟨_, -, -, heq, -⟩ := cancel_ok hg id
    cases hs
    rw [heq]
    exact h.frame rfl rfl rfl fun id' hid' => by simpa using hid'
  | construct timer others when interval =>
    obtain ⟨id, _, -, -, hnum, rfl, -⟩ := construct_ok hg hs
    have hne {id' : TimerId} (hle : id'.sequence_ ≤ s.s_numCreated_) : id' ≠ id := by
      rintro rfl
      exact Nat.not_le_of_lt hnum hle
    refine ⟨fun id' hid' => ?_, fun id' hid' => ?_⟩
    · obtain ⟨hle, hout⟩ := h.handedOver id' hid'
      exact ⟨Nat.le_trans hle (Nat.le_of_lt hnum), List.not_mem_cons_of_ne_of_not_mem (hne hle) hout⟩
    · obtain ⟨hle, hout⟩ := h.returned id' hid'
      exact ⟨Nat.le_trans hle (Nat.le_of_lt hnum), List.not_mem_cons_of_ne_of_not_mem (hne hle) hout⟩
  | queueTimer id =>
    obtain ⟨hin, -, rfl, -⟩ := queueTimer_ok hg hs
    refine ⟨fun id' hid' => ?_, fun id' hid' => ?_⟩
    · rcases List.mem_cons.mp hid' with rfl | hid'
      · exact ⟨hg.constructed_le hin, hg.constructed_nodup.not_mem_erase⟩
      · exact (h.handedOver id' hid').imp_right fun hout hin' => hout (List.mem_of_mem_erase hin')
    · exact (h.returned id' hid').imp_right fun hout hin' => hout (List.mem_of_mem_erase hin')
  | returnTimer id =>
    obtain ⟨hin, -, ⟨-, rfl⟩ | ⟨-, rfl⟩⟩ := returnTimer_ok hg hs
    · refine ⟨fun id' hid' => h.handedOver id' (List.mem_of_mem_erase hid'), fun id' hid' => ?_⟩
      rcases List.mem_cons.mp hid' with he | hid'
      · cases he
        exact h.handedOver id hin
      · exact h.returned id' hid'
    · exact h.frame rfl rfl rfl fun _ hid => hid
  | queueCancel id =>
    cases hs
    exact h.frame rfl rfl rfl fun _ hid => hid
  | handleRead _ | runTimer | reset | resetTimer | endDelete | endRead _ =>
    obtain ⟨_, _, _, rfl, rfl | ⟨id, -, rfl⟩⟩ := hg.round_step rfl hs
    · exact h.frame rfl rfl rfl fun _ hid => hid
    · exact h.frame rfl rfl rfl fun id' hid' => by simpa using hid'
  | loop a =>
    obtain ⟨_, -, rfl, -⟩ := loopAct_ok hg hs
    exact h.frame rfl rfl rfl fun _ hid => hid
  | runFunctor clock =>
    obtain ⟨-, hs⟩ := Option.ite_none_right_eq_some.mp hs
    rcases runFunctor_ok hg hs with ⟨_, _, _, _, -, -, -, -, rfl, -⟩ | ⟨_, _, _, -, -, rfl, -⟩
    · exact h.frame rfl rfl rfl fun id' hid' => by simpa using hid'
    · exact h.frame rfl rfl rfl fun id' hid' => by simpa using hid'

/-! ## Ids that have left the queue for good -/

/-- The Timers of the batch that `reset` is to put back, as things stand. -/
def returning (s : TimerLoop) : List TimerId :=
  s.batch.filterMap fun e =>
    match s.queue.heap e.timer with
    | some t =>
      if t.repeat_ = true ∧ toLex (e.timer, t.sequence_) ∉ s.queue.cancelingTimers_ then
        some ⟨e.timer, t.sequence_⟩
      else none
    | none => none

/-- The Timer of `id` is in neither set, does not wait to be inserted, and is not to be put
back. -/
structure Retired (s : TimerLoop) (id : TimerId) : Prop where
  created : id.sequence_ ≤ s.s_numCreated_
  inactive : id.active ∉ s.queue.activeTimers_
  not_pending : id ∉ s.pendingAdds
  not_returning : id ∉ s.returning

theorem mem_returning {s : TimerLoop} {id : TimerId} : id ∈ s.returning ↔
    ∃ e ∈ s.batch, ∃ u, s.queue.putsBack e u ∧ id = ⟨e.timer, u.sequence_⟩ := by
  simp only [returning, List.mem_filterMap]
  refine exists_congr fun e => and_congr_right fun _ => ?_
  cases hu : s.queue.heap e.timer with
  | none => simp [putsBack, hu]
  | some u =>
    constructor
    · intro hid
      obtain ⟨hputs, hid⟩ := Option.ite_none_right_eq_some.mp hid
      exact ⟨u, ⟨hu, hputs⟩, (Option.some.inj hid).symm⟩
    · rintro ⟨u', ⟨hu', hputs⟩, rfl⟩
      cases hu.symm.trans hu'
      exact if_pos hputs

theorem ne_of_created {s : TimerLoop} {id id' : TimerId} (h : id.sequence_ ≤ s.s_numCreated_)
    (hnum : s.s_numCreated_ < id'.sequence_) : id ≠ id' := by
  rintro rfl
  exact Nat.not_le_of_lt hnum h

theorem ne_active {id id' : TimerId} (h : id ≠ id') : id.active ≠ id'.active := by
  intro he
  obtain ⟨hm, hn⟩ := Prod.mk.inj (toLex.injective he)
  cases id
  cases id'
  exact h (by simp_all)

theorem notMem_inserted {q : TimerQueue} {id id' : TimerId} {t : Timer}
    (hn : t.sequence_ = id'.sequence_) (hne : id ≠ id') (h : id.active ∉ q.activeTimers_) :
    id.active ∉ (q.inserted id'.timer_ t).activeTimers_ := by
  intro hmem
  rcases OrderedSet.mem_insert.mp hmem with he | hmem
  · exact ne_active hne (by rw [he, hn]; rfl)
  · exact h hmem

/-- Every Timer that `id` names in `q'` is there in `q`, as it is. -/
def Holds (q q' : TimerQueue) (id : TimerId) : Prop :=
  ∀ u, q'.heap id.timer_ = some u → u.sequence_ = id.sequence_ → q.heap id.timer_ = some u

theorem Holds.alive {q q' : TimerQueue} {id : TimerId} (h : Holds q q' id) (hid : q'.Alive id) :
    q.Alive id := by
  obtain ⟨u, hu, hn⟩ := hid
  exact ⟨u, h u hu hn, hn⟩

/-- A new Timer is not the one of another id. -/
theorem holds_store {q : TimerQueue} {id id' : TimerId} {t : Timer}
    (hn : t.sequence_ = id'.sequence_) (hne : id ≠ id') : Holds q (q.store id'.timer_ t) id := by
  intro u hu hseq
  by_cases hat : id.timer_ = id'.timer_
  · simp only [TimerQueue.store, hat, Function.update_self, Option.some.injEq] at hu
    subst hu
    cases id
    cases id'
    exact absurd (by simp_all) hne
  · simpa [TimerQueue.store, hat] using hu

/-- What `reset` is to put back, it was to put back before. -/
theorem returning_mono {s s' : TimerLoop} {id : TimerId}
    (hbatch : ∀ e ∈ s'.batch, e ∈ s.batch) (hheap : Holds s.queue s'.queue id)
    (hc : ∀ x ∈ s.queue.cancelingTimers_, x ∈ s'.queue.cancelingTimers_)
    (hin : id ∈ s'.returning) : id ∈ s.returning := by
  obtain ⟨e, he, u, ⟨hu, hrepeat, hout⟩, rfl⟩ := mem_returning.mp hin
  exact mem_returning.mpr
    ⟨e, hbatch e he, u, ⟨hheap u hu rfl, hrepeat, fun hin => hout (hc _ hin)⟩, rfl⟩

/-- A retired id stays retired and is not scheduled anew. -/
structure StaysRetired (s s' : TimerLoop) (id : TimerId) : Prop where
  retired : s'.Retired id
  upcoming : id ∈ s'.upcoming → id ∈ s.upcoming

/-- A step that changes neither the round nor what the queue says of `id`. -/
theorem Retired.frame {s s' : TimerLoop} {id : TimerId} (h : s.Retired id)
    (hnum : s.s_numCreated_ ≤ s'.s_numCreated_)
    (ha : id.active ∉ s'.queue.activeTimers_) (hp : id ∈ s'.pendingAdds → id ∈ s.pendingAdds)
    (hr : s'.round = s.round) (hheap : Holds s.queue s'.queue id)
    (hc : ∀ x ∈ s.queue.cancelingTimers_, x ∈ s'.queue.cancelingTimers_) :
    s.StaysRetired s' id where
  retired := by
    have hbatch : s'.batch = s.batch := by simp only [batch, hr]
    refine ⟨Nat.le_trans h.created hnum, ha, fun hin => h.not_pending (hp hin), fun hin => ?_⟩
    exact h.not_returning (returning_mono (fun e he => hbatch ▸ he) hheap hc hin)
  upcoming hin := by
    obtain ⟨r, hround, e, he, htimer, hid⟩ := mem_upcoming.mp hin
    exact mem_upcoming.mpr ⟨r, hr ▸ hround, e, he, htimer, hheap.alive hid⟩

theorem Cancelled.notMem {q q' : TimerQueue} {id id' : TimerId} (h : Cancelled q q' id')
    (hid : id.active ∉ q.activeTimers_) : id.active ∉ q'.activeTimers_ :=
  fun hmem => hid ((h.active id.timer_ id.sequence_).mp hmem).1

theorem Cancelled.holds {q q' : TimerQueue} {id' : TimerId} (h : Cancelled q q' id')
    (id : TimerId) : Holds q q' id := fun u hu _ => h.held id.timer_ u hu

theorem Retired.addTimer {s s' : TimerLoop} {timer others : ℕ} {when clock : Timestamp}
    {interval : Seconds} {id : TimerId} (h : s.Retired id) (hg : s.Good)
    (hs : s.addTimer timer others when interval clock = some s') : s.StaysRetired s' id := by
  obtain ⟨id', t, q', -, hn, hnum, -, hq', rfl, -⟩ := addTimer_ok hg hs
  have hne := ne_of_created h.created hnum
  refine h.frame (Nat.le_of_lt hnum) ?_ (fun hin => hin) rfl ?_ (fun x hx => ?_)
  · rw [hq']
    exact notMem_inserted hn hne h.inactive
  · rw [hq']
    exact holds_store hn hne
  · rw [hq']
    exact hx

theorem Retired.handleRead {s s' : TimerLoop} {now : Timestamp} {id : TimerId}
    (h : s.Retired id) (hg : s.Good) (hs : s.handleRead now = some s') : s.StaysRetired s' id := by
  obtain ⟨q', expired, -, hheap, hmem, hexp, rfl, -⟩ := handleRead_ok hg hs
  have hnone (e : Entry) (he : e ∈ expired) (htimer : e.timer = id.timer_)
      (hid : q'.Alive id) : False := by
    obtain ⟨n, hn⟩ := hexp e he
    obtain ⟨t, ht, hseq⟩ := hid
    rw [htimer] at hn
    have hsame : id.sequence_ = n :=
      TimerQueue.Alive.unique ⟨t, hheap ▸ ht, hseq⟩ (hg.consistent.mem_active _ n hn)
    subst hsame
    exact h.inactive hn
  refine ⟨⟨h.created, fun hin => ?_, h.not_pending, fun hin => ?_⟩, fun hin => ?_⟩
  · exact h.inactive ((hmem id.timer_ id.sequence_).mp hin).1
  · obtain ⟨e, he, u, ⟨hu, -⟩, rfl⟩ := mem_returning.mp hin
    exact hnone e he rfl ⟨u, hu, rfl⟩
  · obtain ⟨r, hround, e, he, htimer, hid⟩ := mem_upcoming.mp hin
    cases hround
    exact (hnone e he htimer hid).elim

/-- `reset` does not put a Timer back that is not to be put back. -/
theorem Retired.resetTimer {s s' : TimerLoop} {id : TimerId} (h : s.Retired id) (hg : s.Good)
    (hs : s.resetTimer = some s') : s.StaysRetired s' id := by
  obtain ⟨now, expired, it, rest, q', deleted, hround, hr, rfl, -⟩ := resetTimer_ok hg hs
  have hbatch : s.batch = it :: rest := batch_of_round hround
  have hnew : it.timer ∉ rest.map Entry.timer := by
    have hnodup := List.Nodup.of_append_left hg.consistent.outside_nodup
    rw [hbatch, List.map_cons] at hnodup
    exact (List.nodup_cons.mp hnodup).1
  refine ⟨⟨h.created, fun hin => ?_, h.not_pending, fun hin => ?_⟩, fun hin => ?_⟩
  · rcases hr.active id.timer_ id.sequence_ hin with hin | ⟨u, hputs, htimer, hn⟩
    · exact h.inactive hin
    · refine h.not_returning (mem_returning.mpr ⟨it, ?_, u, hputs, ?_⟩)
      · exact hbatch ▸ List.mem_cons_self ..
      · rw [← htimer, ← hn]
  · obtain ⟨e, he, u, ⟨hu, hrepeat, hout⟩, rfl⟩ := mem_returning.mp hin
    have he : e ∈ rest := by simpa [batch, Round.batch] using he
    have hne : e.timer ≠ it.timer := fun hsame => hnew (hsame ▸ List.mem_map_of_mem he)
    rw [hr.heap _ hne] at hu
    rw [hr.canceling_eq] at hout
    refine h.not_returning (mem_returning.mpr ⟨e, ?_, u, ⟨hu, hrepeat, hout⟩, rfl⟩)
    exact hbatch ▸ List.mem_cons_of_mem _ he
  · obtain ⟨r, hr, e, he, -⟩ := mem_upcoming.mp hin
    cases hr
    simp [Round.upcoming] at he

theorem Retired.runFunctor {s s' : TimerLoop} {clock : Timestamp} {id : TimerId}
    (h : s.Retired id) (hg : s.Good) (hs : s.runFunctor clock = some s') :
    s.StaysRetired s' id := by
  rcases runFunctor_ok hg hs with
    ⟨id', t, q', l, hq, ht, hn, hq', rfl, -⟩ | ⟨id', q', l, hq, hc, rfl, -⟩
  · have hne : id ≠ id' := by
      rintro rfl
      exact h.not_pending (List.mem_append_right _ (by simp [hq, TimerFunctor.added]))
    refine h.frame (Nat.le_refl _) ?_ (fun hin => ?_) rfl ?_ (fun x hx => ?_)
    · rw [hq']
      exact notMem_inserted hn hne h.inactive
    · simp only [pendingAdds, hq, List.filterMap_cons, TimerFunctor.added, List.mem_append,
        List.mem_cons] at hin ⊢
      exact hin.imp_right Or.inr
    · rw [hq']
      exact fun u hu _ => hu
    · rw [hq']
      exact hx
  · refine h.frame (Nat.le_refl _) (Cancelled.notMem hc h.inactive) (fun hin => ?_) rfl
      (Cancelled.holds hc id) hc.canceling
    simpa only [pendingAdds, hq, List.filterMap_cons, TimerFunctor.added] using hin

/-- A step of `handleRead` that leaves the queue's Timers alone and comes no nearer to running
or putting back a Timer. -/
theorem Retired.advance {s s' : TimerLoop} {id : TimerId} (h : s.Retired id)
    (hnum : s'.s_numCreated_ = s.s_numCreated_)
    (hactive : s'.queue.activeTimers_ = s.queue.activeTimers_)
    (hp : s'.pendingAdds = s.pendingAdds) (hheap : s'.queue.heap = s.queue.heap)
    (hc : s'.queue.cancelingTimers_ = s.queue.cancelingTimers_)
    (hbatch : ∀ e ∈ s'.batch, e ∈ s.batch)
    (hupcoming : ∀ r' ∈ s'.round, ∀ e ∈ r'.upcoming, ∃ r ∈ s.round, e ∈ r.upcoming) :
    s.StaysRetired s' id where
  retired := by
    refine ⟨hnum ▸ h.created, hactive ▸ h.inactive, hp ▸ h.not_pending, fun hin => ?_⟩
    exact h.not_returning
      (returning_mono hbatch (fun u hu _ => hheap ▸ hu) (fun x hx => hc ▸ hx) hin)
  upcoming hin := by
    obtain ⟨r', hround', e, he, htimer, u, hu, hn⟩ := mem_upcoming.mp hin
    obtain ⟨r, hround, he⟩ := hupcoming r' hround' e he
    exact mem_upcoming.mpr ⟨r, hround, e, he, htimer, u, hheap ▸ hu, hn⟩

theorem Retired.step {s s' : TimerLoop} {a : TimerAction} {id : TimerId} (h : s.Retired id)
    (hg : s.Good) (hs : s.step a = some s') : s.StaysRetired s' id := by
  obtain ⟨-, hs⟩ := step_eq_some.mp hs
  cases a with
  | addTimer timer others when interval clock =>
    obtain ⟨-, hs⟩ := Option.ite_none_right_eq_some.mp hs
    exact h.addTimer hg hs
  | cancel id' =>
    obtain ⟨-, hs⟩ := Option.ite_none_right_eq_some.mp hs
    obtain ⟨q', -, hc, heq, -⟩ := cancel_ok hg id'
    cases hs
    rw [heq]
    exact h.frame (Nat.le_refl _) (Cancelled.notMem hc h.inactive) (fun hin => hin) rfl
      (Cancelled.holds hc id) hc.canceling
  | construct timer others when interval =>
    obtain ⟨id', t, -, hn, hnum, rfl, -⟩ := construct_ok hg hs
    have hne := ne_of_created h.created hnum
    refine h.frame (Nat.le_of_lt hnum) h.inactive (fun hin => ?_) rfl (holds_store hn hne)
      (fun x hx => hx)
    exact (List.mem_cons.mp hin).resolve_left hne
  | queueTimer id' =>
    obtain ⟨-, hperm, rfl, -⟩ := queueTimer_ok hg hs
    exact h.frame (Nat.le_refl _) h.inactive hperm.mem_iff.mp rfl (fun _ hu _ => hu) (fun x hx => hx)
  | returnTimer id' =>
    obtain ⟨-, -, ⟨-, rfl⟩ | ⟨-, rfl⟩⟩ := returnTimer_ok hg hs
    · exact h.frame (Nat.le_refl _) h.inactive (fun hin => hin) rfl (fun _ hu _ => hu)
        (fun x hx => hx)
    · exact h.frame (Nat.le_refl _) h.inactive (fun hin => hin) rfl (fun _ hu _ => hu)
        (fun x hx => hx)
  | queueCancel id' =>
    cases hs
    exact h.frame (Nat.le_refl _) h.inactive (fun hin => (queueCancel_ok hg id').1 ▸ hin) rfl
      (fun _ hu _ => hu) (fun x hx => hx)
  | handleRead now => exact h.handleRead hg hs
  | runTimer =>
    obtain ⟨now, expired, it, rest, t, hround, -, rfl, -⟩ := runTimer_ok hg hs
    refine h.advance rfl rfl rfl rfl rfl (fun e he => batch_of_round hround ▸ he) ?_
    rintro r ⟨⟩ e he
    exact ⟨_, hround, List.mem_cons_of_mem it he⟩
  | reset =>
    obtain ⟨now, expired, hround, rfl, -⟩ := reset_ok hg hs
    refine h.advance rfl rfl rfl rfl rfl (fun e he => batch_of_round hround ▸ he) ?_
    rintro r ⟨⟩ e he
    cases he
  | resetTimer => exact h.resetTimer hg hs
  | endDelete =>
    obtain ⟨now, expired, timer, rest, hround, rfl, -⟩ := endDelete_ok hg hs
    refine h.advance rfl rfl rfl rfl rfl (fun e he => batch_of_round hround ▸ he) ?_
    rintro r ⟨⟩ e he
    cases he
  | endRead clock =>
    obtain ⟨now, expired, fd, -, rfl, -⟩ := endRead_ok hg hs
    refine h.advance rfl rfl rfl rfl rfl (fun e he => (List.not_mem_nil he).elim) ?_
    intro r hr
    cases hr
  | loop a =>
    obtain ⟨l, hq, rfl, -⟩ := loopAct_ok hg hs
    refine h.frame (Nat.le_refl _) h.inactive (fun hin => ?_) rfl (fun _ hu _ => hu) (fun x hx => hx)
    simpa only [pendingAdds, hq] using hin
  | runFunctor clock =>
    obtain ⟨-, hs⟩ := Option.ite_none_right_eq_some.mp hs
    exact h.runFunctor hg hs

/-- A cancel retires the id, unless its Timer still waits to be inserted or is to be put back
when no cancel is recorded any more. -/
theorem Good.retired_of_cancelled {s s' : TimerLoop} {id : TimerId} (hg : s.Good)
    (hc : Cancelled s.queue s'.queue id) (hr : s'.round = s.round)
    (hnum : id.sequence_ ≤ s'.s_numCreated_) (hp : id ∉ s'.pendingAdds)
    (hrecorded : id ∈ s.returning → s.queue.callingExpiredTimers_ = true) : s'.Retired id := by
  have hbatch : s'.batch = s.batch := by simp only [batch, hr]
  refine ⟨hnum, fun hin => ((hc.active id.timer_ id.sequence_).mp hin).2 rfl, hp, fun hin => ?_⟩
  have hcalling := hrecorded
    (returning_mono (fun e he => hbatch ▸ he) (Cancelled.holds hc id) hc.canceling hin)
  obtain ⟨e, he, u, ⟨hu, -, hout⟩, rfl⟩ := mem_returning.mp hin
  obtain ⟨t, ht, hinactive⟩ := hg.batch_alive (hbatch ▸ he)
  cases ht.symm.trans (hc.held _ u hu)
  exact hout (hc.marked hinactive hcalling)

theorem Good.retired_of_cancel {id : TimerId} {s s' : TimerLoop} (hg : s.Good)
    (hs : s.step (.cancel id) = some s') (hnum : id.sequence_ ≤ s.s_numCreated_)
    (hp : id ∉ s.pendingAdds)
    (hrecorded : id ∈ s.returning → s.queue.callingExpiredTimers_ = true) :
    s'.Retired id ∧ (id ∈ s'.upcoming → id ∈ s.upcoming) := by
  obtain ⟨-, hs⟩ := step_eq_some.mp hs
  obtain ⟨-, hs⟩ := Option.ite_none_right_eq_some.mp hs
  obtain ⟨q', -, hc, heq, -⟩ := cancel_ok hg id
  rw [heq] at hs
  cases hs
  refine ⟨hg.retired_of_cancelled hc rfl hnum hp hrecorded, fun hin => ?_⟩
  obtain ⟨r, hr, e, he, htimer, hid⟩ := mem_upcoming.mp hin
  exact mem_upcoming.mpr ⟨r, hr, e, he, htimer, hc.keeps id hid⟩

/-- The events a step leaves behind. -/
theorem Good.trace_step {s s' : TimerLoop} {a : TimerAction} (hg : s.Good)
    (hs : s.step a = some s') :
    (∃ id, a = .cancel id ∧ s'.trace = .cancelReturned id :: .cancelledInLoop id :: s.trace) ∨
    (∃ id ∈ s.upcoming, s'.trace = .started id :: s.trace) ∨
    (∃ id, s.loop.queued = .cancelInLoop id :: s'.loop.queued ∧ Cancelled s.queue s'.queue id ∧
      s.round = none ∧ s'.round = none ∧ s'.constructed = s.constructed ∧
      s'.s_numCreated_ = s.s_numCreated_ ∧ s'.trace = .cancelledInLoop id :: s.trace) ∨
    ∃ es, s'.trace = es ++ s.trace ∧ ∀ e ∈ es, ∃ id, e = .returned id ∨ e = .addedInLoop id := by
  have hsame (h : s'.trace = s.trace) : ∃ es, s'.trace = es ++ s.trace ∧
      ∀ e ∈ es, ∃ id, e = TimerEvent.returned id ∨ e = .addedInLoop id :=
    ⟨[], h, fun e he => (List.not_mem_nil he).elim⟩
  obtain ⟨-, hs⟩ := step_eq_some.mp hs
  cases a with
  | addTimer timer others when interval clock =>
    obtain ⟨-, hs⟩ := Option.ite_none_right_eq_some.mp hs
    obtain ⟨id, _, _, -, -, -, -, -, rfl, -⟩ := addTimer_ok hg hs
    exact Or.inr (Or.inr (Or.inr ⟨_, rfl, by simp⟩))
  | cancel id =>
    obtain ⟨-, hs⟩ := Option.ite_none_right_eq_some.mp hs
    obtain ⟨_, -, -, heq, -⟩ := cancel_ok hg id
    cases hs
    exact Or.inl ⟨id, rfl, by rw [heq]; rfl⟩
  | construct timer others when interval =>
    obtain ⟨_, _, -, -, -, rfl, -⟩ := construct_ok hg hs
    exact Or.inr (Or.inr (Or.inr (hsame rfl)))
  | queueTimer id =>
    obtain ⟨-, -, rfl, -⟩ := queueTimer_ok hg hs
    exact Or.inr (Or.inr (Or.inr (hsame rfl)))
  | returnTimer id =>
    obtain ⟨-, -, ⟨-, rfl⟩ | ⟨-, rfl⟩⟩ := returnTimer_ok hg hs
    · exact Or.inr (Or.inr (Or.inr ⟨[.returned id], rfl, by simp⟩))
    · exact Or.inr (Or.inr (Or.inr (hsame rfl)))
  | queueCancel id =>
    cases hs
    exact Or.inr (Or.inr (Or.inr (hsame rfl)))
  | handleRead _ | runTimer | reset | resetTimer | endDelete | endRead _ =>
    obtain ⟨_, _, _, rfl, rfl | ⟨id, hid, rfl⟩⟩ := hg.round_step rfl hs
    · exact Or.inr (Or.inr (Or.inr (hsame rfl)))
    · exact Or.inr (Or.inl ⟨id, hid, rfl⟩)
  | loop a =>
    obtain ⟨_, -, rfl, -⟩ := loopAct_ok hg hs
    exact Or.inr (Or.inr (Or.inr (hsame rfl)))
  | runFunctor clock =>
    obtain ⟨hround, hs⟩ := Option.ite_none_right_eq_some.mp hs
    have hround := Option.isNone_iff_eq_none.mp hround
    rcases runFunctor_ok hg hs with
      ⟨id, _, _, _, -, -, -, -, rfl, -⟩ | ⟨id, _, _, hq, hc, rfl, -⟩
    · exact Or.inr (Or.inr (Or.inr ⟨[.addedInLoop id], rfl, by simp⟩))
    · exact Or.inr (Or.inr (Or.inl ⟨id, hq, hc, hround, hround, rfl, rfl, rfl⟩))

/-! ## Cancels in the loop thread -/

/-- Every cancel of `id` comes after `addTimer` has returned `id`. -/
def CalledAfterReturn (id : TimerId) (s : TimerLoop) (a : TimerAction) : Prop :=
  a = .cancel id ∨ a = .queueCancel id → .returned id ∈ s.trace

/-- The loop thread cancels `id` only once it is inserted, and not while its Timer is
among those the current `handleRead` has still to run. -/
def CancelsInTime (id : TimerId) (s : TimerLoop) (a : TimerAction) : Prop :=
  a = .cancel id → id ∉ s.pendingAdds ∧ id ∉ s.upcoming

/-- No destructor that `reset` runs cancels `id` while its Timer is still to be put back:
`cancelInLoop` records nothing then. -/
def Recorded (id : TimerId) (s : TimerLoop) (a : TimerAction) : Prop :=
  a = .cancel id → id ∈ s.returning → s.queue.callingExpiredTimers_ = true

instance (id : TimerId) (s : TimerLoop) (a : TimerAction) : Decidable (CalledAfterReturn id s a) :=
  inferInstanceAs (Decidable (_ → _))

instance (id : TimerId) (s : TimerLoop) (a : TimerAction) : Decidable (CancelsInTime id s a) :=
  inferInstanceAs (Decidable (_ → _))

instance (id : TimerId) (s : TimerLoop) (a : TimerAction) : Decidable (Recorded id s a) :=
  inferInstanceAs (Decidable (_ → _ → _))

/-- The callback of `id` was started after a cancel of `id` had returned. -/
def StartedAfterCancel (id : TimerId) (trace : List TimerEvent) : Prop :=
  ∃ later earlier, trace = later ++ .started id :: earlier ∧ .cancelReturned id ∈ earlier

theorem startedAfterCancel_cons {id : TimerId} {e : TimerEvent} {trace : List TimerEvent} :
    StartedAfterCancel id (e :: trace) ↔
      e = .started id ∧ .cancelReturned id ∈ trace ∨ StartedAfterCancel id trace := by
  constructor
  · rintro ⟨_ | ⟨e', later⟩, earlier, heq, hin⟩
    · obtain ⟨rfl, rfl⟩ := List.cons.inj heq
      exact Or.inl ⟨rfl, hin⟩
    · obtain ⟨rfl, rfl⟩ := List.cons.inj heq
      exact Or.inr ⟨later, earlier, rfl, hin⟩
  · rintro (⟨rfl, hin⟩ | ⟨later, earlier, rfl, hin⟩)
    · exact ⟨[], trace, rfl, hin⟩
    · exact ⟨e :: later, earlier, rfl, hin⟩

/-- Once a cancel of `id` in the loop thread has returned, `id` has retired and its Timer
is not going to be run. -/
structure Effective (id : TimerId) (s : TimerLoop) : Prop where
  good : s.Good
  issued : s.Issued
  gone : .cancelReturned id ∈ s.trace → s.Retired id ∧ id ∉ s.upcoming
  not_started : ¬ StartedAfterCancel id s.trace

theorem effective_start (id : TimerId) : Effective id start where
  good := good_start
  issued := issued_start
  gone h := (List.not_mem_nil h).elim
  not_started := by
    rintro ⟨later, earlier, heq, -⟩
    cases later <;> cases heq

theorem Effective.step {id : TimerId} {s s' : TimerLoop} {a : TimerAction} (h : Effective id s)
    (hret : CalledAfterReturn id s a) (hok : CancelsInTime id s a) (hrec : Recorded id s a)
    (hs : s.step a = some s') : Effective id s' := by
  have hstays (hin : .cancelReturned id ∈ s.trace) : s'.Retired id ∧ id ∉ s'.upcoming := by
    obtain ⟨hr, hu⟩ := h.gone hin
    have hstep := hr.step h.good hs
    exact ⟨hstep.retired, fun hin => hu (hstep.upcoming hin)⟩
  refine ⟨h.good.step hs, h.issued.step h.good hs, fun hin => ?_, fun hstart => ?_⟩
  · rcases h.good.trace_step hs with
      ⟨id', rfl, ht⟩ | ⟨id', -, ht⟩ | ⟨id', -, -, -, -, -, -, ht⟩ | ⟨es, ht, hes⟩
    · by_cases hid : id' = id
      · subst hid
        obtain ⟨hp, hu⟩ := hok rfl
        have hnum := (h.issued.returned id' (hret (Or.inl rfl))).1
        have hcancel := h.good.retired_of_cancel hs hnum hp (hrec rfl)
        exact ⟨hcancel.1, fun hin => hu (hcancel.2 hin)⟩
      · rw [ht] at hin
        simp only [List.mem_cons, TimerEvent.cancelReturned.injEq, reduceCtorEq, false_or] at hin
        exact hstays (hin.resolve_left (Ne.symm hid))
    · exact hstays (by simpa [ht] using hin)
    · exact hstays (by simpa [ht] using hin)
    · rw [ht] at hin
      rcases List.mem_append.mp hin with hin | hin
      · obtain ⟨id', he | he⟩ := hes _ hin <;> cases he
      · exact hstays hin
  · rcases h.good.trace_step hs with
      ⟨id', rfl, ht⟩ | ⟨id', hid', ht⟩ | ⟨id', -, -, -, -, -, -, ht⟩ | ⟨es, ht, hes⟩
    · rw [ht, startedAfterCancel_cons, startedAfterCancel_cons] at hstart
      rcases hstart with ⟨he, -⟩ | ⟨he, -⟩ | hstart
      · cases he
      · cases he
      · exact h.not_started hstart
    · rw [ht, startedAfterCancel_cons] at hstart
      rcases hstart with ⟨he, hin⟩ | hstart
      · cases he
        exact (h.gone hin).2 hid'
      · exact h.not_started hstart
    · rw [ht, startedAfterCancel_cons] at hstart
      rcases hstart with ⟨he, -⟩ | hstart
      · cases he
      · exact h.not_started hstart
    · rw [ht] at hstart
      clear ht
      induction es with
      | nil => exact h.not_started hstart
      | cons e es ih =>
        rcases startedAfterCancel_cons.mp hstart with ⟨rfl, -⟩ | hstart
        · obtain ⟨id', he | he⟩ := hes _ (List.mem_cons_self ..) <;> cases he
        · exact ih hstart fun e' he' => hes e' (List.mem_cons_of_mem _ he')

/-- In every run in which the cancels of `id` in the loop thread come after its insertion,
not while its Timer waits in the batch being run, and not while `reset` has still to put it
back, no callback of `id` is started once such a cancel has returned. -/
theorem cancel_effective {id : TimerId} {as : List TimerAction} {s : TimerLoop}
    (hret : Meets step (CalledAfterReturn id) start as)
    (hok : Meets step (CancelsInTime id) start as) (hrec : Meets step (Recorded id) start as)
    (hr : run step start as = some s) : ¬ StartedAfterCancel id s.trace :=
  (meets_invariant (fun _ _ _ h hm hs => Effective.step h hm.1 hm.2.1 hm.2.2 hs)
    (effective_start id) (hret.and (hok.and hrec)) hr).not_started

/-- Two timers expire together, and the callback of the first cancels the second. -/
def cancelInBatch : List TimerAction :=
  [.addTimer 8 0 5 ⟨false, 0⟩ 0, .addTimer 16 0 5 ⟨false, 0⟩ 0, .loop .poll, .handleRead 10,
    .runTimer, .cancel ⟨16, 2⟩, .runTimer]

/-- Two timers expire together, the second repeated; `reset` deletes the first, whose callback
owns an object that cancels the second when it is destroyed. The second is put back, and runs
in the next round. -/
def cancelInReset : List TimerAction :=
  [.addTimer 8 0 5 ⟨false, 0⟩ 0, .addTimer 16 0 5 ⟨true, 5⟩ 0, .loop .poll, .handleRead 10,
    .runTimer, .runTimer, .reset, .resetTimer, .cancel ⟨16, 2⟩, .endDelete, .resetTimer,
    .endRead 10, .loop .doPendingFunctors, .loop .endPendingFunctors, .loop .poll, .handleRead 20,
    .runTimer]

theorem cancel_effective_fails :
    (∃ s, run step start cancelInBatch = some s ∧
      Meets step (CalledAfterReturn ⟨16, 2⟩) start cancelInBatch ∧
      StartedAfterCancel ⟨16, 2⟩ s.trace) ∧
    ∃ s, run step start cancelInReset = some s ∧
      Meets step (CalledAfterReturn ⟨16, 2⟩) start cancelInReset ∧
      StartedAfterCancel ⟨16, 2⟩ s.trace := by
  obtain ⟨s, hs, htrace⟩ : ∃ s, run step start cancelInBatch = some s ∧ s.trace =
      [.started ⟨16, 2⟩, .cancelReturned ⟨16, 2⟩, .cancelledInLoop ⟨16, 2⟩, .started ⟨8, 1⟩,
        .returned ⟨16, 2⟩, .addedInLoop ⟨16, 2⟩, .returned ⟨8, 1⟩, .addedInLoop ⟨8, 1⟩] :=
    Option.map_eq_some_iff.mp (by decide +kernel)
  obtain ⟨s', hs', htrace'⟩ : ∃ s, run step start cancelInReset = some s ∧ s.trace =
      [.started ⟨16, 2⟩, .cancelReturned ⟨16, 2⟩, .cancelledInLoop ⟨16, 2⟩, .started ⟨16, 2⟩,
        .started ⟨8, 1⟩, .returned ⟨16, 2⟩, .addedInLoop ⟨16, 2⟩, .returned ⟨8, 1⟩,
        .addedInLoop ⟨8, 1⟩] :=
    Option.map_eq_some_iff.mp (by decide +kernel)
  exact ⟨⟨s, hs, by decide +kernel, [], _, htrace, by simp⟩,
    ⟨s', hs', by decide +kernel, [], _, htrace', by simp⟩⟩

/-- The callback of a timer cancels a timer that expires later. -/
theorem cancel_effective_later : ∃ s, run step start
      [.addTimer 8 0 5 ⟨false, 0⟩ 0, .addTimer 16 0 15 ⟨true, 5⟩ 0, .loop .poll, .handleRead 10,
        .runTimer, .cancel ⟨16, 2⟩, .reset, .resetTimer, .endDelete, .endRead 10] = some s ∧
      ¬ StartedAfterCancel ⟨16, 2⟩ s.trace := by
  obtain ⟨s, hs⟩ := Option.isSome_iff_exists.mp (show (run step start
    [.addTimer 8 0 5 ⟨false, 0⟩ 0, .addTimer 16 0 15 ⟨true, 5⟩ 0, .loop .poll, .handleRead 10,
      .runTimer, .cancel ⟨16, 2⟩, .reset, .resetTimer, .endDelete, .endRead 10]).isSome
    by decide +kernel)
  exact ⟨s, hs, cancel_effective (by decide +kernel) (by decide +kernel) (by decide +kernel) hs⟩

end ReactorNet.TimerLoop
