import ReactorNet.TimerCancellation

/-!
# A cancel and the insertion it has to follow

Insertion and cancel of one id are functors of one queue unless the loop thread calls
`cancel` itself. As long as it does so only once the Timer is inserted, the insertion
is executed first, and the executed cancel has retired the id.
-/
namespace ReactorNet.TimerLoop

open TimerQueue GuardedRuns

/-- The loop thread cancels `id` only once its `addTimerInLoop` has been executed. -/
def InsertedFirst (id : TimerId) (s : TimerLoop) (a : TimerAction) : Prop :=
  a = .cancel id → id ∉ s.pendingAdds

instance (id : TimerId) (s : TimerLoop) (a : TimerAction) : Decidable (InsertedFirst id s a) :=
  inferInstanceAs (Decidable (_ → _))

/-- What a step does to the functors that wait and to the calls that are not among them yet. -/
theorem Good.queued_step {s s' : TimerLoop} {a : TimerAction} (hg : s.Good)
    (hs : s.step a = some s') :
    s.s_numCreated_ ≤ s'.s_numCreated_ ∧
      (∀ id ∈ s'.constructed, id ∈ s.constructed ∨ s.s_numCreated_ < id.sequence_) ∧
      (s'.loop.queued = s.loop.queued ∨
        (∃ id ∈ s.constructed, s'.loop.queued = s.loop.queued ++ [.addTimerInLoop id]) ∨
        (∃ id, a = .queueCancel id ∧ s'.loop.queued = s.loop.queued ++ [.cancelInLoop id]) ∨
        ∃ f, s.loop.queued = f :: s'.loop.queued) := by
  obtain ⟨-, hs⟩ := step_eq_some.mp hs
  cases a with
  | addTimer timer others when interval clock =>
    obtain ⟨-, hs⟩ := Option.ite_none_right_eq_some.mp hs
    obtain ⟨_, _, _, -, -, hnum, -, -, rfl, -⟩ := addTimer_ok hg hs
    exact ⟨Nat.le_of_lt hnum, fun _ => Or.inl, Or.inl rfl⟩
  | cancel id =>
    obtain ⟨-, hs⟩ := Option.ite_none_right_eq_some.mp hs
    obtain ⟨_, -, -, heq, -⟩ := cancel_ok hg id
    cases hs
    rw [heq]
    exact ⟨Nat.le_refl _, fun _ => Or.inl, Or.inl rfl⟩
  | construct timer others when interval =>
    obtain ⟨id, _, -, -, hnum, rfl, -⟩ := construct_ok hg hs
    refine ⟨Nat.le_of_lt hnum, fun id' hid' => ?_, Or.inl rfl⟩
    rcases List.mem_cons.mp hid' with rfl | hid'
    · exact Or.inr hnum
    · exact Or.inl hid'
  | queueTimer id =>
    obtain ⟨hin, -, rfl, -⟩ := queueTimer_ok hg hs
    exact ⟨Nat.le_refl _, fun _ hid' => Or.inl (List.mem_of_mem_erase hid'),
      Or.inr (Or.inl ⟨id, hin, EventLoop.queued_queueInLoop ..⟩)⟩
  | returnTimer id =>
    obtain ⟨-, -, ⟨-, rfl⟩ | ⟨-, rfl⟩⟩ := returnTimer_ok hg hs
    · exact ⟨Nat.le_refl _, fun _ => Or.inl, Or.inl rfl⟩
    · exact ⟨Nat.le_refl _, fun _ => Or.inl, Or.inl rfl⟩
  | queueCancel id =>
    cases hs
    exact ⟨Nat.le_refl _, fun _ => Or.inl,
      Or.inr (Or.inr (Or.inl ⟨id, rfl, EventLoop.queued_queueInLoop ..⟩))⟩
  | handleRead _ | runTimer | reset | resetTimer | endDelete | endRead _ =>
    obtain ⟨_, _, _, rfl, -⟩ := hg.round_step rfl hs
    exact ⟨Nat.le_refl _, fun _ => Or.inl, Or.inl rfl⟩
  | loop a =>
    obtain ⟨_, hq, rfl, -⟩ := loopAct_ok hg hs
    exact ⟨Nat.le_refl _, fun _ => Or.inl, Or.inl hq⟩
  | runFunctor clock =>
    obtain ⟨-, hs⟩ := Option.ite_none_right_eq_some.mp hs
    rcases runFunctor_ok hg hs with ⟨_, _, _, _, hq, -, -, -, rfl, -⟩ | ⟨_, _, _, hq, -, rfl, -⟩
    · exact ⟨Nat.le_refl _, fun _ => Or.inl, Or.inr (Or.inr (Or.inr ⟨_, hq⟩))⟩
    · exact ⟨Nat.le_refl _, fun _ => Or.inl, Or.inr (Or.inr (Or.inr ⟨_, hq⟩))⟩

/-- `f` is not a cancel of `id` in front of its insertion `g`. -/
def NotAhead (id : TimerId) (f g : TimerFunctor) : Prop :=
  f = .cancelInLoop id → g ≠ .addTimerInLoop id

/-- No insertion of `id` waits behind a cancel of it, and an executed cancel has retired it. -/
structure InOrder (id : TimerId) (s : TimerLoop) : Prop where
  good : s.Good
  issued : s.Issued
  done : .cancelledInLoop id ∈ s.trace → s.Retired id
  waiting : .cancelInLoop id ∈ s.loop.queued → id.sequence_ ≤ s.s_numCreated_ ∧ id ∉ s.constructed
  ahead : s.loop.queued.Pairwise (NotAhead id)

theorem inOrder_start (id : TimerId) : InOrder id start where
  good := good_start
  issued := issued_start
  done h := (List.not_mem_nil h).elim
  waiting h := (List.not_mem_nil h).elim
  ahead := .nil

variable {id : TimerId} {s s' : TimerLoop} {a : TimerAction}

theorem InOrder.queue_step (h : InOrder id s) (hret : CalledAfterReturn id s a)
    (hs : s.step a = some s') :
    (.cancelInLoop id ∈ s'.loop.queued → id.sequence_ ≤ s'.s_numCreated_ ∧ id ∉ s'.constructed) ∧
      s'.loop.queued.Pairwise (NotAhead id) := by
  obtain ⟨hnum, hcon, hq⟩ := h.good.queued_step hs
  have hkeep (hid : id.sequence_ ≤ s.s_numCreated_ ∧ id ∉ s.constructed) :
      id.sequence_ ≤ s'.s_numCreated_ ∧ id ∉ s'.constructed := by
    refine ⟨Nat.le_trans hid.1 hnum, fun hin => ?_⟩
    rcases hcon id hin with hin | hlt
    · exact hid.2 hin
    · exact Nat.not_le_of_lt hlt hid.1
  rcases hq with hq | ⟨id', hid', hq⟩ | ⟨id', rfl, hq⟩ | ⟨f, hq⟩
  · rw [hq]
    exact ⟨fun hin => hkeep (h.waiting hin), h.ahead⟩
  · rw [hq]
    refine ⟨fun hin => hkeep (h.waiting (by simpa using hin)), ?_⟩
    refine List.pairwise_append.mpr ⟨h.ahead, List.pairwise_singleton .., fun f hf g hg => ?_⟩
    rw [List.mem_singleton.mp hg]
    rintro rfl he
    cases he
    exact (h.waiting hf).2 hid'
  · rw [hq]
    refine ⟨fun hin => hkeep ?_, ?_⟩
    · rcases List.mem_append.mp hin with hin | hin
      · exact h.waiting hin
      · cases List.mem_singleton.mp hin
        exact h.issued.returned id (hret (Or.inr rfl))
    · refine List.pairwise_append.mpr ⟨h.ahead, List.pairwise_singleton .., fun f _ g hg => ?_⟩
      rw [List.mem_singleton.mp hg]
      rintro - ⟨⟩
  · have hahead := h.ahead
    rw [hq] at hahead
    exact ⟨fun hin => hkeep (h.waiting (hq ▸ List.mem_cons_of_mem f hin)),
      (List.pairwise_cons.mp hahead).2⟩

/-- A cancel that is executed finds no insertion of its id still waiting. -/
theorem InOrder.notMem_pendingAdds (h : InOrder id s)
    (hq : s.loop.queued = .cancelInLoop id :: s'.loop.queued)
    (hcon : s'.constructed = s.constructed) : id ∉ s'.pendingAdds := by
  have hwait := h.waiting (hq ▸ List.mem_cons_self ..)
  have hahead := h.ahead
  rw [hq] at hahead
  intro hin
  rcases List.mem_append.mp hin with hin | hin
  · exact hwait.2 (hcon ▸ hin)
  · obtain ⟨f, hf, hadd⟩ := List.mem_filterMap.mp hin
    cases f with
    | addTimerInLoop id' =>
      cases hadd
      exact (List.pairwise_cons.mp hahead).1 _ hf rfl rfl
    | cancelInLoop id' => cases hadd

theorem InOrder.step (h : InOrder id s) (hret : CalledAfterReturn id s a)
    (hok : InsertedFirst id s a) (hrec : Recorded id s a) (hs : s.step a = some s') :
    InOrder id s' := by
  have hqueue := h.queue_step hret hs
  have hstays (hin : .cancelledInLoop id ∈ s.trace) : s'.Retired id :=
    ((h.done hin).step h.good hs).retired
  refine ⟨h.good.step hs, h.issued.step h.good hs, fun hin => ?_, hqueue.1, hqueue.2⟩
  rcases h.good.trace_step hs with
    ⟨id', rfl, ht⟩ | ⟨id', -, ht⟩ | ⟨id', hq, hc, hr, hr', hcon, hn, ht⟩ | ⟨es, ht, hes⟩
  · by_cases hid : id' = id
    · subst hid
      have hnum := (h.issued.returned id' (hret (Or.inl rfl))).1
      exact (h.good.retired_of_cancel hs hnum (hok rfl) (hrec rfl)).1
    · rw [ht] at hin
      simp only [List.mem_cons, TimerEvent.cancelledInLoop.injEq, reduceCtorEq, false_or] at hin
      exact hstays (hin.resolve_left (Ne.symm hid))
  · exact hstays (by simpa [ht] using hin)
  · by_cases hid : id' = id
    · subst hid
      have hnum := (h.waiting (hq ▸ List.mem_cons_self ..)).1
      refine h.good.retired_of_cancelled hc (hr'.trans hr.symm) (hn ▸ hnum)
        (h.notMem_pendingAdds hq hcon) fun hin => ?_
      -- Functors are not run within a round, so no Timer is to be put back.
      simp [returning, batch, hr] at hin
    · rw [ht] at hin
      simp only [List.mem_cons, TimerEvent.cancelledInLoop.injEq] at hin
      exact hstays (hin.resolve_left (Ne.symm hid))
  · rw [ht] at hin
    rcases List.mem_append.mp hin with hin | hin
    · obtain ⟨id', he | he⟩ := hes _ hin <;> cases he
    · exact hstays hin

/-- A retired id stays out of both sets in every later state. -/
theorem Retired.later {u : TimerLoop} {bs : List TimerAction} (h : s.Retired id) (hg : s.Good)
    (hr : run TimerLoop.step s bs = some u) : u.Retired id ∧ u.Good :=
  run_invariant (P := fun s => s.Retired id ∧ s.Good)
    (fun _ _ _ h hs => ⟨(h.1.step h.2 hs).retired, h.2.step hs⟩) ⟨h, hg⟩ hr

/-- In every run in which the cancels of `id` in the loop thread come after its insertion, and
not while `reset` has still to put its Timer back:
once `addTimerInLoop` and `cancelInLoop` of `id` have been executed, its Timer is in
neither set in any later state, so it is never restarted. -/
theorem cancel_not_lost {id : TimerId} {as : List TimerAction} {s : TimerLoop}
    (hret : Meets TimerLoop.step (CalledAfterReturn id) start as)
    (hok : Meets TimerLoop.step (InsertedFirst id) start as)
    (hrec : Meets TimerLoop.step (Recorded id) start as)
    (hr : run TimerLoop.step start as = some s) :
    .addedInLoop id ∈ s.trace → .cancelledInLoop id ∈ s.trace →
      ∀ bs u, run TimerLoop.step s bs = some u → id.active ∉ u.queue.activeTimers_ ∧
        ∀ when, toLex (when, id.timer_) ∈ u.queue.timers_ → ¬ u.queue.Alive id := by
  intro _ hin bs u hu
  have h := meets_invariant (fun _ _ _ h hm hs => InOrder.step h hm.1 hm.2.1 hm.2.2 hs)
    (inOrder_start id) (hret.and (hok.and hrec)) hr
  obtain ⟨hretired, hg⟩ := (h.done hin).later h.good hu
  refine ⟨hretired.inactive, fun when hmem halive => hretired.inactive ?_⟩
  obtain ⟨t, ht, -, hactive⟩ := (hg.consistent.mem_timers when id.timer_).mp hmem
  obtain ⟨u, hu, hn⟩ := halive
  cases ht.symm.trans hu
  rwa [hn] at hactive

/-- Another thread adds a timer; the loop thread, handed its id, cancels it before the
insertion is executed. -/
def cancelBeforeInsertion : List TimerAction :=
  [.construct 8 0 5 ⟨true, 5⟩, .queueTimer ⟨8, 1⟩, .returnTimer ⟨8, 1⟩, .loop .poll,
    .cancel ⟨8, 1⟩, .loop .doPendingFunctors, .runFunctor 0]

theorem cancel_not_lost_fails : ¬ ∀ (id : TimerId) (as : List TimerAction) (s : TimerLoop),
    Meets TimerLoop.step (CalledAfterReturn id) start as → run TimerLoop.step start as = some s →
      .addedInLoop id ∈ s.trace → .cancelledInLoop id ∈ s.trace →
        ∀ when, toLex (when, id.timer_) ∈ s.queue.timers_ → ¬ s.queue.Alive id := by
  intro h
  obtain ⟨s, hs, he⟩ : ∃ s, run TimerLoop.step start cancelBeforeInsertion = some s ∧
      (s.trace, s.queue.timers_.toList, (s.queue.heap 8).map Timer.sequence_) =
        ([.addedInLoop ⟨8, 1⟩, .cancelReturned ⟨8, 1⟩, .cancelledInLoop ⟨8, 1⟩,
          .returned ⟨8, 1⟩], [toLex (5, 8)], some 1) :=
    Option.map_eq_some_iff.mp (by decide +kernel)
  simp only [Prod.mk.injEq] at he
  obtain ⟨htrace, htimers, hseq⟩ := he
  refine h ⟨8, 1⟩ cancelBeforeInsertion s (by decide +kernel) hs (by simp [htrace])
    (by simp [htrace]) 5 ?_ (Option.map_eq_some_iff.mp hseq)
  rw [OrderedSet.mem_def, htimers]
  exact List.mem_singleton_self _

/-- The other thread cancels the timer itself, behind its insertion. -/
theorem cancel_not_lost_queued : ∃ s, run TimerLoop.step start
      [.construct 8 0 5 ⟨true, 5⟩, .queueTimer ⟨8, 1⟩, .returnTimer ⟨8, 1⟩, .queueCancel ⟨8, 1⟩,
        .loop .poll, .loop .doPendingFunctors, .runFunctor 0, .runFunctor 0] = some s ∧
      TimerId.active ⟨8, 1⟩ ∉ s.queue.activeTimers_ := by
  obtain ⟨s, hs, htrace⟩ : ∃ s, run TimerLoop.step start
      [.construct 8 0 5 ⟨true, 5⟩, .queueTimer ⟨8, 1⟩, .returnTimer ⟨8, 1⟩, .queueCancel ⟨8, 1⟩,
        .loop .poll, .loop .doPendingFunctors, .runFunctor 0, .runFunctor 0] = some s ∧ s.trace =
      [.cancelledInLoop ⟨8, 1⟩, .addedInLoop ⟨8, 1⟩, .returned ⟨8, 1⟩] :=
    Option.map_eq_some_iff.mp (by decide +kernel)
  exact ⟨s, hs, (cancel_not_lost (by decide +kernel) (by decide +kernel) (by decide +kernel) hs
    (by simp [htrace]) (by simp [htrace]) [] s rfl).1⟩

end ReactorNet.TimerLoop
