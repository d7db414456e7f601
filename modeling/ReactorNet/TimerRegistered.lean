import ReactorNet.TimerQueueInvariant

/-!
# The Timers in the queue

What each operation of the queue does to the Timers in `timers_`, taken with all their
fields, and not only to the names in `activeTimers_`.
-/
namespace ReactorNet.TimerQueue

/-- The Timer `t`, for which `id` was given out, is in `timers_`. -/
def Registered (q : TimerQueue) (id : TimerId) (t : Timer) : Prop :=
  q.heap id.timer_ = some t ∧ t.sequence_ = id.sequence_ ∧
    toLex (t.expiration_, id.timer_) ∈ q.timers_

/-- No entry leads to the address. -/
def Vacant (q : TimerQueue) (a : ℕ) : Prop := ∀ when, toLex (when, a) ∉ q.timers_

/-- Two queues with the same Timers and entries. -/
theorem registered_congr {q q' : TimerQueue} (hheap : q'.heap = q.heap)
    (htimers : q'.timers_ = q.timers_) (id : TimerId) (t : Timer) :
    q'.Registered id t ↔ q.Registered id t := by
  rw [Registered, Registered, hheap, htimers]

theorem registered_store {q : TimerQueue} {a : ℕ} (ha : q.Vacant a) (u : Timer) (id : TimerId)
    (t : Timer) : (q.store a u).Registered id t ↔ q.Registered id t := by
  by_cases hid : id.timer_ = a
  · constructor
    · rintro ⟨-, -, hmem⟩
      exact absurd (hid ▸ hmem) (ha _)
    · rintro ⟨-, -, hmem⟩
      exact absurd (hid ▸ hmem) (ha _)
  · simp [Registered, store, hid]

theorem registered_release {q : TimerQueue} {a : ℕ} (ha : q.Vacant a) (id : TimerId) (t : Timer) :
    (q.release a).Registered id t ↔ q.Registered id t := by
  by_cases hid : id.timer_ = a
  · constructor
    · rintro ⟨-, -, hmem⟩
      exact absurd (hid ▸ hmem) (ha _)
    · rintro ⟨-, -, hmem⟩
      exact absurd (hid ▸ hmem) (ha _)
  · simp [Registered, release, hid]

theorem registered_inserted {q : TimerQueue} {a : ℕ} {u : Timer} (hu : q.heap a = some u)
    (id : TimerId) (t : Timer) :
    (q.inserted a u).Registered id t ↔ q.Registered id t ∨ id = ⟨a, u.sequence_⟩ ∧ t = u := by
  simp only [Registered, inserted, OrderedSet.mem_insert, toLex_inj, Prod.mk.injEq]
  constructor
  · rintro ⟨ht, hn, ⟨-, ha⟩ | hmem⟩
    · rw [ha, hu] at ht
      cases ht
      exact Or.inr ⟨by rw [← ha, hn], rfl⟩
    · exact Or.inl ⟨ht, hn, hmem⟩
  · rintro (⟨ht, hn, hmem⟩ | ⟨rfl, rfl⟩)
    · exact ⟨ht, hn, Or.inr hmem⟩
    · exact ⟨hu, rfl, Or.inl ⟨rfl, rfl⟩⟩

theorem registered_cancelled {q : TimerQueue} {a : ℕ} {u : Timer} (hu : q.heap a = some u)
    (id : TimerId) (t : Timer) : ((q.removed a u).release a).Registered id t ↔
      q.Registered id t ∧ id ≠ ⟨a, u.sequence_⟩ := by
  by_cases hid : id.timer_ = a
  · constructor
    · rintro ⟨ht, -, -⟩
      rw [hid] at ht
      simp [release] at ht
    · rintro ⟨⟨ht, hn, -⟩, hne⟩
      rw [hid, hu] at ht
      cases ht
      exact absurd (by rw [← hid, hn]) hne
  · have hne : id ≠ ⟨a, u.sequence_⟩ := fun he => hid (congrArg TimerId.timer_ he)
    simp [Registered, release, removed, hid, hne]

theorem Consistent.vacant {q : TimerQueue} {outside : List ℕ} (h : Consistent q outside) {a : ℕ}
    (ha : a ∈ outside) : q.Vacant a := by
  intro when hmem
  obtain ⟨t, ht, -, hactive⟩ := (h.mem_timers when a).mp hmem
  obtain ⟨u, hu, hout⟩ := h.outside_alive a ha
  cases ht.symm.trans hu
  exact hout hactive

theorem Consistent.vacant_free {q : TimerQueue} {outside : List ℕ} (h : Consistent q outside)
    {a : ℕ} (ha : q.heap a = none) : q.Vacant a := by
  intro when hmem
  obtain ⟨t, ht, -⟩ := (h.mem_timers when a).mp hmem
  cases ha.symm.trans ht

theorem Consistent.registered_iff {q : TimerQueue} {outside : List ℕ} (h : Consistent q outside)
    {id : TimerId} {t : Timer} : q.Registered id t ↔
      q.heap id.timer_ = some t ∧ t.sequence_ = id.sequence_ ∧ id.active ∈ q.activeTimers_ := by
  refine and_congr_right fun ht => and_congr_right fun hn => ?_
  rw [h.mem_timers_iff ht, hn]
  rfl

/-! ## The batch -/

/-- Ties with `now` are below the sentry. -/
theorem lt_sentry_iff {now when : Timestamp} {a : ℕ} (ha : a < UINTPTR_MAX) :
    (toLex (when, a) : Entry) < sentry now ↔ when ≤ now := by
  rw [sentry, Prod.Lex.toLex_lt_toLex]
  constructor
  · rintro (hlt | ⟨heq, -⟩)
    · exact le_of_lt hlt
    · exact le_of_eq heq
  · intro hle
    rcases lt_or_eq_of_le hle with hlt | heq
    · exact Or.inl hlt
    · exact Or.inr ⟨heq, ha⟩

namespace Consistent

variable {q : TimerQueue} {outside : List ℕ}

/-- A Timer is in the batch exactly when it is registered and due. -/
theorem mem_batch (h : Consistent q outside) {now : Timestamp} {e : Entry} {t : Timer}
    (ht : q.heap e.timer = some t) : e ∈ q.timers_.below (sentry now) ↔
      q.Registered ⟨e.timer, t.sequence_⟩ t ∧ t.expiration_ ≤ now ∧
        e = toLex (t.expiration_, e.timer) := by
  rw [OrderedSet.mem_below]
  constructor
  · rintro ⟨hmem, hlt⟩
    obtain ⟨u, hu, hwhen, -⟩ := (h.mem_timers (ofLex e).1 e.timer).mp hmem
    cases ht.symm.trans hu
    have he : e = toLex (t.expiration_, e.timer) := ofLex.injective (Prod.ext hwhen.symm rfl)
    refine ⟨⟨ht, rfl, he ▸ hmem⟩, ?_, he⟩
    rw [← lt_sentry_iff (h.address_lt _ t ht), ← he]
    exact hlt
  · rintro ⟨⟨-, -, hmem⟩, hle, he⟩
    rw [he]
    exact ⟨hmem, (lt_sentry_iff (h.address_lt _ t ht)).mpr hle⟩

/-- What `handleRead` leaves in the queue while it runs the batch. -/
theorem registered_beginRead (h : Consistent q outside) {now : Timestamp} {q' : TimerQueue}
    {outside' : List ℕ} (h' : Consistent q' outside') (hheap : q'.heap = q.heap)
    (hactive : ∀ a n, toLex (a, n) ∈ q'.activeTimers_ ↔ toLex (a, n) ∈ q.activeTimers_ ∧
      a ∉ (q.timers_.below (sentry now)).map Entry.timer) (id : TimerId) (t : Timer) :
    q'.Registered id t ↔ q.Registered id t ∧ now < t.expiration_ := by
  rw [h'.registered_iff, hheap, TimerId.active, hactive]
  constructor
  · rintro ⟨ht, hn, hmem, hout⟩
    refine ⟨h.registered_iff.mpr ⟨ht, hn, hmem⟩, ?_⟩
    rw [← hn] at hmem
    rw [h.mem_expired ht hmem, lt_sentry_iff (h.address_lt _ t ht)] at hout
    exact lt_of_not_ge hout
  · rintro ⟨hreg, hlt⟩
    obtain ⟨ht, hn, hmem⟩ := h.registered_iff.mp hreg
    refine ⟨ht, hn, hmem, ?_⟩
    rw [TimerId.active, ← hn] at hmem
    rw [h.mem_expired ht hmem, lt_sentry_iff (h.address_lt _ t ht)]
    exact not_le_of_gt hlt

end Consistent

/-! ## The loop in `reset` -/

/-- What a turn of the loop does to the Timers: the one of the entry comes back with a new
expiration if it is repeated and not marked, and is deleted otherwise. -/
structure PutBack (q q' : TimerQueue) (now : Timestamp) (it : Entry) : Prop where
  registered : ∀ id t, q'.Registered id t ↔ q.Registered id t ∨
    ∃ u, q.putsBack it u ∧ id = ⟨it.timer, u.sequence_⟩ ∧ t = u.restart now
  deleted : (∀ u, ¬ q.putsBack it u) → q'.heap it.timer = none

theorem Consistent.resetTimer_putBack {q q' : TimerQueue} {outside : List ℕ} {it : Entry}
    {now : Timestamp} {deleted : Option ℕ} (h : Consistent q (it.timer :: outside))
    (hq : q.resetTimer now it = .ok (q', deleted)) : PutBack q q' now it := by
  have hvacant := h.vacant List.mem_cons_self
  obtain ⟨w, hw, ⟨hputs, hu, heq, -⟩ | ⟨hno, heq, -⟩⟩ := h.resetTimer_cases it now
  · cases heq.symm.trans hq
    refine ⟨fun id t => ?_, fun hno => absurd hputs (hno w)⟩
    rw [registered_inserted hu, registered_store hvacant]
    apply or_congr_right
    constructor
    · rintro ⟨rfl, rfl⟩
      exact ⟨w, hputs, rfl, rfl⟩
    · rintro ⟨u, ⟨hheap, -⟩, rfl, rfl⟩
      cases hw.symm.trans hheap
      exact ⟨rfl, rfl⟩
  · cases heq.symm.trans hq
    refine ⟨fun id t => ?_, fun _ => by simp [TimerQueue.release]⟩
    rw [registered_release hvacant]
    refine (or_iff_left ?_).symm
    rintro ⟨u, hputs, -⟩
    cases hw.symm.trans hputs.1
    exact hno hputs

end ReactorNet.TimerQueue
