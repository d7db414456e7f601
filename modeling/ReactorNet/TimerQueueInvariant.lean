import ReactorNet.TimerQueue
import Mathlib.Data.List.Nodup

/-!
# The representation invariant of the timer queue

The two ordered sets describe the same Timers, and every Timer alive is in them or
belongs to the batch or to a pending insertion. Each operation meets its assertions
and keeps the invariant.
-/
namespace ReactorNet.TimerQueue

/-- The Timer that `id` was given out for is still alive. -/
def Alive (q : TimerQueue) (id : TimerId) : Prop :=
  ∃ t, q.heap id.timer_ = some t ∧ t.sequence_ = id.sequence_

theorem Alive.unique {q : TimerQueue} {a m n : ℕ} (hm : q.Alive ⟨a, m⟩) (hn : q.Alive ⟨a, n⟩) :
    m = n := by
  obtain ⟨t, ht, rfl⟩ := hm
  obtain ⟨u, hu, rfl⟩ := hn
  cases ht.symm.trans hu
  rfl

/-- `outside` lists the Timers that are alive but in neither set. -/
structure Consistent (q : TimerQueue) (outside : List ℕ) : Prop where
  size_eq : q.timers_.size = q.activeTimers_.size
  mem_timers : ∀ when a, toLex (when, a) ∈ q.timers_ ↔
    ∃ t, q.heap a = some t ∧ t.expiration_ = when ∧ toLex (a, t.sequence_) ∈ q.activeTimers_
  mem_active : ∀ a n, toLex (a, n) ∈ q.activeTimers_ → q.Alive ⟨a, n⟩
  held : ∀ a t, q.heap a = some t → toLex (a, t.sequence_) ∈ q.activeTimers_ ∨ a ∈ outside
  outside_alive : ∀ a ∈ outside, ∃ t, q.heap a = some t ∧ toLex (a, t.sequence_) ∉ q.activeTimers_
  outside_nodup : outside.Nodup
  address_lt : ∀ a t, q.heap a = some t → a < UINTPTR_MAX

theorem consistent_empty : Consistent empty [] where
  size_eq := rfl
  mem_timers when a := by simp [empty]
  mem_active a n h := absurd h OrderedSet.notMem_empty
  held a t h := by cases h
  outside_alive a h := by cases h
  outside_nodup := .nil
  address_lt a t h := by cases h

/-- The Timers alive in `q'` were alive in `q`. -/
def Keeps (q q' : TimerQueue) : Prop := ∀ id, q'.Alive id → q.Alive id

theorem Keeps.trans {q q' q'' : TimerQueue} (h : Keeps q q') (h' : Keeps q' q'') : Keeps q q'' :=
  fun id hid => h id (h' id hid)

/-- The queue with the Timer `t` at `a` in both sets. -/
def inserted (q : TimerQueue) (a : ℕ) (t : Timer) : TimerQueue :=
  { q with
    timers_ := (q.timers_.insert (toLex (t.expiration_, a))).1
    activeTimers_ := (q.activeTimers_.insert (toLex (a, t.sequence_))).1 }

/-- The queue with the Timer `t` at `a` in neither set. -/
def removed (q : TimerQueue) (a : ℕ) (t : Timer) : TimerQueue :=
  { q with
    timers_ := (q.timers_.erase (toLex (t.expiration_, a))).1
    activeTimers_ := (q.activeTimers_.erase (toLex (a, t.sequence_))).1 }

theorem heap_release {q : TimerQueue} {a b : ℕ} {u : Timer} :
    (q.release a).heap b = some u ↔ b ≠ a ∧ q.heap b = some u := by
  by_cases hba : b = a
  · subst hba
    simp [release]
  · simp [release, hba]

theorem keeps_release (q : TimerQueue) (a : ℕ) : Keeps q (q.release a) := by
  rintro id ⟨u, hu, hn⟩
  exact ⟨u, (heap_release.mp hu).2, hn⟩

namespace Consistent

variable {q : TimerQueue} {a : ℕ} {t : Timer} {outside : List ℕ}

theorem mem_timers_iff (h : Consistent q outside) (ht : q.heap a = some t) :
    toLex (t.expiration_, a) ∈ q.timers_ ↔ toLex (a, t.sequence_) ∈ q.activeTimers_ := by
  rw [h.mem_timers]
  constructor
  · rintro ⟨u, hu, -, hmem⟩
    cases ht.symm.trans hu
    exact hmem
  · exact fun hmem => ⟨t, ht, rfl, hmem⟩

theorem perm {outside' : List ℕ} (h : Consistent q outside) (hp : outside.Perm outside') :
    Consistent q outside' where
  size_eq := h.size_eq
  mem_timers := h.mem_timers
  mem_active := h.mem_active
  held b u hu := (h.held b u hu).imp_right hp.mem_iff.mp
  outside_alive b hb := h.outside_alive b (hp.mem_iff.mpr hb)
  outside_nodup := hp.nodup_iff.mp h.outside_nodup
  address_lt := h.address_lt

/-- The invariant does not depend on the other fields. -/
theorem update (h : Consistent q outside) (canceling : OrderedSet ActiveTimer) (calling : Bool)
    (fd : Option Timestamp) :
    Consistent { q with
      cancelingTimers_ := canceling, callingExpiredTimers_ := calling, timerfd_ := fd } outside where
  size_eq := h.size_eq
  mem_timers := h.mem_timers
  mem_active := h.mem_active
  held := h.held
  outside_alive := h.outside_alive
  outside_nodup := h.outside_nodup
  address_lt := h.address_lt

theorem head_alive (h : Consistent q (a :: outside)) :
    ∃ t, q.heap a = some t ∧ toLex (a, t.sequence_) ∉ q.activeTimers_ :=
  h.outside_alive a (List.mem_cons_self ..)

theorem fresh (h : Consistent q (a :: outside)) (ht : q.heap a = some t) :
    toLex (t.expiration_, a) ∉ q.timers_ ∧ toLex (a, t.sequence_) ∉ q.activeTimers_ := by
  obtain ⟨u, hu, hn⟩ := h.head_alive
  cases ht.symm.trans hu
  exact ⟨fun hmem => hn ((h.mem_timers_iff ht).mp hmem), hn⟩

theorem ne_of_mem (h : Consistent q (a :: outside)) {b : ℕ} (hb : b ∈ outside) : b ≠ a :=
  fun e => (List.nodup_cons.mp h.outside_nodup).1 (e ▸ hb)

theorem ne_of_active (h : Consistent q (a :: outside)) {b n : ℕ}
    (hb : toLex (b, n) ∈ q.activeTimers_) : b ≠ a := by
  rintro rfl
  obtain ⟨t, ht, hn⟩ := h.head_alive
  obtain ⟨u, hu, hun⟩ := h.mem_active b n hb
  cases ht.symm.trans hu
  exact hn (hun ▸ hb)

/-! ## The heap -/

theorem store (h : Consistent q outside) (ha : q.heap a = none) (hlt : a < UINTPTR_MAX) :
    Consistent (q.store a t) (a :: outside) := by
  have hne {b n : ℕ} (hb : toLex (b, n) ∈ q.activeTimers_) : b ≠ a := by
    rintro rfl
    obtain ⟨u, hu, -⟩ := h.mem_active b n hb
    cases ha.symm.trans hu
  refine ⟨h.size_eq, fun when b => ?_, fun b n hb => ?_, fun b u hu => ?_, fun b hb => ?_,
    List.nodup_cons.mpr ⟨fun hmem => ?_, h.outside_nodup⟩, fun b u hu => ?_⟩
  · change toLex (when, b) ∈ q.timers_ ↔ _
    rw [h.mem_timers]
    by_cases hba : b = a
    · subst hba
      simp only [ha, reduceCtorEq, false_and, exists_false, false_iff]
      rintro ⟨u, -, -, hmem⟩
      exact hne hmem rfl
    · simp [TimerQueue.store, hba]
  · obtain ⟨u, hu, hn⟩ := h.mem_active b n hb
    exact ⟨u, by simpa [TimerQueue.store, hne hb] using hu, hn⟩
  · by_cases hba : b = a
    · exact Or.inr (hba ▸ List.mem_cons_self ..)
    · exact (h.held b u (by simpa [TimerQueue.store, hba] using hu)).imp_right
        (List.mem_cons_of_mem a)
  · by_cases hba : b = a
    · subst hba
      exact ⟨t, by simp [TimerQueue.store], fun hmem => hne hmem rfl⟩
    · obtain ⟨u, hu, hn⟩ := h.outside_alive b ((List.mem_cons.mp hb).resolve_left hba)
      exact ⟨u, by simpa [TimerQueue.store, hba] using hu, hn⟩
  · obtain ⟨u, hu, -⟩ := h.outside_alive a hmem
    cases ha.symm.trans hu
  · by_cases hba : b = a
    · exact hba ▸ hlt
    · exact h.address_lt b u (by simpa [TimerQueue.store, hba] using hu)

theorem release (h : Consistent q (a :: outside)) : Consistent (q.release a) outside := by
  refine ⟨h.size_eq, fun when b => ?_, fun b n hb => ?_, fun b u hu => ?_, fun b hb => ?_,
    (List.nodup_cons.mp h.outside_nodup).2, fun b u hu => ?_⟩
  · change toLex (when, b) ∈ q.timers_ ↔ _
    rw [h.mem_timers]
    by_cases hba : b = a
    · subst hba
      simp only [TimerQueue.release, Function.update_self, reduceCtorEq, false_and, exists_false,
        iff_false]
      rintro ⟨u, -, -, hmem⟩
      exact h.ne_of_active hmem rfl
    · simp [TimerQueue.release, hba]
  · obtain ⟨u, hu, hn⟩ := h.mem_active b n hb
    exact ⟨u, by simpa [TimerQueue.release, h.ne_of_active hb] using hu, hn⟩
  · obtain ⟨hba, hu⟩ := heap_release.mp hu
    exact (h.held b u hu).imp_right fun hmem => (List.mem_cons.mp hmem).resolve_left hba
  · obtain ⟨u, hu, hn⟩ := h.outside_alive b (List.mem_cons_of_mem a hb)
    exact ⟨u, by simpa [TimerQueue.release, h.ne_of_mem hb] using hu, hn⟩
  · exact h.address_lt b u (heap_release.mp hu).2

/-! ## The two sets -/

theorem inserted (h : Consistent q (a :: outside)) (ht : q.heap a = some t) :
    Consistent (q.inserted a t) outside := by
  obtain ⟨hnew, hnew'⟩ := h.fresh ht
  refine ⟨?_, fun when b => ?_, fun b n hb => ?_, fun b u hu => ?_, fun b hb => ?_,
    (List.nodup_cons.mp h.outside_nodup).2, h.address_lt⟩
  · have := h.size_eq
    simp only [TimerQueue.inserted, OrderedSet.size_insert hnew, OrderedSet.size_insert hnew']
    omega
  · simp only [TimerQueue.inserted, OrderedSet.mem_insert, h.mem_timers, toLex_inj, Prod.mk.injEq]
    constructor
    · rintro (⟨rfl, rfl⟩ | ⟨u, hu, hwhen, hmem⟩)
      · exact ⟨t, ht, rfl, Or.inl ⟨rfl, rfl⟩⟩
      · exact ⟨u, hu, hwhen, Or.inr hmem⟩
    · rintro ⟨u, hu, hwhen, ⟨rfl, -⟩ | hmem⟩
      · cases ht.symm.trans hu
        exact Or.inl ⟨hwhen.symm, rfl⟩
      · exact Or.inr ⟨u, hu, hwhen, hmem⟩
  · rcases OrderedSet.mem_insert.mp hb with he | hb
    · cases he
      exact ⟨t, ht, rfl⟩
    · exact h.mem_active b n hb
  · rcases h.held b u hu with hmem | hmem
    · exact Or.inl (OrderedSet.mem_insert.mpr (Or.inr hmem))
    · rcases List.mem_cons.mp hmem with rfl | hmem
      · cases ht.symm.trans hu
        exact Or.inl (OrderedSet.mem_insert.mpr (Or.inl rfl))
      · exact Or.inr hmem
  · obtain ⟨u, hu, hn⟩ := h.outside_alive b (List.mem_cons_of_mem a hb)
    refine ⟨u, hu, fun hmem => ?_⟩
    rcases OrderedSet.mem_insert.mp hmem with he | hmem
    · exact h.ne_of_mem hb (congrArg (fun x => (ofLex x).1) he)
    · exact hn hmem

theorem removed (h : Consistent q outside) (ht : q.heap a = some t)
    (hmem : toLex (a, t.sequence_) ∈ q.activeTimers_) :
    Consistent (q.removed a t) (a :: outside) := by
  have hentry := (h.mem_timers_iff ht).mpr hmem
  refine ⟨?_, fun when b => ?_, fun b n hb => ?_, fun b u hu => ?_, fun b hb => ?_,
    List.nodup_cons.mpr ⟨fun hout => ?_, h.outside_nodup⟩, h.address_lt⟩
  · have := h.size_eq
    have := OrderedSet.size_erase hentry
    have := OrderedSet.size_erase hmem
    simp only [TimerQueue.removed]
    omega
  · simp only [TimerQueue.removed, OrderedSet.mem_erase, h.mem_timers, ne_eq, toLex_inj,
      Prod.mk.injEq]
    constructor
    · rintro ⟨⟨u, hu, hwhen, hb⟩, hne⟩
      refine ⟨u, hu, hwhen, hb, ?_⟩
      rintro ⟨rfl, -⟩
      cases ht.symm.trans hu
      exact hne ⟨hwhen.symm, rfl⟩
    · rintro ⟨u, hu, hwhen, hb, hne⟩
      refine ⟨⟨u, hu, hwhen, hb⟩, ?_⟩
      rintro ⟨-, rfl⟩
      cases ht.symm.trans hu
      exact hne ⟨rfl, rfl⟩
  · exact h.mem_active b n (OrderedSet.mem_erase.mp hb).1
  · by_cases hba : b = a
    · exact Or.inr (hba ▸ List.mem_cons_self ..)
    · refine (h.held b u hu).imp (fun hb => OrderedSet.mem_erase.mpr ⟨hb, fun he => hba ?_⟩)
        (List.mem_cons_of_mem a)
      exact congrArg (fun x => (ofLex x).1) he
  · rcases List.mem_cons.mp hb with rfl | hb
    · exact ⟨t, ht, fun hb => (OrderedSet.mem_erase.mp hb).2 rfl⟩
    · obtain ⟨u, hu, hn⟩ := h.outside_alive b hb
      exact ⟨u, hu, fun hb => hn (OrderedSet.mem_erase.mp hb).1⟩
  · obtain ⟨u, hu, hn⟩ := h.outside_alive a hout
    cases ht.symm.trans hu
    exact hn hmem

/-! ## The operations -/

theorem insert_eq (h : Consistent q (a :: outside)) (ht : q.heap a = some t) :
    ∃ earliestChanged, q.insert a = .ok (q.inserted a t, earliestChanged) := by
  obtain ⟨hnew, hnew'⟩ := h.fresh ht
  have hsize := (h.inserted ht).size_eq
  simp only [TimerQueue.inserted] at hsize
  simp [TimerQueue.insert, TimerQueue.inserted, deref, ht, h.size_eq, hsize, bind, Except.bind,
    OrderedSet.insert_isNew hnew, OrderedSet.insert_isNew hnew', pure, Except.pure]

theorem addTimerInLoop_eq (h : Consistent q (a :: outside)) (ht : q.heap a = some t)
    (clock : Timestamp) :
    ∃ fd, q.addTimerInLoop a clock = .ok { q.inserted a t with timerfd_ := fd } := by
  obtain ⟨earliestChanged, hinsert⟩ := h.insert_eq ht
  have hderef : (q.inserted a t).deref a = .ok t := by simp [TimerQueue.inserted, deref, ht]
  rw [addTimerInLoop, hinsert]
  cases earliestChanged with
  | true =>
    refine ⟨some (clock + howMuchTimeFromNow t.expiration_ clock), ?_⟩
    simp [bind, Except.bind, hderef, resetTimerfd, pure, Except.pure]
  | false => exact ⟨q.timerfd_, rfl⟩

/-- What `cancelInLoop` does: it deletes the Timer, it marks it in the batch being run,
or it finds nothing to cancel. -/
theorem cancelInLoop_cases (h : Consistent q outside) (id : TimerId) :
    (id.active ∈ q.activeTimers_ ∧ ∃ t, q.heap id.timer_ = some t ∧ t.sequence_ = id.sequence_ ∧
      q.cancelInLoop id = .ok ((q.removed id.timer_ t).release id.timer_)) ∨
    (id.active ∉ q.activeTimers_ ∧ q.callingExpiredTimers_ = true ∧ q.cancelInLoop id =
      .ok { q with cancelingTimers_ := (q.cancelingTimers_.insert id.active).1 }) ∨
    (id.active ∉ q.activeTimers_ ∧ q.callingExpiredTimers_ = false ∧ q.cancelInLoop id = .ok q) := by
  by_cases hmem : id.active ∈ q.activeTimers_
  · obtain ⟨t, ht, hn⟩ := h.mem_active id.timer_ id.sequence_ hmem
    have hactive : id.active = toLex (id.timer_, t.sequence_) := by rw [TimerId.active, hn]
    have hremoved := h.removed ht (hactive ▸ hmem)
    have hentry := (h.mem_timers_iff ht).mpr (hactive ▸ hmem)
    have hsize := hremoved.size_eq
    simp only [TimerQueue.removed] at hsize
    refine Or.inl ⟨hmem, t, ht, hn, ?_⟩
    rw [hactive] at hmem
    simp [cancelInLoop, hmem, eraseActiveTimer, deref, TimerQueue.delete, ht, h.size_eq,
      OrderedSet.erase_count hentry, TimerQueue.removed, TimerQueue.release, hactive, hsize,
      bind, Except.bind, pure, Except.pure]
  · cases hcalling : q.callingExpiredTimers_ with
    | true =>
      refine Or.inr (Or.inl ⟨hmem, rfl, ?_⟩)
      simp [cancelInLoop, hmem, hcalling, h.size_eq, bind, Except.bind, pure, Except.pure]
    | false =>
      refine Or.inr (Or.inr ⟨hmem, rfl, ?_⟩)
      simp [cancelInLoop, hmem, hcalling, h.size_eq, bind, Except.bind, pure, Except.pure]

theorem eraseExpired_eq (es : List Entry) (q : TimerQueue) (hnodup : (es.map Entry.timer).Nodup)
    (hes : ∀ e ∈ es, ∃ t, q.heap e.timer = some t ∧
      toLex (e.timer, t.sequence_) ∈ q.activeTimers_) :
    ∃ active, q.eraseExpired es = .ok { q with activeTimers_ := active } ∧
      active.size + es.length = q.activeTimers_.size ∧
      ∀ a n, toLex (a, n) ∈ active ↔
        toLex (a, n) ∈ q.activeTimers_ ∧ ∀ e ∈ es, e.timer = a → ¬ q.Alive ⟨a, n⟩ := by
  induction es generalizing q with
  | nil => exact ⟨q.activeTimers_, rfl, rfl, fun a n => by simp⟩
  | cons e es ih =>
    obtain ⟨t, ht, hmem⟩ := hes e (List.mem_cons_self ..)
    obtain ⟨hnew, hnodup⟩ := List.nodup_cons.mp hnodup
    obtain ⟨active, heq, hsize, hactive⟩ :=
      ih { q with activeTimers_ := (q.activeTimers_.erase (toLex (e.timer, t.sequence_))).1 } hnodup
        fun e' he' => by
          obtain ⟨u, hu, hmem'⟩ := hes e' (List.mem_cons_of_mem e he')
          refine ⟨u, hu, OrderedSet.mem_erase.mpr ⟨hmem', fun hsame => hnew ?_⟩⟩
          have htimer : e'.timer = e.timer := congrArg (fun x => (ofLex x).1) hsame
          exact htimer ▸ List.mem_map_of_mem he'
    refine ⟨active, ?_, ?_, fun a n => ?_⟩
    · simpa [eraseExpired, deref, ht, OrderedSet.erase_count hmem, bind, Except.bind] using heq
    · have := OrderedSet.size_erase hmem
      simp only [List.length_cons] at hsize ⊢
      omega
    · rw [hactive, OrderedSet.mem_erase, List.forall_mem_cons, and_assoc]
      refine and_congr_right fun _ => and_congr_left fun _ => ⟨?_, ?_⟩
      · rintro hne rfl hn
        exact hne (by rw [hn.unique ⟨t, ht, rfl⟩])
      · intro hn he
        obtain ⟨rfl, rfl⟩ := Prod.mk.inj (toLex.injective he)
        exact hn rfl ⟨t, ht, rfl⟩

theorem expired_nodup (h : Consistent q outside) (now : Timestamp) :
    ((q.timers_.below (sentry now)).map Entry.timer).Nodup := by
  refine List.Nodup.map_on (fun e he e' he' hsame => ?_) OrderedSet.nodup_below
  obtain ⟨t, ht, hwhen, -⟩ := (h.mem_timers (ofLex e).1 (ofLex e).2).mp (OrderedSet.mem_below.mp he).1
  obtain ⟨u, hu, hwhen', -⟩ :=
    (h.mem_timers (ofLex e').1 (ofLex e').2).mp (OrderedSet.mem_below.mp he').1
  have htimer : (ofLex e).2 = (ofLex e').2 := hsame
  rw [htimer] at ht
  cases ht.symm.trans hu
  exact ofLex.injective (Prod.ext (hwhen.symm.trans hwhen') htimer)

/-- No Timer lies at the address of the sentry. -/
theorem lt_of_sentry_le (h : Consistent q outside) {now : Timestamp} {e : Entry}
    (hmem : e ∈ q.timers_) (hle : sentry now ≤ e) : now < (ofLex e).1 := by
  obtain ⟨t, ht, -, -⟩ := (h.mem_timers (ofLex e).1 (ofLex e).2).mp hmem
  have hlt := h.address_lt _ t ht
  rcases Prod.Lex.le_iff.mp hle with hlt' | ⟨-, hle'⟩
  · exact hlt'
  · exact absurd hle' (Nat.not_le_of_lt hlt)

theorem lowerBound_sentry (h : Consistent q outside) (now : Timestamp) :
    ∀ it ∈ q.timers_.lowerBound (sentry now), now < (ofLex it).1 := by
  intro it hit
  obtain ⟨hmem, hle⟩ := OrderedSet.mem_of_lowerBound hit
  exact h.lt_of_sentry_le hmem hle

/-- The addresses of the Timers that expire at `now`. -/
theorem mem_expired (h : Consistent q outside) (ht : q.heap a = some t)
    (hmem : toLex (a, t.sequence_) ∈ q.activeTimers_) (now : Timestamp) :
    a ∈ (q.timers_.below (sentry now)).map Entry.timer ↔ toLex (t.expiration_, a) < sentry now := by
  rw [List.mem_map]
  constructor
  · rintro ⟨e, he, rfl⟩
    obtain ⟨he, hlt⟩ := OrderedSet.mem_below.mp he
    obtain ⟨u, hu, hwhen, -⟩ := (h.mem_timers (ofLex e).1 e.timer).mp he
    cases ht.symm.trans hu
    rwa [hwhen]
  · intro hlt
    exact ⟨_, OrderedSet.mem_below.mpr ⟨(h.mem_timers_iff ht).mpr hmem, hlt⟩, rfl⟩

theorem expired_alive (h : Consistent q outside) {now : Timestamp} {e : Entry}
    (he : e ∈ q.timers_.below (sentry now)) :
    ∃ t, q.heap e.timer = some t ∧ toLex (e.timer, t.sequence_) ∈ q.activeTimers_ := by
  obtain ⟨t, ht, -, hmem⟩ :=
    (h.mem_timers (ofLex e).1 (ofLex e).2).mp (OrderedSet.mem_below.mp he).1
  exact ⟨t, ht, hmem⟩

/-- Taking the expired Timers out of both sets moves them outside. -/
theorem withoutExpired (h : Consistent q outside) {now : Timestamp}
    {active : OrderedSet ActiveTimer}
    (hsize : (q.timers_.eraseBelow (sentry now)).size = active.size)
    (hmem : ∀ a n, toLex (a, n) ∈ active ↔
      toLex (a, n) ∈ q.activeTimers_ ∧ a ∉ (q.timers_.below (sentry now)).map Entry.timer) :
    Consistent { q with timers_ := q.timers_.eraseBelow (sentry now), activeTimers_ := active }
      ((q.timers_.below (sentry now)).map Entry.timer ++ outside) := by
  refine ⟨hsize, fun when a => ?_, fun a n ha => ?_, fun a t ht => ?_, fun a ha => ?_, ?_,
    h.address_lt⟩
  · simp only [OrderedSet.mem_eraseBelow, h.mem_timers, hmem]
    constructor
    · rintro ⟨⟨t, ht, rfl, hin⟩, hle⟩
      exact ⟨t, ht, rfl, hin, fun hout => not_lt_of_ge hle ((h.mem_expired ht hin now).mp hout)⟩
    · rintro ⟨t, ht, rfl, hin, hout⟩
      exact ⟨⟨t, ht, rfl, hin⟩, le_of_not_gt fun hlt => hout ((h.mem_expired ht hin now).mpr hlt)⟩
  · exact h.mem_active a n ((hmem a n).mp ha).1
  · by_cases hout : a ∈ (q.timers_.below (sentry now)).map Entry.timer
    · exact Or.inr (List.mem_append_left _ hout)
    · exact (h.held a t ht).imp (fun hin => (hmem a _).mpr ⟨hin, hout⟩) (List.mem_append_right _)
  · rcases List.mem_append.mp ha with hout | ha
    · obtain ⟨e, he, rfl⟩ := List.mem_map.mp hout
      obtain ⟨t, ht, -⟩ := h.expired_alive he
      exact ⟨t, ht, fun hin => ((hmem _ _).mp hin).2 hout⟩
    · obtain ⟨t, ht, hn⟩ := h.outside_alive a ha
      exact ⟨t, ht, fun hin => hn ((hmem _ _).mp hin).1⟩
  · refine List.nodup_append.mpr ⟨h.expired_nodup now, h.outside_nodup, fun a ha b hb he => ?_⟩
    subst he
    obtain ⟨e, he, rfl⟩ := List.mem_map.mp ha
    obtain ⟨t, ht, hin⟩ := h.expired_alive he
    obtain ⟨u, hu, hn⟩ := h.outside_alive _ hb
    cases ht.symm.trans hu
    exact hn hin

theorem getExpired_eq (h : Consistent q outside) (now : Timestamp) :
    ∃ active, q.getExpired now =
        .ok ({ q with timers_ := q.timers_.eraseBelow (sentry now), activeTimers_ := active },
          q.timers_.below (sentry now)) ∧
      Consistent { q with timers_ := q.timers_.eraseBelow (sentry now), activeTimers_ := active }
        ((q.timers_.below (sentry now)).map Entry.timer ++ outside) ∧
      ∀ a n, toLex (a, n) ∈ active ↔
        toLex (a, n) ∈ q.activeTimers_ ∧ a ∉ (q.timers_.below (sentry now)).map Entry.timer := by
  obtain ⟨active, heq, hsize, hactive⟩ := eraseExpired_eq (q.timers_.below (sentry now))
    { q with timers_ := q.timers_.eraseBelow (sentry now) } (h.expired_nodup now)
    fun _ he => h.expired_alive he
  have hmem (a n : ℕ) : toLex (a, n) ∈ active ↔
      toLex (a, n) ∈ q.activeTimers_ ∧ a ∉ (q.timers_.below (sentry now)).map Entry.timer := by
    rw [hactive]
    refine and_congr_right fun hin => ?_
    simp only [List.mem_map, not_exists, not_and]
    exact forall₂_congr fun e _ =>
      ⟨fun hn he => hn he (h.mem_active a n hin), fun hn he => absurd he hn⟩
  have hsizes := OrderedSet.size_eraseBelow (s := q.timers_) (x := sentry now)
  have heq' : (q.timers_.eraseBelow (sentry now)).size = active.size := by
    have := h.size_eq
    simp only at hsize
    omega
  refine ⟨active, ?_, h.withoutExpired heq' hmem, hmem⟩
  rw [getExpired, assert_pos h.size_eq, assert_pos (h.lowerBound_sentry now)]
  simp [heq, heq', bind, Except.bind, pure, Except.pure]

theorem beginRead_eq (h : Consistent q outside) (now : Timestamp) :
    ∃ q', q.beginRead now = .ok (q', q.timers_.below (sentry now)) ∧
      Consistent q' ((q.timers_.below (sentry now)).map Entry.timer ++ outside) ∧
      q'.heap = q.heap ∧ q'.callingExpiredTimers_ = true ∧
      q'.cancelingTimers_ = OrderedSet.empty ∧
      ∀ a n, toLex (a, n) ∈ q'.activeTimers_ ↔
        toLex (a, n) ∈ q.activeTimers_ ∧ a ∉ (q.timers_.below (sentry now)).map Entry.timer := by
  have hread : Consistent (q.readTimerfd now) outside := h.update _ _ _
  obtain ⟨active, heq, hc, hmem⟩ := hread.getExpired_eq now
  refine ⟨_, ?_, hc.update OrderedSet.empty true (q.readTimerfd now).timerfd_, rfl, rfl, rfl, hmem⟩
  rw [beginRead, heq]
  rfl

/-- Storing another value at the address of a Timer outside the sets. -/
theorem restarted (h : Consistent q (a :: outside)) (u : Timer) :
    Consistent (q.store a u) (a :: outside) := by
  obtain ⟨t, ht, -⟩ := h.head_alive
  have hstore : (q.release a).store a u = q.store a u := by
    simp [TimerQueue.store, TimerQueue.release, Function.update_idem]
  exact hstore ▸ h.release.store (by simp [TimerQueue.release]) (h.address_lt a t ht)

end Consistent

/-- `reset` puts the Timer of an entry back. -/
def putsBack (q : TimerQueue) (e : Entry) (u : Timer) : Prop :=
  q.heap e.timer = some u ∧ u.repeat_ = true ∧
    toLex (e.timer, u.sequence_) ∉ q.cancelingTimers_

/-- What a turn of the loop in `reset` does to the sets. -/
structure Restarted (q q' : TimerQueue) (it : Entry) : Prop where
  keeps : Keeps q q'
  canceling_eq : q'.cancelingTimers_ = q.cancelingTimers_
  calling_eq : q'.callingExpiredTimers_ = q.callingExpiredTimers_
  heap : ∀ a, a ≠ it.timer → q'.heap a = q.heap a
  active : ∀ a n, toLex (a, n) ∈ q'.activeTimers_ →
    toLex (a, n) ∈ q.activeTimers_ ∨ ∃ u, q.putsBack it u ∧ a = it.timer ∧ n = u.sequence_

namespace Consistent

variable {q : TimerQueue} {outside : List ℕ}

/-- A turn of the loop in `reset` puts a repeated Timer back that is not marked, and
deletes any other. -/
theorem resetTimer_cases (it : Entry) (h : Consistent q (it.timer :: outside)) (now : Timestamp) :
    ∃ t, q.heap it.timer = some t ∧
      (q.putsBack it t ∧
          (q.store it.timer (t.restart now)).heap it.timer = some (t.restart now) ∧
          q.resetTimer now it =
            .ok ((q.store it.timer (t.restart now)).inserted it.timer (t.restart now), none) ∧
          Consistent ((q.store it.timer (t.restart now)).inserted it.timer (t.restart now)) outside ∨
        ¬ q.putsBack it t ∧
          q.resetTimer now it = .ok (q.release it.timer, some it.timer) ∧
          Consistent (q.release it.timer) outside) := by
  obtain ⟨t, ht, -⟩ := h.head_alive
  refine ⟨t, ht, ?_⟩
  by_cases hrepeat : t.repeat_ = true ∧ toLex (it.timer, t.sequence_) ∉ q.cancelingTimers_
  · left
    have hu : (q.store it.timer (t.restart now)).heap it.timer = some (t.restart now) := by
      simp [TimerQueue.store]
    obtain ⟨earliestChanged, hinsert⟩ := (h.restarted (t.restart now)).insert_eq hu
    refine ⟨⟨ht, hrepeat⟩, hu, ?_, (h.restarted (t.restart now)).inserted hu⟩
    simp [resetTimer, deref, ht, hrepeat, hinsert, bind, Except.bind, pure, Except.pure]
  · right
    refine ⟨fun hputs => hrepeat hputs.2, ?_, h.release⟩
    simp [resetTimer, deref, ht, hrepeat, TimerQueue.delete, bind, Except.bind, pure, Except.pure]

theorem resetTimer_ok (it : Entry) (h : Consistent q (it.timer :: outside)) (now : Timestamp) :
    ∃ q' deleted, q.resetTimer now it = .ok (q', deleted) ∧ Consistent q' outside ∧
      Restarted q q' it := by
  obtain ⟨t, ht, ⟨hputs, hu, heq, hc⟩ | ⟨-, heq, hc⟩⟩ := h.resetTimer_cases it now
  · refine ⟨_, _, heq, hc, ⟨?_, rfl, rfl, ?_, ?_⟩⟩
    · rintro ⟨b, n⟩ ⟨u, hb, hn⟩
      by_cases hbt : b = it.timer
      · subst hbt
        cases hu.symm.trans hb
        exact ⟨t, ht, hn⟩
      · exact ⟨u, by simpa [TimerQueue.inserted, TimerQueue.store, hbt] using hb, hn⟩
    · intro a ha
      simp [TimerQueue.inserted, TimerQueue.store, ha]
    · intro b n hb
      rcases OrderedSet.mem_insert.mp hb with he | hb
      · obtain ⟨rfl, rfl⟩ := Prod.mk.inj (toLex.injective he)
        exact Or.inr ⟨t, hputs, rfl, rfl⟩
      · exact Or.inl hb
  · refine ⟨_, _, heq, hc, keeps_release q it.timer, rfl, rfl, fun a ha => ?_, fun b n => Or.inl⟩
    simp [TimerQueue.release, ha]

theorem nextExpire_ok (h : Consistent q outside) : ∃ when, q.nextExpire = .ok when := by
  rw [nextExpire]
  cases hfirst : q.timers_.first? with
  | none => exact ⟨_, rfl⟩
  | some it =>
    obtain ⟨t, ht, -, -⟩ :=
      (h.mem_timers (ofLex it).1 it.timer).mp (OrderedSet.mem_of_first? hfirst)
    exact ⟨t.expiration_, by simp [deref, ht, bind, Except.bind, pure, Except.pure]⟩

/-- The end of `reset` only arms the descriptor. -/
theorem endReset_eq (h : Consistent q outside) (clock : Timestamp) :
    ∃ fd, q.endReset clock = .ok { q with timerfd_ := fd } := by
  obtain ⟨when, hwhen⟩ := h.nextExpire_ok
  have hreset : q.endReset clock = .ok (if when.valid then q.resetTimerfd when clock else q) := by
    simp [endReset, hwhen, bind, Except.bind, pure, Except.pure]
  cases hvalid : when.valid with
  | true =>
    refine ⟨some (clock + howMuchTimeFromNow when clock), ?_⟩
    rw [hreset, hvalid]
    rfl
  | false =>
    refine ⟨q.timerfd_, ?_⟩
    rw [hreset, hvalid]
    rfl

end Consistent

theorem ne_of_notMem {active : OrderedSet ActiveTimer} {id : TimerId} {a n : ℕ}
    (h : id.active ∉ active) (hin : toLex (a, n) ∈ active) : ⟨a, n⟩ ≠ id := by
  rintro rfl
  exact h hin

/-- What a cancel of `id` does: at most the Timer named by `id` leaves the sets and is
deleted, and a Timer in the batch being run is marked. -/
structure Cancelled (q q' : TimerQueue) (id : TimerId) : Prop where
  held : ∀ a u, q'.heap a = some u → q.heap a = some u
  calling_eq : q'.callingExpiredTimers_ = q.callingExpiredTimers_
  active : ∀ a n, toLex (a, n) ∈ q'.activeTimers_ ↔ toLex (a, n) ∈ q.activeTimers_ ∧ ⟨a, n⟩ ≠ id
  timers : ∀ when a, toLex (when, a) ∈ q.timers_ → toLex (when, a) ∉ q'.timers_ →
    a = id.timer_ ∧ q.Alive id
  heap : ∀ a, q'.heap a ≠ q.heap a → a = id.timer_ ∧ q.Alive id
  canceling : ∀ x ∈ q.cancelingTimers_, x ∈ q'.cancelingTimers_
  marked : id.active ∉ q.activeTimers_ → q.callingExpiredTimers_ = true →
    id.active ∈ q'.cancelingTimers_

theorem Cancelled.keeps {q q' : TimerQueue} {id : TimerId} (h : Cancelled q q' id) : Keeps q q' := by
  rintro id' ⟨u, hu, hn⟩
  exact ⟨u, h.held _ u hu, hn⟩

namespace Consistent

variable {q : TimerQueue} {outside : List ℕ}

theorem cancelled_removed (h : Consistent q outside) {id : TimerId} {t : Timer}
    (hmem : id.active ∈ q.activeTimers_) (ht : q.heap id.timer_ = some t)
    (hn : t.sequence_ = id.sequence_) :
    Consistent ((q.removed id.timer_ t).release id.timer_) outside ∧
      Cancelled q ((q.removed id.timer_ t).release id.timer_) id := by
  have hactive : id.active = toLex (id.timer_, t.sequence_) := by rw [TimerId.active, hn]
  refine ⟨(h.removed ht (hactive ▸ hmem)).release, fun a u hu => (heap_release.mp hu).2, rfl,
    fun a n => ?_, fun when a hin hout => ?_, fun a ha => ?_, fun x hx => hx,
    fun hout => absurd hmem hout⟩
  · rw [TimerQueue.release, TimerQueue.removed, OrderedSet.mem_erase, ← hactive]
    refine and_congr_right fun _ => not_congr ⟨fun he => ?_, fun he => ?_⟩
    · obtain ⟨rfl, rfl⟩ := Prod.mk.inj (toLex.injective he)
      rfl
    · subst he
      rfl
  · simp only [TimerQueue.release, TimerQueue.removed, OrderedSet.mem_erase, not_and, not_not]
      at hout
    exact ⟨congrArg (fun e => (ofLex e).2) (hout hin), t, ht, hn⟩
  · by_cases hat : a = id.timer_
    · exact ⟨hat, t, ht, hn⟩
    · exact absurd (by simp [TimerQueue.release, TimerQueue.removed, hat]) ha

theorem cancelInLoop_ok (h : Consistent q outside) (id : TimerId) :
    ∃ q', q.cancelInLoop id = .ok q' ∧ Consistent q' outside ∧ Cancelled q q' id := by
  rcases h.cancelInLoop_cases id with ⟨hmem, t, ht, hn, heq⟩ | ⟨hmem, -, heq⟩ | ⟨hmem, hcall, heq⟩
  · obtain ⟨hc, hcancelled⟩ := h.cancelled_removed hmem ht hn
    exact ⟨_, heq, hc, hcancelled⟩
  · refine ⟨_, heq, h.update _ _ _, fun _ _ hu => hu, rfl, fun a n => ?_, fun _ _ hin hout => ?_,
      fun a ha => absurd rfl ha, fun x hx => OrderedSet.mem_insert.mpr (Or.inr hx),
      fun _ _ => OrderedSet.mem_insert.mpr (Or.inl rfl)⟩
    · exact (and_iff_left_of_imp (ne_of_notMem hmem)).symm
    · exact absurd hin hout
  · refine ⟨q, heq, h, fun _ _ hu => hu, rfl, fun a n => ?_, fun _ _ hin hout => absurd hin hout,
      fun a ha => absurd rfl ha, fun x hx => hx, fun _ hcalling => ?_⟩
    · exact (and_iff_left_of_imp (ne_of_notMem hmem)).symm
    · rw [hcall] at hcalling
      cases hcalling

end Consistent

end ReactorNet.TimerQueue
