import ReactorNet.TimeWheel

/-!
# Invariants of the time wheel

What holds of every connection in every run: an Entry lives as long as it is referenced,
no bucket that holds it is newer than the latest call of its connection, and it is gone
only after its connection has been shut down, if that was still alive. The list is empty
before the first tick only.
-/
namespace ReactorNet.TimeWheel

open GuardedRuns

/-! ## Buckets -/

/-- The Entry of `c` is in the bucket that was pushed `d` ticks ago. -/
def Held (list_ : BucketList) (c d : ℕ) : Prop := ∃ b, list_.items[d]? = some b ∧ c ∈ b

theorem Held.age_lt {list_ : BucketList} {c d : ℕ} (h : Held list_ c d) : d < 8 := by
  obtain ⟨b, hb, -⟩ := h
  exact CircularBuffer.age_lt hb

theorem held_pushBack {list_ : BucketList} {c d : ℕ} :
    Held (list_.pushBack []) c d ↔ ∃ e, d = e + 1 ∧ d < 8 ∧ Held list_ c e := by
  cases d with
  | zero => simp [Held]
  | succ e =>
    simp only [Held, CircularBuffer.pushBack_older]
    by_cases he : e + 1 < 8
    · simp [he]
    · simp [he]

theorem held_insert_self {list_ : BucketList} (h : list_.items ≠ []) (c : ℕ) :
    Held (list_.modifyBack (List.insert c)) c 0 := by
  obtain ⟨b, rest, hitems⟩ := List.exists_cons_of_ne_nil h
  refine ⟨b.insert c, ?_, List.mem_insert_self⟩
  rw [CircularBuffer.modifyBack_newest, hitems]
  rfl

theorem held_insert_of_held {list_ : BucketList} {c d : ℕ} (h : Held list_ c d) (c' : ℕ) :
    Held (list_.modifyBack (List.insert c')) c d := by
  obtain ⟨b, hb, hc⟩ := h
  cases d with
  | zero =>
    refine ⟨b.insert c', ?_, List.mem_insert_of_mem hc⟩
    rw [CircularBuffer.modifyBack_newest, hb]
    rfl
  | succ d =>
    refine ⟨b, ?_, hc⟩
    rw [CircularBuffer.modifyBack_older, hb]

theorem held_of_held_insert {list_ : BucketList} {c c' d : ℕ} (hne : c ≠ c')
    (h : Held (list_.modifyBack (List.insert c')) c d) : Held list_ c d := by
  obtain ⟨b, hb, hc⟩ := h
  cases d with
  | zero =>
    rw [CircularBuffer.modifyBack_newest] at hb
    obtain ⟨b', hb', rfl⟩ := Option.map_eq_some_iff.mp hb
    exact ⟨b', hb', (List.mem_insert_iff.mp hc).resolve_left hne⟩
  | succ d =>
    rw [CircularBuffer.modifyBack_older] at hb
    exact ⟨b, hb, hc⟩

theorem referenced_iff {s : TimeWheel} {c : ℕ} :
    s.referenced c = true ↔
      (s.conns c).call.holdsEntry = true ∨ ∃ d, Held s.list_ c d := by
  simp only [referenced, Bool.or_eq_true, List.any_eq_true, decide_eq_true_eq]
  constructor
  · rintro (h | ⟨b, hb, hc⟩)
    · exact Or.inl h
    · obtain ⟨d, hd⟩ := List.getElem?_of_mem hb
      exact Or.inr ⟨d, b, hd, hc⟩
  · rintro (h | ⟨d, b, hb, hc⟩)
    · exact Or.inl h
    · exact Or.inr ⟨b, List.mem_of_getElem? hb, hc⟩

/-! ## Releasing an Entry -/

@[simp] theorem set_self (s : TimeWheel) (c : ℕ) (conn : WheelConnection) :
    (s.set c conn).conns c = conn := Function.update_self ..

theorem set_other (s : TimeWheel) {c c' : ℕ} (h : c' ≠ c) (conn : WheelConnection) :
    (s.set c conn).conns c' = s.conns c' := Function.update_of_ne h ..

/-- What the last release of an Entry does; any other release does nothing. -/
theorem releaseEntry_cases (s : TimeWheel) (c : ℕ) :
    (s.releaseEntry c = s ∧ ((s.conns c).entry = .live → s.referenced c = true)) ∨
      ((s.conns c).entry = .live ∧ s.referenced c = false ∧
        (s.releaseEntry c).conns =
          Function.update s.conns c { s.conns c with entry := .destroyed } ∧
        (s.releaseEntry c).kicks =
          (if (s.conns c).alive then [⟨c, s.ticks, (s.conns c).lastCall⟩] else []) ++ s.kicks) := by
  by_cases h : (s.conns c).entry = .live ∧ s.referenced c = false
  · right
    rw [releaseEntry, if_pos h, destroyEntry]
    refine ⟨h.1, h.2, ?_, ?_⟩
    · split <;> rfl
    · split <;> rfl
  · left
    rw [releaseEntry, if_neg h]
    refine ⟨rfl, fun hlive => ?_⟩
    by_contra hunref
    exact h ⟨hlive, by simpa using hunref⟩

@[simp] theorem releaseEntry_list (s : TimeWheel) (c : ℕ) : (s.releaseEntry c).list_ = s.list_ := by
  rw [releaseEntry, destroyEntry]
  split
  · split <;> rfl
  · rfl

@[simp] theorem releaseEntry_ticks (s : TimeWheel) (c : ℕ) : (s.releaseEntry c).ticks = s.ticks := by
  rw [releaseEntry, destroyEntry]
  split
  · split <;> rfl
  · rfl

@[simp] theorem releaseEntry_outOfRange (s : TimeWheel) (c : ℕ) :
    (s.releaseEntry c).outOfRange = s.outOfRange := by
  rw [releaseEntry, destroyEntry]
  split
  · split <;> rfl
  · rfl

theorem release_all_outOfRange (s : TimeWheel) (dropped : List ℕ) :
    (dropped.foldl TimeWheel.releaseEntry s).outOfRange = s.outOfRange := by
  induction dropped generalizing s with
  | nil => rfl
  | cons c dropped ih => rw [List.foldl_cons, ih, releaseEntry_outOfRange]

/-- A connection keeps everything in a release but the state of its Entry. -/
theorem releaseEntry_conns (s : TimeWheel) (c c' : ℕ) :
    (s.releaseEntry c).conns c' = s.conns c' ∨
      c' = c ∧ (s.conns c).entry = .live ∧
        (s.releaseEntry c).conns c' = { s.conns c' with entry := .destroyed } := by
  obtain ⟨h, -⟩ | ⟨hlive, -, hconns, -⟩ := s.releaseEntry_cases c
  · left
    rw [h]
  · by_cases hc : c' = c
    · subst hc
      right
      rw [hconns, Function.update_self]
      exact ⟨rfl, hlive, rfl⟩
    · left
      rw [hconns, Function.update_of_ne hc]

@[simp] theorem releaseEntry_call (s : TimeWheel) (c c' : ℕ) :
    ((s.releaseEntry c).conns c').call = (s.conns c').call := by
  obtain h | ⟨-, -, h⟩ := s.releaseEntry_conns c c'
  · rw [h]
  · rw [h]

theorem referenced_releaseEntry (s : TimeWheel) (c c' : ℕ) :
    (s.releaseEntry c).referenced c' = s.referenced c' := by
  simp only [referenced, releaseEntry_call, releaseEntry_list]

/-- Every living Entry is referenced, except where a reference is about to go. -/
def Counted (s : TimeWheel) (pending : List ℕ) : Prop :=
  ∀ c, (s.conns c).entry = .live → s.referenced c = true ∨ c ∈ pending

theorem Counted.releaseEntry {s : TimeWheel} {c : ℕ} {pending : List ℕ}
    (h : Counted s (c :: pending)) : Counted (s.releaseEntry c) pending := by
  intro c' hlive
  rw [referenced_releaseEntry]
  obtain ⟨heq, href⟩ | ⟨-, -, hconns, -⟩ := s.releaseEntry_cases c
  · rw [heq] at hlive
    rcases h c' hlive with hr | hmem
    · exact Or.inl hr
    · rcases List.mem_cons.mp hmem with rfl | hmem
      · exact Or.inl (href hlive)
      · exact Or.inr hmem
  · rw [hconns] at hlive
    by_cases hc : c' = c
    · rw [hc, Function.update_self] at hlive
      cases hlive
    · rw [Function.update_of_ne hc] at hlive
      rcases h c' hlive with hr | hmem
      · exact Or.inl hr
      · exact Or.inr ((List.mem_cons.mp hmem).resolve_left hc)

/-! ## Steps -/

/-- The moves of the system, one case for every branch. -/
inductive Move (s : TimeWheel) : WheelAction → TimeWheel → Prop
  | onTimer : Move s .onTimer s.onTimer
  | onConnection {c : ℕ} (hunborn : (s.conns c).entry = .unborn) :
      Move s (.onConnection c) (s.set c { s.conns c with entry := .live, call := .connecting })
  | insertEntry {c : ℕ} (hcall : (s.conns c).call = .connecting) (hlist : s.list_.items ≠ []) :
      Move s (.insertEntry c) ((s.insertBack c).set c { s.conns c with
        call := .connected (s.insertBack c).list_.lastSlot
        connectedAt := s.ticks
        lastCall := s.ticks })
  | insertOutOfRange {c : ℕ} (hcall : (s.conns c).call = .connecting)
      (hlist : s.list_.items = []) : Move s (.insertEntry c) { s with outOfRange := true }
  | endConnection {c tail : ℕ} (hcall : (s.conns c).call = .connected tail) :
      Move s (.endConnection c)
        ((s.set c { s.conns c with call := .idle, tail_ := tail, finished := s.ticks }).releaseEntry c)
  | onMessage {c : ℕ} (hlive : (s.conns c).entry = .live) (hcall : (s.conns c).call = .idle) :
      Move s (.onMessage c) (s.set c { s.conns c with call := .refreshing })
  | onMessageLate {c : ℕ} (hdestroyed : (s.conns c).entry = .destroyed)
      (hcall : (s.conns c).call = .idle) :
      Move s (.onMessage c) (s.set c { s.conns c with call := .handling false, lastCall := s.ticks })
  | refreshEntry {c : ℕ} (hcall : (s.conns c).call = .refreshing) (hlist : s.list_.items ≠ [])
      (htail : s.list_.lastSlot ≠ (s.conns c).tail_) :
      Move s (.refreshEntry c)
        ((s.insertBack c).set c { s.conns c with call := .handling true, lastCall := s.ticks })
  | refreshSkip {c : ℕ} (hcall : (s.conns c).call = .refreshing) (hlist : s.list_.items ≠ [])
      (htail : s.list_.lastSlot = (s.conns c).tail_) :
      Move s (.refreshEntry c)
        (s.set c { s.conns c with call := .handling true, lastCall := s.ticks })
  | refreshOutOfRange {c : ℕ} (hcall : (s.conns c).call = .refreshing)
      (hlist : s.list_.items = []) : Move s (.refreshEntry c) { s with outOfRange := true }
  | endMessage {c : ℕ} {ptr : Bool} (hcall : (s.conns c).call = .handling ptr) :
      Move s (.endMessage c)
        ((s.set c { s.conns c with call := .idle, finished := s.ticks }).releaseEntry c)
  | destroyConnection {c : ℕ} (hcall : (s.conns c).call = .idle) :
      Move s (.destroyConnection c) (s.set c { s.conns c with alive := false })

theorem step_move {s t : TimeWheel} {a : WheelAction} (h : step s a = some t) :
    s.outOfRange = false ∧ Move s a t := by
  unfold step at h
  split at h
  · cases h
  · next hrange =>
    refine ⟨by simpa using hrange, ?_⟩
    cases a with
    | onTimer =>
      cases h
      exact .onTimer
    | onConnection c =>
      simp only [onConnection, Option.ite_none_right_eq_some, Option.some.injEq] at h
      obtain ⟨⟨hunborn, -⟩, rfl⟩ := h
      exact .onConnection hunborn
    | insertEntry c =>
      simp only [insertEntry, Option.ite_none_right_eq_some] at h
      obtain ⟨hcall, h⟩ := h
      split at h
      · next hlist =>
        cases h
        exact .insertOutOfRange hcall hlist
      · next hlist =>
        cases h
        exact .insertEntry hcall hlist
    | endConnection c =>
      simp only [endConnection] at h
      split at h
      · next tail hcall =>
        cases h
        exact .endConnection hcall
      · cases h
    | onMessage c =>
      simp only [onMessage, Option.ite_none_right_eq_some] at h
      obtain ⟨⟨hborn, -, hcall⟩, h⟩ := h
      split at h
      · next hlive =>
        cases h
        exact .onMessage hlive hcall
      · next hlive =>
        cases h
        have hdestroyed : (s.conns c).entry = .destroyed := by
          cases hentry : (s.conns c).entry with
          | unborn => exact absurd hentry hborn
          | live => exact absurd hentry hlive
          | destroyed => rfl
        exact .onMessageLate hdestroyed hcall
    | refreshEntry c =>
      simp only [refreshEntry, Option.ite_none_right_eq_some] at h
      obtain ⟨hcall, h⟩ := h
      split at h
      · next hlist =>
        cases h
        exact .refreshOutOfRange hcall hlist
      · next hlist =>
        cases h
        by_cases htail : s.list_.lastSlot ≠ (s.conns c).tail_
        · rw [if_pos htail]
          exact .refreshEntry hcall hlist htail
        · rw [if_neg htail]
          exact .refreshSkip hcall hlist (not_not.mp htail)
    | endMessage c =>
      simp only [endMessage] at h
      split at h
      · next ptr hcall =>
        cases h
        exact .endMessage hcall
      · cases h
    | destroyConnection c =>
      simp only [destroyConnection, Option.ite_none_right_eq_some, Option.some.injEq] at h
      obtain ⟨hcall, rfl⟩ := h
      exact .destroyConnection hcall

/-! ## The invariant -/

/-- What is known of a connection by its calls and the age of the buckets that hold its
Entry. -/
structure Tracked (list_ : BucketList) (ticks : ℕ) (kicks : List Kick) (c : ℕ)
    (conn : WheelConnection) : Prop where
  unborn : conn.entry = .unborn → conn.call = .idle
  filled : conn.entry ≠ .unborn → conn.call ≠ .connecting → 0 < ticks
  last_le : conn.lastCall ≤ ticks
  age : ∀ d, Held list_ c d → ticks ≤ conn.lastCall + d
  finished : conn.call = .idle → conn.lastCall ≤ conn.finished
  kicked : conn.entry = .destroyed → conn.alive = true → ∃ k ∈ kicks, k.conn = c

section

variable {list_ : BucketList} {ticks c : ℕ} {kicks : List Kick} {conn conn' : WheelConnection}

/-- A call that has reached its critical section. -/
theorem Tracked.called (h : Tracked list_ ticks kicks c conn) (hticks : 0 < ticks)
    (hcall : conn.call ≠ .idle) (hentry : conn'.entry = conn.entry)
    (halive : conn'.alive = conn.alive) (hcall' : conn'.call ≠ .idle)
    (hlast : conn'.lastCall = ticks) : Tracked list_ ticks kicks c conn' where
  unborn hunborn := absurd (h.unborn (hentry ▸ hunborn)) hcall
  filled _ _ := hticks
  last_le := Nat.le_of_eq hlast
  age d _ := by
    rw [hlast]
    exact Nat.le_add_right _ _
  finished hidle := absurd hidle hcall'
  kicked hdestroyed halive' := h.kicked (hentry ▸ hdestroyed) (halive ▸ halive')

/-- A call at its end. -/
theorem Tracked.ended (h : Tracked list_ ticks kicks c conn) (hcall : conn.call ≠ .connecting)
    (hentry : conn'.entry = conn.entry) (halive : conn'.alive = conn.alive)
    (hcall' : conn'.call = .idle) (hlast : conn'.lastCall = conn.lastCall)
    (hfinished : conn'.finished = ticks) : Tracked list_ ticks kicks c conn' where
  unborn _ := hcall'
  filled hborn _ := h.filled (hentry ▸ hborn) hcall
  last_le := by
    rw [hlast]
    exact h.last_le
  age d hd := by
    rw [hlast]
    exact h.age d hd
  finished _ := by
    rw [hlast, hfinished]
    exact h.last_le
  kicked hdestroyed halive' := h.kicked (hentry ▸ hdestroyed) (halive ▸ halive')

end

structure Sound (s : TimeWheel) (pending : List ℕ) : Prop where
  empty : s.list_.items = [] ↔ s.ticks = 0
  slot : s.list_.next = s.ticks % 8
  tracked : ∀ c, Tracked s.list_ s.ticks s.kicks c (s.conns c)
  counted : Counted s pending

theorem sound_construct : Sound construct [] where
  empty := ⟨fun _ => rfl, fun _ => rfl⟩
  slot := rfl
  tracked c := by
    refine ⟨fun _ => rfl, fun h => absurd rfl h, Nat.le_refl _, ?_, fun _ => Nat.le_refl _, nofun⟩
    rintro d ⟨b, hb, -⟩
    cases hb
  counted c h := by cases h

theorem Sound.pos {s : TimeWheel} {pending : List ℕ} (h : Sound s pending)
    (hlist : s.list_.items ≠ []) : 0 < s.ticks := by
  have hne := mt h.empty.mpr hlist
  omega

/-- A release that may be the last keeps what is known of every connection. -/
theorem Sound.releaseEntry {s : TimeWheel} {c : ℕ} {pending : List ℕ}
    (h : Sound s (c :: pending)) : Sound (s.releaseEntry c) pending where
  empty := by
    rw [releaseEntry_list, releaseEntry_ticks]
    exact h.empty
  slot := by
    rw [releaseEntry_list, releaseEntry_ticks]
    exact h.slot
  counted := h.counted.releaseEntry
  tracked c' := by
    rw [releaseEntry_list, releaseEntry_ticks]
    have hc' := h.tracked c'
    obtain ⟨heq, -⟩ | ⟨hlive, -, hconns, hkicks⟩ := s.releaseEntry_cases c
    · rw [heq]
      exact hc'
    · rw [hconns, hkicks]
      by_cases hc : c' = c
      · subst hc
        rw [Function.update_self]
        refine ⟨nofun, fun _ => hc'.filled (by rw [hlive]; nofun), hc'.last_le, hc'.age,
          hc'.finished, ?_⟩
        intro _ halive
        have halive' : (s.conns c').alive = true := halive
        rw [if_pos halive']
        exact ⟨_, List.mem_cons_self, rfl⟩
      · rw [Function.update_of_ne hc]
        refine ⟨hc'.unborn, hc'.filled, hc'.last_le, hc'.age, hc'.finished,
          fun hdestroyed halive => ?_⟩
        obtain ⟨k, hk, hconn⟩ := hc'.kicked hdestroyed halive
        exact ⟨k, List.mem_append_right _ hk, hconn⟩

theorem Sound.release_all {s : TimeWheel} {dropped : List ℕ} (h : Sound s dropped) :
    Sound (dropped.foldl TimeWheel.releaseEntry s) [] := by
  induction dropped generalizing s with
  | nil => exact h
  | cons c dropped ih => exact ih h.releaseEntry

/-- A new bucket makes every other one older, and gives up the Entries of the oldest. -/
theorem Sound.onTimer {s : TimeWheel} (h : Sound s []) : Sound s.onTimer [] := by
  apply Sound.release_all
  refine ⟨?_, ?_, ?_, ?_⟩
  · constructor
    · intro hnil
      exact absurd hnil (CircularBuffer.pushBack_ne_nil [])
    · intro hticks
      cases hticks
  · show (s.list_.next + 1) % 8 = (s.ticks + 1) % 8
    rw [h.slot, Nat.mod_add_mod]
  · intro c
    have hc := h.tracked c
    refine ⟨hc.unborn, fun _ _ => Nat.succ_pos _, Nat.le_succ_of_le hc.last_le, ?_, hc.finished,
      hc.kicked⟩
    intro d hd
    obtain ⟨e, rfl, -, he⟩ := held_pushBack.mp hd
    exact Nat.succ_le_succ (hc.age e he)
  · intro c hlive
    rw [referenced_iff]
    rcases h.counted c hlive with href | hnil
    · rcases referenced_iff.mp href with hcall | ⟨d, b, hb, hc⟩
      · exact Or.inl (Or.inl hcall)
      · rcases CircularBuffer.mem_pushBack_or (x := []) (List.mem_of_getElem? hb) with hkept | hgone
        · obtain ⟨e, he⟩ := List.getElem?_of_mem hkept
          exact Or.inl (Or.inr ⟨e, b, he, hc⟩)
        · exact Or.inr (List.mem_flatten.mpr ⟨b, hgone, hc⟩)
    · cases hnil

/-- A connection changes on its own. -/
theorem Sound.set {s : TimeWheel} {c : ℕ} {conn : WheelConnection} (h : Sound s [])
    (hconn : Tracked s.list_ s.ticks s.kicks c conn) (pending : List ℕ)
    (href : conn.entry = .live →
      (conn.call.holdsEntry = true ∨ ∃ d, Held s.list_ c d) ∨ c ∈ pending) :
    Sound (s.set c conn) pending where
  empty := h.empty
  slot := h.slot
  tracked c' := by
    by_cases hc : c' = c
    · subst hc
      rw [set_self]
      exact hconn
    · rw [set_other s hc]
      exact h.tracked c'
  counted c' hlive := by
    rw [referenced_iff]
    by_cases hc : c' = c
    · subst hc
      rw [set_self] at hlive ⊢
      exact href hlive
    · rw [set_other s hc] at hlive ⊢
      rcases h.counted c' hlive with hr | hnil
      · exact Or.inl (referenced_iff.mp hr)
      · cases hnil

/-- An Entry goes into the newest bucket during a call of its connection. -/
theorem Sound.insertBack {s : TimeWheel} {c : ℕ} (h : Sound s []) (hlist : s.list_.items ≠ [])
    {conn : WheelConnection} (hconn : Tracked s.list_ s.ticks s.kicks c conn)
    (hlast : conn.lastCall = s.ticks) : Sound ((s.insertBack c).set c conn) [] where
  empty := by
    refine Iff.trans ?_ h.empty
    exact CircularBuffer.modifyBack_eq_nil _
  slot := h.slot
  tracked c' := by
    by_cases hc : c' = c
    · subst hc
      rw [set_self]
      refine ⟨hconn.unborn, hconn.filled, hconn.last_le, fun d _ => ?_, hconn.finished,
        hconn.kicked⟩
      rw [hlast]
      exact Nat.le_add_right _ _
    · rw [set_other _ hc]
      have hc' := h.tracked c'
      exact ⟨hc'.unborn, hc'.filled, hc'.last_le,
        fun d hd => hc'.age d (held_of_held_insert hc hd), hc'.finished, hc'.kicked⟩
  counted c' hlive := by
    left
    rw [referenced_iff]
    by_cases hc : c' = c
    · subst hc
      exact Or.inr ⟨0, held_insert_self hlist c'⟩
    · rw [set_other _ hc] at hlive ⊢
      rcases h.counted c' hlive with hr | hnil
      · rcases referenced_iff.mp hr with hcall | ⟨d, hd⟩
        · exact Or.inl hcall
        · exact Or.inr ⟨d, held_insert_of_held hd c⟩
      · cases hnil

theorem Sound.outOfRange {s : TimeWheel} (h : Sound s []) :
    Sound { s with outOfRange := true } [] := ⟨h.empty, h.slot, h.tracked, h.counted⟩

theorem sound_step (s : TimeWheel) (a : WheelAction) (t : TimeWheel) (h : Sound s [])
    (hstep : step s a = some t) : Sound t [] := by
  obtain ⟨-, hmove⟩ := step_move hstep
  cases hmove with
  | onTimer => exact h.onTimer
  | @onConnection c hunborn =>
    have hc := h.tracked c
    apply h.set
    · exact ⟨nofun, fun _ hne => absurd rfl hne, hc.last_le, hc.age, nofun, nofun⟩
    · exact fun _ => Or.inl (Or.inl rfl)
  | @insertEntry c hcall hlist =>
    have hc := h.tracked c
    apply h.insertBack hlist
    · exact hc.called (h.pos hlist) (by rw [hcall]; nofun) rfl rfl nofun rfl
    · rfl
  | insertOutOfRange hcall hlist => exact h.outOfRange
  | @endConnection c tail hcall =>
    have hc := h.tracked c
    apply Sound.releaseEntry
    apply h.set
    · exact hc.ended (by rw [hcall]; nofun) rfl rfl rfl rfl rfl
    · exact fun _ => Or.inr List.mem_cons_self
  | @onMessage c hlive hcall =>
    have hc := h.tracked c
    apply h.set
    · refine ⟨?_, fun hborn _ => hc.filled hborn ?_, hc.last_le, hc.age, nofun, hc.kicked⟩
      · intro hunborn
        rw [show (s.conns c).entry = .unborn from hunborn] at hlive
        cases hlive
      · rw [hcall]
        nofun
    · exact fun _ => Or.inl (Or.inl rfl)
  | @onMessageLate c hdestroyed hcall =>
    have hc := h.tracked c
    apply h.set
    · refine ⟨?_, fun hborn _ => hc.filled hborn ?_, Nat.le_refl _,
        fun d _ => Nat.le_add_right _ _, nofun, hc.kicked⟩
      · intro hunborn
        rw [show (s.conns c).entry = .unborn from hunborn] at hdestroyed
        cases hdestroyed
      · rw [hcall]
        nofun
    · intro hlive
      rw [show (s.conns c).entry = .live from hlive] at hdestroyed
      cases hdestroyed
  | @refreshEntry c hcall hlist htail =>
    have hc := h.tracked c
    apply h.insertBack hlist
    · exact hc.called (h.pos hlist) (by rw [hcall]; nofun) rfl rfl nofun rfl
    · rfl
  | @refreshSkip c hcall hlist htail =>
    have hc := h.tracked c
    apply h.set
    · exact hc.called (h.pos hlist) (by rw [hcall]; nofun) rfl rfl nofun rfl
    · exact fun _ => Or.inl (Or.inl rfl)
  | refreshOutOfRange hcall hlist => exact h.outOfRange
  | @endMessage c ptr hcall =>
    have hc := h.tracked c
    apply Sound.releaseEntry
    apply h.set
    · exact hc.ended (by rw [hcall]; nofun) rfl rfl rfl rfl rfl
    · exact fun _ => Or.inr List.mem_cons_self
  | @destroyConnection c hcall =>
    have hc := h.tracked c
    apply h.set
    · exact ⟨hc.unborn, hc.filled, hc.last_le, hc.age, hc.finished, nofun⟩
    · intro hlive
      rcases h.counted c hlive with hr | hnil
      · exact Or.inl (referenced_iff.mp hr)
      · cases hnil

end ReactorNet.TimeWheel
