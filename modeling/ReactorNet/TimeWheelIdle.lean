import ReactorNet.TimeWheelInvariant

/-!
# Idle connections, and the list before the first tick

A connection whose calls have all returned eight ticks ago has no Entry any more and has
been shut down. The list of buckets is constructed empty, so the critical sections rely
on a tick that precedes the first of them.
-/
namespace ReactorNet.TimeWheel

open GuardedRuns

theorem sound_run {as : List WheelAction} {s : TimeWheel} (h : run step construct as = some s) :
    Sound s [] :=
  run_invariant sound_step sound_construct h

/-- A connection whose last call returned when there had been at most `m` ticks is in no
bucket after tick `m + 8`, and its Entry has shut it down unless it was gone before. -/
theorem idle_connection_kicked {as : List WheelAction} {s : TimeWheel}
    (h : run step construct (.onTimer :: as) = some s) {c m : ℕ}
    (hentry : (s.conns c).entry ≠ .unborn) (hidle : (s.conns c).call = .idle)
    (hlast : (s.conns c).finished ≤ m) (hticks : m + 8 ≤ s.ticks) :
    (∀ b ∈ s.list_.items, c ∉ b) ∧ (s.conns c).entry = .destroyed ∧
      ((s.conns c).alive = true → ∃ k ∈ s.kicks, k.conn = c) := by
  have hs := sound_run h
  have hc := hs.tracked c
  have hfinished := hc.finished hidle
  have hgone (d : ℕ) : ¬ Held s.list_ c d := by
    intro hheld
    have hage := hc.age d hheld
    have hlt := hheld.age_lt
    omega
  have hdestroyed : (s.conns c).entry = .destroyed := by
    cases hstate : (s.conns c).entry with
    | unborn => exact absurd hstate hentry
    | destroyed => rfl
    | live =>
      rcases hs.counted c hstate with href | hnil
      · rcases referenced_iff.mp href with hcall | ⟨d, hd⟩
        · rw [hidle] at hcall
          cases hcall
        · exact absurd hd (hgone d)
      · cases hnil
  refine ⟨?_, hdestroyed, hc.kicked hdestroyed⟩
  intro b hb hmem
  obtain ⟨d, hd⟩ := List.getElem?_of_mem hb
  exact hgone d ⟨b, hd, hmem⟩

/-- The calls of a connection that comes up after the first tick and is not heard of
again, with eight more ticks. -/
def idleRun : List WheelAction :=
  [.onConnection 0, .insertEntry 0, .endConnection 0] ++ List.replicate 8 .onTimer

theorem idle_connection_kicked_idleRun :
    ∃ s, run step construct (.onTimer :: idleRun) = some s ∧
      (∀ b ∈ s.list_.items, 0 ∉ b) ∧ (s.conns 0).entry = .destroyed ∧
        ((s.conns 0).alive = true → ∃ k ∈ s.kicks, k.conn = 0) := by
  obtain ⟨s, hs, hfacts⟩ := Option.map_eq_some_iff.mp
    (show (run step construct (.onTimer :: idleRun)).map
      (fun s => ((s.conns 0).entry, (s.conns 0).call, (s.conns 0).finished, s.ticks)) =
        some (.destroyed, .idle, 1, 9) by decide +kernel)
  obtain ⟨hentry, hcall, hfinished, hticks⟩ :
      (s.conns 0).entry = .destroyed ∧ (s.conns 0).call = .idle ∧
        (s.conns 0).finished = 1 ∧ s.ticks = 9 := by
    simpa using hfacts
  refine ⟨s, hs, idle_connection_kicked hs (m := 1) ?_ hcall (Nat.le_of_eq hfinished) ?_⟩
  · rw [hentry]
    nofun
  · omega

/-! ## The first tick -/

/-- The first tick comes before the critical section of any `onConnection`. -/
def TickedBefore (s : TimeWheel) (a : WheelAction) : Prop := ∀ c, a = .insertEntry c → 0 < s.ticks

theorem outOfRange_step {s t : TimeWheel} {a : WheelAction} (h : Sound s [])
    (hrange : s.outOfRange = false) (hstep : step s a = some t) :
    t.outOfRange = false ↔ TickedBefore s a := by
  obtain ⟨-, hmove⟩ := step_move hstep
  cases hmove with
  | onTimer =>
    refine iff_of_true ?_ nofun
    rw [onTimer, release_all_outOfRange]
    exact hrange
  | insertEntry hcall hlist =>
    refine iff_of_true hrange ?_
    intro c _
    exact h.pos hlist
  | @insertOutOfRange c hcall hlist =>
    refine iff_of_false nofun ?_
    intro hticked
    have hpos := hticked c rfl
    have hzero := h.empty.mp hlist
    omega
  | refreshOutOfRange hcall hlist =>
    rename_i c
    have hpos : 0 < s.ticks := by
      apply (h.tracked c).filled
      · intro hunborn
        rw [(h.tracked c).unborn hunborn] at hcall
        cases hcall
      · rw [hcall]
        nofun
    have hzero := h.empty.mp hlist
    omega
  | endConnection hcall => exact iff_of_true ((releaseEntry_outOfRange _ _).trans hrange) nofun
  | endMessage hcall => exact iff_of_true ((releaseEntry_outOfRange _ _).trans hrange) nofun
  | onConnection hunborn => exact iff_of_true hrange nofun
  | onMessage hlive hcall => exact iff_of_true hrange nofun
  | onMessageLate hdestroyed hcall => exact iff_of_true hrange nofun
  | refreshEntry hcall hlist htail => exact iff_of_true hrange nofun
  | refreshSkip hcall hlist htail => exact iff_of_true hrange nofun
  | destroyConnection hcall => exact iff_of_true hrange nofun

/-- `back()` and `end() - 1` are evaluated on a list with a bucket in every state of a run
exactly when a tick precedes every critical section of `onConnection`. -/
theorem bucket_access_in_range {as : List WheelAction} {s : TimeWheel}
    (h : run step construct as = some s) :
    Throughout step (fun s => s.outOfRange = false) construct as ↔
      Meets step TickedBefore construct as := by
  apply throughout_iff_meets (I := fun s => Sound s [])
  · exact fun s a t hs _ _ hstep => sound_step s a t hs hstep
  · exact fun s a t hs hrange _ hstep => outOfRange_step hs hrange hstep
  · exact sound_construct
  · rfl
  · exact Meets.of_forall (fun _ _ => trivial) _ _
  · exact h

theorem bucket_access_in_range_idleRun :
    ∃ s, run step construct (.onTimer :: idleRun) = some s ∧
      (Throughout step (fun s => s.outOfRange = false) construct (.onTimer :: idleRun) ↔
        Meets step TickedBefore construct (.onTimer :: idleRun)) := by
  obtain ⟨s, hs, -⟩ := Option.map_eq_some_iff.mp
    (show (run step construct (.onTimer :: idleRun)).map (fun s => s.ticks) = some 9 by
      decide +kernel)
  exact ⟨s, hs, bucket_access_in_range hs⟩

/-- A connection that comes up in the first second. -/
theorem bucket_access_before_first_tick :
    ¬ ∀ (as : List WheelAction) (s : TimeWheel), run step construct as = some s →
      s.outOfRange = false := by
  intro h
  obtain ⟨s, hs, hrange⟩ := Option.map_eq_some_iff.mp
    (show (run step construct [.onConnection 0, .insertEntry 0]).map (fun s => s.outOfRange) =
      some true by decide +kernel)
  rw [h _ s hs] at hrange
  cases hrange

end ReactorNet.TimeWheel
