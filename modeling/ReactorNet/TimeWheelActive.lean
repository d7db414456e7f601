import ReactorNet.TimeWheelIdle

/-!
# Active connections

A call puts the Entry of its connection into the newest bucket, unless the slot of that
bucket is the one remembered from `onConnection`. Slots come back every eight ticks, so
the refresh is left out wrongly for a message handled that long after the connection
came up; without such messages no connection is shut down within eight ticks of a call.
-/
namespace ReactorNet.TimeWheel

open GuardedRuns

/-- No message is handled a positive multiple of eight ticks after `onConnection`. -/
def OffBeat (s : TimeWheel) : WheelAction → Prop
  | .refreshEntry c =>
    (s.ticks - (s.conns c).connectedAt) % 8 = 0 → s.ticks = (s.conns c).connectedAt
  | _ => True

instance (s : TimeWheel) (a : WheelAction) : Decidable (OffBeat s a) :=
  match a with
  | .refreshEntry c => inferInstanceAs
    (Decidable ((s.ticks - (s.conns c).connectedAt) % 8 = 0 → s.ticks = (s.conns c).connectedAt))
  | .onTimer | .onConnection _ | .insertEntry _ | .endConnection _ | .onMessage _
  | .endMessage _ | .destroyConnection _ => isTrue trivial

/-- The slot remembered from `onConnection`, in the local variable at first. -/
def rememberedTail (conn : WheelConnection) : ℕ :=
  match conn.call with
  | .connected tail => tail
  | _ => conn.tail_

/-- A living Entry is in the bucket of the latest call, as long as that is kept. -/
structure Renewed (list_ : BucketList) (ticks c : ℕ) (conn : WheelConnection) : Prop where
  connected : conn.connectedAt ≤ conn.lastCall
  tail : rememberedTail conn = (conn.connectedAt - 1) % 8
  positive : 0 < conn.connectedAt
  held : ticks < conn.lastCall + 8 → Held list_ c (ticks - conn.lastCall)

/-- A connection whose times and remembered slot stay. -/
theorem Renewed.congr {list_ : BucketList} {ticks c : ℕ} {conn conn' : WheelConnection}
    (h : Renewed list_ ticks c conn) (hconnected : conn'.connectedAt = conn.connectedAt)
    (hlast : conn'.lastCall = conn.lastCall)
    (htail : rememberedTail conn' = rememberedTail conn) : Renewed list_ ticks c conn' where
  connected := by
    rw [hconnected, hlast]
    exact h.connected
  tail := by
    rw [htail, hconnected]
    exact h.tail
  positive := by
    rw [hconnected]
    exact h.positive
  held := by
    rw [hlast]
    exact h.held

structure Active (s : TimeWheel) : Prop where
  renewed : ∀ c, (s.conns c).entry = .live → (s.conns c).call ≠ .connecting →
    Renewed s.list_ s.ticks c (s.conns c)
  kicks : ∀ k ∈ s.kicks, k.lastCall + 8 ≤ k.tick

theorem active_construct : Active construct where
  renewed c hlive := by cases hlive
  kicks := nofun

/-- The last reference goes with the bucket of the latest call, or later. -/
theorem Active.releaseEntry {s : TimeWheel} (h : Active s) (c : ℕ) : Active (s.releaseEntry c) where
  renewed c' hlive hcall := by
    obtain hsame | ⟨rfl, -, hsame⟩ := s.releaseEntry_conns c c'
    · rw [hsame] at hlive hcall ⊢
      rw [releaseEntry_list, releaseEntry_ticks]
      exact h.renewed c' hlive hcall
    · rw [hsame] at hlive
      cases hlive
  kicks := by
    obtain ⟨heq, -⟩ | ⟨hlive, hunref, -, hkicks⟩ := s.releaseEntry_cases c
    · rw [heq]
      exact h.kicks
    · have hgone : ¬ ((s.conns c).call.holdsEntry = true ∨ ∃ d, Held s.list_ c d) := by
        rw [← referenced_iff, hunref]
        nofun
      have hcall : (s.conns c).call ≠ .connecting := by
        intro hcall
        exact hgone (Or.inl (by rw [hcall]; rfl))
      have hlate : (s.conns c).lastCall + 8 ≤ s.ticks := by
        by_contra hearly
        exact hgone (Or.inr ⟨_, (h.renewed c hlive hcall).held (by omega)⟩)
      rw [hkicks]
      intro k hk
      rcases List.mem_append.mp hk with hk | hk
      · split at hk
        · rw [List.mem_singleton.mp hk]
          exact hlate
        · cases hk
      · exact h.kicks k hk

theorem Active.release_all {s : TimeWheel} (h : Active s) (dropped : List ℕ) :
    Active (dropped.foldl TimeWheel.releaseEntry s) := by
  induction dropped generalizing s with
  | nil => exact h
  | cons c dropped ih => exact ih (h.releaseEntry c)

theorem Active.onTimer {s : TimeWheel} (h : Active s) (hs : Sound s []) : Active s.onTimer := by
  apply Active.release_all
  refine ⟨fun c hlive hcall => ?_, h.kicks⟩
  have hc := h.renewed c hlive hcall
  refine ⟨hc.connected, hc.tail, hc.positive, fun hkept => ?_⟩
  have hlast := (hs.tracked c).last_le
  have hkept' : s.ticks + 1 < (s.conns c).lastCall + 8 := hkept
  refine held_pushBack.mpr ⟨s.ticks - (s.conns c).lastCall, ?_, ?_, hc.held (by omega)⟩
  · show s.ticks + 1 - (s.conns c).lastCall = _
    omega
  · show s.ticks + 1 - (s.conns c).lastCall < 8
    omega

theorem Active.set {s : TimeWheel} {c : ℕ} {conn : WheelConnection} (h : Active s)
    (hconn : conn.entry = .live → conn.call ≠ .connecting → Renewed s.list_ s.ticks c conn) :
    Active (s.set c conn) where
  renewed c' := by
    by_cases hc : c' = c
    · subst hc
      rw [set_self]
      exact hconn
    · rw [set_other s hc]
      exact h.renewed c'
  kicks := h.kicks

theorem Active.insertBack {s : TimeWheel} (h : Active s) (c : ℕ) : Active (s.insertBack c) where
  renewed c' hlive hcall := by
    have hc := h.renewed c' hlive hcall
    exact ⟨hc.connected, hc.tail, hc.positive, fun hkept => held_insert_of_held (hc.held hkept) c⟩
  kicks := h.kicks

theorem Sound.lastSlot {s : TimeWheel} (h : Sound s []) (hlist : s.list_.items ≠ []) :
    s.list_.lastSlot = (s.ticks - 1) % 8 :=
  CircularBuffer.lastSlot_eq (h.pos hlist) h.slot

theorem held_insertBack {s : TimeWheel} (hlist : s.list_.items ≠ []) (c : ℕ) :
    Held (s.insertBack c).list_ c (s.ticks - s.ticks) := by
  rw [Nat.sub_self]
  exact held_insert_self hlist c

theorem active_step (s : TimeWheel) (a : WheelAction) (t : TimeWheel) (h : Sound s [] ∧ Active s)
    (hok : OffBeat s a) (hstep : step s a = some t) : Sound t [] ∧ Active t := by
  obtain ⟨hs, ha⟩ := h
  refine ⟨sound_step s a t hs hstep, ?_⟩
  obtain ⟨-, hmove⟩ := step_move hstep
  cases hmove with
  | onTimer => exact ha.onTimer hs
  | onConnection hunborn => exact ha.set fun _ hcall => absurd rfl hcall
  | @insertEntry c hcall hlist =>
    refine (ha.insertBack c).set fun _ _ => ⟨Nat.le_refl _, hs.lastSlot hlist, hs.pos hlist, ?_⟩
    exact fun _ => held_insertBack hlist c
  | insertOutOfRange hcall hlist => exact ⟨ha.renewed, ha.kicks⟩
  | @endConnection c tail hcall =>
    refine (ha.set fun hlive _ => ?_).releaseEntry c
    have hc := ha.renewed c hlive (by rw [hcall]; nofun)
    exact hc.congr rfl rfl (by simp only [rememberedTail, hcall])
  | @onMessage c hlive hcall =>
    refine ha.set fun _ _ => ?_
    have hc := ha.renewed c hlive (by rw [hcall]; nofun)
    exact hc.congr rfl rfl (by simp only [rememberedTail, hcall])
  | @onMessageLate c hdestroyed hcall =>
    refine ha.set fun hlive _ => ?_
    rw [show (s.conns c).entry = .live from hlive] at hdestroyed
    cases hdestroyed
  | @refreshEntry c hcall hlist htail =>
    refine (ha.insertBack c).set fun hlive _ => ?_
    have hc := ha.renewed c hlive (by rw [hcall]; nofun)
    have hremembered := hc.tail
    simp only [rememberedTail, hcall] at hremembered
    refine ⟨Nat.le_trans hc.connected (hs.tracked c).last_le, hremembered, hc.positive, ?_⟩
    exact fun _ => held_insertBack hlist c
  | @refreshSkip c hcall hlist htail =>
    refine ha.set fun hlive _ => ?_
    have hc := ha.renewed c hlive (by rw [hcall]; nofun)
    have hremembered := hc.tail
    simp only [rememberedTail, hcall] at hremembered
    have hlast := (hs.tracked c).last_le
    have hconnected := hc.connected
    have hpositive := hc.positive
    have hsame : s.ticks = (s.conns c).connectedAt := by
      apply hok
      rw [hs.lastSlot hlist, hremembered] at htail
      omega
    have hlatest : (s.conns c).lastCall = s.ticks := by omega
    have hheld := hc.held (by omega)
    rw [hlatest] at hheld
    exact ⟨Nat.le_trans hconnected hlast, hremembered, hpositive, fun _ => hheld⟩
  | refreshOutOfRange hcall hlist => exact ⟨ha.renewed, ha.kicks⟩
  | @endMessage c ptr hcall =>
    refine (ha.set fun hlive _ => ?_).releaseEntry c
    have hc := ha.renewed c hlive (by rw [hcall]; nofun)
    exact hc.congr rfl rfl (by simp only [rememberedTail, hcall])
  | @destroyConnection c hcall =>
    refine ha.set fun hlive _ => ?_
    have hc := ha.renewed c hlive (by rw [hcall]; nofun)
    exact hc.congr rfl rfl rfl

/-- In a run from the first tick on without messages a positive multiple of eight ticks
after `onConnection`, no Entry shuts its connection down before the eighth tick after
the latest call of that connection. -/
theorem active_connection_not_kicked {as : List WheelAction} {s : TimeWheel}
    (hok : Meets step OffBeat construct (.onTimer :: as))
    (h : run step construct (.onTimer :: as) = some s) :
    ∀ k ∈ s.kicks, k.lastCall + 8 ≤ k.tick :=
  (meets_invariant active_step ⟨sound_construct, active_construct⟩ hok h).2.kicks

def message : List WheelAction := [.onMessage 0, .refreshEntry 0, .endMessage 0]

/-- A connection that comes up at tick 1, with messages at ticks 5 and 10. -/
def offBeatRun : List WheelAction :=
  [.onConnection 0, .insertEntry 0, .endConnection 0] ++ List.replicate 4 .onTimer ++ message ++
    List.replicate 5 .onTimer ++ message ++ List.replicate 8 .onTimer

theorem active_connection_not_kicked_offBeatRun :
    ∃ s, run step construct (.onTimer :: offBeatRun) = some s ∧ s.kicks = [⟨0, 18, 10⟩] ∧
      ∀ k ∈ s.kicks, k.lastCall + 8 ≤ k.tick := by
  obtain ⟨s, hs, hkicks⟩ := Option.map_eq_some_iff.mp
    (show (run step construct (.onTimer :: offBeatRun)).map (fun s => s.kicks) =
      some [⟨0, 18, 10⟩] by decide +kernel)
  exact ⟨s, hs, hkicks, active_connection_not_kicked (by decide +kernel) hs⟩

/-- With the second message at tick 9 the connection is shut down at tick 13. -/
theorem active_connection_kicked :
    ¬ ∀ (as : List WheelAction) (s : TimeWheel),
      run step construct (.onTimer :: as) = some s → ∀ k ∈ s.kicks, k.lastCall + 8 ≤ k.tick := by
  intro h
  obtain ⟨s, hs, hkicks⟩ := Option.map_eq_some_iff.mp
    (show (run step construct (.onTimer :: ([.onConnection 0, .insertEntry 0, .endConnection 0] ++
      List.replicate 4 .onTimer ++ message ++ List.replicate 4 .onTimer ++ message ++
      List.replicate 4 .onTimer))).map (fun s => s.kicks) = some [⟨0, 13, 9⟩] by decide +kernel)
  have hkick := h _ s hs ⟨0, 13, 9⟩ (by rw [hkicks]; exact List.mem_singleton_self _)
  exact absurd hkick (by decide)

end ReactorNet.TimeWheel
