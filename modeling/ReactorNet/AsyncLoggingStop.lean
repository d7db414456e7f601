import Mathlib.Data.List.Nodup
import ReactorNet.AsyncLoggingOrder

/-!
# Stopping the log

`stop()` clears `running_`, and the thread tests it only between two batches. A swap still
comes exactly when the thread is between that test and the swap; otherwise the lines that
wait for the next swap stay in the buffers.
-/
namespace ReactorNet.AsyncLogging

variable {x y z : AsyncLogging}

/-- Every line that fits is in the ledger or dropped, once. -/
structure Accounted (x : AsyncLogging) : Prop where
  sound : Sound x
  conserved : (x.ledger ++ x.dropped).Perm (x.appended.filter fits)
  serials : x.appended.map Line.serial = List.range x.appended.length

theorem accounted_start : Accounted start := ⟨sound_start, .refl _, rfl⟩

theorem Accounted.append {logline : List UInt8} (h : Accounted x) (hs : Sound y)
    (happended : Appended x logline y) : Accounted y := by
  refine ⟨hs, ?_, ?_⟩
  · have hperm := h.conserved.append_right ([(⟨x.appended.length, logline⟩ : Line)].filter fits)
    rw [← List.filter_append, ← happended.appended] at hperm
    refine List.Perm.trans ?_ hperm
    rw [happended.ledger, dropped, happended.erased, List.append_assoc, List.append_assoc]
    exact List.Perm.append_left _ List.perm_append_comm
  · rw [happended.appended, List.map_append, h.serials, List.length_append, List.length_singleton,
      List.range_succ]
    rfl

theorem Accounted.stop (h : Accounted x) : Accounted x.stop :=
  ⟨h.sound.stop, h.conserved, h.serials⟩

theorem Accounted.thread (h : Accounted x) (hs : Sound y) (hstep : Stepped x y) : Accounted y := by
  refine ⟨hs, ?_, ?_⟩
  · rw [hstep.appended]
    exact hstep.conserved.trans h.conserved
  · rw [hstep.appended]
    exact h.serials

/-- What a step can be. -/
inductive Move (x y : AsyncLogging) : LogAction → Prop
  | append (logline : List UInt8) (h : Appended x logline y) : Move x y (.append logline)
  | stop (h : y = x.stop) : Move x y .stop
  | thread (now : String) (h : Stepped x y) : Move x y (.thread now)

theorem Accounted.step {a : LogAction} (h : Accounted x) (hy : x.step a = some y) :
    Accounted y ∧ Move x y a := by
  cases a with
  | append logline =>
    obtain ⟨y', hy', hs, happended⟩ := h.sound.append logline
    cases hy.symm.trans hy'
    exact ⟨h.append hs happended, .append logline happended⟩
  | stop =>
    cases hy
    exact ⟨h.stop, .stop rfl⟩
  | thread now =>
    have hpc : x.pc ≠ .exited := by
      intro hpc
      simp [AsyncLogging.step, threadFunc, hpc] at hy
    obtain ⟨y', hy', hs, hstep⟩ := h.sound.thread hpc now
    cases hy.symm.trans hy'
    exact ⟨h.thread hs hstep, .thread now hstep⟩

theorem Accounted.nodup (h : Accounted x) : (x.ledger ++ x.dropped).Nodup := by
  rw [h.conserved.nodup_iff]
  apply List.Pairwise.filter
  apply List.Nodup.of_map Line.serial
  rw [h.serials]
  exact List.nodup_range

theorem Accounted.serial_lt (h : Accounted x) {line : Line} (hline : line ∈ x.appended) :
    line.serial < x.appended.length := by
  rw [← List.mem_range, ← h.serials]
  exact List.mem_map_of_mem hline

/-- The lines that no swap will take once `stop` was called. -/
def stranded (x : AsyncLogging) : List Line := if x.pc.beforeSwap then [] else x.pending

theorem pending_of_stranded {line : Line} (h : line ∈ x.stranded) : line ∈ x.pending := by
  rw [stranded] at h
  split at h
  · cases h
  · exact h

theorem Accounted.appended_of_pending (h : Accounted x) {line : Line} (hline : line ∈ x.pending) :
    line ∈ x.appended := by
  have hin : line ∈ x.ledger ++ x.dropped :=
    List.mem_append_left _ (List.mem_append_right _ hline)
  exact (List.mem_filter.mp (h.conserved.mem_iff.mp hin)).1

/-- A state `y` after `stop` was called in state `x`. -/
structure Stopping (x y : AsyncLogging) : Prop where
  running : y.running_ = false
  grown : x.appended <+: y.appended
  place : x.pc.beforeSwap = true ∧ y.pc.beforeSwap = true ∨
    y.pc.beforeSwap = false ∧ ∃ fresh, y.pending = x.stranded ++ fresh ∧
      ∀ line ∈ fresh, x.appended.length ≤ line.serial

theorem stopping_stop (x : AsyncLogging) : Stopping x x.stop := by
  refine ⟨rfl, List.prefix_rfl, ?_⟩
  cases hpc : x.pc.beforeSwap with
  | true => exact Or.inl ⟨rfl, hpc⟩
  | false =>
    refine Or.inr ⟨hpc, [], ?_, ?_⟩
    · simp [stranded, hpc, pending, AsyncLogging.stop]
    · intro line hline
      cases hline

theorem Stopping.step (h : Stopping x y) {a : LogAction} (hmove : Move y z a) : Stopping x z := by
  cases hmove with
  | append logline happended =>
    refine ⟨happended.running.trans h.running, ?_, ?_⟩
    · rw [happended.appended]
      exact h.grown.trans (List.prefix_append _ _)
    · rw [happended.pc, happended.pending]
      rcases h.place with hplace | ⟨hpc, fresh, hfresh, hserial⟩
      · exact Or.inl hplace
      · refine Or.inr ⟨hpc, _, by rw [hfresh, List.append_assoc], ?_⟩
        intro line hline
        rcases List.mem_append.mp hline with hline | hline
        · exact hserial line hline
        · rw [List.mem_singleton.mp (List.mem_filter.mp hline).1]
          exact h.grown.length_le
  | stop hz =>
    subst hz
    exact ⟨rfl, h.grown, h.place⟩
  | thread now hstep =>
    refine ⟨hstep.running.trans h.running, ?_, ?_⟩
    · rw [hstep.appended]
      exact h.grown
    · rcases h.place with ⟨hx, hy⟩ | ⟨hpc, fresh, hfresh, hserial⟩
      · rcases hstep.swapped hy with ⟨hz, -⟩ | ⟨hz, hpending⟩
        · exact Or.inl ⟨hx, hz⟩
        · refine Or.inr ⟨hz, [], by simp [hpending, stranded, hx], ?_⟩
          intro line hline
          cases hline
      · have hz : z.pc.beforeSwap = false := by
          cases hz : z.pc.beforeSwap with
          | false => rfl
          | true =>
            rcases hstep.entered hz with hy | hy
            · rw [hpc] at hy
              cases hy
            · rw [h.running] at hy
              cases hy
        exact Or.inr ⟨hz, fresh, by rw [hstep.pending hpc, hfresh], hserial⟩

/-- When the thread is gone, the lines appended before `stop` are written or dropped, apart
from those that were too long for a buffer or stranded. -/
theorem Stopping.flushed_iff (h : Stopping x y) (hx : Accounted x) (hy : Accounted y)
    (hexit : y.pc = .exited) {line : Line} (hline : line ∈ x.appended) :
    line ∈ y.written ∨ line ∈ y.dropped ↔ fits line = true ∧ line ∉ x.stranded := by
  rcases h.place with ⟨-, hpc⟩ | ⟨-, fresh, hfresh, hserial⟩
  · rw [hexit] at hpc
    cases hpc
  · have hledger : y.ledger ++ y.dropped = y.written ++ y.pending ++ y.dropped := by
      rw [ledger, unwritten, hexit, List.flatMap_nil, List.append_nil]
    have hin : line ∈ y.written ++ y.pending ++ y.dropped ↔ fits line = true := by
      rw [← hledger, hy.conserved.mem_iff, List.mem_filter]
      exact ⟨And.right, fun hfits => ⟨h.grown.subset hline, hfits⟩⟩
    have hpending : line ∈ y.pending ↔ line ∈ x.stranded := by
      rw [hfresh, List.mem_append]
      constructor
      · rintro (hline' | hline')
        · exact hline'
        · exact absurd (hserial line hline') (by have := hx.serial_lt hline; omega)
      · exact Or.inl
    have hnodup := hy.nodup
    rw [hledger, List.append_assoc] at hnodup
    constructor
    · intro hout
      refine ⟨hin.mp ?_, fun hstranded => ?_⟩
      · simp only [List.mem_append]
        rcases hout with hout | hout
        · exact Or.inl (Or.inl hout)
        · exact Or.inr hout
      · have hmem := hpending.mpr hstranded
        rcases hout with hout | hout
        · exact (List.disjoint_of_nodup_append hnodup) hout (List.mem_append_left _ hmem)
        · exact (List.disjoint_of_nodup_append (List.nodup_append.mp hnodup).2.1) hmem hout
    · rintro ⟨hfits, hstranded⟩
      have hmem := hin.mpr hfits
      simp only [List.mem_append] at hmem
      rcases hmem with (hout | hout) | hout
      · exact Or.inl hout
      · exact absurd (hpending.mp hout) hstranded
      · exact Or.inr hout

theorem run_accounted (h : Accounted x) {actions : List LogAction}
    (hy : GuardedRuns.run AsyncLogging.step x actions = some y) : Accounted y :=
  GuardedRuns.run_invariant (fun _ _ _ hs ht => (hs.step ht).1) h hy

theorem run_stopping (hy : Accounted y) (h : Stopping x y)
    {actions : List LogAction} (hz : GuardedRuns.run AsyncLogging.step y actions = some z) :
    Stopping x z := by
  induction actions generalizing y with
  | nil =>
    cases hz
    exact h
  | cons a actions ih =>
    obtain ⟨w, hw, hz⟩ := GuardedRuns.run_cons_eq_some.mp hz
    obtain ⟨hacc, hmove⟩ := hy.step hw
    exact ih hacc (h.step hmove) hz

/-- All lines appended before `stop` are written when the thread is gone, or lost with a
batch of more than 25 buffers, exactly when each of them is shorter than a buffer and
`stop` comes between the test of `running_` and the swap, or finds no line waiting. -/
theorem stop_flushes_iff (before after : List LogAction) (x y : AsyncLogging)
    (hx : GuardedRuns.run step start before = some x)
    (hy : GuardedRuns.run step x (.stop :: after) = some y) (hexit : y.pc = .exited) :
    (∀ line ∈ x.appended, line ∈ y.written ∨ line ∈ y.dropped) ↔
      (∀ line ∈ x.appended, line.text.length < kLargeBuffer) ∧
        (x.pc = .lock ∨ x.pc = .waitForSeconds ∨ x.pending = []) := by
  have hacc := run_accounted accounted_start hx
  obtain ⟨x', hx', hy'⟩ := GuardedRuns.run_cons_eq_some.mp hy
  cases hx'
  have hstopping := run_stopping hacc.stop (stopping_stop x) hy'
  have hflushed := fun line (hline : line ∈ x.appended) =>
    hstopping.flushed_iff hacc (run_accounted hacc hy) hexit hline
  have hstranded : x.stranded = [] ↔ x.pc = .lock ∨ x.pc = .waitForSeconds ∨ x.pending = [] := by
    rw [stranded]
    cases hpc : x.pc <;> simp [LogPc.beforeSwap]
  rw [← hstranded]
  constructor
  · intro hall
    refine ⟨fun line hline => ?_, ?_⟩
    · exact of_decide_eq_true ((hflushed line hline).mp (hall line hline)).1
    · apply List.eq_nil_iff_forall_not_mem.mpr
      intro line hline
      have hin := hacc.appended_of_pending (pending_of_stranded hline)
      exact ((hflushed line hin).mp (hall line hin)).2 hline
  · rintro ⟨hshort, hnone⟩ line hline
    exact (hflushed line hline).mpr ⟨decide_eq_true (hshort line hline), by simp [hnone]⟩

/-- `stop` comes while the thread waits: the line is written. -/
theorem stop_flushes_waiting :
    ∃ x y, GuardedRuns.run step start [.thread "", .thread "", .append [97, 10]] = some x ∧
      GuardedRuns.run step x [.stop, .thread "", .thread "", .thread "", .thread "", .thread "",
        .thread ""] = some y ∧
      ∀ line ∈ x.appended, line ∈ y.written ∨ line ∈ y.dropped := by
  refine ⟨_, _, rfl, rfl, ?_⟩
  refine (stop_flushes_iff [.thread "", .thread "", .append [97, 10]]
    [.thread "", .thread "", .thread "", .thread "", .thread "", .thread ""] _ _ rfl rfl rfl).mpr ?_
  exact ⟨by decide +kernel, Or.inr (Or.inl rfl)⟩

/-- `stop` comes while the thread writes a batch: a line appended meanwhile is never
written. -/
theorem stop_loses_pending :
    ∃ x y, GuardedRuns.run step start [.thread "", .thread "", .thread "",
        .append [97, 10]] = some x ∧
      GuardedRuns.run step x [.stop, .thread "", .thread "", .thread "", .thread "",
        .thread ""] = some y ∧
      y.pc = .exited ∧ x.appended = [⟨0, [97, 10]⟩] ∧ y.written = [] ∧ y.dropped = [] ∧
        y.outputBytes = [] :=
  ⟨_, _, rfl, rfl, rfl, rfl, rfl, rfl, rfl⟩

end ReactorNet.AsyncLogging
