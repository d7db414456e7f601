import Mathlib.Algebra.Group.Nat.Defs
import ReactorNet.ConnectorSockets

/-!
# The delays between attempts

From its construction or a restart on, a connector waits half a second before its first new
attempt and twice as long before each following one, up to half a minute.
-/
namespace ReactorNet.Connector

open GuardedRuns

/-- Milliseconds before the attempt after `k` others. -/
def backoff (k : ℕ) : ℕ := min (kInitRetryDelayMs * 2 ^ k) kMaxRetryDelayMs

theorem backoff_succ (k : ℕ) : min (backoff k * 2) kMaxRetryDelayMs = backoff (k + 1) := by
  rw [backoff, backoff, pow_succ, ← Nat.mul_assoc]
  generalize kInitRetryDelayMs * 2 ^ k = n
  omega

/-- The timers made so far; those from `base` on have the delays in turn. -/
structure BacksOff (base : ℕ) (x : Connector) : Prop where
  base_le : base ≤ x.timersMade
  delay : x.retryDelayMs_ = backoff (x.timersMade - base)
  made : ∀ t ∈ x.timers, t.1 < x.timersMade
  timers : ∀ t ∈ x.timers, base ≤ t.1 → t.2 = backoff (t.1 - base)

variable {base : ℕ} {x y : Connector}

theorem backsOff_construct : BacksOff 0 construct where
  base_le := Nat.le_refl 0
  delay := rfl
  made _ ht := absurd ht List.not_mem_nil
  timers _ ht := absurd ht List.not_mem_nil

/-- A step that sets no timer. -/
theorem BacksOff.congr (h : BacksOff base x) (hdelay : y.retryDelayMs_ = x.retryDelayMs_)
    (hmade : y.timersMade = x.timersMade) (htimers : y.timers ⊆ x.timers) : BacksOff base y := by
  constructor
  · rw [hmade]
    exact h.base_le
  · rw [hdelay, hmade]
    exact h.delay
  · intro t ht
    rw [hmade]
    exact h.made t (htimers ht)
  · intro t ht
    exact h.timers t (htimers ht)

theorem BacksOff.check (h : BacksOff base x) (holds : Bool) (place : ConnectorAssert) :
    BacksOff base (x.check holds place) := by
  cases holds with
  | true => exact h
  | false => exact h.congr rfl rfl (List.Subset.refl _)

theorem BacksOff.retry (h : BacksOff base x) (sockfd : ℕ) : BacksOff base (x.retry sockfd) := by
  have hle := h.base_le
  simp only [Connector.retry]
  split
  · have hsucc : x.timersMade + 1 - base = x.timersMade - base + 1 := by omega
    refine ⟨Nat.le_succ_of_le hle, ?_, fun t ht => ?_, fun t ht hbase => ?_⟩
    · change min (x.retryDelayMs_ * 2) kMaxRetryDelayMs = backoff (x.timersMade + 1 - base)
      rw [h.delay, backoff_succ, hsucc]
    · rcases List.mem_append.mp ht with hold | hnew
      · exact Nat.lt_succ_of_lt (h.made t hold)
      · rw [List.mem_singleton.mp hnew]
        exact Nat.lt_succ_self _
    · rcases List.mem_append.mp ht with hold | hnew
      · exact h.timers t hold hbase
      · rw [List.mem_singleton.mp hnew]
        exact h.delay
  · exact h.congr rfl rfl (List.Subset.refl _)

theorem BacksOff.connecting (h : BacksOff base x) (sockfd : ℕ) :
    BacksOff base (x.connecting sockfd) := by
  have hcheck := (h.congr (y := x.setState .kConnecting) rfl rfl (List.Subset.refl _)).check
    x.channel_.isNone .connecting
  exact hcheck.congr rfl rfl (List.Subset.refl _)

theorem BacksOff.startInLoop (h : BacksOff base x) (errno : ConnectErrno) :
    BacksOff base (x.startInLoop errno) := by
  have hcheck := h.check (x.state_ = .kDisconnected) .startInLoop
  simp only [Connector.startInLoop]
  split
  · have hsocket := hcheck.congr (y := { x.check (x.state_ = .kDisconnected) .startInLoop with
      socketsMade := (x.check (x.state_ = .kDisconnected) .startInLoop).socketsMade + 1 })
      rfl rfl (List.Subset.refl _)
    cases errno with
    | success | EINPROGRESS | EINTR | EISCONN => exact hsocket.connecting _
    | EAGAIN | EADDRINUSE | EADDRNOTAVAIL | ECONNREFUSED | ENETUNREACH => exact hsocket.retry _
    | EACCES | EPERM | EAFNOSUPPORT | EALREADY | EBADF | EFAULT | ENOTSOCK | unexpected =>
      exact hsocket.congr rfl rfl (List.Subset.refl _)
  · exact hcheck

theorem BacksOff.cancel (h : BacksOff base x) (inLoop : Bool) : BacksOff base (x.cancel inLoop) := by
  cases inLoop with
  | true => exact h.congr rfl rfl (List.filter_subset_self _)
  | false => exact h.congr rfl rfl (List.Subset.refl _)

/-! ## Events of the channel -/

theorem BacksOff.handleWrite (h : BacksOff base x) {err selfConnect : Bool}
    (hy : x.handleWrite err selfConnect = some y) : BacksOff base y := by
  rw [Connector.handleWrite] at hy
  split at hy
  · obtain ⟨channel, -, rfl⟩ := Option.map_eq_some_iff.mp hy
    have hremoved : BacksOff base (x.removeAndResetChannel channel) :=
      h.congr rfl rfl (List.Subset.refl _)
    simp only
    split
    · exact hremoved.retry _
    · split
      · exact hremoved.retry _
      · split
        · exact hremoved.congr rfl rfl (List.Subset.refl _)
        · exact hremoved.congr rfl rfl (List.Subset.refl _)
  · cases hy
    exact h.check _ _

theorem BacksOff.handleError (h : BacksOff base x) (hy : x.handleError = some y) :
    BacksOff base y := by
  obtain ⟨channel, -, rfl⟩ := Option.map_eq_some_iff.mp hy
  have hremoved := (h.check (x.state_ = .kConnecting) .handleError).congr
    (y := (x.check (x.state_ = .kConnecting) .handleError).removeAndResetChannel channel)
    rfl rfl (List.Subset.refl _)
  exact hremoved.retry _

theorem BacksOff.callbacks {err selfConnect : Bool} {cbs : List ChannelCallback}
    (h : BacksOff base x) (hy : cbs.foldlM (callback err selfConnect) x = some y) :
    BacksOff base y := by
  induction cbs generalizing x with
  | nil =>
    cases hy
    exact h
  | cons cb cbs ih =>
    obtain ⟨z, hz, hy⟩ := Option.bind_eq_some_iff.mp hy
    refine ih ?_ hy
    cases cb with
    | errorCallback_ => exact h.handleError hz
    | writeCallback_ => exact h.handleWrite hz
    | closeCallback_ =>
      cases hz
      exact h
    | readCallback_ =>
      cases hz
      exact h

/-! ## Runs -/

theorem BacksOff.step {a : ConnectorAction} (h : BacksOff base x)
    (ha : ∀ errno, a ≠ .restart errno) (hy : x.step a = some y) : BacksOff base y := by
  cases (step_move hy).2 with
  | start inLoop errno =>
    have hconnect : BacksOff base { x with connect_ := true } :=
      h.congr rfl rfl (List.Subset.refl _)
    rw [Connector.start]
    split
    · exact hconnect.startInLoop errno
    · exact hconnect.congr rfl rfl (List.Subset.refl _)
  | stop inLoop =>
    have hconnect : BacksOff base { x with connect_ := false } :=
      h.congr rfl rfl (List.Subset.refl _)
    exact (hconnect.cancel inLoop).check _ _
  | restart errno => exact absurd rfl (ha errno)
  | destroy inLoop =>
    exact ((h.cancel inLoop).check _ _).congr rfl rfl (List.Subset.refl _)
  | expire timer => exact h.congr rfl rfl (List.filter_subset_self _)
  | timer timer errno =>
    exact (h.congr (y := { x with expired := x.expired.erase timer }) rfl rfl
      (List.Subset.refl _)).startInLoop errno
  | event revents err selfConnect _ hreg hevent =>
    rw [Connector.handleEvent] at hevent
    split at hevent
    · exact h.callbacks hevent
    · cases hevent
  | functor errno cb rest hqueue =>
    have hpop : BacksOff base { x with pendingFunctors_ := rest } :=
      h.congr rfl rfl (List.Subset.refl _)
    cases cb with
    | startInLoop => exact hpop.startInLoop errno
    | resetChannel => exact hpop.congr rfl rfl (List.Subset.refl _)
    | cancel timerId => exact hpop.congr rfl rfl (List.filter_subset_self _)

theorem BacksOff.run {as : List ConnectorAction} (h : BacksOff base x)
    (has : ∀ errno, .restart errno ∉ as) (hy : GuardedRuns.run Connector.step x as = some y) :
    BacksOff base y := by
  induction as generalizing x with
  | nil =>
    cases hy
    exact h
  | cons a as ih =>
    obtain ⟨z, hz, hy⟩ := run_cons_eq_some.mp hy
    have ha (errno) : a ≠ .restart errno := fun heq => has errno (heq ▸ List.mem_cons_self)
    exact ih (h.step ha hz) (fun errno hin => has errno (List.mem_cons_of_mem _ hin)) hy

/-- A restart begins with the first delay again. -/
theorem BacksOff.restart (h : BacksOff base x) (errno : ConnectErrno) :
    BacksOff x.timersMade (x.restart errno) := by
  have hfirst : BacksOff x.timersMade { x.setState .kDisconnected with
      retryDelayMs_ := kInitRetryDelayMs
      connect_ := true } := by
    refine ⟨Nat.le_refl _, ?_, h.made, fun t ht hbase => ?_⟩
    · change kInitRetryDelayMs = backoff (x.timersMade - x.timersMade)
      rw [Nat.sub_self]
      rfl
    · exact absurd (h.made t ht) (Nat.not_lt_of_le hbase)
  exact hfirst.startInLoop errno

theorem exists_backsOff {as : List ConnectorAction} (h : BacksOff base x)
    (hy : GuardedRuns.run Connector.step x as = some y) : ∃ base', BacksOff base' y := by
  induction as generalizing base x with
  | nil =>
    cases hy
    exact ⟨base, h⟩
  | cons a as ih =>
    obtain ⟨z, hz, hy⟩ := run_cons_eq_some.mp hy
    by_cases ha : ∃ errno, a = .restart errno
    · obtain ⟨errno, rfl⟩ := ha
      cases (step_move hz).2
      exact ih (h.restart errno) hy
    · exact ih (h.step (fun errno heq => ha ⟨errno, heq⟩) hz) hy

/-- In any run, whatever is called and whatever fails: the timers that a connector has set since
its construction, or since a restart, have the delays in turn, and so will the next one. -/
theorem retry_backoff {as : List ConnectorAction} {z : Connector}
    (hz : GuardedRuns.run Connector.step construct as = some z) :
    ((∀ errno, .restart errno ∉ as) → z.retryDelayMs_ = backoff z.timersMade ∧
        ∀ t ∈ z.timers, t.2 = backoff t.1) ∧
      ∀ errno bs x, GuardedRuns.run Connector.step z (.restart errno :: bs) = some x →
        (∀ errno', .restart errno' ∉ bs) →
        x.retryDelayMs_ = backoff (x.timersMade - z.timersMade) ∧
          ∀ t ∈ x.timers, z.timersMade ≤ t.1 → t.2 = backoff (t.1 - z.timersMade) := by
  refine ⟨fun has => ?_, fun errno bs x hx hbs => ?_⟩
  · have h := backsOff_construct.run has hz
    exact ⟨h.delay, fun t ht => h.timers t ht (Nat.zero_le _)⟩
  · obtain ⟨base, h⟩ := exists_backsOff backsOff_construct hz
    obtain ⟨y, hy, hx⟩ := run_cons_eq_some.mp hx
    cases (step_move hy).2
    have h' := (h.restart errno).run hbs hx
    exact ⟨h'.delay, h'.timers⟩

/-- Two attempts that are refused, a restart, and two more. -/
theorem retry_backoff_restarted : ∃ z x,
    GuardedRuns.run Connector.step construct
      [.start true .ECONNREFUSED, .expire 0, .timer 0 .ECONNREFUSED] = some z ∧
    GuardedRuns.run Connector.step z
      [.restart .ECONNREFUSED, .expire 2, .timer 2 .ECONNREFUSED] = some x ∧
    x.timers = [(1, 1000), (3, 1000)] ∧ x.retryDelayMs_ = backoff 2 := by
  obtain ⟨z, hz⟩ : ∃ z, GuardedRuns.run Connector.step construct
      [.start true .ECONNREFUSED, .expire 0, .timer 0 .ECONNREFUSED] = some z := ⟨_, rfl⟩
  obtain ⟨x, hx⟩ : ∃ x, GuardedRuns.run Connector.step z
      [.restart .ECONNREFUSED, .expire 2, .timer 2 .ECONNREFUSED] = some x := by
    cases hz
    exact ⟨_, rfl⟩
  have hbs (errno : ConnectErrno) :
      .restart errno ∉ [ConnectorAction.expire 2, .timer 2 .ECONNREFUSED] := by simp
  obtain ⟨hdelay, -⟩ := (retry_backoff hz).2 .ECONNREFUSED _ x hx hbs
  refine ⟨z, x, hz, hx, ?_, ?_⟩
  · cases hz
    cases hx
    rfl
  · cases hz
    cases hx
    exact hdelay

end ReactorNet.Connector
