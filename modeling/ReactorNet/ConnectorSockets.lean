import Mathlib.Data.List.Basic
import ReactorNet.Connector
import ReactorNet.GuardedRuns

/-!
# Who owns a socket of the connector

Every socket is held by the registered channel, closed, or handed over, and only once.
The one thing that could lose a socket is a channel that replaces a registered one, which
is what the assertion in `connecting` rules out.
-/
namespace ReactorNet.Connector

variable {x y : Connector}

def registered (x : Connector) : Bool := x.channel_.any fun c => c.registered

theorem registered_iff : x.registered = true ↔ ∃ fd, x.channel_ = some ⟨fd, true⟩ := by
  rw [registered, Option.any_eq_true]
  constructor
  · rintro ⟨⟨fd, reg⟩, hchannel, hreg⟩
    have hreg' : reg = true := hreg
    exact ⟨fd, hreg' ▸ hchannel⟩
  · rintro ⟨fd, hchannel⟩
    exact ⟨_, hchannel, rfl⟩

/-- The socket of the registered channel. -/
def held (x : Connector) : List ℕ :=
  x.channel_.elim [] fun c => if c.registered then [c.fd] else []

/-- A `resetChannel` is queued exactly while the channel is out of the poller. -/
def ResetQueued (x : Connector) : Prop :=
  x.pendingFunctors_.count .resetChannel = if x.channel_.any (fun c => !c.registered) then 1 else 0

structure Owned (x : Connector) : Prop where
  reset : ResetQueued x
  sockets : (x.held ++ x.closed ++ x.handedOver).Perm (List.range x.socketsMade)

theorem owned_construct : Owned construct := ⟨rfl, .refl _⟩

/-- Only the channel, the functors and the sockets matter. -/
theorem Owned.congr (h : Owned x) (hchannel : y.channel_ = x.channel_)
    (hcount : y.pendingFunctors_.count .resetChannel = x.pendingFunctors_.count .resetChannel)
    (hclosed : y.closed = x.closed) (hhanded : y.handedOver = x.handedOver)
    (hmade : y.socketsMade = x.socketsMade) : Owned y := by
  constructor
  · rw [ResetQueued, hcount, hchannel]
    exact h.reset
  · rw [held, hchannel, hclosed, hhanded, hmade]
    exact h.sockets

theorem Owned.check (h : Owned x) (holds : Bool) (place : ConnectorAssert) :
    Owned (x.check holds place) :=
  h.congr (by simp) (by simp) (by simp) (by simp) (by simp)

theorem Owned.cancel (h : Owned x) (inLoop : Bool) : Owned (x.cancel inLoop) :=
  h.congr (by simp) (by simp) (by simp) (by simp) (by simp)

/-- A new socket is closed at once or goes to a new channel. -/
theorem Owned.connect (h : Owned x) {errno : ConnectErrno}
    (hfailed : .connecting ∉ (x.connect errno).failed) : Owned (x.connect errno) := by
  have hmade : (x.socketsMade :: (x.held ++ x.closed ++ x.handedOver)).Perm
      (List.range (x.socketsMade + 1)) := by
    rw [List.range_succ]
    exact (List.Perm.cons _ h.sockets).trans (List.perm_append_singleton _ _).symm
  rcases x.connect_cases errno with ⟨hp, hc⟩ | ⟨-, hc | hc⟩
  · have hnone : x.channel_ = none := by
      rw [failed_connect, hp] at hfailed
      cases hch : x.channel_ with
      | none => rfl
      | some c => simp [hch] at hfailed
    rw [hc]
    constructor
    · have hreset := h.reset
      rw [ResetQueued, hnone] at hreset
      simpa [ResetQueued, connecting, setState] using hreset
    · simpa [held, connecting, setState, hnone] using hmade
  · rw [hc]
    constructor
    · simpa [ResetQueued] using h.reset
    · rw [socketsMade_retry]
      refine List.Perm.trans ?_ hmade
      simp only [held, channel_retry, closed_retry, handedOver_retry]
      rw [← List.append_assoc, List.append_assoc _ [x.socketsMade]]
      exact List.perm_middle
  · rw [hc]
    constructor
    · exact h.reset
    · refine List.Perm.trans ?_ hmade
      simp only [held, close]
      rw [← List.append_assoc, List.append_assoc _ [x.socketsMade]]
      exact List.perm_middle

theorem Owned.startInLoop (h : Owned x) {errno : ConnectErrno}
    (hfailed : .connecting ∉ (x.startInLoop errno).failed) : Owned (x.startInLoop errno) := by
  by_cases hconnect : x.connect_ = true
  · simp only [Connector.startInLoop, connect_check, if_pos hconnect] at hfailed ⊢
    exact (h.check _ _).connect hfailed
  · simp only [Connector.startInLoop, connect_check, if_neg hconnect]
    exact h.check _ _

/-- The channel leaves the poller with its socket, which is then disposed of. -/
theorem Owned.removed (h : Owned x) {fd : ℕ} (hchannel : x.channel_ = some ⟨fd, true⟩)
    (hy : y.channel_ = some ⟨fd, false⟩)
    (hfunctors : y.pendingFunctors_ = x.pendingFunctors_ ++ [.resetChannel])
    (hmade : y.socketsMade = x.socketsMade)
    (hdisposed : (y.closed ++ y.handedOver).Perm (fd :: (x.closed ++ x.handedOver))) :
    Owned y := by
  have hreset := h.reset
  have hsockets := h.sockets
  rw [ResetQueued, hchannel] at hreset
  rw [held, hchannel] at hsockets
  constructor
  · rw [ResetQueued, hfunctors, hy, List.count_append, hreset]
    rfl
  · rw [held, hy, hmade]
    exact hdisposed.trans hsockets

theorem Owned.handleError (h : Owned x) {fd : ℕ} (hchannel : x.channel_ = some ⟨fd, true⟩) :
    ∃ y, x.handleError = some y ∧ Owned y ∧ y.state_ = .kDisconnected ∧
      y.channel_ = some ⟨fd, false⟩ ∧
      y.failed = x.failed ++ if x.state_ = .kConnecting then [] else [.handleError] := by
  refine ⟨_, by rw [Connector.handleError]; simp only [channel_check, hchannel]; rfl, ?_, ?_, ?_, ?_⟩
  · apply h.removed hchannel
    · simp [removeAndResetChannel, queueInLoop]
    · simp [removeAndResetChannel, queueInLoop]
    · simp [removeAndResetChannel, queueInLoop]
    · simp only [closed_retry, handedOver_retry, removeAndResetChannel, queueInLoop, closed_check,
        handedOver_check, List.append_assoc]
      exact List.perm_middle
  · simp
  · simp [removeAndResetChannel, queueInLoop]
  · simp [removeAndResetChannel, queueInLoop]

/-- The ends of a connection attempt: a failed one, one nobody wants any more, and one that
is handed over. -/
theorem handleWrite_cases {fd : ℕ} (hchannel : x.channel_ = some ⟨fd, true⟩)
    (hstate : x.state_ = .kConnecting) (err selfConnect : Bool) :
    ∃ y, x.handleWrite err selfConnect = some y ∧
      (y = (x.removeAndResetChannel ⟨fd, true⟩).retry fd ∨
        y = ((x.removeAndResetChannel ⟨fd, true⟩).setState .kConnected).close fd ∨
        y = { (x.removeAndResetChannel ⟨fd, true⟩).setState .kConnected with
          handedOver := x.handedOver ++ [fd] }) := by
  rw [handleWrite, if_pos hstate, hchannel, Option.map_some]
  refine ⟨_, rfl, ?_⟩
  cases err with
  | true => exact Or.inl rfl
  | false =>
    cases selfConnect with
    | true => exact Or.inl rfl
    | false =>
      cases hconnect : x.connect_ with
      | true => simp [removeAndResetChannel, queueInLoop, setState, hconnect]
      | false => simp [removeAndResetChannel, queueInLoop, setState, hconnect]

/-- The write callback disposes of the socket in every case. -/
theorem Owned.handleWrite (h : Owned x) {fd : ℕ} (hchannel : x.channel_ = some ⟨fd, true⟩)
    (hstate : x.state_ = .kConnecting) (err selfConnect : Bool) :
    ∃ y, x.handleWrite err selfConnect = some y ∧ Owned y ∧ y.state_ ≠ .kConnecting ∧
      y.channel_ = some ⟨fd, false⟩ ∧ y.failed = x.failed := by
  obtain ⟨y, hy, hcases⟩ := handleWrite_cases hchannel hstate err selfConnect
  refine ⟨y, hy, ?_⟩
  rcases hcases with rfl | rfl | rfl
  · refine ⟨h.removed hchannel ?_ ?_ ?_ ?_, ?_, ?_, ?_⟩
    · simp [removeAndResetChannel, queueInLoop]
    · simp [removeAndResetChannel, queueInLoop]
    · simp [removeAndResetChannel, queueInLoop]
    · simp only [closed_retry, handedOver_retry, removeAndResetChannel, queueInLoop,
        List.append_assoc]
      exact List.perm_middle
    · simp
    · simp [removeAndResetChannel, queueInLoop]
    · simp [removeAndResetChannel, queueInLoop]
  · refine ⟨h.removed hchannel rfl rfl rfl ?_, ?_, rfl, rfl⟩
    · simp only [close, setState, removeAndResetChannel, queueInLoop, List.append_assoc]
      exact List.perm_middle
    · intro hne
      cases hne
  · refine ⟨h.removed hchannel rfl rfl rfl ?_, ?_, rfl, rfl⟩
    · simp only [setState, removeAndResetChannel, queueInLoop]
      rw [← List.append_assoc]
      exact List.perm_append_singleton _ _
    · intro hne
      cases hne

theorem handleWrite_idle (hstate : x.state_ ≠ .kConnecting) (err selfConnect : Bool) :
    x.handleWrite err selfConnect = some (x.check (x.state_ = .kDisconnected) .handleWrite) := by
  rw [handleWrite, if_neg hstate]

/-- An event keeps every socket in one place, also when both callbacks run in it. -/
theorem Owned.handleEvent (h : Owned x) (hreg : x.registered = true) (revents : Revents)
    (err selfConnect : Bool) :
    ∃ y, x.handleEvent revents err selfConnect = some y ∧ Owned y := by
  obtain ⟨fd, hchannel⟩ := registered_iff.mp hreg
  rw [handleEvent_eq hreg]
  cases revents.pollerr || revents.pollnval with
  | true =>
    obtain ⟨y, hy, hown, hstate, -⟩ := h.handleError hchannel
    have hidle : y.state_ ≠ .kConnecting := by
      rw [hstate]
      decide
    rw [if_pos rfl, hy, Option.bind_some]
    cases revents.pollout with
    | true => exact ⟨_, handleWrite_idle hidle err selfConnect, hown.check _ _⟩
    | false => exact ⟨y, rfl, hown⟩
  | false =>
    rw [if_neg Bool.false_ne_true, Option.bind_some]
    cases revents.pollout with
    | true =>
      by_cases hstate : x.state_ = .kConnecting
      · obtain ⟨y, hy, hown, -⟩ := h.handleWrite hchannel hstate err selfConnect
        exact ⟨y, hy, hown⟩
      · exact ⟨_, handleWrite_idle hstate err selfConnect, h.check _ _⟩
    | false => exact ⟨x, rfl, h⟩

/-- The queued functor finds the channel out of the poller. -/
theorem Owned.resetChannel (h : Owned x) {rest : List ConnectorFunctor}
    (hqueue : x.pendingFunctors_ = .resetChannel :: rest) :
    Owned ({ x with pendingFunctors_ := rest } : Connector).resetChannel := by
  have hreset := h.reset
  rw [ResetQueued, hqueue, List.count_cons_self] at hreset
  have hout : x.held = [] := by
    rw [held]
    cases hchannel : x.channel_ with
    | none => rfl
    | some c =>
      cases hr : c.registered with
      | true => simp [hchannel, hr] at hreset
      | false => simp [hr]
  constructor
  · have hzero : rest.count .resetChannel = 0 := by
      split at hreset <;> omega
    exact hzero
  · have hsockets := h.sockets
    rw [hout] at hsockets
    exact hsockets

theorem Owned.functor (h : Owned x) {cb : ConnectorFunctor} {rest : List ConnectorFunctor}
    (hqueue : x.pendingFunctors_ = cb :: rest) {errno : ConnectErrno}
    (hfailed : .connecting ∉ (runFunctor { x with pendingFunctors_ := rest } errno cb).failed) :
    Owned (runFunctor { x with pendingFunctors_ := rest } errno cb) := by
  cases cb with
  | resetChannel => exact h.resetChannel hqueue
  | startInLoop =>
    have hrest : Owned { x with pendingFunctors_ := rest } :=
      h.congr rfl (by rw [hqueue]; simp) rfl rfl rfl
    exact hrest.startInLoop hfailed
  | cancel timerId => exact h.congr rfl (by rw [hqueue]; simp [runFunctor, cancelInLoop]) rfl rfl rfl

/-! ## Steps -/

/-- What a step can be. -/
inductive Move (x : Connector) : ConnectorAction → Connector → Prop
  | start (inLoop : Bool) (errno : ConnectErrno) : Move x (.start inLoop errno) (x.start inLoop errno)
  | stop (inLoop : Bool) : Move x (.stop inLoop) (x.stop inLoop)
  | restart (errno : ConnectErrno) : Move x (.restart errno) (x.restart errno)
  | destroy (inLoop : Bool) : Move x (.destroy inLoop) (x.destroy inLoop)
  | expire (timer : ℕ) : Move x (.expire timer) { x with
      timers := x.timers.filter fun t => t.1 ≠ timer, expired := x.expired ++ [timer] }
  | timer (timer : ℕ) (errno : ConnectErrno) : Move x (.timer timer errno)
      (startInLoop { x with expired := x.expired.erase timer } errno)
  | event (revents : Revents) (err selfConnect : Bool) (y : Connector) (hreg : x.registered = true)
      (hy : x.handleEvent revents err selfConnect = some y) : Move x (.event revents err selfConnect) y
  | functor (errno : ConnectErrno) (cb : ConnectorFunctor) (rest : List ConnectorFunctor)
      (hqueue : x.pendingFunctors_ = cb :: rest) :
      Move x (.functor errno) (runFunctor { x with pendingFunctors_ := rest } errno cb)

theorem registered_of_handleEvent {revents : Revents} {err selfConnect : Bool}
    (hy : x.handleEvent revents err selfConnect = some y) : x.registered = true := by
  rw [Connector.handleEvent] at hy
  split at hy
  · assumption
  · cases hy

/-- A step is taken by a connector that exists. -/
theorem step_move {a : ConnectorAction} (hy : x.step a = some y) :
    x.destroyed = false ∧ Move x a y := by
  cases hd : x.destroyed with
  | true =>
    exfalso
    cases a with
    | functor errno => cases hqueue : x.pendingFunctors_ <;> simp [Connector.step, hd, hqueue] at hy
    | _ => simp [Connector.step, hd] at hy
  | false =>
    refine ⟨rfl, ?_⟩
    cases a with
    | start inLoop errno =>
      simp only [Connector.step, hd, Bool.false_eq_true, if_false, Option.some_inj] at hy
      exact hy ▸ .start inLoop errno
    | stop inLoop =>
      simp only [Connector.step, hd, Bool.false_eq_true, if_false, Option.some_inj] at hy
      exact hy ▸ .stop inLoop
    | restart errno =>
      simp only [Connector.step, hd, Bool.false_eq_true, if_false, Option.some_inj] at hy
      exact hy ▸ .restart errno
    | destroy inLoop =>
      simp only [Connector.step, hd, Bool.false_eq_true, if_false, Option.some_inj] at hy
      exact hy ▸ .destroy inLoop
    | expire timer =>
      simp only [Connector.step] at hy
      split at hy
      · exact Option.some_inj.mp hy ▸ .expire timer
      · cases hy
    | timer timer errno =>
      simp only [Connector.step] at hy
      split at hy
      · exact Option.some_inj.mp hy ▸ .timer timer errno
      · cases hy
    | event revents err selfConnect =>
      simp only [Connector.step, hd, Bool.false_eq_true, if_false] at hy
      exact .event revents err selfConnect y (registered_of_handleEvent hy) hy
    | functor errno =>
      cases hqueue : x.pendingFunctors_ with
      | nil => simp [Connector.step, hqueue] at hy
      | cons cb rest =>
        simp only [Connector.step, hqueue] at hy
        split at hy
        · cases hy
        · exact Option.some_inj.mp hy ▸ .functor errno cb rest hqueue

/-- The connector exists, and the assertions of `startInLoop` and `connecting` held. -/
structure Asserted (x : Connector) : Prop where
  startInLoop : .startInLoop ∉ x.failed
  connecting : .connecting ∉ x.failed

instance (x : Connector) : Decidable (Asserted x) :=
  decidable_of_iff (.startInLoop ∉ x.failed ∧ .connecting ∉ x.failed)
    ⟨fun h => ⟨h.1, h.2⟩, fun h => ⟨h.startInLoop, h.connecting⟩⟩

theorem Owned.move {a : ConnectorAction} (h : Owned x) (hok : Asserted y) (hmove : Move x a y)
    (hexists : y.destroyed = false) : Owned y := by
  have hfailed := hok.connecting
  cases hmove with
  | start inLoop errno =>
    have hx : Owned { x with connect_ := true } := h.congr rfl rfl rfl rfl rfl
    cases inLoop with
    | true => exact hx.startInLoop hfailed
    | false => exact hx.congr rfl (by simp [Connector.start, queueInLoop]) rfl rfl rfl
  | stop inLoop =>
    have hx : Owned { x with connect_ := false } := h.congr rfl rfl rfl rfl rfl
    exact (hx.cancel inLoop).check _ _
  | restart errno =>
    have hx : Owned { x.setState .kDisconnected with
        retryDelayMs_ := kInitRetryDelayMs, connect_ := true } := h.congr rfl rfl rfl rfl rfl
    exact hx.startInLoop hfailed
  | destroy inLoop => cases hexists
  | expire timer => exact h.congr rfl rfl rfl rfl rfl
  | timer timer errno =>
    have hx : Owned { x with expired := x.expired.erase timer } := h.congr rfl rfl rfl rfl rfl
    exact hx.startInLoop hfailed
  | event revents err selfConnect y hreg hy =>
    obtain ⟨z, hz, hown⟩ := h.handleEvent hreg revents err selfConnect
    cases hz.symm.trans hy
    exact hown
  | functor errno cb rest hqueue => exact h.functor hqueue hfailed

theorem Owned.step {a : ConnectorAction} (h : x.destroyed = false → Owned x) (hok : Asserted y)
    (hy : x.step a = some y) (hexists : y.destroyed = false) : Owned y := by
  obtain ⟨hd, hmove⟩ := step_move hy
  exact (h hd).move hok hmove hexists

/-! ## Runs -/

/-- As long as the connector exists, every socket it made is held by the registered
channel, closed, or handed over, and that once. -/
theorem socket_in_one_place (actions : List ConnectorAction) (x : Connector)
    (hok : GuardedRuns.Throughout step Asserted construct actions)
    (hx : GuardedRuns.run step construct actions = some x) (hexists : x.destroyed = false)
    (sockfd : ℕ) :
    x.held.count sockfd + x.closed.count sockfd + x.handedOver.count sockfd =
      if sockfd < x.socketsMade then 1 else 0 := by
  have howned : x.destroyed = false → Owned x :=
    GuardedRuns.throughout_invariant (fun _ _ _ hs hq ht hd => Owned.step hs hq ht hd)
      (fun _ => owned_construct) hok hx
  have hcount := (howned hexists).sockets.count_eq sockfd
  rw [List.count_append, List.count_append] at hcount
  rw [hcount, List.count_range]

/-- An error with both callbacks, a retry, a connection, and a stop before the channel is
reset. -/
def retried : List ConnectorAction :=
  [.start true .EINPROGRESS,
    .event ⟨false, false, true, true, false, false, false⟩ true false,
    .functor .success, .expire 0, .timer 0 .success,
    .event ⟨false, false, true, false, false, false, false⟩ false false, .stop true]

theorem socket_in_one_place_retried :
    ∃ x, GuardedRuns.run step construct retried = some x ∧
      x.held.count 1 + x.closed.count 1 + x.handedOver.count 1 = 1 :=
  ⟨_, rfl, socket_in_one_place retried _ (by decide +kernel) rfl rfl 1⟩

end ReactorNet.Connector
