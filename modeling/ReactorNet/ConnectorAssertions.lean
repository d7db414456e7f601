import ReactorNet.ConnectorSockets

/-!
# The assertions of the connector

Which steps keep the assertions of the connector and its channel registered exactly while
it is connecting. An attempt may only begin when the connector is disconnected and the
channel of the last attempt is gone; `stop`, `restart` and the destructor do not end an
attempt that is under way, so they have to wait for it.
-/
namespace ReactorNet.Connector

open GuardedRuns

variable {x y : Connector}

/-- No assertion failed, and a channel is registered exactly while connecting. -/
structure Correct (x : Connector) : Prop where
  asserted : x.failed = []
  registered : x.registered = true ↔ x.state_ = .kConnecting

instance (x : Connector) : Decidable (Correct x) :=
  decidable_of_iff (x.failed = [] ∧ (x.registered = true ↔ x.state_ = .kConnecting))
    ⟨fun h => ⟨h.1, h.2⟩, fun h => ⟨h.asserted, h.registered⟩⟩

/-- The `resetChannel` of the last attempt is still queued. -/
def resetPending (x : Connector) : Prop := .resetChannel ∈ x.pendingFunctors_

/-- No attempt is under way, none has succeeded since the last restart, and `startInLoop` does
not need a new channel before the old one is reset. -/
def startable (x : Connector) (errno : ConnectErrno) : Prop :=
  x.state_ ≠ .kConnecting ∧ x.state_ ≠ .kConnected ∧
    (x.connect_ = true → errno.pending = true → ¬x.resetPending)

/-- No attempt is under way, and the last one is cleaned up. -/
def settled (x : Connector) : Prop := x.state_ ≠ .kConnecting ∧ ¬x.resetPending

/-- The steps that come at the right moment. -/
def calm (x : Connector) : ConnectorAction → Prop
  | .start inLoop errno => inLoop = true → startable { x with connect_ := true } errno
  | .stop _ => x.settled
  | .restart errno => x.state_ ≠ .kConnecting ∧ (errno.pending = true → ¬x.resetPending)
  | .destroy _ => x.settled
  | .expire _ => True
  | .timer _ errno => x.startable errno
  | .event _ _ _ => True
  | .functor errno => x.pendingFunctors_.head? = some .startInLoop → x.startable errno

instance (x : Connector) : Decidable x.resetPending :=
  inferInstanceAs (Decidable (_ ∈ _))

instance (x : Connector) (errno : ConnectErrno) : Decidable (x.startable errno) :=
  inferInstanceAs (Decidable (_ ∧ _))

instance (x : Connector) : Decidable x.settled :=
  inferInstanceAs (Decidable (_ ∧ _))

instance (x : Connector) : (a : ConnectorAction) → Decidable (x.calm a)
  | .start _ _ => inferInstanceAs (Decidable (_ → _))
  | .stop _ => inferInstanceAs (Decidable (settled _))
  | .restart _ => inferInstanceAs (Decidable (_ ∧ _))
  | .destroy _ => inferInstanceAs (Decidable (settled _))
  | .expire _ => inferInstanceAs (Decidable True)
  | .timer _ _ => inferInstanceAs (Decidable (startable _ _))
  | .event _ _ _ => inferInstanceAs (Decidable True)
  | .functor _ => inferInstanceAs (Decidable (_ → _))

theorem correct_construct : Correct construct := by decide

theorem Correct.congr (h : Correct x) (hfailed : y.failed = x.failed)
    (hchannel : y.channel_ = x.channel_) (hstate : y.state_ = x.state_) : Correct y := by
  constructor
  · rw [hfailed, h.asserted]
  · rw [Connector.registered, hchannel, hstate]
    exact h.registered

theorem Correct.registered_false (h : Correct x) (hstate : x.state_ ≠ .kConnecting) :
    x.registered = false := by
  rw [← Bool.not_eq_true, h.registered]
  exact hstate

/-- Without a registered channel, the channel is gone once its reset has run. -/
theorem Owned.channel_none_iff (h : Owned x) :
    x.channel_ = none ↔ x.registered = false ∧ ¬x.resetPending := by
  have hreset := h.reset
  rw [ResetQueued] at hreset
  rw [resetPending, ← List.count_eq_zero, hreset, Connector.registered]
  cases x.channel_ with
  | none => simp
  | some c => cases hr : c.registered <;> simp [hr]

theorem Owned.registered_of_resetPending (h : Owned x) (hp : x.resetPending) :
    x.registered = false := by
  have hreset := h.reset
  have hpos : 0 < x.pendingFunctors_.count .resetChannel := List.count_pos_iff.mpr hp
  rw [ResetQueued] at hreset
  rw [hreset] at hpos
  rw [Connector.registered]
  cases hc : x.channel_ with
  | none => rfl
  | some c => cases hr : c.registered <;> simp [hc, hr] at hpos ⊢

theorem Correct.check_iff (h : Correct x) (holds : Bool) (place : ConnectorAssert) :
    Correct (x.check holds place) ↔ holds = true := by
  cases holds with
  | true => simp [check, h]
  | false =>
    refine iff_of_false ?_ Bool.false_ne_true
    intro hy
    have hfailed := hy.asserted
    rw [failed_check] at hfailed
    simp at hfailed

theorem Correct.settled_iff (h : Correct x) (hx : Owned x) :
    x.settled ↔ x.channel_ = none := by
  rw [hx.channel_none_iff, settled, ← Bool.not_eq_true, h.registered]

/-! ## Beginning an attempt -/

theorem failed_startInLoop_iff (hfailed : x.failed = []) (errno : ConnectErrno) :
    (x.startInLoop errno).failed = [] ↔ x.state_ = .kDisconnected ∧
      (x.connect_ = true → errno.pending = true → x.channel_ = none) := by
  rw [failed_startInLoop, hfailed]
  cases x.connect_ <;> cases errno.pending <;> cases x.channel_ <;> simp

/-- An attempt leaves the channel alone, or registers a new one and waits for it. -/
theorem startInLoop_channel (x : Connector) (errno : ConnectErrno) :
    (x.startInLoop errno).channel_ = x.channel_ ∧
        ((x.startInLoop errno).state_ = x.state_ ∨
          (x.startInLoop errno).state_ = .kDisconnected) ∨
      (x.connect_ = true ∧ errno.pending = true) ∧
        (x.startInLoop errno).registered = true ∧
        (x.startInLoop errno).state_ = .kConnecting := by
  cases hconnect : x.connect_ with
  | false => simp [startInLoop, hconnect]
  | true =>
    simp only [startInLoop, connect_check, hconnect, if_true]
    rcases (x.check (x.state_ = .kDisconnected) .startInLoop).connect_cases errno with
      ⟨hp, hc⟩ | ⟨-, hc | hc⟩
    · rw [hc]
      right
      simp [connecting, setState, Connector.registered, hp]
    · rw [hc]
      left
      simp
    · rw [hc]
      left
      simp [close]

theorem disconnected_iff :
    x.state_ = .kDisconnected ↔ x.state_ ≠ .kConnecting ∧ x.state_ ≠ .kConnected := by
  cases x.state_ <;> decide

/-- An attempt begins without harm exactly in a disconnected connector that is ready for
the channel. -/
theorem Correct.startInLoop_iff (h : Correct x) (hx : Owned x) (errno : ConnectErrno) :
    Correct (x.startInLoop errno) ↔ x.startable errno := by
  have hchannel (hs : x.state_ = .kDisconnected) : x.channel_ = none ↔ ¬x.resetPending := by
    have hreg : x.registered = false := by
      apply h.registered_false
      rw [hs]
      decide
    rw [hx.channel_none_iff]
    simp [hreg]
  constructor
  · intro hy
    obtain ⟨hs, hnone⟩ := (failed_startInLoop_iff h.asserted errno).mp hy.asserted
    obtain ⟨hidle, hopen⟩ := disconnected_iff.mp hs
    exact ⟨hidle, hopen, fun hc hp => (hchannel hs).mp (hnone hc hp)⟩
  · rintro ⟨hidle, hopen, hreset⟩
    have hs := disconnected_iff.mpr ⟨hidle, hopen⟩
    constructor
    · rw [failed_startInLoop_iff h.asserted]
      exact ⟨hs, fun hc hp => (hchannel hs).mpr (hreset hc hp)⟩
    · rcases x.startInLoop_channel errno with ⟨hch, hst⟩ | ⟨-, hreg, hst⟩
      · have hd : (x.startInLoop errno).state_ = .kDisconnected := by
          rcases hst with hst | hst
          · rw [hst, hs]
          · exact hst
        rw [Connector.registered, hch, hd]
        have hreg := h.registered
        rw [hs] at hreg
        exact hreg
      · rw [hreg, hst]
        simp

/-- Where a channel is registered, an attempt drops it, or leaves it registered in a
disconnected connector. -/
theorem not_correct_startInLoop (hreg : x.registered = true) (hs : x.state_ = .kDisconnected)
    (hconnect : x.connect_ = true) (hfailed : x.failed = []) (errno : ConnectErrno) :
    ¬Correct (x.startInLoop errno) := by
  intro hy
  rcases x.startInLoop_channel errno with ⟨hch, hst⟩ | ⟨⟨-, hp⟩, -⟩
  · have hd : (x.startInLoop errno).state_ = .kDisconnected := by
      rcases hst with hst | hst
      · rw [hst, hs]
      · exact hst
    have hconnecting := hy.registered
    rw [Connector.registered, hch, hd] at hconnecting
    cases hconnecting.mp hreg
  · obtain ⟨-, hnone⟩ := (failed_startInLoop_iff hfailed errno).mp hy.asserted
    obtain ⟨fd, hchannel⟩ := registered_iff.mp hreg
    rw [hnone hconnect hp] at hchannel
    cases hchannel

/-! ## Steps -/

theorem Correct.handleEvent (h : Correct x) (hx : Owned x) (hreg : x.registered = true)
    (revents : Revents) (err selfConnect : Bool) :
    ∃ y, x.handleEvent revents err selfConnect = some y ∧ Correct y := by
  obtain ⟨fd, hchannel⟩ := registered_iff.mp hreg
  have hstate : x.state_ = .kConnecting := h.registered.mp hreg
  rw [handleEvent_eq hreg]
  cases revents.pollerr || revents.pollnval with
  | true =>
    obtain ⟨y, hy, -, hd, hout, hfailed⟩ := hx.handleError hchannel
    rw [if_pos hstate, List.append_nil, h.asserted] at hfailed
    have hcorrect : Correct y := by
      constructor
      · exact hfailed
      · simp [Connector.registered, hout, hd]
    have hidle : y.state_ ≠ .kConnecting := by
      rw [hd]
      decide
    rw [if_pos rfl, hy, Option.bind_some]
    cases revents.pollout with
    | true =>
      refine ⟨_, handleWrite_idle hidle err selfConnect, hcorrect.congr ?_ (by simp) (by simp)⟩
      simp [hd]
    | false => exact ⟨y, rfl, hcorrect⟩
  | false =>
    rw [if_neg Bool.false_ne_true, Option.bind_some]
    cases revents.pollout with
    | true =>
      obtain ⟨y, hy, -, hd, hout, hfailed⟩ := hx.handleWrite hchannel hstate err selfConnect
      refine ⟨y, hy, hfailed.trans h.asserted, ?_⟩
      simp [Connector.registered, hout, hd]
    | false => exact ⟨x, rfl, h⟩

/-- The functors that stay in the queue decide whether a reset is pending. -/
theorem Correct.functor_iff (h : Correct x) (hx : Owned x) {cb : ConnectorFunctor}
    {rest : List ConnectorFunctor} (hqueue : x.pendingFunctors_ = cb :: rest)
    (errno : ConnectErrno) :
    Correct (runFunctor { x with pendingFunctors_ := rest } errno cb) ↔
      (cb = .startInLoop → x.startable errno) := by
  cases cb with
  | startInLoop =>
    have hrest : Owned { x with pendingFunctors_ := rest } :=
      hx.congr rfl (by rw [hqueue]; simp) rfl rfl rfl
    have hcorrect : Correct { x with pendingFunctors_ := rest } := h.congr rfl rfl rfl
    have hpending : resetPending { x with pendingFunctors_ := rest } ↔ x.resetPending := by
      simp [resetPending, hqueue]
    rw [runFunctor, hcorrect.startInLoop_iff hrest, startable, startable, hpending]
    simp
  | resetChannel =>
    have hpending : x.resetPending := by simp [resetPending, hqueue]
    have hidle : x.state_ ≠ .kConnecting := by
      intro hs
      have hreg := hx.registered_of_resetPending hpending
      rw [h.registered.mpr hs] at hreg
      cases hreg
    simp only [reduceCtorEq, false_implies, iff_true]
    constructor
    · exact h.asserted
    · simp [runFunctor, resetChannel, Connector.registered, hidle]
  | cancel timerId =>
    simp only [reduceCtorEq, false_implies, iff_true]
    exact h.congr rfl rfl rfl

theorem Correct.stop_iff (h : Correct x) (inLoop : Bool) :
    Correct (x.stop inLoop) ↔ x.channel_ = none := by
  have hcancel : Correct (({ x with connect_ := false } : Connector).cancel inLoop) :=
    h.congr (by simp) (by simp) (by simp)
  rw [stop, hcancel.check_iff, Option.isNone_iff_eq_none]

theorem Correct.destroy_iff (h : Correct x) (inLoop : Bool) :
    Correct (x.destroy inLoop) ↔ x.channel_ = none := by
  have hcancel : Correct (x.cancel inLoop) := h.congr (by simp) (by simp) (by simp)
  constructor
  · intro hy
    have hfailed : ((x.cancel inLoop).check x.channel_.isNone .dtor).failed = [] := hy.asserted
    rw [failed_check, failed_cancel, h.asserted] at hfailed
    cases hc : x.channel_ with
    | none => rfl
    | some c => simp [hc] at hfailed
  · intro hnone
    constructor
    · simp [destroy, hnone, h.asserted]
    · have hidle := h.registered
      simp only [Connector.registered, hnone, Option.any_none, Bool.false_eq_true, false_iff]
        at hidle
      simp [destroy, Connector.registered, hidle]

theorem Correct.restart_iff (h : Correct x) (hx : Owned x) (errno : ConnectErrno) :
    Correct (x.restart errno) ↔
      x.state_ ≠ .kConnecting ∧ (errno.pending = true → ¬x.resetPending) := by
  by_cases hs : x.state_ = .kConnecting
  · refine iff_of_false ?_ fun hcalm => hcalm.1 hs
    have hreg : Connector.registered { x.setState .kDisconnected with
        retryDelayMs_ := kInitRetryDelayMs, connect_ := true } = true := h.registered.mpr hs
    exact not_correct_startInLoop hreg rfl rfl h.asserted errno
  · have hidle : Correct { x.setState .kDisconnected with
        retryDelayMs_ := kInitRetryDelayMs, connect_ := true } := by
      constructor
      · exact h.asserted
      · have hreg : x.registered = false := h.registered_false hs
        simp only [reduceCtorEq, iff_false, Bool.not_eq_true, setState]
        exact hreg
    have howned : Owned { x.setState .kDisconnected with
        retryDelayMs_ := kInitRetryDelayMs, connect_ := true } :=
      hx.congr rfl rfl rfl rfl rfl
    rw [restart, hidle.startInLoop_iff howned]
    simp [startable, hs, resetPending, setState]

theorem Correct.move_iff (h : Correct x) (hx : Owned x) {a : ConnectorAction} (hmove : Move x a y) :
    Correct y ↔ x.calm a := by
  cases hmove with
  | start inLoop errno =>
    have hconnect : Owned { x with connect_ := true } := hx.congr rfl rfl rfl rfl rfl
    have hcorrect : Correct { x with connect_ := true } := h.congr rfl rfl rfl
    cases inLoop with
    | true =>
      rw [calm, Connector.start, if_pos rfl, hcorrect.startInLoop_iff hconnect]
      simp
    | false =>
      simp only [calm, Bool.false_eq_true, false_implies, iff_true]
      exact hcorrect.congr rfl rfl rfl
  | stop inLoop => rw [h.stop_iff, calm, h.settled_iff hx]
  | restart errno => exact h.restart_iff hx errno
  | destroy inLoop => rw [h.destroy_iff, calm, h.settled_iff hx]
  | expire timer =>
    simp only [calm, iff_true]
    exact h.congr rfl rfl rfl
  | timer timer errno =>
    have hexpired : Owned { x with expired := x.expired.erase timer } :=
      hx.congr rfl rfl rfl rfl rfl
    have hcorrect : Correct { x with expired := x.expired.erase timer } := h.congr rfl rfl rfl
    rw [hcorrect.startInLoop_iff hexpired]
    rfl
  | event revents err selfConnect y hreg hy =>
    obtain ⟨z, hz, hcorrect⟩ := h.handleEvent hx hreg revents err selfConnect
    cases hz.symm.trans hy
    simp only [calm, iff_true]
    exact hcorrect
  | functor errno cb rest hqueue =>
    rw [h.functor_iff hx hqueue, calm, hqueue, List.head?_cons, Option.some_inj]

/-! ## Runs -/

/-- In every run the assertions hold and a channel is registered exactly while connecting,
if and only if every step comes at the right moment. -/
theorem correct_iff_calm (actions : List ConnectorAction) (x : Connector)
    (hx : run step construct actions = some x) :
    Throughout step Correct construct actions ↔ Meets step calm construct actions := by
  have hall : Meets step (fun _ _ => True) construct actions :=
    Meets.of_forall (fun _ _ => trivial) construct actions
  refine throughout_iff_meets (I := fun s => Correct s → s.destroyed = false → Owned s)
    ?_ ?_ ?_ correct_construct hall hx
  · intro s a t hs hp _ ht hcorrect hexists
    have hok : Asserted t := by
      constructor <;> simp [hcorrect.asserted]
    exact Owned.step (hs hp) hok ht hexists
  · intro s a t hs hp _ ht
    obtain ⟨hd, hmove⟩ := step_move ht
    exact hp.move_iff (hs hp hd) hmove
  · intro _ _
    exact owned_construct

/-- A connection, a restart after its channel is reset, an error, and a stop that waits for
the end of the attempt. -/
theorem correct_waiting :
    Throughout step Correct construct
      [.start true .EINPROGRESS, .event ⟨false, false, true, false, false, false, false⟩ false false,
        .functor .success, .restart .EINPROGRESS,
        .event ⟨false, false, true, true, false, false, false⟩ true false, .functor .success,
        .stop true, .destroy true] :=
  (correct_iff_calm _ _ rfl).mpr (by decide +kernel)

/-- Without waiting, `stop` fails its assertion, a second `start` fails two, and `restart`
leaves the channel registered in a disconnected connector. -/
theorem correct_fails :
    (∃ x, run step construct [.start true .EINPROGRESS, .stop true] = some x ∧
      x.failed = [.stop]) ∧
    (∃ x, run step construct [.start true .EINPROGRESS, .start true .EINPROGRESS] = some x ∧
      x.failed = [.startInLoop, .connecting]) ∧
    ∃ x, run step construct [.start true .EINPROGRESS, .restart .ENETUNREACH] = some x ∧
      x.failed = [] ∧ x.registered = true ∧ x.state_ = .kDisconnected :=
  ⟨⟨_, rfl, rfl⟩, ⟨_, rfl, rfl⟩, ⟨_, rfl, rfl, rfl, rfl⟩⟩

end ReactorNet.Connector
