import ReactorNet.ConnectionLifecycle
import ReactorNet.TcpServerRun

/-!
# The server and its connection follow the life cycle

Every step of the loops and the callers is a step of the life cycle, and closes the
connection exactly when it enters `handleClose`. So the server may count on its
assertions as long as `handleClose` is entered only while the server owns the
connection.
-/
namespace ReactorNet

namespace TcpConnection

/-- A change of a connection that neither establishes nor destroys it. -/
structure Quiet (c c' : TcpConnection) : Prop where
  name : c'.name_ = c.name_
  establishing : c'.loop_.queued.count .connectEstablished =
    c.loop_.queued.count .connectEstablished
  destroys : c'.loop_.queued.count .connectDestroyed = c.loop_.queued.count .connectDestroyed
  state : c'.state_ = c.state_ ∨ c'.state_ = .kDisconnecting

variable {c c' c'' : TcpConnection}

theorem Quiet.refl (c : TcpConnection) : Quiet c c := ⟨rfl, rfl, rfl, Or.inl rfl⟩

theorem Quiet.trans (h : Quiet c c') (h' : Quiet c' c'') : Quiet c c'' where
  name := h'.name.trans h.name
  establishing := h'.establishing.trans h.establishing
  destroys := h'.destroys.trans h.destroys
  state := by
    rcases h'.state with he | he
    · exact h.state.imp (he.trans ·) (he.trans ·)
    · exact Or.inr he

theorem Queues.quiet {fs : List ConnFunctor} (h : Queues c c' fs) : Quiet c c' := by
  have hnot (f : ConnFunctor) (hf : f = .connectEstablished ∨ f = .connectDestroyed) :
      fs.count f = 0 := by
    refine List.count_eq_zero.mpr fun hin => ?_
    rcases h.callbacks f hin with rfl | ⟨size, rfl⟩ <;> simp at hf
  refine ⟨h.name, ?_, ?_, Or.inl h.state⟩
  · rw [h.queued, List.count_append, hnot _ (Or.inl rfl), Nat.add_zero]
  · rw [h.queued, List.count_append, hnot _ (Or.inr rfl), Nat.add_zero]

/-- Queueing one of the other functors, and taking it out again. -/
theorem quiet_push (c : TcpConnection) {l : EventLoop ConnFunctor} {f : ConnFunctor}
    (hl : l.queued = c.loop_.queued ++ [f]) (he : f ≠ .connectEstablished)
    (hd : f ≠ .connectDestroyed) : Quiet c { c with loop_ := l } where
  name := rfl
  establishing := by simp [hl, List.count_append, he]
  destroys := by simp [hl, List.count_append, hd]
  state := Or.inl rfl

theorem quiet_pop (c : TcpConnection) {l : EventLoop ConnFunctor} {f : ConnFunctor}
    (hl : c.loop_.queued = f :: l.queued) (he : f ≠ .connectEstablished)
    (hd : f ≠ .connectDestroyed) : Quiet c { c with loop_ := l } where
  name := rfl
  establishing := by simp [hl, he]
  destroys := by simp [hl, hd]
  state := Or.inl rfl

theorem quiet_sendInLoop (c : TcpConnection) (message : List UInt8) (result : Option ℕ) :
    Quiet c (c.sendInLoop message result) := by
  obtain ⟨fs, hs⟩ := c.sendInLoop_spec message result
  exact hs.queues.quiet

theorem quiet_send (c : TcpConnection) (message : List UInt8) (result : Option ℕ) :
    Quiet c (c.send message result) := by
  rw [send]
  split
  · exact c.quiet_sendInLoop message result
  · exact Quiet.refl c

theorem quiet_handleWrite (c : TcpConnection) (result : Option ℕ) :
    Quiet c (c.handleWrite result) := by
  rcases c.handleWrite_cases result with ⟨heq, -⟩ | ⟨n, -, -, -, heq⟩
  · rw [heq]
    exact Quiet.refl c
  · rw [heq]
    split
    · obtain ⟨fs, hq, -⟩ := (c.wrote n).drained_spec
      have hwrote : Quiet c (c.wrote n) := ⟨rfl, rfl, rfl, Or.inl rfl⟩
      exact hwrote.trans hq.quiet
    · exact ⟨rfl, rfl, rfl, Or.inl rfl⟩

theorem quiet_shutdownInLoop (c : TcpConnection) : Quiet c c.shutdownInLoop := by
  rw [shutdownInLoop]
  split
  · exact Quiet.refl c
  · exact ⟨rfl, rfl, rfl, Or.inl rfl⟩

theorem quiet_setState (c : TcpConnection) : Quiet c (c.setState .kDisconnecting) :=
  ⟨rfl, rfl, rfl, Or.inr rfl⟩

theorem quiet_shutdown (c : TcpConnection) : Quiet c c.shutdown := by
  rw [shutdown]
  split
  · exact c.quiet_setState.trans (quiet_shutdownInLoop _)
  · exact Quiet.refl c

theorem quiet_forceClose (c : TcpConnection) : Quiet c c.forceClose := by
  rw [forceClose]
  split
  · exact c.quiet_setState.trans
      (quiet_push _ (EventLoop.queued_queueInLoop ..) (by simp) (by simp))
  · exact Quiet.refl c

end TcpConnection

namespace ServerRun

open TcpConnection GuardedRuns

/-- The life cycle of the connection as far as the run has got. -/
def lifecycle (s : ServerRun) : Lifecycle where
  registered := decide (s.conn.name_ ∈ s.server.connections_)
  establishing := s.conn.loop_.queued.count .connectEstablished
  removals := s.server.loop_.queued.length
  destroys := s.conn.loop_.queued.count .connectDestroyed
  closes := s.trace.count .closeCallback_
  erased := s.trace.filterMap fun | .erased n => some n | _ => none
  asserts := s.trace.filterMap fun | .connectDestroyed b => some b | _ => none
  ups := s.trace.count (.connectionCallback_ true)
  downs := s.trace.count (.connectionCallback_ false)

/-- A step with no event in the life cycle. -/
structure Quiet (s s' : ServerRun) : Prop where
  conn : TcpConnection.Quiet s.conn s'.conn
  registered : s.conn.name_ ∈ s'.server.connections_ ↔ s.conn.name_ ∈ s.server.connections_
  removals : s'.server.loop_.queued.length = s.server.loop_.queued.length
  trace : s'.trace = s.trace
  name_lt : s.server.nextConnId_ ≤ s'.server.nextConnId_

theorem Quiet.lifecycle_eq {s s' : ServerRun} (h : Quiet s s') : s'.lifecycle = s.lifecycle := by
  simp only [lifecycle, h.conn.name, h.registered, h.conn.establishing, h.removals,
    h.conn.destroys, h.trace]

/-- A step that changes only the connection, and what is not part of the life cycle. -/
theorem quiet_of_conn {s s' : ServerRun} (h : TcpConnection.Quiet s.conn s'.conn)
    (hs : s'.server = s.server) (ht : s'.trace = s.trace) : Quiet s s' where
  conn := h
  registered := by rw [hs]
  removals := by rw [hs]
  trace := ht
  name_lt := Nat.le_of_eq (by rw [hs])

/-- `newConnection` has queued `connectEstablished`, which has not run yet. -/
structure Connecting (s : ServerRun) : Prop where
  queued : s.conn.loop_.queued = [.connectEstablished]
  removals : s.server.loop_.queued = []
  state : s.conn.state_ = .kConnecting
  interest : s.conn.channel_.interest = none
  active : s.active = none
  todo : s.todo = []
  callers : ∀ t, s.callers t = .idle

structure Established (s : ServerRun) : Prop where
  queued : s.conn.loop_.queued.count .connectEstablished = 0
  state : s.conn.state_ ≠ .kConnecting
  open_ : s.lifecycle.asserts = [] → s.conn.state_ ≠ .kDisconnected

structure Good (s : ServerRun) : Prop where
  sound : s.lifecycle.Sound
  name_lt : s.conn.name_ < s.server.nextConnId_
  stage : s.Connecting ∨ s.Established

theorem Established.quiet {s s' : ServerRun} (h : s.Established) (hq : Quiet s s') :
    s'.Established where
  queued := hq.conn.establishing.trans h.queued
  state := by
    rcases hq.conn.state with he | he
    · rw [he]
      exact h.state
    · simp [he]
  open_ ha := by
    rw [hq.lifecycle_eq] at ha
    rcases hq.conn.state with he | he
    · rw [he]
      exact h.open_ ha
    · simp [he]

/-- `connectEstablished` is queued only until it has run. -/
theorem Good.connecting {s : ServerRun} (h : s.Good) {q : List ConnFunctor}
    (hl : s.conn.loop_.queued = .connectEstablished :: q) : s.Connecting := by
  rcases h.stage with hc | he
  · exact hc
  · have hcount := he.queued
    simp [hl] at hcount

theorem Established.isOpen {s : ServerRun} (h : s.Established) (ha : s.lifecycle.asserts = []) :
    s.open? = true := by
  have hstate := h.state
  have hopen := h.open_ ha
  cases he : s.conn.state_ <;> simp_all [open?]

/-! ## The base loop, and the steps that are always quiet -/

theorem quiet_acceptOther {s : ServerRun} (h : s.conn.name_ < s.server.nextConnId_) :
    Quiet s s.acceptOther where
  conn := TcpConnection.Quiet.refl _
  registered := by simp [acceptOther, Nat.ne_of_lt h]
  removals := rfl
  trace := rfl
  name_lt := Nat.le_succ _

theorem quiet_eraseOther {s s' : ServerRun} {name : ℕ} (hs : s.eraseOther name = some s') :
    Quiet s s' := by
  obtain ⟨hne, rfl⟩ := eraseOther_cases hs
  refine ⟨TcpConnection.Quiet.refl _, ?_, rfl, rfl, Nat.le_refl _⟩
  simp [Ne.symm hne]

theorem quiet_baseLoop {s s' : ServerRun} {a : LoopAction} (hs : s.baseLoop a = some s') :
    Quiet s s' := by
  obtain ⟨l, hl, rfl⟩ := baseLoop_cases hs
  exact ⟨TcpConnection.Quiet.refl _, Iff.rfl, by rw [EventLoop.queued_act hl], rfl, Nat.le_refl _⟩

theorem quiet_act {s : ServerRun} {a : LoopAction} {l : EventLoop ConnFunctor}
    (hl : s.conn.loop_.act a = some l) : TcpConnection.Quiet s.conn { s.conn with loop_ := l } := by
  have hq := EventLoop.queued_act hl
  exact ⟨rfl, by rw [hq], by rw [hq], Or.inl rfl⟩

/-! ## The steps of the life cycle -/

theorem lifecycle_removeConnectionInLoop (s : ServerRun) :
    s.removeConnectionInLoop.lifecycle = { s.lifecycle with
      registered := false
      destroys := s.lifecycle.destroys + 1
      erased := (if s.lifecycle.registered then 1 else 0) :: s.lifecycle.erased } := by
  simp [removeConnectionInLoop, lifecycle, EventLoop.queued_queueInLoop, List.count_append]

theorem lifecycle_handleClose (s : ServerRun) : s.handleClose.lifecycle =
    if s.sharedLoop then s.lifecycle.close.remove else s.lifecycle.close := by
  cases hshared : s.sharedLoop with
  | true =>
    simp only [handleClose, removeConnection, record, hshared, if_true]
    rw [lifecycle_removeConnectionInLoop]
    simp [lifecycle, setChannel, Lifecycle.close, Lifecycle.remove]
    exact if_congr decide_eq_true_iff rfl rfl
  | false =>
    simp [handleClose, removeConnection, record, hshared, lifecycle, setChannel, Lifecycle.close]

theorem step_handleClose (s : ServerRun) :
    Lifecycle.Step true s.lifecycle s.handleClose.lifecycle := by
  rw [lifecycle_handleClose]
  split
  · exact .closeAndRemove _
  · exact .close _

theorem lifecycle_baseFunctor {s : ServerRun} {l : EventLoop ServerFunctor} {f : ServerFunctor}
    (hl : s.server.loop_.queued = f :: l.queued) :
    0 < s.lifecycle.removals ∧
      ({ s with server.loop_ := l }.removeConnectionInLoop).lifecycle = s.lifecycle.remove := by
  rw [lifecycle_removeConnectionInLoop]
  simp [lifecycle, Lifecycle.remove, hl]

theorem lifecycle_connectDestroyed {s : ServerRun} {l : EventLoop ConnFunctor}
    (hl : s.conn.loop_.queued = .connectDestroyed :: l.queued) :
    0 < s.lifecycle.destroys ∧ ({ s with conn.loop_ := l }.connectDestroyed).lifecycle =
      s.lifecycle.destroy s.open? := by
  simp [connectDestroyed, TcpConnection.connectDestroyed, setState, setChannel, record, lifecycle,
    Lifecycle.destroy, hl, open?]

theorem lifecycle_connectEstablished {s : ServerRun} {l : EventLoop ConnFunctor}
    (hl : s.conn.loop_.queued = .connectEstablished :: l.queued) :
    0 < s.lifecycle.establishing ∧ ({ s with conn.loop_ := l }.connectEstablished).lifecycle =
      s.lifecycle.establish := by
  simp [connectEstablished, TcpConnection.connectEstablished, setState, setChannel, record,
    lifecycle, Lifecycle.establish, hl]
  congr

/-! ## One step -/

/-- What is known of a step from a state in which the connection is established or about
to be. -/
structure Moves (closing : Bool) (s s' : ServerRun) : Prop where
  life : Lifecycle.Step closing s.lifecycle s'.lifecycle
  name_lt : s.conn.name_ < s.server.nextConnId_ → s'.conn.name_ < s'.server.nextConnId_
  stage : s'.Connecting ∨ s'.Established

theorem Quiet.moves {s t s' : ServerRun} {closing : Bool} (hq : Quiet s t)
    (hm : Moves closing t s') : Moves closing s s' where
  life := hq.lifecycle_eq ▸ hm.life
  name_lt h := hm.name_lt (hq.conn.name ▸ Nat.lt_of_lt_of_le h hq.name_lt)
  stage := hm.stage

theorem Established.moves_quiet {s s' : ServerRun} (h : s.Established) (hq : Quiet s s') :
    Moves false s s' where
  life := by
    rw [hq.lifecycle_eq]
    exact .stay _
  name_lt hlt := hq.conn.name ▸ Nat.lt_of_lt_of_le hlt hq.name_lt
  stage := Or.inr (h.quiet hq)

theorem Established.removeConnectionInLoop {s : ServerRun} (h : s.Established) :
    s.removeConnectionInLoop.Established where
  queued := by simpa [ServerRun.removeConnectionInLoop, List.count_append] using h.queued
  state := h.state
  open_ ha := by
    rw [lifecycle_removeConnectionInLoop] at ha
    exact h.open_ ha

theorem Established.handleClose {s : ServerRun} (h : s.Established) : s.handleClose.Established := by
  have hclosed : ({ s with conn := s.conn.setChannel s.conn.channel_.disableAll }.record
      .closeCallback_).Established :=
    ⟨h.queued, h.state, fun ha => h.open_ (by simpa [lifecycle, record, setChannel] using ha)⟩
  rw [ServerRun.handleClose, removeConnection]
  split
  · exact hclosed.removeConnectionInLoop
  · exact ⟨hclosed.queued, hclosed.state, hclosed.open_⟩

theorem nextConnId_handleClose (s : ServerRun) :
    s.handleClose.conn.name_ = s.conn.name_ ∧
      s.handleClose.server.nextConnId_ = s.server.nextConnId_ := by
  rw [handleClose, removeConnection]
  split <;> exact ⟨rfl, rfl⟩

theorem Established.moves_handleClose {s : ServerRun} (h : s.Established) :
    Moves true s s.handleClose where
  life := step_handleClose s
  name_lt hlt := by
    obtain ⟨hname, hid⟩ := nextConnId_handleClose s
    rwa [hname, hid]
  stage := Or.inr h.handleClose

theorem Established.moves_baseFunctor {s s' : ServerRun} (h : s.Established)
    (hs : s.baseFunctor = some s') : Moves false s s' := by
  obtain ⟨l, hl, rfl⟩ := baseFunctor_cases hs
  obtain ⟨hpos, hlife⟩ := lifecycle_baseFunctor hl
  have hpopped : { s with server.loop_ := l }.Established := ⟨h.queued, h.state, h.open_⟩
  refine ⟨?_, id, Or.inr hpopped.removeConnectionInLoop⟩
  rw [hlife]
  exact .remove _ hpos

theorem Established.moves_connectDestroyed {s : ServerRun} {l : EventLoop ConnFunctor}
    (h : s.Established) (hl : s.conn.loop_.queued = .connectDestroyed :: l.queued) :
    Moves false s ({ s with conn.loop_ := l }.connectDestroyed) := by
  obtain ⟨hpos, hlife⟩ := lifecycle_connectDestroyed hl
  refine ⟨?_, id, Or.inr ⟨?_, by simp [connectDestroyed, TcpConnection.connectDestroyed, setState,
    setChannel, record], fun ha => ?_⟩⟩
  · rw [hlife]
    exact .destroy _ _ hpos h.isOpen
  · have := h.queued
    rw [hl] at this
    simpa [connectDestroyed, TcpConnection.connectDestroyed, setState, setChannel, record] using this
  · rw [hlife] at ha
    simp [Lifecycle.destroy] at ha

/-- What a functor or a callback does to the connection. -/
inductive Does (s s' : ServerRun) (closing : Bool) : Prop
  | quiet (hc : closing = false) (hq : Quiet s s')
  | establish (l : EventLoop ConnFunctor) (hc : closing = false)
      (hl : s.conn.loop_.queued = .connectEstablished :: l.queued)
      (he : s' = { s with conn.loop_ := l }.connectEstablished)
  | destroy (l : EventLoop ConnFunctor) (hc : closing = false)
      (hl : s.conn.loop_.queued = .connectDestroyed :: l.queued)
      (he : s' = { s with conn.loop_ := l }.connectDestroyed)
  | close (t : ServerRun) (hc : closing = true) (hq : Quiet s t) (he : s' = t.handleClose)

theorem does_runFunctor {s s' : ServerRun} {result : Option ℕ}
    (hs : s.runFunctor result = some s') : Does s s' (s.entersHandleClose (.runFunctor result)) := by
  obtain ⟨f, l, hnext, rfl⟩ := runFunctor_cases hs
  have hl := EventLoop.queued_next hnext
  have hpop (he : f ≠ .connectEstablished) (hd : f ≠ .connectDestroyed) :
      TcpConnection.Quiet s.conn { s.conn with loop_ := l } := quiet_pop s.conn hl he hd
  simp only [entersHandleClose, hnext]
  cases f with
  | connectEstablished => exact .establish l rfl hl rfl
  | sendInLoop message =>
    exact .quiet rfl (quiet_of_conn
      ((hpop (by simp) (by simp)).trans (quiet_sendInLoop _ message result)) rfl rfl)
  | shutdownInLoop =>
    exact .quiet rfl (quiet_of_conn
      ((hpop (by simp) (by simp)).trans (quiet_shutdownInLoop _)) rfl rfl)
  | forceCloseInLoop =>
    have hq : Quiet s { s with conn.loop_ := l } :=
      quiet_of_conn (hpop (by simp) (by simp)) rfl rfl
    have hopen : ({ s with conn.loop_ := l } : ServerRun).open? = s.open? := rfl
    simp only [runConnFunctor, forceCloseInLoop, hopen]
    cases s.open? with
    | true => exact .close _ rfl hq rfl
    | false => exact .quiet rfl hq
  | connectDestroyed => exact .destroy l rfl hl rfl
  | writeCompleteCallback_ | highWaterMarkCallback_ size =>
    exact .quiet rfl (quiet_of_conn (hpop (by simp) (by simp)) rfl rfl)

theorem does_callback {s s' : ServerRun} {delivered : Option (List UInt8)} {result : Option ℕ}
    (hs : s.callback delivered result = some s') :
    Does s s' (s.entersHandleClose (.callback delivered result)) := by
  rcases htodo : s.todo with _ | ⟨cb, rest⟩
  · simp [callback, htodo] at hs
  · simp only [callback, htodo, Option.some.injEq] at hs
    subst hs
    have hq : Quiet s { s with todo := rest } :=
      quiet_of_conn (TcpConnection.Quiet.refl _) rfl rfl
    simp only [entersHandleClose, htodo]
    cases cb with
    | closeCallback_ => exact .close _ rfl hq rfl
    | errorCallback_ => exact .quiet rfl hq
    | readCallback_ =>
      rcases delivered with _ | _ | ⟨byte, bytes⟩
      · exact .quiet rfl (quiet_of_conn ⟨rfl, rfl, rfl, Or.inl rfl⟩ rfl rfl)
      · have hread : Quiet s { s with
            todo := rest
            conn.inputBuffer_ := s.conn.inputBuffer_.readFd (some []) } :=
          quiet_of_conn ⟨rfl, rfl, rfl, Or.inl rfl⟩ rfl rfl
        exact .close _ rfl hread rfl
      · exact .quiet rfl (quiet_of_conn ⟨rfl, rfl, rfl, Or.inl rfl⟩ rfl rfl)
    | writeCallback_ =>
      exact .quiet rfl (quiet_of_conn (quiet_handleWrite s.conn result) rfl rfl)

theorem Established.moves_does {s s' : ServerRun} {closing : Bool} (h : s.Established)
    (hd : Does s s' closing) : Moves closing s s' := by
  cases hd with
  | quiet hc hq =>
    subst hc
    exact h.moves_quiet hq
  | establish l hc hl he =>
    have hqueued := h.queued
    simp [hl] at hqueued
  | destroy l hc hl he =>
    subst hc he
    exact h.moves_connectDestroyed hl
  | close t hc hq he =>
    subst hc he
    exact hq.moves (h.quiet hq).moves_handleClose

/-! ## Calls of the user -/

theorem quiet_loopCall {s s' : ServerRun} {call : Call} {result : Option ℕ}
    (hs : s.loopCall call result = some s') : Quiet s s' := by
  obtain rfl := loopCall_cases hs
  cases call with
  | send message =>
    simp only [callInLoop]
    split
    · exact quiet_of_conn (quiet_send s.conn message result) rfl rfl
    · exact quiet_of_conn (quiet_send s.conn message result) rfl rfl
  | shutdown => exact quiet_of_conn (quiet_shutdown s.conn) rfl rfl
  | forceClose => exact quiet_of_conn (quiet_forceClose s.conn) rfl rfl

theorem quiet_call {s s' : ServerRun} {thread : ℕ} {call : Call}
    (hs : s.call thread call = some s') : Quiet s s' := by
  obtain ⟨-, callers, accepted, rfl⟩ := call_cases hs
  exact quiet_of_conn (TcpConnection.Quiet.refl _) rfl rfl

/-- Then it stores the state, or queues its functor. -/
theorem resume_cases {s s' : ServerRun} {thread : ℕ} (hs : s.resume thread = some s') :
    ∃ c callers, s' = { s with conn := c, callers := callers } ∧ TcpConnection.Quiet s.conn c ∧
      c.channel_ = s.conn.channel_ ∧ c.loop_.phase = s.conn.loop_.phase := by
  have hpush (f : ConnFunctor) (he : f ≠ .connectEstablished) (hd : f ≠ .connectDestroyed) :
      TcpConnection.Quiet s.conn { s.conn with loop_ := s.conn.loop_.queueInLoop false f } :=
    quiet_push s.conn (EventLoop.queued_queueInLoop ..) he hd
  have hphase (f : ConnFunctor) :
      (s.conn.loop_.queueInLoop false f).phase = s.conn.loop_.phase :=
    EventLoop.phase_queueInLoop ..
  cases hcaller : s.callers thread <;>
    simp only [resume, hcaller, Option.some.injEq, reduceCtorEq] at hs <;> subst hs
  case sendTested message => exact ⟨_, _, rfl, hpush _ (by simp) (by simp), rfl, hphase _⟩
  case shutdownTested => exact ⟨_, _, rfl, quiet_setState _, rfl, rfl⟩
  case shutdownStored => exact ⟨_, _, rfl, hpush _ (by simp) (by simp), rfl, hphase _⟩
  case forceCloseTested => exact ⟨_, _, rfl, quiet_setState _, rfl, rfl⟩
  case forceCloseStored => exact ⟨_, _, rfl, hpush _ (by simp) (by simp), rfl, hphase _⟩

theorem quiet_resume {s s' : ServerRun} {thread : ℕ} (hs : s.resume thread = some s') :
    Quiet s s' := by
  obtain ⟨c, callers, rfl, hq, -, -⟩ := resume_cases hs
  exact quiet_of_conn hq rfl rfl

/-! ## The loop between callbacks -/

theorem quiet_poll {s s' : ServerRun} {revents : Option Revents} (hs : s.poll revents = some s') :
    Quiet s s' := by
  obtain ⟨-, l, hl, rfl⟩ := poll_cases hs
  exact quiet_of_conn (quiet_act hl) rfl rfl

theorem quiet_handleEvent {s s' : ServerRun} (hs : s.handleEvent = some s') : Quiet s s' := by
  obtain ⟨r, -, -, rfl⟩ := handleEvent_cases hs
  exact quiet_of_conn (TcpConnection.Quiet.refl _) rfl rfl

theorem quiet_loopAct {s s' : ServerRun} {a : LoopAction} (hs : s.loopAct a = some s') :
    Quiet s s' := by
  obtain ⟨-, -, l, hl, rfl⟩ := loopAct_cases hs
  exact quiet_of_conn (quiet_act hl) rfl rfl

/-- Until it is closed or removed, a connection that is not about to be destroyed is at most
established. -/
theorem lifecycle_step {s s' : ServerRun} {a : ServerAction}
    (hlt : s.conn.name_ < s.server.nextConnId_) (hs : s.step a = some s')
    (hclose : s.entersHandleClose a = false) (hbase : a ≠ .baseFunctor)
    (hdestroys : s.lifecycle.destroys = 0) :
    s'.lifecycle = s.lifecycle ∨
      0 < s.lifecycle.establishing ∧ s'.lifecycle = s.lifecycle.establish := by
  have hdoes (hd : Does s s' false) : s'.lifecycle = s.lifecycle ∨
      0 < s.lifecycle.establishing ∧ s'.lifecycle = s.lifecycle.establish := by
    cases hd with
    | quiet hc hq => exact Or.inl hq.lifecycle_eq
    | establish l hc hl he =>
      subst he
      exact Or.inr (lifecycle_connectEstablished hl)
    | destroy l hc hl he =>
      have hpos := (lifecycle_connectDestroyed hl).1
      exact absurd hdestroys (Nat.ne_of_gt hpos)
    | close t hc => simp at hc
  cases a with
  | acceptOther =>
    cases hs
    exact Or.inl (quiet_acceptOther hlt).lifecycle_eq
  | eraseOther name => exact Or.inl (quiet_eraseOther hs).lifecycle_eq
  | baseLoop a => exact Or.inl (quiet_baseLoop hs).lifecycle_eq
  | baseFunctor => exact absurd rfl hbase
  | poll revents => exact Or.inl (quiet_poll hs).lifecycle_eq
  | handleEvent => exact Or.inl (quiet_handleEvent hs).lifecycle_eq
  | callback delivered result => exact hdoes (hclose ▸ does_callback hs)
  | loop a => exact Or.inl (quiet_loopAct hs).lifecycle_eq
  | runFunctor result => exact hdoes (hclose ▸ does_runFunctor hs)
  | loopCall call result => exact Or.inl (quiet_loopCall hs).lifecycle_eq
  | call thread call => exact Or.inl (quiet_call hs).lifecycle_eq
  | resume thread => exact Or.inl (quiet_resume hs).lifecycle_eq

theorem Established.moves {s s' : ServerRun} {a : ServerAction} (h : s.Established)
    (hlt : s.conn.name_ < s.server.nextConnId_) (hs : s.step a = some s') :
    Moves (s.entersHandleClose a) s s' := by
  cases a with
  | acceptOther =>
    cases hs
    exact h.moves_quiet (quiet_acceptOther hlt)
  | eraseOther name => exact h.moves_quiet (quiet_eraseOther hs)
  | baseLoop a => exact h.moves_quiet (quiet_baseLoop hs)
  | baseFunctor => exact h.moves_baseFunctor hs
  | poll revents => exact h.moves_quiet (quiet_poll hs)
  | handleEvent => exact h.moves_quiet (quiet_handleEvent hs)
  | callback delivered result => exact h.moves_does (does_callback hs)
  | loop a => exact h.moves_quiet (quiet_loopAct hs)
  | runFunctor result => exact h.moves_does (does_runFunctor hs)
  | loopCall call result => exact h.moves_quiet (quiet_loopCall hs)
  | call thread call => exact h.moves_quiet (quiet_call hs)
  | resume thread => exact h.moves_quiet (quiet_resume hs)

/-! ## Before the connection is established -/

theorem Connecting.moves_quiet {s s' : ServerRun} (h : s.Connecting) (hq : Quiet s s')
    (hc : s'.conn.loop_.queued = s.conn.loop_.queued ∧ s'.conn.state_ = s.conn.state_ ∧
      s'.conn.channel_ = s.conn.channel_)
    (hr : s'.active = none ∧ s'.todo = [] ∧ s'.callers = s.callers) : Moves false s s' where
  life := by
    rw [hq.lifecycle_eq]
    exact .stay _
  name_lt hlt := hq.conn.name ▸ Nat.lt_of_lt_of_le hlt hq.name_lt
  stage := Or.inl
    { queued := hc.1.trans h.queued
      removals := List.eq_nil_of_length_eq_zero (hq.removals.trans (by simp [h.removals]))
      state := hc.2.1.trans h.state
      interest := by rw [hc.2.2, h.interest]
      active := hr.1
      todo := hr.2.1
      callers := by simpa [hr.2.2] using h.callers }

theorem moves_connectEstablished {s : ServerRun} {l : EventLoop ConnFunctor} (h : s.Connecting)
    (hl : s.conn.loop_.queued = .connectEstablished :: l.queued) :
    Moves false s ({ s with conn.loop_ := l }.connectEstablished) := by
  obtain ⟨hpos, hlife⟩ := lifecycle_connectEstablished hl
  have hstate : ({ s with conn.loop_ := l }.connectEstablished).conn.state_ = .kConnected := rfl
  refine ⟨?_, id, Or.inr ⟨?_, by simp [hstate], fun _ => by simp [hstate]⟩⟩
  · rw [hlife]
    exact .establish _ hpos
  · have hnil : l.queued = [] := by simpa [h.queued] using hl.symm
    simp [connectEstablished, TcpConnection.connectEstablished, setState, setChannel, record, hnil]

theorem Connecting.moves {s s' : ServerRun} {a : ServerAction} (h : s.Connecting)
    (hlt : s.conn.name_ < s.server.nextConnId_) (hs : s.step a = some s') :
    Moves (s.entersHandleClose a) s s' := by
  have hsame {t : ServerRun} (hq : Quiet s t) (hc : t.conn = s.conn) (ha : t.active = s.active)
      (ht : t.todo = s.todo) (hcallers : t.callers = s.callers) : Moves false s t :=
    h.moves_quiet hq (by simp [hc]) ⟨ha.trans h.active, ht.trans h.todo, hcallers⟩
  cases a with
  | acceptOther =>
    cases hs
    exact hsame (quiet_acceptOther hlt) rfl rfl rfl rfl
  | eraseOther name =>
    have hq := quiet_eraseOther hs
    obtain ⟨-, rfl⟩ := eraseOther_cases hs
    exact hsame hq rfl rfl rfl rfl
  | baseLoop a =>
    have hq := quiet_baseLoop hs
    obtain ⟨l, -, rfl⟩ := baseLoop_cases hs
    exact hsame hq rfl rfl rfl rfl
  | baseFunctor =>
    obtain ⟨l, hl, -⟩ := baseFunctor_cases hs
    simp [h.removals] at hl
  | poll revents =>
    have hq := quiet_poll hs
    obtain ⟨hadmits, l, hl, rfl⟩ := poll_cases hs
    have hactive : revents = none := by
      rcases revents with _ | r
      · rfl
      · simp [h.interest] at hadmits
    exact h.moves_quiet hq ⟨EventLoop.queued_act hl, rfl, rfl⟩ ⟨hactive, h.todo, rfl⟩
  | handleEvent =>
    obtain ⟨r, hactive, -⟩ := handleEvent_cases hs
    simp [h.active] at hactive
  | callback delivered result => simp [step, callback, h.todo] at hs
  | loop a =>
    have hq := quiet_loopAct hs
    obtain ⟨-, -, l, hl, rfl⟩ := loopAct_cases hs
    exact h.moves_quiet hq ⟨EventLoop.queued_act hl, rfl, rfl⟩ ⟨h.active, h.todo, rfl⟩
  | runFunctor result =>
    obtain ⟨f, l, hnext, rfl⟩ := runFunctor_cases hs
    have hl := EventLoop.queued_next hnext
    obtain rfl := List.head_eq_of_cons_eq (h.queued.symm.trans hl)
    simp only [entersHandleClose, hnext]
    exact moves_connectEstablished h hl
  | loopCall call result =>
    have hq := quiet_loopCall hs
    obtain rfl := loopCall_cases hs
    have heq : s.callInLoop call result = s := by
      cases call <;> simp [callInLoop, send, shutdown, forceClose, h.state]
    rw [heq] at hq ⊢
    exact hsame hq rfl rfl rfl rfl
  | call thread call =>
    have hq := quiet_call hs
    simp only [step, ServerRun.call, Option.ite_none_right_eq_some, Option.some.injEq] at hs
    obtain ⟨-, rfl⟩ := hs
    cases call <;> simp only [h.state, open?, reduceCtorEq, or_self, decide_false, if_false] at hq ⊢ <;>
      exact hsame hq rfl rfl rfl rfl
  | resume thread => simp [step, resume, h.callers thread] at hs

theorem Good.moves {s s' : ServerRun} {a : ServerAction} (h : s.Good) (hs : s.step a = some s') :
    Moves (s.entersHandleClose a) s s' := by
  rcases h.stage with hc | he
  · exact hc.moves h.name_lt hs
  · exact he.moves h.name_lt hs

theorem Good.step {s s' : ServerRun} {a : ServerAction} (h : s.Good) (hs : s.step a = some s') :
    s'.Good where
  sound := h.sound.step (h.moves hs).life
  name_lt := (h.moves hs).name_lt h.name_lt
  stage := (h.moves hs).stage

/-! ## Runs -/

variable (sharedLoop : Bool) (nextConnId : ℕ) (others : List ℕ) (this fd : ℕ)
  (callbacks : Callbacks)

theorem lifecycle_newConnection :
    (newConnection sharedLoop nextConnId others this fd callbacks).lifecycle =
      ⟨true, if sharedLoop then 0 else 1, 0, 0, 0, [], [], if sharedLoop then 1 else 0, 0⟩ := by
  cases sharedLoop <;>
    simp [newConnection, lifecycle, construct, connectEstablished, TcpConnection.connectEstablished,
      setState, setChannel, record, EventLoop.idle, EventLoop.queued, EventLoop.functors,
      EventLoop.queueInLoop, EventLoop.callingPendingFunctors_, EventLoop.wakeup]

theorem good_newConnection :
    (newConnection sharedLoop nextConnId others this fd callbacks).Good where
  sound := by
    rw [lifecycle_newConnection]
    cases sharedLoop <;> exact ⟨rfl, rfl, by simp, by simp, by simp, rfl, rfl⟩
  name_lt := by cases sharedLoop <;> exact Nat.lt_succ_self nextConnId
  stage := by
    cases sharedLoop with
    | true => exact Or.inr ⟨rfl, by simp [newConnection, connectEstablished,
        TcpConnection.connectEstablished, setState, setChannel, record], fun _ => by
          simp [newConnection, connectEstablished, TcpConnection.connectEstablished, setState,
            setChannel, record]⟩
    | false => exact Or.inl ⟨rfl, rfl, rfl, rfl, rfl, rfl, fun _ => rfl⟩

/-- `handleClose` is entered only while the server owns the connection: the map has its
name, and no `removeConnectionInLoop` is queued for it. -/
def OwnedOnClose (s : ServerRun) (a : ServerAction) : Prop :=
  s.entersHandleClose a = true →
    s.conn.name_ ∈ s.server.connections_ ∧ s.server.loop_.queued = []

instance (s : ServerRun) (a : ServerAction) : Decidable (OwnedOnClose s a) :=
  inferInstanceAs (Decidable (_ → _))

theorem Good.ownedOnClose_iff {s s' : ServerRun} {a : ServerAction} (h : s.Good)
    (hclosed : s.lifecycle.ClosedOnce) (hs : s.step a = some s') :
    s'.lifecycle.ClosedOnce ↔ OwnedOnClose s a := by
  have howned : s.lifecycle.closes = 0 ↔
      s.conn.name_ ∈ s.server.connections_ ∧ s.server.loop_.queued = [] := by
    rw [h.sound.closes_eq_zero]
    simp [lifecycle]
  have hle := hclosed.closes_le
  rw [(h.step hs).sound.closedOnce_iff, (h.moves hs).life.closes, OwnedOnClose, ← howned]
  cases s.entersHandleClose a with
  | false => simpa using hle
  | true =>
    simp only [Bool.toNat_true, true_imp_iff]
    omega

/-- In a run of a server and one of its connections, `closeCallback_` is called once at
most (and so the name is erased when it is there, `connectDestroyed` runs once in a state
it expects, and the user sees one UP and one DOWN) exactly when every step that enters
`handleClose` finds the connection owned by the server. -/
theorem closed_once_iff_owned (as : List ServerAction) (s : ServerRun)
    (hr : run step (newConnection sharedLoop nextConnId others this fd callbacks) as = some s) :
    Throughout step (fun t => t.lifecycle.ClosedOnce)
        (newConnection sharedLoop nextConnId others this fd callbacks) as ↔
      Meets step OwnedOnClose (newConnection sharedLoop nextConnId others this fd callbacks) as := by
  have hgood := good_newConnection sharedLoop nextConnId others this fd callbacks
  have hstart : (newConnection sharedLoop nextConnId others this fd callbacks).lifecycle.ClosedOnce := by
    rw [hgood.sound.closedOnce_iff, lifecycle_newConnection]
    exact Nat.zero_le 1
  have hany (t : ServerRun) : Meets step (fun _ _ => True) t as :=
    Meets.of_forall (fun _ _ => trivial) t as
  exact throughout_iff_meets (fun _ _ _ h _ _ hs => h.step hs)
    (fun _ _ _ h hp _ hs => h.ownedOnClose_iff hp hs) hgood hstart (hany _) hr

/-- Established in a loop of its own, and closed by force twice before the loop gets to run
the first `forceCloseInLoop`; then both are removed and destroyed. -/
def forceCloseTwice : List ServerAction :=
  [.poll none, .loop .doPendingFunctors, .runFunctor none, .loopCall .forceClose none,
    .loopCall .forceClose none, .loop .endPendingFunctors, .poll none, .loop .doPendingFunctors,
    .runFunctor none, .runFunctor none, .baseLoop .poll, .baseLoop .doPendingFunctors,
    .baseFunctor, .baseFunctor, .loop .endPendingFunctors, .poll none, .loop .doPendingFunctors,
    .runFunctor none, .runFunctor none]

theorem closed_once_fails : ¬ ∀ (as : List ServerAction) (s : ServerRun),
    run step (newConnection false 0 [] 0 3 Callbacks.default) as = some s →
      s.lifecycle.ClosedOnce := by
  intro h
  obtain ⟨s, hs, he⟩ : ∃ s,
      run step (newConnection false 0 [] 0 3 Callbacks.default) forceCloseTwice = some s ∧
        (s.lifecycle.closes, s.lifecycle.erased, s.lifecycle.asserts, s.lifecycle.downs) =
          (2, [0, 1], [false, true], 2) :=
    Option.map_eq_some_iff.mp (by decide +kernel)
  have hle := (h forceCloseTwice s hs).closes_le
  simp only [Prod.mk.injEq] at he
  omega

/-- The peer closes, and the connection is removed and destroyed. -/
def peerCloses : List ServerAction :=
  [.poll none, .loop .doPendingFunctors, .runFunctor none, .loop .endPendingFunctors,
    .poll (some ⟨true, false, false, false, false, false, false⟩), .handleEvent,
    .callback (some []) none, .baseLoop .poll, .baseLoop .doPendingFunctors, .baseFunctor,
    .loop .doPendingFunctors, .runFunctor none]

theorem closed_once_peerCloses : ∃ s,
    run step (newConnection false 0 [] 0 3 Callbacks.default) peerCloses = some s ∧
      s.lifecycle.closes = 1 ∧
      Throughout step (fun t => t.lifecycle.ClosedOnce)
        (newConnection false 0 [] 0 3 Callbacks.default) peerCloses := by
  obtain ⟨s, hs, hcloses⟩ : ∃ s,
      run step (newConnection false 0 [] 0 3 Callbacks.default) peerCloses = some s ∧
        s.lifecycle.closes = 1 :=
    Option.map_eq_some_iff.mp (by decide +kernel)
  exact ⟨s, hs, hcloses, (closed_once_iff_owned false 0 [] 0 3 Callbacks.default peerCloses s hs).mpr
    (by decide +kernel)⟩

end ServerRun

end ReactorNet
