import ReactorNet.TcpClientParts

/-!
# Runs of a client

A client that is told to connect only when its connector is free, and stopped only when no attempt
is under way, whose retry timers do not expire before the old channel is reset, and whose
connections are closed once, makes one attempt after the other. The assertions of its connector
and its own hold, and with `retry_` it never gives up.
-/
namespace ReactorNet.TcpClient

open Connector GuardedRuns

variable {x y : TcpClient} {b : Prop} {c : ℕ} {errno : ConnectErrno} {v w : Connector}

/-- The invariant of a client that exists; where `b` holds, the client is about something. -/
structure Sound (b : Prop) (x : TcpClient) : Prop where
  framed : Framed x
  owned : Owned x.connector
  correct : Correct x.connector
  stage : ∃ σ, At x.connector x.connection_ σ ∧ (b → σ ≠ .idle)
  trying : b → x.retry_ = true ∧ x.connect_ = true ∧ x.connector.connect_ = true ∧
    ∀ timerId, .cancel timerId ∉ x.connector.pendingFunctors_
  sockets : x.sockets = x.connector_.handedOver

/-- A step that the connector does not take part in. -/
theorem Sound.frame (h : Sound b x) (hframed : Framed y) (hconnector : y.connector = x.connector)
    (hconnection : y.connection_ = x.connection_) (hsockets : y.sockets = x.sockets)
    (hflags : b → (x.retry_ = true → y.retry_ = true) ∧ (x.connect_ = true → y.connect_ = true)) :
    Sound b y := by
  have hhanded : y.connector.handedOver = x.connector.handedOver := congrArg _ hconnector
  refine ⟨hframed, ?_, ?_, ?_, fun hb => ?_, hsockets.trans (h.sockets.trans hhanded.symm)⟩
  · rw [hconnector]
    exact h.owned
  · rw [hconnector]
    exact h.correct
  · rw [hconnector, hconnection]
    exact h.stage
  · obtain ⟨hretry, hconnect, hconnect', hcancel⟩ := h.trying hb
    rw [hconnector]
    exact ⟨(hflags hb).1 hretry, (hflags hb).2 hconnect, hconnect', hcancel⟩

theorem Sound.works (h : Sound b x) (hw : Works c x y) : Sound b y := by
  refine h.frame (h.framed.works hw) hw.connector ?_ hw.sockets fun _ => ⟨?_, ?_⟩
  · rw [hw.rest]
  · rw [hw.rest]
    exact id
  · rw [hw.rest]
    exact id

/-! ## The connector takes a step -/

theorem sound_putConnector (h : Framed x) {new : List ConnectorFunctor}
    (hv : v.pendingFunctors_ = x.connector.pendingFunctors_ ++ new)
    (hreset : .resetChannel ∈ new → x.loop_.handlingEvents = true ∧ x.connection_ = none)
    (howned : Owned v) (hcorrect : Correct v)
    (hstage : ∃ σ, At v x.connection_ σ ∧ (b → σ ≠ .idle))
    (htrying : b → x.retry_ = true ∧ x.connect_ = true ∧ v.connect_ = true ∧
      ∀ timerId, .cancel timerId ∉ v.pendingFunctors_)
    (hsockets : x.sockets = v.handedOver) : Sound b (x.putConnector v) := by
  have hconnector := connector_putConnector hv
  refine ⟨h.putConnector hv hreset, ?_, ?_, ?_, ?_, hsockets⟩
  · rw [hconnector]
    exact howned
  · rw [hconnector]
    exact hcorrect
  · rw [hconnector]
    exact hstage
  · rw [hconnector]
    exact htrying

/-- The connector made an attempt, and queued and handed over nothing. -/
theorem sound_attempted (h : Framed x) (hnone : x.connection_ = none)
    (hfunctors : w.pendingFunctors_ = x.connector.pendingFunctors_)
    (hhanded : w.handedOver = x.connector_.handedOver) (hv : Attempted w v errno)
    (htrying : b → x.retry_ = true ∧ x.connect_ = true ∧ w.connect_ = true ∧
      (∀ timerId, .cancel timerId ∉ w.pendingFunctors_) ∧ errno.fatal = false)
    (hsockets : x.sockets = x.connector_.handedOver) : Sound b (x.onConnector v) := by
  have hpending : v.pendingFunctors_ = x.connector.pendingFunctors_ ++ [] := by
    rw [hv.functors, hfunctors, List.append_nil]
  rw [onConnector_eq_putConnector (hv.handedOver.trans hhanded)]
  refine sound_putConnector h hpending (fun hin => absurd hin List.not_mem_nil) hv.owned hv.correct
    ?_ (fun hb => ?_) (hsockets.trans (hv.handedOver.trans hhanded).symm)
  · obtain ⟨σ, hσ, hne⟩ := hv.stage
    rw [hnone]
    refine ⟨σ, hσ, fun hb => ?_⟩
    obtain ⟨-, -, hconnect, -, hfatal⟩ := htrying hb
    exact hne hconnect hfatal
  · obtain ⟨hretry, hconnect, hconnect', hcancel, -⟩ := htrying hb
    rw [hv.functors]
    exact ⟨hretry, hconnect, hv.connect.trans hconnect', hcancel⟩

/-- The client makes a connection of a socket that was handed over. -/
theorem sound_newConnection (h : Framed x) (howned : Owned x.connector)
    (hcorrect : Correct x.connector) (hidle : At x.connector none .idle)
    (hstate : x.connector.state_ = .kConnected) (hnone : x.connection_ = none)
    (htrying : b → x.retry_ = true ∧ x.connect_ = true ∧ x.connector.connect_ = true ∧
      ∀ timerId, .cancel timerId ∉ x.connector.pendingFunctors_) {fd : ℕ}
    (hsockets : x.connector_.handedOver = x.sockets ++ [fd]) : Sound b (x.newConnection fd) := by
  have hframed := h.newConnection hnone fd
  rw [TcpClient.newConnection, if_neg (h.exists_ ▸ Bool.false_ne_true)] at hframed ⊢
  refine ⟨hframed, howned, hcorrect, ⟨.connected x.conns.length, ?_, fun _ hne => ?_⟩, htrying,
    List.map_append.trans hsockets.symm⟩
  · exact ⟨hidle.exists_, hidle.starts, hidle.timers, hidle.expired, rfl, hstate,
      fun hs => absurd hs Bool.false_ne_true⟩
  · cases hne

/-- The event of the connector's channel. -/
theorem sound_handled (h : Framed x) {fds : List ℕ} (hv : Handled x.connector v fds)
    (howned : Owned v) (hcorrect : Correct v) (hnone : x.connection_ = none)
    (hhandling : x.loop_.handlingEvents = true)
    (htrying : b → x.retry_ = true ∧ x.connect_ = true ∧ x.connector.connect_ = true ∧
      ∀ timerId, .cancel timerId ∉ x.connector.pendingFunctors_)
    (hsockets : x.sockets = x.connector_.handedOver) : Sound b (x.onConnector v) := by
  obtain ⟨new, hnew, hresets⟩ := hv.functors
  have hconnector := connector_putConnector hnew
  have htrying' (hb : b) : x.retry_ = true ∧ x.connect_ = true ∧ v.connect_ = true ∧
      ∀ timerId, .cancel timerId ∉ v.pendingFunctors_ := by
    obtain ⟨hretry, hconnect, hconnect', hcancel⟩ := htrying hb
    refine ⟨hretry, hconnect, hv.connect.trans hconnect', fun timerId hin => ?_⟩
    rw [hnew] at hin
    rcases List.mem_append.mp hin with hin | hin
    · exact hcancel timerId hin
    · cases hresets _ hin
  rw [onConnector_eq hv.handedOver]
  by_cases hfds : fds = []
  · obtain ⟨σ, hσ, hne⟩ := hv.waiting hfds
    rw [hfds]
    refine sound_putConnector h hnew (fun _ => ⟨hhandling, hnone⟩) howned hcorrect ?_ htrying' ?_
    · rw [hnone]
      exact ⟨σ, hσ, fun hb => hne (htrying hb).2.2.1⟩
    · rw [hsockets, hv.handedOver, hfds, List.append_nil]
      rfl
  · obtain ⟨⟨fd, rfl⟩, -, hidle, hstate⟩ := hv.handed hfds
    refine sound_newConnection (h.putConnector hnew fun _ => ⟨hhandling, hnone⟩) ?_ ?_ ?_ ?_ hnone
      ?_ (hv.handedOver.trans (congrArg (· ++ [fd]) hsockets.symm))
    · rw [hconnector]
      exact howned
    · rw [hconnector]
      exact hcorrect
    · rw [hconnector]
      exact hidle
    · rw [hconnector]
      exact hstate
    · rw [hconnector]
      exact htrying'

/-! ## A connection is closed -/

theorem handleClose_eq (h : Framed x) {k : ClientConnection} (hk : x.conns[c]? = some k)
    (hopen : k.closes = 0) :
    ∃ y, Works c x y ∧ y.connection_ = some c ∧ x.handleClose c errno =
      if (y.closed c).retry_ && (y.closed c).connect_ then
        (y.closed c).onConnector ((y.closed c).connector.restart errno)
      else y.closed c := by
  have hw : Works c x (x.onConn c fun conn => conn.setChannel conn.channel_.disableAll) :=
    works_onConn fun _ => rfl
  generalize hy : x.onConn c (fun conn => conn.setChannel conn.channel_.disableAll) = y at hw
  obtain ⟨g, hconns⟩ := hw.conns
  have hk' := hconns c
  rw [hk, Option.map_some] at hk'
  have hkept := (h.works hw).kept c _ hk'
  have hconnection : y.connection_ = some c := hkept.open_iff.mp hopen
  refine ⟨y, hw, hconnection, ?_⟩
  have hcallback : k.closeCallback_ = .removeConnection := hkept.callback
  have hexists : ¬y.destroyed = true := Bool.eq_false_iff.mp (h.works hw).exists_
  rw [handleClose, hy]
  simp only [modifyConn, List.getElem?_modify_eq, hk', Option.map_eq_map, Option.map_some,
    hcallback]
  refine (if_neg hexists).trans ?_
  rw [removeConnection]
  simp only [hconnection, ne_eq, not_true_eq_false, decide_false, Bool.or_false]
  rfl

theorem Sound.handleClose (h : Sound b x) {k : ClientConnection} (hk : x.conns[c]? = some k)
    (hopen : k.closes = 0) (hreset : ¬x.connector.resetPending) (hb : b → errno.fatal = false) :
    Sound b (x.handleClose c errno) := by
  obtain ⟨y, hw, hconnection, heq⟩ := handleClose_eq h.framed hk hopen
  have hy := h.works hw
  obtain ⟨σ, hσ, -⟩ := hy.stage
  have hstage : At y.connector none .idle := by
    have hconn := hσ.connection
    rw [hconnection] at hconn
    cases σ with
    | connected d =>
      have hstate : y.connector.state_ = .kConnected := hσ.state
      refine ⟨hσ.exists_, hσ.starts, hσ.timers, hσ.expired, rfl, ?_,
        fun hs => absurd hs Bool.false_ne_true⟩
      change y.connector.state_ ≠ .kConnecting
      rw [hstate]
      decide
    | _ => cases hconn
  have hframed := hy.framed.closed hconnection
  have hconnector := connector_closed y c
  have hreset' : ¬y.connector.resetPending := by
    rw [hw.connector]
    exact hreset
  have hsockets : (y.closed c).sockets = (y.closed c).connector_.handedOver :=
    (sockets_modifyConn y c (f := fun k => { k with closes := k.closes + 1 }) fun _ => rfl).trans
      hy.sockets
  rw [heq]
  split
  · refine sound_attempted hframed rfl ?_ ?_
      (At.restart (v := (y.closed c).connector) ?_ ?_ ?_ ?_ errno) (fun hb' => ?_) ?_
    · rfl
    · rfl
    · rw [hconnector]
      exact hstage
    · rw [hconnector]
      exact hy.owned
    · rw [hconnector]
      exact hy.correct
    · rw [hconnector]
      exact hreset'
    · obtain ⟨hretry, hconnect, -, hcancel⟩ := hy.trying hb'
      rw [← connector_closed y c] at hcancel
      exact ⟨hretry, hconnect, rfl, hcancel, hb hb'⟩
    · exact hsockets
  · next hflags =>
    have hnot : ¬b := by
      intro hb'
      obtain ⟨hretry, hconnect, -⟩ := hy.trying hb'
      apply hflags
      change (y.retry_ && y.connect_) = true
      rw [hretry, hconnect]
      rfl
    refine ⟨hframed, ?_, ?_, ⟨.idle, ?_, fun hb' => absurd hb' hnot⟩, fun hb' => absurd hb' hnot,
      hsockets⟩
    · rw [hconnector]
      exact hy.owned
    · rw [hconnector]
      exact hy.correct
    · rw [hconnector]
      exact hstage

/-! ## The loop -/

/-- A disconnected connector with nothing under way and nothing queued but cancels. -/
structure Free (v : Connector) : Prop where
  state : v.state_ = .kDisconnected
  timers : v.timers = []
  expired : v.expired = []
  starts : .startInLoop ∉ v.pendingFunctors_
  reset : ¬v.resetPending

/-- The user connects when there is no connection and the connector is free, and stops or destroys
the client when no attempt is under way and the channel of the last one is reset; a retry timer
does not expire before that reset; a connection is closed once. -/
def Calm (x : TcpClient) : ClientAction → Prop
  | .connect _ _ => x.connection_ = none ∧ Free x.connector
  | .stop _ | .destroy _ _ => x.connector.settled
  | .expire _ => ¬x.connector.resetPending
  | a => ∀ c ∈ x.entersHandleClose a, ∀ k ∈ x.conns[c]?, k.closes = 0

/-- The user does not give up, and `connect()` does not fail for good. -/
def Persistent : ClientAction → Prop
  | .disconnect _ | .stop _ => False
  | .callback _ _ errno | .timer _ errno | .runFunctor _ errno | .connect _ errno =>
    errno.fatal = false
  | _ => True

instance (v : Connector) : Decidable (Free v) :=
  decidable_of_iff (v.state_ = .kDisconnected ∧ v.timers = [] ∧ v.expired = [] ∧
      .startInLoop ∉ v.pendingFunctors_ ∧ ¬v.resetPending)
    ⟨fun ⟨h₁, h₂, h₃, h₄, h₅⟩ => ⟨h₁, h₂, h₃, h₄, h₅⟩,
      fun h => ⟨h.state, h.timers, h.expired, h.starts, h.reset⟩⟩

instance (x : TcpClient) : (a : ClientAction) → Decidable (Calm x a)
  | .connect _ _ => inferInstanceAs (Decidable (_ ∧ _))
  | .stop _ | .destroy _ _ => inferInstanceAs (Decidable (settled _))
  | .expire _ => inferInstanceAs (Decidable (¬_))
  | .poll _ | .handleEvent _ _ | .callback _ _ _ | .timer _ _ | .loop _ | .runFunctor _ _
  | .disconnect _ | .enableRetry | .send _ _ _ | .shutdown _ | .forceClose _
  | .removeConnector => inferInstanceAs (Decidable (∀ c ∈ _, ∀ k ∈ _, _))

instance : (a : ClientAction) → Decidable (Persistent a)
  | .disconnect _ | .stop _ => inferInstanceAs (Decidable False)
  | .callback _ _ errno | .timer _ errno | .runFunctor _ errno | .connect _ errno =>
    inferInstanceAs (Decidable (errno.fatal = false))
  | .poll _ | .handleEvent _ _ | .expire _ | .loop _ | .enableRetry | .send _ _ _ | .shutdown _
  | .forceClose _ | .destroy _ _ | .removeConnector => inferInstanceAs (Decidable True)

theorem connector_pop {f : ClientFunctor} {l : EventLoop ClientFunctor}
    (hnext : x.loop_.next = some (f, l)) (hf : f.toConnector = none) :
    ({ x with loop_ := l } : TcpClient).connector = x.connector := by
  rw [connector, connector, EventLoop.queued_next hnext, List.filterMap_cons_none hf]

theorem Sound.pop (h : Sound b x) {f : ClientFunctor} {l : EventLoop ClientFunctor}
    (hnext : x.loop_.next = some (f, l)) (hf : f.toConnector = none)
    (hne : ∀ c, f ≠ .ofConnection c .connectDestroyed) : Sound b { x with loop_ := l } :=
  h.frame (h.framed.pop hnext hne) (connector_pop hnext hf) rfl rfl fun _ => ⟨id, id⟩

theorem Sound.poll (h : Sound b x) {revents : List (ClientChannel × Revents)}
    (hy : x.poll revents = some y) : Sound b y := by
  rw [TcpClient.poll, Option.ite_none_right_eq_some] at hy
  obtain ⟨⟨-, hwatches⟩, hy⟩ := hy
  obtain ⟨l, hact, rfl⟩ := Option.map_eq_some_iff.mp hy
  refine h.frame (h.framed.turns hact (Or.inr rfl) ?_ fun hd => ?_) ?_ rfl rfl fun _ => ⟨id, id⟩
  · intro d hd
    obtain ⟨⟨channel, r⟩, hp, rfl⟩ := List.mem_map.mp hd
    have hwatch := List.all_eq_true.mp hwatches _ hp
    obtain ⟨k, hk, -⟩ := (Option.any_eq_true ..).mp hwatch
    exact (List.getElem?_eq_some_iff.mp hk).1
  · cases hd
  · rw [connector, connector, EventLoop.queued_act hact]

theorem Sound.loopAct (h : Sound b x) {a : LoopAction} (hy : x.loopAct a = some y) : Sound b y := by
  rw [TcpClient.loopAct, Option.ite_none_right_eq_some] at hy
  obtain ⟨⟨hpoll, hpending⟩, hy⟩ := hy
  obtain ⟨l, hact, rfl⟩ := Option.map_eq_some_iff.mp hy
  refine h.frame
    (h.framed.turns hact (Or.inl rfl) h.framed.orderly.active_lt fun hd => ?_) ?_ rfl rfl
    fun _ => ⟨id, id⟩
  · obtain ⟨hactive, htodo, -⟩ := hpending hd
    exact ⟨hactive, htodo⟩
  · rw [connector, connector, EventLoop.queued_act hact]

/-- An event of the connector comes while it is connecting. -/
theorem At.connecting {conn : Option ℕ} {σ : ClientStage} (h : At v conn σ)
    (hstate : v.state_ = .kConnecting) : σ = .connecting := by
  have hallows := h.state
  rw [hstate] at hallows
  cases σ with
  | connecting => rfl
  | idle => exact absurd rfl hallows
  | _ => cases hallows

theorem Sound.handleEvent (h : Sound b x) {err selfConnect : Bool}
    (hy : x.handleEvent err selfConnect = some y) : Sound b y := by
  rw [TcpClient.handleEvent] at hy
  split at hy
  · next r rest hactive htodo =>
    obtain ⟨v, hv, rfl⟩ := Option.map_eq_some_iff.mp hy
    have hframed : Framed { x with activeChannels_ := rest, todo := x.todo } :=
      h.framed.handled (by rw [hactive]; exact List.sublist_cons_self ..) fun d hd => Or.inl hd
    cases (step_move hv).2 with
    | event revents err selfConnect v hreg hv =>
      have hstate := h.correct.registered.mp hreg
      obtain ⟨σ, hσ, -⟩ := h.stage
      cases At.connecting hσ hstate
      have hnone : x.connection_ = none := hσ.connection
      rw [hnone] at hσ
      obtain ⟨v', hv', hcorrect⟩ := h.correct.handleEvent h.owned hreg r err selfConnect
      obtain ⟨v'', hv'', howned⟩ := h.owned.handleEvent hreg r err selfConnect
      cases hv.symm.trans hv'
      cases hv.symm.trans hv''
      obtain ⟨fds, hfds⟩ := At.ended hσ (handleEvent_ended hreg hstate hv)
      refine sound_handled hframed hfds howned hcorrect hnone ?_ h.trying h.sockets
      exact h.framed.orderly.handling (Or.inl (by rw [hactive]; exact List.cons_ne_nil _ _))
  · next c r rest hactive htodo =>
    cases hy
    refine h.frame
      (h.framed.handled (by rw [hactive]; exact List.sublist_cons_self ..) ?_) rfl rfl rfl
      fun _ => ⟨id, id⟩
    intro d hd
    right
    rw [hactive]
    rw [List.map_map] at hd
    obtain ⟨cb, -, rfl⟩ := List.mem_map.mp hd
    exact List.mem_cons_self
  · cases hy

theorem not_resetPending (h : resetFunctor ∉ x.loop_.queued) : ¬x.connector.resetPending := by
  intro hin
  rw [resetPending, connector] at hin
  obtain ⟨f, hf, hreset⟩ := List.mem_filterMap.mp hin
  cases f with
  | ofConnector f =>
    cases hreset
    exact h hf
  | ofConnection d f => cases hreset
  | setCloseCallback d => cases hreset

/-- A connection that is about to be closed is the client's, and no reset is queued any more. -/
theorem Sound.handleClose_event (h : Sound b x) {todo : List (ℕ × ChannelCallback)}
    {cb : ChannelCallback} (htodo : x.todo = (c, cb) :: todo)
    (honce : ∀ k ∈ x.conns[c]?, k.closes = 0) {y : TcpClient}
    (hw : Works c { x with todo := todo } y) (hb : b → errno.fatal = false) :
    Sound b (y.handleClose c errno) := by
  have hmem : c ∈ x.todo.map Prod.fst := by
    rw [htodo]
    exact List.mem_cons_self
  have hrest : Sound b { x with todo := todo } := by
    refine h.frame (h.framed.handled (List.Sublist.refl _) fun d hd => Or.inl ?_) rfl rfl rfl
      fun _ => ⟨id, id⟩
    rw [htodo]
    exact List.mem_cons_of_mem _ hd
  have hlt := h.framed.orderly.todo_lt c hmem
  have hk : x.conns[c]? = some x.conns[c] := List.getElem?_eq_getElem hlt
  have hopen := honce _ hk
  have hconnection := (h.framed.kept c _ hk).open_iff.mp hopen
  obtain ⟨g, hconns⟩ := hw.conns
  have hk' := (hconns c).trans (congrArg _ hk)
  refine (hrest.works hw).handleClose hk' hopen ?_ hb
  rw [hw.connector]
  exact not_resetPending (x := x) fun hin => (h.framed.orderly.active c hconnection hin).2 hmem

theorem Sound.callback (h : Sound b x) {delivered : Option (List UInt8)} {result : Option ℕ}
    (honce : ∀ c ∈ x.entersHandleClose (.callback delivered result errno), ∀ k ∈ x.conns[c]?,
      k.closes = 0) (hb : b → errno.fatal = false)
    (hy : x.callback delivered result errno = some y) : Sound b y := by
  rw [TcpClient.callback] at hy
  split at hy
  · cases hy
  · next c cb rest htodo =>
    have hrest : Sound b { x with todo := rest } := by
      refine h.frame (h.framed.handled (List.Sublist.refl _) fun d hd => Or.inl ?_) rfl rfl rfl
        fun _ => ⟨id, id⟩
      rw [htodo]
      exact List.mem_cons_of_mem _ hd
    cases hy
    cases cb with
    | closeCallback_ =>
      refine h.handleClose_event htodo (honce c ?_) (Works.refl c _) hb
      rw [entersHandleClose, htodo]
      rfl
    | errorCallback_ => exact hrest
    | readCallback_ =>
      have hread : Works c { x with todo := rest }
          ({ x with todo := rest }.onConn c fun conn =>
            { conn with inputBuffer_ := conn.inputBuffer_.readFd delivered }) :=
        works_onConn fun _ => rfl
      cases delivered with
      | none => exact hrest.works hread
      | some bytes =>
        cases bytes with
        | nil =>
          refine h.handleClose_event htodo (honce c ?_) hread hb
          rw [entersHandleClose, htodo]
          rfl
        | cons byte bytes =>
          exact (hrest.works hread).works (works_onConn (f := fun conn => { conn with
            inputBuffer_ := conn.callbacks.messageCallback_ conn.inputBuffer_ })
            fun _ => rfl)
    | writeCallback_ =>
      exact hrest.works (works_onConn fun conn => (conn.quiet_handleWrite result).destroys)

theorem Sound.expire (h : Sound b x) {timer : ℕ} (hcalm : ¬x.connector.resetPending)
    (hy : x.expire timer = some y) : Sound b y := by
  rw [TcpClient.expire, Option.ite_none_right_eq_some] at hy
  obtain ⟨v, hv, rfl⟩ := Option.map_eq_some_iff.mp hy.2
  have hin : timer ∈ x.connector.timers.map Prod.fst := by
    rw [Connector.step, Option.ite_none_right_eq_some] at hv
    exact hv.1.2
  have hhanded : v.handedOver = x.connector_.handedOver := by
    cases (step_move hv).2
    rfl
  rw [onConnector_eq_putConnector hhanded]
  obtain ⟨σ, hσ, hne⟩ := h.stage
  cases (step_move hv).2
  obtain ⟨-, hdue⟩ := At.expire hσ hin hcalm
  refine sound_putConnector h.framed (List.append_nil _).symm
    (fun hin => absurd hin List.not_mem_nil) (h.owned.congr rfl rfl rfl rfl rfl)
    (h.correct.congr rfl rfl rfl) ⟨_, hdue, fun _ hne => ?_⟩ h.trying h.sockets
  cases hne

theorem Sound.timer (h : Sound b x) {timer : ℕ} (hb : b → errno.fatal = false)
    (hy : x.timer timer errno = some y) : Sound b y := by
  rw [TcpClient.timer, Option.ite_none_right_eq_some] at hy
  obtain ⟨v, hv, rfl⟩ := Option.map_eq_some_iff.mp hy.2
  have hin : timer ∈ x.connector.expired := by
    rw [Connector.step, Option.ite_none_right_eq_some] at hv
    exact hv.1.2
  obtain ⟨σ, hσ, -⟩ := h.stage
  cases (step_move hv).2
  obtain ⟨hnone, hready⟩ := At.timer hσ hin
  have hattempt := hready.startInLoop (h.owned.congr rfl rfl rfl rfl rfl)
    (h.correct.congr rfl rfl rfl) errno
  refine sound_attempted h.framed hnone ?_ ?_ hattempt (fun hb' => ?_) h.sockets
  · rfl
  · rfl
  · obtain ⟨hretry, hconnect, hconnect', hcancel⟩ := h.trying hb'
    exact ⟨hretry, hconnect, hconnect', hcancel, hb hb'⟩

/-! ## Functors -/

/-- A functor of the connector. An attempt that was queued finds the connector ready, and a reset
does not meet the next channel. -/
theorem Sound.connectorFunctor (h : Sound b x) {f : ConnectorFunctor}
    {l : EventLoop ClientFunctor} (hnext : x.loop_.next = some (.ofConnector f, l))
    (hx : y = { x with loop_ := l }) (hb : b → errno.fatal = false)
    (hv : x.connector.step (.functor errno) = some v) : Sound b (y.onConnector v) := by
  have hframed : Framed y := by
    rw [hx]
    refine h.framed.pop hnext fun c hne => ?_
    cases hne
  have hqueue : x.connector.pendingFunctors_ = f :: y.connector.pendingFunctors_ := by
    change x.loop_.queued.filterMap _ = _
    rw [EventLoop.queued_next hnext, hx]
    rfl
  have hconnector : { x.connector with pendingFunctors_ := y.connector.pendingFunctors_ } =
      y.connector := by
    rw [hx]
    rfl
  have hstep : v = Connector.runFunctor y.connector errno f := by
    cases (step_move hv).2 with
    | functor _ g rest hqueue' =>
      cases hqueue.symm.trans hqueue'
      rw [hconnector]
  have hconnection : y.connection_ = x.connection_ := by rw [hx]
  have hsockets : y.sockets = y.connector_.handedOver := by
    rw [hx]
    exact h.sockets
  have htrying (hb : b) : y.retry_ = true ∧ y.connect_ = true ∧ y.connector.connect_ = true ∧
      ∀ timerId, .cancel timerId ∉ y.connector.pendingFunctors_ := by
    obtain ⟨hretry, hconnect, hconnect', hcancel⟩ := h.trying hb
    rw [hx] at hqueue ⊢
    refine ⟨hretry, hconnect, hconnect', fun timerId hin => hcancel timerId ?_⟩
    rw [hqueue]
    exact List.mem_cons_of_mem _ hin
  have hcorrect : Correct y.connector := by
    rw [← hconnector]
    exact h.correct.congr rfl rfl rfl
  have hpending (hin : y.connector.resetPending) : x.connector.resetPending := by
    rw [resetPending, hqueue]
    exact List.mem_cons_of_mem _ hin
  have hpop {σ : ClientStage} (hσ : At x.connector x.connection_ σ) (hf : f ≠ .startInLoop) :
      At y.connector y.connection_ σ := by
    rw [hconnection, ← hconnector]
    refine hσ.congr rfl ?_ rfl rfl rfl hpending
    rw [hqueue]
    exact (List.count_cons_of_ne hf).symm
  have howned (hf : f ≠ .resetChannel) : Owned y.connector := by
    rw [← hconnector]
    refine h.owned.congr rfl ?_ rfl rfl rfl
    rw [hqueue]
    exact (List.count_cons_of_ne hf).symm
  obtain ⟨σ, hσ, hne⟩ := h.stage
  rw [hstep]
  cases f with
  | startInLoop =>
    obtain ⟨hnone, hready⟩ := At.functor_startInLoop hσ hqueue
    rw [hconnector] at hready
    refine sound_attempted hframed (hconnection.trans hnone) rfl rfl
      (hready.startInLoop (howned (by decide)) hcorrect errno) (fun hb' => ?_) hsockets
    obtain ⟨hretry, hconnect, hconnect', hcancel⟩ := htrying hb'
    exact ⟨hretry, hconnect, hconnect', hcancel, hb hb'⟩
  | resetChannel =>
    have hhanded : y.connector.resetChannel.handedOver = y.connector_.handedOver := rfl
    rw [Connector.runFunctor, onConnector_eq_putConnector hhanded]
    refine sound_putConnector hframed (List.append_nil _).symm
      (fun hin => absurd hin List.not_mem_nil) ?_ ?_ ⟨σ, ?_, hne⟩ htrying hsockets
    · rw [← hconnector]
      exact h.owned.resetChannel hqueue
    · have hreset := (h.correct.functor_iff h.owned hqueue errno).mpr fun hf => by cases hf
      rw [hconnector] at hreset
      exact hreset
    · exact (hpop hσ (by decide)).congr rfl rfl rfl rfl rfl id
  | cancel timerId =>
    have hhanded : (y.connector.cancelInLoop timerId).handedOver = y.connector_.handedOver := rfl
    have hnot : ¬b := by
      intro hb'
      refine (h.trying hb').2.2.2 timerId ?_
      rw [hqueue]
      exact List.mem_cons_self
    obtain ⟨τ, hτ⟩ := At.cancelInLoop (hpop hσ fun hf => by cases hf) timerId
    rw [Connector.runFunctor, onConnector_eq_putConnector hhanded]
    exact sound_putConnector hframed (List.append_nil _).symm
      (fun hin => absurd hin List.not_mem_nil)
      ((howned fun hf => by cases hf).congr rfl rfl rfl rfl rfl) (hcorrect.congr rfl rfl rfl)
      ⟨τ, hτ, fun hb' => absurd hb' hnot⟩ (fun hb' => absurd hb' hnot) hsockets

theorem Sound.connFunctor (h : Sound b x) {f : ConnFunctor} {result : Option ℕ}
    {l : EventLoop ClientFunctor} (hnext : x.loop_.next = some (.ofConnection c f, l))
    (hx : y = { x with loop_ := l })
    (honce : f = .forceCloseInLoop → x.open? c = true → ∀ k ∈ x.conns[c]?, k.closes = 0)
    (hb : b → errno.fatal = false) : Sound b (y.runConnFunctor c result errno f) := by
  have hpop (hf : f ≠ .connectDestroyed) : Sound b y := by
    rw [hx]
    refine h.pop hnext rfl fun d hne => ?_
    cases hne
    exact hf rfl
  cases f with
  | connectEstablished => exact (hpop (by simp)).works (works_onConn fun _ => rfl)
  | sendInLoop message =>
    exact (hpop (by simp)).works
      (works_onConn fun conn => (conn.quiet_sendInLoop message result).destroys)
  | shutdownInLoop =>
    exact (hpop (by simp)).works (works_onConn fun conn => conn.quiet_shutdownInLoop.destroys)
  | forceCloseInLoop =>
    rw [runConnFunctor, forceCloseInLoop]
    split
    · next hopen =>
      have hhead : ClientFunctor.ofConnection c .forceCloseInLoop ∈ x.loop_.queued := by
        rw [EventLoop.queued_next hnext]
        exact List.mem_cons_self
      have hlt := h.framed.orderly.queued_lt hhead rfl
      have hk : x.conns[c]? = some x.conns[c] := List.getElem?_eq_getElem hlt
      rw [hx] at hopen
      have hcloses := honce rfl hopen _ hk
      have hconnection := (h.framed.kept c _ hk).open_iff.mp hcloses
      refine (hpop (by simp)).handleClose (hx ▸ hk) hcloses ?_ hb
      rw [hx, connector_pop hnext rfl]
      exact not_resetPending
        (h.framed.orderly.resetFunctor_notin hconnection (EventLoop.queued_next hnext) rfl)
    · exact hpop (by simp)
  | connectDestroyed =>
    have hw : Works c y (y.onConn c TcpConnection.connectDestroyed) := works_onConn fun _ => rfl
    have hframed := h.framed.connectDestroyed hnext
    rw [← hx] at hframed
    have hconnector := connector_pop hnext rfl
    rw [← hx] at hconnector
    have hflags : y.connection_ = x.connection_ ∧ y.retry_ = x.retry_ ∧
        y.connect_ = x.connect_ := by
      rw [hx]
      exact ⟨rfl, rfl, rfl⟩
    have hdestroys := hw.destroys
    rw [runConnFunctor, TcpClient.connectDestroyed]
    refine Sound.works (h.frame hframed ?_ ?_ ?_ fun _ => ⟨?_, ?_⟩) hdestroys
    · exact hconnector
    · exact hflags.1
    · refine (sockets_modifyConn y c (f := fun k => { k with destroys := k.destroys + 1 })
        fun _ => rfl).trans ?_
      rw [hx]
      rfl
    · exact fun hretry => hflags.2.1.trans hretry
    · exact fun hconnect => hflags.2.2.trans hconnect
  | writeCompleteCallback_ => exact hpop (by simp)
  | highWaterMarkCallback_ size => exact hpop (by simp)

theorem Sound.runFunctor (h : Sound b x) {result : Option ℕ}
    (honce : ∀ c ∈ x.entersHandleClose (.runFunctor result errno), ∀ k ∈ x.conns[c]?, k.closes = 0)
    (hb : b → errno.fatal = false) (hy : x.runFunctor result errno = some y) : Sound b y := by
  rw [TcpClient.runFunctor] at hy
  split at hy
  · cases hy
  · next f l hnext =>
    cases f with
    | ofConnector f =>
      obtain ⟨v, hv, rfl⟩ := Option.map_eq_some_iff.mp hy
      exact h.connectorFunctor hnext rfl hb hv
    | ofConnection c f =>
      cases hy
      refine h.connFunctor hnext rfl (fun hf hopen => honce c ?_) hb
      rw [entersHandleClose, hnext, hf]
      exact if_pos hopen
    | setCloseCallback c =>
      have hin : ClientFunctor.setCloseCallback c ∈ x.loop_.queued := by
        rw [EventLoop.queued_next hnext]
        exact List.mem_cons_self
      exact (h.framed.orderly.known _ hin).elim

/-! ## Calls of the user -/

/-- With nothing under way the stage is the first one. -/
theorem Free.at_idle {conn : Option ℕ} {σ : ClientStage} (h : Free v) (hσ : At v conn σ)
    (hnone : conn = none) : σ = .idle := by
  cases σ with
  | idle => rfl
  | starting => exact absurd (List.count_pos_iff.mp (by rw [hσ.starts]; decide)) h.starts
  | connecting => cases h.state.symm.trans hσ.state
  | retrying t =>
    have htimers := hσ.timers
    rw [h.timers] at htimers
    cases htimers
  | due t => cases h.expired.symm.trans hσ.expired
  | connected c => cases hnone.symm.trans hσ.connection

/-- The client begins to connect; from then on it may be persistent. -/
theorem Sound.connect (h : Sound b x) (hnone : x.connection_ = none) (hfree : Free x.connector)
    {b' : Prop} (hb : b' → x.retry_ = true ∧ errno.fatal = false ∧
      ∀ timerId, .cancel timerId ∉ x.connector.pendingFunctors_) (inLoop : Bool) :
    Sound b' (x.connect inLoop errno) := by
  obtain ⟨σ, hσ, -⟩ := h.stage
  cases hfree.at_idle hσ hnone
  rw [hnone] at hσ
  have hframed := h.framed.setFlags x.retry_ true
  have hsockets := h.sockets
  rw [TcpClient.connect]
  obtain ⟨y, hy⟩ : ∃ y : TcpClient, y = { x with connect_ := true } := ⟨_, rfl⟩
  have hconnector : y.connector = x.connector := by rw [hy]; rfl
  have hnone' : y.connection_ = none := by rw [hy, hnone]
  have hretry : y.retry_ = x.retry_ := by rw [hy]
  have hconnect : y.connect_ = true := by rw [hy]
  have hsockets' : y.sockets = y.connector_.handedOver := by rw [hy]; exact hsockets
  rw [← hy] at hframed ⊢
  rw [← hconnector] at hσ hfree hb
  have howned : Owned y.connector := hconnector ▸ h.owned
  have hcorrect : Correct y.connector := hconnector ▸ h.correct
  cases inLoop with
  | true =>
    refine sound_attempted hframed hnone' ?_ ?_
      (Ready.start ⟨hσ, hfree.state, hfree.reset⟩ howned hcorrect errno) (fun hb' => ?_) hsockets'
    · rfl
    · rfl
    · obtain ⟨hretry', hfatal, hcancel⟩ := hb hb'
      exact ⟨hretry.trans hretry', hconnect, rfl, hcancel, hfatal⟩
  | false =>
    have hhanded : (y.connector.start false errno).handedOver = y.connector_.handedOver := rfl
    have hqueue : (y.connector.start false errno).pendingFunctors_ =
        y.connector.pendingFunctors_ ++ [.startInLoop] := rfl
    have hreset : (y.connector.start false errno).resetPending → y.connector.resetPending := by
      intro hin
      rw [resetPending, hqueue] at hin
      rcases List.mem_append.mp hin with hin | hin
      · exact hin
      · cases List.mem_singleton.mp hin
    rw [onConnector_eq_putConnector hhanded]
    refine sound_putConnector hframed hqueue (fun hin => ?_) ?_ (hcorrect.congr rfl rfl rfl)
      ⟨.starting, ?_, fun _ hne => ?_⟩ (fun hb' => ?_) hsockets'
    · cases List.mem_singleton.mp hin
    · refine howned.congr rfl ?_ rfl rfl rfl
      rw [hqueue, List.count_append]
      rfl
    · refine ⟨hσ.exists_, ?_, hσ.timers, hσ.expired, hnone', hfree.state,
        fun _ hin => hfree.reset (hreset hin)⟩
      rw [hqueue, List.count_append, hσ.starts]
      rfl
    · cases hne
    · obtain ⟨hretry', hfatal, hcancel⟩ := hb hb'
      refine ⟨hretry.trans hretry', hconnect, rfl, fun timerId hin => ?_⟩
      rw [hqueue] at hin
      rcases List.mem_append.mp hin with hin | hin
      · exact hcancel timerId hin
      · cases List.mem_singleton.mp hin

theorem Sound.shutdown (h : Sound b x) (c : ℕ) (inLoop : Bool) : Sound b (x.shutdown c inLoop) := by
  rw [TcpClient.shutdown]
  cases inLoop with
  | true => exact h.works (works_onConn fun conn => conn.quiet_shutdown.destroys)
  | false =>
    rw [if_neg Bool.false_ne_true]
    split
    · next hstate =>
      obtain ⟨k, hk, -⟩ := (Option.any_eq_true ..).mp hstate
      have hw : Works c x (x.onConn c fun conn => conn.setState .kDisconnecting) :=
        works_onConn fun _ => rfl
      refine (h.works hw).works (works_queueInLoop ?_ (by decide) false)
      rw [hw.length]
      exact (List.getElem?_eq_some_iff.mp hk).1
    · exact h

theorem Sound.stop (h : Sound b x) (hsettled : x.connector.settled) (hb : ¬b) (inLoop : Bool) :
    Sound b (x.stop inLoop) := by
  obtain ⟨σ, hσ, -⟩ := h.stage
  have hnone : x.connector.channel_ = none := (h.correct.settled_iff h.owned).mp hsettled
  have hframed := h.framed.setFlags x.retry_ false
  have hsockets := h.sockets
  rw [TcpClient.stop]
  obtain ⟨y, hy⟩ : ∃ y : TcpClient, y = { x with connect_ := false } := ⟨_, rfl⟩
  have hconnector : y.connector = x.connector := by rw [hy]; rfl
  have hconnection : y.connection_ = x.connection_ := by rw [hy]
  have hsockets' : y.sockets = y.connector_.handedOver := by rw [hy]; exact hsockets
  rw [← hy] at hframed ⊢
  rw [← hconnector, ← hconnection] at hσ
  rw [← hconnector] at hnone
  have hcorrect : Correct (y.connector.stop inLoop) :=
    ((hconnector ▸ h.correct : Correct y.connector).stop_iff inLoop).mpr hnone
  have hconnect : Owned { y.connector with connect_ := false } :=
    (hconnector ▸ h.owned : Owned y.connector).congr rfl rfl rfl rfl rfl
  have howned : Owned (y.connector.stop inLoop) := (hconnect.cancel inLoop).check _ _
  have hstop : y.connector.stop inLoop =
      ({ y.connector with connect_ := false } : Connector).cancel inLoop := by
    rw [Connector.stop, check, if_pos (Option.isNone_iff_eq_none.mpr hnone)]
  have hhanded : (y.connector.stop inLoop).handedOver = y.connector_.handedOver := by
    rw [hstop]
    exact handedOver_cancel ..
  rw [onConnector_eq_putConnector hhanded]
  rw [hstop] at hcorrect howned hhanded ⊢
  cases inLoop with
  | true =>
    obtain ⟨τ, hτ⟩ := At.cancelInLoop (hσ.setConnect false) y.connector.timerId_
    exact sound_putConnector hframed (List.append_nil _).symm
      (fun hin => absurd hin List.not_mem_nil) howned hcorrect ⟨τ, hτ, fun hb' => absurd hb' hb⟩
      (fun hb' => absurd hb' hb) (hsockets'.trans hhanded.symm)
  | false =>
    have hqueue :
        (({ y.connector with connect_ := false } : Connector).cancel false).pendingFunctors_ =
        y.connector.pendingFunctors_ ++ [.cancel y.connector.timerId_] := rfl
    refine sound_putConnector hframed hqueue (fun hin => ?_) howned hcorrect
      ⟨σ, hσ.congr rfl ?_ rfl rfl rfl fun hin => ?_, fun hb' => absurd hb' hb⟩
      (fun hb' => absurd hb' hb) (hsockets'.trans hhanded.symm)
    · cases List.mem_singleton.mp hin
    · rw [hqueue, List.count_append]
      rfl
    · rw [resetPending, hqueue] at hin
      rcases List.mem_append.mp hin with hin | hin
      · exact hin
      · cases List.mem_singleton.mp hin

/-! ## Runs -/

def isDestroy : ClientAction → Bool
  | .destroy _ _ => true
  | _ => false

theorem Sound.step (h : Sound b x) {a : ClientAction} (hcalm : Calm x a) (hb : b → Persistent a)
    (hd : isDestroy a = false) (hy : x.step a = some y) : Sound b y := by
  cases a with
  | poll revents => exact h.poll hy
  | handleEvent err selfConnect => exact h.handleEvent hy
  | callback delivered result errno => exact h.callback hcalm hb hy
  | expire timer => exact h.expire hcalm hy
  | timer timer errno => exact h.timer hb hy
  | loop a => exact h.loopAct hy
  | runFunctor result errno => exact h.runFunctor hcalm hb hy
  | connect inLoop errno =>
    rw [TcpClient.step, if_neg (h.framed.exists_ ▸ Bool.false_ne_true)] at hy
    cases hy
    refine h.connect hcalm.1 hcalm.2 (fun hb' => ?_) inLoop
    obtain ⟨σ, hσ, hne⟩ := h.stage
    exact absurd (hcalm.2.at_idle hσ hcalm.1) (hne hb')
  | disconnect inLoop =>
    rw [TcpClient.step, if_neg (h.framed.exists_ ▸ Bool.false_ne_true)] at hy
    cases hy
    have hy : Sound b { x with retry_ := x.retry_, connect_ := false } :=
      h.frame (h.framed.setFlags x.retry_ false) rfl rfl rfl fun hb' => (hb hb').elim
    rw [disconnect]
    split
    · exact hy
    · exact hy.shutdown _ inLoop
  | stop inLoop =>
    rw [TcpClient.step, if_neg (h.framed.exists_ ▸ Bool.false_ne_true)] at hy
    cases hy
    exact h.stop hcalm (fun hb' => hb hb') inLoop
  | enableRetry =>
    rw [TcpClient.step, if_neg (h.framed.exists_ ▸ Bool.false_ne_true)] at hy
    cases hy
    exact h.frame (h.framed.setFlags true x.connect_) rfl rfl rfl fun _ => ⟨fun _ => rfl, id⟩
  | send c message result =>
    cases hy
    exact h.works (works_onConn fun conn => (conn.quiet_send message result).destroys)
  | shutdown c =>
    cases hy
    exact h.shutdown c true
  | forceClose c =>
    cases hy
    exact h.works (works_onConn fun conn => conn.quiet_forceClose.destroys)
  | destroy inLoop unique => cases hd
  | removeConnector =>
    rw [TcpClient.step, if_neg (h.framed.removal ▸ Bool.false_ne_true)] at hy
    cases hy

theorem sound_construct (n : ℤ) (callbacks : Callbacks) : Sound False (construct n callbacks) := by
  refine ⟨⟨⟨?_, ?_, ?_, ?_, ?_, ?_, ?_⟩, ?_, ?_, rfl, rfl, rfl, rfl⟩, owned_construct,
    correct_construct, ⟨.idle, ?_, False.elim⟩, False.elim, rfl⟩
  · exact fun hne => (hne.elim (fun hne => hne rfl) fun hne => hne rfl).elim
  · exact fun _ => List.not_mem_nil
  · intro c hc
    cases hc
  · intro c hc
    cases hc
  · exact fun f hf => absurd hf List.not_mem_nil
  · exact fun c hc => absurd hc List.not_mem_nil
  · exact fun c hc => absurd hc List.not_mem_nil
  · intro c k hk
    cases hk
  · intro c hc
    cases hc
  · refine ⟨rfl, rfl, rfl, rfl, rfl, ?_, fun hs => absurd hs Bool.false_ne_true⟩
    intro hstate
    cases hstate

theorem Sound.run {as : List ClientAction} (h : Sound b x) (hcalm : Meets TcpClient.step Calm x as)
    (hb : b → ∀ a ∈ as, Persistent a) (hd : ∀ a ∈ as, isDestroy a = false)
    (hr : GuardedRuns.run TcpClient.step x as = some y) : Sound b y := by
  induction as generalizing x with
  | nil =>
    cases hr
    exact h
  | cons a as ih =>
    obtain ⟨z, hz, hr⟩ := run_cons_eq_some.mp hr
    exact ih (h.step hcalm.1 (fun hb' => hb hb' a List.mem_cons_self) (hd a List.mem_cons_self) hz)
      (hcalm.2 z hz) (fun hb' a' ha' => hb hb' a' (List.mem_cons_of_mem _ ha'))
      (fun a' ha' => hd a' (List.mem_cons_of_mem _ ha')) hr

variable {n : ℤ} {callbacks : Callbacks} {as bs : List ClientAction}

/-- A client in any order of events, timers, functors and calls. No assertion of its connector or
its own fails; there is at most one of an attempt, a retry timer and a connection; every socket
that the connector hands over becomes one connection, which is the client's until it is closed,
and is then destroyed once. -/
theorem tcpClient_one_at_a_time (hr : GuardedRuns.run step (construct n callbacks) as = some x)
    (hcalm : Meets step Calm (construct n callbacks) as)
    (hd : ∀ a ∈ as, isDestroy a = false) :
    Correct x.connector ∧ x.failed = false ∧ (∃ σ, At x.connector x.connection_ σ) ∧
      x.conns.map ClientConnection.sockfd = x.connector_.handedOver ∧
      ∀ c k, x.conns[c]? = some k → (k.closes = 0 ↔ x.connection_ = some c) ∧ k.closes ≤ 1 ∧
        k.destroys + x.loop_.queued.count (.ofConnection c .connectDestroyed) = k.closes := by
  have h := (sound_construct n callbacks).run hcalm False.elim hd hr
  obtain ⟨σ, hσ, -⟩ := h.stage
  refine ⟨h.correct, h.framed.asserted, ⟨σ, hσ⟩, h.sockets, fun c k hk => ?_⟩
  have hkept := h.framed.kept c k hk
  exact ⟨hkept.open_iff, hkept.closes, hkept.destroys⟩

/-- A client gives up its first attempt, and is to retry from then on. -/
def stopping : List ClientAction := [.connect true .ECONNREFUSED, .stop true, .enableRetry]

/-- After an attempt that was refused, one that succeeds, and a restart when the peer has closed
the connection. -/
def reconnecting : List ClientAction :=
  [.poll [], .expire 1, .timer 1 .EINPROGRESS,
    .loop .doPendingFunctors, .loop .endPendingFunctors,
    .poll [(.connector, ⟨false, false, true, false, false, false, false⟩)],
    .handleEvent false false, .send 0 [1] (some 1), .loop .doPendingFunctors,
    .runFunctor none .success, .loop .endPendingFunctors,
    .poll [(.connection 0, ⟨true, false, false, false, false, false, false⟩)],
    .handleEvent false false, .callback (some []) none .EINPROGRESS, .loop .doPendingFunctors,
    .runFunctor none .success]

theorem tcpClient_one_at_a_time_reconnecting :
    ∃ x, GuardedRuns.run step (construct 7 .default)
        (stopping ++ .connect true .ECONNREFUSED :: reconnecting) = some x ∧
      (∃ σ, At x.connector x.connection_ σ) ∧
      x.conns.map ClientConnection.sockfd = x.connector_.handedOver := by
  obtain ⟨x, hr⟩ : ∃ x, GuardedRuns.run step (construct 7 .default)
      (stopping ++ .connect true .ECONNREFUSED :: reconnecting) = some x := ⟨_, rfl⟩
  obtain ⟨-, -, hstage, hsockets, -⟩ :=
    tcpClient_one_at_a_time hr (by decide +kernel) (by decide)
  exact ⟨x, hr, hstage, hsockets⟩

/-- A client that is told to connect, with `retry_` set and no `cancel` of an earlier `stop` left
in the queue. As long as nobody disconnects, stops or destroys it and `connect()` does not fail
for good, it is connected, or connecting, or waiting for its next attempt. -/
theorem tcpClient_never_idle {inLoop : Bool} {x₀ : TcpClient}
    (hr₀ : GuardedRuns.run step (construct n callbacks) as = some x₀)
    (hr : GuardedRuns.run step x₀ (.connect inLoop errno :: bs) = some x)
    (hcalm : Meets step Calm (construct n callbacks) (as ++ .connect inLoop errno :: bs))
    (hretry : x₀.retry_ = true)
    (hcancel : ∀ timerId, .cancel timerId ∉ x₀.connector.pendingFunctors_)
    (hp : ∀ a ∈ .connect inLoop errno :: bs, Persistent a)
    (hd : ∀ a ∈ as ++ bs, isDestroy a = false) :
    ∃ σ, At x.connector x.connection_ σ ∧ σ ≠ .idle := by
  obtain ⟨hcalm₀, hcalm₁⟩ := hcalm.append
  obtain ⟨hconnect, hcalm₂⟩ := hcalm₁ x₀ hr₀
  have h₀ : Sound False x₀ := (sound_construct n callbacks).run hcalm₀ False.elim
    (fun a ha => hd a (List.mem_append_left _ ha)) hr₀
  obtain ⟨x₁, hx₁, hr⟩ := run_cons_eq_some.mp hr
  have hcalm₃ := hcalm₂ x₁ hx₁
  rw [TcpClient.step, if_neg (h₀.framed.exists_ ▸ Bool.false_ne_true)] at hx₁
  cases hx₁
  have h₁ : Sound True (x₀.connect inLoop errno) := h₀.connect hconnect.1 hconnect.2
    (fun _ => ⟨hretry, hp _ List.mem_cons_self, hcancel⟩) inLoop
  have h := h₁.run hcalm₃ (fun _ a ha => hp a (List.mem_cons_of_mem _ ha))
    (fun a ha => hd a (List.mem_append_right _ ha)) hr
  obtain ⟨σ, hσ, hne⟩ := h.stage
  exact ⟨σ, hσ, hne trivial⟩

theorem tcpClient_never_idle_reconnecting :
    ∃ x, GuardedRuns.run step (construct 7 .default)
        (stopping ++ .connect true .ECONNREFUSED :: reconnecting) = some x ∧
      ∃ σ, At x.connector x.connection_ σ ∧ σ ≠ .idle := by
  obtain ⟨x₀, hr₀, hretry, hcancel⟩ : ∃ x₀,
      GuardedRuns.run step (construct 7 .default) stopping = some x₀ ∧
      x₀.retry_ = true ∧ x₀.connector.pendingFunctors_ = [] := ⟨_, rfl, rfl, rfl⟩
  obtain ⟨x, hr⟩ : ∃ x, GuardedRuns.run step (construct 7 .default)
      (stopping ++ .connect true .ECONNREFUSED :: reconnecting) = some x := ⟨_, rfl⟩
  have hr₁ := hr
  rw [run_append, hr₀, Option.bind_some] at hr₁
  exact ⟨x, hr, tcpClient_never_idle hr₀ hr₁ (by decide +kernel) hretry
    (fun timerId => hcancel ▸ List.not_mem_nil) (by decide) (by decide)⟩

end ReactorNet.TcpClient
