import ReactorNet.ConnectionCloseOnce

/-!
# The channel of a destroyed connection

`connectDestroyed` takes the channel out of the poller's map. What another thread has
queued behind it runs on the connection all the same, and every update of the channel
puts it back; the runs in which that does not happen are those in which such a functor
has nothing left to do.
-/
namespace ReactorNet

namespace TcpConnection

/-- A change of a connection that respects the poller and the phase of the loop. -/
structure Orderly (c c' : TcpConnection) : Prop where
  coherent : c.channel_.Coherent → c'.channel_.Coherent
  phase : c'.loop_.phase = c.loop_.phase

variable {c c' c'' : TcpConnection}

theorem orderly_of_eq (hc : c'.channel_ = c.channel_) (hp : c'.loop_.phase = c.loop_.phase) :
    Orderly c c' := ⟨fun h => hc ▸ h, hp⟩

theorem orderly_setEvents {events : Interest} (hc : c'.channel_ = c.channel_.setEvents events)
    (hp : c'.loop_.phase = c.loop_.phase) : Orderly c c' :=
  ⟨fun h => hc ▸ (h.setEvents events).1, hp⟩

theorem orderly_sendInLoop (c : TcpConnection) (message : List UInt8) (result : Option ℕ) :
    Orderly c (c.sendInLoop message result) := by
  obtain ⟨fs, hs⟩ := c.sendInLoop_spec message result
  have hchannel := hs.channel
  split at hchannel
  · exact orderly_of_eq hchannel hs.queues.phase
  · exact orderly_setEvents hchannel hs.queues.phase

theorem orderly_handleWrite (c : TcpConnection) (result : Option ℕ) :
    Orderly c (c.handleWrite result) := by
  rcases c.handleWrite_cases result with ⟨heq, -⟩ | ⟨n, -, -, -, heq⟩
  · rw [heq]
    exact orderly_of_eq rfl rfl
  · rw [heq]
    split
    · obtain ⟨fs, hq, -, hchannel, -⟩ := (c.wrote n).drained_spec
      exact orderly_setEvents hchannel hq.phase
    · exact orderly_of_eq rfl rfl

/-- Nothing is left of a message when it is empty, or goes out at once. -/
theorem unsent_eq_nil_iff (hw : c.channel_.isWriting = false) (message : List UInt8)
    (result : Option ℕ) : c.unsent message result = [] ↔
      ¬ (message ≠ [] ∧ (c.outputBuffer_.readableBytes ≠ 0 ∨ result.getD 0 < message.length)) := by
  rcases message with _ | ⟨byte, bytes⟩
  · simp [unsent]
  · by_cases hidle : c.outputBuffer_.readableBytes = 0
    · simp [unsent, hw, hidle]
    · simp [unsent, hidle]

theorem channel_shutdown (c : TcpConnection) :
    c.shutdown.channel_ = c.channel_ ∧ c.shutdown.loop_ = c.loop_ := by
  rw [shutdown]
  split
  · rw [shutdownInLoop_eq]
    exact ⟨rfl, rfl⟩
  · exact ⟨rfl, rfl⟩

theorem channel_forceClose (c : TcpConnection) :
    c.forceClose.channel_ = c.channel_ ∧ c.forceClose.loop_.phase = c.loop_.phase := by
  rw [forceClose]
  split
  · exact ⟨rfl, EventLoop.phase_queueInLoop ..⟩
  · exact ⟨rfl, rfl⟩

theorem orderly_connectDestroyed (c : TcpConnection) : Orderly c c.connectDestroyed :=
  ⟨fun h => (h.setEvents _).1.remove.1, rfl⟩

theorem entry_connectDestroyed (h : c.channel_.Coherent) :
    c.connectDestroyed.channel_.entry = none := by
  obtain ⟨hcoherent, hindex⟩ := (h.setEvents Interest.kNoneEvent).1.remove
  exact hcoherent.entry_eq_none.mpr hindex

end TcpConnection

namespace ServerRun

open TcpConnection GuardedRuns

/-- `connectDestroyed` has run. -/
def destroyed (s : ServerRun) : Prop := s.lifecycle.asserts ≠ []

/-- The poller keeps no pointer to the channel of a destroyed connection, and as long as it
keeps one, the server or a queued `connectDestroyed` holds the connection. -/
structure NotDangling (s : ServerRun) : Prop where
  unregistered : s.destroyed → s.conn.channel_.entry = none
  referenced : s.conn.channel_.entry ≠ none →
    s.conn.name_ ∈ s.server.connections_ ∨ .connectDestroyed ∈ s.conn.loop_.queued

/-- Until it is destroyed, the server or its queued `connectDestroyed` holds the connection. -/
theorem Good.notDangling_iff {s : ServerRun} (h : s.Good) :
    s.NotDangling ↔ (s.destroyed → s.conn.channel_.entry = none) := by
  refine ⟨NotDangling.unregistered, fun hnone => ⟨hnone, fun hentry => ?_⟩⟩
  have hasserts : s.lifecycle.asserts = [] := of_not_not (mt hnone hentry)
  rcases herased : s.lifecycle.erased with _ | ⟨n, ns⟩
  · exact Or.inl (of_decide_eq_true (h.sound.registered_iff.mpr herased))
  · have hlen := h.sound.erased_length
    rw [herased, hasserts, List.length_cons, List.length_nil] at hlen
    exact Or.inr (List.count_pos_iff.mp (Nat.lt_of_lt_of_eq (Nat.succ_pos _) hlen))

/-- No event is left for the connection, and its channel asks for none. -/
structure Detached (s : ServerRun) : Prop where
  active : s.active = none
  todo : s.todo = []
  state : s.conn.state_ = .kDisconnected ∨ s.conn.state_ = .kDisconnecting
  events : s.conn.channel_.channel.events_ = Interest.kNoneEvent

structure Watched (s : ServerRun) : Prop where
  good : s.Good
  coherent : s.conn.channel_.Coherent
  handled : s.conn.loop_.handlingEvents = false → s.active = none ∧ s.todo = []
  detached : s.destroyed → s.conn.channel_.entry = none → s.Detached

/-- A step that leaves the channel and the reported events alone. -/
structure Calm (s s' : ServerRun) : Prop where
  asserts : s'.lifecycle.asserts = s.lifecycle.asserts
  channel : s'.conn.channel_ = s.conn.channel_
  state : s'.conn.state_ = s.conn.state_ ∨ s'.conn.state_ = .kDisconnecting
  active : s'.active = s.active
  todo : s'.todo = s.todo
  phase : s'.conn.loop_.handlingEvents = s.conn.loop_.handlingEvents ∨
    s.active = none ∧ s.todo = []

theorem Calm.watched {s s' : ServerRun} (hc : Calm s s') (h : s.Watched) (hg : s'.Good) :
    s'.Watched where
  good := hg
  coherent := hc.channel ▸ h.coherent
  handled hp := by
    rw [hc.active, hc.todo]
    rcases hc.phase with he | he
    · exact h.handled (he.symm.trans hp)
    · exact he
  detached hd he := by
    rw [destroyed, hc.asserts] at hd
    rw [hc.channel] at he
    obtain ⟨hactive, htodo, hstate, hevents⟩ := h.detached hd he
    refine ⟨hc.active.trans hactive, hc.todo.trans htodo, ?_, hc.channel ▸ hevents⟩
    rcases hc.state with hs | hs
    · exact hs ▸ hstate
    · exact Or.inr hs

theorem Calm.unregistered_iff {s s' : ServerRun} (hc : Calm s s') :
    (s'.destroyed → s'.conn.channel_.entry = none) ↔
      (s.destroyed → s.conn.channel_.entry = none) := by
  rw [destroyed, destroyed, hc.asserts, hc.channel]


/-! ## What runs behind `connectDestroyed` -/

/-- The step runs a functor that still has to update the channel: a `sendInLoop` whose
message does not go out at once, or a `forceCloseInLoop` that finds the connection open. -/
def updatesChannel (s : ServerRun) (a : ServerAction) : Bool :=
  match a with
  | .runFunctor result =>
    match s.conn.loop_.next with
    | some (.sendInLoop message, _) =>
      decide (message ≠ [] ∧
        (s.conn.outputBuffer_.readableBytes ≠ 0 ∨ result.getD 0 < message.length))
    | some (.forceCloseInLoop, _) => s.open?
    | _ => false
  | _ => false

/-- What a step keeps, and when it keeps a destroyed connection out of the map. -/
structure Keeps (a : ServerAction) (s s' : ServerRun) : Prop where
  watched : s'.Watched
  unregistered_iff : (s'.destroyed → s'.conn.channel_.entry = none) ↔
    (s.destroyed → s.updatesChannel a = false)

theorem Watched.keeps_calm {s s' : ServerRun} {a : ServerAction} (h : s.Watched)
    (hnone : s.destroyed → s.conn.channel_.entry = none) (hs : s.step a = some s')
    (hc : Calm s s') (hu : s.updatesChannel a = false) : Keeps a s s' where
  watched := hc.watched h (h.good.step hs)
  unregistered_iff := by
    rw [hc.unregistered_iff]
    exact ⟨fun _ _ => hu, fun _ => hnone⟩

theorem Watched.keeps_alive {s s' : ServerRun} {a : ServerAction} (h : s.Watched)
    (hs : s.step a = some s') (hd : ¬ s.destroyed)
    (ha : s'.lifecycle.asserts = s.lifecycle.asserts) (hc : s'.conn.channel_.Coherent)
    (hhandled : s'.conn.loop_.handlingEvents = false → s'.active = none ∧ s'.todo = []) :
    Keeps a s s' := by
  have hd' : ¬ s'.destroyed := by rwa [destroyed, ha]
  exact ⟨⟨h.good.step hs, hc, hhandled, fun hdestroyed => absurd hdestroyed hd'⟩,
    ⟨fun _ hdestroyed => absurd hdestroyed hd, fun _ hdestroyed => absurd hdestroyed hd'⟩⟩

/-- A step that updates the channel of a destroyed connection puts it back into the map. -/
theorem Watched.keeps_rearmed {s s' : ServerRun} {a : ServerAction} (h : s.Watched)
    (hs : s.step a = some s') (hd : s.destroyed)
    (ha : s'.lifecycle.asserts = s.lifecycle.asserts) {events : Interest}
    (hc : s'.conn.channel_ = s.conn.channel_.setEvents events)
    (hhandled : s'.active = none ∧ s'.todo = []) (hu : s.updatesChannel a = true) :
    Keeps a s s' := by
  obtain ⟨hcoherent, hindex⟩ := h.coherent.setEvents events
  have hentry : s'.conn.channel_.entry ≠ none := by
    rw [hc]
    exact mt hcoherent.entry_eq_none.mp hindex
  refine ⟨⟨h.good.step hs, hc ▸ hcoherent, fun _ => hhandled, fun _ he => absurd he hentry⟩,
    ⟨fun hnone => absurd (hnone (by rwa [destroyed, ha])) hentry, fun hnone => ?_⟩⟩
  simp [hu] at hnone
  exact absurd hd hnone

theorem Quiet.calm {s s' : ServerRun} (hq : Quiet s s')
    (hc : s'.conn.channel_ = s.conn.channel_) (ha : s'.active = s.active) (ht : s'.todo = s.todo)
    (hp : s'.conn.loop_.handlingEvents = s.conn.loop_.handlingEvents ∨
      s.active = none ∧ s.todo = []) : Calm s s' where
  asserts := by rw [hq.lifecycle_eq]
  channel := hc
  state := hq.conn.state
  active := ha
  todo := ht
  phase := hp

theorem calm_baseFunctor {s s' : ServerRun} (hs : s.baseFunctor = some s') : Calm s s' := by
  obtain ⟨l, hl, rfl⟩ := baseFunctor_cases hs
  obtain ⟨-, hlife⟩ := lifecycle_baseFunctor hl
  exact ⟨by rw [hlife]; rfl, rfl, Or.inl rfl, rfl, rfl,
    Or.inl (EventLoop.handlingEvents_congr (EventLoop.phase_queueInLoop ..))⟩

/-- The poller reports nothing for a channel that is not in its map. -/
theorem Watched.keeps_poll {s s' : ServerRun} {revents : Option Revents} (h : s.Watched)
    (hnone : s.destroyed → s.conn.channel_.entry = none)
    (hs : s.step (.poll revents) = some s') : Keeps (.poll revents) s s' := by
  have hq := quiet_poll hs
  obtain ⟨hadmits, l, hl, rfl⟩ := poll_cases hs
  by_cases hd : s.destroyed
  · have hinterest := h.coherent.interest_eq_none (h.coherent.entry_eq_none.mp (hnone hd))
    have hdetached := h.detached hd (hnone hd)
    have hrevents : revents = none := by
      rcases revents with _ | r
      · rfl
      · simp [hinterest] at hadmits
    exact h.keeps_calm hnone hs (hq.calm rfl (hrevents.trans hdetached.active.symm) rfl
      (Or.inr ⟨hdetached.active, hdetached.todo⟩)) rfl
  · refine h.keeps_alive hs hd (by rw [hq.lifecycle_eq]) h.coherent fun hphase => ?_
    exact absurd (EventLoop.handlingEvents_poll hl) (by simp [hphase])

theorem Watched.handlingEvents {s : ServerRun} (h : s.Watched)
    (hbusy : s.active ≠ none ∨ s.todo ≠ []) : s.conn.loop_.handlingEvents = true := by
  by_contra hphase
  obtain ⟨hactive, htodo⟩ := h.handled (Bool.not_eq_true _ ▸ hphase)
  exact hbusy.elim (absurd hactive) (absurd htodo)

theorem Watched.not_destroyed {s : ServerRun} (h : s.Watched)
    (hnone : s.destroyed → s.conn.channel_.entry = none)
    (hbusy : s.active ≠ none ∨ s.todo ≠ []) : ¬ s.destroyed := by
  intro hd
  have hdetached := h.detached hd (hnone hd)
  exact hbusy.elim (absurd hdetached.active) (absurd hdetached.todo)

theorem Watched.keeps_handleEvent {s s' : ServerRun} (h : s.Watched)
    (hnone : s.destroyed → s.conn.channel_.entry = none) (hs : s.step .handleEvent = some s') :
    Keeps .handleEvent s s' := by
  have hq := quiet_handleEvent hs
  obtain ⟨r, hactive, -, rfl⟩ := handleEvent_cases hs
  have hbusy : s.active ≠ none ∨ s.todo ≠ [] := Or.inl (by simp [hactive])
  refine h.keeps_alive hs (h.not_destroyed hnone hbusy) (by rw [hq.lifecycle_eq]) h.coherent
    fun hphase => ?_
  exact absurd (h.handlingEvents hbusy) (by simp [hphase])

theorem orderly_handleClose (s : ServerRun) : Orderly s.conn s.handleClose.conn := by
  rw [handleClose, removeConnection]
  split
  · exact orderly_setEvents rfl (EventLoop.phase_queueInLoop ..)
  · exact orderly_setEvents rfl rfl

theorem channel_handleClose (s : ServerRun) :
    s.handleClose.conn.channel_ = s.conn.channel_.disableAll ∧
      s.handleClose.active = s.active ∧ s.handleClose.todo = s.todo := by
  rw [handleClose, removeConnection]
  split <;> exact ⟨rfl, rfl, rfl⟩

theorem asserts_handleClose (s : ServerRun) :
    s.handleClose.lifecycle.asserts = s.lifecycle.asserts := by
  rw [lifecycle_handleClose]
  split <;> rfl

/-- A callback of the channel closes the connection, or changes nothing in its life cycle. -/
theorem asserts_callback {s s' : ServerRun} {delivered : Option (List UInt8)} {result : Option ℕ}
    (hs : s.callback delivered result = some s') : s.todo ≠ [] ∧
      s'.lifecycle.asserts = s.lifecycle.asserts ∧ Orderly s.conn s'.conn := by
  rcases htodo : s.todo with _ | ⟨cb, rest⟩
  · simp [callback, htodo] at hs
  · simp only [callback, htodo, Option.some.injEq] at hs
    subst hs
    refine ⟨List.cons_ne_nil cb rest, ?_⟩
    cases cb with
    | closeCallback_ => exact ⟨asserts_handleClose _, orderly_handleClose { s with todo := rest }⟩
    | errorCallback_ => exact ⟨rfl, orderly_of_eq rfl rfl⟩
    | readCallback_ =>
      rcases delivered with _ | _ | ⟨byte, bytes⟩
      · exact ⟨rfl, orderly_of_eq rfl rfl⟩
      · have hread := orderly_handleClose { s with
          todo := rest
          conn.inputBuffer_ := s.conn.inputBuffer_.readFd (some []) }
        exact ⟨asserts_handleClose _, ⟨hread.coherent, hread.phase⟩⟩
      · exact ⟨rfl, orderly_of_eq rfl rfl⟩
    | writeCallback_ => exact ⟨rfl, orderly_handleWrite s.conn result⟩

theorem Watched.keeps_callback {s s' : ServerRun} {delivered : Option (List UInt8)}
    {result : Option ℕ} (h : s.Watched) (hnone : s.destroyed → s.conn.channel_.entry = none)
    (hs : s.step (.callback delivered result) = some s') :
    Keeps (.callback delivered result) s s' := by
  obtain ⟨htodo, hasserts, horderly⟩ := asserts_callback hs
  refine h.keeps_alive hs (h.not_destroyed hnone (Or.inr htodo)) hasserts
    (horderly.coherent h.coherent) fun hphase => ?_
  rw [EventLoop.handlingEvents_congr horderly.phase] at hphase
  exact absurd (h.handlingEvents (Or.inr htodo)) (by simp [hphase])

theorem Watched.keeps_loopAct {s s' : ServerRun} {a : LoopAction} (h : s.Watched)
    (hnone : s.destroyed → s.conn.channel_.entry = none) (hs : s.step (.loop a) = some s') :
    Keeps (.loop a) s s' := by
  have hq := quiet_loopAct hs
  obtain ⟨hpoll, hpending, l, hl, rfl⟩ := loopAct_cases hs
  refine h.keeps_calm hnone hs (hq.calm rfl rfl rfl ?_) rfl
  by_cases hd : a = .doPendingFunctors
  · exact Or.inr (hpending hd)
  · exact Or.inl (EventLoop.handlingEvents_act hl hpoll hd)

/-! ## The functors -/

theorem Watched.keeps_sendInLoop {s : ServerRun} {l : EventLoop ConnFunctor}
    {message : List UInt8} {result : Option ℕ} (h : s.Watched)
    (hnone : s.destroyed → s.conn.channel_.entry = none)
    (hnext : s.conn.loop_.next = some (.sendInLoop message, l))
    (hs : s.step (.runFunctor result) =
      some { s with conn := { s.conn with loop_ := l }.sendInLoop message result }) :
    Keeps (.runFunctor result) s
      { s with conn := { s.conn with loop_ := l }.sendInLoop message result } := by
  obtain ⟨hphase, hphase'⟩ := EventLoop.handlingEvents_next hnext
  generalize hc : { s.conn with loop_ := l } = c at hs ⊢
  have hloop : c.loop_ = l := by rw [← hc]
  have hchannel : c.channel_ = s.conn.channel_ := by rw [← hc]
  have houtput : c.outputBuffer_ = s.conn.outputBuffer_ := by rw [← hc]
  have hstate : c.state_ = s.conn.state_ := by rw [← hc]
  obtain ⟨fs, hsends⟩ := c.sendInLoop_spec message result
  have hcoherent : (c.sendInLoop message result).channel_.Coherent :=
    (c.orderly_sendInLoop message result).coherent (hchannel ▸ h.coherent)
  by_cases hd : s.destroyed
  · have hwriting : c.channel_.isWriting = false := by
      simp [LoopChannel.isWriting, hchannel, (h.detached hd (hnone hd)).events, Interest.kNoneEvent]
    have hunsent := unsent_eq_nil_iff hwriting message result
    rw [houtput] at hunsent
    by_cases hrest : c.unsent message result = []
    · have hsame : (c.sendInLoop message result).channel_ = s.conn.channel_ := by
        rw [hsends.channel, if_pos (Or.inl hrest), hchannel]
      have hsent := EventLoop.handlingEvents_congr (hsends.queues.phase)
      refine h.keeps_calm hnone hs ⟨rfl, hsame, Or.inl (hsends.queues.state.trans hstate), rfl, rfl,
        Or.inl ?_⟩ ?_
      · rw [hsent, hloop, hphase, hphase']
      · simpa [updatesChannel, hnext] using hunsent.mp hrest
    · have hrearmed : (c.sendInLoop message result).channel_ = s.conn.channel_.enableWriting := by
        rw [hsends.channel, if_neg (by simp [hrest, hwriting]), hchannel]
      refine h.keeps_rearmed hs hd rfl hrearmed (h.handled hphase) ?_
      simpa [updatesChannel, hnext] using not_not.mp (mt hunsent.mpr hrest)
  · exact h.keeps_alive hs hd rfl hcoherent fun _ => h.handled hphase

theorem Watched.keeps_forceCloseInLoop {s : ServerRun} {l : EventLoop ConnFunctor}
    {result : Option ℕ} (h : s.Watched) (hnone : s.destroyed → s.conn.channel_.entry = none)
    (hnext : s.conn.loop_.next = some (.forceCloseInLoop, l))
    (hs : s.step (.runFunctor result) = some { s with conn.loop_ := l }.forceCloseInLoop) :
    Keeps (.runFunctor result) s { s with conn.loop_ := l }.forceCloseInLoop := by
  obtain ⟨hphase, hphase'⟩ := EventLoop.handlingEvents_next hnext
  have hopen' : ({ s with conn.loop_ := l } : ServerRun).open? = s.open? := rfl
  cases hopen : s.open? with
  | false =>
    simp only [forceCloseInLoop, hopen', hopen, Bool.false_eq_true, if_false] at hs ⊢
    exact h.keeps_calm hnone hs ⟨rfl, rfl, Or.inl rfl, rfl, rfl, Or.inl (hphase'.trans hphase.symm)⟩
      (by simpa [updatesChannel, hnext] using hopen)
  | true =>
    simp only [forceCloseInLoop, hopen', hopen, if_true] at hs ⊢
    obtain ⟨hchannel, hactive, htodo⟩ := channel_handleClose { s with conn.loop_ := l }
    have hasserts := asserts_handleClose { s with conn.loop_ := l }
    obtain ⟨hnoactive, hnotodo⟩ := h.handled hphase
    have hhandled := And.intro (hactive.trans hnoactive) (htodo.trans hnotodo)
    by_cases hd : s.destroyed
    · exact h.keeps_rearmed hs hd hasserts hchannel hhandled
        (by simpa [updatesChannel, hnext] using hopen)
    · exact h.keeps_alive hs hd hasserts (hchannel ▸ (h.coherent.setEvents _).1) fun _ => hhandled

theorem Watched.keeps_connectDestroyed {s : ServerRun} {l : EventLoop ConnFunctor}
    {result : Option ℕ} (h : s.Watched) (hnext : s.conn.loop_.next = some (.connectDestroyed, l))
    (hs : s.step (.runFunctor result) = some { s with conn.loop_ := l }.connectDestroyed) :
    Keeps (.runFunctor result) s { s with conn.loop_ := l }.connectDestroyed := by
  obtain ⟨hphase, -⟩ := EventLoop.handlingEvents_next hnext
  obtain ⟨hactive, htodo⟩ := h.handled hphase
  have hentry := TcpConnection.entry_connectDestroyed h.coherent
  refine ⟨⟨h.good.step hs, (orderly_connectDestroyed s.conn).coherent h.coherent,
    fun _ => ⟨hactive, htodo⟩, fun _ _ => ⟨hactive, htodo, Or.inl rfl, ?_⟩⟩,
    ⟨fun _ _ => by simp [updatesChannel, hnext], fun _ _ => hentry⟩⟩
  simp [connectDestroyed, TcpConnection.connectDestroyed, setChannel, setState, record,
    LoopChannel.disableAll]

theorem Watched.keeps_connectEstablished {s : ServerRun} {l : EventLoop ConnFunctor}
    {result : Option ℕ} (h : s.Watched) (hnone : s.destroyed → s.conn.channel_.entry = none)
    (hnext : s.conn.loop_.next = some (.connectEstablished, l))
    (hs : s.step (.runFunctor result) = some { s with conn.loop_ := l }.connectEstablished) :
    Keeps (.runFunctor result) s { s with conn.loop_ := l }.connectEstablished := by
  obtain ⟨hphase, -⟩ := EventLoop.handlingEvents_next hnext
  have hl := EventLoop.queued_next hnext
  have hd : ¬ s.destroyed := by
    intro hd
    have hstate := (h.detached hd (hnone hd)).state
    simp [(h.good.connecting hl).state] at hstate
  have hasserts : ({ s with conn.loop_ := l }.connectEstablished).lifecycle.asserts =
      s.lifecycle.asserts := by
    rw [(lifecycle_connectEstablished hl).2]
    rfl
  exact h.keeps_alive hs hd hasserts (h.coherent.setEvents _).1 fun _ => h.handled hphase

theorem Watched.keeps_runFunctor {s s' : ServerRun} {result : Option ℕ} (h : s.Watched)
    (hnone : s.destroyed → s.conn.channel_.entry = none)
    (hs : s.step (.runFunctor result) = some s') : Keeps (.runFunctor result) s s' := by
  obtain ⟨f, l, hnext, rfl⟩ := runFunctor_cases hs
  obtain ⟨hphase, hphase'⟩ := EventLoop.handlingEvents_next hnext
  have hsame := hphase'.trans hphase.symm
  cases f with
  | connectEstablished => exact h.keeps_connectEstablished hnone hnext hs
  | sendInLoop message => exact h.keeps_sendInLoop hnone hnext hs
  | shutdownInLoop =>
    have heq := shutdownInLoop_eq { s.conn with loop_ := l }
    simp only [runConnFunctor] at hs ⊢
    exact h.keeps_calm hnone hs ⟨rfl, by rw [heq], Or.inl (by rw [heq]), rfl, rfl,
      Or.inl (by rw [heq]; exact hsame)⟩ (by simp [updatesChannel, hnext])
  | forceCloseInLoop => exact h.keeps_forceCloseInLoop hnone hnext hs
  | connectDestroyed => exact h.keeps_connectDestroyed hnext hs
  | writeCompleteCallback_ | highWaterMarkCallback_ size =>
    exact h.keeps_calm hnone hs ⟨rfl, rfl, Or.inl rfl, rfl, rfl, Or.inl hsame⟩
      (by simp [updatesChannel, hnext])

/-! ## Every step, and runs -/

theorem Watched.keeps_loopCall {s s' : ServerRun} {call : Call} {result : Option ℕ}
    (h : s.Watched) (hnone : s.destroyed → s.conn.channel_.entry = none)
    (hs : s.step (.loopCall call result) = some s') : Keeps (.loopCall call result) s s' := by
  have hq := quiet_loopCall hs
  obtain rfl := loopCall_cases hs
  cases call with
  | send message =>
    by_cases hstate : s.conn.state_ = .kConnected
    · have hd : ¬ s.destroyed := fun hd => by
        have := (h.detached hd (hnone hd)).state
        simp [hstate] at this
      have horderly := s.conn.orderly_sendInLoop message result
      simp only [callInLoop, send, hstate, if_true] at hs hq ⊢
      refine h.keeps_alive hs hd (by rw [hq.lifecycle_eq]) (horderly.coherent h.coherent) fun hp => ?_
      exact h.handled ((EventLoop.handlingEvents_congr horderly.phase).symm.trans hp)
    · simp only [callInLoop, send, hstate, if_false] at hs hq ⊢
      exact h.keeps_calm hnone hs (hq.calm rfl rfl rfl (Or.inl rfl)) rfl
  | shutdown =>
    obtain ⟨hchannel, hloop⟩ := s.conn.channel_shutdown
    exact h.keeps_calm hnone hs (hq.calm hchannel rfl rfl
      (Or.inl (EventLoop.handlingEvents_congr (congrArg _ hloop)))) rfl
  | forceClose =>
    obtain ⟨hchannel, hphase⟩ := s.conn.channel_forceClose
    exact h.keeps_calm hnone hs (hq.calm hchannel rfl rfl
      (Or.inl (EventLoop.handlingEvents_congr hphase))) rfl

theorem Watched.keeps {s s' : ServerRun} {a : ServerAction} (h : s.Watched)
    (hnone : s.destroyed → s.conn.channel_.entry = none) (hs : s.step a = some s') :
    Keeps a s s' := by
  cases a with
  | acceptOther =>
    have hq := quiet_acceptOther h.good.name_lt
    cases hs
    exact h.keeps_calm hnone rfl (hq.calm rfl rfl rfl (Or.inl rfl)) rfl
  | eraseOther name =>
    have hq := quiet_eraseOther hs
    obtain ⟨-, rfl⟩ := eraseOther_cases hs
    exact h.keeps_calm hnone hs (hq.calm rfl rfl rfl (Or.inl rfl)) rfl
  | baseLoop a =>
    have hq := quiet_baseLoop hs
    obtain ⟨l, -, rfl⟩ := baseLoop_cases hs
    exact h.keeps_calm hnone hs (hq.calm rfl rfl rfl (Or.inl rfl)) rfl
  | baseFunctor => exact h.keeps_calm hnone hs (calm_baseFunctor hs) rfl
  | poll revents => exact h.keeps_poll hnone hs
  | handleEvent => exact h.keeps_handleEvent hnone hs
  | callback delivered result => exact h.keeps_callback hnone hs
  | loop a => exact h.keeps_loopAct hnone hs
  | runFunctor result => exact h.keeps_runFunctor hnone hs
  | loopCall call result => exact h.keeps_loopCall hnone hs
  | call thread call =>
    have hq := quiet_call hs
    obtain ⟨-, callers, accepted, rfl⟩ := call_cases hs
    exact h.keeps_calm hnone hs (hq.calm rfl rfl rfl (Or.inl rfl)) rfl
  | resume thread =>
    have hq := quiet_resume hs
    obtain ⟨c, callers, rfl, -, hchannel, hphase⟩ := resume_cases hs
    exact h.keeps_calm hnone hs (hq.calm hchannel rfl rfl
      (Or.inl (EventLoop.handlingEvents_congr hphase))) rfl

theorem watched_newConnection (sharedLoop : Bool) (nextConnId : ℕ) (others : List ℕ)
    (this fd : ℕ) (callbacks : Callbacks) :
    (newConnection sharedLoop nextConnId others this fd callbacks).Watched where
  good := good_newConnection ..
  coherent := by
    have hfresh := LoopChannel.coherent_construct this fd
    cases sharedLoop with
    | true => exact (hfresh.setEvents _).1
    | false => exact hfresh
  handled _ := by cases sharedLoop <;> exact ⟨rfl, rfl⟩
  detached hd := by
    rw [destroyed, lifecycle_newConnection] at hd
    exact absurd rfl hd

/-- A functor that runs behind `connectDestroyed` leaves the channel alone. -/
def NothingLeftToUpdate (s : ServerRun) (a : ServerAction) : Prop :=
  s.destroyed → s.updatesChannel a = false

instance (s : ServerRun) (a : ServerAction) : Decidable (NothingLeftToUpdate s a) :=
  inferInstanceAs (Decidable (s.lifecycle.asserts ≠ [] → _))

/-- In a run of a server and one of its connections, the channel stays out of the poller's
map after `connectDestroyed`, and is never in it without a reference to the connection,
exactly when every `sendInLoop` behind `connectDestroyed` has an empty message or writes
it at once, and every `forceCloseInLoop` behind it finds the connection closed. -/
theorem not_dangling_iff_nothing_left (sharedLoop : Bool) (nextConnId : ℕ) (others : List ℕ)
    (this fd : ℕ) (callbacks : Callbacks) (as : List ServerAction) (s : ServerRun)
    (hr : run step (newConnection sharedLoop nextConnId others this fd callbacks) as = some s) :
    Throughout step NotDangling
        (newConnection sharedLoop nextConnId others this fd callbacks) as ↔
      Meets step NothingLeftToUpdate
        (newConnection sharedLoop nextConnId others this fd callbacks) as := by
  have hwatched := watched_newConnection sharedLoop nextConnId others this fd callbacks
  have hstart : (newConnection sharedLoop nextConnId others this fd callbacks).NotDangling := by
    refine hwatched.good.notDangling_iff.mpr fun hd => ?_
    rw [destroyed, lifecycle_newConnection] at hd
    exact absurd rfl hd
  have hany (t : ServerRun) : Meets step (fun _ _ => True) t as :=
    Meets.of_forall (fun _ _ => trivial) t as
  refine throughout_iff_meets (fun t a t' h hp _ hs => (h.keeps hp.unregistered hs).watched)
    (fun t a t' h hp _ hs => ?_) hwatched hstart (hany _) hr
  rw [(h.good.step hs).notDangling_iff]
  exact (h.keeps hp.unregistered hs).unregistered_iff

/-- Another thread has found the connection open; its `sendInLoop` runs behind
`connectDestroyed`, and the kernel answers with `result`. -/
def sendBehindDestroy (result : Option ℕ) : List ServerAction :=
  [.poll none, .loop .doPendingFunctors, .runFunctor none, .loop .endPendingFunctors,
    .call 1 (.send [7]), .poll (some ⟨true, false, false, false, false, false, false⟩),
    .handleEvent, .callback (some []) none, .baseLoop .poll, .baseLoop .doPendingFunctors,
    .baseFunctor, .resume 1, .loop .doPendingFunctors, .runFunctor none, .runFunctor result]

theorem not_dangling_fails : ¬ ∀ (as : List ServerAction) (s : ServerRun),
    run step (newConnection false 0 [] 5 3 Callbacks.default) as = some s → s.NotDangling := by
  intro h
  obtain ⟨s, hs, he⟩ : ∃ s,
      run step (newConnection false 0 [] 5 3 Callbacks.default) (sendBehindDestroy none) = some s ∧
        (s.lifecycle.asserts, s.conn.channel_.entry, s.server.connections_,
          s.conn.loop_.queued) = ([true], some 5, [], []) :=
    Option.map_eq_some_iff.mp (by decide +kernel)
  simp only [Prod.mk.injEq] at he
  obtain ⟨hasserts, hentry, -, -⟩ := he
  have hnone := (h _ s hs).unregistered (by simp [destroyed, hasserts])
  simp [hentry] at hnone

/-- The kernel takes the message at once, and the channel stays out of the map. -/
theorem not_dangling_sendBehindDestroy : ∃ s,
    run step (newConnection false 0 [] 5 3 Callbacks.default) (sendBehindDestroy (some 1)) =
        some s ∧ s.destroyed ∧ s.conn.socket_.written = [7] ∧
      Throughout step NotDangling (newConnection false 0 [] 5 3 Callbacks.default)
        (sendBehindDestroy (some 1)) := by
  obtain ⟨s, hs, he⟩ : ∃ s,
      run step (newConnection false 0 [] 5 3 Callbacks.default) (sendBehindDestroy (some 1)) =
        some s ∧ (s.lifecycle.asserts, s.conn.socket_.written) = ([true], [7]) :=
    Option.map_eq_some_iff.mp (by decide +kernel)
  simp only [Prod.mk.injEq] at he
  refine ⟨s, hs, by simp [destroyed, he.1], he.2, ?_⟩
  exact (not_dangling_iff_nothing_left false 0 [] 5 3 Callbacks.default _ s hs).mpr
    (by decide +kernel)

end ServerRun

end ReactorNet
