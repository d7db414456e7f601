import ReactorNet.ChannelAfterDestroy
import ReactorNet.PooledServer

/-!
# The server with its loops, seen from one connection

A step that one connection takes in the pool is the step it takes in its view, and the views
of all other connections stay alike: they know the same functors, events and calls. So what
is known of a server with a single connection holds of each connection of the pool.
-/
namespace ReactorNet

namespace EventLoop

variable {F G : Type*}

/-- `l'` is `l` with functors queued behind. -/
structure Appends (l l' : EventLoop F) : Prop where
  phase : l'.phase = l.phase
  pending : ∃ fs, l'.pendingFunctors_ = l.pendingFunctors_ ++ fs

theorem Appends.refl (l : EventLoop F) : Appends l l := ⟨rfl, [], (List.append_nil _).symm⟩

theorem Appends.trans {l l' l'' : EventLoop F} (h : Appends l l') (h' : Appends l' l'') :
    Appends l l'' := by
  obtain ⟨fs, hfs⟩ := h.pending
  obtain ⟨gs, hgs⟩ := h'.pending
  exact ⟨h'.phase.trans h.phase, fs ++ gs, by rw [hgs, hfs, List.append_assoc]⟩

theorem appends_queueInLoop (l : EventLoop F) (b : Bool) (f : F) :
    Appends l (l.queueInLoop b f) := by
  refine ⟨phase_queueInLoop l b f, [f], ?_⟩
  simp only [queueInLoop]
  split <;> rfl

/-- Where the phase is the same, so is the batch that is being run. -/
theorem appends_of_queued {l l' : EventLoop F} {fs : List F} (hp : l'.phase = l.phase)
    (hq : l'.queued = l.queued ++ fs) : Appends l l' := by
  refine ⟨hp, fs, ?_⟩
  have hfunctors : l'.functors = l.functors := by simp only [functors, hp]
  rw [queued, queued, hfunctors, List.append_assoc] at hq
  exact List.append_cancel_left hq

@[simp] theorem queued_select (l : EventLoop F) (p : F → Option G) :
    (l.select p).queued = l.queued.filterMap p := by
  obtain ⟨phase, pending, fd⟩ := l
  cases phase <;> simp [select, queued, functors]

@[simp] theorem handlingEvents_select (l : EventLoop F) (p : F → Option G) :
    (l.select p).handlingEvents = l.handlingEvents := by
  obtain ⟨phase, pending, fd⟩ := l
  cases phase <;> rfl

theorem act_select {l l' : EventLoop F} {a : LoopAction} (p : F → Option G)
    (h : l.act a = some l') : (l.select p).act a = some (l'.select p) := by
  cases turns_act h <;> rfl

theorem next_select {l l' : EventLoop F} {f : F} {g : G} {p : F → Option G}
    (h : l.next = some (f, l')) (hp : p f = some g) :
    (l.select p).next = some (g, l'.select p) := by
  obtain ⟨fs, hphase, rfl⟩ := next_cases h
  simp [select, hphase, next, hp]

end EventLoop

open EventLoop (Appends)

namespace ServerLoop

variable {F : Type*} {p : LoopFunctor → Option F} {tag : F → LoopFunctor}

/-- What is pushed is what the loop has been given since. -/
theorem select_push (s : ServerLoop) {l : EventLoop F} (hp : ∀ f, p (tag f) = some f)
    (h : Appends (s.queue.select p) l) : (s.push p tag l).queue.select p = l := by
  obtain ⟨hphase, fs, hpending⟩ := h
  obtain ⟨phase, pending, fd⟩ := l
  simp only [EventLoop.select] at hphase hpending
  subst hpending
  have hfs : (fs.map tag).filterMap p = fs := by
    rw [List.filterMap_map]
    exact (List.filterMap_congr fun f _ => hp f).trans List.filterMap_some
  simp [push, EventLoop.select, hphase, hfs]

theorem queued_push (s : ServerLoop) (p : LoopFunctor → Option F) (tag : F → LoopFunctor)
    (l : EventLoop F) : (s.push p tag l).queue.queued = s.queue.queued ++
      (l.pendingFunctors_.drop (s.queue.pendingFunctors_.filterMap p).length).map tag := by
  simp [push, EventLoop.queued, EventLoop.functors]

/-- Functors that someone does not know are pushed unseen. -/
theorem filterMap_push {G : Type*} {q : LoopFunctor → Option G} (s : ServerLoop)
    (p : LoopFunctor → Option F) (l : EventLoop F) (hq : ∀ f, q (tag f) = none) :
    (s.push p tag l).queue.queued.filterMap q = s.queue.queued.filterMap q := by
  rw [queued_push, List.filterMap_append]
  have hnil (fs : List F) : (fs.map tag).filterMap q = [] := by
    rw [List.filterMap_map]
    exact List.filterMap_eq_nil_iff.mpr fun f _ => hq f
  rw [hnil, List.append_nil]

/-- The loop looks the same to the connection, except for its phase. -/
structure Looks (c : ℕ) (s t : ServerLoop) : Prop where
  functors : t.queue.queued.filterMap (LoopFunctor.ofConn c) =
    s.queue.queued.filterMap (LoopFunctor.ofConn c)
  removals : t.queue.queued.filterMap (LoopFunctor.removalOf c) =
    s.queue.queued.filterMap (LoopFunctor.removalOf c)
  active : t.activeChannels_.lookup c = s.activeChannels_.lookup c
  todo : (t.todo.filterMap fun p => if p.1 = c then some p.2 else none) =
    s.todo.filterMap fun p => if p.1 = c then some p.2 else none

theorem Looks.refl (c : ℕ) (s : ServerLoop) : Looks c s s := ⟨rfl, rfl, rfl, rfl⟩

end ServerLoop

namespace ServerRun

/-! ## States of a connection that are alike -/

/-- The connection cannot tell the two states apart, except by the phases of the loops and by
the other names in the map. -/
structure Alike (x z : ServerRun) : Prop where
  conn : z.conn = { x.conn with loop_ := z.conn.loop_ }
  queued : z.conn.loop_.queued = x.conn.loop_.queued
  removals : z.server.loop_.queued = x.server.loop_.queued
  registered : x.conn.name_ ∈ z.server.connections_ ↔ x.conn.name_ ∈ x.server.connections_
  nextConnId : x.server.nextConnId_ ≤ z.server.nextConnId_
  active : z.active = x.active
  todo : z.todo = x.todo
  callers : z.callers = x.callers
  trace : z.trace = x.trace
  handled : z.conn.loop_.handlingEvents = false → z.active = none ∧ z.todo = []

theorem Alike.lifecycle_eq {x z : ServerRun} (h : Alike x z) : z.lifecycle = x.lifecycle := by
  have hname : z.conn.name_ = x.conn.name_ := by rw [h.conn]
  simp only [lifecycle, hname, h.registered, h.queued, h.removals, h.trace]

theorem Alike.trans {x y z : ServerRun} (h : Alike x y) (h' : Alike y z) : Alike x z where
  conn := by
    rw [h'.conn, h.conn]
  queued := h'.queued.trans h.queued
  removals := h'.removals.trans h.removals
  registered := by
    have hname : y.conn.name_ = x.conn.name_ := by rw [h.conn]
    exact (hname ▸ h'.registered).trans h.registered
  nextConnId := Nat.le_trans h.nextConnId h'.nextConnId
  active := h'.active.trans h.active
  todo := h'.todo.trans h.todo
  callers := h'.callers.trans h.callers
  trace := h'.trace.trans h.trace
  handled := h'.handled

/-- The connection has been closed once at most, and its channel is out of the poller's map
when it has been destroyed. -/
structure Tended (x : ServerRun) : Prop where
  watched : x.Watched
  unregistered : x.destroyed → x.conn.channel_.entry = none
  closedOnce : x.lifecycle.ClosedOnce

theorem Watched.alike {x z : ServerRun} (h : x.Watched) (ha : Alike x z) : z.Watched := by
  have hlife := ha.lifecycle_eq
  have hname : z.conn.name_ = x.conn.name_ := by rw [ha.conn]
  have hstate : z.conn.state_ = x.conn.state_ := by rw [ha.conn]
  have hchannel : z.conn.channel_ = x.conn.channel_ := by rw [ha.conn]
  refine ⟨⟨?_, ?_, ?_⟩, ?_, ha.handled, ?_⟩
  · rw [hlife]
    exact h.good.sound
  · rw [hname]
    exact Nat.lt_of_lt_of_le h.good.name_lt ha.nextConnId
  · refine h.good.stage.imp (fun hc => ?_) fun he => ?_
    · exact ⟨ha.queued.trans hc.queued, ha.removals.trans hc.removals, hstate.trans hc.state,
        by rw [hchannel, hc.interest], ha.active.trans hc.active, ha.todo.trans hc.todo,
        fun t => by rw [ha.callers, hc.callers]⟩
    · refine ⟨by rw [ha.queued, he.queued], hstate ▸ he.state, fun hasserts => ?_⟩
      rw [hlife] at hasserts
      exact hstate ▸ he.open_ hasserts
  · rw [hchannel]
    exact h.coherent
  · intro hd he
    rw [destroyed, hlife] at hd
    rw [hchannel] at he
    obtain ⟨hactive, htodo, hdown, hevents⟩ := h.detached hd he
    exact ⟨ha.active.trans hactive, ha.todo.trans htodo, hstate ▸ hdown, hchannel ▸ hevents⟩

theorem Tended.alike {x z : ServerRun} (h : x.Tended) (ha : Alike x z) : z.Tended := by
  refine ⟨h.watched.alike ha, fun hd => ?_, ?_⟩
  · rw [destroyed, ha.lifecycle_eq] at hd
    rw [ha.conn]
    exact h.unregistered hd
  · rw [ha.lifecycle_eq]
    exact h.closedOnce

theorem Tended.step {x y : ServerRun} {a : ServerAction} (h : x.Tended) (ho : OwnedOnClose x a)
    (hn : NothingLeftToUpdate x a) (hs : x.step a = some y) : y.Tended := by
  obtain ⟨hwatched, hunregistered⟩ := h.watched.keeps h.unregistered hs
  exact ⟨hwatched, hunregistered.mpr hn, (h.watched.good.ownedOnClose_iff h.closedOnce hs).mpr ho⟩

/-! ## What a step of a connection does to the loops -/

/-- A step of the connection that only queues: nothing is taken from a queue, and no other
name is touched. -/
structure Acts (x y : ServerRun) : Prop where
  conn : Appends x.conn.loop_ y.conn.loop_
  base : Appends x.server.loop_ y.server.loop_
  shared : x.sharedLoop = true → y.server.loop_ = x.server.loop_
  sharedLoop : y.sharedLoop = x.sharedLoop
  nextConnId : y.server.nextConnId_ = x.server.nextConnId_
  name : y.conn.name_ = x.conn.name_
  others : ∀ d, d ≠ x.conn.name_ → (d ∈ y.server.connections_ ↔ d ∈ x.server.connections_)
  subset : ∀ d ∈ y.server.connections_, d ∈ x.server.connections_
  active : y.active = x.active
  todo : y.todo = x.todo

theorem Acts.trans {x y z : ServerRun} (h : Acts x y) (h' : Acts y z) : Acts x z where
  conn := h.conn.trans h'.conn
  base := h.base.trans h'.base
  shared hs := (h'.shared (h.sharedLoop.trans hs)).trans (h.shared hs)
  sharedLoop := h'.sharedLoop.trans h.sharedLoop
  nextConnId := h'.nextConnId.trans h.nextConnId
  name := h'.name.trans h.name
  others d hd := (h'.others d (h.name ▸ hd)).trans (h.others d hd)
  subset d hd := h.subset d (h'.subset d hd)
  active := h'.active.trans h.active
  todo := h'.todo.trans h.todo

/-- A step that changes nothing but the connection, and what no loop sees. -/
theorem acts_of_conn {x y : ServerRun} (hq : Appends x.conn.loop_ y.conn.loop_)
    (hn : y.conn.name_ = x.conn.name_) (hs : y.server = x.server)
    (hl : y.sharedLoop = x.sharedLoop) (ha : y.active = x.active) (ht : y.todo = x.todo) :
    Acts x y where
  conn := hq
  base := by
    rw [hs]
    exact Appends.refl _
  shared _ := by rw [hs]
  sharedLoop := hl
  nextConnId := by rw [hs]
  name := hn
  others d _ := by rw [hs]
  subset d hd := hs ▸ hd
  active := ha
  todo := ht

theorem appends_of_queues {c c' : TcpConnection} {fs : List ConnFunctor}
    (h : TcpConnection.Queues c c' fs) : Appends c.loop_ c'.loop_ :=
  EventLoop.appends_of_queued h.phase h.queued

theorem acts_removeConnectionInLoop (x : ServerRun) : Acts x x.removeConnectionInLoop where
  conn := EventLoop.appends_queueInLoop _ _ _
  base := Appends.refl _
  shared _ := rfl
  sharedLoop := rfl
  nextConnId := rfl
  name := rfl
  others d hd := by simp [removeConnectionInLoop, hd]
  subset d hd := List.mem_of_mem_filter hd
  active := rfl
  todo := rfl

theorem acts_removeConnection (x : ServerRun) : Acts x x.removeConnection := by
  rw [removeConnection]
  split
  · exact acts_removeConnectionInLoop x
  · have hq := EventLoop.appends_queueInLoop x.server.loop_ false .removeConnectionInLoop
    exact ⟨Appends.refl _, hq, fun h => absurd h ‹_›, rfl, rfl, rfl, fun _ _ => Iff.rfl,
      fun _ h => h, rfl, rfl⟩

theorem acts_handleClose (x : ServerRun) : Acts x x.handleClose := by
  rw [handleClose]
  refine Acts.trans ?_ (acts_removeConnection _)
  exact acts_of_conn (Appends.refl _) rfl rfl rfl rfl rfl

theorem acts_handleRead (x : ServerRun) (delivered : Option (List UInt8)) :
    Acts x (x.handleRead delivered) := by
  have hread : Acts x { x with conn.inputBuffer_ := x.conn.inputBuffer_.readFd delivered } :=
    acts_of_conn (Appends.refl _) rfl rfl rfl rfl rfl
  rcases delivered with _ | _ | ⟨byte, bytes⟩
  · exact hread
  · exact hread.trans (acts_handleClose _)
  · exact acts_of_conn (Appends.refl _) rfl rfl rfl rfl rfl

theorem acts_sendInLoop (x : ServerRun) (message : List UInt8) (result : Option ℕ) :
    Acts x { x with conn := x.conn.sendInLoop message result } := by
  obtain ⟨fs, hs⟩ := x.conn.sendInLoop_spec message result
  exact acts_of_conn (appends_of_queues hs.queues) hs.queues.name rfl rfl rfl rfl

theorem acts_handleWrite (x : ServerRun) (result : Option ℕ) :
    Acts x { x with conn := x.conn.handleWrite result } := by
  rcases x.conn.handleWrite_cases result with ⟨heq, -⟩ | ⟨n, -, -, -, heq⟩
  · rw [heq]
    exact acts_of_conn (Appends.refl _) rfl rfl rfl rfl rfl
  · rw [heq]
    split
    · obtain ⟨fs, hq, -⟩ := (x.conn.wrote n).drained_spec
      have happends := appends_of_queues hq
      exact acts_of_conn happends hq.name rfl rfl rfl rfl
    · exact acts_of_conn (Appends.refl _) rfl rfl rfl rfl rfl

theorem acts_shutdownInLoop (x : ServerRun) :
    Acts x { x with conn := x.conn.shutdownInLoop } := by
  rw [TcpConnection.shutdownInLoop_eq]
  exact acts_of_conn (Appends.refl _) rfl rfl rfl rfl rfl

theorem acts_runConnFunctor (x : ServerRun) (f : ConnFunctor) (result : Option ℕ) :
    Acts x (x.runConnFunctor f result) := by
  have hrefl : Acts x x := acts_of_conn (Appends.refl _) rfl rfl rfl rfl rfl
  cases f with
  | connectEstablished => exact acts_of_conn (Appends.refl _) rfl rfl rfl rfl rfl
  | sendInLoop message => exact acts_sendInLoop x message result
  | shutdownInLoop => exact acts_shutdownInLoop x
  | forceCloseInLoop =>
    simp only [runConnFunctor, forceCloseInLoop]
    split
    · exact acts_handleClose x
    · exact hrefl
  | connectDestroyed => exact acts_of_conn (Appends.refl _) rfl rfl rfl rfl rfl
  | writeCompleteCallback_ | highWaterMarkCallback_ size => exact hrefl

/-- A callback of the channel, after it has been taken from those that are left. -/
theorem acts_callback {x y : ServerRun} {cb : ChannelCallback} {rest : List ChannelCallback}
    {delivered : Option (List UInt8)} {result : Option ℕ} (htodo : x.todo = cb :: rest)
    (hs : x.callback delivered result = some y) : Acts { x with todo := rest } y := by
  simp only [callback, htodo, Option.some.injEq] at hs
  subst hs
  cases cb with
  | closeCallback_ => exact acts_handleClose _
  | errorCallback_ => exact acts_of_conn (Appends.refl _) rfl rfl rfl rfl rfl
  | readCallback_ => exact acts_handleRead _ delivered
  | writeCallback_ => exact acts_handleWrite { x with todo := rest } result

theorem acts_loopCall {x y : ServerRun} {call : Call} {result : Option ℕ}
    (hs : x.loopCall call result = some y) : Acts x y := by
  obtain rfl := loopCall_cases hs
  cases call with
  | send message =>
    by_cases hstate : x.conn.state_ = .kConnected
    · obtain ⟨fs, hsends⟩ := x.conn.sendInLoop_spec message result
      simp only [callInLoop, TcpConnection.send, hstate, if_true]
      exact acts_of_conn (appends_of_queues hsends.queues) hsends.queues.name rfl rfl rfl rfl
    · simp only [callInLoop, TcpConnection.send, hstate, if_false]
      exact acts_of_conn (Appends.refl _) rfl rfl rfl rfl rfl
  | shutdown =>
    simp only [callInLoop, TcpConnection.shutdown]
    split
    · rw [TcpConnection.shutdownInLoop_eq]
      exact acts_of_conn (Appends.refl _) rfl rfl rfl rfl rfl
    · exact acts_of_conn (Appends.refl _) rfl rfl rfl rfl rfl
  | forceClose =>
    simp only [callInLoop, TcpConnection.forceClose]
    split
    · exact acts_of_conn (EventLoop.appends_queueInLoop _ _ _) rfl rfl rfl rfl rfl
    · exact acts_of_conn (Appends.refl _) rfl rfl rfl rfl rfl

theorem acts_call {x y : ServerRun} {thread : ℕ} {call : Call}
    (hs : x.call thread call = some y) : Acts x y ∧ y.conn = x.conn := by
  obtain ⟨-, callers, accepted, rfl⟩ := call_cases hs
  exact ⟨acts_of_conn (Appends.refl _) rfl rfl rfl rfl rfl, rfl⟩

theorem acts_queueFromThread (x : ServerRun) (thread : ℕ) (f : ConnFunctor) :
    Acts x (x.queueFromThread thread f) := by
  have hq : Appends x.conn.loop_ (x.queueFromThread thread f).conn.loop_ :=
    EventLoop.appends_queueInLoop x.conn.loop_ false f
  exact acts_of_conn hq rfl rfl rfl rfl rfl

theorem acts_resume {x y : ServerRun} {thread : ℕ} (hs : x.resume thread = some y) : Acts x y := by
  cases hcaller : x.callers thread <;>
    simp only [resume, hcaller, Option.some.injEq, reduceCtorEq] at hs <;> subst hs
  case sendTested | shutdownStored | forceCloseStored =>
    exact acts_queueFromThread x thread _
  case shutdownTested | forceCloseTested =>
    exact acts_of_conn (Appends.refl _) rfl rfl rfl rfl rfl

end ServerRun

namespace PooledServer

open ServerRun

variable (s : PooledServer)

/-! ## The views of a state that has been put -/

theorem lookup_loop_put (c l : ℕ) (y : ServerRun) :
    ((s.put c y).loops l).activeChannels_ = (s.loops l).activeChannels_ ∧
      ((s.put c y).loops l).todo = (s.loops l).todo ∧
      ((s.put c y).loops l).exited = (s.loops l).exited ∧
      ((s.put c y).loops l).queue.phase = (s.loops l).queue.phase := by
  simp only [put]
  split
  · exact ⟨rfl, rfl, rfl, rfl⟩
  · split <;> exact ⟨rfl, rfl, rfl, rfl⟩

/-- The connection sees what has been put. -/
theorem view_put {c : ℕ} {y : ServerRun} (h : Acts (s.view c) y) : (s.put c y).view c = y := by
  obtain ⟨hactive, htodo, -, -⟩ := s.lookup_loop_put c (s.conns c).ioLoop y
  have hconn : ((s.put c y).loops (s.conns c).ioLoop).queue.select (LoopFunctor.ofConn c) =
      y.conn.loop_ := by
    simp only [put, if_true]
    exact ServerLoop.select_push _ (by simp [LoopFunctor.ofConn]) h.conn
  have hbase : (if (s.conns c).ioLoop = 0 then EventLoop.idle else
      ((s.put c y).loops 0).queue.select (LoopFunctor.removalOf c)) = y.server.loop_ := by
    by_cases hio : (s.conns c).ioLoop = 0
    · have hshared := h.shared (by simp [view, hio])
      rw [hshared]
      simp [view, hio]
    · have hb := h.base
      simp only [view, hio, if_false] at hb ⊢
      simp only [put, Ne.symm hio, if_false, if_true]
      exact ServerLoop.select_push _ (by simp [LoopFunctor.removalOf]) hb
  have hio : ((s.put c y).conns c).ioLoop = (s.conns c).ioLoop := by simp [put]
  rcases y with ⟨⟨loop, nextConnId, connections⟩, shared, conn, active, todo, callers, accepted,
    trace⟩
  simp only [view, hio, hconn, hbase, hactive, htodo]
  have hnext := h.nextConnId
  have hsharedLoop := h.sharedLoop
  have hact := h.active
  have htod := h.todo
  simp only [view] at hnext hsharedLoop hact htod
  simp [put, hnext, hsharedLoop, hact, htod]

/-! ## What is in the loops belongs there -/

def home (f : LoopFunctor) : ℕ :=
  match f with
  | .ofConnection c _ => (s.conns c).ioLoop
  | .removeConnectionInLoop _ => 0

/-- Loop `l` may look like this: it serves its own connections, and between two polls
all that has been reported is handled. -/
structure Serves (l : ℕ) (loop : ServerLoop) : Prop where
  functors : ∀ f ∈ loop.queue.queued, f.conn < s.nextConnId_ ∧ s.home f = l
  removals : ∀ c, .removeConnectionInLoop c ∈ loop.queue.queued → (s.conns c).ioLoop ≠ 0
  active : ∀ p ∈ loop.activeChannels_, p.1 < s.nextConnId_ ∧ (s.conns p.1).ioLoop = l
  todo : ∀ p ∈ loop.todo, p.1 < s.nextConnId_ ∧ (s.conns p.1).ioLoop = l
  nodup : (loop.activeChannels_.map Prod.fst).Nodup
  handled : loop.queue.handlingEvents = false → loop.activeChannels_ = [] ∧ loop.todo = []

def Placed : Prop := ∀ l, s.Serves l (s.loops l)

variable {s} {t : PooledServer}

theorem Serves.mono {l : ℕ} {loop : ServerLoop} (h : s.Serves l loop)
    (hn : s.nextConnId_ ≤ t.nextConnId_)
    (hc : ∀ c < s.nextConnId_, (t.conns c).ioLoop = (s.conns c).ioLoop) : t.Serves l loop where
  functors f hf := by
    obtain ⟨hlt, hhome⟩ := h.functors f hf
    refine ⟨Nat.lt_of_lt_of_le hlt hn, ?_⟩
    cases f with
    | ofConnection c f => exact (hc c hlt).trans hhome
    | removeConnectionInLoop c => exact hhome
  removals c hin := by
    rw [hc c (h.functors _ hin).1]
    exact h.removals c hin
  active p hp := by
    obtain ⟨hlt, hio⟩ := h.active p hp
    exact ⟨Nat.lt_of_lt_of_le hlt hn, (hc _ hlt).trans hio⟩
  todo p hp := by
    obtain ⟨hlt, hio⟩ := h.todo p hp
    exact ⟨Nat.lt_of_lt_of_le hlt hn, (hc _ hlt).trans hio⟩
  nodup := h.nodup
  handled := h.handled

theorem Placed.congr (h : s.Placed) (hl : t.loops = s.loops)
    (hn : s.nextConnId_ ≤ t.nextConnId_)
    (hc : ∀ c < s.nextConnId_, (t.conns c).ioLoop = (s.conns c).ioLoop) : t.Placed := by
  intro l
  rw [hl]
  exact (h l).mono hn hc

theorem Placed.setLoop (h : s.Placed) {l : ℕ} {loop : ServerLoop} (hl : s.Serves l loop) :
    (s.setLoop l loop).Placed := by
  intro k
  have hk : s.Serves k ((s.setLoop l loop).loops k) := by
    by_cases he : k = l
    · subst he
      simpa [PooledServer.setLoop] using hl
    · simpa [PooledServer.setLoop, he] using h k
  exact hk.mono (Nat.le_refl _) fun _ _ => rfl

theorem Placed.setQueue (h : s.Placed) {l : ℕ} {q : EventLoop LoopFunctor}
    (hq : ∀ f ∈ q.queued, f ∈ (s.loops l).queue.queued)
    (hp : q.handlingEvents = false → (s.loops l).queue.handlingEvents = false ∨
      (s.loops l).activeChannels_ = [] ∧ (s.loops l).todo = []) : (s.setQueue l q).Placed := by
  refine h.setLoop ⟨fun f hf => (h l).functors f (hq f hf), fun c hc => (h l).removals c (hq _ hc),
    (h l).active, (h l).todo, (h l).nodup, fun hphase => ?_⟩
  exact (hp hphase).elim (h l).handled id

theorem ioLoop_put (s : PooledServer) (c d : ℕ) (y : ServerRun) :
    ((s.put c y).conns d).ioLoop = (s.conns d).ioLoop := by
  by_cases hd : d = c
  · subst hd
    simp [put]
  · simp [put, hd]

theorem handlingEvents_put (s : PooledServer) (c l : ℕ) (y : ServerRun) :
    ((s.put c y).loops l).queue.handlingEvents = (s.loops l).queue.handlingEvents :=
  EventLoop.handlingEvents_congr (s.lookup_loop_put c l y).2.2.2

theorem Placed.put (h : s.Placed) {c : ℕ} (hc : c < s.nextConnId_) (y : ServerRun) :
    (s.put c y).Placed := by
  intro l
  obtain ⟨hactive, htodo, -, -⟩ := s.lookup_loop_put c l y
  have hpushed : ∀ f ∈ ((s.put c y).loops l).queue.queued, f ∈ (s.loops l).queue.queued ∨
      f.conn = c ∧ s.home f = l ∧
        (f = .removeConnectionInLoop c → (s.conns c).ioLoop ≠ 0) := by
    intro f hf
    simp only [PooledServer.put] at hf
    split at hf
    · rw [ServerLoop.queued_push, List.mem_append, List.mem_map] at hf
      rcases hf with hf | ⟨g, -, rfl⟩
      · exact Or.inl hf
      · exact Or.inr ⟨rfl, Eq.symm ‹_›, by simp⟩
    · split at hf
      · rename_i hl hzero
        rw [ServerLoop.queued_push, List.mem_append, List.mem_map] at hf
        rcases hf with hf | ⟨g, -, rfl⟩
        · exact Or.inl hf
        · exact Or.inr ⟨rfl, hzero.symm, fun _ => fun hio => hl (hzero.trans hio.symm)⟩
      · exact Or.inl hf
  have hserves : s.Serves l ((s.put c y).loops l) := by
    refine ⟨fun f hf => ?_, fun d hd => ?_, ?_, ?_, ?_, ?_⟩
    · rcases hpushed f hf with hin | ⟨hconn, hhome, -⟩
      · exact (h l).functors f hin
      · exact ⟨hconn ▸ hc, hhome⟩
    · rcases hpushed _ hd with hin | ⟨hconn, -, hio⟩
      · exact (h l).removals d hin
      · obtain rfl : d = c := hconn
        exact hio rfl
    · rw [hactive]
      exact (h l).active
    · rw [htodo]
      exact (h l).todo
    · rw [hactive]
      exact (h l).nodup
    · rw [handlingEvents_put, hactive, htodo]
      exact (h l).handled
  exact hserves.mono (Nat.le_refl _) fun d _ => ioLoop_put s c d y

/-! ## The views of the other connections -/

/-- What does not touch the loops of a connection leaves it a view that is alike. -/
theorem alike_view {d : ℕ} (ht : t.Placed)
    (hl : ∀ l, ServerLoop.Looks d (s.loops l) (t.loops l))
    (hio : (t.conns d).ioLoop = (s.conns d).ioLoop) (hc : (t.conns d).conn = (s.conns d).conn)
    (hcallers : (t.conns d).callers = (s.conns d).callers)
    (htrace : (t.conns d).trace = (s.conns d).trace)
    (hr : (s.conns d).conn.name_ ∈ t.connections_ ↔ (s.conns d).conn.name_ ∈ s.connections_)
    (hn : s.nextConnId_ ≤ t.nextConnId_) : Alike (s.view d) (t.view d) where
  conn := by simp [view, hc]
  queued := by
    simp only [view, EventLoop.queued_select, hio]
    exact (hl _).functors
  removals := by
    simp only [view, hio]
    split
    · rfl
    · simp only [EventLoop.queued_select]
      exact (hl _).removals
  registered := hr
  nextConnId := hn
  active := by
    simp only [view, hio]
    exact (hl _).active
  todo := by
    simp only [view, hio]
    exact (hl _).todo
  callers := hcallers
  trace := htrace
  handled hphase := by
    simp only [view, EventLoop.handlingEvents_select] at hphase ⊢
    obtain ⟨hactive, htodo⟩ := (ht _).handled hphase
    simp [hactive, htodo]

theorem looks_setLoop {d l : ℕ} {loop : ServerLoop} (h : ServerLoop.Looks d (s.loops l) loop)
    (k : ℕ) : ServerLoop.Looks d (s.loops k) ((s.setLoop l loop).loops k) := by
  by_cases he : k = l
  · subst he
    simpa [setLoop] using h
  · simpa [setLoop, he] using ServerLoop.Looks.refl d (s.loops k)

/-- A loop may change in what a connection does not see of it. -/
theorem alike_setLoop {d l : ℕ} {loop : ServerLoop} (ht : (s.setLoop l loop).Placed)
    (h : ServerLoop.Looks d (s.loops l) loop) :
    Alike (s.view d) ((s.setLoop l loop).view d) :=
  alike_view ht (looks_setLoop h) rfl rfl rfl rfl Iff.rfl (Nat.le_refl _)

theorem looks_put {c d : ℕ} (hd : d ≠ c) (y : ServerRun) (l : ℕ) :
    ServerLoop.Looks d (s.loops l) ((s.put c y).loops l) := by
  obtain ⟨hactive, htodo, -, -⟩ := s.lookup_loop_put c l y
  refine ⟨?_, ?_, by rw [hactive], by rw [htodo]⟩
  · simp only [put]
    split
    · exact ServerLoop.filterMap_push _ _ _ fun f => by simp [LoopFunctor.ofConn, hd.symm]
    · split
      · exact ServerLoop.filterMap_push _ _ _ fun f => by simp [LoopFunctor.ofConn]
      · rfl
  · simp only [put]
    split
    · exact ServerLoop.filterMap_push _ _ _ fun f => by simp [LoopFunctor.removalOf]
    · split
      · exact ServerLoop.filterMap_push _ _ _ fun f => by simp [LoopFunctor.removalOf, hd.symm]
      · rfl

theorem alike_put {c d : ℕ} {y : ServerRun} (h : s.Placed) (hc : c < s.nextConnId_) (hd : d ≠ c)
    (hy : Acts (s.view c) y) (hname : (s.view c).conn.name_ = c)
    (hdname : (s.view d).conn.name_ = d) : Alike (s.view d) ((s.put c y).view d) := by
  have hconns : (s.put c y).conns d = s.conns d := by simp [put, hd]
  refine alike_view (h.put hc y) (looks_put hd y) (by rw [hconns]) (by rw [hconns])
    (by rw [hconns]) (by rw [hconns]) ?_ (Nat.le_refl _)
  have hothers := hy.others d (by rw [hname]; exact hd)
  have hname' : (s.conns d).conn.name_ = d := hdname
  rw [hname']
  exact hothers

end PooledServer

end ReactorNet
