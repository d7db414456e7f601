import Mathlib.Data.Nat.Basic
import Mathlib.Data.List.Nodup
import ReactorNet.TcpServerRun

/-!
# A server with all its connections and loops

The base loop and the I/O loops of the thread pool, each with one queue and one list of
active channels for all of its connections. What one connection sees of them is a state of
`ServerRun`; a step of a connection is the step taken there, and what it queues goes to the
ends of the real queues. `~TcpServer` drops the map and then ends the I/O loops one by one,
while the base loop's thread waits for them. A call through the destroyed server, to an
ended loop or to the channel of a destroyed connection is undefined and only recorded.
-/
namespace ReactorNet

namespace EventLoop

variable {F G : Type*}

/-- The loop as it looks to one who knows only some of its functors. -/
def select (l : EventLoop F) (p : F → Option G) : EventLoop G where
  phase := match l.phase with
    | .polling => .polling
    | .handlingEvents => .handlingEvents
    | .callingPendingFunctors fs => .callingPendingFunctors (fs.filterMap p)
  pendingFunctors_ := l.pendingFunctors_.filterMap p
  wakeupFd_ := l.wakeupFd_

def polling (l : EventLoop F) : Bool :=
  match l.phase with
  | .polling => true
  | _ => false

end EventLoop

/-- A functor in the queue of a loop; both kinds hold a pointer to the connection. -/
inductive LoopFunctor where
  | ofConnection (conn : ℕ) (f : ConnFunctor)
  | removeConnectionInLoop (conn : ℕ)
deriving DecidableEq

namespace LoopFunctor

def conn : LoopFunctor → ℕ
  | .ofConnection c _ => c
  | .removeConnectionInLoop c => c

/-- The functor as the loop of the connection knows it. -/
def ofConn (c : ℕ) : LoopFunctor → Option ConnFunctor
  | .ofConnection d f => if d = c then some f else none
  | .removeConnectionInLoop _ => none

/-- The functor as the base loop knows it for the connection. -/
def removalOf (c : ℕ) : LoopFunctor → Option ServerFunctor
  | .ofConnection _ _ => none
  | .removeConnectionInLoop d => if d = c then some .removeConnectionInLoop else none

end LoopFunctor

/-- A loop with what its poller has reported and what is left of the `handleEvent` that is
running. -/
structure ServerLoop where
  queue : EventLoop LoopFunctor
  activeChannels_ : List (ℕ × Revents)
  todo : List (ℕ × ChannelCallback)
  exited : Bool

namespace ServerLoop

def idle : ServerLoop := ⟨EventLoop.idle, [], [], false⟩

/-- The loop after the part of its queue that is selected by `p` has become `l`; `tag` is
the inverse of `p`. -/
def push {F : Type*} (s : ServerLoop) (p : LoopFunctor → Option F) (tag : F → LoopFunctor)
    (l : EventLoop F) : ServerLoop :=
  { s with queue := { s.queue with
      pendingFunctors_ := s.queue.pendingFunctors_ ++
        (l.pendingFunctors_.drop (s.queue.pendingFunctors_.filterMap p).length).map tag
      wakeupFd_ := l.wakeupFd_ } }

end ServerLoop

/-- A connection with the loop it was given, whether its `closeCallback_` is bound to the
server, and the threads that are inside a call on it. The queue of its loop is kept with the
loop, not in `conn.loop_`. -/
structure ServedConnection where
  ioLoop : ℕ
  conn : TcpConnection
  closeCallback_ : Bool
  callers : ℕ → CallState
  calling : List ℕ
  accepted : List (List UInt8)
  trace : List ConnEvent

/-- How far `~TcpServer` has got; `joining l` waits for the thread of loop `l`. -/
inductive Destructor where
  | notCalled
  | joining (loop : ℕ)
  | finished
deriving DecidableEq

/-- Loop 0 is the base loop, the loops from 1 to `numThreads_` are those of the pool; `kept`
are the pointers to connections that the user has copied. -/
structure PooledServer where
  numThreads_ : ℕ
  next_ : ℕ
  nextConnId_ : ℕ
  connections_ : List ℕ
  loops : ℕ → ServerLoop
  conns : ℕ → ServedConnection
  kept : List ℕ
  destructor : Destructor
  undefined : Bool

inductive PooledAction where
  | newConnection (sockfd : ℕ) (callbacks : Callbacks)
  | poll (l : ℕ) (revents : List (ℕ × Revents))
  | handleEvent (l : ℕ)
  | callback (l : ℕ) (delivered : Option (List UInt8)) (result : Option ℕ)
  | loop (l : ℕ) (a : LoopAction)
  | runFunctor (l : ℕ) (result : Option ℕ)
  | loopCall (c : ℕ) (call : Call) (result : Option ℕ)
  | call (c thread : ℕ) (call : Call)
  | resume (c thread : ℕ)
  | keep (c : ℕ)
  | release (c : ℕ)
  | destroy
  | exit (l : ℕ)

namespace PooledServer

/-- A server that has been started with its I/O threads. -/
def started (numThreads : ℕ) : PooledServer where
  numThreads_ := numThreads
  next_ := 0
  nextConnId_ := 0
  connections_ := []
  loops := fun _ => ServerLoop.idle
  conns := fun c => ⟨0, TcpConnection.construct EventLoop.idle c c 0 Callbacks.default, false,
    fun _ => .idle, [], [], []⟩
  kept := []
  destructor := .notCalled
  undefined := false

variable (s : PooledServer)

def setLoop (l : ℕ) (loop : ServerLoop) : PooledServer :=
  { s with loops := Function.update s.loops l loop }

def setQueue (l : ℕ) (queue : EventLoop LoopFunctor) : PooledServer :=
  s.setLoop l { s.loops l with queue := queue }

def fault : PooledServer := { s with undefined := true }

/-- Someone holds a pointer to the connection: the map, the user, a thread in a call or a
functor. A connection that nobody holds has been destroyed. -/
def owned (c : ℕ) : Bool :=
  decide (c ∈ s.connections_ ∨ c ∈ s.kept ∨ (s.conns c).calling ≠ [] ∨
    ∃ l < s.numThreads_ + 1, ∃ f ∈ (s.loops l).queue.queued, f.conn = c)

/-- The thread of the loop is not inside `~TcpServer` and has not ended. -/
def runs (l : ℕ) : Bool :=
  decide (l ≤ s.numThreads_) && !(s.loops l).exited &&
    (decide (l ≠ 0) || decide (s.destructor = .notCalled) || decide (s.destructor = .finished))

/-! ## What one connection sees -/

def view (c : ℕ) : ServerRun where
  server := {
    loop_ := if (s.conns c).ioLoop = 0 then EventLoop.idle
      else (s.loops 0).queue.select (LoopFunctor.removalOf c)
    nextConnId_ := s.nextConnId_
    connections_ := s.connections_ }
  sharedLoop := decide ((s.conns c).ioLoop = 0)
  conn := { (s.conns c).conn with
    loop_ := (s.loops (s.conns c).ioLoop).queue.select (LoopFunctor.ofConn c) }
  active := (s.loops (s.conns c).ioLoop).activeChannels_.lookup c
  todo := (s.loops (s.conns c).ioLoop).todo.filterMap fun p =>
    if p.1 = c then some p.2 else none
  callers := (s.conns c).callers
  accepted := (s.conns c).accepted
  trace := (s.conns c).trace

/-- Bring the server to a state in which the connection sees `y`. -/
def put (c : ℕ) (y : ServerRun) : PooledServer :=
  { s with
    connections_ := y.server.connections_
    conns := Function.update s.conns c { s.conns c with
      conn := { y.conn with loop_ := EventLoop.idle }
      callers := y.callers
      accepted := y.accepted
      trace := y.trace }
    loops := fun l =>
      if l = (s.conns c).ioLoop then
        (s.loops l).push (LoopFunctor.ofConn c) (.ofConnection c) y.conn.loop_
      else if l = 0 then
        (s.loops l).push (LoopFunctor.removalOf c) (fun _ => .removeConnectionInLoop c)
          y.server.loop_
      else s.loops l }

/-- The step of a connection needs something that is no more: the server on whose
`removeConnection` its `closeCallback_` ends, or the loop it wants to queue a functor in. -/
def dangles (c : ℕ) (a : ServerAction) (y : ServerRun) : Bool :=
  ((s.view c).entersHandleClose a && decide (s.destructor = .finished)) ||
    ((s.loops (s.conns c).ioLoop).exited &&
      decide (y.conn.loop_.pendingFunctors_ ≠ (s.view c).conn.loop_.pendingFunctors_))

/-- The connection takes a step; `next` is the state whose loops have already been asked for
it. -/
def serve (next : PooledServer) (c : ℕ) (a : ServerAction) : Option PooledServer :=
  ((s.view c).step a).map fun y => if s.dangles c a y then next.fault else next.put c y

/-! ## The server -/

/-- `EventLoopThreadPool::getNextLoop`, with the next value of `next_`. -/
def getNextLoop : ℕ × ℕ :=
  if s.numThreads_ = 0 then (0, s.next_)
  else (s.next_ + 1, if s.numThreads_ ≤ s.next_ + 1 then 0 else s.next_ + 1)

/-- The acceptor's channel is active in the base loop. -/
def newConnection (sockfd : ℕ) (callbacks : Callbacks) : Option PooledServer :=
  if s.destructor = .notCalled ∧ (s.loops 0).queue.handlingEvents = true then
    let ioLoop := s.getNextLoop.1
    let created := ServerRun.newConnection (decide (ioLoop = 0)) s.nextConnId_ s.connections_
      s.nextConnId_ sockfd callbacks
    let accepted := { s with
      next_ := s.getNextLoop.2
      nextConnId_ := created.server.nextConnId_
      connections_ := created.server.connections_
      conns := Function.update s.conns s.nextConnId_ ⟨ioLoop,
        { created.conn with loop_ := EventLoop.idle }, true, created.callers, [], created.accepted,
        created.trace⟩ }
    some (if ioLoop = 0 then accepted
      else accepted.setQueue ioLoop ((s.loops ioLoop).queue.queueInLoop false
        (.ofConnection s.nextConnId_ .connectEstablished)))
  else none

/-- `~TcpServer` in the base loop's thread: `connections_` goes first, then `threadPool_`,
which asks its first loop to quit and waits for its thread. -/
def destroy : Option PooledServer :=
  if s.destructor = .notCalled then
    some { s with
      connections_ := []
      destructor := if s.numThreads_ = 0 then .finished else .joining 1 }
  else none

/-- A loop that has been asked to quit returns from `loop()`; its `EventLoop` goes, with its
poller and what is pending, and the destructor turns to the next one. -/
def exit (l : ℕ) : Option PooledServer :=
  if s.destructor = .joining l ∧ (s.loops l).queue.polling = true then
    some { s.setLoop l { s.loops l with
        queue := { (s.loops l).queue with pendingFunctors_ := [] }
        exited := true } with
      destructor := if l < s.numThreads_ then .joining (l + 1) else .finished }
  else none

/-! ## The loops -/

/-- The poller reports each channel at most once, and only one that is in the kernel's set. -/
def poll (l : ℕ) (revents : List (ℕ × Revents)) : Option PooledServer :=
  if s.runs l = true ∧ (revents.map Prod.fst).Nodup ∧ ∀ p ∈ revents,
      p.1 < s.nextConnId_ ∧ (s.conns p.1).ioLoop = l ∧
        ∃ e ∈ (s.conns p.1).conn.channel_.interest, e.2.admits p.2 = true then
    ((s.loops l).queue.act .poll).map fun q =>
      s.setLoop l { s.loops l with queue := q, activeChannels_ := revents }
  else none

def handleEvent (l : ℕ) : Option PooledServer :=
  if s.runs l then
    match (s.loops l).activeChannels_, (s.loops l).todo with
    | (c, r) :: rest, [] =>
      let next := s.setLoop l { s.loops l with activeChannels_ := rest }
      some (if s.owned c then
        s.setLoop l { s.loops l with activeChannels_ := rest, todo := r.callbacks.map (c, ·) }
        else next.fault)
    | _, _ => none
  else none

def callback (l : ℕ) (delivered : Option (List UInt8)) (result : Option ℕ) :
    Option PooledServer :=
  if s.runs l then
    match (s.loops l).todo with
    | (c, _) :: rest =>
      let next := s.setLoop l { s.loops l with todo := rest }
      if s.owned c then s.serve next c (.callback delivered result) else some next.fault
    | [] => none
  else none

def loopAct (l : ℕ) (a : LoopAction) : Option PooledServer :=
  if s.runs l = true ∧ a ≠ .poll ∧ (a = .doPendingFunctors →
      (s.loops l).activeChannels_ = [] ∧ (s.loops l).todo = []) then
    ((s.loops l).queue.act a).map fun q => s.setQueue l q
  else none

def runFunctor (l : ℕ) (result : Option ℕ) : Option PooledServer :=
  if s.runs l then
    match (s.loops l).queue.next with
    | some (.ofConnection c _, q) => s.serve (s.setQueue l q) c (.runFunctor result)
    | some (.removeConnectionInLoop c, q) =>
      if s.destructor = .notCalled then s.serve (s.setQueue l q) c .baseFunctor
      else some (s.setQueue l q).fault
    | none => none
  else none

/-! ## The user -/

/-- A call in the thread of the connection's loop. -/
def loopCall (c : ℕ) (call : Call) (result : Option ℕ) : Option PooledServer :=
  if s.runs (s.conns c).ioLoop = true ∧ c < s.nextConnId_ ∧ s.owned c = true then
    s.serve s c (.loopCall call result)
  else none

def setCalling (c thread : ℕ) : PooledServer :=
  { s with conns := Function.update s.conns c { s.conns c with
      calling := if (s.conns c).callers thread = .idle then (s.conns c).calling.erase thread
        else (s.conns c).calling.insert thread } }

def call (c thread : ℕ) (call : Call) : Option PooledServer :=
  if c < s.nextConnId_ ∧ s.owned c = true then
    (s.serve s c (.call thread call)).map fun t => t.setCalling c thread
  else none

def resume (c thread : ℕ) : Option PooledServer :=
  if c < s.nextConnId_ then
    (s.serve s c (.resume thread)).map fun t => t.setCalling c thread
  else none

def keep (c : ℕ) : Option PooledServer :=
  if c < s.nextConnId_ ∧ s.owned c = true then some { s with kept := c :: s.kept } else none

def release (c : ℕ) : Option PooledServer :=
  if c ∈ s.kept then some { s with kept := s.kept.erase c } else none

def step (a : PooledAction) : Option PooledServer :=
  match a with
  | .newConnection sockfd callbacks => s.newConnection sockfd callbacks
  | .poll l revents => s.poll l revents
  | .handleEvent l => s.handleEvent l
  | .callback l delivered result => s.callback l delivered result
  | .loop l a => s.loopAct l a
  | .runFunctor l result => s.runFunctor l result
  | .loopCall c call result => s.loopCall c call result
  | .call c thread call => s.call c thread call
  | .resume c thread => s.resume c thread
  | .keep c => s.keep c
  | .release c => s.release c
  | .destroy => s.destroy
  | .exit l => s.exit l

/-- The connection that takes a step, and its step. -/
def connectionStep (a : PooledAction) : Option (ℕ × ServerAction) :=
  match a with
  | .callback l delivered result =>
    (s.loops l).todo.head?.map fun p => (p.1, .callback delivered result)
  | .runFunctor l result => (s.loops l).queue.next.map fun p =>
    match p.1 with
    | .ofConnection c _ => (c, .runFunctor result)
    | .removeConnectionInLoop c => (c, .baseFunctor)
  | .loopCall c call result => some (c, .loopCall call result)
  | .call c thread call => some (c, .call thread call)
  | .resume c thread => some (c, .resume thread)
  | _ => none

/-! ## What the steps do -/

variable {s} {t : PooledServer} {l c : ℕ}

/-- A connection that takes a step takes it in its view. -/
theorem serve_cases {n : PooledServer} {a : ServerAction} (hs : s.serve n c a = some t) :
    ∃ y, (s.view c).step a = some y ∧ t = if s.dangles c a y then n.fault else n.put c y := by
  simp only [serve, Option.map_eq_some_iff] at hs
  obtain ⟨y, hy, rfl⟩ := hs
  exact ⟨y, hy, rfl⟩

theorem poll_cases {revents : List (ℕ × Revents)} (hs : s.poll l revents = some t) :
    (revents.map Prod.fst).Nodup ∧ (∀ p ∈ revents, p.1 < s.nextConnId_ ∧
      (s.conns p.1).ioLoop = l ∧
        ∃ e ∈ (s.conns p.1).conn.channel_.interest, e.2.admits p.2 = true) ∧
      ∃ q, (s.loops l).queue.act .poll = some q ∧
        t = s.setLoop l { s.loops l with queue := q, activeChannels_ := revents } := by
  simp only [poll, Option.ite_none_right_eq_some, Option.map_eq_some_iff] at hs
  obtain ⟨⟨-, hnodup, hrevents⟩, q, hq, rfl⟩ := hs
  exact ⟨hnodup, hrevents, q, hq, rfl⟩

theorem handleEvent_cases (hs : s.handleEvent l = some t) :
    ∃ c r rest, (s.loops l).activeChannels_ = (c, r) :: rest ∧ (s.loops l).todo = [] ∧
      t = if s.owned c then
        s.setLoop l { s.loops l with activeChannels_ := rest, todo := r.callbacks.map (c, ·) }
      else (s.setLoop l { s.loops l with activeChannels_ := rest }).fault := by
  simp only [handleEvent, Option.ite_none_right_eq_some] at hs
  obtain ⟨-, hs⟩ := hs
  split at hs
  · rename_i c r rest hactive htodo
    exact ⟨c, r, rest, hactive, htodo, (Option.some.inj hs).symm⟩
  · simp at hs

theorem callback_cases {delivered : Option (List UInt8)} {result : Option ℕ}
    (hs : s.callback l delivered result = some t) :
    s.runs l = true ∧ ∃ c cb rest, (s.loops l).todo = (c, cb) :: rest ∧
      (s.owned c = true ∧ s.serve (s.setLoop l { s.loops l with todo := rest }) c
          (.callback delivered result) = some t ∨
        s.owned c = false ∧ t = (s.setLoop l { s.loops l with todo := rest }).fault) := by
  simp only [callback, Option.ite_none_right_eq_some] at hs
  obtain ⟨hruns, hs⟩ := hs
  rcases htodo : (s.loops l).todo with _ | ⟨⟨c, cb⟩, rest⟩
  · simp [htodo] at hs
  · refine ⟨hruns, c, cb, rest, rfl, ?_⟩
    simp only [htodo] at hs
    cases howned : s.owned c with
    | true => simpa [howned] using hs
    | false => simpa [howned, eq_comm] using hs

theorem loopAct_cases {a : LoopAction} (hs : s.loopAct l a = some t) :
    a ≠ .poll ∧ (a = .doPendingFunctors →
      (s.loops l).activeChannels_ = [] ∧ (s.loops l).todo = []) ∧
      ∃ q, (s.loops l).queue.act a = some q ∧ t = s.setQueue l q := by
  simp only [loopAct, Option.ite_none_right_eq_some, Option.map_eq_some_iff] at hs
  obtain ⟨⟨-, hpoll, hpending⟩, q, hq, rfl⟩ := hs
  exact ⟨hpoll, hpending, q, hq, rfl⟩

/-- The functor of a connection runs, or a `removeConnectionInLoop` on the server. -/
theorem runFunctor_cases {result : Option ℕ} (hs : s.runFunctor l result = some t) :
    s.runs l = true ∧ ∃ c q,
      ((∃ f, (s.loops l).queue.next = some (.ofConnection c f, q) ∧
          s.serve (s.setQueue l q) c (.runFunctor result) = some t) ∨
        (s.loops l).queue.next = some (.removeConnectionInLoop c, q) ∧
          (s.destructor = .notCalled ∧ s.serve (s.setQueue l q) c .baseFunctor = some t ∨
            s.destructor ≠ .notCalled ∧ t = (s.setQueue l q).fault)) := by
  simp only [runFunctor, Option.ite_none_right_eq_some] at hs
  obtain ⟨hruns, hs⟩ := hs
  refine ⟨hruns, ?_⟩
  rcases hnext : (s.loops l).queue.next with _ | ⟨_ | c, q⟩
  · simp [hnext] at hs
  · simp only [hnext] at hs
    exact ⟨_, q, Or.inl ⟨_, rfl, hs⟩⟩
  · simp only [hnext] at hs
    refine ⟨c, q, Or.inr ⟨rfl, ?_⟩⟩
    by_cases hcalled : s.destructor = .notCalled
    · exact Or.inl ⟨hcalled, by simpa [hcalled] using hs⟩
    · exact Or.inr ⟨hcalled, by simpa [hcalled, eq_comm] using hs⟩

theorem loopCall_cases {call : Call} {result : Option ℕ} (hs : s.loopCall c call result = some t) :
    s.runs (s.conns c).ioLoop = true ∧ c < s.nextConnId_ ∧
      s.serve s c (.loopCall call result) = some t := by
  simp only [loopCall, Option.ite_none_right_eq_some] at hs
  exact ⟨hs.1.1, hs.1.2.1, hs.2⟩

theorem call_cases {thread : ℕ} {call : Call} (hs : s.call c thread call = some t) :
    c < s.nextConnId_ ∧ ∃ u, s.serve s c (.call thread call) = some u ∧
      t = u.setCalling c thread := by
  simp only [PooledServer.call, Option.ite_none_right_eq_some, Option.map_eq_some_iff] at hs
  obtain ⟨⟨hc, -⟩, u, hu, rfl⟩ := hs
  exact ⟨hc, u, hu, rfl⟩

theorem resume_cases {thread : ℕ} (hs : s.resume c thread = some t) :
    c < s.nextConnId_ ∧ ∃ u, s.serve s c (.resume thread) = some u ∧
      t = u.setCalling c thread := by
  simp only [resume, Option.ite_none_right_eq_some, Option.map_eq_some_iff] at hs
  obtain ⟨hc, u, hu, rfl⟩ := hs
  exact ⟨hc, u, hu, rfl⟩

theorem destroy_cases (hs : s.destroy = some t) : s.destructor = .notCalled ∧ t = { s with
    connections_ := []
    destructor := if s.numThreads_ = 0 then .finished else .joining 1 } := by
  simp only [destroy, Option.ite_none_right_eq_some, Option.some.injEq] at hs
  exact ⟨hs.1, hs.2.symm⟩

theorem exit_cases (hs : s.exit l = some t) :
    s.destructor = .joining l ∧ (s.loops l).queue.polling = true ∧
      t = { s.setLoop l { s.loops l with
          queue := { (s.loops l).queue with pendingFunctors_ := [] }
          exited := true } with
        destructor := if l < s.numThreads_ then .joining (l + 1) else .finished } := by
  simp only [exit, Option.ite_none_right_eq_some, Option.some.injEq] at hs
  exact ⟨hs.1.1, hs.1.2, hs.2.symm⟩

theorem keep_cases (hs : s.keep c = some t) :
    c < s.nextConnId_ ∧ t = { s with kept := c :: s.kept } := by
  simp only [keep, Option.ite_none_right_eq_some, Option.some.injEq] at hs
  exact ⟨hs.1.1, hs.2.symm⟩

theorem release_cases (hs : s.release c = some t) :
    t = { s with kept := s.kept.erase c } := by
  simp only [release, Option.ite_none_right_eq_some, Option.some.injEq] at hs
  exact hs.2.symm

end PooledServer

end ReactorNet
