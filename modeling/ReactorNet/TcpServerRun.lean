import ReactorNet.GuardedRuns
import ReactorNet.TcpConnection

/-!
# A server, one of its connections, and their threads

The base loop with the server's map, the I/O loop with the connection, and any number of
other threads that call `send`, `shutdown` and `forceClose`. A call from another thread
tests `state_`, stores it and queues its functor in separate steps. The server may have
no I/O threads, and then both loops are one. The asserts are compiled out; the ones that
matter here are recorded in the trace.
-/
namespace ReactorNet

/-- The functor that the base loop is given for the connection. -/
inductive ServerFunctor where
  | removeConnectionInLoop
deriving DecidableEq

structure TcpServer where
  loop_ : EventLoop ServerFunctor
  nextConnId_ : ℕ
  connections_ : List ℕ

inductive Call where
  | send (message : List UInt8)
  | shutdown
  | forceClose
deriving DecidableEq

/-- How far a call of another thread has got. -/
inductive CallState where
  | idle
  | sendTested (message : List UInt8)
  | shutdownTested
  | shutdownStored
  | forceCloseTested
  | forceCloseStored
deriving DecidableEq

inductive ConnEvent where
  | closeCallback_
  | erased (n : ℕ)
  | connectDestroyed (asserted : Bool)
  | connectionCallback_ (connected : Bool)
deriving DecidableEq

/-- `active` is what the poller has reported for the connection and is not handled yet,
`todo` the rest of the callbacks of its `handleEvent`, `accepted` the messages for which
`send` has found the connection open; the trace has its latest event in front. -/
structure ServerRun where
  server : TcpServer
  sharedLoop : Bool
  conn : TcpConnection
  active : Option Revents
  todo : List ChannelCallback
  callers : ℕ → CallState
  accepted : List (List UInt8)
  trace : List ConnEvent

inductive ServerAction where
  | acceptOther
  | eraseOther (name : ℕ)
  | baseLoop (a : LoopAction)
  | baseFunctor
  | poll (revents : Option Revents)
  | handleEvent
  | callback (delivered : Option (List UInt8)) (result : Option ℕ)
  | loop (a : LoopAction)
  | runFunctor (result : Option ℕ)
  | loopCall (call : Call) (result : Option ℕ)
  | call (thread : ℕ) (call : Call)
  | resume (thread : ℕ)

namespace ServerRun

variable (s : ServerRun)

def record (e : ConnEvent) : ServerRun := { s with trace := e :: s.trace }

/-! ## Close -/

def removeConnectionInLoop : ServerRun :=
  let n := if s.conn.name_ ∈ s.server.connections_ then 1 else 0
  { s with
    server.connections_ := s.server.connections_.filter (· ≠ s.conn.name_)
    conn.loop_ := s.conn.loop_.queueInLoop s.sharedLoop .connectDestroyed
    trace := .erased n :: s.trace }

/-- `runInLoop` on the base loop, called in the I/O loop. -/
def removeConnection : ServerRun :=
  if s.sharedLoop then s.removeConnectionInLoop
  else { s with server.loop_ := s.server.loop_.queueInLoop false .removeConnectionInLoop }

def handleClose : ServerRun :=
  ({ s with conn := s.conn.setChannel s.conn.channel_.disableAll }.record
    .closeCallback_).removeConnection

/-- The test that `forceClose` and `forceCloseInLoop` make. -/
def open? : Bool := decide (s.conn.state_ = .kConnected ∨ s.conn.state_ = .kDisconnecting)

def forceCloseInLoop : ServerRun := if s.open? then s.handleClose else s

def handleRead (delivered : Option (List UInt8)) : ServerRun :=
  let read := { s with conn.inputBuffer_ := s.conn.inputBuffer_.readFd delivered }
  match delivered with
  | none => read
  | some [] => read.handleClose
  | some _ => { read with
      conn.inputBuffer_ := s.conn.callbacks.messageCallback_ read.conn.inputBuffer_ }

/-! ## Establishment and destruction -/

def connectEstablished : ServerRun :=
  { s with conn := s.conn.connectEstablished }.record (.connectionCallback_ true)

def connectDestroyed : ServerRun :=
  ({ s with conn := s.conn.connectDestroyed }.record (.connectionCallback_ false)).record
    (.connectDestroyed s.open?)

/-- The server has accepted the connection: `newConnection` has created it and put it into
the map, next to the names in `others`. -/
def newConnection (sharedLoop : Bool) (nextConnId : ℕ) (others : List ℕ) (this fd : ℕ)
    (callbacks : Callbacks) : ServerRun :=
  let idle : EventLoop ConnFunctor := EventLoop.idle
  let created : ServerRun := {
    server := ⟨EventLoop.idle, nextConnId + 1, nextConnId :: others⟩
    sharedLoop := sharedLoop
    conn := TcpConnection.construct (if sharedLoop then { idle with phase := .handlingEvents }
      else idle) nextConnId this fd callbacks
    active := none
    todo := []
    callers := fun _ => .idle
    accepted := []
    trace := [] }
  if sharedLoop then created.connectEstablished
  else { created with conn.loop_ := created.conn.loop_.queueInLoop false .connectEstablished }

/-! ## The base loop -/

def acceptOther : ServerRun :=
  { s with
    server.nextConnId_ := s.server.nextConnId_ + 1
    server.connections_ := s.server.nextConnId_ :: s.server.connections_ }

def eraseOther (name : ℕ) : Option ServerRun :=
  if name = s.conn.name_ then none
  else some { s with server.connections_ := s.server.connections_.filter (· ≠ name) }

def baseLoop (a : LoopAction) : Option ServerRun :=
  if s.sharedLoop then none
  else (s.server.loop_.act a).map fun l => { s with server.loop_ := l }

def baseFunctor : Option ServerRun :=
  if s.sharedLoop then none
  else match s.server.loop_.next with
    | some (.removeConnectionInLoop, l) => some { s with server.loop_ := l }.removeConnectionInLoop
    | none => none

/-! ## The I/O loop -/

/-- The poller reports only a channel that is in the kernel's set. -/
def poll (revents : Option Revents) : Option ServerRun :=
  if (∀ r ∈ revents, ∃ e ∈ s.conn.channel_.interest, e.2.admits r = true) then
    (s.conn.loop_.act .poll).map fun l => { s with conn.loop_ := l, active := revents }
  else none

def handleEvent : Option ServerRun :=
  match s.active, s.todo with
  | some r, [] => some { s with active := none, todo := r.callbacks }
  | _, _ => none

def callback (delivered : Option (List UInt8)) (result : Option ℕ) : Option ServerRun :=
  match s.todo with
  | [] => none
  | cb :: rest =>
    let s := { s with todo := rest }
    some <| match cb with
      | .closeCallback_ => s.handleClose
      | .errorCallback_ => s
      | .readCallback_ => s.handleRead delivered
      | .writeCallback_ => { s with conn := s.conn.handleWrite result }

/-- The pending functors are run when the reported events have been handled. -/
def loopAct (a : LoopAction) : Option ServerRun :=
  if a ≠ .poll ∧ (a = .doPendingFunctors → s.active = none ∧ s.todo = []) then
    (s.conn.loop_.act a).map fun l => { s with conn.loop_ := l }
  else none

def runConnFunctor (f : ConnFunctor) (result : Option ℕ) : ServerRun :=
  match f with
  | .connectEstablished => s.connectEstablished
  | .sendInLoop message => { s with conn := s.conn.sendInLoop message result }
  | .shutdownInLoop => { s with conn := s.conn.shutdownInLoop }
  | .forceCloseInLoop => s.forceCloseInLoop
  | .connectDestroyed => s.connectDestroyed
  | .writeCompleteCallback_ | .highWaterMarkCallback_ _ => s

def runFunctor (result : Option ℕ) : Option ServerRun :=
  match s.conn.loop_.next with
  | some (f, l) => some ({ s with conn.loop_ := l }.runConnFunctor f result)
  | none => none

/-! ## Calls -/

/-- A call in the I/O loop's own thread, where `runInLoop` runs its argument at once. -/
def callInLoop (call : Call) (result : Option ℕ) : ServerRun :=
  match call with
  | .send message =>
    let s := if s.conn.state_ = .kConnected then { s with accepted := s.accepted ++ [message] }
      else s
    { s with conn := s.conn.send message result }
  | .shutdown => { s with conn := s.conn.shutdown }
  | .forceClose => { s with conn := s.conn.forceClose }

/-- The loop thread runs the user's code only in the callbacks of events and functors. -/
def loopCall (call : Call) (result : Option ℕ) : Option ServerRun :=
  if s.conn.loop_.handlingEvents || s.conn.loop_.callingPendingFunctors_ then
    some (s.callInLoop call result)
  else none

def setCaller (thread : ℕ) (p : CallState) : ServerRun :=
  { s with callers := Function.update s.callers thread p }

def call (thread : ℕ) (call : Call) : Option ServerRun :=
  if s.callers thread = .idle then
    some <| match call with
      | .send message =>
        if s.conn.state_ = .kConnected then
          { s with accepted := s.accepted ++ [message] }.setCaller thread (.sendTested message)
        else s
      | .shutdown => if s.conn.state_ = .kConnected then s.setCaller thread .shutdownTested else s
      | .forceClose => if s.open? then s.setCaller thread .forceCloseTested else s
  else none

def queueFromThread (thread : ℕ) (f : ConnFunctor) : ServerRun :=
  { s with conn.loop_ := s.conn.loop_.queueInLoop false f }.setCaller thread .idle

def resume (thread : ℕ) : Option ServerRun :=
  match s.callers thread with
  | .idle => none
  | .sendTested message => some (s.queueFromThread thread (.sendInLoop message))
  | .shutdownTested =>
    some ({ s with conn := s.conn.setState .kDisconnecting }.setCaller thread .shutdownStored)
  | .shutdownStored => some (s.queueFromThread thread .shutdownInLoop)
  | .forceCloseTested =>
    some ({ s with conn := s.conn.setState .kDisconnecting }.setCaller thread .forceCloseStored)
  | .forceCloseStored => some (s.queueFromThread thread .forceCloseInLoop)

def step (a : ServerAction) : Option ServerRun :=
  match a with
  | .acceptOther => some s.acceptOther
  | .eraseOther name => s.eraseOther name
  | .baseLoop a => s.baseLoop a
  | .baseFunctor => s.baseFunctor
  | .poll revents => s.poll revents
  | .handleEvent => s.handleEvent
  | .callback delivered result => s.callback delivered result
  | .loop a => s.loopAct a
  | .runFunctor result => s.runFunctor result
  | .loopCall call result => s.loopCall call result
  | .call thread call => s.call thread call
  | .resume thread => s.resume thread

/-- Whether the step enters `handleClose`: the close callback, a read of 0 bytes, or a
forced close that finds the connection open. -/
def entersHandleClose (a : ServerAction) : Bool :=
  match a with
  | .callback delivered _ =>
    match s.todo with
    | .closeCallback_ :: _ => true
    | .readCallback_ :: _ => decide (delivered = some [])
    | _ => false
  | .runFunctor _ =>
    match s.conn.loop_.next with
    | some (.forceCloseInLoop, _) => s.open?
    | _ => false
  | _ => false

/-! ## What the steps of the loops do -/

variable {s} {s' : ServerRun}

theorem eraseOther_cases {name : ℕ} (hs : s.eraseOther name = some s') :
    name ≠ s.conn.name_ ∧
      s' = { s with server.connections_ := s.server.connections_.filter (· ≠ name) } := by
  simp only [eraseOther, Option.ite_none_left_eq_some, Option.some.injEq] at hs
  exact ⟨hs.1, hs.2.symm⟩

theorem baseLoop_cases {a : LoopAction} (hs : s.baseLoop a = some s') :
    ∃ l, s.server.loop_.act a = some l ∧ s' = { s with server.loop_ := l } := by
  simp only [baseLoop, Option.ite_none_left_eq_some, Option.map_eq_some_iff] at hs
  obtain ⟨-, l, hl, rfl⟩ := hs
  exact ⟨l, hl, rfl⟩

theorem baseFunctor_cases (hs : s.baseFunctor = some s') :
    ∃ l, s.server.loop_.queued = .removeConnectionInLoop :: l.queued ∧
      s' = { s with server.loop_ := l }.removeConnectionInLoop := by
  simp only [baseFunctor, Option.ite_none_left_eq_some] at hs
  obtain ⟨-, hs⟩ := hs
  rcases hnext : s.server.loop_.next with _ | ⟨f, l⟩
  · simp [hnext] at hs
  · simp only [hnext, Option.some.injEq] at hs
    exact ⟨l, EventLoop.queued_next hnext, hs.symm⟩

theorem poll_cases {revents : Option Revents} (hs : s.poll revents = some s') :
    (∀ r ∈ revents, ∃ e ∈ s.conn.channel_.interest, e.2.admits r = true) ∧
      ∃ l, s.conn.loop_.act .poll = some l ∧
        s' = { s with conn.loop_ := l, active := revents } := by
  simp only [poll, Option.ite_none_right_eq_some, Option.map_eq_some_iff] at hs
  obtain ⟨hadmits, l, hl, rfl⟩ := hs
  exact ⟨hadmits, l, hl, rfl⟩

theorem handleEvent_cases (hs : s.handleEvent = some s') :
    ∃ r, s.active = some r ∧ s.todo = [] ∧ s' = { s with active := none, todo := r.callbacks } := by
  rcases hactive : s.active with _ | r
  · simp [handleEvent, hactive] at hs
  · rcases htodo : s.todo with _ | ⟨cb, rest⟩
    · exact ⟨r, rfl, rfl, by simpa [handleEvent, hactive, htodo] using hs.symm⟩
    · simp [handleEvent, hactive, htodo] at hs

theorem loopAct_cases {a : LoopAction} (hs : s.loopAct a = some s') :
    a ≠ .poll ∧ (a = .doPendingFunctors → s.active = none ∧ s.todo = []) ∧
      ∃ l, s.conn.loop_.act a = some l ∧ s' = { s with conn.loop_ := l } := by
  simp only [loopAct, Option.ite_none_right_eq_some, Option.map_eq_some_iff] at hs
  obtain ⟨⟨hpoll, hpending⟩, l, hl, rfl⟩ := hs
  exact ⟨hpoll, hpending, l, hl, rfl⟩

theorem runFunctor_cases {result : Option ℕ} (hs : s.runFunctor result = some s') :
    ∃ f l, s.conn.loop_.next = some (f, l) ∧
      s' = { s with conn.loop_ := l }.runConnFunctor f result := by
  rcases hnext : s.conn.loop_.next with _ | ⟨f, l⟩
  · simp [runFunctor, hnext] at hs
  · simp only [runFunctor, hnext, Option.some.injEq] at hs
    exact ⟨f, l, rfl, hs.symm⟩

theorem loopCall_cases {call : Call} {result : Option ℕ} (hs : s.loopCall call result = some s') :
    s' = s.callInLoop call result := by
  simp only [loopCall, Option.ite_none_right_eq_some, Option.some.injEq] at hs
  exact hs.2.symm

/-- A call of another thread tests the state, and changes nothing that the loops see. -/
theorem call_cases {thread : ℕ} {call : Call} (hs : s.call thread call = some s') :
    s.callers thread = .idle ∧
      ∃ callers accepted, s' = { s with callers := callers, accepted := accepted } := by
  simp only [ServerRun.call, Option.ite_none_right_eq_some, Option.some.injEq] at hs
  obtain ⟨hidle, rfl⟩ := hs
  refine ⟨hidle, ?_⟩
  cases call with
  | send message =>
    simp only
    split <;> exact ⟨_, _, rfl⟩
  | shutdown =>
    simp only
    split <;> exact ⟨_, _, rfl⟩
  | forceClose =>
    simp only
    split <;> exact ⟨_, _, rfl⟩

end ServerRun

end ReactorNet
