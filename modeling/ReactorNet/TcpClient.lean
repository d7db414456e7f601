import ReactorNet.ConnectorAssertions
import ReactorNet.TcpConnection

/-!
# A client with its connector and its connections

One loop with one queue for the connector, the connections that the client has made of its
sockets, and the client. The connector is a state of `Connector` whose functors are kept in the
queue of the loop; the connections are numbered in the order in which they were made. The client
gives its connections a `closeCallback_` that knows it by a plain pointer.
-/
namespace ReactorNet

/-- A functor in the queue of the client's loop. -/
inductive ClientFunctor where
  | ofConnector (f : ConnectorFunctor)
  | ofConnection (conn : ℕ) (f : ConnFunctor)
  | setCloseCallback (conn : ℕ)
deriving DecidableEq

namespace ClientFunctor

/-- The functor as the connector knows it. -/
def toConnector : ClientFunctor → Option ConnectorFunctor
  | .ofConnector f => some f
  | _ => none

def conn : ClientFunctor → Option ℕ
  | .ofConnector _ => none
  | .ofConnection c _ => some c
  | .setCloseCallback c => some c

/-- A functor that can be queued before the client is destroyed, when it has made `n`
connections. -/
def Known (n : ℕ) : ClientFunctor → Prop
  | .ofConnector _ => True
  | .ofConnection c _ => c < n
  | .setCloseCallback _ => False

end ClientFunctor

/-- A channel of the client's loop. -/
inductive ClientChannel where
  | connector
  | connection (conn : ℕ)
deriving DecidableEq

/-- The `closeCallback_` of a connection: the client's, or the one that needs no client. -/
inductive CloseCallback where
  | removeConnection
  | detailRemoveConnection
deriving DecidableEq

structure ClientConnection where
  /-- The number in its name. -/
  connId : ℤ
  sockfd : ℕ
  conn : TcpConnection
  closeCallback_ : CloseCallback
  /-- History: the calls of `closeCallback_`. -/
  closes : ℕ
  /-- History: the runs of `connectDestroyed`. -/
  destroys : ℕ

structure TcpClient where
  loop_ : EventLoop ClientFunctor
  activeChannels_ : List (ClientChannel × Revents)
  /-- The rest of the callbacks of the `handleEvent` that is running. -/
  todo : List (ℕ × ChannelCallback)
  connector_ : Connector
  callbacks : Callbacks
  connection_ : Option ℕ
  conns : List ClientConnection
  retry_ : Bool
  connect_ : Bool
  nextConnId_ : ℤ
  destroyed : Bool
  /-- The timer of the destructor that keeps the connector. -/
  removeConnector : Bool
  /-- The assertion `connection_ == conn` has failed. -/
  failed : Bool
  /-- A callback of the client was called after its destruction. -/
  undefined : Bool

namespace EventLoop

variable {F : Type*}

/-- `queueInLoop` for one functor after the other, called in the loop thread. -/
def queueAll (l : EventLoop F) (fs : List F) : EventLoop F :=
  fs.foldl (fun l f => l.queueInLoop true f) l

theorem queueAll_cons (l : EventLoop F) (f : F) (fs : List F) :
    l.queueAll (f :: fs) = (l.queueInLoop true f).queueAll fs := rfl

@[simp] theorem queued_queueAll (l : EventLoop F) (fs : List F) :
    (l.queueAll fs).queued = l.queued ++ fs := by
  induction fs generalizing l with
  | nil => exact (List.append_nil _).symm
  | cons f fs ih =>
    rw [queueAll_cons, ih, queued_queueInLoop, List.append_assoc, List.singleton_append]

@[simp] theorem phase_queueAll (l : EventLoop F) (fs : List F) :
    (l.queueAll fs).phase = l.phase := by
  induction fs generalizing l with
  | nil => rfl
  | cons f fs ih => rw [queueAll_cons, ih, phase_queueInLoop]

/-- The loop as it looks to one that has nothing in its queue. -/
def emptied {G : Type*} (l : EventLoop F) : EventLoop G where
  phase := match l.phase with
    | .polling => .polling
    | .handlingEvents => .handlingEvents
    | .callingPendingFunctors _ => .callingPendingFunctors []
  pendingFunctors_ := []
  wakeupFd_ := 0

end EventLoop

/-- An event of the poller, what the loop does between two callbacks, or a call of the user.
The results of `connect()` and `write`, what `read` delivers and the answers of
`getSocketError`, `isSelfConnect` and `connection_.unique()` are arguments. -/
inductive ClientAction where
  | poll (revents : List (ClientChannel × Revents))
  | handleEvent (err selfConnect : Bool)
  | callback (delivered : Option (List UInt8)) (result : Option ℕ) (errno : ConnectErrno)
  | expire (timer : ℕ)
  | timer (timer : ℕ) (errno : ConnectErrno)
  | loop (a : LoopAction)
  | runFunctor (result : Option ℕ) (errno : ConnectErrno)
  | connect (inLoop : Bool) (errno : ConnectErrno)
  | disconnect (inLoop : Bool)
  | stop (inLoop : Bool)
  | enableRetry
  | send (conn : ℕ) (message : List UInt8) (result : Option ℕ)
  | shutdown (conn : ℕ)
  | forceClose (conn : ℕ)
  | destroy (inLoop unique : Bool)
  | removeConnector

namespace TcpClient

/-- The constructor. It leaves `nextConnId_` as it finds it. -/
def construct (nextConnId : ℤ) (callbacks : Callbacks) : TcpClient where
  loop_ := EventLoop.idle
  activeChannels_ := []
  todo := []
  connector_ := Connector.construct
  callbacks := callbacks
  connection_ := none
  conns := []
  retry_ := false
  connect_ := true
  nextConnId_ := nextConnId
  destroyed := false
  removeConnector := false
  failed := false
  undefined := false

variable (x : TcpClient)

/-- The connector with its functors. -/
def connector : Connector :=
  { x.connector_ with pendingFunctors_ := x.loop_.queued.filterMap ClientFunctor.toConnector }

/-- The client after its connector has become `y`, apart from what the connector asks of it. -/
def putConnector (y : Connector) : TcpClient :=
  { x with
    connector_ := { y with pendingFunctors_ := [] }
    loop_ := x.loop_.queueAll
      ((y.pendingFunctors_.drop x.connector.pendingFunctors_.length).map .ofConnector) }

/-! ## Connections -/

def queueInLoop (inLoop : Bool) (f : ClientFunctor) : TcpClient :=
  { x with loop_ := x.loop_.queueInLoop inLoop f }

def modifyConn (c : ℕ) (f : ClientConnection → ClientConnection) : TcpClient :=
  { x with conns := x.conns.modify c f }

/-- A connection runs a function of its own; what it queues goes to the loop. -/
def onConn (c : ℕ) (f : TcpConnection → TcpConnection) : TcpClient :=
  match x.conns[c]? with
  | none => x
  | some k =>
    let conn := f { k.conn with loop_ := x.loop_.emptied }
    { x.modifyConn c fun k => { k with conn := { conn with loop_ := EventLoop.idle } } with
      loop_ := x.loop_.queueAll (conn.loop_.pendingFunctors_.map (.ofConnection c)) }

/-- The test that `forceClose` and `forceCloseInLoop` make. -/
def open? (c : ℕ) : Bool :=
  x.conns[c]?.any fun k =>
    decide (k.conn.state_ = .kConnected ∨ k.conn.state_ = .kDisconnecting)

/-- The connector hands over a connected socket; it knows the client by a plain pointer. -/
def newConnection (sockfd : ℕ) : TcpClient :=
  if x.destroyed then { x with undefined := true }
  else
    let conn := TcpConnection.construct x.loop_.emptied x.conns.length x.conns.length sockfd
      x.callbacks
    { x with
      nextConnId_ := x.nextConnId_ + 1
      connection_ := some x.conns.length
      conns := x.conns ++ [⟨x.nextConnId_, sockfd,
        { conn.connectEstablished with loop_ := EventLoop.idle }, .removeConnection, 0, 0⟩] }

/-- The connector becomes `y`, and the client gets the sockets that `y` has handed over. -/
def onConnector (y : Connector) : TcpClient :=
  (y.handedOver.drop x.connector_.handedOver.length).foldl newConnection (x.putConnector y)

def removeConnection (c : ℕ) (errno : ConnectErrno) : TcpClient :=
  let y := { x with
    failed := x.failed || decide (x.connection_ ≠ some c)
    connection_ := none }
  let z := y.queueInLoop true (.ofConnection c .connectDestroyed)
  if z.retry_ && z.connect_ then z.onConnector (z.connector.restart errno) else z

def handleClose (c : ℕ) (errno : ConnectErrno) : TcpClient :=
  let y := x.onConn c fun conn => conn.setChannel conn.channel_.disableAll
  let z := y.modifyConn c fun k => { k with closes := k.closes + 1 }
  match z.conns[c]? with
  | none => z
  | some k =>
    match k.closeCallback_ with
    | .removeConnection =>
      if z.destroyed then { z with undefined := true } else z.removeConnection c errno
    | .detailRemoveConnection => z.queueInLoop true (.ofConnection c .connectDestroyed)

def forceCloseInLoop (c : ℕ) (errno : ConnectErrno) : TcpClient :=
  if x.open? c then x.handleClose c errno else x

def handleRead (c : ℕ) (delivered : Option (List UInt8)) (errno : ConnectErrno) : TcpClient :=
  let read := x.onConn c fun conn =>
    { conn with inputBuffer_ := conn.inputBuffer_.readFd delivered }
  match delivered with
  | none => read
  | some [] => read.handleClose c errno
  | some _ => read.onConn c fun conn =>
      { conn with inputBuffer_ := conn.callbacks.messageCallback_ conn.inputBuffer_ }

/-- `shutdown`, called in the loop thread or in another one. -/
def shutdown (c : ℕ) (inLoop : Bool) : TcpClient :=
  if inLoop then x.onConn c TcpConnection.shutdown
  else if x.conns[c]?.any fun k => decide (k.conn.state_ = .kConnected) then
    (x.onConn c fun conn => conn.setState .kDisconnecting).queueInLoop false
      (.ofConnection c .shutdownInLoop)
  else x

def forceClose (c : ℕ) (inLoop : Bool) : TcpClient :=
  if inLoop then x.onConn c TcpConnection.forceClose
  else if x.open? c then
    (x.onConn c fun conn => conn.setState .kDisconnecting).queueInLoop false
      (.ofConnection c .forceCloseInLoop)
  else x

def connectDestroyed (c : ℕ) : TcpClient :=
  (x.onConn c TcpConnection.connectDestroyed).modifyConn c fun k =>
    { k with destroys := k.destroys + 1 }

def runConnFunctor (c : ℕ) (result : Option ℕ) (errno : ConnectErrno) : ConnFunctor → TcpClient
  | .connectEstablished => x.onConn c TcpConnection.connectEstablished
  | .sendInLoop message => x.onConn c fun conn => conn.sendInLoop message result
  | .shutdownInLoop => x.onConn c TcpConnection.shutdownInLoop
  | .forceCloseInLoop => x.forceCloseInLoop c errno
  | .connectDestroyed => x.connectDestroyed c
  | .writeCompleteCallback_ | .highWaterMarkCallback_ _ => x

def setCloseCallback (c : ℕ) (cb : CloseCallback) : TcpClient :=
  x.modifyConn c fun k => { k with closeCallback_ := cb }

/-! ## Calls of the user -/

def connect (inLoop : Bool) (errno : ConnectErrno) : TcpClient :=
  let y := { x with connect_ := true }
  y.onConnector (y.connector.start inLoop errno)

def disconnect (inLoop : Bool) : TcpClient :=
  let y := { x with connect_ := false }
  match y.connection_ with
  | none => y
  | some c => y.shutdown c inLoop

def stop (inLoop : Bool) : TcpClient :=
  let y := { x with connect_ := false }
  y.onConnector (y.connector.stop inLoop)

/-- `~TcpClient`. With a connection the connector goes at once; without one it is stopped and
kept for a second. -/
def destroy (inLoop unique : Bool) : TcpClient :=
  match x.connection_ with
  | some c =>
    let y := if inLoop then x.setCloseCallback c .detailRemoveConnection
      else x.queueInLoop false (.setCloseCallback c)
    let z := if unique then y.forceClose c inLoop else y
    { z.onConnector (z.connector.destroy inLoop) with connection_ := none, destroyed := true }
  | none =>
    { x.onConnector (x.connector.stop inLoop) with removeConnector := true, destroyed := true }

/-! ## The loop -/

/-- The channel is in the kernel's set, and what is reported of it is what it is there for. -/
def watches (p : ClientChannel × Revents) : Bool :=
  match p.1 with
  | .connector => x.connector_.registered
  | .connection c => x.conns[c]?.any fun k => k.conn.channel_.interest.any fun e => e.2.admits p.2

/-- The poller reports a channel at most once. -/
def poll (revents : List (ClientChannel × Revents)) : Option TcpClient :=
  if (revents.map Prod.fst).Nodup ∧ revents.all x.watches then
    (x.loop_.act .poll).map fun l => { x with loop_ := l, activeChannels_ := revents }
  else none

/-- The connector's channel runs all of its callbacks, a connection's has them run one by one. -/
def handleEvent (err selfConnect : Bool) : Option TcpClient :=
  match x.activeChannels_, x.todo with
  | (.connector, r) :: rest, [] =>
    (x.connector.step (.event r err selfConnect)).map
      (onConnector { x with activeChannels_ := rest })
  | (.connection c, r) :: rest, [] =>
    some { x with activeChannels_ := rest, todo := r.callbacks.map (c, ·) }
  | _, _ => none

def callback (delivered : Option (List UInt8)) (result : Option ℕ) (errno : ConnectErrno) :
    Option TcpClient :=
  match x.todo with
  | [] => none
  | (c, cb) :: rest =>
    let x := { x with todo := rest }
    some <| match cb with
      | .closeCallback_ => x.handleClose c errno
      | .errorCallback_ => x
      | .readCallback_ => x.handleRead c delivered errno
      | .writeCallback_ => x.onConn c fun conn => conn.handleWrite result

/-- `TimerQueue::handleRead` takes out the expired timers before it runs them. -/
def expire (timer : ℕ) : Option TcpClient :=
  if x.loop_.handlingEvents = true ∧ x.todo = [] then
    (x.connector.step (.expire timer)).map x.onConnector
  else none

def timer (timer : ℕ) (errno : ConnectErrno) : Option TcpClient :=
  if x.loop_.handlingEvents = true ∧ x.todo = [] then
    (x.connector.step (.timer timer errno)).map x.onConnector
  else none

/-- The pending functors are run when the reported events have been handled. -/
def loopAct (a : LoopAction) : Option TcpClient :=
  if a ≠ .poll ∧ (a = .doPendingFunctors →
      x.activeChannels_ = [] ∧ x.todo = [] ∧ x.connector_.expired = []) then
    (x.loop_.act a).map fun l => { x with loop_ := l }
  else none

def runFunctor (result : Option ℕ) (errno : ConnectErrno) : Option TcpClient :=
  match x.loop_.next with
  | none => none
  | some (f, l) =>
    let y := { x with loop_ := l }
    match f with
    | .ofConnector _ => (x.connector.step (.functor errno)).map y.onConnector
    | .ofConnection c g => some (y.runConnFunctor c result errno g)
    | .setCloseCallback c => some (y.setCloseCallback c .detailRemoveConnection)

def step : ClientAction → Option TcpClient
  | .poll revents => x.poll revents
  | .handleEvent err selfConnect => x.handleEvent err selfConnect
  | .callback delivered result errno => x.callback delivered result errno
  | .expire timer => x.expire timer
  | .timer timer errno => x.timer timer errno
  | .loop a => x.loopAct a
  | .runFunctor result errno => x.runFunctor result errno
  | .connect inLoop errno => if x.destroyed then none else some (x.connect inLoop errno)
  | .disconnect inLoop => if x.destroyed then none else some (x.disconnect inLoop)
  | .stop inLoop => if x.destroyed then none else some (x.stop inLoop)
  | .enableRetry => if x.destroyed then none else some { x with retry_ := true }
  | .send c message result => some (x.onConn c fun conn => conn.send message result)
  | .shutdown c => some (x.shutdown c true)
  | .forceClose c => some (x.forceClose c true)
  | .destroy inLoop unique => if x.destroyed then none else some (x.destroy inLoop unique)
  | .removeConnector =>
    if x.removeConnector then
      some ({ x with removeConnector := false }.onConnector (x.connector.destroy true))
    else none

/-- The connection whose `handleClose` the step enters: by its close callback, a read of 0 bytes,
or a forced close that finds it open. -/
def entersHandleClose : ClientAction → Option ℕ
  | .callback delivered _ _ =>
    match x.todo with
    | (c, .closeCallback_) :: _ => some c
    | (c, .readCallback_) :: _ => if delivered = some [] then some c else none
    | _ => none
  | .runFunctor _ _ =>
    match x.loop_.next with
    | some (.ofConnection c .forceCloseInLoop, _) => if x.open? c then some c else none
    | _ => none
  | _ => none

end TcpClient

end ReactorNet
