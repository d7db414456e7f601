import ReactorNet.EPollPoller

/-!
# The connector

One connector in its loop: the state, the channel it waits on, the retry timers of the
loop and the functors it queued. Sockets are numbered in the order of their creation.
Assertions are compiled out; those that fail are recorded. The results of `connect()`,
`SO_ERROR` and the self-connect test are arguments of the steps.
-/
namespace ReactorNet

/-- `savedErrno` after `sockets::connect`. -/
inductive ConnectErrno where
  | success
  | EINPROGRESS
  | EINTR
  | EISCONN
  | EAGAIN
  | EADDRINUSE
  | EADDRNOTAVAIL
  | ECONNREFUSED
  | ENETUNREACH
  | EACCES
  | EPERM
  | EAFNOSUPPORT
  | EALREADY
  | EBADF
  | EFAULT
  | ENOTSOCK
  | unexpected
deriving DecidableEq

/-- The results after which `connect` waits for the socket to become writable. -/
def ConnectErrno.pending : ConnectErrno → Bool
  | .success | .EINPROGRESS | .EINTR | .EISCONN => true
  | _ => false

inductive ConnectorState where
  | kDisconnected
  | kConnecting
  | kConnected
deriving DecidableEq

/-- `channel_`, and whether it is registered with the poller. -/
structure ConnectorChannel where
  fd : ℕ
  registered : Bool
deriving DecidableEq

inductive ConnectorFunctor where
  | startInLoop
  | resetChannel
  | cancel (timerId : Option ℕ)
deriving DecidableEq

/-- The places of the assertions. -/
inductive ConnectorAssert where
  | dtor
  | startInLoop
  | connecting
  | handleWrite
  | handleError
  | stop
deriving DecidableEq

structure Connector where
  connect_ : Bool
  state_ : ConnectorState
  channel_ : Option ConnectorChannel
  retryDelayMs_ : ℕ
  timerId_ : Option ℕ
  destroyed : Bool
  /-- The timers of the loop that call `startInLoop`, with their delays. -/
  timers : List (ℕ × ℕ)
  /-- Expired timers whose callback is still to run. -/
  expired : List ℕ
  timersMade : ℕ
  pendingFunctors_ : List ConnectorFunctor
  socketsMade : ℕ
  /-- The calls of `sockets::close`. -/
  closed : List ℕ
  /-- The calls of `newConnectionCallback_`. -/
  handedOver : List ℕ
  failed : List ConnectorAssert
deriving DecidableEq

namespace Connector

def kInitRetryDelayMs : ℕ := 500

def kMaxRetryDelayMs : ℕ := 30 * 1000

def construct : Connector where
  connect_ := false
  state_ := .kDisconnected
  channel_ := none
  retryDelayMs_ := kInitRetryDelayMs
  timerId_ := none
  destroyed := false
  timers := []
  expired := []
  timersMade := 0
  pendingFunctors_ := []
  socketsMade := 0
  closed := []
  handedOver := []
  failed := []

def check (x : Connector) (holds : Bool) (place : ConnectorAssert) : Connector :=
  if holds then x else { x with failed := x.failed ++ [place] }

def setState (x : Connector) (s : ConnectorState) : Connector := { x with state_ := s }

def queueInLoop (x : Connector) (cb : ConnectorFunctor) : Connector :=
  { x with pendingFunctors_ := x.pendingFunctors_ ++ [cb] }

/-- `loop_->runAfter(delay, startInLoop)`. -/
def runAfter (x : Connector) (delay : ℕ) : Connector :=
  { x with
    timers := x.timers ++ [(x.timersMade, delay)]
    timerId_ := some x.timersMade
    timersMade := x.timersMade + 1 }

/-- `cancelInLoop`: an expired timer is not in the queue any more. -/
def cancelInLoop (x : Connector) (timerId : Option ℕ) : Connector :=
  { x with timers := x.timers.filter fun t => timerId ≠ some t.1 }

def cancel (x : Connector) (inLoop : Bool) : Connector :=
  if inLoop then x.cancelInLoop x.timerId_ else x.queueInLoop (.cancel x.timerId_)

def close (x : Connector) (sockfd : ℕ) : Connector := { x with closed := x.closed ++ [sockfd] }

def retry (x : Connector) (sockfd : ℕ) : Connector :=
  let y := (x.close sockfd).setState .kDisconnected
  if y.connect_ then
    { y.runAfter y.retryDelayMs_ with retryDelayMs_ := min (y.retryDelayMs_ * 2) kMaxRetryDelayMs }
  else y

def connecting (x : Connector) (sockfd : ℕ) : Connector :=
  let y := (x.setState .kConnecting).check x.channel_.isNone .connecting
  { y with channel_ := some ⟨sockfd, true⟩ }

def connect (x : Connector) (errno : ConnectErrno) : Connector :=
  let sockfd := x.socketsMade
  let y := { x with socketsMade := x.socketsMade + 1 }
  match errno with
  | .success | .EINPROGRESS | .EINTR | .EISCONN => y.connecting sockfd
  | .EAGAIN | .EADDRINUSE | .EADDRNOTAVAIL | .ECONNREFUSED | .ENETUNREACH => y.retry sockfd
  | .EACCES | .EPERM | .EAFNOSUPPORT | .EALREADY | .EBADF | .EFAULT | .ENOTSOCK => y.close sockfd
  | .unexpected => y.close sockfd

def startInLoop (x : Connector) (errno : ConnectErrno) : Connector :=
  let y := x.check (x.state_ = .kDisconnected) .startInLoop
  if y.connect_ then y.connect errno else y

/-- `inLoop` tells whether the caller is the loop thread. -/
def start (x : Connector) (inLoop : Bool) (errno : ConnectErrno) : Connector :=
  let y := { x with connect_ := true }
  if inLoop then y.startInLoop errno else y.queueInLoop .startInLoop

def resetChannel (x : Connector) : Connector := { x with channel_ := none }

/-- The channel stays, out of the poller, until `resetChannel` runs. -/
def removeAndResetChannel (x : Connector) (channel : ConnectorChannel) : Connector :=
  let y := { x with channel_ := some { channel with registered := false } }
  y.queueInLoop .resetChannel

/-- `err` and `selfConnect` are the answers of `getSocketError` and `isSelfConnect`. -/
def handleWrite (x : Connector) (err selfConnect : Bool) : Option Connector :=
  if x.state_ = .kConnecting then
    x.channel_.map fun channel =>
      let sockfd := channel.fd
      let y := x.removeAndResetChannel channel
      if err then y.retry sockfd
      else if selfConnect then y.retry sockfd
      else
        let z := y.setState .kConnected
        if z.connect_ then { z with handedOver := z.handedOver ++ [sockfd] } else z.close sockfd
  else some (x.check (x.state_ = .kDisconnected) .handleWrite)

def handleError (x : Connector) : Option Connector :=
  let y := x.check (x.state_ = .kConnecting) .handleError
  y.channel_.map fun channel => (y.removeAndResetChannel channel).retry channel.fd

def restart (x : Connector) (errno : ConnectErrno) : Connector :=
  let y := x.setState .kDisconnected
  startInLoop { y with retryDelayMs_ := kInitRetryDelayMs, connect_ := true } errno

def stop (x : Connector) (inLoop : Bool) : Connector :=
  let y := { x with connect_ := false }
  (y.cancel inLoop).check x.channel_.isNone .stop

/-- The channel goes with the connector. -/
def destroy (x : Connector) (inLoop : Bool) : Connector :=
  let y := (x.cancel inLoop).check x.channel_.isNone .dtor
  { y with channel_ := none, destroyed := true }

/-- The callbacks the connector gave its channel. -/
def callback (err selfConnect : Bool) (x : Connector) : ChannelCallback → Option Connector
  | .errorCallback_ => x.handleError
  | .writeCallback_ => x.handleWrite err selfConnect
  | .closeCallback_ => some x
  | .readCallback_ => some x

/-- `Channel::handleEvent` on the registered channel. -/
def handleEvent (x : Connector) (revents : Revents) (err selfConnect : Bool) : Option Connector :=
  if x.channel_.any (fun channel => channel.registered) then
    revents.callbacks.foldlM (callback err selfConnect) x
  else none

def runFunctor (x : Connector) (errno : ConnectErrno) : ConnectorFunctor → Connector
  | .startInLoop => x.startInLoop errno
  | .resetChannel => x.resetChannel
  | .cancel timerId => x.cancelInLoop timerId

end Connector

/-- A call of the user, the expiry of a timer or the run of its callback, an event on the
channel, or the next functor of the loop. -/
inductive ConnectorAction where
  | start (inLoop : Bool) (errno : ConnectErrno)
  | stop (inLoop : Bool)
  | restart (errno : ConnectErrno)
  | destroy (inLoop : Bool)
  | expire (timer : ℕ)
  | timer (timer : ℕ) (errno : ConnectErrno)
  | event (revents : Revents) (err selfConnect : Bool)
  | functor (errno : ConnectErrno)

namespace Connector

def step (x : Connector) : ConnectorAction → Option Connector
  | .start inLoop errno => if x.destroyed then none else some (x.start inLoop errno)
  | .stop inLoop => if x.destroyed then none else some (x.stop inLoop)
  | .restart errno => if x.destroyed then none else some (x.restart errno)
  | .destroy inLoop => if x.destroyed then none else some (x.destroy inLoop)
  | .expire timer =>
    if x.destroyed = false ∧ timer ∈ x.timers.map Prod.fst then
      some { x with
        timers := x.timers.filter fun t => t.1 ≠ timer
        expired := x.expired ++ [timer] }
    else none
  | .timer timer errno =>
    if x.destroyed = false ∧ timer ∈ x.expired then
      some (startInLoop { x with expired := x.expired.erase timer } errno)
    else none
  | .event revents err selfConnect =>
    if x.destroyed then none else x.handleEvent revents err selfConnect
  | .functor errno =>
    match x.pendingFunctors_ with
    | [] => none
    | cb :: rest =>
      if x.destroyed then none else some (runFunctor { x with pendingFunctors_ := rest } errno cb)

variable (x : Connector) (holds : Bool) (place : ConnectorAssert) (sockfd : ℕ) (inLoop : Bool)
  (channel : ConnectorChannel)

@[simp] theorem channel_check : (x.check holds place).channel_ = x.channel_ := by
  cases holds <;> rfl

@[simp] theorem state_check : (x.check holds place).state_ = x.state_ := by
  cases holds <;> rfl

@[simp] theorem connect_check : (x.check holds place).connect_ = x.connect_ := by
  cases holds <;> rfl

@[simp] theorem pendingFunctors_check :
    (x.check holds place).pendingFunctors_ = x.pendingFunctors_ := by
  cases holds <;> rfl

@[simp] theorem socketsMade_check : (x.check holds place).socketsMade = x.socketsMade := by
  cases holds <;> rfl

@[simp] theorem closed_check : (x.check holds place).closed = x.closed := by
  cases holds <;> rfl

@[simp] theorem handedOver_check : (x.check holds place).handedOver = x.handedOver := by
  cases holds <;> rfl

@[simp] theorem failed_check :
    (x.check holds place).failed = x.failed ++ if holds then [] else [place] := by
  cases holds <;> simp [check]

@[simp] theorem channel_retry : (x.retry sockfd).channel_ = x.channel_ := by
  simp only [retry]
  split <;> rfl

@[simp] theorem state_retry : (x.retry sockfd).state_ = .kDisconnected := by
  simp only [retry]
  split <;> rfl

@[simp] theorem pendingFunctors_retry :
    (x.retry sockfd).pendingFunctors_ = x.pendingFunctors_ := by
  simp only [retry]
  split <;> rfl

@[simp] theorem socketsMade_retry : (x.retry sockfd).socketsMade = x.socketsMade := by
  simp only [retry]
  split <;> rfl

@[simp] theorem closed_retry : (x.retry sockfd).closed = x.closed ++ [sockfd] := by
  simp only [retry]
  split <;> rfl

@[simp] theorem handedOver_retry : (x.retry sockfd).handedOver = x.handedOver := by
  simp only [retry]
  split <;> rfl

@[simp] theorem failed_retry : (x.retry sockfd).failed = x.failed := by
  simp only [retry]
  split <;> rfl

@[simp] theorem channel_cancel : (x.cancel inLoop).channel_ = x.channel_ := by
  cases inLoop <;> rfl

@[simp] theorem state_cancel : (x.cancel inLoop).state_ = x.state_ := by
  cases inLoop <;> rfl

@[simp] theorem socketsMade_cancel : (x.cancel inLoop).socketsMade = x.socketsMade := by
  cases inLoop <;> rfl

@[simp] theorem closed_cancel : (x.cancel inLoop).closed = x.closed := by
  cases inLoop <;> rfl

@[simp] theorem handedOver_cancel : (x.cancel inLoop).handedOver = x.handedOver := by
  cases inLoop <;> rfl

@[simp] theorem failed_cancel : (x.cancel inLoop).failed = x.failed := by
  cases inLoop <;> rfl

@[simp] theorem count_reset_cancel : (x.cancel inLoop).pendingFunctors_.count .resetChannel =
    x.pendingFunctors_.count .resetChannel := by
  cases inLoop <;> simp [cancel, cancelInLoop, queueInLoop]

/-- The results of `connect()` come in three classes. -/
theorem connect_cases (errno : ConnectErrno) :
    errno.pending = true ∧
        x.connect errno = connecting { x with socketsMade := x.socketsMade + 1 } x.socketsMade ∨
      errno.pending = false ∧
        (x.connect errno = retry { x with socketsMade := x.socketsMade + 1 } x.socketsMade ∨
          x.connect errno = close { x with socketsMade := x.socketsMade + 1 } x.socketsMade) := by
  cases errno <;> first
    | exact Or.inl ⟨rfl, rfl⟩
    | exact Or.inr ⟨rfl, Or.inl rfl⟩
    | exact Or.inr ⟨rfl, Or.inr rfl⟩

theorem failed_connect (errno : ConnectErrno) : (x.connect errno).failed =
    x.failed ++ if errno.pending && x.channel_.isSome then [.connecting] else [] := by
  rcases x.connect_cases errno with ⟨hp, hc⟩ | ⟨hp, hc | hc⟩
  · rw [hc, hp]
    cases x.channel_ <;> simp [connecting, setState]
  · simp [hc, hp]
  · simp [hc, hp, close]

theorem failed_startInLoop (errno : ConnectErrno) : (x.startInLoop errno).failed =
    x.failed ++ (if x.state_ = .kDisconnected then [] else [.startInLoop]) ++
      if x.connect_ && errno.pending && x.channel_.isSome then [.connecting] else [] := by
  cases hc : x.connect_ <;> simp [startInLoop, failed_connect, hc]

/-- An event runs the error callback before the write callback. -/
theorem handleEvent_eq {x : Connector} (h : x.channel_.any (fun c => c.registered) = true)
    (revents : Revents) (err selfConnect : Bool) :
    x.handleEvent revents err selfConnect =
      (if revents.pollerr || revents.pollnval then x.handleError else some x).bind fun y =>
        if revents.pollout then y.handleWrite err selfConnect else some y := by
  rw [handleEvent, if_pos h, Revents.callbacks]
  cases revents.pollhup && !revents.pollin <;> cases revents.pollerr || revents.pollnval <;>
    cases revents.pollin || revents.pollpri || revents.pollrdhup <;> cases revents.pollout <;>
    simp [callback]

end Connector

end ReactorNet
