import ReactorNet.EventLoop
import ReactorNet.GuardedRuns
import ReactorNet.TimerQueue

/-!
# A loop with a timer queue, and the threads that use it

The loop thread runs `handleRead` one callback at a time, and `reset` one Timer at a time;
callbacks, functors and the destructors of the callbacks that `reset` deletes add and
cancel timers directly. Other threads construct a Timer, hand it to the loop as a
functor, and read its number for the returned id, in separate steps; their cancels are
functors too. The allocator may give out any address that is free. A destructor that
`cancelInLoop` runs calls nothing here: the sets differ in size then, and the first
assertion of every operation would fail.
-/
namespace ReactorNet

/-- A functor that carries a Timer is bound to its address; the number names it in the
trace. -/
inductive TimerFunctor where
  | addTimerInLoop (timerId : TimerId)
  | cancelInLoop (timerId : TimerId)
deriving DecidableEq

/-- Where `handleRead` is: in its loop over the expired timers, in the loop of `reset`, or
there in the destructor of the callback of a Timer. -/
inductive Stage where
  | calling
  | resetting
  | deleting (timer : ℕ)

/-- The Timer is put back, or its deletion begins. -/
def Stage.ofDeleted : Option ℕ → Stage
  | none => .resetting
  | some timer => .deleting timer

/-- The locals of `handleRead`, and the entries that the loop it is in has not come to. -/
structure Round where
  now : Timestamp
  expired : List Entry
  stage : Stage
  rest : List Entry

inductive TimerEvent where
  | returned (timerId : TimerId)
  | addedInLoop (timerId : TimerId)
  | cancelledInLoop (timerId : TimerId)
  | cancelReturned (timerId : TimerId)
  | started (timerId : TimerId)
deriving DecidableEq

/-- `constructed` and `handedOver` are the calls of `addTimer` on other threads before
and after their `runInLoop`; the trace has its latest event in front. -/
structure TimerLoop where
  queue : TimerQueue
  s_numCreated_ : ℕ
  loop : EventLoop TimerFunctor
  round : Option Round
  constructed : List TimerId
  handedOver : List TimerId
  trace : List TimerEvent
  fault : Option Fault

inductive TimerAction where
  | addTimer (timer others : ℕ) (when : Timestamp) (interval : Seconds) (clock : Timestamp)
  | cancel (timerId : TimerId)
  | construct (timer others : ℕ) (when : Timestamp) (interval : Seconds)
  | queueTimer (timerId : TimerId)
  | returnTimer (timerId : TimerId)
  | queueCancel (timerId : TimerId)
  | handleRead (now : Timestamp)
  | runTimer
  | reset
  | resetTimer
  | endDelete
  | endRead (clock : Timestamp)
  | loop (a : LoopAction)
  | runFunctor (clock : Timestamp)
deriving DecidableEq

namespace TimerLoop

def start : TimerLoop :=
  ⟨TimerQueue.empty, 0, EventLoop.idle, none, [], [], [], none⟩

/-- The loop after an operation of the queue, with the events it leaves behind. -/
def finish (s : TimerLoop) (result : Except Fault TimerQueue) (events : List TimerEvent) :
    TimerLoop :=
  match result with
  | .ok q => { s with queue := q, trace := events ++ s.trace }
  | .error e => { s with fault := some e }

/-- The Timer whose callback is being destroyed; its memory is not free yet. -/
def deleting (s : TimerLoop) : Option ℕ :=
  match s.round with
  | some ⟨_, _, .deleting timer, _⟩ => some timer
  | _ => none

/-- The loop thread runs code of the user, or may do so: `reset` itself calls none. -/
def userCode (s : TimerLoop) : Bool :=
  match s.round with
  | some ⟨_, _, .resetting, _⟩ => false
  | _ => true

/-- `new Timer`: the sequence number is shared with `others` constructions elsewhere. -/
def allocate (s : TimerLoop) (timer others : ℕ) (when : Timestamp) (interval : Seconds) :
    Option (TimerLoop × TimerId) :=
  if 0 < timer ∧ timer < UINTPTR_MAX ∧ (s.queue.heap timer).isNone ∧ s.deleting ≠ some timer then
    let sequence := s.s_numCreated_ + others + 1
    some ({ s with
      queue := s.queue.store timer (Timer.construct when interval sequence)
      s_numCreated_ := sequence }, ⟨timer, sequence⟩)
  else none

/-- `addTimer` in the loop thread, where `runInLoop` runs `addTimerInLoop` at once. -/
def addTimer (s : TimerLoop) (timer others : ℕ) (when : Timestamp) (interval : Seconds)
    (clock : Timestamp) : Option TimerLoop :=
  (s.allocate timer others when interval).map fun (s, id) =>
    s.finish (s.queue.addTimerInLoop timer clock) [.returned id, .addedInLoop id]

def cancel (s : TimerLoop) (id : TimerId) : TimerLoop :=
  s.finish (s.queue.cancelInLoop id) [.cancelReturned id, .cancelledInLoop id]

def construct (s : TimerLoop) (timer others : ℕ) (when : Timestamp) (interval : Seconds) :
    Option TimerLoop :=
  (s.allocate timer others when interval).map fun (s, id) =>
    { s with constructed := id :: s.constructed }

def queueTimer (s : TimerLoop) (id : TimerId) : Option TimerLoop :=
  if id ∈ s.constructed then
    some { s with
      constructed := s.constructed.erase id
      handedOver := id :: s.handedOver
      loop := s.loop.queueInLoop false (.addTimerInLoop id) }
  else none

/-- The return statement of `addTimer` reads the Timer, which the loop may have deleted. -/
def returnTimer (s : TimerLoop) (id : TimerId) : Option TimerLoop :=
  if id ∈ s.handedOver then
    some <| if (s.queue.heap id.timer_).any (·.sequence_ == id.sequence_) then
      { s with
        handedOver := s.handedOver.erase id
        trace := .returned id :: s.trace }
    else { s with fault := some .dangling }
  else none

def queueCancel (s : TimerLoop) (id : TimerId) : TimerLoop :=
  { s with loop := s.loop.queueInLoop false (.cancelInLoop id) }

def handleRead (s : TimerLoop) (now : Timestamp) : Option TimerLoop :=
  if s.loop.handlingEvents = true ∧ s.round.isNone then
    some <| match s.queue.beginRead now with
      | .ok (q, expired) => { s with queue := q, round := some ⟨now, expired, .calling, expired⟩ }
      | .error e => { s with fault := some e }
  else none

def runTimer (s : TimerLoop) : Option TimerLoop :=
  match s.round with
  | some ⟨now, expired, .calling, it :: rest⟩ =>
    some <| match s.queue.deref it.timer with
      | .ok t => { s with
          round := some ⟨now, expired, .calling, rest⟩
          trace := .started ⟨it.timer, t.sequence_⟩ :: s.trace }
      | .error e => { s with fault := some e }
  | _ => none

/-- `handleRead` leaves its loop and calls `reset`. -/
def reset (s : TimerLoop) : Option TimerLoop :=
  match s.round with
  | some ⟨now, expired, .calling, []⟩ => some { s with
      queue := { s.queue with callingExpiredTimers_ := false }
      round := some ⟨now, expired, .resetting, expired⟩ }
  | _ => none

def resetTimer (s : TimerLoop) : Option TimerLoop :=
  match s.round with
  | some ⟨now, expired, .resetting, it :: rest⟩ =>
    some <| match s.queue.resetTimer now it with
      | .ok (q, deleted) =>
        { s with queue := q, round := some ⟨now, expired, .ofDeleted deleted, rest⟩ }
      | .error e => { s with fault := some e }
  | _ => none

/-- The destructor returns. -/
def endDelete (s : TimerLoop) : Option TimerLoop :=
  match s.round with
  | some ⟨now, expired, .deleting _, rest⟩ =>
    some { s with round := some ⟨now, expired, .resetting, rest⟩ }
  | _ => none

def endRead (s : TimerLoop) (clock : Timestamp) : Option TimerLoop :=
  match s.round with
  | some ⟨_, _, .resetting, []⟩ => some ({ s with round := none }.finish (s.queue.endReset clock) [])
  | _ => none

def runFunctor (s : TimerLoop) (clock : Timestamp) : Option TimerLoop :=
  match s.loop.next with
  | some (.addTimerInLoop id, l) =>
    some ({ s with loop := l }.finish (s.queue.addTimerInLoop id.timer_ clock) [.addedInLoop id])
  | some (.cancelInLoop id, l) =>
    some ({ s with loop := l }.finish (s.queue.cancelInLoop id) [.cancelledInLoop id])
  | none => none

/-- The loop does not go on before `handleRead` has returned. -/
def loopAct (s : TimerLoop) (a : LoopAction) : Option TimerLoop :=
  if s.round.isNone then (s.loop.act a).map fun l => { s with loop := l } else none

def act (s : TimerLoop) : TimerAction → Option TimerLoop
  | .addTimer timer others when interval clock =>
    if s.userCode then s.addTimer timer others when interval clock else none
  | .cancel id => if s.userCode then some (s.cancel id) else none
  | .construct timer others when interval => s.construct timer others when interval
  | .queueTimer id => s.queueTimer id
  | .returnTimer id => s.returnTimer id
  | .queueCancel id => some (s.queueCancel id)
  | .handleRead now => s.handleRead now
  | .runTimer => s.runTimer
  | .reset => s.reset
  | .resetTimer => s.resetTimer
  | .endDelete => s.endDelete
  | .endRead clock => s.endRead clock
  | .loop a => s.loopAct a
  | .runFunctor clock => if s.round.isNone then s.runFunctor clock else none

/-- A fault stops the program. -/
def step (s : TimerLoop) (a : TimerAction) : Option TimerLoop :=
  if s.fault.isSome then none else s.act a

theorem step_eq_some {s s' : TimerLoop} {a : TimerAction} :
    s.step a = some s' ↔ s.fault = none ∧ s.act a = some s' := by
  cases hf : s.fault <;> simp [step, hf]

end TimerLoop

end ReactorNet
