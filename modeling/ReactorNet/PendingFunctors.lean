import ReactorNet.GuardedRuns
import Mathlib.Data.Nat.Notation

/-!
# Handing functors to a loop, step by step

The loop thread in `loop()` and outside of it, and any number of threads that call
`queueInLoop`. A call is two steps, the push under the mutex and the wakeup, and
`doPendingFunctors` raises its flag, swaps the queue out and runs the batch in separate
steps too. Other threads come in between at any point. In the loop thread `runInLoop`
runs its functor in place, elsewhere it is `queueInLoop`.
-/
namespace ReactorNet

/-- Where the loop thread is: outside `loop()`, at the loop condition, in the poller,
handling the active channels, which may still include the wakeup channel, or in
`doPendingFunctors` before the swap and with the rest of its batch after it. -/
inductive LoopPhase (F : Type*) where
  | outside
  | condition
  | polling
  | handlingEvents (wakeup : Bool)
  | swapping
  | runningFunctors (rest : List F)
deriving DecidableEq

/-- A functor with the number of batches that had been swapped out when it was pushed. -/
structure Queued (F : Type*) where
  functor : F
  pass : ℕ
deriving DecidableEq

/-- `calls` counts the calls of other threads that have pushed and not yet woken the loop
up, `waking` is such a call of the loop thread itself. The last three fields are a
history: the batches swapped out, the functors in the order in which they were pushed,
and those started, each with the number of the batch it was in. -/
structure LoopThread (F : Type*) where
  phase : LoopPhase (Queued F)
  callingPendingFunctors_ : Bool
  pendingFunctors_ : List (Queued F)
  wakeupFd_ : ℕ
  calls : ℕ
  waking : Bool
  passes : ℕ
  pushed : List (Queued F)
  started : List (Queued F × ℕ)

inductive LoopStep (F : Type*) where
  | queueInLoop (isInLoopThread : Bool) (cb : F)
  | wakeup (isInLoopThread : Bool)
  | enterLoop
  | leaveLoop
  | poll
  | pollReturns (wakeup : Bool)
  | handleRead
  | doPendingFunctors
  | swap
  | runFunctor
  | endPendingFunctors
deriving DecidableEq

namespace LoopThread

variable {F : Type*}

def construct : LoopThread F := ⟨.outside, false, [], 0, 0, false, 0, [], []⟩

/-- The batch that `doPendingFunctors` has not run yet. -/
def functors (s : LoopThread F) : List (Queued F) :=
  match s.phase with
  | .runningFunctors rest => rest
  | _ => []

/-- User code runs in the loop thread before and after `loop()`, in event handlers and
in functors. -/
def inUserCode (s : LoopThread F) : Bool :=
  match s.phase with
  | .outside | .handlingEvents _ | .runningFunctors _ => true
  | _ => false

/-- The part of `queueInLoop` under the mutex, and the decision whether to wake up. -/
def queueInLoop (s : LoopThread F) (isInLoopThread : Bool) (cb : F) : LoopThread F :=
  let queued : Queued F := ⟨cb, s.passes⟩
  let s := { s with
    pendingFunctors_ := s.pendingFunctors_ ++ [queued]
    pushed := s.pushed ++ [queued] }
  if !isInLoopThread || s.callingPendingFunctors_ then
    if isInLoopThread then { s with waking := true } else { s with calls := s.calls + 1 }
  else s

/-- The write to the descriptor that ends a call. -/
def wakeup (s : LoopThread F) (isInLoopThread : Bool) : Option (LoopThread F) :=
  if isInLoopThread then
    if s.waking then some { s with wakeupFd_ := s.wakeupFd_ + 1, waking := false } else none
  else
    if 0 < s.calls then some { s with wakeupFd_ := s.wakeupFd_ + 1, calls := s.calls - 1 }
    else none

/-- The next step of the loop thread in `loop()`, `handleRead` and `doPendingFunctors`.
The poller may return without an event, or without the wakeup channel among them. -/
def advance (s : LoopThread F) : LoopStep F → Option (LoopThread F)
  | .enterLoop =>
    match s.phase with
    | .outside => some { s with phase := .condition }
    | _ => none
  | .leaveLoop =>
    match s.phase with
    | .condition => some { s with phase := .outside }
    | _ => none
  | .poll =>
    match s.phase with
    | .condition => some { s with phase := .polling }
    | _ => none
  | .pollReturns wakeup =>
    match s.phase with
    | .polling =>
      if wakeup ∧ s.wakeupFd_ = 0 then none else some { s with phase := .handlingEvents wakeup }
    | _ => none
  | .handleRead =>
    match s.phase with
    | .handlingEvents true => some { s with phase := .handlingEvents false, wakeupFd_ := 0 }
    | _ => none
  | .doPendingFunctors =>
    match s.phase with
    | .handlingEvents false => some { s with phase := .swapping, callingPendingFunctors_ := true }
    | _ => none
  | .swap =>
    match s.phase with
    | .swapping =>
      some { s with
        phase := .runningFunctors s.pendingFunctors_
        pendingFunctors_ := []
        passes := s.passes + 1 }
    | _ => none
  | .runFunctor =>
    match s.phase with
    | .runningFunctors (cb :: rest) =>
      some { s with phase := .runningFunctors rest, started := s.started ++ [(cb, s.passes)] }
    | _ => none
  | .endPendingFunctors =>
    match s.phase with
    | .runningFunctors [] => some { s with phase := .condition, callingPendingFunctors_ := false }
    | _ => none
  | _ => none

/-- The loop thread finishes a call of its own before it goes on. -/
def step (s : LoopThread F) (a : LoopStep F) : Option (LoopThread F) :=
  match a with
  | .queueInLoop false cb => some (s.queueInLoop false cb)
  | .queueInLoop true cb =>
    if s.inUserCode ∧ s.waking = false then some (s.queueInLoop true cb) else none
  | .wakeup isInLoopThread => s.wakeup isInLoopThread
  | a => if s.waking then none else s.advance a

end LoopThread

end ReactorNet
