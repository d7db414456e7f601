import Mathlib.Data.Nat.Notation
import Mathlib.Tactic.TypeStar

/-!
# The functor queue of an event loop

The part of `EventLoop` that other threads and nested callbacks reach: the queue of
pending functors, the batch `doPendingFunctors` has swapped out of it, and the
counter of the wakeup descriptor. The loop thread is polling, handling the active
channels, or running the batch.
-/
namespace ReactorNet

/-- Where the loop thread is in the body of `loop()`. The batch that
`doPendingFunctors` has not run yet exists only while it runs. -/
inductive Phase (F : Type*) where
  | polling
  | handlingEvents
  | callingPendingFunctors (functors : List F)

structure EventLoop (F : Type*) where
  phase : Phase F
  pendingFunctors_ : List F
  wakeupFd_ : ℕ

/-- What the loop thread does between two callbacks. -/
inductive LoopAction where
  | poll
  | handleRead
  | doPendingFunctors
  | endPendingFunctors
deriving DecidableEq

namespace EventLoop

variable {F : Type*}

def idle : EventLoop F := ⟨.polling, [], 0⟩

def callingPendingFunctors_ (l : EventLoop F) : Bool :=
  match l.phase with
  | .callingPendingFunctors _ => true
  | _ => false

def handlingEvents (l : EventLoop F) : Bool :=
  match l.phase with
  | .handlingEvents => true
  | _ => false

/-- The rest of the vector local to `doPendingFunctors`. -/
def functors (l : EventLoop F) : List F :=
  match l.phase with
  | .callingPendingFunctors fs => fs
  | _ => []

def wakeup (l : EventLoop F) : EventLoop F := { l with wakeupFd_ := l.wakeupFd_ + 1 }

def queueInLoop (l : EventLoop F) (isInLoopThread : Bool) (cb : F) : EventLoop F :=
  let pushed := { l with pendingFunctors_ := l.pendingFunctors_ ++ [cb] }
  if !isInLoopThread || l.callingPendingFunctors_ then pushed.wakeup else pushed

def act (l : EventLoop F) : LoopAction → Option (EventLoop F)
  | .poll =>
    match l.phase with
    | .polling => some { l with phase := .handlingEvents }
    | _ => none
  | .handleRead =>
    match l.phase with
    | .handlingEvents => some { l with wakeupFd_ := 0 }
    | _ => none
  | .doPendingFunctors =>
    match l.phase with
    | .handlingEvents =>
      some { l with phase := .callingPendingFunctors l.pendingFunctors_, pendingFunctors_ := [] }
    | _ => none
  | .endPendingFunctors =>
    match l.phase with
    | .callingPendingFunctors [] => some { l with phase := .polling }
    | _ => none

/-- Take the next functor of the batch. -/
def next (l : EventLoop F) : Option (F × EventLoop F) :=
  match l.phase with
  | .callingPendingFunctors (cb :: rest) =>
    some (cb, { l with phase := .callingPendingFunctors rest })
  | _ => none

/-- The functors still to be run, in the order in which they will be. -/
def queued (l : EventLoop F) : List F := l.functors ++ l.pendingFunctors_

@[simp] theorem phase_queueInLoop (l : EventLoop F) (b : Bool) (cb : F) :
    (l.queueInLoop b cb).phase = l.phase := by
  simp only [queueInLoop]
  split <;> rfl

@[simp] theorem queued_queueInLoop (l : EventLoop F) (b : Bool) (cb : F) :
    (l.queueInLoop b cb).queued = l.queued ++ [cb] := by
  simp only [queueInLoop]
  split <;> simp [queued, functors, wakeup]

/-- The loop goes from one phase to the next. -/
inductive Turns : EventLoop F → LoopAction → EventLoop F → Prop
  | poll (pending : List F) (fd : ℕ) :
    Turns ⟨.polling, pending, fd⟩ .poll ⟨.handlingEvents, pending, fd⟩
  | handleRead (pending : List F) (fd : ℕ) :
    Turns ⟨.handlingEvents, pending, fd⟩ .handleRead ⟨.handlingEvents, pending, 0⟩
  | doPendingFunctors (pending : List F) (fd : ℕ) : Turns ⟨.handlingEvents, pending, fd⟩
    .doPendingFunctors ⟨.callingPendingFunctors pending, [], fd⟩
  | endPendingFunctors (pending : List F) (fd : ℕ) : Turns ⟨.callingPendingFunctors [], pending, fd⟩
    .endPendingFunctors ⟨.polling, pending, fd⟩

theorem turns_act {l l' : EventLoop F} {a : LoopAction} (h : l.act a = some l') :
    Turns l a l' := by
  obtain ⟨phase, pending, fd⟩ := l
  cases a with
  | poll =>
    cases phase <;> simp only [act, Option.some.injEq, reduceCtorEq] at h
    subst h
    exact .poll pending fd
  | handleRead =>
    cases phase <;> simp only [act, Option.some.injEq, reduceCtorEq] at h
    subst h
    exact .handleRead pending fd
  | doPendingFunctors =>
    cases phase <;> simp only [act, Option.some.injEq, reduceCtorEq] at h
    subst h
    exact .doPendingFunctors pending fd
  | endPendingFunctors =>
    rcases phase with _ | _ | _ | _ <;> simp only [act, Option.some.injEq, reduceCtorEq] at h
    subst h
    exact .endPendingFunctors pending fd

theorem queued_act {l l' : EventLoop F} {a : LoopAction} (h : l.act a = some l') :
    l'.queued = l.queued := by
  cases turns_act h with
  | poll | handleRead | endPendingFunctors => rfl
  | doPendingFunctors => simp [queued, functors]

theorem next_cases {l l' : EventLoop F} {cb : F} (h : l.next = some (cb, l')) :
    ∃ rest, l.phase = .callingPendingFunctors (cb :: rest) ∧
      l' = { l with phase := .callingPendingFunctors rest } := by
  obtain ⟨phase, pending, fd⟩ := l
  rcases phase with _ | _ | _ | ⟨f, rest⟩ <;>
    simp only [next, Option.some.injEq, Prod.mk.injEq, reduceCtorEq] at h
  obtain ⟨rfl, rfl⟩ := h
  exact ⟨rest, rfl, rfl⟩

theorem queued_next {l l' : EventLoop F} {cb : F} (h : l.next = some (cb, l')) :
    l.queued = cb :: l'.queued := by
  obtain ⟨rest, hphase, rfl⟩ := next_cases h
  simp [queued, functors, hphase]

theorem handlingEvents_congr {l l' : EventLoop F} (h : l'.phase = l.phase) :
    l'.handlingEvents = l.handlingEvents := by
  simp only [handlingEvents, h]

theorem handlingEvents_poll {l l' : EventLoop F} (h : l.act .poll = some l') :
    l'.handlingEvents = true := by
  cases turns_act h
  rfl

theorem handlingEvents_act {l l' : EventLoop F} {a : LoopAction} (h : l.act a = some l')
    (hp : a ≠ .poll) (hd : a ≠ .doPendingFunctors) : l'.handlingEvents = l.handlingEvents := by
  cases turns_act h with
  | poll => exact absurd rfl hp
  | doPendingFunctors => exact absurd rfl hd
  | handleRead | endPendingFunctors => rfl

theorem handlingEvents_next {l l' : EventLoop F} {cb : F} (h : l.next = some (cb, l')) :
    l.handlingEvents = false ∧ l'.handlingEvents = false := by
  obtain ⟨rest, hphase, rfl⟩ := next_cases h
  simp [handlingEvents, hphase]

end EventLoop

end ReactorNet
