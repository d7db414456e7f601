import ReactorNet.OrderedSets
import Mathlib.Algebra.Group.Nat.Defs
import Mathlib.Data.Prod.Lex
import Mathlib.Data.Int.Order.Basic
import Mathlib.Logic.Function.Basic

/-!
# The timer queue

`TimerQueue` over an explicit heap of Timers: the two ordered sets, the batch being
run, and the set of cancelled batch members. A failed assertion, a use of a deleted
Timer and a second deletion stop the operation with a fault. Times are microseconds
since the epoch.
-/
namespace ReactorNet

abbrev Timestamp := ℤ

namespace Timestamp

def invalid : Timestamp := 0

def valid (t : Timestamp) : Bool := decide (0 < t)

end Timestamp

/-- What the code reads of a `double` number of seconds: whether it is positive, and
its microseconds cut to an integer. -/
structure Seconds where
  positive : Bool
  microSeconds : ℤ
deriving DecidableEq

def addTime (timestamp : Timestamp) (seconds : Seconds) : Timestamp :=
  timestamp + seconds.microSeconds

structure Timer where
  expiration_ : Timestamp
  interval_ : Seconds
  repeat_ : Bool
  sequence_ : ℕ

namespace Timer

def construct (when : Timestamp) (interval : Seconds) (sequence : ℕ) : Timer :=
  ⟨when, interval, interval.positive, sequence⟩

def restart (t : Timer) (now : Timestamp) : Timer :=
  { t with expiration_ := if t.repeat_ then addTime now t.interval_ else Timestamp.invalid }

end Timer

structure TimerId where
  timer_ : ℕ
  sequence_ : ℕ
deriving DecidableEq

inductive Fault where
  | assertion
  | dangling
  | doubleDelete

def assert (p : Prop) [Decidable p] : Except Fault Unit :=
  if p then .ok () else .error .assertion

@[simp] theorem assert_pos {p : Prop} [Decidable p] (h : p) : assert p = .ok () := if_pos h

/-- No object lies at the last address. -/
def UINTPTR_MAX : ℕ := 2 ^ 64 - 1

abbrev Entry := Timestamp ×ₗ ℕ

abbrev ActiveTimer := ℕ ×ₗ ℕ

/-- The pointer of an entry. -/
def Entry.timer (e : Entry) : ℕ := (ofLex e).2

def TimerId.active (id : TimerId) : ActiveTimer := toLex (id.timer_, id.sequence_)

structure TimerQueue where
  heap : ℕ → Option Timer
  timers_ : OrderedSet Entry
  activeTimers_ : OrderedSet ActiveTimer
  cancelingTimers_ : OrderedSet ActiveTimer
  callingExpiredTimers_ : Bool
  timerfd_ : Option Timestamp

namespace TimerQueue

def empty : TimerQueue :=
  ⟨fun _ => none, OrderedSet.empty, OrderedSet.empty, OrderedSet.empty, false, none⟩

/-! ## The heap -/

def deref (q : TimerQueue) (timer : ℕ) : Except Fault Timer :=
  match q.heap timer with
  | some t => .ok t
  | none => .error .dangling

def store (q : TimerQueue) (timer : ℕ) (t : Timer) : TimerQueue :=
  { q with heap := Function.update q.heap timer (some t) }

def release (q : TimerQueue) (timer : ℕ) : TimerQueue :=
  { q with heap := Function.update q.heap timer none }

def delete (q : TimerQueue) (timer : ℕ) : Except Fault TimerQueue :=
  match q.heap timer with
  | some _ => .ok (q.release timer)
  | none => .error .doubleDelete

/-! ## The timer descriptor, by the time it expires -/

def howMuchTimeFromNow (when clock : Timestamp) : ℤ :=
  if when - clock < 100 then 100 else when - clock

def resetTimerfd (q : TimerQueue) (expiration clock : Timestamp) : TimerQueue :=
  { q with timerfd_ := some (clock + howMuchTimeFromNow expiration clock) }

def readTimerfd (q : TimerQueue) (now : Timestamp) : TimerQueue :=
  { q with timerfd_ := q.timerfd_.filter (now < ·) }

/-! ## Operations in the loop thread -/

def insert (q : TimerQueue) (timer : ℕ) : Except Fault (TimerQueue × Bool) := do
  assert (q.timers_.size = q.activeTimers_.size)
  let t ← q.deref timer
  let earliestChanged :=
    match q.timers_.first? with
    | none => true
    | some it => decide (t.expiration_ < (ofLex it).1)
  let result := q.timers_.insert (toLex (t.expiration_, timer))
  assert (result.2 = true)
  let result' := q.activeTimers_.insert (toLex (timer, t.sequence_))
  assert (result'.2 = true)
  assert (result.1.size = result'.1.size)
  return ({ q with timers_ := result.1, activeTimers_ := result'.1 }, earliestChanged)

def addTimerInLoop (q : TimerQueue) (timer : ℕ) (clock : Timestamp) : Except Fault TimerQueue := do
  let (q, earliestChanged) ← q.insert timer
  if earliestChanged then
    let t ← q.deref timer
    return q.resetTimerfd t.expiration_ clock
  else
    return q

/-- The branch of `cancelInLoop` for a timer that is in the sets. -/
def eraseActiveTimer (q : TimerQueue) (timerId : TimerId) : Except Fault TimerQueue := do
  let t ← q.deref timerId.timer_
  let erased := q.timers_.erase (toLex (t.expiration_, timerId.timer_))
  assert (erased.2 = 1)
  let q ← { q with timers_ := erased.1 }.delete timerId.timer_
  return { q with activeTimers_ := (q.activeTimers_.erase timerId.active).1 }

def cancelInLoop (q : TimerQueue) (timerId : TimerId) : Except Fault TimerQueue := do
  assert (q.timers_.size = q.activeTimers_.size)
  let q ←
    if timerId.active ∈ q.activeTimers_ then q.eraseActiveTimer timerId
    else if q.callingExpiredTimers_ then
      pure { q with cancelingTimers_ := (q.cancelingTimers_.insert timerId.active).1 }
    else pure q
  assert (q.timers_.size = q.activeTimers_.size)
  return q

/-- The loop of `getExpired` over the entries copied out of `timers_`. -/
def eraseExpired (q : TimerQueue) : List Entry → Except Fault TimerQueue
  | [] => return q
  | entry :: rest => do
    let t ← q.deref entry.timer
    let erased := q.activeTimers_.erase (toLex (entry.timer, t.sequence_))
    assert (erased.2 = 1)
    eraseExpired { q with activeTimers_ := erased.1 } rest

def sentry (now : Timestamp) : Entry := toLex (now, UINTPTR_MAX)

def getExpired (q : TimerQueue) (now : Timestamp) : Except Fault (TimerQueue × List Entry) := do
  assert (q.timers_.size = q.activeTimers_.size)
  assert (∀ it ∈ q.timers_.lowerBound (sentry now), now < (ofLex it).1)
  let expired := q.timers_.below (sentry now)
  let q ← { q with timers_ := q.timers_.eraseBelow (sentry now) }.eraseExpired expired
  assert (q.timers_.size = q.activeTimers_.size)
  return (q, expired)

/-- `handleRead` up to its loop over the expired timers. -/
def beginRead (q : TimerQueue) (now : Timestamp) : Except Fault (TimerQueue × List Entry) := do
  let (q, expired) ← (q.readTimerfd now).getExpired now
  return ({ q with callingExpiredTimers_ := true, cancelingTimers_ := OrderedSet.empty }, expired)

/-- One turn of the loop in `reset`, with the address of the Timer it deletes, if it does. -/
def resetTimer (q : TimerQueue) (now : Timestamp) (it : Entry) :
    Except Fault (TimerQueue × Option ℕ) := do
  let t ← q.deref it.timer
  if t.repeat_ ∧ toLex (it.timer, t.sequence_) ∉ q.cancelingTimers_ then
    let (q, _) ← (q.store it.timer (t.restart now)).insert it.timer
    return (q, none)
  else
    let q ← q.delete it.timer
    return (q, some it.timer)

def nextExpire (q : TimerQueue) : Except Fault Timestamp :=
  match q.timers_.first? with
  | none => return Timestamp.invalid
  | some it => do
    let t ← q.deref it.timer
    return t.expiration_

/-- `reset` after its loop. -/
def endReset (q : TimerQueue) (clock : Timestamp) : Except Fault TimerQueue := do
  let nextExpire ← q.nextExpire
  return if Timestamp.valid nextExpire then q.resetTimerfd nextExpire clock else q

end TimerQueue

end ReactorNet
