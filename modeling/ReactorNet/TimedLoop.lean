import ReactorNet.TimerLoop

/-!
# A timer loop on a clock

One clock, which does not go back, for `Timestamp::now()` and for the timer descriptor.
A deadline in the descriptor is armed before it passes, expired and unread from then on.
The time of the last `resetTimerfd` is kept as a history.
-/
namespace ReactorNet

/-- `Timestamp::now()` counts from the epoch and is a valid Timestamp. -/
structure Clock where
  now : Timestamp
  valid : now.valid = true

/-- The conversion of a positive number of seconds is not negative. -/
def Seconds.Forward (s : Seconds) : Prop := s.positive = true → 0 ≤ s.microSeconds

instance (s : Seconds) : Decidable s.Forward := inferInstanceAs (Decidable (_ → _))

/-- A repeated Timer restarts no earlier than the time of its round. -/
def Timer.Forward (t : Timer) : Prop := t.repeat_ = true → 0 ≤ t.interval_.microSeconds

/-- An action and the time at which it is over. -/
structure TimedAction where
  action : TimerAction
  clock : Clock

structure TimedLoop where
  loop : TimerLoop
  clock : Clock
  armedAt : Option Timestamp

/-- What `insert` reports for the Timer at an address. -/
def TimerQueue.earliestChanged (q : TimerQueue) (timer : ℕ) : Bool :=
  match q.insert timer with
  | .ok (_, earliestChanged) => earliestChanged
  | .error _ => false

namespace TimedAction

/-- The clock readings of an action that begins no earlier than `before`. -/
def reads (before : Clock) (a : TimedAction) : Bool :=
  match a.action with
  | .addTimer _ _ _ _ clock | .endRead clock | .runFunctor clock => decide (clock = a.clock.now)
  | .handleRead now => decide (before.now ≤ now ∧ now ≤ a.clock.now)
  | _ => true

def converts (a : TimedAction) : Bool :=
  match a.action with
  | .addTimer _ _ _ interval _ | .construct _ _ _ interval => decide interval.Forward
  | _ => true

end TimedAction

namespace TimedLoop

def start (clock : Clock) : TimedLoop := ⟨TimerLoop.start, clock, none⟩

/-- Whether an action of `s` calls `resetTimerfd`: an insertion that changes the earliest
entry does, and so does a round that leaves a valid expiration in front. -/
def arms (s : TimerLoop) : TimerAction → Bool
  | .addTimer timer others when interval _ =>
    (s.allocate timer others when interval).any fun (s, _) => s.queue.earliestChanged timer
  | .runFunctor _ =>
    match s.loop.next with
    | some (.addTimerInLoop id, _) => s.queue.earliestChanged id.timer_
    | _ => false
  | .endRead clock =>
    (s.endRead clock).any fun s =>
      match s.queue.nextExpire with
      | .ok when => when.valid
      | .error _ => false
  | _ => false

/-- `handleRead` takes `now` before it reads the descriptor, which may expire in between. -/
def readLater (s : TimerLoop) (a : TimedAction) : TimerLoop :=
  match a.action with
  | .handleRead _ => { s with queue := s.queue.readTimerfd a.clock.now }
  | _ => s

def step (s : TimedLoop) (a : TimedAction) : Option TimedLoop :=
  if s.clock.now ≤ a.clock.now ∧ a.reads s.clock ∧ a.converts then
    (s.loop.step a.action).map fun loop =>
      { loop := readLater loop a
        clock := a.clock
        armedAt := if arms s.loop a.action then some a.clock.now else s.armedAt }
  else none

end TimedLoop

end ReactorNet
