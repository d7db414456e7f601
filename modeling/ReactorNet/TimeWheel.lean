import ReactorNet.CircularBuffers
import ReactorNet.GuardedRuns
import Mathlib.Logic.Function.Basic

/-!
# The time wheel of the HTTP server

`onTimer`, and the parts of `onConnection` and `onMessage` that keep the Entry of a
connection referenced: a bucket for every tick, and the EntryPtr a call holds while it
runs. The critical sections are single steps, and ticks and the calls of other
connections come in between. A connection that is down is left alone by `onConnection`.
An Entry is destroyed with its last reference and shuts its connection down.
-/
namespace ReactorNet

/-- An Entry is named by its connection. -/
abbrev Bucket := List ℕ

abbrev BucketList := CircularBuffer Bucket 8

inductive EntryState where
  | unborn
  | live
  | destroyed
deriving DecidableEq

/-- Where the loop thread of a connection is: in `onConnection` before and after the
critical section, in `onMessage` before it, or in the rest of `onMessage`. -/
inductive WheelCall where
  | idle
  | connecting
  | connected (tail : ℕ)
  | refreshing
  | handling (ptr : Bool)
deriving DecidableEq

/-- The EntryPtr among the locals of a call. -/
def WheelCall.holdsEntry : WheelCall → Bool
  | .idle => false
  | .connecting => true
  | .connected _ => true
  | .refreshing => true
  | .handling ptr => ptr

/-- `tail_` is what `setTimeWheelTail` has stored. The last three fields are a history:
the tick of the critical section of `onConnection`, of the latest call, and of the
latest return. -/
structure WheelConnection where
  alive : Bool
  entry : EntryState
  call : WheelCall
  tail_ : ℕ
  connectedAt : ℕ
  lastCall : ℕ
  finished : ℕ

/-- A `shutdown` by the destructor of an Entry, the ticks there had been, and the tick
of the latest call of the connection. -/
structure Kick where
  conn : ℕ
  tick : ℕ
  lastCall : ℕ
deriving DecidableEq

/-- `outOfRange` is set when `back()` or `end() - 1` is evaluated on an empty list. -/
structure TimeWheel where
  list_ : BucketList
  conns : ℕ → WheelConnection
  ticks : ℕ
  kicks : List Kick
  outOfRange : Bool

inductive WheelAction where
  | onTimer
  | onConnection (c : ℕ)
  | insertEntry (c : ℕ)
  | endConnection (c : ℕ)
  | onMessage (c : ℕ)
  | refreshEntry (c : ℕ)
  | endMessage (c : ℕ)
  | destroyConnection (c : ℕ)
deriving DecidableEq

namespace TimeWheel

def construct : TimeWheel where
  list_ := CircularBuffer.construct (by decide)
  conns := fun _ => ⟨true, .unborn, .idle, 0, 0, 0, 0⟩
  ticks := 0
  kicks := []
  outOfRange := false

def set (s : TimeWheel) (c : ℕ) (conn : WheelConnection) : TimeWheel :=
  { s with conns := Function.update s.conns c conn }

/-- `list_.back().insert(entry_ptr)` -/
def insertBack (s : TimeWheel) (c : ℕ) : TimeWheel :=
  { s with list_ := s.list_.modifyBack (List.insert c) }

/-- Some EntryPtr to the Entry exists. -/
def referenced (s : TimeWheel) (c : ℕ) : Bool :=
  (s.conns c).call.holdsEntry || s.list_.items.any (c ∈ ·)

/-- `Entry::~Entry` -/
def destroyEntry (s : TimeWheel) (c : ℕ) : TimeWheel :=
  let s' := s.set c { s.conns c with entry := .destroyed }
  if (s.conns c).alive then { s' with kicks := ⟨c, s.ticks, (s.conns c).lastCall⟩ :: s.kicks }
  else s'

/-- An EntryPtr to the Entry has gone. -/
def releaseEntry (s : TimeWheel) (c : ℕ) : TimeWheel :=
  if (s.conns c).entry = .live ∧ s.referenced c = false then s.destroyEntry c else s

def onTimer (s : TimeWheel) : TimeWheel :=
  let dropped := s.list_.overwritten.flatten
  dropped.foldl releaseEntry { s with list_ := s.list_.pushBack [], ticks := s.ticks + 1 }

def onConnection (s : TimeWheel) (c : ℕ) : Option TimeWheel :=
  let conn := s.conns c
  if conn.entry = .unborn ∧ conn.alive = true then
    some (s.set c { conn with entry := .live, call := .connecting })
  else none

def insertEntry (s : TimeWheel) (c : ℕ) : Option TimeWheel :=
  let conn := s.conns c
  if conn.call = .connecting then
    if s.list_.items = [] then some { s with outOfRange := true }
    else
      let s := s.insertBack c
      some (s.set c { conn with
        call := .connected s.list_.lastSlot
        connectedAt := s.ticks
        lastCall := s.ticks })
  else none

def endConnection (s : TimeWheel) (c : ℕ) : Option TimeWheel :=
  let conn := s.conns c
  match conn.call with
  | .connected tail =>
    some ((s.set c { conn with call := .idle, tail_ := tail, finished := s.ticks }).releaseEntry c)
  | _ => none

/-- `onMessage` up to the lock of the weak pointer; without an Entry there is no
critical section. -/
def onMessage (s : TimeWheel) (c : ℕ) : Option TimeWheel :=
  let conn := s.conns c
  if conn.entry ≠ .unborn ∧ conn.alive = true ∧ conn.call = .idle then
    if conn.entry = .live then some (s.set c { conn with call := .refreshing })
    else some (s.set c { conn with call := .handling false, lastCall := s.ticks })
  else none

def refreshEntry (s : TimeWheel) (c : ℕ) : Option TimeWheel :=
  let conn := s.conns c
  if conn.call = .refreshing then
    if s.list_.items = [] then some { s with outOfRange := true }
    else
      let tail := s.list_.lastSlot
      let s := if tail ≠ conn.tail_ then s.insertBack c else s
      some (s.set c { conn with call := .handling true, lastCall := s.ticks })
  else none

def endMessage (s : TimeWheel) (c : ℕ) : Option TimeWheel :=
  let conn := s.conns c
  match conn.call with
  | .handling _ => some ((s.set c { conn with call := .idle, finished := s.ticks }).releaseEntry c)
  | _ => none

/-- The last TcpConnectionPtr has gone, which no call of the connection can outlive. -/
def destroyConnection (s : TimeWheel) (c : ℕ) : Option TimeWheel :=
  let conn := s.conns c
  if conn.call = .idle then some (s.set c { conn with alive := false }) else none

/-- The program has no defined behaviour after an access out of range. -/
def step (s : TimeWheel) (a : WheelAction) : Option TimeWheel :=
  if s.outOfRange then none
  else match a with
    | .onTimer => some s.onTimer
    | .onConnection c => s.onConnection c
    | .insertEntry c => s.insertEntry c
    | .endConnection c => s.endConnection c
    | .onMessage c => s.onMessage c
    | .refreshEntry c => s.refreshEntry c
    | .endMessage c => s.endMessage c
    | .destroyConnection c => s.destroyConnection c

end TimeWheel

end ReactorNet
