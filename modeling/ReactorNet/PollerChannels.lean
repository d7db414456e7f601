import Mathlib.Data.List.AList
import ReactorNet.EPollPoller

/-!
# Channels as their poller sees them

The fields of a channel that a poller reads and writes, the operations that end in
`Channel::update` or `Channel::remove`, and what a kernel reports on a descriptor it
watches. The two pollers differ in what they keep in `index_`.
-/
namespace ReactorNet

structure PolledChannel (ι : Type) where
  events_ : Interest
  revents_ : Revents
  index_ : ι
  addedToLoop_ : Bool

inductive ChannelOp where
  | enableReading
  | disableAll
  | enableWriting
  | disableWriting
  | enableET
  | disableET
deriving DecidableEq

/-- What an operation makes of `events_` before it calls `update`. -/
def ChannelOp.events : ChannelOp → Interest → Interest
  | .enableReading, e => { e with kReadEvent := true }
  | .disableAll, _ => Interest.kNoneEvent
  | .enableWriting, e => { e with kWriteEvent := true }
  | .disableWriting, e => { e with kWriteEvent := false }
  | .enableET, e => { e with kEdgeTrigger := true }
  | .disableET, e => { e with kEdgeTrigger := false }

/-- The operations that leave `kEdgeTrigger` alone. -/
def ChannelOp.levelTriggered (op : ChannelOp) : Bool := op ≠ .enableET && op ≠ .disableET

inductive ChannelCall where
  | update (op : ChannelOp)
  | remove
deriving DecidableEq

/-- What a call makes of `events_`. -/
def ChannelCall.events : ChannelCall → Interest → Interest
  | .update op, e => op.events e
  | .remove, e => e

namespace Interest

def isNoneEvent (e : Interest) : Bool := decide (e = kNoneEvent)

/-- `static_cast<short>(events_)`: the bit of `kEdgeTrigger` is beyond a `short`. -/
def toShort (e : Interest) : Interest := { e with kEdgeTrigger := false }

/-- What the kernel reports when `ready` holds of a descriptor watched for `e`. -/
def report (e : Interest) (ready : Revents) : Revents where
  pollin := ready.pollin && e.kReadEvent
  pollpri := ready.pollpri && e.kReadEvent
  pollout := ready.pollout && e.kWriteEvent
  pollerr := ready.pollerr
  pollhup := ready.pollhup
  pollnval := false
  pollrdhup := false

@[simp] theorem report_toShort (e : Interest) (ready : Revents) :
    e.toShort.report ready = e.report ready := rfl

theorem toShort_eq_self {e : Interest} (h : e.kEdgeTrigger = false) : e.toShort = e := by
  simp [toShort, ← h]

end Interest

namespace Revents

def zero : Revents := ⟨false, false, false, false, false, false, false⟩

/-- `revents > 0`. -/
def positive (r : Revents) : Bool :=
  r.pollin || r.pollpri || r.pollout || r.pollerr || r.pollhup || r.pollnval || r.pollrdhup

@[simp] theorem positive_zero : zero.positive = false := rfl

/-- An error is reported whatever the interest. -/
theorem positive_report_of_pollerr (e : Interest) {ready : Revents} (h : ready.pollerr = true) :
    (e.report ready).positive = true := by
  simp [positive, Interest.report, h]

end Revents

namespace PolledChannel

variable {ι : Type}

def construct (index : ι) : PolledChannel ι := ⟨Interest.kNoneEvent, Revents.zero, index, false⟩

def isNoneEvent (c : PolledChannel ι) : Bool := c.events_.isNoneEvent

/-- The channel's part of an operation: the new interest, and `addedToLoop_ = true`. -/
def setEvents (c : PolledChannel ι) (op : ChannelOp) : PolledChannel ι :=
  { c with events_ := op.events c.events_, addedToLoop_ := true }

/-- `Channel::remove` up to the call of the loop. -/
def unloop (c : PolledChannel ι) : PolledChannel ι := { c with addedToLoop_ := false }

def set_index (c : PolledChannel ι) (index : ι) : PolledChannel ι := { c with index_ := index }

def set_revents (c : PolledChannel ι) (revents : Revents) : PolledChannel ι :=
  { c with revents_ := revents }

@[simp] theorem events_setEvents (c : PolledChannel ι) (op : ChannelOp) :
    (c.setEvents op).events_ = op.events c.events_ := rfl

@[simp] theorem index_setEvents (c : PolledChannel ι) (op : ChannelOp) :
    (c.setEvents op).index_ = c.index_ := rfl

@[simp] theorem addedToLoop_setEvents (c : PolledChannel ι) (op : ChannelOp) :
    (c.setEvents op).addedToLoop_ = true := rfl

@[simp] theorem events_unloop (c : PolledChannel ι) : c.unloop.events_ = c.events_ := rfl

@[simp] theorem index_unloop (c : PolledChannel ι) : c.unloop.index_ = c.index_ := rfl

@[simp] theorem addedToLoop_unloop (c : PolledChannel ι) : c.unloop.addedToLoop_ = false := rfl

@[simp] theorem events_set_index (c : PolledChannel ι) (index : ι) :
    (c.set_index index).events_ = c.events_ := rfl

@[simp] theorem index_set_index (c : PolledChannel ι) (index : ι) :
    (c.set_index index).index_ = index := rfl

@[simp] theorem addedToLoop_set_index (c : PolledChannel ι) (index : ι) :
    (c.set_index index).addedToLoop_ = c.addedToLoop_ := rfl

@[simp] theorem revents_set_revents (c : PolledChannel ι) (revents : Revents) :
    (c.set_revents revents).revents_ = revents := rfl

end PolledChannel

/-- `std::map<int, Channel*>`, the map of `Poller`. -/
abbrev ChannelMap (C : Type) := AList fun _ : ℤ => C

namespace ChannelMap

variable {C : Type} (channels : ChannelMap C) (fd fd' : ℤ) (c : C)

def empty : ChannelMap C := ⟨[], List.nodupKeys_nil⟩

def find : Option C := AList.lookup fd channels

def insert : ChannelMap C := AList.insert fd c channels

def erase : ChannelMap C := AList.erase fd channels

def size : ℕ := channels.entries.length

@[simp] theorem find_empty : (empty : ChannelMap C).find fd = none := rfl

theorem find_insert :
    (channels.insert fd' c).find fd = if fd = fd' then some c else channels.find fd := by
  by_cases h : fd = fd'
  · subst h
    rw [if_pos rfl]
    exact AList.lookup_insert _
  · rw [if_neg h]
    exact AList.lookup_insert_ne h

theorem find_erase :
    (channels.erase fd').find fd = if fd = fd' then none else channels.find fd := by
  by_cases h : fd = fd'
  · subst h
    rw [if_pos rfl]
    exact AList.lookup_erase _ _
  · rw [if_neg h]
    exact AList.lookup_erase_ne h

theorem find_insert_ne (k : ℤ) (h : k ≠ fd) : (channels.insert fd c).find k = channels.find k := by
  rw [find_insert, if_neg h]

theorem find_erase_ne (k : ℤ) (h : k ≠ fd) : (channels.erase fd).find k = channels.find k := by
  rw [find_erase, if_neg h]

variable {channels fd}

theorem size_insert (h : channels.find fd = none) :
    (channels.insert fd c).size = channels.size + 1 := by
  have hmem : fd ∉ channels := AList.lookup_eq_none.mp h
  rw [size, insert, AList.entries_insert_of_notMem hmem, List.length_cons, size]

theorem size_erase (h : channels.find fd = some c) :
    (channels.erase fd).size + 1 = channels.size := by
  have hmem : fd ∈ AList.keys channels := by
    apply AList.lookup_isSome.mp
    exact Option.isSome_of_mem h
  have hkeys : (AList.keys (channels.erase fd)).length = (AList.keys channels).length - 1 := by
    rw [erase, AList.keys_erase, List.length_erase_of_mem hmem]
  have hpos := List.length_pos_of_mem hmem
  simp only [AList.keys, List.keys, List.length_map] at hkeys hpos
  simp only [size]
  omega

end ChannelMap

end ReactorNet
