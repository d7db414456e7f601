import Mathlib.Data.Nat.Notation
import Mathlib.Logic.Function.Basic

/-!
# Channels and the epoll poller

A channel in its loop: the interest it declares, its place in the poller's map, and
the set the kernel keeps. `updateChannel` adds a channel that is new or was deleted,
whatever its interest; only `removeChannel` takes it out of the map.
-/
namespace ReactorNet

/-- Which of the masks `kReadEvent`, `kWriteEvent` and `kEdgeTrigger` are in `events_`. -/
structure Interest where
  kReadEvent : Bool
  kWriteEvent : Bool
  kEdgeTrigger : Bool
deriving DecidableEq

def Interest.kNoneEvent : Interest := ⟨false, false, false⟩

structure Revents where
  pollin : Bool
  pollpri : Bool
  pollout : Bool
  pollerr : Bool
  pollhup : Bool
  pollnval : Bool
  pollrdhup : Bool
deriving DecidableEq

/-- What the kernel may report: the events asked for, errors and hang-ups. -/
def Interest.admits (e : Interest) (r : Revents) : Bool :=
  (!r.pollin || e.kReadEvent) && (!r.pollpri || e.kReadEvent) && (!r.pollout || e.kWriteEvent) &&
    !r.pollnval && !r.pollrdhup

inductive ChannelCallback where
  | closeCallback_
  | errorCallback_
  | readCallback_
  | writeCallback_
deriving DecidableEq

/-- The callbacks of `handleEventWithGuard`, in order. -/
def Revents.callbacks (r : Revents) : List ChannelCallback :=
  (if r.pollhup && !r.pollin then [.closeCallback_] else []) ++
  (if r.pollerr || r.pollnval then [.errorCallback_] else []) ++
  (if r.pollin || r.pollpri || r.pollrdhup then [.readCallback_] else []) ++
  (if r.pollout then [.writeCallback_] else [])

inductive ChannelIndex where
  | kNew
  | kAdded
  | kDeleted
deriving DecidableEq

structure Channel where
  this : ℕ
  fd_ : ℕ
  events_ : Interest
  index_ : ChannelIndex
  addedToLoop_ : Bool

/-- The poller's map from descriptors to channels, and the kernel's set behind `epollfd_`. -/
structure EPollPoller where
  channels_ : ℕ → Option ℕ
  epollSet : ℕ → Option (ℕ × Interest)

inductive EpollOp where
  | EPOLL_CTL_ADD
  | EPOLL_CTL_MOD
  | EPOLL_CTL_DEL

/-- Adding fails on a descriptor in the set, the other two on one that is not. -/
def epoll_ctl (set : ℕ → Option (ℕ × Interest)) (op : EpollOp) (fd : ℕ) (event : ℕ × Interest) :
    Option (ℕ → Option (ℕ × Interest)) :=
  match op, set fd with
  | .EPOLL_CTL_ADD, none => some (Function.update set fd (some event))
  | .EPOLL_CTL_MOD, some _ => some (Function.update set fd (some event))
  | .EPOLL_CTL_DEL, some _ => some (Function.update set fd none)
  | _, _ => none

/-- A channel together with the poller of its loop. -/
structure LoopChannel where
  channel : Channel
  poller_ : EPollPoller

namespace LoopChannel

def construct (this fd : ℕ) : LoopChannel :=
  ⟨⟨this, fd, Interest.kNoneEvent, .kNew, false⟩, ⟨fun _ => none, fun _ => none⟩⟩

def isNoneEvent (x : LoopChannel) : Bool := decide (x.channel.events_ = Interest.kNoneEvent)

def isWriting (x : LoopChannel) : Bool := x.channel.events_.kWriteEvent

/-- The entry of the poller's map for the descriptor of the channel. -/
def entry (x : LoopChannel) : Option ℕ := x.poller_.channels_ x.channel.fd_

/-- The entry of the kernel's set for the descriptor of the channel. -/
def interest (x : LoopChannel) : Option (ℕ × Interest) := x.poller_.epollSet x.channel.fd_

def setEntry (x : LoopChannel) (value : Option ℕ) : LoopChannel :=
  { x with poller_.channels_ := Function.update x.poller_.channels_ x.channel.fd_ value }

def set_index (x : LoopChannel) (index : ChannelIndex) : LoopChannel :=
  { x with channel.index_ := index }

/-- `EPollPoller::update`; a failed `EPOLL_CTL_DEL` is only logged, and the other two, whose
failure is fatal, do not fail on a channel that agrees with the poller. -/
def update (x : LoopChannel) (operation : EpollOp) : LoopChannel :=
  match epoll_ctl x.poller_.epollSet operation x.channel.fd_ (x.channel.this, x.channel.events_) with
  | some set => { x with poller_.epollSet := set }
  | none => x

def updateChannel (x : LoopChannel) : LoopChannel :=
  match x.channel.index_ with
  | .kNew => ((x.setEntry (some x.channel.this)).set_index .kAdded).update .EPOLL_CTL_ADD
  | .kDeleted => (x.set_index .kAdded).update .EPOLL_CTL_ADD
  | .kAdded =>
    if x.isNoneEvent then (x.update .EPOLL_CTL_DEL).set_index .kDeleted
    else x.update .EPOLL_CTL_MOD

def updateChannelAssert (x : LoopChannel) : Prop :=
  if x.channel.index_ = .kNew then x.entry = none else x.entry = some x.channel.this

def removeChannel (x : LoopChannel) : LoopChannel :=
  let erased := x.setEntry none
  let updated := if x.channel.index_ = .kAdded then erased.update .EPOLL_CTL_DEL else erased
  updated.set_index .kNew

def removeChannelAssert (x : LoopChannel) : Prop :=
  x.entry = some x.channel.this ∧ x.isNoneEvent = true ∧ x.channel.index_ ≠ .kNew

/-- Every operation on `events_` ends in `Channel::update`. -/
def setEvents (x : LoopChannel) (events : Interest) : LoopChannel :=
  updateChannel { x with channel.events_ := events, channel.addedToLoop_ := true }

def enableReading (x : LoopChannel) : LoopChannel :=
  x.setEvents { x.channel.events_ with kReadEvent := true }

def disableAll (x : LoopChannel) : LoopChannel := x.setEvents Interest.kNoneEvent

def enableWriting (x : LoopChannel) : LoopChannel :=
  x.setEvents { x.channel.events_ with kWriteEvent := true }

def disableWriting (x : LoopChannel) : LoopChannel :=
  x.setEvents { x.channel.events_ with kWriteEvent := false }

def remove (x : LoopChannel) : LoopChannel :=
  removeChannel { x with channel.addedToLoop_ := false }

@[simp] theorem channel_update (x : LoopChannel) (op : EpollOp) :
    (x.update op).channel = x.channel := by
  simp only [update]
  split <;> rfl

@[simp] theorem events_setEvents (x : LoopChannel) (events : Interest) :
    (x.setEvents events).channel.events_ = events := by
  simp only [setEvents, updateChannel]
  split
  · simp [set_index, setEntry]
  · simp [set_index]
  · split <;> simp [set_index]

@[simp] theorem events_remove (x : LoopChannel) :
    x.remove.channel.events_ = x.channel.events_ := by
  simp only [remove, removeChannel]
  split <;> simp [set_index, setEntry]

@[simp] theorem isWriting_enableReading (x : LoopChannel) :
    x.enableReading.isWriting = x.isWriting := by
  simp [enableReading, isWriting]

@[simp] theorem isWriting_enableWriting (x : LoopChannel) : x.enableWriting.isWriting = true := by
  simp [enableWriting, isWriting]

@[simp] theorem isWriting_disableWriting (x : LoopChannel) :
    x.disableWriting.isWriting = false := by
  simp [disableWriting, isWriting]

/-! ## The channel, the map and the kernel agree -/

/-- What `index_` says about the map and the kernel's set. -/
def Coherent (x : LoopChannel) : Prop :=
  match x.channel.index_ with
  | .kNew => x.entry = none ∧ x.interest = none
  | .kAdded => x.entry = some x.channel.this ∧
      x.interest = some (x.channel.this, x.channel.events_)
  | .kDeleted => x.entry = some x.channel.this ∧ x.interest = none

theorem coherent_construct (this fd : ℕ) : (construct this fd).Coherent := ⟨rfl, rfl⟩

/-- An update keeps the agreement and leaves the channel in the map, whatever its
interest. -/
theorem Coherent.setEvents {x : LoopChannel} (h : x.Coherent) (events : Interest) :
    (x.setEvents events).Coherent ∧ (x.setEvents events).channel.index_ ≠ .kNew := by
  obtain ⟨⟨this, fd, old, index, added⟩, ⟨channels, set⟩⟩ := x
  cases index with
  | kNew =>
    obtain ⟨-, hset⟩ := h
    simp only [interest] at hset
    simp [LoopChannel.setEvents, updateChannel, Coherent, update, epoll_ctl, set_index, setEntry,
      entry, interest, hset]
  | kAdded =>
    obtain ⟨hentry, hset⟩ := h
    simp only [interest, entry] at hset hentry
    by_cases hnone : events = Interest.kNoneEvent
    · simp [LoopChannel.setEvents, updateChannel, Coherent, update, epoll_ctl, set_index, entry,
        interest, isNoneEvent, hset, hentry, hnone]
    · simp [LoopChannel.setEvents, updateChannel, Coherent, update, epoll_ctl, entry, interest,
        isNoneEvent, hset, hentry, hnone]
  | kDeleted =>
    obtain ⟨hentry, hset⟩ := h
    simp only [interest, entry] at hset hentry
    simp [LoopChannel.setEvents, updateChannel, Coherent, update, epoll_ctl, set_index, entry,
      interest, hset, hentry]

theorem Coherent.remove {x : LoopChannel} (h : x.Coherent) :
    x.remove.Coherent ∧ x.remove.channel.index_ = .kNew := by
  obtain ⟨⟨this, fd, old, index, added⟩, ⟨channels, set⟩⟩ := x
  cases index with
  | kAdded =>
    obtain ⟨-, hset⟩ := h
    simp only [interest] at hset
    simp [LoopChannel.remove, removeChannel, Coherent, update, epoll_ctl, set_index, setEntry,
      entry, interest, hset]
  | kNew | kDeleted =>
    obtain ⟨-, hset⟩ := h
    simp only [interest] at hset
    simp [LoopChannel.remove, removeChannel, Coherent, set_index, setEntry, entry, interest, hset]

theorem Coherent.entry_eq_none {x : LoopChannel} (h : x.Coherent) :
    x.entry = none ↔ x.channel.index_ = .kNew := by
  cases hindex : x.channel.index_ <;> simp only [Coherent, hindex] at h <;> simp [h.1]

theorem Coherent.interest_eq_none {x : LoopChannel} (h : x.Coherent)
    (hnew : x.channel.index_ = .kNew) : x.interest = none := by
  simp only [Coherent, hnew] at h
  exact h.2

theorem Coherent.updateChannelAssert {x : LoopChannel} (h : x.Coherent) :
    x.updateChannelAssert := by
  cases hindex : x.channel.index_ <;> simp only [Coherent, hindex] at h <;>
    simp [LoopChannel.updateChannelAssert, hindex, h.1]

/-- What `disableAll` leaves can be removed. -/
theorem Coherent.removeChannelAssert {x : LoopChannel} (h : x.Coherent) :
    x.disableAll.removeChannelAssert := by
  obtain ⟨hcoherent, hindex⟩ := h.setEvents Interest.kNoneEvent
  refine ⟨?_, by simp [isNoneEvent, disableAll], hindex⟩
  cases hkind : (x.setEvents Interest.kNoneEvent).channel.index_ with
  | kNew => exact absurd hkind hindex
  | kAdded | kDeleted =>
    simp only [Coherent, hkind] at hcoherent
    exact hcoherent.1

end LoopChannel

end ReactorNet
