import ReactorNet.GuardedRuns
import ReactorNet.PollerChannels

/-!
# The epoll poller with all its channels

The map of the poller, the kernel's set behind `epollfd_`, and the channels of the
loop. A step without a result is one whose assertion fails or whose `epoll_ctl` fails.
-/
namespace ReactorNet

/-- The kernel's set: adding fails on a descriptor in the set, the other two on one that
is not. -/
def EpollOp.ctl {C : Type} (set : ChannelMap (C × Interest)) (op : EpollOp) (fd : ℤ)
    (event : C × Interest) : Option (ChannelMap (C × Interest)) :=
  match op, set.find fd with
  | .EPOLL_CTL_ADD, none => some (set.insert fd event)
  | .EPOLL_CTL_MOD, some _ => some (set.insert fd event)
  | .EPOLL_CTL_DEL, some _ => some (set.erase fd)
  | _, _ => none

/-- `EPollPoller` and the channels of its loop; `events_` only counts with its size. -/
structure EPollChannels (C : Type) where
  channel : C → PolledChannel ChannelIndex
  channels_ : ChannelMap C
  epollSet : ChannelMap (C × Interest)
  eventsSize : ℕ

def kInitEventListSize : ℕ := 16

/-- What happens to the poller: a call on one of its channels, or a poll in which the
kernel reports some descriptors. -/
inductive EPollAction (C : Type) where
  | call (c : C) (k : ChannelCall)
  | poll (ready : List (ℤ × Revents))

namespace EPollChannels

variable {C : Type}

def construct : EPollChannels C :=
  ⟨fun _ => PolledChannel.construct .kNew, .empty, .empty, kInitEventListSize⟩

/-- What `epoll_wait` writes for the descriptors it reports. -/
def epollWait (x : EPollChannels C) (ready : List (ℤ × Revents)) : List (C × Revents) :=
  ready.filterMap fun r => (x.epollSet.find r.1).map fun event => (event.1, r.2)

/-- A removal is of a channel in its loop, without interest. The kernel reports
descriptors of its set, each once, with events that were asked for, and no more than
`events_` can hold. -/
def legal (x : EPollChannels C) : EPollAction C → Prop
  | .call _ (.update _) => True
  | .call c .remove => (x.channel c).addedToLoop_ = true ∧ (x.channel c).isNoneEvent = true
  | .poll ready => ready.length ≤ x.eventsSize ∧ (ready.map Prod.fst).Nodup ∧
      ∀ r ∈ ready, (x.epollSet.find r.1).any (fun event => event.2.admits r.2) = true

instance (x : EPollChannels C) : (a : EPollAction C) → Decidable (legal x a)
  | .call _ (.update _) => inferInstanceAs (Decidable True)
  | .call c .remove => inferInstanceAs
    (Decidable ((x.channel c).addedToLoop_ = true ∧ (x.channel c).isNoneEvent = true))
  | .poll ready => inferInstanceAs
    (Decidable (ready.length ≤ x.eventsSize ∧ (ready.map Prod.fst).Nodup ∧
      ∀ r ∈ ready, (x.epollSet.find r.1).any (fun event => event.2.admits r.2) = true))

variable [DecidableEq C] (fd : C → ℕ)

def setChannel (x : EPollChannels C) (c : C) (channel : PolledChannel ChannelIndex) :
    EPollChannels C :=
  { x with channel := Function.update x.channel c channel }

def set_index (x : EPollChannels C) (c : C) (index : ChannelIndex) : EPollChannels C :=
  x.setChannel c ((x.channel c).set_index index)

def hasChannel (x : EPollChannels C) (c : C) : Prop := x.channels_.find (fd c) = some c

instance (x : EPollChannels C) (c : C) : Decidable (x.hasChannel fd c) :=
  inferInstanceAs (Decidable (x.channels_.find (fd c) = some c))

def update (x : EPollChannels C) (operation : EpollOp) (c : C) : Option (EPollChannels C) :=
  (operation.ctl x.epollSet (fd c) (c, (x.channel c).events_)).map fun set =>
    { x with epollSet := set }

def updateChannel (x : EPollChannels C) (c : C) : Option (EPollChannels C) :=
  match (x.channel c).index_ with
  | .kNew =>
    if x.channels_.find (fd c) = none then
      let y := { x with channels_ := x.channels_.insert (fd c) c }
      (y.set_index c .kAdded).update fd .EPOLL_CTL_ADD c
    else none
  | .kDeleted =>
    if x.hasChannel fd c then (x.set_index c .kAdded).update fd .EPOLL_CTL_ADD c else none
  | .kAdded =>
    if x.hasChannel fd c then
      if (x.channel c).isNoneEvent then
        (x.update fd .EPOLL_CTL_DEL c).map fun y => y.set_index c .kDeleted
      else x.update fd .EPOLL_CTL_MOD c
    else none

def removeChannel (x : EPollChannels C) (c : C) : Option (EPollChannels C) :=
  let index := (x.channel c).index_
  if x.hasChannel fd c ∧ (x.channel c).isNoneEvent ∧ index ≠ .kNew then
    let y := { x with channels_ := x.channels_.erase (fd c) }
    (if index = .kAdded then y.update fd .EPOLL_CTL_DEL c else some y).map fun z =>
      z.set_index c .kNew
  else none

/-- A call on a channel, down to the poller. -/
def call (x : EPollChannels C) : C × ChannelCall → Option (EPollChannels C)
  | (c, .update op) => (x.setChannel c ((x.channel c).setEvents op)).updateChannel fd c
  | (c, .remove) =>
    if (x.channel c).isNoneEvent then (x.setChannel c (x.channel c).unloop).removeChannel fd c
    else none

/-- The loop of `fillActiveChannels` over the rest of `events_`. -/
def fillFrom (x : EPollChannels C) : List (C × Revents) → Option (EPollChannels C × List C)
  | [] => some (x, [])
  | (channel, events) :: rest =>
    if x.hasChannel fd channel then
      let y := x.setChannel channel ((x.channel channel).set_revents events)
      (fillFrom y rest).map fun r => (r.1, channel :: r.2)
    else none

def fillActiveChannels (x : EPollChannels C) (events : List (C × Revents)) :
    Option (EPollChannels C × List C) :=
  if events.length ≤ x.eventsSize then x.fillFrom fd events else none

def poll (x : EPollChannels C) (ready : List (ℤ × Revents)) :
    Option (EPollChannels C × List C) :=
  (x.fillActiveChannels fd (x.epollWait ready)).map fun r =>
    if ready.length = x.eventsSize then ({ r.1 with eventsSize := x.eventsSize * 2 }, r.2) else r

def step (x : EPollChannels C) : EPollAction C → Option (EPollChannels C)
  | .call c k => x.call fd (c, k)
  | .poll ready => (x.poll fd ready).map Prod.fst

end EPollChannels

end ReactorNet
