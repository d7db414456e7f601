import ReactorNet.DenseTables
import ReactorNet.PollerChannels

/-!
# The poll poller

The array handed to `poll(2)`, the map from descriptors to channels, and in each
channel the position of its entry. An entry without interest keeps its place under the
negated descriptor. Assertions are compiled out, so that a step without a result is one
that leaves the array or goes through a null pointer.
-/
namespace ReactorNet

open DenseTables

structure Pollfd where
  fd : ℤ
  events : Interest
  revents : Revents

/-- The kernel writes `revents`: nothing for a negative descriptor, `answer` for others. -/
def Pollfd.poll (answer : ℤ → Interest → Revents) (p : Pollfd) : Pollfd :=
  { p with revents := if p.fd < 0 then Revents.zero else answer p.fd p.events }

/-- The poller and the channels of its loop. -/
structure PollPoller (C : Type) where
  channel : C → PolledChannel ℤ
  channels_ : ChannelMap C
  pollfds_ : List Pollfd

namespace PollPoller

variable {C : Type} [DecidableEq C] (fd : C → ℕ)

def construct : PollPoller C := ⟨fun _ => PolledChannel.construct (-1), .empty, []⟩

def setChannel (x : PollPoller C) (c : C) (channel : PolledChannel ℤ) : PollPoller C :=
  { x with channel := Function.update x.channel c channel }

def hasChannel (x : PollPoller C) (c : C) : Prop := x.channels_.find (fd c) = some c

instance (x : PollPoller C) (c : C) : Decidable (x.hasChannel fd c) :=
  inferInstanceAs (Decidable (x.channels_.find (fd c) = some c))

def updateChannel (x : PollPoller C) (c : C) : Option (PollPoller C) :=
  let channel := x.channel c
  if channel.index_ < 0 then
    let pfd : Pollfd := ⟨fd c, channel.events_.toShort, Revents.zero⟩
    let pollfds := x.pollfds_ ++ [pfd]
    let y := x.setChannel c (channel.set_index (pollfds.length - 1))
    some { y with pollfds_ := pollfds, channels_ := x.channels_.insert pfd.fd c }
  else if channel.index_ < x.pollfds_.length then
    let pfd : Pollfd := ⟨if channel.isNoneEvent then -fd c - 1 else fd c, channel.events_.toShort,
      Revents.zero⟩
    some { x with pollfds_ := x.pollfds_.set channel.index_.toNat pfd }
  else none

def removeChannel (x : PollPoller C) (c : C) : Option (PollPoller C) :=
  let idx := (x.channel c).index_
  if 0 ≤ idx ∧ idx < x.pollfds_.length then
    let channels := x.channels_.erase (fd c)
    if idx = (x.pollfds_.length : ℤ) - 1 then
      some { x with channels_ := channels, pollfds_ := x.pollfds_.dropLast }
    else
      x.pollfds_.getLast?.bind fun last =>
        let channelAtEnd := if last.fd < 0 then -last.fd - 1 else last.fd
        (channels.find channelAtEnd).map fun moved =>
          let y := x.setChannel moved ((x.channel moved).set_index idx)
          { y with channels_ := channels, pollfds_ := swapRemove x.pollfds_ idx.toNat }
  else none

/-- A call on a channel, down to the poller. -/
def call (x : PollPoller C) : C × ChannelCall → Option (PollPoller C)
  | (c, .update op) => (x.setChannel c ((x.channel c).setEvents op)).updateChannel fd c
  | (c, .remove) => (x.setChannel c (x.channel c).unloop).removeChannel fd c

/-- The loop of `fillActiveChannels` over the rest of the array. -/
def fillFrom (x : PollPoller C) : List Pollfd → ℕ → Option (PollPoller C × List C)
  | [], _ => some (x, [])
  | _ :: _, 0 => some (x, [])
  | pfd :: rest, numEvents + 1 =>
    if pfd.revents.positive then
      (x.channels_.find pfd.fd).bind fun channel =>
        let y := x.setChannel channel ((x.channel channel).set_revents pfd.revents)
        (fillFrom y rest numEvents).map fun r => (r.1, channel :: r.2)
    else fillFrom x rest (numEvents + 1)

def fillActiveChannels (x : PollPoller C) (numEvents : ℕ) : Option (PollPoller C × List C) :=
  x.fillFrom x.pollfds_ numEvents

/-- `poll(2)` on the array: the entries the kernel answers, and how many it answers. -/
def kernelPoll (answer : ℤ → Interest → Revents) (x : PollPoller C) : PollPoller C × ℕ :=
  let pollfds := x.pollfds_.map (Pollfd.poll answer)
  ({ x with pollfds_ := pollfds }, pollfds.countP fun p => p.revents.positive)

def poll (answer : ℤ → Interest → Revents) (x : PollPoller C) : Option (PollPoller C × List C) :=
  (x.kernelPoll answer).1.fillActiveChannels (x.kernelPoll answer).2

end PollPoller

end ReactorNet
