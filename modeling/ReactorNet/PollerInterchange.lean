import ReactorNet.EPollChannelsInStep
import ReactorNet.PollPollerTable

/-!
# The two pollers side by side

The same calls applied to a poll poller and an epoll poller, with polls in between. They
report the same channels as long as no call updates a channel that was removed, none leaves
a channel without interest that epoll has already taken out of the kernel's set, and
`events_` has room for all that is ready.
-/
namespace ReactorNet

open GuardedRuns

variable {C : Type} {fd : C → ℕ}

namespace EPollChannels

/-- What the kernel has to report. -/
def readyList (x : EPollChannels C) (ready : ℤ → Revents) : List (ℤ × Revents) :=
  x.epollSet.entries.filterMap fun entry =>
    let revents := entry.2.2.report (ready entry.1)
    if revents.positive then some (entry.1, revents) else none

/-- `epoll_wait` writes as much of it as `events_` has room for, of its own choice. -/
def Writes (x : EPollChannels C) (ready : ℤ → Revents) (written : List (ℤ × Revents)) : Prop :=
  written.Subperm (x.readyList ready) ∧
    written.length = min (x.readyList ready).length x.eventsSize

instance (x : EPollChannels C) (ready : ℤ → Revents) (written : List (ℤ × Revents)) :
    Decidable (x.Writes ready written) := inferInstanceAs (Decidable (_ ∧ _))

/-- `events_` has room for all that is ready. -/
def Fits (x : EPollChannels C) (ready : ℤ → Revents) : Prop :=
  (x.readyList ready).length ≤ x.eventsSize

variable {x : EPollChannels C} {ready : ℤ → Revents}

theorem mem_readyList {k : ℤ} {r : Revents} : (k, r) ∈ x.readyList ready ↔
    ∃ event, x.epollSet.find k = some event ∧ r = event.2.report (ready k) ∧
      r.positive = true := by
  rw [readyList, List.mem_filterMap]
  constructor
  · rintro ⟨⟨k', event⟩, hentry, h⟩
    have hfind := AList.mem_lookup_iff.mpr hentry
    simp only at h
    split at h
    · cases h
      exact ⟨event, hfind, rfl, by assumption⟩
    · cases h
  · rintro ⟨event, hfind, rfl, hpos⟩
    exact ⟨⟨k, event⟩, AList.mem_lookup_iff.mp hfind, by simp [hpos]⟩

/-- No descriptor is reported twice. -/
theorem nodup_readyList (x : EPollChannels C) (ready : ℤ → Revents) :
    (x.readyList ready).Nodup := by
  refine (List.nodupKeys_iff_pairwise.mp x.epollSet.nodupKeys).filterMap _ ?_
  rintro ⟨k, event⟩ ⟨k', event'⟩ hne r hr r' hr' rfl
  obtain ⟨-, hk⟩ := Option.ite_none_right_eq_some.mp hr
  obtain ⟨-, hk'⟩ := Option.ite_none_right_eq_some.mp hr'
  have hfst := congrArg Prod.fst (Option.some.inj (hk.trans hk'.symm))
  exact hne hfst

theorem Writes.subset {written : List (ℤ × Revents)} (h : x.Writes ready written) :
    written ⊆ x.readyList ready := h.1.subset

theorem Writes.length_le {written : List (ℤ × Revents)} (h : x.Writes ready written) :
    written.length ≤ x.eventsSize := h.2 ▸ Nat.min_le_right ..

/-- What is ready and fits is written. -/
theorem Writes.mem_iff {written : List (ℤ × Revents)} (h : x.Writes ready written)
    (hfits : x.Fits ready) (e : ℤ × Revents) : e ∈ written ↔ e ∈ x.readyList ready := by
  have hlen : written.length = (x.readyList ready).length := h.2.trans (Nat.min_eq_left hfits)
  exact (h.1.perm_of_length_le (Nat.le_of_eq hlen.symm)).mem_iff

theorem writes_readyList (hfits : x.Fits ready) : x.Writes ready (x.readyList ready) :=
  ⟨List.Subperm.refl _, (Nat.min_eq_left hfits).symm⟩

/-- Where not all fits, something is left out. -/
theorem exists_writes_left (hfull : ¬x.Fits ready) : ∃ written, x.Writes ready written ∧
    ∃ e ∈ x.readyList ready, e ∉ written := by
  have hroom : x.eventsSize < (x.readyList ready).length := Nat.lt_of_not_le hfull
  refine ⟨(x.readyList ready).take x.eventsSize, ⟨(List.take_sublist ..).subperm, ?_⟩, ?_⟩
  · rw [List.length_take, Nat.min_comm]
  · by_contra hall
    push Not at hall
    have hle := (List.subperm_of_subset (x.nodup_readyList ready) hall).length_le
    rw [List.length_take] at hle
    omega

end EPollChannels

namespace PollerPair

/-- The channels the kernel watches for the epoll poller. -/
def added (x : EPollChannels C) (c : C) : Bool := (x.channel c).index_ = .kAdded

/-- The two pollers watch the same channels with the same interest. -/
structure Alike (fd : C → ℕ) (p : PollPoller C) (x : EPollChannels C) : Prop where
  represents : p.Represents fd (added x)
  inStep : x.InStep fd
  events : ∀ c, (p.channel c).events_ = (x.channel c).events_
  member : ∀ c, p.hasChannel fd c ↔ (x.channel c).index_ ≠ .kNew
  room : 0 < x.eventsSize

theorem alike_construct (fd : C → ℕ) :
    Alike fd PollPoller.construct (EPollChannels.construct : EPollChannels C) := by
  refine ⟨PollPoller.represents_construct fd _, EPollChannels.inStep_construct fd,
    fun c => rfl, fun c => ?_, Nat.succ_pos 15⟩
  simp [PollPoller.hasChannel, PollPoller.construct, EPollChannels.construct,
    PolledChannel.construct]

end PollerPair

/-- What the kernel leaves in the entry of a channel: nothing where the entry is negated. -/
theorem PollPoller.Represents.entry_kernelPoll {on : C → Bool} {x : PollPoller C}
    (h : Represents fd on x) (ready : ℤ → Revents) {c : C} (hc : x.hasChannel fd c) :
    ∃ p, (x.kernelPoll fun k e => e.report (ready k)).1.entry c = some p ∧
      p.revents =
        if on c then (x.channel c).events_.report (ready (fd c)) else Revents.zero := by
  obtain ⟨p, hp, -, hpfd, hevents⟩ := h.entry_owned hc
  refine ⟨p.poll fun k e => e.report (ready k), ?_, ?_⟩
  · rw [PollPoller.kernelPoll_entry, hp, Option.map_some]
  · cases hon : on c with
    | true =>
      rw [hon, if_pos rfl] at hpfd
      have hnonneg : ¬p.fd < 0 := by omega
      rw [Pollfd.poll, if_neg hnonneg, hevents, hpfd, Interest.report_toShort, if_pos rfl]
    | false =>
      rw [hon, if_neg Bool.false_ne_true] at hpfd
      have hneg : p.fd < 0 := by omega
      rw [Pollfd.poll, if_pos hneg, if_neg Bool.false_ne_true]

/-- The channel of each descriptor that is written is the one registered with it. -/
theorem EPollChannels.InStep.mem_epollWait_iff {x : EPollChannels C} (h : InStep fd x)
    {ready : ℤ → Revents} {written : List (ℤ × Revents)} (hw : x.Writes ready written) (c : C)
    (r : Revents) : (c, r) ∈ x.epollWait written ↔ ((fd c : ℤ), r) ∈ written := by
  constructor
  · intro hc
    obtain ⟨k, event, hk, hevent, rfl⟩ := mem_epollWait hc
    rwa [h.kernelKeys k event hevent] at hk
  · intro hc
    obtain ⟨event, hevent, -⟩ := mem_readyList.mp (hw.subset hc)
    refine List.mem_filterMap.mpr ⟨_, hc, ?_⟩
    have hfind := (h.agrees c).kernel
    rw [hevent] at hfind
    cases hindex : (x.channel c).index_ with
    | kNew | kDeleted =>
      rw [hindex] at hfind
      cases hfind
    | kAdded =>
      rw [hindex] at hfind
      rw [hevent, Option.some.inj hfind]
      rfl

variable [DecidableEq C]

/-- The channels `fillActiveChannels` reports, each with the events it gets. -/
def PollPoller.report (x : PollPoller C) (ready : ℤ → Revents) : Option (List (C × Revents)) :=
  (x.poll fun k e => e.report (ready k)).map fun r =>
    r.2.map fun c => (c, (r.1.channel c).revents_)

def EPollChannels.report (fd : C → ℕ) (x : EPollChannels C) (written : List (ℤ × Revents)) :
    Option (List (C × Revents)) :=
  (x.poll fd written).map fun r => r.2.map fun c => (c, (r.1.channel c).revents_)

/-- A poll poller, as long as it has not run into undefined behaviour, and an epoll
poller. -/
structure PollerPair (C : Type) where
  poll : Option (PollPoller C)
  epoll : EPollChannels C

/-- A call on a channel, or a poll of both pollers in which the kernel of the second writes
`written`. -/
inductive PairAction (C : Type) where
  | call (c : C) (k : ChannelCall)
  | poll (ready : ℤ → Revents) (written : List (ℤ × Revents))

namespace PollerPair

def construct : PollerPair C := ⟨some PollPoller.construct, EPollChannels.construct⟩

def step (fd : C → ℕ) (s : PollerPair C) : PairAction C → Option (PollerPair C)
  | .call c k => (s.epoll.call fd (c, k)).map fun epoll =>
    ⟨s.poll.bind fun p => p.call fd (c, k), epoll⟩
  | .poll ready written => (s.epoll.poll fd written).map fun r =>
    ⟨s.poll.bind fun p => (p.poll fun k e => e.report (ready k)).map Prod.fst, r.1⟩

/-- A removal is of a channel in its loop, without interest. -/
def legal (s : PollerPair C) : PairAction C → Prop
  | .call _ (.update op) => op.levelTriggered = true
  | .call c .remove => (s.epoll.channel c).addedToLoop_ = true ∧
      (s.epoll.channel c).isNoneEvent = true
  | .poll ready written => s.epoll.Writes ready written

/-- Both pollers report the same, whatever the kernel chooses to write. -/
def SameReport (fd : C → ℕ) (s : PollerPair C) (ready : ℤ → Revents) : Prop :=
  ∃ p a, s.poll = some p ∧ p.report ready = some a ∧
    ∀ written, s.epoll.Writes ready written →
      ∃ b, s.epoll.report fd written = some b ∧ ∀ r, r ∈ a ↔ r ∈ b

/-- Both pollers report the same, whatever is ready and fits into `events_`. -/
def Interchangeable (fd : C → ℕ) (s : PollerPair C) : Prop :=
  ∀ ready, s.epoll.Fits ready → SameReport fd s ready

/-- The call does not update a channel that was removed, and does not leave a deleted one
without interest. -/
def keepsAlike (fd : C → ℕ) (s : PollerPair C) : PairAction C → Prop
  | .call c (.update op) =>
    s.poll.all (fun p => decide ((p.channel c).index_ < 0 ∨ p.hasChannel fd c)) = true ∧
      ¬((s.epoll.channel c).index_ = .kDeleted ∧
        (op.events (s.epoll.channel c).events_).isNoneEvent = true)
  | _ => True

end PollerPair

/-! ## The reports -/

/-- The poll poller reports the watched channels on which something is ready. -/
theorem PollPoller.Represents.report_spec {on : C → Bool} {x : PollPoller C}
    (h : Represents fd on x) (hfd : Function.Injective fd) (ready : ℤ → Revents) :
    ∃ a, x.report ready = some a ∧ ∀ c r, (c, r) ∈ a ↔ x.hasChannel fd c ∧ on c = true ∧
      r = (x.channel c).events_.report (ready (fd c)) ∧ r.positive = true := by
  obtain ⟨y, active, hpoll, -, -, hmem, hmark, -⟩ :=
    h.poll_spec hfd fun k e => e.report (ready k)
  refine ⟨_, by rw [report, hpoll]; rfl, ?_⟩
  intro c r
  simp only [List.mem_map, Prod.mk.injEq]
  constructor
  · rintro ⟨n, hn, rfl, rfl⟩
    obtain ⟨hc, q, hq, hpos⟩ := (hmem n).mp hn
    obtain ⟨p, hp, hrevents⟩ := h.entry_kernelPoll ready hc
    obtain ⟨q', hq', hy⟩ := hmark n hn
    cases hp.symm.trans hq
    cases hp.symm.trans hq'
    cases hon : on n with
    | true =>
      rw [hon, if_pos rfl] at hrevents
      refine ⟨hc, rfl, ?_, ?_⟩
      · rw [hy, ← hrevents]
        rfl
      · rw [hy]
        exact hpos
    | false =>
      rw [hrevents, hon, if_neg Bool.false_ne_true] at hpos
      cases hpos
  · rintro ⟨hc, hon, hr, hpos⟩
    obtain ⟨p, hp, hrevents⟩ := h.entry_kernelPoll ready hc
    rw [hon, if_pos rfl, ← hr] at hrevents
    have hin : c ∈ active := (hmem c).mpr ⟨hc, p, hp, hrevents ▸ hpos⟩
    obtain ⟨q, hq, hy⟩ := hmark c hin
    cases hp.symm.trans hq
    refine ⟨c, hin, rfl, ?_⟩
    rw [hy, ← hrevents]
    rfl

/-- Whatever the array holds, a reported channel is in the map. -/
theorem PollPoller.find_of_fillFrom {x y : PollPoller C} {rest : List Pollfd} {numEvents : ℕ}
    {active : List C} (h : x.fillFrom rest numEvents = some (y, active)) {c : C}
    (hc : c ∈ active) : ∃ k, x.channels_.find k = some c := by
  induction rest generalizing x numEvents active with
  | nil =>
    cases h
    cases hc
  | cons p rest ih =>
    cases numEvents with
    | zero =>
      cases h
      cases hc
    | succ k =>
      rw [fillFrom] at h
      split at h
      · obtain ⟨n, hn, h⟩ := Option.bind_eq_some_iff.mp h
        obtain ⟨r, hr, h⟩ := Option.map_eq_some_iff.mp h
        cases h
        rcases List.mem_cons.mp hc with rfl | hc
        · exact ⟨_, hn⟩
        · have hk := ih hr hc
          exact hk
      · exact ih h hc

theorem PollPoller.find_of_report {x : PollPoller C} {ready : ℤ → Revents}
    {a : List (C × Revents)} (h : x.report ready = some a) {r : C × Revents} (hr : r ∈ a) :
    ∃ k, x.channels_.find k = some r.1 := by
  obtain ⟨⟨y, active⟩, hpoll, rfl⟩ := Option.map_eq_some_iff.mp h
  obtain ⟨c, hc, rfl⟩ := List.mem_map.mp hr
  exact find_of_fillFrom hpoll hc

/-- The epoll poller reports the channels for whose descriptors the kernel has written
something. -/
theorem EPollChannels.InStep.report_spec {x : EPollChannels C} (h : InStep fd x)
    {ready : ℤ → Revents} {written : List (ℤ × Revents)} (hw : x.Writes ready written) :
    ∃ b, x.report fd written = some b ∧ ∀ c r, (c, r) ∈ b ↔ ((fd c : ℤ), r) ∈ written := by
  have hmem := h.mem_epollWait_iff hw
  have hin : ∀ e ∈ x.epollWait written, x.hasChannel fd e.1 := by
    intro e he
    obtain ⟨k, event, -, hevent, hee⟩ := mem_epollWait he
    exact hee ▸ (h.kAdded_of_kernel hevent).2.1
  have hlen : (x.epollWait written).length ≤ x.eventsSize :=
    Nat.le_trans (List.length_filterMap_le _ _) hw.length_le
  obtain ⟨y, hy, -, -, hrevents⟩ := fillFrom_spec fd _ x hin
  have hreport : x.report fd written =
      some (((x.epollWait written).map Prod.fst).map fun c => (c, (y.channel c).revents_)) := by
    rw [report, EPollChannels.poll, fillActiveChannels, if_pos hlen, hy, Option.map_some,
      Option.map_some]
    split <;> rfl
  refine ⟨_, hreport, fun c r => ?_⟩
  rw [← hmem c r]
  constructor
  · intro hc
    obtain ⟨n, hn, he⟩ := List.mem_map.mp hc
    obtain ⟨hnc, hr⟩ := Prod.mk.inj he
    rw [← hnc, ← hr]
    exact hrevents n hn
  · intro hc
    have hn : c ∈ (x.epollWait written).map Prod.fst :=
      List.mem_map_of_mem (f := Prod.fst) hc
    -- The kernel reports a descriptor with the same events each time.
    obtain ⟨event, hevent, hr, -⟩ := mem_readyList.mp (hw.subset ((hmem c r).mp hc))
    obtain ⟨event', hevent', hr', -⟩ := mem_readyList.mp
      (hw.subset ((hmem c _).mp (hrevents c hn)))
    cases hevent.symm.trans hevent'
    exact List.mem_map.mpr ⟨c, hn, by rw [hr, hr']⟩

/-! ## The calls -/

/-- The update of a channel that has an index leaves the map alone. -/
theorem PollPoller.channels_of_update {x y : PollPoller C} {c : C} {op : ChannelOp}
    (h : x.call fd (c, .update op) = some y) (hindex : ¬(x.channel c).index_ < 0) :
    y.channels_ = x.channels_ := by
  simp only [call, updateChannel] at h
  split at h
  · next hneg =>
    simp only [channel_setChannel, Function.update_self, PolledChannel.index_setEvents] at hneg
    exact absurd hneg hindex
  · split at h
    · cases h
      rfl
    · cases h

namespace PollerPair

variable {p q : PollPoller C} {x y : EPollChannels C} {c : C}

/-- What the poll poller reports is what epoll's kernel has to report. -/
theorem Alike.report_poll (h : Alike fd p x) (hfd : Function.Injective fd) (ready : ℤ → Revents) :
    ∃ a, p.report ready = some a ∧
      ∀ c r, (c, r) ∈ a ↔ ((fd c : ℤ), r) ∈ x.readyList ready := by
  obtain ⟨a, ha, hmem⟩ := h.represents.report_spec hfd ready
  refine ⟨a, ha, fun c r => ?_⟩
  have hkernel := (h.inStep.agrees c).kernel
  rw [hmem, h.events, h.member, added, decide_eq_true_eq, EPollChannels.mem_readyList, hkernel]
  cases hindex : (x.channel c).index_ <;> simp [ChannelIndex.registered]

/-- Alike pollers report the same exactly where `events_` has room for what is ready. -/
theorem Alike.sameReport_iff (h : Alike fd p x) (hfd : Function.Injective fd)
    (ready : ℤ → Revents) : SameReport fd ⟨some p, x⟩ ready ↔ x.Fits ready := by
  obtain ⟨a, ha, hmem⟩ := h.report_poll hfd ready
  constructor
  · rintro ⟨p', a', hp', ha', hsame⟩
    cases hp'
    cases ha.symm.trans ha'
    by_contra hfull
    obtain ⟨written, hw, ⟨k, r⟩, hin, hout⟩ := EPollChannels.exists_writes_left hfull
    obtain ⟨event, hevent, -⟩ := EPollChannels.mem_readyList.mp hin
    have hkey := h.inStep.kernelKeys k event hevent
    subst hkey
    obtain ⟨b, hb, hab⟩ := hsame written hw
    obtain ⟨b', hb', hmem'⟩ := h.inStep.report_spec hw
    cases hb.symm.trans hb'
    exact hout ((hmem' _ r).mp ((hab _).mp ((hmem _ r).mpr hin)))
  · intro hfits
    refine ⟨p, a, rfl, ha, fun written hw => ?_⟩
    obtain ⟨b, hb, hmem'⟩ := h.inStep.report_spec hw
    refine ⟨b, hb, ?_⟩
    rintro ⟨c, r⟩
    rw [hmem, hmem', hw.mem_iff hfits]

theorem Alike.interchangeable (h : Alike fd p x) (hfd : Function.Injective fd) :
    Interchangeable fd ⟨some p, x⟩ := fun ready hfits => (h.sameReport_iff hfd ready).mpr hfits

/-- With the calls specified separately, what is left is bookkeeping. -/
theorem Alike.of_call (h : Alike fd p x) (hfd : Function.Injective fd) {k : ChannelCall}
    (hp : p.call fd (c, k) = some q) {on : C → Bool} (hrep : q.Represents fd on)
    (hon : ∀ n, n ≠ c → on n = added x n) (honc : on c = added y c)
    (helse : EPollChannels.Elsewhere fd c x y) (hagrees : y.Agrees fd c)
    (hevents : (y.channel c).events_ = k.events (x.channel c).events_)
    (hmem : ∀ n, n ≠ c → (q.hasChannel fd n ↔ p.hasChannel fd n))
    (hmemc : q.hasChannel fd c ↔ (y.channel c).index_ ≠ .kNew) : Alike fd q y := by
  have hadded : on = added y := by
    funext n
    by_cases hn : n = c
    · exact hn ▸ honc
    · rw [hon n hn, added, added, helse.channel n hn]
  refine ⟨hadded ▸ hrep, h.inStep.elsewhere hfd helse hagrees, ?_, ?_, helse.eventsSize ▸ h.room⟩
  · intro n
    rw [PollPoller.events_call hp n]
    by_cases hn : n = c
    · rw [if_pos hn, hn, hevents, h.events]
    · rw [if_neg hn, helse.channel n hn, h.events]
  · intro n
    by_cases hn : n = c
    · exact hn ▸ hmemc
    · rw [hmem n hn, helse.channel n hn, h.member]

/-- A call that keeps the pollers alike does the same to both. -/
theorem Alike.call (h : Alike fd p x) (hfd : Function.Injective fd) {k : ChannelCall}
    (hlegal : legal ⟨some p, x⟩ (.call c k)) (hok : keepsAlike fd ⟨some p, x⟩ (.call c k)) :
    ∃ q y, p.call fd (c, k) = some q ∧ x.call fd (c, k) = some y ∧ Alike fd q y := by
  cases k with
  | update op =>
    obtain ⟨hremoved, hdeleted⟩ := hok
    simp only [Option.all_some, decide_eq_true_eq] at hremoved
    obtain ⟨y, hy, hagrees, helse, hevents, hindex⟩ := (h.inStep.agrees c).update op
    have hmemc : (y.channel c).index_ ≠ .kNew := by
      rw [hindex]
      exact ChannelIndex.next_ne_kNew _ _
    by_cases hnew : (p.channel c).index_ < 0
    · have hnot := h.represents.not_hasChannel hnew
      obtain ⟨q, hq, hrep, hmem, -, -⟩ :=
        h.represents.updateNew (h.represents.find_eq_none hnot hfd) op hnew
      have hkNew : (x.channel c).index_ = .kNew := by
        rw [h.member, not_not] at hnot
        exact hnot
      refine ⟨q, y, hq, hy, h.of_call hfd hq hrep ?_ ?_ helse hagrees hevents ?_ ?_⟩
      · intro n hn
        simp [hn]
      · rw [Function.update_self, added, hindex, hkNew]
        rfl
      · intro n hn
        rw [hmem]
        exact ⟨fun hor => hor.resolve_left hn, Or.inr⟩
      · exact ⟨fun _ => hmemc, fun _ => (hmem c).mpr (Or.inl rfl)⟩
    · have hc := hremoved.resolve_left hnew
      obtain ⟨q, hq, hrep, hmem, -⟩ := h.represents.updateOld op hc
      refine ⟨q, y, hq, hy, h.of_call hfd hq hrep ?_ ?_ helse hagrees hevents ?_ ?_⟩
      · intro n hn
        simp [hn]
      · rw [Function.update_self, added, hindex, h.events]
        cases hi : (x.channel c).index_ with
        | kNew => exact absurd hi ((h.member c).mp hc)
        | kAdded => cases (op.events (x.channel c).events_).isNoneEvent <;> rfl
        | kDeleted =>
          have hsome : (op.events (x.channel c).events_).isNoneEvent = false :=
            Bool.eq_false_iff.mpr fun hnone => hdeleted ⟨hi, hnone⟩
          rw [hsome]
          rfl
      · exact fun n _ => hmem n
      · exact ⟨fun _ => hmemc, fun _ => (hmem c).mpr hc⟩
  | remove =>
    obtain ⟨y, hy, hagrees, helse, hevents, hnew⟩ := (h.inStep.agrees c).remove hlegal.1 hlegal.2
    have hc : p.hasChannel fd c := (h.member c).mpr ((h.inStep.agrees c).added.mp hlegal.1)
    have hon : ∀ n, n ≠ c → added y n = added x n := by
      intro n hn
      rw [added, added, helse.channel n hn]
    obtain ⟨q, hq, ⟨hrep, hmem⟩, -⟩ := h.represents.remove hc hon
    refine ⟨q, y, hq, hy, h.of_call hfd hq hrep hon rfl helse hagrees hevents ?_ ?_⟩
    · intro n hn
      rw [hmem]
      exact ⟨And.right, fun hc => ⟨hn, hc⟩⟩
    · rw [hmem, hnew]
      exact ⟨fun hc => absurd rfl hc.1, fun hne => absurd rfl hne⟩

/-- A poll keeps the pollers alike. -/
theorem Alike.poll (h : Alike fd p x) (hfd : Function.Injective fd) {ready : ℤ → Revents}
    {written : List (ℤ × Revents)} (hw : x.Writes ready written) :
    ∃ q a y b, (p.poll fun k e => e.report (ready k)) = some (q, a) ∧
      x.poll fd written = some (y, b) ∧ Alike fd q y := by
  obtain ⟨q, a, hq, -⟩ := h.represents.poll_spec hfd fun k e => e.report (ready k)
  obtain ⟨hrep, hchannels, hevents⟩ := h.represents.poll_keeps hq
  obtain ⟨y, b, hy, hstep, hmarked, -⟩ := h.inStep.poll hw.length_le
  have hsame : ∀ c, (y.channel c).index_ = (x.channel c).index_ ∧
      (y.channel c).events_ = (x.channel c).events_ := by
    intro c
    obtain ⟨r, hr⟩ := hmarked.channel c
    rw [hr]
    exact ⟨rfl, rfl⟩
  have hadded : added x = added y := by
    funext c
    rw [added, added, (hsame c).1]
  refine ⟨q, a, y, b, hq, hy, hadded ▸ hrep, hstep, fun c => ?_, fun c => ?_,
    Nat.lt_of_lt_of_le h.room hmarked.eventsSize⟩
  · rw [hevents, h.events, (hsame c).2]
  · rw [PollPoller.hasChannel, hchannels, (hsame c).1]
    exact h.member c

/-- An error on one descriptor, and nothing on the others. -/
def errorOn (k : ℤ) : ℤ → Revents :=
  Function.update (fun _ => Revents.zero) k ⟨false, false, false, true, false, false, false⟩

/-- An added channel that the poll poller cannot report tells the pollers apart. -/
theorem not_interchangeable_of_added (hy : y.InStep fd) (hroom : 0 < y.eventsSize)
    (hindex : (y.channel c).index_ = .kAdded) {poll : Option (PollPoller C)}
    (hreport : ∀ q ready a r, poll = some q → q.report ready = some a → (c, r) ∉ a) :
    ¬Interchangeable fd ⟨poll, y⟩ := by
  intro hi
  have hkernel := (hy.agrees c).kernel
  rw [hindex] at hkernel
  -- Only the descriptor of the channel is ready, for which there is room.
  have hready : y.readyList (errorOn (fd c)) ⊆
      [((fd c : ℤ), (y.channel c).events_.report (errorOn (fd c) (fd c)))] := by
    rintro ⟨k, r⟩ hin
    obtain ⟨event, hevent, rfl, hpos⟩ := EPollChannels.mem_readyList.mp hin
    by_cases hk : k = fd c
    · subst hk
      cases hkernel.symm.trans hevent
      exact List.mem_singleton_self _
    · simp [errorOn, hk, Revents.positive, Revents.zero, Interest.report] at hpos
  have hfits : y.Fits (errorOn (fd c)) := by
    have hle := (List.subperm_of_subset (y.nodup_readyList _) hready).length_le
    exact Nat.le_trans hle hroom
  obtain ⟨q, a, hq, ha, hsame⟩ := hi _ hfits
  obtain ⟨b, hb, hab⟩ := hsame _ (EPollChannels.writes_readyList hfits)
  obtain ⟨b', hb', hmem⟩ := hy.report_spec (EPollChannels.writes_readyList hfits)
  cases hb.symm.trans hb'
  apply hreport q _ a _ hq ha
  refine (hab _).mpr ((hmem c _).mpr (EPollChannels.mem_readyList.mpr ⟨_, hkernel, rfl, ?_⟩))
  exact Revents.positive_report_of_pollerr _ (by simp [errorOn])

/-- A call that does not keep the pollers alike lets epoll watch a channel the poll
poller does not report. -/
theorem Alike.not_interchangeable (h : Alike fd p x) (hfd : Function.Injective fd)
    {k : ChannelCall} (hbad : ¬keepsAlike fd ⟨some p, x⟩ (.call c k))
    (hy : x.call fd (c, k) = some y) : ¬Interchangeable fd ⟨p.call fd (c, k), y⟩ := by
  cases k with
  | remove => exact absurd trivial hbad
  | update op =>
    obtain ⟨y', hy', hagrees, helse, -, hindex⟩ := (h.inStep.agrees c).update op
    cases hy.symm.trans hy'
    have hstep := h.inStep.elsewhere hfd helse hagrees
    have hroom : 0 < y.eventsSize := helse.eventsSize ▸ h.room
    by_cases hremoved : (p.channel c).index_ < 0 ∨ p.hasChannel fd c
    · have hdeleted : (x.channel c).index_ = .kDeleted ∧
          (op.events (x.channel c).events_).isNoneEvent = true := by
        by_contra hnot
        exact hbad ⟨by simpa using hremoved, hnot⟩
      have hc : p.hasChannel fd c := (h.member c).mpr (by rw [hdeleted.1]; decide)
      obtain ⟨q, hq, hrep, -, -⟩ := h.represents.updateOld op hc
      apply not_interchangeable_of_added hstep hroom (c := c)
      · rw [hindex, hdeleted.1]
        rfl
      · intro q' ready a r hq' ha hr
        cases hq.symm.trans hq'
        obtain ⟨a', ha', hmem⟩ := hrep.report_spec hfd ready
        cases ha.symm.trans ha'
        have hon := ((hmem c r).mp hr).2.1
        rw [Function.update_self, h.events, hdeleted.2] at hon
        cases hon
    · obtain ⟨hpos, hnot⟩ := not_or.mp hremoved
      have hkNew : (x.channel c).index_ = .kNew := by
        rw [h.member, not_not] at hnot
        exact hnot
      apply not_interchangeable_of_added hstep hroom (c := c)
      · rw [hindex, hkNew]
        rfl
      · intro q ready a r hq ha hr
        obtain ⟨k, hk⟩ := PollPoller.find_of_report ha hr
        rw [PollPoller.channels_of_update hq hpos] at hk
        rw [h.represents.keys k c hk] at hk
        exact hnot hk

theorem construct_interchangeable (hfd : Function.Injective fd) :
    Interchangeable fd (construct : PollerPair C) :=
  (alike_construct fd).interchangeable hfd

theorem inStep_step (hfd : Function.Injective fd) (s : PollerPair C) (a : PairAction C)
    (h : s.epoll.InStep fd) (ha : legal s a) :
    ∃ t, step fd s a = some t ∧ t.epoll.InStep fd := by
  cases a with
  | call c k =>
    cases k with
    | update op =>
      obtain ⟨y, hy, hagrees, helse, -⟩ := (h.agrees c).update op
      exact ⟨_, by rw [step, hy]; rfl, h.elsewhere hfd helse hagrees⟩
    | remove =>
      obtain ⟨y, hy, hagrees, helse, -⟩ := (h.agrees c).remove ha.1 ha.2
      exact ⟨_, by rw [step, hy]; rfl, h.elsewhere hfd helse hagrees⟩
  | poll ready written =>
    obtain ⟨y, active, hy, hstep, -⟩ := h.poll (EPollChannels.Writes.length_le ha)
    exact ⟨_, by rw [step, hy]; rfl, hstep⟩

/-- As long as the pollers report the same they are alike. -/
def Follows (fd : C → ℕ) (s : PollerPair C) : Prop :=
  Interchangeable fd s → ∃ p, s.poll = some p ∧ Alike fd p s.epoll

theorem step_of_alike (hfd : Function.Injective fd) (s : PollerPair C) (a : PairAction C)
    (t : PollerPair C) (h : Follows fd s) (hs : Interchangeable fd s) (ha : legal s a)
    (ht : step fd s a = some t) :
    (keepsAlike fd s a → ∃ q, t.poll = some q ∧ Alike fd q t.epoll) ∧
      (¬keepsAlike fd s a → ¬Interchangeable fd t) := by
  obtain ⟨p, hp, halike⟩ := h hs
  obtain ⟨poll, x⟩ := s
  simp only at hp halike
  subst hp
  cases a with
  | call c k =>
    obtain ⟨y, hy, rfl⟩ := Option.map_eq_some_iff.mp ht
    constructor
    · intro hok
      obtain ⟨q, y', hq, hy', halike'⟩ := halike.call hfd ha hok
      cases hy.symm.trans hy'
      exact ⟨q, hq, halike'⟩
    · intro hbad
      exact halike.not_interchangeable hfd hbad hy
  | poll ready written =>
    obtain ⟨q, active, y, b, hq, hy, halike'⟩ := halike.poll hfd ha
    obtain ⟨r, hr, rfl⟩ := Option.map_eq_some_iff.mp ht
    cases hy.symm.trans hr
    exact ⟨fun _ => ⟨q, by simp [hq], halike'⟩, fun hbad => absurd trivial hbad⟩

theorem alike_step (hfd : Function.Injective fd) (s : PollerPair C) (a : PairAction C)
    (t : PollerPair C) (h : ∃ p, s.poll = some p ∧ Alike fd p s.epoll)
    (ha : legal s a ∧ keepsAlike fd s a) (ht : step fd s a = some t) :
    ∃ q, t.poll = some q ∧ Alike fd q t.epoll := by
  have hs : Interchangeable fd s := by
    obtain ⟨poll, x⟩ := s
    obtain ⟨p, rfl, halike⟩ := h
    exact halike.interchangeable hfd
  exact (step_of_alike hfd s a t (fun _ => h) hs ha.1 ht).1 ha.2

theorem follows_step (hfd : Function.Injective fd) (s : PollerPair C) (a : PairAction C)
    (t : PollerPair C) (h : Follows fd s) (hs : Interchangeable fd s) (ha : legal s a)
    (ht : step fd s a = some t) : Follows fd t := by
  intro hi
  obtain ⟨hkeep, hbreak⟩ := step_of_alike hfd s a t h hs ha ht
  by_cases hok : keepsAlike fd s a
  · exact hkeep hok
  · exact absurd hi (hbreak hok)

theorem interchangeable_step (hfd : Function.Injective fd) (s : PollerPair C) (a : PairAction C)
    (t : PollerPair C) (h : Follows fd s) (hs : Interchangeable fd s) (ha : legal s a)
    (ht : step fd s a = some t) : Interchangeable fd t ↔ keepsAlike fd s a := by
  obtain ⟨hkeep, hbreak⟩ := step_of_alike hfd s a t h hs ha ht
  constructor
  · intro hi
    by_contra hbad
    exact hbreak hbad hi
  · intro hok
    obtain ⟨q, hq, halike⟩ := hkeep hok
    obtain ⟨poll, y⟩ := t
    simp only at hq halike
    subst hq
    exact halike.interchangeable hfd

/-- After every run of calls and polls both pollers report the same, whatever is ready and
fits into `events_`, exactly in the runs that never update a removed channel and never leave
a deleted one without interest once more. In these they differ wherever not all that is
ready fits. -/
theorem interchangeable_iff_keepsAlike (fd : C → ℕ) (hfd : Function.Injective fd)
    (actions : List (PairAction C)) (hlegal : Meets (step fd) legal construct actions) :
    ∃ s, run (step fd) construct actions = some s ∧
      (Throughout (step fd) (Interchangeable fd) construct actions ↔
        Meets (step fd) (keepsAlike fd) construct actions) ∧
      (Meets (step fd) (keepsAlike fd) construct actions →
        ∀ ready, SameReport fd s ready ↔ s.epoll.Fits ready) := by
  obtain ⟨s, hs, -⟩ := meets_run (inStep_step hfd) (EPollChannels.inStep_construct fd) hlegal
  refine ⟨s, hs, throughout_iff_meets (follows_step hfd) (interchangeable_step hfd)
    (fun _ => ⟨_, rfl, alike_construct fd⟩) (construct_interchangeable hfd) hlegal hs, ?_⟩
  intro hok
  have halike := meets_invariant (alike_step hfd) ⟨_, rfl, alike_construct fd⟩ (hlegal.and hok) hs
  obtain ⟨poll, x⟩ := s
  obtain ⟨p, rfl, halike⟩ := halike
  exact halike.sameReport_iff hfd

instance (s : PollerPair C) : (a : PairAction C) → Decidable (legal s a)
  | .call _ (.update op) => inferInstanceAs (Decidable (op.levelTriggered = true))
  | .call c .remove => inferInstanceAs (Decidable ((s.epoll.channel c).addedToLoop_ = true ∧
      (s.epoll.channel c).isNoneEvent = true))
  | .poll ready written => inferInstanceAs (Decidable (s.epoll.Writes ready written))

instance (s : PollerPair C) : (a : PairAction C) → Decidable (keepsAlike fd s a)
  | .call c (.update op) => inferInstanceAs (Decidable
    (s.poll.all (fun p => decide ((p.channel c).index_ < 0 ∨ p.hasChannel fd c)) = true ∧
      ¬((s.epoll.channel c).index_ = .kDeleted ∧
        (op.events (s.epoll.channel c).events_).isNoneEvent = true)))
  | .call _ .remove => inferInstanceAs (Decidable True)
  | .poll _ _ => inferInstanceAs (Decidable True)

/-- Two channels come and are polled, one of them pauses, resumes and leaves. -/
theorem interchangeable_pausing :
    Throughout (step id) (Interchangeable id) construct
      [.call 0 (.update .enableReading), .call 1 (.update .enableReading),
        .poll (errorOn 1) [(1, ⟨false, false, false, true, false, false, false⟩)],
        .call 0 (.update .disableAll), .call 0 (.update .enableWriting),
        .call 0 (.update .disableWriting), .call 0 .remove] := by
  obtain ⟨s, -, hiff, -⟩ := interchangeable_iff_keepsAlike id Function.injective_id
    [.call 0 (.update .enableReading), .call 1 (.update .enableReading),
      .poll (errorOn 1) [(1, ⟨false, false, false, true, false, false, false⟩)],
      .call 0 (.update .disableAll), .call 0 (.update .enableWriting),
      .call 0 (.update .disableWriting), .call 0 .remove] (by decide +kernel)
  exact hiff.mpr (by decide +kernel)

/-- Channels that are disabled twice are watched by epoll only; one enabled again after its
removal takes the entry of another channel, whose events the poll poller loses; and of
seventeen channels that are ready epoll reports the sixteen for which `events_` has room. -/
theorem pollers_differ :
    (Meets (step id) legal construct [.call 0 (.update .enableReading), .call 0 (.update .disableAll),
        .call 0 (.update .disableAll)] ∧
      ∃ s p, run (step id) construct [.call 0 (.update .enableReading),
          .call 0 (.update .disableAll), .call 0 (.update .disableAll)] = some s ∧ s.poll = some p ∧
        p.report (errorOn 0) = some [] ∧
        s.epoll.Writes (errorOn 0) [(0, ⟨false, false, false, true, false, false, false⟩)] ∧
        s.epoll.report id [(0, ⟨false, false, false, true, false, false, false⟩)] =
          some [(0, ⟨false, false, false, true, false, false, false⟩)]) ∧
    (Meets (step id) legal construct [.call 0 (.update .enableReading),
        .call 1 (.update .enableReading), .call 0 (.update .disableAll), .call 0 .remove,
        .call 0 (.update .enableReading)] ∧
      ∃ s p, run (step id) construct [.call 0 (.update .enableReading),
          .call 1 (.update .enableReading), .call 0 (.update .disableAll), .call 0 .remove,
          .call 0 (.update .enableReading)] = some s ∧
        s.poll = some p ∧ p.report (errorOn 1) = some [] ∧
        s.epoll.Writes (errorOn 1) [(1, ⟨false, false, false, true, false, false, false⟩)] ∧
        s.epoll.report id [(1, ⟨false, false, false, true, false, false, false⟩)] =
          some [(1, ⟨false, false, false, true, false, false, false⟩)]) ∧
    Meets (step id) legal construct ((List.range 17).map fun c =>
        .call c (.update .enableReading)) ∧
      ∃ s p, run (step id) construct ((List.range 17).map fun c =>
          .call c (.update .enableReading)) = some s ∧ s.poll = some p ∧
        (p.report fun _ => ⟨true, false, false, false, false, false, false⟩) =
          some ((List.range 17).map fun c => (c, ⟨true, false, false, false, false, false, false⟩)) ∧
        s.epoll.Writes (fun _ => ⟨true, false, false, false, false, false, false⟩)
          ((List.range 16).map fun c => (c, ⟨true, false, false, false, false, false, false⟩)) ∧
        s.epoll.report id
            ((List.range 16).map fun c => (c, ⟨true, false, false, false, false, false, false⟩)) =
          some ((List.range 16).map fun c =>
            (c, ⟨true, false, false, false, false, false, false⟩)) := by
  refine ⟨⟨by decide +kernel, _, _, rfl, rfl, rfl, by decide +kernel, rfl⟩,
    ⟨by decide +kernel, _, _, rfl, rfl, rfl, by decide +kernel, rfl⟩,
    by decide +kernel, _, _, rfl, rfl, rfl, by decide +kernel, rfl⟩

end PollerPair

end ReactorNet
