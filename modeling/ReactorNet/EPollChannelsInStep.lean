import ReactorNet.EPollChannels

/-!
# The epoll poller stays in step with the kernel

`index_` tells for every channel what the map and the kernel's set hold under its
descriptor. A call on one channel leaves the entries of all others alone.
-/
namespace ReactorNet

/-- What `index_` says about the map and the kernel's set. -/
def ChannelIndex.registered {C : Type} (c : C) (events : Interest) :
    ChannelIndex → Option C × Option (C × Interest)
  | .kNew => (none, none)
  | .kAdded => (some c, some (c, events))
  | .kDeleted => (some c, none)

/-- The index after an update that leaves some or no interest. -/
def ChannelIndex.next (isNone : Bool) : ChannelIndex → ChannelIndex
  | .kNew => .kAdded
  | .kDeleted => .kAdded
  | .kAdded => if isNone then .kDeleted else .kAdded

theorem ChannelIndex.next_ne_kNew (isNone : Bool) (index : ChannelIndex) :
    index.next isNone ≠ .kNew := by
  cases index <;> cases isNone <;> intro h <;> cases h

namespace EPollChannels

variable {C : Type} {fd : C → ℕ} {x y : EPollChannels C} {c : C}

/-- The entries under the descriptor of the channel are those its index names. -/
structure Agrees (fd : C → ℕ) (x : EPollChannels C) (c : C) : Prop where
  registered : (x.channels_.find (fd c), x.epollSet.find (fd c)) =
    (x.channel c).index_.registered c (x.channel c).events_
  added : (x.channel c).addedToLoop_ = true ↔ (x.channel c).index_ ≠ .kNew

structure InStep (fd : C → ℕ) (x : EPollChannels C) : Prop where
  keys : ∀ k c, x.channels_.find k = some c → k = fd c
  kernelKeys : ∀ k event, x.epollSet.find k = some event → k = fd event.1
  agrees : ∀ c, Agrees fd x c

/-- Everything that is not about the channel is as it was. -/
structure Elsewhere (fd : C → ℕ) (c : C) (x y : EPollChannels C) : Prop where
  channel : ∀ n, n ≠ c → y.channel n = x.channel n
  find : ∀ k : ℤ, k ≠ fd c → y.channels_.find k = x.channels_.find k
  kernel : ∀ k : ℤ, k ≠ fd c → y.epollSet.find k = x.epollSet.find k
  eventsSize : y.eventsSize = x.eventsSize

theorem Agrees.find (h : Agrees fd x c) : x.channels_.find (fd c) =
    ((x.channel c).index_.registered c (x.channel c).events_).1 :=
  congrArg Prod.fst h.registered

theorem Agrees.kernel (h : Agrees fd x c) : x.epollSet.find (fd c) =
    ((x.channel c).index_.registered c (x.channel c).events_).2 :=
  congrArg Prod.snd h.registered

theorem inStep_construct (fd : C → ℕ) : InStep fd construct := by
  refine ⟨?_, ?_, fun c => ⟨rfl, ?_⟩⟩
  · intro k c h
    simp [construct] at h
  · intro k event h
    simp [construct] at h
  · simp [construct, PolledChannel.construct]

/-- Agreement about the channel of a call is enough. -/
theorem InStep.elsewhere (h : InStep fd x) (hfd : Function.Injective fd)
    (helse : Elsewhere fd c x y) (hagrees : Agrees fd y c) : InStep fd y := by
  refine ⟨?_, ?_, ?_⟩
  · intro k n hk
    by_cases hkc : k = fd c
    · subst hkc
      rw [hagrees.find] at hk
      cases hi : (y.channel c).index_ with
      | kNew =>
        rw [hi] at hk
        cases hk
      | kAdded | kDeleted =>
        rw [hi] at hk
        cases hk
        rfl
    · rw [helse.find k hkc] at hk
      exact h.keys k n hk
  · intro k event hk
    by_cases hkc : k = fd c
    · subst hkc
      rw [hagrees.kernel] at hk
      cases hi : (y.channel c).index_ with
      | kNew | kDeleted =>
        rw [hi] at hk
        cases hk
      | kAdded =>
        rw [hi] at hk
        cases hk
        rfl
    · rw [helse.kernel k hkc] at hk
      exact h.kernelKeys k event hk
  · intro n
    by_cases hn : n = c
    · exact hn ▸ hagrees
    · have hne : (fd n : ℤ) ≠ fd c := by exact_mod_cast hfd.ne hn
      constructor
      · rw [helse.channel n hn, helse.find _ hne, helse.kernel _ hne]
        exact (h.agrees n).registered
      · rw [helse.channel n hn]
        exact (h.agrees n).added

/-- A poll writes nothing but `revents_`; `events_` may grow. -/
structure Marked (x y : EPollChannels C) : Prop where
  channel : ∀ n, ∃ r, y.channel n = (x.channel n).set_revents r
  find : y.channels_ = x.channels_
  kernel : y.epollSet = x.epollSet
  eventsSize : x.eventsSize ≤ y.eventsSize

theorem InStep.marked (h : InStep fd x) (hm : Marked x y) : InStep fd y := by
  refine ⟨?_, ?_, ?_⟩
  · rw [hm.find]
    exact h.keys
  · rw [hm.kernel]
    exact h.kernelKeys
  · intro n
    obtain ⟨r, hr⟩ := hm.channel n
    constructor
    · rw [hr, hm.find, hm.kernel]
      exact (h.agrees n).registered
    · rw [hr]
      exact (h.agrees n).added

/-- Only an added channel is in the kernel's set. -/
theorem InStep.kAdded_of_kernel (h : InStep fd x) {k : ℤ} {event : C × Interest}
    (hk : x.epollSet.find k = some event) :
    (x.channel event.1).index_ = .kAdded ∧ x.hasChannel fd event.1 ∧
      event = (event.1, (x.channel event.1).events_) := by
  have hkey := h.kernelKeys k event hk
  have hagrees := h.agrees event.1
  have hkernel := hagrees.kernel
  rw [← hkey, hk] at hkernel
  cases hi : (x.channel event.1).index_ with
  | kNew | kDeleted =>
    rw [hi] at hkernel
    cases hkernel
  | kAdded =>
    rw [hi] at hkernel
    refine ⟨rfl, ?_, Option.some.inj hkernel⟩
    rw [hasChannel, hagrees.find, hi]
    rfl

theorem mem_epollWait {ready : List (ℤ × Revents)} {e : C × Revents}
    (he : e ∈ x.epollWait ready) :
    ∃ k event, (k, e.2) ∈ ready ∧ x.epollSet.find k = some event ∧ event.1 = e.1 := by
  obtain ⟨⟨k, r⟩, hr, hmap⟩ := List.mem_filterMap.mp he
  obtain ⟨event, hevent, rfl⟩ := Option.map_eq_some_iff.mp hmap
  exact ⟨k, event, hr, hevent, rfl⟩

variable [DecidableEq C]

@[simp] theorem channel_setChannel (x : EPollChannels C) (c : C)
    (channel : PolledChannel ChannelIndex) :
    (x.setChannel c channel).channel = Function.update x.channel c channel := rfl

/-- The state after a call on `c`: its fields, the map and the kernel's set. -/
def put (x : EPollChannels C) (c : C) (channel : PolledChannel ChannelIndex)
    (channels : ChannelMap C) (epollSet : ChannelMap (C × Interest)) : EPollChannels C :=
  { x with channel := Function.update x.channel c channel, channels_ := channels, epollSet := epollSet }

variable {channel : PolledChannel ChannelIndex} {channels : ChannelMap C}
  {epollSet : ChannelMap (C × Interest)}

@[simp] theorem channel_put : (x.put c channel channels epollSet).channel c = channel := by
  simp [put]

theorem agrees_put
    (hfind : channels.find (fd c) = (channel.index_.registered c channel.events_).1)
    (hkernel : epollSet.find (fd c) = (channel.index_.registered c channel.events_).2)
    (hadded : channel.addedToLoop_ = true ↔ channel.index_ ≠ .kNew) :
    Agrees fd (x.put c channel channels epollSet) c := by
  constructor
  · rw [channel_put]
    exact Prod.ext hfind hkernel
  · rw [channel_put]
    exact hadded

theorem elsewhere_put (hfind : ∀ k : ℤ, k ≠ fd c → channels.find k = x.channels_.find k)
    (hkernel : ∀ k : ℤ, k ≠ fd c → epollSet.find k = x.epollSet.find k) :
    Elsewhere fd c x (x.put c channel channels epollSet) := by
  refine ⟨?_, hfind, hkernel, rfl⟩
  intro n hn
  simp [put, hn]

theorem call_update_kNew (op : ChannelOp) (hindex : (x.channel c).index_ = .kNew)
    (hfind : x.channels_.find (fd c) = none) (hkernel : x.epollSet.find (fd c) = none) :
    x.call fd (c, .update op) = some (x.put c (((x.channel c).setEvents op).set_index .kAdded)
      (x.channels_.insert (fd c) c)
      (x.epollSet.insert (fd c) (c, op.events (x.channel c).events_))) := by
  simp [call, updateChannel, hindex, hfind, update, EpollOp.ctl, hkernel, set_index, setChannel, put]

theorem call_update_kDeleted (op : ChannelOp) (hindex : (x.channel c).index_ = .kDeleted)
    (hfind : x.channels_.find (fd c) = some c) (hkernel : x.epollSet.find (fd c) = none) :
    x.call fd (c, .update op) = some (x.put c (((x.channel c).setEvents op).set_index .kAdded)
      x.channels_ (x.epollSet.insert (fd c) (c, op.events (x.channel c).events_))) := by
  simp [call, updateChannel, hasChannel, hindex, hfind, update, EpollOp.ctl, hkernel, set_index,
    setChannel, put]

theorem call_update_kAdded (op : ChannelOp) {event : C × Interest}
    (hindex : (x.channel c).index_ = .kAdded) (hfind : x.channels_.find (fd c) = some c)
    (hkernel : x.epollSet.find (fd c) = some event) :
    x.call fd (c, .update op) = some
      (if (op.events (x.channel c).events_).isNoneEvent then
        x.put c (((x.channel c).setEvents op).set_index .kDeleted) x.channels_
          (x.epollSet.erase (fd c))
      else
        x.put c ((x.channel c).setEvents op) x.channels_
          (x.epollSet.insert (fd c) (c, op.events (x.channel c).events_))) := by
  cases hnone : (op.events (x.channel c).events_).isNoneEvent <;>
    simp [call, updateChannel, hasChannel, hindex, hfind, update, EpollOp.ctl, hkernel, set_index,
      setChannel, put, PolledChannel.isNoneEvent, hnone]

theorem call_remove (hnone : (x.channel c).isNoneEvent = true)
    (hfind : x.channels_.find (fd c) = some c) (hindex : (x.channel c).index_ ≠ .kNew)
    (hkernel : (x.channel c).index_ = .kAdded → (x.epollSet.find (fd c)).isSome = true) :
    x.call fd (c, .remove) = some (x.put c ((x.channel c).unloop.set_index .kNew)
      (x.channels_.erase (fd c))
      (if (x.channel c).index_ = .kAdded then x.epollSet.erase (fd c) else x.epollSet)) := by
  by_cases hadded : (x.channel c).index_ = .kAdded
  · obtain ⟨event, hevent⟩ := Option.isSome_iff_exists.mp (hkernel hadded)
    have hnone' : (x.channel c).unloop.isNoneEvent = true := hnone
    simp [call, removeChannel, hasChannel, hnone, hnone', hfind, hadded, update, EpollOp.ctl, hevent,
      set_index, setChannel, put]
  · have hnone' : (x.channel c).unloop.isNoneEvent = true := hnone
    simp [call, removeChannel, hasChannel, hnone, hnone', hfind, hadded, hindex, set_index,
      setChannel, put]

/-- An update of a channel passes its assertions, `epoll_ctl` succeeds, and the index
names the new entries. -/
theorem Agrees.update (h : Agrees fd x c) (op : ChannelOp) :
    ∃ y, x.call fd (c, .update op) = some y ∧ Agrees fd y c ∧ Elsewhere fd c x y ∧
      (y.channel c).events_ = op.events (x.channel c).events_ ∧
      (y.channel c).index_ =
        (x.channel c).index_.next (op.events (x.channel c).events_).isNoneEvent := by
  have hfind := h.find
  have hkernel := h.kernel
  cases hindex : (x.channel c).index_ with
  | kNew =>
    rw [hindex] at hfind hkernel
    refine ⟨_, call_update_kNew op hindex hfind hkernel, agrees_put ?_ ?_ ?_,
      elsewhere_put (ChannelMap.find_insert_ne _ _ _) (ChannelMap.find_insert_ne _ _ _), by simp, by simp; rfl⟩
    · simp [ChannelMap.find_insert, ChannelIndex.registered]
    · simp [ChannelMap.find_insert, ChannelIndex.registered]
    · simp
  | kDeleted =>
    rw [hindex] at hfind hkernel
    refine ⟨_, call_update_kDeleted op hindex hfind hkernel, agrees_put ?_ ?_ ?_,
      elsewhere_put (fun _ _ => rfl) (ChannelMap.find_insert_ne _ _ _), by simp, by simp; rfl⟩
    · simpa [ChannelIndex.registered] using hfind
    · simp [ChannelMap.find_insert, ChannelIndex.registered]
    · simp
  | kAdded =>
    rw [hindex] at hfind hkernel
    refine ⟨_, call_update_kAdded op hindex hfind hkernel, ?_⟩
    cases hnone : (op.events (x.channel c).events_).isNoneEvent with
    | true =>
      refine ⟨agrees_put ?_ ?_ ?_, elsewhere_put (fun _ _ => rfl) (ChannelMap.find_erase_ne _ _), by simp,
        by simp; rfl⟩
      · simpa [ChannelIndex.registered] using hfind
      · simp [ChannelMap.find_erase, ChannelIndex.registered]
      · simp
    | false =>
      refine ⟨agrees_put ?_ ?_ ?_, elsewhere_put (fun _ _ => rfl) (ChannelMap.find_insert_ne _ _ _), by simp,
        by simp [hindex]; rfl⟩
      · simpa [ChannelIndex.registered, hindex] using hfind
      · simp [ChannelMap.find_insert, ChannelIndex.registered, hindex]
      · simp [hindex]

/-- A removal of an added channel passes its assertions, and nothing is left of it. -/
theorem Agrees.remove (h : Agrees fd x c) (hadded : (x.channel c).addedToLoop_ = true)
    (hnone : (x.channel c).isNoneEvent = true) :
    ∃ y, x.call fd (c, .remove) = some y ∧ Agrees fd y c ∧ Elsewhere fd c x y ∧
      (y.channel c).events_ = (x.channel c).events_ ∧ (y.channel c).index_ = .kNew := by
  have hindex := h.added.mp hadded
  have hfind : x.channels_.find (fd c) = some c := by
    rw [h.find]
    cases hi : (x.channel c).index_ with
    | kNew => exact absurd hi hindex
    | kAdded | kDeleted => rfl
  have hkernel : (x.channel c).index_ = .kAdded → (x.epollSet.find (fd c)).isSome = true := by
    intro hi
    rw [h.kernel, hi]
    rfl
  refine ⟨_, call_remove hnone hfind hindex hkernel, agrees_put ?_ ?_ ?_,
    elsewhere_put (ChannelMap.find_erase_ne _ _) ?_, by simp, by simp⟩
  · simp [ChannelMap.find_erase, ChannelIndex.registered]
  · by_cases hi : (x.channel c).index_ = .kAdded
    · simp [hi, ChannelMap.find_erase, ChannelIndex.registered]
    · rw [if_neg hi, h.kernel]
      cases hj : (x.channel c).index_ with
      | kNew => exact absurd hj hindex
      | kAdded => exact absurd hj hi
      | kDeleted => rfl
  · simp
  · intro k hk
    split
    · exact ChannelMap.find_erase_ne _ _ k hk
    · rfl

theorem fillFrom_spec (fd : C → ℕ) (events : List (C × Revents)) (x : EPollChannels C)
    (hevents : ∀ e ∈ events, x.hasChannel fd e.1) :
    ∃ y, x.fillFrom fd events = some (y, events.map Prod.fst) ∧ Marked x y ∧
      (∀ n, n ∉ events.map Prod.fst → y.channel n = x.channel n) ∧
      ∀ n ∈ events.map Prod.fst, (n, (y.channel n).revents_) ∈ events := by
  induction events generalizing x with
  | nil =>
    refine ⟨x, rfl, ⟨fun n => ⟨(x.channel n).revents_, rfl⟩, rfl, rfl, Nat.le_refl _⟩,
      fun n _ => rfl, ?_⟩
    intro n hn
    cases hn
  | cons e events ih =>
    obtain ⟨c, r⟩ := e
    obtain ⟨y, hy, hmarked, hrest, hrevents⟩ := ih
      (x.setChannel c ((x.channel c).set_revents r))
      (fun e he => hevents e (List.mem_cons_of_mem _ he))
    have hc := hevents (c, r) List.mem_cons_self
    refine ⟨y, by simp [fillFrom, hc, hy], ⟨?_, hmarked.find, hmarked.kernel, hmarked.eventsSize⟩, ?_, ?_⟩
    · intro n
      obtain ⟨q, hq⟩ := hmarked.channel n
      refine ⟨q, hq.trans ?_⟩
      by_cases hn : n = c
      · subst hn
        simp [PolledChannel.set_revents]
      · simp [hn]
    · intro n hn
      have hnc : n ≠ c := fun h => hn (h ▸ List.mem_cons_self)
      rw [hrest n (fun h => hn (List.mem_cons_of_mem _ h))]
      simp [hnc]
    · intro n hn
      by_cases hin : n ∈ events.map Prod.fst
      · exact List.mem_cons_of_mem _ (hrevents n hin)
      · have hnc : n = c := (List.mem_cons.mp hn).resolve_right hin
        subst hnc
        rw [hrest n hin]
        simp

/-- A poll passes its assertions and reports added channels only. -/
theorem InStep.poll (h : InStep fd x) {ready : List (ℤ × Revents)}
    (hsize : ready.length ≤ x.eventsSize) :
    ∃ y active, x.poll fd ready = some (y, active) ∧ InStep fd y ∧ Marked x y ∧
      ∀ c ∈ active, (x.channel c).index_ = .kAdded := by
  have hlen : (x.epollWait ready).length ≤ x.eventsSize :=
    Nat.le_trans (List.length_filterMap_le _ _) hsize
  have hin : ∀ e ∈ x.epollWait ready, (x.channel e.1).index_ = .kAdded ∧ x.hasChannel fd e.1 := by
    intro e he
    obtain ⟨k, event, -, hevent, he⟩ := mem_epollWait he
    obtain ⟨hi, hc, -⟩ := h.kAdded_of_kernel hevent
    rw [he] at hi hc
    exact ⟨hi, hc⟩
  obtain ⟨y, hy, hmarked, -, -⟩ := fillFrom_spec fd (x.epollWait ready) x fun e he => (hin e he).2
  have hactive : ∀ c ∈ (x.epollWait ready).map Prod.fst, (x.channel c).index_ = .kAdded := by
    intro c hc
    obtain ⟨e, he, rfl⟩ := List.mem_map.mp hc
    exact (hin e he).1
  by_cases hfull : ready.length = x.eventsSize
  · have hgrown : Marked x { y with eventsSize := x.eventsSize * 2 } :=
      ⟨hmarked.channel, hmarked.find, hmarked.kernel, Nat.le_mul_of_pos_right _ Nat.zero_lt_two⟩
    exact ⟨_, _, by simp [EPollChannels.poll, fillActiveChannels, hlen, hy, hfull], h.marked hgrown,
      hgrown, hactive⟩
  · exact ⟨_, _, by simp [EPollChannels.poll, fillActiveChannels, hlen, hy, hfull],
      h.marked hmarked, hmarked, hactive⟩

/-! ## Runs -/

theorem InStep.step (h : InStep fd x) (hfd : Function.Injective fd) {a : EPollAction C}
    (ha : legal x a) :
    ∃ y, x.step fd a = some y ∧ InStep fd y ∧
      ∀ n, (∀ op, a ≠ .call n (.update op)) → (x.channel n).index_ = .kNew →
        (y.channel n).index_ = .kNew := by
  cases a with
  | call c k =>
    cases k with
    | update op =>
      obtain ⟨y, hy, hagrees, helse, -⟩ := (h.agrees c).update op
      refine ⟨y, hy, h.elsewhere hfd helse hagrees, fun n hn hi => ?_⟩
      have hnc : n ≠ c := by
        rintro rfl
        exact hn op rfl
      rw [helse.channel n hnc]
      exact hi
    | remove =>
      obtain ⟨y, hy, hagrees, helse, -, hnew⟩ := (h.agrees c).remove ha.1 ha.2
      refine ⟨y, hy, h.elsewhere hfd helse hagrees, fun n hn hi => ?_⟩
      by_cases hnc : n = c
      · rw [hnc]
        exact hnew
      · rw [helse.channel n hnc]
        exact hi
  | poll ready =>
    obtain ⟨y, active, hy, hstep, hmarked, -⟩ := h.poll ha.1
    refine ⟨y, by simp [EPollChannels.step, hy], hstep, fun n _ hi => ?_⟩
    obtain ⟨r, hr⟩ := hmarked.channel n
    rw [hr]
    exact hi

theorem InStep.run (h : InStep fd x) (hfd : Function.Injective fd) {actions : List (EPollAction C)}
    (hlegal : GuardedRuns.Meets (EPollChannels.step fd) legal x actions) :
    ∃ y, GuardedRuns.run (EPollChannels.step fd) x actions = some y ∧ InStep fd y ∧
      ∀ n, (∀ op, .call n (.update op) ∉ actions) → (x.channel n).index_ = .kNew →
        (y.channel n).index_ = .kNew := by
  induction actions generalizing x with
  | nil => exact ⟨x, rfl, h, fun n _ hi => hi⟩
  | cons a actions ih =>
    obtain ⟨y, hy, hstep, hkeep⟩ := h.step hfd hlegal.1
    obtain ⟨z, hz, hstep, hkeep'⟩ := ih hstep (hlegal.2 y hy)
    refine ⟨z, GuardedRuns.run_cons_eq_some.mpr ⟨y, hy, hz⟩, hstep, fun n hn hi => ?_⟩
    apply hkeep' n fun op hop => hn op (List.mem_cons_of_mem _ hop)
    exact hkeep n (fun op hop => hn op (hop ▸ List.mem_cons_self)) hi

/-- After a run that removes a channel and does not update it again, its index is that
of a new one. -/
theorem InStep.run_removed (h : InStep fd x) (hfd : Function.Injective fd)
    {before after : List (EPollAction C)}
    (hlegal : GuardedRuns.Meets (EPollChannels.step fd) legal x
      (before ++ .call c .remove :: after))
    (hafter : ∀ op, .call c (.update op) ∉ after)
    (hrun : GuardedRuns.run (EPollChannels.step fd) x (before ++ .call c .remove :: after) = some y) :
    (y.channel c).index_ = .kNew := by
  induction before generalizing x with
  | nil =>
    obtain ⟨z, hz, hagrees, helse, -, hnew⟩ := (h.agrees c).remove hlegal.1.1 hlegal.1.2
    obtain ⟨w, hw, -, hkeep⟩ := (h.elsewhere hfd helse hagrees).run hfd (hlegal.2 z hz)
    obtain ⟨z', hz', hrest⟩ := GuardedRuns.run_cons_eq_some.mp hrun
    cases hz'.symm.trans hz
    cases hrest.symm.trans hw
    exact hkeep c hafter hnew
  | cons a before ih =>
    obtain ⟨z, hz, hstep, -⟩ := h.step hfd hlegal.1
    obtain ⟨z', hz', hrest⟩ := GuardedRuns.run_cons_eq_some.mp hrun
    cases hz'.symm.trans hz
    exact ih hstep (hlegal.2 z hz) hrest

/-- No assertion and no `epoll_ctl` fails in a run of legal actions; the index of every
channel tells exactly what the map and the kernel hold of it; and a poll does not report a
channel after its removal. -/
theorem index_tells_registration (fd : C → ℕ) (hfd : Function.Injective fd)
    (actions : List (EPollAction C))
    (hlegal : GuardedRuns.Meets (step fd) legal construct actions) :
    ∃ x, GuardedRuns.run (step fd) construct actions = some x ∧
      (∀ c, ((x.channel c).index_ = .kAdded ↔
          x.epollSet.find (fd c) = some (c, (x.channel c).events_)) ∧
        ((x.channel c).index_ = .kDeleted ↔
          x.hasChannel fd c ∧ x.epollSet.find (fd c) = none) ∧
        ((x.channel c).index_ = .kNew ↔
          ¬x.hasChannel fd c ∧ x.epollSet.find (fd c) = none)) ∧
      ∀ ready, legal x (.poll ready) → ∃ y active, x.poll fd ready = some (y, active) ∧
        ∀ c before after, actions = before ++ .call c .remove :: after →
          (∀ op, .call c (.update op) ∉ after) → c ∉ active := by
  obtain ⟨x, hx, hstep, -⟩ := (inStep_construct fd).run hfd hlegal
  refine ⟨x, hx, ?_, ?_⟩
  · intro c
    have hfind := (hstep.agrees c).find
    have hkernel := (hstep.agrees c).kernel
    cases hi : (x.channel c).index_ <;> rw [hi] at hfind hkernel <;>
      simp [hasChannel, hfind, hkernel, ChannelIndex.registered]
  · intro ready hready
    obtain ⟨y, active, hy, -, -, hactive⟩ := hstep.poll hready.1
    refine ⟨y, active, hy, ?_⟩
    rintro c before after rfl hafter hc
    have hnew := (inStep_construct fd).run_removed hfd hlegal hafter hx
    rw [hactive c hc] at hnew
    cases hnew

/-- A channel is disabled twice, reported with an error, and removed. -/
theorem index_tells_registration_disabled :
    ∃ x, GuardedRuns.run (step id) construct [.call 3 (.update .enableReading),
        .call 3 (.update .disableAll), .call 3 (.update .disableAll),
        .poll [(3, ⟨false, false, false, true, false, false, false⟩)], .call 3 .remove] = some x ∧
      ((x.channel 3).index_ = .kNew ↔ ¬x.hasChannel id 3 ∧ x.epollSet.find 3 = none) := by
  obtain ⟨x, hx, htells, -⟩ := index_tells_registration id Function.injective_id
    [.call 3 (.update .enableReading), .call 3 (.update .disableAll),
      .call 3 (.update .disableAll), .poll [(3, ⟨false, false, false, true, false, false, false⟩)],
      .call 3 .remove] (by decide +kernel)
  exact ⟨x, hx, (htells 3).2.2⟩

end EPollChannels

end ReactorNet
