import ReactorNet.GuardedRuns
import ReactorNet.PollPoller

/-!
# The poll poller represents its channels

Every channel in the map owns the entry at its position, under its descriptor or the
negated one, and there are no other entries. `on` tells which channels are watched.
-/
namespace ReactorNet.PollPoller

open DenseTables

variable {C : Type} {fd : C → ℕ}

/-- The call is on a channel that was never removed; a removal finds it without
interest. -/
def legal (fd : C → ℕ) (x : PollPoller C) : C × ChannelCall → Prop
  | (c, .update _) => (x.channel c).index_ < 0 ∨ x.hasChannel fd c
  | (c, .remove) => x.hasChannel fd c ∧ (x.channel c).isNoneEvent = true

instance (fd : C → ℕ) [DecidableEq C] (x : PollPoller C) :
    (a : C × ChannelCall) → Decidable (legal fd x a)
  | (c, .update _) =>
    inferInstanceAs (Decidable ((x.channel c).index_ < 0 ∨ x.hasChannel fd c))
  | (c, .remove) =>
    inferInstanceAs (Decidable (x.hasChannel fd c ∧ (x.channel c).isNoneEvent = true))

def owns (fd : C → ℕ) (on : C → Bool) (x : PollPoller C) (p : Pollfd) (c : C) : Prop :=
  p.fd = (if on c then (fd c : ℤ) else -fd c - 1) ∧ p.events = (x.channel c).events_.toShort

/-- The entry at the position of a channel. -/
def entry (x : PollPoller C) (c : C) : Option Pollfd := x.pollfds_[(x.channel c).index_.toNat]?

structure Represents (fd : C → ℕ) (on : C → Bool) (x : PollPoller C) : Prop where
  keys : ∀ k c, x.channels_.find k = some c → k = fd c
  size : x.pollfds_.length = x.channels_.size
  table : Indexed (owns fd on x) x.pollfds_ (x.hasChannel fd) fun c => (x.channel c).index_

theorem owns_fd (hfd : Function.Injective fd) (on : C → Bool) (x : PollPoller C) :
    ∀ p q m n, owns fd on x p m → owns fd on x q n → p.fd = q.fd → m = n := by
  intro p q m n hm hn hpq
  apply hfd
  have he := hm.1.symm.trans (hpq.trans hn.1)
  split at he <;> split at he <;> omega

/-- An entry belongs to one channel of the map. -/
theorem owns_inj (on : C → Bool) (x : PollPoller C) :
    ∀ p m n, x.hasChannel fd m → x.hasChannel fd n → owns fd on x p m → owns fd on x p n →
      m = n := by
  intro p m n hm hn hpm hpn
  have he := hpm.1.symm.trans hpn.1
  have hfd : (fd m : ℤ) = fd n := by
    split at he <;> split at he <;> omega
  rw [hasChannel, hfd, hn] at hm
  exact (Option.some.inj hm).symm

theorem represents_construct (fd : C → ℕ) (on : C → Bool) : Represents fd on construct := by
  refine ⟨?_, rfl, ?_⟩
  · intro k c h
    simp [construct] at h
  · apply Indexed.empty
    intro c h
    simp [hasChannel, construct] at h

variable {on : C → Bool} {x : PollPoller C} {c : C}

theorem Represents.index_nonneg (h : Represents fd on x) (hc : x.hasChannel fd c) :
    0 ≤ (x.channel c).index_ := by
  obtain ⟨i, p, hi, -, -⟩ := h.table.row c hc
  exact hi ▸ Int.natCast_nonneg i

theorem Represents.not_hasChannel (h : Represents fd on x) (hnew : (x.channel c).index_ < 0) :
    ¬x.hasChannel fd c := fun hc => absurd (h.index_nonneg hc) (Int.not_le.mpr hnew)

theorem Represents.find_eq_none (h : Represents fd on x) (hc : ¬x.hasChannel fd c)
    (hfd : Function.Injective fd) : x.channels_.find (fd c) = none := by
  cases hk : x.channels_.find (fd c) with
  | none => rfl
  | some n =>
    have hkey := h.keys _ n hk
    have hn : c = n := hfd (by exact_mod_cast hkey)
    exact absurd (hn ▸ hk) hc

theorem kernelPoll_entry (answer : ℤ → Interest → Revents) (x : PollPoller C) (c : C) :
    (x.kernelPoll answer).1.entry c = (x.entry c).map (Pollfd.poll answer) :=
  List.getElem?_map ..

/-- The kernel answers no entry with a negated descriptor. -/
theorem kernelPoll_fd_nonneg {answer : ℤ → Interest → Revents} {p : Pollfd}
    (hp : p ∈ (x.kernelPoll answer).1.pollfds_) (hpos : p.revents.positive = true) : 0 ≤ p.fd := by
  obtain ⟨q, -, rfl⟩ := List.mem_map.mp hp
  by_contra hneg
  have hq : q.fd < 0 := not_le.mp hneg
  simp [Pollfd.poll, hq] at hpos

theorem Represents.kernelPoll (h : Represents fd on x) (answer : ℤ → Interest → Revents) :
    Represents fd on (x.kernelPoll answer).1 where
  keys := h.keys
  size := by simp [PollPoller.kernelPoll, h.size]
  table := h.table.map (Pollfd.poll answer) fun _ _ ho => ho

theorem Represents.entry_owned (h : Represents fd on x) (hc : x.hasChannel fd c) :
    ∃ p, x.entry c = some p ∧ p ∈ x.pollfds_ ∧ owns fd on x p c := by
  obtain ⟨i, p, hi, hp, ho⟩ := h.table.row c hc
  exact ⟨p, by rw [entry, hi, Int.toNat_natCast, hp], List.mem_of_getElem? hp, ho⟩

/-- An entry that is not negated leads to its channel. -/
theorem Represents.find_of_mem (h : Represents fd on x) {p : Pollfd} (hp : p ∈ x.pollfds_) (hpos : 0 ≤ p.fd) :
    ∃ c, x.channels_.find p.fd = some c ∧ p.fd = fd c ∧ x.entry c = some p := by
  obtain ⟨i, hi⟩ := List.getElem?_of_mem hp
  obtain ⟨c, hc, hci, ho⟩ := h.table.owned hi
  have hfdc : p.fd = fd c := by
    have := ho.1
    split at this
    · exact this
    · omega
  exact ⟨c, hfdc ▸ hc, hfdc, by rw [entry, hci, Int.toNat_natCast, hi]⟩

variable [DecidableEq C]

@[simp] theorem channel_setChannel (x : PollPoller C) (c : C) (channel : PolledChannel ℤ) :
    (x.setChannel c channel).channel = Function.update x.channel c channel := rfl

@[simp] theorem channels_setChannel (x : PollPoller C) (c : C) (channel : PolledChannel ℤ) :
    (x.setChannel c channel).channels_ = x.channels_ := rfl

@[simp] theorem pollfds_setChannel (x : PollPoller C) (c : C) (channel : PolledChannel ℤ) :
    (x.setChannel c channel).pollfds_ = x.pollfds_ := rfl

/-- A call changes the interest of its channel and of no other. -/
theorem events_call {k : ChannelCall} {y : PollPoller C} (h : x.call fd (c, k) = some y) (n : C) :
    (y.channel n).events_ =
      if n = c then k.events (x.channel c).events_ else (x.channel n).events_ := by
  cases k with
  | update op =>
    simp only [call, updateChannel] at h
    split at h
    · cases h
      by_cases hn : n = c
      · subst hn
        simp [ChannelCall.events]
      · simp [hn]
    · split at h
      · cases h
        by_cases hn : n = c
        · subst hn
          simp [ChannelCall.events]
        · simp [hn]
      · cases h
  | remove =>
    have hunloop : ∀ m, (Function.update x.channel c (x.channel c).unloop m).events_ =
        (x.channel m).events_ := by
      intro m
      by_cases hm : m = c
      · subst hm
        simp
      · simp [hm]
    have hsame : (y.channel n).events_ = (x.channel n).events_ := by
      simp only [call, removeChannel] at h
      split at h
      · split at h
        · cases h
          exact hunloop n
        · obtain ⟨last, -, h⟩ := Option.bind_eq_some_iff.mp h
          obtain ⟨moved, -, rfl⟩ := Option.map_eq_some_iff.mp h
          by_cases hn : n = moved
          · subst hn
            simp only [channel_setChannel, Function.update_self, PolledChannel.events_set_index]
            exact hunloop n
          · simp only [channel_setChannel, Function.update_of_ne hn]
            exact hunloop n
      · cases h
    rw [hsame, ChannelCall.events]
    split
    · rename_i hn
      rw [hn]
    · rfl

theorem call_updateNew (op : ChannelOp) (hnew : (x.channel c).index_ < 0) :
    x.call fd (c, .update op) = some
      { channel := Function.update x.channel c
          (((x.channel c).setEvents op).set_index x.pollfds_.length)
        channels_ := x.channels_.insert (fd c) c
        pollfds_ := x.pollfds_ ++
          [⟨fd c, (op.events (x.channel c).events_).toShort, Revents.zero⟩] } := by
  simp [call, updateChannel, hnew]

theorem call_updateOld (op : ChannelOp) {i : ℕ} (hi : (x.channel c).index_ = i)
    (hlt : i < x.pollfds_.length) :
    x.call fd (c, .update op) = some
      { x with
        channel := Function.update x.channel c ((x.channel c).setEvents op)
        pollfds_ := x.pollfds_.set i
          ⟨if (op.events (x.channel c).events_).isNoneEvent then -fd c - 1 else fd c,
            (op.events (x.channel c).events_).toShort, Revents.zero⟩ } := by
  simp [call, updateChannel, hi, hlt, PolledChannel.isNoneEvent]

theorem call_remove_last {i : ℕ} (hi : (x.channel c).index_ = i)
    (hlast : i + 1 = x.pollfds_.length) :
    x.call fd (c, .remove) = some
      { channel := Function.update x.channel c (x.channel c).unloop
        channels_ := x.channels_.erase (fd c)
        pollfds_ := x.pollfds_.dropLast } := by
  have hi' : (i : ℤ) = (x.pollfds_.length : ℤ) - 1 := by omega
  have hlt : i < x.pollfds_.length := by omega
  simp [call, removeChannel, hi, hlt, if_pos hi']

theorem call_remove_moved {i : ℕ} {last : Pollfd} {moved : C} (hi : (x.channel c).index_ = i)
    (hlt : i + 1 < x.pollfds_.length) (hlast : x.pollfds_.getLast? = some last)
    (hmoved : ChannelMap.find (x.channels_.erase (fd c))
      (if last.fd < 0 then -last.fd - 1 else last.fd) = some moved) (hne : moved ≠ c) :
    x.call fd (c, .remove) = some
      { channel := Function.update (Function.update x.channel c (x.channel c).unloop) moved
          ((x.channel moved).set_index i)
        channels_ := x.channels_.erase (fd c)
        pollfds_ := swapRemove x.pollfds_ i } := by
  have hi' : (i : ℤ) ≠ (x.pollfds_.length : ℤ) - 1 := by omega
  have hlt' : (i : ℤ) < x.pollfds_.length := by omega
  simp [call, removeChannel, hi, hi', hlt', hlast, hmoved, hne]

namespace Represents

/-- A first update appends an entry that is watched. -/
theorem updateNew (h : Represents fd on x) (hfind : x.channels_.find (fd c) = none) (op : ChannelOp)
    (hnew : (x.channel c).index_ < 0) :
    ∃ y, x.call fd (c, .update op) = some y ∧
      Represents fd (Function.update on c true) y ∧
      (∀ n, y.hasChannel fd n ↔ n = c ∨ x.hasChannel fd n) ∧
      0 ≤ (y.channel c).index_ ∧ ∀ n, n ≠ c → (y.channel n).index_ = (x.channel n).index_ := by
  have hnot : ¬x.hasChannel fd c := by
    rw [hasChannel, hfind]
    exact Option.some_ne_none c ∘ Eq.symm
  have hmem : ∀ n, ChannelMap.find (x.channels_.insert (fd c) c) (fd n) = some n ↔
      n = c ∨ x.hasChannel fd n := by
    intro n
    rw [ChannelMap.find_insert]
    by_cases hn : n = c
    · subst hn
      simp
    · split
      · next hfd =>
        rw [hasChannel, hfd, hfind]
        simp [hn, Ne.symm hn]
      · exact ⟨Or.inr, fun hor => hor.resolve_left hn⟩
  refine ⟨_, call_updateNew op hnew, ⟨?_, ?_, ?_⟩, hmem, ?_, ?_⟩
  · intro k n hk
    simp only [ChannelMap.find_insert] at hk
    split at hk
    · cases hk
      assumption
    · exact h.keys k n hk
  · simp [ChannelMap.size_insert c hfind, h.size]
  · refine h.table.push hnot ⟨?_, ?_⟩ hmem ?_ ?_ ?_
    · simp
    · simp
    · simp
    · intro n hn
      simp [hn]
    · rintro s n hn ⟨hs, he⟩
      exact ⟨by simpa [hn] using hs, by simpa [hn] using he⟩
  · simp
  · intro n hn
    simp [hn]

/-- A later update rewrites the entry: it is watched as long as there is interest. -/
theorem updateOld (h : Represents fd on x) (op : ChannelOp)
    (hc : x.hasChannel fd c) :
    ∃ y, x.call fd (c, .update op) = some y ∧
      Represents fd (Function.update on c (!(op.events (x.channel c).events_).isNoneEvent)) y ∧
      (∀ n, y.hasChannel fd n ↔ x.hasChannel fd n) ∧
      ∀ n, (y.channel n).index_ = (x.channel n).index_ := by
  obtain ⟨i, p, hi, hp, ho⟩ := h.table.row c hc
  have hlt := h.table.index_lt hc hi
  have hindex : ∀ n, (Function.update x.channel c ((x.channel c).setEvents op) n).index_ =
      (x.channel n).index_ := by
    intro n
    by_cases hn : n = c
    · subst hn
      simp
    · simp [hn]
  refine ⟨_, call_updateOld op hi hlt, ⟨h.keys, ?_, ?_⟩, fun n => Iff.rfl, hindex⟩
  · simp [h.size]
  · refine h.table.set (owns_inj on x) hc hi ⟨?_, ?_⟩ hindex ?_
    · cases hnone : (op.events (x.channel c).events_).isNoneEvent <;>
        simp
    · simp
    · rintro s n hn ⟨hs, he⟩
      exact ⟨by simpa [hn] using hs, by simpa [hn] using he⟩

/-- The map without a channel and the table without its entry belong together. -/
theorem erased (h : Represents fd on x) (hc : x.hasChannel fd c)
    {i : ℕ} (hi : (x.channel c).index_ = i) {y : PollPoller C}
    (hchannels : y.channels_ = x.channels_.erase (fd c))
    (hpollfds : y.pollfds_ = swapRemove x.pollfds_ i)
    (hevents : ∀ n, (y.channel n).events_ = (x.channel n).events_)
    (hindex : ∀ n, x.hasChannel fd n → n ≠ c → (y.channel n).index_ =
      if (x.channel n).index_ = (x.pollfds_.length : ℤ) - 1 then (i : ℤ)
      else (x.channel n).index_)
    {on' : C → Bool} (hon : ∀ n, n ≠ c → on' n = on n) :
    Represents fd on' y ∧ ∀ n, y.hasChannel fd n ↔ n ≠ c ∧ x.hasChannel fd n := by
  have hmem : ∀ n, y.hasChannel fd n ↔ n ≠ c ∧ x.hasChannel fd n := by
    intro n
    rw [hasChannel, hchannels, ChannelMap.find_erase]
    by_cases hn : n = c
    · subst hn
      simp
    · split
      · next hfd =>
        rw [hasChannel, hfd, hc]
        simp [hn, Ne.symm hn]
      · exact ⟨fun h => ⟨hn, h⟩, fun h => h.2⟩
  refine ⟨⟨?_, ?_, ?_⟩, hmem⟩
  · intro k n hk
    rw [hchannels, ChannelMap.find_erase] at hk
    split at hk
    · cases hk
    · exact h.keys k n hk
  · have hsize := ChannelMap.size_erase c hc
    have hlen := h.size
    rw [hpollfds, hchannels, length_swapRemove]
    omega
  · rw [hpollfds]
    refine h.table.swapRemove (owns_inj on x) hc hi hmem hindex ?_
    rintro s n hn ⟨hs, he⟩
    exact ⟨by rw [hs, hon n hn], by rw [he, hevents]⟩

/-- The entry at the end is dropped. -/
theorem removeLast (h : Represents fd on x) (hc : x.hasChannel fd c)
    {i : ℕ} (hi : (x.channel c).index_ = i) (hlast : i + 1 = x.pollfds_.length)
    {on' : C → Bool} (hon : ∀ n, n ≠ c → on' n = on n) :
    ∃ y, x.call fd (c, .remove) = some y ∧
      (Represents fd on' y ∧ ∀ n, y.hasChannel fd n ↔ n ≠ c ∧ x.hasChannel fd n) ∧
      ∀ n, 0 ≤ (x.channel n).index_ → 0 ≤ (y.channel n).index_ := by
  have hindex : ∀ n, (Function.update x.channel c (x.channel c).unloop n).index_ =
      (x.channel n).index_ := by
    intro n
    by_cases hn : n = c
    · subst hn
      simp
    · simp [hn]
  refine ⟨_, call_remove_last hi hlast,
    h.erased hc hi rfl (swapRemove_last hlast).symm ?_ ?_ hon, ?_⟩
  · intro n
    by_cases hn : n = c
    · subst hn
      simp
    · simp [hn]
  · intro n hn hnc
    have hne := mt (h.table.index_inj (owns_inj on x) hn hc) hnc
    rw [hindex, if_neg (by omega)]
  · intro n hn
    rw [hindex]
    exact hn

/-- The channel of the last entry is found by its descriptor and gets the free position. -/
theorem removeMoved (h : Represents fd on x) (hc : x.hasChannel fd c) {i : ℕ} (hi : (x.channel c).index_ = i)
    (hlt : i + 1 < x.pollfds_.length) {on' : C → Bool} (hon : ∀ n, n ≠ c → on' n = on n) :
    ∃ y, x.call fd (c, .remove) = some y ∧
      (Represents fd on' y ∧ ∀ n, y.hasChannel fd n ↔ n ≠ c ∧ x.hasChannel fd n) ∧
      ∀ n, 0 ≤ (x.channel n).index_ → 0 ≤ (y.channel n).index_ := by
  obtain ⟨q, hq⟩ : ∃ q, x.pollfds_[x.pollfds_.length - 1]? = some q :=
    ⟨_, List.getElem?_eq_getElem (by omega)⟩
  obtain ⟨z, hz, hzi, hzo⟩ := h.table.owned hq
  have hzc : z ≠ c := by
    intro e
    rw [e, hi] at hzi
    omega
  have hdecode : (if q.fd < 0 then -q.fd - 1 else q.fd) = fd z := by
    have hqfd := hzo.1
    split at hqfd <;> split <;> omega
  have hmoved : ChannelMap.find (x.channels_.erase (fd c))
      (if q.fd < 0 then -q.fd - 1 else q.fd) = some z := by
    have hfd : (fd z : ℤ) ≠ fd c := by
      intro he
      rw [hasChannel, he, hc] at hz
      exact hzc (Option.some.inj hz).symm
    rw [hdecode, ChannelMap.find_erase, if_neg hfd]
    exact hz
  refine ⟨_, call_remove_moved hi hlt (List.getLast?_eq_getElem? ▸ hq) hmoved hzc,
    h.erased hc hi rfl rfl ?_ ?_ hon, ?_⟩
  · intro n
    by_cases hnz : n = z
    · subst hnz
      simp
    · by_cases hnc : n = c
      · subst hnc
        simp [hnz]
      · simp [hnz, hnc]
  · intro n hn hnc
    by_cases hnz : n = z
    · subst hnz
      rw [if_pos (by omega)]
      simp
    · have hne := mt (h.table.index_inj (owns_inj on x) hn hz) hnz
      rw [if_neg (by omega)]
      simp [hnz, hnc]
  · intro n hn
    by_cases hnz : n = z
    · subst hnz
      simp
    · by_cases hnc : n = c
      · subst hnc
        simpa [hnz] using hn
      · simpa [hnz, hnc] using hn

/-- A removal leaves the entries of the other channels, one of them at a new place. -/
theorem remove (h : Represents fd on x) (hc : x.hasChannel fd c)
    {on' : C → Bool} (hon : ∀ n, n ≠ c → on' n = on n) :
    ∃ y, x.call fd (c, .remove) = some y ∧
      (Represents fd on' y ∧ ∀ n, y.hasChannel fd n ↔ n ≠ c ∧ x.hasChannel fd n) ∧
      ∀ n, 0 ≤ (x.channel n).index_ → 0 ≤ (y.channel n).index_ := by
  obtain ⟨i, p, hi, -, -⟩ := h.table.row c hc
  have hlt := h.table.index_lt hc hi
  by_cases hlast : i + 1 = x.pollfds_.length
  · exact h.removeLast hc hi hlast hon
  · exact h.removeMoved hc hi (by omega) hon

end Represents

/-! ## What a poll reports -/

theorem fillFrom_zero (x : PollPoller C) (rest : List Pollfd) :
    x.fillFrom rest 0 = some (x, []) := by
  cases rest <;> rfl

/-- The scan passes over an entry without an answer. -/
theorem fillFrom_cons_of_not (x : PollPoller C) {p : Pollfd} (hp : p.revents.positive = false)
    (rest : List Pollfd) (n : ℕ) : x.fillFrom (p :: rest) n = x.fillFrom rest n := by
  cases n with
  | zero => rw [fillFrom_zero, fillFrom_zero]
  | succ k => simp [fillFrom, hp]

theorem fillFrom_spec (fd : C → ℕ) (hfd : Function.Injective fd) (rest : List Pollfd)
    (x : PollPoller C)
    (hfind : ∀ p ∈ rest, p.revents.positive = true →
      ∃ c, x.channels_.find p.fd = some c ∧ p.fd = fd c)
    (hne : rest.Pairwise fun p q => p.fd ≠ q.fd) :
    ∃ y active, x.fillFrom rest (rest.countP fun p => p.revents.positive) = some (y, active) ∧
      active.map (fun c => (fd c : ℤ)) =
        (rest.filter fun p => p.revents.positive).map Pollfd.fd ∧
      (∀ c, c ∉ active → y.channel c = x.channel c) ∧
      ∀ p ∈ rest, p.revents.positive = true → ∀ c, p.fd = fd c →
        y.channel c = (x.channel c).set_revents p.revents := by
  induction rest generalizing x with
  | nil => exact ⟨x, [], rfl, rfl, fun c _ => rfl, fun p hp => by cases hp⟩
  | cons p rest ih =>
    obtain ⟨hp, hne⟩ := List.pairwise_cons.mp hne
    cases hpos : p.revents.positive with
    | false =>
      obtain ⟨y, active, hfill, hmap, hrest, hmark⟩ :=
        ih x (fun q hq => hfind q (List.mem_cons_of_mem _ hq)) hne
      refine ⟨y, active, ?_, by simpa [hpos] using hmap, hrest, ?_⟩
      · rw [List.countP_cons_of_neg (by simp [hpos]), fillFrom_cons_of_not x hpos]
        exact hfill
      · intro q hq hqpos c hc
        rcases List.mem_cons.mp hq with rfl | hq
        · rw [hpos] at hqpos
          cases hqpos
        · exact hmark q hq hqpos c hc
    | true =>
      obtain ⟨c, hc, hpc⟩ := hfind p List.mem_cons_self hpos
      obtain ⟨y, active, hfill, hmap, hrest, hmark⟩ :=
        ih (x.setChannel c ((x.channel c).set_revents p.revents))
          (fun q hq => hfind q (List.mem_cons_of_mem _ hq)) hne
      have hnot : c ∉ active := by
        intro hmem
        have hin : p.fd ∈ (rest.filter fun p => p.revents.positive).map Pollfd.fd := by
          rw [← hmap, hpc]
          exact List.mem_map_of_mem (f := fun c => (fd c : ℤ)) hmem
        obtain ⟨q, hq, he⟩ := List.mem_map.mp hin
        exact hp q (List.mem_filter.mp hq).1 he.symm
      refine ⟨y, c :: active, ?_, by simp [hpos, hmap, hpc], ?_, ?_⟩
      · rw [List.countP_cons, hpos]
        simp [fillFrom, hpos, hc, hfill]
      · intro n hn
        rw [hrest n (fun h => hn (List.mem_cons_of_mem _ h))]
        have hnc : n ≠ c := fun e => hn (e ▸ List.mem_cons_self)
        simp [hnc]
      · intro q hq hqpos n hn
        rcases List.mem_cons.mp hq with rfl | hq
        · have hnc : n = c := hfd (by exact_mod_cast hn.symm.trans hpc)
          subst hnc
          rw [hrest n hnot]
          simp
        · have hnc : n ≠ c := by
            rintro rfl
            exact hp q hq (hpc.trans hn.symm)
          rw [hmark q hq hqpos n hn]
          simp [hnc]

namespace Represents

/-- A poll marks the channels whose entries the kernel answers, each once. -/
theorem poll_spec (h : Represents fd on x) (hfd : Function.Injective fd)
    (answer : ℤ → Interest → Revents) :
    ∃ y active, x.poll answer = some (y, active) ∧ active.Nodup ∧
      active.length = (x.kernelPoll answer).2 ∧
      (∀ c, c ∈ active ↔ x.hasChannel fd c ∧
        ∃ p, (x.kernelPoll answer).1.entry c = some p ∧ p.revents.positive = true) ∧
      (∀ c ∈ active, ∃ p, (x.kernelPoll answer).1.entry c = some p ∧
        y.channel c = (x.channel c).set_revents p.revents) ∧
      ∀ c, c ∉ active → y.channel c = x.channel c := by
  have hk := h.kernelPoll answer
  obtain ⟨y, active, hfill, hmap, hrest, hmark⟩ := fillFrom_spec fd hfd
    (x.kernelPoll answer).1.pollfds_ (x.kernelPoll answer).1
    (fun p hp hpos => by
      obtain ⟨c, hc, he, -⟩ := hk.find_of_mem hp (kernelPoll_fd_nonneg hp hpos)
      exact ⟨c, hc, he⟩)
    (hk.table.pairwise_ne Pollfd.fd (owns_fd hfd on _))
  have hmem : ∀ c, c ∈ active ↔ ∃ p ∈ (x.kernelPoll answer).1.pollfds_,
      p.revents.positive = true ∧ p.fd = fd c := by
    intro c
    have hfdmem : (fd c : ℤ) ∈ active.map (fun c => (fd c : ℤ)) ↔ c ∈ active := by
      apply List.mem_map_of_injective
      intro m n he
      exact hfd (Int.natCast_inj.mp he)
    rw [← hfdmem, hmap, List.mem_map]
    constructor
    · rintro ⟨p, hp, he⟩
      obtain ⟨hp, hpos⟩ := List.mem_filter.mp hp
      exact ⟨p, hp, hpos, he⟩
    · rintro ⟨p, hp, hpos, he⟩
      exact ⟨p, List.mem_filter.mpr ⟨hp, hpos⟩, he⟩
  have hentry : ∀ c, c ∈ active → ∃ p, (x.kernelPoll answer).1.entry c = some p ∧
      p ∈ (x.kernelPoll answer).1.pollfds_ ∧ p.revents.positive = true ∧ p.fd = fd c := by
    intro c hc
    obtain ⟨p, hp, hpos, he⟩ := (hmem c).mp hc
    obtain ⟨n, hn, hpn, hen⟩ := hk.find_of_mem hp (kernelPoll_fd_nonneg hp hpos)
    have hnc : n = c := hfd (by exact_mod_cast hpn.symm.trans he)
    exact ⟨p, hnc ▸ hen, hp, hpos, he⟩
  refine ⟨y, active, hfill, ?_, ?_, ?_, ?_, hrest⟩
  · apply List.Nodup.of_map fun c => (fd c : ℤ)
    rw [hmap]
    exact List.pairwise_map.mpr ((hk.table.pairwise_ne Pollfd.fd (owns_fd hfd on _)).filter _)
  · have hlen := congrArg List.length hmap
    rw [List.length_map, List.length_map, ← List.countP_eq_length_filter] at hlen
    exact hlen
  · intro c
    constructor
    · intro hc
      obtain ⟨p, hp, hpmem, hpos, he⟩ := hentry c hc
      obtain ⟨n, hn, hpn, -⟩ := hk.find_of_mem hpmem (kernelPoll_fd_nonneg hpmem hpos)
      have hnc : n = c := hfd (by exact_mod_cast hpn.symm.trans he)
      subst hnc
      rw [he] at hn
      exact ⟨hn, p, hp, hpos⟩
    · rintro ⟨hc, p, hp, hpos⟩
      obtain ⟨q, hq, hqmem, ho⟩ := hk.entry_owned hc
      rw [hp] at hq
      cases hq
      refine (hmem c).mpr ⟨p, hqmem, hpos, ?_⟩
      have hsgn := kernelPoll_fd_nonneg hqmem hpos
      have hpfd := ho.1
      split at hpfd <;> omega
  · intro c hc
    obtain ⟨p, hp, hpmem, hpos, he⟩ := hentry c hc
    exact ⟨p, hp, hmark p hpmem hpos c he⟩

end Represents

/-- The scan writes nothing but `revents_`. -/
theorem fillFrom_marked {x y : PollPoller C} {rest : List Pollfd} {n : ℕ} {active : List C}
    (h : x.fillFrom rest n = some (y, active)) :
    y.channels_ = x.channels_ ∧ y.pollfds_ = x.pollfds_ ∧
      ∀ c : C, ∃ r, y.channel c = (x.channel c).set_revents r := by
  induction rest generalizing x n active with
  | nil =>
    cases h
    exact ⟨rfl, rfl, fun c => ⟨(y.channel c).revents_, rfl⟩⟩
  | cons pfd rest ih =>
    cases n with
    | zero =>
      cases h
      exact ⟨rfl, rfl, fun c => ⟨(y.channel c).revents_, rfl⟩⟩
    | succ n =>
      rw [fillFrom] at h
      split at h
      · obtain ⟨c, -, h⟩ := Option.bind_eq_some_iff.mp h
        obtain ⟨⟨z, rest'⟩, hz, h⟩ := Option.map_eq_some_iff.mp h
        cases h
        obtain ⟨hchannels, hpollfds, hchannel⟩ := ih hz
        refine ⟨hchannels, hpollfds, fun m => ?_⟩
        obtain ⟨r, hr⟩ := hchannel m
        refine ⟨r, hr.trans ?_⟩
        by_cases hm : m = c
        · simp [hm, PolledChannel.set_revents]
        · simp [hm]
      · exact ih h

/-- A poll leaves the map, the positions and the interest as they are. -/
theorem Represents.poll_keeps {y : PollPoller C} (h : Represents fd on x)
    {answer : ℤ → Interest → Revents} {active : List C} (hpoll : x.poll answer = some (y, active)) :
    Represents fd on y ∧ y.channels_ = x.channels_ ∧
      ∀ c : C, (y.channel c).events_ = (x.channel c).events_ := by
  obtain ⟨hchannels, hpollfds, hchannel⟩ := fillFrom_marked hpoll
  have hk := h.kernelPoll answer
  have howns : owns fd on y = owns fd on (x.kernelPoll answer).1 := by
    funext p c
    obtain ⟨r, hr⟩ := hchannel c
    rw [owns, owns, hr]
    rfl
  have hhas : y.hasChannel fd = (x.kernelPoll answer).1.hasChannel fd := by
    funext c
    rw [hasChannel, hasChannel, hchannels]
  have hindex : (fun c => (y.channel c).index_) =
      fun c => ((x.kernelPoll answer).1.channel c).index_ := by
    funext c
    obtain ⟨r, hr⟩ := hchannel c
    rw [hr]
    rfl
  refine ⟨⟨?_, ?_, ?_⟩, hchannels, fun c => ?_⟩
  · rw [hchannels]
    exact hk.keys
  · rw [hchannels, hpollfds]
    exact hk.size
  · rw [howns, hhas, hindex, hpollfds]
    exact hk.table
  · obtain ⟨r, hr⟩ := hchannel c
    rw [hr]
    rfl

/-! ## Runs -/

/-- The channel had a position once and is not in the map any more. -/
def Removed (fd : C → ℕ) (x : PollPoller C) (c : C) : Prop :=
  0 ≤ (x.channel c).index_ ∧ ¬x.hasChannel fd c

theorem step_represents (h : Represents fd on x) (hfd : Function.Injective fd)
    {a : C × ChannelCall} (ha : legal fd x a) :
    ∃ y on', x.call fd a = some y ∧ Represents fd on' y ∧
      (∀ n, Removed fd x n → Removed fd y n) ∧ (a.2 = .remove → Removed fd y a.1) := by
  obtain ⟨c, k⟩ := a
  cases k with
  | update op =>
    by_cases hnew : (x.channel c).index_ < 0
    · obtain ⟨y, hy, hrep, hmem, -, hindex⟩ := h.updateNew (h.find_eq_none (h.not_hasChannel hnew) hfd) op hnew
      refine ⟨y, _, hy, hrep, ?_, by rintro ⟨⟩⟩
      rintro n ⟨hn, hnot⟩
      have hnc : n ≠ c := by
        rintro rfl
        omega
      exact ⟨by rw [hindex n hnc]; exact hn, fun hy => hnot (((hmem n).mp hy).resolve_left hnc)⟩
    · obtain ⟨y, hy, hrep, hmem, hindex⟩ := h.updateOld op (ha.resolve_left hnew)
      refine ⟨y, _, hy, hrep, ?_, by rintro ⟨⟩⟩
      rintro n ⟨hn, hnot⟩
      exact ⟨by rw [hindex n]; exact hn, fun hy => hnot ((hmem n).mp hy)⟩
  | remove =>
    obtain ⟨y, hy, ⟨hrep, hmem⟩, hindex⟩ := h.remove ha.1 fun n _ => rfl
    refine ⟨y, on, hy, hrep, ?_, fun _ => ?_⟩
    · rintro n ⟨hn, hnot⟩
      exact ⟨hindex n hn, fun hy => hnot ((hmem n).mp hy).2⟩
    · exact ⟨hindex c (h.index_nonneg ha.1), fun hy => ((hmem c).mp hy).1 rfl⟩

theorem run_represents (hfd : Function.Injective fd) (calls : List (C × ChannelCall))
    (h : Represents fd on x) (hlegal : GuardedRuns.Meets (call fd) (legal fd) x calls) :
    ∃ y on', GuardedRuns.run (call fd) x calls = some y ∧ Represents fd on' y ∧
      (∀ n, Removed fd x n → Removed fd y n) ∧
      ∀ c, (c, ChannelCall.remove) ∈ calls → Removed fd y c := by
  induction calls generalizing x on with
  | nil => exact ⟨x, on, rfl, h, fun n hn => hn, fun c hc => by cases hc⟩
  | cons a calls ih =>
    obtain ⟨y, on', hy, hrep, hkeep, hremoved⟩ := step_represents h hfd hlegal.1
    obtain ⟨z, on'', hz, hrep, hkeep', hremoved'⟩ := ih hrep (hlegal.2 y hy)
    refine ⟨z, on'', GuardedRuns.run_cons_eq_some.mpr ⟨y, hy, hz⟩, hrep,
      fun n hn => hkeep' n (hkeep n hn), ?_⟩
    intro c hc
    rcases List.mem_cons.mp hc with rfl | hc
    · exact hkeep' c (hremoved rfl)
    · exact hremoved' c hc

/-- The array, the map and the positions represent the same channels after every run of
calls, and a poll marks the channels whose entries the kernel answers. -/
theorem pollfds_represent_channels (fd : C → ℕ) (hfd : Function.Injective fd)
    (calls : List (C × ChannelCall))
    (hlegal : GuardedRuns.Meets (call fd) (legal fd) construct calls) :
    ∃ x, GuardedRuns.run (call fd) construct calls = some x ∧
      x.pollfds_.length = x.channels_.size ∧
      (∀ k c, x.channels_.find k = some c → k = fd c) ∧
      Set.BijOn (fun c => (x.channel c).index_) {c | x.hasChannel fd c}
        {i | 0 ≤ i ∧ i < x.pollfds_.length} ∧
      (∀ c, x.hasChannel fd c → ∃ p, x.entry c = some p ∧
        (p.fd = fd c ∨ p.fd = -fd c - 1) ∧ p.events = (x.channel c).events_.toShort ∧
        ((x.channel c).events_.kEdgeTrigger = false → p.events = (x.channel c).events_)) ∧
      ∀ answer : ℤ → Interest → Revents, ∃ y active, x.poll answer = some (y, active) ∧
        active.Nodup ∧ active.length = (x.kernelPoll answer).2 ∧
        (∀ c, c ∈ active ↔ x.hasChannel fd c ∧
          ∃ p, (x.kernelPoll answer).1.entry c = some p ∧ p.revents.positive = true) ∧
        (∀ c ∈ active, ∃ p, (x.kernelPoll answer).1.entry c = some p ∧
          y.channel c = (x.channel c).set_revents p.revents) ∧
        (∀ c, c ∉ active → y.channel c = x.channel c) ∧
        ∀ c, (c, ChannelCall.remove) ∈ calls → c ∉ active := by
  obtain ⟨x, on, hx, hrep, -, hremoved⟩ := run_represents hfd calls
    (represents_construct fd fun _ => false) hlegal
  refine ⟨x, hx, hrep.size, hrep.keys, hrep.table.bijOn (owns_inj on x), ?_, ?_⟩
  · intro c hc
    obtain ⟨p, hp, -, hpfd, hevents⟩ := hrep.entry_owned hc
    refine ⟨p, hp, ?_, hevents, fun h => hevents.trans (Interest.toShort_eq_self h)⟩
    split at hpfd
    · exact Or.inl hpfd
    · exact Or.inr hpfd
  · intro answer
    obtain ⟨y, active, hy, hnodup, hlen, hmem, hmark, hrest⟩ := hrep.poll_spec hfd answer
    refine ⟨y, active, hy, hnodup, hlen, hmem, hmark, hrest, ?_⟩
    intro c hc hin
    exact (hremoved c hc).2 ((hmem c).mp hin).1

/-- Two channels; the first one leaves, and the entry of the second moves. -/
theorem pollfds_represent_moved :
    ∃ x, GuardedRuns.run (call id) construct [(0, .update .enableReading),
        (1, .update .enableReading), (0, .update .disableAll), (0, .remove)] = some x ∧
      x.pollfds_.length = x.channels_.size := by
  obtain ⟨x, hx, hsize, -⟩ := pollfds_represent_channels id Function.injective_id
    [(0, .update .enableReading), (1, .update .enableReading), (0, .update .disableAll),
      (0, .remove)] (by decide +kernel)
  exact ⟨x, hx, hsize⟩

/-- An entry cannot hold `kEdgeTrigger`, so it differs from the events of its channel. -/
theorem entry_drops_kEdgeTrigger :
    GuardedRuns.Meets (call id) (legal id) construct [(0, .update .enableET)] ∧
      ∃ x, GuardedRuns.run (call id) construct [(0, .update .enableET)] = some x ∧
        x.hasChannel id 0 ∧ ∃ p, x.entry 0 = some p ∧ p.events ≠ (x.channel 0).events_ := by
  refine ⟨by decide +kernel, _, rfl, rfl, _, rfl, by decide +kernel⟩

end ReactorNet.PollPoller
