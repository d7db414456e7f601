import ReactorNet.PollPollerTable

/-!
# The assertion on the entry of a removed channel

`removeChannel` expects the entry under the negated descriptor. The first update of a
channel enters it as it is, whatever its events, and only a later one negates it: the
assertion needs a second update.
-/
namespace ReactorNet.PollPoller

variable {C : Type} [DecidableEq C] {fd : C → ℕ}

/-- The assertions that a call meets before that on the entry: a channel with an index is
the one in the map, one without is not there, and a removed one has no interest. -/
def asserted (fd : C → ℕ) (x : PollPoller C) : C × ChannelCall → Prop
  | (c, .update _) =>
    if (x.channel c).index_ < 0 then x.channels_.find (fd c) = none else x.hasChannel fd c
  | (c, .remove) => x.hasChannel fd c ∧ (x.channel c).isNoneEvent = true

instance (fd : C → ℕ) (x : PollPoller C) : (a : C × ChannelCall) → Decidable (asserted fd x a)
  | (c, .update _) => inferInstanceAs (Decidable
    (if (x.channel c).index_ < 0 then x.channels_.find (fd c) = none else x.hasChannel fd c))
  | (c, .remove) =>
    inferInstanceAs (Decidable (x.hasChannel fd c ∧ (x.channel c).isNoneEvent = true))

/-- `pfd.fd == -channel->fd()-1` where a call removes the channel. -/
def negated (fd : C → ℕ) (x : PollPoller C) (a : C × ChannelCall) : Prop :=
  a.2 = .remove → ∀ p, x.entry a.1 = some p → p.fd = -fd a.1 - 1

/-- The number of updates of a channel. -/
def updates (c : C) (calls : List (C × ChannelCall)) : ℕ :=
  calls.countP fun a => a.1 = c ∧ a.2 ≠ .remove

variable {on : C → Bool} {x y : PollPoller C}

/-- A channel of the map was updated, and its entry is watched after one update, and
after more of them as long as there is interest. -/
structure Updated (fd : C → ℕ) (before : List (C × ChannelCall)) (x : PollPoller C)
    (on : C → Bool) : Prop where
  represents : Represents fd on x
  fresh : ∀ c, (x.channel c).index_ < 0 → updates c before = 0
  entered : ∀ c, x.hasChannel fd c → 1 ≤ updates c before ∧
    on c = (updates c before = 1 || !(x.channel c).events_.isNoneEvent)

theorem updated_construct (fd : C → ℕ) : Updated fd [] construct fun _ => false where
  represents := represents_construct fd _
  fresh _ _ := rfl
  entered c hc := by simp [hasChannel, construct] at hc

theorem updates_concat (n c : C) (k : ChannelCall) (before : List (C × ChannelCall)) :
    updates n (before ++ [(c, k)]) =
      updates n before + if c = n ∧ k ≠ .remove then 1 else 0 := by
  simp [updates, List.countP_append, List.countP_cons]

theorem updates_of_ne {n c : C} (h : n ≠ c) (k : ChannelCall) (before : List (C × ChannelCall)) :
    updates n (before ++ [(c, k)]) = updates n before := by
  rw [updates_concat, if_neg (fun hc => h hc.1.symm), Nat.add_zero]

variable {before : List (C × ChannelCall)}

namespace Updated

/-- The entry of a channel that may be removed is negated after its second update. -/
theorem negated_iff (h : Updated fd before x on) {a : C × ChannelCall} (ha : asserted fd x a) :
    negated fd x a ↔ (a.2 = .remove → 2 ≤ updates a.1 before) := by
  obtain ⟨c, k⟩ := a
  cases k with
  | update op =>
    constructor
    · rintro - ⟨⟩
    · rintro - ⟨⟩
  | remove =>
    obtain ⟨hc, hnone⟩ := ha
    obtain ⟨p, hp, -, hpfd, -⟩ := h.represents.entry_owned hc
    obtain ⟨hpos, hon⟩ := h.entered c hc
    rw [PolledChannel.isNoneEvent] at hnone
    rw [hnone, Bool.not_true, Bool.or_false] at hon
    constructor
    · intro hneg _
      have hfd : p.fd = -fd c - 1 := hneg rfl p hp
      have hmore : updates c before ≠ 1 := by
        intro hone
        rw [hon, hone, decide_eq_true rfl, if_pos rfl] at hpfd
        omega
      exact Nat.lt_of_le_of_ne hpos (Ne.symm hmore)
    · intro hmany _ q hq
      have hmore : updates c before ≠ 1 := Nat.ne_of_gt (hmany rfl)
      cases hp.symm.trans hq
      rw [hpfd, hon, decide_eq_false hmore, if_neg Bool.false_ne_true]

/-- A call leaves the other channels as they were updated. -/
theorem frame (h : Updated fd before x on) {c n : C} {k : ChannelCall} {on' : C → Bool}
    (hy : x.call fd (c, k) = some y) (hn : n ≠ c) (hon : on' n = on n)
    (hc : x.hasChannel fd n) : 1 ≤ updates n (before ++ [(c, k)]) ∧
      on' n = (updates n (before ++ [(c, k)]) = 1 || !(y.channel n).events_.isNoneEvent) := by
  rw [updates_of_ne hn, events_call hy, if_neg hn, hon]
  exact h.entered n hc

theorem updateNew (h : Updated fd before x on) {c : C} {op : ChannelOp}
    (hnew : (x.channel c).index_ < 0) (hfind : x.channels_.find (fd c) = none) :
    ∃ y on', x.call fd (c, .update op) = some y ∧
      Updated fd (before ++ [(c, .update op)]) y on' := by
  obtain ⟨y, hy, hrep, hmem, hpos, hindex⟩ := h.represents.updateNew hfind op hnew
  refine ⟨y, _, hy, hrep, ?_, ?_⟩
  · intro n hn
    by_cases hnc : n = c
    · subst hnc
      exact absurd hpos (Int.not_le.mpr hn)
    · rw [updates_of_ne hnc]
      rw [hindex n hnc] at hn
      exact h.fresh n hn
  · intro n hn
    by_cases hnc : n = c
    · subst hnc
      rw [updates_concat, if_pos ⟨rfl, ChannelCall.noConfusion⟩, h.fresh n hnew,
        Function.update_self]
      exact ⟨Nat.le_refl 1, rfl⟩
    · exact h.frame hy hnc (Function.update_of_ne hnc _ _) (((hmem n).mp hn).resolve_left hnc)

theorem updateOld (h : Updated fd before x on) {c : C} {op : ChannelOp}
    (hc : x.hasChannel fd c) :
    ∃ y on', x.call fd (c, .update op) = some y ∧
      Updated fd (before ++ [(c, .update op)]) y on' := by
  obtain ⟨y, hy, hrep, hmem, hindex⟩ := h.represents.updateOld op hc
  refine ⟨y, _, hy, hrep, ?_, ?_⟩
  · intro n hn
    rw [hindex] at hn
    have hnc : n ≠ c := by
      rintro rfl
      exact h.represents.not_hasChannel hn hc
    rw [updates_of_ne hnc]
    exact h.fresh n hn
  · intro n hn
    by_cases hnc : n = c
    · subst hnc
      have hpos := (h.entered n hc).1
      have hmore : updates n before + 1 ≠ 1 := by omega
      rw [updates_concat, if_pos ⟨rfl, ChannelCall.noConfusion⟩, events_call hy, if_pos rfl,
        Function.update_self, decide_eq_false hmore, Bool.false_or]
      exact ⟨Nat.le_add_left 1 _, rfl⟩
    · exact h.frame hy hnc (Function.update_of_ne hnc _ _) ((hmem n).mp hn)

theorem remove (h : Updated fd before x on) {c : C} (hc : x.hasChannel fd c) :
    ∃ y on', x.call fd (c, .remove) = some y ∧ Updated fd (before ++ [(c, .remove)]) y on' := by
  obtain ⟨y, hy, ⟨hrep, hmem⟩, hindex⟩ := h.represents.remove hc fun n _ => rfl
  refine ⟨y, on, hy, hrep, ?_, ?_⟩
  · intro n hn
    have hnx : (x.channel n).index_ < 0 := by
      by_contra hpos
      exact absurd (hindex n (Int.not_lt.mp hpos)) (Int.not_le.mpr hn)
    rw [updates_concat, if_neg (fun hk => hk.2 rfl)]
    exact h.fresh n hnx
  · intro n hn
    obtain ⟨hnc, hn⟩ := (hmem n).mp hn
    exact h.frame hy hnc rfl hn

theorem call (h : Updated fd before x on) {a : C × ChannelCall} (ha : asserted fd x a) :
    ∃ y on', x.call fd a = some y ∧ Updated fd (before ++ [a]) y on' := by
  obtain ⟨c, k⟩ := a
  cases k with
  | update op =>
    rw [asserted] at ha
    split at ha
    · next hnew => exact h.updateNew hnew ha
    · exact h.updateOld ha
  | remove => exact h.remove ha.1

end Updated

/-! ## Runs -/

/-- A channel is not removed before its second update. -/
def UpdatedTwice (before calls : List (C × ChannelCall)) : Prop :=
  ∀ mid c after, calls = mid ++ (c, .remove) :: after → 2 ≤ updates c (before ++ mid)

theorem updatedTwice_nil (before : List (C × ChannelCall)) : UpdatedTwice before [] := by
  intro mid c after hcalls
  simp at hcalls

theorem updatedTwice_cons (before : List (C × ChannelCall)) (a : C × ChannelCall)
    (calls : List (C × ChannelCall)) : UpdatedTwice before (a :: calls) ↔
      (a.2 = .remove → 2 ≤ updates a.1 before) ∧ UpdatedTwice (before ++ [a]) calls := by
  constructor
  · intro h
    constructor
    · intro hremove
      have := h [] a.1 calls (by rw [← hremove]; rfl)
      rwa [List.append_nil] at this
    · rintro mid c after rfl
      rw [List.append_assoc]
      exact h (a :: mid) c after rfl
  · rintro ⟨hfirst, hrest⟩ mid c after hcalls
    cases mid with
    | nil =>
      cases hcalls
      rw [List.append_nil]
      exact hfirst rfl
    | cons b mid =>
      cases hcalls
      have := hrest mid c after rfl
      rwa [List.append_assoc] at this

theorem Updated.negated_iff_run (h : Updated fd before x on) (calls : List (C × ChannelCall))
    (hasserted : GuardedRuns.Meets (PollPoller.call fd) (asserted fd) x calls) :
    ∃ y, GuardedRuns.run (PollPoller.call fd) x calls = some y ∧
      (GuardedRuns.Meets (PollPoller.call fd) (negated fd) x calls ↔
        UpdatedTwice before calls) := by
  induction calls generalizing before x on with
  | nil =>
    exact ⟨x, rfl, fun _ => updatedTwice_nil before, fun _ => trivial⟩
  | cons a calls ih =>
    obtain ⟨y, on', hy, hupdated⟩ := h.call hasserted.1
    obtain ⟨z, hz, hiff⟩ := ih hupdated (hasserted.2 y hy)
    refine ⟨z, GuardedRuns.run_cons_eq_some.mpr ⟨y, hy, hz⟩, ?_⟩
    rw [updatedTwice_cons, ← h.negated_iff hasserted.1, ← hiff]
    constructor
    · intro hmeets
      exact ⟨hmeets.1, hmeets.2 y hy⟩
    · rintro ⟨hfirst, hrest⟩
      refine ⟨hfirst, fun t ht => ?_⟩
      cases hy.symm.trans ht
      exact hrest

/-- Where the other assertions hold, that on the entry holds at every removal exactly when
every removed channel had been updated twice. -/
theorem removal_asserted_iff (fd : C → ℕ) (calls : List (C × ChannelCall))
    (hasserted : GuardedRuns.Meets (call fd) (asserted fd) construct calls) :
    ∃ x, GuardedRuns.run (call fd) construct calls = some x ∧
      (GuardedRuns.Meets (call fd) (negated fd) construct calls ↔
        ∀ before c after, calls = before ++ (c, .remove) :: after → 2 ≤ updates c before) := by
  obtain ⟨x, hx, hiff⟩ := (updated_construct fd).negated_iff_run calls hasserted
  exact ⟨x, hx, hiff⟩

/-- `Acceptor::listen` and `~Acceptor`, as calls on the accept channel. -/
def acceptorListen (c : C) : List (C × ChannelCall) := [(c, .update .enableReading)]

def acceptorDestroy (c : C) : List (C × ChannelCall) := [(c, .update .disableAll), (c, .remove)]

/-- The destructor of an acceptor that has listened. -/
theorem removal_asserted_listened :
    GuardedRuns.Meets (call id) (negated id) construct (acceptorListen 3 ++ acceptorDestroy 3) := by
  obtain ⟨x, hx, hiff⟩ := removal_asserted_iff id (acceptorListen 3 ++ acceptorDestroy 3)
    (by decide +kernel)
  have htwice : UpdatedTwice [] (acceptorListen 3 ++ acceptorDestroy 3) := by
    rw [acceptorListen, acceptorDestroy, List.singleton_append, updatedTwice_cons,
      updatedTwice_cons, updatedTwice_cons]
    exact ⟨by decide, by decide, by decide, updatedTwice_nil _⟩
  exact hiff.mpr htwice

/-- The destructor of an acceptor that never listened. -/
theorem removal_of_unlistened :
    GuardedRuns.Meets (call id) (asserted id) construct (acceptorDestroy 3) ∧
      ¬ GuardedRuns.Meets (call id) (negated id) construct (acceptorDestroy 3) := by
  refine ⟨by decide +kernel, ?_⟩
  intro h
  have hfd := (h.2 _ rfl).1 rfl _ rfl
  revert hfd
  decide +kernel

end ReactorNet.PollPoller
