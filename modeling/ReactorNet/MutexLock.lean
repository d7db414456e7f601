import Mathlib.Data.Nat.Notation
import ReactorNet.GuardedRuns

/-!
# The mutex and its holder

`MutexLock` with the calls of `lock`, `unlock` and `Condition::wait`, a step for each call of the
pthread library and each store to `holder_`. The library's mutex is the thread that owns it; what
it requires of its callers is recorded where it is not met.
-/
namespace ReactorNet

/-- What `gettid` returns. -/
structure Tid where
  val : ℕ
  pos : 0 < val
deriving DecidableEq

/-- Where a thread is: outside, in `lock` with the mutex, behind `lock`, in `unlock` before the
mutex is given back, in `wait` before, in, and behind the wait of the library. -/
inductive LockControl where
  | outside | locking | holding | unlocking | guarded | waiting | woken | returned
deriving DecidableEq

/-- The thread owns the library's mutex. -/
def LockControl.owns : LockControl → Bool
  | .locking | .holding | .unlocking | .guarded | .returned => true
  | .outside | .waiting | .woken => false

structure MutexLock where
  mutex_ : Option Tid
  holder_ : ℕ
  control : Tid → LockControl
  misused : Bool

inductive LockStep where
  | pthread_mutex_lock | assignHolder | unassignHolder | pthread_mutex_unlock
  | unassignGuard | pthread_cond_wait | wake | relock | endOfGuard
deriving DecidableEq

namespace MutexLock

open GuardedRuns

def construct : MutexLock := ⟨none, 0, fun _ => .outside, false⟩

def isLockedByThisThread (s : MutexLock) (thread : Tid) : Bool := s.holder_ == thread.val

def setControl (s : MutexLock) (thread : Tid) (c : LockControl) : Tid → LockControl :=
  fun t => if t = thread then c else s.control t

/-- The mutex is given back, as the library allows to the thread that owns it. -/
def release (s : MutexLock) (thread : Tid) (c : LockControl) : MutexLock where
  mutex_ := none
  holder_ := s.holder_
  control := s.setControl thread c
  misused := s.misused || s.mutex_ != some thread

def acquire (s : MutexLock) (thread : Tid) (c : LockControl) : Option MutexLock :=
  if s.mutex_ = none then some { s with mutex_ := some thread, control := s.setControl thread c }
  else none

def assignHolder (s : MutexLock) (thread : Tid) (c : LockControl) : MutexLock :=
  { s with holder_ := thread.val, control := s.setControl thread c }

def unassignHolder (s : MutexLock) (thread : Tid) (c : LockControl) : MutexLock :=
  { s with holder_ := 0, control := s.setControl thread c }

/-- What a thread does next: `lock`, `unlock` and `wait` one after the other. -/
def step (s : MutexLock) (a : Tid × LockStep) : Option MutexLock :=
  match s.control a.1, a.2 with
  | .outside, .pthread_mutex_lock => s.acquire a.1 .locking
  | .locking, .assignHolder => some (s.assignHolder a.1 .holding)
  | .holding, .unassignHolder => some (s.unassignHolder a.1 .unlocking)
  | .unlocking, .pthread_mutex_unlock => some (s.release a.1 .outside)
  | .holding, .unassignGuard => some (s.unassignHolder a.1 .guarded)
  | .guarded, .pthread_cond_wait => some (s.release a.1 .waiting)
  | .waiting, .wake => some { s with control := s.setControl a.1 .woken }
  | .woken, .relock => s.acquire a.1 .returned
  | .returned, .endOfGuard => some (s.assignHolder a.1 .holding)
  | _, _ => none

/-! ## The invariant -/

structure Sound (s : MutexLock) : Prop where
  owner : ∀ t, (s.control t).owns = true ↔ s.mutex_ = some t
  holder : ∀ t, s.holder_ = t.val ↔ s.control t = .holding
  misused : s.misused = false

theorem sound_construct : construct.Sound where
  owner _ := ⟨nofun, nofun⟩
  holder t := ⟨fun h => absurd h (Nat.ne_of_lt t.pos), nofun⟩
  misused := rfl

variable {s s' : MutexLock} {thread : Tid} {c : LockControl}

theorem setControl_self : s.setControl thread c thread = c := if_pos rfl

theorem setControl_other {t : Tid} (h : t ≠ thread) :
    s.setControl thread c t = s.control t := if_neg h

/-- At most one thread owns the mutex. -/
theorem Sound.unique (h : s.Sound) {t u : Tid} (ht : (s.control t).owns = true)
    (hu : (s.control u).owns = true) : t = u :=
  Option.some.inj (((h.owner t).mp ht).symm.trans ((h.owner u).mp hu))

theorem holding_owns {c : LockControl} (h : c = .holding) : c.owns = true := by
  rw [h]
  rfl

/-- A thread other than the owner holds nothing. -/
theorem Sound.not_holding (h : s.Sound) {t u : Tid} (ht : (s.control t).owns = true) (hne : u ≠ t) :
    s.control u ≠ .holding :=
  fun hu => hne (h.unique (holding_owns hu) ht)

theorem Sound.acquire (h : s.Sound) (hthread : s.control thread ≠ .holding) (hc : c.owns = true)
    (hne : c ≠ .holding) (hs : s.acquire thread c = some s') : s'.Sound := by
  rw [MutexLock.acquire, Option.ite_none_right_eq_some] at hs
  obtain ⟨hfree, heq⟩ := hs
  cases heq
  refine ⟨?_, ?_, h.misused⟩
  · intro t
    by_cases ht : t = thread
    · subst ht
      simp only [setControl_self, hc]
    · simp only [setControl_other ht, h.owner t, hfree, Option.some.injEq]
      exact ⟨nofun, fun heq => absurd heq.symm ht⟩
  · intro t
    by_cases ht : t = thread
    · subst ht
      simp only [setControl_self, h.holder t]
      exact ⟨fun hh => absurd hh hthread, fun hh => absurd hh hne⟩
    · simp only [setControl_other ht, h.holder t]

theorem Sound.assignHolder (h : s.Sound) (hthread : (s.control thread).owns = true) :
    (s.assignHolder thread .holding).Sound := by
  refine ⟨?_, ?_, h.misused⟩
  · intro t
    simp only [MutexLock.assignHolder]
    by_cases ht : t = thread
    · subst ht
      rw [setControl_self, ← h.owner t, hthread]
      rfl
    · rw [setControl_other ht, h.owner t]
  · intro t
    simp only [MutexLock.assignHolder]
    by_cases ht : t = thread
    · subst ht
      simp only [setControl_self]
    · rw [setControl_other ht]
      refine ⟨fun heq => ?_, fun hh => absurd hh (h.not_holding hthread ht)⟩
      cases t
      cases thread
      exact absurd (by simpa using heq.symm) ht

theorem Sound.unassignHolder (h : s.Sound) (hthread : (s.control thread).owns = true)
    (hc : c.owns = true) (hne : c ≠ .holding) : (s.unassignHolder thread c).Sound := by
  refine ⟨?_, ?_, h.misused⟩
  · intro t
    simp only [MutexLock.unassignHolder]
    by_cases ht : t = thread
    · subst ht
      rw [setControl_self, ← h.owner t, hthread, hc]
    · rw [setControl_other ht, h.owner t]
  · intro t
    simp only [MutexLock.unassignHolder]
    refine ⟨fun heq => absurd heq (Nat.ne_of_lt t.pos), fun hh => ?_⟩
    by_cases ht : t = thread
    · subst ht
      rw [setControl_self] at hh
      exact absurd hh hne
    · rw [setControl_other ht] at hh
      exact absurd hh (h.not_holding hthread ht)

theorem Sound.release (h : s.Sound) (hthread : (s.control thread).owns = true)
    (hhold : s.control thread ≠ .holding) (hc : c.owns = false) : (s.release thread c).Sound := by
  have howner := (h.owner thread).mp hthread
  refine ⟨?_, ?_, ?_⟩
  · intro t
    simp only [MutexLock.release]
    refine ⟨fun howns => ?_, nofun⟩
    by_cases ht : t = thread
    · subst ht
      rw [setControl_self, hc] at howns
      cases howns
    · rw [setControl_other ht] at howns
      exact absurd (h.unique howns hthread) ht
  · intro t
    simp only [MutexLock.release]
    by_cases ht : t = thread
    · subst ht
      rw [setControl_self, h.holder t]
      refine ⟨fun hh => absurd hh hhold, fun hh => ?_⟩
      rw [hh] at hc
      cases hc
    · rw [setControl_other ht, h.holder t]
  · simp only [MutexLock.release, h.misused, howner, bne_self_eq_false, Bool.or_false]

theorem Sound.wake (h : s.Sound) (hthread : s.control thread = .waiting) :
    { s with control := s.setControl thread .woken }.Sound := by
  refine ⟨?_, ?_, h.misused⟩
  · intro t
    by_cases ht : t = thread
    · subst ht
      simp only [setControl_self, ← h.owner t, hthread]
      rfl
    · simp only [setControl_other ht, h.owner t]
  · intro t
    by_cases ht : t = thread
    · subst ht
      simp only [setControl_self, h.holder t, hthread]
      exact ⟨nofun, nofun⟩
    · simp only [setControl_other ht, h.holder t]

theorem Sound.step {a : Tid × LockStep} (h : s.Sound) (hs : s.step a = some s') : s'.Sound := by
  obtain ⟨thread, a⟩ := a
  rw [MutexLock.step] at hs
  split at hs
  · next hc _ =>
    have hne : s.control thread ≠ .holding := by
      rw [hc]
      exact nofun
    refine h.acquire hne ?_ ?_ hs
    · rfl
    · exact nofun
  · next hc _ =>
    cases hs
    exact h.assignHolder (by rw [hc]; rfl)
  · next hc _ =>
    cases hs
    exact h.unassignHolder (by rw [hc]; rfl) rfl nofun
  · next hc _ =>
    cases hs
    exact h.release (by rw [hc]; rfl) (by rw [hc]; exact nofun) rfl
  · next hc _ =>
    cases hs
    exact h.unassignHolder (by rw [hc]; rfl) rfl nofun
  · next hc _ =>
    cases hs
    exact h.release (by rw [hc]; rfl) (by rw [hc]; exact nofun) rfl
  · next hc _ =>
    cases hs
    exact h.wake hc
  · next hc _ =>
    have hne : s.control thread ≠ .holding := by
      rw [hc]
      exact nofun
    refine h.acquire hne ?_ ?_ hs
    · rfl
    · exact nofun
  · next hc _ =>
    cases hs
    exact h.assignHolder (by rw [hc]; rfl)
  · cases hs

/-- In every interleaving of the threads' stores and library calls: `isLockedByThisThread` answers
every thread exactly whether it is between `lock` and `unlock` and not in `wait`, at most one thread
is, and none is while the library's mutex is free, so that the assertion of the destructor holds. No
thread gives back a mutex, or waits with one, that it does not own. -/
theorem mutexLock_holder {as : List (Tid × LockStep)} (hr : run step construct as = some s) :
    (∀ t, s.isLockedByThisThread t = true ↔ s.control t = .holding) ∧
      (∀ t u, s.control t = .holding → s.control u = .holding → t = u) ∧
      (s.mutex_ = none → s.holder_ = 0) ∧ s.misused = false := by
  have h : s.Sound := run_invariant (fun _ _ _ h hs => h.step hs) sound_construct hr
  refine ⟨?_, ?_, ?_, h.misused⟩
  · intro t
    rw [isLockedByThisThread, beq_iff_eq, h.holder]
  · intro t u ht hu
    exact h.unique (holding_owns ht) (holding_owns hu)
  · intro hfree
    rcases Nat.eq_zero_or_pos s.holder_ with hzero | hpos
    · exact hzero
    · have hholds := (h.holder ⟨s.holder_, hpos⟩).mp rfl
      have howner := (h.owner _).mp (holding_owns hholds)
      rw [hfree] at howner
      cases howner

/-- A thread waits; another one takes the mutex and keeps it when the first one wakes. -/
theorem mutexLock_holder_wait :
    let one : Tid := ⟨1, by decide⟩
    let two : Tid := ⟨2, by decide⟩
    ∃ s, run step construct [(one, .pthread_mutex_lock), (one, .assignHolder),
      (one, .unassignGuard),
        (one, .pthread_cond_wait), (two, .pthread_mutex_lock), (one, .wake), (two, .assignHolder)] =
          some s ∧
      s.isLockedByThisThread two = true ∧ ¬s.isLockedByThisThread one = true ∧
        s.misused = false := by
  obtain ⟨s, hr, hs⟩ : ∃ s, run step construct [(⟨1, by decide⟩, .pthread_mutex_lock),
      (⟨1, by decide⟩, .assignHolder), (⟨1, by decide⟩, .unassignGuard),
      (⟨1, by decide⟩, .pthread_cond_wait), (⟨2, by decide⟩, .pthread_mutex_lock),
      (⟨1, by decide⟩, .wake), (⟨2, by decide⟩, .assignHolder)] = some s ∧
      (s.control ⟨1, by decide⟩, s.control ⟨2, by decide⟩) = (.woken, .holding) :=
        ⟨_, rfl, by decide⟩
  obtain ⟨hone, htwo⟩ := Prod.mk.inj hs
  obtain ⟨hholder, -, -, hmisused⟩ := mutexLock_holder hr
  refine ⟨s, hr, (hholder _).mpr htwo, ?_, hmisused⟩
  rw [hholder, hone]
  exact nofun

end MutexLock

end ReactorNet
