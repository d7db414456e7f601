import Mathlib.Data.List.Perm.Basic

/-!
# Condition variables

A condition variable by the threads at it: those that wait, those that a notification has
woken, and those that have woken by themselves. A woken thread goes on when it has the mutex
again. How many notified threads are still to go on is what a monitor counts to see that no
wakeup is lost.
-/
namespace ReactorNet

/-- The threads at a condition variable, each with what it keeps while it waits. -/
structure Condition (W : Type*) where
  waiting : List W
  signalled : List W
  spurious : List W

namespace Condition

variable {W : Type*}

def idle : Condition W := ⟨[], [], []⟩

def wait (c : Condition W) (w : W) : Condition W := { c with waiting := w :: c.waiting }

/-- Some waiter, here the one at a position, is woken, if there is one. -/
def notify (c : Condition W) (i : ℕ) : Option (Condition W) :=
  match c.waiting[i]? with
  | some w => some { c with waiting := c.waiting.eraseIdx i, signalled := w :: c.signalled }
  | none => if c.waiting.isEmpty then some c else none

def notifyAll (c : Condition W) : Condition W :=
  { c with waiting := [], signalled := c.waiting ++ c.signalled }

/-- A waiter wakes without a notification. -/
def wake (c : Condition W) (i : ℕ) : Option (Condition W) :=
  c.waiting[i]?.map fun w =>
    { c with waiting := c.waiting.eraseIdx i, spurious := w :: c.spurious }

/-- A woken thread has the mutex again. -/
def reenter (c : Condition W) (notified : Bool) (i : ℕ) : Option (W × Condition W) :=
  if notified then c.signalled[i]?.map fun w => (w, { c with signalled := c.signalled.eraseIdx i })
  else c.spurious[i]?.map fun w => (w, { c with spurious := c.spurious.eraseIdx i })

/-- All the threads that are inside a call of `wait`. -/
def inside (c : Condition W) : List W := c.waiting ++ c.signalled ++ c.spurious

/-! ## Wakeups -/

/-- If a thread waits, at least `n` notified threads have not gone on yet. -/
def Covers (c : Condition W) (n : ℕ) : Prop := c.waiting ≠ [] → n ≤ c.signalled.length

variable {c c' : Condition W} {n : ℕ}

theorem covers_idle : (idle : Condition W).Covers n := fun h => absurd rfl h

theorem Covers.mono {m : ℕ} (h : c.Covers n) (hle : m ≤ n) : c.Covers m :=
  fun hw => Nat.le_trans hle (h hw)

theorem covers_zero : c.Covers 0 := fun _ => Nat.zero_le _

theorem covers_notifyAll : c.notifyAll.Covers n := fun h => absurd rfl h

theorem waiting_of_notify {i : ℕ} (hs : c.notify i = some c') (h : c.waiting = []) :
    c'.waiting = [] := by
  simp only [notify, h, List.getElem?_nil, List.isEmpty_nil, if_true, Option.some.injEq] at hs
  exact hs ▸ h

/-- A notification makes up for one more. -/
theorem Covers.notify {i : ℕ} (h : c.Covers n) (hs : c.notify i = some c') :
    c'.Covers (n + 1) := by
  intro hw
  rw [Condition.notify] at hs
  split at hs
  · next w hi =>
    cases hs
    have hne : c.waiting ≠ [] := List.ne_nil_of_mem (List.mem_of_getElem? hi)
    exact Nat.succ_le_succ (h hne)
  · split at hs
    · next hempty =>
      cases hs
      exact absurd (List.isEmpty_iff.mp hempty) hw
    · cases hs

theorem waiting_of_wake {i : ℕ} (hs : c.wake i = some c') : c.waiting ≠ [] := by
  obtain ⟨w, hi, -⟩ := Option.map_eq_some_iff.mp hs
  exact List.ne_nil_of_mem (List.mem_of_getElem? hi)

theorem Covers.wake {i : ℕ} (h : c.Covers n) (hs : c.wake i = some c') : c'.Covers n := by
  have hne := waiting_of_wake hs
  obtain ⟨w, hi, rfl⟩ := Option.map_eq_some_iff.mp hs
  exact fun _ => h hne

theorem reenter_eq {notified : Bool} {i : ℕ} {w : W} (hs : c.reenter notified i = some (w, c')) :
    c'.waiting = c.waiting ∧ c.signalled.length ≤ c'.signalled.length + 1 := by
  rw [reenter] at hs
  split at hs
  · obtain ⟨w', hi, heq⟩ := Option.map_eq_some_iff.mp hs
    obtain ⟨rfl, rfl⟩ := Prod.mk.inj heq
    refine ⟨rfl, ?_⟩
    rw [List.length_eraseIdx]
    split <;> omega
  · obtain ⟨w', hi, heq⟩ := Option.map_eq_some_iff.mp hs
    obtain ⟨rfl, rfl⟩ := Prod.mk.inj heq
    exact ⟨rfl, Nat.le_succ _⟩

/-- A thread that goes on uses up one notification at most. -/
theorem Covers.reenter {notified : Bool} {i : ℕ} {w : W} (h : c.Covers (n + 1))
    (hs : c.reenter notified i = some (w, c')) : c'.Covers n := by
  obtain ⟨hwaiting, hlen⟩ := reenter_eq hs
  intro hw
  rw [hwaiting] at hw
  exact Nat.le_of_succ_le_succ (Nat.le_trans (h hw) hlen)

/-! ## Threads inside a call -/

/-- The woken threads that have not gone on yet. -/
def pending (c : Condition W) : List W := c.signalled ++ c.spurious

@[simp] theorem inside_wait (w : W) : (c.wait w).inside = w :: c.inside := rfl

@[simp] theorem pending_wait (w : W) : (c.wait w).pending = c.pending := rfl

theorem cons_eraseIdx_perm {ws : List W} {i : ℕ} {w : W} (h : ws[i]? = some w) :
    (w :: ws.eraseIdx i).Perm ws := by
  obtain ⟨hi, rfl⟩ := List.getElem?_eq_some_iff.mp h
  exact List.getElem_cons_eraseIdx_perm hi

/-- A notification leaves every thread inside its call. -/
theorem inside_notify {i : ℕ} (hs : c.notify i = some c') : c'.inside.Perm c.inside := by
  rw [Condition.notify] at hs
  split at hs
  · next w hi =>
    cases hs
    rw [inside, inside]
    refine List.Perm.append_right _ ?_
    exact List.perm_middle.trans ((cons_eraseIdx_perm hi).append_right c.signalled)
  · split at hs
    · cases hs
      exact List.Perm.refl _
    · cases hs

theorem inside_wake {i : ℕ} (hs : c.wake i = some c') : c'.inside.Perm c.inside := by
  obtain ⟨w, hi, rfl⟩ := Option.map_eq_some_iff.mp hs
  rw [inside, inside]
  refine List.perm_middle.trans ?_
  exact ((cons_eraseIdx_perm hi).append_right c.signalled).append_right c.spurious

/-- A thread that goes on is one of those inside and one of those woken. -/
theorem inside_reenter {notified : Bool} {i : ℕ} {w : W}
    (hs : c.reenter notified i = some (w, c')) :
    c.inside.Perm (w :: c'.inside) ∧ c.pending.Perm (w :: c'.pending) := by
  rw [reenter] at hs
  split at hs
  · obtain ⟨w', hi, heq⟩ := Option.map_eq_some_iff.mp hs
    obtain ⟨rfl, rfl⟩ := Prod.mk.inj heq
    have hperm := (cons_eraseIdx_perm hi).symm
    constructor
    · exact ((hperm.append_left c.waiting).trans List.perm_middle).append_right c.spurious
    · exact hperm.append_right c.spurious
  · obtain ⟨w', hi, heq⟩ := Option.map_eq_some_iff.mp hs
    obtain ⟨rfl, rfl⟩ := Prod.mk.inj heq
    have hperm := (cons_eraseIdx_perm hi).symm
    constructor
    · exact (hperm.append_left (c.waiting ++ c.signalled)).trans List.perm_middle
    · exact (hperm.append_left c.signalled).trans List.perm_middle

theorem length_pending_notify {i : ℕ} (hs : c.notify i = some c') :
    c'.pending.length ≤ c.pending.length + 1 := by
  rw [Condition.notify] at hs
  split at hs
  · cases hs
    exact Nat.le_refl _
  · split at hs
    · cases hs
      exact Nat.le_succ _
    · cases hs

/-- Some waiter can be chosen. -/
theorem exists_notify (c : Condition W) : ∃ c', c.notify 0 = some c' := by
  rw [Condition.notify]
  cases hw : c.waiting with
  | nil => exact ⟨c, rfl⟩
  | cons w ws => exact ⟨_, rfl⟩

/-- Where no thread can go on, none has been woken. -/
theorem pending_eq_nil (h : ∀ notified i, c.reenter notified i = none) : c.pending = [] := by
  have hsignalled := Option.map_eq_none_iff.mp (h true 0)
  have hspurious := Option.map_eq_none_iff.mp (h false 0)
  rw [List.getElem?_eq_none_iff, Nat.le_zero, List.length_eq_zero_iff] at hsignalled hspurious
  rw [pending, hsignalled, hspurious]
  rfl

theorem inside_of_pending_nil (h : c.pending = []) : c.inside = c.waiting ∧ c.signalled = [] := by
  obtain ⟨hsignalled, hspurious⟩ := List.append_eq_nil_iff.mp h
  refine ⟨?_, hsignalled⟩
  rw [inside, hsignalled, hspurious, List.append_nil, List.append_nil]

end Condition

end ReactorNet
