import ReactorNet.ConditionVariables
import ReactorNet.GuardedRuns
import Mathlib.Data.Int.Notation

/-!
# The latch

`CountDownLatch` as a monitor, a step for every critical section. Threads are numbers. Counting
below the smallest `int` is no step.
-/
namespace ReactorNet

/-- `waits` and `downs` are the calls of `wait` and `countDown`, `returned` the threads whose calls
of `wait` have returned. -/
structure CountDownLatch where
  count_ : ℤ
  condition_ : Condition ℕ
  waits : ℕ
  downs : ℕ
  returned : List ℕ

inductive LatchAction where
  | wait (thread : ℕ)
  | waitAgain (notified : Bool) (i : ℕ)
  | countDown
  | wake (i : ℕ)

namespace LatchAction

/-- A thread that has been woken goes on. -/
def isAgain : LatchAction → Bool
  | waitAgain .. => true
  | _ => false

end LatchAction

namespace CountDownLatch

open GuardedRuns

def construct (count : ℤ) : CountDownLatch := ⟨count, .idle, 0, 0, []⟩

/-- `wait` from the test of its loop on. -/
def waitLocked (s : CountDownLatch) (thread : ℕ) : CountDownLatch :=
  if 0 < s.count_ then { s with condition_ := s.condition_.wait thread }
  else { s with returned := thread :: s.returned }

def countDown (s : CountDownLatch) : Option CountDownLatch :=
  if s.count_ = -2147483648 then none
  else some { s with
    count_ := s.count_ - 1
    downs := s.downs + 1
    condition_ := if s.count_ - 1 = 0 then s.condition_.notifyAll else s.condition_ }

def step (s : CountDownLatch) : LatchAction → Option CountDownLatch
  | .wait thread =>
    if thread ∈ s.condition_.inside then none
    else some ({ s with waits := s.waits + 1 }.waitLocked thread)
  | .waitAgain notified i =>
    (s.condition_.reenter notified i).map fun (thread, condition_) =>
      { s with condition_ := condition_ }.waitLocked thread
  | .countDown => s.countDown
  | .wake i => (s.condition_.wake i).map fun condition_ => { s with condition_ := condition_ }

/-! ## The invariant -/

/-- `inside` calls of `wait` have not returned yet. -/
structure Counts (s : CountDownLatch) (count : ℤ) (inside : ℕ) : Prop where
  count : s.count_ = count - s.downs
  returned : s.returned ≠ [] → s.count_ ≤ 0
  waiting : s.count_ ≤ 0 → s.condition_.waiting = []
  waits : s.returned.length + inside = s.waits

def Sound (s : CountDownLatch) (count : ℤ) : Prop := s.Counts count s.condition_.inside.length

theorem sound_construct (count : ℤ) : (construct count).Sound count where
  count := (Int.sub_zero count).symm
  returned h := absurd rfl h
  waiting _ := rfl
  waits := rfl

variable {s s' : CountDownLatch} {count : ℤ}

theorem Counts.waitLocked {thread : ℕ} (h : s.Counts count (s.condition_.inside.length + 1)) :
    (s.waitLocked thread).Sound count := by
  rw [CountDownLatch.waitLocked]
  split
  · next hpos => exact ⟨h.count, h.returned, fun hle => absurd hpos (Int.not_lt.mpr hle), h.waits⟩
  · next hle =>
    refine ⟨h.count, fun _ => Int.not_lt.mp hle, h.waiting, ?_⟩
    have hwaits := h.waits
    simp only [List.length_cons]
    omega

theorem Sound.countDown (h : s.Sound count) (hs : s.countDown = some s') : s'.Sound count := by
  simp only [CountDownLatch.countDown, Option.ite_none_left_eq_some, Option.some.injEq] at hs
  obtain ⟨-, rfl⟩ := hs
  have hcount := h.count
  refine ⟨?_, ?_, ?_, ?_⟩
  · simp only
    omega
  · intro hne
    have hle := h.returned hne
    simp only
    omega
  · intro hle
    simp only at hle ⊢
    split
    · rfl
    · exact h.waiting (by omega)
  · simp only
    split
    · simp only [Condition.inside, Condition.notifyAll, List.nil_append]
      exact h.waits
    · exact h.waits

theorem Sound.step {a : LatchAction} (h : s.Sound count) (hs : s.step a = some s') :
    s'.Sound count := by
  cases a with
  | wait thread =>
    simp only [CountDownLatch.step, Option.ite_none_left_eq_some, Option.some.injEq] at hs
    obtain ⟨-, rfl⟩ := hs
    apply Counts.waitLocked
    exact ⟨h.count, h.returned, h.waiting, congrArg (· + 1) h.waits⟩
  | waitAgain notified i =>
    obtain ⟨⟨thread, c⟩, hreenter, rfl⟩ := Option.map_eq_some_iff.mp hs
    have hinside := (Condition.inside_reenter hreenter).1.length_eq
    apply Counts.waitLocked
    refine ⟨h.count, h.returned, ?_, ?_⟩
    · intro hle
      exact (Condition.reenter_eq hreenter).1.trans (h.waiting hle)
    · have hwaits := h.waits
      rw [hinside, List.length_cons] at hwaits
      exact hwaits
  | countDown => exact h.countDown hs
  | wake i =>
    obtain ⟨c, hwake, rfl⟩ := Option.map_eq_some_iff.mp hs
    refine ⟨h.count, h.returned, ?_, ?_⟩
    · intro hle
      exact absurd (h.waiting hle) (Condition.waiting_of_wake hwake)
    · simp only [(Condition.inside_wake hwake).length_eq]
      exact h.waits

/-! ## Woken threads go on -/

def work (s : CountDownLatch) : ℕ := s.condition_.inside.length + s.condition_.pending.length

/-- A thread that goes on either waits again or has returned. -/
theorem work_waitLocked (s : CountDownLatch) (thread : ℕ) :
    (s.waitLocked thread).work ≤ s.work + 1 := by
  rw [waitLocked]
  split
  · simp only [work, Condition.inside_wait, Condition.pending_wait, List.length_cons]
    omega
  · simp only [work]
    omega

theorem work_step {a : LatchAction} (ha : a.isAgain) (hs : s.step a = some s') :
    s'.work < s.work := by
  cases a with
  | waitAgain notified i =>
    obtain ⟨⟨thread, c⟩, hreenter, rfl⟩ := Option.map_eq_some_iff.mp hs
    obtain ⟨hinside, hpending⟩ := Condition.inside_reenter hreenter
    have hinside := hinside.length_eq
    have hpending := hpending.length_eq
    have hwork := work_waitLocked { s with condition_ := c } thread
    simp only [work, List.length_cons] at hinside hpending hwork ⊢
    omega
  | wait => cases ha
  | countDown => cases ha
  | wake => cases ha

theorem length_le_work {bs : List LatchAction} (hbs : ∀ b ∈ bs, b.isAgain = true)
    (hr : run step s bs = some s') : bs.length + s'.work ≤ s.work := by
  induction bs generalizing s with
  | nil =>
    cases hr
    exact Nat.le_of_eq (Nat.zero_add _)
  | cons b bs ih =>
    obtain ⟨t, ht, hr⟩ := run_cons_eq_some.mp hr
    have hlt := work_step (hbs b List.mem_cons_self) ht
    have hle := ih (fun b hb => hbs b (List.mem_cons_of_mem _ hb)) hr
    rw [List.length_cons]
    omega

/-- No thread that has been woken is left. -/
def Settled (s : CountDownLatch) : Prop := ∀ a, a.isAgain = true → s.step a = none

theorem Settled.pending (h : s.Settled) : s.condition_.pending = [] := by
  apply Condition.pending_eq_nil
  intro notified i
  exact Option.map_eq_none_iff.mp (h (.waitAgain notified i) rfl)

/-- When no woken thread is left, all calls have returned, or none has. -/
theorem Sound.settled (h : s.Sound count) (hsettled : s.Settled) :
    s.returned.length = if count ≤ s.downs then s.waits else 0 := by
  obtain ⟨hinside, -⟩ := Condition.inside_of_pending_nil hsettled.pending
  have hcount := h.count
  have hwaits := h.waits
  split
  · have hwaiting := h.waiting (by omega)
    rw [hinside, hwaiting] at hwaits
    exact hwaits
  · have hreturned : s.returned = [] := by
      by_contra hne
      have hle := h.returned hne
      omega
    rw [hreturned]
    rfl

/-- The latch in every interleaving. No call of `wait` returns before the count has been counted
down; from then on nobody waits who has not been notified. Let the threads that have been woken
go on: they stop after a bounded number of steps, and then all calls of `wait` have returned if
the count has been counted down, and none if not. -/
theorem countDownLatch_opens {as bs : List LatchAction} {t : CountDownLatch}
    (hr : run step (construct count) as = some s) (hbs : ∀ b ∈ bs, b.isAgain = true)
    (hr' : run step s bs = some t) :
    (s.returned ≠ [] → count ≤ s.downs) ∧ (count ≤ s.downs → s.condition_.waiting = []) ∧
      bs.length ≤ s.work ∧
      (t.Settled → t.returned.length = if count ≤ t.downs then t.waits else 0) := by
  have h : s.Sound count := run_invariant (P := fun s => s.Sound count)
    (fun _ _ _ h hs => h.step hs) (sound_construct count) hr
  have ht : t.Sound count := run_invariant (P := fun s => s.Sound count)
    (fun _ _ _ h hs => h.step hs) h hr'
  have hcount := h.count
  have hwork := length_le_work hbs hr'
  refine ⟨?_, ?_, by omega, ht.settled⟩
  · intro hne
    have hle := h.returned hne
    omega
  · intro hle
    exact h.waiting (by omega)

/-- Two threads wait until a third one has counted twice; one of them wakes too early. -/
theorem countDownLatch_opens_two : ∃ s t,
    run step (construct 2) [.wait 1, .wait 2, .countDown, .wake 0, .waitAgain false 0, .countDown] =
      some s ∧
    run step s [.waitAgain true 0, .waitAgain true 0] = some t ∧ s.condition_.waiting = [] ∧
      2 ≤ s.work ∧ t.returned.length = 2 := by
  obtain ⟨s, hr, hs⟩ : ∃ s, run step (construct 2)
      [.wait 1, .wait 2, .countDown, .wake 0, .waitAgain false 0, .countDown] = some s ∧
      (s.downs, (run step s [.waitAgain true 0, .waitAgain true 0]).map (·.returned.length)) =
        (2, some 2) := ⟨_, rfl, by decide⟩
  obtain ⟨hdowns, hs⟩ := Prod.mk.inj hs
  obtain ⟨t, hr', ht⟩ := Option.map_eq_some_iff.mp hs
  obtain ⟨-, hwaiting, hwork, -⟩ := countDownLatch_opens hr (by decide) hr'
  exact ⟨s, t, hr, hr', hwaiting (by rw [hdowns]; decide), hwork, ht⟩

end CountDownLatch

end ReactorNet
