import ReactorNet.CountDownLatch
import ReactorNet.MutexLock

/-!
# Threads

A `Thread` object with the thread that owns it and the thread it starts, which has a pointer to
`tid_` and one to `latch_`. The owner calls one function at a time; the new thread goes on by
itself.
-/
namespace ReactorNet

/-- Where the owner is: in no call, behind `pthread_create`, or in the latch. -/
inductive Starter where
  | idle | created | inWait
deriving DecidableEq

/-- How far the new thread has come. -/
inductive Child where
  | absent | created | numbered | counted | finished
deriving DecidableEq

/-- The child has counted the latch down. -/
def Child.isCounted : Child → Bool
  | .counted => true
  | .finished => true
  | _ => false

/-- `joins` and `detaches` are the calls of `pthread_join` and `pthread_detach`; `failed` is a
failed assertion, and `dangling` a use of the destroyed object by the child. -/
structure Thread where
  started_ : Bool
  joined_ : Bool
  tid_ : ℕ
  latch_ : CountDownLatch
  starter : Starter
  child : Child
  destroyed : Bool
  joins : ℕ
  detaches : ℕ
  aborted : Bool
  failed : Bool
  dangling : Bool

inductive ThreadAction where
  | start (created : Bool)
  | latchWait
  | latchWaitAgain (notified : Bool) (i : ℕ)
  | wake (i : ℕ)
  | storeTid (tid : Tid)
  | countDown
  | finish
  | join
  | destruct

namespace Thread

open GuardedRuns

def construct : Thread :=
  ⟨false, false, 0, .construct 1, .idle, .absent, false, 0, 0, false, false, false⟩

/-- `start` up to the latch; without a thread the log call aborts the program. -/
def start (s : Thread) (created : Bool) : Thread :=
  if s.started_ then { s with failed := true }
  else if created then { s with started_ := true, child := .created, starter := .created }
  else { s with aborted := true }

/-- `start` from a critical section of the latch on. -/
def afterWait (s : Thread) (latch : CountDownLatch) : Thread :=
  if 0 ∈ latch.condition_.inside then { s with latch_ := latch, starter := .inWait }
  else { s with latch_ := latch, starter := .idle, failed := s.failed || s.tid_ == 0 }

/-- `join` returns when the child has finished. -/
def join (s : Thread) : Option Thread :=
  if !s.started_ || s.joined_ then some { s with failed := true }
  else if s.child = .finished then some { s with joined_ := true, joins := s.joins + 1 }
  else none

def destruct (s : Thread) : Thread :=
  { s with
    destroyed := true
    detaches := if s.started_ && !s.joined_ then s.detaches + 1 else s.detaches }

/-- The owner may call a function of the object. -/
def free (s : Thread) : Bool := s.starter == .idle && !s.destroyed

def act (s : Thread) : ThreadAction → Option Thread
  | .start created => if s.free then some (s.start created) else none
  | .latchWait => if s.starter = .created then (s.latch_.step (.wait 0)).map s.afterWait else none
  | .latchWaitAgain notified i =>
    if s.starter = .inWait then (s.latch_.step (.waitAgain notified i)).map s.afterWait else none
  | .wake i => (s.latch_.step (.wake i)).map fun latch => { s with latch_ := latch }
  | .storeTid tid =>
    if s.child = .created then some { s with
      tid_ := tid.val, child := .numbered, dangling := s.dangling || s.destroyed }
    else none
  | .countDown =>
    if s.child = .numbered then (s.latch_.step .countDown).map fun latch => { s with
      latch_ := latch, child := .counted, dangling := s.dangling || s.destroyed }
    else none
  | .finish => if s.child = .counted then some { s with child := .finished } else none
  | .join => if s.free then s.join else none
  | .destruct => if s.free then some s.destruct else none

def step (s : Thread) (a : ThreadAction) : Option Thread := if s.aborted then none else s.act a

/-- What the owner has to see to: it starts a thread once, and joins it once after that. -/
def Proper (s : Thread) : ThreadAction → Prop
  | .start _ => s.started_ = false
  | .join => s.started_ = true ∧ s.joined_ = false
  | _ => True

instance (s : Thread) : (a : ThreadAction) → Decidable (s.Proper a)
  | .start _ => inferInstanceAs (Decidable (s.started_ = false))
  | .join => inferInstanceAs (Decidable (_ ∧ _))
  | .latchWait | .latchWaitAgain .. | .wake _ | .storeTid _ | .countDown | .finish | .destruct =>
    .isTrue trivial

/-! ## The invariant -/

structure Sound (s : Thread) : Prop where
  failed : s.failed = false
  dangling : s.dangling = false
  latch : s.latch_.Sound 1
  downs : s.latch_.downs = if s.child.isCounted then 1 else 0
  absent : s.child = .absent ↔ s.started_ = false
  number : s.child ≠ .absent → s.child ≠ .created → 0 < s.tid_
  /-- Outside of its calls the owner has seen the latch open. -/
  idle : s.starter = .idle → s.started_ = true → s.child.isCounted = true
  busy : s.starter ≠ .idle → s.started_ = true ∧ s.destroyed = false ∧ s.joined_ = false
  created : s.starter = .created → s.latch_.condition_.inside = []
  inWait : s.starter = .inWait → 0 ∈ s.latch_.condition_.inside
  owner : ∀ thread ∈ s.latch_.condition_.inside, thread = 0
  unstarted : s.started_ = false → s.latch_.condition_.inside = []
  joins : s.joins = if s.joined_ then 1 else 0
  joined : s.joined_ = true → s.started_ = true
  detaches : s.detaches = if s.destroyed && s.started_ && !s.joined_ then 1 else 0

theorem sound_construct : construct.Sound where
  failed := rfl
  dangling := rfl
  latch := CountDownLatch.sound_construct 1
  downs := rfl
  absent := ⟨fun _ => rfl, fun _ => rfl⟩
  number h := absurd rfl h
  idle _ h := nomatch h
  busy h := absurd rfl h
  created _ := rfl
  inWait h := nomatch h
  owner _ h := nomatch h
  unstarted _ := rfl
  joins := rfl
  joined h := nomatch h
  detaches := rfl

variable {s s' : Thread}

/-- A thread that is in the latch is still in it or has returned. -/
theorem latch_waitLocked {l : CountDownLatch} (h : ∀ thread ∈ l.condition_.inside, thread = 0) :
    (l.waitLocked 0).downs = l.downs ∧
      (0 ∈ (l.waitLocked 0).condition_.inside ∨ (l.waitLocked 0).returned ≠ []) ∧
      ∀ thread ∈ (l.waitLocked 0).condition_.inside, thread = 0 := by
  rw [CountDownLatch.waitLocked]
  split
  · refine ⟨rfl, Or.inl List.mem_cons_self, ?_⟩
    intro thread hthread
    rcases List.mem_cons.mp hthread with heq | hin
    · exact heq
    · exact h thread hin
  · exact ⟨rfl, Or.inr (List.cons_ne_nil _ _), h⟩

/-- A child that has counted down has stored its number before. -/
theorem Sound.tid_pos (h : s.Sound) (hchild : s.child.isCounted = true) : 0 < s.tid_ := by
  apply h.number
  · intro hc
    rw [hc] at hchild
    cases hchild
  · intro hc
    rw [hc] at hchild
    cases hchild

theorem Sound.afterWait {l : CountDownLatch} (h : s.Sound) (hbusy : s.starter ≠ .idle)
    (hl : l.Sound 1) (hdowns : l.downs = s.latch_.downs)
    (hreturned : 0 ∈ l.condition_.inside ∨ l.returned ≠ [])
    (howner : ∀ thread ∈ l.condition_.inside, thread = 0) : (s.afterWait l).Sound := by
  obtain ⟨hstarted, hdestroyed, hjoined⟩ := h.busy hbusy
  rw [Thread.afterWait]
  split
  · next hin => exact ⟨h.failed, h.dangling, hl, hdowns.trans h.downs, h.absent, h.number, nofun,
      fun _ => ⟨hstarted, hdestroyed, hjoined⟩, nofun, fun _ => hin, howner,
      fun hno => (Bool.false_ne_true (hno.symm.trans hstarted)).elim, h.joins, h.joined, h.detaches⟩
  · next hout =>
    have hopen := hl.returned (hreturned.resolve_left hout)
    have hcount := hl.count
    have hchild : s.child.isCounted = true := by
      by_contra hno
      have hzero := h.downs
      rw [if_neg hno] at hzero
      omega
    refine ⟨?_, h.dangling, hl, hdowns.trans h.downs, h.absent, h.number, fun _ _ => hchild,
      fun hno => absurd rfl hno, nofun, nofun, howner,
      fun hno => (Bool.false_ne_true (hno.symm.trans hstarted)).elim, h.joins, h.joined, h.detaches⟩
    have hne : (s.tid_ == 0) = false := beq_eq_false_iff_ne.mpr (Nat.ne_of_gt (h.tid_pos hchild))
    simp only [h.failed, hne, Bool.or_false]

/-- The child is past its first two steps only while the owner is in `start`. -/
theorem Sound.alive (h : s.Sound) (hchild : s.child.isCounted = false)
    (habsent : s.child ≠ .absent) :
    s.starter ≠ .idle ∧ s.started_ = true ∧ s.destroyed = false := by
  have hstarted : s.started_ = true := by
    by_contra hno
    exact habsent (h.absent.mpr (Bool.eq_false_iff.mpr hno))
  have hbusy : s.starter ≠ .idle := by
    intro hidle
    exact Bool.false_ne_true (hchild.symm.trans (h.idle hidle hstarted))
  exact ⟨hbusy, hstarted, (h.busy hbusy).2.1⟩

theorem free_iff : s.free = true ↔ s.starter = .idle ∧ s.destroyed = false := by
  simp [free]

theorem start_eq (h : s.started_ = false) (created : Bool) : s.start created =
    if created then { s with started_ := true, child := .created, starter := .created }
    else { s with aborted := true } := by
  rw [start, if_neg (Bool.eq_false_iff.mp h)]

theorem join_eq (hstarted : s.started_ = true) (hjoined : s.joined_ = false) : s.join =
    if s.child = .finished then some { s with joined_ := true, joins := s.joins + 1 }
    else none := by
  rw [join, if_neg (by rw [hstarted, hjoined]; decide)]

theorem Sound.act_start {created : Bool} (h : s.Sound) (hno : s.started_ = false)
    (hs : s.act (.start created) = some s') : s'.Sound := by
  simp only [Thread.act, Option.ite_none_right_eq_some, Option.some.injEq, start_eq hno] at hs
  obtain ⟨hfree, rfl⟩ := hs
  obtain ⟨hidle, hdestroyed⟩ := free_iff.mp hfree
  have habsent := h.absent.mpr hno
  have hjoined : s.joined_ = false := by
    by_contra hj
    exact Bool.false_ne_true (hno.symm.trans (h.joined (Bool.not_eq_false _ ▸ hj)))
  have hdowns := h.downs
  have hdetaches := h.detaches
  rw [habsent] at hdowns
  rw [hdestroyed] at hdetaches
  cases created with
  | false =>
    exact ⟨h.failed, h.dangling, h.latch, h.downs, h.absent, h.number, h.idle, h.busy, h.created,
      h.inWait, h.owner, h.unstarted, h.joins, h.joined, h.detaches⟩
  | true =>
    refine ⟨h.failed, h.dangling, h.latch, hdowns, ⟨fun hc => ?_, fun hs => ?_⟩,
      fun _ hne => absurd rfl hne, fun hc => ?_, fun _ => ⟨rfl, hdestroyed, hjoined⟩,
      fun _ => h.unstarted hno, fun hc => ?_, h.owner, fun hs => ?_, h.joins, fun _ => rfl,
      by simpa [hdestroyed] using hdetaches⟩
    · cases hc
    · cases hs
    · cases hc
    · cases hc
    · cases hs

theorem Sound.act_latchWait (h : s.Sound) (hs : s.act .latchWait = some s') : s'.Sound := by
  simp only [Thread.act, Option.ite_none_right_eq_some] at hs
  obtain ⟨hcreated, hs⟩ := hs
  obtain ⟨l, hl, rfl⟩ := Option.map_eq_some_iff.mp hs
  have hsound := h.latch.step hl
  simp only [CountDownLatch.step, Option.ite_none_left_eq_some, Option.some.injEq] at hl
  obtain ⟨-, rfl⟩ := hl
  obtain ⟨hdowns, hreturned, howner⟩ :=
    latch_waitLocked (l := { s.latch_ with waits := s.latch_.waits + 1 }) h.owner
  exact h.afterWait (by rw [hcreated]; decide) hsound hdowns hreturned howner

theorem Sound.act_latchWaitAgain {notified : Bool} {i : ℕ} (h : s.Sound)
    (hs : s.act (.latchWaitAgain notified i) = some s') : s'.Sound := by
  simp only [Thread.act, Option.ite_none_right_eq_some] at hs
  obtain ⟨hinWait, hs⟩ := hs
  obtain ⟨l, hl, rfl⟩ := Option.map_eq_some_iff.mp hs
  have hsound := h.latch.step hl
  obtain ⟨⟨thread, c⟩, hreenter, rfl⟩ := Option.map_eq_some_iff.mp hl
  have hinside := (Condition.inside_reenter hreenter).1
  have hthread : thread = 0 := h.owner thread (hinside.mem_iff.mpr List.mem_cons_self)
  subst hthread
  obtain ⟨hdowns, hreturned, howner⟩ := latch_waitLocked (l := { s.latch_ with condition_ := c })
    fun thread hin => h.owner thread (hinside.mem_iff.mpr (List.mem_cons_of_mem _ hin))
  exact h.afterWait (by rw [hinWait]; decide) hsound hdowns hreturned howner

theorem Sound.act_wake {i : ℕ} (h : s.Sound) (hs : s.act (.wake i) = some s') : s'.Sound := by
  obtain ⟨l, hl, rfl⟩ := Option.map_eq_some_iff.mp hs
  have hsound := h.latch.step hl
  obtain ⟨c, hwake, rfl⟩ := Option.map_eq_some_iff.mp hl
  have hinside := Condition.inside_wake hwake
  refine ⟨h.failed, h.dangling, hsound, h.downs, h.absent, h.number, h.idle, h.busy,
    ?_, ?_, ?_, ?_, h.joins, h.joined, h.detaches⟩
  · intro hcreated
    rw [h.created hcreated] at hinside
    exact hinside.eq_nil
  · intro hin
    exact hinside.mem_iff.mpr (h.inWait hin)
  · intro thread hin
    exact h.owner thread (hinside.mem_iff.mp hin)
  · intro hno
    rw [h.unstarted hno] at hinside
    exact hinside.eq_nil

theorem Sound.act_storeTid {tid : Tid} (h : s.Sound) (hs : s.act (.storeTid tid) = some s') :
    s'.Sound := by
  simp only [Thread.act, Option.ite_none_right_eq_some, Option.some.injEq] at hs
  obtain ⟨hchild, rfl⟩ := hs
  obtain ⟨hbusy, hstarted, hdestroyed⟩ := h.alive (by rw [hchild]; rfl) (by rw [hchild]; decide)
  have hdowns := h.downs
  rw [hchild] at hdowns
  refine ⟨h.failed, ?_, h.latch, hdowns, ⟨fun hc => (by cases hc), ?_⟩, fun _ _ => tid.pos,
    fun hidle => absurd hidle hbusy,
    h.busy, h.created, h.inWait, h.owner, h.unstarted, h.joins, h.joined, h.detaches⟩
  · simp only [h.dangling, hdestroyed, Bool.or_false]
  · intro hno
    exact (Bool.false_ne_true (hno.symm.trans hstarted)).elim

theorem Sound.act_countDown (h : s.Sound) (hs : s.act .countDown = some s') : s'.Sound := by
  simp only [Thread.act, Option.ite_none_right_eq_some] at hs
  obtain ⟨hchild, hs⟩ := hs
  obtain ⟨l, hl, rfl⟩ := Option.map_eq_some_iff.mp hs
  have hsound := h.latch.step hl
  obtain ⟨hbusy, hstarted, hdestroyed⟩ := h.alive (by rw [hchild]; rfl) (by rw [hchild]; decide)
  have hdowns := h.downs
  rw [hchild] at hdowns
  have hnumber := h.number (by rw [hchild]; decide) (by rw [hchild]; decide)
  simp only [CountDownLatch.step, CountDownLatch.countDown, Option.ite_none_left_eq_some,
    Option.some.injEq] at hl
  obtain ⟨-, rfl⟩ := hl
  have hinside : (if s.latch_.count_ - 1 = 0 then s.latch_.condition_.notifyAll
      else s.latch_.condition_).inside = s.latch_.condition_.inside := by
    split
    · rfl
    · rfl
  refine ⟨h.failed, ?_, hsound, congrArg (· + 1) hdowns, ⟨fun hc => (by cases hc), ?_⟩,
    fun _ _ => hnumber,
    fun _ _ => rfl, h.busy, ?_, ?_, ?_, ?_, h.joins, h.joined, h.detaches⟩
  · simp only [h.dangling, hdestroyed, Bool.or_false]
  · intro hno
    exact (Bool.false_ne_true (hno.symm.trans hstarted)).elim
  · exact fun hcreated => hinside.trans (h.created hcreated)
  · exact fun hin => hinside ▸ h.inWait hin
  · exact fun thread hin => h.owner thread (hinside ▸ hin)
  · exact fun hno => hinside.trans (h.unstarted hno)

theorem Sound.act_finish (h : s.Sound) (hs : s.act .finish = some s') : s'.Sound := by
  simp only [Thread.act, Option.ite_none_right_eq_some, Option.some.injEq] at hs
  obtain ⟨hchild, rfl⟩ := hs
  have hdowns := h.downs
  rw [hchild] at hdowns
  have hnumber := h.number (by rw [hchild]; decide) (by rw [hchild]; decide)
  refine ⟨h.failed, h.dangling, h.latch, hdowns, ⟨fun hc => (by cases hc), ?_⟩,
    fun _ _ => hnumber, fun _ _ => rfl,
    h.busy, h.created, h.inWait, h.owner, h.unstarted, h.joins, h.joined, h.detaches⟩
  intro hno
  have habsent := h.absent.mpr hno
  rw [hchild] at habsent
  cases habsent

theorem Sound.act_join (h : s.Sound) (hstarted : s.started_ = true)
    (hjoined : s.joined_ = false) (hs : s.act .join = some s') : s'.Sound := by
  simp only [Thread.act, Option.ite_none_right_eq_some] at hs
  obtain ⟨hfree, hs⟩ := hs
  obtain ⟨hidle, hdestroyed⟩ := free_iff.mp hfree
  rw [join_eq hstarted hjoined, Option.ite_none_right_eq_some, Option.some.injEq] at hs
  obtain ⟨hchild, rfl⟩ := hs
  have hjoins := h.joins
  have hdetaches := h.detaches
  rw [hjoined] at hjoins
  rw [hdestroyed] at hdetaches
  exact ⟨h.failed, h.dangling, h.latch, h.downs, h.absent, h.number, h.idle,
    fun hbusy => absurd hidle hbusy, h.created, h.inWait, h.owner, h.unstarted,
    congrArg (· + 1) hjoins, fun _ => hstarted, by simpa [hdestroyed] using hdetaches⟩

theorem Sound.act_destruct (h : s.Sound) (hs : s.act .destruct = some s') : s'.Sound := by
  simp only [Thread.act, Option.ite_none_right_eq_some, Option.some.injEq] at hs
  obtain ⟨hfree, rfl⟩ := hs
  obtain ⟨hidle, hdestroyed⟩ := free_iff.mp hfree
  have hdetaches := h.detaches
  rw [hdestroyed] at hdetaches
  refine ⟨h.failed, h.dangling, h.latch, h.downs, h.absent, h.number, h.idle,
    fun hbusy => absurd hidle hbusy, h.created, h.inWait, h.owner, h.unstarted,
      h.joins, h.joined, ?_⟩
  simp only [Thread.destruct, Bool.true_and]
  split
  · exact congrArg (· + 1) hdetaches
  · exact hdetaches

theorem Sound.step {a : ThreadAction} (h : s.Sound) (ha : s.Proper a) (hs : s.step a = some s') :
    s'.Sound := by
  rw [Thread.step, Option.ite_none_left_eq_some] at hs
  obtain ⟨-, hs⟩ := hs
  cases a with
  | start created => exact h.act_start ha hs
  | latchWait => exact h.act_latchWait hs
  | latchWaitAgain notified i => exact h.act_latchWaitAgain hs
  | wake i => exact h.act_wake hs
  | storeTid tid => exact h.act_storeTid hs
  | countDown => exact h.act_countDown hs
  | finish => exact h.act_finish hs
  | join => exact h.act_join ha.1 ha.2 hs
  | destruct => exact h.act_destruct hs

/-- Once the latch is open, the owner that waits has been woken. -/
theorem Sound.woken (h : s.Sound) (hinWait : s.starter = .inWait)
    (hchild : s.child.isCounted = true) :
    ∃ notified, (s.act (.latchWaitAgain notified 0)).isSome = true := by
  have hdowns := h.downs
  rw [hchild] at hdowns
  have hcount := h.latch.count
  have hone : (s.latch_.downs : ℤ) = 1 := congrArg Int.ofNat hdowns
  have hwaiting := h.latch.waiting (by omega)
  have hin := h.inWait hinWait
  rw [Condition.inside, hwaiting, List.nil_append] at hin
  rcases List.mem_append.mp hin with hin | hin
  · refine ⟨true, ?_⟩
    obtain ⟨thread, threads, hcons⟩ := List.exists_cons_of_ne_nil (List.ne_nil_of_mem hin)
    rw [act, if_pos hinWait, CountDownLatch.step, Condition.reenter, hcons]
    rfl
  · refine ⟨false, ?_⟩
    obtain ⟨thread, threads, hcons⟩ := List.exists_cons_of_ne_nil (List.ne_nil_of_mem hin)
    rw [act, if_pos hinWait, CountDownLatch.step, Condition.reenter, hcons]
    rfl

/-- As long as the owner is in `start`, it or the new thread can go on. -/
theorem Sound.progress (h : s.Sound) (haborted : s.aborted = false) (hbusy : s.starter ≠ .idle)
    (tid : Tid) : ∃ a ∈ [.latchWait, .storeTid tid, .countDown, .latchWaitAgain true 0,
      .latchWaitAgain false 0], (s.step a).isSome = true := by
  have hstep (a : ThreadAction) : s.step a = s.act a := by
    rw [Thread.step, haborted, if_neg Bool.false_ne_true]
  cases hstarter : s.starter with
  | idle => exact absurd hstarter hbusy
  | created =>
    refine ⟨.latchWait, by simp, ?_⟩
    rw [hstep, act, if_pos hstarter, CountDownLatch.step, h.created hstarter]
    rfl
  | inWait =>
    obtain ⟨hstarted, -, -⟩ := h.busy hbusy
    have hdowns := h.downs
    cases hchild : s.child with
    | absent =>
      have hno := h.absent.mp hchild
      exact (Bool.false_ne_true (hno.symm.trans hstarted)).elim
    | created =>
      refine ⟨.storeTid tid, by simp, ?_⟩
      rw [hstep, act, if_pos hchild]
      rfl
    | numbered =>
      rw [hchild] at hdowns
      have hcount := h.latch.count
      have hone : s.latch_.count_ = 1 := by
        rw [hcount, hdowns]
        rfl
      refine ⟨.countDown, by simp, ?_⟩
      rw [hstep, act, if_pos hchild, CountDownLatch.step, CountDownLatch.countDown, hone]
      rfl
    | counted =>
      obtain ⟨notified, hsome⟩ := h.woken hstarter (by rw [hchild]; rfl)
      exact ⟨.latchWaitAgain notified 0, by cases notified <;> simp, by rw [hstep]; exact hsome⟩
    | finished =>
      obtain ⟨notified, hsome⟩ := h.woken hstarter (by rw [hchild]; rfl)
      exact ⟨.latchWaitAgain notified 0, by cases notified <;> simp, by rw [hstep]; exact hsome⟩

/-- An object that starts a thread once and joins it at most once, in every interleaving with the
new thread. No assertion fails: when `start` has returned, the thread's number is known. The new
thread never uses the object after its destruction. `start` never gets stuck. In the end a thread
that was started has been joined or detached, and only once. -/
theorem thread_lifecycle {as : List ThreadAction} (hr : run step construct as = some s)
    (ha : Meets step Proper construct as) (tid : Tid) :
    s.failed = false ∧ s.dangling = false ∧
      (s.starter = .idle → s.started_ = true → 0 < s.tid_) ∧
      (s.aborted = false → s.starter ≠ .idle →
        ∃ a ∈ [.latchWait, .storeTid tid, .countDown, .latchWaitAgain true 0,
          .latchWaitAgain false 0], (s.step a).isSome = true) ∧
      s.joins + s.detaches ≤ 1 ∧
      (s.destroyed = true → s.joins + s.detaches = if s.started_ then 1 else 0) := by
  have h : s.Sound := meets_invariant (fun _ _ _ h ha hs => h.step ha hs) sound_construct ha hr
  have hjoins := h.joins
  have hdetaches := h.detaches
  have hjoined := h.joined
  refine ⟨h.failed, h.dangling, ?_, fun haborted hbusy => h.progress haborted hbusy tid, ?_, ?_⟩
  · intro hidle hstarted
    exact h.tid_pos (h.idle hidle hstarted)
  · cases hj : s.joined_ <;> cases hd : s.destroyed <;> cases hst : s.started_ <;> simp_all
  · intro hd
    cases hj : s.joined_ <;> cases hst : s.started_ <;> simp_all

/-- The owner sleeps in the latch, wakes too early, and destroys the object before the child has
done anything else. -/
theorem thread_lifecycle_detached : ∃ s, run step construct
      [.start true, .latchWait, .storeTid ⟨7, by decide⟩, .wake 0, .latchWaitAgain false 0,
        .countDown, .latchWaitAgain true 0, .destruct, .finish] = some s ∧
      s.failed = false ∧ s.dangling = false ∧ s.tid_ = 7 ∧ s.joins + s.detaches = 1 := by
  obtain ⟨s, hr, hs⟩ : ∃ s, run step construct
      [.start true, .latchWait, .storeTid ⟨7, by decide⟩, .wake 0, .latchWaitAgain false 0,
        .countDown, .latchWaitAgain true 0, .destruct, .finish] = some s ∧
      (s.tid_, s.destroyed, s.started_) = (7, true, true) := ⟨_, rfl, by decide⟩
  obtain ⟨htid, hs⟩ := Prod.mk.inj hs
  obtain ⟨hdestroyed, hstarted⟩ := Prod.mk.inj hs
  obtain ⟨hfailed, hdangling, -, -, -, honce⟩ := thread_lifecycle hr (by decide) ⟨7, by decide⟩
  rw [hstarted] at honce
  exact ⟨s, hr, hfailed, hdangling, htid, honce hdestroyed⟩

end Thread

end ReactorNet
