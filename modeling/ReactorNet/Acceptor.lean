import Mathlib.Data.Int.CardIntervalMod
import ReactorNet.TcpServerDestructor

/-!
# Accepting connections

The acceptor in the base loop of the server. A descriptor that `accept` returns becomes a
connection in the next loop of the pool or is closed at once, and whatever is queued or handled
for a connection is in the loop it was given.
-/
namespace ReactorNet

inductive AcceptErrno where
  | EAGAIN | ECONNABORTED | EINTR | EPROTO | EPERM | EMFILE
  | EBADF | EFAULT | EINVAL | ENFILE | ENOBUFS | ENOMEM | ENOTSOCK | EOPNOTSUPP
  | unknown
deriving DecidableEq

/-- The kernel's answer to `accept4`. -/
inductive AcceptResult where
  | connection (connfd : ℕ)
  | error (errno : AcceptErrno)
deriving DecidableEq

/-- `sockets::accept` ends the process with `LOG_FATAL` for an error it does not expect. -/
def AcceptErrno.expected : AcceptErrno → Bool
  | .EAGAIN | .ECONNABORTED | .EINTR | .EPROTO | .EPERM | .EMFILE => true
  | .EBADF | .EFAULT | .EINVAL | .ENFILE | .ENOBUFS | .ENOMEM | .ENOTSOCK | .EOPNOTSUPP => false
  | .unknown => false

/-- Running out of descriptors is an expected error, and fatal to `handleRead`. -/
def AcceptErrno.fatal (errno : AcceptErrno) : Bool := !errno.expected || decide (errno = .EMFILE)

/-- The server with its acceptor: the descriptors given to `newConnectionCallback_` and those
that were closed instead. -/
structure AcceptingServer where
  server : PooledServer
  newConnectionCallback_ : Bool
  handed : List ℕ
  closed : List ℕ
  aborted : Bool

/-- An event on the acceptor's channel, with the kernel's answers, or a step of the server. -/
inductive AcceptingAction where
  | handleRead (results : List AcceptResult) (callbacks : Callbacks)
  | server (a : PooledAction)

namespace AcceptingServer

/-- A server that has been started and listens. -/
def started (numThreads : ℕ) : AcceptingServer where
  server := PooledServer.started numThreads
  newConnectionCallback_ := true
  handed := []
  closed := []
  aborted := false

/-- What the loop of `handleRead` does with a descriptor. -/
def accepted (s : AcceptingServer) (connfd : ℕ) (callbacks : Callbacks) : Option AcceptingServer :=
  if 65535 ≤ connfd then some { s with closed := s.closed ++ [connfd] }
  else if s.newConnectionCallback_ then
    (s.server.newConnection connfd callbacks).map fun server =>
      { s with server := server, handed := s.handed ++ [connfd] }
  else some { s with closed := s.closed ++ [connfd] }

/-- The loop of `Acceptor::handleRead` goes on until `accept` fails. -/
def handleRead (s : AcceptingServer) (callbacks : Callbacks) :
    List AcceptResult → Option AcceptingServer
  | [] => none
  | .connection connfd :: results =>
    (s.accepted connfd callbacks).bind fun t => t.handleRead callbacks results
  | [.error errno] => some (if errno.fatal then { s with aborted := true } else s)
  | .error _ :: _ :: _ => none

/-- The acceptor's channel is active while the base loop handles events and the server lives. -/
def step (s : AcceptingServer) : AcceptingAction → Option AcceptingServer
  | .handleRead results callbacks =>
    if s.aborted = false ∧ s.server.destructor = .notCalled ∧
        (s.server.loops 0).queue.handlingEvents = true then
      s.handleRead callbacks results
    else none
  | .server a =>
    match a with
    | .newConnection _ _ => none
    | a =>
      if s.aborted then none
      else (s.server.step a).map fun server => { s with server := server }

end AcceptingServer

namespace AcceptResult

def descriptor : AcceptResult → Option ℕ
  | .connection connfd => some connfd
  | .error _ => none

/-- The process does not survive the answer. -/
def fatal : AcceptResult → Bool
  | .connection _ => false
  | .error errno => errno.fatal

end AcceptResult

namespace AcceptingAction

/-- The answers of `accept` that the action has got. -/
def results : AcceptingAction → List AcceptResult
  | .handleRead results _ => results
  | .server _ => []

end AcceptingAction

namespace PooledServer

variable {s t : PooledServer}

/-! ## The next loop in turn -/

/-- The loop of the connection with this number. -/
def loopOf (numThreads c : ℕ) : ℕ := if numThreads = 0 then 0 else c % numThreads + 1

/-- The connections have gone to the loops in turn, and what the loops have in hand is theirs. -/
structure Spread (s : PooledServer) : Prop where
  placed : s.Placed
  name : ∀ c < s.nextConnId_, (s.conns c).conn.name_ = c
  next : s.numThreads_ ≠ 0 → s.next_ = s.nextConnId_ % s.numThreads_
  ioLoop : ∀ c < s.nextConnId_, (s.conns c).ioLoop = loopOf s.numThreads_ c

theorem Spread.arranged (h : s.Spread) : s.Arranged := ⟨h.placed, h.name⟩

theorem spread_started (numThreads : ℕ) : (started numThreads).Spread where
  placed := (sane_started numThreads).arranged.placed
  name c hc := absurd hc (Nat.not_lt_zero c)
  next _ := (Nat.zero_mod _).symm
  ioLoop c hc := absurd hc (Nat.not_lt_zero c)

theorem Spread.getNextLoop (h : s.Spread) :
    s.getNextLoop.1 = loopOf s.numThreads_ s.nextConnId_ ∧
      (s.numThreads_ ≠ 0 → s.getNextLoop.2 = (s.nextConnId_ + 1) % s.numThreads_) := by
  by_cases hn : s.numThreads_ = 0
  · simp [PooledServer.getNextLoop, loopOf, hn]
  · have hnext := h.next hn
    have hlt := Nat.mod_lt s.nextConnId_ (Nat.pos_of_ne_zero hn)
    have hnumber : s.nextConnId_ + 1 =
        s.numThreads_ * (s.nextConnId_ / s.numThreads_) + (s.nextConnId_ % s.numThreads_ + 1) := by
      rw [← Nat.add_assoc, Nat.div_add_mod]
    simp only [PooledServer.getNextLoop, loopOf, if_neg hn, hnext]
    refine ⟨trivial, fun _ => ?_⟩
    rw [hnumber, Nat.mul_add_mod]
    split
    · next hle =>
      have heq : s.nextConnId_ % s.numThreads_ + 1 = s.numThreads_ := by omega
      rw [heq, Nat.mod_self]
    · next hle => exact (Nat.mod_eq_of_lt (by omega)).symm

theorem Spread.newConnection (h : s.Spread) {sockfd : ℕ} {callbacks : Callbacks}
    (hs : s.newConnection sockfd callbacks = some t) :
    t.Spread ∧ t.nextConnId_ = s.nextConnId_ + 1 ∧ t.numThreads_ = s.numThreads_ := by
  have hf := follows_newConnection h.arranged hs
  have ha := newConnection_cases hs
  obtain ⟨hloop, hnext⟩ := h.getNextLoop
  refine ⟨⟨hf.arranged.placed, hf.arranged.name, ?_, ?_⟩, ha.nextConnId, ha.numThreads⟩
  · rw [ha.numThreads, ha.next, ha.nextConnId]
    exact hnext
  · intro c hc
    rw [ha.nextConnId, Nat.lt_succ_iff_lt_or_eq] at hc
    rw [ha.numThreads]
    rcases hc with hc | rfl
    · rw [hf.ioLoop c hc]
      exact h.ioLoop c hc
    · rw [ha.conns, Function.update_self]
      exact hloop

theorem Spread.of_follows (h : s.Spread) {a : PooledAction} (hf : Follows s t a)
    (hnext : t.next_ = s.next_) (hid : t.nextConnId_ = s.nextConnId_) : t.Spread where
  placed := hf.arranged.placed
  name := hf.arranged.name
  next := by
    rw [hf.numThreads, hnext, hid]
    exact h.next
  ioLoop c hc := by
    rw [hid] at hc
    rw [hf.numThreads, hf.ioLoop c hc]
    exact h.ioLoop c hc

/-- The queue of a loop that ends is dropped. -/
theorem Spread.exit (h : s.Spread) {l : ℕ} (hs : s.step (.exit l) = some t) : t.Spread := by
  obtain ⟨-, hpolling, rfl⟩ := exit_cases hs
  have hnone : ({ (s.loops l).queue with pendingFunctors_ := [] } : EventLoop LoopFunctor).queued =
      [] := by
    rw [polling_iff] at hpolling
    simp [EventLoop.queued, EventLoop.functors, hpolling]
  have hserves : s.Serves l { s.loops l with
      queue := { (s.loops l).queue with pendingFunctors_ := [] }
      exited := true } := by
    refine ⟨fun f hf => ?_, fun c hc => ?_, (h.placed l).active, (h.placed l).todo,
      (h.placed l).nodup, (h.placed l).handled⟩
    · rw [hnone] at hf
      exact absurd hf List.not_mem_nil
    · rw [hnone] at hc
      exact absurd hc List.not_mem_nil
  have hplaced := h.placed.setLoop hserves
  exact ⟨hplaced.congr rfl (Nat.le_refl _) fun _ _ => rfl, h.name, h.next, h.ioLoop⟩

theorem Spread.step (h : s.Spread) {a : PooledAction}
    (ha : ∀ sockfd callbacks, a ≠ .newConnection sockfd callbacks)
    (hs : s.step a = some t) (hu : t.undefined = false) :
    t.Spread ∧ t.nextConnId_ = s.nextConnId_ ∧ t.numThreads_ = s.numThreads_ := by
  rcases step_kinds h.arranged hs hu with ⟨hf, hst⟩ | ⟨sockfd, callbacks, rfl⟩ | ⟨c, rfl⟩ |
    ⟨c, rfl⟩ | rfl | ⟨l, rfl⟩
  · exact ⟨h.of_follows hf hst.next hst.nextConnId, hst.nextConnId, hf.numThreads⟩
  · exact absurd rfl (ha sockfd callbacks)
  · have hf := follows_keep h.arranged hs
    obtain ⟨-, rfl⟩ := keep_cases hs
    exact ⟨h.of_follows hf rfl rfl, rfl, rfl⟩
  · have hf := follows_release h.arranged hs
    obtain rfl := release_cases hs
    exact ⟨h.of_follows hf rfl rfl, rfl, rfl⟩
  · obtain ⟨-, rfl⟩ := destroy_cases hs
    exact ⟨⟨h.placed.congr rfl (Nat.le_refl _) fun _ _ => rfl, h.name, h.next, h.ioLoop⟩, rfl, rfl⟩
  · have ht := h.exit hs
    obtain ⟨-, -, rfl⟩ := exit_cases hs
    exact ⟨ht, rfl, rfl⟩

/-- The number of connections that a loop has been given. -/
def load (s : PooledServer) (l : ℕ) : ℕ := Nat.count (fun c => (s.conns c).ioLoop = l) s.nextConnId_

/-- The loops of the pool have been given equally many, the first ones perhaps one more. -/
theorem Spread.load_eq (h : s.Spread) {l : ℕ} (hl : l < s.numThreads_) :
    s.load (l + 1) = s.nextConnId_ / s.numThreads_ +
      if l < s.nextConnId_ % s.numThreads_ then 1 else 0 := by
  have hpos := Nat.zero_lt_of_lt hl
  have hcount := Nat.count_modEq_card s.nextConnId_ hpos l
  rw [Nat.mod_eq_of_lt hl] at hcount
  rw [load, ← hcount, Nat.count_eq_card_filter_range, Nat.count_eq_card_filter_range]
  refine congrArg Finset.card (Finset.filter_congr fun c hc => ?_)
  rw [h.ioLoop c (Finset.mem_range.mp hc), loopOf, if_neg (Nat.ne_of_gt hpos), Nat.ModEq,
    Nat.mod_eq_of_lt hl, Nat.add_right_cancel_iff]

end PooledServer

namespace AcceptingServer

open PooledServer

/-! ## Runs -/

/-- What has become of the answers of `accept`. -/
structure Accepting (numThreads : ℕ) (s : AcceptingServer) (results : List AcceptResult) :
    Prop where
  spread : s.server.Spread
  numThreads : s.server.numThreads_ = numThreads
  bound : s.newConnectionCallback_ = true
  handed : s.handed = (results.filterMap AcceptResult.descriptor).filter (· < 65535)
  closed : s.closed = (results.filterMap AcceptResult.descriptor).filter (65535 ≤ ·)
  nextConnId : s.server.nextConnId_ = s.handed.length
  aborted : s.aborted = results.any AcceptResult.fatal

variable {numThreads : ℕ} {s t : AcceptingServer} {results : List AcceptResult}

theorem accepting_started (numThreads : ℕ) : Accepting numThreads (started numThreads) [] :=
  ⟨spread_started numThreads, rfl, rfl, rfl, rfl, rfl, rfl⟩

/-- A descriptor is handed on or closed. -/
theorem Accepting.accepted (h : Accepting numThreads s results) {connfd : ℕ}
    {callbacks : Callbacks} (hs : s.accepted connfd callbacks = some t) :
    Accepting numThreads t (results ++ [.connection connfd]) := by
  have hdescriptors :
      (results ++ [AcceptResult.connection connfd]).filterMap AcceptResult.descriptor =
      results.filterMap AcceptResult.descriptor ++ [connfd] := by
    rw [List.filterMap_append]
    rfl
  have haborted :
      s.aborted = (results ++ [AcceptResult.connection connfd]).any AcceptResult.fatal := by
    rw [List.any_append, h.aborted]
    exact (Bool.or_false _).symm
  rw [AcceptingServer.accepted] at hs
  by_cases hle : 65535 ≤ connfd
  · rw [if_pos hle] at hs
    cases hs
    refine ⟨h.spread, h.numThreads, h.bound, ?_, ?_, h.nextConnId, haborted⟩
    · rw [hdescriptors, List.filter_append, ← h.handed, List.filter_cons_of_neg, List.filter_nil,
        List.append_nil]
      simpa using hle
    · rw [hdescriptors, List.filter_append, ← h.closed, List.filter_cons_of_pos, List.filter_nil]
      simpa using hle
  · rw [if_neg hle, if_pos h.bound, Option.map_eq_some_iff] at hs
    obtain ⟨server, hserver, rfl⟩ := hs
    obtain ⟨hspread, hid, hthreads⟩ := h.spread.newConnection hserver
    refine ⟨hspread, hthreads.trans h.numThreads, h.bound, ?_, ?_, ?_, haborted⟩
    · rw [hdescriptors, List.filter_append, ← h.handed, List.filter_cons_of_pos, List.filter_nil]
      simpa using hle
    · rw [hdescriptors, List.filter_append, ← h.closed, List.filter_cons_of_neg, List.filter_nil,
        List.append_nil]
      simpa using hle
    · rw [hid, h.nextConnId, List.length_append]
      rfl

theorem Accepting.handleRead (h : Accepting numThreads s results) {callbacks : Callbacks}
    {more : List AcceptResult} (hs : s.handleRead callbacks more = some t) :
    Accepting numThreads t (results ++ more) := by
  induction more generalizing s results with
  | nil => cases hs
  | cons result more ih =>
    cases result with
    | connection connfd =>
      rw [AcceptingServer.handleRead, Option.bind_eq_some_iff] at hs
      obtain ⟨u, hu, hs⟩ := hs
      have hmore := ih (h.accepted hu) hs
      rwa [List.append_assoc] at hmore
    | error errno =>
      cases more with
      | cons _ _ => cases hs
      | nil =>
        have hdescriptors :
            (results ++ [AcceptResult.error errno]).filterMap AcceptResult.descriptor =
            results.filterMap AcceptResult.descriptor := by
          rw [List.filterMap_append]
          exact List.append_nil _
        have hany : (results ++ [AcceptResult.error errno]).any AcceptResult.fatal =
            (s.aborted || errno.fatal) := by
          rw [List.any_append, h.aborted, List.any_cons, List.any_nil, Bool.or_false]
          rfl
        rw [AcceptingServer.handleRead] at hs
        cases hs
        cases hfatal : errno.fatal with
        | true =>
          refine ⟨h.spread, h.numThreads, h.bound, ?_, ?_, h.nextConnId, ?_⟩
          · rw [hdescriptors]
            exact h.handed
          · rw [hdescriptors]
            exact h.closed
          · rw [hany, hfatal, Bool.or_true]
            rfl
        | false =>
          refine ⟨h.spread, h.numThreads, h.bound, ?_, ?_, h.nextConnId, ?_⟩
          · rw [hdescriptors]
            exact h.handed
          · rw [hdescriptors]
            exact h.closed
          · rw [hany, hfatal, Bool.or_false]
            rfl

theorem Accepting.step (h : Accepting numThreads s results) {a : AcceptingAction}
    (hs : s.step a = some t) (hu : t.server.undefined = false) :
    Accepting numThreads t (results ++ a.results) := by
  cases a with
  | handleRead more callbacks =>
    simp only [AcceptingServer.step, Option.ite_none_right_eq_some] at hs
    exact h.handleRead hs.2
  | server a =>
    have hnot (sockfd : ℕ) (callbacks : Callbacks) : a ≠ .newConnection sockfd callbacks := by
      rintro rfl
      cases hs
    have hs' : (s.server.step a).map (fun server => { s with server := server }) = some t := by
      cases a with
      | newConnection sockfd callbacks => cases hs
      | _ =>
        simp only [AcceptingServer.step] at hs
        split at hs
        · cases hs
        · exact hs
    obtain ⟨server, hserver, rfl⟩ := Option.map_eq_some_iff.mp hs'
    obtain ⟨hspread, hid, hthreads⟩ := h.spread.step hnot hserver hu
    rw [AcceptingAction.results, List.append_nil]
    exact ⟨hspread, hthreads.trans h.numThreads, h.bound, h.handed, h.closed,
      hid.trans h.nextConnId, h.aborted⟩

theorem undefined_handleRead {callbacks : Callbacks} {more : List AcceptResult}
    (hs : s.handleRead callbacks more = some t) : t.server.undefined = s.server.undefined := by
  induction more generalizing s with
  | nil => cases hs
  | cons result more ih =>
    cases result with
    | connection connfd =>
      rw [AcceptingServer.handleRead, Option.bind_eq_some_iff] at hs
      obtain ⟨u, hu, hs⟩ := hs
      rw [ih hs]
      rw [AcceptingServer.accepted] at hu
      split at hu
      · cases hu
        rfl
      · split at hu
        · obtain ⟨server, hserver, rfl⟩ := Option.map_eq_some_iff.mp hu
          exact (newConnection_cases hserver).undefined
        · cases hu
          rfl
    | error errno =>
      cases more with
      | cons _ _ => cases hs
      | nil =>
        cases hs
        split <;> rfl

theorem undefined_step {a : AcceptingAction} (hs : s.step a = some t)
    (hu : s.server.undefined = true) : t.server.undefined = true := by
  cases a with
  | handleRead more callbacks =>
    simp only [AcceptingServer.step, Option.ite_none_right_eq_some] at hs
    exact (undefined_handleRead hs.2).trans hu
  | server a =>
    cases a with
    | newConnection sockfd callbacks => cases hs
    | _ =>
      simp only [AcceptingServer.step] at hs
      split at hs
      · cases hs
      · obtain ⟨server, hserver, rfl⟩ := Option.map_eq_some_iff.mp hs
        exact PooledServer.undefined_step hserver hu

theorem Accepting.run (h : Accepting numThreads s results) {as : List AcceptingAction}
    (hr : GuardedRuns.run AcceptingServer.step s as = some t)
    (hu : t.server.undefined = false) :
    Accepting numThreads t (results ++ as.flatMap AcceptingAction.results) := by
  induction as generalizing s results with
  | nil =>
    cases hr
    rw [List.flatMap_nil, List.append_nil]
    exact h
  | cons a as ih =>
    obtain ⟨u, hs, hr⟩ := GuardedRuns.run_cons_eq_some.mp hr
    have hdefined : u.server.undefined = false := by
      refine Bool.eq_false_of_not_eq_true fun htrue => ?_
      have := GuardedRuns.run_invariant (P := fun v => v.server.undefined = true)
        (fun _ _ _ hv hstep => undefined_step hstep hv) htrue hr
      rw [hu] at this
      exact Bool.false_ne_true this
    rw [List.flatMap_cons, ← List.append_assoc]
    exact ih (h.step hs hdefined) hr

/-- In any run in which nothing undefined has happened: of the descriptors that `accept` has
returned the server has got those below 65535, in their order and each as one connection, and the
others have been closed; the connections have gone to the loops of the pool in turn, so that no
two loops differ by more than one; what is queued, reported or being handled for a connection is
in the loop it was given; and the process has ended exactly if `accept` has failed in a way that
is not expected, or for want of a descriptor. -/
theorem connections_in_turn (numThreads : ℕ) {as : List AcceptingAction} {s : AcceptingServer}
    (hr : GuardedRuns.run step (started numThreads) as = some s)
    (hu : s.server.undefined = false) :
    let results := as.flatMap AcceptingAction.results
    s.handed = (results.filterMap AcceptResult.descriptor).filter (· < 65535) ∧
      s.closed = (results.filterMap AcceptResult.descriptor).filter (65535 ≤ ·) ∧
      s.server.nextConnId_ = s.handed.length ∧
      (∀ c < s.server.nextConnId_, (s.server.conns c).ioLoop = loopOf numThreads c) ∧
      (∀ l < numThreads, s.server.load (l + 1) = s.handed.length / numThreads +
        if l < s.handed.length % numThreads then 1 else 0) ∧
      (∀ l, (∀ f ∈ (s.server.loops l).queue.queued, s.server.home f = l) ∧
        (∀ p ∈ (s.server.loops l).activeChannels_, (s.server.conns p.1).ioLoop = l) ∧
        ∀ p ∈ (s.server.loops l).todo, (s.server.conns p.1).ioLoop = l) ∧
      s.aborted = results.any AcceptResult.fatal := by
  have h := (accepting_started numThreads).run hr hu
  rw [List.nil_append] at h
  refine ⟨h.handed, h.closed, h.nextConnId, ?_, ?_, fun l => ?_, h.aborted⟩
  · rw [← h.numThreads]
    exact h.spread.ioLoop
  · intro l hl
    rw [← h.nextConnId, ← h.numThreads]
    exact h.spread.load_eq (h.numThreads ▸ hl)
  · have hplaced := h.spread.placed l
    exact ⟨fun f hf => (hplaced.functors f hf).2, fun p hp => (hplaced.active p hp).2,
      fun p hp => (hplaced.todo p hp).2⟩

/-- Three connections for two loops and a descriptor that is too large. -/
theorem connections_in_turn_three :
    let as : List AcceptingAction := [.server (.poll 0 []),
      .handleRead [.connection 9, .connection 65540, .connection 10, .error .EAGAIN]
        Callbacks.default,
      .handleRead [.connection 11, .error .ECONNABORTED] Callbacks.default, .server (.poll 1 [])]
    ∃ s, GuardedRuns.run step (started 2) as = some s ∧
      s.handed = [9, 10, 11] ∧ s.closed = [65540] ∧
      (∀ c < s.server.nextConnId_, (s.server.conns c).ioLoop = loopOf 2 c) ∧
      ∀ l < 2, s.server.load (l + 1) = 3 / 2 + if l < 3 % 2 then 1 else 0 := by
  intro as
  obtain ⟨s, hr⟩ : ∃ s, GuardedRuns.run step (started 2) as = some s := ⟨_, rfl⟩
  have hu : s.server.undefined = false := by
    have : (GuardedRuns.run step (started 2) as).map (fun s => s.server.undefined) =
        some false := rfl
    rw [hr] at this
    exact Option.some.inj this
  obtain ⟨hhanded, hclosed, -, hloops, hload, -, -⟩ := connections_in_turn 2 hr hu
  have hthree : s.handed = [9, 10, 11] := hhanded.trans (by decide)
  rw [hthree] at hload
  exact ⟨s, hr, hthree, hclosed.trans (by decide), hloops, hload⟩

end AcceptingServer

end ReactorNet
