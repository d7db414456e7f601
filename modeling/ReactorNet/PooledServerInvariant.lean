import ReactorNet.PooledServerSteps

/-!
# What holds in every state of a server with its loops

In an orderly run no connection is closed twice, no channel is updated behind
`connectDestroyed`, and no call goes on after its loop has ended. If the server is then
destroyed only when it has no connection left, every connection of the pool keeps the
invariants of a server with a single connection, and nothing undefined happens.
-/
namespace ReactorNet.PooledServer

open ServerRun GuardedRuns

/-- A call of another thread does not go on when the loop of its connection has ended. -/
def resumable (s : PooledServer) (a : PooledAction) : Bool :=
  match a with
  | .resume c _ => !(s.loops (s.conns c).ioLoop).exited
  | _ => true

/-- The connection that takes a step is closed only while the server owns it, and leaves its
channel alone behind `connectDestroyed`. -/
structure Orderly (s : PooledServer) (a : PooledAction) : Prop where
  closedOnce : ∀ p ∈ s.connectionStep a, OwnedOnClose (s.view p.1) p.2
  nothingLeft : ∀ p ∈ s.connectionStep a, NothingLeftToUpdate (s.view p.1) p.2
  resumable : s.resumable a = true

instance (s : PooledServer) (a : PooledAction) : Decidable (s.Orderly a) :=
  decidable_of_iff ((∀ p ∈ s.connectionStep a, OwnedOnClose (s.view p.1) p.2) ∧
      (∀ p ∈ s.connectionStep a, NothingLeftToUpdate (s.view p.1) p.2) ∧ s.resumable a = true)
    ⟨fun h => ⟨h.1, h.2.1, h.2.2⟩, fun h => ⟨h.closedOnce, h.nothingLeft, h.resumable⟩⟩

/-- What is known of each connection. -/
structure Served (s : PooledServer) (c : ℕ) : Prop where
  tended : (s.view c).Tended
  ioLoop_le : (s.conns c).ioLoop ≤ s.numThreads_
  bound : (s.conns c).closeCallback_ = true

/-- How far the destructor has got. -/
structure Ended (s : PooledServer) : Prop where
  exited : ∀ l, (s.loops l).exited = true →
    (s.loops l).queue.queued = [] ∧ s.destructor ≠ .notCalled ∧ l ≠ 0
  emptied : s.destructor ≠ .notCalled → s.connections_ = []
  joining_pos : s.destructor ≠ .joining 0
  joined : ∀ l, l ≠ 0 → l ≤ s.numThreads_ → s.destructor ≠ .notCalled →
    (∀ k, s.destructor = .joining k → l < k) → (s.loops l).exited = true

/-- The numbers that the server has given to its loops and connections. -/
structure Numbered (s : PooledServer) : Prop where
  next_lt : s.numThreads_ ≠ 0 → s.next_ < s.numThreads_
  connections_lt : ∀ c ∈ s.connections_, c < s.nextConnId_
  kept_lt : ∀ c ∈ s.kept, c < s.nextConnId_

structure Sane (s : PooledServer) : Prop where
  arranged : s.Arranged
  numbered : s.Numbered
  served : ∀ c < s.nextConnId_, s.Served c
  ended : s.Ended
  defined : s.undefined = false

variable {s t : PooledServer}

theorem runs_iff {l : ℕ} : s.runs l = true ↔ l ≤ s.numThreads_ ∧ (s.loops l).exited = false ∧
    (l ≠ 0 ∨ s.destructor = .notCalled ∨ s.destructor = .finished) := by
  simp [runs, and_assoc, or_assoc]

/-- Until it is destroyed, a connection is held by the map or by its `connectDestroyed`. -/
theorem Served.owned {c : ℕ} (h : s.Served c) (hname : (s.conns c).conn.name_ = c)
    (hd : ¬ (s.view c).destroyed) :
    s.owned c = true := by
  have hsound := h.tended.watched.good.sound
  have hasserts : (s.view c).lifecycle.asserts = [] := of_not_not hd
  refine decide_eq_true ?_
  rcases herased : (s.view c).lifecycle.erased with _ | ⟨k, ks⟩
  · have hin := of_decide_eq_true (hsound.registered_iff.mpr herased)
    exact Or.inl (hname ▸ hin)
  · have hlen := hsound.erased_length
    rw [herased, hasserts, List.length_cons, List.length_nil] at hlen
    have hin : .connectDestroyed ∈ (s.view c).conn.loop_.queued :=
      List.count_pos_iff.mp (Nat.lt_of_lt_of_eq (Nat.succ_pos _) hlen)
    simp only [view, EventLoop.queued_select, List.mem_filterMap] at hin
    obtain ⟨f, hf, hfc⟩ := hin
    have hconn : f.conn = c := by
      cases f with
      | ofConnection d f =>
        simp only [LoopFunctor.ofConn, Option.ite_none_right_eq_some] at hfc
        exact hfc.1
      | removeConnectionInLoop d => simp [LoopFunctor.ofConn] at hfc
    exact Or.inr (Or.inr (Or.inr ⟨_, Nat.lt_succ_of_le h.ioLoop_le, f, hf, hconn⟩))

/-- An event is reported for a connection that is still there. -/
theorem Served.owned_busy {c : ℕ} (h : s.Served c) (hname : (s.conns c).conn.name_ = c)
    (hbusy : (s.view c).active ≠ none ∨ (s.view c).todo ≠ []) : s.owned c = true :=
  h.owned hname (h.tended.watched.not_destroyed h.tended.unregistered hbusy)

/-! ## Nothing undefined happens -/

theorem Sane.not_dangles (h : s.Sane) {c : ℕ} {a : ServerAction} {y : ServerRun}
    (ho : OwnedOnClose (s.view c) a)
    (he : (s.loops (s.conns c).ioLoop).exited = true →
      y.conn.loop_.pendingFunctors_ = (s.view c).conn.loop_.pendingFunctors_) :
    s.dangles c a y = false := by
  have hserver : ((s.view c).entersHandleClose a && decide (s.destructor = .finished)) = false := by
    by_contra hfalse
    simp only [Bool.not_eq_false, Bool.and_eq_true, decide_eq_true_eq] at hfalse
    obtain ⟨hclose, hfinished⟩ := hfalse
    have hin : (s.view c).conn.name_ ∈ s.connections_ := (ho hclose).1
    simp [h.ended.emptied (by simp [hfinished])] at hin
  have hloop : ((s.loops (s.conns c).ioLoop).exited &&
      decide (y.conn.loop_.pendingFunctors_ ≠ (s.view c).conn.loop_.pendingFunctors_)) = false := by
    cases hexited : (s.loops (s.conns c).ioLoop).exited with
    | false => rfl
    | true => simp [he hexited]
  rw [dangles, hserver, hloop, Bool.or_self]

/-- A step that a connection takes in a sane state is defined. -/
theorem Sane.defined_serve (h : s.Sane) {n : PooledServer} {c : ℕ} {a : ServerAction}
    (hs : s.serve n c a = some t) (hn : n.undefined = s.undefined)
    (ho : OwnedOnClose (s.view c) a)
    (he : ∀ y, (s.view c).step a = some y → (s.loops (s.conns c).ioLoop).exited = true →
      y.conn.loop_.pendingFunctors_ = (s.view c).conn.loop_.pendingFunctors_) :
    t.undefined = false := by
  obtain ⟨y, hy, rfl⟩ := serve_cases hs
  rw [h.not_dangles ho (he y hy)]
  exact hn.trans h.defined

theorem Sane.defined_callback (h : s.Sane) {l : ℕ} {delivered : Option (List UInt8)}
    {result : Option ℕ} (ho : s.Orderly (.callback l delivered result))
    (hs : s.step (.callback l delivered result) = some t) : t.undefined = false := by
  obtain ⟨hruns, c, cb, rest, htodo, hs⟩ := callback_cases hs
  obtain ⟨hc, hio⟩ := (h.arranged.placed l).todo (c, cb) (by simp [htodo])
  have hbusy : (s.view c).todo ≠ [] := by simp [view, hio, htodo]
  have howned := (h.served c hc).owned_busy (h.arranged.name c hc) (Or.inr hbusy)
  rcases hs with ⟨-, hs⟩ | ⟨hunowned, -⟩
  swap
  · simp [howned] at hunowned
  have hstep : s.connectionStep (.callback l delivered result) =
      some (c, .callback delivered result) := by simp [connectionStep, htodo]
  refine h.defined_serve hs rfl (ho.closedOnce _ hstep) fun y _ hexited => ?_
  rw [hio, (runs_iff.mp hruns).2.1] at hexited
  simp at hexited

/-- When the server has been destroyed, no `removeConnectionInLoop` is left: its connection
would have to be closed a second time. -/
theorem Sane.removals_eq_nil (h : s.Sane) (hcalled : s.destructor ≠ .notCalled) (c : ℕ) :
    .removeConnectionInLoop c ∉ (s.loops 0).queue.queued := by
  intro hin
  have hc : c < s.nextConnId_ := ((h.arranged.placed 0).functors _ hin).1
  have hio := (h.arranged.placed 0).removals c hin
  have htended := (h.served c hc).tended
  have hremovals : 0 < (s.view c).lifecycle.removals := by
    refine List.length_pos_of_mem (a := .removeConnectionInLoop) ?_
    simp only [view, hio, if_false, EventLoop.queued_select, List.mem_filterMap]
    exact ⟨_, hin, by simp [LoopFunctor.removalOf]⟩
  have hsound := htended.watched.good.sound
  have herased : (s.view c).lifecycle.erased ≠ [] := by
    refine mt hsound.registered_iff.mpr ?_
    simp [lifecycle, view, h.ended.emptied hcalled]
  have hcloses := hsound.closes_eq
  have hlen := hsound.erased_length
  have hle := htended.closedOnce.closes_le
  have hpos := List.length_pos_of_ne_nil herased
  omega

theorem Sane.defined_runFunctor (h : s.Sane) {l : ℕ} {result : Option ℕ}
    (ho : s.Orderly (.runFunctor l result))
    (hs : s.step (.runFunctor l result) = some t) : t.undefined = false := by
  obtain ⟨hruns, c, q, ⟨f, hnext, hs⟩ | ⟨hnext, hs⟩⟩ := runFunctor_cases hs
  · have hin : .ofConnection c f ∈ (s.loops l).queue.queued := by
      simp [EventLoop.queued_next hnext]
    have hio : (s.conns c).ioLoop = l := ((h.arranged.placed l).functors _ hin).2
    have hstep : s.connectionStep (.runFunctor l result) = some (c, .runFunctor result) := by
      simp [connectionStep, hnext]
    refine h.defined_serve hs rfl (ho.closedOnce _ hstep) fun y _ hexited => ?_
    rw [hio, (runs_iff.mp hruns).2.1] at hexited
    simp at hexited
  · have hin : .removeConnectionInLoop c ∈ (s.loops l).queue.queued := by
      simp [EventLoop.queued_next hnext]
    obtain rfl : 0 = l := ((h.arranged.placed l).functors _ hin).2
    have hstep : s.connectionStep (.runFunctor 0 result) = some (c, .baseFunctor) := by
      simp [connectionStep, hnext]
    rcases hs with ⟨hcalled, hs⟩ | ⟨hcalled, -⟩
    · exact h.defined_serve hs rfl (ho.closedOnce _ hstep)
        fun y _ hexited => absurd hcalled (h.ended.exited _ hexited).2.1
    · exact absurd hin (h.removals_eq_nil hcalled c)

theorem Sane.defined_handleEvent (h : s.Sane) {l : ℕ} (hs : s.step (.handleEvent l) = some t) :
    t.undefined = false := by
  obtain ⟨c, r, rest, hactive, -, rfl⟩ := handleEvent_cases hs
  obtain ⟨hc, hio⟩ := (h.arranged.placed l).active (c, r) (by simp [hactive])
  have hbusy : (s.view c).active ≠ none := by simp [view, hio, hactive]
  have howned := (h.served c hc).owned_busy (h.arranged.name c hc) (Or.inl hbusy)
  rw [if_pos howned]
  exact h.defined

theorem Sane.defined_step (h : s.Sane) {a : PooledAction} (ho : s.Orderly a)
    (hs : s.step a = some t) : t.undefined = false := by
  cases a with
  | newConnection sockfd callbacks => exact (newConnection_cases hs).undefined.trans h.defined
  | poll l revents =>
    obtain ⟨-, -, q, -, rfl⟩ := poll_cases hs
    exact h.defined
  | handleEvent l => exact h.defined_handleEvent hs
  | callback l delivered result => exact h.defined_callback ho hs
  | loop l a =>
    obtain ⟨-, -, q, -, rfl⟩ := loopAct_cases hs
    exact h.defined
  | runFunctor l result => exact h.defined_runFunctor ho hs
  | loopCall c call result =>
    obtain ⟨hruns, -, hs⟩ := loopCall_cases hs
    refine h.defined_serve hs rfl (ho.closedOnce _ rfl) fun y _ hexited => ?_
    rw [(runs_iff.mp hruns).2.1] at hexited
    simp at hexited
  | call c thread call =>
    obtain ⟨-, u, hserve, rfl⟩ := call_cases hs
    have hu : u.undefined = false := by
      refine h.defined_serve hserve rfl (ho.closedOnce _ rfl) fun y hy _ => ?_
      rw [(acts_call hy).2]
    exact hu
  | resume c thread =>
    obtain ⟨-, u, hserve, rfl⟩ := resume_cases hs
    have hu : u.undefined = false := by
      refine h.defined_serve hserve rfl (ho.closedOnce _ rfl) fun y _ hexited => ?_
      have hresumable := ho.resumable
      simp [resumable, hexited] at hresumable
    exact hu
  | keep c =>
    obtain ⟨-, rfl⟩ := keep_cases hs
    exact h.defined
  | release c =>
    obtain rfl := release_cases hs
    exact h.defined
  | destroy =>
    obtain ⟨-, rfl⟩ := destroy_cases hs
    exact h.defined
  | exit l =>
    obtain ⟨-, -, rfl⟩ := exit_cases hs
    exact h.defined

/-! ## The invariant -/

/-- Of an orderly step, a connection keeps what is known of it. -/
theorem Served.step {c : ℕ} {a : PooledAction} (h : s.Served c) (hc : c < s.nextConnId_)
    (ho : s.Orderly a) (hf : Follows s t a) : t.Served c := by
  refine ⟨?_, ?_, ?_⟩
  · rcases hf.views c hc with halike | ⟨b, hb | hb, hstep⟩
    · exact h.tended.alike halike
    · exact h.tended.step (ho.closedOnce _ hb) (ho.nothingLeft _ hb) hstep
    · cases b with
      | poll _ | handleEvent =>
        exact h.tended.step (by simp [OwnedOnClose, entersHandleClose])
          (by simp [NothingLeftToUpdate, updatesChannel]) hstep
      | acceptOther | eraseOther _ | baseLoop _ | baseFunctor | callback _ _ | loop _
      | runFunctor _ | loopCall _ _ | call _ _ | resume _ => simp [ServerAction.reports] at hb
  · rw [hf.ioLoop c hc, hf.numThreads]
    exact h.ioLoop_le
  · rw [hf.closeCallback c hc]
    exact h.bound

theorem Ended.steady (h : s.Ended) (hst : Steady s t) (hn : t.numThreads_ = s.numThreads_) :
    t.Ended where
  exited l hl := by
    rw [hst.exited] at hl
    obtain ⟨hqueued, hcalled, hpos⟩ := h.exited l hl
    exact ⟨hst.empty l hpos hl hqueued, hst.destructor ▸ hcalled, hpos⟩
  emptied hcalled := by
    have hnil := h.emptied (hst.destructor ▸ hcalled)
    refine List.eq_nil_iff_forall_not_mem.mpr fun c hin => ?_
    have hin' := hst.connections c hin
    simp [hnil] at hin'
  joining_pos := hst.destructor ▸ h.joining_pos
  joined l hpos hle hcalled hk := by
    rw [hst.exited]
    rw [hst.destructor] at hcalled hk
    exact h.joined l hpos (hn ▸ hle) hcalled hk

theorem polling_iff {l : EventLoop LoopFunctor} :
    l.polling = true ↔ l.phase = .polling := by
  obtain ⟨phase, pending, fd⟩ := l
  cases phase <;> simp [EventLoop.polling]

/-- The loops that have ended are those before the one that is waited for. -/
theorem Ended.exit (h : s.Ended) {l : ℕ} (hd : s.Drains (.exit l))
    (hs : s.step (.exit l) = some t) : t.Ended := by
  obtain ⟨hjoining, hpolling, rfl⟩ := exit_cases hs
  have hcalled : s.destructor ≠ .notCalled := by simp [hjoining]
  have hpos : l ≠ 0 := fun he => h.joining_pos (he ▸ hjoining)
  have hqueued : (s.loops l).queue.queued = [] := by
    simp [EventLoop.queued, EventLoop.functors, polling_iff.mp hpolling, hd l rfl]
  rw [queue_of_drained (hd l rfl)]
  have hqueues := s.queue_setLoop { s.loops l with exited := true } rfl
  have hexited (k : ℕ) : ((s.setLoop l { s.loops l with exited := true }).loops k).exited = true ↔
      k = l ∨ (s.loops k).exited = true := by
    by_cases hk : k = l
    · subst hk
      simp [setLoop]
    · simp [setLoop, hk]
  refine ⟨fun k hk => ⟨?_, ?_, ?_⟩, fun _ => h.emptied hcalled, ?_, fun k hkpos hle _ hk => ?_⟩
  · rw [hqueues]
    rcases (hexited k).mp hk with rfl | hk
    · exact hqueued
    · exact (h.exited k hk).1
  · dsimp only
    split <;> simp
  · rcases (hexited k).mp hk with rfl | hk
    · exact hpos
    · exact (h.exited k hk).2.2
  · dsimp only
    split <;> simp
  · refine (hexited k).mpr ?_
    rcases Nat.lt_trichotomy k l with hlt | heq | hgt
    · refine Or.inr (h.joined k hkpos hle hcalled fun j hj => ?_)
      rw [hjoining, Destructor.joining.injEq] at hj
      exact hj ▸ hlt
    · exact Or.inl heq
    · have hl : l < s.numThreads_ := Nat.lt_of_lt_of_le hgt hle
      have hklt := hk (l + 1) (if_pos hl)
      exact absurd hgt (Nat.not_lt.mpr (Nat.le_of_lt_succ hklt))

theorem Ended.destroy (h : s.Ended) (hs : s.step .destroy = some t) : t.Ended := by
  obtain ⟨hcalled, rfl⟩ := destroy_cases hs
  refine ⟨fun l hl => absurd hcalled (h.exited l hl).2.1, fun _ => rfl, ?_,
    fun l hpos hle _ hk => ?_⟩
  · dsimp only
    split <;> simp
  · by_cases hn : s.numThreads_ = 0
    · exact absurd (Nat.le_zero.mp (hn ▸ hle)) hpos
    · exact absurd (Nat.lt_one_iff.mp (hk 1 (if_neg hn))) hpos

theorem Ended.newConnection (h : s.Ended) {sockfd : ℕ} {callbacks : Callbacks}
    (hs : s.step (.newConnection sockfd callbacks) = some t) : t.Ended := by
  have ha := newConnection_cases hs
  have hcalled : t.destructor = .notCalled := ha.destructor.trans ha.notCalled
  refine ⟨fun l hl => ?_, fun hd => absurd hcalled hd, by simp [hcalled],
    fun _ _ _ hd => absurd hcalled hd⟩
  rw [ha.exited] at hl
  exact absurd ha.notCalled (h.exited l hl).2.1

theorem Ended.step (h : s.Ended) (harr : s.Arranged) {a : PooledAction} (hd : s.Drains a)
    (hs : s.step a = some t) (hu : t.undefined = false) : t.Ended := by
  rcases step_kinds harr hs hu with ⟨hf, hst⟩ | ⟨sockfd, callbacks, rfl⟩ | ⟨c, rfl⟩ | ⟨c, rfl⟩ |
    rfl | ⟨l, rfl⟩
  · exact h.steady hst hf.numThreads
  · exact h.newConnection hs
  · obtain ⟨-, rfl⟩ := keep_cases hs
    exact ⟨h.exited, h.emptied, h.joining_pos, h.joined⟩
  · obtain rfl := release_cases hs
    exact ⟨h.exited, h.emptied, h.joining_pos, h.joined⟩
  · exact h.destroy hs
  · exact h.exit hd hs

theorem getNextLoop_lt (h : s.numThreads_ ≠ 0 → s.next_ < s.numThreads_) :
    s.getNextLoop.1 ≤ s.numThreads_ ∧ (s.numThreads_ ≠ 0 → s.getNextLoop.2 < s.numThreads_) := by
  by_cases hn : s.numThreads_ = 0
  · simp [getNextLoop, hn]
  · have hlt := h hn
    simp only [getNextLoop, hn, if_false]
    refine ⟨hlt, fun _ => ?_⟩
    split <;> omega

theorem tended_newConnection (sharedLoop : Bool) (nextConnId : ℕ) (others : List ℕ)
    (this fd : ℕ) (callbacks : Callbacks) :
    (ServerRun.newConnection sharedLoop nextConnId others this fd callbacks).Tended where
  watched := watched_newConnection ..
  unregistered hd := by
    rw [destroyed, lifecycle_newConnection] at hd
    exact absurd rfl hd
  closedOnce := by
    rw [(good_newConnection sharedLoop nextConnId others this fd callbacks).sound.closedOnce_iff,
      lifecycle_newConnection]
    exact Nat.zero_le 1

theorem Numbered.steady (h : s.Numbered) (hst : Steady s t) (hn : t.numThreads_ = s.numThreads_) :
    t.Numbered where
  next_lt := by
    rw [hn, hst.next]
    exact h.next_lt
  connections_lt c hc := by
    rw [hst.nextConnId]
    exact h.connections_lt c (hst.connections c hc)
  kept_lt c hc := by
    rw [hst.nextConnId]
    exact h.kept_lt c (hst.kept ▸ hc)

theorem Numbered.newConnection (h : s.Numbered) {sockfd : ℕ} {callbacks : Callbacks}
    (hs : s.step (.newConnection sockfd callbacks) = some t) : t.Numbered := by
  have ha := newConnection_cases hs
  refine ⟨fun hn => ?_, fun c hc => ?_, fun c hc => ?_⟩
  · rw [ha.numThreads] at hn ⊢
    rw [ha.next]
    exact (getNextLoop_lt h.next_lt).2 hn
  · rw [ha.connections] at hc
    rw [ha.nextConnId]
    rcases List.mem_cons.mp hc with rfl | hc
    · exact Nat.lt_succ_self _
    · exact Nat.lt_succ_of_lt (h.connections_lt c hc)
  · rw [ha.kept] at hc
    rw [ha.nextConnId]
    exact Nat.lt_succ_of_lt (h.kept_lt c hc)

theorem Numbered.step (h : s.Numbered) (harr : s.Arranged) {a : PooledAction}
    (hs : s.step a = some t) (hu : t.undefined = false) : t.Numbered := by
  rcases step_kinds harr hs hu with ⟨hf, hst⟩ | ⟨sockfd, callbacks, rfl⟩ | ⟨c, rfl⟩ | ⟨c, rfl⟩ |
    rfl | ⟨l, rfl⟩
  · exact h.steady hst hf.numThreads
  · exact h.newConnection hs
  · obtain ⟨hc, rfl⟩ := keep_cases hs
    refine ⟨h.next_lt, h.connections_lt, fun d hd => ?_⟩
    rcases List.mem_cons.mp hd with rfl | hd
    · exact hc
    · exact h.kept_lt d hd
  · obtain rfl := release_cases hs
    exact ⟨h.next_lt, h.connections_lt, fun d hd => h.kept_lt d (List.mem_of_mem_erase hd)⟩
  · obtain ⟨-, rfl⟩ := destroy_cases hs
    exact ⟨h.next_lt, fun c hc => absurd hc List.not_mem_nil, h.kept_lt⟩
  · obtain ⟨-, -, rfl⟩ := exit_cases hs
    exact ⟨h.next_lt, h.connections_lt, h.kept_lt⟩

theorem sane_started (numThreads : ℕ) : (started numThreads).Sane where
  arranged := by
    refine ⟨fun l => ?_, fun c hc => absurd hc (Nat.not_lt_zero c)⟩
    have hqueued : ((started numThreads).loops l).queue.queued = [] := rfl
    refine ⟨fun f hf => ?_, fun c hc => ?_, fun p hp => absurd hp List.not_mem_nil,
      fun p hp => absurd hp List.not_mem_nil, List.nodup_nil, fun _ => ⟨rfl, rfl⟩⟩
    · rw [hqueued] at hf
      exact absurd hf List.not_mem_nil
    · rw [hqueued] at hc
      exact absurd hc List.not_mem_nil
  numbered := ⟨Nat.pos_of_ne_zero, fun c hc => absurd hc List.not_mem_nil,
    fun c hc => absurd hc List.not_mem_nil⟩
  served c hc := absurd hc (Nat.not_lt_zero c)
  ended := ⟨by simp [started, ServerLoop.idle], by simp [started], by simp [started],
    by simp [started]⟩
  defined := rfl

/-- The connections after a step: those of before, and one that has been accepted. -/
theorem nextConnId_step {a : PooledAction} (harr : s.Arranged) (hs : s.step a = some t)
    (hu : t.undefined = false) : t.nextConnId_ = s.nextConnId_ ∨
      t.nextConnId_ = s.nextConnId_ + 1 ∧
        ∃ sockfd callbacks, a = .newConnection sockfd callbacks := by
  rcases step_kinds harr hs hu with ⟨-, hst⟩ | ⟨sockfd, callbacks, rfl⟩ | ⟨c, rfl⟩ | ⟨c, rfl⟩ |
    rfl | ⟨l, rfl⟩
  · exact Or.inl hst.nextConnId
  · exact Or.inr ⟨(newConnection_cases hs).nextConnId, sockfd, callbacks, rfl⟩
  · obtain ⟨-, rfl⟩ := keep_cases hs
    exact Or.inl rfl
  · obtain rfl := release_cases hs
    exact Or.inl rfl
  · obtain ⟨-, rfl⟩ := destroy_cases hs
    exact Or.inl rfl
  · obtain ⟨-, -, rfl⟩ := exit_cases hs
    exact Or.inl rfl

theorem Sane.served_newConnection (h : s.Sane) {sockfd : ℕ} {callbacks : Callbacks}
    (hs : s.step (.newConnection sockfd callbacks) = some t) : t.Served s.nextConnId_ := by
  have ha := newConnection_cases hs
  refine ⟨(tended_newConnection ..).alike (ha.alike h.arranged.placed), ?_, ?_⟩
  · rw [ha.numThreads]
    simpa [ha.conns] using (getNextLoop_lt h.numbered.next_lt).1
  · simp [ha.conns]

theorem Sane.step (h : s.Sane) {a : PooledAction} (ho : s.Orderly a) (hd : s.Drains a)
    (hmap : s.OutlivesConnections a) (hs : s.step a = some t) : t.Sane := by
  have hu := h.defined_step ho hs
  have hf := follows_step h.arranged hd hmap hs hu
  refine ⟨hf.arranged, h.numbered.step h.arranged hs hu, fun c hc => ?_,
    h.ended.step h.arranged hd hs hu, hu⟩
  rcases nextConnId_step h.arranged hs hu with heq | ⟨heq, sockfd, callbacks, rfl⟩
  · have hc' : c < s.nextConnId_ := heq ▸ hc
    exact (h.served c hc').step hc' ho hf
  · rw [heq, Nat.lt_succ_iff_lt_or_eq] at hc
    rcases hc with hc | rfl
    · exact (h.served c hc).step hc ho hf
    · exact h.served_newConnection hs

end ReactorNet.PooledServer
