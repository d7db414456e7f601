import ReactorNet.PooledServerInvariant

/-!
# What `~TcpServer` leaves behind

The destructor drops the server's references to its connections and removes none of them. When
its loops have drained their queues nothing dangles in an orderly run exactly if no
connection was in the map and none is left with the user. A connection that was in the map
is abandoned: no `connectDestroyed` is queued for it in any run that follows.
-/
namespace ReactorNet.PooledServer

open ServerRun GuardedRuns

/-- The server is gone with its I/O loops, and the base loop has drained its queue. -/
def Drained (s : PooledServer) : Prop :=
  s.destructor = .finished ∧ (s.loops 0).queue.queued = []

/-- The user has let go of all connections, and no thread is inside a call on one. -/
def Released (s : PooledServer) : Prop :=
  s.kept = [] ∧ ∀ c < s.nextConnId_, (s.conns c).calling = []

/-- Nothing undefined has happened; the pollers that are left hold the channels of living
connections only; whoever has been established has been destroyed once; and no connection that
is left has its `closeCallback_` bound to the server. -/
structure NothingDangling (s : PooledServer) : Prop where
  defined : s.undefined = false
  pollers : ∀ l ≤ s.numThreads_, (s.loops l).exited = false → ∀ c < s.nextConnId_,
    (s.conns c).ioLoop = l → (s.conns c).conn.channel_.entry ≠ none → s.owned c = true
  destroyedOnce : ∀ c < s.nextConnId_, 0 < (s.view c).lifecycle.ups →
    (s.view c).lifecycle.asserts.length = 1
  callbacks : ∀ c < s.nextConnId_, s.owned c = true → (s.conns c).closeCallback_ = false

variable {s t : PooledServer}

/-! ## The server has outlived its connections -/

theorem Ended.queued_eq_nil (h : s.Ended) (hd : s.Drained) {l : ℕ} (hl : l ≤ s.numThreads_) :
    (s.loops l).queue.queued = [] := by
  by_cases hzero : l = 0
  · subst hzero
    exact hd.2
  · have hexited := h.joined l hzero hl (by simp [hd.1]) (by simp [hd.1])
    exact (h.exited l hexited).1

theorem Ended.owned_iff (h : s.Ended) (hd : s.Drained) {c : ℕ} :
    s.owned c = true ↔ c ∈ s.kept ∨ (s.conns c).calling ≠ [] := by
  have hmap := h.emptied (by simp [hd.1])
  have hnone : ¬ ∃ l < s.numThreads_ + 1, ∃ f ∈ (s.loops l).queue.queued, f.conn = c := by
    rintro ⟨l, hl, f, hf, -⟩
    rw [h.queued_eq_nil hd (Nat.le_of_lt_succ hl)] at hf
    exact absurd hf List.not_mem_nil
  simp only [owned, hmap, hnone, decide_eq_true_eq, List.not_mem_nil, false_or, or_false]

/-- When all is drained, every connection has been removed and destroyed. -/
theorem Sane.asserts_length (h : s.Sane) (hd : s.Drained) {c : ℕ} (hc : c < s.nextConnId_) :
    (s.view c).lifecycle.asserts.length = 1 := by
  have hserved := h.served c hc
  have hsound := hserved.tended.watched.good.sound
  have hmap := h.ended.emptied (by simp [hd.1])
  have herased : (s.view c).lifecycle.erased ≠ [] := by
    refine mt hsound.registered_iff.mpr ?_
    simp [lifecycle, view, hmap]
  have hdestroys : (s.view c).lifecycle.destroys = 0 := by
    simp [lifecycle, view, h.ended.queued_eq_nil hd hserved.ioLoop_le]
  have hlength := hsound.erased_length
  have hpos := List.length_pos_of_ne_nil herased
  have hle := hserved.tended.closedOnce.asserts_le
  omega

theorem Sane.nothingDangling (h : s.Sane) (hd : s.Drained) (hr : s.Released) :
    s.NothingDangling := by
  have hunowned {c : ℕ} (hc : c < s.nextConnId_) : s.owned c ≠ true := by
    rw [Ne, h.ended.owned_iff hd]
    simp [hr.1, hr.2 c hc]
  refine ⟨h.defined, fun l _ _ c hc _ hentry => ?_, fun c hc _ => h.asserts_length hd hc,
    fun c hc howned => absurd howned (hunowned hc)⟩
  have hlength := h.asserts_length hd hc
  have hdestroyed : (s.view c).destroyed := by
    intro hnil
    rw [hnil] at hlength
    simp at hlength
  exact absurd ((h.served c hc).tended.unregistered hdestroyed) hentry

theorem Sane.released (h : s.Sane) (hd : s.Drained) (hn : s.NothingDangling) : s.Released := by
  have hunowned {c : ℕ} (hc : c < s.nextConnId_) : ¬ (c ∈ s.kept ∨ (s.conns c).calling ≠ []) := by
    intro howned
    have hunbound := hn.callbacks c hc ((h.ended.owned_iff hd).mpr howned)
    simp [(h.served c hc).bound] at hunbound
  refine ⟨List.eq_nil_iff_forall_not_mem.mpr fun c hin => ?_, fun c hc => ?_⟩
  · exact hunowned (h.numbered.kept_lt c hin) (Or.inl hin)
  · by_contra hcalling
    exact hunowned hc (Or.inr hcalling)

/-! ## The server had connections left -/

/-- The server has gone without removing the connection. -/
structure Abandoned (s : PooledServer) (c : ℕ) : Prop where
  arranged : s.Arranged
  ended : s.Ended
  called : s.destructor ≠ .notCalled
  lt : c < s.nextConnId_
  ioLoop_le : (s.conns c).ioLoop ≤ s.numThreads_
  destroys : (s.view c).lifecycle.destroys = 0
  asserts : (s.view c).lifecycle.asserts = []
  ups_eq : (s.view c).lifecycle.ups + (s.view c).lifecycle.establishing = 1

theorem Sane.abandoned (h : s.Sane) {c : ℕ} (hc : c ∈ s.connections_)
    (hs : s.step .destroy = some t) : t.Abandoned c := by
  have hended := h.ended.destroy hs
  have hlt := h.numbered.connections_lt c hc
  have hsound := (h.served c hlt).tended.watched.good.sound
  have herased : (s.view c).lifecycle.erased = [] := by
    refine hsound.registered_iff.mp (decide_eq_true ?_)
    simpa [view, h.arranged.name c hlt] using hc
  have hlength := hsound.erased_length
  rw [herased, List.length_nil] at hlength
  obtain ⟨-, rfl⟩ := destroy_cases hs
  refine ⟨⟨h.arranged.placed.congr rfl (Nat.le_refl _) fun _ _ => rfl, h.arranged.name⟩, hended, ?_,
    hlt, (h.served c hlt).ioLoop_le, ?_, ?_, hsound.ups_eq⟩
  · dsimp only
    split <;> simp
  · exact Nat.eq_zero_of_add_eq_zero_right hlength.symm
  · exact List.eq_nil_of_length_eq_zero (Nat.eq_zero_of_add_eq_zero_left hlength.symm)

/-- The destructor does not start anew. -/
theorem called_step (h : s.Arranged) {a : PooledAction} (hs : s.step a = some t)
    (hu : t.undefined = false) (hcalled : s.destructor ≠ .notCalled) :
    t.destructor ≠ .notCalled := by
  rcases step_kinds h hs hu with ⟨-, hst⟩ | ⟨sockfd, callbacks, rfl⟩ | ⟨c, rfl⟩ | ⟨c, rfl⟩ | rfl |
    ⟨l, rfl⟩
  · exact hst.destructor ▸ hcalled
  · exact absurd (newConnection_cases hs).notCalled hcalled
  · obtain ⟨-, rfl⟩ := keep_cases hs
    exact hcalled
  · obtain rfl := release_cases hs
    exact hcalled
  · exact absurd (destroy_cases hs).1 hcalled
  · obtain ⟨-, -, rfl⟩ := exit_cases hs
    dsimp only
    split <;> simp

/-- A `removeConnectionInLoop` that runs is run by a server that is there. -/
theorem notCalled_of_baseFunctor {a : PooledAction} {c : ℕ} (hs : s.step a = some t)
    (hu : t.undefined = false) (hb : s.connectionStep a = some (c, .baseFunctor)) :
    s.destructor = .notCalled := by
  cases a with
  | runFunctor l result =>
    obtain ⟨-, d, q, ⟨f, hnext, -⟩ | ⟨-, ⟨hcalled, -⟩ | ⟨-, rfl⟩⟩⟩ := runFunctor_cases hs
    · simp [connectionStep, hnext] at hb
    · exact hcalled
    · simp [fault] at hu
  | newConnection | poll | handleEvent | callback | loop | loopCall | call | resume | keep
  | release | destroy | exit => simp [connectionStep] at hb

theorem Abandoned.step {c : ℕ} (h : s.Abandoned c) {a : PooledAction} (ho : s.Orderly a)
    (hd : s.Drains a) (hs : s.step a = some t) (hu : t.undefined = false) : t.Abandoned c := by
  have hmap := h.ended.emptied h.called
  have hf := follows_step h.arranged hd (fun _ => hmap) hs hu
  have hlife : (t.view c).lifecycle = (s.view c).lifecycle ∨ 0 < (s.view c).lifecycle.establishing ∧
      (t.view c).lifecycle = (s.view c).lifecycle.establish := by
    rcases hf.views c h.lt with halike | ⟨b, hb, hstep⟩
    · exact Or.inl halike.lifecycle_eq
    have hlt : (s.view c).conn.name_ < (s.view c).server.nextConnId_ := by
      simpa [view, h.arranged.name c h.lt] using h.lt
    refine lifecycle_step hlt hstep ?_ ?_ h.destroys
    · rcases hb with hb | hb
      · by_contra hclose
        have hin := (ho.closedOnce _ hb (Bool.not_eq_false _ ▸ hclose)).1
        simp [view, hmap] at hin
      · cases b with
        | poll | handleEvent => rfl
        | acceptOther | eraseOther | baseLoop | baseFunctor | callback | loop | runFunctor
        | loopCall | call | resume => simp [ServerAction.reports] at hb
    · rintro rfl
      rcases hb with hb | hb
      · exact h.called (notCalled_of_baseFunctor hs hu hb)
      · simp [ServerAction.reports] at hb
  refine ⟨hf.arranged, h.ended.step h.arranged hd hs hu, called_step h.arranged hs hu h.called,
    Nat.lt_of_lt_of_le h.lt hf.nextConnId, ?_, ?_, ?_, ?_⟩
  · rw [hf.ioLoop c h.lt, hf.numThreads]
    exact h.ioLoop_le
  · rcases hlife with he | ⟨-, he⟩ <;> rw [he] <;> exact h.destroys
  · rcases hlife with he | ⟨-, he⟩ <;> rw [he] <;> exact h.asserts
  · have hups := h.ups_eq
    rcases hlife with he | ⟨hpos, he⟩ <;> rw [he]
    · exact hups
    · simp only [Lifecycle.establish]
      omega

theorem undefined_serve {n : PooledServer} {c : ℕ} {b : ServerAction} (hs : s.serve n c b = some t)
    (hu : n.undefined = true) : t.undefined = true := by
  obtain ⟨y, -, rfl⟩ := serve_cases hs
  split
  · rfl
  · exact hu

/-- What is undefined stays so. -/
theorem undefined_step {a : PooledAction} (hs : s.step a = some t) (hu : s.undefined = true) :
    t.undefined = true := by
  cases a with
  | newConnection sockfd callbacks => exact (newConnection_cases hs).undefined.trans hu
  | poll l revents =>
    obtain ⟨-, -, q, -, rfl⟩ := poll_cases hs
    exact hu
  | handleEvent l =>
    obtain ⟨c, r, rest, -, -, rfl⟩ := handleEvent_cases hs
    split
    · exact hu
    · rfl
  | callback l delivered result =>
    obtain ⟨-, c, cb, rest, -, ⟨-, hs⟩ | ⟨-, rfl⟩⟩ := callback_cases hs
    · exact undefined_serve hs hu
    · rfl
  | loop l a =>
    obtain ⟨-, -, q, -, rfl⟩ := loopAct_cases hs
    exact hu
  | runFunctor l result =>
    obtain ⟨-, c, q, ⟨f, -, hs⟩ | ⟨-, ⟨-, hs⟩ | ⟨-, rfl⟩⟩⟩ := runFunctor_cases hs
    · exact undefined_serve hs hu
    · exact undefined_serve hs hu
    · rfl
  | loopCall c call result =>
    obtain ⟨-, -, hs⟩ := loopCall_cases hs
    exact undefined_serve hs hu
  | call c thread call =>
    obtain ⟨-, u, hserve, rfl⟩ := call_cases hs
    exact undefined_serve (t := u) hserve hu
  | resume c thread =>
    obtain ⟨-, u, hserve, rfl⟩ := resume_cases hs
    exact undefined_serve (t := u) hserve hu
  | keep c =>
    obtain ⟨-, rfl⟩ := keep_cases hs
    exact hu
  | release c =>
    obtain rfl := release_cases hs
    exact hu
  | destroy =>
    obtain ⟨-, rfl⟩ := destroy_cases hs
    exact hu
  | exit l =>
    obtain ⟨-, -, rfl⟩ := exit_cases hs
    exact hu

/-- An abandoned connection is never destroyed, and it has been established in the end. -/
theorem Abandoned.dangles {c : ℕ} (h : s.Abandoned c) (hd : s.Drained) : ¬ s.NothingDangling := by
  intro hn
  have hestablishing : (s.view c).lifecycle.establishing = 0 := by
    simp [lifecycle, view, h.ended.queued_eq_nil hd h.ioLoop_le]
  have hups := h.ups_eq
  have hlength := hn.destroyedOnce c h.lt (by omega)
  rw [h.asserts] at hlength
  simp at hlength

theorem abandoned_run {c : ℕ} {as : List PooledAction} (h : s.Abandoned c)
    (ho : Meets step Orderly s as) (hd : Meets step Drains s as)
    (hr : run step s as = some t) : t.undefined = true ∨ t.Abandoned c := by
  refine meets_invariant (P := fun u => u.undefined = true ∨ u.Abandoned c)
    (fun u a v hu hok hs => ?_) (Or.inr h) (ho.and hd) hr
  rcases hu with hu | hu
  · exact Or.inl (undefined_step hs hu)
  · cases hv : v.undefined with
    | true => exact Or.inl rfl
    | false => exact Or.inr (hu.step hok.1 hok.2 hs hv)

theorem outlivesConnections_of_nothingDangling {as : List PooledAction} (h : s.Sane)
    (ho : Meets step Orderly s as) (hd : Meets step Drains s as) (hr : run step s as = some t)
    (hdrained : t.Drained) (hn : t.NothingDangling) : Meets step OutlivesConnections s as := by
  induction as generalizing s with
  | nil => trivial
  | cons a as ih =>
    obtain ⟨u, hu, hrest⟩ := run_cons_eq_some.mp hr
    have hmap : s.OutlivesConnections a := by
      rintro rfl
      refine List.eq_nil_iff_forall_not_mem.mpr fun c hc => ?_
      rcases abandoned_run (h.abandoned hc hu) (ho.2 u hu) (hd.2 u hu) hrest with hundefined | habandoned
      · simp [hn.defined] at hundefined
      · exact habandoned.dangles hdrained hn
    refine ⟨hmap, fun v hv => ?_⟩
    cases hu.symm.trans hv
    exact ih (h.step ho.1 hd.1 hmap hu) (ho.2 u hu) (hd.2 u hu) hrest

theorem sane_run {as : List PooledAction} (h : s.Sane) (ho : Meets step Orderly s as)
    (hd : Meets step Drains s as) (hmap : Meets step OutlivesConnections s as)
    (hr : run step s as = some t) : t.Sane :=
  meets_invariant (fun _ _ _ hu hok hs => hu.step hok.1.1 hok.1.2 hok.2 hs) h
    ((ho.and hd).and hmap) hr

/-! ## The destructor -/

/-- In an orderly run, and once the loops have drained their queues, a server that has been
destroyed leaves nothing dangling exactly when it had no connection left, and the user has
let go of all of them. -/
theorem nothingDangling_iff (numThreads : ℕ) (as : List PooledAction) (t : PooledServer)
    (hr : run step (started numThreads) as = some t) (hdrained : t.Drained)
    (hd : Meets step Drains (started numThreads) as)
    (ho : Meets step Orderly (started numThreads) as) :
    t.NothingDangling ↔ Meets step OutlivesConnections (started numThreads) as ∧ t.Released := by
  have hstart := sane_started numThreads
  constructor
  · intro hn
    have hmap := outlivesConnections_of_nothingDangling hstart ho hd hr hdrained hn
    exact ⟨hmap, (sane_run hstart ho hd hmap hr).released hdrained hn⟩
  · rintro ⟨hmap, hreleased⟩
    exact (sane_run hstart ho hd hmap hr).nothingDangling hdrained hreleased

/-- The base loop accepts a connection and returns; the server goes before its loop. -/
def destroyWithConnection : List PooledAction :=
  [.poll 0 [], .newConnection 3 Callbacks.default, .loop 0 .doPendingFunctors,
    .loop 0 .endPendingFunctors, .destroy]

theorem nothingDangling_fails : ¬ ∀ (numThreads : ℕ) (as : List PooledAction) (t : PooledServer),
    run step (started numThreads) as = some t → t.Drained →
      Meets step Drains (started numThreads) as → t.NothingDangling := by
  intro h
  obtain ⟨t, ht, he⟩ : ∃ t, run step (started 0) destroyWithConnection = some t ∧
      ((t.destructor, (t.loops 0).queue.queued, (t.loops 0).exited),
        (t.nextConnId_, (t.conns 0).ioLoop, (t.conns 0).conn.channel_.entry, t.owned 0)) =
        ((.finished, [], false), (1, 0, some 0, false)) :=
    Option.map_eq_some_iff.mp (by decide +kernel)
  simp only [Prod.mk.injEq] at he
  obtain ⟨⟨hfinished, hqueued, hexited⟩, hid, hio, hentry, hunowned⟩ := he
  have hnothing := h 0 destroyWithConnection t ht ⟨hfinished, hqueued⟩ (by decide +kernel)
  have howned := hnothing.pollers 0 (Nat.zero_le _) hexited 0 (by simp [hid]) hio (by simp [hentry])
  simp [hunowned] at howned

/-- The peer has closed the connection of an I/O loop, and the server has removed it; it is
destroyed in its loop while `~TcpServer` waits for the thread. -/
def destroyAfterClose : List PooledAction :=
  [.poll 0 [], .newConnection 3 Callbacks.default, .poll 1 [], .loop 1 .doPendingFunctors,
    .runFunctor 1 none, .loop 1 .endPendingFunctors,
    .poll 1 [(0, ⟨true, false, false, false, false, false, false⟩)], .handleEvent 1,
    .callback 1 (some []) none, .loop 0 .doPendingFunctors, .runFunctor 0 none,
    .loop 0 .endPendingFunctors, .destroy, .loop 1 .doPendingFunctors, .runFunctor 1 none,
    .loop 1 .endPendingFunctors, .exit 1]

theorem nothingDangling_destroyAfterClose : ∃ t,
    run step (started 1) destroyAfterClose = some t ∧ t.nextConnId_ = 1 ∧
      t.NothingDangling := by
  obtain ⟨t, ht, he⟩ : ∃ t, run step (started 1) destroyAfterClose = some t ∧
      (t.destructor, (t.loops 0).queue.queued, t.nextConnId_, t.kept, (t.conns 0).calling) =
        (.finished, [], 1, [], []) :=
    Option.map_eq_some_iff.mp (by decide +kernel)
  simp only [Prod.mk.injEq] at he
  obtain ⟨hfinished, hqueued, hid, hkept, hcalling⟩ := he
  refine ⟨t, ht, hid, ?_⟩
  refine (nothingDangling_iff 1 destroyAfterClose t ht ⟨hfinished, hqueued⟩ (by decide +kernel)
    (by decide +kernel)).mpr ⟨by decide +kernel, hkept, fun c hc => ?_⟩
  obtain rfl : c = 0 := Nat.lt_one_iff.mp (hid ▸ hc)
  exact hcalling

end ReactorNet.PooledServer
