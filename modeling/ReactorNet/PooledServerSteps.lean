import ReactorNet.PooledServerViews

/-!
# Every step of the pool is a step of the single connection

Of a step of the server with its loops a connection sees a step of `ServerRun`, or nothing:
the step is its own, or the poller reports it, or it belongs to the loops, to another
connection or to the user. The exceptions are the undefined steps, a loop that ends
with functors in its queue, and the destruction of a server that has connections.
-/
namespace ReactorNet

/-- The loop turns to the connection; nothing is called yet. -/
def ServerAction.reports : ServerAction → Bool
  | .poll _ => true
  | .handleEvent => true
  | _ => false

namespace PooledServer

open ServerRun

variable {s t n : PooledServer}

/-- The loops hold what belongs into them, and the connections have their names. -/
structure Arranged (s : PooledServer) : Prop where
  placed : s.Placed
  name : ∀ c < s.nextConnId_, (s.conns c).conn.name_ = c

/-- What the connections see of a step. -/
structure Follows (s t : PooledServer) (a : PooledAction) : Prop where
  arranged : t.Arranged
  nextConnId : s.nextConnId_ ≤ t.nextConnId_
  numThreads : t.numThreads_ = s.numThreads_
  ioLoop : ∀ c < s.nextConnId_, (t.conns c).ioLoop = (s.conns c).ioLoop
  closeCallback : ∀ c < s.nextConnId_, (t.conns c).closeCallback_ = (s.conns c).closeCallback_
  views : ∀ c < s.nextConnId_, Alike (s.view c) (t.view c) ∨
    ∃ b, (s.connectionStep a = some (c, b) ∨ b.reports = true) ∧
      (s.view c).step b = some (t.view c)

/-- A step that leaves the server and the number of its loops as they are; a loop that has
ended gets no functors. -/
structure Steady (s t : PooledServer) : Prop where
  next : t.next_ = s.next_
  nextConnId : t.nextConnId_ = s.nextConnId_
  connections : ∀ c ∈ t.connections_, c ∈ s.connections_
  kept : t.kept = s.kept
  destructor : t.destructor = s.destructor
  exited : ∀ l, (t.loops l).exited = (s.loops l).exited
  empty : ∀ l, l ≠ 0 → (s.loops l).exited = true → (s.loops l).queue.queued = [] →
    (t.loops l).queue.queued = []

/-! ## A step of a connection -/

/-- The loops have been asked for the step of a connection; the others see no difference. -/
structure Pops (c : ℕ) (s n : PooledServer) : Prop where
  rest : n = { s with loops := n.loops }
  placed : n.Placed
  looks : ∀ d ≠ c, ∀ l, ServerLoop.Looks d (s.loops l) (n.loops l)
  exited : ∀ l, (n.loops l).exited = (s.loops l).exited
  queued : ∀ l, (s.loops l).queue.queued = [] → (n.loops l).queue.queued = []

theorem Pops.refl (c : ℕ) (h : s.Placed) : Pops c s s :=
  ⟨rfl, h, fun d _ _ => ServerLoop.Looks.refl d _, fun _ => rfl, fun _ => id⟩

theorem pendingFunctors_of_queued {l : EventLoop LoopFunctor} (h : l.queued = []) :
    l.pendingFunctors_ = [] := (List.append_eq_nil_iff.mp h).2

theorem conns_put (s : PooledServer) (c d : ℕ) (y : ServerRun) :
    ((s.put c y).conns d).closeCallback_ = (s.conns d).closeCallback_ ∧
      ((s.put c y).conns d).conn.name_ = if d = c then y.conn.name_ else (s.conns d).conn.name_ := by
  by_cases hd : d = c
  · subst hd
    simp [PooledServer.put]
  · simp [PooledServer.put, hd]

theorem Pops.view_name (hp : Pops c s n) (d : ℕ) : (n.view d).conn.name_ = (s.conns d).conn.name_ := by
  rw [hp.rest]
  rfl

theorem Pops.steady_put {c : ℕ} {y : ServerRun} (hp : Pops c s n) (hacts : Acts (n.view c) y)
    (he : (s.loops (s.conns c).ioLoop).exited = true →
      y.conn.loop_.pendingFunctors_ = (s.view c).conn.loop_.pendingFunctors_) :
    Steady s (n.put c y) := by
  have hconns : n.conns = s.conns := by rw [hp.rest]
  have hmap : n.connections_ = s.connections_ := by rw [hp.rest]
  refine ⟨by rw [PooledServer.put, hp.rest], by rw [PooledServer.put, hp.rest],
    fun d hd => hmap ▸ hacts.subset d hd, by rw [PooledServer.put, hp.rest],
    by rw [PooledServer.put, hp.rest],
    fun l => by rw [(n.lookup_loop_put c l y).2.2.1, hp.exited], fun l hl hexited hqueued => ?_⟩
  have hnqueued := hp.queued l hqueued
  simp only [PooledServer.put, hl, if_false]
  split
  · rename_i hio
    rw [hconns] at hio
    subst hio
    have hpending : y.conn.loop_.pendingFunctors_ = [] := by
      rw [he hexited]
      simp [view, EventLoop.select, pendingFunctors_of_queued hqueued]
    rw [ServerLoop.queued_push, hnqueued, hpending]
    simp
  · exact hnqueued

/-- The connection that is put has taken its step, and the others are alike. -/
theorem Pops.follows_put {c : ℕ} {a : PooledAction} {b : ServerAction} {y : ServerRun}
    (h : s.Arranged) (hc : c < s.nextConnId_) (hp : Pops c s n)
    (hb : s.connectionStep a = some (c, b)) (hy : (s.view c).step b = some y)
    (hacts : Acts (n.view c) y) : Follows s (n.put c y) a := by
  have hconns : n.conns = s.conns := by rw [hp.rest]
  have hid : n.nextConnId_ = s.nextConnId_ := by rw [hp.rest]
  have hname (d : ℕ) (hd : d < s.nextConnId_) : (n.view d).conn.name_ = d :=
    (hp.view_name d).trans (h.name d hd)
  have hput (d : ℕ) := conns_put n c d y
  refine ⟨⟨hp.placed.put (hid ▸ hc) y, fun d hd => ?_⟩, Nat.le_of_eq hid.symm,
    by rw [PooledServer.put, hp.rest], fun d _ => by rw [ioLoop_put, hconns],
    fun d _ => by rw [(hput d).1, hconns], fun d hd => ?_⟩
  · rw [(hput d).2]
    split
    · rename_i hdc
      subst hdc
      exact hacts.name.trans (hname d hc)
    · exact hconns ▸ h.name d (hid ▸ hd)
  · by_cases hdc : d = c
    · subst hdc
      rw [n.view_put hacts]
      exact Or.inr ⟨b, Or.inl hb, hy⟩
    · have hpopped : Alike (s.view d) (n.view d) :=
        alike_view hp.placed (hp.looks d hdc) (by rw [hconns]) (by rw [hconns]) (by rw [hconns])
          (by rw [hconns]) (by rw [hp.rest]) (by rw [hid])
      exact Or.inl (hpopped.trans (alike_put hp.placed (hid ▸ hc) hdc hacts (hname c hc)
        (hname d hd)))

theorem dangles_eq_false {c : ℕ} {b : ServerAction} {y : ServerRun}
    (h : s.dangles c b y = false) :
    ((s.view c).entersHandleClose b = true → s.destructor ≠ .finished) ∧
      ((s.loops (s.conns c).ioLoop).exited = true →
        y.conn.loop_.pendingFunctors_ = (s.view c).conn.loop_.pendingFunctors_) := by
  simp only [dangles, Bool.or_eq_false_iff, Bool.and_eq_false_imp, decide_eq_false_iff_not,
    not_not] at h
  exact h

/-- A step of a connection that does not dangle. -/
theorem Pops.serve {c : ℕ} {a : PooledAction} {b : ServerAction} (h : s.Arranged)
    (hc : c < s.nextConnId_) (hp : Pops c s n) (hb : s.connectionStep a = some (c, b))
    (hacts : ∀ y, (s.view c).step b = some y → Acts (n.view c) y)
    (hs : s.serve n c b = some t) (hu : t.undefined = false) : Follows s t a ∧ Steady s t := by
  obtain ⟨y, hy, rfl⟩ := serve_cases hs
  cases hdangles : s.dangles c b y with
  | true => simp [hdangles, fault] at hu
  | false =>
    exact ⟨hp.follows_put h hc hb hy (hacts y hy),
      hp.steady_put (hacts y hy) (dangles_eq_false hdangles).2⟩

theorem queue_setLoop (s : PooledServer) {l : ℕ} (loop : ServerLoop)
    (h : loop.queue = (s.loops l).queue) (k : ℕ) :
    ((s.setLoop l loop).loops k).queue = (s.loops k).queue := by
  by_cases hk : k = l
  · subst hk
    simpa [PooledServer.setLoop] using h
  · simp [PooledServer.setLoop, hk]

theorem exited_setLoop {l : ℕ} {loop : ServerLoop} (h : loop.exited = (s.loops l).exited) (k : ℕ) :
    ((s.setLoop l loop).loops k).exited = (s.loops k).exited := by
  by_cases hk : k = l
  · subst hk
    simpa [PooledServer.setLoop] using h
  · simp [PooledServer.setLoop, hk]

theorem pops_setLoop {c l : ℕ} {loop : ServerLoop} (hp : (s.setLoop l loop).Placed)
    (hl : ∀ d ≠ c, ServerLoop.Looks d (s.loops l) loop)
    (he : loop.exited = (s.loops l).exited)
    (hq : (s.loops l).queue.queued = [] → loop.queue.queued = []) :
    Pops c s (s.setLoop l loop) where
  rest := rfl
  placed := hp
  looks d hd := looks_setLoop (hl d hd)
  exited := exited_setLoop he
  queued k hk := by
    by_cases hkl : k = l
    · subst hkl
      simpa [PooledServer.setLoop] using hq hk
    · simpa [PooledServer.setLoop, hkl] using hk

theorem follows_callback (h : s.Arranged) {l : ℕ} {delivered : Option (List UInt8)}
    {result : Option ℕ} (hs : s.step (.callback l delivered result) = some t)
    (hu : t.undefined = false) :
    Follows s t (.callback l delivered result) ∧ Steady s t := by
  obtain ⟨-, c, cb, rest, htodo, ⟨-, hs⟩ | ⟨-, rfl⟩⟩ := callback_cases hs
  swap
  · simp [fault] at hu
  obtain ⟨hc, hio⟩ := (h.placed l).todo (c, cb) (by simp [htodo])
  have hview : (s.view c).todo = cb :: rest.filterMap fun p => if p.1 = c then some p.2 else none := by
    simp [view, hio, htodo]
  have hplaced : (s.setLoop l { s.loops l with todo := rest }).Placed := by
    refine h.placed.setLoop ⟨(h.placed l).functors, (h.placed l).removals, (h.placed l).active,
      fun p hp => ?_, (h.placed l).nodup, fun hphase => ?_⟩
    · exact (h.placed l).todo p (by simp [htodo, hp])
    · have hnil := ((h.placed l).handled hphase).2
      simp [htodo] at hnil
  have hpops : Pops c s (s.setLoop l { s.loops l with todo := rest }) :=
    pops_setLoop hplaced (fun d hd => ⟨rfl, rfl, rfl, by simp [htodo, hd.symm]⟩) rfl id
  have hnext : (s.setLoop l { s.loops l with todo := rest }).view c =
      { s.view c with todo := rest.filterMap fun p => if p.1 = c then some p.2 else none } := by
    have hqueue := s.queue_setLoop { s.loops l with todo := rest } rfl
    simp only [view, hqueue]
    simp [PooledServer.setLoop, hio]
  refine hpops.serve h hc (by simp [connectionStep, htodo]) (fun y hy => ?_) hs hu
  rw [hnext]
  exact acts_callback hview hy

/-- Another connection's functor has been taken from the queue. -/
theorem looks_next {d l : ℕ} {f : LoopFunctor} {q : EventLoop LoopFunctor}
    (hnext : (s.loops l).queue.next = some (f, q)) (hd : d ≠ f.conn) :
    ServerLoop.Looks d (s.loops l) { s.loops l with queue := q } := by
  have hq := EventLoop.queued_next hnext
  refine ⟨?_, ?_, rfl, rfl⟩
  · rw [hq]
    cases f with
    | ofConnection c f => simp [LoopFunctor.ofConn, show c ≠ d from hd.symm]
    | removeConnectionInLoop c => rw [List.filterMap_cons_none rfl]
  · rw [hq]
    cases f with
    | ofConnection c f => rw [List.filterMap_cons_none rfl]
    | removeConnectionInLoop c => simp [LoopFunctor.removalOf, show c ≠ d from hd.symm]

theorem pops_next (h : s.Placed) {l : ℕ} {f : LoopFunctor} {q : EventLoop LoopFunctor}
    (hnext : (s.loops l).queue.next = some (f, q)) : Pops f.conn s (s.setQueue l q) := by
  have hq := EventLoop.queued_next hnext
  refine pops_setLoop ?_ (fun d hd => looks_next hnext hd) rfl fun hnil => by simp [hq] at hnil
  exact h.setQueue (fun g hg => by simp [hq, hg])
    fun _ => Or.inl (EventLoop.handlingEvents_next hnext).1

theorem follows_runConnFunctor (h : s.Arranged) {c l : ℕ} {f : ConnFunctor} {result : Option ℕ}
    {q : EventLoop LoopFunctor} (hnext : (s.loops l).queue.next = some (.ofConnection c f, q))
    (hs : s.serve (s.setQueue l q) c (.runFunctor result) = some t) (hu : t.undefined = false) :
    Follows s t (.runFunctor l result) ∧ Steady s t := by
  have hin : .ofConnection c f ∈ (s.loops l).queue.queued := by
    simp [EventLoop.queued_next hnext]
  obtain ⟨hc, hio⟩ : c < s.nextConnId_ ∧ (s.conns c).ioLoop = l := (h.placed l).functors _ hin
  have hselect : (s.view c).conn.loop_.next = some (f, q.select (LoopFunctor.ofConn c)) := by
    simp only [view, hio]
    exact EventLoop.next_select hnext (by simp [LoopFunctor.ofConn])
  have hview : (s.setQueue l q).view c =
      { s.view c with conn.loop_ := q.select (LoopFunctor.ofConn c) } := by
    by_cases hl : l = 0
    · subst hl
      simp [view, setQueue, PooledServer.setLoop, hio]
    · simp [view, setQueue, PooledServer.setLoop, hio, Ne.symm hl]
  have hpops : Pops c s (s.setQueue l q) := pops_next h.placed hnext
  refine hpops.serve h hc (by simp [connectionStep, hnext]) (fun y hy => ?_) hs hu
  obtain ⟨g, l', hg, rfl⟩ := ServerRun.runFunctor_cases hy
  have heq := hselect.symm.trans hg
  rw [Option.some.injEq, Prod.mk.injEq] at heq
  obtain ⟨rfl, rfl⟩ := heq
  rw [hview]
  exact acts_runConnFunctor _ f result

theorem follows_runRemoval (h : s.Arranged) {c : ℕ} {result : Option ℕ}
    {q : EventLoop LoopFunctor}
    (hnext : (s.loops 0).queue.next = some (.removeConnectionInLoop c, q))
    (hs : s.serve (s.setQueue 0 q) c .baseFunctor = some t) (hu : t.undefined = false) :
    Follows s t (.runFunctor 0 result) ∧ Steady s t := by
  have hin : .removeConnectionInLoop c ∈ (s.loops 0).queue.queued := by
    simp [EventLoop.queued_next hnext]
  have hc : c < s.nextConnId_ := ((h.placed 0).functors _ hin).1
  have hio := (h.placed 0).removals c hin
  have hpops : Pops c s (s.setQueue 0 q) := pops_next h.placed hnext
  have hselect : (s.view c).server.loop_.next =
      some (.removeConnectionInLoop, q.select (LoopFunctor.removalOf c)) := by
    simp only [view, hio, if_false]
    exact EventLoop.next_select hnext (by simp [LoopFunctor.removalOf])
  have hview : (s.setQueue 0 q).view c =
      { s.view c with server.loop_ := q.select (LoopFunctor.removalOf c) } := by
    simp [view, setQueue, PooledServer.setLoop, hio]
  refine hpops.serve h hc (by simp [connectionStep, hnext]) (fun y hy => ?_) hs hu
  simp only [ServerRun.step, baseFunctor, Option.ite_none_left_eq_some, hselect,
    Option.some.injEq] at hy
  obtain ⟨-, rfl⟩ := hy
  rw [hview]
  exact acts_removeConnectionInLoop _

theorem follows_runFunctor (h : s.Arranged) {l : ℕ} {result : Option ℕ}
    (hs : s.step (.runFunctor l result) = some t) (hu : t.undefined = false) :
    Follows s t (.runFunctor l result) ∧ Steady s t := by
  obtain ⟨-, c, q, ⟨f, hnext, hs⟩ | ⟨hnext, ⟨-, hs⟩ | ⟨-, rfl⟩⟩⟩ := runFunctor_cases hs
  · exact follows_runConnFunctor h hnext hs hu
  · have hin : .removeConnectionInLoop c ∈ (s.loops l).queue.queued := by
      simp [EventLoop.queued_next hnext]
    obtain rfl : 0 = l := ((h.placed l).functors _ hin).2
    exact follows_runRemoval h hnext hs hu
  · simp [fault] at hu

theorem follows_loopCall (h : s.Arranged) {c : ℕ} {call : Call} {result : Option ℕ}
    (hs : s.step (.loopCall c call result) = some t) (hu : t.undefined = false) :
    Follows s t (.loopCall c call result) ∧ Steady s t := by
  obtain ⟨-, hc, hs⟩ := loopCall_cases hs
  exact (Pops.refl c h.placed).serve h hc rfl (fun y hy => acts_loopCall hy) hs hu

theorem view_setCalling (s : PooledServer) (c d thread : ℕ) :
    (s.setCalling c thread).view d = s.view d := by
  by_cases hd : d = c
  · subst hd
    simp [setCalling, view]
  · simp [setCalling, view, hd]

/-- The threads in a call are nothing that a connection sees. -/
theorem Follows.setCalling {a : PooledAction} (h : Follows s t a ∧ Steady s t) (c thread : ℕ) :
    Follows s (t.setCalling c thread) a ∧ Steady s (t.setCalling c thread) := by
  obtain ⟨⟨⟨hplaced, hname⟩, hid, hthreads, hio, hclose, hviews⟩, hsteady⟩ := h
  have hconn (d : ℕ) : ((t.setCalling c thread).conns d).conn = (t.conns d).conn ∧
      ((t.setCalling c thread).conns d).ioLoop = (t.conns d).ioLoop ∧
      ((t.setCalling c thread).conns d).closeCallback_ = (t.conns d).closeCallback_ := by
    by_cases hd : d = c
    · subst hd
      simp [PooledServer.setCalling]
    · simp [PooledServer.setCalling, hd]
  refine ⟨⟨⟨hplaced.congr rfl (Nat.le_refl _) fun d _ => (hconn d).2.1, fun d hd => ?_⟩, hid,
    hthreads, fun d hd => (hconn d).2.1.trans (hio d hd),
    fun d hd => (hconn d).2.2.trans (hclose d hd), fun d hd => ?_⟩, ?_⟩
  · rw [(hconn d).1]
    exact hname d hd
  · rw [view_setCalling]
    exact hviews d hd
  · exact ⟨hsteady.next, hsteady.nextConnId, hsteady.connections, hsteady.kept, hsteady.destructor,
      hsteady.exited, hsteady.empty⟩

theorem follows_call (h : s.Arranged) {c thread : ℕ} {call : Call}
    (hs : s.step (.call c thread call) = some t) (hu : t.undefined = false) :
    Follows s t (.call c thread call) ∧ Steady s t := by
  obtain ⟨hc, u, hserve, rfl⟩ := call_cases hs
  have hserved : Follows s u (.call c thread call) ∧ Steady s u :=
    (Pops.refl c h.placed).serve h hc rfl (fun y hy => (acts_call hy).1) hserve hu
  exact Follows.setCalling hserved c thread

theorem follows_resume (h : s.Arranged) {c thread : ℕ}
    (hs : s.step (.resume c thread) = some t) (hu : t.undefined = false) :
    Follows s t (.resume c thread) ∧ Steady s t := by
  obtain ⟨hc, u, hserve, rfl⟩ := resume_cases hs
  have hserved : Follows s u (.resume c thread) ∧ Steady s u :=
    (Pops.refl c h.placed).serve h hc rfl (fun y hy => acts_resume hy) hserve hu
  exact Follows.setCalling hserved c thread

/-! ## The steps of the loops -/

theorem follows_setLoop {a : PooledAction} {l : ℕ} {loop : ServerLoop} (h : s.Arranged)
    (hl : s.Serves l loop)
    (hviews : ∀ c < s.nextConnId_, Alike (s.view c) ((s.setLoop l loop).view c) ∨
      ∃ b, b.reports = true ∧ (s.view c).step b = some ((s.setLoop l loop).view c))
    (he : loop.exited = (s.loops l).exited)
    (hq : (s.loops l).queue.queued = [] → loop.queue.queued = []) :
    Follows s (s.setLoop l loop) a ∧ Steady s (s.setLoop l loop) := by
  refine ⟨⟨⟨h.placed.setLoop hl, h.name⟩, Nat.le_refl _, rfl, fun _ _ => rfl, fun _ _ => rfl,
    fun c hc => ?_⟩, ⟨rfl, rfl, fun _ hc => hc, rfl, rfl, exited_setLoop he, fun k _ _ hk => ?_⟩⟩
  · exact (hviews c hc).imp id fun ⟨b, hb, hstep⟩ => ⟨b, Or.inr hb, hstep⟩
  · by_cases hkl : k = l
    · subst hkl
      simpa [PooledServer.setLoop] using hq hk
    · simpa [PooledServer.setLoop, hkl] using hk

theorem looks_act {d l : ℕ} {a : LoopAction} {q : EventLoop LoopFunctor}
    (hq : (s.loops l).queue.act a = some q) :
    ServerLoop.Looks d (s.loops l) { s.loops l with queue := q } := by
  have hqueued := EventLoop.queued_act hq
  exact ⟨by rw [hqueued], by rw [hqueued], rfl, rfl⟩

theorem follows_loopAct (h : s.Arranged) {l : ℕ} {a : LoopAction}
    (hs : s.step (.loop l a) = some t) : Follows s t (.loop l a) ∧ Steady s t := by
  obtain ⟨hpoll, hpending, q, hq, rfl⟩ := loopAct_cases hs
  have hqueued := EventLoop.queued_act hq
  have hserves : s.Serves l { s.loops l with queue := q } := by
    refine ⟨fun f hf => (h.placed l).functors f (hqueued ▸ hf),
      fun c hc => (h.placed l).removals c (hqueued ▸ hc), (h.placed l).active, (h.placed l).todo,
      (h.placed l).nodup, fun hphase => ?_⟩
    by_cases hd : a = .doPendingFunctors
    · exact hpending hd
    · rw [EventLoop.handlingEvents_act hq hpoll hd] at hphase
      exact (h.placed l).handled hphase
  exact follows_setLoop h hserves
    (fun c _ => Or.inl (alike_setLoop (h.placed.setLoop hserves) (looks_act hq))) rfl
    fun hnil => hqueued.trans hnil

theorem follows_poll (h : s.Arranged) {l : ℕ} {revents : List (ℕ × Revents)}
    (hs : s.step (.poll l revents) = some t) : Follows s t (.poll l revents) ∧ Steady s t := by
  obtain ⟨hnodup, hrevents, q, hq, rfl⟩ := poll_cases hs
  have hqueued := EventLoop.queued_act hq
  have hserves : s.Serves l { s.loops l with queue := q, activeChannels_ := revents } :=
    ⟨fun f hf => (h.placed l).functors f (hqueued ▸ hf),
      fun c hc => (h.placed l).removals c (hqueued ▸ hc),
      fun p hp => ⟨(hrevents p hp).1, (hrevents p hp).2.1⟩, (h.placed l).todo, hnodup,
      fun hphase => absurd (EventLoop.handlingEvents_poll hq) (by simp [hphase])⟩
  refine follows_setLoop h hserves (fun c hc => ?_) rfl fun hnil => hqueued.trans hnil
  by_cases hio : (s.conns c).ioLoop = l
  · have hadmits : ∀ r ∈ revents.lookup c,
        ∃ e ∈ (s.view c).conn.channel_.interest, e.2.admits r = true := by
      intro r hr
      obtain ⟨ps, qs, heq, -⟩ := List.lookup_eq_some_iff.mp hr
      exact (hrevents (c, r) (by simp [heq])).2.2
    have hact : (s.view c).conn.loop_.act .poll = some (q.select (LoopFunctor.ofConn c)) := by
      simp only [view, hio]
      exact EventLoop.act_select _ hq
    have hview : (s.setLoop l { s.loops l with queue := q, activeChannels_ := revents }).view c =
        { s.view c with
          conn.loop_ := q.select (LoopFunctor.ofConn c), active := revents.lookup c } := by
      by_cases hl : l = 0
      · subst hl
        simp [view, PooledServer.setLoop, hio]
      · simp [view, PooledServer.setLoop, hio, Ne.symm hl]
    refine Or.inr ⟨.poll (revents.lookup c), rfl, ?_⟩
    rw [hview]
    simp only [ServerRun.step, ServerRun.poll, if_pos hadmits, hact, Option.map_some]
  · have hnone (ps : List (ℕ × Revents)) (hps : ∀ p ∈ ps, (s.conns p.1).ioLoop = l) :
        ps.lookup c = none := by
      refine List.lookup_eq_none_iff.mpr fun p hp => ?_
      have hne : c ≠ p.1 := fun he => hio (he ▸ hps p hp)
      simpa using hne
    have hlooks := looks_act (d := c) hq
    refine Or.inl (alike_setLoop (h.placed.setLoop hserves)
      ⟨hlooks.functors, hlooks.removals, ?_, rfl⟩)
    rw [hnone revents fun p hp => (hrevents p hp).2.1,
      hnone _ fun p hp => ((h.placed l).active p hp).2]

theorem filterMap_callbacks (c d : ℕ) (cbs : List ChannelCallback) :
    ((cbs.map (c, ·)).filterMap fun p => if p.1 = d then some p.2 else none) =
      if c = d then cbs else [] := by
  rw [List.filterMap_map]
  split
  · exact (List.filterMap_congr fun cb _ => if_pos ‹_›).trans List.filterMap_some
  · exact List.filterMap_eq_nil_iff.mpr fun cb _ => if_neg ‹_›

theorem follows_handleEvent (h : s.Arranged) {l : ℕ} (hs : s.step (.handleEvent l) = some t)
    (hu : t.undefined = false) : Follows s t (.handleEvent l) ∧ Steady s t := by
  obtain ⟨c, r, rest, hactive, htodo, rfl⟩ := handleEvent_cases hs
  obtain ⟨hc, hio⟩ := (h.placed l).active (c, r) (by simp [hactive])
  split at hu
  swap
  · simp [fault] at hu
  rw [if_pos ‹_›]
  have hnodup := (h.placed l).nodup
  rw [hactive, List.map_cons, List.nodup_cons] at hnodup
  have hserves : s.Serves l { s.loops l with
      activeChannels_ := rest, todo := r.callbacks.map (c, ·) } := by
    refine ⟨(h.placed l).functors, (h.placed l).removals, fun p hp => ?_, fun p hp => ?_, hnodup.2,
      fun hphase => ?_⟩
    · exact (h.placed l).active p (by simp [hactive, hp])
    · obtain ⟨cb, -, rfl⟩ := List.mem_map.mp hp
      exact ⟨hc, hio⟩
    · have hnil := ((h.placed l).handled hphase).1
      simp [hactive] at hnil
  refine follows_setLoop h hserves (fun d hd => ?_) rfl id
  by_cases hdc : c = d
  · subst hdc
    have hnone : rest.lookup c = none := by
      refine List.lookup_eq_none_iff.mpr fun p hp => ?_
      have hne : c ≠ p.1 := fun he => hnodup.1 (List.mem_map.mpr ⟨p, hp, he.symm⟩)
      simpa using hne
    have hqueue := s.queue_setLoop { s.loops l with
      activeChannels_ := rest, todo := r.callbacks.map (c, ·) } rfl
    have hview : (s.setLoop l { s.loops l with
        activeChannels_ := rest, todo := r.callbacks.map (c, ·) }).view c =
          { s.view c with active := none, todo := r.callbacks } := by
      have hcallbacks := filterMap_callbacks c c r.callbacks
      rw [if_pos rfl] at hcallbacks
      simp only [view, hqueue]
      simp [PooledServer.setLoop, hio, hnone, hcallbacks]
    have hseen : (s.view c).active = some r ∧ (s.view c).todo = [] := by
      simp [view, hio, hactive, htodo]
    refine Or.inr ⟨.handleEvent, rfl, ?_⟩
    rw [hview]
    simp only [ServerRun.step, ServerRun.handleEvent, hseen.1, hseen.2]
  · have hne : (d == c) = false := by simpa using Ne.symm hdc
    refine Or.inl (alike_setLoop (h.placed.setLoop hserves) ⟨rfl, rfl, ?_, ?_⟩)
    · rw [hactive, List.lookup_cons, hne]
    · rw [htodo, filterMap_callbacks, if_neg hdc]
      rfl

theorem queue_of_drained {l : ℕ} (h : (s.loops l).queue.pendingFunctors_ = []) :
    { (s.loops l).queue with pendingFunctors_ := [] } = (s.loops l).queue := by
  rw [← h]

/-- The end of a loop that has drained its queue is seen by nobody. -/
theorem follows_exit (h : s.Arranged) {l : ℕ} (hd : (s.loops l).queue.pendingFunctors_ = [])
    (hs : s.step (.exit l) = some t) : Follows s t (.exit l) := by
  obtain ⟨-, -, rfl⟩ := exit_cases hs
  rw [queue_of_drained hd]
  have hserves : s.Serves l { s.loops l with exited := true } :=
    ⟨(h.placed l).functors, (h.placed l).removals, (h.placed l).active, (h.placed l).todo,
      (h.placed l).nodup, (h.placed l).handled⟩
  have hplaced := h.placed.setLoop hserves
  exact ⟨⟨hplaced.congr rfl (Nat.le_refl _) fun _ _ => rfl, h.name⟩, Nat.le_refl _, rfl,
    fun _ _ => rfl, fun _ _ => rfl, fun c _ => Or.inl (alike_setLoop hplaced ⟨rfl, rfl, rfl, rfl⟩)⟩

/-! ## The server and the user -/

theorem Alike.refl {c : ℕ} (h : s.Arranged) : Alike (s.view c) (s.view c) :=
  alike_view h.placed (fun _ => ServerLoop.Looks.refl c _) rfl rfl rfl rfl Iff.rfl (Nat.le_refl _)

theorem follows_destroy (h : s.Arranged) (hmap : s.connections_ = [])
    (hs : s.step .destroy = some t) : Follows s t .destroy := by
  obtain ⟨-, rfl⟩ := destroy_cases hs
  rw [← hmap]
  exact ⟨⟨h.placed.congr rfl (Nat.le_refl _) fun _ _ => rfl, h.name⟩, Nat.le_refl _, rfl,
    fun _ _ => rfl, fun _ _ => rfl, fun c _ => Or.inl (Alike.refl h)⟩

theorem follows_keep (h : s.Arranged) {c : ℕ} (hs : s.step (.keep c) = some t) :
    Follows s t (.keep c) := by
  obtain ⟨-, rfl⟩ := keep_cases hs
  exact ⟨⟨h.placed.congr rfl (Nat.le_refl _) fun _ _ => rfl, h.name⟩, Nat.le_refl _, rfl,
    fun _ _ => rfl, fun _ _ => rfl, fun c _ => Or.inl (Alike.refl h)⟩

theorem follows_release (h : s.Arranged) {c : ℕ} (hs : s.step (.release c) = some t) :
    Follows s t (.release c) := by
  obtain rfl := release_cases hs
  exact ⟨⟨h.placed.congr rfl (Nat.le_refl _) fun _ _ => rfl, h.name⟩, Nat.le_refl _, rfl,
    fun _ _ => rfl, fun _ _ => rfl, fun c _ => Or.inl (Alike.refl h)⟩

/-- What `newConnection` leaves in the loop of the new connection. -/
def firstFunctor (c ioLoop : ℕ) : List LoopFunctor :=
  if ioLoop = 0 then [] else [.ofConnection c .connectEstablished]

/-- A connection has been accepted; `created` is the server as the connection alone would
see it. -/
structure Accepts (s t : PooledServer) (created : ServerRun) : Prop where
  notCalled : s.destructor = .notCalled
  destructor : t.destructor = s.destructor
  numThreads : t.numThreads_ = s.numThreads_
  next : t.next_ = s.getNextLoop.2
  nextConnId : t.nextConnId_ = s.nextConnId_ + 1
  connections : t.connections_ = s.nextConnId_ :: s.connections_
  conns : t.conns = Function.update s.conns s.nextConnId_ ⟨s.getNextLoop.1,
    { created.conn with loop_ := EventLoop.idle }, true, created.callers, [], created.accepted,
    created.trace⟩
  kept : t.kept = s.kept
  undefined : t.undefined = s.undefined
  events : ∀ l, (t.loops l).activeChannels_ = (s.loops l).activeChannels_ ∧
    (t.loops l).todo = (s.loops l).todo
  exited : ∀ l, (t.loops l).exited = (s.loops l).exited
  phase : ∀ l, (t.loops l).queue.phase = (s.loops l).queue.phase
  queued : ∀ l, (t.loops l).queue.queued = (s.loops l).queue.queued ++
    if l = s.getNextLoop.1 then firstFunctor s.nextConnId_ l else []

theorem newConnection_cases {sockfd : ℕ} {callbacks : Callbacks}
    (hs : s.newConnection sockfd callbacks = some t) :
    Accepts s t (ServerRun.newConnection (decide (s.getNextLoop.1 = 0)) s.nextConnId_
      s.connections_ s.nextConnId_ sockfd callbacks) := by
  simp only [newConnection, Option.ite_none_right_eq_some, Option.some.injEq] at hs
  obtain ⟨⟨hcalled, -⟩, hs⟩ := hs
  have hserver (b : Bool) : (ServerRun.newConnection b s.nextConnId_ s.connections_ s.nextConnId_
      sockfd callbacks).server.nextConnId_ = s.nextConnId_ + 1 ∧
      (ServerRun.newConnection b s.nextConnId_ s.connections_ s.nextConnId_ sockfd
        callbacks).server.connections_ = s.nextConnId_ :: s.connections_ := by
    cases b <;> exact ⟨rfl, rfl⟩
  by_cases hio : s.getNextLoop.1 = 0
  · rw [if_pos hio] at hs
    subst hs
    refine ⟨hcalled, rfl, rfl, rfl, (hserver _).1, (hserver _).2, rfl, rfl, rfl,
      fun _ => ⟨rfl, rfl⟩, fun _ => rfl, fun _ => rfl, fun l => ?_⟩
    by_cases hl : l = 0 <;> simp [firstFunctor, hio, hl]
  · rw [if_neg hio] at hs
    subst hs
    refine ⟨hcalled, rfl, rfl, rfl, (hserver _).1, (hserver _).2, rfl, rfl, rfl, fun l => ?_,
      fun l => ?_, fun l => ?_, fun l => ?_⟩
    all_goals
      by_cases hl : l = s.getNextLoop.1
      · subst hl
        simp [setQueue, PooledServer.setLoop, firstFunctor, hio]
      · simp [setQueue, PooledServer.setLoop, hl]

variable {created : ServerRun}

theorem Accepts.conns_of_lt (h : Accepts s t created) {c : ℕ} (hc : c < s.nextConnId_) :
    t.conns c = s.conns c := by
  rw [h.conns, Function.update_of_ne (Nat.ne_of_lt hc)]

theorem Accepts.placed (h : Accepts s t created) (hp : s.Placed) : t.Placed := by
  intro l
  have hconns {c : ℕ} (hc : c < s.nextConnId_) := h.conns_of_lt hc
  have hio : (t.conns s.nextConnId_).ioLoop = s.getNextLoop.1 := by simp [h.conns]
  have hserves : t.Serves l (s.loops l) :=
    (hp l).mono (h.nextConnId ▸ Nat.le_succ _) fun c hc => by rw [hconns hc]
  have hqueued : ∀ f ∈ (t.loops l).queue.queued, f ∈ (s.loops l).queue.queued ∨
      l = s.getNextLoop.1 ∧ f = .ofConnection s.nextConnId_ .connectEstablished := by
    intro f hf
    rw [h.queued, List.mem_append] at hf
    refine hf.imp id fun hf => ?_
    by_cases hl : l = s.getNextLoop.1
    · by_cases hzero : l = 0 <;> simp [firstFunctor, ← hl, hzero] at hf ⊢
      exact hf
    · simp [hl] at hf
  refine ⟨fun f hf => ?_, fun c hc => ?_, ?_, ?_, ?_, fun hphase => ?_⟩
  · rcases hqueued f hf with hin | ⟨rfl, rfl⟩
    · exact hserves.functors f hin
    · exact ⟨h.nextConnId ▸ Nat.lt_succ_self _, hio⟩
  · rcases hqueued _ hc with hin | ⟨-, he⟩
    · exact hserves.removals c hin
    · simp at he
  · rw [(h.events l).1]
    exact hserves.active
  · rw [(h.events l).2]
    exact hserves.todo
  · rw [(h.events l).1]
    exact hserves.nodup
  · rw [EventLoop.handlingEvents_congr (h.phase l)] at hphase
    rw [(h.events l).1, (h.events l).2]
    exact hserves.handled hphase

theorem Accepts.looks (h : Accepts s t created) {d : ℕ} (hd : d < s.nextConnId_) (l : ℕ) :
    ServerLoop.Looks d (s.loops l) (t.loops l) := by
  have hne : s.nextConnId_ ≠ d := Nat.ne_of_gt hd
  refine ⟨?_, ?_, by rw [(h.events l).1], by rw [(h.events l).2]⟩
  · rw [h.queued, List.filterMap_append]
    simp only [firstFunctor]
    split
    · split <;> simp [LoopFunctor.ofConn, hne]
    · simp
  · rw [h.queued, List.filterMap_append]
    simp only [firstFunctor]
    split
    · split <;> simp [LoopFunctor.removalOf]
    · simp

/-- Nothing in the loops is about a connection that has not been accepted yet. -/
theorem Placed.filterMap_fresh {F : Type*} (h : s.Placed) {p : LoopFunctor → Option F}
    (hp : ∀ f, f.conn ≠ s.nextConnId_ → p f = none) (l : ℕ) :
    (s.loops l).queue.queued.filterMap p = [] := by
  refine List.filterMap_eq_nil_iff.mpr fun f hf => hp f ?_
  exact Nat.ne_of_lt ((h l).functors f hf).1

theorem Placed.events_fresh (h : s.Placed) (l : ℕ) :
    (s.loops l).activeChannels_.lookup s.nextConnId_ = none ∧ ((s.loops l).todo.filterMap fun p =>
      if p.1 = s.nextConnId_ then some p.2 else none) = [] := by
  constructor
  · refine List.lookup_eq_none_iff.mpr fun p hp => ?_
    have hne := Nat.ne_of_gt ((h l).active p hp).1
    simpa using hne
  · refine List.filterMap_eq_nil_iff.mpr fun p hp => if_neg ?_
    exact Nat.ne_of_lt ((h l).todo p hp).1

/-- The new connection sees the server as if it were alone. -/
theorem Accepts.alike {sockfd : ℕ} {callbacks : Callbacks} (hp : s.Placed)
    (h : Accepts s t (ServerRun.newConnection (decide (s.getNextLoop.1 = 0)) s.nextConnId_
      s.connections_ s.nextConnId_ sockfd callbacks)) :
    Alike (ServerRun.newConnection (decide (s.getNextLoop.1 = 0)) s.nextConnId_ s.connections_
      s.nextConnId_ sockfd callbacks) (t.view s.nextConnId_) := by
  have hio : (t.conns s.nextConnId_).ioLoop = s.getNextLoop.1 := by simp [h.conns]
  have hfunctors (l : ℕ) :
      (s.loops l).queue.queued.filterMap (LoopFunctor.ofConn s.nextConnId_) = [] :=
    hp.filterMap_fresh (fun f hf => by
      cases f with
      | ofConnection c f => simp [LoopFunctor.ofConn, show c ≠ s.nextConnId_ from hf]
      | removeConnectionInLoop c => rfl) l
  have hremovals (l : ℕ) :
      (s.loops l).queue.queued.filterMap (LoopFunctor.removalOf s.nextConnId_) = [] :=
    hp.filterMap_fresh (fun f hf => by
      cases f with
      | ofConnection c f => rfl
      | removeConnectionInLoop c =>
        simp [LoopFunctor.removalOf, show c ≠ s.nextConnId_ from hf]) l
  have hactive : (t.view s.nextConnId_).active = none ∧ (t.view s.nextConnId_).todo = [] := by
    simp only [view, hio, (h.events _).1, (h.events _).2]
    exact hp.events_fresh _
  have hqueued : (t.view s.nextConnId_).conn.loop_.queued =
      if s.getNextLoop.1 = 0 then [] else [.connectEstablished] := by
    simp only [view, hio, EventLoop.queued_select, h.queued, List.filterMap_append, hfunctors,
      if_true, firstFunctor]
    split <;> simp [LoopFunctor.ofConn]
  have hbase : (t.view s.nextConnId_).server.loop_.queued = [] := by
    simp only [view, hio]
    split
    · rfl
    · rename_i hpos
      simp [EventLoop.queued_select, h.queued, hremovals, Ne.symm hpos]
  by_cases hzero : s.getNextLoop.1 = 0
  · simp only [hzero, decide_true, if_true] at h hqueued ⊢
    exact ⟨by simp [view, h.conns], hqueued, hbase, by simp [view, h.connections,
      ServerRun.newConnection, connectEstablished, record], by simp [view, h.nextConnId,
      ServerRun.newConnection, connectEstablished, record], hactive.1, hactive.2,
      by simp [view, h.conns], by simp [view, h.conns], fun _ => hactive⟩
  · simp only [hzero, decide_false, if_false] at h hqueued ⊢
    exact ⟨by simp [view, h.conns], hqueued, hbase, by simp [view, h.connections,
      ServerRun.newConnection], by simp [view, h.nextConnId, ServerRun.newConnection], hactive.1,
      hactive.2, by simp [view, h.conns], by simp [view, h.conns], fun _ => hactive⟩

theorem name_newConnection (sharedLoop : Bool) (nextConnId : ℕ) (others : List ℕ)
    (this fd : ℕ) (callbacks : Callbacks) :
    (ServerRun.newConnection sharedLoop nextConnId others this fd callbacks).conn.name_ =
      nextConnId := by
  cases sharedLoop <;> rfl

theorem follows_newConnection (h : s.Arranged) {sockfd : ℕ} {callbacks : Callbacks}
    (hs : s.step (.newConnection sockfd callbacks) = some t) :
    Follows s t (.newConnection sockfd callbacks) := by
  have ha := newConnection_cases hs
  have hplaced := ha.placed h.placed
  have hid : s.nextConnId_ ≤ t.nextConnId_ := ha.nextConnId ▸ Nat.le_succ _
  refine ⟨⟨hplaced, fun c hc => ?_⟩, hid, ha.numThreads,
    fun c hc => by rw [ha.conns_of_lt hc], fun c hc => by rw [ha.conns_of_lt hc], fun c hc => ?_⟩
  · rw [ha.nextConnId, Nat.lt_succ_iff_lt_or_eq] at hc
    rcases hc with hc | rfl
    · rw [ha.conns_of_lt hc]
      exact h.name c hc
    · simp [ha.conns, name_newConnection]
  · have hconns := ha.conns_of_lt hc
    refine Or.inl (alike_view hplaced (ha.looks hc) (by rw [hconns]) (by rw [hconns])
      (by rw [hconns]) (by rw [hconns]) ?_ hid)
    rw [ha.connections, h.name c hc, List.mem_cons]
    simp [Nat.ne_of_lt hc]

/-! ## Every step -/

/-- A loop that ends has drained its queue. -/
def Drains (s : PooledServer) (a : PooledAction) : Prop :=
  ∀ l, a = .exit l → (s.loops l).queue.pendingFunctors_ = []

/-- When the server is destroyed, it has removed all of its connections. -/
def OutlivesConnections (s : PooledServer) (a : PooledAction) : Prop :=
  a = .destroy → s.connections_ = []

instance (s : PooledServer) (a : PooledAction) : Decidable (s.Drains a) :=
  match a with
  | .exit l => decidable_of_iff ((s.loops l).queue.pendingFunctors_ = []) (by simp [Drains])
  | .newConnection .. | .poll .. | .handleEvent _ | .callback .. | .loop .. | .runFunctor ..
  | .loopCall .. | .call .. | .resume .. | .keep _ | .release _ | .destroy =>
    isTrue (by simp [Drains])

instance (s : PooledServer) (a : PooledAction) : Decidable (s.OutlivesConnections a) :=
  match a with
  | .destroy => decidable_of_iff (s.connections_ = []) (by simp [OutlivesConnections])
  | .newConnection .. | .poll .. | .handleEvent _ | .callback .. | .loop .. | .runFunctor ..
  | .loopCall .. | .call .. | .resume .. | .keep _ | .release _ | .exit _ =>
    isTrue (by simp [OutlivesConnections])

/-- Most steps leave the server as it is. -/
theorem step_kinds (h : s.Arranged) {a : PooledAction} (hs : s.step a = some t)
    (hu : t.undefined = false) : (Follows s t a ∧ Steady s t) ∨
      (∃ sockfd callbacks, a = .newConnection sockfd callbacks) ∨ (∃ c, a = .keep c) ∨
      (∃ c, a = .release c) ∨ a = .destroy ∨ ∃ l, a = .exit l := by
  cases a with
  | newConnection sockfd callbacks => exact Or.inr (Or.inl ⟨sockfd, callbacks, rfl⟩)
  | poll l revents => exact Or.inl (follows_poll h hs)
  | handleEvent l => exact Or.inl (follows_handleEvent h hs hu)
  | callback l delivered result => exact Or.inl (follows_callback h hs hu)
  | loop l a => exact Or.inl (follows_loopAct h hs)
  | runFunctor l result => exact Or.inl (follows_runFunctor h hs hu)
  | loopCall c call result => exact Or.inl (follows_loopCall h hs hu)
  | call c thread call => exact Or.inl (follows_call h hs hu)
  | resume c thread => exact Or.inl (follows_resume h hs hu)
  | keep c => exact Or.inr (Or.inr (Or.inl ⟨c, rfl⟩))
  | release c => exact Or.inr (Or.inr (Or.inr (Or.inl ⟨c, rfl⟩)))
  | destroy => exact Or.inr (Or.inr (Or.inr (Or.inr (Or.inl rfl))))
  | exit l => exact Or.inr (Or.inr (Or.inr (Or.inr (Or.inr ⟨l, rfl⟩))))

theorem follows_step (h : s.Arranged) {a : PooledAction} (hd : s.Drains a)
    (hmap : s.OutlivesConnections a) (hs : s.step a = some t) (hu : t.undefined = false) :
    Follows s t a := by
  rcases step_kinds h hs hu with hf | ⟨sockfd, callbacks, rfl⟩ | ⟨c, rfl⟩ | ⟨c, rfl⟩ | rfl | ⟨l, rfl⟩
  · exact hf.1
  · exact follows_newConnection h hs
  · exact follows_keep h hs
  · exact follows_release h hs
  · exact follows_destroy h (hmap rfl) hs
  · exact follows_exit h (hd l rfl) hs

end PooledServer

end ReactorNet
