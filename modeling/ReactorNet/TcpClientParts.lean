import Mathlib.Data.Int.Notation
import ReactorNet.ClientStages
import ReactorNet.ConnectionCloseOnce
import ReactorNet.TcpClient

/-!
# The parts of a client

What the steps of the connections and of the connector leave alone in the client. The queue of
the loop keeps the deferred reset of the connector's channel in front of everything that the next
connection queues.
-/
namespace ReactorNet

namespace EventLoop

variable {F : Type*}

theorem pendingFunctors_queueInLoop (l : EventLoop F) (b : Bool) (f : F) :
    (l.queueInLoop b f).pendingFunctors_ = l.pendingFunctors_ ++ [f] := by
  simp only [queueInLoop]
  split <;> rfl

@[simp] theorem pendingFunctors_queueAll (l : EventLoop F) (fs : List F) :
    (l.queueAll fs).pendingFunctors_ = l.pendingFunctors_ ++ fs := by
  induction fs generalizing l with
  | nil => exact (List.append_nil _).symm
  | cons f fs ih =>
    rw [queueAll_cons, ih, pendingFunctors_queueInLoop, List.append_assoc, List.singleton_append]

theorem queued_eq {l l' : EventLoop F} {fs : List F} (hphase : l'.phase = l.phase)
    (hpending : l'.pendingFunctors_ = l.pendingFunctors_ ++ fs) : l'.queued = l.queued ++ fs := by
  rw [queued, queued, functors, functors, hphase, hpending, List.append_assoc]

theorem mem_queued {l : EventLoop F} {f : F} (h : f ∈ l.pendingFunctors_) : f ∈ l.queued :=
  List.mem_append_right _ h

end EventLoop

theorem ClientFunctor.Known.mono {f : ClientFunctor} {m n : ℕ} (h : f.Known m) (hmn : m ≤ n) :
    f.Known n := by
  cases f with
  | ofConnector g => trivial
  | ofConnection d g => exact Nat.lt_of_lt_of_le h hmn
  | setCloseCallback d => exact h

namespace TcpClient

open Connector

variable {x y : TcpClient} {c : ℕ} {v : Connector} {new : List ConnectorFunctor}

/-! ## The connector -/

theorem filterMap_toConnector_append (q : List ClientFunctor) (new : List ConnectorFunctor) :
    (q ++ new.map ClientFunctor.ofConnector).filterMap ClientFunctor.toConnector =
      q.filterMap ClientFunctor.toConnector ++ new := by
  rw [List.filterMap_append, List.filterMap_map]
  exact congrArg _ (List.filterMap_some (l := new))

theorem putConnector_eq (hv : v.pendingFunctors_ = x.connector.pendingFunctors_ ++ new) :
    x.putConnector v = { x with
      connector_ := { v with pendingFunctors_ := [] }
      loop_ := x.loop_.queueAll (new.map .ofConnector) } := by
  rw [putConnector, hv, List.drop_left]

/-- The client sees what has become of its connector. -/
theorem connector_putConnector (hv : v.pendingFunctors_ = x.connector.pendingFunctors_ ++ new) :
    (x.putConnector v).connector = v := by
  rw [putConnector_eq hv, connector, EventLoop.queued_queueAll, filterMap_toConnector_append]
  change { v with pendingFunctors_ := x.connector.pendingFunctors_ ++ new } = v
  rw [← hv]

theorem onConnector_eq {fds : List ℕ}
    (hv : v.handedOver = x.connector_.handedOver ++ fds) :
    x.onConnector v = fds.foldl newConnection (x.putConnector v) := by
  rw [onConnector, hv, List.drop_left]

theorem onConnector_eq_putConnector (hv : v.handedOver = x.connector_.handedOver) :
    x.onConnector v = x.putConnector v := by
  rw [onConnector, hv, List.drop_length]
  rfl

/-! ## Connections -/

/-- What connection `c` may do to the client: change itself, and queue functors of its own. -/
structure Works (c : ℕ) (x y : TcpClient) : Prop where
  rest : y = { x with loop_ := y.loop_, conns := y.conns }
  phase : y.loop_.phase = x.loop_.phase
  functors : ∃ fs : List ConnFunctor, .connectDestroyed ∉ fs ∧ (fs ≠ [] → c < x.conns.length) ∧
    y.loop_.pendingFunctors_ = x.loop_.pendingFunctors_ ++ fs.map (.ofConnection c)
  length : y.conns.length = x.conns.length
  conns : ∃ g : ℕ → TcpConnection → TcpConnection, ∀ i,
    y.conns[i]? = x.conns[i]?.map fun (k : ClientConnection) => { k with conn := g i k.conn }

theorem Works.refl (c : ℕ) (x : TcpClient) : Works c x x where
  rest := rfl
  phase := rfl
  functors := ⟨[], List.not_mem_nil, fun h => absurd rfl h, (List.append_nil _).symm⟩
  length := rfl
  conns := ⟨fun _ conn => conn, fun _ => Option.map_id'.symm⟩

theorem works_onConn {f : TcpConnection → TcpConnection}
    (hf : ∀ conn, (f conn).loop_.queued.count .connectDestroyed =
      conn.loop_.queued.count .connectDestroyed) : Works c x (x.onConn c f) := by
  rw [onConn]
  cases hk : x.conns[c]? with
  | none => exact Works.refl c x
  | some k =>
    have hquiet := hf { k.conn with loop_ := x.loop_.emptied }
    have hempty : (x.loop_.emptied : EventLoop ConnFunctor).queued = [] := by
      rw [EventLoop.queued, EventLoop.functors, EventLoop.emptied]
      cases x.loop_.phase with
      | polling => rfl
      | handlingEvents => rfl
      | callingPendingFunctors fs => rfl
    rw [hempty, List.count_nil] at hquiet
    refine ⟨rfl, EventLoop.phase_queueAll .., ⟨_, ?_, ?_, EventLoop.pendingFunctors_queueAll ..⟩,
      List.length_modify .., ?_⟩
    · exact fun hin => List.count_eq_zero.mp hquiet (EventLoop.mem_queued hin)
    · exact fun _ => (List.getElem?_eq_some_iff.mp hk).1
    · refine ⟨fun i conn => if c = i then
        { f { k.conn with loop_ := x.loop_.emptied } with loop_ := EventLoop.idle } else conn, ?_⟩
      intro i
      refine (List.getElem?_modify ..).trans (congrArg (Option.map · x.conns[i]?) ?_)
      funext k'
      by_cases hi : c = i
      · simp only [if_pos hi]
      · simp only [if_neg hi]

/-- What a connection does and what is counted of it do not disturb each other. -/
theorem Works.destroys (h : Works c x y) : Works c
    (x.modifyConn c fun k => { k with destroys := k.destroys + 1 })
    (y.modifyConn c fun k => { k with destroys := k.destroys + 1 }) := by
  obtain ⟨g, hconns⟩ := h.conns
  obtain ⟨fs, hfs, hlt, hpending⟩ := h.functors
  refine ⟨?_, h.phase, ⟨fs, hfs, ?_, hpending⟩, ?_, g, fun i => ?_⟩
  · rw [modifyConn, modifyConn]
    have hrest := h.rest
    generalize y.conns = conns at hrest
    rw [hrest]
  · rw [modifyConn, List.length_modify]
    exact hlt
  · rw [modifyConn, modifyConn, List.length_modify, List.length_modify]
    exact h.length
  · rw [modifyConn, modifyConn, List.getElem?_modify, List.getElem?_modify, hconns i]
    by_cases hi : c = i
    · simp only [if_pos hi, Option.map_eq_map, Option.map_map]
      rfl
    · simp only [if_neg hi, Option.map_eq_map, Option.map_map]
      rfl

theorem works_queueInLoop {f : ConnFunctor} (hc : c < x.conns.length) (hf : f ≠ .connectDestroyed)
    (inLoop : Bool) : Works c x (x.queueInLoop inLoop (.ofConnection c f)) where
  rest := rfl
  phase := EventLoop.phase_queueInLoop ..
  functors := ⟨[f], by simpa using hf.symm, fun _ => hc, EventLoop.pendingFunctors_queueInLoop ..⟩
  length := rfl
  conns := ⟨fun _ conn => conn, fun _ => Option.map_id'.symm⟩

theorem Works.queued (h : Works c x y) : ∃ fs : List ConnFunctor, .connectDestroyed ∉ fs ∧
    (fs ≠ [] → c < x.conns.length) ∧
    y.loop_.queued = x.loop_.queued ++ fs.map (.ofConnection c) := by
  obtain ⟨fs, hfs, hlt, hpending⟩ := h.functors
  exact ⟨fs, hfs, hlt, EventLoop.queued_eq h.phase hpending⟩

theorem Works.connector (h : Works c x y) : y.connector = x.connector := by
  obtain ⟨fs, -, -, hqueued⟩ := h.queued
  have hnone :
      (fs.map (ClientFunctor.ofConnection c)).filterMap ClientFunctor.toConnector = [] := by
    rw [List.filterMap_map]
    exact List.filterMap_eq_nil_iff.mpr fun _ _ => rfl
  rw [TcpClient.connector, TcpClient.connector, hqueued, List.filterMap_append, hnone,
    List.append_nil, h.rest]

/-- The sockets of the connections. -/
def sockets (x : TcpClient) : List ℕ := x.conns.map ClientConnection.sockfd

theorem sockets_eq {g : ℕ → ClientConnection → ClientConnection}
    (hg : ∀ i k, (g i k).sockfd = k.sockfd) (hconns : ∀ i, y.conns[i]? = x.conns[i]?.map (g i)) :
    y.sockets = x.sockets := by
  refine List.ext_getElem? fun i => ?_
  rw [sockets, sockets, List.getElem?_map, List.getElem?_map, hconns i, Option.map_map]
  exact congrArg (Option.map · x.conns[i]?) (funext fun k => hg i k)

theorem Works.sockets (h : Works c x y) : y.sockets = x.sockets := by
  obtain ⟨g, hconns⟩ := h.conns
  exact sockets_eq (g := fun i k => { k with conn := g i k.conn }) (fun _ _ => rfl) hconns

theorem sockets_modifyConn (x : TcpClient) (c : ℕ) {f : ClientConnection → ClientConnection}
    (hf : ∀ k, (f k).sockfd = k.sockfd) : (x.modifyConn c f).sockets = x.sockets := by
  refine sockets_eq (g := fun i => if c = i then f else id) (fun i k => ?_) fun i => ?_
  · split
    · exact hf k
    · rfl
  · refine (List.getElem?_modify ..).trans (congrArg (Option.map · x.conns[i]?)
      (funext fun k => ?_))
    by_cases hi : c = i
    · simp only [if_pos hi]
    · simp only [if_neg hi, id]

/-! ## The order of the functors -/

/-- The deferred reset of the connector's channel. -/
def resetFunctor : ClientFunctor := .ofConnector .resetChannel

/-- Where the functors and the events of a connection can be. Whatever concerns the connection
that the client has comes after a reset that is still queued. -/
structure Orderly (x : TcpClient) : Prop where
  handling : x.activeChannels_ ≠ [] ∨ x.todo ≠ [] → x.loop_.handlingEvents = true
  reset : x.loop_.handlingEvents = false → resetFunctor ∉ x.loop_.pendingFunctors_
  order : ∀ c, x.connection_ = some c →
    x.loop_.queued.Pairwise fun f g => f.conn = some c → g ≠ resetFunctor
  active : ∀ c, x.connection_ = some c → resetFunctor ∈ x.loop_.queued →
    .connection c ∉ x.activeChannels_.map Prod.fst ∧ c ∉ x.todo.map Prod.fst
  known : ∀ f ∈ x.loop_.queued, f.Known x.conns.length
  active_lt : ∀ c, .connection c ∈ x.activeChannels_.map Prod.fst → c < x.conns.length
  todo_lt : ∀ c ∈ x.todo.map Prod.fst, c < x.conns.length

/-- What is true of a connection of the client. -/
structure Kept (x : TcpClient) (c : ℕ) (k : ClientConnection) : Prop where
  connId : k.connId + x.conns.length = x.nextConnId_ + c
  callback : k.closeCallback_ = .removeConnection
  open_iff : k.closes = 0 ↔ x.connection_ = some c
  closes : k.closes ≤ 1
  destroys : k.destroys + x.loop_.queued.count (.ofConnection c .connectDestroyed) = k.closes

/-- The client apart from its connector. -/
structure Framed (x : TcpClient) : Prop where
  orderly : Orderly x
  kept : ∀ c k, x.conns[c]? = some k → Kept x c k
  connection_lt : ∀ c, x.connection_ = some c → c < x.conns.length
  asserted : x.failed = false
  defined : x.undefined = false
  exists_ : x.destroyed = false
  removal : x.removeConnector = false

/-! ## Steps that keep the frame -/

theorem Orderly.queued_lt (h : Orderly x) {f : ClientFunctor} (hf : f ∈ x.loop_.queued)
    (hc : f.conn = some c) : c < x.conns.length := by
  have hknown := h.known f hf
  cases f with
  | ofConnector g => cases hc
  | ofConnection d g =>
    cases hc
    exact hknown
  | setCloseCallback d => exact hknown.elim

theorem Orderly.resetFunctor_notin (h : Orderly x) (hc : x.connection_ = some c)
    {f : ClientFunctor} {rest : List ClientFunctor} (hqueue : x.loop_.queued = f :: rest)
    (hf : f.conn = some c) : resetFunctor ∉ x.loop_.queued := by
  have horder := h.order c hc
  rw [hqueue, List.pairwise_cons] at horder
  intro hin
  rw [hqueue] at hin
  rcases List.mem_cons.mp hin with heq | hin
  · rw [← heq] at hf
    cases hf
  · exact horder.1 _ hin hf rfl

theorem Framed.works (h : Framed x) (hw : Works c x y) : Framed y := by
  obtain ⟨fs, hdestroyed, hlt, hqueued⟩ := hw.queued
  obtain ⟨fs', -, -, hpending⟩ := hw.functors
  have hconnection : y.connection_ = x.connection_ := by rw [hw.rest]
  have hactive : y.activeChannels_ = x.activeChannels_ := by rw [hw.rest]
  have htodo : y.todo = x.todo := by rw [hw.rest]
  have hhandling := EventLoop.handlingEvents_congr hw.phase
  have hnew {f : ClientFunctor} {fs : List ConnFunctor}
      (hf : f ∈ fs.map (ClientFunctor.ofConnection c)) : f ≠ resetFunctor := by
    obtain ⟨g, -, rfl⟩ := List.mem_map.mp hf
    intro hne
    cases hne
  refine ⟨⟨?_, ?_, ?_, ?_, ?_, ?_, ?_⟩, ?_, ?_, ?_, ?_, ?_, ?_⟩
  · rw [hactive, htodo, hhandling]
    exact h.orderly.handling
  · rw [hhandling, hpending]
    intro hphase hin
    rcases List.mem_append.mp hin with hin | hin
    · exact h.orderly.reset hphase hin
    · exact hnew hin rfl
  · intro d hd
    rw [hqueued, List.pairwise_append]
    refine ⟨h.orderly.order d (hconnection ▸ hd), ?_, fun _ _ g hg _ => hnew hg⟩
    exact List.Pairwise.imp_of_mem (fun _ hg _ _ => hnew hg)
      (List.pairwise_of_forall fun _ _ => trivial)
  · intro d hd hin
    rw [hactive, htodo]
    rw [hqueued] at hin
    refine h.orderly.active d (hconnection ▸ hd) ?_
    exact (List.mem_append.mp hin).resolve_right fun hin => hnew hin rfl
  · intro f hf
    rw [hw.length]
    rw [hqueued] at hf
    rcases List.mem_append.mp hf with hf | hf
    · exact h.orderly.known f hf
    · obtain ⟨g, hg, rfl⟩ := List.mem_map.mp hf
      exact hlt (List.ne_nil_of_mem hg)
  · rw [hactive, hw.length]
    exact h.orderly.active_lt
  · rw [htodo, hw.length]
    exact h.orderly.todo_lt
  · intro i k hk
    obtain ⟨g, hconns⟩ := hw.conns
    rw [hconns, Option.map_eq_some_iff] at hk
    obtain ⟨k', hk', rfl⟩ := hk
    have hkept := h.kept i k' hk'
    refine ⟨?_, hkept.callback, ?_, hkept.closes, ?_⟩
    · have hnext : y.nextConnId_ = x.nextConnId_ := by rw [hw.rest]
      rw [hw.length, hnext]
      exact hkept.connId
    · rw [hconnection]
      exact hkept.open_iff
    · have hcount : (fs.map (ClientFunctor.ofConnection c)).count
          (.ofConnection i .connectDestroyed) = 0 := by
        refine List.count_eq_zero.mpr fun hin => ?_
        obtain ⟨g, hg, heq⟩ := List.mem_map.mp hin
        cases heq
        exact hdestroyed hg
      rw [hqueued, List.count_append, hcount]
      exact hkept.destroys
  · rw [hconnection, hw.length]
    exact h.connection_lt
  · rw [hw.rest]
    exact h.asserted
  · rw [hw.rest]
    exact h.defined
  · rw [hw.rest]
    exact h.exists_
  · rw [hw.rest]
    exact h.removal

/-- The connector may queue a reset only between two connections, while events are handled. -/
theorem Framed.putConnector (h : Framed x)
    (hv : v.pendingFunctors_ = x.connector.pendingFunctors_ ++ new)
    (hreset : .resetChannel ∈ new → x.loop_.handlingEvents = true ∧ x.connection_ = none) :
    Framed (x.putConnector v) := by
  rw [putConnector_eq hv]
  have hnew {f : ClientFunctor} (hf : f ∈ new.map ClientFunctor.ofConnector) : f.conn = none := by
    obtain ⟨g, -, rfl⟩ := List.mem_map.mp hf
    rfl
  have hhandling : (x.loop_.queueAll (new.map .ofConnector)).handlingEvents =
      x.loop_.handlingEvents :=
    EventLoop.handlingEvents_congr (EventLoop.phase_queueAll ..)
  have hin : resetFunctor ∈ new.map ClientFunctor.ofConnector →
      x.loop_.handlingEvents = true ∧ x.connection_ = none := by
    intro hin
    obtain ⟨g, hg, heq⟩ := List.mem_map.mp hin
    cases heq
    exact hreset hg
  refine ⟨⟨?_, ?_, ?_, ?_, ?_, h.orderly.active_lt, h.orderly.todo_lt⟩, ?_, h.connection_lt,
    h.asserted, h.defined, h.exists_, h.removal⟩
  · rw [hhandling]
    exact h.orderly.handling
  · rw [hhandling, EventLoop.pendingFunctors_queueAll]
    intro hphase hmem
    rcases List.mem_append.mp hmem with hmem | hmem
    · exact h.orderly.reset hphase hmem
    · exact Bool.false_ne_true (hphase.symm.trans (hin hmem).1)
  · intro d hd
    rw [EventLoop.queued_queueAll, List.pairwise_append]
    refine ⟨h.orderly.order d hd, ?_, ?_⟩
    · refine List.Pairwise.imp_of_mem (fun hf _ _ hconn => ?_)
        (List.pairwise_of_forall fun _ _ => trivial)
      cases (hnew hf).symm.trans hconn
    · intro f _ g hg _ heq
      rw [heq] at hg
      cases (hin hg).2.symm.trans hd
  · intro d hd hmem
    rw [EventLoop.queued_queueAll] at hmem
    refine h.orderly.active d hd ((List.mem_append.mp hmem).resolve_right fun hmem => ?_)
    cases (hin hmem).2.symm.trans hd
  · intro f hf
    rw [EventLoop.queued_queueAll] at hf
    rcases List.mem_append.mp hf with hf | hf
    · exact h.orderly.known f hf
    · obtain ⟨g, -, rfl⟩ := List.mem_map.mp hf
      trivial
  · intro i k hk
    have hkept := h.kept i k hk
    refine ⟨hkept.connId, hkept.callback, hkept.open_iff, hkept.closes, ?_⟩
    have hcount :
        (new.map ClientFunctor.ofConnector).count (.ofConnection i .connectDestroyed) = 0 := by
      refine List.count_eq_zero.mpr fun hmem => ?_
      cases hnew hmem
    rw [EventLoop.queued_queueAll, List.count_append, hcount]
    exact hkept.destroys

/-- The loop takes a functor out, and runs it later. -/
theorem Orderly.pop (h : Orderly x) {f : ClientFunctor} {l : EventLoop ClientFunctor}
    (hnext : x.loop_.next = some (f, l)) : Orderly { x with loop_ := l } := by
  have hqueued := EventLoop.queued_next hnext
  obtain ⟨hout, hout'⟩ := EventLoop.handlingEvents_next hnext
  obtain ⟨rest, -, rfl⟩ := EventLoop.next_cases hnext
  refine ⟨?_, ?_, ?_, ?_, ?_, h.active_lt, h.todo_lt⟩
  · intro hevents
    exact absurd (hout.symm.trans (h.handling hevents)) Bool.false_ne_true
  · exact fun _ => h.reset hout
  · intro d hd
    have horder := h.order d hd
    rw [hqueued, List.pairwise_cons] at horder
    exact horder.2
  · intro d hd hin
    exact h.active d hd (hqueued ▸ List.mem_cons_of_mem _ hin)
  · intro g hg
    exact h.known g (hqueued ▸ List.mem_cons_of_mem _ hg)

theorem Framed.pop (h : Framed x) {f : ClientFunctor} {l : EventLoop ClientFunctor}
    (hnext : x.loop_.next = some (f, l)) (hf : ∀ c, f ≠ .ofConnection c .connectDestroyed) :
    Framed { x with loop_ := l } := by
  refine ⟨h.orderly.pop hnext, ?_, h.connection_lt, h.asserted, h.defined, h.exists_, h.removal⟩
  intro i k hk
  have hkept := h.kept i k hk
  refine ⟨hkept.connId, hkept.callback, hkept.open_iff, hkept.closes, ?_⟩
  have hcount := hkept.destroys
  rw [EventLoop.queued_next hnext, List.count_cons_of_ne (hf i)] at hcount
  exact hcount

/-- `connectDestroyed` of a connection was queued when it was closed. -/
theorem Framed.connectDestroyed (h : Framed x) {l : EventLoop ClientFunctor}
    (hnext : x.loop_.next = some (.ofConnection c .connectDestroyed, l)) :
    Framed (({ x with loop_ := l } : TcpClient).modifyConn c fun k =>
      { k with destroys := k.destroys + 1 }) := by
  have horderly := h.orderly.pop hnext
  refine ⟨⟨horderly.handling, horderly.reset, horderly.order, horderly.active, ?_, ?_, ?_⟩, ?_, ?_,
    h.asserted, h.defined, h.exists_, h.removal⟩
  · rw [modifyConn, List.length_modify]
    exact horderly.known
  · rw [modifyConn, List.length_modify]
    exact horderly.active_lt
  · rw [modifyConn, List.length_modify]
    exact horderly.todo_lt
  · intro i k hk
    rw [modifyConn, List.getElem?_modify, Option.map_eq_map, Option.map_eq_some_iff] at hk
    obtain ⟨k', hk', rfl⟩ := hk
    have hkept := h.kept i k' hk'
    have hcount := hkept.destroys
    rw [EventLoop.queued_next hnext] at hcount
    by_cases hi : c = i
    · subst hi
      rw [if_pos rfl]
      refine ⟨?_, hkept.callback, hkept.open_iff, hkept.closes, ?_⟩
      · rw [modifyConn, List.length_modify]
        exact hkept.connId
      · rw [List.count_cons_self] at hcount
        change k'.destroys + 1 + l.queued.count _ = k'.closes
        omega
    · have hne : ClientFunctor.ofConnection c .connectDestroyed ≠
          .ofConnection i .connectDestroyed := by
        intro heq
        cases heq
        exact hi rfl
      rw [if_neg hi]
      rw [List.count_cons_of_ne hne] at hcount
      refine ⟨?_, hkept.callback, hkept.open_iff, hkept.closes, hcount⟩
      rw [modifyConn, List.length_modify]
      exact hkept.connId
  · rw [modifyConn, List.length_modify]
    exact h.connection_lt

/-- A new connection is known to nobody but the client. -/
theorem Framed.newConnection (h : Framed x) (hnone : x.connection_ = none) (fd : ℕ) :
    Framed (x.newConnection fd) := by
  rw [TcpClient.newConnection, if_neg (h.exists_ ▸ Bool.false_ne_true)]
  refine ⟨⟨h.orderly.handling, h.orderly.reset, ?_, ?_, ?_, ?_, ?_⟩, ?_, ?_, h.asserted, h.defined,
    h.exists_, h.removal⟩
  · intro d hd
    cases hd
    refine List.Pairwise.imp_of_mem (fun hf _ _ hconn => ?_)
      (List.pairwise_of_forall fun _ _ => trivial)
    exact absurd (h.orderly.queued_lt hf hconn) (Nat.lt_irrefl _)
  · intro d hd _
    cases hd
    exact ⟨fun hin => absurd (h.orderly.active_lt _ hin) (Nat.lt_irrefl _),
      fun hin => absurd (h.orderly.todo_lt _ hin) (Nat.lt_irrefl _)⟩
  · intro f hf
    rw [List.length_append]
    exact (h.orderly.known f hf).mono (Nat.le_succ _)
  · intro d hd
    rw [List.length_append]
    exact Nat.lt_succ_of_lt (h.orderly.active_lt d hd)
  · intro d hd
    rw [List.length_append]
    exact Nat.lt_succ_of_lt (h.orderly.todo_lt d hd)
  · intro i k hk
    rcases Nat.lt_trichotomy i x.conns.length with hlt | rfl | hgt
    · rw [List.getElem?_append_left hlt] at hk
      have hkept := h.kept i k hk
      refine ⟨?_, hkept.callback, ?_, hkept.closes, hkept.destroys⟩
      · have hid := hkept.connId
        rw [List.length_append, List.length_singleton]
        push_cast
        omega
      · rw [hkept.open_iff, hnone]
        constructor
        · intro heq
          cases heq
        · intro heq
          cases heq
          exact absurd hlt (Nat.lt_irrefl _)
    · rw [List.getElem?_append_right (Nat.le_refl _), Nat.sub_self] at hk
      cases hk
      refine ⟨?_, rfl, ⟨fun _ => rfl, fun _ => rfl⟩, Nat.zero_le _, ?_⟩
      · rw [List.length_append, List.length_singleton]
        push_cast
        omega
      · refine (Nat.zero_add _).trans (List.count_eq_zero.mpr fun hin => ?_)
        exact absurd (h.orderly.queued_lt hin rfl) (Nat.lt_irrefl _)
    · rw [List.getElem?_eq_none (by rw [List.length_append]; exact hgt)] at hk
      cases hk
  · intro d hd
    cases hd
    rw [List.length_append]
    exact Nat.lt_succ_self _

/-- The client after its connection has been closed, before it restarts its connector. -/
def closed (x : TcpClient) (c : ℕ) : TcpClient :=
  { x with
    conns := x.conns.modify c fun k => { k with closes := k.closes + 1 }
    connection_ := none
    loop_ := x.loop_.queueInLoop true (.ofConnection c .connectDestroyed) }

theorem connector_closed (x : TcpClient) (c : ℕ) : (x.closed c).connector = x.connector := by
  rw [closed, connector, EventLoop.queued_queueInLoop, List.filterMap_append]
  exact congrArg (fun q => ({ x.connector_ with pendingFunctors_ := q } : Connector))
    (List.append_nil _)

theorem Framed.closed (h : Framed x) (hc : x.connection_ = some c) : Framed (x.closed c) := by
  have hhandling : (x.loop_.queueInLoop true
      (.ofConnection c .connectDestroyed)).handlingEvents = x.loop_.handlingEvents :=
    EventLoop.handlingEvents_congr (EventLoop.phase_queueInLoop ..)
  rw [TcpClient.closed]
  refine ⟨⟨?_, ?_, ?_, ?_, ?_, ?_, ?_⟩, ?_, ?_, h.asserted, h.defined, h.exists_, h.removal⟩
  · rw [hhandling]
    exact h.orderly.handling
  · rw [hhandling, EventLoop.pendingFunctors_queueInLoop]
    intro hphase hin
    rcases List.mem_append.mp hin with hin | hin
    · exact h.orderly.reset hphase hin
    · cases List.mem_singleton.mp hin
  · intro d hd
    cases hd
  · intro d hd
    cases hd
  · intro f hf
    rw [EventLoop.queued_queueInLoop] at hf
    rw [List.length_modify]
    rcases List.mem_append.mp hf with hf | hf
    · exact h.orderly.known f hf
    · cases List.mem_singleton.mp hf
      exact h.connection_lt _ hc
  · rw [List.length_modify]
    exact h.orderly.active_lt
  · rw [List.length_modify]
    exact h.orderly.todo_lt
  · intro i k hk
    rw [List.getElem?_modify, Option.map_eq_map, Option.map_eq_some_iff] at hk
    obtain ⟨k', hk', rfl⟩ := hk
    have hkept := h.kept i k' hk'
    have hcount := hkept.destroys
    by_cases hi : c = i
    · subst hi
      rw [if_pos rfl]
      have hopen := hkept.open_iff.mpr hc
      refine ⟨?_, hkept.callback, ⟨fun hne => ?_, fun heq => ?_⟩, ?_, ?_⟩
      · rw [List.length_modify]
        exact hkept.connId
      · cases hne
      · cases heq
      · exact Nat.succ_le_succ (Nat.le_of_eq hopen)
      · rw [EventLoop.queued_queueInLoop, List.count_append, List.count_singleton_self]
        change k'.destroys + (_ + 1) = k'.closes + 1
        omega
    · have hne : ClientFunctor.ofConnection c .connectDestroyed ≠
          .ofConnection i .connectDestroyed := by
        intro heq
        cases heq
        exact hi rfl
      rw [if_neg hi]
      refine ⟨?_, hkept.callback, ?_, hkept.closes, ?_⟩
      · rw [List.length_modify]
        exact hkept.connId
      · rw [hkept.open_iff, hc]
        constructor
        · intro heq
          cases heq
          exact absurd rfl hi
        · intro heq
          cases heq
      · rw [EventLoop.queued_queueInLoop, List.count_append, List.count_singleton,
          beq_eq_false_iff_ne.mpr hne]
        exact hcount
  · intro d hd
    cases hd

/-- What is handled of the events only gets less. -/
theorem Framed.handled (h : Framed x) {active : List (ClientChannel × Revents)}
    {todo : List (ℕ × ChannelCallback)} (hactive : active.Sublist x.activeChannels_)
    (htodo : ∀ d ∈ todo.map Prod.fst, d ∈ x.todo.map Prod.fst ∨
      .connection d ∈ x.activeChannels_.map Prod.fst) :
    Framed { x with activeChannels_ := active, todo := todo } := by
  have hsub := (hactive.map Prod.fst).subset
  refine ⟨⟨?_, h.orderly.reset, h.orderly.order, ?_, h.orderly.known, ?_, ?_⟩, ?_,
    h.connection_lt, h.asserted, h.defined, h.exists_, h.removal⟩
  · rintro (hne | hne)
    · refine h.orderly.handling (Or.inl fun hnil => hne ?_)
      rw [hnil] at hactive
      exact List.sublist_nil.mp hactive
    · obtain ⟨p, hp⟩ := List.exists_mem_of_ne_nil todo hne
      rcases htodo p.1 (List.mem_map_of_mem hp) with hin | hin
      · exact h.orderly.handling (Or.inr fun hnil => by rw [hnil] at hin; cases hin)
      · exact h.orderly.handling (Or.inl fun hnil => by rw [hnil] at hin; cases hin)
  · intro d hd hreset
    obtain ⟨hout, hout'⟩ := h.orderly.active d hd hreset
    refine ⟨fun hin => hout (hsub hin), fun hin => ?_⟩
    rcases htodo d hin with hin | hin
    · exact hout' hin
    · exact hout hin
  · exact fun d hd => h.orderly.active_lt d (hsub hd)
  · intro d hd
    rcases htodo d hd with hin | hin
    · exact h.orderly.todo_lt d hin
    · exact h.orderly.active_lt d hin
  · intro i k hk
    have hkept := h.kept i k hk
    exact ⟨hkept.connId, hkept.callback, hkept.open_iff, hkept.closes, hkept.destroys⟩

/-- The loop goes on. When it polls, no reset is queued. -/
theorem Framed.turns (h : Framed x) {a : LoopAction} {l : EventLoop ClientFunctor}
    (hact : x.loop_.act a = some l) {active : List (ClientChannel × Revents)}
    (hactive : active = x.activeChannels_ ∨ a = .poll)
    (hlt : ∀ d, .connection d ∈ active.map Prod.fst → d < x.conns.length)
    (hpending : a = .doPendingFunctors → active = [] ∧ x.todo = []) :
    Framed { x with loop_ := l, activeChannels_ := active } := by
  have hqueued := EventLoop.queued_act hact
  refine ⟨⟨?_, ?_, ?_, ?_, ?_, hlt, h.orderly.todo_lt⟩, ?_, h.connection_lt, h.asserted, h.defined,
    h.exists_, h.removal⟩
  · intro hne
    rcases hactive with rfl | rfl
    · by_cases hd : a = .doPendingFunctors
      · obtain ⟨hactive, htodo⟩ := hpending hd
        exact hne.elim (fun hne => absurd hactive hne) fun hne => absurd htodo hne
      · by_cases hp : a = .poll
        · subst hp
          exact EventLoop.handlingEvents_poll hact
        · exact (EventLoop.handlingEvents_act hact hp hd).trans (h.orderly.handling hne)
    · exact EventLoop.handlingEvents_poll hact
  · intro hphase
    have hreset := h.orderly.reset
    generalize x.loop_ = q at hact hreset
    cases EventLoop.turns_act hact with
    | poll pending fd => cases hphase
    | handleRead pending fd => cases hphase
    | doPendingFunctors pending fd => exact List.not_mem_nil
    | endPendingFunctors pending fd => exact hreset rfl
  · intro d hd
    rw [hqueued]
    exact h.orderly.order d hd
  · intro d hd hin
    rw [hqueued] at hin
    rcases hactive with rfl | rfl
    · exact h.orderly.active d hd hin
    · have hreset := h.orderly.reset
      generalize x.loop_ = q at hact hin hreset
      cases EventLoop.turns_act hact with
      | poll pending fd => exact absurd hin (hreset rfl)
  · rw [hqueued]
    exact h.orderly.known
  · intro i k hk
    have hkept := h.kept i k hk
    refine ⟨hkept.connId, hkept.callback, hkept.open_iff, hkept.closes, ?_⟩
    rw [hqueued]
    exact hkept.destroys

theorem Framed.setFlags (h : Framed x) (retry connect : Bool) :
    Framed { x with retry_ := retry, connect_ := connect } := by
  have ho := h.orderly
  refine ⟨⟨ho.handling, ho.reset, ho.order, ho.active, ho.known, ho.active_lt, ho.todo_lt⟩, ?_,
    h.connection_lt, h.asserted, h.defined, h.exists_, h.removal⟩
  intro i k hk
  have hkept := h.kept i k hk
  exact ⟨hkept.connId, hkept.callback, hkept.open_iff, hkept.closes, hkept.destroys⟩

end TcpClient

end ReactorNet
