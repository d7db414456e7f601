import ReactorNet.TcpClientRuns

/-!
# After the destructor of a client

The destructor gives the open connection a `closeCallback_` that needs no client, or stops the
connector. From then on nothing that is left in the loop calls the client.
-/
namespace ReactorNet

namespace Connector

variable {v y : Connector}

/-- A connector that is not to connect any more hands over nothing. -/
structure Silent (fds : List ℕ) (y : Connector) : Prop where
  connect : y.connect_ = false
  handedOver : y.handedOver = fds

theorem silent_retry (hconnect : v.connect_ = false) (sockfd : ℕ) :
    Silent v.handedOver (v.retry sockfd) :=
  ⟨(connect_retry v sockfd).trans hconnect, handedOver_retry v sockfd⟩

theorem silent_startInLoop (hconnect : v.connect_ = false) (errno : ConnectErrno) :
    Silent v.handedOver (v.startInLoop errno) := by
  rw [startInLoop, if_neg (by rw [connect_check, hconnect]; exact Bool.false_ne_true)]
  exact ⟨(connect_check ..).trans hconnect, handedOver_check ..⟩

theorem silent_handleError (hconnect : v.connect_ = false) (hy : v.handleError = some y) :
    Silent v.handedOver y := by
  obtain ⟨channel, -, rfl⟩ := Option.map_eq_some_iff.mp hy
  refine ⟨?_, ?_⟩
  · rw [connect_retry]
    exact (connect_check ..).trans hconnect
  · rw [handedOver_retry]
    exact handedOver_check ..

theorem silent_handleWrite (hconnect : v.connect_ = false) {err selfConnect : Bool}
    (hy : v.handleWrite err selfConnect = some y) : Silent v.handedOver y := by
  rw [handleWrite] at hy
  split at hy
  · obtain ⟨channel, -, rfl⟩ := Option.map_eq_some_iff.mp hy
    have hremoved : (v.removeAndResetChannel channel).connect_ = false := hconnect
    split
    · exact silent_retry hremoved _
    · split
      · exact silent_retry hremoved _
      · rw [if_neg (by rw [setState, hremoved]; exact Bool.false_ne_true)]
        exact ⟨hconnect, rfl⟩
  · cases hy
    exact ⟨(connect_check ..).trans hconnect, handedOver_check ..⟩

theorem silent_handleEvent (hconnect : v.connect_ = false) {revents : Revents}
    {err selfConnect : Bool} (hy : v.handleEvent revents err selfConnect = some y) :
    Silent v.handedOver y := by
  rw [handleEvent_eq (registered_of_handleEvent hy)] at hy
  obtain ⟨z, hz, hy⟩ := Option.bind_eq_some_iff.mp hy
  have hsilent : Silent v.handedOver z := by
    split at hz
    · exact silent_handleError hconnect hz
    · cases hz
      exact ⟨hconnect, rfl⟩
  split at hy
  · have hwrite := silent_handleWrite hsilent.connect hy
    exact ⟨hwrite.connect, hwrite.handedOver.trans hsilent.handedOver⟩
  · cases hy
    exact hsilent

theorem silent_runFunctor (hconnect : v.connect_ = false) (errno : ConnectErrno)
    (f : ConnectorFunctor) : Silent v.handedOver (v.runFunctor errno f) := by
  cases f with
  | startInLoop => exact silent_startInLoop hconnect errno
  | resetChannel => exact ⟨hconnect, rfl⟩
  | cancel timerId => exact ⟨hconnect, rfl⟩

/-- What goes on by itself in a connector. -/
def ofLoop : ConnectorAction → Bool
  | .expire _ | .timer _ _ | .event _ _ _ | .functor _ => true
  | _ => false

theorem silent_step (hconnect : v.connect_ = false) {a : ConnectorAction} (ha : ofLoop a = true)
    (hy : v.step a = some y) : Silent v.handedOver y := by
  cases (step_move hy).2 with
  | start inLoop errno => cases ha
  | stop inLoop => cases ha
  | restart errno => cases ha
  | destroy inLoop => cases ha
  | expire timer => exact ⟨hconnect, rfl⟩
  | timer timer errno =>
    exact silent_startInLoop (v := { v with expired := v.expired.erase timer }) hconnect errno
  | event revents err selfConnect y hreg hy => exact silent_handleEvent hconnect hy
  | functor errno cb rest hqueue =>
    exact silent_runFunctor (v := { v with pendingFunctors_ := rest }) hconnect errno cb

end Connector

namespace TcpClient

open Connector GuardedRuns

variable {x y : TcpClient} {c : ℕ} {errno : ConnectErrno} {v : Connector}

/-- A client that has been destroyed, and that nobody is going to call. -/
structure Orphaned (x : TcpClient) : Prop where
  destroyed : x.destroyed = true
  defined : x.undefined = false
  silent : x.connector_.destroyed = true ∨ x.connector_.connect_ = false
  callbacks : ∀ (c : ℕ) (k : ClientConnection), x.conns[c]? = some k → k.closes = 0 →
    k.closeCallback_ = .detailRemoveConnection

theorem Orphaned.works (h : Orphaned x) (hw : Works c x y) : Orphaned y := by
  refine ⟨?_, ?_, ?_, fun i k hk hopen => ?_⟩
  · rw [hw.rest]
    exact h.destroyed
  · rw [hw.rest]
    exact h.defined
  · rw [hw.rest]
    exact h.silent
  · obtain ⟨g, hconns⟩ := hw.conns
    rw [hconns, Option.map_eq_some_iff] at hk
    obtain ⟨k', hk', rfl⟩ := hk
    exact h.callbacks i k' hk' hopen

/-- A connection is counted as closed or destroyed, or gets the other `closeCallback_`. -/
theorem Orphaned.modifyConn (h : Orphaned x) (c : ℕ) {f : ClientConnection → ClientConnection}
    (hf : ∀ k, (f k).closes = 0 → (f k).closeCallback_ = .detailRemoveConnection ∨
      k.closes = 0 ∧ (f k).closeCallback_ = k.closeCallback_) : Orphaned (x.modifyConn c f) := by
  refine ⟨h.destroyed, h.defined, h.silent, fun i k hk hopen => ?_⟩
  rw [TcpClient.modifyConn, List.getElem?_modify, Option.map_eq_map, Option.map_eq_some_iff] at hk
  obtain ⟨k', hk', rfl⟩ := hk
  by_cases hi : c = i
  · rw [if_pos hi] at hopen ⊢
    rcases hf k' hopen with heq | ⟨hopen', heq⟩
    · exact heq
    · exact heq.trans (h.callbacks i k' hk' hopen')
  · rw [if_neg hi] at hopen ⊢
    exact h.callbacks i k' hk' hopen

theorem Orphaned.putConnector (h : Orphaned x)
    (hv : v.destroyed = true ∨ v.connect_ = false) : Orphaned (x.putConnector v) :=
  ⟨h.destroyed, h.defined, hv, h.callbacks⟩

/-- The connector goes on without the client. -/
theorem Orphaned.connector (h : Orphaned x) {a : ConnectorAction} (ha : ofLoop a = true)
    (hv : x.connector.step a = some v) (hx : Orphaned y) (hy : y.connector_ = x.connector_) :
    Orphaned (y.onConnector v) := by
  have hexists : x.connector_.destroyed = false := (step_move hv).1
  have hconnect : x.connector.connect_ = false :=
    h.silent.resolve_left fun hd => Bool.false_ne_true (hexists.symm.trans hd)
  have hsilent := silent_step hconnect ha hv
  have hhanded : v.handedOver = y.connector_.handedOver := by
    rw [hsilent.handedOver, hy]
    rfl
  rw [onConnector_eq_putConnector hhanded]
  exact hx.putConnector (Or.inr hsilent.connect)

theorem Orphaned.handleClose (h : Orphaned x) (honce : ∀ k ∈ x.conns[c]?, k.closes = 0) :
    Orphaned (x.handleClose c errno) := by
  have hw : Works c x (x.onConn c fun conn => conn.setChannel conn.channel_.disableAll) :=
    works_onConn fun _ => rfl
  have hy := h.works hw
  generalize hx : x.onConn c (fun conn => conn.setChannel conn.channel_.disableAll) = y at hw hy
  have hz : Orphaned (y.modifyConn c fun k => { k with closes := k.closes + 1 }) := by
    refine hy.modifyConn c fun k hopen => ?_
    cases hopen
  rw [TcpClient.handleClose, hx]
  split
  · exact hz
  · next k hk =>
    rw [TcpClient.modifyConn, List.getElem?_modify_eq, Option.map_eq_map,
      Option.map_eq_some_iff] at hk
    obtain ⟨k', hk', rfl⟩ := hk
    obtain ⟨g, hconns⟩ := hw.conns
    rw [hconns, Option.map_eq_some_iff] at hk'
    obtain ⟨k, hk, rfl⟩ := hk'
    have hcallback : k.closeCallback_ = .detailRemoveConnection := h.callbacks c k hk (honce k hk)
    split
    · next heq => cases hcallback.symm.trans heq
    · exact ⟨hz.destroyed, hz.defined, hz.silent, hz.callbacks⟩

theorem Orphaned.callback (h : Orphaned x) {delivered : Option (List UInt8)} {result : Option ℕ}
    (honce : ∀ c ∈ x.entersHandleClose (.callback delivered result errno), ∀ k ∈ x.conns[c]?,
      k.closes = 0) (hy : x.callback delivered result errno = some y) : Orphaned y := by
  rw [TcpClient.callback] at hy
  split at hy
  · cases hy
  · next c cb rest htodo =>
    have hrest : Orphaned { x with todo := rest } :=
      ⟨h.destroyed, h.defined, h.silent, h.callbacks⟩
    cases hy
    cases cb with
    | closeCallback_ =>
      refine hrest.handleClose (honce c ?_)
      rw [entersHandleClose, htodo]
      rfl
    | errorCallback_ => exact hrest
    | readCallback_ =>
      have hread : Works c { x with todo := rest }
          ({ x with todo := rest }.onConn c fun conn =>
            { conn with inputBuffer_ := conn.inputBuffer_.readFd delivered }) :=
        works_onConn fun _ => rfl
      cases delivered with
      | none => exact hrest.works hread
      | some bytes =>
        cases bytes with
        | nil =>
          refine (hrest.works hread).handleClose fun k hk => ?_
          obtain ⟨g, hconns⟩ := hread.conns
          rw [Option.mem_def, hconns, Option.map_eq_some_iff] at hk
          obtain ⟨k', hk', rfl⟩ := hk
          refine honce c ?_ k' hk'
          rw [entersHandleClose, htodo]
          rfl
        | cons byte bytes =>
          exact (hrest.works hread).works (works_onConn (f := fun conn => { conn with
            inputBuffer_ := conn.callbacks.messageCallback_ conn.inputBuffer_ }) fun _ => rfl)
    | writeCallback_ =>
      exact hrest.works (works_onConn fun conn => (conn.quiet_handleWrite result).destroys)

theorem Orphaned.runFunctor (h : Orphaned x) {result : Option ℕ}
    (honce : ∀ c ∈ x.entersHandleClose (.runFunctor result errno), ∀ k ∈ x.conns[c]?,
      k.closes = 0) (hy : x.runFunctor result errno = some y) : Orphaned y := by
  rw [TcpClient.runFunctor] at hy
  split at hy
  · cases hy
  · next f l hnext =>
    have hpop : Orphaned { x with loop_ := l } := ⟨h.destroyed, h.defined, h.silent, h.callbacks⟩
    cases f with
    | ofConnector f =>
      obtain ⟨v, hv, rfl⟩ := Option.map_eq_some_iff.mp hy
      exact h.connector rfl hv hpop rfl
    | ofConnection c f =>
      cases hy
      cases f with
      | connectEstablished => exact hpop.works (works_onConn fun _ => rfl)
      | sendInLoop message =>
        exact hpop.works
          (works_onConn fun conn => (conn.quiet_sendInLoop message result).destroys)
      | shutdownInLoop =>
        exact hpop.works (works_onConn fun conn => conn.quiet_shutdownInLoop.destroys)
      | forceCloseInLoop =>
        rw [runConnFunctor, forceCloseInLoop]
        split
        · next hopen =>
          refine hpop.handleClose fun k hk => honce c ?_ k hk
          rw [entersHandleClose, hnext]
          exact if_pos hopen
        · exact hpop
      | connectDestroyed =>
        have hdestroyed := hpop.works (works_onConn (c := c) (f := TcpConnection.connectDestroyed)
          fun _ => rfl)
        exact hdestroyed.modifyConn c fun k hopen => Or.inr ⟨hopen, rfl⟩
      | writeCompleteCallback_ => exact hpop
      | highWaterMarkCallback_ size => exact hpop
    | setCloseCallback c =>
      cases hy
      exact hpop.modifyConn c fun _ _ => Or.inl rfl

theorem Orphaned.step (h : Orphaned x) {a : ClientAction} (hcalm : Calm x a)
    (hy : x.step a = some y) : Orphaned y := by
  cases a with
  | poll revents =>
    obtain ⟨l, -, rfl⟩ := Option.map_eq_some_iff.mp (Option.ite_none_right_eq_some.mp hy).2
    exact ⟨h.destroyed, h.defined, h.silent, h.callbacks⟩
  | handleEvent err selfConnect =>
    rw [TcpClient.step, TcpClient.handleEvent] at hy
    split at hy
    · next r rest hactive htodo =>
      obtain ⟨v, hv, rfl⟩ := Option.map_eq_some_iff.mp hy
      exact h.connector (y := { x with activeChannels_ := rest }) rfl hv
        ⟨h.destroyed, h.defined, h.silent, h.callbacks⟩ rfl
    · cases hy
      exact ⟨h.destroyed, h.defined, h.silent, h.callbacks⟩
    · cases hy
  | callback delivered result errno => exact h.callback hcalm hy
  | expire timer =>
    obtain ⟨v, hv, rfl⟩ := Option.map_eq_some_iff.mp (Option.ite_none_right_eq_some.mp hy).2
    exact h.connector rfl hv h rfl
  | timer timer errno =>
    obtain ⟨v, hv, rfl⟩ := Option.map_eq_some_iff.mp (Option.ite_none_right_eq_some.mp hy).2
    exact h.connector rfl hv h rfl
  | loop a =>
    obtain ⟨l, -, rfl⟩ := Option.map_eq_some_iff.mp (Option.ite_none_right_eq_some.mp hy).2
    exact ⟨h.destroyed, h.defined, h.silent, h.callbacks⟩
  | runFunctor result errno => exact h.runFunctor hcalm hy
  | connect inLoop errno => cases (if_pos h.destroyed).symm.trans hy
  | disconnect inLoop => cases (if_pos h.destroyed).symm.trans hy
  | stop inLoop => cases (if_pos h.destroyed).symm.trans hy
  | enableRetry => cases (if_pos h.destroyed).symm.trans hy
  | send c message result =>
    cases hy
    exact h.works (works_onConn fun conn => (conn.quiet_send message result).destroys)
  | shutdown c =>
    cases hy
    exact h.works (works_onConn fun conn => conn.quiet_shutdown.destroys)
  | forceClose c =>
    cases hy
    exact h.works (works_onConn fun conn => conn.quiet_forceClose.destroys)
  | destroy inLoop unique => cases (if_pos h.destroyed).symm.trans hy
  | removeConnector =>
    rw [TcpClient.step, Option.ite_none_right_eq_some] at hy
    cases hy.2
    have hhanded : (x.connector.destroy true).handedOver = x.connector_.handedOver :=
      handedOver_check ..
    have hremoved : Orphaned { x with removeConnector := false } :=
      ⟨h.destroyed, h.defined, h.silent, h.callbacks⟩
    refine (congrArg Orphaned (onConnector_eq_putConnector
      (x := { x with removeConnector := false })
      hhanded)).mpr (hremoved.putConnector (Or.inl rfl))

/-- The destructor, called in the loop thread. -/
theorem Sound.destroy {b : Prop} (h : Sound b x) (unique : Bool) :
    Orphaned (x.destroy true unique) := by
  rw [TcpClient.destroy]
  cases hconnection : x.connection_ with
  | some c =>
    have hset : ∀ (i : ℕ) (k : ClientConnection),
        (x.setCloseCallback c .detailRemoveConnection).conns[i]? = some k →
        k.closes = 0 → k.closeCallback_ = .detailRemoveConnection := by
      intro i k hk hopen
      rw [setCloseCallback, TcpClient.modifyConn, List.getElem?_modify, Option.map_eq_map,
        Option.map_eq_some_iff] at hk
      obtain ⟨k', hk', rfl⟩ := hk
      by_cases hi : c = i
      · rw [if_pos hi]
      · rw [if_neg hi] at hopen
        have hopen' := (h.framed.kept i k' hk').open_iff.mp hopen
        cases hconnection.symm.trans hopen'
        exact absurd rfl hi
    obtain ⟨y, hy⟩ : ∃ y, y = x.setCloseCallback c .detailRemoveConnection := ⟨_, rfl⟩
    have hw : Works c y (if unique = true then y.forceClose c true else y) := by
      split
      · exact works_onConn fun conn => conn.quiet_forceClose.destroys
      · exact Works.refl c y
    simp only [if_true]
    rw [← hy] at hset ⊢
    generalize (if unique = true then y.forceClose c true else y) = z at hw
    have hhanded : (z.connector.destroy true).handedOver = z.connector_.handedOver :=
      handedOver_check ..
    rw [onConnector_eq_putConnector hhanded]
    refine ⟨rfl, ?_, Or.inl rfl, fun i k hk hopen => ?_⟩
    · have hdefined : z.undefined = x.undefined := by
        rw [hw.rest, hy]
        rfl
      exact hdefined.trans h.framed.defined
    · obtain ⟨g, hconns⟩ := hw.conns
      have hk' := (hconns i).symm.trans hk
      rw [Option.map_eq_some_iff] at hk'
      obtain ⟨k', hk', rfl⟩ := hk'
      exact hset i k' hk' hopen
  | none =>
    have hhanded : (x.connector.stop true).handedOver = x.connector_.handedOver :=
      handedOver_check ..
    simp only [onConnector_eq_putConnector hhanded]
    refine ⟨rfl, h.framed.defined, Or.inr (connect_check ..), fun i k hk hopen => ?_⟩
    cases hconnection.symm.trans ((h.framed.kept i k hk).open_iff.mp hopen)

variable {n : ℤ} {callbacks : Callbacks} {as bs : List ClientAction} {unique : Bool}

/-- A client connects, and is destroyed while the user keeps the connection, which the peer then
closes. -/
def connecting : List ClientAction :=
  [.connect true .EINPROGRESS,
    .poll [(.connector, ⟨false, false, true, false, false, false, false⟩)],
    .handleEvent false false, .loop .doPendingFunctors, .runFunctor none .success]

def closing : List ClientAction :=
  [.loop .endPendingFunctors,
    .poll [(.connection 0, ⟨true, false, false, false, false, false, false⟩)],
    .handleEvent false false, .callback (some []) none .success, .loop .doPendingFunctors,
    .runFunctor none .success]

end TcpClient

end ReactorNet
