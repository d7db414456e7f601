import ReactorNet.ConnectorAssertions

/-!
# The stages of a connection

What a client with one connector can be about: nothing, a start that is queued, a socket that is
connecting, a retry timer, a timer that has expired, or a connection. An attempt leads from one
stage to the next; at no time are there two.
-/
namespace ReactorNet

inductive ClientStage where
  | idle
  | starting
  | connecting
  | retrying (timer : ℕ)
  | due (timer : ℕ)
  | connected (conn : ℕ)
deriving DecidableEq

namespace ClientStage

def starts : ClientStage → ℕ
  | .starting => 1
  | _ => 0

def timers : ClientStage → List ℕ
  | .retrying t => [t]
  | _ => []

def expired : ClientStage → List ℕ
  | .due t => [t]
  | _ => []

def connection : ClientStage → Option ℕ
  | .connected c => some c
  | _ => none

/-- What the stage says about `state_`. -/
def Allows : ClientStage → ConnectorState → Prop
  | .idle, s => s ≠ .kConnecting
  | .connecting, s => s = .kConnecting
  | .connected _, s => s = .kConnected
  | .starting, s | .retrying _, s | .due _, s => s = .kDisconnected

/-- The stages that end with an attempt to connect. -/
def startsNext : ClientStage → Bool
  | .starting | .due _ => true
  | _ => false

end ClientStage

/-- The results of `connect()` after which the connector gives up. -/
def ConnectErrno.fatal : ConnectErrno → Bool
  | .EACCES | .EPERM | .EAFNOSUPPORT | .EALREADY | .EBADF | .EFAULT | .ENOTSOCK => true
  | .unexpected => true
  | _ => false

namespace Connector

variable {v y : Connector} {conn : Option ℕ} {σ : ClientStage} {errno : ConnectErrno}

/-- The connector is in a stage, together with the connection of its client. -/
structure At (v : Connector) (conn : Option ℕ) (σ : ClientStage) : Prop where
  exists_ : v.destroyed = false
  starts : v.pendingFunctors_.count .startInLoop = σ.starts
  timers : v.timers.map Prod.fst = σ.timers
  expired : v.expired = σ.expired
  connection : conn = σ.connection
  state : σ.Allows v.state_
  reset : σ.startsNext = true → ¬v.resetPending

/-- An attempt can be made at once. -/
structure Ready (v : Connector) : Prop where
  idle : At v none .idle
  state : v.state_ = .kDisconnected
  reset : ¬v.resetPending

/-- What an attempt of `v` has made of it. -/
structure Attempted (v y : Connector) (errno : ConnectErrno) : Prop where
  owned : Owned y
  correct : Correct y
  functors : y.pendingFunctors_ = v.pendingFunctors_
  handedOver : y.handedOver = v.handedOver
  connect : y.connect_ = v.connect_
  stage : ∃ σ, At y none σ ∧ (v.connect_ = true → errno.fatal = false → σ ≠ .idle)

theorem connect_eq (x : Connector) (errno : ConnectErrno) : x.connect errno =
    if errno.pending then connecting { x with socketsMade := x.socketsMade + 1 } x.socketsMade
    else if errno.fatal then close { x with socketsMade := x.socketsMade + 1 } x.socketsMade
    else retry { x with socketsMade := x.socketsMade + 1 } x.socketsMade := by
  cases errno <;> rfl

theorem startInLoop_eq (hstate : v.state_ = .kDisconnected) :
    v.startInLoop errno = if v.connect_ then v.connect errno else v := by
  rw [startInLoop, hstate, decide_eq_true rfl]
  rfl

theorem At.congr (h : At v conn σ) (hexists : y.destroyed = v.destroyed)
    (hstarts : y.pendingFunctors_.count .startInLoop = v.pendingFunctors_.count .startInLoop)
    (htimers : y.timers = v.timers) (hexpired : y.expired = v.expired)
    (hstate : y.state_ = v.state_) (hreset : y.resetPending → v.resetPending) : At y conn σ :=
  ⟨hexists.trans h.exists_, hstarts.trans h.starts, (congrArg _ htimers).trans h.timers,
    hexpired.trans h.expired, h.connection, hstate ▸ h.state, fun hs hy => h.reset hs (hreset hy)⟩

theorem At.timers_nil (h : At v conn .idle) : v.timers = [] := List.map_eq_nil_iff.mp h.timers

theorem connect_retry (x : Connector) (sockfd : ℕ) : (x.retry sockfd).connect_ = x.connect_ := by
  simp only [retry]
  split <;> rfl

/-- A failed socket is closed, and a timer is set if the connector is still to connect. -/
theorem at_retry (hexists : v.destroyed = false)
    (hstarts : v.pendingFunctors_.count .startInLoop = 0) (htimers : v.timers = [])
    (hexpired : v.expired = []) (sockfd : ℕ) :
    ∃ σ, At (v.retry sockfd) none σ ∧ (v.connect_ = true → σ ≠ .idle) := by
  cases hconnect : v.connect_ with
  | false =>
    have heq : v.retry sockfd = (v.close sockfd).setState .kDisconnected :=
      if_neg (hconnect ▸ Bool.false_ne_true)
    refine ⟨.idle, ?_, fun hne => absurd hne Bool.false_ne_true⟩
    rw [heq]
    refine ⟨hexists, hstarts, congrArg (List.map Prod.fst) htimers, hexpired, rfl, ?_,
      fun hs => absurd hs Bool.false_ne_true⟩
    intro hstate
    cases hstate
  | true =>
    have heq : v.retry sockfd =
        { ((v.close sockfd).setState .kDisconnected).runAfter v.retryDelayMs_ with
          retryDelayMs_ := min (v.retryDelayMs_ * 2) kMaxRetryDelayMs } := if_pos hconnect
    refine ⟨.retrying v.timersMade, ?_, fun _ hne => ?_⟩
    · rw [heq]
      refine ⟨hexists, hstarts, ?_, hexpired, rfl, rfl, fun hs => absurd hs Bool.false_ne_true⟩
      simp only [runAfter, setState, close, htimers]
      rfl
    · cases hne

/-- An attempt in a connector that is ready. -/
theorem Ready.startInLoop (h : Ready v) (howned : Owned v) (hcorrect : Correct v)
    (errno : ConnectErrno) : Attempted v (v.startInLoop errno) errno := by
  have hc : Correct (v.startInLoop errno) :=
    (hcorrect.startInLoop_iff howned errno).mpr
      ⟨(disconnected_iff.mp h.state).1, (disconnected_iff.mp h.state).2, fun _ _ => h.reset⟩
  have ho : Owned (v.startInLoop errno) :=
    howned.startInLoop (by rw [hc.asserted]; exact List.not_mem_nil)
  have hmade : At { v with socketsMade := v.socketsMade + 1 } none .idle :=
    h.idle.congr rfl rfl rfl rfl rfl id
  cases hconnect : v.connect_ with
  | false =>
    have heq : v.startInLoop errno = v := by
      rw [startInLoop_eq h.state, hconnect]
      rfl
    rw [heq]
    exact ⟨howned, hcorrect, rfl, rfl, rfl, .idle, h.idle,
      fun hne => absurd (hconnect.symm.trans hne) Bool.false_ne_true⟩
  | true =>
    have heq : v.startInLoop errno = v.connect errno := by
      rw [startInLoop_eq h.state, hconnect]
      rfl
    rw [heq] at hc ho ⊢
    cases hpending : errno.pending with
    | true =>
      have hnone : v.channel_ = none := by
        rw [howned.channel_none_iff]
        refine ⟨hcorrect.registered_false ?_, h.reset⟩
        rw [h.state]
        decide
      have hconnecting : v.connect errno = { v with
          socketsMade := v.socketsMade + 1
          state_ := .kConnecting
          channel_ := some ⟨v.socketsMade, true⟩ } := by
        rw [connect_eq, hpending, if_pos rfl, connecting]
        simp only [setState, hnone]
        rfl
      rw [hconnecting] at hc ho ⊢
      refine ⟨ho, hc, rfl, rfl, rfl, .connecting, ?_, fun _ _ hne => ?_⟩
      · exact ⟨h.idle.exists_, h.idle.starts, h.idle.timers, h.idle.expired, rfl, rfl,
          fun hs => absurd hs Bool.false_ne_true⟩
      · cases hne
    | false =>
      cases hfatal : errno.fatal with
      | true =>
        have hclose : v.connect errno =
            close { v with socketsMade := v.socketsMade + 1 } v.socketsMade := by
          rw [connect_eq, hpending, hfatal]
          rfl
        rw [hclose] at hc ho ⊢
        exact ⟨ho, hc, rfl, rfl, rfl, .idle, hmade.congr rfl rfl rfl rfl rfl id,
          fun _ hne => absurd (hne.symm.trans hfatal) Bool.false_ne_true⟩
      | false =>
        have hretry : v.connect errno =
            Connector.retry { v with socketsMade := v.socketsMade + 1 } v.socketsMade := by
          rw [connect_eq, hpending, hfatal]
          rfl
        rw [hretry] at hc ho ⊢
        obtain ⟨σ, hσ, hne⟩ := at_retry hmade.exists_ hmade.starts hmade.timers_nil
          hmade.expired v.socketsMade
        exact ⟨ho, hc, pendingFunctors_retry .., handedOver_retry .., connect_retry .., σ, hσ,
          fun hconnect _ => hne hconnect⟩

/-- A restart is an attempt, if the connector is not connecting and its channel is reset. -/
theorem At.restart (h : At v none .idle) (howned : Owned v) (hcorrect : Correct v)
    (hreset : ¬v.resetPending) (errno : ConnectErrno) :
    Attempted { v.setState .kDisconnected with
      retryDelayMs_ := kInitRetryDelayMs, connect_ := true } (v.restart errno) errno := by
  refine Ready.startInLoop (v := { v.setState .kDisconnected with
      retryDelayMs_ := kInitRetryDelayMs, connect_ := true })
    ⟨⟨h.exists_, h.starts, h.timers, h.expired, rfl, ?_, ?_⟩, rfl, hreset⟩
    (howned.congr rfl rfl rfl rfl rfl) ⟨hcorrect.asserted, ?_⟩ errno
  · intro hstate
    cases hstate
  · exact fun hs => absurd hs Bool.false_ne_true
  · have hreg : v.registered = false := hcorrect.registered_false h.state
    refine iff_of_false ?_ fun hstate => ?_
    · rw [Connector.registered] at hreg ⊢
      exact hreg ▸ Bool.false_ne_true
    · cases hstate

theorem Ready.start (h : Ready v) (howned : Owned v) (hcorrect : Correct v) (errno : ConnectErrno) :
    Attempted { v with connect_ := true } (v.start true errno) errno :=
  Ready.startInLoop (v := { v with connect_ := true })
    ⟨h.idle.congr rfl rfl rfl rfl rfl id, h.state, h.reset⟩ (howned.congr rfl rfl rfl rfl rfl)
      (hcorrect.congr rfl rfl rfl) errno

/-! ## The end of an attempt -/

/-- The ends of an attempt: nothing yet, a retry, a socket nobody wants any more, or one that is
handed over. -/
inductive Ended (v : Connector) : Connector → Prop
  | pending : Ended v v
  | retried (fd : ℕ) : Ended v ((v.removeAndResetChannel ⟨fd, true⟩).retry fd)
  | unwanted (fd : ℕ) (hconnect : v.connect_ = false) :
    Ended v (((v.removeAndResetChannel ⟨fd, true⟩).setState .kConnected).close fd)
  | handed (fd : ℕ) (hconnect : v.connect_ = true) :
    Ended v { (v.removeAndResetChannel ⟨fd, true⟩).setState .kConnected with
      handedOver := v.handedOver ++ [fd] }

/-- An event while the channel is registered. -/
theorem handleEvent_ended (hreg : v.registered = true) (hstate : v.state_ = .kConnecting)
    {revents : Revents} {err selfConnect : Bool}
    (hy : v.handleEvent revents err selfConnect = some y) : Ended v y := by
  obtain ⟨fd, hchannel⟩ := registered_iff.mp hreg
  have herror : v.handleError = some ((v.removeAndResetChannel ⟨fd, true⟩).retry fd) := by
    rw [handleError, hstate, decide_eq_true rfl]
    simp only [check, if_true, hchannel]
    rfl
  have hwrite : v.handleWrite err selfConnect = some y → Ended v y := by
    intro hy
    rw [handleWrite, if_pos hstate, hchannel, Option.map_some] at hy
    cases err with
    | true =>
      cases hy
      exact .retried fd
    | false =>
      cases selfConnect with
      | true =>
        cases hy
        exact .retried fd
      | false =>
        simp only [Bool.false_eq_true, if_false] at hy
        split at hy
        · next hconnect =>
          cases hy
          exact .handed fd hconnect
        · next hconnect =>
          cases hy
          exact .unwanted fd (Bool.eq_false_iff.mpr hconnect)
  rw [handleEvent_eq hreg] at hy
  cases hpollerr : revents.pollerr || revents.pollnval with
  | true =>
    rw [hpollerr, if_pos rfl, herror, Option.bind_some] at hy
    have hidle : ((v.removeAndResetChannel ⟨fd, true⟩).retry fd).state_ = .kDisconnected :=
      state_retry ..
    have hne : ((v.removeAndResetChannel ⟨fd, true⟩).retry fd).state_ ≠ .kConnecting := by
      rw [hidle]
      decide
    rw [handleWrite_idle hne, hidle, decide_eq_true rfl, check, if_pos rfl, ite_self] at hy
    cases hy
    exact .retried fd
  | false =>
    rw [hpollerr, if_neg Bool.false_ne_true, Option.bind_some] at hy
    cases hpollout : revents.pollout with
    | true =>
      rw [hpollout, if_pos rfl] at hy
      exact hwrite hy
    | false =>
      rw [hpollout, if_neg Bool.false_ne_true] at hy
      cases hy
      exact .pending

/-- What has become of the connector when its event has been handled; `fds` are the sockets it
has handed over. -/
structure Handled (v y : Connector) (fds : List ℕ) : Prop where
  functors : ∃ new, y.pendingFunctors_ = v.pendingFunctors_ ++ new ∧ ∀ f ∈ new, f = .resetChannel
  handedOver : y.handedOver = v.handedOver ++ fds
  connect : y.connect_ = v.connect_
  waiting : fds = [] → ∃ σ, At y none σ ∧ (v.connect_ = true → σ ≠ .idle)
  handed : fds ≠ [] → (∃ fd, fds = [fd]) ∧ v.connect_ = true ∧ At y none .idle ∧
    y.state_ = .kConnected

theorem At.ended (h : At v none .connecting) (hy : Ended v y) : ∃ fds, Handled v y fds := by
  have hidle {z : Connector} (hz : z.destroyed = v.destroyed)
      (hstarts : z.pendingFunctors_.count .startInLoop = v.pendingFunctors_.count .startInLoop)
      (htimers : z.timers = v.timers) (hexpired : z.expired = v.expired)
      (hstate : z.state_ = .kConnected) : At z none .idle := by
    refine ⟨hz.trans h.exists_, hstarts.trans h.starts, (congrArg _ htimers).trans h.timers,
      hexpired.trans h.expired, rfl, ?_, fun hs => absurd hs Bool.false_ne_true⟩
    change z.state_ ≠ .kConnecting
    rw [hstate]
    decide
  have hcount (fd : ℕ) : (v.removeAndResetChannel ⟨fd, true⟩).pendingFunctors_.count .startInLoop =
      v.pendingFunctors_.count .startInLoop := by
    simp [removeAndResetChannel, queueInLoop]
  cases hy with
  | pending =>
    refine ⟨[], ⟨[], (List.append_nil _).symm, fun f hf => absurd hf List.not_mem_nil⟩,
      (List.append_nil _).symm, rfl, fun _ => ?_,
      fun hne => absurd rfl hne⟩
    refine ⟨.connecting, h, fun _ hne => ?_⟩
    cases hne
  | retried fd =>
    refine ⟨[], ⟨[.resetChannel], ?_, fun f hf => List.mem_singleton.mp hf⟩, ?_, connect_retry ..,
      fun _ => ?_, fun hne => absurd rfl hne⟩
    · rw [pendingFunctors_retry]
      rfl
    · rw [handedOver_retry, List.append_nil]
      rfl
    · exact at_retry (v := v.removeAndResetChannel ⟨fd, true⟩) h.exists_
        ((hcount fd).trans h.starts) (List.map_eq_nil_iff.mp h.timers) h.expired fd
  | unwanted fd hconnect =>
    refine ⟨[], ⟨[.resetChannel], rfl, fun f hf => List.mem_singleton.mp hf⟩,
      (List.append_nil _).symm, rfl, fun _ => ?_,
      fun hne => absurd rfl hne⟩
    exact ⟨.idle, hidle rfl (hcount fd) rfl rfl rfl,
      fun hc => absurd (hconnect.symm.trans hc) Bool.false_ne_true⟩
  | handed fd hconnect =>
    refine ⟨[fd], ⟨[.resetChannel], rfl, fun f hf => List.mem_singleton.mp hf⟩, rfl, rfl,
      fun hnil => absurd hnil (List.cons_ne_nil _ _),
      fun _ => ⟨⟨fd, rfl⟩, hconnect, ?_, rfl⟩⟩
    exact hidle rfl (hcount fd) rfl rfl rfl

/-! ## Timers and functors -/

/-- A timer that is cancelled ends the attempt if it was the one set last. -/
theorem At.cancelInLoop (h : At v conn σ) (timerId : Option ℕ) :
    ∃ τ, At (v.cancelInLoop timerId) conn τ := by
  have hrest {τ : ClientStage} (htimers : (v.cancelInLoop timerId).timers.map Prod.fst = τ.timers)
      (hstarts : σ.starts = τ.starts) (hexpired : σ.expired = τ.expired)
      (hconn : σ.connection = τ.connection) (hstate : σ.Allows v.state_ → τ.Allows v.state_)
      (hreset : τ.startsNext = true → σ.startsNext = true) : At (v.cancelInLoop timerId) conn τ :=
    ⟨h.exists_, h.starts.trans hstarts, htimers, h.expired.trans hexpired,
      h.connection.trans hconn, hstate h.state, fun hs => h.reset (hreset hs)⟩
  cases hσ : σ with
  | retrying t =>
    have htimers := h.timers
    rw [hσ] at htimers hrest
    obtain ⟨⟨t', delay⟩, hlist, rfl⟩ := List.map_eq_singleton_iff.mp htimers
    by_cases heq : timerId = some t'
    · refine ⟨.idle, hrest ?_ rfl rfl rfl ?_ id⟩
      · simp [Connector.cancelInLoop, hlist, heq, ClientStage.timers]
      · intro hstate hconnecting
        cases (show v.state_ = .kDisconnected from hstate).symm.trans hconnecting
    · refine ⟨.retrying t', hrest ?_ rfl rfl rfl id id⟩
      simp [Connector.cancelInLoop, hlist, heq, ClientStage.timers]
  | _ =>
    have htimers := h.timers
    rw [hσ] at htimers hrest
    refine ⟨_, hrest ?_ rfl rfl rfl id id⟩
    simp only [Connector.cancelInLoop, List.map_eq_nil_iff.mp htimers]
    rfl

theorem At.setConnect (h : At v conn σ) (b : Bool) : At { v with connect_ := b } conn σ :=
  h.congr rfl rfl rfl rfl rfl id

theorem At.expire (h : At v conn σ) {timer : ℕ} (hin : timer ∈ v.timers.map Prod.fst)
    (hreset : ¬v.resetPending) :
    σ = .retrying timer ∧ At { v with
      timers := v.timers.filter fun t => t.1 ≠ timer
      expired := v.expired ++ [timer] } conn (.due timer) := by
  rw [h.timers] at hin
  cases σ with
  | retrying t =>
    cases List.mem_singleton.mp hin
    refine ⟨rfl, h.exists_, h.starts, ?_, ?_, h.connection, h.state, fun _ => hreset⟩
    · obtain ⟨⟨t', delay⟩, hlist, rfl⟩ := List.map_eq_singleton_iff.mp h.timers
      simp [hlist, ClientStage.timers]
    · rw [h.expired]
      rfl
  | _ => cases hin

/-- The callback of the expired timer comes when the connector is ready. -/
theorem At.timer (h : At v conn σ) {timer : ℕ} (hin : timer ∈ v.expired) :
    conn = none ∧ Ready { v with expired := v.expired.erase timer } := by
  have hexpired := h.expired
  rw [hexpired] at hin
  cases σ with
  | due t =>
    cases List.mem_singleton.mp hin
    have hstate : v.state_ = .kDisconnected := h.state
    refine ⟨h.connection, ⟨h.exists_, h.starts, h.timers, ?_, rfl, ?_, ?_⟩, hstate, h.reset rfl⟩
    · rw [hexpired]
      exact List.erase_cons_head ..
    · change v.state_ ≠ .kConnecting
      rw [hstate]
      decide
    · exact fun hs => absurd hs Bool.false_ne_true
  | _ => cases hin

/-- So does the functor that starts the connector. -/
theorem At.functor_startInLoop (h : At v conn σ) {rest : List ConnectorFunctor}
    (hqueue : v.pendingFunctors_ = .startInLoop :: rest) :
    conn = none ∧ Ready { v with pendingFunctors_ := rest } := by
  have hstarts := h.starts
  rw [hqueue, List.count_cons_self] at hstarts
  cases σ with
  | starting =>
    have hstate : v.state_ = .kDisconnected := h.state
    have hreset := h.reset rfl
    refine ⟨h.connection, ⟨h.exists_, Nat.succ.inj hstarts, h.timers, h.expired, rfl, ?_, ?_⟩,
      hstate, ?_⟩
    · change v.state_ ≠ .kConnecting
      rw [hstate]
      decide
    · exact fun hs => absurd hs Bool.false_ne_true
    · intro hin
      rw [resetPending, hqueue] at hreset
      exact hreset (List.mem_cons_of_mem _ hin)
  | _ => cases hstarts

end Connector

end ReactorNet
