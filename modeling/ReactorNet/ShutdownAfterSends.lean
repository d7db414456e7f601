import ReactorNet.ConnectionCloseOnce
import ReactorNet.TcpConnectionOutput

/-!
# Shutting down behind the messages of one caller

One thread sends messages and then calls `shutdown`. Its messages are in the queue of the
loop, in the output buffer or written, and the functor of `shutdown` is queued behind them;
but `shutdown` stores `kDisconnecting` at once, and `handleWrite` looks at nothing else
when it has drained the output buffer.
-/
namespace ReactorNet

def ConnFunctor.message : ConnFunctor → Option (List UInt8)
  | .sendInLoop message => some message
  | _ => none

/-- The message that a call has accepted and not queued yet. -/
def CallState.message : CallState → List UInt8
  | .sendTested message => message
  | _ => []

/-- The call has found the connection open and has not acted on it yet. -/
def CallState.tested : CallState → Bool
  | .sendTested _ | .shutdownTested => true
  | _ => false

theorem CallState.message_eq_nil {p : CallState} (h : p.tested = false) : p.message = [] := by
  cases p <;> simp_all [tested, message]

/-! ## The order of the queue -/

/-- No message is queued behind a shutdown. -/
def InOrder (queue : List ConnFunctor) : Prop :=
  queue.Pairwise fun f g => f = .shutdownInLoop → g.message = none

/-- The queue `q'` holds the messages of `q`, and no new shutdown. -/
structure SameMessages (q q' : List ConnFunctor) : Prop where
  messages : q'.filterMap ConnFunctor.message = q.filterMap ConnFunctor.message
  inOrder : InOrder q → InOrder q'
  shutdown : .shutdownInLoop ∈ q' → .shutdownInLoop ∈ q

theorem SameMessages.refl (q : List ConnFunctor) : SameMessages q q := ⟨rfl, id, id⟩

theorem InOrder.append {q fs : List ConnFunctor} (h : InOrder q)
    (hf : ∀ f ∈ fs, f.message = none) (hs : .shutdownInLoop ∉ fs) : InOrder (q ++ fs) := by
  refine List.pairwise_append.mpr ⟨h, ?_, fun _ _ f hin _ => hf f hin⟩
  exact List.Pairwise.imp_of_mem (fun hin _ _ heq => absurd (heq ▸ hin) hs)
    (List.pairwise_of_forall (fun _ _ => trivial) : fs.Pairwise fun _ _ => True)

/-- The last functor of a queue without shutdown may be anything. -/
theorem InOrder.push {q : List ConnFunctor} (h : InOrder q) {f : ConnFunctor}
    (hs : f.message = none ∨ .shutdownInLoop ∉ q) : InOrder (q ++ [f]) := by
  refine List.pairwise_append.mpr ⟨h, List.pairwise_singleton _ f, fun g hg f' hf hshut => ?_⟩
  obtain rfl := List.mem_singleton.mp hf
  exact hs.resolve_right fun hnot => hnot (hshut ▸ hg)

theorem sameMessages_append (q : List ConnFunctor) {fs : List ConnFunctor}
    (hf : ∀ f ∈ fs, f.message = none) (hs : .shutdownInLoop ∉ fs) : SameMessages q (q ++ fs) where
  messages := by
    rw [List.filterMap_append, List.filterMap_eq_nil_iff.mpr hf, List.append_nil]
  inOrder h := h.append hf hs
  shutdown h := (List.mem_append.mp h).resolve_right hs

theorem sameMessages_pop (f : ConnFunctor) (q : List ConnFunctor) (hf : f.message = none) :
    SameMessages (f :: q) q where
  messages := by simp [hf]
  inOrder h := (List.pairwise_cons.mp h).2
  shutdown h := List.mem_cons_of_mem f h

theorem TcpConnection.Queues.sameMessages {c c' : TcpConnection} {fs : List ConnFunctor}
    (h : Queues c c' fs) : SameMessages c.loop_.queued c'.loop_.queued := by
  rw [h.queued]
  refine sameMessages_append _ (fun f hf => ?_) fun hin => ?_
  · rcases h.callbacks f hf with rfl | ⟨size, rfl⟩ <;> rfl
  · rcases h.callbacks _ hin with he | ⟨size, he⟩ <;> cases he

namespace ServerRun

open TcpConnection GuardedRuns

def queuedMessages (s : ServerRun) : List (List UInt8) :=
  s.conn.loop_.queued.filterMap ConnFunctor.message

/-- What the caller has given to `send` and the loop has not got yet; the caller is a
thread, or the loop itself, whose messages the loop gets at once. -/
def waiting (s : ServerRun) (caller : Option ℕ) : List UInt8 :=
  s.queuedMessages.flatten ++ caller.elim [] fun t => (s.callers t).message

/-- The messages and the shutdown of the only caller are on their way in order. -/
structure Ordered (caller : Option ℕ) (s : ServerRun) : Prop where
  good : s.Good
  closes : s.lifecycle.closes = 0
  delivers : ∃ sent, Delivers s.conn sent ∧ s.accepted.flatten = sent ++ s.waiting caller
  others : ∀ t, caller ≠ some t → s.callers t = .idle
  inLoop : caller = none → s.queuedMessages = []
  inOrder : InOrder s.conn.loop_.queued
  early : s.conn.state_ ≠ .kDisconnecting → .shutdownInLoop ∉ s.conn.loop_.queued ∧
    s.conn.socket_.shutdownWrites = 0 ∧ ∀ t, s.callers t ≠ .shutdownStored
  late : s.conn.state_ = .kDisconnecting → ∀ t, (s.callers t).tested = false

/-- The write side is closed only when all bytes given to `send` have been written and no
message is left to be attempted. -/
def ShutDownLast (s : ServerRun) : Prop :=
  0 < s.conn.socket_.shutdownWrites →
    s.conn.socket_.written = s.accepted.flatten ∧ s.queuedMessages = []

def Flushed (s : ServerRun) : Prop :=
  0 < s.conn.socket_.shutdownWrites →
    s.conn.outputBuffer_.content = [] ∧ s.queuedMessages = []

variable {caller : Option ℕ} {s s' : ServerRun}

theorem Ordered.disconnecting (h : Ordered caller s) (hsw : 0 < s.conn.socket_.shutdownWrites) :
    s.conn.state_ = .kDisconnecting := by
  by_contra hstate
  exact Nat.ne_of_gt hsw (h.early hstate).2.1

/-- When the caller has called `shutdown`, only the queue still has messages for the loop. -/
theorem Ordered.waiting_eq (h : Ordered caller s) (hstate : s.conn.state_ = .kDisconnecting) :
    s.waiting caller = s.queuedMessages.flatten := by
  cases caller with
  | none => simp [waiting]
  | some t => simp [waiting, CallState.message_eq_nil (h.late hstate t)]

theorem Ordered.shutDownLast_iff (h : Ordered caller s) : s.ShutDownLast ↔ s.Flushed := by
  refine imp_congr_right fun hsw => and_congr_left fun hnone => ?_
  obtain ⟨sent, hd, haccepted⟩ := h.delivers
  rw [haccepted, h.waiting_eq (h.disconnecting hsw), hnone, List.flatten_nil, List.append_nil,
    ← hd.delivered, List.self_eq_append_right]

theorem Flushed.same (hf : s.Flushed)
    (hsw : s'.conn.socket_.shutdownWrites = s.conn.socket_.shutdownWrites)
    (hc : s.conn.outputBuffer_.content = [] → s'.conn.outputBuffer_.content = [])
    (hmessages : s'.queuedMessages = s.queuedMessages) : s'.Flushed := by
  intro hpos
  obtain ⟨hnil, hnone⟩ := hf (hsw ▸ hpos)
  exact ⟨hc hnil, hmessages.trans hnone⟩

/-- A step that neither hands a message over nor takes one out of the queue. -/
theorem Ordered.change (h : Ordered caller s) (hg : s'.Good) (hclosed : s'.lifecycle.closes = 0)
    (hmessages : s'.queuedMessages = s.queuedMessages)
    (hwaiting : ∀ t, (s'.callers t).message = (s.callers t).message)
    (hd : ∀ sent, Delivers s.conn sent → Delivers s'.conn sent) (ha : s'.accepted = s.accepted)
    (hothers : ∀ t, caller ≠ some t → s'.callers t = .idle) (hin : InOrder s'.conn.loop_.queued)
    (hearly : s'.conn.state_ ≠ .kDisconnecting → .shutdownInLoop ∉ s'.conn.loop_.queued ∧
      s'.conn.socket_.shutdownWrites = 0 ∧ ∀ t, s'.callers t ≠ .shutdownStored)
    (hlate : s'.conn.state_ = .kDisconnecting → ∀ t, (s'.callers t).tested = false) :
    Ordered caller s' where
  good := hg
  closes := hclosed
  delivers := by
    obtain ⟨sent, hsent, haccepted⟩ := h.delivers
    refine ⟨sent, hd sent hsent, ?_⟩
    simp only [ha, haccepted, waiting, hmessages, hwaiting]
  others := hothers
  inLoop hcaller := hmessages.trans (h.inLoop hcaller)
  inOrder := hin
  early := hearly
  late := hlate

/-- A step that leaves the caller alone and takes no message out of the queue. -/
theorem Ordered.congr (h : Ordered caller s) (hg : s'.Good) (hclosed : s'.lifecycle.closes = 0)
    (hq : SameMessages s.conn.loop_.queued s'.conn.loop_.queued)
    (hstate : s'.conn.state_ = s.conn.state_)
    (hd : ∀ sent, Delivers s.conn sent → Delivers s'.conn sent)
    (hsw : s.conn.state_ ≠ .kDisconnecting →
      s'.conn.socket_.shutdownWrites = s.conn.socket_.shutdownWrites)
    (hc : s'.callers = s.callers) (ha : s'.accepted = s.accepted) : Ordered caller s' := by
  refine h.change hg hclosed hq.messages (fun t => by rw [hc]) hd ha (hc ▸ h.others)
    (hq.inOrder h.inOrder) (fun hearly => ?_) fun hlate => hc ▸ h.late (hstate.symm.trans hlate)
  rw [hstate] at hearly
  obtain ⟨hshutdown, hzero, hstored⟩ := h.early hearly
  exact ⟨mt hq.shutdown hshutdown, (hsw hearly).trans hzero, hc ▸ hstored⟩

/-! ## One step -/

/-- The step is a `handleWrite` that drains the output buffer. -/
def drains (s : ServerRun) (a : ServerAction) : Bool :=
  match a with
  | .callback _ result =>
    match s.todo with
    | .writeCallback_ :: _ => s.conn.channel_.isWriting &&
        decide (s.conn.outputBuffer_.readableBytes ≤ result.getD 0)
    | _ => false
  | _ => false

/-- A `handleWrite` that drains the output buffer after `shutdown` has been called finds no
message in the queue. -/
def DrainsLast (s : ServerRun) (a : ServerAction) : Prop :=
  s.drains a = true → s.conn.state_ = .kDisconnecting → s.queuedMessages = []

instance (s : ServerRun) (a : ServerAction) : Decidable (DrainsLast s a) :=
  inferInstanceAs (Decidable (_ → _ → _))

/-- Whose call the action is. -/
def caller? : ServerAction → Option (Option ℕ)
  | .call thread _ => some (some thread)
  | .loopCall _ _ => some none
  | _ => none

/-- All calls are made by the one caller, and the connection is not closed. -/
def SingleCaller (caller : Option ℕ) (s : ServerRun) (a : ServerAction) : Prop :=
  s.entersHandleClose a = false ∧ ∀ c ∈ caller? a, c = caller

instance (caller : Option ℕ) (s : ServerRun) (a : ServerAction) :
    Decidable (SingleCaller caller s a) :=
  inferInstanceAs (Decidable (_ ∧ _))

structure Advances (caller : Option ℕ) (a : ServerAction) (s s' : ServerRun) : Prop where
  ordered : Ordered caller s'
  flushed_iff : s'.Flushed ↔ DrainsLast s a

theorem Ordered.closes_step {a : ServerAction} (h : Ordered caller s) (hs : s.step a = some s')
    (hdom : SingleCaller caller s a) : s'.lifecycle.closes = 0 := by
  rw [(h.good.moves hs).life.closes, h.closes, hdom.1]
  rfl

theorem drainsLast_of_not {a : ServerAction} (hn : s.drains a = false) : DrainsLast s a := by
  intro hdrains
  simp [hn] at hdrains

/-- A step that touches neither the output nor the caller, and takes no message. -/
theorem Ordered.advances {a : ServerAction} (h : Ordered caller s) (hf : s.Flushed)
    (hs : s.step a = some s') (hdom : SingleCaller caller s a) (hn : s.drains a = false)
    (hq : SameMessages s.conn.loop_.queued s'.conn.loop_.queued)
    (hconn : s'.conn.state_ = s.conn.state_ ∧ s'.conn.socket_ = s.conn.socket_ ∧
      s'.conn.outputBuffer_ = s.conn.outputBuffer_ ∧
      s'.conn.channel_.isWriting = s.conn.channel_.isWriting)
    (hc : s'.callers = s.callers) (ha : s'.accepted = s.accepted) : Advances caller a s s' := by
  obtain ⟨hstate, hsocket, houtput, hwriting⟩ := hconn
  have hsw := congrArg Socket.shutdownWrites hsocket
  have hdeliver (sent : List UInt8) (hd : Delivers s.conn sent) : Delivers s'.conn sent :=
    ⟨houtput ▸ hd.valid, by rw [hsocket, houtput, hd.delivered], by
      rw [hwriting, houtput]
      exact hd.watching⟩
  refine ⟨h.congr (h.good.step hs) (h.closes_step hs hdom) hq hstate hdeliver (fun _ => hsw) hc ha,
    ⟨fun _ => drainsLast_of_not hn, fun _ => hf.same hsw (fun hnil => ?_) hq.messages⟩⟩
  rwa [houtput]

/-! ### Callbacks of the channel -/

theorem Ordered.advances_handleWrite {rest : List ChannelCallback}
    {delivered : Option (List UInt8)} {result : Option ℕ} (h : Ordered caller s) (hf : s.Flushed)
    (htodo : s.todo = .writeCallback_ :: rest)
    (hs : s.step (.callback delivered result) =
      some { s with todo := rest, conn := s.conn.handleWrite result })
    (hdom : SingleCaller caller s (.callback delivered result)) :
    Advances caller (.callback delivered result) s
      { s with todo := rest, conn := s.conn.handleWrite result } := by
  obtain ⟨sent, hd, -⟩ := h.delivers
  have hdrains : s.drains (.callback delivered result) = true ↔ s.conn.channel_.isWriting = true ∧
      s.conn.outputBuffer_.readableBytes ≤ result.getD 0 := by
    simp [drains, htodo]
  have hkeep {fs : List ConnFunctor} (hq : Queues s.conn (s.conn.handleWrite result) fs)
      (hsw : s.conn.state_ ≠ .kDisconnecting → (s.conn.handleWrite result).socket_.shutdownWrites =
        s.conn.socket_.shutdownWrites) :
      Ordered caller { s with todo := rest, conn := s.conn.handleWrite result } :=
    h.congr (h.good.step hs) (h.closes_step hs hdom) hq.sameMessages hq.state
      (fun _ hsent => hsent.handleWrite result) hsw rfl rfl
  by_cases hn : s.drains (.callback delivered result) = true
  · obtain ⟨fs, hq, hnil, hsw⟩ := hd.handleWrite_drains (hdrains.mp hn).1 (hdrains.mp hn).2
    have hmessages := hq.sameMessages.messages
    refine ⟨hkeep hq fun hstate => by rw [hsw, if_neg hstate, Nat.add_zero], ?_⟩
    by_cases hstate : s.conn.state_ = .kDisconnecting
    · rw [if_pos hstate] at hsw
      constructor
      · intro hflushed _ _
        exact hmessages.symm.trans (hflushed (hsw ▸ Nat.succ_pos _)).2
      · intro hlast _
        exact ⟨hnil, hmessages.trans (hlast hn hstate)⟩
    · rw [if_neg hstate] at hsw
      exact ⟨fun _ _ hstate' => absurd hstate' hstate,
        fun _ => hf.same hsw (fun _ => hnil) hmessages⟩
  · obtain ⟨hq, hnil, hsw⟩ := hd.handleWrite_keeps (mt hdrains.mpr hn)
    exact ⟨hkeep hq fun _ => hsw,
      ⟨fun _ hdrain => absurd hdrain hn, fun _ => hf.same hsw hnil hq.sameMessages.messages⟩⟩

theorem Ordered.advances_callback {delivered : Option (List UInt8)} {result : Option ℕ}
    (h : Ordered caller s) (hf : s.Flushed)
    (hs : s.step (.callback delivered result) = some s')
    (hdom : SingleCaller caller s (.callback delivered result)) :
    Advances caller (.callback delivered result) s s' := by
  rcases htodo : s.todo with _ | ⟨cb, rest⟩
  · simp [step, callback, htodo] at hs
  · have hstep := hs
    have hclose := hdom.1
    simp only [step, callback, htodo, Option.some.injEq] at hstep
    simp only [entersHandleClose, htodo] at hclose
    subst hstep
    have hsame := SameMessages.refl s.conn.loop_.queued
    cases cb with
    | closeCallback_ => cases hclose
    | errorCallback_ =>
      exact h.advances hf hs hdom (by simp [drains, htodo]) hsame ⟨rfl, rfl, rfl, rfl⟩ rfl rfl
    | readCallback_ =>
      rcases delivered with _ | _ | ⟨byte, bytes⟩
      · exact h.advances hf hs hdom (by simp [drains, htodo]) hsame ⟨rfl, rfl, rfl, rfl⟩ rfl rfl
      · simp at hclose
      · exact h.advances hf hs hdom (by simp [drains, htodo]) hsame ⟨rfl, rfl, rfl, rfl⟩ rfl rfl
    | writeCallback_ => exact h.advances_handleWrite hf htodo hs hdom

/-! ### Functors -/

theorem Ordered.advances_sendInLoop {l : EventLoop ConnFunctor} {message : List UInt8}
    {result : Option ℕ} (h : Ordered caller s)
    (hl : s.conn.loop_.queued = .sendInLoop message :: l.queued) (hf : s.Flushed)
    (hs : s.step (.runFunctor result) =
      some { s with conn := { s.conn with loop_ := l }.sendInLoop message result })
    (hdom : SingleCaller caller s (.runFunctor result)) :
    Advances caller (.runFunctor result) s
      { s with conn := { s.conn with loop_ := l }.sendInLoop message result } := by
  obtain ⟨fs, hsends⟩ := { s.conn with loop_ := l }.sendInLoop_spec message result
  have hq := hsends.queues.sameMessages
  have hmessages : s.queuedMessages = message :: l.queued.filterMap ConnFunctor.message := by
    rw [queuedMessages, hl]
    rfl
  have hsw := congrArg Socket.shutdownWrites hsends.socket
  have hzero : s.conn.socket_.shutdownWrites = 0 := by
    refine Nat.eq_zero_of_not_pos fun hpos => ?_
    simpa [hmessages] using (hf hpos).2
  obtain ⟨sent, hd, haccepted⟩ := h.delivers
  refine ⟨⟨h.good.step hs, h.closes_step hs hdom, ⟨sent ++ message, ?_, ?_⟩, h.others, ?_, ?_, ?_,
    ?_⟩, ⟨fun _ => drainsLast_of_not rfl, fun _ hpos => ?_⟩⟩
  · have hpopped : Delivers { s.conn with loop_ := l } sent := ⟨hd.valid, hd.delivered, hd.watching⟩
    exact hpopped.sendInLoop message result
  · rw [haccepted, waiting, waiting, hmessages, queuedMessages, hq.messages]
    simp [List.append_assoc]
  · intro hcaller
    have := h.inLoop hcaller
    simp [hmessages] at this
  · have hin := h.inOrder
    rw [hl] at hin
    exact hq.inOrder (List.pairwise_cons.mp hin).2
  · intro hstate
    obtain ⟨hshutdown, -, hstored⟩ := h.early (hsends.queues.state ▸ hstate)
    rw [hl] at hshutdown
    exact ⟨mt hq.shutdown fun hin => hshutdown (List.mem_cons_of_mem _ hin), hsw.trans hzero,
      hstored⟩
  · exact fun hstate => h.late (hsends.queues.state ▸ hstate)
  · exact absurd (hsw.trans hzero) (Nat.ne_of_gt hpos)

/-- Behind the shutdown of the only caller the queue has no message. -/
theorem Ordered.shutdown_last (h : Ordered caller s) {q : List ConnFunctor}
    (hl : s.conn.loop_.queued = .shutdownInLoop :: q) :
    s.conn.state_ = .kDisconnecting ∧ q.filterMap ConnFunctor.message = [] := by
  have hin := h.inOrder
  rw [hl] at hin
  refine ⟨?_, List.filterMap_eq_nil_iff.mpr fun f hf => (List.pairwise_cons.mp hin).1 f hf rfl⟩
  by_contra hstate
  exact (h.early hstate).1 (hl ▸ List.mem_cons_self)

theorem Ordered.advances_shutdownInLoop {l : EventLoop ConnFunctor} {result : Option ℕ}
    (h : Ordered caller s) (hl : s.conn.loop_.queued = .shutdownInLoop :: l.queued)
    (hf : s.Flushed)
    (hs : s.step (.runFunctor result) =
      some { s with conn := { s.conn with loop_ := l }.shutdownInLoop })
    (hdom : SingleCaller caller s (.runFunctor result)) :
    Advances caller (.runFunctor result) s
      { s with conn := { s.conn with loop_ := l }.shutdownInLoop } := by
  obtain ⟨hstate, hnone⟩ := h.shutdown_last hl
  have heq := shutdownInLoop_eq { s.conn with loop_ := l }
  have hloop := congrArg TcpConnection.loop_ heq
  have hkept : ({ s.conn with loop_ := l }.shutdownInLoop).state_ = s.conn.state_ := by rw [heq]
  have houtput := congrArg TcpConnection.outputBuffer_ heq
  have hq : SameMessages s.conn.loop_.queued
      ({ s.conn with loop_ := l }.shutdownInLoop).loop_.queued := by
    rw [hloop, hl]
    exact sameMessages_pop _ _ rfl
  refine ⟨h.congr (h.good.step hs) (h.closes_step hs hdom) hq hkept
    (fun sent hd => Delivers.shutdownInLoop ⟨hd.valid, hd.delivered, hd.watching⟩)
    (absurd hstate) rfl rfl, ⟨fun _ => drainsLast_of_not rfl, fun _ hpos => ?_⟩⟩
  obtain ⟨sent, hd, -⟩ := h.delivers
  refine ⟨?_, by rw [queuedMessages, hloop]; exact hnone⟩
  rw [houtput]
  cases hwriting : s.conn.channel_.isWriting with
  | true =>
    rw [shutdownInLoop, if_pos hwriting] at hpos
    exact (hf hpos).1
  | false => simpa [hwriting] using hd.watching

/-- `newConnection` queues `connectEstablished` before there is anything to send. -/
theorem Ordered.advances_connectEstablished {l : EventLoop ConnFunctor} {result : Option ℕ}
    (h : Ordered caller s) (hl : s.conn.loop_.queued = .connectEstablished :: l.queued)
    (hf : s.Flushed)
    (hs : s.step (.runFunctor result) = some { s with conn.loop_ := l }.connectEstablished)
    (hdom : SingleCaller caller s (.runFunctor result)) :
    Advances caller (.runFunctor result) s { s with conn.loop_ := l }.connectEstablished := by
  have hq : SameMessages s.conn.loop_.queued l.queued := hl ▸ sameMessages_pop _ _ rfl
  have hnot : s.conn.state_ ≠ .kDisconnecting := by simp [(h.good.connecting hl).state]
  obtain ⟨hshutdown, hzero, hstored⟩ := h.early hnot
  obtain ⟨sent, hd, haccepted⟩ := h.delivers
  refine ⟨⟨h.good.step hs, h.closes_step hs hdom, ⟨sent, ?_, ?_⟩, h.others,
    fun hcaller => hq.messages.trans (h.inLoop hcaller), hq.inOrder h.inOrder,
    fun _ => ⟨mt hq.shutdown hshutdown, hzero, hstored⟩, fun hstate => ?_⟩,
    ⟨fun _ => drainsLast_of_not rfl, fun _ => hf.same rfl id hq.messages⟩⟩
  · have hwriting := LoopChannel.isWriting_enableReading s.conn.channel_
    exact ⟨hd.valid, hd.delivered, (Bool.eq_iff_iff.mp hwriting).trans hd.watching⟩
  · exact haccepted.trans (congrArg (fun ms => sent ++ (List.flatten ms ++ _)) hq.messages.symm)
  · cases hstate

theorem Ordered.advances_runFunctor {result : Option ℕ} (h : Ordered caller s) (hf : s.Flushed)
    (hs : s.step (.runFunctor result) = some s')
    (hdom : SingleCaller caller s (.runFunctor result)) :
    Advances caller (.runFunctor result) s s' := by
  obtain ⟨f, l, hnext, rfl⟩ := runFunctor_cases hs
  have hl := EventLoop.queued_next hnext
  have hpop (hmessage : f.message = none) : SameMessages s.conn.loop_.queued l.queued :=
    hl ▸ sameMessages_pop _ _ hmessage
  cases f with
  | connectEstablished => exact h.advances_connectEstablished hl hf hs hdom
  | sendInLoop message => exact h.advances_sendInLoop hl hf hs hdom
  | shutdownInLoop => exact h.advances_shutdownInLoop hl hf hs hdom
  | forceCloseInLoop =>
    have hopen : s.open? = false := by simpa [entersHandleClose, hnext] using hdom.1
    have heq : { s with conn.loop_ := l }.forceCloseInLoop = { s with conn.loop_ := l } :=
      if_neg (by simpa [open?] using hopen)
    simp only [runConnFunctor, heq] at hs ⊢
    exact h.advances hf hs hdom rfl (hpop rfl) ⟨rfl, rfl, rfl, rfl⟩ rfl rfl
  | connectDestroyed =>
    have hcloses := h.good.sound.closes_eq
    have hpos := (lifecycle_connectDestroyed hl).1
    rw [h.closes] at hcloses
    omega
  | writeCompleteCallback_ | highWaterMarkCallback_ size =>
    exact h.advances hf hs hdom rfl (hpop rfl) ⟨rfl, rfl, rfl, rfl⟩ rfl rfl

/-! ### Calls -/

theorem Ordered.idle (h : Ordered none s) (t : ℕ) : s.callers t = .idle :=
  h.others t (by simp)

/-- A message that the loop sends for itself is not queued. -/
theorem Ordered.advances_send {message : List UInt8} {result : Option ℕ} (h : Ordered none s)
    (hstate : s.conn.state_ = .kConnected)
    (hs : s.step (.loopCall (.send message) result) = some { s with
      accepted := s.accepted ++ [message], conn := s.conn.sendInLoop message result })
    (hdom : SingleCaller none s (.loopCall (.send message) result)) :
    Advances none (.loopCall (.send message) result) s { s with
      accepted := s.accepted ++ [message], conn := s.conn.sendInLoop message result } := by
  obtain ⟨fs, hsends⟩ := s.conn.sendInLoop_spec message result
  have hq := hsends.queues.sameMessages
  have hnone := h.inLoop rfl
  have hnot : s.conn.state_ ≠ .kDisconnecting := by simp [hstate]
  obtain ⟨hshutdown, hzero, hstored⟩ := h.early hnot
  have hsw := (congrArg Socket.shutdownWrites hsends.socket).trans hzero
  obtain ⟨sent, hd, haccepted⟩ := h.delivers
  have hkept : (s.conn.sendInLoop message result).loop_.queued.filterMap ConnFunctor.message = [] :=
    hq.messages.trans hnone
  refine ⟨⟨h.good.step hs, h.closes_step hs hdom, ⟨_, hd.sendInLoop message result, ?_⟩, h.others,
    fun _ => hkept, hq.inOrder h.inOrder, fun _ => ⟨mt hq.shutdown hshutdown, hsw, hstored⟩,
    fun hlate => absurd (hsends.queues.state.symm.trans hlate) hnot⟩,
    ⟨fun _ => drainsLast_of_not rfl, fun _ hpos => absurd hsw (Nat.ne_of_gt hpos)⟩⟩
  have hbefore : s.waiting none = [] := by simp [waiting, hnone]
  simp only [List.flatten_append, List.flatten_singleton, haccepted, hbefore, List.append_nil]
  simp [waiting, queuedMessages, hkept]

theorem Ordered.advances_shutdown {result : Option ℕ} (h : Ordered none s)
    (hstate : s.conn.state_ = .kConnected)
    (hs : s.step (.loopCall .shutdown result) =
      some { s with conn := (s.conn.setState .kDisconnecting).shutdownInLoop })
    (hdom : SingleCaller none s (.loopCall .shutdown result)) :
    Advances none (.loopCall .shutdown result) s
      { s with conn := (s.conn.setState .kDisconnecting).shutdownInLoop } := by
  have heq := shutdownInLoop_eq (s.conn.setState .kDisconnecting)
  have hloop : ((s.conn.setState .kDisconnecting).shutdownInLoop).loop_ = s.conn.loop_ := by
    rw [heq]
    rfl
  have hkept : ((s.conn.setState .kDisconnecting).shutdownInLoop).state_ = .kDisconnecting := by
    rw [heq]
    rfl
  have houtput := congrArg TcpConnection.outputBuffer_ heq
  obtain ⟨sent, hd, -⟩ := h.delivers
  refine ⟨h.change (h.good.step hs) (h.closes_step hs hdom) ?_ (fun _ => rfl)
    (fun sent hd => Delivers.shutdownInLoop ⟨hd.valid, hd.delivered, hd.watching⟩) rfl h.others
    (hloop ▸ h.inOrder) (absurd hkept) fun _ t => by rw [h.idle t]; rfl,
    ⟨fun _ => drainsLast_of_not rfl, fun _ hpos => ⟨?_, ?_⟩⟩⟩
  · rw [queuedMessages, hloop, queuedMessages]
  · rw [houtput]
    cases hwriting : s.conn.channel_.isWriting with
    | true =>
      have hzero := (h.early (by simp [hstate])).2.1
      have hwriting' : (s.conn.setState .kDisconnecting).channel_.isWriting = true := hwriting
      rw [shutdownInLoop, if_pos hwriting'] at hpos
      exact absurd hzero (Nat.ne_of_gt hpos)
    | false => simpa [hwriting, setState] using hd.watching
  · rw [queuedMessages, hloop]
    exact h.inLoop rfl

theorem Ordered.advances_forceClose {result : Option ℕ} (h : Ordered none s) (hf : s.Flushed)
    (hs : s.step (.loopCall .forceClose result) =
      some { s with conn := (s.conn.setState .kDisconnecting).queueInLoop .forceCloseInLoop })
    (hdom : SingleCaller none s (.loopCall .forceClose result)) :
    Advances none (.loopCall .forceClose result) s
      { s with conn := (s.conn.setState .kDisconnecting).queueInLoop .forceCloseInLoop } := by
  have hq : SameMessages s.conn.loop_.queued
      ((s.conn.setState .kDisconnecting).queueInLoop .forceCloseInLoop).loop_.queued := by
    rw [queued_queueInLoop]
    exact sameMessages_append _ (by simp [ConnFunctor.message]) (by simp)
  exact ⟨h.change (h.good.step hs) (h.closes_step hs hdom) hq.messages (fun _ => rfl)
    (fun sent hd => ⟨hd.valid, hd.delivered, hd.watching⟩) rfl h.others (hq.inOrder h.inOrder)
    (absurd rfl) fun _ t => by rw [h.idle t]; rfl,
    ⟨fun _ => drainsLast_of_not rfl, fun _ => hf.same rfl id hq.messages⟩⟩

theorem Ordered.advances_loopCall {call : Call} {result : Option ℕ} (h : Ordered caller s)
    (hf : s.Flushed) (hs : s.step (.loopCall call result) = some s')
    (hdom : SingleCaller caller s (.loopCall call result)) :
    Advances caller (.loopCall call result) s s' := by
  obtain rfl : none = caller := hdom.2 none rfl
  obtain rfl := loopCall_cases hs
  have hsame := SameMessages.refl s.conn.loop_.queued
  cases call with
  | send message =>
    by_cases hstate : s.conn.state_ = .kConnected
    · simp only [callInLoop, send, hstate, if_true] at hs ⊢
      exact h.advances_send hstate hs hdom
    · simp only [callInLoop, send, hstate, if_false] at hs ⊢
      exact h.advances hf hs hdom rfl hsame ⟨rfl, rfl, rfl, rfl⟩ rfl rfl
  | shutdown =>
    by_cases hstate : s.conn.state_ = .kConnected
    · simp only [callInLoop, shutdown, hstate, if_true] at hs ⊢
      exact h.advances_shutdown hstate hs hdom
    · simp only [callInLoop, shutdown, hstate, if_false] at hs ⊢
      exact h.advances hf hs hdom rfl hsame ⟨rfl, rfl, rfl, rfl⟩ rfl rfl
  | forceClose =>
    simp only [callInLoop, forceClose] at hs ⊢
    split at hs
    · rename_i hopen
      rw [if_pos hopen]
      exact h.advances_forceClose hf hs hdom
    · rename_i hopen
      rw [if_neg hopen]
      exact h.advances hf hs hdom rfl hsame ⟨rfl, rfl, rfl, rfl⟩ rfl rfl

/-- The callers after one of them, the only one, has got further. -/
theorem callers_update {thread : ℕ} {p : CallState} {P : CallState → Prop} (hp : P p)
    (h : ∀ t, P (s.callers t)) (t : ℕ) : P (Function.update s.callers thread p t) := by
  rcases eq_or_ne t thread with rfl | hne
  · rwa [Function.update_self]
  · rw [Function.update_of_ne hne]
    exact h t

theorem Ordered.others_update {thread : ℕ} (h : Ordered (some thread) s) {p : CallState} (t : ℕ)
    (ht : some thread ≠ some t) : Function.update s.callers thread p t = .idle := by
  rw [Function.update_of_ne fun he => ht (congrArg some he.symm)]
  exact h.others t ht

theorem message_update {thread : ℕ} {p : CallState}
    (hp : p.message = (s.callers thread).message) (t : ℕ) :
    (Function.update s.callers thread p t).message = (s.callers t).message := by
  rcases eq_or_ne t thread with rfl | hne
  · rwa [Function.update_self]
  · rw [Function.update_of_ne hne]

/-- The caller has got further without handing over a message. -/
theorem Ordered.advances_setCaller {a : ServerAction} {thread : ℕ} {p : CallState}
    (h : Ordered (some thread) s) (hf : s.Flushed)
    (hs : s.step a = some (s.setCaller thread p)) (hdom : SingleCaller (some thread) s a)
    (hn : s.drains a = false) (hp : p.message = (s.callers thread).message)
    (hstored : p ≠ .shutdownStored)
    (htested : s.conn.state_ = .kDisconnecting → p.tested = false) :
    Advances (some thread) a s (s.setCaller thread p) := by
  refine ⟨h.change (h.good.step hs) (h.closes_step hs hdom) rfl (message_update hp)
    (fun _ => id) rfl h.others_update h.inOrder (fun hstate => ?_) fun hstate => ?_,
    ⟨fun _ => drainsLast_of_not hn, fun _ => hf⟩⟩
  · obtain ⟨hshutdown, hzero, hnot⟩ := h.early hstate
    exact ⟨hshutdown, hzero, callers_update (P := (· ≠ .shutdownStored)) hstored hnot⟩
  · exact callers_update (P := fun q => q.tested = false) (htested hstate) (h.late hstate)

theorem Ordered.advances_call {thread : ℕ} {call : Call} (h : Ordered caller s) (hf : s.Flushed)
    (hs : s.step (.call thread call) = some s')
    (hdom : SingleCaller caller s (.call thread call)) :
    Advances caller (.call thread call) s s' := by
  obtain rfl : some thread = caller := hdom.2 _ rfl
  have hstep := hs
  simp only [step, ServerRun.call, Option.ite_none_right_eq_some, Option.some.injEq] at hstep
  obtain ⟨hidle, rfl⟩ := hstep
  have hsame := SameMessages.refl s.conn.loop_.queued
  cases call with
  | send message =>
    by_cases hstate : s.conn.state_ = .kConnected
    · simp only [hstate, if_true] at hs ⊢
      have hnot : s.conn.state_ ≠ .kDisconnecting := by simp [hstate]
      obtain ⟨hshutdown, hzero, hstored⟩ := h.early hnot
      obtain ⟨sent, hd, haccepted⟩ := h.delivers
      refine ⟨⟨h.good.step hs, h.closes_step hs hdom, ⟨sent, hd, ?_⟩, h.others_update,
        fun hcaller => absurd hcaller (by simp), h.inOrder,
        fun _ => ⟨hshutdown, hzero,
          callers_update (P := (· ≠ .shutdownStored)) (by simp) hstored⟩,
        fun hlate => absurd hlate hnot⟩, ⟨fun _ => drainsLast_of_not rfl, fun _ => hf⟩⟩
      simp [setCaller, haccepted, waiting, queuedMessages, CallState.message, hidle]
    · simp only [hstate, if_false] at hs ⊢
      exact h.advances hf hs hdom rfl hsame ⟨rfl, rfl, rfl, rfl⟩ rfl rfl
  | shutdown =>
    by_cases hstate : s.conn.state_ = .kConnected
    · simp only [hstate, if_true] at hs ⊢
      exact h.advances_setCaller hf hs hdom rfl (by simp [hidle, CallState.message]) (by simp)
        (by simp [hstate])
    · simp only [hstate, if_false] at hs ⊢
      exact h.advances hf hs hdom rfl hsame ⟨rfl, rfl, rfl, rfl⟩ rfl rfl
  | forceClose =>
    cases hopen : s.open? with
    | true =>
      simp only [hopen, if_true] at hs ⊢
      exact h.advances_setCaller hf hs hdom rfl (by simp [hidle, CallState.message]) (by simp)
        fun _ => rfl
    | false =>
      simp only [hopen, Bool.false_eq_true, if_false] at hs ⊢
      exact h.advances hf hs hdom rfl hsame ⟨rfl, rfl, rfl, rfl⟩ rfl rfl

/-- Another thread queues its message while the state is still `kConnected`. -/
theorem Ordered.advances_queueSend {thread : ℕ} {message : List UInt8}
    (h : Ordered (some thread) s) (hcaller : s.callers thread = .sendTested message)
    (hs : s.step (.resume thread) = some (s.queueFromThread thread (.sendInLoop message)))
    (hdom : SingleCaller (some thread) s (.resume thread)) :
    Advances (some thread) (.resume thread) s
      (s.queueFromThread thread (.sendInLoop message)) := by
  have hnot : s.conn.state_ ≠ .kDisconnecting := by
    intro hstate
    have := h.late hstate thread
    simp [hcaller, CallState.tested] at this
  obtain ⟨hshutdown, hzero, hstored⟩ := h.early hnot
  obtain ⟨sent, hd, haccepted⟩ := h.delivers
  have hqueued : (s.queueFromThread thread (.sendInLoop message)).conn.loop_.queued =
      s.conn.loop_.queued ++ [.sendInLoop message] := EventLoop.queued_queueInLoop ..
  refine ⟨⟨h.good.step hs, h.closes_step hs hdom, ⟨sent, ?_, ?_⟩, h.others_update,
    fun hcaller => absurd hcaller (by simp), ?_, fun _ => ⟨?_, hzero, ?_⟩,
    fun hlate => absurd hlate hnot⟩,
    ⟨fun _ => drainsLast_of_not rfl, fun _ hpos => absurd hzero (Nat.ne_of_gt hpos)⟩⟩
  · exact ⟨hd.valid, hd.delivered, hd.watching⟩
  · refine haccepted.trans ?_
    simp [waiting, queuedMessages, hcaller, CallState.message, ConnFunctor.message,
      queueFromThread, setCaller]
  · rw [hqueued]
    exact h.inOrder.push (Or.inr hshutdown)
  · simp [hqueued, hshutdown]
  · exact callers_update (P := (· ≠ .shutdownStored)) (by simp) hstored

/-- The shutdown is queued behind all messages; from here on the caller has none. -/
theorem Ordered.advances_queueShutdown {thread : ℕ} (h : Ordered (some thread) s)
    (hf : s.Flushed) (hcaller : s.callers thread = .shutdownStored)
    (hs : s.step (.resume thread) = some (s.queueFromThread thread .shutdownInLoop))
    (hdom : SingleCaller (some thread) s (.resume thread)) :
    Advances (some thread) (.resume thread) s (s.queueFromThread thread .shutdownInLoop) := by
  have hstate : s.conn.state_ = .kDisconnecting := by
    by_contra hnot
    exact (h.early hnot).2.2 thread hcaller
  have hqueued : (s.queueFromThread thread .shutdownInLoop).conn.loop_.queued =
      s.conn.loop_.queued ++ [.shutdownInLoop] := EventLoop.queued_queueInLoop ..
  have hmessages : (s.queueFromThread thread .shutdownInLoop).queuedMessages = s.queuedMessages := by
    simp [queuedMessages, hqueued, ConnFunctor.message]
  refine ⟨h.change (h.good.step hs) (h.closes_step hs hdom) hmessages
    (message_update (by rw [hcaller]; rfl)) (fun _ hd => ⟨hd.valid, hd.delivered, hd.watching⟩)
    rfl h.others_update ?_ (absurd hstate)
    (fun _ => callers_update (P := fun q => q.tested = false) rfl (h.late hstate)),
    ⟨fun _ => drainsLast_of_not rfl, fun _ => hf.same rfl id hmessages⟩⟩
  rw [hqueued]
  exact h.inOrder.push (Or.inl rfl)

theorem Ordered.advances_queueForceClose {thread : ℕ} (h : Ordered (some thread) s)
    (hf : s.Flushed) (hcaller : s.callers thread = .forceCloseStored)
    (hs : s.step (.resume thread) = some (s.queueFromThread thread .forceCloseInLoop))
    (hdom : SingleCaller (some thread) s (.resume thread)) :
    Advances (some thread) (.resume thread) s (s.queueFromThread thread .forceCloseInLoop) := by
  have hq : SameMessages s.conn.loop_.queued
      (s.queueFromThread thread .forceCloseInLoop).conn.loop_.queued := by
    rw [queueFromThread, setCaller, EventLoop.queued_queueInLoop]
    exact sameMessages_append _ (by simp [ConnFunctor.message]) (by simp)
  refine ⟨h.change (h.good.step hs) (h.closes_step hs hdom) hq.messages
    (message_update (by rw [hcaller]; rfl)) (fun _ hd => ⟨hd.valid, hd.delivered, hd.watching⟩)
    rfl h.others_update (hq.inOrder h.inOrder) (fun hstate => ?_)
    (fun hstate => callers_update (P := fun q => q.tested = false) rfl (h.late hstate)),
    ⟨fun _ => drainsLast_of_not rfl, fun _ => hf.same rfl id hq.messages⟩⟩
  obtain ⟨hshutdown, hzero, hstored⟩ := h.early hstate
  exact ⟨mt hq.shutdown hshutdown, hzero,
    callers_update (P := (· ≠ .shutdownStored)) (by simp) hstored⟩

/-- The caller stores the state; it has nothing left to queue but a shutdown or a close. -/
theorem Ordered.advances_store {thread : ℕ} {p : CallState} (h : Ordered (some thread) s)
    (hf : s.Flushed) (hp : p.tested = false) (hm : p.message = (s.callers thread).message)
    (hs : s.step (.resume thread) =
      some ({ s with conn := s.conn.setState .kDisconnecting }.setCaller thread p))
    (hothers : ∀ t, t ≠ thread → s.callers t = .idle)
    (hdom : SingleCaller (some thread) s (.resume thread)) :
    Advances (some thread) (.resume thread) s
      ({ s with conn := s.conn.setState .kDisconnecting }.setCaller thread p) := by
  refine ⟨h.change (h.good.step hs) (h.closes_step hs hdom) rfl (message_update hm)
    (fun _ hd => ⟨hd.valid, hd.delivered, hd.watching⟩) rfl h.others_update h.inOrder
    (absurd rfl) (fun _ t => ?_), ⟨fun _ => drainsLast_of_not rfl, fun _ => hf⟩⟩
  rcases eq_or_ne t thread with rfl | hne
  · simpa [setCaller] using hp
  · simp [setCaller, Function.update_of_ne hne, hothers t hne, CallState.tested]

theorem Ordered.advances_resume {thread : ℕ} (h : Ordered caller s) (hf : s.Flushed)
    (hs : s.step (.resume thread) = some s') (hdom : SingleCaller caller s (.resume thread)) :
    Advances caller (.resume thread) s s' := by
  have hstep := hs
  simp only [step, resume] at hstep
  by_cases hcaller : caller = some thread
  · subst hcaller
    have hothers (t : ℕ) (hne : t ≠ thread) : s.callers t = .idle :=
      h.others t fun he => hne (Option.some.inj he).symm
    cases hstate : s.callers thread <;> simp only [hstate, Option.some.injEq, reduceCtorEq] at hstep <;>
      subst hstep
    case sendTested message => exact h.advances_queueSend hstate hs hdom
    case shutdownTested => exact h.advances_store hf rfl (by rw [hstate]; rfl) hs hothers hdom
    case shutdownStored => exact h.advances_queueShutdown hf hstate hs hdom
    case forceCloseTested => exact h.advances_store hf rfl (by rw [hstate]; rfl) hs hothers hdom
    case forceCloseStored => exact h.advances_queueForceClose hf hstate hs hdom
  · simp [h.others thread hcaller] at hstep

/-! ### Every step -/

theorem Ordered.advances_step {a : ServerAction} (h : Ordered caller s) (hf : s.Flushed)
    (hs : s.step a = some s') (hdom : SingleCaller caller s a) : Advances caller a s s' := by
  have hsame := SameMessages.refl s.conn.loop_.queued
  cases a with
  | acceptOther =>
    cases hs
    exact h.advances hf rfl hdom rfl hsame ⟨rfl, rfl, rfl, rfl⟩ rfl rfl
  | eraseOther name =>
    obtain ⟨-, rfl⟩ := eraseOther_cases hs
    exact h.advances hf hs hdom rfl hsame ⟨rfl, rfl, rfl, rfl⟩ rfl rfl
  | baseLoop a =>
    obtain ⟨l, -, rfl⟩ := baseLoop_cases hs
    exact h.advances hf hs hdom rfl hsame ⟨rfl, rfl, rfl, rfl⟩ rfl rfl
  | baseFunctor =>
    obtain ⟨l, hl, -⟩ := baseFunctor_cases hs
    have hcloses := h.good.sound.closes_eq
    have hpos := (lifecycle_baseFunctor hl).1
    rw [h.closes] at hcloses
    omega
  | poll revents =>
    obtain ⟨-, l, hl, rfl⟩ := poll_cases hs
    exact h.advances hf hs hdom rfl (by rw [EventLoop.queued_act hl]; exact hsame)
      ⟨rfl, rfl, rfl, rfl⟩ rfl rfl
  | handleEvent =>
    obtain ⟨r, -, -, rfl⟩ := handleEvent_cases hs
    exact h.advances hf hs hdom rfl hsame ⟨rfl, rfl, rfl, rfl⟩ rfl rfl
  | callback delivered result => exact h.advances_callback hf hs hdom
  | loop a =>
    obtain ⟨-, -, l, hl, rfl⟩ := loopAct_cases hs
    exact h.advances hf hs hdom rfl (by rw [EventLoop.queued_act hl]; exact hsame)
      ⟨rfl, rfl, rfl, rfl⟩ rfl rfl
  | runFunctor result => exact h.advances_runFunctor hf hs hdom
  | loopCall call result => exact h.advances_loopCall hf hs hdom
  | call thread call => exact h.advances_call hf hs hdom
  | resume thread => exact h.advances_resume hf hs hdom

/-! ## Runs -/

theorem ordered_newConnection (caller : Option ℕ) (sharedLoop : Bool) (nextConnId : ℕ)
    (others : List ℕ) (this fd : ℕ) (callbacks : Callbacks) :
    Ordered caller (newConnection sharedLoop nextConnId others this fd callbacks) where
  good := good_newConnection ..
  closes := by rw [lifecycle_newConnection]
  delivers := by
    refine ⟨[], ?_, ?_⟩
    · cases sharedLoop with
      | true => exact delivers_established ..
      | false => exact ⟨Buffer.valid_fresh, Buffer.content_fresh, by simp [newConnection, construct,
          LoopChannel.construct, LoopChannel.isWriting, Interest.kNoneEvent, Buffer.content_fresh]⟩
    · cases sharedLoop <;> cases caller <;> rfl
  others t _ := by cases sharedLoop <;> rfl
  inLoop _ := by cases sharedLoop <;> rfl
  inOrder := by
    cases sharedLoop with
    | true => exact List.Pairwise.nil
    | false => exact List.pairwise_singleton _ ConnFunctor.connectEstablished
  early _ := by
    refine ⟨?_, by cases sharedLoop <;> rfl, fun t => ?_⟩
    · cases sharedLoop with
      | true => exact List.not_mem_nil
      | false => exact mt List.mem_singleton.mp (by simp)
    · cases sharedLoop <;> simp [newConnection, connectEstablished, record]
  late hstate := by cases sharedLoop <;> cases hstate

theorem shutDownLast_newConnection (sharedLoop : Bool) (nextConnId : ℕ) (others : List ℕ)
    (this fd : ℕ) (callbacks : Callbacks) :
    (newConnection sharedLoop nextConnId others this fd callbacks).ShutDownLast := by
  intro hpos
  have hzero : (newConnection sharedLoop nextConnId others this fd
      callbacks).conn.socket_.shutdownWrites = 0 := by cases sharedLoop <;> rfl
  exact absurd hzero (Nat.ne_of_gt hpos)

/-- In a run in which one thread, or the loop itself, makes all calls and the connection is
not closed, the write side is shut down only when every byte given to `send` has been
written and no message is left to be attempted, exactly when a `handleWrite` that drains
the output buffer after `shutdown` has been called finds no message in the queue. -/
theorem shut_down_last_iff_drains_last (caller : Option ℕ) (sharedLoop : Bool) (nextConnId : ℕ)
    (others : List ℕ) (this fd : ℕ) (callbacks : Callbacks) (as : List ServerAction)
    (s : ServerRun)
    (hdom : Meets step (SingleCaller caller)
      (newConnection sharedLoop nextConnId others this fd callbacks) as)
    (hr : run step (newConnection sharedLoop nextConnId others this fd callbacks) as = some s) :
    Throughout step ShutDownLast
        (newConnection sharedLoop nextConnId others this fd callbacks) as ↔
      Meets step DrainsLast
        (newConnection sharedLoop nextConnId others this fd callbacks) as := by
  have hordered := ordered_newConnection caller sharedLoop nextConnId others this fd callbacks
  refine throughout_iff_meets
    (fun t a t' h hp hd hs => (h.advances_step (h.shutDownLast_iff.mp hp) hs hd).ordered)
    (fun t a t' h hp hd hs => ?_) hordered
    (shutDownLast_newConnection sharedLoop nextConnId others this fd callbacks) hdom hr
  obtain ⟨ht, hflushed⟩ := h.advances_step (h.shutDownLast_iff.mp hp) hs hd
  rw [ht.shutDownLast_iff, hflushed]

/-- What the loop itself sends before it calls `shutdown` is always written first. -/
theorem shut_down_last_inLoop (sharedLoop : Bool) (nextConnId : ℕ) (others : List ℕ)
    (this fd : ℕ) (callbacks : Callbacks) (as : List ServerAction) (s : ServerRun)
    (hdom : Meets step (SingleCaller none)
      (newConnection sharedLoop nextConnId others this fd callbacks) as)
    (hr : run step (newConnection sharedLoop nextConnId others this fd callbacks) as = some s) :
    Throughout step ShutDownLast
      (newConnection sharedLoop nextConnId others this fd callbacks) as := by
  have hordered := ordered_newConnection none sharedLoop nextConnId others this fd callbacks
  refine (throughout_iff_meets
    (fun t a t' h hp hd hs => (h.advances_step (h.shutDownLast_iff.mp hp) hs hd).ordered)
    (fun t a t' h hp hd hs => ?_) hordered
    (shutDownLast_newConnection sharedLoop nextConnId others this fd callbacks) hdom hr).mpr
    (Meets.of_forall (fun _ _ => True.intro) _ as)
  obtain ⟨ht, hflushed⟩ := h.advances_step (h.shutDownLast_iff.mp hp) hs hd
  rw [ht.shutDownLast_iff, hflushed, iff_true]
  exact fun _ _ => h.inLoop rfl

/-- Another thread has sent a message, of which the kernel has taken the first byte. -/
def writtenInPart : List ServerAction :=
  [.poll none, .loop .doPendingFunctors, .runFunctor none, .loop .endPendingFunctors,
    .call 1 (.send [1, 1]), .resume 1, .poll none, .loop .doPendingFunctors,
    .runFunctor (some 1), .loop .endPendingFunctors]

/-- The thread queues another message, and `shutdown` stores the state. -/
def sendAndShutDown : List ServerAction :=
  [.call 1 (.send [2]), .resume 1, .call 1 .shutdown, .resume 1]

/-- The socket is writable, and the kernel takes the second byte. -/
def drainOutput : List ServerAction :=
  [.poll (some ⟨false, false, true, false, false, false, false⟩), .handleEvent,
    .callback none (some 1)]

theorem shut_down_last_fails : ¬ ∀ (as : List ServerAction) (s : ServerRun),
    Meets step (SingleCaller (some 1)) (newConnection false 0 [] 5 3 Callbacks.default) as →
      run step (newConnection false 0 [] 5 3 Callbacks.default) as = some s →
        Throughout step ShutDownLast (newConnection false 0 [] 5 3 Callbacks.default) as := by
  intro h
  obtain ⟨s, hs, he⟩ : ∃ s, run step (newConnection false 0 [] 5 3 Callbacks.default)
      (writtenInPart ++ sendAndShutDown ++ drainOutput) = some s ∧
        (s.conn.socket_, s.queuedMessages, s.accepted) = (⟨[1, 1], 1⟩, [[2]], [[1, 1], [2]]) :=
    Option.map_eq_some_iff.mp (by decide +kernel)
  simp only [Prod.mk.injEq] at he
  have hlast := (h _ s (by decide +kernel) hs).last hs (by rw [he.1]; exact Nat.one_pos)
  simp [he.2.1] at hlast

/-- Here the output buffer is drained before the message and the shutdown are queued. -/
theorem shut_down_last_drained : ∃ s,
    run step (newConnection false 0 [] 5 3 Callbacks.default)
        (writtenInPart ++ drainOutput ++ sendAndShutDown ++ [.resume 1, .loop .doPendingFunctors,
          .runFunctor (some 1), .runFunctor none]) = some s ∧
      s.conn.socket_ = ⟨[1, 1, 2], 1⟩ ∧
      Throughout step ShutDownLast (newConnection false 0 [] 5 3 Callbacks.default)
        (writtenInPart ++ drainOutput ++ sendAndShutDown ++ [.resume 1, .loop .doPendingFunctors,
          .runFunctor (some 1), .runFunctor none]) := by
  obtain ⟨s, hs, hsocket⟩ : ∃ s, run step (newConnection false 0 [] 5 3 Callbacks.default)
      (writtenInPart ++ drainOutput ++ sendAndShutDown ++ [.resume 1, .loop .doPendingFunctors,
        .runFunctor (some 1), .runFunctor none]) = some s ∧ s.conn.socket_ = ⟨[1, 1, 2], 1⟩ :=
    Option.map_eq_some_iff.mp (by decide +kernel)
  exact ⟨s, hs, hsocket, (shut_down_last_iff_drains_last (some 1) false 0 [] 5 3 Callbacks.default _
    s (by decide +kernel) hs).mpr (by decide +kernel)⟩

end ServerRun

end ReactorNet
