import ReactorNet.Buffer
import ReactorNet.EPollPoller
import ReactorNet.EventLoop

/-!
# One TCP connection in its I/O loop

The connection with its socket, its channel and the functor queue of its loop. The
kernel's answer to a `write` is an argument of the functions that write: `none` is a
failure, `some n` the number of bytes accepted, at most all of them. A callback that
the user may leave unset is a flag.
-/
namespace ReactorNet

inductive StateE where
  | kConnecting
  | kConnected
  | kDisconnecting
  | kDisconnected
deriving DecidableEq

/-- The functors that the loop of a connection is given. -/
inductive ConnFunctor where
  | connectEstablished
  | sendInLoop (message : List UInt8)
  | shutdownInLoop
  | forceCloseInLoop
  | connectDestroyed
  | writeCompleteCallback_
  | highWaterMarkCallback_ (size : ℕ)
deriving DecidableEq

/-- What has been done to the socket: the bytes it accepted and the calls of
`shutdownWrite`. -/
structure Socket where
  written : List UInt8
  shutdownWrites : ℕ
deriving DecidableEq

namespace Socket

def write (s : Socket) (data : List UInt8) (result : Option ℕ) : Option ℕ × Socket :=
  match result with
  | some n => (some (min n data.length), { s with written := s.written ++ data.take n })
  | none => (none, s)

def shutdownWrite (s : Socket) : Socket := { s with shutdownWrites := s.shutdownWrites + 1 }

end Socket

/-- What the user has set on a connection. The message callback is known by what it leaves
of the input buffer; its calls on the connection are calls of the loop thread. -/
structure Callbacks where
  messageCallback_ : Buffer → Buffer
  writeCompleteCallback_ : Bool
  highWaterMarkCallback_ : Bool
  highWaterMark_ : ℕ

/-- The callbacks of a server whose user has set none. -/
def Callbacks.default : Callbacks := ⟨Buffer.retrieveAll, false, false, 0⟩

structure TcpConnection where
  loop_ : EventLoop ConnFunctor
  name_ : ℕ
  state_ : StateE
  socket_ : Socket
  channel_ : LoopChannel
  callbacks : Callbacks
  inputBuffer_ : Buffer
  outputBuffer_ : Buffer

namespace TcpConnection

/-- A connection on a descriptor that its loop does not watch yet; `this` is the address of
its channel. -/
def construct (loop : EventLoop ConnFunctor) (name this fd : ℕ) (callbacks : Callbacks) :
    TcpConnection where
  loop_ := loop
  name_ := name
  state_ := .kConnecting
  socket_ := ⟨[], 0⟩
  channel_ := LoopChannel.construct this fd
  callbacks := callbacks
  inputBuffer_ := Buffer.fresh
  outputBuffer_ := Buffer.fresh

variable (c : TcpConnection)

def queueInLoop (cb : ConnFunctor) : TcpConnection :=
  { c with loop_ := c.loop_.queueInLoop true cb }

def setState (s : StateE) : TcpConnection := { c with state_ := s }

def setChannel (x : LoopChannel) : TcpConnection := { c with channel_ := x }

/-- Queue the callback if the user has set it. -/
def writeComplete : TcpConnection :=
  if c.callbacks.writeCompleteCallback_ then c.queueInLoop .writeCompleteCallback_ else c

def shutdownInLoop : TcpConnection :=
  if c.channel_.isWriting then c else { c with socket_ := c.socket_.shutdownWrite }

/-- `shutdown` called in the loop thread. -/
def shutdown : TcpConnection :=
  if c.state_ = .kConnected then (c.setState .kDisconnecting).shutdownInLoop else c

/-- The direct write of `sendInLoop`; returns `nwrote`. -/
def writeDirect (message : List UInt8) (result : Option ℕ) : TcpConnection × ℕ :=
  match c.socket_.write message result with
  | (some n, socket) =>
    let c := { c with socket_ := socket }
    if n < message.length then (c, n) else (c.writeComplete, n)
  | (none, _) => (c, 0)

/-- Queue the callback if the user has set it and the output has reached the mark. -/
def checkHighWaterMark (oldLen remaining : ℕ) : TcpConnection :=
  if c.callbacks.highWaterMark_ ≤ oldLen + remaining ∧ oldLen < c.callbacks.highWaterMark_ ∧
      c.callbacks.highWaterMarkCallback_ = true then
    c.queueInLoop (.highWaterMarkCallback_ (oldLen + remaining))
  else c

/-- Append to the output buffer and watch for writability. -/
def appendOutput (rest : List UInt8) : TcpConnection :=
  let c := { c with outputBuffer_ := c.outputBuffer_.append rest }
  if c.channel_.isWriting then c else c.setChannel c.channel_.enableWriting

def sendInLoop (message : List UInt8) (result : Option ℕ) : TcpConnection :=
  let (c, nwrote) :=
    if c.channel_.isWriting = false ∧ c.outputBuffer_.readableBytes = 0 then
      c.writeDirect message result
    else (c, 0)
  if nwrote < message.length then
    (c.checkHighWaterMark c.outputBuffer_.readableBytes (message.length - nwrote)).appendOutput
      (message.drop nwrote)
  else c

/-- `send` called in the loop thread. -/
def send (message : List UInt8) (result : Option ℕ) : TcpConnection :=
  if c.state_ = .kConnected then c.sendInLoop message result else c

/-- The part of `handleWrite` for an output buffer that has run empty. -/
def drained : TcpConnection :=
  let c := (c.setChannel c.channel_.disableWriting).writeComplete
  if c.state_ = .kDisconnecting then c.shutdownInLoop else c

def handleWrite (result : Option ℕ) : TcpConnection :=
  if c.channel_.isWriting then
    match c.socket_.write c.outputBuffer_.content result with
    | (some (n + 1), socket) =>
      let c := { c with socket_ := socket, outputBuffer_ := c.outputBuffer_.retrieve (n + 1) }
      if c.outputBuffer_.readableBytes = 0 then c.drained else c
    | _ => c
  else c

/-- `forceClose` called in the loop thread. -/
def forceClose : TcpConnection :=
  if c.state_ = .kConnected ∨ c.state_ = .kDisconnecting then
    (c.setState .kDisconnecting).queueInLoop .forceCloseInLoop
  else c

/-- `connectEstablished` up to the connection callback. -/
def connectEstablished : TcpConnection :=
  (c.setState .kConnected).setChannel c.channel_.enableReading

/-- `connectDestroyed` without the connection callback. -/
def connectDestroyed : TcpConnection :=
  (c.setState .kDisconnected).setChannel c.channel_.disableAll.remove

/-! ## What the functions do, field by field -/

@[simp] theorem queued_queueInLoop (cb : ConnFunctor) :
    (c.queueInLoop cb).loop_.queued = c.loop_.queued ++ [cb] := EventLoop.queued_queueInLoop ..

@[simp] theorem phase_queueInLoop (cb : ConnFunctor) :
    (c.queueInLoop cb).loop_.phase = c.loop_.phase := EventLoop.phase_queueInLoop ..

/-- `c'` is `c` after user callbacks have been queued: nothing else of the loop and
neither the name nor the state has changed. -/
structure Queues (c c' : TcpConnection) (callbacks : List ConnFunctor) : Prop where
  queued : c'.loop_.queued = c.loop_.queued ++ callbacks
  callbacks : ∀ f ∈ callbacks,
    f = .writeCompleteCallback_ ∨ ∃ size, f = .highWaterMarkCallback_ size
  phase : c'.loop_.phase = c.loop_.phase
  name : c'.name_ = c.name_
  state : c'.state_ = c.state_

theorem Queues.refl (c : TcpConnection) : Queues c c [] where
  queued := (List.append_nil _).symm
  callbacks _ h := (List.not_mem_nil h).elim
  phase := rfl
  name := rfl
  state := rfl

theorem Queues.trans {c c' c'' : TcpConnection} {fs gs : List ConnFunctor} (h : Queues c c' fs)
    (h' : Queues c' c'' gs) : Queues c c'' (fs ++ gs) where
  queued := by rw [h'.queued, h.queued, List.append_assoc]
  callbacks f hf := (List.mem_append.mp hf).elim (h.callbacks f) (h'.callbacks f)
  phase := h'.phase.trans h.phase
  name := h'.name.trans h.name
  state := h'.state.trans h.state

theorem queues_queueInLoop {cb : ConnFunctor}
    (h : cb = .writeCompleteCallback_ ∨ ∃ size, cb = .highWaterMarkCallback_ size) :
    Queues c (c.queueInLoop cb) [cb] where
  queued := queued_queueInLoop c cb
  callbacks _ hf := List.mem_singleton.mp hf ▸ h
  phase := phase_queueInLoop c cb
  name := rfl
  state := rfl

theorem shutdownInLoop_eq :
    c.shutdownInLoop = { c with socket_ := c.shutdownInLoop.socket_ } := by
  rw [shutdownInLoop]
  split <;> rfl

/-- What `sendInLoop` hands to the kernel at once. -/
def sentNow (message : List UInt8) (result : Option ℕ) : List UInt8 :=
  if c.channel_.isWriting = false ∧ c.outputBuffer_.readableBytes = 0 then
    message.take (result.getD 0)
  else []

/-- What `sendInLoop` leaves for the output buffer. -/
def unsent (message : List UInt8) (result : Option ℕ) : List UInt8 :=
  if c.channel_.isWriting = false ∧ c.outputBuffer_.readableBytes = 0 then
    message.drop (result.getD 0)
  else message

theorem sentNow_append_unsent (message : List UInt8) (result : Option ℕ) :
    c.sentNow message result ++ c.unsent message result = message := by
  simp only [sentNow, unsent]
  split <;> simp

theorem writeComplete_spec :
    ∃ fs, Queues c c.writeComplete fs ∧ c.writeComplete = { c with loop_ := c.writeComplete.loop_ } := by
  rw [writeComplete]
  split
  · exact ⟨_, queues_queueInLoop c (Or.inl rfl), rfl⟩
  · exact ⟨[], Queues.refl c, rfl⟩

theorem checkHighWaterMark_spec (oldLen remaining : ℕ) :
    ∃ fs, Queues c (c.checkHighWaterMark oldLen remaining) fs ∧ .writeCompleteCallback_ ∉ fs ∧
      c.checkHighWaterMark oldLen remaining =
        { c with loop_ := (c.checkHighWaterMark oldLen remaining).loop_ } := by
  rw [checkHighWaterMark]
  split
  · exact ⟨_, queues_queueInLoop c (Or.inr ⟨_, rfl⟩), by simp, rfl⟩
  · exact ⟨[], Queues.refl c, List.not_mem_nil, rfl⟩

theorem appendOutput_spec (rest : List UInt8) :
    Queues c (c.appendOutput rest) [] ∧ (c.appendOutput rest).socket_ = c.socket_ ∧
      (c.appendOutput rest).outputBuffer_ = c.outputBuffer_.append rest ∧
      (c.appendOutput rest).channel_ =
        if c.channel_.isWriting then c.channel_ else c.channel_.enableWriting := by
  simp only [appendOutput]
  split
  · exact ⟨⟨(List.append_nil _).symm, fun _ h => (List.not_mem_nil h).elim, rfl, rfl, rfl⟩,
      rfl, rfl, rfl⟩
  · exact ⟨⟨(List.append_nil _).symm, fun _ h => (List.not_mem_nil h).elim, rfl, rfl, rfl⟩,
      rfl, rfl, rfl⟩

/-- What `sendInLoop` has done when it returns. -/
structure Sends (c c' : TcpConnection) (now rest : List UInt8) (callbacks : List ConnFunctor) :
    Prop where
  queues : Queues c c' callbacks
  socket : c'.socket_ = { c.socket_ with written := c.socket_.written ++ now }
  output : c'.outputBuffer_ = if rest = [] then c.outputBuffer_ else c.outputBuffer_.append rest
  channel : c'.channel_ =
    if rest = [] ∨ c.channel_.isWriting = true then c.channel_ else c.channel_.enableWriting
  complete : .writeCompleteCallback_ ∈ callbacks →
    rest = [] ∧ c.outputBuffer_.readableBytes = 0 ∧ c.channel_.isWriting = false

theorem sends_rest {c' : TcpConnection} {now rest : List UInt8} (hq : Queues c c' [])
    (hs : c'.socket_ = { c.socket_ with written := c.socket_.written ++ now })
    (hc : c'.channel_ = c.channel_) (ho : c'.outputBuffer_ = c.outputBuffer_) (hr : rest ≠ []) :
    ∃ fs, Sends c ((c'.checkHighWaterMark c'.outputBuffer_.readableBytes
      rest.length).appendOutput rest) now rest fs := by
  obtain ⟨fs, hqueue, hnot, heq⟩ :=
    c'.checkHighWaterMark_spec c'.outputBuffer_.readableBytes rest.length
  generalize c'.checkHighWaterMark c'.outputBuffer_.readableBytes rest.length = d at hqueue heq
  obtain ⟨hqueue', hsocket, houtput, hchannel⟩ := d.appendOutput_spec rest
  refine ⟨fs, ⟨?_, ?_, ?_, ?_, fun hin => absurd hin hnot⟩⟩
  · simpa using (hq.trans hqueue).trans hqueue'
  · rw [hsocket, heq, hs]
  · rw [houtput, heq, if_neg hr, ho]
  · rw [hchannel, heq, hc]
    simp [hr]

/-- Nothing has been written yet, and the message goes to the buffer. -/
theorem sends_later (message : List UInt8) : ∃ fs, Sends c
    (if 0 < message.length then
      (c.checkHighWaterMark c.outputBuffer_.readableBytes message.length).appendOutput message
    else c) [] message fs := by
  split
  · exact sends_rest c (Queues.refl c) (by simp) rfl rfl (List.ne_nil_of_length_pos ‹_›)
  · have hnil : message = [] := by simpa using ‹¬ 0 < message.length›
    exact ⟨[], Queues.refl c, by simp, by simp [hnil], by simp [hnil],
      fun hin => (List.not_mem_nil hin).elim⟩

theorem sendInLoop_spec (message : List UInt8) (result : Option ℕ) :
    ∃ fs, Sends c (c.sendInLoop message result) (c.sentNow message result)
      (c.unsent message result) fs := by
  by_cases hdirect : c.channel_.isWriting = false ∧ c.outputBuffer_.readableBytes = 0
  · simp only [sendInLoop, sentNow, unsent, if_pos hdirect]
    cases result with
    | none =>
      simp only [writeDirect, Socket.write, Option.getD_none, List.drop_zero, List.take_zero]
      exact sends_later c message
    | some n =>
      simp only [writeDirect, Socket.write, Option.getD_some]
      by_cases hn : n < message.length
      · have hmin : min n message.length = n := Nat.min_eq_left (Nat.le_of_lt hn)
        simp only [hmin, hn, if_true]
        rw [← List.length_drop]
        exact sends_rest c ⟨(List.append_nil _).symm, fun _ h => (List.not_mem_nil h).elim,
          rfl, rfl, rfl⟩ rfl rfl rfl (by simpa using hn)
      · have hmin : min n message.length = message.length := Nat.min_eq_right (Nat.le_of_not_lt hn)
        have hdrop : message.drop n = [] := List.drop_of_length_le (Nat.le_of_not_lt hn)
        simp only [hmin, Nat.lt_irrefl, if_false, hdrop]
        obtain ⟨fs, hq, heq⟩ := writeComplete_spec
          { c with socket_ := { c.socket_ with written := c.socket_.written ++ message.take n } }
        refine ⟨fs, ⟨hq.queued, hq.callbacks, hq.phase, hq.name, hq.state⟩, ?_, ?_, ?_,
          fun _ => ⟨rfl, hdirect.2, hdirect.1⟩⟩
        · rw [heq]
        · rw [heq]
          simp
        · rw [heq]
          simp
  · simp only [sendInLoop, sentNow, unsent, if_neg hdirect]
    exact sends_later c message

theorem drained_spec :
    ∃ fs, Queues c c.drained fs ∧ c.drained.outputBuffer_ = c.outputBuffer_ ∧
      c.drained.channel_ = c.channel_.disableWriting ∧ c.drained.socket_ =
        if c.state_ = .kDisconnecting then c.socket_.shutdownWrite else c.socket_ := by
  obtain ⟨fs, hq, heq⟩ := (c.setChannel c.channel_.disableWriting).writeComplete_spec
  simp only [drained]
  generalize (c.setChannel c.channel_.disableWriting).writeComplete = d at hq heq
  have hwriting : d.channel_.isWriting = false := by
    rw [heq]
    exact LoopChannel.isWriting_disableWriting c.channel_
  have hstate : d.state_ = c.state_ := hq.state
  refine ⟨fs, ?_⟩
  rw [hstate]
  split
  · rw [shutdownInLoop, hwriting]
    refine ⟨⟨hq.queued, hq.callbacks, hq.phase, hq.name, hq.state⟩, ?_⟩
    rw [heq]
    exact ⟨rfl, rfl, rfl⟩
  · refine ⟨⟨hq.queued, hq.callbacks, hq.phase, hq.name, hq.state⟩, ?_⟩
    rw [heq]
    exact ⟨rfl, rfl, rfl⟩

/-- The kernel has accepted the first `n` bytes of the output buffer. -/
def wrote (n : ℕ) : TcpConnection :=
  { c with
    socket_ := { c.socket_ with written := c.socket_.written ++ c.outputBuffer_.content.take n }
    outputBuffer_ := c.outputBuffer_.retrieve n }

/-- What `handleWrite` does: nothing, or some bytes are written and the buffer may be
drained. -/
theorem handleWrite_cases (result : Option ℕ) :
    (c.handleWrite result = c ∧ (c.channel_.isWriting = true →
        min (result.getD 0) c.outputBuffer_.content.length = 0)) ∨
      ∃ n, c.channel_.isWriting = true ∧ 0 < n ∧
        n = min (result.getD 0) c.outputBuffer_.content.length ∧ c.handleWrite result =
          if (c.wrote n).outputBuffer_.readableBytes = 0 then (c.wrote n).drained
          else c.wrote n := by
  cases hwriting : c.channel_.isWriting with
  | false => exact Or.inl ⟨by simp [handleWrite, hwriting], by simp⟩
  | true =>
    cases result with
    | none => exact Or.inl ⟨by simp [handleWrite, hwriting, Socket.write], by simp⟩
    | some k =>
      rcases hn : min k c.outputBuffer_.content.length with _ | n
      · exact Or.inl ⟨by simp [handleWrite, hwriting, Socket.write, hn], fun _ => hn⟩
      · refine Or.inr ⟨n + 1, rfl, Nat.succ_pos n, hn.symm, ?_⟩
        have htake : c.outputBuffer_.content.take k = c.outputBuffer_.content.take (n + 1) := by
          rw [← hn, ← List.take_eq_take_min]
        simp only [handleWrite, hwriting, Socket.write, hn, htake, if_true, wrote]
        rfl

end TcpConnection

end ReactorNet
