import ReactorNet.BufferByteQueue
import ReactorNet.TcpConnection

/-!
# The output of a connection

Between the establishment of a connection and its close, the bytes the kernel has
accepted followed by the output buffer are the messages given to `sendInLoop`, and the
channel watches for writability exactly as long as the buffer has bytes.
-/
namespace ReactorNet.TcpConnection

/-- `sent` is what `sendInLoop` has been given so far. -/
structure Delivers (c : TcpConnection) (sent : List UInt8) : Prop where
  valid : c.outputBuffer_.Valid
  delivered : c.socket_.written ++ c.outputBuffer_.content = sent
  watching : c.channel_.isWriting = true ↔ c.outputBuffer_.content ≠ []

variable {c c' : TcpConnection} {sent : List UInt8}

theorem readableBytes_eq_zero (h : c.outputBuffer_.Valid) :
    c.outputBuffer_.readableBytes = 0 ↔ c.outputBuffer_.content = [] := by
  rw [← h.length_content, List.length_eq_zero_iff]

theorem Delivers.idle (h : Delivers c sent) :
    (c.channel_.isWriting = false ∧ c.outputBuffer_.readableBytes = 0) ↔
      c.outputBuffer_.content = [] := by
  rw [readableBytes_eq_zero h.valid, and_iff_right_iff_imp]
  intro hnil
  simpa [hnil] using h.watching

/-- What goes to the kernel and what goes to the buffer follow what was there. -/
theorem Delivers.sends (h : Delivers c sent) {message : List UInt8} {result : Option ℕ}
    {fs : List ConnFunctor}
    (hs : Sends c c' (c.sentNow message result) (c.unsent message result) fs) :
    Delivers c' (sent ++ message) := by
  have hsplit := c.sentNow_append_unsent message result
  have hdeliver : c.socket_.written ++ c.sentNow message result ++
      (c.outputBuffer_.content ++ c.unsent message result) = sent ++ message := by
    by_cases hidle : c.outputBuffer_.content = []
    · rw [← h.delivered, hidle, List.append_nil, List.nil_append, List.append_assoc, hsplit]
    · have hnow : c.sentNow message result = [] := if_neg (mt h.idle.mp hidle)
      have hrest : c.unsent message result = message := if_neg (mt h.idle.mp hidle)
      rw [hnow, hrest, List.append_nil, ← h.delivered, List.append_assoc]
  by_cases hrest : c.unsent message result = []
  · have hout : c'.outputBuffer_ = c.outputBuffer_ := by rw [hs.output, if_pos hrest]
    have hchannel : c'.channel_ = c.channel_ := by rw [hs.channel, if_pos (Or.inl hrest)]
    refine ⟨hout ▸ h.valid, ?_, by rw [hchannel, hout]; exact h.watching⟩
    rw [hs.socket, hout, ← hdeliver, hrest, List.append_nil]
  · obtain ⟨hv, hc, -⟩ := h.valid.append (c.unsent message result)
    have hout : c'.outputBuffer_ = c.outputBuffer_.append (c.unsent message result) := by
      rw [hs.output, if_neg hrest]
    refine ⟨hout ▸ hv, ?_, ?_⟩
    · rw [hs.socket, hout, hc, ← hdeliver]
    · have hwriting : c'.channel_.isWriting = true := by
        rw [hs.channel]
        cases hw : c.channel_.isWriting with
        | true => simpa using hw
        | false => simp [hrest]
      rw [hout, hc]
      simp [hwriting, hrest]

theorem Delivers.sendInLoop (h : Delivers c sent) (message : List UInt8) (result : Option ℕ) :
    Delivers (c.sendInLoop message result) (sent ++ message) := by
  obtain ⟨fs, hs⟩ := c.sendInLoop_spec message result
  exact h.sends hs

theorem Delivers.wrote (h : Delivers c sent) {n : ℕ} (hn : n ≤ c.outputBuffer_.content.length) :
    (c.wrote n).outputBuffer_.Valid ∧
      (c.wrote n).outputBuffer_.content = c.outputBuffer_.content.drop n ∧
      (c.wrote n).socket_.written ++ (c.wrote n).outputBuffer_.content = sent := by
  rw [h.valid.length_content] at hn
  obtain ⟨hv, hc⟩ := h.valid.retrieve hn
  refine ⟨hv, hc, ?_⟩
  rw [← h.delivered]
  simp only [TcpConnection.wrote, hc, List.append_assoc, List.take_append_drop]

theorem Delivers.drained {d : TcpConnection} (hv : d.outputBuffer_.Valid)
    (hd : d.socket_.written ++ d.outputBuffer_.content = sent)
    (hnil : d.outputBuffer_.content = []) : Delivers d.drained sent := by
  obtain ⟨fs, -, hout, hchannel, hsocket⟩ := d.drained_spec
  refine ⟨hout ▸ hv, ?_, ?_⟩
  · rw [hout, ← hd, hsocket]
    split <;> rfl
  · rw [hout, hnil, hchannel]
    simp

theorem Delivers.handleWrite (h : Delivers c sent) (result : Option ℕ) :
    Delivers (c.handleWrite result) sent := by
  rcases c.handleWrite_cases result with ⟨heq, -⟩ | ⟨n, hwriting, -, hn, heq⟩
  · rw [heq]
    exact h
  · obtain ⟨hv, hc, hd⟩ := h.wrote (n := n) (hn ▸ Nat.min_le_right ..)
    rw [heq]
    by_cases hempty : (c.wrote n).outputBuffer_.readableBytes = 0
    · rw [if_pos hempty]
      exact Delivers.drained hv hd ((readableBytes_eq_zero hv).mp hempty)
    · rw [if_neg hempty]
      refine ⟨hv, hd, ?_⟩
      exact ⟨fun _ => mt (readableBytes_eq_zero hv).mpr hempty, fun _ => hwriting⟩

theorem Delivers.shutdownInLoop (h : Delivers c sent) : Delivers c.shutdownInLoop sent := by
  rw [TcpConnection.shutdownInLoop]
  split
  · exact h
  · exact ⟨h.valid, h.delivered, h.watching⟩

theorem Delivers.shutdown (h : Delivers c sent) : Delivers c.shutdown sent := by
  rw [TcpConnection.shutdown]
  split
  · exact Delivers.shutdownInLoop ⟨h.valid, h.delivered, h.watching⟩
  · exact h

/-- A `handleWrite` for which the kernel takes all bytes leaves the buffer empty, and shuts
the write side down when `shutdown` has been called. -/
theorem Delivers.handleWrite_drains (h : Delivers c sent) {result : Option ℕ}
    (hw : c.channel_.isWriting = true)
    (hle : c.outputBuffer_.readableBytes ≤ result.getD 0) :
    ∃ fs, Queues c (c.handleWrite result) fs ∧
      (c.handleWrite result).outputBuffer_.content = [] ∧
      (c.handleWrite result).socket_.shutdownWrites =
        c.socket_.shutdownWrites + if c.state_ = .kDisconnecting then 1 else 0 := by
  have hmin : min (result.getD 0) c.outputBuffer_.content.length =
      c.outputBuffer_.content.length :=
    Nat.min_eq_right (h.valid.length_content ▸ hle)
  rcases c.handleWrite_cases result with ⟨-, hzero⟩ | ⟨n, -, -, hn, heq⟩
  · have hnil := List.eq_nil_of_length_eq_zero (hmin ▸ hzero hw)
    exact absurd hnil (h.watching.mp hw)
  · obtain ⟨hv, hc, -⟩ := h.wrote (n := n) (hn ▸ Nat.min_le_right ..)
    have hnil : (c.wrote n).outputBuffer_.content = [] := by
      rw [hc, hn, hmin, List.drop_length]
    obtain ⟨fs, hq, hout, -, hsocket⟩ := (c.wrote n).drained_spec
    rw [heq, if_pos ((readableBytes_eq_zero hv).mpr hnil)]
    refine ⟨fs, ⟨hq.queued, hq.callbacks, hq.phase, hq.name, hq.state⟩, hout ▸ hnil, ?_⟩
    rw [hsocket]
    have hstate : (c.wrote n).state_ = c.state_ := rfl
    rw [hstate]
    split <;> rfl

theorem Delivers.handleWrite_keeps (h : Delivers c sent) {result : Option ℕ}
    (hn : ¬ (c.channel_.isWriting = true ∧ c.outputBuffer_.readableBytes ≤ result.getD 0)) :
    Queues c (c.handleWrite result) [] ∧
      (c.outputBuffer_.content = [] → (c.handleWrite result).outputBuffer_.content = []) ∧
      (c.handleWrite result).socket_.shutdownWrites = c.socket_.shutdownWrites := by
  rcases c.handleWrite_cases result with ⟨heq, -⟩ | ⟨n, hw, -, hmin, heq⟩
  · rw [heq]
    exact ⟨Queues.refl c, id, rfl⟩
  · have hlt : result.getD 0 < c.outputBuffer_.content.length := by
      rw [h.valid.length_content]
      exact Nat.lt_of_not_le fun hle => hn ⟨hw, hle⟩
    obtain ⟨hv, hc, -⟩ := h.wrote (n := n) (hmin ▸ Nat.min_le_right ..)
    have hne : (c.wrote n).outputBuffer_.readableBytes ≠ 0 := by
      rw [← hv.length_content, hc, List.length_drop]
      omega
    rw [heq, if_neg hne]
    exact ⟨⟨(List.append_nil _).symm, fun _ hf => (List.not_mem_nil hf).elim, rfl, rfl, rfl⟩,
      fun hnil => absurd hnil (h.watching.mp hw), rfl⟩

/-! ## Runs in the loop thread -/

/-- A step of the loop thread between `connectEstablished` and `handleClose`. -/
inductive OutputStep where
  | sendInLoop (message : List UInt8) (result : Option ℕ)
  | handleWrite (result : Option ℕ)
  | shutdown

def OutputStep.apply (c : TcpConnection) : OutputStep → TcpConnection
  | .sendInLoop message result => c.sendInLoop message result
  | .handleWrite result => c.handleWrite result
  | .shutdown => c.shutdown

def OutputStep.message : OutputStep → List UInt8
  | .sendInLoop message _ => message
  | .handleWrite _ | .shutdown => []

theorem Delivers.apply (h : Delivers c sent) (a : OutputStep) :
    Delivers (a.apply c) (sent ++ a.message) := by
  cases a with
  | sendInLoop message result => exact h.sendInLoop message result
  | handleWrite result =>
    rw [OutputStep.message, List.append_nil]
    exact h.handleWrite result
  | shutdown =>
    rw [OutputStep.message, List.append_nil]
    exact h.shutdown

theorem Delivers.run (h : Delivers c sent) (as : List OutputStep) :
    Delivers (as.foldl OutputStep.apply c) (sent ++ as.flatMap OutputStep.message) := by
  induction as generalizing c sent with
  | nil => simpa using h
  | cons a as ih => simpa [List.append_assoc] using ih (h.apply a)

/-- The step queues the write-complete callback or shuts the write side down. -/
def Completes (c c' : TcpConnection) : Prop :=
  (∃ fs, c'.loop_.queued = c.loop_.queued ++ fs ∧ .writeCompleteCallback_ ∈ fs) ∨
    c.socket_.shutdownWrites < c'.socket_.shutdownWrites

theorem Queues.notCompletes {fs : List ConnFunctor} (hq : Queues c c' fs)
    (hf : .writeCompleteCallback_ ∉ fs)
    (hs : c'.socket_.shutdownWrites = c.socket_.shutdownWrites) : ¬ Completes c c' := by
  rintro (⟨gs, hgs, hin⟩ | hlt)
  · exact hf (List.append_cancel_left (hq.queued.symm.trans hgs) ▸ hin)
  · exact Nat.ne_of_gt hlt hs

theorem not_completes_self (c : TcpConnection) : ¬ Completes c c :=
  (Queues.refl c).notCompletes List.not_mem_nil rfl

theorem Delivers.completes_sendInLoop (h : Delivers c sent) {message : List UInt8}
    {result : Option ℕ} (hc : Completes c (c.sendInLoop message result)) :
    (c.sendInLoop message result).outputBuffer_.content = [] := by
  obtain ⟨fs, hs⟩ := c.sendInLoop_spec message result
  by_cases hin : .writeCompleteCallback_ ∈ fs
  · obtain ⟨hrest, hempty, -⟩ := hs.complete hin
    rw [hs.output, if_pos hrest]
    exact (readableBytes_eq_zero h.valid).mp hempty
  · exact absurd hc (hs.queues.notCompletes hin (by rw [hs.socket]))

theorem Delivers.completes_handleWrite (h : Delivers c sent) {result : Option ℕ}
    (hc : Completes c (c.handleWrite result)) :
    (c.handleWrite result).outputBuffer_.content = [] := by
  rcases c.handleWrite_cases result with ⟨heq, -⟩ | ⟨n, -, -, hn, heq⟩
  · rw [heq] at hc
    exact absurd hc (not_completes_self c)
  · obtain ⟨hv, -, -⟩ := h.wrote (n := n) (hn ▸ Nat.min_le_right ..)
    by_cases hempty : (c.wrote n).outputBuffer_.readableBytes = 0
    · obtain ⟨-, -, hout, -, -⟩ := (c.wrote n).drained_spec
      rw [heq, if_pos hempty, hout]
      exact (readableBytes_eq_zero hv).mp hempty
    · rw [heq, if_neg hempty] at hc
      exact absurd hc (not_completes_self c)

theorem Delivers.completes_shutdown (h : Delivers c sent) (hc : Completes c c.shutdown) :
    c.shutdown.outputBuffer_.content = [] := by
  by_cases hstate : c.state_ = .kConnected
  · rw [TcpConnection.shutdown, if_pos hstate] at hc ⊢
    cases hwriting : c.channel_.isWriting with
    | true =>
      have hwriting' : (c.setState .kDisconnecting).channel_.isWriting = true := hwriting
      rw [TcpConnection.shutdownInLoop, if_pos hwriting'] at hc
      exact absurd hc (not_completes_self c)
    | false =>
      have hnil : c.outputBuffer_.content = [] := by simpa [hwriting] using h.watching
      simpa [TcpConnection.shutdownInLoop, setState, hwriting] using hnil
  · rw [TcpConnection.shutdown, if_neg hstate] at hc
    exact absurd hc (not_completes_self c)

/-- Whenever the write-complete callback is queued or the write side is shut down, the
output buffer is empty. -/
theorem Delivers.completes (h : Delivers c sent) (a : OutputStep) (hc : Completes c (a.apply c)) :
    (a.apply c).outputBuffer_.content = [] ∧
      (a.apply c).socket_.written = sent ++ a.message := by
  have hnil : (a.apply c).outputBuffer_.content = [] := by
    cases a with
    | sendInLoop message result => exact h.completes_sendInLoop hc
    | handleWrite result => exact h.completes_handleWrite hc
    | shutdown => exact h.completes_shutdown hc
  have hd := (h.apply a).delivered
  rw [hnil, List.append_nil] at hd
  exact ⟨hnil, hd⟩

theorem delivers_established (loop : EventLoop ConnFunctor) (name this fd : ℕ)
    (callbacks : Callbacks) :
    Delivers (construct loop name this fd callbacks).connectEstablished [] where
  valid := Buffer.valid_fresh
  delivered := Buffer.content_fresh
  watching := by
    simp [construct, connectEstablished, setState, setChannel, LoopChannel.construct,
      LoopChannel.isWriting, LoopChannel.enableReading, Interest.kNoneEvent]

/-- After any steps of the loop thread and any answers of the kernel: the bytes accepted,
followed by those in the output buffer, are all messages in order; the channel watches
for writability exactly when the buffer has bytes; and a step that queues the
write-complete callback or shuts the write side down leaves nothing unwritten. -/
theorem output_delivered (loop : EventLoop ConnFunctor) (name this fd : ℕ)
    (callbacks : Callbacks) (as : List OutputStep) :
    let c := as.foldl OutputStep.apply (construct loop name this fd callbacks).connectEstablished
    let sent := as.flatMap OutputStep.message
    c.socket_.written ++ c.outputBuffer_.content = sent ∧
      (c.channel_.isWriting = true ↔ c.outputBuffer_.content ≠ []) ∧
      ∀ a : OutputStep, Completes c (a.apply c) → (a.apply c).outputBuffer_.content = [] ∧
        (a.apply c).socket_.written = sent ++ a.message := by
  have h := (delivers_established loop name this fd callbacks).run as
  rw [List.nil_append] at h
  exact ⟨h.delivered, h.watching, h.completes⟩

end ReactorNet.TcpConnection
