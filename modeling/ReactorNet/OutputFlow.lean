import ReactorNet.TcpConnectionOutput

/-!
# Flow control of the output

A user who stops sending when the output has reached the high-water mark, and goes on when it has
been written: which of the two callbacks was queued last, and what the first is told.
-/
namespace ReactorNet.TcpConnection

/-- The callback for the high-water mark stops the user, the one for a complete write lets it go
on. -/
def stops : ConnFunctor → Option Bool
  | .highWaterMarkCallback_ _ => some true
  | .writeCompleteCallback_ => some false
  | _ => none

/-- The user has been stopped by the last of these callbacks that was queued. -/
def stopped (c : TcpConnection) : Bool := (c.loop_.queued.filterMap stops).getLast?.getD false

def reported : ConnFunctor → Option ℕ
  | .highWaterMarkCallback_ size => some size
  | _ => none

/-- The sizes that the callback for the high-water mark is told. -/
def marks (c : TcpConnection) : List ℕ := c.loop_.queued.filterMap reported

/-- The size of the output if it has come to the mark from below. -/
def crossed (c c' : TcpConnection) : List ℕ :=
  if c.outputBuffer_.readableBytes < c.callbacks.highWaterMark_ ∧
      c.callbacks.highWaterMark_ ≤ c'.outputBuffer_.readableBytes then
    [c'.outputBuffer_.readableBytes]
  else []

def crossings (c : TcpConnection) : List OutputStep → List ℕ
  | [] => []
  | a :: as => crossed c (a.apply c) ++ (a.apply c).crossings as

variable {c c' : TcpConnection} {k : Callbacks} {sent : List UInt8}

/-! ## What a step queues -/

theorem stopped_queued {f : ConnFunctor} {b : Bool} (hf : stops f = some b)
    (hq : c'.loop_.queued = c.loop_.queued ++ [f]) : c'.stopped = b := by
  rw [stopped, hq, List.filterMap_append, List.filterMap_cons_some hf, List.filterMap_nil,
    List.getLast?_append, List.getLast?_singleton]
  rfl

theorem stopped_eq (hq : c'.loop_.queued = c.loop_.queued) : c'.stopped = c.stopped := by
  rw [stopped, hq, stopped]

theorem marks_queued {fs : List ConnFunctor} (hq : c'.loop_.queued = c.loop_.queued ++ fs) :
    c'.marks = c.marks ++ fs.filterMap reported := by
  rw [marks, hq, List.filterMap_append, marks]

/-- A connection with both callbacks. -/
structure Notifies (c : TcpConnection) : Prop where
  writeComplete : c.callbacks.writeCompleteCallback_ = true
  highWaterMark : c.callbacks.highWaterMarkCallback_ = true
  positive : 0 < c.callbacks.highWaterMark_

theorem Notifies.congr (h : Notifies c) (hcallbacks : c'.callbacks = c.callbacks) :
    Notifies c' := by
  constructor
  · rw [hcallbacks]
    exact h.writeComplete
  · rw [hcallbacks]
    exact h.highWaterMark
  · rw [hcallbacks]
    exact h.positive

theorem appendOutput_fields (rest : List UInt8) :
    (c.appendOutput rest).loop_ = c.loop_ ∧ (c.appendOutput rest).callbacks = c.callbacks := by
  simp only [appendOutput]
  split
  · exact ⟨rfl, rfl⟩
  · exact ⟨rfl, rfl⟩

theorem callbacks_checkHighWaterMark (oldLen remaining : ℕ) :
    (c.checkHighWaterMark oldLen remaining).callbacks = c.callbacks := by
  rw [checkHighWaterMark]
  split
  · rfl
  · rfl

/-- What is left of a message goes to the buffer, after a look at the mark. -/
theorem sendInLoop_rest {message : List UInt8} {result : Option ℕ}
    (h : c.unsent message result ≠ []) :
    ∃ d : TcpConnection, d.loop_ = c.loop_ ∧ d.callbacks = c.callbacks ∧
      d.outputBuffer_ = c.outputBuffer_ ∧ c.sendInLoop message result =
        (d.checkHighWaterMark d.outputBuffer_.readableBytes
          (c.unsent message result).length).appendOutput (c.unsent message result) := by
  by_cases hdirect : c.channel_.isWriting = false ∧ c.outputBuffer_.readableBytes = 0
  · simp only [unsent, if_pos hdirect] at h ⊢
    cases result with
    | none =>
      have hpos : 0 < message.length := List.length_pos_iff.mpr h
      refine ⟨c, rfl, rfl, rfl, ?_⟩
      simp only [sendInLoop, if_pos hdirect, writeDirect, Socket.write, if_pos hpos,
        Option.getD_none, List.drop_zero, Nat.sub_zero]
    | some n =>
      have hlt : n < message.length := by
        have hpos := List.length_pos_iff.mpr h
        rw [Option.getD_some, List.length_drop] at hpos
        omega
      have hmin : min n message.length = n := Nat.min_eq_left (Nat.le_of_lt hlt)
      refine ⟨{ c with socket_ :=
        { c.socket_ with written := c.socket_.written ++ message.take n } }, rfl, rfl, rfl, ?_⟩
      simp only [sendInLoop, if_pos hdirect, writeDirect, Socket.write, hmin, if_pos hlt,
        Option.getD_some, List.length_drop]
  · simp only [unsent, if_neg hdirect] at h ⊢
    have hpos : 0 < message.length := List.length_pos_iff.mpr h
    refine ⟨c, rfl, rfl, rfl, ?_⟩
    simp only [sendInLoop, if_neg hdirect, if_pos hpos, Nat.sub_zero, List.drop_zero]

/-- A message of which nothing is left was empty, or was written at once to the empty output. -/
theorem Notifies.sendInLoop_whole (h : Notifies c) {message : List UInt8} {result : Option ℕ}
    (hrest : c.unsent message result = []) :
    c.sendInLoop message result = c ∨ c.outputBuffer_.readableBytes = 0 ∧
      ∃ socket, c.sendInLoop message result =
        { c with socket_ := socket }.queueInLoop .writeCompleteCallback_ := by
  by_cases hdirect : c.channel_.isWriting = false ∧ c.outputBuffer_.readableBytes = 0
  · simp only [unsent, if_pos hdirect] at hrest
    cases result with
    | none =>
      rw [Option.getD_none, List.drop_zero] at hrest
      refine Or.inl ?_
      simp only [sendInLoop, if_pos hdirect, writeDirect, Socket.write, hrest, List.length_nil,
        Nat.lt_irrefl, if_false]
    | some n =>
      have hle : message.length ≤ n := List.drop_eq_nil_iff.mp hrest
      have hmin : min n message.length = message.length := Nat.min_eq_right hle
      refine Or.inr
        ⟨hdirect.2, { c.socket_ with written := c.socket_.written ++ message.take n }, ?_⟩
      simp only [sendInLoop, if_pos hdirect, writeDirect, Socket.write, hmin, Nat.lt_irrefl,
        if_false]
      exact if_pos h.writeComplete
  · simp only [unsent, if_neg hdirect] at hrest
    refine Or.inl ?_
    simp only [sendInLoop, if_neg hdirect, hrest, List.length_nil, Nat.lt_irrefl, if_false]

/-! ## Steps and runs -/

/-- The user is not stopped while the output is empty, and is when it has reached the mark. -/
structure Flows (k : Callbacks) (c : TcpConnection) : Prop where
  callbacks : c.callbacks = k
  notifies : Notifies c
  empty : c.outputBuffer_.readableBytes = 0 → c.stopped = false
  high : c.callbacks.highWaterMark_ ≤ c.outputBuffer_.readableBytes → c.stopped = true

/-- Nothing was queued, and the output has not grown. -/
theorem Flows.quiet (h : Flows k c) (hq : c'.loop_.queued = c.loop_.queued)
    (hcallbacks : c'.callbacks = c.callbacks)
    (hle : c'.outputBuffer_.readableBytes ≤ c.outputBuffer_.readableBytes)
    (hempty : c'.outputBuffer_.readableBytes = 0 → c.outputBuffer_.readableBytes = 0) :
    Flows k c' ∧ c'.marks = c.marks ++ crossed c c' := by
  refine ⟨⟨hcallbacks.trans h.callbacks, h.notifies.congr hcallbacks, fun hzero => ?_,
    fun hhigh => ?_⟩, ?_⟩
  · rw [stopped_eq hq]
    exact h.empty (hempty hzero)
  · rw [stopped_eq hq]
    rw [hcallbacks] at hhigh
    exact h.high (Nat.le_trans hhigh hle)
  · have hcrossed : crossed c c' = [] := by
      rw [crossed, if_neg]
      omega
    rw [hcrossed, List.append_nil, marks, hq, marks]

/-- The output is empty, and the user is told so. -/
theorem Flows.completed (h : Flows k c)
    (hq : c'.loop_.queued = c.loop_.queued ++ [.writeCompleteCallback_])
    (hcallbacks : c'.callbacks = c.callbacks) (hzero : c'.outputBuffer_.readableBytes = 0) :
    Flows k c' ∧ c'.marks = c.marks ++ crossed c c' := by
  have hpositive := h.notifies.positive
  refine ⟨⟨hcallbacks.trans h.callbacks, h.notifies.congr hcallbacks,
    fun _ => stopped_queued rfl hq, fun hhigh => ?_⟩, ?_⟩
  · rw [hzero, hcallbacks] at hhigh
    omega
  · have hcrossed : crossed c c' = [] := by
      rw [crossed, if_neg]
      omega
    rw [hcrossed, marks_queued hq]
    rfl

theorem Flows.sendInLoop (hd : Delivers c sent) (h : Flows k c) (message : List UInt8)
    (result : Option ℕ) : Flows k (c.sendInLoop message result) ∧
      (c.sendInLoop message result).marks = c.marks ++ crossed c (c.sendInLoop message result) := by
  by_cases hrest : c.unsent message result = []
  · rcases h.notifies.sendInLoop_whole hrest with heq | ⟨hzero, socket, heq⟩
    · rw [heq]
      exact h.quiet rfl rfl (Nat.le_refl _) id
    · rw [heq]
      exact h.completed (queued_queueInLoop _ _) rfl hzero
  · obtain ⟨d, hloop, hcallbacks, hout, heq⟩ := sendInLoop_rest hrest
    generalize c.unsent message result = rest at hrest heq
    have hpos := List.length_pos_iff.mpr hrest
    have hvalid : d.outputBuffer_.Valid := hout ▸ hd.valid
    obtain ⟨hfields, hfields'⟩ := appendOutput_fields
      (c := d.checkHighWaterMark d.outputBuffer_.readableBytes rest.length) rest
    obtain ⟨-, -, -, hcheck⟩ := d.checkHighWaterMark_spec d.outputBuffer_.readableBytes rest.length
    have hbuffer : (d.checkHighWaterMark d.outputBuffer_.readableBytes rest.length).outputBuffer_ =
        d.outputBuffer_ := by rw [hcheck]
    have hsize : (c.sendInLoop message result).outputBuffer_.readableBytes =
        c.outputBuffer_.readableBytes + rest.length := by
      obtain ⟨hv, hc, -⟩ := hvalid.append rest
      rw [heq, (appendOutput_spec _ rest).2.2.1, hbuffer, ← hv.length_content, hc,
        List.length_append, hvalid.length_content, hout]
    have hcallbacks' : (c.sendInLoop message result).callbacks = c.callbacks := by
      rw [heq, hfields', callbacks_checkHighWaterMark, hcallbacks]
    by_cases hcross : c.outputBuffer_.readableBytes < c.callbacks.highWaterMark_ ∧
        c.callbacks.highWaterMark_ ≤ (c.sendInLoop message result).outputBuffer_.readableBytes
    · have hq : (c.sendInLoop message result).loop_.queued = c.loop_.queued ++
          [.highWaterMarkCallback_ (c.sendInLoop message result).outputBuffer_.readableBytes] := by
        rw [hsize] at hcross ⊢
        rw [heq, hfields, checkHighWaterMark, hcallbacks, hout,
          if_pos ⟨hcross.2, hcross.1, h.notifies.highWaterMark⟩, queued_queueInLoop, hloop]
      refine ⟨⟨hcallbacks'.trans h.callbacks, h.notifies.congr hcallbacks', fun hzero => ?_,
        fun _ => stopped_queued rfl hq⟩, ?_⟩
      · omega
      · rw [crossed, if_pos hcross, marks_queued hq]
        rfl
    · have hq : (c.sendInLoop message result).loop_.queued = c.loop_.queued := by
        rw [hsize] at hcross
        rw [heq, hfields, checkHighWaterMark, hcallbacks, hout,
          if_neg fun hall => hcross ⟨hall.2.1, hall.1⟩, hloop]
      refine ⟨⟨hcallbacks'.trans h.callbacks, h.notifies.congr hcallbacks', fun hzero => ?_,
        fun hhigh => ?_⟩, ?_⟩
      · omega
      · rw [stopped_eq hq]
        rw [hcallbacks'] at hhigh
        refine h.high (Nat.le_of_not_lt fun hlt => hcross ⟨hlt, hhigh⟩)
      · rw [crossed, if_neg hcross, List.append_nil, marks, hq, marks]

theorem Notifies.drained_fields {d : TcpConnection} (h : Notifies d) :
    d.drained.loop_.queued = d.loop_.queued ++ [.writeCompleteCallback_] ∧
      d.drained.callbacks = d.callbacks ∧ d.drained.outputBuffer_ = d.outputBuffer_ := by
  have hcomplete : (d.setChannel d.channel_.disableWriting).writeComplete =
      (d.setChannel d.channel_.disableWriting).queueInLoop .writeCompleteCallback_ :=
    if_pos h.writeComplete
  have hqueued := queued_queueInLoop (d.setChannel d.channel_.disableWriting)
    .writeCompleteCallback_
  simp only [drained, hcomplete]
  split
  · rw [shutdownInLoop_eq]
    exact ⟨hqueued, rfl, rfl⟩
  · exact ⟨hqueued, rfl, rfl⟩

theorem Flows.handleWrite (hd : Delivers c sent) (h : Flows k c) (result : Option ℕ) :
    Flows k (c.handleWrite result) ∧
      (c.handleWrite result).marks = c.marks ++ crossed c (c.handleWrite result) := by
  rcases c.handleWrite_cases result with ⟨heq, -⟩ | ⟨n, -, -, hn, heq⟩
  · rw [heq]
    exact h.quiet rfl rfl (Nat.le_refl _) id
  · obtain ⟨hv, hc, -⟩ := hd.wrote (n := n) (hn ▸ Nat.min_le_right ..)
    have hsize : (c.wrote n).outputBuffer_.readableBytes = c.outputBuffer_.readableBytes - n := by
      rw [← hv.length_content, hc, List.length_drop, hd.valid.length_content]
    rw [heq]
    by_cases hempty : (c.wrote n).outputBuffer_.readableBytes = 0
    · have hnotifies : Notifies (c.wrote n) := h.notifies.congr rfl
      obtain ⟨hq, hcallbacks, hout⟩ := hnotifies.drained_fields
      rw [if_pos hempty]
      exact h.completed hq hcallbacks (hout ▸ hempty)
    · rw [if_neg hempty]
      exact h.quiet rfl rfl (by omega) fun hzero => absurd hzero hempty

theorem Flows.shutdown (h : Flows k c) :
    Flows k c.shutdown ∧ c.shutdown.marks = c.marks ++ crossed c c.shutdown := by
  rw [TcpConnection.shutdown]
  split
  · rw [shutdownInLoop_eq]
    exact h.quiet rfl rfl (Nat.le_refl _) id
  · exact h.quiet rfl rfl (Nat.le_refl _) id

theorem Flows.apply (hd : Delivers c sent) (h : Flows k c) (a : OutputStep) :
    Flows k (a.apply c) ∧ (a.apply c).marks = c.marks ++ crossed c (a.apply c) := by
  cases a with
  | sendInLoop message result => exact h.sendInLoop hd message result
  | handleWrite result => exact h.handleWrite hd result
  | shutdown => exact h.shutdown

theorem Flows.run (hd : Delivers c sent) (h : Flows k c) (as : List OutputStep) :
    Flows k (as.foldl OutputStep.apply c) ∧
      (as.foldl OutputStep.apply c).marks = c.marks ++ c.crossings as := by
  induction as generalizing c sent with
  | nil => exact ⟨h, (List.append_nil _).symm⟩
  | cons a as ih =>
    obtain ⟨h', hmarks⟩ := h.apply hd a
    obtain ⟨hrun, hmarks'⟩ := ih (hd.apply a) h'
    refine ⟨hrun, hmarks'.trans ?_⟩
    rw [hmarks, List.append_assoc, crossings]

/-- A connection with both callbacks and a mark, in any order of sends, writes and shutdown and
with any answers of the kernel: the callback for the high-water mark is queued exactly when the
output comes to the mark from below, and is told its size; and a user who stops at it and goes on
at the callback for a complete write is never stopped while the output is empty, and always is
while the output is at the mark or above. -/
theorem output_flow (loop : EventLoop ConnFunctor) (name this fd : ℕ) {callbacks : Callbacks}
    (hwrite : callbacks.writeCompleteCallback_ = true)
    (hhigh : callbacks.highWaterMarkCallback_ = true) (hpos : 0 < callbacks.highWaterMark_)
    (hloop : ∀ f ∈ loop.queued, stops f = none ∧ reported f = none) (as : List OutputStep) :
    let start := (construct loop name this fd callbacks).connectEstablished
    let c := as.foldl OutputStep.apply start
    c.marks = start.crossings as ∧
      (c.outputBuffer_.content = [] → c.stopped = false) ∧
      (callbacks.highWaterMark_ ≤ c.outputBuffer_.content.length → c.stopped = true) := by
  intro start c
  have hd : Delivers start [] := delivers_established loop name this fd callbacks
  have hzero : start.outputBuffer_.readableBytes = 0 := rfl
  have hstopped : start.stopped = false := by
    have hnone : loop.queued.filterMap stops = [] :=
      List.filterMap_eq_nil_iff.mpr fun f hf => (hloop f hf).1
    change (loop.queued.filterMap stops).getLast?.getD false = false
    rw [hnone]
    rfl
  have hmarks : start.marks = [] := List.filterMap_eq_nil_iff.mpr fun f hf => (hloop f hf).2
  have hflows : Flows callbacks start := by
    refine ⟨rfl, ⟨hwrite, hhigh, hpos⟩, fun _ => hstopped, fun hle => ?_⟩
    have hle' : callbacks.highWaterMark_ ≤ 0 := hle
    omega
  obtain ⟨hrun, hqueued⟩ := hflows.run hd as
  have hvalid : c.outputBuffer_.Valid := (hd.run as).valid
  rw [hmarks, List.nil_append] at hqueued
  refine ⟨hqueued, fun hnil => hrun.empty ?_, fun hle => hrun.high ?_⟩
  · exact (readableBytes_eq_zero hvalid).mpr hnil
  · rwa [hrun.callbacks, ← hvalid.length_content]

/-- The output comes to the mark, below it and to it again. -/
theorem output_flow_twice :
    let as : List OutputStep :=
      [.sendInLoop [1, 2, 3, 4, 5] (some 1), .handleWrite (some 2), .sendInLoop [6, 7] none]
    let c := as.foldl OutputStep.apply
      (construct EventLoop.idle 0 0 3 ⟨Buffer.retrieveAll, true, true, 3⟩).connectEstablished
    c.marks = [4, 4] ∧ c.stopped = true := by
  intro as c
  have hset : (⟨Buffer.retrieveAll, true, true, 3⟩ : Callbacks).writeCompleteCallback_ = true := rfl
  have hloop : ∀ f ∈ (EventLoop.idle : EventLoop ConnFunctor).queued,
      stops f = none ∧ reported f = none := fun f hf => absurd hf List.not_mem_nil
  obtain ⟨hmarks, -, hhigh⟩ := output_flow EventLoop.idle 0 0 3 hset rfl (by decide) hloop as
  exact ⟨hmarks.trans (by decide +kernel), hhigh (by decide +kernel)⟩

end ReactorNet.TcpConnection
