import ReactorNet.GuardedRuns
import ReactorNet.HttpDispatch
import ReactorNet.HttpResponse
import ReactorNet.TcpConnectionOutput

/-!
# A connection of the HTTP server

The connection with its `HttpContext`. Whatever bytes arrive, in whatever chunks, and however
much the kernel takes at a time, what the client is sent are the replies to what a fresh parser
finds in front of the stream at each chunk, up to the first one that closes the connection.
-/
namespace ReactorNet

def TcpConnection.setInputBuffer (c : TcpConnection) (buf : Buffer) : TcpConnection :=
  { c with inputBuffer_ := buf }

namespace HttpServer

open TokenMachines HttpContext

/-- `TcpConnection::handleRead` has read `data`. The user's callback may answer differently in
every call; `results` are the kernel's answers to the writes. -/
structure Delivery where
  data : List UInt8
  receiveTime : Timestamp
  httpCallback_ : HttpRequest → HttpResponse → HttpResponse
  results : List (Option ℕ)

inductive SessionStep where
  | handleRead (d : Delivery)
  | handleWrite (result : Option ℕ)

/-- A connection between `connectEstablished` and `handleClose`. -/
structure HttpConnection where
  conn : TcpConnection
  context : HttpContext

namespace HttpConnection

/-- `connectEstablished` with the callback `onConnection`, up to the time wheel. -/
def established (loop : EventLoop ConnFunctor) (name this fd : ℕ) (callbacks : Callbacks) :
    HttpConnection where
  conn := (TcpConnection.construct loop name this fd callbacks).connectEstablished
  context := .construct

/-- The calls of `send` and `shutdown`, one after the other. -/
def perform (conn : TcpConnection) : List HttpEffect → List (Option ℕ) → TcpConnection
  | [], _ => conn
  | .httpCallback _ :: effects, results => perform conn effects results
  | .send data :: effects, results =>
    perform (conn.send data (results.headD none)) effects results.tail
  | .shutdown :: effects, results => perform conn.shutdown effects results

/-- A read of no bytes is the end of the connection. -/
def handleRead (c : HttpConnection) (d : Delivery) : Option HttpConnection :=
  if d.data = [] then none
  else
    let buf := c.conn.inputBuffer_.readFd (some d.data)
    (onMessage (HttpResponse.respond d.httpCallback_) c.context buf d.receiveTime).map
      fun (context, buf, effects) =>
        ⟨perform (c.conn.setInputBuffer buf) effects d.results, context⟩

def step (c : HttpConnection) : SessionStep → Option HttpConnection
  | .handleRead d => c.handleRead d
  | .handleWrite result => some { c with conn := c.conn.handleWrite result }

end HttpConnection

def SessionStep.delivery : SessionStep → Option Delivery
  | .handleRead d => some d
  | .handleWrite _ => none

/-! ## What the client is to be sent -/

inductive Reply where
  | response (r : HttpResponse)
  | badRequest

namespace Reply

def text : Reply → List UInt8
  | response r => r.text
  | badRequest => HttpServer.badRequest

def closes : Reply → Bool
  | response r => r.closeConnection_
  | badRequest => true

/-- The bytes of the replies up to the first one that closes the connection. -/
def sent : List Reply → List UInt8
  | [] => []
  | reply :: replies => reply.text ++ if reply.closes then [] else sent replies

theorem sent_append_of_closed {replies : List Reply} (h : replies.any closes = true)
    (more : List Reply) : sent (replies ++ more) = sent replies := by
  induction replies with
  | nil => cases h
  | cons reply replies ih =>
    rw [List.cons_append, sent, sent]
    cases hc : reply.closes with
    | true => rfl
    | false =>
      rw [List.any_cons, hc, Bool.false_or] at h
      rw [ih h]

theorem sent_append_of_open {replies : List Reply} (h : replies.any closes = false)
    (reply : Reply) : sent (replies ++ [reply]) = sent replies ++ reply.text := by
  induction replies with
  | nil => simp [sent]
  | cons first replies ih =>
    rw [List.any_cons, Bool.or_eq_false_iff] at h
    rw [List.cons_append, sent, sent, h.1, ih h.2]
    simp

end Reply

/-- A request wants the connection to be closed. -/
def wantsClose (req : HttpRequest) : Bool :=
  let connection := req.getHeader (ascii "Connection")
  connection == ascii "close" ||
    (req.version_ == .kHttp10 && connection != ascii "Keep-Alive")

/-- What the user's callback makes of a request. -/
def Delivery.reply (d : Delivery) (req : HttpRequest) : Reply :=
  .response (d.httpCallback_ req (.construct (wantsClose req)))

/-- A chunk has arrived behind the bytes `r`, which have been read and not been used: what is left
of them and the new replies. The request in front is answered, and no other; a malformed request
line stays in front for ever. -/
inductive Answer (r : List UInt8) (d : Delivery) : List UInt8 → List Reply → Prop
  | request {req : HttpRequest} {n : ℕ} (time : Timestamp)
      (hfront : requestFrames.front (r ++ d.data) = .item req n) :
      Answer r d ((r ++ d.data).drop n) [d.reply (req.setReceiveTime time)]
  | malformed {req : HttpRequest} (hfront : requestFrames.front (r ++ d.data) = .fail req) :
      Answer r d (r ++ d.data) [.badRequest]
  | incomplete (hfront : requestFrames.front (r ++ d.data) = .more) : Answer r d (r ++ d.data) []

/-- The replies to a stream that arrives in chunks. -/
inductive Answered : List UInt8 → List Delivery → List Reply → Prop
  | nil (r : List UInt8) : Answered r [] []
  | cons {r r' : List UInt8} {d : Delivery} {ds : List Delivery} {new later : List Reply}
      (h : Answer r d r' new) (rest : Answered r' ds later) : Answered r (d :: ds) (new ++ later)

/-! ## One call of `onMessage` -/

theorem setReceiveTime_receiveTime {r req : HttpRequest}
    (h : r.setReceiveTime Timestamp.invalid = req) : r = req.setReceiveTime r.receiveTime_ := by
  rw [← h]
  rfl

/-- What a call does to the connection, and what is left of the stream. -/
inductive Called (c : HttpContext) (buf : Buffer) (d : Delivery) :
    List UInt8 → List HttpEffect → Prop
  | request {xs : List UInt8} {req : HttpRequest} {n : ℕ} (time : Timestamp)
      (hfront : requestFrames.front xs = .item req n) (h : Serves c buf (xs.drop n)) :
      Called c buf d xs (onRequest (HttpResponse.respond d.httpCallback_) (req.setReceiveTime time))
  | malformed {xs : List UInt8} {req : HttpRequest}
      (hfront : requestFrames.front xs = .fail req) (h : Serves c buf xs) :
      Called c buf d xs [.send badRequest, .shutdown]
  | incomplete {xs : List UInt8} (hfront : requestFrames.front xs = .more) (h : Serves c buf xs) :
      Called c buf d xs []

theorem Serves.called {c : HttpContext} {buf b : Buffer} {r : List UInt8} (h : Serves c buf r)
    {d : Delivery} (hb : b.Valid) (hcontent : b.content = buf.content ++ d.data) :
    ∃ c' left effects,
      HttpServer.onMessage (HttpResponse.respond d.httpCallback_) c b d.receiveTime =
        some (c', left, effects) ∧ Called c' left d (r ++ d.data) effects := by
  obtain ⟨s, hcontext, hagree⟩ := h.reading
  obtain ⟨c', left, ok, hparse, hleft, hrest, hreached⟩ :=
    parseRequest_eq_advance hb hcontext d.receiveTime
  obtain ⟨hstatus, hdrop⟩ := hagree d.data
  rw [hcontent, hdrop] at hrest
  rw [hcontent, hstatus] at hreached
  have hc' := hreached.context
  rcases hstart : requestParser.advance start (r ++ d.data) with ⟨status, n⟩
  rw [hstart] at hrest hreached hc'
  have hfront : requestFrames.front (r ++ d.data) = front (r ++ d.data) := rfl
  rw [front, hstart] at hfront
  cases status with
  | waiting s' =>
    have hgot : c'.gotAll = false := by
      cases s' with
      | requestLine r' => exact (congrArg gotAll hc' :)
      | headers r' => exact (congrArg gotAll hc' :)
    refine ⟨c', left, [], ?_, .incomplete hfront ⟨hleft, s', hc', ?_⟩⟩
    · simp [HttpServer.onMessage, hparse, hreached.ok, hgot, returned]
    · rw [hrest]
      have hresumes := resumes_waiting (congrArg Progress.status hstart)
      rwa [Resumes, hstart] at hresumes
  | halted p =>
    cases p with
    | complete req =>
      have hgot : c'.gotAll = true := (congrArg gotAll hc' :)
      have hreq := setReceiveTime_receiveTime (congrArg HttpContext.request_ hc')
      refine ⟨c'.reset, left, onRequest (HttpResponse.respond d.httpCallback_) c'.request_, ?_, ?_⟩
      · simp [HttpServer.onMessage, hparse, hreached.ok, hgot, returned, Parsed.ok]
      · rw [hreq]
        refine .request _ hfront ⟨hleft, start, rfl, fun t => ?_⟩
        rw [hrest]
        exact ⟨rfl, rfl⟩
    | rejected req =>
      have hgot : c'.gotAll = false := (congrArg gotAll hc' :)
      refine ⟨c', left, [.send badRequest, .shutdown], ?_,
        .malformed hfront ⟨hleft, .requestLine req, hc', ?_⟩⟩
      · simp [HttpServer.onMessage, hparse, hreached.ok, hgot, returned, Parsed.ok]
      · rw [hrest]
        have hresumes := resumes_rejected (congrArg Progress.status hstart)
        rwa [Resumes, hstart] at hresumes

end HttpServer

/-! ## What sending leaves alone -/

namespace TcpConnection

variable (c : TcpConnection)

@[simp] theorem inputBuffer_writeComplete : c.writeComplete.inputBuffer_ = c.inputBuffer_ := by
  rw [writeComplete]
  split <;> rfl

@[simp] theorem inputBuffer_shutdownInLoop : c.shutdownInLoop.inputBuffer_ = c.inputBuffer_ := by
  rw [shutdownInLoop]
  split <;> rfl

theorem inputBuffer_shutdown : c.shutdown.inputBuffer_ = c.inputBuffer_ := by
  rw [shutdown]
  split
  · exact inputBuffer_shutdownInLoop _
  · rfl

theorem inputBuffer_appendOutput (oldLen remaining : ℕ) (rest : List UInt8) :
    ((c.checkHighWaterMark oldLen remaining).appendOutput rest).inputBuffer_ = c.inputBuffer_ := by
  have hmark : (c.checkHighWaterMark oldLen remaining).inputBuffer_ = c.inputBuffer_ := by
    rw [checkHighWaterMark]
    split <;> rfl
  simp only [appendOutput]
  split
  · exact hmark
  · exact hmark

theorem inputBuffer_writeDirect (message : List UInt8) (result : Option ℕ) :
    (c.writeDirect message result).1.inputBuffer_ = c.inputBuffer_ := by
  cases result with
  | none => rfl
  | some n =>
    simp only [writeDirect, Socket.write]
    split
    · rfl
    · exact inputBuffer_writeComplete _

theorem inputBuffer_sendInLoop (message : List UInt8) (result : Option ℕ) :
    (c.sendInLoop message result).inputBuffer_ = c.inputBuffer_ := by
  simp only [sendInLoop]
  by_cases hdirect : c.channel_.isWriting = false ∧ c.outputBuffer_.readableBytes = 0
  · simp only [if_pos hdirect]
    split
    · exact (inputBuffer_appendOutput _ _ _ _).trans (c.inputBuffer_writeDirect message result)
    · exact c.inputBuffer_writeDirect message result
  · simp only [if_neg hdirect]
    split
    · exact inputBuffer_appendOutput _ _ _ _
    · rfl

theorem inputBuffer_send (message : List UInt8) (result : Option ℕ) :
    (c.send message result).inputBuffer_ = c.inputBuffer_ := by
  rw [send]
  split
  · exact c.inputBuffer_sendInLoop message result
  · rfl

theorem inputBuffer_drained : c.drained.inputBuffer_ = c.inputBuffer_ := by
  simp only [drained]
  split
  · exact (inputBuffer_shutdownInLoop _).trans (inputBuffer_writeComplete _)
  · exact inputBuffer_writeComplete _

theorem inputBuffer_handleWrite (result : Option ℕ) :
    (c.handleWrite result).inputBuffer_ = c.inputBuffer_ := by
  rcases c.handleWrite_cases result with ⟨heq, -⟩ | ⟨n, -, -, -, heq⟩
  · rw [heq]
  · rw [heq]
    split
    · exact inputBuffer_drained _
    · rfl

variable {c} {sent : List UInt8}

/-- The write side is shut down at once if nothing waits to be written. -/
theorem Delivers.shutdown_connected (h : Delivers c sent) (hstate : c.state_ = .kConnected) :
    c.shutdown.state_ = .kDisconnecting ∧ c.shutdown.outputBuffer_ = c.outputBuffer_ ∧
      c.shutdown.socket_.shutdownWrites =
        c.socket_.shutdownWrites + if c.outputBuffer_.content = [] then 1 else 0 := by
  rw [TcpConnection.shutdown, if_pos hstate]
  cases hwriting : c.channel_.isWriting with
  | true =>
    have hne := h.watching.mp hwriting
    have hwriting' : (c.setState .kDisconnecting).channel_.isWriting = true := hwriting
    rw [TcpConnection.shutdownInLoop, if_pos hwriting', if_neg hne]
    exact ⟨rfl, rfl, rfl⟩
  | false =>
    have hnil : c.outputBuffer_.content = [] := by simpa [hwriting] using h.watching
    have hwriting' : ¬ (c.setState .kDisconnecting).channel_.isWriting = true := by
      rw [setState, hwriting]
      exact Bool.false_ne_true
    rw [TcpConnection.shutdownInLoop, if_neg hwriting', if_pos hnil]
    exact ⟨rfl, rfl, rfl⟩

/-- A `handleWrite` that drains the buffer shuts the write side down if that is due. -/
theorem Delivers.handleWrite_shutdownWrites (h : Delivers c sent) (result : Option ℕ) :
    (c.handleWrite result).state_ = c.state_ ∧ (c.handleWrite result).socket_.shutdownWrites =
      c.socket_.shutdownWrites + if c.state_ = .kDisconnecting ∧ c.outputBuffer_.content ≠ [] ∧
        (c.handleWrite result).outputBuffer_.content = [] then 1 else 0 := by
  by_cases hn : c.channel_.isWriting = true ∧ c.outputBuffer_.readableBytes ≤ result.getD 0
  · obtain ⟨hwriting, hle⟩ := hn
    obtain ⟨fs, hqueues, hnil, hwrites⟩ := h.handleWrite_drains hwriting hle
    refine ⟨hqueues.state, ?_⟩
    rw [hwrites]
    simp only [hnil, h.watching.mp hwriting, ne_eq, not_false_iff, and_true]
  · obtain ⟨hqueues, -, hwrites⟩ := h.handleWrite_keeps hn
    refine ⟨hqueues.state, ?_⟩
    rw [hwrites, if_neg, Nat.add_zero]
    rintro ⟨-, hne, hnil⟩
    rcases c.handleWrite_cases result with ⟨heq, -⟩ | ⟨n, hwriting, -, hmin, heq⟩
    · rw [heq] at hnil
      exact hne hnil
    · have hlt : n < c.outputBuffer_.content.length := by
        rw [hmin, h.valid.length_content]
        have := Nat.lt_of_not_le fun hle => hn ⟨hwriting, hle⟩
        omega
      obtain ⟨hv, hc, -⟩ := h.wrote (Nat.le_of_lt hlt)
      have hrest : (c.wrote n).outputBuffer_.readableBytes ≠ 0 := by
        rw [← hv.length_content, hc, List.length_drop]
        omega
      rw [heq, if_neg hrest] at hnil
      exact hrest ((readableBytes_eq_zero hv).mpr hnil)

end TcpConnection

namespace HttpServer

/-! ## Replies on their way -/

/-- The connection has been asked to send the replies: those up to the closing one have been
written or wait in the output buffer, and behind the closing one the write side is shut down as
soon as nothing waits. -/
structure Sending (conn : TcpConnection) (replies : List Reply) : Prop where
  delivers : conn.Delivers (Reply.sent replies)
  state : conn.state_ = if replies.any Reply.closes then .kDisconnecting else .kConnected
  shutdownWrites : conn.socket_.shutdownWrites =
    if replies.any Reply.closes ∧ conn.outputBuffer_.content = [] then 1 else 0

namespace Sending

variable {conn : TcpConnection} {replies : List Reply}

theorem established (loop : EventLoop ConnFunctor) (name this fd : ℕ) (callbacks : Callbacks) :
    Sending (TcpConnection.construct loop name this fd callbacks).connectEstablished [] where
  delivers := TcpConnection.delivers_established loop name this fd callbacks
  state := rfl
  shutdownWrites := rfl

theorem send_closed (h : Sending conn replies) (hclosed : replies.any Reply.closes = true)
    (message : List UInt8) (result : Option ℕ) : conn.send message result = conn := by
  have hstate := h.state
  rw [hclosed, if_pos rfl] at hstate
  rw [TcpConnection.send, if_neg]
  rw [hstate]
  intro hconnected
  cases hconnected

theorem shutdown_closed (h : Sending conn replies) (hclosed : replies.any Reply.closes = true) :
    conn.shutdown = conn := by
  have hstate := h.state
  rw [hclosed, if_pos rfl] at hstate
  rw [TcpConnection.shutdown, if_neg]
  rw [hstate]
  intro hconnected
  cases hconnected

theorem send (h : Sending conn replies) (hopen : replies.any Reply.closes = false)
    (message : List UInt8) (result : Option ℕ) :
    (conn.send message result).Delivers (Reply.sent replies ++ message) ∧
      (conn.send message result).state_ = .kConnected ∧
      (conn.send message result).socket_.shutdownWrites = 0 := by
  have hstate := h.state
  have hwrites := h.shutdownWrites
  simp only [hopen, Bool.false_eq_true, if_false, false_and] at hstate hwrites
  obtain ⟨fs, hsends⟩ := conn.sendInLoop_spec message result
  rw [TcpConnection.send, if_pos hstate]
  refine ⟨h.delivers.sends hsends, hsends.queues.state.trans hstate, ?_⟩
  rw [hsends.socket]
  exact hwrites

/-- A reply is sent if none before it has closed the connection. -/
theorem reply (h : Sending conn replies) (reply : Reply) (results : List (Option ℕ)) :
    Sending (HttpConnection.perform conn
        ([.send reply.text] ++ if reply.closes then [.shutdown] else []) results)
      (replies ++ [reply]) := by
  cases hclosed : replies.any Reply.closes with
  | true =>
    have heq : HttpConnection.perform conn
        ([.send reply.text] ++ if reply.closes then [.shutdown] else []) results = conn := by
      cases reply.closes with
      | true =>
        simp only [if_true, List.cons_append, List.nil_append, HttpConnection.perform,
          h.send_closed hclosed, h.shutdown_closed hclosed]
      | false =>
        simp only [Bool.false_eq_true, if_false, List.append_nil, HttpConnection.perform,
          h.send_closed hclosed]
    rw [heq]
    refine ⟨Reply.sent_append_of_closed hclosed [reply] ▸ h.delivers, ?_, ?_⟩
    · rw [List.any_append, hclosed, Bool.true_or, h.state, hclosed]
    · rw [List.any_append, hclosed, Bool.true_or, h.shutdownWrites, hclosed]
  | false =>
    obtain ⟨hdelivers, hstate, hwrites⟩ := h.send hclosed reply.text (results.headD none)
    rw [← Reply.sent_append_of_open hclosed] at hdelivers
    have hany : (replies ++ [reply]).any Reply.closes = reply.closes := by
      rw [List.any_append, hclosed, List.any_cons, List.any_nil, Bool.or_false, Bool.false_or]
    cases hcloses : reply.closes with
    | false =>
      refine ⟨hdelivers, ?_, ?_⟩
      · rw [hany, hcloses]
        exact hstate
      · rw [hany, hcloses]
        exact hwrites
    | true =>
      obtain ⟨hstate', hout, hwrites'⟩ := hdelivers.shutdown_connected hstate
      refine ⟨hdelivers.shutdown, ?_, ?_⟩
      · rw [hany, hcloses]
        exact hstate'
      · rw [hany, hcloses]
        simp only [if_true, List.cons_append, List.nil_append, HttpConnection.perform, true_and]
        rw [hout, hwrites', hwrites, Nat.zero_add]

theorem handleWrite (h : Sending conn replies) (result : Option ℕ) :
    Sending (conn.handleWrite result) replies := by
  obtain ⟨hstate, hwrites⟩ := h.delivers.handleWrite_shutdownWrites result
  refine ⟨h.delivers.handleWrite result, hstate.trans h.state, ?_⟩
  rw [hwrites, h.shutdownWrites, h.state]
  cases replies.any Reply.closes with
  | false => rfl
  | true =>
    by_cases hnil : conn.outputBuffer_.content = []
    · have hkeep : conn.handleWrite result = conn := by
        rw [TcpConnection.handleWrite, if_neg]
        intro hwriting
        exact h.delivers.watching.mp hwriting hnil
      simp [hkeep, hnil]
    · simp [hnil]

end Sending

theorem inputBuffer_perform (conn : TcpConnection) (effects : List HttpEffect)
    (results : List (Option ℕ)) :
    (HttpConnection.perform conn effects results).inputBuffer_ = conn.inputBuffer_ := by
  induction effects generalizing conn results with
  | nil => rfl
  | cons effect effects ih =>
    cases effect with
    | httpCallback req => exact ih conn results
    | send data => exact (ih _ _).trans (conn.inputBuffer_send data _)
    | shutdown => exact (ih _ _).trans conn.inputBuffer_shutdown

theorem Sending.setInputBuffer {conn : TcpConnection} {replies : List Reply}
    (h : Sending conn replies) (buf : Buffer) : Sending (conn.setInputBuffer buf) replies where
  delivers := ⟨h.delivers.valid, h.delivers.delivered, h.delivers.watching⟩
  state := h.state
  shutdownWrites := h.shutdownWrites

namespace HttpConnection

/-- The connection has made the replies and goes on with the bytes `r` of the stream. -/
structure Converses (c : HttpConnection) (r : List UInt8) (replies : List Reply) : Prop where
  serves : Serves c.context c.conn.inputBuffer_ r
  sending : Sending c.conn replies

variable {c : HttpConnection} {r : List UInt8} {replies : List Reply}

theorem converses_established (loop : EventLoop ConnFunctor) (name this fd : ℕ)
    (callbacks : Callbacks) : Converses (established loop name this fd callbacks) [] [] where
  serves := serves_fresh
  sending := Sending.established loop name this fd callbacks

theorem Converses.handleWrite (h : Converses c r replies) (result : Option ℕ) :
    Converses { c with conn := c.conn.handleWrite result } r replies where
  serves := by
    have hbuf := c.conn.inputBuffer_handleWrite result
    rw [hbuf]
    exact h.serves
  sending := h.sending.handleWrite result

/-- A chunk is read and answered as the stream says. -/
theorem Converses.handleRead (h : Converses c r replies) {d : Delivery} (hd : d.data ≠ []) :
    ∃ c' r' new, c.handleRead d = some c' ∧ Answer r d r' new ∧
      Converses c' r' (replies ++ new) := by
  obtain ⟨hvalid, hcontent, -⟩ := h.serves.valid.readFd (some d.data)
  obtain ⟨context, buf, effects, hcall, hcalled⟩ := h.serves.called hvalid hcontent
  have hread : c.handleRead d =
      some ⟨perform (c.conn.setInputBuffer buf) effects d.results, context⟩ := by
    rw [HttpConnection.handleRead, if_neg hd]
    simp only [hcall, Option.map_some]
  have hbuf := inputBuffer_perform (c.conn.setInputBuffer buf) effects d.results
  have hsending := h.sending.setInputBuffer buf
  refine ⟨⟨perform (c.conn.setInputBuffer buf) effects d.results, context⟩, ?_⟩
  cases hcalled with
  | request time hfront hserves =>
    rename_i req n
    refine ⟨(r ++ d.data).drop n, [d.reply (req.setReceiveTime time)], hread,
      .request time hfront, ?_, ?_⟩
    · rw [hbuf]
      exact hserves
    · rw [HttpResponse.onRequest_respond]
      exact hsending.reply (d.reply (req.setReceiveTime time)) d.results
  | malformed hfront hserves =>
    refine ⟨r ++ d.data, [.badRequest], hread, .malformed hfront, ?_, ?_⟩
    · rw [hbuf]
      exact hserves
    · exact hsending.reply .badRequest d.results
  | incomplete hfront hserves =>
    refine ⟨r ++ d.data, [], hread, .incomplete hfront, hserves, ?_⟩
    rw [List.append_nil]
    exact hsending

theorem Converses.run (h : Converses c r replies) {steps : List SessionStep}
    (hdata : ∀ d ∈ steps.filterMap SessionStep.delivery, d.data ≠ []) :
    ∃ c' r' new, GuardedRuns.run step c steps = some c' ∧ Converses c' r' (replies ++ new) ∧
      Answered r (steps.filterMap SessionStep.delivery) new := by
  induction steps generalizing c r replies with
  | nil => exact ⟨c, r, [], rfl, by rwa [List.append_nil], .nil r⟩
  | cons a steps ih =>
    cases a with
    | handleWrite result => exact ih (h.handleWrite result) hdata
    | handleRead d =>
      obtain ⟨c₁, r₁, new₁, hread, hanswer, h₁⟩ := h.handleRead (hdata d List.mem_cons_self)
      obtain ⟨c₂, r₂, new₂, hrun, h₂, hlater⟩ :=
        ih h₁ fun e he => hdata e (List.mem_cons_of_mem _ he)
      refine ⟨c₂, r₂, new₁ ++ new₂, ?_, ?_, .cons hanswer hlater⟩
      · exact GuardedRuns.run_cons_eq_some.mpr ⟨c₁, hread, hrun⟩
      · rwa [← List.append_assoc]

end HttpConnection

end HttpServer

end ReactorNet
