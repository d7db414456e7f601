import ReactorNet.HttpReplyStream
import ReactorNet.HttpSession
import ReactorNet.SimpleServer

/-!
# A client that waits for its replies

A client and the server with a stream of bytes in each direction. The client sends a request when
it has read the reply to the one before; the network cuts both streams anywhere, and the kernel
takes as much at a time as it likes.
-/
namespace ReactorNet.HttpServer

open HttpContext HttpResponse ResponseReader FrameStreams

/-- `toServer` is on its way to the server; of what the server has written the client has seen
the first `seen` bytes. -/
structure Conversation where
  server : HttpConnection
  requests : List RequestText
  toServer : List UInt8
  seen : ℕ

inductive ConversationStep where
  | request (t : RequestText)
  | deliver (d : Delivery)
  | handleWrite (result : Option ℕ)
  | receive (n : ℕ)

namespace Conversation

def start (loop : EventLoop ConnFunctor) (name this fd : ℕ) (callbacks : Callbacks) :
    Conversation where
  server := .established loop name this fd callbacks
  requests := []
  toServer := []
  seen := 0

/-- The bytes the client has received. -/
def received (s : Conversation) : List UInt8 := s.server.conn.socket_.written.take s.seen

/-- The replies it has read by their lengths. -/
def replies (s : Conversation) : List (Result × List UInt8) := (responses.drain s.received).items

def step (s : Conversation) : ConversationStep → Option Conversation
  | .request t =>
    if s.replies.length = s.requests.length then
      some { s with requests := s.requests ++ [t], toServer := s.toServer ++ t.render }
    else none
  | .deliver d =>
    if d.data <+: s.toServer then
      (s.server.handleRead d).map fun server =>
        { s with server := server, toServer := s.toServer.drop d.data.length }
    else none
  | .handleWrite result =>
    some { s with server := { s.server with conn := s.server.conn.handleWrite result } }
  | .receive n => some { s with seen := s.seen + n }

/-- One of the callbacks has answered the request, at some time. -/
def Answers (Callback : (HttpRequest → HttpResponse → HttpResponse) → Prop) (t : RequestText)
    (r : HttpResponse) : Prop :=
  ∃ httpCallback_, Callback httpCallback_ ∧ ∃ time,
    r = httpCallback_ ((requestOf t).setReceiveTime time) (construct (wantsClose (requestOf t)))

variable {Callback : (HttpRequest → HttpResponse → HttpResponse) → Prop}

/-- Where the last request is: on its way, with the bytes `r` of it read by the server, or
answered. The replies before it keep the connection. -/
inductive Phase (Callback : (HttpRequest → HttpResponse → HttpResponse) → Prop) :
    List UInt8 → List UInt8 → List RequestText → List HttpResponse → Prop
  | start : Phase Callback [] [] [] []
  | pending {r toServer : List UInt8} {t : RequestText} {requests : List RequestText}
      {replies : List HttpResponse} (hbytes : r ++ toServer = t.render) (hrest : toServer ≠ [])
      (hanswers : List.Forall₂ (Answers Callback) requests replies)
      (hopen : ∀ x ∈ replies, x.closeConnection_ = false) :
      Phase Callback r toServer (requests ++ [t]) replies
  | answered {t : RequestText} {x : HttpResponse} {requests : List RequestText}
      {replies : List HttpResponse} (hreply : Answers Callback t x)
      (hanswers : List.Forall₂ (Answers Callback) requests replies)
      (hopen : ∀ x ∈ replies, x.closeConnection_ = false) :
      Phase Callback [] [] (requests ++ [t]) (replies ++ [x])

namespace Phase

variable {r toServer : List UInt8} {requests : List RequestText} {replies : List HttpResponse}

theorem notClosed (h : Phase Callback r toServer requests replies) :
    ∀ x ∈ replies.dropLast, x.closeConnection_ = false := by
  cases h with
  | start => exact fun x hx => (List.not_mem_nil hx).elim
  | pending _ _ _ hopen => exact fun x hx => hopen x (List.mem_of_mem_dropLast hx)
  | answered _ _ hopen =>
    rw [List.dropLast_concat]
    exact hopen

/-- All requests are answered in their order, except perhaps the last one. -/
theorem answers (h : Phase Callback r toServer requests replies) :
    List.Forall₂ (Answers Callback) (requests.take replies.length) replies ∧
      requests.length ≤ replies.length + 1 ∧
      (toServer = [] → replies.length = requests.length) := by
  cases h with
  | start => exact ⟨.nil, Nat.zero_le _, fun _ => rfl⟩
  | pending hbytes hrest hanswers hopen =>
    refine ⟨?_, ?_, fun hnil => absurd hnil hrest⟩
    · rw [← hanswers.length_eq, List.take_left]
      exact hanswers
    · rw [← hanswers.length_eq, List.length_append]
      exact Nat.le_refl _
  | answered hreply hanswers hopen =>
    have hall := List.rel_append hanswers (.cons hreply .nil)
    rw [← hall.length_eq, List.take_length]
    exact ⟨hall, Nat.le_succ _, fun _ => rfl⟩

end Phase

theorem readable_answers {requests : List RequestText} {replies : List HttpResponse}
    (hP : ∀ cb, Callback cb → ∀ req close, (cb req (construct close)).Readable)
    (h : List.Forall₂ (Answers Callback) requests replies) : ∀ x ∈ replies, x.Readable := by
  induction h with
  | nil => exact fun x hx => (List.not_mem_nil hx).elim
  | cons hreply _ ih =>
    intro x hx
    rcases List.mem_cons.mp hx with rfl | hx
    · obtain ⟨cb, hcb, time, rfl⟩ := hreply
      exact hP cb hcb _ _
    · exact ih x hx

theorem Phase.orderly {r toServer : List UInt8} {requests : List RequestText}
    {replies : List HttpResponse} (h : Phase Callback r toServer requests replies)
    (hP : ∀ cb, Callback cb → ∀ req close, (cb req (construct close)).Readable) :
    Orderly replies where
  readable := readable_answers hP h.answers.1
  notClosed := h.notClosed

/-! ## What the server sends -/

theorem any_closes (replies : List HttpResponse) :
    (replies.map Reply.response).any Reply.closes = replies.any closeConnection_ := by
  rw [List.any_map]
  rfl

theorem sent_open {replies : List HttpResponse} (h : ∀ x ∈ replies, x.closeConnection_ = false) :
    Reply.sent (replies.map .response) = (replies.map text).flatten := by
  induction replies with
  | nil => rfl
  | cons x replies ih =>
    have hx : (Reply.response x).closes = false := h x List.mem_cons_self
    rw [List.map_cons, Reply.sent, hx, ih fun y hy => h y (List.mem_cons_of_mem _ hy)]
    rfl

/-- Only the last reply closes, so all of them are sent. -/
theorem sent_orderly {replies : List HttpResponse}
    (h : ∀ x ∈ replies.dropLast, x.closeConnection_ = false) :
    Reply.sent (replies.map .response) = (replies.map text).flatten := by
  rcases List.eq_nil_or_concat' replies with rfl | ⟨opens, last, rfl⟩
  · rfl
  · rw [List.dropLast_concat] at h
    have hopen : (opens.map Reply.response).any Reply.closes = false := by
      rw [any_closes, List.any_eq_false]
      intro x hx
      rw [h x hx]
      exact Bool.false_ne_true
    rw [List.map_append, List.map_cons, List.map_nil, Reply.sent_append_of_open hopen,
      sent_open h]
    simp [Reply.text]

/-! ## What the server finds in the stream -/

theorem front_render (t : RequestText) :
    requestFrames.front t.render = .item (requestOf t) t.render.length := by
  have h : requestFrames.front (t.render ++ []) = .item (requestOf t) t.render.length :=
    front_item.mpr (advance_render t [])
  rwa [List.append_nil] at h

theorem render_ne_nil (t : RequestText) : t.render ≠ [] :=
  List.ne_nil_of_length_pos (requestFrames.item_bounds (front_render t)).1

/-- A part of a request is waited for, the whole of it is answered. -/
theorem answer_render {t : RequestText} {r rest r' : List UInt8} {d : Delivery} {new : List Reply}
    (hbytes : r ++ (d.data ++ rest) = t.render) (h : Answer r d r' new) :
    (rest ≠ [] ∧ r' = r ++ d.data ∧ new = []) ∨ (rest = [] ∧ r' = [] ∧ ∃ time,
      new = [d.reply ((requestOf t).setReceiveTime time)]) := by
  rw [← List.append_assoc] at hbytes
  have hwhole := front_render t
  by_cases hrest : rest = []
  · rw [hrest, List.append_nil] at hbytes
    rw [← hbytes] at hwhole
    refine Or.inr ⟨hrest, ?_⟩
    cases h with
    | request time hfront =>
      obtain ⟨rfl, rfl⟩ := Verdict.item.inj (hfront.symm.trans hwhole)
      exact ⟨List.drop_length, time, rfl⟩
    | malformed hfront => cases hfront.symm.trans hwhole
    | incomplete hfront => cases hfront.symm.trans hwhole
  · have hlt : (r ++ d.data).length < t.render.length := by
      have hlength := congrArg List.length hbytes
      have hpos := List.length_pos_iff.mpr hrest
      rw [List.length_append] at hlength
      omega
    have hpart := requestFrames.front_take hwhole hlt
    rw [← hbytes, List.take_left] at hpart
    refine Or.inl ⟨hrest, ?_⟩
    cases h with
    | request time hfront => cases hfront.symm.trans hpart
    | malformed hfront => cases hfront.symm.trans hpart
    | incomplete hfront => exact ⟨rfl, rfl⟩

/-- A client that has read as many replies as it has sent requests sends the next one. -/
theorem Phase.request {r toServer : List UInt8} {requests : List RequestText}
    {replies : List HttpResponse} (h : Phase Callback r toServer requests replies)
    (hread : requests.length ≤ replies.length)
    (hopen : requests.length = replies.length → ∀ x ∈ replies, x.closeConnection_ = false)
    (t : RequestText) : Phase Callback r (toServer ++ t.render) (requests ++ [t]) replies := by
  cases h with
  | start => exact .pending rfl (render_ne_nil t) .nil (hopen rfl)
  | pending hbytes hrest hanswers _ =>
    rw [List.length_append, hanswers.length_eq] at hread
    exact absurd hread (Nat.not_succ_le_self _)
  | answered hreply hanswers _ =>
    have hall := List.rel_append hanswers (.cons hreply .nil)
    exact .pending rfl (render_ne_nil t) hall (hopen hall.length_eq)

theorem Phase.deliver {r r' rest : List UInt8} {d : Delivery} {new : List Reply}
    {requests : List RequestText} {replies : List HttpResponse}
    (h : Phase Callback r (d.data ++ rest) requests replies) (hne : d.data ≠ [])
    (hd : Callback d.httpCallback_) (hanswer : Answer r d r' new) :
    ∃ more : List HttpResponse, new = more.map .response ∧
      Phase Callback r' rest requests (replies ++ more) := by
  have hdata : d.data ++ rest ≠ [] := fun hnil => hne (List.append_eq_nil_iff.mp hnil).1
  generalize hbytes : d.data ++ rest = toServer at h hdata
  cases h with
  | start => exact absurd rfl hdata
  | answered => exact absurd rfl hdata
  | pending hrender hpending hanswers hopen =>
    rw [← hbytes] at hrender
    rcases answer_render hrender hanswer with ⟨hmore, rfl, rfl⟩ | ⟨rfl, rfl, time, rfl⟩
    · refine ⟨[], rfl, ?_⟩
      rw [List.append_nil]
      refine .pending ?_ hmore hanswers hopen
      rw [List.append_assoc, hrender]
    · exact ⟨[_], rfl, .answered ⟨d.httpCallback_, hd, time, rfl⟩ hanswers hopen⟩

/-! ## Runs -/

/-- The server has made the replies and has the bytes `r` of the request in hand. -/
structure Sound (Callback : (HttpRequest → HttpResponse → HttpResponse) → Prop)
    (s : Conversation) (r : List UInt8) (replies : List HttpResponse) : Prop where
  converses : s.server.Converses r (replies.map .response)
  phase : Phase Callback r s.toServer s.requests replies

namespace Sound

variable {s s' : Conversation} {r : List UInt8} {replies : List HttpResponse}

theorem start (loop : EventLoop ConnFunctor) (name this fd : ℕ) (callbacks : Callbacks) :
    Sound Callback (start loop name this fd callbacks) [] [] where
  converses := HttpConnection.converses_established loop name this fd callbacks
  phase := .start

theorem delivered (h : Sound Callback s r replies) :
    s.server.conn.socket_.written ++ s.server.conn.outputBuffer_.content =
      (replies.map text).flatten := by
  rw [← sent_orderly h.phase.notClosed]
  exact h.converses.sending.delivers.delivered

/-- What the client has received is a part of the replies. -/
theorem received_eq (h : Sound Callback s r replies) :
    ∃ n, s.received = (replies.map text).flatten.take n := by
  refine ⟨min s.seen s.server.conn.socket_.written.length, ?_⟩
  rw [← h.delivered, received, List.take_append_of_le_length (Nat.min_le_right _ _),
    ← List.take_eq_take_min]

section Step

variable (hP : ∀ cb, Callback cb → ∀ req close, (cb req (construct close)).Readable)
include hP

theorem request (h : Sound Callback s r replies) {t : RequestText}
    (hs : s.step (.request t) = some s') : Sound Callback s' r replies := by
  simp only [step, Option.ite_none_right_eq_some, Option.some.injEq] at hs
  obtain ⟨hread, rfl⟩ := hs
  obtain ⟨n, hn⟩ := h.received_eq
  obtain ⟨k, hk, hlength, -, hall⟩ := (h.phase.orderly hP).items_take n
  rw [Conversation.replies, hn, hlength] at hread
  rw [hread] at hk hall
  exact ⟨h.converses, h.phase.request hk hall t⟩

omit hP in
theorem deliver (h : Sound Callback s r replies) {d : Delivery} (hd : Callback d.httpCallback_)
    (hs : s.step (.deliver d) = some s') : ∃ r' replies', Sound Callback s' r' replies' := by
  simp only [step, Option.ite_none_right_eq_some, Option.map_eq_some_iff] at hs
  obtain ⟨⟨rest, hrest⟩, server, hread, rfl⟩ := hs
  have hne : d.data ≠ [] := by
    intro hnil
    rw [HttpConnection.handleRead, if_pos hnil] at hread
    cases hread
  obtain ⟨c', r', new, hcall, hanswer, hconverses⟩ := h.converses.handleRead hne
  obtain rfl := Option.some.inj (hread.symm.trans hcall)
  have hphase := h.phase
  rw [← hrest] at hphase
  obtain ⟨more, rfl, hphase'⟩ := hphase.deliver hne hd hanswer
  refine ⟨r', replies ++ more, ?_, ?_⟩
  · rw [List.map_append]
    exact hconverses
  · have hleft : s.toServer.drop d.data.length = rest := by
      rw [← hrest, List.drop_left]
    rw [hleft]
    exact hphase'

theorem step (h : Sound Callback s r replies) {a : ConversationStep}
    (ha : ∀ d, a = .deliver d → Callback d.httpCallback_) (hs : s.step a = some s') :
    ∃ r' replies', Sound Callback s' r' replies' := by
  cases a with
  | request t => exact ⟨r, replies, h.request hP hs⟩
  | deliver d => exact h.deliver (ha d rfl) hs
  | handleWrite result =>
    cases hs
    exact ⟨r, replies, h.converses.handleWrite result, h.phase⟩
  | receive n =>
    cases hs
    exact ⟨r, replies, h.converses, h.phase⟩

theorem run (h : Sound Callback s r replies) {steps : List ConversationStep}
    (hsteps : ∀ d, .deliver d ∈ steps → Callback d.httpCallback_)
    (hr : GuardedRuns.run Conversation.step s steps = some s') :
    ∃ r' replies', Sound Callback s' r' replies' := by
  induction steps generalizing s r replies with
  | nil =>
    cases hr
    exact ⟨r, replies, h⟩
  | cons a steps ih =>
    obtain ⟨s₁, hs, hr⟩ := GuardedRuns.run_cons_eq_some.mp hr
    obtain ⟨r₁, replies₁, h₁⟩ := h.step hP (fun d hd => hsteps d (hd ▸ List.mem_cons_self)) hs
    exact ih h₁ (fun d hd => hsteps d (List.mem_cons_of_mem _ hd)) hr

end Step

end Sound

/-- Nothing is on its way any more: the client has received all that the server has to say. -/
structure Quiet (s : Conversation) : Prop where
  toServer : s.toServer = []
  written : s.server.conn.outputBuffer_.content = []
  seen : s.received = s.server.conn.socket_.written

/-- The client has read the answers to all its requests, and sends the next request unless the
connection is being closed. -/
structure Served (Callback : (HttpRequest → HttpResponse → HttpResponse) → Prop)
    (s : Conversation) (answers : List HttpResponse) : Prop where
  answered : List.Forall₂ (Answers Callback) s.requests answers
  read : (readReplies s.received (answers.any closeConnection_)).map HttpResponse.received =
    answers.map fun x => some x.content
  next : answers.any closeConnection_ = false → ∀ t, (s.step (.request t)).isSome = true

namespace Sound

variable {s : Conversation} {r : List UInt8} {answers : List HttpResponse}

theorem served (hP : ∀ cb, Callback cb → ∀ req close, (cb req (construct close)).Readable)
    (h : Sound Callback s r answers) (hs : Quiet s) : Served Callback s answers := by
  obtain ⟨hanswers, -, hall⟩ := h.phase.answers
  have hlength := hall hs.toServer
  have hwritten := h.delivered
  rw [hs.written, List.append_nil, ← hs.seen] at hwritten
  have hread := (h.phase.orderly hP).read_all
  rw [← hwritten] at hread
  refine ⟨?_, hread, fun hopen t => ?_⟩
  · rwa [hlength, List.take_length] at hanswers
  · have hitems : s.replies.length = answers.length := by
      have hlengths := congrArg List.length hread
      rw [hopen, readReplies, List.length_map, List.length_map] at hlengths
      simpa [Conversation.replies] using hlengths
    rw [Conversation.step, if_pos (hitems.trans hlength)]
    rfl

/-- What is on its way to the server can be delivered. -/
theorem deliver_all (h : Sound Callback s r answers)
    {cb : HttpRequest → HttpResponse → HttpResponse} (hcb : Callback cb) :
    ∃ moves s' r' answers', GuardedRuns.run Conversation.step s moves = some s' ∧
      (∀ a ∈ moves, ∃ d : Delivery, a = .deliver d ∧ d.httpCallback_ = cb) ∧
      s'.requests = s.requests ∧ s'.toServer = [] ∧ Sound Callback s' r' answers' := by
  by_cases hnil : s.toServer = []
  · exact ⟨[], s, r, answers, rfl, fun a ha => (List.not_mem_nil ha).elim, rfl, hnil, h⟩
  · obtain ⟨c', -, -, hread, -⟩ :=
      h.converses.handleRead (d := ⟨s.toServer, Timestamp.invalid, cb, []⟩) hnil
    have hstep : s.step (.deliver ⟨s.toServer, Timestamp.invalid, cb, []⟩) =
        some { s with server := c', toServer := s.toServer.drop s.toServer.length } := by
      rw [Conversation.step, if_pos (List.prefix_refl _), hread]
      rfl
    obtain ⟨r', answers', h'⟩ := h.deliver hcb hstep
    refine ⟨[.deliver ⟨s.toServer, Timestamp.invalid, cb, []⟩],
      { s with server := c', toServer := s.toServer.drop s.toServer.length }, r', answers', ?_, ?_,
      rfl, List.drop_length, h'⟩
    · rw [GuardedRuns.run_cons, hstep]
      rfl
    · intro a ha
      exact ⟨_, List.mem_singleton.mp ha, rfl⟩

/-- The output buffer can be written. -/
theorem write_all (h : Sound Callback s r answers) :
    ∃ result, (s.server.conn.handleWrite result).outputBuffer_.content = [] := by
  have hdelivers := h.converses.sending.delivers
  refine ⟨some s.server.conn.outputBuffer_.readableBytes, ?_⟩
  cases hwriting : s.server.conn.channel_.isWriting with
  | true =>
    have hle : s.server.conn.outputBuffer_.readableBytes ≤
        (some s.server.conn.outputBuffer_.readableBytes).getD 0 := Nat.le_refl _
    obtain ⟨-, -, hnil, -⟩ := hdelivers.handleWrite_drains hwriting hle
    exact hnil
  | false =>
    have hnil : s.server.conn.outputBuffer_.content = [] := by
      simpa [hwriting] using hdelivers.watching
    have hnot : ¬ s.server.conn.channel_.isWriting = true := by
      rw [hwriting]
      exact Bool.false_ne_true
    rw [TcpConnection.handleWrite, if_neg hnot]
    exact hnil

theorem quiet (h : Sound Callback s r answers)
    {cb : HttpRequest → HttpResponse → HttpResponse} (hcb : Callback cb) :
    ∃ moves s', GuardedRuns.run Conversation.step s moves = some s' ∧
      (∀ t, ConversationStep.request t ∉ moves) ∧
      (∀ d, ConversationStep.deliver d ∈ moves → d.httpCallback_ = cb) ∧
      s'.requests = s.requests ∧ Quiet s' := by
  obtain ⟨moves, s₁, r₁, answers₁, hrun, hmoves, hrequests, hserver, h₁⟩ := h.deliver_all hcb
  obtain ⟨result, hresult⟩ := h₁.write_all
  let written := (s₁.server.conn.handleWrite result).socket_.written
  refine ⟨moves ++ [.handleWrite result, .receive written.length],
    ⟨{ s₁.server with conn := s₁.server.conn.handleWrite result }, s₁.requests, s₁.toServer,
      s₁.seen + written.length⟩, ?_, ?_, ?_, hrequests, hserver, hresult, ?_⟩
  · rw [GuardedRuns.run_append, hrun]
    rfl
  · intro t ht
    rcases List.mem_append.mp ht with ht | ht
    · obtain ⟨d, hd, -⟩ := hmoves _ ht
      cases hd
    · simp at ht
  · intro d hd
    rcases List.mem_append.mp hd with hd | hd
    · obtain ⟨d', hd', hcb'⟩ := hmoves _ hd
      cases hd'
      exact hcb'
    · simp at hd
  · exact List.take_of_length_le (Nat.le_add_left _ _)

end Sound

/-- What the server has made of the requests, and what the client has of it. The output is these
answers and nothing else, of which only the last may close the connection; the client has read
the first of them, and once the output buffer is empty it can read them all. -/
structure InOrder (Callback : (HttpRequest → HttpResponse → HttpResponse) → Prop)
    (s : Conversation) (answers : List HttpResponse) : Prop where
  answered : List.Forall₂ (Answers Callback) (s.requests.take answers.length) answers
  waiting : s.requests.length ≤ answers.length + 1
  arrived : s.toServer = [] → answers.length = s.requests.length
  notClosed : ∀ x ∈ answers.dropLast, x.closeConnection_ = false
  sent : s.server.conn.socket_.written ++ s.server.conn.outputBuffer_.content =
    (answers.map text).flatten
  shutdownWrites : s.server.conn.socket_.shutdownWrites = if answers.any closeConnection_ ∧
    s.server.conn.outputBuffer_.content = [] then 1 else 0
  read : ∃ k ≤ answers.length, s.replies.map HttpResponse.received =
    (answers.take k).map fun x => some x.content
  readable : s.server.conn.outputBuffer_.content = [] →
    (readReplies s.server.conn.socket_.written
      (decide (s.server.conn.socket_.shutdownWrites = 1))).map HttpResponse.received =
        answers.map fun x => some x.content

/-- A client that waits for its replies is served in any run, however the network cuts the
streams and whatever the kernel takes at a time: all requests but perhaps the last are answered,
each by the user's callback and in their order, and none that has arrived completely is left
unanswered. -/
theorem conversation_in_order
    (hP : ∀ cb, Callback cb → ∀ req close, (cb req (construct close)).Readable)
    (loop : EventLoop ConnFunctor) (name this fd : ℕ) (callbacks : Callbacks)
    {steps : List ConversationStep} (hsteps : ∀ d, .deliver d ∈ steps → Callback d.httpCallback_)
    {s : Conversation}
    (hr : GuardedRuns.run step (start loop name this fd callbacks) steps = some s) :
    ∃ answers, InOrder Callback s answers := by
  obtain ⟨r, answers, h⟩ := (Sound.start loop name this fd callbacks).run hP hsteps hr
  obtain ⟨hanswers, hlast, hall⟩ := h.phase.answers
  have horder := h.phase.orderly hP
  have hshut := h.converses.sending.shutdownWrites
  rw [any_closes] at hshut
  refine ⟨answers, hanswers, hlast, hall, h.phase.notClosed, h.delivered, hshut, ?_, ?_⟩
  · obtain ⟨n, hn⟩ := h.received_eq
    obtain ⟨k, hk, -, hreceived, -⟩ := horder.items_take n
    refine ⟨k, hk, ?_⟩
    rw [replies, hn]
    exact hreceived
  · intro hnil
    have hwritten := h.delivered
    rw [hnil, List.append_nil] at hwritten
    have hfin : decide (s.server.conn.socket_.shutdownWrites = 1) =
        answers.any closeConnection_ := by
      rw [hshut, hnil]
      cases answers.any closeConnection_ with
      | true => rfl
      | false => rfl
    rw [hfin, hwritten]
    exact horder.read_all

theorem kGet_known : HttpRequest.Method.kGet ≠ .kInvalid := by decide

theorem kHttp11_known : HttpRequest.Version.kHttp11 ≠ .kUnknown := by decide

theorem hostName_ok : COLON ∉ ascii "Host" ∧ CR ∉ ascii "Host" ∧ LF ∉ ascii "Host" := by decide

theorem hostValue_ok : CR ∉ ascii "a" ∧ LF ∉ ascii "a" := by decide

theorem helloPath_ok : SP ∉ ascii "/hello" ∧ QUESTION ∉ ascii "/hello" ∧ CR ∉ ascii "/hello" ∧
    LF ∉ ascii "/hello" := by decide

theorem noQuery_ok : SP ∉ ([] : List UInt8) ∧ CR ∉ ([] : List UInt8) ∧ LF ∉ ([] : List UInt8) := by
  decide

/-- A request for a page of the example server. -/
def helloRequest : RequestText where
  method := .kGet
  path := ascii "/hello"
  query := []
  version := .kHttp11
  headers := [⟨ascii "Host", ascii "a", hostName_ok, hostValue_ok⟩]
  method_known := kGet_known
  path_ok := helloPath_ok
  query_start := Or.inl rfl
  query_ok := noQuery_ok
  version_known := kHttp11_known

/-- It arrives in two parts, and its reply is written in two parts. -/
def helloSteps : List ConversationStep :=
  [.request helloRequest,
    .deliver ⟨helloRequest.render.take 9, 1, SimpleServer.onRequest (ascii "now"), []⟩,
    .deliver ⟨helloRequest.render.drop 9, 2, SimpleServer.onRequest (ascii "later"), [some 30]⟩,
    .receive 20, .handleWrite (some 500), .receive 500]

theorem run_helloSteps : ∃ s,
    GuardedRuns.run step (start EventLoop.idle 0 0 3 Callbacks.default) helloSteps = some s := by
  have hfirst : (start EventLoop.idle 0 0 3 Callbacks.default).step (.request helloRequest) =
      some { start EventLoop.idle 0 0 3 Callbacks.default with
        requests := [helloRequest]
        toServer := helloRequest.render } := by
    have hnone : (start EventLoop.idle 0 0 3 Callbacks.default).replies = [] := by
      rw [replies]
      exact congrArg Drained.items (responses.drain_more responses.front_nil)
    rw [step, hnone]
    rfl
  have hrest : (GuardedRuns.run step { start EventLoop.idle 0 0 3 Callbacks.default with
      requests := [helloRequest]
      toServer := helloRequest.render } helloSteps.tail).isSome = true := by
    decide +kernel
  obtain ⟨s, hs⟩ := Option.isSome_iff_exists.mp hrest
  exact ⟨s, GuardedRuns.run_cons_eq_some.mpr ⟨_, hfirst, hs⟩⟩

theorem readable_serves (cb : HttpRequest → HttpResponse → HttpResponse)
    (h : SimpleServer.Serves cb) (req : HttpRequest) (close : Bool) :
    (cb req (construct close)).Readable := by
  obtain ⟨now, hnow, rfl⟩ := h
  exact SimpleServer.readable_onRequest hnow req close

theorem serves_helloSteps (d : Delivery) (hd : .deliver d ∈ helloSteps) :
    SimpleServer.Serves d.httpCallback_ := by
  simp only [helloSteps, List.mem_cons, List.not_mem_nil, or_false, reduceCtorEq, false_or,
    ConversationStep.deliver.injEq] at hd
  rcases hd with rfl | rfl
  · exact ⟨ascii "now", by decide, rfl⟩
  · exact ⟨ascii "later", by decide, rfl⟩

theorem conversation_in_order_hello : ∃ s answers,
    GuardedRuns.run step (start EventLoop.idle 0 0 3 Callbacks.default) helloSteps = some s ∧
      InOrder SimpleServer.Serves s answers := by
  obtain ⟨s, hr⟩ := run_helloSteps
  obtain ⟨answers, h⟩ := conversation_in_order readable_serves EventLoop.idle 0 0 3
    Callbacks.default serves_helloSteps hr
  exact ⟨s, answers, hr, h⟩

/-- A conversation never gets stuck: from any state of any run the network and the kernel can let
everything arrive, without a further request, and whenever nothing is on its way the client has
read the answers to all its requests and can send the next one, unless an answer has closed the
connection. -/
theorem conversation_goes_on
    (hP : ∀ cb, Callback cb → ∀ req close, (cb req (construct close)).Readable)
    (loop : EventLoop ConnFunctor) (name this fd : ℕ) (callbacks : Callbacks)
    {steps : List ConversationStep} (hsteps : ∀ d, .deliver d ∈ steps → Callback d.httpCallback_)
    {s : Conversation}
    (hr : GuardedRuns.run step (start loop name this fd callbacks) steps = some s) :
    (∀ cb, Callback cb → ∃ moves s', GuardedRuns.run step s moves = some s' ∧
      (∀ t, ConversationStep.request t ∉ moves) ∧
      (∀ d, ConversationStep.deliver d ∈ moves → d.httpCallback_ = cb) ∧
      s'.requests = s.requests ∧ Quiet s') ∧
      (Quiet s → ∃ answers, Served Callback s answers) := by
  obtain ⟨r, answers, h⟩ := (Sound.start loop name this fd callbacks).run hP hsteps hr
  exact ⟨fun cb hcb => h.quiet hcb, fun hs => ⟨answers, h.served hP hs⟩⟩

theorem conversation_goes_on_hello : ∃ s,
    GuardedRuns.run step (start EventLoop.idle 0 0 3 Callbacks.default) helloSteps = some s ∧
      (∀ cb, SimpleServer.Serves cb → ∃ moves s', GuardedRuns.run step s moves = some s' ∧
        (∀ t, ConversationStep.request t ∉ moves) ∧
        (∀ d, ConversationStep.deliver d ∈ moves → d.httpCallback_ = cb) ∧
        s'.requests = s.requests ∧ Quiet s') ∧
      (Quiet s → ∃ answers, Served SimpleServer.Serves s answers) := by
  obtain ⟨s, hr⟩ := run_helloSteps
  exact ⟨s, hr, conversation_goes_on readable_serves EventLoop.idle 0 0 3 Callbacks.default
    serves_helloSteps hr⟩

end Conversation

end ReactorNet.HttpServer
