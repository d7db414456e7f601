import ReactorNet.FrameStreams
import ReactorNet.HttpRoundTrip
import ReactorNet.HttpServer

/-!
# Which requests a connection dispatches

The requests of a byte stream are the frames that a fresh parser takes from it one after
the other. A call of `onMessage` takes at most one of them, so a connection dispatches
them all exactly when its calls keep up with the requests that are completed.
-/
namespace ReactorNet.HttpServer

open TokenMachines FrameStreams HttpContext

/-- A fresh parser. -/
def start : Reading := .requestLine HttpRequest.construct

/-! ## Rejection -/

theorem processVersion_reject {r r' : HttpRequest} {version : List UInt8}
    (h : processVersion r version = (r', false)) : r' = r := by
  simp only [processVersion] at h
  split at h
  · split at h
    · cases h
    · split at h
      · cases h
      · cases h
        rfl
  · cases h
    rfl

theorem setTarget_setTarget (r : HttpRequest) (target : List UInt8) :
    setTarget (setTarget r target) target = setTarget r target := by
  simp only [setTarget]
  split <;> rfl

theorem processVersion_false (r : HttpRequest) {r₀ : HttpRequest} {version : List UInt8}
    (h : (processVersion r₀ version).2 = false) : processVersion r version = (r, false) := by
  simp only [processVersion] at h ⊢
  split at h
  · next hform =>
    rw [if_pos hform]
    split at h
    · cases h
    · next h11 =>
      rw [if_neg h11]
      split at h
      · cases h
      · next h10 => rw [if_neg h10]
  · next hform => rw [if_neg hform]

theorem processTarget_reject {r r' : HttpRequest} {line : List UInt8}
    (h : processTarget r line = (r', false)) :
    r'.method_ = r.method_ ∧ processTarget r' line = (r', false) := by
  simp only [processTarget] at h ⊢
  split at h
  · next hspace =>
    obtain rfl := processVersion_reject h
    rw [if_pos hspace, setTarget_setTarget]
    refine ⟨?_, processVersion_false _ (congrArg Prod.snd h)⟩
    simp only [setTarget]
    split <;> rfl
  · next hspace =>
    cases h
    rw [if_neg hspace]
    exact ⟨rfl, rfl⟩

/-- A request that has the method of the line keeps it. -/
theorem setMethod_again {r request r' : HttpRequest} {m : List UInt8} {known : Bool}
    (h : r.setMethod m = (request, known)) (hkept : r'.method_ = request.method_) :
    r'.setMethod m = (r', known) := by
  obtain ⟨hrequest, hknown⟩ := Prod.mk.inj h
  have hmethod : (r'.setMethod m).1.method_ = request.method_ := by
    rw [← hrequest]
    rfl
  apply Prod.ext
  · show { r' with method_ := (r'.setMethod m).1.method_ } = r'
    rw [hmethod, ← hkept]
  · exact hknown

/-- A rejected request line is rejected again, and changes the request no further. -/
theorem processRequestLine_reject {r r' : HttpRequest} {line : List UInt8}
    (h : processRequestLine r line = (r', false)) :
    processRequestLine r' line = (r', false) := by
  simp only [processRequestLine] at h ⊢
  split at h
  · next hspace =>
    rw [if_pos hspace]
    split at h
    · next request hmethod =>
      obtain ⟨hkept, htarget⟩ := processTarget_reject h
      rw [setMethod_again hmethod hkept]
      exact htarget
    · next request hmethod =>
      cases h
      rw [setMethod_again hmethod rfl]
  · next hspace =>
    cases h
    rw [if_neg hspace]

/-- The line a parser was rejected at is still in front, and is rejected again. -/
theorem advance_rejected {s : Reading} {r : HttpRequest} {xs : List UInt8}
    (h : (requestParser.advance s xs).status = .halted (.rejected r)) (t : List UInt8) :
    requestParser.advance (.requestLine r)
        (xs.drop (requestParser.advance s xs).taken ++ t) =
      ⟨.halted (.rejected r), 0⟩ := by
  induction s, xs using Machine.advance.induct requestParser with
  | case1 s xs hc =>
    rw [requestParser.advance_none hc] at h
    cases h
  | case2 s xs line n hc s' hs ih =>
    rw [requestParser.advance_go hc hs] at h ⊢
    simp only [Progress.after] at h ⊢
    rw [← List.drop_drop]
    exact ih h
  | case3 s xs line n hc p taken hs =>
    rw [requestParser.advance_halt hc hs] at h ⊢
    cases h
    cases s with
    | headers r₀ =>
      simp only [requestParser, readLine] at hs
      split at hs <;> cases hs
    | requestLine r₀ =>
      simp only [requestParser, readLine] at hs
      split at hs
      · cases hs
      · next r' hline =>
        cases hs
        have hagain : requestParser.step (.requestLine r) line = .halt (.rejected r) false := by
          simp only [requestParser, readLine, processRequestLine_reject hline]
        exact requestParser.advance_halt (requestParser.cut_append hc t) hagain

/-! ## The requests of a stream -/

/-- What a fresh parser makes of the bytes at the front of a stream. -/
def front (s : List UInt8) : Verdict HttpRequest HttpRequest :=
  match requestParser.advance start s with
  | ⟨.waiting _, _⟩ => .more
  | ⟨.halted (.rejected r), _⟩ => .fail r
  | ⟨.halted (.complete r), n⟩ => .item r n

/-- The empty line that completes a request has been taken. -/
theorem taken_pos {s : Reading} {r : HttpRequest} {xs : List UInt8}
    (h : (requestParser.advance s xs).status = .halted (.complete r)) :
    0 < (requestParser.advance s xs).taken := by
  induction s, xs using Machine.advance.induct requestParser with
  | case1 s xs hc =>
    rw [requestParser.advance_none hc] at h
    cases h
  | case2 s xs line n hc s' hs ih =>
    rw [requestParser.advance_go hc hs] at h ⊢
    exact Nat.add_pos_right n (ih h)
  | case3 s xs line n hc p taken hs =>
    rw [requestParser.advance_halt hc hs] at h ⊢
    cases h
    cases s with
    | requestLine r₀ =>
      simp only [requestParser, readLine] at hs
      split at hs <;> cases hs
    | headers r₀ =>
      simp only [requestParser, readLine] at hs
      split at hs
      · cases hs
      · cases hs
        exact (requestParser.cut_bounds hc).1

theorem front_item {s : List UInt8} {r : HttpRequest} {n : ℕ} :
    front s = .item r n ↔ requestParser.advance start s = ⟨.halted (.complete r), n⟩ := by
  rw [front]
  split
  · next heq => simp [heq]
  · next heq => simp [heq]
  · next heq => simp [heq]

theorem front_complete {s : List UInt8} {r : HttpRequest}
    (h : (requestParser.advance start s).status = .halted (.complete r)) :
    front s = .item r (requestParser.advance start s).taken := by
  rw [front_item, ← h]

theorem front_ne_item {s : List UInt8}
    (h : ∀ r, (requestParser.advance start s).status ≠ .halted (.complete r)) :
    ∀ r n, front s ≠ .item r n := by
  intro r n hf
  rw [front_item] at hf
  exact h r (by rw [hf])

theorem front_append {s : List UInt8} {p : Parsed}
    (h : (requestParser.advance start s).status = .halted p) (t : List UInt8) :
    front (s ++ t) = front s := by
  rw [front, requestParser.advance_append_halted h, front]

/-- The requests of a stream, as the frames of a parser. -/
def requestFrames : FrameParser UInt8 HttpRequest HttpRequest where
  front := front
  front_nil := by
    rw [front, requestParser.advance_none rfl]
  item_bounds := by
    intro s r n h
    have hp := front_item.mp h
    have hle := requestParser.advance_taken_le start s
    have hcomplete : (requestParser.advance start s).status = .halted (.complete r) := by rw [hp]
    have hpos := taken_pos hcomplete
    rw [hp] at hle hpos
    exact ⟨hpos, hle⟩
  item_append := by
    intro s r n h t
    have hp := front_item.mp h
    rw [front_append (by rw [hp]) t, h]
  fail_append := by
    intro s r h t
    rcases hp : requestParser.advance start s with ⟨status, n⟩
    cases status with
    | waiting s' =>
      rw [front, hp] at h
      cases h
    | halted p => rw [front_append (by rw [hp]) t, h]

/-- All complete requests of a stream, in order, up to the first malformed one. -/
def requests (s : List UInt8) : List HttpRequest := (requestFrames.drain s).items

/-- The request a text stands for, apart from its time of reception. -/
def requestOf (t : RequestText) : HttpRequest :=
  ⟨t.method, t.version, t.path, t.query, Timestamp.invalid, HeaderText.lastValue t.headers⟩

/-- Rendered requests sent one after the other are the requests of the stream. -/
theorem requests_render (texts : List RequestText) :
    requests (texts.map RequestText.render).flatten = texts.map requestOf := by
  induction texts with
  | nil => rw [requests, List.map_nil, List.flatten_nil,
      requestFrames.drain_more requestFrames.front_nil, List.map_nil]
  | cons t texts ih =>
    have hf : requestFrames.front (t.render ++ (texts.map RequestText.render).flatten) =
        .item (requestOf t) t.render.length := front_item.mpr (advance_render t _)
    rw [requests] at ih
    rw [List.map_cons, List.flatten_cons, requests, requestFrames.drain_item hf, List.drop_left,
      ih, List.map_cons]

/-! ## Calls of `onMessage` -/

/-- Whatever arrives next, the connection goes on like a fresh parser that still has
the bytes `r` to read, those behind the last dispatched request. -/
structure Serves (c : HttpContext) (buf : Buffer) (r : List UInt8) : Prop where
  valid : buf.Valid
  reading : ∃ s : Reading, c.untimed = s.context ∧ ∀ t,
    (requestParser.advance s (buf.content ++ t)).status =
        (requestParser.advance start (r ++ t)).status ∧
      (buf.content ++ t).drop (requestParser.advance s (buf.content ++ t)).taken =
        (r ++ t).drop (requestParser.advance start (r ++ t)).taken

theorem serves_fresh : Serves .construct .fresh [] where
  valid := Buffer.valid_fresh
  reading := by
    refine ⟨start, rfl, fun t => ?_⟩
    rw [Buffer.content_fresh]
    exact ⟨rfl, rfl⟩

/-- The state `s` goes on with the rest of `xs` like a fresh parser with all of it. -/
def Resumes (s : Reading) (xs : List UInt8) : Prop := ∀ t,
  (requestParser.advance s (xs.drop (requestParser.advance start xs).taken ++ t)).status =
      (requestParser.advance start (xs ++ t)).status ∧
    (xs.drop (requestParser.advance start xs).taken ++ t).drop (requestParser.advance s
        (xs.drop (requestParser.advance start xs).taken ++ t)).taken =
      (xs ++ t).drop (requestParser.advance start (xs ++ t)).taken

theorem resumes_waiting {s : Reading} {xs : List UInt8}
    (h : (requestParser.advance start xs).status = .waiting s) : Resumes s xs := by
  intro t
  have htaken := requestParser.advance_taken_le start xs
  rw [requestParser.advance_append_waiting h t]
  refine ⟨rfl, ?_⟩
  rw [Progress.after, ← List.drop_drop, List.drop_append_of_le_length htaken]

theorem resumes_rejected {req : HttpRequest} {xs : List UInt8}
    (h : (requestParser.advance start xs).status = .halted (.rejected req)) :
    Resumes (.requestLine req) xs := by
  intro t
  have htaken := requestParser.advance_taken_le start xs
  rw [requestParser.advance_append_halted h t, advance_rejected h t]
  refine ⟨h.symm, ?_⟩
  rw [List.drop_append_of_le_length htaken]
  rfl

/-- A call dispatches the request in front if it is complete, and nothing otherwise. -/
theorem Serves.onMessage {c : HttpContext} {buf : Buffer} {r : List UInt8}
    (h : Serves c buf r) (respond : Respond) (chunk : List UInt8) (receiveTime : Timestamp) :
    ∃ c' buf' effects,
      onMessage respond c (buf.append chunk) receiveTime = some (c', buf', effects) ∧
      ((∃ req n, front (r ++ chunk) = .item req n ∧ dispatched effects = [req] ∧
          Serves c' buf' ((r ++ chunk).drop n)) ∨
        ((∀ req n, front (r ++ chunk) ≠ .item req n) ∧ dispatched effects = [] ∧
          Serves c' buf' (r ++ chunk))) := by
  obtain ⟨s, hcontext, hagree⟩ := h.reading
  obtain ⟨hvalid, hcontent, -⟩ := h.valid.append chunk
  obtain ⟨c', left, ok, hparse, hleft, hrest, hreached⟩ :=
    parseRequest_eq_advance hvalid hcontext receiveTime
  obtain ⟨hstatus, hdrop⟩ := hagree chunk
  rw [hcontent, hdrop] at hrest
  rw [hcontent, hstatus] at hreached
  cases hstart : (requestParser.advance start (r ++ chunk)).status with
  | waiting s' =>
    rw [hstart] at hreached
    have hc' := hreached.context
    have hgot : c'.gotAll = false := by
      cases s' with
      | requestLine r' => exact (congrArg gotAll hc' :)
      | headers r' => exact (congrArg gotAll hc' :)
    refine ⟨c', left, [], ?_, Or.inr ⟨front_ne_item (by rw [hstart]; nofun), rfl, hleft, s', hc', ?_⟩⟩
    · simp [HttpServer.onMessage, hparse, hreached.ok, hgot, returned]
    · rw [hrest]
      exact resumes_waiting hstart
  | halted p =>
    rw [hstart] at hreached
    have hc' := hreached.context
    cases p with
    | complete req =>
      have hgot : c'.gotAll = true := (congrArg gotAll hc' :)
      have hreq : c'.request_.setReceiveTime Timestamp.invalid = req :=
        (congrArg HttpContext.request_ hc' :)
      refine ⟨c'.reset, left, onRequest respond c'.request_, ?_,
        Or.inl ⟨req, _, front_complete hstart, ?_, hleft, start, rfl, fun t => ?_⟩⟩
      · simp [HttpServer.onMessage, hparse, hreached.ok, hgot, returned, Parsed.ok]
      · rw [dispatched_onRequest, hreq]
      · rw [hrest]
        exact ⟨rfl, rfl⟩
    | rejected req =>
      have hgot : c'.gotAll = false := (congrArg gotAll hc' :)
      refine ⟨c', left, [.send badRequest, .shutdown], ?_,
        Or.inr ⟨front_ne_item (by rw [hstart]; nofun), rfl, hleft, .requestLine req, hc', ?_⟩⟩
      · simp [HttpServer.onMessage, hparse, hreached.ok, hgot, returned, Parsed.ok]
      · rw [hrest]
        exact resumes_rejected hstart

/-- A connection takes one request from the stream for each chunk, if it is there. -/
theorem receive_eq_serve (respond : Respond) {c : HttpContext} {buf : Buffer} {r : List UInt8}
    (h : Serves c buf r) (chunks : List (List UInt8 × Timestamp)) :
    ∃ c' buf' effects, receive respond c buf chunks = some (c', buf', effects) ∧
      dispatched effects = requestFrames.serve r (chunks.map Prod.fst) := by
  induction chunks generalizing c buf r with
  | nil => exact ⟨c, buf, [], rfl, rfl⟩
  | cons head chunks ih =>
    obtain ⟨chunk, receiveTime⟩ := head
    obtain ⟨c₁, buf₁, effects, hcall, hcase⟩ := h.onMessage respond chunk receiveTime
    rw [List.map_cons]
    rcases hcase with ⟨req, n, hf, hreq, hserves⟩ | ⟨hidle, hreq, hserves⟩
    · obtain ⟨c', buf', later, hlater, hrest⟩ := ih hserves
      refine ⟨c', buf', effects ++ later, by simp [receive, hcall, hlater], ?_⟩
      rw [requestFrames.serve_item hf, dispatched_append, hreq, hrest]
      rfl
    · obtain ⟨c', buf', later, hlater, hrest⟩ := ih hserves
      refine ⟨c', buf', effects ++ later, by simp [receive, hcall, hlater], ?_⟩
      rw [requestFrames.serve_idle hidle, dispatched_append, hreq, hrest, List.nil_append]

/-- From any point on, at most as many requests are completed as calls are made. -/
def KeepsUp (chunks : List (List UInt8)) : Prop :=
  ∀ before after, chunks = before ++ after →
    (requests chunks.flatten).length ≤ (requests before.flatten).length + after.length

theorem serve_eq_requests_iff (chunks : List (List UInt8)) :
    requestFrames.serve [] chunks = requests chunks.flatten ↔ KeepsUp chunks := by
  have hserve := requestFrames.serve_eq_items_iff [] chunks
  simp only [List.nil_append] at hserve
  rw [requests, hserve]
  constructor
  · intro h
    exact h.2
  · intro h
    have hall := h [] chunks rfl
    rw [List.flatten_nil, requests, requests, requestFrames.drain_more requestFrames.front_nil,
      List.length_nil, Nat.zero_add] at hall
    exact ⟨hall, h⟩

/-- Two ways of cutting a stream dispatch the same requests, all those in the stream,
exactly when the calls keep up with the requests in both. -/
theorem dispatch_iff_keepsUp (respond : Respond)
    (chunks₁ chunks₂ : List (List UInt8 × Timestamp))
    (hstream : (chunks₁.map Prod.fst).flatten = (chunks₂.map Prod.fst).flatten) :
    ∃ r₁ r₂, receive respond .construct .fresh chunks₁ = some r₁ ∧
      receive respond .construct .fresh chunks₂ = some r₂ ∧
      (dispatched r₁.2.2 = dispatched r₂.2.2 ∧
          dispatched r₁.2.2 = requests (chunks₁.map Prod.fst).flatten ↔
        KeepsUp (chunks₁.map Prod.fst) ∧ KeepsUp (chunks₂.map Prod.fst)) := by
  obtain ⟨c₁, buf₁, effects₁, hr₁, hserve₁⟩ := receive_eq_serve respond serves_fresh chunks₁
  obtain ⟨c₂, buf₂, effects₂, hr₂, hserve₂⟩ := receive_eq_serve respond serves_fresh chunks₂
  refine ⟨_, _, hr₁, hr₂, ?_⟩
  rw [← serve_eq_requests_iff, ← serve_eq_requests_iff, ← hserve₁, ← hserve₂, ← hstream]
  constructor
  · rintro ⟨hsame, hall⟩
    exact ⟨hall, hsame.symm.trans hall⟩
  · rintro ⟨hall₁, hall₂⟩
    exact ⟨hall₁.trans hall₂.symm, hall₁⟩

def pipelined : List UInt8 := ascii "GET /a HTTP/1.1\r\n\r\nGET /b HTTP/1.1\r\n\r\n"

theorem dispatch_iff_keepsUp_pipelined :
    ∃ r₁ r₂, receive (fun _ close => ([], close)) .construct .fresh [(pipelined, 1)] = some r₁ ∧
      receive (fun _ close => ([], close)) .construct .fresh
        [(pipelined.take 30, 1), (pipelined.drop 30, 2)] = some r₂ ∧
      (dispatched r₁.2.2 = dispatched r₂.2.2 ∧
          dispatched r₁.2.2 = requests ([(pipelined, (1 : Timestamp))].map Prod.fst).flatten ↔
        KeepsUp ([(pipelined, (1 : Timestamp))].map Prod.fst) ∧
          KeepsUp ([(pipelined.take 30, (1 : Timestamp)), (pipelined.drop 30, 2)].map Prod.fst)) :=
  dispatch_iff_keepsUp (fun _ close => ([], close)) [(pipelined, 1)]
    [(pipelined.take 30, 1), (pipelined.drop 30, 2)] (by decide)

/-- Two requests in one chunk: the second one is not dispatched. -/
theorem dispatch_depends_on_fragmentation :
    ¬ ∀ (respond : Respond) (chunks₁ chunks₂ : List (List UInt8 × Timestamp)),
      (chunks₁.map Prod.fst).flatten = (chunks₂.map Prod.fst).flatten →
      ∃ r₁ r₂, receive respond .construct .fresh chunks₁ = some r₁ ∧
        receive respond .construct .fresh chunks₂ = some r₂ ∧
        dispatched r₁.2.2 = dispatched r₂.2.2 := by
  intro h
  obtain ⟨r₁, r₂, hr₁, hr₂, hsame⟩ := h (fun _ close => ([], close)) [(pipelined, 1)]
    [(pipelined.take 30, 1), (pipelined.drop 30, 2)] (by decide)
  have hone : (receive (fun _ close => ([], close)) .construct .fresh [(pipelined, 1)]).map
      (fun r => (dispatched r.2.2).length) = some 1 := by
    decide +kernel
  have htwo : (receive (fun _ close => ([], close)) .construct .fresh
      [(pipelined.take 30, 1), (pipelined.drop 30, 2)]).map
      (fun r => (dispatched r.2.2).length) = some 2 := by
    decide +kernel
  rw [hr₁, Option.map_some, Option.some.injEq] at hone
  rw [hr₂, Option.map_some, Option.some.injEq, ← hsame, hone] at htwo
  cases htwo

end ReactorNet.HttpServer
