import ReactorNet.HttpParsing

/-!
# A request does not depend on how it was received

`parseRequest` is called after every chunk until it rejects the request or has got all
of it. The run feeds the chunks to the line machine of the parser, so its outcome, the
bytes it consumes and the request are those of the whole stream.
-/
namespace ReactorNet.HttpContext

open VectorStorage TokenMachines

inductive ParseOutcome where
  | rejected
  | complete
  | waiting
deriving DecidableEq

structure ParseRun where
  context : HttpContext
  consumed : ℕ
  outcome : ParseOutcome

/-- Append a chunk, call `parseRequest` with the time it was received at, and go on with
the next chunk as long as the request is neither rejected nor complete. -/
def parseChunks (c : HttpContext) (buf : Buffer) :
    List (List UInt8 × Timestamp) → Option ParseRun
  | [] => some ⟨c, 0, .waiting⟩
  | (chunk, receiveTime) :: chunks => do
    let received := buf.append chunk
    let (c, left, ok) ← c.parseRequest received receiveTime
    let consumed := received.readableBytes - left.readableBytes
    if !ok then return ⟨c, consumed, .rejected⟩
    else if c.gotAll then return ⟨c, consumed, .complete⟩
    else
      let r ← parseChunks c left chunks
      return { r with consumed := consumed + r.consumed }

def outcome : Status Reading Parsed → ParseOutcome
  | .waiting _ => .waiting
  | .halted (.complete _) => .complete
  | .halted (.rejected _) => .rejected

theorem gotAll_untimed (c : HttpContext) : c.untimed.gotAll = c.gotAll := rfl

/-- A context that is still reading is not in the final state. -/
theorem Reading.gotAll_context (s : Reading) : s.context.gotAll = false := by
  cases s with
  | requestLine r => rfl
  | headers r => rfl

/-- The bytes one call has consumed are those the machine has taken. -/
theorem consumed_eq_taken {received left : Buffer} {taken : ℕ} (hv : received.Valid)
    (hleft : left.Valid) (hcontent : left.content = received.content.drop taken)
    (htaken : taken ≤ received.content.length) :
    received.readableBytes - left.readableBytes = taken := by
  rw [← hv.length_content, ← hleft.length_content, hcontent, List.length_drop]
  omega

theorem parseChunks_eq_feed {c : HttpContext} {buf : Buffer} {s : Reading} (hv : buf.Valid)
    (hcontext : c.untimed = s.context) (chunks : List (List UInt8 × Timestamp)) :
    ∃ r, parseChunks c buf chunks = some r ∧
      r.consumed = (requestParser.feed s buf.content (chunks.map Prod.fst)).taken ∧
      r.outcome = outcome (requestParser.feed s buf.content (chunks.map Prod.fst)).status ∧
      r.context.untimed =
        seen (requestParser.feed s buf.content (chunks.map Prod.fst)).status := by
  induction chunks generalizing c buf s with
  | nil => exact ⟨_, rfl, rfl, rfl, hcontext⟩
  | cons head chunks ih =>
    obtain ⟨chunk, receiveTime⟩ := head
    obtain ⟨hvalid, hcontent, -⟩ := hv.append chunk
    obtain ⟨c', left, ok, hparse, hleft, hrest, hreached⟩ :=
      parseRequest_eq_advance hvalid hcontext receiveTime
    have hconsumed := consumed_eq_taken hvalid hleft hrest (requestParser.advance_taken_le _ _)
    rw [hcontent] at hrest hreached hconsumed
    rw [parseChunks, List.map_cons, Machine.feed, hparse]
    rcases hp : requestParser.advance s (buf.content ++ chunk) with ⟨status, n⟩
    rw [hp] at hrest hreached hconsumed
    have hok := hreached.ok
    have hc' := hreached.context
    cases status with
    | waiting s' =>
      have hgot : c'.gotAll = false := by
        rw [← gotAll_untimed, hc']
        exact s'.gotAll_context
      obtain ⟨r, hr, htaken, houtcome, hcontext'⟩ := ih hleft hc'
      rw [hrest] at htaken houtcome hcontext'
      refine ⟨{ r with consumed := n + r.consumed }, ?_, ?_, houtcome, hcontext'⟩
      · simp [hok, hgot, hr, hconsumed, returned]
      · exact congrArg (n + ·) htaken
    | halted r =>
      cases r with
      | complete r =>
        have hgot : c'.gotAll = true := by
          rw [← gotAll_untimed, hc']
          rfl
        refine ⟨⟨c', n, .complete⟩, ?_, rfl, rfl, hc'⟩
        simp [hok, hgot, hconsumed, returned, Parsed.ok]
      | rejected r =>
        refine ⟨⟨c', n, .rejected⟩, ?_, rfl, rfl, hc'⟩
        simp [hok, hconsumed, returned, Parsed.ok]

/-- The outcome, the bytes consumed and the request of two runs of the parser agree when
they have received the same bytes, however these were cut. -/
theorem parse_fragmentation (chunks₁ chunks₂ : List (List UInt8 × Timestamp))
    (hstream : (chunks₁.map Prod.fst).flatten = (chunks₂.map Prod.fst).flatten) :
    ∃ r₁ r₂, parseChunks construct .fresh chunks₁ = some r₁ ∧
      parseChunks construct .fresh chunks₂ = some r₂ ∧
      r₁.outcome = r₂.outcome ∧ r₁.consumed = r₂.consumed ∧
      r₁.context.request_.method_ = r₂.context.request_.method_ ∧
      r₁.context.request_.path_ = r₂.context.request_.path_ ∧
      r₁.context.request_.query_ = r₂.context.request_.query_ ∧
      r₁.context.request_.version_ = r₂.context.request_.version_ ∧
      r₁.context.request_.headers_ = r₂.context.request_.headers_ := by
  have hstart : construct.untimed = (Reading.requestLine HttpRequest.construct).context := rfl
  obtain ⟨r₁, hr₁, hconsumed₁, houtcome₁, hcontext₁⟩ :=
    parseChunks_eq_feed Buffer.valid_fresh hstart chunks₁
  obtain ⟨r₂, hr₂, hconsumed₂, houtcome₂, hcontext₂⟩ :=
    parseChunks_eq_feed Buffer.valid_fresh hstart chunks₂
  rw [Buffer.content_fresh, requestParser.feed_eq_advance _ _ rfl, List.nil_append]
    at hconsumed₁ houtcome₁ hcontext₁ hconsumed₂ houtcome₂ hcontext₂
  rw [hstream] at hconsumed₁ houtcome₁ hcontext₁
  have hrequest : r₁.context.untimed.request_ = r₂.context.untimed.request_ := by
    rw [hcontext₁, hcontext₂]
  refine ⟨r₁, r₂, hr₁, hr₂, houtcome₁.trans houtcome₂.symm, hconsumed₁.trans hconsumed₂.symm,
    ?_, ?_, ?_, ?_, ?_⟩
  · exact (congrArg HttpRequest.method_ hrequest :)
  · exact (congrArg HttpRequest.path_ hrequest :)
  · exact (congrArg HttpRequest.query_ hrequest :)
  · exact (congrArg HttpRequest.version_ hrequest :)
  · exact (congrArg HttpRequest.headers_ hrequest :)

/-- A request cut between CR and LF, or received at once. -/
theorem parse_fragmentation_cutLine :
    ∃ r₁ r₂,
      parseChunks construct .fresh
        [(ascii "GET / HTTP/1.1\r", 1), (ascii "\nHost: a\r\n\r\n", 2)] = some r₁ ∧
      parseChunks construct .fresh [(ascii "GET / HTTP/1.1\r\nHost: a\r\n\r\n", 3)] = some r₂ ∧
      r₁.outcome = r₂.outcome ∧ r₁.consumed = r₂.consumed ∧
      r₁.context.request_.method_ = r₂.context.request_.method_ ∧
      r₁.context.request_.path_ = r₂.context.request_.path_ ∧
      r₁.context.request_.query_ = r₂.context.request_.query_ ∧
      r₁.context.request_.version_ = r₂.context.request_.version_ ∧
      r₁.context.request_.headers_ = r₂.context.request_.headers_ :=
  parse_fragmentation [(ascii "GET / HTTP/1.1\r", 1), (ascii "\nHost: a\r\n\r\n", 2)]
    [(ascii "GET / HTTP/1.1\r\nHost: a\r\n\r\n", 3)] (by decide)

end ReactorNet.HttpContext
