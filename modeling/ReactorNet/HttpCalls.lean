import ReactorNet.GuardedRuns
import ReactorNet.HttpParsing
import ReactorNet.HttpServer

/-!
# The calls of the request parser on a connection

Between two calls of `onMessage` a connection reads a request line or headers, and from
there the loop of `parseRequest` ends. A request line that was rejected stays in front of
the buffer, and the request keeps what was stored of it.
-/
namespace ReactorNet.HttpServer

open TokenMachines HttpContext HttpRequest

/-! ## Turns of the loop -/

/-- The turn after the first `n` is made. -/
def Made (receiveTime : Timestamp) (t : Turn) (n : ℕ) : Prop :=
  ∀ m ≤ n, ((parseTurn receiveTime)^[m] t).hasMore = true

theorem turn_stuck {t : Turn}
    (h : t.context.state_ = .kExpectBody ∨ t.context.state_ = .kGotAll) (receiveTime : Timestamp)
    (n : ℕ) : (parseTurn receiveTime)^[n] t = t := by
  apply Function.iterate_fixed
  rcases h with h | h <;> simp only [parseTurn, h]

theorem reads_turn {t : Turn} {s : Reading} (h : Reads t s) (receiveTime : Timestamp) :
    (parseTurn receiveTime t).hasMore = false ∨
      (parseTurn receiveTime t).buf.readableBytes + 2 ≤ t.buf.readableBytes ∧
        ∃ r, Reads (parseTurn receiveTime t) (.headers r) := by
  cases hc : requestParser.cut t.buf.content with
  | none =>
    rw [parseTurn_none h receiveTime hc]
    exact Or.inl rfl
  | some token =>
    obtain ⟨line, n⟩ := token
    obtain ⟨-, hn, -⟩ := cut_iff.mp hc
    have hle : n ≤ t.buf.readableBytes := h.valid.length_content ▸ (requestParser.cut_bounds hc).2
    cases hs : readLine s line with
    | go s' =>
      obtain ⟨hreads, hbuf⟩ := parseTurn_go h receiveTime hc hs
      have hheaders : ∃ r, s' = .headers r := by
        cases s with
        | requestLine r =>
          simp only [readLine] at hs
          split at hs <;> cases hs
          exact ⟨_, rfl⟩
        | headers r =>
          simp only [readLine] at hs
          split at hs <;> cases hs
          exact ⟨_, rfl⟩
      obtain ⟨r, rfl⟩ := hheaders
      refine Or.inr ⟨?_, r, hreads⟩
      have hleft := hreads.valid.length_content
      rw [hbuf, (h.valid.retrieve hle).2, List.length_drop, h.valid.length_content] at hleft
      rw [hbuf]
      omega
    | halt r taken => exact Or.inl (parseTurn_halt h receiveTime hc hs).1

theorem reads_made {t : Turn} {s : Reading} (h : Reads t s) {receiveTime : Timestamp} {n : ℕ}
    (hn : Made receiveTime t n) :
    ((parseTurn receiveTime)^[n] t).buf.readableBytes + 2 * n ≤ t.buf.readableBytes ∧
      ∃ s', Reads ((parseTurn receiveTime)^[n] t) s' ∧ (n ≠ 0 → ∃ r, s' = .headers r) := by
  induction n with
  | zero => exact ⟨Nat.le_refl _, s, h, fun hzero => absurd rfl hzero⟩
  | succ n ih =>
    obtain ⟨hle, s', hreads, -⟩ := ih fun m hm => hn m (Nat.le_succ_of_le hm)
    have hmore := hn (n + 1) (Nat.le_refl _)
    rw [Function.iterate_succ_apply'] at hmore ⊢
    rcases reads_turn hreads receiveTime with hstop | ⟨hbytes, r, hnext⟩
    · rw [hstop] at hmore
      cases hmore
    · exact ⟨by omega, .headers r, hnext, fun _ => ⟨r, rfl⟩⟩

theorem reads_ends {t : Turn} {s : Reading} (h : Reads t s) (receiveTime : Timestamp) :
    ∃ n, ((parseTurn receiveTime)^[n] t).hasMore = false := by
  by_contra hnever
  have hmade : Made receiveTime t (t.buf.readableBytes + 1) :=
    fun m _ => Bool.eq_true_of_not_eq_false fun hstop => hnever ⟨m, hstop⟩
  have := (reads_made h hmade).1
  omega

/-! ## Calls -/

/-- What a connection keeps between two calls of `onMessage`. -/
structure Connection where
  context : HttpContext
  buf : Buffer

namespace Connection

def fresh : Connection := ⟨construct, .fresh⟩

/-- A chunk is appended to the input buffer and `onMessage` called. -/
def step (respond : Respond) (c : Connection) (chunk : List UInt8 × Timestamp) :
    Option Connection :=
  (onMessage respond c.context (c.buf.append chunk.1) chunk.2).map fun r => ⟨r.1, r.2.1⟩

/-- The variables with which `parseRequest` enters its loop. -/
def entry (c : Connection) (chunk : List UInt8 × Timestamp) : Turn :=
  ⟨c.context, c.buf.append chunk.1, true, true⟩

/-- The connection is about to read what the line machine reads. -/
structure Parses (c : Connection) (s : Reading) : Prop where
  valid : c.buf.Valid
  context : c.context.untimed = s.context

/-- What is read next when a call has left the line machine in a state. -/
def resume : Status Reading Parsed → Reading
  | .waiting s => s
  | .halted (.rejected r) => .requestLine r
  | .halted (.complete _) => .requestLine HttpRequest.construct

variable {c : Connection} {s : Reading}

theorem parses_fresh : fresh.Parses (.requestLine HttpRequest.construct) :=
  ⟨Buffer.valid_fresh, rfl⟩

theorem Parses.entry (h : c.Parses s) (chunk : List UInt8 × Timestamp) :
    Reads (c.entry chunk) s :=
  ⟨(h.valid.append chunk.1).1, h.context, rfl, rfl⟩

theorem Parses.step (h : c.Parses s) (respond : Respond) (chunk : List UInt8 × Timestamp) :
    ∃ c', c.step respond chunk = some c' ∧
      c'.Parses (resume (requestParser.advance s (c.buf.content ++ chunk.1)).status) ∧
      c'.buf.content = (c.buf.content ++ chunk.1).drop
        (requestParser.advance s (c.buf.content ++ chunk.1)).taken := by
  obtain ⟨hvalid, hcontent, -⟩ := h.valid.append chunk.1
  obtain ⟨context, left, ok, hparse, hleft, hrest, hreached⟩ :=
    parseRequest_eq_advance hvalid h.context chunk.2
  rw [hcontent] at hrest hreached
  have hcontext := hreached.context
  have hcall : c.step respond chunk =
      some ⟨if context.gotAll then context.reset else context, left⟩ := by
    cases hgot : context.gotAll <;> simp [Connection.step, onMessage, hparse, hgot]
  refine ⟨_, hcall, ⟨hleft, ?_⟩, hrest⟩
  cases hstatus : (requestParser.advance s (c.buf.content ++ chunk.1)).status with
  | waiting s' =>
    rw [hstatus] at hcontext
    have hgot : context.gotAll = false := by
      cases s' with
      | requestLine r => exact (congrArg gotAll hcontext :)
      | headers r => exact (congrArg gotAll hcontext :)
    rw [hgot]
    exact hcontext
  | halted p =>
    rw [hstatus] at hcontext
    cases p with
    | complete r =>
      have hgot : context.gotAll = true := (congrArg gotAll hcontext :)
      rw [hgot]
      rfl
    | rejected r =>
      have hgot : context.gotAll = false := (congrArg gotAll hcontext :)
      rw [hgot]
      exact hcontext

theorem run_parses (respond : Respond) (h : c.Parses s) (chunks : List (List UInt8 × Timestamp)) :
    ∃ c' s', GuardedRuns.run (Connection.step respond) c chunks = some c' ∧ c'.Parses s' := by
  induction chunks generalizing c s with
  | nil => exact ⟨c, s, rfl, h⟩
  | cons chunk chunks ih =>
    obtain ⟨c₁, hstep, h₁, -⟩ := h.step respond chunk
    obtain ⟨c', s', hrun, h'⟩ := ih h₁
    exact ⟨c', s', GuardedRuns.run_cons_eq_some.mpr ⟨c₁, hstep, hrun⟩, h'⟩

/-- Every call of `parseRequest` returns: the context is never in one of the two states
in which the loop goes on forever, and a turn consumes at least the two bytes of its
line end or is the last one. -/
theorem parseRequest_terminates (respond : Respond) (chunks : List (List UInt8 × Timestamp)) :
    (∀ t : Turn, t.context.state_ = .kExpectBody ∨ t.context.state_ = .kGotAll →
      ∀ receiveTime n, (parseTurn receiveTime)^[n] t = t) ∧
    ∃ c, GuardedRuns.run (step respond) fresh chunks = some c ∧
      c.context.state_ ≠ .kExpectBody ∧ c.context.state_ ≠ .kGotAll ∧
      ∀ chunk : List UInt8 × Timestamp,
        (c.context.parseRequest (c.buf.append chunk.1) chunk.2).isSome = true ∧
        (∃ n, ((parseTurn chunk.2)^[n] (c.entry chunk)).hasMore = false) ∧
        ∀ n, Made chunk.2 (c.entry chunk) n →
          ((parseTurn chunk.2)^[n + 1] (c.entry chunk)).hasMore = false ∨
            ((parseTurn chunk.2)^[n + 1] (c.entry chunk)).buf.readableBytes + 2 ≤
              ((parseTurn chunk.2)^[n] (c.entry chunk)).buf.readableBytes := by
  obtain ⟨c, s, hrun, h⟩ := run_parses respond parses_fresh chunks
  have hstate := congrArg HttpContext.state_ h.context
  refine ⟨fun t ht receiveTime n => turn_stuck ht receiveTime n, c, hrun, ?_, ?_, ?_⟩
  · intro hbody
    cases s <;> cases hstate.symm.trans hbody
  · intro hall
    cases s <;> cases hstate.symm.trans hall
  · intro chunk
    refine ⟨?_, reads_ends (h.entry chunk) chunk.2, ?_⟩
    · obtain ⟨context, left, ok, hparse, -⟩ :=
        parseRequest_eq_advance (h.valid.append chunk.1).1 h.context chunk.2
      rw [hparse]
      rfl
    · intro n hn
      obtain ⟨-, s', hreads, -⟩ := reads_made (h.entry chunk) hn
      rw [Function.iterate_succ_apply']
      rcases reads_turn hreads chunk.2 with hstop | ⟨hbytes, -⟩
      · exact Or.inl hstop
      · exact Or.inr hbytes

end Connection

end ReactorNet.HttpServer
