import ReactorNet.BufferByteQueue
import ReactorNet.HttpContext

/-!
# The request parser as a line machine

`parseRequest` takes whole lines from the readable bytes and decides by the line alone,
up to the time of reception. It advances a line machine whose states are the request
line and the headers still to be read; so the outcome of a stream of chunks is that of
the whole stream.
-/
namespace ReactorNet

open VectorStorage TokenMachines

namespace HttpContext

open HttpRequest

/-- What is read next, and the request so far. -/
inductive Reading where
  | requestLine (r : HttpRequest)
  | headers (r : HttpRequest)

inductive Parsed where
  | complete (r : HttpRequest)
  | rejected (r : HttpRequest)

def readLine : Reading → List UInt8 → Reply Reading Parsed
  | .requestLine r, line =>
    match processRequestLine r line with
    | (r', true) => .go (.headers r')
    | (r', false) => .halt (.rejected r') false
  | .headers r, line =>
    if line.idxOf COLON ≠ line.length then .go (.headers (r.addHeader line (line.idxOf COLON)))
    else .halt (.complete r) true

def requestParser : Machine UInt8 (List UInt8) Reading Parsed where
  toCutter := lines kCRLF (by decide)
  step := readLine

/-- The context in which the machine is seen. -/
def Reading.context : Reading → HttpContext
  | .requestLine r => ⟨.kExpectRequestLine, r⟩
  | .headers r => ⟨.kExpectHeaders, r⟩

def Parsed.context : Parsed → HttpContext
  | .complete r => ⟨.kGotAll, r⟩
  | .rejected r => ⟨.kExpectRequestLine, r⟩

def Parsed.ok : Parsed → Bool
  | .complete _ => true
  | .rejected _ => false

/-- The context and the value `parseRequest` returns with. -/
def seen : Status Reading Parsed → HttpContext
  | .waiting s => s.context
  | .halted r => r.context

def returned : Status Reading Parsed → Bool
  | .waiting _ => true
  | .halted r => r.ok

/-- The context apart from the time of reception. -/
def untimed (c : HttpContext) : HttpContext :=
  { c with request_ := c.request_.setReceiveTime Timestamp.invalid }

/-! ## The time of reception -/

theorem setMethod_setReceiveTime (r : HttpRequest) (t : Timestamp) (m : List UInt8) :
    (r.setReceiveTime t).setMethod m = ((r.setMethod m).1.setReceiveTime t, (r.setMethod m).2) := rfl

theorem processVersion_setReceiveTime (r : HttpRequest) (t : Timestamp) (version : List UInt8) :
    processVersion (r.setReceiveTime t) version =
      ((processVersion r version).1.setReceiveTime t, (processVersion r version).2) := by
  simp only [processVersion]
  split
  · split
    · rfl
    · split <;> rfl
  · rfl

theorem setTarget_setReceiveTime (r : HttpRequest) (t : Timestamp) (target : List UInt8) :
    setTarget (r.setReceiveTime t) target = (setTarget r target).setReceiveTime t := by
  simp only [setTarget]
  split <;> rfl

theorem processTarget_setReceiveTime (r : HttpRequest) (t : Timestamp) (line : List UInt8) :
    processTarget (r.setReceiveTime t) line =
      ((processTarget r line).1.setReceiveTime t, (processTarget r line).2) := by
  simp only [processTarget]
  split
  · rw [setTarget_setReceiveTime, processVersion_setReceiveTime]
  · rfl

theorem processRequestLine_setReceiveTime (r : HttpRequest) (t : Timestamp) (line : List UInt8) :
    processRequestLine (r.setReceiveTime t) line =
      ((processRequestLine r line).1.setReceiveTime t, (processRequestLine r line).2) := by
  simp only [processRequestLine]
  by_cases hspace : line.idxOf SP ≠ line.length
  · rw [if_pos hspace, if_pos hspace, setMethod_setReceiveTime]
    obtain ⟨request, known⟩ := r.setMethod (line.take (line.idxOf SP))
    cases known with
    | true => exact processTarget_setReceiveTime request t _
    | false => rfl
  · rw [if_neg hspace, if_neg hspace]

/-! ## Lines of the buffer -/

theorem cut_iff {bytes line : List UInt8} {n : ℕ} :
    requestParser.cut bytes = some (line, n) ↔
      ¬ kCRLF <:+: line ∧ n = line.length + 2 ∧ ∃ rest, bytes = line ++ kCRLF ++ rest :=
  cut_lines_iff (d := CR) (e := [LF]) (h := List.cons_ne_nil _ _) (by decide)

theorem findCRLF_none {buf : Buffer} (h : buf.Valid) (hc : requestParser.cut buf.content = none) :
    buf.findCRLF = none := by
  have hle := search_le_length kCRLF buf.content
  have hall : ¬ search kCRLF buf.content < buf.content.length := by
    intro hlt
    simp [requestParser, lines, hlt] at hc
  rw [Buffer.findCRLF, if_pos]
  rw [← h.length_content]
  omega

theorem findCRLF_some {buf : Buffer} (h : buf.Valid) {line : List UInt8} {n : ℕ}
    (hc : requestParser.cut buf.content = some (line, n)) :
    ∃ crlf, buf.findCRLF = some crlf ∧ buf.upTo crlf = line ∧
      buf.retrieveUntil (crlf + 2) = buf.retrieve n := by
  simp only [requestParser, lines, Option.ite_none_right_eq_some, Option.some.injEq,
    Prod.mk.injEq] at hc
  obtain ⟨hlt, rfl, rfl⟩ := hc
  rw [h.length_content] at hlt
  refine ⟨buf.readerIndex_ + search kCRLF buf.content, ?_, ?_, ?_⟩
  · rw [Buffer.findCRLF, if_neg (by omega)]
  · rw [Buffer.upTo, Nat.add_sub_cancel_left]
    exact (take_slice _ _ (Nat.le_of_lt hlt)).symm
  · have htaken : buf.readerIndex_ + search kCRLF buf.content + 2 - buf.readerIndex_ =
        search kCRLF buf.content + kCRLF.length := by
      simp only [kCRLF, List.length_cons, List.length_nil]
      omega
    rw [Buffer.retrieveUntil, htaken]

/-! ## The loop -/

/-- The loop is about to read what the machine reads. -/
structure Reads (t : Turn) (s : Reading) : Prop where
  valid : t.buf.Valid
  context : t.context.untimed = s.context
  ok : t.ok = true
  hasMore : t.hasMore = true

/-- The loop has ended in the state the machine is in. -/
structure Reached (c : HttpContext) (ok : Bool) (status : Status Reading Parsed) : Prop where
  context : c.untimed = seen status
  ok : ok = returned status

theorem Reads.requestLine {t : Turn} {r : HttpRequest} (h : Reads t (.requestLine r)) :
    t.context.state_ = .kExpectRequestLine ∧
      t.context.request_.setReceiveTime Timestamp.invalid = r := by
  constructor
  · exact congrArg HttpContext.state_ h.context
  · exact congrArg HttpContext.request_ h.context

theorem Reads.headers {t : Turn} {r : HttpRequest} (h : Reads t (.headers r)) :
    t.context.state_ = .kExpectHeaders ∧
      t.context.request_.setReceiveTime Timestamp.invalid = r := by
  constructor
  · exact congrArg HttpContext.state_ h.context
  · exact congrArg HttpContext.request_ h.context

theorem parseTurn_none {t : Turn} {s : Reading} (h : Reads t s) (receiveTime : Timestamp)
    (hc : requestParser.cut t.buf.content = none) :
    parseTurn receiveTime t = { t with hasMore := false } := by
  have hcrlf := findCRLF_none h.valid hc
  cases s with
  | requestLine r =>
    obtain ⟨hstate, -⟩ := h.requestLine
    simp only [parseTurn, hstate, hcrlf]
  | headers r =>
    obtain ⟨hstate, -⟩ := h.headers
    simp only [parseTurn, hstate, hcrlf]

theorem parseTurn_go {t : Turn} {s s' : Reading} (h : Reads t s) (receiveTime : Timestamp)
    {line : List UInt8} {n : ℕ} (hc : requestParser.cut t.buf.content = some (line, n))
    (hs : readLine s line = .go s') :
    Reads (parseTurn receiveTime t) s' ∧ (parseTurn receiveTime t).buf = t.buf.retrieve n := by
  obtain ⟨crlf, hcrlf, hline, hretrieve⟩ := findCRLF_some h.valid hc
  have hn : n ≤ t.buf.readableBytes := h.valid.length_content ▸ (requestParser.cut_bounds hc).2
  have hvalid := (h.valid.retrieve hn).1
  cases s with
  | requestLine r =>
    obtain ⟨hstate, hrequest⟩ := h.requestLine
    simp only [readLine] at hs
    rw [← hrequest, processRequestLine_setReceiveTime] at hs
    split at hs
    · next r' heq =>
      cases hs
      obtain ⟨hr, hok⟩ := Prod.mk.inj heq
      simp only [parseTurn, hstate, hcrlf, hline, hok, if_true, hretrieve]
      refine ⟨⟨hvalid, ?_, rfl, h.hasMore⟩, trivial⟩
      rw [← hr]
      rfl
    · cases hs
  | headers r =>
    obtain ⟨hstate, hrequest⟩ := h.headers
    simp only [readLine] at hs
    split at hs
    · next hcolon =>
      cases hs
      simp only [parseTurn, hstate, hcrlf, hline, if_pos hcolon, hretrieve]
      refine ⟨⟨hvalid, ?_, h.ok, h.hasMore⟩, trivial⟩
      rw [← hrequest]
      rfl
    · cases hs

theorem parseTurn_halt {t : Turn} {s : Reading} {r : Parsed} {taken : Bool} (h : Reads t s)
    (receiveTime : Timestamp) {line : List UInt8} {n : ℕ}
    (hc : requestParser.cut t.buf.content = some (line, n))
    (hs : readLine s line = .halt r taken) :
    (parseTurn receiveTime t).hasMore = false ∧
      (parseTurn receiveTime t).buf = (if taken then t.buf.retrieve n else t.buf) ∧
      Reached (parseTurn receiveTime t).context (parseTurn receiveTime t).ok (.halted r) := by
  obtain ⟨crlf, hcrlf, hline, hretrieve⟩ := findCRLF_some h.valid hc
  cases s with
  | requestLine r =>
    obtain ⟨hstate, hrequest⟩ := h.requestLine
    simp only [readLine] at hs
    rw [← hrequest, processRequestLine_setReceiveTime] at hs
    split at hs
    · cases hs
    · next r' heq =>
      cases hs
      obtain ⟨hr, hok⟩ := Prod.mk.inj heq
      simp only [parseTurn, hstate, hcrlf, hline, hok]
      refine ⟨rfl, rfl, ?_, rfl⟩
      rw [← hr]
      simp only [untimed, Bool.false_eq_true, if_false]
      rfl
  | headers r =>
    obtain ⟨hstate, hrequest⟩ := h.headers
    simp only [readLine] at hs
    split at hs
    · cases hs
    · next hcolon =>
      cases hs
      simp only [parseTurn, hstate, hcrlf, hline, if_neg hcolon, hretrieve]
      refine ⟨trivial, rfl, ?_, h.ok⟩
      rw [← hrequest]
      rfl

/-- With a turn for every byte the loop ends, where the machine does. -/
theorem parseLoop_eq_advance (receiveTime : Timestamp) {turns : ℕ} {t : Turn} {s : Reading}
    (h : Reads t s) (hturns : t.buf.content.length < turns) :
    ∃ t', parseLoop receiveTime turns t = some t' ∧ t'.buf.Valid ∧
      t'.buf.content = t.buf.content.drop (requestParser.advance s t.buf.content).taken ∧
      Reached t'.context t'.ok (requestParser.advance s t.buf.content).status := by
  induction turns generalizing t s with
  | zero => omega
  | succ turns ih =>
    rw [parseLoop]
    cases hc : requestParser.cut t.buf.content with
    | none =>
      rw [requestParser.advance_none hc, parseTurn_none h receiveTime hc]
      exact ⟨_, rfl, h.valid, rfl, h.context, h.ok⟩
    | some token =>
      obtain ⟨line, n⟩ := token
      have hbounds := requestParser.cut_bounds hc
      have hn : n ≤ t.buf.readableBytes := h.valid.length_content ▸ hbounds.2
      obtain ⟨hvalid, hcontent⟩ := h.valid.retrieve hn
      cases hs : readLine s line with
      | go s' =>
        obtain ⟨hreads, hbuf⟩ := parseTurn_go h receiveTime hc hs
        rw [requestParser.advance_go hc hs, if_pos hreads.hasMore]
        obtain ⟨t', hloop, hvalid', hcontent', hreached⟩ := ih hreads (by
          rw [hbuf, hcontent, List.length_drop]
          omega)
        rw [hbuf, hcontent] at hcontent' hreached
        refine ⟨t', hloop, hvalid', ?_, hreached⟩
        rw [hcontent', List.drop_drop]
        rfl
      | halt r taken =>
        obtain ⟨hmore, hbuf, hreached⟩ := parseTurn_halt h receiveTime hc hs
        rw [requestParser.advance_halt hc hs, hmore]
        refine ⟨_, rfl, ?_, ?_, hreached⟩
        · rw [hbuf]
          cases taken with
          | true => exact hvalid
          | false => exact h.valid
        · rw [hbuf]
          cases taken with
          | true => exact hcontent
          | false => rfl

/-- `parseRequest` returns, and advances the line machine over the readable bytes. -/
theorem parseRequest_eq_advance {c : HttpContext} {buf : Buffer} {s : Reading} (hv : buf.Valid)
    (hcontext : c.untimed = s.context) (receiveTime : Timestamp) :
    ∃ c' buf' ok, c.parseRequest buf receiveTime = some (c', buf', ok) ∧ buf'.Valid ∧
      buf'.content = buf.content.drop (requestParser.advance s buf.content).taken ∧
      Reached c' ok (requestParser.advance s buf.content).status := by
  have hreads : Reads ⟨c, buf, true, true⟩ s := ⟨hv, hcontext, rfl, rfl⟩
  have hturns : buf.content.length < buf.readableBytes + 1 := by
    rw [hv.length_content]
    exact Nat.lt_succ_self _
  obtain ⟨t, hloop, hvalid, hcontent, hreached⟩ := parseLoop_eq_advance receiveTime hreads hturns
  refine ⟨t.context, t.buf, t.ok, ?_, hvalid, hcontent, hreached⟩
  rw [parseRequest, hloop]
  rfl

end HttpContext

end ReactorNet
