import ReactorNet.HttpCalls
import ReactorNet.HttpRoundTrip

/-!
# The assertion of `setMethod`

`setMethod` expects a request without a method. A request line that is refused behind a
method it knows has stored the method, and stays in front of the buffer: the next call
reads it again, with the same request.
-/
namespace ReactorNet.HttpServer

open TokenMachines HttpContext HttpRequest

/-- A target, a space and a version. -/
def RestForm (rest : List UInt8) : Prop :=
  ∃ target, SP ∉ target ∧
    (rest = target ++ SP :: ascii "HTTP/1.0" ∨ rest = target ++ SP :: ascii "HTTP/1.1")

/-- The first line is a method and a space, and what follows is not the rest of a
request line. -/
def MalformedFront (bytes : List UInt8) : Prop :=
  ∃ (method : Method) (rest more : List UInt8), method ≠ .kInvalid ∧
    bytes = methodString method ++ SP :: rest ++ kCRLF ++ more ∧
    ¬ kCRLF <:+: methodString method ++ SP :: rest ∧ ¬ RestForm rest

/-! ## The request line -/

/-- A line is cut at its first space. -/
theorem cut_space {line : List UInt8} (h : line.idxOf SP ≠ line.length) :
    ∃ front rest, line = front ++ SP :: rest ∧ SP ∉ front := by
  have hlt : line.idxOf SP < line.length := Nat.lt_of_le_of_ne List.idxOf_le_length h
  refine ⟨line.take (line.idxOf SP), line.drop (line.idxOf SP + 1), ?_, ?_⟩
  · have hdrop := List.drop_eq_getElem_cons hlt
    rw [List.getElem_idxOf hlt] at hdrop
    rw [← hdrop, List.take_append_drop]
  · intro hmem
    have := (List.mem_take_iff_idxOf_lt (List.idxOf_lt_length_iff.mp hlt)).mp hmem
    exact Nat.lt_irrefl _ this

theorem cut_space_unique {front front' rest rest' : List UInt8} (h : SP ∉ front) (h' : SP ∉ front')
    (heq : front ++ SP :: rest = front' ++ SP :: rest') : front = front' ∧ rest = rest' := by
  have hlen : front.length = front'.length := by
    rw [← idxOf_cut h rest, ← idxOf_cut h' rest', heq]
  obtain ⟨hfront, hrest⟩ := List.append_inj heq hlen
  exact ⟨hfront, (List.cons.inj hrest).2⟩

theorem setMethod_known (r : HttpRequest) (m : List UInt8) :
    (r.setMethod m).2 = true ↔ ∃ method, method ≠ Method.kInvalid ∧ m = methodString method := by
  constructor
  · intro h
    simp only [setMethod] at h
    split at h
    · exact ⟨.kGet, by decide, ‹_›⟩
    split at h
    · exact ⟨.kPost, by decide, ‹_›⟩
    split at h
    · exact ⟨.kHead, by decide, ‹_›⟩
    split at h
    · exact ⟨.kPut, by decide, ‹_›⟩
    split at h
    · exact ⟨.kDelete, by decide, ‹_›⟩
    · cases h
  · rintro ⟨method, hmethod, rfl⟩
    rw [setMethod_methodString r hmethod]

theorem setMethod_unknown {r : HttpRequest} {m : List UInt8} (h : (r.setMethod m).2 = false) :
    (r.setMethod m).1.method_ = .kInvalid := by
  simp only [setMethod, bne_eq_false_iff_eq] at h ⊢
  exact h

theorem processVersion_ok (r : HttpRequest) (version : List UInt8) :
    (processVersion r version).2 = true ↔
      version = ascii "HTTP/1.0" ∨ version = ascii "HTTP/1.1" := by
  constructor
  · intro h
    simp only [processVersion] at h
    split at h
    · next hform =>
      have hlast (b : UInt8) (hb : version.getLast? = some b) : version = ascii "HTTP/1." ++ [b] := by
        have hne : version ≠ [] := by
          rintro rfl
          cases hb
        have hsplit := List.dropLast_append_getLast hne
        rw [List.getLast?_eq_some_getLast hne, Option.some.injEq] at hb
        rw [List.dropLast_eq_take, hform.1, hform.2, hb] at hsplit
        exact hsplit.symm
      split at h
      · next h11 => exact Or.inr (hlast 49 h11)
      split at h
      · next h10 => exact Or.inl (hlast 48 h10)
      · cases h
    · cases h
  · rintro (rfl | rfl) <;> rfl

theorem processTarget_ok (r : HttpRequest) (line : List UInt8) :
    (processTarget r line).2 = true ↔ RestForm line := by
  by_cases hspace : line.idxOf SP ≠ line.length
  · obtain ⟨target, version, rfl, htarget⟩ := cut_space hspace
    have hidx := idxOf_cut htarget version
    simp only [processTarget, hidx, if_pos (cut_ne_length target SP version), List.take_left,
      drop_cut, processVersion_ok]
    constructor
    · rintro (rfl | rfl)
      · exact ⟨target, htarget, Or.inl rfl⟩
      · exact ⟨target, htarget, Or.inr rfl⟩
    · rintro ⟨target', htarget', hline | hline⟩
      · exact Or.inl (cut_space_unique htarget htarget' hline).2
      · exact Or.inr (cut_space_unique htarget htarget' hline).2
  · have hnone : SP ∉ line := by
      intro hmem
      exact hspace (Nat.ne_of_lt (List.idxOf_lt_length_iff.mpr hmem))
    simp only [processTarget, if_neg hspace]
    constructor
    · intro h
      cases h
    · rintro ⟨target, -, rfl | rfl⟩ <;> simp at hnone

theorem processTarget_method (r : HttpRequest) (line : List UInt8) :
    (processTarget r line).1.method_ = r.method_ := by
  have hversion (r : HttpRequest) (version : List UInt8) :
      (processVersion r version).1.method_ = r.method_ := by
    simp only [processVersion]
    split
    · split
      · rfl
      · split <;> rfl
    · rfl
  simp only [processTarget]
  split
  · rw [hversion, setTarget]
    split <;> rfl
  · rfl

/-- A refused line leaves a method exactly when it starts with one that is known. -/
theorem processRequestLine_dirty {r : HttpRequest} {line : List UInt8} (hr : r.method_ = .kInvalid)
    (h : (processRequestLine r line).2 = false) :
    (processRequestLine r line).1.method_ ≠ .kInvalid ↔
      ∃ (method : Method) (rest : List UInt8), method ≠ .kInvalid ∧
        line = methodString method ++ SP :: rest ∧ ¬ RestForm rest := by
  by_cases hspace : line.idxOf SP ≠ line.length
  · obtain ⟨front, rest, rfl, hfront⟩ := cut_space hspace
    simp only [processRequestLine, idxOf_cut hfront rest, if_pos (cut_ne_length front SP rest),
      List.take_left, drop_cut] at h ⊢
    cases hknown : (r.setMethod front).2 with
    | true =>
      obtain ⟨method, hmethod, rfl⟩ := (setMethod_known r front).mp hknown
      rw [setMethod_methodString r hmethod] at h ⊢
      dsimp only at h ⊢
      rw [processTarget_method]
      have hrest : ¬ RestForm rest := by
        rw [← processTarget_ok, h]
        exact Bool.false_ne_true
      exact ⟨fun _ => ⟨method, rest, hmethod, rfl, hrest⟩, fun _ => hmethod⟩
    | false =>
      have hinvalid := setMethod_unknown hknown
      rcases hset : r.setMethod front with ⟨request, known⟩
      rw [hset] at hknown hinvalid
      dsimp only at hknown hinvalid
      subst hknown
      dsimp only
      constructor
      · intro hne
        exact absurd hinvalid hne
      · rintro ⟨method, rest', hmethod, heq, -⟩
        obtain ⟨rfl, -⟩ := cut_space_unique hfront (methodString_ok method).1 heq
        rw [setMethod_methodString r hmethod] at hset
        cases hset
  · simp only [processRequestLine, if_neg hspace]
    constructor
    · intro hne
      exact absurd hr hne
    · rintro ⟨method, rest, -, rfl, -⟩
      rw [idxOf_cut (methodString_ok method).1] at hspace
      exact absurd (cut_ne_length _ SP rest) hspace

theorem processRequestLine_malformed (r : HttpRequest) {method : Method} {rest : List UInt8}
    (hmethod : method ≠ .kInvalid) (hrest : ¬ RestForm rest) :
    (processRequestLine r (methodString method ++ SP :: rest)).2 = false := by
  simp only [processRequestLine, idxOf_cut (methodString_ok method).1 rest,
    if_pos (cut_ne_length _ SP rest), List.take_left, drop_cut, setMethod_methodString r hmethod]
  rw [← Bool.not_eq_true, processTarget_ok]
  exact hrest

/-! ## The line machine -/

/-- The request has no method yet where its request line is read. -/
def Clean : Reading → Prop
  | .requestLine r => r.method_ = .kInvalid
  | .headers _ => True

namespace Connection

theorem clean_headers (r : HttpRequest) (bytes : List UInt8) :
    Clean (resume (requestParser.advance (.headers r) bytes).status) := by
  generalize hs : Reading.headers r = s
  induction s, bytes using Machine.advance.induct requestParser generalizing r with
  | case1 s bytes hc =>
    rw [requestParser.advance_none hc, ← hs]
    trivial
  | case2 s bytes line n hc s' hgo ih =>
    subst hs
    rw [requestParser.advance_go hc hgo]
    simp only [requestParser, readLine] at hgo
    split at hgo <;> cases hgo
    exact ih _ rfl
  | case3 s bytes line n hc p taken hhalt =>
    subst hs
    rw [requestParser.advance_halt hc hhalt]
    simp only [requestParser, readLine] at hhalt
    split at hhalt <;> cases hhalt
    exact rfl

/-- A call leaves a method behind exactly when the line in front is malformed, and then
takes nothing. -/
theorem clean_requestLine {r : HttpRequest} (hr : r.method_ = .kInvalid) (bytes : List UInt8) :
    ¬ MalformedFront bytes ∧
        Clean (resume (requestParser.advance (.requestLine r) bytes).status) ∨
      MalformedFront bytes ∧ ∃ r', requestParser.advance (.requestLine r) bytes =
        ⟨.halted (.rejected r'), 0⟩ ∧ r'.method_ ≠ .kInvalid := by
  cases hc : requestParser.cut bytes with
  | none =>
    left
    rw [requestParser.advance_none hc]
    refine ⟨?_, hr⟩
    rintro ⟨method, rest, more, -, hbytes, hline, -⟩
    rw [cut_iff.mpr ⟨hline, rfl, more, hbytes⟩] at hc
    cases hc
  | some token =>
    obtain ⟨line, n⟩ := token
    have hfront : MalformedFront bytes ↔ ∃ (method : Method) (rest : List UInt8),
        method ≠ .kInvalid ∧ line = methodString method ++ SP :: rest ∧ ¬ RestForm rest := by
      constructor
      · rintro ⟨method, rest, more, hmethod, hbytes, hline, hrest⟩
        rw [cut_iff.mpr ⟨hline, rfl, more, hbytes⟩, Option.some.injEq, Prod.mk.injEq] at hc
        exact ⟨method, rest, hmethod, hc.1.symm, hrest⟩
      · rintro ⟨method, rest, hmethod, rfl, hrest⟩
        obtain ⟨hline, -, more, hbytes⟩ := cut_iff.mp hc
        exact ⟨method, rest, more, hmethod, hbytes, hline, hrest⟩
    rcases hparsed : processRequestLine r line with ⟨r', ok⟩
    cases ok with
    | true =>
      left
      have hs : requestParser.step (.requestLine r) line = .go (.headers r') := by
        simp only [requestParser, readLine, hparsed]
      rw [requestParser.advance_go hc hs]
      refine ⟨?_, clean_headers r' _⟩
      rw [hfront]
      rintro ⟨method, rest, hmethod, rfl, hrest⟩
      have := processRequestLine_malformed r hmethod hrest
      rw [hparsed] at this
      cases this
    | false =>
      have hs : requestParser.step (.requestLine r) line = .halt (.rejected r') false := by
        simp only [requestParser, readLine, hparsed]
      rw [requestParser.advance_halt hc hs]
      have hdirty := processRequestLine_dirty hr (congrArg Prod.snd hparsed)
      rw [hparsed, ← hfront] at hdirty
      by_cases hmalformed : MalformedFront bytes
      · exact Or.inr ⟨hmalformed, r', rfl, hdirty.mpr hmalformed⟩
      · exact Or.inl ⟨hmalformed, not_not.mp (mt hdirty.mp hmalformed)⟩

/-! ## Calls -/

/-- `setMethod`, where the turn calls it, finds a request without a method. -/
def SetsMethodOnce (t : Turn) : Prop :=
  t.context.state_ = .kExpectRequestLine → ∀ crlf, t.buf.findCRLF = some crlf →
    SP ∈ t.buf.upTo crlf → t.context.request_.method_ = .kInvalid

/-- The assertion holds in every turn of the call. -/
def Asserts (c : Connection) (chunk : List UInt8 × Timestamp) : Prop :=
  ∀ n, Made chunk.2 (c.entry chunk) n → SetsMethodOnce ((parseTurn chunk.2)^[n] (c.entry chunk))

/-- The request line that the call reads is malformed behind a method. -/
def ReadsMalformed (c : Connection) (chunk : List UInt8 × Timestamp) : Prop :=
  c.context.state_ = .kExpectRequestLine ∧ MalformedFront (c.buf.content ++ chunk.1)

variable {c : Connection} {s : Reading}

theorem Parses.method {r : HttpRequest} (h : c.Parses (.requestLine r)) :
    c.context.state_ = .kExpectRequestLine ∧ c.context.request_.method_ = r.method_ := by
  constructor
  · exact congrArg HttpContext.state_ h.context
  · exact congrArg (fun context => context.request_.method_) h.context

theorem Parses.asserts (h : c.Parses s) (hs : Clean s) (chunk : List UInt8 × Timestamp) :
    c.Asserts chunk := by
  intro n hn hstate
  obtain ⟨-, s', hreads, hlater⟩ := reads_made (h.entry chunk) hn
  cases n with
  | zero =>
    intro crlf _ _
    cases s with
    | requestLine r => exact h.method.2.trans hs
    | headers r =>
      have hheaders : c.context.state_ = .kExpectHeaders := congrArg HttpContext.state_ h.context
      cases hheaders.symm.trans hstate
  | succ n =>
    obtain ⟨r, rfl⟩ := hlater (Nat.succ_ne_zero n)
    rw [hreads.headers.1] at hstate
    cases hstate

/-- In front of a refused line that has left its method, the next call fails. -/
theorem Parses.not_asserts {r : HttpRequest} (h : c.Parses (.requestLine r))
    (hr : r.method_ ≠ .kInvalid) (hfront : MalformedFront c.buf.content)
    (chunk : List UInt8 × Timestamp) : ¬ c.Asserts chunk := by
  intro hasserts
  obtain ⟨method, rest, more, -, hbytes, hline, -⟩ := hfront
  have hc := requestParser.cut_append (cut_iff.mpr ⟨hline, rfl, more, hbytes⟩) chunk.1
  obtain ⟨hvalid, hcontent, -⟩ := h.valid.append chunk.1
  rw [← hcontent] at hc
  obtain ⟨crlf, hcrlf, hupTo, -⟩ := findCRLF_some hvalid hc
  have hmade : Made chunk.2 (c.entry chunk) 0 := by
    intro m hm
    rw [Nat.le_zero.mp hm]
    rfl
  apply hr
  rw [← h.method.2]
  refine hasserts 0 hmade h.method.1 crlf hcrlf ?_
  show SP ∈ (c.buf.append chunk.1).upTo crlf
  rw [hupTo]
  simp

/-- A call that meets a clean context leaves it clean, or has refused the line in front. -/
theorem Parses.step_clean (h : c.Parses s) (hs : Clean s) (respond : Respond)
    (chunk : List UInt8 × Timestamp) :
    ∃ c', c.step respond chunk = some c' ∧
      (¬ c.ReadsMalformed chunk ∧ (∃ s', c'.Parses s' ∧ Clean s') ∨
        c.ReadsMalformed chunk ∧ ∃ r, c'.Parses (.requestLine r) ∧ r.method_ ≠ .kInvalid ∧
          MalformedFront c'.buf.content) := by
  obtain ⟨c', hstep, hparses, hcontent⟩ := h.step respond chunk
  refine ⟨c', hstep, ?_⟩
  cases s with
  | headers r =>
    left
    refine ⟨?_, _, hparses, clean_headers r _⟩
    rintro ⟨hstate, -⟩
    have hheaders : c.context.state_ = .kExpectHeaders := congrArg HttpContext.state_ h.context
    cases hheaders.symm.trans hstate
  | requestLine r =>
    rcases clean_requestLine hs (c.buf.content ++ chunk.1) with
      ⟨hfront, hclean⟩ | ⟨hfront, r', hadvance, hr'⟩
    · exact Or.inl ⟨fun hreads => hfront hreads.2, _, hparses, hclean⟩
    · rw [hadvance] at hparses hcontent
      right
      refine ⟨⟨h.method.1, hfront⟩, r', hparses, hr', ?_⟩
      rw [hcontent]
      exact hfront

theorem Parses.asserts_iff (h : c.Parses s) (hs : Clean s) (respond : Respond)
    (chunks : List (List UInt8 × Timestamp)) (last : List UInt8 × Timestamp) :
    GuardedRuns.Meets (Connection.step respond) Asserts c (chunks ++ [last]) ↔
      GuardedRuns.Meets (Connection.step respond) (fun c chunk => ¬ c.ReadsMalformed chunk) c
        chunks := by
  induction chunks generalizing c s with
  | nil => exact ⟨fun _ => trivial, fun _ => ⟨h.asserts hs last, fun _ _ => trivial⟩⟩
  | cons chunk chunks ih =>
    obtain ⟨c', hstep, hcase⟩ := h.step_clean hs respond chunk
    rcases hcase with ⟨hwell, s', h', hs'⟩ | ⟨hmalformed, r, h', hr, hfront⟩
    · constructor
      · intro hmeets
        refine ⟨hwell, fun t ht => ?_⟩
        cases hstep.symm.trans ht
        exact (ih h' hs').mp (hmeets.2 c' hstep)
      · intro hmeets
        refine ⟨h.asserts hs chunk, fun t ht => ?_⟩
        cases hstep.symm.trans ht
        exact (ih h' hs').mpr (hmeets.2 c' hstep)
    · constructor
      · intro hmeets
        have hnext := hmeets.2 c' hstep
        exfalso
        cases chunks with
        | nil => exact h'.not_asserts hr hfront last hnext.1
        | cons chunk' chunks => exact h'.not_asserts hr hfront chunk' hnext.1
      · intro hmeets
        exact absurd hmalformed hmeets.1

/-- The assertion holds in every call exactly when none but the last one reads a request
line that is malformed behind a known method. -/
theorem method_asserted_iff (respond : Respond) (chunks : List (List UInt8 × Timestamp))
    (last : List UInt8 × Timestamp) :
    GuardedRuns.Meets (step respond) Asserts fresh (chunks ++ [last]) ↔
      GuardedRuns.Meets (step respond) (fun c chunk => ¬ c.ReadsMalformed chunk) fresh chunks :=
  parses_fresh.asserts_iff rfl respond chunks last

/-- A version that is not known, and one more byte. -/
theorem method_asserted_twice :
    ¬ ∀ (respond : Respond) (chunks : List (List UInt8 × Timestamp)),
      GuardedRuns.Meets (step respond) Asserts fresh chunks := by
  intro h
  have hmeets := h (fun _ close => ([], close))
    ([(ascii "GET / HTTP/2.0\r\n", 1)] ++ [(ascii "x", 2)])
  rw [parses_fresh.asserts_iff rfl] at hmeets
  apply hmeets.1
  refine ⟨rfl, .kGet, ascii "/ HTTP/2.0", [], by decide, by decide +kernel, by decide +kernel, ?_⟩
  rw [← processTarget_ok HttpRequest.construct]
  decide +kernel

end Connection

end ReactorNet.HttpServer
