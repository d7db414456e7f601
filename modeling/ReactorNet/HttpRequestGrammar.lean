import ReactorNet.HttpFragmentation

/-!
# Where the parser ends a request

A request ends with the first header line that has no colon, and that line is consumed
with it, whatever it contains. So what is consumed has the form of a request exactly
when that line is the empty one.
-/
namespace ReactorNet.HttpContext

open TokenMachines

/-- A request line, headers with a colon in each, and an empty line. -/
def RequestForm (bytes : List UInt8) : Prop :=
  ∃ (requestLine : List UInt8) (headers : List (List UInt8)),
    bytes = requestLine ++ kCRLF ++ (headers.map (· ++ kCRLF)).flatten ++ kCRLF ∧
      ¬ kCRLF <:+: requestLine ∧
      ∀ header ∈ headers, ¬ kCRLF <:+: header ∧ ∃ field rest, header = field ++ COLON :: rest

/-- The complete lines of a text. -/
def linesOf (bytes : List UInt8) : List (List UInt8) := requestParser.tokens bytes

theorem linesOf_text {text : List (List UInt8)} (h : ∀ line ∈ text, ¬ kCRLF <:+: line)
    (rest : List UInt8) :
    linesOf ((text.map (· ++ kCRLF)).flatten ++ rest) = text ++ linesOf rest :=
  tokens_lines (d := CR) (e := [LF]) (h := List.cons_ne_nil _ _) (by decide) h rest

/-- The lines of a part of a request: headers, and the line without a colon that ends them. -/
structure HeaderLines (bytes : List UInt8) (headers : List (List UInt8)) (last : List UInt8) :
    Prop where
  bytes_eq : bytes = ((headers ++ [last]).map (· ++ kCRLF)).flatten
  unbroken : ∀ line ∈ headers ++ [last], ¬ kCRLF <:+: line
  colon : ∀ header ∈ headers, COLON ∈ header
  last : COLON ∉ last

theorem idxOf_colon {line : List UInt8} : line.idxOf COLON ≠ line.length ↔ COLON ∈ line := by
  rw [← List.idxOf_lt_length_iff]
  have := List.idxOf_le_length (l := line) (a := COLON)
  omega

/-- A header with its delimiter in front of what the parser takes after it. -/
theorem take_line {bytes line rest : List UInt8} (hbytes : bytes = line ++ kCRLF ++ rest) (n : ℕ) :
    bytes.take (line.length + 2 + n) = line ++ kCRLF ++ (bytes.drop (line.length + 2)).take n := by
  have hlen : (line ++ kCRLF).length = line.length + 2 := by simp [kCRLF]
  rw [hbytes, ← hlen, List.take_length_add_append, List.drop_left]

theorem HeaderLines.end {bytes line rest : List UInt8} (hbytes : bytes = line ++ kCRLF ++ rest)
    (hline : ¬ kCRLF <:+: line) (hcolon : COLON ∉ line) :
    HeaderLines (bytes.take (line.length + 2)) [] line where
  bytes_eq := by
    rw [← Nat.add_zero (line.length + 2), take_line hbytes]
    simp
  unbroken := by simpa using hline
  colon := by simp
  last := hcolon

theorem HeaderLines.header {bytes line rest last : List UInt8} {headers : List (List UInt8)} {n : ℕ}
    (h : HeaderLines ((bytes.drop (line.length + 2)).take n) headers last)
    (hbytes : bytes = line ++ kCRLF ++ rest) (hline : ¬ kCRLF <:+: line) (hcolon : COLON ∈ line) :
    HeaderLines (bytes.take (line.length + 2 + n)) (line :: headers) last where
  bytes_eq := by
    rw [take_line hbytes, h.bytes_eq]
    simp
  unbroken := by
    intro l hl
    rcases List.mem_cons.mp hl with rfl | hl
    · exact hline
    · exact h.unbroken l hl
  colon := by
    intro header hheader
    rcases List.mem_cons.mp hheader with rfl | hheader
    · exact hcolon
    · exact h.colon header hheader
  last := h.last

theorem headerLines_of_complete {r request : HttpRequest} {bytes : List UInt8}
    (h : (requestParser.advance (.headers r) bytes).status = .halted (.complete request)) :
    ∃ headers last,
      HeaderLines (bytes.take (requestParser.advance (.headers r) bytes).taken) headers last := by
  generalize hs : Reading.headers r = s at h ⊢
  induction s, bytes using Machine.advance.induct requestParser generalizing r with
  | case1 s bytes hc =>
    rw [requestParser.advance_none hc] at h
    cases h
  | case2 s bytes line n hc s' hgo ih =>
    subst hs
    obtain ⟨hline, rfl, rest, hbytes⟩ := cut_iff.mp hc
    rw [requestParser.advance_go hc hgo] at h ⊢
    simp only [requestParser, readLine] at hgo
    split at hgo
    · next hcolon =>
      cases hgo
      obtain ⟨headers, last, hlines⟩ := ih rfl h
      exact ⟨line :: headers, last, hlines.header hbytes hline (idxOf_colon.mp hcolon)⟩
    · cases hgo
  | case3 s bytes line n hc p taken hhalt =>
    subst hs
    obtain ⟨hline, rfl, rest, hbytes⟩ := cut_iff.mp hc
    rw [requestParser.advance_halt hc hhalt]
    simp only [requestParser, readLine] at hhalt
    split at hhalt
    · cases hhalt
    · next hcolon =>
      cases hhalt
      exact ⟨[], line, .end hbytes hline (mt idxOf_colon.mpr hcolon)⟩

/-- What a fresh parser takes of a complete request: a line, and header lines. -/
theorem lines_of_complete {r request : HttpRequest} {bytes : List UInt8}
    (h : (requestParser.advance (.requestLine r) bytes).status = .halted (.complete request)) :
    ∃ requestLine headers last,
      bytes.take (requestParser.advance (.requestLine r) bytes).taken =
        ((requestLine :: headers ++ [last]).map (· ++ kCRLF)).flatten ∧
      (∀ line ∈ requestLine :: headers ++ [last], ¬ kCRLF <:+: line) ∧
      (∀ header ∈ headers, COLON ∈ header) ∧ COLON ∉ last := by
  cases hc : requestParser.cut bytes with
  | none =>
    rw [requestParser.advance_none hc] at h
    cases h
  | some token =>
    obtain ⟨line, n⟩ := token
    obtain ⟨hline, rfl, rest, hbytes⟩ := cut_iff.mp hc
    cases hs : requestParser.step (.requestLine r) line with
    | go s' =>
      rw [requestParser.advance_go hc hs] at h ⊢
      simp only [requestParser, readLine] at hs
      split at hs
      · cases hs
        obtain ⟨headers, last, hlines⟩ := headerLines_of_complete h
        refine ⟨line, headers, last, ?_, ?_, hlines.colon, hlines.last⟩
        · simp only [Progress.after]
          rw [take_line hbytes, hlines.bytes_eq]
          simp
        · intro l hl
          rcases List.mem_cons.mp hl with rfl | hl
          · exact hline
          · exact hlines.unbroken l hl
      · cases hs
    | halt p taken =>
      rw [requestParser.advance_halt hc hs] at h
      simp only [requestParser, readLine] at hs
      split at hs
      · cases hs
      · cases hs
        cases h

/-- The lines of the consumed bytes are those of the input up to the first header line
without a colon. -/
theorem linesOf_consumed {requestLine last : List UInt8} {headers : List (List UInt8)}
    (hunbroken : ∀ line ∈ requestLine :: headers ++ [last], ¬ kCRLF <:+: line)
    (hcolon : ∀ header ∈ headers, COLON ∈ header) (hlast : COLON ∉ last) (rest : List UInt8) :
    (linesOf (((requestLine :: headers ++ [last]).map (· ++ kCRLF)).flatten ++ rest)).tail.find?
      (fun line => COLON ∉ line) = some last := by
  have hnone : headers.find? (fun line => decide (COLON ∉ line)) = none := by
    rw [List.find?_eq_none]
    intro header hheader
    simpa using hcolon header hheader
  rw [linesOf_text hunbroken, List.cons_append, List.cons_append, List.tail_cons, List.append_assoc,
    List.find?_append, hnone, Option.none_or]
  simp [hlast]

theorem requestForm_iff {requestLine last : List UInt8} {headers : List (List UInt8)}
    (hunbroken : ∀ line ∈ requestLine :: headers ++ [last], ¬ kCRLF <:+: line)
    (hcolon : ∀ header ∈ headers, COLON ∈ header) :
    RequestForm ((requestLine :: headers ++ [last]).map (· ++ kCRLF)).flatten ↔ last = [] := by
  constructor
  · rintro ⟨requestLine', headers', hbytes, hrequestLine', hheaders'⟩
    have hunbroken' : ∀ line ∈ requestLine' :: headers' ++ [[]], ¬ kCRLF <:+: line := by
      intro line hline
      simp only [List.cons_append, List.mem_cons, List.mem_append, List.not_mem_nil, or_false]
        at hline
      rcases hline with rfl | hline | rfl
      · exact hrequestLine'
      · exact (hheaders' line hline).1
      · decide
    have hbytes' : ((requestLine :: headers ++ [last]).map (· ++ kCRLF)).flatten =
        ((requestLine' :: headers' ++ [[]]).map (· ++ kCRLF)).flatten := by
      rw [hbytes]
      simp
    have hlines := linesOf_text hunbroken []
    rw [hbytes', linesOf_text hunbroken' [], List.append_left_inj] at hlines
    have hlast := congrArg List.getLast? hlines
    rw [List.getLast?_concat, List.getLast?_concat, Option.some.injEq] at hlast
    exact hlast.symm
  · rintro rfl
    refine ⟨requestLine, headers, by simp, hunbroken _ (by simp), ?_⟩
    intro header hheader
    exact ⟨hunbroken header (by simp [hheader]), List.append_of_mem (hcolon header hheader)⟩

/-- What is consumed up to `kGotAll` has the form of a request exactly when the first line
behind the request line that has no colon is empty. -/
theorem consumed_requestForm_iff (chunks : List (List UInt8 × Timestamp)) (r : ParseRun)
    (hr : parseChunks construct .fresh chunks = some r) (hcomplete : r.outcome = .complete) :
    RequestForm ((chunks.map Prod.fst).flatten.take r.consumed) ↔
      (linesOf (chunks.map Prod.fst).flatten).tail.find? (fun line => COLON ∉ line) = some [] := by
  have hstart : construct.untimed = (Reading.requestLine HttpRequest.construct).context := rfl
  obtain ⟨r', hr', hconsumed, houtcome, -⟩ :=
    parseChunks_eq_feed Buffer.valid_fresh hstart chunks
  rw [Buffer.content_fresh, requestParser.feed_eq_advance _ _ rfl, List.nil_append]
    at hconsumed houtcome
  cases hr.symm.trans hr'
  rw [hcomplete] at houtcome
  cases hstatus : (requestParser.advance (.requestLine HttpRequest.construct)
      (chunks.map Prod.fst).flatten).status with
  | waiting s =>
    rw [hstatus] at houtcome
    cases houtcome
  | halted p =>
    cases p with
    | rejected request =>
      rw [hstatus] at houtcome
      cases houtcome
    | complete request =>
      obtain ⟨requestLine, headers, last, htaken, hunbroken, hcolon, hlast⟩ :=
        lines_of_complete hstatus
      have hfind := linesOf_consumed hunbroken hcolon hlast
        ((chunks.map Prod.fst).flatten.drop r.consumed)
      rw [← htaken, ← hconsumed, List.take_append_drop] at hfind
      rw [hfind, hconsumed, htaken, requestForm_iff hunbroken hcolon, Option.some.injEq]

/-- A header line without a colon, in a second chunk, ends the request. -/
def smuggled : List (List UInt8 × Timestamp) :=
  [(ascii "GET / HTTP/1.1\r\nHost: a\r\n", 1), (ascii "X\r\nGET /b HTTP/1.1\r\n\r\n", 2)]

theorem consumed_requestForm_iff_smuggled :
    ∃ r, parseChunks construct .fresh smuggled = some r ∧
      (RequestForm ((smuggled.map Prod.fst).flatten.take r.consumed) ↔
        (linesOf (smuggled.map Prod.fst).flatten).tail.find? (fun line => COLON ∉ line) =
          some []) := by
  obtain ⟨r, hr⟩ : ∃ r, parseChunks construct .fresh smuggled = some r :=
    Option.isSome_iff_exists.mp (by decide +kernel)
  have hcomplete : (parseChunks construct .fresh smuggled).map ParseRun.outcome =
      some .complete := by
    decide +kernel
  rw [hr, Option.map_some, Option.some.injEq] at hcomplete
  exact ⟨r, hr, consumed_requestForm_iff smuggled r hr hcomplete⟩

/-- The second chunk is taken up to the line without a colon, which is not empty. -/
theorem request_ends_at_text :
    ¬ ∀ (chunks : List (List UInt8 × Timestamp)) (r : ParseRun),
      parseChunks construct .fresh chunks = some r → r.outcome = .complete →
      RequestForm ((chunks.map Prod.fst).flatten.take r.consumed) := by
  intro h
  obtain ⟨r, hr⟩ : ∃ r, parseChunks construct .fresh smuggled = some r :=
    Option.isSome_iff_exists.mp (by decide +kernel)
  have hparsed : (parseChunks construct .fresh smuggled).map (fun r => (r.outcome, r.consumed)) =
      some (.complete, 28) := by
    decide +kernel
  rw [hr, Option.map_some, Option.some.injEq, Prod.mk.injEq] at hparsed
  have hform := h smuggled r hr hparsed.1
  have htaken : (smuggled.map Prod.fst).flatten.take r.consumed =
      ((ascii "GET / HTTP/1.1" :: [ascii "Host: a"] ++ [ascii "X"]).map (· ++ kCRLF)).flatten := by
    rw [hparsed.2]
    decide +kernel
  rw [htaken, requestForm_iff (by decide +kernel) (by decide)] at hform
  cases hform

end ReactorNet.HttpContext
