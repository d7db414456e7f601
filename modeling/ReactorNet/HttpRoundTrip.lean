import ReactorNet.HttpParsing

/-!
# Parsing undoes rendering

The text of a request, as a client renders it, and what `parseRequest` makes of it: the
request line is cut at its spaces and its question mark, each header at its first colon,
and the request ends at the first empty line.
-/
namespace ReactorNet.HttpContext

open VectorStorage TokenMachines HttpRequest

structure HeaderText where
  name : List UInt8
  value : List UInt8
  name_ok : COLON ∉ name ∧ CR ∉ name ∧ LF ∉ name
  value_ok : CR ∉ value ∧ LF ∉ value

/-- The query, if there is one, starts with its question mark. -/
structure RequestText where
  method : Method
  path : List UInt8
  query : List UInt8
  version : Version
  headers : List HeaderText
  method_known : method ≠ .kInvalid
  path_ok : SP ∉ path ∧ QUESTION ∉ path ∧ CR ∉ path ∧ LF ∉ path
  query_start : query = [] ∨ ∃ rest, query = QUESTION :: rest
  query_ok : SP ∉ query ∧ CR ∉ query ∧ LF ∉ query
  version_known : version ≠ .kUnknown

def versionText : Version → List UInt8
  | .kHttp10 => ascii "HTTP/1.0"
  | .kHttp11 => ascii "HTTP/1.1"
  | .kUnknown => []

namespace HeaderText

def line (h : HeaderText) : List UInt8 := h.name ++ ascii ": " ++ h.value

def stripped (h : HeaderText) : List UInt8 := (h.value.dropWhile isspace).rdropWhile isspace

def render (headers : List HeaderText) : List UInt8 :=
  (headers.map fun h => h.line ++ kCRLF).flatten

/-- The header map after the headers, the last value of a name counting. -/
def assign (m : List UInt8 → Option (List UInt8)) (headers : List HeaderText) :
    List UInt8 → Option (List UInt8) :=
  headers.foldl (fun m h => Function.update m h.name (some h.stripped)) m

def lastValue (headers : List HeaderText) (name : List UInt8) : Option (List UInt8) :=
  (headers.reverse.find? (·.name = name)).map stripped

theorem assign_eq_lastValue (headers : List HeaderText) (name : List UInt8) :
    assign (fun _ => none) headers name = lastValue headers name := by
  induction headers using List.reverseRecOn with
  | nil => rfl
  | append_singleton headers h ih =>
    rw [assign, lastValue] at ih ⊢
    rw [List.foldl_concat, List.reverse_concat, List.find?_cons]
    by_cases hname : h.name = name
    · simp [hname]
    · rw [Function.update_of_ne (Ne.symm hname)]
      simpa [hname] using ih

end HeaderText

namespace RequestText

def requestLine (t : RequestText) : List UInt8 :=
  methodString t.method ++ SP :: (t.path ++ t.query ++ SP :: versionText t.version)

def render (t : RequestText) : List UInt8 :=
  t.requestLine ++ kCRLF ++ HeaderText.render t.headers ++ kCRLF

end RequestText

/-! ## Parts of a line -/

theorem idxOf_cut {s : List UInt8} {x : UInt8} (h : x ∉ s) (t : List UInt8) :
    (s ++ x :: t).idxOf x = s.length := by
  rw [List.idxOf_append_of_notMem h, List.idxOf_cons_self, Nat.add_zero]

theorem cut_ne_length (s : List UInt8) (x : UInt8) (t : List UInt8) :
    s.length ≠ (s ++ x :: t).length := by
  rw [List.length_append, List.length_cons]
  omega

theorem drop_cut (s : List UInt8) (x : UInt8) (t : List UInt8) :
    (s ++ x :: t).drop (s.length + 1) = t := by
  rw [← List.drop_drop, List.drop_left]
  rfl

/-! ## The request line -/

theorem methodString_ok (m : Method) : SP ∉ methodString m ∧ CR ∉ methodString m := by
  cases m <;> decide

theorem versionText_ok (v : Version) : CR ∉ versionText v := by
  cases v <;> decide

theorem setMethod_methodString (r : HttpRequest) {m : Method} (h : m ≠ .kInvalid) :
    r.setMethod (methodString m) = ({ r with method_ := m }, true) := by
  cases m with
  | kInvalid => exact absurd rfl h
  | kGet => rfl
  | kPost => rfl
  | kHead => rfl
  | kPut => rfl
  | kDelete => rfl

theorem processVersion_versionText (r : HttpRequest) {v : Version} (h : v ≠ .kUnknown) :
    processVersion r (versionText v) = (r.setVersion v, true) := by
  cases v with
  | kUnknown => exact absurd rfl h
  | kHttp10 => rfl
  | kHttp11 => rfl

theorem setTarget_path_query (r : HttpRequest) {path query : List UInt8} (hr : r.query_ = [])
    (hpath : QUESTION ∉ path) (hquery : query = [] ∨ ∃ rest, query = QUESTION :: rest) :
    setTarget r (path ++ query) = { r with path_ := path, query_ := query } := by
  rcases hquery with rfl | ⟨rest, rfl⟩
  · have hidx : path.idxOf QUESTION = path.length := List.idxOf_eq_length hpath
    simp only [List.append_nil, setTarget, hidx, ne_eq, not_true_eq_false, if_false, setPath]
    rw [← hr]
  · have hidx := idxOf_cut hpath rest
    simp only [setTarget, hidx, if_pos (cut_ne_length path QUESTION rest), List.take_left,
      List.drop_left]
    rfl

theorem processRequestLine_render (t : RequestText) :
    processRequestLine HttpRequest.construct t.requestLine =
      ({ HttpRequest.construct with
          method_ := t.method
          path_ := t.path
          query_ := t.query
          version_ := t.version }, true) := by
  have htarget : SP ∉ t.path ++ t.query := by
    intro hmem
    exact (List.mem_append.mp hmem).elim t.path_ok.1 t.query_ok.1
  have hmethod := idxOf_cut (methodString_ok t.method).1
    (t.path ++ t.query ++ SP :: versionText t.version)
  have hversion := idxOf_cut htarget (versionText t.version)
  rw [processRequestLine, RequestText.requestLine, hmethod]
  simp only [if_pos (cut_ne_length _ SP _), List.take_left, drop_cut,
    setMethod_methodString _ t.method_known]
  rw [processTarget, hversion]
  simp only [if_pos (cut_ne_length _ SP _), List.take_left, drop_cut]
  rw [setTarget_path_query _ rfl t.path_ok.2.1 t.query_start,
    processVersion_versionText _ t.version_known]
  rfl

/-! ## The headers -/

theorem isspace_SP : isspace SP = true := rfl

theorem addHeader_line (r : HttpRequest) (h : HeaderText) :
    r.addHeader h.line h.name.length =
      { r with headers_ := Function.update r.headers_ h.name (some h.stripped) } := by
  have hline : h.line = h.name ++ COLON :: SP :: h.value := List.append_assoc ..
  rw [hline, addHeader, List.take_left, drop_cut, List.dropWhile_cons_of_pos isspace_SP]
  rfl

theorem line_ok (h : HeaderText) :
    h.line.idxOf COLON = h.name.length ∧ h.name.length ≠ h.line.length ∧ CR ∉ h.line := by
  have hline : h.line = h.name ++ COLON :: SP :: h.value := List.append_assoc ..
  refine ⟨?_, ?_, ?_⟩
  · rw [hline]
    exact idxOf_cut h.name_ok.1 _
  · rw [hline]
    exact cut_ne_length _ _ _
  · intro hmem
    rw [HeaderText.line, List.mem_append, List.mem_append] at hmem
    rcases hmem with (hmem | hmem) | hmem
    · exact h.name_ok.2.1 hmem
    · revert hmem
      decide
    · exact h.value_ok.1 hmem

theorem advance_headers (r : HttpRequest) (headers : List HeaderText) (further : List UInt8) :
    requestParser.advance (.headers r) (HeaderText.render headers ++ kCRLF ++ further) =
      ⟨.halted (.complete { r with headers_ := HeaderText.assign r.headers_ headers }),
        (HeaderText.render headers).length + 2⟩ := by
  induction headers generalizing r with
  | nil =>
    have hcut : requestParser.cut (kCRLF ++ further) = some ([], 2) :=
      cut_crlf List.not_mem_nil further
    have hstep : requestParser.step (.headers r) [] = .halt (.complete r) true := rfl
    exact requestParser.advance_halt hcut hstep
  | cons h headers ih =>
    obtain ⟨hcolon, hne, hcr⟩ := line_ok h
    have hbytes : HeaderText.render (h :: headers) ++ kCRLF ++ further =
        h.line ++ kCRLF ++ (HeaderText.render headers ++ kCRLF ++ further) := by
      simp [HeaderText.render]
    have hstep : requestParser.step (.headers r) h.line =
        .go (.headers { r with
          headers_ := Function.update r.headers_ h.name (some h.stripped) }) := by
      simp only [requestParser, readLine, hcolon, if_pos hne, addHeader_line]
    rw [hbytes, requestParser.advance_go (cut_crlf hcr _) hstep, drop_crlf, ih]
    simp only [Progress.after, HeaderText.render, List.map_cons, List.flatten_cons,
      List.length_append]
    congr 1

theorem advance_render (t : RequestText) (further : List UInt8) :
    requestParser.advance (.requestLine HttpRequest.construct) (t.render ++ further) =
      ⟨.halted (.complete
        ⟨t.method, t.version, t.path, t.query, Timestamp.invalid,
          HeaderText.lastValue t.headers⟩), t.render.length⟩ := by
  have hcr : CR ∉ t.requestLine := by
    intro hmem
    simp only [RequestText.requestLine, List.mem_append, List.mem_cons] at hmem
    rcases hmem with hmem | hmem | (hmem | hmem) | hmem | hmem
    · exact (methodString_ok t.method).2 hmem
    · revert hmem
      decide
    · exact t.path_ok.2.2.1 hmem
    · exact t.query_ok.2.1 hmem
    · revert hmem
      decide
    · exact versionText_ok t.version hmem
  have hbytes : t.render ++ further =
      t.requestLine ++ kCRLF ++ (HeaderText.render t.headers ++ kCRLF ++ further) := by
    simp [RequestText.render]
  have hstep : requestParser.step (.requestLine HttpRequest.construct) t.requestLine =
      .go (.headers { HttpRequest.construct with
        method_ := t.method
        path_ := t.path
        query_ := t.query
        version_ := t.version }) := by
    simp only [requestParser, readLine, processRequestLine_render]
  have hheaders : HeaderText.assign HttpRequest.construct.headers_ t.headers =
      HeaderText.lastValue t.headers := by
    funext name
    exact HeaderText.assign_eq_lastValue t.headers name
  rw [hbytes, requestParser.advance_go (cut_crlf hcr _) hstep, drop_crlf, advance_headers]
  simp only [Progress.after, hheaders]
  congr 1
  simp only [RequestText.render, kCRLF, List.length_append, List.length_cons, List.length_nil]
  omega

/-- A rendered request is parsed back in one call, and the bytes behind it are left. -/
theorem parseRequest_render (t : RequestText) (further : List UInt8) (receiveTime : Timestamp)
    {buf : Buffer} (hv : buf.Valid) (hbuf : buf.content = t.render ++ further) :
    ∃ c left, construct.parseRequest buf receiveTime = some (c, left, true) ∧
      c.gotAll = true ∧ c.request_.method_ = t.method ∧ c.request_.path_ = t.path ∧
      c.request_.query_ = t.query ∧ c.request_.version_ = t.version ∧
      (∀ name, c.request_.headers_ name = HeaderText.lastValue t.headers name) ∧
      left.content = further := by
  have hstart : construct.untimed = (Reading.requestLine HttpRequest.construct).context := rfl
  obtain ⟨c, left, ok, hparse, -, hleft, hcontext, hok⟩ :=
    parseRequest_eq_advance hv hstart receiveTime
  rw [hbuf, advance_render] at hleft hcontext hok
  rw [List.drop_left] at hleft
  subst hok
  have hrequest := congrArg HttpContext.request_ hcontext
  refine ⟨c, left, hparse, ?_, ?_, ?_, ?_, ?_, ?_, hleft⟩
  · exact (congrArg gotAll hcontext :)
  · exact (congrArg HttpRequest.method_ hrequest :)
  · exact (congrArg HttpRequest.path_ hrequest :)
  · exact (congrArg HttpRequest.query_ hrequest :)
  · exact (congrArg HttpRequest.version_ hrequest :)
  · intro name
    exact (congrFun (congrArg HttpRequest.headers_ hrequest) name :)

/-- A request with a query, a header given twice and a header of blanks. -/
def searchRequest : RequestText where
  method := .kGet
  path := ascii "/search"
  query := ascii "?q=a"
  version := .kHttp11
  headers :=
    [⟨ascii "Host", ascii "a:80", by decide, by decide⟩, ⟨[], ascii " \t", by decide, by decide⟩,
      ⟨ascii "Host", ascii " b ", by decide, by decide⟩]
  method_known := by decide
  path_ok := by decide
  query_start := Or.inr ⟨ascii "q=a", by decide⟩
  query_ok := by decide
  version_known := by decide

theorem parseRequest_render_searchRequest :
    ∃ c left,
      construct.parseRequest (Buffer.fresh.append (searchRequest.render ++ ascii "GET")) 7 =
        some (c, left, true) ∧
      c.gotAll = true ∧ c.request_.method_ = .kGet ∧ c.request_.path_ = ascii "/search" ∧
      c.request_.query_ = ascii "?q=a" ∧ c.request_.version_ = .kHttp11 ∧
      (∀ name, c.request_.headers_ name = HeaderText.lastValue searchRequest.headers name) ∧
      left.content = ascii "GET" :=
  parseRequest_render searchRequest (ascii "GET") 7 (Buffer.valid_fresh.append _).1
    (by rw [(Buffer.valid_fresh.append _).2.1, Buffer.content_fresh, List.nil_append])

example : HeaderText.lastValue searchRequest.headers (ascii "Host") = some (ascii "b") := by
  decide

end ReactorNet.HttpContext
