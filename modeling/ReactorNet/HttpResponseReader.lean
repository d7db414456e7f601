import ReactorNet.HeadedFrames
import ReactorNet.HttpResponse

/-!
# Reading responses back

A client that reads a status line, header lines up to the empty line, and as many bytes of
body as the headers announce. From a stream of keep-alive responses it recovers them all.
-/
namespace ReactorNet

open TokenMachines DecimalNumerals

namespace ResponseReader

/-- What stands before the body, the header fields in the order of the text. -/
structure Head where
  statusCode : ℤ
  statusMessage : List UInt8
  fields : List (List UInt8 × List UInt8)
deriving DecidableEq

inductive Expect where
  | statusLine
  | fields (head : Head)

inductive Result where
  | complete (head : Head)
  | malformed
deriving DecidableEq

/-- The code ends at the first space behind the version; the rest is the message. -/
def readStatusLine (line : List UInt8) : Option Head :=
  if ascii "HTTP/1.1 " <+: line then
    let rest := line.drop 9
    let code := rest.takeWhile (· ≠ SP)
    if [SP] <+: rest.drop code.length then
      (intValue code).map fun statusCode => ⟨statusCode, rest.drop (code.length + 1), []⟩
    else none
  else none

/-- The name ends at the first colon, which is followed by a space. -/
def readField (line : List UInt8) : Option (List UInt8 × List UInt8) :=
  let name := line.takeWhile (· ≠ COLON)
  if ascii ": " <+: line.drop name.length then some (name, line.drop (name.length + 2)) else none

def readLine : Expect → List UInt8 → Reply Expect Result
  | .statusLine, line =>
    match readStatusLine line with
    | some head => .go (.fields head)
    | none => .halt .malformed true
  | .fields head, line =>
    if line = [] then .halt (.complete head) true
    else match readField line with
      | some field => .go (.fields { head with fields := head.fields ++ [field] })
      | none => .halt .malformed true

def headReader : Machine UInt8 (List UInt8) Expect Result where
  toCutter := lines kCRLF kCRLF_ne_nil
  step := readLine

def Head.lookup (head : Head) (name : List UInt8) : Option (List UInt8) :=
  (head.fields.find? fun field => field.1 = name).map Prod.snd

def bodyLength : Result → Option ℕ
  | .complete head => (head.lookup (ascii "Content-Length")).bind natValue
  | .malformed => none

theorem readLine_takes (s : Expect) (line : List UInt8) (r : Result) (taken : Bool)
    (h : readLine s line = .halt r taken) : taken = true := by
  cases s with
  | statusLine =>
    rw [readLine] at h
    split at h
    · cases h
    · cases h
      rfl
  | fields head =>
    rw [readLine] at h
    split at h
    · cases h
      rfl
    · split at h
      · cases h
      · cases h
        rfl

/-- One response after the other. -/
def responses : FrameStreams.FrameParser UInt8 Result (Result × List UInt8) :=
  HeadedFrames.parser headReader .statusLine bodyLength readLine_takes

/-- The fields that are not the server's own. -/
def Head.userFields (head : Head) : List (List UInt8 × List UInt8) :=
  head.fields.filter fun field =>
    field.1 ≠ ascii "Content-Length" ∧ field.1 ≠ ascii "Connection"

/-! ## Lines -/

theorem length_line (line t : List UInt8) :
    (line ++ kCRLF ++ t).length = line.length + 2 + t.length := by
  rw [List.length_append, List.length_append]
  rfl

theorem takeWhile_ne {s : List UInt8} {x : UInt8} (h : x ∉ s) (t : List UInt8) :
    (s ++ x :: t).takeWhile (· ≠ x) = s := by
  rw [List.takeWhile_append_of_pos]
  · simp
  · intro y hy
    rw [decide_eq_true_eq]
    rintro rfl
    exact h hy

theorem readStatusLine_eq (code : ℤ) (message : List UInt8) :
    readStatusLine (ascii "HTTP/1.1 " ++ numeral code ++ SP :: message) =
      some ⟨code, message, []⟩ := by
  have hspace : SP ∉ numeral code := by
    intro hin
    rcases mem_numeral hin with hminus | hdigit
    · exact absurd hminus (by decide)
    · exact absurd hdigit (by decide)
  rw [readStatusLine, List.append_assoc, if_pos (List.prefix_append _ _)]
  have hdrop : (ascii "HTTP/1.1 " ++ (numeral code ++ SP :: message)).drop 9 =
      numeral code ++ SP :: message := List.drop_left' rfl
  simp only [hdrop, takeWhile_ne hspace, List.drop_left, intValue_numeral, Option.map_some]
  rw [if_pos (show [SP] <+: SP :: message from List.prefix_append [SP] message),
    ← List.drop_drop, List.drop_left]
  rfl

theorem readField_headerLine {field : List UInt8 × List UInt8} (h : COLON ∉ field.1) :
    readField (HttpResponse.headerLine field) = some field := by
  have hline : HttpResponse.headerLine field = field.1 ++ COLON :: SP :: field.2 := by
    rw [HttpResponse.headerLine, List.append_assoc]
    rfl
  rw [readField, hline]
  simp only [takeWhile_ne h, List.drop_left]
  rw [if_pos (show ascii ": " <+: COLON :: SP :: field.2 from List.prefix_append [COLON, SP] _),
    ← List.drop_drop, List.drop_left]
  rfl

/-- The fields are read one by one up to the empty line. -/
theorem advance_fields (fields : List (List UInt8 × List UInt8)) (head : Head)
    (h : ∀ field ∈ fields, CR ∉ HttpResponse.headerLine field ∧ COLON ∉ field.1)
    (t : List UInt8) : headReader.advance (.fields head)
      ((fields.map fun field => HttpResponse.headerLine field ++ kCRLF).flatten ++ kCRLF ++ t) =
        ⟨.halted (.complete { head with fields := head.fields ++ fields }),
          ((fields.map fun field => HttpResponse.headerLine field ++ kCRLF).flatten ++
            kCRLF).length⟩ := by
  induction fields generalizing head with
  | nil =>
    have hstep : headReader.step (.fields head) [] = .halt (.complete head) true := rfl
    have hcut : headReader.cut ([] ++ kCRLF ++ t) = some ([], 2) := cut_crlf List.not_mem_nil t
    rw [List.map_nil, List.flatten_nil, headReader.advance_halt hcut hstep, List.append_nil]
    rfl
  | cons field fields ih =>
    obtain ⟨hcr, hcolon⟩ := h field List.mem_cons_self
    have hne : HttpResponse.headerLine field ≠ [] := by
      simp [HttpResponse.headerLine, ascii]
    have hstep : headReader.step (.fields head) (HttpResponse.headerLine field) =
        .go (.fields { head with fields := head.fields ++ [field] }) := by
      simp only [headReader, readLine, if_neg hne, readField_headerLine hcolon]
    have hrest := ih { head with fields := head.fields ++ [field] }
      fun f hf => h f (List.mem_cons_of_mem _ hf)
    rw [List.map_cons, List.flatten_cons, List.append_assoc, List.append_assoc (_ ++ kCRLF),
      headReader.advance_go (cut_crlf hcr _) hstep, drop_crlf, ← List.append_assoc, hrest]
    rw [List.append_assoc (_ ++ kCRLF) _ kCRLF, length_line]
    simp only [Progress.after, List.append_assoc, List.singleton_append]

/-- The text of a head. -/
def Head.text (head : Head) : List UInt8 :=
  ascii "HTTP/1.1 " ++ numeral head.statusCode ++ SP :: head.statusMessage ++ kCRLF ++
    ((head.fields.map fun field => HttpResponse.headerLine field ++ kCRLF).flatten ++ kCRLF)

/-- The reader takes a head from any stream that begins with its text. -/
theorem advance_text {head : Head} (hmessage : CR ∉ head.statusMessage)
    (hfields : ∀ field ∈ head.fields, CR ∉ HttpResponse.headerLine field ∧ COLON ∉ field.1)
    (t : List UInt8) : headReader.advance .statusLine (head.text ++ t) =
      ⟨.halted (.complete head), head.text.length⟩ := by
  have hcr : CR ∉ ascii "HTTP/1.1 " ++ numeral head.statusCode ++ SP :: head.statusMessage := by
    rw [List.mem_append, List.mem_append, List.mem_cons, not_or, not_or, not_or]
    refine ⟨⟨by decide, fun hin => ?_⟩, by decide, hmessage⟩
    rcases mem_numeral hin with hminus | hdigit
    · exact absurd hminus (by decide)
    · exact absurd hdigit (by decide)
  have hstep : headReader.step .statusLine
      (ascii "HTTP/1.1 " ++ numeral head.statusCode ++ SP :: head.statusMessage) =
        .go (.fields ⟨head.statusCode, head.statusMessage, []⟩) := by
    simp only [headReader, readLine, readStatusLine_eq]
  rw [Head.text, List.append_assoc (_ ++ kCRLF),
    headReader.advance_go (cut_crlf hcr _) hstep, drop_crlf,
    advance_fields head.fields _ hfields, length_line]
  rfl

/-- Headers that can be read back: names and values fit on a line, and no name is one of the
server's own fields. -/
structure Plain (headers : List (List UInt8 × List UInt8)) : Prop where
  name_ok : ∀ header ∈ headers, CR ∉ header.1 ∧ LF ∉ header.1 ∧ COLON ∉ header.1 ∧
    header.1 ≠ ascii "Content-Length" ∧ header.1 ≠ ascii "Connection"
  value_ok : ∀ header ∈ headers, CR ∉ header.2 ∧ LF ∉ header.2

theorem headerLine_ok {header : List UInt8 × List UInt8} (hname : CR ∉ header.1)
    (hvalue : CR ∉ header.2) : CR ∉ HttpResponse.headerLine header := by
  rw [HttpResponse.headerLine, List.mem_append, List.mem_append, not_or, not_or]
  exact ⟨⟨hname, by decide⟩, hvalue⟩

namespace Plain

variable {own headers : List (List UInt8 × List UInt8)} (h : Plain headers)
include h

/-- They are read behind the server's own fields. -/
theorem fields_ok (hown : ∀ field ∈ own, CR ∉ HttpResponse.headerLine field ∧ COLON ∉ field.1) :
    ∀ field ∈ own ++ headers, CR ∉ HttpResponse.headerLine field ∧ COLON ∉ field.1 := by
  intro field hfield
  rcases List.mem_append.mp hfield with hin | huser
  · exact hown field hin
  · obtain ⟨hcr, -, hcolon, -⟩ := h.name_ok field huser
    exact ⟨headerLine_ok hcr (h.value_ok field huser).1, hcolon⟩

theorem userFields {head : Head} (hfields : head.fields = own ++ headers)
    (hown : ∀ field ∈ own, field.1 = ascii "Content-Length" ∨ field.1 = ascii "Connection") :
    head.userFields = headers := by
  have huser : headers.filter (fun field =>
      field.1 ≠ ascii "Content-Length" ∧ field.1 ≠ ascii "Connection") = headers := by
    refine List.filter_eq_self.mpr fun field hfield => ?_
    obtain ⟨-, -, -, hnames⟩ := h.name_ok field hfield
    exact decide_eq_true hnames
  have hnone : own.filter (fun field =>
      field.1 ≠ ascii "Content-Length" ∧ field.1 ≠ ascii "Connection") = [] := by
    refine List.filter_eq_nil_iff.mpr fun field hfield hnames => ?_
    obtain ⟨hlength, hconnection⟩ := of_decide_eq_true hnames
    exact (hown field hfield).elim hlength hconnection
  rw [Head.userFields, hfields, List.filter_append, huser, hnone, List.nil_append]

end Plain

end ResponseReader

namespace HttpResponse

open ResponseReader

/-- A response that can be read back: it keeps the connection, its message, names and values
fit on a line, its names are no names of the server's own fields, and the length of the body
fits into the scratch buffer. -/
structure KeepAlive (r : HttpResponse) : Prop where
  notClosed : r.closeConnection_ = false
  message_ok : CR ∉ r.statusMessage_ ∧ LF ∉ r.statusMessage_
  name_ok : ∀ header ∈ r.headers_.toList, CR ∉ header.1 ∧ LF ∉ header.1 ∧ COLON ∉ header.1 ∧
    header.1 ≠ ascii "Content-Length" ∧ header.1 ≠ ascii "Connection"
  value_ok : ∀ header ∈ r.headers_.toList, CR ∉ header.2 ∧ LF ∉ header.2
  body_lt : r.body_.length < 10 ^ 13

def fields (r : HttpResponse) : List (List UInt8 × List UInt8) :=
  [(ascii "Content-Length", digits r.body_.length), (ascii "Connection", ascii "Keep-Alive")] ++
    r.headers_.toList

/-- The head of the response as a client reads it. -/
def head (r : HttpResponse) : Head := ⟨r.statusCode_.toInt, r.statusMessage_, r.fields⟩

theorem snprintf_eq {size : ℕ} {text : List UInt8} (h : text.length < size) :
    snprintf size text = text := List.take_of_length_le (by omega)

/-- The first line fits into the scratch buffer for every status code. -/
theorem statusLine_fits (code : BitVec 32) :
    (ascii "HTTP/1.1 " ++ numeral code.toInt ++ ascii " ").length < 32 := by
  have hlt := code.toInt_lt
  have hle := code.le_toInt
  have hnumeral : (numeral code.toInt).length ≤ 10 + 1 := length_numeral_le (by decide) (by omega)
  have hversion : (ascii "HTTP/1.1 ").length = 9 := rfl
  have hspace : (ascii " ").length = 1 := rfl
  rw [List.length_append, List.length_append]
  omega

theorem bodyLength_head (r : HttpResponse) :
    bodyLength (.complete r.head) = some r.body_.length := by
  have hlookup : r.head.lookup (ascii "Content-Length") = some (digits r.body_.length) := by
    rw [Head.lookup, head, fields, List.cons_append, List.find?_cons_of_pos (by simp)]
    rfl
  rw [bodyLength, hlookup, Option.bind_some, natValue_digits]

namespace KeepAlive

variable {r : HttpResponse} (h : r.KeepAlive)
include h

theorem contentLength_eq : r.contentLength = (r.body_.length : ℤ) := by
  have hlt := h.body_lt
  rw [contentLength, BitVec.toInt_eq_toNat_of_lt, BitVec.toNat_ofNat, Nat.mod_eq_of_lt]
  · omega
  · rw [BitVec.toNat_ofNat]
    omega

/-- So does the line with the length. -/
theorem lengthField_fits :
    (ascii "Content-Length: " ++ digits r.body_.length ++ ascii "\r\n").length < 32 := by
  have hdigits := (length_digits_le_iff (by decide : 0 < 13)).mpr h.body_lt
  have hname : (ascii "Content-Length: ").length = 16 := rfl
  have hend : (ascii "\r\n").length = 2 := rfl
  rw [List.length_append, List.length_append]
  omega

/-- The text is the head followed by the body. -/
theorem text_eq : r.text = r.head.text ++ r.body_ := by
  have hname : ascii "Content-Length: " = ascii "Content-Length" ++ ascii ": " := rfl
  have hconnection : ascii "Connection: Keep-Alive\r\n" =
      headerLine (ascii "Connection", ascii "Keep-Alive") ++ kCRLF := rfl
  have hlength : snprintf 32 (ascii "Content-Length: " ++ numeral r.contentLength ++ ascii "\r\n") =
      headerLine (ascii "Content-Length", digits r.body_.length) ++ kCRLF := by
    rw [h.contentLength_eq, numeral_natCast, snprintf_eq h.lengthField_fits, hname]
    rfl
  have hstatus : snprintf 32 (ascii "HTTP/1.1 " ++ numeral r.statusCode_.toInt ++ ascii " ") =
      ascii "HTTP/1.1 " ++ numeral r.statusCode_.toInt ++ [SP] :=
    snprintf_eq (statusLine_fits r.statusCode_)
  rw [text, Head.text, head, ownFields, h.notClosed, hstatus, hlength, hconnection, fields]
  simp

theorem plain : Plain r.headers_.toList := ⟨h.name_ok, h.value_ok⟩

theorem advance_head (t : List UInt8) : headReader.advance .statusLine (r.head.text ++ t) =
    ⟨.halted (.complete r.head), r.head.text.length⟩ := by
  refine advance_text h.message_ok.1 (h.plain.fields_ok fun field hown => ?_) t
  rcases List.mem_cons.mp hown with rfl | hown
  · refine ⟨headerLine_ok (by decide : CR ∉ ascii "Content-Length") fun hin => ?_,
      (by decide : COLON ∉ ascii "Content-Length")⟩
    exact absurd (isDigit_of_mem_digits hin) (by decide)
  · rw [List.mem_singleton.mp hown]
    exact ⟨by decide, by decide⟩

theorem userFields_head : r.head.userFields = r.headers_.toList := by
  refine h.plain.userFields rfl fun field hown => ?_
  rcases List.mem_cons.mp hown with rfl | hown
  · exact Or.inl rfl
  · rw [List.mem_singleton.mp hown]
    exact Or.inr rfl

theorem front_text : responses.front r.text = .item (.complete r.head, r.body_) r.text.length := by
  rw [h.text_eq]
  exact HeadedFrames.front_head_body (h.advance_head _) r.bodyLength_head

end KeepAlive

/-- What a client has of a response when it has read it. -/
def received (item : Result × List UInt8) :
    Option (ℤ × List UInt8 × List (List UInt8 × List UInt8) × List UInt8) :=
  match item with
  | (.complete head, body) => some (head.statusCode, head.statusMessage, head.userFields, body)
  | (.malformed, _) => none

theorem content_foldl (rs : List HttpResponse) {b : Buffer} (h : b.Valid) :
    (rs.foldl (fun b r => r.appendToBuffer b) b).content = b.content ++ (rs.map text).flatten := by
  induction rs generalizing b with
  | nil => exact (List.append_nil _).symm
  | cons r rs ih =>
    have hone := r.extends_appendToBuffer h
    rw [List.foldl_cons, ih hone.valid, hone.content, List.append_assoc, List.map_cons,
      List.flatten_cons]

/-- Keep-alive responses are uniquely decodable: from the bytes that `appendToBuffer` adds for
one response after the other, each into a buffer of its own or all into one, the reader
recovers the status codes, the messages, the users' headers and the bodies, and nothing is
left over. -/
theorem keepAlive_decodable {rs : List HttpResponse} (h : ∀ r ∈ rs, r.KeepAlive) :
    ((rs.foldl (fun b r => r.appendToBuffer b) Buffer.fresh).content =
      (rs.map fun r => (r.appendToBuffer Buffer.fresh).content).flatten) ∧
    ∃ items, responses.drain (rs.map fun r => (r.appendToBuffer Buffer.fresh).content).flatten =
        ⟨items, none, []⟩ ∧
      items.map received = rs.map fun r =>
        some (r.statusCode_.toInt, r.statusMessage_, r.headers_.toList, r.body_) := by
  simp only [content_appendToBuffer]
  refine ⟨?_, rs.map fun r => (.complete r.head, r.body_), ?_, ?_⟩
  · rw [content_foldl rs Buffer.valid_fresh, Buffer.content_fresh]
    rfl
  · apply responses.drain_flatten
    rw [List.forall₂_map_left_iff, List.forall₂_map_right_iff, List.forall₂_same]
    exact fun r hr => (h r hr).front_text
  · rw [List.map_map]
    refine List.map_congr_left fun r hr => ?_
    simp only [Function.comp_apply, received, (h r hr).userFields_head]
    rfl

/-- A body that looks like a response is followed by one without a body. -/
def nested : HttpResponse :=
  (((construct false).setStatusCode 200).setStatusMessage (ascii "OK")).setContentType
    (ascii "text/plain") |>.setBody (ascii "\r\n\r\nHTTP/1.1 500 No\r\nContent-Length: 0\r\n\r\n")

def missing : HttpResponse :=
  ((construct false).setStatusCode 404).setStatusMessage (ascii "Not Found")

theorem keepAlive_decodable_nested :
    ∃ items, responses.drain
        ([nested, missing].map fun r => (r.appendToBuffer Buffer.fresh).content).flatten =
          ⟨items, none, []⟩ ∧
      items.map received = [
        some (200, ascii "OK", [(ascii "Content-Type", ascii "text/plain")], nested.body_),
        some (404, ascii "Not Found", [], [])] := by
  have hkeep : ∀ r ∈ [nested, missing], r.KeepAlive := by
    intro r hr
    rcases List.mem_cons.mp hr with rfl | hr
    · exact ⟨rfl, by decide +kernel, by decide +kernel, by decide +kernel, by decide +kernel⟩
    · rw [List.mem_singleton.mp hr]
      exact ⟨rfl, by decide +kernel, by decide +kernel, by decide +kernel, by decide +kernel⟩
  obtain ⟨-, items, hdrain, hitems⟩ := keepAlive_decodable hkeep
  exact ⟨items, hdrain, hitems⟩

end HttpResponse

end ReactorNet
