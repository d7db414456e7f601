import ReactorNet.BufferByteQueue
import ReactorNet.DecimalNumerals
import ReactorNet.HttpServer
import ReactorNet.OrderedSets
import Mathlib.Data.List.Lex

/-!
# HTTP responses

`HttpResponse` and the bytes that `appendToBuffer` adds to a buffer. The headers are in the
order in which the map iterates over them.
-/
namespace ReactorNet

open DecimalNumerals

instance instLinearOrderUInt8 : LinearOrder UInt8 where
  le_refl := UInt8.le_refl
  le_trans _ _ _ := UInt8.le_trans
  le_antisymm _ _ := UInt8.le_antisymm
  le_total := UInt8.le_total
  lt_iff_le_not_ge a b := by
    rw [UInt8.lt_iff_toNat_lt, UInt8.le_iff_toNat_le, UInt8.le_iff_toNat_le]
    omega
  toDecidableLE := inferInstance

structure HttpResponse where
  headers_ : OrderedMap (List UInt8) (List UInt8)
  statusCode_ : BitVec 32
  statusMessage_ : List UInt8
  closeConnection_ : Bool
  body_ : List UInt8

/-- `snprintf` into a buffer of some size, whose last byte is the terminator. -/
def snprintf (size : ℕ) (text : List UInt8) : List UInt8 := text.take (size - 1)

namespace HttpResponse

def kUnknown : BitVec 32 := 0

def construct (close : Bool) : HttpResponse := ⟨.empty, kUnknown, [], close, []⟩

def setStatusCode (r : HttpResponse) (code : BitVec 32) : HttpResponse :=
  { r with statusCode_ := code }

def setStatusMessage (r : HttpResponse) (message : List UInt8) : HttpResponse :=
  { r with statusMessage_ := message }

def setCloseConnection (r : HttpResponse) (on : Bool) : HttpResponse :=
  { r with closeConnection_ := on }

def addHeader (r : HttpResponse) (key value : List UInt8) : HttpResponse :=
  { r with headers_ := r.headers_.assign key value }

def setContentType (r : HttpResponse) (contentType : List UInt8) : HttpResponse :=
  r.addHeader (ascii "Content-Type") contentType

def setBody (r : HttpResponse) (body : List UInt8) : HttpResponse := { r with body_ := body }

/-- The result of `size()` as `%zd` prints it. -/
def contentLength (r : HttpResponse) : ℤ := (BitVec.ofNat 64 r.body_.length).toInt

def appendHeader (output : Buffer) (header : List UInt8 × List UInt8) : Buffer :=
  (((output.append header.1).append (ascii ": ")).append header.2).append (ascii "\r\n")

def appendToBuffer (r : HttpResponse) (output : Buffer) : Buffer :=
  let output := output.append
    (snprintf 32 (ascii "HTTP/1.1 " ++ numeral r.statusCode_.toInt ++ ascii " "))
  let output := (output.append r.statusMessage_).append (ascii "\r\n")
  let output := if r.closeConnection_ then output.append (ascii "Connection: close\r\n")
    else
      let output := output.append
        (snprintf 32 (ascii "Content-Length: " ++ numeral r.contentLength ++ ascii "\r\n"))
      output.append (ascii "Connection: Keep-Alive\r\n")
  let output := r.headers_.toList.foldl appendHeader output
  (output.append (ascii "\r\n")).append r.body_

/-! ## The bytes added -/

/-- The field of a header in the text. -/
def headerLine (header : List UInt8 × List UInt8) : List UInt8 :=
  header.1 ++ ascii ": " ++ header.2

/-- The header fields the server adds by itself. -/
def ownFields (r : HttpResponse) : List UInt8 :=
  if r.closeConnection_ then ascii "Connection: close\r\n"
  else snprintf 32 (ascii "Content-Length: " ++ numeral r.contentLength ++ ascii "\r\n") ++
    ascii "Connection: Keep-Alive\r\n"

def text (r : HttpResponse) : List UInt8 :=
  snprintf 32 (ascii "HTTP/1.1 " ++ numeral r.statusCode_.toInt ++ ascii " ") ++
    r.statusMessage_ ++ kCRLF ++ r.ownFields ++
    (r.headers_.toList.map fun header => headerLine header ++ kCRLF).flatten ++ kCRLF ++ r.body_

/-- The readable bytes of `b'` are those of `b` and `data` behind them. -/
structure Extends (b b' : Buffer) (data : List UInt8) : Prop where
  valid : b'.Valid
  content : b'.content = b.content ++ data

theorem extends_append {b : Buffer} (h : b.Valid) (data : List UInt8) :
    Extends b (b.append data) data := by
  obtain ⟨hv, hc, -⟩ := h.append data
  exact ⟨hv, hc⟩

theorem Extends.append {b b' : Buffer} {data : List UInt8} (h : Extends b b' data)
    (more : List UInt8) : Extends b (b'.append more) (data ++ more) := by
  obtain ⟨hv, hc, -⟩ := h.valid.append more
  exact ⟨hv, by rw [hc, h.content, List.append_assoc]⟩

theorem Extends.appendHeaders {b b' : Buffer} {data : List UInt8} (h : Extends b b' data)
    (headers : List (List UInt8 × List UInt8)) : Extends b (headers.foldl appendHeader b')
      (data ++ (headers.map fun header => headerLine header ++ kCRLF).flatten) := by
  induction headers generalizing b' data with
  | nil => simpa using h
  | cons header headers ih =>
    have htext : data ++ header.1 ++ ascii ": " ++ header.2 ++ ascii "\r\n" =
        data ++ (headerLine header ++ kCRLF) := by
      simp only [headerLine, List.append_assoc]
      rfl
    have hone : Extends b (appendHeader b' header) (data ++ (headerLine header ++ kCRLF)) :=
      htext ▸ (((h.append header.1).append (ascii ": ")).append header.2).append (ascii "\r\n")
    have hall := ih hone
    rwa [List.append_assoc] at hall

/-- `appendToBuffer` adds the text of the response to whatever is in the buffer. -/
theorem extends_appendToBuffer (r : HttpResponse) {b : Buffer} (h : b.Valid) :
    Extends b (r.appendToBuffer b) r.text := by
  have hstatus := ((extends_append h
    (snprintf 32 (ascii "HTTP/1.1 " ++ numeral r.statusCode_.toInt ++ ascii " "))).append
      r.statusMessage_).append (ascii "\r\n")
  rw [text, ownFields, appendToBuffer]
  cases r.closeConnection_ with
  | true =>
    exact (((hstatus.append (ascii "Connection: close\r\n")).appendHeaders _).append
      (ascii "\r\n")).append r.body_
  | false =>
    have hfields := ((hstatus.append (snprintf 32 (ascii "Content-Length: " ++
      numeral r.contentLength ++ ascii "\r\n"))).append (ascii "Connection: Keep-Alive\r\n"))
    rw [List.append_assoc _ (snprintf 32 _)] at hfields
    exact ((hfields.appendHeaders _).append (ascii "\r\n")).append r.body_

theorem content_appendToBuffer (r : HttpResponse) :
    (r.appendToBuffer Buffer.fresh).content = r.text := by
  rw [(r.extends_appendToBuffer Buffer.valid_fresh).content, Buffer.content_fresh, List.nil_append]

/-- What the server sends for a request and whether it closes, with the user's callback. -/
def respond (httpCallback_ : HttpRequest → HttpResponse → HttpResponse) : HttpServer.Respond :=
  fun req close =>
    let response := httpCallback_ req (construct close)
    ((response.appendToBuffer .fresh).content, response.closeConnection_)

/-- The server sends the text of the response and shuts down only if the response closes. -/
theorem onRequest_respond (httpCallback_ : HttpRequest → HttpResponse → HttpResponse)
    (req : HttpRequest) : HttpServer.onRequest (respond httpCallback_) req =
      let connection := req.getHeader (ascii "Connection")
      let response := httpCallback_ req (construct (connection == ascii "close" ||
        (req.version_ == .kHttp10 && connection != ascii "Keep-Alive")))
      [.httpCallback req, .send response.text] ++
        if response.closeConnection_ then [.shutdown] else [] := by
  rw [HttpServer.onRequest]
  simp only [respond, content_appendToBuffer]

end HttpResponse

end ReactorNet
