import ReactorNet.Buffer
import ReactorNet.TimerQueue
import ReactorNet.TokenMachines
import Mathlib.Data.List.DropRight

/-!
# HTTP requests and their parser

`HttpRequest` and `HttpContext`. A pair of pointers is the list of bytes between them,
and `std::find` is the index of the first occurrence, the length if there is none.
Strings are lists of bytes, and the header map is a partial function, as nothing
iterates over it.
-/
namespace ReactorNet

open VectorStorage TokenMachines

def ascii (s : String) : List UInt8 := s.toList.map fun c => UInt8.ofNat c.toNat

def SP : UInt8 := 32
def QUESTION : UInt8 := 63
def COLON : UInt8 := 58
def CR : UInt8 := 13
def LF : UInt8 := 10

def kCRLF : List UInt8 := [CR, LF]

theorem kCRLF_ne_nil : kCRLF ≠ [] := List.cons_ne_nil CR [LF]

/-- A line in front of a stream is its first token. -/
theorem cut_crlf {line : List UInt8} (h : CR ∉ line) (t : List UInt8) :
    (lines kCRLF kCRLF_ne_nil).cut (line ++ kCRLF ++ t) = some (line, line.length + 2) :=
  cut_line h t

theorem drop_crlf (line t : List UInt8) : (line ++ kCRLF ++ t).drop (line.length + 2) = t :=
  List.drop_left' (by simp [kCRLF])

/-- `isspace` in the C locale. -/
def isspace (c : UInt8) : Bool := c == 32 || (9 ≤ c && c ≤ 13)

namespace Buffer

/-- The position in the vector of the first CRLF among the readable bytes. -/
def findCRLF (b : Buffer) : Option ℕ :=
  let crlf := search kCRLF b.content
  if crlf = b.readableBytes then none else some (b.readerIndex_ + crlf)

/-- The bytes from `peek()` up to a position in the vector. -/
def upTo (b : Buffer) (last : ℕ) : List UInt8 :=
  slice b.buffer_ b.readerIndex_ (last - b.readerIndex_)

end Buffer

namespace HttpRequest

inductive Method where
  | kInvalid
  | kGet
  | kPost
  | kHead
  | kPut
  | kDelete
deriving DecidableEq

inductive Version where
  | kUnknown
  | kHttp10
  | kHttp11
deriving DecidableEq

end HttpRequest

structure HttpRequest where
  method_ : HttpRequest.Method
  version_ : HttpRequest.Version
  path_ : List UInt8
  query_ : List UInt8
  receiveTime_ : Timestamp
  headers_ : List UInt8 → Option (List UInt8)

namespace HttpRequest

def construct : HttpRequest := ⟨.kInvalid, .kUnknown, [], [], Timestamp.invalid, fun _ => none⟩

def setMethod (r : HttpRequest) (m : List UInt8) : HttpRequest × Bool :=
  let method :=
    if m = ascii "GET" then Method.kGet
    else if m = ascii "POST" then .kPost
    else if m = ascii "HEAD" then .kHead
    else if m = ascii "PUT" then .kPut
    else if m = ascii "DELETE" then .kDelete
    else .kInvalid
  ({ r with method_ := method }, method != .kInvalid)

def methodString : Method → List UInt8
  | .kGet => ascii "GET"
  | .kPost => ascii "POST"
  | .kHead => ascii "HEAD"
  | .kPut => ascii "PUT"
  | .kDelete => ascii "DELETE"
  | .kInvalid => ascii "UNKNOWN"

def setVersion (r : HttpRequest) (v : Version) : HttpRequest := { r with version_ := v }

def setPath (r : HttpRequest) (path : List UInt8) : HttpRequest := { r with path_ := path }

def setQuery (r : HttpRequest) (query : List UInt8) : HttpRequest := { r with query_ := query }

def setReceiveTime (r : HttpRequest) (t : Timestamp) : HttpRequest := { r with receiveTime_ := t }

/-- `line` runs from `start` to `end`, and `colon` is a position in it. -/
def addHeader (r : HttpRequest) (line : List UInt8) (colon : ℕ) : HttpRequest :=
  let field := line.take colon
  let value := ((line.drop (colon + 1)).dropWhile isspace).rdropWhile isspace
  { r with headers_ := Function.update r.headers_ field (some value) }

def getHeader (r : HttpRequest) (field : List UInt8) : List UInt8 := (r.headers_ field).getD []

end HttpRequest

inductive HttpRequestParseState where
  | kExpectRequestLine
  | kExpectHeaders
  | kExpectBody
  | kGotAll
deriving DecidableEq

structure HttpContext where
  state_ : HttpRequestParseState
  request_ : HttpRequest

namespace HttpContext

open HttpRequest

def construct : HttpContext := ⟨.kExpectRequestLine, HttpRequest.construct⟩

def gotAll (c : HttpContext) : Bool := c.state_ == .kGotAll

def reset (_ : HttpContext) : HttpContext := ⟨.kExpectRequestLine, HttpRequest.construct⟩

/-- The end of the request line, from the last space on. -/
def processVersion (request : HttpRequest) (version : List UInt8) : HttpRequest × Bool :=
  if version.length = 8 ∧ version.take 7 = ascii "HTTP/1." then
    if version.getLast? = some 49 then (request.setVersion .kHttp11, true)
    else if version.getLast? = some 48 then (request.setVersion .kHttp10, true)
    else (request, false)
  else (request, false)

def setTarget (request : HttpRequest) (target : List UInt8) : HttpRequest :=
  let question := target.idxOf QUESTION
  if question ≠ target.length then
    (request.setPath (target.take question)).setQuery (target.drop question)
  else request.setPath target

/-- The request line after the method and its space. -/
def processTarget (request : HttpRequest) (line : List UInt8) : HttpRequest × Bool :=
  let space := line.idxOf SP
  if space ≠ line.length then
    processVersion (setTarget request (line.take space)) (line.drop (space + 1))
  else (request, false)

/-- The result is `request_` after the call and the value returned. -/
def processRequestLine (request : HttpRequest) (line : List UInt8) : HttpRequest × Bool :=
  let space := line.idxOf SP
  if space ≠ line.length then
    match request.setMethod (line.take space) with
    | (request, true) => processTarget request (line.drop (space + 1))
    | (request, false) => (request, false)
  else (request, false)

/-- The variables of the loop in `parseRequest`, the buffer and the context included. -/
structure Turn where
  context : HttpContext
  buf : Buffer
  ok : Bool
  hasMore : Bool

/-- One turn of the loop. The states without a branch leave everything as it is. -/
def parseTurn (receiveTime : Timestamp) (t : Turn) : Turn :=
  match t.context.state_ with
  | .kExpectRequestLine =>
    match t.buf.findCRLF with
    | some crlf =>
      let (request, ok) := processRequestLine t.context.request_ (t.buf.upTo crlf)
      if ok then
        { t with
          context := ⟨.kExpectHeaders, request.setReceiveTime receiveTime⟩
          buf := t.buf.retrieveUntil (crlf + 2)
          ok := true }
      else
        { t with
          context := { t.context with request_ := request }
          ok := false
          hasMore := false }
    | none => { t with hasMore := false }
  | .kExpectHeaders =>
    match t.buf.findCRLF with
    | some crlf =>
      let line := t.buf.upTo crlf
      let colon := line.idxOf COLON
      if colon ≠ line.length then
        { t with
          context := { t.context with request_ := t.context.request_.addHeader line colon }
          buf := t.buf.retrieveUntil (crlf + 2) }
      else
        { t with
          context := { t.context with state_ := .kGotAll }
          buf := t.buf.retrieveUntil (crlf + 2)
          hasMore := false }
    | none => { t with hasMore := false }
  | .kExpectBody | .kGotAll => t

/-- Turns until `hasMore` is false; `none` if the given number of them does not suffice. -/
def parseLoop (receiveTime : Timestamp) : ℕ → Turn → Option Turn
  | 0, _ => none
  | turns + 1, t =>
    let t' := parseTurn receiveTime t
    if t'.hasMore then parseLoop receiveTime turns t' else some t'

/-- A turn after which the loop goes on takes a line, unless the loop goes on forever. -/
def parseRequest (c : HttpContext) (buf : Buffer) (receiveTime : Timestamp) :
    Option (HttpContext × Buffer × Bool) :=
  (parseLoop receiveTime (buf.readableBytes + 1) ⟨c, buf, true, true⟩).map fun t =>
    (t.context, t.buf, t.ok)

end HttpContext

end ReactorNet
