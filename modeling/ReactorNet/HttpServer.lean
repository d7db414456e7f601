import ReactorNet.HttpContext

/-!
# What the HTTP server does with received bytes

`onMessage` from the call of the parser on, and `onRequest`. A call is described by the
context and the input buffer it leaves and by what it does to the connection. The user's
`httpCallback_` together with the rendering of the response is a parameter: the bytes to
send for a request and a `close` flag, and whether the response closes the connection.
-/
namespace ReactorNet.HttpServer

open HttpContext

inductive HttpEffect where
  | httpCallback (req : HttpRequest)
  | send (data : List UInt8)
  | shutdown

abbrev Respond := HttpRequest → Bool → List UInt8 × Bool

def badRequest : List UInt8 := ascii "HTTP/1.1 400 Bad Request\r\n\r\n"

def onRequest (respond : Respond) (req : HttpRequest) : List HttpEffect :=
  let connection := req.getHeader (ascii "Connection")
  let close := connection == ascii "close" ||
    (req.version_ == .kHttp10 && connection != ascii "Keep-Alive")
  let (data, closeConnection) := respond req close
  [.httpCallback req, .send data] ++ if closeConnection then [.shutdown] else []

def onMessage (respond : Respond) (context : HttpContext) (buf : Buffer)
    (receiveTime : Timestamp) : Option (HttpContext × Buffer × List HttpEffect) := do
  let (context, buf, ok) ← context.parseRequest buf receiveTime
  let refused := if !ok then [HttpEffect.send badRequest, .shutdown] else []
  if context.gotAll then
    return (context.reset, buf, refused ++ onRequest respond context.request_)
  else return (context, buf, refused)

/-- A connection appends every chunk to its input buffer and calls `onMessage`. -/
def receive (respond : Respond) (context : HttpContext) (buf : Buffer) :
    List (List UInt8 × Timestamp) → Option (HttpContext × Buffer × List HttpEffect)
  | [] => some (context, buf, [])
  | (chunk, receiveTime) :: chunks => do
    let (context, buf, effects) ← onMessage respond context (buf.append chunk) receiveTime
    let (context, buf, later) ← receive respond context buf chunks
    return (context, buf, effects ++ later)

/-- The requests passed to the callback, apart from their times of reception. -/
def dispatched (effects : List HttpEffect) : List HttpRequest :=
  effects.filterMap fun e => match e with
    | .httpCallback req => some (req.setReceiveTime Timestamp.invalid)
    | _ => none

@[simp] theorem dispatched_append (effects later : List HttpEffect) :
    dispatched (effects ++ later) = dispatched effects ++ dispatched later :=
  List.filterMap_append

@[simp] theorem dispatched_onRequest (respond : Respond) (req : HttpRequest) :
    dispatched (onRequest respond req) = [req.setReceiveTime Timestamp.invalid] := by
  simp only [onRequest]
  split <;> rfl

end ReactorNet.HttpServer
