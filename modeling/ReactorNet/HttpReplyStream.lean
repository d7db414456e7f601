import ReactorNet.HttpResponseReader

/-!
# Reading replies up to the end of the connection

A client reads keep-alive responses by their lengths. A response that closes the connection has
no length; its body ends where the server shuts its side down.
-/
namespace ReactorNet

open TokenMachines DecimalNumerals

namespace ResponseReader

/-- What a client has read of the bytes `xs`; `fin` says that no more will come. -/
def readReplies (xs : List UInt8) (fin : Bool) : List (Result × List UInt8) :=
  let d := responses.drain xs
  let last := d.error.map fun head =>
    (head, d.rest.drop (headReader.advance .statusLine d.rest).taken)
  d.items ++ if fin then last.toList else []

end ResponseReader

namespace HttpResponse

open ResponseReader

/-- A response whose text can be read back, whether it closes the connection or not. -/
structure Readable (r : HttpResponse) : Prop where
  message_ok : CR ∉ r.statusMessage_ ∧ LF ∉ r.statusMessage_
  name_ok : ∀ header ∈ r.headers_.toList, CR ∉ header.1 ∧ LF ∉ header.1 ∧ COLON ∉ header.1 ∧
    header.1 ≠ ascii "Content-Length" ∧ header.1 ≠ ascii "Connection"
  value_ok : ∀ header ∈ r.headers_.toList, CR ∉ header.2 ∧ LF ∉ header.2
  body_lt : r.closeConnection_ = false → r.body_.length < 10 ^ 13

theorem Readable.keepAlive {r : HttpResponse} (h : r.Readable)
    (hopen : r.closeConnection_ = false) : r.KeepAlive :=
  ⟨hopen, h.message_ok, h.name_ok, h.value_ok, h.body_lt hopen⟩

/-! ## What keeps a response readable -/

theorem readable_construct (close : Bool) : (construct close).Readable where
  message_ok := ⟨List.not_mem_nil, List.not_mem_nil⟩
  name_ok _ hin := (List.not_mem_nil hin).elim
  value_ok _ hin := (List.not_mem_nil hin).elim
  body_lt _ := Nat.pow_pos (by decide)

namespace Readable

variable {r : HttpResponse} (h : r.Readable)
include h

theorem setStatusCode (code : BitVec 32) : (r.setStatusCode code).Readable :=
  ⟨h.message_ok, h.name_ok, h.value_ok, h.body_lt⟩

theorem setStatusMessage {message : List UInt8} (hmessage : CR ∉ message ∧ LF ∉ message) :
    (r.setStatusMessage message).Readable :=
  ⟨hmessage, h.name_ok, h.value_ok, h.body_lt⟩

theorem setBody {body : List UInt8} (hbody : body.length < 10 ^ 13) : (r.setBody body).Readable :=
  ⟨h.message_ok, h.name_ok, h.value_ok, fun _ => hbody⟩

theorem setCloseConnection : (r.setCloseConnection true).Readable :=
  ⟨h.message_ok, h.name_ok, h.value_ok, fun hopen => absurd hopen.symm Bool.false_ne_true⟩

theorem addHeader {key value : List UInt8}
    (hkey : CR ∉ key ∧ LF ∉ key ∧ COLON ∉ key ∧ key ≠ ascii "Content-Length" ∧
      key ≠ ascii "Connection")
    (hvalue : CR ∉ value ∧ LF ∉ value) : (r.addHeader key value).Readable := by
  have hmem (header : List UInt8 × List UInt8)
      (hin : header ∈ (r.addHeader key value).headers_.toList) :
      header = (key, value) ∨ header ∈ r.headers_.toList := by
    rcases List.mem_append.mp hin with hin | hin
    · exact Or.inr (List.mem_filter.mp hin).1
    · rcases List.mem_cons.mp hin with heq | hin
      · exact Or.inl heq
      · exact Or.inr (List.mem_filter.mp hin).1
  refine ⟨h.message_ok, fun header hin => ?_, fun header hin => ?_, h.body_lt⟩
  · rcases hmem header hin with rfl | hold
    · exact hkey
    · exact h.name_ok header hold
  · rcases hmem header hin with rfl | hold
    · exact hvalue
    · exact h.value_ok header hold

end Readable

/-- What a client is to get of a response. -/
def content (r : HttpResponse) :
    ℤ × List UInt8 × List (List UInt8 × List UInt8) × List UInt8 :=
  (r.statusCode_.toInt, r.statusMessage_, r.headers_.toList, r.body_)

/-! ## A response that closes the connection -/

/-- Its head as a client reads it. -/
def lastHead (r : HttpResponse) : Head :=
  ⟨r.statusCode_.toInt, r.statusMessage_,
    (ascii "Connection", ascii "close") :: r.headers_.toList⟩

theorem lastText_eq {r : HttpResponse} (hclose : r.closeConnection_ = true) :
    r.text = r.lastHead.text ++ r.body_ := by
  have hstatus : snprintf 32 (ascii "HTTP/1.1 " ++ numeral r.statusCode_.toInt ++ ascii " ") =
      ascii "HTTP/1.1 " ++ numeral r.statusCode_.toInt ++ [SP] :=
    snprintf_eq (statusLine_fits r.statusCode_)
  have hconnection : ascii "Connection: close\r\n" =
      headerLine (ascii "Connection", ascii "close") ++ kCRLF := rfl
  rw [text, Head.text, ownFields, hclose, hstatus, hconnection, lastHead]
  simp

namespace Readable

variable {r : HttpResponse} (h : r.Readable) (hclose : r.closeConnection_ = true)
include h

theorem plain : Plain r.headers_.toList := ⟨h.name_ok, h.value_ok⟩

theorem advance_lastHead (t : List UInt8) :
    headReader.advance .statusLine (r.lastHead.text ++ t) =
      ⟨.halted (.complete r.lastHead), r.lastHead.text.length⟩ := by
  have hown : ∀ field ∈ [(ascii "Connection", ascii "close")],
      CR ∉ headerLine field ∧ COLON ∉ field.1 := by decide
  exact advance_text h.message_ok.1 (h.plain.fields_ok hown) t

theorem bodyLength_lastHead : bodyLength (.complete r.lastHead) = none := by
  have hnone : r.lastHead.fields.find? (fun field => field.1 = ascii "Content-Length") = none := by
    rw [List.find?_eq_none]
    intro field hfield
    rw [decide_eq_true_eq]
    rcases List.mem_cons.mp hfield with rfl | huser
    · decide
    · exact (h.name_ok field huser).2.2.2.1
  rw [bodyLength, Head.lookup, hnone]
  rfl

theorem userFields_lastHead : r.lastHead.userFields = r.headers_.toList := by
  have hfields : r.lastHead.fields = [(ascii "Connection", ascii "close")] ++ r.headers_.toList :=
    rfl
  exact h.plain.userFields hfields (by decide)

include hclose

theorem front_lastText : responses.front r.text = .fail (.complete r.lastHead) := by
  rw [lastText_eq hclose]
  exact HeadedFrames.front_eq_fail.mpr ⟨_, h.advance_lastHead _, h.bodyLength_lastHead⟩

/-- No part of it is taken for a response with a length. -/
theorem front_take_lastText (m : ℕ) (b : Result × List UInt8) (n : ℕ) :
    responses.front (r.text.take m) ≠ .item b n := by
  intro hitem
  have hwhole := responses.item_append hitem (r.text.drop m)
  rw [List.take_append_drop, h.front_lastText hclose] at hwhole
  cases hwhole

end Readable

/-! ## What a client reads -/

/-- Replies that can all be read, of which at most the last one closes the connection. -/
structure Orderly (replies : List HttpResponse) : Prop where
  readable : ∀ r ∈ replies, r.Readable
  notClosed : ∀ r ∈ replies.dropLast, r.closeConnection_ = false

/-- The item that the reader of keep-alive responses takes for a response. -/
def item (r : HttpResponse) : Result × List UInt8 := (.complete r.head, r.body_)

theorem forall₂_front {rs : List HttpResponse} (h : ∀ r ∈ rs, r.KeepAlive) :
    List.Forall₂ (fun f b => responses.front f = .item b f.length) (rs.map text)
      (rs.map item) := by
  rw [List.forall₂_map_left_iff, List.forall₂_map_right_iff, List.forall₂_same]
  exact fun r hr => (h r hr).front_text

theorem received_items {rs : List HttpResponse} (h : ∀ r ∈ rs, r.KeepAlive) :
    (rs.map item).map received = rs.map fun r => some r.content := by
  rw [List.map_map]
  refine List.map_congr_left fun r hr => ?_
  simp only [Function.comp_apply, item, received, (h r hr).userFields_head]
  rfl

namespace Orderly

variable {replies : List HttpResponse} (h : Orderly replies)
include h

theorem cases_last : (∀ r ∈ replies, r.KeepAlive) ∨ ∃ opens last, replies = opens ++ [last] ∧
    (∀ r ∈ opens, r.KeepAlive) ∧ last.Readable ∧ last.closeConnection_ = true := by
  rcases List.eq_nil_or_concat' replies with rfl | ⟨opens, last, rfl⟩
  · exact Or.inl fun r hr => (List.not_mem_nil hr).elim
  · have hopens : ∀ r ∈ opens, r.KeepAlive := by
      intro r hr
      refine (h.readable r (List.mem_append_left _ hr)).keepAlive (h.notClosed r ?_)
      rwa [List.dropLast_concat]
    have hlast := h.readable last (List.mem_append_right _ List.mem_cons_self)
    cases hclose : last.closeConnection_ with
    | true => exact Or.inr ⟨opens, last, rfl, hopens, hlast, hclose⟩
    | false =>
      refine Or.inl fun r hr => ?_
      rcases List.mem_append.mp hr with hr | hr
      · exact hopens r hr
      · rw [List.mem_singleton.mp hr]
        exact hlast.keepAlive hclose

/-- From any part of the bytes a client has read a part of the replies; if it has read them all,
none of them closes the connection. -/
theorem items_take (n : ℕ) : ∃ k ≤ replies.length,
    (responses.drain ((replies.map text).flatten.take n)).items.length = k ∧
      (responses.drain ((replies.map text).flatten.take n)).items.map received =
        (replies.take k).map (fun r => some r.content) ∧
      (k = replies.length → ∀ r ∈ replies, r.closeConnection_ = false) := by
  have hpart {opens : List HttpResponse} (hopens : ∀ r ∈ opens, r.KeepAlive) {k : ℕ}
      {items : List (Result × List UInt8)} (hitems : items = (opens.map item).take k) :
      items.length = min k opens.length ∧
        items.map received = (opens.take (min k opens.length)).map fun r => some r.content := by
    rw [hitems, ← List.map_take, received_items fun r hr => hopens r (List.mem_of_mem_take hr),
      List.length_map, List.length_take, ← List.take_eq_take_min]
    exact ⟨rfl, rfl⟩
  rcases h.cases_last with hopen | ⟨opens, last, rfl, hopens, hlast, hclose⟩
  · have htail (m b n) : responses.front (([] : List UInt8).take m) ≠ .item b n := by
      rw [List.take_nil, responses.front_nil]
      intro hitem
      cases hitem
    obtain ⟨k, hk⟩ := responses.drain_take_append (forall₂_front hopen) htail n
    rw [List.append_nil] at hk
    obtain ⟨hlength, hreceived⟩ := hpart hopen hk
    exact ⟨_, Nat.min_le_right _ _, hlength, hreceived, fun _ r hr => (hopen r hr).notClosed⟩
  · obtain ⟨k, hk⟩ := responses.drain_take_append (forall₂_front hopens)
      (hlast.front_take_lastText hclose) n
    have hbytes : ((opens ++ [last]).map text).flatten = (opens.map text).flatten ++ last.text := by
      simp
    rw [hbytes]
    obtain ⟨hlength, hreceived⟩ := hpart hopens hk
    refine ⟨_, ?_, hlength, ?_, ?_⟩
    · rw [List.length_append]
      omega
    · rw [hreceived, List.take_append_of_le_length (Nat.min_le_right _ _)]
    · intro hall
      rw [List.length_append, List.length_singleton] at hall
      omega

/-- From all bytes, and their end if the last reply closes the connection, it has all replies. -/
theorem read_all :
    (readReplies (replies.map text).flatten (replies.any closeConnection_)).map received =
    replies.map fun r => some r.content := by
  rcases h.cases_last with hopen | ⟨opens, last, rfl, hopens, hlast, hclose⟩
  · have hfin : replies.any closeConnection_ = false :=
      List.any_eq_false.mpr fun r hr => by rw [(hopen r hr).notClosed]; exact Bool.false_ne_true
    rw [readReplies, hfin, responses.drain_flatten (forall₂_front hopen)]
    exact (congrArg (List.map received) (List.append_nil _)).trans (received_items hopen)
  · have hfin : (opens ++ [last]).any closeConnection_ = true := by
      rw [List.any_append, List.any_cons, hclose, Bool.true_or, Bool.or_true]
    have hbytes : ((opens ++ [last]).map text).flatten = (opens.map text).flatten ++ last.text := by
      simp
    have hdrain : responses.drain ((opens.map text).flatten ++ last.text) =
        ⟨opens.map item, some (.complete last.lastHead), last.text⟩ := by
      rw [responses.drain_append, responses.drain_flatten (forall₂_front hopens), List.nil_append,
        responses.drain_fail (hlast.front_lastText hclose), FrameStreams.Drained.andThen,
        List.append_nil]
      rfl
    have hbody : last.text.drop (headReader.advance .statusLine last.text).taken = last.body_ := by
      rw [lastText_eq hclose, hlast.advance_lastHead, List.drop_left]
    rw [readReplies, hfin, hbytes, hdrain]
    simp only [hbody, if_true, Option.map_some, Option.toList_some, List.map_append,
      received_items hopens, List.map_cons, List.map_nil, received, hlast.userFields_lastHead]
    rfl

end Orderly

end HttpResponse

end ReactorNet
