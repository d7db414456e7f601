import ReactorNet.AddrBookServer

/-!
# What the address book server gets of what its clients send

A frame of a message that lacks a required field is well formed, but its parsing fails. Up to
the first such message the server sees the messages as they were sent.
-/
namespace ReactorNet

open NetworkByteOrder FrameStreams WireFormat

/-! ## Frames whose payload need not parse -/

namespace ProtobufCodec

variable {M : Type*} (lib : Protobuf M)

/-- The fields of the frame of a message, as a message of their own. -/
theorem faithful_fields {m : M} (hname : lib.GetTypeName m ≠ []) :
    Faithful (raw lib) (lib.GetTypeName m, lib.SerializeWithCachedSizesToArray m) :=
  ⟨rfl, hname, (lib.GetTypeName m, []), rfl, rfl⟩

variable {lib} {m prototype parsed : M} {ok : Bool} (hname : lib.GetTypeName m ≠ [])
  (hlen : (bodyLength lib m : ℤ) ≤ kMaxMessageLen)
include hname hlen

/-- The checksum, the type name and the payload of a frame are found again whatever the payload
is parsed as. -/
theorem parse_body_created (hcreate : lib.createMessage (lib.GetTypeName m) = some prototype)
    (hparsed : lib.ParseFromArray prototype (lib.SerializeWithCachedSizesToArray m) =
      (ok, parsed)) :
    parse lib (body lib m) (bodyLength lib m) =
      (some parsed, if ok then .kNoError else .kParseError) := by
  have hlength : bodyLength (raw lib) (lib.GetTypeName m, lib.SerializeWithCachedSizesToArray m) =
      bodyLength lib m := rfl
  have hbody : body (raw lib) (lib.GetTypeName m, lib.SerializeWithCachedSizesToArray m) =
      body lib m := rfl
  have hparse := parse_body (faithful_fields lib hname) (by rw [hlength]; exact hlen)
  rw [hlength, hbody] at hparse
  obtain ⟨hsum, hlo, hhi⟩ := parse_eq_noError (raw lib) hparse
  have hsum' : lib.adler32 ((body lib m).take (bodyLength lib m - kHeaderLen).toNat) =
      asInt32 ((body lib m).drop (bodyLength lib m - kHeaderLen).toNat) := hsum
  simp only [parse, raw, Protobuf.uninterpreted, if_pos hsum', if_pos (And.intro hlo hhi),
    Prod.mk.injEq, Option.some.injEq, and_true] at hparse
  obtain ⟨htype, hdata⟩ := hparse
  simp only [parse, if_pos hsum', if_pos (And.intro hlo hhi), htype, hcreate, hdata, hparsed]
  cases ok with
  | true => rfl
  | false => rfl

theorem front_frame_created (hcreate : lib.createMessage (lib.GetTypeName m) = some prototype)
    (hparsed : lib.ParseFromArray prototype (lib.SerializeWithCachedSizesToArray m) =
      (ok, parsed)) :
    front lib (frame lib m) =
      if ok then .item parsed (frame lib m).length else .fail .kParseError := by
  have hbounds : ¬ ((bodyLength lib m : ℤ) > kMaxMessageLen ∨
      (bodyLength lib m : ℤ) < kMinMessageLen) := by
    have hpos := List.length_pos_of_ne_nil hname
    simp only [bodyLength, kMinMessageLen] at hlen ⊢
    omega
  have hlength := length_frame lib m
  have hheader : (kHeaderLen + kMinMessageLen).toNat ≤ (frame lib m).length := by
    simp only [kHeaderLen, kMinMessageLen] at hbounds ⊢
    omega
  have hann : (asInt32 (frame lib m)).toInt = bodyLength lib m := by
    have h := asInt32_take_frame hlen (k := (frame lib m).length) (by omega)
    rwa [List.take_length] at h
  have hsize : (kHeaderLen + (bodyLength lib m : ℤ)).toNat = (frame lib m).length := by
    simp only [kHeaderLen]
    omega
  have hbody : (frame lib m).drop kHeaderLen.toNat = body lib m :=
    List.drop_left' (length_hostToNetwork 4 _)
  simp only [front, if_pos hheader, hann, if_neg hbounds, hsize, Nat.le_refl, if_true, hbody,
    parse_body_created hname hlen hcreate hparsed]
  cases ok with
  | true => rfl
  | false => rfl

/-- The encoder does not look at what the payload is parsed as either. -/
theorem fillEmptyBuffer_eq_frame_of_size {buf : Buffer} (h : buf.Valid)
    (hempty : buf.readableBytes = 0)
    (hsize : lib.ByteSize m = (lib.SerializeWithCachedSizesToArray m).length) :
    ∃ out, fillEmptyBuffer lib buf m = some out ∧ out.Valid ∧ out.content = frame lib m := by
  have hlib : Faithful { lib with
      createMessage := fun _ => some m
      ParseFromArray := fun _ _ => (true, m) } m := ⟨hsize, hname, m, rfl, rfl⟩
  exact fillEmptyBuffer_eq_frame hlib hlen h hempty

end ProtobufCodec

namespace Tutorial

open ProtobufCodec

variable {w : WireFormat} {F : Type*} (others : Protobuf F)

/-- A message that its client may send: its unknown fields are such as parsing leaves; for another
schema the library is faithful and the type name is not one of this schema. -/
def Message.Sendable : Message w F → Prop
  | .phoneNumber m => (Person_PhoneNumber.format w).Sound m
  | .person m => (Person.format w).Sound m
  | .addressBook m => (AddressBook.format w).Sound m
  | .other m => Faithful others m ∧
      others.GetTypeName m ∉ Descriptor.schema.map Descriptor.full_name

theorem Message.getTypeName_ne_nil {m : Message w F} (h : m.Sendable others) :
    m.GetTypeName others ≠ [] := by
  cases m with
  | phoneNumber m => exact nofun
  | person m => exact nofun
  | addressBook m => exact nofun
  | other m => exact h.1.typeName

/-- The runtime writes what the message writes. -/
theorem serializeWithCachedSizes (hw : w.Lawful) :
    (∀ m : Person_PhoneNumber w, w.SerializeWithCachedSizesToArray Person_PhoneNumber.messageLite m =
        m._InternalSerialize) ∧
      (∀ m : Person w, w.SerializeWithCachedSizesToArray Person.messageLite m =
        m._InternalSerialize) ∧
      ∀ m : AddressBook w, w.SerializeWithCachedSizesToArray AddressBook.messageLite m =
        m._InternalSerialize := by
  obtain ⟨hphone, hperson, hbook⟩ := byteSizeLong_exact hw
  exact ⟨fun m => hw.serializeWithCachedSizesToArray _ m (hphone m),
    fun m => hw.serializeWithCachedSizesToArray _ m (hperson m),
    fun m => hw.serializeWithCachedSizesToArray _ m (hbook m)⟩

theorem Message.byteSizeLong_eq (hw : w.Lawful) {m : Message w F} (h : m.Sendable others) :
    m.ByteSizeLong others = (m.SerializeWithCachedSizesToArray others).length := by
  obtain ⟨hphone, hperson, hbook⟩ := serializeWithCachedSizes hw
  cases m with
  | phoneNumber m =>
    rw [SerializeWithCachedSizesToArray, hphone]
    exact Person_PhoneNumber.byteSizeLong_eq hw m
  | person m =>
    rw [SerializeWithCachedSizesToArray, hperson]
    exact Person.byteSizeLong_eq hw m
  | addressBook m =>
    rw [SerializeWithCachedSizesToArray, hbook]
    exact AddressBook.byteSizeLong_eq hw m
  | other m => exact h.1.byteSize

/-- The type name is found again, and parsing what was serialized gives the message; whether it
succeeds is up to the required fields. -/
theorem Message.parseFromArray_serialize (hw : w.Lawful) {m : Message w F} (h : m.Sendable others)
    (hsize : (m.SerializeWithCachedSizesToArray others).length ≤ maxSize) :
    ∃ prototype : Message w F, createMessage others (m.GetTypeName others) = some prototype ∧
      prototype.ParseFromArray others (m.SerializeWithCachedSizesToArray others) =
        (m.IsInitialized, m) := by
  obtain ⟨hphone, hperson, hbook⟩ := serializeWithCachedSizes hw
  cases m with
  | phoneNumber m =>
    rw [SerializeWithCachedSizesToArray, hphone] at hsize ⊢
    refine ⟨.phoneNumber .default, if_pos rfl, ?_⟩
    rw [ParseFromArray, hw.parseFromArray Person_PhoneNumber.messageLite _ m
      (Person_PhoneNumber.parse_serialize hw h hsize)]
    rfl
  | person m =>
    rw [SerializeWithCachedSizesToArray, hperson] at hsize ⊢
    refine ⟨.person .default, rfl, ?_⟩
    rw [ParseFromArray, hw.parseFromArray Person.messageLite _ m
      (Person.parse_serialize hw h hsize)]
    rfl
  | addressBook m =>
    rw [SerializeWithCachedSizesToArray, hbook] at hsize ⊢
    refine ⟨.addressBook .default, rfl, ?_⟩
    rw [ParseFromArray, hw.parseFromArray AddressBook.messageLite _ m
      (AddressBook.parse_serialize hw h hsize)]
    rfl
  | other m =>
    obtain ⟨hfaithful, hname⟩ := h
    obtain ⟨prototype, hcreate, hparse⟩ := hfaithful.parses
    simp only [Descriptor.schema, List.map_cons, List.map_nil, List.mem_cons, List.not_mem_nil,
      or_false, not_or] at hname
    obtain ⟨hphone, hperson, hbook⟩ := hname
    refine ⟨.other prototype, ?_, ?_⟩
    · change createMessage others (others.GetTypeName m) = _
      rw [createMessage, if_neg hphone, if_neg hperson, if_neg hbook, hcreate]
      rfl
    · rw [SerializeWithCachedSizesToArray, ParseFromArray, hparse]
      rfl

variable {others}

section Sent

variable {m : Message w F} (hw : w.Lawful) (h : m.Sendable others)
  (hlen : (bodyLength (linked w others) m : ℤ) ≤ kMaxMessageLen)
include hw h hlen

/-- The frame of a message is taken for it, unless a required field is missing. -/
theorem front_frame_sent : front (linked w others) (frame (linked w others) m) =
    if m.IsInitialized then .item m (frame (linked w others) m).length else .fail .kParseError := by
  have hsize : (m.SerializeWithCachedSizesToArray others).length ≤ maxSize := by
    have hbody : bodyLength (linked w others) m = 4 + ((m.GetTypeName others).length + 1) +
      (m.SerializeWithCachedSizesToArray others).length + 4 := rfl
    rw [hbody, kMaxMessageLen] at hlen
    rw [maxSize]
    omega
  obtain ⟨prototype, hcreate, hparse⟩ := Message.parseFromArray_serialize others hw h hsize
  have hname : (linked w others).GetTypeName m ≠ [] := Message.getTypeName_ne_nil others h
  exact front_frame_created hname hlen hcreate hparse

theorem fillEmptyBuffer_sent {buf : Buffer} (hbuf : buf.Valid) (hempty : buf.readableBytes = 0) :
    ∃ out, fillEmptyBuffer (linked w others) buf m = some out ∧ out.Valid ∧
      out.content = frame (linked w others) m := by
  have hname : (linked w others).GetTypeName m ≠ [] := Message.getTypeName_ne_nil others h
  exact fillEmptyBuffer_eq_frame_of_size hname hlen hbuf hempty
    (Message.byteSizeLong_eq others hw h)

end Sent

/-- What is assumed of a client: it encodes into buffers without readable bytes messages that fit
into a frame. -/
structure Sends (others : Protobuf F) (jobs : List (Buffer × Message w F)) : Prop where
  buffers : ∀ job ∈ jobs, job.1.Reachable ∧ job.1.readableBytes = 0
  sendable : ∀ job ∈ jobs, job.2.Sendable others
  fits : ∀ job ∈ jobs, (bodyLength (linked w others) job.2 : ℤ) ≤ kMaxMessageLen

theorem Sends.tail {job : Buffer × Message w F} {jobs : List (Buffer × Message w F)}
    (h : Sends others (job :: jobs)) : Sends others jobs where
  buffers j hj := h.buffers j (List.mem_cons_of_mem _ hj)
  sendable j hj := h.sendable j (List.mem_cons_of_mem _ hj)
  fits j hj := h.fits j (List.mem_cons_of_mem _ hj)

theorem Sends.mapM_fillEmptyBuffer (hw : w.Lawful) {jobs : List (Buffer × Message w F)}
    (h : Sends others jobs) : ∃ encoded : List Buffer,
      jobs.mapM (fun job => fillEmptyBuffer (linked w others) job.1 job.2) = some encoded ∧
        encoded.map Buffer.content = jobs.map fun job => frame (linked w others) job.2 := by
  induction jobs with
  | nil => exact ⟨[], rfl, rfl⟩
  | cons job jobs ih =>
    obtain ⟨encoded, hencoded, hframes⟩ := ih h.tail
    obtain ⟨hreach, hempty⟩ := h.buffers job List.mem_cons_self
    obtain ⟨out, hout, -, hcontent⟩ := fillEmptyBuffer_sent hw (h.sendable job List.mem_cons_self)
      (h.fits job List.mem_cons_self) hreach.valid hempty
    refine ⟨out :: encoded, ?_, ?_⟩
    · simp [List.mapM_cons, hout, hencoded]
    · rw [List.map_cons, List.map_cons, hcontent, hframes]

/-- The decoder takes the messages up to the first one that is not initialized. -/
theorem Sends.drain (hw : w.Lawful) {jobs : List (Buffer × Message w F)} (h : Sends others jobs) :
    let d := (frames (linked w others)).drain
      (jobs.map fun job => frame (linked w others) job.2).flatten
    d.items = (jobs.map Prod.snd).takeWhile Message.IsInitialized ∧
      d.error =
        if (jobs.map Prod.snd).all Message.IsInitialized then none else some .kParseError := by
  induction jobs with
  | nil =>
    rw [List.map_nil, List.flatten_nil, FrameParser.drain_more _ (FrameParser.front_nil _)]
    exact ⟨rfl, rfl⟩
  | cons job jobs ih =>
    obtain ⟨hitems, herror⟩ := ih h.tail
    have hfront : (frames (linked w others)).front (frame (linked w others) job.2) = _ :=
      front_frame_sent hw (h.sendable job List.mem_cons_self) (h.fits job List.mem_cons_self)
    rw [List.map_cons, List.flatten_cons, List.map_cons, List.takeWhile_cons, List.all_cons]
    cases hinit : job.2.IsInitialized with
    | false =>
      rw [hinit] at hfront
      rw [FrameParser.drain_fail _ (FrameParser.fail_append _ hfront _)]
      exact ⟨rfl, rfl⟩
    | true =>
      rw [hinit] at hfront
      rw [FrameParser.drain_item _ (FrameParser.item_append _ hfront _), List.drop_left]
      exact ⟨congrArg (job.2 :: ·) hitems, herror⟩

/-! ## The server's side -/

namespace AddrBookServer

/-- The callback that a message is meant for. -/
def callFor : Message w F → Call w F
  | .phoneNumber m => .onPhoneNumber m
  | .person m => .onPerson m
  | .addressBook m => .onAddressBook m
  | .other m => .onUnknownMessage (.other m)

/-- The dispatcher calls it, and every cast on the way is right. -/
theorem dispatcher_onProtobufMessage (m : Message w F) :
    dispatcher_.onProtobufMessage (Message.GetDescriptor others) m = some (callFor m) := by
  rw [dispatcher_]
  cases m with
  | phoneNumber m => exact ProtobufDispatcher.onProtobufMessage_registered rfl rfl
  | person m =>
    rw [ProtobufDispatcher.onProtobufMessage_other (by exact nofun)]
    exact ProtobufDispatcher.onProtobufMessage_registered rfl rfl
  | addressBook m =>
    rw [ProtobufDispatcher.onProtobufMessage_other (by exact nofun),
      ProtobufDispatcher.onProtobufMessage_other (by exact nofun)]
    exact ProtobufDispatcher.onProtobufMessage_registered rfl rfl
  | other m =>
    rw [ProtobufDispatcher.onProtobufMessage_other (by exact nofun),
      ProtobufDispatcher.onProtobufMessage_other (by exact nofun),
      ProtobufDispatcher.onProtobufMessage_other (by exact nofun)]
    rfl

theorem shutdown_shutdown (c : TcpConnection) : c.shutdown.shutdown = c.shutdown := by
  have hstate : c.shutdown.state_ ≠ .kConnected := by
    rw [TcpConnection.shutdown]
    split
    · rw [TcpConnection.shutdownInLoop]
      split
      · intro h
        cases h
      · intro h
        cases h
    · next h => exact h
  rw [TcpConnection.shutdown, if_neg hstate]

variable (others) in
theorem Session.handle_eq (s : Session w F) (callback : Callback (Message w F)) :
    ∃ s', s.handle others callback = some s' ∧ s'.conn = s.conn.shutdown ∧
      s'.calls = s.calls ++ (dispatched [callback]).map callFor := by
  cases callback with
  | message m =>
    refine ⟨⟨s.conn.shutdown, s.log ++ (callFor m).lines others, s.calls ++ [callFor m]⟩, ?_, rfl,
      rfl⟩
    rw [handle, dispatcher_onProtobufMessage, Option.map_some]
  | error e =>
    refine ⟨_, rfl, ?_, (List.append_nil _).symm⟩
    split
    · rfl
    · next h => rw [TcpConnection.shutdown, if_neg h]

variable (others) in
/-- All callbacks are served, and together they shut the connection down once. -/
theorem Session.handleAll_eq (s : Session w F) (callbacks : List (Callback (Message w F))) :
    ∃ s', s.handleAll others callbacks = some s' ∧
      s'.conn = (if callbacks = [] then s.conn else s.conn.shutdown) ∧
      s'.calls = s.calls ++ (dispatched callbacks).map callFor := by
  induction callbacks generalizing s with
  | nil => exact ⟨s, rfl, rfl, (List.append_nil _).symm⟩
  | cons callback callbacks ih =>
    obtain ⟨s₁, hhandle, hconn₁, hcalls₁⟩ := s.handle_eq others callback
    obtain ⟨s₂, hall, hconn₂, hcalls₂⟩ := ih s₁
    refine ⟨s₂, ?_, ?_, ?_⟩
    · rw [handleAll, hhandle, Option.bind_some, hall]
    · rw [hconn₂, hconn₁, shutdown_shutdown, ite_self, if_neg (List.cons_ne_nil _ _)]
    · have hsplit : dispatched (callback :: callbacks) =
          dispatched [callback] ++ dispatched callbacks :=
        List.filterMap_append (l := [callback])
      rw [hcalls₂, hcalls₁, hsplit, List.map_append, List.append_assoc]

theorem callbacks_eq_nil {M : Type*} {callbacks : List (Callback M)} :
    callbacks = [] ↔ dispatched callbacks = [] ∧ (errors callbacks).head? = none := by
  constructor
  · rintro rfl
    exact ⟨rfl, rfl⟩
  · intro ⟨hmessages, herrors⟩
    cases callbacks with
    | nil => rfl
    | cons callback callbacks =>
      cases callback with
      | message m => cases hmessages
      | error e => cases herrors

/-- However the frames of a client are cut, the server's callbacks get the messages, in their order
and each in the callback of its type, up to the first one without a required field; that one is a
parse error. The connection is shut down once. -/
theorem sent_messages_served (hw : w.Lawful) {jobs : List (Buffer × Message w F)}
    (h : Sends others jobs) :
    ∃ encoded : List Buffer,
      jobs.mapM (fun job => fillEmptyBuffer (linked w others) job.1 job.2) = some encoded ∧
      ∀ (conn : TcpConnection) (chunks : List (List UInt8)),
        chunks.flatten = (encoded.map Buffer.content).flatten →
        ∃ session, serve others conn chunks = some session ∧
          session.calls = ((jobs.map Prod.snd).takeWhile Message.IsInitialized).map callFor ∧
          (errors (receive (linked w others) .fresh chunks).2).head? =
            (if (jobs.map Prod.snd).all Message.IsInitialized then none else some .kParseError) ∧
          session.conn = if jobs = [] then conn else conn.shutdown := by
  obtain ⟨encoded, hencoded, hframes⟩ := h.mapM_fillEmptyBuffer hw
  refine ⟨encoded, hencoded, ?_⟩
  intro conn chunks hchunks
  obtain ⟨hitems, herror⟩ := h.drain hw
  obtain ⟨-, -, hdispatched, hfirst⟩ :=
    receive_eq_feed (linked w others) Buffer.valid_fresh chunks
  rw [Buffer.content_fresh, FrameParser.feed_nil_eq_drain, hchunks, hframes] at hdispatched hfirst
  obtain ⟨session, hserve, hconn, hcalls⟩ := Session.handleAll_eq others ⟨conn, [], []⟩
    (receive (linked w others) .fresh chunks).2
  refine ⟨session, hserve, ?_, hfirst.trans herror, ?_⟩
  · rw [hcalls, hdispatched, hitems, List.nil_append]
  · rw [hconn]
    refine if_congr ?_ rfl rfl
    rw [callbacks_eq_nil, hdispatched, hitems, hfirst, herror]
    cases jobs with
    | nil => simp
    | cons job jobs =>
      rw [List.map_cons, List.takeWhile_cons, List.all_cons]
      cases job.2.IsInitialized with
      | true => simp
      | false => simp

/-- A person, a phone number without its number and an empty address book. -/
theorem sent_messages_served_three :
    let person : Person base128 := ⟨some [65], some 7, none, [⟨some [49], none, []⟩], []⟩
    let unset : Person_PhoneNumber base128 := ⟨none, some .WORK, []⟩
    ∃ encoded : List Buffer,
      [(Buffer.fresh, Message.person person), (Buffer.fresh, .phoneNumber unset),
        (Buffer.fresh, .addressBook .default)].mapM
          (fun job => fillEmptyBuffer (linked base128 .uninterpreted) job.1 job.2) = some encoded ∧
      ∀ (conn : TcpConnection) (chunks : List (List UInt8)),
        chunks.flatten = (encoded.map Buffer.content).flatten →
        ∃ session, serve .uninterpreted conn chunks = some session ∧
          session.calls = [.onPerson person] ∧
          (errors (receive (linked base128 .uninterpreted) .fresh chunks).2).head? =
            some .kParseError ∧
          session.conn = conn.shutdown := by
  apply sent_messages_served base128_lawful
  constructor
  · intro job hjob
    simp only [List.mem_cons, List.not_mem_nil, or_false] at hjob
    rcases hjob with rfl | rfl | rfl
    all_goals exact ⟨Buffer.reachable_fresh, rfl⟩
  · intro job hjob
    simp only [List.mem_cons, List.not_mem_nil, or_false] at hjob
    rcases hjob with rfl | rfl | rfl
    · refine ⟨nofun, ?_⟩
      intro phone hphone
      rw [List.mem_singleton.mp hphone]
      exact nofun
    · exact nofun
    · exact ⟨nofun, nofun⟩
  · intro job hjob
    simp only [List.mem_cons, List.not_mem_nil, or_false] at hjob
    rcases hjob with rfl | rfl | rfl
    all_goals decide

end AddrBookServer

end Tutorial

end ReactorNet
