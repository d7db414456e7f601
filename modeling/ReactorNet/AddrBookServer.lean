import ReactorNet.AddressBookFormats
import ReactorNet.CodecCanonical
import ReactorNet.LogStream
import ReactorNet.TcpConnection

/-!
# The address book server

A program with `addr_book.proto` linked in can create the messages of that schema and those of
other schemas, for which there is a library. The server hands the messages of the codec to the
dispatcher, whose callbacks log what they got and shut the connection down.
-/
namespace ReactorNet

/-! ## The dispatcher -/

/-- The cast gives no object where the message is not a `T`. -/
structure CallbackT (M A T : Type*) where
  static_pointer_cast : M → Option T
  callback_ : T → A

def CallbackT.onMessage {M A T : Type*} (cb : CallbackT M A T) (message : M) : Option A :=
  (cb.static_pointer_cast message).map cb.callback_

structure ProtobufDispatcher (D M A : Type*) where
  callbacks_ : D → Option (M → Option A)
  defaultCallback_ : M → A

namespace ProtobufDispatcher

variable {D M A : Type*} (GetDescriptor : M → D)

def construct (defaultCb : M → A) : ProtobufDispatcher D M A := ⟨fun _ => none, defaultCb⟩

def onProtobufMessage (d : ProtobufDispatcher D M A) (message : M) : Option A :=
  match d.callbacks_ (GetDescriptor message) with
  | some callback => callback message
  | none => some (d.defaultCallback_ message)

def registerMessageCallback [DecidableEq D] {T : Type*} (descriptor : D)
    (callback : CallbackT M A T)
    (d : ProtobufDispatcher D M A) : ProtobufDispatcher D M A where
  callbacks_ := fun x => if x = descriptor then some callback.onMessage else d.callbacks_ x
  defaultCallback_ := d.defaultCallback_

variable {GetDescriptor} [DecidableEq D] {T : Type*} {d : ProtobufDispatcher D M A}

/-- The callback for the type of a message; the cast is right. -/
theorem onProtobufMessage_registered {descriptor : D} {callback : CallbackT M A T}
    {message : M} {t : T}
    (h : GetDescriptor message = descriptor) (ht : callback.static_pointer_cast message = some t) :
    (d.registerMessageCallback descriptor callback).onProtobufMessage GetDescriptor message =
      some (callback.callback_ t) := by
  simp only [onProtobufMessage, registerMessageCallback, if_pos h, CallbackT.onMessage, ht,
    Option.map_some]

theorem onProtobufMessage_other {descriptor : D} {callback : CallbackT M A T} {message : M}
    (h : GetDescriptor message ≠ descriptor) :
    (d.registerMessageCallback descriptor callback).onProtobufMessage GetDescriptor message =
      d.onProtobufMessage GetDescriptor message := by
  simp only [onProtobufMessage, registerMessageCallback, if_neg h]

end ProtobufDispatcher

namespace Tutorial

open TaggedFields WireFormat DecimalNumerals

/-! ## The messages of the program -/

inductive Message (w : WireFormat) (F : Type*) where
  | phoneNumber (m : Person_PhoneNumber w)
  | person (m : Person w)
  | addressBook (m : AddressBook w)
  | other (m : F)

inductive Descriptor where
  | Person_PhoneNumber | Person | AddressBook | other (name : List UInt8)
deriving DecidableEq

def Descriptor.full_name : Descriptor → List UInt8
  | .Person_PhoneNumber => "tutorial.Person.PhoneNumber".toList.map byte
  | .Person => "tutorial.Person".toList.map byte
  | .AddressBook => "tutorial.AddressBook".toList.map byte
  | .other name => name

/-- The descriptors of the schema. -/
def Descriptor.schema : List Descriptor := [.Person_PhoneNumber, .Person, .AddressBook]

variable {w : WireFormat} {F : Type*} (others : Protobuf F)

namespace Message

def GetDescriptor : Message w F → Descriptor
  | phoneNumber _ => .Person_PhoneNumber
  | person _ => .Person
  | addressBook _ => .AddressBook
  | other m => .other (others.GetTypeName m)

def GetTypeName (m : Message w F) : List UInt8 := (m.GetDescriptor others).full_name

def ByteSizeLong : Message w F → ℕ
  | phoneNumber m => m.ByteSizeLong
  | person m => m.ByteSizeLong
  | addressBook m => m.ByteSizeLong
  | other m => others.ByteSize m

def SerializeWithCachedSizesToArray : Message w F → List UInt8
  | phoneNumber m => w.SerializeWithCachedSizesToArray Person_PhoneNumber.messageLite m
  | person m => w.SerializeWithCachedSizesToArray Person.messageLite m
  | addressBook m => w.SerializeWithCachedSizesToArray AddressBook.messageLite m
  | other m => others.SerializeWithCachedSizesToArray m

/-- A message of another schema is taken to be initialized. -/
def IsInitialized : Message w F → Bool
  | phoneNumber m => m.IsInitialized
  | person m => m.IsInitialized
  | addressBook m => m.IsInitialized
  | other _ => true

def ParseFromArray : Message w F → List UInt8 → Bool × Message w F
  | phoneNumber _, data =>
    (w.ParseFromArray Person_PhoneNumber.messageLite data).map id phoneNumber
  | person _, data => (w.ParseFromArray Person.messageLite data).map id person
  | addressBook _, data => (w.ParseFromArray AddressBook.messageLite data).map id addressBook
  | other m, data => (others.ParseFromArray m data).map id other

/-- `FindMessageTypeByName` and `New` of the prototype. -/
def createMessage (typeName : List UInt8) : Option (Message w F) :=
  if typeName = Descriptor.full_name .Person_PhoneNumber then some (phoneNumber .default)
  else if typeName = Descriptor.full_name .Person then some (person .default)
  else if typeName = Descriptor.full_name .AddressBook then some (addressBook .default)
  else (others.createMessage typeName).map other

end Message

/-- The library of the program. -/
def linked (w : WireFormat) (others : Protobuf F) : Protobuf (Message w F) where
  adler32 := others.adler32
  createMessage := Message.createMessage others
  ParseFromArray := Message.ParseFromArray others
  GetTypeName := Message.GetTypeName others
  ByteSize := Message.ByteSizeLong others
  SerializeWithCachedSizesToArray := Message.SerializeWithCachedSizesToArray others

/-! ## The server -/

/-- One call of `LOG_INFO` or `LOG_ERROR`: what stands behind each `<<`. -/
abbrev Line := List (LogStream.Operand Empty)

def literal (s : String) : LogStream.Operand Empty := .cString (some (s.toList.map byte))

def int32 (v : BitVec 32) : LogStream.Operand Empty :=
  .int .int ⟨v.toInt, by
    have hlt := BitVec.toInt_lt (x := v)
    have hle := BitVec.le_toInt (x := v)
    constructor
    · exact hle
    · change v.toInt ≤ 2147483647
      omega⟩

def ListPhoneNumber (phone_number : Person_PhoneNumber w) : List Line :=
  [match phone_number.type with
    | .MOBILE => [literal "  Mobile phone #: "]
    | .HOME => [literal "  Home phone #: "]
    | .WORK => [literal "  Work phone #: "],
    [.string phone_number.number]]

def ListPerson (person : Person w) : List Line :=
  [[literal "Person ID: ", int32 person.id], [literal "  Name: ", .string person.name]] ++
    (match person.email_ with
      | some _ => [[literal "  E-mail address: ", .string person.email]]
      | none => []) ++
    person.phones_.flatMap ListPhoneNumber

def ListAddressBook (address_book : AddressBook w) : List Line :=
  address_book.people_.flatMap ListPerson

namespace AddrBookServer

/-- The callbacks registered with the dispatcher, and its default callback. -/
inductive Call (w : WireFormat) (F : Type*) where
  | onUnknownMessage (message : Message w F)
  | onPerson (person : Person w)
  | onPhoneNumber (phone_number : Person_PhoneNumber w)
  | onAddressBook (address_book : AddressBook w)

def dispatcher_ : ProtobufDispatcher Descriptor (Message w F) (Call w F) :=
  .registerMessageCallback .Person_PhoneNumber
    ⟨fun | .phoneNumber m => some m | _ => none, .onPhoneNumber⟩ <|
  .registerMessageCallback .Person ⟨fun | .person m => some m | _ => none, .onPerson⟩ <|
  .registerMessageCallback .AddressBook
    ⟨fun | .addressBook m => some m | _ => none, .onAddressBook⟩ <|
  .construct .onUnknownMessage

/-- What a callback logs before it shuts the connection down. -/
def Call.lines : Call w F → List Line
  | .onUnknownMessage message =>
    [[literal "onUnknownMessage: ", .string (message.GetTypeName others)]]
  | .onPerson person => ListPerson person
  | .onPhoneNumber phone_number => ListPhoneNumber phone_number
  | .onAddressBook address_book => ListAddressBook address_book

end AddrBookServer

end Tutorial

namespace ProtobufCodec

def errorCodeToString : ErrorCode → String
  | .kNoError => "NoError"
  | .kInvalidLength => "InvalidLength"
  | .kCheckSumError => "CheckSumError"
  | .kInvalidNameLen => "InvalidNameLen"
  | .kUnknownMessageType => "UnknownMessageType"
  | .kParseError => "ParseError"

end ProtobufCodec

namespace Tutorial.AddrBookServer

open DecimalNumerals

variable {w : WireFormat} {F : Type*} (others : Protobuf F)

/-- A connection of the server with its log. -/
structure Session (w : WireFormat) (F : Type*) where
  conn : TcpConnection
  log : List Line
  calls : List (Call w F)

/-- A callback of the codec: `onProtobufMessage` or `defaultErrorCallback`. -/
def Session.handle (s : Session w F) : ProtobufCodec.Callback (Message w F) → Option (Session w F)
  | .message m =>
    (dispatcher_.onProtobufMessage (Message.GetDescriptor others) m).map fun call =>
      ⟨s.conn.shutdown, s.log ++ call.lines others, s.calls ++ [call]⟩
  | .error e =>
    some ⟨if s.conn.state_ = .kConnected then s.conn.shutdown else s.conn,
      s.log ++ [[literal "ProtobufCodec::defaultErrorCallback - ",
        .string ((ProtobufCodec.errorCodeToString e).toList.map byte)]], s.calls⟩

def Session.handleAll (s : Session w F) :
    List (ProtobufCodec.Callback (Message w F)) → Option (Session w F)
  | [] => some s
  | callback :: callbacks => (s.handle others callback).bind (handleAll · callbacks)

/-- The server's side of a connection that receives the chunks. -/
def serve (conn : TcpConnection) (chunks : List (List UInt8)) : Option (Session w F) :=
  Session.handleAll others ⟨conn, [], []⟩
    (ProtobufCodec.receive (linked w others) .fresh chunks).2

end Tutorial.AddrBookServer

end ReactorNet
