import ReactorNet.WireFormat

/-!
# The messages of the address book

The generated code of `addr_book.proto`. A field with a has-bit is an `Option`, which holds the
value exactly if the bit is set; strings are bytes, `int32` is `BitVec 32`. A cached size is the
size that `ByteSizeLong` has just computed. The checks of UTF-8 only log and are left out.
-/
namespace ReactorNet.Tutorial

open TaggedFields WireFormat

inductive Person_PhoneType where
  | MOBILE | HOME | WORK
deriving DecidableEq

namespace Person_PhoneType

def toInt : Person_PhoneType → BitVec 32
  | .MOBILE => 0
  | .HOME => 1
  | .WORK => 2

/-- The enumerator of a value for which `Person_PhoneType_IsValid` holds. -/
def ofInt (value : BitVec 32) : Option Person_PhoneType :=
  if value = 0 then some .MOBILE
  else if value = 1 then some .HOME
  else if value = 2 then some .WORK
  else none

theorem ofInt_toInt (type : Person_PhoneType) : ofInt type.toInt = some type := by
  cases type <;> rfl

end Person_PhoneType

structure Person_PhoneNumber (w : WireFormat) where
  number_ : Option (List UInt8)
  type_ : Option Person_PhoneType
  unknown_fields : List w.UnknownField

structure Person (w : WireFormat) where
  name_ : Option (List UInt8)
  id_ : Option (BitVec 32)
  email_ : Option (List UInt8)
  phones_ : List (Person_PhoneNumber w)
  unknown_fields : List w.UnknownField

structure AddressBook (w : WireFormat) where
  people_ : List (Person w)
  unknown_fields : List w.UnknownField

section Loop

variable (w : WireFormat) {M : Type*}

/-- `handle_unusual`: a tag that ends the message, or an unknown field. -/
def handle_unusual (add : w.UnknownField → M) (tag : BitVec 32) (bs : List UInt8) : FieldStep M :=
  if endsMessage tag then .stop else .ofOption ((w.UnknownFieldParse tag).map add bs)

/-- A string field. -/
def parseString (set : List UInt8 → M) (bs : List UInt8) : FieldStep M :=
  .ofOption (w.ReadBytes.map set bs)

end Loop

variable {w : WireFormat}

namespace Person_PhoneNumber

/-- A new or cleared message. -/
def default : Person_PhoneNumber w := ⟨none, none, []⟩

def number (m : Person_PhoneNumber w) : List UInt8 := m.number_.getD []

def type (m : Person_PhoneNumber w) : Person_PhoneType := m.type_.getD .HOME

def addUnknown (m : Person_PhoneNumber w) (u : w.UnknownField) : Person_PhoneNumber w :=
  { m with unknown_fields := m.unknown_fields ++ [u] }

/-- The `switch` in the loop of `_InternalParse`. -/
def parseField (m : Person_PhoneNumber w) (tag : BitVec 32) (bs : List UInt8) :
    FieldStep (Person_PhoneNumber w) :=
  if tag >>> 3 = 1 then
    if tag.setWidth 8 = 10#8 then parseString w (fun s => { m with number_ := some s }) bs
    else handle_unusual w m.addUnknown tag bs
  else if tag >>> 3 = 2 then
    if tag.setWidth 8 = 16#8 then
      match w.ReadVarint bs with
      | none => .fail
      | some (val, rest) =>
        match Person_PhoneType.ofInt (val.setWidth 32) with
        | some type => .next { m with type_ := some type } rest
        | none => .next (m.addUnknown (w.unknownVarint 2 val)) rest
    else handle_unusual w m.addUnknown tag bs
  else handle_unusual w m.addUnknown tag bs

def _InternalParse (m : Person_PhoneNumber w) (bs : List UInt8) : Parsed (Person_PhoneNumber w) :=
  parse w.ReadTag parseField m bs

def _InternalSerialize (m : Person_PhoneNumber w) : List UInt8 :=
  optionalField 10 w.WriteBytes m.number_ ++
    (optionalField 16 (fun type => w.WriteInt32 (Person_PhoneType.toInt type)) m.type_ ++
      m.unknown_fields.flatMap w.WriteUnknown)

def ByteSizeLong (m : Person_PhoneNumber w) : ℕ :=
  (m.number_.elim 0 fun s => 1 + w.StringSize s) +
    (m.type_.elim 0 fun type => 1 + w.Int32Size type.toInt) + w.UnknownFieldsSize m.unknown_fields

def MergeFrom (m source : Person_PhoneNumber w) : Person_PhoneNumber w where
  number_ := source.number_.or m.number_
  type_ := source.type_.or m.type_
  unknown_fields := m.unknown_fields ++ source.unknown_fields

def IsInitialized (m : Person_PhoneNumber w) : Bool := m.number_.isSome

def messageLite : MessageLite (Person_PhoneNumber w) where
  default := default
  _InternalParse := _InternalParse
  IsInitialized := IsInitialized
  ByteSizeLong := ByteSizeLong
  _InternalSerialize := _InternalSerialize

end Person_PhoneNumber

namespace Person

def default : Person w := ⟨none, none, none, [], []⟩

def name (m : Person w) : List UInt8 := m.name_.getD []

def id (m : Person w) : BitVec 32 := m.id_.getD 0

def email (m : Person w) : List UInt8 := m.email_.getD []

def addUnknown (m : Person w) (u : w.UnknownField) : Person w :=
  { m with unknown_fields := m.unknown_fields ++ [u] }

/-- `ParseMessage` into a new element of `phones_`. -/
def parsePhone (m : Person w) : Reader (Person w) :=
  (w.ParseMessage (Person_PhoneNumber._InternalParse .default)).map fun phone =>
    { m with phones_ := m.phones_ ++ [phone] }

def parseField (m : Person w) (tag : BitVec 32) (bs : List UInt8) : FieldStep (Person w) :=
  if tag >>> 3 = 1 then
    if tag.setWidth 8 = 10#8 then parseString w (fun s => { m with name_ := some s }) bs
    else handle_unusual w m.addUnknown tag bs
  else if tag >>> 3 = 2 then
    if tag.setWidth 8 = 16#8 then
      .ofOption (w.ReadVarint.map (fun val => { m with id_ := some (val.setWidth 32) }) bs)
    else handle_unusual w m.addUnknown tag bs
  else if tag >>> 3 = 3 then
    if tag.setWidth 8 = 26#8 then parseString w (fun s => { m with email_ := some s }) bs
    else handle_unusual w m.addUnknown tag bs
  else if tag >>> 3 = 4 then
    if tag.setWidth 8 = 34#8 then .ofOption (elements parsePhone 34 (bs.length + 1) m bs)
    else handle_unusual w m.addUnknown tag bs
  else handle_unusual w m.addUnknown tag bs

def _InternalParse (m : Person w) (bs : List UInt8) : Parsed (Person w) :=
  parse w.ReadTag parseField m bs

def _InternalSerialize (m : Person w) : List UInt8 :=
  optionalField 10 w.WriteBytes m.name_ ++
    (optionalField 16 w.WriteInt32 m.id_ ++
      (optionalField 26 w.WriteBytes m.email_ ++
        (m.phones_.flatMap (fun phone =>
            34 :: w.InternalWriteMessage phone.ByteSizeLong phone._InternalSerialize) ++
          m.unknown_fields.flatMap w.WriteUnknown)))

def RequiredFieldsByteSizeFallback (m : Person w) : ℕ :=
  (m.name_.elim 0 fun s => 1 + w.StringSize s) + m.id_.elim 0 fun v => 1 + w.Int32Size v

def ByteSizeLong (m : Person w) : ℕ :=
  (if m.name_.isSome && m.id_.isSome then 1 + w.StringSize m.name + (1 + w.Int32Size m.id)
    else m.RequiredFieldsByteSizeFallback) +
    m.phones_.length + (m.phones_.map fun phone => w.LengthDelimitedSize phone.ByteSizeLong).sum +
    (m.email_.elim 0 fun s => 1 + w.StringSize s) + w.UnknownFieldsSize m.unknown_fields

def MergeFrom (m source : Person w) : Person w where
  name_ := source.name_.or m.name_
  id_ := source.id_.or m.id_
  email_ := source.email_.or m.email_
  phones_ := m.phones_ ++ source.phones_
  unknown_fields := m.unknown_fields ++ source.unknown_fields

def IsInitialized (m : Person w) : Bool :=
  m.name_.isSome && m.id_.isSome && m.phones_.all Person_PhoneNumber.IsInitialized

def messageLite : MessageLite (Person w) where
  default := default
  _InternalParse := _InternalParse
  IsInitialized := IsInitialized
  ByteSizeLong := ByteSizeLong
  _InternalSerialize := _InternalSerialize

end Person

namespace AddressBook

def default : AddressBook w := ⟨[], []⟩

def addUnknown (m : AddressBook w) (u : w.UnknownField) : AddressBook w :=
  { m with unknown_fields := m.unknown_fields ++ [u] }

def parsePerson (m : AddressBook w) : Reader (AddressBook w) :=
  (w.ParseMessage (Person._InternalParse .default)).map fun person =>
    { m with people_ := m.people_ ++ [person] }

def parseField (m : AddressBook w) (tag : BitVec 32) (bs : List UInt8) :
    FieldStep (AddressBook w) :=
  if tag >>> 3 = 1 then
    if tag.setWidth 8 = 10#8 then .ofOption (elements parsePerson 10 (bs.length + 1) m bs)
    else handle_unusual w m.addUnknown tag bs
  else handle_unusual w m.addUnknown tag bs

def _InternalParse (m : AddressBook w) (bs : List UInt8) : Parsed (AddressBook w) :=
  parse w.ReadTag parseField m bs

def _InternalSerialize (m : AddressBook w) : List UInt8 :=
  m.people_.flatMap (fun person =>
      10 :: w.InternalWriteMessage person.ByteSizeLong person._InternalSerialize) ++
    m.unknown_fields.flatMap w.WriteUnknown

def ByteSizeLong (m : AddressBook w) : ℕ :=
  m.people_.length + (m.people_.map fun person => w.LengthDelimitedSize person.ByteSizeLong).sum +
    w.UnknownFieldsSize m.unknown_fields

def MergeFrom (m source : AddressBook w) : AddressBook w where
  people_ := m.people_ ++ source.people_
  unknown_fields := m.unknown_fields ++ source.unknown_fields

def IsInitialized (m : AddressBook w) : Bool := m.people_.all Person.IsInitialized

def messageLite : MessageLite (AddressBook w) where
  default := default
  _InternalParse := _InternalParse
  IsInitialized := IsInitialized
  ByteSizeLong := ByteSizeLong
  _InternalSerialize := _InternalSerialize

end AddressBook

end ReactorNet.Tutorial
