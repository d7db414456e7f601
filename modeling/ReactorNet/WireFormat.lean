import Mathlib.Data.BitVec
import ReactorNet.TaggedFields

/-!
# The wire format

The functions of the protobuf runtime that generated code and its users call, as a parameter:
readers and writers of tags, varints, strings, nested messages and unknown fields, their sizes,
and what a message inherits. `Lawful` is what is assumed of them. The format of varints in base
128, without groups, is lawful.
-/
namespace ReactorNet

open TaggedFields

/-- `EndGroup` tags and the tag 0 end a message. -/
def endsMessage (tag : BitVec 32) : Bool := tag &&& 7 == 4 || tag == 0

/-- The virtual functions of a generated class. -/
structure MessageLite (M : Type) where
  /-- A new or cleared message. -/
  default : M
  _InternalParse : M → List UInt8 → Parsed M
  IsInitialized : M → Bool
  ByteSizeLong : M → ℕ
  _InternalSerialize : M → List UInt8

/-- A writer of a field gives what stands behind the tag byte. -/
structure WireFormat where
  UnknownField : Type
  ReadTag : Reader (BitVec 32)
  ReadVarint : Reader (BitVec 64)
  /-- `InlineGreedyStringParser`. -/
  ReadBytes : Reader (List UInt8)
  /-- `ParseContext::ParseMessage`, from the `_InternalParse` of the message that is filled in. -/
  ParseMessage : {M : Type} → (List UInt8 → Parsed M) → Reader M
  UnknownFieldParse : BitVec 32 → Reader UnknownField
  /-- `WriteStringMaybeAliased`. -/
  WriteBytes : List UInt8 → List UInt8
  /-- `WriteInt32ToArray` and `WriteEnumToArray`. -/
  WriteInt32 : BitVec 32 → List UInt8
  /-- From the cached size and what the message writes. -/
  InternalWriteMessage : ℕ → List UInt8 → List UInt8
  WriteUnknown : UnknownField → List UInt8
  /-- The unknown field that `WriteVarint` puts into an unknown field set. -/
  unknownVarint : ℕ → BitVec 64 → UnknownField
  StringSize : List UInt8 → ℕ
  Int32Size : BitVec 32 → ℕ
  /-- What `MessageSize` makes of the size of a message. -/
  LengthDelimitedSize : ℕ → ℕ
  /-- What `ComputeUnknownFieldsSize` adds. -/
  UnknownFieldsSize : List UnknownField → ℕ
  /-- Whether it succeeds, and the message it leaves. -/
  ParseFromArray : {M : Type} → MessageLite M → List UInt8 → Bool × M
  ParseFromIstream : {M : Type} → MessageLite M → List UInt8 → Option M
  SerializeToOstream : {M : Type} → MessageLite M → M → Option (List UInt8)
  SerializeWithCachedSizesToArray : {M : Type} → MessageLite M → M → List UInt8

namespace WireFormat

/-- The largest size that a reader of sizes accepts. -/
def maxSize : ℕ := 2 ^ 31 - 1 - 16

structure Lawful (w : WireFormat) : Prop where
  tag_advances : w.ReadTag.Advances
  tag_tokens : w.ReadTag.Tokens
  varint_tokens : w.ReadVarint.Tokens
  bytes_tokens : w.ReadBytes.Tokens
  unknown_tokens : ∀ tag, (w.UnknownFieldParse tag).Tokens
  /-- Small tags are their own byte. -/
  tag_byte : ∀ (b : UInt8) rest, 0 < b → b < 128 →
    w.ReadTag (b :: rest) = some (BitVec.ofNat 32 b.toNat, rest)
  int32_write : ∀ v rest, w.ReadVarint (w.WriteInt32 v ++ rest) = some (v.signExtend 64, rest)
  bytes_write : ∀ s rest, s.length ≤ maxSize → w.ReadBytes (w.WriteBytes s ++ rest) = some (s, rest)
  /-- A nested message is a byte string that it takes up. -/
  parseMessage : ∀ {M : Type} (parse : List UInt8 → Parsed M) bs m rest,
    w.ParseMessage parse bs = some (m, rest) ↔
      ∃ data, w.ReadBytes bs = some (data, rest) ∧ parse data = .complete m
  /-- With the right size it is written as that byte string. -/
  internalWriteMessage : ∀ bytes, w.InternalWriteMessage bytes.length bytes = w.WriteBytes bytes
  /-- An unknown field is written so that it is read again behind the same tag. -/
  unknown_write : ∀ tag bs u rest, w.UnknownFieldParse tag bs = some (u, rest) →
    ∃ head body, w.WriteUnknown u = head ++ body ∧
      (∀ more, w.ReadTag (head ++ more) = some (tag, more)) ∧
      ∀ more, w.UnknownFieldParse tag (body ++ more) = some (u, more)
  unknownVarint_write : ∀ (n : ℕ) v, 0 < n → n < 16 →
    ∃ body, w.WriteUnknown (w.unknownVarint n v) = UInt8.ofNat (8 * n) :: body ∧
      ∀ rest, w.ReadVarint (body ++ rest) = some (v, rest)
  length_writeBytes : ∀ s, (w.WriteBytes s).length = w.StringSize s
  stringSize : ∀ s, w.StringSize s = w.LengthDelimitedSize s.length
  le_lengthDelimitedSize : ∀ n, n ≤ w.LengthDelimitedSize n
  length_writeInt32 : ∀ v, (w.WriteInt32 v).length = w.Int32Size v
  length_writeUnknown : ∀ us, (us.flatMap w.WriteUnknown).length = w.UnknownFieldsSize us
  /-- Bytes that are one message are parsed as it, unless a required field is missing. -/
  parseFromArray : ∀ {M : Type} (c : MessageLite M) data m,
    c._InternalParse c.default data = .complete m →
      w.ParseFromArray c data = (c.IsInitialized m, m)
  parseFromIstream : ∀ {M : Type} (c : MessageLite M) input m,
    c._InternalParse c.default input = .complete m → c.IsInitialized m = true →
      input.length ≤ maxSize → w.ParseFromIstream c input = some m
  /-- It accepts nothing else. -/
  parseFromIstream_complete : ∀ {M : Type} (c : MessageLite M) input m,
    w.ParseFromIstream c input = some m →
      c._InternalParse c.default input = .complete m ∧ c.IsInitialized m = true
  serializeToOstream : ∀ {M : Type} (c : MessageLite M) m,
    c.ByteSizeLong m = (c._InternalSerialize m).length → c.ByteSizeLong m ≤ maxSize →
      w.SerializeToOstream c m = some (c._InternalSerialize m)
  serializeWithCachedSizesToArray : ∀ {M : Type} (c : MessageLite M) m,
    c.ByteSizeLong m = (c._InternalSerialize m).length →
      w.SerializeWithCachedSizesToArray c m = c._InternalSerialize m

/-- A field that is written behind its tag byte if it is there. -/
def optionalField {α : Type*} (tag : UInt8) (write : α → List UInt8) : Option α → List UInt8
  | some a => tag :: write a
  | none => []

namespace Lawful

variable {w : WireFormat} (h : w.Lawful)
include h

theorem parseMessage_tokens {M : Type} (parse : List UInt8 → Parsed M) :
    (w.ParseMessage parse).Tokens := by
  intro bs m rest hread
  obtain ⟨data, hbytes, hparse⟩ := (h.parseMessage ..).mp hread
  obtain ⟨token, hbs, htoken⟩ := h.bytes_tokens _ _ _ hbytes
  exact ⟨token, hbs, fun more => (h.parseMessage ..).mpr ⟨data, htoken more, hparse⟩⟩

theorem length_le_writeBytes (s : List UInt8) : s.length ≤ (w.WriteBytes s).length := by
  rw [h.length_writeBytes, h.stringSize]
  exact h.le_lengthDelimitedSize s.length

end Lawful

/-! ## Varints in base 128 -/

/-- At most `groups` groups of seven bits, the low ones first; all but the last have the
continuation bit. -/
def writeGroups : ℕ → ℕ → List UInt8
  | 0, _ => []
  | groups + 1, n =>
    if n < 128 then [UInt8.ofNat n]
    else UInt8.ofNat (n % 128 + 128) :: writeGroups groups (n / 128)

def readGroups : ℕ → Reader ℕ
  | 0, _ => none
  | _ + 1, [] => none
  | groups + 1, b :: rest =>
    if b < 128 then some (b.toNat, rest)
    else (readGroups groups rest).map fun (n, rest) => (b.toNat - 128 + 128 * n, rest)

theorem readGroups_writeGroups {groups n : ℕ} (h : n < 128 ^ (groups + 1)) (rest : List UInt8) :
    readGroups (groups + 1) (writeGroups (groups + 1) n ++ rest) = some (n, rest) := by
  induction groups generalizing n with
  | zero =>
    have hn : n < 128 := by simpa using h
    have hbyte : UInt8.ofNat n < 128 := by
      rw [UInt8.lt_iff_toNat_lt, UInt8.toNat_ofNat']
      have h128 : (128 : UInt8).toNat = 128 := rfl
      omega
    rw [writeGroups, if_pos hn, List.singleton_append, readGroups, if_pos hbyte, UInt8.toNat_ofNat',
      Nat.mod_eq_of_lt (by omega)]
  | succ groups ih =>
    have h128 : (128 : UInt8).toNat = 128 := rfl
    rw [writeGroups]
    by_cases hn : n < 128
    · have hbyte : UInt8.ofNat n < 128 := by
        rw [UInt8.lt_iff_toNat_lt, UInt8.toNat_ofNat']
        omega
      rw [if_pos hn, List.singleton_append, readGroups, if_pos hbyte, UInt8.toNat_ofNat',
        Nat.mod_eq_of_lt (by omega)]
    · have hbyte : ¬UInt8.ofNat (n % 128 + 128) < 128 := by
        rw [UInt8.lt_iff_toNat_lt, UInt8.toNat_ofNat']
        omega
      have hdiv : n / 128 < 128 ^ (groups + 1) := by
        rw [Nat.div_lt_iff_lt_mul (by decide), ← Nat.pow_succ]
        exact h
      have hvalue : (UInt8.ofNat (n % 128 + 128)).toNat - 128 + 128 * (n / 128) = n := by
        rw [UInt8.toNat_ofNat']
        omega
      rw [if_neg hn, List.cons_append, readGroups, if_neg hbyte, ih hdiv, Option.map_some]
      exact congrArg (fun m => some (m, rest)) hvalue

theorem readGroups_tokens (groups : ℕ) : (readGroups groups).Tokens := by
  induction groups with
  | zero =>
    intro bs n rest hread
    cases hread
  | succ groups ih =>
    intro bs n rest hread
    cases bs with
    | nil => cases hread
    | cons b bs =>
      rw [readGroups] at hread
      split at hread
      case isTrue hb =>
        cases hread
        exact ⟨[b], rfl, fun more => by rw [List.singleton_append, readGroups, if_pos hb]⟩
      case isFalse hb =>
        obtain ⟨⟨m, rest'⟩, hrest, heq⟩ := Option.map_eq_some_iff.mp hread
        obtain ⟨token, rfl, htoken⟩ := ih _ _ _ hrest
        cases heq
        refine ⟨b :: token, rfl, ?_⟩
        intro more
        rw [List.cons_append, readGroups, if_neg hb, htoken]
        rfl

theorem readGroups_advances (groups : ℕ) : Reader.Advances (readGroups groups) := by
  induction groups with
  | zero =>
    intro bs n rest hread
    cases hread
  | succ groups ih =>
    intro bs n rest hread
    cases bs with
    | nil => cases hread
    | cons b bs =>
      rw [readGroups] at hread
      split at hread
      · cases hread
        simp
      · obtain ⟨⟨m, rest'⟩, hrest, heq⟩ := Option.map_eq_some_iff.mp hread
        cases heq
        have hlt := ih _ _ _ hrest
        rw [List.length_cons]
        omega

/-- A value read as a bit vector. -/
def readBits (groups w : ℕ) : Reader (BitVec w) := Reader.map (BitVec.ofNat w) (readGroups groups)

theorem readBits_tokens (groups w : ℕ) : (readBits groups w).Tokens :=
  (readGroups_tokens groups).map _

theorem readBits_write {groups w : ℕ} (h : 2 ^ w ≤ 128 ^ (groups + 1)) (v : BitVec w)
    (rest : List UInt8) :
    readBits (groups + 1) w (writeGroups (groups + 1) v.toNat ++ rest) = some (v, rest) :=
  Reader.map_eq_some.mpr
    ⟨v.toNat, readGroups_writeGroups (Nat.lt_of_lt_of_le v.isLt h) rest, by simp⟩

/-- A size of 32 bits within the limit. -/
def readSize : Reader ℕ := fun bs =>
  (readGroups 5 bs).bind fun (n, rest) => if n ≤ maxSize then some (n, rest) else none

theorem readSize_tokens : readSize.Tokens := by
  intro bs n rest hread
  obtain ⟨⟨m, rest'⟩, hread, heq⟩ := Option.bind_eq_some_iff.mp hread
  obtain ⟨token, hbs, htoken⟩ := readGroups_tokens 5 _ _ _ hread
  simp only [Option.ite_none_right_eq_some] at heq
  obtain ⟨hle, heq⟩ := heq
  cases heq
  refine ⟨token, hbs, ?_⟩
  intro more
  rw [readSize, htoken, Option.bind_some]
  exact if_pos hle

theorem readSize_write {n : ℕ} (h : n ≤ maxSize) (rest : List UInt8) :
    readSize (writeGroups 5 n ++ rest) = some (n, rest) := by
  have hlt : n < 128 ^ 5 := by
    have hmax : maxSize < 128 ^ 5 := by decide
    omega
  rw [readSize, readGroups_writeGroups hlt, Option.bind_some]
  exact if_pos h

/-- The bytes behind a length; none if there are fewer. -/
def readDelimited : Reader (List UInt8) := fun bs =>
  (readSize bs).bind fun (size, rest) =>
    if size ≤ rest.length then some (rest.take size, rest.drop size) else none

theorem readDelimited_eq {bs rest : List UInt8} {size : ℕ} (h : readSize bs = some (size, rest)) :
    readDelimited bs =
      if size ≤ rest.length then some (rest.take size, rest.drop size) else none := by
  rw [readDelimited, h]
  rfl

theorem readDelimited_tokens : readDelimited.Tokens := by
  intro bs s rest hread
  obtain ⟨⟨size, behind⟩, hsize, -⟩ := Option.bind_eq_some_iff.mp hread
  obtain ⟨token, rfl, htoken⟩ := readSize_tokens _ _ _ hsize
  rw [readDelimited_eq hsize] at hread
  split at hread
  case isFalse => cases hread
  case isTrue hle =>
    cases hread
    have hlen : (behind.take size).length = size := by
      rw [List.length_take]
      omega
    refine ⟨token ++ behind.take size, ?_, ?_⟩
    · rw [List.append_assoc, List.take_append_drop]
    · intro more
      have hle' : size ≤ (behind.take size ++ more).length := by
        rw [List.length_append, hlen]
        exact Nat.le_add_right _ _
      rw [List.append_assoc, readDelimited_eq (htoken _), if_pos hle', List.take_left' hlen,
        List.drop_left' hlen]

def writeDelimited (s : List UInt8) : List UInt8 := writeGroups 5 s.length ++ s

/-- A byte string behind its own length. -/
theorem readDelimited_write {s : List UInt8} (h : s.length ≤ maxSize) (rest : List UInt8) :
    readDelimited (writeDelimited s ++ rest) = some (s, rest) := by
  have hle : s.length ≤ (s ++ rest).length := by
    rw [List.length_append]
    exact Nat.le_add_right _ _
  rw [writeDelimited, List.append_assoc, readDelimited_eq (readSize_write h _), if_pos hle,
    List.take_left, List.drop_left]

/-- The bytes of a fixed width. -/
def readFixed (width : ℕ) : Reader (List UInt8) := fun bs =>
  if width ≤ bs.length then some (bs.take width, bs.drop width) else none

theorem readFixed_tokens (width : ℕ) : (readFixed width).Tokens := by
  intro bs s rest hread
  rw [readFixed] at hread
  split at hread
  case isFalse => cases hread
  case isTrue hle =>
    cases hread
    refine ⟨bs.take width, (List.take_append_drop width bs).symm, ?_⟩
    intro more
    have hlen : (bs.take width).length = width := by
      rw [List.length_take]
      omega
    rw [readFixed, if_pos (by rw [List.length_append]; omega), List.take_left' hlen,
      List.drop_left' hlen]

/-- The payload of an unknown field: the bytes that were read, but for a varint or a length,
which is written anew. -/
inductive Payload where
  | varint (v : BitVec 64)
  | fixed (bytes : List UInt8)
  | lengthDelimited (bytes : List UInt8)
deriving DecidableEq

def Payload.write : Payload → List UInt8
  | .varint v => writeGroups 10 v.toNat
  | .fixed bytes => bytes
  | .lengthDelimited bytes => writeDelimited bytes

def readPayload (tag : BitVec 32) : Reader Payload := fun bs =>
  if tag >>> 3 = 0 then none
  else match (tag &&& 7).toNat with
    | 0 => (readBits 10 64).map .varint bs
    | 1 => (readFixed 8).map .fixed bs
    | 2 => readDelimited.map .lengthDelimited bs
    | 5 => (readFixed 4).map .fixed bs
    | _ => none

/-- The most that a stream may hold. -/
def kint32max : ℕ := 2147483647

/-- Varints in base 128; groups are refused. -/
def base128 : WireFormat where
  UnknownField := BitVec 32 × Payload
  ReadTag := readBits 5 32
  ReadVarint := readBits 10 64
  ReadBytes := readDelimited
  ParseMessage parse bs := (readDelimited bs).bind fun (data, rest) =>
    (parse data).whole.map fun m => (m, rest)
  UnknownFieldParse tag := (readPayload tag).map (Prod.mk tag)
  WriteBytes := writeDelimited
  WriteInt32 v := writeGroups 10 (v.signExtend 64).toNat
  InternalWriteMessage size bytes := writeGroups 5 size ++ bytes
  WriteUnknown u := writeGroups 5 u.1.toNat ++ u.2.write
  unknownVarint n v := (BitVec.ofNat 32 (8 * n), .varint v)
  StringSize s := (writeGroups 5 s.length).length + s.length
  Int32Size v := (writeGroups 10 (v.signExtend 64).toNat).length
  LengthDelimitedSize n := (writeGroups 5 n).length + n
  UnknownFieldsSize us := (us.map fun u => (writeGroups 5 u.1.toNat ++ u.2.write).length).sum
  ParseFromArray c data := match c._InternalParse c.default data with
    | .complete m => (c.IsInitialized m, m)
    | .ended m => (false, m)
    | .malformed => (false, c.default)
  ParseFromIstream c input := if input.length ≤ kint32max then
      (c._InternalParse c.default input).whole.filter c.IsInitialized
    else none
  SerializeToOstream c m :=
    if c.ByteSizeLong m ≤ kint32max then some (c._InternalSerialize m) else none
  SerializeWithCachedSizesToArray c m := c._InternalSerialize m

theorem readPayload_tokens (tag : BitVec 32) : (readPayload tag).Tokens := by
  intro bs payload rest hread
  rw [readPayload] at hread
  by_cases hnumber : tag >>> 3 = 0
  · rw [if_pos hnumber] at hread
    cases hread
  · rw [if_neg hnumber] at hread
    simp only [readPayload, if_neg hnumber]
    split at hread
    · exact (readBits_tokens 10 64).map _ _ _ _ hread
    · exact (readFixed_tokens 8).map _ _ _ _ hread
    · exact readDelimited_tokens.map _ _ _ _ hread
    · exact (readFixed_tokens 4).map _ _ _ _ hread
    · cases hread

/-- A payload that was read is read again from what is written for it. -/
theorem readPayload_write {tag : BitVec 32} {bs rest : List UInt8} {payload : Payload}
    (h : readPayload tag bs = some (payload, rest)) (more : List UInt8) :
    readPayload tag (payload.write ++ more) = some (payload, more) := by
  rw [readPayload] at h ⊢
  by_cases hnumber : tag >>> 3 = 0
  · rw [if_pos hnumber] at h
    cases h
  · rw [if_neg hnumber] at h ⊢
    have hfixed {width : ℕ} {s rest : List UInt8} (hread : readFixed width bs = some (s, rest)) :
        readFixed width (s ++ more) = some (s, more) := by
      rw [readFixed, Option.ite_none_right_eq_some] at hread
      obtain ⟨hle, heq⟩ := hread
      cases heq
      have hlen : (bs.take width).length = width := by
        rw [List.length_take]
        omega
      rw [readFixed, if_pos (by rw [List.length_append]; omega), List.take_left' hlen,
        List.drop_left' hlen]
    split at h
    · obtain ⟨v, -, rfl⟩ := Reader.map_eq_some.mp h
      exact Reader.map_eq_some.mpr ⟨v, readBits_write (by decide) v more, rfl⟩
    · obtain ⟨s, hread, rfl⟩ := Reader.map_eq_some.mp h
      exact Reader.map_eq_some.mpr ⟨s, hfixed hread, rfl⟩
    · obtain ⟨s, hread, rfl⟩ := Reader.map_eq_some.mp h
      obtain ⟨⟨size, behind⟩, hsize, -⟩ := Option.bind_eq_some_iff.mp hread
      rw [readDelimited_eq hsize, Option.ite_none_right_eq_some] at hread
      obtain ⟨hle, heq⟩ := hread
      cases heq
      obtain ⟨⟨n, _⟩, -, hmax⟩ := Option.bind_eq_some_iff.mp hsize
      simp only [Option.ite_none_right_eq_some] at hmax
      obtain ⟨hmax, heq⟩ := hmax
      cases heq
      have hlen : (behind.take size).length = size := by
        rw [List.length_take]
        omega
      have hwrite : readDelimited (writeDelimited (behind.take size) ++ more) =
          some (behind.take size, more) := readDelimited_write (by omega) more
      exact Reader.map_eq_some.mpr ⟨_, hwrite, rfl⟩
    · obtain ⟨s, hread, rfl⟩ := Reader.map_eq_some.mp h
      exact Reader.map_eq_some.mpr ⟨s, hfixed hread, rfl⟩
    · cases h

theorem base128_lawful : base128.Lawful where
  tag_advances := by
    intro bs tag rest hread
    obtain ⟨n, hn, rfl⟩ := Reader.map_eq_some.mp hread
    exact readGroups_advances 5 _ _ _ hn
  tag_tokens := readBits_tokens 5 32
  varint_tokens := readBits_tokens 10 64
  bytes_tokens := readDelimited_tokens
  unknown_tokens tag := (readPayload_tokens tag).map _
  tag_byte b rest _ hb := Reader.map_eq_some.mpr ⟨b.toNat, by rw [readGroups, if_pos hb], rfl⟩
  int32_write v rest := readBits_write (by decide) (v.signExtend 64) rest
  bytes_write _ rest hs := readDelimited_write hs rest
  parseMessage parse bs m rest := by
    change (readDelimited bs).bind _ = _ ↔ ∃ data, readDelimited bs = _ ∧ _
    rw [Option.bind_eq_some_iff]
    constructor
    · intro ⟨⟨data, rest'⟩, hbytes, hparse⟩
      obtain ⟨m', hwhole, heq⟩ := Option.map_eq_some_iff.mp hparse
      cases heq
      exact ⟨data, hbytes, Parsed.whole_eq_some.mp hwhole⟩
    · intro ⟨data, hbytes, hparse⟩
      exact ⟨(data, rest), hbytes, by simp only [hparse, Parsed.whole_complete, Option.map_some]⟩
  internalWriteMessage _ := rfl
  unknown_write tag bs u rest hread := by
    obtain ⟨payload, hpayload, rfl⟩ := Reader.map_eq_some.mp hread
    refine ⟨writeGroups 5 tag.toNat, payload.write, rfl, ?_, ?_⟩
    · intro more
      exact readBits_write (by decide) tag more
    · intro more
      exact Reader.map_eq_some.mpr ⟨payload, readPayload_write hpayload more, rfl⟩
  unknownVarint_write n v hpos hlt := by
    have htag : writeGroups 5 (BitVec.ofNat 32 (8 * n)).toNat = [UInt8.ofNat (8 * n)] := by
      rw [BitVec.toNat_ofNat, Nat.mod_eq_of_lt (by omega), writeGroups, if_pos (by omega)]
    refine ⟨writeGroups 10 v.toNat, ?_, readBits_write (by decide) v⟩
    change writeGroups 5 (BitVec.ofNat 32 (8 * n)).toNat ++ _ = _
    rw [htag]
    rfl
  length_writeBytes _ := List.length_append ..
  stringSize _ := rfl
  le_lengthDelimitedSize _ := Nat.le_add_left ..
  length_writeInt32 _ := rfl
  length_writeUnknown _ := List.length_flatMap ..
  parseFromArray c data m hparse := by
    simp only [base128, hparse]
  parseFromIstream c input m hparse hinitialized hlen := by
    have hmax : maxSize ≤ kint32max := by decide
    simp only [base128, hparse, Parsed.whole_complete, if_pos (Nat.le_trans hlen hmax)]
    exact Option.filter_eq_some_iff.mpr ⟨rfl, hinitialized⟩
  parseFromIstream_complete c input m hinput := by
    obtain ⟨-, hfilter⟩ := Option.ite_none_right_eq_some.mp hinput
    obtain ⟨hwhole, hinitialized⟩ := Option.filter_eq_some_iff.mp hfilter
    exact ⟨Parsed.whole_eq_some.mp hwhole, hinitialized⟩
  serializeToOstream _ _ _ hlen := if_pos (Nat.le_trans hlen (by decide))
  serializeWithCachedSizesToArray _ _ _ := rfl

end WireFormat

end ReactorNet
