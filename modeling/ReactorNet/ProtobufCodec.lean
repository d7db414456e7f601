import ReactorNet.BufferByteQueue
import Mathlib.Data.Int.Notation

/-!
# Length-prefixed protobuf frames

`int32_t` values are `BitVec 32`; arithmetic on lengths is on integers. A pointer
into the buffer is the storage from that position on. What the protobuf and zlib
libraries contribute is a parameter; `adler32 bs` is `::adler32(1, bs)` cast to
`int32_t`. `ParseFromArray` fills in a message and reports whether it succeeded.
-/
namespace ReactorNet

open VectorStorage NetworkByteOrder

structure Protobuf (M : Type*) where
  adler32 : List UInt8 → BitVec 32
  createMessage : List UInt8 → Option M
  ParseFromArray : M → List UInt8 → Bool × M
  GetTypeName : M → List UInt8
  ByteSize : M → ℕ
  SerializeWithCachedSizesToArray : M → List UInt8

namespace Protobuf

/-- The two sums of the checksum, modulo the largest prime below `2 ^ 16`. -/
def adlerSums (bs : List UInt8) : ℕ × ℕ :=
  bs.foldl (fun s b => ((s.1 + b.toNat) % 65521, (s.2 + s.1 + b.toNat) % 65521)) (1, 0)

/-- A library whose messages are a type name with an uninterpreted payload. -/
def uninterpreted : Protobuf (List UInt8 × List UInt8) where
  adler32 bs := BitVec.ofNat 32 ((adlerSums bs).2 * 65536 + (adlerSums bs).1)
  createMessage name := some (name, [])
  ParseFromArray m data := (true, (m.1, data))
  GetTypeName m := m.1
  ByteSize m := m.2.length
  SerializeWithCachedSizesToArray m := m.2

end Protobuf

namespace ProtobufCodec

inductive ErrorCode where
  | kNoError | kInvalidLength | kCheckSumError | kInvalidNameLen | kUnknownMessageType
  | kParseError
  deriving DecidableEq

def kHeaderLen : ℤ := 4
def kMinMessageLen : ℤ := 2 * 4 + 2
def kMaxMessageLen : ℤ := 64 * 1024 * 1024

variable {M : Type*} (lib : Protobuf M)

/-- Encode `message` into `buf`; `none` is the fatal `ByteSizeConsistencyError`. -/
def fillEmptyBuffer (buf : Buffer) (message : M) : Option Buffer :=
  let typeName := lib.GetTypeName message
  let nameLen : BitVec 32 := BitVec.ofNat 32 (typeName.length + 1)
  let named := (buf.appendInt32 nameLen).append ((typeName ++ [0]).take nameLen.toNat)
  let byteSize := lib.ByteSize message
  let room := named.ensureWritableBytes byteSize
  let start := lib.SerializeWithCachedSizesToArray message
  if start.length ≠ byteSize then none
  else
    let filled := (room.copyToWrite start).hasWritten byteSize
    let summed := filled.appendInt32 (lib.adler32 filled.content)
    some (summed.prepend (hostToNetwork 4 (BitVec.ofNat 32 summed.readableBytes)))

def asInt32 (buf : List UInt8) : BitVec 32 := networkToHost 4 (buf.take 4)

def parse (buf : List UInt8) (len : ℤ) : Option M × ErrorCode :=
  let expectedCheckSum := asInt32 (buf.drop (len - kHeaderLen).toNat)
  let checkSum := lib.adler32 (buf.take (len - kHeaderLen).toNat)
  if checkSum = expectedCheckSum then
    let nameLen := (asInt32 buf).toInt
    if 2 ≤ nameLen ∧ nameLen ≤ len - 2 * kHeaderLen then
      match lib.createMessage (slice buf kHeaderLen.toNat (nameLen - 1).toNat) with
      | some message =>
        let data := buf.drop (kHeaderLen + nameLen).toNat
        let dataLen := len - nameLen - 2 * kHeaderLen
        match lib.ParseFromArray message (data.take dataLen.toNat) with
        | (true, parsed) => (some parsed, .kNoError)
        | (false, parsed) => (some parsed, .kParseError)
      | none => (none, .kUnknownMessageType)
    else (none, .kInvalidNameLen)
  else (none, .kCheckSumError)

/-- The callbacks a connection sees. `errorCallback_` is `defaultErrorCallback`, which
logs, shuts the connection down and leaves the buffer alone. -/
inductive Callback (M : Type*) where
  | message (m : M)
  | error (e : ErrorCode)

theorem readableBytes_retrieve_lt {buf : Buffer} {len : ℤ}
    (hmin : ¬ (len > kMaxMessageLen ∨ len < kMinMessageLen))
    (hread : (kHeaderLen + len).toNat ≤ buf.readableBytes) :
    (buf.retrieve (kHeaderLen + len).toNat).readableBytes < buf.readableBytes := by
  simp only [Buffer.retrieve, Buffer.readableBytes, kHeaderLen, kMinMessageLen] at *
  omega

def onMessage (buf : Buffer) : Buffer × List (Callback M) :=
  if (kHeaderLen + kMinMessageLen).toNat ≤ buf.readableBytes then
    let len := buf.peekInt32.toInt
    if _hmin : len > kMaxMessageLen ∨ len < kMinMessageLen then (buf, [.error .kInvalidLength])
    else if _hread : (kHeaderLen + len).toNat ≤ buf.readableBytes then
      match parse lib (buf.buffer_.drop (buf.readerIndex_ + kHeaderLen.toNat)) len with
      | (some message, .kNoError) =>
        let rest := onMessage (buf.retrieve (kHeaderLen + len).toNat)
        (rest.1, .message message :: rest.2)
      | (_, errorCode) => (buf, [.error errorCode])
    else (buf, [])
  else (buf, [])
termination_by buf.readableBytes
decreasing_by exact readableBytes_retrieve_lt _hmin _hread

/-- Chunks received by one connection, each appended to its input buffer and followed by
a call of `onMessage`; the callbacks of all calls, in order. -/
def receive (buf : Buffer) : List (List UInt8) → Buffer × List (Callback M)
  | [] => (buf, [])
  | chunk :: chunks =>
    let called := onMessage lib (buf.append chunk)
    let rest := receive called.1 chunks
    (rest.1, called.2 ++ rest.2)

/-- The messages handed to `messageCallback_`. -/
def dispatched (calls : List (Callback M)) : List M :=
  calls.filterMap fun
    | .message m => some m
    | .error _ => none

/-- The codes handed to `errorCallback_`. -/
def errors (calls : List (Callback M)) : List ErrorCode :=
  calls.filterMap fun
    | .message _ => none
    | .error e => some e

end ProtobufCodec

end ReactorNet
