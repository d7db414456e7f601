import ReactorNet.VectorStorage
import ReactorNet.NetworkByteOrder

/-!
# The application-level buffer

`buffer_` is the vector, `readerIndex_` and `writerIndex_` cut it into the
prependable, the readable and the writable part. Sizes are natural numbers, exact
as long as they stay below the width of `size_t`. The functions compute what the
release build computes; the assertions of a function are a predicate of their own.
-/
namespace ReactorNet

open VectorStorage NetworkByteOrder

structure Buffer where
  buffer_ : List UInt8
  readerIndex_ : ℕ
  writerIndex_ : ℕ
  deriving DecidableEq

namespace Buffer

def kCheapPrepend : ℕ := 8
def kInitialSize : ℕ := 1024

/-- Size of the stack buffer that catches what does not fit in `readFd`. -/
def kExtraBuf : ℕ := 65536

def fresh : Buffer where
  buffer_ := List.replicate (kCheapPrepend + kInitialSize) 0
  readerIndex_ := kCheapPrepend
  writerIndex_ := kCheapPrepend

variable (b : Buffer)

def readableBytes : ℕ := b.writerIndex_ - b.readerIndex_
def writableBytes : ℕ := b.buffer_.length - b.writerIndex_
def prependableBytes : ℕ := b.readerIndex_

/-- The bytes from `peek()` up to `beginWrite()`. -/
def content : List UInt8 := slice b.buffer_ b.readerIndex_ b.readableBytes

def peekInt32 : BitVec 32 := networkToHost 4 (slice b.buffer_ b.readerIndex_ 4)
def peekInt64 : BitVec 64 := networkToHost 8 (slice b.buffer_ b.readerIndex_ 8)

def retrieve (len : ℕ) : Buffer := { b with readerIndex_ := b.readerIndex_ + len }
def retrieveAssert (len : ℕ) : Prop := len ≤ b.readableBytes

def retrieveAll : Buffer :=
  { b with readerIndex_ := kCheapPrepend, writerIndex_ := kCheapPrepend }

def retrieveAsString : List UInt8 × Buffer := (b.content, b.retrieveAll)

/-- `last` is the position in the vector that the end pointer designates. -/
def retrieveUntil (last : ℕ) : Buffer := b.retrieve (last - b.readerIndex_)

def retrieveUntilAssert (last : ℕ) : Prop :=
  b.readerIndex_ ≤ last ∧ last ≤ b.writerIndex_ ∧ b.retrieveAssert (last - b.readerIndex_)

/-- Move the readable bytes to the front of the vector. -/
def slide : Buffer where
  buffer_ := copyForward b.buffer_ b.readerIndex_ kCheapPrepend b.readableBytes
  readerIndex_ := kCheapPrepend
  writerIndex_ := kCheapPrepend + b.readableBytes

/-- `buffer_.resize(writerIndex_ + len)` -/
def grow (len : ℕ) : Buffer :=
  let size := b.writerIndex_ + len
  { b with buffer_ := b.buffer_.take size ++ List.replicate (size - b.buffer_.length) 0 }

def makeSpace (len : ℕ) : Buffer :=
  if b.writableBytes + b.prependableBytes < len + kCheapPrepend then b.grow len else b.slide

def makeSpaceAssert (len : ℕ) : Prop :=
  b.writableBytes + b.prependableBytes < len + kCheapPrepend ∨
    kCheapPrepend < b.readerIndex_ ∧ b.readableBytes = b.slide.readableBytes

def ensureWritableBytes (len : ℕ) : Buffer :=
  if b.writableBytes < len then b.makeSpace len else b

def ensureWritableBytesAssert (len : ℕ) : Prop :=
  (b.writableBytes < len → b.makeSpaceAssert len) ∧
    len ≤ (b.ensureWritableBytes len).writableBytes

def hasWritten (len : ℕ) : Buffer := { b with writerIndex_ := b.writerIndex_ + len }

/-- Copy `data` to `beginWrite()`. -/
def copyToWrite (data : List UInt8) : Buffer :=
  { b with buffer_ := overwrite b.buffer_ b.writerIndex_ data }

def append (data : List UInt8) : Buffer :=
  ((b.ensureWritableBytes data.length).copyToWrite data).hasWritten data.length

def appendAssert (data : List UInt8) : Prop := b.ensureWritableBytesAssert data.length

def appendInt64 (x : BitVec 64) : Buffer := b.append (hostToNetwork 8 x)
def appendInt32 (x : BitVec 32) : Buffer := b.append (hostToNetwork 4 x)
def appendInt16 (x : BitVec 16) : Buffer := b.append (hostToNetwork 2 x)
def appendInt8 (x : BitVec 8) : Buffer := b.append (hostToNetwork 1 x)

def prepend (data : List UInt8) : Buffer :=
  { b with
    readerIndex_ := b.readerIndex_ - data.length
    buffer_ := overwrite b.buffer_ (b.readerIndex_ - data.length) data }

def prependAssert (data : List UInt8) : Prop := data.length ≤ b.prependableBytes

/-- What `readv` did: `none` is a failure, otherwise the bytes it delivered, the first
`writableBytes()` of them into the buffer and the rest into the stack buffer. -/
def readFd (delivered : Option (List UInt8)) : Buffer :=
  match delivered with
  | none => b
  | some data =>
    let writable := b.writableBytes
    let filled := b.copyToWrite (data.take writable)
    if data.length ≤ writable then filled.hasWritten data.length
    else { filled with writerIndex_ := filled.buffer_.length }.append (data.drop writable)

def readFdAssert (delivered : Option (List UInt8)) : Prop :=
  match delivered with
  | none => True
  | some data =>
    data.length ≤ b.writableBytes ∨
      { b.copyToWrite (data.take b.writableBytes) with
        writerIndex_ := b.buffer_.length }.appendAssert (data.drop b.writableBytes)

/-- `swap` exchanges the vectors and both indices. -/
def swap (rhs : Buffer) : Buffer × Buffer :=
  (⟨rhs.buffer_, rhs.readerIndex_, rhs.writerIndex_⟩,
    ⟨b.buffer_, b.readerIndex_, b.writerIndex_⟩)

end Buffer

end ReactorNet
