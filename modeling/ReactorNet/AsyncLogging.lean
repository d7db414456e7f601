import Mathlib.Data.List.Basic
import Mathlib.Order.Lattice

/-!
# Asynchronous logging

The front end appends lines under the mutex to the current buffer; the logging thread
swaps the full buffers out, writes them and gives two of them back empty. A step of the
thread is what it does between two points at which other threads can get in. A step
without a result is a failed assertion or a null pointer, or a thread that is gone.
-/
namespace ReactorNet

def kLargeBuffer : ℕ := 4000 * 1000

/-- A line, and as history its place in the order in which `append` took the mutex. -/
structure Line where
  serial : ℕ
  text : List UInt8
deriving DecidableEq

def Line.bytes (lines : List Line) : List UInt8 := lines.flatMap Line.text

/-- The bytes up to `cur_`; as history, the lines they are made of. -/
structure FixedBuffer (SIZE : ℕ) where
  data : List UInt8
  lines : List Line
  data_eq : data = Line.bytes lines
  length_le : data.length ≤ SIZE

namespace FixedBuffer

variable {SIZE : ℕ}

/-- A new buffer, and what `reset` makes of an old one. -/
def empty : FixedBuffer SIZE := ⟨[], [], rfl, Nat.zero_le _⟩

def length (b : FixedBuffer SIZE) : ℕ := b.data.length

def avail (b : FixedBuffer SIZE) : ℕ := SIZE - b.data.length

theorem append_data_eq (b : FixedBuffer SIZE) (line : Line) :
    b.data ++ line.text = Line.bytes (b.lines ++ [line]) := by
  rw [b.data_eq]
  simp [Line.bytes]

theorem append_length_le (b : FixedBuffer SIZE) (line : Line) (h : b.avail > line.text.length) :
    (b.data ++ line.text).length ≤ SIZE := by
  have := b.length_le
  simp only [avail] at h
  rw [List.length_append]
  omega

def append (b : FixedBuffer SIZE) (line : Line) : FixedBuffer SIZE :=
  if h : b.avail > line.text.length then
    ⟨b.data ++ line.text, b.lines ++ [line], b.append_data_eq line, b.append_length_le line h⟩
  else b

def reset (_ : FixedBuffer SIZE) : FixedBuffer SIZE := empty

@[simp] theorem lines_empty : (empty : FixedBuffer SIZE).lines = [] := rfl

@[simp] theorem avail_empty : (empty : FixedBuffer SIZE).avail = SIZE := rfl

theorem avail_le (b : FixedBuffer SIZE) : b.avail ≤ SIZE := Nat.sub_le _ _

theorem lines_append (b : FixedBuffer SIZE) (line : Line) :
    (b.append line).lines = b.lines ++ if b.avail > line.text.length then [line] else [] := by
  rw [append]
  split <;> simp

end FixedBuffer

abbrev AsyncLogging.Buffer := FixedBuffer kLargeBuffer

/-- `std::unique_ptr<Buffer>`. -/
abbrev AsyncLogging.BufferPtr := Option AsyncLogging.Buffer

/-- What is passed to `output.append`. -/
inductive LogChunk where
  | buffer (b : AsyncLogging.Buffer)
  | dropped (text : List UInt8)

def LogChunk.lines : LogChunk → List Line
  | .buffer b => b.lines
  | .dropped _ => []

def LogChunk.bytes : LogChunk → List UInt8
  | .buffer b => b.data
  | .dropped text => text

/-- Where the logging thread is. -/
inductive LogPc where
  | whileRunning
  | lock
  | waitForSeconds
  | trim
  | write (i : ℕ)
  | recycle
  | exited
deriving DecidableEq

structure AsyncLogging where
  running_ : Bool
  currentBuffer_ : AsyncLogging.BufferPtr
  nextBuffer_ : AsyncLogging.BufferPtr
  buffers_ : List AsyncLogging.BufferPtr
  newBuffer1 : AsyncLogging.BufferPtr
  newBuffer2 : AsyncLogging.BufferPtr
  buffersToWrite : List AsyncLogging.BufferPtr
  pc : LogPc
  /-- The calls of `output.append` so far. -/
  output : List LogChunk
  /-- History: the lines in the order in which `append` took the mutex. -/
  appended : List Line
  /-- History: the buffers of dropped batches. -/
  erased : List AsyncLogging.BufferPtr

namespace AsyncLogging

/-- After `start()`. -/
def start : AsyncLogging where
  running_ := true
  currentBuffer_ := some .empty
  nextBuffer_ := some .empty
  buffers_ := []
  newBuffer1 := some .empty
  newBuffer2 := some .empty
  buffersToWrite := []
  pc := .whileRunning
  output := []
  appended := []
  erased := []

def append (x : AsyncLogging) (logline : List UInt8) : Option AsyncLogging :=
  let line : Line := ⟨x.appended.length, logline⟩
  let y := { x with appended := x.appended ++ [line] }
  x.currentBuffer_.map fun current =>
    if current.avail > logline.length then
      { y with currentBuffer_ := some (current.append line) }
    else
      let fresh := x.nextBuffer_.getD .empty
      { y with
        buffers_ := x.buffers_ ++ [some current]
        currentBuffer_ := some (fresh.append line)
        nextBuffer_ := none }

def stop (x : AsyncLogging) : AsyncLogging := { x with running_ := false }

/-- The critical section after the wait. -/
def swap (x : AsyncLogging) : AsyncLogging :=
  { x with
    currentBuffer_ := x.newBuffer1
    newBuffer1 := none
    nextBuffer_ := if x.nextBuffer_.isSome then x.nextBuffer_ else x.newBuffer2
    newBuffer2 := if x.nextBuffer_.isSome then x.newBuffer2 else none
    buffersToWrite := x.buffers_ ++ [x.currentBuffer_]
    buffers_ := x.buffersToWrite
    pc := .trim }

/-- The text for `n` buffers, with the time as it was formatted. -/
def droppedMessage (now : String) (n : ℕ) : List UInt8 :=
  ("Dropped log messages at " ++ now ++ ", " ++ toString n ++ " larger buffers\n").toUTF8.toList.take
    255

def trim (x : AsyncLogging) (now : String) : Option AsyncLogging :=
  if x.buffersToWrite = [] then none
  else if x.buffersToWrite.length > 25 then
    some { x with
      output := x.output ++ [.dropped (droppedMessage now (x.buffersToWrite.length - 2))]
      buffersToWrite := x.buffersToWrite.take 2
      erased := x.erased ++ x.buffersToWrite.drop 2
      pc := .write 0 }
  else some { x with pc := .write 0 }

def write (x : AsyncLogging) (i : ℕ) : Option AsyncLogging :=
  match x.buffersToWrite[i]? with
  | some ptr => ptr.map fun b => { x with output := x.output ++ [.buffer b], pc := .write (i + 1) }
  | none => some { x with pc := .recycle }

/-- Move the last buffer of the batch, emptied, to where a pointer is null. -/
def refill (ptr : BufferPtr) (batch : List BufferPtr) : Option (BufferPtr × List BufferPtr) :=
  match ptr with
  | some b => some (some b, batch)
  | none => batch.getLast?.bind fun last => last.map fun b => (some b.reset, batch.dropLast)

def recycle (x : AsyncLogging) : Option AsyncLogging :=
  (refill x.newBuffer1 (x.buffersToWrite.take 2)).bind fun first =>
    (refill x.newBuffer2 first.2).map fun second =>
      { x with
        newBuffer1 := first.1
        newBuffer2 := second.1
        buffersToWrite := []
        pc := .whileRunning }

/-- The assertion on a spare buffer: it is there, and empty. -/
def spare (ptr : BufferPtr) : Bool := ptr.any fun b => b.length = 0

def threadFunc (x : AsyncLogging) (now : String) : Option AsyncLogging :=
  match x.pc with
  | .whileRunning =>
    if x.running_ then
      if spare x.newBuffer1 ∧ spare x.newBuffer2 ∧ x.buffersToWrite.isEmpty then
        some { x with pc := .lock }
      else none
    else some { x with pc := .exited }
  | .lock => if x.buffers_.isEmpty then some { x with pc := .waitForSeconds } else some x.swap
  | .waitForSeconds => some x.swap
  | .trim => x.trim now
  | .write i => x.write i
  | .recycle => x.recycle
  | .exited => none

end AsyncLogging

/-- A line appended by some thread, the call of `stop`, or the next step of the logging
thread, with the time it reads. -/
inductive LogAction where
  | append (logline : List UInt8)
  | stop
  | thread (now : String)

namespace AsyncLogging

def step (x : AsyncLogging) : LogAction → Option AsyncLogging
  | .append logline => x.append logline
  | .stop => some x.stop
  | .thread now => x.threadFunc now

end AsyncLogging

end ReactorNet
