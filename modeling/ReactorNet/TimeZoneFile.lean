import ReactorNet.LocalTime
import ReactorNet.NetworkByteOrder

/-!
# Zone files

`readTimeZoneFile` on the bytes of a file, with the data it has stored when it stops. Memory
for the vectors and for the buffer of `readBytes` is always there.
-/
namespace ReactorNet

namespace TimeZone

open NetworkByteOrder

/-- Why reading stops: a `logic_error`, which is caught, or an operation without defined
behaviour, an array of negative size or an index outside a vector. -/
inductive Stop where
  | logic_error (what : String)
  | negativeSize
  | outOfRange
deriving DecidableEq

/-- The bytes not yet read, and what `data` points to. -/
structure FileState where
  rest : List UInt8
  data : Data

/-- What is stored in the data stays there when an exception is thrown. -/
abbrev Reading := EStateM Stop FileState

def Data.empty : Data := ⟨[], [], ""⟩

/-- One character a byte. -/
def string (buf : List UInt8) : String := String.ofList (buf.map fun b => Char.ofNat b.toNat)

/-! ## The class `File` -/

def fread (n : ℕ) : Reading (List UInt8) :=
  fun s => .ok (s.rest.take n) { s with rest := s.rest.drop n }

def readBytes (n : ℤ) : Reading String := do
  if n < 0 then throw .negativeSize
  let buf ← fread n.toNat
  if buf.length ≠ n.toNat then throw (.logic_error "no enough data")
  return string buf

def readInt32 : Reading ℤ := do
  let x ← fread 4
  if x.length ≠ 4 then throw (.logic_error "bad int32_t data")
  return (networkToHost 4 x).toInt

def readUInt8 : Reading ℕ := do
  let x ← fread 1
  if x.length ≠ 1 then throw (.logic_error "bad uint8_t data")
  return fromBigEndian x

/-! ## `readTimeZoneFile` -/

/-- `vector::reserve`, which throws a `length_error` for a size that is no size. -/
def reserve (n : ℤ) : Reading Unit :=
  if n < 0 then throw (.logic_error "vector::reserve") else return

/-- A loop that pushes back what it reads. -/
def readAll {α : Type} (read : Reading α) : ℕ → Reading (List α)
  | 0 => return []
  | n + 1 => do
    let x ← read
    let xs ← readAll read n
    return x :: xs

/-- What the loop over `typecnt` reads in one turn. -/
def readLocaltime : Reading Localtime := do
  let gmtoff ← readInt32
  let isdst ← readUInt8
  let abbrind ← readUInt8
  return ⟨gmtoff, decide (isdst ≠ 0), abbrind⟩

def readLocaltimes : ℕ → Reading Unit
  | 0 => return
  | n + 1 => do
    let l ← readLocaltime
    modify fun s => { s with data.localtimes := s.data.localtimes ++ [l] }
    readLocaltimes n

/-- The loop over `trans[i]` and `localtimes[i]`. -/
def addTransitions : List (ℤ × ℕ) → Reading Unit
  | [] => return
  | (gmttime, localIdx) :: rest => do
    match (← get).data.localtimes[localIdx]? with
    | none => throw .outOfRange
    | some l =>
      modify fun s => { s with
        data.transitions := s.data.transitions ++ [⟨gmttime, gmttime + l.gmtOffset, localIdx⟩] }
      addTransitions rest

/-- The header behind its first word: `timecnt`, `typecnt` and `charcnt`. -/
def readCounts : Reading (ℤ × ℤ × ℤ) := do
  let _version ← readBytes 1
  let _ ← readBytes 15
  let _isgmtcnt ← readInt32
  let _isstdcnt ← readInt32
  let _leapcnt ← readInt32
  let timecnt ← readInt32
  let typecnt ← readInt32
  let charcnt ← readInt32
  return (timecnt, typecnt, charcnt)

/-- The body of the `try` block but for its last assignment; the result is `charcnt`. -/
def readTables : Reading ℤ := do
  let head ← readBytes 4
  if head ≠ "TZif" then throw (.logic_error "bad head")
  let (timecnt, typecnt, charcnt) ← readCounts
  reserve timecnt
  let trans ← readAll readInt32 timecnt.toNat
  let localtimes ← readAll readUInt8 timecnt.toNat
  readLocaltimes typecnt.toNat
  addTransitions (trans.zip localtimes)
  return charcnt

def readContent : Reading Unit := do
  let charcnt ← readTables
  let abbreviation ← readBytes charcnt
  modify fun s => { s with data.abbreviation := abbreviation }

/-- The return value and the data, for the bytes of the file if it can be opened. -/
def readTimeZoneFile (zonefile : Option (List UInt8)) (data : Data) : Except Stop (Bool × Data) :=
  match zonefile with
  | none => .ok (true, data)
  | some content =>
    match readContent.run ⟨content, data⟩ with
    | .ok _ s => .ok (true, s.data)
    | .error (.logic_error _) s => .ok (true, s.data)
    | .error stop _ => .error stop

end TimeZone

structure TimeZone where
  data_ : Option TimeZone.Data

namespace TimeZone

def construct (zonefile : Option (List UInt8)) : Except Stop TimeZone := do
  let (success, data) ← readTimeZoneFile zonefile Data.empty
  return ⟨if success then some data else none⟩

def valid (z : TimeZone) : Bool := z.data_.isSome

end TimeZone

end ReactorNet
