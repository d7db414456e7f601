import ReactorNet.IntegerFormat
import ReactorNet.GuardedRuns

/-!
# The log stream in its fixed buffer

`data_` is the array with its bytes, `cur_` the position the stream writes at. A write
outside the array stands as `none`. An operand that does not fit is left out, where the
strings and the numbers have different rules for what fits. `D` is the type `double`, and
what `"%.12g"` makes of one is a parameter; a `float` is converted to it.
-/
namespace ReactorNet

namespace detail

open VectorStorage PositionalNumerals DecimalNumerals GuardedRuns

def kSmallBuffer : ℕ := 4000

structure FixedBuffer where
  data_ : List UInt8
  cur_ : ℕ

namespace FixedBuffer

variable (b : FixedBuffer)

/-- A new buffer; the bytes of its array are not initialized. -/
def fresh (data : List UInt8) : FixedBuffer := ⟨data, 0⟩

/-- The position that `end()` designates. -/
def size : ℕ := b.data_.length

def avail : ℤ := (b.size : ℤ) - b.cur_

def add (len : ℕ) : FixedBuffer := { b with cur_ := b.cur_ + len }

def append (buf : List UInt8) : Option FixedBuffer :=
  if toSize b.avail > buf.length then
    (write b.data_ b.cur_ buf).map fun data => add ⟨data, b.cur_⟩ buf.length
  else some b

/-- The NUL behind the content, for a debugger. -/
def debugString : Option FixedBuffer :=
  (write b.data_ b.cur_ [0]).map fun data => ⟨data, b.cur_⟩

/-- The bytes from `data()` on that `length()` counts. -/
def content : List UInt8 := b.data_.take b.cur_

end FixedBuffer

end detail

namespace LogStream

open VectorStorage PositionalNumerals DecimalNumerals GuardedRuns detail

def kMaxNumericSize : ℤ := 32

/-- What stands behind one `<<`. A `const char*` is null or the bytes it points to, up to
the terminating NUL or beyond; `bytes` is what `LogStream::append` is called with for a
`Fmt`, a `T` or a `SourceFile`. -/
inductive Operand (D : Type*) where
  | bool (v : Bool)
  | char (v : UInt8)
  | cString (str : Option (List UInt8))
  | string (v : List UInt8)
  | stringPiece (v : List UInt8)
  | bytes (v : List UInt8)
  | int (t : IntType) (v : {v : ℤ // t.Holds v})
  | pointer (p : UInt64)
  | double (v : D)

/-- The bytes before the terminating NUL. -/
def cStringBytes (str : List UInt8) : List UInt8 := str.takeWhile (· ≠ 0)

def formatInteger (t : IntType) (v : ℤ) (b : detail.FixedBuffer) : Option detail.FixedBuffer :=
  if b.avail ≥ kMaxNumericSize then
    (convert t b.data_ b.cur_ v).map fun (data, len) => .add ⟨data, b.cur_⟩ len
  else some b

def formatPointer (p : UInt64) (b : detail.FixedBuffer) : Option detail.FixedBuffer :=
  if b.avail ≥ kMaxNumericSize then
    (write b.data_ b.cur_ [byte '0', byte 'x']).bind fun data =>
    (convertHex data (b.cur_ + 2) p).map fun (data, len) => .add ⟨data, b.cur_⟩ (len + 2)
  else some b

/-- `snprintf` writes as much of the text as leaves room for the NUL, and returns the length of
all of it. -/
def formatDouble (text : List UInt8) (b : detail.FixedBuffer) : Option detail.FixedBuffer :=
  if b.avail ≥ kMaxNumericSize then
    (write b.data_ b.cur_ (text.take (kMaxNumericSize.toNat - 1) ++ [0])).map fun data =>
      .add ⟨data, b.cur_⟩ text.length
  else some b

variable {D : Type*} (g12 : D → List UInt8)

/-- `operator<<` -/
def put (b : detail.FixedBuffer) : Operand D → Option detail.FixedBuffer
  | .bool v => b.append [if v then byte '1' else byte '0']
  | .char v => b.append [v]
  | .cString none => b.append ("(null)".toList.map byte)
  | .cString (some str) => b.append (cStringBytes str)
  | .string v | .stringPiece v | .bytes v => b.append v
  | .int t v => formatInteger t.promoted v.val b
  | .pointer p => formatPointer p b
  | .double v => formatDouble (g12 v) b

inductive Action (D : Type*) where
  | put (op : Operand D)
  | debugString

def step (b : detail.FixedBuffer) : Action D → Option detail.FixedBuffer
  | .put op => LogStream.put g12 b op
  | .debugString => b.debugString

/-! ## Operands as text -/

/-- The full text of an operand. -/
def render : Operand D → List UInt8
  | .bool v => [if v then byte '1' else byte '0']
  | .char v => [v]
  | .cString none => "(null)".toList.map byte
  | .cString (some str) => cStringBytes str
  | .string v | .stringPiece v | .bytes v => v
  | .int _ v => numeral v.val
  | .pointer p => [byte '0', byte 'x'] ++ hexNumeral p.toNat
  | .double v => g12 v

/-- Whether an operand fits into the room that is left: a string has to leave one byte, a
number asks for the room of the longest one. -/
def Fits (room : ℕ) : Operand D → Prop
  | .bool _ | .char _ => 1 < room
  | .cString none => 6 < room
  | .cString (some str) => (cStringBytes str).length < room
  | .string v | .stringPiece v | .bytes v => v.length < room
  | .int _ _ | .pointer _ | .double _ => 32 ≤ room

instance (room : ℕ) (op : Operand D) : Decidable (Fits room op) :=
  match op with
  | .bool _ | .char _ => inferInstanceAs (Decidable (1 < room))
  | .cString none => inferInstanceAs (Decidable (6 < room))
  | .cString (some str) => inferInstanceAs (Decidable ((cStringBytes str).length < room))
  | .string v | .stringPiece v | .bytes v => inferInstanceAs (Decidable (v.length < room))
  | .int _ _ | .pointer _ | .double _ => inferInstanceAs (Decidable (32 ≤ room))

/-- The operands that fit at the moment they are written. -/
def fitted (room : ℕ) : List (Operand D) → List (Operand D)
  | [] => []
  | op :: ops =>
    if Fits room op then op :: fitted (room - (render g12 op).length) ops else fitted room ops

/-- The text that a sequence of operands leaves in the given room. -/
def text (room : ℕ) (ops : List (Operand D)) : List UInt8 :=
  (fitted g12 room ops).flatMap (render g12)

/-- The operands among the actions. -/
def operands (acts : List (Action D)) : List (Operand D) :=
  acts.filterMap fun
    | .put op => some op
    | .debugString => none

theorem fitted_sublist (room : ℕ) (ops : List (Operand D)) : (fitted g12 room ops).Sublist ops := by
  induction ops generalizing room with
  | nil => exact .slnil
  | cons op ops ih =>
    rw [fitted]
    split
    · exact (ih _).cons_cons op
    · exact (ih _).cons op

theorem text_cons (room : ℕ) (op : Operand D) (ops : List (Operand D)) :
    text g12 room (op :: ops) =
      if Fits room op then render g12 op ++ text g12 (room - (render g12 op).length) ops
      else text g12 room ops := by
  rw [text, fitted]
  split
  · rw [List.flatMap_cons]
    rfl
  · rfl

theorem text_cons_fits {room : ℕ} {op : Operand D} (h : Fits room op) (ops : List (Operand D)) :
    text g12 room (op :: ops) = render g12 op ++ text g12 (room - (render g12 op).length) ops := by
  rw [text_cons, if_pos h]

theorem text_cons_drops {room : ℕ} {op : Operand D} (h : ¬ Fits room op) (ops : List (Operand D)) :
    text g12 room (op :: ops) = text g12 room ops := by
  rw [text_cons, if_neg h]

/-- The part of an operand's text that gets into the given room: all of it or nothing. -/
def kept (room : ℕ) (op : Operand D) : List UInt8 := if Fits room op then render g12 op else []

theorem text_cons_kept (room : ℕ) (op : Operand D) (ops : List (Operand D)) :
    text g12 room (op :: ops) =
      kept g12 room op ++ text g12 (room - (kept g12 room op).length) ops := by
  rw [text_cons, kept]
  split
  · rfl
  · rw [List.nil_append, List.length_nil, Nat.sub_zero]

theorem text_append (room : ℕ) (xs ys : List (Operand D)) :
    text g12 room (xs ++ ys) =
      text g12 room xs ++ text g12 (room - (text g12 room xs).length) ys := by
  induction xs generalizing room with
  | nil => rfl
  | cons op ops ih =>
    rw [List.cons_append, text_cons_kept, text_cons_kept, ih, List.length_append,
      List.append_assoc, Nat.sub_sub]

/-- The longest numeral of an integer has twenty digits and a sign. -/
theorem length_numeral_int (t : IntType) (v : {v : ℤ // t.Holds v}) :
    (numeral v.val).length ≤ 21 := by
  have hlt := v.property.natAbs_lt
  exact length_numeral_le (k := 20) (by decide) (by omega)

theorem length_hexNumeral (p : UInt64) : (hexNumeral p.toNat).length ≤ 16 := by
  have hlt : p.toNat < 16 ^ 16 := p.toNat_lt
  rw [hexNumeral, List.length_map]
  exact (Nat.length_toDigits_le_iff (by decide) (by decide)).mpr hlt

/-- What fits leaves at least one byte. -/
theorem length_render_lt (hg : ∀ v, ((g12 v).length : ℤ) < kMaxNumericSize) {room : ℕ}
    {op : Operand D} (h : Fits room op) : (render g12 op).length < room := by
  cases op with
  | bool v | char v => exact h
  | cString str =>
    cases str with
    | none => exact h
    | some str => exact h
  | string v | stringPiece v | bytes v => exact h
  | int t v =>
    have hlen := length_numeral_int t v
    have hroom : 32 ≤ room := h
    change (numeral v.val).length < room
    omega
  | pointer p =>
    have hlen := length_hexNumeral p
    have hroom : 32 ≤ room := h
    change ([byte '0', byte 'x'] ++ hexNumeral p.toNat).length < room
    rw [List.length_append, List.length_cons, List.length_singleton]
    omega
  | double v =>
    have hlen : ((g12 v).length : ℤ) < 32 := hg v
    have hroom : 32 ≤ room := h
    change (g12 v).length < room
    omega

theorem length_kept_lt (hg : ∀ v, ((g12 v).length : ℤ) < kMaxNumericSize) {room : ℕ}
    (hroom : 0 < room) (op : Operand D) : (kept g12 room op).length < room := by
  rw [kept]
  split
  · next h => exact length_render_lt g12 hg h
  · exact hroom

/-- One byte is always left. -/
theorem length_text_lt (hg : ∀ v, ((g12 v).length : ℤ) < kMaxNumericSize) {room : ℕ}
    (hroom : 0 < room) (ops : List (Operand D)) : (text g12 room ops).length < room := by
  induction ops generalizing room with
  | nil => exact hroom
  | cons op ops ih =>
    have hkept := length_kept_lt g12 hg hroom op
    have hpos : 0 < room - (kept g12 room op).length := Nat.sub_pos_of_lt hkept
    have hrest := ih hpos
    rw [text_cons_kept, List.length_append]
    omega

/-! ## The memory carries the text -/

/-- The stream's position lies inside the array, and one byte of it is always left. -/
structure Inside (b : detail.FixedBuffer) : Prop where
  size_eq : b.size = kSmallBuffer
  cur_lt : b.cur_ < b.size

/-- The room that is left. -/
def room (b : detail.FixedBuffer) : ℕ := b.size - b.cur_

namespace Inside

variable {b : detail.FixedBuffer} (h : Inside b)
include h

theorem avail_eq : b.avail = room b := by
  have := h.cur_lt
  rw [detail.FixedBuffer.avail, room]
  omega

theorem toSize_avail : toSize b.avail = room b := by
  have hsize := h.size_eq
  have hroom : room b ≤ 4000 := by
    rw [room, hsize]
    exact Nat.sub_le _ _
  rw [h.avail_eq, toSize_eq (by omega) (by omega), Int.toNat_natCast]

/-- The state after bytes have been written at `cur_`, of which the first `n` count. -/
theorem written (bs : List UInt8) (n : ℕ) (hn : n ≤ bs.length) (hroom : bs.length ≤ room b)
    (hlt : n < room b) :
    Inside ⟨overwrite b.data_ b.cur_ bs, b.cur_ + n⟩ ∧
      detail.FixedBuffer.content ⟨overwrite b.data_ b.cur_ bs, b.cur_ + n⟩ =
        b.content ++ bs.take n := by
  have hcur := h.cur_lt
  simp only [room, detail.FixedBuffer.size] at hroom hlt hcur
  have hlength : (overwrite b.data_ b.cur_ bs).length = b.data_.length :=
    length_overwrite (by omega)
  refine ⟨⟨hlength.trans h.size_eq, ?_⟩, ?_⟩
  · rw [detail.FixedBuffer.size, hlength]
    change b.cur_ + n < _
    omega
  · exact take_overwrite (Nat.le_of_lt hcur) hn

theorem write_room (bs : List UInt8) (hroom : bs.length ≤ room b) :
    write b.data_ b.cur_ bs = some (overwrite b.data_ b.cur_ bs) := by
  have hcur := h.cur_lt
  simp only [room, detail.FixedBuffer.size] at hroom hcur
  exact write_eq (by omega)

theorem append_fits {bs : List UInt8} (hlt : bs.length < room b) :
    ∃ b', b.append bs = some b' ∧ Inside b' ∧ b'.content = b.content ++ bs := by
  have hwritten := h.written bs bs.length (Nat.le_refl _) (Nat.le_of_lt hlt) hlt
  rw [List.take_length] at hwritten
  refine ⟨_, ?_, hwritten⟩
  rw [detail.FixedBuffer.append, h.toSize_avail, if_pos hlt, h.write_room bs (Nat.le_of_lt hlt)]
  rfl

theorem append_drops {bs : List UInt8} (hge : ¬ bs.length < room b) : b.append bs = some b := by
  rw [detail.FixedBuffer.append, h.toSize_avail, if_neg hge]

theorem formatInteger_fits (t : IntType) (v : {v : ℤ // t.Holds v}) (hroom : 32 ≤ room b) :
    ∃ b', formatInteger t.promoted v.val b = some b' ∧ Inside b' ∧
      b'.content = b.content ++ numeral v.val := by
  have hlen := length_numeral_int t v
  have hbytes : (numeral v.val ++ [0]).length = (numeral v.val).length + 1 := by
    rw [List.length_append, List.length_singleton]
  have hwritten := h.written (numeral v.val ++ [0]) (numeral v.val).length
    (by omega) (by omega) (by omega)
  rw [List.take_left] at hwritten
  refine ⟨_, ?_, hwritten⟩
  have hmem : b.cur_ + (numeral v.val).length + 1 ≤ b.data_.length := by
    simp only [room, detail.FixedBuffer.size] at hroom
    omega
  rw [formatInteger, h.avail_eq, if_pos (by simp only [kMaxNumericSize]; omega),
    convert_eq v.property.promoted hmem]
  rfl

theorem formatPointer_fits (p : UInt64) (hroom : 32 ≤ room b) :
    ∃ b', formatPointer p b = some b' ∧ Inside b' ∧
      b'.content = b.content ++ ([byte '0', byte 'x'] ++ hexNumeral p.toNat) := by
  have hlen := length_hexNumeral p
  have hbytes : ([byte '0', byte 'x'] ++ hexNumeral p.toNat ++ [0]).length =
      (hexNumeral p.toNat).length + 3 := by
    simp only [List.length_append, List.length_cons, List.length_nil]
    omega
  have hwritten := h.written ([byte '0', byte 'x'] ++ hexNumeral p.toNat ++ [0])
    ((hexNumeral p.toNat).length + 2) (by omega) (by omega) (by omega)
  have htake : ([byte '0', byte 'x'] ++ hexNumeral p.toNat ++ [0]).take
      ((hexNumeral p.toNat).length + 2) = [byte '0', byte 'x'] ++ hexNumeral p.toNat := by
    apply List.take_left'
    simp only [List.length_append, List.length_cons, List.length_nil]
    omega
  rw [htake] at hwritten
  refine ⟨_, ?_, hwritten⟩
  have hmem : b.cur_ + 2 + (hexNumeral p.toNat ++ [0]).length ≤ b.data_.length := by
    rw [List.length_append, List.length_singleton]
    simp only [room, detail.FixedBuffer.size] at hroom
    omega
  have hfirst : (overwrite b.data_ b.cur_ [byte '0', byte 'x']).length = b.data_.length := by
    apply length_overwrite
    simp only [List.length_cons, List.length_nil]
    omega
  rw [formatPointer, h.avail_eq, if_pos (by simp only [kMaxNumericSize]; omega),
    h.write_room _ (by simp only [List.length_cons, List.length_nil]; omega), Option.bind_some,
    convertHex_eq (by rw [hfirst]; rw [List.length_append] at hmem; exact hmem)]
  change some (detail.FixedBuffer.add ⟨overwrite (overwrite b.data_ b.cur_ [byte '0', byte 'x'])
    (b.cur_ + [byte '0', byte 'x'].length) (hexNumeral p.toNat ++ [0]), b.cur_⟩ _) = _
  rw [overwrite_overwrite_end _ _ _ _ hmem, List.append_assoc]
  rfl

theorem formatDouble_fits {bs : List UInt8} (hbs : (bs.length : ℤ) < kMaxNumericSize)
    (hroom : 32 ≤ room b) :
    ∃ b', formatDouble bs b = some b' ∧ Inside b' ∧ b'.content = b.content ++ bs := by
  simp only [kMaxNumericSize] at hbs
  have hbytes : (bs ++ [0]).length = bs.length + 1 := by
    rw [List.length_append, List.length_singleton]
  have hwritten := h.written (bs ++ [0]) bs.length (by omega) (by omega) (by omega)
  rw [List.take_left] at hwritten
  refine ⟨_, ?_, hwritten⟩
  have htake : bs.take (kMaxNumericSize.toNat - 1) = bs := by
    apply List.take_of_length_le
    simp only [kMaxNumericSize]
    omega
  rw [formatDouble, h.avail_eq, if_pos (by simp only [kMaxNumericSize]; omega), htake,
    h.write_room _ (by omega)]
  rfl

theorem number_drops (hroom : ¬ 32 ≤ room b) : ¬ b.avail ≥ kMaxNumericSize := by
  rw [h.avail_eq]
  simp only [kMaxNumericSize]
  omega

/-- One `<<`: nothing is written outside the array, and the operand is there as a whole or
not at all. -/
theorem put (hg : ∀ v, ((g12 v).length : ℤ) < kMaxNumericSize) (op : Operand D) :
    ∃ b', LogStream.put g12 b op = some b' ∧ Inside b' ∧
      b'.content = b.content ++ kept g12 (room b) op := by
  by_cases hfits : Fits (room b) op
  · rw [kept, if_pos hfits]
    cases op with
    | bool v | char v => exact h.append_fits hfits
    | cString str =>
      cases str with
      | none => exact h.append_fits hfits
      | some str => exact h.append_fits hfits
    | string v | stringPiece v | bytes v => exact h.append_fits hfits
    | int t v => exact h.formatInteger_fits t v hfits
    | pointer p => exact h.formatPointer_fits p hfits
    | double v => exact h.formatDouble_fits (hg v) hfits
  · rw [kept, if_neg hfits, List.append_nil]
    refine ⟨b, ?_, h, rfl⟩
    cases op with
    | bool v | char v => exact h.append_drops hfits
    | cString str =>
      cases str with
      | none => exact h.append_drops hfits
      | some str => exact h.append_drops hfits
    | string v | stringPiece v | bytes v => exact h.append_drops hfits
    | int t v => exact if_neg (h.number_drops hfits)
    | pointer p => exact if_neg (h.number_drops hfits)
    | double v => exact if_neg (h.number_drops hfits)

theorem debugString :
    ∃ b', b.debugString = some b' ∧ Inside b' ∧ b'.content = b.content := by
  have hpos : 0 < room b := by
    have := h.cur_lt
    rw [room]
    omega
  have hwritten := h.written [0] 0 (Nat.zero_le _) hpos hpos
  rw [List.take_zero, List.append_nil] at hwritten
  refine ⟨_, ?_, hwritten⟩
  rw [detail.FixedBuffer.debugString, h.write_room [0] hpos]
  rfl

theorem room_eq : room b = kSmallBuffer - b.content.length := by
  have hcur := h.cur_lt
  simp only [detail.FixedBuffer.size] at hcur
  rw [room, h.size_eq, detail.FixedBuffer.content, List.length_take, Nat.min_eq_left (by omega)]

end Inside

/-- From any state of the stream on: every action is defined, and the content grows by the
text of the operands that fit. -/
theorem step_run (hg : ∀ v, ((g12 v).length : ℤ) < kMaxNumericSize) {b : detail.FixedBuffer}
    (h : Inside b) (acts : List (Action D)) :
    ∃ b', run (step g12) b acts = some b' ∧ Inside b' ∧
      b'.content = b.content ++ text g12 (room b) (operands acts) := by
  induction acts generalizing b with
  | nil => exact ⟨b, rfl, h, (List.append_nil _).symm⟩
  | cons act acts ih =>
    cases act with
    | debugString =>
      obtain ⟨b', hs, hb, hc⟩ := h.debugString
      obtain ⟨b'', hr, hb', hc'⟩ := ih hb
      refine ⟨b'', run_cons_eq_some.mpr ⟨b', hs, hr⟩, hb', ?_⟩
      rw [hc', hb.room_eq, hc, ← h.room_eq]
      rfl
    | put op =>
      obtain ⟨b', hs, hb, hc⟩ := h.put g12 hg op
      obtain ⟨b'', hr, hb', hc'⟩ := ih hb
      refine ⟨b'', run_cons_eq_some.mpr ⟨b', hs, hr⟩, hb', ?_⟩
      change _ = b.content ++ text g12 (room b) (op :: operands acts)
      rw [hc', hb.room_eq, hc, text_cons_kept, List.length_append, ← Nat.sub_sub, ← h.room_eq,
        List.append_assoc]

theorem inside_fresh {data : List UInt8} (h : data.length = kSmallBuffer) :
    Inside (.fresh data) where
  size_eq := h
  cur_lt := by
    rw [detail.FixedBuffer.size, detail.FixedBuffer.fresh, h]
    exact Nat.zero_lt_succ 3999

/-- Every sequence of operands on a new stream, also with `debugString` in between: no byte
is written outside `data_`, `cur_` stays below `end()`, and the content is the full texts
of the operands that fitted when they were written, in order. -/
theorem stream_inside (hg : ∀ v, ((g12 v).length : ℤ) < kMaxNumericSize) {data : List UInt8}
    (hdata : data.length = kSmallBuffer) (acts : List (Action D)) :
    ∃ b, run (step g12) (.fresh data) acts = some b ∧ b.size = kSmallBuffer ∧ b.cur_ < b.size ∧
      b.content = (fitted g12 kSmallBuffer (operands acts)).flatMap (render g12) ∧
      (fitted g12 kSmallBuffer (operands acts)).Sublist (operands acts) := by
  obtain ⟨b, hr, hb, hc⟩ := step_run g12 hg (inside_fresh hdata) acts
  refine ⟨b, hr, hb.size_eq, hb.cur_lt, ?_, fitted_sublist g12 _ _⟩
  rw [hc, (inside_fresh hdata).room_eq]
  rfl

/-- A negative integer, a null string and a pointer, where every double is written as one
digit. -/
theorem stream_inside_three :
    ∃ b, run (step fun _ : Unit => [byte '0']) (.fresh (List.replicate kSmallBuffer 7))
        [.put (.int .short ⟨-5, by decide⟩), .debugString, .put (.cString none), .put (.pointer 255),
          .put (.double ())] = some b ∧
      b.content = (fitted (fun _ => [byte '0']) kSmallBuffer
        [.int .short ⟨-5, by decide⟩, .cString none, .pointer 255, .double ()]).flatMap
          (render fun _ => [byte '0']) := by
  obtain ⟨b, hr, -, -, hc, -⟩ := stream_inside (fun _ : Unit => [byte '0']) (fun _ => by decide)
    (List.length_replicate (n := kSmallBuffer) (a := 7))
    [.put (.int .short ⟨-5, by decide⟩), .debugString, .put (.cString none), .put (.pointer 255),
      .put (.double ())]
  exact ⟨b, hr, hc⟩

end LogStream

end ReactorNet
