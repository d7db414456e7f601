import Mathlib.Algebra.BigOperators.Group.List.Basic
import ReactorNet.WireFormat

/-!
# Message formats

Messages of one type are a monoid under merging. A field read alone is a message, and reading a
field into a message merges it. Then reading is a homomorphism from byte strings to messages,
and what a message writes can be put together from what its parts write.
-/
namespace ReactorNet

open TaggedFields WireFormat

/-- What generated code does for a type of messages. -/
structure MessageFormat (w : WireFormat) (M : Type) where
  /-- The message that a field amounts to; a tag without one ends the message. -/
  piece : BitVec 32 → Option (Reader M)
  serialize : M → List UInt8
  byteSize : M → ℕ
  /-- The unknown fields are such as reading a message leaves. -/
  Sound : M → Prop

namespace MessageFormat

variable {w : WireFormat} {M : Type} [Monoid M] (f : MessageFormat w M)

def field (m : M) (tag : BitVec 32) (bs : List UInt8) : FieldStep M :=
  match f.piece tag with
  | some r => .ofOption (r.map (m * ·) bs)
  | none => .stop

/-- The bytes read into a message. -/
def parseInto (m : M) (bs : List UInt8) : Parsed M := parse w.ReadTag f.field m bs

/-- Reading `bytes` merges `x`. -/
def Writes (bytes : List UInt8) (x : M) : Prop :=
  ∀ m rest, f.parseInto m (bytes ++ rest) = f.parseInto (m * x) rest

structure Lawful : Prop where
  piece_tokens : ∀ tag r, f.piece tag = some r → r.Tokens
  serialize_writes : ∀ x, f.Sound x → (f.serialize x).length ≤ maxSize → f.Writes (f.serialize x) x
  byteSize_eq : ∀ x, f.byteSize x = (f.serialize x).length
  sound_one : f.Sound 1
  sound_mul : ∀ x y, f.Sound x → f.Sound y → f.Sound (x * y)
  sound_piece : ∀ tag r bs x rest, f.piece tag = some r → r bs = some (x, rest) → f.Sound x

/-- A nested message. -/
def read : Reader M := w.ParseMessage (f.parseInto 1)

def write (m : M) : List UInt8 := w.InternalWriteMessage (f.byteSize m) (f.serialize m)

variable {f}

theorem field_eq {tag : BitVec 32} {r : Reader M} (h : f.piece tag = some r) (m : M)
    (bs : List UInt8) : f.field m tag bs = .ofOption (r.map (m * ·) bs) := by
  rw [field, h]

theorem field_eq_next {m m' : M} {tag : BitVec 32} {bs rest : List UInt8} :
    f.field m tag bs = .next m' rest ↔
      ∃ r x, f.piece tag = some r ∧ r bs = some (x, rest) ∧ m * x = m' := by
  constructor
  · intro h
    cases hpiece : f.piece tag with
    | none =>
      rw [field, hpiece] at h
      cases h
    | some r =>
      rw [field_eq hpiece] at h
      cases hread : r.map (m * ·) bs with
      | none =>
        rw [hread] at h
        cases h
      | some read =>
        rw [hread] at h
        cases h
        obtain ⟨x, hx, hm⟩ := Reader.map_eq_some.mp hread
        exact ⟨r, x, rfl, hx, hm⟩
  · intro ⟨r, x, hpiece, hx, hm⟩
    rw [field_eq hpiece, Reader.map_eq_some.mpr ⟨x, hx, hm⟩]
    rfl

theorem field_tokens (h : ∀ tag r, f.piece tag = some r → r.Tokens) : FieldTokens f.field := by
  intro m tag bs m' rest hfield
  obtain ⟨r, x, hpiece, hx, hm⟩ := field_eq_next.mp hfield
  obtain ⟨token, hbs, htoken⟩ := h tag r hpiece _ _ _ hx
  exact ⟨token, hbs, fun more => field_eq_next.mpr ⟨r, x, hpiece, htoken more, hm⟩⟩

/-- Merging commutes with reading a field. -/
theorem field_mul (m x : M) (tag : BitVec 32) (bs : List UInt8) :
    f.field (m * x) tag bs = (f.field x tag bs).map (m * ·) := by
  cases hpiece : f.piece tag with
  | none =>
    rw [field, field, hpiece]
    rfl
  | some r =>
    rw [field_eq hpiece, field_eq hpiece]
    cases hread : r bs with
    | none =>
      rw [Reader.map, Reader.map, hread]
      rfl
    | some read =>
      rw [Reader.map, Reader.map, hread]
      exact congrArg (FieldStep.next · read.2) (mul_assoc m x read.1)

/-! ## Writing -/

theorem writes_nil : f.Writes [] 1 := by
  intro m rest
  rw [mul_one]
  rfl

theorem Writes.append {a b : List UInt8} {x y : M} (ha : f.Writes a x) (hb : f.Writes b y) :
    f.Writes (a ++ b) (x * y) := by
  intro m rest
  rw [List.append_assoc, ha, hb, mul_assoc]

theorem writes_flatMap {α : Type*} {write : α → List UInt8} {one : α → M} {as : List α}
    (h : ∀ a ∈ as, f.Writes (write a) (one a)) : f.Writes (as.flatMap write) (as.map one).prod := by
  induction as with
  | nil => exact writes_nil
  | cons a as ih =>
    rw [List.flatMap_cons, List.map_cons, List.prod_cons]
    exact (h a List.mem_cons_self).append (ih fun b hb => h b (List.mem_cons_of_mem _ hb))

theorem writes_optionalField {α : Type*} {tag : UInt8} {write : α → List UInt8} {one : α → M}
    {a : Option α} (h : ∀ v ∈ a, f.Writes (tag :: write v) (one v)) :
    f.Writes (optionalField tag write a) (a.elim 1 one) := by
  cases a with
  | none => exact writes_nil
  | some v => exact h v rfl

section Laws

variable (hw : w.Lawful) (htokens : ∀ tag r, f.piece tag = some r → r.Tokens)
include hw htokens

/-- A field behind its tag byte. -/
theorem writes_field {tag : UInt8} (hpos : 0 < tag) (hlt : tag < 128) {r : Reader M}
    (hpiece : f.piece (BitVec.ofNat 32 tag.toNat) = some r) {bytes : List UInt8} {x : M}
    (h : ∀ rest, r (bytes ++ rest) = some (x, rest)) : f.Writes (tag :: bytes) x := by
  intro m rest
  exact parse_next hw.tag_advances (field_tokens htokens).shrinks (hw.tag_byte tag _ hpos hlt)
    (field_eq_next.mpr ⟨r, x, hpiece, h rest, rfl⟩)

/-- An unknown field that was read before. -/
theorem writes_unknown {tag : BitVec 32} {bs rest : List UInt8} {u : w.UnknownField}
    (hread : w.UnknownFieldParse tag bs = some (u, rest)) {one : w.UnknownField → M}
    (hpiece : f.piece tag = some ((w.UnknownFieldParse tag).map one)) :
    f.Writes (w.WriteUnknown u) (one u) := by
  obtain ⟨head, body, hwrite, hhead, hbody⟩ := hw.unknown_write _ _ _ _ hread
  intro m more
  rw [hwrite, List.append_assoc]
  exact parse_next hw.tag_advances (field_tokens htokens).shrinks (hhead _) (field_eq_next.mpr
    ⟨_, one u, hpiece, Reader.map_eq_some.mpr ⟨u, hbody more, rfl⟩, rfl⟩)

end Laws

/-! ## Reading -/

namespace Lawful

variable (hf : f.Lawful)
include hf

theorem shrinks : Shrinks f.field := (field_tokens hf.piece_tokens).shrinks

/-- Reading into a message is reading and merging. -/
theorem parseInto_eq (hw : w.Lawful) (m : M) (bs : List UInt8) :
    f.parseInto m bs = (f.parseInto 1 bs).map (m * ·) := by
  have h := parse_merge hw.tag_advances hf.shrinks (field_mul m) 1 bs
  rw [mul_one] at h
  exact h

theorem sound_parse (hw : w.Lawful) {bs : List UInt8} {x : M}
    (h : f.parseInto 1 bs = .complete x) : f.Sound x := by
  apply parse_complete_induct (P := fun m _ x => f.Sound m → f.Sound x) hw.tag_advances hf.shrinks
    _ _ h hf.sound_one
  · intro m hm
    exact hm
  · intro m tag bs rest m' more result _ hstep _ ih hm
    obtain ⟨r, y, hpiece, hy, rfl⟩ := field_eq_next.mp hstep
    exact ih (hf.sound_mul m y hm (hf.sound_piece _ _ _ _ _ hpiece hy))

/-- What is written for a message is read as the message. -/
theorem parse_serialize {x : M} (hx : f.Sound x) (hsize : f.byteSize x ≤ maxSize) :
    f.parseInto 1 (f.serialize x) = .complete x := by
  rw [hf.byteSize_eq] at hsize
  have h := hf.serialize_writes x hx hsize 1 []
  rw [List.append_nil, one_mul] at h
  exact h

/-- Byte strings one behind the other are read as the messages merged. -/
theorem parse_append (hw : w.Lawful) {a : List UInt8} {x : M}
    (h : f.parseInto 1 a = .complete x) (b : List UInt8) :
    f.parseInto 1 (a ++ b) = (f.parseInto 1 b).map (x * ·) := by
  have happend : f.parseInto 1 (a ++ b) = f.parseInto x b :=
    TaggedFields.parse_append hw.tag_advances hw.tag_tokens (field_tokens hf.piece_tokens) h b
  rw [happend, hf.parseInto_eq hw]

theorem sound_read (hw : w.Lawful) {bs rest : List UInt8} {x : M}
    (h : f.read bs = some (x, rest)) : f.Sound x := by
  obtain ⟨data, -, hparse⟩ := (hw.parseMessage ..).mp h
  exact hf.sound_parse hw hparse

theorem write_eq (hw : w.Lawful) (x : M) : f.write x = w.WriteBytes (f.serialize x) := by
  rw [write, hf.byteSize_eq, hw.internalWriteMessage]

/-- A nested message that was written is read again. -/
theorem read_write (hw : w.Lawful) {x : M} (hx : f.Sound x) (hsize : f.byteSize x ≤ maxSize)
    (rest : List UInt8) : f.read (f.write x ++ rest) = some (x, rest) := by
  refine (hw.parseMessage ..).mpr ⟨f.serialize x, ?_, hf.parse_serialize hx hsize⟩
  rw [hf.byteSize_eq] at hsize
  rw [hf.write_eq hw]
  exact hw.bytes_write _ rest hsize

/-- A nested message behind its tag byte. -/
theorem writes_nested {N : Type} [Monoid N] {g : MessageFormat w N} (hw : w.Lawful)
    (htokens : ∀ tag r, g.piece tag = some r → r.Tokens) {tag : UInt8} (hpos : 0 < tag)
    (hlt : tag < 128) {one : M → N}
    (hpiece : g.piece (BitVec.ofNat 32 tag.toNat) = some (f.read.map one)) {x : M} (hx : f.Sound x)
    (hsize : f.byteSize x ≤ maxSize) : g.Writes (tag :: f.write x) (one x) := by
  apply writes_field hw htokens hpos hlt hpiece
  intro rest
  exact Reader.map_eq_some.mpr ⟨x, hf.read_write hw hx hsize rest, rfl⟩

theorem length_write (hw : w.Lawful) (x : M) :
    (f.write x).length = w.LengthDelimitedSize (f.byteSize x) := by
  rw [hf.write_eq hw, hf.byteSize_eq, hw.length_writeBytes, hw.stringSize]

/-- The bytes of a repeated nested field. -/
theorem length_flatMap_write (hw : w.Lawful) (tag : UInt8) (xs : List M) :
    (xs.flatMap fun x => tag :: f.write x).length =
      xs.length + (xs.map fun x => w.LengthDelimitedSize (f.byteSize x)).sum := by
  induction xs with
  | nil => rfl
  | cons x xs ih =>
    simp only [List.flatMap_cons, List.length_append, List.length_cons, ih, hf.length_write hw,
      List.map_cons, List.sum_cons]
    omega

theorem byteSize_le_flatMap (hw : w.Lawful) {xs : List M} {x : M} (hx : x ∈ xs) (tag : UInt8) :
    f.byteSize x ≤ (xs.flatMap fun x => tag :: f.write x).length := by
  obtain ⟨before, after, rfl⟩ := List.append_of_mem hx
  have hle := hw.le_lengthDelimitedSize (f.byteSize x)
  rw [← hf.length_write hw] at hle
  simp only [List.flatMap_append, List.flatMap_cons, List.length_append, List.length_cons]
  omega

end Lawful

end MessageFormat

end ReactorNet
