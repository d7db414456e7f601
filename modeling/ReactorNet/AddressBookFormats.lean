import ReactorNet.PersonFormats

/-!
# The address book as a message format

With it every message of the schema has a lawful format. So what is serialized has the computed
size and is parsed again as the message, and byte strings one behind the other are merged.
-/
namespace ReactorNet.Tutorial

open TaggedFields WireFormat

variable {w : WireFormat}

namespace AddressBook

instance : Monoid (AddressBook w) where
  mul := MergeFrom
  one := default
  mul_assoc a b c := by
    cases a; cases b; cases c
    simp [HMul.hMul, MergeFrom]
  one_mul a := by
    cases a
    simp [HMul.hMul, MergeFrom, OfNat.ofNat, One.one, default]
  mul_one a := by
    cases a
    simp [HMul.hMul, MergeFrom, OfNat.ofNat, One.one, default]

def ofPerson (person : Person w) : AddressBook w := ⟨[person], []⟩

def ofUnknown (u : w.UnknownField) : AddressBook w := ⟨[], [u]⟩

def piece (tag : BitVec 32) : Option (Reader (AddressBook w)) :=
  if tag = 10 then some ((Person.format w).read.map ofPerson) else unusual ofUnknown tag

/-- An unknown field that reading an address book leaves. -/
def Unknown (u : w.UnknownField) : Prop :=
  ∃ tag bs rest, tag ≠ 10 ∧ endsMessage tag = false ∧ w.UnknownFieldParse tag bs = some (u, rest)

def format (w : WireFormat) : MessageFormat w (AddressBook w) where
  piece := piece
  serialize := _InternalSerialize
  byteSize := ByteSizeLong
  Sound m := (∀ u ∈ m.unknown_fields, Unknown u) ∧
    ∀ person ∈ m.people_, (Person.format w).Sound person

theorem piece_unusual {tag : BitVec 32} (h : tag ≠ 10) :
    piece tag = unusual (w := w) ofUnknown tag := if_neg h

theorem mul_ofPerson (m : AddressBook w) (person : Person w) :
    { m with people_ := m.people_ ++ [person] } = m * ofPerson person := by
  cases m
  simp [HMul.hMul, Mul.mul, MergeFrom, ofPerson]

theorem addUnknown_eq (m : AddressBook w) (u : w.UnknownField) :
    m.addUnknown u = m * ofUnknown u := by
  cases m
  simp [HMul.hMul, Mul.mul, MergeFrom, ofUnknown, addUnknown]

theorem parsePerson_eq (hw : w.Lawful) (m : AddressBook w) :
    m.parsePerson = ((Person.format w).read.map ofPerson).map (m * ·) := by
  have hparse : (Person.format w).parseInto 1 = Person._InternalParse .default := by
    funext bs
    exact Person.parseInto_eq hw 1 bs
  rw [← Reader.map_eq_map_map (mul_ofPerson m), MessageFormat.read, hparse]
  rfl

theorem parseField_unusual {tag : BitVec 32} (h : tag ≠ 10) (m : AddressBook w) (bs : List UInt8) :
    parseField m tag bs = handle_unusual w m.addUnknown tag bs := by
  rw [parseField]
  split
  · next hcase => exact if_neg fun h' => h ((tag_eq_iff (n := 10) (by decide) hcase).mp h')
  · rfl

theorem piece_tokens (hw : w.Lawful) {tag : BitVec 32} {r : Reader (AddressBook w)}
    (h : piece tag = some r) : r.Tokens := by
  rw [piece] at h
  split at h
  · cases h
    exact (hw.parseMessage_tokens _).map _
  · exact unusual_tokens ofUnknown hw h

/-- The loop with its inner loop over the people reads the format. -/
theorem parseInto_eq (hw : w.Lawful) (m : AddressBook w) (bs : List UInt8) :
    (format w).parseInto m bs = _InternalParse m bs := by
  have htokens : FieldTokens (format w).field :=
    MessageFormat.field_tokens fun _ _ => piece_tokens hw
  have hone (m : AddressBook w) (bs : List UInt8) :
      (format w).field m 10 bs = .ofOption (parsePerson m bs) := by
    have hpiece : (format w).piece 10 = some ((Person.format w).read.map ofPerson) := rfl
    rw [MessageFormat.field_eq hpiece, parsePerson_eq hw]
  have hfast (m : AddressBook w) (bs : List UInt8) :
      parseField m 10 bs = .ofOption (elements parsePerson 10 (bs.length + 1) m bs) := rfl
  have hother (m : AddressBook w) (tag : BitVec 32) (bs : List UInt8) (htag : tag ≠ 10) :
      parseField m tag bs = (format w).field m tag bs := by
    rw [parseField_unusual htag]
    exact handle_unusual_eq ofUnknown (piece_unusual htag) m.addUnknown_eq bs
  exact (parse_eq_parse_elements hw.tag_advances htokens.shrinks
    (hw.tag_byte 10 · (by decide) (by decide)) hone hfast hother m bs).symm

theorem prod_ofUnknown (us : List w.UnknownField) :
    (us.map ofUnknown).prod = (⟨[], us⟩ : AddressBook w) := by
  induction us with
  | nil => rfl
  | cons u us ih =>
    rw [List.map_cons, List.prod_cons, ih]
    rfl

theorem prod_ofPerson (people : List (Person w)) :
    (people.map ofPerson).prod = (⟨people, []⟩ : AddressBook w) := by
  induction people with
  | nil => rfl
  | cons person people ih =>
    rw [List.map_cons, List.prod_cons, ih]
    rfl

/-- An address book is the product of its fields. -/
theorem eq_product (m : AddressBook w) :
    m = (m.people_.map ofPerson).prod * (m.unknown_fields.map ofUnknown).prod := by
  rw [prod_ofUnknown, prod_ofPerson]
  cases m
  simp [HMul.hMul, Mul.mul, MergeFrom]

theorem byteSizeLong_eq (hw : w.Lawful) (m : AddressBook w) :
    m.ByteSizeLong = m._InternalSerialize.length := by
  have hpeople : (m.people_.flatMap fun person =>
      10 :: w.InternalWriteMessage person.ByteSizeLong person._InternalSerialize).length =
        m.people_.length +
          (m.people_.map fun person => w.LengthDelimitedSize person.ByteSizeLong).sum :=
    (Person.lawful hw).length_flatMap_write hw 10 m.people_
  rw [ByteSizeLong, _InternalSerialize, List.length_append, hw.length_writeUnknown, hpeople]

theorem sound_piece (hw : w.Lawful) {tag : BitVec 32} {r : Reader (AddressBook w)}
    {bs rest : List UInt8} {x : AddressBook w} (hpiece : piece tag = some r)
    (hread : r bs = some (x, rest)) : (format w).Sound x := by
  by_cases htag : tag = 10
  · subst htag
    cases hpiece
    obtain ⟨person, hperson, rfl⟩ := Reader.map_eq_some.mp hread
    constructor
    · intro u hu
      cases hu
    · intro person' hmem
      rw [List.mem_singleton.mp hmem]
      exact (Person.lawful hw).sound_read hw hperson
  · rw [piece_unusual htag] at hpiece
    obtain ⟨hends, rfl⟩ := (unusual_eq_some ofUnknown).mp hpiece
    obtain ⟨v, hv, rfl⟩ := Reader.map_eq_some.mp hread
    constructor
    · intro u hu
      rw [List.mem_singleton.mp hu]
      exact ⟨tag, bs, rest, htag, hends, hv⟩
    · intro person hperson
      cases hperson

theorem writes_unknown (hw : w.Lawful) {u : w.UnknownField} (h : Unknown u) :
    (format w).Writes (w.WriteUnknown u) (ofUnknown u) := by
  obtain ⟨tag, bs, rest, htag, hends, hread⟩ := h
  apply MessageFormat.writes_unknown hw (fun _ _ => piece_tokens hw) hread
  exact (piece_unusual htag).trans ((unusual_eq_some ofUnknown).mpr ⟨hends, rfl⟩)

theorem serialize_writes (hw : w.Lawful) {m : AddressBook w} (hm : (format w).Sound m)
    (hsize : m._InternalSerialize.length ≤ maxSize) : (format w).Writes m._InternalSerialize m := by
  have htokens : ∀ tag r, (format w).piece tag = some r → r.Tokens := fun _ _ => piece_tokens hw
  rw [_InternalSerialize, List.length_append] at hsize
  have hpeople : (format w).Writes (m.people_.flatMap fun person =>
      10 :: (Person.format w).write person) (m.people_.map ofPerson).prod := by
    apply MessageFormat.writes_flatMap
    intro person hperson
    apply (Person.lawful hw).writes_nested hw htokens (by decide) (by decide) rfl
      (hm.2 person hperson)
    refine Nat.le_trans ((Person.lawful hw).byteSize_le_flatMap hw hperson 10) ?_
    have hbytes : (m.people_.flatMap fun person =>
        10 :: w.InternalWriteMessage person.ByteSizeLong person._InternalSerialize).length ≤
          maxSize := by omega
    exact hbytes
  have hunknown : (format w).Writes (m.unknown_fields.flatMap w.WriteUnknown)
      (m.unknown_fields.map ofUnknown).prod :=
    MessageFormat.writes_flatMap fun u hu => writes_unknown hw (hm.1 u hu)
  have hall := hpeople.append hunknown
  rw [← eq_product m] at hall
  exact hall

theorem lawful (hw : w.Lawful) : (format w).Lawful where
  piece_tokens _ _ h := piece_tokens hw h
  serialize_writes _ hm hsize := serialize_writes hw hm hsize
  byteSize_eq m := byteSizeLong_eq hw m
  sound_one := by
    constructor
    · intro u hu
      cases hu
    · intro person hperson
      cases hperson
  sound_mul x y hx hy := by
    constructor
    · intro u hu
      rcases List.mem_append.mp hu with hu | hu
      · exact hx.1 u hu
      · exact hy.1 u hu
    · intro person hperson
      rcases List.mem_append.mp hperson with hperson | hperson
      · exact hx.2 person hperson
      · exact hy.2 person hperson
  sound_piece _ _ _ _ _ hpiece hread := sound_piece hw hpiece hread

end AddressBook

/-! ## The messages of the schema -/

/-- For every message of the schema `ByteSizeLong` computes the number of bytes that the message
serializes to, nested messages, unknown fields and the fast path over the required fields
included. -/
theorem byteSizeLong_exact (hw : w.Lawful) :
    (∀ m : Person_PhoneNumber w, m.ByteSizeLong = m._InternalSerialize.length) ∧
      (∀ m : Person w, m.ByteSizeLong = m._InternalSerialize.length) ∧
      ∀ m : AddressBook w, m.ByteSizeLong = m._InternalSerialize.length :=
  ⟨Person_PhoneNumber.byteSizeLong_eq hw, Person.byteSizeLong_eq hw, AddressBook.byteSizeLong_eq hw⟩

/-- With varints in base 128. -/
theorem byteSizeLong_exact_base128 :
    (∀ m : Person_PhoneNumber base128, m.ByteSizeLong = m._InternalSerialize.length) ∧
      (∀ m : Person base128, m.ByteSizeLong = m._InternalSerialize.length) ∧
      ∀ m : AddressBook base128, m.ByteSizeLong = m._InternalSerialize.length :=
  byteSizeLong_exact base128_lawful

/-- What is serialized is parsed as the message, if its unknown fields are sound. -/
theorem Person_PhoneNumber.parse_serialize (hw : w.Lawful) {m : Person_PhoneNumber w}
    (hm : (format w).Sound m) (hsize : m._InternalSerialize.length ≤ maxSize) :
    _InternalParse default m._InternalSerialize = .complete m := by
  rw [← parseInto_eq]
  exact (lawful hw).parse_serialize hm (Nat.le_trans (Nat.le_of_eq (byteSizeLong_eq hw m)) hsize)

theorem Person.parse_serialize (hw : w.Lawful) {m : Person w} (hm : (format w).Sound m)
    (hsize : m._InternalSerialize.length ≤ maxSize) :
    _InternalParse default m._InternalSerialize = .complete m := by
  rw [← parseInto_eq hw]
  exact (lawful hw).parse_serialize hm (Nat.le_trans (Nat.le_of_eq (byteSizeLong_eq hw m)) hsize)

theorem AddressBook.parse_serialize (hw : w.Lawful) {m : AddressBook w} (hm : (format w).Sound m)
    (hsize : m._InternalSerialize.length ≤ maxSize) :
    _InternalParse default m._InternalSerialize = .complete m := by
  rw [← parseInto_eq hw]
  exact (lawful hw).parse_serialize hm (Nat.le_trans (Nat.le_of_eq (byteSizeLong_eq hw m)) hsize)

/-- A message of the schema that has been parsed, whatever the bytes were, is parsed again from
what it serializes to, unless that exceeds the limit of the runtime. -/
theorem serialize_parsed (hw : w.Lawful) (bs : List UInt8) :
    (∀ m : Person_PhoneNumber w, Person_PhoneNumber._InternalParse .default bs = .complete m →
        m._InternalSerialize.length ≤ maxSize →
        Person_PhoneNumber._InternalParse .default m._InternalSerialize = .complete m) ∧
      (∀ m : Person w, Person._InternalParse .default bs = .complete m →
        m._InternalSerialize.length ≤ maxSize →
        Person._InternalParse .default m._InternalSerialize = .complete m) ∧
      ∀ m : AddressBook w, AddressBook._InternalParse .default bs = .complete m →
        m._InternalSerialize.length ≤ maxSize →
        AddressBook._InternalParse .default m._InternalSerialize = .complete m := by
  refine ⟨?_, ?_, ?_⟩
  · intro m hparse hsize
    rw [← Person_PhoneNumber.parseInto_eq] at hparse
    exact Person_PhoneNumber.parse_serialize hw
      ((Person_PhoneNumber.lawful hw).sound_parse hw hparse) hsize
  · intro m hparse hsize
    rw [← Person.parseInto_eq hw] at hparse
    exact Person.parse_serialize hw ((Person.lawful hw).sound_parse hw hparse) hsize
  · intro m hparse hsize
    rw [← AddressBook.parseInto_eq hw] at hparse
    exact AddressBook.parse_serialize hw ((AddressBook.lawful hw).sound_parse hw hparse) hsize

/-- An address book whose person has no name, an id written in two bytes too many, and a field of
number 5. -/
theorem serialize_parsed_base128 :
    let bs : List UInt8 := [10, 8, 16, 129, 128, 0, 42, 2, 7, 7]
    let m : AddressBook base128 := ⟨[⟨none, some 1, none, [], [(42, .lengthDelimited [7, 7])]⟩], []⟩
    AddressBook._InternalParse .default bs = .complete m ∧
      m._InternalSerialize = [10, 6, 16, 1, 42, 2, 7, 7] ∧
      AddressBook._InternalParse .default m._InternalSerialize = .complete m := by
  have hparse : AddressBook._InternalParse .default [10, 8, 16, 129, 128, 0, 42, 2, 7, 7] =
      .complete (⟨[⟨none, some 1, none, [], [(42, .lengthDelimited [7, 7])]⟩], []⟩ :
        AddressBook base128) := by rfl
  exact ⟨hparse, by rfl, (serialize_parsed base128_lawful _).2.2 _ hparse (by decide)⟩

/-- Serializations, or any other bytes, one behind the other are parsed as the messages merged. -/
theorem parse_concatenation (hw : w.Lawful) (a b : List UInt8) :
    (∀ m : Person_PhoneNumber w, Person_PhoneNumber._InternalParse .default a = .complete m →
        Person_PhoneNumber._InternalParse .default (a ++ b) =
          (Person_PhoneNumber._InternalParse .default b).map m.MergeFrom) ∧
      (∀ m : Person w, Person._InternalParse .default a = .complete m →
        Person._InternalParse .default (a ++ b) =
          (Person._InternalParse .default b).map m.MergeFrom) ∧
      ∀ m : AddressBook w, AddressBook._InternalParse .default a = .complete m →
        AddressBook._InternalParse .default (a ++ b) =
          (AddressBook._InternalParse .default b).map m.MergeFrom := by
  refine ⟨?_, ?_, ?_⟩
  · intro m hparse
    rw [← Person_PhoneNumber.parseInto_eq] at hparse
    rw [← Person_PhoneNumber.parseInto_eq, ← Person_PhoneNumber.parseInto_eq]
    exact (Person_PhoneNumber.lawful hw).parse_append hw hparse b
  · intro m hparse
    rw [← Person.parseInto_eq hw] at hparse
    rw [← Person.parseInto_eq hw, ← Person.parseInto_eq hw]
    exact (Person.lawful hw).parse_append hw hparse b
  · intro m hparse
    rw [← AddressBook.parseInto_eq hw] at hparse
    rw [← AddressBook.parseInto_eq hw, ← AddressBook.parseInto_eq hw]
    exact (AddressBook.lawful hw).parse_append hw hparse b

/-- Two names for one person; the second one counts. -/
theorem parse_concatenation_base128 :
    Person._InternalParse .default [10, 1, 65] =
      .complete (⟨some [65], none, none, [], []⟩ : Person base128) ∧
      Person._InternalParse .default ([10, 1, 65] ++ [10, 1, 66]) =
        .complete (⟨some [66], none, none, [], []⟩ : Person base128) := by
  have hparse : Person._InternalParse .default [10, 1, 65] =
      .complete (⟨some [65], none, none, [], []⟩ : Person base128) := by rfl
  exact ⟨hparse, ((parse_concatenation base128_lawful _ [10, 1, 66]).2.1 _ hparse).trans (by rfl)⟩

end ReactorNet.Tutorial
