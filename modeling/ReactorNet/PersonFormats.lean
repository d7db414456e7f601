import ReactorNet.AddressBook
import ReactorNet.MessageFormat

/-!
# Persons and phone numbers as message formats

The messages are monoids under `MergeFrom`, and their loops read formats; the inner loop over the
phone numbers makes no difference.
-/
namespace ReactorNet.Tutorial

open TaggedFields WireFormat

/-- The cases of the `switch` and the comparison behind each of them name one tag. -/
theorem tag_eq_iff {tag : BitVec 32} {n : ℕ} (hn : n < 256)
    (h : tag >>> 3 = BitVec.ofNat 32 (n / 8)) :
    tag.setWidth 8 = BitVec.ofNat 8 n ↔ tag = BitVec.ofNat 32 n := by
  have hshift := congrArg BitVec.toNat h
  rw [BitVec.toNat_ushiftRight, Nat.shiftRight_eq_div_pow, BitVec.toNat_ofNat] at hshift
  rw [BitVec.toNat_eq, BitVec.toNat_eq, BitVec.toNat_setWidth, BitVec.toNat_ofNat,
    BitVec.toNat_ofNat]
  omega

theorem signExtend_setWidth (v : BitVec 32) : (v.signExtend 64).setWidth 32 = v := by
  ext i hi
  simp [BitVec.getLsbD_signExtend, hi]
  omega

variable {w : WireFormat}

section Unusual

variable {M : Type} [Monoid M] (one : w.UnknownField → M)

/-- What `handle_unusual` reads. -/
def unusual (tag : BitVec 32) : Option (Reader M) :=
  if endsMessage tag then none else some ((w.UnknownFieldParse tag).map one)

omit [Monoid M] in
theorem unusual_eq_some {tag : BitVec 32} {r : Reader M} :
    unusual one tag = some r ↔ endsMessage tag = false ∧ (w.UnknownFieldParse tag).map one = r := by
  rw [unusual]
  cases endsMessage tag <;> simp

omit [Monoid M] in
theorem unusual_tokens (hw : w.Lawful) {tag : BitVec 32} {r : Reader M}
    (h : unusual one tag = some r) : r.Tokens := by
  obtain ⟨-, rfl⟩ := (unusual_eq_some one).mp h
  exact (hw.unknown_tokens tag).map one

theorem handle_unusual_eq {f : MessageFormat w M} {add : w.UnknownField → M} {m : M}
    {tag : BitVec 32} (hpiece : f.piece tag = unusual one tag) (hadd : ∀ u, add u = m * one u)
    (bs : List UInt8) : handle_unusual w add tag bs = f.field m tag bs := by
  rw [handle_unusual, MessageFormat.field, hpiece, unusual, Reader.map_eq_map_map hadd]
  cases endsMessage tag with
  | true => rfl
  | false => rfl

end Unusual

/-- The bytes of an optional field. -/
theorem length_optional {α : Type*} {tag : UInt8} {write : α → List UInt8} {size : α → ℕ}
    (h : ∀ a, (write a).length = size a) (a : Option α) :
    (optionalField tag write a).length = a.elim 0 fun a => 1 + size a := by
  cases a with
  | none => rfl
  | some a =>
    rw [optionalField, List.length_cons, h, Nat.add_comm]
    rfl

/-- An optional string behind its tag byte. -/
theorem writes_bytes {M : Type} [Monoid M] {f : MessageFormat w M} (hw : w.Lawful)
    (htokens : ∀ tag r, f.piece tag = some r → r.Tokens) {tag : UInt8} (hpos : 0 < tag)
    (hlt : tag < 128) {one : List UInt8 → M}
    (hpiece : f.piece (BitVec.ofNat 32 tag.toNat) = some (w.ReadBytes.map one))
    {s : Option (List UInt8)} (hsize : (optionalField tag w.WriteBytes s).length ≤ maxSize) :
    f.Writes (optionalField tag w.WriteBytes s) (s.elim 1 one) := by
  apply MessageFormat.writes_optionalField
  intro bytes hbytes
  have hlen : bytes.length ≤ maxSize := by
    have hle := hw.length_le_writeBytes bytes
    rw [Option.mem_def.mp hbytes, optionalField, List.length_cons] at hsize
    omega
  apply MessageFormat.writes_field hw htokens hpos hlt hpiece
  intro rest
  exact Reader.map_eq_some.mpr ⟨bytes, hw.bytes_write bytes rest hlen, rfl⟩

/-! ## Phone numbers -/

namespace Person_PhoneNumber

instance : Monoid (Person_PhoneNumber w) where
  mul := MergeFrom
  one := default
  mul_assoc a b c := by
    cases a; cases b; cases c
    simp [HMul.hMul, MergeFrom, Option.or_assoc]
  one_mul a := by
    cases a
    simp [HMul.hMul, MergeFrom, OfNat.ofNat, One.one, default]
  mul_one a := by
    cases a
    simp [HMul.hMul, MergeFrom, OfNat.ofNat, One.one, default]

def ofNumber (s : List UInt8) : Person_PhoneNumber w := ⟨some s, none, []⟩

def ofType (type : Person_PhoneType) : Person_PhoneNumber w := ⟨none, some type, []⟩

def ofUnknown (u : w.UnknownField) : Person_PhoneNumber w := ⟨none, none, [u]⟩

/-- The value of no enumerator becomes an unknown field. -/
def ofVal (val : BitVec 64) : Person_PhoneNumber w :=
  match Person_PhoneType.ofInt (val.setWidth 32) with
  | some type => ofType type
  | none => ofUnknown (w.unknownVarint 2 val)

/-- An unknown field that reading a phone number leaves. -/
inductive Unknown (u : w.UnknownField) : Prop where
  | unusual {tag : BitVec 32} {bs rest : List UInt8} (hnumber : tag ≠ 10) (htype : tag ≠ 16)
      (hends : endsMessage tag = false) (hread : w.UnknownFieldParse tag bs = some (u, rest))
  | enumerator {val : BitVec 64} (h : Person_PhoneType.ofInt (val.setWidth 32) = none)
      (heq : u = w.unknownVarint 2 val)

def piece (tag : BitVec 32) : Option (Reader (Person_PhoneNumber w)) :=
  if tag = 10 then some (w.ReadBytes.map ofNumber)
  else if tag = 16 then some (w.ReadVarint.map ofVal)
  else unusual ofUnknown tag

def format (w : WireFormat) : MessageFormat w (Person_PhoneNumber w) where
  piece := piece
  serialize := _InternalSerialize
  byteSize := ByteSizeLong
  Sound m := ∀ u ∈ m.unknown_fields, Unknown u

theorem piece_unusual {tag : BitVec 32} (hnumber : tag ≠ 10) (htype : tag ≠ 16) :
    piece tag = unusual (w := w) ofUnknown tag := by
  rw [piece, if_neg hnumber, if_neg htype]

theorem addUnknown_eq (m : Person_PhoneNumber w) (u : w.UnknownField) :
    m.addUnknown u = m * ofUnknown u := rfl

theorem mul_ofNumber (m : Person_PhoneNumber w) (s : List UInt8) :
    { m with number_ := some s } = m * ofNumber s := by
  cases m
  simp [HMul.hMul, Mul.mul, MergeFrom, ofNumber]

theorem mul_ofType (m : Person_PhoneNumber w) (type : Person_PhoneType) :
    { m with type_ := some type } = m * ofType type := by
  cases m
  simp [HMul.hMul, Mul.mul, MergeFrom, ofType]

theorem parseField_type (m : Person_PhoneNumber w) (bs : List UInt8) :
    parseField m 16 bs = .ofOption ((w.ReadVarint.map ofVal).map (m * ·) bs) := by
  rw [parseField, if_neg (by decide), if_pos (by decide), if_pos (by decide), Reader.map,
    Reader.map]
  cases w.ReadVarint bs with
  | none => rfl
  | some read =>
    rw [Option.map_some, Option.map_some, FieldStep.ofOption_some, ofVal]
    cases hval : Person_PhoneType.ofInt (read.1.setWidth 32) with
    | none => simp only [hval, addUnknown_eq]
    | some type => simp only [hval, mul_ofType]

theorem parseField_unusual {tag : BitVec 32} (hnumber : tag ≠ 10) (htype : tag ≠ 16)
    (m : Person_PhoneNumber w) (bs : List UInt8) :
    parseField m tag bs = handle_unusual w m.addUnknown tag bs := by
  rw [parseField]
  split
  · next h => exact if_neg fun h' => hnumber ((tag_eq_iff (n := 10) (by decide) h).mp h')
  · split
    · next h => exact if_neg fun h' => htype ((tag_eq_iff (n := 16) (by decide) h).mp h')
    · rfl

/-- The loop reads the format. -/
theorem parseField_eq (m : Person_PhoneNumber w) (tag : BitVec 32) (bs : List UInt8) :
    parseField m tag bs = (format w).field m tag bs := by
  by_cases hnumber : tag = 10
  · subst hnumber
    have hpiece : (format w).piece 10 = some (w.ReadBytes.map ofNumber) := rfl
    rw [MessageFormat.field_eq hpiece, ← Reader.map_eq_map_map (mul_ofNumber m)]
    rfl
  · by_cases htype : tag = 16
    · subst htype
      have hpiece : (format w).piece 16 = some (w.ReadVarint.map ofVal) := rfl
      rw [MessageFormat.field_eq hpiece, parseField_type]
    · rw [parseField_unusual hnumber htype]
      exact handle_unusual_eq ofUnknown (piece_unusual hnumber htype) m.addUnknown_eq bs

theorem parseInto_eq (m : Person_PhoneNumber w) (bs : List UInt8) :
    (format w).parseInto m bs = _InternalParse m bs := by
  have hfield : (format w).field = parseField := by
    funext m tag bs
    exact (parseField_eq m tag bs).symm
  rw [MessageFormat.parseInto, hfield, _InternalParse]

theorem piece_tokens (hw : w.Lawful) {tag : BitVec 32} {r : Reader (Person_PhoneNumber w)}
    (h : piece tag = some r) : r.Tokens := by
  rw [piece] at h
  split at h
  · cases h
    exact hw.bytes_tokens.map _
  · split at h
    · cases h
      exact hw.varint_tokens.map _
    · exact unusual_tokens ofUnknown hw h

theorem prod_ofUnknown (us : List w.UnknownField) :
    (us.map ofUnknown).prod = (⟨none, none, us⟩ : Person_PhoneNumber w) := by
  induction us with
  | nil => rfl
  | cons u us ih =>
    rw [List.map_cons, List.prod_cons, ih]
    rfl

/-- A phone number is the product of its fields. -/
theorem eq_product (m : Person_PhoneNumber w) : m =
    m.number_.elim 1 ofNumber *
      (m.type_.elim 1 ofType * (m.unknown_fields.map ofUnknown).prod) := by
  rw [prod_ofUnknown]
  obtain ⟨number_, type_, unknown_fields⟩ := m
  cases number_ <;> cases type_ <;> rfl

theorem writes_unknown (hw : w.Lawful) {u : w.UnknownField} (h : Unknown u) :
    (format w).Writes (w.WriteUnknown u) (ofUnknown u) := by
  have htokens : ∀ tag r, (format w).piece tag = some r → r.Tokens := fun _ _ => piece_tokens hw
  cases h with
  | unusual hnumber htype hends hread =>
    apply MessageFormat.writes_unknown hw htokens hread
    exact (piece_unusual hnumber htype).trans ((unusual_eq_some ofUnknown).mpr ⟨hends, rfl⟩)
  | @enumerator val hval heq =>
    obtain ⟨body, hwrite, hbody⟩ := hw.unknownVarint_write 2 val (by decide) (by decide)
    rw [heq, hwrite]
    apply MessageFormat.writes_field hw htokens (by decide) (by decide)
      (r := w.ReadVarint.map ofVal)
      rfl
    intro rest
    refine Reader.map_eq_some.mpr ⟨val, hbody rest, ?_⟩
    rw [ofVal, hval]

theorem byteSizeLong_eq (hw : w.Lawful) (m : Person_PhoneNumber w) :
    m.ByteSizeLong = m._InternalSerialize.length := by
  rw [ByteSizeLong, _InternalSerialize, List.length_append, List.length_append,
    hw.length_writeUnknown, length_optional hw.length_writeBytes,
    length_optional fun type => hw.length_writeInt32 (Person_PhoneType.toInt type), Nat.add_assoc]

theorem sound_piece {tag : BitVec 32} {r : Reader (Person_PhoneNumber w)} {bs rest : List UInt8}
    {x : Person_PhoneNumber w} (hpiece : piece tag = some r) (hread : r bs = some (x, rest)) :
    (format w).Sound x := by
  rw [piece] at hpiece
  split at hpiece
  · cases hpiece
    obtain ⟨s, -, rfl⟩ := Reader.map_eq_some.mp hread
    intro u hu
    cases hu
  · next hnumber =>
    split at hpiece
    · cases hpiece
      obtain ⟨val, -, rfl⟩ := Reader.map_eq_some.mp hread
      intro u hu
      rw [ofVal] at hu
      cases hval : Person_PhoneType.ofInt (val.setWidth 32) with
      | some type =>
        rw [hval] at hu
        cases hu
      | none =>
        rw [hval] at hu
        exact .enumerator hval (List.mem_singleton.mp hu)
    · next htype =>
      obtain ⟨hends, rfl⟩ := (unusual_eq_some ofUnknown).mp hpiece
      obtain ⟨v, hv, rfl⟩ := Reader.map_eq_some.mp hread
      intro u hu
      rw [List.mem_singleton.mp hu]
      exact .unusual hnumber htype hends hv

theorem serialize_writes (hw : w.Lawful) {m : Person_PhoneNumber w} (hm : (format w).Sound m)
    (hsize : m._InternalSerialize.length ≤ maxSize) : (format w).Writes m._InternalSerialize m := by
  have htokens : ∀ tag r, (format w).piece tag = some r → r.Tokens := fun _ _ => piece_tokens hw
  have hnumber : (format w).Writes (optionalField 10 w.WriteBytes m.number_)
      (m.number_.elim 1 ofNumber) := by
    apply writes_bytes hw htokens (by decide) (by decide) rfl
    rw [_InternalSerialize, List.length_append] at hsize
    omega
  have htype : (format w).Writes
      (optionalField 16 (fun type => w.WriteInt32 (Person_PhoneType.toInt type)) m.type_)
      (m.type_.elim 1 ofType) := by
    apply MessageFormat.writes_optionalField
    intro type _
    apply MessageFormat.writes_field hw htokens (by decide) (by decide)
      (r := w.ReadVarint.map ofVal)
      rfl
    intro rest
    refine Reader.map_eq_some.mpr ⟨type.toInt.signExtend 64, hw.int32_write _ rest, ?_⟩
    rw [ofVal, signExtend_setWidth, Person_PhoneType.ofInt_toInt]
  have hunknown : (format w).Writes (m.unknown_fields.flatMap w.WriteUnknown)
      (m.unknown_fields.map ofUnknown).prod :=
    MessageFormat.writes_flatMap fun u hu => writes_unknown hw (hm u hu)
  have hall := hnumber.append (htype.append hunknown)
  rw [← eq_product m] at hall
  exact hall

theorem lawful (hw : w.Lawful) : (format w).Lawful where
  piece_tokens _ _ h := piece_tokens hw h
  serialize_writes _ hm hsize := serialize_writes hw hm hsize
  byteSize_eq m := byteSizeLong_eq hw m
  sound_one := by
    intro u hu
    cases hu
  sound_mul x y hx hy := by
    intro u hu
    rcases List.mem_append.mp hu with hu | hu
    · exact hx u hu
    · exact hy u hu
  sound_piece _ _ _ _ _ hpiece hread := sound_piece hpiece hread

end Person_PhoneNumber

/-! ## Persons -/

namespace Person

instance : Monoid (Person w) where
  mul := MergeFrom
  one := default
  mul_assoc a b c := by
    cases a; cases b; cases c
    simp [HMul.hMul, MergeFrom, Option.or_assoc]
  one_mul a := by
    cases a
    simp [HMul.hMul, MergeFrom, OfNat.ofNat, One.one, default]
  mul_one a := by
    cases a
    simp [HMul.hMul, MergeFrom, OfNat.ofNat, One.one, default]

def ofName (s : List UInt8) : Person w := ⟨some s, none, none, [], []⟩

def ofVal (val : BitVec 64) : Person w := ⟨none, some (val.setWidth 32), none, [], []⟩

def ofEmail (s : List UInt8) : Person w := ⟨none, none, some s, [], []⟩

def ofPhone (phone : Person_PhoneNumber w) : Person w := ⟨none, none, none, [phone], []⟩

def ofUnknown (u : w.UnknownField) : Person w := ⟨none, none, none, [], [u]⟩

/-- The tags that have a case. -/
def tags : List (BitVec 32) := [10, 16, 26, 34]

def piece (tag : BitVec 32) : Option (Reader (Person w)) :=
  if tag = 10 then some (w.ReadBytes.map ofName)
  else if tag = 16 then some (w.ReadVarint.map ofVal)
  else if tag = 26 then some (w.ReadBytes.map ofEmail)
  else if tag = 34 then some ((Person_PhoneNumber.format w).read.map ofPhone)
  else unusual ofUnknown tag

/-- An unknown field that reading a person leaves. -/
def Unknown (u : w.UnknownField) : Prop :=
  ∃ tag bs rest, tag ∉ tags ∧ endsMessage tag = false ∧ w.UnknownFieldParse tag bs = some (u, rest)

def format (w : WireFormat) : MessageFormat w (Person w) where
  piece := piece
  serialize := _InternalSerialize
  byteSize := ByteSizeLong
  Sound m := (∀ u ∈ m.unknown_fields, Unknown u) ∧
    ∀ phone ∈ m.phones_, (Person_PhoneNumber.format w).Sound phone

theorem piece_unusual {tag : BitVec 32} (h : tag ∉ tags) :
    piece tag = unusual (w := w) ofUnknown tag := by
  simp only [tags, List.mem_cons, List.not_mem_nil, or_false, not_or] at h
  obtain ⟨h10, h16, h26, h34⟩ := h
  rw [piece, if_neg h10, if_neg h16, if_neg h26, if_neg h34]

theorem mul_ofName (m : Person w) (s : List UInt8) : { m with name_ := some s } = m * ofName s := by
  cases m
  simp [HMul.hMul, Mul.mul, MergeFrom, ofName]

theorem mul_ofVal (m : Person w) (val : BitVec 64) :
    { m with id_ := some (val.setWidth 32) } = m * ofVal val := by
  cases m
  simp [HMul.hMul, Mul.mul, MergeFrom, ofVal]

theorem mul_ofEmail (m : Person w) (s : List UInt8) :
    { m with email_ := some s } = m * ofEmail s := by
  cases m
  simp [HMul.hMul, Mul.mul, MergeFrom, ofEmail]

theorem mul_ofPhone (m : Person w) (phone : Person_PhoneNumber w) :
    { m with phones_ := m.phones_ ++ [phone] } = m * ofPhone phone := by
  cases m
  simp [HMul.hMul, Mul.mul, MergeFrom, ofPhone]

theorem addUnknown_eq (m : Person w) (u : w.UnknownField) : m.addUnknown u = m * ofUnknown u := by
  cases m
  simp [HMul.hMul, Mul.mul, MergeFrom, ofUnknown, addUnknown]

theorem parsePhone_eq (m : Person w) :
    m.parsePhone = ((Person_PhoneNumber.format w).read.map ofPhone).map (m * ·) := by
  have hparse : (Person_PhoneNumber.format w).parseInto 1 =
      Person_PhoneNumber._InternalParse .default := by
    funext bs
    exact Person_PhoneNumber.parseInto_eq 1 bs
  rw [← Reader.map_eq_map_map (mul_ofPhone m), MessageFormat.read, hparse]
  rfl

theorem parseField_unusual {tag : BitVec 32} (h : tag ∉ tags) (m : Person w) (bs : List UInt8) :
    parseField m tag bs = handle_unusual w m.addUnknown tag bs := by
  simp only [tags, List.mem_cons, List.not_mem_nil, or_false, not_or] at h
  obtain ⟨h10, h16, h26, h34⟩ := h
  rw [parseField]
  split
  · next hcase => exact if_neg fun h' => h10 ((tag_eq_iff (n := 10) (by decide) hcase).mp h')
  · split
    · next hcase => exact if_neg fun h' => h16 ((tag_eq_iff (n := 16) (by decide) hcase).mp h')
    · split
      · next hcase => exact if_neg fun h' => h26 ((tag_eq_iff (n := 26) (by decide) hcase).mp h')
      · split
        · next hcase => exact if_neg fun h' => h34 ((tag_eq_iff (n := 34) (by decide) hcase).mp h')
        · rfl

/-- Apart from the inner loop, the loop reads the format. -/
theorem parseField_eq {tag : BitVec 32} (hphones : tag ≠ 34) (m : Person w) (bs : List UInt8) :
    parseField m tag bs = (format w).field m tag bs := by
  by_cases h : tag ∈ tags
  · simp only [tags, List.mem_cons, List.not_mem_nil, or_false] at h
    rcases h with rfl | rfl | rfl | h
    · have hpiece : (format w).piece 10 = some (w.ReadBytes.map ofName) := rfl
      rw [MessageFormat.field_eq hpiece, ← Reader.map_eq_map_map (mul_ofName m)]
      rfl
    · have hpiece : (format w).piece 16 = some (w.ReadVarint.map ofVal) := rfl
      rw [MessageFormat.field_eq hpiece, ← Reader.map_eq_map_map (mul_ofVal m)]
      rfl
    · have hpiece : (format w).piece 26 = some (w.ReadBytes.map ofEmail) := rfl
      rw [MessageFormat.field_eq hpiece, ← Reader.map_eq_map_map (mul_ofEmail m)]
      rfl
    · exact absurd h hphones
  · rw [parseField_unusual h]
    exact handle_unusual_eq ofUnknown (piece_unusual h) m.addUnknown_eq bs

theorem piece_tokens (hw : w.Lawful) {tag : BitVec 32} {r : Reader (Person w)}
    (h : piece tag = some r) : r.Tokens := by
  rw [piece] at h
  split at h
  · cases h
    exact hw.bytes_tokens.map _
  · split at h
    · cases h
      exact hw.varint_tokens.map _
    · split at h
      · cases h
        exact hw.bytes_tokens.map _
      · split at h
        · cases h
          exact (hw.parseMessage_tokens _).map _
        · exact unusual_tokens ofUnknown hw h

/-- The loop with its inner loop over the phone numbers reads the format. -/
theorem parseInto_eq (hw : w.Lawful) (m : Person w) (bs : List UInt8) :
    (format w).parseInto m bs = _InternalParse m bs := by
  have htokens : FieldTokens (format w).field :=
    MessageFormat.field_tokens fun _ _ => piece_tokens hw
  have hone (m : Person w) (bs : List UInt8) :
      (format w).field m 34 bs = .ofOption (parsePhone m bs) := by
    have hpiece : (format w).piece 34 = some ((Person_PhoneNumber.format w).read.map ofPhone) := rfl
    rw [MessageFormat.field_eq hpiece, parsePhone_eq]
  have hfast (m : Person w) (bs : List UInt8) :
      parseField m 34 bs = .ofOption (elements parsePhone 34 (bs.length + 1) m bs) := rfl
  have hother (m : Person w) (tag : BitVec 32) (bs : List UInt8) (htag : tag ≠ 34) :
      parseField m tag bs = (format w).field m tag bs := parseField_eq htag m bs
  exact (parse_eq_parse_elements hw.tag_advances htokens.shrinks
    (hw.tag_byte 34 · (by decide) (by decide)) hone hfast hother m bs).symm

theorem prod_ofUnknown (us : List w.UnknownField) :
    (us.map ofUnknown).prod = (⟨none, none, none, [], us⟩ : Person w) := by
  induction us with
  | nil => rfl
  | cons u us ih =>
    rw [List.map_cons, List.prod_cons, ih]
    rfl

theorem prod_ofPhone (phones : List (Person_PhoneNumber w)) :
    (phones.map ofPhone).prod = (⟨none, none, none, phones, []⟩ : Person w) := by
  induction phones with
  | nil => rfl
  | cons phone phones ih =>
    rw [List.map_cons, List.prod_cons, ih]
    rfl

def ofId (v : BitVec 32) : Person w := ⟨none, some v, none, [], []⟩

/-- A person is the product of its fields. -/
theorem eq_product (m : Person w) : m =
    m.name_.elim 1 ofName * (m.id_.elim 1 ofId * (m.email_.elim 1 ofEmail *
      ((m.phones_.map ofPhone).prod * (m.unknown_fields.map ofUnknown).prod))) := by
  rw [prod_ofUnknown, prod_ofPhone]
  obtain ⟨name_, id_, email_, phones_, unknown_fields⟩ := m
  have hphones :
      (⟨none, none, none, phones_, []⟩ * ⟨none, none, none, [], unknown_fields⟩ : Person w) =
      ⟨none, none, none, phones_, unknown_fields⟩ := by
    simp [HMul.hMul, Mul.mul, MergeFrom]
  rw [hphones]
  cases name_ <;> cases id_ <;> cases email_ <;> rfl

theorem writes_unknown (hw : w.Lawful) {u : w.UnknownField} (h : Unknown u) :
    (format w).Writes (w.WriteUnknown u) (ofUnknown u) := by
  obtain ⟨tag, bs, rest, htag, hends, hread⟩ := h
  apply MessageFormat.writes_unknown hw (fun _ _ => piece_tokens hw) hread
  exact (piece_unusual htag).trans ((unusual_eq_some ofUnknown).mpr ⟨hends, rfl⟩)

/-- Both ways of adding up the required fields agree. -/
theorem required_size (m : Person w) :
    (if m.name_.isSome && m.id_.isSome then 1 + w.StringSize m.name + (1 + w.Int32Size m.id)
      else m.RequiredFieldsByteSizeFallback) = m.RequiredFieldsByteSizeFallback := by
  obtain ⟨name_, id_, email_, phones_, unknown_fields⟩ := m
  cases name_ <;> cases id_ <;> rfl

theorem byteSizeLong_eq (hw : w.Lawful) (m : Person w) :
    m.ByteSizeLong = m._InternalSerialize.length := by
  have hphones := (Person_PhoneNumber.lawful hw).length_flatMap_write hw 34 m.phones_
  have hphones' : (m.phones_.flatMap fun phone =>
      34 :: w.InternalWriteMessage phone.ByteSizeLong phone._InternalSerialize).length = _ :=
    hphones
  rw [ByteSizeLong, required_size, RequiredFieldsByteSizeFallback, _InternalSerialize]
  simp only [List.length_append, hw.length_writeUnknown, length_optional hw.length_writeBytes,
    length_optional hw.length_writeInt32, hphones']
  change _ + _ + _ + (m.phones_.map fun phone => w.LengthDelimitedSize phone.ByteSizeLong).sum +
    _ + _ = _ + (_ + (_ + (_ +
      (m.phones_.map fun phone => w.LengthDelimitedSize phone.ByteSizeLong).sum + _)))
  omega

theorem sound_piece (hw : w.Lawful) {tag : BitVec 32} {r : Reader (Person w)} {bs rest : List UInt8}
    {x : Person w} (hpiece : piece tag = some r) (hread : r bs = some (x, rest)) :
    (format w).Sound x := by
  by_cases htag : tag ∈ tags
  · simp only [tags, List.mem_cons, List.not_mem_nil, or_false] at htag
    have hplain {y : Person w} (hunknown : y.unknown_fields = []) (hphones : y.phones_ = []) :
        (format w).Sound y := by
      constructor
      · rw [hunknown]
        intro u hu
        cases hu
      · rw [hphones]
        intro phone hphone
        cases hphone
    rcases htag with rfl | rfl | rfl | rfl
    · cases hpiece
      obtain ⟨s, -, rfl⟩ := Reader.map_eq_some.mp hread
      exact hplain rfl rfl
    · cases hpiece
      obtain ⟨val, -, rfl⟩ := Reader.map_eq_some.mp hread
      exact hplain rfl rfl
    · cases hpiece
      obtain ⟨s, -, rfl⟩ := Reader.map_eq_some.mp hread
      exact hplain rfl rfl
    · cases hpiece
      obtain ⟨phone, hphone, rfl⟩ := Reader.map_eq_some.mp hread
      constructor
      · intro u hu
        cases hu
      · intro phone' hmem
        rw [List.mem_singleton.mp hmem]
        exact (Person_PhoneNumber.lawful hw).sound_read hw hphone
  · rw [piece_unusual htag] at hpiece
    obtain ⟨hends, rfl⟩ := (unusual_eq_some ofUnknown).mp hpiece
    obtain ⟨v, hv, rfl⟩ := Reader.map_eq_some.mp hread
    constructor
    · intro u hu
      rw [List.mem_singleton.mp hu]
      exact ⟨tag, bs, rest, htag, hends, hv⟩
    · intro phone hphone
      cases hphone

theorem serialize_writes (hw : w.Lawful) {m : Person w} (hm : (format w).Sound m)
    (hsize : m._InternalSerialize.length ≤ maxSize) : (format w).Writes m._InternalSerialize m := by
  have htokens : ∀ tag r, (format w).piece tag = some r → r.Tokens := fun _ _ => piece_tokens hw
  rw [_InternalSerialize] at hsize
  simp only [List.length_append] at hsize
  have hname : (format w).Writes (optionalField 10 w.WriteBytes m.name_) (m.name_.elim 1 ofName) :=
    writes_bytes hw htokens (by decide) (by decide) rfl (by omega)
  have hemail : (format w).Writes (optionalField 26 w.WriteBytes m.email_)
      (m.email_.elim 1 ofEmail) :=
    writes_bytes hw htokens (by decide) (by decide) rfl (by omega)
  have hid : (format w).Writes (optionalField 16 w.WriteInt32 m.id_) (m.id_.elim 1 ofId) := by
    apply MessageFormat.writes_optionalField
    intro v _
    apply MessageFormat.writes_field hw htokens (by decide) (by decide)
      (r := w.ReadVarint.map ofVal)
      rfl
    intro rest
    refine Reader.map_eq_some.mpr ⟨v.signExtend 64, hw.int32_write _ rest, ?_⟩
    rw [ofVal, signExtend_setWidth, ofId]
  have hphones : (format w).Writes (m.phones_.flatMap fun phone =>
      34 :: (Person_PhoneNumber.format w).write phone) (m.phones_.map ofPhone).prod := by
    apply MessageFormat.writes_flatMap
    intro phone hphone
    apply (Person_PhoneNumber.lawful hw).writes_nested hw htokens (by decide) (by decide) rfl
      (hm.2 phone hphone)
    refine Nat.le_trans ((Person_PhoneNumber.lawful hw).byteSize_le_flatMap hw hphone 34) ?_
    have hbytes : (m.phones_.flatMap fun phone =>
        34 :: w.InternalWriteMessage phone.ByteSizeLong phone._InternalSerialize).length ≤
          maxSize := by omega
    exact hbytes
  have hunknown : (format w).Writes (m.unknown_fields.flatMap w.WriteUnknown)
      (m.unknown_fields.map ofUnknown).prod :=
    MessageFormat.writes_flatMap fun u hu => writes_unknown hw (hm.1 u hu)
  have hall := hname.append (hid.append (hemail.append (hphones.append hunknown)))
  rw [← eq_product m] at hall
  exact hall

theorem lawful (hw : w.Lawful) : (format w).Lawful where
  piece_tokens _ _ h := piece_tokens hw h
  serialize_writes _ hm hsize := serialize_writes hw hm hsize
  byteSize_eq m := byteSizeLong_eq hw m
  sound_one := by
    constructor
    · intro u hu
      cases hu
    · intro phone hphone
      cases hphone
  sound_mul x y hx hy := by
    constructor
    · intro u hu
      rcases List.mem_append.mp hu with hu | hu
      · exact hx.1 u hu
      · exact hy.1 u hu
    · intro phone hphone
      rcases List.mem_append.mp hphone with hphone | hphone
      · exact hx.2 phone hphone
      · exact hy.2 phone hphone
  sound_piece _ _ _ _ _ hpiece hread := sound_piece hw hpiece hread

end Person

end ReactorNet.Tutorial
