import ReactorNet.PositionalNumerals
import ReactorNet.VectorStorage
import ReactorNet.CheckedIntegers

/-!
# Formatting integers in place

`convert` and `convertHex` write the digits of an integer at a position of a storage,
the least significant one first, then a sign and a NUL, and reverse the digits in place.
A write outside the storage, a result outside the integer type and an index outside the
digit table stand as `none`. The widths of the types are those of 64-bit Linux.
-/
namespace ReactorNet.detail

open VectorStorage PositionalNumerals DecimalNumerals

inductive IntType where
  | short
  | unsignedShort
  | int
  | unsignedInt
  | long
  | unsignedLong
  | longLong
  | unsignedLongLong
  deriving DecidableEq

namespace IntType

def bits : IntType → ℕ
  | short | unsignedShort => 16
  | int | unsignedInt => 32
  | long | unsignedLong | longLong | unsignedLongLong => 64

def signed : IntType → Bool
  | short | int | long | longLong => true
  | unsignedShort | unsignedInt | unsignedLong | unsignedLongLong => false

def lo (t : IntType) : ℤ := if t.signed then -2 ^ (t.bits - 1) else 0
def hi (t : IntType) : ℤ := if t.signed then 2 ^ (t.bits - 1) - 1 else 2 ^ t.bits - 1

/-- The values of the type. -/
def Holds (t : IntType) (n : ℤ) : Prop := t.lo ≤ n ∧ n ≤ t.hi

instance (t : IntType) (n : ℤ) : Decidable (t.Holds n) :=
  inferInstanceAs (Decidable (t.lo ≤ n ∧ n ≤ t.hi))

/-- The result of an operation in the type. -/
def checked (t : IntType) (n : ℤ) : Option ℤ := if t.Holds n then some n else none

/-- The type whose `operator<<` does the work. -/
def promoted : IntType → IntType
  | short => int
  | unsignedShort => unsignedInt
  | t => t

theorem Holds.promoted {t : IntType} {n : ℤ} (h : t.Holds n) : t.promoted.Holds n := by
  have hbounds : t.promoted.lo ≤ t.lo ∧ t.hi ≤ t.promoted.hi := by cases t <;> decide
  obtain ⟨hlo, hhi⟩ := h
  exact ⟨by omega, by omega⟩

/-- Digits fit into the type, and so do quotients: they lie between zero and the value. -/
theorem Holds.of_le {t : IntType} {i n : ℤ} (h : t.Holds i) (hneg : i < 0 → i ≤ n ∧ n ≤ 0)
    (hpos : 0 ≤ i → 0 ≤ n ∧ n ≤ i) : t.Holds n := by
  obtain ⟨hlo, hhi⟩ := h
  have hbounds : t.lo ≤ 0 ∧ 0 ≤ t.hi := by cases t <;> decide
  rcases Int.lt_or_le i 0 with hi | hi
  · have := hneg hi
    exact ⟨by omega, by omega⟩
  · have := hpos hi
    exact ⟨by omega, by omega⟩

theorem Holds.natAbs_lt {t : IntType} {n : ℤ} (h : t.Holds n) : n.natAbs < 2 ^ 64 := by
  obtain ⟨hlo, hhi⟩ := h
  have hbounds : -2 ^ 63 ≤ t.lo ∧ t.hi < 2 ^ 64 := by cases t <;> decide
  omega

end IntType

/-- The element at an index counted from `origin`, if the table has one. -/
def tableAt (table : List UInt8) (origin lsd : ℤ) : Option UInt8 :=
  if 0 ≤ origin + lsd then table[(origin + lsd).toNat]? else none

def digits : List UInt8 := "9876543210123456789".toList.map byte

/-- `zero[lsd]`, where `zero` points to the middle of the table. -/
def zero (lsd : ℤ) : Option UInt8 := tableAt digits 9 lsd

def digitsHex : List UInt8 := "0123456789ABCDEF".toList.map byte

structure Radix where
  base : ℤ
  one_lt : 1 < base
  table : ℤ → Option UInt8

def decimal : Radix where
  base := 10
  one_lt := by decide
  table := zero

def hexadecimal : Radix where
  base := 16
  one_lt := by decide
  table := tableAt digitsHex 0

/-- Truncating division takes a value towards zero. -/
theorem tdiv_between (i : ℤ) {b : ℤ} (hb : 1 < b) :
    (i < 0 → i ≤ i.tdiv b ∧ i.tdiv b ≤ 0) ∧ (0 ≤ i → 0 ≤ i.tdiv b ∧ i.tdiv b ≤ i) := by
  have habs : (i.tdiv b).natAbs ≤ i.natAbs := Int.natAbs_tdiv_le_natAbs i b
  constructor
  · intro hneg
    have hnonneg : 0 ≤ (-i).tdiv b := Int.tdiv_nonneg (by omega) (by omega)
    rw [Int.neg_tdiv] at hnonneg
    omega
  · intro hpos
    have hnonneg : 0 ≤ i.tdiv b := Int.tdiv_nonneg hpos (by omega)
    omega

/-- The remainder has the sign of the value. -/
theorem tmod_between (i b : ℤ) :
    (i < 0 → i ≤ i.tmod b ∧ i.tmod b ≤ 0) ∧ (0 ≤ i → 0 ≤ i.tmod b ∧ i.tmod b ≤ i) := by
  have habs : (i.tmod b).natAbs ≤ i.natAbs := by
    rw [Int.natAbs_tmod]
    exact Nat.mod_le _ _
  constructor
  · intro hneg
    have hnonneg : 0 ≤ (-i).tmod b := Int.tmod_nonneg b (by omega)
    rw [Int.neg_tmod] at hnonneg
    omega
  · intro hpos
    have hnonneg : 0 ≤ i.tmod b := Int.tmod_nonneg b hpos
    omega

theorem natAbs_tdiv_lt {i b : ℤ} (hb : 1 < b) (h : i.tdiv b ≠ 0) : (i.tdiv b).natAbs < i.natAbs := by
  have hi : i ≠ 0 := by
    rintro rfl
    exact h (Int.zero_tdiv b)
  rw [Int.natAbs_tdiv]
  exact Nat.div_lt_self (by omega) (by omega)

/-- The loop of `convert` and `convertHex`: the storage and the pointer behind the digits. -/
def writeDigits (t : IntType) (r : Radix) (mem : List UInt8) (p : ℕ) (i : ℤ) :
    Option (List UInt8 × ℕ) :=
  (t.checked (i.tmod r.base)).bind fun remainder =>
  (int32 remainder).bind fun lsd =>
  (t.checked (i.tdiv r.base)).bind fun _ =>
  (r.table lsd).bind fun c =>
  (write mem p [c]).bind fun mem =>
  if _h : i.tdiv r.base ≠ 0 then writeDigits t r mem (p + 1) (i.tdiv r.base) else some (mem, p + 1)
termination_by i.natAbs
decreasing_by exact natAbs_tdiv_lt r.one_lt _h

/-- Write the NUL and reverse; the length of what has been written since `buf`. -/
def finishDigits (mem : List UInt8) (buf p : ℕ) : Option (List UInt8 × ℕ) :=
  (write mem p [0]).map fun mem => (reverseWindow mem buf (p - buf), p - buf)

def convert (t : IntType) (mem : List UInt8) (buf : ℕ) (value : ℤ) : Option (List UInt8 × ℕ) :=
  (writeDigits t decimal mem buf value).bind fun (mem, p) =>
  if value < 0 then (write mem p [MINUS]).bind fun mem => finishDigits mem buf (p + 1)
  else finishDigits mem buf p

def convertHex (mem : List UInt8) (buf : ℕ) (value : UInt64) : Option (List UInt8 × ℕ) :=
  (writeDigits .unsignedLong hexadecimal mem buf value.toNat).bind fun (mem, p) =>
  finishDigits mem buf p

/-! ## Numerals -/

def upperHex (c : Char) : UInt8 := byte c.toUpper

def hexNumeral (n : ℕ) : List UInt8 := (Nat.toDigits 16 n).map upperHex

def isHexDigit (b : UInt8) : Bool := isDigit b || 65 ≤ b && b ≤ 70

def hexDigitValue (b : UInt8) : Option ℕ :=
  if isDigit b then some (b.toNat - 48)
  else if isHexDigit b then some (b.toNat - 55)
  else none

def hexValue (bs : List UInt8) : Option ℕ :=
  if bs = [] then none else readNumeral 16 hexDigitValue bs

def ZERO : UInt8 := 48

/-- `bs` is how `v` is written without leading zeros, with a sign where it is negative. -/
structure CanonicalDecimal (v : ℤ) (bs : List UInt8) : Prop where
  value : intValue bs = some v
  zero : v = 0 → bs = [ZERO]
  shape : v ≠ 0 → ∃ d rest, bs = (if v < 0 then [MINUS] else []) ++ d :: rest ∧ d ≠ ZERO ∧
    (d :: rest).all isDigit

structure CanonicalHex (v : ℕ) (bs : List UInt8) : Prop where
  value : hexValue bs = some v
  zero : v = 0 → bs = [ZERO]
  shape : v ≠ 0 → ∃ d rest, bs = d :: rest ∧ d ≠ ZERO ∧ bs.all isHexDigit

theorem numeral_eq (v : ℤ) :
    numeral v = (if v < 0 then [MINUS] else []) ++ (Nat.toDigits 10 v.natAbs).map byte := by
  cases v with
  | ofNat n =>
    have hn : ¬ Int.ofNat n < 0 := Int.not_lt.mpr (Int.natCast_nonneg n)
    rw [if_neg hn]
    rfl
  | negSucc n =>
    rw [if_pos (Int.negSucc_lt_zero n)]
    rfl

theorem canonicalDecimal_numeral (v : ℤ) : CanonicalDecimal v (numeral v) where
  value := intValue_numeral v
  zero := by
    rintro rfl
    decide
  shape hv := by
    obtain ⟨d, rest, hpos, hd, hdigits⟩ :=
      toDigits_eq_cons (b := 10) (by decide) (Int.natAbs_pos.mpr hv)
    have hlead : ∀ d < 10, 0 < d → byte (Nat.digitChar d) ≠ ZERO := by decide
    refine ⟨byte d.digitChar, rest.map byte, ?_, hlead d hd hpos, ?_⟩
    · rw [numeral_eq, hdigits, List.map_cons]
    · rw [← List.map_cons, ← hdigits]
      exact List.all_eq_true.mpr fun b hb => isDigit_of_mem_digits hb

theorem canonicalHex_hexNumeral (n : ℕ) : CanonicalHex n (hexNumeral n) where
  value := by
    have hvalue : ∀ d < 16, hexDigitValue (upperHex d.digitChar) = some d := by decide
    have hne : hexNumeral n ≠ [] := by simp [hexNumeral]
    rw [hexValue, if_neg hne]
    exact readNumeral_toDigits (by decide) hvalue n
  zero := by
    rintro rfl
    decide
  shape hn := by
    obtain ⟨d, rest, hpos, hd, hdigits⟩ :=
      toDigits_eq_cons (b := 16) (by decide) (Nat.pos_of_ne_zero hn)
    have hlead : ∀ d < 16, 0 < d → upperHex (Nat.digitChar d) ≠ ZERO := by decide
    have hhex : ∀ d < 16, isHexDigit (upperHex (Nat.digitChar d)) = true := by decide
    refine ⟨upperHex d.digitChar, rest.map upperHex, ?_, hlead d hd hpos, ?_⟩
    · rw [hexNumeral, hdigits, List.map_cons]
    · apply List.all_eq_true.mpr
      intro b hb
      obtain ⟨c, hc, rfl⟩ := List.mem_map.mp hb
      obtain ⟨d, hd, rfl⟩ := mem_toDigits (by decide) hc
      exact hhex d hd

/-! ## The loop -/

section Loop

variable {t : IntType} {r : Radix} {symbol : Char → UInt8}
  (htable : ∀ d : ℤ, t.Holds d → d.natAbs < r.base.natAbs →
    r.table d = some (symbol d.natAbs.digitChar))
  (hbase : r.base ≤ 16)
include htable hbase

/-- One turn: nothing overflows, the table has the digit, and it is written at `p`. -/
theorem writeDigits_turn {i : ℤ} (hi : t.Holds i) {mem : List UInt8} {p : ℕ}
    (hp : p + 1 ≤ mem.length) :
    t.Holds (i.tdiv r.base) ∧ writeDigits t r mem p i =
      let written := overwrite mem p [symbol (i.natAbs % r.base.natAbs).digitChar]
      if i.tdiv r.base ≠ 0 then writeDigits t r written (p + 1) (i.tdiv r.base)
      else some (written, p + 1) := by
  have hone := r.one_lt
  obtain ⟨hdivneg, hdivpos⟩ := tdiv_between i hone
  obtain ⟨hmodneg, hmodpos⟩ := tmod_between i r.base
  have hquot : t.Holds (i.tdiv r.base) := hi.of_le hdivneg hdivpos
  have hrem : t.Holds (i.tmod r.base) := hi.of_le hmodneg hmodpos
  have habs : (i.tmod r.base).natAbs = i.natAbs % r.base.natAbs := Int.natAbs_tmod i r.base
  have hlt : (i.tmod r.base).natAbs < r.base.natAbs := by
    rw [habs]
    exact Nat.mod_lt _ (by omega)
  have hdigit := htable _ hrem hlt
  rw [habs] at hdigit
  refine ⟨hquot, ?_⟩
  rw [writeDigits, IntType.checked, if_pos hrem, Option.bind_some,
    int32_eq (by omega) (by omega), Option.bind_some, IntType.checked, if_pos hquot,
    Option.bind_some, hdigit, Option.bind_some, write_eq hp, Option.bind_some]
  rfl

/-- The digits are written from the least significant one on. -/
theorem writeDigits_eq {i : ℤ} (hi : t.Holds i) {mem : List UInt8} {p : ℕ}
    (hp : p + (Nat.toDigits r.base.natAbs i.natAbs).length ≤ mem.length) :
    writeDigits t r mem p i =
      some (overwrite mem p ((Nat.toDigits r.base.natAbs i.natAbs).map symbol).reverse,
        p + (Nat.toDigits r.base.natAbs i.natAbs).length) := by
  have hone : 1 < r.base.natAbs := by
    have := r.one_lt
    omega
  induction hn : i.natAbs using Nat.strongRecOn generalizing i mem p with
  | ind n ih =>
    subst hn
    have hquot : (i.tdiv r.base).natAbs = i.natAbs / r.base.natAbs := Int.natAbs_tdiv i r.base
    rw [Nat.toDigits_eq_if hone] at hp ⊢
    by_cases hlast : i.natAbs < r.base.natAbs
    · rw [if_pos hlast] at hp ⊢
      rw [List.length_singleton] at hp ⊢
      have hzero : i.tdiv r.base = 0 := by
        rw [← Int.natAbs_eq_zero, hquot, Nat.div_eq_of_lt hlast]
      rw [(writeDigits_turn htable hbase hi hp).2, hzero, if_neg (by simp), Nat.mod_eq_of_lt hlast]
      rfl
    · rw [if_neg hlast] at hp ⊢
      rw [List.length_append, List.length_singleton] at hp ⊢
      have hmore : i.tdiv r.base ≠ 0 := by
        rw [← Int.natAbs_ne_zero, hquot]
        exact Nat.ne_of_gt (Nat.div_pos (by omega) (by omega))
      have hnext : p + 1 ≤ mem.length := by omega
      obtain ⟨hholds, hturn⟩ := writeDigits_turn htable hbase hi hnext
      have hlength : (overwrite mem p
          [symbol (i.natAbs % r.base.natAbs).digitChar]).length = mem.length := by
        apply length_overwrite
        rw [List.length_singleton]
        omega
      have hroom : p + 1 + (Nat.toDigits r.base.natAbs (i.tdiv r.base).natAbs).length ≤
          (overwrite mem p [symbol (i.natAbs % r.base.natAbs).digitChar]).length := by
        rw [hlength, hquot]
        omega
      have hrest := ih _ (natAbs_tdiv_lt r.one_lt hmore) hholds hroom rfl
      rw [hturn, if_pos hmore, hrest, hquot, List.map_append, List.map_singleton,
        List.reverse_append, List.reverse_singleton, ← overwrite_overwrite_end]
      · rw [List.length_singleton]
        congr 2
        omega
      · rw [List.length_singleton, List.length_reverse, List.length_map]
        omega

end Loop

theorem zero_eq {d : ℤ} (h : d.natAbs < 10) : zero d = some (byte d.natAbs.digitChar) := by
  have htable : ∀ n < 10, zero (n : ℕ) = some (byte n.digitChar) ∧
      zero (-(n : ℕ)) = some (byte n.digitChar) := by decide
  obtain ⟨hpos, hneg⟩ := htable d.natAbs h
  rcases Int.natAbs_eq d with hd | hd
  · rw [hd, Int.natAbs_natCast]
    exact hpos
  · rw [hd, Int.natAbs_neg, Int.natAbs_natCast]
    exact hneg

theorem digitsHex_eq {d : ℤ} (hd : 0 ≤ d) (h : d.natAbs < 16) :
    tableAt digitsHex 0 d = some (upperHex d.natAbs.digitChar) := by
  have htable : ∀ n < 16, tableAt digitsHex 0 (n : ℕ) = some (upperHex n.digitChar) := by decide
  rw [Int.eq_natAbs_of_nonneg hd, Int.natAbs_natCast]
  exact htable d.natAbs h

/-- What has been written since `buf` is reversed and NUL-terminated. -/
theorem finishDigits_eq {mem : List UInt8} {buf : ℕ} (ds : List UInt8)
    (h : buf + ds.length + 1 ≤ mem.length) :
    finishDigits (overwrite mem buf ds) buf (buf + ds.length) =
      some (overwrite mem buf (ds.reverse ++ [0]), ds.length) := by
  have hlength : (overwrite mem buf ds).length = mem.length := length_overwrite (by omega)
  rw [finishDigits, write_eq (by rw [hlength]; exact h), Option.map_some,
    overwrite_overwrite_end _ _ _ _ h, Nat.add_sub_cancel_left,
    reverseWindow_overwrite _ _ _ _ h]

theorem convert_eq {t : IntType} {v : ℤ} (hv : t.Holds v) {mem : List UInt8} {buf : ℕ}
    (h : buf + (numeral v).length + 1 ≤ mem.length) :
    convert t mem buf v = some (overwrite mem buf (numeral v ++ [0]), (numeral v).length) := by
  obtain ⟨ds, hds⟩ : ∃ ds, ds = ((Nat.toDigits 10 v.natAbs).map byte).reverse := ⟨_, rfl⟩
  have hlen : ds.length = (Nat.toDigits 10 v.natAbs).length := by
    rw [hds, List.length_reverse, List.length_map]
  have hnum : numeral v = ((ds ++ if v < 0 then [MINUS] else []).reverse) := by
    rw [numeral_eq, hds]
    split <;> simp
  have hdigits (hp : buf + ds.length ≤ mem.length) :
      writeDigits t decimal mem buf v = some (overwrite mem buf ds, buf + ds.length) := by
    rw [hlen] at hp ⊢
    rw [hds]
    exact writeDigits_eq (fun d _ hd => zero_eq hd) (by decide) hv hp
  rw [hnum] at h ⊢
  rw [List.length_reverse] at h ⊢
  by_cases hneg : v < 0
  · rw [if_pos hneg] at h ⊢
    rw [List.length_append, List.length_singleton] at h
    have hwritten : (overwrite mem buf ds).length = mem.length := length_overwrite (by omega)
    have hroom : buf + ds.length + [MINUS].length ≤ mem.length := by
      rw [List.length_singleton]
      omega
    have hsigned : buf + (ds ++ [MINUS]).length + 1 ≤ mem.length := by
      rw [List.length_append, List.length_singleton]
      exact h
    have hfinish := finishDigits_eq (ds ++ [MINUS]) hsigned
    rw [List.length_append, List.length_singleton, ← Nat.add_assoc] at hfinish
    rw [convert, hdigits (by omega), Option.bind_some]
    simp only [if_pos hneg]
    rw [write_eq (by rw [hwritten]; exact hroom), Option.bind_some,
      overwrite_overwrite_end _ _ _ _ hroom, hfinish, List.length_append, List.length_singleton]
  · rw [if_neg hneg, List.append_nil] at h ⊢
    rw [convert, hdigits (by omega), Option.bind_some]
    simp only [if_neg hneg]
    exact finishDigits_eq ds h

theorem convertHex_eq {v : UInt64} {mem : List UInt8} {buf : ℕ}
    (h : buf + (hexNumeral v.toNat).length + 1 ≤ mem.length) :
    convertHex mem buf v =
      some (overwrite mem buf (hexNumeral v.toNat ++ [0]), (hexNumeral v.toNat).length) := by
  have hlt : v.toNat < 2 ^ 64 := v.toNat_lt
  have hv : IntType.unsignedLong.Holds v.toNat := by
    have hhi : IntType.unsignedLong.hi = 2 ^ 64 - 1 := rfl
    have hlo : IntType.unsignedLong.lo = 0 := rfl
    exact ⟨by omega, by omega⟩
  obtain ⟨ds, hds⟩ : ∃ ds, ds = (hexNumeral v.toNat).reverse := ⟨_, rfl⟩
  have hlen : ds.length = (Nat.toDigits 16 v.toNat).length := by
    rw [hds, List.length_reverse, hexNumeral, List.length_map]
  have hnum : hexNumeral v.toNat = ds.reverse := by rw [hds, List.reverse_reverse]
  rw [hnum] at h ⊢
  rw [List.length_reverse] at h ⊢
  have hdigits : writeDigits .unsignedLong hexadecimal mem buf v.toNat =
      some (overwrite mem buf ds, buf + ds.length) := by
    rw [hlen] at h ⊢
    rw [hds, hexNumeral]
    refine writeDigits_eq (fun d hd hlt => digitsHex_eq hd.1 hlt) (by decide) hv ?_
    exact Nat.le_of_succ_le h
  rw [convertHex, hdigits, Option.bind_some]
  exact finishDigits_eq ds h

/-! ## Both functions -/

/-- For every value of every integer type, and every address: given the room, `convert`
and `convertHex` compute without overflow, write the numeral of the value and a NUL
behind it, and nothing else, and return the length of the numeral. -/
theorem convert_exact :
    (∀ (t : IntType) (v : ℤ), t.Holds v → CanonicalDecimal v (numeral v) ∧
      ∀ mem buf, buf + (numeral v).length + 1 ≤ mem.length →
        convert t.promoted mem buf v =
          some (overwrite mem buf (numeral v ++ [0]), (numeral v).length)) ∧
    ∀ v : UInt64, CanonicalHex v.toNat (hexNumeral v.toNat) ∧
      ∀ mem buf, buf + (hexNumeral v.toNat).length + 1 ≤ mem.length →
        convertHex mem buf v =
          some (overwrite mem buf (hexNumeral v.toNat ++ [0]), (hexNumeral v.toNat).length) := by
  refine ⟨fun t v hv => ⟨canonicalDecimal_numeral v, fun mem buf h => ?_⟩,
    fun v => ⟨canonicalHex_hexNumeral v.toNat, fun mem buf h => convertHex_eq h⟩⟩
  exact convert_eq hv.promoted h

/-- The least `int` and a pointer, in a storage of sixteen bytes. -/
theorem convert_exact_least :
    convert .int (List.replicate 16 7) 2 (-2147483648) =
        some (overwrite (List.replicate 16 7) 2 (numeral (-2147483648) ++ [0]), 11) ∧
      convertHex (List.replicate 16 7) 0 48879 =
        some (overwrite (List.replicate 16 7) 0 ([66, 69, 69, 70] ++ [0]), 4) :=
  ⟨(convert_exact.1 .int (-2147483648) (by decide)).2 _ 2 (by decide),
    (convert_exact.2 48879).2 _ 0 (by decide)⟩

end ReactorNet.detail
