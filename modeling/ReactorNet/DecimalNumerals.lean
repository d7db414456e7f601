import Mathlib.Algebra.Group.Nat.Defs
import Mathlib.Data.Int.Notation
import Mathlib.Data.List.Basic

/-!
# Decimal numerals as byte strings

What `printf` writes for an integer, and the number a byte string denotes.
-/
namespace ReactorNet.DecimalNumerals

/-- The byte of an ASCII character. -/
def byte (c : Char) : UInt8 := UInt8.ofNat c.toNat

def MINUS : UInt8 := 45

def isDigit (b : UInt8) : Bool := 48 ≤ b && b ≤ 57

def digits (n : ℕ) : List UInt8 := (Nat.toDigits 10 n).map byte

def numeral : ℤ → List UInt8
  | .ofNat n => digits n
  | .negSucc n => MINUS :: digits (n + 1)

@[simp] theorem numeral_natCast (n : ℕ) : numeral n = digits n := rfl

/-- The value of a string of digits, leading zeros included. -/
def natValue (bs : List UInt8) : Option ℕ :=
  if bs ≠ [] ∧ bs.all isDigit then
    some (Nat.ofDigitChars 10 (bs.map fun b => Char.ofNat b.toNat) 0)
  else none

def intValue (bs : List UInt8) : Option ℤ :=
  match bs with
  | [] => none
  | b :: rest => if b = MINUS then (natValue rest).map fun n => -(n : ℤ)
    else (natValue bs).map fun n => (n : ℤ)

theorem byte_of_isDigit {c : Char} (h : c.isDigit = true) :
    isDigit (byte c) = true ∧ Char.ofNat (byte c).toNat = c := by
  have hval : 48 ≤ c.val ∧ c.val ≤ 57 := by simpa [Char.isDigit] using h
  have hge : 48 ≤ c.toNat := UInt32.le_iff_toNat_le.mp hval.1
  have hle : c.toNat ≤ 57 := UInt32.le_iff_toNat_le.mp hval.2
  have hnat : (byte c).toNat = c.toNat := by
    rw [byte, UInt8.toNat_ofNat']
    omega
  refine ⟨?_, by rw [hnat, Char.ofNat_toNat]⟩
  rw [isDigit, Bool.and_eq_true, decide_eq_true_eq, decide_eq_true_eq, UInt8.le_iff_toNat_le,
    UInt8.le_iff_toNat_le, hnat]
  exact ⟨hge, hle⟩

theorem isDigit_of_mem_digits {n : ℕ} {b : UInt8} (h : b ∈ digits n) : isDigit b = true := by
  obtain ⟨c, hc, rfl⟩ := List.mem_map.mp h
  exact (byte_of_isDigit (Nat.isDigit_of_mem_toDigits (by decide) (by decide) hc)).1

theorem digits_ne_nil (n : ℕ) : digits n ≠ [] := by
  simp [digits]

theorem length_digits_le_iff {n k : ℕ} (h : 0 < k) : (digits n).length ≤ k ↔ n < 10 ^ k := by
  rw [digits, List.length_map, Nat.length_toDigits_le_iff (by decide) h]

@[simp] theorem natValue_digits (n : ℕ) : natValue (digits n) = some n := by
  have hchars : (digits n).map (fun b => Char.ofNat b.toNat) = Nat.toDigits 10 n := by
    rw [digits, List.map_map]
    conv_rhs => rw [← List.map_id (Nat.toDigits 10 n)]
    refine List.map_congr_left fun c hc => ?_
    exact (byte_of_isDigit (Nat.isDigit_of_mem_toDigits (by decide) (by decide) hc)).2
  rw [natValue, if_pos ⟨digits_ne_nil n, List.all_eq_true.mpr fun b hb => isDigit_of_mem_digits hb⟩,
    hchars, Nat.ofDigitChars_ten_toDigits]

theorem mem_numeral {z : ℤ} {b : UInt8} (h : b ∈ numeral z) : b = MINUS ∨ isDigit b = true := by
  cases z with
  | ofNat n => exact Or.inr (isDigit_of_mem_digits h)
  | negSucc n => exact (List.mem_cons.mp h).imp_right isDigit_of_mem_digits

/-- Reading back what was written. -/
@[simp] theorem intValue_numeral (z : ℤ) : intValue (numeral z) = some z := by
  cases z with
  | negSucc n =>
    rw [numeral, intValue, if_pos rfl, natValue_digits]
    rfl
  | ofNat n =>
    have hvalue := natValue_digits n
    have hdigit := @isDigit_of_mem_digits n
    rw [numeral]
    cases hdigits : digits n with
    | nil => exact absurd hdigits (digits_ne_nil n)
    | cons b rest =>
      rw [hdigits] at hvalue hdigit
      have hb : b ≠ MINUS := by
        rintro rfl
        exact absurd (hdigit List.mem_cons_self) (by decide)
      rw [intValue, if_neg hb, hvalue]
      rfl

/-- The length of the numeral of a machine integer. -/
theorem length_numeral_le {z : ℤ} {k : ℕ} (hk : 0 < k) (h : z.natAbs < 10 ^ k) :
    (numeral z).length ≤ k + 1 := by
  cases z with
  | ofNat n => exact Nat.le_succ_of_le ((length_digits_le_iff hk).mpr h)
  | negSucc n =>
    rw [numeral, List.length_cons]
    exact Nat.succ_le_succ ((length_digits_le_iff hk).mpr h)

end ReactorNet.DecimalNumerals
