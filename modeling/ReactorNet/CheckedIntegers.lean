import Mathlib.Algebra.Order.Group.Int
import Mathlib.Algebra.Order.Ring.Int

/-!
# Checked machine integers

The operations of signed integer types, where a result outside the type is undefined
behaviour and stands as `none`, and the conversions between the types, which wrap. The
rules rewrite an operation whose result fits to its mathematical value.
-/
namespace ReactorNet

/-- The result of an operation in a signed type. -/
def checked (bits : ℕ) (n : ℤ) : Option ℤ :=
  if -2 ^ (bits - 1) ≤ n ∧ n < 2 ^ (bits - 1) then some n else none

/-- The conversion to a signed type. -/
def wrapped (bits : ℕ) (n : ℤ) : ℤ := n.bmod (2 ^ bits)

def int32 (n : ℤ) : Option ℤ := checked 32 n

def int64 (n : ℤ) : Option ℤ := checked 64 n

/-- The conversion to `unsigned`. -/
def toUInt32 (n : ℤ) : ℤ := n % 2 ^ 32

/-- The conversion to `size_t`. -/
def toSize (n : ℤ) : ℕ := (n % 2 ^ 64).toNat

section Rules

variable {α : Type} {n m : ℤ} {f : ℤ → Option α}

theorem some_bind {β : Type} (x : β) (f : β → Option α) : (some x >>= f) = f x := rfl

theorem int32_eq (h : -2147483648 ≤ n) (h' : n ≤ 2147483647) : int32 n = some n := by
  rw [int32, checked, if_pos]
  constructor <;> omega

theorem int32_bind (h : -2147483648 ≤ n) (h' : n ≤ 2147483647) : (int32 n >>= f) = f n := by
  rw [int32_eq h h']
  rfl

theorem int64_eq (h : -9223372036854775808 ≤ n) (h' : n ≤ 9223372036854775807) :
    int64 n = some n := by
  rw [int64, checked, if_pos]
  constructor <;> omega

theorem int64_bind (h : -9223372036854775808 ≤ n) (h' : n ≤ 9223372036854775807) :
    (int64 n >>= f) = f n := by
  rw [int64_eq h h']
  rfl

/-- Truncating division does not overflow on natural operands, and is the floor. -/
theorem int32_tdiv_bind (h : 0 ≤ n) (h' : n ≤ 2147483647) (hm : 0 < m) :
    (int32 (n.tdiv m) >>= f) = f (n / m) := by
  have hle : n / m ≤ n := Int.ediv_le_self m h
  have hge : 0 ≤ n / m := Int.ediv_nonneg h hm.le
  rw [Int.tdiv_eq_ediv_of_nonneg h]
  exact int32_bind (by omega) (by omega)

theorem wrapped_int32 (h : -2147483648 ≤ n) (h' : n ≤ 2147483647) : wrapped 32 n = n := by
  rw [wrapped, Int.bmod_eq_of_le] <;> omega

theorem toUInt32_eq (h : 0 ≤ n) (h' : n ≤ 4294967295) : toUInt32 n = n := by
  rw [toUInt32]
  omega

theorem toSize_eq (h : 0 ≤ n) (h' : n ≤ 2147483647) : toSize n = n.toNat := by
  rw [toSize, Int.emod_eq_of_lt h (by omega)]

end Rules

end ReactorNet
