import Mathlib.Algebra.Group.Nat.Defs

/-! # Fixed-width integers as most-significant-first byte strings -/
namespace ReactorNet.NetworkByteOrder

/-- The last `n` base-256 digits of `v`, the most significant one first. -/
def bigEndian : ℕ → ℕ → List UInt8
  | 0, _ => []
  | n + 1, v => bigEndian n (v / 256) ++ [UInt8.ofNat v]

/-- The number a byte string denotes when its first byte is the most significant. -/
def fromBigEndian (bs : List UInt8) : ℕ := bs.foldl (fun v b => v * 256 + b.toNat) 0

@[simp] theorem length_bigEndian (n v : ℕ) : (bigEndian n v).length = n := by
  induction n generalizing v with
  | zero => rfl
  | succ n ih => simp [bigEndian, ih]

theorem fromBigEndian_append_singleton (bs : List UInt8) (b : UInt8) :
    fromBigEndian (bs ++ [b]) = fromBigEndian bs * 256 + b.toNat := by
  simp [fromBigEndian]

/-- Reading back what was written gives the value modulo the width. -/
theorem fromBigEndian_bigEndian (n v : ℕ) : fromBigEndian (bigEndian n v) = v % 256 ^ n := by
  induction n generalizing v with
  | zero => simp [bigEndian, fromBigEndian, Nat.mod_one]
  | succ n ih =>
    have hdigit : v % 256 ^ (n + 1) = v % 256 + 256 * (v / 256 % 256 ^ n) := by
      rw [Nat.pow_succ', Nat.mod_mul]
    have hlow : (UInt8.ofNat v).toNat = v % 256 := UInt8.toNat_ofNat'
    rw [bigEndian, fromBigEndian_append_singleton, ih, hlow, hdigit]
    omega

/-- A byte string is the digits of the number it denotes. -/
theorem bigEndian_fromBigEndian {bs : List UInt8} {n : ℕ} (h : bs.length = n) :
    bigEndian n (fromBigEndian bs) = bs := by
  induction n generalizing bs with
  | zero => rw [bigEndian, List.eq_nil_of_length_eq_zero h]
  | succ n ih =>
    have hne : bs ≠ [] := List.ne_nil_of_length_eq_add_one h
    obtain ⟨init, last, rfl⟩ : ∃ init last, bs = init ++ [last] :=
      ⟨_, _, (List.dropLast_concat_getLast hne).symm⟩
    have hlast := last.toNat_lt
    have hhigh : (fromBigEndian init * 256 + last.toNat) / 256 = fromBigEndian init := by omega
    have hlow : UInt8.ofNat (fromBigEndian init * 256 + last.toNat) = last := by
      apply UInt8.toNat_inj.mp
      rw [UInt8.toNat_ofNat']
      omega
    rw [fromBigEndian_append_singleton, bigEndian, hhigh, hlow, ih (by simpa using h)]

/-- The bytes of a machine integer of `n` bytes in network order. -/
def hostToNetwork (n : ℕ) (x : BitVec (8 * n)) : List UInt8 := bigEndian n x.toNat

/-- The machine integer whose `n` bytes in network order are given. -/
def networkToHost (n : ℕ) (bs : List UInt8) : BitVec (8 * n) := BitVec.ofNat _ (fromBigEndian bs)

@[simp] theorem length_hostToNetwork (n : ℕ) (x : BitVec (8 * n)) :
    (hostToNetwork n x).length = n := length_bigEndian n _

@[simp] theorem networkToHost_hostToNetwork (n : ℕ) (x : BitVec (8 * n)) :
    networkToHost n (hostToNetwork n x) = x := by
  apply BitVec.eq_of_toNat_eq
  rw [networkToHost, hostToNetwork, fromBigEndian_bigEndian, BitVec.toNat_ofNat,
    show 256 ^ n = 2 ^ (8 * n) by rw [Nat.pow_mul]]
  simp [Nat.mod_eq_of_lt x.isLt]

theorem hostToNetwork_networkToHost {n : ℕ} {bs : List UInt8} (h : bs.length = n) :
    hostToNetwork n (networkToHost n bs) = bs := by
  have hlt : fromBigEndian bs < 2 ^ (8 * n) := by
    have hmod := fromBigEndian_bigEndian n (fromBigEndian bs)
    rw [bigEndian_fromBigEndian h] at hmod
    rw [hmod, Nat.pow_mul]
    exact Nat.mod_lt _ (Nat.pow_pos (by decide))
  rw [hostToNetwork, networkToHost, BitVec.toNat_ofNat, Nat.mod_eq_of_lt hlt,
    bigEndian_fromBigEndian h]

end ReactorNet.NetworkByteOrder
