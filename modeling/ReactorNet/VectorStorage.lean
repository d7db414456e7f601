import Mathlib.Data.List.Basic
import Mathlib.Tactic.TypeStar

/-!
# Windows, writes and overlapping copies in a contiguous storage

The elements of a storage are a list. A window is given by its first position and
its length. `overwrite` replaces the elements from a position on, `copyForward` is
the element-by-element copy in increasing order, whose source and destination may
overlap.
-/
namespace ReactorNet.VectorStorage

variable {α : Type*}

/-- The window of `n` elements that starts at position `i`. -/
def slice (mem : List α) (i n : ℕ) : List α := (mem.drop i).take n

/-- Write `data` over the elements that start at position `pos`. -/
def overwrite (mem : List α) (pos : ℕ) (data : List α) : List α :=
  mem.take pos ++ data ++ mem.drop (pos + data.length)

/-- Copy the element at `src` to `dst`, then the next one, and so on `n` times. -/
def copyForward (mem : List α) (src dst : ℕ) : ℕ → List α
  | 0 => mem
  | n + 1 =>
    let copied := copyForward mem src dst n
    match copied[src + n]? with
    | some x => copied.set (dst + n) x
    | none => copied

@[simp] theorem slice_zero (mem : List α) (i : ℕ) : slice mem i 0 = [] := by simp [slice]

theorem length_slice {mem : List α} {i n : ℕ} (h : i + n ≤ mem.length) :
    (slice mem i n).length = n := by
  simp only [slice, List.length_take, List.length_drop]
  omega

theorem getElem?_slice (mem : List α) (i n k : ℕ) :
    (slice mem i n)[k]? = if k < n then mem[i + k]? else none := by
  simp only [slice, List.getElem?_take, List.getElem?_drop]

theorem take_slice (mem : List α) (i : ℕ) {n k : ℕ} (h : k ≤ n) :
    (slice mem i n).take k = slice mem i k := by
  simp [slice, List.take_take, Nat.min_eq_left h]

theorem drop_slice (mem : List α) (i n k : ℕ) :
    (slice mem i n).drop k = slice mem (i + k) (n - k) := by
  simp [slice, List.drop_take, List.drop_drop]

theorem slice_take (mem : List α) {i n k : ℕ} (h : i + n ≤ k) :
    slice (mem.take k) i n = slice mem i n := by
  rw [slice, slice, List.drop_take, List.take_take, Nat.min_eq_left]
  omega

theorem slice_zero_eq_take (mem : List α) (n : ℕ) : slice mem 0 n = mem.take n := rfl

/-- Adjacent windows make one window. -/
theorem slice_append_slice (mem : List α) (i n k : ℕ) :
    slice mem i n ++ slice mem (i + n) k = slice mem i (n + k) := by
  rw [slice, slice, slice, List.take_add, List.drop_drop]

theorem slice_one {mem : List α} {i : ℕ} {x : α} (h : mem[i]? = some x) :
    slice mem i 1 = [x] := by
  obtain ⟨hi, rfl⟩ := List.getElem?_eq_some_iff.mp h
  rw [slice, List.drop_eq_getElem_cons hi, List.take_succ_cons, List.take_zero]

/-- Extending a storage at its end keeps every window inside it. -/
theorem slice_append_left {mem : List α} {i n : ℕ} (h : i + n ≤ mem.length) (ext : List α) :
    slice (mem ++ ext) i n = slice mem i n := by
  simp only [slice]
  rw [List.drop_append_of_le_length (by omega), List.take_append_of_le_length]
  simp only [List.length_drop]
  omega

@[simp] theorem length_overwrite {mem : List α} {pos : ℕ} {data : List α}
    (h : pos + data.length ≤ mem.length) : (overwrite mem pos data).length = mem.length := by
  simp only [overwrite, List.length_append, List.length_take, List.length_drop]
  omega

theorem getElem?_overwrite {mem : List α} {pos : ℕ} {data : List α}
    (h : pos + data.length ≤ mem.length) (k : ℕ) :
    (overwrite mem pos data)[k]? =
      if pos ≤ k ∧ k < pos + data.length then data[k - pos]? else mem[k]? := by
  simp only [overwrite, List.getElem?_append, List.length_append, List.length_take,
    List.getElem?_take, List.getElem?_drop]
  have hpos : min pos mem.length = pos := by omega
  rw [hpos]
  by_cases h₁ : k < pos
  · simp [h₁, show ¬ pos ≤ k by omega, show k < pos + data.length by omega]
  · by_cases h₂ : k < pos + data.length
    · simp [h₁, h₂, show pos ≤ k by omega]
    · simp [h₂]
      congr 1
      omega

/-- A write that starts where the window ends extends the window by the data. -/
theorem slice_overwrite_end {mem : List α} {i n : ℕ} {data : List α}
    (h : i + n + data.length ≤ mem.length) :
    slice (overwrite mem (i + n) data) i (n + data.length) = slice mem i n ++ data := by
  have hw : i + n + data.length ≤ mem.length := h
  apply List.ext_getElem?
  intro k
  rw [getElem?_slice, getElem?_overwrite hw, List.getElem?_append, length_slice (by omega),
    getElem?_slice]
  by_cases hk : k < n
  · simp [hk, show k < n + data.length by omega, show ¬ i + n ≤ i + k by omega]
  · by_cases hd : k < n + data.length
    · simp [hk, hd, show i + n ≤ i + k by omega, show i + k < i + n + data.length by omega,
        show i + k - (i + n) = k - n by omega]
    · simp [hk, hd]
      omega

/-- A write that ends where the window starts extends the window at its front. -/
theorem slice_overwrite_front {mem : List α} {i n : ℕ} {data : List α}
    (h : i + data.length + n ≤ mem.length) :
    slice (overwrite mem i data) i (data.length + n) = data ++ slice mem (i + data.length) n := by
  have hw : i + data.length ≤ mem.length := by omega
  apply List.ext_getElem?
  intro k
  rw [getElem?_slice, getElem?_overwrite hw, List.getElem?_append, getElem?_slice]
  by_cases hk : k < data.length
  · simp [hk, show k < data.length + n by omega]
  · by_cases hn : k < data.length + n
    · simp [hk, hn, show k - data.length < n by omega,
        show i + data.length + (k - data.length) = i + k by omega]
    · simp [hk, hn, show ¬ k - data.length < n by omega]

/-- Two writes one behind the other are one write. -/
theorem overwrite_overwrite_end (mem : List α) (pos : ℕ) (xs ys : List α)
    (h : pos + xs.length + ys.length ≤ mem.length) :
    overwrite (overwrite mem pos xs) (pos + xs.length) ys = overwrite mem pos (xs ++ ys) := by
  have hfront : (mem.take pos).length = pos := by
    rw [List.length_take]
    omega
  have htake : (overwrite mem pos xs).take (pos + xs.length) = mem.take pos ++ xs := by
    rw [overwrite, List.take_left']
    rw [List.length_append, hfront]
  have hdrop : (overwrite mem pos xs).drop (pos + xs.length + ys.length) =
      mem.drop (pos + xs.length + ys.length) := by
    rw [overwrite, List.drop_append, List.length_append, hfront, List.drop_drop,
      List.drop_eq_nil_of_le (by rw [List.length_append, hfront]; omega), List.nil_append]
    congr 1
    omega
  rw [overwrite, htake, hdrop, overwrite, List.length_append, List.append_assoc, List.append_assoc,
    List.append_assoc, List.append_assoc, Nat.add_assoc]

/-- The last of two writes to one place stays. -/
theorem overwrite_overwrite_self (mem : List α) (pos : ℕ) (xs ys zs : List α)
    (hlen : ys.length = xs.length) (h : pos + xs.length + zs.length ≤ mem.length) :
    overwrite (overwrite mem pos (xs ++ zs)) pos ys = overwrite mem pos (ys ++ zs) := by
  have hfront : (mem.take pos).length = pos := by
    rw [List.length_take]
    omega
  have htake : (overwrite mem pos (xs ++ zs)).take pos = mem.take pos := by
    rw [overwrite, List.append_assoc, List.take_left' hfront]
  have hdrop : (overwrite mem pos (xs ++ zs)).drop (pos + ys.length) =
      zs ++ mem.drop (pos + (xs.length + zs.length)) := by
    rw [overwrite, hlen, ← List.append_assoc, List.append_assoc (mem.take pos ++ xs),
      List.drop_left' (by rw [List.length_append, hfront]), List.length_append]
  rw [overwrite, htake, hdrop, overwrite, List.length_append, hlen]
  simp only [List.append_assoc]

theorem slice_overwrite_left (mem : List α) (pos : ℕ) (xs zs : List α) (h : pos ≤ mem.length) :
    slice (overwrite mem pos (xs ++ zs)) pos xs.length = xs := by
  have hfront : (mem.take pos).length = pos := by
    rw [List.length_take]
    omega
  rw [slice, overwrite, List.append_assoc, List.drop_left' hfront, List.append_assoc, List.take_left]

/-- The front up to a place inside what has been written. -/
theorem take_overwrite {mem : List α} {pos : ℕ} (h : pos ≤ mem.length) {data : List α} {n : ℕ}
    (hn : n ≤ data.length) :
    (overwrite mem pos data).take (pos + n) = mem.take pos ++ data.take n := by
  have hfront : (mem.take pos).length = pos := by
    rw [List.length_take]
    omega
  rw [overwrite, List.append_assoc, List.take_append, hfront, Nat.add_sub_cancel_left,
    List.take_append_of_le_length hn, List.take_of_length_le (by omega)]

/-- A write that is not defined outside the storage. -/
def write (mem : List α) (pos : ℕ) (data : List α) : Option (List α) :=
  if pos + data.length ≤ mem.length then some (overwrite mem pos data) else none

theorem write_eq {mem : List α} {pos : ℕ} {data : List α} (h : pos + data.length ≤ mem.length) :
    write mem pos data = some (overwrite mem pos data) := if_pos h

/-- Reverse the `n` elements from `pos` on in place. -/
def reverseWindow (mem : List α) (pos n : ℕ) : List α :=
  overwrite mem pos (slice mem pos n).reverse

theorem reverseWindow_overwrite (mem : List α) (pos : ℕ) (xs zs : List α)
    (h : pos + xs.length + zs.length ≤ mem.length) :
    reverseWindow (overwrite mem pos (xs ++ zs)) pos xs.length =
      overwrite mem pos (xs.reverse ++ zs) := by
  rw [reverseWindow, slice_overwrite_left _ _ _ _ (by omega),
    overwrite_overwrite_self _ _ _ _ _ List.length_reverse h]

@[simp] theorem length_copyForward (mem : List α) (src dst n : ℕ) :
    (copyForward mem src dst n).length = mem.length := by
  induction n with
  | zero => rfl
  | succ n ih =>
    simp only [copyForward]
    split <;> simp [ih]

theorem getElem?_copyForward {mem : List α} {src dst n : ℕ} (hd : dst ≤ src)
    (hn : src + n ≤ mem.length) (k : ℕ) :
    (copyForward mem src dst n)[k]? =
      if dst ≤ k ∧ k < dst + n then mem[src + (k - dst)]? else mem[k]? := by
  induction n generalizing k with
  | zero => simp [copyForward, show ¬ (dst ≤ k ∧ k < dst) by omega]
  | succ n ih =>
    have ih := ih (by omega)
    have hlt : src + n < mem.length := by omega
    have hread : (copyForward mem src dst n)[src + n]? = some mem[src + n] := by
      rw [ih, if_neg (by omega)]
      simp
    simp only [copyForward, hread, List.getElem?_set, length_copyForward]
    by_cases hk : dst + n = k
    · subst hk
      simp [show dst + n < mem.length by omega]
    · rw [if_neg hk, ih]
      by_cases hin : dst ≤ k ∧ k < dst + n
      · simp [hin, show k < dst + (n + 1) by omega]
      · simp [hin, show ¬ (dst ≤ k ∧ k < dst + (n + 1)) by omega]

/-- Copying towards the front moves the window unchanged, also where the source and the
destination overlap. -/
theorem slice_copyForward {mem : List α} {src dst n : ℕ} (hd : dst ≤ src)
    (hn : src + n ≤ mem.length) : slice (copyForward mem src dst n) dst n = slice mem src n := by
  apply List.ext_getElem?
  intro k
  rw [getElem?_slice, getElem?_slice, getElem?_copyForward hd hn]
  by_cases hk : k < n
  · simp [hk]
  · simp [hk]

end ReactorNet.VectorStorage
