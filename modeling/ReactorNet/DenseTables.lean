import Mathlib.Data.List.Basic
import Mathlib.Data.Set.Function
import Mathlib.Order.Lattice

/-!
# Dense tables

A list of rows without gaps, and members who each know the position of the row they
own. A removal moves the last row into the hole, so that the owner of that row has to
be told its new position.
-/
namespace ReactorNet.DenseTables

variable {R M : Type*}

/-- Swap row `i` with the last one and drop the last. -/
def swapRemove (rows : List R) (i : ℕ) : List R :=
  (rows.getLast?.elim rows fun z => rows.set i z).dropLast

@[simp] theorem length_swapRemove (rows : List R) (i : ℕ) :
    (swapRemove rows i).length = rows.length - 1 := by
  cases h : rows.getLast? <;> simp [swapRemove, h]

theorem getElem?_swapRemove {rows : List R} {i : ℕ} (j : ℕ) (hj : j + 1 < rows.length) :
    (swapRemove rows i)[j]? = if j = i then rows[rows.length - 1]? else rows[j]? := by
  have hne : rows ≠ [] := List.ne_nil_of_length_pos (by omega)
  obtain ⟨z, hz⟩ : ∃ z, rows.getLast? = some z := ⟨_, List.getLast?_eq_some_getLast hne⟩
  have hset : j < (rows.set i z).length - 1 := by
    rw [List.length_set]
    omega
  rw [swapRemove, hz, Option.elim_some, List.getElem?_dropLast, if_pos hset, ← List.getLast?_eq_getElem?,
    hz, List.getElem?_set]
  by_cases h : i = j
  · subst h
    simp only [if_true]
    rw [if_pos (by omega)]
  · rw [if_neg h, if_neg (Ne.symm h)]

theorem swapRemove_last {rows : List R} {i : ℕ} (h : i + 1 = rows.length) :
    swapRemove rows i = rows.dropLast := by
  apply List.ext_getElem?
  intro j
  rcases Nat.lt_or_ge (j + 1) rows.length with hj | hj
  · rw [getElem?_swapRemove j hj, if_neg (by omega), List.getElem?_dropLast, if_pos (by omega)]
  · rw [List.getElem?_eq_none (by rw [length_swapRemove]; omega),
      List.getElem?_eq_none (by rw [List.length_dropLast]; omega)]

/-- The members own the rows: everyone the row at its position, and every row has an
owner. -/
structure Indexed (owns : R → M → Prop) (rows : List R) (mem : M → Prop) (index : M → ℤ) :
    Prop where
  row : ∀ m, mem m → ∃ (i : ℕ) (r : R), index m = i ∧ rows[i]? = some r ∧ owns r m
  member : ∀ (i : ℕ) (r : R), rows[i]? = some r → ∃ m, mem m ∧ index m = i

variable {owns owns' : R → M → Prop} {rows : List R} {mem mem' : M → Prop} {index index' : M → ℤ}
  {m n : M} {i : ℕ} {r : R}

namespace Indexed

theorem empty (owns : R → M → Prop) (index : M → ℤ) (hmem : ∀ m, ¬mem m) :
    Indexed owns [] mem index := by
  constructor
  · intro m hm
    exact absurd hm (hmem m)
  · intro i r hr
    simp at hr

theorem owned (h : Indexed owns rows mem index) (hr : rows[i]? = some r) :
    ∃ m, mem m ∧ index m = i ∧ owns r m := by
  obtain ⟨m, hm, hi⟩ := h.member i r hr
  obtain ⟨j, s, hj, hs, ho⟩ := h.row m hm
  have hij : j = i := by omega
  subst hij
  rw [hr] at hs
  cases hs
  exact ⟨m, hm, hi, ho⟩

theorem row_at (h : Indexed owns rows mem index) (hm : mem m) (hi : index m = i) :
    ∃ r, rows[i]? = some r ∧ owns r m := by
  obtain ⟨j, r, hj, hr, ho⟩ := h.row m hm
  have hij : j = i := by omega
  subst hij
  exact ⟨r, hr, ho⟩

theorem index_lt (h : Indexed owns rows mem index) (hm : mem m) (hi : index m = i) :
    i < rows.length := by
  obtain ⟨r, hr, -⟩ := h.row_at hm hi
  exact (List.getElem?_eq_some_iff.mp hr).1

theorem index_inj (h : Indexed owns rows mem index)
    (hown : ∀ r m n, mem m → mem n → owns r m → owns r n → m = n) (hm : mem m) (hn : mem n)
    (he : index m = index n) : m = n := by
  obtain ⟨i, r, hi, hr, ho⟩ := h.row m hm
  obtain ⟨s, hs, ho'⟩ := h.row_at hn (he.symm.trans hi)
  rw [hr] at hs
  cases hs
  exact hown r m n hm hn ho ho'

/-- The positions of the members are a bijection onto those of the table. -/
theorem bijOn (h : Indexed owns rows mem index)
    (hown : ∀ r m n, mem m → mem n → owns r m → owns r n → m = n) :
    Set.BijOn index {m | mem m} {i : ℤ | 0 ≤ i ∧ i < rows.length} := by
  refine ⟨?_, fun m hm n hn he => h.index_inj hown hm hn he, ?_⟩
  · intro m hm
    obtain ⟨i, r, hi, hr, -⟩ := h.row m hm
    have hlt := h.index_lt hm hi
    constructor <;> omega
  · intro i hi
    obtain ⟨k, rfl⟩ := Int.eq_ofNat_of_zero_le hi.1
    have hk : k < rows.length := by
      have := hi.2
      omega
    obtain ⟨m, hm, he⟩ := h.member k rows[k] (List.getElem?_eq_getElem hk)
    exact ⟨m, hm, he⟩

theorem map {R' : Type*} {owns' : R' → M → Prop} (h : Indexed owns rows mem index) (f : R → R')
    (hf : ∀ r m, owns r m → owns' (f r) m) : Indexed owns' (rows.map f) mem index := by
  constructor
  · intro m hm
    obtain ⟨i, r, hi, hr, ho⟩ := h.row m hm
    exact ⟨i, f r, hi, by rw [List.getElem?_map, hr, Option.map_some], hf r m ho⟩
  · intro i s hs
    rw [List.getElem?_map] at hs
    obtain ⟨r, hr, -⟩ := Option.map_eq_some_iff.mp hs
    exact h.member i r hr

/-- Rows whose key gives away their owner have different keys. -/
theorem pairwise_ne {K : Type*} (h : Indexed owns rows mem index) (key : R → K)
    (hkey : ∀ r s m n, owns r m → owns s n → key r = key s → m = n) :
    rows.Pairwise fun r s => key r ≠ key s := by
  rw [List.pairwise_iff_getElem]
  intro i j hi hj hij he
  obtain ⟨m, -, hmi, hm⟩ := h.owned (List.getElem?_eq_getElem hi)
  obtain ⟨n, -, hnj, hn⟩ := h.owned (List.getElem?_eq_getElem hj)
  have hmn := hkey _ _ m n hm hn he
  subst hmn
  omega

/-- A row for a new member goes to the end. -/
theorem push (h : Indexed owns rows mem index) (hm : ¬mem m) (hr : owns' r m)
    (hmem : ∀ n, mem' n ↔ n = m ∨ mem n) (hself : index' m = rows.length)
    (hindex : ∀ n, n ≠ m → index' n = index n)
    (hframe : ∀ s n, n ≠ m → owns s n → owns' s n) :
    Indexed owns' (rows ++ [r]) mem' index' := by
  constructor
  · intro n hn
    by_cases hnm : n = m
    · subst hnm
      exact ⟨rows.length, r, hself, by simp, hr⟩
    · have hmem := ((hmem n).mp hn).resolve_left hnm
      obtain ⟨i, s, hi, hs, ho⟩ := h.row n hmem
      have hlt := h.index_lt hmem hi
      exact ⟨i, s, (hindex n hnm).trans hi, by rw [List.getElem?_append_left hlt, hs],
        hframe s n hnm ho⟩
  · intro i s hs
    rcases Nat.lt_or_ge i rows.length with hlt | hge
    · rw [List.getElem?_append_left hlt] at hs
      obtain ⟨n, hn, hi⟩ := h.member i s hs
      have hnm : n ≠ m := fun e => hm (e ▸ hn)
      exact ⟨n, (hmem n).mpr (Or.inr hn), (hindex n hnm).trans hi⟩
    · have hlt := (List.getElem?_eq_some_iff.mp hs).1
      rw [List.length_append, List.length_singleton] at hlt
      have hi : i = rows.length := by omega
      exact ⟨m, (hmem m).mpr (Or.inl rfl), by rw [hself, hi]⟩

/-- A member rewrites its own row. -/
theorem set (h : Indexed owns rows mem index)
    (hown : ∀ r m n, mem m → mem n → owns r m → owns r n → m = n) (hm : mem m) (hi : index m = i)
    (hr : owns' r m) (hindex : ∀ n, index' n = index n) (hframe : ∀ s n, n ≠ m → owns s n → owns' s n) :
    Indexed owns' (rows.set i r) mem index' := by
  have hlt := h.index_lt hm hi
  constructor
  · intro n hn
    by_cases hnm : n = m
    · subst hnm
      exact ⟨i, r, (hindex n).trans hi, List.getElem?_set_self hlt, hr⟩
    · obtain ⟨j, s, hj, hs, ho⟩ := h.row n hn
      have hij : i ≠ j := fun e => hnm (h.index_inj hown hn hm (by rw [hj, hi, e]))
      exact ⟨j, s, (hindex n).trans hj, by rw [List.getElem?_set_ne hij, hs], hframe s n hnm ho⟩
  · intro j s hs
    have hj : j < rows.length := by
      simpa using (List.getElem?_eq_some_iff.mp hs).1
    obtain ⟨n, hn, he⟩ := h.member j rows[j] (List.getElem?_eq_getElem hj)
    exact ⟨n, hn, (hindex n).trans he⟩

/-- A member leaves: the last row moves to its place, and only the owner of that row
gets a new position. -/
theorem swapRemove (h : Indexed owns rows mem index)
    (hown : ∀ r m n, mem m → mem n → owns r m → owns r n → m = n) (hm : mem m) (hi : index m = i)
    (hmem : ∀ n, mem' n ↔ n ≠ m ∧ mem n)
    (hindex : ∀ n, mem n → n ≠ m →
      index' n = if index n = (rows.length : ℤ) - 1 then (i : ℤ) else index n)
    (hframe : ∀ s n, n ≠ m → owns s n → owns' s n) :
    Indexed owns' (swapRemove rows i) mem' index' := by
  have hlt := h.index_lt hm hi
  constructor
  · intro n hn
    obtain ⟨hnm, hn⟩ := (hmem n).mp hn
    obtain ⟨j, s, hj, hs, ho⟩ := h.row n hn
    have hjlt := h.index_lt hn hj
    have hij : j ≠ i := fun e => hnm (h.index_inj hown hn hm (by rw [hj, hi, e]))
    have hpos := hindex n hn hnm
    by_cases hlast : j + 1 = rows.length
    · rw [if_pos (by omega)] at hpos
      refine ⟨i, s, hpos, ?_, hframe s n hnm ho⟩
      rw [getElem?_swapRemove i (by omega), if_pos rfl, ← hs]
      congr 1
      omega
    · rw [if_neg (by omega)] at hpos
      refine ⟨j, s, hpos.trans hj, ?_, hframe s n hnm ho⟩
      rw [getElem?_swapRemove j (by omega), if_neg hij, hs]
  · intro j s hs
    have hj : j + 1 < rows.length := by
      have := (List.getElem?_eq_some_iff.mp hs).1
      rw [length_swapRemove] at this
      omega
    rw [getElem?_swapRemove j hj] at hs
    by_cases hji : j = i
    · rw [if_pos hji] at hs
      obtain ⟨n, hn, he⟩ := h.member _ s hs
      have hnm : n ≠ m := by
        intro e
        rw [e, hi] at he
        omega
      refine ⟨n, (hmem n).mpr ⟨hnm, hn⟩, ?_⟩
      rw [hindex n hn hnm, if_pos (by omega), hji]
    · rw [if_neg hji] at hs
      obtain ⟨n, hn, he⟩ := h.member j s hs
      have hnm : n ≠ m := by
        intro e
        rw [e, hi] at he
        omega
      refine ⟨n, (hmem n).mpr ⟨hnm, hn⟩, ?_⟩
      rw [hindex n hn hnm, if_neg (by omega), he]

end Indexed

end ReactorNet.DenseTables
