import Mathlib.Data.List.Basic
import Mathlib.Order.Lattice

/-!
# Ordered sets and maps

A set kept as the strictly increasing list of its elements. Insertion reports
whether the element is new and erasure how many elements it removed; the range
below a bound is a prefix that can be copied out and erased as a whole. A map is a
list with strictly increasing keys.
-/
namespace ReactorNet

/-- A strictly increasing list. -/
structure OrderedSet (α : Type*) [LinearOrder α] where
  toList : List α
  sorted : toList.Pairwise (· < ·)

namespace OrderedSet

variable {α : Type*} [LinearOrder α]

instance : Membership α (OrderedSet α) := ⟨fun s x => x ∈ s.toList⟩

instance (x : α) (s : OrderedSet α) : Decidable (x ∈ s) := inferInstanceAs (Decidable (x ∈ s.toList))

def empty : OrderedSet α := ⟨[], .nil⟩

def size (s : OrderedSet α) : ℕ := s.toList.length

/-- The element `begin()` refers to. -/
def first? (s : OrderedSet α) : Option α := s.toList.head?

/-- The element `lower_bound(x)` refers to, the first that is not below `x`. -/
def lowerBound (s : OrderedSet α) (x : α) : Option α := s.toList.find? (x ≤ ·)

/-- The range from `begin()` to `lower_bound(x)`. -/
def below (s : OrderedSet α) (x : α) : List α := s.toList.filter (· < x)

def eraseBelow (s : OrderedSet α) (x : α) : OrderedSet α :=
  ⟨s.toList.filter (x ≤ ·), s.sorted.filter _⟩

def erase (s : OrderedSet α) (x : α) : OrderedSet α × ℕ :=
  (⟨s.toList.filter (· ≠ x), s.sorted.filter _⟩, if x ∈ s then 1 else 0)

theorem sorted_split {xs : List α} (h : xs.Pairwise (· < ·)) (x : α) :
    (xs.filter (· < x) ++ x :: xs.filter (x < ·)).Pairwise (· < ·) := by
  refine List.pairwise_append.mpr ⟨h.filter _, List.pairwise_cons.mpr ⟨?_, h.filter _⟩, ?_⟩
  · intro y hy
    simpa using (List.mem_filter.mp hy).2
  · intro y hy z hz
    have hyx : y < x := by simpa using (List.mem_filter.mp hy).2
    rcases List.mem_cons.mp hz with rfl | hz
    · exact hyx
    · exact lt_trans hyx (by simpa using (List.mem_filter.mp hz).2)

def insert (s : OrderedSet α) (x : α) : OrderedSet α × Bool :=
  if x ∈ s then (s, false)
  else (⟨s.toList.filter (· < x) ++ x :: s.toList.filter (x < ·), sorted_split s.sorted x⟩, true)

variable {s : OrderedSet α} {x y : α}

theorem mem_def : x ∈ s ↔ x ∈ s.toList := Iff.rfl

@[simp] theorem notMem_empty : x ∉ (empty : OrderedSet α) := List.not_mem_nil

@[simp] theorem mem_insert : y ∈ (s.insert x).1 ↔ y = x ∨ y ∈ s := by
  by_cases hx : x ∈ s
  · rw [insert, if_pos hx]
    exact ⟨Or.inr, fun h => h.elim (fun e => e ▸ hx) id⟩
  · rw [insert, if_neg hx]
    simp only [mem_def, List.mem_append, List.mem_cons, List.mem_filter, decide_eq_true_eq]
    constructor
    · rintro (⟨h, -⟩ | h | ⟨h, -⟩)
      · exact Or.inr h
      · exact Or.inl h
      · exact Or.inr h
    · rintro (h | h)
      · exact Or.inr (Or.inl h)
      · rcases lt_trichotomy y x with hyx | hyx | hyx
        · exact Or.inl ⟨h, hyx⟩
        · exact Or.inr (Or.inl hyx)
        · exact Or.inr (Or.inr ⟨h, hyx⟩)

theorem insert_isNew (h : x ∉ s) : (s.insert x).2 = true := by
  rw [insert, if_neg h]

theorem size_insert (h : x ∉ s) : (s.insert x).1.size = s.size + 1 := by
  have hfilter : s.toList.filter (fun y => !decide (y < x)) = s.toList.filter (x < ·) := by
    apply List.filter_congr
    intro y hy
    have hne : y ≠ x := fun e => h (mem_def.mpr (e ▸ hy))
    rw [← decide_not]
    exact decide_eq_decide.mpr ⟨fun hlt => lt_of_le_of_ne (not_lt.mp hlt) hne.symm,
      fun hlt => not_lt.mpr (le_of_lt hlt)⟩
  have hlength := List.length_eq_length_filter_add (l := s.toList) (· < x)
  rw [hfilter] at hlength
  rw [insert, if_neg h]
  simp only [size, List.length_append, List.length_cons]
  omega

@[simp] theorem mem_erase : y ∈ (s.erase x).1 ↔ y ∈ s ∧ y ≠ x := by
  simp [erase, mem_def]

theorem erase_count (h : x ∈ s) : (s.erase x).2 = 1 := if_pos h

theorem size_erase (h : x ∈ s) : (s.erase x).1.size + 1 = s.size := by
  have hnodup : s.toList.Nodup := s.sorted.imp fun hlt => ne_of_lt hlt
  have herase : s.toList.filter (fun y => decide (y ≠ x)) = s.toList.erase x := by
    rw [hnodup.erase_eq_filter]
    exact List.filter_congr fun y _ => by by_cases hy : y = x <;> simp [hy]
  have hlength := List.length_erase_of_mem (mem_def.mp h)
  have hpos := List.length_pos_of_mem (mem_def.mp h)
  simp only [size, erase, herase]
  omega

@[simp] theorem mem_below : y ∈ s.below x ↔ y ∈ s ∧ y < x := by
  simp [below, mem_def]

@[simp] theorem mem_eraseBelow : y ∈ s.eraseBelow x ↔ y ∈ s ∧ x ≤ y := by
  simp [eraseBelow, mem_def]

theorem nodup_below : (s.below x).Nodup := (s.sorted.filter _).imp fun hlt => ne_of_lt hlt

theorem size_eraseBelow : (s.eraseBelow x).size + (s.below x).length = s.size := by
  have hfilter : s.toList.filter (fun y => !decide (y < x)) = s.toList.filter (x ≤ ·) :=
    List.filter_congr fun y _ => by rw [← decide_not]; exact decide_eq_decide.mpr not_lt
  have hlength := List.length_eq_length_filter_add (l := s.toList) (· < x)
  rw [hfilter] at hlength
  simp only [size, eraseBelow, below]
  omega

theorem mem_of_first? (h : s.first? = some x) : x ∈ s := List.mem_of_head? h

theorem le_of_first? (h : s.first? = some x) (hy : y ∈ s) : x ≤ y := by
  obtain ⟨xs, hs⟩ := s
  cases xs with
  | nil => cases h
  | cons z zs =>
    cases h
    rcases List.mem_cons.mp hy with rfl | hy
    · exact le_refl _
    · exact le_of_lt ((List.pairwise_cons.mp hs).1 y hy)

theorem notMem_of_first? (h : s.first? = none) : y ∉ s := by
  obtain ⟨xs, hs⟩ := s
  cases xs with
  | nil => exact List.not_mem_nil
  | cons z zs => cases h

theorem mem_of_lowerBound (h : s.lowerBound x = some y) : y ∈ s ∧ x ≤ y :=
  ⟨List.mem_of_find?_eq_some h, by simpa using List.find?_some h⟩

end OrderedSet

/-- A list of keys and values with strictly increasing keys. -/
structure OrderedMap (κ ν : Type*) [LinearOrder κ] where
  toList : List (κ × ν)
  sorted : toList.Pairwise fun a b => a.1 < b.1

namespace OrderedMap

variable {κ ν : Type*} [LinearOrder κ]

def empty : OrderedMap κ ν := ⟨[], .nil⟩

/-- `m[key] = value` -/
def assign (m : OrderedMap κ ν) (key : κ) (value : ν) : OrderedMap κ ν where
  toList := m.toList.filter (·.1 < key) ++ (key, value) :: m.toList.filter (key < ·.1)
  sorted := by
    refine List.pairwise_append.mpr
      ⟨m.sorted.filter _, List.pairwise_cons.mpr ⟨?_, m.sorted.filter _⟩, ?_⟩
    · intro p hp
      simpa using (List.mem_filter.mp hp).2
    · intro p hp r hr
      have hlt : p.1 < key := by simpa using (List.mem_filter.mp hp).2
      rcases List.mem_cons.mp hr with rfl | hr
      · exact hlt
      · exact lt_trans hlt (by simpa using (List.mem_filter.mp hr).2)

end OrderedMap

end ReactorNet
