import Mathlib.Data.List.Basic
import Mathlib.Data.Nat.Notation
import Mathlib.Tactic.TypeStar

/-!
# Circular buffers

A buffer of `n` slots that are filled in turn; a full buffer gives up its oldest
element for the new one. The elements are kept from the newest to the oldest, so that
the index of an element is its age in pushes. An iterator is the slot it denotes.
-/
namespace ReactorNet

structure CircularBuffer (α : Type*) (n : ℕ) where
  items : List α
  next : ℕ
  length_le : items.length ≤ n
  next_lt : next < n

namespace CircularBuffer

variable {α : Type*} {n : ℕ} (b : CircularBuffer α n)

/-- A buffer constructed with its capacity holds no element. -/
def construct (hn : 0 < n) : CircularBuffer α n := ⟨[], 0, Nat.zero_le n, hn⟩

def pushBack (x : α) : CircularBuffer α n where
  items := (x :: b.items).take n
  next := (b.next + 1) % n
  length_le := List.length_take_le n _
  next_lt := Nat.mod_lt _ (Nat.zero_lt_of_lt b.next_lt)

/-- What the next `push_back` overwrites: the oldest element of a full buffer. -/
def overwritten : List α := b.items.drop (n - 1)

def modifyBack (f : α → α) : CircularBuffer α n where
  items := b.items.modifyHead f
  next := b.next
  length_le := by
    rw [List.length_modifyHead]
    exact b.length_le
  next_lt := b.next_lt

/-- The slot that `end() - 1` denotes. -/
def lastSlot : ℕ := (b.next + n - 1) % n

variable {b}

@[simp] theorem pushBack_newest (x : α) : (b.pushBack x).items[0]? = some x := by
  have hn : 0 < n := Nat.zero_lt_of_lt b.next_lt
  simp [pushBack, hn]

@[simp] theorem pushBack_older (x : α) (d : ℕ) :
    (b.pushBack x).items[d + 1]? = if d + 1 < n then b.items[d]? else none := by
  simp [pushBack, List.getElem?_take]

theorem pushBack_ne_nil (x : α) : (b.pushBack x).items ≠ [] := by
  intro h
  have hnewest := pushBack_newest (b := b) x
  rw [h] at hnewest
  cases hnewest

theorem age_lt {d : ℕ} {x : α} (h : b.items[d]? = some x) : d < n := by
  obtain ⟨hlt, -⟩ := List.getElem?_eq_some_iff.mp h
  exact Nat.lt_of_lt_of_le hlt b.length_le

/-- An element is kept by a push unless it is overwritten. -/
theorem mem_pushBack_or {x y : α} (h : y ∈ b.items) :
    y ∈ (b.pushBack x).items ∨ y ∈ b.overwritten := by
  have hn : 0 < n := Nat.zero_lt_of_lt b.next_lt
  rw [← List.take_append_drop (n - 1) b.items] at h
  rcases List.mem_append.mp h with h | h
  · left
    show y ∈ (x :: b.items).take n
    rw [List.take_cons hn]
    exact List.mem_cons_of_mem x h
  · right
    exact h

@[simp] theorem modifyBack_newest (f : α → α) :
    (b.modifyBack f).items[0]? = b.items[0]?.map f := by
  obtain ⟨items, next, hlength, hnext⟩ := b
  cases items <;> rfl

@[simp] theorem modifyBack_older (f : α → α) (d : ℕ) :
    (b.modifyBack f).items[d + 1]? = b.items[d + 1]? := by
  obtain ⟨items, next, hlength, hnext⟩ := b
  cases items <;> rfl

theorem modifyBack_eq_nil (f : α → α) : (b.modifyBack f).items = [] ↔ b.items = [] := by
  obtain ⟨items, next, hlength, hnext⟩ := b
  cases items <;> simp [modifyBack]

/-- After `k` pushes `end() - 1` denotes slot `k - 1`, counted around. -/
theorem lastSlot_eq {k : ℕ} (hk : 0 < k) (hnext : b.next = k % n) :
    b.lastSlot = (k - 1) % n := by
  have hn : 0 < n := Nat.zero_lt_of_lt b.next_lt
  have hshift : (k - 1 + n) % n = (k % n + (n - 1)) % n := by
    rw [show k - 1 + n = k + (n - 1) by omega, Nat.mod_add_mod]
  rw [lastSlot, hnext, Nat.add_sub_assoc hn, ← hshift, Nat.add_mod_right]

end CircularBuffer

end ReactorNet
