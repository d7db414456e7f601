import Mathlib.Data.List.TakeWhile
import Mathlib.Data.List.Induction

/-!
# Search by halving

`std::lower_bound` on a list, for a predicate that is asked of the middle element. Where
the predicate holds of an initial segment only, the search finds its length; on any other
list it still stops next to elements it has asked about.
-/
namespace ReactorNet.BinarySearch

variable {α : Type*} (below : α → Bool)

/-- The search with a number of halvings that bounds the length of the list. -/
def halve : ℕ → List α → ℕ
  | 0, _ => 0
  | fuel + 1, xs =>
    match xs.drop (xs.length / 2) with
    | [] => 0
    | middle :: after =>
      if below middle then xs.length / 2 + 1 + halve fuel after
      else halve fuel (xs.take (xs.length / 2))

def lowerBound (xs : List α) : ℕ := halve below xs.length xs

/-- Where the search may stop: behind an element that is below, and before one that is not. -/
structure Boundary (xs : List α) (n : ℕ) : Prop where
  le_length : n ≤ xs.length
  before : ∀ i x, i + 1 = n → xs[i]? = some x → below x = true
  behind : ∀ x, xs[n]? = some x → below x = false

variable {below}

theorem boundary_nil : Boundary below [] 0 where
  le_length := Nat.le_refl 0
  before i x hi := by cases hi
  behind x hx := by cases hx

theorem Boundary.after {after : List α} {middle : α} {n : ℕ} (init : List α) (hmiddle : below middle = true)
    (h : Boundary below after n) :
    Boundary below (init ++ middle :: after) (init.length + 1 + n) where
  le_length := by
    have hle := h.le_length
    rw [List.length_append, List.length_cons]
    omega
  before i x hi hx := by
    cases n with
    | zero =>
      obtain rfl : i = init.length := by omega
      rw [List.getElem?_append_right (Nat.le_refl _), Nat.sub_self, List.getElem?_cons_zero] at hx
      exact Option.some.inj hx ▸ hmiddle
    | succ n =>
      obtain rfl : i = init.length + (n + 1) := by omega
      rw [List.getElem?_append_right (Nat.le_add_right _ _), Nat.add_sub_cancel_left,
        List.getElem?_cons_succ] at hx
      exact h.before n x rfl hx
  behind x hx := by
    rw [Nat.add_right_comm, List.getElem?_append_right (by omega), Nat.add_assoc,
      Nat.add_sub_cancel_left, List.getElem?_cons_succ] at hx
    exact h.behind x hx

theorem Boundary.take {init : List α} {middle : α} {n : ℕ} (after : List α)
    (hmiddle : below middle = false) (h : Boundary below init n) :
    Boundary below (init ++ middle :: after) n where
  le_length := by
    have hle := h.le_length
    rw [List.length_append]
    omega
  before i x hi hx := by
    have hle := h.le_length
    rw [List.getElem?_append_left (by omega)] at hx
    exact h.before i x hi hx
  behind x hx := by
    rcases Nat.lt_or_ge n init.length with hlt | hge
    · rw [List.getElem?_append_left hlt] at hx
      exact h.behind x hx
    · obtain rfl : n = init.length := Nat.le_antisymm h.le_length hge
      rw [List.getElem?_append_right (Nat.le_refl _), Nat.sub_self, List.getElem?_cons_zero] at hx
      exact Option.some.inj hx ▸ hmiddle

theorem boundary_halve (fuel : ℕ) (xs : List α) (h : xs.length ≤ fuel) :
    Boundary below xs (halve below fuel xs) := by
  induction fuel generalizing xs with
  | zero =>
    obtain rfl := List.length_eq_zero_iff.mp (Nat.le_zero.mp h)
    exact boundary_nil
  | succ fuel ih =>
    rw [halve]
    cases hdrop : xs.drop (xs.length / 2) with
    | nil =>
      have hlen : xs.length ≤ xs.length / 2 := List.drop_eq_nil_iff.mp hdrop
      obtain rfl := List.length_eq_zero_iff.mp (show xs.length = 0 by omega)
      exact boundary_nil
    | cons middle after =>
      have hsplit : xs.take (xs.length / 2) ++ middle :: after = xs := by
        rw [← hdrop, List.take_append_drop]
      have hinit : (xs.take (xs.length / 2)).length = xs.length / 2 := by
        rw [List.length_take]
        omega
      have hafter : after.length + 1 + xs.length / 2 = xs.length := by
        have hlen := congrArg List.length hsplit
        rw [List.length_append, hinit, List.length_cons] at hlen
        omega
      cases hmiddle : below middle with
      | true =>
        have hrest := (ih after (by omega)).after (xs.take (xs.length / 2)) hmiddle
        rw [hinit, hsplit] at hrest
        simpa only [hmiddle, if_true] using hrest
      | false =>
        have hrest := (ih (xs.take (xs.length / 2)) (by omega)).take after hmiddle
        rw [hsplit] at hrest
        simpa only [hmiddle, Bool.false_eq_true, if_false] using hrest

theorem boundary_lowerBound (xs : List α) : Boundary below xs (lowerBound below xs) :=
  boundary_halve xs.length xs (Nat.le_refl _)

/-- With the elements below in front, there is one place to stop. -/
theorem Boundary.eq_length_takeWhile {xs : List α} {n : ℕ} (h : Boundary below xs n)
    (hfront : xs.Pairwise fun a b => below b = true → below a = true) :
    n = (xs.takeWhile below).length := by
  induction xs generalizing n with
  | nil => exact Nat.le_zero.mp h.le_length
  | cons x xs ih =>
    obtain ⟨hx, hxs⟩ := List.pairwise_cons.mp hfront
    cases n with
    | zero =>
      have hnot : below x = false := h.behind x rfl
      simp [hnot]
    | succ n =>
      have hlt : n < (x :: xs).length := h.le_length
      have hlast := h.before n _ rfl (List.getElem?_eq_getElem hlt)
      have hbelow : below x = true := by
        rcases List.mem_cons.mp (List.getElem_mem hlt) with heq | hmem
        · rwa [heq] at hlast
        · exact hx _ hmem hlast
      have hrest : Boundary below xs n := by
        refine ⟨Nat.le_of_succ_le_succ h.le_length, fun i y hi hy => ?_, fun y hy => h.behind y hy⟩
        exact h.before (i + 1) y (congrArg _ hi) hy
      rw [List.takeWhile_cons_of_pos hbelow, List.length_cons, ← ih hrest hxs]

theorem lowerBound_eq {xs : List α}
    (h : xs.Pairwise fun a b => below b = true → below a = true) :
    lowerBound below xs = (xs.takeWhile below).length :=
  (boundary_lowerBound xs).eq_length_takeWhile h

end ReactorNet.BinarySearch
