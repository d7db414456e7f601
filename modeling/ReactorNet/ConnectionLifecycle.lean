import Mathlib.Data.Nat.Notation

/-!
# The life cycle of a connection

What a server and the loop of a connection owe each other: a close is turned into one
removal from the map, and a removal into one destruction. The counts of what has
happened and of what is still queued agree in every reachable state, so that a second
removal or destruction can only come from a second close.
-/
namespace ReactorNet

/-- What has happened to a connection (`closes`, `erased`, `asserts`, `ups`, `downs`) and
what is queued for it (`establishing`, `removals`, `destroys`). -/
@[ext] structure Lifecycle where
  registered : Bool
  establishing : ℕ
  removals : ℕ
  destroys : ℕ
  closes : ℕ
  erased : List ℕ
  asserts : List Bool
  ups : ℕ
  downs : ℕ

namespace Lifecycle

def establish (l : Lifecycle) : Lifecycle :=
  { l with establishing := l.establishing - 1, ups := l.ups + 1 }

def close (l : Lifecycle) : Lifecycle :=
  { l with closes := l.closes + 1, removals := l.removals + 1 }

def remove (l : Lifecycle) : Lifecycle :=
  { l with
    removals := l.removals - 1
    destroys := l.destroys + 1
    registered := false
    erased := (if l.registered then 1 else 0) :: l.erased }

def destroy (l : Lifecycle) (asserted : Bool) : Lifecycle :=
  { l with
    destroys := l.destroys - 1
    asserts := asserted :: l.asserts
    downs := l.downs + 1 }

/-- The steps; the index says whether the step closes the connection. -/
inductive Step : Bool → Lifecycle → Lifecycle → Prop
  | stay (l : Lifecycle) : Step false l l
  | establish (l : Lifecycle) (h : 0 < l.establishing) : Step false l l.establish
  | remove (l : Lifecycle) (h : 0 < l.removals) : Step false l l.remove
  | destroy (l : Lifecycle) (asserted : Bool) (h : 0 < l.destroys)
      (ha : l.asserts = [] → asserted = true) : Step false l (l.destroy asserted)
  | close (l : Lifecycle) : Step true l l.close
  | closeAndRemove (l : Lifecycle) : Step true l l.close.remove

/-- Every close is accounted for, and so are the callbacks of the user. -/
structure Sound (l : Lifecycle) : Prop where
  closes_eq : l.closes = l.removals + l.destroys + l.asserts.length
  erased_length : l.erased.length = l.destroys + l.asserts.length
  registered_iff : l.registered = true ↔ l.erased = []
  erased_one : l.erased.length ≤ 1 → ∀ n ∈ l.erased, n = 1
  asserts_true : l.asserts.length ≤ 1 → ∀ b ∈ l.asserts, b = true
  ups_eq : l.ups + l.establishing = 1
  downs_eq : l.downs = l.asserts.length

theorem Sound.establish {l : Lifecycle} (h : l.Sound) (hl : 0 < l.establishing) :
    l.establish.Sound := by
  refine ⟨h.closes_eq, h.erased_length, h.registered_iff, h.erased_one, h.asserts_true, ?_,
    h.downs_eq⟩
  have := h.ups_eq
  simp only [Lifecycle.establish]
  omega

theorem Sound.close {l : Lifecycle} (h : l.Sound) : l.close.Sound := by
  refine ⟨?_, h.erased_length, h.registered_iff, h.erased_one, h.asserts_true, h.ups_eq, h.downs_eq⟩
  have := h.closes_eq
  simp only [Lifecycle.close]
  omega

theorem Sound.remove {l : Lifecycle} (h : l.Sound) (hl : 0 < l.removals) : l.remove.Sound := by
  refine ⟨?_, ?_, ?_, fun hlen n hn => ?_, h.asserts_true, h.ups_eq, h.downs_eq⟩
  · have := h.closes_eq
    simp only [Lifecycle.remove]
    omega
  · have := h.erased_length
    simp only [Lifecycle.remove, List.length_cons]
    omega
  · simp [Lifecycle.remove]
  · have hnil : l.erased = [] := by
      apply List.length_eq_zero_iff.mp
      simp only [Lifecycle.remove, List.length_cons] at hlen
      omega
    have hreg := h.registered_iff.mpr hnil
    simpa [Lifecycle.remove, hnil, hreg] using hn

theorem Sound.destroy {l : Lifecycle} (h : l.Sound) (hl : 0 < l.destroys) {asserted : Bool}
    (ha : l.asserts = [] → asserted = true) : (l.destroy asserted).Sound := by
  refine ⟨?_, ?_, h.registered_iff, h.erased_one, fun hlen b hb => ?_, h.ups_eq, ?_⟩
  · have := h.closes_eq
    simp only [Lifecycle.destroy, List.length_cons]
    omega
  · have := h.erased_length
    simp only [Lifecycle.destroy, List.length_cons]
    omega
  · have hnil : l.asserts = [] := by
      apply List.length_eq_zero_iff.mp
      simp only [Lifecycle.destroy, List.length_cons] at hlen
      omega
    simpa [Lifecycle.destroy, hnil, ha hnil] using hb
  · simp [Lifecycle.destroy, h.downs_eq]

theorem Sound.step {l l' : Lifecycle} {closing : Bool} (h : l.Sound) (hs : Step closing l l') :
    l'.Sound := by
  cases hs with
  | stay => exact h
  | establish _ hl => exact h.establish hl
  | remove _ hl => exact h.remove hl
  | destroy _ asserted hl ha => exact h.destroy hl ha
  | close => exact h.close
  | closeAndRemove => exact h.close.remove (Nat.succ_pos _)

theorem Step.closes {l l' : Lifecycle} {closing : Bool} (hs : Step closing l l') :
    l'.closes = l.closes + closing.toNat := by
  cases hs <;> rfl

/-- What a server may count on when its connections are closed once: the name is erased
exactly when it is there, `connectDestroyed` runs once in a state it expects, and the user
sees one UP and one DOWN. -/
structure ClosedOnce (l : Lifecycle) : Prop where
  closes_le : l.closes ≤ 1
  erased_one : ∀ n ∈ l.erased, n = 1
  asserts_le : l.asserts.length ≤ 1
  asserts_true : ∀ b ∈ l.asserts, b = true
  ups_le : l.ups ≤ 1
  downs_le : l.downs ≤ 1

theorem Sound.closedOnce_iff {l : Lifecycle} (h : l.Sound) : l.ClosedOnce ↔ l.closes ≤ 1 := by
  refine ⟨ClosedOnce.closes_le, fun hle => ?_⟩
  have hcloses := h.closes_eq
  have herased := h.erased_length
  have hasserts : l.asserts.length ≤ 1 := by omega
  have hups := h.ups_eq
  have hdowns := h.downs_eq
  exact ⟨hle, h.erased_one (by omega), hasserts, h.asserts_true hasserts, by omega, by omega⟩

/-- No close has happened as long as the name is in the map and no removal is queued. -/
theorem Sound.closes_eq_zero {l : Lifecycle} (h : l.Sound) :
    l.closes = 0 ↔ l.registered = true ∧ l.removals = 0 := by
  rw [h.registered_iff, ← List.length_eq_zero_iff, h.erased_length, h.closes_eq]
  omega

end Lifecycle

end ReactorNet
