import ReactorNet.FrameStreams
import ReactorNet.TokenMachines

/-!
# Frames with a head and a counted body

A machine reads the head of a frame token by token; what it halts with says how many elements
of the stream are the body.
-/
namespace ReactorNet.HeadedFrames

open FrameStreams TokenMachines

variable {α τ σ ρ : Type*} (m : Machine α τ σ ρ) (start : σ) (bodyLength : ρ → Option ℕ)

/-- The first frame of a stream, by how far the machine gets in it. -/
def front (xs : List α) : Verdict ρ (ρ × List α) :=
  match m.advance start xs with
  | ⟨.waiting _, _⟩ => .more
  | ⟨.halted r, n⟩ =>
    match bodyLength r with
    | none => .fail r
    | some len =>
      if n + len ≤ xs.length then .item (r, (xs.drop n).take len) (n + len) else .more

variable {m start bodyLength}

theorem front_eq_item {xs : List α} {b : ρ × List α} {k : ℕ} :
    front m start bodyLength xs = .item b k ↔ ∃ n len, m.advance start xs = ⟨.halted b.1, n⟩ ∧
      bodyLength b.1 = some len ∧ k = n + len ∧ k ≤ xs.length ∧ b.2 = (xs.drop n).take len := by
  obtain ⟨r, body⟩ := b
  rw [front]
  constructor
  · intro h
    split at h
    · cases h
    · next r' n hadvance =>
      split at h
      · cases h
      · next len hlen =>
        split at h
        · next hle =>
          cases h
          exact ⟨n, len, hadvance, hlen, rfl, hle, rfl⟩
        · cases h
  · rintro ⟨n, len, hadvance, hlen, rfl, hle, rfl⟩
    simp only [hadvance, hlen, if_pos hle]

theorem front_eq_fail {xs : List α} {r : ρ} :
    front m start bodyLength xs = .fail r ↔
      ∃ n, m.advance start xs = ⟨.halted r, n⟩ ∧ bodyLength r = none := by
  rw [front]
  constructor
  · intro h
    split at h
    · cases h
    · next r' n hadvance =>
      split at h
      · next hnone =>
        cases h
        exact ⟨n, hadvance, hnone⟩
      · split at h
        · cases h
        · cases h
  · rintro ⟨n, hadvance, hnone⟩
    simp only [hadvance, hnone]

/-- What a machine that has halted has read stays when more arrives. -/
theorem advance_append {xs : List α} {r : ρ} {n : ℕ} (h : m.advance start xs = ⟨.halted r, n⟩)
    (t : List α) : m.advance start (xs ++ t) = ⟨.halted r, n⟩ := by
  rw [m.advance_append_halted (by rw [h]) t, h]

variable (m start bodyLength)

/-- The parser, for a machine that takes the token it halts at. -/
def parser (htakes : ∀ s x r taken, m.step s x = .halt r taken → taken = true) :
    FrameParser α ρ (ρ × List α) where
  front := front m start bodyLength
  front_nil := by rw [front, m.advance_none m.cut_nil]
  item_bounds := by
    intro xs b k h
    obtain ⟨n, len, hadvance, -, rfl, hle, -⟩ := front_eq_item.mp h
    have hpos := m.advance_taken_pos htakes (by rw [hadvance])
    rw [hadvance] at hpos
    exact ⟨Nat.add_pos_left hpos len, hle⟩
  item_append := by
    intro xs b k h t
    obtain ⟨n, len, hadvance, hlen, rfl, hle, hbody⟩ := front_eq_item.mp h
    refine front_eq_item.mpr ⟨n, len, advance_append hadvance t, hlen, rfl, ?_, ?_⟩
    · rw [List.length_append]
      omega
    · rw [hbody, List.drop_append_of_le_length (by omega), List.take_append_of_le_length]
      rw [List.length_drop]
      omega
  fail_append := by
    intro xs r h t
    obtain ⟨n, hadvance, hnone⟩ := front_eq_fail.mp h
    exact front_eq_fail.mpr ⟨n, advance_append hadvance t, hnone⟩

variable {m start bodyLength}

/-- A head with the body it announces is a frame. -/
theorem front_head_body {head body : List α} {r : ρ}
    (hadvance : m.advance start (head ++ body) = ⟨.halted r, head.length⟩)
    (hlen : bodyLength r = some body.length) :
    front m start bodyLength (head ++ body) = .item (r, body) (head ++ body).length :=
  front_eq_item.mpr ⟨head.length, body.length, hadvance, hlen, List.length_append, Nat.le_refl _,
    by rw [List.drop_left, List.take_length]⟩

end ReactorNet.HeadedFrames
