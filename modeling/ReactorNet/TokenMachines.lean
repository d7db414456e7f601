import Mathlib.Data.List.Infix
import Mathlib.Tactic.TypeStar

/-!
# Machines that read tokens from the front of a growing stream

A cutter finds the first token of a stream once it is complete; its answer does not
change when more of the stream arrives. A machine takes tokens one by one until it
halts, and may leave the token it halts at in the stream. Lines that end in a fixed
delimiter are tokens of this kind.
-/
namespace ReactorNet.TokenMachines

/-- `cut` returns the first token and the length of the stream it takes up. -/
structure Cutter (α τ : Type*) where
  cut : List α → Option (τ × ℕ)
  cut_bounds : ∀ {s x n}, cut s = some (x, n) → 0 < n ∧ n ≤ s.length
  cut_append : ∀ {s x n}, cut s = some (x, n) → ∀ t, cut (s ++ t) = some (x, n)

namespace Cutter

variable {α τ : Type*} (c : Cutter α τ)

/-- The complete tokens of a stream. -/
def tokens (xs : List α) : List τ :=
  match _h : c.cut xs with
  | none => []
  | some (x, n) => x :: tokens (xs.drop n)
termination_by xs.length
decreasing_by
  have hb := c.cut_bounds _h
  rw [List.length_drop]
  omega

theorem cut_nil : c.cut [] = none := by
  rcases hc : c.cut [] with _ | ⟨x, n⟩
  · rfl
  · have hb := c.cut_bounds hc
    rw [List.length_nil] at hb
    omega

theorem tokens_some {xs : List α} {x : τ} {n : ℕ} (h : c.cut xs = some (x, n)) :
    c.tokens xs = x :: c.tokens (xs.drop n) := by
  rw [tokens]
  split <;> simp_all

end Cutter

inductive Reply (σ ρ : Type*) where
  | go (s : σ)
  | halt (r : ρ) (taken : Bool)

structure Machine (α τ σ ρ : Type*) extends Cutter α τ where
  step : σ → τ → Reply σ ρ

inductive Status (σ ρ : Type*) where
  | waiting (s : σ)
  | halted (r : ρ)

/-- The state of a machine after some input, and how much of the input it has taken. -/
structure Progress (σ ρ : Type*) where
  status : Status σ ρ
  taken : ℕ

/-- The progress of a machine that had already taken `n` elements. -/
def Progress.after {σ ρ : Type*} (n : ℕ) (p : Progress σ ρ) : Progress σ ρ :=
  ⟨p.status, n + p.taken⟩

namespace Machine

variable {α τ σ ρ : Type*} (m : Machine α τ σ ρ)

/-- Take tokens until none is complete or the machine halts. -/
def advance (s : σ) (xs : List α) : Progress σ ρ :=
  match _h : m.cut xs with
  | none => ⟨.waiting s, 0⟩
  | some (x, n) =>
    match m.step s x with
    | .go s' => (advance s' (xs.drop n)).after n
    | .halt r taken => ⟨.halted r, if taken then n else 0⟩
termination_by xs.length
decreasing_by
  have hb := m.cut_bounds _h
  rw [List.length_drop]
  omega

/-- Advance after every chunk, over the elements left so far and the chunk. -/
def feed (s : σ) (left : List α) : List (List α) → Progress σ ρ
  | [] => ⟨.waiting s, 0⟩
  | c :: cs =>
    match m.advance s (left ++ c) with
    | ⟨.waiting s', n⟩ => (feed s' ((left ++ c).drop n) cs).after n
    | ⟨.halted r, n⟩ => ⟨.halted r, n⟩

theorem advance_none {xs : List α} (h : m.cut xs = none) (s : σ) :
    m.advance s xs = ⟨.waiting s, 0⟩ := by
  rw [advance]
  split <;> simp_all

theorem advance_go {s s' : σ} {xs : List α} {x : τ} {n : ℕ} (h : m.cut xs = some (x, n))
    (hs : m.step s x = .go s') : m.advance s xs = (m.advance s' (xs.drop n)).after n := by
  rw [advance]
  split <;> simp_all

theorem advance_halt {s : σ} {xs : List α} {x : τ} {n : ℕ} {r : ρ} {taken : Bool}
    (h : m.cut xs = some (x, n)) (hs : m.step s x = .halt r taken) :
    m.advance s xs = ⟨.halted r, if taken then n else 0⟩ := by
  rw [advance]
  split <;> simp_all

theorem advance_taken_le (s : σ) (xs : List α) : (m.advance s xs).taken ≤ xs.length := by
  induction s, xs using advance.induct m with
  | case1 s xs h => simp [m.advance_none h]
  | case2 s xs x n h s' hs ih =>
    have hb := m.cut_bounds h
    rw [List.length_drop] at ih
    rw [m.advance_go h hs]
    simp only [Progress.after]
    omega
  | case3 s xs x n h r taken hs =>
    have hb := m.cut_bounds h
    rw [m.advance_halt h hs]
    dsimp only
    split <;> omega

/-- A machine that takes the token it halts at has taken something when it has halted. -/
theorem advance_taken_pos (htakes : ∀ s x r taken, m.step s x = .halt r taken → taken = true)
    {s : σ} {r : ρ} {xs : List α} (h : (m.advance s xs).status = .halted r) :
    0 < (m.advance s xs).taken := by
  induction s, xs using advance.induct m with
  | case1 s xs hc =>
    rw [m.advance_none hc] at h
    cases h
  | case2 s xs x n hc s' hs ih =>
    rw [m.advance_go hc hs] at h ⊢
    exact Nat.add_pos_right n (ih h)
  | case3 s xs x n hc r' taken hs =>
    rw [m.advance_halt hc hs, htakes s x r' taken hs]
    exact (m.cut_bounds hc).1

/-- A machine that waits has taken every complete token. -/
theorem cut_drop_of_waiting {s s' : σ} {xs : List α}
    (h : (m.advance s xs).status = .waiting s') :
    m.cut (xs.drop (m.advance s xs).taken) = none := by
  induction s, xs using advance.induct m with
  | case1 s xs hc => simpa [m.advance_none hc] using hc
  | case2 s xs x n hc s'' hs ih =>
    rw [m.advance_go hc hs] at h ⊢
    simp only [Progress.after] at h ⊢
    rw [← List.drop_drop]
    exact ih h
  | case3 s xs x n hc r taken hs =>
    rw [m.advance_halt hc hs] at h
    cases h

theorem advance_append_waiting {s s' : σ} {xs : List α}
    (h : (m.advance s xs).status = .waiting s') (ys : List α) :
    m.advance s (xs ++ ys) =
      (m.advance s' (xs.drop (m.advance s xs).taken ++ ys)).after (m.advance s xs).taken := by
  induction s, xs using advance.induct m with
  | case1 s xs hc =>
    rw [m.advance_none hc] at h ⊢
    cases h
    simp [Progress.after]
  | case2 s xs x n hc s'' hs ih =>
    have hb := m.cut_bounds hc
    rw [m.advance_go (m.cut_append hc ys) hs, List.drop_append_of_le_length hb.2]
    rw [m.advance_go hc hs] at h ⊢
    simp only [Progress.after] at h ih ⊢
    rw [ih h, ← List.drop_drop, Nat.add_assoc]
  | case3 s xs x n hc r taken hs =>
    rw [m.advance_halt hc hs] at h
    cases h

theorem advance_append_halted {s : σ} {r : ρ} {xs : List α}
    (h : (m.advance s xs).status = .halted r) (ys : List α) :
    m.advance s (xs ++ ys) = m.advance s xs := by
  induction s, xs using advance.induct m with
  | case1 s xs hc =>
    rw [m.advance_none hc] at h
    cases h
  | case2 s xs x n hc s'' hs ih =>
    have hb := m.cut_bounds hc
    rw [m.advance_go hc hs] at h
    rw [m.advance_go (m.cut_append hc ys) hs, m.advance_go hc hs,
      List.drop_append_of_le_length hb.2, ih h]
  | case3 s xs x n hc r taken hs =>
    rw [m.advance_halt (m.cut_append hc ys) hs, m.advance_halt hc hs]

/-- Reading a stream chunk by chunk is reading it at once. -/
theorem feed_eq_advance (s : σ) (left : List α) (hleft : m.cut left = none)
    (cs : List (List α)) : m.feed s left cs = m.advance s (left ++ cs.flatten) := by
  induction cs generalizing s left with
  | nil => simp [feed, m.advance_none hleft]
  | cons c cs ih =>
    rw [feed, List.flatten_cons, ← List.append_assoc]
    rcases hp : m.advance s (left ++ c) with ⟨status, n⟩
    have hstatus : (m.advance s (left ++ c)).status = status := by rw [hp]
    cases status with
    | waiting s' =>
      have hcut := m.cut_drop_of_waiting hstatus
      rw [m.advance_append_waiting hstatus, hp]
      rw [hp] at hcut
      exact congrArg (Progress.after n) (ih s' _ hcut)
    | halted r =>
      rw [m.advance_append_halted hstatus, hp]

end Machine

/-! ## Lines -/

section Lines

variable {α : Type*} [DecidableEq α]

/-- The position of the first occurrence of `pattern`, or the length if there is none. -/
def search (pattern : List α) : List α → ℕ
  | [] => 0
  | x :: s => if pattern <+: x :: s then 0 else search pattern s + 1

theorem search_le_length (pattern s : List α) : search pattern s ≤ s.length := by
  induction s with
  | nil => exact Nat.le_refl _
  | cons x s ih =>
    rw [search, List.length_cons]
    split <;> omega

theorem prefix_drop_search {pattern s : List α} (h : search pattern s < s.length) :
    pattern <+: s.drop (search pattern s) := by
  induction s with
  | nil => simp at h
  | cons x s ih =>
    rw [search] at h ⊢
    split at h
    · next hp => simp [hp]
    · next hp =>
      rw [if_neg hp, List.drop_succ_cons]
      exact ih (by simpa using h)

theorem search_add_length_le {pattern s : List α} (h : search pattern s < s.length) :
    search pattern s + pattern.length ≤ s.length := by
  have hlen := (prefix_drop_search h).length_le
  rw [List.length_drop] at hlen
  omega

theorem search_append {pattern s : List α} (h : search pattern s < s.length) (t : List α) :
    search pattern (s ++ t) = search pattern s := by
  induction s with
  | nil => simp at h
  | cons x s ih =>
    have hlen := search_add_length_le h
    rw [search] at h hlen
    rw [List.cons_append, search, search]
    by_cases hp : pattern <+: x :: s
    · have hp' : pattern <+: x :: (s ++ t) := hp.trans (List.prefix_append (x :: s) t)
      rw [if_pos hp, if_pos hp']
    · rw [if_neg hp] at h hlen
      have hp' : ¬ pattern <+: x :: (s ++ t) := by
        intro hpre
        apply hp
        refine List.prefix_of_prefix_length_le hpre (List.prefix_append (x :: s) t) ?_
        simp only [List.length_cons] at hlen ⊢
        omega
      rw [if_neg hp, if_neg hp', ih (by simpa using h)]

/-- A line without the first element of the delimiter ends at the delimiter. -/
theorem search_line {d : α} {e line : List α} (h : d ∉ line) (t : List α) :
    search (d :: e) (line ++ (d :: e) ++ t) = line.length := by
  induction line with
  | nil => simp [search]
  | cons x line ih =>
    obtain ⟨hx, hline⟩ := not_or.mp (mt List.mem_cons.mpr h)
    have hp : ¬ d :: e <+: x :: (line ++ (d :: e) ++ t) := by
      intro hpre
      exact hx (List.cons_prefix_cons.mp hpre).1
    rw [List.cons_append, List.cons_append, search, if_neg hp, ih hline, List.length_cons]

theorem search_le_of_prefix {pattern s : List α} {i : ℕ} (h : pattern <+: s.drop i) :
    search pattern s ≤ i := by
  induction s generalizing i with
  | nil => exact Nat.zero_le _
  | cons x s ih =>
    rw [search]
    split
    · exact Nat.zero_le _
    · next hp =>
      cases i with
      | zero => exact absurd h hp
      | succ i => exact Nat.succ_le_succ (ih h)

theorem not_infix_take_search {pattern : List α} (hp : pattern ≠ []) (s : List α) :
    ¬ pattern <:+: s.take (search pattern s) := by
  rintro ⟨before, after, htake⟩
  have hlength := congrArg List.length htake
  have hpos := List.length_pos_of_ne_nil hp
  have hle := search_le_length pattern s
  simp only [List.length_append, List.length_take] at hlength
  have hprefix : pattern <+: s.drop before.length := by
    rw [← List.take_append_drop (search pattern s) s, ← htake, List.append_assoc, List.append_assoc,
      List.drop_left]
    exact List.prefix_append _ _
  have hsearch := search_le_of_prefix hprefix
  omega

/-- Where the delimiter does not overlap itself, a line without it ends at it. -/
theorem search_unbroken {d : α} {e line : List α} (hd : d ∉ e) (h : ¬ d :: e <:+: line)
    (t : List α) : search (d :: e) (line ++ (d :: e) ++ t) = line.length := by
  induction line with
  | nil => simp [search]
  | cons x line ih =>
    have hp : ¬ d :: e <+: x :: (line ++ (d :: e) ++ t) := by
      intro hpre
      rw [← List.cons_append, ← List.cons_append, List.append_assoc] at hpre
      rcases Nat.le_total (d :: e).length (x :: line).length with hlen | hlen
      · exact h (List.prefix_of_prefix_length_le hpre (List.prefix_append _ _) hlen).isInfix
      · obtain ⟨rest, hrest⟩ := List.prefix_of_prefix_length_le (List.prefix_append _ _) hpre hlen
        have hover : rest <+: (d :: e) ++ t := by
          rw [← List.prefix_append_right_inj (x :: line), hrest]
          exact hpre
        cases rest with
        | nil =>
          apply h
          rw [← hrest, List.append_nil]
        | cons y rest =>
          obtain ⟨rfl, -⟩ := List.cons_prefix_cons.mp hover
          apply hd
          rw [← (List.cons.inj hrest).2]
          exact List.mem_append_right _ List.mem_cons_self
    have hline : ¬ d :: e <:+: line := fun hin => h (hin.trans (List.suffix_cons x line).isInfix)
    rw [List.cons_append, List.cons_append, search, if_neg hp, ih hline, List.length_cons]

/-- Lines up to the delimiter, which is taken with the line. -/
def lines (delimiter : List α) (h : delimiter ≠ []) : Cutter α (List α) where
  cut s :=
    if search delimiter s < s.length then
      some (s.take (search delimiter s), search delimiter s + delimiter.length)
    else none
  cut_bounds := by
    intro s x n hc
    split at hc
    · next hs =>
      cases hc
      have hlen := search_add_length_le hs
      have hpos := List.length_pos_of_ne_nil h
      omega
    · cases hc
  cut_append := by
    intro s x n hc t
    split at hc
    · next hs =>
      cases hc
      have hlt : search delimiter s < (s ++ t).length := by
        rw [List.length_append]
        omega
      rw [search_append hs t, if_pos hlt, List.take_append_of_le_length (Nat.le_of_lt hs)]
    · cases hc

/-- The first line is the bytes up to the delimiter, and does not contain it. -/
theorem cut_lines_iff {d : α} {e : List α} (hd : d ∉ e) {h : d :: e ≠ []} {s line : List α}
    {n : ℕ} : (lines (d :: e) h).cut s = some (line, n) ↔
      ¬ d :: e <:+: line ∧ n = line.length + (d :: e).length ∧
        ∃ rest, s = line ++ (d :: e) ++ rest := by
  constructor
  · intro hc
    simp only [lines, Option.ite_none_right_eq_some, Option.some.injEq, Prod.mk.injEq] at hc
    obtain ⟨hlt, rfl, rfl⟩ := hc
    refine ⟨not_infix_take_search h s, ?_, ?_⟩
    · rw [List.length_take_of_le (Nat.le_of_lt hlt)]
    · obtain ⟨rest, hrest⟩ := prefix_drop_search hlt
      refine ⟨rest, ?_⟩
      rw [List.append_assoc, hrest, List.take_append_drop]
  · rintro ⟨hline, rfl, rest, rfl⟩
    have hsearch := search_unbroken hd hline rest
    have hlt : line.length < (line ++ (d :: e) ++ rest).length := by
      simp only [List.length_append, List.length_cons]
      omega
    simp only [lines, hsearch, if_pos hlt]
    rw [List.append_assoc, List.take_left]

/-- A line in front of a stream is its first token. -/
theorem cut_line {d : α} {e : List α} {h : d :: e ≠ []} {line : List α} (hline : d ∉ line)
    (t : List α) : (lines (d :: e) h).cut (line ++ (d :: e) ++ t) =
      some (line, line.length + (d :: e).length) := by
  have hlt : line.length < (line ++ (d :: e) ++ t).length := by
    rw [List.length_append, List.length_append, List.length_cons]
    omega
  simp only [lines, search_line hline t, if_pos hlt]
  rw [List.append_assoc, List.take_left]

/-- The lines of a text are the complete lines of any stream it starts. -/
theorem tokens_lines {d : α} {e : List α} (hd : d ∉ e) {h : d :: e ≠ []} {text : List (List α)}
    (htext : ∀ line ∈ text, ¬ d :: e <:+: line) (rest : List α) :
    (lines (d :: e) h).tokens ((text.map (· ++ (d :: e))).flatten ++ rest) =
      text ++ (lines (d :: e) h).tokens rest := by
  induction text with
  | nil => rfl
  | cons line text ih =>
    have hc : (lines (d :: e) h).cut
        (((line :: text).map (· ++ (d :: e))).flatten ++ rest) =
          some (line, line.length + (d :: e).length) := by
      refine (cut_lines_iff hd).mpr ⟨htext line List.mem_cons_self, rfl, ?_⟩
      exact ⟨(text.map (· ++ (d :: e))).flatten ++ rest, by simp⟩
    have hdrop : (((line :: text).map (· ++ (d :: e))).flatten ++ rest).drop
        (line.length + (d :: e).length) = (text.map (· ++ (d :: e))).flatten ++ rest := by
      rw [List.map_cons, List.flatten_cons, List.append_assoc, ← List.length_append, List.drop_left]
    rw [Cutter.tokens_some _ hc, hdrop, ih fun l hl => htext l (List.mem_cons_of_mem _ hl)]
    rfl

end Lines

end ReactorNet.TokenMachines
