import ReactorNet.DecimalNumerals

/-!
# Numerals in any base

The digits of a number in a base are those of `Nat.toDigits`; the symbols they are
written with are a parameter. A numeral starts with zero only if it is zero.
-/
namespace ReactorNet.PositionalNumerals

variable {α : Type*} {b : ℕ}

/-- The number that a string of symbols denotes in base `b`. -/
def readNumeral (b : ℕ) (value : α → Option ℕ) (symbols : List α) : Option ℕ :=
  symbols.foldl (fun acc s => acc.bind fun v => (value s).map fun d => v * b + d) (some 0)

theorem readNumeral_append_singleton (value : α → Option ℕ) (symbols : List α) (s : α) :
    readNumeral b value (symbols ++ [s]) =
      (readNumeral b value symbols).bind fun v => (value s).map fun d => v * b + d := by
  rw [readNumeral, List.foldl_append]
  rfl

/-- Reading back what was written, where the symbols can be told apart. -/
theorem readNumeral_toDigits (hb : 1 < b) {value : α → Option ℕ} {symbol : Char → α}
    (hvalue : ∀ d < b, value (symbol d.digitChar) = some d) (n : ℕ) :
    readNumeral b value ((Nat.toDigits b n).map symbol) = some n := by
  induction n using Nat.strongRecOn with
  | ind n ih =>
    rw [Nat.toDigits_eq_if hb]
    split
    · next hlt => simp [readNumeral, hvalue n hlt]
    · next hge =>
      have hless : n / b < n := Nat.div_lt_self (by omega) hb
      rw [List.map_append, List.map_singleton, readNumeral_append_singleton, ih _ hless,
        Option.bind_some, hvalue _ (Nat.mod_lt _ (by omega)), Option.map_some, Nat.div_add_mod']

theorem mem_toDigits (hb : 1 < b) {n : ℕ} {c : Char} (h : c ∈ Nat.toDigits b n) :
    ∃ d < b, c = d.digitChar := by
  induction n using Nat.strongRecOn with
  | ind n ih =>
    rw [Nat.toDigits_eq_if hb] at h
    split at h
    · next hlt => exact ⟨n, hlt, List.mem_singleton.mp h⟩
    · next hge =>
      rcases List.mem_append.mp h with h | h
      · exact ih _ (Nat.div_lt_self (by omega) hb) h
      · exact ⟨n % b, Nat.mod_lt _ (by omega), List.mem_singleton.mp h⟩

/-- The leading digit of a positive number is positive. -/
theorem toDigits_eq_cons (hb : 1 < b) {n : ℕ} (hn : 0 < n) :
    ∃ d rest, 0 < d ∧ d < b ∧ Nat.toDigits b n = Nat.digitChar d :: rest := by
  induction n using Nat.strongRecOn with
  | ind n ih =>
    rw [Nat.toDigits_eq_if hb]
    split
    · next hlt => exact ⟨n, [], hn, hlt, rfl⟩
    · next hge =>
      obtain ⟨d, rest, hpos, hd, hdigits⟩ :=
        ih (n / b) (Nat.div_lt_self hn hb) (Nat.div_pos (by omega) (by omega))
      exact ⟨d, rest ++ [(n % b).digitChar], hpos, hd, by rw [hdigits, List.cons_append]⟩

end ReactorNet.PositionalNumerals
