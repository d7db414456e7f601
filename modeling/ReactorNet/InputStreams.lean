import Mathlib.Data.List.TakeWhile
import ReactorNet.DecimalNumerals

/-!
# Reading from an input stream

An `istream` over bytes that are all there: numbers and lines, and what is left behind them.
-/
namespace ReactorNet

open DecimalNumerals

/-- What has not been read, and two of the state bits. -/
structure Istream where
  rest : List UInt8
  eofbit : Bool
  failbit : Bool
deriving DecidableEq

namespace Istream

def NEWLINE : UInt8 := 10

def PLUS : UInt8 := 43

def isSpace (b : UInt8) : Bool := b == 32 || (9 ≤ b && b ≤ 13)

def ofBytes (bs : List UInt8) : Istream := ⟨bs, false, false⟩

def good (is : Istream) : Bool := !is.eofbit && !is.failbit

theorem good_ofBytes (bs : List UInt8) : (ofBytes bs).good = true := rfl

/-- The bytes that are taken for a number, a sign and digits, and those behind them. -/
def splitNumber : List UInt8 → List UInt8 × List UInt8
  | [] => ([], [])
  | b :: bs =>
    if b = MINUS ∨ b = PLUS then (b :: bs.takeWhile isDigit, bs.dropWhile isDigit)
    else ((b :: bs).takeWhile isDigit, (b :: bs).dropWhile isDigit)

/-- The `int` that the bytes denote or that is nearest, and whether the extraction has failed. -/
def toInt (number : List UInt8) : ℤ × Bool :=
  match intValue (number.dropWhile (· == PLUS)) with
  | none => (0, true)
  | some z =>
    if z < -2147483648 then (-2147483648, true)
    else if 2147483647 < z then (2147483647, true)
    else (z, false)

/-- `operator>>` for an `int`. A variable keeps its value if the stream has nothing for it. -/
def readInt (is : Istream) (value : ℤ) : ℤ × Istream :=
  if is.good then
    let bs := is.rest.dropWhile isSpace
    if bs = [] then (value, ⟨[], true, true⟩)
    else
      let number := splitNumber bs
      ((toInt number.1).1, ⟨number.2, number.2.isEmpty, (toInt number.1).2⟩)
  else (value, { is with failbit := true })

/-- Up to `n` bytes, the last of them `delim`; and whether the end was met. -/
def skip (delim : UInt8) : ℕ → List UInt8 → List UInt8 × Bool
  | 0, bs => (bs, false)
  | _ + 1, [] => ([], true)
  | n + 1, b :: bs => if b = delim then (bs, false) else skip delim n bs

def ignore (is : Istream) (n : ℕ) (delim : UInt8) : Istream :=
  if is.good then ⟨(skip delim n is.rest).1, (skip delim n is.rest).2, false⟩
  else { is with failbit := true }

/-- `std::getline`. The string keeps its value if the stream was not good before. -/
def getline (is : Istream) (str : List UInt8) : List UInt8 × Istream :=
  if is.good then
    if NEWLINE ∈ is.rest then
      (is.rest.takeWhile (· != NEWLINE),
        ⟨(is.rest.dropWhile (· != NEWLINE)).tail, false, false⟩)
    else (is.rest, ⟨[], true, is.rest.isEmpty⟩)
  else (str, { is with failbit := true })

/-! ## Lines -/

theorem takeWhile_line {line : List UInt8} (h : NEWLINE ∉ line) (rest : List UInt8) :
    (line ++ NEWLINE :: rest).takeWhile (· != NEWLINE) = line ∧
      (line ++ NEWLINE :: rest).dropWhile (· != NEWLINE) = NEWLINE :: rest := by
  have hline : ∀ b ∈ line, (b != NEWLINE) = true := by
    intro b hb
    rw [bne_iff_ne]
    rintro rfl
    exact h hb
  constructor
  · rw [List.takeWhile_append_of_pos hline, List.takeWhile_cons_of_neg (by decide), List.append_nil]
  · rw [List.dropWhile_append_of_pos hline, List.dropWhile_cons_of_neg (by decide)]

theorem getline_line {line : List UInt8} (h : NEWLINE ∉ line) (rest str : List UInt8) :
    (ofBytes (line ++ NEWLINE :: rest)).getline str = (line, ofBytes rest) := by
  obtain ⟨htake, hdrop⟩ := takeWhile_line h rest
  have hin : NEWLINE ∈ line ++ NEWLINE :: rest :=
    List.mem_append_right _ List.mem_cons_self
  simp only [getline, ofBytes, good, Bool.not_false, Bool.and_self, if_pos, hin, htake, hdrop,
    List.tail_cons]

/-- A line that is not empty has been taken from the stream. -/
theorem length_getline_lt (is : Istream) (h : (is.getline []).1 ≠ []) :
    (is.getline []).2.rest.length < is.rest.length := by
  rw [getline] at h ⊢
  split at h
  · next hgood =>
    rw [if_pos hgood]
    split at h
    · next hin =>
      have hsplit := congrArg List.length
        (List.takeWhile_append_dropWhile (p := (· != NEWLINE)) (l := is.rest))
      have hpos : 0 < (is.rest.takeWhile (· != NEWLINE)).length := List.length_pos_iff.mpr h
      rw [List.length_append] at hsplit
      rw [if_pos hin, List.length_tail]
      omega
    · next hout =>
      rw [if_neg hout]
      exact List.length_pos_iff.mpr h
  · exact absurd rfl h

theorem length_getline_le (is : Istream) (str : List UInt8) :
    (is.getline str).2.rest.length ≤ is.rest.length := by
  rw [getline]
  split
  · split
    · have hdrop := (List.dropWhile_sublist (l := is.rest) (· != NEWLINE)).length_le
      rw [List.length_tail]
      omega
    · exact Nat.zero_le _
  · exact Nat.le_refl _

@[simp] theorem ignore_newline (n : ℕ) (rest : List UInt8) :
    (ofBytes (NEWLINE :: rest)).ignore (n + 1) NEWLINE = ofBytes rest := by
  rw [ignore, if_pos (good_ofBytes _)]
  rfl

/-! ## Numbers -/

theorem splitNumber_digits (n : ℕ) (rest : List UInt8) :
    splitNumber (digits n ++ NEWLINE :: rest) = (digits n, NEWLINE :: rest) := by
  have hdigits : ∀ b ∈ digits n, isDigit b = true := fun b hb => isDigit_of_mem_digits hb
  have htake : (digits n ++ NEWLINE :: rest).takeWhile isDigit = digits n := by
    rw [List.takeWhile_append_of_pos hdigits, List.takeWhile_cons_of_neg (by decide),
      List.append_nil]
  have hdrop : (digits n ++ NEWLINE :: rest).dropWhile isDigit = NEWLINE :: rest := by
    rw [List.dropWhile_append_of_pos hdigits, List.dropWhile_cons_of_neg (by decide)]
  cases hcons : digits n with
  | nil => exact absurd hcons (digits_ne_nil n)
  | cons b bs =>
    have hb : ¬(b = MINUS ∨ b = PLUS) := by
      have hdigit := hdigits b (hcons ▸ List.mem_cons_self)
      rintro (rfl | rfl)
      · exact absurd hdigit (by decide)
      · exact absurd hdigit (by decide)
    rw [hcons, List.cons_append] at htake hdrop
    rw [List.cons_append, splitNumber, if_neg hb, htake, hdrop]

theorem splitNumber_numeral (z : ℤ) (rest : List UInt8) :
    splitNumber (numeral z ++ NEWLINE :: rest) = (numeral z, NEWLINE :: rest) := by
  cases z with
  | ofNat n => exact splitNumber_digits n rest
  | negSucc n =>
    have hdigits : ∀ b ∈ digits (n + 1), isDigit b = true := fun b hb => isDigit_of_mem_digits hb
    rw [numeral, List.cons_append, splitNumber, if_pos (Or.inl rfl),
      List.takeWhile_append_of_pos hdigits, List.dropWhile_append_of_pos hdigits,
      List.takeWhile_cons_of_neg (by decide), List.dropWhile_cons_of_neg (by decide),
      List.append_nil]

/-- A numeral starts with its sign or a digit. -/
theorem numeral_eq_cons (z : ℤ) :
    ∃ b bs, numeral z = b :: bs ∧ isSpace b = false ∧ (b == PLUS) = false := by
  have hne : numeral z ≠ [] := by
    cases z with
    | ofNat n => exact digits_ne_nil n
    | negSucc n => exact List.cons_ne_nil _ _
  obtain ⟨b, bs, hcons⟩ := List.exists_cons_of_ne_nil hne
  refine ⟨b, bs, hcons, ?_⟩
  rcases mem_numeral (hcons ▸ List.mem_cons_self) with rfl | hdigit
  · exact ⟨rfl, rfl⟩
  · rw [isDigit, Bool.and_eq_true, decide_eq_true_eq, decide_eq_true_eq, UInt8.le_iff_toNat_le,
      UInt8.le_iff_toNat_le] at hdigit
    have hge : 48 ≤ b.toNat := hdigit.1
    constructor
    · rw [isSpace, Bool.or_eq_false_iff, Bool.and_eq_false_iff, beq_eq_false_iff_ne]
      refine ⟨?_, Or.inr (decide_eq_false ?_)⟩
      · rintro rfl
        exact absurd hge (by decide)
      · intro hle
        have hle' : b.toNat ≤ 13 := UInt8.le_iff_toNat_le.mp hle
        omega
    · rw [beq_eq_false_iff_ne]
      rintro rfl
      exact absurd hge (by decide)

theorem toInt_numeral {z : ℤ} (hge : -2147483648 ≤ z) (hle : z ≤ 2147483647) :
    toInt (numeral z) = (z, false) := by
  obtain ⟨b, bs, hcons, -, hplus⟩ := numeral_eq_cons z
  have hdrop : (numeral z).dropWhile (· == PLUS) = numeral z := by
    rw [hcons, List.dropWhile_cons_of_neg (by simp [hplus])]
  rw [toInt, hdrop, intValue_numeral]
  simp only
  rw [if_neg (by omega), if_neg (by omega)]

/-- An `int` is read back from its numeral in a line of its own. -/
theorem readInt_numeral {z : ℤ} (hge : -2147483648 ≤ z) (hle : z ≤ 2147483647)
    (rest : List UInt8) (value : ℤ) :
    (ofBytes (numeral z ++ NEWLINE :: rest)).readInt value =
      (z, ofBytes (NEWLINE :: rest)) := by
  obtain ⟨b, bs, hcons, hspace, -⟩ := numeral_eq_cons z
  have hdrop : (numeral z ++ NEWLINE :: rest).dropWhile isSpace = numeral z ++ NEWLINE :: rest := by
    rw [hcons, List.cons_append, List.dropWhile_cons_of_neg (by simp [hspace])]
  have hne : numeral z ++ NEWLINE :: rest ≠ [] := by
    rw [hcons]
    exact List.cons_ne_nil _ _
  rw [readInt, if_pos (good_ofBytes _)]
  simp only [ofBytes, hdrop, if_neg hne, splitNumber_numeral, toInt_numeral hge hle,
    List.isEmpty_cons]

end Istream

end ReactorNet
