import ReactorNet.AsyncLogging
import ReactorNet.LogStream

/-!
# A log buffer and its content

The buffers of `AsyncLogging` are modelled by their content. Appending to the array of such
a buffer writes inside it, and leaves the content that the model has: the line as a whole or
not at all.
-/
namespace ReactorNet.detail.FixedBuffer

open VectorStorage GuardedRuns

variable {SIZE : ℕ}

/-- The bytes of the array up to `cur_` are the content. -/
structure Represents (b : detail.FixedBuffer) (l : ReactorNet.FixedBuffer SIZE) : Prop where
  size_eq : b.size = SIZE
  cur_eq : b.cur_ = l.data.length
  content_eq : b.content = l.data

theorem represents_fresh {data : List UInt8} (h : data.length = SIZE) :
    Represents (fresh data) (.empty : ReactorNet.FixedBuffer SIZE) where
  size_eq := h
  cur_eq := rfl
  content_eq := List.take_zero

namespace Represents

variable {b : detail.FixedBuffer} {l : ReactorNet.FixedBuffer SIZE} (h : Represents b l)
include h

/-- `avail` is an `int`, which the sizes of the buffers fit into. -/
theorem toSize_avail (hSIZE : SIZE < 2 ^ 31) : toSize b.avail = l.avail := by
  have hle := l.length_le
  have havail : b.avail = (l.avail : ℤ) := by
    rw [detail.FixedBuffer.avail, h.size_eq, h.cur_eq, ReactorNet.FixedBuffer.avail]
    omega
  have hlt : l.avail < 2 ^ 31 := Nat.lt_of_le_of_lt l.avail_le hSIZE
  rw [havail, toSize_eq (by omega) (by omega), Int.toNat_natCast]

theorem append (hSIZE : SIZE < 2 ^ 31) (line : Line) :
    ∃ b', b.append line.text = some b' ∧ Represents b' (l.append line) := by
  by_cases hroom : l.avail > line.text.length
  · have hfit : b.cur_ + line.text.length ≤ b.data_.length := by
      have hsize : b.data_.length = SIZE := h.size_eq
      rw [ReactorNet.FixedBuffer.avail] at hroom
      rw [h.cur_eq, hsize]
      omega
    have hdata : (l.append line).data = l.data ++ line.text := by
      rw [ReactorNet.FixedBuffer.append, dif_pos hroom]
    refine ⟨⟨overwrite b.data_ b.cur_ line.text, b.cur_ + line.text.length⟩, ?_, ?_, ?_, ?_⟩
    · rw [detail.FixedBuffer.append, h.toSize_avail hSIZE, if_pos hroom, write_eq hfit]
      rfl
    · exact (length_overwrite hfit).trans h.size_eq
    · rw [hdata, List.length_append, h.cur_eq]
    · have hcontent : b.data_.take b.cur_ = l.data := h.content_eq
      rw [hdata, ← hcontent, detail.FixedBuffer.content,
        take_overwrite (Nat.le_of_add_right_le hfit) (Nat.le_refl _), List.take_length]
  · refine ⟨b, ?_, ?_⟩
    · rw [detail.FixedBuffer.append, h.toSize_avail hSIZE, if_neg hroom]
    · rw [ReactorNet.FixedBuffer.append, dif_neg hroom]
      exact h

/-- Any number of lines: no byte is written outside the array. -/
theorem append_run (hSIZE : SIZE < 2 ^ 31) (lines : List Line) :
    ∃ b', run (fun b (line : Line) => b.append line.text) b lines = some b' ∧
      Represents b' (lines.foldl ReactorNet.FixedBuffer.append l) := by
  induction lines generalizing b l with
  | nil => exact ⟨b, rfl, h⟩
  | cons line lines ih =>
    obtain ⟨b', hs, hb⟩ := h.append hSIZE line
    obtain ⟨b'', hr, hb'⟩ := ih hb
    exact ⟨b'', run_cons_eq_some.mpr ⟨b', hs, hr⟩, hb'⟩

end Represents

/-- A new buffer of `AsyncLogging` and the lines appended to it: the array holds the bytes of
those that the model of the buffer has. -/
theorem largeBuffer_run {data : List UInt8} (hdata : data.length = kLargeBuffer)
    (lines : List Line) :
    ∃ b, run (fun b (line : Line) => b.append line.text) (fresh data) lines = some b ∧
      b.content = Line.bytes (lines.foldl ReactorNet.FixedBuffer.append
        (.empty : AsyncLogging.Buffer)).lines := by
  have hSIZE : kLargeBuffer < 2 ^ 31 := by decide
  obtain ⟨b, hr, hb⟩ := (represents_fresh hdata).append_run hSIZE lines
  exact ⟨b, hr, hb.content_eq.trans (ReactorNet.FixedBuffer.data_eq _)⟩

end ReactorNet.detail.FixedBuffer
