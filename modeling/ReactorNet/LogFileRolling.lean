import ReactorNet.LogFileRuns

/-!
# When a log file is left

While the clock has gone on whenever a file is to be left, no file takes another record once it
is larger than `rollSize_`, the clock is checked after every `checkEveryN_` records, and a file
whose day is over at a check takes no more.
-/
namespace ReactorNet

open FileUtil GuardedRuns

/-- The histories differ at most in the last `flush`. -/
structure FileUtil.OpenFile.SameRecords (file file' : OpenFile) : Prop where
  records : file.records = file'.records
  checks : file.checks = file'.checks
  second : file.second = file'.second

theorem FileUtil.OpenFile.sameRecords_flush (p : FileFlush) (file : OpenFile) :
    (file.flush p).SameRecords file := ⟨rfl, rfl, rfl⟩

namespace LogFile

/-- `append` will call `rollFile`, if it has left the file in the state `file`. -/
def Rolls (f : LogFile) (file : OpenFile) (now : ℤ) : Prop :=
  f.rollSize_ < file.writtenBytes_ ∨
    f.checkEveryN_ ≤ f.count_ + 1 ∧ periodOf now ≠ f.startOfPeriod_

instance (f : LogFile) (file : OpenFile) (now : ℤ) : Decidable (f.Rolls file now) :=
  inferInstanceAs (Decidable (_ ∨ _))

/-- When the call rolls the file, the second in which the file was opened is over. -/
def OnTime (f : LogFile) : LogFileCall → Prop
  | .append logline answers => ∀ file ∈ f.file_,
      f.Rolls (file.append logline answers.counts) answers.now → f.lastRoll_ < answers.opening.now
  | _ => True

instance (f : LogFile) : (call : LogFileCall) → Decidable (f.OnTime call)
  | .append logline answers => inferInstanceAs (Decidable (∀ file ∈ f.file_,
      f.Rolls (file.append logline answers.counts) answers.now → f.lastRoll_ < answers.opening.now))
  | .flush => inferInstanceAs (Decidable True)
  | .rollFile _ => inferInstanceAs (Decidable True)

/-- What holds of the first `n` records of a file. -/
structure Kept (rollSize checkEveryN : ℤ) (n : ℕ) (file : OpenFile) : Prop where
  fits : 0 < n → FileRecord.total (file.records.take n) ≤ rollSize
  sameDay : ∀ c ∈ file.checks, c.records ≤ n → periodOf c.now = periodOf file.second
  often : ∀ k m : ℕ, k < m → m ≤ n → (k + checkEveryN : ℤ) ≤ m →
    ∃ c ∈ file.checks, k < c.records ∧ c.records ≤ m

section Kept

variable {rollSize checkEveryN : ℤ} {n : ℕ} {file : OpenFile}

theorem total_append (rs rs' : List FileRecord) :
    FileRecord.total (rs ++ rs') = FileRecord.total rs + FileRecord.total rs' := by
  simp [FileRecord.total]

theorem total_take_le (rs : List FileRecord) {k n : ℕ} (h : k ≤ n) :
    FileRecord.total (rs.take k) ≤ FileRecord.total (rs.take n) := by
  have hsplit : rs.take n = rs.take k ++ (rs.take n).drop k := by
    conv_lhs => rw [← List.take_append_drop k (rs.take n), List.take_take, Nat.min_eq_left h]
  rw [hsplit, total_append]
  exact Nat.le_add_right _ _

theorem kept_zero : Kept rollSize checkEveryN 0 file ↔
    ∀ c ∈ file.checks, c.records = 0 → periodOf c.now = periodOf file.second := by
  constructor
  · intro h c hc hrecords
    exact h.sameDay c hc (by omega)
  · intro h
    refine ⟨by omega, ?_, by omega⟩
    intro c hc hrecords
    exact h c hc (by omega)

theorem Kept.sameRecords {file' : OpenFile} (h : Kept rollSize checkEveryN n file)
    (hsame : file'.SameRecords file) : Kept rollSize checkEveryN n file' := by
  refine ⟨?_, ?_, ?_⟩
  · rw [hsame.records]
    exact h.fits
  · rw [hsame.checks, hsame.second]
    exact h.sameDay
  · rw [hsame.checks]
    exact h.often

theorem Kept.mono {k : ℕ} (h : Kept rollSize checkEveryN n file) (hk : k ≤ n) :
    Kept rollSize checkEveryN k file := by
  refine ⟨?_, ?_, ?_⟩
  · intro hpos
    have hfits := h.fits (by omega)
    have hle := total_take_le file.records hk
    omega
  · intro c hc hrecords
    exact h.sameDay c hc (by omega)
  · intro i j hij hj hn
    exact h.often i j hij (by omega) hn

end Kept

/-- The files of `f`: the one in use in all of its records, the others in all but the last. -/
structure Disciplined (f : LogFile) : Prop where
  current : ∀ file ∈ f.file_, Kept f.rollSize_ f.checkEveryN_ file.records.length file
  closed : ∀ file ∈ f.closed, Kept f.rollSize_ f.checkEveryN_ (file.records.length - 1) file
  second : ∀ file ∈ f.file_, file.second = f.lastRoll_
  period : f.startOfPeriod_ = periodOf f.lastRoll_
  count : 0 ≤ f.count_ ∧ (f.count_ < f.checkEveryN_ ∨ f.count_ = 0)
  recent : ∀ file ∈ f.file_, ∀ k < file.records.length,
    (∀ c ∈ file.checks, c.records ≤ k) → (file.records.length - k : ℤ) ≤ f.count_
  unflushed : ∀ file ∈ f.file_, ∀ c ∈ file.checks, file.flushed < c.records →
    c.now - f.lastFlush_ ≤ f.flushInterval_

variable {p : LogRuntime} {f g : LogFile}

/-- A new file, behind one that was in order up to its last record. -/
theorem disciplined_opened {now : ℤ}
    (hcount : 0 ≤ f.count_ ∧ (f.count_ < f.checkEveryN_ ∨ f.count_ = 0))
    (hclosed : ∀ file ∈ f.closed, Kept f.rollSize_ f.checkEveryN_ (file.records.length - 1) file)
    (hcurrent : ∀ file ∈ f.file_, Kept f.rollSize_ f.checkEveryN_ (file.records.length - 1) file) :
    Disciplined (f.opened p now) := by
  have hfile : ∀ file ∈ (f.opened p now).file_,
      file = .create (getLogFileName p f.basename_ now) now := by
    intro file h
    exact (Option.mem_some_iff.mp h).symm
  refine ⟨?_, ?_, ?_, rfl, hcount, ?_, ?_⟩
  · intro file h
    rw [hfile file h]
    exact kept_zero.mpr fun c hc => nomatch hc
  · intro file h
    rcases List.mem_append.mp h with h | h
    · exact hclosed file h
    · exact hcurrent file (Option.mem_toList.mp h)
  · intro file h
    rw [hfile file h]
    rfl
  · intro file h k hk
    rw [hfile file h] at hk
    exact absurd hk (Nat.not_lt_zero k)
  · intro file h c hc
    rw [hfile file h] at hc
    cases hc

section Kept

variable {rollSize checkEveryN : ℤ} {n : ℕ} {file : OpenFile}

/-- One more record keeps what holds of the first ones. -/
theorem Kept.append (h : Kept rollSize checkEveryN file.records.length file)
    (logline : List UInt8) (counts : List ℕ) :
    Kept rollSize checkEveryN file.records.length (file.append logline counts) := by
  refine ⟨?_, h.sameDay, h.often⟩
  intro hpos
  have htake : (file.append logline counts).records.take file.records.length =
      file.records.take file.records.length := by
    simp [OpenFile.append]
  rw [htake]
  exact h.fits hpos

/-- So does a check after them. -/
theorem Kept.checked (h : Kept rollSize checkEveryN n file) (hn : n < file.records.length)
    (now : ℤ) : Kept rollSize checkEveryN n (file.checked now) := by
  refine ⟨h.fits, ?_, ?_⟩
  · intro c hc hrecords
    rcases List.mem_append.mp hc with hc | hc
    · exact h.sameDay c hc hrecords
    · rw [List.mem_singleton.mp hc] at hrecords
      exact absurd hn (not_lt.mpr hrecords)
  · intro k m hkm hm hcheck
    obtain ⟨c, hc, hbounds⟩ := h.often k m hkm hm hcheck
    exact ⟨c, List.mem_append_left _ hc, hbounds⟩

/-- The last record too, in a file that has room for it. -/
theorem Kept.succ (h : Kept rollSize checkEveryN n file) (hn : file.records.length = n + 1)
    (hfits : file.writtenBytes_ ≤ rollSize)
    (hday : ∀ c ∈ file.checks, c.records = n + 1 → periodOf c.now = periodOf file.second)
    (hoften : ∀ k : ℕ, k < n + 1 → (k + checkEveryN : ℤ) ≤ n + 1 →
      ∃ c ∈ file.checks, k < c.records) :
    Kept rollSize checkEveryN (n + 1) file := by
  refine ⟨?_, ?_, ?_⟩
  · intro _
    rw [← hn, List.take_length, ← file.writtenBytes_eq]
    exact hfits
  · intro c hc hrecords
    by_cases hlast : c.records = n + 1
    · exact hday c hc hlast
    · exact h.sameDay c hc (by omega)
  · intro k m hkm hm hcheck
    by_cases hlast : m = n + 1
    · obtain ⟨c, hc, hlt⟩ := hoften k (by omega) (by omega)
      have hle := file.checks_le c hc
      exact ⟨c, hc, hlt, by omega⟩
    · exact h.often k m hkm (by omega) hcheck

end Kept

variable {p : LogRuntime} {f g : LogFile}

/-- What a further record leaves of the facts about the file in use. -/
structure Joined (f : LogFile) (file : OpenFile) (n : ℕ) : Prop where
  kept : Kept f.rollSize_ f.checkEveryN_ n file
  length : file.records.length = n + 1
  second : file.second = f.lastRoll_
  recent : ∀ k < n + 1, (∀ c ∈ file.checks, c.records ≤ k) → (n + 1 - k : ℤ) ≤ f.count_ + 1
  unflushed : ∀ c ∈ file.checks, file.flushed < c.records → c.now - f.lastFlush_ ≤ f.flushInterval_
  before : ∀ c ∈ file.checks, c.records ≤ n

theorem Disciplined.joined (h : Disciplined f) {file : OpenFile} (hfile : file ∈ f.file_)
    (logline : List UInt8) (counts : List ℕ) :
    Joined f (file.append logline counts) file.records.length := by
  refine ⟨(h.current file hfile).append logline counts, by simp [OpenFile.append],
    h.second file hfile, ?_, h.unflushed file hfile, file.checks_le⟩
  intro k hk hchecks
  have hcount := h.count.1
  by_cases hlast : k = file.records.length
  · omega
  · have hrecent := h.recent file hfile k (by omega) hchecks
    omega

/-- The file was checked and stays in use, flushed or not. -/
theorem Joined.checked {file checked : OpenFile} {n : ℕ} (h : Joined f file n)
    (hf : Disciplined f) (hfits : file.writtenBytes_ ≤ f.rollSize_) {now lastFlush_ : ℤ}
    (hperiod : periodOf now = f.startOfPeriod_) (hsame : checked.SameRecords (file.checked now))
    (hflush : ∀ c ∈ (file.checked now).checks, checked.flushed < c.records →
      c.now - lastFlush_ ≤ f.flushInterval_) :
    Disciplined { f with
      file_ := some checked
      count_ := 0
      lastFlush_ := lastFlush_ } := by
  have hlast : (⟨file.records.length, now⟩ : Check) ∈ (file.checked now).checks :=
    List.mem_append_right _ List.mem_cons_self
  have hkept : Kept f.rollSize_ f.checkEveryN_ (n + 1) (file.checked now) := by
    refine (h.kept.checked (by rw [h.length]; exact Nat.lt_succ_self n) now).succ h.length hfits ?_ ?_
    · intro c hc hrecords
      rcases List.mem_append.mp hc with hc | hc
      · have hle := h.before c hc
        omega
      · rw [List.mem_singleton.mp hc, hperiod, hf.period, ← h.second]
        rfl
    · intro k hk _
      exact ⟨_, hlast, by rw [h.length]; exact hk⟩
  refine ⟨?_, hf.closed, ?_, hf.period, ⟨le_refl _, Or.inr rfl⟩, ?_, ?_⟩
  · intro file' hfile'
    cases hfile'
    rw [hsame.records, show (file.checked now).records.length = n + 1 from h.length]
    exact hkept.sameRecords hsame
  · intro file' hfile'
    cases hfile'
    exact hsame.second.trans h.second
  · intro file' hfile' k hk hchecks
    cases hfile'
    rw [hsame.checks] at hchecks
    rw [hsame.records] at hk
    exact absurd hk (not_lt.mpr (hchecks _ hlast))
  · intro file' hfile'
    cases hfile'
    rw [hsame.checks]
    exact hflush

theorem Disciplined.append (h : Disciplined f) {logline : List UInt8} {answers : Answers}
    (htime : f.OnTime (.append logline answers))
    (happend : f.append_unlocked p logline answers = some g) : Disciplined g := by
  obtain ⟨file, hfile, happended⟩ := appended_of_append happend
  have hjoined := h.joined hfile logline answers.counts
  have htime' := htime file hfile
  generalize file.append logline answers.counts = file', file.records.length = n at *
  have hrolled {file'' : OpenFile} {count : ℤ} (hrolls : f.Rolls file' answers.now)
      (hcount : 0 ≤ count ∧ (count < f.checkEveryN_ ∨ count = 0))
      (hkept : Kept f.rollSize_ f.checkEveryN_ (file''.records.length - 1) file'')
      (hroll : Rolled p { f with file_ := some file'', count_ := count } answers.opening g) :
      Disciplined g := by
    cases hroll with
    | early hearly => exact absurd (htime' hrolls) (not_lt.mpr hearly)
    | opened _ =>
      refine disciplined_opened hcount h.closed ?_
      intro file' hfile'
      cases hfile'
      exact hkept
  cases happended with
  | large hlarge hroll =>
    apply hrolled (Or.inl hlarge) h.count _ hroll
    rw [hjoined.length]
    exact hjoined.kept
  | counted hfits hcount =>
    have hkept : Kept f.rollSize_ f.checkEveryN_ (n + 1) file' := by
      apply hjoined.kept.succ hjoined.length hfits
      · intro c hc hrecords
        have hle := hjoined.before c hc
        omega
      · intro k hk hcheck
        by_contra hnone
        have hrecent := hjoined.recent k hk fun c hc => not_lt.mp fun hlt => hnone ⟨c, hc, hlt⟩
        omega
    refine ⟨?_, h.closed, ?_, h.period, ⟨?_, Or.inl hcount⟩, ?_, ?_⟩
    · intro file'' hfile''
      cases hfile''
      rw [hjoined.length]
      exact hkept
    · intro file'' hfile''
      cases hfile''
      exact hjoined.second
    · have hnonneg := h.count.1
      change 0 ≤ f.count_ + 1
      omega
    · intro file'' hfile'' k hk hchecks
      cases hfile''
      rw [hjoined.length] at hk ⊢
      exact hjoined.recent k hk hchecks
    · intro file'' hfile''
      cases hfile''
      exact hjoined.unflushed
  | nextPeriod _ hcount hperiod hroll =>
    refine hrolled (Or.inr ⟨hcount, hperiod⟩) ⟨le_refl _, Or.inr rfl⟩ ?_ hroll
    change Kept _ _ (file'.records.length - 1) _
    rw [hjoined.length]
    exact hjoined.kept.checked (by rw [hjoined.length]; exact Nat.lt_succ_self n) _
  | flushed hfits _ hperiod =>
    apply hjoined.checked h hfits hperiod (OpenFile.sameRecords_flush _ _)
    intro c hc hflushed
    exact absurd ((file'.checked answers.now).checks_le c hc) (not_le.mpr hflushed)
  | checked hfits _ hperiod hinterval =>
    apply hjoined.checked h hfits hperiod ⟨rfl, rfl, rfl⟩
    intro c hc hflushed
    rcases List.mem_append.mp hc with hc | hc
    · exact hjoined.unflushed c hc hflushed
    · rw [List.mem_singleton.mp hc]
      exact hinterval

theorem Disciplined.step (h : Disciplined f) {call : LogFileCall} (htime : f.OnTime call)
    (hstep : step p f call = some g) : Disciplined g := by
  cases call with
  | append logline answers => exact h.append htime hstep
  | flush =>
    obtain ⟨file, hfile, rfl⟩ := Option.map_eq_some_iff.mp hstep
    have hmem : file ∈ f.file_ := hfile
    have hkept := h.current file hmem
    refine ⟨?_, h.closed, ?_, h.period, h.count, ?_, ?_⟩
    · intro file' hfile'
      cases hfile'
      exact hkept.sameRecords (OpenFile.sameRecords_flush _ _)
    · intro file' hfile'
      cases hfile'
      exact h.second file hmem
    · intro file' hfile'
      cases hfile'
      exact h.recent file hmem
    · intro file' hfile' c hc hflushed
      cases hfile'
      exact absurd (file.checks_le c hc) (not_le.mpr hflushed)
  | rollFile opening =>
    cases rolled_of_rollFile hstep with
    | early _ => exact h
    | opened _ =>
      apply disciplined_opened h.count h.closed
      intro file hfile
      exact (h.current file hfile).mono (Nat.sub_le _ _)

theorem disciplined_create {basename : List UInt8} {rollSize flushInterval checkEveryN : ℤ}
    {o : Opening} (h : create p basename rollSize flushInterval checkEveryN o = some f) :
    Disciplined f := by
  rw [create] at h
  split at h
  · cases h
  · cases rolled_of_rollFile h with
    | early _ =>
      refine ⟨?_, ?_, ?_, rfl, ⟨le_refl _, Or.inr rfl⟩, ?_, ?_⟩ <;> intro file hfile <;> cases hfile
    | opened _ =>
      refine disciplined_opened ⟨le_refl _, Or.inr rfl⟩ ?_ ?_ <;> intro file hfile <;> cases hfile

/-- In a run in which the clock goes on before each new file, the records of a file but for the
last fit in `rollSize`, any `checkEveryN` of them had a check, and a check that found another day
came with the last record. The same is true of all records of the file in use; it was checked
at most `flushInterval` seconds after the last flush. -/
theorem rolled_in_time {basename : List UInt8}
    {rollSize flushInterval checkEveryN : ℤ} {o : Opening}
    {calls : List LogFileCall} {f₀ : LogFile}
    (hcreate : create p basename rollSize flushInterval checkEveryN o = some f₀)
    (htime : Meets (step p) OnTime f₀ calls) (hrun : run (step p) f₀ calls = some f) :
    (∀ file ∈ f.closed, Kept rollSize checkEveryN (file.records.length - 1) file) ∧
      ∀ file ∈ f.file_, Kept rollSize checkEveryN file.records.length file ∧
        ∀ c ∈ file.checks, file.flushed < c.records → c.now - f.lastFlush_ ≤ flushInterval := by
  have h : Disciplined f := meets_invariant (fun _ _ _ h htime hstep => h.step htime hstep)
    (disciplined_create hcreate) htime hrun
  obtain ⟨seconds, hopened, -, hconfig⟩ := openedAt_create hcreate
  obtain ⟨-, -, -, hconfig'⟩ := hopened.run hrun
  have hargs := hconfig'.trans hconfig
  simp only [config, Prod.mk.injEq] at hargs
  obtain ⟨-, hroll, hflush, hcheck⟩ := hargs
  have hcurrent := h.current
  have hclosed := h.closed
  have hunflushed := h.unflushed
  rw [hroll, hcheck] at hcurrent hclosed
  rw [hflush] at hunflushed
  exact ⟨hclosed, fun file hfile => ⟨hcurrent file hfile, hunflushed file hfile⟩⟩

/-- The first line is too large for the file, and the file is left for a new one. -/
theorem rolled_in_time_two : ∃ f₀ f,
    create sampleRuntime [97] 3 3 1024 ⟨1, true⟩ = some f₀ ∧
      run (step sampleRuntime) f₀ [.append [1, 2, 3, 4] ⟨[4], 1, ⟨2, true⟩⟩,
        .append [5] ⟨[1], 2, ⟨2, true⟩⟩] = some f ∧
      f.closed.length = 1 ∧ (∀ file ∈ f.closed, Kept 3 1024 (file.records.length - 1) file) ∧
      ∀ file ∈ f.file_, Kept 3 1024 file.records.length file := by
  obtain ⟨f₀, hcreate⟩ : ∃ f₀,
      create sampleRuntime [97] 3 3 1024 ⟨1, true⟩ = some f₀ := ⟨_, rfl⟩
  have htime : Meets (step sampleRuntime) OnTime f₀
      [.append [1, 2, 3, 4] ⟨[4], 1, ⟨2, true⟩⟩, .append [5] ⟨[1], 2, ⟨2, true⟩⟩] := by
    cases hcreate
    decide +kernel
  obtain ⟨f, hrun, hlen⟩ : ∃ f, run (step sampleRuntime) f₀
      [.append [1, 2, 3, 4] ⟨[4], 1, ⟨2, true⟩⟩, .append [5] ⟨[1], 2, ⟨2, true⟩⟩] = some f ∧
      f.closed.length = 1 := by
    cases hcreate
    exact ⟨_, rfl, rfl⟩
  obtain ⟨hclosed, hcurrent⟩ := rolled_in_time hcreate htime hrun
  exact ⟨f₀, f, hcreate, hrun, hlen, hclosed, fun file hfile => (hcurrent file hfile).1⟩

end LogFile

end ReactorNet
