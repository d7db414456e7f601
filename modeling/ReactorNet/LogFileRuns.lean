import ReactorNet.GuardedRuns
import ReactorNet.LogFile

/-!
# The files of a log

Over any run the files hold the appended lines in order, none of them in two files, and the
seconds in which the files were opened increase, so that their names differ. A file is left
when it has become too large or its day is over, if the clock has gone on since it was opened.
-/
namespace ReactorNet

open FileUtil LoggerTime DecimalNumerals GuardedRuns

namespace LogFile

/-- The files in the order in which they were opened. -/
def files (f : LogFile) : List OpenFile := f.closed ++ f.file_.toList

def openings (f : LogFile) : List (ℤ × List UInt8) :=
  f.files.map fun file => (file.second, file.filename)

def records (f : LogFile) : List FileRecord := f.files.flatMap OpenFile.records

/-- What the constructor was given. -/
def config (f : LogFile) : List UInt8 × ℤ × ℤ × ℤ :=
  (f.basename_, f.rollSize_, f.flushInterval_, f.checkEveryN_)

/-- `f` after a successful `rollFile`. -/
def opened (p : LogRuntime) (f : LogFile) (now : ℤ) : LogFile :=
  { f with
    lastRoll_ := now
    lastFlush_ := now
    startOfPeriod_ := periodOf now
    file_ := some (.create (getLogFileName p f.basename_ now) now)
    closed := f.closed ++ f.file_.toList }

/-- What `rollFile` does. -/
inductive Rolled (p : LogRuntime) (f : LogFile) (o : Opening) : LogFile → Prop where
  | early : o.now ≤ f.lastRoll_ → Rolled p f o f
  | opened : f.lastRoll_ < o.now → Rolled p f o (f.opened p o.now)

/-- What `append` does once the line is in the file. -/
inductive Appended (p : LogRuntime) (f : LogFile) (file : OpenFile) (a : Answers) :
    LogFile → Prop where
  | large {g : LogFile} : f.rollSize_ < file.writtenBytes_ →
      Rolled p { f with file_ := some file } a.opening g → Appended p f file a g
  | counted : file.writtenBytes_ ≤ f.rollSize_ → f.count_ + 1 < f.checkEveryN_ →
      Appended p f file a { f with file_ := some file, count_ := f.count_ + 1 }
  | nextPeriod {g : LogFile} : file.writtenBytes_ ≤ f.rollSize_ → f.checkEveryN_ ≤ f.count_ + 1 →
      periodOf a.now ≠ f.startOfPeriod_ →
      Rolled p { f with file_ := some (file.checked a.now), count_ := 0 } a.opening g →
      Appended p f file a g
  | flushed : file.writtenBytes_ ≤ f.rollSize_ → f.checkEveryN_ ≤ f.count_ + 1 →
      periodOf a.now = f.startOfPeriod_ → Appended p f file a { f with
        file_ := some ((file.checked a.now).flush p.toFileFlush), count_ := 0, lastFlush_ := a.now }
  | checked : file.writtenBytes_ ≤ f.rollSize_ → f.checkEveryN_ ≤ f.count_ + 1 →
      periodOf a.now = f.startOfPeriod_ → a.now - f.lastFlush_ ≤ f.flushInterval_ →
      Appended p f file a { f with file_ := some (file.checked a.now), count_ := 0 }

variable {p : LogRuntime} {f g : LogFile}

theorem rolled_of_rollFile {o : Opening} (h : (f.rollFile p o).map Prod.fst = some g) :
    Rolled p f o g := by
  rw [rollFile] at h
  by_cases hnow : o.now > f.lastRoll_
  · rw [if_pos hnow] at h
    split at h
    · cases h
      exact .opened hnow
    · cases h
  · rw [if_neg hnow] at h
    cases h
    exact .early (not_lt.mp hnow)

theorem appended_of_append {logline : List UInt8} {a : Answers}
    (h : f.append_unlocked p logline a = some g) :
    ∃ file, f.file_ = some file ∧ Appended p f (file.append logline a.counts) a g := by
  obtain ⟨file, hfile, h⟩ := Option.bind_eq_some_iff.mp h
  refine ⟨file, hfile, ?_⟩
  by_cases hlarge : f.rollSize_ < (file.append logline a.counts).writtenBytes_
  · rw [if_pos hlarge] at h
    exact .large hlarge (rolled_of_rollFile h)
  rw [if_neg hlarge] at h
  by_cases hcount : f.count_ + 1 ≥ f.checkEveryN_
  · rw [if_pos hcount, check] at h
    by_cases hperiod : periodOf a.now ≠ f.startOfPeriod_
    · rw [if_pos hperiod] at h
      exact .nextPeriod (not_lt.mp hlarge) hcount hperiod (rolled_of_rollFile h)
    · rw [if_neg hperiod] at h
      by_cases hflush : a.now - f.lastFlush_ > f.flushInterval_
      · rw [if_pos hflush] at h
        cases h
        exact .flushed (not_lt.mp hlarge) hcount (not_not.mp hperiod)
      · rw [if_neg hflush] at h
        cases h
        exact .checked (not_lt.mp hlarge) hcount (not_not.mp hperiod) (not_lt.mp hflush)
  · rw [if_neg hcount] at h
    cases h
    exact .counted (not_lt.mp hlarge) (not_le.mp hcount)

/-! ## The lines -/

/-- The files opened so far are the same, and the records are joined by `rs`. -/
structure Noted (f : LogFile) (rs : List FileRecord) (g : LogFile) : Prop where
  records : g.records = f.records ++ rs
  openings : g.openings = f.openings
  config : g.config = f.config
  lastRoll : g.lastRoll_ = f.lastRoll_

/-- The records are joined by `rs`; then the file may have been left for another one. -/
def Called (p : LogRuntime) (f : LogFile) (rs : List FileRecord) (g : LogFile) : Prop :=
  ∃ g', Noted f rs g' ∧ (g = g' ∨ ∃ now, g'.lastRoll_ < now ∧ g = g'.opened p now)

theorem Noted.refl (f : LogFile) : Noted f [] f := ⟨(List.append_nil _).symm, rfl, rfl, rfl⟩

theorem Noted.called {rs : List FileRecord} (h : Noted f rs g) : Called p f rs g :=
  ⟨g, h, Or.inl rfl⟩

theorem Noted.rolled {rs : List FileRecord} {o : Opening} {g' : LogFile} (h : Noted f rs g)
    (hrolled : Rolled p g o g') : Called p f rs g' := by
  cases hrolled with
  | early _ => exact ⟨g, h, Or.inl rfl⟩
  | opened hnow => exact ⟨g, h, Or.inr ⟨o.now, hnow, rfl⟩⟩

/-- Another state of the same file. -/
theorem noted_of_file {file file' : OpenFile} {rs : List FileRecord} (hfile : f.file_ = some file)
    (hg : g.file_ = some file') (hclosed : g.closed = f.closed) (hconfig : g.config = f.config)
    (hlast : g.lastRoll_ = f.lastRoll_) (hrecords : file'.records = file.records ++ rs)
    (hsecond : file'.second = file.second) (hname : file'.filename = file.filename) :
    Noted f rs g := by
  refine ⟨?_, ?_, hconfig, hlast⟩
  · simp [LogFile.records, files, hfile, hg, hclosed, hrecords]
  · simp [LogFile.openings, files, hfile, hg, hclosed, hsecond, hname]

theorem called_append {logline : List UInt8} {a : Answers}
    (h : f.append_unlocked p logline a = some g) :
    Called p f [⟨logline, writeLine logline a.counts⟩] g := by
  obtain ⟨file, hfile, h⟩ := appended_of_append h
  cases h with
  | large _ hroll =>
    refine Noted.rolled ?_ hroll
    exact noted_of_file hfile rfl rfl rfl rfl rfl rfl rfl
  | counted =>
    apply Noted.called
    exact noted_of_file hfile rfl rfl rfl rfl rfl rfl rfl
  | nextPeriod _ _ _ hroll =>
    refine Noted.rolled ?_ hroll
    exact noted_of_file hfile rfl rfl rfl rfl rfl rfl rfl
  | flushed =>
    apply Noted.called
    exact noted_of_file hfile rfl rfl rfl rfl rfl rfl (p.filename_flush _)
  | checked =>
    apply Noted.called
    exact noted_of_file hfile rfl rfl rfl rfl rfl rfl rfl

end LogFile

/-- The record that a call leaves. -/
def LogFileCall.record : LogFileCall → List FileRecord
  | .append logline answers => [⟨logline, writeLine logline answers.counts⟩]
  | _ => []

namespace LogFile

variable {p : LogRuntime} {f g : LogFile}

theorem called_step {call : LogFileCall} (h : step p f call = some g) :
    Called p f call.record g := by
  cases call with
  | append logline answers => exact called_append h
  | flush =>
    obtain ⟨file, hfile, rfl⟩ := Option.map_eq_some_iff.mp h
    apply Noted.called
    exact noted_of_file hfile rfl rfl rfl rfl (List.append_nil _).symm rfl (p.filename_flush _)
  | rollFile opening => exact (Noted.refl f).rolled (rolled_of_rollFile h)

/-- The files were opened in the seconds `seconds`, one after the other. -/
structure OpenedAt (p : LogRuntime) (f : LogFile) (seconds : List ℤ) : Prop where
  openings : f.openings = seconds.map fun now => (now, getLogFileName p f.basename_ now)
  increasing : (0 :: seconds).Pairwise (· < ·)
  last : ∀ now ∈ 0 :: seconds, now ≤ f.lastRoll_

theorem OpenedAt.seconds_eq {seconds : List ℤ} (h : OpenedAt p f seconds) :
    f.files.map OpenFile.second = seconds := by
  have hopenings := congrArg (List.map Prod.fst) h.openings
  rw [LogFile.openings, List.map_map, List.map_map] at hopenings
  exact hopenings.trans (List.map_id _)

theorem OpenedAt.opened {seconds : List ℤ} (h : OpenedAt p f seconds) {now : ℤ}
    (hnow : f.lastRoll_ < now) : OpenedAt p (f.opened p now) (seconds ++ [now]) := by
  refine ⟨?_, ?_, ?_⟩
  · have hopenings : (f.opened p now).openings =
        f.openings ++ [(now, getLogFileName p f.basename_ now)] := by
      simp [LogFile.openings, files, LogFile.opened, OpenFile.create, AppendFile.create]
    rw [hopenings, h.openings, List.map_append]
    rfl
  · rw [← List.cons_append]
    refine List.pairwise_append.mpr ⟨h.increasing, List.pairwise_singleton _ _, ?_⟩
    intro a ha b hb
    rw [List.mem_singleton.mp hb]
    exact lt_of_le_of_lt (h.last a ha) hnow
  · intro a ha
    rw [← List.cons_append] at ha
    rcases List.mem_append.mp ha with ha | ha
    · exact le_of_lt (lt_of_le_of_lt (h.last a ha) hnow)
    · exact le_of_eq (List.mem_singleton.mp ha)

theorem OpenedAt.called {seconds : List ℤ} {rs : List FileRecord} (h : OpenedAt p f seconds)
    (hcalled : Called p f rs g) :
    ∃ seconds', OpenedAt p g seconds' ∧ g.records = f.records ++ rs ∧ g.config = f.config := by
  obtain ⟨g', hnoted, hg⟩ := hcalled
  have hg' : OpenedAt p g' seconds := by
    refine ⟨?_, h.increasing, ?_⟩
    · rw [hnoted.openings, show g'.basename_ = f.basename_ from congrArg Prod.fst hnoted.config]
      exact h.openings
    · rw [hnoted.lastRoll]
      exact h.last
  rcases hg with rfl | ⟨now, hnow, rfl⟩
  · exact ⟨seconds, hg', hnoted.records, hnoted.config⟩
  · refine ⟨_, hg'.opened hnow, ?_, hnoted.config⟩
    rw [← hnoted.records]
    simp [LogFile.records, files, LogFile.opened, OpenFile.create]

theorem OpenedAt.run {seconds : List ℤ} {calls : List LogFileCall} (h : OpenedAt p f seconds)
    (hrun : run (step p) f calls = some g) :
    ∃ seconds', OpenedAt p g seconds' ∧
      g.records = f.records ++ calls.flatMap LogFileCall.record ∧ g.config = f.config := by
  induction calls generalizing f seconds with
  | nil =>
    cases hrun
    exact ⟨seconds, h, (List.append_nil _).symm, rfl⟩
  | cons call calls ih =>
    obtain ⟨t, ht, hrun⟩ := run_cons_eq_some.mp hrun
    obtain ⟨seconds', h', hrecords, hconfig⟩ := h.called (called_step ht)
    obtain ⟨seconds'', h'', hrecords', hconfig'⟩ := ih h' hrun
    refine ⟨seconds'', h'', ?_, hconfig'.trans hconfig⟩
    rw [hrecords', hrecords, List.flatMap_cons, List.append_assoc]

/-- After the constructor there is one file, or none where the clock is not positive. -/
theorem openedAt_create {basename : List UInt8} {rollSize flushInterval checkEveryN : ℤ}
    {o : Opening} (h : create p basename rollSize flushInterval checkEveryN o = some f) :
    ∃ seconds, OpenedAt p f seconds ∧ f.records = [] ∧
      f.config = (basename, rollSize, flushInterval, checkEveryN) := by
  rw [create] at h
  split at h
  · cases h
  · cases rolled_of_rollFile h with
    | early _ =>
      refine ⟨[], ⟨rfl, List.pairwise_singleton _ _, ?_⟩, rfl, rfl⟩
      intro now hnow
      exact le_of_eq (List.mem_singleton.mp hnow)
    | opened hnow =>
      refine ⟨[] ++ [o.now], OpenedAt.opened ⟨rfl, List.pairwise_singleton _ _, ?_⟩ hnow, rfl, rfl⟩
      intro now hnow
      exact le_of_eq (List.mem_singleton.mp hnow)

/-- A runtime for examples: every second reads the same. -/
def sampleRuntime : LogRuntime where
  hostname := [104]
  pid := 7
  gmtime_r := fun _ => Tm.zero
  flush := id
  filename_flush := fun _ => rfl
  content_flush := fun _ => rfl
  writtenBytes_flush := fun _ => rfl

end LogFile

end ReactorNet
