import ReactorNet.LoggerTime

/-!
# Log files

`LogFile` writes to one `AppendFile` at a time and opens another one when the file has
become too large, or when a check finds that its day is over. The clock, the answers of
`fwrite_unlocked` and whether `fopen` succeeds are arguments of each call. The mutex, which is
held during a whole call, has no part in the results.
-/
namespace ReactorNet

open DecimalNumerals LoggerTime

namespace FileUtil

/-- A call of `append`, and what of its line reached the file. -/
structure FileRecord where
  logline : List UInt8
  written : List UInt8
deriving DecidableEq

/-- A check of the clock after so many records. -/
structure Check where
  records : ℕ
  now : ℤ
deriving DecidableEq

def FileRecord.total (records : List FileRecord) : ℕ := (records.map fun r => r.logline.length).sum

/-- A file that is open for writing, with what it has been given. -/
structure AppendFile where
  filename : List UInt8
  content : List UInt8
  writtenBytes_ : ℕ

/-- The writes after the first one. They end when the line is written, or with an answer 0;
after the last of `counts` the answer is 0. -/
def writeRest : List UInt8 → List ℕ → List UInt8
  | [], _ => []
  | _ :: _, [] => []
  | rest@(_ :: _), x :: counts =>
    if x = 0 then [] else rest.take x ++ writeRest (rest.drop x) counts

/-- What is written of a line. The answer of the first write is not checked. -/
def writeLine (logline : List UInt8) (counts : List ℕ) : List UInt8 :=
  logline.take (counts.headD 0) ++ writeRest (logline.drop (counts.headD 0)) counts.tail

theorem prefix_writeRest (rest : List UInt8) (counts : List ℕ) :
    writeRest rest counts <+: rest := by
  induction counts generalizing rest with
  | nil => cases rest <;> exact List.nil_prefix
  | cons x counts ih =>
    cases rest with
    | nil => exact List.nil_prefix
    | cons b rest =>
      rw [writeRest]
      split
      · exact List.nil_prefix
      · have hrest := List.prefix_append_right_inj ((b :: rest).take x) |>.mpr
          (ih ((b :: rest).drop x))
        rwa [List.take_append_drop] at hrest

/-- What is written is the beginning of the line, however the writes are split. -/
theorem prefix_writeLine (logline : List UInt8) (counts : List ℕ) :
    writeLine logline counts <+: logline := by
  have hrest := List.prefix_append_right_inj (logline.take (counts.headD 0)) |>.mpr
    (prefix_writeRest (logline.drop (counts.headD 0)) counts.tail)
  rwa [List.take_append_drop] at hrest

namespace AppendFile

/-- The constructor. -/
def create (filename : List UInt8) : AppendFile := ⟨filename, [], 0⟩

def append (file : AppendFile) (logline : List UInt8) (counts : List ℕ) : AppendFile :=
  { file with
    content := file.content ++ writeLine logline counts
    writtenBytes_ := file.writtenBytes_ + logline.length }

end AppendFile

/-- `AppendFile::flush`, which is declared and has no body here. Its callers rely on it to
leave the file as it is, but for where its bytes are. -/
structure FileFlush where
  flush : AppendFile → AppendFile
  filename_flush : ∀ file, (flush file).filename = file.filename
  content_flush : ∀ file, (flush file).content = file.content
  writtenBytes_flush : ∀ file, (flush file).writtenBytes_ = file.writtenBytes_

/-- A file with its history: the second in which it was opened, the calls of `append` and the
checks so far, and the number of records at the last call of `flush`. -/
structure OpenFile extends AppendFile where
  second : ℤ
  records : List FileRecord
  checks : List Check
  flushed : ℕ
  content_eq : content = records.flatMap FileRecord.written
  writtenBytes_eq : writtenBytes_ = FileRecord.total records
  checks_le : ∀ c ∈ checks, c.records ≤ records.length

namespace OpenFile

def create (filename : List UInt8) (second : ℤ) : OpenFile where
  toAppendFile := .create filename
  second := second
  records := []
  checks := []
  flushed := 0
  content_eq := List.flatMap_nil.symm
  writtenBytes_eq := rfl
  checks_le := fun _ h => absurd h List.not_mem_nil

def append (file : OpenFile) (logline : List UInt8) (counts : List ℕ) : OpenFile where
  toAppendFile := file.toAppendFile.append logline counts
  second := file.second
  records := file.records ++ [⟨logline, writeLine logline counts⟩]
  checks := file.checks
  flushed := file.flushed
  content_eq := by simp [AppendFile.append, file.content_eq]
  writtenBytes_eq := by simp [AppendFile.append, file.writtenBytes_eq, FileRecord.total]
  checks_le c hc := by
    have hle := file.checks_le c hc
    rw [List.length_append]
    omega

def flush (p : FileFlush) (file : OpenFile) : OpenFile :=
  { file with
    toAppendFile := p.flush file.toAppendFile
    flushed := file.records.length
    content_eq := (p.content_flush _).trans file.content_eq
    writtenBytes_eq := (p.writtenBytes_flush _).trans file.writtenBytes_eq }

/-- The file with one more check in its history. -/
def checked (file : OpenFile) (now : ℤ) : OpenFile :=
  { file with
    checks := file.checks ++ [⟨file.records.length, now⟩]
    checks_le := by
      intro c hc
      rcases List.mem_append.mp hc with hc | hc
      · exact file.checks_le c hc
      · rw [List.mem_singleton.mp hc] }

end OpenFile

end FileUtil

open FileUtil

/-- `ProcessInfo`, and the C library's `gmtime_r`. -/
structure ProcessInfo where
  hostname : List UInt8
  pid : ℤ
  gmtime_r : ℤ → Tm

/-- What a log relies on that is not its own. -/
structure LogRuntime extends ProcessInfo, FileFlush

structure LogFile where
  basename_ : List UInt8
  rollSize_ : ℤ
  flushInterval_ : ℤ
  checkEveryN_ : ℤ
  count_ : ℤ
  startOfPeriod_ : ℤ
  lastRoll_ : ℤ
  lastFlush_ : ℤ
  file_ : Option OpenFile
  /-- History: the files before this one. -/
  closed : List OpenFile

namespace LogFile

def kRollPerSeconds_ : ℤ := 60 * 60 * 24

/-- The second in which the day of `now` starts. -/
def periodOf (now : ℤ) : ℤ := now.tdiv kRollPerSeconds_ * kRollPerSeconds_

/-- `".%Y%m%d-%H%M%S."` -/
def timebuf (tm : Tm) : List UInt8 :=
  [byte '.'] ++ (numeral (tm.tm_year + 1900) ++ (zeroPadded 2 (tm.tm_mon + 1) ++
    zeroPadded 2 tm.tm_mday ++ [byte '-'] ++ zeroPadded 2 tm.tm_hour ++ zeroPadded 2 tm.tm_min ++
    zeroPadded 2 tm.tm_sec)) ++ [byte '.']

/-- What the system answers when a file is to be opened. -/
structure Opening where
  now : ℤ
  fopen : Bool

/-- What it answers during an `append`: the writes, the clock at the check, and the opening. -/
structure Answers where
  counts : List ℕ
  now : ℤ
  opening : Opening

section Process

variable (p : LogRuntime)

def getLogFileName (basename : List UInt8) (now : ℤ) : List UInt8 :=
  basename ++ timebuf (p.gmtime_r now) ++ p.hostname ++ ([byte '.'] ++ numeral p.pid) ++
    ".log".toList.map byte

/-- With the result; none if the assertion on `fp_` fails. -/
def rollFile (f : LogFile) (o : Opening) : Option (LogFile × Bool) :=
  let filename := getLogFileName p f.basename_ o.now
  let start := periodOf o.now
  if o.now > f.lastRoll_ then
    if o.fopen then
      some ({ f with
        lastRoll_ := o.now
        lastFlush_ := o.now
        startOfPeriod_ := start
        file_ := some (.create filename o.now)
        closed := f.closed ++ f.file_.toList }, true)
    else none
  else some (f, false)

/-- The constructor; none if an assertion fails. -/
def create (basename : List UInt8) (rollSize flushInterval checkEveryN : ℤ) (o : Opening) :
    Option LogFile :=
  if byte '/' ∈ basename then none
  else
    (rollFile p
      { basename_ := basename
        rollSize_ := rollSize
        flushInterval_ := flushInterval
        checkEveryN_ := checkEveryN
        count_ := 0
        startOfPeriod_ := 0
        lastRoll_ := 0
        lastFlush_ := 0
        file_ := none
        closed := [] } o).map Prod.fst

def flush (f : LogFile) : Option LogFile :=
  f.file_.map fun file => { f with file_ := some (file.flush p.toFileFlush) }

/-- The check of every `checkEveryN_`-th call. -/
def check (f : LogFile) (file : OpenFile) (answers : Answers) : Option LogFile :=
  let f := { f with count_ := 0, file_ := some (file.checked answers.now) }
  let thisPeriod_ := periodOf answers.now
  if thisPeriod_ ≠ f.startOfPeriod_ then (f.rollFile p answers.opening).map Prod.fst
  else if answers.now - f.lastFlush_ > f.flushInterval_ then
    { f with lastFlush_ := answers.now }.flush p
  else some f

/-- `none` if there is no file. -/
def append_unlocked (f : LogFile) (logline : List UInt8) (answers : Answers) : Option LogFile :=
  f.file_.bind fun file =>
    let file : OpenFile := file.append logline answers.counts
    let f := { f with file_ := some file }
    if f.rollSize_ < (file.writtenBytes_ : ℤ) then (f.rollFile p answers.opening).map Prod.fst
    else
      let f := { f with count_ := f.count_ + 1 }
      if f.count_ ≥ f.checkEveryN_ then f.check p file answers else some f

end Process

end LogFile

/-- A call of a member function. -/
inductive LogFileCall where
  | append (logline : List UInt8) (answers : LogFile.Answers)
  | flush
  | rollFile (opening : LogFile.Opening)

namespace LogFile

def step (p : LogRuntime) (f : LogFile) : LogFileCall → Option LogFile
  | .append logline answers => f.append_unlocked p logline answers
  | .flush => f.flush p
  | .rollFile opening => (f.rollFile p opening).map Prod.fst

end LogFile

end ReactorNet
