import ReactorNet.AsyncLoggingOrder
import ReactorNet.LogFileRuns

/-!
# From the front end to the files

The logging thread owns a `LogFile`: what it passes to `output.append` is appended there, and it
calls `output.flush` after each batch and before it exits.
-/
namespace ReactorNet

open FileUtil GuardedRuns

/-- The state of the logger together with that of `output`. -/
structure LogPipeline where
  log : AsyncLogging
  output : LogFile

/-- As `LogAction`; the thread also gets the answers of the system to its calls. -/
inductive PipelineAction where
  | append (logline : List UInt8)
  | stop
  | thread (now : String) (answers : LogFile.Answers)

def PipelineAction.toLog : PipelineAction → LogAction
  | .append logline => .append logline
  | .stop => .stop
  | .thread now _ => .thread now

namespace LogPipeline

/-- What the thread passes on in the step from `x` to `y`. -/
def passedOn (x y : AsyncLogging) : List LogChunk := y.output.drop x.output.length

/-- The calls on `output` in that step. -/
def outputCalls (x y : AsyncLogging) (answers : LogFile.Answers) : List LogFileCall :=
  (passedOn x y).map (fun chunk => .append chunk.bytes answers) ++
    if x.pc = .recycle ∨ y.pc = .exited then [.flush] else []

def step (p : LogRuntime) (x : LogPipeline) : PipelineAction → Option LogPipeline
  | .append logline => (x.log.append logline).map fun log => { x with log := log }
  | .stop => some { x with log := x.log.stop }
  | .thread now answers => (x.log.threadFunc now).bind fun log =>
      (run (LogFile.step p) x.output (outputCalls x.log log answers)).map fun output =>
        ⟨log, output⟩

/-- Whatever is passed on is written completely. -/
def WritesAll (x : LogPipeline) : PipelineAction → Prop
  | .thread now answers => ∀ log ∈ x.log.threadFunc now,
      ∀ chunk ∈ passedOn x.log log, writeLine chunk.bytes answers.counts = chunk.bytes
  | _ => True

instance (x : LogPipeline) : (a : PipelineAction) → Decidable (x.WritesAll a)
  | .append _ => inferInstanceAs (Decidable True)
  | .stop => inferInstanceAs (Decidable True)
  | .thread now answers => inferInstanceAs (Decidable (∀ log ∈ x.log.threadFunc now,
      ∀ chunk ∈ passedOn x.log log, writeLine chunk.bytes answers.counts = chunk.bytes))

/-- Every line fits a buffer, no batch is dropped, and all writes complete. -/
def steady (x : LogPipeline) (a : PipelineAction) : Prop := x.log.steady a.toLog ∧ x.WritesAll a

instance (x : LogPipeline) (a : PipelineAction) : Decidable (x.steady a) :=
  inferInstanceAs (Decidable (_ ∧ _))

def whole (chunk : LogChunk) : FileRecord := ⟨chunk.bytes, chunk.bytes⟩

/-- The log is in order, and its output is what the files hold. -/
structure InFiles (p : LogRuntime) (x : LogPipeline) : Prop where
  log : x.log.InOrder
  opened : ∃ seconds, x.output.OpenedAt p seconds
  records : x.output.records = x.log.output.map whole

variable {p : LogRuntime} {x y : LogPipeline}

theorem output_drop {a b : AsyncLogging} {chunks : List LogChunk}
    (h : b.output = a.output ++ chunks) :
    passedOn a b = chunks := by
  rw [passedOn, h, List.drop_left]

/-- The records of the calls in a step. -/
theorem records_outputCalls {a b : AsyncLogging} {answers : LogFile.Answers}
    (h : ∀ chunk ∈ passedOn a b, writeLine chunk.bytes answers.counts = chunk.bytes) :
    (outputCalls a b answers).flatMap LogFileCall.record = (passedOn a b).map whole := by
  have hflush : (if a.pc = .recycle ∨ b.pc = .exited then [LogFileCall.flush] else []).flatMap
      LogFileCall.record = [] := by
    split <;> rfl
  rw [outputCalls, List.flatMap_append, hflush, List.append_nil, List.flatMap_map]
  generalize passedOn a b = chunks at h
  induction chunks with
  | nil => rfl
  | cons chunk chunks ih =>
    rw [List.flatMap_cons, List.map_cons, ih fun c hc => h c (List.mem_cons_of_mem _ hc),
      LogFileCall.record, h chunk List.mem_cons_self]
    rfl

theorem InFiles.step (h : InFiles p x) {a : PipelineAction} (ha : x.steady a)
    (hstep : step p x a = some y) :
    InFiles p y ∧ y.log.appended.map Line.text = x.log.appended.map Line.text ++ a.toLog.line := by
  obtain ⟨log, hlog, hin, htext⟩ := h.log.step ha.1
  cases a with
  | append logline =>
    obtain ⟨log', hlog', rfl⟩ := Option.map_eq_some_iff.mp hstep
    cases hlog.symm.trans hlog'
    refine ⟨⟨hin, h.opened, ?_⟩, htext⟩
    obtain ⟨log'', hlog'', -, happended⟩ := h.log.sound.append logline
    cases hlog.symm.trans hlog''
    rw [happended.output]
    exact h.records
  | stop =>
    cases hstep
    cases hlog
    exact ⟨⟨hin, h.opened, h.records⟩, htext⟩
  | thread now answers =>
    obtain ⟨log', hlog', hstep⟩ := Option.bind_eq_some_iff.mp hstep
    obtain ⟨output, hrun, rfl⟩ := Option.map_eq_some_iff.mp hstep
    cases hlog.symm.trans hlog'
    obtain ⟨seconds, hopened⟩ := h.opened
    obtain ⟨seconds', hopened', hrecords, -⟩ := hopened.run hrun
    refine ⟨⟨hin, ⟨seconds', hopened'⟩, ?_⟩, htext⟩
    rw [hrecords, records_outputCalls (ha.2 log hlog'), h.records]
    rcases AsyncLogging.output_threadFunc hlog' ha.1.2 with hout | ⟨b, hout⟩
    · have hnone : passedOn x.log log = [] := output_drop (hout.trans (List.append_nil _).symm)
      rw [hnone, hout]
      exact List.append_nil _
    · rw [output_drop hout, hout, List.map_append]

theorem InFiles.run (h : InFiles p x) {actions : List PipelineAction}
    (hsteady : Meets (LogPipeline.step p) steady x actions)
    (hrun : GuardedRuns.run (LogPipeline.step p) x actions = some y) :
    InFiles p y ∧ y.log.appended.map Line.text =
      x.log.appended.map Line.text ++ actions.flatMap fun a => a.toLog.line := by
  induction actions generalizing x with
  | nil =>
    cases hrun
    exact ⟨h, (List.append_nil _).symm⟩
  | cons a actions ih =>
    obtain ⟨t, ht, hrun⟩ := run_cons_eq_some.mp hrun
    obtain ⟨hin, htext⟩ := h.step hsteady.1 ht
    obtain ⟨hin', htext'⟩ := ih hin (hsteady.2 t ht) hrun
    refine ⟨hin', ?_⟩
    rw [htext', htext, List.flatMap_cons, List.append_assoc]

/-- A split of a mapped list is the split of the list. -/
theorem exists_split_of_flatten {α β : Type*} {g : α → β} {parts : List (List β)} {l : List α}
    (h : parts.flatten = l.map g) :
    ∃ parts' : List (List α), parts'.flatten = l ∧ parts'.map (List.map g) = parts := by
  induction parts generalizing l with
  | nil =>
    have hl : l = [] := List.map_eq_nil_iff.mp h.symm
    exact ⟨[], hl.symm, rfl⟩
  | cons part parts ih =>
    rw [List.flatten_cons] at h
    obtain ⟨l₁, l₂, rfl, h₁, h₂⟩ := List.map_eq_append_iff.mp h.symm
    obtain ⟨parts', hflat, hmap⟩ := ih h₂.symm
    refine ⟨l₁ :: parts', ?_, ?_⟩
    · rw [List.flatten_cons, hflat]
    · rw [List.map_cons, h₁, hmap]

theorem flatten_map_flatMap {α β : Type*} (g : α → List β) (parts : List (List α)) :
    (parts.map (List.flatMap g)).flatten = parts.flatten.flatMap g := by
  induction parts with
  | nil => rfl
  | cons part parts ih => rw [List.map_cons, List.flatten_cons, List.flatten_cons,
      List.flatMap_append, ih]

/-- The content of each file is made of whole lines. -/
theorem InFiles.contents (h : InFiles p x) : ∃ parts : List (List Line),
    x.output.files.map (fun file => file.content) = parts.map Line.bytes ∧
      parts.flatten = x.log.written := by
  have hrecords : (x.output.files.map OpenFile.records).flatten = x.log.output.map whole := by
    rw [← h.records, LogFile.records, List.flatMap_def]
  obtain ⟨chunks, hflat, hmap⟩ := exists_split_of_flatten hrecords
  refine ⟨chunks.map (List.flatMap LogChunk.lines), ?_, ?_⟩
  · have hcontent : x.output.files.map (fun file => file.content) =
        (chunks.map (List.map whole)).map (List.flatMap FileRecord.written) := by
      rw [hmap, List.map_map]
      exact List.map_congr_left fun file _ => file.content_eq
    rw [hcontent, List.map_map, List.map_map]
    apply List.map_congr_left
    intro part hpart
    have hbuffers : ∀ chunk ∈ part, ∃ b, chunk = .buffer b := by
      intro chunk hchunk
      apply h.log.buffers chunk
      rw [← hflat]
      exact List.mem_flatten.mpr ⟨part, hpart, hchunk⟩
    have hbytes : (part.map whole).flatMap FileRecord.written = part.flatMap LogChunk.bytes := by
      rw [List.flatMap_map]
      rfl
    exact hbytes.trans (AsyncLogging.flatMap_bytes hbuffers)
  · rw [flatten_map_flatMap, hflat]
    rfl

/-- In a run without a dropped batch, in which all writes complete, the files consist of whole
lines; those of all files in the order in which they were opened, the rest of the batch, the
queued buffers and the current one are the appended lines in their order. -/
theorem log_reaches_files {basename : List UInt8} {rollSize flushInterval checkEveryN : ℤ}
    {o : LogFile.Opening} {f₀ : LogFile} {actions : List PipelineAction}
    (hcreate : LogFile.create p basename rollSize flushInterval checkEveryN o = some f₀)
    (hsteady : Meets (step p) steady ⟨.start, f₀⟩ actions)
    (hrun : GuardedRuns.run (step p) ⟨.start, f₀⟩ actions = some x) :
    ∃ parts : List (List Line), x.output.files.map (fun file => file.content) = parts.map Line.bytes ∧
      parts.flatten ++ x.log.unwritten.flatMap AsyncLogging.ptrLines ++
        x.log.buffers_.flatMap AsyncLogging.ptrLines ++
        AsyncLogging.ptrLines x.log.currentBuffer_ = x.log.appended ∧
      x.log.appended.map Line.text = (actions.flatMap fun a => a.toLog.line) ∧
      (x.output.files.map OpenFile.second).Pairwise (· < ·) := by
  obtain ⟨seconds, hopened, hrecords, -⟩ := LogFile.openedAt_create hcreate
  have hstart : InFiles p ⟨.start, f₀⟩ := ⟨AsyncLogging.inOrder_start, ⟨seconds, hopened⟩, hrecords⟩
  obtain ⟨hin, htext⟩ := hstart.run hsteady hrun
  obtain ⟨parts, hcontent, hparts⟩ := hin.contents
  obtain ⟨seconds', hopened'⟩ := hin.opened
  refine ⟨parts, hcontent, ?_, htext, ?_⟩
  · rw [hparts, ← hin.log.ledger, AsyncLogging.ledger, AsyncLogging.pending,
      List.append_assoc _ (x.log.buffers_.flatMap AsyncLogging.ptrLines)]
  · rw [hopened'.seconds_eq]
    exact (List.pairwise_cons.mp hopened'.increasing).2

/-- Answers to every call: one byte is written, and it is the second `1`. -/
def secondOne : LogFile.Answers := ⟨[1], 1, ⟨1, true⟩⟩

/-- A file is opened in the second `1`. -/
def sampleOutput : LogFile :=
  (LogFile.create LogFile.sampleRuntime [97] 3 3 1024 secondOne.opening).get rfl

/-- One line reaches the file, another one is still in the current buffer. -/
theorem log_reaches_files_one : ∃ x,
    GuardedRuns.run (step LogFile.sampleRuntime) ⟨.start, sampleOutput⟩
      (.append [98] :: List.replicate 5 (.thread "" secondOne) ++ [.append [99]]) = some x ∧
      x.output.files.map (fun file => file.content) = [[98]] ∧
      x.log.appended.map Line.text = [[98], [99]] := by
  have hsteady : Meets (step LogFile.sampleRuntime) steady ⟨.start, sampleOutput⟩
      (.append [98] :: List.replicate 5 (.thread "" secondOne) ++ [.append [99]]) := by
    decide +kernel
  obtain ⟨x, hrun, hcontent⟩ : ∃ x,
    GuardedRuns.run (step LogFile.sampleRuntime) ⟨.start, sampleOutput⟩
      (.append [98] :: List.replicate 5 (.thread "" secondOne) ++ [.append [99]]) = some x ∧
        x.output.files.map (fun file => file.content) = [[98]] := ⟨_, rfl, rfl⟩
  have hcreate : LogFile.create LogFile.sampleRuntime [97] 3 3 1024 secondOne.opening =
      some sampleOutput := rfl
  obtain ⟨parts, -, -, htext, -⟩ := log_reaches_files hcreate hsteady hrun
  exact ⟨x, hrun, hcontent, htext⟩

end LogPipeline

end ReactorNet
