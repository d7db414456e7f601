import ReactorNet.LogStream

/-!
# Log records

A `Logger` puts the time, the thread and the level into its stream, then the operands of
the caller follow, and its destructor puts the place in the source and a newline behind
them and passes the buffer to `g_output`. What the time, the thread id and `strerror_r`
contribute are byte strings of any kind.
-/
namespace ReactorNet.Logger

open VectorStorage DecimalNumerals GuardedRuns detail LogStream

inductive LogLevel where
  | TRACE
  | DEBUG
  | INFO
  | WARN
  | ERROR
  | FATAL
  deriving DecidableEq

def LogLevelName : LogLevel → List UInt8
  | .TRACE => "TRACE ".toList.map byte
  | .DEBUG => "DEBUG ".toList.map byte
  | .INFO => "INFO  ".toList.map byte
  | .WARN => "WARN  ".toList.map byte
  | .ERROR => "ERROR ".toList.map byte
  | .FATAL => "FATAL ".toList.map byte

/-- The `size_` bytes from `data_` on. -/
structure SourceFile where
  data_ : List UInt8

/-- The part of a path behind its last slash. -/
def SourceFile.ofPath (path : List UInt8) : SourceFile :=
  ⟨(path.reverse.takeWhile (· ≠ byte '/')).reverse⟩

abbrev CInt := {v : ℤ // IntType.int.Holds v}

def noError : CInt := ⟨0, by decide⟩

/-- What the constructor of `Impl` finds in its thread: the two pieces that `formatTime` puts
into the stream, the thread id, and the texts of the error numbers. -/
structure Env where
  time : List UInt8
  us : List UInt8
  tidString : List UInt8
  strerror_tl : CInt → List UInt8

variable {D : Type*}

/-- The constructor of `Impl`. -/
def Impl.operands (env : Env) (level : LogLevel) (savedErrno : CInt) : List (Operand D) :=
  [.bytes env.time, .bytes env.us, .bytes env.tidString, .bytes (LogLevelName level)] ++
    if savedErrno.val ≠ 0 then
      [.cString (some (env.strerror_tl savedErrno)), .cString (some (" (errno=".toList.map byte)),
        .int .int savedErrno, .cString (some (") ".toList.map byte))]
    else []

/-- The constructors of `Logger`. -/
inductive Constructor where
  | plain
  | leveled (level : LogLevel)
  | function (level : LogLevel) (func : Option (List UInt8))
  | system (toAbort : Bool) (errno : CInt)

def Constructor.operands (env : Env) : Constructor → List (Operand D)
  | .plain => Impl.operands env .INFO noError
  | .leveled level => Impl.operands env level noError
  | .function level func => Impl.operands env level noError ++ [.cString func, .char (byte ' ')]
  | .system toAbort errno => Impl.operands env (if toAbort then .FATAL else .ERROR) errno

def NEWLINE : UInt8 := 10

def finish (basename_ : SourceFile) (line_ : CInt) : List (Operand D) :=
  [.cString (some (" - ".toList.map byte)), .bytes basename_.data_, .char (byte ':'),
    .int .int line_, .char NEWLINE]

variable (g12 : D → List UInt8)

/-- What the destructor passes to `g_output`, for a stream whose array held `data` before and
the operands `ops` of the caller. -/
def output (data : List UInt8) (env : Env) (ctor : Constructor) (file : SourceFile) (line : CInt)
    (ops : List (Operand D)) : Option (List UInt8) :=
  (run (step g12) (.fresh data)
    ((ctor.operands env ++ ops ++ finish file line).map Action.put)).map detail.FixedBuffer.content

/-- The text in the stream when the destructor calls `finish`. -/
def unfinished (env : Env) (ctor : Constructor) (ops : List (Operand D)) : List UInt8 :=
  text g12 kSmallBuffer (ctor.operands env ++ ops)

/-- The newline fits behind the pieces of a file name of `s` bytes that fit into `a` bytes. -/
def NewlineFits (a s : ℕ) : Prop :=
  a = 3 ∧ s ≠ 1 ∧ s ≠ 2 ∨ 6 ≤ a ∧ s + 4 ≠ a ∧ s + 5 ≠ a

/-- The file name leaves one byte, in which nothing fits. -/
def NameLeavesOne (a s : ℕ) : Prop := a ≤ 3 ∧ s + 1 = a ∨ 3 < a ∧ s + 4 = a

/-- The newline fits, or what stands last in the buffer is one already. -/
def EndsRecord (head basename : List UInt8) : Prop :=
  let a := kSmallBuffer - head.length
  NewlineFits a basename.length ∨ a = 1 ∧ head.getLast? = some NEWLINE ∨
    NameLeavesOne a basename.length ∧ basename.getLast? = some NEWLINE

instance (a s : ℕ) : Decidable (NewlineFits a s) :=
  inferInstanceAs (Decidable (a = 3 ∧ s ≠ 1 ∧ s ≠ 2 ∨ 6 ≤ a ∧ s + 4 ≠ a ∧ s + 5 ≠ a))

instance (a s : ℕ) : Decidable (NameLeavesOne a s) :=
  inferInstanceAs (Decidable (a ≤ 3 ∧ s + 1 = a ∨ 3 < a ∧ s + 4 = a))

theorem text_nil (room : ℕ) : text g12 room [] = [] := rfl

/-! ## The pieces of `finish`, from the last one on -/

theorem getLast?_append_singleton (pre : List UInt8) (c : UInt8) :
    (pre ++ [c]).getLast? = some c := List.getLast?_concat

/-- Behind the line number the newline fits wherever it fits in front of it. -/
theorem line_newline_fits (line : CInt) {r : ℕ} (hr : 1 < r) :
    ∃ pre, text g12 r [.int .int line, .char NEWLINE] = pre ++ [NEWLINE] := by
  by_cases hline : Fits r (.int .int line : Operand D)
  · have hlen := length_numeral_int .int line
    have hroom : 32 ≤ r := hline
    have hnl : Fits (r - (render g12 (.int .int line)).length) (.char NEWLINE : Operand D) := by
      change 1 < r - (numeral line.val).length
      omega
    rw [text_cons_fits g12 hline, text_cons_fits g12 hnl, text_nil, List.append_nil]
    exact ⟨_, rfl⟩
  · have hnl : Fits r (.char NEWLINE : Operand D) := hr
    rw [text_cons_drops g12 hline, text_cons_fits g12 hnl, text_nil, List.append_nil]
    exact ⟨[], rfl⟩

theorem line_newline_drops (line : CInt) {r : ℕ} (hr : r ≤ 1) :
    text g12 r [.int .int line, .char NEWLINE] = [] := by
  have hline : ¬ Fits r (.int .int line : Operand D) := by
    change ¬ 32 ≤ r
    omega
  have hnl : ¬ Fits r (.char NEWLINE : Operand D) := Nat.not_lt.mpr hr
  rw [text_cons_drops g12 hline, text_cons_drops g12 hnl, text_nil]

/-- With two bytes left the colon takes the place of the newline. -/
theorem colon_ends_iff (line : CInt) (pre : List UInt8) {r : ℕ} (hr : 1 ≤ r) :
    (pre ++ text g12 r [.char (byte ':'), .int .int line, .char NEWLINE]).getLast? = some NEWLINE ↔
      3 ≤ r ∨ r = 1 ∧ pre.getLast? = some NEWLINE := by
  by_cases hcolon : Fits r (.char (byte ':') : Operand D)
  · have htwo : 1 < r := hcolon
    rw [text_cons_fits g12 hcolon, ← List.append_assoc]
    change (pre ++ [byte ':'] ++ text g12 (r - 1) _).getLast? = _ ↔ _
    by_cases hlast : r = 2
    · rw [line_newline_drops g12 line (by omega), List.append_nil, getLast?_append_singleton]
      constructor
      · intro h
        exact absurd h (by decide)
      · intro h
        omega
    · obtain ⟨mid, hmid⟩ := line_newline_fits g12 line (r := r - 1) (by omega)
      rw [hmid, ← List.append_assoc, getLast?_append_singleton]
      exact ⟨fun _ => .inl (by omega), fun _ => rfl⟩
  · have hone : ¬ 1 < r := hcolon
    rw [text_cons_drops g12 hcolon, line_newline_drops g12 line (by omega), List.append_nil]
    constructor
    · exact fun h => .inr ⟨by omega, h⟩
    · rintro (h | ⟨-, h⟩)
      · omega
      · exact h

/-- What stands last once the file name is in the buffer. -/
theorem getLast?_name (pre name : List UInt8) :
    (pre ++ name).getLast? = if name = [] then pre.getLast? else name.getLast? := by
  split
  · next h => rw [h, List.append_nil]
  · next h => exact List.getLast?_append_of_ne_nil pre h

/-- The file name is put in front of the colon if it leaves a byte. -/
theorem basename_ends_iff (name : List UInt8) (line : CInt) (pre : List UInt8) {r : ℕ}
    (hr : 1 ≤ r) :
    (pre ++ text g12 r [.bytes name, .char (byte ':'), .int .int line,
        .char NEWLINE]).getLast? = some NEWLINE ↔
      (3 ≤ r ∧ name.length + 1 ≠ r ∧ name.length + 2 ≠ r) ∨
        r = 1 ∧ pre.getLast? = some NEWLINE ∨
        name.length + 1 = r ∧ name.getLast? = some NEWLINE := by
  by_cases hname : Fits r (.bytes name : Operand D)
  · have hlt : name.length < r := hname
    rw [text_cons_fits g12 hname, ← List.append_assoc]
    change (pre ++ name ++ text g12 (r - name.length) _).getLast? = _ ↔ _
    rw [colon_ends_iff g12 line _ (by omega), getLast?_name]
    by_cases hnil : name = []
    · subst hnil
      simp only [List.length_nil, List.getLast?_nil, if_true, reduceCtorEq, and_false, or_false]
      constructor
      · rintro (h | h)
        · exact .inl ⟨by omega, by omega, by omega⟩
        · exact .inr h
      · rintro (h | h)
        · exact .inl h.1
        · exact .inr h
    · have hpos : 0 < name.length := List.length_pos_of_ne_nil hnil
      rw [if_neg hnil]
      constructor
      · rintro (h | ⟨h, hlast⟩)
        · exact .inl ⟨by omega, by omega, by omega⟩
        · exact .inr (.inr ⟨by omega, hlast⟩)
      · rintro (⟨h, h', h''⟩ | ⟨h, -⟩ | ⟨h, hlast⟩)
        · exact .inl (by omega)
        · omega
        · exact .inr ⟨by omega, hlast⟩
  · have hge : ¬ name.length < r := hname
    rw [text_cons_drops g12 hname, colon_ends_iff g12 line pre hr]
    constructor
    · rintro (h | h)
      · exact .inl ⟨h, by omega, by omega⟩
      · exact .inr (.inl h)
    · rintro (h | h | ⟨h, -⟩)
      · exact .inl h.1
      · exact .inr h
      · omega

/-- The five pieces behind any text that leaves `a` bytes. -/
theorem finish_ends_iff (file : SourceFile) (line : CInt) (head : List UInt8) {a : ℕ} (ha : 1 ≤ a) :
    (head ++ text g12 a (finish file line)).getLast? = some NEWLINE ↔
      NewlineFits a file.data_.length ∨ a = 1 ∧ head.getLast? = some NEWLINE ∨
        NameLeavesOne a file.data_.length ∧ file.data_.getLast? = some NEWLINE := by
  have hdash : (Operand.cString (some (" - ".toList.map byte)) : Operand D) =
      .cString (some [32, 45, 32]) := by
    congr 2
  rw [finish, hdash]
  by_cases hfits : Fits a (.cString (some [32, 45, 32]) : Operand D)
  · have hlt : 3 < a := hfits
    rw [text_cons_fits g12 hfits, ← List.append_assoc]
    change (head ++ [32, 45, 32] ++ text g12 (a - 3) _).getLast? = _ ↔ _
    have hlast : (head ++ [32, 45, 32]).getLast? = some 32 :=
      List.getLast?_append_of_ne_nil head (List.cons_ne_nil _ _)
    rw [basename_ends_iff g12 file.data_ line _ (by omega), hlast]
    constructor
    · rintro (h | ⟨-, h⟩ | ⟨h, hname⟩)
      · exact .inl (.inr ⟨by omega, by omega, by omega⟩)
      · exact absurd h (by decide)
      · exact .inr (.inr ⟨.inr ⟨hlt, by omega⟩, hname⟩)
    · rintro ((⟨h, -⟩ | h) | ⟨h, -⟩ | ⟨⟨h, -⟩ | ⟨-, h⟩, hname⟩)
      · omega
      · exact .inl ⟨by omega, by omega, by omega⟩
      · omega
      · omega
      · exact .inr (.inr ⟨by omega, hname⟩)
  · have hge : ¬ 3 < a := hfits
    rw [text_cons_drops g12 hfits, basename_ends_iff g12 file.data_ line head ha]
    constructor
    · rintro (h | h | ⟨h, hname⟩)
      · exact .inl (.inl ⟨by omega, by omega, by omega⟩)
      · exact .inr (.inl h)
      · exact .inr (.inr ⟨.inl ⟨by omega, h⟩, hname⟩)
    · rintro ((h | ⟨h, -⟩) | h | ⟨⟨-, h⟩ | ⟨h, -⟩, hname⟩)
      · exact .inl ⟨by omega, by omega, by omega⟩
      · omega
      · exact .inr (.inl h)
      · exact .inr (.inr ⟨h, hname⟩)
      · omega

theorem operands_map_put (ops : List (Operand D)) : operands (ops.map Action.put) = ops := by
  induction ops with
  | nil => rfl
  | cons op ops ih => exact congrArg (op :: ·) ih

/-- What reaches `g_output`. -/
theorem output_eq (hg : ∀ v, ((g12 v).length : ℤ) < kMaxNumericSize) {data : List UInt8}
    (hdata : data.length = kSmallBuffer) (env : Env) (ctor : Constructor) (file : SourceFile)
    (line : CInt) (ops : List (Operand D)) :
    output g12 data env ctor file line ops = some (unfinished g12 env ctor ops ++
      text g12 (kSmallBuffer - (unfinished g12 env ctor ops).length) (finish file line)) := by
  obtain ⟨b, hr, -, hc⟩ := step_run g12 hg (inside_fresh hdata)
    ((ctor.operands env ++ ops ++ finish file line).map Action.put)
  rw [output, hr, Option.map_some, hc, (inside_fresh hdata).room_eq, operands_map_put]
  exact congrArg some (text_append g12 kSmallBuffer (ctor.operands env ++ ops) (finish file line))

/-- The time comes first in every constructor. -/
theorem Constructor.operands_eq_cons (env : Env) (ctor : Constructor) :
    ∃ rest : List (Operand D), ctor.operands env = .bytes env.time :: rest := by
  cases ctor with
  | plain => exact ⟨_, rfl⟩
  | leveled level => exact ⟨_, rfl⟩
  | function level func => exact ⟨_, rfl⟩
  | system toAbort errno => exact ⟨_, rfl⟩

/-- What reaches `g_output` starts with the time. -/
theorem output_starts_with_time (hg : ∀ v, ((g12 v).length : ℤ) < kMaxNumericSize)
    {data : List UInt8} (hdata : data.length = kSmallBuffer) (env : Env)
    (htime : env.time.length < kSmallBuffer) (ctor : Constructor) (file : SourceFile)
    (line : CInt) (ops : List (Operand D)) :
    ∃ out, output g12 data env ctor file line ops = some out ∧
      out.take env.time.length = env.time := by
  refine ⟨_, output_eq g12 hg hdata env ctor file line ops, ?_⟩
  obtain ⟨rest, hrest⟩ := ctor.operands_eq_cons (D := D) env
  have hfits : Fits kSmallBuffer (.bytes env.time : Operand D) := htime
  rw [unfinished, hrest, List.cons_append, text_cons_fits g12 hfits, List.append_assoc]
  exact List.take_left

/-- The record that a `Logger` writes ends with a newline exactly if the newline fits into what
its text leaves of the buffer, or another newline happens to stand last there. -/
theorem output_ends_iff (hg : ∀ v, ((g12 v).length : ℤ) < kMaxNumericSize) {data : List UInt8}
    (hdata : data.length = kSmallBuffer) (env : Env) (ctor : Constructor) (file : SourceFile)
    (line : CInt) (ops : List (Operand D)) :
    ∃ out, output g12 data env ctor file line ops = some out ∧
      (out.getLast? = some NEWLINE ↔ EndsRecord (unfinished g12 env ctor ops) file.data_) := by
  have hpos : 0 < kSmallBuffer := Nat.zero_lt_succ 3999
  have hlt := length_text_lt g12 hg hpos (ctor.operands env ++ ops)
  refine ⟨_, output_eq g12 hg hdata env ctor file line ops, ?_⟩
  exact finish_ends_iff g12 file line _ (Nat.sub_pos_of_lt hlt)

/-- The pieces of an ordinary record, of thirty-eight bytes with the level. -/
def sampleEnv : Env where
  time := "20240101 00:00:00".toList.map byte
  us := ".000000Z ".toList.map byte
  tidString := "12345 ".toList.map byte
  strerror_tl _ := []

def sampleFile : SourceFile := .ofPath ("src/main.cc".toList.map byte)

def sampleLine : CInt := ⟨42, by decide⟩

/-- A short record. -/
theorem output_ends_iff_short :
    ∃ out, output (fun _ : Unit => [byte '0']) (List.replicate kSmallBuffer 0) sampleEnv
        (.system true noError) sampleFile sampleLine [.bool true, .double ()] = some out ∧
      out.getLast? = some NEWLINE := by
  obtain ⟨out, hout, hends⟩ := output_ends_iff (fun _ : Unit => [byte '0']) (fun _ => by decide)
    (List.length_replicate (n := kSmallBuffer) (a := 0)) sampleEnv (.system true noError)
    sampleFile sampleLine [.bool true, .double ()]
  exact ⟨out, hout, hends.mpr (.inl (by decide +kernel))⟩

/-- A string that leaves two bytes: the colon takes one of them, and the record ends there. -/
theorem output_ends_in_colon :
    ∃ out, output (fun _ : Unit => [byte '0']) (List.replicate kSmallBuffer 0) sampleEnv .plain
        sampleFile sampleLine [.string (List.replicate 3960 (byte 'x'))] = some out ∧
      out.getLast? ≠ some NEWLINE := by
  have hroom : kSmallBuffer - (unfinished (fun _ : Unit => [byte '0']) sampleEnv .plain
      [.string (List.replicate 3960 (byte 'x'))]).length = 2 := by decide +kernel
  refine ⟨_, output_eq (fun _ : Unit => [byte '0']) (fun _ => by decide)
    (List.length_replicate (n := kSmallBuffer) (a := 0)) sampleEnv .plain sampleFile sampleLine
    [.string (List.replicate 3960 (byte 'x'))], ?_⟩
  rw [hroom, ne_eq, finish_ends_iff _ _ _ _ (by decide)]
  decide +kernel

end ReactorNet.Logger
