import ReactorNet.Logger
import ReactorNet.LocalTimeRoundTrip
import ReactorNet.TimeZoneFile

/-!
# The time of a log record

`formatTime` keeps the text of the last second in a buffer of its thread, whereas the zone
it formats in is global and can be set between two records. `gmtime_r` is a parameter, and
the assertions on the length of the text are left out, as in a release build.
-/
namespace ReactorNet

/-- The constructor of a zone with a fixed offset. -/
def TimeZone.fixed (eastOfUtc : ℤ) (tzname : String) : TimeZone :=
  ⟨some ⟨[], [⟨eastOfUtc, false, 0⟩], tzname⟩⟩

namespace LoggerTime

open VectorStorage DecimalNumerals GuardedRuns

def kMicroSecondsPerSecond : ℤ := 1000 * 1000

/-- `%4d` and the like. -/
def spacePadded (width : ℕ) (v : ℤ) : List UInt8 :=
  List.replicate (width - (numeral v).length) (byte ' ') ++ numeral v

/-- `%02d` and the like: the zeros stand behind the sign. -/
def zeroPadded (width : ℕ) (v : ℤ) : List UInt8 :=
  let sign := if v < 0 then [MINUS] else []
  sign ++ (List.replicate (width - (numeral v).length) (byte '0') ++ digits v.natAbs)

/-- `"%4d%02d%02d %02d:%02d:%02d"` -/
def timeText (tm : Tm) : List UInt8 :=
  spacePadded 4 (tm.tm_year + 1900) ++ zeroPadded 2 (tm.tm_mon + 1) ++ zeroPadded 2 tm.tm_mday ++
    [byte ' '] ++ zeroPadded 2 tm.tm_hour ++ [byte ':'] ++ zeroPadded 2 tm.tm_min ++ [byte ':'] ++
    zeroPadded 2 tm.tm_sec

/-- A call of `formatTime`: the second of the record, the zone in force, and the first piece it
put into the stream. -/
structure Record where
  second : ℤ
  zone : TimeZone
  written : List UInt8

structure LogTime where
  t_time : List UInt8
  t_lastSecond : ℤ
  g_logTimeZone : TimeZone
  /-- History: the zone in force when `t_time` was written. -/
  cachedZone : Option TimeZone
  /-- History: the calls so far. -/
  records : List Record

def init : LogTime where
  t_time := List.replicate 64 0
  t_lastSecond := 0
  g_logTimeZone := ⟨none⟩
  cachedZone := none
  records := []

section Format

variable (gmtime_r : ℤ → Tm)

def breakDown (zone : TimeZone) (seconds : ℤ) : Option Tm :=
  match zone.data_ with
  | some data => TimeZone.toLocalTime gmtime_r data seconds
  | none => some (gmtime_r seconds)

/-- `snprintf` into `t_time`, unless it holds this second. -/
def refresh (s : LogTime) (seconds : ℤ) : Option LogTime :=
  if seconds ≠ s.t_lastSecond then
    (breakDown gmtime_r s.g_logTimeZone seconds).map fun tm =>
      { s with
        t_lastSecond := seconds
        t_time := overwrite s.t_time 0 ((timeText tm).take 63 ++ [0])
        cachedZone := some s.g_logTimeZone }
  else some s

/-- The two pieces that go into the stream. -/
def formatTime (s : LogTime) (microSecondsSinceEpoch : ℤ) :
    Option (LogTime × List UInt8 × List UInt8) :=
  let seconds := microSecondsSinceEpoch.tdiv kMicroSecondsPerSecond
  let microseconds := microSecondsSinceEpoch.tmod kMicroSecondsPerSecond
  (refresh gmtime_r s seconds).map fun t =>
    let us := [byte '.'] ++ zeroPadded 6 microseconds ++
      if t.g_logTimeZone.valid then [byte ' '] else [byte 'Z', byte ' ']
    (t, slice t.t_time 0 17, us.take (if t.g_logTimeZone.valid then 8 else 9))

inductive Event where
  | log (microSecondsSinceEpoch : ℤ)
  | setTimeZone (tz : TimeZone)

def step (s : LogTime) : Event → Option LogTime
  | .log micros => (formatTime gmtime_r s micros).map fun (t, time, _) =>
      { t with records := t.records ++ [⟨micros.tdiv kMicroSecondsPerSecond, t.g_logTimeZone, time⟩] }
  | .setTimeZone tz => some { s with g_logTimeZone := tz }

/-- The first 17 characters of a second formatted in a zone. -/
def timePrefix (zone : TimeZone) (second : ℤ) : Option (List UInt8) :=
  (breakDown gmtime_r zone second).map fun tm => (timeText tm).take 17

/-- What was written is what formatting the record's second in the zone in force gives. -/
def Record.Agrees (r : Record) : Prop := timePrefix gmtime_r r.zone r.second = some r.written

instance (r : Record) : Decidable (r.Agrees gmtime_r) :=
  inferInstanceAs (Decidable (timePrefix gmtime_r r.zone r.second = some r.written))

/-- The second formatted in the zone of the cache reads as in the zone in force. -/
def SameText (s : LogTime) (second : ℤ) : Prop :=
  match s.cachedZone with
  | none => False
  | some zone => timePrefix gmtime_r zone second = timePrefix gmtime_r s.g_logTimeZone second

/-- The record is not of the second of the cache, or that makes no difference. -/
def CacheFits (s : LogTime) : Event → Prop
  | .log micros => micros.tdiv kMicroSecondsPerSecond ≠ s.t_lastSecond ∨
      SameText gmtime_r s (micros.tdiv kMicroSecondsPerSecond)
  | .setTimeZone _ => True

instance (s : LogTime) (second : ℤ) : Decidable (SameText gmtime_r s second) :=
  match h : s.cachedZone with
  | none => isFalse (by simp [SameText, h])
  | some zone => decidable_of_iff
      (timePrefix gmtime_r zone second = timePrefix gmtime_r s.g_logTimeZone second)
      (by simp [SameText, h])

instance (s : LogTime) : ∀ e, Decidable (CacheFits gmtime_r s e)
  | .log micros => inferInstanceAs (Decidable (micros.tdiv kMicroSecondsPerSecond ≠ s.t_lastSecond ∨
      SameText gmtime_r s (micros.tdiv kMicroSecondsPerSecond)))
  | .setTimeZone _ => isTrue trivial

end Format

/-! ## The text -/

theorem length_spacePadded (width : ℕ) (v : ℤ) : width ≤ (spacePadded width v).length := by
  rw [spacePadded, List.length_append, List.length_replicate]
  omega

theorem length_zeroPadded (width : ℕ) (v : ℤ) : width ≤ (zeroPadded width v).length := by
  have hlen : (numeral v).length =
      (if v < 0 then [MINUS] else []).length + (digits v.natAbs).length := by
    rw [detail.numeral_eq, List.length_append]
    rfl
  rw [zeroPadded, List.length_append, List.length_append, List.length_replicate]
  omega

theorem length_timeText (tm : Tm) : 17 ≤ (timeText tm).length := by
  have hyear := length_spacePadded 4 (tm.tm_year + 1900)
  have hmonth := length_zeroPadded 2 (tm.tm_mon + 1)
  have hday := length_zeroPadded 2 tm.tm_mday
  have hhour := length_zeroPadded 2 tm.tm_hour
  have hminute := length_zeroPadded 2 tm.tm_min
  have hsecond := length_zeroPadded 2 tm.tm_sec
  simp only [timeText, List.length_append, List.length_singleton]
  omega

theorem ne_zero_of_mem_spacePadded {width : ℕ} {v : ℤ} {b : UInt8} (h : b ∈ spacePadded width v) :
    b ≠ 0 := by
  rcases List.mem_append.mp h with h | h
  · rw [List.eq_of_mem_replicate h]
    decide
  · rcases mem_numeral h with rfl | hdigit
    · decide
    · rintro rfl
      exact absurd hdigit (by decide)

/-- No second is formatted as the bytes that the buffer starts with. -/
theorem timeText_ne_zeros (tm : Tm) : (timeText tm).take 17 ≠ List.replicate 17 0 := by
  obtain ⟨c, rest, hyear⟩ : ∃ c rest, spacePadded 4 (tm.tm_year + 1900) = c :: rest := by
    apply List.exists_cons_of_length_pos
    have := length_spacePadded 4 (tm.tm_year + 1900)
    omega
  have hc : c ≠ 0 := ne_zero_of_mem_spacePadded (hyear ▸ List.mem_cons_self)
  intro h
  rw [timeText, hyear] at h
  exact hc (List.cons.inj h).1

/-! ## The cache -/

variable {gmtime_r : ℤ → Tm}

/-- What the buffer holds: the text of the last second in the zone it was formatted in, or the
bytes it started with. -/
structure Cached (gmtime_r : ℤ → Tm) (s : LogTime) : Prop where
  length_eq : s.t_time.length = 64
  empty : s.cachedZone = none → s.t_lastSecond = 0 ∧ slice s.t_time 0 17 = List.replicate 17 0
  holds : ∀ zone, s.cachedZone = some zone →
    timePrefix gmtime_r zone s.t_lastSecond = some (slice s.t_time 0 17)

theorem cached_init : Cached gmtime_r init where
  length_eq := rfl
  empty _ := ⟨rfl, rfl⟩
  holds _ h := by cases h

theorem slice_written (t_time : List UInt8) (tm : Tm) (h : t_time.length = 64) :
    (overwrite t_time 0 ((timeText tm).take 63 ++ [0])).length = 64 ∧
      slice (overwrite t_time 0 ((timeText tm).take 63 ++ [0])) 0 17 = (timeText tm).take 17 := by
  have hlen := length_timeText tm
  have hbytes : ((timeText tm).take 63 ++ [0]).length ≤ 64 := by
    rw [List.length_append, List.length_take, List.length_singleton]
    omega
  constructor
  · rw [length_overwrite (by omega), h]
  · rw [slice_zero_eq_take, overwrite, List.take_zero, List.nil_append, List.append_assoc,
      List.take_append_of_le_length (by rw [List.length_take]; omega), List.take_take]
    rfl

theorem Cached.refresh {s t : LogTime} {second : ℤ} (h : Cached gmtime_r s)
    (hs : refresh gmtime_r s second = some t) :
    Cached gmtime_r t ∧ t.t_lastSecond = second ∧ t.g_logTimeZone = s.g_logTimeZone ∧
      t.records = s.records ∧
      (timePrefix gmtime_r s.g_logTimeZone second = some (slice t.t_time 0 17) ↔
        second ≠ s.t_lastSecond ∨ SameText gmtime_r s second) := by
  by_cases hnew : second ≠ s.t_lastSecond
  · rw [LoggerTime.refresh, if_pos hnew] at hs
    obtain ⟨tm, htm, rfl⟩ := Option.map_eq_some_iff.mp hs
    obtain ⟨hlength, hslice⟩ := slice_written s.t_time tm h.length_eq
    have htext : timePrefix gmtime_r s.g_logTimeZone second =
        some (slice (overwrite s.t_time 0 ((timeText tm).take 63 ++ [0])) 0 17) := by
      rw [timePrefix, htm, hslice, Option.map_some]
    refine ⟨⟨hlength, nofun, ?_⟩, rfl, rfl, rfl, fun _ => .inl hnew, fun _ => htext⟩
    intro zone hzone
    cases hzone
    exact htext
  · rw [LoggerTime.refresh, if_neg hnew] at hs
    cases hs
    have heq : second = s.t_lastSecond := Decidable.not_not.mp hnew
    refine ⟨h, heq.symm, rfl, rfl, ?_⟩
    rw [or_iff_right hnew, SameText]
    cases hzone : s.cachedZone with
    | none =>
      rw [(h.empty hzone).2, timePrefix]
      constructor
      · intro htext
        obtain ⟨tm, -, htm⟩ := Option.map_eq_some_iff.mp htext
        exact absurd htm (timeText_ne_zeros tm)
      · exact False.elim
    | some zone =>
      have hholds := h.holds zone hzone
      rw [heq]
      simp only [hholds]
      exact eq_comm

/-- The first piece of `formatTime` makes up the first 17 bytes of the record that its `Logger`
passes to `g_output`. -/
theorem Cached.record_starts {s t : LogTime} {micros : ℤ} {time us : List UInt8}
    (h : Cached gmtime_r s) (hs : formatTime gmtime_r s micros = some (t, time, us)) {D : Type*}
    {g12 : D → List UInt8} (hg : ∀ v, ((g12 v).length : ℤ) < LogStream.kMaxNumericSize)
    {data : List UInt8} (hdata : data.length = detail.kSmallBuffer) (tidString : List UInt8)
    (strerror_tl : Logger.CInt → List UInt8) (ctor : Logger.Constructor) (file : Logger.SourceFile)
    (line : Logger.CInt) (ops : List (LogStream.Operand D)) :
    ∃ out, Logger.output g12 data ⟨time, us, tidString, strerror_tl⟩ ctor file line ops = some out ∧
      out.take 17 = time := by
  obtain ⟨_, hu, heq⟩ := Option.map_eq_some_iff.mp hs
  cases heq
  have hlength : (slice t.t_time 0 17).length = 17 := by
    apply length_slice
    rw [(h.refresh hu).1.length_eq]
    decide
  obtain ⟨out, hout, htake⟩ := Logger.output_starts_with_time g12 hg hdata
    ⟨slice t.t_time 0 17, _, tidString, strerror_tl⟩ (by rw [hlength]; decide) ctor file line ops
  rw [hlength] at htake
  exact ⟨out, hout, htake⟩

/-- All records so far agree with formatting without a cache. -/
def AllAgree (gmtime_r : ℤ → Tm) (s : LogTime) : Prop := ∀ r ∈ s.records, r.Agrees gmtime_r

theorem step_log {s t : LogTime} {micros : ℤ} (hs : step gmtime_r s (.log micros) = some t) :
    ∃ u, refresh gmtime_r s (micros.tdiv kMicroSecondsPerSecond) = some u ∧
      t = { u with records := u.records ++ [⟨micros.tdiv kMicroSecondsPerSecond, u.g_logTimeZone,
        slice u.t_time 0 17⟩] } := by
  obtain ⟨⟨u, time, us⟩, hformat, rfl⟩ := Option.map_eq_some_iff.mp hs
  obtain ⟨u', hu, heq⟩ := Option.map_eq_some_iff.mp hformat
  cases heq
  exact ⟨_, hu, rfl⟩

theorem cached_step (s : LogTime) (e : Event) (t : LogTime) (h : Cached gmtime_r s)
    (hs : step gmtime_r s e = some t) : Cached gmtime_r t := by
  cases e with
  | log micros =>
    obtain ⟨u, hu, rfl⟩ := step_log hs
    have hcached := (h.refresh hu).1
    exact ⟨hcached.length_eq, hcached.empty, hcached.holds⟩
  | setTimeZone tz =>
    cases hs
    exact ⟨h.length_eq, h.empty, h.holds⟩

/-- One call: its record agrees exactly where the cache fits. -/
theorem allAgree_step (s : LogTime) (e : Event) (t : LogTime) (h : Cached gmtime_r s)
    (hall : AllAgree gmtime_r s) (hs : step gmtime_r s e = some t) :
    AllAgree gmtime_r t ↔ CacheFits gmtime_r s e := by
  cases e with
  | log micros =>
    obtain ⟨u, hu, rfl⟩ := step_log hs
    obtain ⟨-, -, hzone, hrecords, hiff⟩ := h.refresh hu
    rw [CacheFits, ← hiff]
    constructor
    · intro hagree
      have hlast := hagree _ (List.mem_append_right _ (List.mem_singleton_self _))
      rw [Record.Agrees, hzone] at hlast
      exact hlast
    · intro htext r hr
      rcases List.mem_append.mp hr with hr | hr
      · exact hall r (hrecords ▸ hr)
      · rw [List.mem_singleton.mp hr, Record.Agrees, hzone]
        exact htext
  | setTimeZone tz =>
    cases hs
    exact ⟨fun _ => trivial, fun _ => hall⟩

theorem allAgree_of_step (s : LogTime) (e : Event) (t : LogTime) (hs : step gmtime_r s e = some t)
    (hall : AllAgree gmtime_r t) : AllAgree gmtime_r s := by
  cases e with
  | log micros =>
    obtain ⟨u, hu, rfl⟩ := step_log hs
    have hrecords : u.records = s.records := by
      rw [refresh] at hu
      split at hu
      · obtain ⟨tm, -, rfl⟩ := Option.map_eq_some_iff.mp hu
        rfl
      · cases hu
        rfl
    intro r hr
    exact hall r (List.mem_append_left _ (hrecords ▸ hr))
  | setTimeZone tz =>
    cases hs
    exact hall

/-- Over every sequence of log calls and changes of the zone: the first 17 characters of all
records are those of their own second in the zone in force exactly if no call in the second
of the cache finds it filled in a zone that formats this second differently, or not filled
at all. -/
theorem cached_time_agrees_iff {events : List Event} {s : LogTime}
    (hr : run (step gmtime_r) init events = some s) :
    (∀ r ∈ s.records, r.Agrees gmtime_r) ↔
      Meets (step gmtime_r) (CacheFits gmtime_r) init events := by
  have hempty : AllAgree gmtime_r init := by
    intro r hr
    cases hr
  have hdom : Meets (step gmtime_r) (fun _ _ => True) init events :=
    Meets.of_forall (fun _ _ => trivial) init events
  have hiff : Throughout (step gmtime_r) (AllAgree gmtime_r) init events ↔
      Meets (step gmtime_r) (CacheFits gmtime_r) init events :=
    throughout_iff_meets (fun s e t h _ _ hs => cached_step s e t h hs)
      (fun s e t h hall _ hs => allAgree_step s e t h hall hs) cached_init hempty hdom hr
  rw [← hiff]
  exact ⟨fun h => Throughout.of_last allAgree_of_step hr h, fun h => h.last hr⟩

open DaylightZone

/-- Three records, the second one in the second of the first, and a change of the zone
before the third. -/
theorem cached_time_agrees_iff_three :
    ∃ s, run (step gmtimeByCycles) init [.log 1700000000000000, .log 1700000000999999,
        .setTimeZone (.fixed 28800 "CST"), .log 1700000001000000] = some s ∧
      ∀ r ∈ s.records, r.Agrees gmtimeByCycles := by
  obtain ⟨s, hs⟩ := Option.isSome_iff_exists.mp (show (run (step gmtimeByCycles) init
    [.log 1700000000000000, .log 1700000000999999, .setTimeZone (.fixed 28800 "CST"),
      .log 1700000001000000]).isSome by decide +kernel)
  exact ⟨s, hs, (cached_time_agrees_iff hs).mpr (by decide +kernel)⟩

/-- The zone is set to eight hours east between two records of one second: the second record
still has the time in UTC. -/
theorem cached_time_stale :
    ∃ s, run (step gmtimeByCycles) init [.log 1700000000000000,
        .setTimeZone (.fixed 28800 "CST"), .log 1700000000000001] = some s ∧
      ∃ r ∈ s.records, r.second = 1700000000 ∧ ¬ r.Agrees gmtimeByCycles := by
  obtain ⟨s, hs, hstale⟩ := Option.map_eq_some_iff.mp (show (run (step gmtimeByCycles) init
    [.log 1700000000000000, .setTimeZone (.fixed 28800 "CST"), .log 1700000000000001]).map
      (fun s => decide (∃ r ∈ s.records, r.second = 1700000000 ∧ ¬ r.Agrees gmtimeByCycles)) =
        some true by decide +kernel)
  exact ⟨s, hs, of_decide_eq_true hstale⟩

end LoggerTime

end ReactorNet
