import ReactorNet.LogFileRuns

/-!
# The names of log files

The time in a file name has fields of a fixed width after the year, so that the name tells the
second. Files of one log therefore never share a name.
-/
namespace ReactorNet

open FileUtil LoggerTime DecimalNumerals GuardedRuns CivilDate TimeZone DaylightZone

namespace DecimalNumerals

theorem numeral_injective : Function.Injective numeral := by
  intro a b h
  have hvalue := congrArg intValue h
  simpa using hvalue

/-- Leading zeros do not change the value. -/
theorem natValue_padded (k n : ℕ) :
    natValue (List.replicate k (byte '0') ++ digits n) = some n := by
  have hdigits := natValue_digits n
  rw [natValue] at hdigits ⊢
  split at hdigits
  case isFalse => cases hdigits
  case isTrue h =>
    have hzero : isDigit (byte '0') = true := by decide
    have hchar : Char.ofNat (byte '0').toNat = '0' := by decide
    have hall : (List.replicate k (byte '0') ++ digits n).all isDigit = true := by
      rw [List.all_append, h.2, List.all_replicate, hzero]
      simp
    have hne : List.replicate k (byte '0') ++ digits n ≠ [] :=
      List.append_ne_nil_of_right_ne_nil _ h.1
    rw [if_pos ⟨hne, hall⟩, ← hdigits, List.map_append, List.map_replicate, hchar,
      Nat.ofDigitChars_append, Nat.ofDigitChars_replicate_zero]
    simp

end DecimalNumerals

namespace LoggerTime

theorem zeroPadded_natCast (width n : ℕ) :
    zeroPadded width (n : ℤ) =
      List.replicate (width - (digits n).length) (byte '0') ++ digits n := by
  rw [zeroPadded, if_neg (by omega), numeral_natCast, Int.natAbs_natCast]
  rfl

/-- Two digits hold a number below 100. -/
theorem length_twoDigits {v : ℤ} (h : 0 ≤ v) (h' : v < 100) : (zeroPadded 2 v).length = 2 := by
  obtain ⟨n, rfl⟩ := Int.eq_ofNat_of_zero_le h
  have hle : (digits n).length ≤ 2 := (length_digits_le_iff (by decide)).mpr (by omega)
  rw [zeroPadded_natCast, List.length_append, List.length_replicate]
  omega

theorem zeroPadded_inj {width : ℕ} {v w : ℤ} (hv : 0 ≤ v) (hw : 0 ≤ w)
    (h : zeroPadded width v = zeroPadded width w) : v = w := by
  obtain ⟨m, rfl⟩ := Int.eq_ofNat_of_zero_le hv
  obtain ⟨n, rfl⟩ := Int.eq_ofNat_of_zero_le hw
  have hvalue := congrArg natValue h
  rw [zeroPadded_natCast, zeroPadded_natCast, natValue_padded, natValue_padded] at hvalue
  exact congrArg Int.ofNat (Option.some.inj hvalue)

end LoggerTime

/-- The six fields of the date and the time. -/
def Tm.dateTime (tm : Tm) : ℤ × ℤ × ℤ × ℤ × ℤ × ℤ :=
  (tm.tm_year, tm.tm_mon, tm.tm_mday, tm.tm_hour, tm.tm_min, tm.tm_sec)

namespace LogFile

/-- Everything in the time after the year. -/
def afterYear (tm : Tm) : List UInt8 :=
  zeroPadded 2 (tm.tm_mon + 1) ++ zeroPadded 2 tm.tm_mday ++ [byte '-'] ++
    zeroPadded 2 tm.tm_hour ++
    zeroPadded 2 tm.tm_min ++ zeroPadded 2 tm.tm_sec

/-- The fields after the year are two digits each. -/
structure TwoDigits (tm : Tm) : Prop where
  mon : 0 ≤ tm.tm_mon + 1 ∧ tm.tm_mon + 1 < 100
  mday : 0 ≤ tm.tm_mday ∧ tm.tm_mday < 100
  hour : 0 ≤ tm.tm_hour ∧ tm.tm_hour < 100
  min : 0 ≤ tm.tm_min ∧ tm.tm_min < 100
  sec : 0 ≤ tm.tm_sec ∧ tm.tm_sec < 100

theorem twoDigits_of_wellFormed {tm : Tm} (h : tm.WellFormed) : TwoDigits tm := by
  have hmon := h.mon
  have hday : tm.tm_mday ≤ 31 := h.date.day_le_31
  have hmday := h.mday
  have hhour := h.hour
  have hmin := h.min
  have hsec := h.sec
  constructor <;> omega

theorem TwoDigits.length_afterYear {tm : Tm} (h : TwoDigits tm) : (afterYear tm).length = 11 := by
  simp only [afterYear, List.length_append, List.length_singleton,
    length_twoDigits h.mon.1 h.mon.2, length_twoDigits h.mday.1 h.mday.2,
    length_twoDigits h.hour.1 h.hour.2, length_twoDigits h.min.1 h.min.2,
    length_twoDigits h.sec.1 h.sec.2]

/-- The text of a time tells its fields. -/
theorem timebuf_inj {a b : Tm} (ha : TwoDigits a) (hb : TwoDigits b)
    (h : timebuf a = timebuf b) : a.dateTime = b.dateTime := by
  have hinner : numeral (a.tm_year + 1900) ++ afterYear a =
      numeral (b.tm_year + 1900) ++ afterYear b :=
    List.append_cancel_left (List.append_cancel_right h)
  obtain ⟨hyear, hrest⟩ :=
    List.append_inj' hinner (ha.length_afterYear.trans hb.length_afterYear.symm)
  have hwidth {v w : ℤ} (hv : 0 ≤ v ∧ v < 100) (hw : 0 ≤ w ∧ w < 100) :
      (zeroPadded 2 v).length = (zeroPadded 2 w).length :=
    (length_twoDigits hv.1 hv.2).trans (length_twoDigits hw.1 hw.2).symm
  rw [afterYear, afterYear] at hrest
  obtain ⟨hrest, hsec⟩ := List.append_inj' hrest (hwidth ha.sec hb.sec)
  obtain ⟨hrest, hmin⟩ := List.append_inj' hrest (hwidth ha.min hb.min)
  obtain ⟨hrest, hhour⟩ := List.append_inj' hrest (hwidth ha.hour hb.hour)
  obtain ⟨hmon, hmday⟩ := List.append_inj' (List.append_cancel_right hrest) (hwidth ha.mday hb.mday)
  have hyear' := numeral_injective hyear
  have hmon' := zeroPadded_inj ha.mon.1 hb.mon.1 hmon
  have hmday' := zeroPadded_inj ha.mday.1 hb.mday.1 hmday
  have hhour' := zeroPadded_inj ha.hour.1 hb.hour.1 hhour
  have hmin' := zeroPadded_inj ha.min.1 hb.min.1 hmin
  have hsec' := zeroPadded_inj ha.sec.1 hb.sec.1 hsec
  have hyear'' : a.tm_year = b.tm_year := by omega
  have hmon'' : a.tm_mon = b.tm_mon := by omega
  rw [Tm.dateTime, Tm.dateTime, hyear'', hmon'', hmday', hhour', hmin', hsec']

end LogFile

/-- The assumption on the C library: `gmtime_r` gives the fields of the day of the calendar and
of the time in that day. -/
def UtcFields (gmtime_r : ℤ → Tm) : Prop :=
  ∀ seconds, ∃ h : (gmtime_r seconds).WellFormed,
    (h.date.julianDay - 2440588) * 86400 + (gmtime_r seconds).secondsInDay = seconds

/-- Different seconds differ in their fields. -/
theorem UtcFields.injective {gmtime_r : ℤ → Tm} (h : UtcFields gmtime_r) {a b : ℤ}
    (heq : (gmtime_r a).dateTime = (gmtime_r b).dateTime) : a = b := by
  obtain ⟨ha, hsa⟩ := h a
  obtain ⟨hb, hsb⟩ := h b
  simp only [Tm.dateTime, Prod.mk.injEq] at heq
  obtain ⟨hyear, hmon, hmday, hhour, hmin, hsec⟩ := heq
  have hdate : ha.date = hb.date := by
    apply CivilDate.ext
    · exact congrArg (· + 1900) hyear
    · exact congrArg (· + 1) hmon
    · exact hmday
  rw [← hsa, ← hsb, hdate, Tm.secondsInDay, Tm.secondsInDay, hhour, hmin, hsec]

/-! ## The calendar repeats itself after 400 years -/

theorem leapYear_add_cycles (year n : ℤ) : LeapYear (year + 400 * n) ↔ LeapYear year := by
  rw [LeapYear, LeapYear]
  omega

theorem monthLength_add_cycles (year n month : ℤ) :
    monthLength (year + 400 * n) month = monthLength year month := by
  rw [monthLength, monthLength, if_congr (leapYear_add_cycles year n) rfl rfl]

theorem daysOfMonths_add_cycles (year n : ℤ) (k : ℕ) :
    daysOfMonths (year + 400 * n) k = daysOfMonths year k := by
  induction k with
  | zero => rfl
  | succ k ih => rw [daysOfMonths, daysOfMonths, ih, monthLength_add_cycles]

theorem julianDay_add_cycles {a b : CivilDate} (n : ℤ) (hyear : b.year = a.year + 400 * n)
    (hmonth : b.month = a.month) (hday : b.day = a.day) :
    b.julianDay = a.julianDay + 146097 * n := by
  simp only [julianDay, dayNumber, dayOfYear, hyear, hmonth, hday, daysOfMonths_add_cycles,
    daysBeforeYear]
  omega

theorem utcFields_byCycles : UtcFields gmtimeByCycles := by
  intro seconds
  have hlow : 0 ≤ seconds % cycle := Int.emod_nonneg _ (by decide)
  have hhigh : seconds % cycle < 146097 * 86400 := Int.emod_lt_of_pos _ (by decide)
  have hsplit : seconds % cycle + seconds / cycle * (146097 * 86400) = seconds :=
    Int.emod_add_ediv_mul seconds cycle
  obtain ⟨date, hnumber, -⟩ := exists_date
    (show -32044 ≤ seconds % cycle / 86400 + 2440588 by omega)
    (show seconds % cycle / 86400 + 2440588 ≤ 536838867 by omega)
  have hdate : date.Convertible := ⟨by omega, by omega⟩
  obtain ⟨tm, htm, hyear, hmon, hmday, hhour, hmin, hsec, -⟩ := toUtcTime_eq hdate
    (show 0 ≤ seconds % cycle % 86400 by omega) (show seconds % cycle % 86400 < 86400 by omega) true
  have ht : (date.julianDay - 2440588) * 86400 + seconds % cycle % 86400 = seconds % cycle := by
    omega
  rw [ht] at htm
  have hfields : gmtimeByCycles seconds =
      { tm with tm_year := tm.tm_year + 400 * (seconds / cycle) } := by
    rw [gmtimeByCycles, htm]
    rfl
  have hyear' : tm.tm_year + 400 * (seconds / cycle) + 1900 =
      date.year + 400 * (seconds / cycle) := by
    omega
  have hmon' : tm.tm_mon + 1 = date.month := by omega
  have hwf : (gmtimeByCycles seconds).WellFormed := by
    have hone := date.one_le_month
    have htwelve := date.month_le
    have hday := date.day_le
    have hday' := date.one_le_day
    rw [hfields]
    refine ⟨?_, ?_, ?_, ?_, ?_⟩
    · change 0 ≤ tm.tm_sec ∧ tm.tm_sec < 60
      omega
    · change 0 ≤ tm.tm_min ∧ tm.tm_min < 60
      omega
    · change 0 ≤ tm.tm_hour ∧ tm.tm_hour < 24
      omega
    · change 0 ≤ tm.tm_mon ∧ tm.tm_mon < 12
      omega
    · change 1 ≤ tm.tm_mday ∧
        tm.tm_mday ≤ monthLength (tm.tm_year + 400 * (seconds / cycle) + 1900) (tm.tm_mon + 1)
      rw [hyear', hmon', monthLength_add_cycles, hmday]
      exact ⟨hday', hday⟩
  have hjulian : hwf.date.julianDay = date.julianDay + 146097 * (seconds / cycle) := by
    apply julianDay_add_cycles
    · change (gmtimeByCycles seconds).tm_year + 1900 = _
      rw [hfields, ← hyear']
    · change (gmtimeByCycles seconds).tm_mon + 1 = _
      rw [hfields, ← hmon']
    · change (gmtimeByCycles seconds).tm_mday = _
      rw [hfields, ← hmday]
  refine ⟨hwf, ?_⟩
  rw [hjulian, hfields]
  simp only [Tm.secondsInDay, hhour, hmin, hsec]
  omega

/-! ## The files of a run -/

namespace LogFile

variable {p : LogRuntime} {f : LogFile}

theorem getLogFileName_inj (hp : UtcFields p.gmtime_r) {basename : List UInt8} {a b : ℤ}
    (h : getLogFileName p basename a = getLogFileName p basename b) : a = b := by
  obtain ⟨ha, -⟩ := hp a
  obtain ⟨hb, -⟩ := hp b
  have htime : timebuf (p.gmtime_r a) = timebuf (p.gmtime_r b) :=
    List.append_cancel_left (List.append_cancel_right (List.append_cancel_right
      (List.append_cancel_right h)))
  exact hp.injective
    (timebuf_inj (twoDigits_of_wellFormed ha) (twoDigits_of_wellFormed hb) htime)

theorem OpenedAt.nodup_filenames (hp : UtcFields p.gmtime_r) {seconds : List ℤ}
    (h : OpenedAt p f seconds) : (f.files.map (fun file => file.filename)).Nodup := by
  have hnames : f.files.map (fun file => file.filename) =
      seconds.map fun now => getLogFileName p f.basename_ now := by
    have hopenings := congrArg (List.map Prod.snd) h.openings
    rw [LogFile.openings, List.map_map, List.map_map] at hopenings
    exact hopenings
  rw [hnames]
  apply (List.pairwise_cons.mp h.increasing).2.map
  intro a b hab hname
  exact absurd (getLogFileName_inj hp hname) (ne_of_lt hab)

/-- In any run the files hold the lines in the order of the calls, each line whole in one file
as far as it was written; the files were opened one after the other in different seconds, and
no two of them have the same name. -/
theorem files_hold_lines (hp : UtcFields p.gmtime_r) {basename : List UInt8}
    {rollSize flushInterval checkEveryN : ℤ} {o : Opening} {calls : List LogFileCall}
    {f₀ : LogFile} (hcreate : create p basename rollSize flushInterval checkEveryN o = some f₀)
    (hrun : run (step p) f₀ calls = some f) :
    f.files.flatMap OpenFile.records = calls.flatMap LogFileCall.record ∧
      (∀ file ∈ f.files, file.content = file.records.flatMap FileRecord.written ∧
        ∀ r ∈ file.records, r.written <+: r.logline) ∧
      (f.files.map OpenFile.second).Pairwise (· < ·) ∧
      (∀ file ∈ f.files, file.filename = getLogFileName p basename file.second) ∧
      (f.files.map (fun file => file.filename)).Nodup := by
  obtain ⟨seconds, h, hrecords, hconfig⟩ := openedAt_create hcreate
  obtain ⟨seconds', h', hrecords', hconfig'⟩ := h.run hrun
  have hbase : f.basename_ = basename := congrArg Prod.fst (hconfig'.trans hconfig)
  have hall : f.records = calls.flatMap LogFileCall.record := by
    rw [hrecords', hrecords, List.nil_append]
  refine ⟨hall, ?_, ?_, ?_, h'.nodup_filenames hp⟩
  · intro file hfile
    refine ⟨file.content_eq, ?_⟩
    intro r hr
    have hmem : r ∈ calls.flatMap LogFileCall.record := by
      rw [← hall]
      exact List.mem_flatMap.mpr ⟨file, hfile, hr⟩
    obtain ⟨call, -, hr⟩ := List.mem_flatMap.mp hmem
    cases call with
    | append logline answers =>
      rw [List.mem_singleton.mp hr]
      exact prefix_writeLine logline answers.counts
    | flush => cases hr
    | rollFile opening => cases hr
  · rw [h'.seconds_eq]
    exact (List.pairwise_cons.mp h'.increasing).2
  · intro file hfile
    have hmem : (file.second, file.filename) ∈ f.openings := List.mem_map.mpr ⟨file, hfile, rfl⟩
    rw [h'.openings, hbase] at hmem
    obtain ⟨now, -, hnow⟩ := List.mem_map.mp hmem
    obtain ⟨rfl, hname⟩ := Prod.mk.inj hnow
    exact hname.symm

/-- A host for the example below. -/
def sampleHost : LogRuntime :=
  { sampleRuntime with hostname := "host".toList.map byte, gmtime_r := gmtimeByCycles }

/-- The first line fills its file; the second one goes into a file of the next second. -/
theorem files_hold_lines_two : ∃ f₀ f,
    create sampleHost [97] 3 3 1024 ⟨1, true⟩ = some f₀ ∧
      run (step sampleHost) f₀ [.append [1, 2, 3, 4] ⟨[1, 3], 1, ⟨2, true⟩⟩,
        .append [5] ⟨[1], 2, ⟨2, true⟩⟩] = some f ∧
      f.files.map OpenFile.records = [[⟨[1, 2, 3, 4], [1, 2, 3, 4]⟩], [⟨[5], [5]⟩]] ∧
      (f.files.map (fun file => file.filename)).Nodup := by
  obtain ⟨f₀, hcreate⟩ : ∃ f₀, create sampleHost [97] 3 3 1024 ⟨1, true⟩ = some f₀ := ⟨_, rfl⟩
  obtain ⟨f, hrun, hrecords⟩ : ∃ f, run (step sampleHost) f₀
      [.append [1, 2, 3, 4] ⟨[1, 3], 1, ⟨2, true⟩⟩, .append [5] ⟨[1], 2, ⟨2, true⟩⟩] = some f ∧
      f.files.map OpenFile.records = [[⟨[1, 2, 3, 4], [1, 2, 3, 4]⟩], [⟨[5], [5]⟩]] := by
    cases hcreate
    exact ⟨_, rfl, rfl⟩
  obtain ⟨-, -, -, -, hnodup⟩ := files_hold_lines utcFields_byCycles hcreate hrun
  exact ⟨f₀, f, hcreate, hrun, hrecords, hnodup⟩

end LogFile

end ReactorNet
