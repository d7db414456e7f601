import ReactorNet.LocalTime

/-!
# Local time and back

A zone that alternates between standard time and one daylight time. The local time tells
the entry in force, except in the interval that is repeated when daylight time ends; there
the correction is by 3600 seconds, whatever the saving is.
-/
namespace ReactorNet

open TimeZone CivilDate

/-- The changes come in turn, the first one to daylight time. -/
structure DaylightZone where
  offset : ℤ
  saving : ℤ
  standardIdx : ℕ
  daylightIdx : ℕ
  abbreviation : String
  changes : List ℤ
  saving_pos : 0 < saving
  apart : changes.Pairwise fun a b => a + 2 * saving < b

namespace DaylightZone

variable (z : DaylightZone)

def localtime : Bool → Localtime
  | false => ⟨z.offset, false, z.standardIdx⟩
  | true => ⟨z.offset + z.saving, true, z.daylightIdx⟩

def transitionTo (dst : Bool) (change : ℤ) : Transition :=
  ⟨change, change + (z.localtime dst).gmtOffset, dst.toNat⟩

def transitionsFrom (dst : Bool) : List ℤ → List Transition
  | [] => []
  | change :: changes => z.transitionTo dst change :: transitionsFrom (!dst) changes

/-- The zone as its file gives it. -/
def data : Data where
  transitions := z.transitionsFrom true z.changes
  localtimes := [z.localtime false, z.localtime true]
  abbreviation := z.abbreviation

/-- Whether daylight time is on after the changes up to `k`. -/
def daylight (comp : Comp) (k : ℤ) : Bool → List ℤ → Bool
  | dst, [] => dst
  | dst, change :: changes =>
    if comp.key (z.transitionTo (!dst) change) ≤ k then daylight comp k (!dst) changes else dst

/-- Daylight time by UTC. -/
def byUtc (t : ℤ) (dst : Bool) (changes : List ℤ) : Bool := z.daylight ⟨true⟩ t dst changes

/-- Daylight time by the local time that `t` has when `e` is on. -/
def byLocal (t : ℤ) (e dst : Bool) (changes : List ℤ) : Bool :=
  z.daylight ⟨false⟩ (t + (z.localtime e).gmtOffset) dst changes

/-- The last `saving` seconds of some daylight time. -/
def repeatedIn (t : ℤ) (transitions : List Transition) : Prop :=
  ∃ transition ∈ transitions, transition.localtimeIdx = 0 ∧ t < transition.gmttime ∧
    transition.gmttime ≤ t + z.saving

def Repeated (t : ℤ) : Prop := z.repeatedIn t z.data.transitions

instance (t : ℤ) : Decidable (z.Repeated t) := inferInstanceAs (Decidable (∃ _ ∈ _, _))

/-! ## The search -/

variable {z}

theorem key_transitionTo (comp : Comp) (dst : Bool) (change : ℤ) :
    comp.key (z.transitionTo dst change) =
      if comp.compareGmt then change else change + (z.localtime dst).gmtOffset := rfl

theorem gmtOffset_le (a b : Bool) :
    (z.localtime a).gmtOffset ≤ (z.localtime b).gmtOffset + z.saving := by
  have hpos := z.saving_pos
  cases a <;> cases b <;> simp only [localtime] <;> omega

theorem mem_transitionsFrom {dst : Bool} {changes : List ℤ} {transition : Transition}
    (h : transition ∈ z.transitionsFrom dst changes) :
    ∃ b, ∃ change ∈ changes, transition = z.transitionTo b change := by
  induction changes generalizing dst with
  | nil => cases h
  | cons change changes ih =>
    rcases List.mem_cons.mp h with rfl | h
    · exact ⟨dst, change, List.mem_cons_self, rfl⟩
    · obtain ⟨b, c, hc, rfl⟩ := ih h
      exact ⟨b, c, List.mem_cons_of_mem _ hc, rfl⟩

/-- The transitions are sorted, by UTC and by local time. -/
theorem sorted_transitionsFrom (comp : Comp) {dst : Bool} {changes : List ℤ}
    (hapart : changes.Pairwise fun a b => a + 2 * z.saving < b) :
    (z.transitionsFrom dst changes).Pairwise fun a b => comp.key a < comp.key b := by
  induction changes generalizing dst with
  | nil => exact List.Pairwise.nil
  | cons change changes ih =>
    obtain ⟨hfirst, hrest⟩ := List.pairwise_cons.mp hapart
    refine List.pairwise_cons.mpr ⟨?_, ih hrest⟩
    intro transition htransition
    obtain ⟨b, c, hc, rfl⟩ := mem_transitionsFrom htransition
    have hpos := z.saving_pos
    have hlt := hfirst c hc
    have hle := z.gmtOffset_le dst b
    rw [key_transitionTo, key_transitionTo]
    split <;> omega

theorem inForce_transitionsFrom (comp : Comp) (k : ℤ) (dst : Bool) (changes : List ℤ) :
    (((z.transitionsFrom (!dst) changes).takeWhile fun t => comp.key t ≤ k).getLast?.map
      Transition.localtimeIdx).getD dst.toNat = (z.daylight comp k dst changes).toNat := by
  induction changes generalizing dst with
  | nil => rfl
  | cons change changes ih =>
    have hrest := ih (!dst)
    rw [daylight, transitionsFrom]
    by_cases hle : comp.key (z.transitionTo (!dst) change) ≤ k
    · rw [if_pos hle, List.takeWhile_cons_of_pos (by simpa using hle), List.getLast?_cons, ← hrest]
      cases ((z.transitionsFrom (!!dst) changes).takeWhile fun t => comp.key t ≤ k).getLast? <;> rfl
    · rw [if_neg hle, List.takeWhile_cons_of_neg (by simpa using hle)]
      rfl

/-- The search finds standard or daylight time. -/
theorem findLocaltime_data (comp : Comp) (sentry : Transition) :
    findLocaltime z.data sentry comp =
      some (z.localtime (z.daylight comp (comp.key sentry) false z.changes)) := by
  have hindex := z.inForce_transitionsFrom comp (comp.key sentry) false z.changes
  rw [findLocaltime_eq (sorted_transitionsFrom comp z.apart), Data.inForce]
  have hindex' : ((z.data.transitions.takeWhile fun t => comp.key t ≤ comp.key sentry).getLast?.map
      Transition.localtimeIdx).getD 0 =
        (z.daylight comp (comp.key sentry) false z.changes).toNat := hindex
  rw [hindex']
  cases z.daylight comp (comp.key sentry) false z.changes <;> rfl

/-! ## The two searches of a round trip -/

theorem daylight_of_lt {comp : Comp} {k : ℤ} {dst : Bool} {changes : List ℤ}
    (h : ∀ change ∈ changes, k < comp.key (z.transitionTo (!dst) change)) :
    z.daylight comp k dst changes = dst := by
  cases changes with
  | nil => rfl
  | cons change changes =>
    have hlt := h change List.mem_cons_self
    rw [daylight, if_neg (by omega)]

theorem exists_change {comp : Comp} {k : ℤ} {dst : Bool} {changes : List ℤ}
    (h : z.daylight comp k dst changes ≠ dst) :
    ∃ change ∈ changes, comp.key (z.transitionTo (!dst) change) ≤ k := by
  by_contra hnone
  apply h
  apply daylight_of_lt
  intro change hchange
  by_contra hle
  exact hnone ⟨change, hchange, by omega⟩

theorem repeatedIn_cons {t : ℤ} {dst : Bool} {change : ℤ} {changes : List ℤ} :
    z.repeatedIn t (z.transitionsFrom dst (change :: changes)) ↔
      dst = false ∧ t < change ∧ change ≤ t + z.saving ∨
        z.repeatedIn t (z.transitionsFrom (!dst) changes) := by
  simp only [repeatedIn, transitionsFrom, List.mem_cons, exists_eq_or_imp]
  cases dst <;> simp [transitionTo]

theorem not_repeatedIn_of_lt {t : ℤ} {dst : Bool} {changes : List ℤ}
    (h : ∀ change ∈ changes, t + z.saving < change) :
    ¬z.repeatedIn t (z.transitionsFrom dst changes) := by
  rintro ⟨transition, hmem, -, -, hle⟩
  obtain ⟨b, change, hchange, rfl⟩ := mem_transitionsFrom hmem
  have hlt := h change hchange
  have hle' : change ≤ t + z.saving := hle
  omega

theorem byUtc_cons_of_le {t change : ℤ} (h : change ≤ t) (dst : Bool) (changes : List ℤ) :
    z.byUtc t dst (change :: changes) = z.byUtc t (!dst) changes := by
  rw [byUtc, daylight, if_pos]
  · rfl
  · exact h

theorem byUtc_of_lt {t : ℤ} {dst : Bool} {changes : List ℤ} (h : ∀ change ∈ changes, t < change) :
    z.byUtc t dst changes = dst :=
  daylight_of_lt h

theorem byLocal_cons_of_le {t change : ℤ} {e dst : Bool}
    (h : change + (z.localtime (!dst)).gmtOffset ≤ t + (z.localtime e).gmtOffset)
    (changes : List ℤ) :
    z.byLocal t e dst (change :: changes) = z.byLocal t e (!dst) changes := by
  rw [byLocal, daylight, if_pos]
  · rfl
  · exact h

theorem byLocal_of_lt {t : ℤ} {e dst : Bool} {changes : List ℤ}
    (h : ∀ change ∈ changes,
      t + (z.localtime e).gmtOffset < change + (z.localtime (!dst)).gmtOffset) :
    z.byLocal t e dst changes = dst :=
  daylight_of_lt h

/-- Where standard time follows a change to daylight time, it does so more than twice the
saving later. -/
theorem shifted_le {t change : ℤ} (dst : Bool) {changes : List ℤ} (hle : change ≤ t)
    (hfirst : ∀ later ∈ changes, change + 2 * z.saving < later) :
    change + (z.localtime dst).gmtOffset ≤
      t + (z.localtime (z.byUtc t dst changes)).gmtOffset := by
  by_cases hsame : z.byUtc t dst changes = dst
  · rw [hsame]
    omega
  · obtain ⟨later, hlater, hle'⟩ := exists_change hsame
    have hlt := hfirst later hlater
    have hpos := z.saving_pos
    have hoffset := z.gmtOffset_le dst (z.byUtc t dst changes)
    have hlater_le : later ≤ t := hle'
    omega

/-- Standard time lasts until the next change, by local time too. -/
theorem byLocal_standard {t : ℤ} {changes : List ℤ} (h : ∀ change ∈ changes, t < change) :
    z.byLocal t false false changes = false := by
  apply byLocal_of_lt
  intro change hchange
  have hlt := h change hchange
  have hpos := z.saving_pos
  simp only [localtime, Bool.not_false]
  omega

/-- By local time, daylight time seems to last until `saving` seconds before its end. -/
theorem byLocal_daylight {t : ℤ} {changes : List ℤ}
    (h : ∀ change ∈ changes, t + z.saving < change) : z.byLocal t true true changes = true := by
  apply byLocal_of_lt
  intro change hchange
  have hlt := h change hchange
  simp only [localtime, Bool.not_true]
  omega

theorem byLocal_repeated {t change : ℤ} {changes : List ℤ} (hnear : change ≤ t + z.saving)
    (hlater : ∀ later ∈ changes, t + 2 * z.saving < later) :
    z.byLocal t true true (change :: changes) = false := by
  have hlocal : change + (z.localtime (!true)).gmtOffset ≤ t + (z.localtime true).gmtOffset := by
    simp only [localtime, Bool.not_true]
    omega
  rw [byLocal_cons_of_le hlocal]
  apply byLocal_of_lt
  intro later hmem
  have hlt := hlater later hmem
  have hpos := z.saving_pos
  simp only [localtime, Bool.not_true, Bool.not_false]
  omega

/-- Before the next change both searches find the current time, except when the change to
standard time is near: then the search by local time is past it, and only a trial value is
not. -/
theorem byLocal_before {t : ℤ} (dst : Bool) {change : ℤ} {changes : List ℤ} (hlt : t < change)
    (hfirst : ∀ later ∈ changes, change + 2 * z.saving < later) :
    (z.repeatedIn t (z.transitionsFrom (!dst) (change :: changes)) ∧
        z.byUtc t dst (change :: changes) = true ∧
        z.byLocal t true dst (change :: changes) = false ∧
        z.byUtc (t + z.saving) dst (change :: changes) = false) ∨
      ¬z.repeatedIn t (z.transitionsFrom (!dst) (change :: changes)) ∧
        z.byLocal t (z.byUtc t dst (change :: changes)) dst (change :: changes) =
          z.byUtc t dst (change :: changes) := by
  have hpos := z.saving_pos
  have hlater : ∀ later ∈ changes, t + 2 * z.saving < later := by
    intro later hmem
    have hlater := hfirst later hmem
    omega
  have hnorep (b : Bool) : ¬z.repeatedIn t (z.transitionsFrom b changes) := by
    apply not_repeatedIn_of_lt
    intro later hmem
    have hlater := hlater later hmem
    omega
  have hall : ∀ later ∈ change :: changes, t < later := by
    intro later hmem
    rcases List.mem_cons.mp hmem with rfl | hmem
    · exact hlt
    · have hlater := hlater later hmem
      omega
  rw [repeatedIn_cons, byUtc_of_lt hall]
  cases dst with
  | false =>
    refine Or.inr ⟨not_or.mpr ⟨?_, hnorep _⟩, byLocal_standard hall⟩
    rintro ⟨hfalse, -⟩
    cases hfalse
  | true =>
    by_cases hnear : change ≤ t + z.saving
    · refine Or.inl ⟨Or.inl ⟨rfl, hlt, hnear⟩, rfl, byLocal_repeated hnear hlater, ?_⟩
      rw [byUtc_cons_of_le hnear]
      apply byUtc_of_lt
      intro later hmem
      have hlater := hlater later hmem
      omega
    · refine Or.inr ⟨not_or.mpr ⟨fun h => hnear h.2.2, hnorep _⟩, ?_⟩
      apply byLocal_daylight
      intro later hmem
      rcases List.mem_cons.mp hmem with rfl | hmem
      · omega
      · have hlater := hlater later hmem
        omega

/-- The search by local time finds the same time as the search by UTC, except in a repeated
interval, where it finds standard time, which a trial value confirms. -/
theorem byLocal_cases (t : ℤ) (dst : Bool) {changes : List ℤ}
    (hapart : changes.Pairwise fun a b => a + 2 * z.saving < b) :
    (z.repeatedIn t (z.transitionsFrom (!dst) changes) ∧ z.byUtc t dst changes = true ∧
        z.byLocal t true dst changes = false ∧ z.byUtc (t + z.saving) dst changes = false) ∨
      ¬z.repeatedIn t (z.transitionsFrom (!dst) changes) ∧
        z.byLocal t (z.byUtc t dst changes) dst changes = z.byUtc t dst changes := by
  induction changes generalizing dst with
  | nil =>
    refine Or.inr ⟨?_, rfl⟩
    rintro ⟨transition, hmem, -⟩
    cases hmem
  | cons change changes ih =>
    obtain ⟨hfirst, hrest⟩ := List.pairwise_cons.mp hapart
    by_cases hle : change ≤ t
    · have hpos := z.saving_pos
      have hlocal := shifted_le (!dst) hle hfirst
      have hnot : ¬((!dst) = false ∧ t < change ∧ change ≤ t + z.saving) := by
        rintro ⟨-, hlt, -⟩
        omega
      rw [repeatedIn_cons, byUtc_cons_of_le hle,
        byUtc_cons_of_le (show change ≤ t + z.saving by omega)]
      rcases ih (!dst) hrest with ⟨hrep, hutc, hback, htry⟩ | ⟨hrep, hback⟩
      · refine Or.inl ⟨Or.inr hrep, hutc, ?_, htry⟩
        rw [hutc] at hlocal
        rw [byLocal_cons_of_le hlocal, hback]
      · refine Or.inr ⟨not_or.mpr ⟨hnot, hrep⟩, ?_⟩
        rw [byLocal_cons_of_le hlocal, hback]
    · exact byLocal_before dst (not_le.mp hle) hfirst

/-! ## The round trip -/

/-- The assumption on the C library: `timegm` is the inverse of `gmtime_r`, and does not look
at the other fields. -/
structure CalendarTime (gmtime_r : ℤ → Tm) (timegm : Tm → ℤ) : Prop where
  timegm_gmtime_r : ∀ seconds, timegm (gmtime_r seconds) = seconds
  timegm_congr : ∀ tm tm_isdst tm_gmtoff tm_zone,
    timegm { tm with tm_isdst := tm_isdst, tm_gmtoff := tm_gmtoff, tm_zone := tm_zone } = timegm tm

section RoundTrip

variable {gmtime_r : ℤ → Tm} {timegm : Tm → ℤ}

theorem toLocalTime_eq (t : ℤ) : toLocalTime gmtime_r z.data t =
    some { gmtime_r (t + (z.localtime (z.byUtc t false z.changes)).gmtOffset) with
      tm_isdst := if z.byUtc t false z.changes then 1 else 0
      tm_gmtoff := (z.localtime (z.byUtc t false z.changes)).gmtOffset
      tm_zone := zoneAt z.abbreviation (z.localtime (z.byUtc t false z.changes)).arrbIdx } := by
  have hdst (e : Bool) : (z.localtime e).isDst = e := by
    cases e <;> rfl
  have hfind : findLocaltime z.data ⟨t, 0, 0⟩ ⟨true⟩ =
      some (z.localtime (z.byUtc t false z.changes)) := findLocaltime_data ⟨true⟩ ⟨t, 0, 0⟩
  rw [toLocalTime, hfind, some_bind]
  simp only [hdst]
  rfl

/-- In a repeated interval the time comes back `saving - 3600` seconds off. -/
theorem fromLocalTime_toLocalTime (hlib : CalendarTime gmtime_r timegm) (z : DaylightZone) (t : ℤ) :
    (toLocalTime gmtime_r z.data t).bind (fromLocalTime gmtime_r timegm z.data) =
      some (if z.Repeated t then t + z.saving - 3600 else t) := by
  have hfind : findLocaltime z.data
      ⟨0, t + (z.localtime (z.byUtc t false z.changes)).gmtOffset, 0⟩ ⟨false⟩ =
        some (z.localtime (z.byLocal t (z.byUtc t false z.changes) false z.changes)) :=
    findLocaltime_data ⟨false⟩ _
  rw [toLocalTime_eq, Option.bind_some, fromLocalTime, hlib.timegm_congr, hlib.timegm_gmtime_r,
    hfind, some_bind]
  rcases byLocal_cases t false z.apart with ⟨hrep, hutc, hback, htry⟩ | ⟨hrep, hback⟩
  · have hrep' : z.Repeated t := hrep
    have htrial : t + (z.localtime true).gmtOffset - (z.localtime false).gmtOffset =
        t + z.saving := by
      simp only [localtime]
      omega
    have hsame : t + z.saving + (z.localtime false).gmtOffset = t + (z.localtime true).gmtOffset := by
      simp only [localtime]
      omega
    rw [hutc, hback, if_pos hrep', htrial, toLocalTime_eq, htry, hsame]
    simp [localtime]
    omega
  · have hrep' : ¬z.Repeated t := hrep
    have htrial (e : Bool) : t + (z.localtime e).gmtOffset - (z.localtime e).gmtOffset = t := by
      omega
    rw [hback, if_neg hrep', htrial, toLocalTime_eq]
    cases z.byUtc t false z.changes with
    | false => simp
    | true => simp

/-- A time comes back from its local time exactly if it is not in a repeated interval, or
the saving is one hour. -/
theorem local_round_trip_iff (hlib : CalendarTime gmtime_r timegm) (z : DaylightZone) (t : ℤ) :
    (toLocalTime gmtime_r z.data t).bind (fromLocalTime gmtime_r timegm z.data) = some t ↔
      (z.Repeated t → z.saving = 3600) := by
  rw [fromLocalTime_toLocalTime hlib, Option.some_inj]
  split
  · simp only [*, forall_const]
    omega
  · simp only [*, false_implies]

end RoundTrip

/-! ## The conversions of UTC as the C library's -/

/-- The seconds of 400 years. -/
def cycle : ℤ := 146097 * 86400

def gmtimeByCycles (seconds : ℤ) : Tm :=
  let tm := (toUtcTime (seconds % cycle) true).getD Tm.zero
  { tm with tm_year := tm.tm_year + 400 * (seconds / cycle) }

def timegmByCycles (tm : Tm) : ℤ :=
  (fromUtcTime { tm with tm_year := (tm.tm_year - 70) % 400 + 70 }).getD 0 +
    (tm.tm_year - 70) / 400 * cycle

/-- The years of the 400 years from 1970. -/
theorem year_of_cycle (date : CivilDate) (h : 2440588 ≤ date.julianDay)
    (h' : date.julianDay < 2440588 + 146097) : 1970 ≤ date.year ∧ date.year ≤ 2369 := by
  have hfirst : (january 1970).julianDay = 2440588 := by decide
  have hlast : (january 2370).julianDay = 2440588 + 146097 := by decide
  rw [← hfirst, julianDay_le_iff, le_iff_lt_or_eq, lt_iff] at h
  rw [← hlast, julianDay_lt_iff, lt_iff] at h'
  have hday := date.one_le_day
  have hmonth := date.one_le_month
  simp only [january] at h'
  rcases h with h | heq
  · simp only [january] at h
    omega
  · rw [← heq]
    decide

/-- In the 400 years from 1970 the conversions are inverse, and give those years. -/
theorem utc_of_cycle {t : ℤ} (h : 0 ≤ t) (h' : t < 146097 * 86400) :
    ∃ tm, toUtcTime t true = some tm ∧ fromUtcTime tm = some t ∧
      70 ≤ tm.tm_year ∧ tm.tm_year ≤ 469 := by
  have hlow : -32044 ≤ t / 86400 + 2440588 := by omega
  have hhigh : t / 86400 + 2440588 ≤ 536838867 := by omega
  obtain ⟨tm, htm, hback, -⟩ := fromUtcTime_toUtcTime hlow hhigh true
  obtain ⟨date, hnumber, -⟩ := exists_date hlow hhigh
  have hdate : date.Convertible := ⟨hnumber ▸ hlow, hnumber ▸ hhigh⟩
  obtain ⟨hfirst, hlast⟩ := year_of_cycle date (by omega) (by omega)
  have ht : (date.julianDay - 2440588) * 86400 + t % 86400 = t := by omega
  obtain ⟨tm', htm', hyear, -⟩ :=
    toUtcTime_eq hdate (show 0 ≤ t % 86400 by omega) (show t % 86400 < 86400 by omega) true
  rw [ht, htm] at htm'
  cases htm'
  exact ⟨tm, htm, hback, by omega, by omega⟩

theorem calendarTime_byCycles : CalendarTime gmtimeByCycles timegmByCycles := by
  constructor
  · intro seconds
    have hlow : 0 ≤ seconds % cycle := Int.emod_nonneg _ (by decide)
    have hhigh : seconds % cycle < cycle := Int.emod_lt_of_pos _ (by decide)
    obtain ⟨tm, htm, hback, hfirst, hlast⟩ := utc_of_cycle hlow hhigh
    have hmod : (tm.tm_year + 400 * (seconds / cycle) - 70) % 400 + 70 = tm.tm_year := by omega
    have hdiv : (tm.tm_year + 400 * (seconds / cycle) - 70) / 400 = seconds / cycle := by omega
    have hsplit : seconds % cycle + seconds / cycle * cycle = seconds :=
      Int.emod_add_ediv_mul seconds cycle
    rw [gmtimeByCycles, timegmByCycles, htm, Option.getD_some, hmod, hdiv, hback, Option.getD_some]
    exact hsplit
  · intro tm tm_isdst tm_gmtoff tm_zone
    rfl

/-- A summer with the given saving, ten and a half hours east. -/
def summer (saving : ℤ) (hpos : 0 < saving) (hle : saving ≤ 7200) : DaylightZone where
  offset := 37800
  saving := saving
  standardIdx := 0
  daylightIdx := 6
  abbreviation := "+1030\x00+11\x00"
  changes := [1633188600, 1648911600]
  saving_pos := hpos
  apart := by
    refine List.pairwise_pair.mpr ?_
    omega

/-- A quarter of an hour before the end of a summer with one hour of saving. -/
theorem local_round_trip_hour :
    (toLocalTime gmtimeByCycles (summer 3600 (by decide) (by decide)).data 1648910700).bind
      (fromLocalTime gmtimeByCycles timegmByCycles (summer 3600 (by decide) (by decide)).data) =
        some 1648910700 :=
  (local_round_trip_iff calendarTime_byCycles (summer 3600 (by decide) (by decide)) 1648910700).mpr
    fun _ => rfl

/-- The same time in a summer with half an hour of saving comes back half an hour early. -/
theorem local_half_hour_early :
    (toLocalTime gmtimeByCycles (summer 1800 (by decide) (by decide)).data 1648910700).bind
      (fromLocalTime gmtimeByCycles timegmByCycles (summer 1800 (by decide) (by decide)).data) =
        some (1648910700 - 1800) := by
  decide +kernel

end DaylightZone

end ReactorNet
