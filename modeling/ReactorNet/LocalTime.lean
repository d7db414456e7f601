import Mathlib.Data.List.TakeWhile
import ReactorNet.BinarySearch
import ReactorNet.UtcTime

/-!
# Local time of a time zone

`findLocaltime`, `toLocalTime` and `fromLocalTime` on the data of a time zone. `time_t` is
unbounded here, and `gmtime_r` and `timegm` are parameters.
-/
namespace ReactorNet

structure Transition where
  gmttime : ℤ
  localtime : ℤ
  localtimeIdx : ℕ
deriving DecidableEq

structure Localtime where
  gmtOffset : ℤ
  isDst : Bool
  arrbIdx : ℕ
deriving DecidableEq

/-- The comparison, by UTC or by local time. -/
structure Comp where
  compareGmt : Bool

namespace Comp

def less (comp : Comp) (lhs rhs : Transition) : Bool :=
  if comp.compareGmt then lhs.gmttime < rhs.gmttime else lhs.localtime < rhs.localtime

def equal (comp : Comp) (lhs rhs : Transition) : Bool :=
  if comp.compareGmt then lhs.gmttime = rhs.gmttime else lhs.localtime = rhs.localtime

/-- What is compared. -/
def key (comp : Comp) (transition : Transition) : ℤ :=
  if comp.compareGmt then transition.gmttime else transition.localtime

variable (comp : Comp) (a b : Transition)

@[simp] theorem less_iff : comp.less a b = true ↔ comp.key a < comp.key b := by
  rw [less, key, key]
  split <;> simp

@[simp] theorem equal_iff : comp.equal a b = true ↔ comp.key a = comp.key b := by
  rw [equal, key, key]
  split <;> simp

end Comp

namespace TimeZone

structure Data where
  transitions : List Transition
  localtimes : List Localtime
  abbreviation : String

/-- The position `lower_bound` finds. -/
def lowerBound (transitions : List Transition) (sentry : Transition) (comp : Comp) : ℕ :=
  BinarySearch.lowerBound (fun transition => comp.less transition sentry) transitions

def findLocaltime (data : Data) (sentry : Transition) (comp : Comp) : Option Localtime :=
  if data.transitions.head?.all fun front => comp.less sentry front then
    data.localtimes[0]?
  else
    let transI := lowerBound data.transitions sentry comp
    match data.transitions[transI]? with
    | some transition =>
      if comp.equal sentry transition then data.localtimes[transition.localtimeIdx]?
      else if transI = 0 then none
      else (data.transitions[transI - 1]?).bind fun before => data.localtimes[before.localtimeIdx]?
    | none => data.transitions.getLast?.bind fun back => data.localtimes[back.localtimeIdx]?

/-- The null-terminated string at an index. -/
def zoneAt (abbreviation : String) (arrbIdx : ℕ) : String :=
  String.ofList ((abbreviation.toList.drop arrbIdx).takeWhile fun c => c ≠ '\x00')

section Conversions

variable (gmtime_r : ℤ → Tm) (timegm : Tm → ℤ)

def toLocalTime (data : Data) (seconds : ℤ) : Option Tm := do
  let localtime ← findLocaltime data ⟨seconds, 0, 0⟩ ⟨true⟩
  let localSeconds := seconds + localtime.gmtOffset
  return { gmtime_r localSeconds with
    tm_isdst := if localtime.isDst then 1 else 0
    tm_gmtoff := localtime.gmtOffset
    tm_zone := zoneAt data.abbreviation localtime.arrbIdx }

def fromLocalTime (data : Data) (localTm : Tm) : Option ℤ := do
  let seconds := timegm localTm
  let localtime ← findLocaltime data ⟨0, seconds, 0⟩ ⟨false⟩
  let seconds ← if localTm.tm_isdst ≠ 0 then do
      let tryTm ← toLocalTime gmtime_r data (seconds - localtime.gmtOffset)
      pure (if tryTm.tm_isdst = 0 ∧ tryTm.tm_hour = localTm.tm_hour ∧ tryTm.tm_min = localTm.tm_min
        then seconds - 3600 else seconds)
    else pure seconds
  return seconds - localtime.gmtOffset

end Conversions

/-! ## The search -/

/-- The entry of the last transition up to a key, or the first entry. -/
def Data.inForce (data : Data) (comp : Comp) (k : ℤ) : Option Localtime :=
  data.localtimes[((data.transitions.takeWhile fun t => comp.key t ≤ k).getLast?.map
    Transition.localtimeIdx).getD 0]?

variable {data : Data} {sentry : Transition} {comp : Comp}

/-- A sorted list splits at the position of `lower_bound`. -/
theorem exists_split (hsorted : data.transitions.Pairwise fun a b => comp.key a < comp.key b)
    (sentry : Transition) : ∃ before after, data.transitions = before ++ after ∧
      lowerBound data.transitions sentry comp = before.length ∧
      (∀ t ∈ before, comp.key t < comp.key sentry) ∧
      after.Pairwise (fun a b => comp.key a < comp.key b) ∧
      ∀ t ∈ after.head?, comp.key sentry ≤ comp.key t := by
  have hfront : data.transitions.Pairwise fun a b =>
      comp.less b sentry = true → comp.less a sentry = true := by
    refine hsorted.imp fun hlt hless => ?_
    rw [comp.less_iff] at hless ⊢
    exact hlt.trans hless
  refine ⟨_, _, List.takeWhile_append_dropWhile.symm, BinarySearch.lowerBound_eq hfront, ?_, ?_, ?_⟩
  · intro t ht
    have hless : comp.less t sentry = true :=
      List.mem_takeWhile_imp (p := fun t => comp.less t sentry) ht
    exact (comp.less_iff t sentry).mp hless
  · exact hsorted.sublist (List.dropWhile_sublist _)
  · intro t ht
    have hnot := List.head?_dropWhile_not (fun t => comp.less t sentry) data.transitions
    rw [Option.mem_def.mp ht] at hnot
    have hless : ¬comp.less t sentry = true := Bool.not_eq_true _ ▸ hnot
    rw [comp.less_iff] at hless
    omega

theorem less_front_iff {before after : List Transition} (hsplit : data.transitions = before ++ after)
    (hbefore : ∀ t ∈ before, comp.key t < comp.key sentry) :
    data.transitions.head?.all (fun front => comp.less sentry front) = true ↔
      before = [] ∧ ∀ t ∈ after.head?, comp.key sentry < comp.key t := by
  rw [hsplit]
  cases before with
  | nil => cases after <;> simp
  | cons t before =>
    have ht := hbefore t List.mem_cons_self
    simp [ht.le]

/-- A transition with the same key is the last one up to the key. -/
theorem takeWhile_of_eq {first : Transition} {after : List Transition}
    (hafter : (first :: after).Pairwise fun a b => comp.key a < comp.key b)
    (heq : comp.key sentry = comp.key first) :
    (first :: after).takeWhile (fun t => comp.key t ≤ comp.key sentry) = [first] := by
  rw [List.takeWhile_cons_of_pos (by simpa using heq.ge)]
  cases after with
  | nil => rfl
  | cons t after =>
    have ht := (List.pairwise_cons.mp hafter).1 t List.mem_cons_self
    rw [List.takeWhile_cons_of_neg]
    simpa [heq] using ht

/-- On sorted transitions the search finds the entry in force. -/
theorem findLocaltime_eq (hsorted : data.transitions.Pairwise fun a b => comp.key a < comp.key b)
    (sentry : Transition) :
    findLocaltime data sentry comp = data.inForce comp (comp.key sentry) := by
  obtain ⟨before, after, hsplit, hbound, hbefore, hafter, hfirst⟩ := exists_split hsorted sentry
  have htake : data.transitions.takeWhile (fun t => comp.key t ≤ comp.key sentry) =
      before ++ after.takeWhile fun t => comp.key t ≤ comp.key sentry := by
    rw [hsplit, List.takeWhile_append_of_pos]
    intro t ht
    simpa using (hbefore t ht).le
  have hfront := less_front_iff hsplit hbefore
  simp only [findLocaltime, Data.inForce, htake, hbound]
  cases after with
  | nil =>
    have hnone : data.transitions[before.length]? = none := by simp [hsplit]
    rw [hnone]
    cases before with
    | nil =>
      rw [if_pos (by simp [hfront])]
      rfl
    | cons t before =>
      rw [if_neg (by simp [hfront])]
      simp [hsplit, List.getLast?_cons]
  | cons first after =>
    have hsome : data.transitions[before.length]? = some first := by simp [hsplit]
    have hle : comp.key sentry ≤ comp.key first := hfirst first rfl
    rw [hsome]
    by_cases heq : comp.key sentry = comp.key first
    · rw [if_neg (by simp [hfront, heq]), takeWhile_of_eq hafter heq, List.getLast?_append,
        List.getLast?_singleton]
      simp [heq]
    · have hlt : comp.key sentry < comp.key first := lt_of_le_of_ne hle heq
      rw [List.takeWhile_cons_of_neg (by simpa using hlt), List.append_nil]
      rcases List.eq_nil_or_concat before with rfl | ⟨init, last, rfl⟩
      · rw [if_pos (by simp [hfront, hlt])]
        rfl
      · rw [if_neg (by simp [hfront])]
        simp [hsplit, heq]

end TimeZone

end ReactorNet
