import Mathlib.Logic.Basic
import Mathlib.Tactic.TypeStar

/-!
# Runs of a guarded transition function

A system is a function that takes a state and an action to the next state, or to
`none` where the action is disabled. A run replays a list of actions. An invariant
is proved once for a single step; a side condition on the steps of a run is a
predicate on the state an action is taken from, together with the action.
-/
namespace ReactorNet.GuardedRuns

variable {S A T : Type*}

/-- Replay the actions from the left; `none` if one of them is disabled. -/
def run (step : S → A → Option S) : S → List A → Option S
  | s, [] => some s
  | s, a :: as => (step s a).bind fun t => run step t as

@[simp] theorem run_nil (step : S → A → Option S) (s : S) : run step s [] = some s := rfl

@[simp] theorem run_cons (step : S → A → Option S) (s : S) (a : A) (as : List A) :
    run step s (a :: as) = (step s a).bind fun t => run step t as := rfl

theorem run_cons_eq_some {step : S → A → Option S} {s u : S} {a : A} {as : List A} :
    run step s (a :: as) = some u ↔ ∃ t, step s a = some t ∧ run step t as = some u := by
  simp [Option.bind_eq_some_iff]

theorem run_append (step : S → A → Option S) (s : S) (as bs : List A) :
    run step s (as ++ bs) = (run step s as).bind fun t => run step t bs := by
  induction as generalizing s with
  | nil => rfl
  | cons a as ih =>
    rw [List.cons_append, run_cons, run_cons, Option.bind_assoc]
    congr 1
    funext t
    exact ih t

/-- Every action of the replay meets `ok` in the state it is taken from. -/
def Meets (step : S → A → Option S) (ok : S → A → Prop) : S → List A → Prop
  | _, [] => True
  | s, a :: as => ok s a ∧ ∀ t, step s a = some t → Meets step ok t as

instance Meets.decidable (step : S → A → Option S) (ok : S → A → Prop)
    [∀ s a, Decidable (ok s a)] : ∀ s as, Decidable (Meets step ok s as)
  | _, [] => isTrue trivial
  | s, a :: as =>
    match h : step s a with
    | none => decidable_of_iff (ok s a) (by simp [Meets, h])
    | some t =>
      have := Meets.decidable step ok t as
      decidable_of_iff (ok s a ∧ Meets step ok t as) (by simp [Meets, h])

/-- `P` holds in every state the replay visits, the last one included. -/
def Throughout (step : S → A → Option S) (P : S → Prop) : S → List A → Prop
  | s, [] => P s
  | s, a :: as => P s ∧ ∀ t, step s a = some t → Throughout step P t as

instance Throughout.decidable (step : S → A → Option S) (P : S → Prop) [∀ s, Decidable (P s)] :
    ∀ s as, Decidable (Throughout step P s as)
  | s, [] => inferInstanceAs (Decidable (P s))
  | s, a :: as =>
    match h : step s a with
    | none => decidable_of_iff (P s) (by simp [Throughout, h])
    | some t =>
      have := Throughout.decidable step P t as
      decidable_of_iff (P s ∧ Throughout step P t as) (by simp [Throughout, h])

theorem Throughout.head {step : S → A → Option S} {P : S → Prop} {s : S} {as : List A}
    (h : Throughout step P s as) : P s := by
  cases as with
  | nil => exact h
  | cons a as => exact h.1

theorem Throughout.last {step : S → A → Option S} {P : S → Prop} {s u : S} {as : List A}
    (h : Throughout step P s as) (hr : run step s as = some u) : P u := by
  induction as generalizing s with
  | nil =>
    cases hr
    exact h
  | cons a as ih =>
    obtain ⟨t, hs, hr⟩ := run_cons_eq_some.mp hr
    exact ih (h.2 t hs) hr

/-- A property that no step can restore holds throughout if it holds at the end. -/
theorem Throughout.of_last {step : S → A → Option S} {P : S → Prop}
    (hback : ∀ s a t, step s a = some t → P t → P s) {s u : S} {as : List A}
    (hr : run step s as = some u) (hu : P u) : Throughout step P s as := by
  induction as generalizing s with
  | nil =>
    cases hr
    exact hu
  | cons a as ih =>
    obtain ⟨t, ht, hr⟩ := run_cons_eq_some.mp hr
    have hrest := ih hr
    refine ⟨hback s a t ht hrest.head, fun t' ht' => ?_⟩
    cases ht.symm.trans ht'
    exact hrest

/-- A property preserved by every step is preserved by every run. -/
theorem run_invariant {step : S → A → Option S} {P : S → Prop}
    (hstep : ∀ s a t, P s → step s a = some t → P t) {s u : S} {as : List A}
    (hs : P s) (hr : run step s as = some u) : P u := by
  induction as generalizing s with
  | nil =>
    cases hr
    exact hs
  | cons a as ih =>
    obtain ⟨t, ht, hr⟩ := run_cons_eq_some.mp hr
    exact ih (hstep s a t hs ht) hr

/-- A property preserved by the steps that meet `ok` holds after a run that meets it. -/
theorem meets_invariant {step : S → A → Option S} {ok : S → A → Prop} {P : S → Prop}
    (hstep : ∀ s a t, P s → ok s a → step s a = some t → P t) {s u : S} {as : List A}
    (hs : P s) (hm : Meets step ok s as) (hr : run step s as = some u) : P u := by
  induction as generalizing s with
  | nil =>
    cases hr
    exact hs
  | cons a as ih =>
    obtain ⟨t, ht, hr⟩ := run_cons_eq_some.mp hr
    exact ih (hstep s a t hs hm.1 ht) (hm.2 t ht) hr

/-- A property preserved by the steps into states with `Q` holds after a run through such
states. -/
theorem throughout_invariant {step : S → A → Option S} {P Q : S → Prop}
    (hstep : ∀ s a t, P s → Q t → step s a = some t → P t) {s u : S} {as : List A}
    (hs : P s) (hq : Throughout step Q s as) (hr : run step s as = some u) : P u := by
  induction as generalizing s with
  | nil =>
    cases hr
    exact hs
  | cons a as ih =>
    obtain ⟨t, ht, hr⟩ := run_cons_eq_some.mp hr
    exact ih (hstep s a t hs (hq.2 t ht).head ht) (hq.2 t ht) hr

/-- Where `P` lets every step that meets `ok` be taken and is preserved by it, a replay
that meets `ok` ends in a state with `P`. -/
theorem meets_run {step : S → A → Option S} {ok : S → A → Prop} {P : S → Prop}
    (hstep : ∀ s a, P s → ok s a → ∃ t, step s a = some t ∧ P t) {s : S} {as : List A}
    (hs : P s) (hm : Meets step ok s as) : ∃ u, run step s as = some u ∧ P u := by
  induction as generalizing s with
  | nil => exact ⟨s, rfl, hs⟩
  | cons a as ih =>
    obtain ⟨t, ht, hp⟩ := hstep s a hs hm.1
    obtain ⟨u, hu, hp⟩ := ih hp (hm.2 t ht)
    exact ⟨u, run_cons_eq_some.mpr ⟨t, ht, hu⟩, hp⟩

theorem Meets.of_forall {step : S → A → Option S} {ok : S → A → Prop} (h : ∀ s a, ok s a) (s : S)
    (as : List A) : Meets step ok s as := by
  induction as generalizing s with
  | nil => trivial
  | cons a as ih => exact ⟨h s a, fun t _ => ih t⟩

theorem Meets.and {step : S → A → Option S} {ok ok' : S → A → Prop} {s : S} {as : List A}
    (h : Meets step ok s as) (h' : Meets step ok' s as) :
    Meets step (fun s a => ok s a ∧ ok' s a) s as := by
  induction as generalizing s with
  | nil => trivial
  | cons a as ih => exact ⟨⟨h.1, h'.1⟩, fun t ht => ih (h.2 t ht) (h'.2 t ht)⟩

theorem Meets.append {step : S → A → Option S} {ok : S → A → Prop} {s : S} {as bs : List A}
    (h : Meets step ok s (as ++ bs)) :
    Meets step ok s as ∧ ∀ t, run step s as = some t → Meets step ok t bs := by
  induction as generalizing s with
  | nil =>
    refine ⟨trivial, fun t ht => ?_⟩
    cases ht
    exact h
  | cons a as ih =>
    refine ⟨⟨h.1, fun t ht => (ih (h.2 t ht)).1⟩, fun u hu => ?_⟩
    obtain ⟨t, ht, hu⟩ := run_cons_eq_some.mp hu
    exact (ih (h.2 t ht)).2 u hu

/-- Where a step keeps `P` exactly when it meets `ok`, a run keeps `P` exactly when
all of its steps meet `ok`. The invariant `I` is only needed as long as `P` holds. -/
theorem throughout_iff_meets {step : S → A → Option S} {dom ok : S → A → Prop} {I P : S → Prop}
    (hI : ∀ s a t, I s → P s → dom s a → step s a = some t → I t)
    (hP : ∀ s a t, I s → P s → dom s a → step s a = some t → (P t ↔ ok s a))
    {s u : S} {as : List A} (hs : I s) (hp : P s) (hd : Meets step dom s as)
    (hr : run step s as = some u) :
    Throughout step P s as ↔ Meets step ok s as := by
  induction as generalizing s with
  | nil => exact ⟨fun _ => trivial, fun _ => hp⟩
  | cons a as ih =>
    obtain ⟨t, ht, hr⟩ := run_cons_eq_some.mp hr
    have hstep := hP s a t hs hp hd.1 ht
    have hrest (hpt : P t) := ih (hI s a t hs hp hd.1 ht) hpt (hd.2 t ht) hr
    constructor
    · intro h
      have hpt := (h.2 t ht).head
      refine ⟨hstep.mp hpt, fun t' ht' => ?_⟩
      cases ht.symm.trans ht'
      exact (hrest hpt).mp (h.2 t ht)
    · intro h
      have hpt := hstep.mpr h.1
      refine ⟨hp, fun t' ht' => ?_⟩
      cases ht.symm.trans ht'
      exact (hrest hpt).mpr (h.2 t ht)

/-- Forward simulation: `R` is kept by every concrete step and matched by the abstract
step for the same action, so a concrete run is matched by the abstract run. -/
theorem run_simulation {step : S → A → Option S} {abs : T → A → Option T} {R : S → T → Prop}
    (hstep : ∀ s x a t, R s x → step s a = some t → ∃ y, abs x a = some y ∧ R t y)
    {s u : S} {x : T} {as : List A} (hs : R s x) (hr : run step s as = some u) :
    ∃ y, run abs x as = some y ∧ R u y := by
  induction as generalizing s x with
  | nil =>
    cases hr
    exact ⟨x, rfl, hs⟩
  | cons a as ih =>
    obtain ⟨t, ht, hr⟩ := run_cons_eq_some.mp hr
    obtain ⟨y, hy, hR⟩ := hstep s x a t hs ht
    obtain ⟨z, hz, hR⟩ := ih hR hr
    exact ⟨z, run_cons_eq_some.mpr ⟨y, hy, hz⟩, hR⟩

end ReactorNet.GuardedRuns
