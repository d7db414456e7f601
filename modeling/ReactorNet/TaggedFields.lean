import Mathlib.Data.List.Basic
import Mathlib.Tactic.TypeStar

/-!
# Sequences of tagged fields

A message in a byte string is a sequence of fields, each a tag and what the tag announces. A
reader takes a token off the front of the string and does not look behind it; reading a
message folds a function over its fields. What a message is read into can be merged with what
was read before.
-/
namespace ReactorNet.TaggedFields

variable {M T V : Type*}

abbrev Reader (V : Type*) := List UInt8 → Option (V × List UInt8)

/-- The reader takes the same token, and the same value, whatever stands behind the token. -/
def Reader.Tokens (r : Reader V) : Prop :=
  ∀ bs v rest, r bs = some (v, rest) →
    ∃ token, bs = token ++ rest ∧ ∀ more, r (token ++ more) = some (v, more)

/-- It also never takes an empty token. -/
def Reader.Advances (r : Reader V) : Prop :=
  ∀ bs v rest, r bs = some (v, rest) → rest.length < bs.length

def Reader.map {W : Type*} (f : V → W) (r : Reader V) : Reader W := fun bs =>
  (r bs).map fun (v, rest) => (f v, rest)

theorem Reader.map_eq_some {W : Type*} {f : V → W} {r : Reader V} {bs rest : List UInt8} {w : W} :
    r.map f bs = some (w, rest) ↔ ∃ v, r bs = some (v, rest) ∧ f v = w := by
  rw [Reader.map, Option.map_eq_some_iff]
  constructor
  · intro ⟨⟨v, rest'⟩, hread, heq⟩
    cases heq
    exact ⟨v, hread, rfl⟩
  · intro ⟨v, hread, heq⟩
    exact ⟨(v, rest), hread, congrArg (fun w => (w, rest)) heq⟩

/-- Two steps of a value are one. -/
theorem Reader.map_eq_map_map {W X : Type*} {f : V → W} {g : W → X} {k : V → X}
    (h : ∀ v, k v = g (f v)) (r : Reader V) : r.map k = Reader.map g (r.map f) := by
  funext bs
  rw [Reader.map, Reader.map, Reader.map, Option.map_map]
  congr 1
  funext read
  exact congrArg (fun x => (x, read.2)) (h read.1)

theorem Reader.Tokens.map {W : Type*} {r : Reader V} (h : r.Tokens) (f : V → W) :
    (r.map f).Tokens := by
  intro bs w rest hread
  obtain ⟨v, hv, rfl⟩ := Reader.map_eq_some.mp hread
  obtain ⟨token, hbs, htoken⟩ := h _ _ _ hv
  exact ⟨token, hbs, fun more => Reader.map_eq_some.mpr ⟨v, htoken more, rfl⟩⟩

/-- What becomes of a message when the field behind a tag is read: it goes on, a tag ends the
message early, or the bytes are malformed. -/
inductive FieldStep (M : Type*) where
  | next (m : M) (rest : List UInt8)
  | stop
  | fail

def FieldStep.map {N : Type*} (f : M → N) : FieldStep M → FieldStep N
  | .next m rest => .next (f m) rest
  | .stop => .stop
  | .fail => .fail

/-- Fields are read until the bytes are used up or a tag ends the message. -/
inductive Parsed (M : Type*) where
  | complete (m : M)
  | ended (m : M)
  | malformed

namespace Parsed

def map {N : Type*} (f : M → N) : Parsed M → Parsed N
  | .complete m => .complete (f m)
  | .ended m => .ended (f m)
  | .malformed => .malformed

/-- The message, if it takes up all the bytes. -/
def whole : Parsed M → Option M
  | .complete m => some m
  | _ => none

@[simp] theorem whole_complete (m : M) : (complete m).whole = some m := rfl

theorem whole_eq_some {p : Parsed M} {m : M} : p.whole = some m ↔ p = .complete m := by
  cases p <;> simp [whole]

end Parsed

section Parse

variable (readTag : Reader T) (field : M → T → List UInt8 → FieldStep M)

/-- At most `fuel` fields. -/
def parseFields : ℕ → M → List UInt8 → Parsed M
  | _, m, [] => .complete m
  | 0, _, _ :: _ => .malformed
  | fuel + 1, m, b :: bs =>
    match readTag (b :: bs) with
    | none => .malformed
    | some (tag, rest) =>
      match field m tag rest with
      | .next m rest => parseFields fuel m rest
      | .stop => .ended m
      | .fail => .malformed

/-- Every field takes a byte at least, so there are no more of them than bytes. -/
def parse (m : M) (bs : List UInt8) : Parsed M := parseFields readTag field bs.length m bs

/-- What comes of a message `m` after a field of it. -/
def resume (m : M) : FieldStep M → Parsed M
  | .next m' rest => parse readTag field m' rest
  | .stop => .ended m
  | .fail => .malformed

/-- Reading a field leaves no more bytes than there were. -/
def Shrinks : Prop :=
  ∀ m tag bs m' rest, field m tag bs = .next m' rest → rest.length ≤ bs.length

/-- A field is a token behind its tag. -/
def FieldTokens : Prop :=
  ∀ m tag bs m' rest, field m tag bs = .next m' rest →
    ∃ token, bs = token ++ rest ∧ ∀ more, field m tag (token ++ more) = .next m' more

end Parse

section Laws

variable {readTag : Reader T} {field : M → T → List UInt8 → FieldStep M}

theorem FieldTokens.shrinks (h : FieldTokens field) : Shrinks field := by
  intro m tag bs m' rest hfield
  obtain ⟨token, rfl, -⟩ := h m tag bs m' rest hfield
  rw [List.length_append]
  omega

/-- More fuel than bytes makes no difference. -/
theorem parseFields_eq_parse (htag : readTag.Advances) (hfield : Shrinks field) {fuel : ℕ}
    (m : M) (bs : List UInt8) (h : bs.length ≤ fuel) :
    parseFields readTag field fuel m bs = parse readTag field m bs := by
  induction fuel using Nat.strongRecOn generalizing m bs with
  | ind fuel ih =>
    cases bs with
    | nil => cases fuel <;> rfl
    | cons b bs =>
      cases fuel with
      | zero => exact absurd h (by simp)
      | succ fuel =>
        rw [parse, List.length_cons, parseFields, parseFields]
        cases hread : readTag (b :: bs) with
        | none => rfl
        | some read =>
          obtain ⟨tag, rest⟩ := read
          have hrest := htag _ _ _ hread
          rw [List.length_cons] at hrest h
          simp only
          cases hnext : field m tag rest with
          | stop => rfl
          | fail => rfl
          | next m' rest' =>
            have hle := hfield _ _ _ _ _ hnext
            have hfuel := ih fuel (Nat.lt_succ_self _) m' rest' (by omega)
            have hbytes : parseFields readTag field bs.length m' rest' =
                parse readTag field m' rest' := by
              by_cases hlt : bs.length < fuel + 1
              · exact ih bs.length hlt m' rest' (by omega)
              · omega
            exact hfuel.trans hbytes.symm

@[simp] theorem parse_nil (m : M) : parse readTag field m [] = .complete m := rfl

/-- One turn of the loop. -/
theorem parse_tag (htag : readTag.Advances) (hfield : Shrinks field) {m : M} {tag : T}
    {bs rest : List UInt8} (hread : readTag bs = some (tag, rest)) :
    parse readTag field m bs = resume readTag field m (field m tag rest) := by
  have hlt := htag _ _ _ hread
  cases bs with
  | nil => exact absurd hlt (Nat.not_lt_zero _)
  | cons b bs =>
    rw [parse, List.length_cons, parseFields, hread]
    simp only
    cases hnext : field m tag rest with
    | stop => rfl
    | fail => rfl
    | next m' rest' =>
      have hle := hfield _ _ _ _ _ hnext
      rw [List.length_cons] at hlt
      exact parseFields_eq_parse htag hfield m' rest' (by omega)

theorem parse_no_tag {m : M} {bs : List UInt8} (hne : bs ≠ []) (hread : readTag bs = none) :
    parse readTag field m bs = .malformed := by
  cases bs with
  | nil => exact absurd rfl hne
  | cons b bs => rw [parse, List.length_cons, parseFields, hread]

/-- A field that was read is read again in front of other bytes. -/
theorem parse_next (htag : readTag.Advances) (hfield : Shrinks field) {m m' : M} {tag : T}
    {bs rest more : List UInt8} (hread : readTag bs = some (tag, rest))
    (hnext : field m tag rest = .next m' more) :
    parse readTag field m bs = parse readTag field m' more := by
  rw [parse_tag htag hfield hread, hnext, resume]

/-- The induction over the fields of a complete message. -/
theorem parse_complete_induct (htag : readTag.Advances) (hfield : Shrinks field)
    {P : M → List UInt8 → M → Prop} (hnil : ∀ m, P m [] m)
    (hnext : ∀ m tag bs rest m' more result, readTag bs = some (tag, rest) →
      field m tag rest = .next m' more → parse readTag field m' more = .complete result →
      P m' more result → P m bs result) {m result : M} {bs : List UInt8}
    (h : parse readTag field m bs = .complete result) : P m bs result := by
  induction hn : bs.length using Nat.strongRecOn generalizing m bs with
  | ind n ih =>
    by_cases hempty : bs = []
    · subst hempty
      cases h
      exact hnil _
    · cases hread : readTag bs with
      | none =>
        rw [parse_no_tag hempty hread] at h
        cases h
      | some read =>
        obtain ⟨tag, rest⟩ := read
        rw [parse_tag htag hfield hread] at h
        have hlt := htag _ _ _ hread
        cases hstep : field m tag rest with
        | stop =>
          rw [hstep] at h
          cases h
        | fail =>
          rw [hstep] at h
          cases h
        | next m' more =>
          rw [hstep] at h
          have hle := hfield _ _ _ _ _ hstep
          exact hnext m tag bs rest m' more result hread hstep h (ih more.length (by omega) h rfl)

/-- A message followed by more bytes. -/
theorem parse_append (htag : readTag.Advances) (htokens : readTag.Tokens)
    (hfield : FieldTokens field) {m m' : M} {a : List UInt8}
    (h : parse readTag field m a = .complete m') (b : List UInt8) :
    parse readTag field m (a ++ b) = parse readTag field m' b := by
  apply parse_complete_induct (P := fun m a m' =>
    parse readTag field m (a ++ b) = parse readTag field m' b) htag hfield.shrinks _ _ h
  · intro m
    rfl
  · intro m tag bs rest m' more result hread hstep _ ih
    obtain ⟨head, rfl, hhead⟩ := htokens _ _ _ hread
    obtain ⟨token, rfl, htoken⟩ := hfield _ _ _ _ _ hstep
    rw [List.append_assoc, List.append_assoc, parse_next htag hfield.shrinks (hhead _) (htoken _)]
    exact ih

/-- Where merging commutes with reading a field, it commutes with reading a message. -/
theorem parse_merge (htag : readTag.Advances) (hfield : Shrinks field) {merge : M → M}
    (hmerge : ∀ m tag bs, field (merge m) tag bs = (field m tag bs).map merge) (m : M)
    (bs : List UInt8) :
    parse readTag field (merge m) bs = (parse readTag field m bs).map merge := by
  induction hn : bs.length using Nat.strongRecOn generalizing m bs with
  | ind n ih =>
    by_cases hempty : bs = []
    · subst hempty
      rfl
    · cases hread : readTag bs with
      | none =>
        rw [parse_no_tag hempty hread, parse_no_tag hempty hread]
        rfl
      | some read =>
        obtain ⟨tag, rest⟩ := read
        have hlt := htag _ _ _ hread
        rw [parse_tag htag hfield hread, parse_tag htag hfield hread, hmerge]
        cases hstep : field m tag rest with
        | stop => rfl
        | fail => rfl
        | next m' more =>
          have hle := hfield _ _ _ _ _ hstep
          exact ih more.length (by omega) m' more rfl

end Laws

/-! ## Repeated fields -/

section Repeated

variable (one : M → List UInt8 → Option (M × List UInt8)) (tagByte : UInt8)

/-- Elements of a repeated field: as long as the tag byte stands behind an element, the next one
is read at once. -/
def elements : ℕ → M → List UInt8 → Option (M × List UInt8)
  | 0, _, _ => none
  | fuel + 1, m, bs =>
    match one m bs with
    | none => none
    | some (m, []) => some (m, [])
    | some (m, b :: rest) =>
      if b = tagByte then elements fuel m rest else some (m, b :: rest)

/-- The field that a reader gives. -/
def FieldStep.ofOption : Option (M × List UInt8) → FieldStep M
  | some (m, rest) => .next m rest
  | none => .fail

@[simp] theorem FieldStep.ofOption_some (m : M) (rest : List UInt8) :
    FieldStep.ofOption (some (m, rest)) = .next m rest := rfl

variable {one tagByte} {readTag : Reader T} {field : M → T → List UInt8 → FieldStep M} {tag : T}

theorem length_elements (hfield : Shrinks field)
    (hone : ∀ m bs, field m tag bs = .ofOption (one m bs)) {fuel : ℕ} {m m' : M}
    {bs rest : List UInt8} (h : elements one tagByte fuel m bs = some (m', rest)) :
    rest.length ≤ bs.length := by
  induction fuel generalizing m bs with
  | zero => cases h
  | succ fuel ih =>
    rw [elements] at h
    cases hread : one m bs with
    | none =>
      rw [hread] at h
      cases h
    | some read =>
      obtain ⟨m₁, rest₁⟩ := read
      have hle : rest₁.length ≤ bs.length := hfield m tag bs m₁ rest₁ (by rw [hone, hread]; rfl)
      rw [hread] at h
      cases rest₁ with
      | nil =>
        cases h
        exact hle
      | cons b rest₁ =>
        simp only at h
        rw [List.length_cons] at hle
        split at h
        · have hrest := ih h
          omega
        · cases h
          simpa using hle

/-- Reading the elements at once is reading one of them and the others as fields. -/
theorem resume_elements (htag : readTag.Advances) (hfield : Shrinks field)
    (hbyte : ∀ rest, readTag (tagByte :: rest) = some (tag, rest))
    (hone : ∀ m bs, field m tag bs = .ofOption (one m bs)) {fuel : ℕ} (m : M) (bs : List UInt8)
    (hfuel : bs.length < fuel) :
    resume readTag field m (.ofOption (elements one tagByte fuel m bs)) =
      resume readTag field m (field m tag bs) := by
  induction fuel generalizing m bs with
  | zero => exact absurd hfuel (Nat.not_lt_zero _)
  | succ fuel ih =>
    rw [elements, hone]
    cases hread : one m bs with
    | none => rfl
    | some read =>
      obtain ⟨m', rest⟩ := read
      have hle : rest.length ≤ bs.length := hfield m tag bs m' rest (by rw [hone, hread]; rfl)
      cases rest with
      | nil => rfl
      | cons b rest =>
        rw [List.length_cons] at hle
        by_cases hb : b = tagByte
        · have hrest := ih m' rest (by omega)
          simp only [if_pos hb, FieldStep.ofOption_some]
          rw [resume, hb, parse_tag htag hfield (hbyte rest), ← hrest]
          cases hnone : elements one tagByte fuel m' rest with
          | some result => rfl
          | none => rfl
        · simp only [if_neg hb]

/-- A loop that reads the elements of one field at once is the loop that does not. -/
theorem parse_eq_parse_elements {fast : M → T → List UInt8 → FieldStep M}
    (htag : readTag.Advances) (hfield : Shrinks field)
    (hbyte : ∀ rest, readTag (tagByte :: rest) = some (tag, rest))
    (hone : ∀ m bs, field m tag bs = .ofOption (one m bs))
    (hfast : ∀ m bs, fast m tag bs = .ofOption (elements one tagByte (bs.length + 1) m bs))
    (hother : ∀ m t bs, t ≠ tag → fast m t bs = field m t bs) (m : M) (bs : List UInt8) :
    parse readTag fast m bs = parse readTag field m bs := by
  have hshrinks : Shrinks fast := by
    intro m t bs m' rest h
    by_cases ht : t = tag
    · subst ht
      rw [hfast] at h
      cases hread : elements one tagByte (bs.length + 1) m bs with
      | none =>
        rw [hread] at h
        cases h
      | some read =>
        rw [hread] at h
        cases h
        exact length_elements hfield hone hread
    · rw [hother m t bs ht] at h
      exact hfield _ _ _ _ _ h
  induction hn : bs.length using Nat.strongRecOn generalizing m bs with
  | ind n ih =>
    by_cases hempty : bs = []
    · subst hempty
      rfl
    · cases hread : readTag bs with
      | none => rw [parse_no_tag hempty hread, parse_no_tag hempty hread]
      | some read =>
        obtain ⟨t, rest⟩ := read
        have hlt := htag _ _ _ hread
        rw [parse_tag htag hshrinks hread, parse_tag htag hfield hread]
        by_cases ht : t = tag
        · subst ht
          rw [hfast, ← resume_elements htag hfield hbyte hone m rest (Nat.lt_succ_self _)]
          cases hread : elements one tagByte (rest.length + 1) m rest with
          | none => rfl
          | some read =>
            have hle := length_elements hfield hone hread
            exact ih _ (by omega) _ _ rfl
        · rw [hother m t rest ht]
          cases hstep : field m t rest with
          | stop => rfl
          | fail => rfl
          | next m' more =>
            have hle := hfield _ _ _ _ _ hstep
            exact ih more.length (by omega) m' more rfl

end Repeated

end ReactorNet.TaggedFields
