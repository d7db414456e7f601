import Mathlib.Data.List.Forall2
import Mathlib.Tactic.TypeStar

/-!
# Frames taken from the front of a growing stream

A frame parser looks at the front of the bytes received so far and answers that it
needs more of them, that they are malformed, or that the first `n` of them are a
frame. Its answers do not change when more bytes arrive. Draining takes frames until
the parser stops; feeding drains after each received chunk and keeps the rest.
-/
namespace ReactorNet.FrameStreams

inductive Verdict (ε β : Type*) where
  | more
  | fail (e : ε)
  | item (b : β) (n : ℕ)

structure FrameParser (α ε β : Type*) where
  front : List α → Verdict ε β
  front_nil : front [] = .more
  item_bounds : ∀ {s b n}, front s = .item b n → 0 < n ∧ n ≤ s.length
  item_append : ∀ {s b n}, front s = .item b n → ∀ t, front (s ++ t) = .item b n
  fail_append : ∀ {s e}, front s = .fail e → ∀ t, front (s ++ t) = .fail e

/-- Frames taken, the error that stopped the parser if any, and the bytes left. -/
@[ext] structure Drained (α ε β : Type*) where
  items : List β
  error : Option ε
  rest : List α

/-- The outcome of one pass followed by another one over what it left. -/
def Drained.andThen {α ε β : Type*} (d f : Drained α ε β) : Drained α ε β where
  items := d.items ++ f.items
  error := d.error.or f.error
  rest := f.rest

namespace FrameParser

variable {α ε β : Type*} (p : FrameParser α ε β)

def drain (s : List α) : Drained α ε β :=
  match _h : p.front s with
  | .more => ⟨[], none, s⟩
  | .fail e => ⟨[], some e, s⟩
  | .item b n =>
    let d := drain (s.drop n)
    { d with items := b :: d.items }
termination_by s.length
decreasing_by
  have hb := p.item_bounds _h
  rw [List.length_drop]
  omega

/-- Drain after every chunk, carrying the bytes left over to the next one. -/
def feed (s : List α) : List (List α) → Drained α ε β
  | [] => ⟨[], none, s⟩
  | c :: cs => (p.drain (s ++ c)).andThen (feed (p.drain (s ++ c)).rest cs)

theorem drain_more {s : List α} (h : p.front s = .more) : p.drain s = ⟨[], none, s⟩ := by
  rw [drain]
  split <;> simp_all

theorem drain_fail {s : List α} {e : ε} (h : p.front s = .fail e) :
    p.drain s = ⟨[], some e, s⟩ := by
  rw [drain]
  split <;> simp_all

theorem drain_item {s : List α} {b : β} {n : ℕ} (h : p.front s = .item b n) :
    p.drain s = ⟨b :: (p.drain (s.drop n)).items, (p.drain (s.drop n)).error,
      (p.drain (s.drop n)).rest⟩ := by
  rw [drain]
  split <;> simp_all

/-- The elements of the frames that draining takes, frame by frame. -/
def taken (s : List α) : List (List α) :=
  match _h : p.front s with
  | .more => []
  | .fail _ => []
  | .item _ n => s.take n :: taken (s.drop n)
termination_by s.length
decreasing_by
  have hb := p.item_bounds _h
  rw [List.length_drop]
  omega

theorem taken_more {s : List α} (h : p.front s = .more) : p.taken s = [] := by
  rw [taken]
  split <;> simp_all

theorem taken_fail {s : List α} {e : ε} (h : p.front s = .fail e) : p.taken s = [] := by
  rw [taken]
  split <;> simp_all

theorem taken_item {s : List α} {b : β} {n : ℕ} (h : p.front s = .item b n) :
    p.taken s = s.take n :: p.taken (s.drop n) := by
  rw [taken]
  split <;> simp_all

/-- Draining cuts the stream into the frames it takes and the rest. -/
theorem flatten_taken_append_rest (s : List α) : (p.taken s).flatten ++ (p.drain s).rest = s := by
  induction s using drain.induct p with
  | case1 s h => simp [p.taken_more h, p.drain_more h]
  | case2 s e h => simp [p.taken_fail h, p.drain_fail h]
  | case3 s b n h ih =>
    rw [p.taken_item h, p.drain_item h, List.flatten_cons, List.append_assoc, ih,
      List.take_append_drop]

/-- What holds of the front of a stream with a frame holds of every frame taken. -/
theorem forall₂_taken {Q : List α → β → Prop}
    (h : ∀ s b n, p.front s = .item b n → Q (s.take n) b) (s : List α) :
    List.Forall₂ Q (p.taken s) (p.drain s).items := by
  induction s using drain.induct p with
  | case1 s hf =>
    rw [p.taken_more hf, p.drain_more hf]
    exact .nil
  | case2 s e hf =>
    rw [p.taken_fail hf, p.drain_fail hf]
    exact .nil
  | case3 s b n hf ih =>
    rw [p.taken_item hf, p.drain_item hf]
    exact .cons (h s b n hf) ih

/-- The parser stopped at the rest for the reason reported. -/
theorem front_drain_rest (s : List α) :
    p.front (p.drain s).rest = match (p.drain s).error with
      | none => .more
      | some e => .fail e := by
  induction s using drain.induct p with
  | case1 s h => simp [p.drain_more h, h]
  | case2 s e h => simp [p.drain_fail h, h]
  | case3 s b n h ih =>
    rw [p.drain_item h]
    exact ih

/-- Draining a longer stream continues where draining its beginning stopped. -/
theorem drain_append (s t : List α) :
    p.drain (s ++ t) = (p.drain s).andThen (p.drain ((p.drain s).rest ++ t)) := by
  induction s using drain.induct p with
  | case1 s h => simp [p.drain_more h, Drained.andThen]
  | case2 s e h => simp [p.drain_fail h, p.drain_fail (p.fail_append h t), Drained.andThen]
  | case3 s b n h ih =>
    have hb := p.item_bounds h
    rw [p.drain_item (p.item_append h t), p.drain_item h, List.drop_append_of_le_length hb.2, ih]
    simp [Drained.andThen]

/-- A stream that has failed stays as it is and reports its error for every chunk. -/
theorem feed_fail {s : List α} {e : ε} (h : p.front s = .fail e) (cs : List (List α)) :
    p.feed s cs = ⟨[], if cs = [] then none else some e, s ++ cs.flatten⟩ := by
  induction cs generalizing s with
  | nil => simp [feed]
  | cons c cs ih =>
    have hc := p.fail_append h c
    rw [feed, p.drain_fail hc, ih hc]
    simp [Drained.andThen]

theorem feed_eq_drain (s : List α) (hs : p.front s = .more) (cs : List (List α)) :
    p.feed s cs = p.drain (s ++ cs.flatten) := by
  induction cs generalizing s with
  | nil => simp [feed, p.drain_more hs]
  | cons c cs ih =>
    rw [feed, List.flatten_cons, ← List.append_assoc, p.drain_append (s ++ c)]
    have hrest := p.front_drain_rest (s ++ c)
    cases he : (p.drain (s ++ c)).error with
    | none =>
      rw [he] at hrest
      rw [ih _ hrest]
    | some e =>
      rw [he] at hrest
      rw [p.feed_fail hrest, p.drain_fail (p.fail_append hrest _)]
      cases cs <;> simp [Drained.andThen, he]

/-- The outcome of a stream does not depend on how it was cut into chunks. -/
theorem feed_nil_eq_drain (cs : List (List α)) : p.feed [] cs = p.drain cs.flatten := by
  rw [p.feed_eq_drain [] p.front_nil, List.nil_append]

end FrameParser

/-- How many of the frames, from the first one on, lie within the first `n` bytes. -/
def completeFrames {α : Type*} : List (List α) → ℕ → ℕ
  | [], _ => 0
  | f :: fs, n => if f.length ≤ n then completeFrames fs (n - f.length) + 1 else 0

namespace FrameParser

variable {α ε β : Type*} (p : FrameParser α ε β)

/-- Every frame of the list is recognised as its item, and none of its proper
beginnings is taken for a frame or for an error. -/
def Renders (frames : List (List α)) (items : List β) : Prop :=
  List.Forall₂ (fun f b => p.front f = .item b f.length ∧
    ∀ k < f.length, p.front (f.take k) = .more) frames items

/-- Draining a beginning of a sequence of frames yields the frames that are complete in
it, in order, and leaves the bytes of the next one. -/
theorem drain_take_flatten {frames : List (List α)} {items : List β}
    (h : p.Renders frames items) (n : ℕ) :
    (p.drain (frames.flatten.take n)).items = items.take (completeFrames frames n) ∧
      (p.drain (frames.flatten.take n)).error = none ∧
      (frames.flatten.length ≤ n → (p.drain (frames.flatten.take n)).rest = []) := by
  induction h generalizing n with
  | nil => simp [completeFrames, p.drain_more p.front_nil]
  | @cons f b fs bs hf _ ih =>
    obtain ⟨hitem, hmore⟩ := hf
    by_cases hn : f.length ≤ n
    · have hfront := p.item_append hitem (fs.flatten.take (n - f.length))
      have htake : (f :: fs).flatten.take n = f ++ fs.flatten.take (n - f.length) := by
        rw [List.flatten_cons, List.take_append, List.take_of_length_le hn]
      rw [htake, p.drain_item hfront, List.drop_left]
      obtain ⟨hitems, herr, hrest⟩ := ih (n - f.length)
      refine ⟨?_, herr, fun hlen => hrest ?_⟩
      · rw [hitems, completeFrames, if_pos hn, List.take_succ_cons]
      · rw [List.flatten_cons, List.length_append] at hlen
        omega
    · have htake : (f :: fs).flatten.take n = f.take n := by
        rw [List.flatten_cons, List.take_append_of_le_length (by omega)]
      rw [htake, p.drain_more (hmore n (by omega)), completeFrames, if_neg hn]
      refine ⟨rfl, rfl, fun hlen => ?_⟩
      rw [List.flatten_cons, List.length_append] at hlen
      omega

theorem completeFrames_length (frames : List (List α)) :
    completeFrames frames frames.flatten.length = frames.length := by
  induction frames with
  | nil => rfl
  | cons f fs ih =>
    rw [List.flatten_cons, List.length_append, completeFrames, if_pos (Nat.le_add_right _ _),
      Nat.add_sub_cancel_left, ih, List.length_cons]

/-- A frame is not complete before its last element. -/
theorem front_take {f : List α} {b : β} (h : p.front f = .item b f.length) {k : ℕ}
    (hk : k < f.length) : p.front (f.take k) = .more := by
  cases hfront : p.front (f.take k) with
  | more => rfl
  | fail e =>
    have hfail := p.fail_append hfront (f.drop k)
    rw [List.take_append_drop, h] at hfail
    cases hfail
  | item b' n =>
    have hitem := p.item_append hfront (f.drop k)
    have hbounds := p.item_bounds hfront
    rw [List.take_append_drop, h] at hitem
    cases hitem
    rw [List.length_take] at hbounds
    omega

/-- Draining a sequence of frames yields them all and leaves nothing over. -/
theorem drain_flatten {frames : List (List α)} {items : List β}
    (h : List.Forall₂ (fun f b => p.front f = .item b f.length) frames items) :
    p.drain frames.flatten = ⟨items, none, []⟩ := by
  have hrender : p.Renders frames items := h.imp fun f b hf => ⟨hf, fun k hk => p.front_take hf hk⟩
  obtain ⟨hitems, herror, hrest⟩ := p.drain_take_flatten hrender frames.flatten.length
  rw [List.take_length] at hitems herror hrest
  rw [completeFrames_length, h.length_eq, List.take_length] at hitems
  exact Drained.ext hitems herror (hrest (Nat.le_refl _))

/-! ## One frame for each chunk -/

/-- Take at most one frame after every chunk. -/
def serve (s : List α) : List (List α) → List β
  | [] => []
  | c :: cs =>
    match p.front (s ++ c) with
    | .item b n => b :: serve ((s ++ c).drop n) cs
    | _ => serve (s ++ c) cs

theorem serve_item {s c : List α} {b : β} {n : ℕ} (h : p.front (s ++ c) = .item b n)
    (cs : List (List α)) : p.serve s (c :: cs) = b :: p.serve ((s ++ c).drop n) cs := by
  rw [serve, h]

theorem serve_idle {s c : List α} (h : ∀ b n, p.front (s ++ c) ≠ .item b n)
    (cs : List (List α)) : p.serve s (c :: cs) = p.serve (s ++ c) cs := by
  rw [serve]
  split
  · next b n heq => exact absurd heq (h b n)
  · rfl

theorem items_idle {s : List α} (h : ∀ b n, p.front s ≠ .item b n) : (p.drain s).items = [] := by
  cases hf : p.front s with
  | more => rw [p.drain_more hf]
  | fail e => rw [p.drain_fail hf]
  | item b n => exact absurd hf (h b n)

theorem items_append {s : List α} {b : β} {n : ℕ} (h : p.front s = .item b n) (t : List α) :
    (p.drain (s ++ t)).items = b :: (p.drain (s.drop n ++ t)).items := by
  rw [p.drain_item (p.item_append h t), List.drop_append_of_le_length (p.item_bounds h).2]

/-- Behind frames may stand what does not begin with one: of any part of it all only whole
frames are taken. -/
theorem drain_take_append {frames : List (List α)} {items : List β} {tail : List α}
    (h : List.Forall₂ (fun f b => p.front f = .item b f.length) frames items)
    (htail : ∀ m b n, p.front (tail.take m) ≠ .item b n) (n : ℕ) :
    ∃ k, (p.drain ((frames.flatten ++ tail).take n)).items = items.take k := by
  by_cases hn : n ≤ frames.flatten.length
  · have hrender : p.Renders frames items :=
      h.imp fun f b hf => ⟨hf, fun k hk => p.front_take hf hk⟩
    rw [List.take_append_of_le_length hn]
    exact ⟨_, (p.drain_take_flatten hrender n).1⟩
  · refine ⟨items.length, ?_⟩
    rw [List.take_append, List.take_of_length_le (Nat.le_of_not_le hn), p.drain_append,
      p.drain_flatten h, Drained.andThen, List.nil_append, p.items_idle (htail _),
      List.append_nil, List.take_length]

/-- From any chunk on at most as many frames are completed as there are chunks. -/
def Paced (s : List α) (cs : List (List α)) : Prop :=
  ∀ before after, cs = before ++ after → (p.drain (s ++ cs.flatten)).items.length ≤
    (p.drain (s ++ before.flatten)).items.length + after.length

theorem paced_nil (s : List α) : p.Paced s [] := by
  intro before after h
  obtain ⟨rfl, rfl⟩ := List.append_eq_nil_iff.mp h.symm
  exact Nat.le_add_right _ _

theorem paced_cons (s c : List α) (cs : List (List α)) :
    p.Paced s (c :: cs) ↔ (p.drain (s ++ c ++ cs.flatten)).items.length ≤
      (p.drain s).items.length + (cs.length + 1) ∧ p.Paced (s ++ c) cs := by
  have hflatten (before : List (List α)) :
      s ++ (c :: before).flatten = s ++ c ++ before.flatten := by
    rw [List.flatten_cons, List.append_assoc]
  constructor
  · intro h
    constructor
    · have hall := h [] (c :: cs) rfl
      rwa [hflatten, List.flatten_nil, List.append_nil, List.length_cons] at hall
    · intro before after heq
      have hrest := h (c :: before) after (by rw [heq, List.cons_append])
      rwa [hflatten, hflatten] at hrest
  · rintro ⟨hall, hrest⟩ before after heq
    rw [hflatten]
    cases before with
    | nil =>
      rw [List.nil_append] at heq
      rwa [← heq, List.flatten_nil, List.append_nil, List.length_cons]
    | cons c' before =>
      obtain ⟨rfl, rfl⟩ := List.cons.inj heq
      rw [hflatten]
      exact hrest before after rfl

/-- A frame that is there already counts on both sides. -/
theorem paced_item {s : List α} {b : β} {n : ℕ} (h : p.front s = .item b n)
    (cs : List (List α)) : p.Paced s cs ↔ p.Paced (s.drop n) cs := by
  unfold Paced
  simp only [p.items_append h, List.length_cons]
  constructor
  · intro hp before after heq
    have := hp before after heq
    omega
  · intro hp before after heq
    have := hp before after heq
    omega

theorem Paced.length_le {s : List α} {cs : List (List α)} (h : p.Paced s cs)
    (hidle : ∀ b n, p.front s ≠ .item b n) :
    (p.drain (s ++ cs.flatten)).items.length ≤ cs.length := by
  have hall := h [] cs rfl
  rwa [List.flatten_nil, List.append_nil, p.items_idle hidle, List.length_nil,
    Nat.zero_add] at hall

/-- Taking one frame a chunk takes them all exactly when the frames completed from any
chunk on are at most as many as the chunks from there on, those in `s` counting too. -/
theorem serve_eq_items_iff (s : List α) (cs : List (List α)) :
    p.serve s cs = (p.drain (s ++ cs.flatten)).items ↔
      (p.drain (s ++ cs.flatten)).items.length ≤ cs.length ∧ p.Paced s cs := by
  induction cs generalizing s with
  | nil =>
    rw [serve, List.length_nil, Nat.le_zero, List.length_eq_zero_iff, and_iff_left (p.paced_nil s)]
    exact eq_comm
  | cons c cs ih =>
    rw [p.paced_cons, List.flatten_cons, ← List.append_assoc, List.length_cons]
    by_cases hitem : ∃ b n, p.front (s ++ c) = .item b n
    · obtain ⟨b, n, hf⟩ := hitem
      rw [p.serve_item hf, p.paced_item hf, p.items_append hf, List.cons.injEq, ih,
        List.length_cons]
      constructor
      · rintro ⟨-, hall, hpaced⟩
        exact ⟨by omega, by omega, hpaced⟩
      · rintro ⟨hall, -, hpaced⟩
        exact ⟨rfl, by omega, hpaced⟩
    · have hidle : ∀ b n, p.front (s ++ c) ≠ .item b n := fun b n hf => hitem ⟨b, n, hf⟩
      rw [p.serve_idle hidle, ih]
      constructor
      · rintro ⟨hall, hpaced⟩
        exact ⟨by omega, by omega, hpaced⟩
      · rintro ⟨-, -, hpaced⟩
        exact ⟨hpaced.length_le p hidle, hpaced⟩

end FrameParser

end ReactorNet.FrameStreams
