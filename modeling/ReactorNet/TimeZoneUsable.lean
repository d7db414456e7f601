import ReactorNet.TimeZoneFile

/-!
# The TimeZones that zone files give

The loader never says that a file is bad, so a TimeZone is usable exactly when its file is
complete and the indexes in it are in range.
-/
namespace ReactorNet.TimeZone

open NetworkByteOrder

/-! ## What a successful read leaves -/

theorem bind_ok_iff {α β : Type} {x : Reading α} {f : α → Reading β} {s s' : FileState} {b : β} :
    (x >>= f) s = .ok b s' ↔ ∃ a t, x s = .ok a t ∧ f a t = .ok b s' := by
  simp only [bind, EStateM.bind]
  cases x s with
  | ok a t => simp
  | error e t => simp

theorem pure_ok_iff {α : Type} {a b : α} {s s' : FileState} :
    (pure a : Reading α) s = .ok b s' ↔ b = a ∧ s' = s := by
  simp [pure, EStateM.pure, eq_comm]

theorem throw_ok_iff {α : Type} {stop : Stop} {b : α} {s s' : FileState} :
    (throw stop : Reading α) s = .ok b s' ↔ False := by
  change EStateM.Result.error stop s = .ok b s' ↔ False
  simp

theorem ite_ok_iff {α : Type} {p : Prop} [Decidable p] {x y : Reading α} {s s' : FileState} {b : α} :
    (if p then x else y) s = .ok b s' ↔ (p ∧ x s = .ok b s') ∨ (¬ p ∧ y s = .ok b s') := by
  split <;> simp [*]

theorem modify_ok_iff {f : FileState → FileState} {s s' : FileState} {u : PUnit} :
    (modify f : Reading PUnit) s = .ok u s' ↔ s' = f s := by
  change EStateM.Result.ok PUnit.unit (f s) = .ok u s' ↔ s' = f s
  simp [eq_comm]

/-- The state after `n` more bytes. -/
def FileState.skip (s : FileState) (n : ℕ) : FileState := { s with rest := s.rest.drop n }

@[simp] theorem FileState.skip_skip (s : FileState) (m n : ℕ) :
    (s.skip m).skip n = s.skip (m + n) := by
  simp [FileState.skip]

/-- The operation reads `w` bytes, if so many are left, and gives `value` of the rest. -/
def Reads {α : Type} (op : Reading α) (w : ℕ) (value : List UInt8 → α) : Prop :=
  ∀ s x s', op s = .ok x s' ↔ w ≤ s.rest.length ∧ x = value s.rest ∧ s' = s.skip w

theorem Reads.bind {α β : Type} {op : Reading α} {f : α → Reading β} {v w : ℕ}
    {value : List UInt8 → α} {result : α → List UInt8 → β} (h : Reads op v value)
    (hf : ∀ x, Reads (f x) w (result x)) :
    Reads (op >>= f) (v + w) fun bs => result (value bs) (bs.drop v) := by
  intro s x s'
  have hlen : (s.skip v).rest.length = s.rest.length - v := List.length_drop
  simp only [bind_ok_iff, h _ _ _, hf _ _ _ _]
  constructor
  · rintro ⟨_, _, ⟨hv, rfl, rfl⟩, hw, rfl, rfl⟩
    exact ⟨by omega, rfl, s.skip_skip v w⟩
  · rintro ⟨hle, rfl, rfl⟩
    exact ⟨_, _, ⟨by omega, rfl, rfl⟩, by omega, rfl, (s.skip_skip v w).symm⟩

theorem Reads.congr {α : Type} {op : Reading α} {v w : ℕ} {value result : List UInt8 → α}
    (h : Reads op v value) (hw : v = w) (hvalue : ∀ bs, value bs = result bs) :
    Reads op w result := by
  obtain rfl : value = result := funext hvalue
  exact hw ▸ h

theorem reads_pure {α : Type} (a : α) : Reads (pure a) 0 fun _ => a := by
  intro s x s'
  simp [pure_ok_iff, FileState.skip]

theorem fread_ok_iff {n : ℕ} {s s' : FileState} {x : List UInt8} :
    fread n s = .ok x s' ↔ x = s.rest.take n ∧ s' = s.skip n := by
  simp [fread, FileState.skip, eq_comm]

/-- Reading a fixed number of bytes, with an exception when there are fewer. -/
theorem reads_of_fread {α : Type} (w : ℕ) (what : String) (value : List UInt8 → α) :
    Reads (do
      let x ← fread w
      if x.length ≠ w then throw (.logic_error what)
      return value x) w fun bs => value (bs.take w) := by
  intro s x s'
  simp only [bind_ok_iff, fread_ok_iff, ite_ok_iff, throw_ok_iff, pure_ok_iff]
  constructor
  · rintro ⟨_, _, ⟨rfl, rfl⟩, ⟨-, _, _, hfalse, -⟩ | ⟨hlen, rfl, rfl⟩⟩
    · exact hfalse.elim
    · rw [List.length_take, not_not, min_eq_left_iff] at hlen
      exact ⟨hlen, rfl, rfl⟩
  · rintro ⟨hle, rfl, rfl⟩
    refine ⟨_, _, ⟨rfl, rfl⟩, Or.inr ⟨?_, rfl, rfl⟩⟩
    rw [List.length_take, not_not, Nat.min_eq_left hle]

def int32At (bs : List UInt8) (i : ℕ) : ℤ := (networkToHost 4 ((bs.drop i).take 4)).toInt

def byteAt (bs : List UInt8) (i : ℕ) : ℕ := (bs.getD i 0).toNat

@[simp] theorem int32At_drop (bs : List UInt8) (n i : ℕ) :
    int32At (bs.drop n) i = int32At bs (n + i) := by
  rw [int32At, List.drop_drop, int32At]

@[simp] theorem byteAt_drop (bs : List UInt8) (n i : ℕ) :
    byteAt (bs.drop n) i = byteAt bs (n + i) := by
  simp [byteAt, List.getD_eq_getElem?_getD]

theorem reads_readInt32 : Reads readInt32 4 fun bs => int32At bs 0 :=
  reads_of_fread 4 "bad int32_t data" fun x => (networkToHost 4 x).toInt

theorem reads_readUInt8 : Reads readUInt8 1 fun bs => byteAt bs 0 := by
  have hvalue : (fun bs : List UInt8 => fromBigEndian (bs.take 1)) = fun bs => byteAt bs 0 := by
    funext bs
    cases bs with
    | nil => rfl
    | cons b bs => simp [fromBigEndian, byteAt]
  rw [← hvalue]
  exact reads_of_fread 1 "bad uint8_t data" fromBigEndian

theorem reads_readBytes {n : ℤ} (h : 0 ≤ n) :
    Reads (readBytes n) n.toNat fun bs => string (bs.take n.toNat) := by
  have hbytes : readBytes n = do
      let buf ← fread n.toNat
      if buf.length ≠ n.toNat then throw (.logic_error "no enough data")
      return string buf := by
    rw [readBytes, if_neg (not_lt.mpr h)]
  rw [hbytes]
  exact reads_of_fread n.toNat "no enough data" string

theorem readBytes_ok_iff {n : ℤ} {s s' : FileState} {x : String} :
    readBytes n s = .ok x s' ↔ 0 ≤ n ∧ n.toNat ≤ s.rest.length ∧
      x = string (s.rest.take n.toNat) ∧ s' = s.skip n.toNat := by
  by_cases h : 0 ≤ n
  · rw [reads_readBytes h s x s', iff_and_self]
    exact fun _ => h
  · rw [readBytes, if_pos (not_le.mp h)]
    simp only [bind_ok_iff, throw_ok_iff, h, false_and, exists_false]

theorem reserve_ok_iff {n : ℤ} {s s' : FileState} {u : Unit} :
    reserve n s = .ok u s' ↔ 0 ≤ n ∧ s' = s := by
  rw [reserve, ite_ok_iff, throw_ok_iff, pure_ok_iff, and_false, false_or, not_lt, eq_self_iff_true,
    true_and]

theorem reads_readAll {α : Type} {read : Reading α} {w : ℕ} {value : List UInt8 → α}
    (h : Reads read w value) (n : ℕ) : Reads (readAll read n) (n * w)
      fun bs => (List.range n).map fun i => value (bs.drop (i * w)) := by
  induction n with
  | zero => simpa [readAll] using reads_pure []
  | succ n ih =>
    have hsucc : Reads (readAll read (n + 1)) (w + (n * w + 0)) _ :=
      h.bind fun x => ih.bind fun xs => reads_pure (x :: xs)
    refine hsucc.congr (by rw [Nat.succ_mul]; omega) fun bs => ?_
    rw [List.range_succ_eq_map, List.map_cons, List.map_map, Nat.zero_mul, List.drop_zero]
    refine congrArg _ (List.map_congr_left fun i _ => ?_)
    rw [List.drop_drop, Function.comp_apply, Nat.succ_mul, Nat.add_comm w]

/-- The Localtime whose record begins at a position. -/
def localtimeAt (bs : List UInt8) (i : ℕ) : Localtime :=
  ⟨int32At bs i, decide (byteAt bs (i + 4) ≠ 0), byteAt bs (i + 5)⟩

@[simp] theorem localtimeAt_drop (bs : List UInt8) (n i : ℕ) :
    localtimeAt (bs.drop n) i = localtimeAt bs (n + i) := by
  simp [localtimeAt, Nat.add_assoc]

theorem reads_readLocaltime : Reads readLocaltime 6 fun bs => localtimeAt bs 0 := by
  have h : Reads readLocaltime (4 + (1 + (1 + 0))) _ :=
    reads_readInt32.bind fun gmtoff => reads_readUInt8.bind fun isdst =>
      reads_readUInt8.bind fun abbrind => reads_pure (Localtime.mk gmtoff (decide (isdst ≠ 0)) abbrind)
  refine h.congr rfl fun bs => ?_
  simp only [byteAt_drop, List.drop_drop]
  rfl

def localtimesAt (bs : List UInt8) (i n : ℕ) : List Localtime :=
  (List.range n).map fun j => localtimeAt bs (i + 6 * j)

@[simp] theorem localtimesAt_drop (bs : List UInt8) (k i n : ℕ) :
    localtimesAt (bs.drop k) i n = localtimesAt bs (k + i) n := by
  simp [localtimesAt, Nat.add_assoc]

theorem localtimesAt_succ (bs : List UInt8) (i n : ℕ) :
    localtimesAt bs i (n + 1) = localtimeAt bs i :: localtimesAt bs (i + 6) n := by
  rw [localtimesAt, List.range_succ_eq_map, List.map_cons, List.map_map]
  refine congrArg _ (List.map_congr_left fun j _ => ?_)
  rw [Function.comp_apply]
  congr 1
  omega

theorem readLocaltimes_ok_iff {n : ℕ} {s s' : FileState} {u : Unit} :
    readLocaltimes n s = .ok u s' ↔ 6 * n ≤ s.rest.length ∧ s' = { s.skip (6 * n) with
      data.localtimes := s.data.localtimes ++ localtimesAt s.rest 0 n } := by
  induction n generalizing s with
  | zero => simp [readLocaltimes, pure_ok_iff, FileState.skip, localtimesAt]
  | succ n ih =>
    have hlen : (s.skip 6).rest.length = s.rest.length - 6 := List.length_drop
    have hlist : s.data.localtimes ++ localtimesAt s.rest 0 (n + 1) =
        s.data.localtimes ++ [localtimeAt s.rest 0] ++ localtimesAt (s.skip 6).rest 0 n := by
      rw [FileState.skip, localtimesAt_drop, localtimesAt_succ, List.append_assoc,
        List.singleton_append]
    have hskip : s.skip (6 * (n + 1)) = (s.skip 6).skip (6 * n) := by
      rw [FileState.skip_skip, Nat.mul_succ, Nat.add_comm]
    simp only [readLocaltimes, bind_ok_iff, reads_readLocaltime _ _ _, modify_ok_iff, ih, hlist,
      hskip]
    constructor
    · rintro ⟨_, _, ⟨h, rfl, rfl⟩, _, _, rfl, hn, rfl⟩
      exact ⟨by simp only at hn; omega, rfl⟩
    · rintro ⟨h, rfl⟩
      exact ⟨_, _, ⟨by omega, rfl, rfl⟩, (), _, rfl, by simp only; omega, rfl⟩

/-- What the loop over the transitions makes of a pair. -/
def transitionTo (localtimes : List Localtime) (p : ℤ × ℕ) : Transition :=
  ⟨p.1, p.1 + (localtimes[p.2]?.map Localtime.gmtOffset).getD 0, p.2⟩

theorem addTransitions_cons (gmttime : ℤ) (localIdx : ℕ) (ps : List (ℤ × ℕ)) (s : FileState) :
    addTransitions ((gmttime, localIdx) :: ps) s = match s.data.localtimes[localIdx]? with
      | none => .error .outOfRange s
      | some l => addTransitions ps { s with
          data.transitions := s.data.transitions ++ [⟨gmttime, gmttime + l.gmtOffset, localIdx⟩] } := by
  change (match s.data.localtimes[localIdx]? with
    | none => throw .outOfRange
    | some l => do
      modify fun s => { s with
        data.transitions := s.data.transitions ++ [⟨gmttime, gmttime + l.gmtOffset, localIdx⟩] }
      addTransitions ps : Reading Unit) s = _
  cases s.data.localtimes[localIdx]? with
  | none => rfl
  | some l => rfl

theorem addTransitions_ok_iff {ps : List (ℤ × ℕ)} {s s' : FileState} {u : Unit} :
    addTransitions ps s = .ok u s' ↔ (∀ p ∈ ps, p.2 < s.data.localtimes.length) ∧ s' = { s with
      data.transitions := s.data.transitions ++ ps.map (transitionTo s.data.localtimes) } := by
  induction ps generalizing s with
  | nil => simp [addTransitions, pure_ok_iff]
  | cons p ps ih =>
    obtain ⟨gmttime, localIdx⟩ := p
    rw [addTransitions_cons, List.forall_mem_cons]
    cases hl : s.data.localtimes[localIdx]? with
    | none =>
      have hge : s.data.localtimes.length ≤ localIdx := List.getElem?_eq_none_iff.mp hl
      simp [hge]
    | some l =>
      have hlt : localIdx < s.data.localtimes.length := (List.getElem?_eq_some_iff.mp hl).1
      simp only [ih, hlt, true_and, List.map_cons, transitionTo, hl, Option.map_some,
        Option.getD_some, List.append_assoc, List.singleton_append]

/-! ## What a file must hold -/

section Content

variable (content : List UInt8)

def timecnt : ℕ := (int32At content 32).toNat

def typecnt : ℕ := (int32At content 36).toNat

def charcnt : ℕ := (int32At content 40).toNat

/-- The positions of the three tables behind that of the transitions. -/
def indexes : ℕ := 44 + 4 * timecnt content

def types : ℕ := indexes content + timecnt content

def chars : ℕ := types content + 6 * typecnt content

/-- The counts of the file are no negative numbers, all that they announce is there, and the
transitions lead to records that are there. -/
structure Complete : Prop where
  magic : string (content.take 4) = "TZif"
  timecnt_nonneg : 0 ≤ int32At content 32
  charcnt_nonneg : 0 ≤ int32At content 40
  le_length : chars content + charcnt content ≤ content.length
  index_lt : ∀ i < timecnt content, byteAt content (indexes content + i) < typecnt content

end Content

theorem reads_readCounts :
    Reads readCounts 40 fun bs => (int32At bs 28, int32At bs 32, int32At bs 36) := by
  have h : Reads readCounts (1 + (15 + (4 + (4 + (4 + (4 + (4 + (4 + 0)))))))) _ :=
    (reads_readBytes (n := 1) (by decide)).bind fun _ =>
    (reads_readBytes (n := 15) (by decide)).bind fun _ => reads_readInt32.bind fun _ =>
    reads_readInt32.bind fun _ => reads_readInt32.bind fun _ => reads_readInt32.bind fun timecnt =>
    reads_readInt32.bind fun typecnt => reads_readInt32.bind fun charcnt =>
    reads_pure (timecnt, typecnt, charcnt)
  refine h.congr rfl fun bs => ?_
  simp only [List.drop_drop, int32At_drop]
  rfl

/-- The pairs of the table of transitions. -/
def pairsAt (content : List UInt8) : List (ℤ × ℕ) :=
  (List.range (timecnt content)).map fun i =>
    (int32At content (44 + 4 * i), byteAt content (indexes content + i))

theorem forall_mem_pairsAt {content : List UInt8} {bound : ℕ} :
    (∀ p ∈ pairsAt content, p.2 < bound) ↔
      ∀ i < timecnt content, byteAt content (indexes content + i) < bound := by
  simp [pairsAt]

/-- What the data holds before its abbreviations are read. -/
def tablesOf (content : List UInt8) : Data where
  localtimes := localtimesAt content (types content) (typecnt content)
  transitions := (pairsAt content).map
    (transitionTo (localtimesAt content (types content) (typecnt content)))
  abbreviation := ""

theorem readTables_ok_iff {content : List UInt8} {s' : FileState} {n : ℤ} :
    readTables ⟨content, Data.empty⟩ = .ok n s' ↔ string (content.take 4) = "TZif" ∧
      0 ≤ int32At content 32 ∧ chars content ≤ content.length ∧
      (∀ i < timecnt content, byteAt content (indexes content + i) < typecnt content) ∧
      n = int32At content 40 ∧ s' = ⟨content.drop (chars content), tablesOf content⟩ := by
  rw [readTables]
  simp only [bind_ok_iff, readBytes_ok_iff, ite_ok_iff, throw_ok_iff, pure_ok_iff,
    reads_readCounts _ _ _, reads_readAll reads_readInt32 _ _ _ _,
    reads_readAll reads_readUInt8 _ _ _ _, reserve_ok_iff, readLocaltimes_ok_iff,
    addTransitions_ok_iff, FileState.skip, Int.reduceToNat, List.length_drop, List.drop_drop,
    int32At_drop, byteAt_drop, localtimesAt_drop, Nat.reduceAdd, Nat.add_zero, Nat.mul_one,
    and_assoc, exists_eq_left, exists_and_left, false_and, and_false, exists_false, false_or,
    exists_const, List.zip_map', not_not, ne_eq]
  have htime : (int32At content 32).toNat = timecnt content := rfl
  have htype : (int32At content 36).toNat = typecnt content := rfl
  have htrans (i : ℕ) : 4 + (40 + i * 4) = 44 + 4 * i := by omega
  have hindex (i : ℕ) : 4 + (40 + (timecnt content * 4 + i)) = indexes content + i := by
    rw [indexes]
    omega
  have hchars : indexes content + (timecnt content + 6 * typecnt content) = chars content := by
    rw [chars, types]
    omega
  have hpairs : (List.range (timecnt content)).map (fun i =>
      (int32At content (44 + 4 * i), byteAt content (indexes content + i))) = pairsAt content := rfl
  have htypes : indexes content + timecnt content = types content := rfl
  have hempty (l : List Localtime) : Data.empty.localtimes ++ l = l := rfl
  have hlength : (localtimesAt content (types content) (typecnt content)).length =
      typecnt content := by
    simp [localtimesAt]
  simp only [htime, htype, htrans, hindex, hchars, htypes, hpairs, hempty, hlength,
    forall_mem_pairsAt]
  have hsize : chars content = 44 + 4 * timecnt content + timecnt content + 6 * typecnt content := by
    rw [chars, types, indexes]
  constructor
  · rintro ⟨-, h₁, hmagic, h₂, hcount, h₃, h₄, h₅, hlt, rfl, rfl⟩
    exact ⟨hmagic, hcount, by omega, hlt, rfl, rfl⟩
  · rintro ⟨hmagic, hcount, hle, hlt, rfl, rfl⟩
    exact ⟨by decide, by omega, hmagic, by omega, hcount, by omega, by omega, by omega, hlt, rfl, rfl⟩

/-- The data a complete file gives. -/
def dataOf (content : List UInt8) : Data :=
  { tablesOf content with
    abbreviation := string ((content.drop (chars content)).take (charcnt content)) }

theorem readContent_ok_iff {content : List UInt8} {s' : FileState} {u : Unit} :
    readContent ⟨content, Data.empty⟩ = .ok u s' ↔ Complete content ∧
      s' = ⟨(content.drop (chars content)).drop (charcnt content), dataOf content⟩ := by
  simp only [readContent, bind_ok_iff, readTables_ok_iff, readBytes_ok_iff, modify_ok_iff]
  constructor
  · rintro ⟨_, _, ⟨hmagic, htime, hle, hlt, rfl, rfl⟩, _, _, ⟨hchar, hrest, rfl, rfl⟩, rfl⟩
    have hcount : (int32At content 40).toNat = charcnt content := rfl
    rw [hcount, List.length_drop] at hrest
    exact ⟨⟨hmagic, htime, hchar, by omega, hlt⟩, rfl⟩
  · rintro ⟨⟨hmagic, htime, hchar, hle, hlt⟩, rfl⟩
    refine ⟨_, _, ⟨hmagic, htime, by omega, hlt, rfl, rfl⟩, _, _, ⟨hchar, ?_, rfl, rfl⟩, rfl⟩
    have hcount : (int32At content 40).toNat = charcnt content := rfl
    rw [hcount, List.length_drop]
    omega

/-! ## What an exception leaves -/

/-- The operation leaves the abbreviations alone, also when it fails. -/
def Silent {α : Type} (op : Reading α) : Prop :=
  ∀ s, match op s with
    | .ok _ s' => s'.data.abbreviation = s.data.abbreviation
    | .error _ s' => s'.data.abbreviation = s.data.abbreviation

theorem Silent.bind {α β : Type} {op : Reading α} {f : α → Reading β} (h : Silent op)
    (hf : ∀ x, Silent (f x)) : Silent (op >>= f) := by
  intro s
  have hs := h s
  simp only [Bind.bind, EStateM.bind]
  cases hop : op s with
  | error e t =>
    rw [hop] at hs
    exact hs
  | ok x t =>
    rw [hop] at hs
    have ht := hf x t
    simp only
    cases hx : f x t with
    | ok y u =>
      rw [hx] at ht
      exact ht.trans hs
    | error e u =>
      rw [hx] at ht
      exact ht.trans hs

theorem silent_pure {α : Type} (a : α) : Silent (pure a : Reading α) := fun _ => rfl

theorem silent_throw {α : Type} (stop : Stop) : Silent (throw stop : Reading α) := fun _ => rfl

theorem silent_fread (n : ℕ) : Silent (fread n) := fun _ => rfl

theorem silent_ite {α : Type} {p : Prop} [Decidable p] {x y : Reading α} (hx : Silent x)
    (hy : Silent y) : Silent (if p then x else y) := by
  split
  · exact hx
  · exact hy

theorem silent_fixed {α : Type} (w : ℕ) (what : String) (value : List UInt8 → α) :
    Silent (do
      let x ← fread w
      if x.length ≠ w then throw (.logic_error what)
      return value x) :=
  (silent_fread w).bind fun _ => silent_ite ((silent_throw _).bind fun _ => silent_pure _)
    (silent_pure _)

theorem silent_readBytes (n : ℤ) : Silent (readBytes n) :=
  silent_ite ((silent_throw _).bind fun _ => silent_fixed _ _ _) (silent_fixed _ _ _)

theorem silent_readInt32 : Silent readInt32 := silent_fixed _ _ _

theorem silent_readUInt8 : Silent readUInt8 := silent_fixed _ _ _

theorem silent_readAll {α : Type} {read : Reading α} (h : Silent read) (n : ℕ) :
    Silent (readAll read n) := by
  induction n with
  | zero => exact silent_pure []
  | succ n ih => exact h.bind fun x => ih.bind fun xs => silent_pure (x :: xs)

theorem silent_readLocaltimes (n : ℕ) : Silent (readLocaltimes n) := by
  induction n with
  | zero => exact silent_pure ()
  | succ n ih =>
    have hread : Silent readLocaltime := silent_readInt32.bind fun gmtoff =>
      silent_readUInt8.bind fun isdst => silent_readUInt8.bind fun abbrind => silent_pure _
    exact hread.bind fun l => Silent.bind (fun _ => rfl) fun _ => ih

theorem silent_addTransitions (ps : List (ℤ × ℕ)) : Silent (addTransitions ps) := by
  induction ps with
  | nil => exact silent_pure ()
  | cons p ps ih =>
    intro s
    rw [addTransitions_cons]
    cases s.data.localtimes[p.2]? with
    | none => rfl
    | some l => exact ih _

theorem silent_readTables : Silent readTables := by
  have hcounts : Silent readCounts := (silent_readBytes 1).bind fun _ =>
    (silent_readBytes 15).bind fun _ => silent_readInt32.bind fun _ => silent_readInt32.bind fun _ =>
    silent_readInt32.bind fun _ => silent_readInt32.bind fun _ => silent_readInt32.bind fun _ =>
    silent_readInt32.bind fun _ => silent_pure _
  have htables (c : ℤ × ℤ × ℤ) : Silent (do
      reserve c.1
      let trans ← readAll readInt32 c.1.toNat
      let localtimes ← readAll readUInt8 c.1.toNat
      readLocaltimes c.2.1.toNat
      addTransitions (trans.zip localtimes)
      return c.2.2) :=
    (silent_ite (silent_throw _) (silent_pure _)).bind fun _ =>
    (silent_readAll silent_readInt32 _).bind fun trans =>
    (silent_readAll silent_readUInt8 _).bind fun localtimes =>
    (silent_readLocaltimes _).bind fun _ => (silent_addTransitions _).bind fun _ => silent_pure _
  exact (silent_readBytes 4).bind fun head => silent_ite
    ((silent_throw _).bind fun _ => hcounts.bind htables) (hcounts.bind htables)

theorem readContent_error {content : List UInt8} {stop : Stop} {s' : FileState}
    (h : readContent ⟨content, Data.empty⟩ = .error stop s') : s'.data.abbreviation = "" := by
  have hread : Silent (readTables >>= readBytes) := silent_readTables.bind silent_readBytes
  have hs := hread ⟨content, Data.empty⟩
  have heq : readContent = (readTables >>= readBytes) >>= fun abbreviation =>
      modify fun s => { s with data.abbreviation := abbreviation } := by
    rw [bind_assoc]
    rfl
  rw [heq] at h
  simp only [Bind.bind, EStateM.bind] at h hs
  cases htables : readTables ⟨content, Data.empty⟩ with
  | error e t =>
    rw [htables] at h hs
    cases h
    exact hs
  | ok n t =>
    rw [htables] at h hs
    simp only at h hs
    cases hbytes : readBytes n t with
    | error e u =>
      rw [hbytes] at h hs
      cases h
      exact hs
    | ok x u =>
      rw [hbytes] at h
      cases h

/-! ## Looking up times -/

/-- Every index in the data leads to an element of it. -/
structure Data.Usable (data : Data) : Prop where
  localtimes_ne : data.localtimes ≠ []
  localtimeIdx_lt : ∀ t ∈ data.transitions, t.localtimeIdx < data.localtimes.length
  arrbIdx_lt : ∀ l ∈ data.localtimes, l.arrbIdx < data.abbreviation.length

/-- In usable data `findLocaltime` finds an entry for whatever is looked up, and in whatever
order the transitions are. -/
theorem Data.Usable.findLocaltime {data : Data} (h : data.Usable) (sentry : Transition)
    (comp : Comp) : ∃ l ∈ data.localtimes, TimeZone.findLocaltime data sentry comp = some l := by
  have hget {i : ℕ} (hi : i < data.localtimes.length) :
      ∃ l ∈ data.localtimes, data.localtimes[i]? = some l :=
    ⟨_, List.getElem_mem hi, List.getElem?_eq_getElem hi⟩
  have hentry {t : Transition} (ht : t ∈ data.transitions) := hget (h.localtimeIdx_lt t ht)
  rw [TimeZone.findLocaltime]
  split
  · exact hget (List.length_pos_iff.mpr h.localtimes_ne)
  · next hfront =>
    have hbound : BinarySearch.Boundary _ data.transitions (lowerBound data.transitions sentry comp) :=
      BinarySearch.boundary_lowerBound data.transitions
    simp only
    cases htrans : data.transitions[lowerBound data.transitions sentry comp]? with
    | none =>
      cases hlast : data.transitions.getLast? with
      | none => simp [List.getLast?_eq_none_iff.mp hlast] at hfront
      | some back => simpa using hentry (List.mem_of_getLast? hlast)
    | some t =>
      simp only
      split
      · exact hentry (List.mem_of_getElem? htrans)
      · next hne =>
        split
        · next hzero =>
          have hless := hbound.behind t htrans
          rw [hzero] at htrans
          rw [List.head?_eq_getElem?, htrans, Option.all_some, Bool.not_eq_true, ← Bool.not_eq_true,
            comp.less_iff] at hfront
          rw [← Bool.not_eq_true, comp.less_iff] at hless
          rw [comp.equal_iff] at hne
          omega
        · next hzero =>
          have hlt : lowerBound data.transitions sentry comp < data.transitions.length :=
            (List.getElem?_eq_some_iff.mp htrans).1
          rw [List.getElem?_eq_getElem (by omega), Option.bind_some]
          exact hentry (List.getElem_mem _)

/-- No lookup in the data has an index out of range. -/
structure Data.Indexable (data : Data) : Prop where
  findLocaltime : ∀ sentry comp, ∃ l,
    TimeZone.findLocaltime data sentry comp = some l ∧ l.arrbIdx < data.abbreviation.length
  toLocalTime : ∀ gmtime_r seconds, (TimeZone.toLocalTime gmtime_r data seconds).isSome = true
  fromLocalTime : ∀ gmtime_r timegm tm,
    (TimeZone.fromLocalTime gmtime_r timegm data tm).isSome = true

theorem Data.Usable.indexable {data : Data} (h : data.Usable) : data.Indexable where
  findLocaltime sentry comp := by
    obtain ⟨l, hl, heq⟩ := h.findLocaltime sentry comp
    exact ⟨l, heq, h.arrbIdx_lt l hl⟩
  toLocalTime gmtime_r seconds := by
    obtain ⟨l, -, heq⟩ := h.findLocaltime ⟨seconds, 0, 0⟩ ⟨true⟩
    simp [TimeZone.toLocalTime, heq]
  fromLocalTime gmtime_r timegm tm := by
    obtain ⟨l, -, heq⟩ := h.findLocaltime ⟨0, timegm tm, 0⟩ ⟨false⟩
    obtain ⟨l', -, heq'⟩ := h.findLocaltime ⟨timegm tm - l.gmtOffset, 0, 0⟩ ⟨true⟩
    by_cases hdst : tm.tm_isdst = 0 <;> simp [TimeZone.fromLocalTime, TimeZone.toLocalTime, heq, heq', hdst]

/-- The constructor reads the file without an index out of range, and leaves an invalid
TimeZone or one whose data is usable. -/
def Sound (zonefile : Option (List UInt8)) : Prop :=
  ∃ z, construct zonefile = .ok z ∧
    (z.valid = false ∨ ∃ data, z.data_ = some data ∧ data.Usable ∧ data.Indexable)

/-- The file is complete, has a record of local time, and each record names an abbreviation
that is there. -/
structure Acceptable (content : List UInt8) : Prop extends Complete content where
  typecnt_pos : 0 < typecnt content
  abbrind_lt : ∀ j < typecnt content, byteAt content (types content + 6 * j + 5) < charcnt content

theorem usable_dataOf_iff {content : List UInt8} (h : Complete content) :
    (dataOf content).Usable ↔ Acceptable content := by
  have hlength : (dataOf content).localtimes.length = typecnt content := by
    simp [dataOf, tablesOf, localtimesAt]
  have habbreviation : (dataOf content).abbreviation.length = charcnt content := by
    have hle := h.le_length
    simp only [dataOf, string, String.length_ofList, List.length_map, List.length_take,
      List.length_drop]
    omega
  have harrb : (∀ l ∈ (dataOf content).localtimes, l.arrbIdx < (dataOf content).abbreviation.length) ↔
      ∀ j < typecnt content, byteAt content (types content + 6 * j + 5) < charcnt content := by
    rw [habbreviation]
    simp [dataOf, tablesOf, localtimesAt, localtimeAt]
  have hindex : ∀ t ∈ (dataOf content).transitions, t.localtimeIdx < (dataOf content).localtimes.length := by
    rw [hlength]
    simpa [dataOf, tablesOf, pairsAt, transitionTo] using h.index_lt
  constructor
  · intro hu
    have hpos := List.length_pos_iff.mpr hu.localtimes_ne
    rw [hlength] at hpos
    exact ⟨h, hpos, harrb.mp hu.arrbIdx_lt⟩
  · intro ha
    refine ⟨List.length_pos_iff.mp ?_, hindex, harrb.mpr ha.abbrind_lt⟩
    rw [hlength]
    exact ha.typecnt_pos

theorem not_usable_of_abbreviation {data : Data} (h : data.abbreviation = "") : ¬ data.Usable := by
  intro hu
  obtain ⟨l, hl⟩ := List.exists_mem_of_ne_nil _ hu.localtimes_ne
  have hlt := hu.arrbIdx_lt l hl
  rw [h] at hlt
  exact Nat.not_lt_zero _ hlt

/-- What a file gives is usable exactly when the file is read to its end and is acceptable. -/
theorem sound_some_iff (content : List UInt8) : Sound (some content) ↔ Acceptable content := by
  constructor
  · rintro ⟨z, hz, hcases⟩
    simp only [construct, readTimeZoneFile, EStateM.run] at hz
    cases hread : readContent ⟨content, Data.empty⟩ with
    | ok u s =>
      obtain ⟨hcomplete, rfl⟩ := readContent_ok_iff.mp hread
      rw [hread] at hz
      cases hz
      rcases hcases with hinvalid | ⟨data, hdata, husable, -⟩
      · cases hinvalid
      · cases hdata
        exact (usable_dataOf_iff hcomplete).mp husable
    | error stop s =>
      have habbreviation := readContent_error hread
      rw [hread] at hz
      cases stop with
      | logic_error what =>
        cases hz
        rcases hcases with hinvalid | ⟨data, hdata, husable, -⟩
        · cases hinvalid
        · cases hdata
          exact absurd husable (not_usable_of_abbreviation habbreviation)
      | negativeSize => cases hz
      | outOfRange => cases hz
  · intro h
    have husable := (usable_dataOf_iff h.toComplete).mpr h
    refine ⟨⟨some (dataOf content)⟩, ?_, Or.inr ⟨_, rfl, husable, husable.indexable⟩⟩
    have hread := (readContent_ok_iff (u := ())).mpr ⟨h.toComplete, rfl⟩
    simp only [construct, readTimeZoneFile, EStateM.run, hread]
    rfl

/-- The constructor keeps its promise for exactly the acceptable files. -/
theorem zoneFile_sound_iff (zonefile : Option (List UInt8)) :
    Sound zonefile ↔ ∃ content, zonefile = some content ∧ Acceptable content := by
  cases zonefile with
  | none =>
    constructor
    · rintro ⟨z, hz, hinvalid | ⟨data, hdata, husable, -⟩⟩
      · cases hz
        cases hinvalid
      · cases hz
        cases hdata
        exact absurd husable (not_usable_of_abbreviation rfl)
    · rintro ⟨content, hcontent, -⟩
      cases hcontent
  | some content => simp [sound_some_iff]

/-- A file that is not there gives a TimeZone that is valid and has no local time. -/
theorem zoneFile_missing : ¬ Sound none := by
  rintro ⟨z, hz, hinvalid | ⟨data, hdata, husable, -⟩⟩
  · cases hz
    cases hinvalid
  · cases hz
    cases hdata
    exact husable.localtimes_ne rfl

/-- The file of a zone with one record of local time. -/
def utcFile : List UInt8 :=
  [0x54, 0x5A, 0x69, 0x66] ++ List.replicate 16 0 ++ List.replicate 12 0 ++
    [0, 0, 0, 0, 0, 0, 0, 1, 0, 0, 0, 4] ++ [0, 0, 0, 0, 0, 0] ++ [0x55, 0x54, 0x43, 0]

example : (construct (some utcFile)).toOption.map (fun z => z.data_.map fun data =>
    (data.localtimes, data.abbreviation)) = some (some ([⟨0, false, 0⟩], "UTC\x00")) := by
  decide +kernel

end ReactorNet.TimeZone
