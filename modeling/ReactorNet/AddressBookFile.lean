import ReactorNet.AddressBookFormats
import ReactorNet.InputStreams

/-!
# An address book in a file

The programs that add a person to a file and list the people in it, and what they read from the
terminal.
-/
namespace ReactorNet.Tutorial

open TaggedFields WireFormat DecimalNumerals Istream

variable {w : WireFormat}

def text (s : String) : List UInt8 := s.toList.map byte

/-! ## Asking for a person -/

/-- The answer to "Is this a mobile, home, or work phone?"; any other leaves the default. -/
def phoneType (type : List UInt8) : Option Person_PhoneType :=
  if type = text "mobile" then some .MOBILE
  else if type = text "home" then some .HOME
  else if type = text "work" then some .WORK
  else none

/-- At most `fuel` turns of the loop of `PromptForAddress`, which takes a line for a number and one
for its type. -/
def phonesLoop : ℕ → Person w → Istream → Person w × Istream
  | 0, person, cin => (person, cin)
  | fuel + 1, person, cin =>
    let number := cin.getline []
    if number.1 = [] then (person, number.2)
    else
      let type := number.2.getline []
      phonesLoop fuel
        { person with phones_ := person.phones_ ++ [⟨some number.1, phoneType type.1, []⟩] } type.2

/-- Every turn but the last takes a byte. -/
def promptPhones (person : Person w) (cin : Istream) : Person w × Istream :=
  phonesLoop (cin.rest.length + 1) person cin

/-- `id` is what the variable holds before it is read. -/
def PromptForAddress (person : Person w) (id : BitVec 32) (cin : Istream) : Person w × Istream :=
  let number := cin.readInt id.toInt
  let name := (number.2.ignore 256 NEWLINE).getline person.name
  let email := name.2.getline []
  promptPhones
    { person with
      name_ := some name.1
      id_ := some (BitVec.ofInt 32 number.1)
      email_ := if email.1 = [] then person.email_ else some email.1 } email.2

/-! ## The programs -/

def listPhone (phone_number : Person_PhoneNumber w) : List UInt8 :=
  (match phone_number.type with
    | .MOBILE => text "  Mobile phone #: "
    | .HOME => text "  Home phone #: "
    | .WORK => text "  Work phone #: ") ++ phone_number.number ++ [NEWLINE]

def listPerson (person : Person w) : List UInt8 :=
  text "Person ID: " ++ numeral person.id.toInt ++ [NEWLINE] ++
    text "  Name: " ++ person.name ++ [NEWLINE] ++
    (person.email_.elim [] fun email => text "  E-mail address: " ++ email ++ [NEWLINE]) ++
    person.phones_.flatMap listPhone

def ListPeople (address_book : AddressBook w) : List UInt8 :=
  address_book.people_.flatMap listPerson

/-- The address book that `add_people` starts with; without a file it is a new one. -/
def readBook (w : WireFormat) : Option (List UInt8) → Option (AddressBook w)
  | none => some .default
  | some input => w.ParseFromIstream AddressBook.messageLite input

/-- A call of `add_people`: what is typed, and what happens to be in the variable for the id. -/
structure PromptRun where
  id : BitVec 32
  typed : List UInt8

def PromptRun.person (w : WireFormat) (r : PromptRun) : Person w :=
  (PromptForAddress .default r.id (ofBytes r.typed)).1

def AddressBook.addPerson (m : AddressBook w) (person : Person w) : AddressBook w :=
  { m with people_ := m.people_ ++ [person] }

/-- The exit status of `add_people` and the file it leaves, which it has truncated before it
writes. -/
def add_people (w : WireFormat) (file : Option (List UInt8)) (r : PromptRun) :
    ℤ × Option (List UInt8) :=
  match readBook w file with
  | none => (-1, file)
  | some address_book =>
    match w.SerializeToOstream AddressBook.messageLite (address_book.addPerson (r.person w)) with
    | none => (-1, some [])
    | some output => (0, some output)

/-- The exit status of `list_people` and what it prints. -/
def list_people (w : WireFormat) (file : Option (List UInt8)) : ℤ × List UInt8 :=
  match (file.bind (w.ParseFromIstream AddressBook.messageLite) : Option (AddressBook w)) with
  | none => (-1, [])
  | some address_book => (0, ListPeople address_book)

/-- The exit statuses of `add_people` called again and again, and the file. -/
def addAll (w : WireFormat) (file : Option (List UInt8)) :
    List PromptRun → List ℤ × Option (List UInt8)
  | [] => ([], file)
  | r :: runs =>
    let first := add_people w file r
    let rest := addAll w first.2 runs
    (first.1 :: rest.1, rest.2)

/-! ## Any answers make a person -/

theorem phonesLoop_fuel {n m : ℕ} (person : Person w) (cin : Istream)
    (hn : cin.rest.length < n) (hm : cin.rest.length < m) :
    phonesLoop n person cin = phonesLoop m person cin := by
  induction n generalizing m person cin with
  | zero => omega
  | succ n ih =>
    cases m with
    | zero => omega
    | succ m =>
      rw [phonesLoop, phonesLoop]
      by_cases hnumber : (cin.getline []).1 = []
      · simp only [if_pos hnumber]
      · simp only [if_neg hnumber]
        have hlt := length_getline_lt cin hnumber
        have hle := length_getline_le (cin.getline []).2 []
        exact ih _ _ (by omega) (by omega)

/-- The loop goes on until it gets an empty line. -/
theorem promptPhones_eq (person : Person w) (cin : Istream) : promptPhones person cin =
    if (cin.getline []).1 = [] then (person, (cin.getline []).2)
    else promptPhones
      { person with phones_ := person.phones_ ++
          [⟨some (cin.getline []).1, phoneType ((cin.getline []).2.getline []).1, []⟩] }
      ((cin.getline []).2.getline []).2 := by
  rw [promptPhones, phonesLoop]
  by_cases hnumber : (cin.getline []).1 = []
  · simp only [if_pos hnumber]
  · have hlt := length_getline_lt cin hnumber
    have hle := length_getline_le (cin.getline []).2 []
    simp only [if_neg hnumber]
    exact phonesLoop_fuel _ _ (by omega) (by omega)

/-- What a person is that has been asked for. -/
structure Asked (person : Person w) : Prop where
  initialized : person.IsInitialized = true
  unknown : person.unknown_fields = []
  phones : ∀ phone ∈ person.phones_, phone.unknown_fields = []

theorem Asked.addPhone {person : Person w} (h : Asked person) (number : List UInt8)
    (type : Option Person_PhoneType) :
    Asked { person with phones_ := person.phones_ ++ [⟨some number, type, []⟩] } := by
  refine ⟨?_, h.unknown, ?_⟩
  · have hinitialized := h.initialized
    simp only [Person.IsInitialized, Bool.and_eq_true] at hinitialized ⊢
    refine ⟨hinitialized.1, ?_⟩
    rw [List.all_append, hinitialized.2]
    rfl
  · intro phone hphone
    rcases List.mem_append.mp hphone with hold | hnew
    · exact h.phones phone hold
    · rw [List.mem_singleton.mp hnew]

theorem Asked.phonesLoop {person : Person w} (h : Asked person) (n : ℕ) (cin : Istream) :
    Asked (phonesLoop n person cin).1 := by
  induction n generalizing person cin with
  | zero => exact h
  | succ n ih =>
    rw [Tutorial.phonesLoop]
    by_cases hnumber : (cin.getline []).1 = []
    · simp only [if_pos hnumber]
      exact h
    · simp only [if_neg hnumber]
      exact ih (h.addPhone _ _) _

theorem asked_person (r : PromptRun) : Asked (r.person w) := by
  refine Asked.phonesLoop ?_ _ _
  refine ⟨rfl, rfl, fun phone hphone => ?_⟩
  cases hphone

theorem Asked.sound {person : Person w} (h : Asked person) : (Person.format w).Sound person := by
  constructor
  · intro u hu
    rw [h.unknown] at hu
    cases hu
  · intro phone hphone u hu
    rw [h.phones phone hphone] at hu
    cases hu

/-! ## The file -/

/-- The address book with more people. -/
def AddressBook.withPeople (m : AddressBook w) (people : List (Person w)) : AddressBook w :=
  { m with people_ := m.people_ ++ people }

theorem withPeople_nil (m : AddressBook w) : m.withPeople [] = m := by
  rw [AddressBook.withPeople, List.append_nil]

theorem withPeople_cons (m : AddressBook w) (person : Person w) (people : List (Person w)) :
    m.withPeople (person :: people) = (m.addPerson person).withPeople people := by
  rw [AddressBook.withPeople, AddressBook.withPeople, AddressBook.addPerson, List.append_assoc,
    List.singleton_append]

theorem byteSizeLong_withPeople (m : AddressBook w) (people : List (Person w)) :
    m.ByteSizeLong ≤ (m.withPeople people).ByteSizeLong := by
  simp only [AddressBook.ByteSizeLong, AddressBook.withPeople, List.length_append, List.map_append,
    List.sum_append]
  omega

/-- An address book that was read can be written. -/
theorem sound_readBook (hw : w.Lawful) {file : Option (List UInt8)} {book : AddressBook w}
    (h : readBook w file = some book) :
    (AddressBook.format w).Sound book ∧ book.IsInitialized = true := by
  cases file with
  | none =>
    cases h
    exact ⟨(AddressBook.lawful hw).sound_one, rfl⟩
  | some input =>
    obtain ⟨hparse, hinitialized⟩ := hw.parseFromIstream_complete _ _ _ h
    have hinto := (AddressBook.parseInto_eq hw _ _).trans hparse
    exact ⟨(AddressBook.lawful hw).sound_parse hw hinto, hinitialized⟩

variable {file : Option (List UInt8)} {book : AddressBook w} {r : PromptRun} {runs : List PromptRun}

/-- One more person. -/
theorem add_people_readBook (hw : w.Lawful) (h : readBook w file = some book)
    (hsize : (book.addPerson (r.person w)).ByteSizeLong ≤ maxSize) :
    ∃ output, add_people w file r = (0, some output) ∧
      readBook w (some output) = some (book.addPerson (r.person w)) := by
  obtain ⟨hsound, hinitialized⟩ := sound_readBook hw h
  have hasked : Asked (r.person w) := asked_person r
  have hsound' : (AddressBook.format w).Sound (book.addPerson (r.person w)) := by
    refine ⟨hsound.1, fun person hperson => ?_⟩
    rcases List.mem_append.mp hperson with hold | hnew
    · exact hsound.2 person hold
    · rw [List.mem_singleton.mp hnew]
      exact hasked.sound
  have hinitialized' : (book.addPerson (r.person w)).IsInitialized = true := by
    have hall : book.people_.all Person.IsInitialized = true := hinitialized
    rw [AddressBook.IsInitialized, AddressBook.addPerson, List.all_append, hall, List.all_cons,
      hasked.initialized]
    rfl
  have hlength := AddressBook.byteSizeLong_eq hw (book.addPerson (r.person w))
  have houtput := hw.serializeToOstream AddressBook.messageLite (book.addPerson (r.person w))
    hlength hsize
  rw [hlength] at hsize
  refine ⟨(book.addPerson (r.person w))._InternalSerialize, ?_, ?_⟩
  · rw [add_people, h]
    simp only
    rw [houtput]
    rfl
  · exact hw.parseFromIstream AddressBook.messageLite _ _
      (AddressBook.parse_serialize hw hsound' hsize) hinitialized' hsize

theorem addAll_readBook (hw : w.Lawful) (h : readBook w file = some book)
    (hsize : (book.withPeople (runs.map (PromptRun.person w))).ByteSizeLong ≤ maxSize) :
    (addAll w file runs).1 = runs.map (fun _ => 0) ∧
      readBook w (addAll w file runs).2 = some (book.withPeople (runs.map (PromptRun.person w))) ∧
      (file.isSome = true ∨ runs ≠ [] → (addAll w file runs).2.isSome = true) := by
  induction runs generalizing file book with
  | nil =>
    simp only [List.map_nil, withPeople_nil]
    exact ⟨rfl, h, fun hsome => hsome.resolve_right (absurd rfl)⟩
  | cons r runs ih =>
    simp only [List.map_cons, withPeople_cons] at hsize ⊢
    obtain ⟨output, hadd, hread⟩ :=
      add_people_readBook hw h (Nat.le_trans (byteSizeLong_withPeople _ _) hsize)
    obtain ⟨hstatuses, hbook, hsome⟩ := ih hread hsize
    simp only [addAll, hadd]
    exact ⟨congrArg (0 :: ·) hstatuses, hbook, fun _ => hsome (Or.inl rfl)⟩

/-- A file that is no address book stays as it is. -/
theorem addAll_unreadable (h : readBook w file = none) (runs : List PromptRun) :
    addAll w file runs = (runs.map fun _ => -1, file) := by
  have hadd (r : PromptRun) : add_people w file r = (-1, file) := by
    rw [add_people, h]
  induction runs with
  | nil => rfl
  | cons r runs ih =>
    simp only [addAll, hadd r, ih, List.map_cons]

theorem list_people_readBook (h : readBook w file = some book) (hfile : file.isSome = true) :
    list_people w file = (0, ListPeople book) := by
  obtain ⟨input, rfl⟩ := Option.isSome_iff_exists.mp hfile
  have hparse : w.ParseFromIstream AddressBook.messageLite input = some book := h
  rw [list_people, Option.bind_some, hparse]

/-- Whatever is typed: after any number of runs of `add_people` the file holds the people that it
held, with all their fields, and then those that were asked for, and `list_people` prints them. A
file that is not an address book is left alone. -/
theorem file_keeps_people (hw : w.Lawful) (file : Option (List UInt8)) (runs : List PromptRun) :
    (readBook w file = none → addAll w file runs = (runs.map fun _ => -1, file)) ∧
      ∀ book, readBook w file = some book →
        (book.withPeople (runs.map (PromptRun.person w))).ByteSizeLong ≤ maxSize →
        (addAll w file runs).1 = runs.map (fun _ => 0) ∧
        readBook w (addAll w file runs).2 =
          some (book.withPeople (runs.map (PromptRun.person w))) ∧
        (file.isSome = true ∨ runs ≠ [] → list_people w (addAll w file runs).2 =
          (0, ListPeople (book.withPeople (runs.map (PromptRun.person w))))) := by
  refine ⟨fun h => addAll_unreadable h runs, fun book h hsize => ?_⟩
  obtain ⟨hstatuses, hbook, hsome⟩ := addAll_readBook hw h hsize
  exact ⟨hstatuses, hbook, fun hne => list_people_readBook hbook (hsome hne)⟩

/-- A person with a telephone at work, and somebody who does not type a number for the id. -/
theorem file_keeps_people_two :
    let runs : List PromptRun := [⟨9, text "7\nA\n\n1\nwork\n\n"⟩, ⟨9, text "x\nB\n"⟩]
    (addAll base128 none runs).1 = [0, 0] ∧
      list_people base128 (addAll base128 none runs).2 =
        (0, text "Person ID: 7\n  Name: A\n  Work phone #: 1\nPerson ID: 0\n  Name: \n") := by
  intro runs
  obtain ⟨hstatuses, -, hlist⟩ := (file_keeps_people base128_lawful none runs).2 .default rfl
    (by decide +kernel)
  refine ⟨hstatuses, (hlist (Or.inr (List.cons_ne_nil _ _))).trans ?_⟩
  decide +kernel

/-! ## Typed answers -/

structure PhoneAnswer where
  number : List UInt8
  type : List UInt8
  number_ne : number ≠ []
  number_ok : NEWLINE ∉ number
  type_ok : NEWLINE ∉ type

/-- A person as somebody types it; without an email address that line is left blank. -/
structure Answers where
  id : BitVec 32
  name : List UInt8
  email : List UInt8
  phones : List PhoneAnswer
  name_ok : NEWLINE ∉ name
  email_ok : NEWLINE ∉ email

/-- The lines of the phone numbers, before what comes next. -/
def typedPhones : List PhoneAnswer → List UInt8 → List UInt8
  | [], rest => rest
  | p :: phones, rest => p.number ++ NEWLINE :: (p.type ++ NEWLINE :: typedPhones phones rest)

def Answers.typed (a : Answers) (rest : List UInt8) : List UInt8 :=
  numeral a.id.toInt ++ NEWLINE :: (a.name ++ NEWLINE :: (a.email ++ NEWLINE ::
    typedPhones a.phones (NEWLINE :: rest)))

def PhoneAnswer.phone (p : PhoneAnswer) : Person_PhoneNumber w :=
  ⟨some p.number, phoneType p.type, []⟩

def Answers.person (w : WireFormat) (a : Answers) : Person w :=
  ⟨some a.name, some a.id, if a.email = [] then none else some a.email,
    a.phones.map PhoneAnswer.phone, []⟩

theorem promptPhones_typed (person : Person w) (phones : List PhoneAnswer) (rest : List UInt8) :
    promptPhones person (ofBytes (typedPhones phones (NEWLINE :: rest))) =
      ({ person with phones_ := person.phones_ ++ phones.map PhoneAnswer.phone },
        ofBytes rest) := by
  induction phones generalizing person with
  | nil =>
    have hline : (ofBytes (NEWLINE :: rest)).getline [] = ([], ofBytes rest) :=
      getline_line List.not_mem_nil rest []
    rw [promptPhones_eq, typedPhones, hline, if_pos rfl, List.map_nil, List.append_nil]
  | cons p phones ih =>
    rw [promptPhones_eq, typedPhones, getline_line p.number_ok, if_neg p.number_ne,
      getline_line p.type_ok, ih]
    simp only [List.map_cons, List.append_assoc, List.singleton_append, PhoneAnswer.phone]

/-- The answers that were typed are read, and nothing behind them. -/
theorem promptForAddress_typed (a : Answers) (id : BitVec 32) (rest : List UInt8) :
    PromptForAddress (.default : Person w) id (ofBytes (a.typed rest)) =
      (a.person w, ofBytes rest) := by
  have hle : -2147483648 ≤ a.id.toInt := BitVec.le_toInt a.id
  have hlt : a.id.toInt < 2147483648 := BitVec.toInt_lt
  have hemail : (if a.email = [] then (Person.default : Person w).email_ else some a.email) =
      if a.email = [] then none else some a.email := rfl
  rw [PromptForAddress, Answers.typed, readInt_numeral hle (by omega)]
  simp only [ignore_newline]
  rw [getline_line a.name_ok]
  simp only
  rw [getline_line a.email_ok]
  simp only
  rw [promptPhones_typed, BitVec.ofInt_toInt, hemail]
  rfl

/-- People that are typed in, one at each run and with anything behind them, are read back and
what is behind them is not; they are in the file and on the list, one after the other. -/
theorem typed_people_listed (hw : w.Lawful) {file : Option (List UInt8)} {book : AddressBook w}
    (hfile : readBook w file = some book) {runs : List PromptRun} {answers : List Answers}
    (htyped : List.Forall₂ (fun r a => ∃ rest, r.typed = a.typed rest) runs answers)
    (hne : answers ≠ [])
    (hsize : (book.withPeople (answers.map (Answers.person w))).ByteSizeLong ≤ maxSize) :
    List.Forall₂ (fun r a => ∀ rest, r.typed = a.typed rest →
        PromptForAddress (.default : Person w) r.id (ofBytes r.typed) =
          (a.person w, ofBytes rest)) runs answers ∧
      readBook w (addAll w file runs).2 =
        some (book.withPeople (answers.map (Answers.person w))) ∧
      list_people w (addAll w file runs).2 =
        (0, ListPeople book ++ (answers.map (Answers.person w)).flatMap listPerson) := by
  have hpeople : runs.map (PromptRun.person w) = answers.map (Answers.person w) := by
    clear hne hsize
    induction htyped with
    | nil => rfl
    | cons hrun _ ih =>
      obtain ⟨rest, hrest⟩ := hrun
      rw [List.map_cons, List.map_cons, ih, PromptRun.person, hrest, promptForAddress_typed]
  have hruns : runs ≠ [] := by
    rintro rfl
    cases htyped
    exact hne rfl
  rw [← hpeople] at hsize
  obtain ⟨-, hbook, hsome⟩ := addAll_readBook hw hfile hsize
  rw [hpeople] at hbook
  refine ⟨htyped.imp fun r a _ rest hrest => ?_, hbook, ?_⟩
  · rw [hrest]
    exact promptForAddress_typed a r.id rest
  · rw [list_people_readBook hbook (hsome (Or.inr hruns)), ListPeople, AddressBook.withPeople,
      List.flatMap_append]
    rfl

theorem sampleNumber_ne : text "1" ≠ [] := by decide

theorem sampleNumber_ok : NEWLINE ∉ text "1" := by decide

theorem sampleType_ok : NEWLINE ∉ text "work" := by decide

theorem sampleName_ok : NEWLINE ∉ text "A" := by decide

theorem noEmail_ok : NEWLINE ∉ ([] : List UInt8) := List.not_mem_nil

def sampleAnswers : Answers where
  id := 7
  name := text "A"
  email := []
  phones := [⟨text "1", text "work", sampleNumber_ne, sampleNumber_ok, sampleType_ok⟩]
  name_ok := sampleName_ok
  email_ok := noEmail_ok

/-- Somebody types one more line than is read. -/
theorem typed_people_listed_one :
    list_people base128 (addAll base128 none [⟨9, sampleAnswers.typed (text "2\n")⟩]).2 =
      (0, text "Person ID: 7\n  Name: A\n  Work phone #: 1\n") := by
  have hread : readBook base128 none = some .default := rfl
  have htyped : List.Forall₂ (fun r a => ∃ rest, PromptRun.typed r = Answers.typed a rest)
      [⟨9, sampleAnswers.typed (text "2\n")⟩] [sampleAnswers] := .cons ⟨_, rfl⟩ .nil
  refine (typed_people_listed base128_lawful hread htyped (List.cons_ne_nil _ _)
    (by decide +kernel)).2.2.trans ?_
  decide +kernel

end ReactorNet.Tutorial
