import TypeSan.Library.SortedMap
import TypeSan.Library.TextLines
import TypeSan.LoggerSemaphore

/-! The text of the log file: what a compiler process writes, and what it makes of what it reads. -/
namespace TypeSan

open TextLines

instance instLinearOrderUInt64 : LinearOrder UInt64 where
  le_refl := UInt64.le_refl
  le_trans _ _ _ := UInt64.le_trans
  le_antisymm _ _ := UInt64.le_antisymm
  le_total := UInt64.le_total
  lt_iff_le_not_ge a b := by
    rw [UInt64.le_iff_toNat_le, UInt64.le_iff_toNat_le, UInt64.lt_iff_toNat_lt]
    omega
  toDecidableLE := inferInstance
  toDecidableEq := inferInstance
  toDecidableLT := inferInstance

structure TypeSanLoggerClass where
  hashMapping : SortedMap UInt64 String
  staticDownCasts : UInt64
  trackedStack : UInt64
  trackedGlobal : UInt64
  trackedHeap : UInt64
  deriving DecidableEq

namespace TypeSanLoggerClass

/-- What a process starts with. -/
def new : TypeSanLoggerClass := ⟨.empty, 0, 0, 0, 0⟩

def addHash (log : TypeSanLoggerClass) (hashCode : UInt64) (name : String) : TypeSanLoggerClass :=
  { log with hashMapping := log.hashMapping.insert hashCode name }

def incStaticDownCast (log : TypeSanLoggerClass) : TypeSanLoggerClass :=
  { log with staticDownCasts := log.staticDownCasts + 1 }

def incTrackedStack (log : TypeSanLoggerClass) : TypeSanLoggerClass :=
  { log with trackedStack := log.trackedStack + 1 }

def incTrackedGlobal (log : TypeSanLoggerClass) : TypeSanLoggerClass :=
  { log with trackedGlobal := log.trackedGlobal + 1 }

def incTrackedHeap (log : TypeSanLoggerClass) : TypeSanLoggerClass :=
  { log with trackedHeap := log.trackedHeap + 1 }

/-- The loop that reads the hashes. Each of its turns takes a newline at least. -/
def readHashes : Nat → Input → List Char → SortedMap UInt64 String →
    Except StoulError (SortedMap UInt64 String)
  | 0, _, _, hashMapping => .ok hashMapping
  | fuel + 1, inputFile, line, hashMapping =>
    let (inputFile, line) := getline inputFile line
    if inputFile.good then do
      let hash ← stoul line
      let (inputFile, line) := getline inputFile line
      readHashes fuel inputFile line (hashMapping.insert hash (String.ofList line))
    else .ok hashMapping

/-- One of the four lines that the destructor adds to a counter. -/
def readCounter (inputFile : Input) (line : List Char) :
    Except StoulError (UInt64 × Input × List Char) := do
  let (inputFile, line) := getline inputFile line
  return (← stoul line, inputFile, line)

/-- What the destructor reads, where there is a file. -/
def readFile (log : TypeSanLoggerClass) (text : List Char) :
    Except StoulError TypeSanLoggerClass := do
  let (staticDownCasts, inputFile, line) ← readCounter (.of text) []
  let (trackedStack, inputFile, line) ← readCounter inputFile line
  let (trackedGlobal, inputFile, line) ← readCounter inputFile line
  let (trackedHeap, inputFile, line) ← readCounter inputFile line
  let hashMapping ← readHashes (text.length + 1) inputFile line log.hashMapping
  return {
    hashMapping
    staticDownCasts := log.staticDownCasts + staticDownCasts
    trackedStack := log.trackedStack + trackedStack
    trackedGlobal := log.trackedGlobal + trackedGlobal
    trackedHeap := log.trackedHeap + trackedHeap }

/-- The lines of the hashes. -/
def hashLines (entries : List (UInt64 × String)) : List Char :=
  entries.flatMap fun hashMappingEntry =>
    endl (decimal hashMappingEntry.1) ++ endl hashMappingEntry.2.toList

/-- What the destructor writes. -/
def writeFile (log : TypeSanLoggerClass) : List Char :=
  endl (decimal log.staticDownCasts) ++ (endl (decimal log.trackedStack) ++
    (endl (decimal log.trackedGlobal) ++ (endl (decimal log.trackedHeap) ++
      hashLines log.hashMapping.entries)))

/-- No name goes over the end of its line. -/
def Plain (hashMapping : SortedMap UInt64 String) : Prop :=
  ∀ e ∈ hashMapping.entries, '\n' ∉ e.2.toList

instance (hashMapping : SortedMap UInt64 String) : Decidable (Plain hashMapping) :=
  inferInstanceAs (Decidable (∀ e ∈ hashMapping.entries, '\n' ∉ e.2.toList))

/-- One log and another one. -/
def add (log file : TypeSanLoggerClass) : TypeSanLoggerClass where
  hashMapping := log.hashMapping.union file.hashMapping
  staticDownCasts := log.staticDownCasts + file.staticDownCasts
  trackedStack := log.trackedStack + file.trackedStack
  trackedGlobal := log.trackedGlobal + file.trackedGlobal
  trackedHeap := log.trackedHeap + file.trackedHeap

/-- The log that the text stands for. -/
def toLog (log : TypeSanLoggerClass) : TypeSanLog where
  counters
    | .staticDownCasts => log.staticDownCasts
    | .trackedStack => log.trackedStack
    | .trackedGlobal => log.trackedGlobal
    | .trackedHeap => log.trackedHeap
  hashMapping := log.hashMapping.find

variable {log file : TypeSanLoggerClass} {text line : List Char}
  {hashMapping : SortedMap UInt64 String} {is : Input}

theorem toLog_add : (log.add file).toLog = log.toLog.read file.toLog := by
  simp only [toLog, TypeSanLog.read, add, TypeSanLog.mk.injEq]
  refine ⟨funext fun c => ?_, funext fun hash => SortedMap.find_union⟩
  cases c <;> rfl

theorem toLog_new : new.toLog = .empty := by
  simp only [toLog, TypeSanLog.empty, TypeSanLog.mk.injEq]
  refine ⟨funext fun c => ?_, rfl⟩
  cases c <;> rfl

theorem new_add : new.add file = file := by
  simp only [add, new, SortedMap.empty_union, zero_add]

/-! The hashes. -/

/-- Names that are read end with their lines. -/
theorem plain_insert {hash : UInt64} {name : String} (h : Plain hashMapping)
    (hname : '\n' ∉ name.toList) : Plain (hashMapping.insert hash name) := by
  intro e he
  rcases SortedMap.mem_insertEntry he with rfl | he
  · exact hname
  · exact h e he

theorem readHashes_plain {fuel : Nat} {read : SortedMap UInt64 String} (h : Plain hashMapping)
    (hline : '\n' ∉ line) (hread : readHashes fuel is line hashMapping = .ok read) :
    Plain read := by
  induction fuel generalizing is line hashMapping with
  | zero =>
    cases hread
    exact h
  | succ fuel ih =>
    have hline' := newline_notMem_getline is hline
    have hname := newline_notMem_getline (getline is line).1 hline'
    simp only [readHashes] at hread
    split at hread
    · cases hhash : stoul (getline is line).2 with
      | error e => simp [hhash] at hread; cases hread
      | ok hash =>
        rw [hhash] at hread
        exact ih (plain_insert h (by simpa using hname)) hname hread
    · cases hread
      exact h

/-- What is read is put beside what is there. -/
theorem readHashes_eq_union {fuel : Nat} (hashMapping : SortedMap UInt64 String) :
    readHashes fuel is line hashMapping =
      (readHashes fuel is line .empty).map hashMapping.union := by
  induction fuel generalizing is line hashMapping with
  | zero => rfl
  | succ fuel ih =>
    simp only [readHashes]
    split
    · cases stoul (getline is line).2 with
      | error e => rfl
      | ok hash =>
        change readHashes fuel _ _ _ = Except.map _ (readHashes fuel _ _ _)
        rw [ih, ih (SortedMap.insert _ _ _)]
        cases readHashes fuel _ _ .empty with
        | error e => rfl
        | ok read => exact congrArg Except.ok SortedMap.insert_union
    · rfl

/-- The lines of entries are read as these. -/
theorem readHashes_hashLines {fuel : Nat} {entries : List (UInt64 × String)}
    (hnames : ∀ e ∈ entries, '\n' ∉ e.2.toList) (hfuel : entries.length < fuel) :
    readHashes fuel (.of (hashLines entries)) line hashMapping =
      .ok (hashMapping.insertAll entries) := by
  induction entries generalizing fuel line hashMapping with
  | nil =>
    obtain ⟨fuel, rfl⟩ := Nat.exists_eq_succ_of_ne_zero (Nat.ne_of_gt hfuel)
    rfl
  | cons e rest ih =>
    obtain ⟨fuel, rfl⟩ := Nat.exists_eq_succ_of_ne_zero (Nat.ne_of_gt (Nat.zero_lt_of_lt hfuel))
    obtain ⟨hname, hrest⟩ := List.forall_mem_cons.mp hnames
    have htext : hashLines (e :: rest) =
        endl (decimal e.1) ++ (endl e.2.toList ++ hashLines rest) := by
      rw [hashLines, List.flatMap_cons, List.append_assoc]
      rfl
    simp only [readHashes, htext, getline_endl (newline_notMem_decimal e.1), good_of, if_true,
      stoul_decimal, getline_endl hname, String.ofList_toList]
    exact ih hrest (Nat.lt_of_succ_lt_succ hfuel)

/-! The file. -/

theorem readCounter_endl (n : UInt64) (rest : List Char) :
    readCounter (.of (endl (decimal n) ++ rest)) line = .ok (n, .of rest, decimal n) := by
  rw [readCounter, getline_endl (newline_notMem_decimal n)]
  simp only [stoul_decimal]
  rfl

theorem readCounter_plain {n : UInt64} {is' : Input} {line' : List Char} (hline : '\n' ∉ line)
    (h : readCounter is line = .ok (n, is', line')) : '\n' ∉ line' := by
  have hline' := newline_notMem_getline is hline
  rw [readCounter] at h
  cases hn : stoul (getline is line).2 with
  | error e =>
    simp only [hn] at h
    cases h
  | ok n =>
    simp only [hn] at h
    cases h
    exact hline'

/-- A text either cannot be read, or says the same to every process that reads it. -/
theorem readFile_cases (text : List Char) :
    (∃ e, ∀ log : TypeSanLoggerClass, log.readFile text = .error e) ∨
    ∃ file : TypeSanLoggerClass, Plain file.hashMapping ∧
      ∀ log : TypeSanLoggerClass, log.readFile text = .ok (log.add file) := by
  simp only [readFile, bind, Except.bind]
  cases h₁ : readCounter (.of text) [] with
  | error e => exact Or.inl ⟨e, fun _ => rfl⟩
  | ok r₁ =>
    obtain ⟨staticDownCasts, is₁, line₁⟩ := r₁
    simp only
    cases h₂ : readCounter is₁ line₁ with
    | error e => exact Or.inl ⟨e, fun _ => rfl⟩
    | ok r₂ =>
      obtain ⟨trackedStack, is₂, line₂⟩ := r₂
      simp only
      cases h₃ : readCounter is₂ line₂ with
      | error e => exact Or.inl ⟨e, fun _ => rfl⟩
      | ok r₃ =>
        obtain ⟨trackedGlobal, is₃, line₃⟩ := r₃
        simp only
        cases h₄ : readCounter is₃ line₃ with
        | error e => exact Or.inl ⟨e, fun _ => rfl⟩
        | ok r₄ =>
          obtain ⟨trackedHeap, is₄, line₄⟩ := r₄
          have hline₄ := readCounter_plain (readCounter_plain (readCounter_plain
            (readCounter_plain List.not_mem_nil h₁) h₂) h₃) h₄
          cases h : readHashes (text.length + 1) is₄ line₄ .empty with
          | error e =>
            refine Or.inl ⟨e, fun log => ?_⟩
            simp only [readHashes_eq_union log.hashMapping, h]
            rfl
          | ok hashMapping =>
            refine Or.inr ⟨⟨hashMapping, staticDownCasts, trackedStack, trackedGlobal, trackedHeap⟩,
              readHashes_plain (by simp [Plain, SortedMap.empty]) hline₄ h, fun log => ?_⟩
            simp only [readHashes_eq_union log.hashMapping, h]
            rfl

theorem length_le_hashLines (entries : List (UInt64 × String)) :
    entries.length ≤ (hashLines entries).length := by
  induction entries with
  | nil => exact Nat.le_refl _
  | cons e rest ih =>
    rw [hashLines, List.flatMap_cons, ← hashLines]
    simp only [endl, List.length_append, List.length_cons]
    omega

/-- What is written is read, if no name goes over the end of its line. -/
theorem readFile_writeFile (h : Plain file.hashMapping) :
    log.readFile file.writeFile = .ok (log.add file) := by
  have hfuel : file.hashMapping.entries.length < file.writeFile.length + 1 := by
    have hle := length_le_hashLines file.hashMapping.entries
    simp only [writeFile, List.length_append]
    omega
  rw [readFile]
  generalize file.writeFile.length + 1 = fuel at hfuel
  simp only [writeFile, readCounter_endl, bind, Except.bind, readHashes_hashLines h hfuel]
  rfl

/-- A process that has written its log gets back that log just if no name goes over the end of its
line. -/
theorem readFile_writeFile_iff : new.readFile log.writeFile = .ok log ↔ Plain log.hashMapping := by
  constructor
  · intro hread
    rcases readFile_cases log.writeFile with ⟨e, herror⟩ | ⟨file, hplain, hfile⟩
    · rw [herror] at hread
      cases hread
    · rw [hfile, new_add] at hread
      cases hread
      exact hplain
  · intro hplain
    rw [readFile_writeFile hplain, new_add]

theorem plain_union {m m' : SortedMap UInt64 String} (h : Plain m) (h' : Plain m') :
    Plain (m.union m') := by
  rintro ⟨hash, name⟩ he
  rw [SortedMap.mem_entries_iff, SortedMap.find_union, Option.or_eq_some_iff] at he
  rcases he with he | ⟨-, he⟩
  · exact h _ (SortedMap.mem_entries_iff.mpr he)
  · exact h' _ (SortedMap.mem_entries_iff.mpr he)

/-- Whatever text a process could read, what it writes is read by any other one. -/
theorem readFile_rewritten {merged other : TypeSanLoggerClass} (hplain : Plain log.hashMapping)
    (h : log.readFile text = .ok merged) :
    other.readFile merged.writeFile = .ok (other.add merged) := by
  refine readFile_writeFile ?_
  rcases readFile_cases text with ⟨e, herror⟩ | ⟨file, hfile, hread⟩
  · rw [herror] at h
    cases h
  · rw [hread] at h
    cases h
    exact plain_union hplain hfile

/-! The calls of a process. -/

/-- A call of a method that logs. -/
inductive LogCall where
  | addHash (hashCode : UInt64) (name : String)
  | inc (counter : LogCounter)
  deriving DecidableEq

/-- The name that a call gives to the hash. -/
def LogCall.nameOf (hash : UInt64) : LogCall → Option String
  | .addHash hashCode name => if hash = hashCode then some name else none
  | .inc _ => none

def call (log : TypeSanLoggerClass) : LogCall → TypeSanLoggerClass
  | .addHash hashCode name => log.addHash hashCode name
  | .inc .staticDownCasts => log.incStaticDownCast
  | .inc .trackedStack => log.incTrackedStack
  | .inc .trackedGlobal => log.incTrackedGlobal
  | .inc .trackedHeap => log.incTrackedHeap

/-- The log of a process that makes these calls. -/
def ofCalls (calls : List LogCall) : TypeSanLoggerClass := calls.foldl call new

theorem ofCalls_snoc (calls : List LogCall) (c : LogCall) :
    ofCalls (calls ++ [c]) = (ofCalls calls).call c := by
  rw [ofCalls, List.foldl_append]
  rfl

theorem ofCalls_counters (calls : List LogCall) (counter : LogCounter) :
    (ofCalls calls).toLog.counters counter = UInt64.ofNat (calls.count (.inc counter)) := by
  induction calls using List.reverseRecOn with
  | nil => cases counter <;> rfl
  | append_singleton calls c ih =>
    rw [ofCalls_snoc, List.count_append, UInt64.ofNat_add, ← ih]
    cases c with
    | addHash hashCode name => cases counter <;> simp [call, addHash, toLog]
    | inc counter' =>
      cases counter' <;> cases counter <;>
        simp [call, incStaticDownCast, incTrackedStack, incTrackedGlobal, incTrackedHeap, toLog]

/-- The hashes that have been added, each with the name that came first. -/
theorem ofCalls_hashes (calls : List LogCall) (hash : UInt64) :
    (ofCalls calls).toLog.hashMapping hash = calls.findSome? (LogCall.nameOf hash) := by
  induction calls using List.reverseRecOn with
  | nil => rfl
  | append_singleton calls c ih =>
    rw [ofCalls_snoc, List.findSome?_append, ← ih]
    cases c with
    | addHash hashCode name =>
      exact (SortedMap.find_insert hash).trans (by simp [toLog, LogCall.nameOf])
    | inc counter => cases counter <;> exact (Option.or_none).symm

theorem ofCalls_find {calls : List LogCall} {hash : UInt64} {name : String}
    (h : (ofCalls calls).toLog.hashMapping hash = some name) : .addHash hash name ∈ calls := by
  rw [ofCalls_hashes] at h
  obtain ⟨c, hc, hfound⟩ := List.exists_of_findSome?_eq_some h
  cases c with
  | inc counter => cases hfound
  | addHash hashCode name' =>
    obtain ⟨rfl, hname⟩ := Option.ite_none_right_eq_some.mp hfound
    cases hname
    exact hc

theorem ofCalls_isSome {calls : List LogCall} {hash : UInt64} :
    ((ofCalls calls).toLog.hashMapping hash).isSome ↔ ∃ name, .addHash hash name ∈ calls := by
  constructor
  · intro hsome
    obtain ⟨name, hname⟩ := Option.isSome_iff_exists.mp hsome
    exact ⟨name, ofCalls_find hname⟩
  · rintro ⟨name, hc⟩
    rw [ofCalls_hashes, List.findSome?_isSome_iff]
    exact ⟨_, hc, by simp [LogCall.nameOf]⟩

theorem ofCalls_plain {calls : List LogCall}
    (h : ∀ hashCode name, .addHash hashCode name ∈ calls → '\n' ∉ name.toList) :
    Plain (ofCalls calls).hashMapping := by
  induction calls using List.reverseRecOn with
  | nil => simp [ofCalls, new, Plain, SortedMap.empty]
  | append_singleton calls c ih =>
    have hcalls := ih fun hashCode name hc => h hashCode name (List.mem_append_left _ hc)
    rw [ofCalls_snoc]
    cases c with
    | addHash hashCode name => exact plain_insert hcalls (h hashCode name (by simp))
    | inc counter => cases counter <;> exact hcalls

end TypeSanLoggerClass

end TypeSan
