import TypeSan.LogFile

/-! Compiler processes that share the text of the log file. Without the text, they are the processes
of `LoggerState`. -/
namespace TypeSan

open NamedSemaphore Runs TextLines TypeSanLoggerClass

/-- How far a process has come in `~TypeSanLoggerClass`, and in the text where it writes one. It is
aborted where `stoul` throws. -/
inductive WriterPc where
  | logger (pc : LoggerPc)
  | writing (written : Nat)
  | aborted
  deriving DecidableEq

/-- A process that is writing has not written its log, and one that is aborted has not read any. -/
def WriterPc.toLogger : WriterPc → LoggerPc
  | .logger pc => pc
  | .writing _ => .merged
  | .aborted => .entered

/-- The processes, the semaphores, and the text of the log file if there is one. -/
structure LogWriters (n : Nat) where
  sems : Sems (Fin n)
  pc : Fin n → WriterPc
  log : Fin n → TypeSanLoggerClass
  file : Option (List Char)

namespace LogWriters

variable {n : Nat}

/-- The processes have logged what they had to, and there is no semaphore. -/
def initial (calls : Fin n → List LogCall) (file : Option (List Char)) : LogWriters n :=
  ⟨.initial, fun _ => .logger .running, fun i => ofCalls (calls i), file⟩

variable (s : LogWriters n) (i : Fin n)

def setPc (pc : WriterPc) : LogWriters n := { s with pc := Function.update s.pc i pc }

/-- The log of a process once it has read the file, which is at once. -/
def readFile : Except StoulError TypeSanLoggerClass :=
  match s.file with
  | some text => (s.log i).readFile text
  | none => .ok (s.log i)

/-- The characters get to the file one by one. -/
def writeFile (written : Nat) : LogWriters n :=
  match (s.log i).writeFile[written]? with
  | some c => { s with file := some (putAt (s.file.getD []) written c) }.setPc i
      (.writing (written + 1))
  | none => s.setPc i (.logger .written)

/-- The next step of a process. -/
def step : Option (LogWriters n) :=
  match s.pc i with
  | .logger .running => some ({ s with sems := s.sems.semOpen i }.setPc i (.logger .opened))
  | .logger .opened => (s.sems.semWait i).map fun sems => { s with sems }.setPc i (.logger .entered)
  | .logger .entered =>
    match s.readFile i with
    | .ok log => some ({ s with log := Function.update s.log i log }.setPc i (.logger .merged))
    | .error _ => some (s.setPc i .aborted)
  | .logger .merged => some ({ s with file := some [] }.setPc i (.writing 0))
  | .writing written => some (s.writeFile i written)
  | .logger .written => (s.sems.semPost i).map fun sems => { s with sems }.setPc i (.logger .posted)
  | .logger .posted => some (s.setPc i (.logger .closed))
  | .logger .closed => some ({ s with sems := s.sems.semUnlink }.setPc i (.logger .finished))
  | .logger .finished | .aborted => none

/-- At most one process is between its wait and its post. -/
def Exclusive : Prop :=
  ∀ i j, (s.pc i).toLogger.Between → (s.pc j).toLogger.Between → i = j

/-- A process that creates the semaphore finds no other one between its open and its post. -/
def CreatesAlone : Prop :=
  s.pc i = .logger .running → s.sems.name = none → ∀ j, j ≠ i → ¬ (s.pc j).toLogger.Active

instance : Decidable (s.CreatesAlone i) := inferInstanceAs (Decidable (_ → _ → ∀ _, _ → ¬ _))

/-- What a step of a process does. -/
inductive Step : LogWriters n → Prop
  | opens (hpc : s.pc i = .logger .running) :
      Step ({ s with sems := s.sems.semOpen i }.setPc i (.logger .opened))
  | enters {sems : Sems (Fin n)} (hpc : s.pc i = .logger .opened)
      (hwait : s.sems.semWait i = some sems) : Step ({ s with sems }.setPc i (.logger .entered))
  | reads {log : TypeSanLoggerClass} (hpc : s.pc i = .logger .entered)
      (hread : s.readFile i = .ok log) :
      Step ({ s with log := Function.update s.log i log }.setPc i (.logger .merged))
  | aborts {e : StoulError} (hpc : s.pc i = .logger .entered) (hread : s.readFile i = .error e) :
      Step (s.setPc i .aborted)
  | truncates (hpc : s.pc i = .logger .merged) :
      Step ({ s with file := some [] }.setPc i (.writing 0))
  | puts {written : Nat} {c : Char} (hpc : s.pc i = .writing written)
      (hc : (s.log i).writeFile[written]? = some c) :
      Step ({ s with file := some (putAt (s.file.getD []) written c) }.setPc i
        (.writing (written + 1)))
  | ends {written : Nat} (hpc : s.pc i = .writing written)
      (hend : (s.log i).writeFile[written]? = none) : Step (s.setPc i (.logger .written))
  | posts {sems : Sems (Fin n)} (hpc : s.pc i = .logger .written)
      (hpost : s.sems.semPost i = some sems) : Step ({ s with sems }.setPc i (.logger .posted))
  | closes (hpc : s.pc i = .logger .posted) : Step (s.setPc i (.logger .closed))
  | unlinks (hpc : s.pc i = .logger .closed) :
      Step ({ s with sems := s.sems.semUnlink }.setPc i (.logger .finished))

variable {s i} {s' : LogWriters n}

theorem Step.of_step (h : s.step i = some s') : Step s i s' := by
  unfold step at h
  split at h
  · cases h
    exact .opens ‹_›
  · obtain ⟨sems, hwait, rfl⟩ := Option.map_eq_some_iff.mp h
    exact .enters ‹_› hwait
  · split at h
    · cases h
      exact .reads ‹_› ‹_›
    · cases h
      exact .aborts ‹_› ‹_›
  · cases h
    exact .truncates ‹_›
  · cases h
    unfold writeFile
    split
    · exact .puts ‹_› ‹_›
    · exact .ends ‹_› ‹_›
  · obtain ⟨sems, hpost, rfl⟩ := Option.map_eq_some_iff.mp h
    exact .posts ‹_› hpost
  · cases h
    exact .closes ‹_›
  · cases h
    exact .unlinks ‹_›
  · cases h
  · cases h

@[simp] theorem setPc_self (pc : WriterPc) : (s.setPc i pc).pc i = pc := Function.update_self _ _ _

theorem setPc_of_ne {j : Fin n} (pc : WriterPc) (hne : j ≠ i) : (s.setPc i pc).pc j = s.pc j :=
  Function.update_of_ne hne _ _

/-! Each step is one of the processes without the text, or none. -/

/-- Every process that reads the text reads this. -/
inductive ReadAs : Option (List Char) → Option TypeSanLog → Prop
  | none : ReadAs none none
  | some {text : List Char} {file : TypeSanLoggerClass} (hplain : Plain file.hashMapping)
      (hread : ∀ log : TypeSanLoggerClass, log.readFile text = .ok (log.add file)) :
      ReadAs (some text) (some file.toLog)

/-- The processes without the text have come as far, with the same logs. The file is read as the
same, unless a process has written the front of its log there. -/
structure Matches (s : LogWriters n) (t : LoggerState n) : Prop where
  sems : t.sems = s.sems
  pc : ∀ j, t.pc j = (s.pc j).toLogger
  log : ∀ j, t.log j = (s.log j).toLog
  plain : ∀ j, Plain (s.log j).hashMapping
  alive : ∀ j, s.pc j ≠ .aborted
  file : (∀ j written, s.pc j ≠ .writing written) → ReadAs s.file t.file
  front : ∀ j written, s.pc j = .writing written →
    s.file = some ((s.log j).writeFile.take written)

variable {t : LoggerState n} {own : Fin n → TypeSanLog} {before : Option TypeSanLog}

/-- A process that is between its wait and its post keeps the others from writing. -/
theorem Matches.not_writing (h : Matches s t) (ht : t.Exclusive) (hi : (s.pc i).toLogger.Between)
    {j : Fin n} (hj : j ≠ i) (written : Nat) : s.pc j ≠ .writing written := by
  intro hwriting
  refine hj (ht j i ?_ ?_)
  · rw [h.pc, hwriting]
    trivial
  · rw [h.pc]
    exact hi

theorem Matches.none_writing (h : Matches s t) (ht : t.Exclusive)
    (hi : (s.pc i).toLogger.Between) {pc : LoggerPc} (hpc : s.pc i = .logger pc) (j : Fin n)
    (written : Nat) : s.pc j ≠ .writing written := by
  by_cases hj : j = i
  · rw [hj, hpc]
    nofun
  · exact h.not_writing ht hi hj written

/-- A step that leaves the file. -/
theorem Matches.advance (h : Matches s t) {sems sems' : Sems (Fin n)} {pc pc' : LoggerPc}
    {log : TypeSanLoggerClass} (hsems : sems' = sems) (hi : s.pc i = .logger pc)
    (hplain : Plain log.hashMapping) :
    Matches ({ s with sems, log := Function.update s.log i log }.setPc i (.logger pc'))
      ({ t with sems := sems', log := Function.update t.log i log.toLog }.setPc i pc') where
  sems := hsems
  pc := by
    intro j
    by_cases hj : j = i
    · simp [hj, WriterPc.toLogger]
    · rw [setPc_of_ne _ hj, LoggerState.setPc_of_ne _ hj]
      exact h.pc j
  log := by
    intro j
    change Function.update t.log i log.toLog j = (Function.update s.log i log j).toLog
    by_cases hj : j = i
    · simp [hj]
    · rw [Function.update_of_ne hj, Function.update_of_ne hj]
      exact h.log j
  plain := (Function.forall_update_iff s.log fun _ log => Plain log.hashMapping).mpr
    ⟨hplain, fun j _ => h.plain j⟩
  alive := (Function.forall_update_iff s.pc fun _ pc => pc ≠ .aborted).mpr
    ⟨nofun, fun j _ => h.alive j⟩
  file := by
    intro hnone
    refine h.file fun j written hj => ?_
    have hne : j ≠ i := by
      rintro rfl
      rw [hi] at hj
      cases hj
    exact hnone j written ((setPc_of_ne _ hne).trans hj)
  front := by
    intro j written hj
    by_cases hne : j = i
    · rw [hne, setPc_self] at hj
      cases hj
    · rw [setPc_of_ne _ hne] at hj
      change s.file = some ((Function.update s.log i log j).writeFile.take written)
      rw [Function.update_of_ne hne]
      exact h.front j written hj

/-- A step that leaves the logs and the file. -/
theorem Matches.advance_pc (h : Matches s t) {sems sems' : Sems (Fin n)} {pc pc' : LoggerPc}
    (hsems : sems' = sems) (hi : s.pc i = .logger pc) :
    Matches ({ s with sems }.setPc i (.logger pc'))
      ({ t with sems := sems' }.setPc i pc') := by
  have hadvance : Matches
      ({ s with sems, log := Function.update s.log i (s.log i) }.setPc i (.logger pc'))
      ({ t with sems := sems', log := Function.update t.log i (s.log i).toLog }.setPc i pc') :=
    h.advance hsems hi (h.plain i)
  rwa [← h.log, Function.update_eq_self, Function.update_eq_self] at hadvance

/-- The process has written more of its log. -/
theorem Matches.writes (h : Matches s t) (ht : t.Exclusive) (hi : (s.pc i).toLogger = .merged)
    (written : Nat) :
    Matches ({ s with file := some ((s.log i).writeFile.take written) }.setPc i
      (.writing written)) t where
  sems := h.sems
  pc := by
    intro j
    by_cases hj : j = i
    · rw [hj, setPc_self, h.pc, hi]
      rfl
    · rw [setPc_of_ne _ hj]
      exact h.pc j
  log := h.log
  plain := h.plain
  alive := (Function.forall_update_iff s.pc fun _ pc => pc ≠ .aborted).mpr
    ⟨nofun, fun j _ => h.alive j⟩
  file := fun hnone => (hnone i written (setPc_self _)).elim
  front := by
    intro j written' hj
    by_cases hne : j = i
    · subst hne
      rw [setPc_self] at hj
      cases hj
      rfl
    · rw [setPc_of_ne _ hne] at hj
      exact (h.not_writing ht (by rw [hi]; trivial) hne written' hj).elim

/-- The process has written its log to the end. -/
theorem Matches.ends (h : Matches s t) (ht : t.Exclusive) {written : Nat}
    (hi : s.pc i = .writing written) (hend : (s.log i).writeFile[written]? = none) :
    Matches (s.setPc i (.logger .written))
      ({ t with file := some (t.log i) }.setPc i .written) where
  sems := h.sems
  pc := by
    intro j
    by_cases hj : j = i
    · simp [hj, WriterPc.toLogger]
    · rw [setPc_of_ne _ hj, LoggerState.setPc_of_ne _ hj]
      exact h.pc j
  log := h.log
  plain := h.plain
  alive := (Function.forall_update_iff s.pc fun _ pc => pc ≠ .aborted).mpr
    ⟨nofun, fun j _ => h.alive j⟩
  file := by
    intro _
    have hfile : s.file = some (s.log i).writeFile := by
      rw [h.front i written hi, List.take_of_length_le (List.getElem?_eq_none_iff.mp hend)]
    change ReadAs s.file (some (t.log i))
    rw [hfile, h.log]
    exact .some (h.plain i) fun log => readFile_writeFile (h.plain i)
  front := by
    intro j written' hj
    by_cases hne : j = i
    · rw [hne, setPc_self] at hj
      cases hj
    · rw [setPc_of_ne _ hne] at hj
      exact (h.not_writing ht (by rw [hi]; trivial) hne written' hj).elim

/-- Where nobody writes, a process can read the file, as the one without the text does. -/
theorem Matches.readFile (h : Matches s t) (hnone : ∀ j written, s.pc j ≠ .writing written)
    (i : Fin n) :
    ∃ log : TypeSanLoggerClass, s.readFile i = .ok log ∧ Plain log.hashMapping ∧
      t.readFile i = log.toLog := by
  have hfile := h.file hnone
  unfold LogWriters.readFile LoggerState.readFile
  cases hs : s.file with
  | none =>
    rw [hs] at hfile
    generalize t.file = file at hfile
    cases hfile
    exact ⟨s.log i, rfl, h.plain i, h.log i⟩
  | some text =>
    rw [hs] at hfile
    generalize t.file = file at hfile
    cases hfile with
    | @some _ file hplain hread =>
      refine ⟨(s.log i).add file, hread _, plain_union (h.plain i) hplain, ?_⟩
      simp only [h.log i, toLog_add]

theorem Matches.step (h : Matches s t) (ht : t.Exclusive) (hs : Step s i s') :
    ∃ t', (t' = t ∨ t.Step i t') ∧ Matches s' t' := by
  have hpc' := h.pc i
  cases hs with
  | opens hpc =>
    rw [hpc] at hpc'
    exact ⟨_, Or.inr (.opens hpc'), h.advance_pc (congrArg (Sems.semOpen · i) h.sems) hpc⟩
  | enters hpc hwait =>
    rw [hpc] at hpc'
    exact ⟨_, Or.inr (.enters hpc' (h.sems ▸ hwait)), h.advance_pc rfl hpc⟩
  | reads hpc hread =>
    obtain ⟨log, hlog, hplain, hread'⟩ :=
      h.readFile (h.none_writing ht (by rw [hpc]; trivial) hpc) i
    rw [hlog] at hread
    cases hread
    rw [hpc] at hpc'
    refine ⟨_, Or.inr (.reads hpc'), ?_⟩
    rw [hread']
    exact h.advance h.sems hpc hplain
  | aborts hpc hread =>
    obtain ⟨log, hlog, -⟩ := h.readFile (h.none_writing ht (by rw [hpc]; trivial) hpc) i
    rw [hlog] at hread
    cases hread
  | truncates hpc => exact ⟨t, Or.inl rfl, h.writes ht (by rw [hpc]; rfl) 0⟩
  | @puts written c hpc hc =>
    have hwrites := h.writes ht (by rw [hpc]; rfl) (written + 1)
    rw [← putAt_take hc] at hwrites
    rw [h.front i written hpc]
    exact ⟨t, Or.inl rfl, hwrites⟩
  | ends hpc hend =>
    rw [hpc] at hpc'
    exact ⟨_, Or.inr (.writes hpc'), h.ends ht hpc hend⟩
  | posts hpc hpost =>
    rw [hpc] at hpc'
    exact ⟨_, Or.inr (.posts hpc' (h.sems ▸ hpost)), h.advance_pc rfl hpc⟩
  | closes hpc =>
    rw [hpc] at hpc'
    exact ⟨_, Or.inr (.closes hpc'), h.advance_pc h.sems hpc⟩
  | unlinks hpc =>
    rw [hpc] at hpc'
    exact ⟨_, Or.inr (.unlinks hpc'), h.advance_pc (congrArg Sems.semUnlink h.sems) hpc⟩

/-! Runs. -/

/-- What the file holds, for a process that has logged nothing. -/
def contents (file : Option (List Char)) : Except StoulError TypeSanLoggerClass :=
  match file with
  | some text => new.readFile text
  | none => .ok new

/-- The file holds what it did before and what the processes have logged. -/
structure Merges (calls : Fin n → List LogCall) (before after : TypeSanLoggerClass) : Prop where
  counters : ∀ c, after.toLog.counters c =
    before.toLog.counters c + ∑ i, UInt64.ofNat ((calls i).count (.inc c))
  hashes : ∀ hash, (after.hashMapping.find hash).isSome ↔
    (before.hashMapping.find hash).isSome ∨ ∃ i name, .addHash hash name ∈ calls i
  names : ∀ hash name, after.hashMapping.find hash = some name →
    before.hashMapping.find hash = some name ∨ ∃ i, .addHash hash name ∈ calls i

variable {calls : Fin n → List LogCall} {file : Option (List Char)}
  {log after : TypeSanLoggerClass}

theorem readAs_of_contents (h : contents file = .ok log) :
    ∃ before, ReadAs file before ∧ before.getD .empty = log.toLog := by
  cases file with
  | none =>
    cases h
    exact ⟨none, .none, toLog_new.symm⟩
  | some text =>
    rcases readFile_cases text with ⟨e, herror⟩ | ⟨file, hplain, hread⟩
    · rw [contents, herror] at h
      cases h
    · rw [contents, hread, new_add] at h
      cases h
      exact ⟨some log.toLog, .some hplain hread, rfl⟩

theorem ReadAs.contents (h : ReadAs file before) :
    ∃ log, contents file = .ok log ∧ log.toLog = before.getD .empty := by
  cases h with
  | none => exact ⟨new, rfl, toLog_new⟩
  | @some text file hplain hread =>
    refine ⟨file, ?_, rfl⟩
    rw [LogWriters.contents, hread, new_add]

theorem matches_initial (hplain : ∀ i, Plain (ofCalls (calls i)).hashMapping)
    (h : ReadAs file before) :
    Matches (initial calls file) (.initial (fun i => (ofCalls (calls i)).toLog) before) where
  sems := rfl
  pc _ := rfl
  log _ := rfl
  plain := hplain
  alive _ := nofun
  file _ := h
  front _ _ := nofun

theorem Matches.createsAlone (h : Matches s t) (halone : s.CreatesAlone i) : t.CreatesAlone i := by
  intro hpc hname j hj
  rw [h.pc] at hpc ⊢
  refine halone ?_ (h.sems ▸ hname) j hj
  cases hs : s.pc i with
  | logger pc =>
    rw [hs] at hpc
    exact congrArg WriterPc.logger hpc
  | writing written =>
    rw [hs] at hpc
    cases hpc
  | aborted => exact (h.alive i hs).elim

/-- As long as every semaphore is created alone, the processes go on as those without the text. -/
theorem matches_visits {actors : List (Fin n)} (hs : Matches s t) (ht : t.Serial own before)
    (hok : Guarded step CreatesAlone s actors) (h : Visits step s actors s') :
    ∃ t', Matches s' t' ∧ t'.Serial own before := by
  refine visits_invariant (I := fun s => ∃ t, Matches s t ∧ t.Serial own before) ⟨t, hs, ht⟩ ?_
    hok h
  rintro s i s' ⟨t, hs, ht⟩ halone hstep
  obtain ⟨t', rfl | ht', hs'⟩ := hs.step ht.exclusive (.of_step hstep)
  · exact ⟨t', hs', ht⟩
  · exact ⟨t', hs', ht.step (hs.createsAlone halone) ht'⟩

theorem merges_of_collects
    (h : after.toLog.Collects log.toLog (fun i => (ofCalls (calls i)).toLog) Finset.univ) :
    Merges calls log after where
  counters c := by simpa only [ofCalls_counters] using h.counters c
  hashes hash := by
    have hhashes := h.hashes hash
    simp only [ofCalls_isSome, Finset.mem_univ, true_and] at hhashes
    exact hhashes
  names hash name hname := by
    refine (h.names hash name hname).imp_right ?_
    rintro ⟨i, -, hi⟩
    exact ⟨i, ofCalls_find hi⟩

/-- As long as every semaphore is created alone, no process throws over what it reads, however far
another one has come, and the file can be read in the end and holds what it has to. -/
theorem merges_of_guarded
    (hnames : ∀ i hash name, .addHash hash name ∈ calls i → '\n' ∉ name.toList)
    (hfile : contents file = .ok log) {actors : List (Fin n)}
    (hok : Guarded step CreatesAlone (initial calls file) actors)
    (h : Visits step (initial calls file) actors s) :
    s.Exclusive ∧ (∀ j, s.pc j ≠ .aborted) ∧
      ((∀ j, s.pc j = .logger .finished) →
        ∃ after, contents s.file = .ok after ∧ Merges calls log after) := by
  obtain ⟨before, hbefore, hlog⟩ := readAs_of_contents hfile
  have hplain (i : Fin n) : Plain (ofCalls (calls i)).hashMapping := ofCalls_plain (hnames i)
  obtain ⟨t, hs, ht⟩ := matches_visits (matches_initial hplain hbefore)
    ⟨LoggerState.ordered_initial _ _, Sems.single_initial, LoggerState.keeps_initial⟩ hok h
  refine ⟨?_, hs.alive, ?_⟩
  · intro i j hi hj
    exact ht.exclusive i j (hs.pc i ▸ hi) (hs.pc j ▸ hj)
  · intro hfinished
    have hread : ReadAs s.file t.file := hs.file fun j written hj => by
      rw [hfinished j] at hj
      cases hj
    obtain ⟨after, hafter, hlog'⟩ := hread.contents
    refine ⟨after, hafter, merges_of_collects ?_⟩
    have hcomplete := ht.complete fun j => by rw [hs.pc, hfinished]; rfl
    rw [hlog', ← hlog]
    exact hcomplete

/-- Two processes, each with a name and an object on the heap. -/
def twoLogs : Fin 2 → List LogCall
  | 0 => [.addHash 7 "A", .inc .trackedHeap]
  | 1 => [.inc .trackedHeap, .addHash 9 "B"]

/-- The second process opens the semaphore while the first is past its wait. -/
def oneWaits : List (Fin 2) := [0, 0, 1] ++ List.replicate 18 0 ++ [1] ++ List.replicate 22 1

theorem merges_of_one_waits :
    ∃ s, exec step (initial twoLogs (some "5\n5\n5\n5\n".toList)) oneWaits = some s ∧
      ∃ after, contents s.file = .ok after ∧ Merges twoLogs ⟨.empty, 5, 5, 5, 5⟩ after := by
  have hend : (exec step (initial twoLogs (some "5\n5\n5\n5\n".toList)) oneWaits).map
      (fun s => (s.pc 0, s.pc 1)) = some (.logger .finished, .logger .finished) := by
    decide +kernel
  obtain ⟨s, hs, hpc⟩ := Option.map_eq_some_iff.mp hend
  obtain ⟨h₀, h₁⟩ := Prod.mk.inj hpc
  refine ⟨s, hs, (merges_of_guarded ?_ (by decide +kernel) (by decide +kernel)
    (visits_last hs)).2.2 ?_⟩
  · intro i hash name hc
    match i with
    | 0 =>
      obtain ⟨-, rfl⟩ : hash = 7 ∧ name = "A" := by simpa [twoLogs] using hc
      decide
    | 1 =>
      obtain ⟨-, rfl⟩ : hash = 9 ∧ name = "B" := by simpa [twoLogs] using hc
      decide
  · intro j
    match j with
    | 0 => exact h₀
    | 1 => exact h₁

/-! A file that cannot be read. -/

theorem readFile_error {e : StoulError} (h : contents s.file = .error e) (i : Fin n) :
    ∃ e', s.readFile i = .error e' := by
  unfold LogWriters.readFile
  cases hfile : s.file with
  | none =>
    rw [hfile] at h
    cases h
  | some text =>
    rw [hfile] at h
    rcases readFile_cases text with ⟨e', herror⟩ | ⟨file, -, hread⟩
    · exact ⟨e', herror _⟩
    · rw [contents, hread] at h
      cases h

/-- Only how far the processes have come. -/
def bare (s : LogWriters n) : LoggerState n :=
  ⟨s.sems, WriterPc.toLogger ∘ s.pc, fun _ => .empty, none⟩

theorem bare_setPc (pc : WriterPc) : (s.setPc i pc).bare = s.bare.setPc i pc.toLogger := by
  simp only [bare, setPc, LoggerState.setPc, Function.comp_update]

/-- No process gets past the file, and none unlinks the semaphore. -/
structure Stuck (file : Option (List Char)) (s : LogWriters n) : Prop where
  file : s.file = file
  unread : ∀ j, (s.pc j).toLogger.Unread
  ordered : s.bare.Ordered
  single : s.sems.Single
  unnamed : s.sems.name = none → ∀ j, s.sems.hold j = .out

theorem stuck_initial : (initial calls file).Stuck file where
  file := rfl
  unread _ := trivial
  ordered := LoggerState.ordered_initial (fun _ => .empty) none
  single := Sems.single_initial
  unnamed _ _ := rfl

theorem Stuck.step (h : Stuck file s) {e : StoulError} (hfile : contents file = .error e)
    (hs : Step s i s') : Stuck file s' := by
  obtain ⟨hsame, hunread, hordered, hsingle, hunnamed⟩ := h
  have hi := hunread i
  have hbare : s.bare.pc i = (s.pc i).toLogger := rfl
  have hunread' (pc : WriterPc) (hpc : pc.toLogger.Unread) (j : Fin n) :
      ((s.setPc i pc).pc j).toLogger.Unread :=
    (Function.forall_update_iff s.pc fun _ pc => pc.toLogger.Unread).mpr
      ⟨hpc, fun j _ => hunread j⟩ j
  cases hs with
  | opens hpc =>
    rw [hpc] at hbare
    have hstep := LoggerState.Step.opens hbare
    refine ⟨hsame, hunread' _ trivial, ?_, ?_, fun hnone => (Sems.semOpen_name hnone).elim⟩
    · rw [bare_setPc]
      exact hordered.step hstep
    · refine LoggerState.single_step hordered hsingle ?_ hstep
      intro _ hname j _ hactive
      exact hordered.hold_ne_out hactive (hunnamed hname j)
  | enters hpc hwait =>
    rw [hpc] at hbare
    have hstep := LoggerState.Step.enters hbare hwait
    refine ⟨hsame, hunread' _ trivial, ?_, hsingle.semWait hwait, ?_⟩
    · rw [bare_setPc]
      exact hordered.step hstep
    · obtain ⟨id, hwaiting, -, rfl⟩ := Sems.semWait_eq hwait
      intro hnone
      rw [hunnamed hnone i] at hwaiting
      cases hwaiting
  | reads hpc hread =>
    obtain ⟨e', herror⟩ := readFile_error (hsame ▸ hfile) i
    rw [herror] at hread
    cases hread
  | aborts hpc hread =>
    rw [hpc] at hbare
    refine ⟨hsame, hunread' _ trivial, ?_, hsingle, hunnamed⟩
    have hsame' : s.bare.setPc i .entered = s.bare := by
      unfold LoggerState.setPc
      rw [← show s.bare.pc i = .entered from hbare, Function.update_eq_self]
    have hbare' : (s.setPc i .aborted).bare = s.bare := (bare_setPc .aborted).trans hsame'
    rw [hbare']
    exact hordered
  | truncates hpc => exact (hpc ▸ hi).elim
  | puts hpc => exact (hpc ▸ hi).elim
  | ends hpc => exact (hpc ▸ hi).elim
  | posts hpc => exact (hpc ▸ hi).elim
  | closes hpc => exact (hpc ▸ hi).elim
  | unlinks hpc => exact (hpc ▸ hi).elim

/-- Over a file that cannot be read, the first process throws with the semaphore taken. The others
wait for it, and the file stays. -/
theorem stays_of_unreadable {e : StoulError} (hfile : contents file = .error e)
    {actors : List (Fin n)} (h : Visits step (initial calls file) actors s) :
    s.file = file ∧ s.Exclusive ∧
      ∀ j, s.pc j = .logger .running ∨ s.pc j = .logger .opened ∨ s.pc j = .logger .entered ∨
        s.pc j = .aborted := by
  have hstuck : Stuck file s := visits_invariant stuck_initial
    (fun _ _ _ hs _ hstep => hs.step hfile (.of_step hstep)) guarded_true h
  refine ⟨hstuck.file, hstuck.ordered.exclusive hstuck.single, ?_⟩
  intro j
  have hunread := hstuck.unread j
  cases hpc : s.pc j with
  | aborted => simp
  | writing written => exact (hpc ▸ hunread).elim
  | logger pc =>
    rw [hpc] at hunread
    cases pc <;> first | exact hunread.elim | simp

/-- An empty file cannot be read. -/
theorem stays_of_empty :
    ∃ s, exec step (initial twoLogs (some [])) [0, 1, 0, 0] = some s ∧ s.pc 0 = .aborted ∧
      s.file = some [] ∧ s.Exclusive := by
  have hend : (exec step (initial twoLogs (some [])) [0, 1, 0, 0]).map (fun s => s.pc 0) =
      some .aborted := by
    decide +kernel
  obtain ⟨s, hs, hpc⟩ := Option.map_eq_some_iff.mp hend
  have hfile : contents (some []) = .error .invalid_argument := by decide +kernel
  obtain ⟨hsame, hexclusive, -⟩ := stays_of_unreadable hfile (visits_last hs)
  exact ⟨s, hs, hpc, hsame, hexclusive⟩

end LogWriters

end TypeSan
