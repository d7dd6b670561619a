import Mathlib.Algebra.BigOperators.Group.Finset.Basic
import Mathlib.Data.Fintype.Basic
import Mathlib.Data.UInt
import TypeSan.Library.NamedSemaphore
import TypeSan.Library.Runs

/-! The statistics of the compiler: processes that add theirs to one log file, behind a named
semaphore. -/
namespace TypeSan

open NamedSemaphore Runs

/-- The counters of `TypeSanLoggerClass`. -/
inductive LogCounter where
  | staticDownCasts | trackedStack | trackedGlobal | trackedHeap
  deriving DecidableEq

/-- What a `TypeSanLoggerClass` holds, and what a log file does. -/
structure TypeSanLog where
  counters : LogCounter → UInt64
  hashMapping : UInt64 → Option String

namespace TypeSanLog

def empty : TypeSanLog := ⟨fun _ => 0, fun _ => none⟩

/-- The file is read into a log: `+=` for the counters, and `insert` for the hashes, which keeps
what is there. -/
def read (log file : TypeSanLog) : TypeSanLog where
  counters c := log.counters c + file.counters c
  hashMapping h := (log.hashMapping h).or (file.hashMapping h)

/-- Each counter of the log is that of the file plus those of the processes, and its hash table is
the union of theirs. -/
structure Collects {n : Nat} (log file : TypeSanLog) (own : Fin n → TypeSanLog)
    (processes : Finset (Fin n)) : Prop where
  counters : ∀ c, log.counters c = file.counters c + ∑ i ∈ processes, (own i).counters c
  hashes : ∀ h, (log.hashMapping h).isSome ↔
    (file.hashMapping h).isSome ∨ ∃ i ∈ processes, ((own i).hashMapping h).isSome
  names : ∀ h name, log.hashMapping h = some name →
    file.hashMapping h = some name ∨ ∃ i ∈ processes, (own i).hashMapping h = some name

theorem collects_self {n : Nat} (file : TypeSanLog) (own : Fin n → TypeSanLog) :
    file.Collects file own ∅ where
  counters c := by simp
  hashes h := by simp
  names h name hname := Or.inl hname

/-- A process that reads the log has what was in it, and its own. -/
theorem Collects.read {n : Nat} {log file : TypeSanLog} {own : Fin n → TypeSanLog}
    {processes : Finset (Fin n)} {i : Fin n} (hlog : log.Collects file own processes)
    (hi : i ∉ processes) : ((own i).read log).Collects file own (insert i processes) where
  counters c := by
    change (own i).counters c + log.counters c = _
    rw [hlog.counters, Finset.sum_insert hi, add_left_comm]
  hashes h := by
    change ((own i).hashMapping h |>.or (log.hashMapping h)).isSome ↔ _
    rw [Option.isSome_or, Bool.or_eq_true, hlog.hashes, Finset.exists_mem_insert, or_left_comm]
  names h name hname := by
    rw [Finset.exists_mem_insert]
    rcases Option.or_eq_some_iff.mp hname with hown | ⟨-, hread⟩
    · exact Or.inr (Or.inl hown)
    · exact (hlog.names h name hread).imp_right Or.inr

end TypeSanLog

/-- How far a process has come in `~TypeSanLoggerClass`. -/
inductive LoggerPc where
  | running | opened | entered | merged | written | posted | closed | finished
  deriving DecidableEq

namespace LoggerPc

/-- Between `sem_wait` and `sem_post`. -/
def Between : LoggerPc → Prop
  | .entered | .merged | .written => True
  | _ => False

/-- Between `sem_open` and `sem_post`. -/
def Active : LoggerPc → Prop
  | .opened | .entered | .merged | .written => True
  | _ => False

/-- The process is at a semaphore as it is at this point. -/
def Holds : LoggerPc → Hold → Prop
  | .opened, h => ∃ id, h = .waiting id
  | .entered, h | .merged, h | .written, h => ∃ id, h = .inside id
  | _, h => h = .out

/-- The file has been written. -/
def Written : LoggerPc → Prop
  | .written | .posted | .closed | .finished => True
  | _ => False

/-- The file has not been read. -/
def Unread : LoggerPc → Prop
  | .running | .opened | .entered => True
  | _ => False

instance : DecidablePred Written := fun pc => by
  cases pc <;> unfold Written <;> infer_instance

instance : DecidablePred Active := fun pc => by
  cases pc <;> unfold Active <;> infer_instance

end LoggerPc

/-- The processes, the semaphores, and the log file if there is one. -/
structure LoggerState (n : Nat) where
  sems : Sems (Fin n)
  pc : Fin n → LoggerPc
  log : Fin n → TypeSanLog
  file : Option TypeSanLog

namespace LoggerState

variable {n : Nat}

/-- The processes have their own logs, and there is no semaphore. -/
def initial (own : Fin n → TypeSanLog) (file : Option TypeSanLog) : LoggerState n :=
  ⟨.initial, fun _ => .running, own, file⟩

variable (s : LoggerState n) (i : Fin n)

def setPc (pc : LoggerPc) : LoggerState n := { s with pc := Function.update s.pc i pc }

/-- The log of a process once it has read the file. -/
def readFile : TypeSanLog :=
  match s.file with
  | some file => (s.log i).read file
  | none => s.log i

/-- The next step of a process. -/
def step : Option (LoggerState n) :=
  match s.pc i with
  | .running => some ({ s with sems := s.sems.semOpen i }.setPc i .opened)
  | .opened => (s.sems.semWait i).map fun sems => { s with sems }.setPc i .entered
  | .entered => some ({ s with log := Function.update s.log i (s.readFile i) }.setPc i .merged)
  | .merged => some ({ s with file := some (s.log i) }.setPc i .written)
  | .written => (s.sems.semPost i).map fun sems => { s with sems }.setPc i .posted
  | .posted => some (s.setPc i .closed)
  | .closed => some ({ s with sems := s.sems.semUnlink }.setPc i .finished)
  | .finished => none

/-- At most one process is between its wait and its post. -/
def Exclusive : Prop := ∀ i j, (s.pc i).Between → (s.pc j).Between → i = j

/-- The contents of the log file, which is empty where there is none. -/
def contents : TypeSanLog := s.file.getD .empty

/-- The log file has what was in it, and everything that the processes have logged. -/
def Complete (own : Fin n → TypeSanLog) (file : Option TypeSanLog) : Prop :=
  s.contents.Collects (file.getD .empty) own Finset.univ

/-- A process that creates the semaphore finds no other one between its open and its post. -/
def CreatesAlone : Prop :=
  s.pc i = .running → s.sems.name = none → ∀ j, j ≠ i → ¬ (s.pc j).Active

instance : Decidable (s.CreatesAlone i) := inferInstanceAs (Decidable (_ → _ → ∀ _, _ → ¬ _))

/-- What a step of a process does. -/
inductive Step : LoggerState n → Prop
  | opens (hpc : s.pc i = .running) : Step ({ s with sems := s.sems.semOpen i }.setPc i .opened)
  | enters {sems : Sems (Fin n)} (hpc : s.pc i = .opened) (hwait : s.sems.semWait i = some sems) :
      Step ({ s with sems }.setPc i .entered)
  | reads (hpc : s.pc i = .entered) :
      Step ({ s with log := Function.update s.log i (s.readFile i) }.setPc i .merged)
  | writes (hpc : s.pc i = .merged) : Step ({ s with file := some (s.log i) }.setPc i .written)
  | posts {sems : Sems (Fin n)} (hpc : s.pc i = .written) (hpost : s.sems.semPost i = some sems) :
      Step ({ s with sems }.setPc i .posted)
  | closes (hpc : s.pc i = .posted) : Step (s.setPc i .closed)
  | unlinks (hpc : s.pc i = .closed) :
      Step ({ s with sems := s.sems.semUnlink }.setPc i .finished)

variable {s i} {t : LoggerState n}

theorem Step.of_step (h : s.step i = some t) : Step s i t := by
  unfold step at h
  split at h
  · cases h
    exact .opens ‹_›
  · obtain ⟨sems, hwait, rfl⟩ := Option.map_eq_some_iff.mp h
    exact .enters ‹_› hwait
  · cases h
    exact .reads ‹_›
  · cases h
    exact .writes ‹_›
  · obtain ⟨sems, hpost, rfl⟩ := Option.map_eq_some_iff.mp h
    exact .posts ‹_› hpost
  · cases h
    exact .closes ‹_›
  · cases h
    exact .unlinks ‹_›
  · cases h

@[simp] theorem setPc_self (pc : LoggerPc) : (s.setPc i pc).pc i = pc := Function.update_self _ _ _

theorem setPc_of_ne {j : Fin n} (pc : LoggerPc) (hne : j ≠ i) : (s.setPc i pc).pc j = s.pc j :=
  Function.update_of_ne hne _ _

/-! Every process is at a semaphore just when its program counter says so. -/

/-- The semaphores are in order, and so are the processes that are at them. -/
structure Ordered (s : LoggerState n) : Prop where
  sems : s.sems.Inv
  holds : ∀ j, (s.pc j).Holds (s.sems.hold j)

/-- One process goes on, and the others stay where they are. -/
theorem Ordered.advance (hs : s.Ordered) {pc : LoggerPc} (hpc : t.pc = Function.update s.pc i pc)
    (hsems : t.sems.Inv) (hi : pc.Holds (t.sems.hold i))
    (hothers : ∀ j, j ≠ i → t.sems.hold j = s.sems.hold j) : t.Ordered := by
  refine ⟨hsems, ?_⟩
  rw [hpc]
  apply (Function.forall_update_iff s.pc fun j pc => pc.Holds (t.sems.hold j)).mpr
  refine ⟨hi, ?_⟩
  intro j hj
  rw [hothers j hj]
  exact hs.holds j

theorem Ordered.hold_out (hs : s.Ordered) (hi : ¬ (s.pc i).Active) : s.sems.hold i = .out := by
  have hholds := hs.holds i
  cases hpc : s.pc i <;> grind [LoggerPc.Active, LoggerPc.Holds]

theorem Ordered.hold_ne_out (hs : s.Ordered) (hi : (s.pc i).Active) : s.sems.hold i ≠ .out := by
  intro hout
  have hholds := hs.holds i
  cases hpc : s.pc i <;> grind [LoggerPc.Active, LoggerPc.Holds]

theorem Ordered.between_iff (hs : s.Ordered) :
    (s.pc i).Between ↔ ∃ id, s.sems.hold i = .inside id := by
  have hholds := hs.holds i
  cases hpc : s.pc i <;> grind [LoggerPc.Between, LoggerPc.Holds]

theorem Ordered.opened_of_waiting (hs : s.Ordered) {id : Nat} (hi : s.sems.hold i = .waiting id) :
    s.pc i = .opened := by
  have hholds := hs.holds i
  cases hpc : s.pc i <;> grind [LoggerPc.Holds]

theorem ordered_initial (own : Fin n → TypeSanLog) (file : Option TypeSanLog) :
    (initial own file).Ordered := ⟨Sems.inv_initial, fun _ => rfl⟩

theorem Ordered.step (hs : s.Ordered) (h : Step s i t) : t.Ordered := by
  have hholds := hs.holds i
  cases h with
  | opens hpc =>
    rw [hpc] at hholds
    exact hs.advance rfl (hs.sems.semOpen hholds) Sems.semOpen_self fun j => Sems.semOpen_of_ne
  | enters hpc hwait =>
    exact hs.advance rfl (hs.sems.semWait hwait) (Sems.semWait_self hwait)
      fun j => Sems.semWait_of_ne hwait
  | reads hpc =>
    rw [hpc] at hholds
    exact hs.advance rfl hs.sems hholds fun j _ => rfl
  | writes hpc =>
    rw [hpc] at hholds
    exact hs.advance rfl hs.sems hholds fun j _ => rfl
  | posts hpc hpost =>
    exact hs.advance rfl (hs.sems.semPost hpost) (Sems.semPost_self hpost)
      fun j => Sems.semPost_of_ne hpost
  | closes hpc =>
    rw [hpc] at hholds
    exact hs.advance rfl hs.sems hholds fun j _ => rfl
  | unlinks hpc =>
    rw [hpc] at hholds
    exact hs.advance rfl hs.sems.semUnlink hholds fun j _ => rfl

/-- A semaphore that is created by one process alone is the only one that processes are at. -/
theorem single_step (hs : s.Ordered) (hsingle : s.sems.Single) (halone : s.CreatesAlone i)
    (h : Step s i t) : t.sems.Single := by
  cases h with
  | opens hpc =>
    apply hsingle.semOpen
    intro hname j hj
    exact hs.hold_out (halone hpc hname j hj)
  | enters hpc hwait => exact hsingle.semWait hwait
  | posts hpc hpost => exact hsingle.semPost hpost
  | unlinks hpc => exact hsingle.semUnlink
  | reads hpc => exact hsingle
  | writes hpc => exact hsingle
  | closes hpc => exact hsingle

theorem Ordered.exclusive (hs : s.Ordered) (hsingle : s.sems.Single) : s.Exclusive := by
  intro i j hi hj
  obtain ⟨id, hid⟩ := hs.between_iff.mp hi
  obtain ⟨id', hid'⟩ := hs.between_iff.mp hj
  exact hs.sems.exclusive hsingle hid hid'

/-! Where one process at a time is between its wait and its post, the file collects the logs. -/

/-- The processes that have written the file. -/
def writers (s : LoggerState n) : Finset (Fin n) := Finset.univ.filter fun j => (s.pc j).Written

theorem mem_writers : i ∈ s.writers ↔ (s.pc i).Written := by simp [writers]

/-- The file holds what was in it and what the processes that have written it have logged, and the
other processes have their own logs, or what they have read with them. -/
structure Keeps (own : Fin n → TypeSanLog) (file : Option TypeSanLog) (s : LoggerState n) :
    Prop where
  unread : ∀ j, (s.pc j).Unread → s.log j = own j
  merged : ∀ j, s.pc j = .merged → s.log j = (own j).read s.contents
  collects : s.contents.Collects (file.getD .empty) own s.writers

variable {own : Fin n → TypeSanLog} {file : Option TypeSanLog}

theorem keeps_initial : (initial own file).Keeps own file := by
  have hwriters : (initial own file).writers = ∅ := by
    ext j
    simp [mem_writers, initial, LoggerPc.Written]
  refine ⟨fun j _ => rfl, ?_, ?_⟩
  · intro j hj
    cases hj
  · rw [hwriters]
    exact TypeSanLog.collects_self _ own

theorem readFile_eq : s.readFile i = (s.log i).read s.contents := by
  unfold readFile contents
  cases s.file with
  | some file => rfl
  | none => simp [TypeSanLog.read, TypeSanLog.empty]

/-- One process goes on, with the log that it has to have then, and the others keep theirs. -/
theorem Keeps.of_update (hs : s.Keeps own file) {pc : LoggerPc}
    (hpc : t.pc = Function.update s.pc i pc) (hlog : ∀ j, j ≠ i → t.log j = s.log j)
    (hunread : pc.Unread → t.log i = own i)
    (hmerged : pc = .merged → t.log i = (own i).read t.contents)
    (hothers : ∀ j, j ≠ i → s.pc j = .merged → t.contents = s.contents)
    (hcollects : t.contents.Collects (file.getD .empty) own t.writers) : t.Keeps own file := by
  refine ⟨?_, ?_, hcollects⟩
  · rw [hpc]
    apply (Function.forall_update_iff s.pc fun j pc => pc.Unread → t.log j = own j).mpr
    refine ⟨hunread, ?_⟩
    intro j hj hother
    rw [hlog j hj]
    exact hs.unread j hother
  · rw [hpc]
    apply (Function.forall_update_iff s.pc fun j pc =>
      pc = .merged → t.log j = (own j).read t.contents).mpr
    refine ⟨hmerged, ?_⟩
    intro j hj hother
    rw [hlog j hj, hothers j hj hother]
    exact hs.merged j hother

theorem writers_of_update {pc : LoggerPc} (hpc : t.pc = Function.update s.pc i pc)
    (hwritten : pc.Written ↔ (s.pc i).Written) : t.writers = s.writers := by
  ext j
  rw [mem_writers, mem_writers, hpc]
  by_cases hj : j = i
  · rw [hj, Function.update_self, hwritten]
  · rw [Function.update_of_ne hj]

/-- A step that touches neither the logs nor the file. -/
theorem Keeps.advance (hs : s.Keeps own file) {pc : LoggerPc}
    (hpc : t.pc = Function.update s.pc i pc) (hlog : t.log = s.log) (hfile : t.file = s.file)
    (hunread : pc.Unread → (s.pc i).Unread) (hmerged : pc ≠ .merged)
    (hwritten : pc.Written ↔ (s.pc i).Written) : t.Keeps own file := by
  have hcontents : t.contents = s.contents := by rw [contents, hfile, contents]
  apply hs.of_update hpc
  · intro j _
    rw [hlog]
  · intro hpc'
    rw [hlog]
    exact hs.unread i (hunread hpc')
  · intro hpc'
    exact (hmerged hpc').elim
  · intro j _ _
    exact hcontents
  · rw [hcontents, writers_of_update hpc hwritten]
    exact hs.collects

/-- The process reads the file into its own log. -/
theorem Keeps.reads (hs : s.Keeps own file) (hpc : s.pc i = .entered) :
    ({ s with log := Function.update s.log i (s.readFile i) }.setPc i .merged).Keeps own file := by
  have hown : s.log i = own i := hs.unread i (by rw [hpc]; trivial)
  apply hs.of_update rfl
  · intro j hj
    exact Function.update_of_ne hj _ _
  · intro hunread
    exact hunread.elim
  · intro _
    refine (Function.update_self _ _ _).trans ?_
    rw [readFile_eq, hown]
    rfl
  · intro j _ _
    rfl
  · rw [writers_of_update (s := s) (i := i) rfl (by simp [hpc, LoggerPc.Written])]
    exact hs.collects

/-- The process writes the file, which no other one has read. -/
theorem Keeps.writes (hs : s.Keeps own file) (hexclusive : s.Exclusive) (hpc : s.pc i = .merged) :
    ({ s with file := some (s.log i) }.setPc i .written).Keeps own file := by
  have hi : i ∉ s.writers := by
    rw [mem_writers, hpc]
    exact id
  have hwriters : ({ s with file := some (s.log i) }.setPc i .written).writers =
      insert i s.writers := by
    ext j
    rw [Finset.mem_insert, mem_writers, mem_writers]
    by_cases hj : j = i
    · simp [hj, LoggerPc.Written]
    · rw [setPc_of_ne _ hj]
      simp [hj]
  apply hs.of_update rfl
  · intro j _
    rfl
  · intro hunread
    exact hunread.elim
  · nofun
  · intro j hj hother
    exact (hj (hexclusive j i (by rw [hother]; trivial) (by rw [hpc]; trivial))).elim
  · rw [hwriters]
    change (s.log i).Collects _ own _
    rw [hs.merged i hpc]
    exact hs.collects.read hi

open LoggerPc in
theorem Keeps.step (hs : s.Keeps own file) (hexclusive : s.Exclusive) (h : Step s i t) :
    t.Keeps own file := by
  cases h with
  | opens hpc => exact hs.advance rfl rfl rfl (by simp [hpc, Unread]) nofun (by simp [hpc, Written])
  | enters hpc hwait =>
    exact hs.advance rfl rfl rfl (by simp [hpc, Unread]) nofun (by simp [hpc, Written])
  | reads hpc => exact hs.reads hpc
  | writes hpc => exact hs.writes hexclusive hpc
  | posts hpc hpost => exact hs.advance rfl rfl rfl nofun nofun (by simp [hpc, Written])
  | closes hpc => exact hs.advance rfl rfl rfl nofun nofun (by simp [hpc, Written])
  | unlinks hpc => exact hs.advance rfl rfl rfl nofun nofun (by simp [hpc, Written])

/-! Runs. -/

theorem Ordered.exec {actors : List (Fin n)} (hs : s.Ordered)
    (h : exec LoggerState.step s actors = some t) : t.Ordered :=
  exec_invariant hs (fun _ _ _ hs _ h => hs.step (.of_step h)) guarded_true h

/-- What holds as long as every semaphore is created alone. -/
structure Serial (own : Fin n → TypeSanLog) (file : Option TypeSanLog) (s : LoggerState n) :
    Prop where
  ordered : s.Ordered
  single : s.sems.Single
  keeps : s.Keeps own file

theorem Serial.exclusive (hs : s.Serial own file) : s.Exclusive := hs.ordered.exclusive hs.single

theorem Serial.step (hs : s.Serial own file) (halone : s.CreatesAlone i) (h : Step s i t) :
    t.Serial own file :=
  ⟨hs.ordered.step h, single_step hs.ordered hs.single halone h, hs.keeps.step hs.exclusive h⟩

theorem serial_visits {actors : List (Fin n)}
    (hok : Guarded step CreatesAlone (initial own file) actors)
    (h : Visits step (initial own file) actors t) : t.Serial own file :=
  visits_invariant ⟨ordered_initial own file, Sems.single_initial, keeps_initial⟩
    (fun _ _ _ hs halone h => hs.step halone (.of_step h)) hok h

/-- When all processes have finished, all of them have written the file. -/
theorem Serial.complete (hs : s.Serial own file) (hfinished : ∀ j, s.pc j = .finished) :
    s.Complete own file := by
  have hwriters : s.writers = Finset.univ := by
    ext j
    simp [mem_writers, hfinished, LoggerPc.Written]
  have hcollects := hs.keeps.collects
  rwa [hwriters] at hcollects

/-- Two processes that are between their wait and their post. -/
theorem Ordered.not_exclusive (hs : s.Ordered) {j : Fin n} {id id' : Nat}
    (hi : s.sems.hold i = .inside id) (hj : s.sems.hold j = .inside id') (hne : i ≠ j) :
    ¬ s.Exclusive :=
  fun h => hne (h i j (hs.between_iff.mpr ⟨id, hi⟩) (hs.between_iff.mpr ⟨id', hj⟩))

theorem step_enters {sems : Sems (Fin n)} (hpc : s.pc i = .opened)
    (hwait : s.sems.semWait i = some sems) :
    s.step i = some ({ s with sems }.setPc i .entered) := by
  simp only [LoggerState.step, hpc]
  exact congrArg _ hwait

/-- A process that finds no semaphore while another one is at an older one creates a second, and
both can pass. -/
theorem Ordered.exposed (hs : s.Ordered) {j : Fin n} (hpc : s.pc i = .running)
    (hname : s.sems.name = none) (hne : j ≠ i) (hj : (s.pc j).Active) :
    ∃ more u, Runs.exec LoggerState.step s more = some u ∧ ¬ u.Exclusive := by
  have hout : s.sems.hold i = .out := hs.hold_out (by rw [hpc]; exact id)
  obtain ⟨sems, hwait, hi, hother⟩ := hs.sems.exposed hout hname hne (hs.hold_ne_out hj)
  have hopen : s.step i = some ({ s with sems := s.sems.semOpen i }.setPc i .opened) := by
    simp only [LoggerState.step, hpc]
  have henter := step_enters (setPc_self (s := { s with sems := s.sems.semOpen i }) .opened) hwait
  set u := ({ { s with sems := s.sems.semOpen i }.setPc i .opened with sems }).setPc i .entered
  have hu : Runs.exec LoggerState.step s [i, i] = some u := by
    simp [hopen, henter]
  have hordered := hs.exec hu
  rcases hother with ⟨r, id, hr, hrid⟩ | ⟨id, sems', hwait', hjid, hi'⟩
  · exact ⟨[i, i], u, hu, hordered.not_exclusive hrid hi hr⟩
  · obtain ⟨id', hwaiting, -⟩ := Sems.semWait_eq hwait'
    have hj' := step_enters (s := u) (hordered.opened_of_waiting hwaiting) hwait'
    have hrun : Runs.exec LoggerState.step s ([i, i] ++ [j]) = some _ := (exec_snoc hu).trans hj'
    exact ⟨[i, i] ++ [j], _, hrun, (hs.exec hrun).not_exclusive hjid hi' hne⟩

/-- As long as a process that creates the semaphore finds no other one between its open and its
post, at most one is between its wait and its post, and the file gets what every process has logged.
Where one does, two can get there. -/
theorem logs_complete_iff (own : Fin n → TypeSanLog) (file : Option TypeSanLog)
    (actors : List (Fin n)) :
    (Guarded step CreatesAlone (initial own file) actors →
      ∀ t, Visits step (initial own file) actors t →
        t.Exclusive ∧ ((∀ j, t.pc j = .finished) → t.Complete own file)) ∧
    (¬ Guarded step CreatesAlone (initial own file) actors →
      ∃ front more t, front <+: actors ∧
        exec step (initial own file) (front ++ more) = some t ∧ ¬ t.Exclusive) := by
  constructor
  · intro hok t ht
    have hserial := serial_visits hok ht
    exact ⟨hserial.exclusive, hserial.complete⟩
  · intro hmiss
    obtain ⟨front, i, s, hfront, hs, hmiss, -⟩ := exists_first_miss hmiss
    simp only [CreatesAlone, not_forall, not_not] at hmiss
    obtain ⟨hpc, hname, j, hne, hj⟩ := hmiss
    obtain ⟨more, t, ht, hshared⟩ := ((ordered_initial own file).exec hs).exposed hpc hname hne hj
    refine ⟨front, more, t, (List.prefix_append front [i]).trans hfront, ?_, hshared⟩
    rw [exec_append, hs]
    exact ht

/-- Two processes, of which the second opens the semaphore while the first is past its wait. -/
theorem logs_complete_of_two :
    ∃ t, exec step (initial (fun _ : Fin 2 => ⟨fun _ => 1, fun _ => none⟩) none)
        [0, 0, 1, 0, 0, 0, 1, 0, 1, 0, 1, 1, 1, 1] = some t ∧
      t.Complete (fun _ => ⟨fun _ => 1, fun _ => none⟩) none := by
  have hfinished : (exec step (initial (fun _ : Fin 2 => ⟨fun _ => 1, fun _ => none⟩) none)
      [0, 0, 1, 0, 0, 0, 1, 0, 1, 0, 1, 1, 1, 1]).map (fun t => (t.pc 0, t.pc 1)) =
      some (.finished, .finished) := by
    decide +kernel
  obtain ⟨t, ht, hend⟩ := Option.map_eq_some_iff.mp hfinished
  obtain ⟨h₀, h₁⟩ := Prod.mk.inj hend
  refine ⟨t, ht, ((logs_complete_iff _ _ _).1 (by decide +kernel) t (visits_last ht)).2 ?_⟩
  intro j
  match j with
  | 0 => exact h₀
  | 1 => exact h₁

/-- Three processes, one of which unlinks the semaphore that the second has opened, before the third
opens one. -/
def lostUpdate : List (Fin 3) :=
  [0, 0, 1, 0, 0, 0, 0, 0, 1, 2, 2, 1, 2, 1, 2, 1, 1, 1, 2, 2, 2]

/-- Each process has counted one of everything. -/
def oneEach : Fin 3 → TypeSanLog := fun _ => ⟨fun _ => 1, fun _ => none⟩

/-- Two processes are between their wait and their post, and what one of them counted is lost. -/
theorem logs_complete_fails :
    ∃ s t, exec step (initial oneEach none) (lostUpdate.take 11) = some s ∧ ¬ s.Exclusive ∧
      exec step (initial oneEach none) lostUpdate = some t ∧ (∀ j, t.pc j = .finished) ∧
      t.contents.counters .staticDownCasts = 2 ∧ ¬ t.Complete oneEach none := by
  have hboth : (exec step (initial oneEach none) (lostUpdate.take 11)).map
      (fun s => (s.pc 1, s.pc 2)) = some (.entered, .entered) := by
    decide +kernel
  have hlost : (exec step (initial oneEach none) lostUpdate).map
      (fun t => (t.pc 0, t.pc 1, t.pc 2, t.contents.counters .staticDownCasts)) =
      some (.finished, .finished, .finished, 2) := by
    decide +kernel
  obtain ⟨s, hs, hpcs⟩ := Option.map_eq_some_iff.mp hboth
  obtain ⟨t, ht, hend⟩ := Option.map_eq_some_iff.mp hlost
  simp only [Prod.mk.injEq] at hpcs hend
  obtain ⟨hs₁, hs₂⟩ := hpcs
  obtain ⟨ht₀, ht₁, ht₂, hcount⟩ := hend
  refine ⟨s, t, hs, ?_, ht, ?_, hcount, ?_⟩
  · intro hexclusive
    have h := hexclusive 1 2 (by rw [hs₁]; trivial) (by rw [hs₂]; trivial)
    exact absurd h (by decide)
  · intro j
    match j with
    | 0 => exact ht₀
    | 1 => exact ht₁
    | 2 => exact ht₂
  · intro hcomplete
    have hsum := hcomplete.counters .staticDownCasts
    rw [hcount] at hsum
    exact absurd hsum (by decide +kernel)

end LoggerState

end TypeSan
