import TypeSan.GlobalsPart
import TypeSan.HeapPart
import TypeSan.ThreadsPart

/-! A process: its heap, its threads with their tracked stacks, its segments with globals, and
whatever else it maps, all on one page table and one memory. -/
namespace TypeSan

open PageMap Rounding Runs SharedStore WordMemory

inductive ProcessPart (Segment : Type) where
  | heap
  | threads
  | globals (segment : Segment)
  | other
  deriving DecidableEq

/-- An object that the program gives a type: a block of the heap, a tracked object on a thread's
stack, or a global of a module. -/
inductive ProcessObject (Segment : Type) where
  | block (ptr : Nat)
  | onStack (thread : Nat) (o : StackObject)
  | global (segment : Segment) (u : GlobalsUnit) (GV : GlobalVariable)

/-- The type that an update gives an object: the tables of the module that makes it, the struct with
its count, and the bytes of the object. -/
structure Typing where
  addrOf : String → Nat
  element : StructType
  count : Nat
  base : Nat
  size : Nat

/-- Each byte of the object finds its base and its table. -/
def Typing.FoundIn (typing : Typing) (m : ProcessMemory) : Prop :=
  ∀ x, typing.base ≤ x → x < typing.base + typing.size → lookupMetadata m.mem m.pageTable x =
    some (MetallocUpdate.ptrToStore typing.element typing.base,
      MetallocUpdate.typeInfoPtrInt typing.addrOf typing.element typing.count)

section Process

variable {Segment : Type} (G : Gperftools) (segments : Segment → GlobalsSegment)
  (units : Segment → List GlobalsUnit)

def processParts : ProcessPart Segment → Part ProcessMemory Cell
  | .heap => heapPart G
  | .threads => threadsPart
  | .globals segment => globalsPart (segments segment) (units segment)
  | .other => otherPart

abbrev Process := System (processParts G segments units)

abbrev ProcessEvent := (i : ProcessPart Segment) × (processParts G segments units i).Event

/-- The event gives the object a type: the update behind an allocation, the one behind an alloca, or
the constructor of a module that updates its globals. -/
inductive GivesType : ProcessEvent G segments units → ProcessObject Segment → Typing → Prop
  | block (addrOf : String → Nat) (ptr : Nat) (u : MetallocUpdate) (E : StructType) (c : Nat)
      (htarget : u.target = some (E, c)) :
      GivesType ⟨.heap, HeapPartEvent.step addrOf (.update ptr u)⟩ (.block ptr)
        ⟨addrOf, E, c, ptr, u.filledBytes E c⟩
  | onStack (addrOf : String → Nat) (i : Nat) (o : StackObject) (AllocatedType : Ty)
      (constant : Bool) (arraySize : Nat) (E : StructType) (c : Nat)
      (htarget : (allocaUpdate AllocatedType constant arraySize).target = some (E, c))
      (hpos : 0 < arraySize * AllocatedType.allocSize) :
      GivesType ⟨.threads, (addrOf, ThreadEvent.update i o AllocatedType constant arraySize)⟩
        (.onStack i o) ⟨addrOf, E, c, o.start, o.size⟩
  | global (segment : Segment) (u : GlobalsUnit) (GV : GlobalVariable) (E : StructType) (c : Nat)
      (hGV : GV ∈ trackedGlobals u.globals) (hundisturbed : u.Undisturbed (units segment) GV)
      (htarget : GV.update.target = some (E, c)) :
      GivesType ⟨.globals segment, GlobalsEvent.construct u⟩ (.global segment u GV)
        ⟨u.addrOf, E, c, GV.address, GV.size⟩

variable {G segments units}

/-- The event neither types the object again nor ends its life. -/
def ProcessObject.Keeps (s : Process G segments units) (e : ProcessEvent G segments units) :
    ProcessObject Segment → Prop
  | .block ptr => ∀ e', e = ⟨.heap, e'⟩ → KeepsHeapBlock G ptr (s.part .heap) s.store e'
  | .onStack i o => ∀ e', e = ⟨.threads, e'⟩ → KeepsAlloca i o (s.part .threads) s.store e'
  | .global .. => True

variable [DecidableEq Segment] {s₀ s t s' : Process G segments units}
  {history events : List (ProcessEvent G segments units)} {e : ProcessEvent G segments units}
  {o : ProcessObject Segment} {typing : Typing}

omit [DecidableEq Segment] in
theorem processParts_lawful (hholds : ∀ g, ∀ u ∈ units g, (segments g).Holds u)
    (i : ProcessPart Segment) :
    (processParts G segments units i).Lawful Cell.read := by
  cases i with
  | heap => exact heapPart_lawful G
  | threads => exact threadsPart_lawful
  | globals segment => exact globalsPart_lawful (hholds segment)
  | other => exact otherPart_lawful

/-! The start of a process. -/

/-- Nothing is allocated, no thread has a stack, and the segments are registered. -/
structure Begins (s : Process G segments units) : Prop where
  heap : s.part .heap = .initial
  threads : ∃ page mem, RunningThreads.start page mem = some (s.part .threads)
  globals : ∀ segment, (segments segment).RegisteredIn s.store.run
  null_page : s.store.pageTable 0 = 0
  null_unmapped : s.store.mem 0 = none
  apart : ∀ i j, i ≠ j → Disjoint ((processParts G segments units i).owns (s.part i))
    ((processParts G segments units j).owns (s.part j))

omit [DecidableEq Segment] in
theorem Begins.inv (h : Begins s) : s.Inv := by
  refine ⟨fun i => ?_, h.apart⟩
  cases i with
  | heap =>
    have hheap : (HeapState.initial.onMemory HeapState.initial.memory).InOrder :=
      HeapState.initial_inOrder
    have hinv : (HeapState.initial.onMemory s.store).InOrder :=
      (hheap.congr (fun _ _ hpage => by cases hpage) (fun _ _ hpage => by cases hpage) h.null_page
        h.null_unmapped).1
    rw [← h.heap] at hinv
    exact hinv
  | threads =>
    obtain ⟨page, mem, hstart⟩ := h.threads
    have hsound := RunningThreads.start_sound hstart
    have hidle (k : Nat) : ((s.part .threads).threads.threads k).stage = .idle := by
      obtain ⟨threads, hthreads, heq⟩ := Option.map_eq_some_iff.mp hstart
      rw [← heq]
      exact congrArg StackThread.stage ((StackState.start_eq hthreads).2.2.1 k)
    refine ⟨fun k => ?_, fun k => (hsound.stack k).congr rfl rfl⟩
    refine (hsound.thread k).frame rfl (fun _ _ _ _ ho => ho) (fun hlive => ?_) (fun hun => ?_) rfl
    · cases hlive.symm.trans (hidle k)
    · cases hun.symm.trans (hidle k)
  | globals segment => exact h.globals segment
  | other => trivial

/-! Each kind of object: the step that gives it its type, and the rest of the run. -/

section Typed

variable (hholds : ∀ g, ∀ u ∈ units g, (segments g).Holds u) (h : s.Inv) (hok : s.Orderly e)
  (hs : System.step s e = some t) (hok' : Guarded System.step System.Orderly t events)
  (hs' : exec System.step t events = some s')
include hholds h hok hs hok' hs'

theorem block_foundIn {addrOf : String → Nat} {ptr c : Nat} {u : MetallocUpdate} {E : StructType}
    (he : e = ⟨.heap, HeapPartEvent.step addrOf (.update ptr u)⟩) (htarget : u.target = some (E, c))
    (hkeeps : Guarded System.step (fun s e => (ProcessObject.block ptr).Keeps s e) t events) :
    0 < ptr ∧ ptr + u.filledBytes E c ≤ 2 ^ 48 ∧
      Typing.FoundIn ⟨addrOf, E, c, ptr, u.filledBytes E c⟩ s'.store := by
  subst he
  have hlawful := processParts_lawful (G := G) hholds
  obtain ⟨q, hq, heq⟩ := Option.map_eq_some_iff.mp (System.step_own hs)
  obtain ⟨hpart, hstore⟩ := Prod.mk.inj heq
  obtain ⟨q, htype, rfl⟩ := Option.map_eq_some_iff.mp hq
  have hi : ((s.part .heap).onMemory s.store).InOrder := h.part .heap
  obtain ⟨-, hlive, -, htyped⟩ := hi.typeBlock htype
  obtain ⟨⟨size, hsize, hle⟩, hfilled⟩ := htyped E c htarget
  obtain ⟨hpos, hend⟩ := hi.block_end hsize
  -- the rest of the run keeps what the bytes find right behind the update
  have hheld : HoldsBlock ptr size (lookupMetadata t.store.mem t.store.pageTable)
      (t.part .heap) t.store := by
    refine ⟨?_, fun _ _ _ => rfl⟩
    rw [← hpart, ← hsize, ← hlive]
    rfl
  obtain ⟨-, -, hlookup⟩ := System.exec_keeps hlawful .heap
    (HoldsBlock ptr size (lookupMetadata t.store.mem t.store.pageTable)) (KeepsHeapBlock G ptr)
    (fun _ _ _ ht hheld hagree => HoldsBlock.agree hheld ht hagree)
    (fun _ _ _ _ _ ht hok hkeeps hheld hstep => hheld.step ht hok hkeeps hstep)
    (System.step_inv hlawful h hok hs) hheld hok' hkeeps hs'
  refine ⟨hpos, by omega, fun x hlo hhi => ?_⟩
  rw [hlookup x hlo (by simp only at hhi; omega), ← hstore]
  exact hfilled x hlo hhi

theorem alloca_foundIn {addrOf : String → Nat} {i : Nat} {object : StackObject}
    {AllocatedType : Ty} {constant : Bool} {arraySize c : Nat} {E : StructType}
    (he : e = ⟨.threads, (addrOf, ThreadEvent.update i object AllocatedType constant arraySize)⟩)
    (htarget : (allocaUpdate AllocatedType constant arraySize).target = some (E, c))
    (hpos : 0 < arraySize * AllocatedType.allocSize)
    (hkeeps : Guarded System.step (fun s e => (ProcessObject.onStack i object).Keeps s e) t
      events) :
    0 < object.start ∧ object.start + object.size ≤ 2 ^ 48 ∧
      Typing.FoundIn ⟨addrOf, E, c, object.start, object.size⟩ s'.store := by
  subst he
  have hlawful := processParts_lawful (G := G) hholds
  obtain ⟨q, hq, heq⟩ := Option.map_eq_some_iff.mp (System.step_own hs)
  obtain ⟨hpart, hstore⟩ := Prod.mk.inj heq
  have hsound : ((s.part .threads).onMemory s.store).Sound := h.part .threads
  obtain ⟨hlive, hend, hbase, hof, htyped⟩ := RunningThreads.step_update hsound hok.1.1 hq
  have hfilled := filledBytes_alloca_eq htarget hof hpos
  have hheld : HoldsAlloca i object (lookupMetadata t.store.mem t.store.pageTable)
      (t.part .threads) t.store := by
    refine ⟨?_, fun _ _ => rfl⟩
    rw [← hpart]
    exact hlive
  obtain ⟨-, -, hlookup⟩ := System.exec_keeps hlawful .threads
    (HoldsAlloca i object (lookupMetadata t.store.mem t.store.pageTable)) (KeepsAlloca i object)
    (fun _ _ _ ht hheld hagree => HoldsAlloca.agree hheld ht hagree)
    (fun _ _ _ _ _ ht hok hkeeps hheld hstep => hheld.step ht hok hkeeps hstep)
    (System.step_inv hlawful h hok hs) hheld hok' hkeeps hs'
  refine ⟨hbase, by omega, fun x hlo hhi => ?_⟩
  rw [hlookup x ⟨hlo, hhi⟩, ← hstore]
  refine htyped E c htarget x hlo ?_
  rw [hfilled]
  exact hhi

theorem global_foundIn {segment : Segment} {u : GlobalsUnit} {GV : GlobalVariable} {E : StructType}
    {c : Nat} (he : e = ⟨.globals segment, GlobalsEvent.construct u⟩)
    (hGV : GV ∈ trackedGlobals u.globals) (hundisturbed : u.Undisturbed (units segment) GV)
    (htarget : GV.update.target = some (E, c)) :
    0 < GV.address ∧ GV.address + GV.size ≤ 2 ^ 48 ∧
      Typing.FoundIn ⟨u.addrOf, E, c, GV.address, GV.size⟩ s'.store := by
  subst he
  have hlawful := processParts_lawful (G := G) hholds
  have hu : u ∈ units segment := hok.1.1
  have hreg : (segments segment).RegisteredIn s.store.run := h.part (.globals segment)
  obtain ⟨hstart, -, hinside⟩ := hholds segment u hu GV hGV
  have hpos := hreg.start_pos
  have hfits := hreg.fits
  have hheld : HoldsGlobal u GV t.store :=
    HoldsGlobal.of_construct (hholds segment) hu hGV hreg hundisturbed (System.step_own hs)
  obtain ⟨-, hlookup⟩ := System.exec_keeps hlawful (.globals segment)
    (fun _ m => HoldsGlobal u GV m) (fun _ _ _ => True)
    (fun _ _ _ ht hheld hagree => HoldsGlobal.agree (hholds segment) hu hGV hheld ht hagree)
    (fun _ _ _ _ _ ht hok _ hheld hstep =>
      HoldsGlobal.step (hholds segment) hu hGV hheld ht hundisturbed hok.1 hstep)
    (System.step_inv hlawful h hok hs) hheld hok' (fun _ _ _ _ _ _ _ => trivial) hs'
  refine ⟨by omega, by omega, fun x hlo hhi => ?_⟩
  rw [hlookup x hlo hhi, ← entry_eq_metadata hundisturbed.identified, GlobalVariable.entry, htarget]
  rfl

/-- Whatever kind of object it is, its bytes find what the step that typed it has written. -/
theorem foundIn_of_givesType (hgives : GivesType G segments units e o typing)
    (hkeeps : Guarded System.step (fun s e => o.Keeps s e) t events) :
    0 < typing.base ∧ typing.base + typing.size ≤ 2 ^ 48 ∧ typing.FoundIn s'.store := by
  cases hgives with
  | block addrOf ptr u E c htarget =>
    exact block_foundIn hholds h hok hs hok' hs' rfl htarget hkeeps
  | onStack addrOf i object AllocatedType constant arraySize E c htarget hpos =>
    exact alloca_foundIn hholds h hok hs hok' hs' rfl htarget hpos hkeeps
  | global segment u GV E c hGV hundisturbed htarget =>
    exact global_foundIn hholds h hok hs hok' hs' rfl hGV hundisturbed htarget

end Typed

end Process

/-! A global array, whose module is constructed after the heap has taken a span, and before a thread
takes its stack. -/

namespace BusyProcess

open FirstArray SecondElement GlobalArray

abbrev process := Process patchedGperftools (fun _ : Unit => segment) fun _ => [arrayUnit]

def start : Option process :=
  (RunningThreads.start 4000 fun _ => none).map fun threads =>
    { part := fun
        | .heap => .initial
        | .threads => threads
        | .globals _ => ()
        | .other => fun _ => none
      store := ⟨setEntries threads.threads.pageTable 0x601 0x7f0000000000 3 1, threads.mem⟩ }

abbrev processEvent := ProcessEvent patchedGperftools (fun _ : Unit => segment) fun _ => [arrayUnit]

def history : List processEvent :=
  [⟨.heap, HeapPartEvent.step addrOf (.populate ⟨none, some 16, some (64, fun _ => 7)⟩ 16)⟩]

def construct : processEvent := ⟨.globals (), GlobalsEvent.construct arrayUnit⟩

def events : List processEvent :=
  [⟨.threads, (addrOf, ThreadEvent.thread (.mapStack 0 1000 8192 4096))⟩]

/-- The pages of each part, in the whole run. -/
def region : ProcessPart Unit → Set Cell
  | .heap => {c | c.page < 1000}
  | .threads => {c | 1000 ≤ c.page ∧ c.page < 1500 ∨ 4000 ≤ c.page ∧ c.page < 5000}
  | .globals _ => {c | 1500 ≤ c.page ∧ c.page < 4000 ∨ 5000 ≤ c.page}
  | .other => ∅

theorem region_disjoint (i j : ProcessPart Unit) (hij : i ≠ j) :
    Disjoint (region i) (region j) := by
  rw [Set.disjoint_left]
  rintro c hi hj
  rcases i <;> rcases j <;>
    simp only [region, Set.mem_ofPred_eq, Set.mem_empty_iff_false] at hi hj <;>
    first | exact hij rfl | omega

theorem start_owned {s : process} (h : start = some s) (i : ProcessPart Unit) :
    (processParts patchedGperftools (fun _ : Unit => segment) (fun _ => [arrayUnit]) i).owns
      (s.part i) ⊆ region i := by
  obtain ⟨threads, hthreads, rfl⟩ := Option.map_eq_some_iff.mp h
  intro c hc
  cases i with
  | heap =>
    rcases hc with hzero | hpages
    · exact Nat.lt_of_le_of_lt hzero.le (by decide)
    · cases hpages
  | threads =>
    obtain ⟨hlo, hhi⟩ := RunningThreads.start_owned hthreads hc
    exact Or.inr ⟨hlo, by omega⟩
  | globals =>
    cases c with
    | entry page =>
      obtain ⟨hlo, hhi⟩ := hc
      simp only [GlobalArray.segment, METALLOC_PAGESIZE, METALLOC_PAGESHIFT] at hlo hhi
      exact Or.inl (by simp only [Cell.page]; omega)
    | word address =>
      simp only [region, Cell.page, METALLOC_PAGESIZE, METALLOC_PAGESHIFT, Set.mem_ofPred_eq]
      rcases hc with ⟨hlo, hhi⟩ | ⟨hlo, hhi⟩ <;>
        simp only [GlobalArray.segment, granules] at hlo hhi <;> omega
  | other => cases hc

theorem start_begins {s : process} (h : start = some s) : Begins s := by
  refine ⟨?_, ?_, ?_, ?_, ?_, fun i j hij =>
    (region_disjoint i j hij).mono (start_owned h i) (start_owned h j)⟩
  all_goals obtain ⟨threads, hthreads, rfl⟩ := Option.map_eq_some_iff.mp h
  · rfl
  · exact ⟨4000, _, hthreads⟩
  · intro g
    exact ⟨mappedBelow_of_set (by decide) (by decide) (by decide) (by decide) rfl, by decide,
      by decide⟩
  · obtain ⟨space, hspace, rfl⟩ := Option.map_eq_some_iff.mp hthreads
    have htable := (StackState.start_eq hspace).2.2.2.2.2
    simp only [htable, setEntries_apply]
    decide
  · obtain ⟨space, hspace, rfl⟩ := Option.map_eq_some_iff.mp hthreads
    have hpage : space.space (0 / SYSTEM_PAGESIZE) = none := by
      by_contra hmapped
      have hin := RunningThreads.start_owned hthreads (c := .word 0)
        (Or.inl (Option.isSome_iff_ne_none.mpr hmapped))
      exact absurd hin (by decide)
    simp only [remap, hpage]

theorem guarded_run {s : process} (h : start = some s) :
    Guarded System.step System.Orderly s (history ++ construct :: events) := by
  refine System.guarded_of_regions region_disjoint (start_owned h) ?_
  refine guarded_cons ⟨trivial, fun t m hs ht => ?_⟩ fun _ _ =>
    guarded_cons ⟨⟨List.mem_singleton_self arrayUnit, trivial⟩, fun _ _ hs _ => hs⟩ fun _ _ =>
      guarded_cons ⟨⟨trivial, trivial⟩, fun t m hs ht => ?_⟩ fun _ _ => guarded_nil
  · obtain ⟨q, hq, heq⟩ := Option.map_eq_some_iff.mp ht
    cases heq
    intro c hc
    have hpages : patchedGperftools.classToPages 16 = 32 ∧
        HeapState.metaspanLength 32 (patchedGperftools.alignmentBitsForSize 16) = 32 := by decide
    rcases populate_owned hq rfl rfl hc with hold | ⟨hlo, hhi⟩ | ⟨hlo, hhi⟩
    · exact hs hold
    · rw [hpages.1] at hhi
      exact show c.page < 1000 by omega
    · rw [hpages.1, hpages.2] at hhi
      exact show c.page < 1000 by omega
  · obtain ⟨q, hq, heq⟩ := Option.map_eq_some_iff.mp ht
    cases heq
    intro c hc
    rcases RunningThreads.mapStack_owned hq hc with hold | ⟨hlo, hhi⟩
    · exact hs hold
    · simp only [SYSTEM_PAGESIZE] at hhi
      exact Or.inl ⟨hlo, by omega⟩

end BusyProcess

end TypeSan
