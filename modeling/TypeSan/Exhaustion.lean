import TypeSan.SpanOwnership

/-! The entry points of the patched tcmalloc over the span paths, and how they end when a span or
its metadata cannot be had. -/
namespace TypeSan

open Checked PageMap Runs WordMemory

/-- What ends a call: a fault of the span paths, a null pointer that is read, or memory that is not
there. -/
inductive AllocFault where
  | span (f : HeapFault)
  | nullPointer
  | unmapped
  deriving DecidableEq

/-- The page heap, and the words of the metadata. -/
structure AllocState where
  heap : PageHeap
  mem : Memory

/-- How the unpatched parts answer a call: an object of the class that the free lists hold, the
spans that the page heap hands out, and the words that the pages of the metadata span come with. -/
structure AllocAnswer where
  cached : Option Nat
  spans : SpanAnswer
  contents : Nat → Nat

/-- A call of a patched entry point. -/
inductive EntryCall where
  | malloc (size : Nat)
  | calloc (n elem_size : Nat)
  | memalign (align size : Nat)
  deriving DecidableEq

namespace AllocState

/-- `clear_metadata_ptr` -/
def clearMetadataPtr (s : AllocState) (ptr size : Nat) : Except AllocFault AllocState :=
  let page := ptr / METALLOC_PAGESIZE
  let entry := s.heap.pageTable page
  let alignment := entry &&& 0xFF
  let metabase := entry >>> 8
  let metaptr :=
    metabase + ((ptr - page * METALLOC_PAGESIZE) >>> alignment) * FLAGS_METALLOC_METADATABYTES
  if metaptr = 0 then .error .nullPointer
  else
    match s.mem metaptr with
    | none => .error .unmapped
    | some result =>
      let metasize :=
        (FLAGS_METALLOC_METADATABYTES / 8) * ((size + (1 <<< alignment) - 1) >>> alignment)
      if result ≠ 0 then
        .ok { s with mem := writes s.mem ((List.range metasize).map fun i => (metaptr + 8 * i, 0)) }
      else .ok s

/-- What a span path leaves behind: the page heap, and the pages of the metadata span as they come.
The result is the first byte of the span. -/
def onHeap (s : AllocState) (a : AllocAnswer)
    (ended : Except HeapFault (PageHeap × Option HeapSpan)) :
    Except AllocFault (AllocState × Option Nat) :=
  match ended with
  | .error f => .error (.span f)
  | .ok (heap, none) => .ok ({ s with heap }, none)
  | .ok (heap, some span) =>
    let mem :=
      match a.spans.metaspan with
      | some g => HeapState.recycle s.mem g.start g.length a.contents
      | none => s.mem
    .ok (⟨heap, mem⟩, some (span.start <<< kPageShift))

variable (G : Gperftools) (s : AllocState) (a : AllocAnswer)

/-- `Allocate` of the thread cache: an object of the free lists, or the first one of a new span. -/
def allocateSmall (objectSize : Nat) : Except AllocFault (AllocState × Option Nat) :=
  match a.cached with
  | some ptr => .ok (s, some ptr)
  | none => s.onHeap a (G.populateSpan s.heap objectSize a.spans)

/-- The metadata of a result is cleared, also where the result is null. -/
def clearResult (doNotClear : Bool) (size : Nat) (taken : AllocState × Option Nat) :
    Except AllocFault (AllocState × Option Nat) :=
  if doNotClear then .ok taken
  else (taken.1.clearMetadataPtr (taken.2.getD 0) size).map fun s => (s, taken.2)

/-- `do_malloc` -/
def doMalloc (size : Nat) : Except AllocFault (AllocState × Option Nat) := do
  let doNotClear := flagOf size ≠ 0
  let size := clearSize size
  let taken ←
    if G.servesSmall size then s.allocateSmall G a (G.classToSize size)
    else s.onHeap a (G.doMallocPages s.heap size a.spans)
  clearResult doNotClear (G.takenSize size) taken

/-- `do_calloc`, up to its `memset`. -/
def doCalloc (n elem_size : Nat) : Except AllocFault (AllocState × Option Nat) :=
  let doNotClearFlag := flagOf elem_size
  let elem_size := clearSize elem_size
  let size := n * elem_size % 2 ^ 64
  if elem_size ≠ 0 ∧ size / elem_size ≠ n then .ok (s, none)
  else s.doMalloc G a (size ||| doNotClearFlag)

/-- `do_memalign` -/
def doMemalign (align size : Nat) : Except AllocFault (AllocState × Option Nat) :=
  let doNotClearFlag := flagOf size
  let size := clearSize size
  if (size + align) % 2 ^ 64 < size then .ok (s, none)
  else if align ≤ G.alignmentForSize size then s.doMalloc G a (size ||| doNotClearFlag)
  else
    let size := if size = 0 then 1 else size
    match G.smallAlignedClass align size with
    | some size => do
      let taken ← s.allocateSmall G a size
      clearResult (doNotClearFlag ≠ 0) size taken
    | none =>
      if align ≤ kPageSize then s.onHeap a (G.largeSpan s.heap size a.spans)
      else s.onHeap a (G.alignedSpan s.heap align size a.spans)

def serve : EntryCall → Except AllocFault (AllocState × Option Nat)
  | .malloc size => s.doMalloc G a size
  | .calloc n elem_size => s.doCalloc G a n elem_size
  | .memalign align size => s.doMemalign G a align size

/-- A call that ends without a fault, as a step. -/
def callStep (c : EntryCall × AllocAnswer) : Option AllocState :=
  (s.serve G c.2 c.1).toOption.map Prod.fst

/-- Before the first span. -/
def initial : AllocState := ⟨.initial, fun _ => none⟩

end AllocState

/-! Where a call takes its block from. -/

/-- The block is refused, or it is an object, or a span, or an aligned part of one. -/
inductive AllocPath where
  | refused
  | small (objectSize : Nat)
  | pages (size : Nat)
  | aligned (align size : Nat)
  deriving DecidableEq

/-- The path of a call, and whether the metadata of the result is left, with its size. -/
structure AllocPlan where
  path : AllocPath
  doNotClear : Bool
  size : Nat
  deriving DecidableEq

namespace Gperftools

variable (G : Gperftools)

def mallocPlan (size : Nat) : AllocPlan where
  path :=
    if G.servesSmall (clearSize size) then .small (G.classToSize (clearSize size))
    else .pages (clearSize size)
  doNotClear := flagOf size ≠ 0
  size := G.takenSize (clearSize size)

def callocPlan (n elem_size : Nat) : AllocPlan :=
  let size := n * clearSize elem_size % 2 ^ 64
  if clearSize elem_size ≠ 0 ∧ size / clearSize elem_size ≠ n then ⟨.refused, true, 0⟩
  else G.mallocPlan (size ||| flagOf elem_size)

def memalignPlan (align size : Nat) : AllocPlan :=
  let rounded := if clearSize size = 0 then 1 else clearSize size
  if (clearSize size + align) % 2 ^ 64 < clearSize size then ⟨.refused, true, 0⟩
  else if align ≤ G.alignmentForSize (clearSize size) then
    G.mallocPlan (clearSize size ||| flagOf size)
  else
    match G.smallAlignedClass align rounded with
    | some objectSize => ⟨.small objectSize, flagOf size ≠ 0, objectSize⟩
    | none => ⟨if align ≤ kPageSize then .pages rounded else .aligned align rounded, true, 0⟩

def plan : EntryCall → AllocPlan
  | .malloc size => G.mallocPlan size
  | .calloc n elem_size => G.callocPlan n elem_size
  | .memalign align size => G.memalignPlan align size

end Gperftools

/-- The call needs a span of objects or its metadata span, and cannot have it. -/
def AllocPath.Exhausted (path : AllocPath) (a : AllocAnswer) : Prop :=
  match path with
  | .refused => False
  | .small _ => a.cached = none ∧ (a.spans.span = none ∨ a.spans.metaspan = none)
  | .pages _ | .aligned _ _ => a.spans.span = none ∨ a.spans.metaspan = none

instance (path : AllocPath) (a : AllocAnswer) : Decidable (path.Exhausted a) := by
  cases path <;> unfold AllocPath.Exhausted <;> infer_instance

/-- Where an aligned part is asked for, it is the span that is missing, not its metadata. -/
def AllocPath.Unwinds (path : AllocPath) (a : AllocAnswer) : Prop :=
  match path with
  | .aligned _ _ => a.spans.span = none
  | _ => True

namespace AllocState

/-- The block that a path takes. -/
def take (G : Gperftools) (s : AllocState) (a : AllocAnswer) :
    AllocPath → Except AllocFault (AllocState × Option Nat)
  | .refused => .ok (s, none)
  | .small objectSize => s.allocateSmall G a objectSize
  | .pages size => s.onHeap a (G.doMallocPages s.heap size a.spans)
  | .aligned align size => s.onHeap a (G.alignedSpan s.heap align size a.spans)

/-- The call returns null, and the page table and the spans in use are as they were. -/
def Reported (s : AllocState) (ended : Except AllocFault (AllocState × Option Nat)) : Prop :=
  ∃ t, ended = .ok (t, none) ∧ t.heap = s.heap

/-- The null page is registered with metadata that can be read. -/
def NullPageReadable (s : AllocState) : Prop :=
  s.heap.pageTable 0 >>> 8 ≠ 0 ∧ s.mem (s.heap.pageTable 0 >>> 8) ≠ none

end AllocState

/-- The page table once the page heap has grown for the span of objects. -/
def SpanAnswer.grown (a : SpanAnswer) (pageTable : PageTable) : PageTable :=
  match a.span with
  | some g => hookWords pageTable g.hooked
  | none => pageTable

section Exhausted

variable {G : Gperftools} {s t : AllocState} {a : AllocAnswer} {answer : SpanAnswer}
  {call : EntryCall} {r : Option Nat}

/-! The span paths. -/

/-- A span without its metadata goes back, and only the words that the hooks wrote stay. -/
theorem newSpan_exhausted (heap : PageHeap) (length alignment : Nat) (use : SpanUse)
    (h : answer.span = none ∨ answer.metaspan = none) :
    Meets (· = .undocumented)
      (· = ({ heap with pageTable := answer.grown heap.pageTable }, none)) (do
        match ← heap.new length use answer.span with
        | (heap, none) => return (heap, none)
        | (heap, some span) => heap.attachMetadata span alignment answer.metaspan) := by
  cases hspan : answer.span with
  | none => simp [PageHeap.new, SpanAnswer.grown, hspan]
  | some g =>
    have hmeta : answer.metaspan = none := by simpa [hspan] using h
    unfold PageHeap.new
    simp only
    split
    · simp [PageHeap.attachMetadata, PageHeap.new, PageHeap.delete, hmeta, SpanAnswer.grown, hspan]
    · rfl

/-- An aligned part of a span is null without its metadata, and is used nevertheless. -/
theorem alignedSpan_fails (heap : PageHeap) (align size : Nat) (hspan : answer.span ≠ none)
    (hmeta : answer.metaspan = none) (ended : PageHeap × Option HeapSpan) :
    G.alignedSpan heap align size answer ≠ .ok ended := by
  intro hended
  obtain ⟨⟨heap₁, span⟩, hnew, hended⟩ := bind_ok_iff.mp hended
  cases span with
  | none =>
    obtain ⟨g, hg⟩ := Option.ne_none_iff_exists'.mp hspan
    rw [hg, PageHeap.new] at hnew
    split at hnew <;> cases hnew
  | some span =>
    dsimp only at hended
    split at hended
    · obtain ⟨⟨heap₂, span₂⟩, -, hended⟩ := bind_ok_iff.mp hended
      obtain ⟨⟨heap₃, span₃⟩, -, hended⟩ := bind_ok_iff.mp hended
      obtain ⟨⟨heap₄, span₄⟩, hattach, hended⟩ := bind_ok_iff.mp hended
      have hnull : span₄ = none := by
        simp only [hmeta, PageHeap.attachMetadata, PageHeap.new, ok_bind] at hattach
        obtain ⟨heap₅, -, hnull⟩ := bind_ok_iff.mp hattach
        cases hnull
        rfl
      subst hnull
      cases hended
    · cases hended

/-! The entry points follow their plans. -/

theorem doMalloc_eq (size : Nat) :
    s.doMalloc G a size = s.take G a (G.mallocPlan size).path >>=
      AllocState.clearResult (G.mallocPlan size).doNotClear (G.mallocPlan size).size := by
  simp only [AllocState.doMalloc, Gperftools.mallocPlan]
  split <;> rfl

theorem serve_eq : s.serve G a call = s.take G a (G.plan call).path >>=
    AllocState.clearResult (G.plan call).doNotClear (G.plan call).size := by
  cases call with
  | malloc size => exact doMalloc_eq size
  | calloc n elem_size =>
    simp only [AllocState.serve, AllocState.doCalloc, Gperftools.plan, Gperftools.callocPlan]
    split
    · rfl
    · exact doMalloc_eq _
  | memalign align size =>
    simp only [AllocState.serve, AllocState.doMemalign, Gperftools.plan, Gperftools.memalignPlan]
    split
    · rfl
    split
    · exact doMalloc_eq _
    split
    · rfl
    · split
      · exact (bind_pure _).symm
      · exact (bind_pure _).symm

/-! Null results. -/

/-- The state once the page heap has grown for the span of objects. -/
def AllocState.grown (s : AllocState) (a : AllocAnswer) : AllocState :=
  { s with heap := { s.heap with pageTable := a.spans.grown s.heap.pageTable } }

theorem onHeap_exhausted {ended : Except HeapFault (PageHeap × Option HeapSpan)}
    (h : Meets (· = .undocumented) (· = ((s.grown a).heap, none)) ended) :
    Meets (· = .span .undocumented) (· = (s.grown a, none)) (s.onHeap a ended) := by
  cases ended with
  | error f => exact congrArg AllocFault.span h
  | ok ended =>
    obtain rfl : ended = ((s.grown a).heap, none) := h
    exact rfl

/-- A path that unwinds ends with a null result, and the page table as it has grown. -/
theorem take_exhausted {path : AllocPath} (hexhausted : path.Exhausted a)
    (hunwinds : path.Unwinds a) :
    Meets (· = .span .undocumented) (· = (s.grown a, none)) (s.take G a path) := by
  cases path with
  | refused => exact hexhausted.elim
  | small objectSize =>
    obtain ⟨hcached, hmissing⟩ := hexhausted
    simp only [AllocState.take, AllocState.allocateSmall, hcached]
    exact onHeap_exhausted (newSpan_exhausted s.heap _ _ _ hmissing)
  | pages size => exact onHeap_exhausted (newSpan_exhausted s.heap _ _ _ hexhausted)
  | aligned align size =>
    have hspan : a.spans.span = none := hunwinds
    apply onHeap_exhausted
    simp [Gperftools.alignedSpan, PageHeap.new, AllocState.grown, SpanAnswer.grown, hspan]

theorem take_fails {path : AllocPath} (hexhausted : path.Exhausted a) (hunwinds : ¬ path.Unwinds a)
    (ended : AllocState × Option Nat) : s.take G a path ≠ .ok ended := by
  cases path with
  | refused => exact hexhausted.elim
  | small objectSize => exact (hunwinds trivial).elim
  | pages size => exact (hunwinds trivial).elim
  | aligned align size =>
    have hfails := alignedSpan_fails (G := G) s.heap align size hunwinds
      (hexhausted.resolve_left hunwinds)
    intro htake
    simp only [AllocState.take, AllocState.onHeap] at htake
    split at htake
    · cases htake
    · exact hfails _ ‹_›
    · exact hfails _ ‹_›

theorem clearMetadataPtr_heap {ptr size : Nat} (h : s.clearMetadataPtr ptr size = .ok t) :
    t.heap = s.heap := by
  unfold AllocState.clearMetadataPtr at h
  simp only at h
  split at h
  · cases h
  · split at h
    · cases h
    · split at h
      · cases h
        rfl
      · cases h
        rfl

/-- A null result can be cleared where the null page has metadata. -/
theorem clearMetadataPtr_null_iff (size : Nat) :
    (∃ t, s.clearMetadataPtr 0 size = .ok t) ↔ s.NullPageReadable := by
  unfold AllocState.clearMetadataPtr AllocState.NullPageReadable
  simp only [Nat.zero_div, Nat.zero_mul, Nat.sub_self, Nat.zero_shiftRight, Nat.add_zero]
  by_cases hnull : s.heap.pageTable 0 >>> 8 = 0
  · simp [hnull]
  · simp only [if_neg hnull]
    cases hword : s.mem (s.heap.pageTable 0 >>> 8) with
    | none => simp
    | some word =>
      refine iff_of_true ?_ ⟨hnull, nofun⟩
      simp only
      split
      · exact ⟨_, rfl⟩
      · exact ⟨_, rfl⟩

theorem clearResult_heap {doNotClear : Bool} {size : Nat} {r' : Option Nat}
    (h : AllocState.clearResult doNotClear size (s, r) = .ok (t, r')) : t.heap = s.heap := by
  cases doNotClear with
  | true =>
    cases h
    rfl
  | false =>
    simp only [AllocState.clearResult, Bool.false_eq_true, if_false] at h
    cases hclear : s.clearMetadataPtr (r.getD 0) size with
    | error f =>
      rw [hclear] at h
      cases h
    | ok u =>
      rw [hclear] at h
      cases h
      exact clearMetadataPtr_heap hclear

/-- The end of a call with a null result. -/
theorem clearResult_null_iff {doNotClear : Bool} {size : Nat} :
    s.Reported (AllocState.clearResult doNotClear size (s, none)) ↔
      doNotClear = true ∨ s.NullPageReadable := by
  cases doNotClear with
  | true => exact iff_of_true ⟨s, rfl, rfl⟩ (Or.inl rfl)
  | false =>
    simp only [AllocState.Reported, AllocState.clearResult, Bool.false_eq_true, if_false, false_or,
      ← clearMetadataPtr_null_iff size, Option.getD_none]
    constructor
    · rintro ⟨t, h, -⟩
      cases hclear : s.clearMetadataPtr 0 size with
      | error f =>
        rw [hclear] at h
        cases h
      | ok u => exact ⟨u, rfl⟩
    · rintro ⟨t, h⟩
      exact ⟨t, by rw [h]; rfl, clearMetadataPtr_heap h⟩

/-- Where nothing is mapped at null, `clear_metadata_ptr` does to the metadata what it does in a
heap. -/
theorem clearMetadataPtr_heapState (h : HeapState) (hnull : h.mem 0 = none) (spans : List HeapSpan)
    (ptr size : Nat) :
    (AllocState.clearMetadataPtr ⟨⟨h.pageTable, spans⟩, h.mem⟩ ptr size).toOption.map
      AllocState.mem = (h.clearMetadataPtr ptr size).map HeapState.mem := by
  simp only [AllocState.clearMetadataPtr, HeapState.clearMetadataPtr]
  split
  · rename_i hzero
    rw [hzero, hnull]
    rfl
  · split
    · rename_i hunmapped
      rw [hunmapped]
      rfl
    · rename_i hword
      rw [hword]
      split
      · rename_i htyped
        simp [htyped, Except.toOption]
      · rename_i hfree
        simp [not_not.mp hfree, Except.toOption]

/-! A call that ends well is a step of the spans, or leaves them alone. -/

theorem onHeap_spanStep {ended : Except HeapFault (PageHeap × Option HeapSpan)} (e : SpanEvent)
    (he : G.outcome s.heap e = ended.map Prod.fst) (h : s.onHeap a ended = .ok (t, r)) :
    G.spanStep s.heap e = some t.heap := by
  unfold AllocState.onHeap at h
  rw [Gperftools.spanStep, he]
  split at h
  · cases h
  · cases h
    rfl
  · cases h
    rfl

/-- The spans stay as they are, or take one step. -/
def Gperftools.Follows (G : Gperftools) (s t : PageHeap) : Prop :=
  t = s ∨ ∃ e, G.spanStep s e = some t

theorem allocateSmall_follows {objectSize : Nat} (h : s.allocateSmall G a objectSize = .ok (t, r)) :
    G.Follows s.heap t.heap := by
  unfold AllocState.allocateSmall at h
  split at h
  · cases h
    exact Or.inl rfl
  · exact Or.inr ⟨_, onHeap_spanStep (.populate objectSize a.spans) rfl h⟩

theorem doMalloc_follows {size : Nat} (h : s.doMalloc G a size = .ok (t, r)) :
    G.Follows s.heap t.heap := by
  rw [doMalloc_eq] at h
  obtain ⟨⟨u, r'⟩, htaken, hcleared⟩ := bind_ok_iff.mp h
  rw [clearResult_heap hcleared]
  simp only [Gperftools.mallocPlan] at htaken
  split at htaken
  · exact allocateSmall_follows htaken
  · exact Or.inr ⟨_, onHeap_spanStep (.doMallocPages _ a.spans) rfl htaken⟩

theorem serve_follows (h : s.serve G a call = .ok (t, r)) : G.Follows s.heap t.heap := by
  cases call with
  | malloc size => exact doMalloc_follows h
  | calloc n elem_size =>
    simp only [AllocState.serve, AllocState.doCalloc] at h
    split at h
    · cases h
      exact Or.inl rfl
    · exact doMalloc_follows h
  | memalign align size =>
    have hevent := onHeap_spanStep (G := G) (s := s) (t := t) (a := a) (r := r)
      (.doMemalign align size a.spans) rfl
    simp only [Gperftools.memalignPages] at hevent
    simp only [AllocState.serve, AllocState.doMemalign] at h
    split at h
    · cases h
      exact Or.inl rfl
    rename_i hoverflow
    split at h
    · exact doMalloc_follows h
    split at h
    · obtain ⟨⟨u, r'⟩, htaken, hcleared⟩ := bind_ok_iff.mp h
      rw [clearResult_heap hcleared]
      exact allocateSmall_follows htaken
    · refine Or.inr ⟨_, hevent ?_⟩
      rw [if_neg hoverflow, ← h]
      split <;> rfl

theorem callStep_follows {c : EntryCall × AllocAnswer} (h : s.callStep G c = some t) :
    G.Follows s.heap t.heap := by
  obtain ⟨⟨t, r⟩, hserve, rfl⟩ := Option.map_eq_some_iff.mp h
  cases hended : s.serve G c.2 c.1 with
  | error f =>
    rw [hended] at hserve
    cases hserve
  | ok ended =>
    rw [hended] at hserve
    cases hserve
    exact serve_follows hended

/-- Whatever the calls, and whatever they are answered, the metadata spans are owned. -/
theorem calls_metadataOwned (hG : G.Documented) {calls : List (EntryCall × AllocAnswer)}
    (h : exec (AllocState.callStep G) .initial calls = some s) : G.MetadataOwned s.heap := by
  have hevents : ∃ events heap, exec G.spanStep .initial events = some heap ∧ s.heap = heap := by
    refine exec_simulates (R := fun s heap => s.heap = heap) rfl ?_ guarded_true h
    rintro t heap c u rfl - hstep
    rcases callStep_follows hstep with hsame | ⟨e, he⟩
    · exact ⟨[], t.heap, rfl, hsame⟩
    · exact ⟨[e], u.heap, by rw [exec_cons, he]; rfl, rfl⟩
  obtain ⟨events, heap, hevents, rfl⟩ := hevents
  exact (metadataSpans_owned hG (visits_last hevents)).1

/-- A call that cannot have a span or its metadata reports this just when it unwinds, when the page
heap has not grown, and when it leaves the metadata of its null result alone or finds some. -/
theorem exhaustion_reported_iff (G : Gperftools) (s : AllocState) (a : AllocAnswer)
    (call : EntryCall) (hexhausted : (G.plan call).path.Exhausted a)
    (hdocumented : s.serve G a call ≠ .error (.span .undocumented)) :
    s.Reported (s.serve G a call) ↔
      (G.plan call).path.Unwinds a ∧ a.spans.grown s.heap.pageTable = s.heap.pageTable ∧
        ((G.plan call).doNotClear = true ∨ s.NullPageReadable) := by
  rw [serve_eq] at hdocumented ⊢
  by_cases hunwinds : (G.plan call).path.Unwinds a
  swap
  · refine iff_of_false ?_ fun h => hunwinds h.1
    rintro ⟨t, hended, -⟩
    obtain ⟨ended, htake, -⟩ := bind_ok_iff.mp hended
    exact take_fails hexhausted hunwinds ended htake
  have htake : s.take G a (G.plan call).path = .ok (s.grown a, none) := by
    cases hended : s.take G a (G.plan call).path with
    | error f =>
      obtain rfl := (take_exhausted hexhausted hunwinds).of_error hended
      rw [hended] at hdocumented
      exact (hdocumented rfl).elim
    | ok ended => rw [(take_exhausted hexhausted hunwinds).of_ok hended]
  rw [htake, ok_bind]
  by_cases hgrown : a.spans.grown s.heap.pageTable = s.heap.pageTable
  · have hsame : s.grown a = s := by rw [AllocState.grown, hgrown]
    rw [hsame, clearResult_null_iff]
    simp only [hunwinds, hgrown, true_and]
  · refine iff_of_false ?_ fun h => hgrown h.2.1
    rintro ⟨t, hended, hheap⟩
    exact hgrown (congrArg PageHeap.pageTable ((clearResult_heap hended).symm.trans hheap))

end Exhausted

/-- The free lists and the page heap have nothing. -/
def nothingLeft : AllocAnswer := ⟨none, ⟨none, 0, none⟩, fun _ => 0⟩

/-- The page heap has a span, but none for the metadata. -/
def noMetadata : AllocAnswer := ⟨none, ⟨some ⟨16, 74, []⟩, 0, none⟩, fun _ => 0⟩

/-- A call that leaves the metadata of its result alone. -/
theorem exhaustion_reported_of_doNotClear :
    AllocState.initial.Reported
      (AllocState.initial.serve patchedGperftools noMetadata
        (.malloc (doNotClearBit + 600000))) := by
  have hended : AllocState.initial.serve patchedGperftools noMetadata
      (.malloc (doNotClearBit + 600000)) = .ok (.initial, none) := rfl
  exact (exhaustion_reported_iff patchedGperftools .initial noMetadata _ (by decide +kernel)
    (by rw [hended]; nofun)).mpr ⟨trivial, rfl, Or.inl rfl⟩

/-- A small request reads the metadata of its null result, and an over-aligned one goes on with the
span that it has given back. -/
theorem exhaustion_reported_fails :
    (patchedGperftools.plan (.malloc 24)).path.Exhausted nothingLeft ∧
    AllocState.initial.serve patchedGperftools nothingLeft (.malloc 24) = .error .nullPointer ∧
    (patchedGperftools.plan (.memalign (2 ^ 16) 100)).path.Exhausted noMetadata ∧
    AllocState.initial.serve patchedGperftools noMetadata (.memalign (2 ^ 16) 100) =
      .error (.span .nullSpan) ∧
    ¬ ∀ (G : Gperftools) (s : AllocState) (a : AllocAnswer) (call : EntryCall),
      (G.plan call).path.Exhausted a → s.serve G a call ≠ .error (.span .undocumented) →
        s.Reported (s.serve G a call) := by
  have hnull : AllocState.initial.serve patchedGperftools nothingLeft (.malloc 24) =
      .error .nullPointer := rfl
  refine ⟨by decide +kernel, hnull, by decide +kernel, rfl, ?_⟩
  intro hall
  obtain ⟨t, ht, -⟩ := hall patchedGperftools .initial nothingLeft (.malloc 24) (by decide +kernel)
    (by rw [hnull]; nofun)
  rw [hnull] at ht
  cases ht

end TypeSan
