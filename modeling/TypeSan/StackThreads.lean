import TypeSan.MmapHooks

/-! Tracked stacks of threads: their creation and release, one step at a time. -/
namespace TypeSan

open PageMap Runs

/-- `kMetaStackAlignBits` -/
def kMetaStackAlignBits : Nat := 6

/-- What a page was mapped for. -/
inductive Mapping where
  | safeStackMetadata
  | stack (thread : Nat)
  | metadata (thread : Nat)
  deriving DecidableEq

/-- How far the creation or the exit of a thread has come. `entryRead` holds the address that
`deallocate_metadata` took from the page table. -/
inductive Stage where
  | idle | stackMapped | metadataMapped | live | stackUnmapped | entryRead (metadata : Nat) | gone
  deriving DecidableEq

/-- A thread's tracked stack. -/
structure StackThread where
  stage : Stage
  unsafeStackStart : Nat
  unsafeStackSize : Nat
  unsafeStackGuard : Nat
  metadata : Nat
  deriving DecidableEq

namespace StackThread

variable (t : StackThread)

/-- The pages of the stack's mapping, guard included. -/
def firstPage : Nat := (t.unsafeStackStart - t.unsafeStackGuard) / SYSTEM_PAGESIZE

def pageCount : Nat :=
  (t.unsafeStackSize + t.unsafeStackGuard + SYSTEM_PAGESIZE - 1) / SYSTEM_PAGESIZE

/-- The size of the thread's metadata block. -/
def metadataBytes : Nat := metadataSize t.unsafeStackSize kMetaStackAlignBits

def metadataPage : Nat := t.metadata / SYSTEM_PAGESIZE

def metadataPages : Nat := t.metadataBytes / SYSTEM_PAGESIZE

/-- The number of pages whose entries the hook of `munmap` clears when the block is unmapped. -/
def hookedPages : Nat := roundedLength t.metadataBytes / METALLOC_PAGESIZE

/-- The number of the stack's first page in the page table, and of the entries it has there. -/
def entryPage : Nat := t.unsafeStackStart / METALLOC_PAGESIZE

def entryCount : Nat := t.unsafeStackSize / METALLOC_PAGESIZE

end StackThread

/-- An unmapping of metadata: the thread that made it, and what the pages had been mapped for. -/
structure Unmapping where
  thread : Nat
  pages : List (Option Mapping)
  deriving DecidableEq

structure StackState where
  threads : Nat → StackThread
  space : Pages Mapping
  pageTable : PageTable
  unmappings : List Unmapping

/-- The atomic steps. The kernel chooses the page that a mapping starts at. -/
inductive StackEvent where
  | mapStack (thread page size guard : Nat)
  | mapMetadata (thread page : Nat)
  | writeEntries (thread : Nat)
  | unmapStack (thread : Nat)
  | readEntry (thread : Nat)
  | unmapMetadata (thread : Nat)
  deriving DecidableEq

/-- The thread that makes a step. -/
def StackEvent.thread : StackEvent → Nat
  | .mapStack i .. | .mapMetadata i _ | .writeEntries i | .unmapStack i | .readEntry i
  | .unmapMetadata i => i

namespace StackState

def setThread (s : StackState) (i : Nat) (t : StackThread) : StackState :=
  { s with threads := Function.update s.threads i t }

/-- A system call `mmap` for `bytes` bytes: page 0 is never mapped, and user space ends at `2 ^ 47`. -/
def mmap (s : StackState) (page bytes : Nat) (owner : Mapping) : Option StackState :=
  let count := (bytes + SYSTEM_PAGESIZE - 1) / SYSTEM_PAGESIZE
  if page = 0 ∨ bytes = 0 ∨ 2 ^ 47 < (page + count) * SYSTEM_PAGESIZE then none
  else (PageMap.map s.space page count owner).map fun space => { s with space }

/-- The state before any thread has a tracked stack: the constructor `allocate_safe_stack_meta` has
given the end of the address space its metadata, at a page chosen by the kernel. -/
def start (page : Nat) : Option StackState := do
  let stacksize := 0x100000
  let alignbits := 3
  let s ← mmap ⟨fun _ => ⟨.idle, 0, 0, 0, 0⟩, fun _ => none, fun _ => 0, []⟩ page
    (metadataSize stacksize alignbits) .safeStackMetadata
  let pageTable ← setMetapagetableEntries s.pageTable (0x0000800000000000 - stacksize) stacksize
    (page * SYSTEM_PAGESIZE) alignbits
  return { s with pageTable }

/-- `MmapOrDie` in `unsafe_stack_alloc`, with the checks of the caller. -/
def mapStack (s : StackState) (i page size guard : Nat) : Option StackState :=
  if size = 0 ∨ size &&& (2 ^ kMetaStackAlignBits - 1) ≠ 0 ∨ guard % SYSTEM_PAGESIZE ≠ 0 then none
  else (s.mmap page (size + guard) (.stack i)).map fun s =>
    s.setThread i ⟨.stackMapped, page * SYSTEM_PAGESIZE + guard, size, guard, 0⟩

/-- `allocate_metadata` -/
def mapMetadata (s : StackState) (i page : Nat) : Option StackState :=
  let t := s.threads i
  (s.mmap page t.metadataBytes (.metadata i)).map fun s =>
    s.setThread i { t with stage := .metadataMapped, metadata := page * SYSTEM_PAGESIZE }

/-- `set_metapagetable_entries` -/
def writeEntries (s : StackState) (i : Nat) : Option StackState :=
  let t := s.threads i
  (setMetapagetableEntries s.pageTable t.unsafeStackStart t.unsafeStackSize t.metadata
    kMetaStackAlignBits).map fun pageTable =>
      { s with pageTable }.setThread i { t with stage := .live }

/-- `UnmapOrDie` in `unsafe_stack_free` -/
def unmapStack (s : StackState) (i : Nat) : StackState :=
  let t := s.threads i
  { s with space := PageMap.unmap s.space t.firstPage t.pageCount }.setThread i
    { t with stage := .stackUnmapped }

/-- The read of the page table in `deallocate_metadata` -/
def readEntry (s : StackState) (i : Nat) : StackState :=
  let t := s.threads i
  s.setThread i { t with stage := .entryRead (s.pageTable t.entryPage >>> 8) }

/-- `munmap` in `deallocate_metadata`, with the hook of the patched tcmalloc. The system rejects an
address inside a page; the hook clears entries all the same. -/
def unmapMetadata (s : StackState) (i metadata : Nat) : Option StackState :=
  let t := s.threads i
  let page := metadata / SYSTEM_PAGESIZE
  let count := if metadata % SYSTEM_PAGESIZE = 0 then t.metadataPages else 0
  ((MirrorState.initial s.pageTable).munmapHook metadata t.metadataBytes).map fun mirror =>
    { s with
      space := PageMap.unmap s.space page count
      pageTable := mirror.pageTable
      unmappings := ⟨i, (List.range count).map fun j => s.space (page + j)⟩ :: s.unmappings
    }.setThread i { t with stage := .gone }

/-- A step, when the thread has come to it. -/
def step (s : StackState) : StackEvent → Option StackState
  | .mapStack i page size guard =>
    if (s.threads i).stage = .idle then s.mapStack i page size guard else none
  | .mapMetadata i page =>
    if (s.threads i).stage = .stackMapped then s.mapMetadata i page else none
  | .writeEntries i =>
    if (s.threads i).stage = .metadataMapped then s.writeEntries i else none
  | .unmapStack i => if (s.threads i).stage = .live then some (s.unmapStack i) else none
  | .readEntry i =>
    if (s.threads i).stage = .stackUnmapped then some (s.readEntry i) else none
  | .unmapMetadata i =>
    match (s.threads i).stage with
    | .entryRead metadata => s.unmapMetadata i metadata
    | _ => none

end StackState

end TypeSan
