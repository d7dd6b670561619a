import TypeSan.Library.PageMap
import TypeSan.UpdateMetalloc

/-! The patched tcmalloc: entry points, the metadata of spans, and its clearing. What the patch leaves
as it is (the size classes, the free lists, the page heap) answers requests as it likes, within its
contract. -/
namespace TypeSan

open PageMap WordMemory

def kPageShift : Nat := 13

def kPageSize : Nat := 2 ^ kPageShift

/-- The do-not-clear flag of a size. -/
def doNotClearBit : Nat := 2 ^ 63

/-- The size arithmetic that the patch leaves as it is: `class_to_size(SizeClass(size))`, `pages`,
`AlignmentForSize`, the class in which the search of `do_memalign` ends, the bounds of
`do_realloc_with_callback`, and `MinSizeForSlowPath` where there is thread-local storage. -/
structure Gperftools where
  kMaxSize : Nat
  minSizeForSlowPath : Option Nat
  classToSize : Nat → Nat
  classToPages : Nat → Nat
  pages : Nat → Nat
  alignmentForSize : Nat → Nat
  alignedClassSize : (align size : Nat) → Option Nat
  lowerBoundToGrow : Nat → Nat
  keepsBlock : (oldSize newSize : Nat) → Bool

/-- What is relied on: sizes are rounded up, a block is kept only when it is large enough, and a
block's size is far from the flag. -/
structure Gperftools.Documented (G : Gperftools) : Prop where
  minSize_le : ∀ m, G.minSizeForSlowPath = some m → m ≤ G.kMaxSize + 1
  le_classToSize : ∀ size ≤ G.kMaxSize, size ≤ G.classToSize size
  le_pages : ∀ bytes < 2 ^ 64, bytes ≤ G.pages bytes * kPageSize
  le_alignedClassSize : ∀ align size c, G.alignedClassSize align size = some c → size ≤ c
  lowerBoundToGrow_lt : ∀ oldSize < 2 ^ 48, G.lowerBoundToGrow oldSize < doNotClearBit
  keepsBlock_le : ∀ oldSize newSize, G.keepsBlock oldSize newSize = true → newSize ≤ oldSize

/-- The number of trailing zero bits, of the lowest `bits` ones. -/
def trailingZeros : (bits : Nat) → Nat → Nat
  | 0, _ => 0
  | bits + 1, n => if n % 2 = 1 then 0 else trailingZeros bits (n / 2) + 1

theorem two_pow_trailingZeros_dvd (bits n : Nat) : 2 ^ trailingZeros bits n ∣ n := by
  induction bits generalizing n with
  | zero => exact Nat.one_dvd n
  | succ bits ih =>
    unfold trailingZeros
    split
    · exact Nat.one_dvd n
    · obtain ⟨c, hc⟩ := ih (n / 2)
      exact ⟨c, by rw [Nat.pow_succ, Nat.mul_right_comm, ← hc]; omega⟩

theorem trailingZeros_le (bits n : Nat) : trailingZeros bits n ≤ bits := by
  induction bits generalizing n with
  | zero => exact Nat.le_refl 0
  | succ bits ih =>
    have := ih (n / 2)
    unfold trailingZeros
    split <;> omega

/-- `AlignmentBitsForSize` -/
def Gperftools.alignmentBitsForSize (G : Gperftools) (size : Nat) : Nat :=
  if size > G.kMaxSize then kPageShift else trailingZeros 64 size

/-- What a live page of the page heap is for: the span of objects that starts at a page, or the
metadata of that span. -/
inductive SpanPage where
  | object (start : Nat)
  | metadata (start : Nat)
  deriving DecidableEq

/-- A span of objects: small ones of a size class, or one large one. -/
structure Span where
  length : Nat
  objectSize : Nat
  large : Bool
  alignment : Nat
  metaStart : Nat
  metaLength : Nat
  deriving DecidableEq

/-- A block that an entry point returns, with its usable size. -/
structure Block where
  addr : Nat
  size : Nat
  deriving DecidableEq

/-- How the unpatched parts answer one allocation: the object a thread cache returns, the page at
which a span for it starts, and the page at which the metadata of that span starts, together with
the words that its recycled pages hold. -/
structure Answer where
  object : Option Nat
  span : Option Nat
  metaspan : Option (Nat × (Nat → Nat))

/-- The page table, the metadata, the page heap's live pages and spans, the sizes of the blocks in
use, and the block that the last step allocated. -/
structure HeapState where
  pageTable : PageTable
  mem : Memory
  pages : Pages SpanPage
  spans : Nat → Option Span
  live : Nat → Option Nat
  fresh : Option Block

namespace HeapState

/-- `PageHeap::New`: free pages, below the end of user space. -/
def newPages (s : HeapState) (start length : Nat) (owner : SpanPage) : Option HeapState :=
  if start = 0 ∨ length = 0 ∨ 2 ^ 47 < (start + length) * kPageSize then none
  else (PageMap.map s.pages start length owner).map fun pages => { s with pages }

/-- The length of the metadata span that a span asks for. -/
def metaspanLength (length alignment : Nat) : Nat :=
  let rounding_offset := (1 <<< alignment) - 1
  (length * FLAGS_METALLOC_METADATABYTES + rounding_offset) >>> alignment

/-- The pages of a metadata span as they come, with whatever they were last used for. -/
def recycle (mem : Memory) (start length : Nat) (contents : Nat → Nat) : Memory := fun address =>
  if InRange start length (address / kPageSize) then some (contents address) else mem address

/-- A span with its metadata span, registered in the page table. Without metadata the span is given
back. -/
def newSpan (s : HeapState) (a : Answer) (length objectSize alignment : Nat) (large : Bool) :
    Option (HeapState × Option Nat) :=
  match a.span, a.metaspan with
  | some start, some (metaStart, contents) => do
    let metaLength := metaspanLength length alignment
    let s ← s.newPages start length (.object start)
    let s ← s.newPages metaStart metaLength (.metadata start)
    let pageTable ← setMetapagetableEntries s.pageTable (start <<< kPageShift)
      (length <<< kPageShift) (metaStart <<< kPageShift) alignment
    return ({ s with
      pageTable
      mem := recycle s.mem metaStart metaLength contents
      spans := Function.update s.spans start
        (some ⟨length, objectSize, large, alignment, metaStart, metaLength⟩) }, some start)
  | _, _ => some (s, none)

/-- `GetDescriptor` -/
def spanOf (s : HeapState) (ptr : Nat) : Option (Nat × Span) :=
  match s.pages (ptr / kPageSize) with
  | some (.object start) => (s.spans start).map fun span => (start, span)
  | _ => none

/-- `clear_metadata_ptr`. The first word tells whether there is anything to clear. -/
def clearMetadataPtr (s : HeapState) (ptr size : Nat) : Option HeapState := do
  let page := ptr / METALLOC_PAGESIZE
  let entry := s.pageTable page
  let alignment := entry &&& 0xFF
  let metabase := entry >>> 8
  let metaptr :=
    metabase + ((ptr - page * METALLOC_PAGESIZE) >>> alignment) * FLAGS_METALLOC_METADATABYTES
  let result ← s.mem metaptr
  if result ≠ 0 then
    let metasize := (FLAGS_METALLOC_METADATABYTES / 8) * ((size + (1 <<< alignment) - 1) >>> alignment)
    return { s with mem := writes s.mem ((List.range metasize).map fun i => (metaptr + 8 * i, 0)) }
  else return s

/-- `Allocate` of the thread cache: a free object of the class. -/
def allocateSmall (s : HeapState) (a : Answer) (size : Nat) : Option (HeapState × Option Block) :=
  match a.object with
  | none => some (s, none)
  | some ptr => do
    let (start, span) ← s.spanOf ptr
    let offset := ptr - start * kPageSize
    if span.large = false ∧ span.objectSize = size ∧ start * kPageSize ≤ ptr ∧ offset % size = 0 ∧
        offset + size ≤ span.length * kPageSize ∧ s.live ptr = none then
      return ({ s with live := Function.update s.live ptr (some size) }, some ⟨ptr, size⟩)
    else none

/-- A span for one object, and the object. -/
def allocatePages (s : HeapState) (a : Answer) (length : Nat) :
    Option (HeapState × Option Block) := do
  let size := length * kPageSize
  let (s, start) ← s.newSpan a length size kPageShift true
  match start with
  | none => return (s, none)
  | some start =>
    let ptr := start * kPageSize
    return ({ s with live := Function.update s.live ptr (some size) }, some ⟨ptr, size⟩)

/-- The page-sized paths of `do_memalign`: a span, or the aligned part of a larger one, which the
answer gives. That part is used also where it has been given back for want of metadata: then the span
is null and the process ends. -/
def memalignPages (s : HeapState) (a : Answer) (align length : Nat) :
    Option (HeapState × Option Block) :=
  if kPageSize < align ∧ a.span.isSome ∧ a.metaspan.isNone then none
  else s.allocatePages a length

theorem allocatePages_of_memalign {s : HeapState} {a : Answer} {align length : Nat}
    {r : HeapState × Option Block} (h : s.memalignPages a align length = some r) :
    s.allocatePages a length = some r := by
  unfold memalignPages at h
  split at h
  · cases h
  · exact h

end HeapState

/-- The size of a request without the flag. -/
def clearSize (size : Nat) : Nat := size &&& (doNotClearBit - 1)

/-- The flag of a request. -/
def flagOf (size : Nat) : Nat := size &&& doNotClearBit

namespace Gperftools

variable (G : Gperftools)

/-- The request goes to `do_malloc_small`. -/
def servesSmall (size : Nat) : Bool :=
  (match G.minSizeForSlowPath with
    | some m => decide (size < m)
    | none => false) || size ≤ G.kMaxSize

/-- The block that `do_malloc` takes, and the size that its helpers leave in `size`. -/
def takeBlock (s : HeapState) (a : Answer) (size : Nat) : Option (HeapState × Option Block) :=
  if G.servesSmall size then s.allocateSmall a (G.classToSize size)
  else s.allocatePages a (G.pages size)

def takenSize (size : Nat) : Nat :=
  if G.servesSmall size then G.classToSize size else G.pages size * kPageSize

/-- The metadata of a result is cleared, also where there is no block: then at page 0. -/
def clearResult (doNotClear : Bool) (size : Nat) (taken : HeapState × Option Block) :
    Option (HeapState × Option Block) :=
  if doNotClear then some taken
  else (taken.1.clearMetadataPtr (taken.2.elim 0 Block.addr) size).map fun s => (s, taken.2)

/-- `do_malloc` -/
def doMalloc (s : HeapState) (a : Answer) (size : Nat) : Option (HeapState × Option Block) :=
  let doNotClear := flagOf size ≠ 0
  let size := clearSize size
  (G.takeBlock s a size).bind (clearResult doNotClear (G.takenSize size))

/-- `do_calloc` -/
def doCalloc (s : HeapState) (a : Answer) (n elem_size : Nat) :
    Option (HeapState × Option Block) :=
  let doNotClearFlag := flagOf elem_size
  let elem_size := clearSize elem_size
  let size := n * elem_size % 2 ^ 64
  if elem_size ≠ 0 ∧ size / elem_size ≠ n then some (s, none)
  else G.doMalloc s a (size ||| doNotClearFlag)

/-- The size class that `do_memalign` finds, if it looks for one. -/
def smallAlignedClass (align size : Nat) : Option Nat :=
  if size ≤ G.kMaxSize ∧ align < kPageSize then G.alignedClassSize align size else none

/-- `do_memalign` -/
def doMemalign (s : HeapState) (a : Answer) (align size : Nat) :
    Option (HeapState × Option Block) :=
  let doNotClearFlag := flagOf size
  let size := clearSize size
  if (size + align) % 2 ^ 64 < size then some (s, none)
  else if align ≤ G.alignmentForSize size then G.doMalloc s a (size ||| doNotClearFlag)
  else
    let size := if size = 0 then 1 else size
    match G.smallAlignedClass align size with
    | some size => (s.allocateSmall a size).bind (clearResult (doNotClearFlag ≠ 0) size)
    | none => s.memalignPages a align (G.pages size)

end Gperftools

namespace HeapState

/-- A span goes back to the page heap with the metadata span that the page table names. -/
def deleteSpan (s : HeapState) (start : Nat) (span : Span) : Option HeapState := do
  let metaentry := s.pageTable ((start <<< kPageShift) / METALLOC_PAGESIZE)
  let pageTable ← setMetapagetableEntries s.pageTable (start <<< kPageShift)
    (span.length <<< kPageShift) 0 0
  let metapage := (metaentry >>> 8) >>> kPageShift
  if metapage = span.metaStart then
    return { s with
      pageTable
      pages := PageMap.unmap (PageMap.unmap s.pages span.metaStart span.metaLength) start span.length
      spans := Function.update s.spans start none }
  else none

/-- `do_free_helper`: a small object goes to a free list, a large one takes its span with it. -/
def doFree (s : HeapState) (ptr : Nat) : Option HeapState := do
  let _ ← s.live ptr
  let (start, span) ← s.spanOf ptr
  let s := { s with live := Function.update s.live ptr none }
  if span.large then s.deleteSpan start span else return s

/-- `CentralFreeList::Populate` -/
def populate (G : Gperftools) (s : HeapState) (a : Answer) (objectSize : Nat) : Option HeapState :=
  (s.newSpan a (G.classToPages objectSize) objectSize (G.alignmentBitsForSize objectSize) false).map
    Prod.fst

/-- `CentralFreeList::ReleaseToSpans`, when the last object of a span has come back. -/
def releaseSpan (s : HeapState) (start : Nat) : Option HeapState := do
  let span ← s.spans start
  if span.large = false ∧ ∀ j < span.length * kPageSize / span.objectSize,
      s.live (start * kPageSize + j * span.objectSize) = none then
    s.deleteSpan start span
  else none

end HeapState

namespace Gperftools

variable (G : Gperftools)

/-- The new block of a `realloc`: with room to grow if the growth is small, else as asked for. -/
def reallocBlock (s : HeapState) (grown exact : Answer) (old_size new_size doNotClearFlag : Nat) :
    Option (HeapState × Option Block) :=
  let lower_bound_to_grow := G.lowerBoundToGrow old_size
  let tried :=
    if new_size > old_size ∧ new_size < lower_bound_to_grow then
      G.doMalloc s grown (lower_bound_to_grow ||| doNotClearFlag)
    else some (s, none)
  tried.bind fun r =>
    match r.2 with
    | some _ => some r
    | none => G.doMalloc r.1 exact (new_size ||| doNotClearFlag)

/-- `do_realloc_with_callback`, on a block in use. -/
def doRealloc (s : HeapState) (grown exact : Answer) (old : Block) (new_size : Nat) :
    Option (HeapState × Option Block) :=
  let doNotClearFlag := flagOf new_size
  let new_size := clearSize new_size
  if G.keepsBlock old.size new_size then some (s, some old)
  else
    (G.reallocBlock s grown exact old.size new_size doNotClearFlag).bind fun r =>
      match r.2 with
      | none => some r
      | some block => (r.1.doFree old.addr).map fun s => (s, some block)

end Gperftools

end TypeSan
