import TypeSan.HeapInvariant

/-! The span paths of the patched tcmalloc, down to the single calls of the page heap. -/
namespace TypeSan

open PageMap

/-- What a span in use is for: objects of a size class, one large object, or metadata. -/
inductive SpanUse where
  | small (objectSize : Nat)
  | large
  | metadata
  deriving DecidableEq

/-- A span in use. -/
structure HeapSpan where
  start : Nat
  length : Nat
  use : SpanUse
  deriving DecidableEq

/-- A span that the page heap hands out, and the page-table words that the hooks write while it
grows. -/
structure Grant where
  start : Nat
  length : Nat
  hooked : List (Nat × Nat)

/-- The answers of the page heap to the two requests of one operation, and the pages that
`do_memalign` skips. -/
structure SpanAnswer where
  span : Option Grant
  skip : Nat
  metaspan : Option Grant

/-- What ends an operation: a null span is used, a span is given back that is not in use, the page
table refuses a range. The last is not a fault of the code: the page heap does not answer so. -/
inductive HeapFault where
  | nullSpan
  | notInUse
  | pageRange
  | undocumented
  deriving DecidableEq

/-- The page table, and the spans that the page heap has given out. -/
structure PageHeap where
  pageTable : PageTable
  spans : List HeapSpan

namespace HeapSpan

/-- The span shares no page with another one. -/
def Apart (a b : HeapSpan) : Prop := a.start + a.length ≤ b.start ∨ b.start + b.length ≤ a.start

instance (a b : HeapSpan) : Decidable (a.Apart b) := inferInstanceAs (Decidable (_ ∨ _))

/-- The pages lie in user space, past the null page. -/
def Fits (a : HeapSpan) : Prop :=
  0 < a.start ∧ 0 < a.length ∧ (a.start + a.length) * kPageSize ≤ 2 ^ 47

instance (a : HeapSpan) : Decidable a.Fits := inferInstanceAs (Decidable (_ ∧ _))

/-- A page of the page table lies in the span. -/
def Covers (a : HeapSpan) (page : Nat) : Prop := InRange a.start a.length (page / 2)

instance (a : HeapSpan) (page : Nat) : Decidable (a.Covers page) :=
  inferInstanceAs (Decidable (InRange _ _ _))

end HeapSpan

/-- Words written to the page table. -/
def hookWords (pageTable : PageTable) : List (Nat × Nat) → PageTable
  | [] => pageTable
  | (page, entry) :: rest => hookWords (Function.update pageTable page entry) rest

namespace PageHeap

variable (s : PageHeap)

/-- The hooks write to no page of a span in use. -/
def HooksApart (words : List (Nat × Nat)) : Prop :=
  ∀ word ∈ words, ∀ span ∈ s.spans, ¬ span.Covers word.1

instance (words : List (Nat × Nat)) : Decidable (s.HooksApart words) :=
  inferInstanceAs (Decidable (∀ word ∈ words, ∀ span ∈ s.spans, ¬ span.Covers word.1))

/-- The page heap may hand the span out: at least as long as asked for, and apart from all others. -/
def Documented (length : Nat) (span : HeapSpan) (hooked : List (Nat × Nat)) : Prop :=
  length ≤ span.length ∧ span.Fits ∧ (∀ other ∈ s.spans, span.Apart other) ∧ s.HooksApart hooked

instance (length : Nat) (span : HeapSpan) (hooked : List (Nat × Nat)) :
    Decidable (s.Documented length span hooked) := inferInstanceAs (Decidable (_ ∧ _ ∧ _ ∧ _))

/-- `PageHeap::New`, for the use that the caller makes of the span. -/
def new (length : Nat) (use : SpanUse) (answer : Option Grant) :
    Except HeapFault (PageHeap × Option HeapSpan) :=
  match answer with
  | none => .ok (s, none)
  | some g =>
    let span : HeapSpan := ⟨g.start, g.length, use⟩
    if s.Documented length span g.hooked then
      .ok (⟨hookWords s.pageTable g.hooked, span :: s.spans⟩, some span)
    else .error .undocumented

/-- `PageHeap::Delete` -/
def delete (span : Option HeapSpan) : Except HeapFault PageHeap :=
  match span with
  | none => .error .nullSpan
  | some span =>
    if span ∈ s.spans then .ok { s with spans := s.spans.erase span } else .error .notInUse

/-- `PageHeap::Split`: the first `n` pages, and the rest. -/
def split (span : HeapSpan) (n : Nat) : Except HeapFault (PageHeap × HeapSpan × HeapSpan) :=
  if span ∈ s.spans ∧ 0 < n ∧ n < span.length then
    let front : HeapSpan := { span with length := n }
    let rest : HeapSpan := { span with start := span.start + n, length := span.length - n }
    .ok ({ s with spans := front :: rest :: s.spans.erase span }, front, rest)
  else .error .notInUse

/-- `PageHeap::GetDescriptor`, for the first page of a span. -/
def getDescriptor (page : Nat) : Option HeapSpan := s.spans.find? fun span => span.start = page

/-- `set_metapagetable_entries` -/
def setEntries (ptr size metaptr alignment : Nat) : Except HeapFault PageHeap :=
  match setMetapagetableEntries s.pageTable ptr size metaptr alignment with
  | none => .error .pageRange
  | some pageTable => .ok { s with pageTable }

/-- A span gets its metadata span, or is given back. -/
def attachMetadata (span : HeapSpan) (alignment : Nat) (answer : Option Grant) :
    Except HeapFault (PageHeap × Option HeapSpan) := do
  match ← s.new (HeapState.metaspanLength span.length alignment) .metadata answer with
  | (s, some metaspan) =>
    let s ← s.setEntries (span.start <<< kPageShift) (span.length <<< kPageShift)
      (metaspan.start <<< kPageShift) alignment
    return (s, some span)
  | (s, none) =>
    let s ← s.delete (some span)
    return (s, none)

/-- The metadata span that the page table names goes back, and then the span. -/
def dissolve (span : HeapSpan) : Except HeapFault PageHeap := do
  let metaentry := s.pageTable ((span.start <<< kPageShift) / METALLOC_PAGESIZE)
  let s ← s.setEntries (span.start <<< kPageShift) (span.length <<< kPageShift) 0 0
  let metapage := (metaentry >>> 8) >>> kPageShift
  let s ← s.delete (s.getDescriptor metapage)
  s.delete (some span)

/-- `CentralFreeList::ReleaseToSpans`, of a span of small objects whose last one has come back. -/
def releaseToSpans (span : HeapSpan) : Except HeapFault PageHeap := s.dissolve span

/-- `do_free_helper`, of a large object. -/
def doFreeHelper (span : HeapSpan) : Except HeapFault PageHeap := s.dissolve span

end PageHeap

namespace Gperftools

variable (G : Gperftools) (s : PageHeap)

/-- `CentralFreeList::Populate` -/
def populateSpan (objectSize : Nat) (a : SpanAnswer) :
    Except HeapFault (PageHeap × Option HeapSpan) := do
  match ← s.new (G.classToPages objectSize) (.small objectSize) a.span with
  | (s, none) => return (s, none)
  | (s, some span) => s.attachMetadata span (G.alignmentBitsForSize objectSize) a.metaspan

/-- A span for one large object. -/
def largeSpan (size : Nat) (a : SpanAnswer) : Except HeapFault (PageHeap × Option HeapSpan) := do
  match ← s.new (G.pages size) .large a.span with
  | (s, none) => return (s, none)
  | (s, some span) => s.attachMetadata span kPageShift a.metaspan

/-- `do_malloc_pages` -/
def doMallocPages (size : Nat) (a : SpanAnswer) : Except HeapFault (PageHeap × Option HeapSpan) :=
  G.largeSpan s size a

/-- The starting pages that `do_memalign` skips are given back. -/
def skipPages (span : HeapSpan) (skip : Nat) : Except HeapFault (PageHeap × HeapSpan) :=
  if 0 < skip then do
    let (s, front, rest) ← s.split span skip
    let s ← s.delete (some front)
    return (s, rest)
  else return (s, span)

/-- So are the trailing pages that it does not need. -/
def dropTrailer (span : HeapSpan) (needed : Nat) : Except HeapFault (PageHeap × HeapSpan) :=
  if needed < span.length then do
    let (s, span, trailer) ← s.split span needed
    let s ← s.delete (some trailer)
    return (s, span)
  else return (s, span)

/-- The pages that are skipped leave an aligned span that is long enough. -/
def Skips (span : HeapSpan) (align skip needed : Nat) : Prop :=
  ((span.start + skip) <<< kPageShift) % align = 0 ∧ skip + needed ≤ span.length

instance (span : HeapSpan) (align skip needed : Nat) : Decidable (Skips span align skip needed) :=
  inferInstanceAs (Decidable (_ ∧ _))

/-- The last path of `do_memalign`: an aligned part of a larger span. It does not ask whether the span
is still there. -/
def alignedSpan (align size : Nat) (a : SpanAnswer) :
    Except HeapFault (PageHeap × Option HeapSpan) := do
  match ← s.new (G.pages (size + align)) .large a.span with
  | (s, none) => return (s, none)
  | (s, some span) =>
    let needed := G.pages size
    if Skips span align a.skip needed then
      let (s, span) ← skipPages s span a.skip
      let (s, span) ← dropTrailer s span needed
      match ← s.attachMetadata span kPageShift a.metaspan with
      | (_, none) => throw .nullSpan
      | (s, some span) => return (s, some span)
    else throw .undocumented

/-- `do_memalign`, where it takes a span of its own. -/
def memalignPages (align size : Nat) (a : SpanAnswer) :
    Except HeapFault (PageHeap × Option HeapSpan) :=
  let size := clearSize size
  if (size + align) % 2 ^ 64 < size then .ok (s, none)
  else
    let size := if size = 0 then 1 else size
    if align ≤ kPageSize then G.largeSpan s size a else G.alignedSpan s align size a

end Gperftools

/-- One operation on spans, or words that the hooks write for other mappings. -/
inductive SpanEvent where
  | populate (objectSize : Nat) (a : SpanAnswer)
  | doMallocPages (size : Nat) (a : SpanAnswer)
  | doMemalign (align size : Nat) (a : SpanAnswer)
  | releaseToSpans (start : Nat)
  | doFreeHelper (start : Nat)
  | hooks (words : List (Nat × Nat))

/-- Whether a span has a size class. -/
def SpanUse.isSmall : SpanUse → Bool
  | .small _ => true
  | _ => false

namespace PageHeap

/-- The operation is on a live span of its kind. -/
def onSpan (s : PageHeap) (start : Nat) (kind : SpanUse → Bool)
    (operation : HeapSpan → Except HeapFault PageHeap) : Except HeapFault PageHeap :=
  match s.getDescriptor start with
  | none => .error .undocumented
  | some span => if kind span.use then operation span else .error .undocumented

/-- Before the first span. -/
def initial : PageHeap := ⟨fun _ => 0, []⟩

end PageHeap

namespace Gperftools

variable (G : Gperftools) (s : PageHeap)

/-- How an operation ends. -/
def outcome : SpanEvent → Except HeapFault PageHeap
  | .populate objectSize a => (G.populateSpan s objectSize a).map Prod.fst
  | .doMallocPages size a => (G.doMallocPages s size a).map Prod.fst
  | .doMemalign align size a => (G.memalignPages s align size a).map Prod.fst
  | .releaseToSpans start => s.onSpan start SpanUse.isSmall s.releaseToSpans
  | .doFreeHelper start => s.onSpan start (· = .large) s.doFreeHelper
  | .hooks words =>
    if s.HooksApart words then .ok { s with pageTable := hookWords s.pageTable words }
    else .error .undocumented

/-- A step of a run: an operation that ends without a fault. -/
def spanStep (s : PageHeap) (e : SpanEvent) : Option PageHeap := (G.outcome s e).toOption

end Gperftools

end TypeSan
