import TypeSan.HeapTypes
import TypeSan.ProcessMemory

/-! The heap as a part of a process: the pages it owns, and that it leaves the others alone. -/
namespace TypeSan

open PageMap Rounding Runs SharedStore WordMemory

namespace HeapState

/-- Where neither state has pages, nothing is written. -/
structure Outside (s s' : HeapState) : Prop where
  entry : ∀ page, s.pages (page / 2) = none → s'.pages (page / 2) = none →
    s'.pageTable page = s.pageTable page
  word : ∀ address, s.pages (address / kPageSize) = none → s'.pages (address / kPageSize) = none →
    s'.mem address = s.mem address

/-- No page is given back, and nothing is written where there are no pages in the end. -/
structure Grows (s s' : HeapState) : Prop where
  pages : ∀ page, s'.pages page = none → s.pages page = none
  entry : ∀ page, s'.pages (page / 2) = none → s'.pageTable page = s.pageTable page
  word : ∀ address, s'.pages (address / kPageSize) = none → s'.mem address = s.mem address

variable {s s' s'' : HeapState} {a : Answer} {ptr start length alignment objectSize size : Nat}
  {sp : Span} {j : Nat} {large : Bool} {stores : List Store} {r : Option Block}

theorem Grows.refl (s : HeapState) : s.Grows s := ⟨fun _ h => h, fun _ _ => rfl, fun _ _ => rfl⟩

theorem Grows.trans (h : s.Grows s') (h' : s'.Grows s'') : s.Grows s'' where
  pages page hpage := h.pages page (h'.pages page hpage)
  entry page hpage := (h'.entry page hpage).trans (h.entry page (h'.pages _ hpage))
  word address haddress :=
    (h'.word address haddress).trans (h.word address (h'.pages _ haddress))

theorem Grows.outside (h : s.Grows s') : s.Outside s' :=
  ⟨fun page _ hpage => h.entry page hpage, fun address _ haddress => h.word address haddress⟩

/-! What only takes pages. -/

theorem newPage_none {pages pages' : Pages SpanPage} {first count page : Nat} {owner : SpanPage}
    (h : PageMap.map pages first count owner = some pages') (hpage : pages' page = none) :
    pages page = none ∧ ¬ InRange first count page := by
  obtain ⟨-, rfl⟩ := map_eq h
  simp only at hpage
  split at hpage
  · cases hpage
  · rename_i hout
    exact ⟨hpage, hout⟩

theorem SpanAdded.grows {contents : Nat → Nat} (h : s.SpanAdded start sp contents s') :
    s.Grows s' := by
  obtain ⟨pages, hobject, hmeta⟩ := h.pages
  have hout {page : Nat} (hpage : s'.pages page = none) :
      s.pages page = none ∧ ¬ InRange start sp.length page ∧
        ¬ InRange sp.metaStart sp.metaLength page := by
    obtain ⟨hold, hnotMeta⟩ := newPage_none hmeta hpage
    obtain ⟨hold, hnotObject⟩ := newPage_none hobject hold
    exact ⟨hold, hnotObject, hnotMeta⟩
  refine ⟨fun page hpage => (hout hpage).1, fun page hpage => ?_, fun address haddress => ?_⟩
  · obtain ⟨-, htable⟩ := setMetapagetableEntries_eq h.table
    rw [htable, setEntries_apply, if_neg]
    rintro ⟨hlo, hhi⟩
    refine (hout hpage).2.1 ⟨?_, ?_⟩ <;>
      simp only [kPageSize, kPageShift, METALLOC_PAGESIZE, METALLOC_PAGESHIFT] at * <;> omega
  · rw [h.mem, recycle, if_neg (hout haddress).2.2]

theorem newSpan_grows {r : Option Nat}
    (h : s.newSpan a length objectSize alignment large = some (s', r)) : s.Grows s' := by
  rcases newSpan_cases h with ⟨-, rfl⟩ | ⟨_, _, _, _, _, hadded⟩
  · exact Grows.refl s'
  · exact hadded.grows

/-- The metadata of an object is on pages of its span. -/
theorem InOrder.grows_writes (hi : s.InOrder) (ho : ObjectAt s.spans ptr start sp j)
    (hwithin : sp.Within j stores) : s.Grows { s with mem := WordMemory.writes s.mem stores } := by
  refine ⟨fun _ hpage => hpage, fun _ _ => rfl, fun address haddress => ?_⟩
  refine writes_of_forall_ne fun st hst heq => ?_
  have hpage := (hi.ok ho).store_page ho.has hwithin hst
  have howned := (hi.ok ho).meta_pages _ hpage
  rw [← heq] at howned
  exact Option.some_ne_none _ (howned.symm.trans haddress)

theorem allocateSmall_grows (h : s.allocateSmall a size = some (s', r)) : s.Grows s' := by
  unfold allocateSmall at h
  split at h
  · cases h
    exact Grows.refl s
  · obtain ⟨_, _, h⟩ := Option.bind_eq_some_iff.mp h
    obtain ⟨_, h⟩ := Option.ite_none_right_eq_some.mp h
    cases h
    exact ⟨fun _ hpage => hpage, fun _ _ => rfl, fun _ _ => rfl⟩

theorem allocatePages_grows (h : s.allocatePages a length = some (s', r)) : s.Grows s' := by
  obtain ⟨⟨s₁, start⟩, hspan, hrun⟩ := Option.bind_eq_some_iff.mp h
  have hgrows := newSpan_grows hspan
  cases start with
  | none =>
    cases hrun
    exact hgrows
  | some start =>
    cases hrun
    exact ⟨hgrows.pages, hgrows.entry, hgrows.word⟩

theorem Took.clearResult_grows {keep : Bool} {s₁ : HeapState} {r₁ : Option Block}
    (h₁ : s.Took s₁ r₁) (hsize : ∀ b, r₁ = some b → b.size = size)
    (h : Gperftools.clearResult keep size (s₁, r₁) = some (s', r)) : s₁.Grows s' := by
  unfold Gperftools.clearResult at h
  split at h
  · cases h
    exact Grows.refl _
  obtain ⟨s₂, hclear, heq⟩ := Option.map_eq_some_iff.mp h
  cases heq
  cases r₁ with
  | none =>
    have hslot : metadataPtr s₁.pageTable 0 = 0 := by
      simp [metadataPtr, h₁.inOrder.null_page]
    rw [Option.elim_none, clearMetadataPtr_eq, hslot, h₁.inOrder.null_unmapped] at hclear
    cases hclear
  | some b =>
    obtain ⟨start, sp, j, ho, hobject⟩ := h₁.object b rfl
    have hok := h₁.inOrder.ok ho
    have hreg : Registered s₁.pageTable (start * kPageSize) (sp.length * kPageSize)
        (sp.metaStart * kPageSize) sp.alignment := hok.registered
    rw [Option.elim_some, ← hsize b rfl, hobject, ho.addr,
      clearMetadataPtr_object hok.size_eq hok.objectSize_pos hreg ho.has] at hclear
    obtain ⟨word, -, hclear⟩ := Option.bind_eq_some_iff.mp hclear
    split at hclear
    · cases hclear
      exact h₁.inOrder.grows_writes ho within_clearStores
    · cases hclear
      exact Grows.refl _

/-! What gives pages back. -/

/-- Nothing but the entries and the ownership of a span's pages has changed. -/
structure OnlySpan (start : Nat) (sp : Span) (s s' : HeapState) : Prop where
  mem : s'.mem = s.mem
  entry : ∀ page, ¬ InRange start sp.length (page / 2) → s'.pageTable page = s.pageTable page
  pages : ∀ page, ¬ InRange start sp.length page → ¬ InRange sp.metaStart sp.metaLength page →
    s'.pages page = s.pages page

theorem deleteSpan_onlySpan (h : s.deleteSpan start sp = some s') : OnlySpan start sp s s' := by
  rw [deleteSpan_eq h]
  refine ⟨rfl, fun page hpage => ?_, fun page hobject hmeta => ?_⟩
  · simp only [setEntries_apply]
    rw [if_neg]
    rintro ⟨hlo, hhi⟩
    refine hpage ⟨?_, ?_⟩ <;>
      simp only [kPageSize, kPageShift, METALLOC_PAGESIZE, METALLOC_PAGESHIFT] at * <;> omega
  · simp only [unmap, if_neg hobject, if_neg hmeta]

theorem InOrder.free_onlySpan (hi : s.InOrder) (ho : ObjectAt s.spans ptr start sp j)
    (h : s.doFree ptr = some s') : OnlySpan start sp s s' := by
  have hspan : s.spanOf ptr = some (start, sp) := hi.inv.spanOf_eq ho
  obtain ⟨_, -, h⟩ := Option.bind_eq_some_iff.mp h
  obtain ⟨⟨start', sp'⟩, hspan', h⟩ := Option.bind_eq_some_iff.mp h
  cases hspan.symm.trans hspan'
  simp only at h
  split at h
  · obtain ⟨hmem, hentry, hpages⟩ := deleteSpan_onlySpan h
    exact ⟨hmem, hentry, hpages⟩
  · cases h
    exact ⟨rfl, fun _ _ => rfl, fun _ _ _ => rfl⟩

/-- Pages that were free are not those of a span. -/
theorem InOrder.not_inRange (hi : s.InOrder) (hspan : s.spans start = some sp) {page : Nat}
    (hpage : s.pages page = none) :
    ¬ InRange start sp.length page ∧ ¬ InRange sp.metaStart sp.metaLength page := by
  have hok := hi.inv.span_ok start sp hspan
  refine ⟨fun hin => ?_, fun hin => ?_⟩
  · exact Option.some_ne_none _ ((hok.object_pages _ hin).symm.trans hpage)
  · exact Option.some_ne_none _ ((hok.meta_pages _ hin).symm.trans hpage)

/-- A span that was there before may be deleted after the heap has grown. -/
theorem Grows.outside_onlySpan (hgrows : s.Grows s') (hi : s.InOrder)
    (hspan : s.spans start = some sp) (h : OnlySpan start sp s' s'') : s.Outside s'' := by
  refine ⟨fun page hold hnew => ?_, fun address hold hnew => ?_⟩
  · obtain ⟨hobject, hmeta⟩ := hi.not_inRange hspan hold
    rw [h.pages _ hobject hmeta] at hnew
    rw [h.entry page hobject, hgrows.entry page hnew]
  · obtain ⟨hobject, hmeta⟩ := hi.not_inRange hspan hold
    rw [h.pages _ hobject hmeta] at hnew
    rw [h.mem, hgrows.word address hnew]

end HeapState

namespace Gperftools

open HeapState

variable {G : Gperftools} {addrOf : String → Nat} {s s' : HeapState} {a : Answer} {ptr size : Nat}
  {r : Option Block}

theorem takeBlock_grows (h : G.takeBlock s a size = some (s', r)) : s.Grows s' := by
  unfold takeBlock at h
  split at h
  · exact allocateSmall_grows h
  · exact allocatePages_grows h

theorem doMalloc_grows (hi : s.InOrder) (h : G.doMalloc s a size = some (s', r)) : s.Grows s' := by
  obtain ⟨⟨s₁, r₁⟩, htake, hclear⟩ := Option.bind_eq_some_iff.mp h
  obtain ⟨htook, hsize⟩ := took_takeBlock hi htake
  exact (takeBlock_grows htake).trans (htook.clearResult_grows hsize hclear)

theorem doCalloc_grows {n elem_size : Nat} (hi : s.InOrder)
    (h : G.doCalloc s a n elem_size = some (s', r)) : s.Grows s' := by
  simp only [doCalloc] at h
  split at h
  · cases h
    exact Grows.refl s
  · exact doMalloc_grows hi h

theorem doMemalign_grows {align : Nat} (hi : s.InOrder)
    (h : G.doMemalign s a align size = some (s', r)) : s.Grows s' := by
  simp only [doMemalign] at h
  split at h
  · cases h
    exact Grows.refl s
  split at h
  · exact doMalloc_grows hi h
  split at h
  · obtain ⟨⟨s₁, r₁⟩, htake, hclear⟩ := Option.bind_eq_some_iff.mp h
    obtain ⟨htook, hsize⟩ := hi.allocateSmall htake
    exact (allocateSmall_grows htake).trans (htook.clearResult_grows hsize hclear)
  · exact allocatePages_grows (allocatePages_of_memalign h)

theorem reallocBlock_grows {grown exact : Answer} {old_size new_size flag : Nat} (hi : s.InOrder)
    (h : G.reallocBlock s grown exact old_size new_size flag = some (s', r)) :
    s.Took s' r ∧ s.Grows s' := by
  obtain ⟨⟨s₁, r₁⟩, htried, hexact⟩ := Option.bind_eq_some_iff.mp h
  have hfirst : s.Took s₁ r₁ ∧ s.Grows s₁ := by
    split at htried
    · exact ⟨took_doMalloc hi htried, doMalloc_grows hi htried⟩
    · cases htried
      exact ⟨Took.nothing hi (Frame.refl _), Grows.refl s⟩
  cases r₁ with
  | none =>
    exact ⟨hfirst.1.trans hi (took_doMalloc hfirst.1.inOrder hexact),
      hfirst.2.trans (doMalloc_grows hfirst.1.inOrder hexact)⟩
  | some b =>
    cases hexact
    exact hfirst

/-- A block that moves is freed after the heap has grown. -/
theorem doRealloc_outside {grown exact : Answer} {old : Block} {new_size : Nat} (hi : s.InOrder)
    (hlive : s.live old.addr = some old.size)
    (h : G.doRealloc s grown exact old new_size = some (s', r)) : s.Outside s' := by
  simp only [doRealloc] at h
  split at h
  · cases h
    exact (Grows.refl _).outside
  obtain ⟨⟨s₁, r₁⟩, hblock, hrest⟩ := Option.bind_eq_some_iff.mp h
  obtain ⟨htook, hgrows⟩ := reallocBlock_grows hi hblock
  cases r₁ with
  | none =>
    cases hrest
    exact hgrows.outside
  | some b =>
    obtain ⟨s₂, hfree, heq⟩ := Option.map_eq_some_iff.mp hrest
    cases heq
    obtain ⟨start, sp, j, ho, hsize⟩ := hi.object hlive
    obtain ⟨-, ho', -⟩ := htook.frame old.addr start sp j (hsize ▸ hlive) ho
    exact hgrows.outside_onlySpan hi ho.span (htook.inOrder.free_onlySpan ho' hfree)

/-- No step of the heap writes where the heap has no pages. -/
theorem step_outside {e : HeapEvent} (hi : s.InOrder) (h : G.step addrOf s e = some s') :
    s.Outside s' := by
  have hsettled {s₁ : HeapState} (h : s.Outside s₁) : s.Outside s₁.settled := ⟨h.entry, h.word⟩
  have hallocated {p : HeapState × Option Block} (h : s.Outside p.1) : s.Outside (allocated p) :=
    ⟨h.entry, h.word⟩
  cases e with
  | populate a objectSize =>
    obtain ⟨-, h⟩ := Option.ite_none_right_eq_some.mp h
    obtain ⟨s₁, hs₁, rfl⟩ := Option.map_eq_some_iff.mp h
    obtain ⟨⟨s₁, r⟩, hspan, rfl⟩ := Option.map_eq_some_iff.mp hs₁
    exact hsettled (newSpan_grows hspan).outside
  | releaseSpan start =>
    obtain ⟨s₁, hs₁, rfl⟩ := Option.map_eq_some_iff.mp h
    obtain ⟨sp, hsp, hrelease⟩ := Option.bind_eq_some_iff.mp hs₁
    obtain ⟨-, hdelete⟩ := Option.ite_none_right_eq_some.mp hrelease
    exact hsettled ((Grows.refl s).outside_onlySpan hi hsp (deleteSpan_onlySpan hdelete))
  | malloc a size =>
    obtain ⟨r, hr, rfl⟩ := Option.map_eq_some_iff.mp h
    exact hallocated (doMalloc_grows hi hr).outside
  | calloc a n elem_size =>
    obtain ⟨r, hr, rfl⟩ := Option.map_eq_some_iff.mp h
    exact hallocated (doCalloc_grows hi hr).outside
  | realloc grown exact old new_size =>
    obtain ⟨size, hsize, h⟩ := Option.bind_eq_some_iff.mp h
    obtain ⟨r, hr, rfl⟩ := Option.map_eq_some_iff.mp h
    exact hallocated (doRealloc_outside hi hsize hr)
  | memalign a align size =>
    obtain ⟨r, hr, rfl⟩ := Option.map_eq_some_iff.mp h
    exact hallocated (doMemalign_grows hi hr).outside
  | free old =>
    obtain ⟨s₁, hs₁, rfl⟩ := Option.map_eq_some_iff.mp h
    obtain ⟨size, hsize, -⟩ := Option.bind_eq_some_iff.mp hs₁
    obtain ⟨start, sp, j, ho, rfl⟩ := hi.object hsize
    exact hsettled ((Grows.refl s).outside_onlySpan hi ho.span (hi.free_onlySpan ho hs₁))
  | update old u =>
    obtain ⟨s₁, hs₁, rfl⟩ := Option.map_eq_some_iff.mp h
    obtain ⟨start, sp, j, E, c, stores, ho, -, -, -, -, hwithin, rfl⟩ := hi.typeBlock_eq hs₁
    exact hsettled (hi.grows_writes ho hwithin).outside

end Gperftools

/-! The part. -/

/-- What the heap does in a process: a step, for the code of a module with its tables, or a store of
the program to a page of a span. -/
inductive HeapPartEvent where
  | step (addrOf : String → Nat) (e : HeapEvent)
  | store (address word : Nat)

namespace HeapState

/-- The heap, with the memory of the process. -/
def onMemory (s : HeapState) (m : ProcessMemory) : HeapState :=
  { s with pageTable := m.pageTable, mem := m.mem }

def memory (s : HeapState) : ProcessMemory := ⟨s.pageTable, s.mem⟩

/-- The page at null, and what is on live pages. -/
def owned (s : HeapState) : Set Cell := {c | c.page = 0 ∨ (s.pages (c.page / 2)).isSome}

end HeapState

def heapPart (G : Gperftools) : Part ProcessMemory Cell where
  State := HeapState
  Event := HeapPartEvent
  step s m
    | .step addrOf e => (G.step addrOf (s.onMemory m) e).map fun s' => (s', s'.memory)
    | .store address word => some (s, { m with mem := write m.mem (address, word) })
  Orderly s _
    | .step .. => True
    | .store address _ =>
      address ≠ 0 ∧ ∃ start, s.pages (address / kPageSize) = some (.object start)
  Inv s m := (s.onMemory m).InOrder
  owns s := s.owned

namespace HeapState

variable {s : HeapState} {m m' : ProcessMemory} {ptr : Nat}

theorem page_div_two (address : Nat) :
    (Cell.word address).page / 2 = address / kPageSize := by
  simp only [Cell.page, Nat.div_div_eq_div_mul]
  rfl

/-- The heap depends on the entries of its objects and the words of its metadata, and on the page at
null. -/
theorem InOrder.congr (hi : (s.onMemory m).InOrder)
    (hentry : ∀ page start, s.pages (page / 2) = some (.object start) →
      m'.pageTable page = m.pageTable page)
    (hword : ∀ address start, s.pages (address / kPageSize) = some (.metadata start) →
      m'.mem address = m.mem address)
    (hpage : m'.pageTable 0 = m.pageTable 0) (hnull : m'.mem 0 = m.mem 0) :
    (s.onMemory m').InOrder ∧ ∀ ptr, (s.onMemory m).Frame (s.onMemory m') ptr := by
  refine ⟨⟨⟨fun start sp hsp => ?_, hi.inv.object_live, ?_, ?_⟩, hi.low⟩, ?_⟩
  · have hok := hi.inv.span_ok start sp hsp
    refine hok.frame hok.object_pages hok.meta_pages (fun page hin => ?_) fun address hin => ?_
    · exact hentry page start (hok.object_pages _ hin)
    · simp only [blank, onMemory, hword address start (hok.meta_pages _ hin)]
  · exact hpage.trans hi.null_page
  · simpa only [blank, onMemory, hnull] using hi.inv.null_unmapped
  · intro ptr start sp j hlive ho
    have hok := hi.ok ho
    refine ⟨hlive, ho, fun i hgrain => ⟨?_, ?_⟩⟩
    · exact hword _ start (hok.meta_pages _ (hok.slot_page ho.has hgrain))
    · exact hword _ start (hok.meta_pages _ (hok.slot_word_page ho.has hgrain))

theorem InOrder.agree (hi : (s.onMemory m).InOrder) (h : Agree Cell.read s.owned m m') :
    (s.onMemory m').InOrder ∧ ∀ ptr, (s.onMemory m).Frame (s.onMemory m') ptr := by
  refine hi.congr (fun page start howned => ?_) (fun address start howned => ?_) ?_ ?_
  · exact agree_entry h (Or.inr (by simp [Cell.page, howned]))
  · exact agree_word h (Or.inr (by simp [page_div_two, howned]))
  · exact agree_entry h (Or.inl rfl)
  · exact agree_word h (Or.inl rfl)

/-- The program's stores go where no metadata is. -/
theorem InOrder.store (hi : (s.onMemory m).InOrder) {address word start : Nat} (hpos : address ≠ 0)
    (haddress : s.pages (address / kPageSize) = some (.object start)) :
    (s.onMemory { m with mem := write m.mem (address, word) }).InOrder ∧
      ∀ ptr,
        (s.onMemory m).Frame (s.onMemory { m with mem := write m.mem (address, word) }) ptr := by
  refine hi.congr (fun _ _ _ => rfl) (fun address' start' howned => ?_) rfl ?_
  · refine write_of_ne fun heq => ?_
    rw [heq] at howned
    cases howned.symm.trans haddress
  · exact write_of_ne hpos.symm

/-- A new span is on the pages that the page heap has answered with. -/
theorem newSpan_owned {a : Answer} {length objectSize alignment start metaStart : Nat}
    {contents : Nat → Nat} {large : Bool} {s' : HeapState} {r : Option Nat}
    (h : s.newSpan a length objectSize alignment large = some (s', r)) (hspan : a.span = some start)
    (hmeta : a.metaspan = some (metaStart, contents)) {c : Cell} (hc : c ∈ s'.owned) :
    c ∈ s.owned ∨ InRange start length (c.page / 2) ∨
      InRange metaStart (metaspanLength length alignment) (c.page / 2) := by
  simp only [newSpan, hspan, hmeta] at h
  obtain ⟨s₁, hs₁, h⟩ := Option.bind_eq_some_iff.mp h
  obtain ⟨s₂, hs₂, h⟩ := Option.bind_eq_some_iff.mp h
  obtain ⟨-, -, -, pages₁, hpages₁, rfl⟩ := newPages_eq hs₁
  obtain ⟨-, -, -, pages₂, hpages₂, rfl⟩ := newPages_eq hs₂
  obtain ⟨pageTable, -, h⟩ := Option.bind_eq_some_iff.mp h
  cases h
  rcases hc with hzero | hpages
  · exact Or.inl (Or.inl hzero)
  by_contra hout
  simp only [not_or] at hout
  obtain ⟨hold, hobject, hmetadata⟩ := hout
  obtain ⟨-, hnew₂⟩ := map_eq hpages₂
  obtain ⟨-, hnew₁⟩ := map_eq hpages₁
  refine hold (Or.inr ?_)
  simpa only [hnew₂, if_neg hmetadata, hnew₁, if_neg hobject] using hpages

end HeapState

section Heap

variable {G : Gperftools} {addrOf : String → Nat} {s s' : HeapState} {m m' : ProcessMemory}
  {e : HeapPartEvent} {ptr size : Nat}

open HeapState

/-- The new pages of a span for small objects. -/
theorem populate_owned {a : Answer} {objectSize start metaStart : Nat} {contents : Nat → Nat}
    (h : G.step addrOf s (.populate a objectSize) = some s') (hspan : a.span = some start)
    (hmeta : a.metaspan = some (metaStart, contents)) {c : Cell} (hc : c ∈ s'.owned) :
    c ∈ s.owned ∨ InRange start (G.classToPages objectSize) (c.page / 2) ∨
      InRange metaStart (metaspanLength (G.classToPages objectSize)
        (G.alignmentBitsForSize objectSize)) (c.page / 2) := by
  obtain ⟨-, h⟩ := Option.ite_none_right_eq_some.mp h
  obtain ⟨s₁, hs₁, rfl⟩ := Option.map_eq_some_iff.mp h
  obtain ⟨⟨s₁, r⟩, hnew, rfl⟩ := Option.map_eq_some_iff.mp hs₁
  exact newSpan_owned hnew hspan hmeta hc

theorem heapPart_lawful (G : Gperftools) : (heapPart G).Lawful Cell.read where
  step_inv := by
    intro s m e s' m' hi hok hs
    cases e with
    | step addrOf e =>
      obtain ⟨t, ht, heq⟩ := Option.map_eq_some_iff.mp hs
      cases heq
      exact (Gperftools.step_leaves hi ht).1
    | store address word =>
      cases hs
      obtain ⟨hpos, start, howned⟩ := hok
      exact (InOrder.store hi hpos howned).1
  step_agree := by
    intro s m e s' m' hi hok hs
    cases e with
    | step addrOf e =>
      obtain ⟨t, ht, heq⟩ := Option.map_eq_some_iff.mp hs
      cases heq
      have houtside := Gperftools.step_outside hi ht
      rintro c ⟨hold, hnew⟩
      obtain ⟨-, hold⟩ := not_or.mp hold
      obtain ⟨-, hnew⟩ := not_or.mp hnew
      rw [Option.not_isSome_iff_eq_none] at hold hnew
      cases c with
      | entry page => exact congrArg some (houtside.entry page hold hnew)
      | word address =>
        rw [page_div_two] at hold hnew
        exact houtside.word address hold hnew
    | store address word =>
      cases hs
      obtain ⟨-, start, howned⟩ := hok
      refine agree_write fun hc => hc.1 (Or.inr ?_)
      rw [page_div_two, howned]
      rfl
  inv_agree s m m' hi h := (InOrder.agree hi h).1

/-- A block in use, its bytes with what a lookup finds for them. -/
structure HoldsBlock (ptr size : Nat) (found : Nat → Option (Nat × Nat)) (s : HeapState)
    (m : ProcessMemory) : Prop where
  live : s.live ptr = some size
  lookup : ∀ x, ptr ≤ x → x < ptr + size → lookupMetadata m.mem m.pageTable x = found x

variable {found : Nat → Option (Nat × Nat)}

theorem HoldsBlock.frame (h : HoldsBlock ptr size found s m) (hi : (s.onMemory m).InOrder)
    (hi' : (s'.onMemory m').InOrder) (hframe : (s.onMemory m).Frame (s'.onMemory m') ptr) :
    HoldsBlock ptr size found s' m' := by
  obtain ⟨hlive, hlookup⟩ := hframe.lookup hi hi' h.live
  exact ⟨hlive, fun x hlo hhi => (hlookup x hlo hhi).trans (h.lookup x hlo hhi)⟩

/-- The event neither types the block nor takes it out of use. -/
def KeepsHeapBlock (G : Gperftools) (ptr : Nat) (s : HeapState) (m : ProcessMemory) :
    HeapPartEvent → Prop
  | .step addrOf e => G.KeepsBlock addrOf ptr (s.onMemory m) e
  | .store .. => True

theorem HoldsBlock.agree (h : HoldsBlock ptr size found s m) (hi : (s.onMemory m).InOrder)
    (hagree : Agree Cell.read s.owned m m') : HoldsBlock ptr size found s m' :=
  h.frame hi (hi.agree hagree).1 ((hi.agree hagree).2 ptr)

theorem HoldsBlock.step (h : HoldsBlock ptr size found s m) (hi : (s.onMemory m).InOrder)
    (hok : (heapPart G).Orderly s m e) (hkeeps : KeepsHeapBlock G ptr s m e)
    (hs : (heapPart G).step s m e = some (s', m')) : HoldsBlock ptr size found s' m' := by
  cases e with
  | step addrOf e =>
    obtain ⟨t, ht, heq⟩ := Option.map_eq_some_iff.mp hs
    cases heq
    obtain ⟨hit, hleaves⟩ := Gperftools.step_leaves hi ht
    refine h.frame hi hit ((hleaves ptr).resolve_right ?_)
    rintro ⟨-, hnone | ⟨u, hu⟩⟩
    · simpa [hnone] using hkeeps.2 _ ht
    · exact hkeeps.1 u hu
  | store address word =>
    cases hs
    obtain ⟨hpos, start, howned⟩ := hok
    exact h.frame hi (hi.store hpos howned).1 ((hi.store hpos howned).2 ptr)

end Heap

end TypeSan
