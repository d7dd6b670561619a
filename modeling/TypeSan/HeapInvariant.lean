import TypeSan.HeapSpans

/-! What every step of the heap keeps, as long as no object is typed behind a first granule that is
not. -/
namespace TypeSan

open PageMap Rounding WordMemory

/-- The record of a new span. -/
def spanFor (length objectSize alignment metaStart : Nat) (large : Bool) : Span :=
  ⟨length, objectSize, large, alignment, metaStart, HeapState.metaspanLength length alignment⟩

/-- Object `j` of the span that starts at page `start` lies at `ptr`. -/
structure ObjectAt (spans : Nat → Option Span) (ptr start : Nat) (sp : Span) (j : Nat) : Prop where
  span : spans start = some sp
  has : sp.HasObject j
  addr : ptr = start * kPageSize + j * sp.objectSize

namespace HeapState

/-- Every span is in order, every block in use is an object of one, and nothing lies at null. -/
structure Inv (s : HeapState) : Prop where
  span_ok : ∀ start sp, s.spans start = some sp → s.SpanOk start sp
  object_live : ∀ ptr size, s.live ptr = some size →
    ∃ start sp j, ObjectAt s.spans ptr start sp j ∧ size = sp.objectSize
  null_page : s.pageTable 0 = 0
  null_unmapped : s.mem 0 = none

variable {s s' : HeapState} {ptr start start' length alignment objectSize : Nat} {sp sp' : Span}
  {j : Nat} {a : Answer} {large : Bool}

theorem Inv.ok (hi : s.Inv) (ho : ObjectAt s.spans ptr start sp j) : s.SpanOk start sp :=
  hi.span_ok _ _ ho.span

/-- The blocks in use may change to others that are objects. -/
theorem Inv.set_live (hi : s.Inv) {live : Nat → Option Nat} (fresh : Option Block)
    (hlive : ∀ ptr size, live ptr = some size →
      ∃ start sp j, ObjectAt s.spans ptr start sp j ∧ size = sp.objectSize) :
    Inv { s with live, fresh } where
  span_ok start sp hsp := by
    have hok := hi.span_ok start sp hsp
    exact hok.frame hok.object_pages hok.meta_pages (fun _ _ => rfl) fun _ _ => rfl
  object_live := hlive
  null_page := hi.null_page
  null_unmapped := hi.null_unmapped

/-! Writing. -/

section Writes

variable {stores : List Store} (hi : s.Inv) (ho : ObjectAt s.spans ptr start sp j)
  (hwithin : sp.Within j stores)
include hi ho hwithin

theorem Inv.writes (hclear : sp.Clearable (writes s.mem stores) j) :
    Inv { s with mem := WordMemory.writes s.mem stores } where
  span_ok start' sp' hsp' := by
    by_cases hne : start' = start
    · subst hne
      obtain rfl := Option.some.inj (ho.span.symm.trans hsp')
      exact (hi.ok ho).writes hwithin hclear
    · exact (hi.ok ho).writes_other ho.has hwithin (hi.span_ok _ _ hsp') hne
  object_live := hi.object_live
  null_page := hi.null_page
  null_unmapped := by
    refine (writes_of_forall_ne fun st hst heq => ?_).trans hi.null_unmapped
    have hpage := (hi.ok ho).store_page ho.has hwithin hst
    have hmapped := (hi.ok ho).mapped st.1 hpage
    rw [← heq, hi.null_unmapped] at hmapped
    cases hmapped

end Writes

/-! Clearing. -/

/-- The stores of `clear_metadata_ptr` for an object. -/
def clearStores (sp : Span) (j : Nat) : List Store :=
  (List.range (2 * sp.grains)).map fun i => (sp.slot j 0 + 8 * i, 0)

theorem within_clearStores : sp.Within j (clearStores sp j) := by
  intro st hst
  obtain ⟨i, hi, rfl⟩ := List.mem_map.mp hst
  have hi := List.mem_range.mp hi
  refine ⟨i / 2, by omega, ?_⟩
  simp only [Span.slot]
  omega

theorem mem_clearStores {i : Nat} (hi : i < sp.grains) :
    (sp.slot j i, 0) ∈ clearStores sp j ∧ (sp.slot j i + 8, 0) ∈ clearStores sp j := by
  constructor
  · refine List.mem_map.mpr ⟨2 * i, List.mem_range.mpr (by omega), ?_⟩
    simp only [Span.slot, Prod.mk.injEq, and_true]
    omega
  · refine List.mem_map.mpr ⟨2 * i + 1, List.mem_range.mpr (by omega), ?_⟩
    simp only [Span.slot, Prod.mk.injEq, and_true]
    omega

/-- All of the stores are of zeros. -/
theorem writes_clearStores {mem : Memory} {address : Nat}
    (h : (address, 0) ∈ clearStores sp j) : writes mem (clearStores sp j) address = some 0 := by
  refine writes_of_mem h fun st hst _ => ?_
  obtain ⟨_, _, rfl⟩ := List.mem_map.mp hst
  rfl

theorem untyped_clearStores (mem : Memory) : sp.Untyped (writes mem (clearStores sp j)) j :=
  fun _ hi => writes_clearStores (mem_clearStores hi).1

/-- `clear_metadata_ptr` starts at the metadata of the pointer. -/
theorem metaptr_eq (pageTable : PageTable) (ptr : Nat) :
    (pageTable (ptr / METALLOC_PAGESIZE) >>> 8) +
        ((ptr - ptr / METALLOC_PAGESIZE * METALLOC_PAGESIZE) >>>
          (pageTable (ptr / METALLOC_PAGESIZE) &&& 0xFF)) * FLAGS_METALLOC_METADATABYTES =
      metadataPtr pageTable ptr := by
  have hmod : ptr - ptr / METALLOC_PAGESIZE * METALLOC_PAGESIZE =
      ptr &&& (METALLOC_PAGESIZE - 1) := by
    rw [METALLOC_PAGESIZE, Nat.and_two_pow_sub_one_eq_mod]
    have := Nat.div_add_mod' ptr (2 ^ METALLOC_PAGESHIFT)
    omega
  rw [hmod, metadataPtr, FLAGS_METALLOC_METADATABYTES]
  omega

theorem clearMetadataPtr_eq (s : HeapState) (ptr size : Nat) :
    s.clearMetadataPtr ptr size =
      (s.mem (metadataPtr s.pageTable ptr)).bind fun result =>
        if result ≠ 0 then
          let alignment := s.pageTable (ptr / METALLOC_PAGESIZE) &&& 0xFF
          let metasize :=
            FLAGS_METALLOC_METADATABYTES / 8 * ((size + (1 <<< alignment) - 1) >>> alignment)
          some { s with
            mem := WordMemory.writes s.mem
              ((List.range metasize).map fun i => (metadataPtr s.pageTable ptr + 8 * i, 0)) }
        else some s := by
  simp only [← metaptr_eq]
  rfl

/-- Of an object with a type, it clears the slots. -/
theorem clearMetadataPtr_object (hsize : sp.objectSize = sp.grains * 2 ^ sp.alignment)
    (hpos : 0 < sp.objectSize)
    (hreg : Registered s.pageTable (start * kPageSize) (sp.length * kPageSize)
      (sp.metaStart * kPageSize) sp.alignment) (hj : sp.HasObject j) :
    s.clearMetadataPtr (start * kPageSize + j * sp.objectSize) sp.objectSize =
      (s.mem (sp.slot j 0)).bind fun result =>
        if result ≠ 0 then some { s with mem := WordMemory.writes s.mem (clearStores sp j) }
        else some s := by
  have hend : start * kPageSize + j * sp.objectSize < start * kPageSize + sp.length * kPageSize := by
    simp only [Span.HasObject, Nat.add_mul, Nat.one_mul] at hj
    omega
  have hal := (hreg.fields (Nat.le_add_right _ _) hend).2
  have hslot : metadataPtr s.pageTable (start * kPageSize + j * sp.objectSize) = sp.slot j 0 := by
    rw [← Nat.add_zero (start * kPageSize + _), Span.metadataPtr_eq hsize hreg hj hpos, Nat.zero_div]
  rw [clearMetadataPtr_eq, hslot, hal]
  simp only [Span.metasize_eq hsize]
  rfl

/-- After clearing, an object has no type. -/
theorem Inv.clear (hi : s.Inv) (ho : ObjectAt s.spans ptr start sp j)
    (h : s.clearMetadataPtr ptr sp.objectSize = some s') :
    ∃ mem, s' = { s with mem } ∧ s'.Inv ∧ sp.Untyped mem j := by
  have hok := hi.ok ho
  rw [ho.addr, clearMetadataPtr_object hok.size_eq hok.objectSize_pos hok.registered ho.has] at h
  obtain ⟨word, hword, h⟩ := Option.bind_eq_some_iff.mp h
  split at h
  · cases h
    have hu : sp.Untyped _ j := untyped_clearStores s.mem
    exact ⟨_, rfl, hi.writes ho within_clearStores (Or.inr hu), hu⟩
  · rename_i hzero
    cases h
    have hfirst : s.mem (sp.slot j 0) = some 0 := by
      rw [hword, not_not.mp hzero]
    exact ⟨s.mem, rfl, hi, (hok.clearable j ho.has).resolve_left (not_not.mpr hfirst)⟩

/-! New spans. -/

theorem newPages_eq {owner : SpanPage} (h : s.newPages start length owner = some s') :
    0 < start ∧ 0 < length ∧ (start + length) * kPageSize ≤ 2 ^ 47 ∧
      ∃ pages, PageMap.map s.pages start length owner = some pages ∧ s' = { s with pages } := by
  unfold newPages at h
  split at h
  · cases h
  · obtain ⟨pages, hpages, rfl⟩ := Option.map_eq_some_iff.mp h
    exact ⟨by omega, by omega, by omega, pages, hpages, rfl⟩

/-- The metadata span has a slot for every granule. -/
theorem metaspan_room (length alignment : Nat) :
    granules (length * kPageSize) alignment * 16 ≤ metaspanLength length alignment * kPageSize := by
  have hpow := Nat.two_pow_pos alignment
  have hlen := le_granules_mul (length * 16) alignment
  have hmeta : metaspanLength length alignment = granules (length * 16) alignment := by
    simp only [metaspanLength, Nat.one_shiftLeft, Nat.shiftRight_eq_div_pow,
      FLAGS_METALLOC_METADATABYTES, granules]
  have hle : granules (length * kPageSize) alignment ≤ granules (length * 16) alignment * 512 := by
    refine Nat.lt_succ_iff.mp ((Nat.div_lt_iff_lt_mul hpow).mpr ?_)
    simp only [kPageSize, kPageShift, Nat.succ_eq_add_one, Nat.add_mul]
    rw [Nat.mul_right_comm]
    omega
  simp only [hmeta, kPageSize, kPageShift] at hle ⊢
  omega

/-- A span that was added at a page, its metadata pages as they came. -/
structure SpanAdded (s : HeapState) (start : Nat) (sp : Span) (contents : Nat → Nat)
    (s' : HeapState) : Prop where
  start_pos : 0 < start
  length_pos : 0 < sp.length
  end_le : (start + sp.length) * kPageSize ≤ 2 ^ 47
  meta_pos : 0 < sp.metaStart
  meta_end : (sp.metaStart + sp.metaLength) * kPageSize ≤ 2 ^ 47
  meta_eq : sp.metaLength = metaspanLength sp.length sp.alignment
  pages : ∃ pages, PageMap.map s.pages start sp.length (.object start) = some pages ∧
    PageMap.map pages sp.metaStart sp.metaLength (.metadata start) = some s'.pages
  table : setMetapagetableEntries s.pageTable (start * kPageSize) (sp.length * kPageSize)
    (sp.metaStart * kPageSize) sp.alignment = some s'.pageTable
  mem : s'.mem = recycle s.mem sp.metaStart sp.metaLength contents
  spans : s'.spans = Function.update s.spans start (some sp)
  live : s'.live = s.live

theorem newSpan_cases {r : Option Nat}
    (h : s.newSpan a length objectSize alignment large = some (s', r)) :
    (r = none ∧ s' = s) ∨
      ∃ start metaStart contents, r = some start ∧ a.metaspan = some (metaStart, contents) ∧
        s.SpanAdded start (spanFor length objectSize alignment metaStart large) contents s' := by
  unfold newSpan at h
  split at h
  · rename_i start metaStart contents _ hmetaspan
    obtain ⟨s₁, hs₁, h⟩ := Option.bind_eq_some_iff.mp h
    obtain ⟨s₂, hs₂, h⟩ := Option.bind_eq_some_iff.mp h
    obtain ⟨pageTable, htable, h⟩ := Option.bind_eq_some_iff.mp h
    obtain ⟨hstart, hlength, hend, pages₁, hpages₁, rfl⟩ := newPages_eq hs₁
    obtain ⟨hmeta, _, hmetaEnd, pages₂, hpages₂, rfl⟩ := newPages_eq hs₂
    cases h
    refine Or.inr ⟨start, metaStart, contents, rfl, hmetaspan, hstart, hlength, hend, hmeta,
      hmetaEnd, rfl, ⟨pages₁, hpages₁, hpages₂⟩, ?_, rfl, rfl, rfl⟩
    simpa only [Nat.shiftLeft_eq, spanFor, kPageSize] using htable
  · cases h
    exact Or.inl ⟨rfl, rfl⟩

section SpanAdded

variable {contents : Nat → Nat} (h : s.SpanAdded start sp contents s')
include h

theorem SpanAdded.free {page : Nat} (hpage : InRange start sp.length page) :
    s.pages page = none := by
  obtain ⟨pages, hpages, _⟩ := h.pages
  exact (map_eq hpages).1 page hpage

/-- The page was in no span. -/
theorem SpanAdded.span_none (hi : s.Inv) : s.spans start = none := by
  by_contra hne
  obtain ⟨sp', hsp'⟩ := Option.ne_none_iff_exists'.mp hne
  have hok := hi.span_ok _ _ hsp'
  have howned := hok.object_pages start ⟨Nat.le_refl _, Nat.lt_add_of_pos_right hok.length_pos⟩
  have hfree := h.free ⟨Nat.le_refl _, Nat.lt_add_of_pos_right h.length_pos⟩
  simp [howned] at hfree

/-- The other spans stay as they are. -/
theorem SpanAdded.other (hok : s.SpanOk start' sp') : s'.SpanOk start' sp' := by
  obtain ⟨pages, hpages, hmetaPages⟩ := h.pages
  refine hok.frame ((hok.object_pages.map hpages).map hmetaPages)
    ((hok.meta_pages.map hpages).map hmetaPages) (fun page hpage => ?_) fun address haddress => ?_
  · obtain ⟨-, htable⟩ := setMetapagetableEntries_eq h.table
    rw [htable, setEntries_apply, if_neg]
    intro hin
    have hfree : s.pages (page / 2) = none := h.free (by
      simp only [InRange, kPageSize, kPageShift, METALLOC_PAGESIZE, METALLOC_PAGESHIFT] at *
      omega)
    simp [hok.object_pages _ hpage] at hfree
  · have hfree := (map_eq hmetaPages).1
    rw [h.mem, recycle, if_neg]
    intro hin
    simpa [hok.meta_pages.map hpages _ haddress] using hfree _ hin

/-- The new span is in order if its metadata pages came clean. -/
theorem SpanAdded.room :
    granules (sp.length * kPageSize) sp.alignment * 16 ≤ sp.metaLength * kPageSize := by
  rw [h.meta_eq]
  exact metaspan_room sp.length sp.alignment

theorem SpanAdded.registered (halign : sp.alignment < 128) :
    Registered s'.pageTable (start * kPageSize) (sp.length * kPageSize)
      (sp.metaStart * kPageSize) sp.alignment := by
  have hroom := h.room
  have hmetaEnd := h.meta_end
  rw [Nat.add_mul] at hmetaEnd
  have hpage : METALLOC_PAGESIZE ∣ start * kPageSize :=
    Dvd.dvd.mul_left (Dvd.intro_left _ kPageSize_eq.symm) _
  have hmeta : sp.metaStart * kPageSize ≠ 0 :=
    Nat.mul_ne_zero (Nat.pos_iff_ne_zero.mp h.meta_pos) (by decide)
  exact mappedBelow_of_set hpage halign hmeta (by omega) h.table

theorem SpanAdded.ok (halign : sp.alignment < 128)
    (hsize : sp.objectSize = sp.grains * 2 ^ sp.alignment)
    (hgrains : 0 < sp.grains) (hlarge : sp.large = true → sp.objectSize = sp.length * kPageSize)
    (hclear : ∀ j, sp.HasObject j → sp.Clearable s'.mem j) : s'.SpanOk start sp := by
  obtain ⟨pages, hpages, hmetaPages⟩ := h.pages
  have hend := h.end_le
  rw [Nat.add_mul] at hend
  exact {
    object_pages := (owns_map hpages).map hmetaPages
    meta_pages := owns_map hmetaPages
    registered := h.registered halign
    room := h.room
    start_pos := h.start_pos
    length_pos := h.length_pos
    length_le := by omega
    size_eq := hsize
    grains_pos := hgrains
    large_one := hlarge
    mapped := fun address haddress => by simp [h.mem, recycle, haddress]
    clearable := hclear }

theorem SpanAdded.inv (hi : s.Inv) (hok : s'.SpanOk start sp) : s'.Inv where
  span_ok start' sp' hsp' := by
    rw [h.spans, Function.update_apply] at hsp'
    split at hsp'
    · rename_i heq
      cases hsp'
      rwa [heq]
    · exact h.other (hi.span_ok _ _ hsp')
  object_live ptr size hsize := by
    rw [h.live] at hsize
    obtain ⟨start', sp', j, ho, rfl⟩ := hi.object_live ptr size hsize
    refine ⟨start', sp', j, ⟨?_, ho.has, ho.addr⟩, rfl⟩
    rw [h.spans, Function.update_of_ne, ho.span]
    rintro rfl
    simpa [h.span_none hi] using ho.span
  null_page := by
    have hpos := h.start_pos
    obtain ⟨-, htable⟩ := setMetapagetableEntries_eq h.table
    rw [htable, setEntries_apply, if_neg]
    · exact hi.null_page
    · simp only [kPageSize, kPageShift, METALLOC_PAGESIZE, METALLOC_PAGESHIFT]
      omega
  null_unmapped := by
    have hpos := h.meta_pos
    rw [h.mem, recycle, if_neg]
    · exact hi.null_unmapped
    · simp only [InRange, Nat.zero_div]
      omega

end SpanAdded

/-! Deleted spans. -/

theorem pageEntry_zero (i : Nat) : pageEntry 0 0 i = 0 := by simp [pageEntry, charBits]

theorem deleteSpan_eq (h : s.deleteSpan start sp = some s') :
    s' = { s with
      pageTable := setEntries s.pageTable (start * kPageSize / METALLOC_PAGESIZE) 0 0
        (sp.length * kPageSize / METALLOC_PAGESIZE)
      pages := unmap (unmap s.pages sp.metaStart sp.metaLength) start sp.length
      spans := Function.update s.spans start none } := by
  obtain ⟨pageTable, htable, h⟩ := Option.bind_eq_some_iff.mp h
  obtain ⟨-, htable⟩ := setMetapagetableEntries_eq htable
  obtain ⟨-, h⟩ := Option.ite_none_right_eq_some.mp h
  cases h
  simp only [htable, Nat.shiftLeft_eq, kPageSize]

section Delete

variable (hi : s.Inv) (hspan : s.spans start = some sp) (h : s.deleteSpan start sp = some s')
include hi hspan h

/-- Deleting a span leaves the other spans as they are. -/
theorem delete_other (hne : start' ≠ start) (hok : s.SpanOk start' sp') : s'.SpanOk start' sp' := by
  have hdeleted := hi.span_ok _ _ hspan
  have hown := hdeleted.object_pages.unmap hdeleted.meta_pages (by simp)
  have hobject := hok.object_pages.unmap hdeleted.meta_pages (by simp)
  have hmeta := hok.meta_pages.unmap hdeleted.meta_pages (by simpa using hne)
  rw [deleteSpan_eq h]
  refine hok.frame (hobject.unmap hown (by simpa using hne)) (hmeta.unmap hown (by simp))
    (fun page hpage => ?_) fun _ _ => rfl
  simp only [setEntries_apply]
  rw [if_neg]
  intro hin
  refine hok.object_pages.disjoint hdeleted.object_pages (by simpa using hne) hpage ?_
  simp only [InRange, kPageSize, kPageShift, METALLOC_PAGESIZE, METALLOC_PAGESHIFT] at *
  omega

theorem Inv.delete (hlive : ∀ ptr size j, s.live ptr = some size → ¬ ObjectAt s.spans ptr start sp j) :
    s'.Inv where
  span_ok start' sp' hsp' := by
    by_cases hne : start' = start
    · simp [deleteSpan_eq h, hne] at hsp'
    · refine delete_other hi hspan h hne (hi.span_ok _ _ ?_)
      simpa [deleteSpan_eq h, hne] using hsp'
  object_live ptr size hsize := by
    have hsize' : s.live ptr = some size := by simpa [deleteSpan_eq h] using hsize
    obtain ⟨start', sp', j, ho, rfl⟩ := hi.object_live ptr size hsize'
    refine ⟨start', sp', j, ⟨?_, ho.has, ho.addr⟩, rfl⟩
    have hne : start' ≠ start := by
      rintro rfl
      obtain rfl := Option.some.inj (hspan.symm.trans ho.span)
      exact hlive _ _ _ hsize' ho
    simpa [deleteSpan_eq h, hne] using ho.span
  null_page := by
    simp only [deleteSpan_eq h, setEntries_apply, pageEntry_zero, hi.null_page, ite_self]
  null_unmapped := by simpa [deleteSpan_eq h] using hi.null_unmapped

end Delete

end HeapState

end TypeSan
