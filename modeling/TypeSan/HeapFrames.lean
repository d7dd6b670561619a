import TypeSan.FreshHeap

/-! What a step of the heap leaves alone, whatever its metadata holds. -/
namespace TypeSan

open PageMap Rounding Runs WordMemory

/-- The answer, its metadata pages zeroed. -/
def Answer.blank (a : Answer) : Answer :=
  { a with metaspan := a.metaspan.map fun m => (m.1, fun _ => 0) }

/-- The metadata of an object is the same in both memories. -/
def Span.SameSlots (sp : Span) (mem mem' : Memory) (j : Nat) : Prop :=
  ∀ i < sp.grains, mem' (sp.slot j i) = mem (sp.slot j i) ∧
    mem' (sp.slot j i + 8) = mem (sp.slot j i + 8)

namespace HeapState

/-- The heap, its metadata zeroed. -/
def blank (s : HeapState) : HeapState :=
  { s with mem := fun address => (s.mem address).map fun _ => 0 }

/-- The heap is in order apart from what its metadata holds, and below the end of user space. -/
structure InOrder (s : HeapState) : Prop where
  inv : s.blank.Inv
  low : ∀ page owner, s.pages page = some owner → (page + 1) * kPageSize ≤ 2 ^ 47

/-- A block in use stays in use, as the same object with the same metadata. -/
def Frame (s s' : HeapState) (ptr : Nat) : Prop :=
  ∀ start sp j, s.live ptr = some sp.objectSize → ObjectAt s.spans ptr start sp j →
    s'.live ptr = some sp.objectSize ∧ ObjectAt s'.spans ptr start sp j ∧
      sp.SameSlots s.mem s'.mem j

variable {s s' s'' : HeapState} {a : Answer} {ptr ptr' start start' length alignment : Nat}
  {objectSize : Nat} {sp sp' : Span} {j : Nat} {large : Bool} {stores : List Store}

theorem Frame.refl (s : HeapState) (ptr : Nat) : s.Frame s ptr :=
  fun _ _ _ hlive ho => ⟨hlive, ho, fun _ _ => ⟨rfl, rfl⟩⟩

theorem Frame.trans (h : s.Frame s' ptr) (h' : s'.Frame s'' ptr) : s.Frame s'' ptr := by
  intro start sp j hlive ho
  obtain ⟨hlive', ho', hslots⟩ := h start sp j hlive ho
  obtain ⟨hlive'', ho'', hslots'⟩ := h' start sp j hlive' ho'
  refine ⟨hlive'', ho'', fun i hi => ?_⟩
  exact ⟨(hslots' i hi).1.trans (hslots i hi).1, (hslots' i hi).2.trans (hslots i hi).2⟩

/-- A block that is not in use has nothing to keep. -/
theorem Frame.of_unused (h : s.live ptr = none) : s.Frame s' ptr := by
  intro start sp j hlive
  rw [h] at hlive
  cases hlive

theorem initial_inOrder : initial.InOrder := ⟨initial_inv, nofun⟩

/-- A block in use is an object. -/
theorem InOrder.object (hi : s.InOrder) {size : Nat} (h : s.live ptr = some size) :
    ∃ start sp j, ObjectAt s.spans ptr start sp j ∧ size = sp.objectSize :=
  hi.inv.object_live ptr size h

theorem InOrder.ok (hi : s.InOrder) (ho : ObjectAt s.spans ptr start sp j) :
    s.blank.SpanOk start sp :=
  hi.inv.span_ok _ _ ho.span

/-- Other blocks may be in use. -/
theorem InOrder.set_live (hi : s.InOrder) {live : Nat → Option Nat} (fresh : Option Block)
    (hlive : ∀ ptr size, live ptr = some size →
      ∃ start sp j, ObjectAt s.spans ptr start sp j ∧ size = sp.objectSize) :
    InOrder { s with live, fresh } :=
  ⟨hi.inv.set_live fresh hlive, hi.low⟩

theorem InOrder.null_page (hi : s.InOrder) : s.pageTable 0 = 0 := hi.inv.null_page

/-- Nothing lies at null. -/
theorem InOrder.null_unmapped (hi : s.InOrder) : s.mem 0 = none := by
  simpa [blank] using hi.inv.null_unmapped

theorem InOrder.mapped (hi : s.InOrder) (ho : ObjectAt s.spans ptr start sp j) {address : Nat}
    (haddress : InRange sp.metaStart sp.metaLength (address / kPageSize)) :
    (s.mem address).isSome := by
  simpa [blank] using (hi.ok ho).mapped address haddress

/-! Writing to the metadata of one object. -/

section Writes

variable (hi : s.InOrder) (ho : ObjectAt s.spans ptr start sp j) (hwithin : sp.Within j stores)
include hi ho hwithin

theorem blank_writes : { s with mem := writes s.mem stores }.blank = s.blank := by
  have hmem (address : Nat) : ((writes s.mem stores address).map fun _ => 0) =
      (s.mem address).map fun _ => 0 := by
    by_cases hst : ∃ st ∈ stores, st.1 = address
    · obtain ⟨st, hst, rfl⟩ := hst
      have hmapped := hi.mapped ho ((hi.ok ho).store_page ho.has hwithin hst)
      obtain ⟨word, hword⟩ := Option.isSome_iff_exists.mp hmapped
      have hwritten : (writes s.mem stores st.1).isSome := isSome_writes hmapped
      obtain ⟨word', hword'⟩ := Option.isSome_iff_exists.mp hwritten
      rw [hword, hword']
      rfl
    · rw [writes_of_forall_ne fun st hin heq => hst ⟨st, hin, heq.symm⟩]
  simp only [blank, hmem]

theorem InOrder.writes : InOrder { s with mem := WordMemory.writes s.mem stores } where
  inv := blank_writes hi ho hwithin ▸ hi.inv
  low := hi.low

/-- Every other block keeps its metadata. -/
theorem InOrder.frame_writes (hne : ptr' ≠ ptr) :
    s.Frame { s with mem := WordMemory.writes s.mem stores } ptr' := by
  intro start' sp' j' hlive ho'
  refine ⟨hlive, ho', fun i hgrain => ?_⟩
  have hapart (st : Store) (hst : st ∈ stores) : sp'.slot j' i ≠ st.1 ∧ sp'.slot j' i + 8 ≠ st.1 := by
    by_cases hstart : start' = start
    · subst hstart
      obtain rfl := Option.some.inj (ho.span.symm.trans ho'.span)
      have hslot (i' : Nat) (hi' : i' < sp.grains) : sp.slot j' i ≠ sp.slot j i' := by
        intro heq
        obtain ⟨rfl, -⟩ := Span.slot_inj hgrain hi' heq
        exact hne (ho'.addr.trans ho.addr.symm)
      obtain ⟨i', hi', hst | hst⟩ := hwithin st hst
      · exact ⟨hst ▸ hslot i' hi', hst ▸ Span.slot_ne_add.symm⟩
      · exact ⟨hst ▸ Span.slot_ne_add, hst ▸ fun heq => hslot i' hi' (Nat.add_right_cancel heq)⟩
    · have hpage := (hi.ok ho).store_page ho.has hwithin hst
      have hok' := hi.ok ho'
      have hdisjoint {address : Nat} := hok'.meta_pages.disjoint (hi.ok ho).meta_pages
        (by simpa using hstart) (p := address)
      exact ⟨fun heq => hdisjoint (hok'.slot_page ho'.has hgrain) (heq ▸ hpage),
        fun heq => hdisjoint (hok'.slot_word_page ho'.has hgrain) (heq ▸ hpage)⟩
  exact ⟨writes_of_forall_ne fun st hst => (hapart st hst).1,
    writes_of_forall_ne fun st hst => (hapart st hst).2⟩

end Writes

/-! New spans. -/

theorem blank_newPages (owner : SpanPage) :
    s.blank.newPages start length owner = (s.newPages start length owner).map blank := by
  unfold newPages
  split
  · rfl
  · rw [Option.map_map]
    rfl

theorem blank_newSpan :
    s.blank.newSpan a.blank length objectSize alignment large =
      (s.newSpan a length objectSize alignment large).map fun r => (r.1.blank, r.2) := by
  obtain ⟨object, span, metaspan⟩ := a
  cases span with
  | none => rfl
  | some start =>
  cases metaspan with
  | none => rfl
  | some m =>
    have hrecycle (mem : Memory) (count : Nat) :
        recycle (fun address => (mem address).map fun _ => 0) m.1 count (fun _ => 0) =
          fun address => (recycle mem m.1 count m.2 address).map fun _ => 0 := by
      funext address
      simp only [recycle]
      split <;> rfl
    simp only [newSpan, Answer.blank, Option.map_some, blank_newPages]
    cases hpages : s.newPages start length (.object start) with
    | none => rfl
    | some s₁ =>
      simp only [Option.map_some, Option.bind_eq_bind, Option.bind_some, blank_newPages]
      cases s₁.newPages m.1 (metaspanLength length alignment) (.metadata start) with
      | none => rfl
      | some s₂ =>
        simp only [Option.map_some, Option.bind_some]
        cases htable : setMetapagetableEntries s₂.pageTable (start <<< kPageShift)
            (length <<< kPageShift) (m.1 <<< kPageShift) alignment with
        | none => simp [blank, htable]
        | some pageTable => simp [blank, htable, hrecycle]

theorem blank_cleanSpan : CleanSpan length objectSize alignment large a.blank := by
  intro metaStart contents hmeta j hj
  obtain ⟨m, -, heq⟩ := Option.map_eq_some_iff.mp hmeta
  cases heq
  exact Or.inr fun i hi => rfl

theorem low_of_map {pages : Pages SpanPage} {owner : SpanPage}
    (hlow : ∀ page owner, s.pages page = some owner → (page + 1) * kPageSize ≤ 2 ^ 47)
    (hend : (start + length) * kPageSize ≤ 2 ^ 47)
    (h : PageMap.map s.pages start length owner = some pages) (page : Nat) (owner' : SpanPage)
    (howner : pages page = some owner') : (page + 1) * kPageSize ≤ 2 ^ 47 := by
  obtain ⟨-, rfl⟩ := map_eq h
  simp only at howner
  split at howner
  · rename_i hpage
    exact Nat.le_trans (Nat.mul_le_mul_right _ hpage.2) hend
  · exact hlow page owner' howner

theorem SpanAdded.low {contents : Nat → Nat} (h : s.SpanAdded start sp contents s')
    (hlow : ∀ page owner, s.pages page = some owner → (page + 1) * kPageSize ≤ 2 ^ 47) :
    ∀ page owner, s'.pages page = some owner → (page + 1) * kPageSize ≤ 2 ^ 47 := by
  obtain ⟨pages, hpages, hmetaPages⟩ := h.pages
  exact low_of_map (s := { s with pages }) (low_of_map hlow h.end_le hpages) h.meta_end hmetaPages

/-- A span is only added where no object and no metadata is. -/
theorem InOrder.frame_spanAdded (hi : s.InOrder) {contents : Nat → Nat}
    (h : s.SpanAdded start sp contents s') (ptr : Nat) : s.Frame s' ptr := by
  intro start' sp' j hlive ho
  have hok := hi.ok ho
  obtain ⟨pages, hpages, hmetaPages⟩ := h.pages
  have hkept {address : Nat} (haddress : InRange sp'.metaStart sp'.metaLength (address / kPageSize)) :
      s'.mem address = s.mem address := by
    rw [h.mem, recycle, if_neg]
    intro hin
    have howned := hok.meta_pages.map hpages _ haddress
    rw [(map_eq hmetaPages).1 _ hin] at howned
    cases howned
  have hne : start' ≠ start := by
    rintro rfl
    have howned := hok.object_pages start' ⟨Nat.le_refl _, Nat.lt_add_of_pos_right hok.length_pos⟩
    have hfree := h.free ⟨Nat.le_refl _, Nat.lt_add_of_pos_right h.length_pos⟩
    exact Option.some_ne_none _ (howned.symm.trans hfree)
  refine ⟨by rw [h.live, hlive], ⟨?_, ho.has, ho.addr⟩, fun i hgrain => ?_⟩
  · rw [h.spans, Function.update_of_ne hne, ho.span]
  · exact ⟨hkept (hok.slot_page ho.has hgrain), hkept (hok.slot_word_page ho.has hgrain)⟩

theorem InOrder.newSpan (hi : s.InOrder) (halign : alignment < 128) (hdvd : 2 ^ alignment ∣ objectSize)
    (hpos : 0 < length → 0 < objectSize) (hlarge : large = true → objectSize = length * kPageSize)
    {r : Option Nat} (h : s.newSpan a length objectSize alignment large = some (s', r)) :
    s'.InOrder ∧ ∀ ptr, s.Frame s' ptr := by
  have hblank : s.blank.newSpan a.blank length objectSize alignment large = some (s'.blank, r) := by
    rw [blank_newSpan, h]
    rfl
  rcases newSpan_cases h with ⟨-, rfl⟩ | ⟨_, _, _, _, _, hadded⟩
  · exact ⟨hi, Frame.refl s'⟩
  · refine ⟨⟨?_, hadded.low hi.low⟩, hi.frame_spanAdded hadded⟩
    rcases hi.inv.newSpan halign hdvd hpos hlarge blank_cleanSpan hblank with
      ⟨-, heq⟩ | ⟨_, _, _, _, _, _, hinv, _⟩
    · exact heq ▸ hi.inv
    · exact hinv

/-! Deleted spans. -/

theorem blank_deleteSpan :
    s.blank.deleteSpan start sp = (s.deleteSpan start sp).map blank := by
  unfold deleteSpan
  simp only [blank]
  cases setMetapagetableEntries s.pageTable (start <<< kPageShift) (sp.length <<< kPageShift) 0 0 with
  | none => rfl
  | some pageTable =>
    simp only [Option.bind_eq_bind, Option.bind_some]
    rw [apply_ite (Option.map blank)]
    rfl

/-- Deleting a span leaves the objects of the other ones alone. -/
theorem frame_deleteSpan (h : s.deleteSpan start sp = some s')
    (hother : ∀ start' sp' j, s.live ptr = some sp'.objectSize →
      ObjectAt s.spans ptr start' sp' j → start' ≠ start) : s.Frame s' ptr := by
  intro start' sp' j hlive ho
  have hne := hother start' sp' j hlive ho
  rw [deleteSpan_eq h]
  refine ⟨hlive, ⟨?_, ho.has, ho.addr⟩, fun _ _ => ⟨rfl, rfl⟩⟩
  simpa [hne] using ho.span

theorem deleteSpan_low (h : s.deleteSpan start sp = some s')
    (hlow : ∀ page owner, s.pages page = some owner → (page + 1) * kPageSize ≤ 2 ^ 47)
    (page : Nat) (owner : SpanPage) (howner : s'.pages page = some owner) :
    (page + 1) * kPageSize ≤ 2 ^ 47 := by
  apply hlow page owner
  simp only [deleteSpan_eq h, unmap] at howner
  split_ifs at howner
  exact howner

theorem blank_doFree : s.blank.doFree ptr = (s.doFree ptr).map blank := by
  unfold doFree
  have hspan : s.blank.spanOf ptr = s.spanOf ptr := rfl
  rw [hspan]
  cases hsize : s.live ptr with
  | none => simp [blank, hsize]
  | some size =>
    cases s.spanOf ptr with
    | none => simp [blank, hsize]
    | some span =>
      simp only [blank, hsize, Option.bind_eq_bind, Option.bind_some]
      split
      · exact blank_deleteSpan (s := { s with live := Function.update s.live ptr none })
      · rfl

/-- Freeing leaves every other block alone. -/
theorem InOrder.free (hi : s.InOrder) (h : s.doFree ptr = some s') :
    s'.InOrder ∧ s'.live ptr = none ∧ ∀ ptr' ≠ ptr, s.Frame s' ptr' := by
  have hblank : s.blank.doFree ptr = some s'.blank := by
    rw [blank_doFree, h]
    rfl
  obtain ⟨hinv, -, hobjects⟩ := hi.inv.free hblank
  obtain ⟨size, hsize, h⟩ := Option.bind_eq_some_iff.mp h
  obtain ⟨⟨start, sp⟩, hspan, h⟩ := Option.bind_eq_some_iff.mp h
  obtain ⟨hlive', hmem, hlow⟩ : s'.live = Function.update s.live ptr none ∧ s'.mem = s.mem ∧
      ∀ page owner, s'.pages page = some owner → (page + 1) * kPageSize ≤ 2 ^ 47 := by
    simp only at h
    split at h
    · have hlow := deleteSpan_low h hi.low
      rw [deleteSpan_eq h] at hlow ⊢
      exact ⟨rfl, rfl, hlow⟩
    · cases h
      exact ⟨rfl, rfl, hi.low⟩
  refine ⟨⟨hinv, hlow⟩, by simp [hlive'], fun ptr' hne start' sp' j hlive ho => ?_⟩
  refine ⟨by rwa [hlive', Function.update_of_ne hne], hobjects _ _ _ _ hne ho, fun i hi => ?_⟩
  rw [hmem]
  exact ⟨rfl, rfl⟩

theorem InOrder.releaseSpan (hi : s.InOrder) (h : s.releaseSpan start = some s') :
    s'.InOrder ∧ ∀ ptr, s.Frame s' ptr := by
  obtain ⟨sp, hsp, hrelease⟩ := Option.bind_eq_some_iff.mp h
  obtain ⟨⟨hsmall, hfree⟩, hdelete⟩ := Option.ite_none_right_eq_some.mp hrelease
  have hblank : s.blank.releaseSpan start = some s'.blank := by
    have hfree' : ∀ j < sp.length * kPageSize / sp.objectSize,
        s.blank.live (start * kPageSize + j * sp.objectSize) = none := hfree
    have hspan : s.blank.spans start = some sp := hsp
    simp only [HeapState.releaseSpan, hspan, Option.bind_eq_bind, Option.bind_some]
    rw [if_pos ⟨hsmall, hfree'⟩, blank_deleteSpan, hdelete]
    rfl
  refine ⟨⟨hi.inv.releaseSpan hblank, deleteSpan_low hdelete hi.low⟩,
    fun ptr => frame_deleteSpan hdelete ?_⟩
  rintro start' sp' j hlive ho rfl
  obtain rfl := Option.some.inj (hsp.symm.trans ho.span)
  have hj : j < sp.length * kPageSize / sp.objectSize :=
    (Nat.le_div_iff_mul_le (hi.ok ho).objectSize_pos).mpr ho.has
  have hnone := hfree j hj
  rw [← ho.addr, hlive] at hnone
  cases hnone

/-! Allocation. -/

/-- Every block in use was left alone, and one that was not in use may have been taken. -/
structure Took (s s' : HeapState) (r : Option Block) : Prop where
  inOrder : s'.InOrder
  frame : ∀ ptr, s.Frame s' ptr
  unused : ∀ b, r = some b → s.live b.addr = none
  object : ∀ b, r = some b →
    ∃ start sp j, ObjectAt s'.spans b.addr start sp j ∧ b.size = sp.objectSize

variable {r : Option Block} {size : Nat}

theorem Took.nothing (hi : s'.InOrder) (hframe : ∀ ptr, s.Frame s' ptr) : s.Took s' none where
  inOrder := hi
  frame := hframe
  unused _ h := by cases h
  object _ h := by cases h

/-- The block was not in use, so that it is none of those that are to be left alone. -/
theorem Took.of_taken {s₁ : HeapState} {live : Nat → Option Nat} {b : Block}
    (hi : s₁.InOrder) (hframe : ∀ ptr, s.Frame s₁ ptr)
    (h : s.blank.Taken (blank { s₁ with live }) b start sp j) :
    s.Took { s₁ with live } (some b) where
  inOrder := ⟨h.inv, hi.low⟩
  frame ptr start' sp' j' hlive ho := by
    have hunused : s.live b.addr = none := h.unused
    have hupdate : live = Function.update s.live b.addr (some b.size) := h.live
    have hne : ptr ≠ b.addr := by
      rintro rfl
      simp [hunused] at hlive
    obtain ⟨-, ho', hslots⟩ := hframe ptr start' sp' j' hlive ho
    refine ⟨?_, ho', hslots⟩
    simpa [hupdate, hne] using hlive
  unused b' hb := by
    cases hb
    exact h.unused
  object b' hb := by
    cases hb
    exact ⟨start, sp, j, h.object, h.size⟩

/-- After a step that took nothing, what is not in use was not in use before. -/
theorem Took.trans (hi : s.InOrder) (h : s.Took s' none) (h' : s'.Took s'' r) : s.Took s'' r where
  inOrder := h'.inOrder
  frame ptr := (h.frame ptr).trans (h'.frame ptr)
  unused b hb := by
    by_contra hne
    obtain ⟨size, hsize⟩ := Option.ne_none_iff_exists'.mp hne
    obtain ⟨start, sp, j, ho, rfl⟩ := hi.object hsize
    have hlive := (h.frame b.addr start sp j hsize ho).1
    rw [h'.unused b hb] at hlive
    cases hlive
  object := h'.object

theorem blank_allocateSmall :
    s.blank.allocateSmall a.blank size =
      (s.allocateSmall a size).map fun r => (r.1.blank, r.2) := by
  obtain ⟨object, span, metaspan⟩ := a
  cases object with
  | none => rfl
  | some ptr =>
    have hspan : s.blank.spanOf ptr = s.spanOf ptr := rfl
    simp only [allocateSmall, Answer.blank, hspan, Option.bind_eq_bind]
    cases s.spanOf ptr with
    | none => rfl
    | some span =>
      simp only [Option.bind_some]
      rw [apply_ite (Option.map _)]
      rfl

theorem InOrder.allocateSmall (hi : s.InOrder) (h : s.allocateSmall a size = some (s', r)) :
    s.Took s' r ∧ ∀ b, r = some b → b.size = size := by
  have hblank : s.blank.allocateSmall a.blank size = some (s'.blank, r) := by
    rw [blank_allocateSmall, h]
    rfl
  cases r with
  | none =>
    obtain rfl := allocateSmall_none h
    exact ⟨Took.nothing hi (Frame.refl s'), nofun⟩
  | some b =>
    obtain ⟨-, hsize, -, start, sp, j, htaken⟩ := hi.inv.allocateSmall hblank
    have hrest : ∃ live, s' = { s with live } := by
      unfold HeapState.allocateSmall at h
      split at h
      · cases h
      · obtain ⟨_, _, h⟩ := Option.bind_eq_some_iff.mp h
        obtain ⟨_, h⟩ := Option.ite_none_right_eq_some.mp h
        cases h
        exact ⟨_, rfl⟩
    obtain ⟨live, rfl⟩ := hrest
    refine ⟨Took.of_taken hi (Frame.refl s) htaken, ?_⟩
    rintro b' ⟨⟩
    exact hsize

theorem blank_allocatePages :
    s.blank.allocatePages a.blank length =
      (s.allocatePages a length).map fun r => (r.1.blank, r.2) := by
  unfold allocatePages
  simp only [blank_newSpan]
  cases s.newSpan a length (length * kPageSize) kPageShift true with
  | none => rfl
  | some r =>
    obtain ⟨s₁, start⟩ := r
    cases start <;> rfl

theorem InOrder.allocatePages (hi : s.InOrder) (h : s.allocatePages a length = some (s', r)) :
    s.Took s' r ∧ ∀ b, r = some b → b.size = length * kPageSize := by
  have hblank : s.blank.allocatePages a.blank length = some (s'.blank, r) := by
    rw [blank_allocatePages, h]
    rfl
  obtain ⟨⟨s₁, start⟩, hspan, hrun⟩ := Option.bind_eq_some_iff.mp h
  have hpos (hlength : 0 < length) : 0 < length * kPageSize := Nat.mul_pos hlength (by decide)
  obtain ⟨hi₁, hframe⟩ := hi.newSpan (by decide) (Dvd.intro_left length rfl) hpos (fun _ => rfl) hspan
  cases start with
  | none =>
    cases hrun
    exact ⟨Took.nothing hi₁ hframe, nofun⟩
  | some start =>
    cases hrun
    rcases hi.inv.allocatePages blank_cleanSpan hblank with
      ⟨hnone, -⟩ | ⟨b, start', sp, hb, hsize, htaken, -⟩
    · cases hnone
    · cases hb
      refine ⟨Took.of_taken hi₁ hframe htaken, ?_⟩
      rintro b' ⟨⟩
      rfl

/-- Clearing the metadata of the block that was taken leaves the others alone. -/
theorem Took.clearResult {keep : Bool} {s₁ : HeapState} {r₁ : Option Block} (h₁ : s.Took s₁ r₁)
    (hsize : ∀ b, r₁ = some b → b.size = size)
    (h : Gperftools.clearResult keep size (s₁, r₁) = some (s', r)) : s.Took s' r := by
  unfold Gperftools.clearResult at h
  split at h
  · cases h
    exact h₁
  obtain ⟨s₂, hclear, heq⟩ := Option.map_eq_some_iff.mp h
  cases heq
  cases r₁ with
  | none =>
    have hslot : metadataPtr s₁.pageTable 0 = 0 := by
      simp [metadataPtr, h₁.inOrder.null_page]
    rw [Option.elim_none, clearMetadataPtr_eq, hslot, h₁.inOrder.null_unmapped] at hclear
    cases hclear
  | some b =>
    obtain ⟨start, sp, j, ho, hobject⟩ := h₁.object b rfl
    have hok := h₁.inOrder.ok ho
    have hunused := h₁.unused b rfl
    have hreg : Registered s₁.pageTable (start * kPageSize) (sp.length * kPageSize)
        (sp.metaStart * kPageSize) sp.alignment := hok.registered
    rw [Option.elim_some, ← hsize b rfl, hobject, ho.addr,
      clearMetadataPtr_object hok.size_eq hok.objectSize_pos hreg ho.has] at hclear
    obtain ⟨word, -, hclear⟩ := Option.bind_eq_some_iff.mp hclear
    split at hclear
    · cases hclear
      refine ⟨h₁.inOrder.writes ho within_clearStores, fun ptr => ?_, h₁.unused, h₁.object⟩
      by_cases hne : ptr = b.addr
      · rw [hne]
        exact Frame.of_unused hunused
      · exact (h₁.frame ptr).trans (h₁.inOrder.frame_writes ho within_clearStores hne)
    · cases hclear
      exact h₁

end HeapState

/-! The entry points. -/

namespace Gperftools

open HeapState

variable {G : Gperftools} {addrOf : String → Nat} {s s' : HeapState} {a : Answer} {ptr size : Nat}
  {r : Option Block}

theorem took_takeBlock (hi : s.InOrder) (h : G.takeBlock s a size = some (s', r)) :
    s.Took s' r ∧ ∀ b, r = some b → b.size = G.takenSize size := by
  unfold takeBlock at h
  unfold takenSize
  split at h
  · rename_i hsmall
    rw [if_pos hsmall]
    exact hi.allocateSmall h
  · rename_i hlarge
    rw [if_neg hlarge]
    exact hi.allocatePages h

theorem took_doMalloc (hi : s.InOrder) (h : G.doMalloc s a size = some (s', r)) : s.Took s' r := by
  obtain ⟨⟨s₁, r₁⟩, htake, hclear⟩ := Option.bind_eq_some_iff.mp h
  obtain ⟨htook, hsize⟩ := took_takeBlock hi htake
  exact htook.clearResult hsize hclear

theorem took_doCalloc {n elem_size : Nat} (hi : s.InOrder)
    (h : G.doCalloc s a n elem_size = some (s', r)) : s.Took s' r := by
  simp only [doCalloc] at h
  split at h
  · cases h
    exact Took.nothing hi (Frame.refl _)
  · exact took_doMalloc hi h

theorem took_doMemalign {align : Nat} (hi : s.InOrder)
    (h : G.doMemalign s a align size = some (s', r)) : s.Took s' r := by
  simp only [doMemalign] at h
  split at h
  · cases h
    exact Took.nothing hi (Frame.refl _)
  split at h
  · exact took_doMalloc hi h
  split at h
  · obtain ⟨⟨s₁, r₁⟩, htake, hclear⟩ := Option.bind_eq_some_iff.mp h
    obtain ⟨htook, hsize⟩ := hi.allocateSmall htake
    exact htook.clearResult hsize hclear
  · exact (hi.allocatePages (allocatePages_of_memalign h)).1

/-- A block that is grown or shrunk in place stays as it is. One that moves is freed. -/
theorem doRealloc_leaves {grown exact : Answer} {old : Block} {new_size : Nat} (hi : s.InOrder)
    (h : G.doRealloc s grown exact old new_size = some (s', r)) :
    s'.InOrder ∧ ∀ ptr, s.Frame s' ptr ∨ ptr = old.addr ∧ s'.live ptr = none := by
  simp only [doRealloc] at h
  split at h
  · cases h
    exact ⟨hi, fun ptr => Or.inl (Frame.refl _ ptr)⟩
  obtain ⟨⟨s₁, r₁⟩, hblock, hrest⟩ := Option.bind_eq_some_iff.mp h
  have htook : s.Took s₁ r₁ := by
    obtain ⟨⟨s₂, r₂⟩, htried, hexact⟩ := Option.bind_eq_some_iff.mp hblock
    have hfirst : s.Took s₂ r₂ := by
      split at htried
      · exact took_doMalloc hi htried
      · cases htried
        exact Took.nothing hi (Frame.refl _)
    cases r₂ with
    | none => exact hfirst.trans hi (took_doMalloc hfirst.inOrder hexact)
    | some b =>
      cases hexact
      exact hfirst
  cases r₁ with
  | none =>
    cases hrest
    exact ⟨htook.inOrder, fun ptr => Or.inl (htook.frame ptr)⟩
  | some b =>
    obtain ⟨s₂, hfree, heq⟩ := Option.map_eq_some_iff.mp hrest
    cases heq
    obtain ⟨hi₂, hfreed, hframe⟩ := htook.inOrder.free hfree
    refine ⟨hi₂, fun ptr => ?_⟩
    by_cases heq : ptr = old.addr
    · exact Or.inr ⟨heq, by rw [heq, hfreed]⟩
    · exact Or.inl ((htook.frame ptr).trans (hframe ptr heq))

end Gperftools

end TypeSan
