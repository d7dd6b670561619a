import TypeSan.AllocSize
import TypeSan.HeapInvariant

/-! What the entry points do to the heap, on clean metadata. -/
namespace TypeSan

open PageMap Rounding WordMemory

/-- No object of a new span has a type behind an untyped first granule. -/
def CleanSpan (length objectSize alignment : Nat) (large : Bool) (a : Answer) : Prop :=
  ∀ metaStart contents, a.metaspan = some (metaStart, contents) →
    ∀ j, (spanFor length objectSize alignment metaStart large).HasObject j →
      (spanFor length objectSize alignment metaStart large).Clearable
        (fun address => some (contents address)) j

/-- The one object of a new span has no type. -/
def UntypedSpan (length : Nat) (a : Answer) : Prop :=
  ∀ metaStart contents, a.metaspan = some (metaStart, contents) →
    (spanFor length (length * kPageSize) kPageShift metaStart true).Untyped
      (fun address => some (contents address)) 0

/-- The granules of the objects hold the words given. -/
def Span.Recycled (sp : Span) (mem : Memory) (contents : Nat → Nat) : Prop :=
  ∀ j i, sp.HasObject j → i < sp.grains → mem (sp.slot j i) = some (contents (sp.slot j i))

namespace HeapState

/-- No byte of the block has a type. -/
def UntypedBlock (s : HeapState) (b : Block) : Prop :=
  ∀ x, b.addr ≤ x → x < b.addr + b.size → s.mem (metadataPtr s.pageTable x) = some 0

/-- A block was taken: an object that was not in use. -/
structure Taken (s s' : HeapState) (b : Block) (start : Nat) (sp : Span) (j : Nat) : Prop where
  inv : s'.Inv
  object : ObjectAt s'.spans b.addr start sp j
  size : b.size = sp.objectSize
  unused : s.live b.addr = none
  live : s'.live = Function.update s.live b.addr (some b.size)

variable {s s' : HeapState} {a : Answer} {b : Block} {ptr start length objectSize alignment : Nat}
  {large : Bool} {sp : Span} {j : Nat} {r : Option Block}

/-- The pages of an object belong to its span. -/
theorem Inv.object_page (hi : s.Inv) (ho : ObjectAt s.spans ptr start sp j) :
    s.pages (ptr / kPageSize) = some (.object start) := by
  have hok := hi.ok ho
  have hpos := hok.objectSize_pos
  have hhas := ho.has
  refine hok.object_pages _ ?_
  simp only [Span.HasObject, Nat.add_mul] at hhas
  simp only [ho.addr, InRange, kPageSize, kPageShift] at *
  omega

theorem Inv.spanOf_eq (hi : s.Inv) (ho : ObjectAt s.spans ptr start sp j) :
    s.spanOf ptr = some (start, sp) := by
  simp [spanOf, hi.object_page ho, ho.span]

/-! Taking a block. -/

theorem allocateSmall_none {size : Nat} (h : s.allocateSmall a size = some (s', none)) :
    s' = s := by
  unfold allocateSmall at h
  split at h
  · cases h
    rfl
  · obtain ⟨_, _, h⟩ := Option.bind_eq_some_iff.mp h
    obtain ⟨_, h⟩ := Option.ite_none_right_eq_some.mp h
    cases h

theorem Inv.allocateSmall {size : Nat} (hi : s.Inv)
    (h : s.allocateSmall a size = some (s', some b)) :
    a.object = some b.addr ∧ b.size = size ∧ (∃ live, s' = { s with live }) ∧
      ∃ start sp j, s.Taken s' b start sp j := by
  unfold HeapState.allocateSmall at h
  split at h
  · cases h
  · rename_i ptr hptr
    obtain ⟨⟨start, sp⟩, hspan, h⟩ := Option.bind_eq_some_iff.mp h
    obtain ⟨⟨hlarge, rfl, hlo, hmod, hroom, hunused⟩, h⟩ := Option.ite_none_right_eq_some.mp h
    cases h
    have hspan' : s.spans start = some sp := by
      unfold spanOf at hspan
      split at hspan
      · obtain ⟨sp', hsp', heq⟩ := Option.map_eq_some_iff.mp hspan
        cases heq
        exact hsp'
      · cases hspan
    have hdiv := Nat.div_add_mod' (ptr - start * kPageSize) sp.objectSize
    have hobject : ObjectAt s.spans ptr start sp ((ptr - start * kPageSize) / sp.objectSize) := by
      refine ⟨hspan', ?_, by omega⟩
      rw [Span.HasObject, Nat.add_mul]
      omega
    refine ⟨hptr, rfl, ⟨_, rfl⟩, start, sp, _, ?_, hobject, rfl, hunused, rfl⟩
    apply hi.set_live s.fresh
    intro ptr' size hsize
    simp only [Function.update_apply] at hsize
    split at hsize
    · rename_i heq
      cases hsize
      exact ⟨start, sp, _, heq ▸ hobject, rfl⟩
    · exact hi.object_live ptr' size hsize

/-- A new span keeps the heap in order, and its objects hold what its metadata pages held. -/
theorem Inv.newSpan (hi : s.Inv) (halign : alignment < 128) (hdvd : 2 ^ alignment ∣ objectSize)
    (hpos : 0 < length → 0 < objectSize) (hlarge : large = true → objectSize = length * kPageSize)
    (hclean : CleanSpan length objectSize alignment large a)
    {r : Option Nat} (h : s.newSpan a length objectSize alignment large = some (s', r)) :
    (r = none ∧ s' = s) ∨
      ∃ start metaStart contents, r = some start ∧ a.metaspan = some (metaStart, contents) ∧
        s.SpanAdded start (spanFor length objectSize alignment metaStart large) contents s' ∧
        s'.Inv ∧ (spanFor length objectSize alignment metaStart large).Recycled s'.mem contents := by
  rcases newSpan_cases h with hnone | ⟨start, metaStart, contents, rfl, hmeta, hadded⟩
  · exact Or.inl hnone
  have hsize : objectSize = objectSize / 2 ^ alignment * 2 ^ alignment :=
    (Nat.div_mul_cancel hdvd).symm
  have hgrains : 0 < objectSize / 2 ^ alignment :=
    Nat.div_pos (Nat.le_of_dvd (hpos hadded.length_pos) hdvd) (Nat.two_pow_pos _)
  have hmem : (spanFor length objectSize alignment metaStart large).Recycled s'.mem contents := by
    intro j i hj hi
    have hpage := Span.slot_page (spanFor length objectSize alignment metaStart large) hsize
      (metaspan_room length alignment) hj hi
    rw [hadded.mem, recycle, if_pos hpage]
  refine Or.inr ⟨start, metaStart, contents, rfl, hmeta, hadded, hadded.inv hi ?_, hmem⟩
  apply hadded.ok halign hsize hgrains hlarge
  intro j hj
  refine (hclean metaStart contents hmeta j hj).imp (fun hfirst => ?_) fun hrest i hi => ?_
  · rwa [hmem j 0 hj hgrains]
  · rw [hmem j i hj hi]
    exact hrest i hi

/-- A large block, and with untyped metadata pages an untyped one. -/
theorem Inv.allocatePages (hi : s.Inv)
    (hclean : CleanSpan length (length * kPageSize) kPageShift true a)
    (h : s.allocatePages a length = some (s', r)) :
    (r = none ∧ s' = s) ∨
      ∃ b start sp, r = some b ∧ b.size = length * kPageSize ∧ s.Taken s' b start sp 0 ∧
        (UntypedSpan length a → sp.Untyped s'.mem 0) := by
  obtain ⟨⟨s₁, r₁⟩, hspan, hrun⟩ := Option.bind_eq_some_iff.mp h
  have hpos (hlength : 0 < length) : 0 < length * kPageSize := Nat.mul_pos hlength (by decide)
  have hdvd : 2 ^ kPageShift ∣ length * kPageSize := Dvd.intro_left length rfl
  rcases hi.newSpan (by decide) hdvd hpos (fun _ => rfl) hclean hspan with
    ⟨rfl, rfl⟩ | ⟨start, metaStart, contents, rfl, hmeta, hadded, hinv, hmem⟩
  · cases hrun
    exact Or.inl ⟨rfl, rfl⟩
  cases hrun
  have hhas : (spanFor length (length * kPageSize) kPageShift metaStart true).HasObject 0 := by
    simp [Span.HasObject, spanFor]
  have hobject : ObjectAt s₁.spans (start * kPageSize) start
      (spanFor length (length * kPageSize) kPageShift metaStart true) 0 :=
    ⟨by simp [hadded.spans], hhas, by simp⟩
  have hunused : s.live (start * kPageSize) = none := by
    by_contra hne
    obtain ⟨size, hsize⟩ := Option.ne_none_iff_exists'.mp hne
    obtain ⟨start', sp', j, ho, -⟩ := hi.object_live _ _ hsize
    have howned := hi.object_page ho
    rw [Nat.mul_div_cancel _ (by decide),
      hadded.free ⟨Nat.le_refl _, Nat.lt_add_of_pos_right hadded.length_pos⟩] at howned
    cases howned
  refine Or.inr ⟨_, start, _, rfl, rfl, ⟨?_, hobject, rfl, hunused, ?_⟩, fun hu i hi => ?_⟩
  · apply hinv.set_live s₁.fresh
    intro ptr size hsize
    simp only [Function.update_apply] at hsize
    split at hsize
    · rename_i heq
      subst heq
      exact ⟨start, _, 0, hobject, (Option.some.inj hsize).symm⟩
    · exact hinv.object_live ptr size hsize
  · simp [hadded.live]
  · have hzero := hu metaStart contents hmeta i hi
    exact (hmem 0 i hhas hi).trans hzero

/-! Clearing what was taken. -/

theorem Inv.allocateSmall_taken {size : Nat} (hi : s.Inv)
    (h : s.allocateSmall a size = some (s', r)) :
    (r = none ∧ s' = s) ∨ ∃ b start sp j, r = some b ∧ b.size = size ∧ s.Taken s' b start sp j ∧
      ((∀ ptr, a.object = some ptr → s.UntypedBlock ⟨ptr, size⟩) → sp.Untyped s'.mem j) := by
  cases r with
  | none => exact Or.inl ⟨rfl, allocateSmall_none h⟩
  | some b =>
    obtain ⟨hptr, hsize, ⟨live, rfl⟩, start, sp, j, htaken⟩ := hi.allocateSmall h
    refine Or.inr ⟨b, start, sp, j, rfl, hsize, htaken, ?_⟩
    intro hu
    have hobject := htaken.object
    apply (htaken.inv.ok hobject).untyped_of_lookup hobject.has
    intro x hlo hhi
    rw [← hobject.addr] at hlo hhi
    exact hu _ hptr x hlo (by rwa [← hsize, htaken.size])

/-- A fresh block was served, without a type. -/
def Served (s s' : HeapState) (b : Block) : Prop :=
  ∃ start sp j, s.Taken s' b start sp j ∧ sp.Untyped s'.mem j

/-- An entry point returned null without an effect, or a fresh block. -/
def Outcome (s s' : HeapState) (r : Option Block) : Prop :=
  (r = none ∧ s' = s) ∨ ∃ b, r = some b ∧ s.Served s' b

/-- An untyped object is a block without a type. -/
theorem Inv.untypedBlock (hi : s.Inv) (ho : ObjectAt s.spans b.addr start sp j)
    (hsize : b.size = sp.objectSize) (hu : sp.Untyped s.mem j) : s.UntypedBlock b := by
  intro x hlo hhi
  rw [ho.addr] at hlo hhi
  exact (hi.ok ho).lookup_of_untyped ho.has hu hlo (by rwa [hsize] at hhi)

/-- After an allocation the heap is in order and the block has no type. -/
theorem Outcome.fresh (hi : s.Inv) (h : s.Outcome s' r) :
    s'.Inv ∧ ∀ b, r = some b → s'.UntypedBlock b := by
  rcases h with ⟨rfl, rfl⟩ | ⟨b, rfl, start, sp, j, htaken, hu⟩
  · exact ⟨hi, fun b hb => by cases hb⟩
  · refine ⟨htaken.inv, ?_⟩
    intro b' hb
    cases hb
    exact htaken.inv.untypedBlock htaken.object htaken.size hu

/-- Clearing at null ends the process. -/
theorem Inv.clear_null (hi : s.Inv) (size : Nat) : s.clearMetadataPtr 0 size = none := by
  have hslot : metadataPtr s.pageTable 0 = 0 := by
    simp [metadataPtr, hi.null_page]
  rw [clearMetadataPtr_eq, hslot, hi.null_unmapped]
  rfl

theorem Inv.clearResult {keep : Bool} {size : Nat} {s₁ : HeapState} {r₁ : Option Block}
    (hi : s.Inv)
    (htaken : (r₁ = none ∧ s₁ = s) ∨ ∃ b start sp j, r₁ = some b ∧ b.size = size ∧
      s.Taken s₁ b start sp j ∧ (keep = true → sp.Untyped s₁.mem j))
    (h : Gperftools.clearResult keep size (s₁, r₁) = some (s', r)) : s.Outcome s' r := by
  unfold Gperftools.clearResult at h
  split at h
  · rename_i hkeep
    cases h
    rcases htaken with hnone | ⟨b, start, sp, j, hr, -, htaken, hu⟩
    · exact Or.inl hnone
    · exact Or.inr ⟨b, hr, start, sp, j, htaken, hu hkeep⟩
  · obtain ⟨s₂, hclear, heq⟩ := Option.map_eq_some_iff.mp h
    cases heq
    rcases htaken with ⟨rfl, rfl⟩ | ⟨b, start, sp, j, rfl, rfl, htaken, -⟩
    · rw [Option.elim_none, hi.clear_null] at hclear
      cases hclear
    · rw [Option.elim_some, htaken.size] at hclear
      obtain ⟨mem, rfl, hinv, hu⟩ := htaken.inv.clear htaken.object hclear
      exact Or.inr ⟨b, rfl, start, sp, j,
        ⟨hinv, htaken.object, htaken.size, htaken.unused, htaken.live⟩, hu⟩

/-! Freeing. -/

/-- Two objects of a large span are the same. -/
theorem Inv.large_addr {ptr' j'} (hi : s.Inv) (hlarge : sp.large = true)
    (ho : ObjectAt s.spans ptr start sp j) (ho' : ObjectAt s.spans ptr' start sp j') : ptr' = ptr := by
  have hok := hi.ok ho
  have hj := Span.object_zero hok.length_pos (hok.large_one hlarge) ho.has
  have hj' := Span.object_zero hok.length_pos (hok.large_one hlarge) ho'.has
  rw [ho.addr, ho'.addr, hj, hj']

/-- Freeing keeps the heap in order and every other object as it is. -/
theorem Inv.free (hi : s.Inv) (h : s.doFree ptr = some s') :
    s'.Inv ∧ s'.mem = s.mem ∧ ∀ ptr' start sp j, ptr' ≠ ptr →
      ObjectAt s.spans ptr' start sp j → ObjectAt s'.spans ptr' start sp j := by
  obtain ⟨size, hsize, h⟩ := Option.bind_eq_some_iff.mp h
  obtain ⟨start, sp, j, ho, -⟩ := hi.object_live _ _ hsize
  rw [hi.spanOf_eq ho] at h
  have hinv : Inv { s with live := Function.update s.live ptr none } := by
    refine hi.set_live s.fresh fun ptr' size' hsize' => hi.object_live ptr' size' ?_
    by_cases hne : ptr' = ptr
    · simp [hne] at hsize'
    · rwa [Function.update_of_ne hne] at hsize'
  simp only [Option.bind_eq_bind, Option.bind_some] at h
  split at h
  · rename_i hlarge
    refine ⟨hinv.delete ho.span h fun ptr' size' j' hlive ho' => ?_, ?_,
      fun ptr' start' sp' j' hne ho' => ?_⟩
    · have heq := hi.large_addr hlarge ho ho'
      simp [heq] at hlive
    · rw [deleteSpan_eq h]
    · refine ⟨?_, ho'.has, ho'.addr⟩
      have hstart : start' ≠ start := by
        rintro rfl
        obtain rfl := Option.some.inj (ho.span.symm.trans ho'.span)
        exact hne (hi.large_addr hlarge ho ho')
      rw [deleteSpan_eq h]
      simpa [hstart] using ho'.span
  · cases h
    exact ⟨hinv, rfl, fun _ _ _ _ _ ho' => ho'⟩

/-- So does giving back a span whose objects are all free. -/
theorem Inv.releaseSpan (hi : s.Inv) (h : s.releaseSpan start = some s') : s'.Inv := by
  obtain ⟨sp, hsp, h⟩ := Option.bind_eq_some_iff.mp h
  obtain ⟨⟨-, hfree⟩, h⟩ := Option.ite_none_right_eq_some.mp h
  apply hi.delete hsp h
  intro ptr size j hlive ho
  have hok := hi.ok ho
  have hpos := hok.objectSize_pos
  have hj : j < sp.length * kPageSize / sp.objectSize :=
    (Nat.le_div_iff_mul_le hpos).mpr ho.has
  have hnone := hfree j hj
  rw [← ho.addr, hlive] at hnone
  cases hnone

end HeapState

namespace Gperftools

open HeapState

variable (G : Gperftools) {s s' : HeapState} {a : Answer} {size : Nat} {r : Option Block}

/-- The block that answers a request has no type. -/
def TakesUntyped (s : HeapState) (a : Answer) (size : Nat) : Prop :=
  if G.servesSmall size then
    ∀ ptr, a.object = some ptr → s.UntypedBlock ⟨ptr, G.classToSize size⟩
  else UntypedSpan (G.pages size) a

/-- What `do_malloc` needs: a block without a type if it is not to clear, else a new span, if it
takes one, whose first granule tells. -/
def MallocClean (s : HeapState) (a : Answer) (size : Nat) : Prop :=
  if flagOf size = 0 then
    G.servesSmall (clearSize size) = false →
      CleanSpan (G.pages (clearSize size)) (G.pages (clearSize size) * kPageSize) kPageShift true a
  else G.TakesUntyped s a (clearSize size)

/-- An untyped span is a clean one. -/
theorem cleanSpan_of_untyped {length : Nat} (h : UntypedSpan length a) :
    CleanSpan length (length * kPageSize) kPageShift true a := by
  intro metaStart contents hmeta j hj
  apply Or.inr
  intro i hi
  have hlength : 0 < length := by
    refine Nat.pos_of_ne_zero ?_
    rintro rfl
    simp [Span.grains, spanFor] at hi
  have hzero : j = 0 := Span.object_zero hlength rfl hj
  rw [hzero]
  exact h metaStart contents hmeta i hi

variable {G}

theorem takeBlock_taken (hi : s.Inv)
    (hclean : G.servesSmall size = false →
      CleanSpan (G.pages size) (G.pages size * kPageSize) kPageShift true a)
    (h : G.takeBlock s a size = some (s', r)) :
    (r = none ∧ s' = s) ∨ ∃ b start sp j, r = some b ∧ b.size = G.takenSize size ∧
      s.Taken s' b start sp j ∧ (G.TakesUntyped s a size → sp.Untyped s'.mem j) := by
  unfold takeBlock takenSize TakesUntyped at *
  split at h
  · rename_i hsmall
    simp only [if_pos hsmall]
    exact hi.allocateSmall_taken h
  · rename_i hlarge
    rcases hi.allocatePages (hclean (by simpa using hlarge)) h with
      hnone | ⟨b, start, sp, rfl, hsize, htaken, hu⟩
    · exact Or.inl hnone
    · exact Or.inr ⟨b, start, sp, 0, rfl, by rw [if_neg hlarge, hsize], htaken,
        fun h => hu (by rwa [if_neg hlarge] at h)⟩

theorem doMalloc_outcome (hi : s.Inv) (hclean : G.MallocClean s a size)
    (h : G.doMalloc s a size = some (s', r)) : s.Outcome s' r := by
  obtain ⟨⟨s₁, r₁⟩, htake, h⟩ := Option.bind_eq_some_iff.mp h
  unfold MallocClean at hclean
  split at hclean
  · rename_i hflag
    refine hi.clearResult ((takeBlock_taken hi hclean htake).imp_right ?_) h
    rintro ⟨b, start, sp, j, hr, hsize, htaken, -⟩
    exact ⟨b, start, sp, j, hr, hsize, htaken, fun hkeep => by simp [hflag] at hkeep⟩
  · refine hi.clearResult ((takeBlock_taken hi (fun hlarge => ?_) htake).imp_right ?_) h
    · unfold TakesUntyped at hclean
      exact cleanSpan_of_untyped (by simpa [hlarge] using hclean)
    · rintro ⟨b, start, sp, j, hr, hsize, htaken, hu⟩
      exact ⟨b, start, sp, j, hr, hsize, htaken, fun _ => hu hclean⟩

theorem doCalloc_outcome {n elem_size : Nat} (hi : s.Inv)
    (hclean : n * clearSize elem_size < 2 ^ 64 →
      G.MallocClean s a (n * clearSize elem_size ||| flagOf elem_size))
    (h : G.doCalloc s a n elem_size = some (s', r)) : s.Outcome s' r := by
  simp only [doCalloc] at h
  split at h
  · cases h
    exact Or.inl ⟨rfl, rfl⟩
  · rename_i hproduct
    have hlt := product_lt hproduct
    rw [Nat.mod_eq_of_lt hlt] at h
    exact doMalloc_outcome hi (hclean hlt) h

variable (G) in
/-- What `do_memalign` needs. Where it takes a span of its own it never clears. -/
def MemalignClean (s : HeapState) (a : Answer) (align size : Nat) : Prop :=
  let n := clearSize size
  if (n + align) % 2 ^ 64 < n then True
  else if align ≤ G.alignmentForSize n then G.MallocClean s a (n ||| flagOf size)
  else
    let n := if n = 0 then 1 else n
    match G.smallAlignedClass align n with
    | some c => flagOf size = 0 ∨ ∀ ptr, a.object = some ptr → s.UntypedBlock ⟨ptr, c⟩
    | none => UntypedSpan (G.pages n) a

theorem doMemalign_outcome {align : Nat} (hi : s.Inv) (hclean : G.MemalignClean s a align size)
    (h : G.doMemalign s a align size = some (s', r)) : s.Outcome s' r := by
  simp only [doMemalign, MemalignClean] at h hclean
  split at h
  · cases h
    exact Or.inl ⟨rfl, rfl⟩
  rename_i hoverflow
  rw [if_neg hoverflow] at hclean
  split at h
  · rename_i halign
    rw [if_pos halign] at hclean
    exact doMalloc_outcome hi hclean h
  rename_i halign
  rw [if_neg halign] at hclean
  split at h
  · rename_i c hc
    simp only [hc] at hclean
    obtain ⟨⟨s₁, r₁⟩, htake, h⟩ := Option.bind_eq_some_iff.mp h
    refine hi.clearResult ((hi.allocateSmall_taken htake).imp_right ?_) h
    rintro ⟨b, start, sp, j, hr, hsize, htaken, hu⟩
    exact ⟨b, start, sp, j, hr, hsize, htaken,
      fun hkeep => hu (hclean.resolve_left (by simpa using hkeep))⟩
  · rename_i hc
    simp only [hc] at hclean
    rcases hi.allocatePages (cleanSpan_of_untyped hclean) (allocatePages_of_memalign h) with
      hnone | ⟨b, start, sp, rfl, -, htaken, hu⟩
    · exact Or.inl hnone
    · exact Or.inr ⟨b, rfl, start, sp, 0, htaken, hu hclean⟩

variable (G) in
/-- What `do_realloc_with_callback` needs. A block that it keeps keeps its type. -/
def ReallocClean (s : HeapState) (grown exact : Answer) (old : Block) (new_size : Nat) : Prop :=
  let n := clearSize new_size
  if G.keepsBlock old.size n then s.UntypedBlock old
  else
    (n > old.size ∧ n < G.lowerBoundToGrow old.size →
      G.MallocClean s grown (G.lowerBoundToGrow old.size ||| flagOf new_size)) ∧
    G.MallocClean s exact (n ||| flagOf new_size)

theorem doRealloc_fresh {grown exact : Answer} {old : Block} {new_size : Nat} (hi : s.Inv)
    (hlive : s.live old.addr = some old.size) (hclean : G.ReallocClean s grown exact old new_size)
    (h : G.doRealloc s grown exact old new_size = some (s', r)) :
    s'.Inv ∧ ∀ b, r = some b → s'.UntypedBlock b := by
  simp only [doRealloc, ReallocClean] at h hclean
  split at h
  · rename_i hkeep
    cases h
    rw [if_pos hkeep] at hclean
    exact ⟨hi, fun b hb => Option.some.inj hb ▸ hclean⟩
  rename_i hkeep
  rw [if_neg hkeep] at hclean
  obtain ⟨⟨s₁, r₁⟩, hblock, hrest⟩ := Option.bind_eq_some_iff.mp h
  have houtcome : s.Outcome s₁ r₁ := by
    obtain ⟨⟨s₂, r₂⟩, htried, hexact⟩ := Option.bind_eq_some_iff.mp hblock
    have hfirst : s.Outcome s₂ r₂ := by
      split at htried
      · rename_i hgrow
        exact doMalloc_outcome hi (hclean.1 hgrow) htried
      · cases htried
        exact Or.inl ⟨rfl, rfl⟩
    rcases hfirst with ⟨rfl, rfl⟩ | ⟨b, rfl, hserved⟩
    · exact doMalloc_outcome hi hclean.2 hexact
    · cases hexact
      exact Or.inr ⟨b, rfl, hserved⟩
  rcases houtcome with ⟨rfl, rfl⟩ | ⟨b, rfl, start, sp, j, htaken, hu⟩
  · cases hrest
    exact ⟨hi, fun b hb => by cases hb⟩
  · obtain ⟨s₂, hfree, heq⟩ := Option.map_eq_some_iff.mp hrest
    cases heq
    obtain ⟨hinv, hmem, hother⟩ := htaken.inv.free hfree
    have hne : b.addr ≠ old.addr := by
      intro heq
      simp [← heq, htaken.unused] at hlive
    refine ⟨hinv, ?_⟩
    intro b' hb
    cases hb
    exact hinv.untypedBlock (hother _ _ _ _ hne htaken.object) htaken.size (by rwa [hmem])

end Gperftools

end TypeSan
