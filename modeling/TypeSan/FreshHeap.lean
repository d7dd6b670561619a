import TypeSan.HeapServe
import TypeSan.Library.Runs

/-! Runs of the heap: allocation, typing, freeing and reuse, and whether fresh blocks have types. -/
namespace TypeSan

open Rounding Runs WordMemory

/-- One step of the heap. -/
inductive HeapEvent where
  | populate (a : Answer) (objectSize : Nat)
  | releaseSpan (start : Nat)
  | malloc (a : Answer) (size : Nat)
  | calloc (a : Answer) (n elem_size : Nat)
  | realloc (grown exact : Answer) (ptr new_size : Nat)
  | memalign (a : Answer) (align size : Nat)
  | free (ptr : Nat)
  | update (ptr : Nat) (u : MetallocUpdate)

namespace HeapState

/-- `insertUpdateMetalloc` on the result of an allocation, whose count comes from the size asked
for. -/
def typeBlock (addrOf : String → Nat) (s : HeapState) (ptr : Nat) (u : MetallocUpdate) :
    Option HeapState := do
  let size ← s.live ptr
  let (structNode, count) ← u.target
  let stores ← u.stores s.pageTable addrOf ptr
  if u.alignment = 0 ∧ u.filledBytes structNode count ≤ size then
    return { s with mem := writes s.mem stores }
  else none

/-- The step of an allocation: it leaves its block as the fresh one. -/
def allocated (r : HeapState × Option Block) : HeapState := { r.1 with fresh := r.2 }

/-- A step that allocates nothing. -/
def settled (s : HeapState) : HeapState := { s with fresh := none }

/-- Before the first allocation. -/
def initial : HeapState :=
  ⟨fun _ => 0, fun _ => none, fun _ => none, fun _ => none, fun _ => none, none⟩

end HeapState

namespace Gperftools

variable (G : Gperftools) (addrOf : String → Nat)

def step (s : HeapState) : HeapEvent → Option HeapState
  | .populate a objectSize =>
    if 0 < objectSize ∧ objectSize ≤ G.kMaxSize then (s.populate G a objectSize).map HeapState.settled
    else none
  | .releaseSpan start => (s.releaseSpan start).map HeapState.settled
  | .malloc a size => (G.doMalloc s a size).map HeapState.allocated
  | .calloc a n elem_size => (G.doCalloc s a n elem_size).map HeapState.allocated
  | .realloc grown exact ptr new_size => do
    let size ← s.live ptr
    (G.doRealloc s grown exact ⟨ptr, size⟩ new_size).map HeapState.allocated
  | .memalign a align size => (G.doMemalign s a align size).map HeapState.allocated
  | .free ptr => (s.doFree ptr).map HeapState.settled
  | .update ptr u => (s.typeBlock addrOf ptr u).map HeapState.settled

end Gperftools

/-! Typing a block. -/

namespace HeapState

/-- What an update needs: the base of a literal struct is null, so behind it no granule may have a
type. -/
def UpdateClean (s : HeapState) (ptr : Nat) (u : MetallocUpdate) : Prop :=
  ∀ structNode count size, u.target = some (structNode, count) → s.live ptr = some size →
    structNode.name = none → 0 < u.filledBytes structNode count →
    let alignment := s.pageTable (ptr / METALLOC_PAGESIZE) &&& 0xFF
    ∀ x, ptr + granules (u.filledBytes structNode count) alignment * 2 ^ alignment ≤ x →
      x < ptr + size → s.mem (metadataPtr s.pageTable x) = some 0

variable {s s' : HeapState} {ptr start : Nat} {sp : Span} {j : Nat}

/-- The stores that fill the first `bytes` bytes of an object. -/
theorem Inv.mem_fill (hi : s.Inv) (ho : ObjectAt s.spans ptr start sp j) {bytes v w : Nat}
    (hpos : 0 < bytes) (hle : bytes ≤ sp.objectSize) {st : Store} :
    st ∈ metallocWidememset (metadataPtr s.pageTable ptr) (granules bytes sp.alignment) v w ↔
      ∃ i < granules bytes sp.alignment, st = (sp.slot j i, v) ∨ st = (sp.slot j i + 8, w) := by
  have hok := hi.ok ho
  have haddr := ho.addr
  have hhas := ho.has
  simp only [Span.HasObject, Nat.add_mul, Nat.one_mul] at hhas
  have hoffset : ptr - start * kPageSize = j * sp.grains * 2 ^ sp.alignment := by
    rw [haddr, Nat.add_sub_cancel_left, Nat.mul_assoc, ← hok.size_eq]
  have hgrain : (ptr - start * kPageSize) / 2 ^ sp.alignment = j * sp.grains := by
    rw [hoffset, Nat.mul_div_cancel _ (Nat.two_pow_pos _)]
  rw [TypeSan.mem_fill hok.registered (by omega) (by omega) hpos (Dvd.intro_left _ hoffset.symm),
    hgrain]
  rfl

theorem granules_le_grains (hok : s.SpanOk start sp) {bytes : Nat} (hle : bytes ≤ sp.objectSize) :
    granules bytes sp.alignment ≤ sp.grains := by
  refine Nat.le_trans (granules_mono hle) ?_
  have hpow := Nat.two_pow_pos sp.alignment
  rw [granules, hok.size_eq, Nat.mul_comm, Nat.mul_add_div hpow,
    Nat.div_eq_of_lt (Nat.sub_lt hpow Nat.one_pos), Nat.add_zero]

/-- The granules that are filled hold the base, and the others what they held. -/
theorem Inv.writes_fill (hi : s.Inv) (ho : ObjectAt s.spans ptr start sp j) {bytes v w i : Nat}
    (hpos : 0 < bytes) (hle : bytes ≤ sp.objectSize) (hgrain : i < sp.grains) :
    WordMemory.writes s.mem
        (metallocWidememset (metadataPtr s.pageTable ptr) (granules bytes sp.alignment) v w)
        (sp.slot j i) =
        if i < granules bytes sp.alignment then some v else s.mem (sp.slot j i) := by
  have hgranules := granules_le_grains (hi.ok ho) hle
  split
  · rename_i hfilled
    apply writes_of_mem ((hi.mem_fill ho hpos hle).mpr ⟨i, hfilled, Or.inl rfl⟩)
    intro st hst heq
    obtain ⟨i', _, rfl | rfl⟩ := (hi.mem_fill ho hpos hle).mp hst
    · rfl
    · exact (Span.slot_ne_add heq.symm).elim
  · rename_i hrest
    apply writes_of_forall_ne
    intro st hst heq
    obtain ⟨i', hi', rfl | rfl⟩ := (hi.mem_fill ho hpos hle).mp hst
    · have := (Span.slot_inj hgrain (Nat.lt_of_lt_of_le hi' hgranules) heq).2
      omega
    · exact Span.slot_ne_add heq

/-- What an update of a live block does: it fills the first granules of its object. -/
theorem Inv.typeBlock_eq {addrOf : String → Nat} {u : MetallocUpdate} (hi : s.Inv)
    (h : s.typeBlock addrOf ptr u = some s') :
    ∃ start sp j E c, ObjectAt s.spans ptr start sp j ∧ s.live ptr = some sp.objectSize ∧
      u.target = some (E, c) ∧ u.filledBytes E c ≤ sp.objectSize ∧
      s.pageTable (ptr / METALLOC_PAGESIZE) &&& 0xFF = sp.alignment ∧
      s' = { s with mem := WordMemory.writes s.mem (metallocWidememset (metadataPtr s.pageTable ptr)
        (granules (u.filledBytes E c) sp.alignment) (MetallocUpdate.ptrToStore E ptr)
        (MetallocUpdate.typeInfoPtrInt addrOf E c)) } := by
  obtain ⟨size, hsize, h⟩ := Option.bind_eq_some_iff.mp h
  obtain ⟨⟨E, c⟩, htarget, h⟩ := Option.bind_eq_some_iff.mp h
  obtain ⟨stores, hstores, h⟩ := Option.bind_eq_some_iff.mp h
  obtain ⟨⟨halign, hle⟩, h⟩ := Option.ite_none_right_eq_some.mp h
  cases h
  obtain ⟨start, sp, j, ho, rfl⟩ := hi.object_live _ _ hsize
  have hok := hi.ok ho
  have hhas := ho.has
  simp only [Span.HasObject, Nat.add_mul, Nat.one_mul] at hhas
  have hpos := hok.objectSize_pos
  have hal := (hok.registered.fields (x := ptr) (by rw [ho.addr]; omega)
    (by rw [ho.addr]; omega)).2
  have hal_le := hok.alignment_le ho.has
  have hsize_le := hok.objectSize_le ho.has
  rw [MetallocUpdate.stores_eq addrOf htarget (Or.inr halign) (by omega) (by omega)
    (Or.inr halign) hal] at hstores
  cases hstores
  exact ⟨start, sp, j, E, c, ho, hsize, htarget, hle, hal, rfl⟩

/-- Typing keeps the heap in order: the first granule is typed with the others. -/
theorem Inv.typeBlock {addrOf : String → Nat} {u : MetallocUpdate} (hi : s.Inv)
    (hclean : s.UpdateClean ptr u) (h : s.typeBlock addrOf ptr u = some s') : s'.Inv := by
  obtain ⟨start, sp, j, E, c, ho, hsize, htarget, hle, hal, rfl⟩ := hi.typeBlock_eq h
  have hok := hi.ok ho
  rcases Nat.eq_zero_or_pos (u.filledBytes E c) with hzero | hfilled
  · have hnone : granules 0 sp.alignment = 0 := Nat.div_eq_of_lt (by simp)
    simpa [hzero, hnone, metallocWidememset] using hi
  refine hi.writes ho (fun st hst => ?_) ?_
  · obtain ⟨i, hi', hst⟩ := (hi.mem_fill ho hfilled hle).mp hst
    refine ⟨i, Nat.lt_of_lt_of_le hi' (granules_le_grains hok hle), ?_⟩
    exact hst.imp (congrArg Prod.fst) (congrArg Prod.fst)
  · by_cases hname : E.name = none
    · apply Or.inr
      intro i hgrain
      rw [hi.writes_fill ho hfilled hle hgrain, MetallocUpdate.ptrToStore, if_pos hname]
      split
      · rfl
      · rename_i hrest
        have hbyte : i * 2 ^ sp.alignment < sp.objectSize := by
          rw [hok.size_eq]
          exact Nat.mul_lt_mul_of_pos_right hgrain (Nat.two_pow_pos _)
        have hx : ptr + granules (u.filledBytes E c) sp.alignment * 2 ^ sp.alignment ≤
            ptr + i * 2 ^ sp.alignment :=
          Nat.add_le_add_left (Nat.mul_le_mul_right _ (Nat.not_lt.mp hrest)) _
        have hnull := hclean E c _ htarget hsize hname hfilled (ptr + i * 2 ^ sp.alignment)
          (by rwa [hal]) (by omega)
        rwa [ho.addr, hok.metadataPtr_eq ho.has hbyte,
          Nat.mul_div_cancel _ (Nat.two_pow_pos _)] at hnull
    · refine Or.inl ?_
      rw [hi.writes_fill ho hfilled hle hok.grains_pos, if_pos (granules_pos hfilled),
        MetallocUpdate.ptrToStore, if_neg hname]
      have hstart := Nat.mul_pos hok.start_pos (show 0 < kPageSize by decide)
      have haddr := ho.addr
      simp only [ne_eq, Option.some.injEq]
      omega

/-! Steps and runs. -/

/-- The block that the last step allocated, if it did, has no type. -/
def FreshUntyped (s : HeapState) : Prop := ∀ b, s.fresh = some b → s.UntypedBlock b

theorem Inv.settled (hi : s.Inv) : s.settled.Inv ∧ s.settled.FreshUntyped :=
  ⟨hi.set_live none hi.object_live, fun b hb => by cases hb⟩

theorem Inv.allocated {r : HeapState × Option Block}
    (h : r.1.Inv ∧ ∀ b, r.2 = some b → r.1.UntypedBlock b) :
    (allocated r).Inv ∧ (allocated r).FreshUntyped :=
  ⟨h.1.set_live r.2 h.1.object_live, h.2⟩

theorem initial_inv : initial.Inv where
  span_ok start sp h := by cases h
  object_live ptr size h := by cases h
  null_page := rfl
  null_unmapped := rfl

end HeapState

theorem HeapState.Inv.populate {G : Gperftools} {s s' : HeapState} {a : Answer} {objectSize : Nat}
    (hi : s.Inv) (hpos : 0 < objectSize) (hle : objectSize ≤ G.kMaxSize)
    (hclean : CleanSpan (G.classToPages objectSize) objectSize (G.alignmentBitsForSize objectSize)
      false a)
    (h : s.populate G a objectSize = some s') : s'.Inv := by
  obtain ⟨⟨s₁, r⟩, hspan, rfl⟩ := Option.map_eq_some_iff.mp h
  have halign : G.alignmentBitsForSize objectSize = trailingZeros 64 objectSize :=
    if_neg (Nat.not_lt.mpr hle)
  have hlt := trailingZeros_le 64 objectSize
  have hdvd := two_pow_trailingZeros_dvd 64 objectSize
  rcases hi.newSpan (by omega) (by rwa [halign]) (fun _ => hpos) (fun h => by cases h) hclean
    hspan with ⟨-, rfl⟩ | ⟨_, _, _, _, _, _, hinv, _⟩
  · exact hi
  · exact hinv

variable {G : Gperftools} {addrOf : String → Nat} {s s' : HeapState}

/-- The step takes no type over from earlier use of the memory. -/
def HeapEvent.Clean (G : Gperftools) (s : HeapState) : HeapEvent → Prop
  | .populate a objectSize =>
    CleanSpan (G.classToPages objectSize) objectSize (G.alignmentBitsForSize objectSize) false a
  | .malloc a size => G.MallocClean s a size
  | .calloc a n elem_size =>
    n * clearSize elem_size < 2 ^ 64 →
      G.MallocClean s a (n * clearSize elem_size ||| flagOf elem_size)
  | .realloc grown exact ptr new_size =>
    ∀ size, s.live ptr = some size → G.ReallocClean s grown exact ⟨ptr, size⟩ new_size
  | .memalign a align size => G.MemalignClean s a align size
  | .update ptr u => s.UpdateClean ptr u
  | .releaseSpan _ => True
  | .free _ => True

theorem Gperftools.step_fresh {e : HeapEvent} (hi : s.Inv) (hclean : e.Clean G s)
    (h : G.step addrOf s e = some s') : s'.Inv ∧ s'.FreshUntyped := by
  cases e with
  | populate a objectSize =>
    obtain ⟨⟨hpos, hle⟩, h⟩ := Option.ite_none_right_eq_some.mp h
    obtain ⟨s₁, hs₁, rfl⟩ := Option.map_eq_some_iff.mp h
    exact (hi.populate hpos hle hclean hs₁).settled
  | releaseSpan start =>
    obtain ⟨s₁, hs₁, rfl⟩ := Option.map_eq_some_iff.mp h
    exact (hi.releaseSpan hs₁).settled
  | malloc a size =>
    obtain ⟨r, hr, rfl⟩ := Option.map_eq_some_iff.mp h
    exact HeapState.Inv.allocated ((doMalloc_outcome hi hclean hr).fresh hi)
  | calloc a n elem_size =>
    obtain ⟨r, hr, rfl⟩ := Option.map_eq_some_iff.mp h
    exact HeapState.Inv.allocated ((doCalloc_outcome hi hclean hr).fresh hi)
  | realloc grown exact ptr new_size =>
    obtain ⟨size, hsize, h⟩ := Option.bind_eq_some_iff.mp h
    obtain ⟨r, hr, rfl⟩ := Option.map_eq_some_iff.mp h
    exact HeapState.Inv.allocated (doRealloc_fresh hi hsize (hclean size hsize) hr)
  | memalign a align size =>
    obtain ⟨r, hr, rfl⟩ := Option.map_eq_some_iff.mp h
    exact HeapState.Inv.allocated ((doMemalign_outcome hi hclean hr).fresh hi)
  | free ptr =>
    obtain ⟨s₁, hs₁, rfl⟩ := Option.map_eq_some_iff.mp h
    exact (hi.free hs₁).1.settled
  | update ptr u =>
    obtain ⟨s₁, hs₁, rfl⟩ := Option.map_eq_some_iff.mp h
    exact (hi.typeBlock hclean hs₁).settled

/-- In a run of clean steps no fresh block has a type. -/
theorem freshUntyped_of_clean {events : List HeapEvent}
    (hclean : Guarded (G.step addrOf) (fun s e => e.Clean G s) .initial events)
    (h : Visits (G.step addrOf) .initial events s) : s.FreshUntyped := by
  have hinitial : HeapState.initial.Inv ∧ HeapState.initial.FreshUntyped :=
    ⟨HeapState.initial_inv, fun b hb => by cases hb⟩
  exact (visits_invariant (I := fun s => s.Inv ∧ s.FreshUntyped) hinitial
    (fun _ _ _ ht hc hu => Gperftools.step_fresh ht.1 hc hu) hclean h).2

/-- An object that is typed, freed and allocated again. -/
theorem freshUntyped_of_reuse :
    ∃ s, exec (patchedGperftools.step fun _ => 64) .initial
        [.populate ⟨none, some 16, some (64, fun _ => 0)⟩ 16,
          .malloc ⟨some 0x20000, none, none⟩ 16,
          .update 0x20000 ⟨.struct (some "trackedtype.A") false [.scalar 8 3], 0, 1, 0⟩,
          .free 0x20000,
          .malloc ⟨some 0x20000, none, none⟩ 12] = some s ∧
      s.fresh = some ⟨0x20000, 16⟩ ∧ s.FreshUntyped := by
  have hrun : (exec (patchedGperftools.step fun _ => 64) .initial
      [.populate ⟨none, some 16, some (64, fun _ => 0)⟩ 16,
        .malloc ⟨some 0x20000, none, none⟩ 16,
        .update 0x20000 ⟨.struct (some "trackedtype.A") false [.scalar 8 3], 0, 1, 0⟩,
        .free 0x20000,
        .malloc ⟨some 0x20000, none, none⟩ 12]).map HeapState.fresh = some (some ⟨0x20000, 16⟩) := by
    decide +kernel
  obtain ⟨s, hs, hfresh⟩ := Option.map_eq_some_iff.mp hrun
  refine ⟨s, hs, hfresh, freshUntyped_of_clean ?_ (visits_last hs)⟩
  have hsmall (t : HeapState) (a : Answer) (size : Nat) (hflag : flagOf size = 0)
      (hsmall : patchedGperftools.servesSmall (clearSize size) = true) :
      patchedGperftools.MallocClean t a size := by
    rw [Gperftools.MallocClean, if_pos hflag, hsmall]
    simp
  refine guarded_cons ?_ fun t _ => guarded_cons (hsmall t _ _ (by decide) (by decide)) fun t _ =>
    guarded_cons ?_ fun t _ => guarded_cons trivial fun t _ =>
      guarded_cons (hsmall t _ _ (by decide) (by decide)) fun t _ => guarded_nil
  · rintro _ _ ⟨⟩ j _
    exact Or.inr fun _ _ => rfl
  · rintro E c size ⟨⟩ _ hname
    cases hname

/-- An aligned span whose metadata pages held something else before. -/
theorem freshUntyped_fails_after_memalign :
    ¬ ∀ (G : Gperftools) (addrOf : String → Nat) (events : List HeapEvent) (s : HeapState),
      G.Documented → Visits (G.step addrOf) .initial events s → s.FreshUntyped := by
  intro hall
  have hrun : (exec (patchedGperftools.step fun _ => 64) .initial
      [.memalign ⟨none, some 16, some (64, fun _ => 7)⟩ 8192 8192]).map (fun s =>
        (s.fresh, s.mem (metadataPtr s.pageTable 0x20000))) =
          some (some ⟨0x20000, 8192⟩, some 7) := by
    decide +kernel
  obtain ⟨s, hs, hfresh⟩ := Option.map_eq_some_iff.mp hrun
  obtain ⟨hblock, hslot⟩ := Prod.mk.inj hfresh
  have huntyped := hall _ _ _ _ patchedGperftools_documented (visits_last hs) _ hblock 0x20000
    (Nat.le_refl _) (by decide)
  rw [hslot] at huntyped
  cases huntyped

end TypeSan
