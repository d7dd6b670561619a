import TypeSan.AllocSize
import TypeSan.HeapInvariant

/-! The metadata slots of the objects of a span. -/
namespace TypeSan

open PageMap Rounding WordMemory

/-- The size of the objects of a span, with its alignment exponent: those of a size class, or of
objects of whole pages. -/
def Gperftools.Serves (G : Gperftools) (objectSize alignment : Nat) : Prop :=
  0 < objectSize ∧ (objectSize ≤ G.kMaxSize ∧ alignment = G.alignmentBitsForSize objectSize ∨
    kPageSize ∣ objectSize ∧ alignment = kPageShift)

/-- The address lies in object `j` of the span that starts at page `start`. -/
def Span.InObject (sp : Span) (start j x : Nat) : Prop :=
  start * kPageSize + j * sp.objectSize ≤ x ∧
    x < start * kPageSize + j * sp.objectSize + sp.objectSize

/-- The slots of the objects of a span are apart and in its metadata span, and `clear_metadata_ptr`
zeroes all slots of its object if there is a type to clear, and no other word. -/
structure HeapState.OwnSlots (s : HeapState) (start : Nat) (sp : Span) : Prop where
  apart : ∀ j j' x x', j ≠ j' → sp.HasObject j → sp.HasObject j' → sp.InObject start j x →
    sp.InObject start j' x' → metadataPtr s.pageTable x + 16 ≤ metadataPtr s.pageTable x' ∨
      metadataPtr s.pageTable x' + 16 ≤ metadataPtr s.pageTable x
  inside : ∀ j x, sp.HasObject j → sp.InObject start j x →
    sp.metaStart * kPageSize ≤ metadataPtr s.pageTable x ∧
      metadataPtr s.pageTable x + 16 ≤ (sp.metaStart + sp.metaLength) * kPageSize
  clear : ∀ j, sp.HasObject j → ∃ mem,
    s.clearMetadataPtr (start * kPageSize + j * sp.objectSize) sp.objectSize =
        some { s with mem } ∧
      (∀ address, (∀ x, sp.InObject start j x →
        address ≠ metadataPtr s.pageTable x ∧ address ≠ metadataPtr s.pageTable x + 8) →
          mem address = s.mem address) ∧
      (s.mem (metadataPtr s.pageTable (start * kPageSize + j * sp.objectSize)) = some 0 ∧
          mem = s.mem ∨
        s.mem (metadataPtr s.pageTable (start * kPageSize + j * sp.objectSize)) ≠ some 0 ∧
          ∀ x, sp.InObject start j x → mem (metadataPtr s.pageTable x) = some 0 ∧
            mem (metadataPtr s.pageTable x + 8) = some 0)

/-- A granule divides an object: it is a power of two that divides the size, or a page. -/
theorem Gperftools.Serves.dvd {G : Gperftools} {objectSize alignment : Nat}
    (h : G.Serves objectSize alignment) : 2 ^ alignment ∣ objectSize := by
  obtain ⟨-, ⟨hle, rfl⟩ | ⟨hdvd, rfl⟩⟩ := h
  · rw [alignmentBitsForSize, if_neg (Nat.not_lt.mpr hle)]
    exact two_pow_trailingZeros_dvd 64 objectSize
  · exact hdvd

theorem Gperftools.Serves.alignment_lt {G : Gperftools} {objectSize alignment : Nat}
    (h : G.Serves objectSize alignment) : alignment < 128 := by
  obtain ⟨-, ⟨hle, rfl⟩ | ⟨-, rfl⟩⟩ := h
  · rw [alignmentBitsForSize, if_neg (Nat.not_lt.mpr hle)]
    exact Nat.lt_of_le_of_lt (trailingZeros_le 64 objectSize) (by decide)
  · decide

namespace Span

variable {sp : Span} {start j x : Nat}

/-- The granule of a byte of an object. -/
theorem InObject.slot {pageTable : PageTable}
    (hx : sp.InObject start j x) (hsize : sp.objectSize = sp.grains * 2 ^ sp.alignment)
    (hreg : Registered pageTable (start * kPageSize) (sp.length * kPageSize)
      (sp.metaStart * kPageSize) sp.alignment) (hj : sp.HasObject j) :
    ∃ i < sp.grains, metadataPtr pageTable x = sp.slot j i := by
  obtain ⟨y, rfl⟩ := Nat.exists_eq_add_of_le hx.1
  have hy : y < sp.objectSize := by
    have := hx.2
    omega
  exact ⟨_, grain_lt hsize hy, metadataPtr_eq hsize hreg hj hy⟩

/-- Each granule of an object has a byte. -/
theorem exists_inObject {pageTable : PageTable} {i : Nat}
    (hsize : sp.objectSize = sp.grains * 2 ^ sp.alignment)
    (hreg : Registered pageTable (start * kPageSize) (sp.length * kPageSize)
      (sp.metaStart * kPageSize) sp.alignment) (hj : sp.HasObject j) (hi : i < sp.grains) :
    ∃ x, sp.InObject start j x ∧ metadataPtr pageTable x = sp.slot j i := by
  have hpow := Nat.two_pow_pos sp.alignment
  have hy : i * 2 ^ sp.alignment < sp.objectSize := by
    rw [hsize]
    exact Nat.mul_lt_mul_of_pos_right hi hpow
  refine ⟨_, ⟨Nat.le_add_right _ (i * 2 ^ sp.alignment), Nat.add_lt_add_left hy _⟩, ?_⟩
  rw [metadataPtr_eq hsize hreg hj hy, Nat.mul_div_cancel _ hpow]

end Span

namespace HeapState

/-- A span with metadata for each granule, of which each object has whole ones. -/
theorem ownSlots {s : HeapState} {start : Nat} {sp : Span}
    (hsize : sp.objectSize = sp.grains * 2 ^ sp.alignment) (hpos : 0 < sp.objectSize)
    (hreg : Registered s.pageTable (start * kPageSize) (sp.length * kPageSize)
      (sp.metaStart * kPageSize) sp.alignment)
    (hroom : granules (sp.length * kPageSize) sp.alignment * 16 ≤ sp.metaLength * kPageSize)
    (hmapped : ∀ address, InRange sp.metaStart sp.metaLength (address / kPageSize) →
      (s.mem address).isSome) : s.OwnSlots start sp where
  apart j j' x x' hne hj hj' hx hx' := by
    obtain ⟨i, hi, hslot⟩ := hx.slot hsize hreg hj
    obtain ⟨i', hi', hslot'⟩ := hx'.slot hsize hreg hj'
    have hdiff : sp.slot j i ≠ sp.slot j' i' := fun heq => hne (Span.slot_inj hi hi' heq).1
    rw [hslot, hslot']
    simp only [Span.slot] at hdiff ⊢
    omega
  inside j x hj hx := by
    obtain ⟨i, hi, hslot⟩ := hx.slot hsize hreg hj
    have hlt := Span.granule_lt sp hsize hj hi
    rw [hslot, Nat.add_mul]
    simp only [Span.slot]
    omega
  clear j hj := by
    have hgrains : 0 < sp.grains := by
      rw [hsize] at hpos
      exact Nat.pos_of_mul_pos_right hpos
    have hfirst : metadataPtr s.pageTable (start * kPageSize + j * sp.objectSize) = sp.slot j 0 := by
      rw [← Nat.add_zero (start * kPageSize + _), Span.metadataPtr_eq hsize hreg hj hpos, Nat.zero_div]
    obtain ⟨word, hword⟩ := Option.isSome_iff_exists.mp
      (hmapped _ (Span.slot_page sp hsize hroom hj hgrains))
    rw [clearMetadataPtr_object hsize hpos hreg hj, hfirst, hword, Option.bind_some]
    by_cases hzero : word = 0
    · exact ⟨s.mem, if_neg (not_not_intro hzero), fun _ _ => rfl, Or.inl ⟨by rw [hzero], rfl⟩⟩
    · refine ⟨writes s.mem (clearStores sp j), if_pos hzero, ?_, Or.inr ⟨by simpa using hzero, ?_⟩⟩
      · intro address hother
        refine writes_of_forall_ne fun st hst heq => ?_
        obtain ⟨i, hi, haddr⟩ := within_clearStores st hst
        obtain ⟨x, hx, hslot⟩ := Span.exists_inObject hsize hreg hj hi
        have hne := hother x hx
        rw [hslot] at hne
        rcases haddr with haddr | haddr
        · exact hne.1 (heq.trans haddr)
        · exact hne.2 (heq.trans haddr)
      · intro x hx
        obtain ⟨i, hi, hslot⟩ := hx.slot hsize hreg hj
        rw [hslot]
        exact ⟨writes_clearStores (mem_clearStores hi).1, writes_clearStores (mem_clearStores hi).2⟩

end HeapState

/-- Where a span has been given its metadata span, each of its objects owns its slots, as long as
the entries of the span are there and its metadata is mapped. -/
theorem objects_own_slots {G : Gperftools} {s₀ s₁ s : HeapState} {a : Answer}
    {length objectSize alignment start : Nat} {large : Bool} {sp : Span}
    (hserves : G.Serves objectSize alignment)
    (h : s₀.newSpan a length objectSize alignment large = some (s₁, some start))
    (hsp : s₁.spans start = some sp)
    (htable : ∀ page, InRange start length (page / 2) → s.pageTable page = s₁.pageTable page)
    (hmapped : ∀ address, InRange sp.metaStart sp.metaLength (address / kPageSize) →
      (s.mem address).isSome) : s.OwnSlots start sp := by
  rcases HeapState.newSpan_cases h with ⟨hnone, -⟩ | ⟨start', metaStart, contents, hstart, -, hadded⟩
  · cases hnone
  · obtain rfl := Option.some.inj hstart
    have hspan : sp = spanFor length objectSize alignment metaStart large := by
      rw [hadded.spans, Function.update_self] at hsp
      exact (Option.some.inj hsp).symm
    subst hspan
    have hsize : objectSize = objectSize / 2 ^ alignment * 2 ^ alignment :=
      (Nat.div_mul_cancel hserves.dvd).symm
    exact HeapState.ownSlots hsize hserves.1 ((hadded.registered hserves.alignment_lt).frame htable)
      hadded.room hmapped

/-- Objects of 48 bytes, some of which lie across pages of the page table. -/
theorem objects_own_slots_of_populate :
    ∃ s₁, tinyHeap.newSpan ⟨none, some 64, some (128, fun _ => 7)⟩ 32 48
        (patchedGperftools.alignmentBitsForSize 48) false = some (s₁, some 64) ∧
      s₁.OwnSlots 64 ⟨32, 48, false, 4, 128, 32⟩ := by
  have hrun : (tinyHeap.newSpan ⟨none, some 64, some (128, fun _ => 7)⟩ 32 48
      (patchedGperftools.alignmentBitsForSize 48) false).map (fun r => (r.2, r.1.spans 64)) =
        some (some 64, some ⟨32, 48, false, 4, 128, 32⟩) := by decide +kernel
  obtain ⟨⟨s₁, start⟩, hs₁, heq⟩ := Option.map_eq_some_iff.mp hrun
  obtain ⟨rfl, hsp⟩ := Prod.mk.inj heq
  refine ⟨s₁, hs₁, objects_own_slots ⟨by decide, Or.inl ⟨by decide, rfl⟩⟩ hs₁ hsp
    (fun page hpage => rfl) ?_⟩
  intro address haddress
  rcases HeapState.newSpan_cases hs₁ with ⟨hnone, -⟩ | ⟨start, metaStart, contents, -, -, hadded⟩
  · cases hnone
  · rw [hadded.mem, HeapState.recycle]
    split <;> rfl

end TypeSan
