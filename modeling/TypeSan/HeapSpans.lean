import TypeSan.Tcmalloc

/-! Spans with their metadata: what each keeps while others come and go. -/
namespace TypeSan

open PageMap Rounding WordMemory

namespace Span

variable (sp : Span)

/-- The granules of one object. -/
def grains : Nat := sp.objectSize / 2 ^ sp.alignment

/-- The address of the metadata of a granule of an object. -/
def slot (j i : Nat) : Nat := sp.metaStart * kPageSize + 16 * (j * sp.grains + i)

/-- The span has room for the object. -/
def HasObject (j : Nat) : Prop := (j + 1) * sp.objectSize ≤ sp.length * kPageSize

/-- No byte of the object has a type. -/
def Untyped (mem : Memory) (j : Nat) : Prop := ∀ i < sp.grains, mem (sp.slot j i) = some 0

/-- The first granule tells whether the object has a type. -/
def Clearable (mem : Memory) (j : Nat) : Prop :=
  mem (sp.slot j 0) ≠ some 0 ∨ sp.Untyped mem j

/-- The stores go to the slots of an object. -/
def Within (j : Nat) (stores : List Store) : Prop :=
  ∀ st ∈ stores, ∃ i < sp.grains, st.1 = sp.slot j i ∨ st.1 = sp.slot j i + 8

variable {sp}

theorem slot_inj {j j' i i' : Nat} (hi : i < sp.grains) (hi' : i' < sp.grains)
    (h : sp.slot j i = sp.slot j' i') : j = j' ∧ i = i' := by
  have heq : j * sp.grains + i = j' * sp.grains + i' := by
    simp only [slot] at h
    omega
  have hpos : 0 < sp.grains := by omega
  have hj := congrArg (· / sp.grains) heq
  have hmod := congrArg (· % sp.grains) heq
  simp only [Nat.mul_comm _ sp.grains, Nat.mul_add_div hpos, Nat.div_eq_of_lt hi,
    Nat.div_eq_of_lt hi', Nat.mul_add_mod, Nat.mod_eq_of_lt hi, Nat.mod_eq_of_lt hi'] at hj hmod
  omega

theorem slot_ne_add {j j' i i' : Nat} : sp.slot j i ≠ sp.slot j' i' + 8 := by
  simp only [slot]
  omega

/-- A span for one object has no other. -/
theorem object_zero {j : Nat} (hlength : 0 < sp.length)
    (hsize : sp.objectSize = sp.length * kPageSize) (hj : sp.HasObject j) : j = 0 := by
  have hpos : 0 < sp.length * kPageSize := Nat.mul_pos hlength (by decide)
  have hle : (j + 1) * (sp.length * kPageSize) ≤ 1 * (sp.length * kPageSize) := by
    rw [HasObject, hsize] at hj
    omega
  have := Nat.le_of_mul_le_mul_right hle hpos
  omega

section Room

variable (sp) {j i : Nat} (hsize : sp.objectSize = sp.grains * 2 ^ sp.alignment)
  (hroom : granules (sp.length * kPageSize) sp.alignment * 16 ≤ sp.metaLength * kPageSize)
  (hj : sp.HasObject j) (hi : i < sp.grains)
include hsize hroom hj hi

omit hroom in
/-- The granules of an object are granules of its span. -/
theorem granule_lt : j * sp.grains + i < granules (sp.length * kPageSize) sp.alignment := by
  have hpow := Nat.two_pow_pos sp.alignment
  have hbyte : (j * sp.grains + i) * 2 ^ sp.alignment < sp.length * kPageSize := by
    refine Nat.lt_of_lt_of_le ?_ hj
    rw [hsize, ← Nat.mul_assoc, Nat.mul_lt_mul_right hpow, Nat.add_mul]
    omega
  have := div_lt_granules (a := sp.alignment) hbyte
  rwa [Nat.mul_div_cancel _ hpow] at this

/-- Its metadata lies in the metadata pages. -/
theorem slot_page : InRange sp.metaStart sp.metaLength (sp.slot j i / kPageSize) := by
  have hlt := granule_lt sp hsize hj hi
  simp only [InRange, Span.slot, kPageSize, kPageShift] at *
  omega

theorem slot_word_page : InRange sp.metaStart sp.metaLength ((sp.slot j i + 8) / kPageSize) := by
  have hlt := granule_lt sp hsize hj hi
  simp only [InRange, Span.slot, kPageSize, kPageShift] at *
  omega

end Room

section Registered

variable {pageTable : PageTable} {start j y : Nat}
  (hsize : sp.objectSize = sp.grains * 2 ^ sp.alignment)
include hsize

/-- The metadata that readers find for a byte of an object. -/
theorem metadataPtr_eq (hreg : Registered pageTable (start * kPageSize) (sp.length * kPageSize)
      (sp.metaStart * kPageSize) sp.alignment) (hj : sp.HasObject j) (hy : y < sp.objectSize) :
    metadataPtr pageTable (start * kPageSize + j * sp.objectSize + y) =
      sp.slot j (y / 2 ^ sp.alignment) := by
  have hend : j * sp.objectSize + y < sp.length * kPageSize := by
    refine Nat.lt_of_lt_of_le ?_ hj
    rw [Nat.add_mul]
    omega
  rw [hreg.metadataPtr_eq (by omega) (by omega), Nat.add_assoc, Nat.add_sub_cancel_left,
    hsize, ← Nat.mul_assoc, Nat.mul_comm (j * sp.grains),
    Nat.mul_add_div (Nat.two_pow_pos sp.alignment)]
  rfl

theorem grain_lt (hy : y < sp.objectSize) : y / 2 ^ sp.alignment < sp.grains := by
  rwa [Nat.div_lt_iff_lt_mul (Nat.two_pow_pos _), ← hsize]

/-- The size of the array that `clear_metadata_ptr` walks. -/
theorem metasize_eq : FLAGS_METALLOC_METADATABYTES / 8 *
    ((sp.objectSize + (1 <<< sp.alignment) - 1) >>> sp.alignment) = 2 * sp.grains := by
  have hpow := Nat.two_pow_pos sp.alignment
  rw [Nat.one_shiftLeft, Nat.shiftRight_eq_div_pow, Nat.add_sub_assoc hpow, hsize,
    Nat.mul_comm sp.grains, Nat.mul_add_div hpow,
    Nat.div_eq_of_lt (Nat.sub_lt hpow Nat.one_pos), Nat.add_zero]
  rfl

end Registered

end Span

/-- A live span of the heap: its pages, its metadata, and the state of its objects. -/
structure HeapState.SpanOk (s : HeapState) (start : Nat) (sp : Span) : Prop where
  object_pages : Owns s.pages start sp.length (.object start)
  meta_pages : Owns s.pages sp.metaStart sp.metaLength (.metadata start)
  registered : Registered s.pageTable (start * kPageSize) (sp.length * kPageSize)
    (sp.metaStart * kPageSize) sp.alignment
  room : granules (sp.length * kPageSize) sp.alignment * 16 ≤ sp.metaLength * kPageSize
  start_pos : 0 < start
  length_pos : 0 < sp.length
  length_le : sp.length * kPageSize ≤ 2 ^ 47
  size_eq : sp.objectSize = sp.grains * 2 ^ sp.alignment
  grains_pos : 0 < sp.grains
  large_one : sp.large = true → sp.objectSize = sp.length * kPageSize
  mapped : ∀ address, InRange sp.metaStart sp.metaLength (address / kPageSize) →
    (s.mem address).isSome
  clearable : ∀ j, sp.HasObject j → sp.Clearable s.mem j

theorem kPageSize_eq : kPageSize = 2 * METALLOC_PAGESIZE := rfl

/-- The pages of a span stay registered as long as their entries stay. -/
theorem Registered.frame {pageTable pageTable' : PageTable} {start length metaptr alignment : Nat}
    (h : Registered pageTable (start * kPageSize) (length * kPageSize) metaptr alignment)
    (htable : ∀ page, InRange start length (page / 2) → pageTable' page = pageTable page) :
    Registered pageTable' (start * kPageSize) (length * kPageSize) metaptr alignment := by
  obtain ⟨h₁, h₂, h₃, h₄, h₅, h₆⟩ := h
  refine ⟨h₁, h₂, h₃, h₄, h₅, ?_⟩
  intro i hi
  rw [htable _ ?_]
  · exact h₆ i hi
  · simp only [InRange, kPageSize, kPageShift, METALLOC_PAGESIZE, METALLOC_PAGESHIFT] at *
    omega

namespace HeapState

variable {s s' : HeapState} {start start' : Nat} {sp sp' : Span} {j i : Nat}

theorem SpanOk.objectSize_pos (h : s.SpanOk start sp) : 0 < sp.objectSize := by
  rw [h.size_eq]
  exact Nat.mul_pos h.grains_pos (Nat.two_pow_pos _)

section Slots

variable (h : s.SpanOk start sp) (hj : sp.HasObject j)
include h hj

theorem SpanOk.objectSize_le : sp.objectSize ≤ 2 ^ 47 := by
  have := h.length_le
  have hj' : sp.objectSize ≤ (j + 1) * sp.objectSize := Nat.le_mul_of_pos_left _ (by omega)
  exact Nat.le_trans hj' (Nat.le_trans hj this)

theorem SpanOk.alignment_le : sp.alignment ≤ 47 := by
  have hsize := h.objectSize_le hj
  rw [h.size_eq] at hsize
  have hpow : 2 ^ sp.alignment ≤ 2 ^ 47 :=
    Nat.le_trans (Nat.le_mul_of_pos_left _ h.grains_pos) hsize
  exact (Nat.pow_le_pow_iff_right (by omega)).mp hpow

theorem SpanOk.slot_page (hi : i < sp.grains) :
    InRange sp.metaStart sp.metaLength (sp.slot j i / kPageSize) :=
  Span.slot_page sp h.size_eq h.room hj hi

theorem SpanOk.slot_word_page (hi : i < sp.grains) :
    InRange sp.metaStart sp.metaLength ((sp.slot j i + 8) / kPageSize) :=
  Span.slot_word_page sp h.size_eq h.room hj hi

/-- The metadata that readers find for a byte of an object. -/
theorem SpanOk.metadataPtr_eq {y : Nat} (hy : y < sp.objectSize) :
    metadataPtr s.pageTable (start * kPageSize + j * sp.objectSize + y) =
      sp.slot j (y / 2 ^ sp.alignment) :=
  Span.metadataPtr_eq h.size_eq h.registered hj hy

omit hj in
theorem SpanOk.grain_lt {y : Nat} (hy : y < sp.objectSize) : y / 2 ^ sp.alignment < sp.grains :=
  Span.grain_lt h.size_eq hy

/-- An untyped object has a null allocation base for each of its bytes. -/
theorem SpanOk.lookup_of_untyped (hu : sp.Untyped s.mem j) {x : Nat}
    (hlo : start * kPageSize + j * sp.objectSize ≤ x)
    (hhi : x < start * kPageSize + j * sp.objectSize + sp.objectSize) :
    s.mem (metadataPtr s.pageTable x) = some 0 := by
  obtain ⟨y, rfl⟩ := Nat.exists_eq_add_of_le hlo
  have hy : y < sp.objectSize := by omega
  rw [h.metadataPtr_eq hj hy]
  exact hu _ (h.grain_lt hy)

/-- And only an untyped object has. -/
theorem SpanOk.untyped_of_lookup
    (hu : ∀ x, start * kPageSize + j * sp.objectSize ≤ x →
      x < start * kPageSize + j * sp.objectSize + sp.objectSize →
      s.mem (metadataPtr s.pageTable x) = some 0) : sp.Untyped s.mem j := by
  intro i hi
  have hpow := Nat.two_pow_pos sp.alignment
  have hy : i * 2 ^ sp.alignment < sp.objectSize := by
    rw [h.size_eq]
    exact Nat.mul_lt_mul_of_pos_right hi hpow
  have := hu _ (Nat.le_add_right _ (i * 2 ^ sp.alignment)) (by omega)
  rwa [h.metadataPtr_eq hj hy, Nat.mul_div_cancel _ hpow] at this

end Slots

/-- The metadata pages of a span, and the entries of its object pages, are all that it depends on. -/
theorem SpanOk.frame (h : s.SpanOk start sp)
    (hobject : Owns s'.pages start sp.length (.object start))
    (hmeta : Owns s'.pages sp.metaStart sp.metaLength (.metadata start))
    (htable : ∀ page, InRange start sp.length (page / 2) → s'.pageTable page = s.pageTable page)
    (hmem : ∀ address, InRange sp.metaStart sp.metaLength (address / kPageSize) →
      s'.mem address = s.mem address) : s'.SpanOk start sp where
  object_pages := hobject
  meta_pages := hmeta
  registered := h.registered.frame htable
  room := h.room
  start_pos := h.start_pos
  length_pos := h.length_pos
  length_le := h.length_le
  size_eq := h.size_eq
  grains_pos := h.grains_pos
  large_one := h.large_one
  mapped address haddress := by
    rw [hmem address haddress]
    exact h.mapped address haddress
  clearable j hj := by
    have huntyped : sp.Untyped s'.mem j ↔ sp.Untyped s.mem j := by
      apply forall₂_congr
      intro i hi
      rw [hmem _ (h.slot_page hj hi)]
    rw [Span.Clearable, huntyped, hmem _ (h.slot_page hj h.grains_pos)]
    exact h.clearable j hj

/-! Writing to the slots of one object. -/

section Writes

variable {stores : List Store} (h : s.SpanOk start sp) (hj : sp.HasObject j)
  (hwithin : sp.Within j stores)
include h hj hwithin

theorem SpanOk.store_page {st : Store} (hst : st ∈ stores) :
    InRange sp.metaStart sp.metaLength (st.1 / kPageSize) := by
  obtain ⟨i, hi, heq | heq⟩ := hwithin st hst
  · rw [heq]
    exact h.slot_page hj hi
  · rw [heq]
    exact h.slot_word_page hj hi

omit hj in
/-- The span keeps its objects in order if that one is. -/
theorem SpanOk.writes (hclear : sp.Clearable (writes s.mem stores) j) :
    SpanOk { s with mem := WordMemory.writes s.mem stores } start sp where
  object_pages := h.object_pages
  meta_pages := h.meta_pages
  registered := h.registered
  room := h.room
  start_pos := h.start_pos
  length_pos := h.length_pos
  length_le := h.length_le
  size_eq := h.size_eq
  grains_pos := h.grains_pos
  large_one := h.large_one
  mapped address haddress := isSome_writes (h.mapped address haddress)
  clearable j' hj' := by
    by_cases hne : j' = j
    · rwa [hne]
    have hslot (i : Nat) (hi : i < sp.grains) :
        WordMemory.writes s.mem stores (sp.slot j' i) = s.mem (sp.slot j' i) := by
      apply writes_of_forall_ne
      intro st hst heq
      obtain ⟨i', hi', hst | hst⟩ := hwithin st hst
      · exact hne (Span.slot_inj hi hi' (heq.trans hst)).1
      · exact Span.slot_ne_add (heq.trans hst)
    have huntyped : sp.Untyped (WordMemory.writes s.mem stores) j' ↔ sp.Untyped s.mem j' :=
      forall₂_congr fun i hi => by rw [hslot i hi]
    refine (h.clearable j' hj').imp (fun hfirst => ?_) huntyped.mpr
    rwa [← hslot 0 h.grains_pos] at hfirst

/-- Every other span keeps its metadata. -/
theorem SpanOk.writes_other (h' : s.SpanOk start' sp') (hne : start' ≠ start) :
    SpanOk { s with mem := WordMemory.writes s.mem stores } start' sp' := by
  refine h'.frame h'.object_pages h'.meta_pages (fun _ _ => rfl) fun address haddress => ?_
  apply writes_of_forall_ne
  intro st hst heq
  have hpage := h.store_page hj hwithin hst
  rw [← heq] at hpage
  exact h'.meta_pages.disjoint h.meta_pages (by simpa using hne) haddress hpage

end Writes

end HeapState

end TypeSan
