import TypeSan.Library.Runs
import TypeSan.MetaPageTable

/-! The entries of a range of pages, as one map from the offsets in it to metadata. -/
namespace TypeSan

open Rounding Runs

/-- The metadata of an offset into a range, with no pages between: the slots of the granules, one
after the other from the start of the block. -/
def flatSlot (metaptr alignment offset : Nat) : Nat :=
  metaptr + FLAGS_METALLOC_METADATABYTES * (offset / 2 ^ alignment)

/-- A range of whole pages with entries in the page table, and a block for it that an entry can
refer to. -/
structure FlatRange (ptr size metaptr alignment : Nat) : Prop where
  ptr_page : METALLOC_PAGESIZE ∣ ptr
  size_page : METALLOC_PAGESIZE ∣ size
  range_end : ptr + size ≤ 2 ^ 48
  meta_pos : 0 < metaptr
  meta_end : metaptr < 2 ^ 56 - 16 * size
  align_le : alignment ≤ 63

variable {pageTable pageTable' : PageTable} {ptr size metaptr alignment page x : Nat}

/-! One call of `set_metapagetable_entries`. -/

/-- The call stores no entry of a page that the range does not touch. -/
theorem setMetapagetableEntries_frame
    (h : setMetapagetableEntries pageTable ptr size metaptr alignment = some pageTable')
    (hpage : ¬ Touches ptr (ptr + size) page) : pageTable' page = pageTable page := by
  obtain ⟨⟨d, rfl⟩, rfl⟩ := setMetapagetableEntries_eq h
  rw [setEntries_apply, if_neg]
  rw [touches_iff] at hpage
  simp only [METALLOC_PAGESIZE, METALLOC_PAGESHIFT] at hpage ⊢
  omega

namespace FlatRange

variable (h : FlatRange ptr size metaptr alignment)
include h

theorem touches_lt (hpage : Touches ptr (ptr + size) page) : page < PAGETABLESIZE := by
  have hend := h.range_end
  rw [touches_iff] at hpage
  simp only [PAGETABLESIZE, METALLOC_PAGESIZE, METALLOC_PAGESHIFT] at hpage ⊢
  omega

theorem mapped
    (hset : setMetapagetableEntries pageTable ptr size metaptr alignment = some pageTable') :
    Mapped pageTable' ptr size metaptr alignment := by
  have hgranules := granules_le size alignment
  have hend := h.meta_end
  have hpos := h.meta_pos
  have halign := h.align_le
  exact mappedBelow_of_set h.ptr_page (by omega) (by omega) (by omega) hset

/-- What the check makes of an address of the range. -/
theorem lookup
    (hset : setMetapagetableEntries pageTable ptr size metaptr alignment = some pageTable')
    (hlo : ptr ≤ x) (hhi : x < ptr + size) :
    metadataPtr pageTable' x = flatSlot metaptr alignment (x - ptr) ∧
      getMetapagetableEntry pageTable' x &&& 0xFF = alignment :=
  ⟨(h.mapped hset).metadataPtr_eq hlo hhi, ((h.mapped hset).fields hlo hhi).2⟩

end FlatRange

/-- A call resolves every offset into its range to the slot of the flat map, and leaves every other
entry as it is. -/
theorem setMetapagetableEntries_flat (h : FlatRange ptr size metaptr alignment)
    (pageTable : PageTable) :
    ∃ pageTable',
      setMetapagetableEntries pageTable ptr size metaptr alignment = some pageTable' ∧
      (∀ offset < size,
        metadataPtr pageTable' (ptr + offset) = flatSlot metaptr alignment offset ∧
        getMetapagetableEntry pageTable' (ptr + offset) &&& 0xFF = alignment) ∧
      (∀ page, Touches ptr (ptr + size) page → page < PAGETABLESIZE) ∧
      ∀ page, ¬ Touches ptr (ptr + size) page → pageTable' page = pageTable page := by
  have hset := setMetapagetableEntries_of_dvd pageTable ptr metaptr alignment h.size_page
  refine ⟨_, hset, ?_, fun page => h.touches_lt, fun page => setMetapagetableEntries_frame hset⟩
  intro offset hoffset
  have hlookup := h.lookup hset (Nat.le_add_right ptr offset) (Nat.add_lt_add_left hoffset ptr)
  rwa [Nat.add_sub_cancel_left] at hlookup

/-- Two pages with granules of eight pages, above others. -/
theorem setMetapagetableEntries_flat_two :
    ∃ pageTable', setMetapagetableEntries (fun _ => 7) 0x10000 0x2000 0x500 15 = some pageTable' ∧
      (∀ offset < 0x2000, metadataPtr pageTable' (0x10000 + offset) = flatSlot 0x500 15 offset ∧
        getMetapagetableEntry pageTable' (0x10000 + offset) &&& 0xFF = 15) ∧
      (∀ page, Touches 0x10000 (0x10000 + 0x2000) page → page < PAGETABLESIZE) ∧
      ∀ page, ¬ Touches 0x10000 (0x10000 + 0x2000) page → pageTable' page = 7 :=
  setMetapagetableEntries_flat ⟨by decide, by decide, by decide, by decide, by decide, by decide⟩ _

/-! Calls, one after the other. -/

/-- The arguments of a call. -/
structure SetCall where
  ptr : Nat
  size : Nat
  metaptr : Nat
  alignment : Nat

namespace SetCall

def step (pageTable : PageTable) (call : SetCall) : Option PageTable :=
  setMetapagetableEntries pageTable call.ptr call.size call.metaptr call.alignment

/-- The page of the address is none of the call's. -/
def Misses (x : Nat) (call : SetCall) : Prop :=
  ¬ Touches call.ptr (call.ptr + call.size) (x / METALLOC_PAGESIZE)

/-- Calls for other pages keep an entry, whatever they set there. -/
theorem exec_frame {calls : List SetCall} (hcalls : ∀ call ∈ calls, call.Misses x)
    (h : exec step pageTable calls = some pageTable') :
    getMetapagetableEntry pageTable' x = getMetapagetableEntry pageTable x := by
  have hguard : Guarded step (fun _ call => call.Misses x) pageTable calls := by
    rintro front call table hfront -
    exact hcalls call (hfront.mem (List.mem_append_right front (List.mem_singleton_self call)))
  refine exec_invariant (I := fun table => getMetapagetableEntry table x =
    getMetapagetableEntry pageTable x) rfl ?_ hguard h
  intro table call table' hentry hmiss hset
  have hframe : table' (x / METALLOC_PAGESIZE) = table (x / METALLOC_PAGESIZE) :=
    setMetapagetableEntries_frame hset hmiss
  exact hframe.trans hentry

/-- The last call for the page of an address says where its metadata is, whatever the calls before
it were for. -/
theorem exec_lookup {earlier later : List SetCall} {call : SetCall}
    (hcall : FlatRange call.ptr call.size call.metaptr call.alignment)
    (hlo : call.ptr ≤ x) (hhi : x < call.ptr + call.size)
    (hlater : ∀ call ∈ later, call.Misses x)
    (h : exec step pageTable (earlier ++ call :: later) = some pageTable') :
    metadataPtr pageTable' x = flatSlot call.metaptr call.alignment (x - call.ptr) ∧
      getMetapagetableEntry pageTable' x &&& 0xFF = call.alignment := by
  rw [exec_append] at h
  obtain ⟨before, -, h⟩ := Option.bind_eq_some_iff.mp h
  obtain ⟨after, hset, h⟩ := Option.bind_eq_some_iff.mp h
  have hentry : getMetapagetableEntry pageTable' x = getMetapagetableEntry after x :=
    exec_frame hlater h
  have hslot : metadataPtr pageTable' x = metadataPtr after x := by
    unfold getMetapagetableEntry at hentry
    simp only [metadataPtr, hentry]
  rw [hslot, hentry]
  exact hcall.lookup hset hlo hhi

end SetCall

end TypeSan
