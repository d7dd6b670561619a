import Mathlib.Logic.Function.Basic
import TypeSan.Library.Rounding

/-! The global page table: for each page, where its metadata starts and at which granularity. -/
namespace TypeSan

open Rounding

def METALLOC_PAGESHIFT : Nat := 12

def METALLOC_PAGESIZE : Nat := 2 ^ METALLOC_PAGESHIFT

def SYSTEM_PAGESIZE : Nat := 4096

def FLAGS_METALLOC_METADATABYTES : Nat := 16

/-- The size of the page table, which has an entry for each page below `2 ^ 48`. -/
def PAGETABLESIZE : Nat := 2 ^ 48 / METALLOC_PAGESIZE

/-- `pageTable`, by page number. -/
abbrev PageTable := Nat → Nat

/-- `(char)alignment`, extended to 64 bits. -/
def charBits (alignment : Nat) : Nat :=
  let byte := alignment % 2 ^ 8
  if byte < 2 ^ 7 then byte else byte + (2 ^ 64 - 2 ^ 8)

/-- The entry that `set_metapagetable_entries` gives the page `i` of a range. -/
def pageEntry (metaptr alignment i : Nat) : Nat :=
  let metaOffset := ((i * METALLOC_PAGESIZE) >>> alignment) * FLAGS_METALLOC_METADATABYTES
  let pageMetaptr := if metaptr = 0 then 0 else (metaptr + metaOffset) % 2 ^ 64
  (pageMetaptr <<< 8) % 2 ^ 64 ||| charBits alignment

/-- The loop of `set_metapagetable_entries`, after `count` pages. -/
def setEntries (pageTable : PageTable) (page metaptr alignment : Nat) : Nat → PageTable
  | 0 => pageTable
  | i + 1 =>
    Function.update (setEntries pageTable page metaptr alignment i) (page + i)
      (pageEntry metaptr alignment i)

/-- `set_metapagetable_entries`. A range that is not made of whole pages ends the process. -/
def setMetapagetableEntries (pageTable : PageTable) (ptr size metaptr alignment : Nat) :
    Option PageTable :=
  if size % METALLOC_PAGESIZE ≠ 0 then none
  else
    some (setEntries pageTable (ptr / METALLOC_PAGESIZE) metaptr alignment
      (size / METALLOC_PAGESIZE))

def getMetapagetableEntry (pageTable : PageTable) (ptr : Nat) : Nat :=
  pageTable (ptr / METALLOC_PAGESIZE)

/-- The size of the mapping that `allocate_metadata` makes and `deallocate_metadata` releases. -/
def metadataSize (size alignment : Nat) : Nat :=
  let pageAlignOffset := SYSTEM_PAGESIZE - 1
  ((((size * FLAGS_METALLOC_METADATABYTES % 2 ^ 64) >>> alignment) + pageAlignOffset) % 2 ^ 64)
    / SYSTEM_PAGESIZE * SYSTEM_PAGESIZE

/-- The address at which `check_cast` and the instrumented code find the metadata of a pointer. -/
def metadataPtr (pageTable : PageTable) (ptr : Nat) : Nat :=
  let entry := pageTable (ptr / METALLOC_PAGESIZE)
  let metaBase := entry >>> 8
  let alignment := entry &&& 0xFF
  metaBase + 8 * (2 * ((ptr &&& (METALLOC_PAGESIZE - 1)) >>> alignment))

/-- The page holds an address of the range. -/
def Touches (lo hi page : Nat) : Prop := ∃ address, lo ≤ address ∧ address < hi ∧
  address / METALLOC_PAGESIZE = page

/-! Reading entries back. -/

theorem touches_iff {lo hi page : Nat} : Touches lo hi page ↔
    lo < hi ∧ lo / METALLOC_PAGESIZE ≤ page ∧ page * METALLOC_PAGESIZE < hi := by
  simp only [Touches, METALLOC_PAGESIZE, METALLOC_PAGESHIFT]
  constructor
  · rintro ⟨address, hlo, hhi, rfl⟩
    omega
  · rintro ⟨hlt, hlo, hhi⟩
    exact ⟨max lo (page * 4096), by omega, by omega, by omega⟩

instance (lo hi page : Nat) : Decidable (Touches lo hi page) := decidable_of_iff _ touches_iff.symm

theorem setEntries_apply {pageTable : PageTable} {page metaptr alignment count p : Nat} :
    setEntries pageTable page metaptr alignment count p =
      if page ≤ p ∧ p < page + count then pageEntry metaptr alignment (p - page)
      else pageTable p := by
  induction count with
  | zero => simp [setEntries, show ¬ (page ≤ p ∧ p < page) by omega]
  | succ count ih =>
    simp only [setEntries]
    by_cases hp : p = page + count
    · subst hp
      simp
    · rw [Function.update_of_ne hp, ih]
      have : (page ≤ p ∧ p < page + count) ↔ (page ≤ p ∧ p < page + (count + 1)) := by omega
      simp only [this]

theorem setMetapagetableEntries_of_dvd (pageTable : PageTable) (ptr metaptr alignment : Nat)
    {size : Nat} (h : METALLOC_PAGESIZE ∣ size) :
    setMetapagetableEntries pageTable ptr size metaptr alignment =
      some (setEntries pageTable (ptr / METALLOC_PAGESIZE) metaptr alignment
        (size / METALLOC_PAGESIZE)) :=
  if_neg (not_not.mpr (Nat.mod_eq_zero_of_dvd h))

theorem setMetapagetableEntries_eq {pageTable : PageTable} {ptr size metaptr alignment : Nat}
    {pageTable' : PageTable}
    (h : setMetapagetableEntries pageTable ptr size metaptr alignment = some pageTable') :
    METALLOC_PAGESIZE ∣ size ∧
      pageTable' = setEntries pageTable (ptr / METALLOC_PAGESIZE) metaptr alignment
        (size / METALLOC_PAGESIZE) := by
  unfold setMetapagetableEntries at h
  split at h
  · cases h
  · rename_i hsize
    cases h
    exact ⟨Nat.dvd_of_mod_eq_zero (by omega), rfl⟩

section Entry

variable {metaptr alignment i : Nat}
  (halign : alignment < 128)
  (hmeta : metaptr ≠ 0)
  (hfit : metaptr + ((i * METALLOC_PAGESIZE) >>> alignment) * 16 < 2 ^ 56)
include halign hmeta hfit

theorem pageEntry_eq :
    pageEntry metaptr alignment i =
      2 ^ 8 * (metaptr + ((i * METALLOC_PAGESIZE) >>> alignment) * 16) + alignment := by
  simp only [pageEntry, FLAGS_METALLOC_METADATABYTES, if_neg hmeta, charBits]
  rw [Nat.mod_eq_of_lt (a := alignment) (by omega), if_pos (by omega),
    Nat.mod_eq_of_lt (b := 2 ^ 64) (by omega), Nat.shiftLeft_eq, Nat.mod_eq_of_lt (by omega),
    Nat.mul_comm, ← Nat.two_pow_add_eq_or_of_lt (by omega)]

theorem pageEntry_shiftRight :
    pageEntry metaptr alignment i >>> 8 =
      metaptr + ((i * METALLOC_PAGESIZE) >>> alignment) * 16 := by
  rw [pageEntry_eq halign hmeta hfit, Nat.shiftRight_eq_div_pow, Nat.mul_add_div (by omega),
    Nat.div_eq_of_lt (by omega), Nat.add_zero]

theorem pageEntry_and : pageEntry metaptr alignment i &&& 0xFF = alignment := by
  rw [pageEntry_eq halign hmeta hfit, show 0xFF = 2 ^ 8 - 1 by rfl, Nat.and_two_pow_sub_one_eq_mod,
    Nat.mul_add_mod, Nat.mod_eq_of_lt (by omega)]

end Entry

/-! A range of pages with its metadata. -/

/-- The pages of `[start, start + size)` refer to a metadata block that ends at `bound` or before, one
slot for each granule of `2 ^ alignment` bytes. -/
structure MappedBelow (bound : Nat) (pageTable : PageTable) (start size metaptr alignment : Nat) :
    Prop where
  start_page : METALLOC_PAGESIZE ∣ start
  size_page : METALLOC_PAGESIZE ∣ size
  align_lt : alignment < 128
  meta_ne : metaptr ≠ 0
  meta_end : metaptr + granules size alignment * 16 ≤ bound
  entry : ∀ i < size / METALLOC_PAGESIZE,
    pageTable (start / METALLOC_PAGESIZE + i) = pageEntry metaptr alignment i

/-- The block lies in the address space. -/
abbrev Registered := MappedBelow (2 ^ 48)

/-- No more is known about the block than that its addresses leave the lowest byte of an entry
free. -/
abbrev Mapped := MappedBelow (2 ^ 56)

theorem Registered.mapped {pageTable : PageTable} {start size metaptr alignment : Nat}
    (h : Registered pageTable start size metaptr alignment) :
    Mapped pageTable start size metaptr alignment where
  start_page := h.start_page
  size_page := h.size_page
  align_lt := h.align_lt
  meta_ne := h.meta_ne
  meta_end := Nat.le_trans h.meta_end (by decide)
  entry := h.entry

theorem setEntries_in {pageTable : PageTable} {page metaptr alignment count i : Nat}
    (hi : i < count) :
    setEntries pageTable page metaptr alignment count (page + i) =
      pageEntry metaptr alignment i := by
  rw [setEntries_apply, if_pos (by omega), Nat.add_sub_cancel_left]

theorem mappedBelow_of_set {pageTable pageTable' : PageTable}
    {bound start size metaptr alignment : Nat} (hstart : METALLOC_PAGESIZE ∣ start)
    (halign : alignment < 128) (hmeta : metaptr ≠ 0)
    (hend : metaptr + granules size alignment * 16 ≤ bound)
    (h : setMetapagetableEntries pageTable start size metaptr alignment = some pageTable') :
    MappedBelow bound pageTable' start size metaptr alignment := by
  obtain ⟨hsize, rfl⟩ := setMetapagetableEntries_eq h
  exact ⟨hstart, hsize, halign, hmeta, hend, fun i hi => setEntries_in hi⟩

section Mapped

variable {pageTable : PageTable} {start size metaptr alignment x : Nat}
  (h : Mapped pageTable start size metaptr alignment)
  (hlo : start ≤ x) (hhi : x < start + size)
include h hlo hhi

/-- The entry of a page of the range: the two fields that the readers take from it. -/
theorem Mapped.fields :
    pageTable (x / METALLOC_PAGESIZE) >>> 8 =
        metaptr + ((x - start) / METALLOC_PAGESIZE * METALLOC_PAGESIZE) / 2 ^ alignment * 16 ∧
      pageTable (x / METALLOC_PAGESIZE) &&& 0xFF = alignment := by
  obtain ⟨c, hc⟩ := h.start_page
  obtain ⟨d, hd⟩ := h.size_page
  have hpos : 0 < METALLOC_PAGESIZE := by decide
  have hpage : x / METALLOC_PAGESIZE =
      start / METALLOC_PAGESIZE + (x - start) / METALLOC_PAGESIZE := by
    rw [hc, Nat.mul_div_cancel_left _ hpos, ← Nat.mul_add_div hpos, ← hc]
    congr 1
    omega
  have hi : (x - start) / METALLOC_PAGESIZE < size / METALLOC_PAGESIZE := by
    rw [Nat.div_lt_iff_lt_mul hpos, hd, Nat.mul_div_cancel_left _ hpos, Nat.mul_comm, ← hd]
    omega
  have hle : (x - start) / METALLOC_PAGESIZE * METALLOC_PAGESIZE / 2 ^ alignment ≤
      (x - start) / 2 ^ alignment :=
    Nat.div_le_div_right (Nat.div_mul_le_self _ _)
  have hg : (x - start) / 2 ^ alignment < granules size alignment := div_lt_granules (by omega)
  have hend := h.meta_end
  have hfit : metaptr +
      (((x - start) / METALLOC_PAGESIZE * METALLOC_PAGESIZE) >>> alignment) * 16 < 2 ^ 56 := by
    rw [Nat.shiftRight_eq_div_pow]
    omega
  rw [hpage, h.entry _ hi, pageEntry_shiftRight h.align_lt h.meta_ne hfit,
    pageEntry_and h.align_lt h.meta_ne hfit, Nat.shiftRight_eq_div_pow]
  exact ⟨rfl, rfl⟩

/-- The metadata of an address is the slot of its granule, across pages and for granules larger
than a page. -/
theorem Mapped.metadataPtr_eq :
    metadataPtr pageTable x = metaptr + 16 * ((x - start) / 2 ^ alignment) := by
  obtain ⟨hbase, hal⟩ := h.fields hlo hhi
  obtain ⟨c, hc⟩ := h.start_page
  have hmod : x % 2 ^ METALLOC_PAGESHIFT = (x - start) % METALLOC_PAGESIZE := by
    conv_lhs => rw [show x = (x - start) + METALLOC_PAGESIZE * c by omega]
    exact Nat.add_mul_mod_self_left _ _ _
  have hsplit := granule_split_page (a := alignment) ((x - start) / METALLOC_PAGESIZE)
    ((x - start) % METALLOC_PAGESIZE) METALLOC_PAGESHIFT (Nat.mod_lt _ (by decide))
  rw [show 2 ^ METALLOC_PAGESHIFT = METALLOC_PAGESIZE from rfl, Nat.div_add_mod'] at hsplit
  simp only [metadataPtr, hbase, hal]
  rw [show METALLOC_PAGESIZE - 1 = 2 ^ METALLOC_PAGESHIFT - 1 from rfl,
    Nat.and_two_pow_sub_one_eq_mod, hmod, Nat.shiftRight_eq_div_pow]
  omega

end Mapped

section Registered

variable {pageTable : PageTable} {start size metaptr alignment x : Nat}
  (h : Registered pageTable start size metaptr alignment)
  (hlo : start ≤ x) (hhi : x < start + size)
include h hlo hhi

theorem Registered.fields :
    pageTable (x / METALLOC_PAGESIZE) >>> 8 =
        metaptr + ((x - start) / METALLOC_PAGESIZE * METALLOC_PAGESIZE) / 2 ^ alignment * 16 ∧
      pageTable (x / METALLOC_PAGESIZE) &&& 0xFF = alignment :=
  h.mapped.fields hlo hhi

theorem Registered.metadataPtr_eq :
    metadataPtr pageTable x = metaptr + 16 * ((x - start) / 2 ^ alignment) :=
  h.mapped.metadataPtr_eq hlo hhi

end Registered

end TypeSan
