import Mathlib.Data.List.Pairwise
import TypeSan.Library.Claiming
import TypeSan.Library.PageMap
import TypeSan.Library.Runs
import TypeSan.MetaPageTable

/-! The registration of the pages of loaded objects. -/
namespace TypeSan

open Claiming PageMap Rounding Runs

def kMetaPageSize : Nat := 4096

def kMetaGlobalAlignBits : Nat := 3

def PT_LOAD : Nat := 1

structure ProgramHeader where
  p_type : Nat
  p_vaddr : Nat
  p_memsz : Nat
  deriving DecidableEq

/-- `dl_phdr_info`, with the program headers that it points to. -/
structure DlPhdrInfo where
  dlpi_addr : Nat
  dlpi_phdr : List ProgramHeader
  deriving DecidableEq

namespace DlPhdrInfo

variable (info : DlPhdrInfo) (ph : ProgramHeader)

/-- `base_addr` of a segment. -/
def baseAddr : Nat := (info.dlpi_addr + ph.p_vaddr) % 2 ^ 64

/-- `aligned_start` -/
def alignedStart : Nat := info.baseAddr ph / kMetaPageSize * kMetaPageSize

/-- `aligned_size` -/
def alignedSize : Nat :=
  (ph.p_memsz + info.baseAddr ph - info.alignedStart ph + (kMetaPageSize - 1)) % 2 ^ 64 /
    kMetaPageSize * kMetaPageSize

end DlPhdrInfo

/-- A metadata block, and the pages that it was allocated for. -/
structure GlobalBlock where
  first : Nat
  count : Nat
  metadata : Nat
  deriving DecidableEq

/-- The page table, and the metadata blocks of globals. They are never released. -/
structure GlobalState where
  pageTable : PageTable
  blocks : List GlobalBlock

/-- What the kernel does with the n-th request for metadata, of so many bytes: it gives an address
in user space, or none. -/
structure Kernel where
  mmap : Nat → Nat → Option Nat
  user : ∀ n bytes address, mmap n bytes = some address → 0 < address ∧ address + bytes ≤ 2 ^ 47

namespace Kernel

variable (kernel : Kernel)

/-- The end of the loop body of `shared_object_callback`. Without metadata the process ends. -/
def register (s : GlobalState) (info : DlPhdrInfo) (ph : ProgramHeader) : Option GlobalState := do
  let exec_metadata ← kernel.mmap s.blocks.length
    (metadataSize (info.alignedSize ph) kMetaGlobalAlignBits)
  let pageTable ← setMetapagetableEntries s.pageTable (info.alignedStart ph) (info.alignedSize ph)
    exec_metadata kMetaGlobalAlignBits
  return ⟨pageTable, ⟨info.alignedStart ph / METALLOC_PAGESIZE,
    info.alignedSize ph / METALLOC_PAGESIZE, exec_metadata⟩ :: s.blocks⟩

/-- The loop of `shared_object_callback`. -/
def callbackLoop (info : DlPhdrInfo) (s : GlobalState) : List ProgramHeader → Option GlobalState
  | [] => some s
  | ph :: rest =>
    if ph.p_type ≠ PT_LOAD then callbackLoop info s rest
    else if ph.p_memsz = 0 then callbackLoop info s rest
    else if s.pageTable (info.baseAddr ph >>> METALLOC_PAGESHIFT) ≠ 0 then some s
    else (kernel.register s info ph).bind fun s => callbackLoop info s rest

/-- `shared_object_callback` -/
def sharedObjectCallback (s : GlobalState) (info : DlPhdrInfo) : Option GlobalState :=
  kernel.callbackLoop info s info.dlpi_phdr

/-- `dl_iterate_phdr`, over the loaded objects. -/
def dlIteratePhdr (s : GlobalState) (objects : List DlPhdrInfo) : Option GlobalState :=
  exec kernel.sharedObjectCallback s objects

/-- `metalloc_init_globals`. Its parameter is an `unsigned int`. -/
def metallocInitGlobals (s : GlobalState) (objects : List DlPhdrInfo) (object : Nat) :
    Option GlobalState :=
  if s.pageTable ((object % 2 ^ 32) >>> METALLOC_PAGESHIFT) ≠ 0 then some s
  else kernel.dlIteratePhdr s objects

end Kernel

namespace DlPhdrInfo

variable (info : DlPhdrInfo)

/-- The segments that are loaded. -/
def segments : List ProgramHeader :=
  info.dlpi_phdr.filter fun ph => ph.p_type = PT_LOAD ∧ ph.p_memsz ≠ 0

/-- The page that a segment starts on. -/
def firstPage (ph : ProgramHeader) : Nat := info.baseAddr ph / METALLOC_PAGESIZE

/-- The page intersects the segment. -/
def SegmentHas (ph : ProgramHeader) (page : Nat) : Prop :=
  Touches (info.baseAddr ph) (info.baseAddr ph + ph.p_memsz) page

instance (ph : ProgramHeader) (page : Nat) : Decidable (info.SegmentHas ph page) :=
  inferInstanceAs (Decidable (Touches _ _ _))

/-- The page intersects a segment of the object. -/
def HasPage (page : Nat) : Prop := ∃ ph ∈ info.segments, info.SegmentHas ph page

instance (page : Nat) : Decidable (info.HasPage page) :=
  inferInstanceAs (Decidable (∃ ph ∈ info.segments, _))

/-- The segments lie in user space. -/
def Fits : Prop := ∀ ph ∈ info.segments, info.baseAddr ph + ph.p_memsz ≤ 2 ^ 47

instance : Decidable info.Fits := inferInstanceAs (Decidable (∀ ph ∈ info.segments, _))

/-- A loaded segment in user space. -/
structure Loads (ph : ProgramHeader) : Prop where
  type : ph.p_type = PT_LOAD
  size : ph.p_memsz ≠ 0
  fits : info.baseAddr ph + ph.p_memsz ≤ 2 ^ 47

/-- Two objects have no page in common. -/
def Apart (a b : DlPhdrInfo) : Prop := ∀ page, a.HasPage page → ¬ b.HasPage page

instance : Std.Symm Apart := ⟨fun _ _ hab page hb ha => hab page ha hb⟩

/-- The pages that a callback for the object registers. -/
def Registers (s : GlobalState) (page : Nat) : Prop :=
  Claims info.firstPage info.SegmentHas (fun p => s.pageTable p ≠ 0) info.segments page

/-- The loop over an object without entries comes to a segment with the page before it comes to one
that starts on a page of an earlier segment. -/
def Reaches (page : Nat) : Prop :=
  ∃ front, front <+: info.segments ∧
    front.Pairwise (fun earlier later => ¬ info.SegmentHas earlier (info.firstPage later)) ∧
    ∃ ph ∈ front, info.SegmentHas ph page

end DlPhdrInfo

/-! What a callback registers. -/

theorem pageEntry_ne_zero (metaptr i : Nat) : pageEntry metaptr kMetaGlobalAlignBits i ≠ 0 := by
  intro h
  have hbit := congrArg (Nat.testBit · 0) h
  simp [pageEntry, charBits, kMetaGlobalAlignBits] at hbit

section Callback

variable {kernel : Kernel} {s s' : GlobalState} {info : DlPhdrInfo} {ph : ProgramHeader}
  {headers : List ProgramHeader} {page : Nat}

theorem baseAddr_shiftRight : info.baseAddr ph >>> METALLOC_PAGESHIFT = info.firstPage ph :=
  Nat.shiftRight_eq_div_pow _ _

theorem segmentHas_firstPage (hsize : ph.p_memsz ≠ 0) :
    info.SegmentHas ph (info.firstPage ph) :=
  ⟨info.baseAddr ph, Nat.le_refl _, Nat.lt_add_of_pos_right (Nat.pos_of_ne_zero hsize), rfl⟩

/-- The range that is registered is that of the pages that the segment intersects. -/
theorem inRange_segment_iff (hsize : ph.p_memsz ≠ 0)
    (hend : info.baseAddr ph + ph.p_memsz ≤ 2 ^ 47) :
    InRange (info.alignedStart ph / METALLOC_PAGESIZE) (info.alignedSize ph / METALLOC_PAGESIZE) page ↔
      info.SegmentHas ph page := by
  simp only [DlPhdrInfo.SegmentHas, touches_iff, InRange, DlPhdrInfo.alignedSize,
    DlPhdrInfo.alignedStart, kMetaPageSize, METALLOC_PAGESIZE, METALLOC_PAGESHIFT]
  omega

/-- The pages of a registered segment have entries for a new block. -/
theorem register_eq (h : kernel.register s info ph = some s') :
    ∃ metadata, kernel.mmap s.blocks.length
        (metadataSize (info.alignedSize ph) kMetaGlobalAlignBits) = some metadata ∧
      s'.blocks = ⟨info.alignedStart ph / METALLOC_PAGESIZE,
        info.alignedSize ph / METALLOC_PAGESIZE, metadata⟩ :: s.blocks ∧
      ∀ page, s'.pageTable page =
        if InRange (info.alignedStart ph / METALLOC_PAGESIZE)
            (info.alignedSize ph / METALLOC_PAGESIZE) page then
          pageEntry metadata kMetaGlobalAlignBits (page - info.alignedStart ph / METALLOC_PAGESIZE)
        else s.pageTable page := by
  obtain ⟨metadata, hmetadata, h⟩ := Option.bind_eq_some_iff.mp h
  obtain ⟨pageTable, hset, h⟩ := Option.bind_eq_some_iff.mp h
  cases h
  obtain ⟨-, rfl⟩ := setMetapagetableEntries_eq hset
  exact ⟨metadata, hmetadata, rfl, fun page => setEntries_apply⟩

theorem register_page (hsize : ph.p_memsz ≠ 0) (hend : info.baseAddr ph + ph.p_memsz ≤ 2 ^ 47)
    (h : kernel.register s info ph = some s') :
    s'.pageTable page ≠ 0 ↔ s.pageTable page ≠ 0 ∨ info.SegmentHas ph page := by
  obtain ⟨metadata, -, -, htable⟩ := register_eq h
  rw [htable, ← inRange_segment_iff hsize hend]
  split
  · rename_i hin
    exact iff_of_true (pageEntry_ne_zero _ _) (Or.inr hin)
  · rename_i hout
    exact (or_iff_left hout).symm

theorem DlPhdrInfo.Fits.loads (hfits : info.Fits) (h : ph ∈ info.segments) : info.Loads ph := by
  have hload := (List.mem_filter.mp h).2
  simp only [decide_eq_true_eq] at hload
  exact ⟨hload.1, hload.2, hfits ph h⟩

/-- The loop passes over what is not loaded. -/
theorem callbackLoop_filter :
    kernel.callbackLoop info s (headers.filter fun ph => ph.p_type = PT_LOAD ∧ ph.p_memsz ≠ 0) =
      kernel.callbackLoop info s headers := by
  induction headers generalizing s with
  | nil => rfl
  | cons ph rest ih =>
    by_cases hload : ph.p_type = PT_LOAD ∧ ph.p_memsz ≠ 0
    · rw [List.filter_cons_of_pos (by simpa using hload)]
      simp only [Kernel.callbackLoop, ih]
    · rw [List.filter_cons_of_neg (by simpa using hload), ih]
      by_cases htype : ph.p_type = PT_LOAD
      · have hsize : ph.p_memsz = 0 := by_contra fun hsize => hload ⟨htype, hsize⟩
        simp [Kernel.callbackLoop, htype, hsize]
      · simp [Kernel.callbackLoop, htype]

theorem callbackLoop_cons (hload : info.Loads ph) :
    kernel.callbackLoop info s (ph :: headers) =
      if s.pageTable (info.firstPage ph) ≠ 0 then some s
      else (kernel.register s info ph).bind fun s => kernel.callbackLoop info s headers := by
  rw [Kernel.callbackLoop, if_neg (not_not_intro hload.type), if_neg hload.size,
    baseAddr_shiftRight]

/-- The loop is a scan, in which segments claim pages. -/
theorem callbackLoop_page (hload : ∀ ph ∈ headers, info.Loads ph)
    (h : kernel.callbackLoop info s headers = some s') :
    s'.pageTable page ≠ 0 ↔ s.pageTable page ≠ 0 ∨
      Claims info.firstPage info.SegmentHas (fun p => s.pageTable p ≠ 0) headers page := by
  induction headers generalizing s with
  | nil =>
    cases h
    exact (or_iff_left id).symm
  | cons ph rest ih =>
    obtain ⟨hph, hrest⟩ := List.forall_mem_cons.mp hload
    rw [callbackLoop_cons hph] at h
    rw [Claims]
    split at h
    · rename_i htaken
      cases h
      exact (or_iff_left fun hclaims => hclaims.1 htaken).symm
    · rename_i hfree
      obtain ⟨t, ht, h⟩ := Option.bind_eq_some_iff.mp h
      have htable : (fun p => t.pageTable p ≠ 0) =
          fun p => s.pageTable p ≠ 0 ∨ info.SegmentHas ph p :=
        funext fun p => propext (register_page hph.size hph.fits ht)
      rw [ih hrest h, htable, register_page hph.size hph.fits ht, or_assoc, and_iff_right hfree]

end Callback

section Sweep

variable {kernel : Kernel} {s s' : GlobalState} {objects : List DlPhdrInfo} {info : DlPhdrInfo}
  {page : Nat}

theorem sharedObjectCallback_page (hfits : info.Fits)
    (h : kernel.sharedObjectCallback s info = some s') :
    s'.pageTable page ≠ 0 ↔ s.pageTable page ≠ 0 ∨ info.Registers s page := by
  rw [Kernel.sharedObjectCallback, ← callbackLoop_filter] at h
  exact callbackLoop_page (fun ph hph => hfits.loads hph) h

theorem DlPhdrInfo.Registers.hasPage (h : info.Registers s page) : info.HasPage page :=
  exists_of_claims h

theorem DlPhdrInfo.hasPage_firstPage {ph : ProgramHeader} (h : ph ∈ info.segments) :
    info.HasPage (info.firstPage ph) := by
  have hload := (List.mem_filter.mp h).2
  simp only [decide_eq_true_eq] at hload
  exact ⟨ph, h, segmentHas_firstPage hload.2⟩

/-- What an object registers depends on its own pages only. -/
theorem DlPhdrInfo.registers_congr
    (h : ∀ p, info.HasPage p → (s'.pageTable p ≠ 0 ↔ s.pageTable p ≠ 0)) :
    info.Registers s' page ↔ info.Registers s page := by
  apply claims_congr
  intro ph hph
  exact h _ (DlPhdrInfo.hasPage_firstPage hph)

/-- Objects without common pages are registered as if each was the only one. -/
theorem dlIteratePhdr_page (hfits : ∀ info ∈ objects, info.Fits)
    (hapart : objects.Pairwise DlPhdrInfo.Apart) (h : kernel.dlIteratePhdr s objects = some s') :
    s'.pageTable page ≠ 0 ↔
      s.pageTable page ≠ 0 ∨ ∃ info ∈ objects, info.Registers s page := by
  induction objects generalizing s with
  | nil =>
    cases h
    simp
  | cons info objects ih =>
    obtain ⟨hinfo, hrest⟩ := List.forall_mem_cons.mp hfits
    obtain ⟨hfirst, hapart⟩ := List.pairwise_cons.mp hapart
    obtain ⟨t, ht, h⟩ := Option.bind_eq_some_iff.mp h
    have hothers : ∀ other ∈ objects, (other.Registers t page ↔ other.Registers s page) := by
      intro other hother
      apply DlPhdrInfo.registers_congr
      intro p hp
      rw [sharedObjectCallback_page hinfo ht]
      exact or_iff_left fun hregisters => hfirst other hother p hregisters.hasPage hp
    rw [ih hrest hapart h, sharedObjectCallback_page hinfo ht, or_assoc]
    simp only [List.mem_cons, exists_eq_or_imp]
    rw [exists_congr fun other => and_congr_right (hothers other)]

/-- The entry of a page of one object says whether it is registered by a callback for that object.
-/
theorem dlIteratePhdr_object (hfits : ∀ info ∈ objects, info.Fits)
    (hapart : objects.Pairwise DlPhdrInfo.Apart) (h : kernel.dlIteratePhdr s objects = some s')
    (hinfo : info ∈ objects) (hpage : info.HasPage page) :
    s'.pageTable page ≠ 0 ↔ s.pageTable page ≠ 0 ∨ info.Registers s page := by
  rw [dlIteratePhdr_page hfits hapart h]
  constructor
  · rintro (hold | ⟨other, hother, hregisters⟩)
    · exact Or.inl hold
    · obtain rfl : info = other := by
        by_contra hne
        exact hapart.forall hinfo hother hne page hpage hregisters.hasPage
      exact Or.inr hregisters
  · rintro (hold | hregisters)
    · exact Or.inl hold
    · exact Or.inr ⟨info, hinfo, hregisters⟩

/-- Where no page of the object has an entry, it registers the pages that its loop reaches. -/
theorem DlPhdrInfo.registers_iff_reaches (hnew : ∀ p, info.HasPage p → s.pageTable p = 0) :
    info.Registers s page ↔ info.Reaches page := by
  rw [Registers, claims_iff, Reaches]
  apply exists_congr
  intro front
  apply and_congr_right
  intro hfront
  apply and_iff_right
  intro ph hph
  exact not_not_intro (hnew _ (hasPage_firstPage (hfront.subset hph)))

/-- The address lies in a segment of the object. -/
def DlPhdrInfo.Holds (info : DlPhdrInfo) (g : Nat) : Prop :=
  ∃ ph ∈ info.segments, info.baseAddr ph ≤ g ∧ g < info.baseAddr ph + ph.p_memsz

/-- After `metalloc_init_globals`, the page of a global of an object without entries has one exactly
if the lower half of its address names a page that had none, and the loop reaches the page. -/
theorem metallocInitGlobals_covers_iff {g : Nat} (hfits : ∀ info ∈ objects, info.Fits)
    (hapart : objects.Pairwise DlPhdrInfo.Apart) (hinfo : info ∈ objects) (hg : info.Holds g)
    (hnew : ∀ p, info.HasPage p → s.pageTable p = 0)
    (h : kernel.metallocInitGlobals s objects g = some s') :
    s'.pageTable (g / METALLOC_PAGESIZE) ≠ 0 ↔
      s.pageTable (g % 2 ^ 32 / METALLOC_PAGESIZE) = 0 ∧
        info.Reaches (g / METALLOC_PAGESIZE) := by
  have hpage : info.HasPage (g / METALLOC_PAGESIZE) := by
    obtain ⟨ph, hph, hlo, hhi⟩ := hg
    exact ⟨ph, hph, g, hlo, hhi, rfl⟩
  have hzero := hnew _ hpage
  rw [Kernel.metallocInitGlobals, Nat.shiftRight_eq_div_pow] at h
  split at h
  · rename_i hearly
    cases h
    exact iff_of_false (not_not_intro hzero) fun hboth => hearly hboth.1
  · rename_i hlate
    rw [dlIteratePhdr_object hfits hapart h hinfo hpage, or_iff_right (not_not_intro hzero),
      DlPhdrInfo.registers_iff_reaches hnew]
    exact (and_iff_right (not_not.mp hlate)).symm

end Sweep

/-- A kernel that gives every block its own 4 GiB. -/
def roomyKernel : Kernel where
  mmap n bytes :=
    if (n + 1) * 2 ^ 32 + bytes ≤ 2 ^ 47 then some ((n + 1) * 2 ^ 32) else none
  user n bytes address h := by
    split at h
    · cases h
      exact ⟨by omega, ‹_›⟩
    · cases h

/-- An executable that is not relocated, and a library. -/
def smallExecutable : DlPhdrInfo := ⟨0, [⟨1, 0x400000, 0x700⟩, ⟨6, 0x400040, 0x38⟩, ⟨1, 0x601000, 0x240⟩]⟩

def farLibrary : DlPhdrInfo := ⟨0x7f0000000000, [⟨1, 0x601000, 0x240⟩]⟩

theorem metallocInitGlobals_covers_executable :
    ∃ s', roomyKernel.metallocInitGlobals ⟨fun _ => 0, []⟩ [smallExecutable] 0x601010 = some s' ∧
      s'.pageTable 0x601 ≠ 0 := by
  have hrun : (roomyKernel.metallocInitGlobals ⟨fun _ => 0, []⟩ [smallExecutable]
      0x601010).isSome = true := by decide +kernel
  obtain ⟨s', hs'⟩ := Option.isSome_iff_exists.mp hrun
  refine ⟨s', hs', ?_⟩
  have hinfo : smallExecutable ∈ [smallExecutable] := List.mem_cons_self
  refine (metallocInitGlobals_covers_iff (g := 0x601010) (by decide)
    (List.pairwise_singleton _ _) hinfo ?_ (fun _ _ => rfl) hs').mpr ⟨rfl, ?_⟩
  · exact ⟨⟨1, 0x601000, 0x240⟩, by decide, by decide, by decide⟩
  · exact ⟨smallExecutable.segments, List.prefix_rfl, by decide, by decide⟩

/-- The library is one whose global has, in its lower half, an address in the executable. -/
theorem metallocInitGlobals_covers_fails :
    ¬ ∀ (kernel : Kernel) (s s' : GlobalState) (objects : List DlPhdrInfo) (info : DlPhdrInfo)
      (g : Nat), (∀ info ∈ objects, info.Fits) → objects.Pairwise DlPhdrInfo.Apart →
      info ∈ objects → info.Holds g → (∀ p, info.HasPage p → s.pageTable p = 0) →
      kernel.metallocInitGlobals s objects g = some s' →
      s'.pageTable (g / METALLOC_PAGESIZE) ≠ 0 := by
  intro hall
  have hlibrary (p : Nat) (hp : farLibrary.HasPage p) : p = 0x7f0000601 := by
    obtain ⟨ph, hph, htouch⟩ := hp
    obtain rfl := List.mem_singleton.mp hph
    obtain ⟨-, hlo, hhi⟩ := touches_iff.mp htouch
    simp only [farLibrary, DlPhdrInfo.baseAddr, METALLOC_PAGESIZE, METALLOC_PAGESHIFT] at hlo hhi
    omega
  have hentry := hall roomyKernel ⟨fun p => if p = 0x601 then 3 else 0, []⟩ _
    [smallExecutable, farLibrary] farLibrary 0x7f0000601010 (by decide) ?_ (by decide)
    ⟨⟨1, 0x601000, 0x240⟩, by decide, by decide, by decide⟩ ?_ rfl
  · exact hentry rfl
  · refine List.pairwise_cons.mpr ⟨?_, List.pairwise_singleton _ _⟩
    intro other hother page hexecutable hpage
    obtain rfl := List.mem_singleton.mp hother
    obtain rfl := hlibrary page hpage
    exact absurd hexecutable (by decide)
  · intro p hp
    obtain rfl := hlibrary p hp
    rfl

end TypeSan
