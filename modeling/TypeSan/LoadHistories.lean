import TypeSan.GlobalRegistration

/-! Sweeps over histories of loading and unloading objects. -/
namespace TypeSan

open Claiming PageMap Runs

namespace GlobalState

/-- The page has an entry that leads to the metadata of a block for the page. -/
def Covered (s : GlobalState) (page : Nat) : Prop :=
  s.pageTable page ≠ 0 ∧ ∃ block ∈ s.blocks, InRange block.first block.count page ∧
    s.pageTable page >>> 8 = block.metadata +
      (page - block.first) * METALLOC_PAGESIZE / 2 ^ kMetaGlobalAlignBits * FLAGS_METALLOC_METADATABYTES

/-- Whatever has an entry is covered. -/
def EntriesCovered (s : GlobalState) : Prop := ∀ page, s.pageTable page ≠ 0 → s.Covered page

end GlobalState

/-- The state of the registration, and the objects that are loaded. -/
structure LoadState extends GlobalState where
  objects : List DlPhdrInfo

/-- The loader maps and unmaps objects past the hooks. A sweep is one that `metalloc_init_globals`
starts. -/
inductive LoadEvent where
  | load (info : DlPhdrInfo)
  | unload (info : DlPhdrInfo)
  | sweep
  deriving DecidableEq

/-- The step of an event. Unloading leaves the page table as it is. -/
def Kernel.loadStep (kernel : Kernel) (s : LoadState) : LoadEvent → Option LoadState
  | .load info => some { s with objects := s.objects ++ [info] }
  | .unload info => some { s with objects := s.objects.erase info }
  | .sweep => (kernel.dlIteratePhdr s.toGlobalState s.objects).map fun swept =>
    { s with toGlobalState := swept }

namespace LoadState

/-- Nothing is loaded, and nothing registered. -/
def initial : LoadState := ⟨⟨fun _ => 0, []⟩, []⟩

/-- Every page of a loaded segment is covered. -/
def SegmentsCovered (s : LoadState) : Prop :=
  ∀ info ∈ s.objects, ∀ page, info.HasPage page → s.Covered page

/-- In no loaded object the loop meets a segment that starts on a page which has an entry, or
belongs to an earlier segment, while a page of that segment or of a later one still needs an entry.
-/
def StopsDone (s : LoadState) : Prop :=
  ∀ info ∈ s.objects, Claiming.StopsDone info.firstPage info.SegmentHas
    (fun page => s.pageTable page ≠ 0) info.segments

end LoadState

namespace LoadEvent

/-- An object is loaded into user space, apart from all others. -/
def Allowed (s : LoadState) : LoadEvent → Prop
  | .load info => info.Fits ∧ ∀ other ∈ s.objects, other.Apart info
  | .unload _ => True
  | .sweep => True

/-- After a sweep, the segments are covered. -/
def Covers (kernel : Kernel) (s : LoadState) (event : LoadEvent) : Prop :=
  event = .sweep → ∀ s', kernel.loadStep s event = some s' → s'.SegmentsCovered

/-- A sweep stops at no segment too early. -/
def Complete (s : LoadState) (event : LoadEvent) : Prop := event = .sweep → s.StopsDone

end LoadEvent

section Covered

variable {kernel : Kernel} {s s' : GlobalState} {info : DlPhdrInfo} {ph : ProgramHeader}

/-- Entries stay covered: a block that is there stays there, and a new one covers its pages. -/
theorem register_entriesCovered (hend : info.baseAddr ph + ph.p_memsz ≤ 2 ^ 47)
    (hs : s.EntriesCovered) (h : kernel.register s info ph = some s') : s'.EntriesCovered := by
  obtain ⟨metadata, hmetadata, hblocks, htable⟩ := register_eq h
  obtain ⟨hpos, hroom⟩ := kernel.user _ _ _ hmetadata
  intro page hpage
  refine ⟨hpage, ?_⟩
  rw [htable] at hpage ⊢
  rw [hblocks]
  split
  · rename_i hin
    refine ⟨_, List.mem_cons_self, hin, ?_⟩
    have hbound : (page - info.alignedStart ph / METALLOC_PAGESIZE) * METALLOC_PAGESIZE ≤ 2 ^ 48 := by
      simp only [InRange, DlPhdrInfo.alignedSize, DlPhdrInfo.alignedStart, kMetaPageSize,
        METALLOC_PAGESIZE, METALLOC_PAGESHIFT] at *
      omega
    rw [pageEntry_shiftRight (by decide) (by omega), Nat.shiftRight_eq_div_pow]
    · rfl
    · rw [Nat.shiftRight_eq_div_pow]
      simp only [kMetaGlobalAlignBits]
      omega
  · rename_i hout
    rw [if_neg hout] at hpage
    obtain ⟨-, block, hblock, hin, hentry⟩ := hs page hpage
    exact ⟨block, List.mem_cons_of_mem _ hblock, hin, hentry⟩

theorem callbackLoop_entriesCovered {headers : List ProgramHeader}
    (hload : ∀ ph ∈ headers, info.Loads ph) (hs : s.EntriesCovered)
    (h : kernel.callbackLoop info s headers = some s') : s'.EntriesCovered := by
  induction headers generalizing s with
  | nil =>
    cases h
    exact hs
  | cons ph rest ih =>
    obtain ⟨hph, hrest⟩ := List.forall_mem_cons.mp hload
    rw [callbackLoop_cons hph] at h
    split at h
    · cases h
      exact hs
    · obtain ⟨t, ht, h⟩ := Option.bind_eq_some_iff.mp h
      exact ih hrest (register_entriesCovered hph.fits hs ht) h

theorem dlIteratePhdr_entriesCovered {objects : List DlPhdrInfo}
    (hfits : ∀ info ∈ objects, info.Fits) (hs : s.EntriesCovered)
    (h : kernel.dlIteratePhdr s objects = some s') : s'.EntriesCovered := by
  induction objects generalizing s with
  | nil =>
    cases h
    exact hs
  | cons info objects ih =>
    obtain ⟨hinfo, hrest⟩ := List.forall_mem_cons.mp hfits
    obtain ⟨t, ht, h⟩ := Option.bind_eq_some_iff.mp h
    rw [Kernel.sharedObjectCallback, ← callbackLoop_filter] at ht
    exact ih hrest (callbackLoop_entriesCovered (fun ph hph => hinfo.loads hph) hs ht) h

end Covered

/-- The loaded objects are apart, in user space, and all entries are covered. -/
structure LoadState.Inv (s : LoadState) : Prop where
  fits : ∀ info ∈ s.objects, info.Fits
  apart : s.objects.Pairwise DlPhdrInfo.Apart
  covered : s.EntriesCovered

section Runs

variable {kernel : Kernel} {s s' : LoadState} {event : LoadEvent}

theorem loadStep_sweep_objects (h : kernel.loadStep s .sweep = some s') :
    s'.objects = s.objects := by
  obtain ⟨swept, -, rfl⟩ := Option.map_eq_some_iff.mp h
  rfl

theorem LoadState.Inv.step (hs : s.Inv) (hallowed : event.Allowed s)
    (h : kernel.loadStep s event = some s') : s'.Inv := by
  cases event with
  | load info =>
    cases h
    refine ⟨?_, ?_, hs.covered⟩
    · intro other hother
      rcases List.mem_append.mp hother with hold | hnew
      · exact hs.fits other hold
      · exact List.mem_singleton.mp hnew ▸ hallowed.1
    · refine List.pairwise_append.mpr ⟨hs.apart, List.pairwise_singleton _ _, ?_⟩
      intro other hother new hnew
      exact List.mem_singleton.mp hnew ▸ hallowed.2 other hother
  | unload info =>
    cases h
    exact ⟨fun other hother => hs.fits other (List.mem_of_mem_erase hother),
      hs.apart.sublist List.erase_sublist, hs.covered⟩
  | sweep =>
    obtain ⟨swept, hswept, rfl⟩ := Option.map_eq_some_iff.mp h
    exact ⟨hs.fits, hs.apart, dlIteratePhdr_entriesCovered hs.fits hs.covered hswept⟩

/-- A sweep covers the segments exactly if it stops at none too early. -/
theorem LoadState.Inv.sweep_covers_iff (hs : s.Inv) (h : kernel.loadStep s .sweep = some s') :
    s'.SegmentsCovered ↔ s.StopsDone := by
  have hs' : s'.Inv := hs.step (show LoadEvent.Allowed s .sweep from trivial) h
  obtain ⟨swept, hswept, rfl⟩ := Option.map_eq_some_iff.mp h
  apply forall₂_congr
  intro info hinfo
  rw [← all_claimed_iff]
  constructor
  · intro hcovered ph hph page hhas
    exact (dlIteratePhdr_object hs.fits hs.apart hswept hinfo ⟨ph, hph, hhas⟩).mp
      (hcovered page ⟨ph, hph, hhas⟩).1
  · rintro hclaims page ⟨ph, hph, hhas⟩
    exact hs'.covered page ((dlIteratePhdr_object hs.fits hs.apart hswept hinfo
      ⟨ph, hph, hhas⟩).mpr (hclaims ph hph page hhas))

/-- Over any history of loading and unloading, every sweep covers all segments exactly if none stops
too early. -/
theorem loadStep_covers_iff {events : List LoadEvent}
    (hallowed : Guarded kernel.loadStep (fun s event => event.Allowed s) .initial events)
    (h : exec kernel.loadStep .initial events = some s') :
    Guarded kernel.loadStep (LoadEvent.Covers kernel) .initial events ↔
      Guarded kernel.loadStep LoadEvent.Complete .initial events := by
  have hinitial : LoadState.initial.Inv := ⟨by simp [LoadState.initial], List.Pairwise.nil,
    fun page hpage => (hpage rfl).elim⟩
  apply guarded_congr hinitial _ (hallowed.and (guarded_of_exec h))
  · rintro t event ht ⟨-, u, hu⟩
    apply imp_congr_right
    rintro rfl
    rw [← ht.sweep_covers_iff hu]
    constructor
    · intro hcovers
      exact hcovers u hu
    · intro hcovered v hv
      rwa [← Option.some.inj (hu.symm.trans hv)]
  · rintro t event u ht ⟨hevent, -⟩ hu
    exact ht.step hevent hu

end Runs

theorem loadStep_covers_executable :
    Guarded roomyKernel.loadStep (LoadEvent.Covers roomyKernel) .initial
      [.load smallExecutable, .sweep] := by
  have hrun : (exec roomyKernel.loadStep .initial [.load smallExecutable, .sweep]).isSome = true := by
    decide +kernel
  obtain ⟨s', hs'⟩ := Option.isSome_iff_exists.mp hrun
  refine (loadStep_covers_iff ?_ hs').mpr ?_
  · apply guarded_cons
    · exact ⟨by decide, fun other hother => absurd hother List.not_mem_nil⟩
    · intro t ht
      exact guarded_cons trivial fun u hu => guarded_nil
  · apply guarded_cons
    · intro hload
      cases hload
    · intro t ht
      cases ht
      refine guarded_cons ?_ fun u hu => guarded_nil
      intro hsweep info hinfo
      obtain rfl := List.mem_singleton.mp hinfo
      refine all_claimed_iff.mp ?_
      intro ph hph page hhas
      have hcases : ph = ⟨1, 0x400000, 0x700⟩ ∨ ph = ⟨1, 0x601000, 0x240⟩ := by
        simpa [smallExecutable, DlPhdrInfo.segments, PT_LOAD] using hph
      right
      rcases hcases with rfl | rfl
      · exact ⟨fun h => h rfl, Or.inl hhas⟩
      · refine ⟨fun h => h rfl, Or.inr ⟨?_, Or.inl hhas⟩⟩
        rintro (h | h)
        · exact h rfl
        · exact absurd h (by decide)

/-- A library of one page, and one of two pages that is loaded in its place. -/
def smallLibrary : DlPhdrInfo := ⟨0x7f0000000000, [⟨1, 0, 0x800⟩]⟩

def largerLibrary : DlPhdrInfo := ⟨0x7f0000000000, [⟨1, 0, 0x1800⟩]⟩

/-- The entry that the small library has left behind keeps the larger one from being registered. -/
theorem loadStep_covers_fails :
    ¬ ∀ (kernel : Kernel) (events : List LoadEvent) (s' : LoadState),
      Guarded kernel.loadStep (fun s event => event.Allowed s) .initial events →
      exec kernel.loadStep .initial events = some s' →
      Guarded kernel.loadStep (LoadEvent.Covers kernel) .initial events := by
  intro hall
  have hfront : (exec roomyKernel.loadStep .initial
      [.load smallLibrary, .sweep, .unload smallLibrary, .load largerLibrary]).isSome = true := by
    decide +kernel
  have hrun : (exec roomyKernel.loadStep .initial
      [.load smallLibrary, .sweep, .unload smallLibrary, .load largerLibrary, .sweep]).map
        (fun s => (s.objects, s.pageTable 0x7f0000001)) = some ([largerLibrary], 0) := by
    decide +kernel
  obtain ⟨t, ht⟩ := Option.isSome_iff_exists.mp hfront
  obtain ⟨s', hs', hend⟩ := Option.map_eq_some_iff.mp hrun
  obtain ⟨hobjects, hentry⟩ := Prod.mk.inj hend
  have hallowed : Guarded roomyKernel.loadStep (fun s event => event.Allowed s) .initial
      [.load smallLibrary, .sweep, .unload smallLibrary, .load largerLibrary, .sweep] := by
    refine guarded_cons ⟨by decide, fun other hother => absurd hother List.not_mem_nil⟩ ?_
    intro t₁ ht₁
    cases ht₁
    refine guarded_cons trivial ?_
    intro t₂ ht₂
    refine guarded_cons trivial ?_
    intro t₃ ht₃
    cases ht₃
    refine guarded_cons ⟨by decide, ?_⟩ fun t₄ ht₄ => guarded_cons trivial fun t₅ ht₅ => guarded_nil
    intro other hother
    simp [loadStep_sweep_objects ht₂, LoadState.initial] at hother
  have hsweep : roomyKernel.loadStep t .sweep = some s' := (exec_snoc ht).symm.trans hs'
  have hcovers := hall roomyKernel _ s' hallowed hs' _ .sweep t List.prefix_rfl ht rfl s' hsweep
  have hcovered := hcovers largerLibrary (by rw [hobjects]; exact List.mem_singleton_self _)
    0x7f0000001 (by decide)
  exact hcovered.1 hentry

end TypeSan
