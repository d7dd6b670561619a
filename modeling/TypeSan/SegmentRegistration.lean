import TypeSan.GlobalRegistration
import TypeSan.GlobalTypes

/-! From the registration of loaded segments to the casts of pointers into their globals. -/
namespace TypeSan

open PageMap Rounding Runs

namespace DlPhdrInfo

variable (info : DlPhdrInfo) (ph : ProgramHeader)

/-- The pages of the segment lead to the metadata block, which the kernel has given. -/
structure RegisteredAt (metaptr : Nat) (s : GlobalState) : Prop where
  metaptr_pos : 0 < metaptr
  meta_end : metaptr + metadataSize (info.alignedSize ph) kMetaGlobalAlignBits ≤ 2 ^ 47
  entry : ∀ page, info.SegmentHas ph page → s.pageTable page =
    pageEntry metaptr kMetaGlobalAlignBits (page - info.alignedStart ph / METALLOC_PAGESIZE)

/-- No two segments have a page in common. -/
def Separate (headers : List ProgramHeader) : Prop :=
  headers.Pairwise fun earlier later =>
    ∀ page, info.SegmentHas earlier page → ¬ info.SegmentHas later page

end DlPhdrInfo

section Callback

open DlPhdrInfo

variable {kernel : Kernel} {s s' : GlobalState} {info : DlPhdrInfo} {ph : ProgramHeader}
  {headers : List ProgramHeader} {metaptr page : Nat}

theorem register_registeredAt (hload : info.Loads ph) (h : kernel.register s info ph = some s') :
    ∃ metaptr, info.RegisteredAt ph metaptr s' := by
  obtain ⟨metaptr, hmmap, -, htable⟩ := register_eq h
  obtain ⟨hpos, hend⟩ := kernel.user _ _ _ hmmap
  refine ⟨metaptr, hpos, hend, fun page hpage => ?_⟩
  rw [htable, if_pos ((inRange_segment_iff hload.size hload.fits).mpr hpage)]

/-- Pages of no registered segment keep their entries. -/
theorem register_other (hload : info.Loads ph) (h : kernel.register s info ph = some s')
    (hpage : ¬ info.SegmentHas ph page) : s'.pageTable page = s.pageTable page := by
  obtain ⟨metaptr, -, -, htable⟩ := register_eq h
  rw [htable, if_neg fun hin => hpage ((inRange_segment_iff hload.size hload.fits).mp hin)]

theorem callbackLoop_other (hload : ∀ ph ∈ headers, info.Loads ph)
    (h : kernel.callbackLoop info s headers = some s')
    (hpage : ∀ ph ∈ headers, ¬ info.SegmentHas ph page) :
    s'.pageTable page = s.pageTable page := by
  induction headers generalizing s with
  | nil =>
    cases h
    rfl
  | cons ph rest ih =>
    obtain ⟨hph, hrest⟩ := List.forall_mem_cons.mp hload
    obtain ⟨hout, hpage⟩ := List.forall_mem_cons.mp hpage
    rw [callbackLoop_cons hph] at h
    split at h
    · cases h
      rfl
    · obtain ⟨t, ht, h⟩ := Option.bind_eq_some_iff.mp h
      rw [ih hrest h hpage, register_other hph ht hout]

theorem DlPhdrInfo.RegisteredAt.congr (hat : info.RegisteredAt ph metaptr s)
    (h : ∀ page, info.SegmentHas ph page → s'.pageTable page = s.pageTable page) :
    info.RegisteredAt ph metaptr s' :=
  ⟨hat.metaptr_pos, hat.meta_end, fun page hpage => (h page hpage).trans (hat.entry page hpage)⟩

/-- The loop registers every segment, if the segments are separate and no page has an entry. -/
theorem callbackLoop_registeredAt (hload : ∀ ph ∈ headers, info.Loads ph)
    (hseparate : info.Separate headers)
    (hnew : ∀ ph ∈ headers, ∀ page, info.SegmentHas ph page → s.pageTable page = 0)
    (h : kernel.callbackLoop info s headers = some s') (hph : ph ∈ headers) :
    ∃ metaptr, info.RegisteredAt ph metaptr s' := by
  induction headers generalizing s with
  | nil => cases hph
  | cons first rest ih =>
    obtain ⟨hfirst, hrest⟩ := List.forall_mem_cons.mp hload
    obtain ⟨hapart, hseparate⟩ := List.pairwise_cons.mp hseparate
    obtain ⟨hnewFirst, hnewRest⟩ := List.forall_mem_cons.mp hnew
    have hzero : s.pageTable (info.firstPage first) = 0 :=
      hnewFirst _ (segmentHas_firstPage hfirst.size)
    rw [callbackLoop_cons hfirst, if_neg (not_not_intro hzero)] at h
    obtain ⟨t, ht, hrun⟩ := Option.bind_eq_some_iff.mp h
    -- later segments are on other pages than the one that is registered first
    rcases List.mem_cons.mp hph with rfl | hph
    · obtain ⟨metaptr, hat⟩ := register_registeredAt hfirst ht
      refine ⟨metaptr, hat.congr fun page hpage => ?_⟩
      exact callbackLoop_other hrest hrun fun later hlater => hapart later hlater page hpage
    · refine ih hrest hseparate (fun later hlater page hpage => ?_) hrun hph
      rw [register_other hfirst ht fun hin => hapart later hlater page hin hpage]
      exact hnewRest later hlater page hpage

end Callback

section Sweep

open DlPhdrInfo

variable {kernel : Kernel} {s s' : GlobalState} {objects : List DlPhdrInfo} {info : DlPhdrInfo}
  {ph : ProgramHeader} {page : Nat}

theorem sharedObjectCallback_other (hfits : info.Fits)
    (h : kernel.sharedObjectCallback s info = some s') (hpage : ¬ info.HasPage page) :
    s'.pageTable page = s.pageTable page := by
  rw [Kernel.sharedObjectCallback, ← callbackLoop_filter] at h
  exact callbackLoop_other (fun ph hph => hfits.loads hph) h fun ph hph hin => hpage ⟨ph, hph, hin⟩

theorem dlIteratePhdr_other (hfits : ∀ info ∈ objects, info.Fits)
    (h : kernel.dlIteratePhdr s objects = some s')
    (hpage : ∀ info ∈ objects, ¬ info.HasPage page) : s'.pageTable page = s.pageTable page := by
  induction objects generalizing s with
  | nil =>
    cases h
    rfl
  | cons info objects ih =>
    obtain ⟨hinfo, hrest⟩ := List.forall_mem_cons.mp hfits
    obtain ⟨hout, hpage⟩ := List.forall_mem_cons.mp hpage
    obtain ⟨t, ht, h⟩ := Option.bind_eq_some_iff.mp h
    rw [ih hrest h hpage, sharedObjectCallback_other hinfo ht hout]

/-- A sweep registers every segment of every object. -/
theorem dlIteratePhdr_registeredAt (hfits : ∀ info ∈ objects, info.Fits)
    (hapart : objects.Pairwise DlPhdrInfo.Apart)
    (hseparate : ∀ info ∈ objects, info.Separate info.segments)
    (hnew : ∀ info ∈ objects, ∀ page, info.HasPage page → s.pageTable page = 0)
    (h : kernel.dlIteratePhdr s objects = some s') (hinfo : info ∈ objects)
    (hph : ph ∈ info.segments) : ∃ metaptr, info.RegisteredAt ph metaptr s' := by
  induction objects generalizing s with
  | nil => cases hinfo
  | cons first objects ih =>
    obtain ⟨hfirst, hrest⟩ := List.forall_mem_cons.mp hfits
    obtain ⟨hothers, hapart⟩ := List.pairwise_cons.mp hapart
    obtain ⟨hseparateFirst, hseparate⟩ := List.forall_mem_cons.mp hseparate
    obtain ⟨hnewFirst, hnew⟩ := List.forall_mem_cons.mp hnew
    obtain ⟨t, ht, hrun⟩ := Option.bind_eq_some_iff.mp h
    rcases List.mem_cons.mp hinfo with rfl | hinfo
    · rw [Kernel.sharedObjectCallback, ← callbackLoop_filter] at ht
      obtain ⟨metaptr, hat⟩ := callbackLoop_registeredAt (fun ph hph => hfirst.loads hph)
        hseparateFirst (fun ph hph page hpage => hnewFirst page ⟨ph, hph, hpage⟩) ht hph
      refine ⟨metaptr, hat.congr fun page hpage => ?_⟩
      exact dlIteratePhdr_other hrest hrun fun other hother =>
        hothers other hother page ⟨ph, hph, hpage⟩
    · refine ih hrest hapart hseparate (fun other hother page hpage => ?_) hrun hinfo
      rw [sharedObjectCallback_other hfirst ht fun hin => hothers other hother page hin hpage]
      exact hnew other hother page hpage

end Sweep

/-! The segments with globals, as `metalloc_init_globals` leaves them. -/

/-- The pages of a loaded segment, with its metadata block. -/
def DlPhdrInfo.segmentAt (info : DlPhdrInfo) (ph : ProgramHeader) (metaptr : Nat) :
    GlobalsSegment :=
  ⟨info.alignedStart ph, info.alignedSize ph, metaptr⟩

section Segments

open DlPhdrInfo

variable {kernel : Kernel} {s s' : GlobalState} {objects : List DlPhdrInfo} {info : DlPhdrInfo}
  {ph : ProgramHeader} {metaptr g : Nat} {m : WordMemory.Memory}

theorem DlPhdrInfo.RegisteredAt.registeredIn (h : info.RegisteredAt ph metaptr s)
    (hload : info.Loads ph) (hlow : METALLOC_PAGESIZE ≤ info.baseAddr ph) :
    (info.segmentAt ph metaptr).RegisteredIn ⟨s.pageTable, m⟩ := by
  have hmeta := h.meta_end
  have hfits := hload.fits
  have hstart : METALLOC_PAGESIZE ∣ info.alignedStart ph := Nat.dvd_mul_left _ _
  have hsize : METALLOC_PAGESIZE ∣ info.alignedSize ph := Nat.dvd_mul_left _ _
  have hends : 0 < info.alignedStart ph ∧ info.alignedStart ph + info.alignedSize ph ≤ 2 ^ 48 := by
    simp only [alignedStart, alignedSize, kMetaPageSize, METALLOC_PAGESIZE,
      METALLOC_PAGESHIFT] at *
    omega
  refine ⟨⟨hstart, hsize, by decide, h.metaptr_pos.ne', ?_, fun i hi => ?_⟩, hends.1, hends.2⟩
  · simp only [segmentAt, metadataSize, granules, kMetaGlobalAlignBits, SYSTEM_PAGESIZE,
      FLAGS_METALLOC_METADATABYTES, METALLOC_PAGESIZE, METALLOC_PAGESHIFT,
      Nat.shiftRight_eq_div_pow] at *
    omega
  · have hin := (inRange_segment_iff hload.size hload.fits).mp
      (⟨Nat.le_add_right _ i, Nat.add_lt_add_left hi _⟩ : InRange
        (info.alignedStart ph / METALLOC_PAGESIZE) (info.alignedSize ph / METALLOC_PAGESIZE)
        (info.alignedStart ph / METALLOC_PAGESIZE + i))
    exact (h.entry _ hin).trans (by rw [Nat.add_sub_cancel_left]; rfl)

/-- If it finds nothing registered, `metalloc_init_globals` registers every segment. -/
theorem metallocInitGlobals_registeredIn (hfits : ∀ info ∈ objects, info.Fits)
    (hapart : objects.Pairwise DlPhdrInfo.Apart)
    (hseparate : ∀ info ∈ objects, info.Separate info.segments)
    (hnew : ∀ info ∈ objects, ∀ page, info.HasPage page → s.pageTable page = 0)
    (hfirst : s.pageTable (g % 2 ^ 32 / METALLOC_PAGESIZE) = 0)
    (h : kernel.metallocInitGlobals s objects g = some s') (hinfo : info ∈ objects)
    (hph : ph ∈ info.segments) (hlow : METALLOC_PAGESIZE ≤ info.baseAddr ph) :
    ∃ metaptr, (info.segmentAt ph metaptr).RegisteredIn ⟨s'.pageTable, m⟩ := by
  rw [Kernel.metallocInitGlobals, Nat.shiftRight_eq_div_pow] at h
  split at h
  · rename_i hearly
    exact absurd hfirst hearly
  · obtain ⟨metaptr, hat⟩ := dlIteratePhdr_registeredAt hfits hapart hseparate hnew h hinfo hph
    exact ⟨metaptr, hat.registeredIn ((hfits info hinfo).loads hph) hlow⟩

/-- The globals of the module lie in the segment. -/
def DlPhdrInfo.HoldsGlobals (info : DlPhdrInfo) (ph : ProgramHeader) (u : GlobalsUnit) : Prop :=
  ∀ GV ∈ trackedGlobals u.globals, info.baseAddr ph ≤ GV.address ∧
    GV.address < info.baseAddr ph + ph.p_memsz ∧
    GV.address + GV.size ≤ info.baseAddr ph + ph.p_memsz

theorem DlPhdrInfo.HoldsGlobals.holds {u : GlobalsUnit} (h : info.HoldsGlobals ph u)
    (hload : info.Loads ph) : (info.segmentAt ph metaptr).Holds u := by
  intro GV hGV
  obtain ⟨hlo, hlt, hhi⟩ := h GV hGV
  have hfits := hload.fits
  simp only [segmentAt, alignedStart, alignedSize, kMetaPageSize] at *
  omega

end Segments

end TypeSan
