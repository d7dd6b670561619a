import TypeSan.Library.PageMap
import TypeSan.Library.Runs
import TypeSan.MetaPageTable

/-! The hooked mappings and their mirror in the page table. -/
namespace TypeSan

open PageMap Rounding Runs

/-- `rounded_length`, an `unsigned int`. -/
def roundedLength (length : Nat) : Nat :=
  ((length + METALLOC_PAGESIZE - 1) % 2 ^ 64 / METALLOC_PAGESIZE * METALLOC_PAGESIZE) % 2 ^ 32

/-- A hooked call, with what the system returned: the address of the mapping, and that of the
sentinel page if this call is the first to need it. -/
inductive HookedCall where
  | mmap64 (length result sentinel : Nat)
  | mmap (length result sentinel : Nat)
  | munmap (start length : Nat)
  | mremap (old_addr old_size new_size result sentinel : Nat)
  deriving DecidableEq

/-- The page table and `metalloc_sentinel`. -/
structure MirrorState where
  pageTable : PageTable
  metalloc_sentinel : Nat

namespace MirrorState

/-- Before the first call. -/
def initial (pageTable : PageTable) : MirrorState := ⟨pageTable, 0⟩

/-- The sentinel page is mapped once. -/
def withSentinel (s : MirrorState) (sentinel : Nat) : MirrorState :=
  if s.metalloc_sentinel = 0 then { s with metalloc_sentinel := sentinel } else s

/-- `set_metapagetable_entries` -/
def setEntries (s : MirrorState) (ptr size metaptr alignment : Nat) : Option MirrorState :=
  (setMetapagetableEntries s.pageTable ptr size metaptr alignment).map fun pageTable =>
    { s with pageTable }

/-- The end of the `mmap64` and `mmap` hooks. -/
def mapHook (s : MirrorState) (length result sentinel : Nat) : Option MirrorState :=
  let s := s.withSentinel sentinel
  s.setEntries result (roundedLength length) s.metalloc_sentinel 63

/-- The end of the `munmap` hook. -/
def munmapHook (s : MirrorState) (start length : Nat) : Option MirrorState :=
  s.setEntries start (roundedLength length) 0 0

/-- The end of the `mremap` hook, which clears the old range twice. -/
def mremapHook (s : MirrorState) (old_addr old_size new_size result sentinel : Nat) :
    Option MirrorState := do
  let s ← s.setEntries old_addr old_size 0 0
  let s := s.withSentinel sentinel
  let s ← s.setEntries old_addr (roundedLength old_size) 0 0
  s.setEntries result (roundedLength new_size) s.metalloc_sentinel 63

/-- A hooked call; `none` ends the process. -/
def hook (s : MirrorState) : HookedCall → Option MirrorState
  | .mmap64 length result sentinel => s.mapHook length result sentinel
  | .mmap length result sentinel => s.mapHook length result sentinel
  | .munmap start length => s.munmapHook start length
  | .mremap old_addr old_size new_size result sentinel =>
    s.mremapHook old_addr old_size new_size result sentinel

end MirrorState

/-- A range of whole pages in user space. -/
def UserRange (start length : Nat) : Prop :=
  METALLOC_PAGESIZE ∣ start ∧ 0 < length ∧ start + alignTo length METALLOC_PAGESIZE ≤ 2 ^ 47

/-- The pages of a range. -/
def InPages (start length page : Nat) : Prop :=
  InRange (start / METALLOC_PAGESIZE) (alignTo length METALLOC_PAGESIZE / METALLOC_PAGESIZE) page

instance (start length page : Nat) : Decidable (InPages start length page) :=
  inferInstanceAs (Decidable (InRange _ _ _))

/-- The address of a page that the system gave out. -/
def UserPage (ptr : Nat) : Prop := 0 < ptr ∧ ptr + METALLOC_PAGESIZE ≤ 2 ^ 47

namespace HookedCall

/-- The system carried the call out. -/
def Succeeds : HookedCall → Prop
  | .mmap64 length result sentinel => UserRange result length ∧ UserPage sentinel
  | .mmap length result sentinel => UserRange result length ∧ UserPage sentinel
  | .munmap start length => UserRange start length
  | .mremap old_addr old_size new_size result sentinel =>
    UserRange old_addr old_size ∧ UserRange result new_size ∧ UserPage sentinel

/-- The pages that the call maps. -/
def maps : HookedCall → Nat → Bool
  | .mmap64 length result _, page => decide (InPages result length page)
  | .mmap length result _, page => decide (InPages result length page)
  | .munmap _ _, _ => false
  | .mremap _ _ new_size result _, page => decide (InPages result new_size page)

/-- The pages that the call unmaps or moves away from, unless it maps them again. -/
def leaves : HookedCall → Nat → Bool
  | .mmap64 _ _ _, _ => false
  | .mmap _ _ _, _ => false
  | .munmap start length, page => decide (InPages start length page)
  | .mremap old_addr old_size _ _ _, page => decide (InPages old_addr old_size page)

/-- The lengths to be registered fit `unsigned int`, and the old size of `mremap` is one of whole
pages. -/
def Short : HookedCall → Prop
  | .mmap64 length _ _ => alignTo length METALLOC_PAGESIZE < 2 ^ 32
  | .mmap length _ _ => alignTo length METALLOC_PAGESIZE < 2 ^ 32
  | .munmap _ length => alignTo length METALLOC_PAGESIZE < 2 ^ 32
  | .mremap _ old_size new_size _ _ =>
    METALLOC_PAGESIZE ∣ old_size ∧ alignTo new_size METALLOC_PAGESIZE < 2 ^ 32

end HookedCall

/-- The entry of a hooked page. -/
def sentinelEntry (sentinel : Nat) : Nat := sentinel <<< 8 ||| 63

/-- What a call should do to the page table. -/
structure MirrorState.Mirrors (s : MirrorState) (call : HookedCall) (s' : MirrorState) : Prop where
  mapped : ∀ page, call.maps page = true → s'.pageTable page = sentinelEntry s'.metalloc_sentinel
  left : ∀ page, call.maps page = false → call.leaves page = true → s'.pageTable page = 0
  other : ∀ page, call.maps page = false → call.leaves page = false →
    s'.pageTable page = s.pageTable page

/-! The entries that a call writes. -/

theorem dvd_roundedLength (length : Nat) : METALLOC_PAGESIZE ∣ roundedLength length := by
  simp only [roundedLength, METALLOC_PAGESIZE, METALLOC_PAGESHIFT]
  omega

theorem alignTo_pos {length : Nat} (h : 0 < length) : 0 < alignTo length METALLOC_PAGESIZE :=
  Nat.lt_of_lt_of_le h (le_alignTo (by decide))

theorem UserRange.roundedLength_eq {start length : Nat} (h : UserRange start length) :
    roundedLength length = alignTo length METALLOC_PAGESIZE % 2 ^ 32 := by
  have hle : length ≤ alignTo length METALLOC_PAGESIZE := le_alignTo (by decide)
  have hend := h.2.2
  have hlt : length + METALLOC_PAGESIZE - 1 < 2 ^ 64 := by
    simp only [METALLOC_PAGESIZE, METALLOC_PAGESHIFT] at *
    omega
  rw [roundedLength, Nat.mod_eq_of_lt hlt, alignTo]

theorem pageEntry_sentinel {sentinel i : Nat} (hpos : 0 < sentinel) (hlt : sentinel < 2 ^ 47)
    (hi : i < 2 ^ 51) : pageEntry sentinel 63 i = sentinelEntry sentinel := by
  have hoffset : (i * METALLOC_PAGESIZE) >>> 63 = 0 := by
    rw [Nat.shiftRight_eq_div_pow]
    simp only [METALLOC_PAGESIZE, METALLOC_PAGESHIFT]
    omega
  rw [pageEntry_eq (by decide) (by omega) (by rw [hoffset]; omega), hoffset, sentinelEntry,
    Nat.shiftLeft_eq, Nat.mul_comm sentinel, ← Nat.two_pow_add_eq_or_of_lt (by decide)]
  simp

theorem setEntries_page (pageTable : PageTable) (first metaptr alignment count page : Nat) :
    setEntries pageTable first metaptr alignment count page =
      if InRange first count page then pageEntry metaptr alignment (page - first)
      else pageTable page := setEntries_apply

namespace MirrorState

variable {s s' : MirrorState} {sentinel : Nat}

theorem setEntries_eq {ptr size : Nat} (metaptr alignment : Nat) (h : METALLOC_PAGESIZE ∣ size) :
    s.setEntries ptr size metaptr alignment = some { s with
      pageTable := TypeSan.setEntries s.pageTable (ptr / METALLOC_PAGESIZE) metaptr alignment
        (size / METALLOC_PAGESIZE) } := by
  rw [setEntries, setMetapagetableEntries_of_dvd _ _ _ _ h]
  rfl

/-- Clearing a range of whole pages. -/
theorem setEntries_clear (ptr : Nat) {size : Nat} (h : METALLOC_PAGESIZE ∣ size) :
    ∃ s', s.setEntries ptr size 0 0 = some s' ∧ s'.metalloc_sentinel = s.metalloc_sentinel ∧
      ∀ page, s'.pageTable page =
        if InRange (ptr / METALLOC_PAGESIZE) (size / METALLOC_PAGESIZE) page then 0
        else s.pageTable page := by
  refine ⟨_, setEntries_eq 0 0 h, rfl, ?_⟩
  intro page
  have hzero (i : Nat) : pageEntry 0 0 i = 0 := by simp [pageEntry, charBits]
  simp only [setEntries_page, hzero]

/-- Giving one the sentinel entry. -/
theorem setEntries_sentinel (ptr : Nat) {size : Nat} (h : METALLOC_PAGESIZE ∣ size)
    (hsize : size < 2 ^ 32) (hpos : 0 < s.metalloc_sentinel) (hlt : s.metalloc_sentinel < 2 ^ 47) :
    ∃ s', s.setEntries ptr size s.metalloc_sentinel 63 = some s' ∧
      s'.metalloc_sentinel = s.metalloc_sentinel ∧ ∀ page, s'.pageTable page =
        if InRange (ptr / METALLOC_PAGESIZE) (size / METALLOC_PAGESIZE) page then
          sentinelEntry s.metalloc_sentinel
        else s.pageTable page := by
  refine ⟨_, setEntries_eq _ _ h, rfl, ?_⟩
  intro page
  simp only [setEntries_page]
  by_cases hin : InRange (ptr / METALLOC_PAGESIZE) (size / METALLOC_PAGESIZE) page
  · rw [if_pos hin, if_pos hin]
    refine pageEntry_sentinel hpos hlt ?_
    simp only [InRange, METALLOC_PAGESIZE, METALLOC_PAGESHIFT] at *
    omega
  · rw [if_neg hin, if_neg hin]

@[simp] theorem withSentinel_pageTable : (s.withSentinel sentinel).pageTable = s.pageTable := by
  unfold withSentinel
  split <;> rfl

theorem withSentinel_page (hs : s.metalloc_sentinel < 2 ^ 47) (h : UserPage sentinel) :
    0 < (s.withSentinel sentinel).metalloc_sentinel ∧
      (s.withSentinel sentinel).metalloc_sentinel < 2 ^ 47 := by
  obtain ⟨hpos, hend⟩ := h
  simp only [METALLOC_PAGESIZE, METALLOC_PAGESHIFT] at hend
  unfold withSentinel
  split
  · exact ⟨hpos, by simp only; omega⟩
  · exact ⟨Nat.pos_of_ne_zero ‹_›, hs⟩

/-- The pages that a hook registers get the sentinel entry, and no others. -/
theorem mapHook_eq (hs : s.metalloc_sentinel < 2 ^ 47) (h : UserPage sentinel)
    (length result : Nat) :
    ∃ s', s.mapHook length result sentinel = some s' ∧ s'.metalloc_sentinel < 2 ^ 47 ∧
      ∀ page, s'.pageTable page =
        if InRange (result / METALLOC_PAGESIZE) (roundedLength length / METALLOC_PAGESIZE) page then
          sentinelEntry s'.metalloc_sentinel
        else s.pageTable page := by
  obtain ⟨hpos, hlt⟩ := withSentinel_page hs h
  obtain ⟨s', hs', hsentinel, htable⟩ := setEntries_sentinel result (dvd_roundedLength length)
    (Nat.mod_lt _ (by decide)) hpos hlt
  refine ⟨s', hs', by rwa [hsentinel], ?_⟩
  intro page
  rw [htable, hsentinel, withSentinel_pageTable]

theorem munmapHook_eq (start length : Nat) :
    ∃ s', s.munmapHook start length = some s' ∧ s'.metalloc_sentinel = s.metalloc_sentinel ∧
      ∀ page, s'.pageTable page =
        if InRange (start / METALLOC_PAGESIZE) (roundedLength length / METALLOC_PAGESIZE) page then 0
        else s.pageTable page :=
  setEntries_clear start (dvd_roundedLength length)

/-- `mremap` ends the process over an old size that is not one of whole pages. -/
theorem mremapHook_none {old_addr old_size new_size result : Nat}
    (h : ¬ METALLOC_PAGESIZE ∣ old_size) :
    s.mremapHook old_addr old_size new_size result sentinel = none := by
  have hmod : old_size % METALLOC_PAGESIZE ≠ 0 := fun h0 => h (Nat.dvd_of_mod_eq_zero h0)
  simp [mremapHook, setEntries, setMetapagetableEntries, hmod]

/-- Otherwise it is an `munmap` of the old range, of its full length, and an `mmap`. -/
theorem mremapHook_eq {old_size : Nat} (hs : s.metalloc_sentinel < 2 ^ 47) (h : UserPage sentinel)
    (hold : METALLOC_PAGESIZE ∣ old_size) (old_addr new_size result : Nat) :
    ∃ s', s.mremapHook old_addr old_size new_size result sentinel = some s' ∧
      s'.metalloc_sentinel < 2 ^ 47 ∧ ∀ page, s'.pageTable page =
        if InRange (result / METALLOC_PAGESIZE) (roundedLength new_size / METALLOC_PAGESIZE) page then
          sentinelEntry s'.metalloc_sentinel
        else if InRange (old_addr / METALLOC_PAGESIZE) (old_size / METALLOC_PAGESIZE) page then 0
        else s.pageTable page := by
  obtain ⟨s₁, hs₁, hsentinel₁, htable₁⟩ := s.setEntries_clear old_addr hold
  obtain ⟨hpos, hlt⟩ := withSentinel_page (s := s₁) (by rwa [hsentinel₁]) h
  obtain ⟨s₂, hs₂, hsentinel₂, htable₂⟩ :=
    (s₁.withSentinel sentinel).setEntries_clear old_addr (dvd_roundedLength old_size)
  obtain ⟨s₃, hs₃, hsentinel₃, htable₃⟩ := setEntries_sentinel result (dvd_roundedLength new_size)
    (Nat.mod_lt _ (by decide)) (s := s₂) (by rwa [hsentinel₂]) (by rwa [hsentinel₂])
  refine ⟨s₃, ?_, by rwa [hsentinel₃, hsentinel₂], fun page => ?_⟩
  · simp [mremapHook, hs₁, hs₂, hs₃]
  -- The rounded old size is no larger than the old size.
  · have hle : roundedLength old_size / METALLOC_PAGESIZE ≤ old_size / METALLOC_PAGESIZE := by
      obtain ⟨c, rfl⟩ := hold
      simp only [roundedLength, METALLOC_PAGESIZE, METALLOC_PAGESHIFT]
      omega
    rw [htable₃, hsentinel₃, htable₂, withSentinel_pageTable, htable₁]
    congr 1
    by_cases hin : InRange (old_addr / METALLOC_PAGESIZE)
        (roundedLength old_size / METALLOC_PAGESIZE) page
    · have hfull : InRange (old_addr / METALLOC_PAGESIZE) (old_size / METALLOC_PAGESIZE) page :=
        ⟨hin.1, Nat.lt_of_lt_of_le hin.2 (Nat.add_le_add_left hle _)⟩
      rw [if_pos hin, if_pos hfull]
    · rw [if_neg hin]

theorem mirrors_of_table {call : HookedCall} (h : ∀ page, s'.pageTable page =
      if call.maps page then sentinelEntry s'.metalloc_sentinel
      else if call.leaves page then 0 else s.pageTable page) : s.Mirrors call s' where
  mapped page hmaps := by rw [h, if_pos hmaps]
  left page hmaps hleaves := by rw [h, hmaps, if_neg Bool.false_ne_true, if_pos hleaves]
  other page hmaps hleaves := by
    rw [h, hmaps, hleaves, if_neg Bool.false_ne_true, if_neg Bool.false_ne_true]

theorem roundedLength_of_lt {start length : Nat} (h : UserRange start length)
    (hlt : alignTo length METALLOC_PAGESIZE < 2 ^ 32) :
    roundedLength length = alignTo length METALLOC_PAGESIZE := by
  rw [h.roundedLength_eq, Nat.mod_eq_of_lt hlt]

/-- The hooks of `mmap64` and `mmap` mirror a short mapping. -/
theorem mapHook_mirrors {call : HookedCall} {length result : Nat} (hs : s.metalloc_sentinel < 2 ^ 47)
    (hr : UserRange result length) (hu : UserPage sentinel)
    (hshort : alignTo length METALLOC_PAGESIZE < 2 ^ 32)
    (hmaps : ∀ page, call.maps page = decide (InPages result length page))
    (hleaves : ∀ page, call.leaves page = false) :
    ∃ s', s.mapHook length result sentinel = some s' ∧ s.Mirrors call s' ∧
      s'.metalloc_sentinel < 2 ^ 47 := by
  obtain ⟨s', hs', hsentinel, htable⟩ := mapHook_eq hs hu length result
  refine ⟨s', hs', mirrors_of_table fun page => ?_, hsentinel⟩
  rw [htable, roundedLength_of_lt hr hshort]
  simp only [hmaps, hleaves, decide_eq_true_eq, Bool.false_eq_true, if_false]
  rfl

/-- A short call is mirrored. -/
theorem hook_mirrors {call : HookedCall} (hs : s.metalloc_sentinel < 2 ^ 47) (h : call.Succeeds)
    (hshort : call.Short) :
    ∃ s', s.hook call = some s' ∧ s.Mirrors call s' ∧ s'.metalloc_sentinel < 2 ^ 47 := by
  cases call with
  | mmap64 length result sentinel =>
    exact mapHook_mirrors hs h.1 h.2 hshort (fun _ => rfl) fun _ => rfl
  | mmap length result sentinel =>
    exact mapHook_mirrors hs h.1 h.2 hshort (fun _ => rfl) fun _ => rfl
  | munmap start length =>
    obtain ⟨s', hs', hsentinel, htable⟩ := s.munmapHook_eq start length
    refine ⟨s', hs', mirrors_of_table fun page => ?_, by rwa [hsentinel]⟩
    rw [htable, roundedLength_of_lt h hshort]
    simp only [HookedCall.maps, HookedCall.leaves, decide_eq_true_eq, Bool.false_eq_true, if_false]
    rfl
  | mremap old_addr old_size new_size result sentinel =>
    obtain ⟨hold, hnew, hu⟩ := h
    obtain ⟨s', hs', hsentinel, htable⟩ := mremapHook_eq hs hu hshort.1 old_addr new_size result
    refine ⟨s', hs', mirrors_of_table fun page => ?_, hsentinel⟩
    have hsize : old_size / METALLOC_PAGESIZE =
        alignTo old_size METALLOC_PAGESIZE / METALLOC_PAGESIZE := by
      rw [alignTo_of_dvd (by decide) hshort.1]
    rw [htable, roundedLength_of_lt hnew hshort.2, hsize]
    simp only [HookedCall.maps, HookedCall.leaves, decide_eq_true_eq]
    rfl

end MirrorState

/-- A range too long for `unsigned int` is not registered up to its last page. -/
theorem UserRange.exists_missed {start length : Nat} (h : UserRange start length)
    (hlong : ¬ alignTo length METALLOC_PAGESIZE < 2 ^ 32) :
    ∃ page, InPages start length page ∧
      ¬ InRange (start / METALLOC_PAGESIZE) (roundedLength length / METALLOC_PAGESIZE) page := by
  refine ⟨start / METALLOC_PAGESIZE + alignTo length METALLOC_PAGESIZE / METALLOC_PAGESIZE - 1,
    ?_, ?_⟩
  · have hpos := alignTo_pos h.2.1
    have hdvd := dvd_alignTo length METALLOC_PAGESIZE
    simp only [InPages, InRange, METALLOC_PAGESIZE, METALLOC_PAGESHIFT] at *
    omega
  · have hdvd := dvd_roundedLength length
    rw [h.roundedLength_eq] at hdvd ⊢
    simp only [InRange, METALLOC_PAGESIZE, METALLOC_PAGESHIFT] at *
    omega

theorem sentinelEntry_ne (sentinel : Nat) :
    sentinelEntry sentinel ≠ 0 ∧ sentinelEntry sentinel ≠ 1 := by
  have hbit : (sentinelEntry sentinel).testBit 1 = true := by
    rw [sentinelEntry, Nat.testBit_or, (by decide : Nat.testBit 63 1 = true), Bool.or_true]
  constructor
  · intro h
    rw [h] at hbit
    exact absurd hbit (by decide)
  · intro h
    rw [h] at hbit
    exact absurd hbit (by decide)

/-- The hooks carry out the calls, from any page table, and mirror each of them. -/
def Mirrored (calls : List HookedCall) : Prop :=
  ∀ pageTable front call, front ++ [call] <+: calls → ∃ s s',
    exec MirrorState.hook (.initial pageTable) front = some s ∧ s.hook call = some s' ∧
      s.Mirrors call s'

/-- A mapping that is not short has a page without the sentinel entry, in a table of ones. -/
theorem exists_unmapped {s' : MirrorState} {length result sentinel : Nat}
    (hr : UserRange result length) (hu : UserPage sentinel)
    (hlong : ¬ alignTo length METALLOC_PAGESIZE < 2 ^ 32)
    (hhook : (MirrorState.initial fun _ => 1).mapHook length result sentinel = some s') :
    ∃ page, InPages result length page ∧
      s'.pageTable page ≠ sentinelEntry s'.metalloc_sentinel := by
  have hlt : (MirrorState.initial fun _ => 1).metalloc_sentinel < 2 ^ 47 := by decide
  obtain ⟨t, ht, -, htable⟩ := MirrorState.mapHook_eq hlt hu length result
  obtain rfl := Option.some.inj (ht.symm.trans hhook)
  obtain ⟨page, hin, hout⟩ := hr.exists_missed hlong
  refine ⟨page, hin, fun hmapped => ?_⟩
  have hentry := hmapped.symm.trans (htable page)
  rw [if_neg hout] at hentry
  exact (sentinelEntry_ne _).2 hentry

/-- The call alone is mirrored only if it is short: no page of the table that is taken here has the
entry that it should get. -/
theorem short_of_mirrored {call : HookedCall} (h : call.Succeeds) (hm : Mirrored [call]) :
    call.Short := by
  obtain ⟨s, s', hs, hs', hmirrors⟩ := hm (fun _ => 1) [] call List.prefix_rfl
  cases hs
  by_contra hlong
  cases call with
  | mmap64 length result sentinel =>
    obtain ⟨page, hin, hne⟩ := exists_unmapped h.1 h.2 hlong hs'
    exact hne (hmirrors.mapped page (decide_eq_true hin))
  | mmap length result sentinel =>
    obtain ⟨page, hin, hne⟩ := exists_unmapped h.1 h.2 hlong hs'
    exact hne (hmirrors.mapped page (decide_eq_true hin))
  | munmap start length =>
    obtain ⟨t, ht, -, htable⟩ := MirrorState.munmapHook_eq (s := .initial fun _ => 1) start length
    obtain rfl := Option.some.inj (ht.symm.trans hs')
    obtain ⟨page, hin, hout⟩ := h.exists_missed hlong
    have hentry := (hmirrors.left page rfl (decide_eq_true hin)).symm.trans (htable page)
    rw [if_neg hout] at hentry
    cases hentry
  | mremap old_addr old_size new_size result sentinel =>
    obtain ⟨-, hnew, hu⟩ := h
    have hlt : (MirrorState.initial fun _ => 1).metalloc_sentinel < 2 ^ 47 := by decide
    have hne := sentinelEntry_ne s'.metalloc_sentinel
    by_cases hold : METALLOC_PAGESIZE ∣ old_size
    · obtain ⟨t, ht, -, htable⟩ := MirrorState.mremapHook_eq hlt hu hold old_addr new_size result
      obtain rfl := Option.some.inj (ht.symm.trans hs')
      obtain ⟨page, hin, hout⟩ := hnew.exists_missed fun hshort => hlong ⟨hold, hshort⟩
      have hentry := (hmirrors.mapped page (decide_eq_true hin)).symm.trans (htable page)
      rw [if_neg hout] at hentry
      split at hentry
      · exact hne.1 hentry
      · exact hne.2 hentry
    · rw [MirrorState.hook, MirrorState.mremapHook_none hold] at hs'
      cases hs'

theorem exec_hooks {s : MirrorState} {calls : List HookedCall} (hs : s.metalloc_sentinel < 2 ^ 47)
    (h : ∀ call ∈ calls, call.Succeeds ∧ call.Short) :
    ∃ s', exec MirrorState.hook s calls = some s' ∧ s'.metalloc_sentinel < 2 ^ 47 := by
  induction calls generalizing s with
  | nil => exact ⟨s, rfl, hs⟩
  | cons call calls ih =>
    obtain ⟨hcall, hrest⟩ := List.forall_mem_cons.mp h
    obtain ⟨t, ht, -, hsentinel⟩ := MirrorState.hook_mirrors hs hcall.1 hcall.2
    obtain ⟨s', hs', hlt⟩ := ih hsentinel hrest
    exact ⟨s', by rw [exec_cons, ht, Option.bind_some, hs'], hlt⟩

/-- Short calls are mirrored one after the other, and a call that is not short is not. -/
theorem mirrored_of_short {calls : List HookedCall} (hsucceed : ∀ call ∈ calls, call.Succeeds) :
    ((∀ call ∈ calls, call.Short) → Mirrored calls) ∧
      ∀ call ∈ calls, ¬ call.Short → ¬ Mirrored [call] := by
  refine ⟨fun hshort pageTable front call hfront => ?_, fun call hcall hlong hm =>
    hlong (short_of_mirrored (hsucceed call hcall) hm)⟩
  have hmem (c : HookedCall) (hc : c ∈ front ++ [call]) : c.Succeeds ∧ c.Short :=
    ⟨hsucceed c (hfront.subset hc), hshort c (hfront.subset hc)⟩
  obtain ⟨s, hs, hsentinel⟩ : ∃ s, exec MirrorState.hook (.initial pageTable) front = some s ∧
      s.metalloc_sentinel < 2 ^ 47 :=
    exec_hooks (show 0 < 2 ^ 47 by decide) fun c hc => hmem c (List.mem_append_left _ hc)
  have hcall := hmem call (by simp)
  obtain ⟨s', hs', hmirrors, -⟩ := MirrorState.hook_mirrors hsentinel hcall.1 hcall.2
  exact ⟨s, s', hs, hs', hmirrors⟩

/-- A mapping, its growth by a move, and its end. -/
theorem mirrored_of_mremap :
    Mirrored [.mmap 0x2345 0x10000 0x8000, .mremap 0x10000 0x3000 0x4001 0x20000 0x9000,
      .munmap 0x20000 0x4001] := by
  refine (mirrored_of_short fun call hcall => ?_).1 fun call hcall => ?_
  · simp only [List.mem_cons, List.not_mem_nil, or_false] at hcall
    rcases hcall with rfl | rfl | rfl <;>
      simp only [HookedCall.Succeeds, UserRange, UserPage] <;> decide
  · simp only [List.mem_cons, List.not_mem_nil, or_false] at hcall
    rcases hcall with rfl | rfl | rfl <;> simp only [HookedCall.Short] <;> decide

/-- A mapping of 4 GiB gets no entry. -/
theorem mirrored_fails :
    ¬ ∀ calls : List HookedCall, (∀ call ∈ calls, call.Succeeds) → Mirrored calls := by
  intro hall
  have hsucceeds : (HookedCall.mmap (2 ^ 32) 0x10000 0x8000).Succeeds := by
    simp only [HookedCall.Succeeds, UserRange, UserPage]
    decide
  have hm := hall [.mmap (2 ^ 32) 0x10000 0x8000] fun call hcall => by
    rwa [List.mem_singleton.mp hcall]
  exact absurd (short_of_mirrored hsucceeds hm) (by simp only [HookedCall.Short]; decide)

end TypeSan
