import TypeSan.Library.Checked
import TypeSan.SbrkHook

/-! The hooks after system calls that failed. -/
namespace TypeSan

open Checked PageMap Rounding

/-- `MAP_FAILED`, and the result of a failing `sbrk`; `munmap` returns the same as an `int`. -/
def MAP_FAILED : Nat := 2 ^ 64 - 1

/-- A call that the system does not carry out. Where a hook maps the sentinel page, `sentinel` is
what the system returns for that. -/
inductive FailedCall where
  | mmap64 (length sentinel : Nat)
  | mmap (length sentinel : Nat)
  | munmap (start length : Nat)
  | mremap (old_addr old_size new_size sentinel : Nat)
  | sbrk (increment : Int) (sentinel : Nat)
  deriving DecidableEq

/-- How a hook goes wrong: the process ends, or a store goes past the page table. -/
inductive HookFault where
  | exit
  | pastTable
  deriving DecidableEq

namespace MirrorState

/-- `set_metapagetable_entries`, with each store's address looked at. -/
def storeEntries (s : MirrorState) (ptr size metaptr alignment : Nat) :
    Except HookFault MirrorState :=
  match s.setEntries ptr size metaptr alignment with
  | none => .error .exit
  | some s' =>
    if ∀ i < size / METALLOC_PAGESIZE, ptr / METALLOC_PAGESIZE + i < PAGETABLESIZE then .ok s'
    else .error .pastTable

/-- The end of the `mmap64`, `mmap` and `sbrk` hooks, with what they return. -/
def failedMap (s : MirrorState) (rounded_length sentinel : Nat) :
    Except HookFault (MirrorState × Nat) := do
  let s := s.withSentinel sentinel
  let s ← s.storeEntries MAP_FAILED rounded_length s.metalloc_sentinel 63
  return (s, MAP_FAILED)

/-- The end of the `munmap` hook. -/
def failedMunmap (s : MirrorState) (start length : Nat) : Except HookFault (MirrorState × Nat) := do
  let s ← s.storeEntries start (roundedLength length) 0 0
  return (s, MAP_FAILED)

/-- The end of the `mremap` hook. -/
def failedMremap (s : MirrorState) (old_addr old_size new_size sentinel : Nat) :
    Except HookFault (MirrorState × Nat) := do
  let s ← s.storeEntries old_addr old_size 0 0
  let s := s.withSentinel sentinel
  let s ← s.storeEntries old_addr (roundedLength old_size) 0 0
  let s ← s.storeEntries MAP_FAILED (roundedLength new_size) s.metalloc_sentinel 63
  return (s, MAP_FAILED)

/-- The end of a hook whose system call has failed. -/
def failedHook (s : MirrorState) : FailedCall → Except HookFault (MirrorState × Nat)
  | .mmap64 length sentinel => s.failedMap (roundedLength length) sentinel
  | .mmap length sentinel => s.failedMap (roundedLength length) sentinel
  | .munmap start length => s.failedMunmap start length
  | .mremap old_addr old_size new_size sentinel =>
    s.failedMremap old_addr old_size new_size sentinel
  | .sbrk increment sentinel => s.failedMap (sbrkLength increment) sentinel

/-- The hooks of successful calls, with the result of a failing one. -/
def hookFailed (s : MirrorState) : FailedCall → Option MirrorState
  | .mmap64 length sentinel => s.mapHook length MAP_FAILED sentinel
  | .mmap length sentinel => s.mapHook length MAP_FAILED sentinel
  | .munmap start length => s.munmapHook start length
  | .mremap old_addr old_size new_size sentinel =>
    s.mremapHook old_addr old_size new_size MAP_FAILED sentinel
  | .sbrk increment sentinel => s.sbrkHook increment MAP_FAILED sentinel

end MirrorState

namespace FailedCall

/-- The hook returns the failure, every entry keeps its value, and no store goes past the table. -/
def Ignored (s : MirrorState) (call : FailedCall) : Prop :=
  ∃ s', s.failedHook call = .ok (s', MAP_FAILED) ∧ s'.pageTable = s.pageTable

/-- The pages have entries, and these are 0. -/
def Clear (pageTable : PageTable) (first count : Nat) : Prop :=
  ∀ i < count, first + i < PAGETABLESIZE ∧ pageTable (first + i) = 0

/-- The length of the range is one of whole 4 GiB, which an `unsigned int` does not hold, or 0; a
range that is cleared has been clear before. -/
def Harmless (pageTable : PageTable) : FailedCall → Prop
  | .mmap64 length _ => 2 ^ 32 ∣ alignTo length METALLOC_PAGESIZE
  | .mmap length _ => 2 ^ 32 ∣ alignTo length METALLOC_PAGESIZE
  | .munmap start length => Clear pageTable (start / METALLOC_PAGESIZE)
      (alignTo length METALLOC_PAGESIZE / METALLOC_PAGESIZE % 2 ^ 20)
  | .mremap old_addr old_size new_size _ =>
    METALLOC_PAGESIZE ∣ old_size ∧
      Clear pageTable (old_addr / METALLOC_PAGESIZE) (old_size / METALLOC_PAGESIZE) ∧
      2 ^ 32 ∣ alignTo new_size METALLOC_PAGESIZE
  | .sbrk increment _ =>
    if 0 ≤ increment then 2 ^ 32 ∣ alignTo increment.toNat METALLOC_PAGESIZE
    else 2 ^ 20 ∣ ((-increment).toNat - (METALLOC_PAGESIZE - 1)) / METALLOC_PAGESIZE

end FailedCall

/-! The stores. -/

/-- A length is rounded up to pages, and cut to 32 bits. -/
theorem roundedLength_div (length : Nat) : roundedLength length / METALLOC_PAGESIZE =
    alignTo length METALLOC_PAGESIZE / METALLOC_PAGESIZE % 2 ^ 20 := by
  simp only [roundedLength, alignTo, METALLOC_PAGESIZE, METALLOC_PAGESHIFT]
  omega

theorem roundedLength_div_eq_zero (length : Nat) :
    roundedLength length / METALLOC_PAGESIZE = 0 ↔ 2 ^ 32 ∣ alignTo length METALLOC_PAGESIZE := by
  rw [roundedLength_div]
  have hdvd := dvd_alignTo length METALLOC_PAGESIZE
  simp only [METALLOC_PAGESIZE, METALLOC_PAGESHIFT] at *
  omega

theorem sbrkLength_div_eq_zero (increment : Int) :
    sbrkLength increment / METALLOC_PAGESIZE = 0 ↔
      if 0 ≤ increment then 2 ^ 32 ∣ alignTo increment.toNat METALLOC_PAGESIZE
      else 2 ^ 20 ∣ ((-increment).toNat - (METALLOC_PAGESIZE - 1)) / METALLOC_PAGESIZE := by
  split
  · rename_i hgrow
    obtain ⟨n, rfl⟩ := Int.eq_ofNat_of_zero_le hgrow
    rw [sbrkLength_grow, Int.toNat_natCast]
    simp only [granules, alignTo, METALLOC_PAGESIZE, METALLOC_PAGESHIFT]
    omega
  · rename_i hshrink
    obtain ⟨n, hn⟩ := Int.eq_ofNat_of_zero_le (show 0 ≤ -increment by omega)
    obtain rfl : increment = -n := by omega
    rw [sbrkLength_shrink, hn, Int.toNat_natCast]
    omega

namespace MirrorState

variable {s s' : MirrorState}

theorem storeEntries_ok_iff {ptr size metaptr alignment : Nat} :
    s.storeEntries ptr size metaptr alignment = .ok s' ↔
      s.setEntries ptr size metaptr alignment = some s' ∧
        ∀ i < size / METALLOC_PAGESIZE, ptr / METALLOC_PAGESIZE + i < PAGETABLESIZE := by
  unfold storeEntries
  cases s.setEntries ptr size metaptr alignment with
  | none => simp
  | some t =>
    simp only [Option.some.injEq]
    constructor
    · intro h
      split at h
      · rename_i hin
        exact ⟨Except.ok.inj h, hin⟩
      · cases h
    · rintro ⟨rfl, hin⟩
      rw [if_pos hin]

/-- Looking at the addresses is all that is new: a hook that gets to its end does what it does after
any call. -/
theorem hookFailed_of_failedHook {call : FailedCall} {result : Nat}
    (h : s.failedHook call = .ok (s', result)) : s.hookFailed call = some s' := by
  have hmap {size sentinel : Nat} (h : s.failedMap size sentinel = .ok (s', result)) :
      (s.withSentinel sentinel).setEntries MAP_FAILED size
        (s.withSentinel sentinel).metalloc_sentinel 63 = some s' := by
    obtain ⟨t, ht, hs'⟩ := bind_ok_iff.mp h
    cases hs'
    exact (storeEntries_ok_iff.mp ht).1
  cases call with
  | mmap64 length sentinel => exact hmap h
  | mmap length sentinel => exact hmap h
  | munmap start length =>
    obtain ⟨t, ht, hs'⟩ := bind_ok_iff.mp h
    cases hs'
    exact (storeEntries_ok_iff.mp ht).1
  | mremap old_addr old_size new_size sentinel =>
    simp only [failedHook, failedMremap, bind_ok_iff] at h
    obtain ⟨t, ht, u, hu, v, hv, hs'⟩ := h
    cases hs'
    simp only [hookFailed, mremapHook, (storeEntries_ok_iff.mp ht).1,
      (storeEntries_ok_iff.mp hu).1, Option.bind_eq_bind, Option.bind_some]
    exact (storeEntries_ok_iff.mp hv).1
  | sbrk increment sentinel => exact hmap h

/-- At the address of a failure, only a range of no pages is stored. -/
theorem storeEntries_failed {size : Nat} (metaptr alignment : Nat) (h : METALLOC_PAGESIZE ∣ size) :
    s.storeEntries MAP_FAILED size metaptr alignment = .ok s' ↔
      size / METALLOC_PAGESIZE = 0 ∧ s' = s := by
  rw [storeEntries_ok_iff, setEntries_eq metaptr alignment h]
  constructor
  · rintro ⟨hs', hin⟩
    have hnone : size / METALLOC_PAGESIZE = 0 := by
      by_contra hsome
      exact absurd (hin 0 (Nat.pos_of_ne_zero hsome)) (by decide)
    rw [hnone] at hs'
    exact ⟨hnone, (Option.some.inj hs').symm⟩
  · rintro ⟨hnone, rfl⟩
    rw [hnone]
    exact ⟨rfl, fun i hi => absurd hi (Nat.not_lt_zero i)⟩

theorem eq_of_fields (hsentinel : s'.metalloc_sentinel = s.metalloc_sentinel)
    (htable : s'.pageTable = s.pageTable) : s' = s := by
  cases s
  cases s'
  simp_all

/-- Clearing a range changes nothing if it is clear. -/
theorem storeEntries_clear {ptr size : Nat} (h : METALLOC_PAGESIZE ∣ size) :
    s.storeEntries ptr size 0 0 = .ok s' ∧ s'.pageTable = s.pageTable ↔
      FailedCall.Clear s.pageTable (ptr / METALLOC_PAGESIZE) (size / METALLOC_PAGESIZE) ∧ s' = s := by
  obtain ⟨t, ht, hsentinel, hpages⟩ := s.setEntries_clear ptr h
  rw [storeEntries_ok_iff, ht]
  constructor
  · rintro ⟨⟨hs', hin⟩, htable⟩
    obtain rfl := Option.some.inj hs'
    refine ⟨?_, eq_of_fields hsentinel htable⟩
    intro i hi
    refine ⟨hin i hi, ?_⟩
    rw [← htable, hpages, if_pos ⟨Nat.le_add_right _ i, Nat.add_lt_add_left hi _⟩]
  · rintro ⟨hclear, rfl⟩
    have htable : t.pageTable = s'.pageTable := by
      funext page
      rw [hpages]
      split
      · rename_i hpage
        have hzero := (hclear (page - ptr / METALLOC_PAGESIZE) (by
          have := hpage.1
          have := hpage.2
          omega)).2
        rw [Nat.add_sub_cancel' hpage.1] at hzero
        exact hzero.symm
      · rfl
    rw [eq_of_fields hsentinel htable]
    exact ⟨⟨rfl, fun i hi => (hclear i hi).1⟩, rfl⟩

theorem failedMap_ok_iff {size sentinel : Nat} (h : METALLOC_PAGESIZE ∣ size) :
    s.failedMap size sentinel = .ok (s', MAP_FAILED) ↔
      size / METALLOC_PAGESIZE = 0 ∧ s' = s.withSentinel sentinel := by
  rw [failedMap, bind_ok_iff]
  constructor
  · rintro ⟨t, ht, hs'⟩
    cases hs'
    exact (storeEntries_failed _ 63 h).mp ht
  · rintro ⟨hnone, rfl⟩
    exact ⟨_, (storeEntries_failed _ 63 h).mpr ⟨hnone, rfl⟩, rfl⟩

theorem failedMunmap_ok_iff {start length : Nat} :
    s.failedMunmap start length = .ok (s', MAP_FAILED) ↔
      s.storeEntries start (roundedLength length) 0 0 = .ok s' := by
  rw [failedMunmap, bind_ok_iff]
  constructor
  · rintro ⟨t, ht, hs'⟩
    cases hs'
    exact ht
  · intro hs'
    exact ⟨s', hs', rfl⟩

/-- The second clearing of the old range finds it clear. -/
theorem storeEntries_again {ptr size sentinel : Nat} (h : METALLOC_PAGESIZE ∣ size)
    (hs' : s.storeEntries ptr size 0 0 = .ok s') :
    (s'.withSentinel sentinel).storeEntries ptr (roundedLength size) 0 0 =
      .ok (s'.withSentinel sentinel) := by
  obtain ⟨t, ht, -, hpages⟩ := s.setEntries_clear ptr h
  obtain ⟨hset, hin⟩ := storeEntries_ok_iff.mp hs'
  obtain rfl := Option.some.inj (ht.symm.trans hset)
  have hle : roundedLength size / METALLOC_PAGESIZE ≤ size / METALLOC_PAGESIZE := by
    rw [roundedLength_div, alignTo_of_dvd (by decide) h]
    exact Nat.mod_le _ _
  refine ((storeEntries_clear (dvd_roundedLength size)).mpr ⟨?_, rfl⟩).1
  intro i hi
  have hi' := Nat.lt_of_lt_of_le hi hle
  refine ⟨hin i hi', ?_⟩
  rw [withSentinel_pageTable, hpages, if_pos ⟨Nat.le_add_right _ i, Nat.add_lt_add_left hi' _⟩]

theorem failedMremap_ok_iff {old_addr old_size new_size sentinel : Nat} :
    s.failedMremap old_addr old_size new_size sentinel = .ok (s', MAP_FAILED) ↔
      METALLOC_PAGESIZE ∣ old_size ∧ roundedLength new_size / METALLOC_PAGESIZE = 0 ∧
        ∃ t, s.storeEntries old_addr old_size 0 0 = .ok t ∧ s' = t.withSentinel sentinel := by
  simp only [failedMremap, bind_ok_iff]
  constructor
  · rintro ⟨t, ht, u, hu, v, hv, hs'⟩
    have hdvd := by_contra fun hodd : ¬ METALLOC_PAGESIZE ∣ old_size => by
      have hset := (storeEntries_ok_iff.mp ht).1
      rw [setEntries, setMetapagetableEntries,
        if_pos fun hmod => hodd (Nat.dvd_of_mod_eq_zero hmod)] at hset
      cases hset
    obtain rfl := Except.ok.inj ((storeEntries_again hdvd ht).symm.trans hu)
    cases hs'
    obtain ⟨hnone, rfl⟩ := (storeEntries_failed _ 63 (dvd_roundedLength new_size)).mp hv
    exact ⟨hdvd, hnone, t, ht, rfl⟩
  · rintro ⟨hdvd, hnone, t, ht, rfl⟩
    exact ⟨t, ht, _, storeEntries_again hdvd ht, _,
      (storeEntries_failed _ 63 (dvd_roundedLength new_size)).mpr ⟨hnone, rfl⟩, rfl⟩

end MirrorState

namespace FailedCall

open MirrorState

variable {s : MirrorState}

theorem ignored_failedMap {size sentinel : Nat} (h : METALLOC_PAGESIZE ∣ size) :
    (∃ s', s.failedMap size sentinel = .ok (s', MAP_FAILED) ∧ s'.pageTable = s.pageTable) ↔
      size / METALLOC_PAGESIZE = 0 := by
  constructor
  · rintro ⟨s', hs', -⟩
    exact ((failedMap_ok_iff h).mp hs').1
  · intro hnone
    exact ⟨_, (failedMap_ok_iff h).mpr ⟨hnone, rfl⟩, withSentinel_pageTable⟩

/-- A failed call is ignored only where its ranges have no pages, or pages that were clear. -/
theorem ignored_iff (s : MirrorState) (call : FailedCall) :
    call.Ignored s ↔ call.Harmless s.pageTable := by
  cases call with
  | mmap64 length sentinel =>
    exact (ignored_failedMap (dvd_roundedLength length)).trans (roundedLength_div_eq_zero length)
  | mmap length sentinel =>
    exact (ignored_failedMap (dvd_roundedLength length)).trans (roundedLength_div_eq_zero length)
  | munmap start length =>
    rw [Harmless, ← roundedLength_div]
    constructor
    · rintro ⟨s', hs', htable⟩
      exact ((storeEntries_clear (dvd_roundedLength length)).mp
        ⟨failedMunmap_ok_iff.mp hs', htable⟩).1
    · intro hclear
      have hs := (storeEntries_clear (dvd_roundedLength length)).mpr ⟨hclear, rfl⟩
      exact ⟨s, failedMunmap_ok_iff.mpr hs.1, rfl⟩
  | mremap old_addr old_size new_size sentinel =>
    rw [Harmless, ← roundedLength_div_eq_zero]
    constructor
    · rintro ⟨s', hs', htable⟩
      obtain ⟨hdvd, hnone, t, ht, rfl⟩ := failedMremap_ok_iff.mp hs'
      rw [withSentinel_pageTable] at htable
      exact ⟨hdvd, ((storeEntries_clear hdvd).mp ⟨ht, htable⟩).1, hnone⟩
    · rintro ⟨hdvd, hclear, hnone⟩
      have hs := (storeEntries_clear hdvd).mpr ⟨hclear, rfl⟩
      exact ⟨_, failedMremap_ok_iff.mpr ⟨hdvd, hnone, s, hs.1, rfl⟩, withSentinel_pageTable⟩
  | sbrk increment sentinel =>
    exact (ignored_failedMap (dvd_sbrkLength increment)).trans (sbrkLength_div_eq_zero increment)

/-- A failing `mmap` of one page stores an entry for the last page of the 64-bit address space. -/
theorem ignored_fails : ¬ ∀ (s : MirrorState) (call : FailedCall), call.Ignored s := by
  intro hall
  exact absurd ((ignored_iff (.initial fun _ => 0) (.mmap 0x1000 0x8000)).mp (hall _ _)) (by
    rw [Harmless]
    decide)

end FailedCall

end TypeSan
