import TypeSan.StackSafety

/-! The creation of a tracked stack as its two callers make it: which sizes work, and what is left
behind where the thread is not created. -/
namespace TypeSan

open PageMap Rounding Runs

/-- `kDefaultTrackedStackSize` -/
def kDefaultTrackedStackSize : Nat := 0x2800000

/-- The pages that the kernel finds for a stack and for its metadata. -/
structure StackPages where
  stack : Nat
  metadata : Nat
  deriving DecidableEq

namespace StackState

/-- `unsafe_stack_alloc` -/
def unsafeStackAlloc (s : StackState) (i : Nat) (pages : StackPages) (size guard : Nat) :
    Option StackState :=
  if 2 ^ 64 ≤ size + guard then none
  else do
    let s ← s.mmap pages.stack (size + guard) (.stack i)
    let s := s.setThread i ⟨.stackMapped, pages.stack * SYSTEM_PAGESIZE + guard, size, guard, 0⟩
    let s ← s.mapMetadata i pages.metadata
    s.writeEntries i

/-- `unsafe_stack_setup`, in the thread that is to use the stack. -/
def unsafeStackSetup (s : StackState) (i : Nat) : Option StackState :=
  let t := s.threads i
  if t.unsafeStackStart + t.unsafeStackSize < 2 ^ 64 ∧ t.unsafeStackStart + t.unsafeStackGuard < 2 ^ 64 ∧
      (t.unsafeStackStart + t.unsafeStackSize) &&& (2 ^ kMetaStackAlignBits - 1) = 0 then some s
  else none

end StackState

/-- What `pthread_create` checks of the attributes. -/
def ChecksPass (size guard : Nat) : Prop :=
  size ≠ 0 ∧ size &&& (2 ^ kMetaStackAlignBits - 1) = 0 ∧ guard % SYSTEM_PAGESIZE = 0

instance (size guard : Nat) : Decidable (ChecksPass size guard) :=
  inferInstanceAs (Decidable (_ ∧ _ ∧ _))

/-- A call of `pthread_create` for the thread `thread`: the sizes of its attributes, the pages that
the kernel chooses, and what the real function returns. -/
structure CreateCall where
  thread : Nat
  size : Nat
  guard : Nat
  pages : StackPages
  result : Nat
  deriving DecidableEq

/-- The interceptor of `pthread_create`, and what it returns. -/
def StackState.pthreadCreate (s : StackState) (call : CreateCall) : Option (StackState × Nat) :=
  if ChecksPass call.size call.guard then
    (s.unsafeStackAlloc call.thread call.pages call.size call.guard).map fun s => (s, call.result)
  else none

/-- Who asks for a tracked stack. The main thread has a limit unless it cannot be read or is
infinite. -/
inductive StackCaller where
  | pthreadCreate (size guard : Nat)
  | metastackInit (rlimit : Option Nat)
  deriving DecidableEq

namespace StackCaller

def size : StackCaller → Nat
  | .pthreadCreate size _ => size
  | .metastackInit rlimit => rlimit.getD kDefaultTrackedStackSize

def guard : StackCaller → Nat
  | .pthreadCreate _ guard => guard
  | .metastackInit _ => 4096

/-- The checks of `pthread_create` let the sizes pass, and those of `unsafe_stack_setup`. -/
def Accepted (r : StackCaller) : Prop :=
  r.size + r.guard < 2 ^ 64 ∧
    match r with
    | .pthreadCreate size guard => ChecksPass size guard
    | .metastackInit _ => 2 ^ kMetaStackAlignBits ∣ r.size

/-- The allocation of the stack and its setup, by `pthread_create` with `thread_start`, and by
`__metastack_init`. -/
def serve (s : StackState) (i : Nat) (pages : StackPages) : StackCaller → Option StackState
  | .pthreadCreate size guard => do
    let (s, _) ← s.pthreadCreate ⟨i, size, guard, pages, 0⟩
    s.unsafeStackSetup i
  | .metastackInit rlimit => do
    let s ← s.unsafeStackAlloc i pages (rlimit.getD kDefaultTrackedStackSize) 4096
    s.unsafeStackSetup i

end StackCaller

/-- The number of pages of a mapping. -/
def pagesOf (bytes : Nat) : Nat := (bytes + SYSTEM_PAGESIZE - 1) / SYSTEM_PAGESIZE

namespace StackState

/-- The pages are free, and in user space. -/
def HasRoom (s : StackState) (page bytes : Nat) : Prop :=
  page ≠ 0 ∧ (page + pagesOf bytes) * SYSTEM_PAGESIZE ≤ 2 ^ 47 ∧
    ∀ j < pagesOf bytes, s.space (page + j) = none

/-- The kernel has room for a stack and for its metadata. -/
structure Grants (s : StackState) (pages : StackPages) (size guard : Nat) : Prop where
  stack : s.HasRoom pages.stack (size + guard)
  metadata : s.HasRoom pages.metadata (metadataSize size kMetaStackAlignBits)
  apart : ∀ page, InRange pages.stack (pagesOf (size + guard)) page →
    ¬ InRange pages.metadata (pagesOf (metadataSize size kMetaStackAlignBits)) page

/-- Every page of the thread's stack has an entry for granules of 64 bytes, and the slot of each
address lies in the thread's metadata block, which is mapped. -/
structure Tracks (s : StackState) (i : Nat) : Prop where
  exponent : ∀ x, (s.threads i).unsafeStackStart ≤ x →
    x < (s.threads i).unsafeStackStart + (s.threads i).unsafeStackSize →
    s.pageTable (x / METALLOC_PAGESIZE) &&& 0xFF = kMetaStackAlignBits
  covered : ∀ x, (s.threads i).unsafeStackStart ≤ x →
    x < (s.threads i).unsafeStackStart + (s.threads i).unsafeStackSize →
    (s.threads i).metadata ≤ metadataPtr s.pageTable x ∧
      metadataPtr s.pageTable x + 16 ≤ (s.threads i).metadata + (s.threads i).metadataBytes
  mapped : Owns s.space (s.threads i).metadataPage (s.threads i).metadataPages (.metadata i)

end StackState

/-- The caller is served without an end of the process, with a stack of the size asked for. -/
def StackCaller.Works (s : StackState) (i : Nat) (pages : StackPages) (r : StackCaller) : Prop :=
  ∃ s', r.serve s i pages = some s' ∧ (s'.threads i).unsafeStackSize = r.size ∧ s'.Tracks i

namespace StackState

variable {s s' : StackState} {i : Nat} {pages : StackPages} {size guard : Nat}

/-- The thread once it has its stack. -/
def allocated (pages : StackPages) (size guard : Nat) : StackThread :=
  ⟨.live, pages.stack * SYSTEM_PAGESIZE + guard, size, guard, pages.metadata * SYSTEM_PAGESIZE⟩

/-- What has been done where a stack is allocated. -/
structure Allocated (s : StackState) (i : Nat) (pages : StackPages) (size guard : Nat)
    (s' : StackState) : Prop where
  size_page : METALLOC_PAGESIZE ∣ size
  size_ne : size ≠ 0
  metadata_ne : pages.metadata ≠ 0
  metadata_end :
    (pages.metadata + pagesOf (metadataSize size kMetaStackAlignBits)) * SYSTEM_PAGESIZE ≤ 2 ^ 47
  space : ∃ space, PageMap.map s.space pages.stack (pagesOf (size + guard)) (.stack i) = some space ∧
    PageMap.map space pages.metadata (pagesOf (metadataSize size kMetaStackAlignBits))
      (.metadata i) = some s'.space
  thread : s'.threads i = allocated pages size guard
  pageTable : s'.pageTable = setEntries s.pageTable
    ((pages.stack * SYSTEM_PAGESIZE + guard) / METALLOC_PAGESIZE)
    (pages.metadata * SYSTEM_PAGESIZE) kMetaStackAlignBits (size / METALLOC_PAGESIZE)

theorem unsafeStackAlloc_eq (h : s.unsafeStackAlloc i pages size guard = some s') :
    s.Allocated i pages size guard s' := by
  unfold unsafeStackAlloc at h
  split at h
  · cases h
  · obtain ⟨s₁, hs₁, h⟩ := Option.bind_eq_some_iff.mp h
    obtain ⟨s₂, hs₂, h⟩ := Option.bind_eq_some_iff.mp h
    obtain ⟨hpage₁, hbytes₁, hend₁, space₁, hspace₁, rfl⟩ := mmap_eq hs₁
    obtain ⟨s₃, hs₃, rfl⟩ := Option.map_eq_some_iff.mp hs₂
    obtain ⟨hpage₂, hbytes₂, hend₂, space₂, hspace₂, rfl⟩ := mmap_eq hs₃
    obtain ⟨hsize, rfl⟩ := writeEntries_eq h
    simp only [setThread_self] at hsize hbytes₂ hend₂ hspace₂
    refine ⟨hsize, ?_, hpage₂, hend₂, ⟨space₁, hspace₁, hspace₂⟩, ?_, ?_⟩
    · rintro rfl
      exact hbytes₂ (show metadataSize 0 kMetaStackAlignBits = 0 by decide)
    · simp [allocated]
    · simp [StackThread.entryPage, StackThread.entryCount]

theorem mmap_of_room {page bytes : Nat} (owner : Mapping) (h : s.HasRoom page bytes)
    (hbytes : bytes ≠ 0) : ∃ space, PageMap.map s.space page (pagesOf bytes) owner = some space ∧
      s.mmap page bytes owner = some { s with space } := by
  obtain ⟨hpage, hend, hfree⟩ := h
  have hmap : PageMap.map s.space page (pagesOf bytes) owner = some _ :=
    if_pos fun j hj => by simp [hfree j hj]
  refine ⟨_, hmap, ?_⟩
  rw [mmap, if_neg]
  · exact congrArg (Option.map _) hmap
  · rw [not_or, not_or, Nat.not_lt]
    exact ⟨hpage, hbytes, hend⟩

theorem metadataSize_pos (h : METALLOC_PAGESIZE ∣ size) (hne : size ≠ 0) (hsize : size ≤ 2 ^ 47) :
    metadataSize size kMetaStackAlignBits ≠ 0 := by
  simp only [metadataSize, FLAGS_METALLOC_METADATABYTES, kMetaStackAlignBits, SYSTEM_PAGESIZE,
    METALLOC_PAGESIZE, METALLOC_PAGESHIFT, Nat.shiftRight_eq_div_pow] at *
  omega

theorem HasRoom.le {page bytes : Nat} (h : s.HasRoom page bytes) : bytes ≤ 2 ^ 47 := by
  have hend := h.2.1
  simp only [pagesOf, SYSTEM_PAGESIZE] at hend
  omega

/-- A mapping elsewhere leaves room. -/
theorem HasRoom.of_map {page bytes first count : Nat} {owner : Mapping} {space : Pages Mapping}
    (h : s.HasRoom page bytes) (hmap : PageMap.map s.space first count owner = some space)
    (hapart : ∀ p, InRange first count p → ¬ InRange page (pagesOf bytes) p) (t : StackThread) :
    ({ s with space }.setThread i t).HasRoom page bytes := by
  obtain ⟨-, rfl⟩ := map_eq hmap
  refine ⟨h.1, h.2.1, ?_⟩
  intro j hj
  have hout : ¬ InRange first count (page + j) := fun hin =>
    hapart _ hin ⟨Nat.le_add_right _ j, Nat.add_lt_add_left hj _⟩
  exact (if_neg hout).trans (h.2.2 j hj)

theorem mapMetadata_of_room {page : Nat} (h : s.HasRoom page (s.threads i).metadataBytes)
    (hne : (s.threads i).metadataBytes ≠ 0) : ∃ s', s.mapMetadata i page = some s' ∧
      (s'.threads i).unsafeStackSize = (s.threads i).unsafeStackSize := by
  obtain ⟨space, -, hs⟩ := mmap_of_room (.metadata i) h hne
  refine ⟨_, congrArg (Option.map _) hs, ?_⟩
  simp

theorem writeEntries_of_dvd (h : METALLOC_PAGESIZE ∣ (s.threads i).unsafeStackSize) :
    ∃ s', s.writeEntries i = some s' := by
  rw [writeEntries, setMetapagetableEntries_of_dvd _ _ _ _ h]
  exact ⟨_, rfl⟩

/-- With room for it, a stack of whole pages is allocated. -/
theorem exists_allocated (hsize : METALLOC_PAGESIZE ∣ size) (hne : size ≠ 0)
    (h : s.Grants pages size guard) :
    ∃ s', s.unsafeStackAlloc i pages size guard = some s' := by
  have hle := h.stack.le
  have hpos := metadataSize_pos hsize hne (by omega)
  obtain ⟨space, hspace, hs₁⟩ := mmap_of_room (.stack i) h.stack (by omega)
  obtain ⟨t, ht⟩ : ∃ t : StackThread,
      t = ⟨.stackMapped, pages.stack * SYSTEM_PAGESIZE + guard, size, guard, 0⟩ := ⟨_, rfl⟩
  have hroom : ({ s with space }.setThread i t).HasRoom pages.metadata
      (({ s with space }.setThread i t).threads i).metadataBytes := by
    rw [setThread_self, ht]
    exact h.metadata.of_map hspace h.apart _
  obtain ⟨s₂, hs₂, hsize₂⟩ := mapMetadata_of_room hroom (by rwa [setThread_self, ht])
  obtain ⟨s₃, hs₃⟩ := writeEntries_of_dvd (s := s₂) (i := i) (by rwa [hsize₂, setThread_self, ht])
  subst ht
  refine ⟨s₃, ?_⟩
  rw [unsafeStackAlloc, if_neg (by omega), hs₁]
  exact Option.bind_eq_some_iff.mpr ⟨_, rfl, Option.bind_eq_some_iff.mpr ⟨s₂, hs₂, hs₃⟩⟩

theorem granules_le_metadataSize (hsize : size ≤ 2 ^ 47) (h : METALLOC_PAGESIZE ∣ size) :
    granules size kMetaStackAlignBits * 16 ≤ metadataSize size kMetaStackAlignBits := by
  simp only [granules, metadataSize, FLAGS_METALLOC_METADATABYTES, kMetaStackAlignBits,
    SYSTEM_PAGESIZE, METALLOC_PAGESIZE, METALLOC_PAGESHIFT, Nat.shiftRight_eq_div_pow] at *
  omega

theorem pagesOf_metadataSize (size alignment : Nat) :
    pagesOf (metadataSize size alignment) = metadataSize size alignment / SYSTEM_PAGESIZE := by
  simp only [pagesOf, metadataSize, SYSTEM_PAGESIZE]
  omega

theorem Allocated.registered (h : s.Allocated i pages size guard s')
    (hguard : METALLOC_PAGESIZE ∣ guard) (hsize : size ≤ 2 ^ 47) :
    Registered s'.pageTable (pages.stack * SYSTEM_PAGESIZE + guard) size
      (pages.metadata * SYSTEM_PAGESIZE) kMetaStackAlignBits := by
  have hcover := granules_le_metadataSize hsize h.size_page
  have hset : setMetapagetableEntries s.pageTable (pages.stack * SYSTEM_PAGESIZE + guard) size
      (pages.metadata * SYSTEM_PAGESIZE) kMetaStackAlignBits = some s'.pageTable := by
    rw [setMetapagetableEntries_of_dvd _ _ _ _ h.size_page, h.pageTable]
  refine mappedBelow_of_set ?_ (by decide) ?_ ?_ hset
  · have hpage : SYSTEM_PAGESIZE = METALLOC_PAGESIZE := by decide
    rw [hpage]
    exact Nat.dvd_add (Nat.dvd_mul_left _ _) hguard
  · have hne := h.metadata_ne
    simp only [SYSTEM_PAGESIZE]
    omega
  · have hend := h.metadata_end
    rw [pagesOf_metadataSize, Nat.add_mul,
      Nat.div_mul_cancel (show SYSTEM_PAGESIZE ∣ metadataSize size _ from Nat.dvd_mul_left _ _)] at hend
    omega

/-- The entries of the stack lead to its metadata block. -/
theorem Allocated.tracks (h : s.Allocated i pages size guard s')
    (hguard : METALLOC_PAGESIZE ∣ guard) (hsize : size ≤ 2 ^ 47) : s'.Tracks i := by
  have hcover := granules_le_metadataSize hsize h.size_page
  have hreg := h.registered hguard hsize
  refine ⟨?_, ?_, ?_⟩ <;> rw [h.thread]
  · intro x hlo hhi
    exact (hreg.fields hlo hhi).2
  · intro x hlo hhi
    have hgranule : (x - (pages.stack * SYSTEM_PAGESIZE + guard)) / 2 ^ kMetaStackAlignBits <
        granules size kMetaStackAlignBits := by
      apply div_lt_granules
      simp only [allocated] at hlo hhi
      omega
    rw [hreg.metadataPtr_eq hlo hhi]
    simp only [allocated, StackThread.metadataBytes]
    omega
  · obtain ⟨space, -, hspace⟩ := h.space
    rw [pagesOf_metadataSize] at hspace
    have hpage : (allocated pages size guard).metadataPage = pages.metadata :=
      Nat.mul_div_cancel _ (by decide)
    rw [hpage]
    exact owns_map hspace

/-- The setup of an allocated stack passes its checks. -/
theorem Allocated.setup (h : s.Allocated i pages size guard s') (hguard : METALLOC_PAGESIZE ∣ guard)
    (hend : (pages.stack + pagesOf (size + guard)) * SYSTEM_PAGESIZE ≤ 2 ^ 47) :
    s'.unsafeStackSetup i = some s' := by
  have hsize := h.size_page
  rw [unsafeStackSetup, h.thread, if_pos]
  rw [Nat.and_two_pow_sub_one_eq_mod]
  simp only [allocated, pagesOf, kMetaStackAlignBits, SYSTEM_PAGESIZE, METALLOC_PAGESIZE,
    METALLOC_PAGESHIFT] at *
  omega

end StackState

namespace StackCaller

variable {s s' : StackState} {i : Nat} {pages : StackPages} {r : StackCaller}

theorem Accepted.guard_page (h : r.Accepted) : METALLOC_PAGESIZE ∣ r.guard := by
  cases r with
  | pthreadCreate size guard => exact Nat.dvd_of_mod_eq_zero h.2.2.2
  | metastackInit rlimit => exact Nat.dvd_refl _

/-- Both callers do the same. -/
theorem serve_eq (h : r.Accepted) : r.serve s i pages =
    (s.unsafeStackAlloc i pages r.size r.guard).bind fun s => s.unsafeStackSetup i := by
  cases r with
  | pthreadCreate size guard =>
    rw [serve, StackState.pthreadCreate, if_pos h.2]
    simp only [StackCaller.size, StackCaller.guard]
    cases s.unsafeStackAlloc i pages size guard <;> rfl
  | metastackInit rlimit => rfl

/-- Whoever asks, the stack works if it has pages, and these are whole ones. -/
theorem works_iff (hr : r.Accepted) (h : s.Grants pages r.size r.guard) :
    r.Works s i pages ↔ METALLOC_PAGESIZE ∣ r.size ∧ r.size ≠ 0 := by
  rw [Works, serve_eq hr]
  constructor
  · rintro ⟨s', hs', -, -⟩
    obtain ⟨t, ht, -⟩ := Option.bind_eq_some_iff.mp hs'
    have hall := StackState.unsafeStackAlloc_eq ht
    exact ⟨hall.size_page, hall.size_ne⟩
  · rintro ⟨hsize, hne⟩
    obtain ⟨t, ht⟩ := StackState.exists_allocated (i := i) hsize hne h
    have hall := StackState.unsafeStackAlloc_eq ht
    have hle := h.stack.le
    refine ⟨t, ?_, ?_, ?_⟩
    · rw [ht]
      exact hall.setup hr.guard_page h.stack.2.1
    · rw [hall.thread]
      rfl
    · exact hall.tracks hr.guard_page (by omega)

end StackCaller

/-- No thread yet, and nothing mapped. -/
def StackState.empty : StackState := ⟨fun _ => ⟨.idle, 0, 0, 0, 0⟩, fun _ => none, fun _ => 0, []⟩

theorem StackState.empty_grants {size guard : Nat} (h : size + guard ≤ 2 ^ 26) :
    StackState.empty.Grants ⟨0x1000, 0x10000⟩ size guard := by
  have hroom (page bytes : Nat) (hpage : page ≠ 0)
      (hend : (page + pagesOf bytes) * SYSTEM_PAGESIZE ≤ 2 ^ 47) :
      StackState.empty.HasRoom page bytes := ⟨hpage, hend, fun j hj => rfl⟩
  refine ⟨hroom _ _ (by decide) ?_, hroom _ _ (by decide) ?_, ?_⟩
  · simp only [pagesOf, SYSTEM_PAGESIZE]
    omega
  · rw [pagesOf_metadataSize]
    simp only [metadataSize, FLAGS_METALLOC_METADATABYTES, kMetaStackAlignBits, SYSTEM_PAGESIZE,
      Nat.shiftRight_eq_div_pow]
    omega
  · intro page hstack hmetadata
    simp only [InRange, pagesOf, SYSTEM_PAGESIZE] at hstack hmetadata
    omega

namespace StackCaller

/-- The stack of the main thread, where its limit is infinite. -/
theorem works_of_default : (metastackInit none).Works .empty 0 ⟨0x1000, 0x10000⟩ :=
  (works_iff ⟨by decide, by decide⟩ (StackState.empty_grants (by decide))).mpr
    ⟨by decide, by decide⟩

/-- A stack of 16448 bytes ends the process. -/
theorem works_fails : ¬ ∀ (s : StackState) (i : Nat) (pages : StackPages) (r : StackCaller),
    r.Accepted → s.Grants pages r.size r.guard → r.Works s i pages := by
  intro hall
  have haccepted : (pthreadCreate 16448 4096).Accepted := ⟨by decide, by decide⟩
  have hgrants : StackState.empty.Grants ⟨0x1000, 0x10000⟩ (pthreadCreate 16448 4096).size
      (pthreadCreate 16448 4096).guard := StackState.empty_grants (by decide)
  have hworks := hall .empty 0 ⟨0x1000, 0x10000⟩ _ haccepted hgrants
  exact absurd ((works_iff haccepted hgrants).mp hworks).1 (by decide)

end StackCaller

/-! Calls that fail. -/

namespace StackState

variable {s s' : StackState} {call : CreateCall}

/-- The state after a call of `pthread_create`. -/
def create (s : StackState) (call : CreateCall) : Option StackState :=
  (s.pthreadCreate call).map Prod.fst

/-- The same tracked stacks and metadata blocks are mapped, with the same page table. -/
structure Untouched (s s' : StackState) : Prop where
  mapped_stacks : ∀ page thread,
    s'.space page = some (.stack thread) ↔ s.space page = some (.stack thread)
  mapped_metadata : ∀ page thread,
    s'.space page = some (.metadata thread) ↔ s.space page = some (.metadata thread)
  pageTable : s'.pageTable = s.pageTable

/-- The stack and the metadata of the call are mapped. -/
structure Holds (s : StackState) (call : CreateCall) : Prop where
  stack : Owns s.space call.pages.stack (pagesOf (call.size + call.guard)) (.stack call.thread)
  metadata : Owns s.space call.pages.metadata
    (pagesOf (metadataSize call.size kMetaStackAlignBits)) (.metadata call.thread)

/-- A call makes the first three steps of a thread. -/
theorem create_eq (hidle : (s.threads call.thread).stage = .idle)
    (hsum : call.size + call.guard < 2 ^ 64) :
    s.create call = exec StackState.step s
      [.mapStack call.thread call.pages.stack call.size call.guard,
        .mapMetadata call.thread call.pages.metadata, .writeEntries call.thread] := by
  rw [exec_cons, step, if_pos hidle, create, pthreadCreate, mapStack]
  by_cases hchecks : ChecksPass call.size call.guard
  · have hpass : ¬ (call.size = 0 ∨ call.size &&& (2 ^ kMetaStackAlignBits - 1) ≠ 0 ∨
        call.guard % SYSTEM_PAGESIZE ≠ 0) := by
      obtain ⟨h₁, h₂, h₃⟩ := hchecks
      simp [h₁, h₂, h₃]
    rw [if_pos hchecks, if_neg hpass, unsafeStackAlloc, if_neg (Nat.not_le.mpr hsum)]
    cases s.mmap call.pages.stack (call.size + call.guard) (.stack call.thread) with
    | none => rfl
    | some t =>
      generalize hu : t.setThread call.thread ⟨.stackMapped,
        call.pages.stack * SYSTEM_PAGESIZE + call.guard, call.size, call.guard, 0⟩ = u
      have hstack : (u.threads call.thread).stage = .stackMapped := by
        rw [← hu, setThread_self]
      simp only [Option.bind_eq_bind, Option.bind_some, Option.map_some, hu, exec_cons, step,
        if_pos hstack]
      cases hv : u.mapMetadata call.thread call.pages.metadata with
      | none => rfl
      | some v =>
        obtain ⟨-, -, space, -, rfl⟩ := mapMetadata_eq hv
        simp only [Option.bind_some, setThread_self, if_true]
        cases writeEntries _ _ <;> rfl
  · have hfail : call.size = 0 ∨ call.size &&& (2 ^ kMetaStackAlignBits - 1) ≠ 0 ∨
        call.guard % SYSTEM_PAGESIZE ≠ 0 := by
      simp only [ChecksPass] at hchecks
      tauto
    rw [if_neg hchecks, if_pos hfail]
    rfl

theorem create_allocated (h : s.create call = some s') :
    s.Allocated call.thread call.pages call.size call.guard s' := by
  obtain ⟨r, hr, rfl⟩ := Option.map_eq_some_iff.mp h
  rw [pthreadCreate] at hr
  split at hr
  · obtain ⟨t, ht, rfl⟩ := Option.map_eq_some_iff.mp hr
    exact unsafeStackAlloc_eq ht
  · cases hr

/-- Whatever the real function returns, the mappings are there afterwards. -/
theorem create_holds (h : s.create call = some s') : s'.Holds call := by
  obtain ⟨space, hspace, hspace'⟩ := (create_allocated h).space
  exact ⟨(owns_map hspace).map hspace', owns_map hspace'⟩

theorem Holds.create {other : CreateCall} (ho : s.Holds other) (h : s.create call = some s') :
    s'.Holds other := by
  obtain ⟨space, hspace, hspace'⟩ := (create_allocated h).space
  exact ⟨(ho.stack.map hspace).map hspace', (ho.metadata.map hspace).map hspace'⟩

theorem exec_create_holds {calls : List CreateCall} (h : exec StackState.create s calls = some s') :
    ∀ call ∈ calls, s'.Holds call := by
  induction calls using List.reverseRecOn generalizing s' with
  | nil =>
    intro call hcall
    cases hcall
  | append_singleton calls last ih =>
    obtain ⟨t, ht, hlast⟩ := exec_snoc_cases h
    intro call hcall
    rcases List.mem_append.mp hcall with hearlier | hlater
    · exact (ih ht call hearlier).create hlast
    · obtain rfl := List.mem_singleton.mp hlater
      exact create_holds hlast

/-- Calls that fail leave their stacks and their metadata behind, one and all. -/
theorem untouched_never {calls : List CreateCall} (hne : calls ≠ [])
    (h : exec StackState.create s calls = some s') :
    ¬ s.Untouched s' ∧ ∀ call ∈ calls, s'.Holds call := by
  have hholds := exec_create_holds h
  refine ⟨?_, hholds⟩
  intro huntouched
  cases calls with
  | nil => exact hne rfl
  | cons first calls =>
    obtain ⟨t, ht, -⟩ := Option.bind_eq_some_iff.mp h
    obtain ⟨space, hspace, -⟩ := (create_allocated ht).space
    have hpage : InRange first.pages.stack (pagesOf (first.size + first.guard))
        first.pages.stack := by
      have hsize := (create_allocated ht).size_ne
      simp only [InRange, pagesOf, SYSTEM_PAGESIZE]
      omega
    -- The first call has mapped a page that was free.
    have hfree := (map_eq hspace).1 _ hpage
    have hmapped := (hholds first List.mem_cons_self).stack _ hpage
    rw [(huntouched.mapped_stacks _ _).mp hmapped] at hfree
    cases hfree

/-- Two attempts that fail and one that does not hold the resources of three threads. -/
theorem untouched_never_of_retries :
    ∃ s', exec StackState.create .empty [⟨0, 0x4000, 0x1000, ⟨0x1000, 0x10000⟩, 11⟩,
        ⟨1, 0x4000, 0x1000, ⟨0x2000, 0x20000⟩, 11⟩, ⟨2, 0x4000, 0x1000, ⟨0x3000, 0x30000⟩, 0⟩] =
          some s' ∧
      ¬ StackState.empty.Untouched s' ∧
      ∀ call ∈ [⟨0, 0x4000, 0x1000, ⟨0x1000, 0x10000⟩, 11⟩,
        ⟨1, 0x4000, 0x1000, ⟨0x2000, 0x20000⟩, 11⟩,
        ⟨2, 0x4000, 0x1000, ⟨0x3000, 0x30000⟩, 0⟩], s'.Holds call := by
  have hrun : (exec StackState.create .empty [⟨0, 0x4000, 0x1000, ⟨0x1000, 0x10000⟩, 11⟩,
      ⟨1, 0x4000, 0x1000, ⟨0x2000, 0x20000⟩, 11⟩,
      ⟨2, 0x4000, 0x1000, ⟨0x3000, 0x30000⟩, 0⟩]).isSome = true := by decide +kernel
  obtain ⟨s', hs'⟩ := Option.isSome_iff_exists.mp hrun
  exact ⟨s', hs', untouched_never (by decide) hs'⟩

/-- One attempt that fails keeps the stack that it has mapped. -/
theorem untouched_fails :
    ¬ ∀ (s s' : StackState) (call : CreateCall), call.result ≠ 0 → s.create call = some s' →
      s.Untouched s' := by
  intro hall
  have hrun : (StackState.empty.create ⟨0, 0x4000, 0x1000, ⟨0x1000, 0x10000⟩, 11⟩).isSome = true := by
    decide +kernel
  obtain ⟨s', hs'⟩ := Option.isSome_iff_exists.mp hrun
  have huntouched := hall _ _ _ (by decide) hs'
  have hmapped := (create_holds hs').stack 0x1000 (by decide)
  exact absurd ((huntouched.mapped_stacks _ _).mp hmapped) (by decide)

end StackState

end TypeSan
