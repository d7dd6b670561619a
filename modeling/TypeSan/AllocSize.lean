import TypeSan.Tcmalloc

/-! The patched allocator returns at least the bytes asked for, the do-not-clear flag left aside. -/
namespace TypeSan

open PageMap Rounding

/-- A request to one of the patched entry points. -/
inductive AllocRequest where
  | malloc (size : Nat)
  | calloc (n elem_size : Nat)
  | realloc (old : Block) (new_size : Nat)
  | memalign (align size : Nat)
  deriving DecidableEq

namespace AllocRequest

/-- The number of bytes that the caller asks for. -/
def requested : AllocRequest → Nat
  | .malloc size => size
  | .calloc n elem_size => n * elem_size
  | .realloc _ new_size => new_size
  | .memalign _ size => size

/-- The number of bytes once the flag is taken out of the size. -/
def unflagged : AllocRequest → Nat
  | .malloc size => clearSize size
  | .calloc n elem_size => n * clearSize elem_size
  | .realloc _ new_size => clearSize new_size
  | .memalign _ size => clearSize size

/-- The arguments are 64-bit words, and a block in use lies in the address space. -/
def Valid : AllocRequest → Prop
  | .malloc size => size < 2 ^ 64
  | .calloc n elem_size => n < 2 ^ 64 ∧ elem_size < 2 ^ 64
  | .realloc old new_size => old.size < 2 ^ 48 ∧ new_size < 2 ^ 64
  | .memalign align size => align < 2 ^ 64 ∧ size < 2 ^ 64

/-- The product of a `calloc` does not collide with the flag. -/
def ProductClear : AllocRequest → Prop
  | .calloc n elem_size =>
    n * clearSize elem_size < doNotClearBit ∨ 2 ^ 64 ≤ n * clearSize elem_size
  | _ => True

/-- The entry point at work; `a` answers its last allocation, `grown` the first try of `realloc`. -/
def serve (G : Gperftools) (s : HeapState) (grown a : Answer) :
    AllocRequest → Option (HeapState × Option Block)
  | .malloc size => G.doMalloc s a size
  | .calloc n elem_size => G.doCalloc s a n elem_size
  | .realloc old new_size => G.doRealloc s grown a old new_size
  | .memalign align size => G.doMemalign s a align size

end AllocRequest

/-! The flag. -/

theorem clearSize_eq (size : Nat) : clearSize size = size % 2 ^ 63 :=
  Nat.and_two_pow_sub_one_eq_mod size 63

theorem clearSize_lt (size : Nat) : clearSize size < 2 ^ 63 := by
  rw [clearSize_eq]
  exact Nat.mod_lt _ (by decide)

theorem flagOf_eq (size : Nat) : flagOf size = 2 ^ 63 * (size.testBit 63).toNat := by
  rw [Nat.mul_comm]
  exact Nat.and_two_pow size 63

/-- Attaching a flag again and taking it out leaves the size. -/
theorem clearSize_or_flagOf {size : Nat} (h : size < 2 ^ 63) (n : Nat) :
    clearSize (size ||| flagOf n) = size := by
  rw [clearSize_eq, flagOf_eq, Nat.or_comm, ← Nat.two_pow_add_eq_or_of_lt h, Nat.mul_add_mod,
    Nat.mod_eq_of_lt h]

/-- The overflow check of `do_calloc`. -/
theorem product_lt {n m : Nat} (h : ¬ (m ≠ 0 ∧ n * m % 2 ^ 64 / m ≠ n)) : n * m < 2 ^ 64 := by
  simp only [not_and, not_not] at h
  by_cases hm : m = 0
  · simp [hm]
  · have hdiv := Nat.div_mul_le_self (n * m % 2 ^ 64) m
    rw [h hm] at hdiv
    exact Nat.lt_of_le_of_lt hdiv (Nat.mod_lt _ (by decide))

/-! Blocks. -/

section Blocks

variable {G : Gperftools} (hG : G.Documented) {s s' : HeapState} {a : Answer} {b : Block}

theorem allocateSmall_size {size : Nat} (h : s.allocateSmall a size = some (s', some b)) :
    b.size = size := by
  unfold HeapState.allocateSmall at h
  split at h
  · cases h
  · obtain ⟨_, _, h⟩ := Option.bind_eq_some_iff.mp h
    obtain ⟨_, h⟩ := Option.ite_none_right_eq_some.mp h
    cases h
    rfl

theorem allocatePages_size {length : Nat} (h : s.allocatePages a length = some (s', some b)) :
    b.size = length * kPageSize := by
  obtain ⟨⟨_, start⟩, _, h⟩ := Option.bind_eq_some_iff.mp h
  cases start with
  | none => cases h
  | some start =>
    cases h
    rfl

theorem clearResult_block {keep : Bool} {size : Nat} {taken : HeapState × Option Block}
    (h : Gperftools.clearResult keep size taken = some (s', some b)) :
    ∃ s₁, taken = (s₁, some b) := by
  unfold Gperftools.clearResult at h
  split at h
  · cases h
    exact ⟨_, rfl⟩
  · obtain ⟨_, _, heq⟩ := Option.map_eq_some_iff.mp h
    exact ⟨taken.1, Prod.ext rfl (Prod.mk.inj heq).2⟩

include hG

theorem le_kMaxSize_of_servesSmall {size : Nat} (h : G.servesSmall size = true) :
    size ≤ G.kMaxSize := by
  unfold Gperftools.servesSmall at h
  cases hm : G.minSizeForSlowPath with
  | none => simpa [hm] using h
  | some m =>
    have := hG.minSize_le m hm
    simp only [hm, Bool.or_eq_true, decide_eq_true_eq] at h
    omega

theorem doMalloc_size {size : Nat} (h : G.doMalloc s a size = some (s', some b)) :
    clearSize size ≤ b.size := by
  obtain ⟨taken, htaken, h⟩ := Option.bind_eq_some_iff.mp h
  obtain ⟨s₁, rfl⟩ := clearResult_block h
  unfold Gperftools.takeBlock at htaken
  split at htaken
  · rename_i hsmall
    rw [allocateSmall_size htaken]
    exact hG.le_classToSize _ (le_kMaxSize_of_servesSmall hG hsmall)
  · rw [allocatePages_size htaken]
    exact hG.le_pages _ (Nat.lt_trans (clearSize_lt size) (by decide))

theorem doCalloc_size {n elem_size : Nat}
    (hclear : n * clearSize elem_size < 2 ^ 63 ∨ 2 ^ 64 ≤ n * clearSize elem_size)
    (h : G.doCalloc s a n elem_size = some (s', some b)) :
    n * clearSize elem_size ≤ b.size := by
  simp only [Gperftools.doCalloc] at h
  split at h
  · cases h
  · rename_i hno
    have hproduct := product_lt hno
    have hlt : n * clearSize elem_size < 2 ^ 63 := by omega
    have hle := doMalloc_size hG h
    rwa [Nat.mod_eq_of_lt (by omega), clearSize_or_flagOf hlt] at hle

theorem doMemalign_size {align size : Nat}
    (h : G.doMemalign s a align size = some (s', some b)) : clearSize size ≤ b.size := by
  have hlt := clearSize_lt size
  simp only [Gperftools.doMemalign] at h
  split at h
  · cases h
  · split at h
    · have hle := doMalloc_size hG h
      rwa [clearSize_or_flagOf hlt] at hle
    · have hone : clearSize size ≤ if clearSize size = 0 then 1 else clearSize size := by
        split <;> omega
      have hlt' : (if clearSize size = 0 then 1 else clearSize size) < 2 ^ 64 := by
        split <;> omega
      generalize (if clearSize size = 0 then 1 else clearSize size) = n at *
      split at h
      · rename_i c hc
        have hle : n ≤ c := by
          unfold Gperftools.smallAlignedClass at hc
          split at hc
          · exact hG.le_alignedClassSize _ _ _ hc
          · cases hc
        obtain ⟨taken, htaken, h⟩ := Option.bind_eq_some_iff.mp h
        obtain ⟨s₁, rfl⟩ := clearResult_block h
        rw [allocateSmall_size htaken]
        omega
      · rw [allocatePages_size (HeapState.allocatePages_of_memalign h)]
        exact Nat.le_trans hone (hG.le_pages n hlt')

theorem reallocBlock_size {grown : Answer} {old_size new_size n : Nat} (hold : old_size < 2 ^ 48)
    (hnew : new_size < 2 ^ 63)
    (h : G.reallocBlock s grown a old_size new_size (flagOf n) = some (s', some b)) :
    new_size ≤ b.size := by
  obtain ⟨⟨s₁, r₁⟩, h₁, h⟩ := Option.bind_eq_some_iff.mp h
  cases r₁ with
  | none =>
    have hle := doMalloc_size hG h
    rwa [clearSize_or_flagOf hnew] at hle
  | some grownBlock =>
    cases h
    split at h₁
    · rename_i hgrow
      have hle := doMalloc_size hG h₁
      rw [clearSize_or_flagOf (hG.lowerBoundToGrow_lt _ hold)] at hle
      omega
    · cases h₁

theorem doRealloc_size {grown : Answer} {old : Block} {new_size : Nat} (hold : old.size < 2 ^ 48)
    (h : G.doRealloc s grown a old new_size = some (s', some b)) : clearSize new_size ≤ b.size := by
  simp only [Gperftools.doRealloc] at h
  split at h
  · rename_i hkeep
    cases h
    exact hG.keepsBlock_le _ _ hkeep
  · obtain ⟨⟨s₁, r₁⟩, h₁, h⟩ := Option.bind_eq_some_iff.mp h
    cases r₁ with
    | none => cases h
    | some block =>
      obtain ⟨_, _, heq⟩ := Option.map_eq_some_iff.mp h
      cases heq
      exact reallocBlock_size hG hold (clearSize_lt new_size) h₁

/-- A request that returns a block returns one that holds the bytes asked for, with the flag taken
out of the size. -/
theorem unflagged_le_size {grown : Answer} {r : AllocRequest} (hr : r.Valid) (hp : r.ProductClear)
    (h : r.serve G s grown a = some (s', some b)) : r.unflagged ≤ b.size := by
  cases r with
  | malloc size => exact doMalloc_size hG h
  | calloc n elem_size => exact doCalloc_size hG hp h
  | realloc old new_size => exact doRealloc_size hG hr.1 h
  | memalign align size => exact doMemalign_size hG h

end Blocks

/-- `AlignmentForSize`: a size class wastes an eighth at most. -/
def classAlignment (size : Nat) : Nat :=
  if 256 * 1024 * 2 < size then kPageSize
  else if 128 ≤ size then min (2 ^ (Nat.log2 size) / 8) kPageSize
  else if 16 ≤ size then 16
  else 8

theorem classAlignment_pos (size : Nat) : 0 < classAlignment size := by
  unfold classAlignment
  split
  · decide
  · split
    · rename_i hsize
      have hlog : 2 ^ 7 ≤ 2 ^ Nat.log2 size :=
        Nat.pow_le_pow_right (by decide) ((Nat.le_log2 (by omega)).mpr (by omega))
      exact Nat.lt_min.mpr ⟨Nat.div_pos (by omega) (by decide), by decide⟩
    · split <;> decide

/-- The size arithmetic of gperftools for pages of 8 KiB, with the `kMaxSize` and the shortest spans
of the patches. No two size classes are merged. -/
def patchedGperftools : Gperftools where
  kMaxSize := 256 * 1024 * 2
  minSizeForSlowPath := none
  classToSize size := alignTo (max 1 size) (classAlignment size)
  classToPages size := max 32 ((size + (kPageSize - 1)) / kPageSize)
  pages bytes := (bytes + (kPageSize - 1)) / kPageSize
  alignmentForSize := classAlignment
  alignedClassSize align size :=
    let c := alignTo (alignTo (max 1 size) (classAlignment size)) align
    if 0 < align ∧ c ≤ 256 * 1024 * 2 then some c else none
  lowerBoundToGrow oldSize := oldSize + oldSize / 4
  keepsBlock oldSize newSize := newSize ≤ oldSize ∧ oldSize / 2 ≤ newSize

theorem patchedGperftools_documented : patchedGperftools.Documented where
  minSize_le m h := by simp [patchedGperftools] at h
  le_classToSize size _ :=
    Nat.le_trans (Nat.le_max_right 1 size) (le_alignTo (classAlignment_pos size))
  le_pages bytes _ := by
    simp only [patchedGperftools, kPageSize, kPageShift]
    omega
  le_alignedClassSize align size c h := by
    simp only [patchedGperftools, Option.ite_none_right_eq_some, Option.some.injEq] at h
    obtain ⟨⟨halign, -⟩, rfl⟩ := h
    have hclass : max 1 size ≤ alignTo (max 1 size) (classAlignment size) :=
      le_alignTo (classAlignment_pos size)
    exact (Nat.le_max_right 1 size).trans (hclass.trans (le_alignTo halign))
  lowerBoundToGrow_lt oldSize h := by
    simp only [patchedGperftools, doNotClearBit]
    omega
  keepsBlock_le oldSize newSize h := by
    simp only [patchedGperftools, Bool.decide_and, Bool.and_eq_true, decide_eq_true_eq] at h
    exact h.1

/-- A heap with one span of 16-byte objects at page 16, its metadata mapped everywhere. -/
def tinyHeap : HeapState where
  pageTable _ := 0
  mem _ := some 0
  pages page :=
    if InRange 16 32 page then some (.object 16)
    else if InRange 96 32 page then some (.metadata 16)
    else none
  spans start := if start = 16 then some ⟨32, 16, false, 4, 96, 32⟩ else none
  live _ := none
  fresh := none

theorem unflagged_le_size_of_calloc :
    ∃ s', (AllocRequest.calloc 2 8).serve patchedGperftools tinyHeap ⟨none, none, none⟩
        ⟨some (16 * 8192 + 32), none, none⟩ = some (s', some ⟨16 * 8192 + 32, 16⟩) ∧
      (AllocRequest.calloc 2 8).unflagged ≤ 16 := by
  have hrun : ((AllocRequest.calloc 2 8).serve patchedGperftools tinyHeap ⟨none, none, none⟩
      ⟨some (16 * 8192 + 32), none, none⟩).map Prod.snd = some (some ⟨16 * 8192 + 32, 16⟩) := by
    decide +kernel
  obtain ⟨⟨s', b⟩, hs, rfl⟩ := Option.map_eq_some_iff.mp hrun
  exact ⟨s', hs, unflagged_le_size patchedGperftools_documented (b := ⟨16 * 8192 + 32, 16⟩)
    (r := .calloc 2 8) ⟨by decide, by decide⟩ (Or.inl (by decide)) hs⟩

/-- `malloc(2 ^ 63 + 16)` returns a block of 16 bytes. -/
theorem requested_le_size_fails :
    ¬ ∀ (G : Gperftools) (s s' : HeapState) (grown a : Answer) (r : AllocRequest) (b : Block),
      G.Documented → r.Valid → r.serve G s grown a = some (s', some b) → r.requested ≤ b.size := by
  intro hall
  have hrun : ((AllocRequest.malloc (2 ^ 63 + 16)).serve patchedGperftools tinyHeap
      ⟨none, none, none⟩ ⟨some (16 * 8192), none, none⟩).map Prod.snd =
        some (some ⟨16 * 8192, 16⟩) := by decide +kernel
  obtain ⟨⟨s', b⟩, hs, hb⟩ := Option.map_eq_some_iff.mp hrun
  have hvalid : (AllocRequest.malloc (2 ^ 63 + 16)).Valid := by
    simp [AllocRequest.Valid]
  have hblock : b = some ⟨16 * 8192, 16⟩ := hb
  have hle := hall _ _ _ _ _ _ ⟨16 * 8192, 16⟩ patchedGperftools_documented hvalid
    (hs.trans (by rw [hblock]))
  exact absurd hle (by decide)

end TypeSan
