import TypeSan.FreshHeap

/-! The bytes of blocks, over allocation, writing, freeing and reuse, and what `calloc` returns. -/
namespace TypeSan

open Runs

/-- A range of bytes, and what is put there. -/
structure Fill where
  base : Nat
  length : Nat
  contents : Nat → UInt8

namespace Fill

def Covers (f : Fill) (x : Nat) : Prop := f.base ≤ x ∧ x < f.base + f.length

instance (f : Fill) (x : Nat) : Decidable (f.Covers x) := inferInstanceAs (Decidable (_ ∧ _))

/-- The bytes once the range is filled. -/
def onto (f : Fill) (bytes : Nat → UInt8) : Nat → UInt8 := fun x =>
  if f.Covers x then f.contents (x - f.base) else bytes x

end Fill

/-- The heap, and the bytes that blocks are made of. -/
structure ByteState where
  heap : HeapState
  bytes : Nat → UInt8

/-- A call of the allocator, a byte that the program writes to a block, or one that the free lists
or the kernel leave outside of blocks. -/
inductive ByteEvent where
  | call (e : HeapEvent)
  | write (ptr offset : Nat) (byte : UInt8)
  | outside (address : Nat) (byte : UInt8)

namespace Gperftools

variable (G : Gperftools) (addrOf : String → Nat)

/-- The size that `do_calloc` computes. -/
def callocSize (n elem_size : Nat) : Nat := n * clearSize elem_size % 2 ^ 64

/-- What a step fills: the `memset` of `do_calloc`, the `memcpy` of `do_realloc_with_callback`, or a
single byte. -/
def fillOf (s : ByteState) (heap : HeapState) : ByteEvent → Option Fill
  | .call (.calloc _ n elem_size) =>
    heap.fresh.bind fun block =>
      if callocSize n elem_size ≤ G.kMaxSize then
        some ⟨block.addr, callocSize n elem_size, fun _ => 0⟩
      else none
  | .call (.realloc _ _ ptr new_size) => do
    let old_size ← s.heap.live ptr
    let block ← heap.fresh
    if G.keepsBlock old_size (clearSize new_size) then none
    else return ⟨block.addr, min old_size (clearSize new_size), fun i => s.bytes (ptr + i)⟩
  | .call _ => none
  | .write ptr offset byte => some ⟨ptr + offset, 1, fun _ => byte⟩
  | .outside address byte => some ⟨address, 1, fun _ => byte⟩

def heapAfter (s : ByteState) : ByteEvent → Option HeapState
  | .call e => G.step addrOf s.heap e
  | .write ptr offset _ => do
    let size ← s.heap.live ptr
    if offset < size then return s.heap.settled else none
  | .outside _ _ => some s.heap.settled

def byteStep (s : ByteState) (e : ByteEvent) : Option ByteState :=
  (G.heapAfter addrOf s e).map fun heap =>
    ⟨heap, (G.fillOf s heap e).elim s.bytes fun f => f.onto s.bytes⟩

/-- The block that the unpatched parts offer for a `calloc`. -/
def offered (a : Answer) (n elem_size : Nat) : Option Nat :=
  if G.servesSmall (clearSize (callocSize n elem_size ||| flagOf elem_size)) then a.object
  else a.span.map (· * kPageSize)

/-- A `calloc` that returns a block returns zeros. -/
def Zeroed (s : ByteState) (e : ByteEvent) : Prop :=
  ∀ a n elem_size t block, e = .call (.calloc a n elem_size) → G.byteStep addrOf s e = some t →
    t.heap.fresh = some block → ∀ i < n * clearSize elem_size, t.bytes (block.addr + i) = 0

/-- The step is a call that returns a block. -/
def Succeeds (s : ByteState) (e : ByteEvent) : Prop :=
  ∃ t block, G.byteStep addrOf s e = some t ∧ t.heap.fresh = some block

/-- A `calloc` that succeeds is small enough for the `memset`, or is offered zeros. -/
def OfferedZeros (s : ByteState) (e : ByteEvent) : Prop :=
  ∀ a n elem_size addr, e = .call (.calloc a n elem_size) → G.Succeeds addrOf s e →
    G.offered a n elem_size = some addr →
      n * clearSize elem_size ≤ G.kMaxSize ∨
        ∀ i < n * clearSize elem_size, s.bytes (addr + i) = 0

/-- The step fills the byte. -/
def Touches (x : Nat) (s : ByteState) (e : ByteEvent) : Prop :=
  ∃ heap f, G.heapAfter addrOf s e = some heap ∧ G.fillOf s heap e = some f ∧ f.Covers x

variable {G addrOf} {s t u : ByteState} {e : ByteEvent} {es : List ByteEvent} {a : Answer}
  {h h' : HeapState} {b : Block} {n elem_size x : Nat}

/-! The block that is returned is the one offered. -/

theorem newSpan_start {length objectSize alignment start : Nat} {large : Bool}
    (hspan : h.newSpan a length objectSize alignment large = some (h', some start)) :
    a.span = some start := by
  unfold HeapState.newSpan at hspan
  split at hspan
  · rename_i start' _ _ hstart _
    obtain ⟨_, _, hspan⟩ := Option.bind_eq_some_iff.mp hspan
    obtain ⟨_, _, hspan⟩ := Option.bind_eq_some_iff.mp hspan
    obtain ⟨_, _, hspan⟩ := Option.bind_eq_some_iff.mp hspan
    cases hspan
    exact hstart
  · cases hspan

theorem takeBlock_addr {size : Nat} (htake : G.takeBlock h a size = some (h', some b)) :
    (if G.servesSmall size then a.object else a.span.map (· * kPageSize)) = some b.addr := by
  unfold takeBlock at htake
  split at htake
  · rename_i hsmall
    unfold HeapState.allocateSmall at htake
    split at htake
    · cases htake
    · rename_i ptr hptr
      obtain ⟨_, _, htake⟩ := Option.bind_eq_some_iff.mp htake
      obtain ⟨_, htake⟩ := Option.ite_none_right_eq_some.mp htake
      cases htake
      rw [if_pos hsmall, hptr]
  · rename_i hlarge
    obtain ⟨⟨h₁, start⟩, hspan, htake⟩ := Option.bind_eq_some_iff.mp htake
    cases start with
    | none => cases htake
    | some start =>
      cases htake
      rw [if_neg hlarge, newSpan_start hspan]
      rfl

theorem doMalloc_addr {size : Nat} (hmalloc : G.doMalloc h a size = some (h', some b)) :
    (if G.servesSmall (clearSize size) then a.object else a.span.map (· * kPageSize)) =
      some b.addr := by
  obtain ⟨⟨h₁, taken⟩, htake, hclear⟩ := Option.bind_eq_some_iff.mp hmalloc
  have htaken : taken = some b := by
    unfold clearResult at hclear
    split at hclear
    · cases hclear
      rfl
    · obtain ⟨_, _, hclear⟩ := Option.map_eq_some_iff.mp hclear
      exact (Prod.mk.inj hclear).2
  rw [htaken] at htake
  exact takeBlock_addr htake

/-- A `calloc` that returns a block has not overflowed, and returns what it was offered. -/
theorem doCalloc_eq (hcalloc : G.doCalloc h a n elem_size = some (h', some b)) :
    callocSize n elem_size = n * clearSize elem_size ∧ G.offered a n elem_size = some b.addr := by
  unfold doCalloc at hcalloc
  simp only at hcalloc
  split at hcalloc
  · cases hcalloc
  · rename_i hproduct
    exact ⟨Nat.mod_eq_of_lt (product_lt hproduct), doMalloc_addr hcalloc⟩

/-! Bytes. -/

theorem byteStep_untouched (hstep : G.byteStep addrOf s e = some t)
    (hx : ¬ G.Touches addrOf x s e) : t.bytes x = s.bytes x := by
  obtain ⟨heap, hheap, rfl⟩ := Option.map_eq_some_iff.mp hstep
  cases hfill : G.fillOf s heap e with
  | none => rfl
  | some f => exact if_neg fun hcovers => hx ⟨heap, f, hheap, hfill, hcovers⟩

/-- What no step fills keeps its contents, also while its block is freed and its pages are
reused. -/
theorem exec_untouched
    (hes : Guarded (G.byteStep addrOf) (fun s e => ¬ G.Touches addrOf x s e) s es)
    (ht : exec (G.byteStep addrOf) s es = some t) : t.bytes x = s.bytes x := by
  apply exec_invariant (I := fun t => t.bytes x = s.bytes x) rfl _ hes ht
  intro t e u hbytes hx hstep
  rw [byteStep_untouched hstep hx, hbytes]

/-- What a `calloc` does to the bytes. -/
theorem calloc_bytes (hstep : G.byteStep addrOf s (.call (.calloc a n elem_size)) = some t)
    (hfresh : t.heap.fresh = some b) :
    G.offered a n elem_size = some b.addr ∧
      ∀ i < n * clearSize elem_size, t.bytes (b.addr + i) =
        if n * clearSize elem_size ≤ G.kMaxSize then 0 else s.bytes (b.addr + i) := by
  obtain ⟨heap, hheap, rfl⟩ := Option.map_eq_some_iff.mp hstep
  obtain ⟨⟨h, r⟩, hcalloc, rfl⟩ := Option.map_eq_some_iff.mp hheap
  obtain rfl : r = some b := hfresh
  obtain ⟨hsize, hoffered⟩ := doCalloc_eq hcalloc
  refine ⟨hoffered, ?_⟩
  intro i hi
  simp only [fillOf, HeapState.allocated, Option.bind_some, hsize]
  split
  · exact if_pos ⟨Nat.le_add_right _ _, Nat.add_lt_add_left hi _⟩
  · rfl

theorem zeroed_iff : G.Zeroed addrOf s e ↔ G.OfferedZeros addrOf s e := by
  constructor
  · rintro hzeroed a n elem_size addr rfl ⟨t, b, hstep, hfresh⟩ haddr
    obtain ⟨hoffered, hbytes⟩ := calloc_bytes hstep hfresh
    obtain rfl : b.addr = addr := Option.some.inj (hoffered.symm.trans haddr)
    by_cases hsmall : n * clearSize elem_size ≤ G.kMaxSize
    · exact Or.inl hsmall
    · refine Or.inr fun i hi => ?_
      have hzero := hzeroed a n elem_size t b rfl hstep hfresh i hi
      rwa [hbytes i hi, if_neg hsmall] at hzero
  · rintro hclean a n elem_size t b rfl hstep hfresh i hi
    obtain ⟨hoffered, hbytes⟩ := calloc_bytes hstep hfresh
    rw [hbytes i hi]
    split
    · rfl
    · rename_i hlarge
      have hzeros := hclean a n elem_size b.addr rfl ⟨t, b, hstep, hfresh⟩ hoffered
      exact hzeros.resolve_left hlarge i hi

/-- A large `calloc` returns what its block held, from however long ago. -/
theorem calloc_stale {i : Nat} (hlarge : G.kMaxSize < n * clearSize elem_size)
    (hi : i < n * clearSize elem_size) (hes : Guarded (G.byteStep addrOf)
      (fun s e => ¬ G.Touches addrOf (b.addr + i) s e) s es)
    (ht : exec (G.byteStep addrOf) s es = some t)
    (hstep : G.byteStep addrOf t (.call (.calloc a n elem_size)) = some u)
    (hfresh : u.heap.fresh = some b) : u.bytes (b.addr + i) = s.bytes (b.addr + i) := by
  obtain ⟨-, hbytes⟩ := calloc_bytes hstep hfresh
  rw [hbytes i hi, if_neg (Nat.not_le.mpr hlarge), exec_untouched hes ht]

/-- In every run, `calloc` returns zeros just when each call that is too large for the `memset` is
offered zeros. -/
theorem calloc_zeroed_iff (G : Gperftools) (addrOf : String → Nat) (s : ByteState)
    (es : List ByteEvent) :
    Guarded (G.byteStep addrOf) (G.Zeroed addrOf) s es ↔
      Guarded (G.byteStep addrOf) (G.OfferedZeros addrOf) s es :=
  guarded_congr (I := fun _ => True) trivial (fun _ _ _ _ _ _ => trivial) guarded_true
    fun _ _ _ _ => zeroed_iff

end Gperftools

/-- Before the first allocation, all bytes are zero. -/
def ByteState.initial : ByteState := ⟨.initial, fun _ => 0⟩

/-- The page heap hands out the same pages each time. -/
def samePages : Answer := ⟨none, some 16, some (128, fun _ => 0)⟩

/-- A block of 600000 bytes is written and freed. -/
def writtenBlock : List ByteEvent :=
  [.call (.malloc samePages 600000), .write (16 * kPageSize) 0 1, .call (.free (16 * kPageSize))]

/-- The next block of that size is the same one, and still holds what was written. -/
theorem calloc_zeroed_fails :
    patchedGperftools.Documented ∧ ∃ t block, exec (patchedGperftools.byteStep fun _ => 0) .initial
        (writtenBlock ++ [.call (.calloc samePages 1 600000)]) = some t ∧
      t.heap.fresh = some block ∧ t.bytes block.addr = 1 ∧
      ¬ Guarded (patchedGperftools.byteStep fun _ => 0) (patchedGperftools.Zeroed fun _ => 0) .initial
        (writtenBlock ++ [.call (.calloc samePages 1 600000)]) := by
  have hrun : (exec (patchedGperftools.byteStep fun _ => 0) .initial
      (writtenBlock ++ [.call (.calloc samePages 1 600000)])).map
        (fun t => (t.heap.fresh.map Block.addr, t.bytes (16 * kPageSize))) =
      some (some (16 * kPageSize), 1) := by
    decide +kernel
  obtain ⟨t, ht, hend⟩ := Option.map_eq_some_iff.mp hrun
  obtain ⟨hfresh, hbyte⟩ := Prod.mk.inj hend
  obtain ⟨block, hblock, haddr⟩ := Option.map_eq_some_iff.mp hfresh
  have hstale : t.bytes block.addr = 1 := by rw [haddr, hbyte]
  refine ⟨patchedGperftools_documented, t, block, ht, hblock, hstale, ?_⟩
  intro hzeroed
  obtain ⟨u, hu, hstep⟩ := exec_snoc_cases ht
  have hzero := hzeroed writtenBlock _ u List.prefix_rfl hu samePages 1 600000 t block rfl hstep
    hblock 0 (by decide)
  rw [Nat.add_zero, hstale] at hzero
  exact absurd hzero (by decide)

end TypeSan
