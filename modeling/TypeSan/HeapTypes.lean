import TypeSan.HeapFrames
import TypeSan.ObjectChecks

/-! The types of heap blocks, over runs: from the update that gives a block its type to the casts of
pointers into it. -/
namespace TypeSan

open PageMap Rounding Runs WordMemory

/-- The event is about the block at the pointer. -/
def HeapEvent.Names (ptr : Nat) : HeapEvent → Prop
  | .realloc _ _ old _ => old = ptr
  | .free old => old = ptr
  | .update old _ => old = ptr
  | _ => False

namespace HeapState

variable {s s' : HeapState} {ptr size : Nat} {addrOf : String → Nat} {u : MetallocUpdate}

/-- What a block keeps is what its readers find. -/
theorem Frame.lookup (hi : s.InOrder) (hi' : s'.InOrder) (h : s.Frame s' ptr)
    (hsize : s.live ptr = some size) :
    s'.live ptr = some size ∧ ∀ x, ptr ≤ x → x < ptr + size →
      lookupMetadata s'.mem s'.pageTable x = lookupMetadata s.mem s.pageTable x := by
  obtain ⟨start, sp, j, ho, rfl⟩ := hi.object hsize
  obtain ⟨hsize', ho', hslots⟩ := h start sp j hsize ho
  refine ⟨hsize', fun x hlo hhi => ?_⟩
  obtain ⟨y, rfl⟩ := Nat.exists_eq_add_of_le hlo
  have hy : y < sp.objectSize := by omega
  have hok := hi.ok ho
  have hslot : metadataPtr s.pageTable (ptr + y) = sp.slot j (y / 2 ^ sp.alignment) := by
    rw [ho.addr]
    exact hok.metadataPtr_eq ho.has hy
  have hslot' : metadataPtr s'.pageTable (ptr + y) = sp.slot j (y / 2 ^ sp.alignment) := by
    rw [ho.addr]
    exact (hi'.ok ho').metadataPtr_eq ho.has hy
  obtain ⟨hbase, hinfo⟩ := hslots _ (hok.grain_lt hy)
  simp only [lookupMetadata, hslot, hslot', hbase, hinfo]

/-- A block ends below the end of user space. -/
theorem InOrder.block_end (hi : s.InOrder) (hsize : s.live ptr = some size) :
    0 < ptr ∧ ptr + size ≤ 2 ^ 47 := by
  obtain ⟨start, sp, j, ho, rfl⟩ := hi.object hsize
  have hok := hi.ok ho
  have hlast : InRange start sp.length (start + (sp.length - 1)) := by
    have := hok.length_pos
    exact ⟨Nat.le_add_right _ _, by omega⟩
  have hend := hi.low _ _ (hok.object_pages _ hlast)
  have hpages : start + (sp.length - 1) + 1 = start + sp.length := by
    have := hok.length_pos
    omega
  have hhas := ho.has
  have haddr := ho.addr
  have hpos := Nat.mul_pos hok.start_pos (show 0 < kPageSize by decide)
  rw [hpages, Nat.add_mul] at hend
  simp only [Span.HasObject, Nat.add_mul, Nat.one_mul] at hhas
  omega

/-- An update is the stores that fill the first bytes of the object. -/
theorem InOrder.typeBlock_eq (hi : s.InOrder) (h : s.typeBlock addrOf ptr u = some s') :
    ∃ start sp j E c stores, ObjectAt s.spans ptr start sp j ∧
      s.live ptr = some sp.objectSize ∧ u.target = some (E, c) ∧
      u.filledBytes E c ≤ sp.objectSize ∧
      stores = metallocWidememset (metadataPtr s.pageTable ptr)
        (granules (u.filledBytes E c) sp.alignment) (MetallocUpdate.ptrToStore E ptr)
        (MetallocUpdate.typeInfoPtrInt addrOf E c) ∧
      sp.Within j stores ∧ s' = { s with mem := WordMemory.writes s.mem stores } := by
  obtain ⟨size, hsize, h⟩ := Option.bind_eq_some_iff.mp h
  obtain ⟨⟨E, c⟩, htarget, h⟩ := Option.bind_eq_some_iff.mp h
  obtain ⟨stores, hstores, h⟩ := Option.bind_eq_some_iff.mp h
  obtain ⟨⟨halign, hle⟩, h⟩ := Option.ite_none_right_eq_some.mp h
  cases h
  obtain ⟨start, sp, j, ho, rfl⟩ := hi.object hsize
  have hok := hi.ok ho
  have hhas := ho.has
  have haddr := ho.addr
  simp only [Span.HasObject, Nat.add_mul, Nat.one_mul] at hhas
  have hreg : Registered s.pageTable (start * kPageSize) (sp.length * kPageSize)
      (sp.metaStart * kPageSize) sp.alignment := hok.registered
  have hpos := hok.objectSize_pos
  have hal := (hreg.fields (x := ptr) (by omega) (by omega)).2
  have hal_le := hok.alignment_le ho.has
  have hsize_le := hok.objectSize_le ho.has
  rw [MetallocUpdate.stores_eq addrOf htarget (Or.inr halign) (by omega) (by omega)
    (Or.inr halign) hal] at hstores
  cases hstores
  refine ⟨start, sp, j, E, c, _, ho, hsize, htarget, hle, rfl, ?_, rfl⟩
  rcases Nat.eq_zero_or_pos (u.filledBytes E c) with hzero | hfilled
  · have hnone : granules 0 sp.alignment = 0 := Nat.div_eq_of_lt (by simp)
    simp [Span.Within, hzero, hnone, metallocWidememset]
  · intro st hst
    obtain ⟨i, hi', hst⟩ := (hi.inv.mem_fill ho hfilled hle).mp hst
    refine ⟨i, Nat.lt_of_lt_of_le hi' (granules_le_grains hok hle), ?_⟩
    exact hst.imp (congrArg Prod.fst) (congrArg Prod.fst)

/-- An update gives the bytes that it is asked to fill its type, and leaves other blocks alone. -/
theorem InOrder.typeBlock (hi : s.InOrder) (h : s.typeBlock addrOf ptr u = some s') :
    s'.InOrder ∧ s'.live = s.live ∧ (∀ ptr' ≠ ptr, s.Frame s' ptr') ∧
      ∀ E c, u.target = some (E, c) → (∃ size, s.live ptr = some size ∧ u.filledBytes E c ≤ size) ∧
        ∀ x, ptr ≤ x → x < ptr + u.filledBytes E c → lookupMetadata s'.mem s'.pageTable x =
          some (MetallocUpdate.ptrToStore E ptr, MetallocUpdate.typeInfoPtrInt addrOf E c) := by
  obtain ⟨start, sp, j, E, c, stores, ho, hsize, htarget, hle, hstores, hwithin, rfl⟩ :=
    hi.typeBlock_eq h
  refine ⟨hi.writes ho hwithin, rfl, fun ptr' hne => hi.frame_writes ho hwithin hne, ?_⟩
  intro E' c' htarget'
  cases htarget.symm.trans htarget'
  refine ⟨⟨_, hsize, hle⟩, fun x hlo hhi => ?_⟩
  have hok := hi.ok ho
  have hhas := ho.has
  have haddr := ho.addr
  simp only [Span.HasObject, Nat.add_mul, Nat.one_mul] at hhas
  have hreg : Registered s.pageTable (start * kPageSize) (sp.length * kPageSize)
      (sp.metaStart * kPageSize) sp.alignment := hok.registered
  have hdvd : 2 ^ sp.alignment ∣ ptr - start * kPageSize := by
    rw [haddr, Nat.add_sub_cancel_left, hok.size_eq, ← Nat.mul_assoc]
    exact Nat.dvd_mul_left _ _
  rw [hstores]
  exact lookup_fill hreg (by omega) (by omega) (by omega) hdvd hlo hhi

end HeapState

namespace Gperftools

open HeapState

variable {G : Gperftools} {addrOf : String → Nat} {s s' t : HeapState} {e : HeapEvent}
  {history events : List HeapEvent} {ptr size : Nat}

/-- No step leaves the heap out of order, and each leaves alone the blocks that it neither types nor
takes out of use. -/
theorem step_leaves (hi : s.InOrder) (h : G.step addrOf s e = some s') :
    s'.InOrder ∧ ∀ ptr, s.Frame s' ptr ∨ e.Names ptr ∧
      (s'.live ptr = none ∨ ∃ u, e = .update ptr u) := by
  have htook {r : HeapState × Option Block} (h : s.Took r.1 r.2) : (allocated r).InOrder ∧
      ∀ ptr, s.Frame (allocated r) ptr :=
    ⟨h.inOrder.set_live r.2 h.inOrder.inv.object_live, h.frame⟩
  have hsettled {s₁ : HeapState} (h : s₁.InOrder) : s₁.settled.InOrder :=
    h.set_live none h.inv.object_live
  cases e with
  | populate a objectSize =>
    obtain ⟨⟨hpos, hle⟩, h⟩ := Option.ite_none_right_eq_some.mp h
    obtain ⟨s₁, hs₁, rfl⟩ := Option.map_eq_some_iff.mp h
    obtain ⟨⟨s₁, r⟩, hspan, rfl⟩ := Option.map_eq_some_iff.mp hs₁
    have halign : G.alignmentBitsForSize objectSize = trailingZeros 64 objectSize :=
      if_neg (Nat.not_lt.mpr hle)
    have hlt := trailingZeros_le 64 objectSize
    have hdvd : 2 ^ G.alignmentBitsForSize objectSize ∣ objectSize := by
      rw [halign]
      exact two_pow_trailingZeros_dvd 64 objectSize
    obtain ⟨hi₁, hframe⟩ := hi.newSpan (by omega) hdvd (fun _ => hpos) (by simp) hspan
    exact ⟨hsettled hi₁, fun ptr => Or.inl (hframe ptr)⟩
  | releaseSpan start =>
    obtain ⟨s₁, hs₁, rfl⟩ := Option.map_eq_some_iff.mp h
    obtain ⟨hi₁, hframe⟩ := hi.releaseSpan hs₁
    exact ⟨hsettled hi₁, fun ptr => Or.inl (hframe ptr)⟩
  | malloc a size =>
    obtain ⟨r, hr, rfl⟩ := Option.map_eq_some_iff.mp h
    exact (htook (took_doMalloc hi hr)).imp_right fun hframe ptr => Or.inl (hframe ptr)
  | calloc a n elem_size =>
    obtain ⟨r, hr, rfl⟩ := Option.map_eq_some_iff.mp h
    exact (htook (took_doCalloc hi hr)).imp_right fun hframe ptr => Or.inl (hframe ptr)
  | realloc grown exact old new_size =>
    obtain ⟨size, hsize, h⟩ := Option.bind_eq_some_iff.mp h
    obtain ⟨r, hr, rfl⟩ := Option.map_eq_some_iff.mp h
    obtain ⟨hi₁, hleaves⟩ := doRealloc_leaves hi hr
    refine ⟨hi₁.set_live r.2 hi₁.inv.object_live, fun ptr => (hleaves ptr).imp_right ?_⟩
    rintro ⟨rfl, hnone⟩
    exact ⟨rfl, Or.inl hnone⟩
  | memalign a align size =>
    obtain ⟨r, hr, rfl⟩ := Option.map_eq_some_iff.mp h
    exact (htook (took_doMemalign hi hr)).imp_right fun hframe ptr => Or.inl (hframe ptr)
  | free old =>
    obtain ⟨s₁, hs₁, rfl⟩ := Option.map_eq_some_iff.mp h
    obtain ⟨hi₁, hfreed, hframe⟩ := hi.free hs₁
    refine ⟨hsettled hi₁, fun ptr => ?_⟩
    by_cases heq : ptr = old
    · subst heq
      exact Or.inr ⟨rfl, Or.inl hfreed⟩
    · exact Or.inl (hframe ptr heq)
  | update old u =>
    obtain ⟨s₁, hs₁, rfl⟩ := Option.map_eq_some_iff.mp h
    obtain ⟨hi₁, -, hframe, -⟩ := hi.typeBlock hs₁
    refine ⟨hsettled hi₁, fun ptr => ?_⟩
    by_cases heq : ptr = old
    · subst heq
      exact Or.inr ⟨rfl, Or.inr ⟨u, rfl⟩⟩
    · exact Or.inl (hframe ptr heq)

/-- The step neither types the block nor takes it out of use. -/
def KeepsBlock (G : Gperftools) (addrOf : String → Nat) (ptr : Nat) (s : HeapState)
    (e : HeapEvent) : Prop :=
  (∀ u, e ≠ .update ptr u) ∧ ∀ s', G.step addrOf s e = some s' → (s'.live ptr).isSome

/-- A step that does not name the block neither types it nor takes it out of use. -/
theorem keepsBlock_of_not_names (hi : s.InOrder) (hsize : s.live ptr = some size)
    (he : ¬ e.Names ptr) : G.KeepsBlock addrOf ptr s e := by
  refine ⟨?_, fun s' h => ?_⟩
  · rintro u rfl
    exact he rfl
  · have hframe := ((step_leaves hi h).2 ptr).resolve_right fun hnames => he hnames.1
    obtain ⟨start, sp, j, ho, rfl⟩ := hi.object hsize
    rw [(hframe start sp j hsize ho).1]
    rfl

/-- So neither does a run that never names it. -/
theorem guarded_keepsBlock (hi : s.InOrder) (hsize : s.live ptr = some size)
    (he : ∀ e ∈ events, ¬ e.Names ptr) :
    Guarded (G.step addrOf) (G.KeepsBlock addrOf ptr) s events := by
  induction events generalizing s with
  | nil => exact guarded_nil
  | cons e events ih =>
    have hkeeps : G.KeepsBlock addrOf ptr s e :=
      keepsBlock_of_not_names hi hsize (he e List.mem_cons_self)
    refine guarded_cons hkeeps fun t ht => ?_
    obtain ⟨hit, hleaves⟩ := step_leaves hi ht
    have hframe := (hleaves ptr).resolve_right fun hnames => he e List.mem_cons_self hnames.1
    obtain ⟨hsize', -⟩ := hframe.lookup hi hit hsize
    exact ih hit hsize' fun e' he' => he e' (List.mem_cons_of_mem e he')

theorem exec_inOrder (h : exec (G.step addrOf) .initial history = some s) : s.InOrder :=
  exec_invariant (I := InOrder) initial_inOrder (fun _ _ _ hi _ hstep => (step_leaves hi hstep).1)
    guarded_true h

theorem exec_frame (hi : s.InOrder)
    (hkeeps : Guarded (G.step addrOf) (G.KeepsBlock addrOf ptr) s events)
    (h : exec (G.step addrOf) s events = some s') : s'.InOrder ∧ s.Frame s' ptr := by
  apply exec_invariant (I := fun t => t.InOrder ∧ s.Frame t ptr) ⟨hi, Frame.refl s ptr⟩ _ hkeeps h
  rintro t e u ⟨ht, hframe⟩ ⟨hother, hlive⟩ hstep
  obtain ⟨hu, hleaves⟩ := step_leaves ht hstep
  refine ⟨hu, hframe.trans ((hleaves ptr).resolve_right ?_)⟩
  rintro ⟨-, hnone | ⟨v, hv⟩⟩
  · simpa [hnone] using hlive u hstep
  · exact hother v hv

/-- A block keeps its metadata for as long as it is in use and is not typed again, whatever else is
allocated, typed and freed, and whichever spans come and go. -/
theorem lookup_of_keepsBlock (hs : exec (G.step addrOf) .initial history = some s)
    (hsize : s.live ptr = some size)
    (hkeeps : Guarded (G.step addrOf) (G.KeepsBlock addrOf ptr) s events)
    (h : exec (G.step addrOf) s events = some s') :
    s'.live ptr = some size ∧ ∀ x, ptr ≤ x → x < ptr + size →
      lookupMetadata s'.mem s'.pageTable x = lookupMetadata s.mem s.pageTable x := by
  have hi := exec_inOrder hs
  obtain ⟨hi', hframe⟩ := exec_frame hi hkeeps h
  exact hframe.lookup hi hi' hsize

/-- A block of 16 bytes is typed. -/
def typedBlock : List HeapEvent :=
  [.populate ⟨none, some 16, some (64, fun _ => 7)⟩ 16, .malloc ⟨some 0x20000, none, none⟩ 16,
    .update 0x20000 ⟨FirstArray.T.ty, 0, 1, 0⟩]

/-- The block behind it is allocated, typed and freed. -/
def neighbour : List HeapEvent :=
  [.malloc ⟨some 0x20010, none, none⟩ 12, .update 0x20010 ⟨FirstArray.E.ty, 0, 1, 0⟩,
    .free 0x20010]

theorem neighbour_names : ∀ e ∈ neighbour, ¬ e.Names 0x20000 := by
  simp [neighbour, HeapEvent.Names]

theorem exec_typedBlock : ∃ s s', exec (patchedGperftools.step FirstArray.addrOf) .initial typedBlock =
      some s ∧ s.live 0x20000 = some 16 ∧
        exec (patchedGperftools.step FirstArray.addrOf) s neighbour = some s' := by
  have hrun : (exec (patchedGperftools.step FirstArray.addrOf) .initial (typedBlock ++ neighbour)).isSome
      ∧ (exec (patchedGperftools.step FirstArray.addrOf) .initial typedBlock).map
        (fun s => s.live 0x20000) = some (some 16) := by
    decide +kernel
  obtain ⟨hall, hlive⟩ := hrun
  obtain ⟨s', hs'⟩ := Option.isSome_iff_exists.mp hall
  obtain ⟨s, hs, hsize⟩ := Option.map_eq_some_iff.mp hlive
  rw [exec_append, hs] at hs'
  exact ⟨s, s', hs, hsize, hs'⟩

theorem lookup_of_keepsBlock_of_neighbour :
    ∃ s s', exec (patchedGperftools.step FirstArray.addrOf) .initial typedBlock = some s ∧
      exec (patchedGperftools.step FirstArray.addrOf) s neighbour = some s' ∧
      ∀ x, 0x20000 ≤ x → x < 0x20000 + 16 →
        lookupMetadata s'.mem s'.pageTable x = lookupMetadata s.mem s.pageTable x := by
  obtain ⟨s, s', hs, hsize, hs'⟩ := exec_typedBlock
  have hkeeps : Guarded _ (KeepsBlock patchedGperftools FirstArray.addrOf 0x20000) s neighbour :=
    guarded_keepsBlock (exec_inOrder hs) hsize neighbour_names
  exact ⟨s, s', hs, hs', (lookup_of_keepsBlock hs hsize hkeeps hs').2⟩

/-- In every run, the bytes of a block that its last update filled find what that update wrote. -/
theorem lookup_of_last_update {u : MetallocUpdate} {E : StructType} {c x : Nat}
    (hs : exec (G.step addrOf) .initial history = some s)
    (hupdate : G.step addrOf s (.update ptr u) = some t)
    (hkeeps : Guarded (G.step addrOf) (G.KeepsBlock addrOf ptr) t events)
    (h : exec (G.step addrOf) t events = some s') (htarget : u.target = some (E, c))
    (hlo : ptr ≤ x) (hhi : x < ptr + u.filledBytes E c) :
    lookupMetadata s'.mem s'.pageTable x =
      some (MetallocUpdate.ptrToStore E ptr, MetallocUpdate.typeInfoPtrInt addrOf E c) := by
  have hi := exec_inOrder hs
  obtain ⟨ht, -⟩ := step_leaves hi hupdate
  obtain ⟨s₁, hs₁, rfl⟩ := Option.map_eq_some_iff.mp hupdate
  obtain ⟨-, hlive, -, htyped⟩ := hi.typeBlock hs₁
  obtain ⟨⟨size, hsize, hle⟩, hfilled⟩ := htyped E c htarget
  obtain ⟨hi', hframe⟩ := exec_frame ht hkeeps h
  have hsize' : s₁.settled.live ptr = some size := by
    rw [← hsize, ← hlive]
    rfl
  rw [(hframe.lookup ht hi' hsize').2 x hlo (by omega)]
  exact hfilled x hlo hhi

end Gperftools

/-! Casts of pointers into a block. -/

open Gperftools in
/-- From the update that types a block until the block is freed or typed again, and across whatever
the heap does in between, a cast on a pointer into the block is let pass just where the destination
holds a class that passes for the one asked for. -/
theorem heap_returned_iff {G : Gperftools} {addrOf : String → Nat} {s t s' : HeapState}
    {history events : List HeapEvent} {ptr : Nat} {u : MetallocUpdate} {rt : Runtime}
    {requests : List StructType} {E : StructType} {c : Nat} {units : List TranslationUnit}
    {unit v : TranslationUnit} {D : StructType} {src_addr dst_addr : Nat}
    (hs : exec (G.step addrOf) .initial history = some s)
    (hupdate : G.step addrOf s (.update ptr u) = some t)
    (hkeeps : Guarded (G.step addrOf) (G.KeepsBlock addrOf ptr) t events)
    (h : exec (G.step addrOf) t events = some s')
    (hreads : ReadsMetadata rt s'.pageTable s'.mem addrOf requests)
    (htarget : u.target = some (E, c)) (hE : E ∈ requests) (hsize : E.ty.allocSize < 2 ^ 63)
    (hloaded : Loaded units rt) (hunit : unit ∈ units) (hsub : requests ⊆ unit.types)
    (hv : v ∈ units) (hD : D ∈ v.types) (hlo : ptr ≤ src_addr)
    (hhi : src_addr < ptr + u.filledBytes E c) (hdst : ptr ≤ dst_addr) (hend : dst_addr < 2 ^ 63)
    (hin : c = 1 → dst_addr < ptr + E.ty.allocSize) :
    Checks rt src_addr dst_addr (getHashCodeFromStruct D) .returned ↔
      ∃ U, (Outermost E.ty ((dst_addr - ptr) % E.ty.allocSize) U ∨
        Wraps E ((dst_addr - ptr) % E.ty.allocSize) U) ∧ PassesFor units U D := by
  have hi := exec_inOrder hs
  obtain ⟨s₁, hs₁, -⟩ := Option.map_eq_some_iff.mp hupdate
  obtain ⟨-, -, -, htyped⟩ := hi.typeBlock hs₁
  obtain ⟨⟨size, hlive, hle⟩, -⟩ := htyped E c htarget
  obtain ⟨hpos, hbelow⟩ := hi.block_end hlive
  have hlookup (x : Nat) (hlo : ptr ≤ x) (hhi : x < ptr + u.filledBytes E c) :=
    lookup_of_last_update hs hupdate hkeeps h htarget hlo hhi
  exact hreads.returned_iff hE hpos (by omega) hsize hlookup hloaded hunit hsub hv hD hlo hhi hdst
    hend hin

open FirstArray SecondElement Gperftools in
theorem heap_returned_of_second_element :
    ∃ s s', exec (patchedGperftools.step addrOf) .initial typedBlock = some s ∧
      exec (patchedGperftools.step addrOf) s neighbour = some s' ∧
      Checks (runtimeOf s'.pageTable s'.mem) 0x20000 0x20008 (getHashCodeFromStruct E) .returned := by
  obtain ⟨t, s', ht, hsize, hs'⟩ := exec_typedBlock
  have hkeeps : Guarded _ (KeepsBlock patchedGperftools addrOf 0x20000) t neighbour :=
    guarded_keepsBlock (exec_inOrder ht) hsize neighbour_names
  refine ⟨t, s', ht, hs', ?_⟩
  have hunmapped : ∀ i < 16, s'.mem (0x1000 + 8 * i) = none ∧ s'.mem (0x2000 + 8 * i) = none := by
    have hrun : (exec (patchedGperftools.step addrOf) .initial (typedBlock ++ neighbour)).map (fun s =>
        decide (∀ i < 16, s.mem (0x1000 + 8 * i) = none ∧ s.mem (0x2000 + 8 * i) = none)) =
          some true := by
      decide +kernel
    rw [exec_append, ht, Option.bind_some, hs', Option.map_some, Option.some.injEq,
      decide_eq_true_eq] at hrun
    exact hrun
  have hlast : exec (patchedGperftools.step addrOf) .initial
      (typedBlock.dropLast ++ [.update 0x20000 ⟨T.ty, 0, 1, 0⟩]) = some t := ht
  obtain ⟨s, hs, hupdate⟩ := exec_snoc_cases hlast
  have hunit : unit ∈ [unit] := List.mem_singleton_self unit
  have hT : [T] ⊆ unit.types := by decide
  have hE : E ∈ unit.types := by decide
  exact (heap_returned_iff hs hupdate hkeeps hs' (readsMetadata s'.pageTable hunmapped) rfl
    (List.mem_singleton_self T) (by decide) (loaded rfl) hunit hT hunit hE (by decide) (by decide)
    (by decide) (by decide) (by decide)).mpr ⟨E, Or.inl outermost_second, Or.inl (by decide)⟩

end TypeSan
