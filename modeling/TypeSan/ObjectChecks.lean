import TypeSan.FalsePositives

/-! Checks of pointers into an object whose metadata is there, for casts that keep the address and
for ones that change it. -/
namespace TypeSan

open WordMemory

/-- Each byte of an object finds its base, and the table of its type: behind the size word for a
single object, else at it. -/
structure TypedObject (rt : Runtime) (addrOf : String → Nat) (requests : List StructType)
    (T : StructType) (single : Bool) (base size : Nat) : Prop where
  globals_at : ∃ globals, typeInfoGlobals requests = some globals ∧ GlobalsAt rt.mem addrOf globals
  requested : T ∈ requests
  base_pos : 0 < base
  fits : base + size ≤ 2 ^ 63
  size_lt : T.ty.allocSize < 2 ^ 63
  metadata : ∀ x, base ≤ x → x < base + size → lookupMetadata rt.mem rt.pageTable x =
    some (base, if single then addrOf T.typeInfoName + 8 else addrOf T.typeInfoName)

section Verdict

variable {rt : Runtime} {addrOf : String → Nat} {types requests : List StructType}
  {T : StructType} {single : Bool} {base size src_addr dst_addr dst : Nat}
  (h : TypedObject rt addrOf requests T single base size) (hlo : base ≤ src_addr)
  (hhi : src_addr < base + size)
include h hlo hhi

/-- A destination in front of the object is reported, whatever lies there. -/
theorem TypedObject.checks_negative (hdst : dst_addr < base) (result : CheckResult) :
    Checks rt src_addr dst_addr dst result ↔ result = .reported .negativeOffset := by
  have hlookup := h.metadata src_addr hlo hhi
  have hpos := h.base_pos
  have hfits := h.fits
  obtain ⟨alloc_base, hbase, hlookup⟩ := Option.bind_eq_some_iff.mp hlookup
  obtain ⟨typeInfo, htypeInfo, heq⟩ := Option.bind_eq_some_iff.mp hlookup
  obtain ⟨rfl, -⟩ := Prod.mk.inj (Option.some.inj heq)
  have hoffset : toLong ((dst_addr + 2 ^ 64 - alloc_base) % 2 ^ 64) < 0 := by
    rw [Nat.mod_eq_of_lt (by omega), toLong, if_neg (by omega)]
    omega
  have hcheck (fuel : Nat) : checkCast rt fuel src_addr dst_addr dst =
      some (.reported .negativeOffset) := by
    simp only [checkCast, hbase]
    rw [if_neg (by omega), if_neg (by omega), if_pos hoffset]
  simp only [Checks, hcheck, Option.some.injEq]
  constructor
  · rintro ⟨-, hresult⟩
    exact hresult.symm
  · exact fun hresult => ⟨0, hresult.symm⟩

variable (hdst : base ≤ dst_addr) (hend : dst_addr < 2 ^ 63)
include hdst hend

/-- The check starts at the table, with the offset of the destination. -/
theorem TypedObject.checkCast_eq (fuel : Nat) :
    checkCast rt fuel src_addr dst_addr dst = checkFrom rt fuel (dst_addr - base : Nat)
      (if single then addrOf T.typeInfoName + 8 else addrOf T.typeInfoName) dst := by
  have hlookup := h.metadata src_addr hlo hhi
  have hpos := h.base_pos
  obtain ⟨alloc_base, hbase, hlookup⟩ := Option.bind_eq_some_iff.mp hlookup
  obtain ⟨typeInfo, htypeInfo, heq⟩ := Option.bind_eq_some_iff.mp hlookup
  obtain ⟨rfl, rfl⟩ := Prod.mk.inj (Option.some.inj heq)
  have hoffset : toLong ((dst_addr + 2 ^ 64 - alloc_base) % 2 ^ 64) =
      (dst_addr - alloc_base : Nat) := by
    rw [show (dst_addr + 2 ^ 64 - alloc_base) % 2 ^ 64 = dst_addr - alloc_base by omega,
      toLong_of_lt (by omega)]
  simp only [checkCast, hbase, htypeInfo, hoffset]
  rw [if_neg (by omega), if_neg (by omega), if_neg (by omega)]

variable (hT : TrackedTypes types) (hsub : requests ⊆ types)
  (hin : single = true → dst_addr < base + T.ty.allocSize)
include hT hsub hin

/-- The check compares the class that the walk finds at the destination's offset in its element. -/
theorem TypedObject.checks :
    ∃ r src, Walks T.offsets ((dst_addr - base) % T.ty.allocSize) r ∧ SrcOf src r ∧
      ∀ dst result, Checks rt src_addr dst_addr dst result ↔
        result = compareHashes rt.hashToSetMap src dst := by
  obtain ⟨globals, hpopulated, hglobals⟩ := h.globals_at
  obtain ⟨globals', hpopulated', hok, htables⟩ := hT.typeInfoGlobals hsub
  obtain rfl := Option.some.inj (hpopulated.symm.trans hpopulated')
  have htypes := hsub h.requested
  have hpos := (hT.solid T htypes).allocSize_pos
  have hwalkable := hT.walkable hok hglobals htypes h.size_lt (htables T h.requested)
  obtain ⟨r, src, hr, hsrc, hy⟩ := hwalkable.walks _ (Nat.mod_lt (dst_addr - base) hpos)
  refine ⟨r, src, hr, hsrc, ?_⟩
  intro dst result
  simp only [Checks, h.checkCast_eq hlo hhi hdst hend]
  cases single with
  | true =>
    have hsmall := hin rfl
    rw [Nat.mod_eq_of_lt (by omega)] at hy
    exact checkFrom_iff hwalkable.first_word (by decide) (fun fuel => rfl) hy result
  | false =>
    have hrest : ((dst_addr - base : Nat) : Int).tmod (toLong T.ty.allocSize) =
        ((dst_addr - base) % T.ty.allocSize : Nat) := by
      rw [toLong_of_lt h.size_lt]
      rfl
    have hword := h.size_lt
    refine checkFrom_iff hwalkable.size_word ?_ (fun fuel => ?_) hy result
    · rw [minusOne]
      omega
    · rw [if_pos (Nat.pos_iff_ne_zero.mp hpos), hrest]

/-- A check that returns has landed on a class that passes for the destination. -/
theorem TypedObject.returned_iff {sets : HashToSetMap} (hsets : rt.hashToSetMap = some sets)
    (hnone : sets.lookup minusOne = none) (hne : dst ≠ minusOne) :
    Checks rt src_addr dst_addr dst .returned ↔
      ∃ U, (Outermost T.ty ((dst_addr - base) % T.ty.allocSize) U ∨
        Wraps T ((dst_addr - base) % T.ty.allocSize) U) ∧ Accepts sets U dst := by
  have htypes := hsub h.requested
  have hTsolid := hT.solid T htypes
  obtain ⟨r, src, hr, hsrc, hchecks⟩ := h.checks hlo hhi hdst hend hT hsub hin
  rw [hchecks, hsets, eq_comm]
  simp only [← walks_iff hTsolid]
  cases r with
  | some U =>
    cases hsrc
    rw [compareHashes_returned (hT.hash_ne_zero U (hT.walks_mem htypes hr))]
    constructor
    · exact fun hU => ⟨U, hr, hU⟩
    · rintro ⟨V, hV, hdst⟩
      cases walks_unique hTsolid hr hV
      exact hdst
  | none =>
    refine ⟨fun hreturned => (compareHashes_none hsrc hnone hne hreturned).elim, ?_⟩
    rintro ⟨V, hV, -⟩
    cases walks_unique hTsolid hr hV

end Verdict

/-! The classes that a loaded program lets a pointer pass for. -/

/-- The one class starts with the other, or the other is a phantom class below one that it starts
with, in a module that knows both. -/
def PassesFor (units : List TranslationUnit) (U D : StructType) : Prop :=
  D ∈ U.chain ∨ ∃ v ∈ units, U ∈ v.types ∧ D ∈ v.types ∧ ∃ B ∈ U.chain, PhantomBelow D B

/-- The modules of a program, and what their constructors have left behind. -/
structure Loaded (units : List TranslationUnit) (rt : Runtime) : Prop where
  tracked : ∀ u ∈ units, TrackedTypes u.types
  no_base : ∀ u ∈ units, ∀ s ∈ u.types, endswith (s.name.getD "") ".base" = false
  small : ∀ u ∈ units, u.Small
  distinct : DistinctHashes units
  init : initAll units none = some rt.hashToSetMap

section Loaded

variable {units : List TranslationUnit} {rt : Runtime} {u v : TranslationUnit} {U D : StructType}
  (h : Loaded units rt) (hu : u ∈ units) (hU : U ∈ u.types)
include h hu hU

theorem Loaded.isEmitted : U.isEmitted = true := by
  simp [StructType.isEmitted, (h.tracked u hu).tracked U hU, h.no_base u hu U hU]

/-- A class is told from the others by its hash. -/
theorem Loaded.eq_of_hash (hv : v ∈ units) (hD : D ∈ v.types)
    (heq : getHashCodeFromStruct D = getHashCodeFromStruct U) : D = U :=
  h.distinct v hv u hu D hD U hU (h.isEmitted hv hD) (h.isEmitted hu hU) heq

/-- No set is kept for the word that ends a table. -/
theorem Loaded.sets : ∃ sets, rt.hashToSetMap = some sets ∧ sets.lookup minusOne = none ∧
    Stored sets (getHashCodeFromStruct U) fun hash => hash ∈ hashes U.ancestors ∨
      ∃ v ∈ units, U ∈ v.types ∧ FakeParent v.types U hash := by
  obtain ⟨sets, hsets, hstored⟩ :=
    initAll_stored h.small (h.distinct.own hu hU (h.isEmitted hu hU)) hu
      ((h.tracked u hu).emits (h.no_base u hu) hU)
  have hmap : rt.hashToSetMap = some sets := Option.some.inj (h.init.symm.trans hsets)
  refine ⟨sets, hmap, ?_, hstored⟩
  obtain ⟨blocks, hblocks, hrun⟩ := initAll_eq h.small
  obtain ⟨sets', hsets', heq⟩ := hrun none
  obtain rfl := Option.some.inj (hsets.symm.trans hsets')
  refine (congrArg _ heq).trans (lookup_foldl_none rfl fun b hb => ?_)
  obtain ⟨w, hw, hemits, -⟩ := hblocks.emits b hb
  exact (h.tracked w hw).hash_ne_minusOne b.1 hemits.mem

/-- A pointer to a class is let pass for those that its modules say. -/
theorem Loaded.accepts_iff (hv : v ∈ units) (hD : D ∈ v.types) {sets : HashToSetMap}
    (hsets : rt.hashToSetMap = some sets) :
    Accepts sets U (getHashCodeFromStruct D) ↔ PassesFor units U D := by
  obtain ⟨sets', hsets', -, set, hset, hmem⟩ := h.sets hu hU
  cases hsets.symm.trans hsets'
  have hchain := chain_eq ((h.tracked u hu).name_isSome hU)
  have hancestor : getHashCodeFromStruct D ∈ hashes U.ancestors ↔ D ∈ U.ancestors := by
    constructor
    · intro hhash
      obtain ⟨A, hA, heq⟩ := List.mem_map.mp hhash
      have hAu : A ∈ u.types :=
        u.moduleTypes.chain_subset hU (hchain ▸ List.mem_cons_of_mem U hA)
      rwa [h.eq_of_hash hu hAu hv hD heq.symm]
    · exact fun hA => List.mem_map_of_mem hA
  have hfake : (∃ w ∈ units, U ∈ w.types ∧ FakeParent w.types U (getHashCodeFromStruct D)) ↔
      ∃ w ∈ units, U ∈ w.types ∧ D ∈ w.types ∧ ∃ B ∈ U.chain, PhantomBelow D B := by
    refine exists_congr fun w => and_congr_right fun hw => and_congr_right fun hUw => ?_
    constructor
    · rintro ⟨B, hB, Q, hQ, hbelow, hhash, -⟩
      obtain rfl := h.eq_of_hash hw hQ hv hD hhash
      exact ⟨hQ, B, hB, hbelow⟩
    · rintro ⟨hDw, B, hB, hbelow⟩
      have hBw := w.moduleTypes.chain_subset hUw hB
      exact ⟨B, hB, D, hDw, hbelow, rfl, Or.inl ((h.tracked w hw).isRemembered hBw)⟩
  have hstored : getHashCodeFromStruct D ∈ set ↔ D ∈ U.ancestors ∨
      ∃ w ∈ units, U ∈ w.types ∧ D ∈ w.types ∧ ∃ B ∈ U.chain, PhantomBelow D B :=
    (hmem _).trans (or_congr hancestor hfake)
  rw [PassesFor, show D ∈ U.chain ↔ D = U ∨ D ∈ U.ancestors by rw [hchain, List.mem_cons],
    or_assoc, ← hstored, Accepts]
  constructor
  · rintro (heq | ⟨set', hset', hhash⟩)
    · exact Or.inl (h.eq_of_hash hu hU hv hD heq)
    · cases hset.symm.trans hset'
      exact Or.inr hhash
  · rintro (rfl | hhash)
    · exact Or.inl rfl
    · exact Or.inr ⟨set, hset, hhash⟩

end Loaded

/-- Once the modules are loaded, a cast to a class of one of them, on an object of a type of another,
is let pass where the walk lands on a class that passes for it. -/
theorem Loaded.returned_iff {units : List TranslationUnit} {rt : Runtime} {addrOf : String → Nat}
    {u v : TranslationUnit} {requests : List StructType} {T D : StructType} {single : Bool}
    {base size src_addr dst_addr : Nat} (h : Loaded units rt) (hu : u ∈ units) (hv : v ∈ units)
    (hD : D ∈ v.types) (hsub : requests ⊆ u.types)
    (hobject : TypedObject rt addrOf requests T single base size) (hlo : base ≤ src_addr)
    (hhi : src_addr < base + size) (hdst : base ≤ dst_addr) (hend : dst_addr < 2 ^ 63)
    (hin : single = true → dst_addr < base + T.ty.allocSize) :
    Checks rt src_addr dst_addr (getHashCodeFromStruct D) .returned ↔
      ∃ U, (Outermost T.ty ((dst_addr - base) % T.ty.allocSize) U ∨
        Wraps T ((dst_addr - base) % T.ty.allocSize) U) ∧ PassesFor units U D := by
  have hT := h.tracked u hu
  have hTtypes := hsub hobject.requested
  obtain ⟨sets, hsets, hnone, -⟩ := h.sets hu hTtypes
  rw [hobject.returned_iff hlo hhi hdst hend hT hsub hin hsets hnone
    ((h.tracked v hv).hash_ne_minusOne D hD)]
  refine exists_congr fun U => and_congr_right fun hU => ?_
  have hUtypes : U ∈ u.types :=
    hT.walks_mem hTtypes ((walks_iff (hT.solid T hTtypes)).mpr hU)
  exact h.accepts_iff hu hUtypes hv hD hsets

/-! Objects that an update has typed. -/

/-- The run-time library reads the page table, the metadata, and the tables of a module. -/
structure ReadsMetadata (rt : Runtime) (pageTable : PageTable) (mem : Memory)
    (addrOf : String → Nat) (requests : List StructType) : Prop where
  pageTable : rt.pageTable = pageTable
  metadata : Sub mem rt.mem
  globals_at : ∃ globals, typeInfoGlobals requests = some globals ∧ GlobalsAt rt.mem addrOf globals
  addr_lt : ∀ T ∈ requests, addrOf T.typeInfoName + 8 < 2 ^ 64

theorem lookupMetadata_sub {mem mem' : Memory} (hsub : Sub mem mem') {pageTable : PageTable}
    {x : Nat} {found : Nat × Nat} (h : lookupMetadata mem pageTable x = some found) :
    lookupMetadata mem' pageTable x = some found := by
  obtain ⟨alloc_base, hbase, h⟩ := Option.bind_eq_some_iff.mp h
  obtain ⟨typeInfo, htypeInfo, h⟩ := Option.bind_eq_some_iff.mp h
  simp only [lookupMetadata, hsub _ _ hbase, hsub _ _ htypeInfo]
  exact h

section Reads

variable {rt : Runtime} {pageTable : PageTable} {mem : Memory} {addrOf : String → Nat}
  {requests : List StructType} {E : StructType} {base size c : Nat}
  (h : ReadsMetadata rt pageTable mem addrOf requests) (hE : E ∈ requests) (hpos : 0 < base)
  (hfits : base + size ≤ 2 ^ 63) (hsize : E.ty.allocSize < 2 ^ 63)
  (hlookup : ∀ x, base ≤ x → x < base + size → lookupMetadata mem pageTable x =
    some (MetallocUpdate.ptrToStore E base, MetallocUpdate.typeInfoPtrInt addrOf E c))
include h hE hpos hfits hsize hlookup

/-- Where each byte finds what an update of an identified struct writes, there is an object. -/
theorem ReadsMetadata.typedObject (hname : E.name ≠ none) :
    TypedObject rt addrOf requests E (c = 1) base size := by
  refine ⟨h.globals_at, hE, hpos, hfits, hsize, fun x hlo hhi => ?_⟩
  rw [h.pageTable, lookupMetadata_sub h.metadata (hlookup x hlo hhi), MetallocUpdate.ptrToStore,
    if_neg hname, MetallocUpdate.typeInfoPtrInt, Nat.mod_eq_of_lt (h.addr_lt E hE)]
  simp only [decide_eq_true_eq]

/-- A cast on a pointer into it is let pass just where the destination holds a class that passes for
the one asked for. -/
theorem ReadsMetadata.returned_iff {units : List TranslationUnit} {unit v : TranslationUnit}
    {D : StructType} {src_addr dst_addr : Nat} (hloaded : Loaded units rt) (hunit : unit ∈ units)
    (hsub : requests ⊆ unit.types) (hv : v ∈ units) (hD : D ∈ v.types) (hlo : base ≤ src_addr)
    (hhi : src_addr < base + size) (hdst : base ≤ dst_addr) (hend : dst_addr < 2 ^ 63)
    (hin : c = 1 → dst_addr < base + E.ty.allocSize) :
    Checks rt src_addr dst_addr (getHashCodeFromStruct D) .returned ↔
      ∃ U, (Outermost E.ty ((dst_addr - base) % E.ty.allocSize) U ∨
        Wraps E ((dst_addr - base) % E.ty.allocSize) U) ∧ PassesFor units U D := by
  have hname : E.name ≠ none :=
    Option.isSome_iff_ne_none.mp ((hloaded.tracked unit hunit).name_isSome (hsub hE))
  have hobject := h.typedObject hE hpos hfits hsize hlookup hname
  exact hloaded.returned_iff hunit hv hD hsub hobject hlo hhi hdst hend (by simpa using hin)

end Reads

/-! An array, whose second element is cast to. -/

namespace SecondElement

open FirstArray

/-- Where the tables of the two types are. -/
def tables : Memory := fun address =>
  [(0x1000, 8), (0x1008, 0), (0x1010, getHashCodeFromStruct E), (0x1018, minusOne),
    (0x2000, 16), (0x2008, 0), (0x2010, getHashCodeFromStruct T), (0x2018, 1 <<< 63 ||| 8),
    (0x2020, 0x1000), (0x2028, minusOne)].lookup address

def runtimeOf (pageTable : PageTable) (mem : Memory) : Runtime where
  pageTable := pageTable
  mem := fun address => (mem address).or (tables address)
  hashToSetMap := some [(getHashCodeFromStruct E, []), (getHashCodeFromStruct T, [])]

theorem loaded {rt : Runtime} (h : rt.hashToSetMap =
    some [(getHashCodeFromStruct E, []), (getHashCodeFromStruct T, [])]) : Loaded [unit] rt where
  tracked := by simpa using trackedTypes
  no_base := by decide
  small := by simpa using small
  distinct := by
    unfold DistinctHashes
    decide
  init := by
    rw [h]
    decide

/-- The second element starts at offset 8, and nothing larger does. -/
theorem outermost_second : Outermost T.ty 8 E := by
  have hrow := rowOf_array Nat.one_pos (rowOf_struct (trackedTypes.solid T (by decide)))
  refine ⟨((hrow.holds 8 E).mp (element (j := 1) (by decide))).2, fun D hD => ?_⟩
  rcases List.mem_pair.mp (trackedTypes.closed T (by decide) 8 D hD) with rfl | rfl
  · exact subobject_self E
  · exact absurd (subobject_end_le hD) (by decide)

theorem readsMetadata (pageTable : PageTable) {mem : Memory} (h : ∀ i < 16,
    mem (0x1000 + 8 * i) = none ∧ mem (0x2000 + 8 * i) = none) :
    ReadsMetadata (runtimeOf pageTable mem) pageTable mem addrOf [T] where
  pageTable := rfl
  metadata address word hword := by simp [runtimeOf, hword]
  globals_at := by
    have hholds (g : String × List Const) (hg : g ∈ globals) (i : Nat)
        (hi : i < (wordsOf addrOf g.2).length) :
        mem (addrOf g.1 + 8 * i) = none ∧
          tables (addrOf g.1 + 8 * i) = some (wordsOf addrOf g.2)[i] := by
      have hall : ∀ g ∈ globals, (addrOf g.1 = 0x1000 ∨ addrOf g.1 = 0x2000) ∧
          (wordsOf addrOf g.2).length ≤ 16 ∧ Holds tables (addrOf g.1) (wordsOf addrOf g.2) := by
        decide
      obtain ⟨haddr, hlength, hwords⟩ := hall g hg
      refine ⟨?_, hwords i hi⟩
      rcases haddr with haddr | haddr
      · rw [haddr]
        exact (h i (by omega)).1
      · rw [haddr]
        exact (h i (by omega)).2
    refine ⟨globals, by decide, fun g hg i hi => ?_⟩
    simp [runtimeOf, hholds g hg i hi]
  addr_lt := by decide

end SecondElement

end TypeSan
