import TypeSan.Landing

/-! Which casts on an object the check lets pass. -/
namespace TypeSan

open WordMemory

/-- The check ends with the result, given enough fuel. -/
def Checks (rt : Runtime) (src_addr dst_addr dst : Nat) (result : CheckResult) : Prop :=
  ∃ fuel, checkCast rt fuel src_addr dst_addr dst = some result

/-- A pointer to an object of the class passes for one to the destination class. -/
def Accepts (hashToSetMap : HashToSetMap) (U : StructType) (dst : Nat) : Prop :=
  dst = getHashCodeFromStruct U ∨
    ∃ set, hashToSetMap.lookup (getHashCodeFromStruct U) = some set ∧ dst ∈ set

/-- An allocation of `n` structs, with its metadata and the tables of its module in memory. -/
structure TypedAllocation (rt : Runtime) (addrOf : String → Nat) (requests : List StructType)
    (globals : Globals) (T : StructType) (n base : Nat) : Prop where
  populated : typeInfoGlobals requests = some globals
  globals_at : GlobalsAt rt.mem addrOf globals
  requested : T ∈ requests
  base_pos : 0 < base
  fits : base + n * T.ty.allocSize ≤ 2 ^ 63
  metadata : ∀ k < n * T.ty.allocSize, lookupMetadata rt.mem rt.pageTable (base + k) =
    some (base, if n = 1 then addrOf T.typeInfoName + 8 else addrOf T.typeInfoName)

section Check

variable {rt : Runtime} {dst : Nat}

/-- What the walk yields decides the check. -/
theorem checkFrom_iff {offset offset' : Int} {currentOffset typeInfo typeInfo' src : Nat}
    (hfirst : rt.mem typeInfo = some currentOffset) (hne : currentOffset ≠ minusOne)
    (hwalk : ∀ fuel, walk rt.mem fuel offset' 0 typeInfo' =
      if currentOffset ≠ 0 then
        walk rt.mem fuel (offset.tmod (toLong currentOffset)) 0 (typeInfo + 8)
      else walk rt.mem fuel offset 0 typeInfo)
    (hy : Yields rt.mem offset' 0 typeInfo' (.src src)) (r : CheckResult) :
    (∃ fuel, checkFrom rt fuel offset typeInfo dst = some r) ↔
      r = compareHashes rt.hashToSetMap src dst := by
  simp only [checkFrom, hfirst, if_neg hne, ← hwalk]
  constructor
  · rintro ⟨fuel, h⟩
    obtain ⟨found, hfound, rfl⟩ := Option.map_eq_some_iff.mp h
    rw [Yields.unique ⟨fuel, hfound⟩ hy]
  · rintro rfl
    obtain ⟨fuel, hfuel⟩ := hy
    exact ⟨fuel, by rw [hfuel]; rfl⟩

variable {addrOf : String → Nat} {types requests : List StructType} {globals : Globals}
  {T : StructType} {n base k : Nat}

/-- The check of a pointer into an allocation starts at its typeinfo. -/
theorem checkCast_eq_checkFrom {typeInfo : Nat}
    (hlookup : lookupMetadata rt.mem rt.pageTable (base + k) = some (base, typeInfo))
    (hpos : 0 < base) (hfits : base + k < 2 ^ 63) (fuel : Nat) :
    checkCast rt fuel (base + k) (base + k) dst = checkFrom rt fuel k typeInfo dst := by
  obtain ⟨alloc_base, hbase, hlookup⟩ := Option.bind_eq_some_iff.mp hlookup
  obtain ⟨typeInfo, htypeInfo, heq⟩ := Option.bind_eq_some_iff.mp hlookup
  obtain ⟨rfl, rfl⟩ := Prod.mk.inj (Option.some.inj heq)
  have hoffset : toLong ((alloc_base + k + 2 ^ 64 - alloc_base) % 2 ^ 64) = k := by
    rw [show (alloc_base + k + 2 ^ 64 - alloc_base) % 2 ^ 64 = k by omega, toLong_of_lt (by omega)]
  simp only [checkCast, hbase, htypeInfo, hoffset]
  rw [if_neg (by omega), if_neg (by omega), if_neg (by omega)]

theorem TypedAllocation.checkCast_eq (h : TypedAllocation rt addrOf requests globals T n base)
    (hk : k < n * T.ty.allocSize) (fuel : Nat) :
    checkCast rt fuel (base + k) (base + k) dst =
      checkFrom rt fuel k (if n = 1 then addrOf T.typeInfoName + 8 else addrOf T.typeInfoName)
        dst := by
  have hfits := h.fits
  exact checkCast_eq_checkFrom (h.metadata k hk) h.base_pos (by omega) fuel

/-- The check of a pointer into an allocation compares the class that the walk through the table
finds, in the array's element. -/
theorem TypedAllocation.checks (hT : TrackedTypes types) (hsub : requests ⊆ types)
    (h : TypedAllocation rt addrOf requests globals T n base) (hk : k < n * T.ty.allocSize) :
    ∃ r src, Walks T.offsets (k % T.ty.allocSize) r ∧ SrcOf src r ∧ ∀ dst result,
      Checks rt (base + k) (base + k) dst result ↔
        result = compareHashes rt.hashToSetMap src dst := by
  obtain ⟨globals', hglobals, hok, htables⟩ := hT.typeInfoGlobals hsub
  obtain rfl := Option.some.inj (h.populated.symm.trans hglobals)
  have htypes := hsub h.requested
  have hpos := (hT.solid T htypes).allocSize_pos
  have hfits := h.fits
  have hbase := h.base_pos
  have hn : 0 < n := Nat.pos_of_mul_pos_right (Nat.zero_lt_of_lt hk)
  have hle : T.ty.allocSize ≤ n * T.ty.allocSize := Nat.le_mul_of_pos_left _ hn
  have hsize : T.ty.allocSize < 2 ^ 63 := by omega
  have hwalkable := hT.walkable hok h.globals_at htypes hsize (htables T h.requested)
  obtain ⟨r, src, hr, hsrc, hy⟩ := hwalkable.walks _ (Nat.mod_lt k hpos)
  refine ⟨r, src, hr, hsrc, ?_⟩
  intro dst result
  simp only [Checks, h.checkCast_eq hk]
  by_cases hone : n = 1
  · rw [if_pos hone]
    rw [hone, Nat.one_mul] at hk
    rw [Nat.mod_eq_of_lt hk] at hy
    exact checkFrom_iff hwalkable.first_word (by decide) (fun fuel => rfl) hy result
  · rw [if_neg hone]
    have hrest : (k : Int).tmod (toLong T.ty.allocSize) = (k % T.ty.allocSize : Nat) := by
      rw [toLong_of_lt hsize]
      rfl
    refine checkFrom_iff hwalkable.size_word ?_ (fun fuel => ?_) hy result
    · rw [minusOne]
      omega
    · rw [if_pos (Nat.pos_iff_ne_zero.mp hpos), hrest]

/-- The walk lands on types of the module. -/
theorem TrackedTypes.walks_mem (hT : TrackedTypes types) {E U : StructType} (hE : E ∈ types)
    {k : Nat} (h : Walks E.offsets k (some U)) : U ∈ types := by
  generalize hL : E.offsets = L at h
  generalize hr : some U = r at h
  induction h generalizing E with
  | hit h =>
    cases hr
    subst hL
    exact hT.closed E hE _ U ((subobject_hit (hT.solid E hE) h).mpr (subobject_self U))
  | inside h _ _ _ ih =>
    subst hL
    exact ih (hT.closed E hE _ _ (arrayEntry_subobject (hT.solid E hE) h)) rfl hr
  | behind h _ _ ih =>
    subst hL
    exact ih (hT.closed E hE _ _ (arrayEntry_subobject (hT.solid E hE) (List.mem_of_getLast? h)))
      rfl hr
  | miss => cases hr

theorem compareHashes_returned {sets : HashToSetMap} {U : StructType}
    (hU : getHashCodeFromStruct U ≠ 0) :
    compareHashes (some sets) (getHashCodeFromStruct U) dst = .returned ↔ Accepts sets U dst := by
  rw [compareHashes, if_neg hU, Accepts]
  split
  · rename_i heq
    exact ⟨fun _ => Or.inl heq.symm, fun _ => rfl⟩
  · rename_i hne
    have hne' : dst ≠ getHashCodeFromStruct U := Ne.symm hne
    cases hset : sets.lookup (getHashCodeFromStruct U) with
    | none => simp [hne']
    | some set => simp [hne']

/-- Neither of the words that the walk ends on outside all classes passes. -/
theorem compareHashes_none {sets : HashToSetMap} {src : Nat} (hsrc : SrcOf src none)
    (hsets : sets.lookup minusOne = none) (hdst : dst ≠ minusOne) :
    compareHashes (some sets) src dst ≠ .returned := by
  rcases hsrc with rfl | rfl
  · simp [compareHashes]
  · have hne : minusOne ≠ 0 := by decide
    simp [compareHashes, hne, Ne.symm hdst, hsets]

/-- A check that returns has landed on a class that passes for the destination. -/
theorem TypedAllocation.returned_iff (hT : TrackedTypes types) (hsub : requests ⊆ types)
    (h : TypedAllocation rt addrOf requests globals T n base) {sets : HashToSetMap}
    (hsets : rt.hashToSetMap = some sets) (hnone : sets.lookup minusOne = none)
    (hk : k < n * T.ty.allocSize) (hdst : dst ≠ minusOne) :
    Checks rt (base + k) (base + k) dst .returned ↔
      ∃ U, (Outermost T.ty (k % T.ty.allocSize) U ∨ Wraps T (k % T.ty.allocSize) U) ∧
        Accepts sets U dst := by
  have htypes := hsub h.requested
  have hTsolid := hT.solid T htypes
  obtain ⟨r, src, hr, hsrc, hchecks⟩ := h.checks hT hsub hk
  rw [hchecks, hsets, eq_comm]
  simp only [← walks_iff hTsolid]
  cases r with
  | some U =>
    cases hsrc
    rw [compareHashes_returned (hT.hash_ne_zero U (hT.walks_mem htypes hr))]
    constructor
    · exact fun hU => ⟨U, hr, hU⟩
    · rintro ⟨V, hV, hdst⟩
      cases walks_unique hTsolid hr hV
      exact hdst
  | none =>
    refine ⟨fun hreturned => (compareHashes_none hsrc hnone hdst hreturned).elim, ?_⟩
    rintro ⟨V, hV, -⟩
    cases walks_unique hTsolid hr hV

end Check

/-- The struct objects of an array of structs are those of its elements. -/
theorem outermost_array {T U : StructType} {n k : Nat} (hT : Solid T.ty)
    (hk : k < n * T.ty.allocSize) :
    Outermost (.array n T.ty) k U ↔ Outermost T.ty (k % T.ty.allocSize) U := by
  have hn : 0 < n := Nat.pos_of_mul_pos_right (Nat.zero_lt_of_lt hk)
  have hrow := rowOf_array hn (rowOf_struct hT)
  rw [Nat.mul_one] at hrow
  simp only [Outermost, hrow.holds, hk, true_and]

/-- No confusion is missed: a check that returns found a struct object that starts at the offset, and
its outermost class passes for the destination. -/
def NoMissedConfusion (rt : Runtime) (sets : HashToSetMap) (T : StructType) (n base k dst : Nat) :
    Prop :=
  Checks rt (base + k) (base + k) dst .returned →
    ∃ U, Outermost (.array n T.ty) k U ∧ Accepts sets U dst

/-- A confusion is missed just where the walk wraps around, behind the array that ends a layout, to a
class that passes for the destination. -/
theorem noMissedConfusion_iff {rt : Runtime} {addrOf : String → Nat}
    {types requests : List StructType} {globals : Globals} {T : StructType} {n base k dst : Nat}
    {sets : HashToSetMap} (hT : TrackedTypes types) (hsub : requests ⊆ types)
    (h : TypedAllocation rt addrOf requests globals T n base) (hsets : rt.hashToSetMap = some sets)
    (hnone : sets.lookup minusOne = none) (hk : k < n * T.ty.allocSize) (hdst : dst ≠ minusOne) :
    NoMissedConfusion rt sets T n base k dst ↔
      ¬ ∃ U, Wraps T (k % T.ty.allocSize) U ∧ Accepts sets U dst := by
  have hTsolid := hT.solid T (hsub h.requested)
  rw [NoMissedConfusion, h.returned_iff hT hsub hsets hnone hk hdst]
  simp only [outermost_array hTsolid hk]
  constructor
  · rintro hsound ⟨U, hU, haccepts⟩
    obtain ⟨V, hV, -⟩ := hsound ⟨U, Or.inr hU, haccepts⟩
    exact hU.not_subobject hTsolid V hV.1
  · rintro hno ⟨U, hU | hU, haccepts⟩
    · exact ⟨U, hU, haccepts⟩
    · exact (hno ⟨U, hU, haccepts⟩).elim

/-! An array that is followed by a scalar only. -/

namespace BehindArray

def A : StructType := ⟨some "trackedtype.A", false, [.scalar 8 3]⟩

def T : StructType := ⟨some "trackedtype.T", false, [.scalar 8 3, .array 2 A.ty, .scalar 8 3]⟩

def addrOf (name : String) : Nat := if name = A.typeInfoName then 0x1000 else 0x2000

def globals : Globals := [(A.typeInfoName, infoMembers A), (T.typeInfoName, infoMembers T)]

def sets : HashToSetMap := [(getHashCodeFromStruct A, []), (getHashCodeFromStruct T, [])]

/-- An object at `0x10000`, in one granule of 32 bytes, whose metadata is at `0x3000`. -/
def runtime : Runtime where
  pageTable := setEntries (fun _ => 0) 0x10 0x3000 5 1
  mem := fun address =>
    [(0x1000, 8), (0x1008, 0), (0x1010, getHashCodeFromStruct A), (0x1018, minusOne),
      (0x2000, 32), (0x2008, 0), (0x2010, getHashCodeFromStruct T), (0x2018, 1 <<< 63 ||| 8),
      (0x2020, 0x1000), (0x2028, minusOne), (0x3000, 0x10000), (0x3008, 0x2008)].lookup address
  hashToSetMap := some sets

theorem trackedTypes : TrackedTypes [A, T] where
  solid := by
    have hA : Solid A.ty := .struct (by decide) (by simpa [A] using Solid.scalar 8 3)
    intro s hs
    rcases List.mem_pair.mp hs with rfl | rfl
    · exact hA
    · refine .struct (by decide) ?_
      simp only [T, List.forall_mem_cons]
      exact ⟨.scalar 8 3, .array (by decide) hA, .scalar 8 3, by simp⟩
  tracked := by decide
  closed := by
    have hstructs : ∀ s ∈ [A, T], s.ty.structs ⊆ [A, T] := by decide
    exact fun s hs k D h => hstructs s hs h.mem_structs
  hash_inj := by decide +kernel
  hash_ne_zero := by decide +kernel
  hash_ne_minusOne := by decide +kernel

theorem allocation : TypedAllocation runtime addrOf [T] globals T 1 0x10000 where
  populated := by decide
  globals_at := by decide
  requested := by decide
  base_pos := by decide
  fits := by decide
  metadata := by decide

end BehindArray

/-- Two elements of 8 bytes lie at offsets 8 and 16. -/
theorem noMissedConfusion_of_inside :
    NoMissedConfusion BehindArray.runtime BehindArray.sets BehindArray.T 1 0x10000 16
      (getHashCodeFromStruct BehindArray.A) := by
  refine (noMissedConfusion_iff BehindArray.trackedTypes (by decide) BehindArray.allocation rfl
    (by decide) (by decide) (by decide +kernel)).mpr ?_
  rintro ⟨U, hU, -⟩
  have helement : Subobject (.array 2 BehindArray.A.ty) (1 * 8 + 0) BehindArray.A :=
    .element (by decide) (subobject_self BehindArray.A)
  exact hU.not_subobject (BehindArray.trackedTypes.solid _ (by decide)) BehindArray.A
    (.member (i := 1) (show 1 < BehindArray.T.elements.length by decide) helement)

/-- Behind them, at offset 24, the walk takes the scalar for a third one. -/
theorem noMissedConfusion_fails_behind_array :
    ¬ ∀ (rt : Runtime) (addrOf : String → Nat) (types requests : List StructType)
        (globals : Globals) (T : StructType) (n base k dst : Nat) (sets : HashToSetMap),
      TrackedTypes types → requests ⊆ types → TypedAllocation rt addrOf requests globals T n base →
      rt.hashToSetMap = some sets → sets.lookup minusOne = none → k < n * T.ty.allocSize →
      dst ≠ 0 → dst ≠ minusOne → NoMissedConfusion rt sets T n base k dst := by
  intro hall
  have hsolid := BehindArray.trackedTypes.solid BehindArray.T (by decide)
  have hwraps : Wraps BehindArray.T (24 % BehindArray.T.ty.allocSize) BehindArray.A :=
    .behind (o := 8) (c := 2) (by decide) (by decide) (outermost_zero BehindArray.A)
  have hreturned := (BehindArray.allocation.returned_iff BehindArray.trackedTypes (by decide) rfl
    (by decide) (k := 24) (by decide) (by decide +kernel)).mpr ⟨_, Or.inr hwraps, Or.inl rfl⟩
  obtain ⟨U, hU, -⟩ := hall _ _ _ _ _ _ _ _ _ _ _ BehindArray.trackedTypes (by decide)
    BehindArray.allocation rfl (by decide) (by decide) (by decide +kernel) (by decide +kernel)
    hreturned
  exact hwraps.not_subobject hsolid U ((outermost_array hsolid (by decide)).mp hU).1

end TypeSan
