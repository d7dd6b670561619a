import TypeSan.MissedConfusion
import TypeSan.ModuleLoad

/-! Which casts to a class that an object really holds the check lets pass. -/
namespace TypeSan

/-- What starts an object whose first element is a struct, starts that element. -/
theorem subobject_zero_of_first {n : Option String} {p : Bool} {rest : List Ty} {F D : StructType}
    {k : Nat} (hF : Solid F.ty) (h : Subobject (.struct n p (F.ty :: rest)) k D) (hk : k = 0)
    (hne : D ≠ ⟨n, p, F.ty :: rest⟩) : Subobject F.ty 0 D := by
  cases h with
  | self => exact (hne rfl).elim
  | @member _ _ _ i k _ hi h =>
    cases i with
    | zero =>
      obtain rfl : k = 0 := by omega
      exact h
    | succ i =>
      have hle := element_end_le_offset (p := p) (j := i + 1) (Nat.succ_pos i) hi
      have hpos := hF.allocSize_pos
      simp only [List.getElem_cons_zero] at hle
      omega

/-- The struct objects that start an object are its chain of first elements, and what lies inside the
last of these. -/
theorem subobject_zero_cases {U D : StructType} (hU : Solid U.ty) (hname : U.name.isSome)
    (h : Subobject U.ty 0 D) : D ∈ U.chain ∨ ∀ B ∈ U.chain, D.ty.depth < B.ty.depth := by
  induction hd : U.ty.depth using Nat.strong_induction_on generalizing U with
  | _ d ih =>
    subst hd
    rw [chain_eq hname]
    by_cases hDU : D = U
    · exact Or.inl (hDU ▸ List.mem_cons_self)
    have hlt := subobject_depth_lt h hDU
    cases hparent : U.parentClass with
    | none =>
      rw [ancestors_eq_nil hparent]
      exact Or.inr (by simpa using hlt)
    | some F =>
      obtain ⟨hF, hhead⟩ := parentClass_eq_some.mp hparent
      obtain ⟨rest, helements⟩ := List.head?_eq_some_iff.mp hhead
      have hFsolid : Solid F.ty := hU.elements _ (helements ▸ List.mem_cons_self)
      have hzero : Subobject F.ty 0 D := by
        obtain ⟨name, p, es⟩ := U
        simp only at helements
        subst helements
        exact subobject_zero_of_first hFsolid h rfl hDU
      rw [ancestors_eq hparent]
      rcases ih _ (parentClass_depth_lt hparent) hFsolid hF hzero rfl with hmem | hless
      · exact Or.inl (List.mem_cons_of_mem U hmem)
      · apply Or.inr
        intro B hB
        rcases List.mem_cons.mp hB with rfl | hB
        · exact hlt
        · exact hless B hB

section Types

variable {types : List StructType} (hT : TrackedTypes types) {s : StructType}
include hT

theorem TrackedTypes.name_isSome (hs : s ∈ types) : s.name.isSome := by
  obtain ⟨name, hname, -⟩ := isTracked_name (hT.tracked s hs)
  rw [hname]
  rfl

/-- No type starts with a literal or opaque struct. -/
theorem TrackedTypes.isRemembered (hs : s ∈ types) : s.isRemembered = true := by
  rw [StructType.isRemembered]
  split
  · rename_i p es rest helements
    have hfirst : (⟨none, p, es⟩ : StructType) ∈ types := by
      have hpos : 0 < s.elements.length := by simp [helements]
      have hmember : Subobject s.elements[0] 0 ⟨none, p, es⟩ := by
        simp only [helements, List.getElem_cons_zero]
        exact subobject_self ⟨none, p, es⟩
      exact hT.closed s hs _ _ (.member hpos hmember)
    cases hT.name_isSome hfirst
  · rename_i name rest helements
    have hopaque := (hT.solid s hs).elements _ (helements ▸ List.mem_cons_self)
    cases hopaque
  · rfl

end Types

/-! The check, after the module has been loaded. -/

section Check

variable {rt : Runtime} {addrOf : String → Nat} {u : TranslationUnit}
  {requests : List StructType} {globals : Globals} {T U D : StructType} {n base k : Nat}
  (hT : TrackedTypes u.types) (hbase : ∀ s ∈ u.types, endswith (s.name.getD "") ".base" = false)
include hT hbase

theorem TrackedTypes.emits (hU : U ∈ u.types) : u.Emits U where
  mem := hU
  isEmitted := by simp [StructType.isEmitted, hT.tracked U hU, hbase U hU]
  isRemembered := hT.isRemembered hU

variable (hsmall : u.Small) (hload : u.init none = some rt.hashToSetMap)
include hsmall hload

/-- The sets of the module. -/
theorem TrackedTypes.loaded (hU : U ∈ u.types) :
    ∃ sets, rt.hashToSetMap = some sets ∧ sets.lookup minusOne = none ∧
      Stored sets (getHashCodeFromStruct U) fun hash =>
        hash ∈ hashes U.ancestors ∨ FakeParent u.types U hash := by
  have hsmall' : ∀ v ∈ [u], v.Small := by simpa using hsmall
  have hown : OwnHash [u] U := by
    intro v hv s hs _
    rw [List.mem_singleton.mp hv] at hs
    exact hT.hash_inj s hs U hU
  have hinit : initAll [u] none = some rt.hashToSetMap := by
    rw [initAll, List.foldlM_cons, hload]
    rfl
  obtain ⟨sets, hsets, hstored⟩ := initAll_stored hsmall' hown List.mem_cons_self
    (hT.emits hbase hU)
  have hmap : rt.hashToSetMap = some sets := Option.some.inj (hinit.symm.trans hsets)
  refine ⟨sets, hmap, ?_, hstored.congr fun hash => or_congr_right ?_⟩
  · obtain ⟨blocks, hblocks, hrun⟩ := u.init_eq hsmall
    obtain ⟨sets', hsets', heq⟩ := hrun none
    obtain rfl := Option.some.inj (hload.symm.trans hsets')
    rw [hmap] at heq
    refine (congrArg _ heq).trans (lookup_foldl_none rfl fun b hb => ?_)
    exact hT.hash_ne_minusOne b.1 (hblocks.emits b hb).mem
  · constructor
    · rintro ⟨v, hv, -, hfake⟩
      rwa [List.mem_singleton.mp hv] at hfake
    · exact fun hfake => ⟨u, List.mem_cons_self, hU, hfake⟩

omit hbase hsmall hload in
/-- The class found passes for a class that starts it, if that is on its chain. -/
theorem TrackedTypes.accepts_iff (hU : U ∈ u.types) (hzero : Subobject U.ty 0 D)
    {sets : HashToSetMap} (hstored : Stored sets (getHashCodeFromStruct U) fun hash =>
      hash ∈ hashes U.ancestors ∨ FakeParent u.types U hash) :
    Accepts sets U (getHashCodeFromStruct D) ↔ D ∈ U.chain := by
  have hD := hT.closed U hU 0 D hzero
  have hname := hT.name_isSome hU
  have hchain := u.moduleTypes.chain_subset hU
  obtain ⟨set, hset, hmem⟩ := hstored
  constructor
  · intro haccepts
    by_contra hno
    have hless := (subobject_zero_cases (hT.solid U hU) hname hzero).resolve_left hno
    rcases haccepts with hhash | ⟨set', hset', hhash⟩
    · rw [hT.hash_inj D hD U hU hhash, chain_eq hname] at hno
      exact hno List.mem_cons_self
    · cases hset.symm.trans hset'
      rcases (hmem _).mp hhash with hhash | ⟨B, hB, Q, hQ, hbelow, hhash, -⟩
      · obtain ⟨A, hA, hhash⟩ := List.mem_map.mp hhash
        have hAchain : A ∈ U.chain := chain_eq hname ▸ List.mem_cons_of_mem U hA
        rw [hT.hash_inj A (hchain hAchain) D hD hhash] at hAchain
        exact hno hAchain
      · -- a phantom class below `B` is deeper than what lies inside it
        rw [← hT.hash_inj D hD Q hQ hhash] at hbelow
        exact Nat.lt_asymm hbelow.depth_lt (hless B hB)
  · intro hDU
    rw [chain_eq hname] at hDU
    rcases List.mem_cons.mp hDU with rfl | hDU
    · exact Or.inl rfl
    · exact Or.inr ⟨set, hset, (hmem _).mpr (Or.inl (List.mem_map_of_mem hDU))⟩

/-- A cast to a class that the object holds at the offset is let pass if the class is reached from the
outermost one there by way of first elements that are structs. -/
theorem returned_iff_mem_chain (hsub : requests ⊆ u.types)
    (h : TypedAllocation rt addrOf requests globals T n base)
    (hD : Subobject (.array n T.ty) k D) :
    Checks rt (base + k) (base + k) (getHashCodeFromStruct D) .returned ↔
      ∃ U, Outermost (.array n T.ty) k U ∧ D ∈ U.chain := by
  have hTtypes := hsub h.requested
  have hTsolid := hT.solid T hTtypes
  have hn : 0 < n := by
    cases hD with
    | element hj => omega
  have hrow := rowOf_array hn (rowOf_struct hTsolid)
  rw [Nat.mul_one] at hrow
  obtain ⟨hk, hD⟩ := (hrow.holds k D).mp hD
  have hDtypes := hT.closed T hTtypes _ D hD
  obtain ⟨sets, hsets, hnone, -⟩ := hT.loaded hbase hsmall hload hTtypes
  rw [h.returned_iff hT hsub hsets hnone hk (hT.hash_ne_minusOne D hDtypes)]
  apply exists_congr
  intro U
  rw [outermost_array hTsolid hk]
  have haccepts (hU : Outermost T.ty (k % T.ty.allocSize) U) :
      Accepts sets U (getHashCodeFromStruct D) ↔ D ∈ U.chain := by
    have hUtypes := hT.closed T hTtypes _ U hU.1
    obtain ⟨sets', hsets', -, hstored⟩ := hT.loaded hbase hsmall hload hUtypes
    cases hsets.symm.trans hsets'
    exact hT.accepts_iff hUtypes (hU.2 D hD) hstored
  constructor
  · rintro ⟨hU | hU, haccept⟩
    · exact ⟨hU, (haccepts hU).mp haccept⟩
    · exact (hU.not_subobject hTsolid D hD).elim
  · rintro ⟨hU, hchain⟩
    exact ⟨Or.inl hU, (haccepts hU).mpr hchain⟩

end Check

/-! An array that starts the object. -/

namespace FirstArray

def E : StructType := ⟨some "trackedtype.E", false, [.scalar 8 3]⟩

def T : StructType := ⟨some "trackedtype.T", false, [.array 2 E.ty]⟩

def unit : TranslationUnit where
  types := [E, T]
  order := (processTypes [E, T]).classInfoMap
  moduleTypes := ⟨by decide, by decide⟩
  order_perm := .refl _

def addrOf (name : String) : Nat := if name = E.typeInfoName then 0x1000 else 0x2000

def globals : Globals := [(E.typeInfoName, infoMembers E), (T.typeInfoName, infoMembers T)]

/-- An object at `0x10000`, in one granule of 16 bytes, whose metadata is at `0x3000`. -/
def runtime : Runtime where
  pageTable := setEntries (fun _ => 0) 0x10 0x3000 4 1
  mem := fun address =>
    [(0x1000, 8), (0x1008, 0), (0x1010, getHashCodeFromStruct E), (0x1018, minusOne),
      (0x2000, 16), (0x2008, 0), (0x2010, getHashCodeFromStruct T), (0x2018, 1 <<< 63 ||| 8),
      (0x2020, 0x1000), (0x2028, minusOne), (0x3000, 0x10000), (0x3008, 0x2008)].lookup address
  hashToSetMap := some [(getHashCodeFromStruct E, []), (getHashCodeFromStruct T, [])]

theorem trackedTypes : TrackedTypes unit.types where
  solid := by
    have hE : Solid E.ty := .struct (by decide) (by simpa [E] using Solid.scalar 8 3)
    intro s hs
    rcases List.mem_pair.mp hs with rfl | rfl
    · exact hE
    · exact .struct (by decide) (by simpa [T] using Solid.array (by decide) hE)
  tracked := by decide
  closed := by
    have hstructs : ∀ s ∈ unit.types, s.ty.structs ⊆ unit.types := by decide
    exact fun s hs k D h => hstructs s hs h.mem_structs
  hash_inj := by decide
  hash_ne_zero := by decide
  hash_ne_minusOne := by decide

theorem small : unit.Small := ⟨by decide, by decide⟩

theorem allocation : TypedAllocation runtime addrOf [T] globals T 1 0x10000 where
  populated := by decide
  globals_at := by decide
  requested := by decide
  base_pos := by decide
  fits := by decide
  metadata := by decide

theorem element {j : Nat} (hj : j < 2) : Subobject (.array 1 T.ty) (8 * j) E := by
  have helement : Subobject (.array 2 E.ty) (j * 8 + 0) E := .element hj (subobject_self E)
  have hmember : Subobject T.ty (0 + (j * 8 + 0)) E :=
    .member (i := 0) (show 0 < T.elements.length by decide) helement
  have harray : Subobject (.array 1 T.ty) (0 * 16 + (0 + (j * 8 + 0))) E :=
    .element (by decide) hmember
  rwa [show 0 * 16 + (0 + (j * 8 + 0)) = 8 * j by omega] at harray

end FirstArray

open FirstArray

/-- The second element of the array is the outermost object at its offset. -/
theorem returned_of_second_element :
    Checks runtime (0x10000 + 8) (0x10000 + 8) (getHashCodeFromStruct E) .returned := by
  refine (returned_iff_mem_chain trackedTypes (by decide) small (by decide) (by decide) allocation
    (element (j := 1) (by decide))).mpr ⟨E, ⟨element (j := 1) (by decide), fun D hD => ?_⟩, by decide⟩
  have hsolid := trackedTypes.solid T (by decide)
  have hTD : Subobject T.ty 8 D := by
    have hrow := rowOf_array Nat.one_pos (rowOf_struct hsolid)
    exact ((hrow.holds 8 D).mp hD).2
  rcases List.mem_pair.mp (trackedTypes.closed T (by decide) 8 D hTD) with rfl | rfl
  · exact subobject_self E
  · exact absurd (subobject_end_le hTD) (by decide)

/-- At the offset of the first element the outermost object is the whole one, and the cast to the
element's class is reported. -/
theorem returned_fails_for_first_element :
    ¬ ∀ (rt : Runtime) (addrOf : String → Nat) (u : TranslationUnit) (requests : List StructType)
        (globals : Globals) (T D : StructType) (n base k : Nat), TrackedTypes u.types →
      (∀ s ∈ u.types, nameContains (s.name.getD "") ".base" = false) → u.Small →
      u.init none = some rt.hashToSetMap → requests ⊆ u.types →
      TypedAllocation rt addrOf requests globals T n base → Subobject (.array n T.ty) k D →
      Checks rt (base + k) (base + k) (getHashCodeFromStruct D) .returned := by
  intro hall
  have hreturned := hall runtime addrOf unit [T] globals T E 1 0x10000 0 trackedTypes (by decide)
    small (by decide) (by decide) allocation (element (j := 0) (by decide))
  have hreported : Checks runtime (0x10000 + 0) (0x10000 + 0) (getHashCodeFromStruct E)
      (.reported .badCast) := ⟨1, by decide⟩
  obtain ⟨r, src, -, -, hchecks⟩ :=
    allocation.checks (k := 0) trackedTypes (by decide) (by decide)
  cases ((hchecks _ _).mp hreturned).trans ((hchecks _ _).mp hreported).symm

end TypeSan
