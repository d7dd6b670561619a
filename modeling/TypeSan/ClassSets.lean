import TypeSan.ClassRecords

/-! The hashes that a class ends up with, whatever the order of the types and of the passes. -/
namespace TypeSan

open Relation

/-- The types of a list, and the classes of their first elements. -/
def classesOf (types : List StructType) : List StructType := types.flatMap StructType.chain

theorem mem_chain_cases {s D : StructType} (hs : s.name.isSome) :
    D ∈ s.chain ↔ D = s ∨ ∃ F, s.parentClass = some F ∧ D ∈ F.chain := by
  rw [chain_eq hs, List.mem_cons]
  refine or_congr_right ?_
  cases hparent : s.parentClass with
  | none => simp [ancestors_eq_nil hparent]
  | some F => simp [ancestors_eq hparent]

/-- Classes on a chain have names, and their parent classes are on it. -/
theorem chain_closed {s D : StructType} (hs : s.name.isSome) (hD : D ∈ s.chain) :
    D.name.isSome ∧ ∀ F, D.parentClass = some F → F ∈ s.chain := by
  induction hd : s.ty.depth using Nat.strong_induction_on generalizing s with
  | _ d ih =>
    subst hd
    rcases (mem_chain_cases hs).mp hD with rfl | ⟨F, hparent, hDF⟩
    · refine ⟨hs, fun F hF => (mem_chain_cases hs).mpr (Or.inr ⟨F, hF, ?_⟩)⟩
      rw [chain_eq (parentClass_eq_some.mp hF).1]
      exact List.mem_cons_self
    · have hF := (parentClass_eq_some.mp hparent).1
      obtain ⟨hname, hclosed⟩ := ih _ (parentClass_depth_lt hparent) hF hDF rfl
      exact ⟨hname, fun G hG => (mem_chain_cases hs).mpr (Or.inr ⟨F, hparent, hclosed G hG⟩)⟩

section Types

variable {types : List StructType} (hid : ∀ s ∈ types, s.name.isSome)
include hid

theorem subset_classesOf : types ⊆ classesOf types := by
  intro s hs
  refine List.mem_flatMap.mpr ⟨s, hs, ?_⟩
  rw [chain_eq (hid s hs)]
  exact List.mem_cons_self

theorem moduleTypes_classesOf : ModuleTypes (classesOf types) where
  identified D hD := by
    obtain ⟨s, hs, hD⟩ := List.mem_flatMap.mp hD
    exact (chain_closed (hid s hs) hD).1
  closed D hD F hF := by
    obtain ⟨s, hs, hD⟩ := List.mem_flatMap.mp hD
    exact List.mem_flatMap.mpr ⟨s, hs, (chain_closed (hid s hs) hD).2 F hF⟩

variable (hfirst : ∀ s ∈ classesOf types, s.isRemembered = true)
include hfirst

/-- An info leads to those of all classes on the chain. -/
theorem exists_info_of_mem_chain {P : TypeSanTree} (hP : Forest P) {s D : StructType} {i : Nat}
    (hmem : (s, i) ∈ P.classInfoMap) (hs : s ∈ classesOf types) (hD : D ∈ s.chain) :
    ∃ j, (D, j) ∈ P.classInfoMap := by
  induction hd : s.ty.depth using Nat.strong_induction_on generalizing s i with
  | _ d ih =>
    subst hd
    have hentry := hP.entry s i hmem
    rcases (mem_chain_cases hentry.identified).mp hD with rfl | ⟨F, hparent, hDF⟩
    · exact ⟨i, hmem⟩
    · have hF := (moduleTypes_classesOf hid).closed s hs F hparent
      obtain ⟨j, -, hremembered, -⟩ := hentry.parent_some F hparent
      exact ih _ (parentClass_depth_lt hparent) (hremembered (hfirst F hF)) hF hDF rfl

/-- Each type has an info, and so has each class on its chain. -/
theorem forest_classesOf : Forest (processTypes types) ∧
    ∀ s, (∃ i, (s, i) ∈ (processTypes types).classInfoMap) ↔ s ∈ classesOf types := by
  obtain ⟨P, hP, hforest, -, hin, hkeys⟩ :=
    (moduleTypes_classesOf hid).foldl_process (subset_classesOf hid) Forest.empty
  change processTypes types = P at hP
  subst hP
  refine ⟨hforest, fun D => ⟨?_, fun hD => ?_⟩⟩
  · rintro ⟨i, hmem⟩
    exact (hkeys D i hmem).resolve_left fun hempty => by cases hempty
  · obtain ⟨s, hs, hD⟩ := List.mem_flatMap.mp hD
    have hsub := subset_classesOf hid hs
    obtain ⟨i, hi⟩ := hin s hs (hfirst s hsub)
    exact exists_info_of_mem_chain hid hfirst hforest hi hsub hD

end Types

/-- Each class has one info. In the end it has the hashes of the classes on its chain of first
elements, the nearest one first, and those of all classes that consist of the class, or of one on
its chain, alone. -/
theorem classSets_exact {types : List StructType} (hid : ∀ s ∈ types, s.name.isSome)
    (hfirst : ∀ s ∈ classesOf types, s.isRemembered = true) {order : List (StructType × Nat)}
    (horder : order.Perm (processTypes types).classInfoMap) :
    (∀ s, s ∈ classesOf types ↔ ∃ i, (s, i) ∈ order) ∧
    (∀ s i i', (s, i) ∈ order → (s, i') ∈ order → i = i') ∧
    ∃ heap, processFakeParents types order = some heap ∧ ∀ s i, (s, i) ∈ order →
      (heap i).parentHashes = hashes s.ancestors ∧
      ∀ hash, hash ∈ (heap i).fakeParentHashes ↔
        ∃ B ∈ s.chain, ∃ Q ∈ classesOf types, PhantomBelow Q B ∧ hash = getHashCodeFromStruct Q := by
  obtain ⟨hforest, hkeys⟩ := forest_classesOf hid hfirst
  have hclasses := moduleTypes_classesOf hid
  have hmem {e : StructType × Nat} : e ∈ order ↔ e ∈ (processTypes types).classInfoMap :=
    horder.mem_iff
  have hdepth (D : StructType) (i : Nat) (h : (D, i) ∈ (processTypes types).classInfoMap) :
      D.ty.depth ≤ Ty.depths (types.map (·.ty)) := by
    obtain ⟨s, hs, hD⟩ := List.mem_flatMap.mp ((hkeys D).mp ⟨i, h⟩)
    have hle : s.ty.depth ≤ Ty.depths (types.map (·.ty)) :=
      Ty.depth_le_depths (List.mem_map_of_mem hs)
    rw [chain_eq (hid s hs)] at hD
    rcases List.mem_cons.mp hD with rfl | hD
    · exact hle
    · exact Nat.le_trans (Nat.le_of_lt (depth_lt_of_mem_ancestors hD)) hle
  obtain ⟨heap, hheap, hinfo⟩ := hforest.processFakeParents_eq hclasses
    (fun s => (hkeys s).trans ⟨fun hs => ⟨hs, hfirst s hs⟩, fun hs => hs.1⟩) hdepth horder
  refine ⟨fun s => ?_, fun s i i' h h' => hforest.unique s i i' (hmem.mp h) (hmem.mp h'),
    heap, hheap, fun s i h => ?_⟩
  · simp only [hmem, hkeys s]
  · obtain ⟨-, hparents, hfakes⟩ := hinfo (s, i) h
    refine ⟨hparents, fun hash => (hfakes hash).trans ?_⟩
    have hchain := hclasses.chain_subset ((hkeys s).mp ⟨i, hmem.mp h⟩)
    constructor
    · rintro ⟨B, hB, Q, hQ, hbelow, hhash, -⟩
      exact ⟨B, hB, Q, hQ, hbelow, hhash⟩
    · rintro ⟨B, hB, Q, hQ, hbelow, hhash⟩
      exact ⟨B, hB, Q, hQ, hbelow, hhash, Or.inl (hfirst B (hchain hB))⟩

/-- A class, a class that consists of it alone, and one that starts with the latter. -/
theorem classSets_exact_of_phantom :
    let A : StructType := ⟨some "trackedtype.A", false, [.scalar 8 3]⟩
    let P : StructType := ⟨some "trackedtype.P", false, [A.ty]⟩
    let D : StructType := ⟨some "trackedtype.D", false, [P.ty, .scalar 4 2]⟩
    ∃ heap i, processFakeParents [D, A] (processTypes [D, A]).classInfoMap.reverse = some heap ∧
      (D, i) ∈ (processTypes [D, A]).classInfoMap.reverse ∧
      (heap i).parentHashes = [getHashCodeFromStruct P, getHashCodeFromStruct A] ∧
      getHashCodeFromStruct P ∈ (heap i).fakeParentHashes := by
  intro A P D
  obtain ⟨hkeys, -, heap, hheap, hinfo⟩ := @classSets_exact [D, A] (by decide) (by decide)
    (processTypes [D, A]).classInfoMap.reverse (List.reverse_perm _)
  obtain ⟨i, hi⟩ := (hkeys D).mp (by decide)
  obtain ⟨hparents, hfakes⟩ := hinfo D i hi
  refine ⟨heap, i, hheap, hi, hparents, (hfakes _).mpr ⟨A, by decide, P, by decide, ?_, rfl⟩⟩
  exact TransGen.single (by decide)

end TypeSan
