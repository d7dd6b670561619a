import TypeSan.ModuleLoad

/-! Whether the modules of a program, each closed over its own types only, add up to the whole. -/
namespace TypeSan

open Relation

/-- The hashes that the whole program's types give a class: its ancestors, and the phantom classes
below it or below one of them, whatever module they are in. -/
def WholeProgramSet (units : List TranslationUnit) (C : StructType) (hash : Nat) : Prop :=
  hash ∈ hashes C.ancestors ∨ ∃ B ∈ C.chain, ∃ Q, (∃ u ∈ units, Q ∈ u.types) ∧ PhantomBelow Q B ∧
    hash = getHashCodeFromStruct Q

/-- Loading the modules one by one leaves the class with the set of the whole program. -/
def MatchesWholeProgram (units : List TranslationUnit) (C : StructType) : Prop :=
  ∃ sets, initAll units none = some (some sets) ∧
    Stored sets (getHashCodeFromStruct C) (WholeProgramSet units C)

/-- The phantom class is an ancestor all the same, or a module that knows the class finds its hash. -/
def Found (units : List TranslationUnit) (C Q : StructType) : Prop :=
  getHashCodeFromStruct Q ∈ hashes C.ancestors ∨
    ∃ u ∈ units, C ∈ u.types ∧ FakeParent u.types C (getHashCodeFromStruct Q)

section Separate

variable {units : List TranslationUnit} {C : StructType} {u : TranslationUnit}

/-- What a module finds is there in the whole program. -/
theorem wholeProgramSet_of_fakeParent (hu : u ∈ units) {hash : Nat}
    (h : FakeParent u.types C hash) : WholeProgramSet units C hash := by
  obtain ⟨B, hB, Q, hQ, hbelow, hhash, -⟩ := h
  exact Or.inr ⟨B, hB, Q, ⟨u, hu, hQ⟩, hbelow, hhash⟩

variable (hsmall : ∀ u ∈ units, u.Small) (hown : OwnHash units C) (hu : u ∈ units)
  (hC : C ∈ u.types) (hemitted : C.isEmitted = true)
include hsmall hown hu hC hemitted

/-- The modules add up to the whole program just where every phantom class is found by a module that
knows the class below which it counts. -/
theorem matchesWholeProgram_iff :
    MatchesWholeProgram units C ↔ C.isRemembered = true ∧
      ∀ B ∈ C.chain, ∀ v ∈ units, ∀ Q ∈ v.types, PhantomBelow Q B → Found units C Q := by
  cases hremembered : C.isRemembered with
  | false =>
    obtain ⟨sets, hsets, hnone⟩ := initAll_lost hsmall hown hremembered
    refine ⟨?_, by simp⟩
    rintro ⟨sets', hsets', set, hset, -⟩
    cases hsets.symm.trans hsets'
    cases hnone.symm.trans hset
  | true =>
    obtain ⟨sets, hsets, hstored⟩ := initAll_stored hsmall hown hu ⟨hC, hemitted, hremembered⟩
    constructor
    · rintro ⟨sets', hsets', hwhole⟩
      cases hsets.symm.trans hsets'
      refine ⟨rfl, ?_⟩
      intro B hB v hv Q hQ hbelow
      exact (hstored.unique hwhole _).mpr (Or.inr ⟨B, hB, Q, ⟨v, hv, hQ⟩, hbelow, rfl⟩)
    · rintro ⟨-, hfound⟩
      refine ⟨sets, hsets, hstored.congr fun hash => ⟨?_, ?_⟩⟩
      · rintro (hmem | ⟨v, hv, -, hfake⟩)
        · exact Or.inl hmem
        · exact wholeProgramSet_of_fakeParent hv hfake
      · rintro (hmem | ⟨B, hB, Q, ⟨v, hv, hQ⟩, hbelow, rfl⟩)
        · exact Or.inl hmem
        · exact hfound B hB v hv Q hQ hbelow

/-- One module that holds all types gives its classes the sets of the whole program, if it remembers
the classes they start with. -/
theorem matchesWholeProgram_of_unit (hunits : units = [u])
    (hchain : ∀ B ∈ C.chain, B.isRemembered = true) : MatchesWholeProgram units C := by
  subst hunits
  have hstarts : C ∈ C.chain := by
    rw [chain_eq (u.moduleTypes.identified C hC)]
    exact List.mem_cons_self
  refine (matchesWholeProgram_iff hsmall hown hu hC hemitted).mpr
    ⟨hchain C hstarts, fun B hB v hv Q hQ hbelow => Or.inr ⟨u, hu, hC, ?_⟩⟩
  rw [List.mem_singleton.mp hv] at hQ
  exact ⟨B, hB, Q, hQ, hbelow, rfl, Or.inl (hchain B hB)⟩

end Separate

/-! A phantom class in another module. -/

namespace PhantomElsewhere

def A : StructType := ⟨some "trackedtype.A", false, [.scalar 4 2]⟩

def B : StructType := ⟨some "trackedtype.B", false, [A.ty, .scalar 4 2]⟩

def P : StructType := ⟨some "trackedtype.P", false, [A.ty]⟩

def first : TranslationUnit where
  types := [A, B]
  order := (processTypes [A, B]).classInfoMap
  moduleTypes := ⟨by decide, by decide⟩
  order_perm := .refl _

def second : TranslationUnit where
  types := [A, P]
  order := (processTypes [A, P]).classInfoMap
  moduleTypes := ⟨by decide, by decide⟩
  order_perm := .refl _

theorem small : ∀ u ∈ [first, second], u.Small := by
  have hwords : ∀ u ∈ [first, second], ∀ infoArray, u.infoArray = some infoArray →
      infoArray.length < 2 ^ 32 := by decide
  have hcounts : ∀ u ∈ [first, second], ∀ records, moduleRecords u.types u.order = some records →
      ∀ record ∈ records, record.hashes.length + 1 < 2 ^ 31 := by decide
  exact fun u hu => ⟨hwords u hu, hcounts u hu⟩

theorem distinctHashes : DistinctHashes [first, second] := by
  unfold DistinctHashes
  decide

/-- The only phantom class is `P`, below `A`. -/
theorem eq_of_phantomOf {Q F : StructType} (hQ : Q ∈ [A, B, A, P]) (h : PhantomOf Q F) : Q = P := by
  simp only [List.mem_cons, List.not_mem_nil, or_false] at hQ
  rcases hQ with rfl | rfl | rfl | rfl
  · simp [PhantomOf, A] at h
  · simp [PhantomOf, B] at h
  · simp [PhantomOf, A] at h
  · rfl

end PhantomElsewhere

open PhantomElsewhere

/-- The module of `P` knows `A`. -/
theorem matchesWholeProgram_of_shared : MatchesWholeProgram [first, second] A := by
  have hown : OwnHash [first, second] A :=
    distinctHashes.own (u := first) (by simp) (by decide) (by decide)
  refine (matchesWholeProgram_iff small hown (u := first) (by simp) (by decide)
    (by decide)).mpr ⟨by decide, fun C hC v hv Q hQ hbelow => ?_⟩
  obtain rfl : C = A := List.mem_singleton.mp hC
  obtain ⟨F, hQF, -⟩ := TransGen.head'_iff.mp hbelow
  have hQ' : Q ∈ [A, B, A, P] := by
    rcases List.mem_pair.mp hv with rfl | rfl
    · exact List.mem_append_left [A, P] hQ
    · exact List.mem_append_right [A, B] hQ
  rw [eq_of_phantomOf hQ' hQF]
  exact Or.inr ⟨second, by simp, by decide, A, by decide, P, by decide, .single ⟨rfl, rfl⟩, rfl,
    Or.inl rfl⟩

/-- It does not know `B`, whose ancestor is `A`. -/
theorem matchesWholeProgram_fails_for_unshared :
    ¬ ∀ units : List TranslationUnit, (∀ u ∈ units, u.Small) → DistinctHashes units →
      (∀ u ∈ units, ∀ v ∈ units, ∀ s ∈ u.types, ∀ t ∈ v.types, s.name = t.name → s = t) →
      ∀ u ∈ units, ∀ C ∈ u.types, C.isEmitted = true → MatchesWholeProgram units C := by
  intro hall
  obtain ⟨sets, hsets, hwhole⟩ := hall [first, second] small distinctHashes (by decide) first
    (by simp) B (by decide) (by decide)
  have hown : OwnHash [first, second] B :=
    distinctHashes.own (u := first) (by simp) (by decide) (by decide)
  obtain ⟨sets', hsets', hstored⟩ := initAll_stored small hown (u := first) (by simp)
    ⟨by decide, by decide, by decide⟩
  cases hsets.symm.trans hsets'
  have hP : WholeProgramSet [first, second] B (getHashCodeFromStruct P) :=
    Or.inr ⟨A, by decide, P, ⟨second, by simp, by decide⟩, .single ⟨rfl, rfl⟩, rfl⟩
  rcases (hstored.unique hwhole _).mpr hP with hmem | ⟨v, hv, hBv, C, -, Q, hQ, hbelow, hhash, -⟩
  · exact absurd hmem (by decide)
  · rcases List.mem_pair.mp hv with rfl | rfl
    · obtain ⟨F, hQF, -⟩ := TransGen.head'_iff.mp hbelow
      obtain rfl := eq_of_phantomOf (List.mem_append_left [A, P] hQ) hQF
      exact absurd hQ (by decide)
    · exact absurd hBv (by decide)

end TypeSan
