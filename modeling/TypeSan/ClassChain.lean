import TypeSan.TypeInfoTables

/-! Classes and the classes of their first elements. -/
namespace TypeSan

mutual

/-- A class, the class of its first element, and so on. -/
def Ty.classChain : Ty → List StructType
  | .struct (some name) isPacked elements =>
    ⟨some name, isPacked, elements⟩ :: Ty.firstChain elements
  | _ => []

def Ty.firstChain : List Ty → List StructType
  | [] => []
  | t :: _ => t.classChain

end

def StructType.chain (s : StructType) : List StructType := s.ty.classChain

def StructType.ancestors (s : StructType) : List StructType := Ty.firstChain s.elements

/-- The class of the first element. -/
def StructType.parentClass (s : StructType) : Option StructType := s.ancestors.head?

/-- The first element is no literal or opaque struct. -/
def StructType.isRemembered (s : StructType) : Bool :=
  match s.elements with
  | .struct none _ _ :: _ | .opaqueStruct _ :: _ => false
  | _ => true

/-- A class with no element but the other class. -/
def PhantomOf (Q F : StructType) : Prop := Q.elements = [F.ty] ∧ F.name.isSome

instance (Q F : StructType) : Decidable (PhantomOf Q F) := inferInstanceAs (Decidable (_ ∧ _))

theorem chain_eq {s : StructType} (hs : s.name.isSome) : s.chain = s :: s.ancestors := by
  obtain ⟨name, p, es⟩ := s
  obtain ⟨name, rfl⟩ := Option.isSome_iff_exists.mp hs
  simp [StructType.chain, StructType.ancestors, Ty.classChain]

/-- A first element that is a class, or the lack of one. -/
theorem firstChain_cases (es : List Ty) :
    (∃ F : StructType, F.name.isSome ∧ es.head? = some F.ty ∧ Ty.firstChain es = F.chain) ∨
      (Ty.firstChain es = [] ∧ ∀ F : StructType, F.name.isSome → es.head? ≠ some F.ty) := by
  cases es with
  | nil => exact Or.inr ⟨by simp [Ty.firstChain], by simp⟩
  | cons t es =>
    cases t with
    | struct name p fs =>
      cases name with
      | none =>
        refine Or.inr ⟨by simp [Ty.firstChain, Ty.classChain], ?_⟩
        intro F hF h
        obtain ⟨hname, -⟩ := Ty.struct.inj (Option.some.inj h)
        simp [← hname] at hF
      | some name =>
        exact Or.inl ⟨⟨some name, p, fs⟩, rfl, rfl, by simp [Ty.firstChain, StructType.chain]⟩
    | scalar s a => exact Or.inr ⟨by simp [Ty.firstChain, Ty.classChain], by simp⟩
    | opaqueStruct n => exact Or.inr ⟨by simp [Ty.firstChain, Ty.classChain], by simp⟩
    | array n e => exact Or.inr ⟨by simp [Ty.firstChain, Ty.classChain], by simp⟩

theorem parentClass_eq_some {s F : StructType} :
    s.parentClass = some F ↔ F.name.isSome ∧ s.elements.head? = some F.ty := by
  rw [StructType.parentClass, StructType.ancestors]
  rcases firstChain_cases s.elements with ⟨G, hG, hhead, hchain⟩ | ⟨hnil, hno⟩
  · rw [hchain, chain_eq hG, hhead, List.head?_cons]
    simp only [Option.some.injEq, StructType.ty_inj]
    exact ⟨fun h => h ▸ ⟨hG, rfl⟩, fun h => h.2⟩
  · rw [hnil]
    simp only [List.head?_nil, reduceCtorEq, false_iff, not_and]
    exact fun hF => hno F hF

theorem ancestors_eq {s F : StructType} (h : s.parentClass = some F) : s.ancestors = F.chain := by
  obtain ⟨hF, hhead⟩ := parentClass_eq_some.mp h
  rw [StructType.ancestors]
  rcases firstChain_cases s.elements with ⟨G, hG, hhead', hchain⟩ | ⟨-, hno⟩
  · obtain rfl := StructType.ty_inj.mp (Option.some.inj (hhead.symm.trans hhead'))
    exact hchain
  · exact (hno F hF hhead).elim

theorem ancestors_eq_nil {s : StructType} (h : s.parentClass = none) : s.ancestors = [] :=
  List.head?_eq_none_iff.mp h

theorem PhantomOf.parentClass {Q F : StructType} (h : PhantomOf Q F) : Q.parentClass = some F :=
  parentClass_eq_some.mpr ⟨h.2, by rw [h.1]; rfl⟩

theorem PhantomOf.isRemembered {Q F : StructType} (h : PhantomOf Q F) : Q.isRemembered = true := by
  obtain ⟨helements, hF⟩ := h
  obtain ⟨name, p, es⟩ := F
  obtain ⟨name, rfl⟩ := Option.isSome_iff_exists.mp hF
  rw [StructType.isRemembered, helements]

/-- A class with a parent class is remembered. -/
theorem isRemembered_of_parentClass {s F : StructType} (h : s.parentClass = some F) :
    s.isRemembered = true := by
  obtain ⟨hF, hhead⟩ := parentClass_eq_some.mp h
  obtain ⟨name, p, es⟩ := F
  obtain ⟨name, rfl⟩ := Option.isSome_iff_exists.mp hF
  obtain ⟨rest, helements⟩ := List.head?_eq_some_iff.mp hhead
  rw [StructType.isRemembered, helements]

theorem parentClass_depth_lt {s F : StructType} (h : s.parentClass = some F) :
    F.ty.depth < s.ty.depth := by
  obtain ⟨-, hhead⟩ := parentClass_eq_some.mp h
  have hle := Ty.depth_le_depths (List.mem_of_head? hhead)
  have hdepth : s.ty.depth = Ty.depths s.elements + 1 := by rw [Ty.depth]
  omega

/-- Every other class of a chain is less deep. -/
theorem depth_lt_of_mem_ancestors {s D : StructType} (h : D ∈ s.ancestors) :
    D.ty.depth < s.ty.depth := by
  induction hd : s.ty.depth using Nat.strong_induction_on generalizing s with
  | _ d ih =>
    subst hd
    cases hparent : s.parentClass with
    | none => simp [ancestors_eq_nil hparent] at h
    | some F =>
      have hlt := parentClass_depth_lt hparent
      rw [ancestors_eq hparent, chain_eq (parentClass_eq_some.mp hparent).1] at h
      rcases List.mem_cons.mp h with rfl | h
      · exact hlt
      · exact Nat.lt_trans (ih _ hlt h rfl) hlt

theorem length_eq_one_iff {s F : StructType} (h : s.parentClass = some F) :
    (s.elements.length == 1) = decide (PhantomOf s F) := by
  obtain ⟨hF, hhead⟩ := parentClass_eq_some.mp h
  obtain ⟨rest, helements⟩ := List.head?_eq_some_iff.mp hhead
  rw [Bool.eq_iff_iff, decide_eq_true_iff]
  simp [PhantomOf, helements, hF]

def hashes (types : List StructType) : List Nat := types.map getHashCodeFromStruct

/-- A module's types, identified ones and with the classes of their first elements. -/
structure ModuleTypes (types : List StructType) : Prop where
  identified : ∀ s ∈ types, s.name.isSome
  closed : ∀ s ∈ types, ∀ F, s.parentClass = some F → F ∈ types

theorem ModuleTypes.chain_subset {types : List StructType} {s : StructType} (h : ModuleTypes types)
    (hs : s ∈ types) : s.chain ⊆ types := by
  induction hd : s.ty.depth using Nat.strong_induction_on generalizing s with
  | _ d ih =>
    subst hd
    rw [chain_eq (h.identified s hs)]
    refine List.cons_subset.mpr ⟨hs, ?_⟩
    cases hparent : s.parentClass with
    | none => simp [ancestors_eq_nil hparent]
    | some F =>
      rw [ancestors_eq hparent]
      exact ih _ (parentClass_depth_lt hparent) (h.closed s hs F hparent) rfl

end TypeSan
