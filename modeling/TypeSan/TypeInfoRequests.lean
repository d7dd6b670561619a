import TypeSan.Library.Memo
import TypeSan.LayoutCover
import TypeSan.TypeInfo

/-! Which type a table is made for: the first one that asks for its name. -/
namespace TypeSan

/-! The nesting of element types ends. -/

/-- The node is of a type that is not as deep. -/
def TypeNode.DepthLe (depth : Nat) (node : TypeNode) : Prop := node.element.ty.depth ≤ depth

theorem getStructLayout_depth {t : Ty} {node : TypeNode} (h : getStructLayout t = some node) :
    node.DepthLe t.depth := by
  induction t using Ty.ind generalizing node with
  | scalar s a => cases h
  | opaqueStruct n => cases h
  | struct n p es _ =>
    cases h
    exact Nat.le_refl _
  | array n e ih =>
    obtain ⟨inner, hinner, rfl⟩ := Option.map_eq_some_iff.mp h
    have hdepth : inner.element.ty.depth ≤ e.depth := ih hinner
    rw [createArrayNode_eq]
    exact hdepth

theorem elementEntries_depth {t : Ty} (hnested : ∀ e ∈ nodeOffsets t, e.2.DepthLe t.depth) {o : Nat}
    {e : Nat × TypeNode} (h : e ∈ elementEntries o t (nodeOffsets t)) : e.2.DepthLe t.depth := by
  cases hnode : getStructLayout t with
  | none =>
    rw [elementEntries_none hnode] at h
    cases h
  | some node =>
    have hdepth := getStructLayout_depth hnode
    rw [getStructLayout_offsets hnode] at hnested
    rcases (mem_elementEntries hnode).mp h with ⟨-, e₀, he₀, -, rfl⟩ | ⟨-, -, rfl⟩ | ⟨-, -, rfl⟩
    · exact hnested e₀ he₀
    · exact hdepth
    · exact hdepth

theorem elementsOffsets_depth {SL : StructLayout} {pos : Nat} {es : List Ty} {e : Nat × TypeNode}
    (hes : ∀ t ∈ es, ∀ e ∈ nodeOffsets t, e.2.DepthLe t.depth) (h : e ∈ elementsOffsets SL pos es) :
    e.2.DepthLe (Ty.depths es) := by
  obtain ⟨t, ht, o, he⟩ := exists_element h
  exact Nat.le_trans (elementEntries_depth (hes t ht) he) (Ty.depth_le_depths ht)

theorem nodeOffsets_depth (t : Ty) : ∀ e ∈ nodeOffsets t, e.2.DepthLe t.depth := by
  induction t using Ty.ind with
  | scalar s a => simp [nodeOffsets]
  | opaqueStruct n => simp [nodeOffsets]
  | struct n p es ih =>
    intro e he
    rw [nodeOffsets] at he
    rcases List.mem_cons.mp he with rfl | he
    · exact Nat.le_refl _
    · have := elementsOffsets_depth ih he
      simp only [TypeNode.DepthLe, Ty.depth] at this ⊢
      omega
  | array n e ih => exact ih

/-- The element types that a table refers to are less deep. -/
theorem arrayElements_depth_lt {s A : StructType} (h : A ∈ s.arrayElements) :
    A.ty.depth < s.ty.depth := by
  obtain ⟨-, o, c, he⟩ := exists_arrayEntry h
  obtain ⟨n, p, es⟩ := s
  rw [offsets_eq_cons] at he
  rcases List.mem_cons.mp he with heq | he
  · cases heq
  · have := elementsOffsets_depth (fun t _ => nodeOffsets_depth t) he
    have hdepth : (Ty.struct n p es).depth = Ty.depths es + 1 := by rw [Ty.depth]
    exact Nat.lt_of_le_of_lt this (by rw [hdepth]; exact Nat.lt_succ_self _)

/-! Requests. -/

/-- The nodes that a request for a table asks for: those of its element types, and then its own. -/
def StructType.nodes (s : StructType) : List StructType :=
  Memo.order StructType.arrayElements s.ty.depth s

/-- The nodes that a module asks for, in order. -/
def requestedNodes (requests : List StructType) : List StructType :=
  requests.flatMap StructType.nodes

/-- Identified types have names of their own, none of them the one that stands for literal types. -/
structure NamesUnique (nodes : List StructType) : Prop where
  unique : ∀ s ∈ nodes, ∀ s' ∈ nodes, s.name = s'.name → s.name.isSome → s = s'
  reserved : ∀ s ∈ nodes, s.name ≠ some "trackedtype._"

/-- A struct type of a C file. -/
def StructType.isNonCxx (s : StructType) : Bool :=
  s.name.isSome && !s.isTracked && !s.isBlacklisted

theorem getOrPopulateTypeInfo_eq : getOrPopulateTypeInfo =
    Memo.populate StructType.typeInfoName StructType.arrayElements infoMembers := by
  funext fuel
  induction fuel with
  | zero => rfl
  | succ fuel ih =>
    funext SrcM s
    rw [getOrPopulateTypeInfo, Memo.populate, ih]

section Names

variable {s s' : StructType}

theorem typeInfoName_inj : s.typeInfoName = s'.typeInfoName ↔ s.infoName = s'.infoName :=
  String.append_right_inj _

theorem infoName_literal (h : s.name = none) : s.infoName = "trackedtype._" := by
  rw [StructType.infoName, h]

theorem infoName_nonCxx (h : s.isNonCxx = true) : s.infoName = "noncxxfakesentinel" := by
  cases hname : s.name with
  | none => simp [StructType.isNonCxx, hname] at h
  | some name =>
    simp only [StructType.isNonCxx, StructType.isTracked, StructType.isBlacklisted, hname,
      Bool.and_eq_true, Bool.not_eq_true'] at h
    simp [StructType.infoName, hname, h.1.2, h.2]

/-- A C++ type's table has the type's name. -/
theorem infoName_cxx (hs : s.name.isSome) (h : s.isNonCxx = false) : s.name = some s.infoName := by
  obtain ⟨name, hname⟩ := Option.isSome_iff_exists.mp hs
  simp only [StructType.isNonCxx, StructType.isTracked, StructType.isBlacklisted, hname,
    Option.isSome_some, Bool.true_and, Bool.and_eq_false_iff, Bool.not_eq_false'] at h
  simp only [StructType.infoName, hname]
  rcases h with h | h <;> simp [h]

/-- What stands for all C structs is no C++ name. -/
theorem name_ne_sentinel (h : s.isNonCxx = false) : s.name ≠ some "noncxxfakesentinel" := by
  intro hname
  have hnonCxx : s.isNonCxx = true := by
    simp only [StructType.isNonCxx, StructType.isTracked, StructType.isBlacklisted, hname]
    decide
  rw [h] at hnonCxx
  cases hnonCxx

variable {nodes : List StructType} (h : NamesUnique nodes) (hs : s ∈ nodes) (hs' : s' ∈ nodes)
include h hs

/-- No identified type shares its table with literal ones. -/
theorem NamesUnique.infoName_ne_literal (hname : s.name.isSome) : s.infoName ≠ "trackedtype._" := by
  intro heq
  cases hC : s.isNonCxx with
  | true =>
    rw [infoName_nonCxx hC] at heq
    exact absurd heq (by decide)
  | false => exact h.reserved s hs (heq ▸ infoName_cxx hname hC)

include hs'

/-- Types with one table name are one type, or both literal, or both of C files. -/
theorem NamesUnique.cases (heq : s.infoName = s'.infoName) :
    s = s' ∨ (s.name = none ∧ s'.name = none) ∨ (s.isNonCxx = true ∧ s'.isNonCxx = true) := by
  cases hname : s.name with
  | none =>
    rw [infoName_literal hname] at heq
    cases hname' : s'.name with
    | none => exact Or.inr (Or.inl ⟨rfl, rfl⟩)
    | some name => exact (h.infoName_ne_literal hs' (by rw [hname']; rfl) heq.symm).elim
  | some name =>
    have hsome : s.name.isSome := by rw [hname]; rfl
    have hsome' : s'.name.isSome := by
      by_contra hnone
      rw [infoName_literal (s := s') (by simpa using hnone)] at heq
      exact h.infoName_ne_literal hs hsome heq
    cases hC : s.isNonCxx with
    | true =>
      rw [infoName_nonCxx hC] at heq
      cases hC' : s'.isNonCxx with
      | true => exact Or.inr (Or.inr ⟨rfl, rfl⟩)
      | false => exact (name_ne_sentinel hC' (heq ▸ infoName_cxx hsome' hC')).elim
    | false =>
      cases hC' : s'.isNonCxx with
      | true =>
        rw [infoName_nonCxx hC'] at heq
        exact (name_ne_sentinel hC (heq ▸ infoName_cxx hsome hC)).elim
      | false =>
        refine Or.inl (h.unique s hs s' hs' ?_ hsome)
        rw [infoName_cxx hsome hC, infoName_cxx hsome' hC', heq]

theorem NamesUnique.arrayElements_eq (heq : s.typeInfoName = s'.typeInfoName) :
    s.arrayElements = s'.arrayElements := by
  rcases h.cases hs hs' (typeInfoName_inj.mp heq) with rfl | ⟨hname, hname'⟩ | ⟨hC, hC'⟩
  · rfl
  · simp [StructType.arrayElements, StructType.isTracked, hname, hname']
  · simp only [StructType.isNonCxx, Bool.and_eq_true, Bool.not_eq_true'] at hC hC'
    simp [StructType.arrayElements, hC.1.2, hC'.1.2]

end Names

section Requests

variable {requests : List StructType}

theorem depth_pos (s : StructType) : 0 < s.ty.depth := by
  obtain ⟨n, p, es⟩ := s
  simp [Ty.depth]

/-- How deep structs nest below a type. -/
def StructType.rank (s : StructType) : Nat := s.ty.depth - 1

theorem rank_lt_depth (s : StructType) : s.rank < s.ty.depth :=
  Nat.sub_lt (depth_pos s) Nat.one_pos

theorem arrayElements_rank_lt (s : StructType) : ∀ A ∈ s.arrayElements, A.rank < s.rank := by
  intro A hA
  have hlt := arrayElements_depth_lt hA
  have hpos := depth_pos A
  rw [StructType.rank, StructType.rank]
  omega

theorem nodes_closed (s : StructType) : Memo.Closed StructType.arrayElements s.nodes :=
  Memo.closed_order arrayElements_rank_lt (rank_lt_depth s)

theorem requestedNodes_closed (requests : List StructType) :
    Memo.Closed StructType.arrayElements (requestedNodes requests) := by
  intro s hs A hA
  obtain ⟨r, hr, hs⟩ := List.mem_flatMap.mp hs
  exact List.mem_flatMap.mpr ⟨r, hr, nodes_closed r s hs hA⟩

theorem mem_requestedNodes {s : StructType} (h : s ∈ requests) : s ∈ requestedNodes requests :=
  List.mem_flatMap.mpr ⟨s, h, Memo.mem_order (depth_pos s)⟩

/-- A module's requests end, and each name has the table of the first node of that name. -/
theorem typeInfoGlobals_filled (h : NamesUnique (requestedNodes requests)) :
    ∃ G, typeInfoGlobals requests = some G ∧
      Memo.Filled StructType.typeInfoName StructType.arrayElements infoMembers
        (· ∈ requestedNodes requests) G (requestedNodes requests) := by
  rw [typeInfoGlobals, getOrPopulateTypeInfo_eq]
  change ∃ G, _ ∧ Memo.Filled _ _ _ _ G ([] ++ requests.flatMap StructType.nodes)
  refine Memo.Filled.foldlM (fun s hs G seen hfilled => ?_) Memo.Filled.nil
  exact hfilled.populate arrayElements_rank_lt
    (fun s hs A hA => requestedNodes_closed requests s hs hA)
    (fun s s' hs hs' => h.arrayElements_eq hs hs') (rank_lt_depth s) (mem_requestedNodes hs)

/-- A node gets the table of the first node of its name. -/
theorem exists_first {s : StructType} {G : Globals}
    (h : Memo.Filled StructType.typeInfoName StructType.arrayElements infoMembers
      (· ∈ requestedNodes requests) G (requestedNodes requests))
    (hs : s ∈ requestedNodes requests) :
    ∃ first ∈ requestedNodes requests, first.infoName = s.infoName ∧
      G.lookup s.typeInfoName = some (infoMembers first) := by
  have hsome : ((requestedNodes requests).find? fun a =>
      a.typeInfoName == s.typeInfoName).isSome := by
    rw [List.find?_isSome]
    exact ⟨s, hs, by simp⟩
  obtain ⟨first, hfirst⟩ := Option.isSome_iff_exists.mp hsome
  refine ⟨first, List.mem_of_find?_eq_some hfirst, ?_, ?_⟩
  · exact typeInfoName_inj.mp (by simpa using List.find?_some hfirst)
  · rw [h.represents, hfirst]
    rfl

end Requests

end TypeSan
