import TypeSan.Subobject

/-! The entries of a flattened layout, element by element. -/
namespace TypeSan

open Rounding

/-- The struct at the bottom of a node, and how many of them follow one another. -/
def TypeNode.element : TypeNode → StructType
  | .structNode baseType => baseType
  | .arrayNode _ element => element

def TypeNode.count : TypeNode → Nat
  | .structNode _ => 1
  | .arrayNode count _ => count

@[simp] theorem TypeNode.element_arrayNode (c : Nat) (E : StructType) :
    (TypeNode.arrayNode c E).element = E := rfl

@[simp] theorem TypeNode.count_arrayNode (c : Nat) (E : StructType) :
    (TypeNode.arrayNode c E).count = c := rfl

/-- The bytes no other entry may start in. -/
def TypeNode.extent : TypeNode → Nat
  | .structNode _ => 1
  | .arrayNode count element => count * element.ty.allocSize

theorem createArrayNode_eq (n : Nat) (node : TypeNode) :
    createArrayNode n node = .arrayNode (n * node.count) node.element := by
  cases node <;> simp [createArrayNode, TypeNode.count, TypeNode.element]

/-! The node of a type. -/

theorem getStructLayout_array {n : Nat} {e : Ty} {node : TypeNode}
    (h : getStructLayout (.array n e) = some node) : ∃ c E, node = .arrayNode c E := by
  obtain ⟨inner, _, rfl⟩ := Option.map_eq_some_iff.mp h
  exact ⟨_, _, createArrayNode_eq n inner⟩

section Node

variable {t : Ty} {node : TypeNode} (h : getStructLayout t = some node)
include h

/-- The size of a type is that of its structs. -/
theorem getStructLayout_size :
    t.abiAlignment ∣ t.allocSize ∧ t.allocSize = node.count * node.element.ty.allocSize := by
  induction t using Ty.ind generalizing node with
  | scalar s a => cases h
  | opaqueStruct n => cases h
  | struct n p es _ =>
    cases h
    exact ⟨Ty.abiAlignment_dvd_struct n p es, (Nat.one_mul _).symm⟩
  | array n e ih =>
    obtain ⟨inner, hinner, rfl⟩ := Option.map_eq_some_iff.mp h
    obtain ⟨hdvd, hsize⟩ := ih hinner
    refine ⟨Ty.abiAlignment_dvd_array n e, ?_⟩
    rw [Ty.allocSize_array hdvd, hsize, createArrayNode_eq, TypeNode.count_arrayNode,
      TypeNode.element_arrayNode, Nat.mul_assoc]

theorem getStructLayout_offsets : nodeOffsets t = node.element.offsets := by
  induction t using Ty.ind generalizing node with
  | scalar s a => cases h
  | opaqueStruct n => cases h
  | struct n p es _ =>
    cases h
    rfl
  | array n e ih =>
    obtain ⟨inner, hinner, rfl⟩ := Option.map_eq_some_iff.mp h
    rw [createArrayNode_eq, TypeNode.element_arrayNode]
    exact ih hinner

theorem getStructLayout_mem_structs : node.element ∈ t.structs := by
  induction t using Ty.ind generalizing node with
  | scalar s a => cases h
  | opaqueStruct n => cases h
  | struct n p es _ =>
    cases h
    exact List.mem_cons_self
  | array n e ih =>
    obtain ⟨inner, hinner, rfl⟩ := Option.map_eq_some_iff.mp h
    rw [createArrayNode_eq, TypeNode.element_arrayNode]
    exact ih hinner

/-- The structs follow one another, however the arrays nest. -/
theorem getStructLayout_subobject {j k : Nat} {D : StructType} (hj : j < node.count)
    (hD : Subobject node.element.ty k D) :
    Subobject t (j * node.element.ty.allocSize + k) D := by
  induction t using Ty.ind generalizing node j k with
  | scalar s a => cases h
  | opaqueStruct n => cases h
  | struct n p es _ =>
    cases h
    obtain rfl : j = 0 := Nat.lt_one_iff.mp hj
    rw [Nat.zero_mul, Nat.zero_add]
    exact hD
  | array n e ih =>
    obtain ⟨inner, hinner, rfl⟩ := Option.map_eq_some_iff.mp h
    rw [createArrayNode_eq] at hj hD ⊢
    simp only [TypeNode.count_arrayNode, TypeNode.element_arrayNode] at hj hD ⊢
    have hpos : 0 < inner.count := Nat.pos_of_mul_pos_left (Nat.zero_lt_of_lt hj)
    have hrow : j / inner.count < n := (Nat.div_lt_iff_lt_mul hpos).mpr hj
    have hoffset : j * inner.element.ty.allocSize + k =
        j / inner.count * e.allocSize +
          (j % inner.count * inner.element.ty.allocSize + k) := by
      rw [(getStructLayout_size hinner).2, ← Nat.mul_assoc, ← Nat.add_assoc, ← Nat.add_mul,
        Nat.div_add_mod']
    rw [hoffset]
    exact .element hrow (ih hinner (Nat.mod_lt j hpos) hD)

end Node

theorem nodeOffsets_none {t : Ty} (h : getStructLayout t = none) : nodeOffsets t = [] := by
  induction t using Ty.ind with
  | scalar s a => rfl
  | opaqueStruct n => rfl
  | struct n p es _ => cases h
  | array n e ih => exact ih (Option.map_eq_none_iff.mp h)

/-! What one element adds. -/

theorem mem_mergeStructLayout {L : Offsets} {b : Nat} {e : Nat × TypeNode} :
    e ∈ mergeStructLayout L b ↔ ∃ e₀ ∈ L, b + e₀.1 ≠ 0 ∧ e = (b + e₀.1, e₀.2) := by
  simp only [mergeStructLayout, List.mem_filterMap, Option.ite_none_right_eq_some,
    Option.some.injEq, @eq_comm _ e]

/-- An element without a node adds nothing. -/
theorem elementEntries_none {t : Ty} (h : getStructLayout t = none) (o : Nat) (nested : Offsets) :
    elementEntries o t nested = [] := by
  cases t with
  | scalar s a => rfl
  | opaqueStruct n => rfl
  | struct n p es => cases h
  | array n e => simp only [elementEntries, h]

/-- A row of structs at the start of the whole is merged up to its first one, a single struct is
merged, and any other row is one entry. A struct is a row of one. -/
theorem elementEntries_eq {t : Ty} {node : TypeNode} (h : getStructLayout t = some node) (o : Nat) :
    elementEntries o t (nodeOffsets t) =
      if o = 0 then
        mergeStructLayout node.element.offsets 0 ++
          if 1 < node.count then
            [(node.element.ty.allocSize, .arrayNode (node.count - 1) node.element)]
          else []
      else if node.count = 1 then mergeStructLayout node.element.offsets o
      else [(o, .arrayNode node.count node.element)] := by
  rw [getStructLayout_offsets h]
  cases t with
  | scalar s a => cases h
  | opaqueStruct n => cases h
  | struct n p es =>
    cases h
    simp only [elementEntries, TypeNode.count, TypeNode.element]
    split
    · rename_i h0
      simp [h0]
    · rfl
  | array n e =>
    obtain ⟨c, E, rfl⟩ := getStructLayout_array h
    simp only [elementEntries, h, TypeNode.element_arrayNode, TypeNode.count_arrayNode]
    split
    · rename_i h0
      subst h0
      rfl
    · rfl

/-- An entry is one of the merged struct's, or the array of the other structs of a row at the start,
or the array of the whole row. -/
theorem mem_elementEntries {t : Ty} {node : TypeNode} (h : getStructLayout t = some node) {o : Nat}
    {e : Nat × TypeNode} : e ∈ elementEntries o t (nodeOffsets t) ↔
      ((o = 0 ∨ node.count = 1) ∧
        ∃ e₀ ∈ node.element.offsets, o + e₀.1 ≠ 0 ∧ e = (o + e₀.1, e₀.2)) ∨
      (o = 0 ∧ 1 < node.count ∧
        e = (node.element.ty.allocSize, .arrayNode (node.count - 1) node.element)) ∨
      (o ≠ 0 ∧ node.count ≠ 1 ∧ e = (o, .arrayNode node.count node.element)) := by
  rw [elementEntries_eq h]
  by_cases h0 : o = 0
  · subst h0
    by_cases hcount : 1 < node.count
    · simp [mem_mergeStructLayout, hcount]
    · simp [mem_mergeStructLayout, hcount]
  · by_cases hcount : node.count = 1
    · simp [mem_mergeStructLayout, h0, hcount]
    · simp [h0, hcount]

/-! What all elements add. -/

def Ty.isOpaque : Ty → Bool
  | .opaqueStruct _ => true
  | _ => false

theorem elementsOffsets_eq (SL : StructLayout) (pos : Nat) (es : List Ty) :
    elementsOffsets SL pos es =
      ((es.filter fun t => !t.isOpaque).zipIdx pos).flatMap fun element =>
        elementEntries (SL.getElementOffset element.2) element.1 (nodeOffsets element.1) := by
  induction es generalizing pos with
  | nil => rfl
  | cons t es ih =>
    cases t with
    | opaqueStruct n => exact ih pos
    | _ =>
      simp only [elementsOffsets, ih (pos + 1), List.filter_cons, Ty.isOpaque, Bool.not_false,
        if_true, List.zipIdx_cons, List.flatMap_cons]

theorem exists_element {SL : StructLayout} {pos : Nat} {es : List Ty} {e : Nat × TypeNode}
    (h : e ∈ elementsOffsets SL pos es) :
    ∃ t ∈ es, ∃ o, e ∈ elementEntries o t (nodeOffsets t) := by
  rw [elementsOffsets_eq] at h
  obtain ⟨⟨t, i⟩, hmem, he⟩ := List.mem_flatMap.mp h
  have ht : t ∈ es.filter fun t => !t.isOpaque := List.fst_mem_of_mem_zipIdx hmem
  exact ⟨t, (List.mem_filter.mp ht).1, _, he⟩

theorem offsets_eq_cons (E : StructType) :
    E.offsets =
      (0, .structNode E) :: elementsOffsets (getLayout E.isPacked E.elements) 0 E.elements := by
  simp [StructType.offsets, nodeOffsets]

/-- Structs have bodies, at every depth. -/
inductive Bodied : Ty → Prop
  | scalar (s a : Nat) : Bodied (.scalar s a)
  | struct {n p es} (h : ∀ e ∈ es, Bodied e) : Bodied (.struct n p es)
  | array {n e} (h : Bodied e) : Bodied (.array n e)

theorem Bodied.elements {s : StructType} (h : Bodied s.ty) : ∀ t ∈ s.elements, Bodied t := by
  cases h
  assumption

theorem Bodied.of_mem_structs {t : Ty} (h : Bodied t) {S : StructType} (hS : S ∈ t.structs) :
    Bodied S.ty := by
  induction t using Ty.ind with
  | scalar s a => cases hS
  | opaqueStruct n => cases hS
  | struct n p es ih =>
    rw [Ty.structs] at hS
    rcases List.mem_cons.mp hS with rfl | hS
    · exact h
    · obtain ⟨t, ht, hS⟩ := Ty.mem_structsOf.mp hS
      exact ih t ht (Bodied.elements (s := ⟨n, p, es⟩) h t ht) hS
  | array n e ih =>
    cases h with
    | array he => exact ih he hS

theorem Bodied.isOpaque {t : Ty} (h : Bodied t) : t.isOpaque = false := by
  cases h <;> rfl

/-- What the element at a position adds. -/
def StructType.entriesAt (s : StructType) (i : Nat) (t : Ty) : Offsets :=
  elementEntries ((getLayout s.isPacked s.elements).getElementOffset i) t (nodeOffsets t)

section Entries

variable {s : StructType} (hs : ∀ t ∈ s.elements, t.isOpaque = false)
include hs

theorem offsets_eq_flatMap :
    s.offsets = (0, .structNode s) ::
      s.elements.zipIdx.flatMap fun element => s.entriesAt element.2 element.1 := by
  have hfilter : (s.elements.filter fun t => !t.isOpaque) = s.elements :=
    List.filter_eq_self.mpr fun t ht => by simp [hs t ht]
  rw [offsets_eq_cons, elementsOffsets_eq, hfilter]
  rfl

theorem mem_offsets {e : Nat × TypeNode} : e ∈ s.offsets ↔
    e = (0, .structNode s) ∨ ∃ (i : Nat) (hi : i < s.elements.length),
      e ∈ s.entriesAt i s.elements[i] := by
  rw [offsets_eq_flatMap hs, List.mem_cons, List.mem_flatMap]
  refine or_congr_right ⟨?_, ?_⟩
  · rintro ⟨⟨t, i⟩, hmem, he⟩
    obtain ⟨hi, rfl⟩ := List.getElem?_eq_some_iff.mp (List.mk_mem_zipIdx_iff_getElem?.mp hmem)
    exact ⟨i, hi, he⟩
  · rintro ⟨i, hi, he⟩
    exact ⟨(s.elements[i], i),
      List.mk_mem_zipIdx_iff_getElem?.mpr (List.getElem?_eq_getElem hi), he⟩

/-- A relation along the offsets is one along what each element adds, and between elements. -/
theorem pairwise_offsets {R : Nat × TypeNode → Nat × TypeNode → Prop} : s.offsets.Pairwise R ↔
    (∀ (i : Nat) (hi : i < s.elements.length), ∀ e ∈ s.entriesAt i s.elements[i],
      R (0, .structNode s) e) ∧
    (∀ (i : Nat) (hi : i < s.elements.length), (s.entriesAt i s.elements[i]).Pairwise R) ∧
    ∀ (i j : Nat) (hi : i < s.elements.length) (hj : j < s.elements.length), i < j →
      ∀ e ∈ s.entriesAt i s.elements[i], ∀ e' ∈ s.entriesAt j s.elements[j], R e e' := by
  rw [offsets_eq_flatMap hs, List.pairwise_cons, List.pairwise_flatMap]
  refine and_congr ?_ (and_congr ?_ ?_)
  · constructor
    · exact fun h i hi e he => h e (List.mem_flatMap.mpr
        ⟨(s.elements[i], i), List.mk_mem_zipIdx_iff_getElem?.mpr (List.getElem?_eq_getElem hi), he⟩)
    · intro h e he
      obtain ⟨⟨t, i⟩, hmem, he⟩ := List.mem_flatMap.mp he
      obtain ⟨hi, rfl⟩ := List.getElem?_eq_some_iff.mp (List.mk_mem_zipIdx_iff_getElem?.mp hmem)
      exact h i hi e he
  · constructor
    · exact fun h i hi => h (s.elements[i], i)
        (List.mk_mem_zipIdx_iff_getElem?.mpr (List.getElem?_eq_getElem hi))
    · rintro h ⟨t, i⟩ hmem
      obtain ⟨hi, rfl⟩ := List.getElem?_eq_some_iff.mp (List.mk_mem_zipIdx_iff_getElem?.mp hmem)
      exact h i hi
  · rw [List.pairwise_iff_getElem]
    simp only [List.length_zipIdx, List.getElem_zipIdx, Nat.zero_add]

end Entries

end TypeSan
