import TypeSan.LayoutEntries

/-! The flattened layout is ordered, and its entries name exactly the struct objects of the type. -/
namespace TypeSan

open Rounding

/-- A type whose objects are `count` structs `E` in a row, however its arrays nest. -/
structure RowOf (t : Ty) (count : Nat) (E : StructType) : Prop where
  count_pos : 0 < count
  solid : Solid E.ty
  aligned : t.abiAlignment ∣ t.allocSize
  size : t.allocSize = count * E.ty.allocSize
  offsets : nodeOffsets t = E.offsets
  holds : ∀ k D, Subobject t k D ↔
    k < count * E.ty.allocSize ∧ Subobject E.ty (k % E.ty.allocSize) D

theorem rowOf_struct {s : StructType} (h : Solid s.ty) : RowOf s.ty 1 s where
  count_pos := Nat.one_pos
  solid := h
  aligned := Ty.abiAlignment_dvd_struct _ _ _
  size := by simp
  offsets := rfl
  holds k D := by
    rw [Nat.one_mul]
    constructor
    · intro hk
      have hlt := subobject_lt hk h
      exact ⟨hlt, by rwa [Nat.mod_eq_of_lt hlt]⟩
    · rintro ⟨hlt, hk⟩
      rwa [Nat.mod_eq_of_lt hlt] at hk

theorem rowOf_array {n c : Nat} {e : Ty} {E : StructType} (hn : 0 < n) (h : RowOf e c E) :
    RowOf (.array n e) (n * c) E where
  count_pos := Nat.mul_pos hn h.count_pos
  solid := h.solid
  aligned := Ty.abiAlignment_dvd_array _ _
  size := by rw [Ty.allocSize_array h.aligned, h.size, Nat.mul_assoc]
  offsets := by simpa [nodeOffsets] using h.offsets
  holds k D := by
    have hpos : 0 < c * E.ty.allocSize := Nat.mul_pos h.count_pos h.solid.allocSize_pos
    rw [Nat.mul_assoc]
    constructor
    · intro hk
      cases hk with
      | @element _ _ j k _ hj hk =>
        obtain ⟨hlt, hk⟩ := (h.holds k D).mp hk
        rw [h.size]
        constructor
        · calc j * (c * E.ty.allocSize) + k < (j + 1) * (c * E.ty.allocSize) := by
                rw [Nat.add_mul]; omega
            _ ≤ n * (c * E.ty.allocSize) := Nat.mul_le_mul_right _ hj
        · rwa [← Nat.mul_assoc, Nat.mul_add_mod']
    · rintro ⟨hlt, hk⟩
      have hdm := Nat.div_add_mod' k (c * E.ty.allocSize)
      rw [← hdm, ← h.size]
      refine .element ?_ ?_
      · rw [h.size, Nat.div_lt_iff_lt_mul hpos]
        exact hlt
      rw [h.size]
      refine (h.holds _ D).mpr ⟨Nat.mod_lt _ hpos, ?_⟩
      rwa [Nat.mod_mul_left_mod]

/-- The node of a solid type describes its objects; a type without a node holds no struct. -/
theorem getStructLayout_row {t : Ty} (h : Solid t) :
    (∀ node, getStructLayout t = some node → RowOf t node.count node.element) ∧
    (getStructLayout t = none → ∀ k D, ¬ Subobject t k D) := by
  induction t using Ty.ind with
  | scalar s a =>
    refine ⟨by simp [getStructLayout], ?_⟩
    rintro - k D ⟨⟩
  | opaqueStruct n => cases h
  | struct n p es _ =>
    refine ⟨?_, by simp [getStructLayout]⟩
    intro node hnode
    cases hnode
    exact rowOf_struct (s := ⟨n, p, es⟩) h
  | array n e ih =>
    cases h with
    | array hn he =>
      obtain ⟨hrow, hnone⟩ := ih he
      constructor
      · intro node hnode
        obtain ⟨inner, hinner, rfl⟩ := Option.map_eq_some_iff.mp hnode
        rw [createArrayNode_eq]
        exact rowOf_array hn (hrow inner hinner)
      · intro hnode k D hk
        cases hk with
        | element _ hk => exact hnone (Option.map_eq_none_iff.mp hnode) _ _ hk

/-! Order of the entries. -/

/-- Entries between two offsets, in order, none starting in the bytes of another. -/
def Ordered (lo hi : Nat) (L : Offsets) : Prop :=
  L.Pairwise (fun a b => a.1 + a.2.extent ≤ b.1) ∧
    ∀ e ∈ L, lo ≤ e.1 ∧ e.1 + e.2.extent ≤ hi

theorem Ordered.nil {lo hi : Nat} : Ordered lo hi [] := by simp [Ordered]

theorem Ordered.mono {lo lo' hi hi' : Nat} {L : Offsets} (h : Ordered lo hi L)
    (hlo : lo' ≤ lo) (hhi : hi ≤ hi') : Ordered lo' hi' L := by
  refine ⟨h.1, ?_⟩
  intro e he
  have := h.2 e he
  omega

theorem Ordered.append {lo mid m hi : Nat} {L L' : Offsets} (h : Ordered lo mid L)
    (h' : Ordered m hi L') (hmid : mid ≤ m) (hlo : lo ≤ m) (hhi : mid ≤ hi) :
    Ordered lo hi (L ++ L') := by
  constructor
  · refine List.pairwise_append.mpr ⟨h.1, h'.1, ?_⟩
    intro a ha b hb
    have := (h.2 a ha).2
    have := (h'.2 b hb).1
    omega
  · intro e he
    rcases List.mem_append.mp he with he | he
    · have := h.2 e he
      omega
    · have := h'.2 e he
      omega

theorem Ordered.merge {hi : Nat} {L : Offsets} (h : Ordered 0 hi L) (b : Nat) :
    Ordered (max 1 b) (b + hi) (mergeStructLayout L b) := by
  constructor
  · apply h.1.filterMap
    intro a a' haa' c hc c' hc'
    simp only [Option.ite_none_right_eq_some, Option.some.injEq] at hc hc'
    obtain ⟨⟨_, rfl⟩, _, rfl⟩ := hc, hc'
    simpa [Nat.add_assoc] using haa'
  · intro e he
    obtain ⟨e₀, he₀, hne, rfl⟩ := mem_mergeStructLayout.mp he
    have := h.2 e₀ he₀
    simp only
    omega

/-! What the entries stand for. -/

/-- The entry accounts for a struct `D` at the offset: a struct entry for what starts where it
starts, an array entry for what starts anywhere in its elements. -/
def EntryHolds (e : Nat × TypeNode) (k : Nat) (D : StructType) : Prop :=
  match e.2 with
  | .structNode U => k = e.1 ∧ Subobject U.ty 0 D
  | .arrayNode count E =>
    e.1 ≤ k ∧ k < e.1 + count * E.ty.allocSize ∧ Subobject E.ty ((k - e.1) % E.ty.allocSize) D

/-- The offsets of a struct node are in order and account for every struct object inside. -/
structure Flattened (E : StructType) : Prop where
  ordered : Ordered 0 E.ty.allocSize E.offsets
  covers : ∀ k D, Subobject E.ty k D ↔ ∃ e ∈ E.offsets, EntryHolds e k D

/-- Only the node's own entry is at offset 0. -/
theorem Ordered.eq_head {E : StructType} {hi : Nat} (h : Ordered 0 hi E.offsets)
    {e : Nat × TypeNode} (he : e ∈ E.offsets) (h0 : e.1 = 0) : e = (0, .structNode E) := by
  rw [offsets_eq_cons] at he h
  rcases List.mem_cons.mp he with rfl | he
  · rfl
  · have := (List.pairwise_cons.mp h.1).1 e he
    simp only [TypeNode.extent] at this
    omega

theorem entryHolds_shift {e : Nat × TypeNode} {b k : Nat} {D : StructType} :
    EntryHolds (b + e.1, e.2) k D ↔ ∃ l, k = b + l ∧ EntryHolds e l D := by
  obtain ⟨o, node⟩ := e
  cases node with
  | structNode U =>
    simp only [EntryHolds]
    constructor
    · rintro ⟨rfl, h⟩
      exact ⟨o, rfl, rfl, h⟩
    · rintro ⟨l, rfl, rfl, h⟩
      exact ⟨rfl, h⟩
  | arrayNode c E =>
    simp only [EntryHolds]
    constructor
    · rintro ⟨hlo, hhi, h⟩
      refine ⟨k - b, by omega, by omega, by omega, ?_⟩
      rwa [Nat.sub_sub]
    · rintro ⟨l, rfl, hlo, hhi, h⟩
      refine ⟨by omega, by omega, ?_⟩
      rwa [Nat.add_sub_add_left]

theorem merge_covers {E : StructType} (hE : Flattened E) (b : Nat) {k : Nat} (hk : 0 < k)
    (D : StructType) :
    (∃ e ∈ mergeStructLayout E.offsets b, EntryHolds e k D) ↔
      ∃ l, k = b + l ∧ Subobject E.ty l D := by
  constructor
  · rintro ⟨e, he, h⟩
    obtain ⟨e₀, he₀, _, rfl⟩ := mem_mergeStructLayout.mp he
    obtain ⟨l, rfl, hl⟩ := entryHolds_shift.mp h
    exact ⟨l, rfl, (hE.covers l D).mpr ⟨e₀, he₀, hl⟩⟩
  · rintro ⟨l, rfl, hl⟩
    obtain ⟨e, he, h⟩ := (hE.covers l D).mp hl
    refine ⟨(b + e.1, e.2), mem_mergeStructLayout.mpr ⟨e, he, ?_, rfl⟩,
      entryHolds_shift.mpr ⟨l, rfl, h⟩⟩
    -- the one entry that merging drops starts the root object itself
    intro h0
    obtain rfl := hE.ordered.eq_head he (by omega)
    have : l = 0 := h.1
    omega

/-- What the first row of a whole contributes: its first struct is merged, the others are an array. -/
theorem firstRow_covers {c : Nat} {E : StructType} (hE : Flattened E) (hsolid : Solid E.ty)
    (hcount : 0 < c) {k : Nat} (hk : 0 < k) (D : StructType) :
    (∃ e ∈ mergeStructLayout E.offsets 0 ++
        if 1 < c then [(E.ty.allocSize, .arrayNode (c - 1) E)] else [], EntryHolds e k D) ↔
      k < c * E.ty.allocSize ∧ Subobject E.ty (k % E.ty.allocSize) D := by
  have hpos := hsolid.allocSize_pos
  simp only [List.mem_append, or_and_right, exists_or, merge_covers hE 0 hk D, Nat.zero_add]
  constructor
  · rintro (⟨l, rfl, h⟩ | ⟨e, he, h⟩)
    · have hlt := subobject_lt h hsolid
      refine ⟨?_, by rwa [Nat.mod_eq_of_lt hlt]⟩
      exact Nat.lt_of_lt_of_le hlt (Nat.le_mul_of_pos_left _ hcount)
    · split at he
      · obtain rfl := List.mem_singleton.mp he
        obtain ⟨hlo, hhi, h⟩ := h
        rw [Nat.sub_mul] at hhi
        exact ⟨by omega, by rwa [← Nat.mod_eq_sub_mod hlo] at h⟩
      · simp at he
  · rintro ⟨hlt, h⟩
    by_cases hfirst : k < E.ty.allocSize
    · exact Or.inl ⟨k, rfl, by rwa [Nat.mod_eq_of_lt hfirst] at h⟩
    · right
      have hc : 1 < c := by
        by_contra hc
        have : c * E.ty.allocSize ≤ 1 * E.ty.allocSize := Nat.mul_le_mul_right _ (by omega)
        omega
      rw [if_pos hc]
      refine ⟨_, List.mem_singleton.mpr rfl, by omega, ?_, ?_⟩
      · rw [Nat.sub_mul]
        omega
      · rwa [← Nat.mod_eq_sub_mod (by omega)]

theorem Solid.isOpaque {t : Ty} (h : Solid t) : t.isOpaque = false := by
  cases h <;> rfl

theorem Solid.notOpaque {s : StructType} (h : Solid s.ty) : ∀ t ∈ s.elements, t.isOpaque = false :=
  fun t ht => (h.elements t ht).isOpaque

section Element

variable {t : Ty} (ht : Solid t)
  (ih : ∀ node, getStructLayout t = some node → Flattened node.element)
include ht ih

/-- What one element contributes lies in the element, in order. -/
theorem elementEntries_ordered (o : Nat) :
    Ordered (max 1 o) (o + t.allocSize) (elementEntries o t (nodeOffsets t)) := by
  cases hnode : getStructLayout t with
  | none =>
    rw [elementEntries_none hnode]
    exact Ordered.nil
  | some node =>
    have hrow := (getStructLayout_row ht).1 _ hnode
    have hE := (ih _ hnode).ordered
    have hpos := hrow.solid.allocSize_pos
    have hc : node.element.ty.allocSize ≤ node.count * node.element.ty.allocSize :=
      Nat.le_mul_of_pos_left _ hrow.count_pos
    rw [elementEntries_eq hnode, hrow.size]
    split
    · subst o
      refine (hE.merge 0).append (m := node.element.ty.allocSize) ?_ (by omega) (by omega)
        (by omega)
      split
      · refine ⟨by simp, ?_⟩
        simp only [List.mem_singleton, forall_eq, TypeNode.extent, Nat.sub_mul]
        omega
      · exact Ordered.nil
    · split
      · exact (hE.merge o).mono (by omega) (by omega)
      · refine ⟨by simp, ?_⟩
        simp only [List.mem_singleton, forall_eq, TypeNode.extent]
        omega

/-- What one element contributes accounts for the structs in the element, the one that starts the
whole object excepted. -/
theorem elementEntries_covers (o : Nat) {k : Nat} (hk : 0 < k) (D : StructType) :
    (∃ e ∈ elementEntries o t (nodeOffsets t), EntryHolds e k D) ↔
      ∃ l, k = o + l ∧ Subobject t l D := by
  cases hnode : getStructLayout t with
  | none =>
    rw [elementEntries_none hnode]
    simpa using fun x _ => (getStructLayout_row ht).2 hnode x D
  | some node =>
    have hrow := (getStructLayout_row ht).1 _ hnode
    have hE := ih _ hnode
    rw [elementEntries_eq hnode]
    simp only [hrow.holds]
    split
    · subst o
      rw [firstRow_covers hE hrow.solid hrow.count_pos hk D]
      simp only [Nat.zero_add, exists_eq_left']
    · split
      · rename_i hcount
        rw [merge_covers hE o hk D, hcount, Nat.one_mul]
        constructor
        · rintro ⟨l, rfl, h⟩
          have hlt := subobject_lt h hrow.solid
          exact ⟨l, rfl, hlt, by rwa [Nat.mod_eq_of_lt hlt]⟩
        · rintro ⟨l, rfl, hlt, h⟩
          exact ⟨l, rfl, by rwa [Nat.mod_eq_of_lt hlt] at h⟩
      · constructor
        · rintro ⟨e, he, h⟩
          obtain rfl := List.mem_singleton.mp he
          obtain ⟨hlo, hhi, h⟩ := h
          exact ⟨k - o, by omega, by omega, h⟩
        · rintro ⟨l, rfl, hlt, h⟩
          refine ⟨_, List.mem_singleton.mpr rfl, by omega, by omega, ?_⟩
          rwa [Nat.add_sub_cancel_left]

end Element

section Struct

variable {s : StructType} (hs : Solid s.ty)
  (ih : ∀ t ∈ s.elements, ∀ node, getStructLayout t = some node → Flattened node.element)
include hs ih

/-- Elements follow one another, and so does what they contribute. -/
theorem struct_ordered : Ordered 0 s.ty.allocSize s.offsets := by
  have helement (i : Nat) (hi : i < s.elements.length) :
      Ordered (max 1 ((getLayout s.isPacked s.elements).getElementOffset i))
        ((getLayout s.isPacked s.elements).getElementOffset i + s.elements[i].allocSize)
        (s.entriesAt i s.elements[i]) :=
    elementEntries_ordered (hs.elements _ (List.getElem_mem hi)) (ih _ (List.getElem_mem hi)) _
  refine ⟨(pairwise_offsets hs.notOpaque).mpr ⟨fun i hi e he => ?_, fun i hi => (helement i hi).1,
    fun i j hi hj hij e he e' he' => ?_⟩, fun e he => ?_⟩
  · have := ((helement i hi).2 e he).1
    simp only [TypeNode.extent]
    omega
  · have := ((helement i hi).2 e he).2
    have := ((helement j hj).2 e' he').1
    have := element_end_le_offset (p := s.isPacked) hij hj
    omega
  · rcases (mem_offsets hs.notOpaque).mp he with rfl | ⟨i, hi, he⟩
    · have := hs.allocSize_pos
      simp only [TypeNode.extent]
      omega
    · have := ((helement i hi).2 e he).2
      have hend : (getLayout s.isPacked s.elements).getElementOffset i + s.elements[i].allocSize ≤
          s.ty.allocSize := element_end_le hi
      omega

theorem struct_covers (k : Nat) (D : StructType) :
    Subobject s.ty k D ↔ ∃ e ∈ s.offsets, EntryHolds e k D := by
  have hself : (0, .structNode s) ∈ s.offsets := (mem_offsets hs.notOpaque).mpr (Or.inl rfl)
  rcases Nat.eq_zero_or_pos k with rfl | hk
  · constructor
    · exact fun h => ⟨_, hself, rfl, h⟩
    · rintro ⟨e, he, h⟩
      have h0 : e.1 = 0 := by
        obtain ⟨o, node⟩ := e
        cases node with
        | structNode U => exact h.1.symm
        | arrayNode c A => exact Nat.le_zero.mp h.1
      obtain rfl := (struct_ordered hs ih).eq_head he h0
      exact h.2
  have helement (i : Nat) (hi : i < s.elements.length) :=
    elementEntries_covers (hs.elements _ (List.getElem_mem hi)) (ih _ (List.getElem_mem hi))
      ((getLayout s.isPacked s.elements).getElementOffset i) hk D
  constructor
  · intro h
    cases h with
    | self => omega
    | member hi h =>
      obtain ⟨e, he, hholds⟩ := (helement _ hi).mpr ⟨_, rfl, h⟩
      exact ⟨e, (mem_offsets hs.notOpaque).mpr (Or.inr ⟨_, hi, he⟩), hholds⟩
  · rintro ⟨e, he, h⟩
    rcases (mem_offsets hs.notOpaque).mp he with rfl | ⟨i, hi, he⟩
    · have : k = 0 := h.1
      omega
    · obtain ⟨l, rfl, hl⟩ := (helement i hi).mp ⟨e, he, h⟩
      exact .member hi hl

theorem struct_flattened : Flattened s := ⟨struct_ordered hs ih, struct_covers hs ih⟩

end Struct

/-- The flattened layout of every node of a solid type is ordered and exact. -/
theorem node_flattened {t : Ty} (ht : Solid t) :
    ∀ node, getStructLayout t = some node → Flattened node.element := by
  induction t using Ty.ind with
  | scalar s a => simp [getStructLayout]
  | opaqueStruct n => cases ht
  | struct n p es ih =>
    intro node hnode
    cases hnode
    exact struct_flattened (s := ⟨n, p, es⟩) ht fun t hmem => ih t hmem (ht.elements t hmem)
  | array n e ih =>
    intro node hnode
    obtain ⟨inner, hinner, rfl⟩ := Option.map_eq_some_iff.mp hnode
    rw [createArrayNode_eq]
    exact ih ht.elementType inner hinner

theorem flattened {s : StructType} (h : Solid s.ty) : Flattened s := node_flattened h _ rfl

end TypeSan
