import TypeSan.LayoutEntries
import TypeSan.TableSizes
import TypeSan.WalkEnds

/-! Whether a flattened layout tells the truth, degenerate arrays and structs of no bytes included. -/
namespace TypeSan

/-- The second entry lies behind the first, or at the same offset if one of them is an array's. -/
def Follows (e e' : Nat × TypeNode) : Prop :=
  e.1 ≤ e'.1 ∧ (e.1 = e'.1 → ∀ U V, ¬ (e.2 = .structNode U ∧ e'.2 = .structNode V))

/-- The offsets of a struct node start with the struct itself, do not decrease, and name objects that
are there: a struct, no two of them at one offset, or a number of structs in a row, each of some
bytes. -/
structure Truthful (S : StructType) : Prop where
  head : S.offsets.head? = some (0, .structNode S)
  ordered : S.offsets.Pairwise Follows
  structs : ∀ o U, (o, .structNode U) ∈ S.offsets → Subobject S.ty o U
  arrays : ∀ o c U, (o, .arrayNode c U) ∈ S.offsets → 0 < c ∧ 0 < U.ty.allocSize ∧
    ∀ j < c, Subobject S.ty (o + j * U.ty.allocSize) U

/-- The element is merged into the struct: a single struct, or a row at the start. -/
def Merged (offset : Nat) (t : Ty) : Prop :=
  ∀ node, getStructLayout t = some node → offset = 0 ∨ node.count = 1

/-- The struct object is merged into the whole, and is no element of an array that stays one. -/
inductive Inlined : Ty → Nat → StructType → Prop
  | self (n : Option String) (p : Bool) (es : List Ty) : Inlined (.struct n p es) 0 ⟨n, p, es⟩
  | member {n p es i k D} (hi : i < es.length)
      (hmerged : Merged ((getLayout p es).getElementOffset i) es[i]) (h : Inlined es[i] k D) :
      Inlined (.struct n p es) ((getLayout p es).getElementOffset i + k) D
  | first {n e k D} (h : Inlined e k D) : Inlined (.array n e) k D

/-- Nothing but the start of the struct is the start of a struct in it. -/
def Bare (E : StructType) : Prop := ∀ k D, Subobject E.ty k D → k = 0

/-- A row that the flattener treats as what it is: one struct, several structs of some bytes, or none
at all at the start of the whole, of a type without structs inside. -/
def RowOk (offset count : Nat) (E : StructType) : Prop :=
  count = 1 ∨ (0 < count ∧ 0 < E.ty.allocSize) ∨ (count = 0 ∧ offset = 0 ∧ Bare E)

/-- The rows among the elements of a struct are as they should be, and no two merged struct objects of
different elements start at one offset, the start of the whole excepted. -/
structure Regular (S : StructType) : Prop where
  rows : ∀ (i : Nat) (hi : i < S.elements.length) (node : TypeNode),
    getStructLayout S.elements[i] = some node →
    RowOk ((getLayout S.isPacked S.elements).getElementOffset i) node.count node.element
  apart : ∀ (i j : Nat) (hi : i < S.elements.length) (hj : j < S.elements.length), i < j →
    ∀ (a b : Nat) (D D' : StructType),
    Merged ((getLayout S.isPacked S.elements).getElementOffset i) S.elements[i] →
    Merged ((getLayout S.isPacked S.elements).getElementOffset j) S.elements[j] →
    Inlined S.elements[i] a D → Inlined S.elements[j] b D' →
    (getLayout S.isPacked S.elements).getElementOffset i + a =
      (getLayout S.isPacked S.elements).getElementOffset j + b →
    (getLayout S.isPacked S.elements).getElementOffset j + b = 0

/-- The first element of an empty array at the start, which is merged although it is not there, brings
no structs along. -/
def NoPhantoms (S : StructType) : Prop :=
  ∀ (i : Nat) (hi : i < S.elements.length) (node : TypeNode),
    getStructLayout S.elements[i] = some node → node.count = 0 →
    (getLayout S.isPacked S.elements).getElementOffset i = 0 → Bare node.element

/-! What an element adds, when the struct at its bottom has a truthful layout. -/

/-- Every entry is at the start of some struct object. -/
theorem Truthful.exists_subobject {S : StructType} (h : Truthful S) {e : Nat × TypeNode}
    (he : e ∈ S.offsets) : ∃ D, Subobject S.ty e.1 D := by
  obtain ⟨o, node⟩ := e
  cases node with
  | structNode U => exact ⟨U, h.structs o U he⟩
  | arrayNode c U =>
    obtain ⟨hc, -, hU⟩ := h.arrays o c U he
    exact ⟨U, by simpa using hU 0 hc⟩

theorem Truthful.le_allocSize {S : StructType} (h : Truthful S) {e : Nat × TypeNode}
    (he : e ∈ S.offsets) : e.1 ≤ S.ty.allocSize := by
  obtain ⟨D, hD⟩ := h.exists_subobject he
  have := subobject_end_le hD
  omega

theorem pairwise_merge {L : Offsets} (h : L.Pairwise Follows) (b : Nat) :
    (mergeStructLayout L b).Pairwise Follows := by
  apply h.filterMap
  intro e e' hfollows x hx x' hx'
  simp only [Option.ite_none_right_eq_some, Option.some.injEq] at hx hx'
  obtain ⟨⟨-, rfl⟩, -, rfl⟩ := hx, hx'
  exact ⟨Nat.add_le_add_left hfollows.1 b, fun heq => hfollows.2 (Nat.add_left_cancel heq)⟩

section Element

variable {t : Ty} {node : TypeNode} {o : Nat} (hnode : getStructLayout t = some node)
  (hE : Truthful node.element)
include hnode hE

/-- What an element adds is in order. -/
theorem elementEntries_follows : (elementEntries o t (nodeOffsets t)).Pairwise Follows := by
  rw [elementEntries_eq hnode]
  split
  · refine List.pairwise_append.mpr ⟨pairwise_merge hE.ordered 0, ?_, fun e he e' he' => ?_⟩
    · split <;> simp
    · split at he'
      · obtain rfl := List.mem_singleton.mp he'
        obtain ⟨e₀, he₀, -, rfl⟩ := mem_mergeStructLayout.mp he
        have := hE.le_allocSize he₀
        exact ⟨by simp only; omega, fun _ U V hboth => by cases hboth.2⟩
      · cases he'
  · split
    · exact pairwise_merge hE.ordered o
    · simp

variable (hrow : RowOk o node.count node.element)
include hrow

/-- An element that adds entries has structs. -/
theorem RowOk.count_pos {e : Nat × TypeNode} (he : e ∈ elementEntries o t (nodeOffsets t)) :
    0 < node.count := by
  rcases hrow with hone | ⟨hpos, -⟩ | ⟨hzero, rfl, hbare⟩
  · omega
  · exact hpos
  · rcases (mem_elementEntries hnode).mp he with ⟨-, e₀, he₀, hne, -⟩ | ⟨-, hcount, -⟩ | ⟨hne, -⟩
    · obtain ⟨D, hD⟩ := hE.exists_subobject he₀
      exact (hne (by rw [hbare _ D hD])).elim
    · omega
    · exact (hne rfl).elim

/-- The entries lie in the bytes of the element, or just behind them. -/
theorem RowOk.bounds {e : Nat × TypeNode} (he : e ∈ elementEntries o t (nodeOffsets t)) :
    o ≤ e.1 ∧ e.1 ≤ o + t.allocSize := by
  have hle : node.element.ty.allocSize ≤ t.allocSize := by
    rw [(getStructLayout_size hnode).2]
    exact Nat.le_mul_of_pos_left _ (hrow.count_pos hnode hE he)
  rcases (mem_elementEntries hnode).mp he with ⟨-, e₀, he₀, -, rfl⟩ | ⟨rfl, -, rfl⟩ | ⟨-, -, rfl⟩
  · have := hE.le_allocSize he₀
    exact ⟨Nat.le_add_right o _, by simp only; omega⟩
  · exact ⟨Nat.zero_le _, by simp only; omega⟩
  · exact ⟨Nat.le_refl o, Nat.le_add_right o _⟩

/-- A struct entry names a struct object of the element, and not one at the start of the whole. -/
theorem RowOk.structs {x : Nat} {U : StructType}
    (he : (x, .structNode U) ∈ elementEntries o t (nodeOffsets t)) :
    x ≠ 0 ∧ ∃ k, x = o + k ∧ Subobject t k U := by
  have hpos := hrow.count_pos hnode hE he
  rcases (mem_elementEntries hnode).mp he with ⟨-, e₀, he₀, hne, heq⟩ | ⟨-, -, heq⟩ | ⟨-, -, heq⟩
  · obtain ⟨k, node₀⟩ := e₀
    obtain ⟨rfl, rfl⟩ := Prod.mk.inj heq
    refine ⟨hne, k, rfl, ?_⟩
    simpa using getStructLayout_subobject hnode hpos (hE.structs k U he₀)
  · cases heq
  · cases heq

/-- An array entry names struct objects of the element in a row. -/
theorem RowOk.arrays {x c : Nat} {U : StructType}
    (he : (x, .arrayNode c U) ∈ elementEntries o t (nodeOffsets t)) :
    0 < c ∧ 0 < U.ty.allocSize ∧
      ∃ k, x = o + k ∧ ∀ j < c, Subobject t (k + j * U.ty.allocSize) U := by
  have hpos := hrow.count_pos hnode hE he
  have hself := subobject_self node.element
  rcases (mem_elementEntries hnode).mp he with
    ⟨-, e₀, he₀, -, heq⟩ | ⟨rfl, hcount, heq⟩ | ⟨hne, hcount, heq⟩
  · obtain ⟨k, node₀⟩ := e₀
    obtain ⟨rfl, rfl⟩ := Prod.mk.inj heq
    obtain ⟨hc, hsize, hU⟩ := hE.arrays k c U he₀
    refine ⟨hc, hsize, k, rfl, ?_⟩
    intro j hj
    simpa using getStructLayout_subobject hnode hpos (hU j hj)
  · cases heq
    have hsize : 0 < node.element.ty.allocSize := by
      rcases hrow with hone | ⟨-, hsize⟩ | ⟨hzero, -⟩
      · omega
      · exact hsize
      · omega
    refine ⟨by omega, hsize, _, (Nat.zero_add _).symm, ?_⟩
    intro j hj
    have hobject := getStructLayout_subobject hnode (j := j + 1) (by omega) hself
    rwa [Nat.add_zero, Nat.add_mul, Nat.one_mul, Nat.add_comm] at hobject
  · cases heq
    have hsize : 0 < node.element.ty.allocSize := by
      rcases hrow with hone | ⟨-, hsize⟩ | ⟨-, hstart, -⟩
      · exact (hcount hone).elim
      · exact hsize
      · exact (hne hstart).elim
    refine ⟨hpos, hsize, 0, rfl, ?_⟩
    intro j hj
    have hobject := getStructLayout_subobject hnode hj hself
    rwa [Nat.add_zero, ← Nat.zero_add (j * node.element.ty.allocSize)] at hobject

end Element

/-! Merged struct objects. -/

/-- The struct entries that an element adds are those that it has, if it is merged. -/
theorem structEntry_iff {t : Ty} {o x : Nat} {U : StructType} :
    (x, .structNode U) ∈ elementEntries o t (nodeOffsets t) ↔
      Merged o t ∧ x ≠ 0 ∧ ∃ k, x = o + k ∧ (k, .structNode U) ∈ nodeOffsets t := by
  cases hnode : getStructLayout t with
  | none => simp [elementEntries_none hnode, nodeOffsets_none hnode]
  | some node =>
    have hmerged : Merged o t ↔ (o = 0 ∨ node.count = 1) :=
      ⟨fun h => h node hnode, fun h node' hnode' => by
        cases hnode.symm.trans hnode'
        exact h⟩
    rw [mem_elementEntries hnode, hmerged, getStructLayout_offsets hnode]
    constructor
    · rintro (⟨h, ⟨k, node₀⟩, he₀, hne, heq⟩ | ⟨-, -, heq⟩ | ⟨-, -, heq⟩)
      · obtain ⟨rfl, rfl⟩ := Prod.mk.inj heq
        exact ⟨h, hne, k, rfl, he₀⟩
      · cases heq
      · cases heq
    · rintro ⟨h, hne, k, rfl, hk⟩
      exact Or.inl ⟨h, _, hk, hne, rfl⟩

theorem inlined_of_mem {t : Ty} (ht : Bodied t) {k : Nat} {U : StructType}
    (h : (k, .structNode U) ∈ nodeOffsets t) : Inlined t k U := by
  induction t using Ty.ind generalizing k U with
  | scalar s a => cases h
  | opaqueStruct n => cases h
  | struct n p es ih =>
    have helements : ∀ t ∈ es, Bodied t := Bodied.elements (s := ⟨n, p, es⟩) ht
    have hmem := (mem_offsets (s := ⟨n, p, es⟩) fun t ht => (helements t ht).isOpaque).mp h
    rcases hmem with heq | ⟨i, hi, he⟩
    · cases heq
      exact .self n p es
    · obtain ⟨hmerged, -, k', rfl, hk'⟩ := structEntry_iff.mp he
      have helement := List.getElem_mem hi
      exact .member hi hmerged (ih _ helement (helements _ helement) hk')
  | array n e ih =>
    cases ht with
    | array he => exact .first (ih he h)

/-- Where a merged struct object starts, there is an entry, of the outermost one. -/
theorem Inlined.exists_mem {t : Ty} {k : Nat} {D : StructType} (h : Inlined t k D)
    (ht : Bodied t) : ∃ U, (k, .structNode U) ∈ nodeOffsets t := by
  induction h with
  | self n p es => exact ⟨⟨n, p, es⟩, by rw [nodeOffsets]; exact List.mem_cons_self⟩
  | @member n p es i k D hi hmerged _ ih =>
    have helements : ∀ t ∈ es, Bodied t := Bodied.elements (s := ⟨n, p, es⟩) ht
    by_cases h0 : (getLayout p es).getElementOffset i + k = 0
    · exact ⟨⟨n, p, es⟩, by rw [h0, nodeOffsets]; exact List.mem_cons_self⟩
    · obtain ⟨U, hU⟩ := ih (helements _ (List.getElem_mem hi))
      refine ⟨U, (mem_offsets (s := ⟨n, p, es⟩) fun t ht => (helements t ht).isOpaque).mpr ?_⟩
      exact Or.inr ⟨i, hi, structEntry_iff.mpr ⟨hmerged, h0, k, rfl, hU⟩⟩
  | first _ ih =>
    cases ht with
    | array he => exact ih he

/-! One struct, when those inside are truthful. -/

section Struct

variable {S : StructType} (hS : Bodied S.ty)

include hS in
theorem Bodied.notOpaque : ∀ t ∈ S.elements, t.isOpaque = false :=
  fun t ht => (hS.elements t ht).isOpaque

section Inside

variable (h : Regular S) (hinside : ∀ t ∈ S.elements, ∀ E ∈ t.structs, Truthful E)
include h hinside

/-- An entry comes from a regular row with a truthful struct at its bottom. -/
theorem Regular.row {i : Nat} (hi : i < S.elements.length) {e : Nat × TypeNode}
    (he : e ∈ S.entriesAt i S.elements[i]) :
    ∃ node, getStructLayout S.elements[i] = some node ∧ Truthful node.element ∧
      RowOk ((getLayout S.isPacked S.elements).getElementOffset i) node.count node.element := by
  cases hnode : getStructLayout S.elements[i] with
  | none => simp [StructType.entriesAt, elementEntries_none hnode] at he
  | some node =>
    exact ⟨node, rfl, hinside _ (List.getElem_mem hi) _ (getStructLayout_mem_structs hnode),
      h.rows i hi node hnode⟩

include hS

/-- Entries of two elements are in order: where both are struct entries, they would be of merged
objects at one offset. -/
theorem Regular.follows {i j : Nat} (hi : i < S.elements.length) (hj : j < S.elements.length)
    (hij : i < j) {e e' : Nat × TypeNode} (he : e ∈ S.entriesAt i S.elements[i])
    (he' : e' ∈ S.entriesAt j S.elements[j]) : Follows e e' := by
  obtain ⟨node, hnode, hE, hrow⟩ := h.row hinside hi he
  obtain ⟨node', hnode', hE', hrow'⟩ := h.row hinside hj he'
  have hend := (hrow.bounds hnode hE he).2
  have hstart := (hrow'.bounds hnode' hE' he').1
  have hplaced := element_end_le_offset (p := S.isPacked) hij hj
  refine ⟨by omega, ?_⟩
  rintro heq U V ⟨hU, hV⟩
  obtain ⟨x, node₀⟩ := e
  obtain ⟨x', node₀'⟩ := e'
  obtain rfl : node₀ = .structNode U := hU
  obtain rfl : node₀' = .structNode V := hV
  obtain rfl : x = x' := heq
  obtain ⟨hmerged, hne, k, hk, hmem⟩ := structEntry_iff.mp he
  obtain ⟨hmerged', -, k', hk', hmem'⟩ := structEntry_iff.mp he'
  have hat := h.apart i j hi hj hij k k' U V hmerged hmerged'
    (inlined_of_mem (hS.elements _ (List.getElem_mem _)) hmem)
    (inlined_of_mem (hS.elements _ (List.getElem_mem _)) hmem') (hk.symm.trans hk')
  exact hne (hk'.trans hat)

/-- A struct of regular rows, which does not put two structs in one place, has a truthful layout if
the structs inside have. -/
theorem Regular.truthful : Truthful S := by
  refine ⟨by rw [offsets_eq_cons]; rfl, (pairwise_offsets hS.notOpaque).mpr ⟨?_, ?_, ?_⟩, ?_, ?_⟩
  · intro i hi e he
    obtain ⟨node, hnode, hE, hrow⟩ := h.row hinside hi he
    refine ⟨Nat.zero_le _, ?_⟩
    rintro h0 U V ⟨-, hV⟩
    obtain ⟨x, node'⟩ := e
    obtain rfl : node' = .structNode V := hV
    exact (hrow.structs hnode hE he).1 h0.symm
  · intro i hi
    cases hnode : getStructLayout S.elements[i] with
    | none => simp [StructType.entriesAt, elementEntries_none hnode]
    | some node =>
      exact elementEntries_follows hnode
        (hinside _ (List.getElem_mem hi) _ (getStructLayout_mem_structs hnode))
  · exact fun i j hi hj hij e he e' he' => h.follows hS hinside hi hj hij he he'
  · intro o U hU
    rcases (mem_offsets hS.notOpaque).mp hU with heq | ⟨i, hi, he⟩
    · cases heq
      exact subobject_self S
    · obtain ⟨node, hnode, hE, hrow⟩ := h.row hinside hi he
      obtain ⟨-, k, rfl, hk⟩ := hrow.structs hnode hE he
      exact .member hi hk
  · intro o c U hU
    rcases (mem_offsets hS.notOpaque).mp hU with heq | ⟨i, hi, he⟩
    · cases heq
    · obtain ⟨node, hnode, hE, hrow⟩ := h.row hinside hi he
      obtain ⟨hc, hsize, k, rfl, hk⟩ := hrow.arrays hnode hE he
      refine ⟨hc, hsize, ?_⟩
      intro j hj
      rw [Nat.add_assoc]
      exact .member hi (hk j hj)

end Inside

/-- A truthful layout is that of a struct of regular rows, which does not put two structs in one place,
but for empty arrays at the start. -/
theorem Truthful.regular (h : Truthful S) (hS : Bodied S.ty) (hphantoms : NoPhantoms S) :
    Regular S := by
  have hmem {i : Nat} (hi : i < S.elements.length) {e : Nat × TypeNode}
      (he : e ∈ S.entriesAt i S.elements[i]) : e ∈ S.offsets :=
    (mem_offsets hS.notOpaque).mpr (Or.inr ⟨i, hi, he⟩)
  constructor
  · intro i hi node hnode
    have hentries (e : Nat × TypeNode) := @mem_elementEntries _ _ hnode
      ((getLayout S.isPacked S.elements).getElementOffset i) e
    by_cases hone : node.count = 1
    · exact Or.inl hone
    by_cases hstart : (getLayout S.isPacked S.elements).getElementOffset i = 0
    · rcases Nat.eq_zero_or_pos node.count with hzero | hpos
      · exact Or.inr (Or.inr ⟨hzero, hstart, hphantoms i hi node hnode hzero hstart⟩)
      · have hrest := (hentries _).mpr (Or.inr (Or.inl ⟨hstart, by omega, rfl⟩))
        exact Or.inr (Or.inl ⟨hpos, (h.arrays _ _ _ (hmem hi hrest)).2.1⟩)
    · have hrow := (hentries _).mpr (Or.inr (Or.inr ⟨hstart, hone, rfl⟩))
      obtain ⟨hpos, hsize, -⟩ := h.arrays _ _ _ (hmem hi hrow)
      exact Or.inr (Or.inl ⟨hpos, hsize⟩)
  · intro i j hi hj hij a b D D' hmerged hmerged' hD hD' heq
    by_contra hne
    obtain ⟨U, hU⟩ := hD.exists_mem (hS.elements _ (List.getElem_mem _))
    obtain ⟨V, hV⟩ := hD'.exists_mem (hS.elements _ (List.getElem_mem _))
    have hfollows := ((pairwise_offsets hS.notOpaque).mp h.ordered).2.2 i j hi hj hij
      _ (structEntry_iff.mpr ⟨hmerged, by omega, a, rfl, hU⟩)
      _ (structEntry_iff.mpr ⟨hmerged', hne, b, rfl, hV⟩)
    exact hfollows.2 heq U V ⟨rfl, rfl⟩

end Struct

/-! All structs of a nesting. -/

/-- Regular structs all have truthful layouts. -/
theorem truthful_of_regular {t : Ty} (ht : Bodied t) (h : ∀ S ∈ t.structs, Regular S) :
    ∀ S ∈ t.structs, Truthful S := by
  induction t using Ty.ind with
  | scalar s a => simp [Ty.structs]
  | opaqueStruct n => simp [Ty.structs]
  | struct n p es ih =>
    have hinside : ∀ t ∈ es, ∀ E ∈ t.structs, Truthful E := by
      intro t hmem
      apply ih t hmem (Bodied.elements (s := ⟨n, p, es⟩) ht t hmem)
      intro S hS
      exact h S (List.mem_cons_of_mem _ (Ty.structs_subset_structsOf hmem hS))
    intro S hS
    rw [Ty.structs] at hS
    rcases List.mem_cons.mp hS with rfl | hS
    · exact (h _ List.mem_cons_self).truthful ht hinside
    · obtain ⟨t, hmem, hS⟩ := Ty.mem_structsOf.mp hS
      exact hinside t hmem S hS
  | array n e ih =>
    cases ht with
    | array he => exact ih he h

/-- The element types that a request asks for lie in the type, where layouts are truthful. -/
theorem nodes_subset_structs {T : StructType} (h : ∀ S ∈ T.ty.structs, Truthful S) :
    ∀ s ∈ T.nodes, s ∈ T.ty.structs := by
  induction hd : T.ty.depth using Nat.strong_induction_on generalizing T with
  | _ d ih =>
    subst hd
    intro s hs
    rcases mem_nodes hs with rfl | ⟨B, hB, hs⟩
    · exact Ty.self_mem_structs s
    · obtain ⟨-, o, c, he⟩ := exists_arrayEntry hB
      obtain ⟨hc, -, hobjects⟩ := (h T (Ty.self_mem_structs T)).arrays o c B he
      have hin := Ty.structs_trans (hobjects 0 hc).mem_structs
      exact hin (ih _ (arrayElements_depth_lt hB) (fun S hS => h S (hin hS)) rfl s hs)

/-- Layouts are truthful where all structs are regular, and, but for empty arrays at the start of a
struct, nowhere else. Where tables are for their own sizes, no walk through them divides by 0 then. -/
theorem truthful_layouts {T : StructType} (hT : Bodied T.ty) :
    ((∀ S ∈ T.ty.structs, Regular S) → ∀ S ∈ T.ty.structs, Truthful S) ∧
    ((∀ S ∈ T.ty.structs, NoPhantoms S) → (∀ S ∈ T.ty.structs, Truthful S) →
      ∀ S ∈ T.ty.structs, Regular S) ∧
    ((∀ S ∈ T.ty.structs, Truthful S) → ∀ globals : Globals,
      (∀ A ∈ T.nodes, Describes globals A) →
        ∀ s ∈ T.nodes, ∀ A ∈ s.arrayElements, Divides globals A) := by
  refine ⟨truthful_of_regular hT, fun hphantoms h S hS => ?_, fun h globals hown s hs A hA => ?_⟩
  · exact (h S hS).regular (hT.of_mem_structs hS) (hphantoms S hS)
  · obtain ⟨-, o, c, he⟩ := exists_arrayEntry hA
    obtain ⟨-, hsize, -⟩ := (h s (nodes_subset_structs h s hs)).arrays o c A he
    obtain ⟨rest, hlookup⟩ := hown A (nodes_closed T s hs hA)
    exact ⟨_, rest, Nat.pos_iff_ne_zero.mp hsize, hlookup⟩

/-! An array behind a word, of two structs and of none. -/

namespace ArrayOf

def B : StructType := ⟨some "trackedtype.B", false, [.scalar 8 3]⟩

def T (count : Nat) : StructType :=
  ⟨some "trackedtype.T", false, [.scalar 8 3, .array count B.ty]⟩

theorem bodied (count : Nat) : Bodied (T count).ty := by
  have hB : Bodied B.ty := .struct (by simpa [B] using Bodied.scalar 8 3)
  refine .struct ?_
  simp only [T, List.forall_mem_cons]
  exact ⟨.scalar 8 3, .array hB, by simp⟩

theorem regular : ∀ S ∈ (T 2).ty.structs, Regular S := by
  intro S hS
  rcases List.mem_pair.mp (show S ∈ [T 2, B] from hS) with rfl | rfl
  · constructor
    · intro i hi node hnode
      match i, hi with
      | 0, _ => cases hnode
      | 1, _ =>
        cases hnode
        exact Or.inr (Or.inl ⟨by decide, by decide⟩)
    · intro i j hi hj hij a b D D' _ _ hD _ _
      obtain rfl : i = 0 := by
        have : j < 2 := hj
        omega
      cases hD
  · constructor
    · intro i hi node hnode
      match i, hi with
      | 0, _ => cases hnode
    · intro i j hi hj hij
      have : j < 1 := hj
      omega

end ArrayOf

open ArrayOf

/-- The array of two structs gets an entry for two structs that are there. -/
theorem truthful_layouts_of_two : Truthful (T 2) :=
  (truthful_layouts (bodied 2)).1 regular (T 2) (Ty.self_mem_structs _)

/-- The empty array gets an entry for no struct. -/
theorem truthful_layouts_fails_for_empty_array :
    ¬ ∀ T : StructType, Bodied T.ty → Truthful T := by
  intro hall
  have hentry : (8, .arrayNode 0 B) ∈ (T 0).offsets := by decide
  exact absurd ((hall (T 0) (bodied 0)).arrays 8 0 B hentry).1 (by decide)

end TypeSan
