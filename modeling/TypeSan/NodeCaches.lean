import Mathlib.Data.List.Forall2
import TypeSan.TypeInfoRequests

/-! The layout flattener as it runs: nodes on the heap, the caches that they are found in, and lists
of offsets that grow while the types inside are flattened. -/
namespace TypeSan

/-- A `TypeNode *` -/
inductive NodePtr where
  | structNode (p : Nat)
  | arrayNode (p : Nat)
  deriving DecidableEq

/-- The fields of a `StructNode` -/
structure StructNodeData where
  offsets : List (Nat × NodePtr)
  baseType : StructType
  size : Nat
  deriving DecidableEq

/-- The fields of an `ArrayNode` -/
structure ArrayNodeData where
  count : Nat
  element : Nat
  deriving DecidableEq

/-- The nodes of a process by their addresses, the two caches, and the next address that `new`
gives. -/
structure NodeHeap where
  structNodes : Nat → Option StructNodeData
  arrayNodes : Nat → Option ArrayNodeData
  structNodeCache : StructType → Option Nat
  arrayNodeCache : Nat × Nat → Option Nat
  next : Nat

namespace NodeHeap

def empty : NodeHeap := ⟨fun _ => none, fun _ => none, fun _ => none, fun _ => none, 0⟩

/-- `StructNode::create` -/
def createStruct (h : NodeHeap) (baseType : StructType) (size : Nat) : Nat × NodeHeap :=
  match h.structNodeCache baseType with
  | some existing => (existing, h)
  | none =>
    let result : StructNodeData := ⟨[(0, .structNode h.next)], baseType, size⟩
    (h.next,
      { h with
        structNodes := Function.update h.structNodes h.next (some result)
        structNodeCache := Function.update h.structNodeCache baseType (some h.next)
        next := h.next + 1 })

/-- `thisCount` and `thisElement` of `ArrayNode::create`. -/
def thisArray (h : NodeHeap) (count : Nat) : NodePtr → Option ArrayNodeData
  | .arrayNode p => (h.arrayNodes p).map fun nestedArray =>
    ⟨count * nestedArray.count, nestedArray.element⟩
  | .structNode p => some ⟨count, p⟩

/-- The node of this data, from the cache or new. -/
def cachedArray (h : NodeHeap) (this : ArrayNodeData) : Nat × NodeHeap :=
  match h.arrayNodeCache (this.element, this.count) with
  | some existing => (existing, h)
  | none =>
    (h.next,
      { h with
        arrayNodes := Function.update h.arrayNodes h.next (some this)
        arrayNodeCache := Function.update h.arrayNodeCache (this.element, this.count) (some h.next)
        next := h.next + 1 })

/-- `ArrayNode::create` -/
def createArray (h : NodeHeap) (count : Nat) (element : NodePtr) : Option (Nat × NodeHeap) :=
  (h.thisArray count element).map h.cachedArray

/-- `push_back` to the offsets of a struct node. -/
def push (h : NodeHeap) (p : Nat) (entries : List (Nat × NodePtr)) : Option NodeHeap :=
  (h.structNodes p).map fun node =>
    let node := { node with offsets := node.offsets ++ entries }
    { h with structNodes := Function.update h.structNodes p (some node) }

section Flatten

variable (ofStruct : StructType → NodeHeap → Option (Nat × NodeHeap))

/-- `getStructLayout` with no list to merge into, where the node of a struct type is found or made
by `ofStruct`. -/
def getNode : Ty → NodeHeap → Option (Option NodePtr × NodeHeap)
  | .scalar .., h | .opaqueStruct _, h => some (none, h)
  | .struct name isPacked elements, h => do
    let (p, h) ← ofStruct ⟨name, isPacked, elements⟩ h
    return (some (.structNode p), h)
  | .array numElements elementType, h => do
    let (nestedNode, h) ← getNode elementType h
    match nestedNode with
    | none => return (none, h)
    | some nestedNode =>
      let (p, h) ← h.createArray numElements nestedNode
      return (some (.arrayNode p), h)

/-- `mergeStructLayout`, into the offsets of the node at `p`. -/
def merge (p : Nat) (innerType : StructType) (baseOffset : Nat) (h : NodeHeap) :
    Option NodeHeap := do
  let (nested, h) ← ofStruct innerType h
  let node ← h.structNodes nested
  h.push p (node.offsets.filterMap fun entry =>
    if baseOffset + entry.1 ≠ 0 then some (baseOffset + entry.1, entry.2) else none)

/-- The body of the loop over `STy->elements()`. -/
def flattenElement (p : Nat) (offset : Nat) (InnerTy : Ty) (h : NodeHeap) : Option NodeHeap :=
  match InnerTy with
  | .scalar .. | .opaqueStruct _ => some h
  | .struct name isPacked elements => merge ofStruct p ⟨name, isPacked, elements⟩ offset h
  | .array .. => do
    let (nestedNode, h) ← getNode ofStruct InnerTy h
    match nestedNode with
    | some (.arrayNode q) =>
      let nestedArray ← h.arrayNodes q
      let element ← h.structNodes nestedArray.element
      if offset = 0 then
        let h ← merge ofStruct p element.baseType offset h
        if 1 < nestedArray.count then
          let (partialNestedArray, h) ←
            h.createArray (nestedArray.count - 1) (.structNode nestedArray.element)
          h.push p [(element.size, .arrayNode partialNestedArray)]
        else some h
      else if nestedArray.count = 1 then merge ofStruct p element.baseType offset h
      else h.push p [(offset, .arrayNode q)]
    | _ => some h

/-- The loop over `STy->elements()`. An opaque element is skipped without counting its position. -/
def flattenElements (p : Nat) (SL : StructLayout) (pos : Nat) :
    List Ty → NodeHeap → Option NodeHeap
  | [], h => some h
  | .opaqueStruct _ :: rest, h => flattenElements p SL pos rest h
  | InnerTy :: rest, h => do
    let h ← flattenElement ofStruct p (SL.getElementOffset pos) InnerTy h
    flattenElements p SL (pos + 1) rest h

end Flatten

/-- The part of `getStructLayout` that finds the node of a struct type in the cache, or makes it.
How deep structs nest in the type is enough fuel. -/
def structNode : Nat → StructType → NodeHeap → Option (Nat × NodeHeap)
  | 0, _, _ => none
  | fuel + 1, STy, h =>
    match h.structNodeCache STy with
    | some p => some (p, h)
    | none => do
      let (p, h) := h.createStruct STy STy.ty.allocSize
      let h ← flattenElements (structNode fuel) p (getLayout STy.isPacked STy.elements) 0
        STy.elements h
      return (p, h)

/-- A call of `getStructLayout`. -/
def getStructLayout (rootType : Ty) (h : NodeHeap) : Option (Option NodePtr × NodeHeap) :=
  getNode (structNode rootType.depth) rootType h

/-- The calls of a process, one after another. -/
def getStructLayouts : List Ty → NodeHeap → Option (List (Option NodePtr) × NodeHeap)
  | [], h => some ([], h)
  | rootType :: rest, h => do
    let (node, h) ← h.getStructLayout rootType
    let (nodes, h) ← getStructLayouts rest h
    return (node :: nodes, h)

/-! What the nodes of a heap stand for. -/

/-- The node at a pointer, named by its data. -/
def nodeAt (h : NodeHeap) : NodePtr → Option TypeNode
  | .structNode p => (h.structNodes p).map fun node => .structNode node.baseType
  | .arrayNode q => do
    let node ← h.arrayNodes q
    let element ← h.structNodes node.element
    return .arrayNode node.count element.baseType

/-- The offsets of a node, with the nodes they point to. -/
def Lists (h : NodeHeap) (entries : List (Nat × NodePtr)) (offsets : Offsets) : Prop :=
  List.Forall₂ (fun e o => e.1 = o.1 ∧ h.nodeAt e.2 = some o.2) entries offsets

/-- What no operation changes but the offsets of the struct nodes in `opened`: nodes stay where they
are, with their data. -/
structure Extends (opened : Set Nat) (h h' : NodeHeap) : Prop where
  structs : ∀ p node, h.structNodes p = some node → ∃ node', h'.structNodes p = some node' ∧
    node'.baseType = node.baseType ∧ (p ∉ opened → node' = node)
  arrays : ∀ q node, h.arrayNodes q = some node → h'.arrayNodes q = some node

/-- The caches find every node by its data, and a node outside `opened` has the offsets of its type.
The types of the nodes in `opened` nest deeper than `depth`. -/
structure Wf (opened : Set Nat) (depth : Nat) (h : NodeHeap) : Prop where
  fresh : ∀ p, h.next ≤ p → h.structNodes p = none ∧ h.arrayNodes p = none
  structCache : ∀ S p, h.structNodeCache S = some p ↔
    ∃ node, h.structNodes p = some node ∧ node.baseType = S
  arrayCache : ∀ c p q, h.arrayNodeCache (p, c) = some q ↔ h.arrayNodes q = some ⟨c, p⟩
  size : ∀ p node, h.structNodes p = some node → node.size = node.baseType.ty.allocSize
  element : ∀ q node, h.arrayNodes q = some node →
    ∃ element, h.structNodes node.element = some element
  complete : ∀ p node, h.structNodes p = some node → p ∉ opened →
    h.Lists node.offsets node.baseType.offsets
  deeper : ∀ p ∈ opened, ∃ node, h.structNodes p = some node ∧ depth < node.baseType.ty.depth

section Reading

variable {h h' h'' : NodeHeap} {opened : Set Nat} {depth : Nat}

theorem nodeAt_structNode {p : Nat} {S : StructType} :
    h.nodeAt (.structNode p) = some (.structNode S) ↔
      ∃ node, h.structNodes p = some node ∧ node.baseType = S := by
  simp [nodeAt]

theorem nodeAt_arrayNode {q c : Nat} {E : StructType} :
    h.nodeAt (.arrayNode q) = some (.arrayNode c E) ↔
      ∃ p, h.arrayNodes q = some ⟨c, p⟩ ∧ h.nodeAt (.structNode p) = some (.structNode E) := by
  simp only [nodeAt_structNode]
  simp only [nodeAt, Option.bind_eq_bind, Option.bind_eq_some_iff, Option.pure_def,
    Option.some.injEq, TypeNode.arrayNode.injEq]
  constructor
  · rintro ⟨⟨c, p⟩, hq, element, hp, rfl, rfl⟩
    exact ⟨p, hq, element, hp, rfl⟩
  · rintro ⟨p, hq, element, hp, rfl⟩
    exact ⟨⟨c, p⟩, hq, element, hp, rfl, rfl⟩

theorem Extends.refl (opened : Set Nat) (h : NodeHeap) : Extends opened h h :=
  ⟨fun _ node hp => ⟨node, hp, rfl, fun _ => rfl⟩, fun _ _ hq => hq⟩

theorem Extends.trans (h₁ : Extends opened h h') (h₂ : Extends opened h' h'') :
    Extends opened h h'' := by
  refine ⟨fun p node hp => ?_, fun q node hq => h₂.arrays q node (h₁.arrays q node hq)⟩
  obtain ⟨node', hp', hbase', hsame'⟩ := h₁.structs p node hp
  obtain ⟨node'', hp'', hbase'', hsame''⟩ := h₂.structs p node' hp'
  exact ⟨node'', hp'', hbase''.trans hbase', fun hout => (hsame'' hout).trans (hsame' hout)⟩

theorem Extends.mono {more : Set Nat} (hext : Extends opened h h') (hmore : opened ⊆ more) :
    Extends more h h' := by
  refine ⟨fun p node hp => ?_, hext.arrays⟩
  obtain ⟨node', hp', hbase, hsame⟩ := hext.structs p node hp
  exact ⟨node', hp', hbase, fun hout => hsame fun hin => hout (hmore hin)⟩

theorem Extends.nodeAt (hext : Extends opened h h') {ptr : NodePtr} {node : TypeNode}
    (hnode : h.nodeAt ptr = some node) : h'.nodeAt ptr = some node := by
  have hstruct {p : Nat} {S : StructType} (hp : h.nodeAt (.structNode p) = some (.structNode S)) :
      h'.nodeAt (.structNode p) = some (.structNode S) := by
    obtain ⟨data, hdata, rfl⟩ := nodeAt_structNode.mp hp
    obtain ⟨data', hp', hbase, -⟩ := hext.structs p data hdata
    exact nodeAt_structNode.mpr ⟨data', hp', hbase⟩
  cases ptr with
  | structNode p =>
    obtain ⟨data, hp, rfl⟩ := Option.map_eq_some_iff.mp hnode
    exact hstruct (nodeAt_structNode.mpr ⟨data, hp, rfl⟩)
  | arrayNode q =>
    cases node with
    | structNode S => simp [NodeHeap.nodeAt, Option.bind_eq_some_iff] at hnode
    | arrayNode c E =>
      obtain ⟨p, hq, hp⟩ := nodeAt_arrayNode.mp hnode
      exact nodeAt_arrayNode.mpr ⟨p, hext.arrays q _ hq, hstruct hp⟩

theorem Extends.lists (hext : Extends opened h h') {entries : List (Nat × NodePtr)}
    {offsets : Offsets} (hlists : h.Lists entries offsets) : h'.Lists entries offsets :=
  hlists.imp fun _ _ he => ⟨he.1, hext.nodeAt he.2⟩

theorem Lists.append {entries entries' : List (Nat × NodePtr)} {offsets offsets' : Offsets}
    (h₁ : h.Lists entries offsets) (h₂ : h.Lists entries' offsets') :
    h.Lists (entries ++ entries') (offsets ++ offsets') :=
  List.rel_append h₁ h₂

/-- Two pointers to nodes of the same data are the same pointer. -/
theorem Wf.nodeAt_inj (hwf : Wf opened depth h) {a b : NodePtr} {node : TypeNode}
    (ha : h.nodeAt a = some node) (hb : h.nodeAt b = some node) : a = b := by
  have hstruct {p p' : Nat} {S : StructType}
      (hp : h.nodeAt (.structNode p) = some (.structNode S))
      (hp' : h.nodeAt (.structNode p') = some (.structNode S)) : p = p' := by
    have hp := (hwf.structCache S p).mpr (nodeAt_structNode.mp hp)
    have hp' := (hwf.structCache S p').mpr (nodeAt_structNode.mp hp')
    exact Option.some.inj (hp.symm.trans hp')
  have hshape {q : Nat} {S : StructType} : h.nodeAt (.arrayNode q) ≠ some (.structNode S) := by
    simp [NodeHeap.nodeAt, Option.bind_eq_some_iff]
  have hshape' {p c : Nat} {E : StructType} :
      h.nodeAt (.structNode p) ≠ some (.arrayNode c E) := by
    simp [NodeHeap.nodeAt]
  cases node with
  | structNode S =>
    cases a with
    | arrayNode q => exact absurd ha hshape
    | structNode p =>
      cases b with
      | arrayNode q => exact absurd hb hshape
      | structNode p' => rw [hstruct ha hb]
  | arrayNode c E =>
    cases a with
    | structNode p => exact absurd ha hshape'
    | arrayNode q =>
      cases b with
      | structNode p => exact absurd hb hshape'
      | arrayNode q' =>
        obtain ⟨p, hq, hp⟩ := nodeAt_arrayNode.mp ha
        obtain ⟨p', hq', hp'⟩ := nodeAt_arrayNode.mp hb
        obtain rfl := hstruct hp hp'
        have hq := (hwf.arrayCache c p q).mpr hq
        have hq' := (hwf.arrayCache c p q').mpr hq'
        rw [Option.some.inj (hq.symm.trans hq')]

end Reading

/-! Making nodes. -/

/-- A call that leaves the offsets of all nodes as they are. -/
structure Called (opened : Set Nat) (depth : Nat) (h h' : NodeHeap) : Prop where
  wf : Wf opened depth h'
  extend : Extends ∅ h h'

section Nodes

variable {h h' h'' : NodeHeap} {opened : Set Nat} {depth : Nat}

theorem Called.trans (h₁ : Called opened depth h h') (h₂ : Called opened depth h' h'') :
    Called opened depth h h'' :=
  ⟨h₂.wf, h₁.extend.trans h₂.extend⟩

/-- `new` for a struct node: nothing that is there is found changed. -/
theorem createStruct_extends (hwf : Wf opened depth h) (S : StructType)
    (hnew : h.structNodeCache S = none) :
    Extends ∅ h (h.createStruct S S.ty.allocSize).2 := by
  have hfresh := (hwf.fresh h.next (Nat.le_refl _)).1
  rw [createStruct, hnew]
  refine ⟨fun p node hp => ⟨node, ?_, rfl, fun _ => rfl⟩, fun _ _ hq => hq⟩
  have hne : p ≠ h.next := fun heq => by simp [heq, hfresh] at hp
  simp [hne, hp]

theorem createStruct_wf (hwf : Wf opened depth h) {S : StructType}
    (hnew : h.structNodeCache S = none) (inner : Nat) (hinner : inner < S.ty.depth)
    (hdepth : S.ty.depth ≤ depth) :
    Wf (insert h.next opened) inner (h.createStruct S S.ty.allocSize).2 := by
  have hext := createStruct_extends hwf S hnew
  have hfresh := hwf.fresh h.next (Nat.le_refl _)
  have hold {p : Nat} {node : StructNodeData} (hp : h.structNodes p = some node) : p ≠ h.next :=
    fun heq => by simp [heq, hfresh.1] at hp
  rw [createStruct, hnew] at hext ⊢
  constructor
  · intro p hp
    have hp : h.next + 1 ≤ p := hp
    have hne : p ≠ h.next := by omega
    simpa [hne] using hwf.fresh p (by omega)
  · intro T p
    by_cases hT : T = S
    · subst hT
      by_cases hp : p = h.next
      · simp [hp]
      · have := (hwf.structCache T p).not.mp (by simp [hnew])
        simpa [hp, Ne.symm hp] using this
    · by_cases hp : p = h.next
      · have := (hwf.structCache T p).not.mpr (by simp [hp, hfresh.1])
        simpa [hT, hp, Ne.symm hT] using this
      · simpa [hT, hp] using hwf.structCache T p
  · exact hwf.arrayCache
  · intro p node hp
    by_cases hne : p = h.next
    · obtain rfl : _ = node := by simpa [hne] using hp
      rfl
    · exact hwf.size p node (by simpa [hne] using hp)
  · intro q node hq
    obtain ⟨element, helement⟩ := hwf.element q node hq
    exact ⟨element, by simpa [hold helement] using helement⟩
  · intro p node hp hout
    have hne : p ≠ h.next := fun heq => hout (by simp [heq])
    have hp : h.structNodes p = some node := by simpa [hne] using hp
    exact hext.lists (hwf.complete p node hp fun hin => hout (by simp [hin]))
  · intro p hp
    by_cases hne : p = h.next
    · exact ⟨⟨[(0, .structNode h.next)], S, S.ty.allocSize⟩, by simp [hne], hinner⟩
    · obtain ⟨node, hnode, hdeep⟩ := hwf.deeper p (hp.resolve_left hne)
      exact ⟨node, by simpa [hne] using hnode, by omega⟩

theorem thisArray_eq (count : Nat) {element : NodePtr} {node : TypeNode}
    (helement : h.nodeAt element = some node) : ∃ p,
      h.thisArray count element = some ⟨count * node.count, p⟩ ∧
        h.nodeAt (.structNode p) = some (.structNode node.element) := by
  cases element with
  | structNode p =>
    obtain ⟨data, hp, rfl⟩ := Option.map_eq_some_iff.mp helement
    exact ⟨p, by simp [thisArray, TypeNode.count], helement⟩
  | arrayNode q =>
    cases node with
    | structNode S => simp [nodeAt, Option.bind_eq_some_iff] at helement
    | arrayNode c E =>
      obtain ⟨p, hq, hp⟩ := nodeAt_arrayNode.mp helement
      exact ⟨p, by simp [thisArray, hq], hp⟩

theorem cachedArray_called (hwf : Wf opened depth h) (this : ArrayNodeData) {S : StructType}
    (helement : h.nodeAt (.structNode this.element) = some (.structNode S)) :
    Called opened depth h (h.cachedArray this).2 ∧
      (h.cachedArray this).2.arrayNodes (h.cachedArray this).1 = some this := by
  cases hcache : h.arrayNodeCache (this.element, this.count) with
  | some existing =>
    simp only [cachedArray, hcache]
    exact ⟨⟨hwf, .refl _ _⟩, (hwf.arrayCache _ _ _).mp hcache⟩
  | none =>
    have hfresh := hwf.fresh h.next (Nat.le_refl _)
    have hext : Extends ∅ h (h.cachedArray this).2 := by
      refine ⟨fun p node hp => ⟨node, ?_, rfl, fun _ => rfl⟩, fun q node hq => ?_⟩
      · simpa only [cachedArray, hcache] using hp
      · have hne : q ≠ h.next := fun heq => by simp [heq, hfresh.2] at hq
        simp [cachedArray, hcache, hne, hq]
    simp only [cachedArray, hcache] at hext ⊢
    refine ⟨⟨?_, hext⟩, by simp⟩
    constructor
    · intro p hp
      have hp : h.next + 1 ≤ p := hp
      have hne : p ≠ h.next := by omega
      simpa [hne] using hwf.fresh p (by omega)
    · exact hwf.structCache
    · intro c p q
      by_cases hkey : (p, c) = (this.element, this.count)
      · obtain ⟨rfl, rfl⟩ := Prod.mk.inj hkey
        by_cases hq : q = h.next
        · simp [hq]
        · have hnone := (hwf.arrayCache this.count this.element q).not.mp (by simp [hcache])
          simpa [hq, Ne.symm hq] using hnone
      · by_cases hq : q = h.next
        · have hnone := (hwf.arrayCache c p q).not.mpr (by simp [hq, hfresh.2])
          have hthis : this ≠ ⟨c, p⟩ := fun heq => hkey (by rw [heq])
          simpa [hkey, hq, hthis] using hnone
        · simpa [hkey, hq] using hwf.arrayCache c p q
    · exact hwf.size
    · intro q node hq
      by_cases hne : q = h.next
      · obtain rfl : this = node := by simpa [hne] using hq
        obtain ⟨data, hp, -⟩ := nodeAt_structNode.mp helement
        exact ⟨data, hp⟩
      · exact hwf.element q node (by simpa [hne] using hq)
    · intro p node hp hout
      exact hext.lists (hwf.complete p node hp hout)
    · exact hwf.deeper

/-- `ArrayNode::create` gives the node of the multiplied count, one node a count and element. -/
theorem createArray_called (hwf : Wf opened depth h) (count : Nat) {element : NodePtr}
    {node : TypeNode} (helement : h.nodeAt element = some node) :
    ∃ q h', h.createArray count element = some (q, h') ∧ Called opened depth h h' ∧
      h'.nodeAt (.arrayNode q) = some (createArrayNode count node) := by
  obtain ⟨p, hthis, hp⟩ := thisArray_eq count helement
  obtain ⟨hcalled, hq⟩ := cachedArray_called hwf ⟨count * node.count, p⟩ hp
  refine ⟨_, _, by rw [createArray, hthis, Option.map_some], hcalled, ?_⟩
  rw [createArrayNode_eq]
  exact nodeAt_arrayNode.mpr ⟨p, hq, hcalled.extend.nodeAt hp⟩

end Nodes

/-! Filling the offsets of a node. -/

/-- `offsets` are added to those of the node at `p`, and no other node's change. -/
structure Grew (opened : Set Nat) (depth p : Nat) (h h' : NodeHeap) (offsets : Offsets) : Prop where
  wf : Wf opened depth h'
  extend : Extends {p} h h'
  grown : ∀ node, h.structNodes p = some node → ∃ entries, h'.Lists entries offsets ∧
    h'.structNodes p = some { node with offsets := node.offsets ++ entries }

/-- What the flattener asks of the function that finds the nodes of struct types. -/
def Finds (ofStruct : StructType → NodeHeap → Option (Nat × NodeHeap)) (opened : Set Nat)
    (depth : Nat) : Prop :=
  ∀ S h, S.ty.depth ≤ depth → Wf opened depth h → ∃ p h', ofStruct S h = some (p, h') ∧
    Called opened depth h h' ∧ h'.nodeAt (.structNode p) = some (.structNode S)

section Filling

variable {h h' h'' : NodeHeap} {opened : Set Nat} {depth p : Nat} {offsets offsets' : Offsets}

theorem Grew.nil (hwf : Wf opened depth h) : Grew opened depth p h h [] := by
  refine ⟨hwf, .refl _ _, fun node hp => ⟨[], .nil, ?_⟩⟩
  rw [hp, List.append_nil]

theorem Grew.append (h₁ : Grew opened depth p h h' offsets)
    (h₂ : Grew opened depth p h' h'' offsets') :
    Grew opened depth p h h'' (offsets ++ offsets') := by
  refine ⟨h₂.wf, h₁.extend.trans h₂.extend, fun node hp => ?_⟩
  obtain ⟨entries, hlists, hp'⟩ := h₁.grown node hp
  obtain ⟨entries', hlists', hp''⟩ := h₂.grown _ hp'
  refine ⟨entries ++ entries', (h₂.extend.lists hlists).append hlists', ?_⟩
  rw [hp'', List.append_assoc]

/-- A call before does not count. -/
theorem Called.grew (h₁ : Called opened depth h h') (h₂ : Grew opened depth p h' h'' offsets) :
    Grew opened depth p h h'' offsets := by
  refine ⟨h₂.wf, (h₁.extend.mono (Set.empty_subset _)).trans h₂.extend, fun node hp => ?_⟩
  obtain ⟨node', hp', -, hsame⟩ := h₁.extend.structs p node hp
  obtain rfl := hsame (Set.notMem_empty p)
  exact h₂.grown node' hp'

theorem push_grew (hwf : Wf opened depth h) (hopen : p ∈ opened)
    {entries : List (Nat × NodePtr)} (hlists : h.Lists entries offsets) :
    ∃ h', h.push p entries = some h' ∧ Grew opened depth p h h' offsets := by
  obtain ⟨data, hp, -⟩ := hwf.deeper p hopen
  let grown : StructNodeData := { data with offsets := data.offsets ++ entries }
  let h' : NodeHeap := { h with structNodes := Function.update h.structNodes p (some grown) }
  have hext : Extends {p} h h' := by
    refine ⟨fun q node hq => ?_, fun _ _ hq => hq⟩
    by_cases hqp : q = p
    · subst hqp
      obtain rfl : data = node := Option.some.inj (hp.symm.trans hq)
      exact ⟨grown, by simp [h'], rfl, fun hout => absurd rfl hout⟩
    · exact ⟨node, by simp [h', hqp, hq], rfl, fun _ => rfl⟩
  refine ⟨h', by rw [push, hp]; rfl, ?_, hext, fun node hq => ?_⟩
  · constructor
    · intro q hq
      have hne : q ≠ p := by
        rintro rfl
        simp [(hwf.fresh q hq).1] at hp
      simpa [h', hne] using hwf.fresh q hq
    · intro S q
      by_cases hqp : q = p
      · subst hqp
        simpa [h', hp, grown] using hwf.structCache S q
      · simpa [h', hqp] using hwf.structCache S q
    · exact hwf.arrayCache
    · intro q node hq
      by_cases hqp : q = p
      · obtain rfl : grown = node := by simpa [h', hqp] using hq
        exact hwf.size p data hp
      · exact hwf.size q node (by simpa [h', hqp] using hq)
    · intro q node hq
      obtain ⟨element, helement⟩ := hwf.element q node hq
      obtain ⟨element', helement', -⟩ := hext.structs _ _ helement
      exact ⟨element', helement'⟩
    · intro q node hq hout
      have hqp : q ≠ p := fun heq => hout (heq ▸ hopen)
      exact hext.lists (hwf.complete q node (by simpa [h', hqp] using hq) hout)
    · intro q hq
      obtain ⟨node, hnode, hdeep⟩ := hwf.deeper q hq
      obtain ⟨node', hnode', hbase, -⟩ := hext.structs _ _ hnode
      exact ⟨node', hnode', hbase ▸ hdeep⟩
  · obtain rfl : data = node := Option.some.inj (hp.symm.trans hq)
    exact ⟨entries, hext.lists hlists, by simp [h', grown]⟩

variable {ofStruct : StructType → NodeHeap → Option (Nat × NodeHeap)}
  (hfinds : Finds ofStruct opened depth)
include hfinds

theorem getNode_called (hwf : Wf opened depth h) {t : Ty} (ht : t.depth ≤ depth) :
    ∃ ptr h', getNode ofStruct t h = some (ptr, h') ∧ Called opened depth h h' ∧
      ptr.map h'.nodeAt = (TypeSan.getStructLayout t).map some := by
  induction t using Ty.ind with
  | scalar s a => exact ⟨none, h, by rw [getNode], ⟨hwf, .refl _ _⟩, rfl⟩
  | opaqueStruct n => exact ⟨none, h, by rw [getNode], ⟨hwf, .refl _ _⟩, rfl⟩
  | struct n isPacked es _ =>
    obtain ⟨q, h', hof, hcalled, hq⟩ := hfinds ⟨n, isPacked, es⟩ h ht hwf
    exact ⟨some (.structNode q), h', by simp [getNode, hof], hcalled, congrArg some hq⟩
  | array n e ih =>
    obtain ⟨ptr, h₁, hnested, hcalled, hptr⟩ := ih (by simpa [Ty.depth] using ht)
    cases hnode : TypeSan.getStructLayout e with
    | none =>
      obtain rfl : ptr = none := by simpa [hnode] using hptr
      exact ⟨none, h₁, by simp [getNode, hnested], hcalled,
        by simp [TypeSan.getStructLayout, hnode]⟩
    | some node =>
      obtain ⟨element, rfl, helement⟩ : ∃ element, ptr = some element ∧
          h₁.nodeAt element = some node := by simpa [hnode] using hptr
      obtain ⟨q, h₂, hcreate, hcalled', hq⟩ := createArray_called hcalled.wf n helement
      exact ⟨some (.arrayNode q), h₂, by simp [getNode, hnested, hcreate], hcalled.trans hcalled',
        by simp [TypeSan.getStructLayout, hnode, hq]⟩

/-- The merged struct's own list is complete: its type nests less deep than any that is open. -/
theorem merge_grew (hwf : Wf opened depth h) (hopen : p ∈ opened) {S : StructType}
    (hS : S.ty.depth ≤ depth) (baseOffset : Nat) :
    ∃ h', merge ofStruct p S baseOffset h = some h' ∧
      Grew opened depth p h h' (mergeStructLayout S.offsets baseOffset) := by
  obtain ⟨nested, h₁, hof, hcalled, hnested⟩ := hfinds S h hS hwf
  obtain ⟨data, hdata, rfl⟩ := nodeAt_structNode.mp hnested
  have hclosed : nested ∉ opened := by
    intro hin
    obtain ⟨data', hdata', hdeep⟩ := hcalled.wf.deeper nested hin
    obtain rfl : data = data' := Option.some.inj (hdata.symm.trans hdata')
    omega
  have hlists := hcalled.wf.complete nested data hdata hclosed
  have hmerged : h₁.Lists
      (data.offsets.filterMap fun entry =>
        if baseOffset + entry.1 ≠ 0 then some (baseOffset + entry.1, entry.2) else none)
      (mergeStructLayout data.baseType.offsets baseOffset) := by
    refine List.rel_filterMap ?_ hlists
    rintro ⟨o, ptr⟩ ⟨o', node⟩ ⟨rfl, hnode⟩
    by_cases hne : baseOffset + o ≠ 0
    · simp only [if_pos hne]
      exact .some ⟨rfl, hnode⟩
    · simp only [if_neg hne]
      exact .none
  obtain ⟨h₂, hpush, hgrew⟩ := push_grew hcalled.wf hopen hmerged
  refine ⟨h₂, ?_, hcalled.grew hgrew⟩
  simp only [merge, hof, Option.bind_eq_bind, Option.bind_some, hdata]
  exact hpush

/-- What an element adds to the list is what the layout says that it adds. -/
theorem flattenElement_grew (hwf : Wf opened depth h) (hopen : p ∈ opened) {t : Ty}
    (ht : t.depth ≤ depth) (offset : Nat) :
    ∃ h', flattenElement ofStruct p offset t h = some h' ∧
      Grew opened depth p h h' (elementEntries offset t (nodeOffsets t)) := by
  cases t with
  | scalar s a => exact ⟨h, rfl, .nil hwf⟩
  | opaqueStruct n => exact ⟨h, rfl, .nil hwf⟩
  | struct n isPacked es => exact merge_grew hfinds hwf hopen ht offset
  | array n e =>
    obtain ⟨ptr, h₁, hnested, hcalled, hptr⟩ := getNode_called hfinds hwf ht
    cases hnode : TypeSan.getStructLayout (.array n e) with
    | none =>
      obtain rfl : ptr = none := by simpa [hnode] using hptr
      rw [elementEntries_none hnode]
      exact ⟨h₁, by simp [flattenElement, hnested], hcalled.grew (.nil hcalled.wf)⟩
    | some node =>
      obtain ⟨count, E, rfl⟩ := getStructLayout_array hnode
      obtain ⟨ptr, rfl, hat⟩ : ∃ ptr', ptr = some ptr' ∧
          h₁.nodeAt ptr' = some (.arrayNode count E) := by simpa [hnode] using hptr
      cases ptr with
      | structNode q => simp [nodeAt] at hat
      | arrayNode q =>
        obtain ⟨element, hq, helement⟩ := nodeAt_arrayNode.mp hat
        obtain ⟨data, hdata, rfl⟩ := nodeAt_structNode.mp helement
        have hE : data.baseType.ty.depth ≤ depth :=
          Nat.le_trans (getStructLayout_depth hnode) ht
        have hsize := hcalled.wf.size element data hdata
        rw [elementEntries_eq hnode]
        simp only [TypeNode.element_arrayNode, TypeNode.count_arrayNode]
        simp only [flattenElement, hnested, Option.bind_eq_bind, Option.bind_some, hq, hdata, hsize]
        by_cases hoffset : offset = 0
        · subst hoffset
          obtain ⟨h₂, hmerge, hgrew⟩ := merge_grew hfinds hcalled.wf hopen hE 0
          simp only [if_true, hmerge, Option.bind_some]
          by_cases hcount : 1 < count
          · obtain ⟨partialArray, h₃, hcreate, hcalled', hpartial⟩ :=
              createArray_called hgrew.wf (count - 1) (hgrew.extend.nodeAt helement)
            have hlists : h₃.Lists [(data.baseType.ty.allocSize, .arrayNode partialArray)]
                [(data.baseType.ty.allocSize, .arrayNode (count - 1) data.baseType)] :=
              .cons ⟨rfl, hpartial⟩ .nil
            obtain ⟨h₄, hpush, hgrew'⟩ := push_grew hcalled'.wf hopen hlists
            simp only [hcount, if_true, hcreate, Option.bind_some]
            exact ⟨h₄, hpush, hcalled.grew (hgrew.append (hcalled'.grew hgrew'))⟩
          · simp only [hcount, if_false, List.append_nil]
            exact ⟨h₂, rfl, hcalled.grew hgrew⟩
        · simp only [if_neg hoffset]
          by_cases hcount : count = 1
          · obtain ⟨h₂, hmerge, hgrew⟩ := merge_grew hfinds hcalled.wf hopen hE offset
            simp only [hcount, if_true]
            exact ⟨h₂, hmerge, hcalled.grew hgrew⟩
          · have hlists : h₁.Lists [(offset, .arrayNode q)]
                [(offset, .arrayNode count data.baseType)] := .cons ⟨rfl, hat⟩ .nil
            obtain ⟨h₂, hpush, hgrew⟩ := push_grew hcalled.wf hopen hlists
            simp only [hcount, if_false]
            exact ⟨h₂, hpush, hcalled.grew hgrew⟩

theorem flattenElements_grew (hwf : Wf opened depth h) (hopen : p ∈ opened) (SL : StructLayout)
    (pos : Nat) {es : List Ty} (hes : ∀ t ∈ es, t.depth ≤ depth) :
    ∃ h', flattenElements ofStruct p SL pos es h = some h' ∧
      Grew opened depth p h h' (elementsOffsets SL pos es) := by
  induction es generalizing pos h with
  | nil => exact ⟨h, rfl, .nil hwf⟩
  | cons t es ih =>
    have hrest : ∀ t ∈ es, t.depth ≤ depth := fun t ht => hes t (List.mem_cons_of_mem _ ht)
    by_cases hopaque : ∃ n, t = .opaqueStruct n
    · obtain ⟨n, rfl⟩ := hopaque
      simp only [flattenElements, elementsOffsets]
      exact ih hwf pos hrest
    · have hpushed : ∀ n, t ≠ .opaqueStruct n := fun n heq => hopaque ⟨n, heq⟩
      obtain ⟨h₁, helement, hgrew⟩ := flattenElement_grew hfinds hwf hopen
        (hes t List.mem_cons_self) (SL.getElementOffset pos)
      obtain ⟨h₂, htail, hgrew'⟩ := ih hgrew.wf (pos + 1) hrest
      rw [flattenElements.eq_3 _ _ _ _ _ _ _ hpushed, elementsOffsets.eq_3 _ _ _ _ hpushed]
      exact ⟨h₂, by simp [helement, htail], hgrew.append hgrew'⟩

end Filling

/-! Whole calls. -/

section Calls

variable {h h' : NodeHeap} {opened : Set Nat} {depth : Nat}

/-- The node of a struct type that is in no cache yet is open until its list is complete. -/
theorem createStruct_filled {fuel : Nat}
    (hfinds : ∀ opened, ∀ inner ≤ fuel, Finds (structNode fuel) opened inner)
    (hwf : Wf opened depth h) {S : StructType} (hS : S.ty.depth ≤ depth)
    (hfuel : S.ty.depth ≤ fuel + 1) (hnew : h.structNodeCache S = none) :
    ∃ p h', structNode (fuel + 1) S h = some (p, h') ∧ Called opened depth h h' ∧
      h'.nodeAt (.structNode p) = some (.structNode S) := by
  have hdepth : S.ty.depth = Ty.depths S.elements + 1 := by rw [Ty.depth]
  have hfresh := (hwf.fresh h.next (Nat.le_refl _)).1
  have hwf₁ := createStruct_wf hwf hnew (Ty.depths S.elements) (by omega) hS
  have hext₁ := createStruct_extends hwf S hnew
  have hp : (h.createStruct S S.ty.allocSize).1 = h.next := by rw [createStruct, hnew]
  have hcreated : (h.createStruct S S.ty.allocSize).2.structNodes h.next =
      some ⟨[(0, .structNode h.next)], S, S.ty.allocSize⟩ := by
    rw [createStruct, hnew]
    simp
  obtain ⟨h', hloop, hgrew⟩ := flattenElements_grew (hfinds _ _ (by omega)) hwf₁
    (Set.mem_insert h.next opened) (getLayout S.isPacked S.elements) 0
    (fun t ht => Ty.depth_le_depths ht)
  obtain ⟨entries, hlists, hfilled⟩ := hgrew.grown _ hcreated
  have hnode : h'.nodeAt (.structNode h.next) = some (.structNode S) :=
    nodeAt_structNode.mpr ⟨_, hfilled, rfl⟩
  -- every node that was there is as it was
  have hext : Extends ∅ h h' := by
    refine ⟨fun p node hold => ?_,
      fun q node hq => hgrew.extend.arrays q node (hext₁.arrays q node hq)⟩
    have hne : p ≠ h.next := fun heq => by simp [heq, hfresh] at hold
    obtain ⟨node₁, hold₁, hbase₁, hsame₁⟩ := hext₁.structs p node hold
    obtain ⟨node', hold', hbase', hsame'⟩ := hgrew.extend.structs p node₁ hold₁
    exact ⟨node', hold', hbase'.trans hbase₁,
      fun hout => (hsame' (by simpa using hne)).trans (hsame₁ hout)⟩
  have hcomplete : h'.Lists ([(0, .structNode h.next)] ++ entries) S.offsets := by
    rw [offsets_eq_cons]
    exact Lists.append (.cons ⟨rfl, hnode⟩ .nil) hlists
  refine ⟨h.next, h', ?_, ⟨⟨hgrew.wf.fresh, hgrew.wf.structCache, hgrew.wf.arrayCache,
    hgrew.wf.size, hgrew.wf.element, fun p node hnode' hout => ?_, fun p hin => ?_⟩, hext⟩, hnode⟩
  · simp only [structNode, hnew, hp, hloop, Option.bind_eq_bind, Option.bind_some, Option.pure_def]
  · by_cases hne : p = h.next
    · subst hne
      obtain rfl := Option.some.inj (hfilled.symm.trans hnode')
      exact hcomplete
    · exact hgrew.wf.complete p node hnode' fun hin => hin.elim hne hout
  · obtain ⟨node, hnode, hdeep⟩ := hwf.deeper p hin
    obtain ⟨node', hnode', hbase, -⟩ := hext.structs p node hnode
    exact ⟨node', hnode', hbase ▸ hdeep⟩

theorem structNode_finds (fuel : Nat) (opened : Set Nat) {depth : Nat} (hdepth : depth ≤ fuel) :
    Finds (structNode fuel) opened depth := by
  induction fuel generalizing opened depth with
  | zero =>
    intro S h hS
    have : S.ty.depth = Ty.depths S.elements + 1 := by rw [Ty.depth]
    omega
  | succ fuel ih =>
    intro S h hS hwf
    cases hcache : h.structNodeCache S with
    | some p =>
      have hnode := nodeAt_structNode.mpr ((hwf.structCache S p).mp hcache)
      exact ⟨p, h, by rw [structNode, hcache], ⟨hwf, .refl _ _⟩, hnode⟩
    | none =>
      exact createStruct_filled (fun opened inner hinner => ih opened hinner) hwf hS (by omega)
        hcache

theorem empty_wf (depth : Nat) : Wf ∅ depth empty := by
  constructor <;> simp [empty]

/-- Nothing open, the depth does not matter. -/
theorem Wf.closed (hwf : Wf ∅ depth h) (depth' : Nat) : Wf ∅ depth' h :=
  { hwf with deeper := fun p hp => absurd hp (Set.notMem_empty p) }

/-- A call gives the node that the layout of the type is. -/
theorem getStructLayout_called (hwf : Wf ∅ depth h) (t : Ty) :
    ∃ ptr h', h.getStructLayout t = some (ptr, h') ∧ Called ∅ depth h h' ∧
      ptr.map h'.nodeAt = (TypeSan.getStructLayout t).map some := by
  obtain ⟨ptr, h', hcall, hcalled, hptr⟩ := getNode_called
    (structNode_finds t.depth ∅ (Nat.le_refl _)) (hwf.closed t.depth) (Nat.le_refl t.depth)
  exact ⟨ptr, h', hcall, ⟨hcalled.wf.closed depth, hcalled.extend⟩, hptr⟩

theorem getStructLayouts_called (hwf : Wf ∅ depth h) (types : List Ty) :
    ∃ ptrs h', h.getStructLayouts types = some (ptrs, h') ∧ Called ∅ depth h h' ∧
      ptrs.map (Option.map h'.nodeAt) =
        types.map fun t => (TypeSan.getStructLayout t).map some := by
  induction types generalizing h with
  | nil => exact ⟨[], h, rfl, ⟨hwf, .refl _ _⟩, rfl⟩
  | cons t types ih =>
    obtain ⟨ptr, h₁, hcall, hcalled, hptr⟩ := getStructLayout_called hwf t
    obtain ⟨ptrs, h₂, hrest, hcalled', hptrs⟩ := ih hcalled.wf
    refine ⟨ptr :: ptrs, h₂, by simp [getStructLayouts, hcall, hrest], hcalled.trans hcalled', ?_⟩
    -- later calls leave the node as it is
    have hkept : ptr.map h₂.nodeAt = (TypeSan.getStructLayout t).map some := by
      cases hnode : TypeSan.getStructLayout t with
      | none =>
        obtain rfl : ptr = none := by simpa [hnode] using hptr
        rfl
      | some node =>
        obtain ⟨ptr', rfl, hat⟩ : ∃ ptr', ptr = some ptr' ∧ h₁.nodeAt ptr' = some node := by
          simpa [hnode] using hptr
        exact congrArg some (hcalled'.extend.nodeAt hat)
    rw [List.map_cons, List.map_cons, hkept, hptrs]

end Calls

/-- Whatever types the flattener is called with, and in whatever order, the pointers it gave stand
in the end for the layouts of the types, and each node has the offsets and the size of its type.
No two nodes stand for the same layout. -/
theorem getStructLayouts_eq (types : List Ty) :
    ∃ ptrs h, getStructLayouts types empty = some (ptrs, h) ∧
      ptrs.map (Option.map h.nodeAt) =
        types.map (fun t => (TypeSan.getStructLayout t).map some) ∧
      (∀ p node, h.structNodes p = some node →
        h.Lists node.offsets node.baseType.offsets ∧
          node.size = node.baseType.ty.allocSize) ∧
      ∀ a b node, h.nodeAt a = some node → h.nodeAt b = some node → a = b := by
  obtain ⟨ptrs, h, hcalls, hcalled, hptrs⟩ := getStructLayouts_called (empty_wf 0) types
  exact ⟨ptrs, h, hcalls, hptrs,
    fun p node hp =>
      ⟨hcalled.wf.complete p node hp (Set.notMem_empty p), hcalled.wf.size p node hp⟩,
    fun _ _ _ ha hb => hcalled.wf.nodeAt_inj ha hb⟩

end NodeHeap

end TypeSan
