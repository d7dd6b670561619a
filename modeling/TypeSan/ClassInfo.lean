import TypeSan.Library.Gather
import TypeSan.TypeInfo

/-! The class hierarchy that `TypeSanTreePass` finds in a module, and the records it emits. -/
namespace TypeSan

open Gather

/-- `ClassInheritanceInfo`. A pointer to one is its place on the heap. -/
structure ClassInheritanceInfo where
  type : StructType
  didProcessFakeHashesBottomUp : Bool
  didProcessFakeHashesTopDown : Bool
  parent : Option Nat
  phantomChildren : List Nat
  classHash : Nat
  parentHashes : List Nat
  fakeParentHashes : List Nat
  deriving Inhabited

def ClassInheritanceInfo.make (type : StructType) : ClassInheritanceInfo where
  type := type
  didProcessFakeHashesBottomUp := false
  didProcessFakeHashesTopDown := false
  parent := none
  phantomChildren := []
  classHash := getHashCodeFromStruct type
  parentHashes := []
  fakeParentHashes := []

abbrev Heap := Nat → ClassInheritanceInfo

/-- The pass: its heap, up to the next free place, and `classInfoMap`. -/
structure TypeSanTree where
  heap : Heap
  next : Nat
  classInfoMap : List (StructType × Nat)

def TypeSanTree.empty : TypeSanTree := ⟨fun _ => default, 0, []⟩

/-- `new ClassInheritanceInfo(STy)` -/
def TypeSanTree.new (P : TypeSanTree) (STy : StructType) : TypeSanTree :=
  { P with heap := Function.update P.heap P.next (.make STy), next := P.next + 1 }

/-- `classInfoMap.insert(std::make_pair(STy, info))` -/
def TypeSanTree.insert (P : TypeSanTree) (STy : StructType) (info : Nat) : TypeSanTree :=
  { P with classInfoMap := (STy, info) :: P.classInfoMap }

/-- The link between a class and its parent. A class with no other element is a phantom class. -/
def TypeSanTree.addParent (P : TypeSanTree) (info parentInfo : Nat) (isPhantom : Bool) :
    TypeSanTree :=
  let child := P.heap info
  let parent := P.heap parentInfo
  let parentHashes := child.parentHashes ++ parent.classHash :: parent.parentHashes
  let heap := Function.update P.heap info { child with parent := some parentInfo, parentHashes }
  if isPhantom then
    let parent := heap parentInfo
    let phantomChildren := parent.phantomChildren ++ [info]
    let fakeParentHashes := parent.fakeParentHashes ++ [child.classHash]
    let heap := Function.update heap parentInfo { parent with phantomChildren, fakeParentHashes }
    { P with heap }
  else { P with heap }

mutual

/-- `recursiveProcessType`, with the pointer that it returns. A literal or opaque struct has no
info. A class whose first element is such a struct gets one that is not remembered. -/
def recursiveProcessType : Ty → TypeSanTree → Option Nat × TypeSanTree
  | .struct (some name) isPacked elements, P =>
    let STy : StructType := ⟨some name, isPacked, elements⟩
    match P.classInfoMap.lookup STy with
    | some info => (some info, P)
    | none =>
      let info := P.next
      match processFirstElement elements (P.new STy) with
      | none => (some info, (P.new STy).insert STy info)
      | some (none, P) => (some info, P)
      | some (some parentInfo, P) =>
        (some info, (P.addParent info parentInfo (elements.length == 1)).insert STy info)
  | _, P => (none, P)

/-- The recursive call, where the first element is a struct. -/
def processFirstElement : List Ty → TypeSanTree → Option (Option Nat × TypeSanTree)
  | .struct name isPacked elements :: _, P =>
    some (recursiveProcessType (.struct name isPacked elements) P)
  | .opaqueStruct name :: _, P => some (recursiveProcessType (.opaqueStruct name) P)
  | _, _ => none

end

/-- The infos of a module's types. -/
def processTypes (types : List StructType) : TypeSanTree :=
  types.foldl (fun P STy => (recursiveProcessType STy.ty P).2) .empty

/-- A class adds what its phantom children have. -/
def bottomUp : Fields Nat ClassInheritanceInfo Nat where
  succ info := info.phantomChildren
  isDone info := info.didProcessFakeHashesBottomUp
  markDone info := { info with didProcessFakeHashesBottomUp := true }
  items info := info.fakeParentHashes
  setItems hashes info := { info with fakeParentHashes := hashes }
  isDone_markDone _ := rfl
  items_markDone _ := rfl
  succ_setItems _ _ := rfl
  isDone_setItems _ _ := rfl
  items_setItems _ _ := rfl
  setItems_items _ := rfl
  setItems_setItems _ _ _ := rfl

/-- A class adds what its parent has. -/
def topDown : Fields Nat ClassInheritanceInfo Nat where
  succ info := info.parent.toList
  isDone info := info.didProcessFakeHashesTopDown
  markDone info := { info with didProcessFakeHashesTopDown := true }
  items info := info.fakeParentHashes
  setItems hashes info := { info with fakeParentHashes := hashes }
  isDone_markDone _ := rfl
  items_markDone _ := rfl
  succ_setItems _ _ := rfl
  isDone_setItems _ _ := rfl
  items_setItems _ _ := rfl
  setItems_items _ := rfl
  setItems_setItems _ _ _ := rfl

def recursiveProcessFakeParentsBottomUp : Nat → Nat → Heap → Option Heap := visit bottomUp

def recursiveProcessFakeParentsTopDown : Nat → Nat → Heap → Option Heap := visit topDown

/-- The two loops of `runOnModule` over `classInfoMap`, which is ordered by address, so in any
order. -/
def processFakeParents (types : List StructType) (order : List (StructType × Nat)) :
    Option Heap := do
  let fuel := Ty.depths (types.map (·.ty)) + 1
  let heap ← order.foldlM (fun heap infoEntry =>
    recursiveProcessFakeParentsBottomUp fuel infoEntry.2 heap) (processTypes types).heap
  order.foldlM (fun heap infoEntry =>
    recursiveProcessFakeParentsTopDown fuel infoEntry.2 heap) heap

/-- A record of the info array. -/
structure ClassRecord where
  hashCount : Nat
  classHash : Nat
  hashes : List Nat

def ClassRecord.words (record : ClassRecord) : List Nat :=
  record.hashCount :: record.classHash :: record.hashes

/-- `1 << 31`, an `int`, as a 64-bit word. -/
def mergeFlag : Nat := 0xFFFFFFFF80000000

/-- The records of a class. -/
def ClassInheritanceInfo.records (info : ClassInheritanceInfo) : List ClassRecord :=
  ⟨info.parentHashes.length + 1, info.classHash, info.parentHashes⟩ ::
    if info.fakeParentHashes.length > 0 then
      [⟨mergeFlag ||| (info.fakeParentHashes.length + 1), info.classHash, info.fakeParentHashes⟩]
    else []

/-- Records are emitted for tracked classes but for `.base` ones. -/
def StructType.isEmitted (s : StructType) : Bool :=
  s.isTracked && !endswith (s.name.getD "") ".base"

/-- What `runOnModule` emits. `classInfoMap` is ordered by address, so in any order. -/
def moduleRecords (types : List StructType) (order : List (StructType × Nat)) :
    Option (List ClassRecord) := do
  let heap ← processFakeParents types order
  let emitted := order.filter fun infoEntry => infoEntry.1.isEmitted
  return emitted.flatMap fun infoEntry => (heap infoEntry.2).records

/-- The classes that `runOnModule` emits records for, each with its records. -/
def moduleEntries (types : List StructType) (order : List (StructType × Nat)) :
    Option (List (StructType × List ClassRecord)) := do
  let heap ← processFakeParents types order
  let emitted := order.filter fun infoEntry => infoEntry.1.isEmitted
  return emitted.map fun infoEntry => (infoEntry.1, (heap infoEntry.2).records)

/-- The array holds the records of one class after another. -/
theorem moduleRecords_eq_entries (types : List StructType) (order : List (StructType × Nat)) :
    moduleRecords types order = (moduleEntries types order).map fun entries =>
      entries.flatMap Prod.snd := by
  simp only [moduleRecords, moduleEntries, Option.bind_eq_bind, Option.map_bind, Function.comp_def,
    Option.pure_def, Option.map_some, List.flatMap_map]

end TypeSan
