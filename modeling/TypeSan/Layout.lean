import TypeSan.Types

/-! The layout flattener: every struct and struct array a type holds, with its byte offset. -/
namespace TypeSan

/-- `TypeNode`. `StructNode`s are cached by their type and `ArrayNode`s by count and element, so a
node is named by that data. -/
inductive TypeNode where
  | structNode (baseType : StructType)
  | arrayNode (count : Nat) (element : StructType)
  deriving DecidableEq, Inhabited

/-- `StructNode::offsets`. -/
abbrev Offsets := List (Nat × TypeNode)

/-- `ArrayNode::create`: an array of arrays multiplies the counts. -/
def createArrayNode (count : Nat) : TypeNode → TypeNode
  | .arrayNode nestedCount element => .arrayNode (count * nestedCount) element
  | .structNode nestedStruct => .arrayNode count nestedStruct

/-- `getStructLayout` with no list to merge into: the node of a type, if it holds structs. -/
def getStructLayout : Ty → Option TypeNode
  | .scalar .. | .opaqueStruct _ => none
  | .struct name isPacked elements => some (.structNode ⟨name, isPacked, elements⟩)
  | .array numElements elementType =>
    (getStructLayout elementType).map (createArrayNode numElements)

/-- `mergeStructLayout`. The entry at offset 0 of the whole is left to the root's own type. -/
def mergeStructLayout (nestedOffsets : Offsets) (baseOffset : Nat) : Offsets :=
  nestedOffsets.filterMap fun entry =>
    if baseOffset + entry.1 ≠ 0 then some (baseOffset + entry.1, entry.2) else none

/-- What one element of a struct adds to the struct's offsets: the body of the loop over
`STy->elements()`. The entries of the struct type at the bottom of the element come as `nested`. -/
def elementEntries (offset : Nat) (InnerTy : Ty) (nested : Offsets) : Offsets :=
  match InnerTy with
  | .struct .. => mergeStructLayout nested offset
  | .array .. =>
    match getStructLayout InnerTy with
    | some (.arrayNode count element) =>
      if offset = 0 then
        -- the first element is merged like a struct, the others form a partial array
        mergeStructLayout nested offset ++
          if 1 < count then [(element.ty.allocSize, .arrayNode (count - 1) element)] else []
      else if count = 1 then mergeStructLayout nested offset
      else [(offset, .arrayNode count element)]
    | _ => []
  | _ => []

mutual

/-- The offsets of the struct node at the bottom of a type: the type's own if it is a struct, its
innermost element's if it is an array. -/
def nodeOffsets : Ty → Offsets
  | .scalar .. | .opaqueStruct _ => []
  | .struct name isPacked elements =>
    (0, .structNode ⟨name, isPacked, elements⟩) ::
      elementsOffsets (getLayout isPacked elements) 0 elements
  | .array _ elementType => nodeOffsets elementType

/-- The loop over `STy->elements()`. An opaque element is skipped without counting its position. -/
def elementsOffsets (SL : StructLayout) (pos : Nat) : List Ty → Offsets
  | [] => []
  | .opaqueStruct _ :: rest => elementsOffsets SL pos rest
  | InnerTy :: rest =>
    elementEntries (SL.getElementOffset pos) InnerTy (nodeOffsets InnerTy) ++
      elementsOffsets SL (pos + 1) rest

end

/-- `StructNode::offsets` of the node of a struct type. -/
def StructType.offsets (s : StructType) : Offsets := nodeOffsets s.ty

end TypeSan
