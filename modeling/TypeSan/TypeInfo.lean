import TypeSan.Layout
import TypeSan.Names

/-! The typeinfo tables: one global array of 64-bit constants for each struct type. -/
namespace TypeSan

/-- A 64-bit constant of an initializer. -/
inductive Const where
  | int (value : Nat)
  | ptrToInt (global : String)
  deriving DecidableEq, Inhabited

/-- The 64-bit pattern of -1. -/
def minusOne : Nat := 2 ^ 64 - 1

/-- The `name` that `getOrPopulateTypeInfo` reports, and keys its table with. -/
def StructType.infoName (s : StructType) : String :=
  match s.name with
  | none => "trackedtype._"
  | some name =>
    if startswith name "trackedtype." then name
    else if startswith name "blacklistedtype." then name
    else "noncxxfakesentinel"

def StructType.typeInfoName (s : StructType) : String := "_____typeinfo_____" ++ s.infoName

/-- The loop over `structNode->offsets`. The end of the last array, when it is still open and the
entry does not start there, is marked by a sentinel before the entry. -/
def infoEntries (endOfLastArray : Nat) : Offsets → List Const
  | [] => []
  | (offset, node) :: rest =>
    let closes := endOfLastArray ≠ 0 ∧ offset ≠ endOfLastArray
    (if closes then [.int endOfLastArray, .int minusOne] else []) ++
      match node with
      | .structNode nestedStruct =>
        .int offset :: .int (getHashCodeFromStruct nestedStruct) ::
          infoEntries (if closes then 0 else endOfLastArray) rest
      | .arrayNode count element =>
        .int (1 <<< 63 ||| offset) :: .ptrToInt element.typeInfoName ::
          infoEntries (offset + element.ty.allocSize * count) rest

/-- `infoMembers`, the initializer of a table: the size word, the entries, and the end mark. -/
def infoMembers (s : StructType) : List Const :=
  .int s.ty.allocSize ::
    ((if s.isTracked then infoEntries 0 s.offsets
      else if s.isBlacklisted then [] else [.int 0, .int minusOne]) ++ [.int minusOne])

/-- The typeinfo globals of a module. -/
abbrev Globals := List (String × List Const)

/-- The element types whose tables a table refers to. -/
def StructType.arrayElements (s : StructType) : List StructType :=
  if s.isTracked then
    s.offsets.filterMap fun entry =>
      match entry.2 with
      | .structNode _ => none
      | .arrayNode _ element => some element
  else []

theorem exists_arrayEntry {s A : StructType} (h : A ∈ s.arrayElements) :
    s.isTracked = true ∧ ∃ o c, (o, .arrayNode c A) ∈ s.offsets := by
  rw [StructType.arrayElements] at h
  split at h
  · rename_i htracked
    obtain ⟨⟨o, node⟩, he, hnode⟩ := List.mem_filterMap.mp h
    cases node with
    | structNode U => cases hnode
    | arrayNode c E =>
      cases hnode
      exact ⟨htracked, o, c, he⟩
  · cases h

theorem mem_arrayElements {s A : StructType} {o c : Nat} (htracked : s.isTracked = true)
    (h : (o, .arrayNode c A) ∈ s.offsets) : A ∈ s.arrayElements := by
  rw [StructType.arrayElements, if_pos htracked]
  exact List.mem_filterMap.mpr ⟨_, h, rfl⟩

/-- `getOrPopulateTypeInfo`: the module's globals after a request for a table. A table is added
after those of the element types it refers to, unless one of that name exists. The depth of the
type is enough fuel. -/
def getOrPopulateTypeInfo : Nat → Globals → StructType → Option Globals
  | 0, _, _ => none
  | fuel + 1, SrcM, structNode =>
    if (SrcM.lookup structNode.typeInfoName).isSome then some SrcM
    else do
      let SrcM ← structNode.arrayElements.foldlM (getOrPopulateTypeInfo fuel) SrcM
      return SrcM ++ [(structNode.typeInfoName, infoMembers structNode)]

mutual

/-- How deep structs nest in a type. -/
def Ty.depth : Ty → Nat
  | .scalar .. | .opaqueStruct _ => 0
  | .struct _ _ elements => Ty.depths elements + 1
  | .array _ elementType => elementType.depth

def Ty.depths : List Ty → Nat
  | [] => 0
  | t :: ts => max t.depth (Ty.depths ts)

end

theorem Ty.depth_le_depths {t : Ty} {ts : List Ty} (h : t ∈ ts) : t.depth ≤ Ty.depths ts := by
  induction ts with
  | nil => cases h
  | cons u us ih =>
    rw [Ty.depths]
    rcases List.mem_cons.mp h with rfl | h
    · exact Nat.le_max_left _ _
    · exact Nat.le_trans (ih h) (Nat.le_max_right _ _)

/-- The globals of a module after it has asked for the tables of `requests`. -/
def typeInfoGlobals (requests : List StructType) : Option Globals :=
  requests.foldlM (fun SrcM s => getOrPopulateTypeInfo s.ty.depth SrcM s) []

end TypeSan
