import TypeSan.Library.Rounding

/-! LLVM types held by value, and the byte layout that `DataLayout` gives them. -/
namespace TypeSan

open Rounding

/-- A type of an LLVM module. Pointers and all other first-class types that hold no struct by value
are scalars, given by their allocation size and the exponent of their ABI alignment. A struct
without a name is a literal struct. -/
inductive Ty where
  | scalar (allocSize alignExp : Nat)
  | opaqueStruct (name : String)
  | struct (name : Option String) (isPacked : Bool) (elements : List Ty)
  | array (numElements : Nat) (elementType : Ty)
  deriving Inhabited

/-- A struct type with a body. -/
structure StructType where
  name : Option String
  isPacked : Bool
  elements : List Ty
  deriving Inhabited

/-- A struct type as a type. -/
abbrev StructType.ty (s : StructType) : Ty := .struct s.name s.isPacked s.elements

namespace Ty

mutual

def decEq : (t u : Ty) → Decidable (t = u)
  | .scalar s a, .scalar s' a' => decidable_of_iff (s = s' ∧ a = a') (by simp)
  | .opaqueStruct n, .opaqueStruct n' => decidable_of_iff (n = n') (by simp)
  | .struct n p es, .struct n' p' es' =>
    have := decEqList es es'
    decidable_of_iff (n = n' ∧ p = p' ∧ es = es') (by simp)
  | .array n e, .array n' e' =>
    have := decEq e e'
    decidable_of_iff (n = n' ∧ e = e') (by simp)
  | .scalar .., .opaqueStruct .. | .scalar .., .struct .. | .scalar .., .array ..
  | .opaqueStruct .., .scalar .. | .opaqueStruct .., .struct .. | .opaqueStruct .., .array ..
  | .struct .., .scalar .. | .struct .., .opaqueStruct .. | .struct .., .array ..
  | .array .., .scalar .. | .array .., .opaqueStruct .. | .array .., .struct .. => isFalse nofun

def decEqList : (ts us : List Ty) → Decidable (ts = us)
  | [], [] => isTrue rfl
  | t :: ts, u :: us =>
    have := decEq t u
    have := decEqList ts us
    decidable_of_iff (t = u ∧ ts = us) (by simp)
  | [], _ :: _ | _ :: _, [] => isFalse nofun

end

instance : DecidableEq Ty := decEq

/-- Induction over a type: a struct case may use its elements. -/
@[elab_as_elim]
theorem ind {P : Ty → Prop} (scalar : ∀ s a, P (.scalar s a))
    (opaqueStruct : ∀ n, P (.opaqueStruct n))
    (struct : ∀ n p es, (∀ e ∈ es, P e) → P (.struct n p es))
    (array : ∀ n e, P e → P (.array n e)) : ∀ t, P t := by
  intro t
  refine @Ty.rec P (fun es => ∀ e ∈ es, P e) scalar opaqueStruct struct array ?_ ?_ t
  · simp
  · intro e es he hes
    simpa using ⟨he, hes⟩

end Ty

deriving instance DecidableEq for StructType

@[simp] theorem StructType.ty_inj {s t : StructType} : s.ty = t.ty ↔ s = t := by
  cases s
  cases t
  simp

/-- `StructLayout`: where a struct's elements lie, and the size and alignment of the whole. -/
structure StructLayout where
  StructSize : Nat
  StructAlignment : Nat
  MemberOffsets : List Nat

/-- `StructLayout::getElementOffset`. -/
def StructLayout.getElementOffset (SL : StructLayout) (pos : Nat) : Nat :=
  SL.MemberOffsets.getD pos 0

/-- The loop of the `StructLayout` constructor. Each element comes as its allocation size and ABI
alignment; the result is the element offsets, the size so far and the largest alignment. -/
def placeElements (isPacked : Bool) (StructSize StructAlignment : Nat) :
    List (Nat × Nat) → List Nat × Nat × Nat
  | [] => ([], StructSize, StructAlignment)
  | (allocSize, abiAlign) :: elements =>
    let TyAlign := if isPacked then 1 else abiAlign
    let offset := alignTo StructSize TyAlign
    let rest := placeElements isPacked (offset + allocSize) (max TyAlign StructAlignment) elements
    (offset :: rest.1, rest.2)

/-- The `StructLayout` constructor. -/
def StructLayout.make (isPacked : Bool) (elements : List (Nat × Nat)) : StructLayout :=
  let placed := placeElements isPacked 0 0 elements
  let align := if placed.2.2 = 0 then 1 else placed.2.2
  { StructSize := alignTo placed.2.1 align
    StructAlignment := align
    MemberOffsets := placed.1 }

namespace Ty

mutual

/-- `getTypeAllocSize` and `getABITypeAlignment` of a type. Opaque structs have no size. -/
def measure : Ty → Nat × Nat
  | .scalar allocSize alignExp => (allocSize, 2 ^ alignExp)
  | .opaqueStruct _ => (0, 1)
  | .struct _ isPacked elements =>
    let SL := StructLayout.make isPacked (measures elements)
    let align := if isPacked then 1 else SL.StructAlignment
    (alignTo SL.StructSize align, align)
  | .array numElements elementType =>
    let element := measure elementType
    (alignTo (numElements * element.1) element.2, element.2)

def measures : List Ty → List (Nat × Nat)
  | [] => []
  | t :: ts => measure t :: measures ts

end

/-- `DataLayout::getTypeAllocSize`. -/
def allocSize (t : Ty) : Nat := t.measure.1

/-- `DataLayout::getABITypeAlignment`. -/
def abiAlignment (t : Ty) : Nat := t.measure.2

@[simp] theorem measures_eq_map (ts : List Ty) : measures ts = ts.map measure := by
  induction ts with
  | nil => rfl
  | cons t ts ih => simp [measures, ih]

end Ty

/-- `DataLayout::getStructLayout`. -/
def getLayout (isPacked : Bool) (elements : List Ty) : StructLayout :=
  StructLayout.make isPacked (elements.map Ty.measure)

/-! Sizes and element offsets. Only two facts about alignment matter below: elements follow one
another without overlap, and a size is a multiple of the alignment. -/

theorem make_align_pos (isPacked : Bool) (ms : List (Nat × Nat)) :
    0 < (StructLayout.make isPacked ms).StructAlignment := by
  simp only [StructLayout.make]
  split <;> omega

theorem Ty.abiAlignment_pos (t : Ty) : 0 < t.abiAlignment := by
  induction t using Ty.ind with
  | scalar s a => exact Nat.two_pow_pos a
  | opaqueStruct n => exact Nat.one_pos
  | struct n p es _ =>
    simp only [Ty.abiAlignment, Ty.measure]
    split
    · exact Nat.one_pos
    · exact make_align_pos p _
  | array n e ih => simpa [Ty.abiAlignment, Ty.measure] using ih

/-- Every size but that of a scalar is a multiple of the alignment. -/
theorem Ty.abiAlignment_dvd_struct (n : Option String) (p : Bool) (es : List Ty) :
    (Ty.struct n p es).abiAlignment ∣ (Ty.struct n p es).allocSize := by
  simp only [Ty.abiAlignment, Ty.allocSize, Ty.measure]
  exact dvd_alignTo _ _

theorem Ty.allocSize_array {n : Nat} {e : Ty} (h : e.abiAlignment ∣ e.allocSize) :
    (Ty.array n e).allocSize = n * e.allocSize := by
  simp only [Ty.allocSize, Ty.measure]
  exact alignTo_of_dvd e.abiAlignment_pos (Dvd.dvd.mul_left h n)

theorem Ty.abiAlignment_dvd_array (n : Nat) (e : Ty) :
    (Ty.array n e).abiAlignment ∣ (Ty.array n e).allocSize := by
  simp only [Ty.abiAlignment, Ty.allocSize, Ty.measure]
  exact dvd_alignTo _ _

end TypeSan
