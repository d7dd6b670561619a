import TypeSan.Layout

/-! What the layout is about: the struct objects that lie inside an object, and where. -/
namespace TypeSan

open Rounding

/-- A struct of type `D` starts `k` bytes into an object of the type, through any nesting of struct
members and array elements. -/
inductive Subobject : Ty → Nat → StructType → Prop
  | self (n : Option String) (p : Bool) (es : List Ty) : Subobject (.struct n p es) 0 ⟨n, p, es⟩
  | member {n p es i k D} (hi : i < es.length) (h : Subobject es[i] k D) :
      Subobject (.struct n p es) ((getLayout p es).getElementOffset i + k) D
  | element {n e j k D} (hj : j < n) (h : Subobject e k D) :
      Subobject (.array n e) (j * e.allocSize + k) D

/-- `U` is the outermost struct type that starts at the offset. -/
def Outermost (t : Ty) (k : Nat) (U : StructType) : Prop :=
  Subobject t k U ∧ ∀ D, Subobject t k D → Subobject U.ty 0 D

/-- Structs have bodies and a positive size, and arrays have elements, at every depth. -/
inductive Solid : Ty → Prop
  | scalar (s a : Nat) : Solid (.scalar s a)
  | struct {n p es} (hs : 0 < (Ty.struct n p es).allocSize) (h : ∀ e ∈ es, Solid e) :
      Solid (.struct n p es)
  | array {n e} (hn : 0 < n) (h : Solid e) : Solid (.array n e)

theorem Solid.elements {n : Option String} {p : Bool} {es : List Ty}
    (h : Solid (.struct n p es)) : ∀ e ∈ es, Solid e := by
  cases h
  assumption

theorem Solid.allocSize_pos {s : StructType} (h : Solid s.ty) : 0 < s.ty.allocSize := by
  cases h
  assumption

theorem Solid.elementType {n : Nat} {e : Ty} (h : Solid (.array n e)) : Solid e := by
  cases h
  assumption

/-! Element offsets. -/

/-- Elements are placed one behind the other, from the size reached so far. -/
theorem placeElements_bounds (p : Bool) (size align : Nat) {ms : List (Nat × Nat)}
    (hms : ∀ m ∈ ms, 0 < m.2) :
    size ≤ (placeElements p size align ms).2.1 ∧
    (∀ i (hi : i < ms.length), size ≤ (placeElements p size align ms).1.getD i 0 ∧
      (placeElements p size align ms).1.getD i 0 + ms[i].1 ≤
        (placeElements p size align ms).2.1) ∧
    (∀ i j (hij : i < j) (hj : j < ms.length),
      (placeElements p size align ms).1.getD i 0 + ms[i].1 ≤
        (placeElements p size align ms).1.getD j 0) := by
  induction ms generalizing size align with
  | nil => simp [placeElements]
  | cons m ms ih =>
    obtain ⟨s, a⟩ := m
    have ha : 0 < a := hms (s, a) (by simp)
    have hoff : size ≤ alignTo size (if p = true then 1 else a) :=
      le_alignTo (by split <;> omega)
    simp only [placeElements]
    generalize alignTo size (if p = true then 1 else a) = off at *
    obtain ⟨hend, hbound, hstep⟩ := ih (off + s)
      (max (if p = true then 1 else a) align) (fun m' hm' => hms m' (by simp [hm']))
    refine ⟨by omega, ?_, ?_⟩
    · intro i hi
      cases i with
      | zero => exact ⟨by simpa using hoff, by simpa using hend⟩
      | succ i =>
        have := hbound i (by simpa using hi)
        simp only [List.getD_cons_succ, List.getElem_cons_succ]
        omega
    · intro i j hij hj
      cases j with
      | zero => omega
      | succ j =>
        cases i with
        | zero =>
          have := (hbound j (by simpa using hj)).1
          simpa using this
        | succ i => simpa using hstep i j (by omega) (by simpa using hj)

section Elements

variable {n : Option String} {p : Bool} {es : List Ty}

theorem measure_align_pos (es : List Ty) : ∀ m ∈ es.map Ty.measure, 0 < m.2 := by
  intro m hm
  obtain ⟨t, _, rfl⟩ := List.mem_map.mp hm
  exact t.abiAlignment_pos

theorem structSize_le_allocSize :
    (placeElements p 0 0 (es.map Ty.measure)).2.1 ≤ (Ty.struct n p es).allocSize := by
  have hSL : (placeElements p 0 0 (es.map Ty.measure)).2.1 ≤
      (StructLayout.make p (es.map Ty.measure)).StructSize :=
    le_alignTo (by split <;> omega)
  simp only [Ty.allocSize, Ty.measure, Ty.measures_eq_map]
  refine Nat.le_trans hSL (le_alignTo ?_)
  split
  · exact Nat.one_pos
  · exact make_align_pos p _

/-- An element ends before the struct does. -/
theorem element_end_le {i : Nat} (hi : i < es.length) :
    (getLayout p es).getElementOffset i + es[i].allocSize ≤ (Ty.struct n p es).allocSize := by
  have hb := ((placeElements_bounds p 0 0 (measure_align_pos es)).2.1 i (by simpa using hi)).2
  rw [List.getElem_map] at hb
  exact Nat.le_trans hb structSize_le_allocSize

/-- An element ends before the next one starts. -/
theorem element_end_le_offset {i j : Nat} (hij : i < j) (hj : j < es.length) :
    (getLayout p es).getElementOffset i + es[i].allocSize ≤ (getLayout p es).getElementOffset j := by
  have hb := (placeElements_bounds p 0 0 (measure_align_pos es)).2.2 i j hij (by simpa using hj)
  rw [List.getElem_map] at hb
  exact hb

end Elements

theorem mul_allocSize_le_array (n : Nat) (e : Ty) :
    n * e.allocSize ≤ (Ty.array n e).allocSize := by
  simp only [Ty.allocSize, Ty.measure]
  exact le_alignTo e.abiAlignment_pos

/-- A subobject lies inside its object. -/
theorem subobject_end_le {t : Ty} {k : Nat} {D : StructType} (h : Subobject t k D) :
    k + D.ty.allocSize ≤ t.allocSize := by
  induction h with
  | self n p es => simp
  | @member n p es i k D hi _ ih =>
    have := element_end_le (n := n) (p := p) hi
    omega
  | @element n e j k D hj _ ih =>
    have hm : (j + 1) * e.allocSize ≤ n * e.allocSize := Nat.mul_le_mul_right _ hj
    have := mul_allocSize_le_array n e
    rw [Nat.add_mul] at hm
    omega

/-- What a solid type holds is solid. -/
theorem subobject_solid {t : Ty} {k : Nat} {D : StructType} (h : Subobject t k D)
    (ht : Solid t) : Solid D.ty := by
  induction h with
  | self n p es => exact ht
  | @member n p es i k D hi _ ih => exact ih (ht.elements _ (List.getElem_mem hi))
  | element hj _ ih => exact ih ht.elementType

theorem subobject_lt {t : Ty} {k : Nat} {D : StructType} (h : Subobject t k D)
    (ht : Solid t) : k < t.allocSize := by
  have := subobject_end_le h
  have := (subobject_solid h ht).allocSize_pos
  omega

theorem subobject_self (s : StructType) : Subobject s.ty 0 s := Subobject.self _ _ _

/-- A struct object that starts at offset 0 is the whole object or starts its first element. -/
theorem outermost_zero (s : StructType) : Outermost s.ty 0 s := ⟨subobject_self s, fun _ h => h⟩

/-! The struct types below a type. -/

namespace Ty

mutual

/-- The struct types that a type holds by value, at any depth, and itself if it is one. -/
def structs : Ty → List StructType
  | .scalar .. | .opaqueStruct _ => []
  | .struct name isPacked elements => ⟨name, isPacked, elements⟩ :: structsOf elements
  | .array _ elementType => structs elementType

def structsOf : List Ty → List StructType
  | [] => []
  | t :: ts => structs t ++ structsOf ts

end

theorem mem_structsOf {S : StructType} {ts : List Ty} :
    S ∈ structsOf ts ↔ ∃ t ∈ ts, S ∈ t.structs := by
  induction ts with
  | nil => simp [structsOf]
  | cons t ts ih => simp [structsOf, ih]

theorem structs_subset_structsOf {t : Ty} {ts : List Ty} (h : t ∈ ts) :
    t.structs ⊆ structsOf ts :=
  fun _ hS => mem_structsOf.mpr ⟨t, h, hS⟩

/-- What a struct inside holds is inside. -/
theorem structs_trans {S : StructType} {t : Ty} (h : S ∈ t.structs) : S.ty.structs ⊆ t.structs := by
  induction t using Ty.ind with
  | scalar s a => cases h
  | opaqueStruct n => cases h
  | struct n p es ih =>
    rw [structs] at h
    rcases List.mem_cons.mp h with rfl | h
    · exact List.Subset.refl _
    · obtain ⟨t, ht, hS⟩ := mem_structsOf.mp h
      exact List.Subset.trans (ih t ht hS) (fun D hD =>
        List.mem_cons_of_mem _ (structs_subset_structsOf ht hD))
  | array n e ih => exact ih h

theorem self_mem_structs (S : StructType) : S ∈ S.ty.structs := List.mem_cons_self

end Ty

theorem Subobject.mem_structs {t : Ty} {k : Nat} {D : StructType} (h : Subobject t k D) :
    D ∈ t.structs := by
  induction h with
  | self n p es => simp [Ty.structs]
  | member hi _ ih =>
    exact List.mem_cons_of_mem _ (Ty.structs_subset_structsOf (List.getElem_mem hi) ih)
  | element _ _ ih => exact ih

end TypeSan
