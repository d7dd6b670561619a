import Mathlib.Data.List.Pairwise
import TypeSan.TypeInfoTables

/-! Where the walk lands, in terms of the type's layout. -/
namespace TypeSan

/-- The offset lies in the bytes of the entry. -/
def InEntry (e : Nat × TypeNode) (k : Nat) : Prop := e.1 ≤ k ∧ k < e.1 + e.2.extent

theorem EntryHolds.inEntry {e : Nat × TypeNode} {k : Nat} {D : StructType}
    (h : EntryHolds e k D) : InEntry e k := by
  obtain ⟨o, node⟩ := e
  cases node with
  | structNode U =>
    have hk : k = o := h.1
    exact ⟨Nat.le_of_eq hk.symm, Nat.lt_succ_of_le (Nat.le_of_eq hk)⟩
  | arrayNode c A => exact ⟨h.1, h.2.1⟩

/-- One of the entries ends before the other starts. -/
def Apart (e e' : Nat × TypeNode) : Prop := e.1 + e.2.extent ≤ e'.1 ∨ e'.1 + e'.2.extent ≤ e.1

instance : Std.Symm Apart := ⟨fun _ _ h => h.symm⟩

/-- Entries of an ordered layout do not overlap. -/
theorem inEntry_unique {L : Offsets} (hL : L.Pairwise fun a b => a.1 + a.2.extent ≤ b.1)
    {e e' : Nat × TypeNode} {k : Nat} (he : e ∈ L) (he' : e' ∈ L) (h : InEntry e k)
    (h' : InEntry e' k) : e = e' := by
  by_contra hne
  have hapart : Apart e e' := (hL.imp (S := Apart) fun hle => Or.inl hle).forall he he' hne
  simp only [Apart, InEntry] at *
  omega

/-- Behind the last entry, no struct starts: the walk lands on one all the same, because it takes the
offset for one in the array that ends the layout. -/
inductive Wraps : StructType → Nat → StructType → Prop
  | behind {E k o c A U} (h : E.offsets.getLast? = some (o, .arrayNode c A))
      (hhi : o + c * A.ty.allocSize ≤ k) (hU : Outermost A.ty ((k - o) % A.ty.allocSize) U) :
      Wraps E k U
  | again {E k o c A U} (h : E.offsets.getLast? = some (o, .arrayNode c A))
      (hhi : o + c * A.ty.allocSize ≤ k) (hU : Wraps A ((k - o) % A.ty.allocSize) U) : Wraps E k U
  | inside {E k o c A U} (h : (o, .arrayNode c A) ∈ E.offsets) (hlo : o ≤ k)
      (hhi : k < o + c * A.ty.allocSize) (hU : Wraps A ((k - o) % A.ty.allocSize) U) : Wraps E k U

section Landing

variable {E U : StructType} {k : Nat} (hE : Solid E.ty)
include hE

/-- The struct objects at an offset of an array entry are those of its element. -/
theorem subobject_inside {o c : Nat} {A D : StructType} (h : (o, .arrayNode c A) ∈ E.offsets)
    (hlo : o ≤ k) (hhi : k < o + c * A.ty.allocSize) :
    Subobject E.ty k D ↔ Subobject A.ty ((k - o) % A.ty.allocSize) D := by
  have hflat := flattened hE
  rw [hflat.covers]
  constructor
  · rintro ⟨e, he, hD⟩
    obtain rfl := inEntry_unique hflat.ordered.1 he h hD.inEntry ⟨hlo, hhi⟩
    exact hD.2.2
  · exact fun hD => ⟨_, h, hlo, hhi, hD⟩

theorem outermost_inside {o c : Nat} {A : StructType} (h : (o, .arrayNode c A) ∈ E.offsets)
    (hlo : o ≤ k) (hhi : k < o + c * A.ty.allocSize) :
    Outermost E.ty k U ↔ Outermost A.ty ((k - o) % A.ty.allocSize) U := by
  simp only [Outermost, subobject_inside hE h hlo hhi]

/-- The struct objects at the offset of a struct entry are those that start the struct. -/
theorem subobject_hit {D : StructType} (h : (k, .structNode U) ∈ E.offsets) :
    Subobject E.ty k D ↔ Subobject U.ty 0 D := by
  have hflat := flattened hE
  rw [hflat.covers]
  constructor
  · rintro ⟨e, he, hD⟩
    obtain rfl := inEntry_unique hflat.ordered.1 he h hD.inEntry ⟨Nat.le_refl k, Nat.lt_succ_self k⟩
    exact hD.2
  · exact fun hD => ⟨_, h, rfl, hD⟩

/-- Where a struct object starts, one of them is the outermost. -/
theorem exists_outermost {D : StructType} (h : Subobject E.ty k D) : ∃ U, Outermost E.ty k U := by
  induction hd : E.ty.depth using Nat.strong_induction_on generalizing E k with
  | _ d ih =>
    subst hd
    obtain ⟨⟨o, node⟩, he, hD⟩ := ((flattened hE).covers k D).mp h
    cases node with
    | structNode V =>
      obtain ⟨rfl, -⟩ := hD
      exact ⟨V, (subobject_hit hE he).mpr (subobject_self V), fun D' => (subobject_hit hE he).mp⟩
    | arrayNode c A =>
      obtain ⟨hlo, hhi, hD⟩ := hD
      have hA := arrayEntry_subobject hE he
      obtain ⟨U, hU⟩ := ih _ (arrayEntry_depth_lt hE he) (subobject_solid hA hE) hD rfl
      exact ⟨U, (outermost_inside hE he hlo hhi).mpr hU⟩

/-- What lies behind the array that ends the layout lies in no entry. -/
theorem not_inEntry_behind {o c : Nat} {A : StructType}
    (h : E.offsets.getLast? = some (o, .arrayNode c A)) (hhi : o + c * A.ty.allocSize ≤ k)
    {e : Nat × TypeNode} (he : e ∈ E.offsets) : ¬ InEntry e k := by
  rintro ⟨hlo, hlt⟩
  obtain ⟨front, hfront⟩ := List.getLast?_eq_some_iff.mp h
  have horder := (flattened hE).ordered.1
  rw [hfront] at he horder
  rcases List.mem_append.mp he with he | he
  · have := (List.pairwise_append.mp horder).2.2 e he _ List.mem_cons_self
    simp only at this
    omega
  · obtain rfl := List.mem_singleton.mp he
    simp only [TypeNode.extent] at hlt
    omega

/-- No struct object starts there. -/
theorem not_subobject_behind {o c : Nat} {A D : StructType}
    (h : E.offsets.getLast? = some (o, .arrayNode c A)) (hhi : o + c * A.ty.allocSize ≤ k) :
    ¬ Subobject E.ty k D := by
  intro hD
  obtain ⟨e, he, hD⟩ := ((flattened hE).covers k D).mp hD
  exact not_inEntry_behind hE h hhi he hD.inEntry

theorem Wraps.not_subobject (h : Wraps E k U) (D : StructType) : ¬ Subobject E.ty k D := by
  induction h with
  | behind h hhi _ => exact not_subobject_behind hE h hhi
  | again h hhi _ => exact not_subobject_behind hE h hhi
  | inside h hlo hhi _ ih =>
    rw [subobject_inside hE h hlo hhi]
    exact ih (subobject_solid (arrayEntry_subobject hE h) hE)

theorem outermost_of_walks (h : Walks E.offsets k (some U)) : Outermost E.ty k U ∨ Wraps E k U := by
  generalize hL : E.offsets = L at h
  generalize hr : some U = r at h
  induction h generalizing E with
  | @hit L k V h =>
    cases hr
    subst hL
    exact Or.inl ⟨(subobject_hit hE h).mpr (subobject_self U), fun D => (subobject_hit hE h).mp⟩
  | inside h hlo hhi _ ih =>
    subst hL
    have hA := subobject_solid (arrayEntry_subobject hE h) hE
    exact (ih hA rfl hr).imp (outermost_inside hE h hlo hhi).mpr (Wraps.inside h hlo hhi)
  | behind h hhi _ ih =>
    subst hL
    have hA := subobject_solid (arrayEntry_subobject hE (List.mem_of_getLast? h)) hE
    exact Or.inr ((ih hA rfl hr).elim (Wraps.behind h hhi) (Wraps.again h hhi))
  | miss => cases hr

omit hE in
/-- Two structs that start each other are one. -/
theorem subobject_zero_antisymm {V : StructType} (h : Subobject U.ty 0 V) (h' : Subobject V.ty 0 U) :
    U = V := by
  by_contra hne
  have := subobject_depth_lt h (Ne.symm hne)
  have := subobject_depth_lt h' hne
  omega

theorem walks_of_outermost (h : Outermost E.ty k U) : Walks E.offsets k (some U) := by
  induction hd : E.ty.depth using Nat.strong_induction_on generalizing E k with
  | _ d ih =>
    subst hd
    obtain ⟨⟨o, node⟩, he, hU⟩ := ((flattened hE).covers k U).mp h.1
    cases node with
    | structNode V =>
      obtain ⟨rfl, hU⟩ := hU
      have hV := h.2 V ((subobject_hit hE he).mpr (subobject_self V))
      obtain rfl := subobject_zero_antisymm hV hU
      exact .hit he
    | arrayNode c A =>
      obtain ⟨hlo, hhi, -⟩ := hU
      have hA := subobject_solid (arrayEntry_subobject hE he) hE
      exact .inside he hlo hhi
        (ih _ (arrayEntry_depth_lt hE he) hA ((outermost_inside hE he hlo hhi).mp h) rfl)

theorem walks_of_wraps (h : Wraps E k U) : Walks E.offsets k (some U) := by
  induction h with
  | behind h hhi hU =>
    have hA := subobject_solid (arrayEntry_subobject hE (List.mem_of_getLast? h)) hE
    exact .behind h hhi (walks_of_outermost hA hU)
  | again h hhi _ ih =>
    have hA := subobject_solid (arrayEntry_subobject hE (List.mem_of_getLast? h)) hE
    exact .behind h hhi (ih hA)
  | inside h hlo hhi _ ih =>
    exact .inside h hlo hhi (ih (subobject_solid (arrayEntry_subobject hE h) hE))

/-- The walk lands on the outermost struct object, or on one it has wrapped around to. -/
theorem walks_iff : Walks E.offsets k (some U) ↔ Outermost E.ty k U ∨ Wraps E k U :=
  ⟨outermost_of_walks hE, fun h => h.elim (walks_of_outermost hE) (walks_of_wraps hE)⟩

/-- The walk ends in one way. -/
theorem walks_unique {r r' : Option StructType} (h : Walks E.offsets k r)
    (h' : Walks E.offsets k r') : r = r' := by
  have hunique {E : StructType} (hE : Solid E.ty) {e e' : Nat × TypeNode} {k : Nat}
      (he : e ∈ E.offsets) (he' : e' ∈ E.offsets) (h : InEntry e k) (h' : InEntry e' k) : e = e' :=
    inEntry_unique (flattened hE).ordered.1 he he' h h'
  have hself (k : Nat) (U : StructType) : InEntry (k, .structNode U) k :=
    ⟨Nat.le_refl k, Nat.lt_succ_self k⟩
  generalize hL : E.offsets = L at h
  induction h generalizing E with
  | @hit L k U h =>
    subst hL
    cases h' with
    | hit h₁ =>
      cases hunique hE h h₁ (hself k _) (hself k _)
      rfl
    | inside h₁ hlo hhi _ => cases hunique hE h h₁ (hself k _) ⟨hlo, hhi⟩
    | behind h₁ hhi _ => exact (not_inEntry_behind hE h₁ hhi h (hself k _)).elim
    | miss hstruct => exact (hstruct _ h).elim
  | inside h hlo hhi _ ih =>
    subst hL
    cases h' with
    | hit h₁ => cases hunique hE h₁ h (hself _ _) ⟨hlo, hhi⟩
    | inside h₁ hlo₁ hhi₁ hr₁ =>
      cases hunique hE h h₁ ⟨hlo, hhi⟩ ⟨hlo₁, hhi₁⟩
      exact ih (subobject_solid (arrayEntry_subobject hE h) hE) hr₁ rfl
    | behind h₁ hhi₁ _ => exact (not_inEntry_behind hE h₁ hhi₁ h ⟨hlo, hhi⟩).elim
    | miss _ harray => have := harray _ _ _ h; omega
  | behind h hhi _ ih =>
    subst hL
    cases h' with
    | hit h₁ => exact (not_inEntry_behind hE h hhi h₁ (hself _ _)).elim
    | inside h₁ hlo₁ hhi₁ _ => exact (not_inEntry_behind hE h hhi h₁ ⟨hlo₁, hhi₁⟩).elim
    | behind h₁ _ hr₁ =>
      cases h.symm.trans h₁
      exact ih (subobject_solid (arrayEntry_subobject hE (List.mem_of_getLast? h)) hE) hr₁ rfl
    | miss _ _ hlast => have := hlast _ _ _ h; omega
  | miss hstruct harray hlast =>
    subst hL
    cases h' with
    | hit h₁ => exact (hstruct _ h₁).elim
    | inside h₁ hlo hhi _ => have := harray _ _ _ h₁; omega
    | behind h₁ hhi _ => have := hlast _ _ _ h₁; omega
    | miss => rfl

end Landing

end TypeSan
