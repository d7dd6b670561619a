import TypeSan.TableWalk

/-! The tables of a module whose struct types are all tracked ones. -/
namespace TypeSan

open WordMemory

/-- Struct types named `trackedtype.*`, with everything they hold, whose hashes tell them apart. -/
structure TrackedTypes (types : List StructType) : Prop where
  solid : ∀ s ∈ types, Solid s.ty
  tracked : ∀ s ∈ types, s.isTracked = true
  closed : ∀ s ∈ types, ∀ k D, Subobject s.ty k D → D ∈ types
  hash_inj : ∀ s ∈ types, ∀ s' ∈ types,
    getHashCodeFromStruct s = getHashCodeFromStruct s' → s = s'
  hash_ne_zero : ∀ s ∈ types, getHashCodeFromStruct s ≠ 0
  hash_ne_minusOne : ∀ s ∈ types, getHashCodeFromStruct s ≠ minusOne

/-! Array entries. -/

/-- The node has elements, and they are solid. -/
def TypeNode.Full (node : TypeNode) : Prop := 0 < node.count ∧ Solid node.element.ty

theorem elementEntries_full {t : Ty} (ht : Solid t) (ih : ∀ e ∈ nodeOffsets t, e.2.Full) (o : Nat) :
    ∀ e ∈ elementEntries o t (nodeOffsets t), e.2.Full := by
  intro e he
  cases hnode : getStructLayout t with
  | none =>
    rw [elementEntries_none hnode] at he
    cases he
  | some node =>
    have hrow := (getStructLayout_row ht).1 _ hnode
    have hcount := hrow.count_pos
    rw [hrow.offsets] at ih
    rcases (mem_elementEntries hnode).mp he with
      ⟨-, e₀, he₀, -, rfl⟩ | ⟨-, hmore, rfl⟩ | ⟨-, -, rfl⟩
    · exact ih e₀ he₀
    · exact ⟨Nat.sub_pos_of_lt hmore, hrow.solid⟩
    · exact ⟨hcount, hrow.solid⟩

/-- No entry of a solid type is empty. -/
theorem nodeOffsets_full {t : Ty} (ht : Solid t) : ∀ e ∈ nodeOffsets t, e.2.Full := by
  induction t using Ty.ind with
  | scalar s a => simp [nodeOffsets]
  | opaqueStruct n => cases ht
  | struct n p es ih =>
    intro e he
    rcases (mem_offsets (Solid.notOpaque (s := ⟨n, p, es⟩) ht)).mp he with rfl | ⟨i, hi, he⟩
    · exact ⟨Nat.one_pos, ht⟩
    · have hmem : es[i] ∈ es := List.getElem_mem hi
      exact elementEntries_full (ht.elements _ hmem) (ih _ hmem (ht.elements _ hmem)) _ e he
  | array n e ih => exact ih ht.elementType

section Entries

variable {s A : StructType} {o c : Nat} (hs : Solid s.ty) (h : (o, .arrayNode c A) ∈ s.offsets)
include hs h

theorem arrayEntry_pos : 0 < o := by
  apply Nat.pos_of_ne_zero
  intro h0
  have := (flattened hs).ordered.eq_head h h0
  cases this

/-- An element of an array entry is an object of the type. -/
theorem arrayEntry_subobject : Subobject s.ty o A := by
  obtain ⟨hc, hsolid⟩ := nodeOffsets_full hs _ h
  have hpos : 0 < c * A.ty.allocSize := Nat.mul_pos hc hsolid.allocSize_pos
  refine ((flattened hs).covers o A).mpr ⟨_, h, Nat.le_refl _, by omega, ?_⟩
  rw [Nat.sub_self, Nat.zero_mod]
  exact subobject_self A

end Entries

/-! Nesting ends: what a type holds is less deep. -/

theorem subobject_depth_le {t : Ty} {k : Nat} {D : StructType} (h : Subobject t k D) :
    D.ty.depth ≤ t.depth := by
  induction h with
  | self n p es => exact Nat.le_refl _
  | @member n p es i k D hi _ ih =>
    have := Ty.depth_le_depths (List.getElem_mem hi)
    have hdepth : (Ty.struct n p es).depth = Ty.depths es + 1 := by rw [Ty.depth]
    omega
  | element hj _ ih => exact ih

/-- Only the object itself is as deep as it. -/
theorem subobject_depth_lt {s D : StructType} {k : Nat} (h : Subobject s.ty k D) (hne : D ≠ s) :
    D.ty.depth < s.ty.depth := by
  obtain ⟨n, p, es⟩ := s
  have hdepth : (Ty.struct n p es).depth = Ty.depths es + 1 := by rw [Ty.depth]
  change Subobject (.struct n p es) k D at h
  change D.ty.depth < (Ty.struct n p es).depth
  cases h with
  | self => exact (hne rfl).elim
  | member hi h =>
    have := subobject_depth_le h
    have := Ty.depth_le_depths (List.getElem_mem hi)
    omega

theorem arrayEntry_depth_lt {s A : StructType} {o c : Nat} (hs : Solid s.ty)
    (h : (o, .arrayNode c A) ∈ s.offsets) : A.ty.depth < s.ty.depth := by
  have hpos := arrayEntry_pos hs h
  have hsub := arrayEntry_subobject hs h
  refine subobject_depth_lt hsub ?_
  rintro rfl
  have := subobject_end_le hsub
  omega

/-! The globals. -/

section Globals

theorem isTracked_name {s : StructType} (hs : s.isTracked = true) :
    ∃ name, s.name = some name ∧ s.infoName = name := by
  cases hname : s.name with
  | none => simp [StructType.isTracked, hname] at hs
  | some name =>
    refine ⟨name, rfl, ?_⟩
    simp only [StructType.isTracked, hname] at hs
    simp [StructType.infoName, hname, hs]

variable {types : List StructType} (hT : TrackedTypes types)
include hT

/-- A table's name tells its type. -/
theorem TrackedTypes.typeInfoName_inj {s s' : StructType} (hs : s ∈ types) (hs' : s' ∈ types)
    (h : s.typeInfoName = s'.typeInfoName) : s = s' := by
  obtain ⟨name, hname, hinfo⟩ := isTracked_name (hT.tracked s hs)
  obtain ⟨name', hname', hinfo'⟩ := isTracked_name (hT.tracked s' hs')
  have heq : s.infoName = s'.infoName := (String.append_right_inj _).mp h
  rw [hinfo, hinfo'] at heq
  refine hT.hash_inj s hs s' hs' ?_
  rw [getHashCodeFromStruct, getHashCodeFromStruct, hname, hname', heq]

theorem TrackedTypes.arrayElement {s A : StructType} (hs : s ∈ types) (hA : A ∈ s.arrayElements) :
    A ∈ types ∧ A.ty.depth < s.ty.depth := by
  obtain ⟨-, o, c, he⟩ := exists_arrayEntry hA
  exact ⟨hT.closed s hs o A (arrayEntry_subobject (hT.solid s hs) he),
    arrayEntry_depth_lt (hT.solid s hs) he⟩

/-- Every global is the table of a type, and the tables that it refers to are there. -/
def GlobalsOk (types : List StructType) (G : Globals) : Prop :=
  ∀ g ∈ G, ∃ s ∈ types, g = (s.typeInfoName, infoMembers s) ∧
    ∀ A ∈ s.arrayElements, (A.typeInfoName, infoMembers A) ∈ G

omit hT in
theorem GlobalsOk.nil : GlobalsOk types [] := by simp [GlobalsOk]

/-- A name that is taken is taken by the right table. -/
theorem GlobalsOk.mem_of_lookup {G : Globals} (hG : GlobalsOk types G) {s : StructType}
    (hs : s ∈ types) (h : (G.lookup s.typeInfoName).isSome) :
    (s.typeInfoName, infoMembers s) ∈ G := by
  obtain ⟨g, hg, hname⟩ := List.lookup_isSome_iff.mp h
  obtain ⟨s', hs', rfl, -⟩ := hG g hg
  obtain rfl := hT.typeInfoName_inj hs hs' (by simpa using hname)
  exact hg

/-- A request is answered, and keeps what is there. -/
def Populates (types : List StructType) (G : Globals) (s : StructType) (G' : Globals) : Prop :=
  GlobalsOk types G' ∧ G ⊆ G' ∧ (s.typeInfoName, infoMembers s) ∈ G'

omit hT in
/-- So are several ones. -/
theorem foldlM_populates {populate : Globals → StructType → Option Globals} {l : List StructType}
    (h : ∀ s ∈ l, ∀ G, GlobalsOk types G → ∃ G', populate G s = some G' ∧ Populates types G s G')
    {G : Globals} (hG : GlobalsOk types G) :
    ∃ G', l.foldlM populate G = some G' ∧ GlobalsOk types G' ∧ G ⊆ G' ∧
      ∀ s ∈ l, (s.typeInfoName, infoMembers s) ∈ G' := by
  induction l generalizing G with
  | nil => exact ⟨G, rfl, hG, List.Subset.refl G, by simp⟩
  | cons s l ih =>
    obtain ⟨G₁, h₁, hok₁, hsub₁, hmem₁⟩ := h s List.mem_cons_self G hG
    obtain ⟨G', h', hok', hsub', hmem'⟩ := ih (fun t ht => h t (List.mem_cons_of_mem s ht)) hok₁
    refine ⟨G', ?_, hok', List.Subset.trans hsub₁ hsub', fun t ht => ?_⟩
    · rw [List.foldlM_cons, h₁]
      exact h'
    · rcases List.mem_cons.mp ht with rfl | ht
      · exact hsub' hmem₁
      · exact hmem' t ht

/-- `getOrPopulateTypeInfo` ends, with the table of the type and of all element types. -/
theorem TrackedTypes.populates {fuel : Nat} {s : StructType} (hs : s ∈ types)
    (hfuel : s.ty.depth ≤ fuel) {G : Globals} (hG : GlobalsOk types G) :
    ∃ G', getOrPopulateTypeInfo fuel G s = some G' ∧ Populates types G s G' := by
  induction fuel generalizing s G with
  | zero =>
    obtain ⟨n, p, es⟩ := s
    simp [Ty.depth] at hfuel
  | succ fuel ih =>
    rw [getOrPopulateTypeInfo]
    split
    · rename_i hsome
      exact ⟨G, rfl, hG, List.Subset.refl G, hG.mem_of_lookup hT hs hsome⟩
    · obtain ⟨G₁, h₁, hok₁, hsub₁, hmem₁⟩ := foldlM_populates (fun A hA G hG => by
        obtain ⟨hA', hlt⟩ := hT.arrayElement hs hA
        exact ih hA' (by omega) hG) hG
      refine ⟨_, by rw [h₁]; rfl, fun g hg => ?_, ?_, ?_⟩
      · rcases List.mem_append.mp hg with hg | hg
        · obtain ⟨s', hs', rfl, helements⟩ := hok₁ g hg
          exact ⟨s', hs', rfl, fun A hA => List.mem_append_left _ (helements A hA)⟩
        · obtain rfl := List.mem_singleton.mp hg
          exact ⟨s, hs, rfl, fun A hA => List.mem_append_left _ (hmem₁ A hA)⟩
      · exact fun g hg => List.mem_append_left _ (hsub₁ hg)
      · simp

/-- The tables that a module asks for are there, with those they refer to. -/
theorem TrackedTypes.typeInfoGlobals {requests : List StructType} (hsub : requests ⊆ types) :
    ∃ G, typeInfoGlobals requests = some G ∧ GlobalsOk types G ∧
      ∀ s ∈ requests, (s.typeInfoName, infoMembers s) ∈ G := by
  obtain ⟨G, h, hok, -, hmem⟩ := foldlM_populates
    (fun s hs G hG => hT.populates (hsub hs) (Nat.le_refl _) hG) GlobalsOk.nil
  exact ⟨G, h, hok, hmem⟩

/-! The tables in memory. -/

omit hT in
/-- The globals lie in memory where their names say. -/
def GlobalsAt (mem : Memory) (addrOf : String → Nat) (G : Globals) : Prop :=
  ∀ g ∈ G, Holds mem (addrOf g.1) (wordsOf addrOf g.2)

instance (mem : Memory) (addrOf : String → Nat) (G : Globals) :
    Decidable (GlobalsAt mem addrOf G) :=
  inferInstanceAs (Decidable (∀ g ∈ G, Holds mem (addrOf g.1) (wordsOf addrOf g.2)))

theorem TrackedTypes.wordsOf_infoMembers {s : StructType} (hs : s ∈ types)
    (addrOf : String → Nat) :
    wordsOf addrOf (infoMembers s) = s.ty.allocSize :: restWords addrOf 0 s.offsets := by
  rw [infoMembers, if_pos (hT.tracked s hs), wordsOf, List.map_cons, List.map_append]
  rfl

/-- Every table in memory can be walked, at every offset of its type. -/
theorem TrackedTypes.walkable {mem : Memory} {addrOf : String → Nat} {G : Globals}
    (hG : GlobalsOk types G) (hmem : GlobalsAt mem addrOf G) {s : StructType} (hs : s ∈ types)
    (hsize : s.ty.allocSize < 2 ^ 63) (h : (s.typeInfoName, infoMembers s) ∈ G) :
    Walkable mem addrOf s := by
  induction hd : s.ty.depth using Nat.strong_induction_on generalizing s with
  | _ d ih =>
    subst hd
    have hsolid := hT.solid s hs
    have hflat := flattened hsolid
    have hwords := hmem _ h
    rw [hT.wordsOf_infoMembers hs] at hwords
    have harray (o c : Nat) (A : StructType) (hA : (o, .arrayNode c A) ∈ s.offsets) :
        0 < o ∧ Walkable mem addrOf A := by
      have hmemA := mem_arrayElements (hT.tracked s hs) hA
      obtain ⟨hA', hlt⟩ := hT.arrayElement hs hmemA
      have hend := subobject_end_le (arrayEntry_subobject hsolid hA)
      obtain ⟨s', hs', heq, hclosed⟩ := hG _ h
      obtain rfl := hT.typeInfoName_inj hs hs' (Prod.mk.inj heq).1
      exact ⟨arrayEntry_pos hsolid hA, ih _ hlt hA' (by omega) (hclosed A hmemA) rfl⟩
    have hentries := hwords.tail
    have hordered := hflat.ordered
    rw [offsets_eq_cons, restWords_cons, if_neg (by simp)] at hentries
    refine ⟨hsolid.allocSize_pos, hsize, hwords.head, hentries.head, ?_⟩
    intro k hk
    rw [offsets_eq_cons] at harray hordered ⊢
    have hbound (e : Nat × TypeNode) (he : e ∈ (0, .structNode s) ::
        elementsOffsets (getLayout s.isPacked s.elements) 0 s.elements) : e.1 < 2 ^ 63 := by
      have := hordered.2 e he
      omega
    exact walksAt_entries (by omega) (Nat.zero_le k) hordered.1 hbound harray
      (endOk_endAfter 0 (0, .structNode s)) hentries

end Globals

end TypeSan
