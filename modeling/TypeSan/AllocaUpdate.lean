import TypeSan.Longjmp
import TypeSan.UpdateMetalloc

/-! The update behind a tracked alloca fills slots of the alloca's own object, at least those of the
bytes that are asked for. -/
namespace TypeSan

open Rounding WordMemory

/-- The update that the pass inserts behind a tracked alloca, for an array size that is a constant or
known at run time only. -/
def allocaUpdate (AllocatedType : Ty) (constant : Bool) (arraySize : Nat) : MetallocUpdate :=
  ⟨AllocatedType, 6, if constant then arraySize else 0, arraySize * AllocatedType.allocSize % 2 ^ 64⟩

/-- The object is that of the alloca. A static one takes at least a byte. -/
def StackObject.IsOf (o : StackObject) (AllocatedType : Ty) (constant : Bool) (arraySize : Nat) :
    Prop :=
  if constant then
    o.size = arraySize * AllocatedType.allocSize ∨ o.size = max 1 (arraySize * AllocatedType.allocSize)
  else o.size = arraySize * AllocatedType.allocSize % 2 ^ 64

instance (o : StackObject) (AllocatedType : Ty) (constant : Bool) (arraySize : Nat) :
    Decidable (o.IsOf AllocatedType constant arraySize) :=
  inferInstanceAs (Decidable (if constant then (_ ∨ _ : Prop) else _))


section Alloca

variable {o : StackObject} {AllocatedType : Ty} {constant : Bool} {arraySize c : Nat} {E : StructType}
  (htarget : (allocaUpdate AllocatedType constant arraySize).target = some (E, c))
include htarget

theorem count_alloca : ∃ node, getStructLayout AllocatedType = some node ∧ E = node.element ∧
    c = (if constant then arraySize else 0) * node.count := by
  obtain ⟨node, hnode, heq⟩ := Option.map_eq_some_iff.mp htarget
  refine ⟨node, hnode, ?_⟩
  change _ ∧ c = (allocaUpdate AllocatedType constant arraySize).count * node.count
  by_cases hcount : (allocaUpdate AllocatedType constant arraySize).count = 0
  · simp only [hcount, ne_eq, not_true, if_false, Prod.mk.injEq] at heq
    obtain ⟨rfl, rfl⟩ := heq
    rw [hcount, Nat.zero_mul]
    exact ⟨rfl, rfl⟩
  · simp only [hcount, ne_eq, not_false_eq_true, if_true, Prod.mk.injEq, createArrayNode_eq] at heq
    obtain ⟨rfl, rfl⟩ := heq
    exact ⟨rfl, rfl⟩

/-- The bytes that are asked for, which are counted in a word where they are not constant. -/
theorem filledBytes_alloca : (allocaUpdate AllocatedType constant arraySize).filledBytes E c =
    if constant then arraySize * AllocatedType.allocSize
    else arraySize * AllocatedType.allocSize % 2 ^ 64 := by
  obtain ⟨node, hnode, rfl, rfl⟩ := count_alloca htarget
  have hsize := (getStructLayout_size hnode).2
  rw [MetallocUpdate.filledBytes]
  cases constant with
  | false => simp [allocaUpdate]
  | true =>
    simp only [if_true]
    split
    · rename_i hnone
      have hbytes : arraySize * AllocatedType.allocSize = 0 := by
        rw [hsize, ← Nat.mul_assoc, hnone, Nat.zero_mul]
      simp [allocaUpdate, hbytes]
    · rw [hsize]
      ring

variable (hof : o.IsOf AllocatedType constant arraySize)
include hof

theorem filledBytes_alloca_le : (allocaUpdate AllocatedType constant arraySize).filledBytes E c ≤ o.size := by
  rw [filledBytes_alloca htarget]
  cases constant with
  | true =>
    have hsize : o.size = arraySize * AllocatedType.allocSize ∨
        o.size = max 1 (arraySize * AllocatedType.allocSize) := hof
    simp only [if_true]
    omega
  | false =>
    have hsize : o.size = arraySize * AllocatedType.allocSize % 2 ^ 64 := hof
    simp only [hsize, Bool.false_eq_true, if_false]
    exact Nat.le_refl _

/-- An object that some bytes are asked for has these. -/
theorem filledBytes_alloca_eq (hpos : 0 < arraySize * AllocatedType.allocSize) :
    (allocaUpdate AllocatedType constant arraySize).filledBytes E c = o.size := by
  rw [filledBytes_alloca htarget]
  cases constant with
  | true =>
    have hsize : o.size = arraySize * AllocatedType.allocSize ∨
        o.size = max 1 (arraySize * AllocatedType.allocSize) := hof
    simp only [if_true]
    omega
  | false =>
    have hsize : o.size = arraySize * AllocatedType.allocSize % 2 ^ 64 := hof
    simp only [hsize, Bool.false_eq_true, if_false]

/-- Slots of the object only, but for an object of no bytes with a constant count. -/
theorem slotCount_alloca_le (hsome : constant = true → arraySize ≠ 0 → 0 < o.size) :
    (allocaUpdate AllocatedType constant arraySize).slotCount E c 6 ≤ granules o.size 6 := by
  have hle := granules_mono (a := 6) (filledBytes_alloca_le htarget hof)
  rw [MetallocUpdate.slotCount]
  split
  · rename_i hcount
    obtain ⟨node, -, -, rfl⟩ := count_alloca htarget
    have hconstant : constant = true := by
      by_contra hno
      simp [hno] at hcount
    have harray : arraySize ≠ 0 := by
      rintro rfl
      simp at hcount
    exact Nat.max_le.mpr ⟨granules_pos (hsome hconstant harray), hle⟩
  · exact hle

end Alloca

/-- Nothing is stored for an object of no bytes whose count is not constant, or none. -/
theorem stores_alloca_nil {o : StackObject} {AllocatedType : Ty} {constant : Bool} {arraySize : Nat}
    {pageTable : PageTable} {addrOf : String → Nat} {stores : List Store}
    (hof : o.IsOf AllocatedType constant arraySize)
    (hsome : constant = true → arraySize ≠ 0 → 0 < o.size) (hnone : o.size = 0)
    (hstores : (allocaUpdate AllocatedType constant arraySize).stores pageTable addrOf o.start =
      some stores) : stores = [] := by
  obtain ⟨⟨E, c⟩, htarget, rfl⟩ := Option.map_eq_some_iff.mp hstores
  obtain ⟨node, -, rfl, rfl⟩ := count_alloca htarget
  have hcount : (if constant then arraySize else 0) = 0 := by
    split
    · rename_i hconstant
      by_contra hne
      exact absurd (hsome hconstant hne) (by omega)
    · rfl
  have hbytes : arraySize * AllocatedType.allocSize % 2 ^ 64 = 0 := by
    cases constant with
    | true =>
      have harray : arraySize = 0 := by simpa using hcount
      simp [harray]
    | false => exact (show o.size = _ from hof).symm.trans hnone
  simp only [allocaUpdate, hcount, hbytes, Nat.zero_mul, ne_eq, not_true, false_and, if_false,
    if_true, OfNat.ofNat_ne_zero, not_false_eq_true]
  rfl

section Alloca

variable {o : StackObject} {AllocatedType : Ty} {constant : Bool} {arraySize : Nat}
  {pageTable : PageTable} {addrOf : String → Nat} {R L M : Nat} {stores : List Store}
  (hreg : Registered pageTable R L M 6) (hlo : R ≤ o.start) (hhi : o.start + o.size ≤ R + L)
  (hword : R + L ≤ 2 ^ 47) (hof : o.IsOf AllocatedType constant arraySize)
  (hsome : constant = true → arraySize ≠ 0 → 0 < o.size)
  (hstores : (allocaUpdate AllocatedType constant arraySize).stores pageTable addrOf o.start =
    some stores)
include hreg hlo hhi hword hof hsome hstores

/-- The stores fill slots of the object, at least those of the bytes that are asked for. -/
theorem stores_alloca (hpos : 0 < o.size) : ∃ E c n,
    (allocaUpdate AllocatedType constant arraySize).target = some (E, c) ∧
    granules ((allocaUpdate AllocatedType constant arraySize).filledBytes E c) 6 ≤ n ∧
    n ≤ granules o.size 6 ∧
    stores = metallocWidememset (metadataPtr pageTable o.start) n (MetallocUpdate.ptrToStore E o.start)
      (MetallocUpdate.typeInfoPtrInt addrOf E c) := by
  obtain ⟨⟨E, c⟩, htarget, -⟩ := Option.map_eq_some_iff.mp hstores
  have hfilled := filledBytes_alloca_le htarget hof
  have hslots := slotCount_alloca_le htarget hof hsome
  have hentry : pageTable (o.start / METALLOC_PAGESIZE) &&& 0xFF = 6 :=
    (hreg.fields hlo (by omega)).2
  have heq := MetallocUpdate.stores_eq_slotCount (a := 6) addrOf htarget (by omega) (by decide)
    (Or.inl rfl) hentry
  refine ⟨E, c, _, htarget, ?_, hslots, Option.some.inj (hstores.symm.trans heq)⟩
  rw [MetallocUpdate.slotCount]
  split
  · exact Nat.le_max_right _ _
  · exact Nat.le_refl _

variable (hR : 2 ^ 6 ∣ R) (hdvd : StackAlignment ∣ o.start)
include hR hdvd

/-- Every store is into the metadata of the stack. -/
theorem stores_alloca_bounds : ∀ st ∈ stores, M ≤ st.1 ∧ st.1 < M + granules L 6 * 16 := by
  rcases Nat.eq_zero_or_pos o.size with hnone | hpos
  · simp [stores_alloca_nil hof hsome hnone hstores]
  · obtain ⟨E, c, n, -, -, hle, rfl⟩ := stores_alloca hreg hlo hhi hword hof hsome hstores hpos
    have hobject := object_granules_le hlo hhi hpos (Nat.dvd_sub hdvd hR)
    intro st hst
    obtain ⟨i, hi, hst⟩ := (mem_slots hreg hlo (by omega) (by omega)).mp hst
    rcases hst with rfl | rfl <;> simp only <;> omega

/-- A byte whose granule holds none of the object keeps its metadata. -/
theorem lookup_alloca_of_apart {mem : Memory} {x : Nat} (hx : R ≤ x) (hxL : x < R + L)
    (h : ∀ y, o.Has y → x / 64 ≠ y / 64) :
    lookupMetadata (writes mem stores) pageTable x = lookupMetadata mem pageTable x := by
  rcases Nat.eq_zero_or_pos o.size with hnone | hpos
  · rw [stores_alloca_nil hof hsome hnone hstores, writes_nil]
  · obtain ⟨E, c, n, -, -, hle, rfl⟩ := stores_alloca hreg hlo hhi hword hof hsome hstores hpos
    have hp : 2 ^ 6 ∣ o.start - R := Nat.dvd_sub hdvd hR
    have hobject := object_granules_le hlo hhi hpos hp
    refine lookup_slots_of_not_mem hreg hlo (by omega) (by omega) hx hxL ?_
    rintro ⟨hfirst, hlast⟩
    obtain ⟨i, hi⟩ := Nat.exists_eq_add_of_le hfirst
    obtain ⟨y, hy, hys, hg⟩ := exists_byte_of_granule hp hlo (show i < granules o.size 6 by omega)
    refine h y ⟨hy, hys⟩ ?_
    obtain ⟨k, rfl⟩ := hR
    omega

/-- A byte that is asked for finds the object and its type. -/
theorem lookup_alloca {mem : Memory} {E : StructType} {c x : Nat}
    (htarget : (allocaUpdate AllocatedType constant arraySize).target = some (E, c))
    (hx : o.start ≤ x)
    (hxs : x < o.start + (allocaUpdate AllocatedType constant arraySize).filledBytes E c) :
    lookupMetadata (writes mem stores) pageTable x =
      some (MetallocUpdate.ptrToStore E o.start, MetallocUpdate.typeInfoPtrInt addrOf E c) := by
  have hfilled := filledBytes_alloca_le htarget hof
  have hpos : 0 < o.size := by omega
  obtain ⟨E', c', n, htarget', hn, hle, rfl⟩ :=
    stores_alloca hreg hlo hhi hword hof hsome hstores hpos
  cases htarget.symm.trans htarget'
  have hp : 2 ^ 6 ∣ o.start - R := Nat.dvd_sub hdvd hR
  have hobject := object_granules_le hlo hhi hpos hp
  have hgranule := object_granule hp hlo hx
  have hslot : (x - o.start) / 2 ^ 6 < n := Nat.lt_of_lt_of_le (div_lt_granules (by omega)) hn
  exact lookup_slots_of_mem hreg hlo (by omega) (by omega) (by omega) (by omega) (by omega)
    (by omega)

end Alloca

end TypeSan
