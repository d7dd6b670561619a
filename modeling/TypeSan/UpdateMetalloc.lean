import TypeSan.LayoutCover
import TypeSan.Library.WordMemory
import TypeSan.MetaPageTable
import TypeSan.TypeInfo

/-! Writing an object's metadata: the stores of `insertUpdateMetalloc`. -/
namespace TypeSan

open Rounding WordMemory

/-- The metadata slot `i` behind a pointer, filled with an allocation base and a typeinfo word. -/
def slotStores (base value1 value2 i : Nat) : List Store :=
  [((base + 8 * (2 * i)) % 2 ^ 64, value1), ((base + 8 * (2 * i + 1)) % 2 ^ 64, value2)]

/-- `metalloc_widememset`. -/
def metallocWidememset (base size value1 value2 : Nat) : List Store :=
  (List.range size).flatMap (slotStores base value1 value2)

/-- The arguments of `insertUpdateMetalloc`. `size` is the run-time value that a `count` of 0 stands
for. -/
structure MetallocUpdate where
  allocationType : Ty
  alignment : Nat
  count : Nat
  size : Nat

namespace MetallocUpdate

variable (u : MetallocUpdate)

/-- `structNode` and the final `count`. -/
def target : Option (StructType × Nat) :=
  (getStructLayout u.allocationType).map fun typeNode =>
    if u.count ≠ 0 then
      let tmpArrayNode := createArrayNode u.count typeNode
      (tmpArrayNode.element, tmpArrayNode.count)
    else (typeNode.element, 0)

/-- `ptrToStore`: literal structs are not supported. -/
def ptrToStore (structNode : StructType) (ptrToInt : Nat) : Nat :=
  if structNode.name = none then 0 else ptrToInt

/-- `typeInfoPtrInt`: one object's table is entered behind the size word. -/
def typeInfoPtrInt (addrOf : String → Nat) (structNode : StructType) (count : Nat) : Nat :=
  if count = 1 then (addrOf structNode.typeInfoName + 8) % 2 ^ 64
  else addrOf structNode.typeInfoName

/-- The stores that the code emitted by `insertUpdateMetalloc` makes for a pointer. -/
def stores (pageTable : PageTable) (addrOf : String → Nat) (ptrToInt : Nat) :
    Option (List Store) :=
  u.target.map fun (structNode, count) =>
    let ptrToStore := ptrToStore structNode ptrToInt
    let typeInfoPtrInt := typeInfoPtrInt addrOf structNode count
    let pageTableEntry := pageTable (ptrToInt >>> METALLOC_PAGESHIFT)
    let metadataBase := pageTableEntry >>> 8
    let alignmentValue := if u.alignment ≠ 0 then u.alignment else pageTableEntry &&& 0xFF
    let alignmentOffset := ((1 <<< alignmentValue) + (2 ^ 64 - 1)) % 2 ^ 64
    let pageOffset := ptrToInt &&& ((1 <<< METALLOC_PAGESHIFT) - 1)
    let metadataOffset := (pageOffset >>> alignmentValue) <<< 1
    let metadataPtr := metadataBase + 8 * metadataOffset
    let bytes := structNode.ty.allocSize * count % 2 ^ 64
    let constantSize := ((bytes + alignmentOffset) % 2 ^ 64) >>> alignmentValue
    if count ≠ 0 ∧ u.alignment ≠ 0 ∧ constantSize ≤ 16 then
      slotStores metadataPtr ptrToStore typeInfoPtrInt 0 ++
        (List.range' 1 (constantSize - 1)).flatMap
          (slotStores metadataPtr ptrToStore typeInfoPtrInt)
    else
      let metadataSize :=
        if count = 0 then ((u.size + alignmentOffset) % 2 ^ 64) >>> alignmentValue
        else ((bytes + alignmentOffset) % 2 ^ 64 &&& (2 ^ 63 - 1)) >>> alignmentValue
      metallocWidememset metadataPtr metadataSize ptrToStore typeInfoPtrInt

end MetallocUpdate

/-- The metadata that `check_cast` finds for a pointer: an allocation base and a typeinfo word. -/
def lookupMetadata (mem : Memory) (pageTable : PageTable) (ptr : Nat) : Option (Nat × Nat) := do
  let alloc_base ← mem (metadataPtr pageTable ptr)
  let typeInfo ← mem (metadataPtr pageTable ptr + 8)
  return (alloc_base, typeInfo)

namespace MetallocUpdate

variable {u : MetallocUpdate} {E : StructType} {c : Nat}

/-- The bytes that the object of an update takes. -/
def objectSize (u : MetallocUpdate) : Nat :=
  if u.count ≠ 0 then u.allocationType.allocSize * u.count else u.size

/-- The bytes whose slots the emitted code fills, once the count is final. -/
def filledBytes (u : MetallocUpdate) (E : StructType) (c : Nat) : Nat :=
  if c = 0 then u.size else E.ty.allocSize * c

theorem filledBytes_eq (h : u.target = some (E, c)) (hs : 0 < u.objectSize) :
    u.filledBytes E c = u.objectSize := by
  obtain ⟨node, hnode, heq⟩ := Option.map_eq_some_iff.mp h
  have hsize := (getStructLayout_size hnode).2
  unfold objectSize filledBytes at *
  by_cases hcount : u.count = 0
  · simp only [hcount, ne_eq, not_true, if_false, Prod.mk.injEq] at heq ⊢
    simp [← heq.2]
  · simp only [hcount, ne_eq, not_false_eq_true, if_true, Prod.mk.injEq, createArrayNode_eq,
      TypeNode.element_arrayNode, TypeNode.count_arrayNode] at heq hs ⊢
    obtain ⟨rfl, rfl⟩ := heq
    have hne : u.count * node.count ≠ 0 := by
      intro h0
      rcases Nat.mul_eq_zero.mp h0 with h0 | h0
      · exact hcount h0
      · simp [hsize, h0] at hs
    rw [if_neg hne, hsize]
    ring

/-- The slots that are filled. An inlined run fills the first one even of an object of no bytes. -/
def slotCount (u : MetallocUpdate) (E : StructType) (c a : Nat) : Nat :=
  if c ≠ 0 ∧ u.alignment ≠ 0 then max 1 (granules (u.filledBytes E c) a)
  else granules (u.filledBytes E c) a

theorem slotCount_eq {a : Nat} (hs : 0 < u.filledBytes E c ∨ u.alignment = 0) :
    u.slotCount E c a = granules (u.filledBytes E c) a := by
  rw [slotCount]
  split
  · rename_i h
    exact Nat.max_eq_right (granules_pos (hs.resolve_right h.2))
  · rfl

/-- An inlined run of stores is that of the helper, for at least one slot. -/
theorem inline_stores (base value1 value2 n : Nat) :
    slotStores base value1 value2 0 ++
        (List.range' 1 (n - 1)).flatMap (slotStores base value1 value2) =
      metallocWidememset base (max 1 n) value1 value2 := by
  have hmax : max 1 n = n - 1 + 1 := by omega
  simp [metallocWidememset, hmax, List.range_eq_range', List.range'_succ]

/-- The inserted code computes the address that the check computes. -/
theorem inline_metadataPtr (pageTable : PageTable) (p : Nat) :
    pageTable (p >>> METALLOC_PAGESHIFT) >>> 8 +
        8 * (((p &&& ((1 <<< METALLOC_PAGESHIFT) - 1)) >>>
          (pageTable (p / METALLOC_PAGESIZE) &&& 0xFF)) <<< 1) =
      metadataPtr pageTable p := by
  rw [metadataPtr, Nat.shiftRight_eq_div_pow p, Nat.shiftLeft_eq _ 1, Nat.mul_comm _ (2 ^ 1)]
  rfl

/-- The inserted code rounds up to granules, without overflow. -/
theorem inline_granules {n a : Nat} (hn : n ≤ 2 ^ 48) (ha : a ≤ 62) :
    ((n + (2 ^ a - 1)) % 2 ^ 64) >>> a = granules n a := by
  have hpow : 2 ^ a ≤ 2 ^ 62 := Nat.pow_le_pow_right (by omega) ha
  rw [Nat.mod_eq_of_lt (by omega), Nat.shiftRight_eq_div_pow]
  rfl

/-- Inlined or not, with the exponent given or read back from the page table, an update fills its
slots. -/
theorem stores_eq_slotCount {pageTable : PageTable} (addrOf : String → Nat) {p a : Nat}
    (h : u.target = some (E, c)) (hle : u.filledBytes E c ≤ 2 ^ 48) (ha : a ≤ 62)
    (hal : u.alignment = a ∨ u.alignment = 0)
    (hentry : pageTable (p / METALLOC_PAGESIZE) &&& 0xFF = a) :
    u.stores pageTable addrOf p =
      some (metallocWidememset (metadataPtr pageTable p) (u.slotCount E c a)
        (ptrToStore E p) (typeInfoPtrInt addrOf E c)) := by
  have hpow : 2 ^ a ≤ 2 ^ 62 := Nat.pow_le_pow_right (by omega) ha
  have hone := Nat.two_pow_pos a
  have hvalue : (if u.alignment ≠ 0 then u.alignment
      else pageTable (p >>> METALLOC_PAGESHIFT) &&& 0xFF) = a := by
    rw [Nat.shiftRight_eq_div_pow, show p / 2 ^ METALLOC_PAGESHIFT = p / METALLOC_PAGESIZE from rfl,
      hentry]
    split <;> omega
  have hoffset : ((1 <<< a) + (2 ^ 64 - 1)) % 2 ^ 64 = 2 ^ a - 1 := by
    rw [Nat.shiftLeft_eq, Nat.one_mul]
    omega
  have hptr := inline_metadataPtr pageTable p
  rw [hentry] at hptr
  simp only [stores, h, Option.map_some, hvalue, hoffset, hptr, Option.some.injEq, slotCount]
  by_cases hc : c = 0
  · simp only [filledBytes, hc, if_true] at hle ⊢
    rw [if_neg (by simp), if_neg (by simp), inline_granules hle ha]
  · simp only [filledBytes, if_neg hc] at hle ⊢
    generalize E.ty.allocSize * c = n at *
    have hmod : n % 2 ^ 64 = n := Nat.mod_eq_of_lt (by omega)
    have hsum : (n + (2 ^ a - 1)) % 2 ^ 64 = n + (2 ^ a - 1) := Nat.mod_eq_of_lt (by omega)
    have hmask : (n + (2 ^ a - 1)) % 2 ^ 63 = n + (2 ^ a - 1) := Nat.mod_eq_of_lt (by omega)
    rw [hmod, inline_granules hle ha, hsum, Nat.and_two_pow_sub_one_eq_mod, hmask,
      Nat.shiftRight_eq_div_pow]
    by_cases hal0 : u.alignment = 0
    · simp only [hal0, ne_eq, not_true, false_and, and_false, if_false]
      rfl
    · simp only [hal0, hc, ne_eq, not_false_eq_true, true_and, if_true]
      split
      · exact inline_stores _ _ _ _
      · rename_i hlarge
        rw [Nat.max_eq_right (by omega)]
        rfl

/-- An update fills the slots of the granules it covers. -/
theorem stores_eq {pageTable : PageTable} (addrOf : String → Nat) {p a : Nat}
    (h : u.target = some (E, c)) (hs : 0 < u.filledBytes E c ∨ u.alignment = 0)
    (hle : u.filledBytes E c ≤ 2 ^ 48) (ha : a ≤ 62) (hal : u.alignment = a ∨ u.alignment = 0)
    (hentry : pageTable (p / METALLOC_PAGESIZE) &&& 0xFF = a) :
    u.stores pageTable addrOf p =
      some (metallocWidememset (metadataPtr pageTable p) (granules (u.filledBytes E c) a)
        (ptrToStore E p) (typeInfoPtrInt addrOf E c)) := by
  rw [stores_eq_slotCount addrOf h hle ha hal hentry, slotCount_eq hs]

end MetallocUpdate

theorem mem_metallocWidememset {base n value1 value2 : Nat} {s : Store} :
    s ∈ metallocWidememset base n value1 value2 ↔
      ∃ i < n, s = ((base + 16 * i) % 2 ^ 64, value1) ∨
        s = ((base + 16 * i + 8) % 2 ^ 64, value2) := by
  simp only [metallocWidememset, slotStores, List.mem_flatMap, List.mem_range, List.mem_cons,
    List.not_mem_nil, or_false]
  constructor <;>
  · rintro ⟨i, hi, h⟩
    refine ⟨i, hi, ?_⟩
    rwa [show base + 8 * (2 * i) = base + 16 * i by omega,
      show base + 8 * (2 * i + 1) = base + 16 * i + 8 by omega] at *

theorem lookupMetadata_congr {mem mem' : Memory} {pageTable : PageTable} {x : Nat}
    (h0 : mem' (metadataPtr pageTable x) = mem (metadataPtr pageTable x))
    (h8 : mem' (metadataPtr pageTable x + 8) = mem (metadataPtr pageTable x + 8)) :
    lookupMetadata mem' pageTable x = lookupMetadata mem pageTable x := by
  simp [lookupMetadata, h0, h8]

/-! Slots in a registered range, from that of a pointer on. -/

section Slots

variable {pageTable : PageTable} {R L M a p n v w : Nat} {mem : Memory}
  (hreg : Registered pageTable R L M a) (hlo : R ≤ p) (hhi : p < R + L)
  (hn : (p - R) / 2 ^ a + n ≤ granules L a)
include hreg hlo hhi hn

/-- Where the slots are: none of their addresses wraps. -/
theorem mem_slots {t : Store} :
    t ∈ metallocWidememset (metadataPtr pageTable p) n v w ↔
      ∃ i < n, t = (M + 16 * ((p - R) / 2 ^ a + i), v) ∨
        t = (M + 16 * ((p - R) / 2 ^ a + i) + 8, w) := by
  rw [mem_metallocWidememset, hreg.metadataPtr_eq hlo hhi]
  refine exists_congr fun i => and_congr_right fun hi => ?_
  have hend := hreg.meta_end
  rw [Nat.mod_eq_of_lt (by omega), Nat.mod_eq_of_lt (by omega), Nat.mul_add, Nat.add_assoc M]

theorem lookup_slots_of_mem {x : Nat} (hx : R ≤ x) (hxL : x < R + L)
    (hfirst : (p - R) / 2 ^ a ≤ (x - R) / 2 ^ a) (hlast : (x - R) / 2 ^ a < (p - R) / 2 ^ a + n) :
    lookupMetadata (writes mem (metallocWidememset (metadataPtr pageTable p) n v w)) pageTable x =
      some (v, w) := by
  have hslots {t : Store} := mem_slots (t := t) (v := v) (w := w) hreg hlo hhi hn
  obtain ⟨i, hi⟩ := Nat.exists_eq_add_of_le hfirst
  have hslot : metadataPtr pageTable x = M + 16 * ((p - R) / 2 ^ a + i) := by
    rw [hreg.metadataPtr_eq hx hxL, hi]
  have hbase : writes mem (metallocWidememset (metadataPtr pageTable p) n v w)
      (metadataPtr pageTable x) = some v := by
    apply writes_of_mem
    · exact hslots.mpr ⟨i, by omega, Or.inl (by rw [hslot])⟩
    · rintro st hst heq
      obtain ⟨j, -, rfl | rfl⟩ := hslots.mp hst
      · rfl
      · simp only at heq
        omega
  have hinfo : writes mem (metallocWidememset (metadataPtr pageTable p) n v w)
      (metadataPtr pageTable x + 8) = some w := by
    apply writes_of_mem
    · exact hslots.mpr ⟨i, by omega, Or.inr (by rw [hslot])⟩
    · rintro st hst heq
      obtain ⟨j, -, rfl | rfl⟩ := hslots.mp hst
      · simp only at heq
        omega
      · rfl
  simp [lookupMetadata, hbase, hinfo]

theorem lookup_slots_of_not_mem {x : Nat} (hx : R ≤ x) (hxL : x < R + L)
    (h : ¬ ((p - R) / 2 ^ a ≤ (x - R) / 2 ^ a ∧ (x - R) / 2 ^ a < (p - R) / 2 ^ a + n)) :
    lookupMetadata (writes mem (metallocWidememset (metadataPtr pageTable p) n v w)) pageTable x =
      lookupMetadata mem pageTable x := by
  have hslot := hreg.metadataPtr_eq hx hxL
  have hne (st : Store) (hst : st ∈ metallocWidememset (metadataPtr pageTable p) n v w) :
      metadataPtr pageTable x ≠ st.1 ∧ metadataPtr pageTable x + 8 ≠ st.1 := by
    obtain ⟨i, hi, hst⟩ := (mem_slots hreg hlo hhi hn).mp hst
    rcases hst with rfl | rfl <;> simp only <;> omega
  exact lookupMetadata_congr (writes_of_forall_ne fun st hst => (hne st hst).1)
    (writes_of_forall_ne fun st hst => (hne st hst).2)

end Slots

/-! An object in a registered range, and the stores that fill its slots. -/

section Fill

variable {pageTable : PageTable} {R L M a p s v w : Nat} {mem : Memory}
  (hreg : Registered pageTable R L M a) (hlo : R ≤ p) (hhi : p + s ≤ R + L) (hs : 0 < s)
  (hp : 2 ^ a ∣ p - R)

include hp in
/-- The granules of the object count on from its first one. -/
theorem object_granule {x : Nat} (hlo : R ≤ p) (hx : p ≤ x) :
    (x - R) / 2 ^ a = (p - R) / 2 ^ a + (x - p) / 2 ^ a := by
  obtain ⟨q, hq⟩ := hp
  rw [show x - R = 2 ^ a * q + (x - p) by omega, Nat.mul_add_div (Nat.two_pow_pos a), hq,
    Nat.mul_div_cancel_left _ (Nat.two_pow_pos a)]

include hp in
/-- Each slot is that of a byte of the object. -/
theorem exists_byte_of_granule {i : Nat} (hlo : R ≤ p) (hi : i < granules s a) :
    ∃ y, p ≤ y ∧ y < p + s ∧ (y - R) / 2 ^ a = (p - R) / 2 ^ a + i := by
  have hstart := granule_start_lt hi
  refine ⟨p + i * 2 ^ a, by omega, by omega, ?_⟩
  rw [object_granule hp hlo (by omega), Nat.add_sub_cancel_left,
    Nat.mul_div_cancel _ (Nat.two_pow_pos a)]

include hlo hhi hs hp in
/-- The slots of the object are slots of the range. -/
theorem object_granules_le : (p - R) / 2 ^ a + granules s a ≤ granules L a := by
  have hpos := granules_pos (a := a) hs
  obtain ⟨y, hy, hys, hg⟩ := exists_byte_of_granule hp hlo
    (show granules s a - 1 < granules s a by omega)
  have hlt : (y - R) / 2 ^ a < granules L a := div_lt_granules (by omega)
  omega

include hreg hlo hhi hs hp

theorem mem_fill {t : Store} :
    t ∈ metallocWidememset (metadataPtr pageTable p) (granules s a) v w ↔
      ∃ i < granules s a, t = (M + 16 * ((p - R) / 2 ^ a + i), v) ∨
        t = (M + 16 * ((p - R) / 2 ^ a + i) + 8, w) :=
  mem_slots hreg hlo (by omega) (object_granules_le hlo hhi hs hp)

theorem fill_bounds {st : Store}
    (h : st ∈ metallocWidememset (metadataPtr pageTable p) (granules s a) v w) :
    M ≤ st.1 ∧ st.1 + 8 ≤ M + granules L a * 16 := by
  have hle := object_granules_le hlo hhi hs hp
  obtain ⟨i, hi, h⟩ := (mem_fill hreg hlo hhi hs hp).mp h
  rcases h with rfl | rfl <;> simp only <;> omega

theorem lookup_fill {x : Nat} (hx : p ≤ x) (hxs : x < p + s) :
    lookupMetadata (writes mem
      (metallocWidememset (metadataPtr pageTable p) (granules s a) v w)) pageTable x =
        some (v, w) := by
  have hi : (x - p) / 2 ^ a < granules s a := div_lt_granules (by omega)
  refine lookup_slots_of_mem hreg hlo (by omega) (object_granules_le hlo hhi hs hp) (by omega)
    (by omega) ?_ ?_ <;> rw [object_granule hp hlo hx]
  · exact Nat.le_add_right _ _
  · exact Nat.add_lt_add_left hi _

/-- A granule of the range that holds no byte of the object keeps its metadata. -/
theorem lookup_fill_of_untouched {x : Nat} (hx : R ≤ x) (hxL : x < R + L)
    (h : ∀ y, p ≤ y → y < p + s → (x - R) / 2 ^ a ≠ (y - R) / 2 ^ a) :
    lookupMetadata (writes mem
      (metallocWidememset (metadataPtr pageTable p) (granules s a) v w)) pageTable x =
        lookupMetadata mem pageTable x := by
  refine lookup_slots_of_not_mem hreg hlo (by omega) (object_granules_le hlo hhi hs hp) hx hxL ?_
  rintro ⟨hfirst, hlast⟩
  obtain ⟨i, hi⟩ := Nat.exists_eq_add_of_le hfirst
  obtain ⟨y, hy, hys, hg⟩ := exists_byte_of_granule hp hlo (show i < granules s a by omega)
  exact h y hy hys (by omega)

/-- So does an address whose metadata lies elsewhere. -/
theorem lookup_fill_of_outside {x : Nat}
    (h : metadataPtr pageTable x + 16 ≤ M ∨ M + granules L a * 16 ≤ metadataPtr pageTable x) :
    lookupMetadata (writes mem
      (metallocWidememset (metadataPtr pageTable p) (granules s a) v w)) pageTable x =
        lookupMetadata mem pageTable x := by
  have hne (st : Store)
      (hst : st ∈ metallocWidememset (metadataPtr pageTable p) (granules s a) v w) :
      metadataPtr pageTable x ≠ st.1 ∧ metadataPtr pageTable x + 8 ≠ st.1 := by
    have := fill_bounds hreg hlo hhi hs hp hst
    omega
  exact lookupMetadata_congr (writes_of_forall_ne fun st hst => (hne st hst).1)
    (writes_of_forall_ne fun st hst => (hne st hst).2)

end Fill

/-- Writer and reader agree on an object of an identified struct type in a registered range: every
address of the object finds the object's pair, every store is in the metadata block, and no other
granule's metadata changes. -/
theorem update_lookup_agree {pageTable pageTable' : PageTable} {R L M K a p : Nat} {mem : Memory}
    {addrOf : String → Nat} {u : MetallocUpdate} {E : StructType} {c : Nat}
    (hR : METALLOC_PAGESIZE ∣ R) (hend : R + L ≤ 2 ^ 48) (ha : 3 ≤ a ∧ a ≤ 20)
    (hM : M ≠ 0) (hK : granules L a * 16 ≤ K) (hMK : M + K ≤ 2 ^ 48)
    (hset : setMetapagetableEntries pageTable R L M a = some pageTable')
    (hal : u.alignment = a ∨ u.alignment = 0)
    (htarget : u.target = some (E, c)) (hE : E.name ≠ none) (hs : 1 ≤ u.objectSize)
    (hlo : R ≤ p) (hhi : p + u.objectSize ≤ R + L) (hp : 2 ^ a ∣ p - R) :
    ∃ stores, u.stores pageTable' addrOf p = some stores ∧
      (∀ x, p ≤ x → x < p + u.objectSize →
        lookupMetadata (writes mem stores) pageTable' x =
          some (p, MetallocUpdate.typeInfoPtrInt addrOf E c)) ∧
      (∀ st ∈ stores, M ≤ st.1 ∧ st.1 + 8 ≤ M + K) ∧
      (∀ x, R ≤ x → x < R + L →
        (∀ y, p ≤ y → y < p + u.objectSize → (x - R) / 2 ^ a ≠ (y - R) / 2 ^ a) →
        lookupMetadata (writes mem stores) pageTable' x = lookupMetadata mem pageTable' x) ∧
      ∀ x, metadataPtr pageTable' x + 16 ≤ M ∨ M + K ≤ metadataPtr pageTable' x →
        lookupMetadata (writes mem stores) pageTable' x = lookupMetadata mem pageTable' x := by
  have hreg : Registered pageTable' R L M a :=
    mappedBelow_of_set hR (by omega) hM (by omega) hset
  have hentry := (hreg.fields hlo (by omega)).2
  have hbytes := MetallocUpdate.filledBytes_eq htarget hs
  have hstores := MetallocUpdate.stores_eq addrOf htarget (Or.inl (by omega)) (by omega)
    (by omega) hal hentry
  rw [hbytes, MetallocUpdate.ptrToStore, if_neg hE] at hstores
  refine ⟨_, hstores, fun x hx hxs => lookup_fill hreg hlo hhi hs hp hx hxs, fun st hst => ?_,
    fun x hx hxL h => lookup_fill_of_untouched hreg hlo hhi hs hp hx hxL h,
    fun x h => lookup_fill_of_outside hreg hlo hhi hs hp (by omega)⟩
  have := fill_bounds hreg hlo hhi hs hp hst
  omega

/-- A two-page object in granules of 8 KiB, its count known only at run time. -/
theorem update_lookup_agree_of_large_granules :
    ∃ stores,
      (⟨.struct (some "trackedtype.A") false [.scalar 8 3], 0, 0, 5000⟩ : MetallocUpdate).stores
        (setEntries (fun _ => 0) 16 0x7f0000000000 13 4) (fun _ => 64) 0x12000 = some stores ∧
      ∀ x, 0x12000 ≤ x → x < 0x12000 + 5000 →
        lookupMetadata (writes (fun _ => none) stores)
          (setEntries (fun _ => 0) 16 0x7f0000000000 13 4) x = some (0x12000, 64) := by
  obtain ⟨stores, hstores, hlookup, -⟩ := @update_lookup_agree (fun _ => 0) _ 0x10000 0x4000
    0x7f0000000000 4096 13 0x12000 (fun _ => none) (fun _ => 64)
    ⟨.struct (some "trackedtype.A") false [.scalar 8 3], 0, 0, 5000⟩
    ⟨some "trackedtype.A", false, [.scalar 8 3]⟩ 0
    (by decide) (by decide) (by decide) (by decide) (by decide) (by decide) rfl (by decide) rfl
    (by decide) (by decide) (by decide) (by decide) (by decide)
  exact ⟨stores, hstores, hlookup⟩

end TypeSan
