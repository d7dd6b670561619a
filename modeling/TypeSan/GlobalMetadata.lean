import Mathlib.Data.List.Pairwise
import TypeSan.Library.LastWrite
import TypeSan.UpdateMetalloc

/-! The metadata of a module's globals, which its constructor writes. -/
namespace TypeSan

open LastWrite Rounding WordMemory

/-- `interestingType`, with `isInterestingStructType` and `isInterestingArrayType`. -/
def interestingType : Ty → Bool
  | .scalar .. | .opaqueStruct _ => false
  | .struct .. => true
  | .array _ elementType => interestingType elementType

/-- A global variable of the module, at the address it is given. -/
structure GlobalVariable where
  name : String
  valueType : Ty
  address : Nat
  deriving DecidableEq

/-- The globals that `runOnModule` passes over. -/
def ignoredGlobals : List String :=
  ["llvm.global_ctors", "llvm.global_dtors", "llvm.global.annotations", "llvm.used"]

def trackedGlobals (globals : List GlobalVariable) : List GlobalVariable :=
  globals.filter fun GV => GV.name ∉ ignoredGlobals ∧ interestingType GV.valueType

namespace GlobalVariable

variable (GV : GlobalVariable)

def size : Nat := GV.valueType.allocSize

/-- The call of `insertUpdateMetalloc`. -/
def update : MetallocUpdate where
  allocationType := GV.valueType
  alignment := 3
  count := 1
  size := GV.size

/-- The pair that a lookup is to find: the global's base and its typeinfo. -/
def metadata (addrOf : String → Nat) : Option (Nat × Nat) :=
  GV.update.target.map fun (structNode, count) =>
    (GV.address, MetallocUpdate.typeInfoPtrInt addrOf structNode count)

/-- The pair that the update writes. -/
def entry (addrOf : String → Nat) : Option (Nat × Nat) :=
  GV.update.target.map fun (structNode, count) =>
    (MetallocUpdate.ptrToStore structNode GV.address,
      MetallocUpdate.typeInfoPtrInt addrOf structNode count)

/-- The slots it fills: at least one, but for an array of no elements. -/
def slots : Nat :=
  GV.update.target.elim 0 fun (_, count) => if count = 0 then 0 else max 1 (granules GV.size 3)

end GlobalVariable

/-- The updates in the constructor, `__init_global_object`. -/
def initGlobalObject (pageTable : PageTable) (addrOf : String → Nat) (globals : List GlobalVariable)
    (mem : Memory) : Option Memory :=
  globals.foldlM (fun mem GV =>
    (GV.update.stores pageTable addrOf GV.address).map (writes mem)) mem

/-- Once the constructor has run, every address of every tracked global has the global's metadata,
whatever the order of the updates. -/
def KeepsMetadata (pageTable : PageTable) (addrOf : String → Nat) (globals : List GlobalVariable) :
    Prop :=
  ∀ mem order, order.Perm (trackedGlobals globals) →
    ∃ mem', initGlobalObject pageTable addrOf order mem = some mem' ∧
      ∀ GV ∈ trackedGlobals globals, ∀ x, GV.address ≤ x → x < GV.address + GV.size →
        lookupMetadata mem' pageTable x = GV.metadata addrOf

/-- No byte belongs to both. -/
def GlobalVariable.Apart (GV GV' : GlobalVariable) : Prop :=
  ∀ x, GV.address ≤ x → x < GV.address + GV.size →
    ¬ (GV'.address ≤ x ∧ x < GV'.address + GV'.size)

instance : Std.Symm GlobalVariable.Apart :=
  ⟨fun _ _ h x hx hxs hGV => h x hGV.1 hGV.2 ⟨hx, hxs⟩⟩

/-- The update fills the slot of the granule that the address is in. -/
def GlobalVariable.Fills (GV : GlobalVariable) (x : Nat) : Prop :=
  GV.address / 8 ≤ x / 8 ∧ x / 8 < GV.address / 8 + GV.slots

instance (GV : GlobalVariable) (x : Nat) : Decidable (GV.Fills x) :=
  inferInstanceAs (Decidable (_ ∧ _))

/-- The global's struct has a name, its last byte is in a granule that its update fills, and no other
update fills a granule that holds one of its bytes, but with the same pair. -/
structure GlobalVariable.Undisturbed (addrOf : String → Nat) (tracked : List GlobalVariable)
    (GV : GlobalVariable) : Prop where
  identified : ∀ E c, GV.update.target = some (E, c) → E.name ≠ none
  covered : GV.address % 8 + GV.size ≤ 8 * granules GV.size 3
  alone : ∀ GV' ∈ tracked, ∀ x, GV.address ≤ x → x < GV.address + GV.size → GV'.Fills x →
    GV'.entry addrOf = GV.entry addrOf

/-! The updates. -/

theorem interestingType_iff (t : Ty) : interestingType t = true ↔ (getStructLayout t).isSome := by
  induction t using Ty.ind with
  | scalar s a => simp [interestingType, getStructLayout]
  | opaqueStruct n => simp [interestingType, getStructLayout]
  | struct n p es _ => simp [interestingType, getStructLayout]
  | array n e ih => simp [interestingType, getStructLayout, ih]

section Update

variable {pageTable : PageTable} {addrOf : String → Nat} {R L M : Nat} {GV : GlobalVariable}

theorem exists_target {globals : List GlobalVariable} (h : GV ∈ trackedGlobals globals) :
    ∃ E c, GV.update.target = some (E, c) ∧ GV.size = c * E.ty.allocSize := by
  have hinteresting : interestingType GV.valueType = true := by
    have := (List.mem_filter.mp h).2
    simp only [decide_eq_true_eq] at this
    exact this.2
  obtain ⟨node, hnode⟩ := Option.isSome_iff_exists.mp ((interestingType_iff _).mp hinteresting)
  have hsize := (getStructLayout_size hnode).2
  have hlayout : getStructLayout GV.update.allocationType = some node := hnode
  refine ⟨node.element, node.count, ?_, hsize⟩
  rw [MetallocUpdate.target, hlayout]
  simp [GlobalVariable.update, createArrayNode_eq, TypeNode.element, TypeNode.count]

variable (addrOf) in
theorem exists_metadata {globals : List GlobalVariable} (h : GV ∈ trackedGlobals globals) :
    ∃ data, GV.metadata addrOf = some data := by
  obtain ⟨E, c, htarget, -⟩ := exists_target h
  rw [GlobalVariable.metadata, htarget]
  exact ⟨_, rfl⟩

theorem filledBytes_eq_size {E : StructType} {c : Nat} (hsize : GV.size = c * E.ty.allocSize) :
    GV.update.filledBytes E c = GV.size := by
  rw [MetallocUpdate.filledBytes]
  split
  · rfl
  · rw [hsize, Nat.mul_comm]

theorem slotCount_eq_slots {E : StructType} {c : Nat} (h : GV.update.target = some (E, c))
    (hsize : GV.size = c * E.ty.allocSize) : GV.update.slotCount E c 3 = GV.slots := by
  have hfilled := filledBytes_eq_size hsize
  have hal : GV.update.alignment = 3 := rfl
  simp only [MetallocUpdate.slotCount, GlobalVariable.slots, h, Option.elim, hfilled, hal]
  by_cases hc : c = 0
  · rw [hc, Nat.zero_mul] at hsize
    simp [hc, hsize, granules]
  · simp [hc]

/-- The update of a global fills the slots from that of its first byte on. -/
structure Updates (pageTable : PageTable) (addrOf : String → Nat) (R L : Nat) (GV : GlobalVariable)
    (entry : Nat × Nat) : Prop where
  entry_eq : GV.entry addrOf = some entry
  lookup : ∃ stores, GV.update.stores pageTable addrOf GV.address = some stores ∧
    ∀ mem x, R ≤ x → x < R + L → lookupMetadata (writes mem stores) pageTable x =
      if GV.Fills x then some entry else lookupMetadata mem pageTable x

variable (hreg : Registered pageTable R L M 3) (hend : R + L ≤ 2 ^ 48)
include hreg hend

theorem exists_updates {globals : List GlobalVariable} (h : GV ∈ trackedGlobals globals)
    (hlo : R ≤ GV.address) (hlt : GV.address < R + L) (hhi : GV.address + GV.size ≤ R + L) :
    ∃ entry, Updates pageTable addrOf R L GV entry := by
  obtain ⟨E, c, htarget, hsize⟩ := exists_target h
  have hslots := slotCount_eq_slots htarget hsize
  have hfilled := filledBytes_eq_size hsize
  have hstores := MetallocUpdate.stores_eq_slotCount (a := 3) addrOf htarget (by omega) (by decide)
    (Or.inl rfl) (hreg.fields hlo hlt).2
  have hR : 8 ∣ R := Dvd.dvd.trans (by decide) hreg.start_page
  have hL : 8 ∣ L := Dvd.dvd.trans (by decide) hreg.size_page
  have hle : GV.slots ≤ max 1 (granules GV.size 3) := by
    simp only [GlobalVariable.slots, htarget, Option.elim]
    split <;> omega
  have hfits : (GV.address - R) / 2 ^ 3 + GV.slots ≤ granules L 3 := by
    simp only [granules] at hle ⊢
    omega
  refine ⟨_, by rw [GlobalVariable.entry, htarget]; rfl, _, hstores, ?_⟩
  intro mem x hx hxL
  rw [hslots]
  have hiff : GV.Fills x ↔
      (GV.address - R) / 2 ^ 3 ≤ (x - R) / 2 ^ 3 ∧
        (x - R) / 2 ^ 3 < (GV.address - R) / 2 ^ 3 + GV.slots := by
    rw [GlobalVariable.Fills]
    omega
  simp only [hiff]
  split
  · rename_i hmem
    exact lookup_slots_of_mem hreg hlo hlt hfits hx hxL hmem.1 hmem.2
  · rename_i hnot
    exact lookup_slots_of_not_mem hreg hlo hlt hfits hx hxL hnot

/-! The constructor. -/

variable {globals : List GlobalVariable}
  (hregion : ∀ GV ∈ trackedGlobals globals,
    R ≤ GV.address ∧ GV.address < R + L ∧ GV.address + GV.size ≤ R + L)
include hregion

variable (addrOf) in
/-- Every address keeps what the last update of its granule writes. -/
theorem initGlobalObject_eq {order : List GlobalVariable} (horder : order ⊆ trackedGlobals globals)
    (mem : Memory) :
    ∃ mem', initGlobalObject pageTable addrOf order mem = some mem' ∧ ∀ x, R ≤ x → x < R + L →
      lookupMetadata mem' pageTable x =
        afterWrites (fun GV : GlobalVariable => GV.Fills x)
          (fun GV => (GV.entry addrOf).getD (0, 0)) order (lookupMetadata mem pageTable x) := by
  induction order generalizing mem with
  | nil => exact ⟨mem, rfl, fun x _ _ => rfl⟩
  | cons GV order ih =>
    obtain ⟨hGV, horder⟩ := List.cons_subset.mp horder
    obtain ⟨hlo, hlt, hhi⟩ := hregion GV hGV
    obtain ⟨entry, hentry, stores, hstores, hlookup⟩ :
        ∃ entry, Updates pageTable addrOf R L GV entry :=
      exists_updates hreg hend hGV hlo hlt hhi
    obtain ⟨mem', hrun, hmem'⟩ := ih horder (writes mem stores)
    refine ⟨mem', ?_, fun x hx hxL => ?_⟩
    · rw [initGlobalObject, List.foldlM_cons, hstores]
      exact hrun
    · rw [hmem' x hx hxL, hlookup mem x hx hxL, afterWrites, afterWrites, List.foldl_cons, hentry]
      rfl

/-- The globals keep their metadata just where each granule that holds a byte of one is filled, and
filled with that metadata only. -/
theorem keepsMetadata_iff_agree : KeepsMetadata pageTable addrOf globals ↔
    ∀ GV ∈ trackedGlobals globals, ∀ x, GV.address ≤ x → x < GV.address + GV.size →
      (∃ GV' ∈ trackedGlobals globals, GV'.Fills x) ∧
      ∀ GV' ∈ trackedGlobals globals, GV'.Fills x → GV'.entry addrOf = GV.metadata addrOf := by
  have hentry (GV' : GlobalVariable) (h : GV' ∈ trackedGlobals globals) (v : Nat × Nat) :
      (GV'.entry addrOf).getD (0, 0) = v ↔ GV'.entry addrOf = some v := by
    obtain ⟨E, c, htarget, -⟩ := exists_target h
    simp [GlobalVariable.entry, htarget]
  constructor
  · intro hkeeps GV hGV x hx hxs
    obtain ⟨data, hmetadata⟩ := exists_metadata addrOf hGV
    obtain ⟨hlo, hlt, hhi⟩ := hregion GV hGV
    rw [hmetadata]
    -- a run on a memory that holds nothing leaves only what the updates write
    have hlast := afterWrites_perm_iff.mp fun order horder => by
      obtain ⟨mem', hrun, hlookup⟩ := hkeeps (fun _ => none) order horder
      obtain ⟨mem'', hrun', hafter⟩ :=
        initGlobalObject_eq addrOf hreg hend hregion horder.subset fun _ => none
      cases hrun.symm.trans hrun'
      exact (hafter x (by omega) (by omega)).symm.trans
        ((hlookup GV hGV x hx hxs).trans hmetadata)
    exact ⟨hlast.1, fun GV' hGV' hhits => (hentry GV' hGV' _).mp (hlast.2 GV' hGV' hhits)⟩
  · intro hagree mem order horder
    obtain ⟨mem', hrun, hafter⟩ :=
      initGlobalObject_eq addrOf hreg hend hregion horder.subset mem
    refine ⟨mem', hrun, ?_⟩
    intro GV hGV x hx hxs
    obtain ⟨hlo, hlt, hhi⟩ := hregion GV hGV
    obtain ⟨⟨GV₀, hGV₀, hhits₀⟩, hall⟩ := hagree GV hGV x hx hxs
    obtain ⟨data, hmetadata⟩ := exists_metadata addrOf hGV
    rw [hmetadata] at hall ⊢
    rw [hafter x (by omega) (by omega)]
    exact afterWrites_of_agree
      (fun GV' hGV' hhits => (hentry GV' (horder.subset hGV') _).mpr
        (hall GV' (horder.subset hGV') hhits))
      (Or.inl ⟨GV₀, horder.symm.subset hGV₀, hhits₀⟩)

end Update

/-! Where the updates reach. -/

section Geometry

variable {addrOf : String → Nat} {GV GV' : GlobalVariable} {globals : List GlobalVariable}

theorem entry_eq_metadata (h : ∀ E c, GV.update.target = some (E, c) → E.name ≠ none) :
    GV.entry addrOf = GV.metadata addrOf := by
  rw [GlobalVariable.entry, GlobalVariable.metadata]
  cases htarget : GV.update.target with
  | none => rfl
  | some target =>
    obtain ⟨E, c⟩ := target
    have hname := h E c htarget
    simp [MetallocUpdate.ptrToStore, hname]

/-- The pair of a global that is not at address 0 has its address only if its struct has a name. -/
theorem identified_of_entry {base : Nat} {w : Nat} (hbase : 0 < base)
    (h : GV.entry addrOf = some (base, w)) :
    GV.address = base ∧ ∀ E c, GV.update.target = some (E, c) → E.name ≠ none := by
  obtain ⟨⟨E, c⟩, htarget, heq⟩ := Option.map_eq_some_iff.mp h
  have hptr : MetallocUpdate.ptrToStore E GV.address = base := congrArg Prod.fst heq
  rw [MetallocUpdate.ptrToStore] at hptr
  split at hptr
  · omega
  · rename_i hname
    refine ⟨hptr, ?_⟩
    intro E' c' htarget'
    cases htarget.symm.trans htarget'
    exact hname

theorem slots_eq (h : GV ∈ trackedGlobals globals) (hs : 0 < GV.size) :
    GV.slots = granules GV.size 3 := by
  obtain ⟨E, c, htarget, hsize⟩ := exists_target h
  have hc : c ≠ 0 := by
    rintro rfl
    omega
  have hpos := granules_pos (a := 3) hs
  simp only [GlobalVariable.slots, htarget, Option.elim, if_neg hc]
  omega

theorem slots_le_one (hs : GV.size = 0) : GV.slots ≤ 1 := by
  rw [GlobalVariable.slots, hs]
  cases GV.update.target with
  | none => exact Nat.zero_le 1
  | some target =>
    simp only [Option.elim]
    split <;> simp [granules]

theorem fills_of_covered (h : GV ∈ trackedGlobals globals)
    (hcovered : GV.address % 8 + GV.size ≤ 8 * granules GV.size 3) {x : Nat}
    (hx : GV.address ≤ x) (hxs : x < GV.address + GV.size) : GV.Fills x := by
  rw [GlobalVariable.Fills, slots_eq h (by omega)]
  omega

theorem fills_self (h : GV ∈ trackedGlobals globals) (hs : 0 < GV.size) :
    GV.Fills GV.address := by
  have hpos := granules_pos (a := 3) hs
  rw [GlobalVariable.Fills, slots_eq h hs]
  omega

/-- A global's last byte is in a granule that its own update fills, if any update with the global's
base fills it. -/
theorem covered_of_fills (h : GV ∈ trackedGlobals globals) (hs : 0 < GV.size)
    (hapart : GV' ≠ GV → GV'.Apart GV) (hbase : GV'.address = GV.address)
    (hfills : GV'.Fills (GV.address + GV.size - 1)) :
    GV.address % 8 + GV.size ≤ 8 * granules GV.size 3 := by
  have hpos := granules_pos (a := 3) hs
  have hslots : GV'.slots ≤ granules GV.size 3 := by
    by_cases heq : GV' = GV
    · rw [heq, slots_eq h hs]
    · have hempty : GV'.size = 0 := by
        by_contra hne
        exact hapart heq GV'.address (Nat.le_refl _) (by omega) ⟨by omega, by omega⟩
      exact Nat.le_trans (slots_le_one hempty) hpos
  have hlast := hfills.2
  omega

end Geometry

/-- The globals keep their metadata if, and only if, those that have bytes are undisturbed. -/
theorem keepsMetadata_iff {pageTable pageTable' : PageTable} {R L M : Nat}
    {addrOf : String → Nat} {globals : List GlobalVariable}
    (hR : METALLOC_PAGESIZE ∣ R) (hpos : 0 < R) (hend : R + L ≤ 2 ^ 48)
    (hM : M ≠ 0) (hmeta : M + granules L 3 * 16 ≤ 2 ^ 48)
    (hset : setMetapagetableEntries pageTable R L M 3 = some pageTable')
    (hregion : ∀ GV ∈ trackedGlobals globals,
      R ≤ GV.address ∧ GV.address < R + L ∧ GV.address + GV.size ≤ R + L)
    (hapart : (trackedGlobals globals).Pairwise GlobalVariable.Apart) :
    KeepsMetadata pageTable' addrOf globals ↔
      ∀ GV ∈ trackedGlobals globals, 0 < GV.size →
        GV.Undisturbed addrOf (trackedGlobals globals) := by
  have hreg := mappedBelow_of_set hR (by decide) hM hmeta hset
  rw [keepsMetadata_iff_agree hreg hend hregion]
  refine forall₂_congr fun GV hGV => ⟨fun hagree hs => ?_, fun hundisturbed x hx hxs => ?_⟩
  · obtain ⟨E, c, htarget, -⟩ := exists_target hGV
    obtain ⟨hlo, -⟩ := hregion GV hGV
    have hmetadata : GV.metadata addrOf = some (GV.address,
        MetallocUpdate.typeInfoPtrInt addrOf E c) := by
      rw [GlobalVariable.metadata, htarget]
      rfl
    have hself := (hagree GV.address (Nat.le_refl _) (by omega)).2 GV hGV (fills_self hGV hs)
    have hidentified := (identified_of_entry (by omega) (hself.trans hmetadata)).2
    refine ⟨hidentified, ?_, fun GV' hGV' x hx hxs hfills => ?_⟩
    · obtain ⟨⟨GV', hGV', hfills⟩, hall⟩ :=
        hagree (GV.address + GV.size - 1) (by omega) (by omega)
      have hbase := (identified_of_entry (by omega)
        ((hall GV' hGV' hfills).trans hmetadata)).1
      exact covered_of_fills hGV hs (fun hne => hapart.forall hGV' hGV hne) hbase hfills
    · rw [(hagree x hx hxs).2 GV' hGV' hfills, entry_eq_metadata hidentified]
  · obtain ⟨hidentified, hcovered, halone⟩ := hundisturbed (by omega)
    refine ⟨⟨GV, hGV, fills_of_covered hGV hcovered hx hxs⟩, ?_⟩
    intro GV' hGV' hfills
    rw [halone GV' hGV' x hx hxs hfills, entry_eq_metadata hidentified]

/-! Globals of 4 and of 12 bytes. -/

namespace SmallGlobals

def A : StructType := ⟨some "trackedtype.A", false, [.scalar 4 2]⟩

def B : StructType := ⟨some "trackedtype.B", false, [.scalar 4 2, .scalar 4 2, .scalar 4 2]⟩

def a : GlobalVariable := ⟨"a", A.ty, 0x601004⟩

/-- In the granules behind that of `a`. -/
def b : GlobalVariable := ⟨"b", B.ty, 0x601008⟩

/-- In the granule of `a`. -/
def c : GlobalVariable := ⟨"c", A.ty, 0x601000⟩

def addrOf (name : String) : Nat := if name = A.typeInfoName then 0x400000 else 0x400100

def pageTable : PageTable := setEntries (fun _ => 0) 0x601 0x7f0000000000 3 1

theorem apart (GV GV' : GlobalVariable)
    (h : GV.address + GV.size ≤ GV'.address ∨ GV'.address + GV'.size ≤ GV.address) :
    GV.Apart GV' := by
  intro x hx hxs hGV'
  omega

end SmallGlobals

open SmallGlobals

theorem keepsMetadata_of_own_granules : KeepsMetadata pageTable addrOf [a, b] := by
  refine (@keepsMetadata_iff (fun _ => 0) _ 0x601000 0x1000 0x7f0000000000 _ _ (by decide)
    (by decide) (by decide) (by decide) (by decide) rfl (by decide) ?_).mpr ?_
  · exact List.pairwise_pair.mpr (apart a b (by decide))
  · have ha : a.update.target = some (A, 1) ∧ a.size = 4 ∧ a.slots = 1 := by decide
    have hb : b.update.target = some (B, 1) ∧ b.size = 12 ∧ b.slots = 2 := by decide
    have hstart : a.address = 0x601004 ∧ b.address = 0x601008 := by decide
    intro GV hGV _
    rcases List.mem_pair.mp (List.mem_of_mem_filter hGV) with rfl | rfl
    · refine ⟨fun E c h => ?_, by decide, fun GV' hGV' x hx hxs hfills => ?_⟩
      · cases ha.1.symm.trans h
        decide
      · rcases List.mem_pair.mp (List.mem_of_mem_filter hGV') with rfl | rfl
        · rfl
        · have hfirst := hfills.1
          omega
    · refine ⟨fun E c h => ?_, by decide, fun GV' hGV' x hx hxs hfills => ?_⟩
      · cases hb.1.symm.trans h
        decide
      · rcases List.mem_pair.mp (List.mem_of_mem_filter hGV') with rfl | rfl
        · have hlast := hfills.2
          omega
        · rfl

theorem keepsMetadata_fails_in_shared_granule :
    ¬ ∀ (pageTable pageTable' : PageTable) (R L M : Nat) (addrOf : String → Nat)
        (globals : List GlobalVariable), METALLOC_PAGESIZE ∣ R → 0 < R → R + L ≤ 2 ^ 48 → M ≠ 0 →
      M + granules L 3 * 16 ≤ 2 ^ 48 →
      setMetapagetableEntries pageTable R L M 3 = some pageTable' →
      (∀ GV ∈ trackedGlobals globals,
        R ≤ GV.address ∧ GV.address < R + L ∧ GV.address + GV.size ≤ R + L) →
      (∀ GV ∈ trackedGlobals globals, GV.valueType.abiAlignment ∣ GV.address) →
      (trackedGlobals globals).Pairwise GlobalVariable.Apart →
      KeepsMetadata pageTable' addrOf globals := by
  intro hall
  have hregion : ∀ GV ∈ trackedGlobals [c, a], 0x601000 ≤ GV.address ∧
      GV.address < 0x601000 + 0x1000 ∧ GV.address + GV.size ≤ 0x601000 + 0x1000 := by decide
  have hkeeps := hall (fun _ => 0) pageTable 0x601000 0x1000 0x7f0000000000 addrOf [c, a]
    (by decide) (by decide) (by decide) (by decide) (by decide) rfl hregion (by decide)
    (List.pairwise_pair.mpr (apart c a (by decide)))
  have hreg : Registered pageTable 0x601000 0x1000 0x7f0000000000 3 :=
    @mappedBelow_of_set (fun _ => 0) _ _ _ _ _ _ (by decide) (by decide) (by decide) (by decide) rfl
  have hagree := (keepsMetadata_iff_agree hreg (by decide) hregion).mp hkeeps
  -- at the address of `c` the update of `a` writes its own pair
  have hpair := (hagree c (by decide) c.address (Nat.le_refl _) (by decide)).2 a (by decide)
    (by decide)
  exact absurd hpair (by decide)

end TypeSan
