import TypeSan.FlatMap
import TypeSan.MmapHooks
import TypeSan.UpdateMetalloc

/-! Updates at the limits: objects of no bytes, pages with the sentinel, and null pointers. -/
namespace TypeSan

open Runs WordMemory

theorem sentinelEntry_and (sentinel : Nat) : sentinelEntry sentinel &&& 0xFF = 63 := by
  rw [sentinelEntry, Nat.shiftLeft_eq, Nat.mul_comm, ← Nat.two_pow_add_eq_or_of_lt (by decide),
    show 0xFF = 2 ^ 8 - 1 from rfl, Nat.and_two_pow_sub_one_eq_mod, Nat.mul_add_mod]

/-- The call is not for page 0. -/
def SetCall.SparesZero (call : SetCall) : Prop :=
  METALLOC_PAGESIZE ≤ call.ptr ∨ call.size = 0

instance (call : SetCall) : Decidable call.SparesZero := inferInstanceAs (Decidable (_ ∨ _))

theorem SetCall.SparesZero.misses {call : SetCall} (h : call.SparesZero) : call.Misses 0 := by
  rintro ⟨address, hlo, hhi, hpage⟩
  rw [Nat.zero_div, Nat.div_eq_zero_iff_lt (by decide)] at hpage
  rcases h with hptr | hsize <;> omega

/-- Calls for other pages leave the entry of page 0 as it was. -/
theorem run_page_zero {pageTable pageTable' : PageTable} {calls : List SetCall}
    (hcalls : ∀ call ∈ calls, call.SparesZero)
    (h : exec SetCall.step pageTable calls = some pageTable') : pageTable' 0 = pageTable 0 := by
  have hentry := SetCall.exec_frame (fun call hcall => (hcalls call hcall).misses) h
  simpa only [getMetapagetableEntry, Nat.zero_div] using hentry

namespace MetallocUpdate

variable {u : MetallocUpdate} {E : StructType} {c : Nat} {pageTable : PageTable}
  {addrOf : String → Nat} {p : Nat}

/-- `structNode->size * count`, of 64 bits. -/
def bytes (E : StructType) (c : Nat) : Nat := E.ty.allocSize * c % 2 ^ 64

/-- `alignmentOffset` -/
def alignmentOffset (alignment : Nat) : Nat := ((1 <<< alignment) + (2 ^ 64 - 1)) % 2 ^ 64

/-- `constantSize`, the slots that an inlined update is for. -/
def constantSize (alignment : Nat) (E : StructType) (c : Nat) : Nat :=
  ((bytes E c + alignmentOffset alignment) % 2 ^ 64) >>> alignment

/-- `metadataSize`, the slots that the helper is called for, where the count is a constant. -/
def metadataSize (alignment : Nat) (E : StructType) (c : Nat) : Nat :=
  ((bytes E c + alignmentOffset alignment) % 2 ^ 64 &&& (2 ^ 63 - 1)) >>> alignment

/-- `metadataPtr`, with the granules of a constant exponent. -/
def constantMetadataPtr (pageTable : PageTable) (alignment p : Nat) : Nat :=
  pageTable (p >>> METALLOC_PAGESHIFT) >>> 8 +
    8 * (((p &&& ((1 <<< METALLOC_PAGESHIFT) - 1)) >>> alignment) <<< 1)

/-- The stores are inlined. -/
def Inlined (u : MetallocUpdate) (E : StructType) (c : Nat) : Prop :=
  c ≠ 0 ∧ u.alignment ≠ 0 ∧ constantSize u.alignment E c ≤ 16

/-- The call of `metalloc_widememset` that is made where the stores are not inlined. -/
def helperStores (u : MetallocUpdate) (pageTable : PageTable) (addrOf : String → Nat) (p : Nat)
    (E : StructType) (c : Nat) : List Store :=
  metallocWidememset (constantMetadataPtr pageTable u.alignment p) (metadataSize u.alignment E c)
    (ptrToStore E p) (typeInfoPtrInt addrOf E c)

/-! Inlined stores. -/

theorem stores_inlined (h : u.target = some (E, c)) (hin : u.Inlined E c) :
    u.stores pageTable addrOf p = some (metallocWidememset
      (constantMetadataPtr pageTable u.alignment p) (max 1 (constantSize u.alignment E c))
      (ptrToStore E p) (typeInfoPtrInt addrOf E c)) := by
  simp only [stores, h, Option.map_some, if_pos hin.2.1]
  refine congrArg some ?_
  rw [← inline_stores]
  exact if_pos hin

/-- The slots of a short block are all different. -/
theorem writes_widememset_none {base n value1 value2 i : Nat} (hi : n ≤ i ∧ i ≤ 16) :
    writes (fun _ => none) (metallocWidememset base n value1 value2) ((base + 16 * i) % 2 ^ 64) =
      none := by
  apply writes_of_forall_ne
  intro s hs
  obtain ⟨j, hj, rfl | rfl⟩ := mem_metallocWidememset.mp hs <;> simp only <;> omega

theorem writes_widememset_some {base n value1 value2 i : Nat} (hi : i < n ∧ n ≤ 16) :
    writes (fun _ => none) (metallocWidememset base n value1 value2) ((base + 16 * i) % 2 ^ 64) =
      some value1 := by
  apply writes_of_mem (mem_metallocWidememset.mpr ⟨i, hi.1, Or.inl rfl⟩)
  intro s hs heq
  obtain ⟨j, hj, rfl | rfl⟩ := mem_metallocWidememset.mp hs
  · rfl
  · simp only at heq
    omega

/-- Two short blocks at one place leave the same in every memory if they are equally long. -/
theorem widememset_agree_iff {base n n' value1 value2 : Nat} (hn : n ≤ 16) (hle : n' ≤ n) :
    (∀ mem, writes mem (metallocWidememset base n value1 value2) =
      writes mem (metallocWidememset base n' value1 value2)) ↔ n' = n := by
  constructor
  · intro hagree
    by_contra hne
    have hlt : n' < n := Nat.lt_of_le_of_ne hle hne
    have hlast := congrFun (hagree fun _ => none) ((base + 16 * n') % 2 ^ 64)
    rw [writes_widememset_some ⟨hlt, hn⟩,
      writes_widememset_none ⟨Nat.le_refl n', by omega⟩] at hlast
    cases hlast
  · rintro rfl mem
    rfl

/-- Rounded up to granules, a size has as many of them with the mask as without it, and at least
one, if there is anything to round up and the mask takes nothing away. -/
theorem granules_masked_iff {n alignment : Nat} (hn : n < 2 ^ 64) :
    (n + (2 ^ alignment + (2 ^ 64 - 1)) % 2 ^ 64) % 2 ^ 64 % 2 ^ 63 / 2 ^ alignment =
        max 1 ((n + (2 ^ alignment + (2 ^ 64 - 1)) % 2 ^ 64) % 2 ^ 64 / 2 ^ alignment) ↔
      0 < n ∧ n + 2 ^ alignment ≤ 2 ^ 63 := by
  have hpos := Nat.two_pow_pos alignment
  rcases Nat.lt_or_ge alignment 63 with hal | hal
  · have hle : 2 ^ alignment ≤ 2 ^ 62 := Nat.pow_le_pow_right (by omega) (by omega)
    obtain ⟨r, hr⟩ : 2 ^ alignment ∣ 2 ^ 63 := Nat.pow_dvd_pow 2 (Nat.le_of_lt hal)
    generalize 2 ^ alignment = q at *
    rw [show (q + (2 ^ 64 - 1)) % 2 ^ 64 = q - 1 by omega]
    have hsum : (n + (q - 1)) % 2 ^ 64 < 2 ^ 64 := Nat.mod_lt _ (by decide)
    generalize hS : (n + (q - 1)) % 2 ^ 64 = S at *
    constructor
    · intro heq
      have hlt : S < 2 ^ 63 := by
        by_contra hge
        -- the mask takes `r` granules away
        have hmask : S % 2 ^ 63 = S - 2 ^ 63 := by omega
        have hdiv : S / q = (S - 2 ^ 63) / q + r := by
          rw [← Nat.add_mul_div_left _ _ hpos, ← hr, Nat.sub_add_cancel (by omega)]
        have hrpos : 0 < r := Nat.pos_of_mul_pos_left (hr ▸ Nat.two_pow_pos 63)
        rw [hmask] at heq
        omega
      rw [Nat.mod_eq_of_lt hlt] at heq
      have hone : q * 1 ≤ S := by
        refine (Nat.mul_le_mul_left q (heq ▸ Nat.le_max_left 1 _)).trans (Nat.mul_div_le S q)
      omega
    · rintro ⟨hn0, hfit⟩
      have hS' : S = n + (q - 1) := by omega
      rw [Nat.mod_eq_of_lt (by omega)]
      exact (Nat.max_eq_right ((Nat.le_div_iff_mul_le hpos).mpr (by omega))).symm
  · have hle : 2 ^ 63 ≤ 2 ^ alignment := Nat.pow_le_pow_right (by omega) hal
    have hmask := Nat.mod_lt
      ((n + (2 ^ alignment + (2 ^ 64 - 1)) % 2 ^ 64) % 2 ^ 64) (Nat.two_pow_pos 63)
    rw [Nat.div_eq_of_lt (Nat.lt_of_lt_of_le hmask hle)]
    omega

theorem metadataSize_eq_iff {alignment : Nat} :
    metadataSize alignment E c = max 1 (constantSize alignment E c) ↔
      0 < bytes E c ∧ bytes E c + 2 ^ alignment ≤ 2 ^ 63 := by
  simp only [metadataSize, constantSize, alignmentOffset, Nat.and_two_pow_sub_one_eq_mod,
    Nat.shiftRight_eq_div_pow, Nat.one_shiftLeft]
  exact granules_masked_iff (Nat.mod_lt _ (Nat.two_pow_pos 64))

/-- Inlined stores leave what the call of the helper would leave, in every memory, if the object has
bytes and can be rounded up. -/
theorem inline_agrees_iff (pageTable : PageTable) (addrOf : String → Nat) (p : Nat)
    (h : u.target = some (E, c)) (hin : u.Inlined E c) :
    ∃ stores, u.stores pageTable addrOf p = some stores ∧
      ((∀ mem, writes mem stores = writes mem (u.helperStores pageTable addrOf p E c)) ↔
        0 < bytes E c ∧ bytes E c + 2 ^ u.alignment ≤ 2 ^ 63) := by
  refine ⟨_, stores_inlined h hin, ?_⟩
  rw [← metadataSize_eq_iff]
  refine widememset_agree_iff (Nat.max_le.mpr ⟨by decide, hin.2.2⟩) ?_
  have hle : metadataSize u.alignment E c ≤ constantSize u.alignment E c := by
    simp only [metadataSize, constantSize, Nat.and_two_pow_sub_one_eq_mod,
      Nat.shiftRight_eq_div_pow]
    exact Nat.div_le_div_right (Nat.mod_le _ _)
  exact hle.trans (Nat.le_max_right 1 _)

/-- A global of 12 bytes. -/
theorem inline_agrees_of_two_granules :
    let E : StructType := ⟨some "trackedtype.A", false, [.scalar 8 3, .scalar 4 2]⟩
    let u : MetallocUpdate := ⟨E.ty, 3, 1, 16⟩
    ∃ stores, u.stores (fun _ => 0) (fun _ => 64) 0x601000 = some stores ∧
      ∀ mem, writes mem stores = writes mem (u.helperStores (fun _ => 0) (fun _ => 64) 0x601000 E 1)
      := by
  intro E u
  obtain ⟨stores, hstores, hiff⟩ := @inline_agrees_iff u E 1 (fun _ => 0) (fun _ => 64) 0x601000 rfl
    ⟨by decide, by decide, by decide⟩
  exact ⟨stores, hstores, hiff.mpr (by decide)⟩

/-- The empty struct of a C file has no bytes, and its first slot is filled all the same. -/
theorem inline_agrees_fails_for_no_bytes :
    ¬ ∀ (u : MetallocUpdate) (E : StructType) (c : Nat) (pageTable : PageTable)
      (addrOf : String → Nat) (p : Nat), u.target = some (E, c) → u.Inlined E c →
      ∃ stores, u.stores pageTable addrOf p = some stores ∧
        ∀ mem, writes mem stores = writes mem (u.helperStores pageTable addrOf p E c) := by
  intro hall
  obtain ⟨stores, hstores, hagree⟩ := hall
    ⟨.struct (some "struct.empty") false [], 3, 1, 0⟩ ⟨some "struct.empty", false, []⟩ 1
    (fun _ => 0x70000000) (fun _ => 64) 0x601000 rfl ⟨by decide, by decide, by decide⟩
  cases hstores
  have hword := congrFun (hagree fun _ => none) 0x700000
  revert hword
  decide

/-! Updates with the exponent of the page-table entry. -/

/-- The slots that such an update is for. -/
def entrySlots (u : MetallocUpdate) (alignment : Nat) (E : StructType) (c : Nat) : Nat :=
  if c = 0 then ((u.size + alignmentOffset alignment) % 2 ^ 64) >>> alignment
  else metadataSize alignment E c

theorem stores_of_entry (h : u.target = some (E, c)) (hal : u.alignment = 0) {alignment : Nat}
    (hentry : pageTable (p / METALLOC_PAGESIZE) &&& 0xFF = alignment) :
    u.stores pageTable addrOf p = some (metallocWidememset
      (constantMetadataPtr pageTable alignment p) (u.entrySlots alignment E c)
      (ptrToStore E p) (typeInfoPtrInt addrOf E c)) := by
  subst hentry
  have hpage : p >>> METALLOC_PAGESHIFT = p / METALLOC_PAGESIZE := Nat.shiftRight_eq_div_pow _ _
  simp only [stores, h, Option.map_some, hal, ne_eq, not_true, if_false, false_and, and_false,
    constantMetadataPtr, hpage]
  rfl

theorem metallocWidememset_eq_nil {base n value1 value2 : Nat} :
    metallocWidememset base n value1 value2 = [] ↔ n = 0 := by
  cases n <;> simp [metallocWidememset, slotStores, List.range_succ]

theorem no_stores_iff (h : u.target = some (E, c)) (hal : u.alignment = 0) {alignment : Nat}
    (hentry : pageTable (p / METALLOC_PAGESIZE) &&& 0xFF = alignment) :
    u.stores pageTable addrOf p = some [] ↔ u.entrySlots alignment E c = 0 := by
  rw [stores_of_entry h hal hentry, Option.some.injEq, metallocWidememset_eq_nil]

/-! The entries of sentinel pages. -/

theorem entrySlots_sentinel (hsize : u.size < 2 ^ 63) :
    u.entrySlots 63 E c = 0 ↔ c ≠ 0 ∨ u.size = 0 := by
  rw [entrySlots]
  split
  · rename_i hc
    have hoffset : alignmentOffset 63 = 2 ^ 63 - 1 := by decide
    rw [hoffset, Nat.shiftRight_eq_div_pow]
    omega
  · rename_i hc
    have hmask := Nat.mod_lt ((bytes E c + alignmentOffset 63) % 2 ^ 64) (Nat.two_pow_pos 63)
    rw [metadataSize, Nat.and_two_pow_sub_one_eq_mod, Nat.shiftRight_eq_div_pow,
      Nat.div_eq_of_lt hmask]
    simp [hc]

/-- An update for an object in a page with the sentinel's entry stores nothing if the count is a
constant, or there are no bytes. -/
theorem sentinel_unwritten_iff (addrOf : String → Nat) {sentinel : Nat}
    (hentry : pageTable (p / METALLOC_PAGESIZE) = sentinelEntry sentinel)
    (h : u.target = some (E, c)) (hal : u.alignment = 0) (hsize : u.size < 2 ^ 63) :
    u.stores pageTable addrOf p = some [] ↔ c ≠ 0 ∨ u.size = 0 := by
  have hbyte : pageTable (p / METALLOC_PAGESIZE) &&& 0xFF = 63 := by
    rw [hentry, sentinelEntry_and]
  rw [no_stores_iff h hal hbyte, entrySlots_sentinel hsize]

/-- An object of a constant count of 3. -/
theorem sentinel_unwritten_of_count :
    (⟨.struct (some "trackedtype.A") false [.scalar 8 3], 0, 3, 24⟩ : MetallocUpdate).stores
      (fun _ => sentinelEntry 0x8000) (fun _ => 64) 0x10000 = some [] :=
  (@sentinel_unwritten_iff _ ⟨some "trackedtype.A", false, [.scalar 8 3]⟩ 3
    (fun _ => sentinelEntry 0x8000) 0x10000 (fun _ => 64) 0x8000 rfl rfl rfl (by decide)).mpr
    (Or.inl (by decide))

/-- An object of 24 bytes, but of no constant count. -/
theorem sentinel_unwritten_fails_at_run_time :
    ¬ ∀ (u : MetallocUpdate) (E : StructType) (c : Nat) (pageTable : PageTable)
      (addrOf : String → Nat) (p sentinel : Nat),
      pageTable (p / METALLOC_PAGESIZE) = sentinelEntry sentinel → u.target = some (E, c) →
      0 < E.ty.allocSize → u.alignment = 0 → u.size < 2 ^ 63 →
      u.stores pageTable addrOf p = some [] := by
  intro hall
  have hnil := hall ⟨.struct (some "trackedtype.A") false [.scalar 8 3], 0, 0, 24⟩
    ⟨some "trackedtype.A", false, [.scalar 8 3]⟩ 0 (fun _ => sentinelEntry 0x8000) (fun _ => 64)
    0x10000 0x8000 rfl rfl (by decide) rfl (by decide)
  revert hnil
  decide

/-! Null pointers. -/

theorem entrySlots_zero : u.entrySlots 0 E c = 0 ↔
    (c = 0 ∧ u.size % 2 ^ 64 = 0) ∨ (c ≠ 0 ∧ E.ty.allocSize * c % 2 ^ 63 = 0) := by
  have hoffset : alignmentOffset 0 = 0 := by decide
  rw [entrySlots]
  split
  · rename_i hc
    simp [hc, hoffset]
  · rename_i hc
    rw [metadataSize, hoffset, Nat.and_two_pow_sub_one_eq_mod, Nat.shiftRight_zero, Nat.add_zero,
      bytes, Nat.mod_mod, Nat.mod_mod_of_dvd _ (by decide)]
    simp [hc]

/-- The update after an allocation that failed stores nothing if it is for no bytes. -/
theorem null_unwritten_iff (addrOf : String → Nat) {calls : List SetCall}
    (hcalls : ∀ call ∈ calls, call.SparesZero)
    (hrun : exec SetCall.step (fun _ => 0) calls = some pageTable)
    (h : u.target = some (E, c)) (hal : u.alignment = 0) :
    u.stores pageTable addrOf 0 = some [] ↔
      (c = 0 ∧ u.size % 2 ^ 64 = 0) ∨ (c ≠ 0 ∧ E.ty.allocSize * c % 2 ^ 63 = 0) := by
  have hentry : pageTable (0 / METALLOC_PAGESIZE) &&& 0xFF = 0 := by
    rw [Nat.zero_div, run_page_zero hcalls hrun]
    rfl
  rw [no_stores_iff h hal hentry, entrySlots_zero]

/-- A request for no bytes, after one range has been registered. -/
theorem null_unwritten_of_no_bytes :
    ∃ pageTable, exec SetCall.step (fun _ => 0) [⟨0x10000, 0x1000, 0x7000, 3⟩] = some pageTable ∧
      (⟨.struct (some "trackedtype.A") false [.scalar 8 3], 0, 0, 0⟩ : MetallocUpdate).stores
        pageTable (fun _ => 64) 0 = some [] := by
  refine ⟨_, rfl, (@null_unwritten_iff _ ⟨some "trackedtype.A", false, [.scalar 8 3]⟩ 0 _
    (fun _ => 64) [⟨0x10000, 0x1000, 0x7000, 3⟩] (by decide) rfl rfl rfl).mpr ?_⟩
  exact Or.inl ⟨rfl, rfl⟩

/-- `malloc` for one object fails, and the update stores to address 0. -/
theorem null_unwritten_fails :
    ¬ ∀ (u : MetallocUpdate) (E : StructType) (c : Nat) (calls : List SetCall)
      (pageTable : PageTable) (addrOf : String → Nat),
      (∀ call ∈ calls, call.SparesZero) →
      exec SetCall.step (fun _ => 0) calls = some pageTable → u.target = some (E, c) →
      u.alignment = 0 → u.stores pageTable addrOf 0 = some [] := by
  intro hall
  have hnil := hall ⟨.struct (some "trackedtype.A") false [.scalar 8 3], 0, 1, 8⟩
    ⟨some "trackedtype.A", false, [.scalar 8 3]⟩ 1 [] (fun _ => 0) (fun _ => 64) (by simp) rfl rfl
    rfl
  revert hnil
  decide

end MetallocUpdate

end TypeSan
