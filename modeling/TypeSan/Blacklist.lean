import Mathlib.Data.Finset.Card
import TypeSan.CheckReads
import TypeSan.ModuleTables

/-! Objects of blacklisted types. Their table has a size word and an end mark, nothing else. -/
namespace TypeSan

open WordMemory

/-- The byte lies in an array element of a blacklisted type. -/
inductive InBlacklisted : Ty → Nat → Prop
  | here {n j k} {B : StructType} (hB : B.isBlacklisted = true) (hj : j < n)
      (hk : k < B.ty.allocSize) : InBlacklisted (.array n B.ty) (j * B.ty.allocSize + k)
  | member {n p es i k} (hi : i < es.length) (h : InBlacklisted es[i] k) :
      InBlacklisted (.struct n p es) ((getLayout p es).getElementOffset i + k)
  | element {n e j k} (hj : j < n) (h : InBlacklisted e k) :
      InBlacklisted (.array n e) (j * e.allocSize + k)

/-- The byte of an object is one of a blacklisted type: the object is, or the array element in a
tracked type that holds the byte. -/
def BlacklistedAt (E : StructType) (k : Nat) : Prop :=
  E.isBlacklisted = true ∨ (E.isTracked = true ∧ InBlacklisted E.ty (k % E.ty.allocSize))

/-- The words that a check of a pointer may read: its metadata, and the tables of the module. -/
def checkWords (pageTable : PageTable) (addrOf : String → Nat) (globals : Globals) (ptr : Nat) :
    List Nat :=
  metadataPtr pageTable ptr :: (metadataPtr pageTable ptr + 8) ::
    globals.flatMap (tableWords addrOf)

/-- An object with the metadata that its update writes, and the tables of its module, in memory. -/
structure UpdatedObject (rt : Runtime) (addrOf : String → Nat) (requests : List StructType)
    (globals : Globals) (u : MetallocUpdate) (E : StructType) (c base : Nat) : Prop where
  tables : ModuleTables rt.mem addrOf requests globals
  target : u.target = some (E, c)
  requested : E ∈ requests
  size_lt : E.ty.allocSize < 2 ^ 63
  table_lt : addrOf E.typeInfoName + 8 < 2 ^ 64
  base_pos : 0 < base
  fits : base + u.objectSize ≤ 2 ^ 63
  metadata : ∀ k < u.objectSize, lookupMetadata rt.mem rt.pageTable (base + k) =
    some (base, MetallocUpdate.typeInfoPtrInt addrOf E c)

/-- No class has as many classes to be cast to as there are hashes. -/
def HashSetsFit (rt : Runtime) : Prop :=
  ∀ sets, rt.hashToSetMap = some sets → ∀ entry ∈ sets, entry.2.length < 2 ^ 64 - 1

/-! A table that is walked reports some class. -/

theorem exists_lt_notMem {l : List Nat} {n : Nat} (h : l.length < n) : ∃ a < n, a ∉ l := by
  have hcard : l.toFinset.card < (Finset.range n).card := by
    rw [Finset.card_range]
    exact Nat.lt_of_le_of_lt l.toFinset_card_le h
  obtain ⟨a, ha, hnot⟩ := Finset.exists_mem_notMem_of_card_lt_card hcard
  exact ⟨a, Finset.mem_range.mp ha, fun hmem => hnot (List.mem_toFinset.mpr hmem)⟩

section Reports

variable {rt : Runtime} (hsets : HashSetsFit rt)
include hsets

/-- The destinations that pass for a class are fewer than there are hashes. -/
theorem exists_passing (src : Nat) : ∃ passing : List Nat, passing.length < 2 ^ 64 ∧
    ∀ dst, compareHashes rt.hashToSetMap src dst = .returned → dst ∈ passing := by
  by_cases hsrc : src = 0
  · refine ⟨[], by simp, ?_⟩
    intro dst h
    simp [compareHashes, hsrc] at h
  have hequal (h : ∀ dst, src ≠ dst → compareHashes rt.hashToSetMap src dst ≠ .returned) :
      ∃ passing : List Nat, passing.length < 2 ^ 64 ∧
        ∀ dst, compareHashes rt.hashToSetMap src dst = .returned → dst ∈ passing := by
    refine ⟨[src], by simp, ?_⟩
    intro dst hdst
    by_contra hnot
    exact h dst (fun heq => hnot (by simp [heq])) hdst
  cases hmap : rt.hashToSetMap with
  | none =>
    rw [← hmap]
    exact hequal fun dst hne => by simp [compareHashes, hsrc, hne, hmap]
  | some sets =>
    rw [← hmap]
    cases hset : sets.lookup src with
    | none => exact hequal fun dst hne => by simp [compareHashes, hsrc, hne, hmap, hset]
    | some set =>
      obtain ⟨l₁, l₂, heq, -⟩ := List.lookup_eq_some_iff.mp hset
      have hlength : set.length < 2 ^ 64 - 1 := hsets sets hmap (src, set) (by simp [heq])
      refine ⟨src :: set, by rw [List.length_cons]; omega, ?_⟩
      intro dst hdst
      by_contra hnot
      obtain ⟨hne, hnot⟩ := not_or.mp (mt List.mem_cons.mpr hnot)
      simp [compareHashes, hsrc, Ne.symm hne, hmap, hset, hnot] at hdst

omit hsets in
/-- A check that returns compares a class, unless it stops at a first word of -1. -/
theorem exists_finds_of_returned {fuel typeInfo word dst : Nat} {offset : Int}
    (hword : rt.mem typeInfo = some word) (hne : word ≠ minusOne)
    (h : checkFrom rt fuel offset typeInfo dst = some .returned) :
    ∃ src, Finds rt.mem offset typeInfo src ∧
      compareHashes rt.hashToSetMap src dst = .returned := by
  simp only [checkFrom, hword, if_neg hne] at h
  obtain ⟨result, hfound, h⟩ := Option.map_eq_some_iff.mp h
  cases result with
  | fault => cases h
  | src src =>
    refine ⟨src, ⟨word, hword, ?_⟩, h⟩
    by_cases h0 : word ≠ 0
    · rw [if_pos h0] at hfound ⊢
      exact ⟨fuel, hfound⟩
    · rw [if_neg h0] at hfound ⊢
      exact ⟨fuel, hfound⟩

/-- Only a first word of -1 lets all destinations pass. -/
theorem exists_checkFrom_ne (offset : Int) {typeInfo word : Nat}
    (hword : rt.mem typeInfo = some word) (hne : word ≠ minusOne) :
    ∃ dst < 2 ^ 64, ∀ fuel, checkFrom rt fuel offset typeInfo dst ≠ some .returned := by
  by_cases hends : ∃ src, Finds rt.mem offset typeInfo src
  · obtain ⟨src, hsrc⟩ := hends
    obtain ⟨passing, hlength, hpassing⟩ := exists_passing hsets src
    obtain ⟨dst, hdst, hnot⟩ := exists_lt_notMem hlength
    refine ⟨dst, hdst, ?_⟩
    intro fuel h
    obtain ⟨src', hsrc', hcompare⟩ := exists_finds_of_returned hword hne h
    obtain rfl := hsrc.unique hsrc'
    exact hnot (hpassing dst hcompare)
  · refine ⟨0, by decide, ?_⟩
    intro fuel h
    obtain ⟨src, hsrc, -⟩ := exists_finds_of_returned hword hne h
    exact hends ⟨src, hsrc⟩

end Reports

/-! The words that a check enters a table at. -/

theorem isBlacklisted_cxx {s : StructType} (h : s.isBlacklisted = true) :
    s.name.isSome ∧ s.isNonCxx = false := by
  cases hname : s.name with
  | none => simp [StructType.isBlacklisted, hname] at h
  | some name => simp [StructType.isNonCxx, h]

/-- A name has one prefix. -/
theorem isTracked_of_isBlacklisted {s : StructType} (h : s.isBlacklisted = true) :
    s.isTracked = false := by
  cases hname : s.name with
  | none => simp [StructType.isBlacklisted, hname] at h
  | some name =>
    simp only [StructType.isBlacklisted, hname, startswith, List.isPrefixOf_iff_prefix] at h
    by_contra htracked
    simp only [StructType.isTracked, hname, startswith, Bool.not_eq_false,
      List.isPrefixOf_iff_prefix] at htracked
    rcases List.prefix_or_prefix_of_prefix h htracked with hprefix | hprefix
    · exact absurd hprefix (by decide)
    · exact absurd hprefix (by decide)

section Entry

variable {rt : Runtime} {addrOf : String → Nat} {requests : List StructType} {globals : Globals}
  {u : MetallocUpdate} {E : StructType} {c base k : Nat}
  (h : UpdatedObject rt addrOf requests globals u E c base)
include h

/-- A check of a pointer into the object finds its metadata and the table of its type. -/
theorem UpdatedObject.checkCast_eq (hk : k < u.objectSize) (fuel dst : Nat) :
    checkCast (rt.seeing (checkWords rt.pageTable addrOf globals (base + k))) fuel (base + k)
        (base + k) dst =
      checkFrom (rt.seeing (checkWords rt.pageTable addrOf globals (base + k))) fuel k
        (MetallocUpdate.typeInfoPtrInt addrOf E c) dst := by
  have hfits := h.fits
  refine checkCast_eq_checkFrom ?_ h.base_pos (by omega) fuel
  rw [← h.metadata k hk, lookupMetadata, lookupMetadata]
  simp only [Runtime.seeing]
  rw [restrict_of_mem (by simp [checkWords]), restrict_of_mem (by simp [checkWords])]

theorem UpdatedObject.holds_seeing (hname : E.name.isSome) (hcxx : E.isNonCxx = false)
    (ptr : Nat) :
    Holds (rt.seeing (checkWords rt.pageTable addrOf globals ptr)).mem (addrOf E.typeInfoName)
      (wordsOf addrOf (infoMembers E)) := by
  obtain ⟨hlookup, hwords⟩ := h.tables.own_table (mem_requestedNodes h.requested) hname hcxx
  obtain ⟨l₁, l₂, heq, -⟩ := List.lookup_eq_some_iff.mp hlookup
  apply hwords.restrict
  intro address haddress
  refine List.mem_cons_of_mem _ (List.mem_cons_of_mem _ (List.mem_flatMap.mpr ?_))
  refine ⟨(E.typeInfoName, infoMembers E), by rw [heq]; simp, ?_⟩
  rwa [wordsOf, List.length_map] at haddress

/-- The table is entered at a word other than -1, unless the object is a single blacklisted one. -/
theorem UpdatedObject.entry (hE : E.isBlacklisted = true ∨ E.isTracked = true) (ptr : Nat) :
    ∃ word, (rt.seeing (checkWords rt.pageTable addrOf globals ptr)).mem
        (MetallocUpdate.typeInfoPtrInt addrOf E c) = some word ∧
      (word = minusOne ↔ E.isBlacklisted = true ∧ c = 1) := by
  have hsize := h.size_lt
  have htable := h.table_lt
  obtain ⟨hname, hcxx⟩ : E.name.isSome ∧ E.isNonCxx = false :=
    hE.elim isBlacklisted_cxx isTracked_cxx
  have hwords := h.holds_seeing hname hcxx ptr
  have hhead : wordsOf addrOf (infoMembers E) =
      E.ty.allocSize :: (wordsOf addrOf (infoMembers E)).tail := rfl
  rw [MetallocUpdate.typeInfoPtrInt]
  by_cases hc : c = 1
  · rw [if_pos hc, Nat.mod_eq_of_lt htable]
    cases hblacklisted : E.isBlacklisted with
    | true =>
      rw [infoMembers, if_neg (by simp [isTracked_of_isBlacklisted hblacklisted]),
        if_pos hblacklisted] at hwords
      exact ⟨minusOne, hwords.tail.head, by simp [hc]⟩
    | false =>
      have htracked : E.isTracked = true := hE.resolve_left (by simp [hblacklisted])
      rw [wordsOf_infoMembers htracked, offsets_eq_cons, restWords_cons, if_neg (by simp)] at hwords
      exact ⟨0, hwords.tail.head, by simp [minusOne]⟩
  · rw [hhead] at hwords
    rw [if_neg hc]
    refine ⟨_, hwords.head, ?_⟩
    simp only [hc, and_false, iff_false, minusOne]
    omega

end Entry

/-- The bytes of blacklisted types pass every check, without a read outside the tables, if, and only
if, the object is a single one of a blacklisted type (or has no such byte). -/
theorem UpdatedObject.exempt_iff {rt : Runtime} {addrOf : String → Nat}
    {requests : List StructType} {globals : Globals} {u : MetallocUpdate} {E : StructType}
    {c base : Nat} (h : UpdatedObject rt addrOf requests globals u E c base)
    (hsets : HashSetsFit rt) :
    (∀ k < u.objectSize, BlacklistedAt E k → ∀ dst < 2 ^ 64,
      Checks (rt.seeing (checkWords rt.pageTable addrOf globals (base + k))) (base + k) (base + k)
        dst .returned) ↔
      (E.isBlacklisted = true ∧ c = 1) ∨ ∀ k < u.objectSize, ¬ BlacklistedAt E k := by
  constructor
  · intro hall
    by_contra hno
    obtain ⟨hsingle, hsome⟩ := not_or.mp hno
    simp only [not_forall, not_not] at hsome
    obtain ⟨k, hk, hat⟩ := hsome
    obtain ⟨word, hword, hminus⟩ := h.entry (hat.imp_right And.left) (base + k)
    have hfit : HashSetsFit (rt.seeing (checkWords rt.pageTable addrOf globals (base + k))) := hsets
    obtain ⟨dst, hdst, hne⟩ :=
      exists_checkFrom_ne hfit k hword fun heq => hsingle (hminus.mp heq)
    obtain ⟨fuel, hreturned⟩ := hall k hk hat dst hdst
    rw [h.checkCast_eq hk] at hreturned
    exact hne fuel hreturned
  · rintro (hsingle | hnone) k hk hat dst -
    · obtain ⟨word, hword, hminus⟩ := h.entry (hat.imp_right And.left) (base + k)
      refine ⟨0, ?_⟩
      rw [h.checkCast_eq hk]
      simp only [checkFrom, hword, if_pos (hminus.mpr hsingle)]
    · exact (hnone k hk hat).elim

/-! One object of a blacklisted type, and two of them in a row. -/

namespace Blacklisted

def B : StructType := ⟨some "blacklistedtype.B", false, [.scalar 4 2, .scalar 4 2]⟩

def addrOf (_ : String) : Nat := 0x1000

def globals : Globals := [(B.typeInfoName, infoMembers B)]

/-- The objects at `0x10000`, in one granule of 32 bytes, whose metadata is at `0x3000`. -/
def runtime (count : Nat) : Runtime where
  pageTable := setEntries (fun _ => 0) 0x10 0x3000 5 1
  mem := fun address =>
    [(0x1000, 8), (0x1008, minusOne), (0x3000, 0x10000),
      (0x3008, MetallocUpdate.typeInfoPtrInt addrOf B count)].lookup address
  hashToSetMap := some []

theorem hashSetsFit (count : Nat) : HashSetsFit (runtime count) := by
  rintro sets h entry hentry
  cases h
  cases hentry

theorem single : UpdatedObject (runtime 1) addrOf [B] globals ⟨B.ty, 5, 1, 0⟩ B 1 0x10000 where
  tables := ⟨by decide, ⟨by decide, by decide⟩, by decide⟩
  target := rfl
  requested := by decide
  size_lt := by decide
  table_lt := by decide
  base_pos := by decide
  fits := by decide
  metadata := by decide

theorem pair : UpdatedObject (runtime 2) addrOf [B] globals ⟨B.ty, 5, 2, 0⟩ B 2 0x10000 where
  tables := ⟨by decide, ⟨by decide, by decide⟩, by decide⟩
  target := rfl
  requested := by decide
  size_lt := by decide
  table_lt := by decide
  base_pos := by decide
  fits := by decide
  metadata := by decide

end Blacklisted

open Blacklisted in
/-- A cast of a pointer into the single object passes. -/
theorem UpdatedObject.exempt_of_single :
    Checks ((runtime 1).seeing (checkWords (runtime 1).pageTable addrOf globals (0x10000 + 4)))
      (0x10000 + 4) (0x10000 + 4) 42 .returned :=
  (single.exempt_iff (hashSetsFit 1)).mpr (Or.inl (by decide)) 4 (by decide) (Or.inl (by decide)) 42
    (by decide)

open Blacklisted in
/-- A cast of a pointer to the first object of the row reads a word behind the table. -/
theorem UpdatedObject.exempt_fails_for_array :
    ¬ ∀ (rt : Runtime) (addrOf : String → Nat) (requests : List StructType) (globals : Globals)
        (u : MetallocUpdate) (E : StructType) (c base : Nat),
      UpdatedObject rt addrOf requests globals u E c base → HashSetsFit rt →
      ∀ k < u.objectSize, BlacklistedAt E k → ∀ dst < 2 ^ 64,
        Checks (rt.seeing (checkWords rt.pageTable addrOf globals (base + k))) (base + k) (base + k)
          dst .returned := by
  intro hall
  obtain ⟨fuel, hreturned⟩ := hall _ _ _ _ _ _ _ _ pair (hashSetsFit 2) 0 (by decide)
    (Or.inl (by decide)) 0 (by decide)
  rw [pair.checkCast_eq (by decide)] at hreturned
  have hsize : ((runtime 2).seeing (checkWords (runtime 2).pageTable addrOf globals
      (0x10000 + 0))).mem (MetallocUpdate.typeInfoPtrInt addrOf B 2) = some 8 := by decide
  obtain ⟨src, ⟨word, hword, hwalk⟩, -⟩ := exists_finds_of_returned hsize (by decide) hreturned
  obtain rfl := Option.some.inj (hsize.symm.trans hword)
  have hfault : Yields ((runtime 2).seeing (checkWords (runtime 2).pageTable addrOf globals
      (0x10000 + 0))).mem (((0 : Nat) : Int).tmod (toLong 8)) 0
      (MetallocUpdate.typeInfoPtrInt addrOf B 2 + 8) .fault := ⟨1, by decide⟩
  cases hwalk.unique hfault

end TypeSan
