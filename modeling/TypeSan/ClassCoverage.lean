import TypeSan.MissedConfusion
import TypeSan.ModuleLoad

/-! Which tracked classes get a record. -/
namespace TypeSan

/-- A record with the ancestors of the class. -/
def plainRecord (T : StructType) : ClassRecord :=
  ⟨T.ancestors.length + 1, getHashCodeFromStruct T, hashes T.ancestors⟩

/-- A record of the class that is to be merged. -/
def FlaggedFor (T : StructType) (record : ClassRecord) : Prop :=
  record.hashCount = mergeFlag ||| (record.hashes.length + 1) ∧
    record.classHash = getHashCodeFromStruct T

/-- The module emits the class once, with one plain record and with flagged ones that name every
phantom class of it. -/
def TranslationUnit.Records (u : TranslationUnit) (T : StructType) : Prop :=
  ∃ entries flagged, moduleEntries u.types u.order = some entries ∧
    entries.filter (fun entry => entry.1 = T) = [(T, plainRecord T :: flagged)] ∧
    (∀ record ∈ flagged, FlaggedFor T record) ∧
    ∀ Q ∈ u.types, PhantomOf Q T → ∃ record ∈ flagged, getHashCodeFromStruct Q ∈ record.hashes

/-- What `check_cast` takes the pointer to point to: an object of the class. -/
def PointsTo (rt : Runtime) (src_addr dst_addr : Nat) (T : StructType) : Prop :=
  ∃ alloc_base typeInfo, lookupMetadata rt.mem rt.pageTable src_addr = some (alloc_base, typeInfo) ∧
    Finds rt.mem (toLong ((dst_addr + 2 ^ 64 - alloc_base) % 2 ^ 64)) typeInfo
      (getHashCodeFromStruct T)

/-- Once the modules are loaded, an object of the class is never one of an unknown hash. -/
def NeverUnknown (units : List TranslationUnit) (T : StructType) : Prop :=
  ∃ sets, initAll units none = some (some sets) ∧
    ∀ rt src_addr dst_addr dst, rt.hashToSetMap = some sets → PointsTo rt src_addr dst_addr T →
      ¬ Checks rt src_addr dst_addr dst (.reported .unknownHash)

/-- The class has its records, and is known once the module is loaded, with any others. -/
def TranslationUnit.Covers (u : TranslationUnit) (T : StructType) : Prop :=
  u.Records T ∧ ∀ units, u ∈ units → (∀ v ∈ units, v.Small) → NeverUnknown units T

/-! The records. -/

section Records

variable {u : TranslationUnit} {T : StructType}

theorem TranslationUnit.filter_order (u : TranslationUnit) {i : Nat}
    (hmem : (T, i) ∈ u.order) (hT : T.isEmitted = true) :
    (u.order.filter fun e => e.1.isEmitted).filter (fun e => e.1 = T) = [(T, i)] := by
  obtain ⟨hforest, -⟩ := u.moduleTypes.forest
  have hnodup : u.order.Nodup := u.order_perm.nodup_iff.mpr u.moduleTypes.nodup
  rw [← List.perm_singleton, List.perm_ext_iff_of_nodup ((hnodup.filter _).filter _)
    (List.nodup_singleton _)]
  rintro ⟨s, j⟩
  simp only [List.mem_filter, decide_eq_true_eq, List.mem_singleton]
  constructor
  · rintro ⟨⟨hj, -⟩, rfl⟩
    rw [hforest.unique s i j (u.order_perm.subset hmem) (u.order_perm.subset hj)]
  · rintro heq
    cases heq
    exact ⟨⟨hmem, hT⟩, rfl⟩

/-- A class with phantom classes has a flagged record that names them. -/
theorem classRecords_eq (T : StructType) (fakes : List Nat) :
    ∃ flagged, classRecords T fakes = plainRecord T :: flagged ∧
      (∀ record ∈ flagged, FlaggedFor T record) ∧
      ∀ hash ∈ fakes, ∃ record ∈ flagged, hash ∈ record.hashes := by
  refine ⟨_, rfl, fun record hrecord => ?_, fun hash hmem => ?_⟩
  · split at hrecord
    · obtain rfl := List.mem_singleton.mp hrecord
      exact ⟨rfl, rfl⟩
    · cases hrecord
  · rw [if_pos (List.length_pos_of_mem hmem)]
    exact ⟨_, List.mem_singleton_self _, hmem⟩

theorem TranslationUnit.records_iff (hT : T ∈ u.types) (hemitted : T.isEmitted = true) :
    u.Records T ↔ T.isRemembered = true := by
  obtain ⟨-, hkeys⟩ := u.moduleTypes.forest
  obtain ⟨fakes, hentries, hfakes⟩ := u.moduleTypes.moduleEntries_eq u.order_perm
  constructor
  · rintro ⟨entries, flagged, hentries', hfilter, -⟩
    obtain rfl := Option.some.inj (hentries.symm.trans hentries')
    have hmem : (T, plainRecord T :: flagged) ∈ (u.order.filter fun e => e.1.isEmitted).map
        fun e => (e.1, classRecords e.1 (fakes e)) :=
      List.mem_of_mem_filter (hfilter ▸ List.mem_singleton_self _)
    obtain ⟨⟨s, i⟩, he, heq⟩ := List.mem_map.mp hmem
    obtain ⟨rfl, -⟩ := Prod.mk.inj heq
    exact ((hkeys s).mp ⟨i, u.order_perm.subset (List.mem_of_mem_filter he)⟩).2
  · intro hyes
    obtain ⟨i, hi⟩ := (hkeys T).mpr ⟨hT, hyes⟩
    have hmem := u.order_perm.symm.subset hi
    obtain ⟨flagged, hrecords, hflagged, hnames⟩ := classRecords_eq T (fakes (T, i))
    refine ⟨_, flagged, hentries, ?_, hflagged, fun Q hQ hphantom => hnames _ ?_⟩
    · rw [List.filter_map, ← hrecords]
      exact congrArg _ (u.filter_order hmem hemitted)
    · rw [hfakes _ hmem, FakeParent, chain_eq (u.moduleTypes.identified T hT)]
      exact ⟨T, List.mem_cons_self, Q, hQ, .single hphantom, rfl, Or.inl hyes⟩

end Records

/-! The check. -/

section Known

theorem absorb_known {sets : HashToSetMap} {key : Nat} (record : ClassRecord)
    (h : (sets.lookup key).isSome) : ((absorb sets record).lookup key).isSome := by
  by_cases hkey : key = record.classHash
  · subst hkey
    obtain ⟨set, hset⟩ := Option.isSome_iff_exists.mp h
    by_cases hmerge : record.hashCount &&& mergeFlag = 0
    · rwa [absorb_skip hset hmerge]
    · rw [absorb_merge record hset hmerge]
      rfl
  · rwa [absorb_of_ne hkey]

theorem absorbClass_known {sets : HashToSetMap} {key : Nat} (block : StructType × List Nat)
    (h : (sets.lookup key).isSome) : ((absorbClass sets block).lookup key).isSome := by
  rw [absorbClass]
  generalize classRecords block.1 block.2 = records
  induction records generalizing sets with
  | nil => exact h
  | cons record records ih => exact ih (absorb_known record h)

/-- Whatever its hash, a class with a block gets a set. -/
theorem foldl_known (sets : HashToSetMap) {blocks : List (StructType × List Nat)}
    {b : StructType × List Nat} (hb : b ∈ blocks) :
    ((blocks.foldl absorbClass sets).lookup (getHashCodeFromStruct b.1)).isSome := by
  have hkeep (l : List (StructType × List Nat)) (sets : HashToSetMap)
      (h : (sets.lookup (getHashCodeFromStruct b.1)).isSome) :
      ((l.foldl absorbClass sets).lookup (getHashCodeFromStruct b.1)).isSome := by
    induction l generalizing sets with
    | nil => exact h
    | cons c l ih => exact ih _ (absorbClass_known c h)
  obtain ⟨l₁, l₂, rfl⟩ := List.append_of_mem hb
  rw [List.foldl_append, List.foldl_cons]
  refine hkeep l₂ _ ?_
  generalize l₁.foldl absorbClass sets = sets
  cases hset : sets.lookup (getHashCodeFromStruct b.1) with
  | some set => exact absorbClass_known b (by rw [hset]; rfl)
  | none =>
    obtain ⟨set, hset', -⟩ := absorbClass_new hset b.2
    exact hset' ▸ rfl

/-- Behind the lookup the check compares the class that the walk finds, unless the type is
blacklisted. -/
theorem Finds.checkFrom {rt : Runtime} {offset : Int} {typeInfo src fuel dst : Nat}
    {result : CheckResult} (h : Finds rt.mem offset typeInfo src)
    (hcheck : checkFrom rt fuel offset typeInfo dst = some result) :
    result = .returned ∨ result = compareHashes rt.hashToSetMap src dst := by
  obtain ⟨currentOffset, hfirst, hwalk⟩ := h
  simp only [TypeSan.checkFrom, hfirst] at hcheck
  split at hcheck
  · exact Or.inl (Option.some.inj hcheck).symm
  · obtain ⟨found, hfound, rfl⟩ := Option.map_eq_some_iff.mp hcheck
    have heq : found = .src src := by
      split at hwalk <;> rename_i hsize
      · rw [if_pos hsize] at hfound
        exact Yields.unique ⟨fuel, hfound⟩ hwalk
      · rw [if_neg hsize] at hfound
        exact Yields.unique ⟨fuel, hfound⟩ hwalk
    rw [heq]
    exact Or.inr rfl

theorem compareHashes_known {sets : HashToSetMap} {src : Nat} (h : (sets.lookup src).isSome)
    (dst : Nat) : compareHashes (some sets) src dst ≠ .reported .unknownHash := by
  obtain ⟨set, hset⟩ := Option.isSome_iff_exists.mp h
  simp only [compareHashes, hset]
  split_ifs <;> simp

/-- An unknown hash is reported only where the class found has no set. -/
theorem PointsTo.not_unknown {rt : Runtime} {src_addr dst_addr : Nat} {T : StructType}
    (h : PointsTo rt src_addr dst_addr T) {sets : HashToSetMap}
    (hsets : rt.hashToSetMap = some sets)
    (hknown : (sets.lookup (getHashCodeFromStruct T)).isSome) (dst : Nat) :
    ¬ Checks rt src_addr dst_addr dst (.reported .unknownHash) := by
  obtain ⟨alloc_base, typeInfo, hlookup, hfinds⟩ := h
  obtain ⟨_, hbase, hlookup⟩ := Option.bind_eq_some_iff.mp hlookup
  obtain ⟨_, htypeInfo, heq⟩ := Option.bind_eq_some_iff.mp hlookup
  obtain ⟨rfl, rfl⟩ := Prod.mk.inj (Option.some.inj heq)
  rintro ⟨fuel, hcheck⟩
  simp only [checkCast, hbase, htypeInfo] at hcheck
  split at hcheck
  · simp at hcheck
  split at hcheck
  · simp at hcheck
  split at hcheck
  · simp at hcheck
  rcases hfinds.checkFrom hcheck with hreturned | hcompared
  · cases hreturned
  · rw [hsets] at hcompared
    exact compareHashes_known hknown dst hcompared.symm

end Known

/-- A tracked class is covered if, and only if, its first element is no literal or opaque struct. -/
theorem TranslationUnit.covers_iff {u : TranslationUnit} {T : StructType} (hT : T ∈ u.types)
    (hemitted : T.isEmitted = true) : u.Covers T ↔ T.isRemembered = true := by
  constructor
  · rintro ⟨hrecords, -⟩
    exact (u.records_iff hT hemitted).mp hrecords
  · intro hyes
    refine ⟨(u.records_iff hT hemitted).mpr hyes, ?_⟩
    intro units hu hsmall
    obtain ⟨blocks, hblocks, hrun⟩ := initAll_eq hsmall
    obtain ⟨hashToSetMap, hinit, heq⟩ := hrun none
    obtain ⟨b, hb, rfl, -⟩ := hblocks.complete u hu T ⟨hT, hemitted, hyes⟩
    have hknown := foldl_known [] hb
    rw [show ([] : HashToSetMap) = (none : Option HashToSetMap).getD [] from rfl, ← heq] at hknown
    cases hashToSetMap with
    | none => cases hknown
    | some sets =>
      exact ⟨sets, hinit, fun rt src_addr dst_addr dst hsets hpoints =>
        hpoints.not_unknown hsets hknown dst⟩

/-! A pointer-to-member that starts a class. -/

namespace LiteralFirst

/-- A pointer to a member function is a literal struct. -/
def T : StructType := ⟨some "trackedtype.T", false, [.struct none false [.scalar 8 3, .scalar 8 3]]⟩

def A : StructType := ⟨some "trackedtype.A", false, [.scalar 4 2]⟩

def P : StructType := ⟨some "trackedtype.P", false, [A.ty]⟩

def unit : TranslationUnit where
  types := [T, A, P]
  order := (processTypes [T, A, P]).classInfoMap
  moduleTypes := ⟨by decide, by decide⟩
  order_perm := .refl _

end LiteralFirst

open LiteralFirst

theorem TranslationUnit.covers_of_phantom_child : unit.Covers A :=
  (unit.covers_iff (by decide) (by decide)).mpr (by decide)

/-- The class of the pointer-to-member is dropped. -/
theorem TranslationUnit.covers_fails_for_literal_first :
    ¬ ∀ (u : TranslationUnit) (T : StructType), T ∈ u.types → T.isEmitted = true → u.Covers T := by
  intro hall
  obtain ⟨⟨entries, flagged, hentries, hfilter, -⟩, -⟩ := hall unit T (by decide) (by decide)
  have heq : (moduleEntries unit.types unit.order).map (·.map Prod.fst) = some [P, A] := by decide
  rw [hentries] at heq
  have hnames : entries.map Prod.fst = [P, A] := Option.some.inj heq
  have hmem : T ∈ entries.map Prod.fst := List.mem_map_of_mem
    (List.mem_of_mem_filter (hfilter ▸ List.mem_singleton_self _))
  rw [hnames] at hmem
  exact absurd hmem (by decide)

end TypeSan
