import TypeSan.UpdateCinfo

/-! The modules of a program hand their records to the run time, one after another. -/
namespace TypeSan

open Gather

/-- The map holds a set for the key, with just these hashes in it. -/
def Stored (hashToSetMap : HashToSetMap) (key : Nat) (S : Nat → Prop) : Prop :=
  ∃ set, hashToSetMap.lookup key = some set ∧ ∀ hash, hash ∈ set ↔ S hash

/-- The records of a class, one after another. -/
def absorbClass (hashToSetMap : HashToSetMap) (block : StructType × List Nat) : HashToSetMap :=
  (classRecords block.1 block.2).foldl absorb hashToSetMap

section Absorb

variable {sets : HashToSetMap} {record : ClassRecord} {block : StructType × List Nat}
  {C : StructType} {key : Nat} {S : Nat → Prop}

theorem Stored.congr {S' : Nat → Prop} (h : Stored sets key S) (hS : ∀ hash, S hash ↔ S' hash) :
    Stored sets key S' := by
  obtain ⟨set, hset, hmem⟩ := h
  exact ⟨set, hset, fun hash => (hmem hash).trans (hS hash)⟩

theorem Stored.unique {S' : Nat → Prop} (h : Stored sets key S) (h' : Stored sets key S')
    (hash : Nat) : S hash ↔ S' hash := by
  obtain ⟨set, hset, hmem⟩ := h
  obtain ⟨set', hset', hmem'⟩ := h'
  cases hset.symm.trans hset'
  exact (hmem hash).symm.trans (hmem' hash)

theorem absorb_of_ne (h : key ≠ record.classHash) :
    (absorb sets record).lookup key = sets.lookup key := by
  rw [absorb]
  split
  · exact lookup_insertSet_of_ne h
  · split
    · exact lookup_insertSet_of_ne h
    · rfl

theorem absorb_new (record : ClassRecord) (h : sets.lookup record.classHash = none) :
    (absorb sets record).lookup record.classHash = some record.hashes := by
  rw [absorb, h]
  exact lookup_insertSet_self

theorem absorb_merge (record : ClassRecord) {set : List Nat}
    (h : sets.lookup record.classHash = some set) (hmerge : record.hashCount &&& mergeFlag ≠ 0) :
    (absorb sets record).lookup record.classHash = some (mergeUnique set record.hashes) := by
  simp only [absorb, h, if_pos hmerge]
  exact lookup_insertSet_self

theorem absorb_skip {set : List Nat} (h : sets.lookup record.classHash = some set)
    (hplain : record.hashCount &&& mergeFlag = 0) : absorb sets record = sets := by
  simp only [absorb, h, hplain, ne_eq, not_true, if_false]

theorem absorbClass_of_ne (h : key ≠ getHashCodeFromStruct block.1) :
    (absorbClass sets block).lookup key = sets.lookup key := by
  rw [absorbClass, classRecords]
  split
  · exact (absorb_of_ne h).trans (absorb_of_ne h)
  · exact absorb_of_ne h

/-- The flagged record, if there is one, is merged. -/
theorem absorb_fakes {fakes : List Nat} {sets : HashToSetMap}
    (h : Stored sets (getHashCodeFromStruct C) S) :
    Stored ((if fakes.length > 0 then
        [(⟨mergeFlag ||| (fakes.length + 1), getHashCodeFromStruct C, fakes⟩ : ClassRecord)]
      else []).foldl absorb sets) (getHashCodeFromStruct C)
      fun hash => S hash ∨ hash ∈ fakes := by
  obtain ⟨set, hset, hmem⟩ := h
  split
  · refine ⟨_, absorb_merge ⟨_, _, fakes⟩ hset (flagged_and_mergeFlag _), ?_⟩
    intro hash
    rw [mem_mergeUnique, hmem]
  · rename_i hnil
    rw [List.length_eq_zero_iff.mp (Nat.eq_zero_of_not_pos hnil)]
    exact ⟨set, hset, fun hash => by simp [hmem]⟩

theorem absorbClass_new (h : sets.lookup (getHashCodeFromStruct C) = none) (fakes : List Nat) :
    Stored (absorbClass sets (C, fakes)) (getHashCodeFromStruct C)
      fun hash => hash ∈ hashes C.ancestors ∨ hash ∈ fakes := by
  rw [absorbClass, classRecords, List.foldl_cons]
  exact absorb_fakes ⟨_, absorb_new ⟨_, _, hashes C.ancestors⟩ h, fun hash => Iff.rfl⟩

theorem absorbClass_merge (h : Stored sets (getHashCodeFromStruct C) S)
    (hC : C.ancestors.length + 1 < 2 ^ 31) (fakes : List Nat) :
    Stored (absorbClass sets (C, fakes)) (getHashCodeFromStruct C)
      fun hash => S hash ∨ hash ∈ fakes := by
  obtain ⟨set, hset, hmem⟩ := h
  rw [absorbClass, classRecords, List.foldl_cons, absorb_skip hset (and_mergeFlag hC)]
  exact absorb_fakes ⟨set, hset, hmem⟩

variable {blocks : List (StructType × List Nat)}

/-- A class whose hash no other class has keeps its set, and gains what its later records say. -/
theorem Stored.foldl (h : Stored sets (getHashCodeFromStruct C) S)
    (hblocks : ∀ b ∈ blocks, getHashCodeFromStruct b.1 = getHashCodeFromStruct C →
      b.1 = C ∧ C.ancestors.length + 1 < 2 ^ 31) :
    Stored (blocks.foldl absorbClass sets) (getHashCodeFromStruct C)
      fun hash => S hash ∨ ∃ b ∈ blocks, b.1 = C ∧ hash ∈ b.2 := by
  induction blocks generalizing sets S with
  | nil => exact h.congr fun hash => by simp
  | cons b blocks ih =>
    rw [List.foldl_cons]
    have hrest (b' : StructType × List Nat) (hb' : b' ∈ blocks) :=
      hblocks b' (List.mem_cons_of_mem b hb')
    by_cases hkey : getHashCodeFromStruct b.1 = getHashCodeFromStruct C
    · obtain ⟨rfl, hC⟩ := hblocks b List.mem_cons_self hkey
      apply (ih (absorbClass_merge h hC b.2) hrest).congr
      intro hash
      simp [or_assoc]
    · have hne : b.1 ≠ C := fun heq => hkey (congrArg _ heq)
      obtain ⟨set, hset, hmem⟩ := h
      have h' : Stored (absorbClass sets b) (getHashCodeFromStruct C) S :=
        ⟨set, (absorbClass_of_ne (Ne.symm hkey)).trans hset, hmem⟩
      apply (ih h' hrest).congr
      intro hash
      simp [hne]

/-- A class that is new to the map gets its ancestors and what its records say. -/
theorem stored_foldl (h : sets.lookup (getHashCodeFromStruct C) = none)
    (hblocks : ∀ b ∈ blocks, getHashCodeFromStruct b.1 = getHashCodeFromStruct C →
      b.1 = C ∧ C.ancestors.length + 1 < 2 ^ 31)
    (hmem : ∃ b ∈ blocks, b.1 = C) :
    Stored (blocks.foldl absorbClass sets) (getHashCodeFromStruct C)
      fun hash => hash ∈ hashes C.ancestors ∨ ∃ b ∈ blocks, b.1 = C ∧ hash ∈ b.2 := by
  induction blocks generalizing sets with
  | nil => simp at hmem
  | cons b blocks ih =>
    rw [List.foldl_cons]
    have hrest (b' : StructType × List Nat) (hb' : b' ∈ blocks) :=
      hblocks b' (List.mem_cons_of_mem b hb')
    by_cases hkey : getHashCodeFromStruct b.1 = getHashCodeFromStruct C
    · obtain ⟨rfl, -⟩ := hblocks b List.mem_cons_self hkey
      apply ((absorbClass_new h b.2).foldl hrest).congr
      intro hash
      simp [or_assoc]
    · have hne : b.1 ≠ C := fun heq => hkey (congrArg _ heq)
      have hmem' : ∃ b ∈ blocks, b.1 = C := by
        obtain ⟨b', hb', heq⟩ := hmem
        rcases List.mem_cons.mp hb' with rfl | hb'
        · exact (hne heq).elim
        · exact ⟨b', hb', heq⟩
      apply (ih ((absorbClass_of_ne (Ne.symm hkey)).trans h) hrest hmem').congr
      intro hash
      simp [hne]

/-- No set comes from nowhere. -/
theorem lookup_foldl_none (h : sets.lookup key = none)
    (hblocks : ∀ b ∈ blocks, getHashCodeFromStruct b.1 ≠ key) :
    (blocks.foldl absorbClass sets).lookup key = none := by
  induction blocks generalizing sets with
  | nil => exact h
  | cons b blocks ih =>
    apply ih ((absorbClass_of_ne (Ne.symm (hblocks b List.mem_cons_self))).trans h)
    intro b' hb'
    exact hblocks b' (List.mem_cons_of_mem b hb')

end Absorb

/-! Modules. -/

/-- A translation unit, with its types and the order in which its map happens to be walked. -/
structure TranslationUnit where
  types : List StructType
  order : List (StructType × Nat)
  moduleTypes : ModuleTypes types
  order_perm : order.Perm (processTypes types).classInfoMap

/-- The module's info array. -/
def TranslationUnit.infoArray (u : TranslationUnit) : Option (List Nat) :=
  (moduleRecords u.types u.order).map fun records => records.flatMap ClassRecord.words

/-- The constructor of a module, which there is only if the module has records. -/
def TranslationUnit.init (u : TranslationUnit) (hashToSetMap : Option HashToSetMap) :
    Option (Option HashToSetMap) := do
  let records ← moduleRecords u.types u.order
  let infoElems := records.flatMap ClassRecord.words
  if infoElems.length = 0 then return hashToSetMap
  else return some (← updateCinfo hashToSetMap records.length infoElems)

/-- The constructors of a program's modules. -/
def initAll (units : List TranslationUnit) (hashToSetMap : Option HashToSetMap) :
    Option (Option HashToSetMap) :=
  units.foldlM (fun hashToSetMap u => u.init hashToSetMap) hashToSetMap

/-- The position in the info array and the count of each of its records fit into their words. -/
structure TranslationUnit.Small (u : TranslationUnit) : Prop where
  words : ∀ infoArray, u.infoArray = some infoArray → infoArray.length < 2 ^ 32
  counts : ∀ records, moduleRecords u.types u.order = some records → ∀ record ∈ records,
    record.hashes.length + 1 < 2 ^ 31

/-- A class that the module emits records for. -/
structure TranslationUnit.Emits (u : TranslationUnit) (s : StructType) : Prop where
  mem : s ∈ u.types
  isEmitted : s.isEmitted = true
  isRemembered : s.isRemembered = true

/-- What a module's constructor adds to the map: for each class that is emitted, its ancestors and
fake parents. -/
structure Blocks (u : TranslationUnit) (blocks : List (StructType × List Nat)) : Prop where
  emits : ∀ b ∈ blocks, u.Emits b.1
  complete : ∀ s, u.Emits s → ∃ b ∈ blocks, b.1 = s
  mem_fakes : ∀ b ∈ blocks, ∀ hash, hash ∈ b.2 ↔ FakeParent u.types b.1 hash
  ancestors_lt : ∀ b ∈ blocks, b.1.ancestors.length + 1 < 2 ^ 31

section Init

variable {records : List ClassRecord} {u : TranslationUnit}

theorem records_length_le (records : List ClassRecord) :
    records.length ≤ (records.flatMap ClassRecord.words).length := by
  induction records with
  | nil => exact Nat.le_refl 0
  | cons record records ih =>
    simp only [List.flatMap_cons, List.length_append, List.length_cons, ClassRecord.words]
    omega

theorem classRecords_fits {s : StructType} {fakes : List Nat} {record : ClassRecord}
    (h : record ∈ classRecords s fakes) (hlt : record.hashes.length + 1 < 2 ^ 31) :
    record.Fits := by
  rw [classRecords] at h
  rcases List.mem_cons.mp h with rfl | h
  · exact ⟨Or.inl (by simp [hashes]), hlt⟩
  · split at h
    · obtain rfl := List.mem_singleton.mp h
      exact ⟨Or.inr rfl, hlt⟩
    · cases h

/-- Records that fit are taken in one by one. -/
theorem updateCinfo_eq (hfits : ∀ record ∈ records, record.Fits)
    (hlt : (records.flatMap ClassRecord.words).length < 2 ^ 32)
    (hashToSetMap : Option HashToSetMap) :
    updateCinfo hashToSetMap records.length (records.flatMap ClassRecord.words) =
      some (records.foldl absorb (hashToSetMap.getD [])) := by
  have hcount := records_length_le records
  rw [updateCinfo, Nat.mod_eq_of_lt (by omega)]
  exact updateClasses_eq (List.nil_append _).symm hlt hfits _

/-- A constructor, with or without records, adds those of its module. -/
theorem TranslationUnit.init_of_records (hrecords : moduleRecords u.types u.order = some records)
    (hfits : ∀ record ∈ records, record.Fits)
    (hlt : (records.flatMap ClassRecord.words).length < 2 ^ 32)
    (hashToSetMap : Option HashToSetMap) :
    ∃ hashToSetMap', u.init hashToSetMap = some hashToSetMap' ∧
      hashToSetMap'.getD [] = records.foldl absorb (hashToSetMap.getD []) := by
  have hupdate := updateCinfo_eq hfits hlt hashToSetMap
  rw [TranslationUnit.init, hrecords]
  simp only [Option.bind_eq_bind, Option.bind_some]
  split
  · rename_i hnil
    have hle := records_length_le records
    rw [hnil] at hle
    rw [List.length_eq_zero_iff.mp (Nat.le_zero.mp hle)]
    exact ⟨_, rfl, rfl⟩
  · exact ⟨_, by rw [hupdate]; rfl, rfl⟩

/-- A constructor adds the blocks of its module. -/
theorem TranslationUnit.init_eq (hsmall : u.Small) :
    ∃ blocks, Blocks u blocks ∧ ∀ hashToSetMap, ∃ hashToSetMap',
      u.init hashToSetMap = some hashToSetMap' ∧
        hashToSetMap'.getD [] = blocks.foldl absorbClass (hashToSetMap.getD []) := by
  obtain ⟨hforest, hkeys⟩ := u.moduleTypes.forest
  obtain ⟨fakes, hrecords, hfakes⟩ := u.moduleTypes.moduleRecords_eq u.order_perm
  have hmem (e : StructType × Nat) : e ∈ u.order ↔ e ∈ (processTypes u.types).classInfoMap :=
    u.order_perm.mem_iff
  let emitted := u.order.filter fun e => e.1.isEmitted
  have hemitted (e : StructType × Nat) (he : e ∈ emitted) :
      e ∈ (processTypes u.types).classInfoMap ∧ e.1.isEmitted = true := by
    obtain ⟨he, hyes⟩ := List.mem_filter.mp he
    exact ⟨(hmem e).mp he, hyes⟩
  have hlt : ((emitted.flatMap fun e => classRecords e.1 (fakes e)).flatMap
      ClassRecord.words).length < 2 ^ 32 :=
    hsmall.words _ (by rw [TranslationUnit.infoArray, hrecords]; rfl)
  have hfits (record : ClassRecord)
      (hrecord : record ∈ emitted.flatMap fun e => classRecords e.1 (fakes e)) : record.Fits := by
    obtain ⟨e, -, he⟩ := List.mem_flatMap.mp hrecord
    exact classRecords_fits he (hsmall.counts _ hrecords record hrecord)
  refine ⟨emitted.map fun e => (e.1, fakes e), ⟨fun b hb => ?_, fun s hs => ?_, fun b hb => ?_,
    fun b hb => ?_⟩, fun hashToSetMap => ?_⟩
  · obtain ⟨e, he, rfl⟩ := List.mem_map.mp hb
    obtain ⟨he, hyes⟩ := hemitted e he
    obtain ⟨htypes, hremembered⟩ := (hkeys e.1).mp ⟨e.2, he⟩
    exact ⟨htypes, hyes, hremembered⟩
  · obtain ⟨i, hi⟩ := (hkeys s).mpr ⟨hs.mem, hs.isRemembered⟩
    exact ⟨_, List.mem_map_of_mem (List.mem_filter.mpr ⟨(hmem _).mpr hi, hs.isEmitted⟩), rfl⟩
  · obtain ⟨e, he, rfl⟩ := List.mem_map.mp hb
    exact hfakes e (List.mem_of_mem_filter he)
  · obtain ⟨e, he, rfl⟩ := List.mem_map.mp hb
    have := (hfits ⟨_, _, hashes e.1.ancestors⟩
      (List.mem_flatMap.mpr ⟨e, he, List.mem_cons_self⟩)).lt
    simpa [hashes] using this
  · have hfold (sets : HashToSetMap) :
        (emitted.map fun e => (e.1, fakes e)).foldl absorbClass sets =
          (emitted.flatMap fun e => classRecords e.1 (fakes e)).foldl absorb sets := by
      rw [List.foldl_map, List.foldl_flatMap]
      rfl
    rw [hfold]
    exact TranslationUnit.init_of_records hrecords hfits hlt hashToSetMap

end Init

/-- What the constructors of several modules add: for each class, a block from every module that emits
it. -/
structure ProgramBlocks (units : List TranslationUnit) (blocks : List (StructType × List Nat)) :
    Prop where
  emits : ∀ b ∈ blocks, ∃ u ∈ units, u.Emits b.1 ∧
    ∀ hash, hash ∈ b.2 ↔ FakeParent u.types b.1 hash
  complete : ∀ u ∈ units, ∀ s, u.Emits s → ∃ b ∈ blocks, b.1 = s ∧
    ∀ hash, hash ∈ b.2 ↔ FakeParent u.types s hash
  ancestors_lt : ∀ b ∈ blocks, b.1.ancestors.length + 1 < 2 ^ 31

section Program

variable {units : List TranslationUnit}

theorem initAll_eq (hsmall : ∀ u ∈ units, u.Small) :
    ∃ blocks, ProgramBlocks units blocks ∧ ∀ hashToSetMap, ∃ hashToSetMap',
      initAll units hashToSetMap = some hashToSetMap' ∧
        hashToSetMap'.getD [] = blocks.foldl absorbClass (hashToSetMap.getD []) := by
  induction units with
  | nil => exact ⟨[], ⟨by simp, by simp, by simp⟩, fun sets => ⟨sets, rfl, rfl⟩⟩
  | cons u units ih =>
    obtain ⟨blocks, hblocks, hrun⟩ := u.init_eq (hsmall u List.mem_cons_self)
    obtain ⟨blocks', hblocks', hrun'⟩ := ih fun v hv => hsmall v (List.mem_cons_of_mem u hv)
    refine ⟨blocks ++ blocks', ⟨fun b hb => ?_, fun v hv s hs => ?_, fun b hb => ?_⟩,
      fun sets => ?_⟩
    · rcases List.mem_append.mp hb with hb | hb
      · exact ⟨u, List.mem_cons_self, hblocks.emits b hb, hblocks.mem_fakes b hb⟩
      · obtain ⟨v, hv, hemits⟩ := hblocks'.emits b hb
        exact ⟨v, List.mem_cons_of_mem u hv, hemits⟩
    · rcases List.mem_cons.mp hv with rfl | hv
      · obtain ⟨b, hb, rfl⟩ := hblocks.complete s hs
        exact ⟨b, List.mem_append_left _ hb, rfl, hblocks.mem_fakes b hb⟩
      · obtain ⟨b, hb, hbs⟩ := hblocks'.complete v hv s hs
        exact ⟨b, List.mem_append_right _ hb, hbs⟩
    · rcases List.mem_append.mp hb with hb | hb
      · exact hblocks.ancestors_lt b hb
      · exact hblocks'.ancestors_lt b hb
    · obtain ⟨sets₁, h₁, heq₁⟩ := hrun sets
      obtain ⟨sets', h', heq'⟩ := hrun' sets₁
      refine ⟨sets', ?_, ?_⟩
      · rw [initAll, List.foldlM_cons, h₁]
        exact h'
      · rw [heq', heq₁, List.foldl_append]

/-- The classes that records are emitted for have different hashes. -/
def DistinctHashes (units : List TranslationUnit) : Prop :=
  ∀ u ∈ units, ∀ v ∈ units, ∀ s ∈ u.types, ∀ t ∈ v.types, s.isEmitted = true →
    t.isEmitted = true → getHashCodeFromStruct s = getHashCodeFromStruct t → s = t

/-- No other class that records are emitted for has the hash of the class. -/
def OwnHash (units : List TranslationUnit) (C : StructType) : Prop :=
  ∀ u ∈ units, ∀ s ∈ u.types, s.isEmitted = true →
    getHashCodeFromStruct s = getHashCodeFromStruct C → s = C

theorem DistinctHashes.own {u : TranslationUnit} {C : StructType} (h : DistinctHashes units)
    (hu : u ∈ units) (hC : C ∈ u.types) (hemitted : C.isEmitted = true) : OwnHash units C :=
  fun v hv s hs hyes => h v hv u hu s hs C hC hyes hemitted

variable (hsmall : ∀ u ∈ units, u.Small) {C : StructType} (hown : OwnHash units C)
  {u : TranslationUnit}
include hsmall hown

/-- In the end a class has its ancestors, and the fake parents that the modules found which know it. -/
theorem initAll_stored (hu : u ∈ units) (hC : u.Emits C) :
    ∃ sets, initAll units none = some (some sets) ∧ Stored sets (getHashCodeFromStruct C)
      fun hash => hash ∈ hashes C.ancestors ∨
        ∃ v ∈ units, C ∈ v.types ∧ FakeParent v.types C hash := by
  obtain ⟨blocks, hblocks, hrun⟩ := initAll_eq hsmall
  obtain ⟨sets, hsets, heq⟩ := hrun none
  obtain ⟨b₀, hb₀, hb₀C, -⟩ := hblocks.complete u hu C hC
  have hstored : Stored (sets.getD []) (getHashCodeFromStruct C)
      fun hash => hash ∈ hashes C.ancestors ∨ ∃ b ∈ blocks, b.1 = C ∧ hash ∈ b.2 := by
    rw [heq]
    refine stored_foldl rfl (fun b hb hhash => ?_) ⟨b₀, hb₀, hb₀C⟩
    obtain ⟨v, hv, hemits, -⟩ := hblocks.emits b hb
    have hbC := hown v hv b.1 hemits.mem hemits.isEmitted hhash
    exact ⟨hbC, hbC ▸ hblocks.ancestors_lt b hb⟩
  have hsets' : sets = some (sets.getD []) := by
    cases sets with
    | none => obtain ⟨set, hset, -⟩ := hstored; cases hset
    | some sets => rfl
  refine ⟨sets.getD [], hsets' ▸ hsets, hstored.congr fun hash => or_congr_right ?_⟩
  constructor
  · rintro ⟨b, hb, rfl, hhash⟩
    obtain ⟨v, hv, hemits, hfakes⟩ := hblocks.emits b hb
    exact ⟨v, hv, hemits.mem, (hfakes hash).mp hhash⟩
  · rintro ⟨v, hv, hCv, hhash⟩
    obtain ⟨b, hb, hbC, hfakes⟩ := hblocks.complete v hv C ⟨hCv, hC.isEmitted, hC.isRemembered⟩
    exact ⟨b, hb, hbC, (hfakes hash).mpr hhash⟩

/-- A class that is not remembered has no set. -/
theorem initAll_lost (hno : C.isRemembered = false) :
    ∃ sets, initAll units none = some sets ∧
      (sets.getD []).lookup (getHashCodeFromStruct C) = none := by
  obtain ⟨blocks, hblocks, hrun⟩ := initAll_eq hsmall
  obtain ⟨sets, hsets, heq⟩ := hrun none
  refine ⟨sets, hsets, heq ▸ lookup_foldl_none rfl fun b hb hhash => ?_⟩
  obtain ⟨v, hv, hemits, -⟩ := hblocks.emits b hb
  have hbC := hown v hv b.1 hemits.mem hemits.isEmitted hhash
  have hyes := hemits.isRemembered
  rw [hbC, hno] at hyes
  cases hyes

end Program

end TypeSan
