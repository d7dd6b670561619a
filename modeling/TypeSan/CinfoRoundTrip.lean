import TypeSan.ModuleLoad

/-! What modules write into their info arrays is what the run time reads out of them. -/
namespace TypeSan

open Gather

/-- The records of an info array. -/
def arrayRecords (infos : List ClassInheritanceInfo) : List ClassRecord :=
  infos.flatMap ClassInheritanceInfo.records

/-- The info array. -/
def arrayWords (infos : List ClassInheritanceInfo) : List Nat :=
  (arrayRecords infos).flatMap ClassRecord.words

/-- The hashes of each record can be counted in 31 bits. -/
def Countable (infos : List ClassInheritanceInfo) : Prop :=
  ∀ info ∈ infos, info.parentHashes.length < 2 ^ 31 - 1 ∧ info.fakeParentHashes.length < 2 ^ 31 - 1

/-- The calls of `__update_cinfo`, one after another. -/
def updateAll (arrays : List (List ClassInheritanceInfo)) (hashToSetMap : Option HashToSetMap) :
    Option (Option HashToSetMap) :=
  arrays.foldlM (fun hashToSetMap infos =>
    (updateCinfo hashToSetMap (arrayRecords infos).length (arrayWords infos)).map some) hashToSetMap

/-- A merge request. -/
def ClassRecord.Flagged (record : ClassRecord) : Prop := record.hashCount &&& mergeFlag ≠ 0

instance (record : ClassRecord) : Decidable record.Flagged := inferInstanceAs (Decidable (_ ≠ _))

/-- The hashes that a list of records gives a class: those of its first record, and of all that are
flagged. -/
def Given (records : List ClassRecord) (key hash : Nat) : Prop :=
  (∃ record, records.find? (·.classHash = key) = some record ∧ hash ∈ record.hashes) ∨
    ∃ record ∈ records, record.classHash = key ∧ record.Flagged ∧ hash ∈ record.hashes

/-- The map has a set for each class that occurs, with the hashes given, and no other set. -/
structure Decodes (records : List ClassRecord) (sets : HashToSetMap) : Prop where
  stored : ∀ key, (∃ record ∈ records, record.classHash = key) → Stored sets key (Given records key)
  absent : ∀ key, (∀ record ∈ records, record.classHash ≠ key) → sets.lookup key = none

/-- Sets grow by hashes that are new to them, each one once. -/
def Appends (sets sets' : HashToSetMap) : Prop :=
  ∀ key set, sets.lookup key = some set → ∃ added, sets'.lookup key = some (set ++ added) ∧
    added.Nodup ∧ ∀ hash ∈ added, hash ∉ set

/-- The plain records of a class agree. -/
def PlainAgree (arrays : List (List ClassInheritanceInfo)) : Prop :=
  ∀ infos ∈ arrays, ∀ infos' ∈ arrays, ∀ info ∈ infos, ∀ info' ∈ infos',
    info.classHash = info'.classHash →
      ∀ hash, hash ∈ info.parentHashes ↔ hash ∈ info'.parentHashes

/-- Info arrays survive the way to the run time. -/
structure RoundTrips (arrays : List (List ClassInheritanceInfo)) : Prop where
  ends : ∀ front infos, front ++ [infos] <+: arrays → ∃ before sets,
    updateAll front none = some before ∧
      turns (arrayWords infos) ((arrayRecords infos).length % 2 ^ 32) (before.getD [], 0) =
        some (sets, (arrayWords infos).length)
  decodes : ∃ after, updateAll arrays none = some after ∧
    Decodes (arrays.flatMap arrayRecords) (after.getD [])
  appends : ∀ infos ∈ arrays, ∀ sets pos sets' pos',
    updateClass (arrayWords infos) sets pos = some (sets', pos') → Appends sets sets'
  order : PlainAgree arrays → ∀ arrays', arrays'.Perm arrays → ∃ after after',
    updateAll arrays none = some after ∧ updateAll arrays' none = some after' ∧
      ∀ key S, Stored (after.getD []) key S ↔ Stored (after'.getD []) key S

/-! Merging. -/

theorem mergeUnique_appends (current items : List Nat) :
    ∃ added, mergeUnique current items = current ++ added ∧ added.Nodup ∧
      ∀ hash ∈ added, hash ∉ current := by
  induction items generalizing current with
  | nil => exact ⟨[], by simp [mergeUnique]⟩
  | cons item items ih =>
    rw [mergeUnique, List.foldl_cons]
    split
    · exact ih current
    · rename_i hnew
      obtain ⟨added, heq, hnodup, hfresh⟩ := ih (current ++ [item])
      refine ⟨item :: added, ?_, List.nodup_cons.mpr ⟨fun hin => ?_, hnodup⟩, fun hash hhash => ?_⟩
      · rw [← mergeUnique, heq, List.append_assoc]
        rfl
      · exact hfresh item hin (by simp)
      · rcases List.mem_cons.mp hhash with rfl | hhash
        · exact hnew
        · exact fun hin => hfresh hash hhash (List.mem_append_left _ hin)

theorem appends_self (sets : HashToSetMap) : Appends sets sets := fun key set hset =>
  ⟨[], by simpa using hset, List.nodup_nil, by simp⟩

/-- A set in place of another one that it extends. -/
theorem appends_insertSet {sets : HashToSetMap} {key : Nat} {set : List Nat}
    (h : ∀ old, sets.lookup key = some old → ∃ added, set = old ++ added ∧ added.Nodup ∧
      ∀ hash ∈ added, hash ∉ old) : Appends sets (insertSet sets key set) := by
  intro key' old hold
  by_cases hkey : key' = key
  · subst hkey
    obtain ⟨added, rfl, hadded⟩ := h old hold
    exact ⟨added, lookup_insertSet_self, hadded⟩
  · rw [lookup_insertSet_of_ne hkey]
    exact appends_self sets key' old hold

theorem updateClass_appends {infoArray : List Nat} {sets sets' : HashToSetMap} {pos pos' : Nat}
    (h : updateClass infoArray sets pos = some (sets', pos')) : Appends sets sets' := by
  obtain ⟨word, -, h⟩ := Option.bind_eq_some_iff.mp h
  obtain ⟨classHash, -, h⟩ := Option.bind_eq_some_iff.mp h
  simp only at h
  split at h
  · rename_i hnone
    split at h
    · cases h
    · obtain ⟨⟨hashes, pos⟩, -, h⟩ := Option.bind_eq_some_iff.mp h
      cases h
      exact appends_insertSet fun old hold => by simp [hnone] at hold
  · rename_i parentSet hsome
    split at h
    · cases h
      exact appends_self sets
    · split at h
      · cases h
      · obtain ⟨⟨hashes, pos⟩, -, h⟩ := Option.bind_eq_some_iff.mp h
        cases h
        apply appends_insertSet
        intro old hold
        obtain rfl := Option.some.inj (hsome.symm.trans hold)
        exact mergeUnique_appends parentSet hashes

/-! Taking in records. -/

section Records

variable {sets : HashToSetMap} {records : List ClassRecord} {key : Nat} {S : Nat → Prop}

/-- A class with a set gains what its flagged records hold. -/
theorem Stored.foldl_absorb (h : Stored sets key S) :
    Stored (records.foldl absorb sets) key fun hash =>
      S hash ∨
        ∃ record ∈ records, record.classHash = key ∧ record.Flagged ∧ hash ∈ record.hashes := by
  induction records generalizing sets S with
  | nil => exact h.congr fun hash => by simp
  | cons record records ih =>
    obtain ⟨set, hset, hmem⟩ := h
    by_cases hkey : record.classHash = key
    · subst hkey
      by_cases hflag : record.Flagged
      · have hmerge : Stored (absorb sets record) record.classHash fun hash =>
            S hash ∨ hash ∈ record.hashes :=
          ⟨_, absorb_merge record hset hflag, fun hash => by rw [mem_mergeUnique, hmem]⟩
        exact (ih hmerge).congr fun hash => by simp [hflag, or_assoc]
      · have hskip : Stored (absorb sets record) record.classHash S := by
          rw [absorb_skip hset (not_not.mp hflag)]
          exact ⟨set, hset, hmem⟩
        exact (ih hskip).congr fun hash => by simp [hflag]
    · have hother : Stored (absorb sets record) key S :=
        ⟨set, (absorb_of_ne (Ne.symm hkey)).trans hset, hmem⟩
      exact (ih hother).congr fun hash => by simp [hkey]

/-- A class without one takes the hashes of its first record, whatever its flag. -/
theorem stored_foldl_absorb (h : sets.lookup key = none)
    (hmem : ∃ record ∈ records, record.classHash = key) :
    Stored (records.foldl absorb sets) key (Given records key) := by
  induction records generalizing sets with
  | nil => simp at hmem
  | cons record records ih =>
    by_cases hkey : record.classHash = key
    · subst hkey
      have hnew : Stored (absorb sets record) record.classHash (· ∈ record.hashes) :=
        ⟨_, absorb_new record h, fun hash => Iff.rfl⟩
      apply hnew.foldl_absorb.congr
      intro hash
      simp only [Given, List.find?_cons, decide_true, Option.some.injEq, exists_eq_left',
        List.mem_cons, exists_eq_or_imp, true_and]
      tauto
    · have hnone := (absorb_of_ne (Ne.symm hkey)).trans h
      have hmem' : ∃ record ∈ records, record.classHash = key := by simpa [hkey] using hmem
      apply (ih hnone hmem').congr
      intro hash
      simp [Given, hkey]

theorem lookup_foldl_absorb_none (h : sets.lookup key = none)
    (hno : ∀ record ∈ records, record.classHash ≠ key) :
    (records.foldl absorb sets).lookup key = none := by
  induction records generalizing sets with
  | nil => exact h
  | cons record records ih =>
    obtain ⟨hkey, hrest⟩ := List.forall_mem_cons.mp hno
    exact ih ((absorb_of_ne (Ne.symm hkey)).trans h) hrest

/-- Records that give the classes the same hashes lead to the same sets. -/
theorem Decodes.transfer {records' : List ClassRecord} {sets' : HashToSetMap}
    (h : Decodes records sets) (h' : Decodes records' sets')
    (hmem : (∃ record ∈ records, record.classHash = key) →
      ∃ record ∈ records', record.classHash = key)
    (hgiven : ∀ hash, Given records' key hash ↔ Given records key hash)
    (hstored : Stored sets key S) : Stored sets' key S := by
  by_cases hkey : ∃ record ∈ records, record.classHash = key
  · apply (h'.stored key (hmem hkey)).congr
    intro hash
    rw [hgiven, (h.stored key hkey).unique hstored]
  · obtain ⟨set, hset, -⟩ := hstored
    have hnone := h.absent key fun record hr heq => hkey ⟨record, hr, heq⟩
    rw [hnone] at hset
    cases hset

theorem decodes_foldl_absorb (records : List ClassRecord) :
    Decodes records (records.foldl absorb []) :=
  ⟨fun _ hmem => stored_foldl_absorb rfl hmem, fun _ hno => lookup_foldl_absorb_none rfl hno⟩

end Records

/-! Reading arrays. -/

section Arrays

variable {infos : List ClassInheritanceInfo} {arrays : List (List ClassInheritanceInfo)}

theorem Countable.fits (h : Countable infos) : ∀ record ∈ arrayRecords infos, record.Fits := by
  intro record hrecord
  obtain ⟨info, hinfo, hrecord⟩ := List.mem_flatMap.mp hrecord
  obtain ⟨hparents, hfakes⟩ := h info hinfo
  rw [ClassInheritanceInfo.records] at hrecord
  rcases List.mem_cons.mp hrecord with rfl | hrecord
  · exact ⟨Or.inl rfl, by simp only; omega⟩
  · split at hrecord
    · obtain rfl := List.mem_singleton.mp hrecord
      exact ⟨Or.inr rfl, by simp only; omega⟩
    · cases hrecord

/-- A short array is read to its end. -/
theorem Countable.turns_eq (h : Countable infos) (hlt : (arrayWords infos).length < 2 ^ 32)
    (sets : HashToSetMap) :
    turns (arrayWords infos) ((arrayRecords infos).length % 2 ^ 32) (sets, 0) =
      some ((arrayRecords infos).foldl absorb sets, (arrayWords infos).length) := by
  have hle : (arrayRecords infos).length ≤ (arrayWords infos).length := records_length_le _
  rw [Nat.mod_eq_of_lt (by omega)]
  exact TypeSan.turns_eq (List.nil_append _).symm hlt h.fits sets

theorem updateAll_eq (hcount : ∀ infos ∈ arrays, Countable infos)
    (hlt : ∀ infos ∈ arrays, (arrayWords infos).length < 2 ^ 32) (before : Option HashToSetMap) :
    ∃ after, updateAll arrays before = some after ∧
      after.getD [] = (arrays.flatMap arrayRecords).foldl absorb (before.getD []) := by
  induction arrays generalizing before with
  | nil => exact ⟨before, rfl, rfl⟩
  | cons infos arrays ih =>
    obtain ⟨hinfos, hrest⟩ := List.forall_mem_cons.mp hcount
    obtain ⟨hlt₁, hlt₂⟩ := List.forall_mem_cons.mp hlt
    have hupdate : updateCinfo before (arrayRecords infos).length (arrayWords infos) =
        some ((arrayRecords infos).foldl absorb (before.getD [])) := by
      rw [updateCinfo, updateClasses_eq_turns, hinfos.turns_eq hlt₁]
      rfl
    obtain ⟨after, hafter, heq⟩ :=
      ih hrest hlt₂ (some ((arrayRecords infos).foldl absorb (before.getD [])))
    refine ⟨after, ?_, ?_⟩
    · rw [updateAll, List.foldlM_cons, hupdate]
      exact hafter
    · rw [heq, List.flatMap_cons, List.foldl_append]
      rfl

theorem updateAll_decodes (hcount : ∀ infos ∈ arrays, Countable infos)
    (hlt : ∀ infos ∈ arrays, (arrayWords infos).length < 2 ^ 32) :
    ∃ after, updateAll arrays none = some after ∧
      Decodes (arrays.flatMap arrayRecords) (after.getD []) := by
  obtain ⟨after, hafter, hsets⟩ := updateAll_eq hcount hlt none
  refine ⟨after, hafter, ?_⟩
  rw [hsets]
  exact decodes_foldl_absorb _

/-- The first record of a class is a plain one. -/
theorem find?_records (infos : List ClassInheritanceInfo) (key : Nat) :
    (infos.flatMap ClassInheritanceInfo.records).find? (·.classHash = key) =
      (infos.find? (·.classHash = key)).map fun info =>
        ⟨info.parentHashes.length + 1, info.classHash, info.parentHashes⟩ := by
  induction infos with
  | nil => rfl
  | cons info infos ih =>
    rw [List.flatMap_cons, List.find?_append]
    by_cases hkey : info.classHash = key
    · simp [ClassInheritanceInfo.records, hkey]
    · have hnone : info.records.find? (·.classHash = key) = none := by
        rw [ClassInheritanceInfo.records]
        split <;> simp [hkey]
      rw [hnone, Option.none_or, ih]
      simp [hkey]

theorem mem_records {info : ClassInheritanceInfo} {record : ClassRecord}
    (h : record ∈ info.records) : record.classHash = info.classHash ∧
      (record.hashes = info.parentHashes ∨ record.hashes = info.fakeParentHashes) := by
  rw [ClassInheritanceInfo.records] at h
  rcases List.mem_cons.mp h with rfl | h
  · exact ⟨rfl, Or.inl rfl⟩
  · split at h
    · obtain rfl := List.mem_singleton.mp h
      exact ⟨rfl, Or.inr rfl⟩
    · cases h

/-- Where the plain records agree, a class is given all that any of its infos holds. -/
theorem PlainAgree.given_iff (h : PlainAgree arrays) (key hash : Nat) :
    Given (arrays.flatMap arrayRecords) key hash ↔ ∃ infos ∈ arrays, ∃ info ∈ infos,
      info.classHash = key ∧ (hash ∈ info.parentHashes ∨ hash ∈ info.fakeParentHashes) := by
  have hflat : arrays.flatMap arrayRecords =
      arrays.flatten.flatMap ClassInheritanceInfo.records := by
    rw [← List.flatMap_id, List.flatMap_assoc]
    rfl
  have hrecord {record : ClassRecord} (hr : record ∈ arrays.flatMap arrayRecords)
      (hkey : record.classHash = key) (hhash : hash ∈ record.hashes) : ∃ infos ∈ arrays,
      ∃ info ∈ infos, info.classHash = key ∧
        (hash ∈ info.parentHashes ∨ hash ∈ info.fakeParentHashes) := by
    obtain ⟨infos, hinfos, hr⟩ := List.mem_flatMap.mp hr
    obtain ⟨info, hinfo, hr⟩ := List.mem_flatMap.mp hr
    obtain ⟨hclass, hhashes⟩ := mem_records hr
    refine ⟨infos, hinfos, info, hinfo, hclass.symm.trans hkey, ?_⟩
    rcases hhashes with heq | heq
    · exact Or.inl (by rwa [heq] at hhash)
    · exact Or.inr (by rwa [heq] at hhash)
  constructor
  · rintro (⟨record, hfind, hhash⟩ | ⟨record, hmem, hkey, -, hhash⟩)
    · exact hrecord (List.mem_of_find?_eq_some hfind) (by simpa using List.find?_some hfind) hhash
    · exact hrecord hmem hkey hhash
  · rintro ⟨infos, hinfos, info, hinfo, hkey, hhash | hhash⟩
    · have hmem : info ∈ arrays.flatten := List.mem_flatten.mpr ⟨infos, hinfos, hinfo⟩
      obtain ⟨first, hfirst⟩ := Option.isSome_iff_exists.mp
        (List.find?_isSome (p := (·.classHash = key)).mpr ⟨info, hmem, by simpa using hkey⟩)
      have hfirstKey : first.classHash = key := by simpa using List.find?_some hfirst
      obtain ⟨infos', hinfos', hfirstMem⟩ := List.mem_flatten.mp (List.mem_of_find?_eq_some hfirst)
      refine Or.inl ⟨_, by rw [hflat, find?_records, hfirst]; rfl, ?_⟩
      exact (h infos hinfos infos' hinfos' info hinfo first hfirstMem
        (hkey.trans hfirstKey.symm) hash).mp hhash
    · have hpos : info.fakeParentHashes.length > 0 := List.length_pos_of_mem hhash
      refine Or.inr ⟨⟨mergeFlag ||| (info.fakeParentHashes.length + 1), info.classHash,
        info.fakeParentHashes⟩, ?_, hkey, flagged_and_mergeFlag _, hhash⟩
      refine List.mem_flatMap.mpr ⟨infos, hinfos, List.mem_flatMap.mpr ⟨info, hinfo, ?_⟩⟩
      rw [ClassInheritanceInfo.records, if_pos hpos]
      simp

/-! The position. -/

theorem readHashes_pos_lt {infoArray hashes : List Nat} {count pos pos' : Nat} (hpos : pos < 2 ^ 32)
    (h : readHashes infoArray count pos = some (hashes, pos')) : pos' < 2 ^ 32 := by
  induction count generalizing pos hashes with
  | zero =>
    cases h
    exact hpos
  | succ count ih =>
    obtain ⟨hash, -, h⟩ := Option.bind_eq_some_iff.mp h
    obtain ⟨⟨rest, end_⟩, hrest, h⟩ := Option.bind_eq_some_iff.mp h
    cases h
    exact ih (Nat.mod_lt _ (by decide)) hrest

theorem updateClass_pos_lt {infoArray : List Nat} {sets sets' : HashToSetMap} {pos pos' : Nat}
    (h : updateClass infoArray sets pos = some (sets', pos')) : pos' < 2 ^ 32 := by
  have hmod : (pos + 2) % 2 ^ 32 < 2 ^ 32 := Nat.mod_lt _ (by decide)
  obtain ⟨word, -, h⟩ := Option.bind_eq_some_iff.mp h
  obtain ⟨classHash, -, h⟩ := Option.bind_eq_some_iff.mp h
  simp only at h
  split at h
  · split at h
    · cases h
    · obtain ⟨⟨hashes, end_⟩, hread, h⟩ := Option.bind_eq_some_iff.mp h
      cases h
      exact readHashes_pos_lt hmod hread
  · split at h
    · cases h
      exact Nat.mod_lt _ (by decide)
    · split at h
      · cases h
      · obtain ⟨⟨hashes, end_⟩, hread, h⟩ := Option.bind_eq_some_iff.mp h
        cases h
        exact readHashes_pos_lt hmod hread

theorem turns_pos_lt {infoArray : List Nat} {count : Nat} {state state' : HashToSetMap × Nat}
    (hpos : state.2 < 2 ^ 32) (h : turns infoArray count state = some state') :
    state'.2 < 2 ^ 32 := by
  induction count generalizing state with
  | zero =>
    cases h
    exact hpos
  | succ count ih =>
    obtain ⟨next, hnext, h⟩ := Option.bind_eq_some_iff.mp h
    exact ih (updateClass_pos_lt hnext) h

end Arrays

/-- Info arrays make the round trip, through whichever calls, just if the position can count their
words. -/
theorem roundTrips_iff {arrays : List (List ClassInheritanceInfo)}
    (hcount : ∀ infos ∈ arrays, Countable infos) :
    RoundTrips arrays ↔ ∀ infos ∈ arrays, (arrayWords infos).length < 2 ^ 32 := by
  constructor
  · intro h infos hinfos
    obtain ⟨front, back, rfl⟩ := List.append_of_mem hinfos
    obtain ⟨before, sets, -, hturns⟩ := h.ends front infos ⟨back, by simp⟩
    exact turns_pos_lt (by simp) hturns
  · intro hlt
    obtain ⟨after, hafter, hdecodes⟩ := updateAll_decodes hcount hlt
    refine ⟨fun front infos hfront => ?_, ⟨after, hafter, hdecodes⟩,
      fun _ _ _ _ _ _ hclass => updateClass_appends hclass, fun hagree arrays' hperm => ?_⟩
    · have hmem : infos ∈ arrays := hfront.subset (by simp)
      have hsub (i : List ClassInheritanceInfo) (hi : i ∈ front) : i ∈ arrays :=
        hfront.subset (List.mem_append_left _ hi)
      obtain ⟨before, hbefore, -⟩ := updateAll_eq (fun i hi => hcount i (hsub i hi))
        (fun i hi => hlt i (hsub i hi)) none
      exact ⟨before, _, hbefore, (hcount infos hmem).turns_eq (hlt infos hmem) _⟩
    · have hmem (i : List ClassInheritanceInfo) (hi : i ∈ arrays') : i ∈ arrays := hperm.subset hi
      obtain ⟨after', hafter', hdecodes'⟩ := updateAll_decodes (fun i hi => hcount i (hmem i hi))
        (fun i hi => hlt i (hmem i hi))
      refine ⟨after, after', hafter, hafter', ?_⟩
      intro key S
      have hagree' : PlainAgree arrays' := fun i hi j hj => hagree i (hmem i hi) j (hmem j hj)
      have hrecords (record : ClassRecord) :
          record ∈ arrays.flatMap arrayRecords ↔ record ∈ arrays'.flatMap arrayRecords :=
        (hperm.flatMap_right arrayRecords).mem_iff.symm
      have hgiven (hash : Nat) : Given (arrays'.flatMap arrayRecords) key hash ↔
          Given (arrays.flatMap arrayRecords) key hash := by
        simp only [hagree'.given_iff, hagree.given_iff, hperm.mem_iff]
      constructor
      · exact hdecodes.transfer hdecodes' (fun ⟨r, hr, heq⟩ => ⟨r, (hrecords r).mp hr, heq⟩) hgiven
      · exact hdecodes'.transfer hdecodes (fun ⟨r, hr, heq⟩ => ⟨r, (hrecords r).mpr hr, heq⟩)
          fun hash => (hgiven hash).symm

/-- Two modules that agree on a class, the second with a phantom class of it. -/
theorem roundTrips_of_short :
    RoundTrips [[⟨default, false, false, none, [], 1, [2, 3], []⟩],
      [⟨default, false, false, none, [], 1, [3, 2], [4]⟩]] :=
  (roundTrips_iff (by simp [Countable])).mpr (by decide)

namespace LongArray

def info (classHash : Nat) (parentHashes : List Nat) : ClassInheritanceInfo where
  type := default
  didProcessFakeHashesBottomUp := false
  didProcessFakeHashesTopDown := false
  parent := none
  phantomChildren := []
  classHash := classHash
  parentHashes := parentHashes
  fakeParentHashes := []

/-- Three classes, where the first two fill the words that the position can tell apart. -/
def infos (hashes : List Nat) : List ClassInheritanceInfo :=
  [info 1 hashes, info 2 hashes, info 3 []]

def record (classHash : Nat) (hashes : List Nat) : ClassRecord :=
  ⟨hashes.length + 1, classHash, hashes⟩

variable {hashes : List Nat}

theorem arrayRecords_infos :
    arrayRecords (infos hashes) = [record 1 hashes, record 2 hashes, record 3 []] := rfl

theorem arrayWords_infos :
    arrayWords (infos hashes) =
      (record 1 hashes).words ++ (record 2 hashes).words ++ (record 3 []).words := by
  rw [arrayWords, arrayRecords_infos]
  simp

theorem length_words (classHash : Nat) :
    (record classHash hashes).words.length = hashes.length + 2 := rfl

/-- The third turn reads the first record again. -/
theorem updateClasses_infos (h : hashes.length + 2 = 2 ^ 31) :
    updateClasses (arrayWords (infos hashes)) 3 [] 0 = some [(2, hashes), (1, hashes)] := by
  have hfits (classHash : Nat) : (record classHash hashes).Fits :=
    ⟨Or.inl rfl, by simp only [record]; omega⟩
  have hfirst (sets : HashToSetMap) : updateClass (arrayWords (infos hashes)) sets 0 =
      some (absorb sets (record 1 hashes), 2 ^ 31) := by
    have hclass := @updateClass_eq (arrayWords (infos hashes)) []
      ((record 2 hashes).words ++ (record 3 []).words) (record 1 hashes)
      (by rw [arrayWords_infos, List.append_assoc, List.nil_append])
      (by rw [List.nil_append, length_words]; omega) (hfits 1) sets
    rwa [List.nil_append, length_words, h, List.length_nil, Nat.zero_mod,
      Nat.mod_eq_of_lt (by decide)] at hclass
  have hsecond (sets : HashToSetMap) : updateClass (arrayWords (infos hashes)) sets (2 ^ 31) =
      some (absorb sets (record 2 hashes), 0) := by
    have hclass := @updateClass_eq (arrayWords (infos hashes)) (record 1 hashes).words
      (record 3 []).words (record 2 hashes) arrayWords_infos
      (by rw [List.length_append, length_words, length_words]; omega) (hfits 2) sets
    rwa [List.length_append, length_words, length_words, h, Nat.mod_eq_of_lt (by decide),
      ← Nat.two_mul, (by decide : 2 * 2 ^ 31 % 2 ^ 32 = 0)] at hclass
  have hlookup : List.lookup (record 1 hashes).classHash [(2, hashes), (1, hashes)] =
      some hashes := rfl
  have hskip : absorb [(2, hashes), (1, hashes)] (record 1 hashes) =
      [(2, hashes), (1, hashes)] :=
    absorb_skip hlookup (and_mergeFlag (by simp only [record]; omega))
  rw [updateClasses, hfirst]
  change updateClasses _ 2 [(1, hashes)] (2 ^ 31) = _
  rw [updateClasses, hsecond]
  change updateClasses _ 1 [(2, hashes), (1, hashes)] 0 = _
  rw [updateClasses, hfirst, hskip]
  rfl

end LongArray

open LongArray in
/-- With 2 ^ 31 - 2 parents each, the last class of the array gets no set. -/
theorem roundTrips_fails :
    ¬ ∀ arrays : List (List ClassInheritanceInfo), (∀ infos ∈ arrays, Countable infos) →
      RoundTrips arrays := by
  intro hall
  obtain ⟨hashes, hhashes⟩ : ∃ hashes : List Nat, hashes = List.replicate (2 ^ 31 - 2) 0 := ⟨_, rfl⟩
  have hlength : hashes.length = 2 ^ 31 - 2 := by rw [hhashes, List.length_replicate]
  have hcount : Countable (infos hashes) := by
    intro i hi
    rcases List.mem_cons.mp hi with rfl | hi
    · exact ⟨by simp only [info]; omega, by simp [info]⟩
    rcases List.mem_pair.mp hi with rfl | rfl
    · exact ⟨by simp only [info]; omega, by simp [info]⟩
    · exact ⟨by simp [info], by simp [info]⟩
  obtain ⟨after, hafter, hdecodes⟩ :=
    (hall [infos hashes] fun i hi => by rwa [List.mem_singleton.mp hi]).decodes
  have hsets : after = some [(2, hashes), (1, hashes)] := by
    have hclasses : updateClasses (arrayWords (infos hashes)) 3 [] 0 =
        some [(2, hashes), (1, hashes)] := updateClasses_infos (by omega)
    have hupdate : updateCinfo none (arrayRecords (infos hashes)).length
        (arrayWords (infos hashes)) = some [(2, hashes), (1, hashes)] := by
      rw [arrayRecords_infos]
      exact hclasses
    rw [updateAll, List.foldlM_cons, hupdate] at hafter
    exact (Option.some.inj hafter).symm
  obtain ⟨set, hset, -⟩ := hdecodes.stored 3 ⟨record 3 [], by simp [arrayRecords_infos], rfl⟩
  rw [hsets] at hset
  cases hset

end TypeSan
