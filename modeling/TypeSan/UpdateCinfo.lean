import TypeSan.CheckCast
import TypeSan.ClassRecords

/-! `__update_cinfo`: the run time takes the records of a module into its map. -/
namespace TypeSan

open Gather

/-- The loop over the hashes of a record. -/
def readHashes (infoArray : List Nat) : (count pos : Nat) → Option (List Nat × Nat)
  | 0, pos => some ([], pos)
  | count + 1, pos => do
    let hash ← infoArray[pos]?
    let (hashes, pos) ← readHashes infoArray count ((pos + 1) % 2 ^ 32)
    return (hash :: hashes, pos)

/-- The map with a class's set in place of the one it had, if any. -/
def insertSet (hashToSetMap : HashToSetMap) (classHash : Nat) (parentSet : List Nat) :
    HashToSetMap :=
  (classHash, parentSet) :: hashToSetMap.filter fun entry => entry.1 ≠ classHash

/-- The body of the `while` loop. The loop over the hashes does not end where the count is 0. -/
def updateClass (infoArray : List Nat) (hashToSetMap : HashToSetMap) (pos : Nat) :
    Option (HashToSetMap × Nat) := do
  let word ← infoArray[pos]?
  let classHash ← infoArray[(pos + 1) % 2 ^ 32]?
  let pos := (pos + 2) % 2 ^ 32
  let doMerge := word &&& mergeFlag ≠ 0
  let hashCount := word &&& 0x7FFFFFFF
  match hashToSetMap.lookup classHash with
  | none =>
    if hashCount = 0 then none
    else
      let (hashes, pos) ← readHashes infoArray (hashCount - 1) pos
      return (insertSet hashToSetMap classHash hashes, pos)
  | some parentSet =>
    if ¬ doMerge then return (hashToSetMap, (pos + (hashCount + (2 ^ 64 - 1))) % 2 ^ 32)
    else if hashCount = 0 then none
    else
      let (hashes, pos) ← readHashes infoArray (hashCount - 1) pos
      return (insertSet hashToSetMap classHash (mergeUnique parentSet hashes), pos)

/-- The `while` loop, for as many classes as remain. -/
def updateClasses (infoArray : List Nat) : (remaining : Nat) → HashToSetMap → (pos : Nat) →
    Option HashToSetMap
  | 0, hashToSetMap, _ => some hashToSetMap
  | remaining + 1, hashToSetMap, pos => do
    let (hashToSetMap, pos) ← updateClass infoArray hashToSetMap pos
    updateClasses infoArray remaining hashToSetMap pos

/-- The map and the position after some turns of the `while` loop. -/
def turns (infoArray : List Nat) : Nat → HashToSetMap × Nat → Option (HashToSetMap × Nat)
  | 0, state => some state
  | turn + 1, state => (updateClass infoArray state.1 state.2).bind (turns infoArray turn)

/-- `__update_cinfo`. The map is made on the first call. -/
def updateCinfo (hashToSetMap : Option HashToSetMap) (classCount : Nat) (infoArray : List Nat) :
    Option HashToSetMap :=
  updateClasses infoArray (classCount % 2 ^ 32) (hashToSetMap.getD []) 0

/-! The map. -/

section Map

variable {sets : HashToSetMap} {key key' : Nat} {set : List Nat}

@[simp] theorem lookup_insertSet_self : (insertSet sets key set).lookup key = some set := by
  simp [insertSet]

theorem lookup_insertSet_of_ne (h : key' ≠ key) :
    (insertSet sets key set).lookup key' = sets.lookup key' := by
  have hbeq : (key' == key) = false := beq_false_of_ne h
  rw [insertSet, List.lookup_cons, hbeq]
  induction sets with
  | nil => rfl
  | cons entry sets ih =>
    obtain ⟨k, v⟩ := entry
    by_cases hk : k = key
    · subst hk
      simp only [ne_eq, not_true, decide_false, Bool.false_eq_true, not_false_eq_true,
        List.filter_cons_of_neg, List.lookup_cons, hbeq]
      exact ih
    · simp only [ne_eq, hk, not_false_eq_true, decide_true, List.filter_cons_of_pos,
        List.lookup_cons]
      split
      · rfl
      · exact ih

end Map

/-! Reading a record. -/

section Read

variable {infoArray : List Nat}

/-- The position is 32 bits wide. -/
theorem readHashes_eq (pre hashes post : List Nat) (h : infoArray = pre ++ hashes ++ post)
    (hle : (pre ++ hashes).length ≤ 2 ^ 32) :
    readHashes infoArray hashes.length (pre.length % 2 ^ 32) =
      some (hashes, (pre ++ hashes).length % 2 ^ 32) := by
  induction hashes generalizing pre with
  | nil => simp [readHashes]
  | cons hash hashes ih =>
    simp only [List.length_append, List.length_cons] at hle
    have hget : infoArray[pre.length % 2 ^ 32]? = some hash := by
      rw [Nat.mod_eq_of_lt (by omega)]
      simp [h]
    have hpos : (pre.length % 2 ^ 32 + 1) % 2 ^ 32 = (pre ++ [hash]).length % 2 ^ 32 := by
      simp only [List.length_append, List.length_cons, List.length_nil]
      omega
    have hrest : pre ++ [hash] ++ hashes = pre ++ hash :: hashes := by simp
    rw [List.length_cons, readHashes, hget, hpos]
    simp only [Option.bind_eq_bind, Option.bind_some]
    rw [ih (pre ++ [hash]) (by rw [hrest]; exact h) (by rw [hrest]; simpa using hle), hrest]
    rfl

end Read

/-- The count word says how many hashes follow, flagged or not. -/
structure ClassRecord.Fits (record : ClassRecord) : Prop where
  hashCount : record.hashCount = record.hashes.length + 1 ∨
    record.hashCount = mergeFlag ||| (record.hashes.length + 1)
  lt : record.hashes.length + 1 < 2 ^ 31

/-- What the run time makes of a record. -/
def absorb (hashToSetMap : HashToSetMap) (record : ClassRecord) : HashToSetMap :=
  match hashToSetMap.lookup record.classHash with
  | none => insertSet hashToSetMap record.classHash record.hashes
  | some parentSet =>
    if record.hashCount &&& mergeFlag ≠ 0 then
      insertSet hashToSetMap record.classHash (mergeUnique parentSet record.hashes)
    else hashToSetMap

theorem and_mergeFlag {count : Nat} (h : count < 2 ^ 31) : count &&& mergeFlag = 0 := by
  apply Nat.eq_of_testBit_eq
  intro i
  rw [show mergeFlag = 2 ^ 31 * (2 ^ 33 - 1) by decide, Nat.testBit_and, Nat.testBit_two_pow_mul,
    Nat.zero_testBit]
  by_cases hi : 31 ≤ i
  · rw [Nat.testBit_lt_two_pow (Nat.lt_of_lt_of_le h (Nat.pow_le_pow_right (by decide) hi)),
      Bool.false_and]
  · simp [hi]

theorem flagged_and_mergeFlag (count : Nat) : (mergeFlag ||| count) &&& mergeFlag ≠ 0 := by
  rw [Nat.and_or_distrib_right, Nat.and_self]
  intro h
  exact absurd (Nat.or_eq_zero_iff.mp h).1 (by decide)

theorem count_and {count : Nat} (h : count < 2 ^ 31) : count &&& 0x7FFFFFFF = count := by
  rw [show (0x7FFFFFFF : Nat) = 2 ^ 31 - 1 by decide, Nat.and_two_pow_sub_one_eq_mod,
    Nat.mod_eq_of_lt h]

theorem flagged_and {count : Nat} (h : count < 2 ^ 31) :
    (mergeFlag ||| count) &&& 0x7FFFFFFF = count := by
  rw [Nat.and_or_distrib_right, count_and h, show mergeFlag &&& 0x7FFFFFFF = 0 by decide,
    Nat.zero_or]

/-- The count of a record, without the flag. -/
theorem ClassRecord.Fits.and {record : ClassRecord} (h : record.Fits) :
    record.hashCount &&& 0x7FFFFFFF = record.hashes.length + 1 := by
  rcases h.hashCount with heq | heq
  · rw [heq, count_and h.lt]
  · rw [heq, flagged_and h.lt]

/-- A record is read where it lies. -/
theorem updateClass_eq {infoArray pre post : List Nat} {record : ClassRecord}
    (h : infoArray = pre ++ record.words ++ post) (hle : (pre ++ record.words).length ≤ 2 ^ 32)
    (hfits : record.Fits) (sets : HashToSetMap) :
    updateClass infoArray sets (pre.length % 2 ^ 32) =
      some (absorb sets record, (pre ++ record.words).length % 2 ^ 32) := by
  have hlen : (pre ++ record.words).length = pre.length + (record.hashes.length + 2) := by
    simp only [ClassRecord.words, List.length_append, List.length_cons]
  have hword : infoArray[pre.length % 2 ^ 32]? = some record.hashCount := by
    rw [Nat.mod_eq_of_lt (by omega)]
    simp [h, ClassRecord.words]
  have hhash : infoArray[(pre.length % 2 ^ 32 + 1) % 2 ^ 32]? = some record.classHash := by
    rw [Nat.mod_eq_of_lt (a := pre.length) (by omega), Nat.mod_eq_of_lt (by omega)]
    simp [h, ClassRecord.words]
  have hhead : (pre ++ [record.hashCount, record.classHash]).length = pre.length + 2 := by simp
  have hend : pre ++ [record.hashCount, record.classHash] ++ record.hashes = pre ++ record.words := by
    simp [ClassRecord.words]
  have hpos : (pre.length % 2 ^ 32 + 2) % 2 ^ 32 =
      (pre ++ [record.hashCount, record.classHash]).length % 2 ^ 32 := by
    rw [hhead, Nat.mod_add_mod]
  have hread : readHashes infoArray record.hashes.length
      ((pre ++ [record.hashCount, record.classHash]).length % 2 ^ 32) =
      some (record.hashes, (pre ++ record.words).length % 2 ^ 32) := by
    rw [← hend] at h hle ⊢
    exact readHashes_eq _ _ post h hle
  have hskip : ((pre ++ [record.hashCount, record.classHash]).length % 2 ^ 32 +
      (record.hashes.length + 1 + (2 ^ 64 - 1))) % 2 ^ 32 =
      (pre ++ record.words).length % 2 ^ 32 := by
    rw [hhead, hlen]
    omega
  simp only [updateClass, absorb, hword, hhash, hpos, Option.bind_eq_bind, Option.bind_some,
    hfits.and, Nat.add_sub_cancel, hread, hskip, Nat.succ_ne_zero, if_false]
  cases sets.lookup record.classHash with
  | none => rfl
  | some parentSet =>
    by_cases hmerge : record.hashCount &&& mergeFlag = 0
    · simp only [hmerge, ne_eq, not_true, not_false_eq_true, if_true, if_false]
      rfl
    · simp only [hmerge, ne_eq, not_true, not_false_eq_true, if_true, if_false]
      rfl

theorem turns_eq {infoArray pre : List Nat} {records : List ClassRecord}
    (h : infoArray = pre ++ records.flatMap ClassRecord.words) (hlt : infoArray.length < 2 ^ 32)
    (hfits : ∀ record ∈ records, record.Fits) (sets : HashToSetMap) :
    turns infoArray records.length (sets, pre.length) =
      some (records.foldl absorb sets, infoArray.length) := by
  induction records generalizing pre sets with
  | nil => simp [turns, h]
  | cons record records ih =>
    rw [List.flatMap_cons, ← List.append_assoc] at h
    have hlen : infoArray.length = (pre ++ record.words).length +
        (records.flatMap ClassRecord.words).length := by rw [h, List.length_append]
    have hle : pre.length ≤ (pre ++ record.words).length := by simp
    have hclass := updateClass_eq h (by omega) (hfits record List.mem_cons_self) sets
    rw [Nat.mod_eq_of_lt (by omega), Nat.mod_eq_of_lt (by omega)] at hclass
    rw [List.length_cons, turns, hclass]
    exact ih h (fun r hr => hfits r (List.mem_cons_of_mem record hr)) _

/-- The loop is its turns. -/
theorem updateClasses_eq_turns (infoArray : List Nat) (count : Nat) (sets : HashToSetMap)
    (pos : Nat) :
    updateClasses infoArray count sets pos = (turns infoArray count (sets, pos)).map Prod.fst := by
  induction count generalizing sets pos with
  | zero => rfl
  | succ count ih =>
    rw [updateClasses, turns]
    cases updateClass infoArray sets pos with
    | none => rfl
    | some state => exact ih state.1 state.2

theorem updateClasses_eq {infoArray pre : List Nat} {records : List ClassRecord}
    (h : infoArray = pre ++ records.flatMap ClassRecord.words) (hlt : infoArray.length < 2 ^ 32)
    (hfits : ∀ record ∈ records, record.Fits) (sets : HashToSetMap) :
    updateClasses infoArray records.length sets pre.length = some (records.foldl absorb sets) := by
  rw [updateClasses_eq_turns, turns_eq h hlt hfits]
  rfl

end TypeSan
