import Mathlib.Data.List.Nodup
import Mathlib.Order.Lattice

/-! A finite map, kept as its entries in the order of their keys. -/

/-- The entries, with one for each key that is present. -/
@[ext] structure SortedMap (Key Value : Type) [LinearOrder Key] where
  entries : List (Key × Value)
  sorted : entries.Pairwise fun e e' => e.1 < e'.1

namespace SortedMap

variable {Key Value : Type} [LinearOrder Key]

instance [DecidableEq Value] : DecidableEq (SortedMap Key Value) := fun m m' =>
  decidable_of_iff (m.entries = m'.entries) SortedMap.ext_iff.symm

def empty : SortedMap Key Value := ⟨[], List.Pairwise.nil⟩

/-- The value of a key. -/
def find (m : SortedMap Key Value) (key : Key) : Option Value := m.entries.lookup key

/-- A new entry takes its place, but not that of an entry which is there. -/
def insertEntry (entry : Key × Value) : List (Key × Value) → List (Key × Value)
  | [] => [entry]
  | e :: rest =>
    if entry.1 < e.1 then entry :: e :: rest
    else if entry.1 = e.1 then e :: rest
    else e :: insertEntry entry rest

theorem mem_insertEntry {entry e : Key × Value} {entries : List (Key × Value)}
    (h : e ∈ insertEntry entry entries) : e = entry ∨ e ∈ entries := by
  induction entries with
  | nil => exact Or.inl (List.mem_singleton.mp h)
  | cons first rest ih =>
    rw [insertEntry] at h
    split at h
    · exact List.mem_cons.mp h
    · split at h
      · exact Or.inr h
      · rcases List.mem_cons.mp h with rfl | h
        · exact Or.inr List.mem_cons_self
        · exact (ih h).imp_right (List.mem_cons_of_mem first)

theorem sorted_insertEntry {entry : Key × Value} {entries : List (Key × Value)}
    (h : entries.Pairwise fun e e' => e.1 < e'.1) :
    (insertEntry entry entries).Pairwise fun e e' => e.1 < e'.1 := by
  induction entries with
  | nil => exact List.pairwise_singleton _ entry
  | cons first rest ih =>
    obtain ⟨hfirst, hrest⟩ := List.pairwise_cons.mp h
    rw [insertEntry]
    split
    · rename_i hlt
      refine List.pairwise_cons.mpr ⟨List.forall_mem_cons.mpr ⟨hlt, fun e he => ?_⟩, h⟩
      exact lt_trans hlt (hfirst e he)
    · split
      · exact h
      · rename_i hnot hne
        refine List.pairwise_cons.mpr ⟨fun e he => ?_, ih hrest⟩
        rcases mem_insertEntry he with rfl | he
        · exact lt_of_le_of_ne (not_lt.mp hnot) (Ne.symm hne)
        · exact hfirst e he

/-- Inserting leaves a value that is there. -/
def insert (m : SortedMap Key Value) (key : Key) (value : Value) : SortedMap Key Value :=
  ⟨insertEntry (key, value) m.entries, sorted_insertEntry m.sorted⟩

variable {m m' : SortedMap Key Value} {key : Key} {value : Value}

theorem lookup_cons {e : Key × Value} {entries : List (Key × Value)} :
    (e :: entries).lookup key = if key = e.1 then some e.2 else entries.lookup key := by
  obtain ⟨key', value⟩ := e
  by_cases hkey : key = key'
  · simp [hkey]
  · have hbeq : (key == key') = false := beq_eq_false_iff_ne.mpr hkey
    simp [List.lookup_cons, hbeq, hkey]

theorem lookup_eq_none {entries : List (Key × Value)} (h : ∀ e ∈ entries, key < e.1) :
    entries.lookup key = none :=
  List.lookup_eq_none_iff.mpr fun e he => by simpa using ne_of_lt (h e he)

theorem lookup_insertEntry {entry : Key × Value} {entries : List (Key × Value)}
    (h : entries.Pairwise fun e e' => e.1 < e'.1) :
    (insertEntry entry entries).lookup key =
      (entries.lookup key).or (if key = entry.1 then some entry.2 else none) := by
  induction entries with
  | nil => rw [insertEntry, lookup_cons]; simp
  | cons first rest ih =>
    obtain ⟨hfirst, hrest⟩ := List.pairwise_cons.mp h
    rw [insertEntry]
    split
    · rename_i hlt
      rw [lookup_cons]
      by_cases hkey : key = entry.1
      · have hnone : (first :: rest).lookup key = none := lookup_eq_none
          (List.forall_mem_cons.mpr ⟨hkey ▸ hlt, fun e he => hkey ▸ lt_trans hlt (hfirst e he)⟩)
        simp [hkey, hkey ▸ hnone]
      · simp [hkey]
    · split
      · rename_i heq
        rw [lookup_cons]
        by_cases hkey : key = first.1 <;> simp [heq, hkey]
      · rw [lookup_cons, lookup_cons, ih hrest]
        by_cases hkey : key = first.1 <;> simp [hkey]

theorem find_insert (key' : Key) : (m.insert key value).find key' =
    (m.find key').or (if key' = key then some value else none) :=
  lookup_insertEntry m.sorted

theorem find_empty : (empty : SortedMap Key Value).find key = none := rfl

/-- The entries are the values that are found. -/
theorem mem_entries_iff : (key, value) ∈ m.entries ↔ m.find key = some value := by
  obtain ⟨entries, hsorted⟩ := m
  induction entries with
  | nil => simp [find]
  | cons e rest ih =>
    obtain ⟨hfirst, hrest⟩ := List.pairwise_cons.mp hsorted
    have hih : (key, value) ∈ rest ↔ rest.lookup key = some value := ih hrest
    rw [find, lookup_cons, List.mem_cons, hih]
    by_cases hkey : key = e.1
    · have hnone : rest.lookup key = none := lookup_eq_none (hkey ▸ hfirst)
      simp [hkey, hkey ▸ hnone, Prod.ext_iff, eq_comm]
    · simp [hkey, Prod.ext_iff]

theorem nodup_entries (m : SortedMap Key Value) : m.entries.Nodup :=
  m.sorted.imp fun {e e'} (hlt : e.1 < e'.1) (heq : e = e') => ne_of_lt hlt (congrArg Prod.fst heq)

/-- Sorted entries are known by their members. -/
theorem ext_find (h : ∀ key, m.find key = m'.find key) : m = m' := by
  have hmem (e : Key × Value) : e ∈ m.entries ↔ e ∈ m'.entries := by
    obtain ⟨key, value⟩ := e
    rw [mem_entries_iff, mem_entries_iff, h]
  have hperm : m.entries.Perm m'.entries :=
    (List.perm_ext_iff_of_nodup m.nodup_entries m'.nodup_entries).mpr hmem
  refine SortedMap.ext (hperm.eq_of_pairwise (fun e e' _ _ h h' => ?_) m.sorted m'.sorted)
  exact (lt_asymm h h').elim

/-- The entries inserted one after another. -/
def insertAll (m : SortedMap Key Value) (entries : List (Key × Value)) : SortedMap Key Value :=
  entries.foldl (fun m e => m.insert e.1 e.2) m

theorem find_insertAll {entries : List (Key × Value)} :
    (m.insertAll entries).find key = (m.find key).or (entries.lookup key) := by
  induction entries generalizing m with
  | nil => simp [insertAll]
  | cons e rest ih =>
    rw [insertAll, List.foldl_cons, ← insertAll, ih, find_insert, lookup_cons, Option.or_assoc]
    split <;> simp

/-- A map, and what another one has beside. -/
def union (m m' : SortedMap Key Value) : SortedMap Key Value := m.insertAll m'.entries

theorem find_union : (m.union m').find key = (m.find key).or (m'.find key) := find_insertAll

theorem union_empty : m.union empty = m := rfl

/-- A new entry beside a map is one of what is put beside it. -/
theorem insert_union : (m.insert key value).union m' =
    m.union ((empty.insert key value).union m') := by
  refine ext_find fun key' => ?_
  simp only [find_union, find_insert, find_empty, Option.none_or, Option.or_assoc]

theorem empty_union : empty.union m = m :=
  ext_find fun key => by rw [find_union, find_empty, Option.none_or]

end SortedMap
