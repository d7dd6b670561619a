import Mathlib.Data.List.Basic

/-! A table that is filled on request, what a value refers to before the value itself, and that never
answers a key twice. -/
namespace Memo

variable {α κ ν : Type*} [BEq κ] (key : α → κ) (children : α → List α) (value : α → ν)

/-- The table after a request. -/
def populate : Nat → List (κ × ν) → α → Option (List (κ × ν))
  | 0, _, _ => none
  | fuel + 1, table, a =>
    if (table.lookup (key a)).isSome then some table
    else do
      let table ← (children a).foldlM (populate fuel) table
      return table ++ [(key a, value a)]

/-- The requests that one request stands for, in the order in which they are answered. -/
def order : Nat → α → List α
  | 0, _ => []
  | fuel + 1, a => (children a).flatMap (order fuel) ++ [a]

/-- The table answers each key with the first of these requests that has it. -/
def Represents (table : List (κ × ν)) (seen : List α) : Prop :=
  ∀ k, table.lookup k = (seen.find? fun a => key a == k).map value

/-- What a request refers to has been requested. -/
def Closed (seen : List α) : Prop := ∀ a ∈ seen, children a ⊆ seen

variable {key children value} {table : List (κ × ν)} {seen : List α} {a : α}

theorem Represents.nil : Represents key value ([] : List (κ × ν)) [] := fun _ => rfl

theorem Closed.nil : Closed children [] := by simp [Closed]

theorem Closed.append {seen' : List α} (h : Closed children seen) (h' : ∀ a ∈ seen',
    children a ⊆ seen ++ seen') : Closed children (seen ++ seen') := by
  intro a ha
  rcases List.mem_append.mp ha with ha | ha
  · exact List.Subset.trans (h a ha) (List.subset_append_left _ _)
  · exact h' a ha

theorem order_subset_of_mem (h : Closed children seen) (ha : a ∈ seen) (fuel : Nat) :
    order children fuel a ⊆ seen := by
  induction fuel generalizing a with
  | zero => simp [order]
  | succ fuel ih =>
    rw [order]
    refine List.append_subset.mpr ⟨fun b hb => ?_, by simpa using ha⟩
    obtain ⟨c, hc, hb⟩ := List.mem_flatMap.mp hb
    exact ih (h a ha hc) hb

/-- The request is the last of its order. -/
theorem mem_order {fuel : Nat} (hfuel : 0 < fuel) : a ∈ order children fuel a := by
  obtain ⟨fuel, rfl⟩ := Nat.exists_eq_add_of_le' hfuel
  rw [order]
  simp

/-- An order is complete. -/
theorem closed_order {rank : α → Nat} (hrank : ∀ a, ∀ c ∈ children a, rank c < rank a)
    {fuel : Nat} (hfuel : rank a < fuel) : Closed children (order children fuel a) := by
  induction fuel generalizing a with
  | zero => omega
  | succ fuel ih =>
    intro b hb
    rw [order] at hb ⊢
    refine List.Subset.trans ?_ (List.subset_append_left _ _)
    rcases List.mem_append.mp hb with hb | hb
    · obtain ⟨c, hc, hb⟩ := List.mem_flatMap.mp hb
      have := hrank a c hc
      intro d hd
      exact List.mem_flatMap.mpr ⟨c, hc, ih (by omega) b hb hd⟩
    · obtain rfl := List.mem_singleton.mp hb
      intro c hc
      have := hrank b c hc
      exact List.mem_flatMap.mpr ⟨c, hc, mem_order (by omega)⟩

/-- Requests whose keys are there change nothing. -/
theorem Represents.append_of_known (h : Represents key value table seen) {l : List α}
    (hl : ∀ b ∈ l, ∃ c ∈ seen, key c = key b) : Represents key value table (seen ++ l) := by
  intro k
  rw [h k, List.find?_append]
  cases hfind : seen.find? fun a => key a == k with
  | some b => rfl
  | none =>
    have hnone : (l.find? fun a => key a == k) = none := by
      refine List.find?_eq_none.mpr fun b hb hbk => ?_
      obtain ⟨c, hc, hcb⟩ := hl b hb
      exact List.find?_eq_none.mp hfind c hc (by rwa [hcb])
    rw [hnone]
    rfl

variable {P : α → Prop}

variable (key children value P) in
/-- A table filled by requests of the kind, all of them answered. -/
structure Filled (table : List (κ × ν)) (seen : List α) : Prop where
  represents : Represents key value table seen
  closed : Closed children seen
  kind : ∀ a ∈ seen, P a

theorem Filled.nil : Filled key children value P ([] : List (κ × ν)) [] :=
  ⟨Represents.nil, Closed.nil, by simp⟩

/-- Requests that are known by their keys, as all that they refer to is, leave the table as it is. -/
theorem Filled.append_known (h : Filled key children value P table seen) {l : List α}
    (hl : ∀ b ∈ l, P b ∧ children b ⊆ seen ∧ ∃ c ∈ seen, key c = key b) :
    Filled key children value P table (seen ++ l) where
  represents := h.represents.append_of_known fun b hb => (hl b hb).2.2
  closed := h.closed.append fun b hb =>
    List.Subset.trans (hl b hb).2.1 (List.subset_append_left _ _)
  kind b hb := (List.mem_append.mp hb).elim (h.kind b) fun hb => (hl b hb).1

/-- Requests one after another fill the table if each of them does. -/
theorem Filled.foldlM {answer : List (κ × ν) → α → Option (List (κ × ν))} {answered : α → List α}
    {l : List α} (hl : ∀ a ∈ l, ∀ table seen, Filled key children value P table seen →
      ∃ table', answer table a = some table' ∧
        Filled key children value P table' (seen ++ answered a))
    (h : Filled key children value P table seen) :
    ∃ table', l.foldlM answer table = some table' ∧
      Filled key children value P table' (seen ++ l.flatMap answered) := by
  induction l generalizing table seen with
  | nil => exact ⟨table, rfl, by simpa using h⟩
  | cons a l ih =>
    obtain ⟨table₁, h₁, hfilled₁⟩ := hl a List.mem_cons_self table seen h
    obtain ⟨table', h', hfilled'⟩ := ih (fun b hb => hl b (List.mem_cons_of_mem a hb)) hfilled₁
    refine ⟨table', by rw [List.foldlM_cons, h₁]; exact h', ?_⟩
    rwa [List.append_assoc, ← List.flatMap_cons] at hfilled'

section Table

variable [LawfulBEq κ]

theorem Represents.append_single (h : Represents key value table seen) (a : α) :
    Represents key value (table ++ [(key a, value a)]) (seen ++ [a]) := by
  intro k
  have hlast : ([(key a, value a)] : List (κ × ν)).lookup k =
      ([a].find? fun a => key a == k).map value := by
    by_cases hk : key a = k
    · subst hk
      simp
    · have hak : (k == key a) = false := beq_false_of_ne (Ne.symm hk)
      have hka : (key a == k) = false := beq_false_of_ne hk
      simp [List.lookup_cons, hak, hka]
  rw [List.lookup_append, h k, hlast, List.find?_append]
  cases seen.find? fun a => key a == k <;> rfl

/-- A request is answered when all that it refers to is there. -/
theorem Filled.append_new (h : Filled key children value P table seen) (ha : P a)
    (hchildren : children a ⊆ seen) :
    Filled key children value P (table ++ [(key a, value a)]) (seen ++ [a]) where
  represents := h.represents.append_single a
  closed := h.closed.append fun b hb => by
    obtain rfl := List.mem_singleton.mp hb
    exact List.Subset.trans hchildren (List.subset_append_left _ _)
  kind b hb := by
    rcases List.mem_append.mp hb with hb | hb
    · exact h.kind b hb
    · obtain rfl := List.mem_singleton.mp hb
      exact ha

/-- A key that the table knows is that of an earlier request. -/
theorem Represents.exists_of_isSome (h : Represents key value table seen) {k : κ}
    (hk : (table.lookup k).isSome) : ∃ c ∈ seen, key c = k := by
  rw [h k, Option.isSome_map] at hk
  obtain ⟨c, hc⟩ := Option.isSome_iff_exists.mp hk
  exact ⟨c, List.mem_of_find?_eq_some hc, by simpa using List.find?_some hc⟩

variable {rank : α → Nat} (hrank : ∀ a, ∀ c ∈ children a, rank c < rank a)
  (hkind : ∀ a, P a → ∀ c ∈ children a, P c)
  (hkey : ∀ a b, P a → P b → key a = key b → children a = children b)
include hrank hkind hkey

/-- A request fills the table, whatever was requested before. -/
theorem Filled.populate {fuel : Nat} (hfuel : rank a < fuel) (ha : P a)
    (h : Filled key children value P table seen) :
    ∃ table', Memo.populate key children value fuel table a = some table' ∧
      Filled key children value P table' (seen ++ order children fuel a) := by
  induction fuel generalizing table seen a with
  | zero => omega
  | succ fuel ih =>
    rw [Memo.populate, order]
    split
    · rename_i hknown
      obtain ⟨a₀, ha₀, hkey₀⟩ := h.represents.exists_of_isSome hknown
      -- an earlier request of the key referred to the same, so all of it is there
      have hchildren := hkey a₀ a (h.kind a₀ ha₀) ha hkey₀
      refine ⟨table, rfl, h.append_known fun b hb => ?_⟩
      rcases List.mem_append.mp hb with hb | hb
      · obtain ⟨c, hc, hb⟩ := List.mem_flatMap.mp hb
        have hseen := order_subset_of_mem h.closed (h.closed a₀ ha₀ (hchildren ▸ hc)) fuel hb
        exact ⟨h.kind b hseen, h.closed b hseen, b, hseen, rfl⟩
      · obtain rfl := List.mem_singleton.mp hb
        exact ⟨ha, hchildren ▸ h.closed a₀ ha₀, a₀, ha₀, hkey₀⟩
    · have hfold : ∃ table₁, (children a).foldlM (Memo.populate key children value fuel) table =
          some table₁ ∧ Filled key children value P table₁
            (seen ++ (children a).flatMap (order children fuel)) :=
        Filled.foldlM (fun c hc table seen hfilled =>
          ih (by have := hrank a c hc; omega) (hkind a ha c hc) hfilled) h
      obtain ⟨table₁, h₁, hfilled₁⟩ := hfold
      refine ⟨_, by rw [h₁]; rfl, ?_⟩
      rw [← List.append_assoc]
      refine hfilled₁.append_new ha fun c hc => List.mem_append_right _ ?_
      have := hrank a c hc
      exact List.mem_flatMap.mpr ⟨c, hc, mem_order (by omega)⟩

end Table

end Memo
