import Mathlib.Data.Fintype.Card
import Mathlib.Logic.Relation

/-! A depth-first search that gives up at a node it has visited before. It succeeds exactly if what
it reaches is a forest: each node is named once. -/
namespace TreeSearch

open Relation

variable {α : Type*} [DecidableEq α] (succ : α → List α)

/-- The search from these nodes meets no visited node, and leaves the second set visited. -/
inductive Explores : Finset α → List α → Finset α → Prop
  | nil {V} : Explores V [] V
  | cons {V V₁ V₂ a l} (fresh : a ∉ V) (below : Explores (insert a V) (succ a) V₁)
      (beside : Explores V₁ l V₂) : Explores V (a :: l) V₂

/-- A path leads from one of the nodes to this one. -/
def Reached (l : List α) (x : α) : Prop :=
  ∃ a ∈ l, ReflTransGen (fun y z => z ∈ succ y) a x

/-- No node is named twice, be it in the list or by the nodes that are reached. -/
structure NamedOnce (l : List α) : Prop where
  roots : l.Nodup
  calls : ∀ x, Reached succ l x → (succ x).Nodup
  single : ∀ x y z, Reached succ l x → Reached succ l y → z ∈ succ x → z ∈ succ y → x = y
  root : ∀ x, Reached succ l x → ∀ z ∈ succ x, z ∉ l

variable {succ} {V V' : Finset α} {l l₁ l₂ : List α} {a x y z : α}

omit [DecidableEq α]

theorem reached_of_mem (h : x ∈ l) : Reached succ l x := ⟨x, h, .refl⟩

theorem Reached.tail (h : Reached succ l x) (hz : z ∈ succ x) : Reached succ l z := by
  obtain ⟨a, ha, hpath⟩ := h
  exact ⟨a, ha, hpath.tail hz⟩

@[simp] theorem not_reached_nil : ¬ Reached succ [] x := by simp [Reached]

theorem reached_cons :
    Reached succ (a :: l) x ↔ x = a ∨ Reached succ (succ a) x ∨ Reached succ l x := by
  constructor
  · rintro ⟨b, hb, hpath⟩
    rcases List.mem_cons.mp hb with rfl | hb
    · rcases hpath.cases_head with rfl | ⟨c, hc, hrest⟩
      · exact Or.inl rfl
      · exact Or.inr (Or.inl ⟨c, hc, hrest⟩)
    · exact Or.inr (Or.inr ⟨b, hb, hpath⟩)
  · rintro (rfl | ⟨c, hc, hpath⟩ | ⟨b, hb, hpath⟩)
    · exact reached_of_mem List.mem_cons_self
    · exact ⟨a, List.mem_cons_self, ReflTransGen.head hc hpath⟩
    · exact ⟨b, List.mem_cons_of_mem a hb, hpath⟩

theorem reached_append : Reached succ (l₁ ++ l₂) x ↔ Reached succ l₁ x ∨ Reached succ l₂ x := by
  simp only [Reached, List.mem_append, or_and_right, exists_or]

theorem reached_cases (h : Reached succ l x) :
    x ∈ l ∨ ∃ y, Reached succ l y ∧ x ∈ succ y := by
  obtain ⟨a, ha, hpath⟩ := h
  rcases hpath.cases_tail with rfl | ⟨y, hy, hx⟩
  · exact Or.inl ha
  · exact Or.inr ⟨y, ⟨a, ha, hy⟩, hx⟩

theorem NamedOnce.nil : NamedOnce succ [] where
  roots := List.nodup_nil
  calls _ h := absurd h not_reached_nil
  single _ _ _ h := absurd h not_reached_nil
  root _ h := absurd h not_reached_nil

/-- What is below the first node is named once, the node itself not among it. -/
theorem NamedOnce.below (h : NamedOnce succ (a :: l)) :
    NamedOnce succ (succ a) ∧ ¬ Reached succ (succ a) a := by
  have hup {x : α} (hx : Reached succ (succ a) x) : Reached succ (a :: l) x :=
    reached_cons.mpr (Or.inr (Or.inl hx))
  have ha : Reached succ (a :: l) a := reached_of_mem List.mem_cons_self
  have hself : ¬ Reached succ (succ a) a := by
    intro hx
    rcases reached_cases hx with hmem | ⟨y, hy, hmem⟩
    · exact h.root a ha a hmem List.mem_cons_self
    · exact h.root y (hup hy) a hmem List.mem_cons_self
  refine ⟨⟨h.calls a ha, fun x hx => h.calls x (hup hx), fun x y z hx hy =>
    h.single x y z (hup hx) (hup hy), fun x hx z hz hroot => ?_⟩, hself⟩
  -- a node below that names a successor of the first node is the first node
  exact hself (h.single x a z (hup hx) ha hz hroot ▸ hx)

/-- What is reached from the other nodes is named once, and the first node does not reach it. -/
theorem NamedOnce.beside (h : NamedOnce succ (a :: l)) :
    NamedOnce succ l ∧ ∀ x, Reached succ l x → ¬ Reached succ [a] x := by
  have hup {x : α} (hx : Reached succ l x) : Reached succ (a :: l) x :=
    reached_cons.mpr (Or.inr (Or.inr hx))
  have hup' {x : α} (hx : Reached succ [a] x) : Reached succ (a :: l) x := by
    rw [reached_cons] at hx ⊢
    simp only [not_reached_nil, or_false] at hx
    exact hx.elim Or.inl fun hx => Or.inr (Or.inl hx)
  refine ⟨⟨h.roots.of_cons, fun x hx => h.calls x (hup hx), fun x y z hx hy =>
    h.single x y z (hup hx) (hup hy), fun x hx z hz hroot =>
    h.root x (hup hx) z hz (List.mem_cons_of_mem a hroot)⟩, ?_⟩
  rintro x ⟨b, hb, hpath⟩
  -- go back along the path: the node before is reached from the first one too
  induction hpath with
  | refl =>
    intro hx
    rcases reached_cases hx with hmem | ⟨y, hy, hmem⟩
    · exact (List.nodup_cons.mp h.roots).1 (List.mem_singleton.mp hmem ▸ hb)
    · exact h.root y (hup' hy) b hmem (List.mem_cons_of_mem a hb)
  | @tail y z hpath hz ih =>
    have hy : Reached succ l y := ⟨b, hb, hpath⟩
    intro hx
    rcases reached_cases hx with hmem | ⟨y', hy', hmem⟩
    · exact h.root y (hup hy) z hz (List.mem_singleton.mp hmem ▸ List.mem_cons_self)
    · exact ih (h.single y y' z (hup hy) (hup' hy') hz hmem ▸ hy')

/-- Lists that reach different nodes, each named once, make a longer one. -/
theorem NamedOnce.cons (hbelow : NamedOnce succ (succ a)) (hself : ¬ Reached succ (succ a) a)
    (hbeside : NamedOnce succ l) (hdisjoint : ∀ x, Reached succ l x → ¬ Reached succ [a] x) :
    NamedOnce succ (a :: l) := by
  have hone {x : α} : Reached succ [a] x ↔ x = a ∨ Reached succ (succ a) x := by
    rw [reached_cons]
    simp
  have hcases {x : α} (hx : Reached succ (a :: l) x) :
      (x = a ∨ Reached succ (succ a) x) ∨ Reached succ l x := by
    rwa [reached_cons, ← or_assoc] at hx
  have hnext {x z : α} (hx : Reached succ [a] x) (hz : z ∈ succ x) : Reached succ (succ a) z := by
    rcases hone.mp hx with rfl | hx
    · exact reached_of_mem hz
    · exact hx.tail hz
  have hapart {x y z : α} (hx : Reached succ [a] x) (hy : Reached succ l y) (hz : z ∈ succ x)
      (hz' : z ∈ succ y) : False :=
    hdisjoint z (hy.tail hz') (hone.mpr (Or.inr (hnext hx hz)))
  refine ⟨List.nodup_cons.mpr ⟨fun ha => ?_, hbeside.roots⟩, fun x hx => ?_,
    fun x y z hx hy hz hz' => ?_, fun x hx z hz hroot => ?_⟩
  · exact hdisjoint a (reached_of_mem ha) (reached_of_mem List.mem_cons_self)
  · rcases hcases hx with (rfl | hx) | hx
    · exact hbelow.roots
    · exact hbelow.calls x hx
    · exact hbeside.calls x hx
  · rcases hcases hx with hx | hx <;> rcases hcases hy with hy | hy
    · rcases hx with rfl | hx <;> rcases hy with rfl | hy
      · rfl
      · exact (hbelow.root y hy z hz' hz).elim
      · exact (hbelow.root x hx z hz hz').elim
      · exact hbelow.single x y z hx hy hz hz'
    · exact (hapart (hone.mpr hx) hy hz hz').elim
    · exact (hapart (hone.mpr hy) hx hz' hz).elim
    · exact hbeside.single x y z hx hy hz hz'
  · rcases hcases hx with hfirst | hother
    · have hbelow' := hnext (hone.mpr hfirst) hz
      rcases List.mem_cons.mp hroot with rfl | hroot
      · exact hself hbelow'
      · exact hdisjoint z (reached_of_mem hroot) (hone.mpr (Or.inr hbelow'))
    · rcases List.mem_cons.mp hroot with rfl | hroot
      · exact hdisjoint z (hother.tail hz) (reached_of_mem List.mem_cons_self)
      · exact hbeside.root x hother z hz hroot

variable [DecidableEq α]

/-- A search visits what it reaches, and has visited nothing of that before. -/
theorem Explores.visited (h : Explores succ V l V') :
    (∀ x, x ∈ V' ↔ x ∈ V ∨ Reached succ l x) ∧ (∀ x, Reached succ l x → x ∉ V) := by
  induction h with
  | nil => simp
  | @cons V V₁ V₂ a l fresh below beside ihbelow ihbeside =>
    refine ⟨fun x => ?_, fun x hx => ?_⟩
    · rw [ihbeside.1, ihbelow.1, Finset.mem_insert, reached_cons]
      tauto
    · rcases reached_cons.mp hx with rfl | hx | hx
      · exact fresh
      · exact fun hV => ihbelow.2 x hx (Finset.mem_insert_of_mem hV)
      · exact fun hV => ihbeside.2 x hx ((ihbelow.1 x).mpr (Or.inl (Finset.mem_insert_of_mem hV)))

theorem Explores.namedOnce (h : Explores succ V l V') : NamedOnce succ l := by
  induction h with
  | nil => exact NamedOnce.nil
  | @cons V V₁ V₂ a l fresh below beside ihbelow ihbeside =>
    refine ihbelow.cons (fun hself => below.visited.2 a hself (Finset.mem_insert_self a V))
      ihbeside fun x hx hfirst => ?_
    refine beside.visited.2 x hx ((below.visited.1 x).mpr ?_)
    rcases reached_cons.mp hfirst with rfl | hfirst | hnil
    · exact Or.inl (Finset.mem_insert_self x V)
    · exact Or.inr hfirst
    · exact absurd hnil not_reached_nil

/-- Where each node is named once, and none is visited, the search goes through. -/
theorem NamedOnce.explores [Fintype α] (h : NamedOnce succ l)
    (hfresh : ∀ x, Reached succ l x → x ∉ V) : ∃ V', Explores succ V l V' := by
  -- by the number of unvisited nodes, which the search below a node lowers, and then by the list
  induction hn : Fintype.card α - V.card using Nat.strong_induction_on generalizing V l with
  | _ n ihn =>
    induction l generalizing V n with
    | nil => exact ⟨V, .nil⟩
    | cons a l ihl =>
      have ha : a ∉ V := hfresh a (reached_of_mem List.mem_cons_self)
      obtain ⟨hbelow, hself⟩ := h.below
      obtain ⟨hbeside, hdisjoint⟩ := h.beside
      have hroom : Fintype.card α - (insert a V).card < n := by
        have hle := Finset.card_le_univ (insert a V)
        rw [Finset.card_insert_of_notMem ha] at hle ⊢
        omega
      obtain ⟨V₁, h₁⟩ := ihn _ hroom hbelow (V := insert a V) (fun x hx hV => by
        rcases Finset.mem_insert.mp hV with rfl | hV
        · exact hself hx
        · exact hfresh x (reached_cons.mpr (Or.inr (Or.inl hx))) hV) rfl
      have hsub : V ⊆ V₁ := fun x hx => (h₁.visited.1 x).mpr (Or.inl (Finset.mem_insert_of_mem hx))
      have hfresh₁ : ∀ x, Reached succ l x → x ∉ V₁ := by
        intro x hx hV
        rcases (h₁.visited.1 x).mp hV with hV | hV
        · rcases Finset.mem_insert.mp hV with rfl | hV
          · exact hdisjoint x hx (reached_of_mem List.mem_cons_self)
          · exact hfresh x (reached_cons.mpr (Or.inr (Or.inr hx))) hV
        · exact hdisjoint x hx (reached_cons.mpr (Or.inr (Or.inl hV)))
      have hle : Fintype.card α - V₁.card ≤ n := by
        have := Finset.card_le_card hsub
        omega
      obtain ⟨V₂, h₂⟩ := ihl _ (fun m hm => ihn m (by omega)) hbeside hfresh₁ rfl
      exact ⟨V₂, .cons ha h₁ h₂⟩

theorem explores_append : Explores succ V (l₁ ++ l₂) V' ↔
    ∃ V₁, Explores succ V l₁ V₁ ∧ Explores succ V₁ l₂ V' := by
  induction l₁ generalizing V with
  | nil =>
    refine ⟨fun h => ⟨V, .nil, h⟩, ?_⟩
    rintro ⟨V₁, ⟨⟩, h⟩
    exact h
  | cons a l₁ ih =>
    constructor
    · intro h
      obtain _ | ⟨fresh, below, beside⟩ := h
      obtain ⟨V₁, h₁, h₂⟩ := ih.mp beside
      exact ⟨V₁, .cons fresh below h₁, h₂⟩
    · rintro ⟨V₁, _ | ⟨fresh, below, beside⟩, h₂⟩
      exact .cons fresh below (ih.mpr ⟨V₁, beside, h₂⟩)

variable [Fintype α]

theorem explores_iff :
    (∃ V', Explores succ V l V') ↔ NamedOnce succ l ∧ ∀ x, Reached succ l x → x ∉ V :=
  ⟨fun ⟨_, h⟩ => ⟨h.namedOnce, h.visited.2⟩, fun h => h.1.explores h.2⟩

theorem namedOnce_append : NamedOnce succ (l₁ ++ l₂) ↔
    NamedOnce succ l₁ ∧ NamedOnce succ l₂ ∧ ∀ x, Reached succ l₂ x → ¬ Reached succ l₁ x := by
  constructor
  · intro h
    obtain ⟨V', hV'⟩ := h.explores (V := ∅) (by simp)
    obtain ⟨V₁, h₁, h₂⟩ := explores_append.mp hV'
    exact ⟨h₁.namedOnce, h₂.namedOnce, fun x hx hx₁ =>
      h₂.visited.2 x hx ((h₁.visited.1 x).mpr (Or.inr hx₁))⟩
  · rintro ⟨hl₁, hl₂, hdisjoint⟩
    obtain ⟨V₁, h₁⟩ := hl₁.explores (V := ∅) (by simp)
    obtain ⟨V₂, h₂⟩ := hl₂.explores (V := V₁) fun x hx hV =>
      hdisjoint x hx (by simpa using (h₁.visited.1 x).mp hV)
    exact (explores_append.mpr ⟨V₁, h₁, h₂⟩).namedOnce

end TreeSearch
