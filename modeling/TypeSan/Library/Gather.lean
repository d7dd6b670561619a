import Mathlib.Logic.Function.Basic
import Mathlib.Logic.Relation

/-! A pass over an acyclic graph of nodes in a heap. Each node gathers the items of its successors,
after they have gathered theirs, and a mark keeps it from doing so twice. -/
namespace Gather

variable {ι Node α : Type*}

/-- Appends, in order, the items that are not there yet. -/
def mergeUnique [DecidableEq α] (current items : List α) : List α :=
  items.foldl (fun current item => if item ∈ current then current else current ++ [item]) current

@[simp] theorem mem_mergeUnique [DecidableEq α] {current items : List α} {x : α} :
    x ∈ mergeUnique current items ↔ x ∈ current ∨ x ∈ items := by
  induction items generalizing current with
  | nil => simp [mergeUnique]
  | cons item items ih =>
    rw [mergeUnique, List.foldl_cons]
    change x ∈ mergeUnique _ items ↔ _
    rw [ih]
    split
    · rename_i hmem
      constructor
      · exact Or.imp_right (List.mem_cons_of_mem item)
      · rintro (h | h)
        · exact Or.inl h
        · rcases List.mem_cons.mp h with rfl | h
          · exact Or.inl hmem
          · exact Or.inr h
    · simp only [List.mem_append, List.mem_cons, List.not_mem_nil, or_false, or_assoc]

/-- How a pass reads and writes a node. -/
structure Fields (ι Node α : Type*) where
  succ : Node → List ι
  isDone : Node → Bool
  markDone : Node → Node
  items : Node → List α
  setItems : List α → Node → Node
  isDone_markDone : ∀ node, isDone (markDone node) = true
  items_markDone : ∀ node, items (markDone node) = items node
  succ_setItems : ∀ xs node, succ (setItems xs node) = succ node
  isDone_setItems : ∀ xs node, isDone (setItems xs node) = isDone node
  items_setItems : ∀ xs node, items (setItems xs node) = xs
  setItems_items : ∀ node, setItems (items node) node = node
  setItems_setItems : ∀ xs ys node, setItems xs (setItems ys node) = setItems xs node

variable (F : Fields ι Node α)

/-! What a node gathers. -/

section Gathered

variable (H₀ : ι → Node)

def Gathered (i : ι) (x : α) : Prop :=
  ∃ j, Relation.ReflTransGen (fun i j => j ∈ F.succ (H₀ i)) i j ∧ x ∈ F.items (H₀ j)

theorem gathered_iff {i : ι} {x : α} :
    Gathered F H₀ i x ↔ x ∈ F.items (H₀ i) ∨ ∃ j ∈ F.succ (H₀ i), Gathered F H₀ j x := by
  constructor
  · rintro ⟨j, hij, hx⟩
    rcases hij.cases_head with rfl | ⟨l, hl, hlj⟩
    · exact Or.inl hx
    · exact Or.inr ⟨l, hl, j, hlj, hx⟩
  · rintro (hx | ⟨l, hl, j, hlj, hx⟩)
    · exact ⟨i, .refl, hx⟩
    · exact ⟨j, .head hl hlj, hx⟩

/-- The node is done, and has changed in no other way. -/
def Settled (i : ι) (node : Node) : Prop :=
  ∃ xs, node = F.markDone (F.setItems xs (H₀ i)) ∧ ∀ x, x ∈ xs ↔ Gathered F H₀ i x

/-- The node has not been visited yet, or is done. -/
def Known (i : ι) (node : Node) : Prop := node = H₀ i ∨ Settled F H₀ i node

/-- The graph of some of the nodes, none of them done, is closed and has no cycles. -/
structure Acyclic (N : ι → Prop) (rank : ι → Nat) : Prop where
  fresh : ∀ i, N i → F.isDone (H₀ i) = false
  succ_mem : ∀ i, N i → ∀ j ∈ F.succ (H₀ i), N j
  succ_lt : ∀ i, N i → ∀ j ∈ F.succ (H₀ i), rank j < rank i

/-- What the visits of successors of `i` change, if `i` is left out. -/
structure Frame (N : ι → Prop) (rank : ι → Nat) (H H' : ι → Node) (i : ι) : Prop where
  below : ∀ j, N j → rank j < rank i → Known F H₀ j (H' j)
  above : ∀ j, j ≠ i → (N j → rank i ≤ rank j) → H' j = H j
  kept : ∀ j, j ≠ i → Settled F H₀ j (H j) → Settled F H₀ j (H' j)

end Gathered

section Frame

variable {F} {H₀ H : ι → Node} {N : ι → Prop} {rank : ι → Nat}

theorem Settled.isDone {i : ι} {node : Node} (h : Settled F H₀ i node) : F.isDone node = true := by
  obtain ⟨xs, rfl, -⟩ := h
  exact F.isDone_markDone _

theorem Settled.mem_items {i : ι} {node : Node} (h : Settled F H₀ i node) {x : α} :
    x ∈ F.items node ↔ Gathered F H₀ i x := by
  obtain ⟨xs, rfl, hxs⟩ := h
  rw [F.items_markDone, F.items_setItems]
  exact hxs x

theorem Frame.trans {H₁ H₂ : ι → Node} {i : ι} (h : Frame F H₀ N rank H H₁ i)
    (h' : Frame F H₀ N rank H₁ H₂ i) : Frame F H₀ N rank H H₂ i where
  below := h'.below
  above j hj habove := (h'.above j hj habove).trans (h.above j hj habove)
  kept j hj hset := h'.kept j hj (h.kept j hj hset)

/-- A visit of a successor, within the visit of a node. -/
theorem Frame.step {H₁ H₂ : ι → Node} {i j : ι} (hj : N j) (hlt : rank j < rank i)
    (hbelow : ∀ l, N l → rank l < rank i → Known F H₀ l (H l)) (h : Frame F H₀ N rank H H₁ j)
    (hsettled : Settled F H₀ j (H₁ j)) (h₂ : ∀ l, l ≠ i → H₂ l = H₁ l) :
    Frame F H₀ N rank H H₂ i where
  below l hl hli := by
    rw [h₂ l (by rintro rfl; omega)]
    by_cases hlj : l = j
    · subst hlj
      exact Or.inr hsettled
    · by_cases hrank : rank l < rank j
      · exact h.below l hl hrank
      · rw [h.above l hlj fun _ => Nat.le_of_not_lt hrank]
        exact hbelow l hl hli
  above l hl habove := by
    rw [h₂ l hl]
    refine h.above l ?_ fun hN => Nat.le_trans (Nat.le_of_lt hlt) (habove hN)
    rintro rfl
    have := habove hj
    omega
  kept l hl hset := by
    rw [h₂ l hl]
    by_cases hlj : l = j
    · subst hlj
      exact hsettled
    · exact h.kept l hlj hset

end Frame

/-! Visits. -/

section Visit

variable [DecidableEq ι] [DecidableEq α]

/-- The merging of one node's items into another's. -/
def take (i j : ι) (H : ι → Node) : ι → Node :=
  Function.update H i (F.setItems (mergeUnique (F.items (H i)) (F.items (H j))) (H i))

/-- The visit of a node, with fuel for the depth of the recursion. -/
def visit : Nat → ι → (ι → Node) → Option (ι → Node)
  | 0, _, _ => none
  | fuel + 1, i, H =>
    if F.isDone (H i) then some H
    else do
      let H ← (F.succ (H i)).foldlM (fun H j => return take F i j (← visit fuel j H)) H
      return Function.update H i (F.markDone (H i))

variable {F} {H₀ H : ι → Node} {N : ι → Prop} {rank : ι → Nat}

/-- The loop over the successors. -/
theorem visit_succ {fuel : Nat} {i : ι} (ih : ∀ j H, N j → rank j < fuel →
      Known F H₀ j (H j) → (∀ l, N l → rank l < rank j → Known F H₀ l (H l)) →
      ∃ H', visit F fuel j H = some H' ∧ Settled F H₀ j (H' j) ∧ Frame F H₀ N rank H H' j)
    (hfuel : rank i ≤ fuel) {js : List ι} (hjs : ∀ j ∈ js, N j ∧ rank j < rank i) {xs : List α}
    (hi : H i = F.setItems xs (H₀ i))
    (hbelow : ∀ l, N l → rank l < rank i → Known F H₀ l (H l)) :
    ∃ H' xs', js.foldlM (fun H j => return take F i j (← visit F fuel j H)) H = some H' ∧
      H' i = F.setItems xs' (H₀ i) ∧ (∀ x, x ∈ xs' ↔ x ∈ xs ∨ ∃ j ∈ js, Gathered F H₀ j x) ∧
      Frame F H₀ N rank H H' i := by
  induction js generalizing H xs with
  | nil => exact ⟨H, xs, rfl, hi, by simp, hbelow, fun _ _ _ => rfl, fun _ _ h => h⟩
  | cons j js ihjs =>
    obtain ⟨hj, hlt⟩ := hjs j List.mem_cons_self
    obtain ⟨H₁, h₁, hset₁, hframe₁⟩ := ih j H hj (by omega) (hbelow j hj hlt)
      fun l hl hlj => hbelow l hl (by omega)
    have hi₁ : H₁ i = F.setItems xs (H₀ i) := by
      rw [hframe₁.above i (by rintro rfl; omega) fun _ => Nat.le_of_lt hlt, hi]
    have hframe : Frame F H₀ N rank H (take F i j H₁) i :=
      hframe₁.step hj hlt hbelow hset₁ fun l hl => Function.update_of_ne hl _ _
    have hi₂ : take F i j H₁ i = F.setItems (mergeUnique xs (F.items (H₁ j))) (H₀ i) := by
      rw [take, Function.update_self, hi₁, F.items_setItems, F.setItems_setItems]
    obtain ⟨H', xs', h', hi', hxs', hframe'⟩ := ihjs
      (fun l hl => hjs l (List.mem_cons_of_mem j hl)) hi₂ hframe.below
    refine ⟨H', xs', ?_, hi', fun x => ?_, hframe.trans hframe'⟩
    · rw [List.foldlM_cons, h₁]
      exact h'
    · rw [hxs', mem_mergeUnique, hset₁.mem_items]
      simp only [List.mem_cons, exists_eq_or_imp, or_assoc]

/-- A visit ends, and the node has gathered what it reaches. -/
theorem visit_settled (hG : Acyclic F H₀ N rank) {fuel : Nat} {i : ι} (hi : N i)
    (hfuel : rank i < fuel) (hknown : Known F H₀ i (H i))
    (hbelow : ∀ l, N l → rank l < rank i → Known F H₀ l (H l)) :
    ∃ H', visit F fuel i H = some H' ∧ Settled F H₀ i (H' i) ∧ Frame F H₀ N rank H H' i := by
  induction fuel generalizing i H with
  | zero => omega
  | succ fuel ih =>
    rw [visit]
    rcases hknown with hfresh | hset
    · rw [hfresh, hG.fresh i hi]
      have hitems : H i = F.setItems (F.items (H₀ i)) (H₀ i) := by rw [hfresh, F.setItems_items]
      obtain ⟨H₁, xs, h₁, hi₁, hxs, hframe⟩ := visit_succ
        (fun j H hj hfuel hknown hbelow => ih hj hfuel hknown hbelow) (Nat.le_of_lt_succ hfuel)
        (fun j hj => ⟨hG.succ_mem i hi j hj, hG.succ_lt i hi j hj⟩) hitems hbelow
      refine ⟨Function.update H₁ i (F.markDone (H₁ i)), by rw [h₁]; rfl, ?_, ?_⟩
      · rw [Function.update_self, hi₁]
        exact ⟨xs, rfl, fun x => by rw [hxs, gathered_iff]⟩
      · have hne (j : ι) (hj : j ≠ i) :
            Function.update H₁ i (F.markDone (H₁ i)) j = H₁ j := Function.update_of_ne hj _ _
        refine ⟨fun j hj hlt => ?_, fun j hj habove => ?_, fun j hj hset => ?_⟩
        · rw [hne j (by rintro rfl; omega)]
          exact hframe.below j hj hlt
        · rw [hne j hj]
          exact hframe.above j hj habove
        · rw [hne j hj]
          exact hframe.kept j hj hset
    · rw [if_pos hset.isDone]
      exact ⟨H, rfl, hset, hbelow, fun _ _ _ => rfl, fun _ _ h => h⟩

/-- Visits of nodes one after another. Each of them is settled at the end, no node is left half done,
and what lies outside the graph is as it was. -/
theorem visits_settled (hG : Acyclic F H₀ N rank) (fuel : Nat) (order : List ι)
    (horder : ∀ i ∈ order, N i ∧ rank i < fuel) (hknown : ∀ i, N i → Known F H₀ i (H i)) :
    ∃ H', order.foldlM (fun H i => visit F fuel i H) H = some H' ∧
      (∀ i ∈ order, Settled F H₀ i (H' i)) ∧ (∀ i, N i → Known F H₀ i (H' i)) ∧
      (∀ i, ¬ N i → H' i = H i) ∧ ∀ i, Settled F H₀ i (H i) → Settled F H₀ i (H' i) := by
  induction order generalizing H with
  | nil => exact ⟨H, rfl, by simp, hknown, fun _ _ => rfl, fun _ h => h⟩
  | cons i order ih =>
    obtain ⟨hi, hfuel⟩ := horder i List.mem_cons_self
    obtain ⟨H₁, h₁, hset₁, hframe⟩ :=
      visit_settled hG hi hfuel (hknown i hi) fun l hl _ => hknown l hl
    have hkept (j : ι) (hj : Settled F H₀ j (H j)) : Settled F H₀ j (H₁ j) := by
      by_cases hji : j = i
      · exact hji ▸ hset₁
      · exact hframe.kept j hji hj
    have hknown₁ (j : ι) (hj : N j) : Known F H₀ j (H₁ j) := by
      by_cases hji : j = i
      · subst hji
        exact Or.inr hset₁
      · by_cases hlt : rank j < rank i
        · exact hframe.below j hj hlt
        · rw [hframe.above j hji fun _ => Nat.le_of_not_lt hlt]
          exact hknown j hj
    obtain ⟨H', h', hset', hknown', houtside', hkept'⟩ :=
      ih (fun j hj => horder j (List.mem_cons_of_mem i hj)) hknown₁
    refine ⟨H', ?_, fun j hj => ?_, hknown', fun j hj => ?_, fun j hj => hkept' j (hkept j hj)⟩
    · rw [List.foldlM_cons, h₁]
      exact h'
    · rcases List.mem_cons.mp hj with rfl | hj
      · exact hkept' j hset₁
      · exact hset' j hj
    · rw [houtside' j hj]
      exact hframe.above j (by rintro rfl; exact hj hi) fun hN => (hj hN).elim

end Visit

end Gather
