import Mathlib.Data.List.Infix

/-! A scan in which each item claims its cells, until an item starts on a cell that is claimed. -/
namespace Claiming

variable {Item Cell : Type} (first : Item → Cell) (has : Item → Cell → Prop)

/-- The cells that a scan claims. -/
def Claims (taken : Cell → Prop) : List Item → Cell → Prop
  | [], _ => False
  | item :: items, cell => ¬ taken (first item) ∧
      (has item cell ∨ Claims (fun c => taken c ∨ has item c) items cell)

/-- Wherever the scan has to stop, it has nothing to claim any more. -/
def StopsDone (taken : Cell → Prop) (items : List Item) : Prop :=
  ∀ front item rest, items = front ++ item :: rest →
    (taken (first item) ∨ ∃ earlier ∈ front, has earlier (first item)) →
    ∀ later ∈ item :: rest, ∀ cell, has later cell →
      taken cell ∨ ∃ earlier ∈ front, has earlier cell

variable {first has} {taken taken' : Cell → Prop} {items : List Item} {item : Item} {cell : Cell}

/-- Only what is taken of the cells that items start on matters. -/
theorem claims_congr (h : ∀ item ∈ items, taken (first item) ↔ taken' (first item)) :
    Claims first has taken items cell ↔ Claims first has taken' items cell := by
  induction items generalizing taken taken' with
  | nil => exact Iff.rfl
  | cons item items ih =>
    obtain ⟨hitem, hrest⟩ := List.forall_mem_cons.mp h
    have hih := @ih (fun c => taken c ∨ has item c) (fun c => taken' c ∨ has item c)
      fun later hlater => or_congr_left (hrest later hlater)
    simp only [Claims, hitem, hih]

/-- What is claimed belongs to an item. -/
theorem exists_of_claims (h : Claims first has taken items cell) : ∃ item ∈ items, has item cell := by
  induction items generalizing taken with
  | nil => exact h.elim
  | cons item items ih =>
    rcases h.2 with hhas | hrest
    · exact ⟨item, List.mem_cons_self, hhas⟩
    · obtain ⟨later, hlater, hhas⟩ := ih hrest
      exact ⟨later, List.mem_cons_of_mem item hlater, hhas⟩

/-- The items that claim are the first ones, up to any that starts on a cell taken or claimed. -/
theorem claims_iff : Claims first has taken items cell ↔
    ∃ front, front <+: items ∧ (∀ item ∈ front, ¬ taken (first item)) ∧
      front.Pairwise (fun earlier later => ¬ has earlier (first later)) ∧
      ∃ item ∈ front, has item cell := by
  induction items generalizing taken with
  | nil =>
    constructor
    · intro h
      exact h.elim
    · rintro ⟨front, hfront, -, -, item, hitem, -⟩
      rw [List.prefix_nil.mp hfront] at hitem
      cases hitem
  | cons item items ih =>
    rw [Claims, ih]
    constructor
    · rintro ⟨hfree, hhas | ⟨front, hfront, hfrees, hapart, hsome⟩⟩
      · exact ⟨[item], by simp, by simpa using hfree, List.pairwise_singleton _ _, by simpa using hhas⟩
      · refine ⟨item :: front, by simpa using hfront, ?_, List.pairwise_cons.mpr ⟨?_, hapart⟩, ?_⟩
        · intro later hlater
          rcases List.mem_cons.mp hlater with rfl | hlater
          · exact hfree
          · exact fun htaken => hfrees later hlater (Or.inl htaken)
        · intro later hlater hhas
          exact hfrees later hlater (Or.inr hhas)
        · obtain ⟨later, hlater, hhas⟩ := hsome
          exact ⟨later, List.mem_cons_of_mem item hlater, hhas⟩
    · rintro ⟨front, hfront, hfrees, hapart, some, hsome, hhas⟩
      cases front with
      | nil => cases hsome
      | cons head front =>
        obtain ⟨rfl, htail⟩ := List.cons_prefix_cons.mp hfront
        obtain ⟨hhead, hapart⟩ := List.pairwise_cons.mp hapart
        obtain ⟨hfree, hfrees⟩ := List.forall_mem_cons.mp hfrees
        refine ⟨hfree, ?_⟩
        rcases List.mem_cons.mp hsome with rfl | hsome
        · exact Or.inl hhas
        · refine Or.inr ⟨front, htail, ?_, hapart, some, hsome, hhas⟩
          rintro later hlater (htaken | hhas')
          · exact hfrees later hlater htaken
          · exact hhead later hlater hhas'

theorem or_exists_mem_cons {front : List Item} :
    (taken cell ∨ ∃ earlier ∈ item :: front, has earlier cell) ↔
      (taken cell ∨ has item cell) ∨ ∃ earlier ∈ front, has earlier cell := by
  simp [or_assoc]

theorem stopsDone_cons : StopsDone first has taken (item :: items) ↔
    (taken (first item) → ∀ later ∈ item :: items, ∀ cell, has later cell → taken cell) ∧
      StopsDone first has (fun c => taken c ∨ has item c) items := by
  constructor
  · intro h
    constructor
    · intro htaken later hlater cell hhas
      rcases h [] item items rfl (Or.inl htaken) later hlater cell hhas with hdone | ⟨_, hmem, -⟩
      · exact hdone
      · cases hmem
    · intro front stop rest heq hstop later hlater cell hhas
      have hdone := h (item :: front) stop rest (by rw [heq]; rfl) (or_exists_mem_cons.mpr hstop) later
        hlater cell hhas
      exact or_exists_mem_cons.mp hdone
  · rintro ⟨hhead, hrest⟩ front stop rest heq hstop later hlater cell hhas
    cases front with
    | nil =>
      obtain ⟨rfl, rfl⟩ := List.cons.inj heq
      rcases hstop with htaken | ⟨_, hmem, -⟩
      · exact Or.inl (hhead htaken later hlater cell hhas)
      · cases hmem
    | cons head front =>
      obtain ⟨rfl, htail⟩ := List.cons.inj heq
      have hdone := hrest front stop rest htail (or_exists_mem_cons.mp hstop) later hlater cell hhas
      exact or_exists_mem_cons.mpr hdone

/-- Every cell is taken before or claimed exactly if the scan stops only where it is done. -/
theorem all_claimed_iff :
    (∀ item ∈ items, ∀ cell, has item cell → taken cell ∨ Claims first has taken items cell) ↔
      StopsDone first has taken items := by
  induction items generalizing taken with
  | nil => simp [StopsDone]
  | cons item items ih =>
    rw [stopsDone_cons, ← ih]
    constructor
    · intro h
      constructor
      · intro htaken later hlater cell hhas
        exact (h later hlater cell hhas).resolve_right fun hclaims => hclaims.1 htaken
      · intro later hlater cell hhas
        rcases h later (List.mem_cons_of_mem item hlater) cell hhas with htaken | ⟨-, hclaims⟩
        · exact Or.inl (Or.inl htaken)
        · rcases hclaims with hitem | hlater
          · exact Or.inl (Or.inr hitem)
          · exact Or.inr hlater
    · rintro ⟨hhead, hrest⟩ later hlater cell hhas
      by_cases htaken : taken (first item)
      · exact Or.inl (hhead htaken later hlater cell hhas)
      · rcases List.mem_cons.mp hlater with rfl | hlater
        · exact Or.inr ⟨htaken, Or.inl hhas⟩
        · rcases hrest later hlater cell hhas with (hcell | hitem) | hclaims
          · exact Or.inl hcell
          · exact Or.inr ⟨htaken, Or.inl hitem⟩
          · exact Or.inr ⟨htaken, Or.inr hclaims⟩

end Claiming
