import Mathlib.Data.Nat.Basic

/-! Pages with an owner: mapping a free range, unmapping any range, and what each owner keeps. -/
namespace PageMap

/-- The owner of each page, if it is mapped. -/
abbrev Pages (Owner : Type) := Nat → Option Owner

/-- The page is one of `count` pages from `first` on. -/
def InRange (first count page : Nat) : Prop := first ≤ page ∧ page < first + count

instance (first count page : Nat) : Decidable (InRange first count page) :=
  inferInstanceAs (Decidable (_ ∧ _))

variable {Owner : Type}

/-- A mapping is only made where every page is free. -/
def map (m : Pages Owner) (first count : Nat) (owner : Owner) : Option (Pages Owner) :=
  if ∀ i < count, (m (first + i)).isNone then
    some fun page => if InRange first count page then some owner else m page
  else none

/-- Unmapping takes the pages from whoever owns them. -/
def unmap (m : Pages Owner) (first count : Nat) : Pages Owner := fun page =>
  if InRange first count page then none else m page

/-- Every page of the range belongs to the owner. -/
def Owns (m : Pages Owner) (first count : Nat) (owner : Owner) : Prop :=
  ∀ page, InRange first count page → m page = some owner

variable {m m' : Pages Owner} {first count first' count' page : Nat} {owner owner' : Owner}

theorem map_eq (h : map m first count owner = some m') :
    (∀ page, InRange first count page → m page = none) ∧
      m' = fun page => if InRange first count page then some owner else m page := by
  unfold map at h
  split at h
  · rename_i hfree
    refine ⟨fun page hpage => ?_, (Option.some.inj h).symm⟩
    have := hfree (page - first) (by have := hpage.2; have := hpage.1; omega)
    rw [Nat.add_sub_cancel' hpage.1] at this
    simpa using this
  · cases h

theorem owns_map (h : map m first count owner = some m') : Owns m' first count owner := by
  obtain ⟨_, rfl⟩ := map_eq h
  intro page hpage
  simp [hpage]

/-- A new mapping takes no page from another owner. -/
theorem Owns.map (ho : Owns m first count owner)
    (h : PageMap.map m first' count' owner' = some m') : Owns m' first count owner := by
  obtain ⟨hfree, rfl⟩ := map_eq h
  intro page hpage
  have hne : ¬ InRange first' count' page := by
    intro hpage'
    simpa [ho page hpage] using hfree page hpage'
  simpa [hne] using ho page hpage

/-- Ranges of different owners do not overlap. -/
theorem Owns.disjoint (ho : Owns m first count owner) (ho' : Owns m first' count' owner')
    (hne : owner ≠ owner') {p : Nat} (hpage : InRange first count p) : ¬ InRange first' count' p := by
  intro hpage'
  have := (ho p hpage).symm.trans (ho' p hpage')
  exact hne (Option.some.inj this)

/-- What one owner unmaps of its own leaves the others theirs. -/
theorem Owns.unmap (ho : Owns m first count owner) (ho' : Owns m first' count' owner')
    (hne : owner ≠ owner') : Owns (PageMap.unmap m first' count') first count owner := by
  intro page hpage
  simp only [PageMap.unmap, if_neg (ho.disjoint ho' hne hpage)]
  exact ho page hpage

theorem unmap_of_inRange (h : InRange first count page) : unmap m first count page = none := by
  simp [unmap, h]

end PageMap
