import TypeSan.TypeInfoRequests

/-! Whether the table that a node gets is one for its size. -/
namespace TypeSan

/-- The table that the node gets starts with the node's own size. -/
def Describes (G : Globals) (s : StructType) : Prop :=
  ∃ rest, G.lookup s.typeInfoName = some (.int s.ty.allocSize :: rest)

/-- The nodes that share a table are of one size. -/
structure SameSizes (nodes : List StructType) : Prop where
  literal : ∀ s ∈ nodes, ∀ s' ∈ nodes, s.name = none → s'.name = none →
    s.ty.allocSize = s'.ty.allocSize
  nonCxx : ∀ s ∈ nodes, ∀ s' ∈ nodes, s.isNonCxx = true → s'.isNonCxx = true →
    s.ty.allocSize = s'.ty.allocSize

section Describes

variable {requests : List StructType} {s s' : StructType} {G : Globals}

theorem infoName_eq_of_shared
    (h : (s.name = none ∧ s'.name = none) ∨ (s.isNonCxx = true ∧ s'.isNonCxx = true)) :
    s.infoName = s'.infoName := by
  rcases h with ⟨hname, hname'⟩ | ⟨hC, hC'⟩
  · rw [infoName_literal hname, infoName_literal hname']
  · rw [infoName_nonCxx hC, infoName_nonCxx hC']

/-- Two nodes that get one table, each one for its size, are of one size. -/
theorem Describes.size_eq (h : Describes G s) (h' : Describes G s')
    (heq : s.infoName = s'.infoName) : s.ty.allocSize = s'.ty.allocSize := by
  obtain ⟨rest, hrest⟩ := h
  obtain ⟨rest', hrest'⟩ := h'
  rw [typeInfoName_inj.mpr heq, hrest'] at hrest
  exact (Const.int.inj (List.cons.inj (Option.some.inj hrest)).1).symm

end Describes

/-- Every node that a module asks for gets a table for its size if, and only if, its literal types are
of one size, and so are its C structs. -/
theorem describes_iff {requests : List StructType} (h : NamesUnique (requestedNodes requests)) :
    ∃ G, typeInfoGlobals requests = some G ∧
      ((∀ s ∈ requestedNodes requests, Describes G s) ↔ SameSizes (requestedNodes requests)) := by
  obtain ⟨G, hG, hfilled⟩ := typeInfoGlobals_filled h
  refine ⟨G, hG, fun hall => ⟨fun s hs s' hs' hname hname' => ?_, fun s hs s' hs' hC hC' => ?_⟩,
    fun hsizes s hs => ?_⟩
  · exact (hall s hs).size_eq (hall s' hs') (infoName_eq_of_shared (Or.inl ⟨hname, hname'⟩))
  · exact (hall s hs).size_eq (hall s' hs') (infoName_eq_of_shared (Or.inr ⟨hC, hC'⟩))
  · obtain ⟨first, hfirst, hname, htable⟩ := exists_first hfilled hs
    have hsize : first.ty.allocSize = s.ty.allocSize := by
      rcases h.cases hfirst hs hname with rfl | ⟨hnone, hnone'⟩ | ⟨hC, hC'⟩
      · rfl
      · exact hsizes.literal first hfirst s hs hnone hnone'
      · exact hsizes.nonCxx first hfirst s hs hC hC'
    exact ⟨_, by rw [htable, infoMembers, hsize]⟩

/-! Two pairs. -/

namespace Pairs

/-- A pair of words, one of them in an array of a class. -/
def pair : StructType := ⟨none, false, [.scalar 8 3, .scalar 8 3]⟩

def small : StructType := ⟨none, false, [.scalar 4 2, .scalar 4 2]⟩

def T : StructType := ⟨some "trackedtype.T", false, [.scalar 8 3, .array 2 pair.ty]⟩

end Pairs

open Pairs

/-- A class with an array of pairs, and a pair by itself. -/
theorem describes_of_one_literal :
    ∃ G, typeInfoGlobals [T, pair] = some G ∧ ∀ s ∈ requestedNodes [T, pair], Describes G s := by
  have hnames : NamesUnique (requestedNodes [T, pair]) := ⟨by decide, by decide⟩
  obtain ⟨G, hG, hiff⟩ := describes_iff hnames
  exact ⟨G, hG, hiff.mpr ⟨by decide, by decide⟩⟩

/-- The smaller pair is asked for first, and the array of the class gets its table. -/
theorem describes_fails_for_two_literals :
    ¬ ∀ (requests : List StructType) (G : Globals), NamesUnique (requestedNodes requests) →
      typeInfoGlobals requests = some G → ∀ s ∈ requestedNodes requests, Describes G s := by
  intro hall
  have hpair := hall [small, T] [(small.typeInfoName, infoMembers small),
    (T.typeInfoName, infoMembers T)] ⟨by decide, by decide⟩ (by decide) pair (by decide)
  obtain ⟨rest, hrest⟩ := hpair
  have htable : List.lookup pair.typeInfoName [(small.typeInfoName, infoMembers small),
      (T.typeInfoName, infoMembers T)] = some (infoMembers small) := by decide
  rw [htable] at hrest
  injection hrest with hrest
  exact absurd (List.cons.inj hrest).1 (by decide)

end TypeSan
