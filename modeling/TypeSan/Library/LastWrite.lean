import Mathlib.Data.List.Perm.Basic
import Mathlib.Data.List.Perm.Subperm

/-! A cell that several writers write, each once and in some order: the last one wins. -/
namespace LastWrite

variable {ι ν : Type*} (hits : ι → Prop) [DecidablePred hits] (value : ι → ν)

/-- What is in the cell after the writers have had their turns. -/
def afterWrites (writers : List ι) (cell : Option ν) : Option ν :=
  writers.foldl (fun cell w => if hits w then some (value w) else cell) cell

variable {hits value} {writers : List ι} {cell : Option ν} {v : ν}

theorem afterWrites_append {writers' : List ι} :
    afterWrites hits value (writers ++ writers') cell =
      afterWrites hits value writers' (afterWrites hits value writers cell) :=
  List.foldl_append

theorem afterWrites_concat {w : ι} (h : hits w) :
    afterWrites hits value (writers ++ [w]) cell = some (value w) := by
  rw [afterWrites_append]
  exact if_pos h

theorem afterWrites_of_forall_not (h : ∀ w ∈ writers, ¬ hits w) :
    afterWrites hits value writers cell = cell := by
  induction writers generalizing cell with
  | nil => rfl
  | cons w writers ih =>
    have hskip : (if hits w then some (value w) else cell) = cell :=
      if_neg (h w List.mem_cons_self)
    rw [afterWrites, List.foldl_cons, hskip]
    exact ih fun w' hw' => h w' (List.mem_cons_of_mem w hw')

/-- Writers that agree on the value leave it there, if there are any. -/
theorem afterWrites_of_agree (hagree : ∀ w ∈ writers, hits w → value w = v)
    (hsome : (∃ w ∈ writers, hits w) ∨ cell = some v) :
    afterWrites hits value writers cell = some v := by
  induction writers generalizing cell with
  | nil =>
    rcases hsome with ⟨w, hw, -⟩ | hcell
    · cases hw
    · exact hcell
  | cons w writers ih =>
    rw [afterWrites, List.foldl_cons]
    refine ih (fun w' hw' => hagree w' (List.mem_cons_of_mem w hw')) ?_
    by_cases hw : hits w
    · exact Or.inr (by rw [if_pos hw, hagree w List.mem_cons_self hw])
    · rw [if_neg hw]
      refine hsome.imp_left fun ⟨w', hw', hhits⟩ => ⟨w', ?_, hhits⟩
      rcases List.mem_cons.mp hw' with rfl | hw'
      · exact (hw hhits).elim
      · exact hw'

/-- In whatever order the writers come, an empty cell ends with the value just where some writer
writes it and no writer writes another. -/
theorem afterWrites_perm_iff :
    (∀ order, order.Perm writers → afterWrites hits value order none = some v) ↔
      (∃ w ∈ writers, hits w) ∧ ∀ w ∈ writers, hits w → value w = v := by
  classical
  constructor
  · intro hall
    constructor
    · by_contra hnone
      simp only [not_exists, not_and] at hnone
      have hcell := hall writers (.refl _)
      rw [afterWrites_of_forall_not hnone] at hcell
      cases hcell
    · intro w hw hhits
      have hperm : (writers.erase w ++ [w]).Perm writers :=
        (List.perm_append_singleton w _).trans (List.perm_cons_erase hw).symm
      have hlast := hall _ hperm
      rw [afterWrites_concat hhits] at hlast
      exact Option.some.inj hlast
  · rintro ⟨⟨w, hw, hhits⟩, hagree⟩ order hperm
    exact afterWrites_of_agree (fun w hw => hagree w (hperm.mem_iff.mp hw))
      (Or.inl ⟨w, hperm.mem_iff.mpr hw, hhits⟩)

end LastWrite
