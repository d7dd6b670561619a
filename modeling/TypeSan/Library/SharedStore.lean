import Mathlib.Data.Set.Lattice
import Mathlib.Logic.Function.Basic
import Mathlib.Order.CompletePartialOrder
import TypeSan.Library.Runs

/-! Parts of a system that act on one store, each on cells of its own. -/
namespace SharedStore

open Runs

/-- A part: a state of its own, steps that also act on the store, the steps that keep it in order,
and the cells it owns. -/
structure Part (Store Cell : Type) where
  State : Type
  Event : Type
  step : State → Store → Event → Option (State × Store)
  Orderly : State → Store → Event → Prop
  Inv : State → Store → Prop
  owns : State → Set Cell

variable {Store Cell Value : Type} (read : Store → Cell → Value)

/-- The stores are the same on these cells. -/
def Agree (cells : Set Cell) (m m' : Store) : Prop := ∀ c ∈ cells, read m' c = read m c

/-- An orderly step keeps the invariant and changes only cells that are the part's before or after
it. The invariant is about the part's own cells. -/
structure Part.Lawful (P : Part Store Cell) : Prop where
  step_inv : ∀ s m e s' m', P.Inv s m → P.Orderly s m e → P.step s m e = some (s', m') → P.Inv s' m'
  step_agree : ∀ s m e s' m', P.Inv s m → P.Orderly s m e → P.step s m e = some (s', m') →
    Agree read {c | c ∉ P.owns s ∧ c ∉ P.owns s'} m m'
  inv_agree : ∀ s m m', P.Inv s m → Agree read (P.owns s) m m' → P.Inv s m'

/-- The states of all parts, and the store. -/
structure System {ι : Type} (P : ι → Part Store Cell) where
  part : ∀ i, (P i).State
  store : Store

namespace System

variable {read} {ι : Type} {P : ι → Part Store Cell} [DecidableEq ι]

/-- A step of one part. -/
def step (s : System P) (e : (i : ι) × (P i).Event) : Option (System P) :=
  ((P e.1).step (s.part e.1) s.store e.2).map fun r => ⟨Function.update s.part e.1 r.1, r.2⟩

/-- The step is orderly, and gives its part no cell that is another's. -/
def Orderly (s : System P) (e : (i : ι) × (P i).Event) : Prop :=
  (P e.1).Orderly (s.part e.1) s.store e.2 ∧ ∀ s' m', (P e.1).step (s.part e.1) s.store e.2 =
    some (s', m') → ∀ j ≠ e.1, Disjoint ((P e.1).owns s') ((P j).owns (s.part j))

/-- Every part is in order, and no cell is two parts'. -/
structure Inv (s : System P) : Prop where
  part : ∀ i, (P i).Inv (s.part i) s.store
  apart : ∀ i j, i ≠ j → Disjoint ((P i).owns (s.part i)) ((P j).owns (s.part j))

variable {s s' : System P} {e : (i : ι) × (P i).Event} {events : List ((i : ι) × (P i).Event)}
  {j : ι}

/-- A step of the system is one of its part. -/
theorem step_own (hs : step s e = some s') :
    (P e.1).step (s.part e.1) s.store e.2 = some (s'.part e.1, s'.store) := by
  obtain ⟨r, hr, rfl⟩ := Option.map_eq_some_iff.mp hs
  simpa only [Function.update_self] using hr

/-- Other parts stay in their states. -/
theorem step_part (hs : step s e = some s') (hj : j ≠ e.1) : s'.part j = s.part j := by
  obtain ⟨r, -, rfl⟩ := Option.map_eq_some_iff.mp hs
  exact Function.update_of_ne hj _ _

section Lawful

variable (hP : ∀ i, (P i).Lawful read)
include hP

/-- A step of one part leaves the cells of the others alone. -/
theorem step_agree (h : s.Inv) (hok : s.Orderly e) (hs : step s e = some s') (hj : j ≠ e.1) :
    Agree read ((P j).owns (s.part j)) s.store s'.store := by
  obtain ⟨⟨t, m⟩, ht, rfl⟩ := Option.map_eq_some_iff.mp hs
  intro c hc
  refine (hP e.1).step_agree _ _ _ _ _ (h.part e.1) hok.1 ht c ⟨fun hold => ?_, fun hnew => ?_⟩
  · exact Set.disjoint_left.mp (h.apart e.1 j hj.symm) hold hc
  · exact Set.disjoint_left.mp (hok.2 t m ht j hj) hnew hc

theorem step_inv (h : s.Inv) (hok : s.Orderly e) (hs : step s e = some s') : s'.Inv := by
  refine ⟨fun j => ?_, fun i j hij => ?_⟩
  · by_cases hj : j = e.1
    · subst hj
      obtain ⟨⟨t, m⟩, ht, rfl⟩ := Option.map_eq_some_iff.mp hs
      simp only [Function.update_self]
      exact (hP e.1).step_inv _ _ _ _ _ (h.part e.1) hok.1 ht
    · rw [step_part hs hj]
      exact (hP j).inv_agree _ _ _ (h.part j) (step_agree hP h hok hs hj)
  · obtain ⟨⟨t, m⟩, ht, rfl⟩ := Option.map_eq_some_iff.mp hs
    by_cases hi : i = e.1
    · subst hi
      simp only [Function.update_self, Function.update_of_ne hij.symm]
      exact hok.2 t m ht j hij.symm
    · by_cases hj : j = e.1
      · subst hj
        simp only [Function.update_self, Function.update_of_ne hij]
        exact (hok.2 t m ht i hij).symm
      · simp only [Function.update_of_ne hi, Function.update_of_ne hj]
        exact h.apart i j hij

theorem exec_inv (h : s.Inv) (hok : Guarded step Orderly s events)
    (hs : exec step s events = some s') : s'.Inv :=
  exec_invariant h (fun _ _ _ ht hok hstep => step_inv hP ht hok hstep) hok hs

/-- What is about the cells of a part, and is kept by the part's own steps, is kept in every run of
the system. -/
theorem exec_keeps (j : ι) (R : (P j).State → Store → Prop)
    (Keeps : (P j).State → Store → (P j).Event → Prop)
    (hlocal : ∀ t m m', (P j).Inv t m → R t m → Agree read ((P j).owns t) m m' → R t m')
    (hown : ∀ t m e t' m', (P j).Inv t m → (P j).Orderly t m e → Keeps t m e → R t m →
      (P j).step t m e = some (t', m') → R t' m')
    (h : s.Inv) (hR : R (s.part j) s.store) (hok : Guarded step Orderly s events)
    (hkeeps : Guarded step (fun t e => ∀ e', e = ⟨j, e'⟩ → Keeps (t.part j) t.store e') s events)
    (hs : exec step s events = some s') : s'.Inv ∧ R (s'.part j) s'.store := by
  apply exec_invariant (I := fun t => t.Inv ∧ R (t.part j) t.store) ⟨h, hR⟩ _ (hok.and hkeeps) hs
  rintro t ⟨i, e⟩ u ⟨ht, htR⟩ ⟨hok, hkeeps⟩ hstep
  refine ⟨step_inv hP ht hok hstep, ?_⟩
  by_cases hj : j = i
  · subst hj
    obtain ⟨⟨t', m'⟩, ht', rfl⟩ := Option.map_eq_some_iff.mp hstep
    simp only [Function.update_self]
    exact hown _ _ _ _ _ (ht.part j) hok.1 (hkeeps e rfl) htR ht'
  · rw [step_part hstep hj]
    exact hlocal _ _ _ (ht.part j) htR (step_agree hP ht hok hstep hj)

end Lawful

/-- Parts that stay within regions of their own take no cells from one another. -/
theorem guarded_of_regions {region : ι → Set Cell}
    (hregion : ∀ i j, i ≠ j → Disjoint (region i) (region j))
    (hs : ∀ i, (P i).owns (s.part i) ⊆ region i)
    (h : Guarded step (fun s e => (P e.1).Orderly (s.part e.1) s.store e.2 ∧
      ∀ t m, (P e.1).owns (s.part e.1) ⊆ region e.1 →
        (P e.1).step (s.part e.1) s.store e.2 = some (t, m) → (P e.1).owns t ⊆ region e.1)
      s events) : Guarded step Orderly s events := by
  induction events generalizing s with
  | nil => exact guarded_nil
  | cons e events ih =>
    obtain ⟨hok, hstays⟩ := h [] e s (by simp) rfl
    refine guarded_cons ⟨hok, fun t m ht j hj => ?_⟩ fun t ht => ?_
    · exact (hregion e.1 j hj.symm).mono (hstays t m (hs e.1) ht) (hs j)
    · refine ih (fun j => ?_) (h.tail ht)
      by_cases hj : j = e.1
      · subst hj
        exact hstays _ _ (hs e.1) (step_own ht)
      · rw [step_part ht hj]
        exact hs j

end System

end SharedStore
