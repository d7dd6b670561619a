import Mathlib.Data.List.Infix

/-! Runs of a labelled partial step function, and rules for what holds in the states they visit. -/
namespace Runs

variable {State Label : Type} (step : State → Label → Option State)

/-- The state after the steps of a run, if each of them can be taken. -/
def exec (s : State) : List Label → Option State
  | [] => some s
  | l :: ls => (step s l).bind fun t => exec t ls

/-- The run passes through the state, or ends in it. -/
def Visits (s : State) (ls : List Label) (t : State) : Prop :=
  ∃ front, front <+: ls ∧ exec step s front = some t

/-- Every step of the run meets the condition in the state it is taken from. -/
def Guarded (ok : State → Label → Prop) (s : State) (ls : List Label) : Prop :=
  ∀ front l t, front ++ [l] <+: ls → exec step s front = some t → ok t l

variable {step} {s t u : State} {l : Label} {ls ls' : List Label} {ok : State → Label → Prop}

@[simp] theorem exec_nil : exec step s [] = some s := rfl

@[simp] theorem exec_cons : exec step s (l :: ls) = (step s l).bind fun t => exec step t ls := rfl

theorem exec_append : exec step s (ls ++ ls') = (exec step s ls).bind fun t => exec step t ls' := by
  induction ls generalizing s with
  | nil => rfl
  | cons l ls ih => simp [ih, Option.bind_assoc]

theorem exec_snoc (h : exec step s ls = some t) : exec step s (ls ++ [l]) = step t l := by
  simp [exec_append, h]

theorem exec_snoc_cases (h : exec step s (ls ++ [l]) = some u) :
    ∃ t, exec step s ls = some t ∧ step t l = some u := by
  rw [exec_append, Option.bind_eq_some_iff] at h
  simpa using h

theorem visits_last (h : exec step s ls = some t) : Visits step s ls t :=
  ⟨ls, List.prefix_rfl, h⟩

theorem Visits.mono (h : Visits step s ls t) (hls : ls <+: ls') : Visits step s ls' t := by
  obtain ⟨front, hfront, ht⟩ := h
  exact ⟨front, hfront.trans hls, ht⟩

theorem Guarded.mono (h : Guarded step ok s ls') (hls : ls <+: ls') : Guarded step ok s ls :=
  fun front l t hfront ht => h front l t (hfront.trans hls) ht

theorem Guarded.and {ok' : State → Label → Prop} (h : Guarded step ok s ls)
    (h' : Guarded step ok' s ls) : Guarded step (fun t l => ok t l ∧ ok' t l) s ls :=
  fun front l t hfront ht => ⟨h front l t hfront ht, h' front l t hfront ht⟩

/-- In a run that gets to its end, every step can be taken. -/
theorem guarded_of_exec (h : exec step s ls = some t) :
    Guarded step (fun u l => ∃ v, step u l = some v) s ls := by
  rintro front l u ⟨rest, rfl⟩ hu
  rw [List.append_assoc, exec_append, hu, Option.bind_some, List.singleton_append, exec_cons] at h
  obtain ⟨v, hv, -⟩ := Option.bind_eq_some_iff.mp h
  exact ⟨v, hv⟩

/-- A condition on a run is one on what is left of it after a step. -/
theorem Guarded.tail (h : Guarded step ok s (l :: ls)) (ht : step s l = some t) :
    Guarded step ok t ls := by
  intro front l' u hfront hu
  apply h (l :: front) l' u (List.cons_prefix_cons.mpr ⟨rfl, hfront⟩)
  rw [exec_cons, ht]
  exact hu

theorem guarded_true : Guarded step (fun _ _ => True) s ls := fun _ _ _ _ _ => trivial

theorem guarded_nil : Guarded step ok s [] := fun front l t h => by simp at h

/-- A condition on a run is one on its first step and one on the rest. -/
theorem guarded_cons (hl : ok s l) (hls : ∀ t, step s l = some t → Guarded step ok t ls) :
    Guarded step ok s (l :: ls) := by
  intro front l' u hfront hu
  cases front with
  | nil =>
    obtain ⟨rfl, -⟩ := List.cons_prefix_cons.mp hfront
    cases hu
    exact hl
  | cons l₁ front =>
    obtain ⟨rfl, hrest⟩ := List.cons_prefix_cons.mp hfront
    obtain ⟨t, ht, hu⟩ := Option.bind_eq_some_iff.mp hu
    exact hls t ht front l' u hrest hu

/-- A run is checked step by step. -/
instance decidableGuarded [∀ s l, Decidable (ok s l)] :
    (s : State) → (ls : List Label) → Decidable (Guarded step ok s ls)
  | _, [] => isTrue guarded_nil
  | s, l :: ls =>
    match h : step s l with
    | none => decidable_of_iff (ok s l)
        ⟨fun hl => guarded_cons hl (by simp [h]), fun hok => hok [] l s (by simp) rfl⟩
    | some t =>
      have := decidableGuarded t ls
      decidable_of_iff (ok s l ∧ Guarded step ok t ls)
        ⟨fun ⟨hl, hls⟩ => guarded_cons hl (by simpa [h] using hls),
          fun hok => ⟨hok [] l s (by simp) rfl, hok.tail h⟩⟩

theorem guarded_snoc (hls : Guarded step ok s ls) (hl : ∀ t, exec step s ls = some t → ok t l) :
    Guarded step ok s (ls ++ [l]) := by
  intro front l' t hfront ht
  rcases List.prefix_concat_iff.mp hfront with heq | hshort
  · obtain ⟨rfl, hlast⟩ := List.append_inj' heq rfl
    obtain rfl : l' = l := by simpa using hlast
    exact hl t ht
  · exact hls front l' t hshort ht

/-- A condition on a run is one on its first part and one on the rest. -/
theorem guarded_append (hls : Guarded step ok s ls)
    (hls' : ∀ t, exec step s ls = some t → Guarded step ok t ls') :
    Guarded step ok s (ls ++ ls') := by
  induction ls generalizing s with
  | nil => exact hls' s rfl
  | cons l ls ih =>
    refine guarded_cons (hls [] l s (by simp) rfl) fun t ht => ih (hls.tail ht) fun u hu => ?_
    apply hls'
    rw [exec_cons, ht]
    exact hu

theorem Guarded.drop (h : Guarded step ok s (ls ++ ls')) (ht : exec step s ls = some t) :
    Guarded step ok t ls' := by
  intro front l u hfront hu
  refine h (ls ++ front) l u ?_ ?_
  · rw [List.append_assoc]
    exact (List.prefix_append_right_inj ls).mpr hfront
  · rw [exec_append, ht]
    exact hu

/-- What holds at the start, and survives every step that meets the condition, holds at the end of
a run whose steps all meet it. -/
theorem exec_invariant {I : State → Prop} (hs : I s)
    (hstep : ∀ t l u, I t → ok t l → step t l = some u → I u)
    (hok : Guarded step ok s ls) (h : exec step s ls = some t) : I t := by
  induction ls using List.reverseRecOn generalizing t with
  | nil =>
    cases h
    exact hs
  | append_singleton ls l ih =>
    obtain ⟨u, hu, hl⟩ := exec_snoc_cases h
    exact hstep u l t (ih (hok.mono (List.prefix_append ls [l])) hu)
      (hok ls l u List.prefix_rfl hu) hl

theorem visits_invariant {I : State → Prop} (hs : I s)
    (hstep : ∀ t l u, I t → ok t l → step t l = some u → I u)
    (hok : Guarded step ok s ls) (h : Visits step s ls t) : I t := by
  obtain ⟨front, hfront, ht⟩ := h
  exact exec_invariant hs hstep (hok.mono hfront) ht

/-- Two conditions that agree wherever an invariant holds are met by the same runs. -/
theorem guarded_congr {I : State → Prop} {P Q : State → Label → Prop} (hs : I s)
    (hstep : ∀ t l u, I t → ok t l → step t l = some u → I u) (hok : Guarded step ok s ls)
    (h : ∀ t l, I t → ok t l → (P t l ↔ Q t l)) : Guarded step P s ls ↔ Guarded step Q s ls := by
  have hat {front : List Label} {l : Label} (t : State) (hfront : front ++ [l] <+: ls)
      (ht : exec step s front = some t) : P t l ↔ Q t l := by
    have hshort := hok.mono ((List.prefix_append front [l]).trans hfront)
    exact h t l (exec_invariant hs hstep hshort ht) (hok front l t hfront ht)
  constructor
  · intro hP front l t hfront ht
    exact (hat t hfront ht).mp (hP front l t hfront ht)
  · intro hQ front l t hfront ht
    exact (hat t hfront ht).mpr (hQ front l t hfront ht)

/-- A run whose steps are each matched by a run of another step function is matched by one. -/
theorem exec_simulates {State' Label' : Type} {step' : State' → Label' → Option State'}
    {R : State → State' → Prop} {s' : State'} (hs : R s s')
    (hstep : ∀ t t' l u, R t t' → ok t l → step t l = some u →
      ∃ ls' u', exec step' t' ls' = some u' ∧ R u u')
    (hok : Guarded step ok s ls) (h : exec step s ls = some t) :
    ∃ ls' t', exec step' s' ls' = some t' ∧ R t t' := by
  apply exec_invariant (I := fun t => ∃ ls' t', exec step' s' ls' = some t' ∧ R t t') _ _ hok h
  · exact ⟨[], s', rfl, hs⟩
  · rintro t l u ⟨ls', t', ht', hR⟩ hl hu
    obtain ⟨front, u', hu', hR'⟩ := hstep t t' l u hR hl hu
    refine ⟨ls' ++ front, u', ?_, hR'⟩
    rw [exec_append, ht']
    exact hu'

/-- A run with a step that misses the condition has a first one. -/
theorem exists_first_miss (h : ¬ Guarded step ok s ls) :
    ∃ front l t, front ++ [l] <+: ls ∧ exec step s front = some t ∧ ¬ ok t l ∧
      Guarded step ok s front := by
  induction ls using List.reverseRecOn with
  | nil =>
    refine (h fun front l t hfront _ => ?_).elim
    simp at hfront
  | append_singleton ls l ih =>
    by_cases hfirst : Guarded step ok s ls
    · simp only [Guarded, not_forall] at h
      obtain ⟨front, l', t, hfront, ht, hmiss⟩ := h
      rcases List.prefix_concat_iff.mp hfront with heq | hshort
      · obtain ⟨rfl, hl⟩ := List.append_inj' heq rfl
        exact ⟨front, l', t, hfront, ht, hmiss, hfirst⟩
      · exact (hmiss (hfirst front l' t hshort ht)).elim
    · obtain ⟨front, l', t, hfront, hrest⟩ := ih hfirst
      exact ⟨front, l', t, hfront.trans (List.prefix_append ls [l]), hrest⟩

end Runs
