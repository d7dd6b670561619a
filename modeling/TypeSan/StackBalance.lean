import TypeSan.MetaStack

/-! The tracked stack pointer is balanced in runs whose exceptions end no activation that holds a
tracked object. -/
namespace TypeSan

open Runs

/-- The activation holds no tracked object. -/
def Activation.Empty (f : Activation) : Prop := f.fn.StaticAllocas = [] ∧ f.liveDynamic = 0

/-- An exception ends only activations without tracked objects. A restore point finds its pointer
loaded, and none is reached between a `stackrestore` and the next dynamic alloca. -/
def TrackedStack.Tidy (s : TrackedStack) : StackAction → Prop
  | .throw unwound => ∀ f ∈ s.activations.take unwound, f.Empty
  | .setjmp first _ => ∀ f ∈ s.activations.head?,
      (first = true ∨ f.StaticTop ≠ none) ∧ (f.fn.DynamicAllocas → f.restored = false)
  | _ => True

/-- A call that the last step completed has left the pointer as it was before the call. -/
def TrackedStack.Balanced (s : TrackedStack) : Prop :=
  ∀ pointer, s.completed = some pointer → s.pointer = pointer

/-- An activation whose own part of the stack ends at `top`. -/
structure Activation.At (f : Activation) (top : Nat) : Prop where
  empty : f.Empty → top = f.BasePointer
  static : f.fn.DynamicAllocas = false → f.liveDynamic = 0 ∧ top = f.fn.staticTop f.BasePointer
  dynamicTop : ∀ p, f.DynamicTop = some p → f.fn.DynamicAllocas ∧ (f.restored = false → p = top)
  hasDynamicTop : f.fn.StackRestorePoints → f.fn.DynamicAllocas → f.DynamicTop ≠ none
  staticTop : ∀ p, f.StaticTop = some p → p = f.fn.staticTop f.BasePointer
  hasStaticTop : f.fn.hasBasePointer = true → f.StaticTop ≠ none
  saved : f.fn.StaticAllocas = [] → ∀ p ∈ f.saved, p.2 = 0 → p.1 = f.BasePointer

/-- Every activation starts where its caller was when it made the call. -/
def Chain (top : Nat) : List Activation → Prop
  | [] => True
  | f :: rest =>
    f.At top ∧ (∀ caller ∈ rest.head?, caller.atCall = f.BasePointer) ∧ Chain f.BasePointer rest

theorem staticTop_nil {F : TrackedFunction} (h : F.StaticAllocas = []) (BasePointer : Nat) :
    F.staticTop BasePointer = BasePointer := by
  simp [TrackedFunction.staticTop, h]

/-- A function without tracked allocas leaves the pointer where it was. -/
theorem Activation.At.top_eq {f : Activation} {top : Nat} (h : f.At top)
    (hf : f.fn.hasBasePointer = false) : top = f.BasePointer := by
  simp only [TrackedFunction.hasBasePointer, Bool.or_eq_false_iff, decide_eq_false_iff_not,
    not_not] at hf
  rw [(h.static hf.2).2, staticTop_nil (by simpa using hf.1)]

namespace TrackedStack

variable {s t : TrackedStack}

theorem enter_at (F : TrackedFunction) (pointer : Nat) :
    (enter F pointer).At (F.staticTop pointer) where
  empty h := staticTop_nil h.1 pointer
  static _ := ⟨rfl, rfl⟩
  dynamicTop p hp := by
    simp only [enter, Option.ite_none_right_eq_some, Option.some.injEq] at hp
    exact ⟨hp.1.2, fun _ => hp.2.symm⟩
  hasDynamicTop hr hd := by simp [enter, show F.StackRestorePoints = true from hr,
    show F.DynamicAllocas = true from hd]
  staticTop p hp := by
    simp only [enter, Option.ite_none_right_eq_some, Option.some.injEq] at hp
    exact hp.2.symm
  hasStaticTop hbase := by simp [enter, show F.hasBasePointer = true from hbase]
  saved _ p hp := by simp [enter] at hp

/-- What happens after a call does not depend on where the activation waits. -/
theorem at_atCall {f : Activation} {top : Nat} (h : f.At top) (p : Nat) :
    ({ f with atCall := p } : Activation).At top :=
  ⟨h.empty, h.static, h.dynamicTop, h.hasDynamicTop, h.staticTop, h.hasStaticTop, h.saved⟩

theorem call_chain (h : Chain s.pointer s.activations) (F : TrackedFunction) :
    Chain (s.call F).pointer (s.call F).activations := by
  refine ⟨enter_at F s.pointer, ?_, ?_⟩
  · cases s.activations <;> simp [enter]
  · change Chain s.pointer _
    cases hacts : s.activations with
    | nil => trivial
    | cons f rest =>
      rw [hacts] at h
      exact ⟨at_atCall h.1 _, h.2⟩

theorem ret_chain (h : Chain s.pointer s.activations) (hs : s.ret = some t) :
    Chain t.pointer t.activations ∧ t.Balanced := by
  unfold ret at hs
  cases hacts : s.activations with
  | nil => simp [hacts] at hs
  | cons f rest =>
    rw [hacts] at h hs
    obtain ⟨hf, hcaller, hrest⟩ := h
    cases hs
    have hpointer : (if f.fn.hasBasePointer then f.BasePointer else s.pointer) = f.BasePointer := by
      split
      · rfl
      · rename_i hno
        exact hf.top_eq (by simpa using hno)
    refine ⟨by simpa [hpointer] using hrest, ?_⟩
    intro pointer hp
    obtain ⟨caller, hmem, rfl⟩ := Option.map_eq_some_iff.mp hp
    exact hpointer.trans (hcaller caller hmem).symm

/-- Ending activations that hold nothing leads back to where the first of them was called. -/
theorem chain_drop {top n : Nat} {acts : List Activation} (h : Chain top acts)
    (hempty : ∀ f ∈ acts.take n, f.Empty) :
    Chain top (acts.drop n) ∧ (n ≠ 0 → ∀ f ∈ (acts.drop n).head?, f.atCall = top) := by
  induction n generalizing acts with
  | zero => exact ⟨h, fun hn => (hn rfl).elim⟩
  | succ n ih =>
    cases acts with
    | nil => exact ⟨trivial, fun _ f hf => by simp at hf⟩
    | cons f rest =>
      obtain ⟨hf, hcaller, hrest⟩ := h
      have htop := hf.empty (hempty f (by simp))
      rw [← htop] at hcaller hrest
      obtain ⟨hdrop, hat⟩ := ih hrest (fun g hg => hempty g (by simp [hg]))
      refine ⟨hdrop, ?_⟩
      intro _
      by_cases hn : n = 0
      · subst hn
        simpa using hcaller
      · exact hat hn

theorem throw_chain {unwound : Nat} (h : Chain s.pointer s.activations)
    (hok : s.Tidy (.throw unwound)) (hs : s.throw unwound = some t) :
    Chain t.pointer t.activations ∧ t.Balanced := by
  obtain ⟨hdrop, hat⟩ := chain_drop h hok
  unfold throw at hs
  cases hacts : s.activations.drop unwound with
  | nil => simp [hacts] at hs
  | cons f rest =>
    rw [hacts] at hs hdrop hat
    cases hs
    refine ⟨hdrop, ?_⟩
    intro pointer hp
    simp only [Option.some.injEq] at hp
    split at hp
    · exact hp
    · rename_i hn
      exact (hat hn f (by simp)).symm.trans hp

theorem dynamicAlloca_chain {bytes align : Nat} (h : Chain s.pointer s.activations)
    (hs : s.dynamicAlloca bytes align = some t) :
    Chain t.pointer t.activations ∧ t.Balanced := by
  unfold dynamicAlloca at hs
  cases hacts : s.activations with
  | nil => simp [hacts] at hs
  | cons f rest =>
    rw [hacts] at h hs
    obtain ⟨hf, hrest⟩ := h
    simp only [Option.ite_none_right_eq_some, Option.some.injEq] at hs
    obtain ⟨hdyn, rfl⟩ := hs
    refine ⟨⟨⟨?_, ?_, ?_, ?_, hf.staticTop, hf.hasStaticTop, hf.saved⟩, hrest⟩,
      by simp [Balanced]⟩
    · rintro ⟨_, hlive⟩
      simp at hlive
    · intro hno
      simp [hdyn] at hno
    · intro p hp
      obtain ⟨q, hq, rfl⟩ := Option.map_eq_some_iff.mp hp
      exact ⟨(hf.dynamicTop q hq).1, fun _ => rfl⟩
    · intro hr hd hnone
      exact hf.hasDynamicTop hr hd (Option.map_eq_none_iff.mp hnone)

theorem stacksave_chain (h : Chain s.pointer s.activations) (hs : s.stacksave = some t) :
    Chain t.pointer t.activations ∧ t.Balanced := by
  unfold stacksave at hs
  cases hacts : s.activations with
  | nil => simp [hacts] at hs
  | cons f rest =>
    rw [hacts] at h hs
    simp only at hs
    obtain ⟨hf, hrest⟩ := h
    split at hs
    · cases hs
      refine ⟨⟨⟨hf.empty, hf.static, hf.dynamicTop, hf.hasDynamicTop, hf.staticTop,
        hf.hasStaticTop, ?_⟩, hrest⟩, by simp [Balanced]⟩
      intro hnil p hp hlive
      rcases List.mem_append.mp hp with hp | hp
      · exact hf.saved hnil p hp hlive
      · rw [List.mem_singleton.mp hp] at hlive ⊢
        exact hf.empty ⟨hnil, hlive⟩
    · cases hs
      exact ⟨⟨hf, hrest⟩, by simp [Balanced]⟩

theorem stackrestore_chain {i : Nat} (h : Chain s.pointer s.activations)
    (hs : s.stackrestore i = some t) : Chain t.pointer t.activations ∧ t.Balanced := by
  unfold stackrestore at hs
  cases hacts : s.activations with
  | nil => simp [hacts] at hs
  | cons f rest =>
    rw [hacts] at h hs
    simp only at hs
    obtain ⟨hf, hrest⟩ := h
    split at hs
    · rename_i hdyn
      obtain ⟨⟨pointer, live⟩, hsaved, rfl⟩ := Option.map_eq_some_iff.mp hs
      refine ⟨⟨⟨?_, ?_, ?_, hf.hasDynamicTop, hf.staticTop, hf.hasStaticTop, hf.saved⟩, hrest⟩,
        by simp [Balanced]⟩
      · rintro ⟨hnil, hlive⟩
        exact hf.saved hnil _ (List.mem_of_getElem? hsaved) hlive
      · intro hno
        simp [hdyn] at hno
      · exact fun p hp => ⟨(hf.dynamicTop p hp).1, fun hfalse => by simp at hfalse⟩
    · cases hs
      exact ⟨⟨hf, hrest⟩, by simp [Balanced]⟩

/-- A restore point whose pointer is loaded has a static top. -/
theorem loaded_staticTop {f : Activation} {top : Nat} {first : Bool} (hf : f.At top)
    (hfirst : first = true ∨ f.StaticTop ≠ none) :
    (if !f.fn.hasBasePointer && first then some top else f.StaticTop) =
      some (f.fn.staticTop f.BasePointer) := by
  split
  · rename_i hloads
    simp only [Bool.and_eq_true, Bool.not_eq_true'] at hloads
    have hno := hloads.1
    simp only [TrackedFunction.hasBasePointer, Bool.or_eq_false_iff] at hno
    rw [(hf.static hno.2).2]
  · rename_i hno
    have hsome : f.StaticTop ≠ none := by
      rcases hfirst with rfl | hloaded
      · exact hf.hasStaticTop (by simpa using hno)
      · exact hloaded
    obtain ⟨p, hp⟩ := Option.ne_none_iff_exists'.mp hsome
    rw [hp, hf.staticTop p hp]

/-- A restore point stores back the pointer it finds. -/
theorem setjmp_chain {first : Bool} {undef : Nat} (h : Chain s.pointer s.activations)
    (hok : s.Tidy (.setjmp first undef)) (hs : s.setjmp first undef = some t) :
    Chain t.pointer t.activations ∧ t.Balanced := by
  unfold setjmp at hs
  cases hacts : s.activations with
  | nil => simp [hacts] at hs
  | cons f rest =>
    rw [hacts] at h hs
    simp only [Option.ite_none_right_eq_some, Option.some.injEq] at hs
    obtain ⟨hf, hrest⟩ := h
    obtain ⟨hpoint, rfl⟩ := hs
    obtain ⟨hfirst, hrestored⟩ := hok f (by simp [hacts])
    have htop := loaded_staticTop hf hfirst
    have hpointer : f.DynamicTop.getD (f.fn.staticTop f.BasePointer) = s.pointer := by
      cases hd : f.DynamicTop with
      | none =>
        have hno : f.fn.DynamicAllocas = false := by
          by_contra hdyn
          exact hf.hasDynamicTop hpoint (by simpa using hdyn) hd
        rw [Option.getD_none, (hf.static hno).2]
      | some p =>
        obtain ⟨hdyn, hp⟩ := hf.dynamicTop p hd
        exact hp (hrestored hdyn)
    simp only [htop, Option.getD_some, hpointer]
    refine ⟨⟨⟨hf.empty, hf.static, hf.dynamicTop, hf.hasDynamicTop, ?_, ?_, hf.saved⟩, hrest⟩, ?_⟩
    · exact fun p hp => (Option.some.inj hp).symm
    · exact fun _ => Option.some_ne_none _
    · simp [Balanced]

theorem step_chain {a : StackAction} (h : Chain s.pointer s.activations) (hok : s.Tidy a)
    (hs : s.step a = some t) : Chain t.pointer t.activations ∧ t.Balanced := by
  cases a with
  | call F =>
    cases hs
    exact ⟨call_chain h F, by simp [Balanced, call]⟩
  | ret => exact ret_chain h hs
  | throw unwound => exact throw_chain h hok hs
  | dynamicAlloca bytes align => exact dynamicAlloca_chain h hs
  | stacksave => exact stacksave_chain h hs
  | stackrestore i => exact stackrestore_chain h hs
  | setjmp first undef => exact setjmp_chain h hok hs

/-- In every tidy run, whatever completes a call leaves the tracked stack pointer as it was before
the call. -/
theorem balanced_of_tidy {pointer : Nat} {as : List StackAction}
    (hok : Guarded step Tidy (init pointer) as) (h : Visits step (init pointer) as s) :
    s.Balanced := by
  have hinit : Chain (init pointer).pointer (init pointer).activations ∧ (init pointer).Balanced :=
    ⟨trivial, by simp [Balanced, init]⟩
  exact (visits_invariant (I := fun s => Chain s.pointer s.activations ∧ s.Balanced) hinit
    (fun _ _ _ hinv hok hs => step_chain hinv.1 hok hs) hok h).2

theorem balanced_of_throw_through_empty :
    ∃ s, exec step (init 0x10000)
      [.call ⟨[(8, 8)], false, false⟩, .call ⟨[], true, false⟩, .call ⟨[], false, true⟩,
        .throw 2] = some s ∧ s.Balanced := by
  have hrun : (exec step (init 0x10000)
      [.call ⟨[(8, 8)], false, false⟩, .call ⟨[], true, false⟩, .call ⟨[], false, true⟩,
        .throw 2]).isSome := by decide
  obtain ⟨s, hs⟩ := Option.isSome_iff_exists.mp hrun
  refine ⟨s, hs, balanced_of_tidy ?_ (visits_last hs)⟩
  refine guarded_cons trivial fun _ h₁ => guarded_cons trivial fun _ h₂ =>
    guarded_cons trivial fun _ h₃ => guarded_cons ?_ fun _ _ => guarded_nil
  obtain rfl := Option.some.inj h₁
  obtain rfl := Option.some.inj h₂
  obtain rfl := Option.some.inj h₃
  simp [Tidy, Activation.Empty, call, enter, init]

/-- A handler catches an exception that leaves a callee with one tracked object. -/
theorem balanced_fails_after_throw :
    ¬ ∀ pointer as s, exec step (init pointer) as = some s → s.Balanced := by
  intro hall
  have := hall 0x10000 [.call ⟨[], false, false⟩, .call ⟨[(8, 8)], false, false⟩, .throw 1] _ rfl
    _ rfl
  exact absurd this (by decide)

end TrackedStack

end TypeSan
