import TypeSan.TwoStacks

/-! Leaving a scope restores both stack pointers in runs that keep away from untracked dynamic
allocas in the scopes of functions with tracked ones. -/
namespace TypeSan

open Runs

/-- A scope of a function with tracked dynamic allocas is closed with the untracked ones in effect
that were so when it was opened, an exception leaves the pointer where the call found it if it is
caught in a function without tracked dynamic allocas, and a restore point finds its pointer
loaded. -/
def TwoStacks.Scoped (s : TwoStacks) : TwoStackAction → Prop
  | .stackrestore i => ∀ f ∈ s.frames.head?, ∀ scope, f.saved[i]? = some scope →
      f.fn.DynamicAllocas = true → f.untracked = scope.untracked
  | .throw unwound => ∀ callee ∈ (s.frames.take unwound).getLast?,
      s.pointer = callee.BasePointer ∨
        ∀ f ∈ (s.frames.drop unwound).head?, f.fn.DynamicAllocas = true
  | .setjmp first _ => first = true ∨ ∀ f ∈ s.frames.head?, f.StaticTop ≠ none
  | _ => True

/-- Both stack pointers are what they were at the `stacksave` of the scope that was closed. -/
def TwoStacks.Restored (s : TwoStacks) : Prop :=
  ∀ scope, s.restored = some scope →
    s.pointer = scope.pointer ∧ ∀ f ∈ s.frames.head?, f.native = scope.native

/-- What an activation keeps, whose tracked stack ends at `top`. -/
structure StackFrame.Level (f : StackFrame) (top : Nat) : Prop where
  native : f.native = nativeTop f.nativeStart f.untracked
  savedNative : ∀ scope ∈ f.saved, scope.native = nativeTop f.nativeStart scope.untracked
  jumpNative : ∀ buf ∈ f.jumps, buf.native = nativeTop f.nativeStart buf.untracked
  static : f.fn.DynamicAllocas = false → top = f.fn.staticTop f.BasePointer ∧
    f.DynamicTop = none ∧ ∀ scope ∈ f.saved, scope.pointer = f.fn.staticTop f.BasePointer
  staticTop : ∀ p, f.StaticTop = some p → p = f.fn.staticTop f.BasePointer
  jumps : f.jumps ≠ [] ∨ f.fn.hasBasePointer = true → f.StaticTop ≠ none

/-- Every activation starts where its caller waits. -/
def Levels (top : Nat) : List StackFrame → Prop
  | [] => True
  | f :: rest => f.Level top ∧ Levels f.BasePointer rest

/-- With tracked dynamic allocas, the tracked stack may end anywhere. -/
theorem StackFrame.Level.of_dynamic {f : StackFrame} {top : Nat} (h : f.Level top)
    (hdyn : f.fn.DynamicAllocas = true) (p : Nat) : f.Level p :=
  ⟨h.native, h.savedNative, h.jumpNative, fun hno => by simp [hdyn] at hno, h.staticTop, h.jumps⟩

/-- Without a base pointer an activation leaves the tracked stack as it found it. -/
theorem StackFrame.Level.top_eq {f : StackFrame} {top : Nat} (h : f.Level top)
    (hf : f.fn.hasBasePointer = false) : top = f.BasePointer := by
  simp only [TrackedFunction.hasBasePointer, Bool.or_eq_false_iff, decide_eq_false_iff_not,
    not_not] at hf
  rw [(h.static hf.2).1, TrackedFunction.staticTop, if_pos (by simpa using hf.1)]

namespace TwoStacks

variable {s t : TwoStacks}

theorem enter_level (F : TrackedFunction) (pointer native : Nat) :
    (enter F pointer native).Level (F.staticTop pointer) where
  native := rfl
  savedNative scope hscope := by simp [enter] at hscope
  jumpNative buf hbuf := by simp [enter] at hbuf
  static hno := by
    have hdyn : F.DynamicAllocas = false := hno
    simp [enter, hdyn]
  staticTop p hp := by
    simp only [enter, Option.ite_none_right_eq_some, Option.some.injEq] at hp
    exact hp.2.symm
  jumps h := by
    have hbase : F.hasBasePointer = true := h.resolve_left fun hne => hne rfl
    simp [enter, hbase]

theorem ret_levels (h : Levels s.pointer s.frames) (hs : s.ret = some t) :
    Levels t.pointer t.frames ∧ t.Restored := by
  obtain ⟨f, rest, hframes, rfl⟩ := ret_eq hs
  rw [hframes] at h
  obtain ⟨hf, hrest⟩ := h
  refine ⟨?_, fun scope hscope => by cases hscope⟩
  have hpointer : (if f.fn.hasBasePointer then f.BasePointer else s.pointer) = f.BasePointer := by
    split
    · rfl
    · rename_i hno
      exact hf.top_eq (by simpa using hno)
  rw [hpointer]
  exact hrest

/-- Ending activations leads to the one that waits where the last of them was called. -/
theorem levels_drop {top n : Nat} {frames : List StackFrame} (h : Levels top frames) :
    Levels ((frames.take n).getLast?.elim top StackFrame.BasePointer) (frames.drop n) := by
  induction n generalizing top frames with
  | zero => exact h
  | succ n ih =>
    cases frames with
    | nil => exact trivial
    | cons f rest =>
      have hrest := ih h.2
      rw [List.take_succ_cons, List.drop_succ_cons, List.getLast?_cons]
      cases hlast : (rest.take n).getLast? with
      | none => simpa [hlast] using hrest
      | some callee => simpa [hlast] using hrest

theorem throw_levels {unwound : Nat} (h : Levels s.pointer s.frames)
    (hok : s.Scoped (.throw unwound)) (hs : s.throw unwound = some t) :
    Levels t.pointer t.frames ∧ t.Restored := by
  obtain ⟨f, rest, hframes, rfl⟩ := throw_eq hs
  have hdrop := levels_drop (n := unwound) h
  rw [hframes] at hdrop
  refine ⟨⟨?_, hdrop.2⟩, fun scope hscope => by cases hscope⟩
  cases hlast : (s.frames.take unwound).getLast? with
  | none =>
    rw [hlast] at hdrop
    exact hdrop.1
  | some callee =>
    rw [hlast] at hdrop
    rcases hok callee hlast with heq | hdyn
    · rw [run, heq]
      exact hdrop.1
    · exact hdrop.1.of_dynamic (hdyn f (by simp [hframes])) _

theorem trackedAlloca_levels {bytes align : Nat} (h : Levels s.pointer s.frames)
    (hs : s.trackedAlloca bytes align = some t) : Levels t.pointer t.frames ∧ t.Restored := by
  obtain ⟨f, rest, hframes, hdyn, rfl⟩ := trackedAlloca_eq hs
  rw [hframes] at h
  obtain ⟨hf, hrest⟩ := h
  refine ⟨⟨⟨hf.native, hf.savedNative, hf.jumpNative, fun hno => ?_, hf.staticTop, hf.jumps⟩,
    hrest⟩, fun scope hscope => by cases hscope⟩
  simp [hdyn] at hno

theorem untrackedAlloca_levels {bytes align : Nat} (h : Levels s.pointer s.frames)
    (hs : s.untrackedAlloca bytes align = some t) : Levels t.pointer t.frames ∧ t.Restored := by
  obtain ⟨f, rest, hframes, rfl⟩ := untrackedAlloca_eq hs
  rw [hframes] at h
  obtain ⟨hf, hrest⟩ := h
  refine ⟨⟨⟨?_, hf.savedNative, hf.jumpNative, hf.static, hf.staticTop, hf.jumps⟩, hrest⟩,
    fun scope hscope => by cases hscope⟩
  simp only [nativeTop, List.foldr_cons]
  rw [hf.native, nativeTop]

theorem stacksave_levels (h : Levels s.pointer s.frames) (hs : s.stacksave = some t) :
    Levels t.pointer t.frames ∧ t.Restored := by
  obtain ⟨f, rest, hframes, rfl⟩ := stacksave_eq hs
  rw [hframes] at h
  obtain ⟨hf, hrest⟩ := h
  refine ⟨⟨⟨hf.native, ?_, hf.jumpNative, fun hno => ?_, hf.staticTop, hf.jumps⟩, hrest⟩,
    fun scope hscope => by cases hscope⟩
  · exact List.forall_mem_cons.mpr ⟨hf.native, hf.savedNative⟩
  · obtain ⟨htop, hdynamicTop, hsaved⟩ := hf.static hno
    exact ⟨htop, hdynamicTop, List.forall_mem_cons.mpr ⟨htop, hsaved⟩⟩

/-- The step that closes a scope. -/
theorem stackrestore_levels {i : Nat} (h : Levels s.pointer s.frames)
    (hok : s.Scoped (.stackrestore i)) (hs : s.stackrestore i = some t) :
    Levels t.pointer t.frames ∧ t.Restored := by
  obtain ⟨f, rest, scope, hframes, hscope, hcases⟩ := stackrestore_cases hs
  rw [hframes] at h
  obtain ⟨hf, hrest⟩ := h
  have hmem : scope ∈ f.saved := List.mem_of_getElem? hscope
  have hsub : f.saved.drop (i + 1) ⊆ f.saved := List.drop_subset _ _
  have hnative := hf.savedNative scope hmem
  have hsaved : ∀ scope ∈ f.saved.drop (i + 1),
      scope.native = nativeTop f.nativeStart scope.untracked :=
    fun scope' h' => hf.savedNative scope' (hsub h')
  rcases hcases with ⟨hdyn, rfl⟩ | ⟨hno, rfl⟩
  · have heq := hok f (by simp [hframes]) scope hscope hdyn
    refine ⟨⟨⟨hf.native, hsaved, hf.jumpNative, fun hno => ?_, hf.staticTop, hf.jumps⟩,
      hrest⟩, ?_⟩
    · simp [hdyn] at hno
    · intro scope' hscope'
      obtain rfl := Option.some.inj hscope'
      refine ⟨rfl, ?_⟩
      intro f' hf'
      obtain rfl := Option.some.inj hf'
      exact hf.native.trans (heq ▸ hnative.symm)
  · obtain ⟨htop, hdynamicTop, hpointers⟩ := hf.static hno
    refine ⟨⟨⟨hnative, hsaved, hf.jumpNative, fun _ => ⟨htop, hdynamicTop, fun scope' h' =>
      hpointers scope' (hsub h')⟩, hf.staticTop, hf.jumps⟩, hrest⟩, ?_⟩
    intro scope' hscope'
    obtain rfl := Option.some.inj hscope'
    refine ⟨htop.trans (hpointers scope hmem).symm, ?_⟩
    intro f' hf'
    obtain rfl := Option.some.inj hf'
    rfl

/-- What a restore point stores leaves the tracked stack where it ended. -/
theorem restoredTop_level {f : StackFrame} {p : Nat} (hf : f.Level p)
    (hloaded : f.StaticTop ≠ none) (undef : Nat) : f.Level (restoredTop f undef) := by
  by_cases hdyn : f.fn.DynamicAllocas = true
  · exact hf.of_dynamic hdyn _
  · obtain ⟨htop, hdynamicTop, -⟩ := hf.static (by simpa using hdyn)
    obtain ⟨q, hq⟩ := Option.ne_none_iff_exists'.mp hloaded
    rw [restoredTop, hdynamicTop, hq, Option.getD_none, Option.getD_some, hf.staticTop q hq, ← htop]
    exact hf

theorem setjmp_levels {first : Bool} {undef : Nat} (h : Levels s.pointer s.frames)
    (hok : s.Scoped (.setjmp first undef)) (hs : s.setjmp first undef = some t) :
    Levels t.pointer t.frames ∧ t.Restored := by
  obtain ⟨f, rest, hframes, -, f', rfl, rfl⟩ := setjmp_eq hs
  rw [hframes] at h
  obtain ⟨hf, hrest⟩ := h
  have hloaded :
      (if !f.fn.hasBasePointer && first then some s.pointer else f.StaticTop) ≠ none :=
    staticTop_loaded (fun hbase => hf.jumps (Or.inr hbase))
      (hok.imp_right fun hstatic => hstatic f (by simp [hframes]))
  refine ⟨⟨restoredTop_level (p := s.pointer) ?_ hloaded undef, hrest⟩,
    fun scope hscope => by cases hscope⟩
  refine ⟨hf.native, hf.savedNative, ?_, hf.static, fun p hp => ?_, fun _ => hloaded⟩
  · exact List.forall_mem_cons.mpr ⟨hf.native, hf.jumpNative⟩
  · simp only at hp
    split at hp
    · rename_i hfirst
      simp only [Bool.and_eq_true, Bool.not_eq_true'] at hfirst
      have hno := hfirst.1
      simp only [TrackedFunction.hasBasePointer, Bool.or_eq_false_iff] at hno
      exact (Option.some.inj hp).symm.trans (hf.static hno.2).1
    · exact hf.staticTop p hp

theorem longjmp_levels {unwound i undef : Nat} (h : Levels s.pointer s.frames)
    (hs : s.longjmp unwound i undef = some t) : Levels t.pointer t.frames ∧ t.Restored := by
  obtain ⟨f, rest, buf, hframes, hmem, hopen, rfl⟩ := longjmp_eq hs
  have hdrop := levels_drop (n := unwound) h
  rw [hframes] at hdrop
  obtain ⟨hf, hrest⟩ := hdrop
  refine ⟨⟨?_, hrest⟩, fun scope hscope => by cases hscope⟩
  have hback := restoredTop_level hf (hf.jumps (Or.inl (List.ne_nil_of_mem hmem))) undef
  refine ⟨hf.jumpNative buf hmem, fun scope h => hf.savedNative scope (hopen.subset h),
    hf.jumpNative, fun hno => ?_, hf.staticTop, hf.jumps⟩
  obtain ⟨htop, hdynamicTop, hsaved⟩ := hback.static hno
  exact ⟨htop, hdynamicTop, fun scope h => hsaved scope (hopen.subset h)⟩

theorem step_levels {a : TwoStackAction} (h : Levels s.pointer s.frames) (hok : s.Scoped a)
    (hs : s.step a = some t) : Levels t.pointer t.frames ∧ t.Restored := by
  cases a with
  | call F native =>
    cases hs
    exact ⟨⟨enter_level F s.pointer native, h⟩, fun scope hscope => by cases hscope⟩
  | ret => exact ret_levels h hs
  | throw unwound => exact throw_levels h hok hs
  | trackedAlloca bytes align => exact trackedAlloca_levels h hs
  | untrackedAlloca bytes align => exact untrackedAlloca_levels h hs
  | stacksave => exact stacksave_levels h hs
  | stackrestore i => exact stackrestore_levels h hok hs
  | setjmp first undef => exact setjmp_levels h hok hs
  | longjmp unwound i undef => exact longjmp_levels h hs

/-- In every run whose steps meet the condition, closing a scope leaves both stack pointers as they
were when it was opened. -/
theorem restored_of_scoped {pointer : Nat} {as : List TwoStackAction}
    (hok : Guarded step Scoped (init pointer) as) (h : Visits step (init pointer) as s) :
    s.Restored := by
  have hinit : Levels (init pointer).pointer (init pointer).frames ∧ (init pointer).Restored :=
    ⟨trivial, fun scope hscope => by cases hscope⟩
  exact (visits_invariant (I := fun s => Levels s.pointer s.frames ∧ s.Restored) hinit
    (fun _ _ _ hinv hok hs => step_levels hinv.1 hok hs) hok h).2

/-- A scope with one tracked object. -/
theorem restored_of_tracked_scope : ∃ s scope,
    exec step (init 0x10000) [.call ⟨[], true, false⟩ 0x7000, .stacksave, .trackedAlloca 24 8,
      .stackrestore 0] = some s ∧ s.restored = some scope ∧ s.pointer = scope.pointer := by
  have hrun : ((exec step (init 0x10000) [.call ⟨[], true, false⟩ 0x7000, .stacksave,
      .trackedAlloca 24 8, .stackrestore 0]).bind restored).isSome := by decide
  obtain ⟨scope, hscope⟩ := Option.isSome_iff_exists.mp hrun
  obtain ⟨s, hs, hrestored⟩ := Option.bind_eq_some_iff.mp hscope
  refine ⟨s, scope, hs, hrestored, (restored_of_scoped ?_ (visits_last hs) scope hrestored).1⟩
  refine guarded_cons trivial fun _ h₁ => guarded_cons trivial fun _ h₂ =>
    guarded_cons trivial fun _ h₃ => guarded_cons ?_ fun _ _ => guarded_nil
  obtain rfl := Option.some.inj h₁
  obtain rfl := Option.some.inj h₂
  obtain rfl := Option.some.inj h₃
  intro f hf scope hscope _
  obtain rfl := Option.some.inj hf
  obtain rfl := Option.some.inj hscope
  rfl

/-- A scope with a tracked and an untracked array. -/
theorem restored_fails_in_mixed_scope :
    ¬ ∀ pointer as s, exec step (init pointer) as = some s → s.Restored := by
  intro hall
  have hnative := (hall 0x10000 [.call ⟨[], true, false⟩ 0x7000, .stacksave, .trackedAlloca 24 8,
    .untrackedAlloca 64 8, .stackrestore 0] _ rfl _ rfl).2 _ rfl
  exact absurd hnative (by decide)

end TwoStacks

end TypeSan
