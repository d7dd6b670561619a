import TypeSan.TwoStacks

/-! A second return from `setjmp` finds the tracked stack pointer below all live objects, in runs
whose frames fit. -/
namespace TypeSan

open Rounding Runs

/-- The static frame of a callee is at most 2 GiB and fits below the pointer, as does a dynamic
object, and a restore point finds its pointer loaded. -/
def TwoStacks.Fits (s : TwoStacks) : TwoStackAction → Prop
  | .call F _ => F.staticOffset ≤ 2 ^ 31 ∧ F.staticOffset ≤ F.alignedBase s.pointer
  | .trackedAlloca bytes _ => bytes ≤ s.pointer
  | .setjmp first _ => first = true ∨ ∀ f ∈ s.frames.head?, f.StaticTop ≠ none
  | _ => True

/-- After a second return, the pointer is at or below every live tracked object of the activation,
and not above the value that it was entered with. -/
def TwoStacks.LandsSafely (s : TwoStacks) : Prop :=
  s.landed = true → ∀ f ∈ s.frames.head?,
    (∀ o ∈ f.objects, s.pointer ≤ o.start) ∧ s.pointer ≤ f.BasePointer

/-- The pointer is at or below these objects of an activation, and not above its base pointer. -/
def StackFrame.Covers (f : StackFrame) (p : Nat) (live : List StackObject) : Prop :=
  p ≤ f.BasePointer ∧ ∀ o ∈ f.fn.staticObjects f.BasePointer ++ live, p ≤ o.start

/-- What an activation keeps whose tracked stack ends at `top`. -/
structure StackFrame.Below (f : StackFrame) (top : Nat) : Prop where
  base : f.BasePointer < 2 ^ 64
  top : f.Covers top f.live
  dynamicTop : ∀ p, f.DynamicTop = some p → f.Covers p f.live
  staticTop : ∀ p, f.StaticTop = some p → f.Covers p []
  static : f.fn.DynamicAllocas = false → f.live = []
  hasDynamicTop : f.fn.StackRestorePoints = true → f.fn.DynamicAllocas = true →
    f.DynamicTop ≠ none
  jumps : f.jumps ≠ [] → f.fn.StackRestorePoints = true
  loaded : f.jumps ≠ [] ∨ f.fn.hasBasePointer = true → f.StaticTop ≠ none
  saved : ∀ scope ∈ f.saved, f.Covers scope.pointer scope.live ∧ scope.live ⊆ f.live
  nested : f.saved.Pairwise fun inner outer => outer.live ⊆ inner.live

/-- Every activation lies below its caller. -/
def Descending (top : Nat) : List StackFrame → Prop
  | [] => True
  | f :: rest => f.Below top ∧ Descending f.BasePointer rest

theorem StackFrame.Covers.mono {f : StackFrame} {p q : Nat} {live live' : List StackObject}
    (h : f.Covers p live) (hq : q ≤ p) (hlive : live' ⊆ live) : f.Covers q live' := by
  refine ⟨Nat.le_trans hq h.1, fun o ho => Nat.le_trans hq (h.2 o ?_)⟩
  rcases List.mem_append.mp ho with ho | ho
  · exact List.mem_append_left _ ho
  · exact List.mem_append_right _ (hlive ho)

theorem StackFrame.Below.move {f : StackFrame} {top p : Nat} (h : f.Below top)
    (hp : f.Covers p f.live) : f.Below p :=
  ⟨h.base, hp, h.dynamicTop, h.staticTop, h.static, h.hasDynamicTop, h.jumps, h.loaded, h.saved,
    h.nested⟩

theorem Descending.mono {top p : Nat} {frames : List StackFrame} (h : Descending top frames)
    (hp : p ≤ top) : Descending p frames := by
  cases frames with
  | nil => trivial
  | cons f rest => exact ⟨h.1.move (h.1.top.mono hp (List.Subset.refl _)), h.2⟩

theorem Descending.drop {top : Nat} {frames : List StackFrame} (h : Descending top frames)
    (n : Nat) : Descending top (frames.drop n) := by
  induction n generalizing frames with
  | zero => exact h
  | succ n ih =>
    cases frames with
    | nil => trivial
    | cons f rest => exact ih (h.2.mono h.1.top.1)

/-- A dynamic alloca that fits ends at or above the new top, and does not move the pointer up. -/
theorem allocaTop_le {stackAlignment pointer bytes align : Nat} (hword : pointer < 2 ^ 64)
    (hroom : bytes ≤ pointer) : allocaTop stackAlignment pointer bytes align ≤ pointer := by
  have hSP : (pointer + (2 ^ 64 - bytes % 2 ^ 64)) % 2 ^ 64 = pointer - bytes := by
    rw [Nat.mod_eq_of_lt (by omega : bytes < 2 ^ 64), TrackedFunction.subtract_eq hword hroom]
  simp only [allocaTop, hSP]
  exact Nat.le_trans (Nat.sub_le _ _) (Nat.sub_le _ _)

namespace TrackedFunction

variable {F : TrackedFunction} {entry : Nat}

theorem layoutAllocas_start {base StaticOffset : Nat} {allocas : List (Nat × Nat)}
    (hbase : base < 2 ^ 64) (hroom : offsetBehind StaticOffset allocas ≤ base)
    (hframe : offsetBehind StaticOffset allocas ≤ 2 ^ 31) :
    ∀ o ∈ layoutAllocas base StaticOffset allocas,
      base - offsetBehind StaticOffset allocas ≤ o.start := by
  induction allocas generalizing StaticOffset with
  | nil => simp [layoutAllocas]
  | cons AI rest ih =>
    have hlast := le_offsetBehind
      (alignTo (StaticOffset + max 1 AI.1) (max AI.2 StackAlignment)) rest
    rw [offsetBehind, List.foldl_cons, ← offsetBehind] at hroom hframe ⊢
    intro o ho
    rcases List.mem_cons.mp ho with rfl | ho
    · simp only
      rw [add_negOffset hbase (by omega) (by omega)]
      omega
    · exact ih hroom hframe o ho

/-- The top behind the static allocas is below them and below the entry pointer. -/
theorem staticTop_covers (hword : entry < 2 ^ 64) (hframe : F.staticOffset ≤ 2 ^ 31)
    (hroom : F.staticOffset ≤ F.alignedBase entry) :
    F.staticTop entry ≤ entry ∧ ∀ o ∈ F.staticObjects entry, F.staticTop entry ≤ o.start := by
  have hbase := alignedBase_le F entry
  have hoffset : offsetBehind 0 F.StaticAllocas ≤ F.staticOffset := le_alignTo (by decide)
  unfold staticTop
  split
  · rename_i hnil
    simp [staticObjects, hnil, layoutAllocas]
  · rw [add_negOffset (by omega) hroom hframe]
    refine ⟨by omega, fun o ho => Nat.le_trans ?_ (layoutAllocas_start (by omega)
      (Nat.le_trans hoffset hroom) (Nat.le_trans hoffset hframe) o ho)⟩
    omega

end TrackedFunction

namespace TwoStacks

variable {s t : TwoStacks}

/-- The pointer is a word, and no activation is above its caller. -/
def Ordered (s : TwoStacks) : Prop := s.pointer < 2 ^ 64 ∧ Descending s.pointer s.frames

theorem Ordered.landsSafely (h : s.Ordered) : s.LandsSafely := by
  intro _ f hf
  obtain ⟨rest, hframes⟩ : ∃ rest, s.frames = f :: rest := by
    cases hframes : s.frames with
    | nil => simp [hframes] at hf
    | cons g rest =>
      rw [hframes] at hf
      exact ⟨rest, by rw [Option.some.inj hf]⟩
  have hchain := h.2
  rw [hframes] at hchain
  exact ⟨hchain.1.top.2, hchain.1.top.1⟩

theorem call_ordered {F : TrackedFunction} {native : Nat} (h : s.Ordered)
    (hok : s.Fits (.call F native)) : (s.call F native).Ordered := by
  obtain ⟨hle, hobjects⟩ := TrackedFunction.staticTop_covers h.1 hok.1 hok.2
  refine ⟨Nat.lt_of_le_of_lt hle h.1, ?_, h.2⟩
  have hcovers : (enter F s.pointer native).Covers (F.staticTop s.pointer) [] :=
    ⟨hle, fun o ho => hobjects o (by rwa [List.append_nil] at ho)⟩
  refine ⟨h.1, hcovers, fun p hp => ?_, fun p hp => ?_, fun _ => rfl, fun hr hd => ?_,
    fun hne => (hne rfl).elim, fun hloaded => ?_, by simp [enter], by simp [enter]⟩
  · simp only [enter, Option.ite_none_right_eq_some, Option.some.injEq] at hp
    exact hp.2 ▸ hcovers
  · simp only [enter, Option.ite_none_right_eq_some, Option.some.injEq] at hp
    exact hp.2 ▸ hcovers
  · simp [enter, show F.StackRestorePoints = true from hr, show F.DynamicAllocas = true from hd]
  · have hbase : F.hasBasePointer = true := hloaded.resolve_left fun hne => hne rfl
    simp [enter, hbase]

theorem ret_ordered (h : s.Ordered) (hs : s.ret = some t) : t.Ordered := by
  obtain ⟨f, rest, hframes, rfl⟩ := ret_eq hs
  obtain ⟨hword, hchain⟩ := h
  rw [hframes] at hchain
  obtain ⟨hf, hrest⟩ := hchain
  by_cases hbase : f.fn.hasBasePointer = true
  · rw [if_pos hbase]
    exact ⟨hf.base, hrest⟩
  · rw [if_neg hbase]
    exact ⟨hword, hrest.mono hf.top.1⟩

theorem throw_ordered {unwound : Nat} (h : s.Ordered) (hs : s.throw unwound = some t) :
    t.Ordered := by
  obtain ⟨f, rest, hframes, rfl⟩ := throw_eq hs
  have hdrop := h.2.drop unwound
  rw [hframes] at hdrop
  exact ⟨h.1, hdrop⟩

theorem trackedAlloca_ordered {bytes align : Nat} (h : s.Ordered)
    (hok : s.Fits (.trackedAlloca bytes align)) (hs : s.trackedAlloca bytes align = some t) :
    t.Ordered := by
  obtain ⟨f, rest, hframes, hdyn, rfl⟩ := trackedAlloca_eq hs
  obtain ⟨hword, hchain⟩ := h
  rw [hframes] at hchain
  obtain ⟨hf, hrest⟩ := hchain
  have hle : allocaTop StackAlignment s.pointer bytes align ≤ s.pointer := allocaTop_le hword hok
  have hold := hf.top.mono hle (List.Subset.refl _)
  have hnew : f.Covers (allocaTop StackAlignment s.pointer bytes align)
      (⟨allocaTop StackAlignment s.pointer bytes align, bytes, align⟩ :: f.live) := by
    refine ⟨hold.1, ?_⟩
    intro o ho
    rcases List.mem_append.mp ho with ho | ho
    · exact hold.2 o (List.mem_append_left _ ho)
    · rcases List.mem_cons.mp ho with rfl | ho
      · exact Nat.le_refl _
      · exact hold.2 o (List.mem_append_right _ ho)
  refine ⟨Nat.lt_of_le_of_lt hle hword, ⟨hf.base, hnew, fun p hp => ?_, hf.staticTop,
    fun hno => ?_, fun hr hd hnone => ?_, hf.jumps, hf.loaded, fun scope hscope => ?_,
    hf.nested⟩, hrest⟩
  · obtain ⟨q, -, rfl⟩ := Option.map_eq_some_iff.mp hp
    exact hnew
  · simp [hdyn] at hno
  · exact hf.hasDynamicTop hr hd (Option.map_eq_none_iff.mp hnone)
  · obtain ⟨hcovers, hsub⟩ := hf.saved scope hscope
    exact ⟨hcovers, fun o ho => List.mem_cons_of_mem _ (hsub ho)⟩

theorem untrackedAlloca_ordered {bytes align : Nat} (h : s.Ordered)
    (hs : s.untrackedAlloca bytes align = some t) : t.Ordered := by
  obtain ⟨f, rest, hframes, rfl⟩ := untrackedAlloca_eq hs
  obtain ⟨hword, hchain⟩ := h
  rw [hframes] at hchain
  obtain ⟨hf, hrest⟩ := hchain
  exact ⟨hword, ⟨hf.base, hf.top, hf.dynamicTop, hf.staticTop, hf.static, hf.hasDynamicTop,
    hf.jumps, hf.loaded, hf.saved, hf.nested⟩, hrest⟩

theorem stacksave_ordered (h : s.Ordered) (hs : s.stacksave = some t) : t.Ordered := by
  obtain ⟨f, rest, hframes, rfl⟩ := stacksave_eq hs
  obtain ⟨hword, hchain⟩ := h
  rw [hframes] at hchain
  obtain ⟨hf, hrest⟩ := hchain
  refine ⟨hword, ⟨hf.base, hf.top, hf.dynamicTop, hf.staticTop, hf.static, hf.hasDynamicTop,
    hf.jumps, hf.loaded, ?_, ?_⟩, hrest⟩
  · exact List.forall_mem_cons.mpr ⟨⟨hf.top, List.Subset.refl _⟩, hf.saved⟩
  · exact List.pairwise_cons.mpr ⟨fun scope h => (hf.saved scope h).2, hf.nested⟩

/-- Closing a scope releases the objects that were allocated in it. -/
theorem stackrestore_ordered {i : Nat} (h : s.Ordered) (hs : s.stackrestore i = some t) :
    t.Ordered := by
  obtain ⟨f, rest, scope, hframes, hscope, hcases⟩ := stackrestore_cases hs
  obtain ⟨hword, hchain⟩ := h
  rw [hframes] at hchain
  obtain ⟨hf, hrest⟩ := hchain
  obtain ⟨hcovers, hlive⟩ := hf.saved scope (List.mem_of_getElem? hscope)
  have hnested : (f.saved.drop (i + 1)).Pairwise fun inner outer => outer.live ⊆ inner.live :=
    hf.nested.sublist (List.drop_sublist _ _)
  rcases hcases with ⟨hdyn, rfl⟩ | ⟨-, rfl⟩
  · -- what is left of the scopes was open when this one was opened
    have houter : ∀ outer ∈ f.saved.drop (i + 1), outer.live ⊆ scope.live := by
      obtain ⟨hi, rfl⟩ := List.getElem?_eq_some_iff.mp hscope
      have hsplit := hf.nested
      rw [← List.take_append_drop i f.saved, List.pairwise_append] at hsplit
      rw [List.drop_eq_getElem_cons hi] at hsplit
      exact (List.pairwise_cons.mp hsplit.2.1).1
    refine ⟨Nat.lt_of_le_of_lt hcovers.1 hf.base, ⟨hf.base, hcovers, fun p hp =>
      (hf.dynamicTop p hp).mono (Nat.le_refl _) hlive, hf.staticTop, fun hno => ?_,
      hf.hasDynamicTop, hf.jumps, hf.loaded, fun outer h => ?_, hnested⟩, hrest⟩
    · simp [hdyn] at hno
    · exact ⟨(hf.saved outer (List.drop_subset _ _ h)).1, houter outer h⟩
  · exact ⟨hword, ⟨hf.base, hf.top, hf.dynamicTop, hf.staticTop, hf.static, hf.hasDynamicTop,
      hf.jumps, hf.loaded, fun outer h => hf.saved outer (List.drop_subset _ _ h), hnested⟩,
      hrest⟩

/-- What a restore point stores is below all live objects: the slot is only ever lowered with the
pointer, and closing a scope does not raise it. -/
theorem covers_restoredTop {f : StackFrame} {top : Nat} (undef : Nat) (hf : f.Below top)
    (hpoints : f.fn.StackRestorePoints = true) (hloaded : f.StaticTop ≠ none) :
    f.Covers (restoredTop f undef) f.live := by
  rw [restoredTop]
  cases hslot : f.DynamicTop with
  | some p => exact hf.dynamicTop p hslot
  | none =>
    have hno : f.fn.DynamicAllocas = false := by
      by_contra hdyn
      exact hf.hasDynamicTop hpoints (by simpa using hdyn) hslot
    obtain ⟨p, hp⟩ := Option.ne_none_iff_exists'.mp hloaded
    rw [hp, hf.static hno]
    exact hf.staticTop p hp

theorem setjmp_ordered {first : Bool} {undef : Nat} (h : s.Ordered)
    (hok : s.Fits (.setjmp first undef)) (hs : s.setjmp first undef = some t) : t.Ordered := by
  obtain ⟨f, rest, hframes, hpoints, f', hf', rfl⟩ := setjmp_eq hs
  obtain ⟨hword, hchain⟩ := h
  rw [hframes] at hchain
  obtain ⟨hf, hrest⟩ := hchain
  have hloaded :
      (if !f.fn.hasBasePointer && first then some s.pointer else f.StaticTop) ≠ none :=
    staticTop_loaded (fun hbase => hf.loaded (Or.inr hbase))
      (hok.imp_right fun hstatic => hstatic f (by simp [hframes]))
  have hbelow : f'.Below s.pointer := by
    subst hf'
    refine ⟨hf.base, hf.top, hf.dynamicTop, fun p hp => ?_, hf.static, hf.hasDynamicTop,
      fun _ => hpoints, fun _ => hloaded, hf.saved, hf.nested⟩
    simp only at hp
    split at hp
    · exact Option.some.inj hp ▸ hf.top.mono (Nat.le_refl _) (List.nil_subset _)
    · exact hf.staticTop p hp
  subst hf'
  have hcovers := covers_restoredTop undef hbelow hpoints hloaded
  exact ⟨Nat.lt_of_le_of_lt hcovers.1 hf.base, hbelow.move hcovers, hrest⟩

theorem longjmp_ordered {unwound i undef : Nat} (h : s.Ordered)
    (hs : s.longjmp unwound i undef = some t) : t.Ordered := by
  obtain ⟨f, rest, buf, hframes, hmem, hopen, rfl⟩ := longjmp_eq hs
  have hdrop := h.2.drop unwound
  rw [hframes] at hdrop
  obtain ⟨hf, hrest⟩ := hdrop
  have hne : f.jumps ≠ [] := List.ne_nil_of_mem hmem
  have hcovers := covers_restoredTop undef hf (hf.jumps hne) (hf.loaded (Or.inl hne))
  exact ⟨Nat.lt_of_le_of_lt hcovers.1 hf.base, ⟨hf.base, hcovers, hf.dynamicTop, hf.staticTop,
    hf.static, hf.hasDynamicTop, hf.jumps, hf.loaded, fun scope h =>
    hf.saved scope (hopen.subset h), hf.nested.sublist hopen.sublist⟩, hrest⟩

theorem step_ordered {a : TwoStackAction} (h : s.Ordered) (hok : s.Fits a)
    (hs : s.step a = some t) : t.Ordered := by
  cases a with
  | call F native =>
    cases hs
    exact call_ordered h hok
  | ret => exact ret_ordered h hs
  | throw unwound => exact throw_ordered h hs
  | trackedAlloca bytes align => exact trackedAlloca_ordered h hok hs
  | untrackedAlloca bytes align => exact untrackedAlloca_ordered h hs
  | stacksave => exact stacksave_ordered h hs
  | stackrestore i => exact stackrestore_ordered h hs
  | setjmp first undef => exact setjmp_ordered h hok hs
  | longjmp unwound i undef => exact longjmp_ordered h hs

/-- In every run whose steps meet the condition, a second return from `setjmp` lands on a safe
tracked stack. -/
theorem landsSafely_of_fits {pointer : Nat} {as : List TwoStackAction} (hword : pointer < 2 ^ 64)
    (hok : Guarded step Fits (init pointer) as) (h : Visits step (init pointer) as s) :
    s.LandsSafely := by
  have hinit : (init pointer).Ordered := ⟨hword, trivial⟩
  exact (visits_invariant (I := Ordered) hinit
    (fun _ _ _ hinv hok hs => step_ordered hinv hok hs) hok h).landsSafely

/-- A `longjmp` from a callee into a function with a static and a dynamic object. -/
theorem landsSafely_of_callee : ∃ s,
    exec step (init 0x10000) [.call ⟨[(24, 8)], true, true⟩ 0x7000, .setjmp true 0,
      .trackedAlloca 100 8, .call ⟨[(8, 8)], false, false⟩ 0x6000, .longjmp 1 0 0] = some s ∧
      s.landed = true ∧ s.LandsSafely := by
  have hrun : ((exec step (init 0x10000) [.call ⟨[(24, 8)], true, true⟩ 0x7000, .setjmp true 0,
      .trackedAlloca 100 8, .call ⟨[(8, 8)], false, false⟩ 0x6000, .longjmp 1 0 0]).map landed) =
      some true := by decide
  obtain ⟨s, hs, hlanded⟩ := Option.map_eq_some_iff.mp hrun
  refine ⟨s, hs, hlanded, landsSafely_of_fits (by decide) ?_ (visits_last hs)⟩
  refine guarded_cons ⟨by decide, by decide⟩ fun _ h₁ => guarded_cons (Or.inl rfl) fun _ h₂ =>
    guarded_cons ?_ fun _ h₃ => guarded_cons ?_ fun _ _ => guarded_cons trivial fun _ _ =>
      guarded_nil
  · obtain rfl := Option.some.inj h₁
    obtain rfl := Option.some.inj h₂
    exact Nat.le_of_ble_eq_true rfl
  · obtain rfl := Option.some.inj h₁
    obtain rfl := Option.some.inj h₂
    obtain rfl := Option.some.inj h₃
    exact ⟨by decide, Nat.le_of_ble_eq_true rfl⟩

/-- The constant offset of a static frame of more than 2 GiB is extended as a positive number. -/
theorem landsSafely_fails_with_large_frame :
    ¬ ∀ pointer as s, pointer < 2 ^ 64 → exec step (init pointer) as = some s →
      s.LandsSafely := by
  intro hall
  have hland := (hall (2 ^ 40) [.call ⟨[(2 ^ 31 + 64, 8)], false, true⟩ 0x7000, .setjmp true 0,
    .longjmp 0 0 0] _ (by decide) rfl rfl _ rfl).2
  exact absurd hland (by decide)

end TwoStacks

end TypeSan
