import TypeSan.Longjmp

/-! In every run whose frames fit, the live tracked objects of all activations keep apart. -/
namespace TypeSan

open Rounding Runs

/-- The frame of a callee is less than 2 GiB, it and dynamic objects fit below the pointer, a restore
point finds its pointer loaded, and alignments are powers of two. -/
def TwoStacks.Lays (s : TwoStacks) (a : TwoStackAction) : Prop :=
  s.Fits a ∧
    match a with
    | .call F _ => F.staticOffset < 2 ^ 31 ∧ ∀ AI ∈ F.StaticAllocas, AI.2.isPowerOfTwo
    | .trackedAlloca _ align => align.isPowerOfTwo
    | _ => True

/-- The live tracked objects, those of the running activation first. -/
def TwoStacks.objects (s : TwoStacks) : List StackObject := s.frames.flatMap StackFrame.objects

/-- What an activation keeps of the places of its objects. -/
structure StackFrame.Neat (f : StackFrame) : Prop where
  base : StackAlignment ∣ f.BasePointer
  dynamicTop : ∀ p, f.DynamicTop = some p → StackAlignment ∣ p
  staticTop : ∀ p, f.StaticTop = some p → StackAlignment ∣ p
  saved : ∀ scope ∈ f.saved, StackAlignment ∣ scope.pointer ∧
    (f.fn.staticObjects f.BasePointer ++ scope.live).Pairwise StackObject.Apart
  placed : ∀ o ∈ f.objects, StackAlignment ∣ o.start ∧ o.start + o.size ≤ f.BasePointer
  apart : f.objects.Pairwise StackObject.Apart

/-- An object that ends below the granule with which another starts is apart from it. -/
theorem StackObject.apart_of_le {o o' : StackObject} (hgranule : StackAlignment ∣ o'.start)
    (hle : o.start + o.size ≤ o'.start) : o.Apart o' := by
  intro x y hx hy
  obtain ⟨k, hk⟩ := hgranule
  rw [StackAlignment] at hk
  have hxk : x / 64 < k := Nat.div_lt_of_lt_mul (by have := hx.2; omega)
  have hyk : k ≤ y / 64 := (Nat.le_div_iff_mul_le (by decide)).mpr (by have := hy.1; omega)
  omega

theorem Stacked.dvd_start {top bottom : Nat} {objects : List StackObject}
    (h : Stacked top objects bottom) : ∀ o ∈ objects, StackAlignment ∣ o.start := by
  induction objects generalizing top with
  | nil => simp
  | cons o rest ih => exact List.forall_mem_cons.mpr ⟨h.2.2.1, ih h.2.2.2⟩

theorem StackObject.Apart.symm {o o' : StackObject} (h : o.Apart o') : o'.Apart o :=
  fun x y hx hy heq => h y x hy hx heq.symm

/-- What lies below the tops of all activations is below all of their objects. -/
theorem Descending.le_start {top : Nat} {frames : List StackFrame} (h : Descending top frames) :
    ∀ f ∈ frames, ∀ o ∈ f.objects, top ≤ o.start := by
  induction frames generalizing top with
  | nil => simp
  | cons f rest ih =>
    obtain ⟨hf, hrest⟩ := h
    refine List.forall_mem_cons.mpr ⟨hf.top.2, fun g hg o ho => ?_⟩
    exact Nat.le_trans hf.top.1 (ih hrest g hg o ho)

/-- Objects of different activations keep apart, too. -/
theorem Descending.apart {top : Nat} {frames : List StackFrame} (h : Descending top frames)
    (hneat : ∀ f ∈ frames, f.Neat) :
    (frames.flatMap StackFrame.objects).Pairwise StackObject.Apart := by
  induction frames generalizing top with
  | nil => simp
  | cons f rest ih =>
    obtain ⟨hf, hrest⟩ := List.forall_mem_cons.mp hneat
    rw [List.flatMap_cons, List.pairwise_append]
    refine ⟨hf.apart, ih h.2 hrest, fun o ho o' ho' => ?_⟩
    obtain ⟨g, hg, ho'⟩ := List.mem_flatMap.mp ho'
    refine StackObject.apart_of_le ((hrest g hg).placed o' ho').1 ?_
    exact Nat.le_trans (hf.placed o ho).2 (h.2.le_start g hg o' ho')

/-- A dynamic alloca that fits puts its object right below the pointer, aligned. -/
theorem allocaTop_spec {pointer bytes align : Nat} (hword : pointer < 2 ^ 64)
    (hroom : bytes ≤ pointer) (halign : align.isPowerOfTwo) :
    allocaTop StackAlignment pointer bytes align + bytes ≤ pointer ∧
      StackAlignment ∣ allocaTop StackAlignment pointer bytes align := by
  have hSP : (pointer + (2 ^ 64 - bytes % 2 ^ 64)) % 2 ^ 64 = pointer - bytes := by
    rw [Nat.mod_eq_of_lt (by omega : bytes < 2 ^ 64), TrackedFunction.subtract_eq hword hroom]
  have hstack : StackAlignment ∣ max align StackAlignment :=
    TrackedFunction.dvd_of_powers TrackedFunction.isPowerOfTwo_stackAlignment
      (TrackedFunction.isPowerOfTwo_max halign TrackedFunction.isPowerOfTwo_stackAlignment)
      (Nat.le_max_right _ _)
  simp only [allocaTop, hSP]
  exact ⟨by omega, hstack.trans (Nat.dvd_sub_mod _)⟩

namespace TwoStacks

variable {s t : TwoStacks}

/-- The pointer is aligned, the activations are ordered, and each one's objects have their places. -/
structure Separate (s : TwoStacks) : Prop where
  ordered : s.Ordered
  aligned : StackAlignment ∣ s.pointer
  neat : ∀ f ∈ s.frames, f.Neat

theorem Separate.apart (h : s.Separate) : s.objects.Pairwise StackObject.Apart :=
  h.ordered.2.apart h.neat

theorem Separate.mem_placed (h : s.Separate) {o : StackObject} (ho : o ∈ s.objects) :
    StackAlignment ∣ o.start ∧ s.pointer ≤ o.start ∧
      ∃ f ∈ s.frames, o.start + o.size ≤ f.BasePointer := by
  obtain ⟨f, hf, ho⟩ := List.mem_flatMap.mp ho
  obtain ⟨halign, hend⟩ := (h.neat f hf).placed o ho
  exact ⟨halign, h.ordered.2.le_start f hf o ho, f, hf, hend⟩

/-! The steps. -/

theorem call_separate {F : TrackedFunction} {native : Nat} (h : s.Separate)
    (hok : s.Lays (.call F native)) : (s.call F native).Separate := by
  obtain ⟨hfits, hframe, hpowers⟩ := hok
  obtain ⟨hstacked, htop⟩ := TrackedFunction.stacked_staticObjects h.aligned h.ordered.1 hpowers
    hframe hfits.2
  have hobjects : (enter F s.pointer native).objects = F.staticObjects s.pointer :=
    List.append_nil _
  refine ⟨call_ordered h.ordered hfits, htop, List.forall_mem_cons.mpr ⟨?_, h.neat⟩⟩
  refine ⟨h.aligned, fun p hp => ?_, fun p hp => ?_, by simp [enter], fun o ho => ?_, ?_⟩
  · simp only [enter, Option.ite_none_right_eq_some, Option.some.injEq] at hp
    exact hp.2 ▸ htop
  · simp only [enter, Option.ite_none_right_eq_some, Option.some.injEq] at hp
    exact hp.2 ▸ htop
  · rw [hobjects] at ho
    exact ⟨hstacked.dvd_start o ho, (hstacked.within o ho).2.2⟩
  · rw [hobjects]
    exact hstacked.apart

theorem ret_separate (h : s.Separate) (hs : s.ret = some t) : t.Separate := by
  have hordered := ret_ordered h.ordered hs
  obtain ⟨f, rest, hframes, rfl⟩ := ret_eq hs
  have hneat := h.neat
  rw [hframes] at hneat
  obtain ⟨hf, hrest⟩ := List.forall_mem_cons.mp hneat
  refine ⟨hordered, ?_, hrest⟩
  simp only
  split
  · exact hf.base
  · exact h.aligned

theorem throw_separate {unwound : Nat} (h : s.Separate) (hs : s.throw unwound = some t) :
    t.Separate := by
  have hordered := throw_ordered h.ordered hs
  obtain ⟨f, rest, hframes, rfl⟩ := throw_eq hs
  refine ⟨hordered, h.aligned, fun g hg => h.neat g ?_⟩
  exact List.drop_subset unwound _ (hframes ▸ hg)

theorem trackedAlloca_separate {bytes align : Nat} (h : s.Separate)
    (hok : s.Lays (.trackedAlloca bytes align)) (hs : s.trackedAlloca bytes align = some t) :
    t.Separate := by
  have hordered := trackedAlloca_ordered h.ordered hok.1 hs
  obtain ⟨f, rest, hframes, -, rfl⟩ := trackedAlloca_eq hs
  obtain ⟨hword, hchain⟩ := h.ordered
  have hneat := h.neat
  rw [hframes] at hneat hchain
  obtain ⟨hf, hrest⟩ := List.forall_mem_cons.mp hneat
  obtain ⟨hend, halign⟩ := allocaTop_spec hword hok.1 hok.2
  have hbelow := hchain.1.top
  have hperm : (f.fn.staticObjects f.BasePointer ++
      ⟨allocaTop StackAlignment s.pointer bytes align, bytes, align⟩ :: f.live).Perm
        (⟨allocaTop StackAlignment s.pointer bytes align, bytes, align⟩ :: f.objects) :=
    List.perm_middle
  refine ⟨hordered, halign, List.forall_mem_cons.mpr ⟨⟨hf.base, fun p hp => ?_, hf.staticTop,
    hf.saved, fun o ho => ?_, ?_⟩, hrest⟩⟩
  · obtain ⟨q, -, rfl⟩ := Option.map_eq_some_iff.mp hp
    exact halign
  · rcases List.mem_cons.mp (hperm.subset ho) with rfl | ho
    · exact ⟨halign, Nat.le_trans hend hbelow.1⟩
    · exact hf.placed o ho
  · refine (hperm.pairwise_iff fun h => StackObject.Apart.symm h).mpr
      (List.pairwise_cons.mpr ⟨fun o ho => ?_, hf.apart⟩)
    exact StackObject.apart_of_le (hf.placed o ho).1 (Nat.le_trans hend (hbelow.2 o ho))

theorem stacksave_separate (h : s.Separate) (hs : s.stacksave = some t) : t.Separate := by
  have hordered := stacksave_ordered h.ordered hs
  obtain ⟨f, rest, hframes, rfl⟩ := stacksave_eq hs
  have hneat := h.neat
  rw [hframes] at hneat
  obtain ⟨hf, hrest⟩ := List.forall_mem_cons.mp hneat
  refine ⟨hordered, h.aligned, List.forall_mem_cons.mpr ⟨⟨hf.base, hf.dynamicTop, hf.staticTop,
    ?_, hf.placed, hf.apart⟩, hrest⟩⟩
  exact List.forall_mem_cons.mpr ⟨⟨h.aligned, hf.apart⟩, hf.saved⟩

theorem untrackedAlloca_separate {bytes align : Nat} (h : s.Separate)
    (hs : s.untrackedAlloca bytes align = some t) : t.Separate := by
  have hordered := untrackedAlloca_ordered h.ordered hs
  obtain ⟨f, rest, hframes, rfl⟩ := untrackedAlloca_eq hs
  have hneat := h.neat
  rw [hframes] at hneat
  obtain ⟨hf, hrest⟩ := List.forall_mem_cons.mp hneat
  exact ⟨hordered, h.aligned, List.forall_mem_cons.mpr ⟨⟨hf.base, hf.dynamicTop, hf.staticTop,
    hf.saved, hf.placed, hf.apart⟩, hrest⟩⟩

/-- Closing a scope leaves the objects that were live when it was opened. -/
theorem stackrestore_separate {i : Nat} (h : s.Separate) (hs : s.stackrestore i = some t) :
    t.Separate := by
  have hordered := stackrestore_ordered h.ordered hs
  obtain ⟨f, rest, scope, hframes, hscope, hcases⟩ := stackrestore_cases hs
  have hchain := h.ordered.2
  have hneat := h.neat
  rw [hframes] at hneat hchain
  obtain ⟨hf, hrest⟩ := List.forall_mem_cons.mp hneat
  have hmem := List.mem_of_getElem? hscope
  obtain ⟨halign, hapart⟩ := hf.saved scope hmem
  have hsub := (hchain.1.saved scope hmem).2
  have hsaved : ∀ outer ∈ f.saved.drop (i + 1), StackAlignment ∣ outer.pointer ∧
      (f.fn.staticObjects f.BasePointer ++ outer.live).Pairwise StackObject.Apart :=
    fun outer ho => hf.saved outer (List.drop_subset _ _ ho)
  rcases hcases with ⟨-, rfl⟩ | ⟨-, rfl⟩
  · refine ⟨hordered, halign, List.forall_mem_cons.mpr ⟨⟨hf.base, hf.dynamicTop, hf.staticTop,
      hsaved, fun o ho => hf.placed o ?_, hapart⟩, hrest⟩⟩
    rcases List.mem_append.mp ho with ho | ho
    · exact List.mem_append_left _ ho
    · exact List.mem_append_right _ (hsub ho)
  · exact ⟨hordered, h.aligned, List.forall_mem_cons.mpr ⟨⟨hf.base, hf.dynamicTop, hf.staticTop,
      hsaved, hf.placed, hf.apart⟩, hrest⟩⟩

/-- What a restore point stores is aligned. -/
theorem restoredTop_aligned {f : StackFrame} (undef : Nat) (hloaded : f.DynamicTop ≠ none ∨
    f.StaticTop ≠ none) (hdynamic : ∀ p, f.DynamicTop = some p → StackAlignment ∣ p)
    (hstatic : ∀ p, f.StaticTop = some p → StackAlignment ∣ p) :
    StackAlignment ∣ restoredTop f undef := by
  rw [restoredTop]
  cases hslot : f.DynamicTop with
  | some p => exact hdynamic p hslot
  | none =>
    obtain ⟨p, hp⟩ := Option.ne_none_iff_exists'.mp (hloaded.resolve_left (not_not.mpr hslot))
    rw [hp]
    exact hstatic p hp

theorem setjmp_separate {first : Bool} {undef : Nat} (h : s.Separate)
    (hok : s.Fits (.setjmp first undef)) (hs : s.setjmp first undef = some t) : t.Separate := by
  have hordered := setjmp_ordered h.ordered hok hs
  obtain ⟨f, rest, hframes, -, f', hf', rfl⟩ := setjmp_eq hs
  have hchain := h.ordered.2
  have hneat := h.neat
  rw [hframes] at hneat hchain
  obtain ⟨hf, hrest⟩ := List.forall_mem_cons.mp hneat
  have hloaded :
      (if !f.fn.hasBasePointer && first then some s.pointer else f.StaticTop) ≠ none :=
    staticTop_loaded (fun hbase => hchain.1.loaded (Or.inr hbase))
      (hok.imp_right fun hstatic => hstatic f (by simp [hframes]))
  have hstatic : ∀ p, f'.StaticTop = some p → StackAlignment ∣ p := by
    intro p hp
    simp only [hf'] at hp
    split at hp
    · exact Option.some.inj hp ▸ h.aligned
    · exact hf.staticTop p hp
  subst hf'
  refine ⟨hordered, restoredTop_aligned undef (Or.inr hloaded) hf.dynamicTop hstatic,
    List.forall_mem_cons.mpr ⟨⟨hf.base, hf.dynamicTop, hstatic, hf.saved, hf.placed, hf.apart⟩,
      hrest⟩⟩

theorem longjmp_separate {unwound i undef : Nat} (h : s.Separate)
    (hs : s.longjmp unwound i undef = some t) : t.Separate := by
  have hordered := longjmp_ordered h.ordered hs
  obtain ⟨f, rest, buf, hframes, hmem, hopen, rfl⟩ := longjmp_eq hs
  have hchain := h.ordered.2.drop unwound
  have hneat : ∀ g ∈ f :: rest, g.Neat :=
    fun g hg => h.neat g (List.drop_subset unwound _ (hframes ▸ hg))
  rw [hframes] at hchain
  obtain ⟨hf, hrest⟩ := List.forall_mem_cons.mp hneat
  have hloaded := hchain.1.loaded (Or.inl (List.ne_nil_of_mem hmem))
  refine ⟨hordered, restoredTop_aligned undef (Or.inr hloaded) hf.dynamicTop hf.staticTop,
    List.forall_mem_cons.mpr ⟨⟨hf.base, hf.dynamicTop, hf.staticTop,
      fun scope hscope => hf.saved scope (hopen.subset hscope), hf.placed, hf.apart⟩, hrest⟩⟩

theorem step_separate {a : TwoStackAction} (h : s.Separate) (hok : s.Lays a)
    (hs : s.step a = some t) : t.Separate := by
  cases a with
  | call F native =>
    cases hs
    exact call_separate h hok
  | ret => exact ret_separate h hs
  | throw unwound => exact throw_separate h hs
  | trackedAlloca bytes align => exact trackedAlloca_separate h hok hs
  | untrackedAlloca bytes align => exact untrackedAlloca_separate h hs
  | stacksave => exact stacksave_separate h hs
  | stackrestore i => exact stackrestore_separate h hs
  | setjmp first undef => exact setjmp_separate h hok.1 hs
  | longjmp unwound i undef => exact longjmp_separate h hs

/-! Runs. -/

/-- No activation starts above the top of the stack, and the pointer is not above it. -/
def Bounded (top : Nat) (s : TwoStacks) : Prop :=
  s.pointer ≤ top ∧ ∀ f ∈ s.frames, f.BasePointer ≤ top

/-- The pointer is not above the running activation's base pointer. -/
theorem Ordered.bounded {top : Nat} {f : StackFrame} {rest : List StackFrame} (h : t.Ordered)
    (hframes : t.frames = f :: rest) (hbase : ∀ g ∈ t.frames, g.BasePointer ≤ top) :
    t.Bounded top := by
  have hchain := h.2
  rw [hframes] at hchain
  exact ⟨Nat.le_trans hchain.1.top.1 (hbase f (hframes ▸ List.mem_cons_self)), hbase⟩

theorem step_bounded {top : Nat} {a : TwoStackAction} (h : s.Ordered) (hb : s.Bounded top)
    (hok : s.Fits a) (hs : s.step a = some t) : t.Bounded top := by
  have hordered := step_ordered h hok hs
  obtain ⟨hpointer, hbase⟩ := hb
  have hsame {f : StackFrame} {rest : List StackFrame} (hframes : s.frames = f :: rest)
      {f' : StackFrame} (hf' : f'.BasePointer = f.BasePointer) :
      ∀ g ∈ f' :: rest, g.BasePointer ≤ top := by
    rw [hframes] at hbase
    obtain ⟨hf, hrest⟩ := List.forall_mem_cons.mp hbase
    exact List.forall_mem_cons.mpr ⟨hf' ▸ hf, hrest⟩
  have hdrop {unwound : Nat} {f : StackFrame} {rest : List StackFrame}
      (hframes : s.frames.drop unwound = f :: rest) : ∀ g ∈ f :: rest, g.BasePointer ≤ top :=
    fun g hg => hbase g (List.drop_subset unwound _ (hframes ▸ hg))
  cases a with
  | call F native =>
    cases hs
    exact hordered.bounded rfl (List.forall_mem_cons.mpr ⟨hpointer, hbase⟩)
  | ret =>
    obtain ⟨f, rest, hframes, rfl⟩ := ret_eq hs
    obtain ⟨hf, hrest⟩ := List.forall_mem_cons.mp (hsame hframes rfl)
    refine ⟨?_, hrest⟩
    simp only
    split
    · exact hf
    · exact hpointer
  | throw unwound =>
    obtain ⟨f, rest, hframes, rfl⟩ := throw_eq hs
    exact hordered.bounded rfl (hdrop hframes)
  | trackedAlloca bytes align =>
    obtain ⟨f, rest, hframes, -, rfl⟩ := trackedAlloca_eq hs
    exact hordered.bounded rfl (hsame hframes rfl)
  | untrackedAlloca bytes align =>
    obtain ⟨f, rest, hframes, rfl⟩ := untrackedAlloca_eq hs
    exact hordered.bounded rfl (hsame hframes rfl)
  | stacksave =>
    obtain ⟨f, rest, hframes, rfl⟩ := stacksave_eq hs
    exact hordered.bounded rfl (hsame hframes rfl)
  | stackrestore i =>
    obtain ⟨f, rest, scope, hframes, -, ⟨-, rfl⟩ | ⟨-, rfl⟩⟩ := stackrestore_cases hs
    · exact hordered.bounded rfl (hsame hframes rfl)
    · exact hordered.bounded rfl (hsame hframes rfl)
  | setjmp first undef =>
    obtain ⟨f, rest, hframes, -, f', rfl, rfl⟩ := setjmp_eq hs
    exact hordered.bounded rfl (hsame hframes rfl)
  | longjmp unwound i undef =>
    obtain ⟨f, rest, buf, hframes, -, -, rfl⟩ := longjmp_eq hs
    obtain ⟨hf, hrest⟩ := List.forall_mem_cons.mp (hdrop hframes)
    exact hordered.bounded rfl (List.forall_mem_cons.mpr ⟨hf, hrest⟩)

theorem init_separate {pointer : Nat} (hword : pointer < 2 ^ 64)
    (halign : StackAlignment ∣ pointer) : (init pointer).Separate :=
  ⟨⟨hword, trivial⟩, halign, by simp [init]⟩

/-- In every run whose frames fit, across calls, returns, exceptions, scopes and long jumps, the live
tracked objects of all activations are aligned, lie between the pointer and the top of the stack,
and no two share a granule. -/
theorem objects_apart_of_lays {pointer : Nat} {as : List TwoStackAction} (hword : pointer < 2 ^ 64)
    (halign : StackAlignment ∣ pointer) (hok : Guarded step Lays (init pointer) as)
    (h : Visits step (init pointer) as s) :
    s.objects.Pairwise StackObject.Apart ∧ ∀ o ∈ s.objects, StackAlignment ∣ o.start ∧
      s.pointer ≤ o.start ∧ o.start + o.size ≤ pointer := by
  have hinit : (init pointer).Separate ∧ (init pointer).Bounded pointer :=
    ⟨init_separate hword halign, Nat.le_refl _, by simp [init]⟩
  obtain ⟨hsep, hbound⟩ := visits_invariant (I := fun s => s.Separate ∧ s.Bounded pointer) hinit
    (fun _ _ _ hinv hok hs => ⟨step_separate hinv.1 hok hs,
      step_bounded hinv.1.ordered hinv.2 hok.1 hs⟩) hok h
  refine ⟨hsep.apart, fun o ho => ?_⟩
  obtain ⟨hgranule, hlow, f, hf, hend⟩ := hsep.mem_placed ho
  exact ⟨hgranule, hlow, Nat.le_trans hend (hbound.2 f hf)⟩

/-- Static and dynamic objects of a caller that catches an exception, and then calls again. -/
theorem objects_apart_of_caught : ∃ s,
    exec step (init 0x10000) [.call ⟨[(24, 8)], true, false⟩ 0x7000, .trackedAlloca 100 128,
      .call ⟨[(8, 8), (40, 8)], false, false⟩ 0x6000, .throw 1,
      .call ⟨[(16, 8)], false, false⟩ 0x6000] = some s ∧ s.objects.length = 3 ∧
      s.objects.Pairwise StackObject.Apart := by
  have hrun : (exec step (init 0x10000) [.call ⟨[(24, 8)], true, false⟩ 0x7000,
      .trackedAlloca 100 128, .call ⟨[(8, 8), (40, 8)], false, false⟩ 0x6000, .throw 1,
      .call ⟨[(16, 8)], false, false⟩ 0x6000]).map (fun s => s.objects.length) = some 3 := by
    decide
  obtain ⟨s, hs, hlength⟩ := Option.map_eq_some_iff.mp hrun
  have hpower : (8 : Nat).isPowerOfTwo := ⟨3, rfl⟩
  refine ⟨s, hs, hlength, (objects_apart_of_lays (by decide) (by decide) ?_ (visits_last hs)).1⟩
  refine guarded_cons ⟨⟨by decide, by decide⟩, by decide, by simpa using hpower⟩ fun _ h₁ => ?_
  obtain rfl := Option.some.inj h₁
  refine guarded_cons ⟨Nat.le_of_ble_eq_true rfl, ⟨7, rfl⟩⟩ fun _ h₂ => ?_
  obtain rfl := Option.some.inj h₂
  refine guarded_cons ⟨⟨by decide, Nat.le_of_ble_eq_true rfl⟩, by decide, by simpa using hpower⟩
    fun _ h₃ => ?_
  obtain rfl := Option.some.inj h₃
  refine guarded_cons ⟨trivial, trivial⟩ fun _ h₄ => ?_
  obtain rfl := Option.some.inj h₄
  exact guarded_cons ⟨⟨by decide, Nat.le_of_ble_eq_true rfl⟩, by decide, by simpa using hpower⟩
    fun _ _ => guarded_nil

end TwoStacks

end TypeSan
