import TypeSan.FrameLayout

/-! The native and the tracked stack of a thread, in functions that MetaStack has rewritten. -/
namespace TypeSan

/-- What the two stack pointers are at a `stacksave`, which saves one of them. Not part of the
program: the tracked dynamic objects that are live, and the untracked dynamic allocas in effect. -/
structure SavedScope where
  pointer : Nat
  native : Nat
  live : List StackObject
  untracked : List (Nat × Nat)
  deriving DecidableEq

/-- What a `setjmp` saves of the native stack. Not part of the program: the scopes that are open, and
the untracked dynamic allocas in effect. -/
structure JmpBuf where
  native : Nat
  saved : List SavedScope
  untracked : List (Nat × Nat)
  deriving DecidableEq

/-- A call that has not returned. `native` is its native stack pointer, which starts at
`nativeStart`. `saved` are the scopes that are open, the innermost one first, and `jumps` the calls
of `setjmp`, the last one first. Not part of the program: the tracked dynamic objects that are live,
and the untracked dynamic allocas in effect. -/
structure StackFrame where
  fn : TrackedFunction
  BasePointer : Nat
  StaticTop : Option Nat
  DynamicTop : Option Nat
  nativeStart : Nat
  native : Nat
  saved : List SavedScope
  jumps : List JmpBuf
  live : List StackObject
  untracked : List (Nat × Nat)
  deriving DecidableEq

/-- The tracked objects of an activation. -/
def StackFrame.objects (f : StackFrame) : List StackObject :=
  f.fn.staticObjects f.BasePointer ++ f.live

/-- The tracked stack pointer and the activations, the running one first. `restored` is the scope
that the last step has closed, `landed` whether it was a second return from a `setjmp`. -/
structure TwoStacks where
  pointer : Nat
  frames : List StackFrame
  restored : Option SavedScope
  landed : Bool
  deriving DecidableEq

/-- What the running activation does. A call gives the callee's native stack pointer. A `throw` ends
so many activations and is caught in a landing pad of the next one, and so does a `longjmp`, which
returns from one of that activation's calls of `setjmp`. In a function without tracked allocas only
the `first` restore point loads the pointer; `undef` is what a store behind a restore point finds
that the load has not been executed for. -/
inductive TwoStackAction where
  | call (fn : TrackedFunction) (native : Nat)
  | ret
  | throw (unwound : Nat)
  | trackedAlloca (bytes align : Nat)
  | untrackedAlloca (bytes align : Nat)
  | stacksave
  | stackrestore (i : Nat)
  | setjmp (first : Bool) (undef : Nat)
  | longjmp (unwound i undef : Nat)
  deriving DecidableEq

/-- Room on a stack for a dynamic alloca, below the stack pointer. -/
def allocaTop (stackAlignment pointer bytes align : Nat) : Nat :=
  let SP := (pointer + (2 ^ 64 - bytes % 2 ^ 64)) % 2 ^ 64
  SP - SP % max align stackAlignment

/-- The native stack pointer with these dynamic allocas in effect, the last one first. -/
def nativeTop (nativeStart : Nat) (untracked : List (Nat × Nat)) : Nat :=
  untracked.foldr (fun AI native => allocaTop 16 native AI.1 AI.2) nativeStart

namespace TwoStacks

/-- A thread that has entered no instrumented function. -/
def init (pointer : Nat) : TwoStacks := ⟨pointer, [], none, false⟩

/-- The prologue that `runOnFunction` inserts. -/
def enter (F : TrackedFunction) (pointer native : Nat) : StackFrame where
  fn := F
  BasePointer := pointer
  StaticTop := if F.hasBasePointer then some (F.staticTop pointer) else none
  DynamicTop :=
    if F.StackRestorePoints ∧ F.DynamicAllocas then some (F.staticTop pointer) else none
  nativeStart := native
  native := native
  saved := []
  jumps := []
  live := []
  untracked := []

/-- The frame that is to run, with the pointer and what the step has completed. -/
def run (pointer : Nat) (f : StackFrame) (rest : List StackFrame) : TwoStacks :=
  ⟨pointer, f :: rest, none, false⟩

def call (s : TwoStacks) (F : TrackedFunction) (native : Nat) : TwoStacks :=
  run (F.staticTop s.pointer) (enter F s.pointer native) s.frames

/-- A return: the epilogue stores the base pointer, where there is one. -/
def ret (s : TwoStacks) : Option TwoStacks :=
  match s.frames with
  | [] => none
  | f :: rest => some ⟨if f.fn.hasBasePointer then f.BasePointer else s.pointer, rest, none, false⟩

/-- An exception: the native stack pointer is that of the catching activation, the tracked one is
left as it is. -/
def throw (s : TwoStacks) (unwound : Nat) : Option TwoStacks :=
  match s.frames.drop unwound with
  | [] => none
  | f :: rest => some (run s.pointer f rest)

/-- A tracked dynamic alloca, with the code of `moveDynamicAllocasToUnsafeStack`. -/
def trackedAlloca (s : TwoStacks) (bytes align : Nat) : Option TwoStacks :=
  match s.frames with
  | [] => none
  | f :: rest =>
    if f.fn.DynamicAllocas then
      let NewTop := allocaTop StackAlignment s.pointer bytes align
      some <| run NewTop
        { f with
          DynamicTop := f.DynamicTop.map fun _ => NewTop
          live := ⟨NewTop, bytes, align⟩ :: f.live } rest
    else none

/-- A dynamic alloca that stays on the native stack. -/
def untrackedAlloca (s : TwoStacks) (bytes align : Nat) : Option TwoStacks :=
  match s.frames with
  | [] => none
  | f :: rest =>
    some <| run s.pointer
      { f with
        native := allocaTop 16 f.native bytes align
        untracked := (bytes, align) :: f.untracked } rest

/-- `stacksave`. -/
def stacksave (s : TwoStacks) : Option TwoStacks :=
  match s.frames with
  | [] => none
  | f :: rest =>
    some <| run s.pointer
      { f with saved := ⟨s.pointer, f.native, f.live, f.untracked⟩ :: f.saved } rest

/-- `stackrestore`, which in a function with tracked dynamic allocas is a store to the tracked stack
pointer, and elsewhere still restores the native one. It closes the scopes inside, too. -/
def stackrestore (s : TwoStacks) (i : Nat) : Option TwoStacks :=
  match s.frames with
  | [] => none
  | f :: rest =>
    f.saved[i]?.map fun scope =>
      let saved := f.saved.drop (i + 1)
      if f.fn.DynamicAllocas then
        ⟨scope.pointer, { f with saved, live := scope.live } :: rest, some scope, false⟩
      else
        ⟨s.pointer, { f with saved, native := scope.native, untracked := scope.untracked } :: rest,
          some scope, false⟩

/-- What the store behind a restore point stores. -/
def restoredTop (f : StackFrame) (undef : Nat) : Nat := f.DynamicTop.getD (f.StaticTop.getD undef)

/-- A restore point that returns for the first time. -/
def setjmp (s : TwoStacks) (first : Bool) (undef : Nat) : Option TwoStacks :=
  match s.frames with
  | [] => none
  | f :: rest =>
    if f.fn.StackRestorePoints then
      let f :=
        { f with
          StaticTop := if !f.fn.hasBasePointer && first then some s.pointer else f.StaticTop
          jumps := ⟨f.native, f.saved, f.untracked⟩ :: f.jumps }
      some (run (restoredTop f undef) f rest)
    else none

/-- A restore point that returns again. To jump back into a scope that has been left is undefined. -/
def longjmp (s : TwoStacks) (unwound i undef : Nat) : Option TwoStacks :=
  match s.frames.drop unwound with
  | [] => none
  | f :: rest =>
    f.jumps[i]?.bind fun buf =>
      if buf.saved <:+ f.saved then
        let f := { f with native := buf.native, saved := buf.saved, untracked := buf.untracked }
        some ⟨restoredTop f undef, f :: rest, none, true⟩
      else none

def step (s : TwoStacks) : TwoStackAction → Option TwoStacks
  | .call F native => some (s.call F native)
  | .ret => s.ret
  | .throw unwound => s.throw unwound
  | .trackedAlloca bytes align => s.trackedAlloca bytes align
  | .untrackedAlloca bytes align => s.untrackedAlloca bytes align
  | .stacksave => s.stacksave
  | .stackrestore i => s.stackrestore i
  | .setjmp first undef => s.setjmp first undef
  | .longjmp unwound i undef => s.longjmp unwound i undef

variable {s t : TwoStacks}

/-! What the steps do. -/

theorem ret_eq (h : s.ret = some t) : ∃ f rest, s.frames = f :: rest ∧
    t = ⟨if f.fn.hasBasePointer then f.BasePointer else s.pointer, rest, none, false⟩ := by
  unfold ret at h
  cases hframes : s.frames with
  | nil => simp [hframes] at h
  | cons f rest =>
    rw [hframes] at h
    exact ⟨f, rest, rfl, (Option.some.inj h).symm⟩

theorem throw_eq {unwound : Nat} (h : s.throw unwound = some t) : ∃ f rest,
    s.frames.drop unwound = f :: rest ∧ t = run s.pointer f rest := by
  unfold throw at h
  cases hframes : s.frames.drop unwound with
  | nil => simp [hframes] at h
  | cons f rest =>
    rw [hframes] at h
    exact ⟨f, rest, rfl, (Option.some.inj h).symm⟩

theorem trackedAlloca_eq {bytes align : Nat} (h : s.trackedAlloca bytes align = some t) :
    ∃ f rest, s.frames = f :: rest ∧ f.fn.DynamicAllocas = true ∧
      t = run (allocaTop StackAlignment s.pointer bytes align)
        { f with
          DynamicTop := f.DynamicTop.map fun _ => allocaTop StackAlignment s.pointer bytes align
          live := ⟨allocaTop StackAlignment s.pointer bytes align, bytes, align⟩ :: f.live }
        rest := by
  unfold trackedAlloca at h
  cases hframes : s.frames with
  | nil => simp [hframes] at h
  | cons f rest =>
    simp only [hframes, Option.ite_none_right_eq_some, Option.some.injEq] at h
    exact ⟨f, rest, rfl, h.1, h.2.symm⟩

theorem untrackedAlloca_eq {bytes align : Nat} (h : s.untrackedAlloca bytes align = some t) :
    ∃ f rest, s.frames = f :: rest ∧ t = run s.pointer
      { f with
        native := allocaTop 16 f.native bytes align
        untracked := (bytes, align) :: f.untracked } rest := by
  unfold untrackedAlloca at h
  cases hframes : s.frames with
  | nil => simp [hframes] at h
  | cons f rest =>
    rw [hframes] at h
    exact ⟨f, rest, rfl, (Option.some.inj h).symm⟩

theorem stacksave_eq (h : s.stacksave = some t) : ∃ f rest, s.frames = f :: rest ∧
    t = run s.pointer
      { f with saved := ⟨s.pointer, f.native, f.live, f.untracked⟩ :: f.saved } rest := by
  unfold stacksave at h
  cases hframes : s.frames with
  | nil => simp [hframes] at h
  | cons f rest =>
    rw [hframes] at h
    exact ⟨f, rest, rfl, (Option.some.inj h).symm⟩

/-- A scope is closed on the tracked stack, or on the native one. -/
theorem stackrestore_cases {i : Nat} (h : s.stackrestore i = some t) : ∃ f rest scope,
    s.frames = f :: rest ∧ f.saved[i]? = some scope ∧
      (f.fn.DynamicAllocas = true ∧ t = ⟨scope.pointer,
        { f with saved := f.saved.drop (i + 1), live := scope.live } :: rest, some scope, false⟩ ∨
      f.fn.DynamicAllocas = false ∧ t = ⟨s.pointer,
        { f with
          saved := f.saved.drop (i + 1)
          native := scope.native
          untracked := scope.untracked } :: rest, some scope, false⟩) := by
  unfold stackrestore at h
  cases hframes : s.frames with
  | nil => simp [hframes] at h
  | cons f rest =>
    rw [hframes] at h
    obtain ⟨scope, hscope, rfl⟩ := Option.map_eq_some_iff.mp h
    refine ⟨f, rest, scope, rfl, hscope, ?_⟩
    cases hdyn : f.fn.DynamicAllocas with
    | true => exact Or.inl ⟨rfl, rfl⟩
    | false => exact Or.inr ⟨rfl, rfl⟩

theorem setjmp_eq {first : Bool} {undef : Nat} (h : s.setjmp first undef = some t) :
    ∃ f rest, s.frames = f :: rest ∧ f.fn.StackRestorePoints = true ∧
      ∃ f', f' =
        { f with
          StaticTop := if !f.fn.hasBasePointer && first then some s.pointer else f.StaticTop
          jumps := ⟨f.native, f.saved, f.untracked⟩ :: f.jumps } ∧
        t = run (restoredTop f' undef) f' rest := by
  unfold setjmp at h
  cases hframes : s.frames with
  | nil => simp [hframes] at h
  | cons f rest =>
    simp only [hframes, Option.ite_none_right_eq_some, Option.some.injEq] at h
    exact ⟨f, rest, rfl, h.1, _, rfl, h.2.symm⟩

theorem longjmp_eq {unwound i undef : Nat} (h : s.longjmp unwound i undef = some t) :
    ∃ f rest buf, s.frames.drop unwound = f :: rest ∧ buf ∈ f.jumps ∧ buf.saved <:+ f.saved ∧
      t = ⟨restoredTop f undef,
        { f with native := buf.native, saved := buf.saved, untracked := buf.untracked } :: rest,
        none, true⟩ := by
  unfold longjmp at h
  cases hframes : s.frames.drop unwound with
  | nil => simp [hframes] at h
  | cons f rest =>
    rw [hframes] at h
    obtain ⟨buf, hbuf, h⟩ := Option.bind_eq_some_iff.mp h
    simp only [Option.ite_none_right_eq_some, Option.some.injEq] at h
    exact ⟨f, rest, buf, rfl, List.mem_of_getElem? hbuf, h.1, h.2.symm⟩

/-- After the first restore point the static top is loaded, with a base pointer from the start. -/
theorem staticTop_loaded {f : StackFrame} {first : Bool} {pointer : Nat}
    (hbase : f.fn.hasBasePointer = true → f.StaticTop ≠ none)
    (hfirst : first = true ∨ f.StaticTop ≠ none) :
    (if !f.fn.hasBasePointer && first then some pointer else f.StaticTop) ≠ none := by
  split
  · exact Option.some_ne_none pointer
  · rename_i hno
    rcases hfirst with rfl | hstatic
    · exact hbase (by simpa using hno)
    · exact hstatic

/-! The tracked stack alone. -/

/-- The activation has the tracked part of the frame, and can go back to its open scopes. -/
structure Tracks (f : StackFrame) (g : Activation) : Prop where
  fn : g.fn = f.fn
  BasePointer : g.BasePointer = f.BasePointer
  StaticTop : g.StaticTop = f.StaticTop
  DynamicTop : g.DynamicTop = f.DynamicTop
  liveDynamic : g.liveDynamic = f.live.length
  saved : f.fn.DynamicAllocas = true →
    ∀ scope ∈ f.saved, (scope.pointer, scope.live.length) ∈ g.saved

/-- The same pointer, and the tracked parts of the activations. -/
structure Matches (s : TwoStacks) (t : TrackedStack) : Prop where
  pointer : t.pointer = s.pointer
  frames : List.Forall₂ Tracks s.frames t.activations

/-- The tracked stack alone does not account for a restore point that returns again. -/
def Tracked : TwoStackAction → Prop
  | .longjmp _ _ _ => False
  | _ => True

variable {s s' : TwoStacks} {t : TrackedStack}

theorem call_matches {F : TrackedFunction} {native : Nat} (h : s.Matches t) :
    (s.call F native).Matches (t.call F) := by
  obtain ⟨pointer, frames, restored, landed⟩ := s
  obtain ⟨pointer', activations, completed⟩ := t
  obtain ⟨rfl, hframes⟩ := h
  refine ⟨rfl, .cons ⟨rfl, rfl, rfl, rfl, rfl, fun _ => by simp [enter]⟩ ?_⟩
  cases hframes with
  | nil => exact .nil
  | cons hf hrest =>
    have hwaits := hf.saved
    exact .cons ⟨hf.fn, hf.BasePointer, hf.StaticTop, hf.DynamicTop, hf.liveDynamic, hwaits⟩ hrest

theorem Matches.running {f : StackFrame} {rest : List StackFrame} (h : s.Matches t)
    (hframes : s.frames = f :: rest) : ∃ g rest', t.activations = g :: rest' ∧ Tracks f g ∧
      List.Forall₂ Tracks rest rest' := by
  have hall := h.frames
  rw [hframes] at hall
  obtain ⟨g, rest', hf, hrest, hactivations⟩ := List.forall₂_cons_left_iff.mp hall
  exact ⟨g, rest', hactivations, hf, hrest⟩

theorem ret_matches (h : s.Matches t) (hs : s.ret = some s') :
    ∃ t', t.ret = some t' ∧ s'.Matches t' := by
  obtain ⟨f, rest, hframes, rfl⟩ := ret_eq hs
  obtain ⟨g, rest', hactivations, hf, hrest⟩ := h.running hframes
  refine ⟨_, by rw [TrackedStack.ret, hactivations], ?_, hrest⟩
  simp only [hf.fn, hf.BasePointer, h.pointer]

theorem throw_matches {unwound : Nat} (h : s.Matches t) (hs : s.throw unwound = some s') :
    ∃ t', t.throw unwound = some t' ∧ s'.Matches t' := by
  obtain ⟨f, rest, hframes, rfl⟩ := throw_eq hs
  have hdrop := List.forall₂_drop unwound h.frames
  rw [hframes] at hdrop
  obtain ⟨g, rest', hf, hrest, hactivations⟩ := List.forall₂_cons_left_iff.mp hdrop
  refine ⟨⟨t.pointer, g :: rest', some (if unwound = 0 then t.pointer else g.atCall)⟩, ?_,
    h.pointer, .cons hf hrest⟩
  rw [TrackedStack.throw, hactivations]

theorem trackedAlloca_matches {bytes align : Nat} (h : s.Matches t)
    (hs : s.trackedAlloca bytes align = some s') :
    ∃ t', t.dynamicAlloca bytes align = some t' ∧ s'.Matches t' := by
  obtain ⟨f, rest, hframes, hdyn, rfl⟩ := trackedAlloca_eq hs
  obtain ⟨g, rest', hactivations, hf, hrest⟩ := h.running hframes
  have hg : g.fn.DynamicAllocas = true := hf.fn ▸ hdyn
  refine ⟨_, by simp only [TrackedStack.dynamicAlloca, hactivations, if_pos hg]; rfl, ?_, ?_⟩
  · simp only [run, allocaTop, h.pointer]
  · refine .cons ⟨hf.fn, hf.BasePointer, hf.StaticTop, ?_, ?_, hf.saved⟩ hrest
    · simp only [hf.DynamicTop, allocaTop, h.pointer]
    · simp only [hf.liveDynamic, List.length_cons]

/-- What stays on the native stack is no step of the tracked one. -/
theorem untrackedAlloca_matches {bytes align : Nat} (h : s.Matches t)
    (hs : s.untrackedAlloca bytes align = some s') : s'.Matches t := by
  obtain ⟨f, rest, hframes, rfl⟩ := untrackedAlloca_eq hs
  obtain ⟨g, rest', hactivations, hf, hrest⟩ := h.running hframes
  refine ⟨h.pointer, ?_⟩
  rw [hactivations]
  exact .cons ⟨hf.fn, hf.BasePointer, hf.StaticTop, hf.DynamicTop, hf.liveDynamic, hf.saved⟩ hrest

theorem stacksave_matches (h : s.Matches t) (hs : s.stacksave = some s') :
    ∃ t', t.stacksave = some t' ∧ s'.Matches t' := by
  obtain ⟨f, rest, hframes, rfl⟩ := stacksave_eq hs
  obtain ⟨g, rest', hactivations, hf, hrest⟩ := h.running hframes
  by_cases hdyn : g.fn.DynamicAllocas = true
  · refine ⟨⟨t.pointer,
        { g with saved := g.saved ++ [(t.pointer, g.liveDynamic)] } :: rest', none⟩,
      by simp only [TrackedStack.stacksave, hactivations, if_pos hdyn], h.pointer, ?_⟩
    refine .cons ⟨hf.fn, hf.BasePointer, hf.StaticTop, hf.DynamicTop, hf.liveDynamic, ?_⟩ hrest
    intro hdyn' scope hscope
    rcases List.mem_cons.mp hscope with rfl | hscope
    · simp [h.pointer, hf.liveDynamic]
    · exact List.mem_append_left _ (hf.saved hdyn' scope hscope)
  · refine ⟨⟨t.pointer, g :: rest', none⟩,
      by simp only [TrackedStack.stacksave, hactivations, if_neg hdyn], h.pointer, ?_⟩
    refine .cons ⟨hf.fn, hf.BasePointer, hf.StaticTop, hf.DynamicTop, hf.liveDynamic, ?_⟩ hrest
    exact fun hdyn' => (hdyn (hf.fn ▸ hdyn')).elim

theorem stackrestore_matches {i : Nat} (h : s.Matches t) (hs : s.stackrestore i = some s') :
    ∃ j t', t.stackrestore j = some t' ∧ s'.Matches t' := by
  obtain ⟨f, rest, scope, hframes, hscope, ⟨hdyn, rfl⟩ | ⟨hdyn, rfl⟩⟩ := stackrestore_cases hs
  · obtain ⟨g, rest', hactivations, hf, hrest⟩ := h.running hframes
    have hg : g.fn.DynamicAllocas = true := hf.fn ▸ hdyn
    obtain ⟨j, hj⟩ := List.mem_iff_getElem?.mp (hf.saved hdyn scope (List.mem_of_getElem? hscope))
    refine ⟨j, _, by simp only [TrackedStack.stackrestore, hactivations, if_pos hg, hj]; rfl,
      rfl, ?_⟩
    refine .cons ⟨hf.fn, hf.BasePointer, hf.StaticTop, hf.DynamicTop, rfl, ?_⟩ hrest
    exact fun hdyn' scope' h' => hf.saved hdyn' scope' (List.drop_subset _ _ h')
  · obtain ⟨g, rest', hactivations, hf, hrest⟩ := h.running hframes
    have hg : ¬ g.fn.DynamicAllocas = true := by simp [hf.fn, hdyn]
    refine ⟨0, ⟨t.pointer, g :: rest', none⟩,
      by simp only [TrackedStack.stackrestore, hactivations, if_neg hg], h.pointer, ?_⟩
    refine .cons ⟨hf.fn, hf.BasePointer, hf.StaticTop, hf.DynamicTop, hf.liveDynamic, ?_⟩ hrest
    exact fun hdyn' => (hg (hf.fn ▸ hdyn')).elim

theorem setjmp_matches {first : Bool} {undef : Nat} (h : s.Matches t)
    (hs : s.setjmp first undef = some s') :
    ∃ t', t.setjmp first undef = some t' ∧ s'.Matches t' := by
  obtain ⟨f, rest, hframes, hpoints, f', rfl, rfl⟩ := setjmp_eq hs
  obtain ⟨g, rest', hactivations, hf, hrest⟩ := h.running hframes
  have hg : g.fn.StackRestorePoints = true := hf.fn ▸ hpoints
  have hslot : (if !g.fn.hasBasePointer && first then some t.pointer else g.StaticTop) =
      if !f.fn.hasBasePointer && first then some s.pointer else f.StaticTop := by
    rw [hf.fn, hf.StaticTop, h.pointer]
  refine ⟨_, by simp only [TrackedStack.setjmp, hactivations, if_pos hg]; rfl, ?_, ?_⟩
  · simp only [run, restoredTop, hslot, hf.DynamicTop]
  · refine .cons ⟨hf.fn, hf.BasePointer, hslot, hf.DynamicTop, hf.liveDynamic, hf.saved⟩ hrest

/-- A step is one of the tracked stack, or none. -/
theorem step_matches {a : TwoStackAction} (h : s.Matches t) (hok : Tracked a)
    (hs : s.step a = some s') :
    s'.Matches t ∨ ∃ b t', t.step b = some t' ∧ s'.Matches t' := by
  cases a with
  | call F native =>
    cases hs
    exact Or.inr ⟨.call F, _, rfl, call_matches h⟩
  | ret => exact Or.inr ⟨.ret, ret_matches h hs⟩
  | throw unwound => exact Or.inr ⟨.throw unwound, throw_matches h hs⟩
  | trackedAlloca bytes align =>
    exact Or.inr ⟨.dynamicAlloca bytes align, trackedAlloca_matches h hs⟩
  | untrackedAlloca bytes align => exact Or.inl (untrackedAlloca_matches h hs)
  | stacksave => exact Or.inr ⟨.stacksave, stacksave_matches h hs⟩
  | stackrestore i =>
    obtain ⟨j, ht⟩ := stackrestore_matches h hs
    exact Or.inr ⟨.stackrestore j, ht⟩
  | setjmp first undef => exact Or.inr ⟨.setjmp first undef, setjmp_matches h hs⟩
  | longjmp unwound i undef => exact hok.elim

/-- A run of both stacks is a run of the tracked one, with the same pointer and objects as large. -/
theorem exec_matches {pointer : Nat} {as : List TwoStackAction}
    (hok : ∀ a ∈ as, Tracked a) (hs : Runs.exec step (init pointer) as = some s) :
    ∃ bs t, Runs.exec TrackedStack.step (TrackedStack.init pointer) bs = some t ∧ s.Matches t := by
  have hinit : (init pointer).Matches (TrackedStack.init pointer) := ⟨rfl, .nil⟩
  have hguard : Runs.Guarded step (fun _ => Tracked) (init pointer) as :=
    fun _ a _ hfront _ => hok a (hfront.subset (by simp))
  apply Runs.exec_simulates hinit _ hguard hs
  intro u t a u' h hok hu
  rcases step_matches h hok hu with hstays | ⟨b, t', hb, hmoves⟩
  · exact ⟨[], t, rfl, hstays⟩
  · exact ⟨[b], t', by simpa using hb, hmoves⟩

end TwoStacks

end TypeSan
