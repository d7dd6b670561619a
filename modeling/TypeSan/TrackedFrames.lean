import Mathlib.Data.List.Forall2
import TypeSan.StackInstrumentation

/-! The frames of the functions that the stack instrumentation has been through: what MetaStack finds
in a function, and the updates of the objects that it lays out. -/
namespace TypeSan

namespace AllocaInst

variable (AI : AllocaInst)

def isConstant : Bool :=
  match AI.ArraySize with
  | .constant _ => true
  | _ => false

/-- 0 where the size is not known. -/
def getStaticAllocaAllocationSize : Nat :=
  match AI.ArraySize with
  | .constant C => AI.AllocatedType.allocSize * C % 2 ^ 64
  | _ => 0

/-- A number of elements that a run may find in the array size. -/
def HasArraySize (arraySize : Nat) : Prop := ∀ C, AI.ArraySize = .constant C → arraySize = C

end AllocaInst

/-- The values that an instruction uses. -/
def FrameInst.operands : FrameInst → List FrameValue
  | .alloca AI => [AI.ArraySize]
  | .update u => [u.ptrValue, u.arraySize]
  | .pointerCast _ V => [V]
  | .memcpy Dst Src _ => [Dst, Src]
  | .call _ _ operands => operands
  | .other _ _ operands => operands

namespace FunctionCode

variable (F : FunctionCode)

/-- The tracked allocas of the entry block with a constant size. -/
def staticAllocas : List AllocaInst :=
  (F.entry.filterMap FrameInst.alloca?).filter fun AI => AI.TrackedAlloca && AI.isConstant

/-- The other tracked allocas. -/
def dynamicAllocas : List AllocaInst :=
  (F.entry.filterMap FrameInst.alloca?).filter (fun AI => AI.TrackedAlloca && !AI.isConstant) ++
    (F.blocks.flatten.filterMap FrameInst.alloca?).filter AllocaInst.TrackedAlloca

def hasRestorePoints : Bool :=
  F.insts.any fun I =>
    match I with
    | .call _ canReturnTwice _ => canReturnTwice
    | _ => false

/-- `MetaStack::findInsts` -/
def findInsts : TrackedFunction where
  StaticAllocas := F.staticAllocas.map fun AI => (AI.getStaticAllocaAllocationSize, AI.align)
  DynamicAllocas := F.dynamicAllocas ≠ []
  StackRestorePoints := F.hasRestorePoints

end FunctionCode

/-- The arguments that the update gets in a run with so many elements. -/
def StackUpdate.run (u : StackUpdate) (arraySize : Nat) : MetallocUpdate :=
  ⟨u.allocationType, u.alignment, u.count, arraySize * u.allocationType.allocSize % 2 ^ 64⟩

/-- The update of an alloca, as it runs. -/
theorem run_update {AI : AllocaInst} {arraySize : Nat} (h : AI.HasArraySize arraySize)
    (allocName : String) :
    (AI.update allocName).run arraySize =
      allocaUpdate AI.AllocatedType AI.isConstant arraySize := by
  cases hsize : AI.ArraySize with
  | constant C =>
    obtain rfl := h C hsize
    simp [StackUpdate.run, AllocaInst.update, allocaUpdate, AllocaInst.isConstant, hsize]
  | argument i =>
    simp [StackUpdate.run, AllocaInst.update, allocaUpdate, AllocaInst.isConstant, hsize]
  | result id =>
    simp [StackUpdate.run, AllocaInst.update, allocaUpdate, AllocaInst.isConstant, hsize]

/-- Right behind the alloca there is an update of its object. -/
def FunctionCode.UpdatedBehind (F : FunctionCode) (AI : AllocaInst) : Prop :=
  ∃ b ∈ F.entry :: F.blocks, ∃ before after u, b = before ++ .alloca AI :: .update u :: after ∧
    u.ptrValue = .result AI.id ∧ ∀ arraySize, AI.HasArraySize arraySize →
      u.run arraySize = allocaUpdate AI.AllocatedType AI.isConstant arraySize

/-- The object is that of the static alloca, which has its update behind it. -/
def FunctionCode.ObjectOf (F : FunctionCode) (AI : AllocaInst) (o : StackObject) : Prop :=
  F.UpdatedBehind AI ∧
    ∃ C, AI.ArraySize = .constant C ∧ o.IsOf AI.AllocatedType true C ∧ o.align = AI.align

namespace FunctionCode

variable {F : FunctionCode} {AI : AllocaInst}

theorem insts_eq (F : FunctionCode) : F.insts = (F.entry :: F.blocks).flatten := rfl

/-- What an alloca of the instrumented function was before. -/
theorem alloca_of_mem_expand {I : FrameInst} (h : .alloca AI ∈ expandAlloca F.nameOf I) :
    ∃ AI', I = .alloca AI' ∧ ((AI = AI' ∧ interestingType AI'.AllocatedType = false) ∨
      (AI = { AI' with TrackedAlloca := true } ∧ ∃ name,
        expandAlloca F.nameOf I = [.alloca AI, .update (AI.update name)])) := by
  cases halloca : I.alloca? with
  | none =>
    rw [expandAlloca_of_none halloca, List.mem_singleton] at h
    subst h
    cases halloca
  | some AI' =>
    obtain rfl := alloca?_eq_some.mp halloca
    refine ⟨AI', rfl, ?_⟩
    by_cases htype : interestingType AI'.AllocatedType
    · simp only [expandAlloca, nameOf, htype, if_true, AllocaInst.track, List.mem_cons,
        FrameInst.alloca.injEq, reduceCtorEq, List.not_mem_nil, or_false] at h
      subst h
      right
      refine ⟨rfl, allocName F.name ((F.trackedAllocas.map AllocaInst.id).idxOf AI'.id), ?_⟩
      simp only [expandAlloca, nameOf, htype, if_true]
      rfl
    · simp only [expandAlloca, nameOf, htype, Bool.false_eq_true, if_false, List.mem_singleton,
        FrameInst.alloca.injEq] at h
      exact Or.inl ⟨h, by simpa using htype⟩

/-- Where no alloca was tracked before, a tracked one has its update behind it. -/
theorem updatedBehind_of_tracked (hF : ∀ AI ∈ F.allocas, AI.TrackedAlloca = false)
    (h : AI ∈ F.tracked.allocas) (htracked : AI.TrackedAlloca = true) :
    F.tracked.UpdatedBehind AI := by
  have hmem := mem_allocas.mp h
  rw [insts_eq] at hmem
  obtain ⟨b', hb', hAI⟩ := List.mem_flatten.mp hmem
  obtain ⟨b, hb, rfl⟩ := List.mem_map.mp
    (show b' ∈ (F.entry :: F.blocks).map (·.flatMap (expandAlloca F.nameOf)) from hb')
  obtain ⟨I, hI, hAI⟩ := List.mem_flatMap.mp hAI
  obtain ⟨AI', rfl, ⟨rfl, -⟩ | ⟨heq, name, hexpand⟩⟩ := alloca_of_mem_expand hAI
  · have hbefore := hF AI (mem_allocas.mpr (List.mem_flatten_of_mem hb hI))
    rw [htracked] at hbefore
    cases hbefore
  · obtain ⟨before, after, rfl⟩ := List.append_of_mem hI
    refine ⟨_, hb', before.flatMap (expandAlloca F.nameOf),
      after.flatMap (expandAlloca F.nameOf), AI.update name, ?_, rfl,
      fun arraySize hsize => run_update hsize name⟩
    rw [List.flatMap_append, List.flatMap_cons, hexpand]
    rfl

/-- One that is not tracked has no type that the pass is interested in. -/
theorem not_interesting_of_not_tracked (h : AI ∈ F.tracked.allocas)
    (hnot : AI.TrackedAlloca = false) : interestingType AI.AllocatedType = false := by
  have hmem := mem_allocas.mp h
  rw [insts_tracked] at hmem
  obtain ⟨I, hI, hAI⟩ := List.mem_flatMap.mp hmem
  obtain ⟨AI', rfl, ⟨rfl, htype⟩ | ⟨rfl, -⟩⟩ := alloca_of_mem_expand hAI
  · exact htype
  · cases hnot

theorem mem_staticAllocas : AI ∈ F.staticAllocas →
    AI ∈ F.allocas ∧ AI.TrackedAlloca = true ∧ ∃ C, AI.ArraySize = .constant C := by
  intro h
  obtain ⟨hAI, hflags⟩ := List.mem_filter.mp h
  obtain ⟨htracked, hconstant⟩ := Bool.and_eq_true_iff.mp hflags
  refine ⟨?_, htracked, ?_⟩
  · rw [allocas, insts, List.filterMap_append]
    exact List.mem_append_left _ hAI
  · cases hsize : AI.ArraySize with
    | constant C => exact ⟨C, rfl⟩
    | argument i => simp [AllocaInst.isConstant, hsize] at hconstant
    | result id => simp [AllocaInst.isConstant, hsize] at hconstant

theorem mem_dynamicAllocas (h : AI ∈ F.dynamicAllocas) :
    AI ∈ F.allocas ∧ AI.TrackedAlloca = true := by
  rw [allocas, insts, List.filterMap_append]
  rcases List.mem_append.mp h with h | h
  · obtain ⟨hAI, hflags⟩ := List.mem_filter.mp h
    exact ⟨List.mem_append_left _ hAI, (Bool.and_eq_true_iff.mp hflags).1⟩
  · obtain ⟨hAI, htracked⟩ := List.mem_filter.mp h
    exact ⟨List.mem_append_right _ hAI, htracked⟩

/-- A function without tracked allocas leaves the stack pointer alone. -/
theorem hasBasePointer_of_untracked (h : ∀ AI ∈ F.allocas, AI.TrackedAlloca = false) :
    F.findInsts.hasBasePointer = false := by
  have hstatic : F.staticAllocas = [] := by
    refine List.eq_nil_iff_forall_not_mem.mpr fun AI hAI => ?_
    obtain ⟨hmem, htracked, -⟩ := mem_staticAllocas hAI
    simp [h AI hmem] at htracked
  have hdynamic : F.dynamicAllocas = [] := by
    refine List.eq_nil_iff_forall_not_mem.mpr fun AI hAI => ?_
    obtain ⟨hmem, htracked⟩ := mem_dynamicAllocas hAI
    simp [h AI hmem] at htracked
  simp [TrackedFunction.hasBasePointer, findInsts, hstatic, hdynamic]

end FunctionCode

/-! The arguments that are copied. -/

theorem operands_mapUses (change : FrameValue → FrameValue) (I : FrameInst) :
    (I.mapUses change).operands = I.operands.map change := by
  cases I <;> rfl

/-- No value stands for an argument that is copied. -/
theorem copied_ne_argument {copies : List ArgumentCopy} {copy : ArgumentCopy} (h : copy ∈ copies)
    (V : FrameValue) : FrameValue.copied copies V ≠ .argument copy.arg := by
  cases V with
  | argument i =>
    simp only [FrameValue.copied]
    split
    · simp
    · rename_i hnone
      have hne := List.find?_eq_none.mp hnone copy h
      simpa [eq_comm] using hne
  | result id => simp [FrameValue.copied]
  | constant value => simp [FrameValue.copied]

theorem nodup_copiesOf {args : List (Argument × Nat)} (h : (args.map Prod.snd).Nodup)
    (nextId : Nat) : ((copiesOf nextId args).map ArgumentCopy.arg).Nodup := by
  induction args generalizing nextId with
  | nil => simp [copiesOf]
  | cons Arg rest ih =>
    obtain ⟨hArg, hrest⟩ := List.nodup_cons.mp h
    rw [copiesOf]
    split
    · refine List.nodup_cons.mpr ⟨fun hmem => ?_, ih hrest _⟩
      obtain ⟨copy, hcopy, heq⟩ := List.mem_map.mp hmem
      have harg := arg_of_mem_copiesOf hcopy
      rw [heq] at harg
      exact hArg harg
    · exact ih hrest _

/-- Only the copy is made from the argument. -/
theorem FunctionCode.argument_withCopies {getPrefTypeAlignment : Ty → Nat} {F : FunctionCode}
    {copy : ArgumentCopy} (hcopy : copy ∈ F.copies) {I : FrameInst}
    (hI : I ∈ (F.withCopies getPrefTypeAlignment F.copies).insts)
    (harg : .argument copy.arg ∈ I.operands) :
    I = .pointerCast (copy.alloca + 1) (.argument copy.arg) := by
  rw [insts_withCopies] at hI
  rcases List.mem_append.mp hI with hI | hI
  · obtain ⟨copy', hcopy', hI⟩ := List.mem_flatMap.mp hI
    simp only [copyCode, List.mem_cons, List.not_mem_nil, or_false] at hI
    rcases hI with rfl | rfl | rfl | rfl
    · simp [FrameInst.operands] at harg
    · have hargs : ((copiesOf F.nextId F.args.zipIdx).map ArgumentCopy.arg).Nodup := by
        refine nodup_copiesOf ?_ F.nextId
        rw [List.zipIdx_map_snd]
        exact List.nodup_range'
      have heq : copy.arg = copy'.arg := by simpa [FrameInst.operands] using harg
      obtain rfl := List.inj_on_of_nodup_map hargs hcopy (List.mem_reverse.mp hcopy') heq
      rfl
    · simp [FrameInst.operands] at harg
    · simp [FrameInst.operands] at harg
  · obtain ⟨I', -, rfl⟩ := List.mem_map.mp hI
    rw [operands_mapUses] at harg
    obtain ⟨V, -, hV⟩ := List.mem_map.mp harg
    exact absurd hV (copied_ne_argument hcopy V)

/-- An instruction of the tracked function uses what one uses from which it comes. -/
theorem FunctionCode.operands_tracked {F : FunctionCode} {I : FrameInst} (hI : I ∈ F.tracked.insts)
    {i : Nat} (harg : .argument i ∈ I.operands) :
    ∃ I' ∈ F.insts, .argument i ∈ I'.operands ∧ (I = I' ∨ ∃ AI, I' = .alloca AI) := by
  rw [insts_tracked] at hI
  obtain ⟨I', hI', hI⟩ := List.mem_flatMap.mp hI
  cases halloca : I'.alloca? with
  | none =>
    rw [expandAlloca_of_none halloca, List.mem_singleton] at hI
    exact ⟨I', hI', hI ▸ harg, Or.inl hI⟩
  | some AI =>
    obtain rfl := alloca?_eq_some.mp halloca
    refine ⟨.alloca AI, hI', ?_, Or.inr ⟨AI, rfl⟩⟩
    simp only [expandAlloca] at hI
    split at hI
    · simp only [AllocaInst.track, List.mem_cons, List.not_mem_nil, or_false] at hI
      rcases hI with rfl | rfl
      · exact harg
      · simpa [FrameInst.operands, AllocaInst.update] using harg
    · rw [List.mem_singleton.mp hI] at harg
      exact harg

/-! The frames. -/

namespace SourceFunction

variable {getPrefTypeAlignment : Ty → Nat} {F : SourceFunction}

theorem argument_instrumented {copy : ArgumentCopy} (hcopy : copy ∈ F.copies) {I : FrameInst}
    (hI : I ∈ (F.instrumented getPrefTypeAlignment).insts)
    (harg : .argument copy.arg ∈ I.operands) :
    I = .pointerCast (copy.alloca + 1) (.argument copy.arg) := by
  obtain ⟨I', hI', harg', hsame⟩ := FunctionCode.operands_tracked hI harg
  have heq := FunctionCode.argument_withCopies hcopy hI' harg'
  rcases hsame with rfl | ⟨AI, rfl⟩
  · exact heq
  · cases heq

theorem untracked_withCopies :
    ∀ AI ∈ (F.withCopies getPrefTypeAlignment F.copies).allocas, AI.TrackedAlloca = false := by
  intro AI hAI
  rw [FunctionCode.allocas_withCopies] at hAI
  rcases List.mem_append.mp hAI with hAI | hAI
  · obtain ⟨copy, -, rfl⟩ := List.mem_map.mp hAI
    rfl
  · obtain ⟨AI', hAI', rfl⟩ := List.mem_map.mp hAI
    exact F.untracked AI' hAI'

/-- A tracked alloca has its update behind it. -/
theorem updatedBehind {AI : AllocaInst} (h : AI ∈ (F.instrumented getPrefTypeAlignment).allocas)
    (htracked : AI.TrackedAlloca = true) :
    (F.instrumented getPrefTypeAlignment).UpdatedBehind AI :=
  FunctionCode.updatedBehind_of_tracked untracked_withCopies h htracked

/-- The objects that MetaStack lays out are those of the static tracked allocas. -/
theorem staticObjects_instrumented (BasePointer : Nat)
    (hfits : ∀ AI ∈ (F.instrumented getPrefTypeAlignment).allocas,
      ∀ C, AI.ArraySize = .constant C → C * AI.AllocatedType.allocSize < 2 ^ 64) :
    List.Forall₂ (F.instrumented getPrefTypeAlignment).ObjectOf
      (F.instrumented getPrefTypeAlignment).staticAllocas
      ((F.instrumented getPrefTypeAlignment).findInsts.staticObjects BasePointer) := by
  have hlaid := List.forall₂_map_left_iff.mp (TrackedFunction.forall₂_layoutAllocas
    ((F.instrumented getPrefTypeAlignment).findInsts.alignedBase BasePointer) 0
    ((F.instrumented getPrefTypeAlignment).staticAllocas.map fun AI =>
      (AI.getStaticAllocaAllocationSize, AI.align)))
  have hmem (AI : AllocaInst) (h : AI ∈ (F.instrumented getPrefTypeAlignment).staticAllocas) :=
    FunctionCode.mem_staticAllocas h
  refine ((List.forall₂_and_left _ _).mpr ⟨hmem, hlaid⟩).imp ?_
  rintro AI o ⟨⟨hAI, htracked, C, hC⟩, hsize, halign⟩
  refine ⟨updatedBehind hAI htracked, C, hC, Or.inr ?_, halign⟩
  rw [hsize]
  simp only [AllocaInst.getStaticAllocaAllocationSize, hC]
  rw [Nat.mul_comm, Nat.mod_eq_of_lt (hfits AI hAI C hC)]

/-- A dynamic alloca takes the bytes that its update gets. -/
theorem isOf_dynamic {AI : AllocaInst} {arraySize : Nat} (hsize : AI.HasArraySize arraySize)
    (hfits : ∀ C, AI.ArraySize = .constant C → C * AI.AllocatedType.allocSize < 2 ^ 64)
    (start : Nat) :
    (StackObject.mk start (arraySize * AI.AllocatedType.allocSize % 2 ^ 64) AI.align).IsOf
      AI.AllocatedType AI.isConstant arraySize := by
  cases harray : AI.ArraySize with
  | constant C =>
    obtain rfl := hsize C harray
    simp only [StackObject.IsOf, AllocaInst.isConstant, harray, if_true]
    exact Or.inl (Nat.mod_eq_of_lt (hfits arraySize harray))
  | argument i => simp [StackObject.IsOf, AllocaInst.isConstant, harray]
  | result id => simp [StackObject.IsOf, AllocaInst.isConstant, harray]

/-- MetaStack lays out the objects of the static tracked allocas, and those that the dynamic ones
take are theirs too. All tracked allocas have their updates behind them, and where the program used
an argument that is copied, it uses the copy. -/
structure Framed (F : SourceFunction) (F' : FunctionCode) : Prop where
  statics : ∀ BasePointer,
    List.Forall₂ F'.ObjectOf F'.staticAllocas (F'.findInsts.staticObjects BasePointer)
  dynamics : ∀ AI ∈ F'.dynamicAllocas, F'.UpdatedBehind AI ∧
    ∀ arraySize start, AI.HasArraySize arraySize →
      (StackObject.mk start (arraySize * AI.AllocatedType.allocSize % 2 ^ 64) AI.align).IsOf
        AI.AllocatedType AI.isConstant arraySize
  untracked : ∀ AI ∈ F'.allocas, AI.TrackedAlloca = false →
    interestingType AI.AllocatedType = false
  copies : ∀ copy ∈ F.copies, ∀ I ∈ F'.insts, .argument copy.arg ∈ I.operands →
    I = .pointerCast (copy.alloca + 1) (.argument copy.arg)

/-- No alloca has more bytes than a word can count, as far as its size is known. -/
def Fits (getPrefTypeAlignment : Ty → Nat) (F : SourceFunction) : Prop :=
  ∀ AI ∈ (F.instrumented getPrefTypeAlignment).allocas,
    ∀ C, AI.ArraySize = .constant C → C * AI.AllocatedType.allocSize < 2 ^ 64

theorem framed (hfits : F.Fits getPrefTypeAlignment) :
    F.Framed (F.instrumented getPrefTypeAlignment) where
  statics BasePointer := staticObjects_instrumented BasePointer hfits
  dynamics AI hAI := by
    obtain ⟨hmem, htracked⟩ := FunctionCode.mem_dynamicAllocas hAI
    exact ⟨updatedBehind hmem htracked,
      fun arraySize start hsize => isOf_dynamic hsize (hfits AI hmem) start⟩
  untracked AI hAI hnot := FunctionCode.not_interesting_of_not_tracked hAI hnot
  copies copy hcopy I hI harg := argument_instrumented hcopy hI harg

end SourceFunction

/-- What the one pass leaves for the other: in each function that reaches a cast, the objects on the
tracked stack are those of allocas with an update behind them, and others may have none there. -/
theorem frames_of_instrumentStacks {Fn : Type} [DecidableEq Fn] [Fintype Fn] (CG : CallGraph Fn)
    (junk : Search Fn → Fn → Bool) (disableStackOpt : Bool) (getPrefTypeAlignment : Ty → Nat)
    (code : Fn → SourceFunction) {order : List Fn} (horder : order.Nodup)
    (hfits : ∀ F, (code F).Fits getPrefTypeAlignment) :
    ∃ st, CG.instrumentStacks getPrefTypeAlignment junk disableStackOpt order
        (fun F => (code F).toFunctionCode) = some st ∧
      ∀ F ∈ order, (code F).Framed (st.code F) ∨
        ((st.code F).findInsts.hasBasePointer = false ∧ (CG.Queried F → ¬ CG.ReachesCast F)) := by
  obtain ⟨st, hst, hinv⟩ :=
    instrumentStacks_inv junk disableStackOpt CG getPrefTypeAlignment code horder
  refine ⟨st, hst, fun F hF => ?_⟩
  rcases hinv.outcome F hF with hcode | ⟨hcode, hskip⟩
  · rw [hcode]
    exact Or.inl (SourceFunction.framed (hfits F))
  · rw [hcode]
    exact Or.inr ⟨FunctionCode.hasBasePointer_of_untracked (code F).untracked, hskip⟩

open OneCopy in
theorem frames_of_instrumentStacks_of_copy :
    ∃ st, callGraph.instrumentStacks (fun _ => 8) (fun _ _ => true) false [()]
        (fun _ => function.toFunctionCode) = some st ∧ function.Framed (st.code ()) := by
  have hfits : function.Fits fun _ => 8 := by
    have hallocas : (function.instrumented fun _ => 8).allocas =
        [⟨3, A.ty, .constant 1, 8, true⟩, ⟨0, A.ty, .constant 2, 8, true⟩] := by
      rfl
    intro AI hAI C hC
    rw [hallocas] at hAI
    rcases List.mem_pair.mp hAI with rfl | rfl
    · cases hC
      decide
    · cases hC
      decide
  obtain ⟨st, hst, hframes⟩ := frames_of_instrumentStacks callGraph (fun _ _ => true) false
    (fun _ => 8) (fun _ => function) (List.nodup_singleton ()) fun _ => hfits
  refine ⟨st, hst, ?_⟩
  rcases hframes () (List.mem_singleton_self ()) with hframed | ⟨-, hnot⟩
  · exact hframed
  · exact absurd reachesCast (hnot queried)

end TypeSan
