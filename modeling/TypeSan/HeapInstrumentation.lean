import Mathlib.Algebra.BigOperators.Group.List.Basic
import Mathlib.Data.List.Flatten
import Mathlib.Data.List.Nodup
import TypeSan.AllocationCalls

/-! The metadata updates that are inserted behind the heap allocations of a module. -/
namespace TypeSan

/-- The arguments of `insertUpdateMetalloc` for a heap object. -/
structure HeapUpdate where
  ptrValue : Nat
  allocationType : Ty
  alignment : Nat
  count : Nat
  size : SizeValue
  allocName : String

/-- An instruction of the module, or the code of an update that was inserted. -/
inductive Instruction
  | call (call : CallInst)
  | update (u : HeapUpdate)
  | other (opcode : Nat)

def Instruction.call? : Instruction → Option CallInst
  | .call c => some c
  | _ => none

def Instruction.isUpdate : Instruction → Bool
  | .update _ => true
  | _ => false

/-- A function of the module: its basic blocks by their addresses. -/
structure DefinedFunction where
  name : String
  blocks : List Nat

/-- The calls in these basic blocks. -/
def callsOf (contents : Nat → List Instruction) (blocks : List Nat) : List CallInst :=
  (blocks.flatMap contents).filterMap Instruction.call?

/-- A module before the pass, with the instructions of its basic blocks up to their terminators. -/
structure IRModule where
  functions : List DefinedFunction
  contents : Nat → List Instruction
  blocks_nodup : (functions.flatMap DefinedFunction.blocks).Nodup
  parent : ∀ BB ∈ functions.flatMap DefinedFunction.blocks, ∀ c,
    .call c ∈ contents BB → c.parent = BB
  distinct :
    ((callsOf contents (functions.flatMap DefinedFunction.blocks)).map CallInst.ptr).Nodup
  fresh : ∀ BB ∈ functions.flatMap DefinedFunction.blocks, ∀ I ∈ contents BB, I.isUpdate = false

/-- The basic blocks, in the order of the two loops. -/
def IRModule.blocks (M : IRModule) : List Nat := M.functions.flatMap DefinedFunction.blocks

/-- The module under the pass, and the pass's own data. -/
structure HeapPass where
  contents : Nat → List Instruction
  heapObjsNew : List (CallInst × Ty)
  index : Nat
  trackedHeap : Nat

/-- `std::map::insert`: the entries are in the order of the calls' addresses. -/
def insertHeapObj (entry : CallInst × Ty) : List (CallInst × Ty) → List (CallInst × Ty)
  | [] => [entry]
  | it :: rest =>
    if entry.1.ptr < it.1.ptr then entry :: it :: rest
    else if entry.1.ptr = it.1.ptr then it :: rest
    else it :: insertHeapObj entry rest

/-- Insert the code of an update in front of the instruction behind a call. -/
def insertAfter (ptr : Nat) (u : HeapUpdate) : List Instruction → List Instruction
  | [] => []
  | .call c :: rest =>
    if c.ptr = ptr then .call c :: .update u :: rest else .call c :: insertAfter ptr u rest
  | I :: rest => I :: insertAfter ptr u rest

section Pass

variable (tli : String → Bool)

/-- The loop over the instructions of a basic block. -/
def collectHeapObjs (objs : List (CallInst × Ty)) (b : List Instruction) : List (CallInst × Ty) :=
  b.foldl (fun objs I =>
    match I.call?.bind fun c => (heapObjType tli c).map (c, ·) with
    | some entry => insertHeapObj entry objs
    | none => objs) objs

/-- The body of the loop over `heapObjsNew`. -/
def instrumentObj (functionName : String) (st : HeapPass) (it : CallInst × Ty) :
    Option HeapPass := do
  let (Size, count) ← sizeAndCount tli it.1 it.2
  let u : HeapUpdate :=
    { ptrValue := it.1.ptr, allocationType := it.2, alignment := 0, count, size := Size
      allocName := "heap:" ++ functionName ++ ":" ++ toString st.index ++ ":" ++
        it.1.calledFunction.elim "" Callee.name }
  return { st with
    contents := Function.update st.contents it.1.parent
      (insertAfter it.1.ptr u (st.contents it.1.parent))
    index := st.index + 1
    trackedHeap := st.trackedHeap + 1 }

def visitBlock (functionName : String) (st : HeapPass) (BB : Nat) : Option HeapPass :=
  let objs := collectHeapObjs tli st.heapObjsNew (st.contents BB)
  objs.foldlM (instrumentObj tli functionName) { st with heapObjsNew := objs }

def visitDefinedFunction (st : HeapPass) (F : DefinedFunction) : Option HeapPass :=
  F.blocks.foldlM (visitBlock tli F.name) { st with index := 0 }

/-- The heap instrumentation of `TypeSanTree::runOnModule`. -/
def IRModule.instrumentHeap (M : IRModule) : Option HeapPass :=
  M.functions.foldlM (visitDefinedFunction tli) ⟨M.contents, [], 0, 0⟩

end Pass

/-- An instruction with the updates that stand behind it. -/
def expand (ups : CallInst → List HeapUpdate) : Instruction → List Instruction
  | .call c => .call c :: (ups c).map .update
  | I => [I]

namespace IRModule

variable (tli : String → Bool) (M : IRModule)

def calls : List CallInst := callsOf M.contents M.blocks

/-- The entries that calls in these blocks make in `heapObjsNew`. -/
def heapObjs (blocks : List Nat) : List (CallInst × Ty) :=
  (callsOf M.contents blocks).filterMap fun c => (heapObjType tli c).map (c, ·)

/-- The blocks consist of their instructions, with so many updates of its own right behind each
call. -/
def Instrumented (count : CallInst → Nat) (contents : Nat → List Instruction) : Prop :=
  ∃ ups : CallInst → List HeapUpdate,
    (∀ c ∈ M.calls, (ups c).length = count c ∧
      ∀ u ∈ ups c, u.ptrValue = c.ptr ∧ heapObjType tli c = some u.allocationType) ∧
    ∀ BB ∈ M.blocks, contents BB = (M.contents BB).flatMap (expand ups)

variable {tli} {M} {BB : Nat} {c : CallInst} {count count' : CallInst → Nat}
  {contents : Nat → List Instruction}

theorem mem_callsOf {blocks : List Nat} :
    c ∈ callsOf M.contents blocks ↔ ∃ BB ∈ blocks, .call c ∈ M.contents BB := by
  simp only [callsOf, List.mem_filterMap, List.mem_flatMap]
  constructor
  · rintro ⟨I, ⟨BB, hBB, hI⟩, hc⟩
    cases I with
    | call d =>
      cases hc
      exact ⟨BB, hBB, hI⟩
    | update u => cases hc
    | other n => cases hc
  · rintro ⟨BB, hBB, hI⟩
    exact ⟨_, ⟨BB, hBB, hI⟩, rfl⟩

theorem parent_of_mem_callsOf {blocks : List Nat} (hblocks : blocks ⊆ M.blocks)
    (hc : c ∈ callsOf M.contents blocks) : c.parent ∈ blocks ∧ .call c ∈ M.contents c.parent := by
  obtain ⟨BB, hBB, hI⟩ := mem_callsOf.mp hc
  obtain rfl := M.parent BB (hblocks hBB) c hI
  exact ⟨hBB, hI⟩

theorem callsOf_subset {blocks : List Nat} (hblocks : blocks ⊆ M.blocks)
    (hc : c ∈ callsOf M.contents blocks) : c ∈ M.calls := by
  obtain ⟨BB, hBB, hI⟩ := mem_callsOf.mp hc
  exact mem_callsOf.mpr ⟨BB, hblocks hBB, hI⟩

theorem eq_of_ptr {d : CallInst} (hc : c ∈ M.calls) (hd : d ∈ M.calls) (h : c.ptr = d.ptr) :
    c = d :=
  List.inj_on_of_nodup_map M.distinct hc hd h

/-! Where the updates stand says how many there are. -/

theorem takeWhile_expand {ups : CallInst → List HeapUpdate} {b : List Instruction}
    (hfresh : ∀ I ∈ b, I.isUpdate = false) :
    (b.flatMap (expand ups)).takeWhile Instruction.isUpdate = [] := by
  cases b with
  | nil => rfl
  | cons I b =>
    have hI := hfresh I List.mem_cons_self
    cases I with
    | call c => simp [expand, Instruction.isUpdate]
    | update u => cases hI
    | other n => simp [expand, Instruction.isUpdate]

theorem expand_inj {ups ups' : CallInst → List HeapUpdate} {b : List Instruction}
    (hfresh : ∀ I ∈ b, I.isUpdate = false)
    (h : b.flatMap (expand ups) = b.flatMap (expand ups')) (hc : .call c ∈ b) :
    (ups c).map Instruction.update = (ups' c).map .update := by
  induction b with
  | nil => simp at hc
  | cons I b ih =>
    have hrest : ∀ I ∈ b, I.isUpdate = false := fun I hI => hfresh I (List.mem_cons_of_mem _ hI)
    rw [List.flatMap_cons, List.flatMap_cons] at h
    cases I with
    | other n =>
      exact ih hrest (List.cons.inj h).2 (by simpa using hc)
    | update u => exact absurd (hfresh _ List.mem_cons_self) (by simp [Instruction.isUpdate])
    | call d =>
      simp only [expand, List.cons_append, List.cons.injEq, true_and] at h
      -- the updates of the call end where the next instruction of the module begins
      have hrun (ups : CallInst → List HeapUpdate) :
          ((ups d).map Instruction.update ++ b.flatMap (expand ups)).takeWhile
            Instruction.isUpdate = (ups d).map .update := by
        rw [List.takeWhile_append_of_pos (by simp [Instruction.isUpdate]), takeWhile_expand hrest,
          List.append_nil]
      have heq : (ups d).map Instruction.update = (ups' d).map .update := by
        rw [← hrun ups, h, hrun ups']
      rcases List.mem_cons.mp hc with hcd | hc
      · obtain rfl : c = d := by simpa using hcd
        exact heq
      · exact ih hrest (List.append_cancel_left (heq ▸ h)) hc

theorem Instrumented.unique (h : M.Instrumented tli count contents)
    (h' : M.Instrumented tli count' contents) (hc : c ∈ M.calls) : count c = count' c := by
  obtain ⟨ups, hups, hcode⟩ := h
  obtain ⟨ups', hups', hcode'⟩ := h'
  obtain ⟨hBB, hI⟩ := parent_of_mem_callsOf (List.Subset.refl _) hc
  have heq := expand_inj (M.fresh _ hBB) ((hcode _ hBB).symm.trans (hcode' _ hBB)) hI
  have hlength := congrArg List.length heq
  rw [List.length_map, List.length_map, (hups c hc).1, (hups' c hc).1] at hlength
  exact hlength

/-! One update. -/

theorem insertAfter_updates {ptr : Nat} {u : HeapUpdate} (us : List HeapUpdate)
    (b : List Instruction) : insertAfter ptr u (us.map .update ++ b) =
      us.map .update ++ insertAfter ptr u b := by
  induction us with
  | nil => rfl
  | cons u' us ih => simp [insertAfter, ih]

theorem expand_congr {ups ups' : CallInst → List HeapUpdate} {b : List Instruction}
    (h : ∀ d, .call d ∈ b → ups d = ups' d) : b.flatMap (expand ups) = b.flatMap (expand ups') := by
  apply List.flatMap_congr
  intro I hI
  cases I with
  | call d => rw [expand, expand, h d hI]
  | update u => rfl
  | other n => rfl

theorem flatMap_expand_nil (b : List Instruction) : b.flatMap (expand fun _ => []) = b := by
  induction b with
  | nil => rfl
  | cons I b ih =>
    rw [List.flatMap_cons, ih]
    cases I with
    | call c => rfl
    | update u => rfl
    | other n => rfl

theorem insertAfter_expand {ups : CallInst → List HeapUpdate} {b : List Instruction}
    {u : HeapUpdate} (hfresh : ∀ I ∈ b, I.isUpdate = false)
    (hdistinct : ((b.filterMap Instruction.call?).map CallInst.ptr).Nodup) (hc : .call c ∈ b) :
    insertAfter c.ptr u (b.flatMap (expand ups)) =
      b.flatMap (expand fun d => if d.ptr = c.ptr then u :: ups d else ups d) := by
  induction b with
  | nil => simp at hc
  | cons I b ih =>
    have hrest : ∀ I ∈ b, I.isUpdate = false := fun I hI => hfresh I (List.mem_cons_of_mem _ hI)
    rw [List.flatMap_cons, List.flatMap_cons]
    cases I with
    | update u => exact absurd (hfresh _ List.mem_cons_self) (by simp [Instruction.isUpdate])
    | other n =>
      have ih' := ih hrest (by rwa [List.filterMap_cons_none rfl] at hdistinct) (by simpa using hc)
      simp [expand, insertAfter, ih']
    | call d =>
      have hnodup : ((d :: b.filterMap Instruction.call?).map CallInst.ptr).Nodup := by
        simpa [Instruction.call?] using hdistinct
      rw [List.map_cons, List.nodup_cons] at hnodup
      have hother (e : CallInst) (he : .call e ∈ b) : e.ptr ≠ d.ptr := by
        intro heq
        refine hnodup.1 (List.mem_map.mpr ⟨e, ?_, heq⟩)
        exact List.mem_filterMap.mpr ⟨_, he, rfl⟩
      by_cases hd : d.ptr = c.ptr
      · have hsame : b.flatMap (expand ups) =
            b.flatMap (expand fun d => if d.ptr = c.ptr then u :: ups d else ups d) :=
          expand_congr fun e he => (if_neg (hd ▸ hother e he)).symm
        simp only [expand, List.cons_append, insertAfter, if_pos hd, List.map_cons, hsame]
      · have hmem : .call c ∈ b := by
          rcases List.mem_cons.mp hc with heq | hc
          · exact absurd (by cases heq; rfl) hd
          · exact hc
        simp only [expand, List.cons_append, insertAfter, if_neg hd, insertAfter_updates,
          ih hrest hnodup.2 hmem]

/-- Inserting the code of an update puts one more behind its call, and changes nothing else. -/
theorem Instrumented.insert (h : M.Instrumented tli count contents) (hc : c ∈ M.calls)
    {u : HeapUpdate} (hu : u.ptrValue = c.ptr) (htype : heapObjType tli c = some u.allocationType) :
    M.Instrumented tli (fun d => count d + if d.ptr = c.ptr then 1 else 0)
      (Function.update contents c.parent (insertAfter c.ptr u (contents c.parent))) := by
  obtain ⟨ups, hups, hcode⟩ := h
  obtain ⟨hBB, hI⟩ := parent_of_mem_callsOf (List.Subset.refl _) hc
  refine ⟨fun d => if d.ptr = c.ptr then u :: ups d else ups d, fun d hd => ?_, fun BB hmem => ?_⟩
  · obtain ⟨hlength, hupdates⟩ := hups d hd
    by_cases hdc : d.ptr = c.ptr
    · obtain rfl := eq_of_ptr hd hc hdc
      simp only [if_true, List.length_cons, hlength, true_and]
      intro u' hu'
      rcases List.mem_cons.mp hu' with rfl | hu'
      · exact ⟨hu, htype⟩
      · exact hupdates u' hu'
    · simpa [if_neg hdc] using ⟨hlength, hupdates⟩
  · by_cases hBBc : BB = c.parent
    · subst hBBc
      have hblock : ((callsOf M.contents [c.parent]).map CallInst.ptr).Nodup := by
        refine List.Nodup.sublist (List.Sublist.map _ (List.Sublist.filterMap _ ?_)) M.distinct
        exact List.Sublist.flatMap (List.singleton_sublist.mpr hBB) _
      rw [Function.update_self, hcode _ hBB]
      exact insertAfter_expand (M.fresh _ hBB) (by simpa [callsOf] using hblock) hI
    · rw [Function.update_of_ne hBBc, hcode _ hmem]
      refine expand_congr fun d hd => (if_neg fun hdc => hBBc ?_).symm
      have hd' : d ∈ M.calls := mem_callsOf.mpr ⟨BB, hmem, hd⟩
      exact (M.parent BB hmem d hd).symm.trans (congrArg CallInst.parent (eq_of_ptr hd' hc hdc))

theorem Instrumented.congr (h : M.Instrumented tli count contents)
    (hcount : ∀ c ∈ M.calls, count c = count' c) : M.Instrumented tli count' contents := by
  obtain ⟨ups, hups, hcode⟩ := h
  exact ⟨ups, fun c hc => ⟨(hups c hc).1.trans (hcount c hc), (hups c hc).2⟩, hcode⟩

/-- A block whose calls have no updates is as it was. -/
theorem Instrumented.untouched (h : M.Instrumented tli count contents) (hBB : BB ∈ M.blocks)
    (hzero : ∀ c, .call c ∈ M.contents BB → count c = 0) : contents BB = M.contents BB := by
  obtain ⟨ups, hups, hcode⟩ := h
  rw [hcode BB hBB]
  have hnone : (M.contents BB).flatMap (expand ups) =
      (M.contents BB).flatMap (expand fun _ => []) := by
    refine expand_congr fun c hc => List.eq_nil_of_length_eq_zero ?_
    rw [(hups c (mem_callsOf.mpr ⟨BB, hBB, hc⟩)).1, hzero c hc]
  rw [hnone, flatMap_expand_nil]

theorem instrumented_start : M.Instrumented tli (fun _ => 0) M.contents := by
  refine ⟨fun _ => [], by simp, ?_⟩
  intro BB _
  rw [flatMap_expand_nil]

/-! The entries of `heapObjsNew`. -/

theorem mem_heapObjs {blocks : List Nat} {it : CallInst × Ty} :
    it ∈ M.heapObjs tli blocks ↔
      it.1 ∈ callsOf M.contents blocks ∧ heapObjType tli it.1 = some it.2 := by
  obtain ⟨c, ty⟩ := it
  simp only [heapObjs, List.mem_filterMap, Option.map_eq_some_iff, Prod.mk.injEq]
  constructor
  · rintro ⟨d, hd, t, ht, rfl, rfl⟩
    exact ⟨hd, ht⟩
  · exact fun h => ⟨c, h.1, ty, h.2, rfl, rfl⟩

theorem heapObjs_append (blocks blocks' : List Nat) : M.heapObjs tli (blocks ++ blocks') =
    M.heapObjs tli blocks ++ M.heapObjs tli blocks' := by
  simp [heapObjs, callsOf]

theorem map_ptr_heapObjs (blocks : List Nat) :
    List.Sublist ((M.heapObjs tli blocks).map fun it => it.1.ptr)
      ((callsOf M.contents blocks).map CallInst.ptr) := by
  unfold heapObjs
  induction callsOf M.contents blocks with
  | nil => exact List.Sublist.refl _
  | cons c cs ih =>
    cases htype : heapObjType tli c with
    | none => simpa [List.filterMap_cons, htype] using ih.cons _
    | some ty => simpa [List.filterMap_cons, htype] using ih

theorem nodup_heapObjs {blocks : List Nat} (h : blocks <+: M.blocks) :
    ((M.heapObjs tli blocks).map fun it => it.1.ptr).Nodup := by
  refine (map_ptr_heapObjs blocks).nodup (List.Nodup.sublist ?_ M.distinct)
  exact List.Sublist.map _ (List.Sublist.filterMap _ (List.Sublist.flatMap h.sublist _))

theorem insertHeapObj_perm {entry : CallInst × Ty} {objs : List (CallInst × Ty)}
    (h : entry.1.ptr ∉ objs.map fun it => it.1.ptr) :
    (insertHeapObj entry objs).Perm (entry :: objs) := by
  induction objs with
  | nil => exact List.Perm.refl _
  | cons it rest ih =>
    simp only [List.map_cons, List.mem_cons, not_or] at h
    simp only [insertHeapObj, if_neg h.1]
    split
    · exact List.Perm.refl _
    · exact ((ih h.2).cons it).trans (List.Perm.swap entry it rest)

theorem collectHeapObjs_perm {objs : List (CallInst × Ty)} {b : List Instruction}
    (h : ((objs ++ (b.filterMap Instruction.call?).filterMap fun c =>
      (heapObjType tli c).map (c, ·)).map fun it => it.1.ptr).Nodup) :
    (collectHeapObjs tli objs b).Perm (objs ++ (b.filterMap Instruction.call?).filterMap fun c =>
      (heapObjType tli c).map (c, ·)) := by
  induction b generalizing objs with
  | nil => simp [collectHeapObjs]
  | cons I b ih =>
    rw [collectHeapObjs, List.foldl_cons]
    rw [List.filterMap_filterMap, List.filterMap_cons] at h ⊢
    cases hentry : I.call?.bind fun c => (heapObjType tli c).map (c, ·) with
    | none =>
      simp only [hentry] at h ⊢
      rw [← List.filterMap_filterMap] at h ⊢
      exact ih h
    | some entry =>
      simp only [hentry] at h ⊢
      rw [← List.filterMap_filterMap] at h ⊢
      have hnew : entry.1.ptr ∉ objs.map fun it => it.1.ptr := by
        rw [List.map_append, List.nodup_append] at h
        intro hmem
        exact h.2.2 _ hmem _ List.mem_cons_self rfl
      have hperm := insertHeapObj_perm hnew
      have hmove : ∀ l, (insertHeapObj entry objs ++ l).Perm (objs ++ entry :: l) := fun l =>
        (hperm.append_right l).trans List.perm_middle.symm
      refine (ih ?_).trans (hmove _)
      exact (((hmove _).map _).nodup_iff).mpr h

/-! The loops. -/

/-- The drains that an entry of a block goes through, once these blocks are done. -/
def age (done : List Nat) (BB : Nat) : Nat := done.length - done.idxOf BB

theorem age_of_notMem {done : List Nat} (h : BB ∉ done) : age done BB = 0 := by
  rw [age, List.idxOf_eq_length h, Nat.sub_self]

theorem age_snoc {done : List Nat} {x : Nat} (h : BB ∉ done) :
    age (done ++ [BB]) x = age done x + if x ∈ done ++ [BB] then 1 else 0 := by
  by_cases hx : x ∈ done
  · have hlt := List.idxOf_lt_length_of_mem hx
    rw [age, age, List.idxOf_append_of_mem hx, if_pos (List.mem_append_left _ hx)]
    simp only [List.length_append, List.length_singleton]
    omega
  · by_cases hxBB : x = BB
    · subst hxBB
      rw [age_of_notMem hx, age, List.idxOf_append_of_notMem hx]
      simp
    · have hno : x ∉ done ++ [BB] := by simp [hx, hxBB]
      rw [age_of_notMem hx, age_of_notMem hno, if_neg hno]

theorem instrumentObj_eq {name : String} {st st' : HeapPass} {it : CallInst × Ty}
    (h : instrumentObj tli name st it = some st') : ∃ u : HeapUpdate, u.ptrValue = it.1.ptr ∧
      u.allocationType = it.2 ∧ st'.heapObjsNew = st.heapObjsNew ∧
      st'.trackedHeap = st.trackedHeap + 1 ∧ st'.contents = Function.update st.contents it.1.parent
        (insertAfter it.1.ptr u (st.contents it.1.parent)) := by
  obtain ⟨⟨Size, count⟩, -, hst'⟩ := Option.bind_eq_some_iff.mp h
  cases hst'
  exact ⟨_, rfl, rfl, rfl, rfl, rfl⟩

/-- The loop over `heapObjsNew`: each entry gets one update more. -/
theorem drain_eq {name : String} {objs : List (CallInst × Ty)} {st st' : HeapPass}
    (hobjs : ∀ it ∈ objs, it.1 ∈ M.calls ∧ heapObjType tli it.1 = some it.2)
    (h : objs.foldlM (instrumentObj tli name) st = some st')
    (hcode : M.Instrumented tli count st.contents) :
    st'.heapObjsNew = st.heapObjsNew ∧ st'.trackedHeap = st.trackedHeap + objs.length ∧
      M.Instrumented tli (fun c => count c + (objs.map fun it => it.1.ptr).count c.ptr)
        st'.contents := by
  induction objs generalizing st count with
  | nil =>
    cases h
    exact ⟨rfl, rfl, hcode⟩
  | cons it objs ih =>
    rw [List.foldlM_cons] at h
    obtain ⟨st₁, h₁, hrest⟩ := Option.bind_eq_some_iff.mp h
    obtain ⟨u, hptr, htype, hobjs₁, htracked₁, hcontents₁⟩ := instrumentObj_eq h₁
    obtain ⟨hmem, hty⟩ := hobjs it List.mem_cons_self
    have hcode₁ := hcode.insert hmem hptr (hty.trans (congrArg some htype.symm))
    rw [← hcontents₁] at hcode₁
    obtain ⟨hobjs', htracked', hcode'⟩ :=
      ih (fun it hit => hobjs it (List.mem_cons_of_mem _ hit)) hrest hcode₁
    refine ⟨hobjs'.trans hobjs₁, ?_, hcode'.congr fun c _ => ?_⟩
    · rw [htracked', htracked₁, List.length_cons]
      omega
    · rw [List.map_cons, List.count_cons]
      by_cases hc : c.ptr = it.1.ptr
      · rw [if_pos hc, hc, beq_self_eq_true, if_pos rfl]
        omega
      · rw [if_neg hc, beq_false_of_ne (Ne.symm hc), if_neg Bool.false_ne_true]
        omega

/-- The loop goes through exactly if all sizes can be computed. -/
theorem drain_isSome {name : String} {objs : List (CallInst × Ty)} {st : HeapPass} :
    (objs.foldlM (instrumentObj tli name) st).isSome ↔
      ∀ it ∈ objs, (sizeAndCount tli it.1 it.2).isSome := by
  induction objs generalizing st with
  | nil => simp
  | cons it objs ih =>
    rw [List.foldlM_cons, List.forall_mem_cons]
    cases hsize : sizeAndCount tli it.1 it.2 with
    | none => simp [instrumentObj, hsize]
    | some size => simpa [instrumentObj, hsize] using ih

variable (tli M) in
/-- What holds when these blocks are done. -/
structure Drained (done : List Nat) (st : HeapPass) : Prop where
  objs : st.heapObjsNew.Perm (M.heapObjs tli done)
  code : M.Instrumented tli
    (fun c => if (heapObjType tli c).isSome then age done c.parent else 0) st.contents
  trackedHeap : st.trackedHeap = ((M.heapObjs tli done).map fun it => age done it.1.parent).sum
  sized : ∀ it ∈ M.heapObjs tli done, (sizeAndCount tli it.1 it.2).isSome

variable (tli M) in
/-- The pass has done these blocks, or it has stopped at a size that cannot be computed. -/
def Outcome (done : List Nat) : Option HeapPass → Prop
  | some st => M.Drained tli done st
  | none => ∃ it ∈ M.heapObjs tli M.blocks, sizeAndCount tli it.1 it.2 = none

variable {done : List Nat} {st : HeapPass}

theorem count_ptr_heapObjs (hdone : done <+: M.blocks) (hc : c ∈ M.calls) :
    ((M.heapObjs tli done).map fun it => it.1.ptr).count c.ptr =
      if (heapObjType tli c).isSome ∧ c.parent ∈ done then 1 else 0 := by
  rw [(nodup_heapObjs hdone).count]
  refine if_congr ?_ rfl rfl
  rw [List.mem_map]
  constructor
  · rintro ⟨it, hit, hptr⟩
    obtain ⟨hcall, htype⟩ := mem_heapObjs.mp hit
    obtain ⟨hparent, -⟩ := parent_of_mem_callsOf hdone.subset hcall
    obtain rfl := eq_of_ptr (callsOf_subset hdone.subset hcall) hc hptr
    exact ⟨by rw [htype]; rfl, hparent⟩
  · rintro ⟨htype, hparent⟩
    obtain ⟨ty, hty⟩ := Option.isSome_iff_exists.mp htype
    obtain ⟨-, hI⟩ := parent_of_mem_callsOf (List.Subset.refl _) hc
    exact ⟨(c, ty), mem_heapObjs.mpr ⟨mem_callsOf.mpr ⟨_, hparent, hI⟩, hty⟩, rfl⟩

/-- A block is done at most once. -/
theorem notMem_of_concat (hdone : done ++ [BB] <+: M.blocks) : BB ∉ done := by
  have hnodup := hdone.sublist.nodup M.blocks_nodup
  rw [List.nodup_append] at hnodup
  exact fun hmem => hnodup.2.2 BB hmem BB List.mem_cons_self rfl

/-- With the objects of one more block, the list holds those of the blocks so far. -/
theorem Drained.collected (h : M.Drained tli done st) (hdone : done ++ [BB] <+: M.blocks) :
    (collectHeapObjs tli st.heapObjsNew (st.contents BB)).Perm (M.heapObjs tli (done ++ [BB])) := by
  have hBB : BB ∈ M.blocks := hdone.subset (by simp)
  have hblock : st.contents BB = M.contents BB := by
    apply h.code.untouched hBB
    intro c hc
    rw [M.parent BB hBB c hc, age_of_notMem (notMem_of_concat hdone), ite_self]
  have hentries : M.heapObjs tli [BB] = ((M.contents BB).filterMap Instruction.call?).filterMap
      fun c => (heapObjType tli c).map (c, ·) := by
    simp [heapObjs, callsOf]
  have hperm := h.objs.append_right (M.heapObjs tli [BB])
  rw [← heapObjs_append] at hperm
  rw [hblock]
  refine List.Perm.trans (collectHeapObjs_perm ?_) (hentries ▸ hperm)
  rw [← hentries]
  exact ((hperm.map _).nodup_iff).mpr (nodup_heapObjs hdone)

/-- The ages of all objects grow by one with a block, which brings its own. -/
theorem sum_age_snoc (hdone : done ++ [BB] <+: M.blocks) :
    ((M.heapObjs tli (done ++ [BB])).map fun it => age (done ++ [BB]) it.1.parent).sum =
      ((M.heapObjs tli done).map fun it => age done it.1.parent).sum +
        (M.heapObjs tli (done ++ [BB])).length := by
  have hBB : BB ∈ M.blocks := hdone.subset (by simp)
  have hnew := notMem_of_concat hdone
  have hage : (M.heapObjs tli (done ++ [BB])).map (fun it => age (done ++ [BB]) it.1.parent) =
      (M.heapObjs tli (done ++ [BB])).map fun it => age done it.1.parent + 1 := by
    apply List.map_congr_left
    intro it hit
    have hparent := (parent_of_mem_callsOf hdone.subset (mem_heapObjs.mp hit).1).1
    rw [age_snoc hnew, if_pos hparent]
  have hzero : ((M.heapObjs tli [BB]).map fun it => age done it.1.parent).sum = 0 := by
    apply List.sum_eq_zero
    intro n hn
    obtain ⟨it, hit, rfl⟩ := List.mem_map.mp hn
    have hparent := (parent_of_mem_callsOf (by simpa using hBB) (mem_heapObjs.mp hit).1).1
    rw [List.mem_singleton.mp hparent]
    exact age_of_notMem hnew
  rw [hage, List.sum_map_add, heapObjs_append, List.map_append, List.sum_append, hzero]
  simp

/-- One more block. -/
theorem visitBlock_outcome (h : M.Drained tli done st) (hdone : done ++ [BB] <+: M.blocks)
    (name : String) : M.Outcome tli (done ++ [BB]) (visitBlock tli name st BB) := by
  have hobjs := h.collected hdone
  rw [visitBlock]
  cases hrun : (collectHeapObjs tli st.heapObjsNew (st.contents BB)).foldlM
    (instrumentObj tli name)
    { st with heapObjsNew := collectHeapObjs tli st.heapObjsNew (st.contents BB) } with
  | none =>
    have hno := Option.not_isSome_iff_eq_none.mpr hrun
    rw [drain_isSome] at hno
    push Not at hno
    obtain ⟨it, hit, hsize⟩ := hno
    obtain ⟨hcall, htype⟩ := mem_heapObjs.mp (hobjs.mem_iff.mp hit)
    exact ⟨it, mem_heapObjs.mpr ⟨callsOf_subset hdone.subset hcall, htype⟩, by simpa using hsize⟩
  | some st' =>
    have hmem : ∀ it ∈ collectHeapObjs tli st.heapObjsNew (st.contents BB),
        it.1 ∈ M.calls ∧ heapObjType tli it.1 = some it.2 := by
      intro it hit
      obtain ⟨hcall, htype⟩ := mem_heapObjs.mp (hobjs.mem_iff.mp hit)
      exact ⟨callsOf_subset hdone.subset hcall, htype⟩
    obtain ⟨hobjs', htracked, hcode⟩ := drain_eq hmem hrun h.code
    have hsized : ∀ it ∈ M.heapObjs tli (done ++ [BB]), (sizeAndCount tli it.1 it.2).isSome :=
      fun it hit => drain_isSome.mp (Option.isSome_iff_exists.mpr ⟨st', hrun⟩) it
        (hobjs.mem_iff.mpr hit)
    refine ⟨hobjs' ▸ hobjs, hcode.congr fun c hc => ?_, ?_, hsized⟩
    · have hcount := ((hobjs.map fun it => it.1.ptr).count_eq c.ptr).trans
        (count_ptr_heapObjs hdone hc)
      rw [hcount, age_snoc (notMem_of_concat hdone)]
      by_cases htype : (heapObjType tli c).isSome <;> simp [htype]
    · rw [htracked, hobjs.length_eq, sum_age_snoc hdone, h.trackedHeap]

theorem visitBlocks_outcome (h : M.Drained tli done st) (name : String) (bs : List Nat)
    (hdone : done ++ bs <+: M.blocks) :
    M.Outcome tli (done ++ bs) (bs.foldlM (visitBlock tli name) st) := by
  induction bs generalizing done st with
  | nil =>
    rw [List.append_nil]
    exact h
  | cons BB bs ih =>
    rw [List.append_cons] at hdone ⊢
    have hone := visitBlock_outcome h ((List.prefix_append _ bs).trans hdone) name
    rw [List.foldlM_cons]
    cases hst₁ : visitBlock tli name st BB with
    | none =>
      rw [hst₁] at hone
      exact hone
    | some st₁ =>
      rw [hst₁] at hone
      exact ih hone hdone

theorem visitFunctions_outcome (h : M.Drained tli done st) (fs : List DefinedFunction)
    (hdone : done ++ fs.flatMap DefinedFunction.blocks <+: M.blocks) :
    M.Outcome tli (done ++ fs.flatMap DefinedFunction.blocks)
      (fs.foldlM (visitDefinedFunction tli) st) := by
  induction fs generalizing done st with
  | nil =>
    rw [List.flatMap_nil, List.append_nil]
    exact h
  | cons F fs ih =>
    rw [List.flatMap_cons, ← List.append_assoc] at hdone ⊢
    have hstart : M.Drained tli done { st with index := 0 } :=
      ⟨h.objs, h.code, h.trackedHeap, h.sized⟩
    have hone : M.Outcome tli (done ++ F.blocks) (visitDefinedFunction tli st F) :=
      visitBlocks_outcome hstart F.name F.blocks ((List.prefix_append _ _).trans hdone)
    rw [List.foldlM_cons]
    cases hst₁ : visitDefinedFunction tli st F with
    | none =>
      rw [hst₁] at hone
      exact hone
    | some st₁ =>
      rw [hst₁] at hone
      exact ih hone hdone

variable (tli M) in
/-- A call of a block gets one update for that block and one for each block behind it, and each of
them is counted. -/
theorem instrumentHeap_outcome : M.Outcome tli M.blocks (M.instrumentHeap tli) := by
  have hstart : M.Drained tli [] ⟨M.contents, [], 0, 0⟩ := by
    refine ⟨by simp [heapObjs, callsOf], instrumented_start.congr fun c _ => ?_,
      by simp [heapObjs, callsOf], by simp [heapObjs, callsOf]⟩
    rw [age_of_notMem (List.not_mem_nil), ite_self]
  exact visitFunctions_outcome hstart M.functions (List.prefix_refl _)

theorem age_eq_one_iff {blocks : List Nat} (hnodup : blocks.Nodup) (hBB : BB ∈ blocks) :
    age blocks BB = 1 ↔ blocks.getLast? = some BB := by
  induction blocks using List.reverseRecOn with
  | nil => simp at hBB
  | append_singleton front last ih =>
    rw [List.nodup_append] at hnodup
    have hlast : last ∉ front := fun hmem => hnodup.2.2 last hmem last List.mem_cons_self rfl
    rw [age_snoc hlast, if_pos hBB, List.getLast?_concat, Option.some_inj]
    constructor
    · intro hage
      by_contra hne
      have hmem : BB ∈ front := by
        rcases List.mem_append.mp hBB with hmem | hmem
        · exact hmem
        · exact absurd (List.mem_singleton.mp hmem).symm hne
      have hlt := List.idxOf_lt_length_of_mem hmem
      rw [age] at hage
      omega
    · rintro rfl
      rw [age_of_notMem hlast]

/-- Each call that allocates an object of interest has one update, right behind it, and
`trackedHeap` counts these calls, exactly if they are all in the last basic block of the module and
the sizes of their objects can be computed. -/
theorem instrumentedOnce_iff (tli : String → Bool) (M : IRModule) :
    (∃ out, M.instrumentHeap tli = some out ∧
      M.Instrumented tli (fun c => if (heapObjType tli c).isSome then 1 else 0) out.contents ∧
      out.trackedHeap = (M.heapObjs tli M.blocks).length) ↔
    ∀ c ty, c ∈ M.calls → heapObjType tli c = some ty →
      (sizeAndCount tli c ty).isSome ∧ M.blocks.getLast? = some c.parent := by
  have hlast (c : CallInst) (hc : c ∈ M.calls) :
      age M.blocks c.parent = 1 ↔ M.blocks.getLast? = some c.parent :=
    age_eq_one_iff M.blocks_nodup (parent_of_mem_callsOf (List.Subset.refl _) hc).1
  have houtcome := instrumentHeap_outcome tli M
  constructor
  · rintro ⟨out, hout, hcode, -⟩ c ty hc hty
    rw [hout] at houtcome
    refine ⟨houtcome.sized (c, ty) (mem_heapObjs.mpr ⟨hc, hty⟩), (hlast c hc).mp ?_⟩
    simpa [hty] using houtcome.code.unique hcode hc
  · intro h
    cases hout : M.instrumentHeap tli with
    | none =>
      rw [hout] at houtcome
      obtain ⟨it, hit, hsize⟩ := houtcome
      obtain ⟨hc, hty⟩ := mem_heapObjs.mp hit
      exact absurd (h it.1 it.2 hc hty).1 (by simp [hsize])
    | some out =>
      rw [hout] at houtcome
      refine ⟨out, rfl, houtcome.code.congr fun c hc => ?_, ?_⟩
      · cases hty : heapObjType tli c with
        | none => simp
        | some ty => simp [(hlast c hc).mpr (h c ty hc hty).2]
      · have hage : (M.heapObjs tli M.blocks).map (fun it => age M.blocks it.1.parent) =
            (M.heapObjs tli M.blocks).map fun _ => 1 := by
          apply List.map_congr_left
          intro it hit
          obtain ⟨hc, hty⟩ := mem_heapObjs.mp hit
          exact (hlast it.1 hc).mpr (h it.1 it.2 hc hty).2
        rw [houtcome.trackedHeap, hage]
        simp

/-- A call `malloc(8)` whose result is cast to a class. -/
def mallocCall : CallInst where
  ptr := 1
  parent := 0
  calledFunction := some ⟨"malloc", none, true, false, .int8Ptr, [.int 64]⟩
  args := [.constantInt 8]
  elementType := some (.scalar 1 0)
  bitCastUses := [.struct (some "trackedtype.A") false [.scalar 8 3]]

/-- A function of two blocks, the first of which allocates. -/
def twoBlocks : IRModule where
  functions := [⟨"main", [0, 1]⟩]
  contents BB := if BB = 0 then [.call mallocCall] else []
  blocks_nodup := by decide
  parent := by
    intro BB _ c hc
    split at hc
    · rename_i hBB
      have hcall : c = mallocCall := by simpa using hc
      rw [hcall, hBB]
      rfl
    · simp at hc
  distinct := by decide
  fresh := by
    intro BB _ I hI
    split at hI
    · rw [List.mem_singleton.mp hI]
      rfl
    · simp at hI

theorem instrumentedOnce_fails_on_two_blocks : ∃ out,
    twoBlocks.instrumentHeap (fun _ => true) = some out ∧ out.trackedHeap = 2 ∧
      (out.contents 0).countP Instruction.isUpdate = 2 ∧
      (twoBlocks.heapObjs (fun _ => true) twoBlocks.blocks).length = 1 :=
  ⟨_, rfl, by decide, by decide, by decide⟩

end IRModule

end TypeSan
