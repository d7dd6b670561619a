import TypeSan.AllocaUpdate
import TypeSan.GlobalMetadata
import TypeSan.StackOptimization

/-! The stack instrumentation of a module: the functions it is left out of, the copies of arguments
that are passed by value, and the updates behind allocas. -/
namespace TypeSan

/-- An argument of the function, the result of one of its instructions, or a constant. -/
inductive FrameValue where
  | argument (i : Nat)
  | result (id : Nat)
  | constant (value : Nat)
  deriving DecidableEq

/-- An alloca. Its alignment is the larger one of its own and the one that its type prefers. -/
structure AllocaInst where
  id : Nat
  AllocatedType : Ty
  ArraySize : FrameValue
  align : Nat
  TrackedAlloca : Bool

/-- The arguments of `insertUpdateMetalloc` for an alloca. The size is that of so many elements. -/
structure StackUpdate where
  ptrValue : FrameValue
  allocationType : Ty
  alignment : Nat
  count : Nat
  arraySize : FrameValue
  allocName : String

/-- An instruction of a function, or the code of an update that was inserted. -/
inductive FrameInst where
  | alloca (AI : AllocaInst)
  | update (u : StackUpdate)
  | pointerCast (id : Nat) (V : FrameValue)
  | memcpy (Dst Src : FrameValue) (Size : Nat)
  | call (id : Nat) (canReturnTwice : Bool) (operands : List FrameValue)
  | other (id opcode : Nat) (operands : List FrameValue)

structure Argument where
  hasByValAttr : Bool
  pointedType : Ty

/-- A function: the instructions of its entry block and of the other blocks, up to their
terminators, and a number that no instruction has yet. -/
structure FunctionCode where
  name : String
  args : List Argument
  entry : List FrameInst
  blocks : List (List FrameInst)
  nextId : Nat

def FrameInst.alloca? : FrameInst → Option AllocaInst
  | .alloca AI => some AI
  | _ => none

def FrameInst.isUpdate : FrameInst → Bool
  | .update _ => true
  | _ => false

def FrameValue.replace (i id : Nat) : FrameValue → FrameValue
  | .argument j => if j = i then .result id else .argument j
  | V => V

/-- A change to the values that an instruction uses. -/
def FrameInst.mapUses (change : FrameValue → FrameValue) : FrameInst → FrameInst
  | .alloca AI => .alloca { AI with ArraySize := change AI.ArraySize }
  | .update u => .update { u with ptrValue := change u.ptrValue, arraySize := change u.arraySize }
  | .pointerCast id V => .pointerCast id (change V)
  | .memcpy Dst Src Size => .memcpy (change Dst) (change Src) Size
  | .call id canReturnTwice operands => .call id canReturnTwice (operands.map change)
  | .other id opcode operands => .other id opcode (operands.map change)

namespace FunctionCode

def insts (F : FunctionCode) : List FrameInst := F.entry ++ F.blocks.flatten

def allocas (F : FunctionCode) : List AllocaInst := F.insts.filterMap FrameInst.alloca?

/-- A change to the instructions of each block. -/
def mapBlocks (change : List FrameInst → List FrameInst) (F : FunctionCode) : FunctionCode :=
  { F with entry := change F.entry, blocks := F.blocks.map change }

end FunctionCode

section Pass

variable (getPrefTypeAlignment : Ty → Nat)

/-- The code that copies an argument, in front of the entry block. Structs and arrays of them are
stored in as many bytes as are allocated for them. -/
def copyCode (i NewAlloca : Nat) (ArgPointedTy : Ty) : List FrameInst :=
  [.alloca ⟨NewAlloca, ArgPointedTy, .constant 1, getPrefTypeAlignment ArgPointedTy, false⟩,
    .pointerCast (NewAlloca + 1) (.argument i),
    .pointerCast (NewAlloca + 2) (.result NewAlloca),
    .memcpy (.result (NewAlloca + 2)) (.result (NewAlloca + 1)) ArgPointedTy.allocSize]

/-- The body of the loop over the arguments. -/
def copyArgument (F : FunctionCode) (Arg : Argument × Nat) : FunctionCode :=
  if Arg.1.hasByValAttr && interestingType Arg.1.pointedType then
    -- `Arg->replaceAllUsesWith(NewAlloca)`
    let replaced := F.mapBlocks (·.map (FrameInst.mapUses (FrameValue.replace Arg.2 F.nextId)))
    { replaced with
      entry := copyCode getPrefTypeAlignment Arg.2 F.nextId Arg.1.pointedType ++ replaced.entry
      nextId := F.nextId + 3 }
  else F

def FunctionCode.copyArguments (F : FunctionCode) : FunctionCode :=
  F.args.zipIdx.foldl (copyArgument getPrefTypeAlignment) F

def FunctionCode.trackedAllocas (F : FunctionCode) : List AllocaInst :=
  F.allocas.filter fun AI => interestingType AI.AllocatedType

/-- The update behind an alloca. The count of an array size that is not constant is 0. -/
def AllocaInst.update (AI : AllocaInst) (allocName : String) : StackUpdate where
  ptrValue := .result AI.id
  allocationType := AI.AllocatedType
  alignment := 6
  count :=
    match AI.ArraySize with
    | .constant constantSize => constantSize
    | _ => 0
  arraySize := AI.ArraySize
  allocName := allocName

/-- The alloca with its metadata set, and its update in front of the next instruction. -/
def AllocaInst.track (AI : AllocaInst) (allocName : String) : List FrameInst :=
  [.alloca { AI with TrackedAlloca := true }, .update (AI.update allocName)]

def trackInst (AI : AllocaInst) (allocName : String) : FrameInst → List FrameInst
  | .alloca AI' => if AI'.id = AI.id then AI'.track allocName else [.alloca AI']
  | I => [I]

/-- The function under the pass. There is no index before the first alloca. -/
structure FramePass where
  code : FunctionCode
  index : Option Nat
  trackedStack : Nat

def allocName (functionName : String) (index : Nat) : String :=
  "stack:" ++ functionName ++ ":" ++ toString index

/-- The body of the loop over `trackedAllocas`. -/
def instrumentAlloca (st : FramePass) (AI : AllocaInst) : FramePass :=
  let index :=
    match st.index with
    | some index => index + 1
    | none => 0
  { code := st.code.mapBlocks (·.flatMap (trackInst AI (allocName st.code.name index)))
    index := some index
    trackedStack := st.trackedStack + 1 }

/-- What `runOnModule` does with a function that may cast. -/
def FunctionCode.instrumentStack (F : FunctionCode) (trackedStack : Nat) : FunctionCode × Nat :=
  let copied := F.copyArguments getPrefTypeAlignment
  let st := copied.trackedAllocas.foldl instrumentAlloca ⟨copied, none, trackedStack⟩
  (st.code, st.trackedStack)

/-- The module under the pass: the cache of the searches, and the functions. -/
structure StackPass (Fn : Type) where
  mayCastMap : Fn → Option Bool
  code : Fn → FunctionCode
  trackedStack : Nat

variable {Fn : Type} [DecidableEq Fn]

def StackPass.instrument (st : StackPass Fn) (F : Fn) : StackPass Fn :=
  let (code, trackedStack) := (st.code F).instrumentStack getPrefTypeAlignment st.trackedStack
  { st with code := Function.update st.code F code, trackedStack }

variable [Fintype Fn] (CG : CallGraph Fn) (junk : Search Fn → Fn → Bool) (disableStackOpt : Bool)

/-- The body of the loop of `runOnModule` over the functions. -/
def CallGraph.instrumentFunction (st : StackPass Fn) (F : Fn) : Option (StackPass Fn) :=
  if !CG.hasCode F || startswith (CG.getName F) "__init_global_object" then some st
  else if disableStackOpt then some (st.instrument getPrefTypeAlignment F)
  else do
    let r ← CG.mayCast junk (Fintype.card Fn + 1) F ⟨st.mayCastMap, ∅⟩
    let st := { st with mayCastMap := (r.search.cache F r.result).mayCastMap }
    return if r.result then st.instrument getPrefTypeAlignment F else st

/-- The stack instrumentation of `runOnModule`, over the functions in the order given. -/
def CallGraph.instrumentStacks (order : List Fn) (code : Fn → FunctionCode) :
    Option (StackPass Fn) :=
  order.foldlM (CG.instrumentFunction getPrefTypeAlignment junk disableStackOpt)
    ⟨fun _ => none, code, 0⟩

end Pass

/-! What the two loops do to a function. -/

/-- The copy of an argument. -/
structure ArgumentCopy where
  arg : Nat
  type : Ty
  alloca : Nat

/-- The copies that are made, with the numbers of their allocas. -/
def copiesOf : (nextId : Nat) → List (Argument × Nat) → List ArgumentCopy
  | _, [] => []
  | nextId, Arg :: rest =>
    if Arg.1.hasByValAttr && interestingType Arg.1.pointedType then
      ⟨Arg.2, Arg.1.pointedType, nextId⟩ :: copiesOf (nextId + 3) rest
    else copiesOf nextId rest

/-- An argument that is copied stands for its copy. -/
def FrameValue.copied (copies : List ArgumentCopy) : FrameValue → FrameValue
  | .argument i =>
    match copies.find? fun copy => copy.arg = i with
    | some copy => .result copy.alloca
    | none => .argument i
  | V => V

/-- An instruction with the update behind it, for an alloca that gets a name. -/
def expandAlloca (nameOf : AllocaInst → Option String) : FrameInst → List FrameInst
  | .alloca AI =>
    match nameOf AI with
    | some allocName => AI.track allocName
    | none => [.alloca AI]
  | I => [I]

namespace FunctionCode

variable (getPrefTypeAlignment : Ty → Nat) (F : FunctionCode)

def copies : List ArgumentCopy := copiesOf F.nextId F.args.zipIdx

/-- The function with arguments copied, the last one first. -/
def withCopies (copies : List ArgumentCopy) : FunctionCode where
  name := F.name
  args := F.args
  entry := copies.reverse.flatMap
      (fun copy => copyCode getPrefTypeAlignment copy.arg copy.alloca copy.type) ++
    F.entry.map (FrameInst.mapUses (FrameValue.copied copies))
  blocks := F.blocks.map (·.map (FrameInst.mapUses (FrameValue.copied copies)))
  nextId := F.nextId + 3 * copies.length

/-- The names of the updates count the allocas. -/
def nameOf (AI : AllocaInst) : Option String :=
  if interestingType AI.AllocatedType then
    some (allocName F.name ((F.trackedAllocas.map AllocaInst.id).idxOf AI.id))
  else none

/-- The function with an update behind each alloca of an interesting type. -/
def tracked : FunctionCode := F.mapBlocks (·.flatMap (expandAlloca F.nameOf))

end FunctionCode

theorem alloca?_eq_some {I : FrameInst} {AI : AllocaInst} :
    I.alloca? = some AI ↔ I = .alloca AI := by
  cases I <;> simp [FrameInst.alloca?]

/-- What is no alloca stays. -/
theorem expandAlloca_of_none {nameOf : AllocaInst → Option String} {I : FrameInst}
    (h : I.alloca? = none) : expandAlloca nameOf I = [I] := by
  cases I with
  | alloca AI => cases h
  | _ => rfl

theorem trackInst_of_none {AI : AllocaInst} {name : String} {I : FrameInst}
    (h : I.alloca? = none) : trackInst AI name I = [I] := by
  cases I with
  | alloca AI => cases h
  | _ => rfl

@[simp] theorem mapUses_mapUses (g h : FrameValue → FrameValue) (I : FrameInst) :
    (I.mapUses g).mapUses h = I.mapUses (h ∘ g) := by
  cases I <;> simp [FrameInst.mapUses]

theorem copied_nil : FrameValue.copied [] = id := by
  funext V
  cases V <;> rfl

@[simp] theorem mapUses_id : FrameInst.mapUses id = id := by
  funext I
  cases I <;> simp [FrameInst.mapUses]

theorem copied_replace (copy : ArgumentCopy) (copies : List ArgumentCopy) :
    FrameValue.copied copies ∘ FrameValue.replace copy.arg copy.alloca =
      FrameValue.copied (copy :: copies) := by
  funext V
  cases V with
  | argument i =>
    by_cases h : copy.arg = i
    · simp [FrameValue.replace, FrameValue.copied, h]
    · simp [FrameValue.replace, FrameValue.copied, h, Ne.symm h]
  | result id => rfl
  | constant value => rfl

theorem arg_of_mem_copiesOf {copy : ArgumentCopy} {nextId : Nat} {args : List (Argument × Nat)}
    (h : copy ∈ copiesOf nextId args) : copy.arg ∈ args.map Prod.snd := by
  induction args generalizing nextId with
  | nil => simp [copiesOf] at h
  | cons Arg rest ih =>
    rw [copiesOf] at h
    rw [List.map_cons, List.mem_cons]
    split at h
    · rcases List.mem_cons.mp h with rfl | h
      · exact Or.inl rfl
      · exact Or.inr (ih h)
    · exact Or.inr (ih h)

namespace FunctionCode

variable {getPrefTypeAlignment : Ty → Nat} {F : FunctionCode}

/-- The code of a copy uses no other argument. -/
theorem map_copyCode {copies : List ArgumentCopy} {i NewAlloca : Nat} {ArgPointedTy : Ty}
    (h : ∀ copy ∈ copies, copy.arg ≠ i) :
    (copyCode getPrefTypeAlignment i NewAlloca ArgPointedTy).map
        (FrameInst.mapUses (FrameValue.copied copies)) =
      copyCode getPrefTypeAlignment i NewAlloca ArgPointedTy := by
  have hnone : copies.find? (fun copy => copy.arg = i) = none := by
    simpa [List.find?_eq_none] using h
  simp [copyCode, FrameInst.mapUses, FrameValue.copied, hnone]

theorem withCopies_nil : F.withCopies getPrefTypeAlignment [] = F := by
  simp [withCopies, copied_nil]

theorem withCopies_cons {copy : ArgumentCopy} {copies : List ArgumentCopy}
    (h : ∀ copy' ∈ copies, copy'.arg ≠ copy.arg) :
    (F.withCopies getPrefTypeAlignment [copy]).withCopies getPrefTypeAlignment copies =
      F.withCopies getPrefTypeAlignment (copy :: copies) := by
  have hfirst : FrameValue.copied [copy] = FrameValue.replace copy.arg copy.alloca := by
    rw [← copied_replace, copied_nil, Function.id_comp]
  have huses : FrameInst.mapUses (FrameValue.copied copies) ∘
      FrameInst.mapUses (FrameValue.copied [copy]) =
        FrameInst.mapUses (FrameValue.copied (copy :: copies)) := by
    funext I
    rw [Function.comp_apply, mapUses_mapUses, hfirst, copied_replace]
  simp only [withCopies, List.reverse_cons, List.reverse_nil, List.nil_append, List.flatMap_cons,
    List.flatMap_nil, List.append_nil, List.map_append, map_copyCode h, List.map_map, huses,
    List.flatMap_append, List.append_assoc, List.length_cons, List.length_nil, mk.injEq, true_and]
  refine ⟨List.map_congr_left fun b _ => ?_, by omega⟩
  rw [Function.comp_apply, List.map_map, huses]

theorem copyArgument_eq (Arg : Argument × Nat) : copyArgument getPrefTypeAlignment F Arg =
    F.withCopies getPrefTypeAlignment
      (if Arg.1.hasByValAttr && interestingType Arg.1.pointedType then
        [⟨Arg.2, Arg.1.pointedType, F.nextId⟩] else []) := by
  rw [copyArgument]
  split
  · have hfirst : FrameValue.copied [⟨Arg.2, Arg.1.pointedType, F.nextId⟩] =
        FrameValue.replace Arg.2 F.nextId := by
      rw [← copied_replace, copied_nil, Function.id_comp]
    simp [withCopies, hfirst, mapBlocks]
  · exact withCopies_nil.symm

theorem foldl_copyArgument {args : List (Argument × Nat)} (h : (args.map Prod.snd).Nodup) :
    args.foldl (copyArgument getPrefTypeAlignment) F =
      F.withCopies getPrefTypeAlignment (copiesOf F.nextId args) := by
  induction args generalizing F with
  | nil => exact withCopies_nil.symm
  | cons Arg rest ih =>
    obtain ⟨hArg, hrest⟩ := List.nodup_cons.mp h
    rw [List.foldl_cons, ih hrest, copyArgument_eq, copiesOf]
    split
    · refine withCopies_cons fun copy hcopy heq => hArg ?_
      have harg := arg_of_mem_copiesOf hcopy
      rwa [heq] at harg
    · rw [withCopies_nil]

/-- The loop over the arguments makes these copies. -/
theorem copyArguments_eq : F.copyArguments getPrefTypeAlignment =
    F.withCopies getPrefTypeAlignment F.copies := by
  refine foldl_copyArgument ?_
  rw [List.zipIdx_map_snd]
  exact List.nodup_range'

theorem mapBlocks_mapBlocks (g h : List FrameInst → List FrameInst) :
    (F.mapBlocks g).mapBlocks h = F.mapBlocks (h ∘ g) := by
  simp [mapBlocks]

theorem mem_allocas {AI : AllocaInst} : AI ∈ F.allocas ↔ .alloca AI ∈ F.insts := by
  simp [allocas, alloca?_eq_some]

/-- Where the allocas of the function have the same names, it is expanded in the same way. -/
theorem mapBlocks_congr {nameOf nameOf' : AllocaInst → Option String}
    (h : ∀ AI ∈ F.allocas, nameOf AI = nameOf' AI) :
    F.mapBlocks (·.flatMap (expandAlloca nameOf)) =
      F.mapBlocks (·.flatMap (expandAlloca nameOf')) := by
  have hblock (b : List FrameInst) (hb : b ⊆ F.insts) :
      b.flatMap (expandAlloca nameOf) = b.flatMap (expandAlloca nameOf') := by
    apply List.flatMap_congr
    intro I hI
    cases halloca : I.alloca? with
    | none => rw [expandAlloca_of_none halloca, expandAlloca_of_none halloca]
    | some AI =>
      obtain rfl := alloca?_eq_some.mp halloca
      rw [expandAlloca, expandAlloca, h AI (mem_allocas.mpr (hb hI))]
  simp only [mapBlocks, mk.injEq, true_and, and_true]
  refine ⟨hblock _ (List.subset_append_left _ _), List.map_congr_left fun b hb => hblock b ?_⟩
  exact fun I hI => List.mem_append_right _ (List.mem_flatten_of_mem hb hI)

end FunctionCode

/-- Another alloca gets its update. -/
theorem flatMap_trackInst {AI : AllocaInst} {name : String} {nameOf : AllocaInst → Option String}
    (hnone : ∀ AI', AI'.id = AI.id → nameOf AI' = none) (b : List FrameInst) :
    (b.flatMap (expandAlloca nameOf)).flatMap (trackInst AI name) =
      b.flatMap (expandAlloca fun AI' => if AI'.id = AI.id then some name else nameOf AI') := by
  rw [List.flatMap_assoc]
  apply List.flatMap_congr
  intro I hI
  cases halloca : I.alloca? with
  | none =>
    rw [expandAlloca_of_none halloca, expandAlloca_of_none halloca, List.flatMap_cons,
      trackInst_of_none halloca]
    rfl
  | some AI' =>
    obtain rfl := alloca?_eq_some.mp halloca
    by_cases hid : AI'.id = AI.id
    · simp [expandAlloca, hnone AI' hid, trackInst, hid]
    · cases hname : nameOf AI' with
      | none => simp [expandAlloca, hname, trackInst, hid]
      | some name' => simp [expandAlloca, hname, AllocaInst.track, trackInst, hid]

/-- The names that allocas have once these are instrumented. -/
def namesOf (functionName : String) (ids : List Nat) (AI : AllocaInst) : Option String :=
  if AI.id ∈ ids then some (allocName functionName (ids.idxOf AI.id)) else none

theorem flatMap_expandAlloca (functionName : String) (b : List FrameInst) :
    b.flatMap (expandAlloca (namesOf functionName [])) = b := by
  induction b with
  | nil => rfl
  | cons I b ih =>
    rw [List.flatMap_cons, ih]
    cases I <;> rfl

theorem namesOf_snoc {functionName : String} {ids : List Nat} {id : Nat} (h : id ∉ ids) :
    (fun AI => if AI.id = id then some (allocName functionName ids.length)
      else namesOf functionName ids AI) = namesOf functionName (ids ++ [id]) := by
  funext AI
  simp only [namesOf, List.mem_append, List.mem_singleton]
  by_cases hid : AI.id = id
  · simp [hid, List.idxOf_append_of_notMem h]
  · by_cases hmem : AI.id ∈ ids
    · simp [hid, hmem, List.idxOf_append_of_mem hmem]
    · simp [hid, hmem]

/-- What the loop over the tracked allocas has done after some of them. -/
def FramePass.After (F : FunctionCode) (trackedStack : Nat) (ids : List Nat) : FramePass where
  code := F.mapBlocks (·.flatMap (expandAlloca (namesOf F.name ids)))
  index := if ids = [] then none else some (ids.length - 1)
  trackedStack := trackedStack + ids.length

theorem instrumentAlloca_after {F : FunctionCode} {trackedStack : Nat} {ids : List Nat}
    {AI : AllocaInst} (h : AI.id ∉ ids) :
    instrumentAlloca (.After F trackedStack ids) AI = .After F trackedStack (ids ++ [AI.id]) := by
  have hindex : (match (FramePass.After F trackedStack ids).index with
      | some index => index + 1
      | none => 0) = ids.length := by
    cases ids with
    | nil => rfl
    | cons id ids => rfl
  have hnone (AI' : AllocaInst) (hid : AI'.id = AI.id) : namesOf F.name ids AI' = none := by
    rw [namesOf, hid, if_neg h]
  have hcode : (FramePass.After F trackedStack ids).code.mapBlocks
      (·.flatMap (trackInst AI (allocName F.name ids.length))) =
        (FramePass.After F trackedStack (ids ++ [AI.id])).code := by
    simp only [FramePass.After, FunctionCode.mapBlocks_mapBlocks, ← namesOf_snoc h]
    congr 1
    funext b
    exact flatMap_trackInst hnone b
  have hname : (FramePass.After F trackedStack ids).code.name = F.name := rfl
  simp only [instrumentAlloca, hindex, hname, hcode]
  simp [FramePass.After, Nat.add_assoc]

theorem foldl_instrumentAlloca {F : FunctionCode} {trackedStack : Nat} {ids : List Nat}
    {allocas : List AllocaInst} (h : (ids ++ allocas.map AllocaInst.id).Nodup) :
    allocas.foldl instrumentAlloca (.After F trackedStack ids) =
      .After F trackedStack (ids ++ allocas.map AllocaInst.id) := by
  induction allocas generalizing ids with
  | nil => simp
  | cons AI rest ih =>
    have hnot : AI.id ∉ ids := by
      intro hmem
      exact (List.nodup_append.mp h).2.2 _ hmem _ (List.mem_cons_self ..) rfl
    rw [List.foldl_cons, instrumentAlloca_after hnot, ih (by simpa using h)]
    simp

/-- A function before the pass. -/
structure SourceFunction extends FunctionCode where
  ids_lt : ∀ AI ∈ toFunctionCode.allocas, AI.id < nextId
  distinct : (toFunctionCode.allocas.map AllocaInst.id).Nodup
  untracked : ∀ AI ∈ toFunctionCode.allocas, AI.TrackedAlloca = false
  fresh : ∀ I ∈ toFunctionCode.insts, I.isUpdate = false

namespace FunctionCode

variable {getPrefTypeAlignment : Ty → Nat} {F : FunctionCode}

/-- Where no number is given twice, the loop over the tracked allocas puts an update behind each. -/
theorem foldl_trackedAllocas (h : (F.allocas.map AllocaInst.id).Nodup) (trackedStack : Nat) :
    F.trackedAllocas.foldl instrumentAlloca ⟨F, none, trackedStack⟩ =
      .After F trackedStack (F.trackedAllocas.map AllocaInst.id) ∧
    (FramePass.After F trackedStack (F.trackedAllocas.map AllocaInst.id)).code = F.tracked := by
  have hnodup : (F.trackedAllocas.map AllocaInst.id).Nodup :=
    h.sublist (List.filter_sublist.map _)
  constructor
  · have hstart : (⟨F, none, trackedStack⟩ : FramePass) = .After F trackedStack [] := by
      simp [FramePass.After, flatMap_expandAlloca, mapBlocks]
    rw [hstart]
    exact foldl_instrumentAlloca (by simpa using hnodup)
  · refine mapBlocks_congr fun AI hAI => ?_
    have hmem : AI.id ∈ F.trackedAllocas.map AllocaInst.id ↔ interestingType AI.AllocatedType := by
      constructor
      · intro hid
        obtain ⟨AI', hAI', heq⟩ := List.mem_map.mp hid
        obtain ⟨hAI', htype⟩ := List.mem_filter.mp hAI'
        rwa [List.inj_on_of_nodup_map h hAI' hAI heq] at htype
      · exact fun htype => List.mem_map_of_mem (List.mem_filter.mpr ⟨hAI, htype⟩)
    simp only [namesOf, nameOf, hmem]

theorem filterMap_copyCode (copies : List ArgumentCopy) :
    (copies.flatMap fun copy =>
      copyCode getPrefTypeAlignment copy.arg copy.alloca copy.type).filterMap FrameInst.alloca? =
      copies.map fun copy =>
        ⟨copy.alloca, copy.type, .constant 1, getPrefTypeAlignment copy.type, false⟩ := by
  induction copies with
  | nil => rfl
  | cons copy copies ih =>
    rw [List.flatMap_cons, List.filterMap_append, ih]
    rfl

theorem filterMap_mapUses (change : FrameValue → FrameValue) (b : List FrameInst) :
    (b.map (FrameInst.mapUses change)).filterMap FrameInst.alloca? =
      (b.filterMap FrameInst.alloca?).map fun AI =>
        { AI with ArraySize := change AI.ArraySize } := by
  rw [List.filterMap_map, List.map_filterMap]
  congr 1
  funext I
  cases I <;> rfl

theorem insts_withCopies (copies : List ArgumentCopy) :
    (F.withCopies getPrefTypeAlignment copies).insts =
      copies.reverse.flatMap
          (fun copy => copyCode getPrefTypeAlignment copy.arg copy.alloca copy.type) ++
        F.insts.map (FrameInst.mapUses (FrameValue.copied copies)) := by
  simp [insts, withCopies, List.map_flatten]

/-- The allocas of the copies are in front of those that there were. -/
theorem allocas_withCopies (copies : List ArgumentCopy) :
    (F.withCopies getPrefTypeAlignment copies).allocas =
      copies.reverse.map (fun copy =>
        ⟨copy.alloca, copy.type, .constant 1, getPrefTypeAlignment copy.type, false⟩) ++
      F.allocas.map (fun AI =>
        { AI with ArraySize := FrameValue.copied copies AI.ArraySize }) := by
  rw [allocas, insts_withCopies, List.filterMap_append, filterMap_copyCode, filterMap_mapUses, allocas]

theorem copiesOf_ids (nextId : Nat) (args : List (Argument × Nat)) :
    ((copiesOf nextId args).map ArgumentCopy.alloca).Nodup ∧
      ∀ copy ∈ copiesOf nextId args, nextId ≤ copy.alloca := by
  induction args generalizing nextId with
  | nil => simp [copiesOf]
  | cons Arg rest ih =>
    rw [copiesOf]
    split
    · obtain ⟨hnodup, hle⟩ := ih (nextId + 3)
      refine ⟨List.nodup_cons.mpr ⟨fun hmem => ?_, hnodup⟩, ?_⟩
      · obtain ⟨copy, hcopy, heq⟩ := List.mem_map.mp hmem
        have hcopy := hle copy hcopy
        simp only at heq
        omega
      · intro copy hcopy
        rcases List.mem_cons.mp hcopy with rfl | hcopy
        · exact Nat.le_refl _
        · have hcopy := hle copy hcopy
          omega
    · exact ih nextId

/-- No number is given twice. -/
theorem ids_withCopies (hlt : ∀ AI ∈ F.allocas, AI.id < F.nextId)
    (hnodup : (F.allocas.map AllocaInst.id).Nodup) :
    ((F.withCopies getPrefTypeAlignment F.copies).allocas.map AllocaInst.id).Nodup := by
  obtain ⟨hcopies, hle⟩ := copiesOf_ids F.nextId F.args.zipIdx
  have hids : (F.withCopies getPrefTypeAlignment F.copies).allocas.map AllocaInst.id =
      (F.copies.map ArgumentCopy.alloca).reverse ++ F.allocas.map AllocaInst.id := by
    simp [allocas_withCopies, Function.comp_def]
  rw [hids]
  refine List.Nodup.append (List.nodup_reverse.mpr hcopies) hnodup fun id hid hid' => ?_
  obtain ⟨copy, hcopy, rfl⟩ := List.mem_map.mp (List.mem_reverse.mp hid)
  obtain ⟨AI, hAI, heq⟩ := List.mem_map.mp hid'
  have hnew := hle copy hcopy
  have hold := hlt AI hAI
  omega

end FunctionCode

/-- What the pass makes of a function that may cast. -/
def SourceFunction.instrumented (getPrefTypeAlignment : Ty → Nat) (F : SourceFunction) :
    FunctionCode :=
  (F.withCopies getPrefTypeAlignment F.copies).tracked

/-- The two loops copy the arguments, and put one update behind each alloca of an interesting
type. -/
theorem SourceFunction.instrumentStack_eq (getPrefTypeAlignment : Ty → Nat) (F : SourceFunction)
    (trackedStack : Nat) :
    F.instrumentStack getPrefTypeAlignment trackedStack =
      (F.instrumented getPrefTypeAlignment, trackedStack +
        (F.withCopies getPrefTypeAlignment F.copies).trackedAllocas.length) := by
  have hids : ((F.withCopies getPrefTypeAlignment F.copies).allocas.map AllocaInst.id).Nodup :=
    FunctionCode.ids_withCopies F.ids_lt F.distinct
  obtain ⟨hloop, hcode⟩ := FunctionCode.foldl_trackedAllocas hids trackedStack
  simp only [FunctionCode.instrumentStack, FunctionCode.copyArguments_eq, hloop, hcode]
  simp [FramePass.After, SourceFunction.instrumented]

/-! The module. -/

namespace FunctionCode

def updateCount (F : FunctionCode) : Nat := F.insts.countP FrameInst.isUpdate

theorem insts_tracked (F : FunctionCode) :
    F.tracked.insts = F.insts.flatMap (expandAlloca F.nameOf) := by
  have hblocks (bs : List (List FrameInst)) :
      (bs.map fun b => b.flatMap (expandAlloca F.nameOf)).flatten =
        bs.flatten.flatMap (expandAlloca F.nameOf) := by
    induction bs with
    | nil => rfl
    | cons b bs ih => simp [ih, List.flatMap_append]
  simp only [insts, tracked, mapBlocks, hblocks, List.flatMap_append]

theorem countP_expandAlloca (F : FunctionCode) (I : FrameInst) :
    (expandAlloca F.nameOf I).countP FrameInst.isUpdate =
      (if (I.alloca?.any fun AI => interestingType AI.AllocatedType) then 1 else 0) +
        if I.isUpdate then 1 else 0 := by
  cases I with
  | alloca AI =>
    by_cases htype : interestingType AI.AllocatedType
    · simp [expandAlloca, nameOf, htype, AllocaInst.track, FrameInst.isUpdate, FrameInst.alloca?]
    · simp [expandAlloca, nameOf, htype, FrameInst.isUpdate, FrameInst.alloca?]
  | update u => rfl
  | pointerCast id V => rfl
  | memcpy Dst Src Size => rfl
  | call id canReturnTwice operands => rfl
  | other id opcode operands => rfl

theorem updateCount_tracked (F : FunctionCode) :
    F.tracked.updateCount = F.trackedAllocas.length + F.updateCount := by
  have hall (b : List FrameInst) : (b.flatMap (expandAlloca F.nameOf)).countP FrameInst.isUpdate =
      ((b.filterMap FrameInst.alloca?).filter fun AI => interestingType AI.AllocatedType).length +
        b.countP FrameInst.isUpdate := by
    induction b with
    | nil => rfl
    | cons I b ih =>
      rw [List.flatMap_cons, List.countP_append, countP_expandAlloca, ih, List.countP_cons]
      cases halloca : I.alloca? with
      | none =>
        rw [List.filterMap_cons_none halloca]
        simp
        omega
      | some AI =>
        rw [List.filterMap_cons_some halloca, List.filter_cons]
        by_cases htype : interestingType AI.AllocatedType
        · simp [htype]
          omega
        · simp [htype]
          omega
  rw [updateCount, insts_tracked, hall]
  rfl

end FunctionCode

namespace SourceFunction

variable (getPrefTypeAlignment : Ty → Nat) (F : SourceFunction)

theorem updateCount_eq : F.updateCount = 0 :=
  List.countP_eq_zero.mpr fun I hI => by simp [F.fresh I hI]

theorem updateCount_withCopies (copies : List ArgumentCopy) :
    (F.withCopies getPrefTypeAlignment copies).updateCount = 0 := by
  refine List.countP_eq_zero.mpr fun I hI => ?_
  rw [FunctionCode.insts_withCopies] at hI
  rcases List.mem_append.mp hI with hI | hI
  · obtain ⟨copy, -, hI⟩ := List.mem_flatMap.mp hI
    simp only [copyCode, List.mem_cons, List.not_mem_nil, or_false] at hI
    rcases hI with rfl | rfl | rfl | rfl <;> simp [FrameInst.isUpdate]
  · obtain ⟨I', hI', rfl⟩ := List.mem_map.mp hI
    have hfresh := F.fresh I' hI'
    cases I' <;> simp_all [FrameInst.mapUses, FrameInst.isUpdate]

/-- One update for each tracked alloca, and no other. -/
theorem updateCount_instrumented : (F.instrumented getPrefTypeAlignment).updateCount =
    (F.withCopies getPrefTypeAlignment F.copies).trackedAllocas.length := by
  rw [instrumented, FunctionCode.updateCount_tracked, updateCount_withCopies, Nat.add_zero]

end SourceFunction

section Module

variable {Fn : Type} [DecidableEq Fn] {CG : CallGraph Fn} {getPrefTypeAlignment : Ty → Nat}
  {code : Fn → SourceFunction} {done : List Fn} {st : StackPass Fn} {F : Fn}

/-- What the pass may have done to a function: it is instrumented, or as it was where it is no
function of the program with code, or one that reaches no cast. -/
def StackPass.Outcome (CG : CallGraph Fn) (getPrefTypeAlignment : Ty → Nat)
    (code : Fn → SourceFunction) (st : StackPass Fn) (F : Fn) : Prop :=
  st.code F = (code F).instrumented getPrefTypeAlignment ∨
    st.code F = (code F).toFunctionCode ∧ (CG.Queried F → ¬ CG.ReachesCast F)

/-- What holds between two functions, once some have been visited. -/
structure StackPass.Inv (CG : CallGraph Fn) (getPrefTypeAlignment : Ty → Nat)
    (code : Fn → SourceFunction) (done : List Fn) (st : StackPass Fn) : Prop where
  sound : CG.Sound st.mayCastMap
  pending : ∀ F, F ∉ done → st.code F = (code F).toFunctionCode
  outcome : ∀ F ∈ done, st.Outcome CG getPrefTypeAlignment code F
  count : st.trackedStack = (done.map fun F => (st.code F).updateCount).sum

omit [DecidableEq Fn] in
theorem StackPass.Inv.skip (h : st.Inv CG getPrefTypeAlignment code done) (hF : F ∉ done)
    {mayCastMap : Fn → Option Bool} (hsound : CG.Sound mayCastMap)
    (hskip : CG.Queried F → ¬ CG.ReachesCast F) :
    ({ st with mayCastMap } : StackPass Fn).Inv CG getPrefTypeAlignment code (done ++ [F]) where
  sound := hsound
  pending G hG := h.pending G fun hmem => hG (List.mem_append_left _ hmem)
  outcome G hG := by
    rcases List.mem_append.mp hG with hG | hG
    · exact h.outcome G hG
    · obtain rfl := List.mem_singleton.mp hG
      exact Or.inr ⟨h.pending G hF, hskip⟩
  count := by
    simp [h.count, h.pending F hF, SourceFunction.updateCount_eq]

theorem StackPass.Inv.instrument (h : st.Inv CG getPrefTypeAlignment code done) (hF : F ∉ done) :
    (st.instrument getPrefTypeAlignment F).Inv CG getPrefTypeAlignment code (done ++ [F]) := by
  have heq : st.instrument getPrefTypeAlignment F =
      { st with
        code := Function.update st.code F ((code F).instrumented getPrefTypeAlignment)
        trackedStack := st.trackedStack +
          ((code F).instrumented getPrefTypeAlignment).updateCount } := by
    simp only [StackPass.instrument, h.pending F hF, SourceFunction.instrumentStack_eq,
      SourceFunction.updateCount_instrumented]
  have hother (G : Fn) (hG : G ≠ F) :
      (st.instrument getPrefTypeAlignment F).code G = st.code G := by
    rw [heq]
    exact Function.update_of_ne hG _ _
  have hsame : (st.instrument getPrefTypeAlignment F).code F =
      (code F).instrumented getPrefTypeAlignment := by
    rw [heq]
    exact Function.update_self ..
  refine ⟨?_, fun G hG => ?_, fun G hG => ?_, ?_⟩
  · rw [heq]
    exact h.sound
  · simp only [List.mem_append, List.mem_singleton, not_or] at hG
    rw [hother G hG.2, h.pending G hG.1]
  · rcases List.mem_append.mp hG with hG | hG
    · rw [Outcome, hother G fun hGF => hF (hGF ▸ hG)]
      exact h.outcome G hG
    · obtain rfl := List.mem_singleton.mp hG
      exact Or.inl hsame
  · have hdone : done.map (fun G => ((st.instrument getPrefTypeAlignment F).code G).updateCount) =
        done.map fun G => (st.code G).updateCount := by
      refine List.map_congr_left fun G hG => ?_
      rw [hother G fun hGF => hF (hGF ▸ hG)]
    rw [List.map_append, List.sum_append, hdone, ← h.count]
    simp only [List.map_cons, List.map_nil, List.sum_cons, List.sum_nil, hsame]
    rw [heq]
    rfl

variable [Fintype Fn] (junk : Search Fn → Fn → Bool) (disableStackOpt : Bool)

theorem StackPass.Inv.step (h : st.Inv CG getPrefTypeAlignment code done) (hF : F ∉ done) :
    ∃ st', CG.instrumentFunction getPrefTypeAlignment junk disableStackOpt st F = some st' ∧
      st'.Inv CG getPrefTypeAlignment code (done ++ [F]) := by
  unfold CallGraph.instrumentFunction
  split
  · rename_i hcode
    refine ⟨st, rfl, h.skip hF h.sound fun hqueried => ?_⟩
    simp [hqueried.1, hqueried.2] at hcode
  · split
    · exact ⟨_, rfl, h.instrument hF⟩
    · obtain ⟨r, hr⟩ := CG.query_answers junk st.mayCastMap F
      have hp := CallGraph.mayCast_promise (s := ⟨st.mayCastMap, ∅⟩) h.sound hr
      have hsound := CallGraph.sound_cache (F := F) hp.sound hp.noCast
      refine ⟨_, by rw [hr]; rfl, ?_⟩
      cases hresult : r.result with
      | true =>
        rw [hresult] at hsound
        have hcached : ({ st with mayCastMap := (r.search.cache F true).mayCastMap } :
            StackPass Fn).Inv CG getPrefTypeAlignment code done :=
          ⟨hsound, h.pending, h.outcome, h.count⟩
        exact hcached.instrument hF
      | false =>
        rw [hresult] at hsound
        exact h.skip hF hsound fun _ => hp.noCast hresult

/-- The loop over the functions. -/
theorem instrumentStacks_inv (CG : CallGraph Fn) (getPrefTypeAlignment : Ty → Nat)
    (code : Fn → SourceFunction) {order : List Fn} (horder : order.Nodup) :
    ∃ st, CG.instrumentStacks getPrefTypeAlignment junk disableStackOpt order
        (fun F => (code F).toFunctionCode) = some st ∧
      st.Inv CG getPrefTypeAlignment code order := by
  have hloop (rest : List Fn) : ∀ done (st : StackPass Fn), (done ++ rest).Nodup →
      st.Inv CG getPrefTypeAlignment code done →
      ∃ st', rest.foldlM (CG.instrumentFunction getPrefTypeAlignment junk disableStackOpt) st =
        some st' ∧ st'.Inv CG getPrefTypeAlignment code (done ++ rest) := by
    induction rest with
    | nil => exact fun done st _ h => ⟨st, rfl, by simpa using h⟩
    | cons F rest ih =>
      intro done st hnodup h
      have hF : F ∉ done := fun hF =>
        (List.nodup_append.mp hnodup).2.2 F hF F (List.mem_cons_self ..) rfl
      obtain ⟨st₁, h₁, hst₁⟩ := h.step junk disableStackOpt hF
      obtain ⟨st', h', hst'⟩ := ih (done ++ [F]) st₁ (by simpa using hnodup) hst₁
      exact ⟨st', by simp [List.foldlM_cons, h₁, h'], by simpa using hst'⟩
  exact hloop order [] ⟨fun _ => none, fun F => (code F).toFunctionCode, 0⟩
    (by simpa using horder) ⟨by simp [CallGraph.Sound], fun _ _ => rfl, by simp, rfl⟩

/-- In whatever order the functions are visited, those that reach a cast have their arguments copied
and one update behind each tracked alloca, and the others may be left as they were. The counter
counts the updates. -/
theorem instrumentStacks_outcome (CG : CallGraph Fn) (getPrefTypeAlignment : Ty → Nat)
    (code : Fn → SourceFunction) {order : List Fn} (horder : order.Nodup) :
    ∃ st, CG.instrumentStacks getPrefTypeAlignment junk disableStackOpt order
        (fun F => (code F).toFunctionCode) = some st ∧
      (∀ F ∈ order, st.Outcome CG getPrefTypeAlignment code F) ∧
      (∀ F, F ∉ order → st.code F = (code F).toFunctionCode) ∧
      st.trackedStack = (order.map fun F => (st.code F).updateCount).sum := by
  obtain ⟨st, hst, hinv⟩ :=
    instrumentStacks_inv junk disableStackOpt CG getPrefTypeAlignment code horder
  exact ⟨st, hst, hinv.outcome, hinv.pending, hinv.count⟩

end Module

/-! A function that calls through a pointer, with an argument to copy and an array of two. -/

namespace OneCopy

def A : StructType := ⟨some "trackedtype.A", false, [.scalar 8 3]⟩

def function : SourceFunction where
  name := "f"
  args := [⟨false, .scalar 4 2⟩, ⟨true, A.ty⟩]
  entry := [.alloca ⟨0, A.ty, .constant 2, 8, false⟩, .call 1 false [.argument 1, .result 0]]
  blocks := [[.other 2 0 [.argument 0]]]
  nextId := 3
  ids_lt := by decide
  distinct := by decide
  untracked := by decide
  fresh := by decide

def callGraph : CallGraph Unit where
  getName _ := "f"
  isDeclaration _ := false
  hasCode _ := true
  records _ := [none]

theorem queried : callGraph.Queried () := by
  exact ⟨rfl, by decide⟩

theorem reachesCast : callGraph.ReachesCast () :=
  ⟨(), .refl, Or.inr (Or.inl (by decide))⟩

end OneCopy

open OneCopy in
theorem instrumentStacks_outcome_of_copy :
    ∃ st, callGraph.instrumentStacks (fun _ => 8) (fun _ _ => true) false [()]
        (fun _ => function.toFunctionCode) = some st ∧
      st.code () = function.instrumented (fun _ => 8) ∧ st.trackedStack = 2 := by
  obtain ⟨st, hst, houtcome, -, hcount⟩ := instrumentStacks_outcome (fun _ _ => true) false
    callGraph (fun _ => 8) (fun _ => function) (List.nodup_singleton ())
  refine ⟨st, hst, ?_⟩
  rcases houtcome () (List.mem_singleton_self ()) with hcode | ⟨-, hnot⟩
  · refine ⟨hcode, ?_⟩
    rw [hcount, List.map_singleton, List.sum_singleton, hcode]
    decide
  · exact absurd reachesCast (hnot queried)

end TypeSan
