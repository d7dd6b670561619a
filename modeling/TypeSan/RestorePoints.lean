import Mathlib.Logic.Relation
import TypeSan.Library.Runs

/-! The saved pointer of restore points in functions without tracked allocas. -/
namespace TypeSan

open Relation Runs

/-- `setjmp` is a call that returns twice; the other calls may be to `longjmp`. -/
inductive FlowKind where
  | setjmp
  | call
  | other
  deriving DecidableEq

/-- An instruction, with those that control may reach next. -/
structure FlowInst where
  kind : FlowKind
  next : List Nat
  deriving DecidableEq

/-- The instructions of a function, in the order of `instructions(&F)`. The first one is its
entry. -/
structure FlowGraph where
  instructions : List FlowInst

/-- What `createStackRestorePoints` inserts: the load in front of a restore point, and the stores
of what it loads, each behind one. -/
structure RestoreCode where
  StaticTop : Option Nat
  stores : List Nat
  deriving DecidableEq

/-- The loop of `createStackRestorePoints` in a function without tracked allocas. -/
def createStackRestorePoints (StackRestorePoints : List Nat) : RestoreCode :=
  StackRestorePoints.foldl
    (fun code I =>
      { StaticTop := match code.StaticTop with
          | none => some I
          | some load => some load
        stores := code.stores ++ [I] })
    ⟨none, []⟩

namespace FlowGraph

variable (F : FlowGraph)

def kindOf (i : Nat) : Option FlowKind := F.instructions[i]?.map FlowInst.kind

def nextOf (i : Nat) : List Nat := (F.instructions[i]?.map FlowInst.next).getD []

/-- The restore points that `findInsts` collects. -/
def StackRestorePoints : List Nat :=
  (List.range F.instructions.length).filter fun i => F.kindOf i = some .setjmp

def restoreCode : RestoreCode := createStackRestorePoints F.StackRestorePoints

end FlowGraph

/-- An activation of the function. `returned` means that the restore point at `pc` has returned, so
that its store is next. Not part of the program: the restore points that have been called, each with
the tracked stack pointer just before its first call. -/
structure RestoreState where
  pc : Nat
  returned : Bool
  pointer : Nat
  StaticTop : Option Nat
  called : List (Nat × Nat)
  deriving DecidableEq

/-- An instruction with the one that follows. A call says where it leaves the pointer, and so does a
`longjmp` in it, which returns from a restore point again. -/
inductive RestoreAction where
  | run (next : Nat)
  | call (pointer next : Nat)
  | setjmp
  | restore (next : Nat)
  | longjmp (target pointer : Nat)
  deriving DecidableEq

namespace FlowGraph

variable (F : FlowGraph)

def init (pointer : Nat) : RestoreState := ⟨0, false, pointer, none, []⟩

def step (s : RestoreState) : RestoreAction → Option RestoreState
  | .run next =>
    if s.returned = false ∧ F.kindOf s.pc = some .other ∧ next ∈ F.nextOf s.pc then
      some { s with pc := next }
    else none
  | .call pointer next =>
    if s.returned = false ∧ F.kindOf s.pc = some .call ∧ next ∈ F.nextOf s.pc then
      some { s with pc := next, pointer }
    else none
  | .setjmp =>
    if s.returned = false ∧ F.kindOf s.pc = some .setjmp then
      some { s with
        returned := true
        StaticTop := if F.restoreCode.StaticTop = some s.pc then some s.pointer else s.StaticTop
        called := if (s.called.lookup s.pc).isSome then s.called
          else (s.pc, s.pointer) :: s.called }
    else none
  | .restore next =>
    if s.returned ∧ s.pc ∈ F.restoreCode.stores ∧ next ∈ F.nextOf s.pc then
      s.StaticTop.map fun pointer => { s with pc := next, returned := false, pointer }
    else none
  | .longjmp target pointer =>
    if s.returned = false ∧ F.kindOf s.pc = some .call ∧ (s.called.lookup target).isSome then
      some { s with pc := target, returned := true, pointer }
    else none

end FlowGraph

/-- The pointer that is stored next has been loaded, and it is the one before the first call. -/
def RestoreState.Available (s : RestoreState) : Prop :=
  s.returned = true → ∃ pointer, s.StaticTop = some pointer ∧ s.called.lookup s.pc = some pointer

/-- A call leaves the tracked stack pointer where it found it. -/
def RestoreState.Balanced (s : RestoreState) : RestoreAction → Prop
  | .call pointer _ => pointer = s.pointer
  | _ => True

namespace FlowGraph

variable (F : FlowGraph)

/-- A path leads from the entry to an instruction, through none that has the load in front. -/
def PathWithoutLoad (i : Nat) : Prop :=
  ReflTransGen (fun i j => F.restoreCode.StaticTop ≠ some i ∧ j ∈ F.nextOf i) 0 i

/-- The first restore point, in the order of the instructions, dominates the others that can be
reached. -/
def FirstDominates : Prop :=
  ∀ i ∈ F.StackRestorePoints, F.PathWithoutLoad i → F.StackRestorePoints.head? = some i

variable {F} {s t : RestoreState} {pointer : Nat}

theorem createStackRestorePoints_eq (points : List Nat) :
    createStackRestorePoints points = ⟨points.head?, points⟩ := by
  have hfold : ∀ (points : List Nat) (code : RestoreCode), points.foldl
      (fun code I =>
        { StaticTop := match code.StaticTop with
            | none => some I
            | some load => some load
          stores := code.stores ++ [I] }) code =
      { StaticTop := code.StaticTop.or points.head?, stores := code.stores ++ points } := by
    intro points
    induction points with
    | nil => simp
    | cons I rest ih =>
      intro code
      rw [List.foldl_cons, ih]
      cases code.StaticTop <;> simp
  exact hfold points ⟨none, []⟩

theorem restoreCode_eq : F.restoreCode = ⟨F.StackRestorePoints.head?, F.StackRestorePoints⟩ :=
  createStackRestorePoints_eq _

theorem mem_stackRestorePoints {i : Nat} :
    i ∈ F.StackRestorePoints ↔ F.kindOf i = some .setjmp := by
  simp only [StackRestorePoints, List.mem_filter, List.mem_range, decide_eq_true_eq,
    and_iff_right_iff_imp]
  intro h
  by_contra hlt
  simp [kindOf, List.getElem?_eq_none (Nat.le_of_not_lt hlt)] at h

/-- The instruction behind the load is a restore point. -/
theorem kindOf_load {i : Nat} (h : F.restoreCode.StaticTop = some i) :
    F.kindOf i = some .setjmp := by
  rw [restoreCode_eq] at h
  exact mem_stackRestorePoints.mp (List.mem_of_head? h)

/-! Where the first restore point dominates. -/

/-- What holds in an activation that was entered with this pointer. -/
structure Saved (F : FlowGraph) (pointer : Nat) (s : RestoreState) : Prop where
  current : s.returned = false → s.pointer = pointer
  loaded : ∀ v, s.StaticTop = some v → v = pointer
  called : ∀ i v, s.called.lookup i = some v → v = pointer ∧ s.StaticTop ≠ none
  returned : s.returned = true → (s.called.lookup s.pc).isSome
  path : s.StaticTop = none → F.PathWithoutLoad s.pc

theorem Saved.available (h : F.Saved pointer s) : s.Available := by
  intro hreturned
  obtain ⟨v, hv⟩ := Option.isSome_iff_exists.mp (h.returned hreturned)
  obtain ⟨rfl, hloaded⟩ := h.called s.pc v hv
  obtain ⟨w, hw⟩ := Option.ne_none_iff_exists'.mp hloaded
  exact ⟨v, by rw [hw, h.loaded w hw], hv⟩

theorem saved_init : F.Saved pointer (init pointer) where
  current _ := rfl
  loaded v hv := by cases hv
  called i v hv := by simp [init] at hv
  returned h := by cases h
  path _ := .refl

/-- An instruction that is no restore point leads on. -/
theorem Saved.next {next : Nat} (h : F.Saved pointer s) (hreturned : s.returned = false)
    (hkind : F.kindOf s.pc ≠ some .setjmp) (hnext : next ∈ F.nextOf s.pc) :
    F.Saved pointer { s with pc := next } where
  current := h.current
  loaded := h.loaded
  called := h.called
  returned htrue := by
    rw [hreturned] at htrue
    cases htrue
  path hnone := (h.path hnone).tail ⟨fun hload => hkind (kindOf_load hload), hnext⟩

theorem Saved.setjmp (hdom : F.FirstDominates) (h : F.Saved pointer s)
    (hs : F.step s .setjmp = some t) : F.Saved pointer t := by
  simp only [step, Option.ite_none_right_eq_some, Option.some.injEq] at hs
  obtain ⟨⟨hreturned, hkind⟩, rfl⟩ := hs
  have hpointer := h.current hreturned
  have hloaded : (if F.restoreCode.StaticTop = some s.pc then some s.pointer else s.StaticTop) =
      some pointer := by
    split
    · rw [hpointer]
    · rename_i hno
      cases hv : s.StaticTop with
      | some v => rw [h.loaded v hv]
      | none =>
        rw [restoreCode_eq] at hno
        exact (hno (hdom s.pc (mem_stackRestorePoints.mpr hkind) (h.path hv))).elim
  refine ⟨fun hfalse => (by cases hfalse), fun v hv => ?_, fun i v hv => ⟨?_, ?_⟩, fun _ => ?_,
    fun hnone => ?_⟩
  · exact Option.some.inj (hv.symm.trans hloaded)
  · simp only at hv
    split at hv
    · exact (h.called i v hv).1
    · rw [List.lookup_cons] at hv
      split at hv
      · exact (Option.some.inj hv).symm.trans hpointer
      · exact (h.called i v hv).1
  · simp [hloaded]
  · simp only
    split
    · assumption
    · simp
  · rw [hloaded] at hnone
    cases hnone

theorem Saved.restore {next : Nat} (h : F.Saved pointer s)
    (hs : F.step s (.restore next) = some t) : F.Saved pointer t := by
  simp only [step, Option.ite_none_right_eq_some] at hs
  obtain ⟨-, hs⟩ := hs
  obtain ⟨v, hv, rfl⟩ := Option.map_eq_some_iff.mp hs
  refine ⟨fun _ => h.loaded v hv, h.loaded, h.called, fun hfalse => (by cases hfalse),
    fun hnone => ?_⟩
  rw [hv] at hnone
  cases hnone

theorem Saved.longjmp {target p : Nat} (h : F.Saved pointer s)
    (hs : F.step s (.longjmp target p) = some t) : F.Saved pointer t := by
  simp only [step, Option.ite_none_right_eq_some, Option.some.injEq] at hs
  obtain ⟨⟨-, -, hcalled⟩, rfl⟩ := hs
  obtain ⟨v, hv⟩ := Option.isSome_iff_exists.mp hcalled
  exact ⟨fun hfalse => (by cases hfalse), h.loaded, h.called, fun _ => hcalled,
    fun hnone => ((h.called target v hv).2 hnone).elim⟩

theorem Saved.step (hdom : F.FirstDominates) {a : RestoreAction} (h : F.Saved pointer s)
    (hok : s.Balanced a) (hs : F.step s a = some t) : F.Saved pointer t := by
  cases a with
  | run next =>
    simp only [FlowGraph.step, Option.ite_none_right_eq_some, Option.some.injEq] at hs
    obtain ⟨⟨hreturned, hkind, hnext⟩, rfl⟩ := hs
    exact h.next hreturned (by simp [hkind]) hnext
  | call p next =>
    simp only [FlowGraph.step, Option.ite_none_right_eq_some, Option.some.injEq] at hs
    obtain ⟨⟨hreturned, hkind, hnext⟩, rfl⟩ := hs
    rw [RestoreState.Balanced] at hok
    subst hok
    exact h.next hreturned (by simp [hkind]) hnext
  | setjmp => exact h.setjmp hdom hs
  | restore next => exact h.restore hs
  | longjmp target p => exact h.longjmp hs

/-! Where it does not. -/

/-- A restore point without the load in front has nothing to store, if nothing was loaded before. -/
theorem setjmp_unavailable (hreturned : s.returned = false) (hkind : F.kindOf s.pc = some .setjmp)
    (hload : F.restoreCode.StaticTop ≠ some s.pc) (hnone : s.StaticTop = none) :
    ∃ t, F.step s .setjmp = some t ∧ t.StaticTop = none ∧ ¬ t.Available := by
  simp only [step, if_pos (And.intro hreturned hkind), if_neg hload, hnone, Option.some.injEq,
    exists_eq_left', true_and]
  intro havailable
  obtain ⟨v, hv, -⟩ := havailable rfl
  cases hv

/-- A path without the load can be run, up to a store that has nothing to store. -/
theorem run_path (pointer : Nat) {i : Nat} (hpath : F.PathWithoutLoad i) :
    ∃ as s, Guarded F.step RestoreState.Balanced (init pointer) as ∧
      exec F.step (init pointer) as = some s ∧ s.StaticTop = none ∧
      (s.pc = i ∧ s.returned = false ∨ ¬ s.Available) := by
  induction hpath with
  | refl => exact ⟨[], init pointer, guarded_nil, rfl, rfl, Or.inl ⟨rfl, rfl⟩⟩
  | @tail j k _ hedge ih =>
    obtain ⟨hload, hnext⟩ := hedge
    obtain ⟨as, s, hok, has, hnone, ⟨rfl, hreturned⟩ | hbad⟩ := ih
    · have hkind : F.kindOf s.pc ≠ none := by
        intro hno
        rw [kindOf, Option.map_eq_none_iff] at hno
        simp [nextOf, hno] at hnext
      obtain ⟨kind, hkind⟩ := Option.ne_none_iff_exists'.mp hkind
      cases kind with
      | other =>
        have hrun : F.step s (.run k) = some { s with pc := k } :=
          if_pos ⟨hreturned, hkind, hnext⟩
        exact ⟨as ++ [.run k], { s with pc := k }, guarded_snoc hok (by simp [RestoreState.Balanced]),
          (exec_snoc has).trans hrun, hnone, Or.inl ⟨rfl, hreturned⟩⟩
      | call =>
        have hcall : F.step s (.call s.pointer k) = some { s with pc := k } :=
          if_pos ⟨hreturned, hkind, hnext⟩
        refine ⟨as ++ [.call s.pointer k], { s with pc := k }, guarded_snoc hok fun t ht => ?_,
          (exec_snoc has).trans hcall, hnone, Or.inl ⟨rfl, hreturned⟩⟩
        obtain rfl := Option.some.inj (has.symm.trans ht)
        rfl
      | setjmp =>
        obtain ⟨t, ht, hnone', hbad⟩ := setjmp_unavailable hreturned hkind hload hnone
        exact ⟨as ++ [.setjmp], t, guarded_snoc hok (by simp [RestoreState.Balanced]),
          (exec_snoc has).trans ht, hnone', Or.inr hbad⟩
    · exact ⟨as, s, hok, has, hnone, Or.inr hbad⟩

/-- Every store behind a restore point has its pointer, and this is the one before the restore
point was first called, in all runs whose calls are balanced, exactly if the first restore point
dominates the others. -/
theorem restoresAvailable_iff (F : FlowGraph) :
    (∀ pointer as s, Guarded F.step RestoreState.Balanced (init pointer) as →
      Visits F.step (init pointer) as s → s.Available) ↔ F.FirstDominates := by
  constructor
  · intro h i hi hpath
    obtain ⟨as, s, hok, has, hnone, ⟨rfl, hreturned⟩ | hbad⟩ := run_path 0 hpath
    · by_contra hfirst
      have hload : F.restoreCode.StaticTop ≠ some s.pc := by rwa [restoreCode_eq]
      obtain ⟨t, ht, -, hbad⟩ :=
        setjmp_unavailable hreturned (mem_stackRestorePoints.mp hi) hload hnone
      exact hbad (h 0 (as ++ [.setjmp]) t (guarded_snoc hok (by simp [RestoreState.Balanced]))
        (visits_last ((exec_snoc has).trans ht)))
    · exact (hbad (h 0 as s hok (visits_last has))).elim
  · intro hdom pointer as s hok hs
    exact (visits_invariant (I := F.Saved pointer) saved_init
      (fun _ _ _ hinv hok hs => hinv.step hdom hok hs) hok hs).available

/-- Two branches, each with a `setjmp`. -/
def twoBranches : FlowGraph where
  instructions := [⟨.other, [1, 2]⟩, ⟨.setjmp, [3]⟩, ⟨.setjmp, [3]⟩, ⟨.call, []⟩]

theorem restoresAvailable_fails_in_second_branch :
    ∃ s, exec twoBranches.step (init 0x10000) [.run 2, .setjmp] = some s ∧ s.returned = true ∧
      s.StaticTop = none :=
  ⟨_, rfl, rfl, rfl⟩

end FlowGraph

end TypeSan
