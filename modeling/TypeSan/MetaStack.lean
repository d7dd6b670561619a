import TypeSan.Library.Rounding
import TypeSan.Library.Runs

/-! The tracked stack pointer in functions that MetaStack has instrumented. -/
namespace TypeSan

open Rounding Runs

/-- `MetaStack::StackAlignment` -/
def StackAlignment : Nat := 64

/-- What `findInsts` collects in a function: the tracked static allocas with their size and
alignment, whether there are tracked dynamic ones, and whether there are stack restore points. A
restore point is a call that returns twice. -/
structure TrackedFunction where
  StaticAllocas : List (Nat × Nat)
  DynamicAllocas : Bool
  StackRestorePoints : Bool
  deriving DecidableEq

namespace TrackedFunction

variable (F : TrackedFunction)

/-- The function loads its base pointer, and stores it back before it returns. -/
def hasBasePointer : Bool := F.StaticAllocas ≠ [] || F.DynamicAllocas

def maxAlignment : Nat := F.StaticAllocas.foldl (fun MaxAlignment AI => max MaxAlignment AI.2)
  StackAlignment

/-- `StaticOffset` after all static allocas. -/
def staticOffset : Nat :=
  alignTo (F.StaticAllocas.foldl
    (fun StaticOffset AI => alignTo (StaticOffset + max 1 AI.1) (max AI.2 StackAlignment)) 0)
    StackAlignment

/-- A 32-bit constant `-offset`, extended to 64 bits. -/
def negOffset (offset : Nat) : Nat :=
  let bits := (2 ^ 32 - offset % 2 ^ 32) % 2 ^ 32
  if bits < 2 ^ 31 then bits else bits + (2 ^ 64 - 2 ^ 32)

/-- The base pointer of the static allocas, which is aligned again for one that needs more than the
stack does. -/
def alignedBase (BasePointer : Nat) : Nat :=
  if StackAlignment < F.maxAlignment then BasePointer - BasePointer % F.maxAlignment
  else BasePointer

/-- `moveStaticAllocasToUnsafeStack`: the top of the stack behind the static allocas. -/
def staticTop (BasePointer : Nat) : Nat :=
  if F.StaticAllocas = [] then BasePointer
  else (F.alignedBase BasePointer + negOffset F.staticOffset) % 2 ^ 64

end TrackedFunction

/-- A call that has not returned. `DynamicTop` and `StaticTop` are the variables of the restore
points, `saved` the results of `stacksave`. Not part of the program: the pointer before the call
that the activation is waiting for, how many dynamic objects are live, also at each `stacksave`, and
whether a `stackrestore` has run since the last dynamic alloca. -/
structure Activation where
  fn : TrackedFunction
  BasePointer : Nat
  StaticTop : Option Nat
  DynamicTop : Option Nat
  saved : List (Nat × Nat)
  atCall : Nat
  liveDynamic : Nat
  restored : Bool
  deriving DecidableEq

/-- The tracked stack pointer and the activations, the running one first. `completed` is the pointer
before the call that the last step completed, if it completed one. -/
structure TrackedStack where
  pointer : Nat
  activations : List Activation
  completed : Option Nat
  deriving DecidableEq

/-- What the running activation does. A `throw` ends so many activations and is caught in a landing
pad of the next one. A `setjmp` is a call to a restore point; of those in a function without
tracked allocas, only the `first` one loads the pointer, and `undef` is what a store behind a restore
point finds that the load has not been executed for. -/
inductive StackAction where
  | call (fn : TrackedFunction)
  | ret
  | throw (unwound : Nat)
  | dynamicAlloca (bytes align : Nat)
  | stacksave
  | stackrestore (i : Nat)
  | setjmp (first : Bool) (undef : Nat)
  deriving DecidableEq

namespace TrackedStack

/-- A thread that has entered no instrumented function. -/
def init (pointer : Nat) : TrackedStack := ⟨pointer, [], none⟩

/-- The prologue that `runOnFunction` inserts. -/
def enter (F : TrackedFunction) (pointer : Nat) : Activation where
  fn := F
  BasePointer := pointer
  StaticTop := if F.hasBasePointer then some (F.staticTop pointer) else none
  DynamicTop :=
    if F.StackRestorePoints ∧ F.DynamicAllocas then some (F.staticTop pointer) else none
  saved := []
  atCall := pointer
  liveDynamic := 0
  restored := false

/-- A call: the caller waits, the callee runs its prologue. -/
def call (s : TrackedStack) (F : TrackedFunction) : TrackedStack where
  pointer := F.staticTop s.pointer
  activations :=
    enter F s.pointer ::
      match s.activations with
      | [] => []
      | f :: rest => { f with atCall := s.pointer } :: rest
  completed := none

/-- A return: the epilogue stores the base pointer, where there is one. -/
def ret (s : TrackedStack) : Option TrackedStack :=
  match s.activations with
  | [] => none
  | f :: rest =>
    some
      { pointer := if f.fn.hasBasePointer then f.BasePointer else s.pointer
        activations := rest
        completed := rest.head?.map (·.atCall) }

/-- An exception: the unwinder runs no epilogue, and a landing pad is no restore point. Code that is
not instrumented throws, so with nothing unwound the running activation's call ends at once. -/
def throw (s : TrackedStack) (unwound : Nat) : Option TrackedStack :=
  match s.activations.drop unwound with
  | [] => none
  | f :: rest =>
    some
      { s with
        activations := f :: rest
        completed := some (if unwound = 0 then s.pointer else f.atCall) }

/-- `moveDynamicAllocasToUnsafeStack`, at an alloca. -/
def dynamicAlloca (s : TrackedStack) (bytes align : Nat) : Option TrackedStack :=
  match s.activations with
  | [] => none
  | f :: rest =>
    if f.fn.DynamicAllocas then
      let SP := (s.pointer + (2 ^ 64 - bytes % 2 ^ 64)) % 2 ^ 64
      let Align := max align StackAlignment
      let NewTop := SP - SP % Align
      some
        { pointer := NewTop
          activations :=
            { f with
              DynamicTop := f.DynamicTop.map fun _ => NewTop
              liveDynamic := f.liveDynamic + 1
              restored := false } :: rest
          completed := none }
    else none

/-- `stacksave`, which only a function with tracked dynamic allocas applies to the tracked stack. -/
def stacksave (s : TrackedStack) : Option TrackedStack :=
  match s.activations with
  | [] => none
  | f :: rest =>
    if f.fn.DynamicAllocas then
      some
        { s with
          activations := { f with saved := f.saved ++ [(s.pointer, f.liveDynamic)] } :: rest
          completed := none }
    else some { s with completed := none }

/-- `stackrestore` of the result of a `stacksave`. -/
def stackrestore (s : TrackedStack) (i : Nat) : Option TrackedStack :=
  match s.activations with
  | [] => none
  | f :: rest =>
    if f.fn.DynamicAllocas then
      f.saved[i]?.map fun (pointer, liveDynamic) =>
        { pointer
          activations := { f with liveDynamic, restored := true } :: rest
          completed := none }
    else some { s with completed := none }

/-- `createStackRestorePoints`, at a restore point: the pointer is stored again after the call. -/
def setjmp (s : TrackedStack) (first : Bool) (undef : Nat) : Option TrackedStack :=
  match s.activations with
  | [] => none
  | f :: rest =>
    if f.fn.StackRestorePoints then
      let StaticTop := if !f.fn.hasBasePointer && first then some s.pointer else f.StaticTop
      some
        { pointer := f.DynamicTop.getD (StaticTop.getD undef)
          activations := { f with StaticTop } :: rest
          completed := some s.pointer }
    else none

def step (s : TrackedStack) : StackAction → Option TrackedStack
  | .call F => some (s.call F)
  | .ret => s.ret
  | .throw unwound => s.throw unwound
  | .dynamicAlloca bytes align => s.dynamicAlloca bytes align
  | .stacksave => s.stacksave
  | .stackrestore i => s.stackrestore i
  | .setjmp first undef => s.setjmp first undef

end TrackedStack

end TypeSan
