import TypeSan.GlobalMetadata

/-! Which calls allocate an object, of which type, and of how many bytes. -/
namespace TypeSan

inductive ParamType
  | int (bits : Nat)
  | int8Ptr
  | other
  deriving DecidableEq

/-- A function that is called directly. `demangled` is what `abi::__cxa_demangle` makes of its
name. -/
structure Callee where
  name : String
  demangled : Option String
  isDeclaration : Bool
  isIntrinsic : Bool
  returnType : ParamType
  params : List ParamType

inductive Operand
  | constantInt (n : Nat)
  | value (id : Nat)
  deriving DecidableEq

/-- A call, with the block that it is in. If it returns a pointer, `elementType` is what that points
to. The bitcasts that use it are given by what their results point to. -/
structure CallInst where
  ptr : Nat
  parent : Nat
  calledFunction : Option Callee
  args : List Operand
  elementType : Option Ty
  bitCastUses : List Ty

/-! `AllocType`. -/

def OpNewLike : BitVec 8 := 1
def MallocLike : BitVec 8 := 2 ||| OpNewLike
def CallocLike : BitVec 8 := 4
def ReallocLike : BitVec 8 := 8
def StrDupLike : BitVec 8 := 16
def AllocLike : BitVec 8 := MallocLike ||| CallocLike ||| StrDupLike
def AnyAlloc : BitVec 8 := AllocLike ||| ReallocLike

/-- An allocation function, by its standard name, with the positions of its size parameters. -/
structure AllocFnsTy where
  Func : String
  AllocTy : BitVec 8
  NumParams : Nat
  FstParam : Option Nat
  SndParam : Option Nat

def AllocationFnData : List AllocFnsTy :=
  [⟨"malloc", MallocLike, 1, some 0, none⟩,
    ⟨"valloc", MallocLike, 1, some 0, none⟩,
    ⟨"_Znwj", OpNewLike, 1, some 0, none⟩,
    ⟨"_ZnwjRKSt9nothrow_t", MallocLike, 2, some 0, none⟩,
    ⟨"_Znwm", OpNewLike, 1, some 0, none⟩,
    ⟨"_ZnwmRKSt9nothrow_t", MallocLike, 2, some 0, none⟩,
    ⟨"_Znaj", OpNewLike, 1, some 0, none⟩,
    ⟨"_ZnajRKSt9nothrow_t", MallocLike, 2, some 0, none⟩,
    ⟨"_Znam", OpNewLike, 1, some 0, none⟩,
    ⟨"_ZnamRKSt9nothrow_t", MallocLike, 2, some 0, none⟩,
    ⟨"??2@YAPAXI@Z", OpNewLike, 1, some 0, none⟩,
    ⟨"??2@YAPAXIABUnothrow_t@std@@@Z", MallocLike, 2, some 0, none⟩,
    ⟨"??2@YAPEAX_K@Z", OpNewLike, 1, some 0, none⟩,
    ⟨"??2@YAPEAX_KAEBUnothrow_t@std@@@Z", MallocLike, 2, some 0, none⟩,
    ⟨"??_U@YAPAXI@Z", OpNewLike, 1, some 0, none⟩,
    ⟨"??_U@YAPAXIABUnothrow_t@std@@@Z", MallocLike, 2, some 0, none⟩,
    ⟨"??_U@YAPEAX_K@Z", OpNewLike, 1, some 0, none⟩,
    ⟨"??_U@YAPEAX_KAEBUnothrow_t@std@@@Z", MallocLike, 2, some 0, none⟩,
    ⟨"calloc", CallocLike, 2, some 0, some 1⟩,
    ⟨"realloc", ReallocLike, 2, some 1, none⟩,
    ⟨"reallocf", ReallocLike, 2, some 1, none⟩,
    ⟨"strdup", StrDupLike, 1, none, none⟩,
    ⟨"strndup", StrDupLike, 2, some 1, none⟩]

/-- `sanitizeFunctionName`: no null bytes, and no mark of an `__asm` declaration in front. -/
def sanitizeFunctionName (funcName : String) : List UInt8 :=
  let name := bytes funcName
  if 0 ∈ name then [] else if name.head? = some 1 then name.tail else name

/-- A size parameter, where there is one, is a 32-bit or a 64-bit integer. -/
def isSizeParam (params : List ParamType) : Option Nat → Bool
  | none => true
  | some i => params[i]? = some (.int 32) || params[i]? = some (.int 64)

section Queries

/- The library functions that `TargetLibraryInfo` has. -/
variable (tli : String → Bool)

def getAllocationData (V : CallInst) (AllocTy : BitVec 8) : Option AllocFnsTy := do
  let Callee ← V.calledFunction
  guard (!Callee.isIntrinsic && Callee.isDeclaration)
  let FnData ← AllocationFnData.find? fun Fn => bytes Fn.Func == sanitizeFunctionName Callee.name
  guard (tli FnData.Func && FnData.AllocTy &&& AllocTy == FnData.AllocTy)
  guard (Callee.returnType = .int8Ptr && Callee.params.length == FnData.NumParams &&
    isSizeParam Callee.params FnData.FstParam && isSizeParam Callee.params FnData.SndParam)
  return FnData

def isAllocationFn (V : CallInst) : Bool := (getAllocationData tli V AnyAlloc).isSome
def isMallocLikeFn (V : CallInst) : Bool := (getAllocationData tli V MallocLike).isSome
def isCallocLikeFn (V : CallInst) : Bool := (getAllocationData tli V CallocLike).isSome
def isAllocLikeFn (V : CallInst) : Bool := (getAllocationData tli V AllocLike).isSome

def isNewCall (val : CallInst) : Bool :=
  isAllocationFn tli val &&
    (isMallocLikeFn tli val || isCallocLikeFn tli val || !isAllocLikeFn tli val)

/-- `getMallocAllocatedType`: what the only bitcast of the call points to, or the call itself. -/
def getMallocAllocatedType (CI : CallInst) : Option Ty :=
  match CI.bitCastUses with
  | [] => CI.elementType
  | [T] => some T
  | _ => none

def isOverloadedNew (call : CallInst) : Bool :=
  match call.calledFunction.bind Callee.demangled with
  | none => false
  | some unmangledName =>
    nameContains unmangledName "::operator new(unsigned long)" ||
      nameContains unmangledName "::operator new(unsigned long, std::nothrow_t const&)" ||
      nameContains unmangledName "::operator new[](unsigned long)" ||
      nameContains unmangledName "::operator new[](unsigned long, std::nothrow_t const&)"

/-- The type under which a call is entered in `heapObjsNew`, if it is. -/
def heapObjType (call : CallInst) : Option Ty :=
  if isNewCall tli call || isOverloadedNew call then
    (getMallocAllocatedType call).filter interestingType
  else none

inductive SizeValue
  | operand (Size : Operand)
  | mul (NElems ElemSize : Operand)
  deriving DecidableEq

/-- `Size` and `count` of an update. The compiler stops, at a failed assertion or at a division by
zero, where there is no answer. -/
def sizeAndCount (call : CallInst) (allocTy : Ty) : Option (SizeValue × Nat) :=
  if isMallocLikeFn tli call || !isAllocLikeFn tli call || !isAllocationFn tli call then do
    let Size ←
      if isMallocLikeFn tli call || !isAllocationFn tli call then call.args[0]? else call.args[1]?
    match Size with
    | .constantInt n =>
      let typeSize := allocTy.allocSize % 2 ^ 64
      if typeSize = 0 then none else some (.operand Size, n / typeSize)
    | .value _ => some (.operand Size, 0)
  else if isCallocLikeFn tli call then do
    let NElems ← call.args[0]?
    let ElemSize ← call.args[1]?
    return (.mul NElems ElemSize, 0)
  else none

end Queries

end TypeSan
