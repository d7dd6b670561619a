import TypeSan.ObjectChecks

/-! The casts between base classes and derived ones as the front end emits them: the pointer that a
cast gives, and the check of a cast to a derived class. -/
namespace TypeSan

/-! The names of the struct types. -/

/-- `TagTypeKind`, for records. -/
inductive TagTypeKind where
  | TTK_Struct | TTK_Interface | TTK_Union | TTK_Class
  deriving DecidableEq

def getKindName : TagTypeKind → String
  | .TTK_Struct => "struct"
  | .TTK_Interface => "__interface"
  | .TTK_Union => "union"
  | .TTK_Class => "class"

/-- A declaration with a name, and whether it has a context that its name can be qualified by. -/
structure NamedDecl where
  hasDeclContext : Bool
  name : String
  qualifiedName : String

/-- A record: its own name where it has an identifier, the mangled name of its RTTI where it is one
of C++, and the typedef that names it where nothing else does. -/
structure RecordDecl where
  tagKind : TagTypeKind
  identifier : Option NamedDecl
  mangledRTTI : Option String
  typedefNameForAnonDecl : Option NamedDecl

def NamedDecl.print (D : NamedDecl) : String := if D.hasDeclContext then D.qualifiedName else D.name

/-- `CodeGenTypes::addRecordTypeName` -/
def addRecordTypeName (isBlacklistedType : String → Bool) (RD : RecordDecl) (suffix : String) :
    String :=
  let kind := getKindName RD.tagKind ++ "."
  let typeName :=
    match RD.identifier with
    | some D =>
      match D.hasDeclContext, RD.mangledRTTI with
      | true, some OSR =>
        (if isBlacklistedType OSR then "blacklistedtype" else "trackedtype") ++ "." ++ OSR
      | _, _ => kind ++ D.print
    | none =>
      match RD.typedefNameForAnonDecl with
      | some TDD => kind ++ TDD.print
      | none => kind ++ "anon"
  typeName ++ suffix

theorem bytes_append (name suffix : String) :
    bytes (name ++ suffix) = bytes name ++ bytes suffix := by
  simp [bytes]

/-- The start that the front end gives the name of a class, and what the passes read off it. -/
theorem startswith_named (blacklisted : Bool) (rest : String) :
    startswith ((if blacklisted then "blacklistedtype." else "trackedtype.") ++ rest)
        "trackedtype." = !blacklisted ∧
      startswith ((if blacklisted then "blacklistedtype." else "trackedtype.") ++ rest)
        "blacklistedtype." = blacklisted := by
  have htracked : bytes "trackedtype." = 0x74 :: bytes "rackedtype." := by decide
  have hblacklisted : bytes "blacklistedtype." = 0x62 :: bytes "lacklistedtype." := by decide
  cases blacklisted <;>
    simp [startswith, bytes_append, htracked, hblacklisted, List.isPrefixOf_cons_cons]

/-- The kinds of records start with neither letter of the two that tell the classes. -/
theorem startswith_kind (tagKind : TagTypeKind) (rest : String) :
    startswith (getKindName tagKind ++ "." ++ rest) "trackedtype." = false ∧
      startswith (getKindName tagKind ++ "." ++ rest) "blacklistedtype." = false := by
  have htracked : bytes "trackedtype." = 0x74 :: bytes "rackedtype." := by decide
  have hblacklisted : bytes "blacklistedtype." = 0x62 :: bytes "lacklistedtype." := by decide
  have hkind : ∃ byte more, bytes (getKindName tagKind) = byte :: more ∧ byte ≠ 0x74 ∧
      byte ≠ 0x62 := by
    cases tagKind
    · exact ⟨0x73, bytes "truct", by decide⟩
    · exact ⟨0x5F, bytes "_interface", by decide⟩
    · exact ⟨0x75, bytes "nion", by decide⟩
    · exact ⟨0x63, bytes "lass", by decide⟩
  obtain ⟨byte, more, hbytes, hne, hne'⟩ := hkind
  simp only [startswith, bytes_append, htracked, hblacklisted, hbytes, List.cons_append,
    List.isPrefixOf_cons_cons, Bool.and_eq_false_iff, beq_eq_false_iff_ne]
  exact ⟨Or.inl hne.symm, Or.inl hne'.symm⟩

/-- A class of C++ with a name of its own. -/
def RecordDecl.IsNamedClass (RD : RecordDecl) (OSR : String) : Prop :=
  RD.mangledRTTI = some OSR ∧ ∃ D, RD.identifier = some D ∧ D.hasDeclContext = true

theorem RecordDecl.IsNamedClass.eq {RD : RecordDecl} {OSR OSR' : String} (h : RD.IsNamedClass OSR)
    (h' : RD.IsNamedClass OSR') : OSR' = OSR :=
  Option.some.inj (h'.1.symm.trans h.1)

/-- What is no such class is named after its kind. -/
theorem addRecordTypeName_cases (isBlacklistedType : String → Bool) (RD : RecordDecl)
    (suffix : String) :
    (∃ OSR, RD.IsNamedClass OSR ∧ addRecordTypeName isBlacklistedType RD suffix =
      (if isBlacklistedType OSR then "blacklistedtype." else "trackedtype.") ++ (OSR ++ suffix)) ∨
    (¬ ∃ OSR, RD.IsNamedClass OSR) ∧ ∃ rest,
      addRecordTypeName isBlacklistedType RD suffix = getKindName RD.tagKind ++ "." ++ rest := by
  cases hidentifier : RD.identifier with
  | none =>
    refine Or.inr ⟨by simp [RecordDecl.IsNamedClass, hidentifier], ?_⟩
    cases htypedef : RD.typedefNameForAnonDecl with
    | none =>
      refine ⟨"anon" ++ suffix, ?_⟩
      simp [addRecordTypeName, hidentifier, htypedef, ← String.append_assoc]
    | some TDD =>
      refine ⟨TDD.print ++ suffix, ?_⟩
      simp [addRecordTypeName, hidentifier, htypedef, String.append_assoc]
  | some D =>
    cases hcontext : D.hasDeclContext with
    | false =>
      refine Or.inr ⟨by simp [RecordDecl.IsNamedClass, hidentifier, hcontext], D.print ++ suffix, ?_⟩
      simp [addRecordTypeName, hidentifier, hcontext, String.append_assoc]
    | true =>
      cases hmangled : RD.mangledRTTI with
      | none =>
        refine Or.inr ⟨by simp [RecordDecl.IsNamedClass, hmangled], D.print ++ suffix, ?_⟩
        simp [addRecordTypeName, hidentifier, hcontext, hmangled, String.append_assoc]
      | some OSR =>
        refine Or.inl ⟨OSR, ⟨hmangled, D, hidentifier, hcontext⟩, ?_⟩
        cases hblacklisted : isBlacklistedType OSR <;>
          simp [addRecordTypeName, hidentifier, hcontext, hmangled, hblacklisted,
            ← String.append_assoc]

section Record

variable {isBlacklistedType : String → Bool} {RD : RecordDecl} {suffix : String} {s : StructType}
  (h : s.name = some (addRecordTypeName isBlacklistedType RD suffix))
include h

/-- The passes track the named classes that are not on the blacklist. -/
theorem isTracked_record : s.isTracked = true ↔
    ∃ OSR, RD.IsNamedClass OSR ∧ isBlacklistedType OSR = false := by
  simp only [StructType.isTracked, h]
  obtain ⟨OSR, hnamed, hname⟩ | ⟨hnone, rest, hname⟩ :=
    addRecordTypeName_cases isBlacklistedType RD suffix
  · rw [hname, (startswith_named _ _).1, Bool.not_eq_true']
    refine ⟨fun hOSR => ⟨OSR, hnamed, hOSR⟩, ?_⟩
    rintro ⟨OSR', hnamed', hOSR⟩
    rwa [← hnamed.eq hnamed']
  · rw [hname, (startswith_kind RD.tagKind rest).1]
    refine ⟨fun hfalse => by simp at hfalse, ?_⟩
    rintro ⟨OSR, hnamed, -⟩
    exact (hnone ⟨OSR, hnamed⟩).elim

/-- The named classes that are on the blacklist are the blacklisted types of the passes. -/
theorem isBlacklisted_record : s.isBlacklisted = true ↔
    ∃ OSR, RD.IsNamedClass OSR ∧ isBlacklistedType OSR = true := by
  simp only [StructType.isBlacklisted, h]
  obtain ⟨OSR, hnamed, hname⟩ | ⟨hnone, rest, hname⟩ :=
    addRecordTypeName_cases isBlacklistedType RD suffix
  · rw [hname, (startswith_named _ _).2]
    refine ⟨fun hOSR => ⟨OSR, hnamed, hOSR⟩, ?_⟩
    rintro ⟨OSR', hnamed', hOSR⟩
    rwa [← hnamed.eq hnamed']
  · rw [hname, (startswith_kind RD.tagKind rest).2]
    refine ⟨fun hfalse => by simp at hfalse, ?_⟩
    rintro ⟨OSR, hnamed, -⟩
    exact (hnone ⟨OSR, hnamed⟩).elim

end Record

/-! The pointers. -/

/-- A class of the front end: the struct type of its complete objects, and what the emission of a
check asks about its declaration. -/
structure CXXRecordDecl where
  LLVMType : StructType
  isCompleteDefinition : Bool
  isAnonymousStructOrUnion : Bool

/-- The loop of `computeNonVirtualBaseClassOffset` -/
def baseClassOffsetLoop {Class : Type} (getBaseClassOffset : Class → Class → Nat) :
    (Offset : Nat) → (RD : Class) → (path : List Class) → Nat
  | Offset, _, [] => Offset
  | Offset, RD, BaseDecl :: path =>
    baseClassOffsetLoop getBaseClassOffset (Offset + getBaseClassOffset RD BaseDecl) BaseDecl path

/-- The front end in a function: the classes, where their layouts put their direct base classes that
are not virtual, and what is asked about the sanitizer and its blacklist. -/
structure FrontEnd (Class : Type) where
  decl : Class → CXXRecordDecl
  getBaseClassOffset : Class → Class → Nat
  typeSan : Bool
  isBlacklistedFunction : Bool

/-- A cast between a class and one of its base classes, with the path that leads from the derived
class to the base class, and whether the pointer may be null. -/
structure ClassCast (Class : Type) where
  Derived : Class
  path : List Class
  NullCheckValue : Bool

/-- A call of the run-time library, with the arguments that it gets. -/
inductive EmittedCheck where
  | typeCastingVerification (src_addr dst : Nat)
  | changingTypeCastingVerification (src_addr dst_addr dst : Nat)
  deriving DecidableEq

namespace FrontEnd

variable {Class : Type} (F : FrontEnd Class) (E : ClassCast Class)

def computeNonVirtualBaseClassOffset (DerivedClass : Class) (path : List Class) : Nat :=
  baseClassOffsetLoop F.getBaseClassOffset 0 DerivedClass path

/-- How far the base class is into the derived class. -/
def offset : Nat := F.computeNonVirtualBaseClassOffset E.Derived E.path

/-- None where the pointer stays the same. -/
def GetNonVirtualBaseClassOffset : Option Nat :=
  if F.offset E = 0 then none else some (F.offset E)

/-- The pointer to the derived class that the emitted code computes. -/
def GetAddressOfDerivedClass (BaseAddr : Nat) : Nat :=
  match F.GetNonVirtualBaseClassOffset E with
  | none => BaseAddr
  | some NonVirtualOffset =>
    if E.NullCheckValue && BaseAddr == 0 then 0
    else (BaseAddr + (2 ^ 64 - NonVirtualOffset % 2 ^ 64)) % 2 ^ 64

/-- The pointer to the base class that the emitted code computes, on a path with no virtual base. -/
def GetAddressOfBaseClass (Value : Nat) : Nat :=
  match F.GetNonVirtualBaseClassOffset E with
  | none => Value
  | some NonVirtualOffset =>
    if E.NullCheckValue && Value == 0 then 0 else (Value + NonVirtualOffset) % 2 ^ 64

/-- The hash that a check is emitted with. -/
def dstValue (ClassDecl : CXXRecordDecl) : Nat :=
  (crc64c (removeUselessStr (bytes (ClassDecl.LLVMType.name.getD "")))).toNat

/-- `EmitTypeSanCheckForCast` and `EmitTypeSanCheckForChangingCast`, with `TypeSanEmitCheck`. -/
def emitCheck (ClassDecl : CXXRecordDecl) (check : EmittedCheck) : Option EmittedCheck :=
  if ClassDecl.isCompleteDefinition && !ClassDecl.isAnonymousStructOrUnion &&
      !F.isBlacklistedFunction then some check
  else none

/-- The code for `CK_BaseToDerived`: the check that it runs on a pointer to the base class. -/
def emitBaseToDerived (BaseAddr : Nat) : Option EmittedCheck :=
  if F.typeSan then
    let ClassDecl := F.decl E.Derived
    match F.GetNonVirtualBaseClassOffset E with
    | none => F.emitCheck ClassDecl (.typeCastingVerification BaseAddr (dstValue ClassDecl))
    | some _ => F.emitCheck ClassDecl (.changingTypeCastingVerification BaseAddr
        (F.GetAddressOfDerivedClass E BaseAddr) (dstValue ClassDecl))
  else none

end FrontEnd

/-- The call ends with the result. -/
def EmittedCheck.Ends (rt : Runtime) (result : CheckResult) : EmittedCheck → Prop
  | .typeCastingVerification src_addr dst => Checks rt src_addr src_addr dst result
  | .changingTypeCastingVerification src_addr dst_addr dst => Checks rt src_addr dst_addr dst result

/-! The hash of a check is that of the passes. -/

/-- A part that starts with a byte which it has nowhere else is erased from the end of what has no
such part. -/
theorem eraseFirst_append {b : UInt8} {tail str : List UInt8} (hb : b ∉ tail)
    (h : ¬ (b :: tail) <:+: str) : eraseFirst (b :: tail) (str ++ b :: tail) = str := by
  induction str with
  | nil => simp [eraseFirst]
  | cons byte rest ih =>
    have hrest : ¬ (b :: tail) <:+: rest := fun hinfix => h (List.infix_cons hinfix)
    have hprefix : ¬ (b :: tail) <+: byte :: (rest ++ b :: tail) := by
      intro hpre
      obtain ⟨rfl, htail⟩ := List.cons_prefix_cons.mp hpre
      have hinside (hpre : tail <+: rest) : False :=
        h (List.cons_prefix_cons.mpr ⟨rfl, hpre⟩).isInfix
      rcases List.prefix_or_prefix_of_prefix htail (List.prefix_append rest _) with hpre | hover
      · exact hinside hpre
      -- What hangs over would be a second place of the first byte.
      · obtain ⟨more, rfl⟩ := hover
        cases more with
        | nil => exact hinside (by simp)
        | cons c more =>
          obtain ⟨rfl, -⟩ :=
            List.cons_prefix_cons.mp ((List.prefix_append_right_inj rest).mp htail)
          exact hb (by simp)
    rw [List.cons_append, eraseFirst, if_neg (by simpa using hprefix), ih hrest]

theorem eraseFirst_of_not_infix {part str : List UInt8} (h : ¬ part <:+: str) :
    eraseFirst part str = str := by
  induction str with
  | nil => rfl
  | cons byte rest ih =>
    have hprefix : ¬ part <+: byte :: rest := fun hpre => h hpre.isInfix
    rw [eraseFirst, if_neg (by simpa using hprefix), ih fun hinfix => h (List.infix_cons hinfix)]

theorem addRecordTypeName_suffix (isBlacklistedType : String → Bool) (RD : RecordDecl)
    (suffix : String) : addRecordTypeName isBlacklistedType RD suffix =
      addRecordTypeName isBlacklistedType RD "" ++ suffix := by
  simp [addRecordTypeName]

/-- The type that a class has as a base class has the hash of the class. -/
theorem getHashCodeFromStruct_base {isBlacklistedType : String → Bool} {RD : RecordDecl}
    {s base : StructType} (hs : s.name = some (addRecordTypeName isBlacklistedType RD ""))
    (hbase : base.name = some (addRecordTypeName isBlacklistedType RD ".base"))
    (h : ¬ bytes ".base" <:+: (bytes (addRecordTypeName isBlacklistedType RD "")).filter
      fun byte => byte ≠ 0x2A && byte ≠ 0x27) :
    getHashCodeFromStruct base = getHashCodeFromStruct s := by
  rw [addRecordTypeName_suffix] at hbase
  generalize addRecordTypeName isBlacklistedType RD "" = name at hs hbase h
  have hsuffix : bytes ".base" = 0x2E :: [0x62, 0x61, 0x73, 0x65] := by decide
  have hkept : (bytes ".base").filter (fun byte => byte ≠ 0x2A && byte ≠ 0x27) = bytes ".base" := by
    decide
  have herase : removeUselessStr (bytes (name ++ ".base")) = removeUselessStr (bytes name) := by
    rw [removeUselessStr, removeUselessStr, bytes_append, List.filter_append, hkept,
      eraseFirst_of_not_infix h]
    rw [hsuffix] at h ⊢
    exact eraseFirst_append (by decide) h
  simp only [getHashCodeFromStruct, hs, hbase, Option.getD_some, herase]

theorem FrontEnd.dstValue_eq {ClassDecl : CXXRecordDecl} (h : ClassDecl.LLVMType.name.isSome) :
    FrontEnd.dstValue ClassDecl = getHashCodeFromStruct ClassDecl.LLVMType := by
  obtain ⟨name, hname⟩ := Option.isSome_iff_exists.mp h
  simp only [FrontEnd.dstValue, getHashCodeFromStruct, hname, Option.getD_some]

/-! What a check ends with. -/

namespace FrontEnd

variable {Class : Type} {F : FrontEnd Class} {E : ClassCast Class} {BaseAddr : Nat}
  {rt : Runtime} {check : EmittedCheck}

theorem emitCheck_eq_some {ClassDecl : CXXRecordDecl} {emitted : EmittedCheck} :
    F.emitCheck ClassDecl emitted = some check ↔ ClassDecl.isCompleteDefinition = true ∧
      ClassDecl.isAnonymousStructOrUnion = false ∧ F.isBlacklistedFunction = false ∧
      emitted = check := by
  simp [emitCheck, and_assoc]

/-- Where there is a check, it ends as one from the pointer that is cast to the one that the cast
gives. -/
theorem emitBaseToDerived_ends (h : F.emitBaseToDerived E BaseAddr = some check)
    (result : CheckResult) : check.Ends rt result ↔
      Checks rt BaseAddr (F.GetAddressOfDerivedClass E BaseAddr) (dstValue (F.decl E.Derived))
        result := by
  obtain ⟨-, h⟩ := Option.ite_none_right_eq_some.mp h
  cases hoffset : F.GetNonVirtualBaseClassOffset E with
  | none =>
    simp only [hoffset] at h
    obtain ⟨-, -, -, rfl⟩ := emitCheck_eq_some.mp h
    simp only [GetAddressOfDerivedClass, hoffset]
    rfl
  | some NonVirtualOffset =>
    simp only [hoffset] at h
    obtain ⟨-, -, -, rfl⟩ := emitCheck_eq_some.mp h
    rfl

/-- A null pointer passes. -/
theorem emitBaseToDerived_null (h : F.emitBaseToDerived E 0 = some check) :
    check.Ends rt .returned :=
  (emitBaseToDerived_ends h .returned).mpr ⟨0, rfl⟩

/-- A pointer that is not null moves back by the offset. -/
theorem derived_eq (hpos : 0 < BaseAddr) (hlt : BaseAddr < 2 ^ 64) (hoffset : F.offset E < 2 ^ 63) :
    F.GetAddressOfDerivedClass E BaseAddr = (BaseAddr + 2 ^ 64 - F.offset E) % 2 ^ 64 := by
  rw [GetAddressOfDerivedClass, GetNonVirtualBaseClassOffset]
  by_cases hzero : F.offset E = 0
  · rw [if_pos hzero, hzero, Nat.sub_zero, Nat.add_mod_right, Nat.mod_eq_of_lt hlt]
  · have hne : (E.NullCheckValue && BaseAddr == 0) = false := by
      simp [Nat.pos_iff_ne_zero.mp hpos]
    simp only [if_neg hzero, hne, Bool.false_eq_true, if_false]
    congr 1
    omega

/-- A pointer that is not null moves on by the offset. -/
theorem base_eq {Value : Nat} (hpos : 0 < Value) (hlt : Value + F.offset E < 2 ^ 64) :
    F.GetAddressOfBaseClass E Value = Value + F.offset E := by
  rw [GetAddressOfBaseClass, GetNonVirtualBaseClassOffset]
  by_cases hzero : F.offset E = 0
  · rw [if_pos hzero, hzero, Nat.add_zero]
  · have hne : (E.NullCheckValue && Value == 0) = false := by
      simp [Nat.pos_iff_ne_zero.mp hpos]
    simp only [if_neg hzero, hne, Bool.false_eq_true, if_false]
    exact Nat.mod_eq_of_lt hlt

section Object

variable {units : List TranslationUnit} {addrOf : String → Nat} {u v : TranslationUnit}
  {requests : List StructType} {T : StructType} {single : Bool} {object size : Nat}
  (hobject : TypedObject rt addrOf requests T single object size) (hlo : object ≤ BaseAddr)
  (hhi : BaseAddr < object + size) (hoffset : F.offset E < 2 ^ 63)
include hobject hlo hhi hoffset

/-- A cast to a class that would start in front of the object is reported. -/
theorem downcast_in_front (h : F.emitBaseToDerived E BaseAddr = some check)
    (hfront : BaseAddr < object + F.offset E) (result : CheckResult) :
    check.Ends rt result ↔ result = .reported .negativeOffset := by
  have hlookup := hobject.metadata BaseAddr hlo hhi
  have hpos := hobject.base_pos
  have hfits := hobject.fits
  obtain ⟨alloc_base, hbase, hlookup⟩ := Option.bind_eq_some_iff.mp hlookup
  obtain ⟨typeInfo, htypeInfo, heq⟩ := Option.bind_eq_some_iff.mp hlookup
  obtain ⟨rfl, -⟩ := Prod.mk.inj (Option.some.inj heq)
  rw [emitBaseToDerived_ends h, derived_eq (by omega) (by omega) hoffset]
  generalize F.offset E = Offset at hoffset hfront ⊢
  have hnegative :
      toLong (((BaseAddr + 2 ^ 64 - Offset) % 2 ^ 64 + 2 ^ 64 - alloc_base) % 2 ^ 64) < 0 := by
    have hword : ((BaseAddr + 2 ^ 64 - Offset) % 2 ^ 64 + 2 ^ 64 - alloc_base) % 2 ^ 64 =
        BaseAddr + 2 ^ 64 - Offset - alloc_base := by
      omega
    rw [hword, toLong, if_neg (by omega)]
    omega
  have hcheck (fuel : Nat) : checkCast rt fuel BaseAddr ((BaseAddr + 2 ^ 64 - Offset) % 2 ^ 64)
      (dstValue (F.decl E.Derived)) = some (.reported .negativeOffset) := by
    simp only [checkCast, hbase]
    rw [if_neg (by omega), if_neg (by omega), if_pos hnegative]
  simp only [Checks, hcheck, Option.some.injEq]
  constructor
  · rintro ⟨-, hresult⟩
    exact hresult.symm
  · exact fun hresult => ⟨0, hresult.symm⟩

/-- The check lets pass the casts whose class would start in the object, where there is one of a
class that passes for it. -/
theorem downcast_returned_iff (hloaded : Loaded units rt) (hu : u ∈ units) (hv : v ∈ units)
    (hD : (F.decl E.Derived).LLVMType ∈ v.types) (hsub : requests ⊆ u.types)
    (h : F.emitBaseToDerived E BaseAddr = some check)
    (hin : single = true → BaseAddr < object + T.ty.allocSize) :
    check.Ends rt .returned ↔ object + F.offset E ≤ BaseAddr ∧
      ∃ U, (Outermost T.ty ((BaseAddr - F.offset E - object) % T.ty.allocSize) U ∨
        Wraps T ((BaseAddr - F.offset E - object) % T.ty.allocSize) U) ∧
        PassesFor units U (F.decl E.Derived).LLVMType := by
  by_cases hinside : object + F.offset E ≤ BaseAddr
  · have hpos := hobject.base_pos
    have hfits := hobject.fits
    have hderived : F.GetAddressOfDerivedClass E BaseAddr = BaseAddr - F.offset E := by
      rw [derived_eq (by omega) (by omega) hoffset]
      omega
    rw [emitBaseToDerived_ends h, dstValue_eq ((hloaded.tracked v hv).name_isSome hD), hderived,
      hloaded.returned_iff hu hv hD hsub hobject hlo hhi (by omega) (by omega)
        fun hsingle => Nat.lt_of_le_of_lt (Nat.sub_le _ _) (hin hsingle)]
    exact (and_iff_right hinside).symm
  · have hfront := downcast_in_front hobject hlo hhi hoffset h (by omega) .returned
    rw [hfront]
    exact ⟨fun hreturned => (nomatch hreturned), fun hall => (hinside hall.1).elim⟩

end Object

/-! There and back. -/

/-- A pointer that is cast to a base class and back is the same again. -/
theorem derived_base_eq {Value : Nat} (nullCheckValue : Bool) (hpos : 0 < Value)
    (hlt : Value + F.offset E < 2 ^ 63) :
    F.GetAddressOfDerivedClass { E with NullCheckValue := nullCheckValue }
      (F.GetAddressOfBaseClass E Value) = Value := by
  have hoffset : F.offset { E with NullCheckValue := nullCheckValue } = F.offset E := rfl
  rw [base_eq hpos (by omega), derived_eq (by omega) (by omega) (by omega), hoffset]
  omega

/-- Its check passes where there is an object of a class that passes for the derived class. -/
theorem roundTrip_returned_iff {units : List TranslationUnit} {addrOf : String → Nat}
    {u v : TranslationUnit} {requests : List StructType} {T : StructType} {single : Bool}
    {object size Value : Nat} (nullCheckValue : Bool)
    (hobject : TypedObject rt addrOf requests T single object size) (hlo : object ≤ Value)
    (hhi : Value + F.offset E < object + size) (hloaded : Loaded units rt) (hu : u ∈ units)
    (hv : v ∈ units) (hD : (F.decl E.Derived).LLVMType ∈ v.types) (hsub : requests ⊆ u.types)
    (hin : single = true → Value + F.offset E < object + T.ty.allocSize)
    (h : F.emitBaseToDerived { E with NullCheckValue := nullCheckValue }
      (F.GetAddressOfBaseClass E Value) = some check) :
    F.GetAddressOfDerivedClass { E with NullCheckValue := nullCheckValue }
        (F.GetAddressOfBaseClass E Value) = Value ∧
      (check.Ends rt .returned ↔
        ∃ U, (Outermost T.ty ((Value - object) % T.ty.allocSize) U ∨
          Wraps T ((Value - object) % T.ty.allocSize) U) ∧
          PassesFor units U (F.decl E.Derived).LLVMType) := by
  have hpos := hobject.base_pos
  have hfits := hobject.fits
  have hbase : F.GetAddressOfBaseClass E Value = Value + F.offset E :=
    base_eq (by omega) (by omega)
  refine ⟨derived_base_eq nullCheckValue (by omega) (by omega), ?_⟩
  rw [hbase] at h
  have hreturned := downcast_returned_iff hobject (by omega) hhi
    (show F.offset { E with NullCheckValue := nullCheckValue } < 2 ^ 63 from
      show F.offset E < 2 ^ 63 by omega) hloaded hu hv hD hsub h hin
  rw [show Value + F.offset E - F.offset { E with NullCheckValue := nullCheckValue } = Value from
    Nat.add_sub_cancel Value (F.offset E)] at hreturned
  exact hreturned.trans (and_iff_right (Nat.add_le_add_right hlo (F.offset E)))

end FrontEnd

/-! A cast to the class of the second element of an array, from the second of its base classes. -/

namespace SecondBase

open FirstArray SecondElement

/-- A class, and the two base classes on the path to the one that is cast from. -/
inductive ClassName where
  | derived | middle | base
  deriving DecidableEq

/-- The last base class is at offset 4. -/
def frontEnd : FrontEnd ClassName where
  decl _ := ⟨E, true, false⟩
  getBaseClassOffset RD BaseDecl := if RD = .middle ∧ BaseDecl = .base then 4 else 0
  typeSan := true
  isBlacklistedFunction := false

def downcast : ClassCast ClassName := ⟨.derived, [.middle, .base], true⟩

theorem typedObject : TypedObject runtime addrOf [T] T true 0x10000 16 where
  globals_at := ⟨globals, by decide, by decide⟩
  requested := by decide
  base_pos := by decide
  fits := by decide
  size_lt := by decide
  metadata := by
    intro x hlo hhi
    obtain ⟨k, rfl⟩ := Nat.exists_eq_add_of_le hlo
    have hall : ∀ k < 16, lookupMetadata runtime.mem runtime.pageTable (0x10000 + k) =
        some (0x10000, 0x2008) := by
      decide
    exact hall k (by omega)

end SecondBase

open FirstArray SecondElement SecondBase in
theorem downcast_returned_of_second_base :
    ∃ check, frontEnd.emitBaseToDerived downcast 0x1000C = some check ∧
      check.Ends runtime .returned := by
  have hcheck : frontEnd.emitBaseToDerived downcast 0x1000C =
      some (.changingTypeCastingVerification 0x1000C 0x10008 (getHashCodeFromStruct E)) := by
    decide
  exact ⟨_, hcheck, (FrontEnd.downcast_returned_iff typedObject (by decide) (by decide)
    (by decide) (loaded rfl) (List.mem_singleton_self unit) (List.mem_singleton_self unit)
    (by decide) (by decide) hcheck (by decide)).mpr
      ⟨by decide, E, Or.inl outermost_second, Or.inl (by decide)⟩⟩

open FirstArray SecondElement SecondBase in
theorem roundTrip_returned_of_second_base :
    ∃ check, frontEnd.emitBaseToDerived { downcast with NullCheckValue := false }
        (frontEnd.GetAddressOfBaseClass downcast 0x10008) = some check ∧
      check.Ends runtime .returned := by
  have hcheck : frontEnd.emitBaseToDerived { downcast with NullCheckValue := false }
      (frontEnd.GetAddressOfBaseClass downcast 0x10008) =
        some (.changingTypeCastingVerification 0x1000C 0x10008 (getHashCodeFromStruct E)) := by
    decide
  exact ⟨_, hcheck, (FrontEnd.roundTrip_returned_iff false typedObject (by decide) (by decide)
    (loaded rfl) (List.mem_singleton_self unit) (List.mem_singleton_self unit) (by decide)
    (by decide) (by decide) hcheck).2.mpr ⟨E, Or.inl outermost_second, Or.inl (by decide)⟩⟩

end TypeSan
