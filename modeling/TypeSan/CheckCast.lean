import TypeSan.TypeInfo
import TypeSan.UpdateMetalloc

/-! The run-time check: the walk through the typeinfo tables, and the comparison of classes. -/
namespace TypeSan

open WordMemory

/-- A 64-bit word as a `long`. -/
def toLong (word : Nat) : Int := if word < 2 ^ 63 then word else word - 2 ^ 64

/-- `word & ~((long)1 << 63)` -/
def clearFlag (word : Nat) : Nat := word &&& (2 ^ 63 - 1)

/-- How the walk ends: with a class hash, or at a word that cannot be read or divided by. -/
inductive WalkResult where
  | src (hash : Nat)
  | fault
  deriving DecidableEq

/-- What one round of the loop leads to. -/
inductive Round where
  | done (result : WalkResult)
  | next (offset : Int) (currentOffset typeInfo : Nat)

/-- The body of the `while (1)` loop of `check_cast`. -/
def walkRound (mem : Memory) (offset : Int) (currentOffset typeInfo : Nat) : Round :=
  if offset = toLong currentOffset then .done ((mem (typeInfo + 8)).elim .fault .src)
  else
    match mem (typeInfo + 16) with
    | none => .done .fault
    | some next =>
      if toLong (clearFlag next) ≤ offset then
        if next = minusOne then .done (.src 0) else .next offset next (typeInfo + 16)
      else
        let currentArrayOffset := clearFlag currentOffset
        if currentOffset = currentArrayOffset then .done (.src 0)
        else
          match (mem (typeInfo + 8)).bind fun array => (mem array).map (array, ·) with
          | none => .done .fault
          | some (arrayTypeInfo, size) =>
            if size = 0 then .done .fault
            else
              .next ((offset - toLong currentArrayOffset).tmod (toLong size)) 0 (arrayTypeInfo + 8)

/-- The loop, for as many rounds as the fuel allows. -/
def walk (mem : Memory) : (fuel : Nat) → (offset : Int) → (currentOffset typeInfo : Nat) →
    Option WalkResult
  | 0, _, _, _ => none
  | fuel + 1, offset, currentOffset, typeInfo =>
    match walkRound mem offset currentOffset typeInfo with
    | .done result => some result
    | .next offset currentOffset typeInfo => walk mem fuel offset currentOffset typeInfo

/-- `hashToSetMap`: the classes that a pointer to a class may also be cast to. -/
abbrev HashToSetMap := List (Nat × List Nat)

/-- What `check_cast` reports. -/
inductive Report where
  | negativeOffset
  | unknownOffset
  | unknownHash
  | badCast
  deriving DecidableEq

inductive CheckResult where
  | returned
  | reported (report : Report)
  | fault
  deriving DecidableEq

/-- The state that a check reads. The map is null until the first module is loaded. -/
structure Runtime where
  pageTable : PageTable
  mem : Memory
  hashToSetMap : Option HashToSetMap

/-- The comparison of the class found with the destination class. -/
def compareHashes (hashToSetMap : Option HashToSetMap) (src dst : Nat) : CheckResult :=
  if src = 0 then .reported .unknownOffset
  else if src = dst then .returned
  else
    match hashToSetMap with
    | none => .fault
    | some sets =>
      match sets.lookup src with
      | none => .reported .unknownHash
      | some parentHashSet => if dst ∈ parentHashSet then .returned else .reported .badCast

/-- The part of `check_cast` behind the metadata lookup. A first word of -1 stands for a blacklisted
type; any other one but 0 is the size word of an array's element. -/
def checkFrom (rt : Runtime) (fuel : Nat) (offset : Int) (typeInfo dst : Nat) :
    Option CheckResult :=
  match rt.mem typeInfo with
  | none => some .fault
  | some currentOffset =>
    if currentOffset = minusOne then some .returned
    else
      let found :=
        if currentOffset ≠ 0 then
          walk rt.mem fuel (offset.tmod (toLong currentOffset)) 0 (typeInfo + 8)
        else walk rt.mem fuel offset 0 typeInfo
      found.map fun
        | .fault => .fault
        | .src src => compareHashes rt.hashToSetMap src dst

/-- `check_cast` -/
def checkCast (rt : Runtime) (fuel src_addr dst_addr dst : Nat) : Option CheckResult :=
  if src_addr = 0 then some .returned
  else
    match rt.mem (metadataPtr rt.pageTable src_addr) with
    | none => some .fault
    | some alloc_base =>
      if alloc_base = 0 then some .returned
      else
        let offset := toLong ((dst_addr + 2 ^ 64 - alloc_base) % 2 ^ 64)
        if offset < 0 then some (.reported .negativeOffset)
        else
          match rt.mem (metadataPtr rt.pageTable src_addr + 8) with
          | none => some .fault
          | some typeInfo => checkFrom rt fuel offset typeInfo dst

/-! More fuel changes no answer. -/

theorem walk_mono {mem : Memory} {fuel fuel' : Nat} (hle : fuel ≤ fuel') {offset : Int}
    {currentOffset typeInfo : Nat} {r : WalkResult}
    (h : walk mem fuel offset currentOffset typeInfo = some r) :
    walk mem fuel' offset currentOffset typeInfo = some r := by
  induction fuel generalizing fuel' offset currentOffset typeInfo with
  | zero => cases h
  | succ fuel ih =>
    obtain ⟨fuel', rfl⟩ := Nat.exists_eq_add_of_le' (Nat.lt_of_lt_of_le fuel.succ_pos hle)
    rw [walk] at h ⊢
    split
    · rename_i result hround
      simpa only [hround] using h
    · rename_i hround
      simp only [hround] at h
      exact ih (by omega) h

/-- The walk ends with the result, given enough fuel. -/
def Yields (mem : Memory) (offset : Int) (currentOffset typeInfo : Nat) (r : WalkResult) : Prop :=
  ∃ fuel, walk mem fuel offset currentOffset typeInfo = some r

/-- The walk of `check_cast` from the typeinfo ends with the hash. -/
def Finds (mem : Memory) (offset : Int) (typeInfo src : Nat) : Prop :=
  ∃ currentOffset, mem typeInfo = some currentOffset ∧
    if currentOffset ≠ 0 then
      Yields mem (offset.tmod (toLong currentOffset)) 0 (typeInfo + 8) (.src src)
    else Yields mem offset 0 typeInfo (.src src)

section Yields

variable {mem : Memory} {offset offset' : Int} {currentOffset currentOffset' typeInfo typeInfo' : Nat}
  {r r' : WalkResult}

theorem Yields.done (h : walkRound mem offset currentOffset typeInfo = .done r) :
    Yields mem offset currentOffset typeInfo r :=
  ⟨1, by rw [walk, h]⟩

theorem Yields.next (h : walkRound mem offset currentOffset typeInfo =
      .next offset' currentOffset' typeInfo')
    (hy : Yields mem offset' currentOffset' typeInfo' r) :
    Yields mem offset currentOffset typeInfo r := by
  obtain ⟨fuel, hfuel⟩ := hy
  exact ⟨fuel + 1, by rw [walk, h]; exact hfuel⟩

/-- Whatever the fuel, no walk ends in two ways. -/
theorem Yields.unique (h : Yields mem offset currentOffset typeInfo r)
    (h' : Yields mem offset currentOffset typeInfo r') : r = r' := by
  obtain ⟨fuel, hfuel⟩ := h
  obtain ⟨fuel', hfuel'⟩ := h'
  have h₁ := walk_mono (Nat.le_max_left fuel fuel') hfuel
  have h₂ := walk_mono (Nat.le_max_right fuel fuel') hfuel'
  exact Option.some.inj (h₁.symm.trans h₂)

/-- A walk finds one hash. -/
theorem Finds.unique {src src' : Nat} (h : Finds mem offset typeInfo src)
    (h' : Finds mem offset typeInfo src') : src = src' := by
  obtain ⟨currentOffset, hfirst, hwalk⟩ := h
  obtain ⟨currentOffset', hfirst', hwalk'⟩ := h'
  obtain rfl := Option.some.inj (hfirst.symm.trans hfirst')
  split at hwalk
  · rename_i hne
    rw [if_pos hne] at hwalk'
    exact WalkResult.src.inj (hwalk.unique hwalk')
  · rename_i heq
    rw [if_neg heq] at hwalk'
    exact WalkResult.src.inj (hwalk.unique hwalk')

end Yields

end TypeSan
