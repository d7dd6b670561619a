import TypeSan.MissedConfusion

/-! What a check reads. A word that is not mapped faults when it is read, so that a check which ends
as it should in a memory of few words reads no others. -/
namespace TypeSan

open WordMemory

/-- The addresses of the words of a table. -/
def tableWords (addrOf : String → Nat) (table : String × List Const) : List Nat :=
  blockWords (addrOf table.1) table.2.length

/-- The program as a check sees it that may read these words only. -/
def Runtime.seeing (rt : Runtime) (words : List Nat) : Runtime :=
  { rt with mem := restrict rt.mem words }

section Sub

variable {mem mem' : Memory} (hsub : Sub mem mem')
include hsub

theorem walkRound_sub {offset : Int} {currentOffset typeInfo : Nat}
    (h : walkRound mem offset currentOffset typeInfo ≠ .done .fault) :
    walkRound mem' offset currentOffset typeInfo = walkRound mem offset currentOffset typeInfo := by
  have hread (address : Nat) : mem address = none ∨ mem' address = mem address := by
    cases hword : mem address with
    | none => exact Or.inl rfl
    | some word => exact Or.inr (hsub address word hword)
  simp only [walkRound] at h ⊢
  split
  · rename_i hhit
    rw [if_pos hhit] at h
    rcases hread (typeInfo + 8) with hnone | heq
    · simp [hnone] at h
    · rw [heq]
  · rename_i hmiss
    rw [if_neg hmiss] at h
    rcases hread (typeInfo + 16) with hnone | heq
    · simp [hnone] at h
    rw [heq]
    cases hnext : mem (typeInfo + 16) with
    | none => rfl
    | some next =>
      simp only [hnext] at h ⊢
      split
      · rfl
      · rename_i hlt
        rw [if_neg hlt] at h
        split
        · rfl
        · rename_i hflag
          rw [if_neg hflag] at h
          rcases hread (typeInfo + 8) with hnone | heq
          · simp [hnone] at h
          rw [heq]
          cases harray : mem (typeInfo + 8) with
          | none => rfl
          | some array =>
            rcases hread array with hnone | heq
            · simp [harray, hnone] at h
            · simp only [Option.bind_some, heq]

/-- A walk that ends with a hash in the smaller memory does so in the larger one. -/
theorem walk_sub {fuel : Nat} {offset : Int} {currentOffset typeInfo src : Nat}
    (h : walk mem fuel offset currentOffset typeInfo = some (.src src)) :
    walk mem' fuel offset currentOffset typeInfo = some (.src src) := by
  induction fuel generalizing offset currentOffset typeInfo with
  | zero => cases h
  | succ fuel ih =>
    rw [walk] at h ⊢
    have hround : walkRound mem' offset currentOffset typeInfo =
        walkRound mem offset currentOffset typeInfo := by
      apply walkRound_sub hsub
      intro hfault
      rw [hfault] at h
      cases h
    rw [hround]
    cases hnext : walkRound mem offset currentOffset typeInfo with
    | done result => simpa only [hnext] using h
    | next offset currentOffset typeInfo =>
      simp only [hnext] at h
      exact ih h

theorem Yields.sub {offset : Int} {currentOffset typeInfo src : Nat}
    (h : Yields mem offset currentOffset typeInfo (.src src)) :
    Yields mem' offset currentOffset typeInfo (.src src) := by
  obtain ⟨fuel, hfuel⟩ := h
  exact ⟨fuel, walk_sub hsub hfuel⟩

theorem Finds.sub {offset : Int} {typeInfo src : Nat} (h : Finds mem offset typeInfo src) :
    Finds mem' offset typeInfo src := by
  obtain ⟨currentOffset, hfirst, hwalk⟩ := h
  refine ⟨currentOffset, hsub _ _ hfirst, ?_⟩
  split
  · rename_i hne
    rw [if_pos hne] at hwalk
    exact hwalk.sub hsub
  · rename_i heq
    rw [if_neg heq] at hwalk
    exact hwalk.sub hsub

end Sub

section Checks

variable {rt : Runtime} {mem' : Memory} {r : CheckResult} (hsub : Sub rt.mem mem') (hr : r ≠ .fault)
include hsub hr

/-- A read that does not fault reads the same in the larger memory. -/
theorem read_sub {address : Nat} {rest rest' : Nat → Option CheckResult}
    (h : (match rt.mem address with
      | none => some .fault
      | some word => rest word) = some r)
    (hrest : ∀ word, rest word = some r → rest' word = some r) :
    (match mem' address with
      | none => some .fault
      | some word => rest' word) = some r := by
  cases hword : rt.mem address with
  | none =>
    rw [hword] at h
    exact (hr (Option.some.inj h).symm).elim
  | some word =>
    rw [hword] at h
    rw [hsub address word hword]
    exact hrest word h

theorem checkFrom_sub {fuel typeInfo dst : Nat} {offset : Int}
    (h : checkFrom rt fuel offset typeInfo dst = some r) :
    checkFrom { rt with mem := mem' } fuel offset typeInfo dst = some r := by
  apply read_sub hsub hr h
  intro currentOffset h
  by_cases hblacklisted : currentOffset = minusOne
  · rwa [if_pos hblacklisted] at h ⊢
  rw [if_neg hblacklisted] at h ⊢
  obtain ⟨result, hfound, heq⟩ := Option.map_eq_some_iff.mp h
  cases result with
  | fault => exact (hr heq.symm).elim
  | src src =>
    refine Option.map_eq_some_iff.mpr ⟨.src src, ?_, heq⟩
    by_cases hsize : currentOffset ≠ 0
    · rw [if_pos hsize] at hfound ⊢
      exact walk_sub hsub hfound
    · rw [if_neg hsize] at hfound ⊢
      exact walk_sub hsub hfound

theorem Checks.sub {src_addr dst_addr dst : Nat} (h : Checks rt src_addr dst_addr dst r) :
    Checks { rt with mem := mem' } src_addr dst_addr dst r := by
  obtain ⟨fuel, h⟩ := h
  refine ⟨fuel, ?_⟩
  rw [checkCast] at h ⊢
  by_cases hnull : src_addr = 0
  · rwa [if_pos hnull] at h ⊢
  rw [if_neg hnull] at h ⊢
  apply read_sub hsub hr h
  intro alloc_base h
  by_cases hbase : alloc_base = 0
  · rwa [if_pos hbase] at h ⊢
  rw [if_neg hbase] at h ⊢
  by_cases hnegative : toLong ((dst_addr + 2 ^ 64 - alloc_base) % 2 ^ 64) < 0
  · simpa only [if_pos hnegative] using h
  simp only [if_neg hnegative] at h ⊢
  exact read_sub hsub hr h fun typeInfo h => checkFrom_sub hsub hr h

end Checks

/-- What a check answers from some of the words, it answers. -/
theorem Checks.of_seeing {rt : Runtime} {words : List Nat} {src_addr dst_addr dst : Nat}
    {r : CheckResult} (hr : r ≠ .fault)
    (h : Checks (rt.seeing words) src_addr dst_addr dst r) : Checks rt src_addr dst_addr dst r :=
  @Checks.sub (rt.seeing words) rt.mem r (restrict_sub rt.mem words) hr _ _ _ h

end TypeSan
