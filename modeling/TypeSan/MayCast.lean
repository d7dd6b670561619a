import Mathlib.Data.Fintype.Card
import Mathlib.Logic.Relation
import TypeSan.Names

/-! Which functions leave their stack objects untracked: the memoised search of the call graph. -/
namespace TypeSan

/-- The functions of a module with their nodes in the call graph. A call record without a function
is an indirect call. -/
structure CallGraph (Fn : Type) where
  getName : Fn → String
  isDeclaration : Fn → Bool
  hasCode : Fn → Bool
  records : Fn → List (Option Fn)

/-- `mayCastMap`, and the set of functions one traversal has visited. -/
structure Search (Fn : Type) where
  mayCastMap : Fn → Option Bool
  visited : Finset Fn

/-- What a call of `mayCast` returns, writes to `*isComplete`, and leaves behind. -/
structure SearchResult (Fn : Type) where
  result : Bool
  isComplete : Bool
  search : Search Fn

variable {Fn : Type} [DecidableEq Fn]

/-- `std::map::insert`, which keeps an entry that exists. -/
def Search.cache (s : Search Fn) (F : Fn) (result : Bool) : Search Fn :=
  match s.mayCastMap F with
  | some _ => s
  | none => { s with mayCastMap := Function.update s.mayCastMap F (some result) }

namespace CallGraph

variable (CG : CallGraph Fn) (junk : Search Fn → Fn → Bool)

def isChecker (F : Fn) : Bool := nameContains (CG.getName F) "type_casting_verification"

/-- The body of the loop over the call records: `result` and `isCurrentComplete` after a record. -/
def examine (recurse : Fn → Search Fn → Option (SearchResult Fn))
    (s : Search Fn) (isCurrentComplete : Bool) :
    Option Fn → Option (SearchResult Fn)
  | none => some ⟨true, isCurrentComplete, s⟩
  | some calleeFunction =>
    if calleeFunction ∈ s.visited then some ⟨true, false, s⟩
    else if CG.isChecker calleeFunction then some ⟨true, isCurrentComplete, s⟩
    else do
      let callee ← recurse calleeFunction s
      return ⟨callee.result, isCurrentComplete && callee.isComplete, callee.search⟩

/-- The loop of `mayCast` over the call records of `F`. -/
def mayCastLoop (recurse : Fn → Search Fn → Option (SearchResult Fn))
    (F : Fn) (s : Search Fn) (isCurrentComplete : Bool) :
    List (Option Fn) → Option (SearchResult Fn)
  | [] => some ⟨false, isCurrentComplete, s⟩
  | I :: rest => do
    let r ← CG.examine recurse s isCurrentComplete I
    if r.result then return ⟨true, true, r.search.cache F true⟩
    else mayCastLoop recurse F r.search r.isComplete rest

/-- `TypeSan::mayCast`. The early returns leave `*isComplete` unwritten: it holds `junk`. -/
def mayCast : Nat → Fn → Search Fn → Option (SearchResult Fn)
  | 0, _, _ => none
  | fuel + 1, F, s =>
    if CG.isDeclaration F then some ⟨true, junk s F, s⟩
    else
      match s.mayCastMap F with
      | some cached => some ⟨cached, junk s F, s⟩
      | none =>
        CG.mayCastLoop (mayCast fuel) F { s with visited := insert F s.visited } true
          (CG.records F)

/-- The cache between two functions of a module, and the functions left untracked so far. -/
structure ModuleState (Fn : Type) where
  mayCastMap : Fn → Option Bool
  untracked : List Fn

def ModuleState.init : ModuleState Fn := ⟨fun _ => none, []⟩

variable [Fintype Fn]

/-- The stack optimization of `runOnModule` at one function. -/
def visitFunction (disableStackOpt : Bool) (st : ModuleState Fn) (F : Fn) :
    Option (ModuleState Fn) :=
  if !CG.hasCode F || startswith (CG.getName F) "__init_global_object" then some st
  else if disableStackOpt then some st
  else do
    let r ← CG.mayCast junk (Fintype.card Fn + 1) F ⟨st.mayCastMap, ∅⟩
    return { mayCastMap := (r.search.cache F r.result).mayCastMap
             untracked := if r.result then st.untracked else st.untracked ++ [F] }

/-- The loop of `runOnModule` over the functions, in the order given. -/
def runOnModule (disableStackOpt : Bool) (order : List Fn) :
    Option (ModuleState Fn) :=
  order.foldlM (CG.visitFunction junk disableStackOpt) .init

end CallGraph

namespace CallGraph

variable (CG : CallGraph Fn)

/-- A call record of the first function names the second. -/
def Calls (F G : Fn) : Prop := some G ∈ CG.records F

/-- The function may itself end in a cast: it is external, calls indirectly or calls the checker. -/
def CastsHere (F : Fn) : Prop :=
  CG.isDeclaration F ∨ none ∈ CG.records F ∨ ∃ G, CG.Calls F G ∧ CG.isChecker G

/-- A path in the call graph starts at the function and reaches a cast. -/
def ReachesCast (F : Fn) : Prop :=
  ∃ G, Relation.ReflTransGen CG.Calls F G ∧ CG.CastsHere G

variable {CG} {junk : Search Fn → Fn → Bool}

omit [DecidableEq Fn] in
theorem reachesCast_cases {F : Fn} (h : CG.ReachesCast F) :
    CG.CastsHere F ∨ ∃ G, CG.Calls F G ∧ CG.ReachesCast G := by
  obtain ⟨G, hpath, hG⟩ := h
  rcases hpath.cases_head with rfl | ⟨G', hcall, hrest⟩
  · exact Or.inl hG
  · exact Or.inr ⟨G', hcall, G, hrest, hG⟩

/-! A cached `false` is final. -/

/-- A negative answer in the cache is right. -/
def Sound (CG : CallGraph Fn) (mayCastMap : Fn → Option Bool) : Prop :=
  ∀ F, mayCastMap F = some false → ¬ CG.ReachesCast F

theorem sound_cache {s : Search Fn} (hs : CG.Sound s.mayCastMap) {F : Fn}
    {result : Bool} (h : result = false → ¬ CG.ReachesCast F) :
    CG.Sound (s.cache F result).mayCastMap := by
  unfold Search.cache
  split
  · exact hs
  · intro G hG
    by_cases hGF : G = F
    · subst hGF
      simp only [Function.update_self, Option.some.injEq] at hG
      exact h hG
    · exact hs G (by simpa [Function.update_of_ne hGF] using hG)

/-- What one record, or one call, of a traversal promises. -/
structure Promise (CG : CallGraph Fn) (r : SearchResult Fn) (noCast : Prop) : Prop where
  sound : CG.Sound r.search.mayCastMap
  noCast : r.result = false → noCast

/-- The record leads to no cast. -/
def Harmless (CG : CallGraph Fn) (I : Option Fn) : Prop :=
  ∃ G, I = some G ∧ ¬ CG.isChecker G ∧ ¬ CG.ReachesCast G

section Step

variable {recurse : Fn → Search Fn → Option (SearchResult Fn)}
  (hrec : ∀ G s r, CG.Sound s.mayCastMap → recurse G s = some r →
    CG.Promise r (¬ CG.ReachesCast G))
include hrec

theorem examine_promise {s : Search Fn} {complete : Bool} {I : Option Fn}
    {r : SearchResult Fn} (hs : CG.Sound s.mayCastMap)
    (h : CG.examine recurse s complete I = some r) : CG.Promise r (CG.Harmless I) := by
  cases I with
  | none =>
    cases h
    exact ⟨hs, by simp⟩
  | some G =>
    simp only [examine] at h
    split at h
    · cases h
      exact ⟨hs, by simp⟩
    · split at h
      · cases h
        exact ⟨hs, by simp⟩
      · rename_i hchecker
        obtain ⟨callee, hcallee, hr⟩ := Option.bind_eq_some_iff.mp h
        cases hr
        have hp := hrec G s callee hs hcallee
        exact ⟨hp.sound, fun hfalse => ⟨G, rfl, hchecker, hp.noCast hfalse⟩⟩

theorem mayCastLoop_promise {F : Fn} {s : Search Fn} {complete : Bool}
    {records : List (Option Fn)} {r : SearchResult Fn} (hs : CG.Sound s.mayCastMap)
    (h : CG.mayCastLoop recurse F s complete records = some r) :
    CG.Promise r (∀ I ∈ records, CG.Harmless I) := by
  induction records generalizing s complete with
  | nil =>
    cases h
    exact ⟨hs, by simp⟩
  | cons I rest ih =>
    obtain ⟨r₀, hr₀, h⟩ := Option.bind_eq_some_iff.mp h
    have hp := examine_promise hrec hs hr₀
    split at h
    · cases h
      exact ⟨sound_cache hp.sound (by simp), by simp⟩
    · rename_i hfalse
      have hrest := ih hp.sound h
      refine ⟨hrest.sound, ?_⟩
      intro hr
      simpa using ⟨hp.noCast (by simpa using hfalse), hrest.noCast hr⟩

end Step

/-- A traversal keeps the cache sound, and its own negative answer is right, wherever it starts in
the middle of another one. -/
theorem mayCast_promise {fuel : Nat} {F : Fn} {s : Search Fn}
    {r : SearchResult Fn} (hs : CG.Sound s.mayCastMap)
    (h : CG.mayCast junk fuel F s = some r) : CG.Promise r (¬ CG.ReachesCast F) := by
  induction fuel generalizing F s r with
  | zero => cases h
  | succ fuel ih =>
    simp only [mayCast] at h
    split at h
    · cases h
      exact ⟨hs, by simp⟩
    · rename_i hdecl
      split at h
      · rename_i cached hcached
        cases h
        exact ⟨hs, fun hfalse => hs F (hcached.trans (congrArg some hfalse))⟩
      · have hp := mayCastLoop_promise (fun G s r => ih (F := G) (s := s) (r := r))
          (s := { s with visited := insert F s.visited }) hs h
        refine ⟨hp.sound, ?_⟩
        intro hr hreach
        have hharm := hp.noCast hr
        rcases reachesCast_cases hreach with (hd | hi | ⟨G, hcall, hchecker⟩) | ⟨G, hcall, hG⟩
        · exact hdecl hd
        · obtain ⟨G, hnone, _⟩ := hharm _ hi
          cases hnone
        · obtain ⟨G', heq, hno, _⟩ := hharm _ hcall
          cases heq
          exact hno hchecker
        · obtain ⟨G', heq, _, hno⟩ := hharm _ hcall
          cases heq
          exact hno hG

/-! The traversal ends: every nested call visits one more function. -/

/-- The traversal answers, and has only visited more. -/
def Answers (s : Search Fn) (o : Option (SearchResult Fn)) : Prop :=
  ∃ r, o = some r ∧ s.visited ⊆ r.search.visited

@[simp] theorem cache_visited (s : Search Fn) (F : Fn) (b : Bool) :
    (s.cache F b).visited = s.visited := by
  unfold Search.cache
  split <;> rfl

section Total

variable [Fintype Fn]

/-- Fewer functions than the fuel are unvisited. -/
def Fueled (fuel : Nat) (s : Search Fn) : Prop :=
  Fintype.card Fn < fuel + s.visited.card

omit [DecidableEq Fn] in
theorem Fueled.mono {fuel : Nat} {s s' : Search Fn} (h : Fueled fuel s)
    (hs : s.visited ⊆ s'.visited) : Fueled fuel s' := by
  have := Finset.card_le_card hs
  unfold Fueled at *
  omega

theorem mayCastLoop_answers {fuel : Nat}
    {recurse : Fn → Search Fn → Option (SearchResult Fn)}
    (hrec : ∀ G s, G ∉ s.visited → Fueled fuel s → Answers s (recurse G s))
    {F : Fn} {s : Search Fn} {complete : Bool} (hs : Fueled fuel s)
    (records : List (Option Fn)) :
    Answers s (CG.mayCastLoop recurse F s complete records) := by
  induction records generalizing s complete with
  | nil => exact ⟨_, rfl, subset_rfl⟩
  | cons I rest ih =>
    have hone : Answers s (CG.examine recurse s complete I) := by
      cases I with
      | none => exact ⟨_, rfl, subset_rfl⟩
      | some G =>
        simp only [examine]
        split
        · exact ⟨_, rfl, subset_rfl⟩
        · rename_i hG
          split
          · exact ⟨_, rfl, subset_rfl⟩
          · obtain ⟨r, hr, hsub⟩ := hrec G s hG hs
            exact ⟨⟨r.result, complete && r.isComplete, r.search⟩, by rw [hr]; rfl, hsub⟩
    obtain ⟨r, hr, hsub⟩ := hone
    simp only [mayCastLoop, hr, Option.bind_eq_bind, Option.bind_some]
    split
    · exact ⟨_, rfl, by simpa using hsub⟩
    · have hrest : Answers r.search (CG.mayCastLoop recurse F r.search r.isComplete rest) :=
        ih (hs.mono hsub)
      obtain ⟨r', hr', hsub'⟩ := hrest
      exact ⟨r', hr', hsub.trans hsub'⟩

theorem mayCast_answers {fuel : Nat} {F : Fn} {s : Search Fn}
    (hF : F ∉ s.visited) (hs : Fueled fuel s) : Answers s (CG.mayCast junk fuel F s) := by
  induction fuel generalizing F s with
  | zero =>
    have := Finset.card_le_univ s.visited
    unfold Fueled at hs
    omega
  | succ fuel ih =>
    simp only [mayCast]
    split
    · exact ⟨_, rfl, subset_rfl⟩
    · split
      · exact ⟨_, rfl, subset_rfl⟩
      · have hmore : Fueled fuel { s with visited := insert F s.visited } := by
          unfold Fueled at *
          rw [Finset.card_insert_of_notMem hF]
          omega
        have hloop : Answers { s with visited := insert F s.visited }
            (CG.mayCastLoop (CG.mayCast junk fuel) F { s with visited := insert F s.visited } true
              (CG.records F)) :=
          mayCastLoop_answers (fun G s hG hs => ih hG hs) hmore _
        obtain ⟨r, hr, hsub⟩ := hloop
        exact ⟨r, hr, (Finset.subset_insert F s.visited).trans hsub⟩

variable (CG) (junk) in
/-- A query of `runOnModule` is answered. -/
theorem query_answers (mayCastMap : Fn → Option Bool) (F : Fn) :
    ∃ r, CG.mayCast junk (Fintype.card Fn + 1) F ⟨mayCastMap, ∅⟩ = some r := by
  have hanswers : Answers ⟨mayCastMap, ∅⟩ (CG.mayCast junk (Fintype.card Fn + 1) F ⟨mayCastMap, ∅⟩) :=
    mayCast_answers (by simp) (by simp [Fueled])
  obtain ⟨r, hr, -⟩ := hanswers
  exact ⟨r, hr⟩

/-- What holds between two functions of a module. -/
structure ModuleInv (CG : CallGraph Fn) (st : ModuleState Fn) : Prop where
  sound : CG.Sound st.mayCastMap
  untracked : ∀ F ∈ st.untracked, ¬ CG.ReachesCast F

variable (junk) in
theorem visitFunction_inv (off : Bool) {st : ModuleState Fn} (hst : CG.ModuleInv st)
    (F : Fn) :
    ∃ st', CG.visitFunction junk off st F = some st' ∧ CG.ModuleInv st' := by
  unfold visitFunction
  split
  · exact ⟨st, rfl, hst⟩
  · split
    · exact ⟨st, rfl, hst⟩
    · obtain ⟨r, hr⟩ := query_answers CG junk st.mayCastMap F
      have hp := mayCast_promise (s := ⟨st.mayCastMap, ∅⟩) hst.sound hr
      refine ⟨_, by rw [hr]; rfl, sound_cache hp.sound hp.noCast, ?_⟩
      intro G hG
      split at hG
      · exact hst.untracked G hG
      · rename_i hfalse
        rcases List.mem_append.mp hG with hG | hG
        · exact hst.untracked G hG
        · rw [List.mem_singleton.mp hG]
          exact hp.noCast (by simpa using hfalse)

variable (CG) (junk) in
theorem runOnModule_inv (off : Bool) (order : List Fn) :
    ∃ st, CG.runOnModule junk off order = some st ∧ CG.ModuleInv st := by
  have hloop : ∀ (order : List Fn) st, CG.ModuleInv st →
      ∃ st', order.foldlM (CG.visitFunction junk off) st = some st' ∧ CG.ModuleInv st' := by
    intro order
    induction order with
    | nil => exact fun st hst => ⟨st, rfl, hst⟩
    | cons F rest ih =>
      intro st hst
      obtain ⟨st₁, h₁, hst₁⟩ := visitFunction_inv junk off hst F
      obtain ⟨st', h', hst'⟩ := ih st₁ hst₁
      exact ⟨st', by simp [List.foldlM_cons, h₁, h'], hst'⟩
  exact hloop order .init ⟨by simp [Sound, ModuleState.init], by simp [ModuleState.init]⟩

/-- Whatever order the functions are visited in, every search ends, a function that is left
untracked reaches no cast, and neither does one for which the next search answers no. -/
theorem mayCast_false_reaches_no_cast (CG : CallGraph Fn)
    (junk : Search Fn → Fn → Bool) (disableStackOpt : Bool) (order : List Fn) :
    ∃ st, CG.runOnModule junk disableStackOpt order = some st ∧
      (∀ F ∈ st.untracked, ¬ CG.ReachesCast F) ∧
      ∀ F, ∃ r, CG.mayCast junk (Fintype.card Fn + 1) F ⟨st.mayCastMap, ∅⟩ = some r ∧
        (r.result = false → ¬ CG.ReachesCast F) := by
  obtain ⟨st, hst, hinv⟩ := runOnModule_inv CG junk disableStackOpt order
  refine ⟨st, hst, hinv.untracked, ?_⟩
  intro F
  obtain ⟨r, hr⟩ := query_answers CG junk st.mayCastMap F
  exact ⟨r, hr, (mayCast_promise (s := ⟨st.mayCastMap, ∅⟩) hinv.sound hr).noCast⟩

end Total

end CallGraph

end TypeSan
