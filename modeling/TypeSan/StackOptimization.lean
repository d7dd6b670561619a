import Mathlib.Data.List.ReduceOption
import TypeSan.Library.Runs
import TypeSan.Library.TreeSearch
import TypeSan.MayCast

/-! When the search of the call graph answers no for every function that reaches no cast. -/
namespace TypeSan.CallGraph

open TreeSearch

variable {Fn : Type} [DecidableEq Fn] (CG : CallGraph Fn) {junk : Search Fn → Fn → Bool}

/-- `runOnModule` asks whether the function may cast. -/
def Queried (F : Fn) : Prop :=
  CG.hasCode F = true ∧ startswith (CG.getName F) "__init_global_object" = false

/-- What the cache says is right. -/
def Exact (mayCastMap : Fn → Option Bool) : Prop :=
  ∀ F result, mayCastMap F = some result → (result = true ↔ CG.ReachesCast F)

omit [DecidableEq Fn] in
/-- The functions that the records name and that are not in the cache. -/
def unsettled (mayCastMap : Fn → Option Bool) (records : List (Option Fn)) : List Fn :=
  records.reduceOption.filter fun G => (mayCastMap G).isNone

omit [DecidableEq Fn] in
def unsettledCallees (mayCastMap : Fn → Option Bool) (F : Fn) : List Fn :=
  unsettled mayCastMap (CG.records F)

/-- On its way through functions that reach a cast, the search examines these records and comes to
a function that reaches none, after it has entered those of the list. -/
inductive Meets (mayCastMap : Fn → Option Bool) :
    Finset Fn → List (Option Fn) → List Fn → Fn → Prop
  | here {way G rest} (harmless : CG.Harmless (some G)) (uncached : mayCastMap G = none) :
      Meets mayCastMap way (some G :: rest) [] G
  | past {way G rest l H} (harmless : CG.Harmless (some G)) (next : Meets mayCastMap way rest l H) :
      Meets mayCastMap way (some G :: rest) (unsettled mayCastMap [some G] ++ l) H
  | into {way G rest l H} (checker : ¬ CG.isChecker G) (code : ¬ CG.isDeclaration G)
      (reaches : CG.ReachesCast G) (uncached : mayCastMap G = none) (new : G ∉ way)
      (next : Meets mayCastMap (insert G way) (CG.records G) l H) :
      Meets mayCastMap way (some G :: rest) l H

/-- Where the functions entered before are named once, so is each one that is met, unless the
search has been there: then it is on its way back from a function that reaches a cast. -/
def Clear (mayCastMap : Fn → Option Bool) (way : Finset Fn) (entered : List Fn)
    (records : List (Option Fn)) : Prop :=
  ∀ l G, CG.Meets mayCastMap way records l G →
    NamedOnce (CG.unsettledCallees mayCastMap) (entered ++ l) →
    Reached (CG.unsettledCallees mayCastMap) (entered ++ l) G ∨
      NamedOnce (CG.unsettledCallees mayCastMap) (entered ++ l ++ [G])

/-- The search from the function names no function without casts twice. -/
structure SearchesOnce (mayCastMap : Fn → Option Bool) (F : Fn) : Prop where
  harmless : ¬ CG.ReachesCast F →
    NamedOnce (CG.unsettledCallees mayCastMap) (unsettled mayCastMap [some F])
  harmful : CG.ReachesCast F → ¬ CG.isDeclaration F → mayCastMap F = none →
    CG.Clear mayCastMap {F} [] (CG.records F)

variable {CG} {m : Fn → Option Bool} {V V' way : Finset Fn} {F G : Fn} {l : List Fn}
  {rest records : List (Option Fn)}

theorem exact_cache_iff {s : Search Fn} {result : Bool} :
    CG.Exact (s.cache F result).mayCastMap ↔
      CG.Exact s.mayCastMap ∧ (s.mayCastMap F = none → (result = true ↔ CG.ReachesCast F)) := by
  unfold Search.cache
  cases hF : s.mayCastMap F with
  | some cached => simp
  | none =>
    simp only [forall_const]
    constructor
    · intro h
      refine ⟨fun G b hG => h G b ?_, h F result (by simp)⟩
      have hne : G ≠ F := by
        rintro rfl
        simp [hF] at hG
      simpa [Function.update_of_ne hne] using hG
    · rintro ⟨hs, hresult⟩ G b hG
      by_cases hGF : G = F
      · subst hGF
        simp only [Function.update_self, Option.some.injEq] at hG
        exact hG ▸ hresult
      · exact hs G b (by simpa [Function.update_of_ne hGF] using hG)

omit [DecidableEq Fn] in
theorem harmless_of_calls (h : ¬ CG.ReachesCast F) {I : Option Fn} (hI : I ∈ CG.records F) :
    CG.Harmless I := by
  cases I with
  | none => exact (h ⟨F, .refl, Or.inr (Or.inl hI)⟩).elim
  | some G =>
    refine ⟨G, rfl, fun hchecker => h ⟨F, .refl, Or.inr (Or.inr ⟨G, hI, hchecker⟩)⟩, ?_⟩
    rintro ⟨H, hpath, hH⟩
    exact h ⟨H, hpath.head hI, hH⟩

omit [DecidableEq Fn] in
theorem harmless_some_iff :
    CG.Harmless (some G) ↔ ¬ CG.isChecker G ∧ ¬ CG.ReachesCast G := by
  simp [Harmless]

omit [DecidableEq Fn] in
theorem unsettled_cons {I : Option Fn} :
    unsettled m (I :: records) = unsettled m [I] ++ unsettled m records := by
  unfold unsettled
  rw [← List.filter_append, ← List.reduceOption_append]
  rfl

omit [DecidableEq Fn] in
theorem unsettled_some (h : m G = none) : unsettled m [some G] = [G] := by
  simp [unsettled, List.reduceOption, h]

omit [DecidableEq Fn] in
theorem unsettled_some_of_cached {b : Bool} (h : m G = some b) : unsettled m [some G] = [] := by
  simp [unsettled, List.reduceOption, h]

omit [DecidableEq Fn] in
theorem mem_unsettled : G ∈ unsettled m records ↔ some G ∈ records ∧ m G = none := by
  simp [unsettled, List.reduceOption_mem_iff]

/-! Below a function that reaches no cast. -/

/-- The functions are not in the cache and reach no cast. -/
def Open (CG : CallGraph Fn) (m : Fn → Option Bool) (l : List Fn) : Prop :=
  ∀ G ∈ l, m G = none ∧ ¬ CG.ReachesCast G

omit [DecidableEq Fn] in
theorem open_unsettled (h : ∀ I ∈ records, CG.Harmless I) : CG.Open m (unsettled m records) := by
  intro G hG
  obtain ⟨hmem, hnone⟩ := mem_unsettled.mp hG
  exact ⟨hnone, (harmless_some_iff.mp (h _ hmem)).2⟩

omit [DecidableEq Fn] in
theorem open_some (hG : CG.Harmless (some G)) : CG.Open m (unsettled m [some G]) :=
  open_unsettled fun _ hmem => List.mem_singleton.mp hmem ▸ hG

omit [DecidableEq Fn] in
theorem Open.reached (h : CG.Open m l) (hG : Reached (CG.unsettledCallees m) l G) :
    m G = none ∧ ¬ CG.ReachesCast G := by
  obtain ⟨a, ha, hpath⟩ := hG
  induction hpath with
  | refl => exact h a ha
  | tail _ hcall ih => exact open_unsettled (fun _ => harmless_of_calls ih.2) _ hcall

/-- No visited function is in the cache. -/
def Fresh (m : Fn → Option Bool) (V : Finset Fn) : Prop := ∀ G ∈ V, m G = none

omit [DecidableEq Fn] in
theorem Fresh.insert [DecidableEq Fn] (h : Fresh m V) (hF : m F = none) : Fresh m (insert F V) := by
  intro G hG
  rcases Finset.mem_insert.mp hG with rfl | hG
  · exact hF
  · exact h G hG

theorem Fresh.explores (h : Fresh m V) (hl : CG.Open m l)
    (hV : Explores (CG.unsettledCallees m) V l V') : Fresh m V' := by
  intro G hG
  rcases (hV.visited.1 G).mp hG with hG | hG
  · exact h G hG
  · exact (hl.reached hG).1

/-- The search of functions without casts says no where it meets no visited one, and is wrong,
with a wrong cache, where it does. -/
def Settles (CG : CallGraph Fn) (m : Fn → Option Bool) (V : Finset Fn) (l : List Fn)
    (r : SearchResult Fn) : Prop :=
  (∃ V', Explores (CG.unsettledCallees m) V l V' ∧ r.result = false ∧ r.search = ⟨m, V'⟩) ∨
    (¬ ∃ V', Explores (CG.unsettledCallees m) V l V') ∧ r.result = true ∧
      ¬ CG.Exact r.search.mayCastMap

section Step

variable {recurse : Fn → Search Fn → Option (SearchResult Fn)}
  (hrec : ∀ G V r, ¬ CG.ReachesCast G → G ∉ V → Fresh m V →
    recurse G ⟨m, V⟩ = some r → CG.Settles m V (unsettled m [some G]) r)
include hrec

/-- A record that names a function without casts: the function is searched, or it is visited. -/
theorem examine_harmless {complete : Bool} {r : SearchResult Fn} (hV : Fresh m V)
    (hG : CG.Harmless (some G)) (h : CG.examine recurse ⟨m, V⟩ complete (some G) = some r) :
    (G ∉ V ∧ ∃ r₀, CG.Settles m V (unsettled m [some G]) r₀ ∧ r.result = r₀.result ∧
      r.search = r₀.search) ∨ G ∈ V ∧ r.result = true ∧ r.search = ⟨m, V⟩ := by
  simp only [examine] at h
  split at h
  · rename_i hmem
    cases h
    exact Or.inr ⟨hmem, rfl, rfl⟩
  · rename_i hmem
    rw [if_neg (harmless_some_iff.mp hG).1] at h
    obtain ⟨r₀, hr₀, hr⟩ := Option.bind_eq_some_iff.mp h
    cases hr
    exact Or.inl ⟨hmem, r₀, hrec G V r₀ (harmless_some_iff.mp hG).2 hmem hV hr₀, rfl, rfl⟩

theorem mayCastLoop_settles {complete : Bool} {r : SearchResult Fn} (hF : ¬ CG.ReachesCast F)
    (hnone : m F = none) (hV : Fresh m V) (hrecords : ∀ I ∈ records, CG.Harmless I)
    (h : CG.mayCastLoop recurse F ⟨m, V⟩ complete records = some r) :
    CG.Settles m V (unsettled m records) r := by
  induction records generalizing V complete with
  | nil =>
    cases h
    exact Or.inl ⟨V, .nil, rfl, rfl⟩
  | cons I rest ih =>
    have hI := hrecords I List.mem_cons_self
    obtain ⟨G, rfl, -⟩ := id hI
    have hrest : ∀ I ∈ rest, CG.Harmless I := fun I hI => hrecords I (List.mem_cons_of_mem _ hI)
    obtain ⟨r₁, h₁, hloop⟩ := Option.bind_eq_some_iff.mp h
    rw [unsettled_cons]
    rcases examine_harmless hrec hV hI h₁ with
      ⟨-, r₀, hr₀, hresult, hsearch⟩ | ⟨hmem, hresult, hsearch⟩
    · rcases hr₀ with ⟨V₁, hV₁, hfalse, hs⟩ | ⟨hno, htrue, hwrong⟩
      · rw [hresult, hfalse, hsearch, hs] at hloop
        simp only [Bool.false_eq_true, if_false] at hloop
        rcases ih (hV.explores (open_some hI) hV₁) hrest hloop with ⟨V₂, hV₂, hr⟩ | ⟨hno, hr⟩
        · exact Or.inl ⟨V₂, explores_append.mpr ⟨V₁, hV₁, hV₂⟩, hr⟩
        · refine Or.inr ⟨?_, hr⟩
          rintro ⟨V₂, hV₂⟩
          obtain ⟨V₁', hV₁', hV₂⟩ := explores_append.mp hV₂
          have heq : V₁' = V₁ := by
            ext x
            rw [hV₁'.visited.1, hV₁.visited.1]
          exact hno ⟨V₂, heq ▸ hV₂⟩
      · rw [hresult, htrue, hsearch] at hloop
        cases hloop
        refine Or.inr ⟨?_, rfl, fun hexact => hwrong (exact_cache_iff.mp hexact).1⟩
        rintro ⟨V₂, hV₂⟩
        obtain ⟨V₁, hV₁, -⟩ := explores_append.mp hV₂
        exact hno ⟨V₁, hV₁⟩
    · rw [hresult, hsearch] at hloop
      cases hloop
      refine Or.inr ⟨?_, rfl, fun hexact => hF ((exact_cache_iff.mp hexact).2 hnone |>.mp rfl)⟩
      rintro ⟨V₂, hV₂⟩
      rw [unsettled_some (hV G hmem)] at hV₂
      obtain _ | ⟨fresh, -, -⟩ := hV₂
      exact fresh hmem

end Step

theorem mayCast_settles (hm : CG.Exact m) {fuel : Nat} {r : SearchResult Fn}
    (hF : ¬ CG.ReachesCast F) (hFV : F ∉ V) (hV : Fresh m V)
    (h : CG.mayCast junk fuel F ⟨m, V⟩ = some r) : CG.Settles m V (unsettled m [some F]) r := by
  induction fuel generalizing F V r with
  | zero => cases h
  | succ fuel ih =>
    have hcode : ¬ CG.isDeclaration F := fun hdecl => hF ⟨F, .refl, Or.inl hdecl⟩
    simp only [mayCast, if_neg hcode] at h
    cases hF' : m F with
    | some cached =>
      simp only [hF'] at h
      cases h
      rw [unsettled_some_of_cached hF']
      exact Or.inl ⟨V, .nil, Bool.eq_false_iff.mpr fun htrue => hF ((hm F _ hF').mp htrue), rfl⟩
    | none =>
      simp only [hF'] at h
      rw [unsettled_some hF']
      have hloop : CG.Settles m (insert F V) (CG.unsettledCallees m F) r :=
        mayCastLoop_settles (fun G V r => ih (F := G) (V := V) (r := r)) hF hF' (hV.insert hF')
          (fun _ => harmless_of_calls hF) h
      rcases hloop with ⟨V', hV', hr⟩ | ⟨hno, hr⟩
      · exact Or.inl ⟨V', .cons hFV hV' .nil, hr⟩
      · refine Or.inr ⟨?_, hr⟩
        rintro ⟨V', hV'⟩
        obtain _ | ⟨-, below, -⟩ := hV'
        exact hno ⟨_, below⟩

/-! On the way through functions that reach a cast. -/

omit [DecidableEq Fn] in
theorem not_harmless_cases (h : ¬ CG.Harmless (some G)) : CG.isChecker G ∨ CG.ReachesCast G := by
  rw [harmless_some_iff] at h
  tauto

theorem clear_none : CG.Clear m way l (none :: rest) := by
  intro l' G hG
  cases hG

theorem clear_harmless (hG : CG.Harmless (some G)) : CG.Clear m way l (some G :: rest) ↔
    (m G = none → NamedOnce (CG.unsettledCallees m) l →
      Reached (CG.unsettledCallees m) l G ∨ NamedOnce (CG.unsettledCallees m) (l ++ [G])) ∧
    CG.Clear m way (l ++ unsettled m [some G]) rest := by
  constructor
  · intro h
    refine ⟨fun hnone hl => by simpa using h [] G (.here hG hnone) (by simpa using hl), ?_⟩
    intro l' H hH
    simpa only [List.append_assoc] using h _ H (.past hG hH)
  · rintro ⟨hfirst, hrest⟩ l' H hH
    cases hH with
    | here _ hnone => simpa using hfirst hnone
    | past _ hH => simpa only [List.append_assoc] using hrest _ H hH
    | into _ _ hreach => exact ((harmless_some_iff.mp hG).2 hreach).elim

theorem clear_harmful (hG : ¬ CG.Harmless (some G)) : CG.Clear m way l (some G :: rest) ↔
    (¬ CG.isChecker G → ¬ CG.isDeclaration G → CG.ReachesCast G → m G = none → G ∉ way →
      CG.Clear m (insert G way) l (CG.records G)) := by
  constructor
  · exact fun h hchecker hcode hreach hnone hway l' H hH =>
      h l' H (.into hchecker hcode hreach hnone hway hH)
  · intro h l' H hH
    cases hH with
    | here hG' => exact (hG hG').elim
    | past hG' => exact (hG hG').elim
    | into hchecker hcode hreach hnone hway hH =>
      exact h hchecker hcode hreach hnone hway l' H hH

/-- The search is on this way and has entered these functions without casts: those that they reach
are visited, each named once. -/
structure Seen (CG : CallGraph Fn) (m : Fn → Option Bool) (V way : Finset Fn) (l : List Fn) :
    Prop where
  fresh : Fresh m V
  entered : CG.Open m l
  once : NamedOnce (CG.unsettledCallees m) l
  harmless : ∀ G, ¬ CG.ReachesCast G → (G ∈ V ↔ Reached (CG.unsettledCallees m) l G)
  harmful : ∀ G, CG.ReachesCast G → (G ∈ V ↔ G ∈ way)

theorem Seen.into (h : CG.Seen m V way l) (hF : CG.ReachesCast F) (hnone : m F = none) :
    CG.Seen m (insert F V) (insert F way) l where
  fresh := h.fresh.insert hnone
  entered := h.entered
  once := h.once
  harmless G hG := by
    have hne : G ≠ F := fun heq => hG (heq ▸ hF)
    rw [Finset.mem_insert, or_iff_right hne, h.harmless G hG]
  harmful G hG := by rw [Finset.mem_insert, Finset.mem_insert, h.harmful G hG]

variable [Fintype Fn] {l' : List Fn}

theorem Seen.explores_iff (h : CG.Seen m V way l) (hl' : CG.Open m l') :
    (∃ V', Explores (CG.unsettledCallees m) V l' V') ↔
      NamedOnce (CG.unsettledCallees m) (l ++ l') := by
  rw [TreeSearch.explores_iff, namedOnce_append, and_iff_right h.once]
  refine and_congr_right' (forall₂_congr fun x hx => ?_)
  rw [h.harmless x (hl'.reached hx).2]

theorem Seen.past (h : CG.Seen m V way l) (hl' : CG.Open m l')
    (hV' : Explores (CG.unsettledCallees m) V l' V') : CG.Seen m V' way (l ++ l') where
  fresh := h.fresh.explores hl' hV'
  entered G hG := (List.mem_append.mp hG).elim (h.entered G) (hl' G)
  once := (h.explores_iff hl').mp ⟨V', hV'⟩
  harmless G hG := by rw [hV'.visited.1, reached_append, h.harmless G hG]
  harmful G hG := by
    have hno : ¬ Reached (CG.unsettledCallees m) l' G := fun hreached => (hl'.reached hreached).2 hG
    rw [hV'.visited.1, or_iff_left hno, h.harmful G hG]

/-- A record whose search meets no visited function asks for nothing. -/
theorem Seen.clear_past (hV : CG.Seen m V way l) (hG : CG.Harmless (some G))
    (hV' : Explores (CG.unsettledCallees m) V (unsettled m [some G]) V') :
    CG.Clear m way l (some G :: rest) ↔ CG.Clear m way (l ++ unsettled m [some G]) rest := by
  rw [clear_harmless hG, and_iff_right]
  intro hnone _
  have hpast := (hV.past (open_some hG) hV').once
  exact Or.inr (by simpa only [unsettled_some hnone] using hpast)

/-- The search below the callee has met a visited function. -/
theorem Seen.not_clear (hV : CG.Seen m V way l) (hG : CG.Harmless (some G)) (hGV : G ∉ V)
    (hno : ¬ ∃ V', Explores (CG.unsettledCallees m) V (unsettled m [some G]) V') :
    ¬ CG.Clear m way l (some G :: rest) := by
  rw [clear_harmless hG]
  rintro ⟨hclear, -⟩
  apply hno
  cases hnone : m G with
  | some cached => exact ⟨V, by rw [unsettled_some_of_cached hnone]; exact .nil⟩
  | none =>
    refine (hV.explores_iff (open_some hG)).mpr ?_
    rw [unsettled_some hnone]
    refine (hclear hnone hV.once).resolve_left fun hreached => hGV ?_
    exact (hV.harmless G (harmless_some_iff.mp hG).2).mpr hreached

/-- The loop stops at a visited callee, as what would come next repeats it. -/
theorem Seen.clear_visited (hV : CG.Seen m V way l) (hG : CG.Harmless (some G)) (hGV : G ∈ V) :
    CG.Clear m way l (some G :: rest) := by
  have hreached := (hV.harmless G (harmless_some_iff.mp hG).2).mp hGV
  refine (clear_harmless hG).mpr ⟨fun _ _ => Or.inl hreached, ?_⟩
  rw [unsettled_some (hV.fresh G hGV)]
  intro l' H _ honce
  have hlist := (namedOnce_append.mp honce).1
  exact ((namedOnce_append.mp hlist).2.2 G (reached_of_mem List.mem_cons_self) hreached).elim

section Step

variable {recurse : Fn → Search Fn → Option (SearchResult Fn)} (hm : CG.Exact m)
  (hrec : ∀ G V r, ¬ CG.ReachesCast G → G ∉ V → Fresh m V →
    recurse G ⟨m, V⟩ = some r → CG.Settles m V (unsettled m [some G]) r)
  (hrec' : ∀ G V way l r, CG.ReachesCast G → G ∉ V → CG.Seen m V way l →
    recurse G ⟨m, V⟩ = some r → r.result = true ∧ (CG.Exact r.search.mayCastMap ↔
      (¬ CG.isDeclaration G → m G = none → CG.Clear m (insert G way) l (CG.records G))))
include hm hrec'

omit [Fintype Fn] in
/-- A record that leads to a cast ends the loop. -/
theorem examine_harmful (rest : List (Option Fn)) {complete : Bool} {I : Option Fn} {r : SearchResult Fn}
    (hV : CG.Seen m V way l) (hI : ¬ CG.Harmless I)
    (h : CG.examine recurse ⟨m, V⟩ complete I = some r) : r.result = true ∧
      (CG.Exact r.search.mayCastMap ↔ CG.Clear m way l (I :: rest)) := by
  cases I with
  | none =>
    cases h
    exact ⟨rfl, iff_of_true hm clear_none⟩
  | some G =>
    rw [clear_harmful hI]
    simp only [examine] at h
    split at h
    · rename_i hmem
      cases h
      refine ⟨rfl, iff_of_true hm fun _ _ hreach _ hway => ?_⟩
      exact (hway ((hV.harmful G hreach).mp hmem)).elim
    · rename_i hmem
      split at h
      · rename_i hchecker
        cases h
        exact ⟨rfl, iff_of_true hm fun hno => (hno hchecker).elim⟩
      · rename_i hchecker
        have hreach := (not_harmless_cases hI).resolve_left hchecker
        have hway : G ∉ way := fun hway => hmem ((hV.harmful G hreach).mpr hway)
        obtain ⟨r₀, hr₀, hr⟩ := Option.bind_eq_some_iff.mp h
        cases hr
        obtain ⟨hresult, hexact⟩ := hrec' G V way l r₀ hreach hmem hV hr₀
        refine ⟨hresult, hexact.trans ?_⟩
        simp [hchecker, hreach, hway]

include hrec

theorem mayCastLoop_exact_iff {complete : Bool} {r : SearchResult Fn} (hF : CG.ReachesCast F)
    (hV : CG.Seen m V way l) (hrecords : ∃ I ∈ records, ¬ CG.Harmless I)
    (h : CG.mayCastLoop recurse F ⟨m, V⟩ complete records = some r) :
    r.result = true ∧ (CG.Exact r.search.mayCastMap ↔ CG.Clear m way l records) := by
  have hcache (s : Search Fn) : CG.Exact (s.cache F true).mayCastMap ↔ CG.Exact s.mayCastMap := by
    rw [exact_cache_iff]
    simp [hF]
  induction records generalizing V l complete with
  | nil => simp at hrecords
  | cons I rest ih =>
    obtain ⟨r₁, h₁, hloop⟩ := Option.bind_eq_some_iff.mp h
    have hdone (hstop : r₁.result = true) : r.result = true ∧
        (CG.Exact r.search.mayCastMap ↔ CG.Exact r₁.search.mayCastMap) := by
      rw [hstop] at hloop
      cases hloop
      exact ⟨rfl, hcache _⟩
    by_cases hI : CG.Harmless I
    · obtain ⟨G, rfl, -⟩ := id hI
      rcases examine_harmless hrec hV.fresh hI h₁ with
        ⟨hGV, r₀, hr₀, hresult, hsearch⟩ | ⟨hGV, hresult, hsearch⟩
      · rcases hr₀ with ⟨V₁, hV₁, hfalse, hs⟩ | ⟨hno, htrue, hwrong⟩
        · rw [hresult, hfalse, hsearch, hs] at hloop
          simp only [Bool.false_eq_true, if_false] at hloop
          rw [hV.clear_past hI hV₁]
          exact ih (hV.past (open_some hI) hV₁) (by simpa [hI] using hrecords) hloop
        · obtain ⟨hstop, hexact⟩ := hdone (hresult.trans htrue)
          rw [hsearch] at hexact
          exact ⟨hstop, iff_of_false (mt hexact.mp hwrong) (hV.not_clear hI hGV hno)⟩
      · obtain ⟨hstop, hexact⟩ := hdone hresult
        rw [hsearch] at hexact
        exact ⟨hstop, iff_of_true (hexact.mpr hm) (hV.clear_visited hI hGV)⟩
    · obtain ⟨hresult, hexact⟩ := examine_harmful hm hrec' rest hV hI h₁
      obtain ⟨hstop, hdone⟩ := hdone hresult
      exact ⟨hstop, hdone.trans hexact⟩

end Step

omit [DecidableEq Fn] [Fintype Fn] in
theorem exists_not_harmless (hF : CG.ReachesCast F) (hcode : ¬ CG.isDeclaration F) :
    ∃ I ∈ CG.records F, ¬ CG.Harmless I := by
  rcases reachesCast_cases hF with (hdecl | hnone | ⟨G, hcall, hchecker⟩) | ⟨G, hcall, hG⟩
  · exact (hcode hdecl).elim
  · exact ⟨none, hnone, by simp [Harmless]⟩
  · exact ⟨some G, hcall, fun h => (harmless_some_iff.mp h).1 hchecker⟩
  · exact ⟨some G, hcall, fun h => (harmless_some_iff.mp h).2 hG⟩

theorem mayCast_exact_iff (hm : CG.Exact m) {fuel : Nat} {r : SearchResult Fn}
    (hF : CG.ReachesCast F) (hV : CG.Seen m V way l)
    (h : CG.mayCast junk fuel F ⟨m, V⟩ = some r) : r.result = true ∧
      (CG.Exact r.search.mayCastMap ↔
        (¬ CG.isDeclaration F → m F = none → CG.Clear m (insert F way) l (CG.records F))) := by
  induction fuel generalizing F V way l r with
  | zero => cases h
  | succ fuel ih =>
    by_cases hcode : CG.isDeclaration F
    · simp only [mayCast, if_pos hcode] at h
      cases h
      exact ⟨rfl, iff_of_true hm fun hno => (hno hcode).elim⟩
    · simp only [mayCast, if_neg hcode] at h
      cases hF' : m F with
      | some cached =>
        simp only [hF'] at h
        cases h
        exact ⟨(hm F cached hF').mpr hF, iff_of_true hm fun _ hnone => by cases hnone⟩
      | none =>
        simp only [hF'] at h
        have hloop := mayCastLoop_exact_iff hm
          (fun G V r hG hGV hfresh => mayCast_settles hm hG hGV hfresh)
          (fun G V way l r hG _ hseen => ih hG hseen) hF (hV.into hF hF')
          (exists_not_harmless hF hcode) h
        simpa [hcode] using hloop

/-- The answer to `runOnModule` is right, and so is the cache then, exactly if no function without
casts is named twice. -/
theorem query_exact_iff (hm : CG.Exact m) {fuel : Nat} {r : SearchResult Fn}
    (h : CG.mayCast junk fuel F ⟨m, ∅⟩ = some r) :
    (CG.Exact (r.search.cache F r.result).mayCastMap ↔ CG.SearchesOnce m F) ∧
      (CG.SearchesOnce m F → ¬ CG.ReachesCast F → r.result = false) := by
  by_cases hF : CG.ReachesCast F
  · refine ⟨?_, fun _ hno => (hno hF).elim⟩
    have hsearch : CG.SearchesOnce m F ↔ (¬ CG.isDeclaration F → m F = none →
        CG.Clear m {F} [] (CG.records F)) :=
      ⟨fun hs => hs.harmful hF, fun hclear => ⟨fun hno => (hno hF).elim, fun _ => hclear⟩⟩
    have hstart : CG.Seen m ∅ ∅ [] :=
      ⟨by simp [Fresh], by simp [Open], NamedOnce.nil, by simp, by simp⟩
    obtain ⟨hresult, hexact⟩ := mayCast_exact_iff hm hF hstart h
    rw [hsearch, exact_cache_iff, hexact, hresult]
    simp [hF]
  · have hsearch : CG.SearchesOnce m F ↔
        NamedOnce (CG.unsettledCallees m) (unsettled m [some F]) :=
      ⟨fun hs => hs.harmless hF, fun honce => ⟨fun _ => honce, fun hreach => (hF hreach).elim⟩⟩
    have hnames : (∃ V', Explores (CG.unsettledCallees m) ∅ (unsettled m [some F]) V') ↔
        CG.SearchesOnce m F := by
      rw [TreeSearch.explores_iff, hsearch]
      simp
    rcases mayCast_settles hm hF (by simp) (by simp [Fresh]) h with
      ⟨V', hV', hfalse, hs⟩ | ⟨hno, htrue, hwrong⟩
    · refine ⟨iff_of_true ?_ (hnames.mp ⟨V', hV'⟩), fun _ _ => hfalse⟩
      rw [exact_cache_iff, hs, hfalse]
      exact ⟨hm, fun _ => iff_of_false (by simp) hF⟩
    · rw [hnames] at hno
      exact ⟨iff_of_false (fun hexact => hwrong (exact_cache_iff.mp hexact).1) hno,
        fun hs => (hno hs).elim⟩

/-! Whole modules. -/

/-- An entry of the cache stays. -/
def Keeps (m m' : Fn → Option Bool) : Prop := ∀ G b, m G = some b → m' G = some b

omit [Fintype Fn] in
theorem keeps_cache (s : Search Fn) (F : Fn) (b : Bool) :
    Keeps s.mayCastMap (s.cache F b).mayCastMap := by
  intro G b' hG
  unfold Search.cache
  split
  · exact hG
  · rename_i hnone
    have hne : G ≠ F := by
      rintro rfl
      simp [hnone] at hG
    simpa [Function.update_of_ne hne] using hG

omit [Fintype Fn] in
theorem mayCastLoop_keeps {recurse : Fn → Search Fn → Option (SearchResult Fn)}
    (hrec : ∀ G s r, recurse G s = some r → Keeps s.mayCastMap r.search.mayCastMap)
    {s : Search Fn} {complete : Bool} {r : SearchResult Fn}
    (h : CG.mayCastLoop recurse F s complete records = some r) :
    Keeps s.mayCastMap r.search.mayCastMap := by
  induction records generalizing s complete with
  | nil =>
    cases h
    exact fun G b hG => hG
  | cons I rest ih =>
    obtain ⟨r₁, h₁, hloop⟩ := Option.bind_eq_some_iff.mp h
    have hone : Keeps s.mayCastMap r₁.search.mayCastMap := by
      cases I with
      | none =>
        cases h₁
        exact fun G b hG => hG
      | some G =>
        simp only [examine] at h₁
        split at h₁
        · cases h₁
          exact fun G b hG => hG
        · split at h₁
          · cases h₁
            exact fun G b hG => hG
          · obtain ⟨r₀, hr₀, hr⟩ := Option.bind_eq_some_iff.mp h₁
            cases hr
            exact hrec G s r₀ hr₀
    split at hloop
    · cases hloop
      exact fun G b hG => keeps_cache _ F true G b (hone G b hG)
    · exact fun G b hG => ih hloop G b (hone G b hG)

omit [Fintype Fn] in
theorem mayCast_keeps {fuel : Nat} {s : Search Fn} {r : SearchResult Fn}
    (h : CG.mayCast junk fuel F s = some r) : Keeps s.mayCastMap r.search.mayCastMap := by
  induction fuel generalizing F s r with
  | zero => cases h
  | succ fuel ih =>
    simp only [mayCast] at h
    split at h
    · cases h
      exact fun G b hG => hG
    · split at h
      · cases h
        exact fun G b hG => hG
      · exact mayCastLoop_keeps (fun G s r => ih (F := G) (s := s) (r := r))
          (s := { s with visited := insert F s.visited }) h

omit [DecidableEq Fn] [Fintype Fn] in
theorem Exact.of_keeps {m' : Fn → Option Bool} (h : CG.Exact m') (hkeeps : Keeps m m') :
    CG.Exact m :=
  fun F b hF => h F b (hkeeps F b hF)

/-- What one function of the module does to the cache. -/
structure Visited (CG : CallGraph Fn) (st : ModuleState Fn) (F : Fn) (st' : ModuleState Fn) :
    Prop where
  keeps : Keeps st.mayCastMap st'.mayCastMap
  untracked : st.untracked ⊆ st'.untracked
  exact_iff : CG.Exact st.mayCastMap → (CG.Exact st'.mayCastMap ↔
    (CG.Queried F → CG.SearchesOnce st.mayCastMap F))
  answered : CG.Exact st.mayCastMap → CG.Exact st'.mayCastMap → CG.Queried F →
    ¬ CG.ReachesCast F → F ∈ st'.untracked

theorem visitFunction_visited {st st' : ModuleState Fn}
    (h : CG.visitFunction junk false st F = some st') : CG.Visited st F st' := by
  simp only [visitFunction, Bool.false_eq_true, if_false] at h
  split at h
  · rename_i hskip
    cases h
    have hno : ¬ CG.Queried F := by
      rintro ⟨hcode, hname⟩
      simp [hcode, hname] at hskip
    exact ⟨fun G b hG => hG, List.Subset.refl _, fun hexact => iff_of_true hexact
      fun hqueried => (hno hqueried).elim, fun _ _ hqueried => (hno hqueried).elim⟩
  · rename_i hask
    have hqueried : CG.Queried F := by
      simpa [Queried] using hask
    obtain ⟨r, hr, hst'⟩ := Option.bind_eq_some_iff.mp h
    cases hst'
    refine ⟨fun G b hG => keeps_cache _ F _ G b (mayCast_keeps hr G b hG), ?_, fun hexact => ?_,
      fun hexact hexact' _ hF => ?_⟩
    · simp only
      split
      · exact List.Subset.refl _
      · exact List.subset_append_left _ _
    · rw [forall_prop_of_true hqueried]
      exact (query_exact_iff hexact hr).1
    · obtain ⟨hiff, hanswer⟩ := query_exact_iff hexact hr
      simp [hanswer (hiff.mp hexact') hF]

theorem exec_keeps {st st' : ModuleState Fn} {order : List Fn}
    (h : Runs.exec (CG.visitFunction junk false) st order = some st') :
    Keeps st.mayCastMap st'.mayCastMap := by
  induction order generalizing st with
  | nil =>
    cases h
    exact fun G b hG => hG
  | cons F order ih =>
    obtain ⟨st₁, h₁, hrest⟩ := Option.bind_eq_some_iff.mp h
    exact fun G b hG => ih hrest G b ((visitFunction_visited h₁).keeps G b hG)

theorem exec_answered {st st' : ModuleState Fn} {order : List Fn}
    (h : Runs.exec (CG.visitFunction junk false) st order = some st')
    (hexact : CG.Exact st'.mayCastMap) :
    ∀ F ∈ order, CG.Queried F → ¬ CG.ReachesCast F → F ∈ st'.untracked := by
  induction order using List.reverseRecOn generalizing st' with
  | nil => simp
  | append_singleton order G ih =>
    obtain ⟨st₀, h₀, hlast⟩ := Runs.exec_snoc_cases h
    have hvisited := visitFunction_visited hlast
    have hexact₀ : CG.Exact st₀.mayCastMap := hexact.of_keeps hvisited.keeps
    intro F hF hqueried hno
    rcases List.mem_append.mp hF with hF | hF
    · exact hvisited.untracked (ih h₀ hexact₀ F hF hqueried hno)
    · obtain rfl := List.mem_singleton.mp hF
      exact hvisited.answered hexact₀ hexact hqueried hno

/-- The cache is right in the end exactly if every search names no function without casts twice. -/
theorem exec_exact_iff {st : ModuleState Fn} {order : List Fn}
    (h : Runs.exec (CG.visitFunction junk false) .init order = some st) :
    CG.Exact st.mayCastMap ↔ Runs.Guarded (CG.visitFunction junk false)
      (fun st F => CG.Queried F → CG.SearchesOnce st.mayCastMap F) .init order := by
  have hinit : CG.Exact (.init : ModuleState Fn).mayCastMap := by
    simp [Exact, ModuleState.init]
  have hstep (t : ModuleState Fn) (F : Fn) (u : ModuleState Fn) (ht : CG.Exact t.mayCastMap)
      (hok : CG.Queried F → CG.SearchesOnce t.mayCastMap F)
      (hu : CG.visitFunction junk false t F = some u) : CG.Exact u.mayCastMap :=
    ((visitFunction_visited hu).exact_iff ht).mpr hok
  refine ⟨fun hexact => ?_, fun hok =>
    Runs.exec_invariant (I := fun t => CG.Exact t.mayCastMap) hinit hstep hok h⟩
  by_contra hmiss
  obtain ⟨front, F, t, ⟨rest, hrest⟩, ht, hF, hfront⟩ := Runs.exists_first_miss hmiss
  have hexact₀ : CG.Exact t.mayCastMap :=
    Runs.exec_invariant (I := fun t => CG.Exact t.mayCastMap) hinit hstep hfront ht
  rw [← hrest, Runs.exec_append, Option.bind_eq_some_iff] at h
  obtain ⟨u, hu, hafter⟩ := h
  have hu' : CG.visitFunction junk false t F = some u := (Runs.exec_snoc ht).symm.trans hu
  have hexact₁ : CG.Exact u.mayCastMap := hexact.of_keeps (exec_keeps hafter)
  exact hF (((visitFunction_visited hu').exact_iff hexact₀).mp hexact₁)

variable (CG) (junk) in
theorem runOnModule_eq_exec (disableStackOpt : Bool) (order : List Fn) :
    CG.runOnModule junk disableStackOpt order =
      Runs.exec (CG.visitFunction junk disableStackOpt) .init order := by
  have hfold : ∀ st, order.foldlM (CG.visitFunction junk disableStackOpt) st =
      Runs.exec (CG.visitFunction junk disableStackOpt) st order := by
    induction order with
    | nil => exact fun st => rfl
    | cons F order ih =>
      intro st
      simp [List.foldlM_cons, ih]
  exact hfold .init

/-- Every function that reaches no cast is left untracked, and no search has said of one that it
may cast, exactly if no search names a function twice that reaches no cast and was not settled
before. -/
theorem mayCast_exact_iff_searchesOnce (CG : CallGraph Fn) (junk : Search Fn → Fn → Bool)
    (order : List Fn) : ∃ st, CG.runOnModule junk false order = some st ∧
      (((∀ F ∈ order, CG.Queried F → ¬ CG.ReachesCast F → F ∈ st.untracked) ∧
        ∀ F, st.mayCastMap F = some true → CG.ReachesCast F) ↔
      Runs.Guarded (CG.visitFunction junk false)
        (fun st F => CG.Queried F → CG.SearchesOnce st.mayCastMap F) .init order) := by
  obtain ⟨st, hst, hinv⟩ := runOnModule_inv CG junk false order
  refine ⟨st, hst, ?_⟩
  rw [runOnModule_eq_exec] at hst
  rw [← exec_exact_iff hst]
  constructor
  · rintro ⟨-, htrue⟩ F b hF
    cases b with
    | true => exact iff_of_true rfl (htrue F hF)
    | false => exact iff_of_false (by simp) (hinv.sound F hF)
  · exact fun hexact => ⟨exec_answered hst hexact, fun F hF => (hexact F true hF).mp rfl⟩

/-- A module with one function, which calls itself and nothing else. -/
def recursion : CallGraph Unit where
  getName _ := "fib"
  isDeclaration _ := false
  hasCode _ := true
  records _ := [some ()]

theorem mayCast_exact_fails_on_recursion : ¬ recursion.ReachesCast () ∧ recursion.Queried () ∧
    ∃ st, recursion.runOnModule (fun _ _ => false) false [()] = some st ∧
      () ∉ st.untracked ∧ st.mayCastMap () = some true := by
  refine ⟨?_, ⟨rfl, by decide⟩, _, rfl, by decide, by decide⟩
  rintro ⟨F, -, hdecl | hnone | ⟨G, -, hchecker⟩⟩
  · cases hdecl
  · simp [recursion] at hnone
  · have hno : recursion.isChecker () = false := by decide
    exact Bool.false_ne_true (hno.symm.trans hchecker)

end TypeSan.CallGraph
