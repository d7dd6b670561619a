import TypeSan.CheckReads
import TypeSan.ModuleTables

/-! The walk ends, and reads the tables of its type and of the element types nested in it only. -/
namespace TypeSan

open WordMemory

/-! Any list of pairs with an end mark behind it. -/

/-- The words of a list of pairs, and the end mark. -/
def pairWords (pairs : List (Nat × Nat)) : List Nat :=
  pairs.flatMap (fun pair => [pair.1, pair.2]) ++ [minusOne]

theorem pairWords_cons (pair : Nat × Nat) (pairs : List (Nat × Nat)) :
    pairWords (pair :: pairs) = pair.1 :: pair.2 :: pairWords pairs := rfl

/-- The walk from any offset through the table at the address ends. -/
def Ends (mem : Memory) (table : Nat) : Prop :=
  ∀ k < 2 ^ 63, ∃ src, Yields mem (k : Nat) 0 (table + 8) (.src src)

theorem exists_tmod {k : Nat} (hk : k < 2 ^ 63) (size : Int) :
    ∃ rest : Nat, rest < 2 ^ 63 ∧ (k : Int).tmod size = rest := by
  obtain ⟨rest, hrest⟩ := Int.eq_ofNat_of_zero_le (Int.tmod_nonneg size (Int.natCast_nonneg k))
  refine ⟨rest, ?_, hrest⟩
  have habs := Int.natAbs_tmod (k : Int) size
  rw [hrest, Int.natAbs_natCast, Int.natAbs_natCast] at habs
  have hle := Nat.mod_le k size.natAbs
  omega

section Pairs

variable {mem : Memory} {k : Nat} (hk : k < 2 ^ 63)
include hk

/-- The walk stops at a pair that it cannot pass: in the element's table if the pair is an array's,
or nowhere. -/
theorem exists_yields_of_stop {word payload next typeInfo : Nat} (hword : clearFlag word ≤ k)
    (hne : (k : Int) ≠ toLong word) (hpayload : mem (typeInfo + 8) = some payload)
    (hnext : mem (typeInfo + 16) = some next) (hlt : k < clearFlag next)
    (harray : clearFlag word ≠ word →
      ∃ size, mem payload = some size ∧ size ≠ 0 ∧ Ends mem payload) :
    ∃ src, Yields mem k word typeInfo (.src src) := by
  have hlt' : ¬ toLong (clearFlag next) ≤ (k : Int) := by
    rw [toLong_clearFlag]
    omega
  by_cases hflag : clearFlag word = word
  · refine ⟨0, .done ?_⟩
    simp only [walkRound, if_neg hne, hnext, if_neg hlt', hflag, if_true]
  · obtain ⟨size, hsize, hpos, hends⟩ := harray hflag
    obtain ⟨rest, hrest_lt, hrest⟩ := exists_tmod (k := k - clearFlag word) (by omega) (toLong size)
    obtain ⟨src, hsrc⟩ := hends rest hrest_lt
    refine ⟨src, .next ?_ hsrc⟩
    rw [Int.ofNat_sub hword, ← toLong_clearFlag] at hrest
    simp only [walkRound, if_neg hne, hnext, if_neg hlt', if_neg (Ne.symm hflag), hpayload, hsize,
      Option.bind_some, Option.map_some, if_neg hpos, hrest]

/-- Every walk through pairs ends, if those of array entries lead to tables through which it does. -/
theorem exists_yields_of_pairs {pairs : List (Nat × Nat)} {word payload typeInfo : Nat}
    (hmem : Holds mem typeInfo (word :: payload :: pairWords pairs)) (hword : clearFlag word ≤ k)
    (harray : ∀ pair ∈ (word, payload) :: pairs, clearFlag pair.1 ≠ pair.1 →
      ∃ size, mem pair.2 = some size ∧ size ≠ 0 ∧ Ends mem pair.2) :
    ∃ src, Yields mem k word typeInfo (.src src) := by
  induction pairs generalizing word payload typeInfo with
  | nil =>
    by_cases hhit : (k : Int) = toLong word
    · exact ⟨payload, .done (by rw [walkRound, if_pos hhit, hmem.tail.head]; rfl)⟩
    have hnext : mem (typeInfo + 16) = some minusOne := hmem.tail.tail.head
    by_cases hend : k < clearFlag minusOne
    · exact exists_yields_of_stop hk hword hhit hmem.tail.head hnext hend
        (harray _ List.mem_cons_self)
    · have hle : toLong (clearFlag minusOne) ≤ (k : Int) := by
        rw [toLong_clearFlag]
        omega
      exact ⟨0, .done (by simp only [walkRound, if_neg hhit, hnext, if_pos hle, if_true])⟩
  | cons pair pairs ih =>
    rw [pairWords_cons] at hmem
    by_cases hhit : (k : Int) = toLong word
    · exact ⟨payload, .done (by rw [walkRound, if_pos hhit, hmem.tail.head]; rfl)⟩
    have hnext : mem (typeInfo + 16) = some pair.1 := hmem.tail.tail.head
    by_cases hstop : k < clearFlag pair.1
    · exact exists_yields_of_stop hk hword hhit hmem.tail.head hnext hstop
        (harray _ List.mem_cons_self)
    by_cases hend : pair.1 = minusOne
    · have hle : toLong (clearFlag pair.1) ≤ (k : Int) := by
        rw [toLong_clearFlag]
        omega
      exact ⟨0, .done (by simp only [walkRound, if_neg hhit, hnext, if_pos hle, if_pos hend])⟩
    · obtain ⟨src, hsrc⟩ := ih hmem.tail.tail (by omega)
        fun pair' hpair' => harray pair' (List.mem_cons_of_mem _ hpair')
      exact ⟨src, hsrc.next (walkRound_advance hhit hnext (by omega) hend)⟩

end Pairs

/-! The pairs of a table. -/

/-- The pairs that the loop over a struct node's offsets writes. -/
def infoPairs (addrOf : String → Nat) (pending : Nat) : Offsets → List (Nat × Nat)
  | [] => []
  | e :: rest =>
    (if pending ≠ 0 ∧ e.1 ≠ pending then [(pending, minusOne)] else []) ++
      (entryWord e, entryPayload addrOf e) :: infoPairs addrOf (endAfter pending e) rest

theorem restWords_eq_pairWords (addrOf : String → Nat) (pending : Nat) (L : Offsets) :
    restWords addrOf pending L = pairWords (infoPairs addrOf pending L) := by
  induction L generalizing pending with
  | nil => rfl
  | cons e rest ih =>
    rw [restWords_cons, infoPairs, ih]
    split <;> rfl

theorem endAfter_lt {pending : Nat} {e : Nat × TypeNode} (hpending : pending < 2 ^ 63)
    (hfit : e.1 + e.2.extent < 2 ^ 63) : endAfter pending e < 2 ^ 63 := by
  obtain ⟨o, node⟩ := e
  cases node with
  | structNode U =>
    simp only [endAfter]
    split
    · exact Nat.two_pow_pos 63
    · exact hpending
  | arrayNode c A =>
    simp only [endAfter, Nat.mul_comm A.ty.allocSize]
    exact hfit

/-- Only array entries are flagged, if offsets and array ends fit in 63 bits. -/
theorem mem_infoPairs_flagged {addrOf : String → Nat} {pending : Nat} {L : Offsets}
    (hpending : pending < 2 ^ 63) (hfits : ∀ e ∈ L, e.1 + e.2.extent < 2 ^ 63) {pair : Nat × Nat}
    (hpair : pair ∈ infoPairs addrOf pending L) (hflag : clearFlag pair.1 ≠ pair.1) :
    ∃ o c A, (o, .arrayNode c A) ∈ L ∧ pair.2 = addrOf A.typeInfoName := by
  induction L generalizing pending with
  | nil => cases hpair
  | cons e rest ih =>
    have hfit := hfits e List.mem_cons_self
    rw [infoPairs] at hpair
    rcases List.mem_append.mp hpair with hmark | hpair
    · split at hmark
      · obtain rfl := List.mem_singleton.mp hmark
        exact (hflag (clearFlag_of_lt hpending)).elim
      · cases hmark
    rcases List.mem_cons.mp hpair with rfl | hpair
    · obtain ⟨o, node⟩ := e
      cases node with
      | structNode U =>
        simp only [TypeNode.extent] at hfit
        exact (hflag (clearFlag_of_lt (show o < 2 ^ 63 by omega))).elim
      | arrayNode c A => exact ⟨o, c, A, List.mem_cons_self, rfl⟩
    · obtain ⟨o, c, A, hA, heq⟩ := ih (endAfter_lt hpending hfit)
        (fun e' he' => hfits e' (List.mem_cons_of_mem e he')) hpair
      exact ⟨o, c, A, List.mem_cons_of_mem e hA, heq⟩

/-- The offsets in a table, and the ends of its arrays, are below the flag. -/
def StructType.OffsetsFit (s : StructType) : Prop := ∀ e ∈ s.offsets, e.1 + e.2.extent < 2 ^ 63

/-- Every table but a blacklisted type's is a size word, and pairs of which the first one has
offset 0. -/
theorem exists_pairs {s : StructType} (addrOf : String → Nat) (hblack : s.isBlacklisted = false)
    (hfits : s.isTracked = true → s.OffsetsFit) :
    ∃ payload pairs, wordsOf addrOf (infoMembers s) =
        s.ty.allocSize :: 0 :: payload :: pairWords pairs ∧
      (∀ pair ∈ pairs, clearFlag pair.1 ≠ pair.1 →
        ∃ A ∈ s.arrayElements, pair.2 = addrOf A.typeInfoName) ∧
      (s.isTracked = false → payload = minusOne ∧ pairs = []) := by
  cases htracked : s.isTracked with
  | false =>
    refine ⟨minusOne, [], ?_, by simp, by simp⟩
    rw [infoMembers, if_neg (by simp [htracked]), if_neg (by simp [hblack])]
    rfl
  | true =>
    have hfits := hfits htracked
    refine ⟨getHashCodeFromStruct s, infoPairs addrOf 0
      (elementsOffsets (getLayout s.isPacked s.elements) 0 s.elements), ?_,
      fun pair hpair hflag => ?_, by simp⟩
    · rw [wordsOf_infoMembers htracked, offsets_eq_cons, restWords_eq_pairWords]
      rfl
    · rw [StructType.OffsetsFit, offsets_eq_cons] at hfits
      obtain ⟨o, c, A, hA, heq⟩ := mem_infoPairs_flagged (Nat.two_pow_pos 63)
        (fun e he => hfits e (List.mem_cons_of_mem _ he)) hpair hflag
      have hmem : (o, .arrayNode c A) ∈ s.offsets := by
        rw [offsets_eq_cons]
        exact List.mem_cons_of_mem _ hA
      exact ⟨A, mem_arrayElements htracked hmem, heq⟩

/-! The tables that a walk may read. -/

/-- The words of the tables of a type and of the element types nested in it. -/
def nestedWords (addrOf : String → Nat) (globals : Globals) (T : StructType) : List Nat :=
  (globals.filter fun table => table.1 ∈ T.nodes.map StructType.typeInfoName).flatMap
    (tableWords addrOf)

/-- Entered at the size word or just past it, and at every offset, the walk ends, and reads these
words only. -/
def EndsInside (mem : Memory) (addrOf : String → Nat) (globals : Globals) (T : StructType) : Prop :=
  ∀ k < 2 ^ 63, ∀ entry ∈ [addrOf T.typeInfoName, addrOf T.typeInfoName + 8],
    ∃ src, Finds (restrict mem (nestedWords addrOf globals T)) (k : Nat) entry src

/-- The table that a node gets starts with a size to divide by. -/
def Divides (globals : Globals) (A : StructType) : Prop :=
  ∃ size rest, size ≠ 0 ∧ globals.lookup A.typeInfoName = some (.int size :: rest)

/-- No size word that a walk through the table divides by is 0, nor, for a tracked type, the first
one. -/
structure SizeWords (globals : Globals) (T : StructType) : Prop where
  own : T.isTracked = true → 0 < T.ty.allocSize
  elements : ∀ s ∈ T.nodes, ∀ A ∈ s.arrayElements, Divides globals A

theorem nodes_subset {requests : List StructType} {T : StructType}
    (hT : T ∈ requestedNodes requests) : T.nodes ⊆ requestedNodes requests :=
  Memo.order_subset_of_mem (requestedNodes_closed requests) hT _

section Tables

variable {mem : Memory} {addrOf : String → Nat} {requests : List StructType} {globals : Globals}
  {T s : StructType} (h : ModuleTables mem addrOf requests globals)
  (hT : T ∈ requestedNodes requests) (hblack : ∀ s ∈ T.nodes, s.isBlacklisted = false)
  (hfits : ∀ s ∈ T.nodes, s.OffsetsFit)
include h hT

/-- The table that a node gets is one that the walk may read. -/
theorem ModuleTables.nested_table (hs : s ∈ T.nodes) :
    ∃ first ∈ requestedNodes requests, first.infoName = s.infoName ∧
      globals.lookup s.typeInfoName = some (infoMembers first) ∧
      Holds (restrict mem (nestedWords addrOf globals T)) (addrOf s.typeInfoName)
        (wordsOf addrOf (infoMembers first)) := by
  obtain ⟨first, hfirst, hname, hlookup, hwords⟩ := h.exists_table (nodes_subset hT hs)
  refine ⟨first, hfirst, hname, hlookup, hwords.restrict fun address haddress => ?_⟩
  obtain ⟨l₁, l₂, heq, -⟩ := List.lookup_eq_some_iff.mp hlookup
  refine List.mem_flatMap.mpr ⟨(s.typeInfoName, infoMembers first), ?_, ?_⟩
  · refine List.mem_filter.mpr ⟨by rw [heq]; simp, ?_⟩
    simpa using ⟨s, hs, rfl⟩
  · rwa [wordsOf, List.length_map] at haddress

/-- A table is the node's own, unless untracked types share it. -/
theorem ModuleTables.first_eq_or {first : StructType} (hs : s ∈ T.nodes)
    (hfirst : first ∈ requestedNodes requests) (hname : first.infoName = s.infoName) :
    first = s ∨
      (s.isTracked = false ∧ first.isTracked = false ∧ first.isBlacklisted = false) := by
  rcases h.names.cases hfirst (nodes_subset hT hs) hname with heq | ⟨hnone, hnone'⟩ | ⟨hC, hC'⟩
  · exact Or.inl heq
  · simp [StructType.isTracked, StructType.isBlacklisted, hnone, hnone']
  · simp only [StructType.isNonCxx, Bool.and_eq_true, Bool.not_eq_true'] at hC hC'
    exact Or.inr ⟨hC'.1.2, hC.1.2, hC.2⟩

include hblack hfits

/-- It is a size word, and pairs of which the first one has offset 0. -/
theorem ModuleTables.nested_pairs (hs : s ∈ T.nodes) :
    ∃ size payload pairs rest, globals.lookup s.typeInfoName = some (.int size :: rest) ∧
      Holds (restrict mem (nestedWords addrOf globals T)) (addrOf s.typeInfoName)
        (size :: 0 :: payload :: pairWords pairs) ∧
      (∀ pair ∈ pairs, clearFlag pair.1 ≠ pair.1 →
        ∃ A ∈ s.arrayElements, pair.2 = addrOf A.typeInfoName) ∧
      (s.isTracked = true → size = s.ty.allocSize) ∧
      (s.isTracked = false → payload = minusOne ∧ pairs = []) := by
  obtain ⟨first, hfirst, hname, hlookup, hwords⟩ := h.nested_table hT hs
  rcases h.first_eq_or hT hs hfirst hname with rfl | ⟨hs', htracked, hfirst'⟩
  · obtain ⟨payload, pairs, heq, hpairs, hplain⟩ :=
      exists_pairs addrOf (hblack first hs) fun _ => hfits first hs
    rw [heq] at hwords
    exact ⟨_, payload, pairs, _, hlookup, hwords, hpairs, fun _ => rfl, hplain⟩
  · obtain ⟨payload, pairs, heq, -, hplain⟩ :=
      exists_pairs addrOf hfirst' fun htrue => absurd htrue (by simp [htracked])
    rw [heq] at hwords
    obtain ⟨-, rfl⟩ := hplain htracked
    exact ⟨_, payload, [], _, hlookup, hwords, by simp, fun htrue => absurd htrue (by simp [hs']),
      fun _ => hplain htracked⟩

/-- Every walk through one of the tables ends. -/
theorem ModuleTables.ends (hsizes : SizeWords globals T) (hs : s ∈ T.nodes) :
    Ends (restrict mem (nestedWords addrOf globals T)) (addrOf s.typeInfoName) := by
  induction hd : s.ty.depth using Nat.strong_induction_on generalizing s with
  | _ d ih =>
    subst hd
    obtain ⟨size, payload, pairs, rest, -, hwords, hpairs, -⟩ :=
      h.nested_pairs hT hblack hfits hs
    intro k hk
    apply exists_yields_of_pairs hk hwords.tail (Nat.zero_le k)
    intro pair hpair hflag
    rcases List.mem_cons.mp hpair with rfl | hpair
    · exact (hflag (clearFlag_of_lt (Nat.two_pow_pos 63))).elim
    obtain ⟨A, hA, heq⟩ := hpairs pair hpair hflag
    have hmem : A ∈ T.nodes := nodes_closed T s hs hA
    obtain ⟨size', rest', hpos, hlookup⟩ := hsizes.elements s hs A hA
    obtain ⟨sizeA, payloadA, pairsA, restA, hlookupA, hwordsA, -⟩ :=
      h.nested_pairs hT hblack hfits hmem
    obtain rfl : sizeA = size' := by
      rw [hlookupA] at hlookup
      exact Const.int.inj (List.cons.inj (Option.some.inj hlookup)).1
    rw [heq]
    exact ⟨sizeA, hwordsA.head, hpos, ih _ (arrayElements_depth_lt hA) hmem rfl⟩

/-- The walk ends inside the tables, wherever no size word that it divides by is 0. -/
theorem ModuleTables.endsInside (hsizes : SizeWords globals T) :
    EndsInside mem addrOf globals T := by
  have hself : T ∈ T.nodes := Memo.mem_order (depth_pos T)
  have hends := h.ends hT hblack hfits hsizes hself
  obtain ⟨size, payload, pairs, rest, -, hwords, -, hown, hplain⟩ :=
    h.nested_pairs hT hblack hfits hself
  intro k hk entry hentry
  rcases List.mem_pair.mp hentry with rfl | rfl
  · by_cases hsize : size = 0
    · -- no tracked type has a size word of 0, and in other tables the words behind it end the walk
      cases htracked : T.isTracked with
      | true => exact absurd (hown htracked ▸ hsize) (Nat.pos_iff_ne_zero.mp (hsizes.own htracked))
      | false =>
        obtain ⟨rfl, rfl⟩ := hplain htracked
        subst hsize
        have hmem : Holds (restrict mem (nestedWords addrOf globals T)) (addrOf T.typeInfoName)
            (0 :: 0 :: pairWords []) := @Holds.left _ _ (0 :: 0 :: pairWords []) [minusOne] hwords
        obtain ⟨src, hsrc⟩ := exists_yields_of_pairs hk hmem (Nat.zero_le k)
          (by simp [clearFlag])
        exact ⟨src, 0, hwords.head, hsrc⟩
    · obtain ⟨rest, hrest_lt, hrest⟩ := exists_tmod hk (toLong size)
      obtain ⟨src, hsrc⟩ := hends rest hrest_lt
      exact ⟨src, size, hwords.head, by rwa [if_pos hsize, hrest]⟩
  · obtain ⟨src, hsrc⟩ := hends k hk
    exact ⟨src, 0, hwords.tail.head, hsrc⟩

end Tables

/-! A size word of 0 is divided by, if types are solid. -/

theorem mem_nodes {s T : StructType} (hs : s ∈ T.nodes) :
    s = T ∨ ∃ B ∈ T.arrayElements, s ∈ B.nodes := by
  obtain ⟨fuel, hfuel⟩ := Nat.exists_eq_add_of_le' (depth_pos T)
  rw [StructType.nodes, hfuel, Memo.order] at hs
  rcases List.mem_append.mp hs with hs | hs
  · obtain ⟨B, hB, hs⟩ := List.mem_flatMap.mp hs
    exact Or.inr ⟨B, hB,
      Memo.order_subset_of_mem (nodes_closed B) (Memo.mem_order (depth_pos B)) fuel hs⟩
  · exact Or.inl (List.mem_singleton.mp hs)

/-- Only a tracked type's table refers to others. -/
theorem isTracked_of_nested {s T A : StructType} (hs : s ∈ T.nodes) (hA : A ∈ s.arrayElements) :
    T.isTracked = true := by
  rcases mem_nodes hs with rfl | ⟨B, hB, -⟩
  · exact (exists_arrayEntry hA).1
  · exact (exists_arrayEntry hB).1

/-- What a solid type nests fits in it. -/
theorem nested_solid {s T : StructType} (hs : s ∈ T.nodes) (hT : Solid T.ty) :
    Solid s.ty ∧ s.ty.allocSize ≤ T.ty.allocSize := by
  induction hd : T.ty.depth using Nat.strong_induction_on generalizing T with
  | _ d ih =>
    subst hd
    rcases mem_nodes hs with rfl | ⟨B, hB, hs⟩
    · exact ⟨hT, Nat.le_refl _⟩
    · obtain ⟨-, o, c, he⟩ := exists_arrayEntry hB
      have hsub := arrayEntry_subobject hT he
      have hend := subobject_end_le hsub
      obtain ⟨hsolid, hle⟩ :=
        ih _ (arrayElements_depth_lt hB) hs (subobject_solid hsub hT) rfl
      exact ⟨hsolid, by omega⟩

theorem offsetsFit_of_solid {s : StructType} (hs : Solid s.ty) (hsize : s.ty.allocSize < 2 ^ 63) :
    s.OffsetsFit := by
  intro e he
  have := ((flattened hs).ordered.2 e he).2
  omega

section Fault

variable {mem : Memory} {addrOf : String → Nat} {requests : List StructType} {globals : Globals}
  {T s A : StructType} (h : ModuleTables mem addrOf requests globals)
  (hT : T ∈ requestedNodes requests) (hsolid : Solid T.ty) (hsize : T.ty.allocSize < 2 ^ 63)
include h hT hsolid hsize

/-- Some offset leads the walk to the element type, and there to a division by 0. -/
theorem ModuleTables.exists_fault (hs : s ∈ T.nodes) (hA : A ∈ s.arrayElements)
    (hzero : mem (addrOf A.typeInfoName) = some 0) :
    ∃ k < T.ty.allocSize, Yields mem k 0 (addrOf T.typeInfoName + 8) .fault := by
  induction hd : T.ty.depth using Nat.strong_induction_on generalizing T with
  | _ d ih =>
    subst hd
    have htracked := isTracked_of_nested hs hA
    rcases mem_nodes hs with rfl | ⟨B, hB, hs⟩
    · obtain ⟨-, o, c, he⟩ := exists_arrayEntry hA
      obtain ⟨hc, hAsolid⟩ := nodeOffsets_full hsolid _ he
      have hpos : 0 < c * A.ty.allocSize := Nat.mul_pos hc hAsolid.allocSize_pos
      have hlt := subobject_lt (arrayEntry_subobject hsolid he) hsolid
      obtain ⟨ptr, pending, rest, hpending, hrest, hptr, hreach⟩ :=
        h.reach hT htracked hsolid hsize he (by omega) (Nat.le_refl o)
      obtain ⟨next, hnext, hbefore⟩ :=
        exists_next_inside (by omega) hpending hrest (show o < _ by omega) hptr
      exact ⟨o, hlt, hreach _ (.done
        (walkRound_array_fault hnext hbefore (Nat.le_refl o) (by omega) hptr.tail.head hzero))⟩
    · obtain ⟨-, o, c, he⟩ := exists_arrayEntry hB
      obtain ⟨hc, hBsolid⟩ := nodeOffsets_full hsolid _ he
      have hend := ((flattened hsolid).ordered.2 _ he).2
      have hle : B.ty.allocSize ≤ c * B.ty.allocSize := Nat.le_mul_of_pos_left _ hc
      have hBsize : B.ty.allocSize < 2 ^ 63 := by
        simp only [TypeNode.extent] at hend
        omega
      have hBmem := requestedNodes_closed requests T hT hB
      obtain ⟨k, hk, hfault⟩ := ih _ (arrayElements_depth_lt hB) hBmem hBsolid hBsize hs rfl
      have hBtracked := isTracked_of_nested hs hA
      obtain ⟨hname, hcxx⟩ := isTracked_cxx hBtracked
      have htable := (h.own_table hBmem hname hcxx).2
      rw [wordsOf_infoMembers hBtracked] at htable
      simp only [TypeNode.extent] at hend
      obtain ⟨ptr, pending, rest, hpending, hrest, hptr, hreach⟩ :=
        h.reach hT htracked hsolid hsize he (k := o + k) (by omega) (by simp)
      refine ⟨o + k, by omega, hreach _ (yields_inside (by omega) hpending hrest (by omega)
        (by omega) hBsize htable.head hptr ?_)⟩
      rwa [Nat.add_sub_cancel_left, Nat.mod_eq_of_lt hk]

/-- A walk that ends at every offset divides by no 0. -/
theorem ModuleTables.sizeWords (hends : EndsInside mem addrOf globals T) : SizeWords globals T := by
  refine ⟨fun _ => hsolid.allocSize_pos, ?_⟩
  intro s hs A hA
  by_contra hno
  have hmem : A ∈ requestedNodes requests := nodes_subset hT (nodes_closed T s hs hA)
  obtain ⟨first, -, -, hlookup, hwords⟩ := h.exists_table hmem
  have hfirst : first.ty.allocSize = 0 := by
    by_contra hpos
    exact hno ⟨_, _, hpos, by rw [hlookup]; rfl⟩
  have hzero : mem (addrOf A.typeInfoName) = some 0 := by
    rw [← hfirst]
    exact hwords.head
  obtain ⟨k, hk, hfault⟩ := h.exists_fault hT hsolid hsize hs hA hzero
  obtain ⟨src, hsrc⟩ := hends k (by omega) _ (List.mem_cons_of_mem _ List.mem_cons_self)
  obtain ⟨word, hword, hwalk⟩ := hsrc.sub (restrict_sub mem _)
  have htracked := isTracked_of_nested hs hA
  obtain ⟨hname, hcxx⟩ := isTracked_cxx htracked
  have htable := (h.own_table hT hname hcxx).2
  rw [wordsOf_infoMembers htracked, offsets_eq_cons, restWords_cons, if_neg (by simp)] at htable
  obtain rfl : 0 = word := Option.some.inj (htable.tail.head.symm.trans hword)
  cases hfault.unique hwalk

end Fault

/-- The walk through a type's table ends inside the tables of the type and of the element types
nested in it wherever none of the size words it divides by is 0, and, where sizes are positive and
arrays have elements, nowhere else. -/
theorem ModuleTables.endsInside_iff {mem : Memory} {addrOf : String → Nat}
    {requests : List StructType} {globals : Globals} {T : StructType}
    (h : ModuleTables mem addrOf requests globals) (hT : T ∈ requestedNodes requests)
    (hblack : ∀ s ∈ T.nodes, s.isBlacklisted = false) :
    ((∀ s ∈ T.nodes, s.OffsetsFit) → SizeWords globals T → EndsInside mem addrOf globals T) ∧
    (Solid T.ty → T.ty.allocSize < 2 ^ 63 →
      (EndsInside mem addrOf globals T ↔ SizeWords globals T)) := by
  refine ⟨h.endsInside hT hblack, fun hsolid hsize => ⟨h.sizeWords hT hsolid hsize, ?_⟩⟩
  apply h.endsInside hT hblack
  intro s hs
  obtain ⟨hs', hle⟩ := nested_solid hs hsolid
  exact offsetsFit_of_solid hs' (by omega)

/-! An array of C structs in a class, with and without an empty C struct in the module. -/

namespace EmptyStruct

def empty : StructType := ⟨some "struct.empty", false, []⟩

def pair : StructType := ⟨some "struct.pair", false, [.scalar 4 2, .scalar 4 2]⟩

def T : StructType := ⟨some "trackedtype.T", false, [.scalar 8 3, .array 2 pair.ty]⟩

def addrOf (name : String) : Nat := if name = pair.typeInfoName then 0x1000 else 0x2000

/-- The table of all C structs is made for the first of them. -/
def globals (first : StructType) : Globals :=
  [(first.typeInfoName, infoMembers first), (T.typeInfoName, infoMembers T)]

def memory (first : StructType) : Memory := fun address =>
  [(0x1000, first.ty.allocSize), (0x1008, 0), (0x1010, minusOne), (0x1018, minusOne),
    (0x2000, 24), (0x2008, 0), (0x2010, getHashCodeFromStruct T), (0x2018, 1 <<< 63 ||| 8),
    (0x2020, 0x1000), (0x2028, minusOne)].lookup address

theorem tables : ModuleTables (memory pair) addrOf [T] (globals pair) where
  populated := by decide
  names := ⟨by decide, by decide⟩
  globals_at := by decide

theorem tables_empty : ModuleTables (memory empty) addrOf [empty, T] (globals empty) where
  populated := by decide
  names := ⟨by decide, by decide⟩
  globals_at := by decide

theorem solid : Solid T.ty := by
  have hpair : Solid pair.ty := .struct (by decide) (by simpa [pair] using Solid.scalar 4 2)
  refine .struct (by decide) ?_
  simp only [T, List.forall_mem_cons]
  exact ⟨.scalar 8 3, .array (by decide) hpair, by simp⟩

theorem element_eq : ∀ s ∈ T.nodes, ∀ A ∈ s.arrayElements, A = pair := by decide

theorem sizeWords : SizeWords (globals pair) T := by
  refine ⟨fun _ => by decide, ?_⟩
  intro s hs A hA
  obtain rfl := element_eq s hs A hA
  exact ⟨8, (infoMembers pair).tail, by decide, by decide⟩

end EmptyStruct

open EmptyStruct

/-- Where the table is made for the array's own element type, every walk ends. -/
theorem ModuleTables.endsInside_of_own_size : EndsInside (memory pair) addrOf (globals pair) T :=
  ((tables.endsInside_iff (by decide) (by decide)).2 solid (by decide)).mpr
    EmptyStruct.sizeWords

/-- Where it is made for the empty struct, the walk to the array divides by 0. -/
theorem ModuleTables.endsInside_fails_for_empty_first :
    ¬ ∀ (mem : Memory) (addrOf : String → Nat) (requests : List StructType) (globals : Globals)
        (T : StructType), ModuleTables mem addrOf requests globals → T ∈ requestedNodes requests →
      (∀ s ∈ T.nodes, s.isBlacklisted = false) → (∀ s ∈ T.nodes, 0 < s.ty.allocSize) →
      (∀ s ∈ T.nodes, s.OffsetsFit) → EndsInside mem addrOf globals T := by
  intro hall
  have hfits : ∀ s ∈ T.nodes, s.OffsetsFit := fun s hs =>
    offsetsFit_of_solid (nested_solid hs solid).1
      (Nat.lt_of_le_of_lt (nested_solid hs solid).2 (by decide))
  have hends := hall _ _ _ _ T tables_empty (by decide) (by decide) (by decide) hfits
  have hwords := tables_empty.sizeWords (by decide) solid (by decide) hends
  obtain ⟨size, rest, hpos, hlookup⟩ := hwords.elements T (by decide) pair (by decide)
  have htable : List.lookup pair.typeInfoName (globals empty) = some (infoMembers empty) := by
    decide
  rw [htable] at hlookup
  injection hlookup with hlookup
  exact hpos (Const.int.inj (List.cons.inj hlookup).1).symm

end TypeSan
