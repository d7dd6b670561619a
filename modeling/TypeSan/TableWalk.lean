import TypeSan.CheckCast

/-! The walk through the table of a type, entry by entry. -/
namespace TypeSan

open WordMemory

/-! Words. -/

theorem clearFlag_eq (word : Nat) : clearFlag word = word % 2 ^ 63 :=
  Nat.and_two_pow_sub_one_eq_mod word 63

theorem toLong_of_lt {word : Nat} (h : word < 2 ^ 63) : toLong word = word := if_pos h

theorem toLong_clearFlag (word : Nat) : toLong (clearFlag word) = clearFlag word := by
  apply toLong_of_lt
  rw [clearFlag_eq]
  exact Nat.mod_lt _ (by decide)

theorem clearFlag_of_lt {word : Nat} (h : word < 2 ^ 63) : clearFlag word = word := by
  rw [clearFlag_eq, Nat.mod_eq_of_lt h]

/-- The word of an array entry. -/
theorem flagged_eq {offset : Nat} (h : offset < 2 ^ 63) : 1 <<< 63 ||| offset = 2 ^ 63 + offset := by
  rw [Nat.one_shiftLeft, ← Nat.mul_one (2 ^ 63), ← Nat.two_pow_add_eq_or_of_lt h]

theorem clearFlag_flagged {offset : Nat} (h : offset < 2 ^ 63) :
    clearFlag (1 <<< 63 ||| offset) = offset := by
  rw [flagged_eq h, clearFlag_eq, Nat.add_mod_left, Nat.mod_eq_of_lt h]

theorem toLong_flagged_neg {offset : Nat} (h : offset < 2 ^ 63) :
    toLong (1 <<< 63 ||| offset) < 0 := by
  rw [flagged_eq h, toLong, if_neg (by omega)]
  omega

/-! Rounds. -/

section Rounds

variable {mem : Memory} {k currentOffset typeInfo next word : Nat}

theorem walkRound_hit (hk : k < 2 ^ 63) (hword : mem (typeInfo + 8) = some word) :
    walkRound mem k k typeInfo = .done (.src word) := by
  rw [walkRound, if_pos (toLong_of_lt hk).symm, hword]
  rfl

variable (hne : (k : Int) ≠ toLong currentOffset) (hnext : mem (typeInfo + 16) = some next)
include hne hnext

theorem walkRound_advance (hle : clearFlag next ≤ k) (hend : next ≠ minusOne) :
    walkRound mem k currentOffset typeInfo = .next k next (typeInfo + 16) := by
  have hle' : toLong (clearFlag next) ≤ (k : Int) := by
    rw [toLong_clearFlag]
    exact Int.ofNat_le.mpr hle
  simp only [walkRound, if_neg hne, hnext, if_pos hle', if_neg hend]

variable (hlt : k < clearFlag next)
include hlt

theorem walkRound_miss (hcurrent : currentOffset < 2 ^ 63) :
    walkRound mem k currentOffset typeInfo = .done (.src 0) := by
  have hlt' : ¬ toLong (clearFlag next) ≤ (k : Int) := by
    rw [toLong_clearFlag]
    omega
  simp only [walkRound, if_neg hne, hnext, if_neg hlt', clearFlag_of_lt hcurrent, if_true]

omit hne in
/-- The round at an array entry that is not to be passed. -/
theorem walkRound_flagged {offset array size : Nat} (hoffset : offset ≤ k) (hk : k < 2 ^ 63)
    (harray : mem (typeInfo + 8) = some array) (hsize : mem array = some size) :
    walkRound mem k (1 <<< 63 ||| offset) typeInfo =
      if size = 0 then .done .fault
      else .next (((k - offset : Nat) : Int).tmod (toLong size)) 0 (array + 8) := by
  have hoffset_lt : offset < 2 ^ 63 := by omega
  have hneg := toLong_flagged_neg hoffset_lt
  have hne : (k : Int) ≠ toLong (1 <<< 63 ||| offset) := by omega
  have hlt' : ¬ toLong (clearFlag next) ≤ (k : Int) := by
    rw [toLong_clearFlag]
    omega
  have hflag : 1 <<< 63 ||| offset ≠ offset := by
    rw [flagged_eq hoffset_lt]
    omega
  have hrest : (k : Int) - toLong offset = (k - offset : Nat) := by
    rw [toLong_of_lt hoffset_lt, Int.ofNat_sub hoffset]
  simp only [walkRound, if_neg hne, hnext, if_neg hlt', clearFlag_flagged hoffset_lt, if_neg hflag,
    harray, hsize, Option.bind_some, Option.map_some, hrest]

omit hne in
theorem walkRound_array {offset array size : Nat} (hoffset : offset ≤ k) (hk : k < 2 ^ 63)
    (harray : mem (typeInfo + 8) = some array) (hsize : mem array = some size) (hpos : 0 < size)
    (hsize_lt : size < 2 ^ 63) :
    walkRound mem k (1 <<< 63 ||| offset) typeInfo =
      .next ((k - offset) % size : Nat) 0 (array + 8) := by
  rw [walkRound_flagged hnext hlt hoffset hk harray hsize, if_neg (Nat.pos_iff_ne_zero.mp hpos),
    toLong_of_lt hsize_lt]
  rfl

omit hne in
theorem walkRound_array_fault {offset array : Nat} (hoffset : offset ≤ k) (hk : k < 2 ^ 63)
    (harray : mem (typeInfo + 8) = some array) (hsize : mem array = some 0) :
    walkRound mem k (1 <<< 63 ||| offset) typeInfo = .done .fault := by
  rw [walkRound_flagged hnext hlt hoffset hk harray hsize, if_pos rfl]

end Rounds

/-! Tables in memory. -/

/-- The word that a constant of an initializer has in memory. -/
def Const.word (addrOf : String → Nat) : Const → Nat
  | .int value => value
  | .ptrToInt global => addrOf global

/-- The words of a list of constants. -/
def wordsOf (addrOf : String → Nat) (consts : List Const) : List Nat := consts.map (·.word addrOf)

/-- The two words of an entry. -/
def entryWord (e : Nat × TypeNode) : Nat :=
  match e.2 with
  | .structNode _ => e.1
  | .arrayNode _ _ => 1 <<< 63 ||| e.1

def entryPayload (addrOf : String → Nat) (e : Nat × TypeNode) : Nat :=
  match e.2 with
  | .structNode nestedStruct => getHashCodeFromStruct nestedStruct
  | .arrayNode _ element => addrOf element.typeInfoName

/-- The end of the last array, once an entry is written. An entry that starts there keeps it open. -/
def endAfter (pending : Nat) (e : Nat × TypeNode) : Nat :=
  match e.2 with
  | .structNode _ => if pending ≠ 0 ∧ e.1 ≠ pending then 0 else pending
  | .arrayNode count element => e.1 + element.ty.allocSize * count

theorem wordsOf_infoEntries (addrOf : String → Nat) (pending : Nat) (e : Nat × TypeNode)
    (rest : Offsets) :
    wordsOf addrOf (infoEntries pending (e :: rest)) =
      (if pending ≠ 0 ∧ e.1 ≠ pending then [pending, minusOne] else []) ++
        entryWord e :: entryPayload addrOf e ::
          wordsOf addrOf (infoEntries (endAfter pending e) rest) := by
  obtain ⟨offset, node⟩ := e
  cases node <;> simp only [infoEntries, wordsOf, List.map_append, apply_ite (List.map _)] <;> rfl

/-! What the walk finds. -/

/-- Where the walk through a list of entries ends: at a struct, or (`none`) nowhere. Behind the last
entry, if that is an array, the array goes on. -/
inductive Walks : Offsets → Nat → Option StructType → Prop
  | hit {L k U} (h : (k, .structNode U) ∈ L) : Walks L k (some U)
  | inside {L k o c A r} (h : (o, .arrayNode c A) ∈ L) (hlo : o ≤ k)
      (hhi : k < o + c * A.ty.allocSize) (hr : Walks A.offsets ((k - o) % A.ty.allocSize) r) :
      Walks L k r
  | behind {L k o c A r} (h : L.getLast? = some (o, .arrayNode c A))
      (hhi : o + c * A.ty.allocSize ≤ k) (hr : Walks A.offsets ((k - o) % A.ty.allocSize) r) :
      Walks L k r
  | miss {L k} (hstruct : ∀ U, (k, .structNode U) ∉ L)
      (harray : ∀ o c A, (o, .arrayNode c A) ∈ L → k < o ∨ o + c * A.ty.allocSize ≤ k)
      (hlast : ∀ o c A, L.getLast? = some (o, .arrayNode c A) → k < o) : Walks L k none

/-- The word that the walk takes for a class hash. -/
def SrcOf (src : Nat) : Option StructType → Prop
  | some U => src = getHashCodeFromStruct U
  | none => src = 0 ∨ src = minusOne

/-- Entries that lie before the one reached say nothing. -/
theorem Walks.cons {e e' : Nat × TypeNode} {rest : Offsets} {k : Nat} {r : Option StructType}
    (h : Walks (e' :: rest) k r) (hle : e.1 + e.2.extent ≤ k) : Walks (e :: e' :: rest) k r := by
  cases h with
  | hit h => exact .hit (List.mem_cons_of_mem _ h)
  | inside h hlo hhi hr => exact .inside (List.mem_cons_of_mem _ h) hlo hhi hr
  | behind h hhi hr => exact .behind (by rwa [List.getLast?_cons_cons]) hhi hr
  | miss hstruct harray hlast =>
    refine .miss (fun U hU => ?_) (fun o c A hA => ?_) fun o c A hA => ?_
    · rcases List.mem_cons.mp hU with rfl | hU
      · simp only [TypeNode.extent] at hle
        omega
      · exact hstruct U hU
    · rcases List.mem_cons.mp hA with rfl | hA
      · exact Or.inr hle
      · exact harray o c A hA
    · rw [List.getLast?_cons_cons] at hA
      exact hlast o c A hA

/-- The walk through the entries from a place in the table ends as it should. -/
def WalksAt (mem : Memory) (L : Offsets) (k currentOffset typeInfo : Nat) : Prop :=
  ∃ r src, Walks L k r ∧ SrcOf src r ∧ Yields mem k currentOffset typeInfo (.src src)

/-- The table of an element type can be walked. -/
structure Walkable (mem : Memory) (addrOf : String → Nat) (s : StructType) : Prop where
  size_pos : 0 < s.ty.allocSize
  size_lt : s.ty.allocSize < 2 ^ 63
  size_word : mem (addrOf s.typeInfoName) = some s.ty.allocSize
  first_word : mem (addrOf s.typeInfoName + 8) = some 0
  walks : ∀ k < s.ty.allocSize, WalksAt mem s.offsets k 0 (addrOf s.typeInfoName + 8)

section Scan

variable {mem : Memory} {addrOf : String → Nat} {k : Nat}

/-- An array entry that is the place to stop at: the walk goes on in the element's table. -/
theorem walksAt_array {L : Offsets} {o typeInfo next : Nat} {A : StructType}
    (hA : Walkable mem addrOf A) (hk : k < 2 ^ 63) (ho : o ≤ k)
    (hpayload : mem (typeInfo + 8) = some (addrOf A.typeInfoName))
    (hnext : mem (typeInfo + 16) = some next) (hlt : k < clearFlag next)
    (hL : ∀ r, Walks A.offsets ((k - o) % A.ty.allocSize) r → Walks L k r) :
    WalksAt mem L k (1 <<< 63 ||| o) typeInfo := by
  obtain ⟨r, src, hr, hsrc, hy⟩ := hA.walks _ (Nat.mod_lt (k - o) hA.size_pos)
  exact ⟨r, src, hL r hr, hsrc, hy.next
    (walkRound_array hnext hlt ho hk hpayload hA.size_word hA.size_pos hA.size_lt)⟩

theorem clearFlag_entryWord {e : Nat × TypeNode} (h : e.1 < 2 ^ 63) :
    clearFlag (entryWord e) = e.1 := by
  obtain ⟨o, node⟩ := e
  cases node with
  | structNode U => exact clearFlag_of_lt h
  | arrayNode c A => exact clearFlag_flagged h

/-- Only a struct entry is compared with the offset. -/
theorem ne_toLong_entryWord {e : Nat × TypeNode} (h : e.1 < 2 ^ 63)
    (hne : ∀ U, e ≠ (k, .structNode U)) : (k : Int) ≠ toLong (entryWord e) := by
  obtain ⟨o, node⟩ := e
  cases node with
  | structNode U =>
    rw [entryWord, toLong_of_lt h]
    rintro heq
    exact hne U (by rw [Int.ofNat_inj.mp heq])
  | arrayNode c A =>
    have hneg : toLong (1 <<< 63 ||| o) < 0 := toLong_flagged_neg h
    simp only [entryWord]
    omega

theorem clearFlag_minusOne : clearFlag minusOne = 2 ^ 63 - 1 := by decide

theorem ne_minusOne {word : Nat} (h : clearFlag word < 2 ^ 63 - 1) : word ≠ minusOne := by
  rintro rfl
  rw [clearFlag_minusOne] at h
  omega

/-- The array that a pending end belongs to, or the struct that starts at that end, is the entry
before it. -/
def EndOk (pending : Nat) (e : Nat × TypeNode) : Prop :=
  match e.2 with
  | .structNode _ => pending = 0 ∨ pending = e.1
  | .arrayNode count element => pending = e.1 + count * element.ty.allocSize

theorem endOk_endAfter (pending : Nat) (e : Nat × TypeNode) : EndOk (endAfter pending e) e := by
  obtain ⟨o, node⟩ := e
  cases node with
  | structNode U =>
    simp only [EndOk, endAfter]
    split
    · exact Or.inl rfl
    · omega
  | arrayNode c A => simp only [EndOk, endAfter, Nat.mul_comm]

/-- A pending end lies before the next entry. -/
theorem EndOk.le {pending : Nat} {e e' : Nat × TypeNode} (h : EndOk pending e)
    (hle : e.1 + e.2.extent ≤ e'.1) : pending ≤ e'.1 := by
  obtain ⟨o, node⟩ := e
  cases node with
  | structNode U =>
    simp only [EndOk, TypeNode.extent] at h hle
    omega
  | arrayNode c A =>
    simp only [EndOk, TypeNode.extent] at h hle
    omega

/-- The words from an entry to the end of the table. -/
def restWords (addrOf : String → Nat) (pending : Nat) (rest : Offsets) : List Nat :=
  wordsOf addrOf (infoEntries pending rest) ++ [minusOne]

theorem restWords_cons (addrOf : String → Nat) (pending : Nat) (e : Nat × TypeNode)
    (rest : Offsets) :
    restWords addrOf pending (e :: rest) =
      (if pending ≠ 0 ∧ e.1 ≠ pending then [pending, minusOne] else []) ++
        entryWord e :: entryPayload addrOf e :: restWords addrOf (endAfter pending e) rest := by
  rw [restWords, wordsOf_infoEntries, List.append_assoc]
  rfl

/-- The walk leaves an entry for the next one, over the mark between them if there is one. -/
theorem yields_next_entry {e e' : Nat × TypeNode} {rest : Offsets} {pending typeInfo : Nat}
    (hk : k < 2 ^ 63 - 1) (hle : e.1 + e.2.extent ≤ e'.1) (hk' : e'.1 ≤ k)
    (hpending : EndOk pending e)
    (hmem : Holds mem typeInfo
      (entryWord e :: entryPayload addrOf e :: restWords addrOf pending (e' :: rest)))
    (hne : (k : Int) ≠ toLong (entryWord e)) :
    ∃ ptr, Holds mem ptr
        (entryWord e' :: entryPayload addrOf e' :: restWords addrOf (endAfter pending e') rest) ∧
      ∀ r, Yields mem k (entryWord e') ptr r → Yields mem k (entryWord e) typeInfo r := by
  have hend := hpending.le hle
  have hclear := clearFlag_entryWord (e := e') (by omega)
  have hrest := hmem.tail.tail
  rw [restWords_cons] at hrest
  split at hrest
  · rename_i hmark
    have hmark_lt : clearFlag pending = pending := clearFlag_of_lt (by omega)
    have hne' : (k : Int) ≠ toLong pending := by
      rw [toLong_of_lt (by omega)]
      omega
    refine ⟨_, hrest.tail.tail, ?_⟩
    intro r hr
    exact .next (walkRound_advance hne hrest.head (by omega) (ne_minusOne (by omega)))
      (.next (walkRound_advance hne' hrest.tail.tail.head (by omega) (ne_minusOne (by omega))) hr)
  · exact ⟨_, hrest, fun r hr =>
      .next (walkRound_advance hne hrest.head (by omega) (ne_minusOne (by omega))) hr⟩

/-- At a mark, short of the next entry, the walk finds nothing. -/
theorem yields_mark {e' : Nat × TypeNode} {mark typeInfo : Nat} {words : List Nat}
    (hmark : mark ≤ k) (hk' : k < e'.1) (he' : e'.1 < 2 ^ 63)
    (hmem : Holds mem typeInfo (mark :: minusOne :: entryWord e' :: words)) :
    ∃ src, SrcOf src none ∧ Yields mem k mark typeInfo (.src src) := by
  rcases Nat.eq_or_lt_of_le hmark with rfl | hlt
  · exact ⟨minusOne, Or.inr rfl, .done (walkRound_hit (by omega) hmem.tail.head)⟩
  · have hne : (k : Int) ≠ toLong mark := by
      rw [toLong_of_lt (by omega)]
      omega
    have hclear := clearFlag_entryWord he'
    exact ⟨0, Or.inl rfl, .done (walkRound_miss hne hmem.tail.tail.head (by omega) (by omega))⟩

/-- Entries behind the offset are no place to end. -/
theorem walks_miss {e : Nat × TypeNode} {rest : Offsets} (hrest : ∀ e' ∈ rest, k < e'.1)
    (hstruct : ∀ U, e ≠ (k, .structNode U))
    (harray : ∀ o c A, e = (o, .arrayNode c A) → o + c * A.ty.allocSize ≤ k ∧ rest ≠ []) :
    Walks (e :: rest) k none := by
  refine .miss (fun U hU => ?_) (fun o c A hA => ?_) fun o c A hA => ?_
  · rcases List.mem_cons.mp hU with heq | hU
    · exact hstruct U heq.symm
    · exact Nat.lt_irrefl k (hrest _ hU)
  · rcases List.mem_cons.mp hA with heq | hA
    · exact Or.inr (harray o c A heq.symm).1
    · exact Or.inl (hrest _ hA)
  · cases rest with
    | nil => exact ((harray o c A (by simpa using hA)).2 rfl).elim
    | cons e' rest =>
      rw [List.getLast?_cons_cons] at hA
      exact hrest _ (List.mem_of_getLast? hA)

section Stop

variable {o pending typeInfo : Nat} {rest : Offsets} (hk : k < 2 ^ 63 - 1) (ho : o ≤ k)
  (hrest : ∀ e' ∈ rest, k < e'.1 ∧ e'.1 < 2 ^ 63)
include hk ho hrest

/-- The walk at a struct entry, the last that does not lie behind the offset. -/
theorem walksAt_struct {U : StructType} (hpending : EndOk pending (o, .structNode U))
    (hmem : Holds mem typeInfo (o :: getHashCodeFromStruct U :: restWords addrOf pending rest)) :
    WalksAt mem ((o, .structNode U) :: rest) k o typeInfo := by
  by_cases hkey : o = k
  · subst hkey
    exact ⟨some U, _, .hit List.mem_cons_self, rfl,
      .done (walkRound_hit (by omega) hmem.tail.head)⟩
  have hmiss : Walks ((o, .structNode U) :: rest) k none :=
    walks_miss (fun e' he' => (hrest e' he').1) (fun V hV => hkey (Prod.mk.inj hV).1)
      fun _ _ _ h => by cases h
  have hne : (k : Int) ≠ toLong o := by
    rw [toLong_of_lt (by omega)]
    omega
  have hwords := hmem.tail.tail
  cases rest with
  | nil =>
    have hlast : k < clearFlag minusOne := by
      rw [clearFlag_minusOne]
      exact hk
    exact ⟨none, 0, hmiss, Or.inl rfl, .done (walkRound_miss hne hwords.head hlast (by omega))⟩
  | cons e' rest =>
    obtain ⟨hk', he'⟩ := hrest e' List.mem_cons_self
    have hclear := clearFlag_entryWord he'
    rw [restWords_cons] at hwords
    split at hwords
    · have hmark : pending = o := hpending.resolve_left (by omega)
      have hmark_clear : clearFlag pending = pending := clearFlag_of_lt (by omega)
      obtain ⟨src, hsrc, hy⟩ := yields_mark (by omega) hk' he' hwords
      exact ⟨none, src, hmiss, hsrc,
        hy.next (walkRound_advance hne hwords.head (by omega) (ne_minusOne (by omega)))⟩
    · exact ⟨none, 0, hmiss, Or.inl rfl,
        .done (walkRound_miss hne hwords.head (by omega) (by omega))⟩

/-- The walk at an array entry. Where no other entry follows it never notices the array's end. -/
theorem walksAt_arrayNode {c : Nat} {A : StructType} (hA : Walkable mem addrOf A) (hpos : 0 < o)
    (hend : ∀ e' ∈ rest, o + c * A.ty.allocSize ≤ e'.1)
    (hpending : EndOk pending (o, .arrayNode c A))
    (hmem : Holds mem typeInfo
      ((1 <<< 63 ||| o) :: addrOf A.typeInfoName :: restWords addrOf pending rest)) :
    WalksAt mem ((o, .arrayNode c A) :: rest) k (1 <<< 63 ||| o) typeInfo := by
  have hmark : pending = o + c * A.ty.allocSize := hpending
  have hwords := hmem.tail.tail
  have hpayload := hmem.tail.head
  cases rest with
  | nil =>
    have hlast : k < clearFlag minusOne := by
      rw [clearFlag_minusOne]
      exact hk
    apply walksAt_array hA (by omega) ho hpayload hwords.head hlast
    intro r hr
    rcases Nat.lt_or_ge k (o + c * A.ty.allocSize) with hin | hbehind
    · exact .inside List.mem_cons_self ho hin hr
    · exact .behind rfl hbehind hr
  | cons e' rest =>
    obtain ⟨hk', he'⟩ := hrest e' List.mem_cons_self
    have hclear := clearFlag_entryWord he'
    rw [restWords_cons] at hwords
    rcases Nat.lt_or_ge k (o + c * A.ty.allocSize) with hin | hbehind
    · have hinside (r : Option StructType) (hr : Walks A.offsets ((k - o) % A.ty.allocSize) r) :
          Walks ((o, .arrayNode c A) :: e' :: rest) k r :=
        .inside List.mem_cons_self ho hin hr
      split at hwords
      · have hle := hend e' List.mem_cons_self
        have hmark_clear : clearFlag pending = pending := clearFlag_of_lt (by omega)
        exact walksAt_array hA (by omega) ho hpayload hwords.head (by omega) hinside
      · exact walksAt_array hA (by omega) ho hpayload hwords.head (by omega) hinside
    · have hmark_clear : clearFlag pending = pending := clearFlag_of_lt (by omega)
      have hne : (k : Int) ≠ toLong (1 <<< 63 ||| o) := by
        have : toLong (1 <<< 63 ||| o) < 0 := toLong_flagged_neg (by omega)
        omega
      rw [if_pos (by omega)] at hwords
      obtain ⟨src, hsrc, hy⟩ := yields_mark (by omega) hk' he' hwords
      refine ⟨none, src, walks_miss (fun e' he' => (hrest e' he').1) (fun _ h => by cases h)
        fun o' c' A' h => ?_, hsrc,
        hy.next (walkRound_advance hne hwords.head (by omega) (ne_minusOne (by omega)))⟩
      cases h
      exact ⟨hbehind, by simp⟩

end Stop

section Entries

variable (hk : k < 2 ^ 63 - 1)
include hk

theorem walksAt_stop {e : Nat × TypeNode} {rest : Offsets} {pending typeInfo : Nat} (he : e.1 ≤ k)
    (hrest : ∀ e' ∈ rest, k < e'.1 ∧ e'.1 < 2 ^ 63)
    (hle : ∀ e' ∈ rest, e.1 + e.2.extent ≤ e'.1)
    (harray : ∀ o c A, e = (o, .arrayNode c A) → 0 < o ∧ Walkable mem addrOf A)
    (hpending : EndOk pending e)
    (hmem : Holds mem typeInfo
      (entryWord e :: entryPayload addrOf e :: restWords addrOf pending rest)) :
    WalksAt mem (e :: rest) k (entryWord e) typeInfo := by
  obtain ⟨o, node⟩ := e
  cases node with
  | structNode U => exact walksAt_struct hk he hrest hpending hmem
  | arrayNode c A =>
    obtain ⟨hpos, hA⟩ := harray o c A rfl
    exact walksAt_arrayNode hk he hrest hA hpos hle hpending hmem

/-- The walk from an entry that does not lie behind the offset. -/
theorem walksAt_entries {e : Nat × TypeNode} {rest : Offsets} {pending typeInfo : Nat}
    (he : e.1 ≤ k) (horder : (e :: rest).Pairwise fun a b => a.1 + a.2.extent ≤ b.1)
    (hbound : ∀ e' ∈ e :: rest, e'.1 < 2 ^ 63)
    (harray : ∀ o c A, (o, .arrayNode c A) ∈ e :: rest → 0 < o ∧ Walkable mem addrOf A)
    (hpending : EndOk pending e)
    (hmem : Holds mem typeInfo
      (entryWord e :: entryPayload addrOf e :: restWords addrOf pending rest)) :
    WalksAt mem (e :: rest) k (entryWord e) typeInfo := by
  induction rest generalizing e pending typeInfo with
  | nil =>
    exact walksAt_stop hk he (by simp) (by simp)
      (fun o c A h => harray o c A (h ▸ List.mem_cons_self)) hpending hmem
  | cons e' rest ih =>
    obtain ⟨hle, horder'⟩ := List.pairwise_cons.mp horder
    have hbound' (x : Nat × TypeNode) (hx : x ∈ e' :: rest) := hbound x (List.mem_cons_of_mem e hx)
    by_cases hk' : e'.1 ≤ k
    · have hle' := hle e' List.mem_cons_self
      have hne : (k : Int) ≠ toLong (entryWord e) := by
        apply ne_toLong_entryWord (hbound e List.mem_cons_self)
        intro U hU
        simp only [hU, TypeNode.extent] at hle'
        omega
      obtain ⟨ptr, hptr, hyields⟩ := yields_next_entry hk hle' hk' hpending hmem hne
      obtain ⟨r, src, hr, hsrc, hy⟩ := ih hk' horder' hbound'
        (fun o c A h => harray o c A (List.mem_cons_of_mem e h)) (endOk_endAfter pending e') hptr
      exact ⟨r, src, hr.cons (Nat.le_trans hle' hk'), hsrc, hyields _ hy⟩
    · refine walksAt_stop hk he (fun x hx => ⟨?_, hbound' x hx⟩) hle
        (fun o c A h => harray o c A (h ▸ List.mem_cons_self)) hpending hmem
      rcases List.mem_cons.mp hx with rfl | hx
      · omega
      · have := (List.pairwise_cons.mp horder').1 x hx
        omega

end Entries

end Scan

end TypeSan
