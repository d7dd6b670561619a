import TypeSan.Landing
import TypeSan.TypeInfoRequests

/-! The tables of any module, with the types that share one, in memory. -/
namespace TypeSan

open WordMemory

/-- The tables that a module asks for, in memory. -/
structure ModuleTables (mem : Memory) (addrOf : String → Nat) (requests : List StructType)
    (globals : Globals) : Prop where
  populated : typeInfoGlobals requests = some globals
  names : NamesUnique (requestedNodes requests)
  globals_at : GlobalsAt mem addrOf globals

section Tables

variable {mem : Memory} {addrOf : String → Nat} {requests : List StructType} {globals : Globals}
  {s : StructType} (h : ModuleTables mem addrOf requests globals)
  (hs : s ∈ requestedNodes requests)
include h hs

/-- A node's table is that of the first node of its name. -/
theorem ModuleTables.exists_table :
    ∃ first ∈ requestedNodes requests, first.infoName = s.infoName ∧
      globals.lookup s.typeInfoName = some (infoMembers first) ∧
      Holds mem (addrOf s.typeInfoName) (wordsOf addrOf (infoMembers first)) := by
  obtain ⟨G, hG, hfilled⟩ := typeInfoGlobals_filled h.names
  obtain rfl := Option.some.inj (h.populated.symm.trans hG)
  obtain ⟨first, hfirst, hname, hlookup⟩ := exists_first hfilled hs
  obtain ⟨l₁, l₂, heq, -⟩ := List.lookup_eq_some_iff.mp hlookup
  refine ⟨first, hfirst, hname, hlookup, ?_⟩
  exact h.globals_at (s.typeInfoName, infoMembers first) (by rw [heq]; simp)

/-- A C++ type's table is its own. -/
theorem ModuleTables.own_table (hname : s.name.isSome) (hcxx : s.isNonCxx = false) :
    globals.lookup s.typeInfoName = some (infoMembers s) ∧
      Holds mem (addrOf s.typeInfoName) (wordsOf addrOf (infoMembers s)) := by
  obtain ⟨first, hfirst, heq, hlookup, hwords⟩ := h.exists_table hs
  rcases h.names.cases hfirst hs heq with rfl | ⟨-, hnone⟩ | ⟨-, hC⟩
  · exact ⟨hlookup, hwords⟩
  · simp [hnone] at hname
  · rw [hcxx] at hC
    cases hC

end Tables

theorem isTracked_cxx {s : StructType} (h : s.isTracked = true) :
    s.name.isSome ∧ s.isNonCxx = false := by
  cases hname : s.name with
  | none => simp [StructType.isTracked, hname] at h
  | some name => simp [StructType.isNonCxx, h]

theorem wordsOf_infoMembers {s : StructType} (h : s.isTracked = true) (addrOf : String → Nat) :
    wordsOf addrOf (infoMembers s) = s.ty.allocSize :: restWords addrOf 0 s.offsets := by
  rw [infoMembers, if_pos h, wordsOf, List.map_cons, List.map_append]
  rfl

/-! The walk to the entry that an offset is in. -/

section Reach

variable {mem : Memory} {addrOf : String → Nat} {k : Nat} (hk : k < 2 ^ 63 - 1)
include hk

/-- The walk passes the entries before it. -/
theorem exists_reached {e e₀ : Nat × TypeNode} {rest : Offsets} {pending typeInfo : Nat}
    (horder : (e :: rest).Pairwise fun a b => a.1 + a.2.extent ≤ b.1)
    (hpending : EndOk pending e)
    (hmem : Holds mem typeInfo
      (entryWord e :: entryPayload addrOf e :: restWords addrOf pending rest))
    (he₀ : e₀ ∈ e :: rest) (hlo : e₀.1 ≤ k) :
    ∃ ptr pending' rest', EndOk pending' e₀ ∧
      (∀ e' ∈ rest', e₀.1 + e₀.2.extent ≤ e'.1 ∧ e' ∈ e :: rest) ∧
      Holds mem ptr (entryWord e₀ :: entryPayload addrOf e₀ :: restWords addrOf pending' rest') ∧
      ∀ r, Yields mem k (entryWord e₀) ptr r → Yields mem k (entryWord e) typeInfo r := by
  induction rest generalizing e pending typeInfo with
  | nil =>
    obtain rfl := List.mem_singleton.mp he₀
    exact ⟨typeInfo, pending, [], hpending, by simp, hmem, fun r hr => hr⟩
  | cons e' rest ih =>
    obtain ⟨hle, horder'⟩ := List.pairwise_cons.mp horder
    rcases List.mem_cons.mp he₀ with rfl | he₀
    · exact ⟨typeInfo, pending, e' :: rest, hpending,
        fun x hx => ⟨hle x hx, List.mem_cons_of_mem _ hx⟩, hmem, fun r hr => hr⟩
    · have hle' := hle e' List.mem_cons_self
      have hke' : e'.1 ≤ k := by
        rcases List.mem_cons.mp he₀ with rfl | he₀
        · exact hlo
        · have := (List.pairwise_cons.mp horder').1 e₀ he₀
          omega
      have hne : (k : Int) ≠ toLong (entryWord e) := by
        apply ne_toLong_entryWord (by omega)
        intro U hU
        simp only [hU, TypeNode.extent] at hle'
        omega
      obtain ⟨ptr, hptr, hyields⟩ := yields_next_entry hk hle' hke' hpending hmem hne
      obtain ⟨ptr', pending', rest', hend, hrest, hwords, hy⟩ :=
        ih horder' (endOk_endAfter pending e') hptr he₀
      exact ⟨ptr', pending', rest', hend,
        fun x hx => ⟨(hrest x hx).1, List.mem_cons_of_mem _ (hrest x hx).2⟩, hwords,
        fun r hr => hyields r (hy r hr)⟩

/-- Inside an array entry the walk does not pass it: the next word is that of a later place. -/
theorem exists_next_inside {o c pending typeInfo : Nat} {A : StructType} {rest : Offsets}
    (hpending : EndOk pending (o, .arrayNode c A))
    (hrest : ∀ e' ∈ rest, o + c * A.ty.allocSize ≤ e'.1 ∧ e'.1 < 2 ^ 63)
    (hhi : k < o + c * A.ty.allocSize)
    (hmem : Holds mem typeInfo
      ((1 <<< 63 ||| o) :: addrOf A.typeInfoName :: restWords addrOf pending rest)) :
    ∃ next, mem (typeInfo + 16) = some next ∧ k < clearFlag next := by
  have hwords := hmem.tail.tail
  cases rest with
  | nil =>
    refine ⟨minusOne, hwords.head, ?_⟩
    rw [clearFlag_minusOne]
    exact hk
  | cons e' rest =>
    obtain ⟨hle, hlt⟩ := hrest e' List.mem_cons_self
    have hend : pending = o + c * A.ty.allocSize := hpending
    rw [restWords_cons] at hwords
    split at hwords
    · refine ⟨_, hwords.head, ?_⟩
      rw [clearFlag_of_lt (by omega)]
      omega
    · refine ⟨_, hwords.head, ?_⟩
      rw [clearFlag_entryWord hlt]
      omega

/-- It goes on in the element's table. -/
theorem yields_inside {o c pending typeInfo : Nat} {A : StructType} {rest : Offsets}
    {r : WalkResult} (hpending : EndOk pending (o, .arrayNode c A))
    (hrest : ∀ e' ∈ rest, o + c * A.ty.allocSize ≤ e'.1 ∧ e'.1 < 2 ^ 63) (hlo : o ≤ k)
    (hhi : k < o + c * A.ty.allocSize) (hsize_lt : A.ty.allocSize < 2 ^ 63)
    (hsize : mem (addrOf A.typeInfoName) = some A.ty.allocSize)
    (hmem : Holds mem typeInfo
      ((1 <<< 63 ||| o) :: addrOf A.typeInfoName :: restWords addrOf pending rest))
    (hy : Yields mem ((k - o) % A.ty.allocSize : Nat) 0 (addrOf A.typeInfoName + 8) r) :
    Yields mem k (1 <<< 63 ||| o) typeInfo r := by
  have hpos : 0 < A.ty.allocSize := Nat.pos_of_mul_pos_left (show 0 < c * A.ty.allocSize by omega)
  obtain ⟨next, hnext, hlt⟩ := exists_next_inside hk hpending hrest hhi hmem
  exact hy.next (walkRound_array hnext hlt hlo (by omega) hmem.tail.head hsize hpos hsize_lt)

end Reach

/-- The walk from the start of a tracked type's table reaches each entry that is not behind the
offset. -/
theorem ModuleTables.reach {mem : Memory} {addrOf : String → Nat} {requests : List StructType}
    {globals : Globals} {s : StructType} {k : Nat} {e : Nat × TypeNode}
    (h : ModuleTables mem addrOf requests globals) (hs : s ∈ requestedNodes requests)
    (htracked : s.isTracked = true) (hsolid : Solid s.ty) (hsize : s.ty.allocSize < 2 ^ 63)
    (he : e ∈ s.offsets) (hk : k < 2 ^ 63 - 1) (hlo : e.1 ≤ k) :
    ∃ ptr pending rest, EndOk pending e ∧
      (∀ e' ∈ rest, e.1 + e.2.extent ≤ e'.1 ∧ e'.1 < 2 ^ 63) ∧
      Holds mem ptr (entryWord e :: entryPayload addrOf e :: restWords addrOf pending rest) ∧
      ∀ r, Yields mem k (entryWord e) ptr r → Yields mem k 0 (addrOf s.typeInfoName + 8) r := by
  obtain ⟨hname, hcxx⟩ := isTracked_cxx htracked
  have hwords := (h.own_table hs hname hcxx).2
  rw [wordsOf_infoMembers htracked] at hwords
  have hentries := hwords.tail
  have hordered := (flattened hsolid).ordered
  rw [offsets_eq_cons] at hordered he
  rw [offsets_eq_cons, restWords_cons, if_neg (by simp)] at hentries
  obtain ⟨ptr, pending, rest, hpending, hrest, hptr, hreach⟩ := exists_reached hk hordered.1
    (endOk_endAfter 0 (0, .structNode s)) hentries he hlo
  refine ⟨ptr, pending, rest, hpending, fun e' he' => ?_, hptr, hreach⟩
  obtain ⟨hle, hmem⟩ := hrest e' he'
  have := hordered.2 e' hmem
  exact ⟨hle, by omega⟩

end TypeSan
