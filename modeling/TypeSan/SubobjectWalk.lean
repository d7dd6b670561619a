import TypeSan.MissedConfusion
import TypeSan.ModuleTables

/-! The walk finds the struct objects of a class, wherever they start. -/
namespace TypeSan

open WordMemory

/-- The offset lies in an array whose element type is no tracked one: a literal struct, one of a C
file or a blacklisted one. A first element that starts the whole, and an array of one element, are
no arrays here. -/
inductive InUntracked : StructType → Nat → Prop
  | here {E k o c A} (h : (o, .arrayNode c A) ∈ E.offsets) (hlo : o ≤ k)
      (hhi : k < o + c * A.ty.allocSize) (hA : A.isTracked = false) : InUntracked E k
  | inside {E k o c A} (h : (o, .arrayNode c A) ∈ E.offsets) (hlo : o ≤ k)
      (hhi : k < o + c * A.ty.allocSize) (hA : InUntracked A ((k - o) % A.ty.allocSize)) :
      InUntracked E k

section Walk

variable {mem : Memory} {addrOf : String → Nat} {requests : List StructType} {globals : Globals}
  (h : ModuleTables mem addrOf requests globals)
include h

/-- From the first entry of a tracked type's table the walk finds the outermost struct. -/
theorem ModuleTables.yields {s U : StructType} {k : Nat} (hs : s ∈ requestedNodes requests)
    (htracked : s.isTracked = true) (hsolid : Solid s.ty) (hsize : s.ty.allocSize < 2 ^ 63)
    (hU : Outermost s.ty k U) (hout : ¬ InUntracked s k) :
    Yields mem k 0 (addrOf s.typeInfoName + 8) (.src (getHashCodeFromStruct U)) := by
  induction hd : s.ty.depth using Nat.strong_induction_on generalizing s k with
  | _ d ih =>
    subst hd
    have hlt := subobject_lt hU.1 hsolid
    obtain ⟨⟨o, node⟩, he, hholds⟩ := ((flattened hsolid).covers k U).mp hU.1
    obtain ⟨ptr, pending, rest, hpending, hrest, hptr, hreach⟩ :=
      h.reach hs htracked hsolid hsize he (by omega) hholds.inEntry.1
    refine hreach _ ?_
    cases node with
    | structNode V =>
      obtain ⟨rfl, hVU⟩ := hholds
      obtain rfl := subobject_zero_antisymm
        (hU.2 V ((subobject_hit hsolid he).mpr (subobject_self V))) hVU
      exact .done (walkRound_hit (by omega) hptr.tail.head)
    | arrayNode c A =>
      obtain ⟨hlo, hhi, -⟩ := hholds
      have hA : A.isTracked = true := by
        by_contra hno
        exact hout (.here he hlo hhi (by simpa using hno))
      have helement := mem_arrayElements htracked he
      have hmem := requestedNodes_closed requests s hs helement
      have hsub := arrayEntry_subobject hsolid he
      have hend := subobject_end_le hsub
      obtain ⟨hname, hcxx⟩ := isTracked_cxx hA
      have htable := (h.own_table hmem hname hcxx).2
      rw [wordsOf_infoMembers hA] at htable
      exact yields_inside (by omega) hpending hrest hlo hhi (by omega) htable.head hptr
        (ih _ (arrayElements_depth_lt helement) hmem hA (subobject_solid hsub hsolid) (by omega)
          ((outermost_inside hsolid he hlo hhi).mp hU)
          (fun hin => hout (.inside he hlo hhi hin)) rfl)

/-- The walk of `check_cast` finds the outermost struct at every struct object of an allocation that
does not lie in an array of an untracked type, whether it enters the table at the size word or, for
a single object, behind it. -/
theorem ModuleTables.finds_outermost {T D : StructType} {n k : Nat}
    (hT : T ∈ requestedNodes requests) (htracked : T.isTracked = true) (hsolid : Solid T.ty)
    (hsize : T.ty.allocSize < 2 ^ 63) (hD : Subobject (.array n T.ty) k D)
    (hout : ¬ InUntracked T (k % T.ty.allocSize)) :
    ∃ U, Outermost (.array n T.ty) k U ∧ (T.ty.allocSize ∣ k → U = T) ∧
      Finds mem k (addrOf T.typeInfoName) (getHashCodeFromStruct U) ∧
      (n = 1 → Finds mem k (addrOf T.typeInfoName + 8) (getHashCodeFromStruct U)) := by
  have hpos := hsolid.allocSize_pos
  have hn : 0 < n := by
    cases hD with
    | element hj _ => exact Nat.zero_lt_of_lt hj
  have hrow := rowOf_array hn (rowOf_struct hsolid)
  rw [Nat.mul_one] at hrow
  obtain ⟨hk, hD⟩ := (hrow.holds k D).mp hD
  obtain ⟨U, hU⟩ := exists_outermost hsolid hD
  have hy := h.yields hT htracked hsolid hsize hU hout
  obtain ⟨hname, hcxx⟩ := isTracked_cxx htracked
  have hwords := (h.own_table hT hname hcxx).2
  rw [wordsOf_infoMembers htracked] at hwords
  have hfirst := hwords.tail
  rw [offsets_eq_cons, restWords_cons, if_neg (by simp)] at hfirst
  refine ⟨U, (outermost_array hsolid hk).mpr hU, fun hdvd => ?_, ⟨_, hwords.head, ?_⟩, ?_⟩
  · rw [Nat.mod_eq_zero_of_dvd hdvd] at hU
    exact subobject_zero_antisymm (hU.2 T (subobject_self T)) hU.1
  · rw [if_pos (Nat.pos_iff_ne_zero.mp hpos), toLong_of_lt hsize]
    exact hy
  · rintro rfl
    rw [Nat.one_mul] at hk
    rw [Nat.mod_eq_of_lt hk] at hy
    exact ⟨0, hfirst.head, by rwa [if_neg (by simp)]⟩

end Walk

/-! An array of a class, and one of an anonymous struct. -/

namespace AnonymousArray

def A : StructType := ⟨some "trackedtype.A", false, [.scalar 8 3]⟩

def S : StructType := ⟨some "struct.anon", false, [.scalar 8 3]⟩

def T : StructType := ⟨some "trackedtype.T", false, [.scalar 8 3, .array 2 A.ty, .array 2 S.ty]⟩

def addrOf (name : String) : Nat :=
  if name = A.typeInfoName then 0x1000 else if name = S.typeInfoName then 0x2000 else 0x3000

def globals : Globals :=
  [(A.typeInfoName, infoMembers A), (S.typeInfoName, infoMembers S),
    (T.typeInfoName, infoMembers T)]

def memory : Memory := fun address =>
  [(0x1000, 8), (0x1008, 0), (0x1010, getHashCodeFromStruct A), (0x1018, minusOne),
    (0x2000, 8), (0x2008, 0), (0x2010, minusOne), (0x2018, minusOne),
    (0x3000, 40), (0x3008, 0), (0x3010, getHashCodeFromStruct T), (0x3018, 1 <<< 63 ||| 8),
    (0x3020, 0x1000), (0x3028, 1 <<< 63 ||| 24), (0x3030, 0x2000), (0x3038, minusOne)].lookup address

theorem moduleTables : ModuleTables memory addrOf [T] globals where
  populated := by decide
  names := ⟨by decide, by decide⟩
  globals_at := by decide

theorem solid : Solid T.ty := by
  have hA : Solid A.ty := .struct (by decide) (by simpa [A] using Solid.scalar 8 3)
  have hS : Solid S.ty := .struct (by decide) (by simpa [S] using Solid.scalar 8 3)
  refine .struct (by decide) fun e he => ?_
  simp only [T, List.mem_cons, List.not_mem_nil, or_false] at he
  rcases he with rfl | rfl | rfl
  · exact .scalar 8 3
  · exact .array (by decide) hA
  · exact .array (by decide) hS

/-- The second element of the first array. -/
theorem second : Subobject (.array 3 T.ty) (1 * 40 + (8 + (1 * 8 + 0))) A :=
  .element (by decide) (.member (i := 1) (show 1 < T.elements.length by decide)
    (.element (by decide) (subobject_self A)))

/-- The first element of the second array. -/
theorem anonymous : Subobject (.array 1 T.ty) (0 * 40 + (24 + (0 * 8 + 0))) S :=
  .element (by decide) (.member (i := 2) (show 2 < T.elements.length by decide)
    (.element (by decide) (subobject_self S)))

theorem second_tracked : ¬ InUntracked T (56 % T.ty.allocSize) := by
  have hT : T.offsets = [(0, .structNode T), (8, .arrayNode 2 A), (24, .arrayNode 2 S)] := by decide
  have hA : A.offsets = [(0, .structNode A)] := by decide
  have hnone (k : Nat) : ¬ InUntracked A k := by
    rintro (⟨h, -, -, -⟩ | ⟨h, -, -, -⟩) <;> simp [hA] at h
  rw [show 56 % T.ty.allocSize = 16 by decide]
  rintro (⟨h, hlo, hhi, hno⟩ | ⟨h, hlo, hhi, hin⟩)
  all_goals
    simp only [hT, List.mem_cons, Prod.mk.injEq, reduceCtorEq, and_false, false_or, or_false,
      TypeNode.arrayNode.injEq, List.not_mem_nil] at h
    rcases h with ⟨rfl, rfl, rfl⟩ | ⟨rfl, rfl, rfl⟩
  · exact absurd hno (by decide)
  · omega
  · exact hnone _ hin
  · omega

end AnonymousArray

open AnonymousArray

/-- In the second of three objects, a class's array element is found. -/
theorem ModuleTables.finds_outermost_of_second_element :
    ∃ U, Outermost (.array 3 T.ty) 56 U ∧
      Finds memory (56 : Nat) (addrOf T.typeInfoName) (getHashCodeFromStruct U) := by
  obtain ⟨U, hU, -, hfinds, -⟩ := moduleTables.finds_outermost (T := T) (n := 3) (k := 56)
    (by decide) (by decide) solid (by decide) second second_tracked
  exact ⟨U, hU, hfinds⟩

/-- An anonymous struct's array element is not: the walk ends with -1. -/
theorem ModuleTables.finds_outermost_fails_for_anonymous :
    ¬ ∀ (mem : Memory) (addrOf : String → Nat) (requests : List StructType) (globals : Globals)
        (T D : StructType) (n k : Nat), ModuleTables mem addrOf requests globals →
      T ∈ requestedNodes requests → T.isTracked = true → Solid T.ty → T.ty.allocSize < 2 ^ 63 →
      Subobject (.array n T.ty) k D →
      ∃ U, Outermost (.array n T.ty) k U ∧
        Finds mem k (addrOf T.typeInfoName) (getHashCodeFromStruct U) := by
  intro hall
  obtain ⟨U, hU, hfinds⟩ := hall memory addrOf [T] globals T S 1 24 moduleTables (by decide)
    (by decide) solid (by decide) anonymous
  obtain ⟨currentOffset, hfirst, hwalk⟩ := hfinds
  obtain rfl : 40 = currentOffset := Option.some.inj ((by decide : _ = some 40).symm.trans hfirst)
  have hminus : Yields memory (((24 : Nat) : Int).tmod (toLong 40)) 0 (addrOf T.typeInfoName + 8)
      (.src minusOne) := ⟨5, by decide⟩
  have heq : getHashCodeFromStruct U = minusOne :=
    WalkResult.src.inj (Yields.unique hwalk hminus)
  have hmem : U ∈ [T, A, S] := hU.1.mem_structs
  exact (by decide : ∀ V ∈ [T, A, S], getHashCodeFromStruct V ≠ minusOne) U hmem heq

end TypeSan
