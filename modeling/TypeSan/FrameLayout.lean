import TypeSan.MetaStack

/-! The objects of one activation on the tracked stack. -/
namespace TypeSan

open Rounding Runs

/-- An object on the tracked stack. -/
structure StackObject where
  start : Nat
  size : Nat
  align : Nat
  deriving DecidableEq

namespace StackObject

def Has (o : StackObject) (x : Nat) : Prop := o.start ≤ x ∧ x < o.start + o.size

/-- No byte of one is in the 64-byte granule of a byte of the other. -/
def Apart (o o' : StackObject) : Prop := ∀ x y, o.Has x → o'.Has y → x / 64 ≠ y / 64

end StackObject

namespace TrackedFunction

/-- The loop of `moveStaticAllocasToUnsafeStack`: where it puts each alloca. -/
def layoutAllocas (base : Nat) : Nat → List (Nat × Nat) → List StackObject
  | _, [] => []
  | StaticOffset, AI :: rest =>
    let Size := max 1 AI.1
    let StaticOffset := alignTo (StaticOffset + Size) (max AI.2 StackAlignment)
    ⟨(base + negOffset StaticOffset) % 2 ^ 64, Size, AI.2⟩ :: layoutAllocas base StaticOffset rest

def staticObjects (F : TrackedFunction) (BasePointer : Nat) : List StackObject :=
  layoutAllocas (F.alignedBase BasePointer) 0 F.StaticAllocas

end TrackedFunction

namespace TrackedStack

/-- A dynamic alloca, given by its bytes and its alignment. -/
def allocate (s : TrackedStack) (AI : Nat × Nat) : Option TrackedStack := s.dynamicAlloca AI.1 AI.2

/-- Dynamic allocas one after another: the objects, and the stack behind them. -/
def dynamicObjects : TrackedStack → List (Nat × Nat) → Option (List StackObject × TrackedStack)
  | s, [] => some ([], s)
  | s, AI :: rest => do
    let t ← s.allocate AI
    let (objects, u) ← t.dynamicObjects rest
    return (⟨t.pointer, AI.1, AI.2⟩ :: objects, u)

end TrackedStack

/-- The objects stand below each other in the part of the stack between the two pointers, each
where its alignment and that of the stack allow. -/
def Stacked : Nat → List StackObject → Nat → Prop
  | top, [], bottom => bottom ≤ top
  | top, o :: rest, bottom =>
    o.start + o.size ≤ top ∧ max StackAlignment o.align ∣ o.start ∧ 64 ∣ o.start ∧
      Stacked o.start rest bottom

variable {top mid bottom : Nat} {objects objects' : List StackObject}

theorem Stacked.le (h : Stacked top objects bottom) : bottom ≤ top := by
  induction objects generalizing top with
  | nil => exact h
  | cons o rest ih =>
    have := ih h.2.2.2
    have := h.1
    omega

theorem Stacked.append (h : Stacked top objects mid) (h' : Stacked mid objects' bottom) :
    Stacked top (objects ++ objects') bottom := by
  induction objects generalizing top with
  | nil =>
    cases objects' with
    | nil => exact Nat.le_trans h'.le h
    | cons o rest => exact ⟨Nat.le_trans h'.1 h, h'.2⟩
  | cons o rest ih => exact ⟨h.1, h.2.1, h.2.2.1, ih h.2.2.2⟩

theorem Stacked.within (h : Stacked top objects bottom) :
    ∀ o ∈ objects, max StackAlignment o.align ∣ o.start ∧ bottom ≤ o.start ∧
      o.start + o.size ≤ top := by
  induction objects generalizing top with
  | nil => simp
  | cons o rest ih =>
    obtain ⟨hsize, halign, -, hrest⟩ := h
    intro o' ho'
    rcases List.mem_cons.mp ho' with rfl | ho'
    · exact ⟨halign, hrest.le, hsize⟩
    · obtain ⟨halign', hbottom, htop⟩ := ih hrest o' ho'
      exact ⟨halign', hbottom, by omega⟩

theorem Stacked.apart (h : Stacked top objects bottom) : objects.Pairwise StackObject.Apart := by
  induction objects generalizing top with
  | nil => exact List.Pairwise.nil
  | cons o rest ih =>
    obtain ⟨-, -, hgranule, hrest⟩ := h
    refine List.pairwise_cons.mpr ⟨fun o' ho' x y hx hy => ?_, ih hrest⟩
    -- the later object ends below the granule that the earlier one starts with
    have hbelow := (hrest.within o' ho').2.2
    obtain ⟨k, hk⟩ := hgranule
    have hy' : y / 64 < k := Nat.div_lt_of_lt_mul (by have := hy.2; omega)
    have hx' : k ≤ x / 64 := (Nat.le_div_iff_mul_le (by decide)).mpr (by have := hx.1; omega)
    omega

/-! Static allocas. -/

namespace TrackedFunction

theorem subtract_eq {base bytes : Nat} (hbase : base < 2 ^ 64) (hle : bytes ≤ base) :
    (base + (2 ^ 64 - bytes)) % 2 ^ 64 = base - bytes := by
  rw [show base + (2 ^ 64 - bytes) = base - bytes + 2 ^ 64 by omega, Nat.add_mod_right]
  exact Nat.mod_eq_of_lt (by omega)

/-- A constant offset of up to 2 GiB is subtracted. -/
theorem add_negOffset {base offset : Nat} (hbase : base < 2 ^ 64) (hle : offset ≤ base)
    (hoffset : offset ≤ 2 ^ 31) : (base + negOffset offset) % 2 ^ 64 = base - offset := by
  rcases Nat.eq_zero_or_pos offset with rfl | hpos
  · rw [negOffset]
    simp only [Nat.zero_mod, Nat.sub_zero, Nat.mod_self]
    simpa using Nat.mod_eq_of_lt hbase
  · have hneg : negOffset offset = 2 ^ 64 - offset := by
      rw [negOffset, Nat.mod_eq_of_lt (by omega : offset < 2 ^ 32),
        Nat.mod_eq_of_lt (by omega : 2 ^ 32 - offset < 2 ^ 32), if_neg (by omega)]
      omega
    rw [hneg, subtract_eq hbase hle]

theorem dvd_of_powers {a b : Nat} (ha : a.isPowerOfTwo) (hb : b.isPowerOfTwo) (h : a ≤ b) :
    a ∣ b := by
  obtain ⟨i, rfl⟩ := ha
  obtain ⟨j, rfl⟩ := hb
  exact Nat.pow_dvd_pow 2 ((Nat.pow_le_pow_iff_right (by decide)).mp h)

theorem isPowerOfTwo_max {a b : Nat} (ha : a.isPowerOfTwo) (hb : b.isPowerOfTwo) :
    (max a b).isPowerOfTwo := by
  rcases Nat.le_total a b with h | h
  · rwa [Nat.max_eq_right h]
  · rwa [Nat.max_eq_left h]

theorem isPowerOfTwo_stackAlignment : StackAlignment.isPowerOfTwo := ⟨6, rfl⟩

/-- The offset behind a list of static allocas. -/
def offsetBehind (StaticOffset : Nat) (allocas : List (Nat × Nat)) : Nat :=
  allocas.foldl
    (fun StaticOffset AI => alignTo (StaticOffset + max 1 AI.1) (max AI.2 StackAlignment))
    StaticOffset

/-- The objects are laid out in the order of the allocas, with at least a byte each. -/
theorem forall₂_layoutAllocas (base StaticOffset : Nat) (allocas : List (Nat × Nat)) :
    List.Forall₂ (fun AI o => o.size = max 1 AI.1 ∧ o.align = AI.2) allocas
      (layoutAllocas base StaticOffset allocas) := by
  induction allocas generalizing StaticOffset with
  | nil => exact .nil
  | cons AI rest ih =>
    rw [layoutAllocas]
    exact .cons ⟨rfl, rfl⟩ (ih _)

theorem le_alignTo_alloca (StaticOffset : Nat) (AI : Nat × Nat) :
    StaticOffset + max 1 AI.1 ≤ alignTo (StaticOffset + max 1 AI.1) (max AI.2 StackAlignment) :=
  le_alignTo (Nat.lt_of_lt_of_le (by decide : 0 < StackAlignment) (Nat.le_max_right _ _))

theorem le_offsetBehind (StaticOffset : Nat) (allocas : List (Nat × Nat)) :
    StaticOffset ≤ offsetBehind StaticOffset allocas := by
  induction allocas generalizing StaticOffset with
  | nil => exact Nat.le_refl _
  | cons AI rest ih =>
    have hone : StaticOffset ≤ alignTo (StaticOffset + max 1 AI.1) (max AI.2 StackAlignment) :=
      Nat.le_trans (Nat.le_add_right _ _) (le_alignTo_alloca StaticOffset AI)
    exact Nat.le_trans hone (ih _)

/-- The static allocas stand below each other, from the offset on. -/
theorem stacked_layoutAllocas {base StaticOffset : Nat} {allocas : List (Nat × Nat)}
    (hbase : base < 2 ^ 64) (halign : ∀ AI ∈ allocas, max AI.2 StackAlignment ∣ base)
    (hpowers : ∀ AI ∈ allocas, AI.2.isPowerOfTwo)
    (hroom : offsetBehind StaticOffset allocas ≤ base)
    (hframe : offsetBehind StaticOffset allocas ≤ 2 ^ 31) :
    Stacked (base - StaticOffset) (layoutAllocas base StaticOffset allocas)
      (base - offsetBehind StaticOffset allocas) := by
  induction allocas generalizing StaticOffset with
  | nil => exact Nat.le_refl _
  | cons AI rest ih =>
    have hlast := le_offsetBehind
      (alignTo (StaticOffset + max 1 AI.1) (max AI.2 StackAlignment)) rest
    have hsize := le_alignTo_alloca StaticOffset AI
    have hoffset := dvd_alignTo (StaticOffset + max 1 AI.1) (max AI.2 StackAlignment)
    rw [offsetBehind, List.foldl_cons] at hroom hframe ⊢
    change alignTo _ _ ≤ offsetBehind _ rest at hlast
    rw [← offsetBehind] at hroom hframe ⊢
    rw [layoutAllocas]
    simp only [Stacked]
    rw [add_negOffset hbase (by omega) (by omega)]
    have hdvd := Nat.dvd_sub (halign AI List.mem_cons_self) hoffset
    have hstack : StackAlignment ∣ max AI.2 StackAlignment :=
      dvd_of_powers isPowerOfTwo_stackAlignment (isPowerOfTwo_max
        (hpowers AI List.mem_cons_self) isPowerOfTwo_stackAlignment) (Nat.le_max_right _ _)
    refine ⟨by omega, by rwa [Nat.max_comm], hstack.trans hdvd, ?_⟩
    exact ih (fun AI h => halign AI (List.mem_cons_of_mem _ h))
      (fun AI h => hpowers AI (List.mem_cons_of_mem _ h)) hroom hframe

theorem foldl_max_align {allocas : List (Nat × Nat)} {MaxAlignment : Nat}
    (hmax : MaxAlignment.isPowerOfTwo) (hpowers : ∀ AI ∈ allocas, AI.2.isPowerOfTwo) :
    (allocas.foldl (fun m AI => max m AI.2) MaxAlignment).isPowerOfTwo ∧
      MaxAlignment ≤ allocas.foldl (fun m AI => max m AI.2) MaxAlignment ∧
      ∀ AI ∈ allocas, AI.2 ≤ allocas.foldl (fun m AI => max m AI.2) MaxAlignment := by
  induction allocas generalizing MaxAlignment with
  | nil => exact ⟨hmax, Nat.le_refl _, by simp⟩
  | cons AI rest ih =>
    obtain ⟨hpower, hle, hall⟩ := ih (isPowerOfTwo_max hmax (hpowers AI List.mem_cons_self))
      fun AI h => hpowers AI (List.mem_cons_of_mem _ h)
    rw [List.foldl_cons]
    refine ⟨hpower, Nat.le_trans (Nat.le_max_left _ _) hle, ?_⟩
    intro AI' hmem
    rcases List.mem_cons.mp hmem with rfl | hmem
    · exact Nat.le_trans (Nat.le_max_right _ _) hle
    · exact hall AI' hmem

variable {F : TrackedFunction} {entry : Nat}

theorem alignedBase_le (F : TrackedFunction) (entry : Nat) : F.alignedBase entry ≤ entry := by
  unfold alignedBase
  split
  · exact Nat.sub_le _ _
  · exact Nat.le_refl _

/-- The base pointer is aligned for every static alloca, and for the stack. -/
theorem dvd_alignedBase (hentry : StackAlignment ∣ entry)
    (hpowers : ∀ AI ∈ F.StaticAllocas, AI.2.isPowerOfTwo) :
    StackAlignment ∣ F.alignedBase entry ∧
      ∀ AI ∈ F.StaticAllocas, max AI.2 StackAlignment ∣ F.alignedBase entry := by
  obtain ⟨hpower, hle, hall⟩ := foldl_max_align isPowerOfTwo_stackAlignment hpowers
  have hmax : F.maxAlignment ∣ F.alignedBase entry := by
    unfold alignedBase
    split
    · exact Nat.dvd_sub_mod _
    · rename_i hno
      rwa [show F.maxAlignment = StackAlignment from Nat.le_antisymm (by omega) hle]
  refine ⟨(dvd_of_powers isPowerOfTwo_stackAlignment hpower hle).trans hmax, ?_⟩
  intro AI hAI
  exact (dvd_of_powers (isPowerOfTwo_max (hpowers AI hAI) isPowerOfTwo_stackAlignment) hpower
    (Nat.max_le.mpr ⟨hall AI hAI, hle⟩)).trans hmax

/-- The static allocas of a function stand between its entry pointer and its static top. -/
theorem stacked_staticObjects (hentry : StackAlignment ∣ entry) (hword : entry < 2 ^ 64)
    (hpowers : ∀ AI ∈ F.StaticAllocas, AI.2.isPowerOfTwo) (hframe : F.staticOffset < 2 ^ 31)
    (hroom : F.staticOffset ≤ F.alignedBase entry) :
    Stacked entry (F.staticObjects entry) (F.staticTop entry) ∧
      StackAlignment ∣ F.staticTop entry := by
  obtain ⟨hgranule, halign⟩ := dvd_alignedBase hentry hpowers
  have hbase := alignedBase_le F entry
  unfold staticTop
  split
  · rename_i hnil
    rw [staticObjects, hnil]
    exact ⟨Nat.le_refl _, hentry⟩
  · rw [add_negOffset (by omega) hroom (by omega)]
    have hoffset : offsetBehind 0 F.StaticAllocas ≤ F.staticOffset := le_alignTo (by decide)
    have hstacked := stacked_layoutAllocas (by omega) halign hpowers
      (Nat.le_trans hoffset hroom) (by omega : offsetBehind 0 F.StaticAllocas ≤ 2 ^ 31)
    refine ⟨?_, Nat.dvd_sub hgranule (dvd_alignTo _ _)⟩
    have hdown : Stacked entry [] (F.alignedBase entry - 0) := hbase
    have hup : Stacked (F.alignedBase entry - offsetBehind 0 F.StaticAllocas) []
        (F.alignedBase entry - F.staticOffset) := by
      change F.alignedBase entry - _ ≤ _
      omega
    simpa [staticObjects] using (hdown.append hstacked).append hup

end TrackedFunction

/-! Dynamic allocas. -/

namespace TrackedStack

variable {s t : TrackedStack}

/-- A dynamic alloca that does not wrap puts its object right below the pointer, aligned. -/
theorem allocate_eq {AI : Nat × Nat} (hword : s.pointer < 2 ^ 64) (hroom : AI.1 ≤ s.pointer)
    (halign : AI.2.isPowerOfTwo) (h : s.allocate AI = some t) :
    t.pointer + AI.1 ≤ s.pointer ∧ max StackAlignment AI.2 ∣ t.pointer ∧
      StackAlignment ∣ t.pointer := by
  unfold allocate dynamicAlloca at h
  cases hacts : s.activations with
  | nil => simp [hacts] at h
  | cons f rest =>
    simp only [hacts, Option.ite_none_right_eq_some, Option.some.injEq] at h
    obtain ⟨-, rfl⟩ := h
    have hSP : (s.pointer + (2 ^ 64 - AI.1 % 2 ^ 64)) % 2 ^ 64 = s.pointer - AI.1 := by
      rw [Nat.mod_eq_of_lt (by omega : AI.1 < 2 ^ 64), TrackedFunction.subtract_eq hword hroom]
    have hdvd : max StackAlignment AI.2 ∣
        s.pointer - AI.1 - (s.pointer - AI.1) % max AI.2 StackAlignment := by
      rw [Nat.max_comm]
      exact Nat.dvd_sub_mod _
    simp only [hSP]
    refine ⟨by omega, hdvd, ?_⟩
    exact (TrackedFunction.dvd_of_powers TrackedFunction.isPowerOfTwo_stackAlignment
      (TrackedFunction.isPowerOfTwo_max TrackedFunction.isPowerOfTwo_stackAlignment halign)
      (Nat.le_max_left _ _)).trans hdvd

theorem stacked_dynamicObjects {allocas : List (Nat × Nat)} {objects : List StackObject}
    (hword : s.pointer < 2 ^ 64) (hgranule : StackAlignment ∣ s.pointer)
    (hpowers : ∀ AI ∈ allocas, AI.2.isPowerOfTwo)
    (hroom : Guarded allocate (fun s AI => AI.1 ≤ s.pointer) s allocas)
    (h : s.dynamicObjects allocas = some (objects, t)) :
    Stacked s.pointer objects t.pointer ∧ StackAlignment ∣ t.pointer := by
  induction allocas generalizing s objects with
  | nil =>
    cases h
    exact ⟨Nat.le_refl _, hgranule⟩
  | cons AI rest ih =>
    obtain ⟨u, hu, h⟩ := Option.bind_eq_some_iff.mp h
    obtain ⟨⟨objects', t'⟩, hrest, h⟩ := Option.bind_eq_some_iff.mp h
    cases h
    obtain ⟨hbelow, halign, hstack⟩ := allocate_eq hword
      (hroom [] AI s (by simp) rfl) (hpowers AI List.mem_cons_self) hu
    have hroom' : Guarded allocate (fun s AI => AI.1 ≤ s.pointer) u rest := by
      intro front l v hfront hv
      exact hroom (AI :: front) l v (List.cons_prefix_cons.mpr ⟨rfl, hfront⟩)
        (by rw [exec_cons, hu]; exact hv)
    obtain ⟨hstacked, hbottom⟩ := ih (by omega) hstack
      (fun AI h => hpowers AI (List.mem_cons_of_mem _ h)) hroom' hrest
    exact ⟨⟨hbelow, halign, hstack, hstacked⟩, hbottom⟩

/-- Each dynamic alloca has its object, in the order of the allocas. -/
theorem forall₂_dynamicObjects {allocas : List (Nat × Nat)} {objects : List StackObject}
    (h : s.dynamicObjects allocas = some (objects, t)) :
    List.Forall₂ (fun AI o => o.size = AI.1 ∧ o.align = AI.2) allocas objects := by
  induction allocas generalizing s objects with
  | nil =>
    cases h
    exact .nil
  | cons AI rest ih =>
    obtain ⟨u, hu, h⟩ := Option.bind_eq_some_iff.mp h
    obtain ⟨⟨objects', t'⟩, hrest, h⟩ := Option.bind_eq_some_iff.mp h
    cases h
    exact .cons ⟨rfl, rfl⟩ (ih hrest)

/-- The objects of an activation, static ones first and dynamic ones in the order of their allocas,
where none of them wraps the pointer: each alloca has its object, of its bytes (a static one of at
least a byte) and its alignment, each object is aligned, no two share a byte or a granule, all lie
between the pointer and its entry value, and the pointer is aligned again. -/
theorem frame_apart {F : TrackedFunction} {allocas : List (Nat × Nat)}
    {objects : List StackObject} (hentry : StackAlignment ∣ s.pointer) (hword : s.pointer < 2 ^ 64)
    (hpowers : ∀ AI ∈ F.StaticAllocas ++ allocas, AI.2.isPowerOfTwo)
    (hframe : F.staticOffset < 2 ^ 31)
    (hroom : F.staticOffset ≤ F.alignedBase s.pointer)
    (hroom' : Guarded allocate (fun s AI => AI.1 ≤ s.pointer) (s.call F) allocas)
    (h : (s.call F).dynamicObjects allocas = some (objects, t)) :
    List.Forall₂ (fun AI o => o.size = max 1 AI.1 ∧ o.align = AI.2) F.StaticAllocas
      (F.staticObjects s.pointer) ∧
    List.Forall₂ (fun AI o => o.size = AI.1 ∧ o.align = AI.2) allocas objects ∧
    (∀ o ∈ F.staticObjects s.pointer ++ objects, max 64 o.align ∣ o.start ∧
      t.pointer ≤ o.start ∧ o.start + o.size ≤ s.pointer) ∧
    (F.staticObjects s.pointer ++ objects).Pairwise (fun o o' => ∀ x y, o.Has x → o'.Has y →
      x ≠ y ∧ x / 64 ≠ y / 64) ∧
    64 ∣ t.pointer := by
  obtain ⟨hstatic, htop⟩ := TrackedFunction.stacked_staticObjects hentry hword
    (fun AI h => hpowers AI (List.mem_append_left _ h)) hframe hroom
  have hcall : (s.call F).pointer < 2 ^ 64 := Nat.lt_of_le_of_lt hstatic.le hword
  obtain ⟨hdynamic, hbottom⟩ := stacked_dynamicObjects hcall
    htop (fun AI h => hpowers AI (List.mem_append_right _ h)) hroom' h
  have hall := hstatic.append hdynamic
  refine ⟨TrackedFunction.forall₂_layoutAllocas _ _ _, forall₂_dynamicObjects h, hall.within,
    hall.apart.imp fun happart x y hx hy => ?_, hbottom⟩
  have hgranule := happart x y hx hy
  exact ⟨fun heq => hgranule (heq ▸ rfl), hgranule⟩

/-- Three static allocas, one of no bytes and one that is aligned to 256 bytes, and two dynamic
ones. -/
theorem frame_apart_of_mixed : ∃ objects t,
    ((init 0x10040).call ⟨[(8, 8), (0, 1), (100, 256)], true, false⟩).dynamicObjects
      [(24, 8), (200, 128)] = some (objects, t) ∧ 64 ∣ t.pointer ∧
      List.Forall₂ (fun AI o => o.size = AI.1 ∧ o.align = AI.2) [(24, 8), (200, 128)] objects ∧
      ∀ o ∈ objects, t.pointer ≤ o.start ∧ o.start + o.size ≤ 0x10040 := by
  have hrun : (((init 0x10040).call ⟨[(8, 8), (0, 1), (100, 256)], true, false⟩).dynamicObjects
      [(24, 8), (200, 128)]).isSome := by decide
  obtain ⟨⟨objects, t⟩, h⟩ := Option.isSome_iff_exists.mp hrun
  have hroom : Guarded allocate (fun s AI => AI.1 ≤ s.pointer)
      ((init 0x10040).call ⟨[(8, 8), (0, 1), (100, 256)], true, false⟩)
      [(24, 8), (200, 128)] := by
    refine guarded_cons (by decide) fun u hu => guarded_cons ?_ fun _ _ => guarded_nil
    obtain rfl := Option.some.inj hu
    decide
  obtain ⟨-, hobjects, hall, -, hbottom⟩ := frame_apart (s := init 0x10040) (by decide) (by decide)
    (by simpa using ⟨⟨3, rfl⟩, ⟨0, rfl⟩, ⟨8, rfl⟩, ⟨3, rfl⟩, ⟨7, rfl⟩⟩) (by decide) (by decide)
    hroom h
  exact ⟨objects, t, h, hbottom, hobjects, fun o ho => (hall o (List.mem_append_right _ ho)).2⟩

end TrackedStack

end TypeSan
