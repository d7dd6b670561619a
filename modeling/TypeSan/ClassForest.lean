import TypeSan.ClassChain
import TypeSan.ClassInfo

/-! The infos of a module's classes form the forest of first elements. -/
namespace TypeSan

/-! What `recursiveProcessType` does, case by case. -/

section Process

variable {P : TypeSanTree} {s F : StructType}

theorem processFirstElement_parent (h : s.parentClass = some F) :
    processFirstElement s.elements P = some (recursiveProcessType F.ty P) := by
  obtain ⟨-, hhead⟩ := parentClass_eq_some.mp h
  obtain ⟨rest, helements⟩ := List.head?_eq_some_iff.mp hhead
  rw [helements, processFirstElement]

theorem processFirstElement_lost (h : s.isRemembered = false) :
    processFirstElement s.elements P = some (none, P) := by
  rw [StructType.isRemembered] at h
  split at h
  · rename_i helements
    rw [helements, processFirstElement, recursiveProcessType]
    simp
  · rename_i helements
    rw [helements, processFirstElement, recursiveProcessType]
    simp
  · cases h

theorem processFirstElement_root (h : s.isRemembered = true) (hparent : s.parentClass = none) :
    processFirstElement s.elements P = none := by
  rw [StructType.isRemembered] at h
  cases helements : s.elements with
  | nil => rw [processFirstElement]; all_goals simp
  | cons t es =>
    cases t with
    | struct name p fs =>
      cases name with
      | none => simp [helements] at h
      | some name =>
        have hsome : s.parentClass = some ⟨some name, p, fs⟩ :=
          parentClass_eq_some.mpr ⟨rfl, by rw [helements]; rfl⟩
        rw [hparent] at hsome
        cases hsome
    | opaqueStruct n => simp [helements] at h
    | scalar s a => rw [processFirstElement]; all_goals simp
    | array n e => rw [processFirstElement]; all_goals simp

variable (hs : s.name.isSome)
include hs

theorem recursiveProcessType_eq :
    recursiveProcessType s.ty P =
      match P.classInfoMap.lookup s with
      | some info => (some info, P)
      | none =>
        match processFirstElement s.elements (P.new s) with
        | none => (some P.next, (P.new s).insert s P.next)
        | some (none, P₁) => (some P.next, P₁)
        | some (some parentInfo, P₁) =>
          (some P.next,
            (P₁.addParent P.next parentInfo (s.elements.length == 1)).insert s P.next) := by
  obtain ⟨name, p, es⟩ := s
  obtain ⟨name, rfl⟩ := Option.isSome_iff_exists.mp hs
  unfold recursiveProcessType
  rfl

end Process

/-! The forest. -/

/-- A place on the heap that no remembered class refers to. -/
structure Orphan (P : TypeSanTree) (j : Nat) : Prop where
  lt : j < P.next
  not_mem : ∀ s, (s, j) ∉ P.classInfoMap
  not_parent : ∀ s i, (s, i) ∈ P.classInfoMap → (P.heap i).parent ≠ some j

/-- The info of a parent class that is not remembered. Its child alone refers to it. -/
structure LostParent (P : TypeSanTree) (s F : StructType) (j : Nat) : Prop where
  lt : j < P.next
  not_mem : ∀ s, (s, j) ∉ P.classInfoMap
  type : (P.heap j).type = F
  parent : (P.heap j).parent = none
  fresh : (P.heap j).didProcessFakeHashesTopDown = false
  mem_fake : ∀ hash, hash ∈ (P.heap j).fakeParentHashes ↔
    PhantomOf s F ∧ hash = getHashCodeFromStruct s

/-- The info of a remembered class. -/
structure Entry (P : TypeSanTree) (s : StructType) (i : Nat) : Prop where
  identified : s.name.isSome
  remembered : s.isRemembered = true
  lt : i < P.next
  type : (P.heap i).type = s
  classHash : (P.heap i).classHash = getHashCodeFromStruct s
  parentHashes : (P.heap i).parentHashes = hashes s.ancestors
  fresh : (P.heap i).didProcessFakeHashesBottomUp = false ∧
    (P.heap i).didProcessFakeHashesTopDown = false
  parent_none : s.parentClass = none → (P.heap i).parent = none
  parent_some : ∀ F, s.parentClass = some F → ∃ j, (P.heap i).parent = some j ∧
    (F.isRemembered = true → (F, j) ∈ P.classInfoMap) ∧
    (F.isRemembered = false → LostParent P s F j)
  mem_phantomChildren : ∀ c, c ∈ (P.heap i).phantomChildren ↔
    ∃ Q, (Q, c) ∈ P.classInfoMap ∧ PhantomOf Q s
  mem_fake : ∀ hash, hash ∈ (P.heap i).fakeParentHashes ↔
    ∃ Q c, (Q, c) ∈ P.classInfoMap ∧ PhantomOf Q s ∧ hash = getHashCodeFromStruct Q

/-- `classInfoMap` holds one info for each class, and the infos are right. -/
structure Forest (P : TypeSanTree) : Prop where
  unique : ∀ s i i', (s, i) ∈ P.classInfoMap → (s, i') ∈ P.classInfoMap → i = i'
  entry : ∀ s i, (s, i) ∈ P.classInfoMap → Entry P s i

theorem Forest.empty : Forest .empty where
  unique _ _ _ h := by cases h
  entry _ _ h := by cases h

section Forest

variable {P P' : TypeSanTree} {s s' F : StructType} {i i' j : Nat}

theorem Forest.type_unique (hP : Forest P) (h : (s, i) ∈ P.classInfoMap)
    (h' : (s', i) ∈ P.classInfoMap) : s = s' :=
  (hP.entry s i h).type.symm.trans (hP.entry s' i h').type

/-- A parent pointer leads to the info of the parent class. -/
theorem Entry.parent_cases (h : Entry P s i) (hj : (P.heap i).parent = some j) :
    ∃ F, s.parentClass = some F ∧
      (F.isRemembered = true ∧ (F, j) ∈ P.classInfoMap ∨
        F.isRemembered = false ∧ LostParent P s F j) := by
  cases hparent : s.parentClass with
  | none => simp [h.parent_none hparent] at hj
  | some F =>
    obtain ⟨j', hj', hmem, hlost⟩ := h.parent_some F hparent
    obtain rfl := Option.some.inj (hj.symm.trans hj')
    cases hF : F.isRemembered with
    | true => exact ⟨F, rfl, Or.inl ⟨hF, hmem hF⟩⟩
    | false => exact ⟨F, rfl, Or.inr ⟨hF, hlost hF⟩⟩

theorem Forest.parent_lt (hP : Forest P) (h : (s, i) ∈ P.classInfoMap)
    (hj : (P.heap i).parent = some j) : j < P.next := by
  obtain ⟨F, -, ⟨-, hmem⟩ | ⟨-, hlost⟩⟩ := (hP.entry s i h).parent_cases hj
  · exact (hP.entry F j hmem).lt
  · exact hlost.lt

/-! A new info. -/

theorem LostParent.new (h : LostParent P s F j) (t : StructType) : LostParent (P.new t) s F j := by
  have hheap : (P.new t).heap j = P.heap j := Function.update_of_ne (Nat.ne_of_lt h.lt) _ _
  refine ⟨Nat.lt_succ_of_lt h.lt, h.not_mem, ?_, ?_, ?_, ?_⟩
  · rw [hheap]; exact h.type
  · rw [hheap]; exact h.parent
  · rw [hheap]; exact h.fresh
  · rw [hheap]; exact h.mem_fake

theorem Entry.new (h : Entry P s i) (t : StructType) : Entry (P.new t) s i := by
  have hheap : (P.new t).heap i = P.heap i := Function.update_of_ne (Nat.ne_of_lt h.lt) _ _
  refine ⟨h.identified, h.remembered, Nat.lt_succ_of_lt h.lt, ?_, ?_, ?_, ?_, ?_, ?_, ?_, ?_⟩
  all_goals rw [hheap]
  · exact h.type
  · exact h.classHash
  · exact h.parentHashes
  · exact h.fresh
  · exact h.parent_none
  · intro F hF
    obtain ⟨j, hj, hmem, hlost⟩ := h.parent_some F hF
    exact ⟨j, hj, hmem, fun hno => (hlost hno).new t⟩
  · exact h.mem_phantomChildren
  · exact h.mem_fake

theorem Forest.new (hP : Forest P) (t : StructType) : Forest (P.new t) where
  unique := hP.unique
  entry s i h := (hP.entry s i h).new t

theorem Forest.orphan_new (hP : Forest P) (t : StructType) :
    Orphan (P.new t) P.next ∧ (P.new t).heap P.next = .make t := by
  refine ⟨⟨Nat.lt_succ_self _, fun s h => ?_, fun s i h hj => ?_⟩, Function.update_self _ _ _⟩
  · exact Nat.lt_irrefl _ (hP.entry s _ h).lt
  · have hheap : (P.new t).heap i = P.heap i :=
      Function.update_of_ne (Nat.ne_of_lt (hP.entry s i h).lt) _ _
    rw [hheap] at hj
    exact Nat.lt_irrefl _ (hP.parent_lt h hj)

theorem Forest.orphans_new (hP : Forest P) (t : StructType) (hj : Orphan P j) :
    Orphan (P.new t) j ∧ (P.new t).heap j = P.heap j := by
  refine ⟨⟨Nat.lt_succ_of_lt hj.lt, hj.not_mem, fun s i h => ?_⟩,
    Function.update_of_ne (Nat.ne_of_lt hj.lt) _ _⟩
  have hheap : (P.new t).heap i = P.heap i :=
    Function.update_of_ne (Nat.ne_of_lt (hP.entry s i h).lt) _ _
  rw [hheap]
  exact hj.not_parent s i h

/-! A class enters the map. -/

theorem addParent_self {isPhantom : Bool} (hij : i ≠ j) :
    (P.addParent i j isPhantom).heap i =
      { P.heap i with
        parent := some j
        parentHashes :=
          (P.heap i).parentHashes ++ (P.heap j).classHash :: (P.heap j).parentHashes } := by
  cases isPhantom <;> simp [TypeSanTree.addParent, hij]

theorem addParent_parent {isPhantom : Bool} (hij : i ≠ j) :
    (P.addParent i j isPhantom).heap j =
      if isPhantom then
        { P.heap j with
          phantomChildren := (P.heap j).phantomChildren ++ [i]
          fakeParentHashes := (P.heap j).fakeParentHashes ++ [(P.heap i).classHash] }
      else P.heap j := by
  cases isPhantom <;> simp [TypeSanTree.addParent, Ne.symm hij]

theorem addParent_of_ne {isPhantom : Bool} {k : Nat} (hi : k ≠ i) (hj : k ≠ j) :
    (P.addParent i j isPhantom).heap k = P.heap k := by
  cases isPhantom <;> simp [TypeSanTree.addParent, hi, hj]

@[simp] theorem addParent_next (b : Bool) : (P.addParent i j b).next = P.next := by
  cases b <;> rfl

@[simp] theorem addParent_classInfoMap (b : Bool) :
    (P.addParent i j b).classInfoMap = P.classInfoMap := by
  cases b <;> rfl

/-- The class is new to the map, and its info is still as it was made. -/
structure Enters (P : TypeSanTree) (s : StructType) (i : Nat) : Prop where
  identified : s.name.isSome
  remembered : s.isRemembered = true
  orphan : Orphan P i
  made : P.heap i = .make s
  not_mem : ∀ i', (s, i') ∉ P.classInfoMap

/-- What the entry of a class into the map leaves of the others. -/
structure Entered (P P' : TypeSanTree) (s : StructType) (i : Nat) : Prop where
  classInfoMap : P'.classInfoMap = (s, i) :: P.classInfoMap
  next : P'.next = P.next

theorem Entered.lostParent (hin : Entered P P' s i) (hi : Orphan P i)
    (hmem : (s', i') ∈ P.classInfoMap) (hparent : (P.heap i').parent = some j) (h : LostParent P s' F j)
    (hheap : P'.heap j = P.heap j) : LostParent P' s' F j where
  lt := hin.next ▸ h.lt
  not_mem t ht := by
    rw [hin.classInfoMap] at ht
    rcases List.mem_cons.mp ht with heq | ht
    · cases heq
      exact hi.not_parent s' i' hmem hparent
    · exact h.not_mem t ht
  type := by rw [hheap]; exact h.type
  parent := by rw [hheap]; exact h.parent
  fresh := by rw [hheap]; exact h.fresh
  mem_fake := by rw [hheap]; exact h.mem_fake

/-- The other infos stay right, if the parent of the new class has learnt of it. -/
theorem Entered.entry (hin : Entered P P' s i) (hi : Orphan P i) (h : Entry P s' i')
    (hmem : (s', i') ∈ P.classInfoMap)
    (hheap : ∀ j, (P.heap i').parent = some j → (∀ t, (t, j) ∉ P.classInfoMap) →
      P'.heap j = P.heap j)
    (hkept : P'.heap i' = { P.heap i' with
      phantomChildren := (P'.heap i').phantomChildren
      fakeParentHashes := (P'.heap i').fakeParentHashes })
    (hchildren : ∀ c, c ∈ (P'.heap i').phantomChildren ↔
      c ∈ (P.heap i').phantomChildren ∨ c = i ∧ PhantomOf s s')
    (hfake : ∀ hash, hash ∈ (P'.heap i').fakeParentHashes ↔
      hash ∈ (P.heap i').fakeParentHashes ∨ hash = getHashCodeFromStruct s ∧ PhantomOf s s') :
    Entry P' s' i' := by
  have hentries (Q : StructType) (c : Nat) : (Q, c) ∈ P'.classInfoMap ↔
      (Q, c) ∈ P.classInfoMap ∨ Q = s ∧ c = i := by
    rw [hin.classInfoMap, List.mem_cons, Prod.mk.injEq, or_comm]
  refine ⟨h.identified, h.remembered, hin.next ▸ h.lt, ?_, ?_, ?_, ?_, ?_, ?_, ?_, ?_⟩
  · rw [hkept]; exact h.type
  · rw [hkept]; exact h.classHash
  · rw [hkept]; exact h.parentHashes
  · rw [hkept]; exact h.fresh
  · rw [hkept]; exact h.parent_none
  · intro F hF
    obtain ⟨j, hj, hremembered, hlost⟩ := h.parent_some F hF
    refine ⟨j, by rw [hkept]; exact hj, fun hyes => ?_, fun hno => ?_⟩
    · rw [hin.classInfoMap]
      exact List.mem_cons_of_mem _ (hremembered hyes)
    · exact hin.lostParent hi hmem hj (hlost hno) (hheap j hj (hlost hno).not_mem)
  · intro c
    rw [hchildren, h.mem_phantomChildren]
    simp only [hentries, or_and_right, exists_or, and_assoc, exists_eq_left]
  · intro hash
    rw [hfake, h.mem_fake]
    simp only [hentries, or_and_right, exists_or, and_assoc, exists_eq_left, exists_and_left]
    simp only [and_comm]

/-- A class has no phantom class in the map before it is there itself. -/
theorem Enters.no_phantom (h : Enters P s i) (hP : Forest P) (hin : Entered P P' s i)
    {Q : StructType} {c : Nat} (hQ : (Q, c) ∈ P'.classInfoMap) : ¬ PhantomOf Q s := by
  intro hphantom
  rw [hin.classInfoMap] at hQ
  rcases List.mem_cons.mp hQ with heq | hQ
  · cases heq
    exact Nat.lt_irrefl _ (parentClass_depth_lt hphantom.parentClass)
  · obtain ⟨j, -, hmem, -⟩ := (hP.entry Q c hQ).parent_some s hphantom.parentClass
    exact h.not_mem j (hmem h.remembered)

/-- The info of the class itself. -/
theorem Enters.entry (h : Enters P s i) (hP : Forest P) (hin : Entered P P' s i)
    (hheap : P'.heap i = { ClassInheritanceInfo.make s with
      parent := (P'.heap i).parent, parentHashes := hashes s.ancestors })
    (hnone : s.parentClass = none → (P'.heap i).parent = none)
    (hsome : ∀ F, s.parentClass = some F → ∃ j, (P'.heap i).parent = some j ∧
      (F.isRemembered = true → (F, j) ∈ P.classInfoMap) ∧
      (F.isRemembered = false → LostParent P' s F j)) : Entry P' s i where
  identified := h.identified
  remembered := h.remembered
  lt := hin.next ▸ h.orphan.lt
  type := by rw [hheap]; rfl
  classHash := by rw [hheap]; rfl
  parentHashes := by rw [hheap]
  fresh := by rw [hheap]; exact ⟨rfl, rfl⟩
  parent_none := hnone
  parent_some F hF := by
    obtain ⟨j, hj, hmem, hlost⟩ := hsome F hF
    exact ⟨j, hj, fun hyes => hin.classInfoMap ▸ List.mem_cons_of_mem _ (hmem hyes), hlost⟩
  mem_phantomChildren c := by
    rw [hheap]
    refine ⟨fun hc => (List.not_mem_nil hc).elim, ?_⟩
    rintro ⟨Q, hQ, hphantom⟩
    exact (h.no_phantom hP hin hQ hphantom).elim
  mem_fake hash := by
    rw [hheap]
    refine ⟨fun hc => (List.not_mem_nil hc).elim, ?_⟩
    rintro ⟨Q, c, hQ, hphantom, -⟩
    exact (h.no_phantom hP hin hQ hphantom).elim

theorem Entered.forest (hin : Entered P P' s i) (h : Enters P s i) (hP : Forest P)
    (hself : Entry P' s i) (hothers : ∀ s' i', (s', i') ∈ P.classInfoMap → Entry P' s' i') :
    Forest P' where
  unique t k k' hk hk' := by
    rw [hin.classInfoMap] at hk hk'
    rcases List.mem_cons.mp hk with heq | hk <;> rcases List.mem_cons.mp hk' with heq' | hk'
    · cases heq
      cases heq'
      rfl
    · cases heq
      exact (h.not_mem k' hk').elim
    · cases heq'
      exact (h.not_mem k hk).elim
    · exact hP.unique t k k' hk hk'
  entry t k hk := by
    rw [hin.classInfoMap] at hk
    rcases List.mem_cons.mp hk with heq | hk
    · cases heq
      exact hself
    · exact hothers t k hk

/-- Other orphans stay orphans. -/
theorem Entered.orphan (hin : Entered P P' s i) {o : Nat} (ho : Orphan P o) (hne : o ≠ i)
    (hself : (P'.heap i).parent ≠ some o)
    (hothers : ∀ k, k ≠ i → (P'.heap k).parent = (P.heap k).parent) : Orphan P' o where
  lt := hin.next ▸ ho.lt
  not_mem t ht := by
    rw [hin.classInfoMap] at ht
    rcases List.mem_cons.mp ht with heq | ht
    · cases heq
      exact hne rfl
    · exact ho.not_mem t ht
  not_parent t k hk := by
    by_cases hki : k = i
    · rw [hki]
      exact hself
    · rw [hothers k hki]
      rw [hin.classInfoMap] at hk
      rcases List.mem_cons.mp hk with heq | hk
      · cases heq
        exact (hki rfl).elim
      · exact ho.not_parent t k hk

/-- A class without a parent class enters. -/
theorem Enters.root (h : Enters P s i) (hP : Forest P) (hroot : s.parentClass = none) :
    Forest (P.insert s i) ∧
      ∀ o, Orphan P o → o ≠ i → Orphan (P.insert s i) o ∧ (P.insert s i).heap o = P.heap o := by
  have hin : Entered P (P.insert s i) s i := ⟨rfl, rfl⟩
  have hheap : (P.insert s i).heap i = .make s := h.made
  have hno (s' : StructType) : ¬ PhantomOf s s' := by
    intro hphantom
    rw [hphantom.parentClass] at hroot
    cases hroot
  refine ⟨hin.forest h hP (h.entry hP hin ?_ ?_ ?_) fun s' i' hmem => ?_, fun o ho hne => ?_⟩
  · rw [hheap, ancestors_eq_nil hroot]
    rfl
  · exact fun _ => by rw [hheap]; rfl
  · simp [hroot]
  · exact hin.entry h.orphan (hP.entry s' i' hmem) hmem (fun _ _ _ => rfl) rfl
      (fun c => by simp [hno, TypeSanTree.insert]) fun hash => by simp [hno, TypeSanTree.insert]
  · refine ⟨hin.orphan ho hne ?_ fun _ _ => rfl, rfl⟩
    rw [hheap]
    simp [ClassInheritanceInfo.make]

/-- The pointer to a parent class: the one in the map, or a new one that is not remembered. -/
structure ParentPtr (P : TypeSanTree) (F : StructType) (j : Nat) : Prop where
  remembered : F.isRemembered = true → (F, j) ∈ P.classInfoMap
  lost : F.isRemembered = false → Orphan P j ∧ P.heap j = .make F

theorem ParentPtr.ne (hj : ParentPtr P F j) (h : Enters P s i) (hF : s.parentClass = some F) :
    i ≠ j := by
  rintro rfl
  cases hyes : F.isRemembered with
  | true => exact h.orphan.not_mem F (hj.remembered hyes)
  | false =>
    have heq : s = F := congrArg (·.type) (h.made.symm.trans (hj.lost hyes).2)
    have := parentClass_depth_lt hF
    rw [heq] at this
    exact Nat.lt_irrefl _ this

/-- The hashes that a child takes over. -/
theorem ParentPtr.hashes (hj : ParentPtr P F j) (hP : Forest P) (hF : F.name.isSome) :
    (P.heap j).classHash :: (P.heap j).parentHashes = hashes F.chain := by
  rw [chain_eq hF]
  cases hyes : F.isRemembered with
  | true =>
    have hentry := hP.entry F j (hj.remembered hyes)
    rw [hentry.classHash, hentry.parentHashes]
    rfl
  | false =>
    have hnone : F.parentClass = none := by
      cases hparent : F.parentClass with
      | none => rfl
      | some G => simp [isRemembered_of_parentClass hparent] at hyes
    rw [(hj.lost hyes).2, ancestors_eq_nil hnone]
    rfl

/-- The entry of a class with a parent class. -/
structure EnteredBelow (P P' : TypeSanTree) (s F : StructType) (i j : Nat) : Prop
    extends Entered P P' s i where
  ne : i ≠ j
  self : P'.heap i = { ClassInheritanceInfo.make s with
    parent := some j, parentHashes := hashes s.ancestors }
  parent : P'.heap j = if PhantomOf s F then
      { P.heap j with
        phantomChildren := (P.heap j).phantomChildren ++ [i]
        fakeParentHashes := (P.heap j).fakeParentHashes ++ [getHashCodeFromStruct s] }
    else P.heap j
  other : ∀ k, k ≠ i → k ≠ j → P'.heap k = P.heap k

theorem Enters.enteredBelow (h : Enters P s i) (hP : Forest P) (hF : s.parentClass = some F)
    (hj : ParentPtr P F j) :
    EnteredBelow P ((P.addParent i j (decide (PhantomOf s F))).insert s i) s F i j where
  classInfoMap := by simp [TypeSanTree.insert]
  next := by simp [TypeSanTree.insert]
  ne := hj.ne h hF
  self := by
    rw [TypeSanTree.insert, addParent_self (hj.ne h hF), h.made,
      hj.hashes hP (parentClass_eq_some.mp hF).1, ancestors_eq hF]
    rfl
  parent := by
    rw [TypeSanTree.insert, addParent_parent (hj.ne h hF), h.made]
    simp only [decide_eq_true_eq]
    rfl
  other k hki hkj := addParent_of_ne hki hkj

/-- A parent that is not remembered knows its child, if that is a phantom class. -/
theorem EnteredBelow.lostParent (hin : EnteredBelow P P' s F i j) (hj : Orphan P j)
    (hmade : P.heap j = .make F) : LostParent P' s F j := by
  have hheap := hin.parent
  rw [hmade] at hheap
  refine ⟨hin.next ▸ hj.lt, fun t ht => ?_, ?_, ?_, ?_, fun hash => ?_⟩
  · rw [hin.classInfoMap] at ht
    rcases List.mem_cons.mp ht with heq | ht
    · cases heq
      exact hin.ne rfl
    · exact hj.not_mem t ht
  all_goals
    rw [hheap]
    by_cases hphantom : PhantomOf s F <;> simp [hphantom, ClassInheritanceInfo.make]

/-- A remembered parent stays right. -/
theorem EnteredBelow.entry_parent (hin : EnteredBelow P P' s F i j) (hi : Orphan P i)
    (hP : Forest P) (hmem : (F, j) ∈ P.classInfoMap) : Entry P' F j := by
  refine hin.entry hi (hP.entry F j hmem) hmem (fun k hk hlost => hin.other k ?_ ?_) ?_ ?_ ?_
  · rintro rfl
    exact hi.not_parent F j hmem hk
  · rintro rfl
    exact hlost F hmem
  all_goals
    rw [hin.parent]
    by_cases hphantom : PhantomOf s F <;> simp [hphantom]

/-- So does every other class. -/
theorem EnteredBelow.entry_other (hin : EnteredBelow P P' s F i j) (h : Enters P s i)
    (hP : Forest P) (hF : s.parentClass = some F) (hj : ParentPtr P F j)
    (hmem : (s', i') ∈ P.classInfoMap) (hne : i' ≠ j) : Entry P' s' i' := by
  have hi' : i' ≠ i := by
    rintro rfl
    exact h.orphan.not_mem s' hmem
  have hno : ¬ PhantomOf s s' := by
    intro hphantom
    obtain rfl := Option.some.inj (hF.symm.trans hphantom.parentClass)
    have hyes := (hP.entry F i' hmem).remembered
    exact hne (hP.unique _ _ _ hmem (hj.remembered hyes))
  have hheap := hin.other i' hi' hne
  refine hin.entry h.orphan (hP.entry s' i' hmem) hmem (fun k hk hlost => hin.other k ?_ ?_)
    (by rw [hheap]) (by simp [hheap, hno]) (by simp [hheap, hno])
  · rintro rfl
    exact h.orphan.not_parent s' i' hmem hk
  · rintro rfl
    cases hyes : F.isRemembered with
    | true => exact hlost F (hj.remembered hyes)
    | false => exact (hj.lost hyes).1.not_parent s' i' hmem hk

theorem EnteredBelow.parent_eq (hin : EnteredBelow P P' s F i j) {k : Nat} (hk : k ≠ i) :
    (P'.heap k).parent = (P.heap k).parent := by
  by_cases hkj : k = j
  · subst hkj
    rw [hin.parent]
    split <;> rfl
  · rw [hin.other k hk hkj]

/-- A class with a parent class enters. -/
theorem Enters.child (h : Enters P s i) (hP : Forest P) (hF : s.parentClass = some F)
    (hj : ParentPtr P F j) :
    Forest ((P.addParent i j (decide (PhantomOf s F))).insert s i) ∧
      ∀ o, Orphan P o → o ≠ i → o ≠ j →
        Orphan ((P.addParent i j (decide (PhantomOf s F))).insert s i) o ∧
          ((P.addParent i j (decide (PhantomOf s F))).insert s i).heap o = P.heap o := by
  have hin := h.enteredBelow hP hF hj
  generalize (P.addParent i j (decide (PhantomOf s F))).insert s i = P' at hin ⊢
  refine ⟨hin.forest h hP (h.entry hP hin.toEntered ?_ ?_ ?_) fun s' i' hmem => ?_,
    fun o ho hoi hoj => ⟨hin.orphan ho hoi ?_ fun k => hin.parent_eq, hin.other o hoi hoj⟩⟩
  · rw [hin.self]
  · simp [hF]
  · intro G hG
    obtain rfl := Option.some.inj (hF.symm.trans hG)
    refine ⟨j, by rw [hin.self], hj.remembered, ?_⟩
    intro hno
    exact hin.lostParent (hj.lost hno).1 (hj.lost hno).2
  · by_cases hij : i' = j
    · subst hij
      have hyes : F.isRemembered = true := by
        by_contra hno
        exact (hj.lost (by simpa using hno)).1.not_mem s' hmem
      obtain rfl := hP.type_unique hmem (hj.remembered hyes)
      exact hin.entry_parent h.orphan hP hmem
    · exact hin.entry_other h hP hF hj hmem hij
  · rw [hin.self]
    simpa using Ne.symm hoj

/-! The whole pass over a type. -/

/-- What `recursiveProcessType` leaves, and what it returns. -/
structure Processed (P P' : TypeSanTree) (s : StructType) (i : Nat) : Prop where
  forest : Forest P'
  subset : P.classInfoMap ⊆ P'.classInfoMap
  orphans : ∀ o, Orphan P o → Orphan P' o ∧ P'.heap o = P.heap o
  ptr : ParentPtr P' s i
  fresh : s.isRemembered = false → ¬ Orphan P i
  keys : ∀ D i, (D, i) ∈ P'.classInfoMap → (D, i) ∈ P.classInfoMap ∨ D ∈ s.chain

theorem mem_of_lookup (h : P.classInfoMap.lookup s = some i) : (s, i) ∈ P.classInfoMap := by
  obtain ⟨l₁, l₂, heq, -⟩ := List.lookup_eq_some_iff.mp h
  rw [heq]
  simp

theorem not_mem_of_lookup (h : P.classInfoMap.lookup s = none) (i : Nat) :
    (s, i) ∉ P.classInfoMap := by
  intro hmem
  have := List.lookup_eq_none_iff.mp h _ hmem
  simp at this

/-- A class that is not remembered gets an info, and nothing else. -/
theorem Forest.processed_new (hP : Forest P) (hyes : s.isRemembered = false) :
    Processed P (P.new s) s P.next where
  forest := hP.new s
  subset := List.Subset.refl _
  orphans o ho := hP.orphans_new s ho
  ptr := ⟨by simp [hyes], fun _ => hP.orphan_new s⟩
  fresh _ ho := Nat.lt_irrefl _ ho.lt
  keys _ _ := Or.inl

/-- A root enters. -/
theorem Forest.processed_root (hP : Forest P) (hs : s.name.isSome) (hyes : s.isRemembered = true)
    (hparent : s.parentClass = none) (hlookup : P.classInfoMap.lookup s = none) :
    Processed P ((P.new s).insert s P.next) s P.next := by
  obtain ⟨hi, hmade⟩ := hP.orphan_new s
  have henters : Enters (P.new s) s P.next := ⟨hs, hyes, hi, hmade, not_mem_of_lookup hlookup⟩
  obtain ⟨hforest, horphans⟩ := henters.root (hP.new s) hparent
  refine ⟨hforest, List.subset_cons_self _ _, fun o ho => ?_,
    ⟨fun _ => List.mem_cons_self, by simp [hyes]⟩, by simp [hyes], fun D i hD => ?_⟩
  · obtain ⟨ho₁, hheap₁⟩ := hP.orphans_new s ho
    obtain ⟨ho', hheap'⟩ := horphans o ho₁ (Nat.ne_of_lt ho.lt)
    exact ⟨ho', hheap'.trans hheap₁⟩
  · rcases List.mem_cons.mp hD with heq | hD
    · cases heq
      exact Or.inr (chain_eq hs ▸ List.mem_cons_self)
    · exact Or.inl hD

/-- A class enters below its parent class, which has been processed. -/
theorem Processed.child (hproc : Processed (P.new s) P' F j) (hP : Forest P) (hs : s.name.isSome)
    (hyes : s.isRemembered = true) (hparent : s.parentClass = some F)
    (hlookup : P.classInfoMap.lookup s = none) :
    Processed P ((P'.addParent P.next j (decide (PhantomOf s F))).insert s P.next) s P.next := by
  obtain ⟨hi, hmade⟩ := hP.orphan_new s
  obtain ⟨hi₁, hmade₁⟩ := hproc.orphans _ hi
  have henters : Enters P' s P.next := by
    refine ⟨hs, hyes, hi₁, hmade₁.trans hmade, ?_⟩
    intro i' hmem
    rcases hproc.keys s i' hmem with hmem | hchain
    · exact not_mem_of_lookup hlookup i' hmem
    · rw [← ancestors_eq hparent] at hchain
      exact Nat.lt_irrefl _ (depth_lt_of_mem_ancestors hchain)
  obtain ⟨hforest, horphans⟩ := henters.child hproc.forest hparent hproc.ptr
  refine ⟨hforest, fun e he => ?_, fun o ho => ?_,
    ⟨fun _ => List.mem_cons_self, by simp [hyes]⟩, by simp [hyes], fun D i hD => ?_⟩
  · simpa [TypeSanTree.insert] using Or.inr (hproc.subset he)
  · obtain ⟨ho₁, hheap₁⟩ := hP.orphans_new s ho
    obtain ⟨ho₂, hheap₂⟩ := hproc.orphans o ho₁
    have hoj : o ≠ j := by
      rintro rfl
      cases hyesF : F.isRemembered with
      | true => exact ho₂.not_mem F (hproc.ptr.remembered hyesF)
      | false => exact hproc.fresh hyesF ho₁
    obtain ⟨ho', hheap'⟩ := horphans o ho₂ (Nat.ne_of_lt ho.lt) hoj
    exact ⟨ho', hheap'.trans (hheap₂.trans hheap₁)⟩
  · simp only [TypeSanTree.insert, addParent_classInfoMap] at hD
    rw [chain_eq hs, ancestors_eq hparent]
    rcases List.mem_cons.mp hD with heq | hD
    · cases heq
      exact Or.inr List.mem_cons_self
    · exact (hproc.keys D i hD).imp_right (List.mem_cons_of_mem s)

/-- `recursiveProcessType` returns the info of the class. -/
theorem Forest.process (hP : Forest P) (hs : s.name.isSome) :
    ∃ i P', recursiveProcessType s.ty P = (some i, P') ∧ Processed P P' s i := by
  induction hd : s.ty.depth using Nat.strong_induction_on generalizing s P with
  | _ d ih =>
    subst hd
    rw [recursiveProcessType_eq hs]
    cases hlookup : P.classInfoMap.lookup s with
    | some i =>
      have hmem := mem_of_lookup hlookup
      have hyes := (hP.entry s i hmem).remembered
      exact ⟨i, P, rfl, hP, List.Subset.refl _, fun o ho => ⟨ho, rfl⟩,
        ⟨fun _ => hmem, by simp [hyes]⟩, by simp [hyes], fun _ _ => Or.inl⟩
    | none =>
      cases hyes : s.isRemembered with
      | false =>
        rw [processFirstElement_lost hyes]
        exact ⟨_, _, rfl, hP.processed_new hyes⟩
      | true =>
        cases hparent : s.parentClass with
        | none =>
          rw [processFirstElement_root hyes hparent]
          exact ⟨_, _, rfl, hP.processed_root hs hyes hparent hlookup⟩
        | some F =>
          obtain ⟨hF, -⟩ := parentClass_eq_some.mp hparent
          obtain ⟨j, P₁, h₁, hproc⟩ := ih _ (parentClass_depth_lt hparent) (hP.new s) hF rfl
          rw [processFirstElement_parent hparent, h₁, length_eq_one_iff hparent]
          exact ⟨_, _, rfl, hproc.child hP hs hyes hparent hlookup⟩

/-- The pass over some of a module's types. -/
theorem ModuleTypes.foldl_process {types l : List StructType} (h : ModuleTypes types)
    (hl : l ⊆ types) (hP : Forest P) :
    ∃ P', l.foldl (fun P STy => (recursiveProcessType STy.ty P).2) P = P' ∧ Forest P' ∧
      P.classInfoMap ⊆ P'.classInfoMap ∧
      (∀ s ∈ l, s.isRemembered = true → ∃ i, (s, i) ∈ P'.classInfoMap) ∧
      ∀ s i, (s, i) ∈ P'.classInfoMap → (s, i) ∈ P.classInfoMap ∨ s ∈ types := by
  induction l generalizing P with
  | nil => exact ⟨P, rfl, hP, List.Subset.refl _, by simp, fun s i => Or.inl⟩
  | cons t l ih =>
    obtain ⟨ht, hl⟩ := List.cons_subset.mp hl
    obtain ⟨i, P₁, h₁, hproc⟩ := hP.process (h.identified t ht)
    obtain ⟨P', h', hforest, hsub, hin, hkeys⟩ := ih hl hproc.forest
    rw [List.foldl_cons, h₁]
    refine ⟨P', h', hforest, List.Subset.trans hproc.subset hsub, fun s hs hyes => ?_,
      fun s i hmem => ?_⟩
    · rcases List.mem_cons.mp hs with rfl | hs
      · exact ⟨i, hsub (hproc.ptr.remembered hyes)⟩
      · exact hin s hs hyes
    · rcases hkeys s i hmem with hmem | hs
      · exact (hproc.keys s i hmem).imp_right fun hs => h.chain_subset ht hs
      · exact Or.inr hs

/-- The pass remembers the classes whose first element is no literal or opaque struct. -/
theorem ModuleTypes.forest {types : List StructType} (h : ModuleTypes types) :
    Forest (processTypes types) ∧
      ∀ s, (∃ i, (s, i) ∈ (processTypes types).classInfoMap) ↔
        s ∈ types ∧ s.isRemembered = true := by
  obtain ⟨P', rfl, hforest, -, hin, hkeys⟩ := h.foldl_process (List.Subset.refl _) Forest.empty
  refine ⟨hforest, fun s => ⟨?_, fun hs => hin s hs.1 hs.2⟩⟩
  rintro ⟨i, hmem⟩
  rcases hkeys s i hmem with hmem' | hs
  · cases hmem'
  · exact ⟨hs, (hforest.entry s i hmem).remembered⟩

/-! No class enters twice. -/

theorem Forest.process_nodup (hP : Forest P) (hs : s.name.isSome) (h : P.classInfoMap.Nodup) :
    (recursiveProcessType s.ty P).2.classInfoMap.Nodup := by
  induction hd : s.ty.depth using Nat.strong_induction_on generalizing s P with
  | _ d ih =>
    subst hd
    rw [recursiveProcessType_eq hs]
    cases hlookup : P.classInfoMap.lookup s with
    | some i => exact h
    | none =>
      cases hyes : s.isRemembered with
      | false =>
        rw [processFirstElement_lost hyes]
        exact h
      | true =>
        cases hparent : s.parentClass with
        | none =>
          rw [processFirstElement_root hyes hparent]
          exact List.nodup_cons.mpr ⟨not_mem_of_lookup hlookup _, h⟩
        | some F =>
          have hF := (parentClass_eq_some.mp hparent).1
          have hnodup := ih _ (parentClass_depth_lt hparent) (hP.new s) hF h rfl
          obtain ⟨j, P₁, h₁, hproc⟩ := (hP.new s).process hF
          rw [h₁] at hnodup
          rw [processFirstElement_parent hparent, h₁]
          simp only [TypeSanTree.insert, addParent_classInfoMap]
          refine List.nodup_cons.mpr ⟨fun hmem => ?_, hnodup⟩
          -- the classes that entered below `s` are less deep
          rcases hproc.keys s _ hmem with hmem | hchain
          · exact not_mem_of_lookup hlookup _ hmem
          · rw [← ancestors_eq hparent] at hchain
            exact Nat.lt_irrefl _ (depth_lt_of_mem_ancestors hchain)

theorem ModuleTypes.nodup {types : List StructType} (h : ModuleTypes types) :
    (processTypes types).classInfoMap.Nodup := by
  have hrun (l : List StructType) (hl : l ⊆ types) (P : TypeSanTree) (hP : Forest P)
      (hnodup : P.classInfoMap.Nodup) :
      (l.foldl (fun P STy => (recursiveProcessType STy.ty P).2) P).classInfoMap.Nodup := by
    induction l generalizing P with
    | nil => exact hnodup
    | cons t l ih =>
      obtain ⟨ht, hl⟩ := List.cons_subset.mp hl
      have hnodup' := hP.process_nodup (h.identified t ht) hnodup
      obtain ⟨i, P₁, h₁, hproc⟩ := hP.process (h.identified t ht)
      rw [h₁] at hnodup'
      rw [List.foldl_cons, h₁]
      exact ih hl P₁ hproc.forest hnodup'
  exact hrun types (List.Subset.refl types) _ Forest.empty List.nodup_nil

end Forest

end TypeSan
