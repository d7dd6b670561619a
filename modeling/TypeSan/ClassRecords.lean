import TypeSan.ClassForest

/-! The two passes over the phantom classes, and the records that come out of them. -/
namespace TypeSan

open Gather Relation

/-- A phantom class of the class, or of such a class, and so on. -/
def PhantomBelow : StructType → StructType → Prop := TransGen PhantomOf

/-- The hash of a phantom class of the module, below the class or one of its ancestors. Below one that
is not remembered only the classes on the chain itself count. -/
def FakeParent (types : List StructType) (s : StructType) (hash : Nat) : Prop :=
  ∃ B ∈ s.chain, ∃ Q ∈ types, PhantomBelow Q B ∧ hash = getHashCodeFromStruct Q ∧
    (B.isRemembered = true ∨ Q ∈ s.chain)

theorem PhantomBelow.depth_lt {Q B : StructType} (h : PhantomBelow Q B) :
    B.ty.depth < Q.ty.depth := by
  induction h with
  | single h => exact parentClass_depth_lt h.parentClass
  | tail _ h ih => exact Nat.lt_trans (parentClass_depth_lt h.parentClass) ih

/-- The first step below. -/
theorem PhantomBelow.cases {Q B F : StructType} (h : PhantomBelow Q B) (hF : Q.parentClass = some F) :
    PhantomOf Q F ∧ (F = B ∨ PhantomBelow F B) := by
  rcases TransGen.head'_iff.mp h with ⟨G, hG, hGB⟩
  obtain rfl := Option.some.inj (hF.symm.trans hG.parentClass)
  refine ⟨hG, ?_⟩
  rcases reflTransGen_iff_eq_or_transGen.mp hGB with rfl | hGB
  · exact Or.inl rfl
  · exact Or.inr hGB

theorem isRemembered_of_below {R s : StructType} (h : ReflTransGen PhantomOf R s)
    (hs : s.isRemembered = true) : R.isRemembered = true := by
  rcases h.cases_head with rfl | ⟨F, hF, -⟩
  · exact hs
  · exact hF.isRemembered

theorem ancestors_of_lost {F : StructType} (h : F.isRemembered = false) : F.ancestors = [] := by
  refine ancestors_eq_nil ?_
  cases hparent : F.parentClass with
  | none => rfl
  | some G => simp [isRemembered_of_parentClass hparent] at h

/-- A class finds what lies below it, and what its parent class finds. -/
theorem ModuleTypes.fakeParent_iff {types : List StructType} (h : ModuleTypes types)
    {s : StructType} (hs : s ∈ types) (hyes : s.isRemembered = true) (hash : Nat) :
    FakeParent types s hash ↔
      (∃ Q ∈ types, PhantomBelow Q s ∧ hash = getHashCodeFromStruct Q) ∨
        ∃ F, s.parentClass = some F ∧ (F.isRemembered = true ∧ FakeParent types F hash ∨
          F.isRemembered = false ∧ PhantomOf s F ∧ hash = getHashCodeFromStruct s) := by
  have hchain := chain_eq (h.identified s hs)
  constructor
  · rintro ⟨B, hB, Q, hQ, hbelow, hhash, hcounts⟩
    rw [hchain] at hB hcounts
    rcases List.mem_cons.mp hB with rfl | hB
    · exact Or.inl ⟨Q, hQ, hbelow, hhash⟩
    cases hparent : s.parentClass with
    | none => simp [ancestors_eq_nil hparent] at hB
    | some F =>
      refine Or.inr ⟨F, rfl, ?_⟩
      have hF := (parentClass_eq_some.mp hparent).1
      rw [ancestors_eq hparent] at hB hcounts
      cases hremembered : F.isRemembered with
      | false =>
        rw [chain_eq hF, ancestors_of_lost hremembered] at hB hcounts
        obtain rfl := List.mem_singleton.mp hB
        have hQs : Q ∈ [s, B] := hcounts.resolve_left (by simp [hremembered])
        rcases List.mem_pair.mp hQs with rfl | rfl
        · exact Or.inr ⟨rfl, (hbelow.cases hparent).1, hhash⟩
        · exact (Nat.lt_irrefl _ hbelow.depth_lt).elim
      | true =>
        refine Or.inl ⟨rfl, ?_⟩
        rcases hcounts with hB' | hQs
        · exact ⟨B, hB, Q, hQ, hbelow, hhash, Or.inl hB'⟩
        rcases List.mem_cons.mp hQs with rfl | hQF
        · obtain ⟨hphantom, -⟩ := hbelow.cases hparent
          exact ⟨F, by simp [chain_eq hF], Q, hQ, .single hphantom, hhash, Or.inl hremembered⟩
        · exact ⟨B, hB, Q, hQ, hbelow, hhash, Or.inr hQF⟩
  · rintro (⟨Q, hQ, hbelow, hhash⟩ | ⟨F, hparent, ⟨-, B, hB, Q, hQ, hbelow, hhash, hcounts⟩ |
      ⟨-, hphantom, hhash⟩⟩)
    · exact ⟨s, by simp [hchain], Q, hQ, hbelow, hhash, Or.inl hyes⟩
    · rw [FakeParent, hchain, ancestors_eq hparent]
      exact ⟨B, List.mem_cons_of_mem s hB, Q, hQ, hbelow, hhash,
        hcounts.imp_right (List.mem_cons_of_mem s)⟩
    · rw [FakeParent, hchain, ancestors_eq hparent, chain_eq hphantom.2]
      exact ⟨F, by simp, s, hs, .single hphantom, hhash, Or.inr (by simp)⟩

section Passes

variable {P : TypeSanTree} (hP : Forest P) {s : StructType} {i : Nat}
include hP

/-! From the phantom children up. -/

theorem Forest.bottomUp_acyclic {bound : Nat}
    (hbound : ∀ s i, (s, i) ∈ P.classInfoMap → s.ty.depth ≤ bound) :
    Acyclic bottomUp P.heap (fun i => ∃ s, (s, i) ∈ P.classInfoMap)
      fun i => bound - (P.heap i).type.ty.depth where
  fresh := by
    rintro i ⟨s, hmem⟩
    exact (hP.entry s i hmem).fresh.1
  succ_mem := by
    rintro i ⟨s, hmem⟩ c hc
    obtain ⟨Q, hQ, -⟩ := ((hP.entry s i hmem).mem_phantomChildren c).mp hc
    exact ⟨Q, hQ⟩
  succ_lt := by
    rintro i ⟨s, hmem⟩ c hc
    obtain ⟨Q, hQ, hphantom⟩ := ((hP.entry s i hmem).mem_phantomChildren c).mp hc
    have := parentClass_depth_lt hphantom.parentClass
    have := hbound Q c hQ
    rw [(hP.entry s i hmem).type, (hP.entry Q c hQ).type]
    omega

/-- Phantom children lead to all phantom classes below. -/
theorem Forest.reaches_iff (hmem : (s, i) ∈ P.classInfoMap) {j : Nat} :
    ReflTransGen (fun i j => j ∈ bottomUp.succ (P.heap i)) i j ↔
      ∃ R, (R, j) ∈ P.classInfoMap ∧ ReflTransGen PhantomOf R s := by
  constructor
  · intro h
    induction h with
    | refl => exact ⟨s, hmem, .refl⟩
    | tail _ hj ih =>
      obtain ⟨R, hR, hRs⟩ := ih
      obtain ⟨Q, hQ, hQR⟩ := ((hP.entry R _ hR).mem_phantomChildren _).mp hj
      exact ⟨Q, hQ, .head hQR hRs⟩
  · rintro ⟨R, hR, hRs⟩
    induction hRs using ReflTransGen.head_induction_on generalizing j with
    | refl => rw [hP.unique s i j hmem hR]
    | @head R F hRF hFs ih =>
      obtain ⟨l, -, hF, -⟩ := (hP.entry R j hR).parent_some F hRF.parentClass
      have hF := hF (isRemembered_of_below hFs (hP.entry s i hmem).remembered)
      exact (ih hF).tail (((hP.entry F l hF).mem_phantomChildren j).mpr ⟨R, hR, hRF⟩)

theorem Forest.gathered_bottomUp (hmem : (s, i) ∈ P.classInfoMap) (hash : Nat) :
    Gathered bottomUp P.heap i hash ↔
      ∃ Q c, (Q, c) ∈ P.classInfoMap ∧ PhantomBelow Q s ∧ hash = getHashCodeFromStruct Q := by
  simp only [Gathered, hP.reaches_iff hmem]
  constructor
  · rintro ⟨j, ⟨R, hR, hRs⟩, hhash⟩
    obtain ⟨Q, c, hQ, hQR, rfl⟩ := ((hP.entry R j hR).mem_fake hash).mp hhash
    exact ⟨Q, c, hQ, TransGen.head' hQR hRs, rfl⟩
  · rintro ⟨Q, c, hQ, hbelow, rfl⟩
    obtain ⟨R, hQR, hRs⟩ := TransGen.head'_iff.mp hbelow
    obtain ⟨j, -, hR, -⟩ := (hP.entry Q c hQ).parent_some R hQR.parentClass
    have hR := hR (isRemembered_of_below hRs (hP.entry s i hmem).remembered)
    exact ⟨j, ⟨R, hR, hRs⟩, ((hP.entry R j hR).mem_fake _).mpr ⟨Q, c, hQ, hQR, rfl⟩⟩

/-! And from the parents down. -/

/-- The heap after the first pass. -/
structure BottomUpDone (P : TypeSanTree) (H : Heap) : Prop where
  entry : ∀ s i, (s, i) ∈ P.classInfoMap → Settled bottomUp P.heap i (H i)
  other : ∀ j, (¬ ∃ s, (s, j) ∈ P.classInfoMap) → H j = P.heap j

variable {H : Heap} (hH : BottomUpDone P H)
include hH

omit hP in
theorem BottomUpDone.same (j : Nat) : (H j).parent = (P.heap j).parent ∧
    (H j).didProcessFakeHashesTopDown = (P.heap j).didProcessFakeHashesTopDown ∧
    (H j).classHash = (P.heap j).classHash ∧ (H j).parentHashes = (P.heap j).parentHashes := by
  by_cases hj : ∃ s, (s, j) ∈ P.classInfoMap
  · obtain ⟨s, hs⟩ := hj
    obtain ⟨xs, heq, -⟩ := hH.entry s j hs
    rw [heq]
    exact ⟨rfl, rfl, rfl, rfl⟩
  · rw [hH.other j hj]
    exact ⟨rfl, rfl, rfl, rfl⟩

theorem Forest.topDown_acyclic :
    Acyclic topDown H
      (fun j => (∃ s, (s, j) ∈ P.classInfoMap) ∨ ∃ s F, LostParent P s F j)
      fun j => (P.heap j).type.ty.depth where
  fresh := by
    rintro j (⟨s, hmem⟩ | ⟨s, F, hlost⟩)
    · exact (hH.same j).2.1.trans (hP.entry s j hmem).fresh.2
    · exact (hH.same j).2.1.trans hlost.fresh
  succ_mem := by
    rintro j hj l hl
    have hl : (P.heap j).parent = some l := (hH.same j).1 ▸ Option.mem_toList.mp hl
    rcases hj with ⟨s, hmem⟩ | ⟨s, F, hlost⟩
    · obtain ⟨F, -, ⟨-, hF⟩ | ⟨-, hF⟩⟩ := (hP.entry s j hmem).parent_cases hl
      · exact Or.inl ⟨F, hF⟩
      · exact Or.inr ⟨s, F, hF⟩
    · simp [hlost.parent] at hl
  succ_lt := by
    rintro j hj l hl
    have hl : (P.heap j).parent = some l := (hH.same j).1 ▸ Option.mem_toList.mp hl
    rcases hj with ⟨s, hmem⟩ | ⟨s, F, hlost⟩
    · obtain ⟨F, hparent, hF⟩ := (hP.entry s j hmem).parent_cases hl
      have htype : (P.heap l).type = F :=
        hF.elim (fun hF => (hP.entry F l hF.2).type) fun hF => hF.2.type
      rw [(hP.entry s j hmem).type, htype]
      exact parentClass_depth_lt hparent
    · simp [hlost.parent] at hl

variable {types : List StructType}
  (hkeys : ∀ s, (∃ i, (s, i) ∈ P.classInfoMap) ↔ s ∈ types ∧ s.isRemembered = true)
include hkeys

/-- After the first pass a class has the phantom classes below it. -/
theorem Forest.mem_fake_bottomUp (hmem : (s, i) ∈ P.classInfoMap) (hash : Nat) :
    hash ∈ (H i).fakeParentHashes ↔
      ∃ Q ∈ types, PhantomBelow Q s ∧ hash = getHashCodeFromStruct Q := by
  have hitems := (hH.entry s i hmem).mem_items (x := hash)
  change hash ∈ (H i).fakeParentHashes ↔ _ at hitems
  rw [hitems, hP.gathered_bottomUp hmem]
  constructor
  · rintro ⟨Q, c, hQ, hbelow, hhash⟩
    exact ⟨Q, ((hkeys Q).mp ⟨c, hQ⟩).1, hbelow, hhash⟩
  · rintro ⟨Q, hQ, hbelow, hhash⟩
    obtain ⟨R, hQR, -⟩ := TransGen.head'_iff.mp hbelow
    obtain ⟨c, hc⟩ := (hkeys Q).mpr ⟨hQ, hQR.isRemembered⟩
    exact ⟨Q, c, hc, hbelow, hhash⟩

/-- From there the second pass collects what the whole chain has. -/
theorem Forest.gathered_topDown (hT : ModuleTypes types) (hmem : (s, i) ∈ P.classInfoMap)
    (hash : Nat) : Gathered topDown H i hash ↔ FakeParent types s hash := by
  induction hd : s.ty.depth using Nat.strong_induction_on generalizing s i with
  | _ d ih =>
    subst hd
    obtain ⟨hs, hyes⟩ := (hkeys s).mp ⟨i, hmem⟩
    have hlost (F : StructType) (j : Nat) (h : LostParent P s F j) :
        Gathered topDown H j hash ↔ PhantomOf s F ∧ hash = getHashCodeFromStruct s := by
      have hsame := hH.other j fun ⟨t, ht⟩ => h.not_mem t ht
      have hitems : hash ∈ topDown.items (H j) ↔ _ := hsame ▸ h.mem_fake hash
      have hsucc : topDown.succ (H j) = [] := by
        change (H j).parent.toList = []
        rw [hsame, h.parent]
        rfl
      rw [gathered_iff, hitems, hsucc]
      simp
    rw [gathered_iff, hT.fakeParent_iff hs hyes]
    refine or_congr (hP.mem_fake_bottomUp hH hkeys hmem hash) ?_
    have hsucc (j : Nat) : j ∈ topDown.succ (H i) ↔ (P.heap i).parent = some j := by
      rw [← (hH.same i).1]
      exact Option.mem_toList
    simp only [hsucc]
    constructor
    · rintro ⟨j, hj, hgathered⟩
      obtain ⟨F, hparent, ⟨hF, hmemF⟩ | ⟨hF, hlostF⟩⟩ := (hP.entry s i hmem).parent_cases hj
      · exact ⟨F, hparent, Or.inl ⟨hF,
          (ih _ (parentClass_depth_lt hparent) hmemF rfl).mp hgathered⟩⟩
      · exact ⟨F, hparent, Or.inr ⟨hF, (hlost F j hlostF).mp hgathered⟩⟩
    · rintro ⟨F, hparent, hF⟩
      obtain ⟨j, hj, hmemF, hlostF⟩ := (hP.entry s i hmem).parent_some F hparent
      refine ⟨j, hj, ?_⟩
      rcases hF with ⟨hF, hfake⟩ | ⟨hF, hfake⟩
      · exact (ih _ (parentClass_depth_lt hparent) (hmemF hF) rfl).mpr hfake
      · exact (hlost F j (hlostF hF)).mpr hfake

end Passes

/-- Both passes end. An info then has the hashes of its ancestors and those of its fake parents, for
any types that the infos are about. -/
theorem Forest.processFakeParents_eq {types classes : List StructType}
    (hP : Forest (processTypes types)) (hT : ModuleTypes classes)
    (hkeys : ∀ s, (∃ i, (s, i) ∈ (processTypes types).classInfoMap) ↔
      s ∈ classes ∧ s.isRemembered = true)
    (hdepth : ∀ s i, (s, i) ∈ (processTypes types).classInfoMap →
      s.ty.depth ≤ Ty.depths (types.map (·.ty)))
    {order : List (StructType × Nat)} (horder : order.Perm (processTypes types).classInfoMap) :
    ∃ heap, processFakeParents types order = some heap ∧ ∀ e ∈ order,
      (heap e.2).classHash = getHashCodeFromStruct e.1 ∧
      (heap e.2).parentHashes = hashes e.1.ancestors ∧
      ∀ hash, hash ∈ (heap e.2).fakeParentHashes ↔ FakeParent classes e.1 hash := by
  have hmem (e : StructType × Nat) (he : e ∈ order) : e ∈ (processTypes types).classInfoMap :=
    horder.subset he
  obtain ⟨H₁, hH₁, hset₁, -, hother₁, -⟩ := visits_settled (hP.bottomUp_acyclic hdepth)
    (Ty.depths (types.map (·.ty)) + 1) (order.map Prod.snd)
    (fun i hi => by
      obtain ⟨e, he, rfl⟩ := List.mem_map.mp hi
      exact ⟨⟨e.1, hmem e he⟩, by omega⟩)
    fun i _ => Or.inl rfl
  have hdone : BottomUpDone (processTypes types) H₁ :=
    ⟨fun s i h => hset₁ i (List.mem_map_of_mem (horder.symm.subset h)), hother₁⟩
  obtain ⟨H₂, hH₂, hset₂, -⟩ := visits_settled (hP.topDown_acyclic hdone)
    (Ty.depths (types.map (·.ty)) + 1) (order.map Prod.snd)
    (fun i hi => by
      obtain ⟨e, he, rfl⟩ := List.mem_map.mp hi
      refine ⟨Or.inl ⟨e.1, hmem e he⟩, ?_⟩
      rw [(hP.entry e.1 e.2 (hmem e he)).type]
      have := hdepth e.1 e.2 (hmem e he)
      omega)
    fun i _ => Or.inl rfl
  rw [List.foldlM_map] at hH₁ hH₂
  refine ⟨H₂, ?_, fun e he => ?_⟩
  · simp only [processFakeParents, recursiveProcessFakeParentsBottomUp,
      recursiveProcessFakeParentsTopDown, hH₁, Option.bind_eq_bind, Option.bind_some]
    exact hH₂
  · have hentry := hP.entry e.1 e.2 (hmem e he)
    obtain ⟨-, -, hhash, hparents⟩ := hdone.same e.2
    obtain ⟨xs, heq, -⟩ := hset₂ e.2 (List.mem_map_of_mem he)
    refine ⟨?_, ?_, fun hash => ?_⟩
    · rw [heq]
      exact hhash.trans hentry.classHash
    · rw [heq]
      exact hparents.trans hentry.parentHashes
    · have hitems := (hset₂ e.2 (List.mem_map_of_mem he)).mem_items (x := hash)
      exact hitems.trans (hP.gathered_topDown hdone hkeys hT (hmem e he) hash)

/-! The records. -/

/-- The records of a class with these fake parents. -/
def classRecords (s : StructType) (fakeParentHashes : List Nat) : List ClassRecord :=
  ⟨s.ancestors.length + 1, getHashCodeFromStruct s, hashes s.ancestors⟩ ::
    if fakeParentHashes.length > 0 then
      [⟨mergeFlag ||| (fakeParentHashes.length + 1), getHashCodeFromStruct s, fakeParentHashes⟩]
    else []

/-- The pass ends, and emits for each class its ancestors and its fake parents. -/
theorem ModuleTypes.moduleEntries_eq {types : List StructType} (hT : ModuleTypes types)
    {order : List (StructType × Nat)} (horder : order.Perm (processTypes types).classInfoMap) :
    ∃ fakes : StructType × Nat → List Nat,
      moduleEntries types order = some ((order.filter fun e => e.1.isEmitted).map fun e =>
        (e.1, classRecords e.1 (fakes e))) ∧
      ∀ e ∈ order, ∀ hash, hash ∈ fakes e ↔ FakeParent types e.1 hash := by
  obtain ⟨hP, hkeys⟩ := hT.forest
  obtain ⟨heap, hheap, hinfo⟩ := hP.processFakeParents_eq hT hkeys
    (fun s i h => Ty.depth_le_depths (List.mem_map_of_mem ((hkeys s).mp ⟨i, h⟩).1)) horder
  refine ⟨fun e => (heap e.2).fakeParentHashes, ?_, fun e he => (hinfo e he).2.2⟩
  rw [moduleEntries, hheap]
  refine congrArg some (List.map_congr_left fun e he => ?_)
  obtain ⟨hhash, hparents, -⟩ := hinfo e (List.mem_of_mem_filter he)
  rw [ClassInheritanceInfo.records, classRecords, hhash, hparents, hashes, List.length_map]

theorem ModuleTypes.moduleRecords_eq {types : List StructType} (hT : ModuleTypes types)
    {order : List (StructType × Nat)} (horder : order.Perm (processTypes types).classInfoMap) :
    ∃ fakes : StructType × Nat → List Nat,
      moduleRecords types order =
        some ((order.filter fun e => e.1.isEmitted).flatMap fun e => classRecords e.1 (fakes e)) ∧
      ∀ e ∈ order, ∀ hash, hash ∈ fakes e ↔ FakeParent types e.1 hash := by
  obtain ⟨fakes, hentries, hfakes⟩ := hT.moduleEntries_eq horder
  refine ⟨fakes, ?_, hfakes⟩
  rw [moduleRecords_eq_entries, hentries, Option.map_some, List.flatMap_map]

end TypeSan
