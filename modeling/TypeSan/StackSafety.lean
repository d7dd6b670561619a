import TypeSan.StackThreads

/-! Creations and exits of threads do not disturb one another, as long as no entry is overwritten while
the exit of the stack's former owner still has to read it. -/
namespace TypeSan

open PageMap Runs

/-- The thread's stack is mapped. -/
def Stage.HasStack : Stage → Prop
  | .stackMapped | .metadataMapped | .live => True
  | _ => False

/-- The thread's metadata is mapped. -/
def Stage.HasMetadata : Stage → Prop
  | .metadataMapped | .live | .stackUnmapped | .entryRead _ => True
  | _ => False

/-- The unmappings that a thread has made. -/
def StackState.unmappingsOf (s : StackState) (i : Nat) : List Unmapping :=
  s.unmappings.filter (·.thread = i)

/-- A thread's metadata stays mapped until its exit unmaps it, the entries of a live stack refer to
it, and the exit unmaps it, and nothing else, once. -/
structure StackState.ThreadOk (s : StackState) (i : Nat) : Prop where
  mapped : (s.threads i).stage.HasMetadata →
    Owns s.space (s.threads i).metadataPage (s.threads i).metadataPages (.metadata i)
  entries : (s.threads i).stage = .live → ∀ j < (s.threads i).entryCount,
    s.pageTable ((s.threads i).entryPage + j) =
      pageEntry (s.threads i).metadata kMetaStackAlignBits j
  once : s.unmappingsOf i =
    if (s.threads i).stage = .gone then
      [⟨i, List.replicate (s.threads i).metadataPages (some (.metadata i))⟩]
    else []

/-- What a thread may rely on between its steps. -/
structure StackState.ThreadInv (s : StackState) (i : Nat) : Prop extends s.ThreadOk i where
  stack : (s.threads i).stage.HasStack →
    Owns s.space (s.threads i).firstPage (s.threads i).pageCount (.stack i)
  size_range : (s.threads i).stage ≠ .idle →
    (s.threads i).unsafeStackSize ≠ 0 ∧ (s.threads i).unsafeStackSize ≤ 2 ^ 47
  entries_in_stack : (s.threads i).stage.HasStack →
    (s.threads i).firstPage ≤ (s.threads i).entryPage ∧
      (s.threads i).entryPage + (s.threads i).entryCount ≤
        (s.threads i).firstPage + (s.threads i).pageCount
  metadata_addr : (s.threads i).stage.HasMetadata →
    (s.threads i).metadata = (s.threads i).metadataPage * SYSTEM_PAGESIZE ∧
      (s.threads i).metadata ≠ 0 ∧
      (s.threads i).metadata + (s.threads i).metadataPages * SYSTEM_PAGESIZE ≤ 2 ^ 47
  live_pages : (s.threads i).stage = .live → METALLOC_PAGESIZE ∣ (s.threads i).unsafeStackSize
  entry : (s.threads i).stage = .stackUnmapped →
    s.pageTable (s.threads i).entryPage = pageEntry (s.threads i).metadata kMetaStackAlignBits 0
  read : ∀ m, (s.threads i).stage = .entryRead m → m = (s.threads i).metadata

/-- No stack is registered over the first page of one that is unmapped but not yet looked up, and no
metadata is unmapped there, which clears the entry. -/
def StackState.NotOverwriting (s : StackState) : StackEvent → Prop
  | .writeEntries i => ∀ k, (s.threads k).stage = .stackUnmapped →
      ¬ InRange (s.threads i).entryPage (s.threads i).entryCount (s.threads k).entryPage
  | .unmapMetadata i => ∀ k, (s.threads k).stage = .stackUnmapped →
      ¬ InRange (s.threads i).metadataPage (s.threads i).hookedPages (s.threads k).entryPage
  | _ => True

namespace StackState

@[simp] theorem setThread_self (s : StackState) (i : Nat) (t : StackThread) :
    (s.setThread i t).threads i = t := Function.update_self _ _ _

theorem setThread_of_ne {s : StackState} {i k : Nat} (h : k ≠ i) (t : StackThread) :
    (s.setThread i t).threads k = s.threads k := Function.update_of_ne h _ _

@[simp] theorem setThread_space (s : StackState) (i : Nat) (t : StackThread) :
    (s.setThread i t).space = s.space := rfl

@[simp] theorem setThread_pageTable (s : StackState) (i : Nat) (t : StackThread) :
    (s.setThread i t).pageTable = s.pageTable := rfl

@[simp] theorem setThread_unmappings (s : StackState) (i : Nat) (t : StackThread) :
    (s.setThread i t).unmappings = s.unmappings := rfl

@[simp] theorem setThread_unmappingsOf (s : StackState) (i k : Nat) (t : StackThread) :
    (s.setThread i t).unmappingsOf k = s.unmappingsOf k := rfl

variable {s s' : StackState} {i k : Nat}

/-- A thread keeps its invariant when what it relies on stays as it was. -/
theorem ThreadInv.frame (h : s.ThreadInv k) (ht : s'.threads k = s.threads k)
    (hspace : ∀ first count owner, owner = .stack k ∨ owner = .metadata k →
      Owns s.space first count owner → Owns s'.space first count owner)
    (hlive : (s.threads k).stage = .live → ∀ j < (s.threads k).entryCount,
      s'.pageTable ((s.threads k).entryPage + j) = s.pageTable ((s.threads k).entryPage + j))
    (hentry : (s.threads k).stage = .stackUnmapped →
      s'.pageTable (s.threads k).entryPage = s.pageTable (s.threads k).entryPage)
    (hun : s'.unmappingsOf k = s.unmappingsOf k) : s'.ThreadInv k := by
  refine ⟨⟨?_, ?_, ?_⟩, ?_, ?_, ?_, ?_, ?_, ?_, ?_⟩ <;> rw [ht]
  · exact fun hm => hspace _ _ _ (Or.inr rfl) (h.mapped hm)
  · exact fun hl j hj => (hlive hl j hj).trans (h.entries hl j hj)
  · exact hun.trans h.once
  · exact fun hs => hspace _ _ _ (Or.inl rfl) (h.stack hs)
  · exact h.size_range
  · exact h.entries_in_stack
  · exact h.metadata_addr
  · exact h.live_pages
  · exact fun hu => (hentry hu).trans (h.entry hu)
  · exact h.read

/-! Each step, for the thread that makes it. -/

theorem mmap_eq {page bytes : Nat} {owner : Mapping} (h : s.mmap page bytes owner = some s') :
    page ≠ 0 ∧ bytes ≠ 0 ∧
      (page + (bytes + SYSTEM_PAGESIZE - 1) / SYSTEM_PAGESIZE) * SYSTEM_PAGESIZE ≤ 2 ^ 47 ∧
      ∃ space, PageMap.map s.space page ((bytes + SYSTEM_PAGESIZE - 1) / SYSTEM_PAGESIZE) owner =
        some space ∧ s' = { s with space } := by
  simp only [mmap] at h
  split at h
  · cases h
  · rename_i hno
    obtain ⟨space, hspace, rfl⟩ := Option.map_eq_some_iff.mp h
    simp only [not_or, Nat.not_lt] at hno
    exact ⟨hno.1, hno.2.1, hno.2.2, space, hspace, rfl⟩

theorem mapStack_eq {page size guard : Nat} (h : s.mapStack i page size guard = some s') :
    (size ≠ 0 ∧ size ≤ 2 ^ 47) ∧ guard % SYSTEM_PAGESIZE = 0 ∧
      ∃ space, PageMap.map s.space page ((size + guard + SYSTEM_PAGESIZE - 1) / SYSTEM_PAGESIZE)
        (.stack i) = some space ∧
      s' = { s with space }.setThread i
        ⟨.stackMapped, page * SYSTEM_PAGESIZE + guard, size, guard, 0⟩ := by
  simp only [mapStack] at h
  split at h
  · cases h
  · rename_i hno
    simp only [not_or, not_not] at hno
    obtain ⟨s₁, hs₁, rfl⟩ := Option.map_eq_some_iff.mp h
    obtain ⟨_, _, hend, space, hspace, rfl⟩ := mmap_eq hs₁
    refine ⟨⟨hno.1, ?_⟩, hno.2.2, space, hspace, rfl⟩
    simp only [SYSTEM_PAGESIZE] at hend
    omega

theorem mapStack_inv {page size guard : Nat} (hidle : (s.threads i).stage = .idle)
    (hinv : ∀ k, s.ThreadInv k) (h : s.mapStack i page size guard = some s') :
    ∀ k, s'.ThreadInv k := by
  obtain ⟨hsize, hguard, space, hspace, rfl⟩ := mapStack_eq h
  intro k
  by_cases hk : k = i
  · subst hk
    have hfirst : StackThread.firstPage
        ⟨.stackMapped, page * SYSTEM_PAGESIZE + guard, size, guard, 0⟩ = page := by
      simp [StackThread.firstPage, SYSTEM_PAGESIZE]
    refine ⟨⟨?_, ?_, ?_⟩, ?_, ?_, ?_, ?_, ?_, ?_, ?_⟩ <;>
      simp only [setThread_self, setThread_space, Stage.HasStack, Stage.HasMetadata, reduceCtorEq,
        false_imp_iff, forall_const, ne_eq, not_false_eq_true]
    · have := (hinv k).once
      rwa [if_neg (by simp [hidle])] at this
    · rw [hfirst]
      exact owns_map hspace
    · exact hsize
    · rw [hfirst]
      simp only [StackThread.entryPage, StackThread.entryCount, StackThread.pageCount,
        METALLOC_PAGESIZE, METALLOC_PAGESHIFT, SYSTEM_PAGESIZE] at *
      omega
  · exact (hinv k).frame (setThread_of_ne hk _) (fun _ _ _ _ ho => ho.map hspace)
      (fun _ _ _ => rfl) (fun _ => rfl) rfl

theorem metadataBytes_eq (t : StackThread) :
    t.metadataBytes = t.metadataPages * SYSTEM_PAGESIZE := by
  simp only [StackThread.metadataPages, StackThread.metadataBytes, metadataSize]
  rw [Nat.mul_div_cancel _ (by decide)]

theorem mapMetadata_eq {page : Nat} (h : s.mapMetadata i page = some s') :
    page ≠ 0 ∧ (page + (s.threads i).metadataPages) * SYSTEM_PAGESIZE ≤ 2 ^ 47 ∧
      ∃ space, PageMap.map s.space page (s.threads i).metadataPages (.metadata i) = some space ∧
      s' = { s with space }.setThread i
        { s.threads i with stage := .metadataMapped, metadata := page * SYSTEM_PAGESIZE } := by
  obtain ⟨s₁, hs₁, rfl⟩ := Option.map_eq_some_iff.mp h
  obtain ⟨hpage, _, hend, space, hspace, rfl⟩ := mmap_eq hs₁
  have hcount : ((s.threads i).metadataBytes + SYSTEM_PAGESIZE - 1) / SYSTEM_PAGESIZE =
      (s.threads i).metadataPages := by
    rw [metadataBytes_eq]
    simp only [SYSTEM_PAGESIZE]
    omega
  rw [hcount] at hend hspace
  exact ⟨hpage, hend, space, hspace, rfl⟩

theorem mapMetadata_inv {page : Nat} (hstage : (s.threads i).stage = .stackMapped)
    (hinv : ∀ k, s.ThreadInv k) (h : s.mapMetadata i page = some s') : ∀ k, s'.ThreadInv k := by
  obtain ⟨hpage, hend, space, hspace, rfl⟩ := mapMetadata_eq h
  intro k
  by_cases hk : k = i
  · subst hk
    have hold := hinv k
    have hstack : (s.threads k).stage.HasStack := by simp [hstage, Stage.HasStack]
    have hmeta : page * SYSTEM_PAGESIZE / SYSTEM_PAGESIZE = page :=
      Nat.mul_div_cancel _ (by decide)
    refine ⟨⟨?_, ?_, ?_⟩, ?_, ?_, ?_, ?_, ?_, ?_, ?_⟩ <;>
      simp only [setThread_self, setThread_space, Stage.HasStack, Stage.HasMetadata, reduceCtorEq,
        false_imp_iff, forall_const, ne_eq, not_false_eq_true, if_false]
    · change Owns space (page * SYSTEM_PAGESIZE / SYSTEM_PAGESIZE) _ _
      rw [hmeta]
      exact owns_map hspace
    · have := hold.once
      rwa [if_neg (by simp [hstage])] at this
    · exact (hold.stack hstack).map hspace
    · exact hold.size_range (by simp [hstage])
    · exact hold.entries_in_stack hstack
    · simp only [StackThread.metadataPage, hmeta]
      refine ⟨trivial, ?_, ?_⟩
      · simpa [SYSTEM_PAGESIZE] using hpage
      · rwa [Nat.add_mul] at hend
  · exact (hinv k).frame (setThread_of_ne hk _) (fun _ _ _ _ ho => ho.map hspace)
      (fun _ _ _ => rfl) (fun _ => rfl) rfl

theorem writeEntries_eq (h : s.writeEntries i = some s') :
    METALLOC_PAGESIZE ∣ (s.threads i).unsafeStackSize ∧
      s' = { s with
        pageTable := setEntries s.pageTable (s.threads i).entryPage (s.threads i).metadata
          kMetaStackAlignBits (s.threads i).entryCount }.setThread i
            { s.threads i with stage := .live } := by
  obtain ⟨pageTable, hset, rfl⟩ := Option.map_eq_some_iff.mp h
  obtain ⟨hsize, rfl⟩ := setMetapagetableEntries_eq hset
  exact ⟨hsize, rfl⟩

theorem writeEntries_inv (hstage : (s.threads i).stage = .metadataMapped)
    (hinv : ∀ k, s.ThreadInv k) (hok : s.NotOverwriting (.writeEntries i))
    (h : s.writeEntries i = some s') : ∀ k, s'.ThreadInv k := by
  obtain ⟨hsize, rfl⟩ := writeEntries_eq h
  have hold := hinv i
  have hstack : (s.threads i).stage.HasStack := by simp [hstage, Stage.HasStack]
  have hmeta : (s.threads i).stage.HasMetadata := by simp [hstage, Stage.HasMetadata]
  intro k
  by_cases hk : k = i
  · subst hk
    refine ⟨⟨?_, ?_, ?_⟩, ?_, ?_, ?_, ?_, ?_, ?_, ?_⟩ <;>
      simp only [setThread_self, setThread_space, setThread_pageTable, Stage.HasStack,
        Stage.HasMetadata, reduceCtorEq, false_imp_iff, forall_const, ne_eq, not_false_eq_true,
        if_false]
    · exact hold.mapped hmeta
    · intro j hj
      exact setEntries_in hj
    · have := hold.once
      rwa [if_neg (by simp [hstage])] at this
    · exact hold.stack hstack
    · exact hold.size_range (by simp [hstage])
    · exact hold.entries_in_stack hstack
    · exact hold.metadata_addr hmeta
    · exact hsize
  · -- the entries written are those of pages that belong to the writer
    have hne {page : Nat} (hpage : ¬ InRange (s.threads i).entryPage (s.threads i).entryCount page) :
        setEntries s.pageTable (s.threads i).entryPage (s.threads i).metadata kMetaStackAlignBits
          (s.threads i).entryCount page = s.pageTable page := by
      rw [setEntries_apply]
      exact if_neg hpage
    refine (hinv k).frame (setThread_of_ne hk _) (fun _ _ _ _ ho => ho) (fun hlive j hj => ?_)
      (fun hun => hne (hok k hun)) rfl
    have hkstack : (s.threads k).stage.HasStack := by simp [hlive, Stage.HasStack]
    have hki := (hinv k).entries_in_stack hkstack
    have hii := hold.entries_in_stack hstack
    apply hne
    intro hin
    refine ((hinv k).stack hkstack).disjoint (hold.stack hstack) (by simpa using hk)
      (p := (s.threads k).entryPage + j) ?_ ?_ <;>
      simp only [InRange] at * <;> omega

theorem unmapStack_inv (hstage : (s.threads i).stage = .live) (hinv : ∀ k, s.ThreadInv k) :
    ∀ k, (s.unmapStack i).ThreadInv k := by
  have hold := hinv i
  have hstack : (s.threads i).stage.HasStack := by simp [hstage, Stage.HasStack]
  have hmeta : (s.threads i).stage.HasMetadata := by simp [hstage, Stage.HasMetadata]
  intro k
  by_cases hk : k = i
  · subst hk
    refine ⟨⟨?_, ?_, ?_⟩, ?_, ?_, ?_, ?_, ?_, ?_, ?_⟩ <;>
      simp only [unmapStack, setThread_self, setThread_space, setThread_pageTable, Stage.HasStack,
        Stage.HasMetadata, reduceCtorEq, false_imp_iff, forall_const, ne_eq, not_false_eq_true,
        if_false]
    · exact (hold.mapped hmeta).unmap (hold.stack hstack) (by simp)
    · have := hold.once
      rwa [if_neg (by simp [hstage])] at this
    · exact hold.size_range (by simp [hstage])
    · exact hold.metadata_addr hmeta
    · have hpos : 0 < (s.threads k).entryCount := by
        obtain ⟨c, hc⟩ := hold.live_pages hstage
        have hne := (hold.size_range (by simp [hstage])).1
        rw [StackThread.entryCount, hc, Nat.mul_div_cancel_left _ (by decide)]
        exact Nat.pos_of_ne_zero fun h0 => hne (by rw [hc, h0, Nat.mul_zero])
      exact hold.entries hstage 0 hpos
  · refine (hinv k).frame (setThread_of_ne hk _) (fun first count owner hown ho => ?_)
      (fun _ _ _ => rfl) (fun _ => rfl) rfl
    refine ho.unmap (hold.stack hstack) ?_
    rcases hown with rfl | rfl <;> simp [hk]

theorem readEntry_inv (hstage : (s.threads i).stage = .stackUnmapped)
    (hinv : ∀ k, s.ThreadInv k) : ∀ k, (s.readEntry i).ThreadInv k := by
  have hold := hinv i
  have hmeta : (s.threads i).stage.HasMetadata := by simp [hstage, Stage.HasMetadata]
  obtain ⟨haddr, hne, hend⟩ := hold.metadata_addr hmeta
  have hread : s.pageTable (s.threads i).entryPage >>> 8 = (s.threads i).metadata := by
    rw [hold.entry hstage, pageEntry_shiftRight (by decide) hne (by simp; omega)]
    simp
  intro k
  by_cases hk : k = i
  · subst hk
    refine ⟨⟨?_, ?_, ?_⟩, ?_, ?_, ?_, ?_, ?_, ?_, ?_⟩ <;>
      simp only [readEntry, setThread_self, setThread_space, setThread_pageTable, Stage.HasStack,
        Stage.HasMetadata, reduceCtorEq, false_imp_iff, forall_const, ne_eq, not_false_eq_true,
        if_false]
    · exact hold.mapped hmeta
    · have := hold.once
      rwa [if_neg (by simp [hstage])] at this
    · exact hold.size_range (by simp [hstage])
    · exact ⟨haddr, hne, hend⟩
    · intro m hm
      rw [← Stage.entryRead.inj hm, hread]
  · exact (hinv k).frame (setThread_of_ne hk _) (fun _ _ _ _ ho => ho) (fun _ _ _ => rfl)
      (fun _ => rfl) rfl

theorem hookedPages_le (t : StackThread) : t.hookedPages ≤ t.metadataPages := by
  simp only [StackThread.hookedPages, StackThread.metadataPages, roundedLength, METALLOC_PAGESIZE,
    METALLOC_PAGESHIFT, SYSTEM_PAGESIZE]
  have hbytes := metadataBytes_eq t
  rw [SYSTEM_PAGESIZE] at hbytes
  omega

theorem unmapMetadata_eq {m : Nat} (h : s.unmapMetadata i m = some s') :
    ∃ pageTable : PageTable, (∀ page, pageTable page =
        if InRange (m / METALLOC_PAGESIZE) (s.threads i).hookedPages page then 0
        else s.pageTable page) ∧
      s' =
        let page := m / SYSTEM_PAGESIZE
        let count := if m % SYSTEM_PAGESIZE = 0 then (s.threads i).metadataPages else 0
        { s with
          space := PageMap.unmap s.space page count
          pageTable
          unmappings := ⟨i, (List.range count).map fun j => s.space (page + j)⟩ :: s.unmappings
        }.setThread i { s.threads i with stage := .gone } := by
  obtain ⟨mirror, hmirror, rfl⟩ := Option.map_eq_some_iff.mp h
  obtain ⟨mirror', hmirror', -, htable⟩ :=
    (MirrorState.initial s.pageTable).munmapHook_eq m (s.threads i).metadataBytes
  cases hmirror.symm.trans hmirror'
  exact ⟨mirror.pageTable, htable, rfl⟩

/-- The hook of `munmap` never ends the process. -/
theorem exists_step_unmapMetadata {m : Nat} (h : (s.threads i).stage = .entryRead m) :
    ∃ s', s.step (.unmapMetadata i) = some s' ∧ (s'.threads i).stage = .gone := by
  obtain ⟨mirror, hmirror, -⟩ :=
    (MirrorState.initial s.pageTable).munmapHook_eq m (s.threads i).metadataBytes
  have hstep : s.step (.unmapMetadata i) = s.unmapMetadata i m := by simp only [step, h]
  rw [hstep, unmapMetadata, hmirror]
  exact ⟨_, rfl, by simp⟩

theorem step_unmapMetadata (h : s.step (.unmapMetadata i) = some s') :
    ∃ m, (s.threads i).stage = .entryRead m ∧ s.unmapMetadata i m = some s' := by
  simp only [step] at h
  split at h
  · exact ⟨_, ‹_›, h⟩
  · cases h

theorem unmapMetadata_inv {m : Nat} (hstage : (s.threads i).stage = .entryRead m)
    (hinv : ∀ k, s.ThreadInv k) (hok : s.NotOverwriting (.unmapMetadata i))
    (h : s.unmapMetadata i m = some s') : ∀ k, s'.ThreadInv k := by
  obtain ⟨pageTable, htable, rfl⟩ := unmapMetadata_eq h
  have hold := hinv i
  have hmeta : (s.threads i).stage.HasMetadata := by simp [hstage, Stage.HasMetadata]
  obtain ⟨haddr, hne, hend⟩ := hold.metadata_addr hmeta
  obtain rfl := hold.read m hstage
  have hown := hold.mapped hmeta
  have haligned : (s.threads i).metadata % SYSTEM_PAGESIZE = 0 := by
    rw [haddr]
    exact Nat.mul_mod_left _ _
  have hpages : (List.range (s.threads i).metadataPages).map
      (fun j => s.space ((s.threads i).metadata / SYSTEM_PAGESIZE + j)) =
        List.replicate (s.threads i).metadataPages (some (.metadata i)) := by
    refine List.eq_replicate_iff.mpr ⟨by simp, ?_⟩
    intro x hx
    obtain ⟨j, hj, rfl⟩ := List.mem_map.mp hx
    have hj' := List.mem_range.mp hj
    exact hown _ ⟨Nat.le_add_right _ _, by simpa [StackThread.metadataPage] using hj'⟩
  intro k
  by_cases hk : k = i
  · subst hk
    have hun := hold.once
    rw [if_neg (by simp [hstage])] at hun
    refine ⟨⟨?_, ?_, ?_⟩, ?_, ?_, ?_, ?_, ?_, ?_, ?_⟩ <;>
      simp only [setThread_self, setThread_space, setThread_pageTable,
        setThread_unmappingsOf, Stage.HasStack, Stage.HasMetadata, reduceCtorEq, false_imp_iff,
        forall_const, ne_eq, not_false_eq_true, if_true, haligned, hpages]
    · simp only [unmappingsOf] at hun
      simp only [unmappingsOf, List.filter_cons, decide_true, if_true, hun]
      rfl
    · exact hold.size_range (by simp [hstage])
  · -- the entries cleared are those of metadata pages that belong to the thread
    have hne {page : Nat} (hpage : ¬ InRange (s.threads i).metadataPage (s.threads i).hookedPages
        page) : pageTable page = s.pageTable page := (htable page).trans (if_neg hpage)
    refine (hinv k).frame (setThread_of_ne hk _) (fun first count owner hk' ho => ?_)
      (fun hlive j hj => ?_) (fun hun => hne (hok k hun)) ?_
    · simp only [setThread_space, haligned, if_true]
      refine ho.unmap hown ?_
      rcases hk' with rfl | rfl <;> simp [hk]
    · have hkstack : (s.threads k).stage.HasStack := by simp [hlive, Stage.HasStack]
      have hki := (hinv k).entries_in_stack hkstack
      have hle := hookedPages_le (s.threads i)
      apply hne
      intro hin
      refine ((hinv k).stack hkstack).disjoint hown (by simp)
        (p := (s.threads k).entryPage + j) ?_ ?_ <;>
        simp only [InRange] at * <;> omega
    · simp [unmappingsOf, Ne.symm hk]

/-- Every step keeps the invariant of every thread, if it overwrites no entry still to be read. -/
theorem step_inv {e : StackEvent} (hinv : ∀ k, s.ThreadInv k) (hok : s.NotOverwriting e)
    (h : s.step e = some s') : ∀ k, s'.ThreadInv k := by
  cases e with
  | mapStack i page size guard =>
    obtain ⟨hstage, h⟩ := Option.ite_none_right_eq_some.mp h
    exact mapStack_inv hstage hinv h
  | mapMetadata i page =>
    obtain ⟨hstage, h⟩ := Option.ite_none_right_eq_some.mp h
    exact mapMetadata_inv hstage hinv h
  | writeEntries i =>
    obtain ⟨hstage, h⟩ := Option.ite_none_right_eq_some.mp h
    exact writeEntries_inv hstage hinv hok h
  | unmapStack i =>
    obtain ⟨hstage, h⟩ := Option.ite_none_right_eq_some.mp h
    cases h
    exact unmapStack_inv hstage hinv
  | readEntry i =>
    obtain ⟨hstage, h⟩ := Option.ite_none_right_eq_some.mp h
    cases h
    exact readEntry_inv hstage hinv
  | unmapMetadata i =>
    obtain ⟨m, hstage, h⟩ := step_unmapMetadata h
    exact unmapMetadata_inv hstage hinv hok h

/-- A step of a thread changes no other thread. -/
theorem step_threads_of_ne {e : StackEvent} (h : s.step e = some s') (hk : k ≠ e.thread) :
    s'.threads k = s.threads k := by
  cases e with
  | mapStack i page size guard =>
    obtain ⟨_, _, _, _, rfl⟩ := mapStack_eq (Option.ite_none_right_eq_some.mp h).2
    exact setThread_of_ne hk _
  | mapMetadata i page =>
    obtain ⟨_, _, _, _, rfl⟩ := mapMetadata_eq (Option.ite_none_right_eq_some.mp h).2
    exact setThread_of_ne hk _
  | writeEntries i =>
    obtain ⟨_, rfl⟩ := writeEntries_eq (Option.ite_none_right_eq_some.mp h).2
    exact setThread_of_ne hk _
  | unmapStack i =>
    cases (Option.ite_none_right_eq_some.mp h).2
    exact setThread_of_ne hk _
  | readEntry i =>
    cases (Option.ite_none_right_eq_some.mp h).2
    exact setThread_of_ne hk _
  | unmapMetadata i =>
    obtain ⟨m, -, h⟩ := step_unmapMetadata h
    obtain ⟨pageTable, -, rfl⟩ := unmapMetadata_eq h
    exact setThread_of_ne hk _

theorem start_eq {page : Nat} (h : start page = some s) :
    page ≠ 0 ∧ (page + 512) * SYSTEM_PAGESIZE ≤ 2 ^ 47 ∧
      (∀ k, s.threads k = ⟨.idle, 0, 0, 0, 0⟩) ∧ s.unmappings = [] ∧
      (Owns s.space page 512 .safeStackMetadata) ∧
      s.pageTable = setEntries (fun _ => 0) 0x7FFFFFF00 (page * SYSTEM_PAGESIZE) 3 256 := by
  obtain ⟨s₁, hs₁, h⟩ := Option.bind_eq_some_iff.mp h
  obtain ⟨pageTable, hset, h⟩ := Option.bind_eq_some_iff.mp h
  obtain ⟨hpage, _, hend, space, hspace, rfl⟩ := mmap_eq hs₁
  obtain ⟨_, rfl⟩ := setMetapagetableEntries_eq hset
  cases h
  exact ⟨hpage, hend, fun _ => rfl, rfl, owns_map hspace, rfl⟩

theorem start_inv {page : Nat} (h : start page = some s) : ∀ k, s.ThreadInv k := by
  obtain ⟨_, _, hidle, hun, _⟩ := start_eq h
  intro k
  refine ⟨⟨?_, ?_, ?_⟩, ?_, ?_, ?_, ?_, ?_, ?_, ?_⟩ <;>
    simp [hidle k, hun, unmappingsOf, Stage.HasStack, Stage.HasMetadata]

/-- In every run in which no stack is registered, and no metadata unmapped, over the first page of a
stack whose exit has yet to look it up, every thread is well at all times. -/
theorem threadOk_of_notOverwriting {page : Nat} {s₀ : StackState} {es : List StackEvent}
    (h₀ : start page = some s₀) (hok : Guarded step NotOverwriting s₀ es)
    (h : Visits step s₀ es s) : ∀ k, s.ThreadOk k := fun k =>
  (visits_invariant (start_inv h₀) (fun _ _ _ hinv hok hs => step_inv hinv hok hs) hok h
    k).toThreadOk

theorem threadOk_of_one_thread :
    ∃ s₀ s, start 16 = some s₀ ∧ exec step s₀
      [.mapStack 0 1000 8192 4096, .mapMetadata 0 2000, .writeEntries 0, .unmapStack 0,
        .readEntry 0, .unmapMetadata 0] = some s ∧ ∀ k, s.ThreadOk k := by
  have hrun : ((start 16).bind fun s₀ => exec step s₀
      [.mapStack 0 1000 8192 4096, .mapMetadata 0 2000, .writeEntries 0, .unmapStack 0,
        .readEntry 0, .unmapMetadata 0]).isSome := by decide +kernel
  obtain ⟨s, hs⟩ := Option.isSome_iff_exists.mp hrun
  obtain ⟨s₀, hs₀, hs⟩ := Option.bind_eq_some_iff.mp hs
  refine ⟨s₀, s, hs₀, hs, threadOk_of_notOverwriting hs₀ ?_ (visits_last hs)⟩
  refine guarded_cons trivial fun s₁ hs₁ => guarded_cons trivial fun s₂ hs₂ =>
    guarded_cons (fun k hk => ?_) fun s₃ hs₃ => guarded_cons trivial fun s₄ hs₄ =>
      guarded_cons trivial fun s₅ hs₅ => guarded_cons (fun k hk => ?_) fun _ _ => guarded_nil
  -- no other thread has a stack at all
  · by_cases h0 : k = 0
    · obtain ⟨_, _, _, _, rfl⟩ := mapMetadata_eq (Option.ite_none_right_eq_some.mp hs₂).2
      simp [h0] at hk
    · rw [step_threads_of_ne hs₂ h0, step_threads_of_ne hs₁ h0, (start_eq hs₀).2.2.1 k] at hk
      cases hk
  · by_cases h0 : k = 0
    · cases (Option.ite_none_right_eq_some.mp hs₅).2
      simp [h0, readEntry] at hk
    · rw [step_threads_of_ne hs₅ h0, step_threads_of_ne hs₄ h0, step_threads_of_ne hs₃ h0,
        step_threads_of_ne hs₂ h0, step_threads_of_ne hs₁ h0, (start_eq hs₀).2.2.1 k] at hk
      cases hk

/-- Another thread takes the range over between an exit's two unmappings: the exit unmaps the
metadata of the new, live stack. -/
theorem threadOk_fails_of_overwriting :
    ¬ ∀ page s₀ es s, start page = some s₀ → Visits step s₀ es s → ∀ k, s.ThreadOk k := by
  intro hall
  have hrun : ((start 16).bind fun s₀ => exec step s₀
      [.mapStack 0 1000 4096 0, .mapMetadata 0 2000, .writeEntries 0, .unmapStack 0,
        .mapStack 1 1000 4096 0, .mapMetadata 1 3000, .writeEntries 1, .readEntry 0,
        .unmapMetadata 0]).map (fun s => (s.threads 1, s.space 3000)) =
      some (⟨.live, 1000 * 4096, 4096, 0, 3000 * 4096⟩, none) := by decide +kernel
  obtain ⟨s, hs, hend⟩ := Option.map_eq_some_iff.mp hrun
  obtain ⟨s₀, hs₀, hs⟩ := Option.bind_eq_some_iff.mp hs
  obtain ⟨hthread, hspace⟩ := Prod.mk.inj hend
  have hok := (hall 16 s₀ _ s hs₀ (visits_last hs) 1).mapped
  rw [hthread] at hok
  have := hok trivial 3000 (by decide)
  rw [hspace] at this
  cases this

end StackState

end TypeSan
