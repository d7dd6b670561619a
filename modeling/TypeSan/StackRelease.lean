import TypeSan.StackSafety

/-! Allocations and frees of tracked stacks one after another: the page table keeps what it was told
until the next allocation. -/
namespace TypeSan

open PageMap Runs

/-- A call of `unsafe_stack_alloc` or `unsafe_stack_free`, with the pages the kernel chooses. -/
inductive StackRequest where
  | alloc (thread page size guard metadataPage : Nat)
  | free (thread : Nat)
  deriving DecidableEq

def StackRequest.IsFree : StackRequest → Prop
  | .free _ => True
  | _ => False

/-- The steps of a call, with no other thread in between. -/
def StackRequest.events : StackRequest → List StackEvent
  | .alloc i page size guard metadataPage =>
    [.mapStack i page size guard, .mapMetadata i metadataPage, .writeEntries i]
  | .free i => [.unmapStack i, .readEntry i, .unmapMetadata i]

namespace StackState

def serve (s : StackState) (r : StackRequest) : Option StackState := exec step s r.events

/-- Every entry in use points into a metadata block that is mapped. -/
def NoDangling (s : StackState) : Prop :=
  ∀ page, s.pageTable page ≠ 0 →
    ∃ owner, s.space ((s.pageTable page >>> 8) / SYSTEM_PAGESIZE) = some owner ∧
      ∀ i, owner ≠ .stack i

/-- What holds between calls: every thread has its stack or has none. -/
structure Settled (s : StackState) : Prop where
  inv : ∀ k, s.ThreadInv k
  stage : ∀ k, (s.threads k).stage = .idle ∨ (s.threads k).stage = .live
  noDangling : s.NoDangling

variable {s s' : StackState} {i k : Nat}

/-- A mapped page of metadata survives a new mapping. -/
theorem NoDangling.map {space : Pages Mapping} {first count : Nat} {owner : Mapping}
    (h : s.NoDangling) (hmap : PageMap.map s.space first count owner = some space) :
    NoDangling { s with space } := by
  intro page hpage
  obtain ⟨o, ho, hstack⟩ := h page hpage
  have hown : Owns s.space (s.pageTable page >>> 8 / SYSTEM_PAGESIZE) 1 o := by
    rintro p ⟨hlo, hhi⟩
    rwa [show p = s.pageTable page >>> 8 / SYSTEM_PAGESIZE by omega]
  exact ⟨o, hown.map hmap _ ⟨le_rfl, Nat.lt_succ_self _⟩, hstack⟩

/-- The metadata of a thread covers every entry of its stack. -/
theorem entry_in_metadata {t : StackThread} (hsize : t.unsafeStackSize < 2 ^ 48) {j : Nat}
    (hj : j < t.entryCount) :
    (j * METALLOC_PAGESIZE) >>> kMetaStackAlignBits * 16 <
      t.metadataPages * SYSTEM_PAGESIZE := by
  rw [← metadataBytes_eq]
  simp only [StackThread.entryCount, StackThread.metadataBytes, metadataSize, METALLOC_PAGESIZE,
    METALLOC_PAGESHIFT, kMetaStackAlignBits, SYSTEM_PAGESIZE, FLAGS_METALLOC_METADATABYTES,
    Nat.shiftRight_eq_div_pow] at *
  omega

/-- An entry of a stack leads to a page of the thread's metadata. -/
theorem ThreadInv.entry_page (h : s.ThreadInv i) (hmeta : (s.threads i).stage.HasMetadata) {j : Nat}
    (hj : j < (s.threads i).entryCount) :
    InRange (s.threads i).metadataPage (s.threads i).metadataPages
      (pageEntry (s.threads i).metadata kMetaStackAlignBits j >>> 8 / SYSTEM_PAGESIZE) := by
  obtain ⟨haddr, hne, hend⟩ := h.metadata_addr hmeta
  have hsize := h.size_range (by rintro hidle; simp [hidle, Stage.HasMetadata] at hmeta)
  have hlt := entry_in_metadata (by omega) hj
  rw [pageEntry_shiftRight (by decide) hne (by omega)]
  simp only [InRange, SYSTEM_PAGESIZE] at *
  omega

/-- A stack with metadata has a first page. -/
theorem ThreadInv.entryCount_pos (h : s.ThreadInv i) (hlive : (s.threads i).stage = .live) :
    0 < (s.threads i).entryCount := by
  obtain ⟨c, hc⟩ := h.live_pages hlive
  have hne := (h.size_range (by simp [hlive])).1
  rw [StackThread.entryCount, hc, Nat.mul_div_cancel_left _ (by decide)]
  exact Nat.pos_of_ne_zero fun h0 => hne (by rw [hc, h0, Nat.mul_zero])

/-- Mapping steps keep every entry that is in use. -/
theorem NoDangling.step_mapStack {page size guard : Nat} (h : s.NoDangling)
    (hs : s.step (.mapStack i page size guard) = some s') : s'.NoDangling := by
  obtain ⟨_, _, space, hmap, rfl⟩ := mapStack_eq (Option.ite_none_right_eq_some.mp hs).2
  exact h.map hmap

theorem NoDangling.step_mapMetadata {page : Nat} (h : s.NoDangling)
    (hs : s.step (.mapMetadata i page) = some s') :
    s'.NoDangling ∧ (s'.threads i).stage = .metadataMapped := by
  obtain ⟨_, _, space, hmap, rfl⟩ := mapMetadata_eq (Option.ite_none_right_eq_some.mp hs).2
  exact ⟨h.map hmap, by simp⟩

/-- The entries written lead to the writer's metadata. -/
theorem NoDangling.step_writeEntries (h : s.NoDangling) (hinv : s.ThreadInv i)
    (hs : s.step (.writeEntries i) = some s') :
    s'.NoDangling ∧ (s'.threads i).stage = .live := by
  obtain ⟨hstage, hs⟩ := Option.ite_none_right_eq_some.mp hs
  have hmeta : (s.threads i).stage.HasMetadata := by simp [hstage, Stage.HasMetadata]
  obtain ⟨_, rfl⟩ := writeEntries_eq hs
  refine ⟨fun page hpage => ?_, by simp⟩
  simp only [setThread_pageTable, setThread_space, setEntries_apply] at hpage ⊢
  split
  · exact ⟨_, hinv.mapped hmeta _ (hinv.entry_page hmeta (by omega)), by simp⟩
  · rename_i hout
    rw [if_neg hout] at hpage
    exact h page hpage

/-- With all other threads settled, an allocation overwrites no entry that is still to be read. -/
theorem serve_alloc {page size guard metadataPage : Nat} (h : s.Settled)
    (hs : s.serve (.alloc i page size guard metadataPage) = some s') : s'.Settled := by
  simp only [serve, StackRequest.events, exec_cons, exec_nil, Option.bind_eq_some_iff] at hs
  obtain ⟨s₁, h₁, s₂, h₂, s₃, h₃, hlast⟩ := hs
  cases hlast
  have hinv₁ := step_inv h.inv (by trivial) h₁
  have hinv₂ := step_inv hinv₁ (by trivial) h₂
  obtain ⟨hdangling₂, hstage₂⟩ := (h.noDangling.step_mapStack h₁).step_mapMetadata h₂
  obtain ⟨hdangling₃, hstage₃⟩ := hdangling₂.step_writeEntries (hinv₂ i) h₃
  have hothers (k : Nat) (hk : k ≠ i) : s₂.threads k = s.threads k :=
    (step_threads_of_ne h₂ hk).trans (step_threads_of_ne h₁ hk)
  have hok : NotOverwriting s₂ (.writeEntries i) := by
    intro k hun
    by_cases hk : k = i
    · simp [hk, hstage₂] at hun
    · rw [hothers k hk] at hun
      rcases h.stage k with hs | hs <;> simp [hs] at hun
  refine ⟨step_inv hinv₂ hok h₃, fun k => ?_, hdangling₃⟩
  by_cases hk : k = i
  · exact Or.inr (by rw [hk, hstage₃])
  · rw [step_threads_of_ne h₃ hk, hothers k hk]
    exact h.stage k

theorem start_settled {page : Nat} (h : start page = some s) : s.Settled := by
  obtain ⟨hpage, hend, hidle, _, hown, htable⟩ := start_eq h
  refine ⟨start_inv h, fun k => Or.inl (by rw [hidle k]), ?_⟩
  intro p hp
  rw [htable, setEntries_apply] at hp ⊢
  split
  · rename_i hin
    refine ⟨_, hown _ ?_, by simp⟩
    rw [pageEntry_shiftRight (by decide)] <;>
    simp only [InRange, SYSTEM_PAGESIZE, METALLOC_PAGESIZE, METALLOC_PAGESHIFT,
      Nat.shiftRight_eq_div_pow] at * <;>
    omega
  · rename_i hout
    simp [if_neg hout] at hp

/-- What a free does: of the page table, the hook of `munmap` clears the entries of the pages that it
unmaps as metadata. -/
theorem serve_free_eq (hs : s.serve (.free i) = some s') :
    let m := s.pageTable (s.threads i).entryPage >>> 8
    (s.threads i).stage = .live ∧
      (∀ page, s'.pageTable page =
        if InRange (m / METALLOC_PAGESIZE) (s.threads i).hookedPages page then 0
        else s.pageTable page) ∧
      s'.space =
        PageMap.unmap (PageMap.unmap s.space (s.threads i).firstPage (s.threads i).pageCount)
          (m / SYSTEM_PAGESIZE)
          (if m % SYSTEM_PAGESIZE = 0 then (s.threads i).metadataPages else 0) := by
  simp only [serve, StackRequest.events, exec_cons, exec_nil, Option.bind_eq_some_iff] at hs
  obtain ⟨s₁, h₁, s₂, h₂, s₃, h₃, hlast⟩ := hs
  cases hlast
  obtain ⟨hlive, h₁⟩ := Option.ite_none_right_eq_some.mp h₁
  cases h₁
  obtain ⟨_, h₂⟩ := Option.ite_none_right_eq_some.mp h₂
  cases h₂
  obtain ⟨m, hstage, h₃⟩ := step_unmapMetadata h₃
  obtain ⟨pageTable, htable, rfl⟩ := unmapMetadata_eq h₃
  simp only [readEntry, unmapStack, setThread_self, setThread_pageTable,
    Stage.entryRead.injEq] at hstage htable
  subst hstage
  refine ⟨hlive, htable, ?_⟩
  simp only [readEntry, unmapStack, setThread_self, setThread_space, setThread_pageTable]
  rfl

/-- A thread with a stack can free it, and then has none. -/
theorem exists_serve_free (hlive : (s.threads i).stage = .live) :
    ∃ s', s.serve (.free i) = some s' ∧ (s'.threads i).stage = .gone := by
  have h₁ : s.step (.unmapStack i) = some (s.unmapStack i) := if_pos hlive
  have h₂ : (s.unmapStack i).step (.readEntry i) = some ((s.unmapStack i).readEntry i) :=
    if_pos (by simp [unmapStack])
  have hread : (((s.unmapStack i).readEntry i).threads i).stage = .entryRead
      ((s.unmapStack i).pageTable ((s.unmapStack i).threads i).entryPage >>> 8) := by
    simp [readEntry]
  obtain ⟨s', h₃, hgone⟩ := exists_step_unmapMetadata hread
  exact ⟨s', by simp only [serve, StackRequest.events, exec_cons, exec_nil, h₁, h₂, h₃,
    Option.bind_some], hgone⟩

/-- A free leaves the entries of the stack behind, and unmaps what they refer to. -/
theorem serve_free (h : s.Settled) (hs : s.serve (.free i) = some s') : ¬ s'.NoDangling := by
  obtain ⟨hlive, htable, hspace⟩ := serve_free_eq hs
  have hinv := h.inv i
  have hmeta : (s.threads i).stage.HasMetadata := by simp [hlive, Stage.HasMetadata]
  obtain ⟨haddr, hne, hend⟩ := hinv.metadata_addr hmeta
  have hfirst := hinv.entry_page hmeta (hinv.entryCount_pos hlive)
  have hentry := hinv.entries hlive 0 (hinv.entryCount_pos hlive)
  have hbase : pageEntry (s.threads i).metadata kMetaStackAlignBits 0 >>> 8 =
      (s.threads i).metadata := by
    rw [pageEntry_shiftRight (by decide) hne (by simp; omega)]
    simp
  rw [Nat.add_zero] at hentry
  rw [hbase] at hfirst
  have hstack : (s.threads i).stage.HasStack := by simp [hlive, Stage.HasStack]
  have hkept : s'.pageTable (s.threads i).entryPage = s.pageTable (s.threads i).entryPage := by
    rw [htable, if_neg]
    rw [hentry, hbase]
    -- the stack and its metadata are on different pages
    intro hin
    have hpos := hinv.entryCount_pos hlive
    have hpages := hinv.entries_in_stack hstack
    have hle := hookedPages_le (s.threads i)
    refine (hinv.stack hstack).disjoint (hinv.mapped hmeta) (by simp)
      (p := (s.threads i).entryPage) ⟨by omega, by omega⟩ ⟨hin.1, ?_⟩
    exact Nat.lt_of_lt_of_le hin.2 (Nat.add_le_add_left hle _)
  intro hdangling
  obtain ⟨owner, howner, _⟩ := hdangling (s.threads i).entryPage (by
    rw [hkept, hentry]
    intro h0
    simp [h0] at hbase
    exact hne hbase.symm)
  have haligned : (s.threads i).metadata % SYSTEM_PAGESIZE = 0 := by
    rw [haddr]
    exact Nat.mul_mod_left _ _
  rw [hkept, hspace] at howner
  simp only [hentry, hbase, haligned, if_true] at howner
  have hnone := unmap_of_inRange (m := PageMap.unmap s.space (s.threads i).firstPage
    (s.threads i).pageCount) hfirst
  exact Option.some_ne_none _ (howner.symm.trans hnone)

/-- The page table is free of dangling entries throughout a run exactly when the run frees no
stack. -/
theorem noDangling_iff_no_free {page : Nat} {s₀ : StackState} {rs : List StackRequest}
    (h₀ : start page = some s₀) (h : exec serve s₀ rs = some s) :
    (∀ t, Visits serve s₀ rs t → t.NoDangling) ↔ ∀ r ∈ rs, ¬ r.IsFree := by
  have hstep (t : StackState) (r : StackRequest) (u : StackState) (ht : t.Settled)
      (hr : ¬ r.IsFree) (hu : t.serve r = some u) : u.Settled := by
    cases r with
    | alloc => exact serve_alloc ht hu
    | free => exact (hr trivial).elim
  constructor
  · intro hall r hr hfree
    have hmiss : ¬ Guarded serve (fun _ r => ¬ r.IsFree) s₀ rs := by
      intro hok
      obtain ⟨front, rest, rfl⟩ := List.append_of_mem hr
      obtain ⟨t, ht, _⟩ := Option.bind_eq_some_iff.mp (exec_append.symm.trans h)
      exact hok front r t ⟨rest, by simp⟩ ht hfree
    obtain ⟨front, l, t, hfront, ht, hl, hok⟩ := exists_first_miss hmiss
    have hsettled := exec_invariant (start_settled h₀) hstep hok ht
    obtain ⟨rest, rfl⟩ := hfront
    rw [exec_append] at h
    obtain ⟨u, hu, _⟩ := Option.bind_eq_some_iff.mp h
    have hlu := (exec_snoc ht).symm.trans hu
    cases l with
    | alloc => exact hl (fun hf => hf)
    | free i => exact serve_free hsettled hlu (hall u ⟨_, List.prefix_append _ _, hu⟩)
  · intro hno t ht
    have hok : Guarded serve (fun _ r => ¬ r.IsFree) s₀ rs := by
      rintro front r t ⟨rest, rfl⟩ _
      exact hno r (by simp)
    exact (visits_invariant (start_settled h₀) hstep hok ht).noDangling

theorem noDangling_of_two_allocs :
    ∃ s₀ s, start 16 = some s₀ ∧
      exec serve s₀ [.alloc 0 1000 8192 4096 2000, .alloc 1 3000 4096 0 4000] = some s ∧
      ∀ t, Visits serve s₀ [.alloc 0 1000 8192 4096 2000, .alloc 1 3000 4096 0 4000] t →
        t.NoDangling := by
  have hrun : ((start 16).bind fun s₀ => exec serve s₀
      [.alloc 0 1000 8192 4096 2000, .alloc 1 3000 4096 0 4000]).isSome := by decide +kernel
  obtain ⟨s, hs⟩ := Option.isSome_iff_exists.mp hrun
  obtain ⟨s₀, hs₀, hs⟩ := Option.bind_eq_some_iff.mp hs
  exact ⟨s₀, s, hs₀, hs,
    (noDangling_iff_no_free hs₀ hs).mpr (by simp [StackRequest.IsFree])⟩

/-- A thread that starts and exits leaves an entry that refers to unmapped memory. -/
theorem noDangling_fails_after_free :
    ¬ ∀ page s₀ rs s, start page = some s₀ → exec serve s₀ rs = some s → s.NoDangling := by
  intro hall
  have hrun : ((start 16).bind fun s₀ => exec serve s₀
      [.alloc 0 1000 4096 0 2000, .free 0]).map (fun s => (s.pageTable 1000, s.space 2000)) =
      some (2000 * 4096 * 256 + 6, none) := by decide +kernel
  obtain ⟨s, hs, hend⟩ := Option.map_eq_some_iff.mp hrun
  obtain ⟨s₀, hs₀, hs⟩ := Option.bind_eq_some_iff.mp hs
  obtain ⟨hentry, hspace⟩ := Prod.mk.inj hend
  obtain ⟨owner, howner, _⟩ := hall 16 s₀ _ s hs₀ hs 1000 (by rw [hentry]; decide)
  rw [hentry] at howner
  exact Option.some_ne_none owner (howner.symm.trans hspace)

end StackState

end TypeSan
