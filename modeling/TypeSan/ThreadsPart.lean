import TypeSan.ProcessMemory
import TypeSan.StackTypes

/-! The threads with their tracked stacks as a part of a process. -/
namespace TypeSan

open PageMap Rounding Runs SharedStore WordMemory

namespace RunningThreads

/-- The threads, with the memory of the process. -/
def onMemory (s : RunningThreads) (m : ProcessMemory) : RunningThreads :=
  { s with threads := { s.threads with pageTable := m.pageTable }, mem := m.mem }

def memory (s : RunningThreads) : ProcessMemory := ⟨s.threads.pageTable, s.mem⟩

/-- What is on pages of stacks and of their metadata, and the entry that an exit has yet to look up
when its stack is unmapped. -/
def owned (s : RunningThreads) : Set Cell :=
  {c | (s.threads.space c.page).isSome ∨
    ∃ k, (s.threads.threads k).stage = .stackUnmapped ∧ c = .entry (s.threads.threads k).entryPage}

/-- The event is one of the threads. They store to their stacks, and register no other pages. -/
def OnStacks (s : RunningThreads) : ThreadEvent → Prop
  | .store address _ => ∃ k, s.threads.space (address / SYSTEM_PAGESIZE) = some (.stack k)
  | .register .. => False
  | _ => True

end RunningThreads

open RunningThreads in
def threadsPart : Part ProcessMemory Cell where
  State := RunningThreads
  Event := (String → Nat) × ThreadEvent
  step s m e := (step e.1 (s.onMemory m) e.2).map fun s' => (s', s'.memory)
  Orderly s m e := Orderly (s.onMemory m) e.2 ∧ OnStacks s e.2
  Inv s m := Sound (s.onMemory m)
  owns s := s.owned

namespace RunningThreads

variable {addrOf : String → Nat} {s s' : RunningThreads} {m m' : ProcessMemory} {i : Nat}
  {o : StackObject} {e : ThreadEvent}

/-- The threads depend on the entries of their stacks, and on those that exits have yet to look
up. -/
theorem Sound.agree (h : (s.onMemory m).Sound) (hagree : Agree Cell.read s.owned m m') :
    (s.onMemory m').Sound := by
  refine ⟨fun k => ?_, fun k => (h.stack k).congr rfl rfl⟩
  have hinv := h.thread k
  refine hinv.frame rfl (fun _ _ _ _ ho => ho) (fun hlive j hj => ?_) (fun hun => ?_) rfl
  · refine agree_entry hagree (Or.inl ?_)
    have hhas : ((s.onMemory m).threads.threads k).stage.HasStack := by simp [hlive, Stage.HasStack]
    have hin := hinv.entries_in_stack hhas
    have howned :=
      hinv.stack hhas (((s.onMemory m).threads.threads k).entryPage + j) ⟨by omega, by omega⟩
    exact Option.isSome_iff_exists.mpr ⟨_, howned⟩
  · exact agree_entry hagree (Or.inr ⟨k, hun, rfl⟩)

/-- Pages that are mapped neither before nor after a step keep their words. -/
theorem remap_of_unmapped {space space' : Pages Mapping} {mem : Memory} {address : Nat}
    (h : space (address / SYSTEM_PAGESIZE) = none)
    (h' : space' (address / SYSTEM_PAGESIZE) = none) :
    remap space space' mem address = mem address := by
  simp only [remap, h, h']

/-- A thread's creation registers the pages of its own stack, its exit clears the entries of its own
metadata, and no other step of the threads changes any. -/
theorem thread_entry {e : StackEvent} (h : s.Sound) (hs : step addrOf s (.thread e) = some s')
    {page : Nat} (hpage : s.threads.space page = none) :
    s'.threads.pageTable page = s.threads.pageTable page := by
  obtain ⟨threads, hstep, rfl⟩ := Option.map_eq_some_iff.mp hs
  cases e with
  | mapStack i page size guard =>
    obtain ⟨-, -, space, -, rfl⟩ :=
      StackState.mapStack_eq (Option.ite_none_right_eq_some.mp hstep).2
    rfl
  | mapMetadata i page =>
    obtain ⟨-, -, space, -, rfl⟩ :=
      StackState.mapMetadata_eq (Option.ite_none_right_eq_some.mp hstep).2
    rfl
  | writeEntries i =>
    obtain ⟨hstage, hwrite⟩ := Option.ite_none_right_eq_some.mp hstep
    obtain ⟨-, rfl⟩ := StackState.writeEntries_eq hwrite
    have hhas : (s.threads.threads i).stage.HasStack := by simp [hstage, Stage.HasStack]
    have hin := (h.thread i).entries_in_stack hhas
    simp only [StackState.setThread_pageTable, setEntries_apply]
    rw [if_neg]
    rintro ⟨hlo, hhi⟩
    have howned := (h.thread i).stack hhas page ⟨by omega, by omega⟩
    exact Option.some_ne_none _ (howned.symm.trans hpage)
  | unmapStack i =>
    cases (Option.ite_none_right_eq_some.mp hstep).2
    rfl
  | readEntry i =>
    cases (Option.ite_none_right_eq_some.mp hstep).2
    rfl
  | unmapMetadata i =>
    obtain ⟨m, hstage, hunmap⟩ := StackState.step_unmapMetadata hstep
    obtain ⟨pageTable, htable, rfl⟩ := StackState.unmapMetadata_eq hunmap
    have hmeta : (s.threads.threads i).stage.HasMetadata := by simp [hstage, Stage.HasMetadata]
    obtain rfl := (h.thread i).read m hstage
    have hle := StackState.hookedPages_le (s.threads.threads i)
    refine (htable page).trans (if_neg fun hin => ?_)
    have howned := (h.thread i).mapped hmeta page
      ⟨hin.1, Nat.lt_of_lt_of_le hin.2 (Nat.add_le_add_left hle _)⟩
    exact Option.some_ne_none _ (howned.symm.trans hpage)

/-- An update behind an alloca writes to the metadata of its own stack. -/
theorem update_bounds {AllocatedType : Ty} {constant : Bool} {arraySize : Nat} {stores : List Store}
    (h : s.Sound) (hlive : s.Live i o) (hof : o.IsOf AllocatedType constant arraySize)
    (hok : s.Orderly (.update i o AllocatedType constant arraySize))
    (hstores : (allocaUpdate AllocatedType constant arraySize).stores s.threads.pageTable addrOf
      o.start = some stores) :
    ∀ st ∈ stores, s.threads.space (st.1 / SYSTEM_PAGESIZE) = some (.metadata i) := by
  intro st hst
  obtain ⟨halign, hstart, hend⟩ := h.live_placed hlive
  have hstack : (s.threads.threads i).stage.HasStack := by simp [hlive.1, Stage.HasStack]
  have htop := (h.stack i).top_le hstack
  have hR := (show 2 ^ 6 ∣ SYSTEM_PAGESIZE by decide).trans ((h.stack i).start_page hstack).2
  have hbounds := stores_alloca_bounds (h.registered hlive.1) hstart hend htop hof hok hstores hR
    halign st hst
  exact h.metadata_owned hlive.1 hbounds.1 hbounds.2

theorem step_agree (h : (s.onMemory m).Sound) (hok : (s.onMemory m).Orderly e) (hon : s.OnStacks e)
    (hs : step addrOf (s.onMemory m) e = some s') :
    Agree Cell.read {c | c ∉ s.owned ∧ c ∉ s'.owned} m s'.memory := by
  cases e with
  | thread e =>
    rintro c ⟨hold, hnew⟩
    have hold : s.threads.space c.page = none :=
      Option.not_isSome_iff_eq_none.mp fun hin => hold (Or.inl hin)
    have hnew : s'.threads.space c.page = none :=
      Option.not_isSome_iff_eq_none.mp fun hin => hnew (Or.inl hin)
    cases c with
    | entry page => exact congrArg some (thread_entry h hs hold)
    | word address =>
      obtain ⟨threads, -, rfl⟩ := Option.map_eq_some_iff.mp hs
      exact remap_of_unmapped hold hnew
  | run i a =>
    obtain ⟨-, hs⟩ := Option.ite_none_right_eq_some.mp hs
    obtain ⟨t, -, rfl⟩ := Option.map_eq_some_iff.mp hs
    exact fun _ _ => rfl
  | update i o AllocatedType constant arraySize =>
    obtain ⟨⟨hstage, ho, hof⟩, hs⟩ := Option.ite_none_right_eq_some.mp hs
    obtain ⟨stores, hstores, rfl⟩ := Option.map_eq_some_iff.mp hs
    have howned := update_bounds h ⟨hstage, running_subset _ ho⟩ hof hok hstores
    refine agree_writes (m := m) fun st hst hc => hc.1 (Or.inl ?_)
    exact Option.isSome_iff_exists.mpr ⟨_, howned st hst⟩
  | store address word =>
    cases hs
    obtain ⟨k, howned⟩ := hon
    refine agree_write (m := m) fun hc => hc.1 (Or.inl ?_)
    exact Option.isSome_iff_exists.mpr ⟨_, howned⟩
  | register page entry => exact hon.elim

/-- Before any thread has a stack, the metadata of the safe stack is all there is. -/
theorem start_owned {page : Nat} {mem : Memory} (h : start page mem = some s) {c : Cell}
    (hc : c ∈ s.owned) : InRange page 512 c.page := by
  obtain ⟨threads, hthreads, rfl⟩ := Option.map_eq_some_iff.mp h
  have hidle := (StackState.start_eq hthreads).2.2.1
  rcases hc with hspace | ⟨k, hstage, -⟩
  · obtain ⟨s₁, hs₁, hthreads⟩ := Option.bind_eq_some_iff.mp hthreads
    obtain ⟨pageTable, -, hthreads⟩ := Option.bind_eq_some_iff.mp hthreads
    cases hthreads
    obtain ⟨-, -, -, space, hmap, rfl⟩ := StackState.mmap_eq hs₁
    obtain ⟨-, rfl⟩ := map_eq hmap
    by_contra hout
    have hcount : (metadataSize 0x100000 3 + SYSTEM_PAGESIZE - 1) / SYSTEM_PAGESIZE = 512 := by
      decide
    simp only [hcount, if_neg hout] at hspace
    cases hspace
  · simp only [hidle k] at hstage
    cases hstage

/-- A new stack is on the pages that the kernel has answered with. -/
theorem mapStack_owned {page size guard : Nat}
    (hs : step addrOf (s.onMemory m) (.thread (.mapStack i page size guard)) = some s') {c : Cell}
    (hc : c ∈ s'.owned) : c ∈ s.owned ∨
      InRange page ((size + guard + SYSTEM_PAGESIZE - 1) / SYSTEM_PAGESIZE) c.page := by
  obtain ⟨threads, hstep, rfl⟩ := Option.map_eq_some_iff.mp hs
  obtain ⟨-, -, space, hmap, rfl⟩ :=
    StackState.mapStack_eq (Option.ite_none_right_eq_some.mp hstep).2
  rcases hc with hspace | ⟨k, hstage, rfl⟩
  · obtain ⟨-, hnew⟩ := map_eq hmap
    by_cases hin : InRange page ((size + guard + SYSTEM_PAGESIZE - 1) / SYSTEM_PAGESIZE) c.page
    · exact Or.inr hin
    · refine Or.inl (Or.inl ?_)
      simp only [StackState.setThread_space, hnew, if_neg hin] at hspace
      exact hspace
  · by_cases hk : k = i
    · subst hk
      simp at hstage
    · simp only [StackState.setThread_of_ne hk] at hstage ⊢
      exact Or.inl (Or.inr ⟨k, hstage, rfl⟩)

end RunningThreads

open RunningThreads in
theorem threadsPart_lawful : threadsPart.Lawful Cell.read where
  step_inv := by
    rintro s m ⟨addrOf, e⟩ s' m' h ⟨hok, -⟩ hs
    obtain ⟨t, ht, heq⟩ := Option.map_eq_some_iff.mp hs
    cases heq
    exact step_sound h hok ht
  step_agree := by
    rintro s m ⟨addrOf, e⟩ s' m' h ⟨hok, hon⟩ hs
    obtain ⟨t, ht, heq⟩ := Option.map_eq_some_iff.mp hs
    cases heq
    exact step_agree h hok hon ht
  inv_agree s m m' h hagree := Sound.agree h hagree

/-- A live object, its bytes with what a lookup finds for them. -/
structure HoldsAlloca (i : Nat) (o : StackObject) (found : Nat → Option (Nat × Nat))
    (s : RunningThreads) (m : ProcessMemory) : Prop where
  live : s.Live i o
  lookup : ∀ x, o.Has x → lookupMetadata m.mem m.pageTable x = found x

/-- The event neither types the object nor ends its life. -/
def KeepsAlloca (i : Nat) (o : StackObject) (s : RunningThreads) (m : ProcessMemory)
    (e : (String → Nat) × ThreadEvent) : Prop :=
  (s.onMemory m).KeepsObject e.1 i o e.2

section Threads

open RunningThreads

variable {s s' : RunningThreads} {m m' : ProcessMemory} {i : Nat} {o : StackObject}
  {e : (String → Nat) × ThreadEvent} {found : Nat → Option (Nat × Nat)}

theorem HoldsAlloca.agree (h : HoldsAlloca i o found s m) (hsound : (s.onMemory m).Sound)
    (hagree : Agree Cell.read s.owned m m') : HoldsAlloca i o found s m' := by
  refine ⟨h.live, fun x hx => ?_⟩
  have hlive : (s.onMemory m).Live i o := h.live
  obtain ⟨-, hstart, hend⟩ := hsound.live_placed hlive
  rw [← h.lookup x hx]
  refine hsound.lookup_congr (hsound.agree hagree) hlive.1 rfl (fun address hlo hhi => ?_)
    (Nat.le_trans hstart hx.1) (Nat.lt_of_lt_of_le hx.2 hend)
  refine agree_word hagree (Or.inl ?_)
  exact Option.isSome_iff_exists.mpr ⟨_, hsound.metadata_owned hlive.1 hlo hhi⟩

theorem HoldsAlloca.step (h : HoldsAlloca i o found s m) (hsound : (s.onMemory m).Sound)
    (hok : threadsPart.Orderly s m e) (hkeeps : KeepsAlloca i o s m e)
    (hs : threadsPart.step s m e = some (s', m')) : HoldsAlloca i o found s' m' := by
  obtain ⟨t, ht, heq⟩ := Option.map_eq_some_iff.mp hs
  cases heq
  have hlive := hkeeps.2 _ ht
  refine ⟨hlive, fun x hx => ?_⟩
  have hleaves := step_leaves hsound hok.1 ht h.live hlive hkeeps.1 x hx
  exact hleaves.trans (h.lookup x hx)

end Threads

end TypeSan
