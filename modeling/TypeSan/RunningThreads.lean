import TypeSan.AllocaUpdate
import TypeSan.StackCreation
import TypeSan.StackSeparation

/-! All threads with their tracked stacks, their creation and exit included: what a live stack keeps
in every run. -/
namespace TypeSan

open PageMap Rounding Runs WordMemory

/-- The tracked objects of the running activation. -/
def TwoStacks.running (s : TwoStacks) : List StackObject :=
  match s.frames with
  | [] => []
  | f :: _ => f.objects

/-- All threads: their tracked stacks as they are mapped and registered, what is on these, and the
words in memory. -/
structure RunningThreads where
  threads : StackState
  stack : Nat → TwoStacks
  mem : Memory

/-- What happens next: a step of a thread's creation or exit, a step of instrumented code on the two
stacks of a thread, an update behind an alloca, and what else stores a word or registers a page. -/
inductive ThreadEvent where
  | thread (e : StackEvent)
  | run (i : Nat) (a : TwoStackAction)
  | update (i : Nat) (o : StackObject) (AllocatedType : Ty) (constant : Bool) (arraySize : Nat)
  | store (address word : Nat)
  | register (page entry : Nat)

/-- The step is one of the thread's own. -/
def ThreadEvent.Of (i : Nat) : ThreadEvent → Prop
  | .thread e => e.thread = i
  | .run j _ => j = i
  | .update j .. => j = i
  | _ => False

/-- Pages are full of zeros when they are mapped, and hold nothing once they are unmapped. -/
def remap (space space' : Pages Mapping) (mem : Memory) : Memory := fun address =>
  match space (address / SYSTEM_PAGESIZE), space' (address / SYSTEM_PAGESIZE) with
  | none, some _ => some 0
  | some _, none => none
  | _, _ => mem address

namespace RunningThreads

/-- No thread has a tracked stack yet. -/
def start (page : Nat) (mem : Memory) : Option RunningThreads :=
  (StackState.start page).map fun threads =>
    ⟨threads, fun _ => .init 0, remap (fun _ => none) threads.space mem⟩

/-- The upper end of a thread's tracked stack, where `unsafe_stack_setup` puts the pointer. -/
def top (s : RunningThreads) (i : Nat) : Nat :=
  (s.threads.threads i).unsafeStackStart + (s.threads.threads i).unsafeStackSize

def step (addrOf : String → Nat) (s : RunningThreads) : ThreadEvent → Option RunningThreads
  | .thread e =>
    (s.threads.step e).map fun threads =>
      { threads
        stack :=
          match e with
          | .writeEntries i => Function.update s.stack i (.init (s.top i))
          | _ => s.stack
        mem := remap s.threads.space threads.space s.mem }
  | .run i a =>
    if (s.threads.threads i).stage = .live then
      ((s.stack i).step a).map fun t => { s with stack := Function.update s.stack i t }
    else none
  | .update i o AllocatedType constant arraySize =>
    if (s.threads.threads i).stage = .live ∧ o ∈ (s.stack i).running ∧
        o.IsOf AllocatedType constant arraySize then
      ((allocaUpdate AllocatedType constant arraySize).stores s.threads.pageTable addrOf o.start).map
        fun stores => { s with mem := writes s.mem stores }
    else none
  | .store address word => some { s with mem := write s.mem (address, word) }
  | .register page entry =>
    some { s with threads := { s.threads with
      pageTable := Function.update s.threads.pageTable page entry } }

/-- Frames fit on their stacks, an object of no bytes is not given a type with a constant count, other
stores keep off the stacks' metadata, and others register no page of a stack, nor one that an exit
has yet to look up. -/
def Orderly (s : RunningThreads) : ThreadEvent → Prop
  | .thread e => s.threads.NotOverwriting e
  | .run i a => (s.stack i).Lays a ∧ ∀ t, (s.stack i).step a = some t →
      (s.threads.threads i).unsafeStackStart ≤ t.pointer
  | .update _ o _ constant arraySize => constant = true → arraySize ≠ 0 → 0 < o.size
  | .store address _ => ∀ k, s.threads.space (address / SYSTEM_PAGESIZE) ≠ some (.metadata k)
  | .register page _ => ∀ k, s.threads.space page ≠ some (.stack k) ∧
      ((s.threads.threads k).stage = .stackUnmapped → page ≠ (s.threads.threads k).entryPage)

/-- The object is on the tracked stack of a thread that has one. -/
def Live (s : RunningThreads) (i : Nat) (o : StackObject) : Prop :=
  (s.threads.threads i).stage = .live ∧ o ∈ (s.stack i).objects

end RunningThreads

/-- A page that stays mapped keeps its words. -/
theorem remap_of_mapped {space space' : Pages Mapping} {mem : Memory} {address : Nat}
    {owner owner' : Mapping} (h : space (address / SYSTEM_PAGESIZE) = some owner)
    (h' : space' (address / SYSTEM_PAGESIZE) = some owner') :
    remap space space' mem address = mem address := by
  simp only [remap, h, h']

namespace RunningThreads

variable {addrOf : String → Nat} {s s' t : RunningThreads} {i k : Nat} {o : StackObject}
  {e : ThreadEvent}

instance : Std.Symm StackObject.Apart := ⟨fun _ _ h => h.symm⟩

/-- What a stack keeps while it is mapped, and what its thread keeps while it uses it. -/
structure StackOk (s : RunningThreads) (i : Nat) : Prop where
  start_page : (s.threads.threads i).stage.HasStack →
    0 < (s.threads.threads i).unsafeStackStart ∧
      SYSTEM_PAGESIZE ∣ (s.threads.threads i).unsafeStackStart
  top_le : (s.threads.threads i).stage.HasStack → s.top i ≤ 2 ^ 47
  separate : (s.threads.threads i).stage = .live → (s.stack i).Separate
  bounded : (s.threads.threads i).stage = .live → (s.stack i).Bounded (s.top i)
  room : (s.threads.threads i).stage = .live →
    (s.threads.threads i).unsafeStackStart ≤ (s.stack i).pointer

structure Sound (s : RunningThreads) : Prop where
  thread : ∀ k, s.threads.ThreadInv k
  stack : ∀ k, s.StackOk k

theorem StackOk.congr (h : s.StackOk k) (ht : s'.threads.threads k = s.threads.threads k)
    (hstack : s'.stack k = s.stack k) : s'.StackOk k := by
  have htop : s'.top k = s.top k := by rw [top, ht, top]
  refine ⟨?_, ?_, ?_, ?_, ?_⟩ <;> rw [ht]
  · exact h.start_page
  · exact htop ▸ h.top_le
  · exact hstack ▸ h.separate
  · exact hstack ▸ htop ▸ h.bounded
  · exact hstack ▸ h.room

/-- The pages of a live stack are registered, with 64-byte granules. -/
theorem Sound.registered (h : s.Sound) (hlive : (s.threads.threads i).stage = .live) :
    Registered s.threads.pageTable (s.threads.threads i).unsafeStackStart
      (s.threads.threads i).unsafeStackSize (s.threads.threads i).metadata 6 := by
  have hinv := h.thread i
  have hok := h.stack i
  have hstack : (s.threads.threads i).stage.HasStack := by simp [hlive, Stage.HasStack]
  have hmeta : (s.threads.threads i).stage.HasMetadata := by simp [hlive, Stage.HasMetadata]
  have hsize := hinv.live_pages hlive
  obtain ⟨-, hne, hend⟩ := hinv.metadata_addr hmeta
  have hle := (hinv.size_range (by simp [hlive])).2
  have hcover := StackState.granules_le_metadataSize hle hsize
  refine ⟨(hok.start_page hstack).2, hsize, by decide, hne, ?_, hinv.entries hlive⟩
  rw [← StackState.metadataBytes_eq, StackThread.metadataBytes] at hend
  simp only [kMetaStackAlignBits] at hcover hend
  omega

/-- The metadata of a live stack is on pages that were mapped for it. -/
theorem Sound.metadata_owned (h : s.Sound) (hlive : (s.threads.threads i).stage = .live)
    {address : Nat} (hlo : (s.threads.threads i).metadata ≤ address)
    (hhi : address < (s.threads.threads i).metadata +
      granules (s.threads.threads i).unsafeStackSize 6 * 16) :
    s.threads.space (address / SYSTEM_PAGESIZE) = some (.metadata i) := by
  have hinv := h.thread i
  have hmeta : (s.threads.threads i).stage.HasMetadata := by simp [hlive, Stage.HasMetadata]
  have hle := (hinv.size_range (by simp [hlive])).2
  have hcover := StackState.granules_le_metadataSize hle (hinv.live_pages hlive)
  obtain ⟨haddr, -, -⟩ := hinv.metadata_addr hmeta
  have hbytes := StackState.metadataBytes_eq (s.threads.threads i)
  rw [StackThread.metadataBytes] at hbytes
  refine hinv.mapped hmeta _ ⟨?_, ?_⟩
  · exact Nat.div_le_div_right hlo
  · rw [Nat.div_lt_iff_lt_mul (by decide), Nat.add_mul, ← haddr]
    simp only [kMetaStackAlignBits] at hcover hbytes
    omega

/-- What a thread finds for a byte of its stack is up to the words of its metadata block. -/
theorem Sound.lookup_congr (h : s.Sound) (h' : s'.Sound)
    (hlive : (s.threads.threads i).stage = .live)
    (ht : s'.threads.threads i = s.threads.threads i)
    (hmem : ∀ address, (s.threads.threads i).metadata ≤ address →
      address < (s.threads.threads i).metadata +
        granules (s.threads.threads i).unsafeStackSize 6 * 16 → s'.mem address = s.mem address)
    {x : Nat} (hlo : (s.threads.threads i).unsafeStackStart ≤ x) (hhi : x < s.top i) :
    lookupMetadata s'.mem s'.threads.pageTable x = lookupMetadata s.mem s.threads.pageTable x := by
  have hreg := h.registered hlive
  have hreg' := h'.registered (ht ▸ hlive)
  rw [ht] at hreg'
  rw [top] at hhi
  have hgranule : (x - (s.threads.threads i).unsafeStackStart) / 2 ^ 6 <
      granules (s.threads.threads i).unsafeStackSize 6 := div_lt_granules (by omega)
  have hptr := hreg.metadataPtr_eq hlo hhi
  have hptr' := hreg'.metadataPtr_eq hlo hhi
  have hbase := hmem (metadataPtr s.threads.pageTable x) (by omega) (by omega)
  have hinfo := hmem (metadataPtr s.threads.pageTable x + 8) (by omega) (by omega)
  simp only [lookupMetadata, hptr'.trans hptr.symm, hbase, hinfo]

/-- A live object is on the stack of its thread. -/
theorem Sound.live_placed (h : s.Sound) (hlive : s.Live i o) :
    StackAlignment ∣ o.start ∧ (s.threads.threads i).unsafeStackStart ≤ o.start ∧
      o.start + o.size ≤ s.top i := by
  obtain ⟨hstage, ho⟩ := hlive
  have hok := h.stack i
  obtain ⟨halign, hlow, f, hf, hend⟩ := (hok.separate hstage).mem_placed ho
  have hroom := hok.room hstage
  have hbase := (hok.bounded hstage).2 f hf
  exact ⟨halign, by omega, by omega⟩

/-! The steps. -/

theorem running_subset (t : TwoStacks) : t.running ⊆ t.objects := by
  intro o ho
  cases hframes : t.frames with
  | nil => simp [TwoStacks.running, hframes] at ho
  | cons f rest =>
    rw [TwoStacks.running, hframes] at ho
    rw [TwoStacks.objects, hframes, List.flatMap_cons]
    exact List.mem_append_left _ ho

/-- A stack is in user space, and not at its start. -/
theorem mapStack_end {s s' : StackState} {page size guard : Nat}
    (h : s.mapStack i page size guard = some s') :
    0 < page * SYSTEM_PAGESIZE ∧ page * SYSTEM_PAGESIZE + guard + size ≤ 2 ^ 47 := by
  obtain ⟨-, h⟩ := Option.ite_none_left_eq_some.mp h
  obtain ⟨s₁, hs₁, -⟩ := Option.map_eq_some_iff.mp h
  obtain ⟨hpage, -, hend, -⟩ := StackState.mmap_eq hs₁
  refine ⟨Nat.mul_pos (Nat.pos_of_ne_zero hpage) (by decide), ?_⟩
  have hcover : size + guard ≤ (size + guard + SYSTEM_PAGESIZE - 1) / SYSTEM_PAGESIZE * SYSTEM_PAGESIZE :=
    le_alignTo (show 0 < SYSTEM_PAGESIZE by decide)
  rw [Nat.add_mul] at hend
  omega

/-- A stack that its thread does not use yet, or no longer. -/
theorem stackOk_of_not_live (hlive : (s.threads.threads i).stage ≠ .live)
    (hstart : (s.threads.threads i).stage.HasStack →
      (0 < (s.threads.threads i).unsafeStackStart ∧
        SYSTEM_PAGESIZE ∣ (s.threads.threads i).unsafeStackStart) ∧ s.top i ≤ 2 ^ 47) :
    s.StackOk i :=
  ⟨fun h => (hstart h).1, fun h => (hstart h).2, fun h => (hlive h).elim, fun h => (hlive h).elim,
    fun h => (hlive h).elim⟩

/-- A step of a thread's creation or exit keeps its stack well. A creation ends with the pointer at
the top. -/
theorem thread_stackOk {e : StackEvent} (h : s.Sound)
    (hs : step addrOf s (.thread e) = some s') : s'.StackOk e.thread := by
  obtain ⟨threads, hstep, rfl⟩ := Option.map_eq_some_iff.mp hs
  cases e with
  | mapStack i page size guard =>
    obtain ⟨-, hmap⟩ := Option.ite_none_right_eq_some.mp hstep
    obtain ⟨hpos, hend⟩ := mapStack_end hmap
    obtain ⟨-, hguard, space, -, rfl⟩ := StackState.mapStack_eq hmap
    refine stackOk_of_not_live (by simp [StackEvent.thread]) fun _ => ?_
    simp only [StackEvent.thread, top, StackState.setThread_self]
    exact ⟨⟨Nat.add_pos_left hpos guard,
      Nat.dvd_add (Nat.dvd_mul_left _ _) (Nat.dvd_of_mod_eq_zero hguard)⟩, hend⟩
  | mapMetadata i page =>
    obtain ⟨hstage, hmap⟩ := Option.ite_none_right_eq_some.mp hstep
    obtain ⟨-, -, space, -, rfl⟩ := StackState.mapMetadata_eq hmap
    have hstack : (s.threads.threads i).stage.HasStack := by simp [hstage, Stage.HasStack]
    refine stackOk_of_not_live (by simp [StackEvent.thread]) fun _ => ?_
    simp only [StackEvent.thread, top, StackState.setThread_self]
    exact ⟨(h.stack i).start_page hstack, (h.stack i).top_le hstack⟩
  | writeEntries i =>
    obtain ⟨hstage, hwrite⟩ := Option.ite_none_right_eq_some.mp hstep
    obtain ⟨hsize, rfl⟩ := StackState.writeEntries_eq hwrite
    have hstack : (s.threads.threads i).stage.HasStack := by simp [hstage, Stage.HasStack]
    have hstart := (h.stack i).start_page hstack
    have hend : s.top i ≤ 2 ^ 47 := (h.stack i).top_le hstack
    have halign : StackAlignment ∣ s.top i :=
      Nat.dvd_add ((show StackAlignment ∣ SYSTEM_PAGESIZE by decide).trans hstart.2)
        ((show StackAlignment ∣ METALLOC_PAGESIZE by decide).trans hsize)
    have hsep := TwoStacks.init_separate (by omega) halign
    refine ⟨fun _ => ?_, fun _ => ?_, fun _ => ?_, fun _ => ?_, fun _ => ?_⟩ <;>
      simp only [StackEvent.thread, top, StackState.setThread_self, Function.update_self]
    · exact hstart
    · exact hend
    · exact hsep
    · exact ⟨Nat.le_refl _, by simp [TwoStacks.init]⟩
    · exact Nat.le_add_right _ _
  | unmapStack i =>
    obtain ⟨-, hunmap⟩ := Option.ite_none_right_eq_some.mp hstep
    cases hunmap
    exact stackOk_of_not_live (by simp [StackEvent.thread, StackState.unmapStack])
      (by simp [StackEvent.thread, StackState.unmapStack, Stage.HasStack])
  | readEntry i =>
    obtain ⟨-, hread⟩ := Option.ite_none_right_eq_some.mp hstep
    cases hread
    exact stackOk_of_not_live (by simp [StackEvent.thread, StackState.readEntry])
      (by simp [StackEvent.thread, StackState.readEntry, Stage.HasStack])
  | unmapMetadata i =>
    obtain ⟨m, -, hunmap⟩ := StackState.step_unmapMetadata hstep
    obtain ⟨pageTable, -, rfl⟩ := StackState.unmapMetadata_eq hunmap
    exact stackOk_of_not_live (by simp [StackEvent.thread])
      (by simp [StackEvent.thread, Stage.HasStack])

/-- A step of another thread's creation or exit leaves the stack as it is. -/
theorem thread_other {e : StackEvent} (hk : k ≠ e.thread)
    (hs : step addrOf s (.thread e) = some s') :
    s'.threads.threads k = s.threads.threads k ∧ s'.stack k = s.stack k := by
  obtain ⟨threads, hstep, rfl⟩ := Option.map_eq_some_iff.mp hs
  refine ⟨StackState.step_threads_of_ne hstep hk, ?_⟩
  cases e with
  | writeEntries i => exact Function.update_of_ne hk _ _
  | _ => rfl

/-- Registering other pages leaves alone what threads rely on. -/
theorem register_inv {page entry : Nat} (h : ∀ k, s.threads.ThreadInv k)
    (hok : s.Orderly (.register page entry)) :
    ∀ k, StackState.ThreadInv { s.threads with
      pageTable := Function.update s.threads.pageTable page entry } k := by
  intro k
  obtain ⟨hstack, hread⟩ := hok k
  refine (h k).frame rfl (fun _ _ _ _ ho => ho) (fun hlive j hj => ?_) (fun hun => ?_) rfl
  · refine Function.update_of_ne (fun heq => hstack ?_) _ _
    have hhas : (s.threads.threads k).stage.HasStack := by simp [hlive, Stage.HasStack]
    have hin := (h k).entries_in_stack hhas
    refine (h k).stack hhas page ⟨?_, ?_⟩ <;> omega
  · exact Function.update_of_ne (hread hun).symm _ _

theorem step_sound (h : s.Sound) (hok : s.Orderly e) (hs : step addrOf s e = some s') :
    s'.Sound := by
  have hsame {s' : RunningThreads} (hthread : ∀ k, s'.threads.ThreadInv k)
      (ht : ∀ k, s'.threads.threads k = s.threads.threads k) (hstack : s'.stack = s.stack) :
      s'.Sound :=
    ⟨hthread, fun k => (h.stack k).congr (ht k) (congrFun hstack k)⟩
  cases e with
  | thread e =>
    refine ⟨?_, fun k => ?_⟩
    · obtain ⟨threads, hstep, rfl⟩ := Option.map_eq_some_iff.mp hs
      exact StackState.step_inv h.thread hok hstep
    · by_cases hk : k = e.thread
      · rw [hk]
        exact thread_stackOk h hs
      · obtain ⟨ht, hstack⟩ := thread_other hk hs
        exact (h.stack k).congr ht hstack
  | run i a =>
    obtain ⟨hlive, hs⟩ := Option.ite_none_right_eq_some.mp hs
    obtain ⟨t, ht, rfl⟩ := Option.map_eq_some_iff.mp hs
    obtain ⟨hlays, hroom⟩ := hok
    refine ⟨h.thread, fun k => ?_⟩
    by_cases hk : k = i
    · subst hk
      have hold := h.stack k
      have hsep := hold.separate hlive
      refine ⟨hold.start_page, hold.top_le, fun _ => ?_, fun _ => ?_, fun _ => ?_⟩ <;>
        simp only [Function.update_self]
      · exact TwoStacks.step_separate hsep hlays ht
      · exact TwoStacks.step_bounded hsep.ordered (hold.bounded hlive) hlays.1 ht
      · exact hroom t ht
    · exact (h.stack k).congr rfl (Function.update_of_ne hk _ _)
  | update i o AllocatedType constant arraySize =>
    obtain ⟨-, hs⟩ := Option.ite_none_right_eq_some.mp hs
    obtain ⟨stores, -, rfl⟩ := Option.map_eq_some_iff.mp hs
    exact hsame h.thread (fun _ => rfl) rfl
  | store address word =>
    cases hs
    exact hsame h.thread (fun _ => rfl) rfl
  | register page entry =>
    cases hs
    exact hsame (register_inv h.thread hok) (fun _ => rfl) rfl

/-- Only its exit unmaps a thread's stack. -/
theorem stackUnmapped_of_step (hs : step addrOf s e = some s')
    (h : (s'.threads.threads k).stage = .stackUnmapped) :
    (s.threads.threads k).stage = .stackUnmapped ∨ e = .thread (.unmapStack k) := by
  cases e with
  | thread e =>
    by_cases hk : k = e.thread
    · obtain ⟨threads, hstep, rfl⟩ := Option.map_eq_some_iff.mp hs
      subst hk
      cases e with
      | unmapStack i => exact Or.inr rfl
      | mapStack i page size guard =>
        obtain ⟨-, -, space, -, rfl⟩ :=
          StackState.mapStack_eq (Option.ite_none_right_eq_some.mp hstep).2
        simp [StackEvent.thread] at h
      | mapMetadata i page =>
        obtain ⟨-, -, space, -, rfl⟩ :=
          StackState.mapMetadata_eq (Option.ite_none_right_eq_some.mp hstep).2
        simp [StackEvent.thread] at h
      | writeEntries i =>
        obtain ⟨-, rfl⟩ := StackState.writeEntries_eq (Option.ite_none_right_eq_some.mp hstep).2
        simp [StackEvent.thread] at h
      | readEntry i =>
        exact Or.inl (Option.ite_none_right_eq_some.mp hstep).1
      | unmapMetadata i =>
        obtain ⟨m, -, hunmap⟩ := StackState.step_unmapMetadata hstep
        obtain ⟨pageTable, -, rfl⟩ := StackState.unmapMetadata_eq hunmap
        simp [StackEvent.thread] at h
    · exact Or.inl ((thread_other hk hs).1 ▸ h)
  | run i a =>
    obtain ⟨-, hs⟩ := Option.ite_none_right_eq_some.mp hs
    obtain ⟨t, -, rfl⟩ := Option.map_eq_some_iff.mp hs
    exact Or.inl h
  | update i o AllocatedType constant arraySize =>
    obtain ⟨-, hs⟩ := Option.ite_none_right_eq_some.mp hs
    obtain ⟨stores, -, rfl⟩ := Option.map_eq_some_iff.mp hs
    exact Or.inl h
  | store address word =>
    cases hs
    exact Or.inl h
  | register page entry =>
    cases hs
    exact Or.inl h

/-! Runs. -/

/-- Until the first exit begins, no thread overwrites an entry that is still to be read. -/
theorem guarded_orderly {events : List ThreadEvent}
    (hnone : ∀ k, (s.threads.threads k).stage ≠ .stackUnmapped)
    (hexit : ∀ k, .thread (.unmapStack k) ∉ events)
    (hok : Guarded (step addrOf) (fun t e => (∀ e', e ≠ .thread e') → t.Orderly e) s events) :
    Guarded (step addrOf) Orderly s events := by
  induction events generalizing s with
  | nil => exact guarded_nil
  | cons e events ih =>
    have horderly : s.Orderly e := by
      cases e with
      | thread e =>
        cases e with
        | writeEntries i => exact fun k hk => (hnone k hk).elim
        | unmapMetadata i => exact fun k hk => (hnone k hk).elim
        | _ => trivial
      | _ => exact hok [] _ s (by simp) rfl nofun
    refine guarded_cons horderly fun t ht => ih (fun k hk => ?_)
      (fun k hk => hexit k (List.mem_cons_of_mem e hk)) (hok.tail ht)
    rcases stackUnmapped_of_step ht hk with hk | rfl
    · exact hnone k hk
    · exact hexit k List.mem_cons_self

theorem start_sound {page : Nat} {mem : Memory} (h : start page mem = some s) : s.Sound := by
  obtain ⟨threads, hthreads, rfl⟩ := Option.map_eq_some_iff.mp h
  refine ⟨StackState.start_inv hthreads, fun k => ?_⟩
  obtain ⟨-, -, hidle, -⟩ := StackState.start_eq hthreads
  exact stackOk_of_not_live (by simp [hidle k]) (by simp [hidle k, Stage.HasStack])

theorem exec_sound {events : List ThreadEvent} (h : s.Sound)
    (hok : Guarded (step addrOf) Orderly s events) (hs : exec (step addrOf) s events = some s') :
    s'.Sound :=
  exec_invariant h (fun _ _ _ ht hok hstep => step_sound ht hok hstep) hok hs

end RunningThreads

end TypeSan
