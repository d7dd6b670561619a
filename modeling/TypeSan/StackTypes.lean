import TypeSan.ObjectChecks
import TypeSan.RunningThreads

/-! The types of tracked objects on the stacks of all threads, over runs: from the update behind an
alloca to the casts of pointers into its object. -/
namespace TypeSan

open Rounding Runs WordMemory

namespace RunningThreads

variable {addrOf : String → Nat} {s s' t : RunningThreads} {i k : Nat} {o : StackObject}
  {e : ThreadEvent}

/-- A step of the creation or exit of a thread with a live stack unmaps this. -/
theorem stage_of_live {threads : StackState} {e : StackEvent}
    (hlive : (s.threads.threads e.thread).stage = .live) (hs : s.threads.step e = some threads) :
    (threads.threads e.thread).stage = .stackUnmapped := by
  cases e with
  | unmapStack i =>
    cases (Option.ite_none_right_eq_some.mp hs).2
    simp [StackEvent.thread, StackState.unmapStack]
  | _ =>
    simp only [StackEvent.thread] at hlive
    simp [StackState.step, hlive] at hs

/-- No step changes what is found for the bytes of an object that stays live, but one that types it. -/
theorem step_leaves (h : s.Sound) (hok : s.Orderly e) (hs : step addrOf s e = some s')
    (hlive : s.Live i o) (hlive' : s'.Live i o)
    (hother : ∀ AllocatedType constant arraySize, e ≠ .update i o AllocatedType constant arraySize) :
    ∀ x, o.Has x →
      lookupMetadata s'.mem s'.threads.pageTable x = lookupMetadata s.mem s.threads.pageTable x := by
  rintro x ⟨hlo, hhi⟩
  have h' := step_sound h hok hs
  obtain ⟨-, hstart, hend⟩ := h.live_placed hlive
  obtain ⟨hstage, ho⟩ := hlive
  have hcongr (ht : s'.threads.threads i = s.threads.threads i)
      (hmem : ∀ address, (s.threads.threads i).metadata ≤ address →
        address < (s.threads.threads i).metadata +
          granules (s.threads.threads i).unsafeStackSize 6 * 16 → s'.mem address = s.mem address) :=
    h.lookup_congr h' hstage ht hmem (x := x) (by omega) (by omega)
  cases e with
  | thread e =>
    have hne : i ≠ e.thread := by
      obtain ⟨threads, hstep, rfl⟩ := Option.map_eq_some_iff.mp hs
      rintro rfl
      cases hlive'.1.symm.trans (stage_of_live hstage hstep)
    obtain ⟨ht, -⟩ := thread_other hne hs
    refine hcongr ht fun address hlo hhi => ?_
    -- the pages of the metadata belong to the thread before the step, and after it
    have howned := h.metadata_owned hstage hlo hhi
    have howned' := h'.metadata_owned hlive'.1 (ht ▸ hlo) (ht ▸ hhi)
    obtain ⟨threads, -, rfl⟩ := Option.map_eq_some_iff.mp hs
    exact remap_of_mapped howned howned'
  | run i a =>
    obtain ⟨-, hs⟩ := Option.ite_none_right_eq_some.mp hs
    obtain ⟨t, -, rfl⟩ := Option.map_eq_some_iff.mp hs
    exact hcongr rfl fun _ _ _ => rfl
  | update j o' AllocatedType constant arraySize =>
    obtain ⟨⟨hstage', ho', hof⟩, hs⟩ := Option.ite_none_right_eq_some.mp hs
    obtain ⟨stores, hstores, rfl⟩ := Option.map_eq_some_iff.mp hs
    have hobject : s.Live j o' := ⟨hstage', running_subset _ ho'⟩
    obtain ⟨halign, hstart', hend'⟩ := h.live_placed hobject
    have hreg := h.registered hstage'
    have hstack : (s.threads.threads j).stage.HasStack := by simp [hstage', Stage.HasStack]
    have htop := (h.stack j).top_le hstack
    have hR := (show 2 ^ 6 ∣ SYSTEM_PAGESIZE by decide).trans ((h.stack j).start_page hstack).2
    by_cases hij : j = i
    · subst hij
      refine lookup_alloca_of_apart hreg hstart' hend' htop hof hok hstores hR halign (by omega)
        (by rw [← top]; omega) fun y hy => ?_
      have hne : o ≠ o' := by
        rintro rfl
        exact hother _ _ _ rfl
      exact ((h.stack j).separate hstage').apart.forall ho hobject.2 hne x y ⟨hlo, hhi⟩ hy
    · refine hcongr rfl fun address hlo hhi => writes_of_forall_ne ?_
      rintro st hst rfl
      have hbounds := stores_alloca_bounds hreg hstart' hend' htop hof hok hstores hR halign st hst
      have howner := h.metadata_owned hstage hlo hhi
      rw [h.metadata_owned hstage' hbounds.1 hbounds.2] at howner
      exact hij (Mapping.metadata.inj (Option.some.inj howner))
  | store address word =>
    cases hs
    refine hcongr rfl fun address' hlo hhi => write_of_ne ?_
    rintro rfl
    exact hok i (h.metadata_owned hstage hlo hhi)
  | register page entry =>
    cases hs
    exact hcongr rfl fun _ _ _ => rfl

/-! Runs. -/

/-- The step neither types the object nor ends its life. -/
def KeepsObject (addrOf : String → Nat) (i : Nat) (o : StackObject) (s : RunningThreads)
    (e : ThreadEvent) : Prop :=
  (∀ AllocatedType constant arraySize, e ≠ .update i o AllocatedType constant arraySize) ∧
    ∀ s', step addrOf s e = some s' → s'.Live i o

/-- Another thread's step leaves the object live and does not type it. -/
theorem keepsObject_of_other (hlive : s.Live i o) (he : ¬ e.Of i) : s.KeepsObject addrOf i o e := by
  refine ⟨?_, fun s' hs => ?_⟩
  · rintro AllocatedType constant arraySize rfl
    exact he rfl
  · cases e with
    | thread e =>
      obtain ⟨ht, hstack⟩ := thread_other (k := i) (fun heq => he heq.symm) hs
      exact ⟨ht ▸ hlive.1, hstack ▸ hlive.2⟩
    | run j a =>
      obtain ⟨-, hs⟩ := Option.ite_none_right_eq_some.mp hs
      obtain ⟨t, -, rfl⟩ := Option.map_eq_some_iff.mp hs
      have hne : i ≠ j := fun heq => he heq.symm
      refine ⟨hlive.1, ?_⟩
      simpa only [Function.update_of_ne hne] using hlive.2
    | update j o' AllocatedType constant arraySize =>
      obtain ⟨-, hs⟩ := Option.ite_none_right_eq_some.mp hs
      obtain ⟨stores, -, rfl⟩ := Option.map_eq_some_iff.mp hs
      exact hlive
    | store address word =>
      cases hs
      exact hlive
    | register page entry =>
      cases hs
      exact hlive

/-- So a run of other threads keeps the object. -/
theorem guarded_keepsObject {events : List ThreadEvent} (hlive : s.Live i o)
    (he : ∀ e ∈ events, ¬ e.Of i) : Guarded (step addrOf) (KeepsObject addrOf i o) s events := by
  induction events generalizing s with
  | nil => exact guarded_nil
  | cons e events ih =>
    have hkeeps : s.KeepsObject addrOf i o e :=
      keepsObject_of_other hlive (he e List.mem_cons_self)
    refine guarded_cons hkeeps fun t ht => ?_
    exact ih (hkeeps.2 t ht) fun e' he' => he e' (List.mem_cons_of_mem e he')

/-- An object that stays live and is not typed again keeps what is found for its bytes. -/
theorem exec_leaves {events : List ThreadEvent} (h : s.Sound) (hlive : s.Live i o)
    (hok : Guarded (step addrOf) Orderly s events)
    (hkeeps : Guarded (step addrOf) (KeepsObject addrOf i o) s events)
    (hs : exec (step addrOf) s events = some s') : s'.Sound ∧ s'.Live i o ∧ ∀ x, o.Has x →
      lookupMetadata s'.mem s'.threads.pageTable x = lookupMetadata s.mem s.threads.pageTable x := by
  apply exec_invariant (I := fun t => t.Sound ∧ t.Live i o ∧ ∀ x, o.Has x →
    lookupMetadata t.mem t.threads.pageTable x = lookupMetadata s.mem s.threads.pageTable x)
    ⟨h, hlive, fun _ _ => rfl⟩ _ (hok.and hkeeps) hs
  rintro t e u ⟨ht, htlive, hlookup⟩ ⟨hok, hother, hkeeps⟩ hstep
  have hulive := hkeeps u hstep
  refine ⟨step_sound ht hok hstep, hulive, fun x hx => ?_⟩
  rw [step_leaves ht hok hstep htlive hulive hother x hx, hlookup x hx]

/-- An update behind an alloca leaves its object live, and gives the bytes that are asked for its
type. -/
theorem step_update {AllocatedType : Ty} {constant : Bool} {arraySize : Nat} (h : s.Sound)
    (hok : s.Orderly (.update i o AllocatedType constant arraySize))
    (hs : step addrOf s (.update i o AllocatedType constant arraySize) = some t) :
    t.Live i o ∧ o.start + o.size ≤ 2 ^ 47 ∧ 0 < o.start ∧
      o.IsOf AllocatedType constant arraySize ∧
      ∀ E c, (allocaUpdate AllocatedType constant arraySize).target = some (E, c) →
        ∀ x, o.start ≤ x →
          x < o.start + (allocaUpdate AllocatedType constant arraySize).filledBytes E c →
          lookupMetadata t.mem t.threads.pageTable x =
            some (MetallocUpdate.ptrToStore E o.start, MetallocUpdate.typeInfoPtrInt addrOf E c) := by
  obtain ⟨⟨hstage, ho, hof⟩, hs⟩ := Option.ite_none_right_eq_some.mp hs
  obtain ⟨stores, hstores, rfl⟩ := Option.map_eq_some_iff.mp hs
  have hlive : s.Live i o := ⟨hstage, running_subset _ ho⟩
  obtain ⟨halign, hstart, hend⟩ := h.live_placed hlive
  have hreg := h.registered hstage
  have hstack : (s.threads.threads i).stage.HasStack := by simp [hstage, Stage.HasStack]
  have htop := (h.stack i).top_le hstack
  have hR := (show 2 ^ 6 ∣ SYSTEM_PAGESIZE by decide).trans ((h.stack i).start_page hstack).2
  have hpos := ((h.stack i).start_page hstack).1
  refine ⟨hlive, Nat.le_trans hend htop, by omega, hof, fun E c htarget x hx hxs => ?_⟩
  exact lookup_alloca hreg hstart hend htop hof hok hstores hR halign htarget hx hxs

/-- From the update behind an alloca on, each byte of its object finds what that update wrote, for as
long as the object stays live and is not typed again: across whatever the thread itself calls, throws
and jumps over, and other threads do, their creation and exit included. -/
theorem lookup_of_typed_alloca {page : Nat} {mem : Memory} {s₀ : RunningThreads}
    {history events : List ThreadEvent} {AllocatedType : Ty} {constant : Bool}
    {arraySize c x : Nat} {E : StructType} (h₀ : start page mem = some s₀)
    (hok : Guarded (step addrOf) Orderly s₀ history) (hs : exec (step addrOf) s₀ history = some s)
    (hupdateOk : s.Orderly (.update i o AllocatedType constant arraySize))
    (hupdate : step addrOf s (.update i o AllocatedType constant arraySize) = some t)
    (hok' : Guarded (step addrOf) Orderly t events)
    (hkeeps : Guarded (step addrOf) (KeepsObject addrOf i o) t events)
    (h : exec (step addrOf) t events = some s')
    (htarget : (allocaUpdate AllocatedType constant arraySize).target = some (E, c))
    (hpos : 0 < arraySize * AllocatedType.allocSize) (hx : o.Has x) :
    lookupMetadata s'.mem s'.threads.pageTable x =
      some (MetallocUpdate.ptrToStore E o.start, MetallocUpdate.typeInfoPtrInt addrOf E c) := by
  have hsound := exec_sound (start_sound h₀) hok hs
  obtain ⟨hlive, -, -, hof, htyped⟩ := step_update hsound hupdateOk hupdate
  obtain ⟨-, -, hlookup⟩ :=
    exec_leaves (step_sound hsound hupdateOk hupdate) hlive hok' hkeeps h
  rw [hlookup x hx]
  refine htyped E c htarget x hx.1 ?_
  rw [filledBytes_alloca_eq htarget hof hpos]
  exact hx.2

end RunningThreads

/-! Casts of pointers into an object. -/

namespace TwoThreads

open FirstArray SecondElement RunningThreads

/-- A thread is created, and calls a function with a tracked alloca. -/
def thread (i page metadataPage : Nat) (AI : Nat × Nat) : List ThreadEvent :=
  [.thread (.mapStack i page 8192 4096), .thread (.mapMetadata i metadataPage),
    .thread (.writeEntries i), .run i (.call ⟨[AI], false, false⟩ 0x7000)]

def array : StackObject := ⟨0x3eafc0, 16, 8⟩

def element : StackObject := ⟨0x3f4fc0, 8, 8⟩

def update : ThreadEvent := .update 0 array T.ty true 1

def events : List ThreadEvent :=
  thread 1 1010 2010 (8, 8) ++ [.update 1 element E.ty true 1]

/-- The call fits on the new stack. -/
theorem guarded_thread {s : RunningThreads} {i page metadataPage bytes p : Nat}
    (hnew : ∀ t, exec (step addrOf) s (thread i page metadataPage (bytes, 8)).dropLast = some t →
      (t.stack i).pointer = p ∧ (t.threads.threads i).unsafeStackStart + 8192 = p)
    (hfits : TrackedFunction.staticOffset ⟨[(bytes, 8)], false, false⟩ < 2 ^ 31 ∧
      TrackedFunction.staticOffset ⟨[(bytes, 8)], false, false⟩ ≤
        TrackedFunction.alignedBase ⟨[(bytes, 8)], false, false⟩ p ∧
      p ≤ TrackedFunction.staticTop ⟨[(bytes, 8)], false, false⟩ p + 8192) :
    Guarded (step addrOf) (fun t e => (∀ e', e ≠ .thread e') → t.Orderly e) s
      (thread i page metadataPage (bytes, 8)) := by
  refine guarded_cons (fun h => (h _ rfl).elim) fun s₁ h₁ => ?_
  refine guarded_cons (fun h => (h _ rfl).elim) fun s₂ h₂ => ?_
  refine guarded_cons (fun h => (h _ rfl).elim) fun s₃ h₃ => ?_
  have hrun : exec (step addrOf) s (thread i page metadataPage (bytes, 8)).dropLast = some s₃ := by
    simp [thread, h₁, h₂, h₃]
  obtain ⟨hpointer, hstart⟩ := hnew s₃ hrun
  obtain ⟨hframe, hbase, hroom⟩ := hfits
  have hpower : (8 : Nat).isPowerOfTwo := ⟨3, rfl⟩
  refine guarded_cons (fun _ => ⟨⟨⟨hframe.le, ?_⟩, hframe, by simpa using hpower⟩, fun t ht => ?_⟩)
    fun _ _ => guarded_nil
  · rwa [hpointer]
  · cases ht
    simp only [TwoStacks.call, TwoStacks.run, hpointer]
    omega

/-- The two threads' run, and that it meets the conditions of both theorems. -/
theorem exec_events : ∃ s₀ s t s', start 16 (fun _ => none) = some s₀ ∧
    Guarded (step addrOf) Orderly s₀ (thread 0 1000 2000 (16, 8)) ∧
    exec (step addrOf) s₀ (thread 0 1000 2000 (16, 8)) = some s ∧ s.Orderly update ∧
    step addrOf s update = some t ∧ Guarded (step addrOf) Orderly t events ∧
    Guarded (step addrOf) (KeepsObject addrOf 0 array) t events ∧
    exec (step addrOf) t events = some s' ∧
    ∀ i < 16, s'.mem (0x1000 + 8 * i) = none ∧ s'.mem (0x2000 + 8 * i) = none := by
  have hrun : ((start 16 fun _ => none).bind fun s₀ =>
      exec (step addrOf) s₀ (thread 0 1000 2000 (16, 8) ++ update :: events)).map (fun s =>
        decide (∀ i < 16, s.mem (0x1000 + 8 * i) = none ∧ s.mem (0x2000 + 8 * i) = none)) =
      some true := by
    decide +kernel
  have hfirst : ((start 16 fun _ => none).bind fun s₀ =>
      exec (step addrOf) s₀ (thread 0 1000 2000 (16, 8)).dropLast).map (fun t =>
        ((t.stack 0).pointer, (t.threads.threads 0).unsafeStackStart)) =
      some (0x3eb000, 0x3e9000) := by
    decide +kernel
  have hsecond : ((start 16 fun _ => none).bind fun s₀ =>
      exec (step addrOf) s₀ (thread 0 1000 2000 (16, 8) ++
        update :: (thread 1 1010 2010 (8, 8)).dropLast)).map (fun t =>
          ((t.stack 1).pointer, (t.threads.threads 1).unsafeStackStart)) =
      some (0x3f5000, 0x3f3000) := by
    decide +kernel
  obtain ⟨s', hs', hunmapped⟩ := Option.map_eq_some_iff.mp hrun
  obtain ⟨s₀, h₀, hs'⟩ := Option.bind_eq_some_iff.mp hs'
  rw [h₀, Option.bind_some] at hfirst hsecond
  have hnone (k : Nat) : (s₀.threads.threads k).stage ≠ .stackUnmapped := by
    obtain ⟨threads, hthreads, rfl⟩ := Option.map_eq_some_iff.mp h₀
    simp [(StackState.start_eq hthreads).2.2.1 k]
  have hweak : Guarded (step addrOf) (fun t e => (∀ e', e ≠ .thread e') → t.Orderly e) s₀
      (thread 0 1000 2000 (16, 8) ++ update :: events) := by
    refine guarded_append (guarded_thread (fun u hu => ?_) (p := 0x3eb000) (by decide))
      fun s hs => guarded_cons (fun _ _ _ => by decide) fun t ht =>
        guarded_append (guarded_thread (fun u hu => ?_) (p := 0x3f5000) (by decide))
          fun u hu => guarded_cons (fun _ _ _ => by decide) fun _ _ => guarded_nil
    · simpa [hu] using hfirst
    · rw [exec_append, hs, Option.bind_some, exec_cons, ht, Option.bind_some] at hsecond
      simpa [hu] using hsecond
  have hok := guarded_orderly hnone (by simp [thread, events, update]) hweak
  rw [exec_append] at hs'
  obtain ⟨s, hs, hs'⟩ := Option.bind_eq_some_iff.mp hs'
  obtain ⟨t, ht, hs'⟩ := Option.bind_eq_some_iff.mp hs'
  have hokUpdate := hok.drop hs
  have hokHistory := hok.mono (List.prefix_append _ _)
  have hupdateOk : s.Orderly update := hokUpdate [] update s (by simp) rfl
  have hlive : t.Live 0 array :=
    (step_update (exec_sound (start_sound h₀) hokHistory hs) hupdateOk ht).1
  have hkeeps : Guarded (step addrOf) (KeepsObject addrOf 0 array) t events :=
    guarded_keepsObject hlive (by simp [events, thread, ThreadEvent.Of, StackEvent.thread])
  exact ⟨s₀, s, t, s', h₀, hokHistory, hs, hupdateOk, ht, hokUpdate.tail ht, hkeeps, hs',
    of_decide_eq_true hunmapped⟩

theorem lookup_of_typed_alloca_of_two_threads :
    ∃ s t s', step addrOf s update = some t ∧ exec (step addrOf) t events = some s' ∧
      ∀ x, array.Has x → lookupMetadata s'.mem s'.threads.pageTable x =
        some (array.start, addrOf T.typeInfoName + 8) := by
  obtain ⟨s₀, s, t, s', h₀, hok, hs, hupdateOk, ht, hok', hkeeps, hs', -⟩ := exec_events
  exact ⟨s, t, s', ht, hs', fun x hx =>
    lookup_of_typed_alloca h₀ hok hs hupdateOk ht hok' hkeeps hs' rfl (by decide) hx⟩

end TwoThreads

end TypeSan
