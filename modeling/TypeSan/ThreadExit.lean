import TypeSan.Library.SpecificData
import TypeSan.StackRelease

/-! The exit of a thread: its tracked stack is freed by one of the destructors of its specific data,
among those of the program. -/
namespace TypeSan

open Runs SpecificData

/-- The rounds that an exit has for destructors that set values again. -/
def PTHREAD_DESTRUCTOR_ITERATIONS : Nat := 4

namespace StackState

/-- `unsafe_stack_free`, by the thread that has the stack, if it has one. -/
def unsafeStackFree (s : StackState) (i : Nat) : StackState := (s.serve (.free i)).getD s

/-- `thread_cleanup_handler`, with the values of the thread in which it sets its own key. -/
def threadCleanupHandler (threadCleanupKey i iter : Nat) (value : Nat → Nat) (s : StackState) :
    (Nat → Nat) × StackState :=
  if iter < PTHREAD_DESTRUCTOR_ITERATIONS then
    (Function.update value threadCleanupKey (iter + 1), s)
  else (value, s.unsafeStackFree i)

end StackState

/-- An exit of the thread `thread`: the key of the cleanup handler, the destructors that the program
has for its own keys, and the order in which each round takes the keys. -/
structure ThreadExit (Program : Type) where
  thread : Nat
  threadCleanupKey : Nat
  destructor : (key value : Nat) → (Nat → Nat) × (StackState × Program) →
    (Nat → Nat) × (StackState × Program)
  orders : List (List Nat)

namespace ThreadExit

variable {Program : Type} (e : ThreadExit Program)

/-- The handler, and the destructors of the program. -/
def allDestructors (key value : Nat) (work : (Nat → Nat) × (StackState × Program)) :
    (Nat → Nat) × (StackState × Program) :=
  if key = e.threadCleanupKey then
    let after := work.2.1.threadCleanupHandler e.threadCleanupKey e.thread value work.1
    (after.1, after.2, work.2.2)
  else e.destructor key value work

/-- The exit of a thread that has set its values, and the key of the handler in `thread_start`. -/
def run (value : Nat → Nat) (s : StackState) (p : Program) : Exit (StackState × Program) :=
  rounds e.allDestructors 1 ⟨Function.update value e.threadCleanupKey 1, (s, p), []⟩ e.orders

/-- The program knows nothing of the key of the handler, and nobody else works on the thread. -/
structure Ordinary : Prop where
  key : ∀ key value work, key ≠ e.threadCleanupKey →
    (e.destructor key value work).1 e.threadCleanupKey = work.1 e.threadCleanupKey
  thread : ∀ key value work, key ≠ e.threadCleanupKey →
    (e.destructor key value work).2.1.threads e.thread = work.2.1.threads e.thread
  rounds : e.orders.length = PTHREAD_DESTRUCTOR_ITERATIONS
  orders : ∀ order ∈ e.orders, order.Nodup ∧ e.threadCleanupKey ∈ order

variable {e} {value : Nat → Nat} {s : StackState} {p : Program} {behind : List Nat}

theorem unsafeStackFree_gone {i : Nat} (h : (s.threads i).stage = .live) :
    ((s.unsafeStackFree i).threads i).stage = .gone := by
  obtain ⟨s', hs', hgone⟩ := StackState.exists_serve_free h
  rwa [StackState.unsafeStackFree, hs']

/-- So far the handler's key has this value and the stack is at this stage, and every call came with
a live stack but those of the last round behind the handler. -/
structure At (e : ThreadExit Program) (behind : List Nat) (value : Nat) (stage : Stage)
    (t : Exit (StackState × Program)) : Prop where
  value : t.value e.threadCleanupKey = value
  stage : (t.state.1.threads e.thread).stage = stage
  calls : ∀ call ∈ t.calls, (call.state.1.threads e.thread).stage =
    if call.round = PTHREAD_DESTRUCTOR_ITERATIONS ∧ call.key ∈ behind then .gone else .live

variable {t : Exit (StackState × Program)} {iter round key : Nat} {stage : Stage}

/-- A turn adds a call with the state that it found. -/
theorem At.turn (h : e.At behind iter stage t) {iter' : Nat} {stage' : Stage}
    (hcall : stage = if round = PTHREAD_DESTRUCTOR_ITERATIONS ∧ key ∈ behind then .gone else .live)
    (hkey : t.value key ≠ 0) {work : (Nat → Nat) × (StackState × Program)}
    (hwork : e.allDestructors key (t.value key) (Function.update t.value key 0, t.state) = work)
    (hvalue : work.1 e.threadCleanupKey = iter')
    (hstage : (work.2.1.threads e.thread).stage = stage') :
    e.At behind iter' stage' (SpecificData.turn e.allDestructors round t key) := by
  rw [SpecificData.turn, if_neg hkey, hwork]
  refine ⟨hvalue, hstage, ?_⟩
  intro call hmem
  rcases List.mem_append.mp hmem with hold | hnew
  · exact h.calls call hold
  · rw [List.mem_singleton.mp hnew]
    exact h.stage.trans hcall

/-- The destructors of the program. -/
theorem At.turn_of_ne (h : e.At behind iter stage t) (he : e.Ordinary)
    (hne : key ≠ e.threadCleanupKey)
    (hcall : stage =
      if round = PTHREAD_DESTRUCTOR_ITERATIONS ∧ key ∈ behind then .gone else .live) :
    e.At behind iter stage (SpecificData.turn e.allDestructors round t key) := by
  by_cases hkey : t.value key = 0
  · rwa [SpecificData.turn, if_pos hkey]
  · refine h.turn hcall hkey (if_neg hne) ?_ ?_
    · rw [he.key _ _ _ hne]
      exact (Function.update_of_ne hne.symm _ _).trans h.value
    · rw [he.thread _ _ _ hne]
      exact h.stage

/-- The handler sets its key again. -/
theorem At.turn_handler (h : e.At behind iter .live t) (hbehind : e.threadCleanupKey ∉ behind)
    (hpos : iter ≠ 0) (hlt : iter < PTHREAD_DESTRUCTOR_ITERATIONS) :
    e.At behind (iter + 1) .live
      (SpecificData.turn e.allDestructors round t e.threadCleanupKey) := by
  refine h.turn (by simp [hbehind]) (h.value ▸ hpos) (if_pos rfl) ?_ ?_
  · simp [StackState.threadCleanupHandler, h.value, hlt]
  · simpa [StackState.threadCleanupHandler, h.value, hlt] using h.stage

/-- The handler frees the stack. -/
theorem At.turn_frees (h : e.At behind PTHREAD_DESTRUCTOR_ITERATIONS .live t)
    (hbehind : e.threadCleanupKey ∉ behind) :
    e.At behind 0 .gone (SpecificData.turn e.allDestructors round t e.threadCleanupKey) := by
  refine h.turn (by simp [hbehind]) (by rw [h.value]; decide) (if_pos rfl) ?_ ?_
  · simp [StackState.threadCleanupHandler, h.value]
  · simpa [StackState.threadCleanupHandler, h.value] using unsafeStackFree_gone h.stage

/-- A round before the last one. -/
theorem At.turns (h : e.At behind round .live t) (he : e.Ordinary)
    (hbehind : e.threadCleanupKey ∉ behind) (hpos : round ≠ 0)
    (hlt : round < PTHREAD_DESTRUCTOR_ITERATIONS) {order : List Nat} (hnodup : order.Nodup)
    (hkey : e.threadCleanupKey ∈ order) :
    e.At behind (round + 1) .live (SpecificData.turns e.allDestructors round t order) := by
  have hcall (key : Nat) : Stage.live =
      if round = PTHREAD_DESTRUCTOR_ITERATIONS ∧ key ∈ behind then .gone else .live := by
    simp [Nat.ne_of_lt hlt]
  obtain ⟨front, back, -, hfront, hback, hturns⟩ :=
    turns_split e.allDestructors round t hkey hnodup
  rw [hturns]
  have hahead : e.At behind round .live (SpecificData.turns e.allDestructors round t front) :=
    turns_invariant h fun key hmem t ht =>
      ht.turn_of_ne he (fun heq => hfront (heq ▸ hmem)) (hcall key)
  exact turns_invariant (hahead.turn_handler hbehind hpos hlt) fun key hmem t ht =>
    ht.turn_of_ne he (fun heq => hback (heq ▸ hmem)) (hcall key)

/-- The last round. -/
theorem At.turns_last (h : e.At behind PTHREAD_DESTRUCTOR_ITERATIONS .live t) (he : e.Ordinary)
    {ahead : List Nat} (hnodup : (ahead ++ e.threadCleanupKey :: behind).Nodup) :
    e.At behind 0 .gone (SpecificData.turns e.allDestructors PTHREAD_DESTRUCTOR_ITERATIONS t
      (ahead ++ e.threadCleanupKey :: behind)) := by
  obtain ⟨hnot, hrest⟩ := List.nodup_cons.mp (List.perm_middle.nodup_iff.mp hnodup)
  obtain ⟨hahead, hbehind⟩ := not_or.mp (fun h => hnot (List.mem_append.mpr h))
  have hfront : e.At behind PTHREAD_DESTRUCTOR_ITERATIONS .live
      (SpecificData.turns e.allDestructors PTHREAD_DESTRUCTOR_ITERATIONS t ahead) := by
    refine turns_invariant h fun key hmem t ht =>
      ht.turn_of_ne he (fun heq => hahead (heq ▸ hmem)) ?_
    have hkey : key ∉ behind := fun hback => (List.nodup_append.mp hrest).2.2 key hmem key hback rfl
    simp [hkey]
  rw [turns_append, turns_cons]
  refine turns_invariant (hfront.turn_frees hbehind) fun key hmem t ht =>
    ht.turn_of_ne he (fun heq => hbehind (heq ▸ hmem)) ?_
  simp [hmem]

theorem At.rounds {orders : List (List Nat)} {ahead : List Nat} (h : e.At behind round .live t)
    (he : e.Ordinary) (hpos : round ≠ 0)
    (horders : ∀ order ∈ orders, order.Nodup ∧ e.threadCleanupKey ∈ order)
    (hcount : round + orders.length = PTHREAD_DESTRUCTOR_ITERATIONS + 1)
    (hlast : orders.getLast? = some (ahead ++ e.threadCleanupKey :: behind)) :
    e.At behind 0 .gone (SpecificData.rounds e.allDestructors round t orders) := by
  induction orders generalizing round t with
  | nil => cases hlast
  | cons order rest ih =>
    obtain ⟨⟨hnodup, hkey⟩, hrest⟩ := List.forall_mem_cons.mp horders
    rw [rounds_cons hkey (h.value ▸ hpos)]
    rw [List.length_cons] at hcount
    cases rest with
    | nil =>
      obtain rfl : round = PTHREAD_DESTRUCTOR_ITERATIONS := by simpa using hcount
      cases hlast
      exact h.turns_last he hnodup
    | cons order' rest =>
      have hbehind : e.threadCleanupKey ∉ behind := by
        have hmem := List.mem_of_getLast? hlast
        have hnodup' := (horders _ hmem).1
        have hnot := (List.nodup_cons.mp (List.perm_middle.nodup_iff.mp hnodup')).1
        exact fun hback => hnot (List.mem_append_right ahead hback)
      have hlt : round < PTHREAD_DESTRUCTOR_ITERATIONS := by
        rw [List.length_cons] at hcount
        omega
      refine ih (h.turns he hbehind hpos hlt hnodup hkey) (Nat.succ_ne_zero round) hrest ?_ ?_
      · omega
      · rwa [List.getLast?_cons_cons] at hlast

/-- Whatever the destructors of the program do, the stack is freed in the last round. Until then it
is live, so that only those destructors come without it that are behind the handler in that
round. -/
theorem freed_in_last_round (he : e.Ordinary) {ahead : List Nat}
    (hlast : e.orders.getLast? = some (ahead ++ e.threadCleanupKey :: behind))
    (hlive : (s.threads e.thread).stage = .live) :
    ((e.run value s p).state.1.threads e.thread).stage = .gone ∧
      ∀ call ∈ (e.run value s p).calls, (call.state.1.threads e.thread).stage =
        if call.round = PTHREAD_DESTRUCTOR_ITERATIONS ∧ call.key ∈ behind then .gone
        else .live := by
  have hstart : e.At behind 1 .live
      ⟨Function.update value e.threadCleanupKey 1, (s, p), []⟩ :=
    ⟨Function.update_self _ _ _, hlive, nofun⟩
  have hend : e.At behind 0 .gone (e.run value s p) :=
    hstart.rounds he Nat.one_ne_zero he.orders (by rw [he.rounds]; rfl) hlast
  exact ⟨hend.stage, hend.calls⟩

/-- A program with one key, whose destructor sets it again whenever it is called. -/
def settingAgain : ThreadExit Unit where
  thread := 0
  threadCleanupKey := 0
  destructor key value work := (Function.update work.1 key value, work.2)
  orders := List.replicate PTHREAD_DESTRUCTOR_ITERATIONS [0, 1]

theorem freed_in_last_round_of_settingAgain :
    ∃ s₀ s, StackState.start 16 = some s₀ ∧
      s₀.serve (.alloc 0 1000 8192 4096 2000) = some s ∧
      (settingAgain.run (fun _ => 1) s ()).calls.map (fun call => (call.round, call.key)) =
        [(1, 0), (1, 1), (2, 0), (2, 1), (3, 0), (3, 1), (4, 0), (4, 1)] ∧
      ∀ call ∈ (settingAgain.run (fun _ => 1) s ()).calls, (call.state.1.threads 0).stage =
        if call.round = 4 ∧ call.key ∈ [1] then .gone else .live := by
  have hrun : ((StackState.start 16).bind fun s₀ =>
      (s₀.serve (.alloc 0 1000 8192 4096 2000)).map fun s => ((s.threads 0).stage,
        (settingAgain.run (fun _ => 1) s ()).calls.map fun call => (call.round, call.key))) =
      some (.live, [(1, 0), (1, 1), (2, 0), (2, 1), (3, 0), (3, 1), (4, 0), (4, 1)]) := by
    decide +kernel
  obtain ⟨s₀, hs₀, hs⟩ := Option.bind_eq_some_iff.mp hrun
  obtain ⟨s, hs, hend⟩ := Option.map_eq_some_iff.mp hs
  obtain ⟨hlive, hcalls⟩ := Prod.mk.inj hend
  have hordinary : settingAgain.Ordinary := by
    refine ⟨?_, fun _ _ _ _ => rfl, rfl, by decide⟩
    intro key value work hne
    exact Function.update_of_ne (Ne.symm hne) _ _
  have hlast : settingAgain.orders.getLast? =
      some ([] ++ settingAgain.threadCleanupKey :: [1]) := rfl
  exact ⟨s₀, s, hs₀, hs, hcalls, (freed_in_last_round hordinary hlast hlive).2⟩

end ThreadExit

end TypeSan
