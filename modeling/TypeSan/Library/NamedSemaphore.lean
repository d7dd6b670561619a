import Mathlib.Logic.Function.Basic

/-! Semaphores that are opened by one name, which is created with value 1 where the name stands for
none, and may be unlinked at any time. -/
namespace NamedSemaphore

/-- What a process has to do with the semaphores: it has opened one, or is between its wait and its
post. -/
inductive Hold where
  | out
  | waiting (id : Nat)
  | inside (id : Nat)
  deriving DecidableEq

/-- The semaphore is the one that the process has opened. -/
def Hold.At (h : Hold) (id : Nat) : Prop := h = .waiting id ∨ h = .inside id

structure Sems (Proc : Type) where
  name : Option Nat
  value : Nat → Nat
  next : Nat
  hold : Proc → Hold

variable {Proc : Type}

/-- No semaphore. -/
def Sems.initial : Sems Proc := ⟨none, fun _ => 0, 0, fun _ => .out⟩

namespace Sems

variable [DecidableEq Proc] (s : Sems Proc) (p : Proc)

def setHold (h : Hold) : Sems Proc := { s with hold := Function.update s.hold p h }

omit [DecidableEq Proc] in
/-- A new semaphore gets the name. -/
def create : Sems Proc := { s with
  name := some s.next
  value := Function.update s.value s.next 1
  next := s.next + 1 }

/-- `sem_open` with `O_CREAT` and value 1 -/
def semOpen : Sems Proc :=
  match s.name with
  | some id => s.setHold p (.waiting id)
  | none => s.create.setHold p (.waiting s.next)

/-- `sem_wait`, when the value lets the process pass. -/
def semWait : Option (Sems Proc) :=
  match s.hold p with
  | .waiting id =>
    if 0 < s.value id then
      some ({ s with value := Function.update s.value id (s.value id - 1) }.setHold p (.inside id))
    else none
  | _ => none

/-- `sem_post` -/
def semPost : Option (Sems Proc) :=
  match s.hold p with
  | .inside id =>
    some ({ s with value := Function.update s.value id (s.value id + 1) }.setHold p .out)
  | _ => none

omit [DecidableEq Proc] in
/-- `sem_unlink` -/
def semUnlink : Sems Proc := { s with name := none }

end Sems

namespace Sems

/-- At one semaphore, at most one process is between its wait and its post, and the value tells
whether there is one. -/
structure Inv (s : Sems Proc) : Prop where
  known : ∀ p id, (s.hold p).At id → id < s.next
  named : ∀ id, s.name = some id → id < s.next
  one : ∀ id < s.next, s.value id = 1 ∧ (∀ p, s.hold p ≠ .inside id) ∨
    s.value id = 0 ∧ ∃ p, s.hold p = .inside id ∧ ∀ q, s.hold q = .inside id → q = p

/-- All processes are at the same semaphore, and the name stands for no other. -/
structure Single (s : Sems Proc) : Prop where
  same : ∀ p q id id', (s.hold p).At id → (s.hold q).At id' → id = id'
  named : ∀ p id id', s.name = some id → (s.hold p).At id' → id' = id

/-- A semaphore may be created for the process: no other one is at any. -/
def Quiet (s : Sems Proc) (p : Proc) : Prop := ∀ q, q ≠ p → s.hold q = .out

variable {s s' : Sems Proc} {p q : Proc}

/-- Then at most one process is between its wait and its post. -/
theorem Inv.exclusive (hs : s.Inv) (hsingle : s.Single) {id id' : Nat} (hp : s.hold p = .inside id)
    (hq : s.hold q = .inside id') : p = q := by
  obtain rfl := hsingle.same p q id id' (Or.inr hp) (Or.inr hq)
  rcases hs.one id (hs.known p id (Or.inr hp)) with ⟨-, hnone⟩ | ⟨-, r, -, honly⟩
  · exact (hnone p hp).elim
  · rw [honly p hp, honly q hq]

theorem inv_initial : (initial : Sems Proc).Inv where
  known p id h := by rcases h with h | h <;> cases h
  named id h := by cases h
  one id h := absurd h (Nat.not_lt_zero id)

theorem single_initial : (initial : Sems Proc).Single where
  same p q id id' h := by rcases h with h | h <;> cases h
  named p id id' h := by cases h

variable [DecidableEq Proc]

@[simp] theorem setHold_self (h : Hold) : (s.setHold p h).hold p = h := Function.update_self _ _ _

theorem setHold_of_ne (h : Hold) (hne : q ≠ p) : (s.setHold p h).hold q = s.hold q :=
  Function.update_of_ne hne _ _

@[simp] theorem setHold_value (h : Hold) : (s.setHold p h).value = s.value := rfl

/-- A process that is at a semaphore after a change was there before, or is the one that changed. -/
theorem at_setHold {h : Hold} {id : Nat} (hat : ((s.setHold p h).hold q).At id) :
    (q = p ∧ h.At id) ∨ (q ≠ p ∧ (s.hold q).At id) := by
  by_cases hq : q = p
  · subst hq
    rw [setHold_self] at hat
    exact Or.inl ⟨rfl, hat⟩
  · rw [setHold_of_ne h hq] at hat
    exact Or.inr ⟨hq, hat⟩

/-- Nobody else comes or goes where a process changes that is inside neither before nor after. -/
theorem inside_setHold_iff {h : Hold} {k : Nat} (hp : s.hold p ≠ .inside k) (hh : h ≠ .inside k) :
    (s.setHold p h).hold q = .inside k ↔ s.hold q = .inside k := by
  by_cases hq : q = p
  · subst hq
    rw [setHold_self]
    exact iff_of_false hh hp
  · rw [setHold_of_ne h hq]

/-! What an operation does to its process, and that it leaves the others where they are. -/

theorem semOpen_self : ∃ id, (s.semOpen p).hold p = .waiting id := by
  unfold Sems.semOpen
  split <;> exact ⟨_, setHold_self _⟩

theorem semOpen_of_ne (hne : q ≠ p) : (s.semOpen p).hold q = s.hold q := by
  unfold Sems.semOpen
  split <;> exact setHold_of_ne _ hne

theorem semOpen_name : (s.semOpen p).name ≠ none := by
  unfold Sems.semOpen
  split
  · rename_i hname
    exact fun hnone => Option.some_ne_none _ (hname.symm.trans hnone)
  · exact Option.some_ne_none _

theorem semWait_eq (h : s.semWait p = some s') :
    ∃ id, s.hold p = .waiting id ∧ 0 < s.value id ∧
      s' = { s with value := Function.update s.value id (s.value id - 1) }.setHold p
        (.inside id) := by
  unfold semWait at h
  split at h
  · rename_i id hp
    split at h
    · rename_i hpos
      exact ⟨id, hp, hpos, (Option.some.inj h).symm⟩
    · cases h
  · cases h

theorem semWait_self (h : s.semWait p = some s') : ∃ id, s'.hold p = .inside id := by
  obtain ⟨id, -, -, rfl⟩ := semWait_eq h
  exact ⟨id, setHold_self _⟩

theorem semWait_of_ne (h : s.semWait p = some s') (hne : q ≠ p) : s'.hold q = s.hold q := by
  obtain ⟨id, -, -, rfl⟩ := semWait_eq h
  exact setHold_of_ne _ hne

theorem semPost_eq (h : s.semPost p = some s') :
    ∃ id, s.hold p = .inside id ∧
      s' = { s with value := Function.update s.value id (s.value id + 1) }.setHold p .out := by
  unfold semPost at h
  split at h
  · rename_i id hp
    exact ⟨id, hp, (Option.some.inj h).symm⟩
  · cases h

theorem semPost_self (h : s.semPost p = some s') : s'.hold p = .out := by
  obtain ⟨id, -, rfl⟩ := semPost_eq h
  exact setHold_self _

theorem semPost_of_ne (h : s.semPost p = some s') (hne : q ≠ p) : s'.hold q = s.hold q := by
  obtain ⟨id, -, rfl⟩ := semPost_eq h
  exact setHold_of_ne _ hne

/-! Each operation, at one semaphore. -/

theorem Inv.setHold_waiting {id : Nat} (hs : s.Inv) (hp : s.hold p = .out) (hid : id < s.next) :
    (s.setHold p (.waiting id)).Inv where
  known q id' hat := by
    rcases at_setHold hat with ⟨-, hat⟩ | ⟨-, hat⟩
    · rcases hat with hat | hat
      · exact Hold.waiting.inj hat ▸ hid
      · cases hat
    · exact hs.known q id' hat
  named := hs.named
  one id' hid' := by
    have hiff (q : Proc) := inside_setHold_iff (q := q) (h := .waiting id) (k := id')
      (by rw [hp]; exact Hold.noConfusion) Hold.noConfusion
    simp only [hiff, ne_eq]
    exact hs.one id' hid'

omit [DecidableEq Proc] in
theorem Inv.create (hs : s.Inv) : s.create.Inv where
  known q id hat := Nat.lt_succ_of_lt (hs.known q id hat)
  named id hid := Option.some.inj hid ▸ Nat.lt_succ_self s.next
  one id hid := by
    rcases Nat.lt_succ_iff_lt_or_eq.mp hid with hlt | rfl
    · simp only [Sems.create, Function.update_of_ne (Nat.ne_of_lt hlt)]
      exact hs.one id hlt
    · refine Or.inl ⟨Function.update_self _ _ _, ?_⟩
      intro q hq
      exact Nat.lt_irrefl _ (hs.known q s.next (Or.inr hq))

theorem Inv.semOpen (hs : s.Inv) (hp : s.hold p = .out) : (s.semOpen p).Inv := by
  unfold Sems.semOpen
  split
  · rename_i id hname
    exact hs.setHold_waiting hp (hs.named id hname)
  · exact hs.create.setHold_waiting hp (Nat.lt_succ_self s.next)

/-- A process changes at one semaphore, with its value, and nothing else happens. -/
theorem Inv.change {h : Hold} {k v : Nat} (hs : s.Inv) (hp : (s.hold p).At k)
    (hh : ∀ id, h.At id → id = k)
    (hone : v = 1 ∧ (∀ q, (s.setHold p h).hold q ≠ .inside k) ∨
      v = 0 ∧ ∃ r, (s.setHold p h).hold r = .inside k ∧
        ∀ q, (s.setHold p h).hold q = .inside k → q = r) :
    ({ s with value := Function.update s.value k v }.setHold p h).Inv where
  known q id hat := by
    rcases at_setHold hat with ⟨-, hat⟩ | ⟨-, hat⟩
    · rw [hh id hat]
      exact hs.known p k hp
    · exact hs.known q id hat
  named := hs.named
  one id hid := by
    by_cases heq : id = k
    · subst heq
      change Function.update s.value id v id = 1 ∧ _ ∨ Function.update s.value id v id = 0 ∧ _
      rw [Function.update_self]
      exact hone
    · have hout : s.hold p ≠ .inside id := by
        intro hinside
        rcases hp with hp | hp <;> rw [hp] at hinside <;> cases hinside
        exact heq rfl
      have hiff (q : Proc) := inside_setHold_iff (q := q) hout fun hinside =>
        heq (hh id (Or.inr hinside))
      change Function.update s.value k v id = 1 ∧ (∀ q, (s.setHold p h).hold q ≠ .inside id) ∨
        Function.update s.value k v id = 0 ∧ ∃ r, (s.setHold p h).hold r = .inside id ∧
          ∀ q, (s.setHold p h).hold q = .inside id → q = r
      simp only [hiff, ne_eq, Function.update_of_ne heq]
      exact hs.one id hid

theorem Inv.semWait (hs : s.Inv) (h : s.semWait p = some s') : s'.Inv := by
  obtain ⟨id, hp, hpos, rfl⟩ := semWait_eq h
  apply hs.change (Or.inl hp)
  · rintro id' (hat | hat)
    · cases hat
    · exact (Hold.inside.inj hat).symm
  · rcases hs.one id (hs.known p id (Or.inl hp)) with ⟨hvalue, hnone⟩ | ⟨hvalue, -⟩
    · refine Or.inr ⟨by rw [hvalue], p, setHold_self _, ?_⟩
      intro q hq
      by_contra hne
      rw [setHold_of_ne _ hne] at hq
      exact hnone q hq
    · omega

theorem Inv.semPost (hs : s.Inv) (h : s.semPost p = some s') : s'.Inv := by
  obtain ⟨id, hp, rfl⟩ := semPost_eq h
  apply hs.change (Or.inr hp)
  · rintro id' (hat | hat) <;> cases hat
  · rcases hs.one id (hs.known p id (Or.inr hp)) with ⟨-, hnone⟩ | ⟨hvalue, r, hr, honly⟩
    · exact (hnone p hp).elim
    · refine Or.inl ⟨by rw [hvalue], ?_⟩
      intro q hq
      by_cases hqp : q = p
      · subst hqp
        rw [setHold_self] at hq
        cases hq
      · rw [setHold_of_ne _ hqp] at hq
        exact hqp ((honly q hq).trans (honly p hp).symm)

omit [DecidableEq Proc] in
theorem Inv.semUnlink (hs : s.Inv) : s.semUnlink.Inv where
  known := hs.known
  named id hid := by cases hid
  one := hs.one

/-! All processes at one semaphore. -/

omit [DecidableEq Proc] in
/-- Whoever is at a semaphore has been there, and the name stands for what it did, or for none. -/
theorem Single.mono (hs : s.Single) (hat : ∀ q id, (s'.hold q).At id → (s.hold q).At id)
    (hname : ∀ id, s'.name = some id → s.name = some id) : s'.Single where
  same q r id id' hq hr := hs.same q r id id' (hat q id hq) (hat r id' hr)
  named q id id' hid hq := hs.named q id id' (hname id hid) (hat q id' hq)

theorem Single.semWait (hs : s.Single) (h : s.semWait p = some s') : s'.Single := by
  obtain ⟨id, hp, -, rfl⟩ := semWait_eq h
  apply hs.mono
  · intro q id' hat
    rcases at_setHold hat with ⟨heq, hnew⟩ | ⟨-, hbefore⟩
    · rcases hnew with hnew | hnew
      · cases hnew
      · exact Or.inl (by rw [heq, hp, Hold.inside.inj hnew])
    · exact hbefore
  · intro id' hid'
    exact hid'

theorem Single.semPost (hs : s.Single) (h : s.semPost p = some s') : s'.Single := by
  obtain ⟨id, hp, rfl⟩ := semPost_eq h
  apply hs.mono
  · intro q id' hat
    rcases at_setHold hat with ⟨-, hat⟩ | ⟨-, hat⟩
    · rcases hat with hat | hat <;> cases hat
    · exact hat
  · intro id' hid'
    exact hid'

omit [DecidableEq Proc] in
theorem Single.semUnlink (hs : s.Single) : s.semUnlink.Single := by
  apply hs.mono
  · intro q id hat
    exact hat
  · intro id hid
    cases hid

/-- A semaphore is only created where no process is at another one. -/
theorem Single.semOpen (hs : s.Single) (hquiet : s.name = none → s.Quiet p) :
    (s.semOpen p).Single := by
  unfold Sems.semOpen
  split
  · rename_i id hname
    have hat {q : Proc} {id' : Nat} (h : ((s.setHold p (.waiting id)).hold q).At id') :
        id' = id := by
      rcases at_setHold h with ⟨-, h | h⟩ | ⟨-, h⟩
      · exact (Hold.waiting.inj h).symm
      · cases h
      · exact hs.named q id id' hname h
    refine ⟨?_, ?_⟩
    · intro q r id₁ id₂ hq hr
      rw [hat hq, hat hr]
    · intro q id₁ id₂ hid hq
      rw [hat hq]
      exact Option.some.inj (hname.symm.trans hid)
  · rename_i hname
    have hat {q : Proc} {id' : Nat} (h : ((s.create.setHold p (.waiting s.next)).hold q).At id') :
        id' = s.next := by
      rcases at_setHold h with ⟨-, h | h⟩ | ⟨hne, h⟩
      · exact (Hold.waiting.inj h).symm
      · cases h
      · have hout : s.create.hold q = .out := hquiet hname q hne
        rw [hout] at h
        rcases h with h | h <;> cases h
    refine ⟨?_, ?_⟩
    · intro q r id₁ id₂ hq hr
      rw [hat hq, hat hr]
    · intro q id₁ id₂ hid hq
      rw [hat hq]
      exact Option.some.inj hid

/-! Two semaphores. -/

theorem exists_semWait {id : Nat} (hp : s.hold p = .waiting id) (hpos : 0 < s.value id) :
    ∃ t, s.semWait p = some t ∧ t.hold p = .inside id ∧ (∀ q, q ≠ p → t.hold q = s.hold q) ∧
      ∀ id', id' ≠ id → t.value id' = s.value id' := by
  refine ⟨{ s with value := Function.update s.value id (s.value id - 1) }.setHold p (.inside id),
    ?_, setHold_self _, fun q hq => setHold_of_ne _ hq,
    fun id' hid' => Function.update_of_ne hid' _ _⟩
  simp only [Sems.semWait, hp]
  exact if_pos hpos

/-- Once a semaphore is created for one process while another is at an older one, two processes can
get between their wait and their post. -/
theorem Inv.exposed (hs : s.Inv) (hp : s.hold p = .out) (hname : s.name = none) (hne : q ≠ p)
    (hq : s.hold q ≠ .out) :
    ∃ t, (s.semOpen p).semWait p = some t ∧ t.hold p = .inside s.next ∧
      ((∃ r id, r ≠ p ∧ t.hold r = .inside id) ∨
        ∃ id u, t.semWait q = some u ∧ u.hold q = .inside id ∧ u.hold p = .inside s.next) := by
  have hopen : s.semOpen p = s.create.setHold p (.waiting s.next) := by
    simp only [Sems.semOpen, hname]
  rw [hopen]
  obtain ⟨t, ht, hentered, hothers, hvalues⟩ :=
    exists_semWait (s := s.create.setHold p (.waiting s.next)) (setHold_self _)
      (by simp [Sems.create])
  have hhold (r : Proc) (hr : r ≠ p) : t.hold r = s.hold r :=
    (hothers r hr).trans (setHold_of_ne _ hr)
  refine ⟨t, ht, hentered, ?_⟩
  cases hold : s.hold q with
  | out => exact (hq hold).elim
  | inside id => exact Or.inl ⟨q, id, hne, by rw [hhold q hne, hold]⟩
  | waiting id =>
    have hid := hs.known q id (Or.inl hold)
    rcases hs.one id hid with ⟨hvalue, -⟩ | ⟨-, r, hr, -⟩
    -- The older semaphore lets the other process pass as well.
    · have hpos : t.value id = 1 := by
        rw [hvalues id (Nat.ne_of_lt hid), ← hvalue]
        exact Function.update_of_ne (Nat.ne_of_lt hid) _ _
      obtain ⟨u, hu, hinside, hothers', -⟩ := exists_semWait ((hhold q hne).trans hold)
        (by rw [hpos]; exact Nat.one_pos)
      exact Or.inr ⟨id, u, hu, hinside, by rw [hothers' p hne.symm, hentered]⟩
    -- Or somebody has passed it.
    · have hrp : r ≠ p := by
        rintro rfl
        rw [hp] at hr
        cases hr
      exact Or.inl ⟨r, id, hrp, by rw [hhold r hrp, hr]⟩

end Sems

end NamedSemaphore
