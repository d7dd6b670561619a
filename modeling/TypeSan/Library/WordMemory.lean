import Mathlib.Data.Nat.Basic
import Mathlib.Logic.Function.Basic

/-! A memory of 64-bit words, some of them not mapped, and blocks of stores into it. -/
namespace WordMemory

/-- The word at each address, where one is mapped. -/
abbrev Memory := Nat → Option Nat

/-- A store: its address and the word. -/
abbrev Store := Nat × Nat

def write (mem : Memory) (s : Store) : Memory := Function.update mem s.1 (some s.2)

/-- The memory after stores made one after another. -/
def writes (mem : Memory) (stores : List Store) : Memory := stores.foldl write mem

variable {mem : Memory} {stores : List Store} {address word : Nat}

@[simp] theorem writes_nil : writes mem [] = mem := rfl

@[simp] theorem writes_cons (s : Store) : writes mem (s :: stores) = writes (write mem s) stores :=
  rfl

theorem write_of_ne {s : Store} (h : address ≠ s.1) : write mem s address = mem address :=
  Function.update_of_ne h _ _

/-- A word that no store addresses keeps its value. -/
theorem writes_of_forall_ne (h : ∀ s ∈ stores, address ≠ s.1) :
    writes mem stores address = mem address := by
  induction stores generalizing mem with
  | nil => rfl
  | cons s rest ih =>
    rw [writes_cons, ih (fun r hr => h r (List.mem_cons_of_mem s hr))]
    exact write_of_ne (h s List.mem_cons_self)

/-- A word that is stored to holds the value stored, if all stores to it agree. -/
theorem writes_of_mem (h : (address, word) ∈ stores)
    (hagree : ∀ s ∈ stores, s.1 = address → s.2 = word) :
    writes mem stores address = some word := by
  induction stores generalizing mem with
  | nil => cases h
  | cons s rest ih =>
    rw [writes_cons]
    by_cases hrest : ∃ r ∈ rest, r.1 = address
    · obtain ⟨r, hr, hra⟩ := hrest
      have hrw : r = (address, word) := Prod.ext hra (hagree r (List.mem_cons_of_mem s hr) hra)
      exact ih (hrw ▸ hr) (fun r hr => hagree r (List.mem_cons_of_mem s hr))
    · simp only [not_exists, not_and] at hrest
      rw [writes_of_forall_ne (fun r hr hra => hrest r hr hra.symm)]
      rcases List.mem_cons.mp h with rfl | hmem
      · exact Function.update_self _ _ _
      · exact (hrest _ hmem rfl).elim

/-- Stores map no word away. -/
theorem isSome_writes (h : (mem address).isSome) : (writes mem stores address).isSome := by
  induction stores generalizing mem with
  | nil => exact h
  | cons s rest ih =>
    refine ih ?_
    by_cases hs : address = s.1
    · subst hs
      simp [write]
    · rwa [write_of_ne hs]

/-- The block of words at an address. -/
def Holds (mem : Memory) (address : Nat) (words : List Nat) : Prop :=
  ∀ (i : Nat) (hi : i < words.length), mem (address + 8 * i) = some words[i]

instance (words : List Nat) : Decidable (Holds mem address words) :=
  inferInstanceAs (Decidable (∀ (i : Nat) (hi : i < words.length),
    mem (address + 8 * i) = some words[i]))

theorem Holds.head {words : List Nat} (h : Holds mem address (word :: words)) :
    mem address = some word :=
  h 0 (by simp)

theorem Holds.tail {words : List Nat} (h : Holds mem address (word :: words)) :
    Holds mem (address + 8) words := by
  intro i hi
  have := h (i + 1) (by simpa using hi)
  rw [show address + 8 * (i + 1) = address + 8 + 8 * i by omega] at this
  simpa using this

/-- The first words of a block. -/
theorem Holds.left {words words' : List Nat} (h : Holds mem address (words ++ words')) :
    Holds mem address words := by
  intro i hi
  have hword := h i (by rw [List.length_append]; omega)
  rwa [List.getElem_append_left hi] at hword

/-! Less memory. -/

/-- The memory in which only these words are mapped. -/
def restrict (mem : Memory) (words : List Nat) : Memory :=
  fun address => if address ∈ words then mem address else none

/-- What is mapped in the one memory is mapped in the other, to the same word. -/
def Sub (mem mem' : Memory) : Prop :=
  ∀ address word, mem address = some word → mem' address = some word

theorem restrict_of_mem {words : List Nat} (h : address ∈ words) :
    restrict mem words address = mem address := if_pos h

theorem restrict_sub (mem : Memory) (words : List Nat) : Sub (restrict mem words) mem := by
  intro address word h
  by_cases hin : address ∈ words
  · rwa [restrict_of_mem hin] at h
  · rw [restrict, if_neg hin] at h
    cases h

/-- The addresses of a block of words. -/
def blockWords (address count : Nat) : List Nat :=
  (List.range count).map fun i => address + 8 * i

theorem Holds.restrict {words allowed : List Nat} (h : Holds mem address words)
    (hsub : blockWords address words.length ⊆ allowed) :
    Holds (restrict mem allowed) address words := by
  intro i hi
  rw [restrict_of_mem (hsub (List.mem_map.mpr ⟨i, List.mem_range.mpr hi, rfl⟩))]
  exact h i hi

end WordMemory
