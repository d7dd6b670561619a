import Mathlib.Data.List.Perm.Basic
import Mathlib.Logic.Function.Basic

/-! Thread-specific data: values under keys, and the destructors that the exit of a thread calls for
them in rounds. -/
namespace SpecificData

/-- A call of a destructor, with the state that it found. -/
structure Call (State : Type) where
  round : Nat
  key : Nat
  value : Nat
  state : State

/-- The values of a thread, where 0 is none, what else the destructors work on, and their calls. -/
structure Exit (State : Type) where
  value : Nat → Nat
  state : State
  calls : List (Call State)

variable {State : Type}
  (destructor : (key value : Nat) → (Nat → Nat) × State → (Nat → Nat) × State)

/-- The destructor of a key gets the value, which the key has no more. -/
def turn (round : Nat) (s : Exit State) (key : Nat) : Exit State :=
  if s.value key = 0 then s
  else
    let after := destructor key (s.value key) (Function.update s.value key 0, s.state)
    ⟨after.1, after.2, s.calls ++ [⟨round, key, s.value key, s.state⟩]⟩

/-- A round takes the keys in any order. -/
def turns (round : Nat) (s : Exit State) (order : List Nat) : Exit State :=
  order.foldl (turn destructor round) s

/-- The rounds go on as long as there are values, one round for each of the orders at most. -/
def rounds (round : Nat) (s : Exit State) : List (List Nat) → Exit State
  | [] => s
  | order :: orders =>
    if ∀ key ∈ order, s.value key = 0 then s
    else rounds (round + 1) (turns destructor round s order) orders

variable {destructor} {round : Nat} {s : Exit State} {order order' : List Nat}

theorem turns_cons (key : Nat) : turns destructor round s (key :: order) =
    turns destructor round (turn destructor round s key) order := rfl

theorem turns_append : turns destructor round s (order ++ order') =
    turns destructor round (turns destructor round s order) order' :=
  List.foldl_append

/-- What every turn of a round keeps, the round keeps. -/
theorem turns_invariant {I : Exit State → Prop} (hs : I s)
    (hturn : ∀ key ∈ order, ∀ t, I t → I (turn destructor round t key)) :
    I (turns destructor round s order) := by
  induction order generalizing s with
  | nil => exact hs
  | cons key rest ih =>
    obtain ⟨hkey, hrest⟩ := List.forall_mem_cons.mp hturn
    rw [turns_cons]
    exact ih (hkey s hs) hrest

/-- A round is made as long as a key has a value. -/
theorem rounds_cons {orders : List (List Nat)} {key : Nat} (hkey : key ∈ order)
    (hvalue : s.value key ≠ 0) : rounds destructor round s (order :: orders) =
      rounds destructor (round + 1) (turns destructor round s order) orders := by
  rw [rounds, if_neg fun hnone => hvalue (hnone key hkey)]

variable (destructor round s) in
/-- A key's turn in a round is between those of the keys in front of it and behind it. -/
theorem turns_split {key : Nat} (hkey : key ∈ order) (hnodup : order.Nodup) :
    ∃ ahead behind, order = ahead ++ key :: behind ∧ key ∉ ahead ∧ key ∉ behind ∧
      turns destructor round s order = turns destructor round
        (turn destructor round (turns destructor round s ahead) key) behind := by
  obtain ⟨ahead, behind, rfl⟩ := List.append_of_mem hkey
  obtain ⟨hnot, -⟩ := List.nodup_cons.mp (List.perm_middle.nodup_iff.mp hnodup)
  rw [List.mem_append, not_or] at hnot
  exact ⟨ahead, behind, rfl, hnot.1, hnot.2, by rw [turns_append, turns_cons]⟩

end SpecificData
