import Mathlib.Logic.Function.Iterate

/-! The cyclic redundancy check with reflected bits, for symbols of any width. -/
namespace ReflectedCrc

variable {w k : Nat}

/-- One step of the division: the lowest bit leaves the state and adds the polynomial if it is
set. -/
def step (poly crc : BitVec w) : BitVec w :=
  if crc.getLsbD 0 then (crc >>> 1) ^^^ poly else crc >>> 1

/-- A symbol is added to the low end of the state, and leaves it in as many steps as it has
bits. -/
def feed (poly crc : BitVec w) (symbol : BitVec k) : BitVec w :=
  (step poly)^[k] (crc ^^^ symbol.setWidth w)

/-- The state after the symbols of a message. -/
def run (poly crc : BitVec w) (message : List (BitVec k)) : BitVec w :=
  message.foldl (feed poly) crc

/-- A message as one number, its first symbol lowest. -/
def word (w : Nat) : List (BitVec k) → BitVec w
  | [] => 0#w
  | symbol :: message => symbol.setWidth w ^^^ (word w message <<< k)

variable {poly crc : BitVec w} {symbol : BitVec k} {message message' : List (BitVec k)}

theorem run_append : run poly crc (message ++ message') =
    run poly (run poly crc message) message' :=
  List.foldl_append

theorem getLsbD_step {i : Nat} (hi : i < w) : (step poly crc).getLsbD i =
    (crc.getLsbD (1 + i) ^^ (crc.getLsbD 0 && poly.getLsbD i)) := by
  unfold step
  split <;> simp_all

/-! The steps are linear. -/

theorem step_xor (a b : BitVec w) : step poly (a ^^^ b) = step poly a ^^^ step poly b := by
  apply BitVec.eq_of_getLsbD_eq
  intro i hi
  simp only [BitVec.getLsbD_xor, getLsbD_step hi, Bool.and_xor_distrib_right, Bool.xor_assoc,
    Bool.xor_left_comm]

theorem steps_xor (n : Nat) (a b : BitVec w) :
    (step poly)^[n] (a ^^^ b) = (step poly)^[n] a ^^^ (step poly)^[n] b :=
  Function.Semiconj₂.iterate step_xor n a b

/-- Steps in which only zeros leave the state move it down. -/
theorem steps_of_low_zero {n : Nat} (h : ∀ i < n, crc.getLsbD i = false) :
    (step poly)^[n] crc = crc >>> n := by
  induction n with
  | zero => simp
  | succ n ih =>
    have hlow : (crc >>> n).getLsbD 0 = false := by
      rw [BitVec.getLsbD_ushiftRight]
      exact h n (Nat.lt_succ_self n)
    rw [Function.iterate_succ_apply', ih fun i hi => h i (by omega), step, hlow,
      BitVec.shiftRight_add]
    simp

/-- A number is its `k` lowest bits and the rest of it. -/
theorem low_xor_high (k : Nat) (a : BitVec w) :
    a = ((a >>> k) <<< k) ^^^ (a.setWidth k).setWidth w := by
  apply BitVec.eq_of_getLsbD_eq
  intro i hi
  by_cases hik : i < k
  · simp [hi, hik]
  · simp [hi, hik, Nat.add_sub_cancel' (Nat.le_of_not_lt hik)]

theorem setWidth_ushiftRight_self (w : Nat) (symbol : BitVec k) :
    (symbol.setWidth w) >>> k = 0#w := by
  apply BitVec.eq_of_getLsbD_eq
  intro i hi
  simp

/-- Moving up loses nothing of a number whose highest `k` bits are zero. -/
theorem shiftLeft_ushiftRight_self (h : ∀ i, w ≤ k + i → crc.getLsbD i = false) :
    (crc <<< k) >>> k = crc := by
  apply BitVec.eq_of_getLsbD_eq
  intro i hi
  rw [BitVec.getLsbD_ushiftRight, BitVec.getLsbD_shiftLeft, Nat.add_sub_cancel_left]
  by_cases hik : k + i < w
  · simp [hik]
  · simp [hik, h i (by omega)]

theorem steps_shiftLeft (h : ∀ i, w ≤ k + i → crc.getLsbD i = false) :
    (step poly)^[k] (crc <<< k) = crc := by
  rw [steps_of_low_zero fun i hi => by simp [hi], shiftLeft_ushiftRight_self h]

/-- A symbol at a time from a table: the table has the steps of every symbol, and is looked up at
the low end of the state. The rest of the state moves down. -/
theorem feed_eq_table : feed poly crc symbol =
    (crc >>> k) ^^^ (step poly)^[k] (((crc ^^^ symbol.setWidth w).setWidth k).setWidth w) := by
  have hhigh : (crc ^^^ symbol.setWidth w) >>> k = crc >>> k := by
    rw [BitVec.ushiftRight_xor_distrib, setWidth_ushiftRight_self, BitVec.xor_zero]
  have hmove : (step poly)^[k] ((crc >>> k) <<< k) = crc >>> k :=
    steps_shiftLeft fun i hi => by rw [BitVec.getLsbD_ushiftRight, BitVec.getLsbD_of_ge _ _ hi]
  calc feed poly crc symbol
      = (step poly)^[k] (((crc ^^^ symbol.setWidth w) >>> k) <<< k ^^^
          ((crc ^^^ symbol.setWidth w).setWidth k).setWidth w) := by
        rw [← low_xor_high k (crc ^^^ symbol.setWidth w), feed]
    _ = _ := by rw [steps_xor, hhigh, hmove]

/-! A polynomial with its highest bit set: no two states become one. -/

section Injective

variable (hpoly : poly.msb = true)
include hpoly

theorem step_eq_zero (h : step poly crc = 0#w) : crc = 0#w := by
  rw [BitVec.msb_eq_getLsbD_last] at hpoly
  have hw : w - 1 < w := BitVec.lt_of_getLsbD hpoly
  have hbit : ∀ i < w, (crc.getLsbD (1 + i) ^^ (crc.getLsbD 0 && poly.getLsbD i)) = false := by
    intro i hi
    rw [← getLsbD_step hi, h]
    exact BitVec.getLsbD_zero
  -- no bit of the state comes to the highest place, so that the lowest one is read off there
  have hlow : crc.getLsbD 0 = false := by
    have htop := hbit (w - 1) (by omega)
    rw [BitVec.getLsbD_of_ge crc (1 + (w - 1)) (by omega)] at htop
    simpa [hpoly] using htop
  apply BitVec.eq_of_getLsbD_eq
  intro i hi
  rw [BitVec.getLsbD_zero]
  cases i with
  | zero => exact hlow
  | succ i =>
    have hnext := hbit i (by omega)
    rw [hlow, Bool.false_and, Bool.xor_false, Nat.add_comm] at hnext
    exact hnext

theorem step_injective : Function.Injective (step poly) := by
  intro a b hab
  have hzero : step poly (a ^^^ b) = 0#w := by
    rw [step_xor, hab]
    exact BitVec.xor_self
  exact BitVec.xor_eq_zero_iff.mp (step_eq_zero hpoly hzero)

theorem feed_injective (symbol : BitVec k) : Function.Injective (feed poly · symbol) := by
  intro a b hab
  exact (BitVec.xor_left_inj _).mp ((step_injective hpoly).iterate k hab)

theorem run_injective (message : List (BitVec k)) : Function.Injective (run poly · message) := by
  induction message with
  | nil => exact Function.injective_id
  | cons symbol message ih => exact ih.comp (feed_injective hpoly symbol)

end Injective

/-! A message that is not longer than the state. -/

theorem getLsbD_word {i : Nat} (h : k * message.length ≤ i) :
    (word w message).getLsbD i = false := by
  induction message generalizing i with
  | nil => simp [word]
  | cons symbol message ih =>
    rw [List.length_cons, Nat.mul_add, Nat.mul_one] at h
    simp [word, ih (i := i - k) (by omega), BitVec.getLsbD_of_ge symbol i (by omega)]

theorem word_cons_ushiftRight (hfit : k * (message.length + 1) ≤ w) :
    word w (symbol :: message) >>> k = word w message := by
  rw [Nat.mul_add, Nat.mul_one] at hfit
  rw [word, BitVec.ushiftRight_xor_distrib, setWidth_ushiftRight_self, BitVec.zero_xor,
    shiftLeft_ushiftRight_self fun i hi => getLsbD_word (by omega)]

theorem word_injective (hlen : message.length = message'.length)
    (hfit : k * message.length ≤ w) (h : word w message = word w message') :
    message = message' := by
  induction message generalizing message' with
  | nil => exact (List.length_eq_zero_iff.mp hlen.symm).symm
  | cons symbol message ih =>
    cases message' with
    | nil => cases hlen
    | cons symbol' message' =>
      simp only [List.length_cons, Nat.add_right_cancel_iff] at hlen hfit
      have htail : word w message = word w message' := by
        rw [← word_cons_ushiftRight hfit, h, word_cons_ushiftRight (hlen ▸ hfit)]
      have hhead : symbol.setWidth w = symbol'.setWidth w := by
        rw [word, word, htail] at h
        exact (BitVec.xor_left_inj _).mp h
      rw [Nat.mul_add, Nat.mul_one] at hfit
      have hsymbol := congrArg (BitVec.setWidth k) hhead
      rw [BitVec.setWidth_setWidth_of_le _ (by omega), BitVec.setWidth_setWidth_of_le _ (by omega),
        BitVec.setWidth_eq, BitVec.setWidth_eq] at hsymbol
      rw [hsymbol, ih hlen (by omega) htail]

/-- The message is added to the state at once: what comes later in it waits until the steps have
moved it down. -/
theorem run_eq_steps (hfit : k * message.length ≤ w) :
    run poly crc message = (step poly)^[k * message.length] (crc ^^^ word w message) := by
  induction message generalizing crc with
  | nil => simp [run, word]
  | cons symbol message ih =>
    rw [List.length_cons, Nat.mul_add, Nat.mul_one] at hfit ⊢
    have hmove : (step poly)^[k] (word w message <<< k) = word w message :=
      steps_shiftLeft fun i hi => getLsbD_word (by omega)
    have hstate : feed poly crc symbol ^^^ word w message =
        (step poly)^[k] (crc ^^^ word w (symbol :: message)) := by
      rw [word, ← BitVec.xor_assoc, steps_xor, hmove, feed]
    calc run poly crc (symbol :: message)
        = run poly (feed poly crc symbol) message := rfl
      _ = (step poly)^[k * message.length] (feed poly crc symbol ^^^ word w message) :=
          ih (by omega)
      _ = (step poly)^[k * message.length + k] (crc ^^^ word w (symbol :: message)) := by
          rw [hstate, ← Function.iterate_add_apply]

theorem run_ne_of_part_ne (hpoly : poly.msb = true) {before after : List (BitVec k)}
    (hlen : message.length = message'.length) (hfit : k * message.length ≤ w)
    (hne : message ≠ message') :
    run poly crc (before ++ message ++ after) ≠ run poly crc (before ++ message' ++ after) := by
  intro h
  simp only [run_append] at h
  have hpart := run_injective hpoly after h
  have hfit' : k * message'.length ≤ w := hlen ▸ hfit
  rw [run_eq_steps hfit, run_eq_steps hfit', hlen] at hpart
  have hword := (step_injective hpoly).iterate _ hpart
  exact hne (word_injective hlen hfit ((BitVec.xor_right_inj _).mp hword))

/-- Messages that differ, and only within a window that is not longer than the state, have
different remainders. -/
theorem run_ne_of_window (hpoly : poly.msb = true) {start n : Nat} (hfit : k * n ≤ w)
    (hlen : message.length = message'.length) (hne : message ≠ message')
    (hagree : ∀ i, i < start ∨ start + n ≤ i → message[i]? = message'[i]?) :
    run poly crc message ≠ run poly crc message' := by
  have hsplit (l : List (BitVec k)) :
      l = l.take start ++ (l.drop start).take n ++ l.drop (start + n) := by
    rw [List.append_assoc, ← List.drop_drop, List.take_append_drop, List.take_append_drop]
  have hbefore : message.take start = message'.take start := by
    apply List.ext_getElem?
    intro i
    rw [List.getElem?_take, List.getElem?_take]
    split
    · exact hagree i (Or.inl ‹_›)
    · rfl
  have hafter : message.drop (start + n) = message'.drop (start + n) := by
    apply List.ext_getElem?
    intro i
    rw [List.getElem?_drop, List.getElem?_drop]
    exact hagree _ (Or.inr (Nat.le_add_right _ _))
  have hpart : (message.drop start).take n ≠ (message'.drop start).take n := by
    intro hpart
    apply hne
    rw [hsplit message, hsplit message', hbefore, hpart, hafter]
  rw [hsplit message, hsplit message', hbefore, hafter]
  apply run_ne_of_part_ne hpoly _ _ hpart
  · simp [hlen]
  · have hle : ((message.drop start).take n).length ≤ n := List.length_take_le _ _
    exact Nat.le_trans (Nat.mul_le_mul_left k hle) hfit

end ReflectedCrc
