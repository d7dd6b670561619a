import TypeSan.Library.ReflectedCrc
import TypeSan.Names

/-! The class hashes: how the table of `crc64c` is used, and names that cannot collide. -/
namespace TypeSan

open ReflectedCrc

/-! The table is a static variable, filled by the first call. -/

def crcSetUp (table : Nat → BitVec 64) : Nat → BitVec 64 :=
  if table 1 = 0 then
    fun byte => if byte ≤ 255 then crcTable (BitVec.ofNat 64 byte) else table byte
  else table

def crcLookups (table : Nat → BitVec 64) (crc : BitVec 64) : List UInt8 → BitVec 64
  | [] => crc
  | byte :: message =>
    if byte = 0 then crc
    else
      let index := (crc ^^^ byte.toBitVec.setWidth 64) &&& 0xFF#64
      crcLookups table ((crc >>> 8) ^^^ table index.toNat) message

/-- A call of `crc64c`: the hash, and the table as the call leaves it. -/
def crc64cCall (table : Nat → BitVec 64) (message : List UInt8) : BitVec 64 × (Nat → BitVec 64) :=
  let table := crcSetUp table
  (~~~ crcLookups table 0xFFFFFFFFFFFFFFFF#64 message, table)

/-- The hashes that one call after the other returns. -/
def crc64cCalls (table : Nat → BitVec 64) : List (List UInt8) → List (BitVec 64)
  | [] => []
  | message :: messages =>
    let (crc, table) := crc64cCall table message
    crc :: crc64cCalls table messages

def TableFilled (table : Nat → BitVec 64) : Prop :=
  ∀ byte ≤ 255, table byte = crcTable (BitVec.ofNat 64 byte)

theorem crcSetUp_filled {table : Nat → BitVec 64} (h : TableFilled table ∨ table 1 = 0) :
    TableFilled (crcSetUp table) := by
  intro byte hbyte
  rcases h with hfilled | hempty
  · have hone : table 1 ≠ 0 := by
      rw [hfilled 1 (by omega)]
      decide
    rw [crcSetUp, if_neg hone]
    exact hfilled byte hbyte
  · rw [crcSetUp, if_pos hempty]
    exact if_pos hbyte

theorem crcLookups_eq {table : Nat → BitVec 64} (h : TableFilled table) (crc : BitVec 64)
    (message : List UInt8) : crcLookups table crc message = crcLoop crc message := by
  induction message generalizing crc with
  | nil => rfl
  | cons byte message ih =>
    have hindex (index : BitVec 64) : (index &&& 0xFF#64).toNat ≤ 255 := by
      rw [BitVec.toNat_and]
      exact Nat.and_le_right
    rw [crcLookups, crcLoop]
    split
    · rfl
    · simp only [h _ (hindex _), BitVec.ofNat_toNat, BitVec.setWidth_eq, ih]

theorem crc64cCall_fst {table : Nat → BitVec 64} (h : TableFilled table ∨ table 1 = 0)
    (message : List UInt8) : (crc64cCall table message).1 = crc64c message := by
  simp only [crc64cCall, crc64c, crcLookups_eq (crcSetUp_filled h)]

/-- Whichever call fills the table, every call returns the hash of its string. -/
theorem crc64cCalls_eq {table : Nat → BitVec 64} (h : TableFilled table ∨ table 1 = 0)
    (messages : List (List UInt8)) : crc64cCalls table messages = messages.map crc64c := by
  induction messages generalizing table with
  | nil => rfl
  | cons message messages ih =>
    have hnext : TableFilled (crc64cCall table message).2 := crcSetUp_filled h
    simp only [crc64cCalls, List.map_cons, crc64cCall_fst h, ih (Or.inl hnext)]

/-! The hash as a remainder. -/

/-- The polynomial of `crc64c`. -/
def crcPolynomial : BitVec 64 := 0xC96C5795D7870F42#64

theorem crcPolynomial_msb : crcPolynomial.msb = true := by decide

/-- The iteration of the loop of `crc64c` for one byte, with the table. -/
def crcUpdate (crc : BitVec 64) (byte : UInt8) : BitVec 64 :=
  (crc >>> 8) ^^^ crcTable ((crc ^^^ byte.toBitVec.setWidth 64) &&& 0xFF#64)

/-- The bytes of two strings differ only at positions from `start` on, below `start + length`. -/
def DifferWithin (start length : Nat) (str str' : List UInt8) : Prop :=
  ∀ i, str[i]? ≠ str'[i]? → start ≤ i ∧ i < start + length

theorem crcStep_eq_step : crcStep = step crcPolynomial := by
  funext crc
  rw [crcStep, step, crcPolynomial, BitVec.and_one_eq_setWidth_ofBool_getLsbD]
  cases crc.getLsbD 0 <;> simp

theorem crcTable_eq_steps (crc : BitVec 64) : crcTable crc = (step crcPolynomial)^[8] crc := by
  rw [crcTable, crcStep_eq_step]
  rfl

theorem and_0xFF (crc : BitVec 64) : crc &&& 0xFF#64 = (crc.setWidth 8).setWidth 64 := by
  apply BitVec.eq_of_toNat_eq
  have hlow : crc.toNat % 2 ^ 8 < 2 ^ 64 := by omega
  rw [BitVec.toNat_and, BitVec.toNat_setWidth, BitVec.toNat_setWidth, Nat.mod_eq_of_lt hlow]
  exact Nat.and_two_pow_sub_one_eq_mod crc.toNat 8

/-- The table gives in one lookup what the division takes eight steps for. -/
theorem crcUpdate_eq_feed (crc : BitVec 64) (byte : UInt8) :
    crcUpdate crc byte = feed crcPolynomial crc byte.toBitVec := by
  rw [crcUpdate, feed_eq_table, crcTable_eq_steps, and_0xFF]

theorem crcLoop_cons {byte : UInt8} (hbyte : byte ≠ 0) (crc : BitVec 64) (message : List UInt8) :
    crcLoop crc (byte :: message) = crcLoop (crcUpdate crc byte) message :=
  if_neg hbyte

theorem crcLoop_eq_run {message : List UInt8} (hnul : 0 ∉ message) (crc : BitVec 64) :
    crcLoop crc message = run crcPolynomial crc (message.map UInt8.toBitVec) := by
  induction message generalizing crc with
  | nil => rfl
  | cons byte message ih =>
    rw [List.mem_cons, not_or] at hnul
    rw [crcLoop_cons (Ne.symm hnul.1), ih hnul.2, crcUpdate_eq_feed, List.map_cons, run, run,
      List.foldl_cons]

/-- Strings that differ, and only within eight bytes, have different hashes. -/
theorem crc64c_ne_of_window {message message' : List UInt8} {start : Nat} (hnul : 0 ∉ message)
    (hnul' : 0 ∉ message') (hlen : message.length = message'.length) (hne : message ≠ message')
    (hwin : DifferWithin start 8 message message') : crc64c message ≠ crc64c message' := by
  have hbytes : message.map UInt8.toBitVec ≠ message'.map UInt8.toBitVec := by
    intro h
    exact hne (List.map_injective_iff.mpr (fun _ _ => UInt8.toBitVec_inj.mp) h)
  have hlen' : (message.map UInt8.toBitVec).length = (message'.map UInt8.toBitVec).length := by
    rw [List.length_map, List.length_map, hlen]
  have hagree : ∀ i, i < start ∨ start + 8 ≤ i →
      (message.map UInt8.toBitVec)[i]? = (message'.map UInt8.toBitVec)[i]? := by
    intro i hi
    rw [List.getElem?_map, List.getElem?_map]
    by_cases heq : message[i]? = message'[i]?
    · rw [heq]
    · have := hwin i heq
      omega
  intro hcrc
  have hrun := BitVec.not_inj.mp hcrc
  rw [crcLoop_eq_run hnul, crcLoop_eq_run hnul'] at hrun
  -- eight bytes have as many bits as the state
  exact run_ne_of_window crcPolynomial_msb (Nat.le_refl _) hlen' hbytes hagree hrun

/-- Names that differ locally do not collide, and the lookup in the table that this rests on is
eight steps of the division for each state and byte. -/
theorem crc64c_local_injective :
    (∀ (crc : BitVec 64) (byte : UInt8), crcUpdate crc byte =
      (step crcPolynomial)^[8] (crc ^^^ byte.toBitVec.setWidth 64)) ∧
    ∀ (message message' : List UInt8) (start : Nat), 0 ∉ message → 0 ∉ message' →
      message.length = message'.length → message ≠ message' →
      DifferWithin start 8 message message' → crc64c message ≠ crc64c message' :=
  ⟨crcUpdate_eq_feed, fun _ _ _ => crc64c_ne_of_window⟩

/-- The names `TA1_` and `TB2_`. -/
theorem crc64c_local_injective_pair :
    crc64c [0x54, 0x41, 0x31, 0x5F] ≠ crc64c [0x54, 0x42, 0x32, 0x5F] := by
  apply crc64c_local_injective.2 _ _ 1 (by decide) (by decide) (by decide) (by decide)
  intro i hi
  match i with
  | 0 => exact (hi rfl).elim
  | 1 | 2 => decide
  | 3 => exact (hi rfl).elim
  | i + 4 => exact (hi rfl).elim

/-- In nine bytes there is room for the polynomial. -/
example : crc64c [0x81, 0x41, 0x41, 0x81, 0x41, 0x81, 0x81, 0x81, 0x41] =
    crc64c [0x04, 0x5F, 0x4F, 0x2E, 0x6A, 0x2E, 0x59, 0x13, 0x40] := by decide

/-- The name of a struct type, as it goes into the hash. -/
def StructType.hashedName (type : StructType) : List UInt8 :=
  removeUselessStr (bytes (type.name.getD "trackedtype._"))

/-- Classes with names that differ locally have hash codes of their own. -/
theorem getHashCodeFromStruct_ne {type type' : StructType} {start : Nat}
    (hnul : 0 ∉ type.hashedName) (hnul' : 0 ∉ type'.hashedName)
    (hlen : type.hashedName.length = type'.hashedName.length)
    (hne : type.hashedName ≠ type'.hashedName)
    (hwin : DifferWithin start 8 type.hashedName type'.hashedName) :
    getHashCodeFromStruct type ≠ getHashCodeFromStruct type' := by
  intro h
  exact crc64c_ne_of_window hnul hnul' hlen hne hwin (BitVec.eq_of_toNat_eq h)

end TypeSan
