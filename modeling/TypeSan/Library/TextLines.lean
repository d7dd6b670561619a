import Mathlib.Data.List.TakeWhile
import Mathlib.Data.UInt

/-! Text that is written and read line by line, and the numbers in it, as the standard library of
C++ does. -/
namespace TextLines

/-- A stream of characters: what is left of it, and its error bits. -/
structure Input where
  rest : List Char
  eof : Bool
  fail : Bool
  deriving DecidableEq

/-- A stream that is opened, or in which nothing has gone wrong. -/
def Input.of (text : List Char) : Input := ⟨text, false, false⟩

def Input.good (is : Input) : Bool := !is.eof && !is.fail

/-- The character is not the end of a line. -/
def inLine (c : Char) : Bool := c != '\n'

/-- `std::getline`. The line stays as it was where the stream is not good. -/
def getline (is : Input) (line : List Char) : Input × List Char :=
  if is.good then
    match is.rest.dropWhile inLine with
    | [] => (⟨[], true, is.rest.isEmpty⟩, is.rest)
    | _ :: rest => (.of rest, is.rest.takeWhile inLine)
  else ({ is with fail := true }, line)

/-- `<<` and `std::endl`. -/
def endl (line : List Char) : List Char := line ++ ['\n']

inductive StoulError where
  | invalid_argument | out_of_range
  deriving DecidableEq

def isSpace (c : Char) : Bool := c = ' ' || (9 ≤ c.toNat && c.toNat ≤ 13)

/-- The digits in front, behind white space and a sign, and whether the sign is a minus. -/
def digitsOf (text : List Char) : Bool × List Char :=
  match text.dropWhile isSpace with
  | '-' :: rest => (true, rest.takeWhile Char.isDigit)
  | '+' :: rest => (false, rest.takeWhile Char.isDigit)
  | rest => (false, rest.takeWhile Char.isDigit)

/-- `std::stoul`, where a `long` has 64 bits. -/
def stoul (text : List Char) : Except StoulError UInt64 :=
  let (negative, digits) := digitsOf text
  let value := Nat.ofDigitChars 10 digits 0
  if digits = [] then .error .invalid_argument
  else if 2 ^ 64 ≤ value then .error .out_of_range
  else .ok (if negative then -UInt64.ofNat value else UInt64.ofNat value)

/-- `<<` of a number. -/
def decimal (n : UInt64) : List Char := Nat.toDigits 10 n.toNat

/-- A character is written at its place in a file, and zeros where the file does not get there. -/
def putAt (text : List Char) (offset : Nat) (c : Char) : List Char :=
  text.take offset ++ List.replicate (offset - text.length) '\x00' ++ c :: text.drop (offset + 1)

variable {is : Input} {line text rest : List Char} {c : Char}

/-! Lines. -/

@[simp] theorem good_of : (Input.of text).good = true := rfl

theorem inLine_of_notMem (h : '\n' ∉ text) : ∀ c ∈ text, inLine c = true := fun _ hc =>
  bne_iff_ne.mpr fun heq => h (heq ▸ hc)

theorem newline_notMem_takeWhile : '\n' ∉ text.takeWhile inLine := by
  intro hmem
  have hline : inLine '\n' = true := List.mem_takeWhile_imp hmem
  cases hline

/-- A line that ends is read as a whole. -/
theorem getline_endl (h : '\n' ∉ text) :
    getline (.of (endl text ++ rest)) line = (.of rest, text) := by
  have hline := inLine_of_notMem h
  have hdrop : (endl text ++ rest).dropWhile inLine = '\n' :: rest := by
    rw [endl, List.append_assoc, List.dropWhile_append_of_pos hline]
    rfl
  have htake : (endl text ++ rest).takeWhile inLine = text := by
    rw [endl, List.append_assoc, List.takeWhile_append_of_pos hline]
    exact List.append_nil text
  simp only [getline, Input.of, Input.good, Bool.not_false, Bool.and_self, if_true, hdrop, htake]

/-- No line holds the end of a line. -/
theorem newline_notMem_getline (is : Input) (h : '\n' ∉ line) :
    '\n' ∉ (getline is line).2 := by
  rw [getline]
  split
  · split
    · rename_i hdrop
      intro hmem
      cases List.dropWhile_eq_nil_iff.mp hdrop _ hmem
    · exact newline_notMem_takeWhile
  · exact h

/-- A text that is written from its start on grows to its end. -/
theorem putAt_take {offset : Nat} (h : text[offset]? = some c) :
    putAt (text.take offset) offset c = text.take (offset + 1) := by
  obtain ⟨hlt, rfl⟩ := List.getElem?_eq_some_iff.mp h
  have hlength : (text.take offset).length = offset := List.length_take_of_le (Nat.le_of_lt hlt)
  have hdrop : (text.take offset).drop (offset + 1) = [] := List.drop_eq_nil_of_le (by omega)
  rw [putAt, hlength, Nat.sub_self, hdrop, List.take_take, Nat.min_self,
    List.take_succ_eq_append_getElem hlt]
  simp

/-! Numbers. -/

theorem not_isSpace_of_isDigit (h : c.isDigit = true) : isSpace c = false := by
  simp only [Char.isDigit, Bool.and_eq_true, decide_eq_true_eq, UInt32.le_iff_toNat_le] at h
  have hlo : 48 ≤ c.toNat := h.1
  have hspace : c ≠ ' ' := by
    rintro rfl
    simp at hlo
  simp only [isSpace, Bool.or_eq_false_iff, decide_eq_false_iff_not, Bool.and_eq_false_iff]
  exact ⟨hspace, Or.inr (by omega)⟩

/-- Digits are read up to their end. -/
theorem digitsOf_digits (hne : text ≠ []) (h : ∀ c ∈ text, c.isDigit = true) :
    digitsOf text = (false, text) := by
  obtain ⟨c, rest, rfl⟩ := List.exists_cons_of_ne_nil hne
  have hc := h c List.mem_cons_self
  have hdrop : (c :: rest).dropWhile isSpace = c :: rest :=
    List.dropWhile_cons_of_neg (by simp [not_isSpace_of_isDigit hc])
  have htake : (c :: rest).takeWhile Char.isDigit = c :: rest := List.takeWhile_eq_self_iff.mpr h
  rw [digitsOf, hdrop]
  split
  · rename_i heq
    obtain ⟨rfl, -⟩ := List.cons.inj heq
    simp at hc
  · rename_i heq
    obtain ⟨rfl, -⟩ := List.cons.inj heq
    simp at hc
  · rw [htake]

/-- A number that is written is read. -/
theorem stoul_decimal (n : UInt64) : stoul (decimal n) = .ok n := by
  have hdigits : digitsOf (decimal n) = (false, decimal n) :=
    digitsOf_digits Nat.toDigits_ne_nil fun c hc =>
      Nat.isDigit_of_mem_toDigits (by decide) (by decide) hc
  have hvalue : Nat.ofDigitChars 10 (decimal n) 0 = n.toNat := Nat.ofDigitChars_ten_toDigits
  have hlt : ¬ 2 ^ 64 ≤ n.toNat := Nat.not_le.mpr n.toNat_lt
  have hne : decimal n ≠ [] := Nat.toDigits_ne_nil
  simp only [stoul, hdigits, hvalue, if_neg hne, if_neg hlt, Bool.false_eq_true, if_false,
    UInt64.ofNat_toNat]

/-- No number holds the end of a line. -/
theorem newline_notMem_decimal (n : UInt64) : '\n' ∉ decimal n := by
  intro hmem
  have hdigit := Nat.isDigit_of_mem_toDigits (by decide) (by decide) hmem
  simp at hdigit

end TextLines
