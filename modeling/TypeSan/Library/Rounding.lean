import Mathlib.Algebra.Order.Floor.Div
import Mathlib.Data.Nat.Bitwise
import Mathlib.Tactic.Ring

/-! Rounding up to a multiple, and positions counted in power-of-two granules. -/
namespace Rounding

/-- The least multiple of `align` that is not below `value`. -/
def alignTo (value align : Nat) : Nat := (value + align - 1) / align * align

variable {value align n a : Nat}

theorem dvd_alignTo (value align : Nat) : align ∣ alignTo value align :=
  Dvd.intro_left _ rfl

theorem le_alignTo (h : 0 < align) : value ≤ alignTo value align := by
  have hd := Nat.div_add_mod (value + align - 1) align
  have hm := Nat.mod_lt (value + align - 1) h
  unfold alignTo
  rw [Nat.mul_comm]
  omega

theorem alignTo_of_dvd (h : 0 < align) (hv : align ∣ value) : alignTo value align = value := by
  obtain ⟨c, rfl⟩ := hv
  unfold alignTo
  have hq : (align * c + align - 1) / align = c := by
    rw [show align * c + align - 1 = (align - 1) + align * c by omega,
      Nat.add_mul_div_left _ _ h, Nat.div_eq_of_lt (by omega), Nat.zero_add]
  rw [hq, Nat.mul_comm]

/-- The number of granules of `2 ^ a` bytes that `n` bytes need. -/
def granules (n a : Nat) : Nat := (n + (2 ^ a - 1)) / 2 ^ a

theorem granules_pos (h : 0 < n) : 0 < granules n a := by
  have ha := Nat.two_pow_pos a
  exact Nat.div_pos (by omega) ha

theorem granules_le (n a : Nat) : granules n a ≤ n := by
  have ha := Nat.two_pow_pos a
  have hn : n ≤ n * 2 ^ a := Nat.le_mul_of_pos_right n ha
  have hlt : (n + (2 ^ a - 1)) / 2 ^ a < n + 1 := by
    rw [Nat.div_lt_iff_lt_mul ha, Nat.add_mul, Nat.one_mul]
    omega
  exact Nat.le_of_lt_succ hlt

theorem le_granules_mul (n a : Nat) : n ≤ granules n a * 2 ^ a := by
  have ha := Nat.two_pow_pos a
  have hd := Nat.div_add_mod (n + (2 ^ a - 1)) (2 ^ a)
  have hm := Nat.mod_lt (n + (2 ^ a - 1)) ha
  unfold granules
  rw [Nat.mul_comm]
  omega

/-- A byte of an `n`-byte object lies in one of its granules. -/
theorem div_lt_granules {x : Nat} (h : x < n) : x / 2 ^ a < granules n a := by
  have ha := Nat.two_pow_pos a
  rw [Nat.div_lt_iff_lt_mul ha]
  exact Nat.lt_of_lt_of_le h (le_granules_mul n a)

/-- A granule of an `n`-byte object starts before the object ends. -/
theorem granule_start_lt {j : Nat} (h : j < granules n a) : j * 2 ^ a < n := by
  have ha := Nat.two_pow_pos a
  have hj : j + 1 ≤ (n + (2 ^ a - 1)) / 2 ^ a := h
  rw [Nat.le_div_iff_mul_le ha, Nat.add_mul] at hj
  omega

theorem granules_mono {m : Nat} (h : m ≤ n) : granules m a ≤ granules n a :=
  Nat.div_le_div_right (by omega)

/-- A granule number splits at a page boundary, whether a page holds several granules or a
granule several pages. -/
theorem granule_split_page (i r s : Nat) (hr : r < 2 ^ s) :
    (i * 2 ^ s) / 2 ^ a + r / 2 ^ a = (i * 2 ^ s + r) / 2 ^ a := by
  rcases Nat.le_total a s with h | h
  · obtain ⟨d, rfl⟩ := Nat.exists_eq_add_of_le h
    have ha := Nat.two_pow_pos a
    rw [show i * 2 ^ (a + d) = 2 ^ a * (i * 2 ^ d) by rw [Nat.pow_add]; ring,
      Nat.mul_div_cancel_left _ ha, Nat.mul_add_div ha]
  · obtain ⟨d, rfl⟩ := Nat.exists_eq_add_of_le h
    have hs := Nat.two_pow_pos s
    have hr0 : r / 2 ^ (s + d) = 0 :=
      Nat.div_eq_of_lt (Nat.lt_of_lt_of_le hr (Nat.pow_le_pow_right (by omega) h))
    rw [hr0, Nat.add_zero, Nat.pow_add, ← Nat.div_div_eq_div_mul, ← Nat.div_div_eq_div_mul,
      Nat.mul_div_cancel _ hs, Nat.mul_comm i, Nat.mul_add_div hs, Nat.div_eq_of_lt hr,
      Nat.add_zero]

end Rounding
