import Mathlib.Tactic.Common
import Mathlib.Data.Nat.Bitwise
import Mathlib.Data.Nat.Log

/-!
# Rounding to a number of bits

A binary floating-point format with `bits` bits of precision has the numbers `c * 2 ^ t` with
`c ≤ 2 ^ bits`. Every operation on it is the mathematical one followed by rounding to the
nearest of them, and to the even one of two that are equally near. Where no exponent is out of
range, a number with a fraction is rounded as the natural number that it is a power of two away
from.

## Main definitions

- `Round.divPow` — division by a power of two, to the nearest number
- `Round.toBits` — rounding to a number of bits

## Main results

- `Round.toBits_of_lt` — a number of at most that many bits is not changed
- `Round.toBits_le`, `Round.le_toBits` — rounding does not pass a number of the format
- `Round.toBits_near` — how far rounding goes
-/

namespace Round

/-- `m / 2 ^ s` to the nearest number, and to the even one of two. -/
def divPow (m s : ℕ) : ℕ :=
  if 2 * (m % 2 ^ s) < 2 ^ s ∨ (2 * (m % 2 ^ s) = 2 ^ s ∧ m / 2 ^ s % 2 = 0) then m / 2 ^ s
  else m / 2 ^ s + 1

/-- `m` to the nearest number with `bits` bits of precision. -/
def toBits (bits m : ℕ) : ℕ := divPow m (m.log2 + 1 - bits) * 2 ^ (m.log2 + 1 - bits)

variable {bits c m s t : ℕ}

theorem divPow_bounds (m s : ℕ) : m / 2 ^ s ≤ divPow m s ∧ divPow m s ≤ m / 2 ^ s + 1 := by
  unfold divPow
  split <;> omega

/-- The nearest number is at most half a unit away. -/
theorem divPow_near (m s : ℕ) :
    2 * (divPow m s * 2 ^ s) ≤ 2 * m + 2 ^ s ∧ 2 * m ≤ 2 * (divPow m s * 2 ^ s) + 2 ^ s := by
  have hm : m / 2 ^ s * 2 ^ s + m % 2 ^ s = m := by
    rw [Nat.mul_comm]
    exact Nat.div_add_mod m (2 ^ s)
  have hr : m % 2 ^ s < 2 ^ s := Nat.mod_lt _ (Nat.two_pow_pos s)
  unfold divPow
  split
  · omega
  · rw [Nat.add_mul, Nat.one_mul]
    omega

/-- Division passes no multiple of the divisor. -/
theorem divPow_le (h : m ≤ c * 2 ^ s) : divPow m s ≤ c := by
  have hm : m / 2 ^ s * 2 ^ s + m % 2 ^ s = m := by
    rw [Nat.mul_comm]
    exact Nat.div_add_mod m (2 ^ s)
  have hle : m / 2 ^ s ≤ c := Nat.div_le_of_le_mul (by rwa [Nat.mul_comm])
  rcases Nat.lt_or_eq_of_le hle with hlt | heq
  · exact le_trans (divPow_bounds m s).2 hlt
  · have hzero : m % 2 ^ s = 0 := by
      rw [heq] at hm
      omega
    rw [divPow, hzero, if_pos (Or.inl (Nat.two_pow_pos s))]
    exact hle

theorem le_divPow (h : c * 2 ^ s ≤ m) : c ≤ divPow m s :=
  le_trans ((Nat.le_div_iff_mul_le (Nat.two_pow_pos s)).mpr h) (divPow_bounds m s).1

/-- A number of at most `bits` bits is not changed. -/
theorem toBits_of_lt (hbits : 0 < bits) (h : m < 2 ^ bits) : toBits bits m = m := by
  have hlog : m.log2 + 1 - bits = 0 := by
    rcases Nat.eq_zero_or_pos m with rfl | hpos
    · rw [Nat.log2_zero]
      omega
    · have hlt := (Nat.log2_lt (Nat.pos_iff_ne_zero.mp hpos)).mpr h
      omega
  have hle := divPow_le (m := m) (c := m) (s := 0) (by simp)
  have hge := le_divPow (m := m) (c := m) (s := 0) (by simp)
  rw [toBits, hlog]
  simp only [Nat.pow_zero, Nat.mul_one]
  omega

/-- A number of more bits is rounded to a multiple of a power of two. -/
theorem two_pow_le (h : 2 ^ bits ≤ m) (hbits : 0 < bits) :
    ∃ s, 0 < s ∧ toBits bits m = divPow m s * 2 ^ s ∧ 2 ^ (bits - 1 + s) ≤ m ∧
      m < 2 ^ (bits + s) := by
  have hm : m ≠ 0 := by
    have hpos := Nat.two_pow_pos bits
    omega
  have hlog : bits ≤ m.log2 := (Nat.le_log2 hm).mpr h
  refine ⟨m.log2 + 1 - bits, by omega, rfl, ?_, ?_⟩
  · have heq : bits - 1 + (m.log2 + 1 - bits) = m.log2 := by omega
    rw [heq]
    exact Nat.log2_self_le hm
  · have heq : bits + (m.log2 + 1 - bits) = m.log2 + 1 := by omega
    rw [heq]
    exact Nat.lt_log2_self

/-- The unit depends on the length of the number. -/
theorem toBits_eq (hlower : 2 ^ (bits + s) ≤ m) (hupper : m < 2 ^ (bits + (s + 1))) :
    toBits bits m = divPow m (s + 1) * 2 ^ (s + 1) := by
  have hm : m ≠ 0 := Nat.pos_iff_ne_zero.mp (lt_of_lt_of_le (Nat.two_pow_pos _) hlower)
  have hle := (Nat.le_log2 hm).mpr hlower
  have hlt := (Nat.log2_lt hm).mpr hupper
  have hlog : m.log2 + 1 - bits = s + 1 := by omega
  rw [toBits, hlog]

/-- Rounding does not pass a number of the format from below. -/
theorem toBits_le (hbits : 0 < bits) (hc : c ≤ 2 ^ bits) (h : m ≤ c * 2 ^ t) :
    toBits bits m ≤ c * 2 ^ t := by
  rcases Nat.lt_or_ge m (2 ^ bits) with hlt | hge
  · rw [toBits_of_lt hbits hlt]
    exact h
  obtain ⟨s, hs, heq, hlower, -⟩ := two_pow_le hge hbits
  rw [heq]
  rcases Nat.le_total s t with hst | hts
  · obtain ⟨k, rfl⟩ := Nat.exists_eq_add_of_le' hst
    rw [Nat.pow_add, ← Nat.mul_assoc] at h ⊢
    exact Nat.mul_le_mul_right _ (divPow_le h)
  · rcases Nat.eq_or_lt_of_le hts with rfl | hlt
    · exact Nat.mul_le_mul_right _ (divPow_le h)
    · -- the number is the least one of its length
      have hle : c * 2 ^ t ≤ 2 ^ (bits - 1 + s) := by
        calc c * 2 ^ t ≤ 2 ^ bits * 2 ^ t := Nat.mul_le_mul_right _ hc
          _ = 2 ^ (bits + t) := (Nat.pow_add ..).symm
          _ ≤ 2 ^ (bits - 1 + s) := Nat.pow_le_pow_right (by decide) (by omega)
      have hm : m ≤ 2 ^ (bits - 1) * 2 ^ s := by
        rw [← Nat.pow_add]
        omega
      calc divPow m s * 2 ^ s ≤ 2 ^ (bits - 1) * 2 ^ s := Nat.mul_le_mul_right _ (divPow_le hm)
        _ = 2 ^ (bits - 1 + s) := (Nat.pow_add ..).symm
        _ ≤ c * 2 ^ t := by omega

/-- Rounding does not pass a number of the format from above. -/
theorem le_toBits (hbits : 0 < bits) (hc : c ≤ 2 ^ bits) (h : c * 2 ^ t ≤ m) :
    c * 2 ^ t ≤ toBits bits m := by
  rcases Nat.lt_or_ge m (2 ^ bits) with hlt | hge
  · rw [toBits_of_lt hbits hlt]
    exact h
  obtain ⟨s, hs, heq, hlower, -⟩ := two_pow_le hge hbits
  rw [heq]
  rcases Nat.le_total s t with hst | hts
  · obtain ⟨k, rfl⟩ := Nat.exists_eq_add_of_le' hst
    rw [Nat.pow_add, ← Nat.mul_assoc] at h ⊢
    exact Nat.mul_le_mul_right _ (le_divPow h)
  · rcases Nat.eq_or_lt_of_le hts with rfl | hlt
    · exact Nat.mul_le_mul_right _ (le_divPow h)
    · have hm : 2 ^ (bits - 1) * 2 ^ s ≤ m := by
        rw [← Nat.pow_add]
        exact hlower
      calc c * 2 ^ t ≤ 2 ^ bits * 2 ^ t := Nat.mul_le_mul_right _ hc
        _ = 2 ^ (bits + t) := (Nat.pow_add ..).symm
        _ ≤ 2 ^ (bits - 1 + s) := Nat.pow_le_pow_right (by decide) (by omega)
        _ = 2 ^ (bits - 1) * 2 ^ s := Nat.pow_add ..
        _ ≤ divPow m s * 2 ^ s := Nat.mul_le_mul_right _ (le_divPow hm)

/-- Rounding changes a number by at most one part in `2 ^ bits`. -/
theorem toBits_near (hbits : 0 < bits) (m : ℕ) :
    2 ^ bits * toBits bits m ≤ (2 ^ bits + 1) * m ∧
      2 ^ bits * m ≤ 2 ^ bits * toBits bits m + m := by
  rcases Nat.lt_or_ge m (2 ^ bits) with hlt | hge
  · rw [toBits_of_lt hbits hlt, Nat.add_mul]
    omega
  obtain ⟨s, hs, heq, hlower, -⟩ := two_pow_le hge hbits
  obtain ⟨hle, hge⟩ := divPow_near m s
  rw [← heq] at hle hge
  have hunit : 2 ^ bits * 2 ^ s ≤ 2 * m := by
    have hsplit : bits = bits - 1 + 1 := by omega
    calc 2 ^ bits * 2 ^ s = 2 * 2 ^ (bits - 1 + s) := by
          rw [← Nat.pow_add, hsplit, Nat.add_right_comm, Nat.pow_succ, Nat.mul_comm]
          rfl
      _ ≤ 2 * m := Nat.mul_le_mul_left _ hlower
  have h1 := Nat.mul_le_mul_left (2 ^ bits) hle
  have h2 := Nat.mul_le_mul_left (2 ^ bits) hge
  rw [Nat.mul_add, Nat.mul_left_comm _ 2 m, Nat.mul_left_comm _ 2 (toBits bits m)] at h1 h2
  rw [Nat.add_mul]
  omega

end Round
