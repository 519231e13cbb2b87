import Mathlib.Tactic.Common
import Mathlib.Data.Nat.Bitwise

/-!
# Unsigned machine words

Arithmetic of the C unsigned types on natural numbers: every operation is the
mathematical one followed by a reduction modulo `2 ^ w`. The lemmas say when the
reduction does nothing, and what rounding up to a power of two computes.

## Main definitions

- `Word.wrap` — reduction modulo `2 ^ w`
- `Word.sub` — subtraction of a `w`-bit type
- `Word.lnot` — bitwise complement
- `Word.alignUp` — the C idiom `(n + a - 1) & ~(a - 1)`
- `Word.roundUp` — the mathematical least multiple of `a` at or above `n`
-/

namespace Word

/-- The value that a `w`-bit unsigned type keeps of a mathematical result. -/
def wrap (w n : ℕ) : ℕ := n % 2 ^ w

/-- Subtraction of a `w`-bit unsigned type. -/
def sub (w a b : ℕ) : ℕ := (a + (2 ^ w - b % 2 ^ w)) % 2 ^ w

/-- Bitwise complement of a `w`-bit unsigned type. -/
def lnot (w n : ℕ) : ℕ := 2 ^ w - 1 - n

/-- The rounding idiom `(n + a - 1) & ~(a - 1)` at `w` bits. -/
def alignUp (w n a : ℕ) : ℕ := wrap w (n + a - 1) &&& lnot w (a - 1)

/-- The least multiple of `a` that is at least `n`, with no wrap-around. -/
def roundUp (n a : ℕ) : ℕ := (n + a - 1) / a * a

theorem wrap_lt (w n : ℕ) : wrap w n < 2 ^ w :=
  Nat.mod_lt _ (Nat.two_pow_pos w)

theorem wrap_of_lt {w n : ℕ} (h : n < 2 ^ w) : wrap w n = n :=
  Nat.mod_eq_of_lt h

theorem sub_of_le {w a b : ℕ} (hb : b ≤ a) (ha : a < 2 ^ w) : sub w a b = a - b := by
  unfold sub
  rw [Nat.mod_eq_of_lt (by omega : b < 2 ^ w)]
  have h : a + (2 ^ w - b) = a - b + 2 ^ w := by omega
  rw [h, Nat.add_mod_right, Nat.mod_eq_of_lt (by omega)]

/-- Undoing an addition gives the old value back, wrapped or not. -/
theorem sub_wrap_add {w a b : ℕ} (ha : a < 2 ^ w) : sub w (wrap w (a + b)) b = a := by
  have hb : b % 2 ^ w < 2 ^ w := Nat.mod_lt _ (Nat.two_pow_pos w)
  have hdiv : 2 ^ w * (b / 2 ^ w) + b % 2 ^ w = b := Nat.div_add_mod b (2 ^ w)
  have hsum : a + b + (2 ^ w - b % 2 ^ w) = a + 2 ^ w * (b / 2 ^ w + 1) := by
    rw [Nat.mul_add, Nat.mul_one]; omega
  unfold sub wrap
  rw [Nat.mod_add_mod, hsum, Nat.add_mul_mod_self_left, Nat.mod_eq_of_lt ha]

/-- Masking with the complement of `2 ^ k - 1` clears the low `k` bits. -/
theorem land_lnot_two_pow {w k n : ℕ} (hn : n < 2 ^ w) :
    n &&& lnot w (2 ^ k - 1) = n / 2 ^ k * 2 ^ k := by
  apply Nat.eq_of_testBit_eq
  intro i
  by_cases hk : k ≤ w
  · have hpow : 2 ^ k - 1 < 2 ^ w :=
      lt_of_lt_of_le (Nat.sub_lt (Nat.two_pow_pos k) Nat.one_pos)
        (Nat.pow_le_pow_right (by decide) hk)
    have hlnot : lnot w (2 ^ k - 1) = 2 ^ w - (2 ^ k - 1 + 1) := by
      unfold lnot; omega
    rw [Nat.testBit_and, hlnot, Nat.testBit_two_pow_sub_succ hpow,
      Nat.testBit_mul_two_pow, Nat.testBit_div_two_pow, Nat.testBit_two_pow_sub_one]
    by_cases hki : k ≤ i
    · have hi : i - k + k = i := by omega
      rw [hi]
      by_cases hiw : i < w
      · simp [hki, hiw, Nat.not_lt.mpr hki]
      · have hbit : n.testBit i = false :=
          Nat.testBit_lt_two_pow (lt_of_lt_of_le hn (Nat.pow_le_pow_right (by decide) (by omega)))
        simp [hbit]
    · simp [hki, Nat.lt_of_not_le hki]
  · have hlt : n < 2 ^ k := lt_of_lt_of_le hn (Nat.pow_le_pow_right (by decide) (by omega))
    have hlnot : lnot w (2 ^ k - 1) = 0 := by
      have := Nat.pow_le_pow_right (n := 2) (by decide) (by omega : w ≤ k)
      unfold lnot; omega
    simp [hlnot, Nat.div_eq_of_lt hlt]

/-- The C idiom rounds the wrapped sum down to a multiple of the alignment. -/
theorem alignUp_two_pow (w n k : ℕ) :
    alignUp w n (2 ^ k) = wrap w (n + 2 ^ k - 1) / 2 ^ k * 2 ^ k :=
  land_lnot_two_pow (wrap_lt _ _)

theorem dvd_roundUp (n a : ℕ) : a ∣ roundUp n a := Nat.dvd_mul_left _ _

theorem le_roundUp {n a : ℕ} (ha : 0 < a) : n ≤ roundUp n a := by
  have hdiv := Nat.lt_div_mul_add (a := n + a - 1) ha
  unfold roundUp
  omega

/-- Rounding up stays below every multiple that is not smaller. -/
theorem roundUp_le {n a m : ℕ} (ha : 0 < a) (hm : a ∣ m) (hle : n ≤ m) : roundUp n a ≤ m := by
  obtain ⟨c, rfl⟩ := hm
  have hlt : (n + a - 1) / a < c + 1 := by
    rw [Nat.div_lt_iff_lt_mul ha, Nat.succ_mul, Nat.mul_comm c]
    omega
  rw [roundUp, Nat.mul_comm a]
  exact Nat.mul_le_mul_right a (Nat.le_of_lt_succ hlt)

end Word
