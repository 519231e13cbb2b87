import Shalloc.Region.Defs

/-!
# The size that a region grows by

`SHALLOC_BUFF_ALLOC_SIZE` computes in `double`. Below `2 ^ 48` the rounding does not show, and
the result is the integer part of `2.1` times the size. Sizes that `2.1` times do not fit 64
bits give 0, which `shalloc_region_grow` asserts against.

## Main results

- `shallocBuffAllocSize_eq` — the integer part of `2.1` times the size
- `two_mul_le_shallocBuffAllocSize` — at least twice the size
- `shallocBuffAllocSize_eq_zero_iff` — the sizes that give 0
-/

namespace Shalloc

variable {n : ℕ}

theorem doubleBits_pos : 0 < doubleBits := by decide

/-- The result is 0 exactly where the product does not fit. -/
theorem shallocBuffAllocSize_of_lt
    (h : Round.toBits doubleBits (doubleTwoPointOne * Round.toBits doubleBits n) < 2 ^ 115) :
    shallocBuffAllocSize n =
      Round.toBits doubleBits (doubleTwoPointOne * Round.toBits doubleBits n) / 2 ^ 51 :=
  if_pos (Nat.div_lt_of_lt_mul (lt_of_lt_of_eq h (by decide)))

/-- Rounding does not show in sizes below `2 ^ 48`. -/
theorem shallocBuffAllocSize_eq (hn : n < 2 ^ 48) : shallocBuffAllocSize n = 21 * n / 10 := by
  have hexact : Round.toBits doubleBits n = n :=
    Round.toBits_of_lt doubleBits_pos (lt_trans hn (by decide))
  obtain ⟨hupper, hlower⟩ := Round.toBits_near doubleBits_pos (doubleTwoPointOne * n)
  -- the integer part of `2.1 * n` is a number of the format
  have hfloor : 21 * n / 10 * 2 ^ 51 ≤ Round.toBits doubleBits (doubleTwoPointOne * n) := by
    apply Round.le_toBits doubleBits_pos
    · unfold doubleBits
      omega
    · unfold doubleTwoPointOne
      omega
  rw [shallocBuffAllocSize_of_lt, hexact]
  · unfold doubleBits doubleTwoPointOne at *
    omega
  · rw [hexact]
    unfold doubleBits doubleTwoPointOne at *
    omega

/-- The product of a size below `2 ^ 62`. -/
theorem shallocBuffAllocSize_product (hn : n < 2 ^ 62) :
    Round.toBits doubleBits (doubleTwoPointOne * Round.toBits doubleBits n) ≤
      doubleTwoPointOne * 2 ^ 62 := by
  apply Round.toBits_le doubleBits_pos (by decide)
  apply Nat.mul_le_mul_left
  rw [← Nat.one_mul (2 ^ 62)]
  exact Round.toBits_le doubleBits_pos (by decide) (by omega)

/-- A region that grows for a request adds a buffer of at least twice its size. -/
theorem two_mul_le_shallocBuffAllocSize (hn : n < 2 ^ 62) : 2 * n ≤ shallocBuffAllocSize n := by
  have hproduct := shallocBuffAllocSize_product hn
  obtain ⟨-, h1⟩ := Round.toBits_near doubleBits_pos n
  obtain ⟨-, h2⟩ := Round.toBits_near doubleBits_pos (doubleTwoPointOne * Round.toBits doubleBits n)
  rw [shallocBuffAllocSize_of_lt (lt_of_le_of_lt hproduct (by decide))]
  unfold doubleBits doubleTwoPointOne at *
  omega

/-- The size that a region grows by for a request, and the descriptor, do not wrap. -/
theorem shallocBuffAllocSize_lt (hn : n < 2 ^ 62) :
    sizeofBuff + shallocBuffAllocSize n < 2 ^ 64 := by
  have hproduct := shallocBuffAllocSize_product hn
  rw [shallocBuffAllocSize_of_lt (lt_of_le_of_lt hproduct (by decide))]
  unfold doubleTwoPointOne sizeofBuff at *
  omega

/-- The size that a region grows by for a request below `2 ^ 48`. -/
theorem shallocBuffAllocSize_bounds (hpos : 0 < n) (hn : n < 2 ^ 48) :
    0 < shallocBuffAllocSize n ∧ shallocBuffAllocSize n < 2 ^ 52 := by
  rw [shallocBuffAllocSize_eq hn]
  omega

/-- The least size whose product with `2.1` does not fit 64 bits. -/
def hugeSize : ℕ := 8784163844623595008

/-- Where the rounded size begins whose product with `2.1` is rounded to `2 ^ 64`. -/
theorem le_toBits_hugeSize_iff (n : ℕ) :
    8784163844623595149 ≤ Round.toBits doubleBits n ↔ hugeSize ≤ n := by
  unfold hugeSize
  rcases Nat.lt_or_ge n (2 ^ 62) with hlt | hge
  · have hle : Round.toBits doubleBits n ≤ 1 * 2 ^ 62 :=
      Round.toBits_le doubleBits_pos (by decide) (by omega)
    omega
  rcases Nat.lt_or_ge n (2 ^ 63) with hlt | hge'
  · have heq : Round.toBits doubleBits n = Round.divPow n 10 * 2 ^ 10 :=
      Round.toBits_eq hge hlt
    rw [heq, Round.divPow]
    split <;> omega
  · have hle : 1 * 2 ^ 63 ≤ Round.toBits doubleBits n :=
      Round.le_toBits doubleBits_pos (by decide) (by omega)
    omega

/-- **Where the size to grow by is 0**: nothing is asked for, or the product does not fit. -/
theorem shallocBuffAllocSize_eq_zero_iff (n : ℕ) :
    shallocBuffAllocSize n = 0 ↔ n = 0 ∨ hugeSize ≤ n := by
  have hfits : Round.toBits doubleBits (doubleTwoPointOne * Round.toBits doubleBits n) < 2 ^ 115 ↔
      ¬ hugeSize ≤ n := by
    rw [← le_toBits_hugeSize_iff]
    generalize Round.toBits doubleBits n = d
    rcases Nat.lt_or_ge (doubleTwoPointOne * d) (2 ^ 114) with hlt | hge
    · have hle : Round.toBits doubleBits (doubleTwoPointOne * d) ≤ 1 * 2 ^ 114 :=
        Round.toBits_le doubleBits_pos (by decide) (by omega)
      unfold doubleTwoPointOne at *
      omega
    rcases Nat.lt_or_ge (doubleTwoPointOne * d) (2 ^ 115) with hlt | hge'
    · have heq : Round.toBits doubleBits (doubleTwoPointOne * d) =
          Round.divPow (doubleTwoPointOne * d) 62 * 2 ^ 62 := Round.toBits_eq hge hlt
      rw [heq, Round.divPow]
      unfold doubleTwoPointOne at *
      split <;> omega
    · have hle : 1 * 2 ^ 115 ≤ Round.toBits doubleBits (doubleTwoPointOne * d) :=
        Round.le_toBits doubleBits_pos (by decide) (by omega)
      unfold doubleTwoPointOne at *
      omega
  by_cases hhuge : hugeSize ≤ n
  · have hnot : ¬ Round.toBits doubleBits (doubleTwoPointOne * Round.toBits doubleBits n) / 2 ^ 51 <
        2 ^ 64 := by
      have hge := mt hfits.mp (not_not.mpr hhuge)
      omega
    simp only [hhuge, or_true, iff_true]
    exact if_neg hnot
  rw [shallocBuffAllocSize_of_lt (hfits.mpr hhuge)]
  rcases Nat.eq_zero_or_pos n with rfl | hpos
  · simp only [hhuge, or_false, iff_true]
    rfl
  · have hone : 1 ≤ Round.toBits doubleBits n :=
      Round.le_toBits doubleBits_pos (c := 1) (t := 0) (by decide) hpos
    have hproduct : 1 * 2 ^ 52 ≤
        Round.toBits doubleBits (doubleTwoPointOne * Round.toBits doubleBits n) := by
      apply Round.le_toBits doubleBits_pos (by decide)
      unfold doubleTwoPointOne
      omega
    omega

end Shalloc
