import Mathlib.Tactic.IntervalCases
import Mathlib.Tactic.Ring
import Shalloc.Pages.Defs
import Shalloc.Tiny.Blocks

/-!
# The sizes of pages and of their elements

Which size a request is rounded up to, and how many elements of it a page has. The two functions
between sizes and buckets are adjoint, so that a request takes the first bucket that is large
enough, which is never more than a quarter too large, and is as aligned as the request is.

## Main definitions

- `PagesFit` — the sizes of pools that `alloc_init` can divide
- `pageBits`, `elements`, `elementsAt` — the pages of a bucket

## Main results

- `sizeToBucket_le_iff` — the bucket of a size
- `sizeToBucket_best` — the bucket of a size is the best one
- `PagesFit.elements_spec` — the elements of a page
-/

namespace Shalloc.Pages

variable {a b k m n r size poolsize : ℕ}

section Buckets

/-- The four sizes from a power of two on, and the next power of two. -/
theorem bucketToSize_eq (hr : r ≤ 4) (hm : m ≤ 30) :
    bucketToSize (4 * m + r) = 2 ^ m + r * 2 ^ m / 4 := by
  have hpow : 2 ^ m ≤ 2 ^ 30 := Nat.pow_le_pow_right (by decide) hm
  unfold bucketToSize interBucketSpace
  rcases Nat.eq_or_lt_of_le hr with rfl | hlt
  · have hdiv : (4 * m + 4) / 4 = m + 1 := by omega
    have hmod : (4 * m + 4) % 4 = 0 := by omega
    simp only [hdiv, hmod, Nat.zero_shiftLeft, Nat.one_shiftLeft, Nat.pow_succ]
    have hzero : Word.wrap 32 0 / 4 = 0 := rfl
    omega
  · have hdiv : (4 * m + r) / 4 = m := by omega
    have hmod : (4 * m + r) % 4 = r := by omega
    have hsmall : r * 2 ^ m < 2 ^ 32 :=
      Nat.lt_of_le_of_lt (Nat.mul_le_mul (Nat.le_of_lt_succ hlt) hpow) (by decide)
    simp only [hdiv, hmod, Nat.shiftLeft_eq, Nat.one_mul]
    rw [Word.wrap_of_lt hsmall]

theorem le_bucketToSize (hm : m ≤ 30) (hr : r ≤ 4) : 2 ^ m ≤ bucketToSize (4 * m + r) := by
  rw [bucketToSize_eq hr hm]
  exact Nat.le_add_right _ _

theorem bucketToSize_lt (hm : m ≤ 30) (hr : r < 4) : bucketToSize (4 * m + r) < 2 ^ (m + 1) := by
  have hpos := Nat.two_pow_pos m
  have hle : r * 2 ^ m ≤ 3 * 2 ^ m := Nat.mul_le_mul_right _ (Nat.le_of_lt_succ hr)
  rw [bucketToSize_eq (Nat.le_of_lt hr) hm, Nat.pow_succ]
  omega

theorem bucketToSize_pos (hb : b < 124) : 0 < bucketToSize b := by
  have hpos := Nat.two_pow_pos (b / 4)
  have hle := le_bucketToSize (m := b / 4) (r := b % 4) (by omega) (by omega)
  rw [Nat.div_add_mod] at hle
  omega

/-- The bucket of a size from a power of two up to the next one. -/
theorem sizeToBucket_eq (hle : 2 ^ m ≤ size) (hlt : size < 2 ^ (m + 1)) (hm : m ≤ 61) :
    sizeToBucket size = 4 * m + (4 * (size - 2 ^ m) + 2 ^ m - 1) / 2 ^ m := by
  have hpow : 2 ^ m ≤ 2 ^ 61 := Nat.pow_le_pow_right (by decide) hm
  have hpow' : 2 ^ (m + 1) = 2 * 2 ^ m := by rw [Nat.pow_succ, Nat.mul_comm]
  have hbase : Tiny.afls (size / 2) = m := by
    refine Nat.le_antisymm (Tiny.afls_le_iff.mpr (by omega)) ?_
    cases m with
    | zero => exact Nat.zero_le _
    | succ m =>
      have hnot : ¬ Tiny.afls (size / 2) ≤ m := fun h => by
        have hsmall := Tiny.afls_le_iff.mp h
        rw [Nat.pow_succ] at hle
        omega
      omega
  unfold sizeToBucket interBucketSpace
  simp only [hbase, Nat.one_shiftLeft, Nat.shiftRight_eq_div_pow]
  rw [Word.sub_of_le hle (by omega), Word.wrap_of_lt (by omega), Nat.mul_comm m,
    Nat.mul_comm (size - 2 ^ m)]

/-- A size lies between two powers of two. -/
theorem exists_pow_le (hpos : 0 < size) (hsize : size < 2 ^ n) :
    ∃ m < n, 2 ^ m ≤ size ∧ size < 2 ^ (m + 1) := by
  have hne : size ≠ 0 := Nat.ne_of_gt hpos
  exact ⟨size.log2, (Nat.log2_lt hne).mpr hsize, Nat.log2_self_le hne, Nat.lt_log2_self⟩

/-- The bucket of a size is the one of its power of two, or one of the next four. -/
theorem overshoot_le (hlt : size < 2 ^ (m + 1)) :
    (4 * (size - 2 ^ m) + 2 ^ m - 1) / 2 ^ m ≤ 4 := by
  have hpos := Nat.two_pow_pos m
  have hpow' : 2 ^ (m + 1) = 2 * 2 ^ m := by rw [Nat.pow_succ, Nat.mul_comm]
  apply Nat.le_of_lt_succ
  rw [Nat.div_lt_iff_lt_mul hpos]
  omega

/-- Rounding up to quarters and down are adjoint. -/
theorem quarters_le_iff (hk : 0 < k) : (4 * n + k - 1) / k ≤ r ↔ n ≤ r * k / 4 := by
  rw [← Nat.lt_succ_iff, Nat.div_lt_iff_lt_mul hk, Nat.succ_mul r,
    Nat.le_div_iff_mul_le (by decide)]
  omega

/-- **The bucket of a size** is the first one that is large enough. -/
theorem sizeToBucket_le_iff (hpos : 0 < size) (hsize : size < 2 ^ 62) (hb : b < 124) :
    sizeToBucket size ≤ b ↔ size ≤ bucketToSize b := by
  obtain ⟨m, hm, hle, hlt⟩ := exists_pow_le hpos hsize
  have hover := overshoot_le hlt
  have hr : b % 4 < 4 := Nat.mod_lt _ (by decide)
  have hdiv := Nat.div_add_mod b 4
  have hk : b / 4 ≤ 30 := by omega
  have hmpos := Nat.two_pow_pos m
  rw [sizeToBucket_eq hle hlt (Nat.le_of_lt_succ hm)]
  obtain ⟨steps, hsteps⟩ : ∃ steps, steps = (4 * (size - 2 ^ m) + 2 ^ m - 1) / 2 ^ m := ⟨_, rfl⟩
  rw [← hsteps] at hover ⊢
  rcases Nat.lt_trichotomy (b / 4) m with hlow | heq | hhigh
  · -- the bucket is of a smaller power of two
    have hsmall := bucketToSize_lt hk hr
    have hpow : 2 ^ (b / 4 + 1) ≤ 2 ^ m := Nat.pow_le_pow_right (by decide) hlow
    rw [hdiv] at hsmall
    omega
  · have heq' := bucketToSize_eq (Nat.le_of_lt hr) hk
    rw [hdiv, heq] at heq'
    have hiff := quarters_le_iff (n := size - 2 ^ m) (r := b % 4) hmpos
    rw [← hsteps] at hiff
    omega
  · have hlarge := le_bucketToSize hk (Nat.le_of_lt hr)
    have hpow : 2 ^ (m + 1) ≤ 2 ^ (b / 4) := Nat.pow_le_pow_right (by decide) hhigh
    rw [hdiv] at hlarge
    omega

/-- The size that a request is rounded up to. -/
theorem bucketToSize_sizeToBucket (hle : 2 ^ m ≤ size) (hlt : size < 2 ^ (m + 1)) (hm : m ≤ 30) :
    bucketToSize (sizeToBucket size) =
      2 ^ m + (4 * (size - 2 ^ m) + 2 ^ m - 1) / 2 ^ m * 2 ^ m / 4 := by
  rw [sizeToBucket_eq hle hlt (by omega), bucketToSize_eq (overshoot_le hlt) hm]

/-- The bucket of a size is less than a quarter too large. -/
theorem bucketToSize_waste (hpos : 0 < size) (hsize : size < 2 ^ 31) :
    4 * bucketToSize (sizeToBucket size) < 5 * size := by
  obtain ⟨m, hm, hle, hlt⟩ := exists_pow_le hpos hsize
  have hmpos := Nat.two_pow_pos m
  have hround := Nat.div_mul_le_self (4 * (size - 2 ^ m) + 2 ^ m - 1) (2 ^ m)
  rw [bucketToSize_sizeToBucket hle hlt (Nat.le_of_lt_succ hm)]
  omega

/-- The bucket of a size is as aligned as the size. -/
theorem dvd_bucketToSize (hpos : 0 < size) (hsize : size < 2 ^ 31) (hdvd : 2 ^ a ∣ size) :
    2 ^ a ∣ bucketToSize (sizeToBucket size) := by
  obtain ⟨m, hm, hle, hlt⟩ := exists_pow_le hpos hsize
  have hmpos := Nat.two_pow_pos m
  have ham : a ≤ m := by
    have hlow := Nat.lt_of_le_of_lt (Nat.le_of_dvd hpos hdvd) hlt
    exact Nat.le_of_lt_succ ((Nat.pow_lt_pow_iff_right (by decide)).mp hlow)
  have hover : 2 ^ a ∣ size - 2 ^ m := Nat.dvd_sub hdvd (Nat.pow_dvd_pow 2 ham)
  rw [bucketToSize_sizeToBucket hle hlt (Nat.le_of_lt_succ hm)]
  rcases Nat.lt_or_ge m (a + 2) with hfine | hcoarse
  · -- the request is a multiple of the steps between the buckets
    have hstep : 2 ^ m ∣ 4 * (size - 2 ^ m) := by
      refine Nat.dvd_trans (Nat.pow_dvd_pow 2 (Nat.le_of_lt hfine)) ?_
      rw [Nat.pow_add, Nat.mul_comm (2 ^ a)]
      exact Nat.mul_dvd_mul_left 4 hover
    obtain ⟨c, hc⟩ := hstep
    have hround : (4 * (size - 2 ^ m) + 2 ^ m - 1) / 2 ^ m * 2 ^ m = 4 * (size - 2 ^ m) := by
      rw [hc, Nat.add_sub_assoc hmpos, Nat.mul_add_div hmpos, Nat.div_eq_of_lt (by omega),
        Nat.add_zero, Nat.mul_comm]
    rw [hround, Nat.mul_div_cancel_left _ (by decide), Nat.add_sub_cancel' hle]
    exact hdvd
  · obtain ⟨l, rfl⟩ := Nat.exists_eq_add_of_le' hcoarse
    have hquarter : 2 ^ (l + (a + 2)) = 4 * (2 ^ l * 2 ^ a) := by ring
    refine Nat.dvd_add (Nat.pow_dvd_pow 2 ham) ?_
    generalize (4 * (size - 2 ^ (l + (a + 2))) + 2 ^ (l + (a + 2)) - 1) / 2 ^ (l + (a + 2)) = r
    rw [hquarter, Nat.mul_left_comm, Nat.mul_div_cancel_left _ (by decide)]
    exact Nat.dvd_mul_left_of_dvd (Nat.dvd_mul_left _ _) _

end Buckets

section Headers

theorem usedSize_eq (hn : n < 2 ^ 63) : usedSize n * 8 = Word.roundUp n 64 := by
  have halign : Tiny.alignUp n bitsPerLong = Word.roundUp n 64 :=
    Tiny.alignUp_two_pow (k := 6) (by decide) hn
  have hdvd : 8 ∣ Word.roundUp n 64 := Nat.dvd_trans (by decide) (Word.dvd_roundUp n 64)
  rw [usedSize, halign, Nat.div_mul_cancel hdvd]

/-- The bitmap has a bit for each element. -/
theorem le_usedSize (hn : n < 2 ^ 63) : n ≤ usedSize n * 8 := by
  rw [usedSize_eq hn]
  exact Word.le_roundUp (by decide)

theorem usedSize_mono (hmn : m ≤ n) (hn : n < 2 ^ 62) : usedSize m ≤ usedSize n := by
  have hm' := usedSize_eq (n := m) (by omega)
  have hn' := usedSize_eq (n := n) (by omega)
  have hle : Word.roundUp m 64 ≤ Word.roundUp n 64 :=
    Word.roundUp_le (by decide) (Word.dvd_roundUp n 64)
      (Nat.le_trans hmn (Word.le_roundUp (by decide)))
  omega

theorem usedSize_le (hn : n < 2 ^ 62) : usedSize n ≤ n + 8 := by
  have hn' := usedSize_eq (n := n) (by omega)
  unfold Word.roundUp at hn'
  omega

theorem pageHeaderSize_eq (ha : a < 63) (hn : n < 2 ^ 61) :
    pageHeaderSize a n = Word.roundUp (8 + usedSize n) (2 ^ a) := by
  have hused := usedSize_le (n := n) (by omega)
  unfold pageHeaderSize sizeofPageHeader
  rw [Nat.one_shiftLeft, Tiny.alignUp_two_pow (by omega) (by omega)]

/-- The header of a page lies before its elements, -/
theorem le_pageHeaderSize (ha : a < 63) (hn : n < 2 ^ 61) :
    8 + usedSize n ≤ pageHeaderSize a n := by
  rw [pageHeaderSize_eq ha hn]
  exact Word.le_roundUp (Nat.two_pow_pos a)

/-- which are aligned to the power of two of their size. -/
theorem dvd_pageHeaderSize (ha : a < 63) (hn : n < 2 ^ 61) : 2 ^ a ∣ pageHeaderSize a n := by
  rw [pageHeaderSize_eq ha hn]
  exact Word.dvd_roundUp _ _

theorem pageHeaderSize_mono (ha : a < 63) (hmn : m ≤ n) (hn : n < 2 ^ 61) :
    pageHeaderSize a m ≤ pageHeaderSize a n := by
  rw [pageHeaderSize_eq ha (by omega), pageHeaderSize_eq ha hn]
  refine Word.roundUp_le (Nat.two_pow_pos a) (Word.dvd_roundUp _ _) ?_
  exact Nat.le_trans (Nat.add_le_add_left (usedSize_mono hmn (by omega)) 8)
    (Word.le_roundUp (Nat.two_pow_pos a))

/-- The header of a page with one element. -/
theorem pageHeaderSize_one (ha : a < 63) :
    pageHeaderSize a 1 = Tiny.alignUp sizeofPageHeader (1 <<< a) ∧
      pageHeaderSize a 1 < 16 + 2 ^ a := by
  have hused : usedSize 1 = 8 := by decide
  refine ⟨by rw [pageHeaderSize, hused]; rfl, ?_⟩
  rw [pageHeaderSize_eq ha (by decide), hused, Word.roundUp]
  have hle := Nat.div_mul_le_self (8 + 8 + 2 ^ a - 1) (2 ^ a)
  have hpos := Nat.two_pow_pos a
  omega

/-- What the loop that looks for the number of elements has tried does not fit. -/
theorem elementsPerPageLoop_spec (a esize psize num : ℕ) :
    elementsPerPageLoop a esize psize num ≤ num ∧
      (0 < elementsPerPageLoop a esize psize num →
        pageHeaderSize a (elementsPerPageLoop a esize psize num) +
          esize * elementsPerPageLoop a esize psize num ≤ psize) ∧
      ∀ j, elementsPerPageLoop a esize psize num < j → j ≤ num →
        psize < pageHeaderSize a j + esize * j := by
  induction num with
  | zero =>
    exact ⟨le_rfl, fun h => absurd h (by simp [elementsPerPageLoop]), fun j h h' => by omega⟩
  | succ num ih =>
    rw [elementsPerPageLoop]
    split
    · next hlarge =>
      obtain ⟨hle, hfit, htried⟩ := ih
      refine ⟨Nat.le_succ_of_le hle, hfit, fun j hj hj' => ?_⟩
      rcases Nat.lt_or_eq_of_le hj' with hlt | rfl
      · exact htried j hj (Nat.le_of_lt_succ hlt)
      · exact hlarge
    · next hfit => exact ⟨le_rfl, fun _ => Nat.not_lt.mp hfit, fun j hj hj' => by omega⟩

/-- **As many elements as fit** are in a page, if one does. -/
theorem elementsPerPage_spec {esize psize : ℕ} (ha : a < 60) (hesize : 0 < esize)
    (hpsize : psize < 2 ^ 60) (hone : pageHeaderSize a 1 + esize ≤ psize) :
    0 < elementsPerPage a esize psize ∧
      pageHeaderSize a (elementsPerPage a esize psize) + esize * elementsPerPage a esize psize ≤
        psize ∧
      ∀ j, elementsPerPage a esize psize < j → j < 2 ^ 61 →
        psize < pageHeaderSize a j + esize * j := by
  have hoverhead := (pageHeaderSize_one (a := a) (by omega)).1
  obtain ⟨num, hnum⟩ : ∃ num, num = (psize - pageHeaderSize a 1) / esize := ⟨_, rfl⟩
  have heq : elementsPerPage a esize psize = elementsPerPageLoop a esize psize num := by
    simp only [elementsPerPage, ← hoverhead]
    rw [Word.sub_of_le (by omega) (by omega), hnum]
  have hone' : 1 ≤ num := by
    rw [hnum, Nat.le_div_iff_mul_le hesize]
    omega
  obtain ⟨hle, hfit, htried⟩ := elementsPerPageLoop_spec a esize psize num
  rw [heq]
  have hpos : 0 < elementsPerPageLoop a esize psize num := by
    by_contra hzero
    have hlarge := htried 1 (by omega) hone'
    omega
  refine ⟨hpos, hfit hpos, fun j hj hj' => ?_⟩
  rcases Nat.lt_or_ge num j with hlt | hle'
  · -- so many would not fit with the smallest header
    have hheader := pageHeaderSize_mono (a := a) (m := 1) (n := j) (by omega) (by omega) hj'
    have hmul : psize - pageHeaderSize a 1 < j * esize := by
      rw [← Nat.div_lt_iff_lt_mul hesize, ← hnum]
      exact hlt
    rw [Nat.mul_comm esize]
    omega
  · exact htried j hj hle'

end Headers

section Pools

/-- The pools with pages that `alloc_init` can divide. -/
structure PagesFit (poolsize : ℕ) : Prop where
  useful : minUsefulSize ≤ poolsize
  small : poolsize ≤ 2 ^ 38
  pages : poolsize >>> largePageBits poolsize ≤ maxLargePages

/-- The bits of a page of a bucket. -/
def pageBits (poolsize b : ℕ) : ℕ :=
  if largePageBucket b (smallPageBits poolsize) then largePageBits poolsize
  else smallPageBits poolsize

/-- The elements of a page of a bucket, -/
def elements (poolsize b : ℕ) : ℕ :=
  elementsPerPage (b / interBucketSpace) (bucketToSize b) (1 <<< pageBits poolsize b)

/-- and where they begin. -/
def elementsAt (poolsize b : ℕ) : ℕ := pageHeaderSize (b / interBucketSpace) (elements poolsize b)

/-- The number of large pages. -/
def largePages (poolsize : ℕ) : ℕ := poolsize >>> largePageBits poolsize

/-- The first small page behind the header. -/
def firstPage (poolsize : ℕ) : ℕ :=
  Tiny.alignUp (headerSize (largePageBits poolsize)) (1 <<< smallPageBits poolsize) >>>
    smallPageBits poolsize

theorem largePageBits_eq (poolsize : ℕ) : largePageBits poolsize = smallPageBits poolsize + 5 := rfl

theorem smallPageBits_le_iff : smallPageBits poolsize ≤ k ↔ poolsize / 8192 - 1 < 2 ^ k :=
  Tiny.afls_le_iff

/-- The pool has from one half as many small pages to as many as the numbers allow. -/
theorem smallPageBits_bounds (hpool : 2 * 8192 ≤ poolsize) :
    poolsize / 8192 ≤ 2 ^ smallPageBits poolsize ∧
      2 ^ smallPageBits poolsize < 2 * (poolsize / 8192) := by
  have hle := smallPageBits_le_iff.mp (le_refl (smallPageBits poolsize))
  refine ⟨by omega, ?_⟩
  cases hk : smallPageBits poolsize with
  | zero => omega
  | succ k =>
    have hnot : ¬ poolsize / 8192 - 1 < 2 ^ k := fun h => by
      have := smallPageBits_le_iff.mpr h
      omega
    rw [Nat.pow_succ]
    omega

namespace PagesFit

variable (h : PagesFit poolsize)
include h

theorem smallPageBits : 7 ≤ smallPageBits poolsize ∧ smallPageBits poolsize ≤ 25 := by
  have huseful := h.useful
  have hsmall := h.small
  have hmin : minUsefulSize = 2 ^ 20 := by decide
  refine ⟨?_, smallPageBits_le_iff.mpr (by omega)⟩
  by_contra hlt
  have := smallPageBits_le_iff.mp (show Pages.smallPageBits poolsize ≤ 6 by omega)
  omega

/-- A bucket is of a power of two that is at most a sixteenth of a large page. -/
theorem bucket_le (hb : b < maxBucket (largePageBits poolsize)) :
    b / 4 ≤ Pages.smallPageBits poolsize + 1 ∧ b < 124 := by
  have hbits := h.smallPageBits
  have hmax : maxBucket (largePageBits poolsize) = (Pages.smallPageBits poolsize + 2) * 4 := by
    rw [largePageBits_eq]
    unfold maxBucket maxPageObjectOrder interBucketSpace
    omega
  omega

/-- An element fits a page of its bucket. -/
theorem one_fits (hb : b < maxBucket (largePageBits poolsize)) :
    pageHeaderSize (b / 4) 1 + bucketToSize b ≤ 2 ^ pageBits poolsize b := by
  obtain ⟨hlog, hsmall⟩ := h.bucket_le hb
  obtain ⟨hmin, -⟩ := h.smallPageBits
  have hheader := (pageHeaderSize_one (a := b / 4) (by omega)).2
  have hdiv := Nat.div_add_mod b 4
  have hr : b % 4 < 4 := Nat.mod_lt _ (by decide)
  unfold pageBits
  split
  · next hlarge =>
    have hsize := bucketToSize_lt (m := b / 4) (by omega) hr
    have hpow : 2 ^ (b / 4) ≤ 2 ^ (Pages.smallPageBits poolsize + 1) :=
      Nat.pow_le_pow_right (by decide) hlog
    have hfour : 2 ^ 7 ≤ 2 ^ Pages.smallPageBits poolsize := Nat.pow_le_pow_right (by decide) hmin
    rw [hdiv] at hsize
    rw [largePageBits_eq, Nat.pow_add 2 _ 5]
    omega
  · next hnot =>
    have hsize : bucketToSize b ≤ 2 ^ Pages.smallPageBits poolsize / 8 := by
      simp only [largePageBucket, maxPageObjectOrder, Nat.one_shiftLeft, Nat.shiftRight_eq_div_pow,
        decide_eq_true_eq] at hnot
      omega
    have hle := le_bucketToSize (m := b / 4) (r := b % 4) (by omega) (Nat.le_of_lt hr)
    have hpage : 2 ^ 7 ≤ 2 ^ Pages.smallPageBits poolsize := Nat.pow_le_pow_right (by decide) hmin
    rw [hdiv] at hle
    omega

theorem pageBits_le (b : ℕ) : pageBits poolsize b ≤ 30 := by
  obtain ⟨-, hmax⟩ := h.smallPageBits
  have hlarge := largePageBits_eq poolsize
  unfold pageBits
  split <;> omega

/-- **As many elements as fit** are in a page. -/
theorem elements_spec (hb : b < maxBucket (largePageBits poolsize)) :
    0 < elements poolsize b ∧
      elementsAt poolsize b + bucketToSize b * elements poolsize b ≤ 2 ^ pageBits poolsize b ∧
      ∀ j, elements poolsize b < j → j < 2 ^ 61 →
        2 ^ pageBits poolsize b < pageHeaderSize (b / 4) j + bucketToSize b * j := by
  obtain ⟨hlog, hsmall⟩ := h.bucket_le hb
  have hbits := h.smallPageBits
  have hpage : 2 ^ pageBits poolsize b ≤ 2 ^ 30 :=
    Nat.pow_le_pow_right (by decide) (h.pageBits_le b)
  have hspec := elementsPerPage_spec (a := b / 4) (by omega) (bucketToSize_pos hsmall)
    (Nat.lt_of_le_of_lt hpage (by decide)) (h.one_fits hb)
  unfold elementsAt elements
  rw [Nat.one_shiftLeft]
  exact hspec

/-- A large page has few elements, since these are large as well. -/
theorem elements_few (hb : b < maxBucket (largePageBits poolsize))
    (hlarge : largePageBucket b (Pages.smallPageBits poolsize) = true) :
    elements poolsize b < 256 := by
  obtain ⟨hmin, -⟩ := h.smallPageBits
  obtain ⟨-, hfit, -⟩ := h.elements_spec hb
  have hpow : 2 ^ Pages.smallPageBits poolsize = 8 * 2 ^ (Pages.smallPageBits poolsize - 3) := by
    rw [show 8 = 2 ^ 3 from rfl, ← Nat.pow_add, Nat.add_sub_cancel' (by omega)]
  have hsize : 2 ^ (Pages.smallPageBits poolsize - 3) < bucketToSize b := by
    have hshift := of_decide_eq_true hlarge
    rw [Nat.one_shiftLeft, Nat.shiftRight_eq_div_pow, hpow] at hshift
    rwa [show (2 : ℕ) ^ maxPageObjectOrder = 8 from rfl, Nat.mul_div_cancel_left _ (by decide)]
      at hshift
  rw [pageBits, if_pos hlarge, largePageBits_eq, Nat.pow_add, hpow] at hfit
  by_contra hmany
  have hmul : (2 ^ (Pages.smallPageBits poolsize - 3) + 1) * 256 ≤
      bucketToSize b * elements poolsize b := Nat.mul_le_mul hsize (Nat.le_of_not_lt hmany)
  omega

/-- The counter of a page does not overflow. -/
theorem elements_lt (hb : b < maxBucket (largePageBits poolsize)) :
    elements poolsize b < 2 ^ 25 := by
  obtain ⟨hlog, hsmall⟩ := h.bucket_le hb
  obtain ⟨hmin, hmax⟩ := h.smallPageBits
  obtain ⟨-, hfit, -⟩ := h.elements_spec hb
  have hmul : elements poolsize b ≤ bucketToSize b * elements poolsize b :=
    Nat.le_mul_of_pos_left _ (bucketToSize_pos hsmall)
  have hpow : 2 ^ Pages.smallPageBits poolsize ≤ 2 ^ 25 := Nat.pow_le_pow_right (by decide) hmax
  have hpage : 2 ^ pageBits poolsize b ≤ 2 ^ 30 :=
    Nat.pow_le_pow_right (by decide) (h.pageBits_le b)
  by_cases hlarge : largePageBucket b (Pages.smallPageBits poolsize) = true
  · exact Nat.lt_trans (h.elements_few hb hlarge) (by decide)
  · have hat : 8 + usedSize (elements poolsize b) ≤ elementsAt poolsize b :=
      le_pageHeaderSize (show b / 4 < 63 by omega) (by omega)
    rw [pageBits, if_neg hlarge] at hfit
    omega

/-- The header of a page lies in the first small page of it. -/
theorem header_fits (hb : b < maxBucket (largePageBits poolsize)) :
    8 + usedSize (elements poolsize b) ≤ 2 ^ Pages.smallPageBits poolsize := by
  obtain ⟨hlog, hsmall⟩ := h.bucket_le hb
  obtain ⟨hmin, hmax⟩ := h.smallPageBits
  obtain ⟨-, hfit, -⟩ := h.elements_spec hb
  have hlt := h.elements_lt hb
  by_cases hlarge : largePageBucket b (Pages.smallPageBits poolsize) = true
  · have hused : usedSize (elements poolsize b) ≤ usedSize 255 :=
      usedSize_mono (Nat.le_of_lt_succ (h.elements_few hb hlarge)) (by decide)
    have h255 : usedSize 255 = 32 := by decide
    have hpow : 2 ^ 7 ≤ 2 ^ Pages.smallPageBits poolsize := Nat.pow_le_pow_right (by decide) hmin
    omega
  · have hat : 8 + usedSize (elements poolsize b) ≤ elementsAt poolsize b :=
      le_pageHeaderSize (show b / 4 < 63 by omega) (by omega)
    rw [pageBits, if_neg hlarge] at hfit
    omega

/-- The large pages of the pool. -/
theorem largePages : 128 ≤ largePages poolsize ∧ Pages.largePages poolsize ≤ 256 ∧
    Pages.largePages poolsize <<< largePageBits poolsize ≤ poolsize ∧
    poolsize < (Pages.largePages poolsize + 1) <<< largePageBits poolsize := by
  have huseful := h.useful
  have hmin : minUsefulSize = 2 ^ 20 := by decide
  have hbounds := smallPageBits_bounds (show 2 * 8192 ≤ poolsize by omega)
  have hpos := Nat.two_pow_pos (largePageBits poolsize)
  have hdiv := Nat.div_add_mod poolsize (2 ^ largePageBits poolsize)
  have hmod := Nat.mod_lt poolsize hpos
  refine ⟨?_, h.pages, ?_, ?_⟩
  · unfold Pages.largePages
    rw [Nat.shiftRight_eq_div_pow, Nat.le_div_iff_mul_le hpos, largePageBits_eq, Nat.pow_add]
    omega
  · unfold Pages.largePages
    rw [Nat.shiftRight_eq_div_pow, Nat.shiftLeft_eq, Nat.mul_comm]
    omega
  · unfold Pages.largePages
    rw [Nat.shiftRight_eq_div_pow, Nat.shiftLeft_eq, Nat.succ_mul, Nat.mul_comm]
    omega

/-- The small pages of the large pages lie in the pool. -/
theorem pages_le :
    32 * Pages.largePages poolsize * 2 ^ Pages.smallPageBits poolsize ≤ poolsize := by
  have hpool := h.largePages.2.2.1
  rw [largePageBits_eq, Nat.shiftLeft_eq, Nat.pow_add] at hpool
  calc 32 * Pages.largePages poolsize * 2 ^ Pages.smallPageBits poolsize
      = Pages.largePages poolsize * (2 ^ Pages.smallPageBits poolsize * 2 ^ 5) := by ring
    _ ≤ poolsize := hpool

omit h in
theorem headerSize : headerSize (largePageBits poolsize) =
    112 + 32 * Pages.smallPageBits poolsize := by
  rw [largePageBits_eq]
  unfold Pages.headerSize maxBucket sizeofHeader sizeofBucketState maxPageObjectOrder
    interBucketSpace
  omega

/-- The header takes at most three small pages. -/
theorem firstPage : 0 < firstPage poolsize ∧ Pages.firstPage poolsize ≤ 3 ∧
    ∀ i, i <<< Pages.smallPageBits poolsize < Pages.headerSize (largePageBits poolsize) ↔
      i < Pages.firstPage poolsize := by
  obtain ⟨hmin, hmax⟩ := h.smallPageBits
  have hheader : Pages.headerSize (largePageBits poolsize) = _ := headerSize
  have hpos := Nat.two_pow_pos (Pages.smallPageBits poolsize)
  have hfirst : Pages.firstPage poolsize =
      (112 + 32 * Pages.smallPageBits poolsize + 2 ^ Pages.smallPageBits poolsize - 1) /
        2 ^ Pages.smallPageBits poolsize := by
    unfold Pages.firstPage
    rw [hheader, Nat.one_shiftLeft, Tiny.alignUp_two_pow (by omega) (by omega), Word.roundUp,
      Nat.shiftRight_eq_div_pow, Nat.mul_div_cancel _ hpos]
  rw [hfirst, hheader]
  refine ⟨?_, ?_, fun i => ?_⟩
  · apply Nat.div_pos _ hpos
    omega
  · generalize Pages.smallPageBits poolsize = k at *
    interval_cases k <;> decide
  · rw [Nat.shiftLeft_eq, ← Nat.succ_le_iff (n := _ / _), Nat.le_div_iff_mul_le hpos,
      Nat.succ_mul i]
    omega

end PagesFit

/-- **The pools that cannot be divided** are those a little larger than the smallest one with
pages: they have more small pages than there are numbers. -/
theorem pagesFit_iff (huseful : minUsefulSize ≤ poolsize) (hsmall : poolsize ≤ 2 ^ 38) :
    PagesFit poolsize ↔ poolsize < 2 ^ 20 + 2 ^ 12 ∨ 2 ^ 20 + 2 ^ 13 ≤ poolsize := by
  have hmin : minUsefulSize = 2 ^ 20 := by decide
  have hbounds := smallPageBits_bounds (show 2 * 8192 ≤ poolsize by omega)
  have hpages : poolsize >>> largePageBits poolsize ≤ maxLargePages ↔
      poolsize < 257 * (2 ^ smallPageBits poolsize * 32) := by
    rw [← Nat.lt_succ_iff, Nat.shiftRight_eq_div_pow,
      Nat.div_lt_iff_lt_mul (Nat.two_pow_pos _), largePageBits_eq, Nat.pow_add]
    rfl
  have hiff : PagesFit poolsize ↔ poolsize < 257 * (2 ^ smallPageBits poolsize * 32) :=
    ⟨fun h => hpages.mp h.pages, fun h => ⟨huseful, hsmall, hpages.mpr h⟩⟩
  rw [hiff]
  rcases Nat.lt_or_ge (smallPageBits poolsize) 8 with hlow | hhigh
  · -- small pages of 128 bytes
    have hlt := smallPageBits_le_iff.mp (Nat.le_of_lt_succ hlow)
    have hseven : smallPageBits poolsize = 7 := by
      refine Nat.le_antisymm (Nat.le_of_lt_succ hlow) ?_
      by_contra hless
      have := smallPageBits_le_iff.mp (show smallPageBits poolsize ≤ 6 by omega)
      omega
    rw [hseven]
    omega
  · have hpow : 2 ^ 8 ≤ 2 ^ smallPageBits poolsize := Nat.pow_le_pow_right (by decide) hhigh
    have hnot : ¬ smallPageBits poolsize ≤ 7 := by omega
    rw [smallPageBits_le_iff] at hnot
    omega

end Pools

section Requests

/-- The size that is asked for: that of the request, rounded up to its alignment. -/
def requestSize (n k : ℕ) : ℕ :=
  if Word.roundUp n (2 ^ k) = 0 then 1 else Word.roundUp n (2 ^ k)

theorem bucketOf_eq (hn : n < 2 ^ 63) (hk : k < 64) :
    bucketOf n (2 ^ k) = sizeToBucket (requestSize n k) := by
  unfold bucketOf requestSize
  rw [Tiny.alignUp_two_pow hk hn]

theorem requestSize_pos (n k : ℕ) : 0 < requestSize n k := by
  unfold requestSize
  split
  · exact Nat.one_pos
  · next h => exact Nat.pos_of_ne_zero h

theorem le_requestSize (n k : ℕ) : n ≤ requestSize n k := by
  have hle := Word.le_roundUp (n := n) (Nat.two_pow_pos k)
  unfold requestSize
  split <;> omega

/-- The size of a request that is not empty is aligned. -/
theorem dvd_requestSize (hn : 0 < n) (k : ℕ) : 2 ^ k ∣ requestSize n k := by
  have hle := Word.le_roundUp (n := n) (Nat.two_pow_pos k)
  unfold requestSize
  rw [if_neg (by omega)]
  exact Word.dvd_roundUp n (2 ^ k)

/-- A bucket of a pool is the first one for its size. -/
theorem PagesFit.request (h : PagesFit poolsize)
    (hb : sizeToBucket size < maxBucket (largePageBits poolsize)) (hpos : 0 < size) :
    size ≤ bucketToSize (sizeToBucket size) ∧ size < 2 ^ 31 ∧
      sizeToBucket (bucketToSize (sizeToBucket size)) = sizeToBucket size := by
  obtain ⟨hlog, hsmall⟩ := h.bucket_le hb
  have hbits := h.smallPageBits
  -- a larger size would have a larger bucket
  have hsize : size < 2 ^ 62 := by
    by_contra hlarge
    have hbase : ¬ Tiny.afls (size / 2) ≤ 60 := fun hle => by
      have := Tiny.afls_le_iff.mp hle
      omega
    have hle : Tiny.afls (size / 2) * 4 ≤ sizeToBucket size := Nat.le_add_right _ _
    omega
  have hdiv := Nat.div_add_mod (sizeToBucket size) 4
  have hbucket : bucketToSize (sizeToBucket size) < 2 ^ 31 := by
    have hlt := bucketToSize_lt (m := sizeToBucket size / 4) (r := sizeToBucket size % 4) (by omega)
      (Nat.mod_lt _ (by decide))
    rw [hdiv] at hlt
    exact Nat.lt_of_lt_of_le hlt (Nat.pow_le_pow_right (by decide) (by omega))
  have hle := (sizeToBucket_le_iff hpos hsize hsmall).mp le_rfl
  have hbpos := bucketToSize_pos hsmall
  have hback : sizeToBucket (bucketToSize (sizeToBucket size)) ≤ sizeToBucket size :=
    (sizeToBucket_le_iff hbpos (by omega) hsmall).mpr le_rfl
  have hback' := Nat.lt_of_le_of_lt hback hsmall
  have hother := (sizeToBucket_le_iff hbpos (by omega) hback').mp le_rfl
  exact ⟨hle, by omega, Nat.le_antisymm hback
    ((sizeToBucket_le_iff hpos hsize hback').mpr (Nat.le_trans hle hother))⟩

/-- A power of two that divides the size of a bucket is at most the power of two of the bucket. -/
theorem le_of_dvd_bucketToSize (hb : b < 124) (hdvd : 2 ^ k ∣ bucketToSize b) : k ≤ b / 4 := by
  have hlt := bucketToSize_lt (m := b / 4) (r := b % 4) (by omega) (Nat.mod_lt _ (by decide))
  rw [Nat.div_add_mod] at hlt
  have hle := Nat.le_of_dvd (bucketToSize_pos hb) hdvd
  exact Nat.le_of_lt_succ ((Nat.pow_lt_pow_iff_right (by decide)).mp (Nat.lt_of_le_of_lt hle hlt))

/-- **Size classes.** A size is served by the first bucket that is large enough. This is less than
a quarter too large, and as aligned as the size is. -/
theorem sizeToBucket_best (hpos : 0 < size) (hsize : size < 2 ^ 31) :
    size ≤ bucketToSize (sizeToBucket size) ∧
      (∀ b < sizeToBucket size, bucketToSize b < size) ∧
      4 * bucketToSize (sizeToBucket size) < 5 * size ∧
      ∀ a, 2 ^ a ∣ size → 2 ^ a ∣ bucketToSize (sizeToBucket size) := by
  obtain ⟨m, hm, hle, hlt⟩ := exists_pow_le hpos hsize
  have hover := overshoot_le hlt
  refine ⟨?_, fun b hb => ?_, bucketToSize_waste hpos hsize, fun a ha =>
    dvd_bucketToSize hpos hsize ha⟩
  · have hquarters := (quarters_le_iff (n := size - 2 ^ m) (Nat.two_pow_pos m)).mp le_rfl
    rw [bucketToSize_sizeToBucket hle hlt (Nat.le_of_lt_succ hm)]
    omega
  · have hsmall : b < 124 := by
      rw [sizeToBucket_eq hle hlt (by omega)] at hb
      omega
    exact Nat.lt_of_not_le fun hfits =>
      Nat.not_le_of_lt hb ((sizeToBucket_le_iff hpos (by omega) hsmall).mpr hfits)

/-- A size of 100 takes the bucket of 112, and not the one of 96. -/
theorem sizeToBucket_best_hundred : 100 ≤ bucketToSize (sizeToBucket 100) ∧
    bucketToSize (sizeToBucket 100) = 112 ∧ bucketToSize 26 < 100 := by
  obtain ⟨hle, hfirst, -⟩ := sizeToBucket_best (by decide : 0 < 100) (by decide)
  exact ⟨hle, by decide, hfirst 26 (by decide)⟩

end Requests

end Shalloc.Pages
