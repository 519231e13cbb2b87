import Shalloc.Pages.Run

/-!
# Huge allocations

What is larger than the size of every bucket takes unused pages in a row, with its own structure
in an element. The search counts unused pages of one size, and goes on over the pages of the other
size without a new count. So the pages that it takes are unused only if they are of one size, and
lie in the pool only if the last large page is whole.

## Main definitions

- `Counted` — how far a search has come
- `HugeOk` — the form of a pool with a huge allocation
- `OneSize` — a block of pages of one size
- `Filled` — what a user writes to a huge block
- `HugeServed` — what is known of a huge block

## Main results

- `hugeSmallLoop_eq`, `hugeLargeLoop_eq` — the searches
- `pagesRun_huge` — a huge request returns, and its block can be freed
-/

namespace Shalloc.Pages

variable {poolsize size align first bits shift a i j m n num p q : ℕ} {large : Bool}
  {l : PageList} {on on' : ℕ → Option PageList} {head head' head'' : Pool} {live : List Extent}
  {e : Extent} {right unused : ℕ → Prop}

section Search

/-- A search that began at `first` has come to `i`, and `num` pages are counted. Those of the right
size behind the first one of them are unused. If there are pages of the other size in between,
there is one among the last `num` pages. -/
def Counted (first bits align : ℕ) (right unused : ℕ → Prop) (i num : ℕ) : Prop :=
  ∃ start, first ≤ start ∧ start + num ≤ i ∧ (∀ q, start ≤ q → q < i → right q → unused q) ∧
    (0 < num → start <<< bits % align = 0) ∧
    (start + num = i ∨ ∃ q, i ≤ q + num ∧ q < i ∧ ¬ right q)

theorem Counted.none (hi : first ≤ i) : Counted first bits align right unused i 0 :=
  ⟨i, hi, le_rfl, fun _ hq hlt => absurd hq (Nat.not_le_of_lt hlt), fun h => absurd h (by decide),
    Or.inl rfl⟩

/-- A page is counted, -/
theorem Counted.count (h : Counted first bits align right unused i num) (hunused : unused i)
    (halign : num = 0 → i <<< bits % align = 0) :
    Counted first bits align right unused (i + 1) (num + 1) := by
  obtain ⟨start, hfirst, hle, hall, haligned, hrow⟩ := h
  rcases Nat.eq_zero_or_pos num with rfl | hpos
  · refine ⟨i, by omega, le_rfl, fun q hq hlt _ => ?_, fun _ => halign rfl, Or.inl rfl⟩
    obtain rfl : q = i := by omega
    exact hunused
  · refine ⟨start, hfirst, by omega, fun q hq hlt hright => ?_, fun _ => haligned hpos, ?_⟩
    · rcases Nat.eq_or_lt_of_le (Nat.le_of_lt_succ hlt) with rfl | hlt'
      · exact hunused
      · exact hall q hq hlt' hright
    · rcases hrow with heq | ⟨q, hq, hlt, hnot⟩
      · exact Or.inl (by omega)
      · exact Or.inr ⟨q, by omega, by omega, hnot⟩

/-- and some pages of the other size are gone over. -/
theorem Counted.skip (h : Counted first bits align right unused i num) (hm : 0 < m)
    (hnot : ∀ q, i ≤ q → q < i + m → ¬ right q) :
    Counted first bits align right unused (i + m) num := by
  obtain ⟨start, hfirst, hle, hall, haligned, -⟩ := h
  rcases Nat.eq_zero_or_pos num with rfl | hpos
  · exact Counted.none (by omega)
  · refine ⟨start, hfirst, by omega, fun q hq hlt hright => ?_, haligned,
      Or.inr ⟨i + m - 1, by omega, by omega, hnot _ (by omega) (by omega)⟩⟩
    rcases Nat.lt_or_ge q i with hlt' | hge
    · exact hall q hq hlt' hright
    · exact absurd hright (hnot q hge hlt)

/-- If the last pages are of the right size, they are those that were counted. -/
theorem Counted.row (h : Counted first bits align right unused (a + num) num) (hpos : 0 < num)
    (hright : ∀ x, Among a num x → right x) :
    first ≤ a ∧ a <<< bits % align = 0 ∧ ∀ x, Among a num x → unused x := by
  obtain ⟨start, hfirst, hle, hall, haligned, hrow⟩ := h
  have heq : start = a := by
    rcases hrow with heq | ⟨q, hq, hlt, hnot⟩
    · omega
    · exact absurd (hright q ⟨by omega, hlt⟩) hnot
  subst heq
  exact ⟨hfirst, haligned hpos, fun x hx => hall x hx.1 hx.2 (hright x hx)⟩

/-- What a search has found: `num` pages of which `j` is the last one. -/
structure FoundRow (size first bits align : ℕ) (right unused : ℕ → Prop) (j num : ℕ) :
    Prop where
  counted : Counted first bits align right unused (j + 1) num
  pos : 0 < num
  size_le : size ≤ num <<< bits
  last : right j

/-- The steps of a search at a page of the right size, without huge allocations. -/
theorem searchStep {step : ℕ → ℕ → Option (Option (ℕ × ℕ))} {used : ℕ}
    (hcounted : Counted first bits align right unused i num) (hi : first ≤ i)
    (hright : right i) (hunused : used = 0 → unused i)
    (hstep : ∀ num', Counted first bits align right unused (i + 1) num' →
      ∃ r, step (i + 1) num' = some r ∧ ∀ x ∈ r,
        FoundRow size first bits align right unused x.1 x.2) :
    ∃ r, (if num = 0 ∧ i <<< bits % align ≠ 0 then step (i + 1) num
      else if used ≠ 0 then step (i + 1) 0
      else if size ≤ (num + 1) <<< bits then some (some (i, num + 1))
      else step (i + 1) (num + 1)) = some r ∧ ∀ x ∈ r,
        FoundRow size first bits align right unused x.1 x.2 := by
  by_cases hcase : num = 0 ∧ i <<< bits % align ≠ 0
  · rw [if_pos hcase, hcase.1]
    exact hstep 0 (Counted.none (by omega))
  · rw [if_neg hcase]
    by_cases hused : used = 0
    · have hnext := hcounted.count (hunused hused) fun h0 =>
        not_not.mp fun hne => hcase ⟨h0, hne⟩
      rw [if_neg (not_not.mpr hused)]
      by_cases hsize : size ≤ (num + 1) <<< bits
      · rw [if_pos hsize]
        refine ⟨some (i, num + 1), rfl, fun x hx => ?_⟩
        obtain rfl := Option.mem_some.mp hx
        exact ⟨hnext, Nat.succ_pos num, hsize, hright⟩
      · rw [if_neg hsize]
        exact hstep (num + 1) hnext
    · rw [if_pos hused]
      exact hstep 0 (Counted.none (by omega))

theorem hugeAllocated_nil (hpool : 0 < poolsize) (offset : ℕ) (head : Pool) :
    hugeAllocated offset head poolsize 0 = some false := by
  obtain ⟨fuel, rfl⟩ := Nat.exists_eq_succ_of_ne_zero (Nat.ne_of_gt hpool)
  rfl

/-- The small pages in a page, as a number of bits. -/
def pageShift (large : Bool) : ℕ := if large then bitsFromSmallToLargePage else 0

/-- The bits of a page. -/
def rowBits (poolsize : ℕ) (large : Bool) : ℕ := smallPageBits poolsize + pageShift large

theorem rowBits_eq (poolsize : ℕ) (large : Bool) :
    (if large then largePageBits poolsize else smallPageBits poolsize) =
      rowBits poolsize large := by
  cases large <;> rfl

theorem rowBits_false (poolsize : ℕ) : rowBits poolsize false = smallPageBits poolsize := rfl

theorem rowBits_true (poolsize : ℕ) : rowBits poolsize true = largePageBits poolsize := rfl

/-- The first page that a search looks at. -/
def firstRow (poolsize : ℕ) (large : Bool) : ℕ := if large then 1 else firstPage poolsize

/-- How far the search for small or large pages has come, -/
abbrev HugeCounted (poolsize align : ℕ) (large : Bool) (head : Pool) : ℕ → ℕ → Prop :=
  Counted (firstRow poolsize large) (rowBits poolsize large) align
    (fun x => head.pagesize ((x <<< pageShift large) / 32) = large)
    fun x => (head.page (x <<< pageShift large)).elementsUsed = 0

/-- and what it finds. -/
abbrev HugeRow (poolsize size align : ℕ) (large : Bool) (head : Pool) : ℕ → ℕ → Prop :=
  FoundRow size (firstRow poolsize large) (rowBits poolsize large) align
    (fun x => head.pagesize ((x <<< pageShift large) / 32) = large)
    fun x => (head.page (x <<< pageShift large)).elementsUsed = 0

/-- **The search for small pages.** -/
theorem hugeSmallLoop_eq (hpool : 0 < poolsize) (hhuge : head.huge = 0)
    (hcovers : poolsize ≤ maxLargePages <<< largePageBits poolsize) :
    ∀ {fuel i num : ℕ}, firstPage poolsize ≤ i → (head.pagesize (i / 32) = true → i % 32 = 0) →
      poolsize - i < fuel →
      HugeCounted poolsize align false head i num →
      ∃ r, hugeSmallLoop poolsize size align head fuel i num = some r ∧
        ∀ x ∈ r, HugeRow poolsize size align false head x.1 x.2 := by
  intro fuel
  induction fuel with
  | zero => exact fun _ _ hfuel => absurd hfuel (Nat.not_lt_zero _)
  | succ fuel ih =>
    intro i num hi hgroup hfuel hcounted
    rw [hugeSmallLoop]
    by_cases hinside : i <<< smallPageBits poolsize < poolsize
    · have hlt := Nat.lt_of_le_of_lt Nat.le_shiftLeft hinside
      have hshift : i >>> bitsFromSmallToLargePage = i / 32 := Nat.shiftRight_eq_div_pow i 5
      have hnumber : ¬ maxLargePages ≤ i / 32 := fun hle => by
        rw [Nat.le_div_iff_mul_le (by decide)] at hle
        have hmul := Nat.mul_le_mul_right (2 ^ smallPageBits poolsize) hle
        have hall : maxLargePages <<< largePageBits poolsize =
            maxLargePages * 32 * 2 ^ smallPageBits poolsize := by
          rw [largePageBits_eq, Nat.shiftLeft_eq, Nat.pow_add]
          ring
        rw [Nat.shiftLeft_eq] at hinside
        omega
      rw [if_pos hinside, hshift, if_neg hnumber]
      cases hlarge : head.pagesize (i / 32) with
      | true =>
        have hmod := hgroup hlarge
        have hsame : ∀ q, i ≤ q → q < i + 32 → ¬ head.pagesize (q / 32) = false := by
          intro q hq hlt
          rw [show q / 32 = i / 32 by omega, hlarge]
          simp
        rw [if_pos rfl]
        have hnext : i + smallPagesPerLargePage = i + 32 := rfl
        rw [hnext]
        exact ih (by omega) (fun _ => by omega) (by omega) (hcounted.skip (by decide) hsame)
      | false =>
        simp only [Bool.false_eq_true, if_false, hhuge, hugeAllocated_nil hpool, bind,
          Option.bind_some]
        refine searchStep hcounted hi hlarge (fun h => h) fun num' hcounted' => ?_
        refine ih (by omega) (fun hnext => ?_) (by omega) hcounted'
        by_contra hmod
        rw [show (i + 1) / 32 = i / 32 by omega, hlarge] at hnext
        exact absurd hnext (by simp)
    · exact ⟨none, if_neg hinside, fun x hx => absurd hx (by simp)⟩

/-- **The search for large pages.** -/
theorem hugeLargeLoop_eq (hpool : 0 < poolsize) (hhuge : head.huge = 0)
    (hcovers : poolsize ≤ maxLargePages <<< largePageBits poolsize) :
    ∀ {fuel i num : ℕ}, 1 ≤ i → poolsize - i < fuel →
      HugeCounted poolsize align true head i num →
      ∃ r, hugeLargeLoop poolsize size align head fuel i num = some r ∧
        ∀ x ∈ r, HugeRow poolsize size align true head x.1 x.2 := by
  have hgroup : ∀ x : ℕ, (x <<< pageShift true) / 32 = x := fun x => by
    rw [Nat.shiftLeft_eq]
    exact Nat.mul_div_cancel x (by decide)
  intro fuel
  induction fuel with
  | zero => exact fun _ hfuel => absurd hfuel (Nat.not_lt_zero _)
  | succ fuel ih =>
    intro i num hi hfuel hcounted
    rw [hugeLargeLoop]
    by_cases hinside : i <<< largePageBits poolsize < poolsize
    · have hlt := Nat.lt_of_le_of_lt Nat.le_shiftLeft hinside
      have hnumber : ¬ maxLargePages ≤ i := fun hle => by
        rw [Nat.shiftLeft_eq] at hcovers hinside
        have hmul := Nat.mul_le_mul_right (2 ^ largePageBits poolsize) hle
        omega
      rw [if_pos hinside, if_neg hnumber]
      cases hlarge : head.pagesize i with
      | false =>
        have hsame : ∀ q, i ≤ q → q < i + 1 →
            ¬ head.pagesize ((q <<< pageShift true) / 32) = true := by
          intro q hq hlt
          rw [hgroup, show q = i by omega, hlarge]
          simp
        exact ih (by omega) (by omega) (hcounted.skip (by decide) hsame)
      | true =>
        simp only [Bool.not_true, Bool.false_eq_true, if_false, hhuge, hugeAllocated_nil hpool,
          bind, Option.bind_some]
        exact searchStep hcounted hi (by rw [hgroup, hlarge]) (fun h => h) fun num' hcounted' =>
          ih (by omega) (by omega) hcounted'
    · exact ⟨none, if_neg hinside, fun x hx => absurd hx (by simp)⟩

end Search

section Rows

/-- The pages from `a` on to `a + n`, of which page `x` has the number `x <<< shift`. -/
def RowPage (shift a n q : ℕ) : Prop := (q >>> shift) <<< shift = q ∧ Among a n (q >>> shift)

instance (shift a n q : ℕ) : Decidable (RowPage shift a n q) :=
  inferInstanceAs (Decidable (_ ∧ _))

theorem rowPage_shiftLeft {x : ℕ} : RowPage shift a n (x <<< shift) ↔ Among a n x := by
  unfold RowPage
  rw [Nat.shiftLeft_shiftRight]
  exact and_iff_right rfl

/-- A row is one page and a shorter row: its last page, -/
theorem rowPage_last :
    RowPage shift a (n + 1) q ↔ q = (a + n) <<< shift ∨ RowPage shift a n q := by
  constructor
  · rintro ⟨heq, hq⟩
    by_cases hlast : q >>> shift = a + n
    · exact Or.inl (by rw [← hlast, heq])
    · refine Or.inr ⟨heq, ?_⟩
      unfold Among at hq ⊢
      omega
  · rintro (rfl | ⟨heq, hq⟩)
    · exact rowPage_shiftLeft.mpr ⟨by omega, by omega⟩
    · exact ⟨heq, hq.1, Nat.lt_succ_of_lt hq.2⟩

/-- or its first one. -/
theorem rowPage_first :
    RowPage shift a (n + 1) q ↔ q = a <<< shift ∨ RowPage shift (a + 1) n q := by
  constructor
  · rintro ⟨heq, hq⟩
    by_cases hfirst : q >>> shift = a
    · exact Or.inl (by rw [← hfirst, heq])
    · refine Or.inr ⟨heq, ?_⟩
      unfold Among at hq ⊢
      omega
  · rintro (rfl | ⟨heq, hq⟩)
    · exact rowPage_shiftLeft.mpr ⟨by omega, by omega⟩
    · refine ⟨heq, ?_⟩
      unfold Among at hq ⊢
      omega

/-- The lists, with the pages of a row moved to another one, or to none. -/
def moveRow (shift a n : ℕ) (dest : Option PageList) (on : ℕ → Option PageList) (q : ℕ) :
    Option PageList :=
  if RowPage shift a n q then dest else on q

theorem moveRow_zero (shift a : ℕ) (dest : Option PageList) (on : ℕ → Option PageList) :
    moveRow shift a 0 dest on = on :=
  funext fun _ => if_neg fun h => not_among_zero h.2

theorem moveRow_last (shift a n : ℕ) (dest : Option PageList) (on : ℕ → Option PageList) :
    moveRow shift a n dest (Function.update on ((a + n) <<< shift) dest) =
      moveRow shift a (n + 1) dest on := by
  funext q
  unfold moveRow
  rw [Function.update_apply]
  by_cases hq : RowPage shift a n q <;> simp [hq, rowPage_last]

theorem moveRow_first (shift a n : ℕ) (dest : Option PageList) (on : ℕ → Option PageList) :
    moveRow shift (a + 1) n dest (Function.update on (a <<< shift) dest) =
      moveRow shift a (n + 1) dest on := by
  funext q
  unfold moveRow
  rw [Function.update_apply]
  by_cases hq : RowPage shift (a + 1) n q <;> simp [hq, rowPage_first]

/-- Pages at different places of a row have different numbers. -/
theorem shiftLeft_ne {x y : ℕ} (h : x ≠ y) (shift : ℕ) : x <<< shift ≠ y <<< shift := by
  intro heq
  have hback := congrArg (· >>> shift) heq
  simp only [Nat.shiftLeft_shiftRight] at hback
  exact h hback

/-- **The pages of a row** are taken off their list. -/
theorem delFoundPages_eq : ∀ {n : ℕ} {on : ℕ → Option PageList} {head : Pool}, Listed on head →
    (∀ x, Among a n x → on (x <<< shift) = some l) →
    Listed (moveRow shift a n none on) (delFoundPages l shift n (a + n - 1) head) ∧
      ∀ q, on q = none → (delFoundPages l shift n (a + n - 1) head).page q = head.page q := by
  intro n
  induction n with
  | zero =>
    intro on head h _
    rw [moveRow_zero]
    exact ⟨h, fun _ _ => rfl⟩
  | succ n ih =>
    intro on head h hrow
    have hlast := hrow (a + n) ⟨by omega, by omega⟩
    obtain ⟨-, hlisted, hpage⟩ := h.del hlast
    obtain ⟨hlisted', hpage'⟩ := ih hlisted fun x hx => by
      rw [Function.update_of_ne (shiftLeft_ne (Nat.ne_of_lt hx.2) shift)]
      exact hrow x ⟨hx.1, Nat.lt_succ_of_lt hx.2⟩
    rw [moveRow_last] at hlisted'
    refine ⟨hlisted', fun q hq => (hpage' q ?_).trans (hpage q hq)⟩
    rw [Function.update_of_ne]
    · exact hq
    · rintro rfl
      exact absurd (hq.symm.trans hlast) (by simp)

/-- Nothing else changes, whatever pages are taken off. -/
theorem delFoundPages_relinked : ∀ (n i : ℕ) (head : Pool),
    Relinked head (delFoundPages l shift n i head) := by
  intro n
  induction n with
  | zero => exact fun _ head => Relinked.refl head
  | succ n ih => exact fun i head => (delFromList_eq l (i <<< shift) head).1.trans (ih (i - 1) _)

/-- **The pages of a row** are put back on their list. -/
theorem addFoundPages_eq (poolsize : ℕ) : ∀ {n fuel a : ℕ} {on : ℕ → Option PageList} {head : Pool},
    Listed on head → (∀ x, Among a n x → on (x <<< pageShift large) = none) → 0 < a →
    (a + n) <<< pageShift large ≤ 2 ^ 16 → n < fuel →
    ∃ head', addFoundPages poolsize large ((a + n) <<< rowBits poolsize large) fuel
        (a <<< rowBits poolsize large) head = some head' ∧ Relinked head head' ∧
      Listed (moveRow (pageShift large) a n (some (.free large)) on) head' := by
  intro n
  induction n with
  | zero =>
    intro fuel a on head h _ _ _ hfuel
    obtain ⟨fuel, rfl⟩ := Nat.exists_eq_succ_of_ne_zero (Nat.ne_of_gt hfuel)
    refine ⟨head, if_neg (Nat.lt_irrefl _), Relinked.refl head, ?_⟩
    rwa [moveRow_zero]
  | succ n ih =>
    intro fuel a on head h hnone hpos hlt hfuel
    obtain ⟨fuel, rfl⟩ := Nat.exists_eq_succ_of_ne_zero (Nat.ne_of_gt (Nat.zero_lt_of_lt hfuel))
    have hbits := Nat.two_pow_pos (rowBits poolsize large)
    have hless : a <<< rowBits poolsize large < (a + (n + 1)) <<< rowBits poolsize large := by
      rw [Nat.shiftLeft_eq, Nat.shiftLeft_eq]
      exact Nat.mul_lt_mul_of_pos_right (by omega) hbits
    have hnumber : (a <<< rowBits poolsize large) >>> smallPageBits poolsize =
        a <<< pageShift large := by
      rw [rowBits, Nat.add_comm, Nat.shiftLeft_add, Nat.shiftLeft_shiftRight]
    have hstep : a <<< rowBits poolsize large + 1 <<< rowBits poolsize large =
        (a + 1) <<< rowBits poolsize large := by
      rw [Nat.shiftLeft_eq, Nat.shiftLeft_eq, Nat.shiftLeft_eq, ← Nat.add_mul]
    have hfirst : a <<< pageShift large < 2 ^ 16 ∧ a <<< pageShift large ≠ 0 := by
      rw [Nat.shiftLeft_eq] at hlt ⊢
      have hpow := Nat.two_pow_pos (pageShift large)
      have hmul := Nat.mul_lt_mul_of_pos_right (show a < a + (n + 1) by omega) hpow
      exact ⟨by omega, Nat.ne_of_gt (Nat.mul_pos hpos hpow)⟩
    obtain ⟨head1, hadd, hrel, hlisted, -⟩ :=
      h.add (hnone a ⟨le_rfl, by omega⟩) hfirst.1 hfirst.2 (.free large)
    obtain ⟨head', hrest, hrel', hlisted'⟩ := ih hlisted (a := a + 1)
      (fun x hx => by
        rw [Function.update_of_ne (shiftLeft_ne (Nat.ne_of_gt hx.1) _)]
        exact hnone x ⟨Nat.le_of_succ_le hx.1, by have := hx.2; omega⟩)
      (Nat.succ_pos a) (by rwa [Nat.add_assoc, Nat.add_comm 1]) (Nat.lt_of_succ_lt_succ hfuel)
    rw [moveRow_first] at hlisted'
    refine ⟨head', ?_, hrel.trans hrel', hlisted'⟩
    rw [addFoundPages, if_pos hless, hnumber, rowBits_eq]
    simp only [hadd, bind, Option.bind_some, hstep]
    rw [Nat.add_assoc, Nat.add_comm 1] at hrest
    exact hrest

end Rows

section Blocks

/-- The pages from `a` on to `a + n` are unused. -/
def FreeRow (on : ℕ → Option PageList) (large : Bool) (a n : ℕ) : Prop :=
  ∀ x, Among a n x → on (x <<< pageShift large) = some (.free large)

/-- The bytes of these pages. -/
def rowAt (poolsize : ℕ) (large : Bool) (a n : ℕ) : Extent :=
  ⟨a <<< rowBits poolsize large, n <<< rowBits poolsize large⟩

/-- The small pages in the block are all part of the pool, and of pages of one size. -/
def OneSize (poolsize : ℕ) (pagesize : ℕ → Bool) (block : Extent) : Prop :=
  ∃ large, ∀ q, block.ptr ≤ q <<< smallPageBits poolsize →
    q <<< smallPageBits poolsize < block.ptr + block.len →
    q / 32 < largePages poolsize ∧ pagesize (q / 32) = large

theorem firstRow_pos (hfit : PagesFit poolsize) (large : Bool) : 0 < firstRow poolsize large := by
  cases large with
  | true => exact Nat.one_pos
  | false => exact hfit.firstPage.1

/-- The first page of what was found. -/
theorem HugeRow.exists_first (h : HugeRow poolsize size align large head j num)
    (hfit : PagesFit poolsize) : ∃ a, 0 < a ∧ j + 1 = a + num := by
  obtain ⟨start, hfirst, hle, -⟩ := h.counted
  have hpos := firstRow_pos hfit large
  exact ⟨j + 1 - num, by omega, by omega⟩

/-- The place of a page, in small pages. -/
theorem shiftLeft_rowBits (x : ℕ) (poolsize : ℕ) (large : Bool) :
    x <<< rowBits poolsize large = (x <<< pageShift large) <<< smallPageBits poolsize := by
  rw [rowBits, Nat.add_comm, Nat.shiftLeft_add]

theorem rowAt_ptr (poolsize : ℕ) (large : Bool) (a n : ℕ) :
    (rowAt poolsize large a n).ptr = (a <<< pageShift large) <<< smallPageBits poolsize :=
  shiftLeft_rowBits a poolsize large

theorem mem_rowAt (poolsize : ℕ) (large : Bool) {x : ℕ} (hx : Among a n x) :
    (rowAt poolsize large a n).ptr ≤ (x <<< pageShift large) <<< smallPageBits poolsize ∧
      (x <<< pageShift large) <<< smallPageBits poolsize <
        (rowAt poolsize large a n).ptr + (rowAt poolsize large a n).len := by
  have hpos := Nat.two_pow_pos (rowBits poolsize large)
  rw [← shiftLeft_rowBits]
  unfold rowAt
  simp only [Nat.shiftLeft_eq, ← Nat.add_mul]
  exact ⟨Nat.mul_le_mul_right _ hx.1, Nat.mul_lt_mul_of_pos_right hx.2 hpos⟩

/-- **Pages of one size that a search has found** are unused. -/
theorem HugeRow.free (h : HugeRow poolsize size align large head j num)
    (hok : PoolOk poolsize 0 on head) (hfit : PagesFit poolsize) (ha : j + 1 = a + num)
    (hone : OneSize poolsize head.pagesize (rowAt poolsize large a num)) :
    FreeRow on large a num ∧ a <<< rowBits poolsize large % align = 0 := by
  obtain ⟨large', hone⟩ := hone
  have hj : Among a num j := by
    have := h.pos
    exact ⟨by omega, by omega⟩
  obtain rfl : large' = large := by
    obtain ⟨hlo, hhi⟩ := mem_rowAt poolsize large hj
    exact (hone _ hlo hhi).2.symm.trans h.last
  have hpages : ∀ x, Among a num x → (x <<< pageShift large') / 32 < largePages poolsize ∧
      head.pagesize ((x <<< pageShift large') / 32) = large' := fun x hx => by
    obtain ⟨hlo, hhi⟩ := mem_rowAt poolsize large' hx
    exact hone _ hlo hhi
  have hcounted := h.counted
  rw [ha] at hcounted
  obtain ⟨hfirst, haligned, hunused⟩ := hcounted.row h.pos fun x hx => (hpages x hx).2
  refine ⟨fun x hx => ?_, haligned⟩
  obtain ⟨hgroup, hsize⟩ := hpages x hx
  have hpage : IsPage poolsize head.pagesize (x <<< pageShift large') := by
    refine ⟨hgroup, fun h1 => ?_, fun h0 => ?_⟩
    · obtain rfl := hsize.symm.trans h1
      rw [Nat.shiftLeft_eq]
      exact Nat.mul_mod_left x 32
    · obtain rfl := hsize.symm.trans h0
      exact Nat.le_trans hfirst hx.1
  have hne := hok.ne_zero hfit hpage
  rcases hok.cases hpage hne with hfree | ⟨f, b, hused⟩
  · rwa [hsize] at hfree
  · exact absurd (hunused x hx) (Nat.ne_of_gt (hok.inUse hused hne).pos)

/-- A page of the row is a page. -/
theorem FreeRow.isPage (h : FreeRow on large a n) (hok : PoolOk poolsize 0 on head) {x : ℕ}
    (hx : Among a n x) : IsPage poolsize head.pagesize (x <<< pageShift large) ∧
      head.pagesize ((x <<< pageShift large) / 32) = large := by
  have hne := hok.listed.ne_zero (h x hx)
  exact ⟨hok.page_of (h x hx) hne, (hok.free (h x hx) hne).1⟩

/-- The row ends before the last large page does. -/
theorem FreeRow.end_le (h : FreeRow on large a n) (hok : PoolOk poolsize 0 on head)
    (hpos : 0 < n) : (a + n) * 2 ^ pageShift large ≤ 32 * largePages poolsize := by
  have hlast := (h.isPage hok (x := a + n - 1) ⟨by omega, by omega⟩).1.group
  cases large with
  | true =>
    rw [Nat.shiftLeft_eq] at hlast
    show (a + n) * 32 ≤ _
    have hdiv : (a + n - 1) * 2 ^ pageShift true / 32 = a + n - 1 :=
      Nat.mul_div_cancel _ (by decide)
    omega
  | false =>
    have hlast' : (a + n - 1) / 32 < largePages poolsize := hlast
    show (a + n) * 1 ≤ _
    omega

/-- **Unused pages in a row** lie in the pool, behind the header. -/
theorem FreeRow.within (h : FreeRow on large a n) (hok : PoolOk poolsize 0 on head)
    (hfit : PagesFit poolsize) (hpos : 0 < n) :
    headerSize (largePageBits poolsize) ≤ (rowAt poolsize large a n).ptr ∧
      (rowAt poolsize large a n).ptr + (rowAt poolsize large a n).len ≤ poolsize := by
  obtain ⟨-, hfirst3, hheader⟩ := hfit.firstPage
  constructor
  · obtain ⟨hfirst, hsize⟩ := h.isPage hok (x := a) ⟨le_rfl, by omega⟩
    have hle : firstPage poolsize ≤ a <<< pageShift large := by
      cases large with
      | true =>
        have hgroup := hok.group_pos hsize
        omega
      | false => exact hfirst.small hsize
    refine Nat.le_of_not_lt fun hlt => Nat.not_lt.mpr hle ((hheader _).mp ?_)
    rwa [← rowAt_ptr]
  · have hend := h.end_le hok hpos
    have hpool := hfit.pages_le
    have hmul := Nat.mul_le_mul_right (2 ^ smallPageBits poolsize) hend
    unfold rowAt rowBits
    simp only [Nat.shiftLeft_eq, ← Nat.add_mul]
    rw [Nat.pow_add, Nat.mul_comm (2 ^ smallPageBits poolsize), ← Nat.mul_assoc]
    omega

/-- A byte of a row lies in a small page of one of its pages. -/
theorem rowAt_byte {y : ℕ} (hlo : (rowAt poolsize large a n).ptr ≤ y)
    (hhi : y < (rowAt poolsize large a n).ptr + (rowAt poolsize large a n).len) :
    Among a n (y / 2 ^ smallPageBits poolsize / 2 ^ pageShift large) := by
  have hpos := Nat.two_pow_pos (rowBits poolsize large)
  unfold rowAt at hlo hhi
  simp only [Nat.shiftLeft_eq, ← Nat.add_mul] at hlo hhi
  rw [Nat.div_div_eq_div_mul, ← Nat.pow_add]
  exact ⟨(Nat.le_div_iff_mul_le hpos).mpr hlo, (Nat.div_lt_iff_lt_mul hpos).mpr hhi⟩

/-- **Unused pages lie apart from the elements in use.** -/
theorem FreeRow.apart (h : FreeRow on large a n) (hok : PoolOk poolsize 0 on head)
    (hfit : PagesFit poolsize) (hn : 0 < n) {b : ℕ} (huse : InUse poolsize on head p b i) :
    Extent.Disjoint (rowAt poolsize large a n) (blockAt poolsize p b i) := by
  by_contra hoverlap
  -- a byte of both, in the small page `q`
  obtain ⟨y, hlo, hhi, hlo', hhi'⟩ : ∃ y, (rowAt poolsize large a n).ptr ≤ y ∧
      y < (rowAt poolsize large a n).ptr + (rowAt poolsize large a n).len ∧
      (blockAt poolsize p b i).ptr ≤ y ∧
      y < (blockAt poolsize p b i).ptr + (blockAt poolsize p b i).len := by
    have hpos := huse.pos hok hfit
    have hlen : 0 < (rowAt poolsize large a n).len := by
      show 0 < n <<< rowBits poolsize large
      rw [Nat.shiftLeft_eq]
      exact Nat.mul_pos hn (Nat.two_pow_pos _)
    unfold Extent.Disjoint at hoverlap
    refine ⟨max (rowAt poolsize large a n).ptr (blockAt poolsize p b i).ptr, ?_⟩
    omega
  obtain ⟨q, hq⟩ : ∃ q, q = y / 2 ^ smallPageBits poolsize := ⟨_, rfl⟩
  have hbyte := Nat.div_add_mod' y (2 ^ smallPageBits poolsize)
  have hrow := rowAt_byte hlo hhi
  rw [← hq] at hbyte hrow
  have hfree := h _ hrow
  have hsize := (hok.free hfree (hok.listed.ne_zero hfree)).1
  obtain ⟨f, hp⟩ := huse.1
  have hmod : head.pagesize (p / 32) = true → p % 32 = 0 :=
    (hok.page_of hp (hok.listed.ne_zero hp)).large
  have hne : p ≠ (q / 2 ^ pageShift large) <<< pageShift large := by
    rintro rfl
    exact absurd (hp.symm.trans hfree) (by simp)
  have hcases := huse.cases_byte hok hfit (Nat.mod_lt y (Nat.two_pow_pos _)) (q := q)
    (by omega) (by omega)
  cases large with
  | true =>
    have hfront : (q / 2 ^ pageShift true) <<< pageShift true = 32 * (q / 32) := by
      rw [Nat.shiftLeft_eq, Nat.mul_comm]
      rfl
    rw [hfront] at hne hsize
    rw [Nat.mul_div_cancel_left _ (by decide)] at hsize
    rcases hcases with ⟨rfl, -⟩ | ⟨-, hgroup, hlarge⟩
    · have := hmod hsize
      omega
    · have := hmod hlarge
      omega
  | false =>
    have hfront : (q / 2 ^ pageShift false) <<< pageShift false = q := Nat.div_one q
    rw [hfront] at hne hsize
    rcases hcases with ⟨rfl, -⟩ | ⟨-, hgroup, hlarge⟩
    · exact hne rfl
    · rw [hgroup, hlarge] at hsize
      exact absurd hsize (by simp)

end Blocks

section Free

/-- The pool `head0`, after pages in a row were taken off their list for a huge allocation. The
structure of the allocation is the element at `t`. -/
structure HugeOk (poolsize : ℕ) (on : ℕ → Option PageList) (large : Bool) (a n t : ℕ)
    (head0 head : Pool) : Prop where
  ok : PoolOk poolsize 0 on head0
  row : FreeRow on large a n
  pos : 0 < n
  listed : Listed (moveRow (pageShift large) a n none on) head
  pagesize : head.pagesize = head0.pagesize
  elements : ∀ b, (head.bs b).elementsPerPage = (head0.bs b).elementsPerPage
  data : ∀ {q}, ¬ RowPage (pageShift large) a n q → on q ≠ none → head.data q = head0.data q
  unused : ∀ {q}, RowPage (pageShift large) a n q → (head.data q).elementsUsed = 0
  huge : head.huge = t
  record : head.hugeAlloc t =
    ⟨0, 0, (rowAt poolsize large a n).ptr, (rowAt poolsize large a n).len⟩

variable {t b : ℕ} {head0 : Pool} (h : HugeOk poolsize on large a n t head0 head)
include h

/-- A page of the row. -/
theorem HugeOk.rowPage (hq : RowPage (pageShift large) a n q) : on q = some (.free large) := by
  have hrow := h.row _ hq.2
  rwa [hq.1] at hrow

/-- The first page. -/
theorem HugeOk.front : on (a <<< pageShift large) = some (.free large) :=
  h.row a ⟨le_rfl, Nat.lt_add_of_pos_right h.pos⟩

/-- The elements in use are the same. -/
theorem HugeOk.inUse_iff {head' : Pool} (hdata : head'.data = head.data) :
    InUse poolsize on head' p b i ↔ InUse poolsize on head0 p b i := by
  unfold InUse
  refine and_congr_right fun ⟨f, hp⟩ => ?_
  have hnot : ¬ RowPage (pageShift large) a n p := fun hq =>
    absurd ((h.rowPage hq).symm.trans hp) (by simp)
  have hsame : head'.data p = head0.data p := by
    rw [hdata]
    exact h.data hnot (by simp [hp])
  rw [show (head'.page p).used = (head0.page p).used from congrArg PageData.used hsame]

/-- The place of the block is that of its first page. -/
theorem HugeOk.pageOf (hfit : PagesFit poolsize) :
    pageOf poolsize (rowAt poolsize large a n).ptr head = (large, a <<< pageShift large) := by
  have hne := h.ok.listed.ne_zero h.front
  have hpage := h.ok.page_of h.front hne
  have hsize := (h.ok.free h.front hne).1
  have hnumber : (rowAt poolsize large a n).ptr >>> smallPageBits poolsize =
      a <<< pageShift large := by
    show a <<< rowBits poolsize large >>> smallPageBits poolsize = _
    rw [shiftLeft_rowBits, Nat.shiftLeft_shiftRight]
  have hgroup : (a <<< pageShift large) >>> bitsFromSmallToLargePage =
      (a <<< pageShift large) / 32 := Nat.shiftRight_eq_div_pow _ 5
  unfold Pages.pageOf
  simp only [hnumber, hgroup, h.pagesize, hsize]
  cases large with
  | false => rfl
  | true =>
    have hmod := hpage.large hsize
    have hlt := hpage.group
    have hfew := hfit.largePages.2.1
    have hmask : a <<< pageShift true &&& Word.lnot 64 (2 ^ 5 - 1) =
        a <<< pageShift true / 2 ^ 5 * 2 ^ 5 := Word.land_lnot_two_pow (by omega)
    refine Prod.ext rfl (hmask.trans ?_)
    show a <<< pageShift true / 32 * 32 = a <<< pageShift true
    omega

/-- The structure is found from the place of the block. -/
theorem HugeOk.find (hfit : PagesFit poolsize) (ht : t ≠ 0) :
    hugeFind (rowAt poolsize large a n).ptr head poolsize head.huge = some t := by
  have hpool : 0 < poolsize := Nat.lt_of_lt_of_le (by decide) hfit.useful
  obtain ⟨fuel, hfuel⟩ := Nat.exists_eq_succ_of_ne_zero (Nat.ne_of_gt hpool)
  rw [hfuel, hugeFind, h.huge, if_neg ht, h.record, hfuel, if_pos rfl]

/-- **The size that is reported.** -/
theorem HugeOk.reports (hfit : PagesFit poolsize) (ht : t ≠ 0) :
    allocSize poolsize (rowAt poolsize large a n).ptr head =
      some (rowAt poolsize large a n).len := by
  unfold allocSize
  rw [h.pageOf hfit]
  simp only
  rw [if_pos (rowAt_ptr poolsize large a n).symm, hugeSize, h.find hfit ht]
  simp only [bind, Option.bind_some, h.record]

/-- The pages go back on their list, which gives the pool its form. -/
theorem HugeOk.relist (hfit : PagesFit poolsize) :
    ∃ head', addFoundPages poolsize large
        ((rowAt poolsize large a n).ptr + (rowAt poolsize large a n).len) (poolsize + 1)
        (rowAt poolsize large a n).ptr head = some head' ∧ Relinked head head' ∧
      PoolOk poolsize 0 on { head' with huge := 0 } := by
  have hlast := h.row.end_le h.ok h.pos
  have hfew := hfit.largePages.2.1
  have huseful := hfit.useful
  have hmin : minUsefulSize = 2 ^ 20 := by decide
  have hnone : ∀ x, Among a n x →
      moveRow (pageShift large) a n none on (x <<< pageShift large) = none := fun x hx =>
    if_pos (rowPage_shiftLeft.mpr hx)
  have hapos : 0 < a := Nat.pos_of_ne_zero fun ha =>
    h.ok.listed.ne_zero h.front (by rw [ha, Nat.zero_shiftLeft])
  have hend : (a + n) <<< pageShift large ≤ 2 ^ 16 := by
    rw [Nat.shiftLeft_eq]
    omega
  have hfuel : n < poolsize + 1 := by
    have := Nat.le_mul_of_pos_right (a + n) (Nat.two_pow_pos (pageShift large))
    omega
  obtain ⟨head', hadd, hrel, hlisted⟩ := addFoundPages_eq poolsize h.listed hnone hapos hend hfuel
  have hback : moveRow (pageShift large) a n (some (.free large))
      (moveRow (pageShift large) a n none on) = on := by
    funext q
    unfold moveRow
    split
    · next hq => exact (h.rowPage hq).symm
    · rfl
  rw [hback] at hlisted
  have hstop : (rowAt poolsize large a n).ptr + (rowAt poolsize large a n).len =
      (a + n) <<< rowBits poolsize large := by
    unfold rowAt
    simp only [Nat.shiftLeft_eq, ← Nat.add_mul]
  refine ⟨head', hstop ▸ hadd, hrel, hlisted.congr rfl fun _ => ⟨rfl, rfl⟩,
    fun {q l} hq hne => ?_, fun {q} hq hne => ?_, ?_, fun {c} hc => ?_, rfl⟩
  · obtain ⟨hpage, hok⟩ := h.ok.page hq hne
    show IsPage poolsize head'.pagesize q ∧
      PageOk poolsize (head'.pagesize (q / 32)) (head'.data q) l
    rw [hrel.pagesize, h.pagesize, hrel.data]
    refine ⟨hpage, ?_⟩
    by_cases hrow : RowPage (pageShift large) a n q
    · obtain rfl := Option.some.inj ((h.rowPage hrow).symm.trans hq)
      exact ⟨hok.1, h.unused hrow⟩
    · rwa [h.data hrow (by simp [hq])]
  · have hpage : IsPage poolsize head'.pagesize q := hq
    rw [hrel.pagesize, h.pagesize] at hpage
    exact h.ok.all hpage hne
  · show head'.pagesize 0 = false
    rw [hrel.pagesize, h.pagesize]
    exact h.ok.first
  · exact (hrel.elements c).trans ((h.elements c).trans (h.ok.elements hc))

/-- **A huge block can be freed**, and so its structure is. -/
theorem HugeOk.free (hfit : PagesFit poolsize) (ht : t ≠ 0)
    (hblocks : PageBlocks poolsize on head0 live) (huse : InUse poolsize on head0 p b i)
    (heq : t = placeAt poolsize p b i) :
    ∃ head', allocFree poolsize (rowAt poolsize large a n).ptr head = some head' ∧
      PagesOk poolsize head' (releaseBlock t live) := by
  subst heq
  obtain ⟨head1, hadd, hrel, hok⟩ := h.relist hfit
  have hrecord : head1.hugeAlloc (placeAt poolsize p b i) =
      ⟨0, 0, (rowAt poolsize large a n).ptr, (rowAt poolsize large a n).len⟩ := by
    rw [hrel.hugeAlloc, h.record]
  have hdel : delFromHuge (placeAt poolsize p b i) head1 = { head1 with huge := 0 } := by
    simp [delFromHuge, hrecord]
  have hiff : ∀ p b i, InUse poolsize on { head1 with huge := 0 } p b i ↔
      InUse poolsize on head0 p b i := fun _ _ _ => h.inUse_iff hrel.data
  have hblocks' : PageBlocks poolsize on { head1 with huge := 0 } live :=
    ⟨hblocks.nodup, fun {e} => by simpa only [hiff] using hblocks.mem⟩
  have huse' := (hiff p b i).mpr huse
  obtain ⟨on', head', hfree, hok', -, hothers⟩ := elementFree_eq hok hfit huse'
  refine ⟨head', ?_, on', hok', hblocks'.drop hok hfit huse' hothers⟩
  have hnumber : (rowAt poolsize large a n).ptr >>> smallPageBits poolsize >>>
      bitsFromSmallToLargePage = (a <<< pageShift large) / 32 := by
    rw [rowAt_ptr, Nat.shiftLeft_shiftRight]
    exact Nat.shiftRight_eq_div_pow _ 5
  have hsize := (h.ok.free h.front (h.ok.listed.ne_zero h.front)).1
  rw [allocFree, h.pageOf hfit, if_pos (rowAt_ptr poolsize large a n).symm, hugeFree,
    h.find hfit ht]
  simp only [bind, Option.bind_some, hnumber, h.record, h.pagesize, hsize, hadd, hdel]
  exact hfree

/-- A listed page that is not in the row has its header elsewhere. -/
theorem HugeOk.outside (hnot : ¬ RowPage (pageShift large) a n q) (hq : on q ≠ none) :
    ¬ ((rowAt poolsize large a n).ptr ≤ q <<< smallPageBits poolsize ∧
      q <<< smallPageBits poolsize <
        (rowAt poolsize large a n).ptr + (rowAt poolsize large a n).len) := by
  rintro ⟨hlo, hhi⟩
  have hrow := rowAt_byte hlo hhi
  rw [Nat.shiftLeft_eq q, Nat.mul_div_cancel _ (Nat.two_pow_pos _)] at hrow
  have hsize := (h.row.isPage h.ok hrow).2
  cases large with
  | false =>
    have hself : q / 2 ^ pageShift false = q := Nat.div_one q
    rw [hself] at hrow
    exact hnot ⟨rfl, hrow⟩
  | true =>
    have hfront : (q / 2 ^ pageShift true) <<< pageShift true = 32 * (q / 32) := by
      rw [Nat.shiftLeft_eq, Nat.mul_comm]
      rfl
    have hmem := h.row _ hrow
    rw [hfront] at hsize hmem
    have hne : q ≠ 32 * (q / 32) := fun heq => by
      rw [← hfront] at heq
      exact hnot (heq ▸ rowPage_shiftLeft.mpr hrow)
    have hq0 := h.ok.listed.ne_zero hmem
    exact hq (h.ok.inner (Nat.mul_mod_right 32 _) hsize
      (by rw [Nat.mul_div_cancel_left _ (by decide)]) hne (by omega))

end Free

section Requests

/-- The huge allocation that was made last. -/
def hugeBlock (head : Pool) : Extent :=
  ⟨(head.hugeAlloc head.huge).off, (head.hugeAlloc head.huge).len⟩

/-- The user of a block has written to it, but not over the counts in the headers of its pages,
which `huge_free` does not clear. -/
structure Filled (poolsize : ℕ) (block : Extent) (head head' : Pool) : Prop where
  other : head' = { head with page := head'.page }
  page : ∀ {q}, ¬ (block.ptr ≤ q <<< smallPageBits poolsize ∧
    q <<< smallPageBits poolsize < block.ptr + block.len) → head'.page q = head.page q
  count : ∀ q, (head'.page q).elementsUsed = (head.page q).elementsUsed

theorem HugeOk.fill {t : ℕ} {head0 : Pool} (h : HugeOk poolsize on large a n t head0 head)
    (hfill : Filled poolsize (rowAt poolsize large a n) head head') :
    HugeOk poolsize on large a n t head0 head' := by
  have hother := hfill.other
  have hsame : ∀ {q}, ¬ RowPage (pageShift large) a n q → on q ≠ none →
      head'.page q = head.page q := fun hnot hq => hfill.page (h.outside hnot hq)
  refine ⟨h.ok, h.row, h.pos, h.listed.congr ?_ fun {q l} hq => ?_, ?_, fun b => ?_,
    fun {q} hnot hq => ?_, fun {q} hq => (hfill.count q).trans (h.unused hq), ?_, ?_⟩
  · rw [hother]
    funext l
    match l with
    | .free false | .free true | .bucket false _ | .bucket true _ => rfl
  · by_cases hrow : RowPage (pageShift large) a n q
    · exact absurd ((if_pos hrow).symm.trans hq) (by simp)
    · have hon : on q = some l := (if_neg hrow).symm.trans hq
      rw [hsame hrow (by simp [hon])]
      exact ⟨rfl, rfl⟩
  · rw [hother]
    exact h.pagesize
  · rw [hother]
    exact h.elements b
  · rw [Pool.data, hsame hnot hq]
    exact h.data hnot hq
  · rw [hother]
    exact h.huge
  · rw [hother]
    exact h.record

/-- The first huge allocation. -/
theorem addToHugeList_nil (t : ℕ) {head : Pool} (hhuge : head.huge = 0) :
    addToHugeList t head = some { head with
      huge := t
      hugeAlloc := Function.update head.hugeAlloc t
        { head.hugeAlloc t with next := 0, prev := 0 } } := by
  simp [addToHugeList, Pool.setHuge, hhuge]

/-- **The pages that were found** are taken off their list, and the structure is filled in. -/
theorem HugeRow.done {t : ℕ} (h : HugeRow poolsize size align large head j num)
    (hok : PoolOk poolsize 0 on head) (hfit : PagesFit poolsize) :
    ∃ a head', hugeDone poolsize t large j num head =
        some (some (rowAt poolsize large a num).ptr, head') ∧
      head'.pagesize = head.pagesize ∧ hugeBlock head' = rowAt poolsize large a num ∧
      size ≤ (rowAt poolsize large a num).len ∧
      (OneSize poolsize head.pagesize (rowAt poolsize large a num) →
        a <<< rowBits poolsize large % align = 0 ∧ HugeOk poolsize on large a num t head head' ∧
          Spared poolsize on head head') := by
  obtain ⟨a, hapos, ha⟩ := h.exists_first hfit
  have hj : j = a + num - 1 := by omega
  have hoff : j - num + 1 = a := by
    have := h.pos
    omega
  obtain ⟨mid, hmid⟩ : ∃ mid, mid = delFoundPages (.free large) (pageShift large) num j head :=
    ⟨_, rfl⟩
  have hrel : Relinked head mid := hmid ▸ delFoundPages_relinked num j head
  refine ⟨a, { mid with
    huge := t
    hugeAlloc := Function.update mid.hugeAlloc t
      ⟨0, 0, (rowAt poolsize large a num).ptr, (rowAt poolsize large a num).len⟩ },
    ?_, hrel.pagesize, ?_, h.size_le, fun hone => ?_⟩
  · have hhuge : (mid.setHuge t { mid.hugeAlloc t with
        off := a <<< rowBits poolsize large
        len := num <<< rowBits poolsize large }).huge = 0 := hrel.huge.trans hok.huge
    unfold hugeDone
    simp only [rowBits_eq, hoff]
    rw [show (if large then bitsFromSmallToLargePage else 0) = pageShift large from rfl, ← hmid,
      addToHugeList_nil t hhuge]
    simp only [Pool.setHuge, bind, Option.bind_some, Function.update_self, Function.update_idem]
    rfl
  · simp [hugeBlock]
  · obtain ⟨hfree, haligned⟩ := h.free hok hfit ha hone
    obtain ⟨hlisted, hpage⟩ := delFoundPages_eq hok.listed hfree
    rw [← hj, ← hmid] at hlisted hpage
    refine ⟨haligned, ⟨hok, hfree, h.pos, hlisted.congr rfl fun _ => ⟨rfl, rfl⟩, hrel.pagesize,
      hrel.elements, fun {q} _ _ => congrFun hrel.data q, fun {q} hq => ?_, rfl,
      Function.update_self ..⟩, fun {p f b} _ => congrFun hrel.pagesize _,
      fun {p q f b} hp hlarge hne hq => hpage q ?_,
      fun {p f b i} _ _ => congrFun (congrArg PageData.used (congrFun hrel.data p)) i⟩
    · have hon := hfree _ hq.2
      have hused := (hok.free hon (hok.listed.ne_zero hon)).2
      rw [hq.1] at hused
      exact (congrArg PageData.elementsUsed (congrFun hrel.data q)).trans hused
    · have hmod := (hok.page_of hp (hok.listed.ne_zero hp)).large hlarge
      by_cases hq0 : q = 0
      · rw [hq0]
        exact hok.listed.zero
      · exact hok.inner hmod hlarge hq hne hq0

/-- What is known of a huge block of pages of one size, and that it can be freed. -/
structure HugeServed (poolsize k : ℕ) (live : List Extent) (head head' : Pool) : Prop where
  aligned : 2 ^ k ∣ (hugeBlock head').ptr
  header_le : headerSize (largePageBits poolsize) ≤ (hugeBlock head').ptr
  end_le : (hugeBlock head').ptr + (hugeBlock head').len ≤ poolsize
  apart : ∀ e ∈ live, Extent.Disjoint (hugeBlock head') e
  same : ∀ e ∈ live, SameData poolsize e head head'
  reports : allocSize poolsize (hugeBlock head').ptr head' = some (hugeBlock head').len
  free : ∀ {filled}, Filled poolsize (hugeBlock head') head' filled → ∃ head'',
    allocFree poolsize (hugeBlock head').ptr filled = some head'' ∧ PagesOk poolsize head'' live

theorem SameData.trans (h : SameData poolsize e head head')
    (h' : SameData poolsize e head' head'') :
    SameData poolsize e head head'' := by
  refine ⟨fun q hq => ?_, fun q j hj hq => (h'.2 q j hj hq).trans (h.2 q j hj hq)⟩
  obtain ⟨hnext, hprev, hcount, hbucket⟩ := h.1 q hq
  obtain ⟨hnext', hprev', hcount', hbucket'⟩ := h'.1 q hq
  exact ⟨hnext'.trans hnext, hprev'.trans hprev, hcount'.trans hcount, hbucket'.trans hbucket⟩

variable {b k : ℕ}

/-- The block that was taken last is taken back. -/
theorem PageBlocks.release_cons
    (hblocks : PageBlocks poolsize on head (blockAt poolsize p b i :: live))
    (hok : PoolOk poolsize 0 on head) (hfit : PagesFit poolsize) :
    releaseBlock (placeAt poolsize p b i) (blockAt poolsize p b i :: live) = live := by
  have hpos : ∀ e ∈ blockAt poolsize p b i :: live, 0 < e.len := fun e he => by
    obtain ⟨c, d, m, huse, rfl⟩ := hblocks.mem.mp he
    exact huse.pos hok hfit
  refine releaseBlock_issued fun e he heq => ?_
  have hapart := (List.pairwise_cons.mp (hblocks.apart hok hfit)).1 e he
  have hpos' := hpos _ List.mem_cons_self
  have hother := hpos e (List.mem_cons_of_mem _ he)
  unfold Extent.Disjoint at hapart
  simp only [blockAt] at hapart hpos'
  omega

/-- **A search that found pages** serves the request. -/
theorem HugeRow.serve (h : HugeRow poolsize size (2 ^ k) large head' j num)
    (hok : PoolOk poolsize 0 on head') (hfit : PagesFit poolsize)
    (hblocks : PageBlocks poolsize on head' (blockAt poolsize p b i :: live))
    (hbase : ∀ e ∈ live, SameData poolsize e head head') :
    ∃ q head'', hugeDone poolsize (placeAt poolsize p b i) large j num head' =
        some (some q, head'') ∧
      (hugeBlock head'').ptr = q ∧ size ≤ (hugeBlock head'').len ∧
      (OneSize poolsize head''.pagesize (hugeBlock head'') →
        HugeServed poolsize k live head head'') := by
  obtain ⟨a, head'', hcall, hsizes, hblock, hsize, hone⟩ :=
    h.done (t := placeAt poolsize p b i) hok hfit
  refine ⟨_, head'', hcall, by rw [hblock], by rwa [hblock], fun h1 => ?_⟩
  rw [hsizes, hblock] at h1
  obtain ⟨haligned, hhuge, hspared⟩ := hone h1
  obtain ⟨p', b', i', huse, heq⟩ := hblocks.mem.mp List.mem_cons_self
  have hin : ∀ e ∈ live, ∃ p b i, InUse poolsize on head' p b i ∧ e = blockAt poolsize p b i :=
    fun e he => hblocks.mem.mp (List.mem_cons_of_mem _ he)
  have hplace : placeAt poolsize p b i = placeAt poolsize p' b' i' := congrArg Extent.ptr heq
  have hne : placeAt poolsize p b i ≠ 0 := by
    have hle := le_placeAt hfit (huse.bucket_lt hok) p' i'
    have hpos : 0 < p' <<< smallPageBits poolsize + 8 := Nat.add_pos_right _ (by decide)
    rw [hplace]
    exact Nat.ne_of_gt (Nat.lt_of_lt_of_le (Nat.add_pos_left hpos _) hle)
  obtain ⟨hlo, hhi⟩ := hhuge.row.within hok hfit hhuge.pos
  constructor
  · rw [hblock]
    exact Nat.dvd_of_mod_eq_zero haligned
  · rwa [hblock]
  · rwa [hblock]
  · intro e he
    obtain ⟨c, d, m, hother, rfl⟩ := hin e he
    rw [hblock]
    exact hhuge.row.apart hok hfit hhuge.pos hother
  · intro e he
    obtain ⟨c, d, m, hother, rfl⟩ := hin e he
    exact (hbase _ he).trans (hspared.sameData hok hfit hother)
  · rw [hblock]
    exact hhuge.reports hfit hne
  · intro filled hfill
    rw [hblock] at hfill ⊢
    obtain ⟨head3, hfree, hback⟩ := (hhuge.fill hfill).free hfit hne hblocks huse hplace
    rw [hblocks.release_cons hok hfit] at hback
    exact ⟨head3, hfree, hback⟩

/-- Where the searches begin. -/
theorem firstRow_eq (hfit : PagesFit poolsize) (large : Bool) :
    (headerSize (largePageBits poolsize) + (1 <<< rowBits poolsize large) - 1) >>>
      rowBits poolsize large = firstRow poolsize large := by
  have hheader : headerSize (largePageBits poolsize) = _ := PagesFit.headerSize
  obtain ⟨hmin, hmax⟩ := hfit.smallPageBits
  obtain ⟨-, -, hfirst⟩ := hfit.firstPage
  have hfirst3 := mt (hfirst 3).mp (Nat.not_lt.mpr hfit.firstPage.2.1)
  rw [Nat.one_shiftLeft, Nat.shiftRight_eq_div_pow]
  cases large with
  | false =>
    show (_ + 2 ^ smallPageBits poolsize - 1) / 2 ^ smallPageBits poolsize = firstPage poolsize
    unfold firstPage
    rw [Nat.one_shiftLeft, Tiny.alignUp_two_pow (by omega) (by omega), Word.roundUp,
      Nat.shiftRight_eq_div_pow, Nat.mul_div_cancel _ (Nat.two_pow_pos _)]
  | true =>
    have hpow : 2 ^ rowBits poolsize true = 2 ^ smallPageBits poolsize * 32 := Nat.pow_add 2 _ 5
    rw [Nat.shiftLeft_eq] at hfirst3
    show (_ + 2 ^ rowBits poolsize true - 1) / 2 ^ rowBits poolsize true = 1
    refine Nat.div_eq_of_lt_le ?_ ?_ <;> rw [hpow] <;> omega

/-- **A huge request** returns. If it returns no block, the blocks in use are the same. -/
theorem PagesOk.huge (h : PagesOk poolsize head live) (hfit : PagesFit poolsize)
    (hcovers : poolsize ≤ maxLargePages <<< largePageBits poolsize) :
    ∃ p head', hugeAlloc poolsize size (2 ^ k) head = some (p, head') ∧
      (p = none → PagesOk poolsize head' live ∧ ∀ e ∈ live, SameData poolsize e head head') ∧
      ∀ q, p = some q → (hugeBlock head').ptr = q ∧ size ≤ (hugeBlock head').len ∧
        (OneSize poolsize head'.pagesize (hugeBlock head') →
          HugeServed poolsize k live head head') := by
  obtain ⟨on, hok, hblocks⟩ := h
  have hpool : 0 < poolsize := Nat.lt_of_lt_of_le (by decide) hfit.useful
  have hbucket : sizeToBucket (Tiny.alignUp sizeofHugeAlloc alignofHugeAlloc) = 20 := by decide
  have hb : 20 < maxBucket (largePageBits poolsize) := by
    have hbits := hfit.smallPageBits
    unfold maxBucket largePageBits bitsFromSmallToLargePage maxPageObjectOrder interBucketSpace
    omega
  have hsmallFirst := firstRow_eq hfit false
  have hlargeFirst := firstRow_eq hfit true
  have hfirst3 : firstRow poolsize false / 32 = 0 := by
    have : firstPage poolsize ≤ 3 := hfit.firstPage.2.1
    exact Nat.div_eq_of_lt (Nat.lt_of_le_of_lt this (by decide))
  unfold hugeAlloc
  rw [hbucket]
  obtain ⟨-, on1, head1, hget, hok1, hkept⟩ | ⟨-, p, i, on1, head1, hget, hok1, hspared, hnew,
    huse⟩ := bucketGet_eq hok hfit hb (by decide)
  · exact ⟨none, head1, by simp only [hget, bind, Option.bind_some], fun _ =>
      ⟨⟨on1, hok1, hblocks.kept hkept⟩, fun e he =>
        hblocks.sameData hok hfit (hkept.spared poolsize) he⟩, by simp⟩
  have hblocks1 := hblocks.take hok1 hfit hnew huse
  have hsame1 : ∀ e ∈ live, SameData poolsize e head head1 := fun e he =>
    hblocks.sameData hok hfit hspared he
  obtain ⟨r, hsmall, hfound⟩ : ∃ r, hugeSmallLoop poolsize size (2 ^ k) head1 (poolsize + 1)
      (firstRow poolsize false) 0 = some r ∧
        ∀ x ∈ r, HugeRow poolsize size (2 ^ k) false head1 x.1 x.2 :=
    hugeSmallLoop_eq hpool hok1.huge hcovers le_rfl
      (fun h1 => absurd (hok1.first.symm.trans (hfirst3 ▸ h1)) (by simp))
      (Nat.lt_succ_of_le (Nat.sub_le _ _)) (Counted.none le_rfl)
  rw [rowBits_false] at hsmallFirst
  simp only [hget, hsmallFirst, hsmall, bind, Option.bind_some]
  cases r with
  | some x =>
    obtain ⟨q, head2, hdone, hserved⟩ :=
      (hfound x (Option.mem_some.mpr rfl)).serve hok1 hfit hblocks1 hsame1
    refine ⟨some q, head2, hdone, by simp, fun q' hq => ?_⟩
    obtain rfl := Option.some.inj hq
    exact hserved
  | none =>
    obtain ⟨head2, on2, hrecombine, hok2, hkept, -⟩ := recombineSmallPages_eq hok1 hfit
    have hblocks2 := hblocks1.kept hkept
    have hsame2 : ∀ e ∈ live, SameData poolsize e head head2 := fun e he => (hsame1 e he).trans
      (hblocks1.sameData hok1 hfit (hkept.spared poolsize) (List.mem_cons_of_mem _ he))
    obtain ⟨r, hlarge, hfound⟩ : ∃ r, hugeLargeLoop poolsize size (2 ^ k) head2 (poolsize + 1)
        (firstRow poolsize true) 0 = some r ∧
          ∀ x ∈ r, HugeRow poolsize size (2 ^ k) true head2 x.1 x.2 :=
      hugeLargeLoop_eq hpool hok2.huge hcovers le_rfl (Nat.lt_succ_of_le (Nat.sub_le _ _))
        (Counted.none le_rfl)
    rw [rowBits_true] at hlargeFirst
    simp only [hrecombine, hlargeFirst, hlarge, Option.bind_some]
    cases r with
    | some x =>
      obtain ⟨q, head3, hdone, hserved⟩ :=
        (hfound x (Option.mem_some.mpr rfl)).serve hok2 hfit hblocks2 hsame2
      refine ⟨some q, head3, hdone, by simp, fun q' hq => ?_⟩
      obtain rfl := Option.some.inj hq
      exact hserved
    | none =>
      -- the structure goes back to its page
      have huse2 := hkept.inUse_iff.mpr ((huse p 20 i).mpr (Or.inr ⟨rfl, rfl, rfl⟩))
      obtain ⟨on3, head3, hfree, hok3, hspared3, hothers⟩ := elementFree_eq hok2 hfit huse2
      have hback := hblocks2.drop hok2 hfit huse2 hothers
      rw [hblocks2.release_cons hok2 hfit] at hback
      refine ⟨none, head3, ?_, fun _ => ⟨⟨on3, hok3, hback⟩, fun e he => (hsame2 e he).trans
        (hblocks2.sameData hok2 hfit hspared3 (List.mem_cons_of_mem _ he))⟩, by simp⟩
      simp only [hfree, Option.bind_some]

/-- **Huge allocations.** In every state that a run reaches, in a pool that the bitmap of large
pages covers, a huge request returns. If it returns no block, the pool keeps its form and the blocks
in use. If it returns a block, this is large enough. If the pages of the block are all of one size
and in the pool, it is aligned, lies in the pool behind its header and apart from all blocks in
use, of which none is changed; and it can be freed, whatever was written to it except for the
counts in the headers of its pages, which gives the pool its form again. -/
theorem pagesRun_huge (huseful : minUsefulSize ≤ poolsize) (hsmall : poolsize ≤ 2 ^ 38)
    (hrun : PagesRun poolsize head live)
    (hcovers : poolsize ≤ maxLargePages <<< largePageBits poolsize) (hn : n < 2 ^ 63) (hk : k < 64)
    (hb : maxBucket (largePageBits poolsize) ≤ bucketOf n (2 ^ k)) :
    ∃ p head', allocGet poolsize n (2 ^ k) head = some (p, head') ∧
      (p = none → PagesOk poolsize head' live ∧ ∀ e ∈ live, SameData poolsize e head head') ∧
      ∀ q, p = some q → (hugeBlock head').ptr = q ∧ requestSize n k ≤ (hugeBlock head').len ∧
        (OneSize poolsize head'.pagesize (hugeBlock head') →
          HugeServed poolsize k live head head') := by
  obtain ⟨hfit, hok⟩ := hrun.ok huseful hsmall
  have hcall : allocGet poolsize n (2 ^ k) head =
      hugeAlloc poolsize (requestSize n k) (2 ^ k) head := by
    unfold allocGet
    rw [if_pos hb, Tiny.alignUp_two_pow hk hn]
    rfl
  rw [hcall]
  exact hok.huge hfit hcovers

/-- A block of four small pages of a fresh pool of the least size. -/
theorem pagesRun_huge_mega : ∃ head head', PagesRun (2 ^ 20) head [] ∧
    allocGet (2 ^ 20) 500 (2 ^ 3) head = some (some 384, head') ∧
    hugeBlock head' = ⟨384, 512⟩ ∧ HugeServed (2 ^ 20) 3 [] head head' := by
  have hcalls : ((allocInit (2 ^ 20) zeroPool).bind fun head =>
      (allocGet (2 ^ 20) 500 (2 ^ 3) head).map fun c => (c.1, hugeBlock c.2, c.2.pagesize 0)) =
        some (some 384, ⟨384, 512⟩, false) := by
    decide +kernel
  obtain ⟨head, hinit, hget⟩ := Option.bind_eq_some_iff.mp hcalls
  obtain ⟨c, hget, heq⟩ := Option.map_eq_some_iff.mp hget
  obtain ⟨hplace, heq⟩ := Prod.mk.inj heq
  obtain ⟨hblock, hsize⟩ := Prod.mk.inj heq
  have hrun : PagesRun (2 ^ 20) head [] := .init hinit
  obtain ⟨p, head', hget', -, hserved⟩ :=
    pagesRun_huge (by decide) (by decide) hrun (by decide) (show 500 < 2 ^ 63 by decide)
      (show 3 < 64 by decide) (by decide)
  obtain rfl := Option.some.inj (hget'.symm.trans hget)
  obtain ⟨-, -, hone⟩ := hserved 384 hplace
  refine ⟨head, head', hrun, hget.trans (by rw [← hplace]), hblock, hone ?_⟩
  rw [hblock]
  refine ⟨false, fun q _ hq => ?_⟩
  have hbits : smallPageBits (2 ^ 20) = 7 := by decide
  rw [hbits, Nat.shiftLeft_eq] at hq
  have hgroup : q / 32 = 0 := by
    simp only at hq
    omega
  rw [hgroup]
  exact ⟨by decide, hsize⟩

/-- The condition is needed: in a pool whose last large page is not whole, a block of all large
pages ends 128 bytes behind the pool. -/
theorem pagesRun_huge_overrun : ∃ head head', PagesRun 1064832 head [] ∧
    allocGet 1064832 1056768 8 head = some (some 8192, head') ∧
    hugeBlock head' = ⟨8192, 1056768⟩ := by
  have hcalls : ((allocInit 1064832 zeroPool).bind fun head => (allocGet 1064832 1056768 8 head).map
      fun c => (c.1, hugeBlock c.2)) = some (some 8192, ⟨8192, 1056768⟩) := by decide +kernel
  obtain ⟨head, hinit, hget⟩ := Option.bind_eq_some_iff.mp hcalls
  obtain ⟨c, hget, heq⟩ := Option.map_eq_some_iff.mp hget
  obtain ⟨hplace, hblock⟩ := Prod.mk.inj heq
  exact ⟨head, c.2, .init hinit, hget.trans (by rw [← hplace]), hblock⟩

end Requests

end Shalloc.Pages
