import Mathlib.Data.List.Perm.Subperm
import Shalloc.Pages.Run

/-!
# The check of a pool with pages

The check goes over all lists, marks the pages that it finds, and last looks whether each small
page of the pool is marked. It does so in every state that a run reaches; but the small pages
behind the last large page are on no list, so that the check fails where there are some.

## Main definitions

- `seen` — the pages that are marked

## Main results

- `checkList_eq` — one list is gone over
- `pagesRun_check` — what the check returns
-/

namespace Shalloc.Pages

variable {poolsize b g i n p q : ℕ} {f : Bool} {l : PageList} {on : ℕ → Option PageList}
  {head : Pool} {live : List Extent} {lists : PageList → Bool}

section Lists

/-- The pages that are marked when some lists have been gone over. -/
def seen (poolsize : ℕ) (on : ℕ → Option PageList) (lists : PageList → Bool) (q : ℕ) : Bool :=
  decide (q < firstPage poolsize) || (on q).any lists

theorem seen_add (l : PageList) (q : ℕ) :
    seen poolsize on (fun l' => lists l' || decide (l' = l)) q =
      (seen poolsize on lists q || decide (on q = some l)) := by
  unfold seen
  rcases on q with _ | l'
  · simp
  · simp [Bool.or_assoc]

/-- A page of the pool does not reach behind its end. -/
theorem outOfBounds_eq (hfit : PagesFit poolsize) (span : ℕ)
    (hend : p + span ≤ 32 * largePages poolsize) :
    outOfBounds poolsize p (smallPageBits poolsize) (span * 2 ^ smallPageBits poolsize) =
      false := by
  have hsmall := hfit.small
  have hlast := hfit.pages_le
  have hall := Nat.mul_le_mul_right (2 ^ smallPageBits poolsize) hend
  rw [Nat.add_mul] at hall
  have hwrap : Word.wrap 64 (p <<< smallPageBits poolsize) = p * 2 ^ smallPageBits poolsize := by
    rw [Nat.shiftLeft_eq]
    exact Word.wrap_of_lt (by omega)
  unfold outOfBounds
  rw [hwrap, Nat.shiftRight_eq_div_pow, Nat.mul_div_cancel _ (Nat.two_pow_pos _)]
  simp only [ne_eq, not_true_eq_false, decide_false, Bool.false_or, Bool.or_eq_false_iff,
    decide_eq_false_iff_not]
  omega

/-- A list of pages is gone over. -/
theorem checkList_path {pagesize : ℕ} {place : ℕ → Bool} {ok : PageHeader → Bool}
    (h : PoolOk poolsize 0 on head)
    (hpage : ∀ q, on q = some l → outOfBounds poolsize q (smallPageBits poolsize) pagesize = false ∧
      place q = true ∧ ok (head.page q) = true) :
    ∀ {path : List ℕ} {fuel i prev : ℕ} {pages : ℕ → Bool},
    Links.Path head.links.next (pageIndex i) path → path.Nodup → path.length < fuel →
    (∀ q ∈ path, on q = some l ∧ pages q = false) →
    (∀ q, pageIndex i = some q → (head.page q).prev = prev) →
    checkList poolsize pagesize head place ok fuel i prev pages =
      some (some fun q => pages q || decide (q ∈ path)) := by
  intro path
  induction path with
  | nil =>
    intro fuel i prev pages hpath _ hfuel _ _
    have hi : i = 0 := pageIndex_eq_none.mp hpath
    cases fuel with
    | zero => exact absurd hfuel (Nat.not_lt_zero _)
    | succ fuel =>
      rw [checkList, if_pos hi]
      simp
  | cons q path ih =>
    intro fuel i prev pages hpath hnodup hfuel hall hprev
    obtain ⟨hi, hrest⟩ := hpath
    obtain ⟨rfl, hi0⟩ := pageIndex_eq_some.mp hi
    obtain ⟨hon, hunseen⟩ := hall i List.mem_cons_self
    obtain ⟨hbounds, hplace, hok⟩ := hpage i hon
    obtain ⟨hnot, hnodup⟩ := List.nodup_cons.mp hnodup
    cases fuel with
    | zero => exact absurd hfuel (Nat.not_lt_zero _)
    | succ fuel =>
      have hmarked : ∀ q ∈ path, on q = some l ∧ setBit pages i q = false := fun q hq => by
        obtain ⟨hqon, hq0⟩ := hall q (List.mem_cons_of_mem _ hq)
        have hne : q ≠ i := fun heq => hnot (heq ▸ hq)
        exact ⟨hqon, (Function.update_of_ne hne _ _).trans hq0⟩
      have hback : ∀ q, pageIndex (head.page i).next = some q → (head.page q).prev = i := by
        intro q hq
        obtain ⟨-, hprevq⟩ := h.listed.ok.next hon hq
        exact (pageIndex_eq_some.mp hprevq).1
      have hnext := ih hrest hnodup (Nat.lt_of_succ_lt_succ hfuel) hmarked hback
      rw [checkList, if_neg hi0, hbounds]
      simp only [Bool.false_eq_true, if_false, hplace, Bool.not_true, hprev i hi, ne_eq,
        not_true_eq_false, hunseen, hok, hnext]
      refine congrArg (fun pages => some (some pages)) (funext fun q => ?_)
      by_cases heq : q = i
      · simp [setBit, heq]
      · simp [setBit, heq]

/-- **A list is gone over**, after some others. -/
theorem checkList_eq {pagesize : ℕ} {place : ℕ → Bool} {ok : PageHeader → Bool}
    (h : PoolOk poolsize 0 on head) (hfit : PagesFit poolsize)
    (hpage : ∀ q, on q = some l → outOfBounds poolsize q (smallPageBits poolsize) pagesize = false ∧
      place q = true ∧ ok (head.page q) = true) (hnew : lists l = false) :
    checkList poolsize pagesize head place ok (maxSmallPages + 1) (head.list l) 0
        (seen poolsize on lists) =
      some (some (seen poolsize on fun l' => lists l' || decide (l' = l))) := by
  obtain ⟨path, hpath, hnodup, hall⟩ := h.listed.full l
  have hmem := h.listed.ok.path_on (fun j hj => (h.listed.ok.head hj).1) hpath
  have hfew := hfit.largePages.2.1
  have hlength : path.length ≤ maxSmallPages := by
    have hsub : path ⊆ List.range maxSmallPages := fun q hq => by
      have hon := hmem q hq
      have hgroup := (h.page_of hon (h.listed.ne_zero hon)).group
      have hmax : maxSmallPages = 8192 := rfl
      rw [List.mem_range]
      omega
    have hle := (List.Nodup.subperm hnodup hsub).length_le
    rwa [List.length_range] at hle
  rw [checkList_path h hpage hpath hnodup (Nat.lt_succ_of_le hlength) (fun q hq => ⟨hmem q hq, ?_⟩)
    fun q hq => ?_]
  · refine congrArg (fun pages => some (some pages)) (funext fun q => ?_)
    have hiff : q ∈ path ↔ on q = some l := ⟨hmem q, hall q⟩
    rw [seen_add, decide_eq_decide.mpr hiff]
  · have hon := hmem q hq
    have hpageq := h.page_of hon (h.listed.ne_zero hon)
    have hfirst := hfit.firstPage.2.1
    have hbehind : ¬ q < firstPage poolsize := by
      cases hsize : head.pagesize (q / 32) with
      | true =>
        have hpos := h.group_pos hsize
        omega
      | false => exact Nat.not_lt.mpr (hpageq.small hsize)
    simp [seen, hon, hnew, hbehind]
  · have hnone := (h.listed.ok.head (show head.links.head l = some q from hq)).2
    exact pageIndex_eq_none.mp hnone

end Lists

section Buckets

/-- The lists of unused pages, and those of the first buckets. -/
def listsBelow (m : ℕ) : PageList → Bool
  | .free _ => true
  | .bucket _ b => decide (b < m)

variable (h : PoolOk poolsize 0 on head) (hfit : PagesFit poolsize)
include h hfit

/-- A page of a list of unused ones passes, -/
theorem check_free (large : Bool) :
    ∀ q, on q = some (.free large) →
      outOfBounds poolsize q (smallPageBits poolsize)
        (1 <<< if large then largePageBits poolsize else smallPageBits poolsize) = false ∧
      head.pagesize (q >>> bitsFromSmallToLargePage) = large ∧ (large = true → q % 32 = 0) := by
  intro q hq
  have hq0 := h.listed.ne_zero hq
  have hpage := h.page_of hq hq0
  obtain ⟨hsize, -⟩ := h.free hq hq0
  have hgroup := hpage.group
  refine ⟨?_, by rw [Nat.shiftRight_eq_div_pow]; exact hsize, fun hlarge => ?_⟩
  · cases large with
    | true =>
      have hmod := hpage.large hsize
      have hspan := outOfBounds_eq hfit (p := q) 32 (by omega)
      rw [if_pos rfl, Nat.one_shiftLeft, largePageBits_eq, Nat.pow_add, Nat.mul_comm]
      exact hspan
    | false =>
      have hspan := outOfBounds_eq hfit (p := q) 1 (by omega)
      rw [if_neg (by simp), Nat.one_shiftLeft, ← Nat.one_mul (2 ^ smallPageBits poolsize)]
      exact hspan
  · exact hpage.large (hsize.trans hlarge)

/-- and so does one of a list of a bucket. -/
theorem check_bucket :
    ∀ q, on q = some (.bucket f b) →
      outOfBounds poolsize q (smallPageBits poolsize) (1 <<< pageBits poolsize b) = false ∧
      head.pagesize (q >>> bitsFromSmallToLargePage) =
        largePageBucket b (smallPageBits poolsize) ∧
      (largePageBucket b (smallPageBits poolsize) = true → q % 32 = 0) ∧
      PageInUse poolsize f b (head.pagesize (q / 32)) (head.data q) := by
  intro q hq
  have hq0 := h.listed.ne_zero hq
  have hpage := h.page_of hq hq0
  have huse := h.inUse hq hq0
  have hgroup := hpage.group
  obtain ⟨hspan, -⟩ := h.span hq
  refine ⟨?_, by rw [Nat.shiftRight_eq_div_pow]; exact huse.large, fun hlarge =>
    hpage.large (huse.large.trans hlarge), huse⟩
  have hsize : 1 <<< pageBits poolsize b = pageSpan poolsize b * 2 ^ smallPageBits poolsize := by
    rw [Nat.one_shiftLeft]
    exact congrArg Extent.len (pageAt_eq poolsize 0 b)
  rw [hsize]
  exact outOfBounds_eq hfit _ (by omega)

/-- **The lists of a bucket** are gone over. -/
theorem checkBucket_eq (hb : b < maxBucket (largePageBits poolsize)) :
    checkBucket poolsize b head (seen poolsize on (listsBelow b)) =
      some (some (seen poolsize on (listsBelow (b + 1)))) := by
  obtain ⟨hpos, hfits, hmost⟩ := hfit.elements_spec hb
  have hlt := hfit.elements_lt hb
  have hpagesize : (if largePageBucket b (smallPageBits poolsize) then largePageBits poolsize
      else smallPageBits poolsize) = pageBits poolsize b := rfl
  have hnotOver : ¬ 1 <<< pageBits poolsize b <
      pageHeaderSize (b / interBucketSpace) (elements poolsize b) +
        bucketToSize b * elements poolsize b := by
    rw [Nat.one_shiftLeft]
    exact Nat.not_lt.mpr hfits
  have hnotUnder : ¬ pageHeaderSize (b / interBucketSpace) (elements poolsize b + 1) +
      bucketToSize b * (elements poolsize b + 1) ≤ 1 <<< pageBits poolsize b := by
    rw [Nat.one_shiftLeft]
    exact Nat.not_le.mpr (hmost _ (Nat.lt_succ_self _) (by omega))
  unfold checkBucket
  simp only [h.elements hb, hpagesize]
  rw [if_neg hnotOver, if_neg hnotUnder]
  refine Option.bind_eq_some_iff.mpr ⟨some _, checkList_eq (l := .bucket false b) h hfit
    (fun q hq => ?_) (by simp [listsBelow]), ?_⟩
  · obtain ⟨hbounds, hsize, hmod, huse⟩ := check_bucket h hfit q hq
    refine ⟨hbounds, ?_, ?_⟩
    · rw [hsize]
      cases hlarge : largePageBucket b (smallPageBits poolsize) with
      | true =>
        have hzero : q % smallPagesPerLargePage = 0 := hmod hlarge
        simp [hzero]
      | false => simp
    · have hle : (head.data q).elementsUsed ≤ elements poolsize b := by
        rw [huse.count]
        exact countBits_le _ _
      have hroom : (head.data q).elementsUsed ≠ elements poolsize b := fun heq =>
        absurd (huse.full.mp heq) (by simp)
      simp only [Bool.and_eq_true, decide_eq_true_eq]
      exact ⟨⟨⟨Nat.ne_of_gt huse.pos, Nat.lt_of_le_of_ne hle hroom⟩, huse.count⟩, huse.bucket⟩
  · refine (checkList_eq (l := .bucket true b) h hfit (fun q hq => ?_)
      (by simp [listsBelow])).trans ?_
    · obtain ⟨hbounds, hsize, hmod, huse⟩ := check_bucket h hfit q hq
      refine ⟨hbounds, ?_, ?_⟩
      · simp [hsize]
      · simp only [Bool.and_eq_true, decide_eq_true_eq]
        exact ⟨⟨huse.full.mpr rfl, huse.count⟩, huse.bucket⟩
    · refine congrArg (fun lists => some (some (seen poolsize on lists))) (funext fun l => ?_)
      cases l with
      | free large => simp [listsBelow]
      | bucket f c =>
        rw [Bool.eq_iff_iff]
        cases f with
        | false =>
          simp [listsBelow]
          omega
        | true =>
          simp [listsBelow]
          omega

/-- The lists of all buckets are gone over. -/
theorem checkBuckets_eq : ∀ n b, b + n = maxBucket (largePageBits poolsize) →
    checkBuckets poolsize head n b (seen poolsize on (listsBelow b)) =
      some (some (seen poolsize on (listsBelow (b + n)))) := by
  intro n
  induction n with
  | zero => exact fun _ _ => rfl
  | succ n ih =>
    intro b hn
    have hnext := ih (b + 1) (by omega)
    rw [checkBuckets, checkBucket_eq h hfit (by omega)]
    rw [Nat.add_right_comm] at hnext
    exact hnext

/-- All pages are marked then. -/
theorem seen_page (hp : IsPage poolsize head.pagesize p) :
    seen poolsize on (listsBelow (maxBucket (largePageBits poolsize))) p = true := by
  have hp0 := h.ne_zero hfit hp
  unfold seen
  rw [Bool.or_eq_true]
  refine Or.inr ?_
  rcases h.cases hp hp0 with hfree | ⟨f, b, hused⟩
  · rw [hfree]
    rfl
  · rw [hused]
    exact decide_eq_true (h.inUse hused hp0).bucket_lt

/-- **Each small page** of the pool is looked up, up to the end of the large pages. Small pages
behind them are not marked, and may have no bit. -/
theorem checkAccounted_eq : ∀ fuel i, i ≤ 32 * largePages poolsize →
    (head.pagesize (i / 32) = true → i % 32 = 0) → maxSmallPages + 2 ≤ fuel + i →
    checkAccounted poolsize head
        (seen poolsize on (listsBelow (maxBucket (largePageBits poolsize)))) fuel i =
      if (poolsize >>> smallPageBits poolsize) % 32 = 0 then some true
      else if largePages poolsize < maxLargePages then some false else none := by
  have hfew := hfit.largePages.2.1
  have hmax : maxSmallPages = 8192 := rfl
  have hmaxLarge : maxLargePages = 256 := rfl
  have hgroups : largePages poolsize = poolsize >>> smallPageBits poolsize / 32 := by
    rw [largePages, largePageBits_eq, Nat.shiftRight_add, Nat.shiftRight_eq_div_pow _ 5]
  intro fuel
  induction fuel with
  | zero => exact fun i hi _ hfuel => by omega
  | succ fuel ih =>
    intro i hi hmod hfuel
    have hshift : i >>> bitsFromSmallToLargePage = i / 32 := Nat.shiftRight_eq_div_pow i 5
    rw [checkAccounted, hshift]
    rcases Nat.eq_or_lt_of_le hi with rfl | hlt
    · -- behind the large pages
      by_cases hrest : (poolsize >>> smallPageBits poolsize) % 32 = 0
      · rw [if_pos hrest, if_neg (by omega)]
      · rw [if_neg hrest, if_pos (by omega)]
        by_cases hbits : largePages poolsize < maxLargePages
        · have hunseen : seen poolsize on (listsBelow (maxBucket (largePageBits poolsize)))
              (32 * largePages poolsize) = false := by
            have hnone : on (32 * largePages poolsize) = none := by
              cases hon : on (32 * largePages poolsize) with
              | none => rfl
              | some l =>
                have hgroup := (h.page_of hon (h.listed.ne_zero hon)).group
                omega
            have hfirst := hfit.firstPage.2.1
            have hmany := hfit.largePages.1
            unfold seen
            rw [hnone, decide_eq_false (by omega)]
            rfl
          rw [if_pos hbits, if_neg (by omega), hunseen]
          rfl
        · rw [if_neg hbits, if_pos (by omega)]
    · have hseen : seen poolsize on (listsBelow (maxBucket (largePageBits poolsize))) i = true := by
        by_cases hfirst : i < firstPage poolsize
        · unfold seen
          rw [decide_eq_true hfirst]
          rfl
        · exact seen_page h hfit ⟨by omega, hmod, fun _ => Nat.le_of_not_lt hfirst⟩
      rw [if_pos (by omega), if_neg (by omega), hseen]
      simp only [Bool.not_true, Bool.false_eq_true, if_false]
      split
      · next hlarge =>
        have h32 := hmod hlarge
        exact ih _ (show i + 32 ≤ _ by omega) (fun _ => by
          show (i + 32) % 32 = 0
          omega) (by
          show _ ≤ fuel + (i + 32)
          omega)
      · next hsmall =>
        refine ih _ hlt (fun hlarge => ?_) (by omega)
        by_contra hne
        have hgroup : (i + 1) / 32 = i / 32 := by omega
        exact hsmall (hgroup ▸ hlarge)

/-- **The check of a pool.** -/
theorem allocCheck_eq : allocCheck poolsize head =
    if (poolsize >>> smallPageBits poolsize) % 32 = 0 then some true
    else if largePages poolsize < maxLargePages then some false else none := by
  have hheader : (fun i => decide (i <<< smallPageBits poolsize <
      headerSize (largePageBits poolsize))) = seen poolsize on fun _ => false := by
    funext i
    have hiff := hfit.firstPage.2.2 i
    have hany : (on i).any (fun _ => false) = false := by
      cases on i <;> rfl
    unfold seen
    rw [hany, Bool.or_false]
    exact decide_eq_decide.mpr hiff
  have hlists : (fun l => (false || decide (l = PageList.free false)) ||
      decide (l = PageList.free true)) = listsBelow 0 := by
    funext l
    cases l with
    | free large => cases large <;> rfl
    | bucket f b => simp [listsBelow]
  have hsmall : checkList poolsize (1 <<< smallPageBits poolsize) head
      (fun i => !head.pagesize (i >>> bitsFromSmallToLargePage)) (fun _ => true)
      (maxSmallPages + 1) head.smallFreeList 0 (seen poolsize on fun _ => false) =
      some (some (seen poolsize on fun l => false || decide (l = .free false))) :=
    checkList_eq (l := .free false) h hfit (fun q hq => by
      obtain ⟨hbounds, hsize, -⟩ := check_free h hfit false q hq
      exact ⟨hbounds, by rw [hsize]; rfl, rfl⟩) rfl
  have hlarge : checkList poolsize (1 <<< largePageBits poolsize) head
      (fun i => head.pagesize (i >>> bitsFromSmallToLargePage) &&
        decide (i % smallPagesPerLargePage = 0)) (fun _ => true)
      (maxSmallPages + 1) head.largeFreeList 0
        (seen poolsize on fun l => false || decide (l = .free false)) =
      some (some (seen poolsize on (listsBelow 0))) := by
    rw [← hlists]
    exact checkList_eq (l := .free true) h hfit (fun q hq => by
      obtain ⟨hbounds, hsize, hmod⟩ := check_free h hfit true q hq
      refine ⟨hbounds, ?_, rfl⟩
      rw [hsize]
      exact decide_eq_true (hmod rfl)) rfl
  have hbuckets := checkBuckets_eq h hfit (maxBucket (largePageBits poolsize)) 0 (Nat.zero_add _)
  rw [Nat.zero_add] at hbuckets
  unfold allocCheck
  simp only [hheader, hsmall, hlarge, hbuckets, h.huge, bind, Option.bind_some]
  have hhuge : checkHuge poolsize head (poolsize + 1) 0 0
      (seen poolsize on (listsBelow (maxBucket (largePageBits poolsize)))) = some (some _) := rfl
  rw [hhuge]
  exact checkAccounted_eq h hfit _ 0 (Nat.zero_le _) (fun _ => rfl) le_rfl

end Buckets

/-- **What the check returns**, in every state that a run reaches. It passes if and only if there
are no small pages behind the last large page of the pool. If there are some, it fails, and where
the pool has as many large pages as there are numbers, it reads past the end of its bitmap. -/
theorem pagesRun_check (huseful : minUsefulSize ≤ poolsize) (hsmall : poolsize ≤ 2 ^ 38)
    (hrun : PagesRun poolsize head live) : allocCheck poolsize head =
      if (poolsize >>> smallPageBits poolsize) % smallPagesPerLargePage = 0 then some true
      else if largePages poolsize < maxLargePages then some false else none := by
  obtain ⟨hfit, on, hok, -⟩ := hrun.ok huseful hsmall
  exact allocCheck_eq hok hfit

theorem pagesRun_check_mega : ∃ head q, PagesRun (2 ^ 20) head [⟨q, 24⟩] ∧
    allocCheck (2 ^ 20) head = some true := by
  obtain ⟨head, q, hrun⟩ := pagesRun_mega
  have hcheck := pagesRun_check (by decide) (by decide) hrun
  exact ⟨head, q, hrun, hcheck.trans (if_pos (by decide))⟩

end Shalloc.Pages
