import Shalloc.Pages.Elements

/-!
# Elements that are put back

The place of an element tells its page, and the page its bucket. A full page has room again when
an element of it is freed, and one whose last element is freed is unused again.

## Main definitions

- `blockAt` — the bytes of an element

## Main results

- `pageOf_eq` — the page of an element
- `elementFree_eq` — an element is freed
-/

namespace Shalloc.Pages

variable {poolsize b c i j k p q x : ℕ} {f : Bool} {on on' : ℕ → Option PageList}
  {head head' : Pool}

section Places

/-- The bytes of element `i` of page `p`, -/
def blockAt (poolsize p b i : ℕ) : Extent := ⟨placeAt poolsize p b i, bucketToSize b⟩

/-- and those of the page. -/
def pageAt (poolsize p b : ℕ) : Extent := ⟨p <<< smallPageBits poolsize, 2 ^ pageBits poolsize b⟩

/-- The elements of a page lie behind its header, -/
theorem le_placeAt (hfit : PagesFit poolsize) (hb : b < maxBucket (largePageBits poolsize))
    (p i : ℕ) :
    p <<< smallPageBits poolsize + 8 + usedSize (elements poolsize b) ≤ placeAt poolsize p b i := by
  have hlog := hfit.bucket_le hb
  have hlt := hfit.elements_lt hb
  have hheader : 8 + usedSize (elements poolsize b) ≤ elementsAt poolsize b :=
    le_pageHeaderSize (show b / 4 < 63 by omega) (by omega)
  unfold placeAt
  omega

/-- and inside the page. -/
theorem blockAt_within (hfit : PagesFit poolsize) (hb : b < maxBucket (largePageBits poolsize))
    (hi : i < elements poolsize b) (p : ℕ) :
    Extent.Within (blockAt poolsize p b i) (pageAt poolsize p b) := by
  obtain ⟨-, hfits, -⟩ := hfit.elements_spec hb
  have hmul : (i + 1) * bucketToSize b ≤ bucketToSize b * elements poolsize b := by
    rw [Nat.mul_comm]
    exact Nat.mul_le_mul_left _ hi
  rw [Nat.succ_mul i] at hmul
  unfold blockAt pageAt Extent.Within placeAt
  simp only
  omega

/-- Elements of one page lie apart. -/
theorem blockAt_disjoint (hne : i ≠ j) (p : ℕ) :
    Extent.Disjoint (blockAt poolsize p b i) (blockAt poolsize p b j) := by
  have hstep : ∀ {i j : ℕ}, i < j → i * bucketToSize b + bucketToSize b ≤ j * bucketToSize b := by
    intro i j hlt
    have hmul := Nat.mul_le_mul_right (bucketToSize b) (Nat.succ_le_of_lt hlt)
    rwa [Nat.succ_mul i] at hmul
  unfold blockAt Extent.Disjoint placeAt
  simp only
  rcases Nat.lt_or_gt_of_ne hne with hlt | hgt
  · have := hstep hlt
    omega
  · have := hstep hgt
    omega

/-- The number of small pages that a page of a bucket takes. -/
def pageSpan (poolsize b : ℕ) : ℕ := if largePageBucket b (smallPageBits poolsize) then 32 else 1

theorem pageAt_eq (poolsize p b : ℕ) : pageAt poolsize p b =
    ⟨p * 2 ^ smallPageBits poolsize, pageSpan poolsize b * 2 ^ smallPageBits poolsize⟩ := by
  unfold pageAt pageBits pageSpan
  rw [Nat.shiftLeft_eq]
  split
  · rw [largePageBits_eq, Nat.pow_add, Nat.mul_comm (2 ^ smallPageBits poolsize)]
  · rw [Nat.one_mul]

/-- Small pages in a row lie in a page, or apart from it. -/
theorem span_le {m n : ℕ} (h : m ≤ n) :
    m * 2 ^ smallPageBits poolsize ≤ n * 2 ^ smallPageBits poolsize := Nat.mul_le_mul_right _ h

/-- A page in use takes part of its group, or all of it. -/
theorem PoolOk.span (h : PoolOk poolsize 0 on head) (hp : on p = some (.bucket f b)) :
    p + pageSpan poolsize b ≤ 32 * (p / 32 + 1) ∧
      (head.pagesize (p / 32) = true → p = 32 * (p / 32) ∧ pageSpan poolsize b = 32) ∧
      (head.pagesize (p / 32) = false → pageSpan poolsize b = 1) := by
  have hp0 := h.listed.ne_zero hp
  have hlarge := (h.inUse hp hp0).large
  unfold pageSpan
  rw [← hlarge]
  cases hsize : head.pagesize (p / 32) with
  | true =>
    have hmod := (h.page_of hp hp0).large hsize
    rw [if_pos rfl]
    exact ⟨by omega, fun _ => ⟨by omega, rfl⟩, fun h0 => absurd h0 (by simp)⟩
  | false =>
    rw [if_neg (by simp)]
    exact ⟨by omega, fun h1 => absurd h1 (by simp), fun _ => rfl⟩

/-- **Pages in use lie apart**, -/
theorem PoolOk.spans_apart (h : PoolOk poolsize 0 on head) {f' : Bool}
    (hp : on p = some (.bucket f b)) (hq : on q = some (.bucket f' c)) (hne : p ≠ q) :
    p + pageSpan poolsize b ≤ q ∨ q + pageSpan poolsize c ≤ p := by
  obtain ⟨hpend, hplarge, hpsmall⟩ := h.span hp
  obtain ⟨hqend, hqlarge, hqsmall⟩ := h.span hq
  by_cases hgroup : p / 32 = q / 32
  · cases hsize : head.pagesize (p / 32) with
    | true =>
      have hp32 := (hplarge hsize).1
      have hq32 := (hqlarge (hgroup ▸ hsize)).1
      omega
    | false =>
      have hp1 := hpsmall hsize
      have hq1 := hqsmall (hgroup ▸ hsize)
      omega
  · omega

/-- and so do their bytes. -/
theorem PoolOk.pages_apart (h : PoolOk poolsize 0 on head) {f' : Bool}
    (hp : on p = some (.bucket f b)) (hq : on q = some (.bucket f' c)) (hne : p ≠ q) :
    Extent.Disjoint (pageAt poolsize p b) (pageAt poolsize q c) := by
  rw [pageAt_eq, pageAt_eq]
  unfold Extent.Disjoint
  simp only [← Nat.add_mul]
  exact (h.spans_apart hp hq hne).imp span_le span_le

/-- A page in use lies in the pool, behind the header. -/
theorem PoolOk.page_within (h : PoolOk poolsize 0 on head) (hfit : PagesFit poolsize)
    (hp : on p = some (.bucket f b)) :
    headerSize (largePageBits poolsize) ≤ (pageAt poolsize p b).ptr ∧
      Extent.Within (pageAt poolsize p b) ⟨0, poolsize⟩ := by
  have hpage := h.page_of hp (h.listed.ne_zero hp)
  obtain ⟨-, hfirst3, hheader⟩ := hfit.firstPage
  obtain ⟨hend, -⟩ := h.span hp
  constructor
  · have hle : firstPage poolsize ≤ p := by
      cases hsize : head.pagesize (p / 32) with
      | true =>
        have hpos := h.group_pos hsize
        omega
      | false => exact hpage.small hsize
    exact Nat.le_of_not_lt fun hlt => Nat.not_lt.mpr hle ((hheader p).mp hlt)
  · have hgroup := hpage.group
    have hall := Nat.mul_le_mul_right (2 ^ smallPageBits poolsize)
      (show p + pageSpan poolsize b ≤ 32 * largePages poolsize by omega)
    have hlast := hfit.pages_le
    rw [pageAt_eq]
    unfold Extent.Within
    simp only [← Nat.add_mul]
    omega

/-- **The page of a place** is found from the size of its group. -/
theorem pageOf_eq (h : PoolOk poolsize 0 on head) (hfit : PagesFit poolsize)
    (hp : on p = some (.bucket f b)) (hlo : (pageAt poolsize p b).ptr ≤ x)
    (hhi : x < (pageAt poolsize p b).ptr + (pageAt poolsize p b).len) :
    pageOf poolsize x head = (head.pagesize (p / 32), p) := by
  obtain ⟨hend, hlarge, hsmall⟩ := h.span hp
  rw [pageAt_eq] at hlo hhi
  simp only [← Nat.add_mul] at hlo hhi
  have hpos := Nat.two_pow_pos (smallPageBits poolsize)
  have hge : p ≤ x / 2 ^ smallPageBits poolsize := (Nat.le_div_iff_mul_le hpos).mpr hlo
  have hlt : x / 2 ^ smallPageBits poolsize < p + pageSpan poolsize b :=
    (Nat.div_lt_iff_lt_mul hpos).mpr hhi
  have hgroup : x / 2 ^ smallPageBits poolsize / 32 = p / 32 := by omega
  unfold pageOf
  have hshift : x >>> smallPageBits poolsize >>> bitsFromSmallToLargePage = p / 32 := by
    rw [Nat.shiftRight_eq_div_pow, Nat.shiftRight_eq_div_pow]
    exact hgroup
  simp only
  rw [hshift, Nat.shiftRight_eq_div_pow]
  cases hsize : head.pagesize (p / 32) with
  | true =>
    obtain ⟨hp32, -⟩ := hlarge hsize
    have hgroupLt := (h.page_of hp (h.listed.ne_zero hp)).group
    have hfew := hfit.largePages.2.1
    have hmask : x / 2 ^ smallPageBits poolsize &&& Word.lnot 64 (2 ^ 5 - 1) =
        x / 2 ^ smallPageBits poolsize / 2 ^ 5 * 2 ^ 5 := Word.land_lnot_two_pow (by omega)
    rw [if_pos rfl]
    refine Prod.ext rfl (hmask.trans ?_)
    show x / 2 ^ smallPageBits poolsize / 32 * 32 = p
    omega
  | false =>
    have hone := hsmall hsize
    rw [if_neg (by simp)]
    refine Prod.ext rfl ?_
    show x / 2 ^ smallPageBits poolsize = p
    omega

/-- It is found from the place of an element, which is not the place of the page. -/
theorem pageOf_placeAt (h : PoolOk poolsize 0 on head) (hfit : PagesFit poolsize)
    (hp : on p = some (.bucket f b)) (hi : i < elements poolsize b) :
    pageOf poolsize (placeAt poolsize p b i) head = (head.pagesize (p / 32), p) := by
  have hb := (h.inUse hp (h.listed.ne_zero hp)).bucket_lt
  obtain ⟨hlo, hhi⟩ := blockAt_within hfit hb hi p
  refine pageOf_eq h hfit hp hlo (Nat.lt_of_lt_of_le ?_ hhi)
  exact Nat.lt_add_of_pos_right (bucketToSize_pos (hfit.bucket_le hb).2)

theorem placeAt_ne (hfit : PagesFit poolsize) (hb : b < maxBucket (largePageBits poolsize))
    (p i : ℕ) : p <<< smallPageBits poolsize ≠ placeAt poolsize p b i := by
  have hle := le_placeAt hfit hb p i
  omega

end Places

section Free

/-- A page that has room, or is about to, is on the list of pages with room. -/
theorem PoolOk.makeRoom (h : PoolOk poolsize 0 on head) (hfit : PagesFit poolsize)
    (hp : on p = some (.bucket f b)) :
    ∃ head' on', (if (head.page p).elementsUsed = Pages.elements poolsize b then
        addToList (.bucket false b) p (delFromList (.bucket true b) p head)
      else some head) = some head' ∧ PoolOk poolsize p on' head' ∧ Relinked head head' ∧
      on' p = some (.bucket false b) ∧ (∀ q, q ≠ p → on' q = on q) ∧
      ∀ q, q ≠ p → on q = none → head'.page q = head.page q := by
  have hp0 := h.listed.ne_zero hp
  have huse := h.inUse hp hp0
  have hp16 : p < 2 ^ 16 := by
    have hgroup := (h.page_of hp hp0).group
    have hfew := hfit.largePages.2.1
    omega
  by_cases hfull : (head.page p).elementsUsed = Pages.elements poolsize b
  · obtain rfl : f = true := huse.full.mp hfull
    obtain ⟨head', hcall, hrel, hok, hframe⟩ := (h.open hfit p).move hp hp16 (.bucket false b)
    rw [if_pos hfull]
    exact ⟨head', _, hcall, hok, hrel, Function.update_self ..,
      fun q hne => Function.update_of_ne hne _ _, hframe⟩
  · obtain rfl : f = false := Bool.eq_false_iff.mpr (mt huse.full.mpr hfull)
    rw [if_neg hfull]
    exact ⟨head, on, rfl, h.open hfit p, Relinked.refl head, hp, fun _ _ => rfl, fun _ _ _ => rfl⟩

/-- An element of the page is put back, and the page is unused if it was the last one. -/
theorem PoolOk.put (h : PoolOk poolsize p on head) (hfit : PagesFit poolsize)
    (hp : on p = some (.bucket false b)) (hpage : IsPage poolsize head.pagesize p)
    (huse : PageInUse poolsize f b (head.pagesize (p / 32)) (head.data p))
    (hi : i < Pages.elements poolsize b) (hused : (head.page p).used i = true) (hhead' : head' =
      head.setPage p
        { head.page p with
          used := clearBit (head.page p).used i
          elementsUsed := Word.sub 25 (head.page p).elementsUsed 1 }) :
    ∃ head'' on', (if (head'.page p).elementsUsed = 0 then
        addToList (.free (head.pagesize (p / 32))) p (delFromList (.bucket false b) p head')
      else some head') = some head'' ∧ PoolOk poolsize 0 on' head'' ∧
      Spared poolsize on head head'' ∧
      ∀ q c j, InUse poolsize on' head'' q c j ↔
        InUse poolsize on head q c j ∧ ¬ (q = p ∧ c = b ∧ j = i) := by
  have hp16 : p < 2 ^ 16 := by
    have hgroup := hpage.group
    have hfew := hfit.largePages.2.1
    omega
  have hbits : Pages.elements poolsize b ≤ usedSize (Pages.elements poolsize b) * 8 :=
    le_usedSize (Nat.lt_trans (hfit.elements_lt huse.bucket_lt) (by decide))
  have hcount : (head.page p).elementsUsed =
      countBits (head.page p).used (Pages.elements poolsize b) := huse.count
  have hclear := countBits_clearBit hi hused
  have hle := countBits_le (head.page p).used (Pages.elements poolsize b)
  have hlt := hfit.elements_lt huse.bucket_lt
  have hsub : Word.sub 25 (head.page p).elementsUsed 1 = (head.page p).elementsUsed - 1 :=
    Word.sub_of_le (by omega) (by omega)
  have hself : head'.page p =
      { head.page p with
        used := clearBit (head.page p).used i
        elementsUsed := (head.page p).elementsUsed - 1 } := by
    rw [hhead', hsub]
    exact Function.update_self ..
  have hother : ∀ {q}, q ≠ p → head'.page q = head.page q := fun hne => by
    rw [hhead', Pool.setPage_page_of_ne _ hne]
  have hok' : PoolOk poolsize p on head' := by
    rw [hhead']
    exact h.setPage rfl rfl
  have hsizes : head'.pagesize = head.pagesize := by
    rw [hhead']
    rfl
  have hcount' : (head'.page p).elementsUsed =
      countBits (head'.page p).used (Pages.elements poolsize b) := by
    rw [hself]
    simp only
    omega
  have hspared : ∀ {head''}, head''.data = head'.data → head''.pagesize = head'.pagesize →
      (∀ q, q ≠ p → on q = none → head''.page q = head'.page q) →
      Spared poolsize on head head'' := by
    intro head'' hdata hsizes' hframe
    refine h.spared hpage (hsizes'.trans hsizes) (fun q hne => ?_) (fun q hne hnone => ?_)
      fun {f c j} hc hj => ?_
    · rw [hdata, Pool.data, hother hne]
      rfl
    · rw [hframe q hne hnone, hother hne]
    · obtain ⟨-, rfl⟩ := PageList.bucket.inj (Option.some.inj (hp.symm.trans hc))
      rw [show (head''.page p).used = (head'.page p).used from
        congrArg PageData.used (congrFun hdata p), hself]
      exact Function.update_of_ne (by omega) _ _
  have hinUse : ∀ {head'' on'}, head''.data = head'.data → (∀ {q}, q ≠ p → on' q = on q) →
      (∀ c j, InUse poolsize on' head'' p c j ↔ InUse poolsize on head p c j ∧ ¬ (c = b ∧ j = i)) →
      ∀ q c j, InUse poolsize on' head'' q c j ↔
        InUse poolsize on head q c j ∧ ¬ (q = p ∧ c = b ∧ j = i) := by
    intro head'' on' hdata hq hpuse q c j
    by_cases hqp : q = p
    · subst hqp
      rw [hpuse]
      simp
    · unfold InUse
      rw [hq hqp, show (head''.page q).used = (head'.page q).used from
        congrArg PageData.used (congrFun hdata q), hother hqp]
      simp [hqp]
  by_cases hlast : (head'.page p).elementsUsed = 0
  · rw [if_pos hlast]
    obtain ⟨head'', hcall, hrel, hok'', hframe⟩ :=
      hok'.move hp hp16 (.free (head.pagesize (p / 32)))
    refine ⟨head'', _, hcall, hok''.close (Function.update_self ..) ?_ ⟨?_, ?_⟩,
      hspared hrel.data hrel.pagesize hframe,
      hinUse hrel.data (fun hne => Function.update_of_ne hne _ _) fun c j => ?_⟩
    · rw [hrel.pagesize, hsizes]
      exact hpage
    · rw [hrel.pagesize, hsizes]
    · rw [hrel.data]
      exact hlast
    · -- the element was the only one in use
      apply iff_of_false
      · rintro ⟨⟨f', hc⟩, -⟩
        rw [Function.update_self] at hc
        exact absurd hc (by simp)
      · rintro ⟨⟨⟨f', hc⟩, hj, hjused⟩, hne⟩
        obtain ⟨-, rfl⟩ := PageList.bucket.inj (Option.some.inj (hp.symm.trans hc))
        refine hne ⟨rfl, ?_⟩
        by_contra hji
        have hzero := countBits_eq_zero.mp (hcount'.symm.trans hlast) j hj
        rw [hself] at hzero
        exact absurd ((Function.update_of_ne hji _ _).symm.trans hzero) (by simp [hjused])
  · rw [if_neg hlast]
    refine ⟨head', on, rfl, hok'.close hp ?_ ⟨huse.bucket_lt, huse.proper, ?_, ?_, hcount',
      Nat.pos_of_ne_zero hlast, ?_⟩, hspared rfl rfl fun _ _ _ => rfl,
      hinUse rfl (fun _ => rfl) fun c j => ?_⟩
    · rw [hsizes]
      exact hpage
    · rw [hsizes]
      exact huse.large
    · show (head'.page p).bucket = b
      rw [hself]
      exact huse.bucket
    · refine iff_of_false (fun heq => ?_) (by simp)
      have : (head'.data p).elementsUsed = (head.page p).elementsUsed - 1 := by
        show (head'.page p).elementsUsed = _
        rw [hself]
      omega
    · unfold InUse
      rw [hself]
      by_cases hcb : c = b
      · subst hcb
        by_cases hji : j = i
        · subst hji
          simp [clearBit]
        · simp [clearBit, hji]
      · simp [hp, Ne.symm hcb]

/-- **An element in use is freed.** -/
theorem elementFree_eq (h : PoolOk poolsize 0 on head) (hfit : PagesFit poolsize)
    (huse : InUse poolsize on head p b i) :
    ∃ on' head', elementFree poolsize (placeAt poolsize p b i) head = some head' ∧
      PoolOk poolsize 0 on' head' ∧ Spared poolsize on head head' ∧
      ∀ q c j, InUse poolsize on' head' q c j ↔
        InUse poolsize on head q c j ∧ ¬ (q = p ∧ c = b ∧ j = i) := by
  obtain ⟨⟨f, hp⟩, hi, hused⟩ := huse
  have hp0 := h.listed.ne_zero hp
  have hpage := h.page_of hp hp0
  have hpuse := h.inUse hp hp0
  have hb := hpuse.bucket_lt
  obtain ⟨hlo, hhi⟩ := blockAt_within hfit hb hi p
  have hpos := bucketToSize_pos (hfit.bucket_le hb).2
  have hpageOf := pageOf_placeAt h hfit hp hi
  have hbucket : (head.page p).bucket = b := hpuse.bucket
  -- the index of the element
  have hplace : placeAt poolsize p b i < 2 ^ 64 := by
    have hin := (h.page_within hfit hp).2.2
    have hsmall := hfit.small
    have hend : (blockAt poolsize p b i).ptr + (blockAt poolsize p b i).len ≤ poolsize := by
      simp only at hin
      omega
    have hptr : (blockAt poolsize p b i).ptr = placeAt poolsize p b i := rfl
    omega
  have hoff : Word.sub 64 (placeAt poolsize p b i) (p <<< smallPageBits poolsize) =
      elementsAt poolsize b + i * bucketToSize b := by
    have hle : p <<< smallPageBits poolsize ≤ placeAt poolsize p b i := hlo
    rw [Word.sub_of_le hle hplace, placeAt, Nat.add_assoc, Nat.add_sub_cancel_left]
  have hheader : pageHeaderSize (b / interBucketSpace) (elements poolsize b) =
      elementsAt poolsize b := rfl
  have hindex : Word.sub 64 (elementsAt poolsize b + i * bucketToSize b) (elementsAt poolsize b) /
      bucketToSize b = i := by
    have hlt : elementsAt poolsize b + i * bucketToSize b < 2 ^ 64 := by
      refine Nat.lt_of_le_of_lt ?_ hplace
      rw [placeAt, Nat.add_assoc]
      exact Nat.le_add_left _ _
    rw [Word.sub_of_le (Nat.le_add_right _ _) hlt, Nat.add_sub_cancel_left]
    exact Nat.mul_div_cancel i hpos
  obtain ⟨head1, on1, hroom, hok1, hrel, hp1, hon1, hframe⟩ := h.makeRoom hfit hp
  have hdata1 := congrFun hrel.data p
  have hused1 : (head1.page p).used i = true := by
    rw [show (head1.page p).used = (head.page p).used from congrArg PageData.used hdata1]
    exact hused
  have huse1 : PageInUse poolsize f b (head1.pagesize (p / 32)) (head1.data p) := by
    rw [hrel.pagesize, hrel.data]
    exact hpuse
  obtain ⟨head2, on2, hput, hok2, hspared2, hinUse2⟩ := hok1.put hfit hp1
    (by rw [hrel.pagesize]; exact hpage) huse1 hi hused1 rfl
  refine ⟨on2, head2, ?_, hok2, ?_, fun q c j => ?_⟩
  · rw [hrel.pagesize] at hput
    unfold elementFree
    simp only [hpageOf, hbucket, h.elements hb, hoff, hheader, hindex]
    by_cases hfull : (head.page p).elementsUsed = elements poolsize b
    · rw [if_pos hfull] at hroom ⊢
      rw [hroom]
      exact hput
    · rw [if_neg hfull] at hroom ⊢
      rw [hroom]
      exact hput
  · have hspared1 : Spared poolsize on head head1 :=
      (h.open hfit p).spared hpage hrel.pagesize (fun q _ => by rw [hrel.data])
        (fun q hqp hq => hframe q hqp hq) fun _ _ => by
          rw [show (head1.page p).used = (head.page p).used from congrArg PageData.used hdata1]
    refine hspared1.trans (fun {q f c} hq => ?_) hspared2
    · by_cases hqp : q = p
      · subst hqp
        obtain ⟨-, rfl⟩ := PageList.bucket.inj (Option.some.inj (hp.symm.trans hq))
        exact ⟨false, hp1⟩
      · exact ⟨f, (hon1 q hqp).trans hq⟩
  · rw [hinUse2]
    refine and_congr_left' ?_
    unfold InUse
    rw [show (head1.page q).used = (head.page q).used from
      congrArg PageData.used (congrFun hrel.data q)]
    by_cases hqp : q = p
    · rw [hqp, hp1, hp]
      simp
    · rw [hon1 q hqp]

end Free

end Shalloc.Pages
