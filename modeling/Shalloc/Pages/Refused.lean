import Mathlib.Algebra.BigOperators.Group.Finset.Piecewise
import Mathlib.Algebra.Order.BigOperators.Group.Finset
import Mathlib.Data.List.Dedup
import Mathlib.Order.Interval.Finset.Nat
import Shalloc.Pages.Run

/-!
# Which requests are refused

Whether a request can be served is said of the blocks in use alone: each page with a block of its
size is full, and each page that could be taken has a block in use. So a pool whose blocks are all
of one size serves requests for that size until there is no room for another block of it, whatever
it was used for before.

## Main definitions

- `pageNo`, `pageNos` — the pages of a bucket
- `NoRoom` — no page has room, and none can be taken

## Main results

- `pagesRun_refused` — a request is refused iff there is no room
- `pagesRun_capacity` — how many blocks of one size there are then
-/

namespace Shalloc.Pages

variable {poolsize b c i j k n p q x : ℕ} {f : Bool} {on on' : ℕ → Option PageList}
  {head head' : Pool} {live : List Extent} {e : Extent}

section PageNumbers

/-- The number of the page of a place, among pages of the size that a bucket has. -/
def pageNo (poolsize b x : ℕ) : ℕ := x >>> pageBits poolsize b

/-- The pages that a bucket may have. -/
def pageNos (poolsize b : ℕ) : Finset ℕ :=
  if largePageBucket b (smallPageBits poolsize) then Finset.Ico 1 (largePages poolsize)
  else Finset.Ico (firstPage poolsize) (32 * largePages poolsize)

/-- The blocks in use in a page. -/
def pageCount (poolsize b : ℕ) (live : List Extent) (x : ℕ) : ℕ :=
  live.countP fun e => decide (pageNo poolsize b e.ptr = x)

/-- The block takes the page, or a part of it, or the large page that the page is a part of. -/
def Takes (poolsize b : ℕ) (e : Extent) (x : ℕ) : Prop :=
  if largePageBucket b (smallPageBits poolsize) then e.ptr >>> largePageBits poolsize = x
  else e.ptr >>> largePageBits poolsize = x / 32 ∧
    (e.ptr >>> smallPageBits poolsize = x ∨
      (1 <<< smallPageBits poolsize) >>> maxPageObjectOrder < e.len)

/-- Each page that has a block of the size is full, and each other one is taken. -/
def NoRoom (poolsize b : ℕ) (live : List Extent) : Prop :=
  (∀ e ∈ live, e.len = bucketToSize b →
    pageCount poolsize b live (pageNo poolsize b e.ptr) = elements poolsize b) ∧
  ∀ x ∈ pageNos poolsize b, ∃ e ∈ live, Takes poolsize b e x

variable (h : PoolOk poolsize 0 on head) (hfit : PagesFit poolsize)
include h hfit

/-- The small page of an element is one of those of its page, -/
theorem InUse.small_page (hi : InUse poolsize on head p b i) :
    p ≤ placeAt poolsize p b i >>> smallPageBits poolsize ∧
      placeAt poolsize p b i >>> smallPageBits poolsize < p + pageSpan poolsize b := by
  obtain ⟨hlo, hhi⟩ := hi.bounds h hfit
  have hlen := hi.pos h hfit
  have hpos := Nat.two_pow_pos (smallPageBits poolsize)
  have hptr : (blockAt poolsize p b i).ptr = placeAt poolsize p b i := rfl
  rw [Nat.shiftRight_eq_div_pow, Nat.le_div_iff_mul_le hpos, Nat.div_lt_iff_lt_mul hpos]
  omega

/-- and its group is that of the page. -/
theorem InUse.large_page (hi : InUse poolsize on head p b i) :
    placeAt poolsize p b i >>> largePageBits poolsize = p / 32 := by
  obtain ⟨f, hp⟩ := hi.1
  obtain ⟨hlo, hhi⟩ := hi.small_page h hfit
  obtain ⟨hspan, -⟩ := h.span hp
  rw [largePageBits_eq, Nat.shiftRight_add, Nat.shiftRight_eq_div_pow _ 5]
  show placeAt poolsize p b i >>> smallPageBits poolsize / 32 = p / 32
  omega

/-- The pages of a bucket are told apart by their numbers. -/
theorem InUse.pageNo_eq_iff (hi : InUse poolsize on head p b i)
    (hj : InUse poolsize on head q c j) :
    pageNo poolsize b (placeAt poolsize q c j) = pageNo poolsize b (placeAt poolsize p b i) ↔
      q = p := by
  obtain ⟨f, hp⟩ := hi.1
  obtain ⟨f', hq⟩ := hj.1
  constructor
  · intro heq
    by_contra hne
    have hapart := h.spans_apart hp hq (Ne.symm hne)
    have hispan := hi.small_page h hfit
    have hjspan := hj.small_page h hfit
    unfold pageNo pageBits at heq
    split at heq
    · next hlarge =>
      rw [hi.large_page h hfit, hj.large_page h hfit] at heq
      have hlargep := (h.inUse hp (h.listed.ne_zero hp)).large.trans hlarge
      have hp32 := ((h.span hp).2.1 hlargep).1
      have hq32 := ((h.span hq).2.1 (heq.symm ▸ hlargep)).1
      omega
    · next hsmall =>
      have hspan : pageSpan poolsize b = 1 := if_neg hsmall
      omega
  · rintro rfl
    obtain ⟨-, rfl⟩ := PageList.bucket.inj (Option.some.inj (hp.symm.trans hq))
    unfold pageNo pageBits
    split
    · rw [hi.large_page h hfit, hj.large_page h hfit]
    · next hsmall =>
      have hispan := hi.small_page h hfit
      have hjspan := hj.small_page h hfit
      have hspan : pageSpan poolsize b = 1 := if_neg hsmall
      omega

/-- **The blocks in use in a page** are as many as its header says. -/
theorem PageBlocks.pageCount_eq (hblocks : PageBlocks poolsize on head live)
    (hi : InUse poolsize on head p b i) :
    pageCount poolsize b live (pageNo poolsize b (placeAt poolsize p b i)) =
      (head.page p).elementsUsed := by
  obtain ⟨f, hp⟩ := hi.1
  have huse := h.inUse hp (h.listed.ne_zero hp)
  have hperm : (live.filter fun e =>
      decide (pageNo poolsize b e.ptr = pageNo poolsize b (placeAt poolsize p b i))).Perm
      (((List.range (elements poolsize b)).filter (head.page p).used).map
        (blockAt poolsize p b)) := by
    rw [List.perm_ext_iff_of_nodup (hblocks.nodup.filter _)]
    · intro e
      simp only [List.mem_filter, List.mem_map, List.mem_range, decide_eq_true_eq]
      rw [hblocks.mem]
      constructor
      · rintro ⟨⟨q, c, j, hj, rfl⟩, heq⟩
        obtain rfl := (hi.pageNo_eq_iff h hfit hj).mp heq
        obtain ⟨f', hq⟩ := hj.1
        obtain ⟨-, rfl⟩ := PageList.bucket.inj (Option.some.inj (hp.symm.trans hq))
        exact ⟨j, ⟨hj.2.1, hj.2.2⟩, rfl⟩
      · rintro ⟨j, ⟨hj, hused⟩, rfl⟩
        have hj' : InUse poolsize on head p b j := ⟨⟨f, hp⟩, hj, hused⟩
        exact ⟨⟨p, b, j, hj', rfl⟩, (hi.pageNo_eq_iff h hfit hj').mpr rfl⟩
    · refine (List.nodup_range.filter _).map_on fun j hj j' hj' heq => ?_
      simp only [List.mem_filter, List.mem_range] at hj hj'
      exact (InUse.inj h hfit ⟨⟨f, hp⟩, hj'⟩ ⟨⟨f, hp⟩, hj⟩ (congrArg Extent.ptr heq).symm).2.2
  unfold pageCount
  rw [List.countP_eq_length_filter, hperm.length_eq, List.length_map,
    ← List.countP_eq_length_filter]
  exact huse.count.symm

omit h hfit in
/-- A bucket is told by its size. -/
theorem PageInUse.eq_of_size {d : PageData} {large : Bool} (huse : PageInUse poolsize f c large d)
    (hproper : sizeToBucket (bucketToSize b) = b) (hsize : bucketToSize c = bucketToSize b) :
    c = b := by
  rw [← huse.proper, hsize, hproper]

/-- No page of the bucket has room iff each page that has a block of its size is full. -/
theorem PageBlocks.full_iff (hblocks : PageBlocks poolsize on head live)
    (hproper : sizeToBucket (bucketToSize b) = b) :
    (∀ q, on q ≠ some (.bucket false b)) ↔ ∀ e ∈ live, e.len = bucketToSize b →
      pageCount poolsize b live (pageNo poolsize b e.ptr) = elements poolsize b := by
  constructor
  · intro hnone e he hlen
    obtain ⟨p, c, i, hi, rfl⟩ := hblocks.mem.mp he
    obtain ⟨f, hp⟩ := hi.1
    have huse := h.inUse hp (h.listed.ne_zero hp)
    obtain rfl := huse.eq_of_size hproper hlen
    have hfull : f = true := by
      cases f with
      | true => rfl
      | false => exact absurd hp (hnone p)
    show pageCount poolsize c live (pageNo poolsize c (placeAt poolsize p c i)) = _
    rw [hblocks.pageCount_eq h hfit hi]
    exact huse.full.mpr hfull
  · intro hfull q hq
    have huse := h.inUse hq (h.listed.ne_zero hq)
    obtain ⟨i, hi⟩ := huse.exists_inUse hq
    have hcount := hfull _ (hblocks.mem.mpr ⟨q, b, i, hi, rfl⟩) rfl
    rw [show (blockAt poolsize q b i).ptr = placeAt poolsize q b i from rfl,
      hblocks.pageCount_eq h hfit hi] at hcount
    exact absurd (huse.full.mp hcount) (by simp)

/-- A group has a page in use iff it has a block in use. -/
theorem PageBlocks.group_iff (hblocks : PageBlocks poolsize on head live) (g : ℕ) :
    GroupUsed on g ↔ ∃ e ∈ live, e.ptr >>> largePageBits poolsize = g := by
  constructor
  · rintro ⟨p, f, c, rfl, hp⟩
    obtain ⟨i, hi⟩ := (h.inUse hp (h.listed.ne_zero hp)).exists_inUse hp
    exact ⟨_, hblocks.mem.mpr ⟨p, c, i, hi, rfl⟩, hi.large_page h hfit⟩
  · rintro ⟨e, he, rfl⟩
    obtain ⟨p, c, i, hi, rfl⟩ := hblocks.mem.mp he
    obtain ⟨f, hp⟩ := hi.1
    exact ⟨p, f, c, (hi.large_page h hfit).symm, hp⟩

/-- A small page is taken iff there is a block in it, or it is a part of a large page. -/
theorem PageBlocks.small_iff (hblocks : PageBlocks poolsize on head live) (x : ℕ) :
    SmallTaken on head.pagesize x ↔ ∃ e ∈ live, e.ptr >>> largePageBits poolsize = x / 32 ∧
      (e.ptr >>> smallPageBits poolsize = x ∨
        (1 <<< smallPageBits poolsize) >>> maxPageObjectOrder < e.len) := by
  have hlarge : ∀ {q c i}, InUse poolsize on head q c i → (head.pagesize (q / 32) = true ↔
      (1 <<< smallPageBits poolsize) >>> maxPageObjectOrder < (blockAt poolsize q c i).len) := by
    intro q c i hi
    obtain ⟨f, hq⟩ := hi.1
    rw [(h.inUse hq (h.listed.ne_zero hq)).large]
    exact decide_eq_true_iff
  constructor
  · rintro ⟨q, f, c, hq, hgroup, hcase⟩
    obtain ⟨i, hi⟩ := (h.inUse hq (h.listed.ne_zero hq)).exists_inUse hq
    refine ⟨_, hblocks.mem.mpr ⟨q, c, i, hi, rfl⟩, (hi.large_page h hfit).trans hgroup, ?_⟩
    cases hsize : head.pagesize (q / 32) with
    | true => exact Or.inr ((hlarge hi).mp hsize)
    | false =>
      have hqx : q = x := hcase.resolve_right fun h1 => by
        rw [← hgroup, hsize] at h1
        exact absurd h1 (by simp)
      have hspan := (h.span hq).2.2 hsize
      have hpage := hi.small_page h hfit
      refine Or.inl ?_
      show placeAt poolsize q c i >>> smallPageBits poolsize = x
      omega
  · rintro ⟨e, he, hgroup, hcase⟩
    obtain ⟨q, c, i, hi, rfl⟩ := hblocks.mem.mp he
    obtain ⟨f, hq⟩ := hi.1
    have hqx : q / 32 = x / 32 := (hi.large_page h hfit).symm.trans hgroup
    refine ⟨q, f, c, hq, hqx, ?_⟩
    cases hsize : head.pagesize (q / 32) with
    | true => exact Or.inr (hqx ▸ hsize)
    | false =>
      refine Or.inl ?_
      have hspan := (h.span hq).2.2 hsize
      have hpage := hi.small_page h hfit
      rcases hcase with heq | hlen
      · have heq' : placeAt poolsize q c i >>> smallPageBits poolsize = x := heq
        omega
      · rw [(hlarge hi).mpr hlen] at hsize
        exact absurd hsize (by simp)

/-- **No page can be had** for a bucket iff there is no room among the blocks in use. -/
theorem PageBlocks.noPage_iff (hblocks : PageBlocks poolsize on head live)
    (hproper : sizeToBucket (bucketToSize b) = b) :
    NoPage poolsize b on head.pagesize ↔ NoRoom poolsize b live := by
  unfold NoPage NoRoom
  rw [hblocks.full_iff h hfit hproper]
  refine and_congr_right' ?_
  unfold pageNos Takes
  cases hlarge : largePageBucket b (smallPageBits poolsize) with
  | true =>
    simp only [if_true, Finset.mem_Ico]
    refine forall_congr' fun g => ?_
    rw [hblocks.group_iff h hfit]
    exact ⟨fun hall hg => hall hg.1 hg.2, fun hall hg hlt => hall ⟨hg, hlt⟩⟩
  | false =>
    simp only [Bool.false_eq_true, if_false, Finset.mem_Ico]
    refine forall_congr' fun x => ?_
    rw [hblocks.small_iff h hfit]
    exact ⟨fun hall hx => hall hx.1 (by omega), fun hall hx hlt => hall ⟨hx, by omega⟩⟩

end PageNumbers

section Capacity

/-- The members of a list are counted by what a function makes of them. -/
theorem length_eq_sum_countP {α : Type} (f : α → ℕ) (s : Finset ℕ) {l : List α}
    (h : ∀ a ∈ l, f a ∈ s) : l.length = ∑ x ∈ s, l.countP fun a => decide (f a = x) := by
  induction l with
  | nil => simp
  | cons a l ih =>
    have hrest := ih fun c hc => h c (List.mem_cons_of_mem _ hc)
    simp only [List.countP_cons, decide_eq_true_eq, Finset.sum_add_distrib, Finset.sum_ite_eq,
      h a List.mem_cons_self, if_true]
    rw [List.length_cons, hrest]

variable (h : PoolOk poolsize 0 on head) (hfit : PagesFit poolsize)
  (hproper : sizeToBucket (bucketToSize b) = b) (hblocks : PageBlocks poolsize on head live)
  (hall : ∀ e ∈ live, e.len = bucketToSize b)
include h hfit hproper hblocks hall

/-- If all blocks are of one size, then each lies in a page of its bucket, which has no more
blocks than elements. -/
theorem PageBlocks.pageCount_le (he : e ∈ live) :
    pageNo poolsize b e.ptr ∈ pageNos poolsize b ∧
      pageCount poolsize b live (pageNo poolsize b e.ptr) ≤ elements poolsize b := by
  obtain ⟨p, c, i, hi, rfl⟩ := hblocks.mem.mp he
  obtain ⟨f, hp⟩ := hi.1
  have hp0 := h.listed.ne_zero hp
  have huse := h.inUse hp hp0
  obtain rfl := huse.eq_of_size hproper (hall _ he)
  have hpage := h.page_of hp hp0
  have hlarge := huse.large
  show pageNo poolsize c (placeAt poolsize p c i) ∈ _ ∧
    pageCount poolsize c live (pageNo poolsize c (placeAt poolsize p c i)) ≤ _
  rw [hblocks.pageCount_eq h hfit hi]
  constructor
  · unfold pageNo pageNos pageBits
    cases hsize : largePageBucket c (smallPageBits poolsize) with
    | true =>
      rw [hsize] at hlarge
      simp only [if_true, Finset.mem_Ico]
      rw [hi.large_page h hfit]
      exact ⟨h.group_pos hlarge, hpage.group⟩
    | false =>
      rw [hsize] at hlarge
      simp only [Bool.false_eq_true, if_false, Finset.mem_Ico]
      have hin := hi.small_page h hfit
      have hspan := (h.span hp).2.2 hlarge
      have hfirst := hpage.small hlarge
      have hgroup := hpage.group
      omega
  · have hcount : (head.page p).elementsUsed = countBits (head.page p).used _ := huse.count
    rw [hcount]
    exact countBits_le _ _

/-- There is no room iff all pages of the bucket are full. -/
theorem PageBlocks.noRoom_iff (hb : b < maxBucket (largePageBits poolsize)) :
    NoRoom poolsize b live ↔
      ∀ x ∈ pageNos poolsize b, pageCount poolsize b live x = elements poolsize b := by
  have htakes : ∀ {e x}, e ∈ live → (Takes poolsize b e x ↔ pageNo poolsize b e.ptr = x) := by
    intro e x he
    have hlen := hall e he
    unfold Takes pageNo pageBits
    cases hsize : largePageBucket b (smallPageBits poolsize) with
    | true => simp only [if_true]
    | false =>
      simp only [Bool.false_eq_true, if_false]
      have hfalse := of_decide_eq_false hsize
      rw [hlen]
      constructor
      · rintro ⟨-, heq | hlt⟩
        · exact heq
        · exact absurd hlt hfalse
      · rintro rfl
        refine ⟨?_, Or.inl rfl⟩
        rw [largePageBits_eq, Nat.shiftRight_add, Nat.shiftRight_eq_div_pow _ 5]
  constructor
  · rintro ⟨hfull, htaken⟩ x hx
    obtain ⟨e, he, hex⟩ := htaken x hx
    rw [htakes he] at hex
    rw [← hex]
    exact hfull e he (hall e he)
  · intro hcount
    refine ⟨fun e he _ => hcount _ (hblocks.pageCount_le h hfit hproper hall he).1, fun x hx => ?_⟩
    have hpos : 0 < pageCount poolsize b live x := by
      rw [hcount x hx]
      exact (hfit.elements_spec hb).1
    obtain ⟨e, he, hex⟩ := List.countP_pos_iff.mp hpos
    exact ⟨e, he, (htakes he).mpr (of_decide_eq_true hex)⟩

/-- There is no room iff there are as many blocks as elements of pages of the bucket. -/
theorem PageBlocks.capacity (hb : b < maxBucket (largePageBits poolsize)) :
    live.length ≤ (pageNos poolsize b).card * elements poolsize b ∧
      (NoRoom poolsize b live ↔
        live.length = (pageNos poolsize b).card * elements poolsize b) := by
  have hlength := length_eq_sum_countP (fun e : Extent => pageNo poolsize b e.ptr)
    (pageNos poolsize b) fun e he => (hblocks.pageCount_le h hfit hproper hall he).1
  have hle : ∀ x ∈ pageNos poolsize b, pageCount poolsize b live x ≤ elements poolsize b := by
    intro x _
    rcases Nat.eq_zero_or_pos (pageCount poolsize b live x) with hzero | hpos
    · rw [hzero]
      exact Nat.zero_le _
    · obtain ⟨e, he, hex⟩ := List.countP_pos_iff.mp hpos
      obtain rfl := of_decide_eq_true hex
      exact (hblocks.pageCount_le h hfit hproper hall he).2
  have hsum : ∑ _x ∈ pageNos poolsize b, elements poolsize b =
      (pageNos poolsize b).card * elements poolsize b := by
    rw [Finset.sum_const, Nat.nsmul_eq_mul]
  rw [hlength, ← hsum]
  refine ⟨Finset.sum_le_sum hle, ?_⟩
  rw [hblocks.noRoom_iff h hfit hproper hall hb]
  exact (Finset.sum_eq_sum_iff_of_le hle).symm

end Capacity

section Results

variable (hn : n < 2 ^ 63) (hk : k < 64)
  (hb : bucketOf n (2 ^ k) < maxBucket (largePageBits poolsize))
include hn hk hb

theorem PagesOk.refused_iff (hok : PagesOk poolsize head live) (hfit : PagesFit poolsize) :
    (∃ head', allocGet poolsize n (2 ^ k) head = some (none, head')) ↔
      NoRoom poolsize (bucketOf n (2 ^ k)) live := by
  obtain ⟨on, hok, hblocks⟩ := hok
  have hcall : allocGet poolsize n (2 ^ k) head = bucketGet poolsize (bucketOf n (2 ^ k)) head :=
    if_neg (Nat.not_le_of_lt hb)
  rw [hcall]
  rw [bucketOf_eq hn hk] at hb ⊢
  obtain ⟨-, -, hproper⟩ := hfit.request hb (requestSize_pos n k)
  rw [← hblocks.noPage_iff hok hfit hproper]
  obtain ⟨hno, on', head', hget, -⟩ | ⟨hsome, p, i, on', head', hget, -⟩ :=
    bucketGet_eq hok hfit hb hproper
  · exact iff_of_true ⟨head', hget⟩ hno
  · refine iff_of_false (fun ⟨head'', hnone⟩ => ?_) hsome
    rw [hget, Option.some.injEq, Prod.mk.injEq] at hnone
    exact absurd hnone.1 (by simp)

variable (huseful : minUsefulSize ≤ poolsize) (hsmall : poolsize ≤ 2 ^ 38)
  (hrun : PagesRun poolsize head live)
include huseful hsmall hrun

/-- **Which requests are refused.** In every state that a run reaches, a request is refused if and
only if each page with blocks of its size is full, and each page that could be taken for it has a
block in use: where it needs a large page, each group but the first one has a block in use, and
otherwise each small page behind the header has one, or is a part of a large page that has. -/
theorem pagesRun_refused : (∃ head', allocGet poolsize n (2 ^ k) head = some (none, head')) ↔
    NoRoom poolsize (bucketOf n (2 ^ k)) live := by
  obtain ⟨hfit, hok⟩ := hrun.ok huseful hsmall
  exact hok.refused_iff hn hk hb hfit

omit hn hk hb huseful hsmall hrun in
theorem pagesRun_refused_mega : ∃ head q, PagesRun (2 ^ 20) head [⟨q, 24⟩] ∧
    ((∃ head', allocGet (2 ^ 20) 100 (2 ^ 4) head = some (none, head')) ↔
      NoRoom (2 ^ 20) (bucketOf 100 (2 ^ 4)) [⟨q, 24⟩]) := by
  obtain ⟨head, q, hrun⟩ := pagesRun_mega
  exact ⟨head, q, hrun,
    pagesRun_refused (by decide) (by decide) (by decide) (by decide) (by decide) hrun⟩

/-- **Nothing is lost**, whatever the pool was used for before: when the blocks in use are all of
one size, a request for that size is refused if and only if they are as many as the elements that
all pages of the size have. -/
theorem pagesRun_capacity (hall : ∀ e ∈ live, e.len = bucketToSize (bucketOf n (2 ^ k))) :
    live.length ≤ (pageNos poolsize (bucketOf n (2 ^ k))).card *
        elements poolsize (bucketOf n (2 ^ k)) ∧
      ((∃ head', allocGet poolsize n (2 ^ k) head = some (none, head')) ↔
        live.length = (pageNos poolsize (bucketOf n (2 ^ k))).card *
          elements poolsize (bucketOf n (2 ^ k))) := by
  obtain ⟨hfit, hok⟩ := hrun.ok huseful hsmall
  rw [hok.refused_iff hn hk hb hfit]
  obtain ⟨on, hok, hblocks⟩ := hok
  have hproper : sizeToBucket (bucketToSize (bucketOf n (2 ^ k))) = bucketOf n (2 ^ k) := by
    rw [bucketOf_eq hn hk] at hb ⊢
    exact (hfit.request hb (requestSize_pos n k)).2.2
  exact hblocks.capacity hok hfit hproper hall hb

omit hn hk hb huseful hsmall hrun in
/-- With one block of 24 bytes in use there is room for another one. -/
theorem pagesRun_capacity_mega : ∃ head q, PagesRun (2 ^ 20) head [⟨q, 24⟩] ∧
    1 ≤ (pageNos (2 ^ 20) (bucketOf 24 (2 ^ 3))).card *
      elements (2 ^ 20) (bucketOf 24 (2 ^ 3)) := by
  obtain ⟨head, q, hrun⟩ := pagesRun_mega
  have hlen : ∀ e ∈ [Extent.mk q 24], e.len = bucketToSize (bucketOf 24 (2 ^ 3)) := by
    simp only [List.mem_singleton, forall_eq]
    decide
  obtain ⟨hle, -⟩ := pagesRun_capacity (by decide) (by decide) (by decide) (by decide) (by decide)
    hrun hlen
  exact ⟨head, q, hrun, hle⟩

end Results

end Shalloc.Pages
