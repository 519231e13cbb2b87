import Shalloc.Pages.Free
import Shalloc.Region.Allocator

/-!
# The blocks in use

The elements in use are the blocks that the pool has handed out. They lie apart, inside the pool
and outside the headers, so that calls do not change them and writes to them do not change what
the calls read.

## Main definitions

- `PageBlocks` — the blocks in use are the elements in use
- `SameData` — the contents of a block are left alone
- `Written` — only contents of blocks are changed
- `PagesOk` — the form of a pool, with its blocks in use

## Main results

- `PagesOk.get`, `PagesOk.free`, `PagesOk.write` — what a run does to a pool
-/

namespace Shalloc.Pages

variable {poolsize b c i j k n p q : ℕ} {f : Bool} {l : PageList} {on on' : ℕ → Option PageList}
  {head head' : Pool} {live : List Extent} {e : Extent}

section Elements

/-- A page in use has an element in use. -/
theorem PageInUse.exists_inUse
    (huse : PageInUse poolsize f b (head.pagesize (p / 32)) (head.data p))
    (hp : on p = some (.bucket f b)) : ∃ i, InUse poolsize on head p b i := by
  by_contra hnone
  push Not at hnone
  have hzero : countBits (head.page p).used (elements poolsize b) = 0 :=
    countBits_eq_zero.mpr fun j hj => by
      have hj' := hnone j
      unfold InUse at hj'
      simpa [hp, hj] using hj'
  exact absurd (huse.count.trans hzero) (Nat.ne_of_gt huse.pos)

variable (h : PoolOk poolsize 0 on head) (hfit : PagesFit poolsize)
include h

/-- What is known of an element in use. -/
theorem InUse.bucket_lt (huse : InUse poolsize on head p b i) :
    b < maxBucket (largePageBits poolsize) := by
  obtain ⟨⟨f, hp⟩, -⟩ := huse
  exact (h.inUse hp (h.listed.ne_zero hp)).bucket_lt

include hfit

theorem InUse.within (huse : InUse poolsize on head p b i) :
    Extent.Within (blockAt poolsize p b i) (pageAt poolsize p b) :=
  blockAt_within hfit (huse.bucket_lt h) huse.2.1 p

theorem InUse.pos (huse : InUse poolsize on head p b i) : 0 < (blockAt poolsize p b i).len :=
  bucketToSize_pos (hfit.bucket_le (huse.bucket_lt h)).2

/-- **Elements in use lie apart.** -/
theorem InUse.apart (hi : InUse poolsize on head p b i) (hj : InUse poolsize on head q c j)
    (hne : ¬ (q = p ∧ c = b ∧ j = i)) :
    Extent.Disjoint (blockAt poolsize p b i) (blockAt poolsize q c j) := by
  obtain ⟨f, hp⟩ := hi.1
  obtain ⟨f', hq⟩ := hj.1
  by_cases hpq : p = q
  · subst hpq
    obtain ⟨-, rfl⟩ := PageList.bucket.inj (Option.some.inj (hp.symm.trans hq))
    exact blockAt_disjoint (fun hij => hne ⟨rfl, rfl, hij.symm⟩) p
  · exact (h.pages_apart hp hq hpq).mono (hi.within h hfit) (hj.within h hfit)

/-- Two elements in use at one place are one. -/
theorem InUse.inj (hi : InUse poolsize on head p b i) (hj : InUse poolsize on head q c j)
    (heq : placeAt poolsize p b i = placeAt poolsize q c j) : q = p ∧ c = b ∧ j = i := by
  by_contra hne
  have hapart := hi.apart h hfit hj hne
  have hpos := hi.pos h hfit
  have hpos' := hj.pos h hfit
  unfold Extent.Disjoint at hapart
  simp only [blockAt] at hapart hpos hpos'
  omega

/-- An element in use is aligned to what its size is. -/
theorem InUse.aligned (huse : InUse poolsize on head p b i) (hdvd : 2 ^ k ∣ bucketToSize b) :
    2 ^ k ∣ placeAt poolsize p b i := by
  obtain ⟨⟨f, hp⟩, hi, -⟩ := huse
  have hp0 := h.listed.ne_zero hp
  have hpuse := h.inUse hp hp0
  obtain ⟨hlog, hsmall⟩ := hfit.bucket_le hpuse.bucket_lt
  have hbits := hfit.smallPageBits
  have hk := le_of_dvd_bucketToSize hsmall hdvd
  have hlt := hfit.elements_lt hpuse.bucket_lt
  have hheader : 2 ^ k ∣ elementsAt poolsize b :=
    Nat.dvd_trans (Nat.pow_dvd_pow 2 hk) (dvd_pageHeaderSize (show b / 4 < 63 by omega) (by omega))
  have hpage : 2 ^ k ∣ p <<< smallPageBits poolsize := by
    rw [Nat.shiftLeft_eq]
    cases hlarge : largePageBucket b (smallPageBits poolsize) with
    | true =>
      -- a large page is aligned to a large page
      have hmod := (h.page_of hp hp0).large (hpuse.large.trans hlarge)
      obtain ⟨g, rfl⟩ := Nat.dvd_of_mod_eq_zero hmod
      have hgroup : 32 * g * 2 ^ smallPageBits poolsize = 2 ^ largePageBits poolsize * g := by
        rw [largePageBits_eq, Nat.pow_add]
        ring
      rw [hgroup]
      exact Nat.dvd_mul_right_of_dvd (Nat.pow_dvd_pow 2 (by rw [largePageBits_eq]; omega)) g
    | false =>
      -- an element of a small page is smaller than the page
      have hle : 2 ^ (b / 4) ≤ 2 ^ smallPageBits poolsize := by
        have hsize := le_bucketToSize (m := b / 4) (r := b % 4) (by omega) (by omega)
        rw [Nat.div_add_mod] at hsize
        have hshift := of_decide_eq_false hlarge
        rw [Nat.one_shiftLeft, Nat.shiftRight_eq_div_pow] at hshift
        have hdiv := Nat.div_le_self (2 ^ smallPageBits poolsize) (2 ^ maxPageObjectOrder)
        omega
      have hexp := (Nat.pow_le_pow_iff_right (by decide)).mp hle
      exact Nat.dvd_mul_left_of_dvd (Nat.pow_dvd_pow 2 (Nat.le_trans hk hexp)) p
  unfold placeAt
  exact Nat.dvd_add (Nat.dvd_add hpage hheader) (Nat.dvd_mul_left_of_dvd hdvd i)

end Elements

section Live

/-- The blocks in use are the elements in use. -/
structure PageBlocks (poolsize : ℕ) (on : ℕ → Option PageList) (head : Pool)
    (live : List Extent) : Prop where
  nodup : live.Nodup
  mem : ∀ {e}, e ∈ live ↔ ∃ p b i, InUse poolsize on head p b i ∧ e = blockAt poolsize p b i

/-- Where no block is in use, a page can be had for any bucket. -/
theorem PageBlocks.not_noPage (hblocks : PageBlocks poolsize on head [])
    (h : PoolOk poolsize 0 on head) (hfit : PagesFit poolsize) (b : ℕ) :
    ¬ NoPage poolsize b on head.pagesize := by
  have hunused : ∀ {q f c}, on q ≠ some (.bucket f c) := fun hq => by
    obtain ⟨i, hi⟩ := (h.inUse hq (h.listed.ne_zero hq)).exists_inUse hq
    exact absurd (hblocks.mem.mpr ⟨_, _, i, hi, rfl⟩) List.not_mem_nil
  obtain ⟨hmany, -⟩ := hfit.largePages
  obtain ⟨-, hfirst, -⟩ := hfit.firstPage
  rintro ⟨-, htaken⟩
  split at htaken
  · obtain ⟨q, f, c, -, hq⟩ := htaken 1 Nat.one_pos (by omega)
    exact hunused hq
  · obtain ⟨q, f, c, hq, -⟩ := htaken 32 (by omega) (by omega)
    exact hunused hq

theorem PageBlocks.apart (hblocks : PageBlocks poolsize on head live)
    (h : PoolOk poolsize 0 on head) (hfit : PagesFit poolsize) : live.Pairwise Extent.Disjoint := by
  refine hblocks.nodup.imp_of_mem fun {e e'} he he' hne => ?_
  obtain ⟨p, b, i, hi, rfl⟩ := hblocks.mem.mp he
  obtain ⟨q, c, j, hj, rfl⟩ := hblocks.mem.mp he'
  refine hi.apart h hfit hj ?_
  rintro ⟨rfl, rfl, rfl⟩
  exact hne rfl

/-- A search for a page leaves the blocks in use as they are. -/
theorem PageBlocks.kept (hblocks : PageBlocks poolsize on head live)
    (hkept : Kept on on' head head') : PageBlocks poolsize on' head' live :=
  ⟨hblocks.nodup, fun {e} => by
    rw [hblocks.mem]
    simp only [hkept.inUse_iff]⟩

/-- An element is taken into use. -/
theorem PageBlocks.take (hblocks : PageBlocks poolsize on head live)
    (h : PoolOk poolsize 0 on' head') (hfit : PagesFit poolsize)
    (hnew : ¬ InUse poolsize on head p b i)
    (huse : ∀ q c j, InUse poolsize on' head' q c j ↔
      InUse poolsize on head q c j ∨ (q = p ∧ c = b ∧ j = i)) :
    PageBlocks poolsize on' head' (blockAt poolsize p b i :: live) := by
  have hself : InUse poolsize on' head' p b i := (huse p b i).mpr (Or.inr ⟨rfl, rfl, rfl⟩)
  refine ⟨List.nodup_cons.mpr ⟨fun hmem => ?_, hblocks.nodup⟩, fun {e} => ?_⟩
  · obtain ⟨q, c, j, hj, heq⟩ := hblocks.mem.mp hmem
    have hj' := (huse q c j).mpr (Or.inl hj)
    obtain ⟨rfl, rfl, rfl⟩ := hself.inj h hfit hj' (congrArg Extent.ptr heq)
    exact hnew hj
  · rw [List.mem_cons, hblocks.mem]
    constructor
    · rintro (rfl | ⟨q, c, j, hj, rfl⟩)
      · exact ⟨p, b, i, hself, rfl⟩
      · exact ⟨q, c, j, (huse q c j).mpr (Or.inl hj), rfl⟩
    · rintro ⟨q, c, j, hj, rfl⟩
      rcases (huse q c j).mp hj with hold | ⟨rfl, rfl, rfl⟩
      · exact Or.inr ⟨q, c, j, hold, rfl⟩
      · exact Or.inl rfl

/-- An element is taken out of use. -/
theorem PageBlocks.drop (hblocks : PageBlocks poolsize on head live)
    (h : PoolOk poolsize 0 on head) (hfit : PagesFit poolsize) (hi : InUse poolsize on head p b i)
    (huse : ∀ q c j, InUse poolsize on' head' q c j ↔
      InUse poolsize on head q c j ∧ ¬ (q = p ∧ c = b ∧ j = i)) :
    PageBlocks poolsize on' head' (releaseBlock (placeAt poolsize p b i) live) := by
  refine ⟨hblocks.nodup.filter _, fun {e} => ?_⟩
  rw [mem_releaseBlock, hblocks.mem]
  constructor
  · rintro ⟨⟨q, c, j, hj, rfl⟩, hne⟩
    refine ⟨q, c, j, (huse q c j).mpr ⟨hj, ?_⟩, rfl⟩
    rintro ⟨rfl, rfl, rfl⟩
    exact hne rfl
  · rintro ⟨q, c, j, hj, rfl⟩
    obtain ⟨hold, hne⟩ := (huse q c j).mp hj
    exact ⟨⟨q, c, j, hold, rfl⟩, fun heq => hne (hi.inj h hfit hold heq.symm)⟩

end Live

section Contents

/-- The bytes of the fields of a page's header, -/
def fieldsAt (poolsize q : ℕ) : Extent := ⟨q <<< smallPageBits poolsize, 8⟩

/-- and the byte of a bit of its bitmap. -/
def bitAt (poolsize q j : ℕ) : Extent := ⟨q <<< smallPageBits poolsize + 8 + j / 8, 1⟩

/-- The fields of the headers are the same. -/
def SameFields (ph ph' : PageHeader) : Prop :=
  ph'.next = ph.next ∧ ph'.prev = ph.prev ∧ ph'.elementsUsed = ph.elementsUsed ∧
    ph'.bucket = ph.bucket

/-- What lies in the block is the same. Each small page of a pool is taken for a header, and the
bits of it for a bitmap. -/
def SameData (poolsize : ℕ) (e : Extent) (head head' : Pool) : Prop :=
  (∀ q, ¬ Extent.Disjoint (fieldsAt poolsize q) e → SameFields (head.page q) (head'.page q)) ∧
    ∀ q j, 8 + j / 8 < 2 ^ smallPageBits poolsize → ¬ Extent.Disjoint (bitAt poolsize q j) e →
      (head'.page q).used j = (head.page q).used j

/-- What lies outside of the blocks is the same. The headers of huge allocations, of which there
is none, are places in the pool as well. -/
structure Written (poolsize : ℕ) (live : List Extent) (head head' : Pool) : Prop where
  other : head' = { head with page := head'.page, hugeAlloc := head'.hugeAlloc }
  fields : ∀ {q}, (∀ e ∈ live, Extent.Disjoint (fieldsAt poolsize q) e) →
    SameFields (head.page q) (head'.page q)
  used : ∀ {q j}, 8 + j / 8 < 2 ^ smallPageBits poolsize →
    (∀ e ∈ live, Extent.Disjoint (bitAt poolsize q j) e) →
    (head'.page q).used j = (head.page q).used j

/-- The block of an element lies behind the header of its page, and inside the page. -/
theorem InUse.bounds (huse : InUse poolsize on head p b i) (h : PoolOk poolsize 0 on head)
    (hfit : PagesFit poolsize) :
    p * 2 ^ smallPageBits poolsize + 8 + usedSize (elements poolsize b) ≤
        (blockAt poolsize p b i).ptr ∧
      (blockAt poolsize p b i).ptr + (blockAt poolsize p b i).len ≤
        (p + pageSpan poolsize b) * 2 ^ smallPageBits poolsize := by
  have hlo := le_placeAt hfit (huse.bucket_lt h) p i
  obtain ⟨-, hhi⟩ := huse.within h hfit
  rw [Nat.shiftLeft_eq] at hlo
  rw [pageAt_eq, ← Nat.add_mul] at hhi
  exact ⟨hlo, hhi⟩

/-- A byte of a small page that lies in a block in use: the small page is that of the element, and
the byte lies behind the header, or it is another one of the same large page. -/
theorem InUse.cases_byte (huse : InUse poolsize on head p b i) (h : PoolOk poolsize 0 on head)
    (hfit : PagesFit poolsize) {x : ℕ} (hx : x < 2 ^ smallPageBits poolsize)
    (hlo : (blockAt poolsize p b i).ptr ≤ q * 2 ^ smallPageBits poolsize + x)
    (hhi : q * 2 ^ smallPageBits poolsize + x <
      (blockAt poolsize p b i).ptr + (blockAt poolsize p b i).len) :
    (q = p ∧ 8 + usedSize (elements poolsize b) ≤ x) ∨
      (q ≠ p ∧ q / 32 = p / 32 ∧ head.pagesize (p / 32) = true) := by
  obtain ⟨hstart, hend⟩ := huse.bounds h hfit
  obtain ⟨f, hp⟩ := huse.1
  obtain ⟨hspan, hlarge, hsmall⟩ := h.span hp
  -- the small page is one of those of the page
  have hqlt : q < p + pageSpan poolsize b :=
    Nat.lt_of_mul_lt_mul_right (a := 2 ^ smallPageBits poolsize) (by omega)
  have hpq : p < q + 1 :=
    Nat.lt_of_mul_lt_mul_right (a := 2 ^ smallPageBits poolsize) (by rw [Nat.succ_mul q]; omega)
  by_cases heq : q = p
  · subst heq
    exact Or.inl ⟨rfl, by omega⟩
  · refine Or.inr ⟨heq, by omega, ?_⟩
    by_contra hnot
    have hone := hsmall (by simpa using hnot)
    omega

/-- **What a call leaves alone** are the contents of the blocks in use. -/
theorem Spared.sameData (hspared : Spared poolsize on head head') (h : PoolOk poolsize 0 on head)
    (hfit : PagesFit poolsize) (huse : InUse poolsize on head p b i) :
    SameData poolsize (blockAt poolsize p b i) head head' := by
  obtain ⟨f, hp⟩ := huse.1
  have hpow : 2 ^ 7 ≤ 2 ^ smallPageBits poolsize :=
    Nat.pow_le_pow_right (by decide) hfit.smallPageBits.1
  constructor
  · intro q hoverlap
    obtain ⟨x, hx8, hlo, hhi⟩ : ∃ x < 8,
        (blockAt poolsize p b i).ptr ≤ q * 2 ^ smallPageBits poolsize + x ∧
          q * 2 ^ smallPageBits poolsize + x <
            (blockAt poolsize p b i).ptr + (blockAt poolsize p b i).len := by
      have hpos := huse.pos h hfit
      unfold Extent.Disjoint fieldsAt at hoverlap
      rw [Nat.shiftLeft_eq] at hoverlap
      refine ⟨(blockAt poolsize p b i).ptr - q * 2 ^ smallPageBits poolsize, ?_⟩
      simp only at hoverlap
      omega
    rcases huse.cases_byte h hfit (by omega) hlo hhi with ⟨-, hheader⟩ | ⟨hne, hgroup, hlarge⟩
    · omega
    · rw [hspared.inner hp hlarge hne hgroup]
      exact ⟨rfl, rfl, rfl, rfl⟩
  · intro q j hj hoverlap
    have hbyte : (blockAt poolsize p b i).ptr ≤ q * 2 ^ smallPageBits poolsize + (8 + j / 8) ∧
        q * 2 ^ smallPageBits poolsize + (8 + j / 8) <
          (blockAt poolsize p b i).ptr + (blockAt poolsize p b i).len := by
      unfold Extent.Disjoint bitAt at hoverlap
      rw [Nat.shiftLeft_eq] at hoverlap
      simp only at hoverlap
      omega
    rcases huse.cases_byte h hfit hj hbyte.1 hbyte.2 with ⟨rfl, hheader⟩ | ⟨hne, hgroup, hlarge⟩
    · exact hspared.used hp (by omega)
    · rw [hspared.inner hp hlarge hne hgroup]

theorem PageBlocks.sameData (hblocks : PageBlocks poolsize on head live)
    (h : PoolOk poolsize 0 on head) (hfit : PagesFit poolsize)
    (hspared : Spared poolsize on head head') (he : e ∈ live) : SameData poolsize e head head' := by
  obtain ⟨p, b, i, huse, rfl⟩ := hblocks.mem.mp he
  exact hspared.sameData h hfit huse

/-- The header of a listed page lies apart from the blocks in use. -/
theorem PoolOk.header_apart (h : PoolOk poolsize 0 on head) (hfit : PagesFit poolsize)
    (hq : on q = some l) (huse : InUse poolsize on head p b i) {x m : ℕ}
    (hm : 0 < m) (hx : x + m ≤ 2 ^ smallPageBits poolsize)
    (hxq : ∀ {f c}, l = .bucket f c → x + m ≤ 8 + usedSize (Pages.elements poolsize c)) :
    Extent.Disjoint ⟨q <<< smallPageBits poolsize + x, m⟩ (blockAt poolsize p b i) := by
  by_contra hoverlap
  obtain ⟨y, hxy, hym, hlo, hhi⟩ : ∃ y, x ≤ y ∧ y < x + m ∧
      (blockAt poolsize p b i).ptr ≤ q * 2 ^ smallPageBits poolsize + y ∧
        q * 2 ^ smallPageBits poolsize + y <
          (blockAt poolsize p b i).ptr + (blockAt poolsize p b i).len := by
    unfold Extent.Disjoint at hoverlap
    rw [Nat.shiftLeft_eq] at hoverlap
    have hpos := huse.pos h hfit
    refine ⟨max x ((blockAt poolsize p b i).ptr - q * 2 ^ smallPageBits poolsize), ?_⟩
    simp only at hoverlap
    omega
  obtain ⟨f, hp⟩ := huse.1
  rcases huse.cases_byte h hfit (by omega) hlo hhi with ⟨rfl, hheader⟩ | ⟨hne, hgroup, hlarge⟩
  · have := hxq (Option.some.inj (hq.symm.trans hp))
    omega
  · have hmod := (h.page_of hp (h.listed.ne_zero hp)).large hlarge
    exact absurd (hq.symm.trans (h.inner hmod hlarge hgroup hne (h.listed.ne_zero hq))) (by simp)

/-- **A write to the blocks in use** changes no header. -/
theorem PoolOk.write (h : PoolOk poolsize 0 on head) (hfit : PagesFit poolsize)
    (hblocks : PageBlocks poolsize on head live) (hw : Written poolsize live head head') :
    PoolOk poolsize 0 on head' ∧ PageBlocks poolsize on head' live := by
  have hpow : 2 ^ 7 ≤ 2 ^ smallPageBits poolsize :=
    Nat.pow_le_pow_right (by decide) hfit.smallPageBits.1
  have hfields : ∀ {q l}, on q = some l → SameFields (head.page q) (head'.page q) := by
    intro q l hq
    refine hw.fields fun e he => ?_
    obtain ⟨p, b, i, huse, rfl⟩ := hblocks.mem.mp he
    exact h.header_apart hfit hq huse (x := 0) (m := 8) (by decide) (by omega) fun _ => by
      omega
  have hused : ∀ {q f c j}, on q = some (.bucket f c) → j < Pages.elements poolsize c →
      (head'.page q).used j = (head.page q).used j := by
    intro q f c j hq hj
    have hc := (h.inUse hq (h.listed.ne_zero hq)).bucket_lt
    have hfits := hfit.header_fits hc
    have hbits := le_usedSize (Nat.lt_trans (hfit.elements_lt hc) (by decide))
    refine hw.used (by omega) fun e he => ?_
    obtain ⟨p, b, i, huse, rfl⟩ := hblocks.mem.mp he
    unfold bitAt
    rw [Nat.add_assoc]
    refine h.header_apart hfit hq huse Nat.one_pos (by omega) fun heq => ?_
    obtain ⟨-, rfl⟩ := PageList.bucket.inj heq
    omega
  have hsizes : head'.pagesize = head.pagesize := by rw [hw.other]
  have hlist : head'.list = head.list := by
    rw [hw.other]
    funext l
    match l with
    | .free false | .free true | .bucket false _ | .bucket true _ => rfl
  refine ⟨⟨h.listed.congr hlist fun hq => ⟨(hfields hq).1, (hfields hq).2.1⟩,
    fun {q l} hq hne => ?_,
    fun hq hne => h.all (hsizes ▸ hq) hne, hsizes ▸ h.first, fun hb => ?_, ?_⟩,
    ⟨hblocks.nodup, fun {e} => ?_⟩⟩
  · obtain ⟨hpage, hok⟩ := h.page hq hne
    obtain ⟨-, -, hcount, hbucket⟩ := hfields hq
    rw [hsizes]
    refine ⟨hpage, ?_⟩
    cases l with
    | free large => exact ⟨hok.1, hcount.trans hok.2⟩
    | bucket f c =>
      have hcount' : (head'.data q).elementsUsed = (head.data q).elementsUsed := hcount
      refine ⟨hok.bucket_lt, hok.proper, hok.large, hbucket.trans hok.bucket, ?_, ?_, ?_⟩
      · rw [hcount', hok.count]
        exact (countBits_congr fun j hj => hused hq hj).symm
      · rw [hcount']
        exact hok.pos
      · rw [hcount']
        exact hok.full
  · rw [hw.other]
    exact h.elements hb
  · rw [hw.other]
    exact h.huge
  · rw [hblocks.mem]
    refine exists_congr fun p => exists_congr fun b => exists_congr fun i => and_congr_left' ?_
    refine and_congr_right fun ⟨f, hp⟩ => and_congr_right fun hi => ?_
    rw [hused hp hi]

end Contents

section Steps

/-- The pool has its form, and its blocks in use are the elements in use. -/
def PagesOk (poolsize : ℕ) (head : Pool) (live : List Extent) : Prop :=
  ∃ on, PoolOk poolsize 0 on head ∧ PageBlocks poolsize on head live

variable (hfit : PagesFit poolsize)
include hfit

theorem PagesOk.init (head : Pool) :
    ∃ head', allocInit poolsize head = some head' ∧ PagesOk poolsize head' [] := by
  obtain ⟨head', hinit, hok⟩ := allocInit_eq hfit head
  refine ⟨head', hinit, _, hok, List.nodup_nil, fun {e} => iff_of_false List.not_mem_nil ?_⟩
  rintro ⟨p, b, i, ⟨⟨f, hp⟩, -⟩, -⟩
  exact initLists_ne_bucket hp

theorem PagesOk.within (h : PagesOk poolsize head live) (he : e ∈ live) :
    headerSize (largePageBits poolsize) ≤ e.ptr ∧ e.ptr + e.len ≤ poolsize := by
  obtain ⟨on, hok, hblocks⟩ := h
  obtain ⟨p, b, i, hi, rfl⟩ := hblocks.mem.mp he
  obtain ⟨f, hp⟩ := hi.1
  obtain ⟨hlo, hhi⟩ := hok.page_within hfit hp
  have hin := hi.within hok hfit
  have hend := (hin.trans hhi).2
  rw [Nat.zero_add] at hend
  exact ⟨Nat.le_trans hlo hin.1, hend⟩

theorem PagesOk.apart (h : PagesOk poolsize head live) : live.Pairwise Extent.Disjoint := by
  obtain ⟨on, hok, hblocks⟩ := h
  exact hblocks.apart hok hfit

/-- A request returns, and what it returns joins the blocks in use. It returns a block if there is
none in use. -/
theorem PagesOk.get (h : PagesOk poolsize head live) (hn : n < 2 ^ 63) (hk : k < 64)
    (hb : bucketOf n (2 ^ k) < maxBucket (largePageBits poolsize)) :
    ∃ p head', allocGet poolsize n (2 ^ k) head = some (p, head') ∧
      PagesOk poolsize head' (p.elim live fun q => ⟨q, bucketToSize (bucketOf n (2 ^ k))⟩ :: live) ∧
      (∀ e ∈ live, SameData poolsize e head head') ∧ (∀ q, p = some q → 0 < n → 2 ^ k ∣ q) ∧
      (live = [] → p ≠ none) := by
  obtain ⟨on, hok, hblocks⟩ := h
  have hcall : allocGet poolsize n (2 ^ k) head = bucketGet poolsize (bucketOf n (2 ^ k)) head :=
    if_neg (Nat.not_le_of_lt hb)
  rw [hcall]
  rw [bucketOf_eq hn hk] at hb ⊢
  obtain ⟨hle, hsize, hproper⟩ := hfit.request hb (requestSize_pos n k)
  obtain ⟨hno, on', head', hget, hok', hkept⟩ | ⟨-, p, i, on', head', hget, hok', hspared, hnew,
    huse⟩ := bucketGet_eq hok hfit hb hproper
  · refine ⟨none, head', hget, ⟨on', hok', hblocks.kept hkept⟩,
      fun e he => hblocks.sameData hok hfit (hkept.spared poolsize) he, by simp, fun hnil => ?_⟩
    subst hnil
    exact absurd hno (hblocks.not_noPage hok hfit _)
  · have hself := (huse _ _ _).mpr (Or.inr ⟨rfl, rfl, rfl⟩)
    refine ⟨some _, head', hget, ⟨on', hok', hblocks.take hok' hfit hnew huse⟩,
      fun e he => hblocks.sameData hok hfit hspared he, fun q hq hpos => ?_, fun _ => by simp⟩
    obtain rfl := Option.some.inj hq
    exact hself.aligned hok' hfit
      (dvd_bucketToSize (requestSize_pos n k) hsize (dvd_requestSize hpos k))

/-- A block in use can be freed, and the others stay in use. -/
theorem PagesOk.free (h : PagesOk poolsize head live) (he : e ∈ live) :
    ∃ head', allocFree poolsize e.ptr head = some head' ∧
      PagesOk poolsize head' (releaseBlock e.ptr live) ∧
      ∀ e' ∈ releaseBlock e.ptr live, SameData poolsize e' head head' := by
  obtain ⟨on, hok, hblocks⟩ := h
  obtain ⟨p, b, i, hi, rfl⟩ := hblocks.mem.mp he
  obtain ⟨on', head', hfree, hok', hspared, huse⟩ := elementFree_eq hok hfit hi
  obtain ⟨f, hp⟩ := hi.1
  refine ⟨head', ?_, ⟨on', hok', hblocks.drop hok hfit hi huse⟩, fun e' he' =>
    hblocks.sameData hok hfit hspared (mem_releaseBlock.mp he').1⟩
  show allocFree poolsize (placeAt poolsize p b i) head = some head'
  rw [allocFree, pageOf_placeAt hok hfit hp hi.2.1,
    if_neg (placeAt_ne hfit (hi.bucket_lt hok) p i)]
  exact hfree

theorem PagesOk.write (h : PagesOk poolsize head live) (hw : Written poolsize live head head') :
    PagesOk poolsize head' live := by
  obtain ⟨on, hok, hblocks⟩ := h
  exact ⟨on, hok.write hfit hblocks hw⟩

/-- The size of a block in use is the size of its bucket. -/
theorem PagesOk.size (h : PagesOk poolsize head live) (he : e ∈ live) :
    allocSize poolsize e.ptr head = some e.len := by
  obtain ⟨on, hok, hblocks⟩ := h
  obtain ⟨p, b, i, hi, rfl⟩ := hblocks.mem.mp he
  obtain ⟨f, hp⟩ := hi.1
  show allocSize poolsize (placeAt poolsize p b i) head = some (bucketToSize b)
  rw [allocSize, pageOf_placeAt hok hfit hp hi.2.1]
  simp only
  rw [if_neg (placeAt_ne hfit (hi.bucket_lt hok) p i)]
  exact congrArg (fun c => some (bucketToSize c)) (hok.inUse hp (hok.listed.ne_zero hp)).bucket

end Steps

end Shalloc.Pages
