import Shalloc.Pages.Blocks

/-!
# Runs on a pool with pages

A run sets the pool up and then makes requests that are not huge, frees blocks in use and writes
to them, in any order. The pool keeps its form along every run.

## Main definitions

- `PagesRun` — calls on a pool, and writes to its blocks in use

## Main results

- `allocInit_iff` — which pools are set up
- `pagesRun_safe` — calls return, and blocks lie apart
- `pagesRun_size` — the size that is reported
-/

namespace Shalloc.Pages

/-- Calls on a pool of `poolsize` bytes, with the blocks in use after them. A request is for one of
the sizes that pages have. -/
inductive PagesRun (poolsize : ℕ) : Pool → List Extent → Prop
  | init {raw head : Pool} : allocInit poolsize raw = some head → PagesRun poolsize head []
  | get {head head' : Pool} {live : List Extent} {n k : ℕ} {p : Option ℕ} :
      PagesRun poolsize head live → n < 2 ^ 63 → k < 64 →
      bucketOf n (2 ^ k) < maxBucket (largePageBits poolsize) →
      allocGet poolsize n (2 ^ k) head = some (p, head') →
      PagesRun poolsize head'
        (p.elim live fun q => ⟨q, bucketToSize (bucketOf n (2 ^ k))⟩ :: live)
  | free {head head' : Pool} {live : List Extent} {e : Extent} :
      PagesRun poolsize head live → e ∈ live → allocFree poolsize e.ptr head = some head' →
      PagesRun poolsize head' (releaseBlock e.ptr live)
  /-- The blocks in use are written, and nothing else. -/
  | write {head head' : Pool} {live : List Extent} :
      PagesRun poolsize head live → Written poolsize live head head' → PagesRun poolsize head' live

/-- A pool whose bytes are all zero. -/
def zeroPool : Pool where
  pagesize _ := false
  smallFreeList := 0
  largeFreeList := 0
  huge := 0
  bs _ := ⟨0, 0, 0⟩
  page _ := ⟨0, 0, 0, 0, fun _ => false⟩
  hugeAlloc _ := ⟨0, 0, 0, 0⟩

variable {poolsize n k : ℕ} {head head' : Pool} {live : List Extent} {e : Extent}

/-- A pool that was set up can be divided. -/
theorem PagesFit.of_init (huseful : minUsefulSize ≤ poolsize) (hsmall : poolsize ≤ 2 ^ 38)
    (hinit : allocInit poolsize head = some head') : PagesFit poolsize := by
  refine ⟨huseful, hsmall, Nat.le_of_not_lt fun hmany => ?_⟩
  rw [allocInit_none hmany] at hinit
  exact absurd hinit (by simp)

/-- **The invariant**: the pool keeps its form along every run. -/
theorem PagesRun.ok (hrun : PagesRun poolsize head live) (huseful : minUsefulSize ≤ poolsize)
    (hsmall : poolsize ≤ 2 ^ 38) : PagesFit poolsize ∧ PagesOk poolsize head live := by
  induction hrun with
  | @init raw head hinit =>
    have hfit := PagesFit.of_init huseful hsmall hinit
    obtain ⟨head1, hinit1, hok⟩ := PagesOk.init hfit raw
    obtain rfl := Option.some.inj (hinit1.symm.trans hinit)
    exact ⟨hfit, hok⟩
  | get _ hn hk hb hget ih =>
    obtain ⟨p1, head1, hget1, hok, -⟩ := ih.2.get ih.1 hn hk hb
    obtain ⟨rfl, rfl⟩ := Prod.mk.inj (Option.some.inj (hget1.symm.trans hget))
    exact ⟨ih.1, hok⟩
  | free _ he hfree ih =>
    obtain ⟨head1, hfree1, hok, -⟩ := ih.2.free ih.1 he
    obtain rfl := Option.some.inj (hfree1.symm.trans hfree)
    exact ⟨ih.1, hok⟩
  | write _ hw ih => exact ⟨ih.1, ih.2.write ih.1 hw⟩

/-- **Which pools are set up.** Just above the least size the pages are too small, and there are
more large pages than there are numbers for them. -/
theorem allocInit_iff (huseful : minUsefulSize ≤ poolsize) (hsmall : poolsize ≤ 2 ^ 38)
    (head : Pool) : (allocInit poolsize head).isSome = true ↔
      ¬ (minUsefulSize + 2 ^ 12 ≤ poolsize ∧ poolsize < minUsefulSize + 2 ^ 13) := by
  have hmin : minUsefulSize = 2 ^ 20 := by decide
  have hiff := pagesFit_iff huseful hsmall
  constructor
  · intro hsome
    obtain ⟨head', hinit⟩ := Option.isSome_iff_exists.mp hsome
    have hfit := hiff.mp (PagesFit.of_init huseful hsmall hinit)
    omega
  · intro hnot
    obtain ⟨head', hinit, -⟩ := allocInit_eq (hiff.mpr (by omega)) head
    rw [hinit]
    rfl

/-- A pool of the least size is set up, and one that is a little larger is not. -/
theorem allocInit_iff_mega : (allocInit (2 ^ 20) zeroPool).isSome = true ∧
    ¬ (allocInit (2 ^ 20 + 2 ^ 12) zeroPool).isSome = true := by
  have hmin : minUsefulSize = 2 ^ 20 := by decide
  exact ⟨(allocInit_iff (by decide) (by decide) zeroPool).mpr (by omega),
    fun hsome => (allocInit_iff (by decide) (by decide) zeroPool).mp hsome ⟨by omega, by omega⟩⟩

/-- A run that takes a block of 24 bytes of a pool of the least size. -/
theorem pagesRun_mega : ∃ head q, PagesRun (2 ^ 20) head [⟨q, 24⟩] := by
  have hfit : PagesFit (2 ^ 20) := (pagesFit_iff (by decide) (by decide)).mpr (by omega)
  have hb : bucketOf 24 (2 ^ 3) < maxBucket (largePageBits (2 ^ 20)) := by decide
  obtain ⟨head, hinit, hok⟩ := PagesOk.init hfit zeroPool
  obtain ⟨p, head', hget, -, -, -, hserved⟩ := hok.get hfit (by decide) (by decide) hb
  obtain ⟨q, rfl⟩ := Option.ne_none_iff_exists'.mp (hserved rfl)
  exact ⟨head', q, .get (.init hinit) (by decide) (by decide) hb hget⟩

section Results

variable (huseful : minUsefulSize ≤ poolsize) (hsmall : poolsize ≤ 2 ^ 38)
  (hrun : PagesRun poolsize head live)
include huseful hsmall hrun

/-- **No call fails, and blocks in use lie apart.** In every state that a run reaches, the blocks
in use lie in the pool behind its header and apart from each other. Every further request that is
not huge returns, and if it returns a block, this is large enough but by less than a quarter of
what is asked for too large, lies in the pool too, where its alignment asks for if it is not
empty, and apart from all blocks in use. Every block in use can be freed. No call changes the
contents of a block in use. -/
theorem pagesRun_safe :
    (∀ e ∈ live, headerSize (largePageBits poolsize) ≤ e.ptr ∧ e.ptr + e.len ≤ poolsize) ∧
      live.Pairwise Extent.Disjoint ∧
      (∀ n < 2 ^ 63, ∀ k < 64, bucketOf n (2 ^ k) < maxBucket (largePageBits poolsize) →
        ∃ p head', allocGet poolsize n (2 ^ k) head = some (p, head') ∧
          (∀ e ∈ live, SameData poolsize e head head') ∧
          ∀ q, p = some q → ∃ len, requestSize n k ≤ len ∧ 4 * len < 5 * requestSize n k ∧
            (0 < n → 2 ^ k ∣ q) ∧ headerSize (largePageBits poolsize) ≤ q ∧ q + len ≤ poolsize ∧
            ∀ e ∈ live, Extent.Disjoint ⟨q, len⟩ e) ∧
      ∀ e ∈ live, ∃ head', allocFree poolsize e.ptr head = some head' ∧
        ∀ e' ∈ releaseBlock e.ptr live, SameData poolsize e' head head' := by
  obtain ⟨hfit, hok⟩ := hrun.ok huseful hsmall
  refine ⟨fun e he => hok.within hfit he, hok.apart hfit, fun n hn k hk hb => ?_, fun e he => ?_⟩
  · obtain ⟨p, head', hget, hok', hkept, halign, -⟩ := hok.get hfit hn hk hb
    refine ⟨p, head', hget, hkept, fun q hq => ?_⟩
    subst hq
    rw [bucketOf_eq hn hk] at hb hok'
    have hpos := requestSize_pos n k
    obtain ⟨hle, hsize, -⟩ := hfit.request hb hpos
    obtain ⟨hlo, hhi⟩ := hok'.within hfit List.mem_cons_self
    exact ⟨_, hle, bucketToSize_waste hpos hsize, halign q rfl, hlo, hhi,
      (List.pairwise_cons.mp (hok'.apart hfit)).1⟩
  · obtain ⟨head', hfree, -, hkept⟩ := hok.free hfit he
    exact ⟨head', hfree, hkept⟩

omit huseful hsmall hrun in
/-- One block in use in a pool of the least size: a second request and the free return. -/
theorem pagesRun_safe_mega : ∃ head q, PagesRun (2 ^ 20) head [⟨q, 24⟩] ∧
    (∃ p head', allocGet (2 ^ 20) 100 (2 ^ 4) head = some (p, head')) ∧
    ∃ head', allocFree (2 ^ 20) q head = some head' := by
  obtain ⟨head, q, hrun⟩ := pagesRun_mega
  obtain ⟨-, -, hget, hfree⟩ := pagesRun_safe (by decide) (by decide) hrun
  obtain ⟨p, head', hcall, -⟩ := hget 100 (by decide) 4 (by decide) (by decide)
  obtain ⟨head'', hcall', -⟩ := hfree ⟨q, 24⟩ List.mem_cons_self
  exact ⟨head, q, hrun, ⟨p, head', hcall⟩, head'', hcall'⟩

/-- **The size that is reported** is that of the block, which is at least what was asked for. -/
theorem pagesRun_size (he : e ∈ live) : allocSize poolsize e.ptr head = some e.len := by
  obtain ⟨hfit, hok⟩ := hrun.ok huseful hsmall
  exact hok.size hfit he

omit huseful hsmall hrun in
theorem pagesRun_size_mega : ∃ head q, PagesRun (2 ^ 20) head [⟨q, 24⟩] ∧
    allocSize (2 ^ 20) q head = some 24 := by
  obtain ⟨head, q, hrun⟩ := pagesRun_mega
  have hsize := pagesRun_size (by decide) (by decide) hrun (e := ⟨q, 24⟩) List.mem_cons_self
  exact ⟨head, q, hrun, hsize⟩

end Results

end Shalloc.Pages
