import Shalloc.Region.Allocator
import Shalloc.Tiny.Check

/-!
# Runs on a small pool

A run sets the pool up and then makes requests, frees blocks in use and writes to them, in any
order. The pool keeps its form along every run, so that no call fails, the blocks in use lie
apart, and the check passes. A request is refused only if no free block is large enough even
after free neighbours have been joined; in particular nothing is lost for good.

## Main definitions

- `TinyRun` — calls on a pool, and writes to its blocks in use
- `TinyOk` — the form of the pool

## Main results

- `tinyRun_safe` — calls return, and blocks lie apart
- `tinyRun_check` — the check passes
- `tinyRun_refused`, `tinyRun_emptied` — which requests are refused
- `tinyRun_size` — the size that is reported
-/

namespace Shalloc.Tiny

/-- Calls on a pool of `poolsize` bytes, with the blocks in use after them. -/
inductive TinyRun (poolsize : ℕ) : Pool → List Extent → Prop
  | init {pool arr : Pool} : tinyAllocInit poolsize pool = some arr → TinyRun poolsize arr []
  | get {arr arr' : Pool} {live : List Extent} {n k : ℕ} {p : Option ℕ} :
      TinyRun poolsize arr live → n < 2 ^ 63 → k < 64 →
      tinyAllocGet poolsize n (2 ^ k) arr = some (p, arr') →
      TinyRun poolsize arr' (p.elim live fun q => ⟨q, askedSize n⟩ :: live)
  | free {arr arr' : Pool} {live : List Extent} {e : Extent} :
      TinyRun poolsize arr live → e ∈ live → tinyAllocFree poolsize e.ptr arr = some arr' →
      TinyRun poolsize arr' (releaseBlock e.ptr live)
  /-- The blocks in use are written, and nothing else. -/
  | write {arr arr' : Pool} {live : List Extent} :
      TinyRun poolsize arr live →
      (∀ a, (∀ e ∈ live, a < e.ptr ∨ e.ptr + e.len ≤ a) → arr' a = arr a) →
      TinyRun poolsize arr' live

/-- A run that takes three bytes of a pool of sixteen. -/
theorem tinyRun_sixteen : ∃ arr, TinyRun 16 arr [⟨13, 3⟩] := by
  have hget : ((tinyAllocInit 16 fun _ => 0).bind (tinyAllocGet 16 3 (2 ^ 0))).map Prod.fst =
      some (some 13) := by decide
  obtain ⟨arr0, hinit⟩ := Option.isSome_iff_exists.mp
    (by decide : (tinyAllocInit 16 fun _ => 0).isSome = true)
  rw [hinit, Option.bind_some, Option.map_eq_some_iff] at hget
  obtain ⟨⟨p, arr⟩, hget, rfl⟩ := hget
  exact ⟨arr, .get (.init hinit) (by decide) (by decide) hget⟩

/-- The blocks tile the pool, and hold the data in use. A pool of less than two bytes has no
block. -/
def TinyOk (poolsize : ℕ) (arr : Pool) (live : List Extent) : Prop :=
  (poolsize < minBlockSize ∧ live = []) ∨
    ∃ blocks, PoolOk poolsize blocks arr ∧ (liveData blocks).Perm live

variable {poolsize n k : ℕ} {arr arr' : Pool} {blocks : List Block} {live : List Extent}
  {e : Extent}

section Invariant

/-- A write to the data in use changes no header, no zero byte before data and no entry. -/
theorem PoolOk.write (h : PoolOk poolsize blocks arr)
    (heq : ∀ a, (∀ e ∈ liveData blocks, a < e.ptr ∨ e.ptr + e.len ≤ a) → arr' a = arr a) :
    PoolOk poolsize blocks arr' := by
  refine ⟨⟨h.tiles.tiles, fun b hb => (h.tiles.ok b hb).congr fun a h1 h2 hdata =>
    heq a fun e' he' => ?_⟩, h.array.congr (fun a ha => heq a fun e' he' => ?_)
    fun _ hx _ _ => hx, h.nonempty⟩
  · obtain ⟨b', hb', hb'data⟩ := List.mem_filterMap.mp he'
    obtain ⟨hbody, -, -, hend, -⟩ := (h.tiles.ok b' hb').data e' hb'data
    unfold Block.body at hbody
    rcases h.tiles.tiles.eq_or_apart hb hb' with rfl | hapart
    · exact Or.inl (hdata e' hb'data)
    · simp only [Extent.Disjoint, Block.extent_ptr, Block.extent_len] at hapart
      omega
  · have := (h.tiles.live_within he').1
    exact Or.inl (by omega)

theorem TinyOk.write (h : TinyOk poolsize arr live)
    (heq : ∀ a, (∀ e ∈ live, a < e.ptr ∨ e.ptr + e.len ≤ a) → arr' a = arr a) :
    TinyOk poolsize arr' live := by
  rcases h with hempty | ⟨blocks, hpool, hperm⟩
  · exact Or.inl hempty
  · refine Or.inr ⟨blocks, hpool.write fun a ha => heq a fun e' he' => ?_, hperm⟩
    exact ha e' (hperm.mem_iff.mpr he')

theorem TinyOk.within (h : TinyOk poolsize arr live) (he : e ∈ live) :
    freeArraySize poolsize < e.ptr ∧ e.ptr + e.len ≤ poolsize ∧ 0 < e.len := by
  rcases h with ⟨-, rfl⟩ | ⟨blocks, hpool, hperm⟩
  · cases he
  · exact hpool.tiles.live_within (hperm.mem_iff.mpr he)

theorem TinyOk.apart (h : TinyOk poolsize arr live) : live.Pairwise Extent.Disjoint := by
  rcases h with ⟨-, rfl⟩ | ⟨blocks, hpool, hperm⟩
  · exact List.Pairwise.nil
  · exact hperm.pairwise hpool.tiles.live_pairwise Extent.Disjoint.symm

variable (hsmall : poolsize < 2 ^ 24)
include hsmall

theorem TinyOk.init (pool : Pool) :
    ∃ arr, tinyAllocInit poolsize pool = some arr ∧ TinyOk poolsize arr [] := by
  rcases Nat.lt_or_ge poolsize minBlockSize with hlt | h2
  · exact ⟨pool, if_pos hlt, Or.inl ⟨hlt, rfl⟩⟩
  · obtain ⟨arr, hinit, hpool⟩ := tinyAllocInit_eq hsmall h2 pool
    exact ⟨arr, hinit, Or.inr ⟨_, hpool, List.Perm.refl _⟩⟩

/-- A request returns, and what it returns joins the blocks in use. -/
theorem TinyOk.get (h : TinyOk poolsize arr live) (hn : n < 2 ^ 63) (hk : k < 64) :
    ∃ p arr', tinyAllocGet poolsize n (2 ^ k) arr = some (p, arr') ∧
      TinyOk poolsize arr' (p.elim live fun q => ⟨q, askedSize n⟩ :: live) ∧
      (∀ q, p = some q → 2 ^ k ∣ q) ∧ ∀ e ∈ live, SameData e arr arr' := by
  rcases h with ⟨hlt, rfl⟩ | ⟨blocks, hpool, hperm⟩
  · refine ⟨none, arr, if_pos hlt, Or.inl ⟨hlt, rfl⟩, fun q hq => absurd hq (by simp), by simp⟩
  · obtain ⟨p, blocks', arr', hget, hcase⟩ := tinyAllocGet_eq hsmall hn hk hpool
    refine ⟨p, arr', hget, Or.inr ⟨blocks', hcase.pool, ?_⟩, fun q hq => (hcase.served q hq).1,
      fun e he => hcase.kept e (hperm.mem_iff.mpr he)⟩
    cases p with
    | none =>
      rw [hcase.joined rfl, liveData_coalesce]
      exact hperm
    | some q => exact (hcase.served q rfl).2.trans (hperm.cons _)

/-- A block in use can be freed, and the others stay in use. -/
theorem TinyOk.free (h : TinyOk poolsize arr live) (he : e ∈ live) :
    ∃ arr', tinyAllocFree poolsize e.ptr arr = some arr' ∧
      TinyOk poolsize arr' (releaseBlock e.ptr live) ∧
      ∀ e' ∈ releaseBlock e.ptr live, SameData e' arr arr' := by
  have hapart := h.apart
  have hpos : ∀ e ∈ live, 0 < e.len := fun e he => (h.within he).2.2
  rcases h with ⟨-, rfl⟩ | ⟨blocks, hpool, hperm⟩
  · cases he
  · obtain ⟨blocks', arr', hfree, hpool', hperm', hkept⟩ :=
      tinyAllocFree_eq hsmall hpool (hperm.mem_iff.mpr he)
    have hrelease := release_perm (hperm.symm.trans hperm') hapart hpos
    exact ⟨arr', hfree, Or.inr ⟨blocks', hpool', hrelease.symm⟩, fun e' he' =>
      hkept e' (hrelease.mem_iff.mp he')⟩

theorem TinyOk.check (h : TinyOk poolsize arr live) : tinyAllocCheck poolsize arr = some true := by
  rcases h with ⟨hlt, -⟩ | ⟨blocks, hpool, -⟩
  · exact if_pos hlt
  · exact tinyAllocCheck_eq hsmall hpool

/-- **The invariant**: the pool keeps its form along every run. -/
theorem TinyRun.ok (hrun : TinyRun poolsize arr live) : TinyOk poolsize arr live := by
  induction hrun with
  | @init pool arr hinit =>
    obtain ⟨arr1, hinit1, hok⟩ := TinyOk.init hsmall pool
    obtain rfl := Option.some.inj (hinit1.symm.trans hinit)
    exact hok
  | get _ hn hk hget ih =>
    obtain ⟨p1, arr1, hget1, hok, -⟩ := ih.get hsmall hn hk
    obtain ⟨rfl, rfl⟩ := Prod.mk.inj (Option.some.inj (hget1.symm.trans hget))
    exact hok
  | free _ he hfree ih =>
    obtain ⟨arr1, hfree1, hok, -⟩ := ih.free hsmall he
    obtain rfl := Option.some.inj (hfree1.symm.trans hfree)
    exact hok
  | write _ heq ih => exact ih.write heq

end Invariant

section Results

variable (hsmall : poolsize < 2 ^ 24) (hrun : TinyRun poolsize arr live)
include hsmall hrun

/-- **No call fails, and blocks in use lie apart.** In every state that a run reaches, the blocks
in use lie in the pool behind the free array and apart from each other. Every further request
returns, and if it returns a block, this lies there too, where its alignment asks for, and apart
from all blocks in use. Every block in use can be freed. No call changes the data in use. -/
theorem tinyRun_safe :
    (∀ e ∈ live, freeArraySize poolsize < e.ptr ∧ e.ptr + e.len ≤ poolsize) ∧
      live.Pairwise Extent.Disjoint ∧
      (∀ n < 2 ^ 63, ∀ k < 64, ∃ p arr', tinyAllocGet poolsize n (2 ^ k) arr = some (p, arr') ∧
        (∀ e ∈ live, SameData e arr arr') ∧
        ∀ q, p = some q → 2 ^ k ∣ q ∧ freeArraySize poolsize < q ∧ q + askedSize n ≤ poolsize ∧
          ∀ e ∈ live, Extent.Disjoint ⟨q, askedSize n⟩ e) ∧
      ∀ e ∈ live, ∃ arr', tinyAllocFree poolsize e.ptr arr = some arr' ∧
        ∀ e' ∈ releaseBlock e.ptr live, SameData e' arr arr' := by
  have hok := hrun.ok hsmall
  refine ⟨fun e he => ⟨(hok.within he).1, (hok.within he).2.1⟩, hok.apart, fun n hn k hk => ?_,
    fun e he => ?_⟩
  · obtain ⟨p, arr', hget, hok', halign, hkept⟩ := hok.get hsmall hn hk
    refine ⟨p, arr', hget, hkept, fun q hq => ?_⟩
    subst hq
    obtain ⟨hlo, hhi, -⟩ := hok'.within List.mem_cons_self
    exact ⟨halign q rfl, hlo, hhi, (List.pairwise_cons.mp hok'.apart).1⟩
  · obtain ⟨arr', hfree, -, hkept⟩ := hok.free hsmall he
    exact ⟨arr', hfree, hkept⟩

omit hsmall hrun in
/-- One block in use in a pool of sixteen bytes: a second request and the free return. -/
theorem tinyRun_safe_sixteen : ∃ arr, TinyRun 16 arr [⟨13, 3⟩] ∧
    (∃ p arr', tinyAllocGet 16 5 (2 ^ 2) arr = some (p, arr')) ∧
    ∃ arr', tinyAllocFree 16 13 arr = some arr' := by
  obtain ⟨arr, hrun⟩ := tinyRun_sixteen
  obtain ⟨-, -, hget, hfree⟩ := tinyRun_safe (by decide) hrun
  obtain ⟨p, arr', hcall, -⟩ := hget 5 (by decide) 2 (by decide)
  obtain ⟨arr'', hcall', -⟩ := hfree ⟨13, 3⟩ (by decide)
  exact ⟨arr, hrun, ⟨p, arr', hcall⟩, arr'', hcall'⟩

/-- **The check passes** in every state that a run reaches. -/
theorem tinyRun_check : tinyAllocCheck poolsize arr = some true := (hrun.ok hsmall).check hsmall

omit hsmall hrun in
theorem tinyRun_check_sixteen :
    ∃ arr, TinyRun 16 arr [⟨13, 3⟩] ∧ tinyAllocCheck 16 arr = some true := by
  obtain ⟨arr, hrun⟩ := tinyRun_sixteen
  exact ⟨arr, hrun, tinyRun_check (by decide) hrun⟩

/-- **Which requests are refused.** In every state that a run reaches in a pool of two bytes or
more, there are blocks that tile it, and a request is refused if and only if no free block is
large enough, neither as it is nor joined with its free neighbours. The free neighbours are joined
then. -/
theorem tinyRun_refused (h2 : minBlockSize ≤ poolsize) :
    ∃ blocks, PoolOk poolsize blocks arr ∧ (liveData blocks).Perm live ∧
      ∀ n < 2 ^ 63, ∀ k < 64, ∃ p blocks' arr',
        tinyAllocGet poolsize n (2 ^ k) arr = some (p, arr') ∧ PoolOk poolsize blocks' arr' ∧
        (p = none ↔ ∀ b ∈ blocks ++ coalesce blocks, b.data = none → ¬ b.Fits (askedSize n) k) ∧
        (p = none → blocks'.IsChain fun b b' => ¬ (b'.free && b.free) = true) := by
  rcases hrun.ok hsmall with ⟨hlt, -⟩ | ⟨blocks, hpool, hperm⟩
  · exact absurd h2 (Nat.not_le_of_lt hlt)
  · refine ⟨blocks, hpool, hperm, fun n hn k hk => ?_⟩
    obtain ⟨p, blocks', arr', hget, hcase⟩ := tinyAllocGet_eq hsmall hn hk hpool
    refine ⟨p, blocks', arr', hget, hcase.pool, hcase.refused.trans ?_, fun hp => ?_⟩
    · refine forall₂_congr fun b _ => ?_
      rw [Bool.eq_false_iff, ne_eq, Block.serves_iff, not_and]
    · rw [hcase.joined hp]
      obtain ⟨b, l, rfl⟩ := List.exists_cons_of_ne_nil hpool.nonempty
      exact isChain_coalesceFrom l b

omit hsmall hrun in
/-- With three of sixteen bytes in use, a request for twelve is refused: no block has room. -/
theorem tinyRun_refused_sixteen : ∃ arr arr' blocks, TinyRun 16 arr [⟨13, 3⟩] ∧
    PoolOk 16 blocks arr ∧ (liveData blocks).Perm [⟨13, 3⟩] ∧
    tinyAllocGet 16 12 (2 ^ 0) arr = some (none, arr') ∧
    ∀ b ∈ blocks ++ coalesce blocks, b.data = none → ¬ b.Fits (askedSize 12) 0 := by
  have hcalls : (do
      let arr0 ← tinyAllocInit 16 fun _ => 0
      let (p, arr) ← tinyAllocGet 16 3 (2 ^ 0) arr0
      let (q, _) ← tinyAllocGet 16 12 (2 ^ 0) arr
      some (p, q)) = some (some 13, none) := by decide
  simp only [bind, Option.bind_eq_some_iff, Prod.exists, Option.some.injEq,
    Prod.mk.injEq] at hcalls
  obtain ⟨arr0, hinit, _, arr, hget, _, arr1, hrefused, rfl, rfl⟩ := hcalls
  have hrun : TinyRun 16 arr [⟨13, 3⟩] := .get (.init hinit) (by decide) (by decide) hget
  obtain ⟨blocks, hpool, hperm, hcall⟩ := tinyRun_refused (by decide) hrun (by decide)
  obtain ⟨p, -, arr', hget', -, hiff, -⟩ := hcall 12 (by decide) 0 (by decide)
  obtain ⟨rfl, rfl⟩ := Prod.mk.inj (Option.some.inj (hrefused.symm.trans hget'))
  exact ⟨arr, _, blocks, hrun, hpool, hperm, hrefused, hiff.mp rfl⟩

end Results

/-- **Nothing is lost**: once every block has been freed again, the pool serves each request that
it could serve when it was new. -/
theorem tinyRun_emptied {pool arr0 arr0' : Pool} {q : ℕ} (hsmall : poolsize < 2 ^ 24)
    (hn : n < 2 ^ 63) (hk : k < 64) (hinit : tinyAllocInit poolsize pool = some arr0)
    (hfresh : tinyAllocGet poolsize n (2 ^ k) arr0 = some (some q, arr0'))
    (hrun : TinyRun poolsize arr []) :
    ∃ q' arr', tinyAllocGet poolsize n (2 ^ k) arr = some (some q', arr') := by
  have h2 : minBlockSize ≤ poolsize := by
    by_contra hlt
    rw [tinyAllocGet, if_pos (Nat.lt_of_not_le hlt)] at hfresh
    cases hfresh
  -- the one block of the new pool serves the request
  obtain ⟨arr1, hinit1, hpool1⟩ := tinyAllocInit_eq hsmall h2 pool
  obtain rfl := Option.some.inj (hinit1.symm.trans hinit)
  obtain ⟨p1, blocks1, arr1', hget1, hcase1⟩ := tinyAllocGet_eq hsmall hn hk hpool1
  obtain ⟨rfl, -⟩ := Prod.mk.inj (Option.some.inj (hget1.symm.trans hfresh))
  rcases hrun.ok hsmall with ⟨hlt, -⟩ | ⟨blocks, hpool, hperm⟩
  · exact absurd h2 (Nat.not_le_of_lt hlt)
  · obtain ⟨p, blocks', arr', hget, hcase⟩ := tinyAllocGet_eq hsmall hn hk hpool
    cases p with
    | some q' => exact ⟨q', arr', hget⟩
    | none =>
      -- the joined blocks are that one block again
      obtain ⟨b, l, rfl⟩ := List.exists_cons_of_ne_nil hpool.nonempty
      have hoff := hpool.tiles.tiles.1
      rw [Block.extent_ptr] at hoff
      have hjoined : coalesce (b :: l) =
          [⟨freeArraySize poolsize, poolsize - freeArraySize poolsize, none⟩] := by
        have := coalesceFrom_free (hoff.symm ▸ hpool.tiles.tiles) (List.perm_nil.mp hperm)
        rwa [hoff] at this
      have hall := hcase.refused.mp rfl
      rw [hjoined] at hall
      refine absurd (hcase1.refused.mpr fun b hb => ?_) (by simp)
      rw [coalesce, coalesceFrom, List.mem_append, or_self] at hb
      exact hall b (List.mem_append_right _ hb)

/-- A pool of sixteen bytes serves twelve bytes again after three have been taken and freed. -/
theorem tinyRun_emptied_sixteen : ∃ arr q arr', TinyRun 16 arr [] ∧
    tinyAllocGet 16 12 (2 ^ 0) arr = some (some q, arr') := by
  obtain ⟨arr0, hinit⟩ := Option.isSome_iff_exists.mp
    (by decide : (tinyAllocInit 16 fun _ => 0).isSome = true)
  have hget : ((tinyAllocInit 16 fun _ => 0).bind (tinyAllocGet 16 12 (2 ^ 0))).map Prod.fst =
      some (some 4) := by decide
  rw [hinit, Option.bind_some, Option.map_eq_some_iff] at hget
  obtain ⟨⟨p, arr0'⟩, hfresh, rfl⟩ := hget
  obtain ⟨arr1, hrun1⟩ := tinyRun_sixteen
  obtain ⟨arr, hfree, -⟩ := (hrun1.ok (by decide)).free (by decide) (e := ⟨13, 3⟩) (by decide)
  have hrun : TinyRun 16 arr [] := .free hrun1 (by decide) hfree
  obtain ⟨q, arr', hserved⟩ := tinyRun_emptied (by decide) (by decide) (by decide) hinit hfresh hrun
  exact ⟨arr, q, arr', hrun, hserved⟩

/-- **The size that is reported** is that from the data to the end of their block, or one byte
more if the byte before the data is zero. So it is at least the size asked for, but one byte of
it may lie behind the block. -/
theorem tinyRun_size (hsmall : poolsize < 2 ^ 24) (hrun : TinyRun poolsize arr live)
    (he : e ∈ live) :
    ∃ blocks, PoolOk poolsize blocks arr ∧ (liveData blocks).Perm live ∧
      ∃ b ∈ blocks, b.data = some e ∧ tinyAllocSize e.ptr arr =
        some (b.off + b.len - e.ptr + if arr (e.ptr - 1) = 0 then 1 else 0) := by
  rcases hrun.ok hsmall with ⟨-, rfl⟩ | ⟨blocks, hpool, hperm⟩
  · cases he
  · obtain ⟨b, hb, hdata⟩ := List.mem_filterMap.mp (hperm.mem_iff.mpr he)
    obtain ⟨hbody, hone, hpos, hend, hzero⟩ := (hpool.tiles.ok b hb).data e hdata
    refine ⟨blocks, hpool, hperm, b, hb, hdata, ?_⟩
    rw [tinyAllocSize_eq hsmall hpool.tiles hb hdata]
    refine congrArg some ?_
    rcases Nat.eq_or_lt_of_le hbody with heq | hlt
    · -- the last byte of the header is not zero
      have hlast : arr (e.ptr - 1) ≠ 0 := by
        obtain ⟨hterm, ⟨honly, -⟩ | ⟨-, last, -, hlast, hterm', -⟩⟩ :=
          header_term (hpool.tiles.ok b hb).header
        · have hplace : e.ptr - 1 = b.off := by
            rw [← heq, Block.body, honly, Nat.add_sub_cancel]
          rw [hplace]
          exact ne_zero_of_term hterm
        · have hplace : e.ptr - 1 = last := by
            rw [← heq, Block.body, ← hlast, Nat.add_sub_cancel]
          rw [hplace]
          exact ne_zero_of_term hterm'
      rw [if_neg hlast, heq, Nat.add_zero]
    · rw [if_pos (hzero _ (by omega) (by omega))]
      omega

/-- In a pool of twelve bytes ten are in use at place 2, up to the end of the pool, and eleven are
reported. -/
theorem tinyRun_size_twelve : ∃ arr blocks b, TinyRun 12 arr [⟨2, 10⟩] ∧ PoolOk 12 blocks arr ∧
    b ∈ blocks ∧ b.data = some ⟨2, 10⟩ ∧ b.off + b.len = 12 ∧ tinyAllocSize 2 arr = some 11 := by
  have hcalls : (do
      let arr0 ← tinyAllocInit 12 fun _ => 0
      let (p, arr) ← tinyAllocGet 12 10 (2 ^ 0) arr0
      let size ← tinyAllocSize 2 arr
      some (p, size, arr 1)) = some (some 2, 11, 0) := by decide
  simp only [bind, Option.bind_eq_some_iff, Prod.exists, Option.some.injEq,
    Prod.mk.injEq] at hcalls
  obtain ⟨arr0, hinit, _, arr, hget, size, hreported, rfl, rfl, hzero⟩ := hcalls
  have hrun : TinyRun 12 arr [⟨2, 10⟩] := .get (.init hinit) (by decide) (by decide) hget
  obtain ⟨blocks, hpool, -, b, hb, hdata, hsize⟩ :=
    tinyRun_size (by decide) hrun (e := ⟨2, 10⟩) (by decide)
  have heq : 11 = b.off + b.len - 2 + if arr (2 - 1) = 0 then 1 else 0 :=
    Option.some.inj (hreported.symm.trans hsize)
  have hplace : arr (2 - 1) = 0 := hzero
  rw [if_pos hplace] at heq
  exact ⟨arr, blocks, b, hrun, hpool, hb, hdata, by omega, hreported⟩

end Shalloc.Tiny
