import Mathlib.Dynamics.PeriodicPts.Defs
import Shalloc.Extent
import Shalloc.Region.Allocator
import Shalloc.Simple.List

/-!
# The bounds of the simple allocator

`get_mem_from_pool` compares the end of the new block with the size of the buffer, but counts
from the start of the pool, which lies behind the control header. In a run in which no block is
added that reaches past the buffer, all blocks lie in the buffer behind the header.

## Main definitions

- `PoolOverruns` — the call would add a block that reaches past the buffer
- `SimpleRun` — calls on a buffer, and writes to its blocks in use

## Main results

- `MemmgrList.alloc` — what `memmgr_alloc` does to the list
- `simple_inBuffer` — the calls return, and the blocks lie in the buffer
-/

namespace Shalloc

open Circular

variable {buff : Buff} {mgr mgr' : Memmgr} {base lo hi n nquantas buffSize fuel : ℕ}
  {free : List ℕ} {owned : Set ℕ} {live : List Extent}

/-- No block of the list is large enough. -/
def ListRefuses (nquantas : ℕ) (mgr : Memmgr) : Prop :=
  ∀ k, mgr.size (mgr.next^[k] mgr.freep) < nquantas

/-- The bytes that the pool is asked for. -/
def poolRequest (nquantas : ℕ) : ℕ := max nquantas minPoolAllocQuantas * sizeofMemHeader

/-- A request for `n` bytes that the list refuses is served from the pool, by a block that
reaches past the buffer. -/
def PoolOverruns (buff : Buff) (n : ℕ) (mgr : Memmgr) : Prop :=
  ListRefuses (memmgrQuantas n) (memmgrStart buff.start mgr) ∧
    Word.wrap 64 (mgr.poolFreePos + poolRequest (memmgrQuantas n)) ≤ buff.size ∧
    buff.size < sizeofBuffHeader + (mgr.poolFreePos + poolRequest (memmgrQuantas n))

/-- Calls on a buffer of type SIMPLE, with the blocks in use after them. Each request is one that
is `allowed` in its state. -/
inductive SimpleRun (allowed : ℕ → Memmgr → Prop) (buff : Buff) : Memmgr → List Extent → Prop
  | create {raw mgr : Memmgr} {ret : ℤ} : simpleOp.create buff raw = some (ret, mgr) →
      SimpleRun allowed buff mgr []
  | malloc {mgr mgr' : Memmgr} {live : List Extent} {n : ℕ} {p : Option ℕ} :
      SimpleRun allowed buff mgr live → n < 2 ^ 48 → allowed n mgr →
      simpleOp.malloc buff n mgr = some (p, mgr') →
      SimpleRun allowed buff mgr' (p.elim live fun q => ⟨q, n⟩ :: live)
  | free {mgr mgr' : Memmgr} {live : List Extent} {e : Extent} :
      SimpleRun allowed buff mgr live → e ∈ live → simpleOp.free buff e.ptr mgr = some mgr' →
      SimpleRun allowed buff mgr' (releaseBlock e.ptr live)
  /-- The blocks in use are written, and nothing else. -/
  | write {mgr : Memmgr} {live : List Extent} {headers : ℕ → MemHeader} :
      SimpleRun allowed buff mgr live →
      (∀ a, (∀ e ∈ live, Extent.Disjoint ⟨a, sizeofMemHeader⟩ e) → headers a = mgr.headers a) →
      SimpleRun allowed buff { mgr with headers := headers } live

section Search

/-- The search passes the blocks that are too small, up to `freep`. -/
theorem allocLoop_walk : ∀ {k q : ℕ},
    (∀ j < k, mgr.size (mgr.next^[j + 1] q) < nquantas ∧ mgr.next^[j + 1] q ≠ mgr.freep) →
    memmgrAllocLoop buffSize nquantas (fuel + k) q (mgr.next q) mgr =
      memmgrAllocLoop buffSize nquantas fuel (mgr.next^[k] q) (mgr.next^[k + 1] q) mgr := by
  intro k
  induction k with
  | zero => exact fun _ => rfl
  | succ k ih =>
    intro q hsmall
    obtain ⟨hsize, hne⟩ := hsmall 0 (Nat.succ_pos k)
    rw [← Nat.add_assoc, memmgrAllocLoop]
    refine (if_neg (Nat.not_le_of_lt hsize)).trans ((if_neg hne).trans ?_)
    exact ih fun j hj => hsmall (j + 1) (Nat.succ_lt_succ hj)

/-- The pool is asked, and the search goes on. -/
def allocFromPool (buffSize nquantas fuel : ℕ) (mgr : Memmgr) : Option (Option ℕ × Memmgr) :=
  (getMemFromPool buffSize nquantas mgr).bind fun a =>
    if a.1 = 0 then some (none, a.2)
    else memmgrAllocLoop buffSize nquantas fuel a.1 (a.2.next a.1) a.2

/-- **The search** finds a block that is large enough, or goes once through the list and asks the
pool. -/
theorem MemmgrBlocks.search (h : MemmgrBlocks base lo hi free owned mgr)
    (hfreep : mgr.freep ∈ base :: free) (hfuel : free.length < fuel) :
    (∃ q ∈ base :: free, nquantas ≤ mgr.size (mgr.next q) ∧
      memmgrAllocLoop buffSize nquantas fuel mgr.freep (mgr.next mgr.freep) mgr =
        some (some ((memmgrTake nquantas q (mgr.next q) mgr).1 + sizeofMemHeader),
          (memmgrTake nquantas q (mgr.next q) mgr).2)) ∨
    (ListRefuses nquantas mgr ∧ ∃ fuel', fuel ≤ fuel' + free.length + 1 ∧
      memmgrAllocLoop buffSize nquantas fuel mgr.freep (mgr.next mgr.freep) mgr =
        allocFromPool buffSize nquantas fuel' mgr) := by
  classical
  -- the first block at which the search does not go on
  have hends : ∃ k, k ≤ free.length ∧ (nquantas ≤ mgr.size (mgr.next^[k + 1] mgr.freep) ∨
      mgr.next^[k + 1] mgr.freep = mgr.freep) := by
    obtain ⟨k, hk, hback⟩ := h.visits.exists_iterate (h.visits.next_mem hfreep) hfreep
    exact ⟨k, hk, Or.inr hback⟩
  obtain ⟨k, ⟨hk, hend⟩, hleast⟩ : ∃ k, (k ≤ free.length ∧
      (nquantas ≤ mgr.size (mgr.next^[k + 1] mgr.freep) ∨ mgr.next^[k + 1] mgr.freep = mgr.freep)) ∧
      ∀ j < k, mgr.size (mgr.next^[j + 1] mgr.freep) < nquantas ∧
        mgr.next^[j + 1] mgr.freep ≠ mgr.freep := by
    refine ⟨Nat.find hends, Nat.find_spec hends, fun j hj => ?_⟩
    have hnot := Nat.find_min hends hj
    have hle := (Nat.find_spec hends).1
    exact ⟨Nat.lt_of_not_le fun hsize => hnot ⟨by omega, Or.inl hsize⟩,
      fun heq => hnot ⟨by omega, Or.inr heq⟩⟩
  obtain ⟨fuel', rfl⟩ : ∃ fuel', fuel = fuel' + 1 + k := ⟨fuel - 1 - k, by omega⟩
  rw [allocLoop_walk hleast, Function.iterate_succ_apply', memmgrAllocLoop]
  have hmem := h.iterate_mem hfreep k
  rw [Function.iterate_succ_apply'] at hend
  by_cases hsize : nquantas ≤ mgr.size (mgr.next (mgr.next^[k] mgr.freep))
  · exact Or.inl ⟨_, hmem, hsize, if_pos hsize⟩
  · have hback := hend.resolve_left hsize
    refine Or.inr ⟨fun j => ?_, fuel', by omega, (if_neg hsize).trans (if_pos hback)⟩
    -- the iterates repeat after `k + 1` steps
    have hperiod : Function.IsPeriodicPt mgr.next (k + 1) mgr.freep := by
      rw [Function.IsPeriodicPt, Function.IsFixedPt, Function.iterate_succ_apply']
      exact hback
    rw [← hperiod.iterate_mod_apply j]
    have hlt : j % (k + 1) < k + 1 := Nat.mod_lt _ (Nat.succ_pos k)
    cases hj : j % (k + 1) with
    | zero =>
      rw [Function.iterate_zero_apply, ← hback]
      exact Nat.lt_of_not_le hsize
    | succ i => exact (hleast i (by omega)).1

end Search

section Pool

/-- The pool adds a block at its end. -/
theorem MemmgrBlocks.addBlock (h : MemmgrBlocks base lo hi free owned mgr) (hle : lo ≤ hi)
    (hpos : 0 < n) : MemmgrBlocks base lo (hi + n * sizeofMemHeader) free (insert hi owned)
      (mgr.setSize hi n) := by
  have hlt : ∀ a, a ∈ free ∨ a ∈ owned → a < hi := by
    intro a ha
    have hapos := h.pos a ha
    have hwithin := (h.within a ha).2
    rw [Memmgr.blockEnd_eq] at hwithin
    unfold sizeofMemHeader at hwithin
    omega
  have hroom := h.room
  have hbase : base < hi := by
    unfold sizeofMemHeader at hroom
    omega
  have hold : ∀ a, a ≠ hi → a ∈ free ∨ a ∈ insert hi owned → a ∈ free ∨ a ∈ owned :=
    fun a hne ha => ha.imp_right fun hmem => hmem.resolve_left hne
  have hend : ∀ a, a ≠ hi → (mgr.setSize hi n).blockEnd a = mgr.blockEnd a := by
    intro a hne
    simp [Memmgr.blockEnd_eq, hne]
  refine ⟨by simpa using h.visits, h.sorted, ?_, hroom, ?_, fun a ha => ?_, fun a ha => ?_,
    fun a c ha hc hac => ?_⟩
  · simpa [Nat.ne_of_lt hbase] using h.empty
  · rintro a ha (rfl | hmem)
    · exact absurd (hlt a (Or.inl ha)) (Nat.lt_irrefl a)
    · exact h.fresh a ha hmem
  · by_cases heq : a = hi
    · simp [heq, hpos]
    · simpa [heq] using h.pos a (hold a heq ha)
  · by_cases heq : a = hi
    · subst heq
      exact ⟨hle, by simp [Memmgr.blockEnd_eq]⟩
    · obtain ⟨hlo, hhi⟩ := h.within a (hold a heq ha)
      rw [hend a heq]
      exact ⟨hlo, by omega⟩
  · have hne : a ≠ hi := by
      rintro rfl
      by_cases heq : c = a
      · omega
      · exact absurd (hlt c (hold c heq hc)) (by omega)
    rw [hend a hne]
    by_cases heq : c = hi
    · rw [heq]
      exact (h.within a (hold a hne ha)).2
    · exact h.apart a c (hold a hne ha) (hold c heq hc) hac

/-- The control header and the list: the blocks lie between the control header and the end of
what the pool has given, which is in the buffer. -/
structure MemmgrList (buff : Buff) (free : List ℕ) (owned : Set ℕ) (mgr : Memmgr) : Prop where
  blocks : MemmgrBlocks buff.start (buff.start + sizeofBuffHeader)
    (buff.start + sizeofBuffHeader + mgr.poolFreePos) free owned mgr
  freep : mgr.freep ∈ buff.start :: free
  pool : mgr.pool = buff.start + sizeofBuffHeader
  fits : sizeofBuffHeader + mgr.poolFreePos ≤ buff.size

namespace MemmgrList

theorem freep_ne (h : MemmgrList buff free owned mgr) (hstart : 0 < buff.start) :
    mgr.freep ≠ 0 := by
  cases List.mem_cons.mp h.freep with
  | inl heq => rw [heq]; exact Nat.ne_of_gt hstart
  | inr hmem => exact Nat.ne_of_gt (lt_trans hstart (h.blocks.base_lt (Or.inl hmem)))

theorem length_lt (h : MemmgrList buff free owned mgr) :
    free.length + 1 < memmgrRounds buff.size := by
  have hlength := h.blocks.length_le (Nat.le_add_right _ _)
  have hfits := h.fits
  unfold memmgrRounds sizeofMemHeader sizeofBuffHeader at *
  omega

/-- The pool refuses, or it adds a block that is large enough and lies in the buffer. -/
theorem getMemFromPool (h : MemmgrList buff free owned mgr) (hstart : 0 < buff.start)
    (hword : buff.size < 2 ^ 64) (hreq : poolRequest nquantas < 2 ^ 64)
    (hroom : Word.wrap 64 (mgr.poolFreePos + poolRequest nquantas) ≤ buff.size →
      sizeofBuffHeader + (mgr.poolFreePos + poolRequest nquantas) ≤ buff.size) :
    getMemFromPool buff.size nquantas mgr = some (0, mgr) ∨
    ∃ mgr' free', getMemFromPool buff.size nquantas mgr = some (mgr'.freep, mgr') ∧
      mgr'.freep ≠ 0 ∧ MemmgrList buff free' owned mgr' ∧ (∃ c ∈ free', nquantas ≤ mgr'.size c) ∧
      ∀ a ∈ owned, mgr'.size a = mgr.size a := by
  set quantas := max nquantas minPoolAllocQuantas with hquantas
  have hmax : (if nquantas < minPoolAllocQuantas then minPoolAllocQuantas else nquantas) =
      quantas := by
    rw [hquantas, max_def]
    split <;> split <;> omega
  have htotal : Word.wrap 64 (quantas * sizeofMemHeader) = poolRequest nquantas :=
    Word.wrap_of_lt hreq
  by_cases hfull : Word.wrap 64 (mgr.poolFreePos + poolRequest nquantas) ≤ buff.size
  swap
  · left
    unfold Shalloc.getMemFromPool
    simp only [hmax, htotal]
    exact if_neg hfull
  right
  have hfits := hroom hfull
  have hnew : mgr.pool + mgr.poolFreePos = buff.start + sizeofBuffHeader + mgr.poolFreePos := by
    rw [h.pool]
  have hmin : minPoolAllocQuantas ≤ quantas := le_max_right _ _
  have hpos : 0 < quantas := lt_of_lt_of_le (by decide) hmin
  have hadd := h.blocks.addBlock (Nat.le_add_right _ _) hpos
  rw [← hnew] at hadd
  have hnotowned : mgr.pool + mgr.poolFreePos ∉ owned := by
    intro hmem
    have hapos := h.blocks.pos _ (Or.inr hmem)
    have hwithin := (h.blocks.within _ (Or.inr hmem)).2
    rw [Memmgr.blockEnd_eq] at hwithin
    unfold sizeofMemHeader at hwithin
    omega
  have hnewend : mgr.pool + mgr.poolFreePos + quantas * sizeofMemHeader =
      buff.start + sizeofBuffHeader + (mgr.poolFreePos + poolRequest nquantas) := by
    rw [hnew, poolRequest, Nat.add_assoc]
  rw [hnewend] at hadd
  have hfit : buff.start + sizeofBuffHeader + (mgr.poolFreePos + poolRequest nquantas) -
      (buff.start + sizeofBuffHeader) ≤ buff.size := by omega
  obtain ⟨mgr', free', hfree, hblocks, hfreep, hpool, hpos', hsizes, c, hc, hsizec⟩ :=
    hadd.freed (Set.mem_insert _ _) h.freep (Nat.le_add_right _ _) hfit hword
  have howned : insert (mgr.pool + mgr.poolFreePos) owned \ {mgr.pool + mgr.poolFreePos} = owned :=
    Set.insert_sdiff_self_of_notMem hnotowned
  rw [howned] at hblocks hsizes
  have hwrap : Word.wrap 64 (mgr'.poolFreePos + poolRequest nquantas) =
      mgr.poolFreePos + poolRequest nquantas := by
    have hsame : mgr'.poolFreePos = mgr.poolFreePos := hpos'
    rw [hsame]
    exact Word.wrap_of_lt (by omega)
  have hlist : MemmgrList buff free' owned
      { mgr' with poolFreePos := mgr.poolFreePos + poolRequest nquantas } :=
    ⟨hblocks.congr (fun _ _ => rfl) fun _ _ => rfl, hfreep, hpool.trans h.pool, hfits⟩
  refine ⟨_, free', ?_, hlist.freep_ne hstart, hlist, ⟨c, hc, ?_⟩, fun a ha => ?_⟩
  · unfold Shalloc.getMemFromPool
    simp only [hmax, htotal]
    refine (if_pos hfull).trans ?_
    simp only [hfree, bind, Option.bind_some, hwrap]
  · have hself : (mgr.setSize (mgr.pool + mgr.poolFreePos) quantas).size
        (mgr.pool + mgr.poolFreePos) = quantas := by simp
    exact le_trans (le_max_left _ _) (hself ▸ hsizec)
  · refine (hsizes a ha).trans ?_
    have hne : a ≠ mgr.pool + mgr.poolFreePos := fun heq => hnotowned (heq ▸ ha)
    simp [hne]

/-- The search takes a block that is large enough. -/
theorem take (h : MemmgrList buff free owned mgr) {q : ℕ} (hq : q ∈ buff.start :: free)
    (hpos : 0 < nquantas) (hsize : nquantas ≤ mgr.size (mgr.next q)) :
    ∃ c mgr' free', memmgrTake nquantas q (mgr.next q) mgr = (c, mgr') ∧ c ∉ owned ∧
      MemmgrList buff free' (insert c owned) mgr' ∧ mgr'.size c = nquantas ∧
      ∀ a ∈ owned, mgr'.size a = mgr.size a := by
  obtain ⟨c, mgr', free', htake, hfresh, hblocks, hsizec, hfreep, hmem, hpool, hfreepos, hsizes⟩ :=
    h.blocks.take hq rfl hpos hsize
  refine ⟨c, mgr', free', htake, hfresh, ⟨?_, ?_, hpool.trans h.pool, ?_⟩, hsizec, hsizes⟩
  · rw [hfreepos]
    exact hblocks
  · rw [hfreep]
    exact hmem
  · rw [hfreepos]
    exact h.fits

/-- **The search of `memmgr_alloc`** ends: it fails, or it takes a block off the list or from
the pool. -/
theorem alloc (h : MemmgrList buff free owned mgr) (hstart : 0 < buff.start)
    (hword : buff.size < 2 ^ 64) (hpos : 0 < nquantas) (hreq : poolRequest nquantas < 2 ^ 64)
    (hroom : ListRefuses nquantas mgr →
      Word.wrap 64 (mgr.poolFreePos + poolRequest nquantas) ≤ buff.size →
        sizeofBuffHeader + (mgr.poolFreePos + poolRequest nquantas) ≤ buff.size) :
    memmgrAllocLoop buff.size nquantas (2 * memmgrRounds buff.size) mgr.freep
        (mgr.next mgr.freep) mgr = some (none, mgr) ∨
    ∃ c mgr' free', memmgrAllocLoop buff.size nquantas (2 * memmgrRounds buff.size) mgr.freep
        (mgr.next mgr.freep) mgr = some (some (c + sizeofMemHeader), mgr') ∧ c ∉ owned ∧
      MemmgrList buff free' (insert c owned) mgr' ∧ mgr'.size c = nquantas ∧
      ∀ a ∈ owned, mgr'.size a = mgr.size a := by
  have hlength := h.length_lt
  have hrounds : free.length < 2 * memmgrRounds buff.size := by omega
  rcases h.blocks.search h.freep hrounds with
    ⟨q, hq, hsize, hloop⟩ | ⟨hrefuses, fuel, hfuel, hloop⟩
  · obtain ⟨c, mgr', free', htake, hrest⟩ := h.take hq hpos hsize
    rw [htake] at hloop
    exact Or.inr ⟨c, mgr', free', hloop, hrest⟩
  rw [hloop]
  rcases h.getMemFromPool hstart hword hreq (hroom hrefuses) with hfull |
    ⟨mgr1, free1, hget, hne, h1, ⟨c, hc, hsizec⟩, hsizes1⟩
  · left
    simp only [allocFromPool, hfull, Option.bind_some, if_true]
  -- the new block is found in the second round
  have hgo : allocFromPool buff.size nquantas fuel mgr =
      memmgrAllocLoop buff.size nquantas fuel mgr1.freep (mgr1.next mgr1.freep) mgr1 := by
    simp only [allocFromPool, hget, Option.bind_some, if_neg hne]
  have hrounds1 : free1.length < fuel := by
    have hlength1 := h1.length_lt
    omega
  rw [hgo]
  rcases h1.blocks.search h1.freep hrounds1 with ⟨q, hq, hsize, hloop1⟩ | ⟨hrefuses1, -⟩
  · obtain ⟨d, mgr', free', htake, hfresh, h', hsized, hsizes⟩ := h1.take hq hpos hsize
    rw [htake] at hloop1
    exact Or.inr ⟨d, mgr', free', hloop1, hfresh, h', hsized,
      fun a ha => (hsizes a ha).trans (hsizes1 a ha)⟩
  · obtain ⟨k, -, hk⟩ := h1.blocks.visits.exists_iterate h1.freep (List.mem_cons_of_mem _ hc)
    have hsmall := hrefuses1 k
    rw [hk] at hsmall
    exact absurd hsizec (Nat.not_le_of_lt hsmall)

end MemmgrList

end Pool

section Runs

theorem memmgrQuantas_bounds (hn : n < 2 ^ 48) : 0 < memmgrQuantas n ∧
    n + sizeofMemHeader ≤ memmgrQuantas n * sizeofMemHeader ∧
    poolRequest (memmgrQuantas n) < 2 ^ 64 := by
  have hwrap : Word.wrap 64 (n + sizeofMemHeader - 1) = n + 15 :=
    Word.wrap_of_lt (by unfold sizeofMemHeader; omega)
  have hquantas : memmgrQuantas n = (n + 15) / 16 + 1 := by
    rw [memmgrQuantas, hwrap]
    rfl
  rw [poolRequest, hquantas]
  unfold sizeofMemHeader minPoolAllocQuantas
  refine ⟨Nat.succ_pos _, by omega, ?_⟩
  rcases le_total ((n + 15) / 16 + 1) 8 with hle | hle
  · rw [max_eq_right hle]
    decide
  · rw [max_eq_left hle]
    omega

/-- The blocks in use begin with a header. -/
def blocksInUse (live : List Extent) : Set ℕ :=
  { a | ∃ e ∈ live, e.ptr = a + sizeofMemHeader }

/-- The state of a buffer: the list as the first call makes it or a later one leaves it. -/
structure MemmgrServes (buff : Buff) (free : List ℕ) (live : List Extent) (mgr : Memmgr) :
    Prop where
  list : MemmgrList buff free (blocksInUse live) (memmgrStart buff.start mgr)
  sizes : ∀ e ∈ live, ∃ a, e.ptr = a + sizeofMemHeader ∧
    e.len + sizeofMemHeader ≤ (memmgrStart buff.start mgr).size a * sizeofMemHeader
  started : mgr.freep = 0 → live = []

namespace MemmgrServes

theorem start_eq (hmgr : mgr.freep ≠ 0) : memmgrStart buff.start mgr = mgr := if_neg hmgr

/-- The blocks in use lie behind the control header, in the buffer. -/
theorem inBuffer (h : MemmgrServes buff free live mgr) {e : Extent} (he : e ∈ live) :
    buff.start + sizeofBuffHeader ≤ e.ptr ∧ e.ptr + e.len ≤ buff.start + buff.size := by
  obtain ⟨a, hptr, hsize⟩ := h.sizes e he
  obtain ⟨hlo, hhi⟩ := h.list.blocks.within a (Or.inr ⟨e, he, hptr⟩)
  have hfits := h.list.fits
  rw [Memmgr.blockEnd_eq] at hhi
  omega

/-- After `_simple_create`. -/
theorem create (hsize : 1024 ≤ buff.size) (raw : Memmgr) :
    MemmgrServes buff [] [] (memmgrInit buff.start raw) := by
  have hstarted : memmgrStart buff.start (memmgrInit buff.start raw) =
      { (memmgrInit buff.start raw).setHeader buff.start ⟨buff.start, 0⟩ with
        freep := buff.start } := if_pos rfl
  refine ⟨?_, fun e he => absurd he List.not_mem_nil, fun _ => rfl⟩
  rw [hstarted]
  have howned : ∀ a, ¬ (a ∈ ([] : List ℕ) ∨ a ∈ blocksInUse []) := by
    rintro a (ha | ⟨e, he, -⟩)
    · exact List.not_mem_nil ha
    · exact List.not_mem_nil he
  refine ⟨⟨visits_nil ?_, by simp, ?_, ?_, ?_, ?_, ?_, ?_⟩, List.mem_cons_self, rfl, ?_⟩
  · simp [Memmgr.next, Memmgr.setHeader]
  · simp [Memmgr.size, Memmgr.setHeader]
  · exact Nat.add_le_add_left (by decide) _
  · exact fun a ha => absurd (Or.inl ha) (howned a)
  · exact fun a ha => absurd ha (howned a)
  · exact fun a ha => absurd ha (howned a)
  · exact fun a _ ha => absurd ha (howned a)
  · have hheader : sizeofBuffHeader + 0 ≤ 1024 := by decide
    exact le_trans hheader hsize

/-- What `_simple_malloc` returns, unless the pool adds a block that reaches past the buffer. -/
theorem malloc (h : MemmgrServes buff free live mgr) (hstart : 0 < buff.start)
    (hword : buff.size < 2 ^ 64) (hn : n < 2 ^ 48) (hroom : ¬ PoolOverruns buff n mgr) :
    ∃ p mgr' free', simpleOp.malloc buff n mgr = some (p, mgr') ∧
      MemmgrServes buff free' (p.elim live fun q => ⟨q, n⟩ :: live) mgr' := by
  obtain ⟨hpos, hquantas, hreq⟩ := memmgrQuantas_bounds hn
  have hpos0 : (memmgrStart buff.start mgr).poolFreePos = mgr.poolFreePos := by
    unfold memmgrStart
    split <;> rfl
  rcases h.list.alloc hstart hword hpos hreq fun hrefuses hfull => Nat.le_of_not_lt fun hover =>
      hroom ⟨hrefuses, hpos0 ▸ hfull, hpos0 ▸ hover⟩ with
    hloop | ⟨c, mgr', free', hloop, hfresh, hlist, hsizec, hsizes⟩
  · refine ⟨none, _, free, hloop, ?_, ?_, fun hzero => absurd hzero (h.list.freep_ne hstart)⟩
    · rw [start_eq (h.list.freep_ne hstart)]
      exact h.list
    · rw [start_eq (h.list.freep_ne hstart)]
      exact h.sizes
  · have howned : blocksInUse (⟨c + sizeofMemHeader, n⟩ :: live) =
        insert c (blocksInUse live) := by
      ext a
      simp only [blocksInUse, Set.mem_ofPred_eq, List.exists_mem_cons_iff, Set.mem_insert_iff,
        Nat.add_right_cancel_iff, eq_comm]
    refine ⟨some (c + sizeofMemHeader), mgr', free', hloop, ?_, ?_,
      fun hzero => absurd hzero (hlist.freep_ne hstart)⟩
    · rw [start_eq (hlist.freep_ne hstart)]
      exact howned ▸ hlist
    · rw [start_eq (hlist.freep_ne hstart)]
      intro e he
      cases List.mem_cons.mp he with
      | inl heq =>
        subst heq
        exact ⟨c, rfl, by rw [hsizec]; exact hquantas⟩
      | inr he =>
        obtain ⟨a, hptr, hsize⟩ := h.sizes e he
        exact ⟨a, hptr, by rw [hsizes a ⟨e, he, hptr⟩]; exact hsize⟩

/-- `_simple_free` of a block in use returns. -/
theorem freed (h : MemmgrServes buff free live mgr) (hstart : 0 < buff.start)
    (hword : buff.size < 2 ^ 64) {e : Extent} (he : e ∈ live) : ∃ mgr' free',
      simpleOp.free buff e.ptr mgr = some mgr' ∧
      MemmgrServes buff free' (releaseBlock e.ptr live) mgr' := by
  have hmgr : mgr.freep ≠ 0 := fun hzero => absurd (h.started hzero ▸ he) List.not_mem_nil
  obtain ⟨a, hptr, -⟩ := h.sizes e he
  have hlist := h.list
  have hsizes := h.sizes
  rw [start_eq hmgr] at hlist hsizes
  have hfits := hlist.fits
  obtain ⟨mgr', free', hfree, hblocks, hfreep, hpool, hfreepos, hsame, -⟩ :=
    hlist.blocks.freed ⟨e, he, hptr⟩ hlist.freep (Nat.le_add_right _ _) (by omega) hword
  have howned : blocksInUse (releaseBlock e.ptr live) = blocksInUse live \ {a} := by
    ext c
    simp only [blocksInUse, Set.mem_ofPred_eq, mem_releaseBlock, Set.mem_sdiff,
      Set.mem_singleton_iff]
    constructor
    · rintro ⟨d, ⟨hd, hne⟩, hc⟩
      exact ⟨⟨d, hd, hc⟩, fun heq => hne (by rw [hc, hptr, heq])⟩
    · rintro ⟨⟨d, hd, hc⟩, hne⟩
      exact ⟨d, ⟨hd, fun heq => hne (by omega)⟩, hc⟩
  have hlist' : MemmgrList buff free' (blocksInUse (releaseBlock e.ptr live)) mgr' := by
    refine ⟨?_, hfreep, hpool.trans hlist.pool, ?_⟩
    · rw [hfreepos, howned]
      exact hblocks
    · rw [hfreepos]
      exact hlist.fits
  have hmgr' := hlist'.freep_ne hstart
  refine ⟨mgr', free', ?_, ?_, ?_, fun hzero => absurd hzero hmgr'⟩
  · rw [hptr]
    exact hfree
  · rw [start_eq hmgr']
    exact hlist'
  · rw [start_eq hmgr']
    intro d hd
    obtain ⟨hd, hne⟩ := mem_releaseBlock.mp hd
    obtain ⟨c, hc, hsize⟩ := hsizes d hd
    have hca : c ∈ blocksInUse live \ {a} := by
      rw [← howned]
      exact ⟨d, mem_releaseBlock.mpr ⟨hd, hne⟩, hc⟩
    exact ⟨c, hc, by rw [hsame c hca]; exact hsize⟩

/-- Writes to the blocks in use change no header. -/
theorem write (h : MemmgrServes buff free live mgr) {headers : ℕ → MemHeader}
    (hsame : ∀ a, (∀ e ∈ live, Extent.Disjoint ⟨a, sizeofMemHeader⟩ e) →
      headers a = mgr.headers a) :
    MemmgrServes buff free live { mgr with headers := headers } := by
  by_cases hmgr : mgr.freep = 0
  · -- nothing is in use
    have hlive := h.started hmgr
    have heq : headers = mgr.headers := by
      funext a
      exact hsame a fun e he => absurd (hlive ▸ he) List.not_mem_nil
    rw [heq]
    exact h
  have hlist := h.list
  have hsizes := h.sizes
  rw [start_eq hmgr] at hlist hsizes
  have hstart' : memmgrStart buff.start { mgr with headers := headers } =
      { mgr with headers := headers } := if_neg hmgr
  have happly : ∀ a, a ∈ buff.start :: free ∨ a ∈ blocksInUse live →
      headers a = mgr.headers a := by
    refine fun a ha => hsame a fun e he => ?_
    obtain ⟨c, hptr, hsize⟩ := hsizes e he
    have hapart := hlist.blocks.header_apart ha ⟨e, he, hptr⟩
    rw [Memmgr.blockEnd_eq] at hapart
    simp only [Extent.Disjoint]
    omega
  have hlist' : MemmgrList buff free (blocksInUse live) { mgr with headers := headers } :=
    ⟨hlist.blocks.congr (fun a ha => happly a (Or.inl ha))
      (fun a ha => congrArg MemHeader.size (happly a (Or.inr ha))), hlist.freep, hlist.pool,
      hlist.fits⟩
  refine ⟨?_, ?_, h.started⟩
  · rw [hstart']
    exact hlist'
  · rw [hstart']
    intro e he
    obtain ⟨a, hptr, hsize⟩ := hsizes e he
    have hsame' : { mgr with headers := headers }.size a = mgr.size a :=
      congrArg MemHeader.size (happly a (Or.inr ⟨e, he, hptr⟩))
    exact ⟨a, hptr, by rw [hsame']; exact hsize⟩

end MemmgrServes

/-- A run in which no block is added that reaches past the buffer. -/
theorem SimpleRun.serves (hstart : 0 < buff.start) (hsize : 1024 ≤ buff.size)
    (hword : buff.size < 2 ^ 64)
    (h : SimpleRun (fun n mgr => ¬ PoolOverruns buff n mgr) buff mgr live) :
    ∃ free, MemmgrServes buff free live mgr := by
  induction h with
  | @create raw mgr ret hcreate =>
    obtain ⟨-, rfl⟩ := Prod.mk.inj (Option.some.inj hcreate)
    exact ⟨[], MemmgrServes.create hsize raw⟩
  | malloc _ hn hroom hmalloc ih =>
    obtain ⟨free, h⟩ := ih
    obtain ⟨p, mgr', free', hmalloc', h'⟩ := h.malloc hstart hword hn hroom
    obtain ⟨rfl, rfl⟩ := Prod.mk.inj (Option.some.inj (hmalloc.symm.trans hmalloc'))
    exact ⟨free', h'⟩
  | free _ he hfree ih =>
    obtain ⟨free, h⟩ := ih
    obtain ⟨mgr', free', hfree', h'⟩ := h.freed hstart hword he
    obtain rfl := Option.some.inj (hfree.symm.trans hfree')
    exact ⟨free', h'⟩
  | write _ hsame ih =>
    obtain ⟨free, h⟩ := ih
    exact ⟨free, h.write hsame⟩

/-- **The bounds of the simple allocator.** In every run in which the pool adds no block that
reaches past the buffer, each call returns, and what `_simple_malloc` returns lies behind the
control header and in the buffer. -/
theorem simple_inBuffer (hstart : 0 < buff.start) (hsize : 1024 ≤ buff.size)
    (hword : buff.size < 2 ^ 64)
    (hrun : SimpleRun (fun n mgr => ¬ PoolOverruns buff n mgr) buff mgr live) :
    (∀ n, n < 2 ^ 48 → ¬ PoolOverruns buff n mgr →
      ∃ p mgr', simpleOp.malloc buff n mgr = some (p, mgr') ∧ ∀ q ∈ p,
        buff.start + sizeofBuffHeader ≤ q ∧ q + n ≤ buff.start + buff.size) ∧
    ∀ e ∈ live, (buff.start + sizeofBuffHeader ≤ e.ptr ∧
        e.ptr + e.len ≤ buff.start + buff.size) ∧
      ∃ mgr', simpleOp.free buff e.ptr mgr = some mgr' := by
  obtain ⟨free, h⟩ := hrun.serves hstart hsize hword
  refine ⟨fun n hn hroom => ?_, fun e he => ⟨h.inBuffer he, ?_⟩⟩
  · obtain ⟨p, mgr', free', hmalloc, h'⟩ := h.malloc hstart hword hn hroom
    refine ⟨p, mgr', hmalloc, fun q hq => ?_⟩
    obtain rfl : p = some q := hq
    exact h'.inBuffer (e := ⟨q, n⟩) List.mem_cons_self
  · obtain ⟨mgr', free', hfree, -⟩ := h.freed hstart hword he
    exact ⟨mgr', hfree⟩

/-- A buffer of the least size. -/
def smallSimpleBuff : Buff := ⟨8192, 9215, 1024, 0, 0, none, .simple⟩

/-- The memory of the buffer before `memmgr_init`. -/
def zeroMemmgr : Memmgr := ⟨0, 0, 0, fun _ => ⟨0, 0⟩⟩

/-- The run that has only made the buffer. -/
theorem smallSimpleBuff_run (allowed : ℕ → Memmgr → Prop) :
    SimpleRun allowed smallSimpleBuff (memmgrInit 8192 zeroMemmgr) [] :=
  SimpleRun.create (show simpleOp.create smallSimpleBuff zeroMemmgr =
    some (0, memmgrInit 8192 zeroMemmgr) from rfl)

/-- A small request, of a pool that is half empty, does not overrun it. -/
theorem not_poolOverruns_small {mgr : Memmgr} {n : ℕ} (hpos : mgr.poolFreePos ≤ 256)
    (hn : poolRequest (memmgrQuantas n) ≤ 256) : ¬ PoolOverruns smallSimpleBuff n mgr := by
  rintro ⟨-, -, hover⟩
  have hsize : smallSimpleBuff.size = 1024 := rfl
  have hheader : sizeofBuffHeader = 40 := rfl
  omega

/-- Two blocks are handed out, and the first is freed. The second and a block of 200 bytes lie in
the buffer. -/
theorem simple_inBuffer_small : ∃ mgr1 mgr2 mgr3 mgr4 p,
    simpleOp.malloc smallSimpleBuff 100 (memmgrInit 8192 zeroMemmgr) = some (some 8248, mgr1) ∧
    simpleOp.malloc smallSimpleBuff 40 mgr1 = some (some 8440, mgr2) ∧
    simpleOp.free smallSimpleBuff 8248 mgr2 = some mgr3 ∧
    simpleOp.malloc smallSimpleBuff 200 mgr3 = some (p, mgr4) ∧
    (∀ q ∈ p, 8192 + 40 ≤ q ∧ q + 200 ≤ 8192 + 1024) ∧
    8192 + 40 ≤ 8440 ∧ 8440 + 40 ≤ 8192 + 1024 ∧
    ∃ mgr', simpleOp.free smallSimpleBuff 8440 mgr3 = some mgr' := by
  have hcalls : (do
      let (p, mgr1) ← simpleOp.malloc smallSimpleBuff 100 (memmgrInit 8192 zeroMemmgr)
      let (q, mgr2) ← simpleOp.malloc smallSimpleBuff 40 mgr1
      let mgr3 ← simpleOp.free smallSimpleBuff 8248 mgr2
      some ((p, q), mgr1.poolFreePos, mgr3.poolFreePos)) =
      some ((some 8248, some 8440), 128, 256) := by decide +kernel
  simp only [bind, Option.bind_eq_some_iff, Prod.exists, Option.some.injEq,
    Prod.mk.injEq] at hcalls
  obtain ⟨_, mgr1, hmalloc1, _, mgr2, hmalloc2, mgr3, hfree, ⟨rfl, rfl⟩, hpos1, hpos3⟩ := hcalls
  have hroom1 : ¬ PoolOverruns smallSimpleBuff 100 (memmgrInit 8192 zeroMemmgr) :=
    not_poolOverruns_small (by decide) (by decide)
  have hroom2 : ¬ PoolOverruns smallSimpleBuff 40 mgr1 :=
    not_poolOverruns_small (by omega) (by decide)
  have run := (((smallSimpleBuff_run fun n mgr => ¬ PoolOverruns smallSimpleBuff n mgr).malloc
    (by decide) hroom1 hmalloc1).malloc (by decide) hroom2 hmalloc2).free (e := ⟨8248, 100⟩)
      (by decide) hfree
  obtain ⟨hserves, hlive⟩ := simple_inBuffer (by decide) (by decide) (by decide) run
  obtain ⟨p, mgr4, hmalloc3, hin⟩ := hserves 200 (by decide)
    (not_poolOverruns_small hpos3.le (by decide))
  obtain ⟨⟨hlo, hhi⟩, hfrees⟩ := hlive ⟨8440, 40⟩ (by decide)
  exact ⟨mgr1, mgr2, mgr3, mgr4, p, hmalloc1, hmalloc2, hfree, hmalloc3, hin, hlo, hhi, hfrees⟩

/-- The first request for all but 16 bytes of the buffer is given a block that ends 40 bytes past
the buffer. -/
theorem not_simple_inBuffer : ¬ ∀ (buff : Buff) (mgr mgr' : Memmgr) (live : List Extent) (n q : ℕ),
    0 < buff.start → 1024 ≤ buff.size → buff.size < 2 ^ 64 →
    SimpleRun (fun _ _ => True) buff mgr live → n < 2 ^ 48 →
    simpleOp.malloc buff n mgr = some (some q, mgr') →
      buff.start + sizeofBuffHeader ≤ q ∧ q + n ≤ buff.start + buff.size := by
  intro h
  have hmalloc : (simpleOp.malloc smallSimpleBuff 1008 (memmgrInit 8192 zeroMemmgr)).map Prod.fst =
      some (some 8248) := by decide +kernel
  obtain ⟨⟨p, mgr'⟩, hmalloc, rfl⟩ := Option.map_eq_some_iff.mp hmalloc
  have hin := h _ _ _ _ _ _ (by decide) (by decide) (by decide) (smallSimpleBuff_run _)
    (by decide) hmalloc
  exact absurd hin.2 (by decide)

end Runs

end Shalloc
