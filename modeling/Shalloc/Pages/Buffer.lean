import Shalloc.Pages.Run
import Shalloc.Runs.MpliteHeap
import Shalloc.Runs.Users

/-!
# Buffers with pages

A buffer of 1 MiB or more that `alloc.c` manages has pages. As long as no request is huge it is a
run on its pool: the blocks that are handed out are the first parts of elements of pages, and
users who write to their own blocks do not break the pool.

## Main definitions

- `pageOp`, `bucketOp` — the calls on a buffer with pages, and those that are not huge
- `PageRep` — a buffer with pages, as a run on its pool

## Main results

- `bucketOp_issuesInside` — blocks lie inside the buffer
- `pageRep_withstands` — users do not break the pool
-/

namespace Shalloc

open Pages

/-- The blocks of a pool that begins at `start`. -/
def atStart (start : ℕ) (offs : List Extent) : List Extent :=
  offs.map fun e => ⟨start + e.ptr, e.len⟩

/-- The places of blocks in the pool that begins at `start`. -/
def inPool (start : ℕ) (live : List Extent) : List Extent :=
  live.map fun e => ⟨e.ptr - start, e.len⟩

/-- `_buffer_create`, `_buffer_malloc` and `_buffer_free`, of a buffer with pages. Blocks are
aligned to `sizeof(long)`. -/
def pageOp : BuffOp Pool where
  create buff head := (allocInit buff.size head).map fun head => (0, head)
  destroy _ head := some head
  malloc buff size head := (allocGet buff.size size 8 head).map fun c =>
    (c.1.map (buff.start + ·), c.2)
  free buff ptr head := allocFree buff.size (ptr - buff.start) head

/-- The same for pools that have pages, and for requests that pages have a bucket for. A run ends
where a huge request would be made. -/
def bucketOp : BuffOp Pool where
  create buff head := if minUsefulSize ≤ buff.size then pageOp.create buff head else none
  destroy := pageOp.destroy
  malloc buff size head :=
    if bucketOf size 8 < maxBucket (largePageBits buff.size) then pageOp.malloc buff size head
    else none
  free := pageOp.free

/-- A buffer with pages: its pool is in a state that a run reaches, and its blocks are the first
parts of those in use. -/
structure PageRep (buff : Buff) (live : List Extent) (head : Pool) : Prop where
  useful : minUsefulSize ≤ buff.size
  small : buff.size ≤ 2 ^ 38
  run : ∃ offs, PagesRun buff.size head offs ∧ List.Forall₂ FirstPart live (atStart buff.start offs)

/-- Nothing in the pool changes outside of the blocks. -/
def pageWrites (buff : Buff) (live : List Extent) (head head' : Pool) : Prop :=
  Written buff.size (inPool buff.start live) head head'

variable {buff : Buff} {live offs chunks : List Extent} {head head' : Pool} {start poolsize top : ℕ}
  {e chunk : Extent}

section Parts

theorem releaseBlock_atStart (start p : ℕ) (offs : List Extent) :
    releaseBlock (start + p) (atStart start offs) = atStart start (releaseBlock p offs) := by
  rw [releaseBlock, atStart, List.filter_map, releaseBlock, atStart]
  congr 1
  refine List.filter_congr fun e _ => ?_
  simp

theorem FirstPart.within (h : FirstPart e chunk) : e.Within chunk := by
  have hptr := h.ptr
  have hle := h.le
  exact ⟨by omega, by omega⟩

theorem firstParts_inPool (h : List.Forall₂ FirstPart live (atStart start offs)) :
    List.Forall₂ FirstPart (inPool start live) offs := by
  unfold atStart at h
  rw [inPool, List.forall₂_map_left_iff]
  rw [List.forall₂_map_right_iff] at h
  refine h.imp fun e o hpart => ⟨?_, hpart.le, hpart.pos⟩
  have hptr : e.ptr = start + o.ptr := hpart.ptr
  show e.ptr - start = o.ptr
  omega

/-- A write to parts of blocks is a write to the blocks. -/
theorem Pages.Written.whole (hw : Written poolsize live head head')
    (h : List.Forall₂ FirstPart live chunks) : Written poolsize chunks head head' where
  other := hw.other
  fields := by
    intro q hapart
    refine hw.fields fun e he => ?_
    obtain ⟨chunk, hchunk, hpart⟩ := exists_chunk h he
    exact (hapart chunk hchunk).mono_right hpart.within
  used := by
    intro q j hj hapart
    refine hw.used hj fun e he => ?_
    obtain ⟨chunk, hchunk, hpart⟩ := exists_chunk h he
    exact (hapart chunk hchunk).mono_right hpart.within

end Parts

/-- **Users do not break the pool.** -/
theorem pageRep_withstands : Withstands PageRep pageWrites := by
  rintro buff live head head' ⟨huseful, hsmall, offs, hrun, hparts⟩ hw
  exact ⟨huseful, hsmall, offs, hrun.write (hw.whole (firstParts_inPool hparts)), hparts⟩

/-- A block lies in the buffer. -/
theorem PageRep.inside (h : PageRep buff live head) (he : e ∈ live) :
    Extent.Within e ⟨buff.start, buff.size⟩ ∧ 0 < e.len := by
  obtain ⟨offs, hrun, hparts⟩ := h.run
  obtain ⟨hfit, hok⟩ := hrun.ok h.useful h.small
  obtain ⟨chunk, hchunk, hpart⟩ := exists_chunk hparts he
  obtain ⟨o, ho, rfl⟩ := List.mem_map.mp hchunk
  have hend := (hok.within hfit ho).2
  have hin : Extent.Within ⟨buff.start + o.ptr, o.len⟩ ⟨buff.start, buff.size⟩ :=
    ⟨Nat.le_add_right _ _, by simp only; omega⟩
  exact ⟨hpart.within.trans hin, hpart.pos⟩

/-- What a request returns joins the blocks, as the first part of an element. -/
theorem PageRep.malloc {n : ℕ} {p : Option ℕ} (h : PageRep buff live head) (hpos : 0 < n)
    (hn : n < 2 ^ 48) (hcall : bucketOp.malloc buff n head = some (p, head')) :
    PageRep buff (p.elim live fun q => ⟨q, n⟩ :: live) head' := by
  obtain ⟨offs, hrun, hparts⟩ := h.run
  obtain ⟨hfit, -⟩ := hrun.ok h.useful h.small
  have hn63 : n < 2 ^ 63 := Nat.lt_trans hn (by decide)
  by_cases hb : bucketOf n (2 ^ 3) < maxBucket (largePageBits buff.size)
  · obtain ⟨⟨p', head1⟩, hget, heq⟩ := Option.map_eq_some_iff.mp ((if_pos hb).symm.trans hcall)
    obtain ⟨rfl, rfl⟩ := Prod.mk.inj heq
    have hrun' := hrun.get hn63 (by decide) hb hget
    refine ⟨h.useful, h.small, _, hrun', ?_⟩
    cases p' with
    | none => exact hparts
    | some q =>
      rw [bucketOf_eq hn63 (by decide)] at hb
      have hle := (hfit.request hb (requestSize_pos n 3)).1
      rw [← bucketOf_eq hn63 (by decide)] at hle
      exact hparts.cons ⟨rfl, Nat.le_trans (le_requestSize n 3) hle, hpos⟩
  · exact absurd ((if_neg hb).symm.trans hcall) (by simp)

/-- A block can be taken back. -/
theorem PageRep.free (h : PageRep buff live head) (he : e ∈ live)
    (hcall : bucketOp.free buff e.ptr head = some head') :
    PageRep buff (releaseBlock e.ptr live) head' := by
  obtain ⟨offs, hrun, hparts⟩ := h.run
  obtain ⟨chunk, hchunk, hpart⟩ := exists_chunk hparts he
  obtain ⟨o, ho, rfl⟩ := List.mem_map.mp hchunk
  have hptr : e.ptr = buff.start + o.ptr := hpart.ptr
  have hfree : allocFree buff.size o.ptr head = some head' := by
    rw [← hcall, hptr]
    simp only [bucketOp, pageOp, Nat.add_sub_cancel_left]
  refine ⟨h.useful, h.small, _, hrun.free ho hfree, ?_⟩
  rw [hptr, ← releaseBlock_atStart]
  exact firstParts_release hparts _

/-- **Blocks lie inside the buffer**, as long as no request is huge. -/
theorem bucketOp_issuesInside (htop : top ≤ 2 ^ 38) : IssuesInside bucketOp top PageRep where
  inside h e he := h.inside he
  next link h := ⟨h.useful, h.small, h.run⟩
  created := by
    rintro data head ret head' - hend hcall -
    by_cases huseful : minUsefulSize ≤ data.size
    · obtain ⟨head1, hinit, heq⟩ := Option.map_eq_some_iff.mp ((if_pos huseful).symm.trans hcall)
      obtain ⟨-, rfl⟩ := Prod.mk.inj heq
      exact ⟨huseful, by omega, [], .init hinit, .nil⟩
    · exact absurd ((if_neg huseful).symm.trans hcall) (by simp)
  malloc h hpos hn hcall := h.malloc hpos hn hcall
  free h he hcall := h.free he hcall

end Shalloc
