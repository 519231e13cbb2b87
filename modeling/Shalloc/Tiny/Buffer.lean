import Shalloc.Pages.Buffer
import Shalloc.Region.Tree
import Shalloc.Runs.Create
import Shalloc.Tiny.Run

/-!
# Buffers of the default type

`interface/buffer.c` hands a buffer to `alloc.c`, which serves the small ones with the allocator
of small pools. Such a buffer is a run on its pool whose blocks in use are the blocks of the
buffer, so that the results on runs hold of the buffers of a region, and of a heap under a tree of
regions, whatever is written to the blocks. The allocator for buffers with pages is a parameter,
which the one of `alloc.c` meets as long as no request is huge.

## Main definitions

- `bufferOp` — the entry of the table of buffer operations
- `BufferWrites` — what users may write
- `TinyRep` — a small buffer, as a run on its pool

## Main results

- `tiny_soundOp` — small buffers are sound
- `bufferRegion_pools` — the pools of a region, in every run
- `bufferRegion_pages` — those with pages
- `bufferHeap_tree` — a tree of regions over a small heap
-/

namespace Shalloc

open Tiny

/-- The memory of a buffer as `alloc.c` uses it: the bytes of a small pool, or the pages. -/
structure BufferState (σ : Type) where
  bytes : Pool
  pages : σ

variable {σ : Type}

/-- The calls of an allocator on the pages. -/
def pagesOp (pages : BuffOp σ) : BuffOp (BufferState σ) where
  create buff a := (pages.create buff a.pages).map fun b => (b.1, { a with pages := b.2 })
  destroy buff a := (pages.destroy buff a.pages).map fun b => { a with pages := b }
  malloc buff size a := (pages.malloc buff size a.pages).map fun b => (b.1, { a with pages := b.2 })
  free buff ptr a := (pages.free buff ptr a.pages).map fun b => { a with pages := b }

/-- `_buffer_create`, `_buffer_malloc` and `_buffer_free`, with `alloc_init`, `alloc_get` and
`alloc_free`. Blocks are aligned to `sizeof(long)`. A pointer that is freed has passed the address
test of the buffer. -/
def bufferOp (pages : BuffOp σ) : BuffOp (BufferState σ) where
  create buff a :=
    if buff.size < minUsefulSize then
      (tinyAllocInit buff.size a.bytes).map fun bytes => (0, { a with bytes := bytes })
    else (pagesOp pages).create buff a
  destroy _ a := some a
  malloc buff size a :=
    if buff.size < minUsefulSize then
      (tinyAllocGet buff.size size 8 a.bytes).map fun b =>
        (b.1.map (buff.start + ·), { a with bytes := b.2 })
    else (pagesOp pages).malloc buff size a
  free buff ptr a :=
    if buff.size < minUsefulSize then
      (tinyAllocFree buff.size (ptr - buff.start) a.bytes).map fun bytes =>
        { a with bytes := bytes }
    else (pagesOp pages).free buff ptr a

/-- Nothing in the buffer changes outside of the blocks. -/
structure BufferWrites (writes : Buff → List Extent → σ → σ → Prop) (buff : Buff)
    (live : List Extent) (a a' : BufferState σ) : Prop where
  bytes : ∀ x, (∀ e ∈ live, buff.start + x < e.ptr ∨ e.ptr + e.len ≤ buff.start + x) →
    a'.bytes x = a.bytes x
  pages : writes buff live a.pages a'.pages

/-- A small buffer: its pool is in a state that a run reaches with the blocks of the buffer in
use. -/
structure TinyRep (buff : Buff) (blocks : List Extent) (a : BufferState σ) : Prop where
  small : buff.size < minUsefulSize
  run : ∃ offs, TinyRun buff.size a.bytes offs ∧ blocks = atStart buff.start offs

variable {pages : BuffOp σ} {buff : Buff} {blocks : List Extent} {n : ℕ} {e : Extent}
  {a a' : BufferState σ} {writes : Buff → List Extent → σ → σ → Prop}

section Pool

theorem minUsefulSize_lt : minUsefulSize < 2 ^ 24 := by decide

theorem askedSize_of_pos (h : 0 < n) : askedSize n = n := if_neg (Nat.ne_of_gt h)

namespace TinyRep

theorem size_lt (h : TinyRep buff blocks a) : buff.size < 2 ^ 24 :=
  Nat.lt_trans h.small minUsefulSize_lt

theorem next (h : TinyRep buff blocks a) (link : Option ℕ) :
    TinyRep { buff with next := link } blocks a := ⟨h.small, h.run⟩

/-- The blocks lie in the buffer behind its first byte. -/
theorem within (h : TinyRep buff blocks a) (he : e ∈ blocks) :
    buff.start + 1 ≤ e.ptr ∧ e.ptr + e.len ≤ buff.start + buff.size ∧ 0 < e.len := by
  have hsize := h.size_lt
  obtain ⟨offs, hrun, rfl⟩ := h.run
  obtain ⟨o, ho, rfl⟩ := List.mem_map.mp he
  obtain ⟨h1, h2, hpos⟩ := (hrun.ok hsize).within ho
  exact ⟨by simp only; omega, by simp only; omega, hpos⟩

theorem apart (h : TinyRep buff blocks a) : blocks.Pairwise Extent.Disjoint := by
  have hsize := h.size_lt
  obtain ⟨offs, hrun, rfl⟩ := h.run
  refine List.pairwise_map.mpr ((hrun.ok hsize).apart.imp fun {x y} hxy => ?_)
  rcases hxy with hxy | hxy
  · exact Or.inl (by simp only; omega)
  · exact Or.inr (by simp only; omega)

/-- The buffer is set up with no block in use. -/
theorem create (pages : BuffOp σ) (hsmall : buff.size < minUsefulSize) (a : BufferState σ) :
    ∃ a', (bufferOp pages).create buff a = some (0, a') ∧ TinyRep buff [] a' := by
  obtain ⟨bytes, hinit, -⟩ := TinyOk.init (Nat.lt_trans hsmall minUsefulSize_lt) a.bytes
  refine ⟨{ a with bytes := bytes }, ?_, hsmall, [], .init hinit, rfl⟩
  simp only [bufferOp, if_pos hsmall, hinit, Option.map_some]

/-- A request returns. What it returns is aligned and joins the blocks. -/
theorem malloc (pages : BuffOp σ) (h : TinyRep buff blocks a) (hpos : 0 < n) (hn : n < 2 ^ 63) :
    ∃ p a', (bufferOp pages).malloc buff n a = some (p, a') ∧
      TinyRep buff (p.elim blocks fun q => ⟨q, n⟩ :: blocks) a' ∧
      ∀ q, p = some q → ∃ off, q = buff.start + off ∧ 8 ∣ off := by
  have hsize := h.size_lt
  obtain ⟨offs, hrun, rfl⟩ := h.run
  obtain ⟨p, bytes, hget, -, halign, -⟩ :=
    (hrun.ok hsize).get hsize hn (by decide : 3 < 64)
  have hrun' := hrun.get hn (by decide) hget
  refine ⟨p.map (buff.start + ·), { a with bytes := bytes }, ?_, ⟨h.small, _, hrun', ?_⟩, ?_⟩
  · have hget8 : tinyAllocGet buff.size n 8 a.bytes = some (p, bytes) := hget
    simp only [bufferOp, if_pos h.small, hget8, Option.map_some]
  · rw [askedSize_of_pos hpos]
    cases p <;> rfl
  · rintro q hq
    obtain ⟨off, rfl, rfl⟩ := Option.map_eq_some_iff.mp hq
    exact ⟨off, rfl, halign off rfl⟩

/-- A block in use can be freed. -/
theorem free (pages : BuffOp σ) (h : TinyRep buff blocks a) (he : e ∈ blocks) :
    ∃ a', (bufferOp pages).free buff e.ptr a = some a' ∧
      TinyRep buff (releaseBlock e.ptr blocks) a' := by
  have hsize := h.size_lt
  obtain ⟨offs, hrun, rfl⟩ := h.run
  obtain ⟨o, ho, rfl⟩ := List.mem_map.mp he
  obtain ⟨bytes, hfree, -⟩ := (hrun.ok hsize).free hsize ho
  refine ⟨{ a with bytes := bytes }, ?_, h.small, _, .free hrun ho hfree,
    releaseBlock_atStart _ _ _⟩
  simp only [bufferOp, if_pos h.small, Nat.add_sub_cancel_left, hfree, Option.map_some]

/-- Users do not break the pool. -/
theorem write (h : TinyRep buff blocks a) (hw : BufferWrites writes buff blocks a a') :
    TinyRep buff blocks a' := by
  obtain ⟨offs, hrun, rfl⟩ := h.run
  refine ⟨h.small, offs, hrun.write fun x hx => hw.bytes x fun e he => ?_, rfl⟩
  obtain ⟨o, ho, rfl⟩ := List.mem_map.mp he
  have hout := hx o ho
  simp only
  omega

end TinyRep

/-- A small buffer at an aligned address, with all blocks aligned. -/
structure TinyAlignedRep (buff : Buff) (blocks : List Extent) (a : BufferState σ) : Prop where
  rep : TinyRep buff blocks a
  aligned : 8 ∣ buff.start
  issued : ∀ e ∈ blocks, 8 ∣ e.ptr

theorem tinyAlignedRep_withstands : Withstands (TinyAlignedRep (σ := σ)) (BufferWrites writes) :=
  fun _ _ _ _ h hw => ⟨h.rep.write hw, h.aligned, h.issued⟩

/-- **Small buffers are sound.** -/
theorem tiny_soundOp (pages : BuffOp σ) :
    SoundOp (bufferOp pages) 1 (2 ^ 63) (TinyAlignedRep (σ := σ)) where
  issued := by
    intro buff blocks a h e he
    obtain ⟨h1, h2, hpos⟩ := h.rep.within he
    exact ⟨⟨h1, by simp only; omega⟩, h.issued e he, hpos⟩
  served := by
    intro buff blocks a n p a' h hpos hn hcall
    obtain ⟨p1, a1, hcall1, hrep, halign⟩ := h.rep.malloc pages hpos hn
    obtain ⟨rfl, rfl⟩ := Prod.mk.inj (Option.some.inj (hcall1.symm.trans hcall))
    refine ⟨⟨hrep, h.aligned, fun e he => ?_⟩, (List.pairwise_cons.mp hrep.apart).1⟩
    rcases List.mem_cons.mp he with rfl | he
    · obtain ⟨off, rfl, hoff⟩ := halign p rfl
      exact Nat.dvd_add h.aligned hoff
    · exact h.issued e he
  refused := by
    intro buff blocks a n a' h hpos hn hcall
    obtain ⟨p1, a1, hcall1, hrep, -⟩ := h.rep.malloc pages hpos hn
    obtain ⟨rfl, rfl⟩ := Prod.mk.inj (Option.some.inj (hcall1.symm.trans hcall))
    exact ⟨hrep, h.aligned, h.issued⟩
  freed := by
    intro buff blocks a e a' h he hcall
    obtain ⟨a1, hcall1, hrep⟩ := h.rep.free pages he
    obtain rfl := Option.some.inj (hcall1.symm.trans hcall)
    exact ⟨hrep, h.aligned, fun e' he' => h.issued e' (mem_releaseBlock.mp he').1⟩

end Pool

section Region

variable {α : Type} {path chain held : List ℕ} {top limit r : ℕ}
  {pagesRep : Buff → List Extent → σ → Prop}

/-- A buffer of the default type: a small one, or one with pages. -/
def BufferRep (pagesRep : Buff → List Extent → σ → Prop) (buff : Buff) (blocks : List Extent)
    (a : BufferState σ) : Prop :=
  TinyRep buff blocks a ∨ (minUsefulSize ≤ buff.size ∧ pagesRep buff blocks a.pages)

theorem bufferRep_withstands (hpages : Withstands pagesRep writes) :
    Withstands (BufferRep pagesRep) (BufferWrites writes) := by
  rintro buff live a a' (h | ⟨hlarge, h⟩) hw
  · exact Or.inl (h.write hw)
  · exact Or.inr ⟨hlarge, hpages h hw.pages⟩

/-- Buffers of the default type issue blocks inside their own memory, if those with pages do. -/
theorem bufferOp_issuesInside (hpages : IssuesInside pages top pagesRep) :
    IssuesInside (bufferOp pages) top (BufferRep pagesRep) where
  inside := by
    rintro data live a (h | ⟨-, h⟩) e he
    · obtain ⟨h1, h2, hpos⟩ := h.within he
      exact ⟨⟨by simp only; omega, h2⟩, hpos⟩
    · exact hpages.inside h e he
  next := by
    rintro data live a link (h | ⟨hlarge, h⟩)
    · exact Or.inl (h.next link)
    · exact Or.inr ⟨hlarge, hpages.next link h⟩
  created := by
    intro data a ret a' hmin htop hcreate hret
    rcases Nat.lt_or_ge data.size minUsefulSize with hsmall | hlarge
    · obtain ⟨a1, hcreate1, hrep⟩ := TinyRep.create pages hsmall a
      obtain ⟨-, rfl⟩ := Prod.mk.inj (Option.some.inj (hcreate1.symm.trans hcreate))
      exact Or.inl hrep
    · obtain ⟨⟨ret', b⟩, hmade, heq⟩ := Option.map_eq_some_iff.mp
        ((if_neg (Nat.not_lt_of_le hlarge)).symm.trans hcreate)
      obtain ⟨rfl, rfl⟩ := Prod.mk.inj heq
      exact Or.inr ⟨hlarge, hpages.created hmin htop hmade hret⟩
  malloc := by
    rintro data live a n p a' (h | ⟨hlarge, h⟩) hpos hn hcall
    · obtain ⟨p1, a1, hcall1, hrep, -⟩ := h.malloc pages hpos (by omega)
      obtain ⟨rfl, rfl⟩ := Prod.mk.inj (Option.some.inj (hcall1.symm.trans hcall))
      exact Or.inl hrep
    · obtain ⟨⟨p', b⟩, hmalloc, heq⟩ := Option.map_eq_some_iff.mp
        ((if_neg (Nat.not_lt_of_le hlarge)).symm.trans hcall)
      obtain ⟨rfl, rfl⟩ := Prod.mk.inj heq
      exact Or.inr ⟨hlarge, hpages.malloc h hpos hn hmalloc⟩
  free := by
    rintro data live a e a' (h | ⟨hlarge, h⟩) he hcall
    · obtain ⟨a1, hcall1, hrep⟩ := h.free pages he
      obtain rfl := Option.some.inj (hcall1.symm.trans hcall)
      exact Or.inl hrep
    · obtain ⟨b, hfree, rfl⟩ := Option.map_eq_some_iff.mp
        ((if_neg (Nat.not_lt_of_le hlarge)).symm.trans hcall)
      exact Or.inr ⟨hlarge, hpages.free h he hfree⟩

section Runs

variable {ops : BuffAllocType → BuffOp α} {inv : List Extent → Store α → Prop} {st : Store α}
  {ι : UsedState (BufferState σ) → α} {users : Users (BufferWrites writes)}
  (hops : Embeds ι (usedOp users (bufferOp pages)) (ops .buffer)) (htop : top ≤ 2 ^ 63)
  (hparent : SoundParent ops path top limit inv) (hpages : IssuesInside pages top pagesRep)
  (hwrites : Withstands pagesRep writes)
  (run : HeldRun ops path limit inv .buffer r st held)
include hops htop hparent hpages hwrites run

/-- In every run each buffer of the chain has its form. -/
theorem HeldRun.bufferRep :
    ∃ region chain, st.regions r = some region ∧ Linked st region chain ∧
      ∀ d ∈ chain, ∃ data a, st.buffs d = some data ∧ st.cells data.start = ι a ∧
        UsedRep (BufferRep pagesRep) data (liveBlocks d st.trace) a := by
  have hop : IssuesInside (usedOp users (bufferOp pages)) top (UsedRep (BufferRep pagesRep)) :=
    (bufferOp_issuesInside hpages).used (bufferRep_withstands hwrites)
  obtain ⟨-, k, chain, hkept⟩ := run.kept htop hparent (hop.embed hops).places
  obtain ⟨region, blocks, hinv⟩ := hkept.kept
  refine ⟨region, chain, hinv.record, hinv.linked, fun d hd => ?_⟩
  obtain ⟨e, data, -, -, -, hdata, -, hinside⟩ := hinv.buffs d hd
  obtain ⟨a, hcell, hrep⟩ := hinside.rep
  exact ⟨data, a, hdata, hcell, hrep⟩

/-- **The pools of a region.** In every run of a region of the default type, over any sound
parent, and whatever is written to blocks in use, each small buffer of the chain is in a state
that a run on its pool reaches, with the blocks that the trace has in use there, and passes the
check. A buffer with pages has the form that its allocator keeps. -/
theorem bufferRegion_pools :
    ∃ region chain, st.regions r = some region ∧ Linked st region chain ∧
      ∀ d ∈ chain, ∃ data a, st.buffs d = some data ∧ st.cells data.start = ι a ∧
        (data.size < minUsefulSize → tinyAllocCheck data.size a.memory.bytes = some true ∧
          ∃ offs, TinyRun data.size a.memory.bytes offs ∧
            liveBlocks d st.trace = atStart data.start offs) ∧
        (minUsefulSize ≤ data.size → pagesRep data (liveBlocks d st.trace) a.memory.pages) := by
  obtain ⟨region, chain, hregion, hlinked, hbuffs⟩ :=
    run.bufferRep hops htop hparent hpages hwrites
  refine ⟨region, chain, hregion, hlinked, fun d hd => ?_⟩
  obtain ⟨data, a, hdata, hcell, hused⟩ := hbuffs d hd
  refine ⟨data, a, hdata, hcell, ?_⟩
  rcases hused.memory with hrep | ⟨hlarge, hrep⟩
  · obtain ⟨offs, hrun, hlive⟩ := hrep.run
    exact ⟨fun _ => ⟨(hrun.ok hrep.size_lt).check hrep.size_lt, offs, hrun, hlive⟩,
      fun hlarge => absurd hrep.small (Nat.not_lt_of_le hlarge)⟩
  · exact ⟨fun hsmall => absurd hsmall (Nat.not_lt_of_le hlarge), fun _ => hrep⟩

end Runs

/-- **The pages of a region.** With the allocator of `alloc.c`, and as long as no request is huge,
each buffer that has pages is in a state that a run on its pages reaches, and the blocks that the
trace has in use there are the first parts of those of the run. -/
theorem bufferRegion_pages {ops : BuffAllocType → BuffOp α} {inv : List Extent → Store α → Prop}
    {st : Store α} {ι : UsedState (BufferState Pages.Pool) → α}
    {users : Users (BufferWrites pageWrites)}
    (hops : Embeds ι (usedOp users (bufferOp bucketOp)) (ops .buffer)) (htop : top ≤ 2 ^ 38)
    (hparent : SoundParent ops path top limit inv)
    (run : HeldRun ops path limit inv .buffer r st held) :
    ∃ region chain, st.regions r = some region ∧ Linked st region chain ∧
      ∀ d ∈ chain, ∃ data a, st.buffs d = some data ∧ st.cells data.start = ι a ∧
        (minUsefulSize ≤ data.size → ∃ offs, Pages.PagesRun data.size a.memory.pages offs ∧
          List.Forall₂ FirstPart (liveBlocks d st.trace) (atStart data.start offs)) := by
  obtain ⟨region, chain, hregion, hlinked, hbuffs⟩ := run.bufferRep hops
    (Nat.le_trans htop (by decide)) hparent (bucketOp_issuesInside htop) pageRep_withstands
  refine ⟨region, chain, hregion, hlinked, fun d hd => ?_⟩
  obtain ⟨data, a, hdata, hcell, hused⟩ := hbuffs d hd
  refine ⟨data, a, hdata, hcell, fun hlarge => ?_⟩
  rcases hused.memory with hrep | ⟨-, hrep⟩
  · exact absurd hrep.small (Nat.not_lt_of_le hlarge)
  · exact hrep.run

/-- An allocator beside the buddy allocator is an entry of its table. -/
theorem besideMplite_embeds {ρ : Type} (op : BuffOp ρ) :
    Embeds (Sum.inr : ρ → Mplite ⊕ ρ) op (besideMplite op) where
  create := by
    intro buff a ret a' hcall
    cases a with
    | inl => exact absurd hcall (by simp [besideMplite])
    | inr s =>
      obtain ⟨⟨q, s'⟩, hcreate, heq⟩ := Option.bind_eq_some_iff.mp hcall
      obtain ⟨rfl, rfl⟩ := Prod.mk.inj (Option.some.inj heq)
      exact ⟨s, s', hcreate, rfl⟩
  malloc := by
    intro buff n s p a' hcall
    obtain ⟨⟨q, s'⟩, hmalloc, heq⟩ := Option.bind_eq_some_iff.mp hcall
    obtain ⟨rfl, rfl⟩ := Prod.mk.inj (Option.some.inj heq)
    exact ⟨s', hmalloc, rfl⟩
  free := by
    intro buff p s a' hcall
    obtain ⟨s', hfree, rfl⟩ := Option.map_eq_some_iff.mp hcall
    exact ⟨s', hfree, rfl⟩

/-- Users who fill their blocks. -/
def fillingUsers : Users (BufferWrites pageWrites) where
  write _ buff live a :=
    { a with bytes := fun x =>
        if ∀ e ∈ live, buff.start + x < e.ptr ∨ e.ptr + e.len ≤ buff.start + x then a.bytes x
        else 255 }
  written _ _ _ _ :=
    { bytes := fun _ hout => if_pos hout
      pages := ⟨rfl, fun _ => ⟨rfl, rfl, rfl, rfl⟩, fun _ _ => rfl⟩ }

/-- The allocator of buffers, whose users fill their blocks, beside the buddy allocator. -/
def filledOps : BuffAllocType → BuffOp (AllocState (Mplite ⊕ UsedState (BufferState Pages.Pool))) :=
  shallocBuffOps fun _ => besideMplite (usedOp fillingUsers (bufferOp bucketOp))

/-- A heap of type MPLITE before its buffer is set up. -/
def filledStore : Store (AllocState (Mplite ⊕ UsedState (BufferState Pages.Pool))) where
  regions := heapStore.regions
  buffs := heapStore.buffs
  cells a := .other (if a = 8192 then .inl Mplite.raw
    else .inr ⟨⟨fun _ => 0, Pages.zeroPool⟩, [], 0⟩)
  trace := []

/-- A region of the default type in that heap grows twice, and has a block freed in between. -/
theorem bufferRegion_pools_grown : ∃ st region chain,
    HeldRun filledOps [4096] (2 ^ 31) (HeapIssued MpliteServes 4096 4112 heapRegion heapBuff)
      .buffer 72408 st [46736, 61408] ∧
    st.regions 72408 = some region ∧ Linked st region chain ∧
    ∀ d ∈ chain, ∃ data a, st.buffs d = some data ∧ st.cells data.start = .other (.inr a) ∧
      (data.size < minUsefulSize → tinyAllocCheck data.size a.memory.bytes = some true ∧
        ∃ offs, TinyRun data.size a.memory.bytes offs ∧
          liveBlocks d st.trace = atStart data.start offs) ∧
      (minUsefulSize ≤ data.size → PageRep data (liveBlocks d st.trace) a.memory.pages) := by
  have hcalls : (do
      let (ret, st0) ← filledStore.opCreate filledOps 4112
      let (r, st1) ← shallocRegionCreate filledOps [4096] 0 0 0 0 .buffer st0
      let (p, st2) ← shallocMalloc filledOps [72408, 4096] 100 st1
      let (q, st3) ← shallocMalloc filledOps [72408, 4096] 200 st2
      let st4 ← shallocFree filledOps 72408 61616 st3
      let (s, _) ← shallocMalloc filledOps [72408, 4096] 5000 st4
      some ((ret, r), (p, q, s), decide (AsksBelow (2 ^ 31) 72408 (shallocBuffAllocSize 100) st1 ∧
        AsksBelow (2 ^ 31) 72408 (shallocBuffAllocSize 200) st2 ∧
        AsksBelow (2 ^ 31) 72408 (shallocBuffAllocSize 5000) st4))) =
      some ((0, some 72408), (some 61616, some 61408, some 46736), true) := by decide +kernel
  simp only [bind, Option.bind_eq_some_iff, Prod.exists, Option.some.injEq, Prod.mk.injEq,
    decide_eq_true_eq] at hcalls
  obtain ⟨_, st0, hheap, _, st1, hcreate, _, st2, hmalloc1, _, st3, hmalloc2, st4, hfree, _, st5,
    hmalloc3, ⟨rfl, rfl⟩, ⟨rfl, rfl, rfl⟩, hasks1, hasks2, hasks3⟩ := hcalls
  have hparent : SoundParent filledOps [4096] 73728 (2 ^ 31)
      (HeapIssued MpliteServes 4096 4112 heapRegion heapBuff) :=
    (mpliteHeap_fullParent rfl rfl rfl (by decide)).sound
  have hstart : HeapIssued MpliteServes 4096 4112 heapRegion heapBuff [] st0 :=
    mpliteHeap_created rfl heapStore_oneBuff.layout rfl (by decide) rfl rfl hheap
  have run1 := (HeldRun.create hstart (by decide) (by decide) rfl (by decide) hcreate).step
    (.malloc (by decide) hasks1 hmalloc1)
  have run2 := (run1.step (.malloc (by decide) hasks2 hmalloc2)).step (.free (by decide) hfree)
  have run3 := run2.step (.malloc (by decide) hasks3 hmalloc3)
  obtain ⟨region, chain, hregion, hlinked, hbuffs⟩ :=
    bufferRegion_pools ((besideMplite_embeds _).trans (otherOp_embeds _)) (by decide) hparent
      (bucketOp_issuesInside (by decide)) pageRep_withstands run3
  exact ⟨st5, region, chain, run3, hregion, hlinked, hbuffs⟩

/-- **A tree of regions over a small heap** of the default type. Whatever callers do in its
regions, and whatever is written to the blocks, the tree is safe, and the pool of the heap is in a
state that a run reaches with the blocks that the regions have of it, and passes the check. -/
theorem bufferHeap_tree {other : BuffAllocType → BuffOp (UsedState (BufferState σ))}
    {users : Users (BufferWrites writes)} {w : TreeWorld (UsedState (BufferState σ))}
    (hother : other .buffer = usedOp users (bufferOp pages))
    (run : TreeReach other .buffer (EmbedRep .other (UsedRep TinyAlignedRep)) w)
    (hbound : Bounded w.st.trace) :
    ∃ chain, TreeSafe w chain ∧ ∃ b buff a offs, chain w.root = [b] ∧
      w.st.buffs b = some buff ∧ w.st.cells buff.start = .other a ∧
      TinyRun buff.size a.memory.bytes offs ∧ liveBlocks b w.st.trace = atStart buff.start offs ∧
      tinyAllocCheck buff.size a.memory.bytes = some true := by
  have hheap : SoundOp (shallocSpaceBuffOps other .buffer) 0 (2 ^ 62)
      (EmbedRep .other (UsedRep (TinyAlignedRep (σ := σ)))) := by
    have hbuffer : shallocSpaceBuffOps other .buffer = otherOp (usedOp users (bufferOp pages)) :=
      congrArg otherOp hother
    rw [hbuffer]
    exact (((tiny_soundOp pages).headless.below (by decide)).used
      tinyAlignedRep_withstands).embed (otherOp_embeds _)
  obtain ⟨F, hinv⟩ := run.inv hheap hbound
  obtain ⟨b, hchain, -⟩ := hinv.sim.ok.chain_root
  have hnode : F.Node (F.root, b) :=
    ⟨hinv.sim.ok.root_mem, hchain ▸ List.mem_singleton_self b⟩
  obtain ⟨buff, hbuff, hrep⟩ := hinv.sim.buff _ hnode
  obtain ⟨a, hcell, hused⟩ := (treeRep_root.mp hrep.rep).2
  have hsize := hused.memory.rep.size_lt
  obtain ⟨offs, hrun, hlive⟩ := hused.memory.rep.run
  refine ⟨F.chain, hinv.safe, b, buff, a, offs, hinv.root ▸ hchain, hbuff, hcell, hrun, ?_,
    (hrun.ok hsize).check hsize⟩
  rw [← hinv.sim.trace _ hnode]
  exact hlive

/-- A heap of 64 KiB of the default type, with its pool set up. -/
def smallHeap (bytes : Pool) : TreeWorld (UsedState (BufferState Pages.Pool)) where
  st :=
    { regions := fun r => if r = 4096 then
        some { dataHead := some 4112, dataTail := some 4112, flags := 3, ancestors := [],
               defaultData := ⟨8192, 73727, 65536, 65536, 0, none, .buffer⟩ }
        else none
      buffs := fun b => if b = 4112 then some ⟨8192, 73727, 65536, 65536, 0, none, .buffer⟩
        else none
      cells := fun _ => .other ⟨⟨bytes, Pages.zeroPool⟩, [], 1⟩
      trace := [] }
  root := 4096
  regions := [4096]
  held := []

/-- The allocator of buffers, whose users fill their blocks, for each type. -/
def smallOps : BuffAllocType → BuffOp (UsedState (BufferState Pages.Pool)) :=
  fun _ => usedOp fillingUsers (bufferOp bucketOp)

theorem smallHeap_start {bytes : Pool} (hinit : (tinyAllocInit 65536 fun _ => 0) = some bytes) :
    TreeStart .buffer (EmbedRep .other (UsedRep TinyAlignedRep)) (smallHeap bytes) := by
  have hwithin : Extent.Within ⟨4112, sizeofBuff⟩ ⟨4096, sizeofRegion⟩ := by decide
  have hapart : Extent.Disjoint ⟨4096, sizeofRegion⟩ ⟨8192, 65536⟩ := by decide
  have hrep : TinyAlignedRep (⟨8192, 73727, 65536, 65536, 0, none, .buffer⟩ : Buff) []
      (⟨bytes, Pages.zeroPool⟩ : BufferState Pages.Pool) :=
    ⟨⟨by decide, [], .init hinit, rfl⟩, by decide, fun _ he => absurd he List.not_mem_nil⟩
  exact ⟨rfl, rfl, rfl, _, 4112, _, rfl, rfl, rfl, rfl, rfl, by decide, by decide, rfl, rfl,
    rfl, by decide, hwithin, hapart, _, rfl, rfl, hrep⟩

/-- A region of that heap grows for a block of 100 bytes. -/
theorem bufferHeap_tree_malloc : ∃ w : TreeWorld (UsedState (BufferState Pages.Pool)),
    w.regions = [73632, 4096] ∧ w.held = [(73632, ⟨69552, 100⟩)] ∧
    ∃ chain, TreeSafe w chain ∧ ∃ b buff a offs, chain w.root = [b] ∧
      w.st.buffs b = some buff ∧ w.st.cells buff.start = .other a ∧
      TinyRun buff.size a.memory.bytes offs ∧ liveBlocks b w.st.trace = atStart buff.start offs ∧
      tinyAllocCheck buff.size a.memory.bytes = some true := by
  have hcalls : (do
      let bytes ← tinyAllocInit 65536 fun _ => 0
      let (r, st1) ← shallocRegionCreate (shallocSpaceBuffOps smallOps)
        ((smallHeap bytes).st.path 4096) 0 0 0 0 .nofree (smallHeap bytes).st
      let (p, st2) ← shallocMalloc (shallocSpaceBuffOps smallOps) (st1.path 73632) 100 st1
      some (r, p, decide (Bounded st2.trace))) = some (some 73632, some 69552, true) := by
    decide +kernel
  simp only [bind, Option.bind_eq_some_iff, Prod.exists, Option.some.injEq, Prod.mk.injEq,
    decide_eq_true_eq] at hcalls
  obtain ⟨bytes, hinit, _, st1, hcreate, _, st2, hmalloc, rfl, rfl, hbound⟩ := hcalls
  have run := ((TreeReach.start (smallHeap_start hinit)).step (.create List.mem_cons_self
    (by decide) (by decide) (Or.inr rfl) (by decide) hcreate)).step
      (.malloc List.mem_cons_self (by decide) hmalloc)
  exact ⟨_, rfl, rfl, bufferHeap_tree (by rfl) run hbound⟩

end Region

end Shalloc
