import Shalloc.Region.Rule
import Shalloc.Slab.StateMachine
import Shalloc.Space.Placement

/-!
# Attaching a slab

`_slab_create` does not pass on what `slab_init` returns. A region of type SLAB is given a
new buffer whether `slab_init` has set it up or refused its sizes, and a heap of type SLAB,
whose block size is 0, is never set up.

## Main definitions

- `SlabAttached` — the new buffer of a region is one on which `slab_init` returned 0
- `SlabGrows`, `SlabCreates` — a growth or a creation attaches such a buffer or fails cleanly

## Main results

- `slab_attached_iff` — they do so iff `slab_init` accepts the sizes of the buffer
-/

namespace Shalloc

variable {ρ : Type} {ops : BuffAllocType → BuffOp (AllocState ρ)}
  {st st' st1 : Store (AllocState ρ)}
  {path : List ℕ} {top limit k r d size : ℕ} {inv : List Extent → Store (AllocState ρ) → Prop}
  {J : ℕ → Region → Prop} {Q : Extent → Buff → List Extent → AllocState ρ → Prop}
  {region : Region} {chain : List ℕ} {blocks : List Extent}

/-- The entry of the table for slabs. -/
def slabOps : BuffOp (AllocState ρ) := ⟨slabCreate, slabDestroy, slabOpMalloc, slabOpFree⟩

/-- The tail of the region is a buffer on which `slab_init` returned 0, and whose header
shows it. -/
def SlabAttached (r : ℕ) (st : Store (AllocState ρ)) : Prop :=
  ∃ region d data raw header, st.regions r = some region ∧ region.dataTail = some d ∧
    st.buffs d = some data ∧
    slabInit data.start data.size data.blockSize raw = some (0, header) ∧
    st.cells data.start = .slab header ∧ slabCheck header ∧ 0 < header.blockSize ∧
    0 < header.numBlocks

/-- `shalloc_region_grow` returns. It attaches a slab, or fails and leaves the parent with
the blocks that it had issued before. -/
def SlabGrows (ops : BuffAllocType → BuffOp (AllocState ρ)) (path : List ℕ)
    (inv : List Extent → Store (AllocState ρ) → Prop) (blocks : List Extent) (r size : ℕ)
    (st : Store (AllocState ρ)) : Prop :=
  ∃ ret st', shallocRegionGrow ops (shallocMalloc ops path) r size st = some (ret, st') ∧
    ((ret = 0 ∧ SlabAttached r st') ∨ (ret = -1 ∧ inv blocks st'))

/-- `shalloc_region_create` returns. It returns a region with a slab, or NULL and leaves the
parent with the blocks that it had issued before. -/
def SlabCreates (ops : BuffAllocType → BuffOp (AllocState ρ)) (path : List ℕ)
    (inv : List Extent → Store (AllocState ρ) → Prop) (blocks : List Extent)
    (initSize buffSize blockSize flags : ℕ) (st : Store (AllocState ρ)) : Prop :=
  ∃ p st', shallocRegionCreate ops path initSize buffSize blockSize flags .slab st =
      some (p, st') ∧
    ((∃ r, p = some r ∧ SlabAttached r st') ∨ (p = none ∧ inv blocks st'))

/-- `slab_init` accepts the sizes of the buffer that a growth for `size` bytes makes of the
block `d` of the parent. -/
def NewSlabFits (region : Region) (d size : ℕ) : Prop :=
  SlabFits (region.cloneBuff d (region.buffSize size)).size
    (region.cloneBuff d (region.buffSize size)).blockSize

instance (region : Region) (d size : ℕ) : Decidable (NewSlabFits region d size) :=
  inferInstanceAs (Decidable (SlabFits _ _))

/-- `slab_init` has returned 0 on the buffer of a heap. -/
def SlabHeapReady (m : Machine (AllocState ρ)) (ptr : HeapPtr) : Prop :=
  ∃ raw header, m.heapCell (m.heap ptr) = some (.slab header) ∧
    slabInit (m.heap ptr).region.defaultData.start (m.heap ptr).region.defaultData.size
      (m.heap ptr).region.defaultData.blockSize raw = some (0, header)

section Growth

/-- `_slab_create` on sizes that `slab_init` accepts. -/
theorem slabCreate_fits {buff : Buff} (a : AllocState ρ) (h : SlabFits buff.size buff.blockSize) :
    ∃ raw header, slabInit buff.start buff.size buff.blockSize raw = some (0, header) ∧
      slabCreate buff a = some (0, .slab header) := by
  have hinit : ∀ raw : SlabHeader, ∃ header,
      slabInit buff.start buff.size buff.blockSize raw = some (0, header) :=
    fun raw => (slabInit_zero_iff buff.start raw).mpr h
  cases a with
  | slab raw =>
    obtain ⟨header, hheader⟩ := hinit raw
    exact ⟨raw, header, hheader, by simp [slabCreate, hheader]⟩
  | _ =>
    obtain ⟨header, hheader⟩ := hinit ⟨0, 0, 0, 0, 0, 0, 0, fun _ => 0⟩
    exact ⟨_, header, hheader, by simp [slabCreate, hheader]⟩

/-- `_slab_create` returns 0. -/
theorem slabCreate_ret {buff : Buff} {a a' : AllocState ρ} {ret : ℤ}
    (h : slabCreate buff a = some (ret, a')) : ret = 0 := by
  simp only [slabCreate, bind, Option.bind_eq_some_iff, Prod.exists, Option.some.injEq,
    Prod.mk.injEq] at h
  obtain ⟨_, _, -, rfl, -⟩ := h
  rfl

variable (hparent : SoundParent ops path top limit inv) (hops : ops .slab = slabOps)
  (h : RegionInv path inv J Q k r st region chain blocks)
  (htype : region.defaultData.allocType = .slab)
  (hfree : ¬ (region.dataTail.isSome ∧ hasFlag region.flags .nonResizable))
  (hbelow : region.request size < limit)
  (hmalloc : shallocMalloc ops path (region.request size) st = some (some d, st1))
include hparent hops h htype hfree hbelow hmalloc

/-- A growth by a buffer that `slab_init` accepts. -/
theorem RegionInv.slabGrow (hpos : 0 < size) (hfits : NewSlabFits region d size) :
    ∃ st', shallocRegionGrow ops (shallocMalloc ops path) r size st = some (0, st') ∧
      SlabAttached r st' := by
  obtain ⟨hinv, hagree⟩ := hparent.served h.parent hbelow hmalloc
  have h1 := h.agree hinv (fun _ he _ => he) (fun _ he => List.mem_cons_of_mem _ he) hagree
  have hnot : d ∉ chain := fun hd => h.not_mem_fresh hparent hinv (List.mem_cons_of_mem _ hd)
  obtain ⟨P, hP⟩ := shallocMalloc_path hmalloc
  have htype' : (region.cloneBuff d (region.buffSize size)).allocType = .slab :=
    (region.cloneBuff_allocType d _).trans htype
  obtain ⟨raw, header, hinit, hcreate⟩ := slabCreate_fits (st1.cells
    (region.cloneBuff d (region.buffSize size)).start) hfits
  have hop : (st1.setBuff d (region.cloneBuff d (region.buffSize size))).opCreate ops d =
      some (0, ((st1.setBuff d (region.cloneBuff d (region.buffSize size))).setCell
        (region.cloneBuff d (region.buffSize size)).start (.slab header)).log (.create d 0)) := by
    refine Store.opCreate_eq_some.mpr ⟨_, .slab header, Function.update_self .., ?_, rfl⟩
    rw [htype', hops]
    exact hcreate
  obtain ⟨st', hgrow⟩ := shallocRegionGrow_returns hpos h.record hfree
    (h.parent_eq.trans hP) hmalloc
    h1.record h1.linked hnot hop le_rfl
  -- what the growth has attached is that slab
  obtain ⟨d', st1', region1, made, a, hmalloc', hregion1, -, hop', ⟨region', hregion', htail⟩,
    hbuff, hcell⟩ := (shallocRegionGrow_cases hgrow).attached rfl h.record
  obtain ⟨hd, rfl⟩ := Prod.mk.inj (Option.some.inj (hmalloc.symm.trans hmalloc'))
  obtain rfl := Option.some.inj hd
  obtain rfl := Option.some.inj (h1.record.symm.trans hregion1)
  rw [htype', hops] at hop'
  obtain ⟨-, rfl⟩ := Prod.mk.inj (Option.some.inj (hop'.symm.trans hcreate))
  obtain ⟨hok, -⟩ := slabInit_ok hinit
  exact ⟨st', hgrow, region', d, _, raw, header, hregion', htail, hbuff, hinit, hcell,
    slabInit_check hinit, hok.blockSize_pos, hok.numBlocks_pos⟩

/-- A growth always attaches the block that the parent has issued, so that it is a slab only
if its sizes fit. -/
theorem RegionInv.slabGrow_fits {ret : ℤ} {st' : Store (AllocState ρ)}
    (hgrow : GrowCases ops (shallocMalloc ops path) r size st ret st') :
    ret = 0 ∧ (SlabAttached r st' → NewSlabFits region d size) := by
  obtain ⟨hinv, hagree⟩ := hparent.served h.parent hbelow hmalloc
  have hregion1 : st1.regions r = some region :=
    (hagree.regions r (h.covers hparent).1).trans h.record
  have hcreated : ∀ {b st2 ret region'}, st1.regions r = some region' →
      (st1.setBuff b (region'.cloneBuff b (region.buffSize size))).opCreate ops b =
        some (ret, st2) → ret = 0 := by
    intro b st2 ret region' hregion' hcreate
    obtain rfl := Option.some.inj (hregion1.symm.trans hregion')
    obtain ⟨data, a, hdata, hop, -⟩ := Store.opCreate_eq_some.mp hcreate
    rw [Store.setBuff_buffs, Function.update_self, Option.some.injEq] at hdata
    rw [← hdata, Region.cloneBuff_allocType, htype, hops] at hop
    exact slabCreate_ret hop
  cases hgrow with
  | fixed hregion ht hfixed =>
    obtain rfl := Option.some.inj (h.record.symm.trans hregion)
    exact absurd ⟨by rw [ht]; rfl, hfixed⟩ hfree
  | failed _ _ halloc =>
    cases halloc with
    | refused hregion _ hmalloc' =>
      obtain rfl := Option.some.inj (h.record.symm.trans hregion)
      exact absurd (hmalloc.symm.trans hmalloc') (by simp)
    | createFailed hregion _ hmalloc' hregion1' hcreate hret =>
      obtain rfl := Option.some.inj (h.record.symm.trans hregion)
      obtain ⟨hd, rfl⟩ := Prod.mk.inj (Option.some.inj (hmalloc.symm.trans hmalloc'))
      obtain rfl := hcreated hregion1' hcreate
      exact absurd hret (by decide)
  | grown hregion hfree halloc hattach =>
    have hcases := GrowCases.grown hregion hfree halloc hattach
    obtain ⟨d', st2, region2, made, a, hmalloc', hregion2, -, -, ⟨region', hregion', htail⟩, hbuff,
      -⟩ := hcases.attached rfl h.record
    obtain ⟨hd, rfl⟩ := Prod.mk.inj (Option.some.inj (hmalloc.symm.trans hmalloc'))
    obtain rfl := Option.some.inj hd
    obtain rfl := Option.some.inj (hregion1.symm.trans hregion2)
    refine ⟨rfl, ?_⟩
    rintro ⟨region3, d3, data3, raw, header, hregion3, htail3, hdata3, hinit, -⟩
    obtain rfl := Option.some.inj (hregion'.symm.trans hregion3)
    obtain rfl := Option.some.inj (htail.symm.trans htail3)
    obtain rfl := Option.some.inj (hbuff.symm.trans hdata3)
    exact (slabInit_zero_iff _ raw).mp ⟨header, hinit⟩

/-- A growth for which the parent issues a block. -/
theorem RegionInv.slabGrows_iff (hpos : 0 < size) :
    SlabGrows ops path inv blocks r size st ↔ NewSlabFits region d size := by
  constructor
  · rintro ⟨ret, st', hgrow, hres⟩
    obtain ⟨hret, hfits⟩ :=
      h.slabGrow_fits hparent hops htype hfree hbelow hmalloc (shallocRegionGrow_cases hgrow)
    obtain ⟨-, hattached⟩ | ⟨hfail, -⟩ := hres
    · exact hfits hattached
    · exact absurd (hret.symm.trans hfail) (by decide)
  · intro hfits
    obtain ⟨st', hgrow, hattached⟩ := h.slabGrow hparent hops htype hfree hbelow hmalloc hpos hfits
    exact ⟨0, st', hgrow, Or.inl ⟨rfl, hattached⟩⟩

end Growth

/-- A creation for which the parent issues the record and the first block. -/
theorem SoundParent.slabCreates_iff {initSize buffSize blockSize flags : ℕ}
    {st2 : Store (AllocState ρ)} (hparent : SoundParent ops path top limit inv)
    (hops : ops .slab = slabOps)
    (hinv : inv blocks st) (hheap : hasFlag flags .heap = false) (hpos : 0 < initSize)
    (hbelow : (shallocGetRegion path buffSize blockSize flags .slab).request initSize < limit)
    (hrecord : shallocMalloc ops path sizeofRegion st = some (some r, st1))
    (hmalloc : shallocMalloc ops path
        ((shallocGetRegion path buffSize blockSize flags .slab).request initSize)
        (st1.setRegion r (shallocGetRegion path buffSize blockSize flags .slab)) =
      some (some d, st2)) :
    SlabCreates ops path inv blocks initSize buffSize blockSize flags st ↔
      NewSlabFits (shallocGetRegion path buffSize blockSize flags .slab) d initSize := by
  -- the first growth of the new region
  have hkept : RegionKept path inv (fun _ _ => True) (fun _ _ _ _ => True) 0 r
      (st1.setRegion r (shallocGetRegion path buffSize blockSize flags .slab)) [] :=
    hparent.create_record hinv trivial hrecord
  obtain ⟨region, blocks', h⟩ := hkept
  obtain rfl : shallocGetRegion path buffSize blockSize flags .slab = region := by
    have hregion := h.record
    rw [Store.setRegion_regions, Function.update_self, Option.some.injEq] at hregion
    exact hregion
  have htype : (shallocGetRegion path buffSize blockSize flags .slab).defaultData.allocType =
      .slab := rfl
  have hfree : ¬ ((shallocGetRegion path buffSize blockSize flags .slab).dataTail.isSome ∧
      hasFlag (shallocGetRegion path buffSize blockSize flags .slab).flags .nonResizable) :=
    fun hno => absurd hno.1 (by simp [shallocGetRegion])
  constructor
  · rintro ⟨p, st', hcreate, hres⟩
    cases shallocRegionCreate_cases hcreate with
    | heapFlag hflag => exact absurd (hflag.symm.trans hheap) (by decide)
    | refused hrecord' => exact absurd (hrecord.symm.trans hrecord') (by simp)
    | empty _ hzero => omega
    | notGrown hrecord' _ hgrow hret =>
      obtain ⟨hr, rfl⟩ := Prod.mk.inj (Option.some.inj (hrecord.symm.trans hrecord'))
      obtain rfl := Option.some.inj hr
      obtain ⟨rfl, -⟩ := h.slabGrow_fits hparent hops htype hfree hbelow hmalloc hgrow
      exact absurd hret (by decide)
    | grown hrecord' _ hgrow =>
      obtain ⟨hr, rfl⟩ := Prod.mk.inj (Option.some.inj (hrecord.symm.trans hrecord'))
      obtain rfl := Option.some.inj hr
      obtain ⟨-, hfits⟩ := h.slabGrow_fits hparent hops htype hfree hbelow hmalloc hgrow
      obtain ⟨r', hr', hattached⟩ | ⟨hnone, -⟩ := hres
      · obtain rfl := Option.some.inj hr'
        exact hfits hattached
      · exact absurd hnone (by simp)
  · intro hfits
    obtain ⟨st', hgrow, hattached⟩ := h.slabGrow hparent hops htype hfree hbelow hmalloc hpos hfits
    refine ⟨some r, st', ?_, Or.inl ⟨r, rfl, hattached⟩⟩
    simp only [shallocRegionCreate, hheap, Bool.false_eq_true, if_false, bind, hrecord,
      Option.bind_some, if_pos hpos, hgrow, lt_irrefl]

/-- A heap has block size 0, which `slab_init` refuses. -/
theorem HeapCreated.not_slab {cfg : SpaceConfig (AllocState ρ)} {mmapFlags : ℕ}
    {m m' : Machine (AllocState ρ)} {ptr : HeapPtr}
    (h : HeapCreated cfg size mmapFlags .slab m m' ptr) : ¬ SlabHeapReady m' ptr := by
  obtain ⟨self, old, id, got, hgot, hheap⟩ := h.record
  rintro ⟨raw, header, -, hinit⟩
  have hblock : (m'.heap ptr).region.defaultData.blockSize = 0 := by
    rw [hheap]
    unfold shallocGetHeap at hgot
    split at hgot
    · exact absurd hgot (by simp)
    · rw [← Option.some.inj hgot]
      rfl
  rw [hblock] at hinit
  obtain ⟨-, hround, -⟩ := (slabInit_zero_iff _ raw).mp ⟨header, hinit⟩
  exact absurd hround (by decide)

/-- **Attaching a slab.** Under a parent that is sound for the request and issues the block for the
new buffer, a growth of a SLAB region attaches a slab or fails cleanly iff `slab_init` accepts the
sizes of the buffer, and so does the creation of one; a heap of type SLAB never has a slab. -/
theorem slab_attached_iff (hops : ops .slab = slabOps)
    (hparent : SoundParent ops path top limit inv)
    (cfg : SpaceConfig (AllocState ρ)) :
    (∀ {J Q k r d size region chain blocks st st1},
      RegionInv path inv J Q k r st region chain blocks →
      region.defaultData.allocType = .slab →
      ¬ (region.dataTail.isSome ∧ hasFlag region.flags .nonResizable) → 0 < size →
      region.request size < limit →
      shallocMalloc ops path (region.request size) st = some (some d, st1) →
      (SlabGrows ops path inv blocks r size st ↔ NewSlabFits region d size)) ∧
    (∀ {initSize buffSize blockSize flags r d blocks st st1 st2}, inv blocks st →
      hasFlag flags .heap = false → 0 < initSize →
      (shallocGetRegion path buffSize blockSize flags .slab).request initSize < limit →
      shallocMalloc ops path sizeofRegion st = some (some r, st1) →
      shallocMalloc ops path
          ((shallocGetRegion path buffSize blockSize flags .slab).request initSize)
          (st1.setRegion r (shallocGetRegion path buffSize blockSize flags .slab)) =
        some (some d, st2) →
      (SlabCreates ops path inv blocks initSize buffSize blockSize flags st ↔
        NewSlabFits (shallocGetRegion path buffSize blockSize flags .slab) d initSize)) ∧
    ∀ {size mmapFlags m m' ptr}, shallocHeapCreate cfg size mmapFlags .slab m =
      some (some ptr, m') → ¬ SlabHeapReady m' ptr := by
  refine ⟨?_, ?_, ?_⟩
  · intro J Q k r d size region chain blocks st st1 h htype hfree hpos hbelow hmalloc
    exact h.slabGrows_iff hparent hops htype hfree hbelow hmalloc hpos
  · intro initSize buffSize blockSize flags r d blocks st st1 st2 hinv hheap hpos hbelow hrecord
      hmalloc
    exact hparent.slabCreates_iff hops hinv hheap hpos hbelow hrecord hmalloc
  · intro size mmapFlags m m' ptr hcreate
    have hcreated := shallocHeapCreate_created hcreate
    exact hcreated.not_slab

/-- A slab of 8-byte blocks in a heap of 64 KiB. -/
theorem slab_attached_small :
    SlabCreates heapOps [4096] (HeapIssued (PlacedAfter 216) 4096 4112 heapRegion heapBuff) []
      1 0 8 0 heapStore := by
  obtain ⟨st1, st2, hrecord, hmalloc⟩ : ∃ st1 st2,
      shallocMalloc heapOps [4096] sizeofRegion heapStore = some (some 72408, st1) ∧
      shallocMalloc heapOps [4096] ((shallocGetRegion [4096] 0 8 0 .slab).request 1)
          (st1.setRegion 72408 (shallocGetRegion [4096] 0 8 0 .slab)) =
        some (some 57560, st2) := ⟨_, _, rfl, rfl⟩
  exact ((slab_attached_iff rfl heapRegion_soundParent spaceConfig).2.1 heapStore_issued
    (by decide) (by decide) (Word.wrap_lt _ _) hrecord hmalloc).mpr (by decide)

/-- Blocks of 3000 bytes do not fit the default buffer twice. `slab_init` refuses, and the
region is returned with a buffer that was not set up. -/
theorem not_slab_attached :
    ¬ ∀ initSize buffSize blockSize flags, hasFlag flags .heap = false → 0 < initSize →
      SlabCreates heapOps [4096] (HeapIssued (PlacedAfter 216) 4096 4112 heapRegion heapBuff) []
        initSize buffSize blockSize flags heapStore := by
  intro h
  obtain ⟨p, st', hcreate, hres⟩ := h 1 0 3000 0 (by decide) (by decide)
  have hrun : (shallocRegionCreate heapOps [4096] 1 0 3000 0 .slab heapStore).map (fun r =>
      (r.1, (r.2.regions 72408).bind Region.dataTail, (r.2.buffs 57560).map fun data =>
        (data.size, data.blockSize))) =
      some (some 72408, some 57560, some (4096, 3000)) := by decide +kernel
  rw [hcreate] at hrun
  obtain ⟨rfl, hrest⟩ := Prod.mk.inj (Option.some.inj hrun)
  obtain ⟨htail, hdata⟩ := Prod.mk.inj hrest
  obtain ⟨r, hr, region, d, data, raw, header, hregion, htail', hdata', hinit, -⟩ | ⟨hnone, -⟩ :=
    hres
  · obtain rfl := Option.some.inj hr
    have hd : (st'.regions 72408).bind Region.dataTail = some d := by rw [hregion]; exact htail'
    obtain rfl := Option.some.inj (hd.symm.trans htail)
    obtain ⟨_, hsome, hsizes⟩ := Option.map_eq_some_iff.mp hdata
    obtain rfl := Option.some.inj (hdata'.symm.trans hsome)
    obtain ⟨hsize, hblock⟩ := Prod.mk.inj hsizes
    rw [hsize, hblock] at hinit
    exact absurd ((slabInit_zero_iff _ raw).mp ⟨header, hinit⟩) (by decide)
  · exact absurd hnone (by simp)

end Shalloc
