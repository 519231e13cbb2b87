import Shalloc.Runs.Free

/-!
# The size of a buffer and of its block

The descriptor of a new buffer holds the size that the buffer has been asked for, raised to a
least size, while the parent is asked for that size and the descriptor's own modulo `2 ^ 64`.

## Main definitions

- `SizeFits` — the size of the next buffer passes both operations unchanged
- `BuffInBlock` — a growth attaches a buffer inside the block that the parent has issued for it
- `BlockRun` — calls on a region whose first buffer fits

## Main results

- `buff_in_block_iff` — the buffer is inside its block iff its size fits, and it always fits in
  a region whose first buffer does
-/

namespace Shalloc

variable {α : Type} {ops : BuffAllocType → BuffOp α} {st st' : Store α} {path : List ℕ}
  {top limit k r d size : ℕ} {inv : List Extent → Store α → Prop} {J : ℕ → Region → Prop}
  {Q : Extent → Buff → List Extent → α → Prop} {region : Region} {chain held : List ℕ}
  {blocks : List Extent}

/-- The size of the next buffer is no smaller than the least size, and fits 64 bits together
with the descriptor. -/
def SizeFits (region : Region) (size : ℕ) : Prop :=
  shallocBuffMinSize ≤ region.buffSize size ∧ sizeofBuff + region.buffSize size < 2 ^ 64

/-- The growth from `st` to `st'` has attached a buffer inside the block that the parent has
issued for it. -/
def BuffInBlock (ops : BuffAllocType → BuffOp α) (path : List ℕ) (r size : ℕ) (st st' : Store α) :
    Prop :=
  ∃ region d data st1, st.regions r = some region ∧
    shallocMalloc ops path (region.request size) st = some (some d, st1) ∧
    (st'.regions r).bind Region.dataTail = some d ∧ st'.buffs d = some data ∧
    Extent.Within ⟨data.start, data.size⟩ ⟨d, region.request size⟩

/-- Every buffer of the region is inside a block of the parent. -/
def BuffsInBlocks (inv : List Extent → Store α → Prop) (r : ℕ) (st : Store α) : Prop :=
  ∃ region chain blocks, st.regions r = some region ∧ Linked st region chain ∧ inv blocks st ∧
    ∀ d ∈ chain, ∃ e data, e ∈ blocks ∧ e.ptr = d ∧ st.buffs d = some data ∧
      Extent.Within ⟨data.start, data.size⟩ e

/-- Calls on a region since `shalloc_region_create` has returned it, with any size, type and
flags whose first buffer fits. -/
inductive BlockRun (ops : BuffAllocType → BuffOp α) (path : List ℕ) (limit : ℕ)
    (inv : List Extent → Store α → Prop) (r : ℕ) : Store α → List ℕ → Prop
  | create {initSize buffSize blockSize flags : ℕ} {type : BuffAllocType} {blocks : List Extent}
      {st st' : Store α} : inv blocks st →
      GrownFits (shallocGetRegion path buffSize blockSize flags type) →
      sizeofBuff + initSize < 2 ^ 64 →
      (shallocGetRegion path buffSize blockSize flags type).request initSize < limit →
      shallocRegionCreate ops path initSize buffSize blockSize flags type st = some (some r, st') →
      BlockRun ops path limit inv r st' []
  | step {st st' : Store α} {held held' : List ℕ} : BlockRun ops path limit inv r st held →
      HeldCall ops path limit r st held st' held' → BlockRun ops path limit inv r st' held'

/-- The descriptor of a new buffer and the block that it stands in, which ends in memory. -/
theorem Region.cloneBuff_within_iff (hpos : 0 < size)
    (hroom : d + region.request size ≤ 2 ^ 64) :
    Extent.Within ⟨(region.cloneBuff d (region.buffSize size)).start,
        (region.cloneBuff d (region.buffSize size)).size⟩ ⟨d, region.request size⟩ ↔
      SizeFits region size := by
  have hbuff := lt_buffSize region hpos
  have hlen : region.request size = (64 + region.buffSize size) % 2 ^ 64 := rfl
  have hstart : (region.cloneBuff d (region.buffSize size)).start = (d + 64) % 2 ^ 64 := rfl
  have hsize : (region.cloneBuff d (region.buffSize size)).size =
      if (d + 64) % 2 ^ 64 ≠ 0 ∧ region.buffSize size < 1024 then 1024
        else region.buffSize size := rfl
  unfold Extent.Within SizeFits sizeofBuff shallocBuffMinSize shallocPageSize
  simp only
  constructor
  · rintro ⟨hbegin, hend⟩
    -- a start that has wrapped is below the block
    have hlt : d + 64 < 2 ^ 64 := by omega
    have hfits : 64 + region.buffSize size < 2 ^ 64 := by split at hsize <;> omega
    refine ⟨?_, hfits⟩
    by_contra hsmall
    rw [if_pos ⟨by omega, by omega⟩] at hsize
    omega
  · rintro ⟨hlower, hfits⟩
    rw [if_neg (by omega)] at hsize
    exact ⟨by omega, by omega⟩

section Growth

variable (hparent : SoundParent ops path top limit inv)
include hparent

/-- The block of a growth, and the descriptor that it has attached. -/
theorem SoundParent.grown (hinv : inv blocks st) (hregion : st.regions r = some region)
    (hcover : Covers blocks r) (hbelow : region.request size < limit)
    (hgrow : shallocRegionGrow ops (shallocMalloc ops path) r size st = some (0, st')) :
    0 < size ∧ ∃ d st1, shallocMalloc ops path (region.request size) st = some (some d, st1) ∧
      d + region.request size ≤ top ∧ (st'.regions r).bind Region.dataTail = some d ∧
      st'.buffs d = some { region.cloneBuff d (region.buffSize size) with next := none } := by
  have hpos : 0 < size := by
    by_contra hzero
    rw [shallocRegionGrow, if_pos (by omega)] at hgrow
    exact absurd hgrow (by simp)
  obtain ⟨d, st1, region1, made, a, hmalloc, hregion1, -, -, ⟨region', hregion', htail⟩, hbuff,
    -⟩ := (shallocRegionGrow_cases hgrow).attached rfl hregion
  obtain ⟨hissued, hagree⟩ := hparent.served hinv hbelow hmalloc
  obtain rfl := Option.some.inj ((hagree.regions r hcover).trans hregion |>.symm.trans hregion1)
  refine ⟨hpos, d, st1, hmalloc, (hparent.bounds hissued _ List.mem_cons_self).2, ?_, hbuff⟩
  rw [hregion']
  exact htail

/-- A growth and the size of its buffer. -/
theorem SoundParent.buffInBlock_iff (htop : top ≤ 2 ^ 64) (hinv : inv blocks st)
    (hregion : st.regions r = some region) (hcover : Covers blocks r)
    (hbelow : region.request size < limit)
    (hgrow : shallocRegionGrow ops (shallocMalloc ops path) r size st = some (0, st')) :
    BuffInBlock ops path r size st st' ↔ SizeFits region size := by
  obtain ⟨hpos, d, st1, hmalloc, hroom, htail, hbuff⟩ :=
    hparent.grown hinv hregion hcover hbelow hgrow
  rw [← Region.cloneBuff_within_iff hpos (le_trans hroom htop)]
  constructor
  · rintro ⟨region', d', data, st1', hregion', hmalloc', -, hdata, hwithin⟩
    obtain rfl := Option.some.inj (hregion.symm.trans hregion')
    obtain ⟨hd, -⟩ := Prod.mk.inj (Option.some.inj (hmalloc.symm.trans hmalloc'))
    obtain rfl := Option.some.inj hd
    rw [hbuff, Option.some.injEq] at hdata
    rw [← hdata] at hwithin
    exact hwithin
  · intro hwithin
    exact ⟨region, d, _, st1, hregion, hmalloc, htail, hbuff, hwithin⟩

/-- A call on a region keeps what a rule that asks nothing of the pointers freed says. -/
theorem HeldCall.regionKept {P : ℕ} {held' : List ℕ} (hP : path.head? = some P)
    (rule : RegionRule ops top J Q fun _ _ => True) (h : RegionKept path inv J Q k r st chain)
    (hcall : HeldCall ops path limit r st held st' held') :
    ∃ k' chain', RegionKept path inv J Q k' r st' chain' := by
  cases hcall with
  | malloc hn hbelow hcall => exact ⟨_, _, h.malloc hparent rule hn hbelow hcall⟩
  | calloc hn hbelow hcall => exact ⟨_, _, h.calloc hparent rule hn hbelow hcall⟩
  | orealloc hn hbelow _ hcall =>
    exact ⟨_, _, h.orealloc hparent rule hn hbelow
      (fun _ _ _ _ _ _ _ _ _ _ _ _ _ _ => trivial) hcall⟩
  | free _ hcall => exact ⟨_, _, h.free hparent rule (fun _ _ _ _ _ _ _ => trivial) hcall⟩
  | reset hcall => exact ⟨_, _, h.reset hparent hP rule hcall⟩

end Growth

/-- The rule for buffers inside their blocks, whatever their allocators do. -/
theorem blockRule (htop : top ≤ 2 ^ 63) :
    RegionRule ops top (fun _ => GrownFits)
      (fun e data _ _ => Extent.Within ⟨data.start, data.size⟩ e) (fun _ _ => True) where
  top_le := le_trans htop (by decide)
  link h := ⟨h.lower, h.upper⟩
  room h hsize := (h.buffSize (by unfold sizeofBuff; omega)).2
  grown h _ _ hroom := h.grown htop hroom
  created := by
    intro k region size d a ret a' h hpos hsize hroom _ _
    have hfits : SizeFits region size := h.buffSize (by unfold sizeofBuff; omega)
    have hlen : region.request size = sizeofBuff + region.buffSize size := Word.wrap_of_lt hfits.2
    rw [← hlen] at hroom ⊢
    exact (Region.cloneBuff_within_iff hpos (by omega)).mpr hfits
  next _ h := h
  malloc h _ _ _ := h
  free h _ _ := h
  renew h _ _ _ := h

section Run

variable (hparent : SoundParent ops path top limit inv) (htop : top ≤ 2 ^ 52)
include hparent htop

theorem blockRun_kept (run : BlockRun ops path limit inv r st held) :
    (∃ P, path.head? = some P) ∧ ∃ k chain, RegionKept path inv (fun _ => GrownFits)
      (fun e data _ _ => Extent.Within ⟨data.start, data.size⟩ e) k r st chain := by
  have hrule : RegionRule ops top (fun _ => GrownFits)
      (fun e data _ _ => Extent.Within ⟨data.start, data.size⟩ e) (fun _ _ => True) :=
    blockRule (le_trans htop (by decide))
  induction run with
  | @create initSize buffSize blockSize flags type _ _ _ hinv hfits hinit hbelow hcall =>
    have hsize := hparent.create_size hinv htop (hfits.buffSize hinit).2 hbelow hcall
    exact ⟨shallocRegionCreate_path hcall, _, _,
      hparent.create hinv hfits hrule hsize hbelow hcall⟩
  | step _ hcall ih =>
    obtain ⟨⟨P, hP⟩, k, chain, h⟩ := ih
    exact ⟨⟨P, hP⟩, hcall.regionKept hparent hP hrule h⟩

end Run

end Shalloc
