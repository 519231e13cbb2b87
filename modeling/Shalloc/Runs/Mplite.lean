import Shalloc.Mplite.Fresh
import Shalloc.Region.Rule

/-!
# Growth of a region with the buddy allocator

A region of type MPLITE that cannot serve a request grows by a buffer of 2.1 times its size,
or of its default size, and asks the new buffer. What the buffer can serve at first is a
power of two of atoms, and what is left of it after the handle and the control bytes is not
always enough for the request.

## Main definitions

- `GrowthFits` — the new buffer is large enough for the request

## Main results

- `mplite_growth_serves_iff` — a request that has attached a buffer is served iff it fits
-/

namespace Shalloc

section Frame

variable {α : Type} {ops : BuffAllocType → BuffOp α} {st st' : Store α} {r : ℕ}

/-- A request to a region leaves the records of all others but its ancestors alone. -/
theorem shallocMalloc_regions (path : List ℕ) : ∀ {n : ℕ} {p : Option ℕ} {st st' : Store α},
    r ∉ path → shallocMalloc ops path n st = some (p, st') → st'.regions r = st.regions r := by
  induction path with
  | nil => exact fun _ h => absurd h (by simp [shallocMalloc])
  | cons P path ih =>
    intro n p st st' hnot hcall
    obtain ⟨hne, hrest⟩ : r ≠ P ∧ r ∉ path := by simpa using hnot
    have hset : ∀ (st : Store α) (region : Region), (st.setRegion P region).regions r =
        st.regions r := fun st region => Function.update_of_ne hne _ _
    have hcreate : ∀ {d ret} {st st' : Store α}, st.opCreate ops d = some (ret, st') →
        st'.regions = st.regions := by
      intro d ret st st' hop
      obtain ⟨_, _, -, -, rfl⟩ := Store.opCreate_eq_some.mp hop
      rfl
    have halloc : ∀ {size d} {st st' : Store α},
        AllocBuffCases ops (shallocMalloc ops path) P size st d st' →
        st'.regions r = st.regions r := by
      intro size d st st' h
      cases h with
      | refused _ _ hmalloc => exact ih hrest hmalloc
      | createFailed _ _ hmalloc _ hop _ hfree =>
        rw [(shallocFree_cases hfree).frame.1, hcreate hop]
        exact (ih hrest hmalloc :)
      | built _ _ hmalloc _ hop _ =>
        rw [hset, hcreate hop]
        exact (ih hrest hmalloc :)
    have hgrow : ∀ {size ret} {st st' : Store α},
        GrowCases ops (shallocMalloc ops path) P size st ret st' →
        st'.regions r = st.regions r := by
      intro size ret st st' h
      cases h with
      | fixed => rfl
      | failed _ _ h => exact halloc h
      | grown _ _ h hattach =>
        rw [← halloc h]
        cases hattach with
        | first => exact hset _ _
        | last => exact hset _ _
    have htail : ∀ {st st' : Store α},
        TailRefuses (fun t st => st.opMalloc ops t n) P st st' → st'.regions = st.regions := by
      intro st st' h
      cases h with
      | empty => rfl
      | refused _ _ hask => exact (Store.opMalloc_frame hask).1
    obtain ⟨-, -, rfl⟩ | ⟨-, hserve⟩ := shallocMalloc_cases hcall
    · rfl
    · cases hserve with
      | served _ _ hask => rw [(Store.opMalloc_frame hask).1]; rfl
      | notGrown hrefuses h _ => rw [hgrow h, htail hrefuses]; rfl
      | retried hrefuses h _ _ hask =>
        rw [(Store.opMalloc_frame hask).1, hgrow h, htail hrefuses]
        rfl

end Frame

section Growth

variable {σ : Type} {ops : BuffAllocType → BuffOp (AllocState (Mplite ⊕ σ))}
  {st : Store (AllocState (Mplite ⊕ σ))} {r s : ℕ} {path : List ℕ} {region : Region}

/-- How many blocks the allocator makes of a buffer that was asked for with `size` bytes: a
buffer has at least `SHALLOC_BUFF_MIN_SIZE` bytes, and the rest of it after the handle is
passed on as an `int`. -/
def mpliteBuffBlocks (size : ℕ) : ℕ :=
  mpliteNumBlocks (toInt32 ((max shallocBuffMinSize size - sizeofMplite : ℕ)))

/-- The buffer that the region grows by for a request of `s` bytes has as many blocks as the
request needs atoms, rounded up to a power of two. -/
def GrowthFits (region : Region) (s : ℕ) : Prop :=
  2 ^ mpliteLogsize s ≤ mpliteBuffBlocks (region.buffSize (shallocBuffAllocSize s))

instance (region : Region) (s : ℕ) : Decidable (GrowthFits region s) :=
  inferInstanceAs (Decidable (_ ≤ _))

theorem toInt32_lt (n : ℤ) : toInt32 n < 2 ^ 31 := by
  have hlt := Int.bmod_lt (x := n) (m := 2 ^ 32) (by decide)
  unfold toInt32
  omega

/-- A buffer that `_mplite_create` accepts has a fresh pool in it. -/
theorem mpliteCreate_fresh {buff : Buff} {a a' : AllocState (Mplite ⊕ σ)} {ret : ℤ}
    (h : mpliteCreate buff a = some (ret, a')) (hret : 0 ≤ ret) :
    0 < buff.start ∧ ∃ handle, a' = .other (.inl handle) ∧
      MpliteFresh (mpliteNumBlocks (toInt32 ((buff.size - sizeofMplite : ℕ)))) handle := by
  unfold mpliteCreate at h
  split at h
  · obtain ⟨rfl, -⟩ := Prod.mk.inj (Option.some.inj h)
    exact absurd hret (by decide)
  · simp only [bind, Option.bind_eq_some_iff, Prod.exists, Option.some.injEq, Prod.mk.injEq] at h
    obtain ⟨ret', handle', hinit, hret', rfl⟩ := h
    obtain ⟨-, hbad⟩ | ⟨hpos, -, handle, hgood, hfresh⟩ := mpliteInit_fresh (toInt32_lt _)
    · obtain ⟨rfl, -⟩ := Prod.mk.inj (Option.some.inj (hinit.symm.trans hbad))
      rw [← hret', if_neg (by decide)] at hret
      exact absurd hret (by decide)
    · obtain ⟨rfl, rfl⟩ := Prod.mk.inj (Option.some.inj (hinit.symm.trans hgood))
      exact ⟨hpos, handle', if_pos rfl, hfresh⟩

/-- The first request to a fresh pool. -/
theorem mpliteOpMalloc_fresh {n : ℕ} {handle : Mplite} (h : MpliteFresh n handle) (buff : Buff)
    (hpos : 0 < s) (hs : s < 2 ^ 28) :
    ∃ p a, mpliteOpMalloc buff s (AllocState.other (.inl handle) : AllocState (Mplite ⊕ σ)) =
      some (p, a) ∧ (p.isSome ↔ 2 ^ mpliteLogsize s ≤ n) := by
  have hint : toInt32 s = s := by
    unfold toInt32
    rw [Int.bmod_eq_of_le] <;> omega
  have hmax : s ≤ mpliteMaxAllocSize := by
    unfold mpliteMaxAllocSize
    omega
  obtain ⟨p, handle', hmalloc, hiff⟩ := h.malloc hpos hmax
  refine ⟨p, .other (.inl handle'), ?_, hiff⟩
  simp only [mpliteOpMalloc, hint, hmalloc, bind, Option.bind_some]

/-- **Growth of an MPLITE region.** If the tail buffer refuses a request and
`shalloc_region_grow` succeeds, then `shalloc_malloc` returns, and with a block iff the new
buffer is large enough for the request. -/
theorem mplite_growth_serves_iff (hops : ops .mplite = mpliteOps) (hr : r ∉ path)
    (hregion : st.regions r = some region) (htype : region.defaultData.allocType = .mplite)
    (hpos : 0 < s) (hs : s < 2 ^ 28) {st1 st2 : Store (AllocState (Mplite ⊕ σ))}
    (hrefuses : TailRefuses (fun t st => st.opMalloc ops t s) r (st.log (.request r s)) st1)
    (hgrow : shallocRegionGrow ops (shallocMalloc ops path) r (shallocBuffAllocSize s) st1 =
      some (0, st2)) :
    ∃ p st', shallocMalloc ops (r :: path) s st = some (p, st') ∧
      (p.isSome ↔ GrowthFits region s) := by
  have hregion1 : st1.regions r = some region := by
    cases hrefuses with
    | empty => exact hregion
    | refused _ _ hask => rw [(Store.opMalloc_frame hask).1]; exact hregion
  -- the new buffer, its descriptor and its pool
  obtain ⟨d, data, handle, hattached, hdata, hcell, hfresh⟩ : ∃ d data handle,
      (∃ region2, st2.regions r = some region2 ∧ region2.dataTail = some d) ∧
      (st2.buffs d = some data ∧ data.allocType = .mplite) ∧
      st2.cells data.start = .other (.inl handle) ∧
      MpliteFresh (mpliteBuffBlocks (region.buffSize (shallocBuffAllocSize s))) handle := by
    obtain ⟨d, st3, region1, made, a, hmalloc, hregion2, hmade, hop, htail, hbuff, hcell⟩ :=
      (shallocRegionGrow_cases hgrow).attached rfl hregion1
    rw [shallocMalloc_regions path hr hmalloc, hregion1] at hregion2
    obtain rfl := Option.some.inj hregion2
    have htype' := (region.cloneBuff_allocType d
      (region.buffSize (shallocBuffAllocSize s))).trans htype
    rw [htype', hops] at hop
    obtain ⟨hstart, handle, rfl, hfresh⟩ := mpliteCreate_fresh hop hmade
    refine ⟨d, _, handle, htail, ⟨hbuff, htype'⟩, hcell, ?_⟩
    have hsize : (region.cloneBuff d (region.buffSize (shallocBuffAllocSize s))).size =
        max shallocBuffMinSize (region.buffSize (shallocBuffAllocSize s)) := by
      simp only [Region.cloneBuff, shallocCloneBuff, shallocGetBuff] at hstart ⊢
      split <;> omega
    rw [hsize] at hfresh
    exact hfresh
  obtain ⟨region2, hregion2, htail⟩ := hattached
  have hcall : shallocMalloc ops (r :: path) s st = st2.opMalloc ops d s := by
    rw [shallocMalloc, if_neg (Nat.pos_iff_ne_zero.mp hpos)]
    exact hrefuses.serve_grown hgrow hregion2 htail
  obtain ⟨p, a, hmalloc, hiff⟩ := mpliteOpMalloc_fresh (σ := σ) hfresh data hpos hs
  have hserved : st2.opMalloc ops d s =
      some (p, (st2.setCell data.start a).log (.malloc d s p)) := by
    apply Store.opMalloc_eq_some.mpr
    refine ⟨data, a, hdata.1, ?_, rfl⟩
    rw [hdata.2, hops, hcell]
    exact hmalloc
  exact ⟨p, _, hcall.trans hserved, hiff⟩

end Growth

section Heap

/-- The buddy allocator in a heap, beside allocators that are not used. -/
def mpliteHeapOps : BuffAllocType → BuffOp (AllocState (Mplite ⊕ Unit)) :=
  shallocBuffOps fun _ =>
    { create := fun _ _ => none, destroy := fun _ _ => none, malloc := fun _ _ _ => none
      free := fun _ _ _ => none }

/-- A heap of 64 KiB before its buffer is set up. -/
def mpliteHeapStore : Store (AllocState (Mplite ⊕ Unit)) where
  regions r := if r = 4096 then some heapRegion else none
  buffs b := if b = 4112 then some heapBuff else none
  cells _ := .other (.inl Mplite.raw)
  trace := []

/-- The heap, and a region of type MPLITE in it that is asked for `s` bytes. -/
structure MpliteGrowth (s : ℕ) (ret : ℤ) (p : Option ℕ) (size : ℕ)
    (st0 st st2 st3 : Store (AllocState (Mplite ⊕ Unit))) (region : Region) : Prop where
  heap : mpliteHeapStore.opCreate mpliteHeapOps 4112 = some (0, st0)
  created : shallocRegionCreate mpliteHeapOps [4096] 0 0 0 0 .mplite st0 = some (some 72408, st)
  record : st.regions 72408 = some region
  type : region.defaultData.allocType = .mplite
  size : region.buffSize (shallocBuffAllocSize s) = size
  tail : region.dataTail = none
  grown : shallocRegionGrow mpliteHeapOps (shallocMalloc mpliteHeapOps [4096]) 72408
    (shallocBuffAllocSize s) (st.log (.request 72408 s)) = some (ret, st2)
  served : shallocMalloc mpliteHeapOps [72408, 4096] s st = some (p, st3)

/-- The same as one run. -/
def mpliteGrowth (s : ℕ) : Option (ℤ × Option ℕ × ℕ × Option ℕ) := do
  let (made, st0) ← mpliteHeapStore.opCreate mpliteHeapOps 4112
  let (r, st) ← shallocRegionCreate mpliteHeapOps [4096] 0 0 0 0 .mplite st0
  let region ← st.regions 72408
  guard (made = 0 ∧ r = some 72408 ∧ region.defaultData.allocType = .mplite)
  let (ret, _) ← shallocRegionGrow mpliteHeapOps (shallocMalloc mpliteHeapOps [4096]) 72408
    (shallocBuffAllocSize s) (st.log (.request 72408 s))
  let (p, _) ← shallocMalloc mpliteHeapOps [72408, 4096] s st
  some (ret, region.dataTail, region.buffSize (shallocBuffAllocSize s), p)

theorem mpliteGrowth_steps {s size : ℕ} {ret : ℤ} {p : Option ℕ}
    (h : mpliteGrowth s = some (ret, none, size, p)) :
    ∃ st0 st st2 st3 region, MpliteGrowth s ret p size st0 st st2 st3 region := by
  simp only [mpliteGrowth, bind, Option.bind_eq_some_iff, Prod.exists, Option.some.injEq,
    Prod.mk.injEq, Option.guard_eq_some'] at h
  obtain ⟨_, st0, hheap, _, st, hcreate, region, hregion, _, ⟨rfl, rfl, htype⟩, _, st2, hgrow, _,
    st3, hmalloc, rfl, htail, hsize, rfl⟩ := h
  exact ⟨st0, st, st2, st3, region, hheap, hcreate, hregion, htype, hsize, htail, hgrow, hmalloc⟩

/-- A request of 2048 bytes fits the buffer that the region grows by. -/
theorem mplite_growth_serves_fit :
    ∃ st0 st p st', mpliteHeapStore.opCreate mpliteHeapOps 4112 = some (0, st0) ∧
      shallocRegionCreate mpliteHeapOps [4096] 0 0 0 0 .mplite st0 = some (some 72408, st) ∧
      shallocMalloc mpliteHeapOps [72408, 4096] 2048 st = some (p, st') ∧ p.isSome := by
  obtain ⟨st0, st, st2, _, region, h⟩ := mpliteGrowth_steps
    (show mpliteGrowth 2048 = some (0, none, 4300, some 57840) by
      decide +kernel)
  have hr : 72408 ∉ [4096] := by decide
  obtain ⟨p, st', hmalloc, hiff⟩ := mplite_growth_serves_iff (s := 2048)
    (show mpliteHeapOps .mplite = mpliteOps from rfl) hr h.record h.type (by decide) (by decide)
    (.empty h.record h.tail) h.grown
  exact ⟨st0, st, p, st', h.heap, h.created, hmalloc,
    hiff.mpr (by rw [GrowthFits, h.size]; decide)⟩

/-- One byte more takes twice as many atoms, and the buffer has too few. -/
theorem not_mplite_growth_serves :
    ¬ ∀ (st0 st st1 st2 : Store (AllocState (Mplite ⊕ Unit))) (r s initSize size flags : ℕ),
      mpliteHeapStore.opCreate mpliteHeapOps 4112 = some (0, st0) →
      shallocRegionCreate mpliteHeapOps [4096] initSize size 0 flags .mplite st0 =
        some (some r, st) → hasFlag flags .nonResizable = false → 0 < s → s < 2 ^ 28 →
      TailRefuses (fun t st => st.opMalloc mpliteHeapOps t s) r (st.log (.request r s)) st1 →
      shallocRegionGrow mpliteHeapOps (shallocMalloc mpliteHeapOps [4096]) r
        (shallocBuffAllocSize s) st1 = some (0, st2) →
      ∃ p st', shallocMalloc mpliteHeapOps [r, 4096] s st = some (some p, st') := by
  intro h
  obtain ⟨st0, st, st2, _, region, hrun⟩ := mpliteGrowth_steps
    (show mpliteGrowth 2049 = some (0, none, 4302, none) by
      decide +kernel)
  obtain ⟨p, st', hserved⟩ := h st0 st _ st2 72408 2049 0 0 0 hrun.heap hrun.created (by decide)
    (by decide) (by decide) (.empty hrun.record hrun.tail) hrun.grown
  have hnone := hrun.served
  rw [hserved] at hnone
  exact absurd (congrArg Prod.fst (Option.some.inj hnone)) (by simp)

end Heap

end Shalloc
