import Shalloc.Mplite.Pool
import Shalloc.Runs.Mplite

/-!
# The size of a block of the buddy allocator

`_mplite_malloc` hands its `size_t` on as an `int`, so that the allocator sees the size modulo
`2 ^ 32`. The block that it hands out is as large as the size that it saw.

## Main definitions

- `mpliteCapacity` — the size of a block, as its control byte tells it
- `MpliteUsed` — an MPLITE buffer at any time after `_mplite_create` has set it up
- `TailBuff` — the buffer that a region asks

## Main results

- `mplite_capacity_iff` — the block of a request is large enough iff the size is below `2 ^ 32`
-/

namespace Shalloc

variable {σ : Type} {n p : ℕ}

/-- How many bytes the block at `p` has, as its control byte tells it. -/
def mpliteCapacity (handle : Mplite) (p : ℕ) : ℕ :=
  handle.szAtom * 2 ^ (handle.aCtrl ((p - handle.zPool) / handle.szAtom) &&& mpliteCtrlLogsize)

/-- The allocator of a buffer that `_mplite_create` has set up, after any requests, frees, and
writes of users to the atoms, where the links of free chunks are. -/
inductive MpliteUsed : AllocState (Mplite ⊕ σ) → Prop
  | create {buff : Buff} {a a' : AllocState (Mplite ⊕ σ)} {ret : ℤ} :
      mpliteCreate buff a = some (ret, a') → 0 ≤ ret → MpliteUsed a'
  | malloc {buff : Buff} {n : ℕ} {p : Option ℕ} {a a' : AllocState (Mplite ⊕ σ)} :
      MpliteUsed a → mpliteOpMalloc buff n a = some (p, a') → MpliteUsed a'
  | free {buff : Buff} {p : ℕ} {a a' : AllocState (Mplite ⊕ σ)} :
      MpliteUsed a → mpliteOpFree buff p a = some a' → MpliteUsed a'
  | write {handle : Mplite} {links : ℕ → MpliteLink} : MpliteUsed (.other (.inl handle)) →
      MpliteUsed (.other (.inl { handle with links := links }))

section Buffer

variable {a a' : AllocState (Mplite ⊕ σ)} {handle handle' : Mplite}

/-- A request leaves the pool where it is, -/
theorem mpliteMalloc_place {nBytes : ℤ} {p : Option ℕ}
    (h : mpliteMalloc nBytes handle = some (p, handle')) : handle'.place = handle.place := by
  unfold mpliteMalloc at h
  split at h
  · rw [(Prod.mk.inj (Option.some.inj h)).2]
  · exact mpliteMallocUnsafe_place h

/-- and so does a free. -/
theorem mpliteFree_place {pPrior : ℕ} (h : mpliteFree pPrior handle = some handle') :
    handle'.place = handle.place := by
  unfold mpliteFree at h
  split at h
  · rw [Option.some.inj h]
  · unfold mpliteFreeUnsafe at h
    simp only at h
    split at h
    · split at h
      · simp only [bind, Option.bind_eq_some_iff, Prod.exists] at h
        obtain ⟨c, l, handle2, hmerge, hlink⟩ := h
        have hmerged := mpliteMerge_place _ hmerge
        exact (mpliteLink_place hlink).trans hmerged
      · exact absurd h (by simp)
    · exact absurd h (by simp)

/-- An MPLITE buffer is cut into atoms of 64 bytes. -/
theorem MpliteUsed.atom (h : MpliteUsed a) :
    ∃ handle, a = .other (.inl handle) ∧ handle.szAtom = 64 := by
  induction h with
  | create h hret =>
    obtain ⟨-, handle, rfl, hfresh⟩ := mpliteCreate_fresh h hret
    exact ⟨handle, rfl, hfresh.atom⟩
  | malloc _ h ih =>
    obtain ⟨handle, rfl, hatom⟩ := ih
    simp only [mpliteOpMalloc, bind, Option.bind_eq_some_iff, Prod.exists, Option.some.injEq,
      Prod.mk.injEq] at h
    obtain ⟨_, handle', hmalloc, -, rfl⟩ := h
    have hplace := congrArg Prod.fst (mpliteMalloc_place hmalloc)
    exact ⟨handle', rfl, hplace.trans hatom⟩
  | free _ h ih =>
    obtain ⟨handle, rfl, hatom⟩ := ih
    obtain ⟨handle', hfree, rfl⟩ := Option.map_eq_some_iff.mp h
    have hplace := congrArg Prod.fst (mpliteFree_place hfree)
    exact ⟨handle', rfl, hplace.trans hatom⟩
  | write _ ih =>
    obtain ⟨handle, hhandle, hatom⟩ := ih
    obtain rfl := Sum.inl.inj (AllocState.other.inj hhandle)
    exact ⟨_, rfl, hatom⟩

/-- A block that `mplite_malloc_unsafe` hands out has the least size that is a power of two of
atoms and large enough. -/
theorem mpliteMallocUnsafe_capacity (hatom : handle.szAtom = 64)
    (h : mpliteMallocUnsafe n handle = some (some p, handle')) :
    n ≤ mpliteMaxAllocSize ∧ mpliteCapacity handle' p = 64 * 2 ^ mpliteLogsize n := by
  obtain ⟨maxRequest, ⟨hp, -⟩ | ⟨k, iBin, i, handle1, handle2, hp, hmax, hfull, hbin, hlog,
    hunlink, hsplit, rfl⟩⟩ := mpliteMallocUnsafe_cases h
  · exact absurd hp (by simp)
  · obtain rfl := Option.some.inj hp
    have hsmall : mpliteLogsize n ≤ 24 := le_mpliteLogsize.mp hmax
    have hexact := mpliteFullSzLoop_eq n 32 0 (Nat.zero_le _) (by omega)
    rw [hatom] at hfull
    obtain ⟨-, rfl⟩ := Prod.mk.inj (Option.some.inj (hfull.symm.trans hexact))
    have hunlinked := mpliteUnlinkFirst_place hunlink
    have hplace : handle2.place = handle.place := (mpliteSplit_place hsplit).trans hunlinked
    obtain ⟨hatom2, hpool2⟩ : handle2.szAtom = 64 ∧ handle2.zPool = handle.zPool :=
      ⟨(congrArg Prod.fst hplace).trans hatom, congrArg (fun place => place.2.2) hplace⟩
    -- the index of the block is the one that its control byte was written at
    have hindex : (handle.zPool + i * handle.szAtom - handle2.zPool) / 64 = i := by
      rw [hpool2, hatom, Nat.add_sub_cancel_left, Nat.mul_div_cancel _ (by decide)]
    refine ⟨hmax, ?_⟩
    simp only [mpliteCapacity, mpliteCount, Mplite.setCtrl, hatom2, hindex, Function.update_self]
    rw [(mpliteCtrl_live (hbin.trans hlog)).1]

/-- **A request to an MPLITE buffer** that is served gets a block that is large enough iff the
size fits 32 bits. -/
theorem MpliteUsed.capacity_iff {buff : Buff} (h : MpliteUsed a)
    (hcall : mpliteOpMalloc buff n a = some (some p, a')) :
    ∃ handle, a' = .other (.inl handle) ∧ (n ≤ mpliteCapacity handle p ↔ n < 2 ^ 32) := by
  obtain ⟨handle, rfl, hatom⟩ := h.atom
  simp only [mpliteOpMalloc, bind, Option.bind_eq_some_iff, Prod.exists, Option.some.injEq,
    Prod.mk.injEq] at hcall
  obtain ⟨_, handle', hmalloc, rfl, rfl⟩ := hcall
  refine ⟨handle', rfl, ?_⟩
  unfold mpliteMalloc at hmalloc
  split at hmalloc
  · exact absurd (Prod.mk.inj (Option.some.inj hmalloc)).1 (by simp)
  · next hpos =>
    obtain ⟨hmax, hcapacity⟩ := mpliteMallocUnsafe_capacity hatom hmalloc
    have hle : (toInt32 n).toNat ≤ 64 * 2 ^ mpliteLogsize (toInt32 n).toNat :=
      le_mpliteLogsize.mpr le_rfl
    have hsmall : 64 * 2 ^ mpliteLogsize (toInt32 n).toNat ≤ 64 * 2 ^ 24 :=
      Nat.mul_le_mul_left 64 (Nat.pow_le_pow_right (by decide) (le_mpliteLogsize.mp hmax))
    rw [hcapacity]
    refine ⟨fun hfits => lt_of_le_of_lt (hfits.trans hsmall) (by decide), fun hn => ?_⟩
    -- a size below `2 ^ 32` is seen as it is, or as a negative number
    have hseen : toInt32 n = n := by
      unfold toInt32 at hpos ⊢
      by_cases hhalf : n < 2 ^ 31
      · rw [Int.bmod_eq_of_le] <;> omega
      · rw [Int.bmod_def] at hpos
        omega
    rw [hseen, Int.toNat_natCast] at hle ⊢
    exact hle

end Buffer

section Region

variable {ops : BuffAllocType → BuffOp (AllocState (Mplite ⊕ σ))}
  {st st' : Store (AllocState (Mplite ⊕ σ))} {r size : ℕ} {path : List ℕ} {buff : Buff}

/-- The buffer that region `r` asks. -/
def TailBuff {α : Type} (st : Store α) (r : ℕ) (buff : Buff) : Prop :=
  ∃ region t, st.regions r = some region ∧ region.dataTail = some t ∧ st.buffs t = some buff

/-- The buffers of type MPLITE that region `r` asks were set up, and used by their operations. -/
def MpliteTailUsed (st : Store (AllocState (Mplite ⊕ σ))) (r : ℕ) : Prop :=
  ∀ buff, TailBuff st r buff → buff.allocType = .mplite → MpliteUsed (st.cells buff.start)

/-- The block `p` for a request of `size` bytes is in the tail buffer, and if that is of type
MPLITE, the block is large enough iff the size fits 32 bits. -/
def CapacityFits (st : Store (AllocState (Mplite ⊕ σ))) (r size p : ℕ) : Prop :=
  ∃ buff, TailBuff st r buff ∧ (buff.allocType = .mplite → ∃ handle,
    st.cells buff.start = .other (.inl handle) ∧ (size ≤ mpliteCapacity handle p ↔ size < 2 ^ 32))

/-- The tail buffer is asked. -/
theorem MpliteTailUsed.ask {region : Region} {t : ℕ} (hops : ops .mplite = mpliteOps)
    (h : MpliteTailUsed st r) (hregion : st.regions r = some region)
    (ht : region.dataTail = some t) (hcall : st.opMalloc ops t size = some (some p, st')) :
    CapacityFits st' r size p := by
  obtain ⟨buff, a, hbuff, hop, rfl⟩ := Store.opMalloc_eq_some.mp hcall
  refine ⟨buff, ⟨region, t, hregion, ht, hbuff⟩, fun htype => ?_⟩
  rw [htype, hops] at hop
  have hcall : mpliteOpMalloc buff size (st.cells buff.start) = some (some p, a) := hop
  obtain ⟨handle, rfl, hiff⟩ := (h buff ⟨region, t, hregion, ht, hbuff⟩ htype).capacity_iff hcall
  exact ⟨handle, Function.update_self .., hiff⟩

/-- The one buffer of a heap was set up when the heap was. -/
theorem MpliteTailUsed.created {region : Region} {d : ℕ} {ret : ℤ} (hops : ops .mplite = mpliteOps)
    (hregion : st.regions r = some region) (ht : region.dataTail = some d)
    (hcreate : st.opCreate ops d = some (ret, st')) (hret : 0 ≤ ret) : MpliteTailUsed st' r := by
  obtain ⟨data, a, hdata, hop, rfl⟩ := Store.opCreate_eq_some.mp hcreate
  rintro buff ⟨region', t, hregion', ht', hbuff⟩ htype
  obtain rfl := Option.some.inj (hregion.symm.trans hregion')
  obtain rfl := Option.some.inj (ht.symm.trans ht')
  obtain rfl := Option.some.inj (hdata.symm.trans hbuff)
  rw [htype, hops] at hop
  have hcell : ((st.setCell data.start a).log (.create d ret)).cells data.start = a :=
    Function.update_self ..
  rw [hcell]
  exact .create hop hret

/-- A buffer that a region has just added was set up. -/
theorem GrowCases.tailUsed {parentMalloc : ℕ → Store (AllocState (Mplite ⊕ σ)) →
      Option (Option ℕ × Store (AllocState (Mplite ⊕ σ)))}
    (hops : ops .mplite = mpliteOps) (h : GrowCases ops parentMalloc r size st 0 st') :
    MpliteTailUsed st' r := by
  obtain ⟨region, hregion⟩ : ∃ region, st.regions r = some region := by
    cases h with
    | grown hregion => exact ⟨_, hregion⟩
  obtain ⟨d, st1, region1, made, a, -, -, hmade, hop, ⟨region', hregion', htail⟩, hbuff, hcell⟩ :=
    h.attached rfl hregion
  rintro buff ⟨region2, t, hregion2, ht, hbuff2⟩ htype
  obtain rfl := Option.some.inj (hregion'.symm.trans hregion2)
  obtain rfl := Option.some.inj (htail.symm.trans ht)
  obtain rfl := Option.some.inj (hbuff.symm.trans hbuff2)
  rw [show (region1.cloneBuff d (region.buffSize size)).allocType = .mplite from htype, hops] at hop
  rw [show st'.cells _ = a from hcell]
  exact .create hop hmade

/-- A block that `shalloc_malloc` returns. -/
theorem MpliteTailUsed.malloc (hops : ops .mplite = mpliteOps) (h : MpliteTailUsed st r)
    (hcall : shallocMalloc ops (r :: path) size st = some (some p, st')) :
    CapacityFits st' r size p := by
  obtain ⟨-, hp, -⟩ | ⟨-, hserve⟩ := shallocMalloc_cases hcall
  · exact absurd hp (by simp)
  · cases hserve with
    | served hregion ht hask =>
      have hlog : MpliteTailUsed (st.log (.request r size)) r := h
      exact hlog.ask hops hregion ht hask
    | retried _ hgrow hregion ht hask => exact (hgrow.tailUsed hops).ask hops hregion ht hask

/-- **The size of a block.** A block that `shalloc_malloc`, or the request inside of
`shalloc_orealloc`, gets from a buffer of type MPLITE has at least the size that was asked for
iff that size is below `2 ^ 32`. -/
theorem mplite_capacity_iff (hops : ops .mplite = mpliteOps) (hused : MpliteTailUsed st r) :
    (∀ {p st'}, shallocMalloc ops (r :: path) size st = some (some p, st') →
      CapacityFits st' r size p) ∧
    ∀ {ptr p oldSize st'}, ptr = none ∨ oldSize < size →
      shallocOrealloc ops (r :: path) ptr size oldSize st = some (some p, st') →
      ∃ st1, shallocMalloc ops (r :: path) size st = some (some p, st1) ∧
        CapacityFits st1 r size p := by
  refine ⟨fun hcall => hused.malloc hops hcall, fun hmoves hcall => ?_⟩
  cases shallocOrealloc_cases hcall with
  | fresh hmalloc => exact ⟨_, hmalloc, hused.malloc hops hmalloc⟩
  | kept _ hle =>
    rcases hmoves with hnone | hlt
    · exact absurd hnone (by simp)
    · omega
  | moved _ hmalloc _ => exact ⟨_, hmalloc, hused.malloc hops hmalloc⟩

end Region

section Heap

/-- The heap of 64 KiB is set up, and then asked for `s` bytes. -/
def mpliteHeapCall (s : ℕ) : Option (ℤ × Option ℕ) := do
  let (made, st0) ← mpliteHeapStore.opCreate mpliteHeapOps 4112
  let (p, _) ← shallocMalloc mpliteHeapOps [4096] s st0
  some (made, p)

theorem mpliteHeapCall_steps {s p : ℕ} (h : mpliteHeapCall s = some (0, some p)) :
    ∃ st0 st', mpliteHeapStore.opCreate mpliteHeapOps 4112 = some (0, st0) ∧
      MpliteTailUsed st0 4096 ∧ shallocMalloc mpliteHeapOps [4096] s st0 = some (some p, st') ∧
      TailBuff st' 4096 heapBuff := by
  simp only [mpliteHeapCall, bind, Option.bind_eq_some_iff, Prod.exists, Option.some.injEq,
    Prod.mk.injEq] at h
  obtain ⟨_, st0, hcreate, _, st', hmalloc, rfl, rfl⟩ := h
  refine ⟨st0, st', hcreate, .created rfl rfl rfl hcreate le_rfl, hmalloc, ?_⟩
  -- neither call writes a record or a descriptor
  obtain ⟨hregion, hbuff⟩ : st0.regions 4096 = some heapRegion ∧
      st0.buffs 4112 = some heapBuff := by
    obtain ⟨data, a, -, -, rfl⟩ := Store.opCreate_eq_some.mp hcreate
    exact ⟨rfl, rfl⟩
  obtain ⟨hp, -⟩ | ⟨-, a', -, rfl⟩ := shallocMalloc_fixed hregion rfl hbuff (by decide) hmalloc
  · exact absurd hp (by simp)
  · exact ⟨heapRegion, 4112, hregion, rfl, hbuff⟩

/-- A block of 100 bytes from the heap is large enough. -/
theorem mplite_capacity_small : ∃ st0 p st',
    mpliteHeapStore.opCreate mpliteHeapOps 4112 = some (0, st0) ∧
      shallocMalloc mpliteHeapOps [4096] 100 st0 = some (some p, st') ∧
      CapacityFits st' 4096 100 p := by
  obtain ⟨st0, st', hcreate, hused, hmalloc, -⟩ :=
    mpliteHeapCall_steps (show mpliteHeapCall 100 = some (0, some 72408) by decide +kernel)
  exact ⟨st0, 72408, st', hcreate, hmalloc, (mplite_capacity_iff rfl hused).1 hmalloc⟩

/-- A request for one byte more than 4 GiB gets a block of one atom. -/
theorem not_mplite_capacity :
    ¬ ∀ (st0 st' : Store (AllocState (Mplite ⊕ Unit))) (size p : ℕ),
      mpliteHeapStore.opCreate mpliteHeapOps 4112 = some (0, st0) → MpliteTailUsed st0 4096 →
      size < 2 ^ 64 → shallocMalloc mpliteHeapOps [4096] size st0 = some (some p, st') →
      ∀ buff, TailBuff st' 4096 buff → buff.allocType = .mplite → ∃ handle,
        st'.cells buff.start = .other (.inl handle) ∧ size ≤ mpliteCapacity handle p := by
  intro h
  obtain ⟨st0, st', hcreate, hused, hmalloc, htail⟩ :=
    mpliteHeapCall_steps (show mpliteHeapCall (2 ^ 32 + 1) = some (0, some 72408) by decide +kernel)
  obtain ⟨handle, hcell, hfits⟩ := h st0 st' _ _ hcreate hused
    (by decide) hmalloc heapBuff htail rfl
  obtain ⟨buff, ⟨region, t, hregion, ht, hbuff⟩, hblock⟩ := hused.malloc rfl hmalloc
  obtain ⟨region', t', hregion', ht', hbuff'⟩ := htail
  obtain rfl := Option.some.inj (hregion'.symm.trans hregion)
  obtain rfl := Option.some.inj (ht'.symm.trans ht)
  obtain rfl := Option.some.inj (hbuff'.symm.trans hbuff)
  obtain ⟨handle', hcell', hiff⟩ := hblock rfl
  obtain rfl := Sum.inl.inj (AllocState.other.inj (hcell.symm.trans hcell'))
  exact absurd (hiff.mp hfits) (by decide)

end Heap

end Shalloc
