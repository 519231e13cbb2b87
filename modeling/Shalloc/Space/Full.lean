import Shalloc.Runs.MpliteHeap
import Shalloc.Space.Private

/-!
# A space that is full

`shalloc_heap_create` tests whether the new heap fits with the sum of two addresses, after
an `assert` that the first of them lies in the space. It returns NULL without a trace when
the space has some room left and the sum does not wrap.

## Main definitions

- `MpliteConfig` — the private heap is an MPLITE buffer
- `CleanNull` — what a clean refusal leaves alone
- `RefusesCleanly` — `shalloc_heap_create` returns NULL cleanly
- `SeesFull` — the test of `shalloc_heap_create` sees that the heap does not fit

## Main results

- `MpliteConfig.privateOp` — the buddy allocator keeps the contract of the private heap
- `heapCreate_full_iff` — when a heap that does not fit is refused cleanly
-/

namespace Shalloc

variable {α : Type} {cfg : SpaceConfig α} {m m' : Machine α} {ptr : HeapPtr}
  {rep : Buff → List Extent → α → Prop} {size mmapFlags : ℕ} {type : BuffAllocType}

open Machine

/-- No system call was made, the record of the space and the number of heaps in the control
page are the same, and so are the blocks in use in the private heap. -/
structure CleanNull (m m' : Machine α) : Prop where
  calls : m'.proc.calls = m.proc.calls
  space : m'.proc.space = m.proc.space
  numHeaps : m'.shared.magic.numHeaps = m.shared.magic.numHeaps
  live : liveBlocks (privDataAddr m.proc.space.privHeap) m'.proc.store.trace =
    liveBlocks (privDataAddr m.proc.space.privHeap) m.proc.store.trace

/-- `shalloc_heap_create` returns NULL and does not abort. -/
def RefusesCleanly (cfg : SpaceConfig α) (size mmapFlags : ℕ) (type : BuffAllocType)
    (m : Machine α) : Prop :=
  ∃ m', shallocHeapCreate cfg size mmapFlags type m = some (none, m') ∧ CleanNull m m'

/-- The space has room left, and the end of a heap of `baseSize` bytes does not wrap. -/
def SeesFull (space : Space) (baseSize : ℕ) : Prop :=
  0 < space.data.unusedSize ∧ shallocSpaceNextAddr space + baseSize < 2 ^ 64

section Mplite

variable {σ : Type}

/-- The first word of a block that was taken back: the links of a chunk that is on a list of
free chunks, or the word that was there. -/
def mpliteFreedWord (a : AllocState (Mplite ⊕ σ)) (addr old : ℕ) : ℕ :=
  match a with
  | .other (.inl handle) =>
    let i := (addr - handle.zPool) / handle.szAtom
    if handle.aCtrl i &&& mpliteCtrlFree ≠ 0 then
      ((handle.links i).next % 2 ^ 32).toNat + 2 ^ 32 * ((handle.links i).prev % 2 ^ 32).toNat
    else old
  | _ => old

/-- The private heap is an MPLITE buffer, and fresh memory holds no pool. -/
structure MpliteConfig (cfg : SpaceConfig (AllocState (Mplite ⊕ σ))) : Prop where
  ops : cfg.ops .mplite = mpliteOps
  blank : ∀ handle, cfg.blank = .other (.inl handle) → handle.nBlock = 0
  freedWord : cfg.freedWord = mpliteFreedWord

/-- The buddy allocator keeps the contract of the private heap. -/
theorem MpliteConfig.privateOp {cfg : SpaceConfig (AllocState (Mplite ⊕ σ))}
    (h : MpliteConfig cfg) : PrivateOp (cfg.ops .mplite) MpliteServes := by
  rw [h.ops]
  exact
    { sound := mpliteServes_sound.headless.below (by decide)
      created := fun hpages hsmall hcreate =>
        mpliteCreate_serves (Nat.dvd_trans (by decide) hpages) (by omega) hcreate le_rfl
      frees := mpliteServes_free }

/-- A configuration with guard pages, in which the memory of a fresh page holds no pool. -/
def mpliteConfig : SpaceConfig (AllocState (Mplite ⊕ Unit)) where
  ops := mpliteHeapOps
  guardPages := true
  blank := .other (.inr ())
  freedWord := mpliteFreedWord

theorem mpliteConfig_ok : MpliteConfig mpliteConfig :=
  ⟨rfl, fun _ h => absurd h (by simp [mpliteConfig]), rfl⟩

end Mplite

section Refused

/-- The size of the record that `shalloc_get_heap` fills in. -/
theorem shallocGetHeap_baseSize (cfg : SpaceConfig α) (self addr mmapFlags : ℕ) (old : Heap)
    (type : BuffAllocType) (hsize : 0 < size) :
    ∃ got, shallocGetHeap cfg.guardPages self old addr size mmapFlags type = some got ∧
      got.base.size = shallocHeapBaseSize cfg.guardPages (shallocHeapPages size) := by
  refine ⟨_, if_neg (Nat.pos_iff_ne_zero.mp hsize), ?_⟩
  obtain ⟨hpages, hpos⟩ := shallocHeapPages_spec hsize
  obtain ⟨hdata, hdataPos⟩ := shallocHeapDataSize_spec cfg.guardPages hpages hpos
  apply shallocGetBuff_size
  have hle : shallocBuffMinSize ≤ shallocHeapDataSize cfg.guardPages (shallocHeapPages size) :=
    Nat.le_trans (by decide) (Nat.le_of_dvd hdataPos hdata)
  unfold shallocHeapBaseSize
  split
  · exact Nat.le_add_right_of_le hle
  · exact hle

/-- A free of a record in the private heap. -/
theorem PrivateHeap.privFree {guardPages : Bool} {blocks : List Extent} {e : Extent}
    (hop : PrivateOp (cfg.ops .mplite) rep)
    (h : PrivateHeap rep guardPages m.proc.space.privHeap blocks m) (he : e ∈ blocks) :
    ∃ m', shallocPrivFree cfg (.priv e.ptr) m = some m' ∧ m'.proc.calls = m.proc.calls ∧
      m'.proc.space = m.proc.space ∧
      m'.shared.magic.numHeaps = m.shared.magic.numHeaps ∧
      liveBlocks (privDataAddr m.proc.space.privHeap) m'.proc.store.trace =
        releaseBlock e.ptr
          (liveBlocks (privDataAddr m.proc.space.privHeap) m.proc.store.trace) := by
  obtain ⟨st, hfree, hlive⟩ := h.free hop he
  have hcell : ∃ cell, (m.withStore st).heapCell ((m.withStore st).heap
      (.priv m.proc.space.privHeap)) = some cell := by
    rw [heap_withStore, heapCell, h.own]
    exact ⟨_, rfl⟩
  obtain ⟨cell, hcell⟩ := hcell
  have haddr : m.heapAddr (.priv e.ptr) = e.ptr := rfl
  have hcall : ∃ heap, shallocPrivFree cfg (.priv e.ptr) m =
      some ((m.withStore st).setHeap (.priv e.ptr) heap) := by
    simp only [shallocPrivFree, bind, haddr, hfree, Option.bind_some]
    rw [hcell]
    exact ⟨_, rfl⟩
  obtain ⟨heap, hcall⟩ := hcall
  exact ⟨_, hcall, rfl, rfl, rfl, hlive⟩

/-- A record that was just allocated can be given back, whatever was written to it. -/
theorem PrivateOk.unalloc {m1 : Machine α} (hop : PrivateOp (cfg.ops .mplite) rep)
    (h : PrivateOk cfg rep m) (halloc : shallocHeapAlloc cfg mmapFlags m = some (ptr, m1))
    (got : Heap) : ∃ m', shallocHeapUnalloc cfg ptr mmapFlags (m1.setHeap ptr got) = some m' ∧
      CleanNull m m' := by
  obtain ⟨-, -, hptr, -⟩ := h.alloc hop.privateSound halloc
  by_cases hinherit : mapInherit mmapFlags = true
  · -- the entry of the control page is no longer counted
    simp only [shallocHeapAlloc, if_pos hinherit] at halloc
    split at halloc
    · obtain ⟨rfl, rfl⟩ := Prod.mk.inj (Option.some.inj halloc)
      refine ⟨_, if_pos hinherit, ?_⟩
      exact ⟨rfl, rfl, Int.add_sub_cancel _ _, rfl⟩
    · exact absurd halloc (by simp)
  · obtain ⟨blocks, hpriv, hself⟩ := h.heap
    simp only [shallocHeapAlloc, if_neg hinherit, bind, Option.bind_eq_some_iff, Prod.exists,
      Option.some.injEq, Prod.mk.injEq] at halloc
    obtain ⟨_, m1', hmalloc, a, rfl, rfl, rfl⟩ := halloc
    obtain ⟨st, rfl, -, hnone | ⟨a', hsome, hpriv1, hapart, hlive1⟩⟩ :=
      hpriv.malloc hop.privateSound (by decide) hmalloc
    · exact absurd hnone (by simp)
    obtain rfl := Option.some.inj hsome
    have hpriv2 := hpriv1.of_same (samePrivate_setHeap cfg.guardPages got hptr)
    obtain ⟨m', hfree, hcalls, hspace, hnum, hlive⟩ :=
      PrivateHeap.privFree (m := (m.withStore st).setHeap (.priv a) got) hop hpriv2
        List.mem_cons_self
    -- the block that is taken back is none of those that were in use
    have hback := releaseBlock_issued (n := sizeofHeap) fun e he =>
      hpriv1.ptr_ne hop.privateSound (hpriv.live e he) (hapart e (hpriv.live e he))
    refine ⟨m', (if_neg hinherit).trans hfree, hcalls, hspace, hnum, ?_⟩
    exact (hlive.trans (congrArg (releaseBlock a) hlive1)).trans hback

/-- A heap that the test sees not to fit is refused, and its record is given back. -/
theorem PrivateOk.refuses (type : BuffAllocType) (hop : PrivateOp (cfg.ops .mplite) rep)
    (h : PrivateOk cfg rep m) (hok : SpaceOk m.proc.space) (hsize : 0 < size)
    (hroom : (shallocHeapAlloc cfg mmapFlags m).isSome)
    (hfull : m.proc.space.data.unusedSize <
      shallocHeapBaseSize cfg.guardPages (shallocHeapPages size))
    (hsees : SeesFull m.proc.space (shallocHeapBaseSize cfg.guardPages (shallocHeapPages size))) :
    RefusesCleanly cfg size mmapFlags type m := by
  obtain ⟨hunused, hwrap⟩ := hsees
  obtain ⟨⟨ptr, m1⟩, halloc⟩ := Option.isSome_iff_exists.mp hroom
  have haddr := hok.nextAddr
  have hend := hok.size
  have hsmall := hok.small
  have hle := hok.unused
  have hoffset : m.proc.space.offset + m.proc.space.data.unusedSize = m.proc.space.data.size :=
    Nat.sub_add_cancel hle
  have hin : ¬ shallocSpaceNextAddr m.proc.space > m.proc.space.data.endAddr := by omega
  obtain ⟨-, hspace1, -, -⟩ := h.alloc hop.privateSound halloc
  obtain ⟨got, hgot, hbase⟩ := shallocGetHeap_baseSize cfg (m1.heapAddr ptr)
    (shallocSpaceNextAddr m.proc.space) mmapFlags (m1.heap ptr) type hsize
  have hover : Word.wrap 64 (shallocSpaceNextAddr m.proc.space + got.base.size) >
      Word.wrap 64 (m.proc.space.data.endAddr + 1) := by
    rw [hbase, Word.wrap_of_lt hwrap, Word.wrap_of_lt hsmall]
    omega
  -- what is left is to give the record back
  obtain ⟨m', hunalloc, hclean⟩ := h.unalloc hop halloc got
  refine ⟨m', ?_, hclean⟩
  simp only [shallocHeapCreate, halloc, bind, Option.bind_some, shallocHeapPlace, hspace1,
    if_neg hin, hgot, if_pos hover, hunalloc]

end Refused

section Unseen

/-- Mapping a heap that has a guard page, or flags of its own, makes a system call. -/
theorem shallocMapHeap_calls {remapped : Bool}
    (hmaps : (m.heap ptr).region.defaultData.size < (m.heap ptr).base.size ∨
      (m.heap ptr).mmapFlags ≠ shallocDefaultMmapFlags)
    (h : shallocMapHeap cfg ptr m = some (remapped, m')) :
    m.proc.calls.length < m'.proc.calls.length := by
  simp only [shallocMapHeap, bind, Option.bind_eq_some_iff] at h
  obtain ⟨data, hdata, h⟩ := h
  obtain ⟨_, -, rfl⟩ := Option.map_eq_some_iff.mp hdata
  obtain ⟨hkeeps, id, hheap⟩ := shallocMapHeapData_keeps cfg ptr (m.heap ptr).region.defaultData m
  have hle := hkeeps.calls.length_le
  split at h
  · obtain ⟨-, rfl⟩ := Prod.mk.inj (Option.some.inj h)
    exact Nat.lt_succ_of_le hle
  next hguard =>
  obtain ⟨-, rfl⟩ := Prod.mk.inj (Option.some.inj h)
  have hflags : (m.heap ptr).mmapFlags ≠ shallocDefaultMmapFlags := by
    refine hmaps.resolve_left fun hlt => hguard ?_
    rw [hheap]
    exact hlt
  -- without a guard page it is the data that is mapped
  simp only [shallocMapHeapData]
  by_cases hinherit : mapInherit (m.heap ptr).mmapFlags
  · simp only [if_pos hinherit]
    by_cases hid : (m.heap ptr).inheritId = -1
    · simp only [if_pos hid]
      simp only [Machine.log, setHeap_calls, shmget, List.length_cons]
      omega
    · simp only [if_neg hid]
      exact Nat.lt_succ_self _
  · simp only [if_neg hinherit, if_pos hflags]
    exact Nat.lt_succ_self _

/-- A heap is at most as large as what was asked for, or 101 pages. -/
theorem shallocHeapBaseSize_lt (guardPages : Bool) (hlt : size < 2 ^ 64) :
    shallocHeapBaseSize guardPages (shallocHeapPages size) < 2 ^ 64 := by
  have hpages : shallocHeapPages size ≤ max size shallocPageSize := by
    have hle := Nat.div_mul_le_self size shallocPageSize
    unfold shallocHeapPages
    split
    · dsimp only
      split <;> omega
    · omega
  have hpage : shallocPageSize = 4096 := rfl
  cases guardPages with
  | true =>
    simp only [shallocHeapBaseSize, shallocHeapDataSize, if_true, true_and]
    split <;> omega
  | false =>
    simp only [shallocHeapBaseSize, shallocHeapDataSize, Bool.false_eq_true, if_false, false_and]
    omega

/-- A creation that gets past the test of the space maps the heap, which no later step undoes:
what is refused cleanly is what the test sees. -/
theorem shallocHeapCreate_sees (hmaps : cfg.guardPages = true ∨ mmapFlags ≠ shallocDefaultMmapFlags)
    (h : shallocHeapCreate cfg size mmapFlags type m = some (none, m')) (hclean : CleanNull m m') :
    shallocSpaceNextAddr m.proc.space ≤ m.proc.space.data.endAddr ∧
      ∃ self old got, shallocGetHeap cfg.guardPages self old (shallocSpaceNextAddr m.proc.space)
        size mmapFlags type = some got ∧
      Word.wrap 64 (m.proc.space.data.endAddr + 1) <
        Word.wrap 64 (shallocSpaceNextAddr m.proc.space + got.base.size) := by
  obtain ⟨ptr, m1, got, halloc, hin, hgot, hsteps⟩ := shallocHeapCreate_steps h
  refine ⟨hin, _, _, got, hgot, ?_⟩
  obtain ⟨hover, -⟩ | ⟨-, remapped, m3, ret, m4, hmap, hcreate, hsteps⟩ := hsteps
  · exact hover
  exfalso
  have hcalls1 := (shallocHeapAlloc_keeps halloc).2.calls.length_le
  have hcalls2 := ((keeps_setHeap ptr m1 got).calls).length_le
  have hsame := congrArg List.length hclean.calls
  have hheap2 : (m1.setHeap ptr got).heap ptr = got := by simp
  have hcalls3 := shallocMapHeap_calls (by
    rw [hheap2]
    refine hmaps.imp (fun hguard => ?_) fun hflags => ?_
    · rw [(shallocGetHeap_shape hgot).size, hguard, if_pos rfl]
      exact Nat.lt_add_of_pos_right (by decide)
    · rw [(shallocGetHeap_flags hgot).1]
      exact hflags) hmap
  have hcalls4 := (shallocHeapOpCreate_keeps hcreate).1.calls.length_le
  obtain ⟨-, m5, hunmap, hunalloc⟩ | ⟨_, -, hnone, -⟩ := hsteps
  · have hcalls5 := (shallocHeapUnmap_keeps hunmap).1.calls.length_le
    have hcalls6 := (shallocHeapUnalloc_keeps hunalloc).1.calls.length_le
    omega
  · exact absurd hnone (by simp)

/-- **A heap that does not fit.** In every process, after any number of heaps created, and
with room for the record: the creation of a heap that is larger than what is left is refused
cleanly if the test sees it; and with guard pages, or flags that need a mapping, only if. -/
theorem heapCreate_full_iff {m0 : Machine α} (hop : PrivateOp (cfg.ops .mplite) rep)
    (hstart : Started cfg m0) (hrun : CreateRun cfg m0 m) (hsize : 0 < size) (hlt : size < 2 ^ 64)
    (hroom : (shallocHeapAlloc cfg mmapFlags m).isSome)
    (hfull : m.proc.space.data.unusedSize <
      shallocHeapBaseSize cfg.guardPages (shallocHeapPages size)) :
    (SeesFull m.proc.space (shallocHeapBaseSize cfg.guardPages (shallocHeapPages size)) →
        RefusesCleanly cfg size mmapFlags type m) ∧
      (cfg.guardPages = true ∨ mmapFlags ≠ shallocDefaultMmapFlags →
        (RefusesCleanly cfg size mmapFlags type m ↔
          SeesFull m.proc.space (shallocHeapBaseSize cfg.guardPages (shallocHeapPages size)))) := by
  obtain ⟨past, t, hheaps, rfl⟩ := hrun.heapRun
  have hok := (hstart.placement.run hheaps).ok
  have hpriv := hrun.privateOk hop.privateSound hstart
  have hrefuses := hpriv.refuses type hop hok hsize hroom hfull
  refine ⟨hrefuses, fun hmaps => ⟨?_, hrefuses⟩⟩
  rintro ⟨m', hcreate, hclean⟩
  have haddr := hok.nextAddr
  have hend := hok.end_le
  have hsmall := hok.small
  have hspace := hok.size
  have hbase := shallocHeapBaseSize_lt cfg.guardPages hlt
  obtain ⟨hin, self, old, got, hgot, hover⟩ := shallocHeapCreate_sees hmaps hcreate hclean
  obtain ⟨got', hgot', hgotBase⟩ := shallocGetHeap_baseSize cfg self
    (shallocSpaceNextAddr t.machine.proc.space) mmapFlags old type hsize
  obtain rfl := Option.some.inj (hgot.symm.trans hgot')
  rw [hgotBase, Word.wrap_of_lt hsmall, Word.wrap] at hover
  unfold Space.offset at haddr hend
  constructor
  · omega
  · omega

/-- What decides a creation: room for the record, what is left, and the next address. -/
def Machine.createState (m : Machine (AllocState (Mplite ⊕ Unit))) : Bool × ℕ × ℕ :=
  ((shallocHeapAlloc mpliteConfig 0x822 m).isSome, m.proc.space.data.unusedSize,
    shallocSpaceNextAddr m.proc.space)

/-- A heap of one terabyte is refused by a process that has just started. -/
theorem heapCreate_full_fresh : ∃ m, shallocSpaceInit mpliteConfig 0x7fff0000 none = some m ∧
    RefusesCleanly mpliteConfig (2 ^ 40) 0x822 .none m := by
  have hrun : (shallocSpaceInit mpliteConfig 0x7fff0000 none).map Machine.createState =
      some (true, 0x3FFFB000, 0x80005000) := by decide +kernel
  obtain ⟨m, hinit, hstate⟩ := Option.map_eq_some_iff.mp hrun
  obtain ⟨hroom, hrest⟩ := Prod.mk.inj hstate
  obtain ⟨hunused, hnext⟩ := Prod.mk.inj hrest
  have hbase : shallocHeapBaseSize mpliteConfig.guardPages (shallocHeapPages (2 ^ 40)) =
    2 ^ 40 := by
    decide
  refine ⟨m, hinit, (heapCreate_full_iff mpliteConfig_ok.privateOp (.fresh hinit) .refl
    (by decide) (by decide) hroom ?_).1 ⟨?_, ?_⟩⟩
  · rw [hunused, hbase]
    decide
  · rw [hunused]
    decide
  · rw [hnext, hbase]
    decide

/-- When the space is exactly full, the next creation aborts. -/
theorem not_heapCreate_full :
    ¬ ∀ (m0 m : Machine (AllocState (Mplite ⊕ Unit))) (size mmapFlags : ℕ) (type : BuffAllocType),
      Started mpliteConfig m0 → CreateRun mpliteConfig m0 m → 0 < size → size < 2 ^ 64 →
      (shallocHeapAlloc mpliteConfig mmapFlags m).isSome →
      m.proc.space.data.unusedSize <
        shallocHeapBaseSize mpliteConfig.guardPages (shallocHeapPages size) →
      RefusesCleanly mpliteConfig size mmapFlags type m := by
  intro h
  have hrun : ((shallocSpaceInit mpliteConfig 0x7fff0000 none).bind fun m0 =>
      (shallocHeapCreate mpliteConfig 0x3FFFB000 0x822 .none m0).map fun r =>
        (r.1, r.2.createState, (shallocHeapCreate mpliteConfig 1 0x822 .none r.2).isNone)) =
      some (some (.slot 0), (true, 0, 0xC0000000), true) := by decide +kernel
  obtain ⟨m0, hinit, hcreate⟩ := Option.bind_eq_some_iff.mp hrun
  obtain ⟨⟨ptr, m⟩, hcreate, hres⟩ := Option.map_eq_some_iff.mp hcreate
  obtain ⟨rfl, hrest⟩ := Prod.mk.inj hres
  obtain ⟨hstate, habort⟩ := Prod.mk.inj hrest
  obtain ⟨hroom, hrest⟩ := Prod.mk.inj hstate
  have hunused := (Prod.mk.inj hrest).1
  obtain ⟨m', hnull, -⟩ := h m0 m 1 0x822 .none (.fresh hinit) (.step .refl hcreate) (by decide)
    (by decide) hroom (by rw [hunused]; decide)
  rw [hnull] at habort
  exact absurd habort (by simp)

end Unseen

end Shalloc
