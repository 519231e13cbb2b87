import Shalloc.Mplite.Sound
import Shalloc.Space.Full
import Shalloc.Space.Registry

/-!
# The destruction of a heap outside the control page

`shalloc_heap_destroy` gives the record of the heap back to the private heap, and reads the
range to unmap from it after that. The private heap may have put the block on a list of free
chunks by then, whose links are in the first word of a chunk, where the record has the start
of the heap. The start is still there when the chunk was joined with a lower buddy, since it
is that one that gets the links.

## Main definitions

- `RecordsOk`, `LiveOk` — the records of heaps in the private heap and in the control page
- `PrivFreesLower` — the private heap would join a record with a lower buddy

## Main results

- `LiveOk.run` — the live heaps outside the control page have their records
- `heapDestroy_unmaps_iff` — when the destruction of a heap unmaps the heap
-/

namespace Shalloc

variable {α σ : Type} {cfg : SpaceConfig α} {m m' : Machine α} {ptr : HeapPtr}
  {priv : ℕ} {blocks : List Extent} {rep : Buff → List Extent → α → Prop}

open Machine Buddy

section Contract

/-- The allocator of the private heap keeps a representation that does not mind fresh memory. -/
structure PrivateBlank (cfg : SpaceConfig α) (rep : Buff → List Extent → α → Prop) : Prop where
  sound : PrivateSound (cfg.ops .mplite) rep
  blank : ∀ {buff blocks a}, rep buff blocks a → rep buff blocks cfg.blank

/-- The buddy allocator is one for the private heap. -/
theorem MpliteConfig.privateBlank {cfg : SpaceConfig (AllocState (Mplite ⊕ σ))}
    (h : MpliteConfig cfg) : PrivateBlank cfg MpliteRep where
  sound := by
    rw [h.ops]
    refine ⟨mplite_sound.headless.below (by decide), fun hpages hsmall hcreate => ?_⟩
    exact mpliteCreate_rep (Nat.dvd_trans (by decide) hpages) (by omega) hcreate le_rfl
  blank hrep := by
    refine ⟨hrep.aligned, hrep.issued, fun hhandle hblock => ?_⟩
    rw [h.blank _ hhandle] at hblock
    exact absurd hblock (Nat.lt_irrefl 0)

end Contract

section Records

/-- The record of a heap at the address `addr`: its region has its own data buffer and no
parent, and its data is not the memory of the private heap. -/
structure RecordFits (guardPages : Bool) (addr : ℕ) (heap : Heap) : Prop where
  parent : heap.region.parent = none
  head : ∀ b, heap.region.dataHead = some b → b = addr + heapRegionOffset + regionDataOffset
  start : heap.region.defaultData.start ≠ (privBuff guardPages).start

theorem RecordFits.inheritId {guardPages : Bool} {self : ℕ} {heap : Heap}
    (h : RecordFits guardPages self heap) (id : ℤ) :
    RecordFits guardPages self { heap with inheritId := id } :=
  ⟨h.parent, h.head, h.start⟩

/-- A record that is all zeros is one of no heap. -/
theorem recordFits_zero (guardPages : Bool) (self : ℕ) : RecordFits guardPages self .zero :=
  ⟨rfl, fun _ h => absurd h (by simp [Heap.zero]), by cases guardPages <;> decide⟩

theorem shallocGetHeap_fits {guardPages : Bool} {self addr size mmapFlags : ℕ} {old got : Heap}
    {type : BuffAllocType}
    (h : shallocGetHeap guardPages self old addr size mmapFlags type = some got)
    (haddr : addr ≠ (privBuff guardPages).start) : RecordFits guardPages self got := by
  unfold shallocGetHeap at h
  split at h
  · exact absurd h (by simp)
  obtain rfl := Option.some.inj h
  exact ⟨rfl, fun _ hb => (Option.some.inj hb).symm, haddr⟩

/-- The record of a heap in the private heap. -/
structure PrivRecord (guardPages : Bool) (addr : ℕ) (heap : Heap) : Prop where
  fits : RecordFits guardPages addr heap
  isHeap : hasFlag heap.region.flags .heap = true
  own : mapInherit heap.mmapFlags = false
  start : heap.base.start < 2 ^ 63

/-- What a call on the record `ptr` leaves alone: the space, the other records, and the private
heap with its blocks, whichever they are. -/
structure Elsewhere (cfg : SpaceConfig α) (rep : Buff → List Extent → α → Prop) (ptr : HeapPtr)
    (m m' : Machine α) : Prop where
  space : m'.proc.space = m.proc.space
  heaps : ∀ q, q ≠ ptr → m'.heap q = m.heap q
  priv : ∀ {blocks}, PrivateHeap rep cfg.guardPages m.proc.space.privHeap blocks m →
    PrivateHeap rep cfg.guardPages m.proc.space.privHeap blocks m'

theorem Elsewhere.trans {m'' : Machine α} (h : Elsewhere cfg rep ptr m m')
    (h' : Elsewhere cfg rep ptr m' m'') : Elsewhere cfg rep ptr m m'' where
  space := h'.space.trans h.space
  heaps q hq := (h'.heaps q hq).trans (h.heaps q hq)
  priv hpriv := by
    have hbefore := h.priv hpriv
    rw [← h.space] at hbefore ⊢
    exact h'.priv hbefore

theorem Elsewhere.of_same (hspace : m'.proc.space = m.proc.space)
    (hheaps : ∀ q, q ≠ ptr → m'.heap q = m.heap q)
    (hsame : SamePrivate cfg.guardPages m.proc.space.privHeap m m') :
    Elsewhere cfg rep ptr m m' :=
  ⟨hspace, hheaps, fun hpriv => hpriv.of_same hsame⟩

theorem elsewhere_setHeap (cfg : SpaceConfig α) (rep : Buff → List Extent → α → Prop)
    (heap : Heap) (hptr : ptr ≠ .priv m.proc.space.privHeap) :
    Elsewhere cfg rep ptr m (m.setHeap ptr heap) :=
  .of_same (setHeap_space ptr heap) (fun q hq => by rw [heap_setHeap, if_neg hq])
    (samePrivate_setHeap _ heap hptr)

theorem elsewhere_log (cfg : SpaceConfig α) (rep : Buff → List Extent → α → Prop) (ptr : HeapPtr)
    (m : Machine α) (call : SysCall) : Elsewhere cfg rep ptr m (m.log call) :=
  .of_same rfl (fun q _ => heap_log call q) (samePrivate_log _ _ m call)

theorem elsewhere_setNumHeaps (cfg : SpaceConfig α) (rep : Buff → List Extent → α → Prop)
    (ptr : HeapPtr) (m : Machine α) (n : ℤ) : Elsewhere cfg rep ptr m (m.setNumHeaps n) :=
  .of_same rfl (fun q _ => heap_setNumHeaps n q) ⟨heap_setNumHeaps .., rfl, rfl⟩

theorem elsewhere_shmget (cfg : SpaceConfig α) (rep : Buff → List Extent → α → Prop)
    (ptr : HeapPtr) (m : Machine α) (size : ℕ) :
    Elsewhere cfg rep ptr m (m.shmget cfg.blank size).2 :=
  .of_same rfl (fun q _ => heap_shmget _ _ q) ⟨heap_shmget .., rfl, rfl⟩

/-- Wherever pages are mapped: if they hold the private heap, its memory is fresh. -/
theorem PrivateBlank.mapFixedPages (hop : PrivateBlank cfg rep) (ptr : HeapPtr) (m : Machine α)
    (addr size prot flags : ℕ) :
    Elsewhere cfg rep ptr m (m.mapFixedPages cfg.blank addr size prot flags) where
  space := rfl
  heaps q _ := heap_mapFixedPages _ _ _ _ _ q
  priv {blocks} hpriv :=
    { tail := by rw [heap_mapFixedPages]; exact hpriv.tail
      data := by rw [heap_mapFixedPages]; exact hpriv.data
      fixed := by rw [heap_mapFixedPages]; exact hpriv.fixed
      own := by rw [heap_mapFixedPages]; exact hpriv.own
      rep := by
        show rep _ blocks (if _ then _ else _)
        split
        · exact hop.blank hpriv.rep
        · exact hpriv.rep
      live := hpriv.live }

theorem PrivateBlank.mapHeapData (hop : PrivateBlank cfg rep) (data : Buff)
    (hptr : ptr ≠ .priv m.proc.space.privHeap) :
    Elsewhere cfg rep ptr m (shallocMapHeapData cfg ptr data m).2 := by
  simp only [shallocMapHeapData]
  by_cases hinherit : mapInherit (m.heap ptr).mmapFlags
  · simp only [if_pos hinherit]
    by_cases hid : (m.heap ptr).inheritId = -1
    · simp only [if_pos hid]
      have hattach : Elsewhere cfg rep ptr m
          ((m.shmget cfg.blank data.size).2.log (.shmat (m.shmget cfg.blank data.size).1
            data.start)) :=
        (elsewhere_shmget cfg rep ptr m data.size).trans (elsewhere_log cfg rep ptr _ _)
      exact (hattach.trans (elsewhere_setHeap cfg rep _ hptr)).trans (elsewhere_log cfg rep ptr _ _)
    · simp only [if_neg hid]
      exact elsewhere_log cfg rep ptr m _
  · simp only [if_neg hinherit]
    split
    · exact hop.mapFixedPages ptr m _ _ _ _
    · exact .of_same rfl (fun _ _ => rfl) (.refl _ _ m)

theorem PrivateBlank.mapHeap {remapped : Bool} (hop : PrivateBlank cfg rep)
    (hptr : ptr ≠ .priv m.proc.space.privHeap)
    (h : shallocMapHeap cfg ptr m = some (remapped, m')) : Elsewhere cfg rep ptr m m' := by
  simp only [shallocMapHeap, bind, Option.bind_eq_some_iff] at h
  obtain ⟨data, -, h⟩ := h
  have hdata := hop.mapHeapData (m := m) data hptr
  split at h
  · obtain ⟨-, rfl⟩ := Prod.mk.inj (Option.some.inj h)
    exact hdata.trans (hop.mapFixedPages ptr _ _ _ _ _)
  · obtain ⟨-, rfl⟩ := Prod.mk.inj (Option.some.inj h)
    exact hdata

theorem elsewhere_detach (cfg : SpaceConfig α) (rep : Buff → List Extent → α → Prop)
    (data : Buff) (hptr : ptr ≠ .priv m.proc.space.privHeap) :
    Elsewhere cfg rep ptr m (shallocHeapDetach ptr data m) := by
  have hlog : Elsewhere cfg rep ptr m
      ((m.log (.shmdt data.start)).log (.shmctl (m.heap ptr).inheritId)) :=
    (elsewhere_log cfg rep ptr m _).trans (elsewhere_log cfg rep ptr _ _)
  exact hlog.trans (elsewhere_setHeap cfg rep _ hptr)

theorem PrivateBlank.heapUnmap {mmapFlags : ℕ} {remapped : Bool} (hop : PrivateBlank cfg rep)
    (hptr : ptr ≠ .priv m.proc.space.privHeap)
    (h : shallocHeapUnmap cfg ptr mmapFlags remapped m = some m') : Elsewhere cfg rep ptr m m' := by
  simp only [shallocHeapUnmap, bind, Option.bind_eq_some_iff] at h
  obtain ⟨data, -, h⟩ := h
  by_cases hmapped : remapped = true
  · simp only [if_pos hmapped, Option.some.injEq] at h
    subst h
    by_cases hinherit : mapInherit mmapFlags = true
    · simp only [if_pos hinherit]
      exact (elsewhere_detach cfg rep data hptr).trans (hop.mapFixedPages ptr _ _ _ _ _)
    · simp only [if_neg hinherit]
      exact hop.mapFixedPages ptr m _ _ _ _
  · simp only [if_neg hmapped, Option.some.injEq] at h
    subst h
    exact .of_same rfl (fun _ _ => rfl) (.refl _ _ m)

/-- Setting up the data of a heap that fits. -/
theorem elsewhere_opCreate {ret : ℤ} (hptr : ptr ≠ .priv m.proc.space.privHeap)
    (haddr : m.heapAddr ptr ≠ m.proc.space.privHeap)
    (hstart : (m.heap ptr).region.defaultData.start ≠ (privBuff cfg.guardPages).start)
    (h : shallocHeapOpCreate cfg ptr m = some (ret, m')) : Elsewhere cfg rep ptr m m' := by
  obtain ⟨hkeeps, hheap⟩ := shallocHeapOpCreate_keeps h
  refine .of_same hkeeps.space (fun q hq => ?_) (shallocHeapOpCreate_same hptr haddr hstart h)
  obtain ⟨cell, st, region, data, -, -, -, -, rfl⟩ := withRegion_eq_some.mp h
  rw [heap_setHeap, if_neg hq, heap_putStore]

/-- **The destruction of the region of a heap that fits.** It leaves the private heap and the other
records alone. -/
theorem regionDestroy_same {handed : Option ℕ} (hptr : ptr ≠ .priv m.proc.space.privHeap)
    (haddr : m.heapAddr ptr ≠ m.proc.space.privHeap)
    (hfits : RecordFits cfg.guardPages (m.heapAddr ptr) (m.heap ptr))
    (h : m.withRegion ptr (shallocRegionDestroy cfg.ops 2) = some (handed, m')) :
    SamePrivate cfg.guardPages m.proc.space.privHeap m m' ∧
      (∀ q, q ≠ ptr → m'.heap q = m.heap q) ∧
      RecordFits cfg.guardPages (m.heapAddr ptr) (m'.heap ptr) := by
  obtain ⟨cell, st, region, data, -, hdestroy, hregion, hdata, rfl⟩ := withRegion_eq_some.mp h
  have hload : (m.regionStore ptr cell).regions (m.heapAddr ptr + heapRegionOffset) =
      some (m.heap ptr).region := by simp [regionStore]
  have hbuff : (m.regionStore ptr cell).buffs
      (m.heapAddr ptr + heapRegionOffset + regionDataOffset) =
      some (m.heap ptr).region.defaultData := by simp [regionStore]
  obtain ⟨-, tail, htail⟩ := shallocRegionDestroy_region hload hdestroy
  obtain rfl := Option.some.inj (hregion.symm.trans htail)
  obtain ⟨hcells, hlive, data', hdata', hstart⟩ :=
    shallocRegionDestroy_heap hload hfits.parent hfits.head hbuff hdestroy
  obtain rfl := Option.some.inj (hdata.symm.trans hdata')
  refine ⟨⟨?_, ?_, ?_⟩, fun q hq => ?_, ?_⟩
  · rw [heap_setHeap, if_neg hptr.symm, heap_putStore]
  · rw [setHeap_store]
    show st.cells _ = _
    rw [hcells _ hfits.start.symm]
    exact Function.update_of_ne hfits.start.symm _ _
  · rw [setHeap_store]
    refine hlive _ ?_
    unfold privDataAddr privRegionAddr
    omega
  · rw [heap_setHeap, if_neg hq, heap_putStore]
  · rw [heap_setHeap, if_pos rfl]
    exact ⟨hfits.parent, hfits.head, by rw [hstart]; exact hfits.start⟩

end Records

section Calls

/-- The record of the space, the private heap with the blocks `blocks`, and the records of the
control page. -/
structure RecordsOk (cfg : SpaceConfig α) (rep : Buff → List Extent → α → Prop)
    (blocks : List Extent) (m : Machine α) : Prop where
  control : m.proc.space.magicControlPage = controlAddr cfg.guardPages
  start : controlAddr cfg.guardPages ≤ m.proc.space.data.start
  endAddr : m.proc.space.data.endAddr < 2 ^ 63
  ok : SpaceOk m.proc.space
  heap : PrivateHeap rep cfg.guardPages m.proc.space.privHeap blocks m
  own : ⟨m.proc.space.privHeap, sizeofHeap⟩ ∈ blocks
  slots : ∀ i, RecordFits cfg.guardPages (m.heapAddr (.slot i)) (m.heap (.slot i))

theorem RecordsOk.privateOk (h : RecordsOk cfg rep blocks m) : PrivateOk cfg rep m :=
  ⟨h.control, h.start, blocks, h.heap, h.own⟩

/-- A call on one record. -/
theorem RecordsOk.elsewhere (h : RecordsOk cfg rep blocks m) (hcall : Elsewhere cfg rep ptr m m')
    (hslot : ∀ i, ptr = .slot i → RecordFits cfg.guardPages (m'.heapAddr ptr) (m'.heap ptr)) :
    RecordsOk cfg rep blocks m' where
  control := by rw [hcall.space]; exact h.control
  start := by rw [hcall.space]; exact h.start
  endAddr := by rw [hcall.space]; exact h.endAddr
  ok := by rw [hcall.space]; exact h.ok
  heap := by rw [hcall.space]; exact hcall.priv h.heap
  own := by rw [hcall.space]; exact h.own
  slots i := by
    by_cases hptr : HeapPtr.slot i = ptr
    · rw [hptr]
      exact hslot i hptr.symm
    · rw [hcall.heaps _ hptr, heapAddr, hcall.space]
      exact h.slots i

/-- A request for the record of a heap. -/
theorem RecordsOk.malloc (hop : PrivateSound (cfg.ops .mplite) rep)
    (h : RecordsOk cfg rep blocks m) {a : ℕ}
    (hcall : m.withRegion (.priv m.proc.space.privHeap) (fun r st =>
      shallocMalloc cfg.ops [r] sizeofHeap st) = some (some a, m')) :
    RecordsOk cfg rep (⟨a, sizeofHeap⟩ :: blocks) m' ∧ (∀ e ∈ blocks, e.ptr ≠ a) ∧
      m'.proc.space = m.proc.space ∧ ∀ q, m'.heap q = m.heap q := by
  obtain ⟨st, rfl, -, hnone | ⟨b, hsome, hpriv, hapart, -⟩⟩ := h.heap.malloc hop (by decide) hcall
  · exact absurd hnone (by simp)
  obtain rfl := Option.some.inj hsome
  refine ⟨⟨h.control, h.start, h.endAddr, h.ok, hpriv, List.mem_cons_of_mem _ h.own, fun i => ?_⟩,
    fun e he => hpriv.ptr_ne hop he (hapart e he), rfl, fun q => heap_withStore st q⟩
  rw [heap_withStore]
  exact h.slots i

/-- **A free in the private heap that does not abort.** -/
theorem PrivateHeap.freed {guardPages : Bool} {e : Extent}
    (hop : PrivateSound (cfg.ops .mplite) rep) (h : PrivateHeap rep guardPages priv blocks m)
    (he : e ∈ blocks)
    (hcall : m.withRegion (.priv priv) (fun r st => (shallocFree cfg.ops r e.ptr st).map
      fun st => ((), st)) = some ((), m')) :
    ∃ st a, m' = m.withStore st ∧ (cfg.ops .mplite).free (privBuff guardPages) e.ptr
        (m.proc.store.cells (privBuff guardPages).start) = some a ∧
      st.cells (privBuff guardPages).start = a ∧
      PrivateHeap rep guardPages priv (releaseBlock e.ptr blocks) m' := by
  obtain ⟨hregion, hbuff, hcell⟩ := h.store
  obtain ⟨-, -, -, -, -, htype⟩ := privBuff_spec guardPages
  obtain ⟨st, hf⟩ := h.withRegion_cases hcall
  obtain ⟨st1, hfree, heq⟩ := Option.map_eq_some_iff.mp hf
  obtain rfl : st1 = st := (Prod.mk.inj heq).2
  have haddr := h.isBuffAddr hop he
  cases shallocFree_cases hfree with
  | ignored hregion' hnot =>
    obtain rfl := Option.some.inj (hregion.symm.trans hregion')
    exact absurd haddr (hnot _ _ h.tail hbuff)
  | asked hregion' htail' hbuff' _ hop' =>
    obtain rfl := Option.some.inj (hregion.symm.trans hregion')
    obtain rfl := Option.some.inj (h.tail.symm.trans htail')
    obtain rfl := Option.some.inj (hbuff.symm.trans hbuff')
    obtain ⟨buff, a, hbuff'', hrun, rfl⟩ := Store.opFree_eq_some.mp hop'
    obtain rfl : privBuff guardPages = buff := Option.some.inj (hbuff.symm.trans hbuff'')
    rw [Store.log_cells, hcell, htype] at hrun
    have hwith := h.withRegion_eq (f := fun r st => (shallocFree cfg.ops r e.ptr st).map
      fun st => ((), st)) hf rfl rfl
    rw [hwith] at hcall
    obtain rfl := (Prod.mk.inj (Option.some.inj hcall)).2
    refine ⟨_, a, rfl, hrun, Function.update_self .., h.withStore ?_ fun e' he' => ?_⟩
    · rw [Store.log_cells, Store.setCell_cells, Function.update_self]
      exact hop.sound.freed h.rep he hrun
    · have hlive : liveBlocks (privDataAddr priv) ((((m.privStore guardPages priv).log
            (.release (privRegionAddr priv) e.ptr)).setCell (privBuff guardPages).start a).log
            (.free (privDataAddr priv) e.ptr)).trace =
          releaseBlock e.ptr (liveBlocks (privDataAddr priv) m.proc.store.trace) := by
        simp [privStore, regionStore]
      rw [hlive] at he'
      obtain ⟨hmem, hne⟩ := mem_releaseBlock.mp he'
      exact mem_releaseBlock.mpr ⟨h.live e' hmem, hne⟩

/-- The free of the record of a heap. -/
theorem RecordsOk.privFree {addr : ℕ} (hop : PrivateSound (cfg.ops .mplite) rep)
    (h : RecordsOk cfg rep blocks m) (he : ⟨addr, sizeofHeap⟩ ∈ blocks)
    (hne : addr ≠ m.proc.space.privHeap) (hcall : shallocPrivFree cfg (.priv addr) m = some m') :
    RecordsOk cfg rep (releaseBlock addr blocks) m' ∧
      m'.proc.space = m.proc.space ∧ (∀ q, q ≠ .priv addr → m'.heap q = m.heap q) ∧
      ∃ a, (cfg.ops .mplite).free (privBuff cfg.guardPages) addr
          (m.proc.store.cells (privBuff cfg.guardPages).start) = some a ∧
        m'.heap (.priv addr) = { m.heap (.priv addr) with base :=
          { (m.heap (.priv addr)).base with
            start := cfg.freedWord a addr (m.heap (.priv addr)).base.start } } := by
  simp only [shallocPrivFree, bind, Option.bind_eq_some_iff, Prod.exists, Option.some.injEq]
    at hcall
  obtain ⟨_, m1, hfree, cell, hcell, rfl⟩ := hcall
  obtain ⟨st, a, rfl, hrun, hafter, hpriv⟩ := h.heap.freed hop he hfree
  have hown : mapInherit (m.heap (.priv m.proc.space.privHeap)).mmapFlags = false := h.heap.own
  have hdata := h.heap.data
  rw [heap_withStore, heapCell, hown, if_neg (by simp), hdata] at hcell
  obtain rfl : a = cell := hafter.symm.trans (Option.some.inj hcell)
  have hptr : HeapPtr.priv addr ≠ .priv m.proc.space.privHeap :=
    fun heq => hne (HeapPtr.priv.inj heq)
  refine ⟨⟨h.control, h.start, h.endAddr, h.ok, ?_, ?_, fun i => ?_⟩, rfl, fun q hq => ?_, a, hrun,
    ?_⟩
  · exact hpriv.of_same (samePrivate_setHeap _ _ hptr)
  · exact mem_releaseBlock.mpr ⟨h.own, hne.symm⟩
  · rw [heap_setHeap, if_neg (by simp), heap_withStore]
    exact h.slots i
  · rw [heap_setHeap, if_neg hq, heap_withStore]
  · rw [heap_setHeap, if_pos rfl, heap_withStore]
    rfl

end Calls

section Create

variable {size mmapFlags : ℕ} {type : BuffAllocType} {blocks' : List Extent}

/-- The block that the record of a new heap takes: none, or one apart from the others. -/
def TakesBlock (mmapFlags : ℕ) (ptr : HeapPtr) (blocks blocks' : List Extent) : Prop :=
  if mapInherit mmapFlags then (∃ i, ptr = .slot i) ∧ blocks' = blocks
  else ∃ a, ptr = .priv a ∧ blocks' = ⟨a, sizeofHeap⟩ :: blocks ∧ ∀ e ∈ blocks, e.ptr ≠ a

theorem TakesBlock.subset (h : TakesBlock mmapFlags ptr blocks blocks') :
    ∀ e ∈ blocks, e ∈ blocks' ∧ HeapPtr.priv e.ptr ≠ ptr := by
  unfold TakesBlock at h
  intro e he
  split at h
  · obtain ⟨⟨i, rfl⟩, rfl⟩ := h
    exact ⟨he, by simp⟩
  · obtain ⟨a, rfl, rfl, hne⟩ := h
    exact ⟨List.mem_cons_of_mem _ he, fun heq => hne e he (HeapPtr.priv.inj heq)⟩

theorem RecordsOk.alloc (hop : PrivateSound (cfg.ops .mplite) rep)
    (h : RecordsOk cfg rep blocks m) (halloc : shallocHeapAlloc cfg mmapFlags m = some (ptr, m')) :
    ∃ blocks', RecordsOk cfg rep blocks' m' ∧ TakesBlock mmapFlags ptr blocks blocks' ∧
      ∀ q, q ≠ ptr → m'.heap q = m.heap q := by
  obtain ⟨-, -, hptr, -⟩ := h.privateOk.alloc hop halloc
  unfold shallocHeapAlloc at halloc
  by_cases hinherit : mapInherit mmapFlags = true
  · simp only [if_pos hinherit] at halloc
    split at halloc
    swap
    · exact absurd halloc (by simp)
    obtain ⟨rfl, rfl⟩ := Prod.mk.inj (Option.some.inj halloc)
    have hcall := (elsewhere_setHeap cfg rep (m := m)
      { m.heap (.slot m.shared.magic.numHeaps.toNat) with inheritId := -1 } hptr).trans
      (elsewhere_setNumHeaps cfg rep _ _ (m.shared.magic.numHeaps + 1))
    refine ⟨blocks, h.elsewhere hcall fun i hi => ?_, ?_, hcall.heaps⟩
    · rw [heap_setNumHeaps, heap_setHeap, if_pos rfl]
      exact (h.slots _).inheritId (-1)
    · rw [TakesBlock, if_pos hinherit]
      exact ⟨⟨_, rfl⟩, rfl⟩
  · simp only [if_neg hinherit, bind, Option.bind_eq_some_iff, Prod.exists, Option.some.injEq,
      Prod.mk.injEq] at halloc
    obtain ⟨_, m1, hmalloc, a, rfl, rfl, rfl⟩ := halloc
    obtain ⟨hafter, hne, -, hheaps⟩ := h.malloc hop hmalloc
    refine ⟨_, hafter, ?_, fun q _ => hheaps q⟩
    rw [TakesBlock, if_neg hinherit]
    exact ⟨a, rfl, rfl, hne⟩

/-- A record that is given back. -/
theorem RecordsOk.unalloc (hop : PrivateSound (cfg.ops .mplite) rep)
    (h : RecordsOk cfg rep blocks' m) (hown : ⟨m.proc.space.privHeap, sizeofHeap⟩ ∈ blocks)
    (htakes : TakesBlock mmapFlags ptr blocks blocks')
    (hcall : shallocHeapUnalloc cfg ptr mmapFlags m = some m') :
    RecordsOk cfg rep blocks m' ∧ ∀ q, q ≠ ptr → m'.heap q = m.heap q := by
  unfold shallocHeapUnalloc at hcall
  unfold TakesBlock at htakes
  by_cases hinherit : mapInherit mmapFlags = true
  · rw [if_pos hinherit] at htakes
    obtain ⟨⟨i, rfl⟩, rfl⟩ := htakes
    simp only [if_pos hinherit, Option.some.injEq] at hcall
    subst hcall
    have hnum := elsewhere_setNumHeaps cfg rep (.slot i) m (m.shared.magic.numHeaps - 1)
    refine ⟨h.elsewhere hnum fun j _ => ?_, hnum.heaps⟩
    rw [heap_setNumHeaps]
    exact h.slots i
  · rw [if_neg hinherit] at htakes hcall
    obtain ⟨a, rfl, rfl, hne⟩ := htakes
    obtain ⟨hafter, -, hheaps, -⟩ := h.privFree hop List.mem_cons_self
      (fun heq => hne _ hown heq.symm) hcall
    rw [releaseBlock_issued hne] at hafter
    exact ⟨hafter, hheaps⟩

/-- The record of a new heap, mapped and set up. -/
theorem PrivateBlank.mapped (hop : PrivateBlank cfg rep)
    (hptr : ptr ≠ .priv m.proc.space.privHeap) (haddr : m.heapAddr ptr ≠ m.proc.space.privHeap)
    {got : Heap} (hfits : RecordFits cfg.guardPages (m.heapAddr ptr) got) {remapped : Bool}
    {ret : ℤ} {m3 : Machine α}
    (hmap : shallocMapHeap cfg ptr (m.setHeap ptr got) = some (remapped, m3))
    (hcreate : shallocHeapOpCreate cfg ptr m3 = some (ret, m')) :
    Elsewhere cfg rep ptr m m' ∧ ∃ id, m'.heap ptr = { got with inheritId := id } := by
  have hset := elsewhere_setHeap cfg rep (m := m) got hptr
  have hmapped : Elsewhere cfg rep ptr (m.setHeap ptr got) m3 :=
    hop.mapHeap (by rw [hset.space]; exact hptr) hmap
  have hbefore := hset.trans hmapped
  obtain ⟨-, ⟨id, hheap3⟩, -⟩ := shallocMapHeap_keeps hmap
  rw [heap_setHeap, if_pos rfl] at hheap3
  have haddr3 : m3.heapAddr ptr = m.heapAddr ptr := by
    cases ptr with
    | slot i => rw [heapAddr, heapAddr, hbefore.space]
    | priv a => rfl
  have hcreated : Elsewhere cfg rep ptr m3 m' := by
    refine elsewhere_opCreate ?_ ?_ ?_ hcreate
    · rw [hbefore.space]; exact hptr
    · rw [haddr3, hbefore.space]; exact haddr
    · rw [hheap3]; exact hfits.start
  exact ⟨hbefore.trans hcreated, id, (shallocHeapOpCreate_keeps hcreate).2.trans hheap3⟩

/-- **The creation of a heap.** It leaves the blocks of the private heap and their records alone,
and a heap outside the control page gets a block of its own. -/
theorem RecordsOk.create (hop : PrivateBlank cfg rep) (h : RecordsOk cfg rep blocks m)
    {res : Option HeapPtr} (hcall : shallocHeapCreate cfg size mmapFlags type m = some (res, m')) :
    m'.proc.space.privHeap = m.proc.space.privHeap ∧
      ∃ blocks', RecordsOk cfg rep blocks' m' ∧
        (∀ e ∈ blocks, e ∈ blocks' ∧ m'.heap (.priv e.ptr) = m.heap (.priv e.ptr)) ∧
        ∀ a, res = some (.priv a) → ⟨a, sizeofHeap⟩ ∈ blocks' ∧ (∀ e ∈ blocks, e.ptr ≠ a) ∧
          PrivRecord cfg.guardPages a (m'.heap (.priv a)) := by
  have houtcome := shallocHeapCreate_cases hcall
  obtain ⟨ptr, m1, got, halloc, hin, hgot, hsteps⟩ := shallocHeapCreate_steps hcall
  obtain ⟨-, hspace1, hptr, haddr⟩ := h.privateOk.alloc hop.sound halloc
  rw [← hspace1] at hptr haddr
  obtain ⟨blocks1, h1, htakes, hheaps1⟩ := h.alloc hop.sound halloc
  have hsubset := htakes.subset
  have hown : ⟨m1.proc.space.privHeap, sizeofHeap⟩ ∈ blocks := by rw [hspace1]; exact h.own
  -- heaps are placed past the control page, which is past the private heap
  have hnext : shallocSpaceNextAddr m.proc.space ≠ (privBuff cfg.guardPages).start := by
    have hpage : 0 < shallocPageSize := by decide
    have hcontrol := (privBuff_spec cfg.guardPages).2.1
    have hstart := h.start
    rw [h.ok.nextAddr]
    omega
  have hfits := shallocGetHeap_fits hgot hnext
  -- a heap that is not created gives its record back
  have hback : ∀ {m5 m' : Machine α} {id : ℤ}, Elsewhere cfg rep ptr m1 m5 →
      m5.heap ptr = { got with inheritId := id } →
      shallocHeapUnalloc cfg ptr mmapFlags m5 = some m' →
      RecordsOk cfg rep blocks m' ∧
        ∀ e ∈ blocks, e ∈ blocks ∧ m'.heap (.priv e.ptr) = m.heap (.priv e.ptr) := by
    intro m5 m' id hcall hheap hunalloc
    have h5 : RecordsOk cfg rep blocks1 m5 := by
      refine h1.elsewhere hcall fun i hi => ?_
      subst hi
      rw [hheap, heapAddr, hcall.space]
      exact hfits.inheritId id
    obtain ⟨hafter, hheaps⟩ :=
      h5.unalloc hop.sound (by rw [hcall.space]; exact hown) htakes hunalloc
    refine ⟨hafter, fun e he => ⟨he, ?_⟩⟩
    have hne := (hsubset e he).2
    rw [hheaps _ hne, hcall.heaps _ hne, hheaps1 _ hne]
  obtain ⟨-, rfl, hunalloc⟩ | ⟨-, remapped, m3, ret, m4, hmap, hcreate, hsteps⟩ := hsteps
  · obtain ⟨hnone, ptr', hrefused⟩ | ⟨_, hsome, -⟩ := houtcome
    swap
    · exact absurd hsome (by simp)
    have hgotAt : (m1.setHeap ptr got).heap ptr = { got with inheritId := got.inheritId } := by
      rw [heap_setHeap, if_pos rfl]
    obtain ⟨hafter, hkept⟩ := hback (elsewhere_setHeap cfg rep got hptr) hgotAt hunalloc
    exact ⟨by rw [hrefused.keeps.space], blocks, hafter, hkept, fun a ha => absurd ha (by simp)⟩
  obtain ⟨hmapped, id, hheap4⟩ := hop.mapped hptr haddr hfits hmap hcreate
  obtain ⟨rfl, m5, hunmap, hunalloc⟩ | ⟨space, hspace, rfl, rfl⟩ := hsteps
  · obtain ⟨hnone, ptr', hrefused⟩ | ⟨_, hsome, -⟩ := houtcome
    swap
    · exact absurd hsome (by simp)
    obtain ⟨-, id5, hheap5⟩ := shallocHeapUnmap_keeps hunmap
    have hunmapped := hmapped.trans
      (hop.heapUnmap (by rw [hmapped.space]; exact hptr) hunmap)
    obtain ⟨hafter, hkept⟩ := hback hunmapped (by rw [hheap5, hheap4]) hunalloc
    exact ⟨by rw [hrefused.keeps.space], blocks, hafter, hkept, fun a ha => absurd ha (by simp)⟩
  obtain ⟨hnone, -⟩ | ⟨ptr', hsome, hcreated⟩ := houtcome
  · exact absurd hnone (by simp)
  obtain rfl := Option.some.inj hsome
  obtain ⟨hshape, hok, hsame, -⟩ := hcreated.place h.ok
  obtain ⟨hcontrol, hprivHeap, hstart⟩ := shallocSpaceNewHeap_fixed hcreated.space
  have h4 : RecordsOk cfg rep blocks1 m4 := by
    refine h1.elsewhere hmapped fun i hi => ?_
    subst hi
    rw [hheap4, heapAddr, hmapped.space]
    exact hfits.inheritId id
  have hspace4 : m4.proc.space = m.proc.space := hmapped.space.trans hspace1
  have hpriv : space.privHeap = m4.proc.space.privHeap := by rw [hspace4]; exact hprivHeap
  refine ⟨hprivHeap, blocks1, ?_, fun e he => ⟨(hsubset e he).1, ?_⟩, fun a ha => ?_⟩
  · refine ⟨hcontrol.trans h.control, ?_, ?_, hok, ?_, ?_, fun i => ?_⟩
    · rw [hstart]; exact h.start
    · rw [hsame.endAddr]; exact h.endAddr
    · show PrivateHeap rep _ space.privHeap _ _
      rw [hpriv]
      exact h4.heap.of_same ⟨heap_setSpace .., rfl, rfl⟩
    · show ⟨space.privHeap, sizeofHeap⟩ ∈ blocks1
      rw [hpriv]
      exact h4.own
    · have hslot := h4.slots i
      rw [heapAddr, h4.control] at hslot
      rw [heap_setSpace, heapAddr, hcontrol, h.control]
      exact hslot
  · have hne := (hsubset e he).2
    rw [heap_setSpace, hmapped.heaps _ hne, hheaps1 _ hne]
  · obtain rfl := Option.some.inj ha
    unfold TakesBlock at htakes
    split at htakes
    · exact absurd htakes.1 (by simp)
    next hinherit =>
    obtain ⟨b, hb, rfl, hne⟩ := htakes
    obtain rfl := HeapPtr.priv.inj hb
    refine ⟨List.mem_cons_self, hne, ?_, hshape.isHeap, ?_, ?_⟩
    · rw [heap_setSpace, hheap4]
      exact hfits.inheritId id
    · rw [heap_setSpace, hheap4]
      show mapInherit got.mmapFlags = false
      rw [(shallocGetHeap_flags hgot).1]
      simpa using hinherit
    · have hbegin := hshape.start
      rw [← h.ok.nextAddr] at hbegin
      rw [hbegin]
      exact Nat.lt_of_le_of_lt hin h.endAddr

end Create

section Destroy

/-- The destruction of a heap in the control page calls no allocator. -/
theorem elsewhere_heapDestroy (hptr : ptr ≠ .priv m.proc.space.privHeap)
    (hinherit : mapInherit (m.heap ptr).mmapFlags = true)
    (h : shallocHeapDestroy cfg ptr m = some m') : Elsewhere cfg rep ptr m m' := by
  simp only [shallocHeapDestroy, bind, Option.bind_eq_some_iff] at h
  obtain ⟨data, -, h⟩ := h
  by_cases hid : (m.heap ptr).inheritId ≠ -1
  · simp only [if_pos hinherit, if_pos hid, Option.bind_some, Option.some.injEq] at h
    subst h
    exact ((elsewhere_detach cfg rep data hptr).trans
      (elsewhere_setNumHeaps cfg rep ptr _ _)).trans (elsewhere_log cfg rep ptr _ _)
  · simp only [if_pos hinherit, if_neg hid, Option.bind_some, Option.some.injEq] at h
    subst h
    exact (elsewhere_setNumHeaps cfg rep ptr m _).trans (elsewhere_log cfg rep ptr _ _)

/-- An inherited heap that is destroyed. -/
theorem RecordsOk.destroySlot {i : ℕ} (hop : PrivateSound (cfg.ops .mplite) rep)
    (h : RecordsOk cfg rep blocks m) (hslot : SlotRecord (m.heap (.slot i)))
    (hcall : shallocHeapRegionDestroy cfg (.slot i) m = some m') :
    RecordsOk cfg rep blocks m' ∧ m'.proc.space = m.proc.space ∧
      ∀ q, q ≠ .slot i → m'.heap q = m.heap q := by
  simp only [shallocHeapRegionDestroy, bind, Option.bind_eq_some_iff, Prod.exists] at hcall
  obtain ⟨handed, m1, hregion, hcall⟩ := hcall
  obtain ⟨hkeeps, hsame, hhanded⟩ := withRegion_destroy hregion
  -- the entries of the control page come after the private heap
  have haddr : m.heapAddr (.slot i) ≠ m.proc.space.privHeap := by
    obtain ⟨hsize, hcontrol, -⟩ := privBuff_spec cfg.guardPages
    obtain ⟨⟨hlo, hhi⟩, -, hpos⟩ := hop.sound.issued h.heap.rep _ h.own
    show m.proc.space.magicControlPage + heapListOffset + _ ≠ _
    rw [h.control]
    simp only at hlo hhi hpos
    omega
  obtain ⟨hpriv, hheaps, hfits⟩ := regionDestroy_same (by simp) haddr (h.slots i) hregion
  have hdestroyed : Elsewhere cfg rep (.slot i) m m1 := .of_same hkeeps.space hheaps hpriv
  cases handed with
  | none => exact absurd (hhanded hslot.2) (by simp)
  | some r =>
    have hinherit : mapInherit (m1.heap (.slot i)).mmapFlags = true := by
      rw [hsame.mmapFlags]
      exact hslot.1
    have hwhole := hdestroyed.trans (elsewhere_heapDestroy (by simp) hinherit hcall)
    obtain ⟨-, -, id, hheap⟩ | ⟨hnot, -⟩ := shallocHeapDestroy_keeps hcall
    · refine ⟨h.elsewhere hwhole fun _ _ => ?_, hwhole.space, hwhole.heaps⟩
      rw [hheap, heapAddr, hwhole.space]
      exact hfits.inheritId id
    · exact absurd (hinherit.symm.trans hnot) (by simp)

/-- **The destruction of a heap outside the control page.** The start of the range that is unmapped
is what the free has left in the record. -/
theorem RecordsOk.destroy {addr : ℕ} (hop : PrivateSound (cfg.ops .mplite) rep)
    (h : RecordsOk cfg rep blocks m) (he : ⟨addr, sizeofHeap⟩ ∈ blocks)
    (hne : addr ≠ m.proc.space.privHeap)
    (hrecord : PrivRecord cfg.guardPages addr (m.heap (.priv addr)))
    (hcall : shallocHeapRegionDestroy cfg (.priv addr) m = some m') :
    RecordsOk cfg rep (releaseBlock addr blocks) m' ∧
      m'.proc.space = m.proc.space ∧ (∀ q, q ≠ .priv addr → m'.heap q = m.heap q) ∧
      ∃ a, (cfg.ops .mplite).free (privBuff cfg.guardPages) addr
          (m.proc.store.cells (privBuff cfg.guardPages).start) = some a ∧
        m'.proc.calls.head? = some (.munmap
          (cfg.freedWord a addr (m.heap (.priv addr)).base.start)
          (m.heap (.priv addr)).base.size) := by
  simp only [shallocHeapRegionDestroy, bind, Option.bind_eq_some_iff, Prod.exists] at hcall
  obtain ⟨handed, m1, hregion, hcall⟩ := hcall
  obtain ⟨hkeeps, hsame, hhanded⟩ := withRegion_destroy hregion
  have hptr : HeapPtr.priv addr ≠ .priv m.proc.space.privHeap :=
    fun heq => hne (HeapPtr.priv.inj heq)
  obtain ⟨hpriv, hheaps, -⟩ := regionDestroy_same hptr hne hrecord.fits hregion
  have hdestroyed : Elsewhere cfg rep (.priv addr) m m1 := .of_same hkeeps.space hheaps hpriv
  have h1 : RecordsOk cfg rep blocks m1 := h.elsewhere hdestroyed fun i hi => absurd hi (by simp)
  cases handed with
  | none => exact absurd (hhanded hrecord.isHeap) (by simp)
  | some r =>
    have hinherit : mapInherit (m1.heap (.priv addr)).mmapFlags = false := by
      rw [hsame.mmapFlags]
      exact hrecord.own
    simp only [shallocHeapDestroy, hinherit, Bool.false_eq_true, if_false, bind,
      Option.bind_eq_some_iff, Option.some.injEq] at hcall
    obtain ⟨data, -, m2, hfree, rfl⟩ := hcall
    obtain ⟨h2, hspace2, hheaps2, a, hrun, hheap2⟩ :=
      h1.privFree hop he (by rw [hkeeps.space]; exact hne) hfree
    have hlog := elsewhere_log cfg rep (.priv addr) m2
      (.munmap (m2.heap (.priv addr)).base.start (m2.heap (.priv addr)).base.size)
    refine ⟨h2.elsewhere hlog fun i hi => absurd hi (by simp), hspace2.trans hkeeps.space,
      fun q hq => ?_, a, ?_, ?_⟩
    · rw [heap_log, hheaps2 q hq, hheaps q hq]
    · rw [← hpriv.cell]
      exact hrun
    · show some (SysCall.munmap _ _) = _
      rw [hheap2]
      simp only [hsame.base]

end Destroy

section Runs

variable {t t' : Tracked α}

/-- The live heaps outside the control page have their records in blocks of the private heap, one
each. -/
structure LiveOk (cfg : SpaceConfig α) (rep : Buff → List Extent → α → Prop)
    (t : Tracked α) : Prop where
  records : ∃ blocks, RecordsOk cfg rep blocks t.machine ∧ ∀ addr heap,
    (.priv addr, heap) ∈ t.live → ⟨addr, sizeofHeap⟩ ∈ blocks ∧
      addr ≠ t.machine.proc.space.privHeap ∧
      PrivRecord cfg.guardPages addr (t.machine.heap (.priv addr))
  apart : t.live.Pairwise fun e e' => ∀ addr, e.1 = .priv addr → e'.1 ≠ .priv addr

/-- Without a heap that is live, no other has its record at the same address. -/
theorem LiveOk.erase (h : LiveOk cfg rep t) {addr : ℕ} {heap : Heap}
    (hmem : (.priv addr, heap) ∈ t.live) :
    ∀ e ∈ t.live.erase (.priv addr, heap), e.1 ≠ .priv addr := by
  have hsymm : ∀ {e e' : HeapPtr × Heap}, (∀ addr, e.1 = .priv addr → e'.1 ≠ .priv addr) →
      ∀ addr, e'.1 = .priv addr → e.1 ≠ .priv addr :=
    fun hne addr he' he => hne addr he he'
  have hapart := ((List.perm_cons_erase hmem).pairwise_iff hsymm).mp h.apart
  exact fun e he => (List.pairwise_cons.mp hapart).1 e he addr rfl

theorem LiveOk.step {op : HeapOp} (hop : PrivateBlank cfg rep) (h : LiveOk cfg rep t)
    (hreg : Registered t) (hstep : HeapStep cfg t op t') : LiveOk cfg rep t' := by
  obtain ⟨blocks, hrecords, hlive⟩ := h.records
  cases hstep with
  | @created size mmapFlags type ptr m' hcall =>
    obtain ⟨hpriv, blocks', hrecords', hkept, hnew⟩ := hrecords.create hop hcall
    refine ⟨⟨blocks', hrecords', fun addr heap hmem => ?_⟩, ?_⟩
    · cases List.mem_append.mp hmem with
      | inl hold =>
        obtain ⟨hblock, hne, hrecord⟩ := hlive addr heap hold
        obtain ⟨hblock', hheap⟩ := hkept _ hblock
        simp only at hheap
        refine ⟨hblock', by rw [hpriv]; exact hne, ?_⟩
        rw [hheap]
        exact hrecord
      | inr hlast =>
        obtain ⟨rfl, rfl⟩ := Prod.mk.inj (List.mem_singleton.mp hlast)
        obtain ⟨hblock, hne, hrecord⟩ := hnew addr rfl
        refine ⟨hblock, ?_, hrecord⟩
        rw [hpriv]
        exact (hne _ hrecords.own).symm
    · refine List.pairwise_append.mpr ⟨h.apart, List.pairwise_singleton _ _, ?_⟩
      rintro ⟨q, heap⟩ he e' he' addr rfl hptr
      obtain rfl := List.mem_singleton.mp he'
      obtain rfl : ptr = .priv addr := hptr
      exact (hnew addr rfl).2.1 _ (hlive addr heap he).1 rfl
  | refused hcall =>
    obtain ⟨hpriv, blocks', hrecords', hkept, -⟩ := hrecords.create hop hcall
    refine ⟨⟨blocks', hrecords', fun addr heap hmem => ?_⟩, h.apart⟩
    obtain ⟨hblock, hne, hrecord⟩ := hlive addr heap hmem
    obtain ⟨hblock', hheap⟩ := hkept _ hblock
    simp only at hheap
    refine ⟨hblock', by rw [hpriv]; exact hne, ?_⟩
    rw [hheap]
    exact hrecord
  | @destroyed ptr heap m' hmem hcall =>
    have herased := h.apart.sublist (List.erase_sublist (a := (ptr, heap)))
    cases ptr with
    | slot i =>
      obtain ⟨hrecords', hspace, hheaps⟩ :=
        hrecords.destroySlot hop.sound (hreg.live i heap hmem) hcall
      refine ⟨⟨blocks, hrecords', fun addr heap' hmem' => ?_⟩, herased⟩
      simp only [hspace]
      rw [hheaps _ (by simp)]
      exact hlive addr heap' (List.mem_of_mem_erase hmem')
    | priv a =>
      obtain ⟨hblock, hne, hrecord⟩ := hlive a heap hmem
      obtain ⟨hrecords', hspace, hheaps, -⟩ := hrecords.destroy hop.sound hblock hne hrecord hcall
      refine ⟨⟨_, hrecords', fun addr heap' hmem' => ?_⟩, herased⟩
      have hother : HeapPtr.priv addr ≠ .priv a := h.erase hmem _ hmem'
      obtain ⟨hblock', hne', hrecord'⟩ := hlive addr heap' (List.mem_of_mem_erase hmem')
      simp only [hspace]
      rw [hheaps _ hother]
      exact ⟨mem_releaseBlock.mpr ⟨hblock', fun heq => hother (congrArg HeapPtr.priv heq)⟩,
        hne', hrecord'⟩

/-- **The live heaps outside the control page** have their records throughout a run. -/
theorem LiveOk.run {past : List (Tracked α × HeapOp)} (hop : PrivateBlank cfg rep)
    (h : LiveOk cfg rep t) (hreg : Registered t) (hrun : HeapRun cfg t past t') :
    LiveOk cfg rep t' := by
  induction hrun with
  | refl => exact h
  | step hbefore hstep ih => exact ih.step hop (hreg.run hbefore) hstep

/-- A process starts with the entries of the control page that it finds. -/
theorem shallocSpaceInit_slots {stack : ℕ} {inherited : Option (Shared α)}
    (h : shallocSpaceInit cfg stack inherited = some m) (i : ℕ) :
    m.heap (.slot i) = (inherited.getD (Shared.zero cfg.blank)).magic.heapList i := by
  simp only [shallocSpaceInit, bind, Option.bind_eq_some_iff, Prod.exists, Option.some.injEq] at h
  obtain ⟨privHeap, m2, hpriv, m3, hmagic, _, m4, hmalloc, _, -, space, -, rfl⟩ := h
  obtain ⟨hlist1, -⟩ := shallocSpaceReserve_cases cfg
    ⟨inherited.getD (Shared.zero cfg.blank), Process.boot cfg.blank⟩
  obtain ⟨hlist2, -⟩ := shallocSpacePrivHeap_cases hpriv
  have hlist4 := (withRegion_keeps hmalloc).1.sameList
  have hslot3 : m3.heap (.slot i) = m2.heap (.slot i) := by
    cases hinherited : inherited.isSome with
    | true =>
      rw [hinherited] at hmagic
      exact ((keeps_log (.priv 0) m2 _).sameList.trans
        (shallocSpaceAttach_sameList hmagic)).slots i
    | false =>
      rw [hinherited] at hmagic
      obtain rfl := Option.some.inj hmagic
      rfl
  rw [heap_setSpace, hlist4.slots i, hslot3, hlist2.slots i, hlist1.slots i]
  rfl

/-- A process that has just started, with a control page in which the records fit. -/
theorem LiveOk.init {stack : ℕ} {inherited : Option (Shared α)} (hop : PrivateBlank cfg rep)
    (hlisted : ListedPages m)
    (hslots : ∀ i, RecordFits cfg.guardPages
      (controlAddr cfg.guardPages + heapListOffset + sizeofHeap * i)
      ((inherited.getD (Shared.zero cfg.blank)).magic.heapList i))
    (h : shallocSpaceInit cfg stack inherited = some m) :
    LiveOk cfg rep m.tracked := by
  obtain ⟨hcontrol, hstart, blocks, hpriv, hown⟩ := PrivateOk.init hop.sound h
  obtain ⟨-, privHeap, hfold⟩ := shallocSpaceInit_cases h
  obtain ⟨hok, hsame, -⟩ :=
    (shallocSpaceRecord_ok cfg.guardPages privHeap).1.newHeaps hlisted.listed hfold
  have hend : m.proc.space.data.endAddr < 2 ^ 63 := by
    rw [hsame.endAddr, shallocSpaceRecord_data]
    exact (by decide : 0xBFFFFFFF < 2 ^ 63)
  have hslot : ∀ addr heap, (HeapPtr.priv addr, heap) ∉ m.entries := by
    intro addr heap hmem
    obtain ⟨i, -, heq⟩ := mem_firstEntries.mp hmem
    exact absurd (Prod.mk.inj heq).1 (by simp)
  refine ⟨⟨blocks, ⟨hcontrol, hstart, hend, hok, hpriv, hown, fun i => ?_⟩,
    fun addr heap hmem => absurd hmem (hslot addr heap)⟩, ?_⟩
  · show RecordFits _ (m.heapAddr (.slot i)) (m.heap (.slot i))
    rw [shallocSpaceInit_slots h, heapAddr, hcontrol]
    exact hslots i
  · refine List.pairwise_iff_forall_sublist.mpr fun {e e'} hsub addr he => ?_
    have hmem : e ∈ m.entries := hsub.subset List.mem_cons_self
    obtain ⟨q, heap⟩ := e
    obtain rfl : q = .priv addr := he
    exact absurd hmem (hslot addr heap)

/-- Every process starts like that. -/
theorem Started.liveOk (hop : PrivateBlank cfg rep) (h : Started cfg m) :
    LiveOk cfg rep m.tracked := by
  induction h with
  | fresh hinit =>
    exact .init hop (Started.fresh hinit).placement.listed
      (fun i => recordFits_zero _ _) hinit
  | @exec _ _ _ _ t hstart hrun hinit ih =>
    obtain ⟨blocks, hrecords, -⟩ := (ih.run hop hstart.registered hrun).records
    refine .init hop (Started.exec hstart hrun hinit).placement.listed (fun i => ?_) hinit
    have hslot := hrecords.slots i
    rw [heapAddr, hrecords.control] at hslot
    exact hslot

end Runs

section Unmap

/-- A free of the block at `p` would join its chunk with a lower buddy. -/
def mpliteFreesLower (handle : Mplite) (p : ℕ) : Prop :=
  let i := (p - handle.zPool) / handle.szAtom
  mpliteJoinsLower handle i (mpliteLogmax + 1) (handle.aCtrl i &&& mpliteCtrlLogsize)

instance (handle : Mplite) (p : ℕ) : Decidable (mpliteFreesLower handle p) :=
  inferInstanceAs (Decidable (mpliteJoinsLower ..))

/-- The pool of the private heap. -/
def Machine.privPool (m : Machine (AllocState (Mplite ⊕ σ))) (guardPages : Bool) : Option Mplite :=
  match m.proc.store.cells (privBuff guardPages).start with
  | .other (.inl handle) => some handle
  | _ => none

/-- The private heap would join the record at `ptr` with a lower buddy. -/
def PrivFreesLower (guardPages : Bool) (m : Machine (AllocState (Mplite ⊕ σ))) (ptr : HeapPtr) :
    Prop :=
  ∃ handle, m.privPool guardPages = some handle ∧ mpliteFreesLower handle (m.heapAddr ptr)

/-- The last call to the system unmapped the range of a heap. -/
def Unmaps (heap : Heap) (m : Machine α) : Prop :=
  m.proc.calls.head? = some (.munmap heap.base.start heap.base.size)

/-- A word whose upper half is `-1` is no address. -/
theorem mpliteFreedWord_linked {handle : Mplite} {addr : ℕ} (old : ℕ)
    (hfree : handle.aCtrl ((addr - handle.zPool) / handle.szAtom) &&& mpliteCtrlFree ≠ 0)
    (hprev : (handle.links ((addr - handle.zPool) / handle.szAtom)).prev = -1) :
    2 ^ 63 ≤ mpliteFreedWord (σ := σ) (.other (.inl handle)) addr old := by
  simp only [mpliteFreedWord, if_pos hfree, hprev]
  have hhalf : ((-1 : ℤ) % 2 ^ 32).toNat = 2 ^ 32 - 1 := by decide
  rw [hhalf]
  omega

/-- **The destruction of a heap.** In every process, the destruction of a live heap that is not
inherited unmaps that heap iff its record is joined with a lower buddy. -/
theorem heapDestroy_unmaps_iff {cfg : SpaceConfig (AllocState (Mplite ⊕ σ))}
    {m m' : Machine (AllocState (Mplite ⊕ σ))} {t : Tracked (AllocState (Mplite ⊕ σ))}
    {past : List (Tracked (AllocState (Mplite ⊕ σ)) × HeapOp)} {heap : Heap}
    (hcfg : MpliteConfig cfg) (hstart : Started cfg m) (hrun : HeapRun cfg m.tracked past t)
    (hmem : (ptr, heap) ∈ t.live) (hown : mapInherit (t.machine.heap ptr).mmapFlags = false)
    (hdestroy : shallocHeapRegionDestroy cfg ptr t.machine = some m') :
    Unmaps (t.machine.heap ptr) m' ↔ PrivFreesLower cfg.guardPages t.machine ptr := by
  have hop := hcfg.privateBlank
  obtain ⟨blocks, hrecords, hlive⟩ :=
    ((hstart.liveOk hop).run hop hstart.registered hrun).records
  cases ptr with
  | slot i =>
    have hslot := (hstart.registered.run hrun).live i heap hmem
    exact absurd (hslot.1.symm.trans hown) (by simp)
  | priv addr =>
    obtain ⟨hblock, hne, hrecord⟩ := hlive addr heap hmem
    obtain ⟨-, -, -, a, hfree, hcalls⟩ := hrecords.destroy hop.sound hblock hne hrecord hdestroy
    have hrep : MpliteRep _ blocks _ := hrecords.heap.rep
    rw [hcfg.ops] at hfree
    obtain ⟨handle, handle', hcell, rfl, hpos, hrun⟩ := hrep.opFree hblock hfree
    obtain ⟨hplaced, tile, hpool, huses⟩ := hrep.pool hcell hpos
    obtain ⟨i, k, hptr, hi, -⟩ := huses _ hblock
    simp only at hptr hrun
    have hatom := hplaced.atom_pos
    have hindex : (addr - handle.zPool) / handle.szAtom = i := by
      rw [hptr, Nat.add_sub_cancel_left, Nat.mul_div_cancel _ hatom]
    have hctrl : handle.aCtrl i &&& mpliteCtrlLogsize = k := by
      have htile := liveLog_eq_some.mp hi
      rw [hpool.ctrl htile (by simp)]
      exact (mpliteCtrl_live (hpool.log_le htile)).1
    have hlower : PrivFreesLower cfg.guardPages t.machine (.priv addr) ↔
        mpliteJoinsLower handle i (mpliteLogmax + 1) k := by
      have hfrees : mpliteFreesLower handle addr ↔
          mpliteJoinsLower handle i (mpliteLogmax + 1) k := by
        simp only [mpliteFreesLower, hindex, hctrl]
      simp only [PrivFreesLower, privPool, hcell, Option.some.injEq, exists_eq_left']
      exact hfrees
    rw [hlower, Unmaps, hcalls, hcfg.freedWord]
    rw [hptr] at hrun
    have hplace := (hpool.free hatom hi hrun).1
    have hindex' : (addr - handle'.zPool) / handle'.szAtom = i := by
      simp only [Mplite.place, Prod.mk.injEq] at hplace
      rw [hplace.1, hplace.2.2]
      exact hindex
    obtain ⟨hjoins, hzero⟩ | ⟨hjoins, hlinked, hprev⟩ := hpool.free_link hatom hi hrun
    · refine iff_of_true ?_ hjoins
      simp only [mpliteFreedWord, hindex', hzero, Nat.zero_and, ne_eq, not_true_eq_false, if_false]
    · refine iff_of_false (fun hsame => ?_) hjoins
      rw [← hindex'] at hlinked hprev
      have hword := mpliteFreedWord_linked (σ := σ) (t.machine.heap (.priv addr)).base.start
        hlinked hprev
      obtain ⟨hstart', -⟩ := SysCall.munmap.inj (Option.some.inj hsame)
      have hbelow := hrecord.start
      omega

/-- Three heaps are created, and the second and the third are destroyed: the record of the third
is joined with the chunk that the second had. -/
theorem heapDestroy_unmaps_third : ∃ m m1 m2 m3 m4 m5 p q r,
    shallocSpaceInit mpliteConfig 0x7fff0000 none = some m ∧
    shallocHeapCreate mpliteConfig 1 0x22 .nofree m = some (some p, m1) ∧
    shallocHeapCreate mpliteConfig 1 0x22 .nofree m1 = some (some q, m2) ∧
    shallocHeapCreate mpliteConfig 1 0x22 .nofree m2 = some (some r, m3) ∧
    shallocHeapRegionDestroy mpliteConfig q m3 = some m4 ∧
    shallocHeapRegionDestroy mpliteConfig r m4 = some m5 ∧ Unmaps (m4.heap r) m5 := by
  have hruns : (do
      let m ← shallocSpaceInit mpliteConfig 0x7fff0000 none
      let (p, m1) ← shallocHeapCreate mpliteConfig 1 0x22 .nofree m
      let (q, m2) ← shallocHeapCreate mpliteConfig 1 0x22 .nofree m1
      let (r, m3) ← shallocHeapCreate mpliteConfig 1 0x22 .nofree m2
      let q ← q
      let r ← r
      let m4 ← shallocHeapRegionDestroy mpliteConfig q m3
      let _ ← shallocHeapRegionDestroy mpliteConfig r m4
      let handle ← m4.privPool true
      some (p.isSome, q, r, mapInherit (m4.heap r).mmapFlags,
        decide (mpliteFreesLower handle (m4.heapAddr r)))) =
      some (true, .priv 0x80001AD8, .priv 0x80001BD8, false, true) := by
    decide +kernel
  simp only [bind, Option.bind_eq_some_iff, Prod.exists, Option.some.injEq, Prod.mk.injEq,
    decide_eq_true_eq] at hruns
  obtain ⟨m, hinit, _, m1, h1, _, m2, h2, _, m3, h3, q, rfl, r, rfl, m4, h4, m5, h5, handle, hpool,
    hsome, hq, hr, hown, hlower⟩ := hruns
  obtain ⟨p, rfl⟩ := Option.isSome_iff_exists.mp hsome
  refine ⟨m, m1, m2, m3, m4, m5, p, q, r, hinit, h1, h2, h3, h4, h5, ?_⟩
  have hsecond : (q, m2.heap q) ∈
      m.entries ++ [(p, m1.heap p)] ++ [(q, m2.heap q)] ++ [(r, m3.heap r)] := by simp
  have hcreated : HeapRun mpliteConfig m.tracked _
      ⟨m3, m.entries ++ [(p, m1.heap p)] ++ [(q, m2.heap q)] ++ [(r, m3.heap r)], _⟩ :=
    .step (.step (.step .refl (.created h1)) (.created h2)) (.created h3)
  have hrun := hcreated.step (.destroyed hsecond h4)
  have hother : (r, m3.heap r) ≠ (q, m2.heap q) := by
    rw [hq, hr]
    exact fun heq => absurd (Prod.mk.inj heq).1 (by decide)
  have hthird : (r, m3.heap r) ∈
      (m.entries ++ [(p, m1.heap p)] ++ [(q, m2.heap q)] ++ [(r, m3.heap r)]).erase
        (q, m2.heap q) :=
    (List.mem_erase_of_ne hother).mpr (List.mem_append_right _ List.mem_cons_self)
  exact (heapDestroy_unmaps_iff mpliteConfig_ok (.fresh hinit) hrun hthird hown h5).mpr
    ⟨handle, hpool, hlower⟩

/-- The only heap of a process: what is unmapped starts at `2 ^ 64 - 1`. -/
theorem not_heapDestroy_unmaps :
    ¬ ∀ (cfg : SpaceConfig (AllocState (Mplite ⊕ Unit)))
      (m m' : Machine (AllocState (Mplite ⊕ Unit)))
      (past : List (Tracked (AllocState (Mplite ⊕ Unit)) × HeapOp))
      (t : Tracked (AllocState (Mplite ⊕ Unit))) (ptr : HeapPtr) (heap : Heap),
      MpliteConfig cfg → Started cfg m → HeapRun cfg m.tracked past t → (ptr, heap) ∈ t.live →
      mapInherit (t.machine.heap ptr).mmapFlags = false →
      shallocHeapRegionDestroy cfg ptr t.machine = some m' → Unmaps (t.machine.heap ptr) m' := by
  intro h
  have hruns : (do
      let m ← shallocSpaceInit mpliteConfig 0x7fff0000 none
      let (p, m1) ← shallocHeapCreate mpliteConfig 1 0x22 .nofree m
      let p ← p
      let m2 ← shallocHeapRegionDestroy mpliteConfig p m1
      some (mapInherit (m1.heap p).mmapFlags, (m1.heap p).base.start, m2.proc.calls.head?)) =
      some (false, 0x80005000, some (.munmap (2 ^ 64 - 1) 0x2000)) := by
    decide +kernel
  simp only [bind, Option.bind_eq_some_iff, Prod.exists, Option.some.injEq, Prod.mk.injEq] at hruns
  obtain ⟨m, hinit, _, m1, h1, p, rfl, m2, h2, hown, hstart, hcalls⟩ := hruns
  have hunmaps := h mpliteConfig m m2 _ _ p (m1.heap p) mpliteConfig_ok (.fresh hinit)
    (.step .refl (.created h1)) (List.mem_append_right _ List.mem_cons_self) hown h2
  rw [Unmaps, hcalls] at hunmaps
  obtain ⟨hsame, -⟩ := SysCall.munmap.inj (Option.some.inj hunmaps)
  rw [hstart] at hsame
  exact absurd hsame (by decide)

end Unmap

end Shalloc
