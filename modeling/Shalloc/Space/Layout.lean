import Shalloc.Bump
import Shalloc.Space.Cases

/-!
# The layout of the shadow space

The sizes that `shalloc_get_heap` computes, the offset that `shalloc_space_new_heap` keeps,
and the space that `shalloc_space_init` leaves.

## Main definitions

- `HeapShape` — a heap placed at an address
- `SpaceOk` — the range of the space and its offset

## Main results

- `HeapCreated.place` — a new heap lies at the offset, and the offset moves past it
- `shallocSpaceInit_cases` — the space and the list of heaps after `shalloc_space_init`
-/

namespace Shalloc

variable {α : Type} {cfg : SpaceConfig α} {m m' : Machine α} {ptr : HeapPtr}

open Machine

section Shape

/-- The range of addresses that a heap takes up, guard page included. -/
def Heap.range (heap : Heap) : Extent := ⟨heap.base.start, heap.base.size⟩

/-- A heap at the address `addr`: at least one page of data, and a guard page if there are
guard pages. -/
structure HeapShape (guardPages : Bool) (addr : ℕ) (heap : Heap) : Prop where
  start : heap.base.start = addr
  dataStart : heap.region.defaultData.start = addr
  dataPos : 0 < heap.region.defaultData.size
  dataPages : shallocPageSize ∣ heap.region.defaultData.size
  size : heap.base.size =
    heap.region.defaultData.size + if guardPages then shallocPageSize else 0
  isHeap : hasFlag heap.region.flags .heap = true

theorem HeapShape.pages {guardPages : Bool} {addr : ℕ} {heap : Heap}
    (h : HeapShape guardPages addr heap) :
    shallocPageSize ∣ heap.base.size ∧ 0 < heap.base.size := by
  rw [h.size]
  refine ⟨Nat.dvd_add h.dataPages ?_, Nat.add_pos_left h.dataPos _⟩
  split
  · exact dvd_rfl
  · exact Nat.dvd_zero _

/-- The size of a heap is rounded down to whole pages, but never to nothing. -/
theorem shallocHeapPages_spec {size : ℕ} (hpos : 0 < size) :
    shallocPageSize ∣ shallocHeapPages size ∧ 0 < shallocHeapPages size := by
  have hpage : 0 < shallocPageSize := by decide
  simp only [shallocHeapPages]
  split
  · split
    · next hzero => rw [hzero]; exact ⟨by simp, by simpa using hpage⟩
    · next hne => exact ⟨Nat.dvd_mul_left .., Nat.pos_of_ne_zero hne⟩
  · next hmod => exact ⟨Nat.dvd_of_mod_eq_zero (by omega), hpos⟩

/-- A heap with more than 100 pages gives one of them to its guard page. -/
theorem shallocHeapDataSize_spec (guardPages : Bool) {size : ℕ}
    (hpages : shallocPageSize ∣ size) (hpos : 0 < size) :
    shallocPageSize ∣ shallocHeapDataSize guardPages size ∧
      0 < shallocHeapDataSize guardPages size := by
  have hpage : 0 < shallocPageSize := by decide
  simp only [shallocHeapDataSize]
  split
  · next hlarge => exact ⟨Nat.dvd_sub hpages dvd_rfl, by omega⟩
  · exact ⟨hpages, hpos⟩

theorem shallocGetBuff_size {start size blockSize : ℕ} {type default : BuffAllocType}
    (h : shallocBuffMinSize ≤ size) :
    (shallocGetBuff start size blockSize type default).size = size :=
  if_neg fun hsmall => absurd hsmall.2 (Nat.not_lt.mpr h)

/-- **The shape of a heap.** -/
theorem shallocGetHeap_shape {guardPages : Bool} {self addr size mmapFlags : ℕ} {old got : Heap}
    {type : BuffAllocType}
    (h : shallocGetHeap guardPages self old addr size mmapFlags type = some got) :
    HeapShape guardPages addr got := by
  unfold shallocGetHeap at h
  split at h
  · exact absurd h (by simp)
  next hsize =>
  obtain rfl := Option.some.inj h
  obtain ⟨hpages, hpos⟩ := shallocHeapPages_spec (Nat.pos_of_ne_zero hsize)
  obtain ⟨hdata, hdataPos⟩ := shallocHeapDataSize_spec guardPages hpages hpos
  have hle : shallocBuffMinSize ≤ shallocHeapDataSize guardPages (shallocHeapPages size) :=
    Nat.le_trans (by decide) (Nat.le_of_dvd hdataPos hdata)
  have hbase : shallocHeapBaseSize guardPages (shallocHeapPages size) =
      shallocHeapDataSize guardPages (shallocHeapPages size) +
        if guardPages then shallocPageSize else 0 := by
    unfold shallocHeapBaseSize
    cases guardPages <;> rfl
  exact
    { start := rfl
      dataStart := rfl
      dataPos := by rw [shallocGetBuff_size hle]; exact hdataPos
      dataPages := by rw [shallocGetBuff_size hle]; exact hdata
      size := by
        rw [shallocGetBuff_size hle, shallocGetBuff_size (hbase ▸ Nat.le_add_right_of_le hle),
          hbase]
      isHeap := by
        show hasFlag heapRegionFlags .heap = true
        decide }

theorem HeapShape.inheritId {guardPages : Bool} {addr : ℕ} {heap : Heap}
    (h : HeapShape guardPages addr heap) (id : ℤ) :
    HeapShape guardPages addr { heap with inheritId := id } :=
  ⟨h.start, h.dataStart, h.dataPos, h.dataPages, h.size, h.isHeap⟩

end Shape

section Offset

variable {space space' : Space}

/-- How much of the data range of the space has been given to heaps. -/
def Space.offset (space : Space) : ℕ := space.data.size - space.data.unusedSize

/-- The data range of a space ends below `2 ^ 64`, and the offset is a number of pages. -/
structure SpaceOk (space : Space) : Prop where
  size : space.data.start + space.data.size = space.data.endAddr + 1
  small : space.data.endAddr + 1 < 2 ^ 64
  unused : space.data.unusedSize ≤ space.data.size
  startPages : shallocPageSize ∣ space.data.start
  offsetPages : shallocPageSize ∣ space.offset

/-- The data range is the same, and so are the control page and the private heap. -/
structure SameSpace (space space' : Space) : Prop where
  start : space'.data.start = space.data.start
  size : space'.data.size = space.data.size
  endAddr : space'.data.endAddr = space.data.endAddr

theorem SameSpace.refl (space : Space) : SameSpace space space := ⟨rfl, rfl, rfl⟩

theorem SameSpace.trans {space'' : Space} (h : SameSpace space space')
    (h' : SameSpace space' space'') : SameSpace space space'' :=
  ⟨h'.start.trans h.start, h'.size.trans h.size, h'.endAddr.trans h.endAddr⟩

/-- The next heap goes to the start of the data range plus the offset. -/
theorem SpaceOk.nextAddr (h : SpaceOk space) :
    shallocSpaceNextAddr space = space.data.start + space.offset := by
  have hsize := h.size
  have hsmall := h.small
  have hunused := h.unused
  unfold shallocSpaceNextAddr Space.offset
  rw [Word.wrap_of_lt (by omega), Word.sub_of_le (by omega) (by omega)]
  omega

theorem SpaceOk.end_le (h : SpaceOk space) :
    space.data.start + space.offset ≤ space.data.endAddr + 1 := by
  rw [← h.size]
  exact Nat.add_le_add_left (Nat.sub_le _ _) _

/-- A heap that is accounted for moves the offset by its size. -/
theorem SpaceOk.newHeap {heap : Heap} (h : SpaceOk space)
    (hpages : shallocPageSize ∣ heap.base.size)
    (hnew : shallocSpaceNewHeap heap space = some space') :
    SpaceOk space' ∧ SameSpace space space' ∧
      space'.offset = space.offset + heap.base.size := by
  unfold shallocSpaceNewHeap at hnew
  split at hnew
  · exact absurd hnew (by simp)
  split at hnew
  next hroom =>
    obtain rfl := Option.some.inj hnew
    have hunused := h.unused
    have hoffset : space.data.size - (space.data.unusedSize - heap.base.size) =
        space.offset + heap.base.size := by
      unfold Space.offset
      omega
    refine ⟨⟨h.size, h.small, Nat.le_trans (Nat.sub_le _ _) hunused, h.startPages, ?_⟩,
      ⟨rfl, rfl, rfl⟩, hoffset⟩
    show shallocPageSize ∣ space.data.size - (space.data.unusedSize - heap.base.size)
    rw [hoffset]
    exact Nat.dvd_add h.offsetPages hpages
  · exact absurd hnew (by simp)

/-- **The place of a new heap.** It lies at the offset, which moves past it. -/
theorem HeapCreated.place {size mmapFlags : ℕ} {type : BuffAllocType}
    (h : HeapCreated cfg size mmapFlags type m m' ptr) (hok : SpaceOk m.proc.space) :
    HeapShape cfg.guardPages (m.proc.space.data.start + m.proc.space.offset) (m'.heap ptr) ∧
      SpaceOk m'.proc.space ∧ SameSpace m.proc.space m'.proc.space ∧
      m'.proc.space.offset = m.proc.space.offset + (m'.heap ptr).base.size := by
  obtain ⟨self, old, id, got, hgot, hheap⟩ := h.record
  have hshape : HeapShape cfg.guardPages (m.proc.space.data.start + m.proc.space.offset)
      (m'.heap ptr) := by
    rw [← hok.nextAddr, hheap]
    exact (shallocGetHeap_shape hgot).inheritId id
  exact ⟨hshape, hok.newHeap hshape.pages.1 h.space⟩

end Offset

section Init

/-- The list of heaps of the control page is the same. -/
structure SameList (m m' : Machine α) : Prop where
  numHeaps : m'.shared.magic.numHeaps = m.shared.magic.numHeaps
  slots : ∀ i, m'.heap (.slot i) = m.heap (.slot i)

theorem SameList.trans {m'' : Machine α} (h : SameList m m') (h' : SameList m' m'') :
    SameList m m'' :=
  ⟨h'.numHeaps.trans h.numHeaps, fun i => (h'.slots i).trans (h.slots i)⟩

/-- A call on a record outside the control page. -/
theorem Machine.Keeps.sameList {a : ℕ} (h : Keeps (.priv a) 0 m m') : SameList m m' :=
  ⟨by rw [h.numHeaps, Int.add_zero], fun i => h.slots i (by simp)⟩

/-- The address of the control page. -/
def controlAddr (guardPages : Bool) : ℕ :=
  if guardPages then shallocBaseAddr + 3 * shallocPageSize else shallocBaseAddr + shallocPageSize

theorem shallocSpaceReserve_cases (cfg : SpaceConfig α) (m : Machine α) :
    SameList m (shallocSpaceReserve cfg m).2 ∧
      (shallocSpaceReserve cfg m).1 =
        shallocBaseAddr + if cfg.guardPages then shallocPageSize else 0 := by
  have hkeeps := keeps_mapFixedPages (.priv 0) m cfg.blank shallocBaseAddr shallocBaseSize
    protReadWrite shallocDefaultMmapFlags
  unfold shallocSpaceReserve
  by_cases hguard : cfg.guardPages = true
  · simp only [if_pos hguard]
    exact ⟨(hkeeps.trans_zero (keeps_mapFixedPages _ _ _ _ _ _ _)).sameList, trivial⟩
  · simp only [if_neg hguard]
    exact ⟨hkeeps.sameList, rfl⟩

theorem shallocSpacePrivHeap_cases {stack addr priv : ℕ}
    (h : shallocSpacePrivHeap cfg stack addr m = some (priv, m')) :
    SameList m m' ∧ (m'.heap (.priv priv)).base.size =
      shallocPrivateHeapSize + if cfg.guardPages then shallocPageSize else 0 := by
  simp only [shallocSpacePrivHeap, bind, Option.bind_eq_some_iff, Prod.exists] at h
  obtain ⟨got, hgot, remapped, m1, hmap, ret, m2, hcreate, h⟩ := h
  split at h
  · exact absurd h (by simp)
  simp only [Option.bind_eq_some_iff, Prod.exists, Option.some.injEq, Prod.mk.injEq] at h
  obtain ⟨_, m3, hmalloc, p, -, rfl, rfl⟩ := h
  obtain ⟨hkeeps1, ⟨id, hheap1⟩, -⟩ := shallocMapHeap_keeps hmap
  obtain ⟨hkeeps2, hheap2⟩ := shallocHeapOpCreate_keeps hcreate
  obtain ⟨hkeeps3, region, hheap3⟩ := withRegion_keeps hmalloc
  have hlist := ((((keeps_setHeap (.priv stack) m got).trans_zero hkeeps1).trans_zero
    hkeeps2).trans_zero hkeeps3).sameList
  refine ⟨hlist.trans (keeps_setHeap (.priv p) _ _).sameList, ?_⟩
  have hbase : (m3.heap (.priv stack)).base = got.base := by
    rw [hheap3, hheap2, hheap1, heap_setHeap, if_pos rfl]
  rw [heap_setHeap, if_pos rfl]
  simp only [hbase]
  have hone : shallocHeapPages shallocPrivateHeapSize = shallocPrivateHeapSize := by decide
  have hdata : shallocHeapDataSize cfg.guardPages shallocPrivateHeapSize =
      shallocPrivateHeapSize := by
    cases cfg.guardPages <;> decide
  unfold shallocGetHeap at hgot
  rw [if_neg (by decide)] at hgot
  rw [← Option.some.inj hgot]
  show (shallocGetBuff _ (shallocHeapBaseSize cfg.guardPages _) _ _ _).size = _
  rw [hone, shallocGetBuff_size] <;> unfold shallocHeapBaseSize <;> rw [hdata] <;>
    cases cfg.guardPages <;> decide

theorem shallocSpaceAttach_sameList {heaps : List Heap} :
    ∀ {m : Machine α}, shallocSpaceAttach heaps m = some m' → SameList m m' := by
  induction heaps with
  | nil => exact fun h => Option.some.inj h ▸ (Keeps.refl (.priv 0) _).sameList
  | cons heap heaps ih =>
    intro m h
    simp only [shallocSpaceAttach, bind, Option.bind_eq_some_iff] at h
    obtain ⟨data, -, h⟩ := h
    exact (keeps_log (.priv 0) m _).sameList.trans (ih h)

theorem shallocSpaceMagic_cases {inherited : Bool} {addr : ℕ}
    (h : shallocSpaceMagic cfg inherited addr m = some m') :
    (inherited = true ∧ SameList m m') ∨ (inherited = false ∧ m'.shared.magic.numHeaps = 0) := by
  cases inherited with
  | true =>
    exact Or.inl ⟨rfl, (keeps_log (.priv 0) m _).sameList.trans (shallocSpaceAttach_sameList h)⟩
  | false =>
    obtain rfl := Option.some.inj h
    exact Or.inr ⟨rfl, rfl⟩

/-- **The start of a process.** The list of heaps is the inherited one or empty, and the
offset of the space is made up from it. -/
theorem shallocSpaceInit_cases {stack : ℕ} {inherited : Option (Shared α)}
    (h : shallocSpaceInit cfg stack inherited = some m) :
    ((∃ shared, inherited = some shared ∧ m.shared.magic.numHeaps = shared.magic.numHeaps ∧
        ∀ i, m.heap (.slot i) = shared.magic.heapList i) ∨
      (inherited = none ∧ m.shared.magic.numHeaps = 0)) ∧
    ∃ privHeap, m.shared.magic.listed.foldlM (fun space heap => shallocSpaceNewHeap heap space)
      (shallocSpaceRecord (controlAddr cfg.guardPages) privHeap) = some m.proc.space := by
  simp only [shallocSpaceInit, bind, Option.bind_eq_some_iff, Prod.exists, Option.some.injEq] at h
  obtain ⟨privHeap, m2, hpriv, m3, hmagic, _, m4, hmalloc, _, -, space, hspace, rfl⟩ := h
  obtain ⟨hlist1, haddr⟩ := shallocSpaceReserve_cases cfg
    ⟨inherited.getD (Shared.zero cfg.blank), Process.boot cfg.blank⟩
  obtain ⟨hlist2, hsize⟩ := shallocSpacePrivHeap_cases hpriv
  have hlist4 := (withRegion_keeps hmalloc).1.sameList
  have hcontrol : (shallocSpaceReserve cfg
      ⟨inherited.getD (Shared.zero cfg.blank), Process.boot cfg.blank⟩).1 +
        (m2.heap (.priv privHeap)).base.size = controlAddr cfg.guardPages := by
    rw [haddr, hsize]
    cases cfg.guardPages <;> rfl
  rw [hcontrol] at hspace
  refine ⟨?_, privHeap, hspace⟩
  obtain ⟨hsome, hlist3⟩ | ⟨hnone, hzero⟩ := shallocSpaceMagic_cases hmagic
  · obtain ⟨shared, rfl⟩ := Option.isSome_iff_exists.mp hsome
    have hlist := ((hlist1.trans hlist2).trans hlist3).trans hlist4
    exact Or.inl ⟨shared, rfl, hlist.numHeaps, fun i => by rw [heap_setSpace]; exact hlist.slots i⟩
  · cases inherited with
    | some shared => exact absurd hnone (by simp)
    | none => exact Or.inr ⟨rfl, hlist4.numHeaps.trans hzero⟩

/-- The data range runs from the pages after the control page to the end of the space. -/
theorem shallocSpaceRecord_data (guardPages : Bool) (privHeap : ℕ) :
    (shallocSpaceRecord (controlAddr guardPages) privHeap).data =
      { start := controlAddr guardPages + 2 * shallocPageSize
        endAddr := 0xBFFFFFFF
        size := 0xC0000000 - (controlAddr guardPages + 2 * shallocPageSize)
        unusedSize := 0xC0000000 - (controlAddr guardPages + 2 * shallocPageSize)
        blockSize := 0
        next := none
        allocType := .none } := by
  cases guardPages <;>
    simp [shallocSpaceRecord, shallocGetBuff, controlAddr, shallocBaseAddr, shallocBaseSize,
      shallocPageSize, shallocBuffMinSize, Word.wrap, Word.sub]

/-- The space with no heap in it. -/
theorem shallocSpaceRecord_ok (guardPages : Bool) (privHeap : ℕ) :
    SpaceOk (shallocSpaceRecord (controlAddr guardPages) privHeap) ∧
      (shallocSpaceRecord (controlAddr guardPages) privHeap).offset = 0 := by
  have hdata := shallocSpaceRecord_data guardPages privHeap
  have hle : controlAddr guardPages + 2 * shallocPageSize ≤ 0xC0000000 := by
    cases guardPages <;> decide
  have hoffset : (shallocSpaceRecord (controlAddr guardPages) privHeap).offset = 0 := by
    rw [Space.offset, hdata, Nat.sub_self]
  exact ⟨{ size := by rw [hdata]; exact Nat.add_sub_of_le hle
           small := by rw [hdata]; exact (by decide : 0xBFFFFFFF + 1 < 2 ^ 64)
           unused := by rw [hdata]
           startPages := by rw [hdata]; cases guardPages <;> decide
           offsetPages := by rw [hoffset]; exact Nat.dvd_zero _ }, hoffset⟩

/-- Accounting for heaps one after another moves the offset by their sizes. -/
theorem SpaceOk.newHeaps {heaps : List Heap} : ∀ {space space' : Space}, SpaceOk space →
    (∀ heap ∈ heaps, shallocPageSize ∣ heap.base.size) →
    heaps.foldlM (fun space heap => shallocSpaceNewHeap heap space) space = some space' →
    SpaceOk space' ∧ SameSpace space space' ∧
      space'.offset = space.offset + Extent.total (heaps.map Heap.range) := by
  induction heaps with
  | nil =>
    intro space space' h _ hfold
    obtain rfl := Option.some.inj hfold
    exact ⟨h, .refl _, rfl⟩
  | cons heap heaps ih =>
    intro space space' h hpages hfold
    simp only [List.foldlM_cons, bind, Option.bind_eq_some_iff] at hfold
    obtain ⟨space1, hnew, hfold⟩ := hfold
    obtain ⟨h1, hsame1, hoffset1⟩ := h.newHeap (hpages heap List.mem_cons_self) hnew
    obtain ⟨h2, hsame2, hoffset2⟩ :=
      ih h1 (fun heap hheap => hpages heap (List.mem_cons_of_mem _ hheap)) hfold
    refine ⟨h2, hsame1.trans hsame2, ?_⟩
    rw [hoffset2, hoffset1, List.map_cons, Extent.total_cons, Nat.add_assoc]
    rfl

end Init

end Shalloc
