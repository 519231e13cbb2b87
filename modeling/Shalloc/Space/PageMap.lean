import Shalloc.Space.Inherit

/-!
# The page map of a process

The system calls of a process as changes of its page map: `mmap` and `shmat` replace the
pages they cover, `munmap` and `shmdt` leave them unmapped. Two places map a heap again or
undo its mapping, the start of a process that inherits it and a failed creation, and both
are compared with `shalloc_map_heap`.

## Main definitions

- `Mapping`, `SysCall.remap`, `Process.pageMap` — the page map after a list of calls
- `Inherits` — an inherited heap and a process that starts with it
- `MapsBack` — when a failed creation leaves the page map as it was

## Main results

- `heir_map_ne` — an heir never maps a heap as its creator did
- `heapCreate_null_map_iff` — the page map after a creation that returns NULL
-/

namespace Shalloc

variable {α β : Type} {cfg : SpaceConfig α} {m m' : Machine α} {ptr : HeapPtr} {segSize : ℤ → ℕ}

open Machine

section Map

/-- How a page is mapped. A shared segment is attached for reading and writing. -/
inductive Mapping
  | unmapped
  | pages (prot mmapFlags : ℕ)
  | segment (id : ℤ)
deriving DecidableEq

/-- The pages of the `size` bytes from `addr`, the last one in whole. -/
def CoversPage (addr size page : ℕ) : Prop :=
  addr ≤ page * shallocPageSize ∧ page * shallocPageSize < addr + size

instance (addr size page : ℕ) : Decidable (CoversPage addr size page) :=
  inferInstanceAs (Decidable (_ ∧ _))

/-- What a system call does to the page map, with `segSize` the sizes of the shared segments.
An address within a page is refused by `munmap` and `shmdt`. -/
def SysCall.remap (segSize : ℤ → ℕ) : SysCall → (ℕ → Mapping) → ℕ → Mapping
  | .mmap addr size prot flags, map, page =>
    if CoversPage addr size page then .pages prot flags else map page
  | .munmap addr size, map, page =>
    if shallocPageSize ∣ addr ∧ CoversPage addr size page then .unmapped else map page
  | .shmget _ _, map, page => map page
  | .shmat id addr, map, page => if CoversPage addr (segSize id) page then .segment id else map page
  | .shmdt addr, map, page =>
    match map (addr / shallocPageSize) with
    | .segment id =>
      if shallocPageSize ∣ addr ∧ CoversPage addr (segSize id) page ∧ map page = .segment id then
        .unmapped
      else map page
    | _ => map page
  | .shmctl _, map, page => map page

/-- The page map that the calls of a process have made. -/
def Process.pageMap (segSize : ℤ → ℕ) (proc : Process α) : ℕ → Mapping :=
  proc.calls.foldr (SysCall.remap segSize) fun _ => .unmapped

/-- A segment has the size that it was made with. -/
def SysCall.Sized (segSize : ℤ → ℕ) : SysCall → Prop
  | .shmget size id => segSize id = size
  | _ => True

instance (segSize : ℤ → ℕ) : (call : SysCall) → Decidable (call.Sized segSize)
  | .shmget size id => inferInstanceAs (Decidable (segSize id = size))
  | .mmap .. | .munmap .. | .shmat .. | .shmdt _ | .shmctl _ => inferInstanceAs (Decidable True)

/-- The segments that a process made have the sizes that `segSize` says. -/
def SegSizes (segSize : ℤ → ℕ) (calls : List SysCall) : Prop := ∀ call ∈ calls, call.Sized segSize

theorem pageMap_congr {proc proc' : Process α} (h : proc'.calls = proc.calls) :
    proc'.pageMap segSize = proc.pageMap segSize := by
  rw [Process.pageMap, h]
  rfl

theorem pageMap_log (call : SysCall) :
    (m.log call).proc.pageMap segSize = call.remap segSize (m.proc.pageMap segSize) := rfl

theorem pageMap_mapFixedPages (blank : α) (addr size prot flags page : ℕ) :
    (m.mapFixedPages blank addr size prot flags).proc.pageMap segSize page =
      if CoversPage addr size page then .pages prot (flags ||| mapFixed)
      else m.proc.pageMap segSize page := rfl

/-- Detaching changes no page outside the segment that is attached there. -/
theorem pageMap_shmdt {addr size page : ℕ}
    (hsize : shallocPageSize ∣ addr → ∀ id,
      m.proc.pageMap segSize (addr / shallocPageSize) = .segment id → segSize id = size)
    (hout : ¬ CoversPage addr size page) :
    (m.log (.shmdt addr)).proc.pageMap segSize page = m.proc.pageMap segSize page := by
  rw [pageMap_log, SysCall.remap]
  split
  next id hid =>
    refine if_neg fun hdetached => hout ?_
    rw [← hsize hdetached.1 id hid]
    exact hdetached.2.1
  · rfl

end Map

section Calls

/-- The region layer makes no system call. -/
theorem withRegion_calls {f : ℕ → Store α → Option (β × Store α)} {res : β}
    (h : m.withRegion ptr f = some (res, m')) : m'.proc.calls = m.proc.calls := by
  obtain ⟨cell, st, region, data, -, -, -, -, rfl⟩ := withRegion_eq_some.mp h
  rw [setHeap_calls]
  rfl

theorem shallocPrivFree_calls (h : shallocPrivFree cfg ptr m = some m') :
    m'.proc.calls = m.proc.calls := by
  simp only [shallocPrivFree, bind, Option.bind_eq_some_iff, Prod.exists, Option.some.injEq] at h
  obtain ⟨_, m1, hfree, cell, -, rfl⟩ := h
  rw [setHeap_calls, withRegion_calls hfree]

/-- The record of a new inherited heap has no segment yet. -/
theorem shallocHeapAlloc_calls {mmapFlags : ℕ}
    (h : shallocHeapAlloc cfg mmapFlags m = some (ptr, m')) :
    m'.proc.calls = m.proc.calls ∧
      (mapInherit mmapFlags = true → (m'.heap ptr).inheritId = -1) := by
  unfold shallocHeapAlloc at h
  by_cases hinherit : mapInherit mmapFlags = true
  · simp only [if_pos hinherit] at h
    split at h
    · obtain ⟨rfl, rfl⟩ := Prod.mk.inj (Option.some.inj h)
      exact ⟨setHeap_calls .., fun _ => by rw [heap_setNumHeaps, heap_setHeap, if_pos rfl]⟩
    · exact absurd h (by simp)
  · simp only [if_neg hinherit, bind, Option.bind_eq_some_iff, Prod.exists, Option.some.injEq,
      Prod.mk.injEq] at h
    obtain ⟨_, m1, hmalloc, addr, -, rfl, rfl⟩ := h
    exact ⟨withRegion_calls hmalloc, fun hinherit' => absurd hinherit' hinherit⟩

theorem shallocHeapUnalloc_calls {mmapFlags : ℕ}
    (h : shallocHeapUnalloc cfg ptr mmapFlags m = some m') : m'.proc.calls = m.proc.calls := by
  unfold shallocHeapUnalloc at h
  split at h
  · rw [← Option.some.inj h]
    rfl
  · exact shallocPrivFree_calls h

/-- `shalloc_get_heap` keeps the segment in the record, and its sizes are those it computes. -/
theorem shallocGetHeap_data {self addr size mmapFlags : ℕ} {old got : Heap} {type : BuffAllocType}
    (h : shallocGetHeap cfg.guardPages self old addr size mmapFlags type = some got) :
    got.inheritId = old.inheritId ∧
      got.region.defaultData.size = shallocHeapDataSize cfg.guardPages (shallocHeapPages size) ∧
      got.base.size = shallocHeapBaseSize cfg.guardPages (shallocHeapPages size) := by
  have hsize := (shallocGetHeap_shape h).size
  unfold shallocGetHeap at h
  split at h
  · exact absurd h (by simp)
  next hne =>
  obtain rfl := Option.some.inj h
  obtain ⟨hpages, hpos⟩ := shallocHeapPages_spec (Nat.pos_of_ne_zero hne)
  obtain ⟨hdvd, hdataPos⟩ := shallocHeapDataSize_spec cfg.guardPages hpages hpos
  have hdata : (shallocGetBuff addr (shallocHeapDataSize cfg.guardPages (shallocHeapPages size)) 0
      type .mplite).size = shallocHeapDataSize cfg.guardPages (shallocHeapPages size) :=
    shallocGetBuff_size (Nat.le_trans (by decide) (Nat.le_of_dvd hdataPos hdvd))
  refine ⟨rfl, hdata, hsize.trans ?_⟩
  simp only [hdata, shallocHeapBaseSize]
  cases cfg.guardPages <;> rfl

end Calls

section MapHeap

variable {heap : Heap}

/-- The flags of an inherited heap are not the default ones. -/
theorem mapInherit_ne {mmapFlags : ℕ} (h : mapInherit mmapFlags = true) :
    mmapFlags ≠ shallocDefaultMmapFlags := by
  rintro rfl
  exact absurd h (by decide)

/-- Whatever is attached at the start of the data range is as large as the data. -/
def DataAttached (segSize : ℤ → ℕ) (data : Buff) (proc : Process α) : Prop :=
  shallocPageSize ∣ data.start → ∀ id,
    proc.pageMap segSize (data.start / shallocPageSize) = .segment id → segSize id = data.size

/-- The first half of `shalloc_map_heap` maps the data range unless the flags are the default
ones, and nothing else. -/
theorem shallocMapHeapData_map (cfg : SpaceConfig α) {data : Buff} (hheap : m.heap ptr = heap)
    (hid : mapInherit heap.mmapFlags = true → heap.inheritId = -1) (hpos : 0 < data.size)
    (hseg : SegSizes segSize (shallocMapHeapData cfg ptr data m).2.proc.calls) :
    ((shallocMapHeapData cfg ptr data m).1 = true ↔ heap.mmapFlags ≠ shallocDefaultMmapFlags) ∧
      (heap.mmapFlags = shallocDefaultMmapFlags →
        (shallocMapHeapData cfg ptr data m).2.proc.calls = m.proc.calls) ∧
      (∀ page, ¬ CoversPage data.start data.size page →
        (shallocMapHeapData cfg ptr data m).2.proc.pageMap segSize page =
          m.proc.pageMap segSize page) ∧
      (mapInherit heap.mmapFlags = true →
        DataAttached segSize data (shallocMapHeapData cfg ptr data m).2.proc) := by
  subst hheap
  unfold shallocMapHeapData at hseg ⊢
  by_cases hinherit : mapInherit (m.heap ptr).mmapFlags = true
  · simp only [if_pos hinherit, if_pos (hid hinherit)] at hseg ⊢
    have hsize : segSize (m.shmget cfg.blank data.size).1 = data.size := by
      refine hseg (.shmget data.size (m.shmget cfg.blank data.size).1) (List.mem_cons_of_mem _ ?_)
      rw [setHeap_calls]
      exact List.mem_cons_of_mem _ List.mem_cons_self
    have hmap : ∀ (other : Heap) (page : ℕ),
        ((((m.shmget cfg.blank data.size).2.log (.shmat (m.shmget cfg.blank data.size).1
          data.start)).setHeap ptr other).log
            (.shmctl (m.shmget cfg.blank data.size).1)).proc.pageMap segSize page =
          if CoversPage data.start data.size page then .segment (m.shmget cfg.blank data.size).1
          else m.proc.pageMap segSize page := by
      intro other page
      rw [pageMap_log, SysCall.remap, pageMap_congr (setHeap_calls ..), pageMap_log,
        SysCall.remap, hsize]
      rfl
    refine ⟨by simp [mapInherit_ne hinherit], fun hdefault => absurd hdefault
      (mapInherit_ne hinherit), fun page hout => ?_, fun _ haligned id hattached => ?_⟩
    · rw [hmap, if_neg hout]
    · have hstart : data.start / shallocPageSize * shallocPageSize = data.start :=
        Nat.div_mul_cancel haligned
      rw [hmap, if_pos ⟨hstart.ge, by omega⟩] at hattached
      rw [← Mapping.segment.inj hattached, hsize]
  · simp only [if_neg hinherit]
    by_cases hflags : (m.heap ptr).mmapFlags ≠ shallocDefaultMmapFlags
    · simp only [if_pos hflags]
      exact ⟨by simp [hflags], fun hdefault => absurd hdefault hflags,
        fun page hout => (pageMap_mapFixedPages ..).trans (if_neg hout),
        fun hinherit' => absurd hinherit' hinherit⟩
    · simp only [if_neg hflags]
      exact ⟨by simpa using hflags, fun _ => trivial, fun _ _ => trivial,
        fun hinherit' => absurd hinherit' hinherit⟩

/-- The page map after `shalloc_map_heap` on the record `heap`. -/
structure HeapMapped (segSize : ℤ → ℕ) (heap : Heap) (remapped : Bool) (proc proc' : Process α) :
    Prop where
  remapped_iff : remapped = true ↔ heap.region.defaultData.size < heap.base.size ∨
    heap.mmapFlags ≠ shallocDefaultMmapFlags
  calls : remapped = false → proc'.calls = proc.calls
  guarded : heap.region.defaultData.size < heap.base.size → ∀ page,
    CoversPage (Word.wrap 64 (heap.region.defaultData.start + heap.region.defaultData.size))
      shallocPageSize page →
    proc'.pageMap segSize page = .pages protNone (mapAnonymousPrivate ||| mapFixed)
  outside : ∀ page,
    ¬ CoversPage heap.region.defaultData.start heap.region.defaultData.size page →
    ¬ (heap.region.defaultData.size < heap.base.size ∧
      CoversPage (Word.wrap 64 (heap.region.defaultData.start + heap.region.defaultData.size))
        shallocPageSize page) →
    proc'.pageMap segSize page = proc.pageMap segSize page
  attached : mapInherit heap.mmapFlags = true →
    DataAttached segSize heap.region.defaultData proc'

/-- The guard page of a heap is the last one that `shalloc_map_heap` maps. -/
theorem shallocMapHeap_guard {remapped : Bool} (h : shallocMapHeap cfg ptr m = some (remapped, m'))
    (hguard : (m.heap ptr).region.defaultData.size < (m.heap ptr).base.size) {page : ℕ}
    (hpage : CoversPage (Word.wrap 64 ((m.heap ptr).region.defaultData.start +
      (m.heap ptr).region.defaultData.size)) shallocPageSize page) :
    m'.proc.pageMap segSize page = .pages protNone (mapAnonymousPrivate ||| mapFixed) := by
  simp only [shallocMapHeap, bind, Option.bind_eq_some_iff] at h
  obtain ⟨data, hdata, h⟩ := h
  obtain ⟨_, -, rfl⟩ := Option.map_eq_some_iff.mp hdata
  obtain ⟨-, id, hptr⟩ := shallocMapHeapData_keeps cfg ptr (m.heap ptr).region.defaultData m
  rw [if_pos (by rw [hptr]; exact hguard)] at h
  obtain ⟨-, rfl⟩ := Prod.mk.inj (Option.some.inj h)
  exact (pageMap_mapFixedPages ..).trans (if_pos hpage)

/-- A heap with the default flags has only its guard page mapped. -/
theorem shallocMapHeap_default {remapped : Bool}
    (hflags : (m.heap ptr).mmapFlags = shallocDefaultMmapFlags)
    (hguard : (m.heap ptr).region.defaultData.size < (m.heap ptr).base.size)
    (h : shallocMapHeap cfg ptr m = some (remapped, m')) :
    m'.proc.calls = .mmap (Word.wrap 64 ((m.heap ptr).region.defaultData.start +
      (m.heap ptr).region.defaultData.size)) shallocPageSize protNone
      (mapAnonymousPrivate ||| mapFixed) :: m.proc.calls := by
  simp only [shallocMapHeap, bind, Option.bind_eq_some_iff] at h
  obtain ⟨data, hdata, h⟩ := h
  obtain ⟨_, -, rfl⟩ := Option.map_eq_some_iff.mp hdata
  have hnone : shallocMapHeapData cfg ptr (m.heap ptr).region.defaultData m = (false, m) := by
    rw [shallocMapHeapData, hflags]
    rfl
  rw [hnone, if_pos hguard] at h
  obtain ⟨-, rfl⟩ := Prod.mk.inj (Option.some.inj h)
  rfl

/-- **What `shalloc_map_heap` maps.** -/
theorem shallocMapHeap_map {remapped : Bool} (hheap : m.heap ptr = heap)
    (hid : mapInherit heap.mmapFlags = true → heap.inheritId = -1)
    (hpos : 0 < heap.region.defaultData.size) (hseg : SegSizes segSize m'.proc.calls)
    (h : shallocMapHeap cfg ptr m = some (remapped, m')) :
    HeapMapped segSize heap remapped m.proc m'.proc := by
  have hguarded : heap.region.defaultData.size < heap.base.size → ∀ page,
      CoversPage (Word.wrap 64 (heap.region.defaultData.start + heap.region.defaultData.size))
        shallocPageSize page →
      m'.proc.pageMap segSize page = .pages protNone (mapAnonymousPrivate ||| mapFixed) := by
    rw [← hheap]
    exact fun hlt page hpage => shallocMapHeap_guard h hlt hpage
  simp only [shallocMapHeap, bind, Option.bind_eq_some_iff] at h
  obtain ⟨data, hdata, h⟩ := h
  rw [hheap] at hdata
  obtain ⟨_, -, rfl⟩ := Option.map_eq_some_iff.mp hdata
  obtain ⟨hkeeps, id, hptr⟩ := shallocMapHeapData_keeps cfg ptr heap.region.defaultData m
  have hbase : ((shallocMapHeapData cfg ptr heap.region.defaultData m).2.heap ptr).base =
      heap.base := by rw [hptr, hheap]
  rw [hbase] at h
  by_cases hguard : heap.base.size > heap.region.defaultData.size
  · obtain ⟨rfl, rfl⟩ := Prod.mk.inj (Option.some.inj ((if_pos hguard).symm.trans h))
    obtain ⟨-, -, hout, hattached⟩ := shallocMapHeapData_map cfg hheap hid hpos
      fun call hmem => hseg call (List.mem_cons_of_mem _ hmem)
    exact
      { remapped_iff := by simp [hguard]
        calls := fun hfalse => absurd hfalse (by simp)
        guarded := hguarded
        outside := fun page hdata hpage => by
          rw [pageMap_mapFixedPages, if_neg fun hcovers => hpage ⟨hguard, hcovers⟩, hout page hdata]
        attached := fun hinherit haligned id hmapped => by
          rw [pageMap_mapFixedPages] at hmapped
          split at hmapped
          · exact absurd hmapped (by simp)
          · exact hattached hinherit haligned id hmapped }
  · obtain ⟨rfl, rfl⟩ := Prod.mk.inj (Option.some.inj ((if_neg hguard).symm.trans h))
    obtain ⟨hremapped, hcalls, hout, hattached⟩ :=
      shallocMapHeapData_map cfg hheap hid hpos hseg
    exact
      { remapped_iff := hremapped.trans (by simp [hguard])
        calls := fun hfalse => hcalls (by simpa [hfalse] using hremapped)
        guarded := hguarded
        outside := fun page hdata _ => hout page hdata
        attached := hattached }

end MapHeap

section Failed

variable {size mmapFlags : ℕ} {type : BuffAllocType}

/-- The rollback of a failed creation gives the data range the default mapping. -/
theorem shallocHeapUnmap_map {remapped : Bool}
    (hattached : mapInherit mmapFlags = true →
      DataAttached segSize (m.heap ptr).region.defaultData m.proc)
    (h : shallocHeapUnmap cfg ptr mmapFlags remapped m = some m') (page : ℕ) :
    m'.proc.pageMap segSize page =
      if remapped = true ∧ CoversPage (m.heap ptr).region.defaultData.start
          (m.heap ptr).region.defaultData.size page then
        .pages protReadWrite (shallocDefaultMmapFlags ||| mapFixed)
      else m.proc.pageMap segSize page := by
  simp only [shallocHeapUnmap, bind, Option.bind_eq_some_iff] at h
  obtain ⟨data, hdata, h⟩ := h
  obtain ⟨_, -, rfl⟩ := Option.map_eq_some_iff.mp hdata
  cases remapped with
  | false =>
    obtain rfl := Option.some.inj h
    exact (if_neg fun hand => absurd hand.1 (by simp)).symm
  | true =>
    obtain rfl := Option.some.inj h
    rw [pageMap_mapFixedPages]
    simp only [true_and]
    split
    · rfl
    next hcovers =>
    by_cases hinherit : mapInherit mmapFlags = true
    · rw [if_pos hinherit, shallocHeapDetach]
      exact (congrFun (pageMap_congr (setHeap_calls ..)) page).trans
        (pageMap_shmdt (hattached hinherit) hcovers)
    · rw [if_neg hinherit]

/-- The heap that `shalloc_heap_create` would place is refused before it is mapped. -/
def PlaceRefused (cfg : SpaceConfig α) (size : ℕ) (space : Space) : Prop :=
  Word.wrap 64 (space.data.endAddr + 1) < Word.wrap 64 (shallocSpaceNextAddr space +
    shallocHeapBaseSize cfg.guardPages (shallocHeapPages size))

/-- A page of the data of the heap that `shalloc_heap_create` places. -/
def NewDataPage (cfg : SpaceConfig α) (size : ℕ) (space : Space) (page : ℕ) : Prop :=
  CoversPage (shallocSpaceNextAddr space)
    (shallocHeapDataSize cfg.guardPages (shallocHeapPages size)) page

/-- The page after its data. -/
def NewGuardPage (cfg : SpaceConfig α) (size : ℕ) (space : Space) (page : ℕ) : Prop :=
  CoversPage (Word.wrap 64 (shallocSpaceNextAddr space +
    shallocHeapDataSize cfg.guardPages (shallocHeapPages size))) shallocPageSize page

instance (cfg : SpaceConfig α) (size : ℕ) (space : Space) (page : ℕ) :
    Decidable (NewDataPage cfg size space page) :=
  inferInstanceAs (Decidable (CoversPage ..))

instance (cfg : SpaceConfig α) (size : ℕ) (space : Space) (page : ℕ) :
    Decidable (NewGuardPage cfg size space page) :=
  inferInstanceAs (Decidable (CoversPage ..))

/-- The pages that the creation of a heap maps, if any, were mapped before as its rollback
leaves them: the data with the default flags, and the guard page without access. -/
structure MapsBack (cfg : SpaceConfig α) (segSize : ℤ → ℕ) (size mmapFlags : ℕ)
    (proc : Process α) : Prop where
  data : cfg.guardPages = true ∨ mmapFlags ≠ shallocDefaultMmapFlags → ∀ page,
    CoversPage shallocBaseAddr shallocBaseSize page → NewDataPage cfg size proc.space page →
    proc.pageMap segSize page = .pages protReadWrite (shallocDefaultMmapFlags ||| mapFixed)
  guard : cfg.guardPages = true → ∀ page, CoversPage shallocBaseAddr shallocBaseSize page →
    NewGuardPage cfg size proc.space page → ¬ NewDataPage cfg size proc.space page →
    proc.pageMap segSize page = .pages protNone (mapAnonymousPrivate ||| mapFixed)

/-- The page map after a creation that returns NULL, page by page. -/
theorem heapCreate_null_page (hseg : SegSizes segSize m'.proc.calls)
    (h : shallocHeapCreate cfg size mmapFlags type m = some (none, m')) :
    (PlaceRefused cfg size m.proc.space ∧ m'.proc.pageMap segSize = m.proc.pageMap segSize) ∨
      (¬ PlaceRefused cfg size m.proc.space ∧ ∀ page, m'.proc.pageMap segSize page =
        if (cfg.guardPages = true ∨ mmapFlags ≠ shallocDefaultMmapFlags) ∧
            NewDataPage cfg size m.proc.space page then
          .pages protReadWrite (shallocDefaultMmapFlags ||| mapFixed)
        else if cfg.guardPages = true ∧ NewGuardPage cfg size m.proc.space page then
          .pages protNone (mapAnonymousPrivate ||| mapFixed)
        else m.proc.pageMap segSize page) := by
  obtain ⟨ptr, m1, got, halloc, -, hgot, hsteps⟩ := shallocHeapCreate_steps h
  obtain ⟨hcalls1, hid⟩ := shallocHeapAlloc_calls halloc
  have hshape := shallocGetHeap_shape hgot
  have hflags := (shallocGetHeap_flags hgot).1
  obtain ⟨hgotId, hdata, hbaseSize⟩ := shallocGetHeap_data hgot
  have hbase : PlaceRefused cfg size m.proc.space ↔ Word.wrap 64 (m.proc.space.data.endAddr + 1) <
      Word.wrap 64 (shallocSpaceNextAddr m.proc.space + got.base.size) := by
    rw [PlaceRefused, hbaseSize]
  have hcalls2 : (m1.setHeap ptr got).proc.calls = m.proc.calls := (setHeap_calls ..).trans hcalls1
  obtain ⟨hover, -, hunalloc⟩ | ⟨hfits, remapped, m3, ret, m4, hmap, hcreate, hsteps⟩ := hsteps
  · exact Or.inl ⟨hbase.mpr hover,
      pageMap_congr ((shallocHeapUnalloc_calls hunalloc).trans hcalls2)⟩
  refine Or.inr ⟨fun hover => absurd (hbase.mp hover) (Nat.not_lt.mpr hfits), fun page => ?_⟩
  obtain ⟨-, m5, hunmap, hunalloc⟩ | ⟨_, -, hnone, -⟩ := hsteps
  swap
  · exact absurd hnone (by simp)
  have hheap2 : (m1.setHeap ptr got).heap ptr = got := by simp
  have hcalls4 := withRegion_calls hcreate
  have hcalls := shallocHeapUnalloc_calls hunalloc
  obtain ⟨-, ⟨id, hheap3⟩, -⟩ := shallocMapHeap_keeps hmap
  have hheap4 := (shallocHeapOpCreate_keeps hcreate).2
  have hsuffix := (shallocHeapUnmap_keeps hunmap).1.calls
  have hmapped : HeapMapped segSize got remapped (m1.setHeap ptr got).proc m3.proc :=
    shallocMapHeap_map hheap2 (fun hinherit => hgotId.trans (hid (hflags ▸ hinherit)))
      hshape.dataPos
      (fun call hmem => hseg call (by rw [hcalls]; exact hsuffix.subset (hcalls4 ▸ hmem))) hmap
  have hguard : got.region.defaultData.size < got.base.size ↔ cfg.guardPages = true := by
    rw [hshape.size]
    cases cfg.guardPages <;> simp [shallocPageSize]
  have hattached : mapInherit mmapFlags = true →
      DataAttached segSize (m4.heap ptr).region.defaultData m4.proc := by
    intro hinherit haligned n hattached
    rw [hheap4, hheap3, hheap2] at haligned hattached ⊢
    rw [pageMap_congr hcalls4] at hattached
    exact hmapped.attached (hflags ▸ hinherit) haligned n hattached
  have hpage := shallocHeapUnmap_map hattached hunmap page
  have hremapped := hmapped.remapped_iff
  have hguarded := hmapped.guarded
  have hout := hmapped.outside
  rw [hguard, hflags] at hremapped
  have hnewData : ∀ page, CoversPage got.region.defaultData.start got.region.defaultData.size
      page = NewDataPage cfg size m.proc.space page := fun page => by
    rw [hshape.dataStart, hdata, NewDataPage]
  have hnewGuard : ∀ page, CoversPage (Word.wrap 64 (got.region.defaultData.start +
      got.region.defaultData.size)) shallocPageSize page =
      NewGuardPage cfg size m.proc.space page := fun page => by
    rw [hshape.dataStart, hdata, NewGuardPage]
  simp only [hguard, hnewData, hnewGuard] at hguarded hout
  rw [hheap4, hheap3, hheap2, pageMap_congr hcalls4] at hpage
  simp only [hnewData, hremapped] at hpage
  rw [pageMap_congr hcalls, hpage]
  split
  · rfl
  next hnot =>
  split
  · next hand => exact hguarded hand.1 page hand.2
  next hnone =>
  rw [← congrFun (pageMap_congr hcalls2) page]
  by_cases hcovers : NewDataPage cfg size m.proc.space page
  · -- a data page keeps its mapping only if nothing was mapped
    have hfalse : remapped = false := by
      rw [← Bool.not_eq_true]
      exact fun htrue => hnot ⟨hremapped.mp htrue, hcovers⟩
    rw [pageMap_congr (hmapped.calls hfalse)]
  · exact hout page hcovers hnone

/-- **A failed creation.** -/
theorem heapCreate_null_map_iff (hseg : SegSizes segSize m'.proc.calls)
    (h : shallocHeapCreate cfg size mmapFlags type m = some (none, m')) :
    (∀ page, CoversPage shallocBaseAddr shallocBaseSize page →
        m'.proc.pageMap segSize page = m.proc.pageMap segSize page) ↔
      PlaceRefused cfg size m.proc.space ∨ MapsBack cfg segSize size mmapFlags m.proc := by
  obtain ⟨hrefused, hsame⟩ | ⟨hrefused, hpages⟩ := heapCreate_null_page hseg h
  · exact ⟨fun _ => Or.inl hrefused, fun _ page _ => by rw [hsame]⟩
  simp only [or_iff_right hrefused]
  constructor
  · intro hback
    refine ⟨fun hremaps page hspace hcovers => ?_, fun hguard page hspace hcovers hout => ?_⟩
    · rw [← hback page hspace, hpages, if_pos ⟨hremaps, hcovers⟩]
    · rw [← hback page hspace, hpages, if_neg fun hand => hout hand.2, if_pos ⟨hguard, hcovers⟩]
  · intro hback page hspace
    rw [hpages]
    split
    · next hand => exact (hback.data hand.1 page hspace hand.2).symm
    next hout =>
    split
    · next hand =>
      exact (hback.guard hand.1 page hspace hand.2
        fun hcovers => hout ⟨Or.inl hand.1, hcovers⟩).symm
    · rfl

/-- A configuration in which no buffer of type BUFFER can be set up. -/
def unreadyConfig (guardPages : Bool) : SpaceConfig (AllocState (List Extent)) :=
  { spaceConfig with
    ops := Function.update spaceConfig.ops .buffer
      { spaceConfig.ops .buffer with create := fun _ a => some (-1, a) }
    guardPages := guardPages }

/-- The control page has two pages, and the heaps have one. -/
def onePageSegs (id : ℤ) : ℕ := if id = 1 then 0x2000 else 0x1000

/-- Without guard pages, the first heap of a process cannot be set up, and its page is mapped
again as it was. -/
theorem heapCreate_null_map_first : ∃ m m1,
    shallocSpaceInit (unreadyConfig false) 0x7fff0000 none = some m ∧
    shallocHeapCreate (unreadyConfig false) 1 0x822 .buffer m = some (none, m1) ∧
    ∀ page, CoversPage shallocBaseAddr shallocBaseSize page →
      m1.proc.pageMap onePageSegs page = m.proc.pageMap onePageSegs page := by
  have hruns : (do
      let m ← shallocSpaceInit (unreadyConfig false) 0x7fff0000 none
      let (p1, m1) ← shallocHeapCreate (unreadyConfig false) 1 0x822 .buffer m
      some (p1, shallocSpaceNextAddr m.proc.space, m.proc.pageMap onePageSegs 0x80003,
        m1.proc.calls)) =
      some (none, 0x80003000, .pages 3 0x32,
        [.mmap 0x80003000 0x1000 3 0x32, .shmctl 2, .shmdt 0x80003000, .shmctl 2,
          .shmat 2 0x80003000, .shmget 0x1000 2, .shmctl 1, .shmat 1 0x80001000, .shmget 0x2000 1,
          .mmap 0x80000000 0x40000000 3 0x32]) := by
    decide +kernel
  simp only [bind, Option.bind_eq_some_iff, Prod.exists, Option.some.injEq, Prod.mk.injEq] at hruns
  obtain ⟨m, hinit, _, m1, hcreate, rfl, hnext, hdata, hcalls⟩ := hruns
  have hseg : SegSizes onePageSegs m1.proc.calls := by
    rw [SegSizes, hcalls]
    decide
  have hone : shallocHeapDataSize false (shallocHeapPages 1) = 0x1000 := by decide
  refine ⟨m, m1, hinit, hcreate, (heapCreate_null_map_iff hseg hcreate).mpr
    (Or.inr ⟨fun _ page _ hcovers => ?_, fun hguard => absurd hguard (by simp [unreadyConfig])⟩)⟩
  rw [NewDataPage, hnext, unreadyConfig, hone] at hcovers
  have hpage : page = 0x80003 := by
    simp only [CoversPage, shallocPageSize] at hcovers
    omega
  rw [hpage]
  exact hdata

/-- The first heap of a process cannot be set up: its guard page stays without access. -/
theorem not_heapCreate_null_map :
    ¬ ∀ (cfg : SpaceConfig (AllocState (List Extent))) (segSize : ℤ → ℕ)
      (m m' : Machine (AllocState (List Extent)))
      (past : List (Tracked (AllocState (List Extent)) × HeapOp))
      (t : Tracked (AllocState (List Extent))) (size mmapFlags : ℕ) (type : BuffAllocType),
      Started cfg m → HeapRun cfg m.tracked past t →
      (∀ buff a ret a', (cfg.ops type).create buff a = some (ret, a') → ret < 0) →
      SegSizes segSize m'.proc.calls →
      shallocHeapCreate cfg size mmapFlags type t.machine = some (none, m') →
      ∀ page, CoversPage shallocBaseAddr shallocBaseSize page →
        m'.proc.pageMap segSize page = t.machine.proc.pageMap segSize page := by
  intro h
  have hruns : (do
      let m ← shallocSpaceInit (unreadyConfig true) 0x7fff0000 none
      let (p1, m1) ← shallocHeapCreate (unreadyConfig true) 1 0x822 .buffer m
      some (p1, m1.proc.calls, m.proc.pageMap onePageSegs 0x80006,
        m1.proc.pageMap onePageSegs 0x80006)) =
      some (none,
        [.mmap 0x80005000 0x1000 3 0x32, .shmctl 2, .shmdt 0x80005000,
          .mmap 0x80006000 0x1000 0 0x32, .shmctl 2, .shmat 2 0x80005000, .shmget 0x1000 2,
          .shmctl 1, .shmat 1 0x80003000, .shmget 0x2000 1, .mmap 0x80002000 0x1000 0 0x32,
          .mmap 0x80000000 0x1000 0 0x32, .mmap 0x80000000 0x40000000 3 0x32],
        .pages 3 0x32, .pages 0 0x32) := by
    decide +kernel
  simp only [bind, Option.bind_eq_some_iff, Prod.exists, Option.some.injEq, Prod.mk.injEq] at hruns
  obtain ⟨m, hinit, _, m1, hfirst, rfl, hcalls, hbefore, hafter⟩ := hruns
  have hseg : SegSizes onePageSegs m1.proc.calls := by
    rw [SegSizes, hcalls]
    decide
  have hsame := h (unreadyConfig true) onePageSegs m m1 [] m.tracked 1 0x822 .buffer
    (.fresh hinit) .refl (fun buff a ret a' hcreate => by
      rw [← (Prod.mk.inj (Option.some.inj hcreate)).1]
      decide) hseg hfirst 0x80006 (by decide)
  rw [hafter, Machine.tracked, hbefore] at hsame
  exact absurd hsame (by decide)

end Failed

section Heir

variable {past : List (Tracked α × HeapOp)} {t : Tracked α}

/-- The pages that a list of calls maps without access all lie below `limit`. -/
def NoneBelow (limit : ℕ) (calls : List SysCall) : Prop :=
  ∀ addr size flags, .mmap addr size protNone flags ∈ calls → addr + size ≤ limit

theorem NoneBelow.cons {limit : ℕ} {calls : List SysCall} {call : SysCall}
    (h : NoneBelow limit calls)
    (hcall : ∀ addr size flags, call = .mmap addr size protNone flags → addr + size ≤ limit) :
    NoneBelow limit (call :: calls) := by
  intro addr size flags hmem
  cases List.mem_cons.mp hmem with
  | inl hhead => exact hcall addr size flags hhead.symm
  | inr hrest => exact h addr size flags hrest

/-- A page above the limit is not mapped without access. -/
theorem NoneBelow.pageMap {limit page flags : ℕ} {proc : Process α}
    (h : NoneBelow limit proc.calls) (hpage : limit ≤ page * shallocPageSize) :
    proc.pageMap segSize page ≠ .pages protNone flags := by
  rw [Process.pageMap]
  generalize proc.calls = calls at h
  induction calls generalizing page with
  | nil => simp
  | cons call calls ih =>
    have ih := ih hpage fun addr size flags hmem =>
      h addr size flags (List.mem_cons_of_mem _ hmem)
    rw [List.foldr_cons]
    cases call with
    | mmap addr size prot mmapFlags =>
      rw [SysCall.remap]
      split
      · next hcovers =>
        intro hnone
        obtain ⟨rfl, rfl⟩ := Mapping.pages.inj hnone
        have hle := h addr size mmapFlags List.mem_cons_self
        have hlt := hcovers.2
        omega
      · exact ih
    | munmap addr size =>
      rw [SysCall.remap]
      split
      · simp
      · exact ih
    | shmget size id => exact ih
    | shmat id addr =>
      rw [SysCall.remap]
      split
      · simp
      · exact ih
    | shmdt addr =>
      rw [SysCall.remap]
      split
      · split
        · simp
        · exact ih
      · exact ih
    | shmctl id => exact ih

/-- The address of the control page when there are guard pages. -/
theorem controlAddr_guard : controlAddr true = shallocBaseAddr + 3 * shallocPageSize := rfl

theorem shallocSpaceReserve_none (cfg : SpaceConfig α) (hguard : cfg.guardPages = true)
    (hcalls : m.proc.calls = []) :
    NoneBelow (controlAddr true) (shallocSpaceReserve cfg m).2.proc.calls := by
  have hreserve : (shallocSpaceReserve cfg m).2.proc.calls =
      [.mmap shallocBaseAddr shallocPageSize protNone (mapAnonymousPrivate ||| mapFixed),
        .mmap shallocBaseAddr shallocBaseSize protReadWrite
          (shallocDefaultMmapFlags ||| mapFixed)] := by
    rw [shallocSpaceReserve, if_pos hguard]
    simp only [mapFixedPages, Machine.log, hcalls]
  rw [hreserve]
  intro addr size flags hmem
  simp only [List.mem_cons, SysCall.mmap.injEq, List.not_mem_nil, or_false] at hmem
  obtain ⟨rfl, rfl, -⟩ | ⟨-, -, hprot, -⟩ := hmem
  · rw [controlAddr_guard]
    omega
  · exact absurd hprot (by decide)

/-- The private heap has a guard page of its own, below the control page. -/
theorem shallocSpacePrivHeap_none {stack addr priv : ℕ} (hguard : cfg.guardPages = true)
    (haddr : addr = shallocBaseAddr + shallocPageSize)
    (hcalls : NoneBelow (controlAddr true) m.proc.calls)
    (h : shallocSpacePrivHeap cfg stack addr m = some (priv, m')) :
    NoneBelow (controlAddr true) m'.proc.calls := by
  simp only [shallocSpacePrivHeap, bind, Option.bind_eq_some_iff, Prod.exists] at h
  obtain ⟨got, hgot, remapped, m1, hmap, ret, m2, hcreate, h⟩ := h
  split at h
  · exact absurd h (by simp)
  simp only [Option.bind_eq_some_iff, Prod.exists, Option.some.injEq, Prod.mk.injEq] at h
  obtain ⟨_, m3, hmalloc, p, -, rfl, rfl⟩ := h
  rw [setHeap_calls, withRegion_calls hmalloc, withRegion_calls hcreate]
  have hshape := shallocGetHeap_shape hgot
  have hgotHeap : (m.setHeap (.priv stack) got).heap (.priv stack) = got := by simp
  obtain ⟨-, hdata, -⟩ := shallocGetHeap_data hgot
  have hone : shallocHeapDataSize true (shallocHeapPages shallocPrivateHeapSize) =
      shallocPageSize := by decide
  rw [hguard, hone] at hdata
  rw [shallocMapHeap_default (by rw [hgotHeap]; exact (shallocGetHeap_flags hgot).1)
    (by rw [hgotHeap, hshape.size, if_pos hguard]; exact Nat.lt_add_of_pos_right (by decide)) hmap,
    setHeap_calls, hgotHeap, hshape.dataStart, hdata, haddr]
  refine hcalls.cons fun addr size flags hcall => ?_
  obtain ⟨rfl, rfl, -, -⟩ := SysCall.mmap.inj hcall
  decide

theorem shallocSpaceAttach_none {limit : ℕ} {heaps : List Heap} : ∀ {m : Machine α},
    NoneBelow limit m.proc.calls → shallocSpaceAttach heaps m = some m' →
    NoneBelow limit m'.proc.calls := by
  induction heaps with
  | nil => exact fun h hattach => Option.some.inj hattach ▸ h
  | cons heap heaps ih =>
    intro m h hattach
    simp only [shallocSpaceAttach, bind, Option.bind_eq_some_iff] at hattach
    obtain ⟨data, -, hattach⟩ := hattach
    exact ih (h.cons fun addr size flags hcall => absurd hcall (by simp)) hattach

/-- A process that inherits a control page maps nothing without access past its own pages. -/
theorem shallocSpaceInit_none {stack : ℕ} {shared : Shared α} (hguard : cfg.guardPages = true)
    (h : shallocSpaceInit cfg stack (some shared) = some m) :
    NoneBelow (controlAddr true) m.proc.calls := by
  simp only [shallocSpaceInit, bind, Option.bind_eq_some_iff, Prod.exists, Option.some.injEq] at h
  obtain ⟨privHeap, m2, hpriv, m3, hmagic, _, m4, hmalloc, _, -, space, hspace, rfl⟩ := h
  have hnone2 := shallocSpacePrivHeap_none hguard
    (by rw [(shallocSpaceReserve_cases cfg _).2, if_pos hguard])
    (shallocSpaceReserve_none cfg hguard rfl) hpriv
  show NoneBelow _ m4.proc.calls
  rw [withRegion_calls hmalloc]
  exact shallocSpaceAttach_none
    (hnone2.cons fun addr size flags hcall => absurd hcall (by simp)) hmagic

/-- The data range of every process starts two pages after the control page. -/
theorem Started.dataStart (hstart : Started cfg m) :
    m.proc.space.data.start = controlAddr cfg.guardPages + 2 * shallocPageSize := by
  cases hstart with
  | fresh hinit => exact (shallocSpaceInit_fresh hinit).2.1
  | exec hstart hrun hexec => exact (hstart.exec_space hrun hexec).2.1

/-- A new heap has its guard page mapped without access. -/
theorem shallocHeapCreate_guard {size mmapFlags page : ℕ} {type : BuffAllocType}
    (hguard : cfg.guardPages = true)
    (h : shallocHeapCreate cfg size mmapFlags type m = some (some ptr, m'))
    (hpage : CoversPage (Word.wrap 64 ((m'.heap ptr).region.defaultData.start +
      (m'.heap ptr).region.defaultData.size)) shallocPageSize page) :
    m'.proc.pageMap segSize page = .pages protNone (mapAnonymousPrivate ||| mapFixed) := by
  obtain ⟨p, m1, got, -, -, hgot, hsteps⟩ := shallocHeapCreate_steps h
  obtain ⟨-, hnone, -⟩ | ⟨-, remapped, m3, ret, m4, hmap, hcreate, hsteps⟩ := hsteps
  · exact absurd hnone (by simp)
  obtain ⟨hnone, -⟩ | ⟨space, -, hsome, rfl⟩ := hsteps
  · exact absurd hnone (by simp)
  obtain rfl := Option.some.inj hsome
  have hheap2 : (m1.setHeap ptr got).heap ptr = got := by simp
  obtain ⟨-, ⟨id, hheap3⟩, -⟩ := shallocMapHeap_keeps hmap
  have hheap4 := (shallocHeapOpCreate_keeps hcreate).2
  rw [heap_setSpace, hheap4, hheap3, hheap2] at hpage
  have hroom : got.region.defaultData.size < got.base.size := by
    rw [(shallocGetHeap_shape hgot).size, if_pos hguard]
    exact Nat.lt_add_of_pos_right (by decide)
  calc (m4.setSpace space).proc.pageMap segSize page
      = m3.proc.pageMap segSize page := congrFun (pageMap_congr (withRegion_calls hcreate)) page
    _ = .pages protNone (mapAnonymousPrivate ||| mapFixed) :=
      shallocMapHeap_guard hmap (by rwa [hheap2]) (by rwa [hheap2])

/-- An inherited heap that a process creates, and another process that starts with a control
page in which it is still listed. -/
structure Inherits (cfg : SpaceConfig α) (m m1 : Machine α) (ptr : HeapPtr) (m' : Machine α) :
    Prop where
  created : ∃ size mmapFlags type, mapInherit mmapFlags = true ∧
    shallocHeapCreate cfg size mmapFlags type m = some (some ptr, m1)
  heir : ∃ stack shared, shallocSpaceInit cfg stack (some shared) = some m' ∧
    ∃ heap ∈ shared.magic.listed, heap.range = (m1.heap ptr).range ∧
      heap.dataRange = (m1.heap ptr).dataRange ∧ heap.inheritId = (m1.heap ptr).inheritId

/-- **Inherited heaps in another process.** With guard pages, the heir maps no inherited heap
as its creator did. -/
theorem heir_map_ne (segSize : ℤ → ℕ) (hguard : cfg.guardPages = true) (hstart : Started cfg m)
    (hrun : HeapRun cfg m.tracked past t) {m1 : Machine α}
    (h : Inherits cfg t.machine m1 ptr m') :
    ¬ ∀ page, CoversPage (m1.heap ptr).base.start (m1.heap ptr).base.size page →
      m'.proc.pageMap segSize page = m1.proc.pageMap segSize page := by
  intro hsame
  obtain ⟨size, mmapFlags, type, -, hcall⟩ := h.created
  have hcreated := shallocHeapCreate_created hcall
  have hplacement : Placement cfg m.proc.space ⟨m1, [], t.ever ++ [m1.heap ptr]⟩ :=
    (hstart.placement.run hrun).created hcreated
  have hplaced := hplacement.placed hguard (m1.heap ptr)
    (List.mem_append_right _ List.mem_cons_self)
  obtain ⟨stack, shared, hexec, -⟩ := h.heir
  have hlo := hplaced.inSpace.1
  rw [hplacement.same.start, hstart.dataStart, hguard] at hlo
  have hend := hplaced.inSpace.2
  have hsmall := hplacement.ok.small
  have hguardEnd := hplaced.guardEnd
  have hdataStart := hplaced.dataStart
  have hpage : 0 < shallocPageSize := by decide
  simp only [Heap.guardPage] at hguardEnd
  -- the guard page is a page of its own, right after the data
  have haligned : shallocPageSize ∣ (m1.heap ptr).region.defaultData.start +
      (m1.heap ptr).region.defaultData.size :=
    Nat.dvd_add (hdataStart ▸ hplaced.aligned.1) hplaced.dataPages.2
  obtain ⟨page, heq⟩ := haligned
  rw [Nat.mul_comm] at heq
  have hcreator : m1.proc.pageMap segSize page =
      .pages protNone (mapAnonymousPrivate ||| mapFixed) := shallocHeapCreate_guard hguard hcall (by
      rw [Word.wrap_of_lt (by omega), heq]
      exact ⟨le_rfl, Nat.lt_add_of_pos_right hpage⟩)
  have hheir := hsame page ⟨by omega, by omega⟩
  rw [hcreator] at hheir
  exact (shallocSpaceInit_none hguard hexec).pageMap (by omega) hheir

/-- One inherited heap of a page, and its heir. -/
theorem heir_map_ne_first : ∃ m m1 m2,
    shallocSpaceInit spaceConfig 0x7fff0000 none = some m ∧
    shallocHeapCreate spaceConfig 1 0x822 .none m = some (some (.slot 0), m1) ∧
    shallocSpaceInit spaceConfig 0x7fff0000 (some m1.shared) = some m2 ∧
    ¬ ∀ page, CoversPage (m1.heap (.slot 0)).base.start (m1.heap (.slot 0)).base.size page →
      m2.proc.pageMap onePageSegs page = m1.proc.pageMap onePageSegs page := by
  obtain ⟨m, m1, m2, hinit, hcreate, hexec, hlisted⟩ : ∃ m m1 m2,
      shallocSpaceInit spaceConfig 0x7fff0000 none = some m ∧
      shallocHeapCreate spaceConfig 1 0x822 .none m = some (some (.slot 0), m1) ∧
      shallocSpaceInit spaceConfig 0x7fff0000 (some m1.shared) = some m2 ∧
      m1.shared.magic.listed = [m1.heap (.slot 0)] :=
    ⟨_, _, _, rfl, rfl, rfl, rfl⟩
  refine ⟨m, m1, m2, hinit, hcreate, hexec, heir_map_ne onePageSegs rfl (.fresh hinit) .refl
    ⟨⟨1, 0x822, .none, by decide, hcreate⟩, _, _, hexec, m1.heap (.slot 0), ?_, rfl, rfl, rfl⟩⟩
  rw [hlisted]
  exact List.mem_cons_self

/-- The guard page of the first inherited heap is readable and writable in the heir. -/
theorem not_heir_map :
    ¬ ∀ (cfg : SpaceConfig (AllocState (List Extent))) (segSize : ℤ → ℕ)
      (m m1 m' : Machine (AllocState (List Extent)))
      (past : List (Tracked (AllocState (List Extent)) × HeapOp))
      (t : Tracked (AllocState (List Extent))) (ptr : HeapPtr),
      cfg.guardPages = true → Started cfg m → HeapRun cfg m.tracked past t →
      Inherits cfg t.machine m1 ptr m' → SegSizes segSize m1.proc.calls →
      ∀ page, CoversPage (m1.heap ptr).base.start (m1.heap ptr).base.size page →
        m'.proc.pageMap segSize page = m1.proc.pageMap segSize page := by
  intro h
  have hruns : (do
      let m ← shallocSpaceInit spaceConfig 0x7fff0000 none
      let (p, m1) ← shallocHeapCreate spaceConfig 1 0x822 .none m
      let m2 ← shallocSpaceInit spaceConfig 0x7fff0000 (some m1.shared)
      some (p, m1.proc.calls, [m1, m2].map (fun m => m.proc.pageMap onePageSegs 0x80006),
        (m1.heap (.slot 0)).range)) =
      some (some (.slot 0),
        [.mmap 0x80006000 0x1000 0 0x32, .shmctl 2, .shmat 2 0x80005000, .shmget 0x1000 2,
          .shmctl 1, .shmat 1 0x80003000, .shmget 0x2000 1, .mmap 0x80002000 0x1000 0 0x32,
          .mmap 0x80000000 0x1000 0 0x32, .mmap 0x80000000 0x40000000 3 0x32],
        [.pages 0 0x32, .pages 3 0x32], ⟨0x80005000, 0x2000⟩) := by
    decide +kernel
  simp only [bind, Option.bind_eq_some_iff, Prod.exists, Option.some.injEq, Prod.mk.injEq,
    List.map_cons, List.map_nil, List.cons.injEq] at hruns
  obtain ⟨m, hinit, _, m1, hcreate, m2, hexec, rfl, hcalls, ⟨hcreator, hheir, -⟩, hrange⟩ := hruns
  have hseg : SegSizes onePageSegs m1.proc.calls := by
    rw [SegSizes, hcalls]
    decide
  have hcreated := shallocHeapCreate_created hcreate
  have hlisted : m1.heap (.slot 0) ∈ m1.shared.magic.listed := by
    rw [listed_eq_entries, (hcreated.entries (by decide)).2, List.map_append]
    exact List.mem_append_right _ List.mem_cons_self
  have hsame := h spaceConfig onePageSegs m m1 m2 [] m.tracked (.slot 0) rfl (.fresh hinit) .refl
    ⟨⟨1, 0x822, .none, by decide, hcreate⟩, _, _, hexec, _, hlisted, rfl, rfl, rfl⟩ hseg 0x80006
    (by
      obtain ⟨hstart, hsize⟩ := Extent.mk.inj hrange
      rw [hstart, hsize]
      decide)
  rw [hcreator, hheir] at hsame
  exact absurd hsame (by decide)

end Heir

end Shalloc
