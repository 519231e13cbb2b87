import Shalloc.Region.Release
import Shalloc.Space.Layout

/-!
# Heap placement

Runs of a process that creates and destroys heaps, and where its heaps lie. A process is
started afresh or by another one that hands on its control page. The heaps that one process
creates lie back to back from the offset that it starts with, whatever it destroys between.

## Main definitions

- `HeapStep`, `HeapRun` — the runs of a process
- `Started` — the processes that can come about
- `HeapPlaced` — a heap in its place in the space

## Main results

- `heap_placement` — every heap ever created is in its place, apart from the others
-/

namespace Shalloc

variable {α : Type} {cfg : SpaceConfig α} {m m' : Machine α} {ptr : HeapPtr}

open Machine

section Runs

/-- A call on heaps: `shalloc_heap_create`, or `shalloc_region_destroy` on a heap's region. -/
inductive HeapOp
  | create (size mmapFlags : ℕ) (type : BuffAllocType)
  | destroy (ptr : HeapPtr)
deriving DecidableEq

/-- A process with the heaps that were created and not destroyed, each as its creator left
it, and with all the heaps that it has created itself, oldest first. -/
structure Tracked (α : Type) where
  machine : Machine α
  live : List (HeapPtr × Heap)
  ever : List Heap

/-- The entries `heap_list[0..num_heaps)` of the control page. -/
def Machine.entries (m : Machine α) : List (HeapPtr × Heap) :=
  (List.range m.shared.magic.numHeaps.toNat).map fun i => (.slot i, m.heap (.slot i))

/-- A process that has just started. The heaps in the control page are live. -/
def Machine.tracked (m : Machine α) : Tracked α := ⟨m, m.entries, []⟩

/-- One call that does not abort. The pointers that are destroyed are live. -/
inductive HeapStep (cfg : SpaceConfig α) (t : Tracked α) : HeapOp → Tracked α → Prop
  | created {size mmapFlags type ptr m'} :
      shallocHeapCreate cfg size mmapFlags type t.machine = some (some ptr, m') →
      HeapStep cfg t (.create size mmapFlags type)
        ⟨m', t.live ++ [(ptr, m'.heap ptr)], t.ever ++ [m'.heap ptr]⟩
  | refused {size mmapFlags type m'} :
      shallocHeapCreate cfg size mmapFlags type t.machine = some (none, m') →
      HeapStep cfg t (.create size mmapFlags type) { t with machine := m' }
  | destroyed {ptr heap m'} : (ptr, heap) ∈ t.live →
      shallocHeapRegionDestroy cfg ptr t.machine = some m' →
      HeapStep cfg t (.destroy ptr) { t with machine := m', live := t.live.erase (ptr, heap) }

/-- A run, with the calls made and the states they were made in, latest first. -/
inductive HeapRun (cfg : SpaceConfig α) (t : Tracked α) :
    List (Tracked α × HeapOp) → Tracked α → Prop
  | refl : HeapRun cfg t [] t
  | step {past t1 op t2} : HeapRun cfg t past t1 → HeapStep cfg t1 op t2 →
      HeapRun cfg t ((t1, op) :: past) t2

/-- The processes that can come about: started with no control page in the environment, or
with the control page of a process that has run. -/
inductive Started (cfg : SpaceConfig α) : Machine α → Prop
  | fresh {stack m} : shallocSpaceInit cfg stack none = some m → Started cfg m
  | exec {stack m m' past t} : Started cfg m → HeapRun cfg m.tracked past t →
      shallocSpaceInit cfg stack (some t.machine.shared) = some m' → Started cfg m'

end Runs

section Listed

/-- The heaps in the control page take up whole pages. -/
def ListedPages (m : Machine α) : Prop :=
  ∀ i : ℕ, (i : ℤ) < m.shared.magic.numHeaps → shallocPageSize ∣ (m.heap (.slot i)).base.size

theorem ListedPages.created {size mmapFlags : ℕ} {type : BuffAllocType} (h : ListedPages m)
    (hcreated : HeapCreated cfg size mmapFlags type m m' ptr)
    (hpages : shallocPageSize ∣ (m'.heap ptr).base.size) : ListedPages m' := by
  intro i hi
  rw [hcreated.numHeaps] at hi
  by_cases hptr : HeapPtr.slot i = ptr
  · rw [hptr]
    exact hpages
  · rw [hcreated.slots i hptr]
    refine h i ?_
    by_contra hnot
    -- the one entry that the list gains is the new heap
    have hnew := hcreated.isNew
    simp only [NewRecord, listedBy] at hnew hi
    split at hnew
    · next hinherit =>
      rw [if_pos hinherit] at hi
      exact hptr (by rw [hnew.2.2]; congr 1; omega)
    · next hinherit => rw [if_neg hinherit] at hi; omega

theorem ListedPages.refused {mmapFlags : ℕ} (h : ListedPages m)
    (hrefused : HeapNotCreated mmapFlags m m' ptr) : ListedPages m' := by
  intro i hi
  rw [hrefused.keeps.numHeaps, Int.add_zero] at hi
  have hptr : HeapPtr.slot i ≠ ptr := by
    have hnew := hrefused.isNew
    simp only [NewRecord] at hnew
    split at hnew
    · intro heq
      rw [hnew.2.2] at heq
      have := HeapPtr.slot.inj heq
      omega
    · obtain ⟨addr, rfl⟩ := hnew
      simp
  rw [hrefused.keeps.slots i hptr]
  exact h i hi

theorem ListedPages.destroyed (h : ListedPages m)
    (hdestroy : shallocHeapRegionDestroy cfg ptr m = some m') : ListedPages m' := by
  obtain ⟨⟨d, hd, hkeeps⟩, hsize⟩ := shallocHeapRegionDestroy_keeps hdestroy
  intro i hi
  rw [hkeeps.numHeaps] at hi
  have hbefore := h i (by omega)
  by_cases hptr : HeapPtr.slot i = ptr
  · rw [hptr, hsize, ← hptr]
    exact hbefore
  · rw [hkeeps.slots i hptr]
    exact hbefore

theorem listed_eq (m : Machine α) :
    m.shared.magic.listed =
      (List.range m.shared.magic.numHeaps.toNat).map fun i => m.heap (.slot i) := rfl

theorem ListedPages.listed (h : ListedPages m) :
    ∀ heap ∈ m.shared.magic.listed, shallocPageSize ∣ heap.base.size := by
  intro heap hheap
  rw [listed_eq] at hheap
  obtain ⟨i, hi, rfl⟩ := List.mem_map.mp hheap
  exact h i (by have := List.mem_range.mp hi; omega)

end Listed

section Placement

/-- The guard page of a heap, after its data. -/
def Heap.guardPage (heap : Heap) : Extent :=
  ⟨heap.region.defaultData.start + heap.region.defaultData.size, shallocPageSize⟩

/-- The data range of a heap. -/
def Heap.dataRange (heap : Heap) : Extent :=
  ⟨heap.region.defaultData.start, heap.region.defaultData.size⟩

/-- A heap in its place: whole pages within the data range of the space, first the pages of
its data, at least one, and then one guard page that was mapped without access. -/
structure HeapPlaced (proc : Process α) (heap : Heap) : Prop where
  aligned : shallocPageSize ∣ heap.base.start ∧ shallocPageSize ∣ heap.base.size
  inSpace : proc.space.data.start ≤ heap.base.start ∧
    heap.base.start + heap.base.size ≤ proc.space.data.endAddr + 1
  dataStart : heap.region.defaultData.start = heap.base.start
  dataPages : 0 < heap.region.defaultData.size ∧
    shallocPageSize ∣ heap.region.defaultData.size
  guardEnd : heap.guardPage.ptr + heap.guardPage.len = heap.base.start + heap.base.size
  guarded : .mmap heap.guardPage.ptr heap.guardPage.len protNone
    (mapAnonymousPrivate ||| mapFixed) ∈ proc.calls

/-- The invariant of a process started with the space `space`: its heaps lie back to back
from the first offset to the present one. -/
structure Placement (cfg : SpaceConfig α) (space : Space) (t : Tracked α) : Prop where
  ok : SpaceOk t.machine.proc.space
  same : SameSpace space t.machine.proc.space
  backToBack : Extent.BackToBack (space.data.start + space.offset) (t.ever.map Heap.range)
  offset : t.machine.proc.space.offset = space.offset + Extent.total (t.ever.map Heap.range)
  shape : ∀ heap ∈ t.ever, HeapShape cfg.guardPages heap.base.start heap ∧
    shallocPageSize ∣ heap.base.start
  guarded : cfg.guardPages = true → ∀ heap ∈ t.ever, .mmap heap.guardPage.ptr shallocPageSize
    protNone (mapAnonymousPrivate ||| mapFixed) ∈ t.machine.proc.calls
  listed : ListedPages t.machine

variable {space : Space} {t t' : Tracked α}

theorem Placement.created {size mmapFlags : ℕ} {type : BuffAllocType}
    {live : List (HeapPtr × Heap)} (h : Placement cfg space t)
    (hcreated : HeapCreated cfg size mmapFlags type t.machine m' ptr) :
    Placement cfg space ⟨m', live, t.ever ++ [m'.heap ptr]⟩ := by
  obtain ⟨hshape, hok, hsame, hoffset⟩ := hcreated.place h.ok
  obtain ⟨hpages, hpos⟩ := hshape.pages
  have hstart : (m'.heap ptr).base.start = t.machine.proc.space.data.start +
      t.machine.proc.space.offset := hshape.start
  have hrange : Heap.range (m'.heap ptr) = ⟨space.data.start + space.offset +
      Extent.total (t.ever.map Heap.range), (m'.heap ptr).base.size⟩ := by
    rw [Heap.range, hstart, h.same.start, h.offset, Nat.add_assoc]
  refine
    { ok := hok
      same := h.same.trans hsame
      backToBack := ?_
      offset := ?_
      shape := ?_
      guarded := ?_
      listed := h.listed.created hcreated hpages }
  · -- the offset is the sum of the sizes so far, so the new heap starts where the last one ends
    rw [List.map_append, List.map_singleton, hrange]
    exact h.backToBack.concat hpos
  · rw [hoffset, h.offset, List.map_append, Extent.total_append, Nat.add_assoc]
    rfl
  · intro heap hheap
    cases List.mem_append.mp hheap with
    | inl hold => exact h.shape heap hold
    | inr hnew =>
      obtain rfl := List.mem_singleton.mp hnew
      rw [hstart]
      exact ⟨hshape, Nat.dvd_add h.ok.startPages h.ok.offsetPages⟩
  · intro hguard heap hheap
    cases List.mem_append.mp hheap with
    | inl hold => exact hcreated.calls.subset (h.guarded hguard heap hold)
    | inr hnew =>
      obtain rfl := List.mem_singleton.mp hnew
      have hsize := hshape.size
      rw [if_pos hguard] at hsize
      have hpage : 0 < shallocPageSize := by decide
      have hcall := hcreated.guard (by omega)
      -- the end of the data lies in the space, so that its address does not wrap
      have hend := hok.end_le
      have hsmall := hok.small
      have hsamestart := hsame.start
      rw [Word.wrap_of_lt (by rw [hshape.dataStart]; omega)] at hcall
      exact hcall

theorem Placement.step {op : HeapOp} (h : Placement cfg space t) (hstep : HeapStep cfg t op t') :
    Placement cfg space t' := by
  cases hstep with
  | created hcall =>
    have hcreated := shallocHeapCreate_created hcall
    exact h.created hcreated
  | refused hcall =>
    obtain ⟨ptr, hrefused⟩ := shallocHeapCreate_refused hcall
    obtain ⟨hspace, -, -, -, hcalls⟩ := hrefused.keeps
    exact
      { ok := hspace ▸ h.ok
        same := hspace ▸ h.same
        backToBack := h.backToBack
        offset := by rw [hspace]; exact h.offset
        shape := h.shape
        guarded := fun hguard heap hheap => hcalls.subset (h.guarded hguard heap hheap)
        listed := h.listed.refused hrefused }
  | destroyed _ hcall =>
    obtain ⟨⟨d, -, hspace, -, -, -, hcalls⟩, -⟩ := shallocHeapRegionDestroy_keeps hcall
    exact
      { ok := hspace ▸ h.ok
        same := hspace ▸ h.same
        backToBack := h.backToBack
        offset := by rw [hspace]; exact h.offset
        shape := h.shape
        guarded := fun hguard heap hheap => hcalls.subset (h.guarded hguard heap hheap)
        listed := h.listed.destroyed hcall }

theorem Placement.run {past : List (Tracked α × HeapOp)} (h : Placement cfg space t)
    (hrun : HeapRun cfg t past t') : Placement cfg space t' := by
  induction hrun with
  | refl => exact h
  | step _ hstep ih => exact ih.step hstep

/-- A process that has just started, with whole pages in its control page. -/
theorem Placement.init {stack : ℕ} {inherited : Option (Shared α)}
    (hinit : shallocSpaceInit cfg stack inherited = some m) (hlisted : ListedPages m) :
    Placement cfg m.proc.space m.tracked := by
  obtain ⟨-, privHeap, hfold⟩ := shallocSpaceInit_cases hinit
  obtain ⟨hok, -, -⟩ :=
    (shallocSpaceRecord_ok cfg.guardPages privHeap).1.newHeaps hlisted.listed hfold
  exact
    { ok := hok
      same := .refl _
      backToBack := trivial
      offset := rfl
      shape := fun heap hheap => absurd hheap List.not_mem_nil
      guarded := fun _ heap hheap => absurd hheap List.not_mem_nil
      listed := hlisted }

/-- The processes that can come about start with whole pages in their control page. -/
theorem Started.placement (h : Started cfg m) : Placement cfg m.proc.space m.tracked := by
  induction h with
  | fresh hinit =>
    refine .init hinit fun i hi => ?_
    obtain ⟨⟨shared, hshared, -⟩ | ⟨-, hzero⟩, -⟩ := shallocSpaceInit_cases hinit
    · exact absurd hshared (by simp)
    · rw [hzero] at hi
      omega
  | exec _ hrun hinit ih =>
    refine .init hinit fun i hi => ?_
    obtain ⟨⟨shared, hshared, hnum, hslots⟩ | ⟨hnone, -⟩, -⟩ := shallocSpaceInit_cases hinit
    · obtain rfl := Option.some.inj hshared
      rw [hslots]
      exact (ih.run hrun).listed i (by rw [← hnum]; exact hi)
    · exact absurd hnone (by simp)

/-- A heap of a run is in its place. -/
theorem Placement.placed (h : Placement cfg space t) (hguard : cfg.guardPages = true) :
    ∀ heap ∈ t.ever, HeapPlaced t.machine.proc heap := by
  intro heap hheap
  obtain ⟨hshape, hstart⟩ := h.shape heap hheap
  obtain ⟨hlo, -, hhi⟩ :=
    h.backToBack.stacked.within _ (List.mem_map_of_mem (f := Heap.range) hheap)
  have hend := h.ok.end_le
  have hsize := hshape.size
  rw [if_pos hguard] at hsize
  rw [h.offset, h.same.start] at hend
  exact
    { aligned := ⟨hstart, hshape.pages.1⟩
      inSpace := by
        rw [h.same.start]
        simp only [Heap.range] at hlo hhi
        omega
      dataStart := hshape.dataStart
      dataPages := ⟨hshape.dataPos, hshape.dataPages⟩
      guardEnd := by
        simp only [Heap.guardPage, hshape.dataStart]
        omega
      guarded := h.guarded hguard heap hheap }

/-- The data of a heap and its guard page are parts of its range. -/
theorem HeapPlaced.within {proc : Process α} {heap : Heap} (h : HeapPlaced proc heap) :
    heap.dataRange.Within heap.range ∧ heap.guardPage.Within heap.range := by
  have hguard := h.guardEnd
  have hstart := h.dataStart
  simp only [Heap.guardPage, Heap.dataRange, Heap.range, Extent.Within] at hguard ⊢
  omega

/-- **Heap placement.** In every run of a process with guard pages, the heaps it has ever
created are in their places and lie pairwise apart, and no guard page of one lies in the data
of any. -/
theorem heap_placement (hguard : cfg.guardPages = true) (hstart : Started cfg m)
    {past : List (Tracked α × HeapOp)} (hrun : HeapRun cfg m.tracked past t) :
    (∀ heap ∈ t.ever, HeapPlaced t.machine.proc heap) ∧
      (t.ever.map Heap.range).Pairwise Extent.Disjoint ∧
      ∀ heap ∈ t.ever, ∀ other ∈ t.ever, heap.guardPage.Disjoint other.dataRange := by
  have hinv := hstart.placement.run hrun
  have hplaced := hinv.placed hguard
  have hapart := hinv.backToBack.stacked.pairwise
  refine ⟨hplaced, hapart, fun heap hheap other hother => ?_⟩
  by_cases heq : heap = other
  · subst heq
    exact Or.inr le_rfl
  · have hsymm : Std.Symm fun a b : Heap => a.range.Disjoint b.range := ⟨fun _ _ h => h.symm⟩
    have hranges := (List.pairwise_map.mp hapart).forall hheap hother heq
    exact hranges.mono (hplaced heap hheap).within.2 (hplaced other hother).within.1

/-- Where the allocator of type MPLITE puts the first blocks in a fresh heap of 4 KiB: its
216 bytes are followed by 59 atoms of 64 bytes, in chunks of 32, 16, 8, 2 and 1 atoms. A
block of up to 256 bytes is split off the chunk of 8 atoms, and one of up to 512 bytes off
the chunk of 16. -/
def privOffset (n : ℕ) : ℕ := 216 + 64 * if n ≤ 256 then 48 else 32

/-- A configuration with guard pages, in which a freed block has no neighbour on the free
list: both links are `-1`. -/
def spaceConfig : SpaceConfig (AllocState (List Extent)) where
  ops := shallocSpaceBuffOps fun _ => placedOp privOffset
  guardPages := true
  blank := .other []
  freedWord _ _ _ := 2 ^ 64 - 1

/-- The first heap of a process, of less than a page. -/
theorem heap_placement_first : ∃ m m',
    shallocSpaceInit spaceConfig 0x7fff0000 none = some m ∧
    shallocHeapCreate spaceConfig 1 0x822 .none m = some (some (.slot 0), m') ∧
    HeapPlaced m'.proc (m'.heap (.slot 0)) := by
  obtain ⟨m, m', hinit, hcreate⟩ : ∃ m m',
      shallocSpaceInit spaceConfig 0x7fff0000 none = some m ∧
      shallocHeapCreate spaceConfig 1 0x822 .none m = some (some (.slot 0), m') :=
    ⟨_, _, rfl, rfl⟩
  exact ⟨m, m', hinit, hcreate, (heap_placement rfl (.fresh hinit)
    (.step .refl (.created hcreate))).1 _ List.mem_cons_self⟩

end Placement

end Shalloc
