import Shalloc.Space.Registry

/-!
# Inherited heaps in another process

A process places its heaps at an offset that only grows, while a process that attaches to
its control page makes up its own offset from the sizes of the heaps that are still listed.
The two agree exactly if the listed heaps leave no gap.

## Main definitions

- `Machine.listedRanges` — the ranges of the listed heaps
- `PastListed` — the next heap goes past all the listed ones

## Main results

- `inherit_apart` — when the heaps of the second process stay apart from the inherited ones
-/

namespace Shalloc

variable {α : Type} {cfg : SpaceConfig α} {m m' : Machine α} {ptr : HeapPtr} {t t' : Tracked α}

open Machine

section Ranges

/-- The ranges of the heaps in `heap_list[0..num_heaps)`. -/
def Machine.listedRanges (m : Machine α) : List Extent := m.shared.magic.listed.map Heap.range

theorem listed_eq_entries (m : Machine α) : m.shared.magic.listed = m.entries.map Prod.snd := by
  rw [listed_eq, Machine.entries, List.map_map]
  rfl

theorem listedRanges_congr (h : m'.entries = m.entries) : m'.listedRanges = m.listedRanges := by
  rw [listedRanges, listedRanges, listed_eq_entries, listed_eq_entries, h]

/-- A new inherited heap is listed last. -/
theorem HeapCreated.listedRanges {size mmapFlags : ℕ} {type : BuffAllocType}
    (h : HeapCreated cfg size mmapFlags type m m' ptr) (hinherit : mapInherit mmapFlags = true) :
    m'.listedRanges = m.listedRanges ++ [(m'.heap ptr).range] := by
  rw [Machine.listedRanges, Machine.listedRanges, listed_eq_entries, listed_eq_entries,
    (h.entries hinherit).2, List.map_append, List.map_append]
  rfl

/-- The destruction of a live heap leaves the first of the listed ranges. -/
theorem Registered.listedRanges_destroyed {heap : Heap} (h : Registered t)
    (hmem : (ptr, heap) ∈ t.live)
    (hdestroy : shallocHeapRegionDestroy cfg ptr t.machine = some m') :
    ∃ n, m'.listedRanges = t.machine.listedRanges.take n := by
  obtain ⟨⟨d, hd, hkeeps⟩, -⟩ := shallocHeapRegionDestroy_keeps hdestroy
  have hbase : ∀ i, (m'.heap (.slot i)).range = (t.machine.heap (.slot i)).range := by
    intro i
    by_cases hptr : HeapPtr.slot i = ptr
    · subst hptr
      obtain ⟨-, hsame⟩ := shallocHeapRegionDestroy_slot hdestroy (h.live i heap hmem)
      rw [Heap.range, hsame.base]
      rfl
    · rw [hkeeps.slots i hptr]
  have hnum := hkeeps.numHeaps
  refine ⟨m'.shared.magic.numHeaps.toNat, ?_⟩
  rw [listedRanges, listedRanges, listed_eq, listed_eq, List.map_map, List.map_map,
    ← List.map_take, List.take_range, Nat.min_eq_left (by omega)]
  exact List.map_congr_left fun i _ => hbase i

end Ranges

section Creator

/-- The listed heaps of a process lie one after another below its offset. -/
def ListStacked (m : Machine α) : Prop :=
  Extent.Stacked m.proc.space.data.start m.listedRanges
    (m.proc.space.data.start + m.proc.space.offset)

theorem ListStacked.created {size mmapFlags : ℕ} {type : BuffAllocType} (h : ListStacked m)
    (hok : SpaceOk m.proc.space) (hcreated : HeapCreated cfg size mmapFlags type m m' ptr) :
    ListStacked m' := by
  obtain ⟨hshape, -, hsame, hoffset⟩ := hcreated.place hok
  have hstart : (m'.heap ptr).range.ptr = m.proc.space.data.start + m.proc.space.offset :=
    hshape.start
  have hend : m'.proc.space.data.start + m'.proc.space.offset =
      (m'.heap ptr).range.ptr + (m'.heap ptr).range.len := by
    rw [hstart, hsame.start, hoffset, Nat.add_assoc]
    rfl
  rw [ListStacked, hend, hsame.start]
  cases hinherit : mapInherit mmapFlags with
  | true =>
    rw [hcreated.listedRanges hinherit]
    exact Extent.Stacked.concat h (Nat.le_of_eq hstart.symm) hshape.pages.2
  | false =>
    rw [listedRanges_congr (hcreated.entries_priv hinherit)]
    exact Extent.Stacked.mono h (by omega)

theorem ListStacked.step {op : HeapOp} (h : ListStacked t.machine)
    (hok : SpaceOk t.machine.proc.space) (hreg : Registered t) (hstep : HeapStep cfg t op t') :
    ListStacked t'.machine := by
  cases hstep with
  | created hcall =>
    have hcreated := shallocHeapCreate_created hcall
    exact h.created hok hcreated
  | refused hcall =>
    obtain ⟨ptr, hrefused⟩ := shallocHeapCreate_refused hcall
    simp only [ListStacked, hrefused.keeps.space, listedRanges_congr hrefused.entries]
    exact h
  | destroyed hmem hcall =>
    obtain ⟨n, htake⟩ := hreg.listedRanges_destroyed hmem hcall
    obtain ⟨⟨d, -, hkeeps⟩, -⟩ := shallocHeapRegionDestroy_keeps hcall
    simp only [ListStacked, hkeeps.space, htake]
    exact Extent.Stacked.take h n

/-- Whatever a process creates and destroys, its listed heaps stay stacked. -/
theorem ListStacked.run {past : List (Tracked α × HeapOp)} (hstart : Started cfg m)
    (h : ListStacked m) (hrun : HeapRun cfg m.tracked past t) : ListStacked t.machine := by
  induction hrun with
  | refl => exact h
  | step hrun hstep ih =>
    exact ih.step (hstart.placement.run hrun).ok (hstart.registered.run hrun) hstep

end Creator

section Heir

/-- The space that a process starts with accounts for the listed heaps: the offset is the
sum of their sizes. -/
theorem Started.exec_space (hstart : Started cfg m) {past : List (Tracked α × HeapOp)}
    (hrun : HeapRun cfg m.tracked past t) {stack : ℕ}
    (hexec : shallocSpaceInit cfg stack (some t.machine.shared) = some m') :
    m'.listedRanges = t.machine.listedRanges ∧
      m'.proc.space.data.start = controlAddr cfg.guardPages + 2 * shallocPageSize ∧
      m'.proc.space.offset = Extent.total t.machine.listedRanges := by
  have hsame : m'.listedRanges = t.machine.listedRanges := by
    obtain ⟨hnone, -⟩ | ⟨shared, hshared, hentries⟩ := shallocSpaceInit_entries hexec
    · exact absurd hnone (by simp)
    · obtain rfl := Option.some.inj hshared
      exact listedRanges_congr (hentries t.machine.proc)
  have hlisted := (Started.exec hstart hrun hexec).placement.listed
  obtain ⟨-, privHeap, hfold⟩ := shallocSpaceInit_cases hexec
  obtain ⟨hok, hzero⟩ := shallocSpaceRecord_ok cfg.guardPages privHeap
  obtain ⟨-, hspace, hoffset⟩ := hok.newHeaps hlisted.listed hfold
  refine ⟨hsame, ?_, ?_⟩
  · rw [hspace.start, shallocSpaceRecord_data]
  · rw [hoffset, hzero, Nat.zero_add, ← hsame]
    rfl

/-- A process that starts afresh has no listed heap and no offset. -/
theorem shallocSpaceInit_fresh {stack : ℕ} (hinit : shallocSpaceInit cfg stack none = some m) :
    m.listedRanges = [] ∧
      m.proc.space.data.start = controlAddr cfg.guardPages + 2 * shallocPageSize ∧
      m.proc.space.offset = 0 := by
  have hnil : m.shared.magic.listed = [] := by
    obtain ⟨-, hnil⟩ | ⟨shared, hshared, -⟩ := shallocSpaceInit_entries hinit
    · rw [listed_eq_entries, hnil]
      rfl
    · exact absurd hshared (by simp)
  obtain ⟨-, privHeap, hfold⟩ := shallocSpaceInit_cases hinit
  rw [hnil] at hfold
  rw [listedRanges, hnil, ← Option.some.inj hfold, shallocSpaceRecord_data]
  exact ⟨rfl, rfl, (shallocSpaceRecord_ok cfg.guardPages privHeap).2⟩

/-- The next heap of a process goes past the ends of the listed heaps. -/
def PastListed (m : Machine α) : Prop :=
  ∀ heap ∈ m.shared.magic.listed, heap.base.start + heap.base.size ≤
    shallocSpaceNextAddr m.proc.space

theorem PastListed.iff (hok : SpaceOk m.proc.space) :
    PastListed m ↔ ∀ e ∈ m.listedRanges,
      e.ptr + e.len ≤ m.proc.space.data.start + m.proc.space.offset := by
  rw [PastListed, hok.nextAddr, listedRanges, List.forall_mem_map]
  rfl

theorem PastListed.created {size mmapFlags : ℕ} {type : BuffAllocType} (h : PastListed m)
    (hok : SpaceOk m.proc.space) (hcreated : HeapCreated cfg size mmapFlags type m m' ptr) :
    PastListed m' := by
  obtain ⟨hshape, hok', hsame, hoffset⟩ := hcreated.place hok
  rw [PastListed.iff hok] at h
  rw [PastListed.iff hok', hsame.start, hoffset]
  intro e he
  cases hinherit : mapInherit mmapFlags with
  | true =>
    rw [hcreated.listedRanges hinherit] at he
    cases List.mem_append.mp he with
    | inl hold => exact Nat.le_trans (h e hold) (by omega)
    | inr hnew =>
      rw [List.mem_singleton.mp hnew]
      simp only [Heap.range, hshape.start]
      omega
  | false =>
    rw [listedRanges_congr (hcreated.entries_priv hinherit)] at he
    exact Nat.le_trans (h e he) (by omega)

/-- A process whose next heap goes past the listed ones keeps it so. -/
theorem PastListed.step {op : HeapOp} (h : PastListed t.machine)
    (hok : SpaceOk t.machine.proc.space) (hok' : SpaceOk t'.machine.proc.space)
    (hreg : Registered t) (hstep : HeapStep cfg t op t') : PastListed t'.machine := by
  cases hstep with
  | created hcall =>
    have hcreated := shallocHeapCreate_created hcall
    exact h.created hok hcreated
  | refused hcall =>
    rw [PastListed.iff hok] at h
    rw [PastListed.iff hok']
    obtain ⟨ptr, hrefused⟩ := shallocHeapCreate_refused hcall
    simp only [hrefused.keeps.space, listedRanges_congr hrefused.entries]
    exact h
  | destroyed hmem hcall =>
    rw [PastListed.iff hok] at h
    rw [PastListed.iff hok']
    obtain ⟨n, htake⟩ := hreg.listedRanges_destroyed hmem hcall
    obtain ⟨⟨d, -, hkeeps⟩, -⟩ := shallocHeapRegionDestroy_keeps hcall
    simp only [hkeeps.space, htake]
    exact fun e he => h e (List.mem_of_mem_take he)

theorem PastListed.run {past : List (Tracked α × HeapOp)} (hstart : Started cfg m)
    (h : PastListed m) (hrun : HeapRun cfg m.tracked past t) : PastListed t.machine := by
  induction hrun with
  | refl => exact h
  | step hrun hstep ih =>
    exact ih.step (hstart.placement.run hrun).ok (hstart.placement.run (hrun.step hstep)).ok
      (hstart.registered.run hrun) hstep

/-- A new heap of such a process lies apart from the listed ones. -/
theorem PastListed.disjoint {size mmapFlags : ℕ} {type : BuffAllocType} (h : PastListed m)
    (hok : SpaceOk m.proc.space) (hcreated : HeapCreated cfg size mmapFlags type m m' ptr) :
    ∀ heap ∈ m.shared.magic.listed, (m'.heap ptr).range.Disjoint heap.range := by
  intro heap hheap
  have hstart : (m'.heap ptr).range.ptr = m.proc.space.data.start + m.proc.space.offset :=
    (hcreated.place hok).1.start
  have hend : heap.range.ptr + heap.range.len ≤ shallocSpaceNextAddr m.proc.space := h heap hheap
  rw [hok.nextAddr, ← hstart] at hend
  exact Or.inr hend

/-- **Inherited heaps.** A process runs and another one starts with its control page. The
first heap of the second process goes past all the listed heaps iff these lie back to back
from the start of the data range. If they do, then in every run of the second process each
new heap lies apart from all the heaps that are listed. -/
theorem inherit_apart {stack stack' : ℕ} (hinit : shallocSpaceInit cfg stack none = some m)
    {past : List (Tracked α × HeapOp)} (hrun : HeapRun cfg m.tracked past t)
    (hexec : shallocSpaceInit cfg stack' (some t.machine.shared) = some m') :
    (PastListed m' ↔
        Extent.BackToBack t.machine.proc.space.data.start t.machine.listedRanges) ∧
      (Extent.BackToBack t.machine.proc.space.data.start t.machine.listedRanges →
        ∀ past' t', HeapRun cfg m'.tracked past' t' →
        ∀ size mmapFlags type ptr m'',
          shallocHeapCreate cfg size mmapFlags type t'.machine = some (some ptr, m'') →
          ∀ heap ∈ t'.machine.shared.magic.listed, (m''.heap ptr).range.Disjoint heap.range) := by
  have hstart : Started cfg m := .fresh hinit
  have hstart' : Started cfg m' := .exec hstart hrun hexec
  have hok' : SpaceOk m'.proc.space := hstart'.placement.ok
  obtain ⟨hnil, hbegin, hzero⟩ := shallocSpaceInit_fresh hinit
  obtain ⟨hsame, hbegin', hoffset'⟩ := hstart.exec_space hrun hexec
  have hdata : m'.proc.space.data.start = t.machine.proc.space.data.start := by
    rw [hbegin', (hstart.placement.run hrun).same.start, hbegin]
  have hstacked : ListStacked t.machine :=
    .run hstart (by rw [ListStacked, hnil]; exact Nat.le_add_right _ _) hrun
  have hiff : PastListed m' ↔
      Extent.BackToBack t.machine.proc.space.data.start t.machine.listedRanges := by
    rw [PastListed.iff hok', hsame, hdata, hoffset']
    exact hstacked.past_iff
  refine ⟨hiff, fun hback past' t' hrun' size mmapFlags type ptr m'' hcall => ?_⟩
  have hpast := (hiff.mpr hback).run hstart' hrun'
  have hcreated := shallocHeapCreate_created hcall
  exact hpast.disjoint (hstart'.placement.run hrun').ok hcreated

/-- A heap that is destroyed is the one that was created last among the live ones. -/
def DestroysNewest (e : Tracked α × HeapOp) : Prop :=
  ∀ ptr, e.2 = .destroy ptr → e.1.live.getLast?.map Prod.fst = some ptr

/-- One inherited heap, and a heap that its heir creates. -/
theorem inherit_apart_one : ∃ m m1 m2 m3,
    shallocSpaceInit spaceConfig 0x7fff0000 none = some m ∧
    shallocHeapCreate spaceConfig 1 0x822 .none m = some (some (.slot 0), m1) ∧
    shallocSpaceInit spaceConfig 0x7fff0000 (some m1.shared) = some m2 ∧
    shallocHeapCreate spaceConfig 1 0x822 .none m2 = some (some (.slot 1), m3) ∧
    ∀ heap ∈ m2.shared.magic.listed, (m3.heap (.slot 1)).range.Disjoint heap.range := by
  obtain ⟨m, m1, m2, m3, hinit, hfirst, hexec, hsecond, hstart, hranges⟩ : ∃ m m1 m2 m3,
      shallocSpaceInit spaceConfig 0x7fff0000 none = some m ∧
      shallocHeapCreate spaceConfig 1 0x822 .none m = some (some (.slot 0), m1) ∧
      shallocSpaceInit spaceConfig 0x7fff0000 (some m1.shared) = some m2 ∧
      shallocHeapCreate spaceConfig 1 0x822 .none m2 = some (some (.slot 1), m3) ∧
      m1.proc.space.data.start = 0x80005000 ∧ m1.listedRanges = [⟨0x80005000, 0x2000⟩] :=
    ⟨_, _, _, _, rfl, rfl, rfl, rfl, rfl, rfl⟩
  have hstep : HeapStep spaceConfig m.tracked (.create 1 0x822 .none)
      ⟨m1, m.entries ++ [(.slot 0, m1.heap (.slot 0))], [m1.heap (.slot 0)]⟩ := .created hfirst
  have hback : Extent.BackToBack m1.proc.space.data.start m1.listedRanges := by
    rw [hstart, hranges]
    exact ⟨rfl, by decide, trivial⟩
  exact ⟨m, m1, m2, m3, hinit, hfirst, hexec, hsecond,
    (inherit_apart hinit (.step .refl hstep) hexec).2 hback _ _ .refl _ _ _ _ _ hsecond⟩

/-- A heap of one page is created and destroyed, and one of four pages is created: the heir
places its first heap on the last pages of that one. -/
theorem inherit_overlap :
    ¬ ∀ (cfg : SpaceConfig (AllocState (List Extent))) (stack stack' : ℕ)
      (m m' m'' : Machine (AllocState (List Extent)))
      (past past' : List (Tracked (AllocState (List Extent)) × HeapOp))
      (t t' : Tracked (AllocState (List Extent))) (size mmapFlags : ℕ) (type : BuffAllocType)
      (ptr : HeapPtr),
      shallocSpaceInit cfg stack none = some m → HeapRun cfg m.tracked past t →
      (∀ e ∈ past, DestroysNewest e) →
      shallocSpaceInit cfg stack' (some t.machine.shared) = some m' →
      HeapRun cfg m'.tracked past' t' →
      shallocHeapCreate cfg size mmapFlags type t'.machine = some (some ptr, m'') →
      ∀ heap ∈ t'.machine.shared.magic.listed, (m''.heap ptr).range.Disjoint heap.range := by
  intro h
  have hcalls : (do
      let m ← shallocSpaceInit spaceConfig 0x7fff0000 none
      let (p1, m1) ← shallocHeapCreate spaceConfig 1 0x822 .none m
      let m2 ← shallocHeapRegionDestroy spaceConfig (.slot 0) m1
      let (p2, m3) ← shallocHeapCreate spaceConfig 0x4000 0x822 .none m2
      let m4 ← shallocSpaceInit spaceConfig 0x7fff0000 (some m3.shared)
      let (p3, m5) ← shallocHeapCreate spaceConfig 1 0x822 .none m4
      some (p1, p2, p3, m4.listedRanges, (m5.heap (.slot 1)).range)) =
        some (some (.slot 0), some (.slot 0), some (.slot 1), [⟨0x80007000, 0x5000⟩],
          ⟨0x8000A000, 0x2000⟩) := by
    decide +kernel
  simp only [bind, Option.bind_eq_some_iff, Prod.exists, Option.some.injEq, Prod.mk.injEq] at hcalls
  obtain ⟨m, hinit, _, m1, hfirst, m2, hdestroy, _, m3, hsecond, m4, hexec, _, m5, hthird,
    rfl, rfl, rfl, hlisted, hrange⟩ := hcalls
  obtain ⟨-, hentries⟩ | ⟨_, hnone, -⟩ := shallocSpaceInit_entries hinit
  swap
  · exact absurd hnone (by simp)
  have hstep1 : HeapStep spaceConfig m.tracked (.create 1 0x822 .none)
      ⟨m1, m.entries ++ [(.slot 0, m1.heap (.slot 0))], [m1.heap (.slot 0)]⟩ := .created hfirst
  have hrun := HeapRun.step (.step (.step .refl hstep1) (.destroyed
    (List.mem_append_right _ List.mem_cons_self) hdestroy)) (.created hsecond)
  obtain ⟨heap, hheap, hheapRange⟩ := List.mem_map.mp
    (show (⟨0x80007000, 0x5000⟩ : Extent) ∈ m4.listedRanges by simp [hlisted])
  have hapart := h _ _ _ _ _ _ _ _ _ _ _ _ _ _ hinit hrun (by
    simp only [List.mem_cons, List.not_mem_nil, or_false]
    rintro e (rfl | rfl | rfl) ptr hptr
    · exact absurd hptr (by simp)
    · obtain rfl := HeapOp.destroy.inj hptr
      simp [hentries]
    · exact absurd hptr (by simp)) hexec .refl hthird heap hheap
  rw [hrange, hheapRange] at hapart
  exact absurd hapart (by decide)

end Heir

end Shalloc
