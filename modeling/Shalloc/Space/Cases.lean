import Shalloc.Region.Reset
import Shalloc.Space.Defs

/-!
# What the calls on heaps do

The calls on heaps as case analyses: which record a call works on, what it leaves alone,
and what `shalloc_heap_create` leaves in the record of a new heap.

## Main definitions

- `Machine.Keeps` — what a call on one heap record leaves alone
- `NewRecord` — the record that a new heap gets
- `HeapCreated` — what a successful `shalloc_heap_create` did

## Main results

- `shallocHeapCreate_cases` — the outcomes of `shalloc_heap_create`
- `shallocHeapRegionDestroy_keeps`, `shallocHeapRegionDestroy_slot` — the destruction of a heap
-/

namespace Shalloc

variable {α β : Type} {cfg : SpaceConfig α} {m m' : Machine α} {ptr : HeapPtr}

namespace Machine

section Simp

@[simp] theorem heap_setHeap (p q : HeapPtr) (heap : Heap) :
    (m.setHeap p heap).heap q = if q = p then heap else m.heap q := by
  cases p <;> cases q <;> simp [setHeap, Machine.heap, Function.update_apply]

@[simp] theorem setHeap_space (p : HeapPtr) (heap : Heap) :
    (m.setHeap p heap).proc.space = m.proc.space := by cases p <;> rfl

@[simp] theorem setHeap_store (p : HeapPtr) (heap : Heap) :
    (m.setHeap p heap).proc.store = m.proc.store := by cases p <;> rfl

@[simp] theorem setHeap_calls (p : HeapPtr) (heap : Heap) :
    (m.setHeap p heap).proc.calls = m.proc.calls := by cases p <;> rfl

@[simp] theorem setHeap_numHeaps (p : HeapPtr) (heap : Heap) :
    (m.setHeap p heap).shared.magic.numHeaps = m.shared.magic.numHeaps := by cases p <;> rfl

@[simp] theorem heap_log (call : SysCall) (q : HeapPtr) : (m.log call).heap q = m.heap q := by
  cases q <;> rfl

@[simp] theorem heap_setNumHeaps (n : ℤ) (q : HeapPtr) : (m.setNumHeaps n).heap q = m.heap q := by
  cases q <;> rfl

@[simp] theorem heap_setSpace (space : Space) (q : HeapPtr) :
    (m.setSpace space).heap q = m.heap q := by
  cases q <;> rfl

@[simp] theorem heap_shmget (blank : α) (size : ℕ) (q : HeapPtr) :
    (m.shmget blank size).2.heap q = m.heap q := by
  cases q <;> rfl

@[simp] theorem heap_mapFixedPages (blank : α) (addr size prot flags : ℕ) (q : HeapPtr) :
    (m.mapFixedPages blank addr size prot flags).heap q = m.heap q := by
  cases q <;> rfl

@[simp] theorem heap_putStore (heap : Heap) (st : Store α) (q : HeapPtr) :
    (m.putStore heap st).heap q = m.heap q := by
  cases q <;> rfl

end Simp

/-- A call on the record `ptr` leaves the space and the other records of the control page
alone, changes `num_heaps` of the control page by `d`, and only adds system calls. Outside
the control page, it leaves the kind of the other records alone. -/
structure Keeps (ptr : HeapPtr) (d : ℤ) (m m' : Machine α) : Prop where
  space : m'.proc.space = m.proc.space
  numHeaps : m'.shared.magic.numHeaps = m.shared.magic.numHeaps + d
  slots : ∀ i, HeapPtr.slot i ≠ ptr → m'.heap (.slot i) = m.heap (.slot i)
  flags : ∀ q, q ≠ ptr → (m'.heap q).mmapFlags = (m.heap q).mmapFlags
  calls : m.proc.calls <:+ m'.proc.calls

theorem Keeps.refl (ptr : HeapPtr) (m : Machine α) : Keeps ptr 0 m m :=
  ⟨rfl, (Int.add_zero _).symm, fun _ _ => rfl, fun _ _ => rfl, List.suffix_rfl⟩

theorem Keeps.trans {m'' : Machine α} {d e : ℤ} (h : Keeps ptr d m m') (h' : Keeps ptr e m' m'') :
    Keeps ptr (d + e) m m'' where
  space := h'.space.trans h.space
  numHeaps := by rw [h'.numHeaps, h.numHeaps, Int.add_assoc]
  slots i hi := (h'.slots i hi).trans (h.slots i hi)
  flags q hq := (h'.flags q hq).trans (h.flags q hq)
  calls := h.calls.trans h'.calls

theorem Keeps.trans_zero {m'' : Machine α} {d : ℤ} (h : Keeps ptr d m m')
    (h' : Keeps ptr 0 m' m'') : Keeps ptr d m m'' := by
  have htrans := h.trans h'
  rwa [Int.add_zero] at htrans

theorem keeps_setHeap (ptr : HeapPtr) (m : Machine α) (heap : Heap) :
    Keeps ptr 0 m (m.setHeap ptr heap) where
  space := setHeap_space ptr heap
  numHeaps := by simp
  slots i hi := by simp [hi]
  flags q hq := by simp [hq]
  calls := by simp

theorem keeps_log (ptr : HeapPtr) (m : Machine α) (call : SysCall) : Keeps ptr 0 m (m.log call) :=
  ⟨rfl, (Int.add_zero _).symm, fun _ _ => heap_log .., fun _ _ => by rw [heap_log],
    List.suffix_cons _ _⟩

theorem keeps_setNumHeaps (ptr : HeapPtr) (m : Machine α) {n d : ℤ}
    (hn : n = m.shared.magic.numHeaps + d) : Keeps ptr d m (m.setNumHeaps n) :=
  ⟨rfl, hn, fun _ _ => heap_setNumHeaps .., fun _ _ => by rw [heap_setNumHeaps],
    List.suffix_rfl⟩

theorem keeps_shmget (ptr : HeapPtr) (m : Machine α) (blank : α) (size : ℕ) :
    Keeps ptr 0 m (m.shmget blank size).2 :=
  ⟨rfl, (Int.add_zero _).symm, fun _ _ => heap_shmget .., fun _ _ => by rw [heap_shmget],
    List.suffix_cons _ _⟩

theorem keeps_mapFixedPages (ptr : HeapPtr) (m : Machine α) (blank : α)
    (addr size prot flags : ℕ) :
    Keeps ptr 0 m (m.mapFixedPages blank addr size prot flags) :=
  ⟨rfl, (Int.add_zero _).symm, fun _ _ => heap_mapFixedPages ..,
    fun _ _ => by rw [heap_mapFixedPages], List.suffix_cons _ _⟩

theorem keeps_putStore (ptr : HeapPtr) (m : Machine α) (heap : Heap) (st : Store α) :
    Keeps ptr 0 m (m.putStore heap st) :=
  ⟨rfl, (Int.add_zero _).symm, fun _ _ => heap_putStore .., fun _ _ => by rw [heap_putStore],
    List.suffix_rfl⟩

section Region

variable {f : ℕ → Store α → Option (β × Store α)} {res : β}

/-- The parts of a call of the region layer on a heap. -/
theorem withRegion_eq_some :
    m.withRegion ptr f = some (res, m') ↔ ∃ cell st region data,
      m.heapCell (m.heap ptr) = some cell ∧
      f (m.heapAddr ptr + heapRegionOffset) (m.regionStore ptr cell) = some (res, st) ∧
      st.regions (m.heapAddr ptr + heapRegionOffset) = some region ∧
      st.buffs (m.heapAddr ptr + heapRegionOffset + regionDataOffset) = some data ∧
      m' = (m.putStore (m.heap ptr) st).setHeap ptr
        { m.heap ptr with region := { region with defaultData := data } } := by
  simp only [withRegion, bind, Option.bind_eq_some_iff, Prod.exists, Option.some.injEq,
    Prod.mk.injEq]
  constructor
  · rintro ⟨cell, hcell, res', st, hf, region, hregion, data, hdata, rfl, rfl⟩
    exact ⟨cell, st, region, data, hcell, hf, hregion, hdata, rfl⟩
  · rintro ⟨cell, st, region, data, hcell, hf, hregion, hdata, rfl⟩
    exact ⟨cell, hcell, res, st, hf, region, hregion, data, hdata, rfl, rfl⟩

/-- A call of the region layer on a heap writes at most the region in its record. -/
theorem withRegion_keeps (h : m.withRegion ptr f = some (res, m')) :
    Keeps ptr 0 m m' ∧ ∃ region, m'.heap ptr = { m.heap ptr with region := region } := by
  obtain ⟨cell, st, region, data, -, -, -, -, rfl⟩ := withRegion_eq_some.mp h
  exact ⟨(keeps_putStore ptr m _ st).trans_zero (keeps_setHeap ptr _ _),
    { region with defaultData := data }, by rw [heap_setHeap, if_pos rfl]⟩

/-- A call of the region layer on a heap outside the control page keeps what a call on any
record keeps, and that record too. -/
theorem withRegion_priv_keeps {a : ℕ} (ptr : HeapPtr)
    (h : m.withRegion (.priv a) f = some (res, m')) :
    Keeps ptr 0 m m' ∧ ∀ q, ∃ region, m'.heap q = { m.heap q with region := region } := by
  have hkeeps := (withRegion_keeps h).1
  have hheap : ∀ q, ∃ region, m'.heap q = { m.heap q with region := region } := by
    obtain ⟨cell, st, region, data, -, -, -, -, rfl⟩ := withRegion_eq_some.mp h
    intro q
    rw [heap_setHeap]
    split
    · next heq => rw [heq]; exact ⟨_, rfl⟩
    · exact ⟨(m.heap q).region, heap_putStore ..⟩
  refine ⟨⟨hkeeps.space, hkeeps.numHeaps, fun i _ => hkeeps.slots i (by simp), fun q _ => ?_,
    hkeeps.calls⟩, hheap⟩
  obtain ⟨region, hq⟩ := hheap q
  rw [hq]

end Region

end Machine

open Machine

section Helpers

/-- A free in the private heap may overwrite the start of the freed record. -/
theorem shallocPrivFree_keeps (h : shallocPrivFree cfg ptr m = some m') :
    Keeps ptr 0 m m' ∧ (m'.heap ptr).base.size = (m.heap ptr).base.size := by
  simp only [shallocPrivFree, bind, Option.bind_eq_some_iff, Prod.exists, Option.some.injEq] at h
  obtain ⟨_, m1, hfree, cell, -, rfl⟩ := h
  obtain ⟨hkeeps, hheap⟩ := withRegion_priv_keeps ptr hfree
  obtain ⟨region, hptr⟩ := hheap ptr
  refine ⟨hkeeps.trans_zero (keeps_setHeap ptr m1 _), ?_⟩
  rw [heap_setHeap, if_pos rfl]
  simp only [hptr]

theorem shallocHeapDetach_keeps (ptr : HeapPtr) (data : Buff) (m : Machine α) :
    Keeps ptr 0 m (shallocHeapDetach ptr data m) ∧
      (shallocHeapDetach ptr data m).heap ptr = { m.heap ptr with inheritId := -1 } :=
  ⟨((keeps_log ptr m _).trans_zero (keeps_log ptr _ _)).trans_zero (keeps_setHeap ptr _ _),
    by simp [shallocHeapDetach]⟩

theorem shallocMapHeapData_keeps (cfg : SpaceConfig α) (ptr : HeapPtr) (data : Buff)
    (m : Machine α) :
    Keeps ptr 0 m (shallocMapHeapData cfg ptr data m).2 ∧
      ∃ id, (shallocMapHeapData cfg ptr data m).2.heap ptr =
        { m.heap ptr with inheritId := id } := by
  simp only [shallocMapHeapData]
  by_cases hinherit : mapInherit (m.heap ptr).mmapFlags
  · simp only [if_pos hinherit]
    by_cases hid : (m.heap ptr).inheritId = -1
    · simp only [if_pos hid]
      exact ⟨(((keeps_shmget ptr m cfg.blank data.size).trans_zero
        (keeps_log ptr _ _)).trans_zero (keeps_setHeap ptr _ _)).trans_zero (keeps_log ptr _ _),
        (m.shmget cfg.blank data.size).1, by rw [heap_log, heap_setHeap, if_pos rfl]⟩
    · simp only [if_neg hid]
      exact ⟨keeps_log ptr m _, _, heap_log ..⟩
  · simp only [if_neg hinherit]
    split
    · exact ⟨keeps_mapFixedPages ptr m _ _ _ _ _, _, heap_mapFixedPages ..⟩
    · exact ⟨.refl ptr m, _, rfl⟩

/-- The page after the data range of a heap that has room for it is mapped without access. -/
theorem shallocMapHeap_keeps {remapped : Bool}
    (h : shallocMapHeap cfg ptr m = some (remapped, m')) :
    Keeps ptr 0 m m' ∧ (∃ id, m'.heap ptr = { m.heap ptr with inheritId := id }) ∧
      ((m.heap ptr).region.defaultData.size < (m.heap ptr).base.size →
        .mmap (Word.wrap 64 ((m.heap ptr).region.defaultData.start +
            (m.heap ptr).region.defaultData.size)) shallocPageSize protNone
          (mapAnonymousPrivate ||| mapFixed) ∈ m'.proc.calls) := by
  simp only [shallocMapHeap, bind, Option.bind_eq_some_iff] at h
  obtain ⟨data, hdata, h⟩ := h
  obtain ⟨_, -, rfl⟩ := Option.map_eq_some_iff.mp hdata
  obtain ⟨hkeeps, id, hheap⟩ :=
    shallocMapHeapData_keeps cfg ptr (m.heap ptr).region.defaultData m
  have hbase : ((shallocMapHeapData cfg ptr (m.heap ptr).region.defaultData m).2.heap ptr).base =
      (m.heap ptr).base := by rw [hheap]
  by_cases hguard : (m.heap ptr).base.size > (m.heap ptr).region.defaultData.size
  · simp only [hbase, if_pos hguard, Option.some.injEq, Prod.mk.injEq] at h
    obtain ⟨-, rfl⟩ := h
    exact ⟨hkeeps.trans_zero (keeps_mapFixedPages ptr _ _ _ _ _ _),
      ⟨id, by rw [heap_mapFixedPages, hheap]⟩, fun _ => List.mem_cons_self⟩
  · simp only [hbase, if_neg hguard, Option.some.injEq, Prod.mk.injEq] at h
    obtain ⟨-, rfl⟩ := h
    exact ⟨hkeeps, ⟨id, hheap⟩, fun hlt => absurd hlt hguard⟩

/-- Setting up the allocator of a heap writes no record. -/
theorem shallocHeapOpCreate_keeps {ret : ℤ} (h : shallocHeapOpCreate cfg ptr m = some (ret, m')) :
    Keeps ptr 0 m m' ∧ m'.heap ptr = m.heap ptr := by
  obtain ⟨cell, st, region, data, -, hcreate, hregion, hdata, rfl⟩ := withRegion_eq_some.mp h
  refine ⟨(withRegion_keeps h).1, ?_⟩
  obtain ⟨buff, a, -, -, rfl⟩ := Store.opCreate_eq_some.mp hcreate
  have hsame : ∀ st : Store α, ∀ event, (st.log event).regions = st.regions ∧
      (st.log event).buffs = st.buffs := fun _ _ => ⟨rfl, rfl⟩
  simp only [hsame, Store.setCell, regionStore, Function.update_self, Option.some.injEq]
    at hregion hdata
  subst hregion hdata
  simp

theorem shallocHeapUnmap_keeps {mmapFlags : ℕ} {remapped : Bool}
    (h : shallocHeapUnmap cfg ptr mmapFlags remapped m = some m') :
    Keeps ptr 0 m m' ∧ ∃ id, m'.heap ptr = { m.heap ptr with inheritId := id } := by
  simp only [shallocHeapUnmap, bind, Option.bind_eq_some_iff] at h
  obtain ⟨data, -, h⟩ := h
  by_cases hmapped : remapped = true
  · simp only [if_pos hmapped, Option.some.injEq] at h
    subst h
    by_cases hinherit : mapInherit mmapFlags = true
    · simp only [if_pos hinherit]
      obtain ⟨hkeeps, hheap⟩ := shallocHeapDetach_keeps ptr data m
      exact ⟨hkeeps.trans_zero (keeps_mapFixedPages ptr _ _ _ _ _ _), _,
        by rw [heap_mapFixedPages, hheap]⟩
    · simp only [if_neg hinherit]
      exact ⟨keeps_mapFixedPages ptr m _ _ _ _ _, _, heap_mapFixedPages ..⟩
  · simp only [if_neg hmapped, Option.some.injEq] at h
    subst h
    exact ⟨.refl ptr m, _, rfl⟩

end Helpers

section Create

variable {size mmapFlags : ℕ} {type : BuffAllocType}

/-- The record that a new heap gets: the next entry of `heap_list`, or a block of the
private heap. -/
def NewRecord (mmapFlags : ℕ) (m : Machine α) (ptr : HeapPtr) : Prop :=
  if mapInherit mmapFlags then
    0 ≤ m.shared.magic.numHeaps ∧ m.shared.magic.numHeaps < shallocMaxInheritHeaps ∧
      ptr = .slot m.shared.magic.numHeaps.toNat
  else ∃ addr, ptr = .priv addr

/-- How much a new heap adds to `num_heaps` of the control page. -/
def listedBy (mmapFlags : ℕ) : ℤ := if mapInherit mmapFlags then 1 else 0

theorem shallocHeapAlloc_keeps (h : shallocHeapAlloc cfg mmapFlags m = some (ptr, m')) :
    NewRecord mmapFlags m ptr ∧ Keeps ptr (listedBy mmapFlags) m m' := by
  unfold shallocHeapAlloc at h
  by_cases hinherit : mapInherit mmapFlags = true
  · simp only [if_pos hinherit] at h
    split at h
    · next hroom =>
      obtain ⟨rfl, rfl⟩ := Prod.mk.inj (Option.some.inj h)
      refine ⟨by simpa [NewRecord, hinherit] using hroom, ?_⟩
      have hset := keeps_setHeap (.slot m.shared.magic.numHeaps.toNat) m
        { m.heap (.slot m.shared.magic.numHeaps.toNat) with inheritId := -1 }
      have hnum := hset.trans (keeps_setNumHeaps _ _ (congrArg (· + 1) (setHeap_numHeaps _ _).symm))
      rwa [listedBy, if_pos hinherit]
    · exact absurd h (by simp)
  · simp only [if_neg hinherit, bind, Option.bind_eq_some_iff, Prod.exists, Option.some.injEq,
      Prod.mk.injEq] at h
    obtain ⟨_, m1, hmalloc, addr, -, rfl, rfl⟩ := h
    exact ⟨by simp [NewRecord, hinherit],
      by simpa [listedBy, hinherit] using (withRegion_priv_keeps _ hmalloc).1⟩

theorem shallocHeapUnalloc_keeps (h : shallocHeapUnalloc cfg ptr mmapFlags m = some m') :
    Keeps ptr (-listedBy mmapFlags) m m' ∧
      (mapInherit mmapFlags = true → m'.heap ptr = m.heap ptr) := by
  unfold shallocHeapUnalloc at h
  by_cases hinherit : mapInherit mmapFlags = true
  · simp only [if_pos hinherit, Option.some.injEq] at h
    subst h
    rw [listedBy, if_pos hinherit]
    exact ⟨keeps_setNumHeaps ptr m rfl, fun _ => heap_setNumHeaps ..⟩
  · simp only [if_neg hinherit] at h
    exact ⟨by simpa [listedBy, hinherit] using (shallocPrivFree_keeps h).1,
      fun hinherit' => absurd hinherit' hinherit⟩

/-- The record of a heap in the control page. -/
def SlotRecord (heap : Heap) : Prop :=
  mapInherit heap.mmapFlags = true ∧ hasFlag heap.region.flags .heap = true

/-- `shalloc_get_heap` sets the flags of a heap and of its region. -/
theorem shallocGetHeap_flags {self addr : ℕ} {old got : Heap}
    (h : shallocGetHeap cfg.guardPages self old addr size mmapFlags type = some got) :
    got.mmapFlags = mmapFlags ∧ got.region.flags = heapRegionFlags := by
  unfold shallocGetHeap at h
  split at h
  · exact absurd h (by simp)
  · rw [← Option.some.inj h]
    exact ⟨rfl, rfl⟩

theorem shallocGetHeap_slotRecord {self addr : ℕ} {old got : Heap}
    (h : shallocGetHeap cfg.guardPages self old addr size mmapFlags type = some got)
    (hinherit : mapInherit mmapFlags = true) : SlotRecord got := by
  obtain ⟨hflags, hregion⟩ := shallocGetHeap_flags h
  exact ⟨hflags ▸ hinherit, hregion ▸ by decide⟩

/-- What `shalloc_heap_create` did when it returns the heap `ptr`. -/
structure HeapCreated (cfg : SpaceConfig α) (size mmapFlags : ℕ) (type : BuffAllocType)
    (m m' : Machine α) (ptr : HeapPtr) : Prop where
  isNew : NewRecord mmapFlags m ptr
  record : ∃ self old id got, shallocGetHeap cfg.guardPages self old
      (shallocSpaceNextAddr m.proc.space) size mmapFlags type = some got ∧
    m'.heap ptr = { got with inheritId := id }
  inSpace : shallocSpaceNextAddr m.proc.space ≤ m.proc.space.data.endAddr
  fits : Word.wrap 64 (shallocSpaceNextAddr m.proc.space + (m'.heap ptr).base.size) ≤
    Word.wrap 64 (m.proc.space.data.endAddr + 1)
  space : shallocSpaceNewHeap (m'.heap ptr) m.proc.space = some m'.proc.space
  numHeaps : m'.shared.magic.numHeaps = m.shared.magic.numHeaps + listedBy mmapFlags
  slots : ∀ i, HeapPtr.slot i ≠ ptr → m'.heap (.slot i) = m.heap (.slot i)
  flags : ∀ q, q ≠ ptr → (m'.heap q).mmapFlags = (m.heap q).mmapFlags
  calls : m.proc.calls <:+ m'.proc.calls
  guard : (m'.heap ptr).region.defaultData.size < (m'.heap ptr).base.size →
    .mmap (Word.wrap 64 ((m'.heap ptr).region.defaultData.start +
        (m'.heap ptr).region.defaultData.size)) shallocPageSize protNone
      (mapAnonymousPrivate ||| mapFixed) ∈ m'.proc.calls

theorem HeapCreated.slotRecord (h : HeapCreated cfg size mmapFlags type m m' ptr)
    (hinherit : mapInherit mmapFlags = true) : SlotRecord (m'.heap ptr) := by
  obtain ⟨_, _, _, got, hgot, hheap⟩ := h.record
  have hslot := shallocGetHeap_slotRecord hgot hinherit
  rw [hheap]
  exact ⟨hslot.1, hslot.2⟩

/-- What `shalloc_heap_create` did when it returns NULL: the record it worked on is written,
but not in use. -/
structure HeapNotCreated (mmapFlags : ℕ) (m m' : Machine α) (ptr : HeapPtr) : Prop where
  isNew : NewRecord mmapFlags m ptr
  keeps : Keeps ptr 0 m m'
  slot : mapInherit mmapFlags = true → SlotRecord (m'.heap ptr)

/-- The steps of `shalloc_heap_create`: the new heap does not fit, or its allocator could not
be set up, or the space takes it. -/
theorem shallocHeapCreate_steps {res : Option HeapPtr}
    (h : shallocHeapCreate cfg size mmapFlags type m = some (res, m')) :
    ∃ ptr m1 got, shallocHeapAlloc cfg mmapFlags m = some (ptr, m1) ∧
      shallocSpaceNextAddr m.proc.space ≤ m.proc.space.data.endAddr ∧
      shallocGetHeap cfg.guardPages (m1.heapAddr ptr) (m1.heap ptr)
        (shallocSpaceNextAddr m.proc.space) size mmapFlags type = some got ∧
      (Word.wrap 64 (m.proc.space.data.endAddr + 1) <
          Word.wrap 64 (shallocSpaceNextAddr m.proc.space + got.base.size) ∧
        res = none ∧ shallocHeapUnalloc cfg ptr mmapFlags (m1.setHeap ptr got) = some m' ∨
        Word.wrap 64 (shallocSpaceNextAddr m.proc.space + got.base.size) ≤
          Word.wrap 64 (m.proc.space.data.endAddr + 1) ∧
        ∃ remapped m3 ret m4, shallocMapHeap cfg ptr (m1.setHeap ptr got) = some (remapped, m3) ∧
          shallocHeapOpCreate cfg ptr m3 = some (ret, m4) ∧
          ((res = none ∧ ∃ m5, shallocHeapUnmap cfg ptr mmapFlags remapped m4 = some m5 ∧
              shallocHeapUnalloc cfg ptr mmapFlags m5 = some m') ∨
            ∃ space, shallocSpaceNewHeap (m4.heap ptr) m4.proc.space = some space ∧
              res = some ptr ∧ m' = m4.setSpace space)) := by
  simp only [shallocHeapCreate, bind, Option.bind_eq_some_iff, Prod.exists] at h
  obtain ⟨ptr, m1, halloc, h⟩ := h
  simp only [shallocHeapPlace, (shallocHeapAlloc_keeps halloc).2.space] at h
  split at h
  · exact absurd h (by simp)
  next hin =>
  simp only [bind, Option.bind_eq_some_iff] at h
  obtain ⟨got, hgot, h⟩ := h
  refine ⟨ptr, m1, got, halloc, Nat.le_of_not_lt hin, hgot, ?_⟩
  split at h
  next hover =>
    simp only [Option.bind_eq_some_iff, Option.some.injEq, Prod.mk.injEq] at h
    obtain ⟨_, hunalloc, rfl, rfl⟩ := h
    exact Or.inl ⟨hover, rfl, hunalloc⟩
  next hfits =>
  simp only [Option.bind_eq_some_iff, Prod.exists] at h
  obtain ⟨remapped, m3, hmap, ret, m4, hcreate, h⟩ := h
  refine Or.inr ⟨Nat.le_of_not_lt hfits, remapped, m3, ret, m4, hmap, hcreate, ?_⟩
  split at h
  · simp only [Option.bind_eq_some_iff, Option.some.injEq, Prod.mk.injEq] at h
    obtain ⟨m5, hunmap, _, hunalloc, rfl, rfl⟩ := h
    exact Or.inl ⟨rfl, m5, hunmap, hunalloc⟩
  · simp only [Option.bind_eq_some_iff, Option.some.injEq, Prod.mk.injEq] at h
    obtain ⟨space, hspace, rfl, rfl⟩ := h
    exact Or.inr ⟨space, hspace, rfl, rfl⟩

/-- **The outcomes of `shalloc_heap_create`.** -/
theorem shallocHeapCreate_cases {res : Option HeapPtr}
    (h : shallocHeapCreate cfg size mmapFlags type m = some (res, m')) :
    (res = none ∧ ∃ ptr, HeapNotCreated mmapFlags m m' ptr) ∨
      ∃ ptr, res = some ptr ∧ HeapCreated cfg size mmapFlags type m m' ptr := by
  obtain ⟨ptr, m1, got, halloc, hin, hgot, h⟩ := shallocHeapCreate_steps h
  obtain ⟨hnew, hkeeps1⟩ := shallocHeapAlloc_keeps halloc
  have hback : listedBy mmapFlags + -listedBy mmapFlags = 0 := Int.add_right_neg _
  have hgotSlot := shallocGetHeap_slotRecord hgot
  have hkeeps2 := hkeeps1.trans_zero (keeps_setHeap ptr m1 got)
  have hheap2 : (m1.setHeap ptr got).heap ptr = got := by simp
  obtain ⟨-, rfl, hunalloc⟩ | ⟨hfits, remapped, m3, ret, m4, hmap, hcreate, h⟩ := h
  · -- the new heap does not fit
    obtain ⟨hkeeps3, hheap3⟩ := shallocHeapUnalloc_keeps hunalloc
    have hkeeps := hkeeps2.trans hkeeps3
    rw [hback] at hkeeps
    exact Or.inl ⟨rfl, ptr, hnew, hkeeps, fun hinherit => by
      rw [hheap3 hinherit, hheap2]
      exact hgotSlot hinherit⟩
  obtain ⟨hkeeps3, ⟨id, hheap3⟩, hguard⟩ := shallocMapHeap_keeps hmap
  obtain ⟨hkeeps4, hheap4⟩ := shallocHeapOpCreate_keeps hcreate
  rw [hheap2] at hheap3 hguard
  have hkeeps := (hkeeps2.trans_zero hkeeps3).trans_zero hkeeps4
  obtain ⟨rfl, m5, hunmap, hunalloc⟩ | ⟨space, hspace, rfl, rfl⟩ := h
  · -- the allocator of the new heap could not be set up
    obtain ⟨hkeeps5, id5, hheap5⟩ := shallocHeapUnmap_keeps hunmap
    obtain ⟨hkeeps6, hheap6⟩ := shallocHeapUnalloc_keeps hunalloc
    have hkeeps' := (hkeeps.trans_zero hkeeps5).trans hkeeps6
    rw [hback] at hkeeps'
    exact Or.inl ⟨rfl, ptr, hnew, hkeeps', fun hinherit => by
      rw [hheap6 hinherit, hheap5, hheap4, hheap3]
      exact hgotSlot hinherit⟩
  · have hheap : (m4.setSpace space).heap ptr = { got with inheritId := id } := by
      rw [heap_setSpace, hheap4, hheap3]
    refine Or.inr ⟨ptr, rfl, ?_⟩
    exact
      { isNew := hnew
        record := ⟨_, _, id, got, hgot, hheap⟩
        inSpace := hin
        fits := by rw [hheap]; exact hfits
        space := by
          rw [hkeeps.space] at hspace
          rw [heap_setSpace]
          exact hspace
        numHeaps := hkeeps.numHeaps
        slots := fun i hi => by rw [heap_setSpace]; exact hkeeps.slots i hi
        flags := fun q hq => by rw [heap_setSpace]; exact hkeeps.flags q hq
        calls := hkeeps.calls
        guard := by
          rw [hheap]
          exact fun hlt => hkeeps4.calls.subset (hguard hlt) }

theorem shallocHeapCreate_created (h : shallocHeapCreate cfg size mmapFlags type m =
    some (some ptr, m')) : HeapCreated cfg size mmapFlags type m m' ptr := by
  obtain ⟨hnone, -⟩ | ⟨ptr', hsome, hcreated⟩ := shallocHeapCreate_cases h
  · exact absurd hnone (by simp)
  · obtain rfl := Option.some.inj hsome
    exact hcreated

theorem shallocHeapCreate_refused (h : shallocHeapCreate cfg size mmapFlags type m =
    some (none, m')) : ∃ ptr, HeapNotCreated mmapFlags m m' ptr := by
  obtain ⟨-, hrefused⟩ | ⟨ptr, hsome, -⟩ := shallocHeapCreate_cases h
  · exact hrefused
  · exact absurd hsome (by simp)

end Create

section Destroy

/-- `shalloc_heap_destroy` takes an inherited heap off the control page. -/
theorem shallocHeapDestroy_keeps (h : shallocHeapDestroy cfg ptr m = some m') :
    (mapInherit (m.heap ptr).mmapFlags = true ∧ Keeps ptr (-1) m m' ∧
        ∃ id, m'.heap ptr = { m.heap ptr with inheritId := id }) ∨
      (mapInherit (m.heap ptr).mmapFlags = false ∧ Keeps ptr 0 m m' ∧
        (m'.heap ptr).base.size = (m.heap ptr).base.size) := by
  simp only [shallocHeapDestroy, bind, Option.bind_eq_some_iff] at h
  obtain ⟨data, -, h⟩ := h
  by_cases hinherit : mapInherit (m.heap ptr).mmapFlags = true
  · refine Or.inl ⟨hinherit, ?_⟩
    by_cases hid : (m.heap ptr).inheritId ≠ -1
    · obtain ⟨hkeeps, hheap⟩ := shallocHeapDetach_keeps ptr data m
      simp only [if_pos hinherit, if_pos hid, Option.bind_some, Option.some.injEq] at h
      rw [← h, ← Int.zero_add (-1)]
      exact ⟨(hkeeps.trans (keeps_setNumHeaps ptr _ rfl)).trans_zero (keeps_log ptr _ _),
        -1, by rw [heap_log, heap_setNumHeaps, hheap]⟩
    · simp only [if_pos hinherit, if_neg hid, Option.bind_some, Option.some.injEq] at h
      rw [← h]
      exact ⟨(keeps_setNumHeaps ptr m rfl).trans_zero (keeps_log ptr _ _), _,
        by rw [heap_log, heap_setNumHeaps]⟩
  · simp only [if_neg hinherit, Option.bind_eq_some_iff, Option.some.injEq] at h
    obtain ⟨m1, hfree, rfl⟩ := h
    obtain ⟨hkeeps, hsize⟩ := shallocPrivFree_keeps hfree
    exact Or.inr ⟨by simpa using hinherit, hkeeps.trans_zero (keeps_log ptr _ _),
      by rw [heap_log]; exact hsize⟩

/-- Two states of one heap record: what places the heap is the same. -/
structure SameHeap (heap heap' : Heap) : Prop where
  base : heap'.base = heap.base
  flags : heap'.region.flags = heap.region.flags
  mmapFlags : heap'.mmapFlags = heap.mmapFlags

theorem SlotRecord.of_sameHeap {heap heap' : Heap} (h : SlotRecord heap)
    (hsame : SameHeap heap heap') : SlotRecord heap' := by
  obtain ⟨hinherit, hflag⟩ := h
  exact ⟨by rw [hsame.mmapFlags, hinherit], by rw [hsame.flags, hflag]⟩

/-- The call of the region layer at the start of the destruction of a heap. -/
theorem withRegion_destroy {handed : Option ℕ}
    (h : m.withRegion ptr (shallocRegionDestroy cfg.ops 2) = some (handed, m')) :
    Keeps ptr 0 m m' ∧ SameHeap (m.heap ptr) (m'.heap ptr) ∧
      (hasFlag (m.heap ptr).region.flags .heap = true → handed.isSome) := by
  refine ⟨(withRegion_keeps h).1, ?_⟩
  obtain ⟨cell, st, region, data, -, hdestroy, hregion, -, rfl⟩ := withRegion_eq_some.mp h
  have hload : (m.regionStore ptr cell).regions (m.heapAddr ptr + heapRegionOffset) =
      some (m.heap ptr).region := by simp [regionStore]
  obtain ⟨hhanded, tail, htail⟩ := shallocRegionDestroy_region hload hdestroy
  obtain rfl := Option.some.inj (hregion.symm.trans htail)
  rw [heap_setHeap, if_pos rfl]
  exact ⟨⟨rfl, rfl, rfl⟩, fun hheap => by simp [hhanded, hheap]⟩

/-- The destruction of a heap takes at most one entry off the list. -/
theorem shallocHeapRegionDestroy_keeps (h : shallocHeapRegionDestroy cfg ptr m = some m') :
    (∃ d, d ≤ 0 ∧ Keeps ptr d m m') ∧ (m'.heap ptr).base.size = (m.heap ptr).base.size := by
  simp only [shallocHeapRegionDestroy, bind, Option.bind_eq_some_iff, Prod.exists] at h
  obtain ⟨handed, m1, hregion, h⟩ := h
  obtain ⟨hkeeps, hsame, -⟩ := withRegion_destroy hregion
  cases handed with
  | none =>
    obtain rfl := Option.some.inj h
    exact ⟨⟨0, Int.le_refl 0, hkeeps⟩, by rw [hsame.base]⟩
  | some r =>
    rw [← hsame.base]
    obtain ⟨-, hkeeps1, id, hheap⟩ | ⟨-, hkeeps1, hsize⟩ := shallocHeapDestroy_keeps h
    · exact ⟨⟨0 + -1, by decide, hkeeps.trans hkeeps1⟩, by rw [hheap]⟩
    · exact ⟨⟨0, Int.le_refl 0, hkeeps.trans_zero hkeeps1⟩, hsize⟩

/-- The destruction of a heap in the control page takes one entry off the list. -/
theorem shallocHeapRegionDestroy_slot (h : shallocHeapRegionDestroy cfg ptr m = some m')
    (hslot : SlotRecord (m.heap ptr)) :
    Keeps ptr (-1) m m' ∧ SameHeap (m.heap ptr) (m'.heap ptr) := by
  simp only [shallocHeapRegionDestroy, bind, Option.bind_eq_some_iff, Prod.exists] at h
  obtain ⟨handed, m1, hregion, h⟩ := h
  obtain ⟨hkeeps, hsame, hhanded⟩ := withRegion_destroy hregion
  cases handed with
  | none => exact absurd (hhanded hslot.2) (by simp)
  | some r =>
    obtain ⟨-, hkeeps1, id, hheap⟩ | ⟨hinherit, -, -⟩ := shallocHeapDestroy_keeps h
    · rw [← Int.zero_add (-1)]
      exact ⟨hkeeps.trans hkeeps1, by rw [hheap]; exact ⟨hsame.base, hsame.flags, hsame.mmapFlags⟩⟩
    · rw [hsame.mmapFlags, hslot.1] at hinherit
      exact absurd hinherit (by simp)

end Destroy

end Shalloc
