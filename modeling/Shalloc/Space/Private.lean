import Shalloc.Region.Parent
import Shalloc.Space.Placement

/-!
# The private heap

The heap records outside the control page are blocks of the private heap, and so are the
record of the private heap itself and that of the space. This module follows the allocator
of the private heap through the start of a process and the creation of heaps.

## Main definitions

- `PrivateOp` — what the allocator of the private heap is relied on for
- `PrivateHeap` — the private heap with its blocks in use
- `CreateRun` — a process after creations of heaps that all succeeded

## Main results

- `PrivateHeap.malloc`, `PrivateHeap.free` — the calls on the private heap
- `CreateRun.privateHeap` — the private heap of every process after successful creations
-/

namespace Shalloc

variable {α : Type} {cfg : SpaceConfig α} {m m' : Machine α} {ptr : HeapPtr} {guardPages : Bool}
  {priv : ℕ} {blocks : List Extent} {rep : Buff → List Extent → α → Prop}

open Machine

section Contract

/-- The allocator keeps a representation for requests below a page, a buffer that was just
created has no block in use, and every block in use can be freed. -/
structure PrivateOp (op : BuffOp α) (rep : Buff → List Extent → α → Prop) : Prop where
  sound : SoundOp op 0 shallocPageSize rep
  created : ∀ {buff a a'}, shallocPageSize ∣ buff.start → buff.start + buff.size < 2 ^ 48 →
    op.create buff a = some (0, a') → rep buff [] a'
  frees : ∀ {buff blocks a e}, rep buff blocks a → e ∈ blocks →
    ∃ a', op.free buff e.ptr a = some a'

/-- The same without a promise that a free returns. -/
structure PrivateSound (op : BuffOp α) (rep : Buff → List Extent → α → Prop) : Prop where
  sound : SoundOp op 0 shallocPageSize rep
  created : ∀ {buff a a'}, shallocPageSize ∣ buff.start → buff.start + buff.size < 2 ^ 48 →
    op.create buff a = some (0, a') → rep buff [] a'

theorem PrivateOp.privateSound {op : BuffOp α} (h : PrivateOp op rep) : PrivateSound op rep :=
  ⟨h.sound, h.created⟩

/-- The data buffer of the private heap. -/
def privBuff (guardPages : Bool) : Buff :=
  shallocGetBuff (shallocBaseAddr + if guardPages then shallocPageSize else 0)
    shallocPrivateHeapSize 0 .none .mplite

/-- The private heap comes before the control page. -/
theorem privBuff_spec (guardPages : Bool) :
    (privBuff guardPages).size = shallocPageSize ∧
      (privBuff guardPages).start + shallocPageSize ≤ controlAddr guardPages ∧
      (privBuff guardPages).endAddr + 1 = (privBuff guardPages).start + shallocPageSize ∧
      shallocPageSize ∣ (privBuff guardPages).start ∧
      (privBuff guardPages).start + (privBuff guardPages).size < 2 ^ 48 ∧
      (privBuff guardPages).allocType = .mplite := by
  cases guardPages <;> decide

/-- The address of the region of a heap record, and that of its data buffer. -/
def privRegionAddr (priv : ℕ) : ℕ := priv + heapRegionOffset

def privDataAddr (priv : ℕ) : ℕ := privRegionAddr priv + regionDataOffset

/-- The private heap, whose record is at `priv`: it has the one buffer, which it may not add
to, and its blocks in use are `blocks`, among them its own record. -/
structure PrivateHeap (rep : Buff → List Extent → α → Prop) (guardPages : Bool) (priv : ℕ)
    (blocks : List Extent) (m : Machine α) : Prop where
  tail : (m.heap (.priv priv)).region.dataTail = some (privDataAddr priv)
  data : (m.heap (.priv priv)).region.defaultData = privBuff guardPages
  fixed : hasFlag (m.heap (.priv priv)).region.flags .nonResizable = true
  own : mapInherit (m.heap (.priv priv)).mmapFlags = false
  rep : rep (privBuff guardPages) blocks (m.proc.store.cells (privBuff guardPages).start)
  live : ∀ e ∈ liveBlocks (privDataAddr priv) m.proc.store.trace, e ∈ blocks

/-- The record of the private heap, its allocator and its blocks in use are the same. -/
structure SamePrivate (guardPages : Bool) (priv : ℕ) (m m' : Machine α) : Prop where
  record : m'.heap (.priv priv) = m.heap (.priv priv)
  cell : m'.proc.store.cells (privBuff guardPages).start =
    m.proc.store.cells (privBuff guardPages).start
  live : liveBlocks (privDataAddr priv) m'.proc.store.trace =
    liveBlocks (privDataAddr priv) m.proc.store.trace

theorem SamePrivate.refl (guardPages : Bool) (priv : ℕ) (m : Machine α) :
    SamePrivate guardPages priv m m := ⟨rfl, rfl, rfl⟩

theorem SamePrivate.trans {m'' : Machine α} (h : SamePrivate guardPages priv m m')
    (h' : SamePrivate guardPages priv m' m'') : SamePrivate guardPages priv m m'' :=
  ⟨h'.record.trans h.record, h'.cell.trans h.cell, h'.live.trans h.live⟩

theorem PrivateHeap.of_same (h : PrivateHeap rep guardPages priv blocks m)
    (hsame : SamePrivate guardPages priv m m') : PrivateHeap rep guardPages priv blocks m' where
  tail := by rw [hsame.record]; exact h.tail
  data := by rw [hsame.record]; exact h.data
  fixed := by rw [hsame.record]; exact h.fixed
  own := by rw [hsame.record]; exact h.own
  rep := by rw [hsame.cell]; exact h.rep
  live := by rw [hsame.live]; exact h.live

end Contract

section Calls

/-- The memory that the region layer works on, with the region of the private heap. -/
def Machine.privStore (m : Machine α) (guardPages : Bool) (priv : ℕ) : Store α :=
  m.regionStore (.priv priv) (m.proc.store.cells (privBuff guardPages).start)

/-- The process with other memory for the region layer. -/
def Machine.withStore (m : Machine α) (st : Store α) : Machine α :=
  { m with proc := { m.proc with store := st } }

@[simp] theorem heap_withStore (st : Store α) (q : HeapPtr) :
    (m.withStore st).heap q = m.heap q := by
  cases q <;> rfl

theorem PrivateHeap.withStore {st : Store α} {blocks' : List Extent}
    (h : PrivateHeap rep guardPages priv blocks m)
    (hrep : rep (privBuff guardPages) blocks' (st.cells (privBuff guardPages).start))
    (hlive : ∀ e ∈ liveBlocks (privDataAddr priv) st.trace, e ∈ blocks') :
    PrivateHeap rep guardPages priv blocks' (m.withStore st) where
  tail := by rw [heap_withStore]; exact h.tail
  data := by rw [heap_withStore]; exact h.data
  fixed := by rw [heap_withStore]; exact h.fixed
  own := by rw [heap_withStore]; exact h.own
  rep := hrep
  live := hlive

theorem PrivateHeap.store (h : PrivateHeap rep guardPages priv blocks m) :
    (m.privStore guardPages priv).regions (privRegionAddr priv) =
        some (m.heap (.priv priv)).region ∧
      (m.privStore guardPages priv).buffs (privDataAddr priv) = some (privBuff guardPages) ∧
      (m.privStore guardPages priv).cells (privBuff guardPages).start =
        m.proc.store.cells (privBuff guardPages).start := by
  refine ⟨Function.update_self .., ?_, ?_⟩
  · rw [← h.data]
    exact Function.update_self ..
  · simp only [privStore, regionStore, h.data, Function.update_self]

/-- A call of the region layer on the private heap that writes no record. -/
theorem PrivateHeap.withRegion_eq {β : Type} {f : ℕ → Store α → Option (β × Store α)} {res : β}
    {st : Store α} (h : PrivateHeap rep guardPages priv blocks m)
    (hf : f (privRegionAddr priv) (m.privStore guardPages priv) = some (res, st))
    (hregions : st.regions = (m.privStore guardPages priv).regions)
    (hbuffs : st.buffs = (m.privStore guardPages priv).buffs) :
    m.withRegion (.priv priv) f = some (res, m.withStore st) := by
  obtain ⟨hregion, hbuff, -⟩ := h.store
  have hcell : m.heapCell (m.heap (.priv priv)) =
      some (m.proc.store.cells (privBuff guardPages).start) := by
    rw [heapCell, h.own, if_neg (by simp), h.data]
  refine withRegion_eq_some.mpr ⟨_, st, (m.heap (.priv priv)).region, privBuff guardPages, hcell,
    hf, by rw [hregions]; exact hregion, by rw [hbuffs]; exact hbuff, ?_⟩
  have hsame : { m.heap (.priv priv) with
      region := { (m.heap (.priv priv)).region with defaultData := privBuff guardPages } } =
      m.heap (.priv priv) := by rw [← h.data]
  rw [hsame, putStore, h.own, if_neg (by simp)]
  show _ = (Machine.mk m.shared { m.proc with
    store := st
    heaps := Function.update m.proc.heaps priv (m.proc.heaps priv) })
  rw [Function.update_eq_self]
  rfl

/-- The call of the region layer that a call on the private heap makes. -/
theorem PrivateHeap.withRegion_cases {β : Type} {f : ℕ → Store α → Option (β × Store α)} {res : β}
    (h : PrivateHeap rep guardPages priv blocks m)
    (hcall : m.withRegion (.priv priv) f = some (res, m')) :
    ∃ st, f (privRegionAddr priv) (m.privStore guardPages priv) = some (res, st) := by
  obtain ⟨cell, st, -, -, hcell, hf, -⟩ := withRegion_eq_some.mp hcall
  rw [heapCell, h.own, if_neg (by simp), h.data] at hcell
  rw [← Option.some.inj hcell] at hf
  exact ⟨st, hf⟩

/-- **A request to the private heap.** -/
theorem PrivateHeap.malloc {n : ℕ} {p : Option ℕ} (hop : PrivateSound (cfg.ops .mplite) rep)
    (h : PrivateHeap rep guardPages priv blocks m) (hn : n < shallocPageSize)
    (hcall : m.withRegion (.priv priv) (fun r st => shallocMalloc cfg.ops [r] n st) =
      some (p, m')) :
    ∃ st, m' = m.withStore st ∧
      (∀ b, b ≠ privDataAddr priv → liveBlocks b st.trace = liveBlocks b m.proc.store.trace) ∧
      (p = none ∨ ∃ a, p = some a ∧ PrivateHeap rep guardPages priv (⟨a, n⟩ :: blocks) m' ∧
        (∀ e ∈ blocks, Extent.Disjoint ⟨a, n⟩ e) ∧
        liveBlocks (privDataAddr priv) st.trace =
          ⟨a, n⟩ :: liveBlocks (privDataAddr priv) m.proc.store.trace) := by
  obtain ⟨hregion, hbuff, hcell⟩ := h.store
  obtain ⟨st, hf⟩ := h.withRegion_cases hcall
  obtain ⟨rfl, rfl⟩ | ⟨hpos, a, hmalloc, rfl⟩ :=
    shallocMalloc_fixed hregion h.tail hbuff h.fixed hf
  · have heq := h.withRegion_eq (f := fun r st => shallocMalloc cfg.ops [r] n st) hf rfl rfl
    rw [heq] at hcall
    exact ⟨_, (Prod.mk.inj (Option.some.inj hcall)).2.symm, fun _ _ => rfl, Or.inl rfl⟩
  · have heq := h.withRegion_eq (f := fun r st => shallocMalloc cfg.ops [r] n st) hf rfl rfl
    rw [heq] at hcall
    refine ⟨_, (Prod.mk.inj (Option.some.inj hcall)).2.symm, fun b hb => ?_, ?_⟩
    · cases p with
      | none => rfl
      | some q => exact liveBlocks_of_not_touches fun htouches => hb (Eq.symm htouches)
    obtain rfl := (Prod.mk.inj (Option.some.inj hcall)).2
    cases p with
    | none => exact Or.inl rfl
    | some q =>
      rw [hcell, (privBuff_spec guardPages).2.2.2.2.2] at hmalloc
      obtain ⟨hrep, hapart⟩ := hop.sound.served h.rep hpos hn hmalloc
      have hlive : liveBlocks (privDataAddr priv)
          (((m.privStore guardPages priv).log (.request (privRegionAddr priv) n)).setCell
            (privBuff guardPages).start a |>.log (.malloc (privDataAddr priv) n (some q))).trace =
          ⟨q, n⟩ :: liveBlocks (privDataAddr priv) m.proc.store.trace := by
        simp [privStore, regionStore]
      refine Or.inr ⟨q, rfl, ?_, hapart, hlive⟩
      refine h.withStore ?_ fun e he => ?_
      · rw [Store.log_cells, Store.setCell_cells, Function.update_self]
        exact hrep
      · rw [hlive] at he
        cases List.mem_cons.mp he with
        | inl heq => rw [heq]; exact List.mem_cons_self
        | inr he => exact List.mem_cons_of_mem _ (h.live e he)

/-- A block of the private heap is in its buffer. -/
theorem PrivateHeap.isBuffAddr {e : Extent} (hop : PrivateSound (cfg.ops .mplite) rep)
    (h : PrivateHeap rep guardPages priv blocks m) (he : e ∈ blocks) :
    shallocIsBuffAddr (privBuff guardPages) e.ptr := by
  obtain ⟨hsize, -, hend, -⟩ := privBuff_spec guardPages
  obtain ⟨⟨hlo, hhi⟩, -, hpos⟩ := hop.sound.issued h.rep e he
  constructor <;> simp only at hlo hhi <;> omega

/-- **A free in the private heap.** It never aborts. -/
theorem PrivateHeap.free {e : Extent} (hop : PrivateOp (cfg.ops .mplite) rep)
    (h : PrivateHeap rep guardPages priv blocks m) (he : e ∈ blocks) :
    ∃ st, m.withRegion (.priv priv) (fun r st => (shallocFree cfg.ops r e.ptr st).map
        fun st => ((), st)) = some ((), m.withStore st) ∧
      liveBlocks (privDataAddr priv) st.trace =
        releaseBlock e.ptr (liveBlocks (privDataAddr priv) m.proc.store.trace) := by
  obtain ⟨hregion, hbuff, hcell⟩ := h.store
  obtain ⟨-, -, -, -, -, htype⟩ := privBuff_spec guardPages
  obtain ⟨a, hfree⟩ := hop.frees h.rep he
  have haddr := h.isBuffAddr hop.privateSound he
  rw [← hcell, ← htype] at hfree
  have hcall := shallocFree_tail hregion h.tail hbuff haddr hfree
  have hf : (shallocFree cfg.ops (privRegionAddr priv) e.ptr (m.privStore guardPages priv)).map
      (fun st => ((), st)) = _ := congrArg (Option.map fun st => ((), st)) hcall
  refine ⟨_, h.withRegion_eq
    (f := fun r st => (shallocFree cfg.ops r e.ptr st).map fun st => ((), st)) hf rfl rfl, ?_⟩
  simp [privStore, regionStore]

end Calls

section Same

theorem samePrivate_setHeap (guardPages : Bool) (heap : Heap) (hptr : ptr ≠ .priv priv) :
    SamePrivate guardPages priv m (m.setHeap ptr heap) := by
  refine ⟨by rw [heap_setHeap, if_neg hptr.symm], ?_, ?_⟩
  · cases ptr <;> rfl
  · cases ptr <;> rfl

theorem samePrivate_log (guardPages : Bool) (priv : ℕ) (m : Machine α) (call : SysCall) :
    SamePrivate guardPages priv m (m.log call) := ⟨heap_log .., rfl, rfl⟩

/-- The pages that are mapped come after the private heap. -/
theorem samePrivate_mapFixedPages {blank : α} {addr size prot flags : ℕ}
    (hlo : (privBuff guardPages).start < addr) :
    SamePrivate guardPages priv m (m.mapFixedPages blank addr size prot flags) :=
  ⟨heap_mapFixedPages .., if_neg fun hin => absurd hin.1 (Nat.not_le.mpr hlo), rfl⟩

theorem shallocMapHeapData_same (cfg : SpaceConfig α) {data : Buff} (hptr : ptr ≠ .priv priv)
    (hlo : (privBuff guardPages).start < data.start) :
    SamePrivate guardPages priv m (shallocMapHeapData cfg ptr data m).2 := by
  simp only [shallocMapHeapData]
  by_cases hinherit : mapInherit (m.heap ptr).mmapFlags
  · simp only [if_pos hinherit]
    by_cases hid : (m.heap ptr).inheritId = -1
    · simp only [if_pos hid]
      have hshmget : SamePrivate guardPages priv m (m.shmget cfg.blank data.size).2 :=
        ⟨heap_shmget .., rfl, rfl⟩
      exact ((hshmget.trans (samePrivate_log guardPages priv _ _)).trans
        (samePrivate_setHeap guardPages _ hptr)).trans (samePrivate_log guardPages priv _ _)
    · simp only [if_neg hid]
      exact samePrivate_log guardPages priv m _
  · simp only [if_neg hinherit]
    split
    · exact samePrivate_mapFixedPages hlo
    · exact .refl guardPages priv m

/-- Mapping a heap that lies after the private heap. -/
theorem shallocMapHeap_same {remapped : Bool} (hptr : ptr ≠ .priv priv)
    (hlo : (privBuff guardPages).start < (m.heap ptr).region.defaultData.start)
    (hguard : (privBuff guardPages).start < Word.wrap 64
      ((m.heap ptr).region.defaultData.start + (m.heap ptr).region.defaultData.size))
    (h : shallocMapHeap cfg ptr m = some (remapped, m')) : SamePrivate guardPages priv m m' := by
  simp only [shallocMapHeap, bind, Option.bind_eq_some_iff] at h
  obtain ⟨data, hdata, h⟩ := h
  obtain ⟨_, -, rfl⟩ := Option.map_eq_some_iff.mp hdata
  have hsame := shallocMapHeapData_same (m := m) cfg hptr hlo
  split at h
  · obtain ⟨-, rfl⟩ := Prod.mk.inj (Option.some.inj h)
    exact hsame.trans (samePrivate_mapFixedPages hguard)
  · obtain ⟨-, rfl⟩ := Prod.mk.inj (Option.some.inj h)
    exact hsame

/-- Mapping a heap calls no allocator. -/
theorem shallocMapHeap_trace {remapped : Bool}
    (h : shallocMapHeap cfg ptr m = some (remapped, m')) :
    m'.proc.store.trace = m.proc.store.trace := by
  have hset : ∀ (m : Machine α) (heap : Heap),
      (m.setHeap ptr heap).proc.store.trace = m.proc.store.trace := by
    intro m heap
    cases ptr <;> rfl
  simp only [shallocMapHeap, bind, Option.bind_eq_some_iff] at h
  obtain ⟨data, -, h⟩ := h
  have hdata : (shallocMapHeapData cfg ptr data m).2.proc.store.trace = m.proc.store.trace := by
    simp only [shallocMapHeapData]
    by_cases hinherit : mapInherit (m.heap ptr).mmapFlags
    · simp only [if_pos hinherit]
      by_cases hid : (m.heap ptr).inheritId = -1
      · simp only [if_pos hid]
        exact hset _ _
      · simp only [if_neg hid]
        rfl
    · simp only [if_neg hinherit]
      split <;> rfl
  split at h
  · obtain ⟨-, rfl⟩ := Prod.mk.inj (Option.some.inj h)
    exact hdata
  · obtain ⟨-, rfl⟩ := Prod.mk.inj (Option.some.inj h)
    exact hdata

/-- Setting up a heap whose record and data lie elsewhere. -/
theorem shallocHeapOpCreate_same {ret : ℤ} (hptr : ptr ≠ .priv priv) (haddr : m.heapAddr ptr ≠ priv)
    (hstart : (m.heap ptr).region.defaultData.start ≠ (privBuff guardPages).start)
    (h : shallocHeapOpCreate cfg ptr m = some (ret, m')) : SamePrivate guardPages priv m m' := by
  obtain ⟨cell, st, region, data, -, hcreate, -, -, rfl⟩ := withRegion_eq_some.mp h
  obtain ⟨buff, a, hbuff, -, rfl⟩ := Store.opCreate_eq_some.mp hcreate
  obtain rfl : (m.heap ptr).region.defaultData = buff := by
    simp only [regionStore, Function.update_self, Option.some.injEq] at hbuff
    exact hbuff
  refine (SamePrivate.trans ?_ (samePrivate_setHeap guardPages _ hptr))
  refine ⟨heap_putStore .., ?_, ?_⟩
  · exact (Function.update_of_ne hstart.symm _ _).trans (Function.update_of_ne hstart.symm _ _)
  · have hne : m.heapAddr ptr + heapRegionOffset + regionDataOffset ≠ privDataAddr priv := by
      unfold privDataAddr privRegionAddr
      omega
    exact if_neg hne

end Same

section Runs

/-- A process after calls of `shalloc_heap_create` that all returned a heap. -/
inductive CreateRun (cfg : SpaceConfig α) (m : Machine α) : Machine α → Prop
  | refl : CreateRun cfg m m
  | step {m1 m2 size mmapFlags type ptr} : CreateRun cfg m m1 →
      shallocHeapCreate cfg size mmapFlags type m1 = some (some ptr, m2) → CreateRun cfg m m2

/-- It is a run of the process. -/
theorem CreateRun.heapRun (h : CreateRun cfg m m') :
    ∃ past t, HeapRun cfg m.tracked past t ∧ t.machine = m' := by
  induction h with
  | refl => exact ⟨_, _, .refl, rfl⟩
  | step _ hcreate ih =>
    obtain ⟨past, t, hrun, rfl⟩ := ih
    exact ⟨_, _, .step hrun (.created hcreate), rfl⟩

/-- The space and the private heap of a process. -/
structure PrivateOk (cfg : SpaceConfig α) (rep : Buff → List Extent → α → Prop)
    (m : Machine α) : Prop where
  control : m.proc.space.magicControlPage = controlAddr cfg.guardPages
  start : controlAddr cfg.guardPages ≤ m.proc.space.data.start
  heap : ∃ blocks, PrivateHeap rep cfg.guardPages m.proc.space.privHeap blocks m ∧
    ⟨m.proc.space.privHeap, sizeofHeap⟩ ∈ blocks

/-- A heap that is accounted for leaves the control page and the private heap alone. -/
theorem shallocSpaceNewHeap_fixed {heap : Heap} {space space' : Space}
    (h : shallocSpaceNewHeap heap space = some space') :
    space'.magicControlPage = space.magicControlPage ∧ space'.privHeap = space.privHeap ∧
      space'.data.start = space.data.start := by
  unfold shallocSpaceNewHeap at h
  split at h
  · exact absurd h (by simp)
  split at h
  · rw [← Option.some.inj h]
    exact ⟨rfl, rfl, rfl⟩
  · exact absurd h (by simp)

/-- A block of the private heap that lies apart from another one. -/
theorem PrivateHeap.ptr_ne {n : ℕ} {a : ℕ} {e : Extent} (hop : PrivateSound (cfg.ops .mplite) rep)
    (h : PrivateHeap rep guardPages priv (⟨a, n⟩ :: blocks) m) (he : e ∈ blocks)
    (hapart : Extent.Disjoint ⟨a, n⟩ e) : e.ptr ≠ a := by
  obtain ⟨-, -, hpos⟩ := hop.sound.issued h.rep e (List.mem_cons_of_mem _ he)
  obtain ⟨-, -, hpos'⟩ := hop.sound.issued h.rep ⟨a, n⟩ List.mem_cons_self
  simp only [Extent.Disjoint] at hapart hpos'
  omega

/-- The record of a new heap is none of the private heap's. -/
theorem PrivateOk.alloc {mmapFlags : ℕ} (hop : PrivateSound (cfg.ops .mplite) rep)
    (h : PrivateOk cfg rep m) (halloc : shallocHeapAlloc cfg mmapFlags m = some (ptr, m')) :
    PrivateOk cfg rep m' ∧ m'.proc.space = m.proc.space ∧ ptr ≠ .priv m.proc.space.privHeap ∧
      m'.heapAddr ptr ≠ m.proc.space.privHeap := by
  obtain ⟨blocks, hpriv, hself⟩ := h.heap
  obtain ⟨hsize, hcontrol, hend, -⟩ := privBuff_spec cfg.guardPages
  obtain ⟨⟨hlo, hhi⟩, -, hpos⟩ := hop.sound.issued hpriv.rep _ hself
  unfold shallocHeapAlloc at halloc
  by_cases hinherit : mapInherit mmapFlags = true
  · simp only [if_pos hinherit] at halloc
    split at halloc
    · obtain ⟨rfl, rfl⟩ := Prod.mk.inj (Option.some.inj halloc)
      refine ⟨⟨h.control, h.start, blocks, ?_, hself⟩, rfl, by simp, ?_⟩
      · exact hpriv.of_same ⟨rfl, rfl, rfl⟩
      · -- the entries of the control page come after the private heap
        show m.proc.space.magicControlPage + heapListOffset + _ ≠ _
        rw [h.control]
        simp only at hhi hpos
        omega
    · exact absurd halloc (by simp)
  · simp only [if_neg hinherit, bind, Option.bind_eq_some_iff, Prod.exists, Option.some.injEq,
      Prod.mk.injEq] at halloc
    obtain ⟨_, m1, hmalloc, a, rfl, rfl, rfl⟩ := halloc
    obtain ⟨st, rfl, -, hnone | ⟨a', hsome, hpriv', hapart, -⟩⟩ :=
      hpriv.malloc hop (by decide) hmalloc
    · exact absurd hnone (by simp)
    · obtain rfl := Option.some.inj hsome
      have hne := hpriv'.ptr_ne hop hself (hapart _ hself)
      exact ⟨⟨h.control, h.start, _, hpriv', List.mem_cons_of_mem _ hself⟩, rfl,
        fun heq => hne (HeapPtr.priv.inj heq).symm, fun heq => hne heq.symm⟩

/-- A heap that was created leaves the private heap sound. -/
theorem PrivateOk.created {size mmapFlags : ℕ} {type : BuffAllocType}
    (hop : PrivateSound (cfg.ops .mplite) rep) (h : PrivateOk cfg rep m)
    (hok : SpaceOk m.proc.space)
    (hcreate : shallocHeapCreate cfg size mmapFlags type m = some (some ptr, m')) :
    PrivateOk cfg rep m' := by
  have hcreated := shallocHeapCreate_created hcreate
  obtain ⟨hshape, hok', hsame', hoffset⟩ := hcreated.place hok
  obtain ⟨ptr, m1, got, halloc, -, hgot, hsteps⟩ := shallocHeapCreate_steps hcreate
  obtain ⟨-, hnone, -⟩ | ⟨-, remapped, m3, ret, m4, hmap, hop4, hsteps⟩ := hsteps
  · exact absurd hnone (by simp)
  obtain ⟨hnone, -⟩ | ⟨space, hspace, hsome, rfl⟩ := hsteps
  · exact absurd hnone (by simp)
  obtain rfl := Option.some.inj hsome
  obtain ⟨h1, hspace1, hptr, haddr⟩ := h.alloc hop halloc
  rw [← hspace1] at hptr haddr
  obtain ⟨hkeeps3, ⟨id, hheap3⟩, -⟩ := shallocMapHeap_keeps hmap
  obtain ⟨hkeeps4, hheap4⟩ := shallocHeapOpCreate_keeps hop4
  have hgot3 : (m3.heap ptr).region.defaultData = got.region.defaultData := by
    rw [hheap3, heap_setHeap, if_pos rfl]
  have hgot4 : (m4.setSpace space).heap ptr = m3.heap ptr := by rw [heap_setSpace, hheap4]
  -- the new heap lies after the private heap, and its end does not wrap
  rw [hgot4] at hshape hoffset
  have hstart := hshape.dataStart
  have hsize := hshape.size
  rw [hgot3] at hstart hsize
  obtain ⟨-, hcontrol, -⟩ := privBuff_spec cfg.guardPages
  have hpage : 0 < shallocPageSize := by decide
  have hfirst := h.start
  have hend := hok'.end_le
  have hsmall := hok'.small
  rw [hoffset, hsame'.start, hsize] at hend
  have hlo : (privBuff cfg.guardPages).start < got.region.defaultData.start := by omega
  have hguard : (privBuff cfg.guardPages).start <
      Word.wrap 64 (got.region.defaultData.start + got.region.defaultData.size) := by
    rw [Word.wrap_of_lt (by omega)]
    omega
  have hheap2 : (m1.setHeap ptr got).heap ptr = got := by simp
  have hspace3 : m3.proc.space = m1.proc.space := by
    rw [hkeeps3.space, setHeap_space]
  have haddr3 : m3.heapAddr ptr = m1.heapAddr ptr := by
    cases ptr with
    | slot i => simp only [heapAddr, hspace3]
    | priv a => rfl
  have hsame := ((samePrivate_setHeap cfg.guardPages got hptr).trans
    (shallocMapHeap_same hptr (by rw [hheap2]; exact hlo) (by rw [hheap2]; exact hguard)
      hmap)).trans
    (shallocHeapOpCreate_same hptr (by rw [haddr3]; exact haddr) (by rw [hgot3]; omega) hop4)
  have hspace4 : m4.proc.space = m1.proc.space := hkeeps4.space.trans hspace3
  rw [hspace4] at hspace
  obtain ⟨hpage', hpriv', hstart'⟩ := shallocSpaceNewHeap_fixed hspace
  obtain ⟨blocks, hpriv, hself⟩ := h1.heap
  refine ⟨hpage'.trans h1.control, ?_, blocks, ?_, ?_⟩
  · show _ ≤ space.data.start
    rw [hstart']
    exact h1.start
  · show PrivateHeap rep _ space.privHeap _ _
    rw [hpriv']
    exact (hpriv.of_same hsame).of_same ⟨heap_setSpace .., rfl, rfl⟩
  · show ⟨space.privHeap, sizeofHeap⟩ ∈ blocks
    rw [hpriv']
    exact hself

end Runs

section Init

/-- The record of the private heap while it is built. -/
theorem shallocGetHeap_private {self : ℕ} {old got : Heap}
    (h : shallocGetHeap guardPages self old (privBuff guardPages).start shallocPrivateHeapSize
      mapAnonymousPrivate .none = some got) :
    got.region.dataTail = some (privDataAddr self) ∧ got.region.defaultData = privBuff guardPages ∧
      hasFlag got.region.flags .nonResizable = true ∧ mapInherit got.mmapFlags = false := by
  unfold shallocGetHeap at h
  rw [if_neg (by decide)] at h
  rw [← Option.some.inj h]
  refine ⟨rfl, ?_, (by decide : hasFlag heapRegionFlags .nonResizable = true),
    (by decide : mapInherit mapAnonymousPrivate = false)⟩
  cases guardPages <;> rfl

/-- The allocator of the private heap is set up with no block in use. -/
theorem shallocHeapOpCreate_private (guardPages : Bool) (hop : PrivateSound (cfg.ops .mplite) rep)
    (htail : (m.heap (.priv priv)).region.dataTail = some (privDataAddr priv))
    (hdata : (m.heap (.priv priv)).region.defaultData = privBuff guardPages)
    (hfixed : hasFlag (m.heap (.priv priv)).region.flags .nonResizable = true)
    (hown : mapInherit (m.heap (.priv priv)).mmapFlags = false)
    (h : shallocHeapOpCreate cfg (.priv priv) m = some (0, m')) :
    PrivateHeap rep guardPages priv [] m' ∧
      ∀ b, b ≠ privDataAddr priv →
        liveBlocks b m'.proc.store.trace = liveBlocks b m.proc.store.trace := by
  obtain ⟨-, hheap⟩ := shallocHeapOpCreate_keeps h
  obtain ⟨-, -, -, hpages, hsmall, htype⟩ := privBuff_spec guardPages
  obtain ⟨cell, st, region, data, -, hcreate, -, -, rfl⟩ := withRegion_eq_some.mp h
  obtain ⟨buff, a, hbuff, hrun, rfl⟩ := Store.opCreate_eq_some.mp hcreate
  obtain rfl : privBuff guardPages = buff := by
    simp only [regionStore, Function.update_self, Option.some.injEq, hdata] at hbuff
    exact hbuff
  rw [htype] at hrun
  refine ⟨⟨?_, ?_, ?_, ?_, ?_, ?_⟩, fun b hb => ?_⟩
  · rw [hheap]; exact htail
  · rw [hheap]; exact hdata
  · rw [hheap]; exact hfixed
  · rw [hheap]; exact hown
  · have hfresh := hop.created hpages hsmall hrun
    convert hfresh
    exact Function.update_self ..
  · intro e he
    have hnil : liveBlocks (privDataAddr priv) (.create (privDataAddr priv) 0 ::
        m.proc.store.trace) = [] := if_pos rfl
    exact absurd (hnil ▸ he) List.not_mem_nil
  · exact if_neg fun heq => hb (Eq.symm heq)

/-- **The start of the private heap.** Its record is the first of its blocks. -/
theorem shallocSpacePrivHeap_private {stack : ℕ} (hop : PrivateSound (cfg.ops .mplite) rep)
    (htrace : m.proc.store.trace = [])
    (h : shallocSpacePrivHeap cfg stack (privBuff cfg.guardPages).start m = some (priv, m')) :
    PrivateHeap rep cfg.guardPages priv [⟨priv, sizeofHeap⟩] m' := by
  simp only [shallocSpacePrivHeap, bind, Option.bind_eq_some_iff, Prod.exists] at h
  obtain ⟨got, hgot, remapped, m1, hmap, ret, m2, hcreate, h⟩ := h
  split at h
  · exact absurd h (by simp)
  next hret =>
  obtain rfl : ret = 0 := by simpa using hret
  simp only [Option.bind_eq_some_iff, Prod.exists, Option.some.injEq, Prod.mk.injEq] at h
  obtain ⟨_, m3, hmalloc, p, rfl, rfl, rfl⟩ := h
  obtain ⟨htail, hdata, hfixed, hown⟩ := shallocGetHeap_private hgot
  obtain ⟨-, ⟨id, hheap1⟩, -⟩ := shallocMapHeap_keeps hmap
  rw [heap_setHeap, if_pos rfl] at hheap1
  obtain ⟨hpriv2, htrace2⟩ := shallocHeapOpCreate_private cfg.guardPages hop
    (by rw [hheap1]; exact htail) (by rw [hheap1]; exact hdata) (by rw [hheap1]; exact hfixed)
    (by rw [hheap1]; exact hown) hcreate
  obtain ⟨st, rfl, htrace3, hnone | ⟨a, hsome, hpriv3, -, -⟩⟩ :=
    hpriv2.malloc hop (by decide) hmalloc
  · exact absurd hnone (by simp)
  obtain rfl := Option.some.inj hsome
  -- the record is copied into its block, and the trace of that record starts there
  have hlive : ∀ e ∈ liveBlocks (privDataAddr p) st.trace, e ∈ [Extent.mk p sizeofHeap] := by
    by_cases heq : privDataAddr p = privDataAddr stack
    · rw [heq]
      exact hpriv3.live
    · have hnil : m1.proc.store.trace = [] := (shallocMapHeap_trace hmap).trans htrace
      rw [htrace3 _ heq, htrace2 _ heq, hnil]
      exact fun e he => absurd he List.not_mem_nil
  have hcopy : ((m2.withStore st).heap (.priv stack)) = m2.heap (.priv stack) := heap_withStore ..
  refine ⟨?_, ?_, ?_, ?_, hpriv3.rep, hlive⟩
  · rw [heap_setHeap, if_pos rfl]
    rfl
  · rw [heap_setHeap, if_pos rfl]
    exact hpriv3.data
  · rw [heap_setHeap, if_pos rfl]
    exact hpriv3.fixed
  · rw [heap_setHeap, if_pos rfl]
    exact hpriv3.own

/-- Attaching heaps is noted as system calls. -/
theorem shallocSpaceAttach_proc {heaps : List Heap} : ∀ {m : Machine α},
    shallocSpaceAttach heaps m = some m' →
    m'.proc.store = m.proc.store ∧ m'.proc.heaps = m.proc.heaps := by
  induction heaps with
  | nil => exact fun h => Option.some.inj h ▸ ⟨rfl, rfl⟩
  | cons heap heaps ih =>
    intro m h
    simp only [shallocSpaceAttach, bind, Option.bind_eq_some_iff] at h
    obtain ⟨data, -, h⟩ := h
    exact ih (m := m.log _) h

theorem shallocSpaceMagic_proc {inherited : Bool} {addr : ℕ}
    (h : shallocSpaceMagic cfg inherited addr m = some m') :
    m'.proc.store = m.proc.store ∧ m'.proc.heaps = m.proc.heaps := by
  cases inherited with
  | true => exact shallocSpaceAttach_proc (m := m.log _) h
  | false =>
    obtain rfl := Option.some.inj h
    exact ⟨rfl, rfl⟩

/-- The heaps of the control page leave the record of the space as it was made. -/
theorem newHeaps_fixed {heaps : List Heap} : ∀ {space space' : Space},
    heaps.foldlM (fun space heap => shallocSpaceNewHeap heap space) space = some space' →
    space'.magicControlPage = space.magicControlPage ∧ space'.privHeap = space.privHeap ∧
      space'.data.start = space.data.start := by
  induction heaps with
  | nil => exact fun h => Option.some.inj h ▸ ⟨rfl, rfl, rfl⟩
  | cons heap heaps ih =>
    intro space space' h
    simp only [List.foldlM_cons, bind, Option.bind_eq_some_iff] at h
    obtain ⟨space1, hnew, hrest⟩ := h
    obtain ⟨hcontrol, hpriv, hstart⟩ := shallocSpaceNewHeap_fixed hnew
    obtain ⟨hcontrol', hpriv', hstart'⟩ := ih hrest
    exact ⟨hcontrol'.trans hcontrol, hpriv'.trans hpriv, hstart'.trans hstart⟩

theorem PrivateOk.init {stack : ℕ} {inherited : Option (Shared α)}
    (hop : PrivateSound (cfg.ops .mplite) rep) (h : shallocSpaceInit cfg stack inherited = some m) :
    PrivateOk cfg rep m := by
  simp only [shallocSpaceInit, bind, Option.bind_eq_some_iff, Prod.exists, Option.some.injEq] at h
  obtain ⟨privHeap, m2, hpriv, m3, hmagic, _, m4, hmalloc, q, rfl, space, hspace, rfl⟩ := h
  obtain ⟨-, haddr⟩ := shallocSpaceReserve_cases cfg
    ⟨inherited.getD (Shared.zero cfg.blank), Process.boot cfg.blank⟩
  obtain ⟨-, hsize⟩ := shallocSpacePrivHeap_cases hpriv
  have htrace : (shallocSpaceReserve cfg ⟨inherited.getD (Shared.zero cfg.blank),
      Process.boot cfg.blank⟩).2.proc.store.trace = [] := by
    unfold shallocSpaceReserve
    by_cases hguard : cfg.guardPages = true
    · simp only [if_pos hguard]
      rfl
    · simp only [if_neg hguard]
      rfl
  have hcontrol : (shallocSpaceReserve cfg
      ⟨inherited.getD (Shared.zero cfg.blank), Process.boot cfg.blank⟩).1 +
        (m2.heap (.priv privHeap)).base.size = controlAddr cfg.guardPages := by
    rw [haddr, hsize]
    cases cfg.guardPages <;> rfl
  have hfirst : (privBuff cfg.guardPages).start =
      shallocBaseAddr + if cfg.guardPages then shallocPageSize else 0 := rfl
  rw [haddr, ← hfirst] at hpriv
  have hpriv2 := shallocSpacePrivHeap_private hop htrace hpriv
  obtain ⟨hstore3, hheaps3⟩ := shallocSpaceMagic_proc hmagic
  have hpriv3 : PrivateHeap rep cfg.guardPages privHeap [⟨privHeap, sizeofHeap⟩] m3 :=
    hpriv2.of_same ⟨congrFun hheaps3 privHeap, by rw [hstore3], by rw [hstore3]⟩
  obtain ⟨st, rfl, -, hnone | ⟨a, -, hpriv4, -⟩⟩ := hpriv3.malloc hop (by decide) hmalloc
  · exact absurd hnone (by simp)
  rw [hcontrol] at hspace
  obtain ⟨hpage, hpriv', hstart⟩ := newHeaps_fixed hspace
  obtain rfl : space.privHeap = privHeap := hpriv'
  refine ⟨hpage, ?_, [⟨a, sizeofSpace⟩, ⟨space.privHeap, sizeofHeap⟩], ?_, ?_⟩
  · show _ ≤ space.data.start
    rw [hstart]
    exact Nat.le_add_right _ _
  · exact hpriv4.of_same ⟨heap_setSpace .., rfl, rfl⟩
  · exact List.mem_cons_of_mem _ List.mem_cons_self

/-- **The private heap of a process.** However it was started, and after any number of heaps
created, the private heap is sound. -/
theorem CreateRun.privateOk (hop : PrivateSound (cfg.ops .mplite) rep) (hstart : Started cfg m)
    (hrun : CreateRun cfg m m') : PrivateOk cfg rep m' := by
  induction hrun with
  | refl =>
    cases hstart with
    | fresh hinit => exact .init hop hinit
    | exec _ _ hinit => exact .init hop hinit
  | step hbefore hcreate ih =>
    obtain ⟨past, t, hheaps, rfl⟩ := hbefore.heapRun
    exact ih.created hop (hstart.placement.run hheaps).ok hcreate

end Init

end Shalloc
