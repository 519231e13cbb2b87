import Shalloc.Region.Calls

/-!
# Safety of a tree of regions

Callers create regions of the no-free type under a heap and allocate, reallocate and free
in all of them, in any order. Whatever they do, the blocks they hold, the records of the
regions, and the descriptors and headers of the buffers never overlap, and every buffer of
a region lies within one block of its parent.

## Main definitions

- `TreeWorld` — the store, the regions created and the blocks held by callers
- `TreeStart`, `TreeStep`, `TreeReach` — the runs
- `TreeSafe` — safety of a tree of regions

## Main results

- `region_tree_safe` — every world that a run reaches is safe
-/

namespace Shalloc

/-- The memory of a tree of regions, with what its callers know: the regions, and the
blocks that they hold, with the region that issued them. -/
structure TreeWorld (ρ : Type) where
  st : Store (AllocState ρ)
  root : ℕ
  regions : List ℕ
  held : List (ℕ × Extent)

variable {ρ : Type}

/-- A heap below `2 ^ 48` with no block in use, as `shalloc_get_heap` sets it up: its
region is HEAP and NON_RESIZABLE, has no parent, and has one buffer, whose descriptor is
in the region record. -/
structure TreeStart (heapType : BuffAllocType)
    (heapRep : Buff → List Extent → AllocState ρ → Prop) (w : TreeWorld ρ) : Prop where
  regions : w.regions = [w.root]
  held : w.held = []
  trace : w.st.trace = []
  heap : ∃ region b buff, w.st.regions w.root = some region ∧ w.st.buffs b = some buff ∧
    region.dataHead = some b ∧ region.dataTail = some b ∧ region.ancestors = [] ∧
    hasFlag region.flags .heap = true ∧ hasFlag region.flags .nonResizable = true ∧
    buff.next = none ∧ buff.allocType = heapType ∧
    buff.endAddr + 1 = buff.start + buff.size ∧ buff.start + buff.size < 2 ^ 48 ∧
    Extent.Within ⟨b, sizeofBuff⟩ ⟨w.root, sizeofRegion⟩ ∧
    Extent.Disjoint ⟨w.root, sizeofRegion⟩ ⟨buff.start, buff.size⟩ ∧
    heapRep buff [] (w.st.cells buff.start)

/-- A call on a region of the tree, with sizes and products below `2 ^ 48`. Callers pass
pointers they hold, with sizes that the blocks have. -/
inductive TreeStep (other : BuffAllocType → BuffOp ρ) (w : TreeWorld ρ) : TreeWorld ρ → Prop
  | create {q initSize buffSize blockSize flags : ℕ} {type : BuffAllocType} {c : Option ℕ}
      {st : Store (AllocState ρ)} : q ∈ w.regions → initSize < 2 ^ 48 → buffSize < 2 ^ 48 →
      type = .none ∨ type = .nofree → hasFlag flags .heap = false →
      shallocRegionCreate (shallocSpaceBuffOps other) (w.st.path q) initSize buffSize blockSize
        flags type w.st = some (c, st) →
      TreeStep other w { w with st := st, regions := c.toList ++ w.regions }
  | malloc {r n : ℕ} {p : Option ℕ} {st : Store (AllocState ρ)} : r ∈ w.regions → n < 2 ^ 48 →
      shallocMalloc (shallocSpaceBuffOps other) (w.st.path r) n w.st = some (p, st) →
      TreeStep other w { w with st := st, held := issueHeld r n p w.held }
  | calloc {r nmemb size : ℕ} {p : Option ℕ} {st : Store (AllocState ρ)} : r ∈ w.regions →
      nmemb * size < 2 ^ 48 →
      shallocCalloc (shallocSpaceBuffOps other) (w.st.path r) nmemb size w.st = some (p, st) →
      TreeStep other w { w with st := st, held := issueHeld r (nmemb * size) p w.held }
  | oreallocNull {r size oldSize : ℕ} {p : Option ℕ} {st : Store (AllocState ρ)} :
      r ∈ w.regions → size < 2 ^ 48 →
      shallocOrealloc (shallocSpaceBuffOps other) (w.st.path r) none size oldSize w.st =
        some (p, st) →
      TreeStep other w { w with st := st, held := issueHeld r size p w.held }
  | orealloc {r size oldSize : ℕ} {e : Extent} {p : Option ℕ} {st : Store (AllocState ρ)} :
      (r, e) ∈ w.held → oldSize ≤ e.len → size < 2 ^ 48 →
      shallocOrealloc (shallocSpaceBuffOps other) (w.st.path r) (some e.ptr) size oldSize w.st =
        some (p, st) →
      TreeStep other w { w with st := st, held := reallocHeld r e size oldSize p w.held }
  | free {r : ℕ} {e : Extent} {st : Store (AllocState ρ)} : (r, e) ∈ w.held →
      shallocFree (shallocSpaceBuffOps other) r e.ptr w.st = some st →
      TreeStep other w { w with st := st, held := w.held.erase (r, e) }

/-- The worlds that callers can reach from a heap. -/
inductive TreeReach (other : BuffAllocType → BuffOp ρ) (heapType : BuffAllocType)
    (heapRep : Buff → List Extent → AllocState ρ → Prop) : TreeWorld ρ → Prop
  | start {w : TreeWorld ρ} : TreeStart heapType heapRep w → TreeReach other heapType heapRep w
  | step {w w' : TreeWorld ρ} : TreeReach other heapType heapRep w → TreeStep other w w' →
      TreeReach other heapType heapRep w'

/-- The start of the data of a buffer. -/
def Store.buffStart {α : Type} (st : Store α) (b : ℕ) : ℕ := (st.buffs b).elim 0 Buff.start

/-- The blocks held by callers, the region records, and the descriptors and the headers of
the buffers below the root. -/
def treeObjects (w : TreeWorld ρ) (chain : ℕ → List ℕ) : List Extent :=
  w.held.map Prod.snd ++
    (w.regions.map (⟨·, sizeofRegion⟩) ++
      (((w.regions.filter (· ≠ w.root)).flatMap fun r => (chain r).map (⟨·, sizeofBuff⟩)) ++
        (w.regions.filter (· ≠ w.root)).flatMap fun r =>
          (chain r).map fun b => ⟨w.st.buffStart b, sizeofNofreeHeader⟩))

/-- Safety of a tree of regions, whose buffers are `chain`. -/
structure TreeSafe (w : TreeWorld ρ) (chain : ℕ → List ℕ) : Prop where
  /-- The chains are those that the pointers of the region records lead to. -/
  linked : ∀ r ∈ w.regions, ∃ region, w.st.regions r = some region ∧
    Linked w.st region (chain r)
  /-- Every block held by a caller is aligned and lies in one buffer of its region. -/
  held_in_buff : ∀ r e, (r, e) ∈ w.held → r ∈ w.regions ∧ 8 ∣ e.ptr ∧
    ∃ b ∈ chain r, ∃ buff, w.st.buffs b = some buff ∧ e.Within ⟨buff.start, buff.size⟩
  /-- Every buffer lies, descriptor and data, in one block in use of its parent region. -/
  buff_in_parent : ∀ r ∈ w.regions, ∀ region p, w.st.regions r = some region →
    region.parent = some p → ∀ b ∈ chain r, ∃ buff, w.st.buffs b = some buff ∧
      ∃ pb ∈ chain p, ∃ block ∈ liveBlocks pb w.st.trace,
        Extent.Within ⟨b, sizeofBuff⟩ block ∧ Extent.Within ⟨buff.start, buff.size⟩ block
  objects_apart : (treeObjects w chain).Pairwise Extent.Disjoint

variable {other : BuffAllocType → BuffOp ρ} {heapType : BuffAllocType}
  {heapRep : Buff → List Extent → AllocState ρ → Prop} {w w' : TreeWorld ρ}

/-- The world represents the forest. -/
structure TreeInv (heapType : BuffAllocType) (heapRep : Buff → List Extent → AllocState ρ → Prop)
    (w : TreeWorld ρ) (F : Forest) : Prop where
  sim : Sim heapType heapRep w.st F
  root : F.root = w.root
  regions : F.regions = w.regions
  held : F.held = w.held

/-- The path that a call takes is the path of the forest. -/
theorem TreeInv.path (h : TreeInv heapType heapRep w F) {r : ℕ} (hr : r ∈ F.regions) :
    w.st.path r = r :: F.ancestors r := by
  obtain ⟨region, hregion, hrep⟩ := h.sim.region r hr
  simp [Store.path, hregion, hrep.ancestors]

/-- The forest of a heap at `root` with one buffer. -/
def heapForest (root b : ℕ) (area : Extent) : Forest :=
  { root := root
    regions := [root]
    ancestors := fun _ => []
    chain := fun _ => [b]
    area := fun _ => area
    live := fun _ => []
    held := [] }

theorem heapForest_ok {root b : ℕ} {area : Extent}
    (hwithin : Extent.Within ⟨b, sizeofBuff⟩ ⟨root, sizeofRegion⟩)
    (hapart : Extent.Disjoint ⟨root, sizeofRegion⟩ area) : (heapForest root b area).Ok := by
  have hroot : ∀ r ∈ (heapForest root b area).regions, r = root := by simp [heapForest]
  have hlive : ∀ u, ¬ (heapForest root b area).Live u := by
    rintro (⟨r, e⟩ | r | ⟨r, b⟩) hu
    · exact absurd hu (by simp [Forest.Live, heapForest])
    · exact hu.2 (hroot r hu.1)
    · exact hu.2.1 (hroot r hu.1)
  exact
    { root_mem := List.mem_cons_self
      ancestors_root := rfl
      ancestors_eq := fun r hr hne => absurd (hroot r hr) hne
      chain_root := ⟨b, rfl, hwithin, hapart⟩
      area_eq := fun n hn hne => absurd (hroot n.1 hn.1) hne
      live_within := fun n _ e he => absurd he (by simp [heapForest])
      live_header := fun n _ _ e he => absurd he (by simp [heapForest])
      placed := fun u hu => absurd hu (hlive u)
      apart := fun u _ hu => absurd hu (hlive u)
      regions_nodup := List.nodup_singleton root
      chain_nodup := fun _ _ => List.nodup_singleton b
      held_nodup := List.nodup_nil }

/-- A heap with no block in use is a forest of one region. -/
theorem TreeStart.inv (h : TreeStart heapType heapRep w) : ∃ F, TreeInv heapType heapRep w F := by
  obtain ⟨region, b, buff, hregion, hbuff, hhead, htail, hanc, -, hfixed, hnext, htype, hend,
    hsmall, hwithin, hapart, hrep⟩ := h.heap
  refine ⟨heapForest w.root b ⟨buff.start, buff.size⟩,
    ⟨heapForest_ok hwithin hapart, ?_, ?_, ?_⟩, rfl, h.regions.symm, h.held.symm⟩
  · intro r hr
    obtain rfl : r = w.root := by simpa [heapForest] using hr
    refine ⟨region, hregion, hanc, ⟨?_, by rw [htail]; rfl⟩, fun _ => hfixed,
      fun hne => absurd rfl hne, fun hne => absurd rfl hne⟩
    rw [hhead]
    exact chainFrom_singleton hbuff hnext
  · rintro ⟨r, c⟩ ⟨hr, hc⟩
    obtain rfl : r = w.root := by simpa [heapForest] using hr
    obtain rfl : c = b := by simpa [heapForest] using hc
    exact ⟨buff, hbuff, rfl, hend, hsmall, treeRep_root.mpr ⟨htype, hrep⟩⟩
  · intro n _
    rw [h.trace]
    rfl

/-- Every call keeps the invariant. -/
theorem TreeStep.inv (hheap : SoundOp (shallocSpaceBuffOps other heapType) 0 (2 ^ 62) heapRep)
    {F : Forest} (h : TreeInv heapType heapRep w F) (hstep : TreeStep other w w')
    (hbound : Bounded w'.st.trace) : ∃ F', TreeInv heapType heapRep w' F' := by
  cases hstep with
  | create hq hinit hsize htype _ hcall =>
    rw [← h.regions] at hq
    rw [h.path hq] at hcall
    obtain ⟨F', hs, hroot, hregions, hheld⟩ :=
      h.sim.create hheap hq htype hinit hsize hcall hbound
    exact ⟨F', hs, hroot.trans h.root, by rw [hregions, h.regions], hheld.trans h.held⟩
  | malloc hr hn hcall =>
    rw [← h.regions] at hr
    rw [h.path hr] at hcall
    obtain ⟨F', hs, hev, hheld⟩ := (Sim.malloc hheap _ h.sim hr rfl hcall hbound).2
    exact ⟨F', hs, hev.root.trans h.root, hev.regions.trans h.regions, by rw [hheld, h.held]⟩
  | calloc hr hn hcall =>
    rw [← h.regions] at hr
    rw [h.path hr] at hcall
    obtain ⟨F', hs, hev, hheld⟩ := h.sim.calloc hheap hr hcall hbound
    rw [Word.wrap_of_lt (by omega)] at hheld
    exact ⟨F', hs, hev.root.trans h.root, hev.regions.trans h.regions, by rw [hheld, h.held]⟩
  | oreallocNull hr hn hcall =>
    rw [← h.regions] at hr
    rw [h.path hr] at hcall
    cases shallocOrealloc_cases hcall with
    | fresh hcall =>
      obtain ⟨F', hs, hev, hheld⟩ := (Sim.malloc hheap _ h.sim hr rfl hcall hbound).2
      exact ⟨F', hs, hev.root.trans h.root, hev.regions.trans h.regions, by rw [hheld, h.held]⟩
  | orealloc he hold hn hcall =>
    rw [← h.held] at he
    obtain ⟨n, hplaced⟩ := h.sim.ok.placed (.held _ _) he
    obtain rfl := Option.some.inj hplaced.owner
    rw [h.path hplaced.node.1] at hcall
    obtain ⟨F', hs, hev, hheld⟩ := h.sim.orealloc hheap he hcall hbound
    exact ⟨F', hs, hev.root.trans h.root, hev.regions.trans h.regions, by rw [hheld, h.held]⟩
  | free he hcall =>
    rw [← h.held] at he
    obtain ⟨F', hs, hev, hheld⟩ := h.sim.free hheap he hcall
    exact ⟨F', hs, hev.root.trans h.root, hev.regions.trans h.regions, by rw [hheld, h.held]⟩

/-- Calls only add to the trace. -/
theorem TreeStep.extends (hstep : TreeStep other w w') : w.st.Extends w'.st := by
  cases hstep with
  | create _ _ _ _ _ hcall => exact (shallocRegionCreate_cases hcall).extends
  | malloc _ _ hcall => exact shallocMalloc_extends _ hcall
  | calloc _ _ hcall => exact shallocCalloc_extends hcall
  | oreallocNull _ _ hcall => exact shallocOrealloc_extends hcall
  | orealloc _ _ _ hcall => exact shallocOrealloc_extends hcall
  | free _ hcall => exact (shallocFree_cases hcall).extends

/-- The invariant holds in every world that a run reaches. -/
theorem TreeReach.inv (hheap : SoundOp (shallocSpaceBuffOps other heapType) 0 (2 ^ 62) heapRep)
    (run : TreeReach other heapType heapRep w) (hbound : Bounded w.st.trace) :
    ∃ F, TreeInv heapType heapRep w F := by
  induction run with
  | start h => exact h.inv
  | step _ hstep ih =>
    obtain ⟨F, hinv⟩ := ih (hbound.of_extends hstep.extends)
    exact hstep.inv hheap hinv hbound

/-- The objects of the world are those of the forest. -/
theorem TreeInv.treeObjects_eq {F : Forest} (h : TreeInv heapType heapRep w F) :
    treeObjects w F.chain = F.objects.map F.objectExt := by
  have hstart : ∀ r ∈ F.below, ∀ b ∈ F.chain r, w.st.buffStart b = (F.area b).ptr := by
    intro r hr b hb
    obtain ⟨buff, hbuff, hrep⟩ := h.sim.buff (r, b) ⟨(Forest.mem_below.mp hr).1, hb⟩
    simp [Store.buffStart, hbuff, hrep.area]
  have hheaders : (F.below.flatMap fun r => (F.chain r).map fun b =>
        (⟨w.st.buffStart b, sizeofNofreeHeader⟩ : Extent)) =
      F.below.flatMap fun r => (F.chain r).map fun b => ⟨(F.area b).ptr, sizeofNofreeHeader⟩ := by
    simp only [List.flatMap]
    congr 1
    refine List.map_congr_left fun r hr => List.map_congr_left fun b hb => ?_
    rw [hstart r hr b hb]
  rw [treeObjects, ← h.root, ← h.regions, ← h.held]
  show _ ++ (_ ++ (_ ++ F.below.flatMap _)) = _
  rw [hheaders]
  simp [Forest.objects, Forest.objectExt, Forest.below, List.map_flatMap, Function.comp_def]

/-- A world that represents a forest is safe. -/
theorem TreeInv.safe {F : Forest} (h : TreeInv heapType heapRep w F) : TreeSafe w F.chain where
  linked r hr := by
    obtain ⟨region, hregion, hrep⟩ := h.sim.region r (by rw [h.regions]; exact hr)
    exact ⟨region, hregion, hrep.linked⟩
  held_in_buff r e he := by
    rw [← h.held] at he
    obtain ⟨⟨r', b⟩, hplaced⟩ := h.sim.ok.placed (.held r e) he
    obtain rfl : r = r' := Option.some.inj hplaced.owner
    obtain ⟨buff, hbuff, hrep⟩ := h.sim.buff (r, b) hplaced.node
    obtain ⟨hwithin, halign, -⟩ := h.sim.ok.live_within _ hplaced.node _ hplaced.mem
    refine ⟨by rw [← h.regions]; exact hplaced.node.1, halign, b, hplaced.node.2, buff, hbuff, ?_⟩
    rw [hrep.area] at hwithin
    exact hwithin
  buff_in_parent r hr region p hregion hp b hb := by
    rw [← h.regions] at hr
    obtain ⟨region', hregion', hrep⟩ := h.sim.region r hr
    obtain rfl := Option.some.inj (hregion.symm.trans hregion')
    have hroot : r ≠ F.root := by
      rintro rfl
      simp [Region.parent, hrep.ancestors, h.sim.ok.ancestors_root] at hp
    obtain ⟨buff, hbuff, hbrep⟩ := h.sim.buff (r, b) ⟨hr, hb⟩
    obtain ⟨⟨p', pb⟩, hplaced⟩ := h.sim.ok.placed (.buff r b) ⟨hr, hroot, hb⟩
    have howner := hplaced.owner
    rw [Region.parent, hrep.ancestors] at hp
    obtain rfl : p = p' := Option.some.inj (hp.symm.trans howner)
    have hmem := hplaced.mem
    have hstart := (h.sim.ok.area_eq (r, b) ⟨hr, hb⟩ hroot).1
    rw [h.sim.trace _ hplaced.node] at hmem
    simp only [Forest.ext, hbrep.area] at hmem hstart
    refine ⟨buff, hbuff, pb, hplaced.node.2, _, hmem, ⟨le_rfl, ?_⟩, ?_, ?_⟩
    all_goals simp only; omega
  objects_apart := by
    rw [h.treeObjects_eq, List.pairwise_map]
    exact h.sim.ok.objects_pairwise

/-- **Safety of a tree of regions.** Under a heap with a sound allocator, every world that
calls of the region layer reach is safe, as long as no request, of a caller or of a region
that grows, is for `2 ^ 62` bytes or more. -/
theorem region_tree_safe
    (hheap : SoundOp (shallocSpaceBuffOps other heapType) 0 (2 ^ 62) heapRep)
    (run : TreeReach other heapType heapRep w) (hbound : Bounded w.st.trace) :
    ∃ chain, TreeSafe w chain := by
  obtain ⟨F, hinv⟩ := run.inv hheap hbound
  exact ⟨F.chain, hinv.safe⟩

/-- A heap of type NOFREE at address 8192, whose region record is at address 4096. -/
def nofreeHeap : TreeWorld Unit where
  st :=
    { regions := fun r => if r = 4096 then
        some { dataHead := some 4112, dataTail := some 4112, flags := 3, ancestors := [],
               defaultData := ⟨8192, 73727, 65536, 65536, 0, none, .nofree⟩ }
        else none
      buffs := fun b => if b = 4112 then some ⟨8192, 73727, 65536, 65536, 0, none, .nofree⟩
        else none
      cells := fun _ => .nofree ⟨magicValue, 8216, magicValue⟩
      trace := [] }
  root := 4096
  regions := [4096]
  held := []

theorem nofreeHeap_start : TreeStart .nofree NofreeRep nofreeHeap := by
  refine ⟨rfl, rfl, rfl, _, 4112, _, rfl, rfl, rfl, rfl, rfl, by decide, by decide, rfl, rfl, rfl,
    by decide, by decide, by decide, ?_⟩
  exact ⟨by decide, by decide, ⟨_, rfl, ⟨rfl, rfl, by decide, by decide⟩, by decide,
    by simp [NofreeIssuedBelow]⟩, by simp⟩

/-- No allocator but those that are modelled. -/
def noOther : BuffAllocType → BuffOp Unit := fun _ =>
  ⟨fun _ _ => none, fun _ _ => none, fun _ _ _ => none, fun _ _ _ => none⟩

/-- A region under the heap, and a block of 100 bytes in it, which makes it grow. -/
theorem region_tree_safe_grown :
    ∃ (w : TreeWorld Unit) (chain : ℕ → List ℕ), w.regions = [8216, 4096] ∧
      w.held = [(8216, ⟨8400, 100⟩)] ∧ TreeSafe w chain := by
  obtain ⟨st1, st2, hcreate, hmalloc, hbound⟩ : ∃ st1 st2,
      shallocRegionCreate (shallocSpaceBuffOps noOther) (nofreeHeap.st.path 4096) 0 0 0 0 .nofree
        nofreeHeap.st = some (some 8216, st1) ∧
      shallocMalloc (shallocSpaceBuffOps noOther) (st1.path 8216) 100 st1 = some (some 8400, st2) ∧
      Bounded st2.trace := ⟨_, _, rfl, rfl, by decide⟩
  let w1 : TreeWorld Unit := { nofreeHeap with st := st1, regions := [8216, 4096] }
  have hstep1 : TreeStep noOther nofreeHeap w1 :=
    .create List.mem_cons_self (by decide) (by decide) (Or.inr rfl) (by decide) hcreate
  have hstep2 : TreeStep noOther w1
      { w1 with st := st2, held := issueHeld 8216 100 (some 8400) w1.held } :=
    .malloc List.mem_cons_self (by decide) hmalloc
  have run := (TreeReach.start nofreeHeap_start).step hstep1 |>.step hstep2
  obtain ⟨chain, hsafe⟩ := region_tree_safe (nofree_soundOp noOther).headless run hbound
  exact ⟨_, chain, rfl, rfl, hsafe⟩

end Shalloc
