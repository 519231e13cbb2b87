import Shalloc.Region.Chain
import Shalloc.Region.ForestStep

/-!
# The region layer simulates the forest

A store represents a forest of regions of the no-free type under a heap. Every call of
the region layer takes a store that represents a forest to one that represents the forest
after the corresponding steps. The allocator of the heap is any that is sound.

## Main definitions

- `TreeRep` — the representation predicate of the allocator of a region
- `Sim` — the store represents the forest
- `Bounded` — every request made so far is for less than `2 ^ 62` bytes

## Main results

- `Sim.malloc`, `Sim.calloc`, `Sim.orealloc`, `Sim.free`, `Sim.create` — the calls
-/

namespace Shalloc

variable {ρ : Type} {other : BuffAllocType → BuffOp ρ} {heapType : BuffAllocType}
  {heapRep : Buff → List Extent → AllocState ρ → Prop}

/-- The allocator of the root is that of the heap, all others are no-free allocators. -/
def TreeRep (heapType : BuffAllocType) (heapRep : Buff → List Extent → AllocState ρ → Prop)
    (root r : ℕ) (buff : Buff) (blocks : List Extent) (a : AllocState ρ) : Prop :=
  if r = root then buff.allocType = heapType ∧ heapRep buff blocks a
  else buff.allocType = .nofree ∧ NofreeRep buff blocks a

section TreeRep

variable {root r n p : ℕ} {buff : Buff} {blocks : List Extent} {a a' : AllocState ρ}

theorem treeRep_root : TreeRep heapType heapRep root root buff blocks a ↔
    buff.allocType = heapType ∧ heapRep buff blocks a := by
  simp [TreeRep]

theorem treeRep_below (hr : r ≠ root) : TreeRep heapType heapRep root r buff blocks a ↔
    buff.allocType = .nofree ∧ NofreeRep buff blocks a := by
  simp [TreeRep, hr]

variable (hheap : SoundOp (shallocSpaceBuffOps other heapType) 0 (2 ^ 62) heapRep)
include hheap

theorem TreeRep.issued (h : TreeRep heapType heapRep root r buff blocks a) {e : Extent}
    (he : e ∈ blocks) : e.Within ⟨buff.start, buff.size⟩ ∧ 8 ∣ e.ptr ∧ 0 < e.len ∧
      (r ≠ root → buff.start + sizeofNofreeHeader ≤ e.ptr) := by
  by_cases hr : r = root
  · subst hr
    obtain ⟨hwithin, halign, hpos⟩ := hheap.issued (treeRep_root.mp h).2 e he
    exact ⟨by simpa using hwithin, halign, hpos, fun hne => absurd rfl hne⟩
  · obtain ⟨⟨h1, h2⟩, halign, hpos⟩ :=
      (nofree_soundOp other).issued ((treeRep_below hr).mp h).2 e he
    simp only at h1 h2
    exact ⟨⟨by simp only; omega, by simp only; omega⟩, halign, hpos, fun _ => h1⟩

theorem TreeRep.served (h : TreeRep heapType heapRep root r buff blocks a) (hpos : 0 < n)
    (hlimit : n < 2 ^ 62)
    (hcall : (shallocSpaceBuffOps other buff.allocType).malloc buff n a = some (some p, a')) :
    TreeRep heapType heapRep root r buff (⟨p, n⟩ :: blocks) a' ∧
      ∀ e ∈ blocks, Extent.Disjoint ⟨p, n⟩ e := by
  by_cases hr : r = root
  · subst hr
    obtain ⟨htype, hrep⟩ := treeRep_root.mp h
    rw [htype] at hcall
    obtain ⟨hrep', hapart⟩ := hheap.served hrep hpos hlimit hcall
    exact ⟨treeRep_root.mpr ⟨htype, hrep'⟩, hapart⟩
  · obtain ⟨htype, hrep⟩ := (treeRep_below hr).mp h
    rw [htype] at hcall
    obtain ⟨hrep', hapart⟩ := (nofree_soundOp other).served hrep hpos hlimit hcall
    exact ⟨(treeRep_below hr).mpr ⟨htype, hrep'⟩, hapart⟩

theorem TreeRep.refused (h : TreeRep heapType heapRep root r buff blocks a) (hpos : 0 < n)
    (hlimit : n < 2 ^ 62)
    (hcall : (shallocSpaceBuffOps other buff.allocType).malloc buff n a = some (none, a')) :
    TreeRep heapType heapRep root r buff blocks a' := by
  by_cases hr : r = root
  · subst hr
    obtain ⟨htype, hrep⟩ := treeRep_root.mp h
    rw [htype] at hcall
    exact treeRep_root.mpr ⟨htype, hheap.refused hrep hpos hlimit hcall⟩
  · obtain ⟨htype, hrep⟩ := (treeRep_below hr).mp h
    rw [htype] at hcall
    exact (treeRep_below hr).mpr ⟨htype, (nofree_soundOp other).refused hrep hpos hlimit hcall⟩

theorem TreeRep.freed (h : TreeRep heapType heapRep root r buff blocks a) {e : Extent}
    (he : e ∈ blocks)
    (hcall : (shallocSpaceBuffOps other buff.allocType).free buff e.ptr a = some a') :
    TreeRep heapType heapRep root r buff (releaseBlock e.ptr blocks) a' := by
  by_cases hr : r = root
  · subst hr
    obtain ⟨htype, hrep⟩ := treeRep_root.mp h
    rw [htype] at hcall
    exact treeRep_root.mpr ⟨htype, hheap.freed hrep he hcall⟩
  · obtain ⟨htype, hrep⟩ := (treeRep_below hr).mp h
    rw [htype] at hcall
    exact (treeRep_below hr).mpr ⟨htype, (nofree_soundOp other).freed hrep he hcall⟩

end TreeRep

/-- The record of region `r` represents the region of the forest. -/
structure RegionRep (st : Store (AllocState ρ)) (F : Forest) (r : ℕ) (region : Region) :
    Prop where
  ancestors : region.ancestors = F.ancestors r
  linked : Linked st region (F.chain r)
  fixed : r = F.root → hasFlag region.flags .nonResizable = true
  type : r ≠ F.root → region.defaultData.allocType = .nofree
  size : r ≠ F.root → shallocBuffMinSize ≤ region.defaultData.size ∧
    region.defaultData.size < 2 ^ 48

/-- The descriptor and the allocator state represent buffer `n` of the forest. -/
structure BuffRep (heapType : BuffAllocType)
    (heapRep : Buff → List Extent → AllocState ρ → Prop) (F : Forest) (n : ℕ × ℕ) (buff : Buff)
    (a : AllocState ρ) : Prop where
  area : F.area n.2 = ⟨buff.start, buff.size⟩
  end_eq : buff.endAddr + 1 = buff.start + buff.size
  small : buff.start + buff.size < 2 ^ 48
  rep : TreeRep heapType heapRep F.root n.1 buff (F.live n.2) a

/-- The store represents the forest. -/
structure Sim (heapType : BuffAllocType) (heapRep : Buff → List Extent → AllocState ρ → Prop)
    (st : Store (AllocState ρ)) (F : Forest) : Prop where
  ok : F.Ok
  region : ∀ r ∈ F.regions, ∃ region, st.regions r = some region ∧ RegionRep st F r region
  buff : ∀ n, F.Node n → ∃ buff, st.buffs n.2 = some buff ∧
    BuffRep heapType heapRep F n buff (st.cells buff.start)
  trace : ∀ n, F.Node n → F.live n.2 = liveBlocks n.2 st.trace

/-- The later forest has the regions of the earlier one. -/
structure Evolves (F F' : Forest) : Prop where
  root : F'.root = F.root
  regions : F'.regions = F.regions
  ancestors : F'.ancestors = F.ancestors

theorem Evolves.refl (F : Forest) : Evolves F F := ⟨rfl, rfl, rfl⟩

theorem Evolves.trans {F F' F'' : Forest} (h : Evolves F F') (h' : Evolves F' F'') :
    Evolves F F'' :=
  ⟨h'.root.trans h.root, h'.regions.trans h.regions, h'.ancestors.trans h.ancestors⟩

/-- Every request made so far is for less than `2 ^ 62` bytes. -/
def Bounded (trace : List Event) : Prop := ∀ event ∈ trace, event.requested < 2 ^ 62

instance (trace : List Event) : Decidable (Bounded trace) :=
  inferInstanceAs (Decidable (∀ event ∈ trace, _))

theorem Bounded.of_extends {st st' : Store (AllocState ρ)} (h : Bounded st'.trace)
    (hext : st.Extends st') : Bounded st.trace :=
  fun event hmem => h event (hext.subset hmem)

/-- The blocks held after a call on region `r` that answered `p`. -/
def issueHeld (r n : ℕ) (p : Option ℕ) (held : List (ℕ × Extent)) : List (ℕ × Extent) :=
  match p with
  | some q => (r, ⟨q, n⟩) :: held
  | none => held

section Sim

variable {st st' : Store (AllocState ρ)} {F : Forest}

/-- Events that no buffer operation makes leave the representation as it is. -/
theorem Sim.log (hs : Sim heapType heapRep st F) {event : Event}
    (hlive : ∀ b, liveBlocks b (event :: st.trace) = liveBlocks b st.trace) :
    Sim heapType heapRep (st.log event) F where
  ok := hs.ok
  region r hr := by
    obtain ⟨region, hregion, hrep⟩ := hs.region r hr
    exact ⟨region, hregion, ⟨hrep.ancestors, ⟨hrep.linked.head, hrep.linked.tail⟩, hrep.fixed,
      hrep.type, hrep.size⟩⟩
  buff := hs.buff
  trace n hn := (hs.trace n hn).trans (hlive n.2).symm

/-- What the callers hold is no part of the store. -/
theorem Sim.setHeld (hs : Sim heapType heapRep st F) {held : List (ℕ × Extent)}
    (hok : Forest.Ok { F with held := held }) :
    Sim heapType heapRep st { F with held := held } where
  ok := hok
  region r hr := by
    obtain ⟨region, hregion, hrep⟩ := hs.region r hr
    exact ⟨region, hregion, hrep.ancestors, hrep.linked, hrep.fixed, hrep.type, hrep.size⟩
  buff n hn := by
    obtain ⟨buff, hbuff, hrep⟩ := hs.buff n hn
    exact ⟨buff, hbuff, hrep.area, hrep.end_eq, hrep.small, hrep.rep⟩
  trace := hs.trace

/-- One operation on one buffer: its allocator state and its blocks change. -/
theorem Sim.setLive (hs : Sim heapType heapRep st F) {r b : ℕ} (hnode : F.Node (r, b))
    {buff : Buff} (hbuff : st.buffs b = some buff) {blocks : List Extent}
    {held : List (ℕ × Extent)} {a : AllocState ρ} {event : Event}
    (hok : Forest.Ok { F with live := Function.update F.live b blocks, held := held })
    (hrep : TreeRep heapType heapRep F.root r buff blocks a)
    (hlive : ∀ c, liveBlocks c (event :: st.trace) =
      if b = c then blocks else liveBlocks c st.trace) :
    Sim heapType heapRep ((st.setCell buff.start a).log event)
      { F with live := Function.update F.live b blocks, held := held } where
  ok := hok
  region c hc := by
    obtain ⟨region, hregion, hrep⟩ := hs.region c hc
    exact ⟨region, hregion, ⟨hrep.ancestors, ⟨hrep.linked.head, hrep.linked.tail⟩, hrep.fixed,
      hrep.type, hrep.size⟩⟩
  buff n hn := by
    obtain ⟨buff', hbuff', hrep'⟩ := hs.buff n hn
    refine ⟨buff', hbuff', hrep'.area, hrep'.end_eq, hrep'.small, ?_⟩
    by_cases hnb : n = (r, b)
    · subst hnb
      obtain rfl := Option.some.inj (hbuff.symm.trans hbuff')
      simpa using hrep
    · obtain ⟨hne, hstart⟩ := hs.ok.node_ne hn hnode hnb
      obtain ⟨buff'', hbuff'', hrep''⟩ := hs.buff (r, b) hnode
      obtain rfl := Option.some.inj (hbuff.symm.trans hbuff'')
      have hstart' : buff'.start ≠ buff.start := by
        rw [hrep'.area, hrep''.area] at hstart
        exact hstart
      simpa [Function.update_of_ne hstart', Function.update_of_ne hne] using hrep'.rep
  trace n hn := by
    show Function.update F.live b blocks n.2 = liveBlocks n.2 (event :: st.trace)
    rw [hlive]
    by_cases hb : b = n.2
    · subst hb
      simp
    · rw [if_neg hb, Function.update_of_ne (Ne.symm hb)]
      exact hs.trace n hn

variable (hheap : SoundOp (shallocSpaceBuffOps other heapType) 0 (2 ^ 62) heapRep)
include hheap

/-- A buffer answers a request with a new block, or refuses and keeps its blocks. -/
theorem Sim.opMalloc (hs : Sim heapType heapRep st F) {r b n : ℕ} {p : Option ℕ}
    (hnode : F.Node (r, b)) (hpos : 0 < n) (hlimit : n < 2 ^ 62)
    (h : st.opMalloc (shallocSpaceBuffOps other) b n = some (p, st')) :
    Sim heapType heapRep st' (p.elim F fun q => F.issue r b ⟨q, n⟩) := by
  obtain ⟨buff, a, hbuff, hcall, rfl⟩ := Store.opMalloc_eq_some.mp h
  obtain ⟨buff', hbuff', hrep⟩ := hs.buff (r, b) hnode
  obtain rfl := Option.some.inj (hbuff.symm.trans hbuff')
  have htrace := hs.trace (r, b) hnode
  cases p with
  | none =>
    have hsame : Function.update F.live b (F.live b) = F.live := Function.update_eq_self ..
    have hsim : Sim heapType heapRep ((st.setCell buff.start a).log (.malloc b n none))
        { F with live := Function.update F.live b (F.live b), held := F.held } :=
      hs.setLive hnode hbuff (by rw [hsame]; exact hs.ok)
        (hrep.rep.refused hheap hpos hlimit hcall) fun c => by
          by_cases hc : b = c
          · subst hc; simp [htrace]
          · simp [hc]
    rw [hsame] at hsim
    exact hsim
  | some q =>
    obtain ⟨hrep', hapart⟩ := hrep.rep.served hheap hpos hlimit hcall
    obtain ⟨hwithin, halign, -, hheader⟩ := hrep'.issued hheap List.mem_cons_self
    rw [← hrep.area] at hwithin
    have hok : (F.issue r b ⟨q, n⟩).Ok :=
      hs.ok.issue hnode hwithin halign hpos (by rw [hrep.area]; exact hheader) hapart
    exact hs.setLive hnode hbuff hok hrep' fun c => by
      by_cases hc : b = c
      · subst hc; simp [htrace]
      · simp [hc]

/-- `calloc` of a buffer answers like its `malloc`. -/
theorem Sim.opCalloc (hs : Sim heapType heapRep st F) {r b nmemb size : ℕ} {p : Option ℕ}
    (hnode : F.Node (r, b)) (hpos : 0 < Word.wrap 64 (size * nmemb))
    (hlimit : Word.wrap 64 (size * nmemb) < 2 ^ 62)
    (h : st.opCalloc (shallocSpaceBuffOps other) b nmemb size = some (p, st')) :
    Sim heapType heapRep st'
      (p.elim F fun q => F.issue r b ⟨q, Word.wrap 64 (size * nmemb)⟩) := by
  obtain ⟨st1, hmalloc, rfl⟩ := Store.opCalloc_eq_some.mp h
  have hsim := hs.opMalloc hheap hnode hpos hlimit hmalloc
  cases p with
  | none => exact hsim
  | some q => exact hsim.log fun b => liveBlocks_zero _ _ _ _

/-- Giving up a block: the tail buffer takes it back if it lies there. -/
theorem Sim.free (hs : Sim heapType heapRep st F) {r : ℕ} {e : Extent} (he : (r, e) ∈ F.held)
    (h : shallocFree (shallocSpaceBuffOps other) r e.ptr st = some st') :
    ∃ F', Sim heapType heapRep st' F' ∧ Evolves F F' ∧ F'.held = F.held.erase (r, e) := by
  have hlog : Sim heapType heapRep (st.log (.release r e.ptr)) F :=
    hs.log fun b => liveBlocks_release _ _ _ _
  obtain ⟨⟨r', b⟩, hplaced⟩ := hs.ok.placed (.held r e) he
  obtain rfl : r = r' := Option.some.inj hplaced.owner
  cases shallocFree_cases h with
  | ignored =>
    exact ⟨F.drop r e, hlog.setHeld (hs.ok.drop r e), ⟨rfl, rfl, rfl⟩, rfl⟩
  | @asked region t buff _ hregion htail hbuff haddr hfree =>
    obtain ⟨region', hregion', hrep⟩ := hs.region r hplaced.node.1
    obtain rfl := Option.some.inj (hregion.symm.trans hregion')
    have hnode : F.Node (r, t) :=
      ⟨hplaced.node.1, hrep.linked.tail_mem htail⟩
    obtain ⟨buff', hbuff', hbrep⟩ := hs.buff (r, t) hnode
    obtain rfl := Option.some.inj (hbuff.symm.trans hbuff')
    -- the buffer that the block lies in is the tail, the only one that has its address
    obtain rfl : b = t := by
      by_contra hne
      have hnb : ((r, b) : ℕ × ℕ) ≠ (r, t) := fun heq => hne (Prod.mk.inj heq).2
      have harea := hs.ok.nest.area_disjoint _ hplaced.node hnode rfl rfl hnb
      obtain ⟨⟨h1, h2⟩, -, hpos⟩ := hs.ok.live_within _ hplaced.node _ hplaced.mem
      have hend := hbrep.end_eq
      obtain ⟨hlow, hhigh⟩ := haddr
      simp only [Forest.Ok.nest, Extent.Disjoint, hbrep.area, Forest.ext] at harea h1 h2 hpos
      omega
    obtain ⟨buff', a, hbuff', hcall, rfl⟩ := Store.opFree_eq_some.mp hfree
    obtain rfl := Option.some.inj (hbuff.symm.trans hbuff')
    have htrace := hs.trace (r, b) hnode
    refine ⟨F.release r b e, ?_, ⟨rfl, rfl, rfl⟩, rfl⟩
    refine hlog.setLive hnode hbuff (hs.ok.release hnode he)
      (hbrep.rep.freed hheap hplaced.mem hcall) fun c => ?_
    by_cases hc : b = c
    · subst hc; simp [htrace]
    · simp [hc]

end Sim

section Grow

variable {st st' : Store (AllocState ρ)} {F : Forest}

/-- A block that a caller holds ends below `2 ^ 48`. -/
theorem Sim.held_small (hs : Sim heapType heapRep st F) {r : ℕ} {e : Extent}
    (he : (r, e) ∈ F.held) : 8 ∣ e.ptr ∧ e.ptr + e.len < 2 ^ 48 := by
  obtain ⟨n, hplaced⟩ := hs.ok.placed (.held r e) he
  obtain ⟨buff, -, hbrep⟩ := hs.buff n hplaced.node
  obtain ⟨⟨-, hend⟩, halign, -⟩ := hs.ok.live_within n hplaced.node _ hplaced.mem
  have hsmall := hbrep.small
  simp only [hbrep.area, Forest.ext] at hend
  exact ⟨halign, by omega⟩

/-- The descriptor of a new no-free buffer below `2 ^ 48`. -/
def newBuff (d size blockSize : ℕ) : Buff :=
  { start := d + sizeofBuff
    endAddr := d + sizeofBuff + size - 1
    size := size
    unusedSize := size
    blockSize := blockSize
    next := none
    allocType := .nofree }

theorem cloneBuff_eq {region : Region} {d size : ℕ} (hmin : shallocBuffMinSize ≤ size)
    (hsmall : d + (sizeofBuff + size) < 2 ^ 48)
    (htype : region.defaultData.allocType = .nofree) :
    region.cloneBuff d size = newBuff d size region.defaultData.blockSize := by
  have hstart : Word.wrap 64 (d + sizeofBuff) = d + sizeofBuff := Word.wrap_of_lt (by omega)
  have hend : Word.sub 64 (Word.wrap 64 (d + sizeofBuff + size)) 1 = d + sizeofBuff + size - 1 := by
    rw [Word.wrap_of_lt (by omega)]
    exact Word.sub_of_le (by unfold sizeofBuff; omega) (by omega)
  simp [Region.cloneBuff, shallocCloneBuff, shallocGetBuff, newBuff, hstart, hend, htype,
    Nat.not_lt.mpr hmin]

/-- A block that a caller holds is set up as an empty no-free buffer. -/
theorem Sim.create_newBuff (hs : Sim heapType heapRep st F) {p d size : ℕ} {ret : ℤ}
    {region : Region} (he : (p, ⟨d, sizeofBuff + size⟩) ∈ F.held)
    (hmin : shallocBuffMinSize ≤ size) (htype : region.defaultData.allocType = .nofree)
    (hcreate : (st.setBuff d (region.cloneBuff d size)).opCreate (shallocSpaceBuffOps other) d =
      some (ret, st')) :
    ret = 0 ∧ ∃ header, header.next = d + sizeofBuff + sizeofNofreeHeader ∧
      NofreeRep (newBuff d size region.defaultData.blockSize) []
        (AllocState.nofree header : AllocState ρ) ∧
      st' = ((st.setBuff d (newBuff d size region.defaultData.blockSize)).setCell
        (d + sizeofBuff) (.nofree header)).log (.create d 0) := by
  obtain ⟨halign, hsmall⟩ := hs.held_small he
  simp only at halign hsmall
  have hroom : sizeofNofreeHeader < size :=
    Nat.lt_of_lt_of_le (by decide : sizeofNofreeHeader < shallocBuffMinSize) hmin
  rw [cloneBuff_eq hmin hsmall htype] at hcreate
  obtain ⟨data, a, hdata, hcall, rfl⟩ := Store.opCreate_eq_some.mp hcreate
  obtain rfl : newBuff d size region.defaultData.blockSize = data := by simpa using hdata
  have halign' : 8 ∣ (newBuff d size region.defaultData.blockSize).start :=
    Nat.dvd_add halign (by decide : 8 ∣ sizeofBuff)
  have hsmall' : (newBuff d size region.defaultData.blockSize).start +
      (newBuff d size region.defaultData.blockSize).size < 2 ^ 48 := by
    simp only [newBuff]
    omega
  obtain ⟨header, hinit, hnext, hrep⟩ := nofreeCreate_rep (a := st.cells (d + sizeofBuff))
    halign' hsmall' hroom
  obtain ⟨rfl, rfl⟩ := Prod.mk.inj (Option.some.inj (hcall.symm.trans hinit))
  exact ⟨rfl, header, hnext, hrep, rfl⟩

/-- The store in which the block `d` is set up as an empty no-free buffer of a region whose
record has a new default size. -/
def builtStore (st : Store (AllocState ρ)) (r d size newSize : ℕ) (region : Region)
    (header : NofreeHeader) : Store (AllocState ρ) :=
  (((st.setBuff d (newBuff d size region.defaultData.blockSize)).setCell
    (d + sizeofBuff) (.nofree header)).log (.create d 0)).setRegion r
    (region.setDefaultSize newSize)

section BuiltStore

variable (st : Store (AllocState ρ)) (r d size newSize : ℕ) (region : Region)
  (header : NofreeHeader)

@[simp] theorem builtStore_regions : (builtStore st r d size newSize region header).regions =
    Function.update st.regions r (some (region.setDefaultSize newSize)) := rfl

@[simp] theorem builtStore_buffs : (builtStore st r d size newSize region header).buffs =
    Function.update st.buffs d (some (newBuff d size region.defaultData.blockSize)) := rfl

@[simp] theorem builtStore_cells : (builtStore st r d size newSize region header).cells =
    Function.update st.cells (d + sizeofBuff) (.nofree header) := rfl

@[simp] theorem liveBlocks_builtStore (b : ℕ) :
    liveBlocks b (builtStore st r d size newSize region header).trace =
      if d = b then [] else liveBlocks b st.trace := by
  simp [builtStore]

end BuiltStore

/-- The block that the parent issued is set up as a buffer, and attached. -/
theorem Sim.attached (hs : Sim heapType heapRep st F) {p r d size newSize : ℕ} {ret : ℤ}
    {st2 : Store (AllocState ρ)} {region : Region}
    (he : (p, ⟨d, sizeofBuff + size⟩) ∈ F.held) (hr : r ∈ F.regions)
    (hparent : (F.ancestors r).head? = some p) (hregion : st.regions r = some region)
    (hmin : shallocBuffMinSize ≤ size)
    (hcreate : (st.setBuff d (region.cloneBuff d size)).opCreate (shallocSpaceBuffOps other) d =
      some (ret, st2))
    (hattach : AttachCases r d (st2.setRegion r (region.setDefaultSize newSize)) st') :
    ∃ header, header.next = d + sizeofBuff + sizeofNofreeHeader ∧
      NofreeRep (newBuff d size region.defaultData.blockSize) []
        (AllocState.nofree header : AllocState ρ) ∧
      Attached r d (region.setDefaultSize newSize) (F.chain r)
        (builtStore st r d size newSize region header) st' := by
  have hroot : r ≠ F.root := by
    rintro rfl
    simp [hs.ok.ancestors_root] at hparent
  obtain ⟨region', hregion', hrep⟩ := hs.region r hr
  obtain rfl := Option.some.inj (hregion.symm.trans hregion')
  obtain ⟨rfl, header, hnext, hdrep, rfl⟩ := hs.create_newBuff he hmin (hrep.type hroot) hcreate
  have hfresh : ∀ b ∈ F.chain r, b ≠ d := fun b hb =>
    (hs.ok.held_ne_node he (⟨hr, hb⟩ : F.Node (r, b))).1.symm
  -- the chain of the region is as it was before the descriptor was written
  have hlinked : Linked (builtStore st r d size newSize region header)
      (region.setDefaultSize newSize) (F.chain r) := by
    refine ⟨hrep.linked.head.congr fun b hb => ?_, hrep.linked.tail⟩
    simp [Function.update_of_ne (hfresh b hb)]
  exact ⟨header, hnext, hdrep, hattach.attached (Function.update_self ..) hlinked
    (hs.ok.chain_nodup r hr) fun hd => hfresh d hd rfl⟩

section Attached

variable {p r d size newSize : ℕ} {region : Region} {header : NofreeHeader}
  (hs : Sim heapType heapRep st F) (he : (p, ⟨d, sizeofBuff + size⟩) ∈ F.held)
  (hr : r ∈ F.regions) (hroot : r ≠ F.root) (hregion : st.regions r = some region)
  (hatt : Attached r d (region.setDefaultSize newSize) (F.chain r)
    (builtStore st r d size newSize region header) st')
include hs he hatt

include hr in
/-- Of the buffers before, only the last one of the region changes: the new one follows it. -/
theorem Sim.attached_buffs {n : ℕ × ℕ} (hn : F.Node n) {buff : Buff}
    (hbuff : st.buffs n.2 = some buff) : st'.buffs n.2 = some buff ∨
      n.1 = r ∧ st'.buffs n.2 = some { buff with next := some d } := by
  have hfresh : n.2 ≠ d := (hs.ok.held_ne_node he hn).1.symm
  have hbuff' : (builtStore st r d size newSize region header).buffs n.2 = some buff := by
    rw [builtStore_buffs, Function.update_of_ne hfresh, hbuff]
  by_cases hlast : (F.chain r).getLast? = some n.2
  · -- no other region has a buffer with this descriptor
    have hnr : n = (r, n.2) := by
      by_contra hne
      have hlast' : F.Node (r, n.2) := ⟨hr, List.mem_of_getLast? hlast⟩
      exact (hs.ok.node_ne hn hlast' hne).1 rfl
    exact Or.inr ⟨congrArg Prod.fst hnr, hatt.last n.2 buff hlast hbuff'⟩
  · exact Or.inl ((hatt.frame n.2 hfresh hlast).trans hbuff')

include hr hroot hregion in
/-- The record of the region lists the new buffer last, other records are as before. -/
theorem Sim.attached_region (hmin : shallocBuffMinSize ≤ newSize) (hsmall : newSize < 2 ^ 48)
    {c : ℕ} (hc : c ∈ F.regions) :
    ∃ record, st'.regions c = some record ∧ RegionRep st' (F.attach p r d size) c record := by
  obtain ⟨head, hregions, hlinked⟩ := hatt.region
  obtain ⟨record, hrecord, hrep⟩ := hs.region c hc
  by_cases hcr : c = r
  · subst hcr
    obtain rfl := Option.some.inj (hregion.symm.trans hrecord)
    refine ⟨{ region.setDefaultSize newSize with dataHead := head, dataTail := some d },
      by rw [hregions]; exact Function.update_self .., hrep.ancestors, ?_,
      fun heq => absurd heq hroot, hrep.type, fun _ => ⟨hmin, hsmall⟩⟩
    simpa [Forest.attach] using hlinked
  · refine ⟨record, ?_, hrep.ancestors, ⟨?_, ?_⟩, hrep.fixed, hrep.type, hrep.size⟩
    · rw [hregions, Function.update_of_ne hcr]
      simpa [Function.update_of_ne hcr] using hrecord
    · simp only [Forest.attach, Function.update_of_ne hcr]
      refine hrep.linked.head.congr fun b hb => ?_
      -- the buffer that was last in region `r` is none of this chain
      obtain ⟨buff, hbuff⟩ := hrep.linked.head.exists_buff b hb
      have hkept := (hs.attached_buffs he hr hatt (n := (c, b)) ⟨hc, hb⟩ hbuff).resolve_right
        fun h => hcr h.1
      rw [hbuff]
      exact hkept
    · simpa [Forest.attach, Function.update_of_ne hcr] using hrep.linked.tail

include hr hroot in
/-- The buffers before still represent the buffers of the forest. -/
theorem Sim.attached_old {n : ℕ × ℕ} (hn : F.Node n) : ∃ buff, st'.buffs n.2 = some buff ∧
    BuffRep heapType heapRep (F.attach p r d size) n buff (st'.cells buff.start) := by
  obtain ⟨hfresh, hstart⟩ := hs.ok.held_ne_node he hn
  obtain ⟨buff, hbuff, hrep⟩ := hs.buff n hn
  have hcell : st'.cells buff.start = st.cells buff.start := by
    rw [hrep.area] at hstart
    simp only at hstart
    rw [hatt.cells]
    simp [Function.update_of_ne hstart.symm]
  have harea : (F.attach p r d size).area n.2 = F.area n.2 :=
    Function.update_of_ne hfresh.symm _ _
  have hlive : (F.attach p r d size).live n.2 = F.live n.2 :=
    Function.update_of_ne hfresh.symm _ _
  cases hs.attached_buffs he hr hatt hn hbuff with
  | inl hsame =>
    refine ⟨buff, hsame, harea.trans hrep.area, hrep.end_eq, hrep.small, ?_⟩
    rw [hlive, hcell]
    exact hrep.rep
  | inr hnext =>
    obtain ⟨hnr, hnext⟩ := hnext
    have hne : n.1 ≠ F.root := hnr ▸ hroot
    refine ⟨_, hnext, harea.trans hrep.area, hrep.end_eq, hrep.small, ?_⟩
    -- the link to the next buffer is no part of what a no-free allocator represents
    obtain ⟨htype, hnrep⟩ := (treeRep_below hne).mp hrep.rep
    refine (treeRep_below hne).mpr ⟨htype, ?_⟩
    rw [hlive, hcell]
    exact hnrep.next _

include hroot in
/-- The new buffer is an empty no-free buffer. -/
theorem Sim.attached_new (hpos : 0 < size)
    (hrep : NofreeRep (newBuff d size region.defaultData.blockSize) []
      (AllocState.nofree header : AllocState ρ)) : ∃ buff, st'.buffs d = some buff ∧
    BuffRep heapType heapRep (F.attach p r d size) (r, d) buff (st'.cells buff.start) := by
  have hsmall := (hs.held_small he).2
  simp only at hsmall
  refine ⟨newBuff d size region.defaultData.blockSize, ?_, ?_, ?_, ?_, ?_⟩
  · exact hatt.data (newBuff d size region.defaultData.blockSize) (by simp)
  · exact Function.update_self ..
  · simp only [newBuff]
    unfold sizeofBuff
    omega
  · simp only [newBuff]
    omega
  · refine (treeRep_below hroot).mpr ⟨rfl, ?_⟩
    have hlive : (F.attach p r d size).live d = [] := Function.update_self ..
    have hcell : st'.cells (d + sizeofBuff) = .nofree header := by
      rw [hatt.cells]
      exact Function.update_self ..
    simp only [hlive, newBuff, hcell]
    exact hrep

end Attached

/-- The block that the parent issued becomes the last buffer of the region. -/
theorem Sim.attach (hs : Sim heapType heapRep st F) {p r d size newSize : ℕ} {ret : ℤ}
    {st2 : Store (AllocState ρ)} {region : Region}
    (he : (p, ⟨d, sizeofBuff + size⟩) ∈ F.held) (hr : r ∈ F.regions)
    (hparent : (F.ancestors r).head? = some p) (hregion : st.regions r = some region)
    (hmin : shallocBuffMinSize ≤ newSize) (hle : newSize ≤ size)
    (hcreate : (st.setBuff d (region.cloneBuff d size)).opCreate (shallocSpaceBuffOps other) d =
      some (ret, st2))
    (hattach : AttachCases r d (st2.setRegion r (region.setDefaultSize newSize)) st') :
    Sim heapType heapRep st' (F.attach p r d size) := by
  have hroot : r ≠ F.root := by
    rintro rfl
    simp [hs.ok.ancestors_root] at hparent
  have hsmall := (hs.held_small he).2
  simp only at hsmall
  obtain ⟨header, -, hdrep, hatt⟩ :=
    hs.attached he hr hparent hregion (hmin.trans hle) hcreate hattach
  have hroom : sizeofNofreeHeader ≤ size :=
    le_trans (by decide : sizeofNofreeHeader ≤ shallocBuffMinSize) (hmin.trans hle)
  have hpos : 0 < size := Nat.lt_of_lt_of_le (by decide) hroom
  refine ⟨hs.ok.attach he hr hparent hroom, ?_, ?_, ?_⟩
  · intro c hc
    exact hs.attached_region he hr hroot hregion hatt hmin (by omega) hc
  · intro n hn
    cases (Forest.node_attach hr).mp hn with
    | inl hold => exact hs.attached_old he hr hroot hatt hold
    | inr hnew => subst hnew; exact hs.attached_new he hroot hatt hpos hdrep
  · intro n hn
    rw [hatt.live]
    cases (Forest.node_attach hr).mp hn with
    | inl hold =>
      have hfresh : n.2 ≠ d := (hs.ok.held_ne_node he hold).1.symm
      have hlive : (F.attach p r d size).live n.2 = F.live n.2 :=
        Function.update_of_ne hfresh _ _
      simpa [hlive, hfresh.symm] using hs.trace n hold
    | inr hnew =>
      subst hnew
      simp [Forest.attach]

end Grow

end Shalloc
