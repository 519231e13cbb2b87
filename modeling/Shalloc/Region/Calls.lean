import Shalloc.Region.Simulation

/-!
# The calls of the region layer on a forest

`shalloc_malloc`, `shalloc_calloc`, `shalloc_orealloc`, `shalloc_free` and
`shalloc_region_create` take a store that represents a forest to one that represents a
forest again, with the blocks that the callers hold changed as the answer says. The proof
for `shalloc_malloc` is by induction on the path to the root: a region that grows holds
the block of its parent until it has made a buffer of it.

## Main results

- `Sim.grow` — growing a region, given what the parent does
- `Sim.malloc`, `Sim.calloc`, `Sim.orealloc`, `Sim.create` — the calls
-/

namespace Shalloc

variable {ρ : Type} {other : BuffAllocType → BuffOp ρ} {heapType : BuffAllocType}
  {heapRep : Buff → List Extent → AllocState ρ → Prop}
  {st st' : Store (AllocState ρ)} {F : Forest}

/-- A request of region `r` is answered with a block that the caller then holds. -/
def Answers (heapType : BuffAllocType) (heapRep : Buff → List Extent → AllocState ρ → Prop)
    (r n : ℕ) (p : Option ℕ) (st' : Store (AllocState ρ)) (F : Forest) : Prop :=
  ∃ F', Sim heapType heapRep st' F' ∧ Evolves F F' ∧ F'.held = issueHeld r n p F.held

/-- The default buffer of a new region is no smaller than the minimum. -/
theorem shallocGetRegion_defaultData {ancestors : List ℕ} {buffSize blockSize flags : ℕ}
    {type : BuffAllocType} (htype : type = .none ∨ type = .nofree) (hsize : buffSize < 2 ^ 48) :
    (shallocGetRegion ancestors buffSize blockSize flags type).defaultData.allocType = .nofree ∧
      shallocBuffMinSize ≤
        (shallocGetRegion ancestors buffSize blockSize flags type).defaultData.size ∧
      (shallocGetRegion ancestors buffSize blockSize flags type).defaultData.size < 2 ^ 48 := by
  refine ⟨?_, ?_⟩
  · obtain rfl | rfl := htype <;> simp [shallocGetRegion, shallocGetBuff]
  · simp only [shallocGetRegion, shallocGetBuff, shallocBuffMinSize, shallocRegionBuffSizeDefault,
      shallocPageSize]
    split <;> split <;> omega

/-- The record of a new region is written into the block that its parent issued. -/
theorem Sim.adopt (hs : Sim heapType heapRep st F) {p c buffSize blockSize flags : ℕ}
    {type : BuffAllocType} (he : (p, ⟨c, sizeofRegion⟩) ∈ F.held)
    (htype : type = .none ∨ type = .nofree) (hsize : buffSize < 2 ^ 48) :
    Sim heapType heapRep
      (st.setRegion c (shallocGetRegion (p :: F.ancestors p) buffSize blockSize flags type))
      (F.adopt p c) := by
  have hok := hs.ok.adopt he
  have hne : ∀ r ∈ F.regions, r ≠ c := fun r hr => (hs.ok.held_ne_record he hr).symm
  have hnode : ∀ n, (F.adopt p c).Node n → F.Node n := fun n =>
    (Forest.node_adopt fun hc => hne c hc rfl).mp
  refine ⟨hok, ?_, ?_, ?_⟩
  · intro r hr
    by_cases hrc : r = c
    · -- no record was there before, and the new one is of a region without buffers
      subst hrc
      obtain ⟨htype', hmin, hmax⟩ := shallocGetRegion_defaultData htype hsize
      refine ⟨_, Function.update_self .., ?_, ⟨?_, ?_⟩, ?_, fun _ => htype',
        fun _ => ⟨hmin, hmax⟩⟩
      · simp [shallocGetRegion, Forest.adopt]
      · simp [shallocGetRegion, Forest.adopt, ChainFrom]
      · simp [shallocGetRegion, Forest.adopt]
      · exact fun heq => absurd heq.symm (hne _ hs.ok.root_mem)
    · have hr' := (List.mem_cons.mp hr).resolve_left hrc
      obtain ⟨region, hregion, hrep⟩ := hs.region r hr'
      refine ⟨region, ?_, ?_, ⟨?_, ?_⟩, hrep.fixed, hrep.type, hrep.size⟩
      · simpa [Function.update_of_ne hrc] using hregion
      · simpa [Forest.adopt, Function.update_of_ne hrc] using hrep.ancestors
      · simpa [Forest.adopt, Function.update_of_ne hrc] using hrep.linked.head
      · simpa [Forest.adopt, Function.update_of_ne hrc] using hrep.linked.tail
  · intro n hn
    obtain ⟨buff, hbuff, hrep⟩ := hs.buff n (hnode n hn)
    exact ⟨buff, hbuff, hrep.area, hrep.end_eq, hrep.small, hrep.rep⟩
  · exact fun n hn => (hs.trace n (hnode n hn)).trans (by simp)

variable (hheap : SoundOp (shallocSpaceBuffOps other heapType) 0 (2 ^ 62) heapRep)

section Grow

variable {r size : ℕ} {parentMalloc : ℕ → Store (AllocState ρ) →
  Option (Option ℕ × Store (AllocState ρ))}

/-- What a region needs of its parent when it grows. -/
def ParentAnswers (heapType : BuffAllocType)
    (heapRep : Buff → List Extent → AllocState ρ → Prop) (F : Forest) (r : ℕ)
    (parentMalloc : ℕ → Store (AllocState ρ) → Option (Option ℕ × Store (AllocState ρ))) : Prop :=
  ∀ q, (F.ancestors r).head? = some q → ∀ {st st' m p}, Sim heapType heapRep st F →
    parentMalloc m st = some (p, st') → Bounded st'.trace →
    m < 2 ^ 62 ∧ Answers heapType heapRep q m p st' F

/-- The root has its buffer and cannot grow; a region below it asks its parent. -/
theorem Sim.parent_of_not_fixed (hs : Sim heapType heapRep st F) (hr : r ∈ F.regions)
    {region : Region} (hregion : st.regions r = some region)
    (hfixed : ¬ (region.dataTail.isSome ∧ hasFlag region.flags .nonResizable)) :
    r ≠ F.root ∧ RegionRep st F r region := by
  obtain ⟨region', hregion', hrep⟩ := hs.region r hr
  obtain rfl := Option.some.inj (hregion.symm.trans hregion')
  refine ⟨?_, hrep⟩
  rintro rfl
  obtain ⟨rb, hchain, -⟩ := hs.ok.chain_root
  have htail := hrep.linked.tail
  rw [hchain] at htail
  exact hfixed ⟨by simp [htail], hrep.fixed rfl⟩

theorem RegionRep.grownSize {region : Region} (hrep : RegionRep st F r region)
    (hr : r ≠ F.root) :
    shallocBuffMinSize ≤ region.grownSize ∧ region.grownSize < 2 ^ 49 := by
  obtain ⟨hmin, hmax⟩ := hrep.size hr
  by_cases helastic : hasFlag region.flags .elastic
  · rw [Region.grownSize, if_pos helastic, Word.wrap_of_lt (by omega)]
    omega
  · rw [Region.grownSize, if_neg helastic]
    omega

theorem Region.buffSize_eq (region : Region) (size : ℕ) :
    region.buffSize size = max region.grownSize size := by
  simp only [Region.buffSize]
  split <;> omega

/-- What a growing region asks its parent for does not wrap. -/
theorem RegionRep.request_eq {region : Region} (hrep : RegionRep st F r region)
    (hroot : r ≠ F.root) (hsize : sizeofBuff + size < 2 ^ 64) :
    Word.wrap 64 (sizeofBuff + region.buffSize size) = sizeofBuff + region.buffSize size := by
  have hgrown := (hrep.grownSize hroot).2
  refine Word.wrap_of_lt ?_
  rw [Region.buffSize_eq]
  simp only [sizeofBuff] at hsize ⊢
  omega

/-- The block that a growing region asks its parent for, which it then holds. -/
theorem Sim.allocBlock (hs : Sim heapType heapRep st F) {region : Region}
    (hrep : RegionRep st F r region) (hroot : r ≠ F.root)
    (hparent : ParentAnswers heapType heapRep F r parentMalloc)
    (hsize : sizeofBuff + size < 2 ^ 64) {q : ℕ} (hq : region.parent = some q)
    {data : Option ℕ}
    (hmalloc : parentMalloc (Word.wrap 64 (sizeofBuff + region.buffSize size)) st =
      some (data, st')) (hbound : Bounded st'.trace) :
    Answers heapType heapRep q (sizeofBuff + region.buffSize size) data st' F ∧
      (F.ancestors r).head? = some q := by
  have hq' : (F.ancestors r).head? = some q := by rw [← hrep.ancestors]; exact hq
  rw [hrep.request_eq hroot hsize] at hmalloc
  exact ⟨(hparent q hq' hs hmalloc hbound).2, hq'⟩

/-- After the parent has issued the block the region is as it was, and it holds the
block. -/
theorem Sim.issued (hs : Sim heapType heapRep st F) (hr : r ∈ F.regions) {region : Region}
    (hrep : RegionRep st F r region) (hroot : r ≠ F.root)
    (hparent : ParentAnswers heapType heapRep F r parentMalloc)
    (hsize : sizeofBuff + size < 2 ^ 64) {q d : ℕ} (hq : region.parent = some q)
    (hmalloc : parentMalloc (Word.wrap 64 (sizeofBuff + region.buffSize size)) st =
      some (some d, st')) {region' : Region} (hregion' : st'.regions r = some region')
    (hbound : Bounded st'.trace) :
    ∃ F', Sim heapType heapRep st' F' ∧ Evolves F F' ∧
      F'.held = (q, ⟨d, sizeofBuff + region.buffSize size⟩) :: F.held ∧
      (F'.ancestors r).head? = some q ∧ region'.defaultData.allocType = .nofree := by
  obtain ⟨⟨F', hs', hev, hheld⟩, hq'⟩ := hs.allocBlock hrep hroot hparent hsize hq hmalloc hbound
  have hr' : r ∈ F'.regions := by rw [hev.regions]; exact hr
  obtain ⟨region'', hregion'', hrep'⟩ := hs'.region r hr'
  obtain rfl := Option.some.inj (hregion'.symm.trans hregion'')
  refine ⟨F', hs', hev, hheld, ?_, hrep'.type ?_⟩
  · rw [hev.ancestors]; exact hq'
  · rw [hev.root]; exact hroot

/-- The next buffer of a region is no smaller than its default size and the minimum. -/
theorem RegionRep.le_buffSize {region : Region} (hrep : RegionRep st F r region)
    (hroot : r ≠ F.root) (size : ℕ) : shallocBuffMinSize ≤ region.grownSize ∧
      region.grownSize ≤ region.buffSize size ∧ size ≤ region.buffSize size := by
  rw [Region.buffSize_eq]
  exact ⟨(hrep.grownSize hroot).1, Nat.le_max_left _ _, Nat.le_max_right _ _⟩

/-- The no-free allocator always accepts the buffer that its region has sized, so a region
fails to grow only if the parent refuses. -/
theorem Sim.alloc_refused (hs : Sim heapType heapRep st F) (hr : r ∈ F.regions)
    {region : Region} (hregion : st.regions r = some region) (hrep : RegionRep st F r region)
    (hroot : r ≠ F.root) (hparent : ParentAnswers heapType heapRep F r parentMalloc)
    (hsize : sizeofBuff + size < 2 ^ 64)
    (h : AllocBuffCases (shallocSpaceBuffOps other) parentMalloc r size st none st')
    (hbound : Bounded st'.trace) :
    ∃ q, region.parent = some q ∧
      parentMalloc (Word.wrap 64 (sizeofBuff + region.buffSize size)) st = some (none, st') := by
  cases h with
  | refused hregion' hq hmalloc =>
    obtain rfl := Option.some.inj (hregion.symm.trans hregion')
    exact ⟨_, hq, hmalloc⟩
  | createFailed hregion' hq hmalloc hregion1 hcreate hret hfree =>
    obtain rfl := Option.some.inj (hregion.symm.trans hregion')
    have hbound1 := (hbound.of_extends (shallocFree_cases hfree).extends).of_extends
      (Store.extends_opCreate hcreate)
    obtain ⟨F1, hs1, -, hheld, -, htype⟩ := hs.issued hr hrep hroot hparent hsize hq hmalloc
      hregion1 (hbound1.of_extends (Store.extends_setBuff _ _ _))
    obtain ⟨hmin, hle, -⟩ := hrep.le_buffSize hroot size
    obtain ⟨rfl, -⟩ := hs1.create_newBuff (by rw [hheld]; exact List.mem_cons_self)
      (hmin.trans hle) htype hcreate
    exact absurd hret (by decide)

/-- Growing a region: the block of the parent becomes the last buffer of its chain. -/
theorem Sim.grow (hs : Sim heapType heapRep st F) (hr : r ∈ F.regions)
    (hparent : ParentAnswers heapType heapRep F r parentMalloc)
    (hsize : sizeofBuff + size < 2 ^ 64) {ret : ℤ}
    (h : GrowCases (shallocSpaceBuffOps other) parentMalloc r size st ret st')
    (hbound : Bounded st'.trace) :
    ∃ F', Sim heapType heapRep st' F' ∧ Evolves F F' ∧ F'.held = F.held := by
  cases h with
  | fixed => exact ⟨F, hs, .refl F, rfl⟩
  | failed hregion hfixed halloc =>
    obtain ⟨hroot, hrep⟩ := hs.parent_of_not_fixed hr hregion hfixed
    obtain ⟨q, hq, hmalloc⟩ := hs.alloc_refused hr hregion hrep hroot hparent hsize halloc hbound
    obtain ⟨⟨F1, hs1, hev, hheld⟩, -⟩ := hs.allocBlock hrep hroot hparent hsize hq hmalloc hbound
    exact ⟨F1, hs1, hev, hheld⟩
  | grown hregion hfixed halloc hattach =>
    obtain ⟨hroot, hrep⟩ := hs.parent_of_not_fixed hr hregion hfixed
    cases halloc with
    | @built region' region1 q d ret st1 st2 hregion' hq hmalloc hregion1 hcreate hret =>
      obtain rfl := Option.some.inj (hregion.symm.trans hregion')
      have hbound2 := (hbound.of_extends hattach.extends).of_extends (Store.extends_setRegion _ _ _)
      have hbound1 := hbound2.of_extends (Store.extends_opCreate hcreate)
      obtain ⟨F1, hs1, hev, hheld, hq1, -⟩ := hs.issued hr hrep hroot hparent hsize hq hmalloc
        hregion1 (hbound1.of_extends (Store.extends_setBuff _ _ _))
      obtain ⟨hmin, hle, -⟩ := hrep.le_buffSize hroot size
      have hr1 : r ∈ F1.regions := by rw [hev.regions]; exact hr
      refine ⟨F1.attach q r _ _, hs1.attach (by rw [hheld]; exact List.mem_cons_self) hr1 hq1
        hregion1 hmin hle hcreate hattach, ⟨hev.root, hev.regions, hev.ancestors⟩, ?_⟩
      show F1.held.erase _ = F.held
      rw [hheld, List.erase_cons_head]

/-- The buffer that a region grows by for a request serves the request. -/
theorem Sim.grow_retry (hs : Sim heapType heapRep st F) (hr : r ∈ F.regions)
    (hparent : ParentAnswers heapType heapRep F r parentMalloc) {n : ℕ} (hpos : 0 < n)
    (hn : n < 2 ^ 62)
    (h : GrowCases (shallocSpaceBuffOps other) parentMalloc r (shallocBuffAllocSize n) st 0 st')
    (hbound : Bounded st'.trace) {region : Region} {t : ℕ}
    (hregion : st'.regions r = some region) (htail : region.dataTail = some t) :
    ∃ p st1, st'.opMalloc (shallocSpaceBuffOps other) t n = some (some p, st1) := by
  have htwice := two_mul_le_shallocBuffAllocSize hn
  have hsize := shallocBuffAllocSize_lt hn
  cases h with
  | @grown region0 d st3 st4 hregion0 hfixed halloc hattach =>
    obtain ⟨hroot, hrep⟩ := hs.parent_of_not_fixed hr hregion0 hfixed
    cases halloc with
    | built hregion' hq hmalloc hregion1 hcreate hret =>
      obtain rfl := Option.some.inj (hregion0.symm.trans hregion')
      have hbound2 := (hbound.of_extends hattach.extends).of_extends (Store.extends_setRegion _ _ _)
      have hbound1 := hbound2.of_extends (Store.extends_opCreate hcreate)
      obtain ⟨F1, hs1, hev, hheld, hq1, -⟩ := hs.issued hr hrep hroot hparent hsize hq hmalloc
        hregion1 (hbound1.of_extends (Store.extends_setBuff _ _ _))
      obtain ⟨hmin, hle, hreq⟩ := hrep.le_buffSize hroot (shallocBuffAllocSize n)
      obtain ⟨header, hnext, hdrep, hatt⟩ := hs1.attached (by rw [hheld]; exact List.mem_cons_self)
        (by rw [hev.regions]; exact hr) hq1 hregion1 (hmin.trans hle) hcreate hattach
      -- the tail is the new buffer, with its allocator as it was set up
      obtain ⟨head, hregions, -⟩ := hatt.region
      rw [hregions, Function.update_self] at hregion
      obtain rfl := Option.some.inj hregion
      obtain rfl := Option.some.inj htail
      have hbuff := hatt.data _ (Function.update_self ..)
      obtain ⟨header', heq, hcall⟩ := hdrep.malloc hpos hn
      obtain rfl := AllocState.nofree.inj heq
      have hcell : st'.cells (d + sizeofBuff) = .nofree header := by
        rw [hatt.cells]
        exact Function.update_self ..
      obtain ⟨-, hmalloc⟩ | ⟨hfull, -⟩ := hcall
      · rw [← hcell] at hmalloc
        exact ⟨_, _, Store.opMalloc_eq_some.mpr ⟨_, _, hbuff, hmalloc, rfl⟩⟩
      · -- the header and the rounded request fit the larger of the minimum and 2.1 times `n`
        have hround := nofreeRound_eq n
        have hfull' : d + 64 + region0.buffSize (shallocBuffAllocSize n) <
            d + 64 + 24 + nofreeRound n := by
          rw [hnext] at hfull
          exact hfull
        have hmin' : 1024 ≤ region0.grownSize := hmin
        omega

end Grow

section Serve

include hheap

/-- The buffer of the region that is asked answers as its `malloc` does. -/
def AskAnswers (heapType : BuffAllocType)
    (heapRep : Buff → List Extent → AllocState ρ → Prop) (r n : ℕ)
    (ask : ℕ → Store (AllocState ρ) → Option (Option ℕ × Store (AllocState ρ))) : Prop :=
  AnswerExtends ask ∧ ∀ {F b st st' p}, Sim heapType heapRep st F → F.Node (r, b) →
    ask b st = some (p, st') → Sim heapType heapRep st' (p.elim F fun q => F.issue r b ⟨q, n⟩)

variable {r n : ℕ} {p : Option ℕ}
  {parentMalloc ask : ℕ → Store (AllocState ρ) → Option (Option ℕ × Store (AllocState ρ))}

omit hheap in
theorem Sim.node_of_tail (hs : Sim heapType heapRep st F) (hr : r ∈ F.regions) {region : Region}
    {t : ℕ} (hregion : st.regions r = some region) (ht : region.dataTail = some t) :
    F.Node (r, t) := by
  obtain ⟨region', hregion', hrep⟩ := hs.region r hr
  obtain rfl := Option.some.inj (hregion.symm.trans hregion')
  exact ⟨hr, hrep.linked.tail_mem ht⟩

omit hheap in
theorem TailRefuses.sim (h : TailRefuses ask r st st') (hs : Sim heapType heapRep st F)
    (hr : r ∈ F.regions) (hask : AskAnswers heapType heapRep r n ask) :
    Sim heapType heapRep st' F := by
  cases h with
  | empty => exact hs
  | refused hregion ht h => exact hask.2 hs (hs.node_of_tail hr hregion ht) h

omit hheap in
/-- The common body of `shalloc_malloc` and `shalloc_calloc`. -/
theorem Sim.serve (hs : Sim heapType heapRep st F) (hr : r ∈ F.regions)
    (hparent : ParentAnswers heapType heapRep F r parentMalloc)
    (hask : AskAnswers heapType heapRep r n ask) (hn : n < 2 ^ 62)
    (h : ServeCases (shallocSpaceBuffOps other) parentMalloc ask r n st p st')
    (hbound : Bounded st'.trace) : Answers heapType heapRep r n p st' F := by
  cases h with
  | @served region t q st1 hregion ht h =>
    exact ⟨F.issue r t ⟨q, n⟩, hask.2 hs (hs.node_of_tail hr hregion ht) h, ⟨rfl, rfl, rfl⟩, rfl⟩
  | notGrown hrefuse hgrow =>
    exact (hrefuse.sim hs hr hask).grow hr hparent (shallocBuffAllocSize_lt hn) hgrow hbound
  | @retried region t p st1 st2 st3 hrefuse hgrow hregion ht h =>
    obtain ⟨F', hs', hev, hheld⟩ := (hrefuse.sim hs hr hask).grow hr hparent
      (shallocBuffAllocSize_lt hn)
      hgrow (hbound.of_extends (hask.1 h))
    have hr' : r ∈ F'.regions := by rw [hev.regions]; exact hr
    have hs'' := hask.2 hs' (hs'.node_of_tail hr' hregion ht) h
    cases p with
    | none => exact ⟨F', hs'', hev, hheld⟩
    | some q =>
      exact ⟨F'.issue r t ⟨q, n⟩, hs'', ⟨hev.root, hev.regions, hev.ancestors⟩, by
        show (r, _) :: F'.held = (r, _) :: F.held
        rw [hheld]⟩

/-- `op->malloc` of a buffer of the region answers the request. -/
theorem askAnswers_opMalloc (hpos : 0 < n) (hn : n < 2 ^ 62) :
    AskAnswers heapType heapRep r n
      fun t st => st.opMalloc (shallocSpaceBuffOps other) t n :=
  ⟨Store.extends_opMalloc, fun hs hnode h => hs.opMalloc hheap hnode hpos hn h⟩

/-- `shalloc_malloc` on a region of the tree, by induction on its path to the root. -/
theorem Sim.malloc (path : List ℕ) : ∀ {st st' F r n p}, Sim heapType heapRep st F →
    r ∈ F.regions → path = r :: F.ancestors r →
    shallocMalloc (shallocSpaceBuffOps other) path n st = some (p, st') → Bounded st'.trace →
    n < 2 ^ 62 ∧ Answers heapType heapRep r n p st' F := by
  induction path with
  | nil => exact fun _ _ hpath => absurd hpath (by simp)
  | cons c ancestors ih =>
    intro st st' F r n p hs hr hpath h hbound
    obtain ⟨rfl, rfl⟩ := List.cons.inj hpath
    have hn : n < 2 ^ 62 := hbound _ ((shallocMalloc_request h).subset List.mem_cons_self)
    refine ⟨hn, ?_⟩
    have hlog : Sim heapType heapRep (st.log (.request c n)) F :=
      hs.log fun b => liveBlocks_request _ _ _ _
    obtain ⟨-, rfl, rfl⟩ | ⟨hpos, hserve⟩ := shallocMalloc_cases h
    · exact ⟨F, hlog, .refl F, rfl⟩
    · refine hlog.serve hr ?_ (askAnswers_opMalloc hheap hpos hn) hn hserve hbound
      -- the parent is the next region on the path
      intro q hq st1 st2 m p1 hs1 hmalloc hbound1
      obtain ⟨hq', heq⟩ := hs.ok.parent_eq hr hq
      exact ih hs1 hq' heq hmalloc hbound1

/-- The parent of a region of the tree answers the requests of the region. -/
theorem Sim.parentAnswers (hs : Sim heapType heapRep st F) (hr : r ∈ F.regions) :
    ParentAnswers heapType heapRep F r
      (shallocMalloc (shallocSpaceBuffOps other) (F.ancestors r)) := by
  intro q hq st1 st2 m p1 hs1 hmalloc hbound1
  obtain ⟨hq', heq⟩ := hs.ok.parent_eq hr hq
  exact Sim.malloc hheap _ hs1 hq' heq hmalloc hbound1

/-- `shalloc_calloc` on a region of the tree. -/
theorem Sim.calloc (hs : Sim heapType heapRep st F) (hr : r ∈ F.regions) {nmemb size : ℕ}
    (h : shallocCalloc (shallocSpaceBuffOps other) (r :: F.ancestors r) nmemb size st =
      some (p, st')) (hbound : Bounded st'.trace) :
    Answers heapType heapRep r (Word.wrap 64 (nmemb * size)) p st' F := by
  have hlog : Sim heapType heapRep
      (st.log (.request r (Word.wrap 64 (nmemb * size)))) F :=
    hs.log fun b => liveBlocks_request _ _ _ _
  obtain ⟨-, rfl, rfl⟩ | ⟨hpos, hserve⟩ := shallocCalloc_cases h
  · exact ⟨F, hlog, .refl F, rfl⟩
  · have hn : Word.wrap 64 (nmemb * size) < 2 ^ 62 :=
      hbound _ ((hserve.extends (shallocMalloc_extends _) Store.extends_opCalloc).subset
        List.mem_cons_self)
    have hcomm : Word.wrap 64 (size * nmemb) = Word.wrap 64 (nmemb * size) := by
      rw [Nat.mul_comm]
    have hask : AskAnswers heapType heapRep r (Word.wrap 64 (nmemb * size))
        fun t st => st.opCalloc (shallocSpaceBuffOps other) t nmemb size := by
      refine ⟨Store.extends_opCalloc, fun {F b st st' p} hs hnode h => ?_⟩
      have hsim := hs.opCalloc hheap hnode (by rw [hcomm]; exact hpos) (by rw [hcomm]; exact hn) h
      rwa [hcomm] at hsim
    exact hlog.serve hr (hlog.parentAnswers hheap hr) hask hn hserve hbound

/-- The blocks held after `shalloc_orealloc` of a held block. -/
def reallocHeld (r : ℕ) (e : Extent) (size oldSize : ℕ) (p : Option ℕ)
    (held : List (ℕ × Extent)) : List (ℕ × Extent) :=
  if size = 0 then held.erase (r, e)
  else if size ≤ oldSize then held
  else
    match p with
    | some q => (r, ⟨q, size⟩) :: held.erase (r, e)
    | none => held

/-- `shalloc_orealloc` of a block that a caller holds. -/
theorem Sim.orealloc (hs : Sim heapType heapRep st F) {e : Extent} (he : (r, e) ∈ F.held)
    {size oldSize : ℕ}
    (h : shallocOrealloc (shallocSpaceBuffOps other) (r :: F.ancestors r) (some e.ptr) size
      oldSize st = some (p, st')) (hbound : Bounded st'.trace) :
    ∃ F', Sim heapType heapRep st' F' ∧ Evolves F F' ∧
      F'.held = reallocHeld r e size oldSize p F.held := by
  have hr : r ∈ F.regions := by
    obtain ⟨n, hplaced⟩ := hs.ok.placed (.held r e) he
    obtain rfl := Option.some.inj hplaced.owner
    exact hplaced.node.1
  cases shallocOrealloc_cases h with
  | freed hzero hfree => simpa only [reallocHeld, if_pos hzero] using hs.free hheap he hfree
  | kept hpos hle =>
    exact ⟨F, hs, .refl F, by simp [reallocHeld, Nat.pos_iff_ne_zero.mp hpos, hle]⟩
  | refused hlt hmalloc =>
    obtain ⟨F', hs', hev, hheld⟩ := (Sim.malloc hheap _ hs hr rfl hmalloc hbound).2
    have hzero : size ≠ 0 := by omega
    refine ⟨F', hs', hev, hheld.trans ?_⟩
    simp [reallocHeld, issueHeld, Nat.not_le.mpr hlt, hzero]
  | @moved _ q st1 st2 hlt hmalloc hfree =>
    have hbound1 := (hbound.of_extends (shallocFree_cases hfree).extends).of_extends
      (Store.extends_log _ _)
    obtain ⟨F1, hs1, hev1, hheld1⟩ := (Sim.malloc hheap _ hs hr rfl hmalloc hbound1).2
    have hcopy : Sim heapType heapRep (st1.log (.copy q e.ptr oldSize)) F1 :=
      hs1.log fun b => liveBlocks_copy _ _ _ _ _
    have he1 : (r, e) ∈ F1.held := by
      rw [hheld1]
      exact List.mem_cons_of_mem _ he
    obtain ⟨F2, hs2, hev2, hheld2⟩ := hcopy.free hheap he1 hfree
    have hne : ((r, ⟨q, size⟩) : ℕ × Extent) ≠ (r, e) := by
      have hnodup := hs1.ok.held_nodup
      rw [hheld1] at hnodup
      rintro heq
      exact (List.nodup_cons.mp hnodup).1 (heq ▸ he)
    have hzero : size ≠ 0 := by omega
    refine ⟨F2, hs2, hev1.trans hev2, ?_⟩
    rw [hheld2, hheld1]
    simp [reallocHeld, issueHeld, Nat.not_le.mpr hlt, hzero, List.erase_cons_tail, hne]

/-- A region whose growth failed has no buffer: its record is given back. -/
theorem Sim.destroy_empty (hs : Sim heapType heapRep st F) {c q : ℕ} (hc : c ∈ F.regions)
    (hparent : (F.ancestors c).head? = some q) {heap : Option ℕ}
    (h : shallocRegionDestroy (shallocSpaceBuffOps other) 0 c st = some (heap, st')) :
    ∃ F', Sim heapType heapRep st' F' ∧ F'.root = F.root ∧ F'.regions = F.regions.erase c ∧
      F'.held = F.held := by
  obtain ⟨region, hregion, hhead, hfree⟩ := shallocRegionDestroy_empty h
  obtain ⟨region', hregion', hrep⟩ := hs.region c hc
  obtain rfl := Option.some.inj (hregion.symm.trans hregion')
  have hq : region.parent = some q := by
    rw [Region.parent, hrep.ancestors]
    exact hparent
  have hchain : F.chain c = [] := by
    have hlinked := hrep.linked.head
    rw [hhead] at hlinked
    exact hlinked.unique rfl
  have hok := hs.ok.abandon hc hparent hchain
  have herase : ∀ {r}, r ∈ F.regions.erase c → r ∈ F.regions := List.mem_of_mem_erase
  have hs' : Sim heapType heapRep st (F.abandon q c) := by
    refine ⟨hok, fun r hr => ?_, fun n hn => ?_, fun n hn => hs.trace n ⟨herase hn.1, hn.2⟩⟩
    · obtain ⟨region, hregion, hrep⟩ := hs.region r (herase hr)
      exact ⟨region, hregion, hrep.ancestors, hrep.linked, hrep.fixed, hrep.type, hrep.size⟩
    · obtain ⟨buff, hbuff, hrep⟩ := hs.buff n ⟨herase hn.1, hn.2⟩
      exact ⟨buff, hbuff, hrep.area, hrep.end_eq, hrep.small, hrep.rep⟩
  obtain ⟨hnone, -⟩ | ⟨q', hq', hfree⟩ := hfree
  · simp [hq] at hnone
  · obtain rfl := Option.some.inj (hq.symm.trans hq')
    obtain ⟨F', hs'', hev, hheld⟩ := hs'.free hheap List.mem_cons_self hfree
    refine ⟨F', hs'', hev.root, hev.regions, ?_⟩
    rw [hheld]
    exact List.erase_cons_head ..

section Create

variable {q initSize buffSize blockSize flags : ℕ} {type : BuffAllocType}

/-- The store after `shalloc_region_create` has written the record of the new region `c`. -/
def createdStore (F : Forest) (q c buffSize blockSize flags : ℕ) (type : BuffAllocType)
    (st : Store (AllocState ρ)) : Store (AllocState ρ) :=
  st.setRegion c (shallocGetRegion (q :: F.ancestors q) buffSize blockSize flags type)

/-- The forest has one more region, the child `c` of `q`. -/
structure Created (F : Forest) (q c : ℕ) (F' : Forest) : Prop where
  root : F'.root = F.root
  regions : F'.regions = c :: F.regions
  held : F'.held = F.held
  ancestors : F'.ancestors c = q :: F.ancestors q

/-- The first half of `shalloc_region_create`: the parent issues the record. -/
theorem Sim.create_record (hs : Sim heapType heapRep st F) (hq : q ∈ F.regions)
    (htype : type = .none ∨ type = .nofree) (hsize : buffSize < 2 ^ 48) {c : ℕ}
    (hmalloc : shallocMalloc (shallocSpaceBuffOps other) (q :: F.ancestors q) sizeofRegion st =
      some (some c, st')) (hbound : Bounded st'.trace) :
    ∃ F', Sim heapType heapRep (createdStore F q c buffSize blockSize flags type st') F' ∧
      Created F q c F' := by
  obtain ⟨F1, hs1, hev, hheld⟩ := (Sim.malloc hheap _ hs hq rfl hmalloc hbound).2
  have he : (q, ⟨c, sizeofRegion⟩) ∈ F1.held := by
    rw [hheld]
    exact List.mem_cons_self
  have hs2 : Sim heapType heapRep (createdStore F1 q c buffSize blockSize flags type st')
      (F1.adopt q c) := hs1.adopt he htype hsize
  rw [createdStore, hev.ancestors] at hs2
  refine ⟨F1.adopt q c, hs2, hev.root, ?_, ?_, ?_⟩
  · show c :: F1.regions = c :: F.regions
    rw [hev.regions]
  · show F1.held.erase _ = F.held
    rw [hheld, issueHeld, List.erase_cons_head]
  · show Function.update F1.ancestors c (q :: F1.ancestors q) c = _
    rw [Function.update_self, hev.ancestors]

/-- The second half of `shalloc_region_create`: the new region grows. -/
theorem Sim.create_grow {F' : Forest} {c : ℕ} {ret : ℤ} {st1 : Store (AllocState ρ)}
    (hs : Sim heapType heapRep st1 F') (hcreated : Created F q c F') (hinit : initSize < 2 ^ 48)
    (hgrow : GrowCases (shallocSpaceBuffOps other)
      (shallocMalloc (shallocSpaceBuffOps other) (q :: F.ancestors q)) c initSize st1 ret st')
    (hbound : Bounded st'.trace) :
    ∃ F'', Sim heapType heapRep st' F'' ∧ Created F q c F'' := by
  have hc : c ∈ F'.regions := by
    rw [hcreated.regions]
    exact List.mem_cons_self
  have hparent := hs.parentAnswers hheap hc
  rw [hcreated.ancestors] at hparent
  obtain ⟨F'', hs', hev, hheld⟩ := hs.grow hc hparent (by unfold sizeofBuff; omega) hgrow hbound
  exact ⟨F'', hs', hev.root.trans hcreated.root, hev.regions.trans hcreated.regions,
    hheld.trans hcreated.held, by rw [hev.ancestors]; exact hcreated.ancestors⟩

/-- `shalloc_region_create` under a region of the tree. -/
theorem Sim.create (hs : Sim heapType heapRep st F) (hq : q ∈ F.regions) {c : Option ℕ}
    (htype : type = .none ∨ type = .nofree) (hinit : initSize < 2 ^ 48)
    (hsize : buffSize < 2 ^ 48)
    (h : shallocRegionCreate (shallocSpaceBuffOps other) (q :: F.ancestors q) initSize buffSize
      blockSize flags type st = some (c, st')) (hbound : Bounded st'.trace) :
    ∃ F', Sim heapType heapRep st' F' ∧ F'.root = F.root ∧ F'.regions = c.toList ++ F.regions ∧
      F'.held = F.held := by
  cases shallocRegionCreate_cases h with
  | heapFlag => exact ⟨F, hs, rfl, rfl, rfl⟩
  | refused hmalloc =>
    obtain ⟨F1, hs1, hev, hheld⟩ := (Sim.malloc hheap _ hs hq rfl hmalloc hbound).2
    exact ⟨F1, hs1, hev.root, hev.regions, hheld⟩
  | empty hmalloc =>
    obtain ⟨F1, hs1, hcreated⟩ := hs.create_record hheap hq htype hsize hmalloc
      (hbound.of_extends (Store.extends_setRegion _ _ _))
    exact ⟨F1, hs1, hcreated.root, hcreated.regions, hcreated.held⟩
  | @notGrown c ret heap st1 st2 st3 hmalloc hpos hgrow hret hdestroy =>
    have hbound2 := hbound.of_extends (extends_destroy_empty hdestroy)
    have hbound1 := (hbound2.of_extends (hgrow.extends (shallocMalloc_extends _))).of_extends
      (Store.extends_setRegion _ _ _)
    obtain ⟨F1, hs1, hcreated1⟩ := hs.create_record hheap hq htype hsize hmalloc hbound1
    obtain ⟨F2, hs2, hcreated⟩ := hs1.create_grow hheap hcreated1 hinit hgrow hbound2
    have hc : c ∈ F2.regions := by
      rw [hcreated.regions]
      exact List.mem_cons_self
    obtain ⟨F3, hs3, hroot, hregions, hheld⟩ :=
      hs2.destroy_empty hheap hc (by rw [hcreated.ancestors]; rfl) hdestroy
    refine ⟨F3, hs3, hroot.trans hcreated.root, ?_, hheld.trans hcreated.held⟩
    rw [hregions, hcreated.regions, List.erase_cons_head]
    rfl
  | grown hmalloc hpos hgrow =>
    have hbound1 := (hbound.of_extends (hgrow.extends (shallocMalloc_extends _))).of_extends
      (Store.extends_setRegion _ _ _)
    obtain ⟨F1, hs1, hcreated1⟩ := hs.create_record hheap hq htype hsize hmalloc hbound1
    obtain ⟨F2, hs2, hcreated⟩ := hs1.create_grow hheap hcreated1 hinit hgrow hbound
    exact ⟨F2, hs2, hcreated.root, hcreated.regions, hcreated.held⟩

end Create

end Serve

end Shalloc
