import Shalloc.Runs.SlabAttach

/-!
# Serving the block size of a slab

A region of type SLAB keeps the block size that its caller has given, while `slab_init` works
with that size rounded up to `sizeof(long)`, and `slab_alloc` compares the size of a request
with the rounded one.

## Main definitions

- `OwnSizeRun` — the runs of `shalloc_malloc(region, block_size)` and `shalloc_free`
- `SlabBlock` — a block of the slab in the tail of the region
- `SlabServes` — the next request returns with such a block or with NULL

## Main results

- `slabRule` — what the calls keep of the buffers of the region
- `slab_serves_iff` — a request is served iff the parent comes back if it is asked, the block
  size is a multiple of 8 and the search of the tail ends
-/

namespace Shalloc

variable {ρ : Type} {ops : BuffAllocType → BuffOp (AllocState ρ)}
  {st st' st1 : Store (AllocState ρ)}
  {path : List ℕ} {top limit k b r t : ℕ} {inv : List Extent → Store (AllocState ρ) → Prop}
  {region : Region} {chain held : List ℕ} {data : Buff} {header : SlabHeader}

/-- The buffers that the region adds are slabs with the block size `b`, and the size of the
next one does not wrap. -/
structure SlabDefault (b _growths : ℕ) (region : Region) : Prop where
  allocType : region.defaultData.allocType = .slab
  blockSize : region.defaultData.blockSize = b
  fits : GrownFits region

/-- A buffer of the region, with its slab in use if `slab_init` accepts its sizes. -/
structure SlabBuff (b : ℕ) (_e : Extent) (data : Buff) (_live : List Extent) (a : AllocState ρ) :
    Prop where
  allocType : data.allocType = .slab
  blockSize : data.blockSize = b
  inUse : SlabFits data.size b → ∃ header, a = .slab header ∧ SlabOk data.start data.size b header

/-- The slab in buffer `t`. -/
structure SlabAt (b t : ℕ) (st : Store (AllocState ρ)) (data : Buff) (header : SlabHeader) :
    Prop where
  buff : st.buffs t = some data
  allocType : data.allocType = .slab
  cell : st.cells data.start = .slab header
  ok : SlabOk data.start data.size b header

/-- Calls on a region since `shalloc_region_create` has returned it, with the pointers that
callers hold: requests for its block size, and frees of the pointers held. The region asks its
parent for less than `limit` bytes at a time. -/
inductive OwnSizeRun (ops : BuffAllocType → BuffOp (AllocState ρ)) (path : List ℕ) (limit : ℕ)
    (inv : List Extent → Store (AllocState ρ) → Prop) (b r : ℕ) :
    Store (AllocState ρ) → List ℕ → Prop
  | create {initSize buffSize flags : ℕ} {blocks : List Extent} {st st' : Store (AllocState ρ)} :
      inv blocks st → SlabDefault b 0 (shallocGetRegion path buffSize b flags .slab) →
      sizeofBuff + initSize < 2 ^ 64 →
      (shallocGetRegion path buffSize b flags .slab).request initSize < limit →
      shallocRegionCreate ops path initSize buffSize b flags .slab st = some (some r, st') →
      OwnSizeRun ops path limit inv b r st' []
  | malloc {p : Option ℕ} {st st' : Store (AllocState ρ)} {held : List ℕ} :
      OwnSizeRun ops path limit inv b r st held →
      AsksBelow limit r (shallocBuffAllocSize b) st →
      shallocMalloc ops (r :: path) b st = some (p, st') →
      OwnSizeRun ops path limit inv b r st' (p.toList ++ held)
  | free {p : ℕ} {st st' : Store (AllocState ρ)} {held : List ℕ} :
      OwnSizeRun ops path limit inv b r st held → p ∈ held → shallocFree ops r p st = some st' →
      OwnSizeRun ops path limit inv b r st' (held.filter (· ≠ p))

/-- The answer of buffer `t` to a request for `b` bytes. -/
def slabAsk (ops : BuffAllocType → BuffOp (AllocState ρ)) (b t : ℕ) (st : Store (AllocState ρ)) :
    Option (Option ℕ × Store (AllocState ρ)) := st.opMalloc ops t b

/-- What the region asks its parent for when no buffer has served a request for `b` bytes. -/
def slabRequest (region : Region) (b : ℕ) : ℕ :=
  region.request (shallocBuffAllocSize b)

/-- The region has a buffer and may not add to it. -/
def IsFixed (region : Region) : Prop :=
  region.dataTail.isSome ∧ hasFlag region.flags .nonResizable

/-- `slab_init` accepts the sizes of the buffers that the next request asks: those of the tail,
and of the buffer that the region grows by. -/
structure SlabAccepted (ops : BuffAllocType → BuffOp (AllocState ρ)) (path : List ℕ) (b r : ℕ)
    (st : Store (AllocState ρ)) : Prop where
  tail : ∀ {region t data}, st.regions r = some region → region.dataTail = some t →
    st.buffs t = some data → SlabFits data.size b
  grown : ∀ {region d st1 st2}, st.regions r = some region → ¬ IsFixed region →
    TailRefuses (slabAsk ops b) r (st.log (.request r b)) st1 →
    shallocMalloc ops path (slabRequest region b) st1 = some (some d, st2) →
    NewSlabFits region d (shallocBuffAllocSize b)

/-- The parent returns if the next request has to ask it for a buffer. -/
def ParentReturns (ops : BuffAllocType → BuffOp (AllocState ρ)) (path : List ℕ) (b r : ℕ)
    (st : Store (AllocState ρ)) : Prop :=
  ∀ region st1, st.regions r = some region → ¬ IsFixed region →
    TailRefuses (slabAsk ops b) r (st.log (.request r b)) st1 →
    ∃ p st2, shallocMalloc ops path (slabRequest region b) st1 = some (p, st2)

/-- Block `p` of the slab in the tail of the region, of at least `b` bytes. -/
def SlabBlock (b r p : ℕ) (st : Store (AllocState ρ)) : Prop :=
  ∃ region t data header i, st.regions r = some region ∧ region.dataTail = some t ∧
    SlabAt b t st data header ∧ i < header.numBlocks ∧ header.bits i = 1 ∧
    p = header.address i ∧ b ≤ header.blockSize

/-- `shalloc_malloc(region, block_size)` returns, with a block or with NULL. -/
def SlabServes (ops : BuffAllocType → BuffOp (AllocState ρ)) (path : List ℕ) (b r : ℕ)
    (st : Store (AllocState ρ)) : Prop :=
  ∃ p st', shallocMalloc ops (r :: path) b st = some (p, st') ∧ ∀ q ∈ p, SlabBlock b r q st'

/-- The search of the slab in the tail ends, if there is a tail. -/
def TailSearchEnds (r : ℕ) (st : Store (AllocState ρ)) : Prop :=
  ∀ region t data header, st.regions r = some region → region.dataTail = some t →
    st.buffs t = some data → st.cells data.start = .slab header → SlabSearchEnds header

/-- The region has no buffer, and its parent has none for it. -/
def NoSlab (ops : BuffAllocType → BuffOp (AllocState ρ)) (path : List ℕ) (b r : ℕ)
    (st : Store (AllocState ρ)) : Prop :=
  ∃ region st1, st.regions r = some region ∧ region.dataTail = none ∧
    shallocMalloc ops path (slabRequest region b) (st.log (.request r b)) = some (none, st1)

/-- A buffer that `_slab_create` has set up. -/
theorem slabCreate_inUse {a a' : AllocState ρ} {ret : ℤ}
    (hcreate : slabCreate data a = some (ret, a')) (hblock : data.blockSize = b)
    (hfits : SlabFits data.size b) :
    ∃ header, a' = .slab header ∧ SlabOk data.start data.size b header := by
  subst hblock
  obtain ⟨raw, header, hinit, hcreate'⟩ := slabCreate_fits a hfits
  obtain ⟨-, rfl⟩ := Prod.mk.inj (Option.some.inj (hcreate.symm.trans hcreate'))
  exact ⟨header, rfl, (slabInit_ok hinit).1⟩

/-- The rule for the buffers of a region of slabs. -/
theorem slabRule (htop : top ≤ 2 ^ 52) (hops : ops .slab = slabOps) :
    RegionRule ops top (SlabDefault b) (SlabBuff b) (fun _ _ => True) where
  top_le := le_trans htop (by decide)
  link h := ⟨h.allocType, h.blockSize, h.fits.lower, h.fits.upper⟩
  room h hsize := (h.fits.buffSize (by unfold sizeofBuff; omega)).2
  grown h _ _ hroom :=
    ⟨h.allocType, h.blockSize, h.fits.grown (le_trans htop (by decide)) hroom⟩
  created := by
    intro k region size d a ret a' h _ _ _ hcreate _
    have htype : (region.cloneBuff d (region.buffSize size)).allocType = .slab :=
      (region.cloneBuff_allocType d _).trans h.allocType
    rw [h.allocType, hops] at hcreate
    exact ⟨htype, h.blockSize, slabCreate_inUse hcreate h.blockSize⟩
  next _ h := ⟨h.allocType, h.blockSize, h.inUse⟩
  malloc := by
    intro e data live a n p a' h _ _ hcall
    refine ⟨h.allocType, h.blockSize, fun hfits => ?_⟩
    obtain ⟨header, rfl, hok⟩ := h.inUse hfits
    rw [h.allocType, hops] at hcall
    obtain ⟨⟨q, header'⟩, halloc, hres⟩ := Option.bind_eq_some_iff.mp hcall
    obtain ⟨-, rfl⟩ := Prod.mk.inj (Option.some.inj hres)
    exact ⟨header', rfl, slabAlloc_ok hok halloc⟩
  free := by
    intro e data live a p a' h _ hcall
    refine ⟨h.allocType, h.blockSize, fun hfits => ?_⟩
    obtain ⟨header, rfl, hok⟩ := h.inUse hfits
    rw [h.allocType, hops] at hcall
    obtain ⟨header', hfree, rfl⟩ := Option.map_eq_some_iff.mp hcall
    exact ⟨header', rfl, slabFree_ok hok hfree⟩
  renew := by
    intro e data live a ret a' a'' h _ hcreate _
    rw [h.allocType, hops] at hcreate
    exact ⟨h.allocType, h.blockSize, slabCreate_inUse hcreate h.blockSize⟩

/-- A tail that refuses a request leaves the record of its region alone. -/
theorem TailRefuses.slab_regions (h : TailRefuses (slabAsk ops b) r st st1) :
    st1.regions r = st.regions r := by
  cases h with
  | empty => rfl
  | refused _ _ hask => rw [(Store.opMalloc_frame hask).1]

/-- Every run keeps the buffers of the region. -/
theorem ownSizeRun_kept (htop : top ≤ 2 ^ 52) (hops : ops .slab = slabOps)
    (hparent : SoundParent ops path top limit inv) (hb : b < 2 ^ 48)
    (run : OwnSizeRun ops path limit inv b r st held) :
    ∃ k chain, RegionKept path inv (SlabDefault b) (SlabBuff b) k r st chain := by
  have rule : RegionRule ops top (SlabDefault b) (SlabBuff b) (fun _ _ => True) :=
    slabRule htop hops
  induction run with
  | @create initSize buffSize flags _ _ _ hinv hdefault hinit hbelow hcreate =>
    have hroom : sizeofBuff +
        (shallocGetRegion path buffSize b flags .slab).buffSize initSize < 2 ^ 64 :=
      (hdefault.fits.buffSize hinit).2
    have hsize := hparent.create_size hinv htop hroom hbelow hcreate
    exact ⟨_, _, hparent.create hinv hdefault rule hsize hbelow hcreate⟩
  | malloc _ hbelow hcall ih =>
    obtain ⟨k, chain, h⟩ := ih
    exact ⟨_, _, h.malloc hparent rule hb hbelow hcall⟩
  | free _ _ hcall ih =>
    obtain ⟨k, chain, h⟩ := ih
    exact ⟨k, chain, h.free hparent rule (fun _ _ _ _ _ _ _ => trivial) hcall⟩

section Ask

variable (hops : ops .slab = slabOps) (h : SlabAt b t st data header)
include hops h

/-- The tail answers a request for the block size of its caller iff rounding leaves that size
alone, and its search ends. -/
theorem SlabAt.ask_iff (hb : b < 2 ^ 28) :
    (∃ p st', slabAsk ops b t st = some (p, st')) ↔ 8 ∣ b ∧ SlabSearchEnds header := by
  rw [← slabRoundBlockSize_eq_iff (by omega), ← h.ok.blockSize_eq, ← slabAlloc_returns_iff h.ok]
  constructor
  · rintro ⟨p, st', hcall⟩
    obtain ⟨data', a, hdata, hop, -⟩ := Store.opMalloc_eq_some.mp hcall
    obtain rfl := Option.some.inj (h.buff.symm.trans hdata)
    rw [h.allocType, hops, h.cell] at hop
    obtain ⟨⟨q, header'⟩, halloc, -⟩ := Option.bind_eq_some_iff.mp hop
    exact ⟨q, header', halloc⟩
  · rintro ⟨p, header', halloc⟩
    refine ⟨p, _, Store.opMalloc_eq_some.mpr ⟨data, .slab header', h.buff, ?_, rfl⟩⟩
    rw [h.allocType, hops, h.cell]
    exact Option.bind_eq_some_iff.mpr ⟨_, halloc, rfl⟩

/-- What the tail answers is a block of it. -/
theorem SlabAt.ask_block {p : ℕ} (hregion : st.regions r = some region)
    (ht : region.dataTail = some t) (hcall : slabAsk ops b t st = some (some p, st')) :
    SlabBlock b r p st' := by
  obtain ⟨data', a, hdata, hop, rfl⟩ := Store.opMalloc_eq_some.mp hcall
  obtain rfl := Option.some.inj (h.buff.symm.trans hdata)
  rw [h.allocType, hops, h.cell] at hop
  obtain ⟨⟨q, header'⟩, halloc, hres⟩ := Option.bind_eq_some_iff.mp hop
  obtain ⟨rfl, rfl⟩ := Prod.mk.inj (Option.some.inj hres)
  obtain ⟨i, hi, -, rfl, rfl⟩ := slabAlloc_some h.ok halloc
  have hsize : b = header.blockSize := by
    by_contra hne
    rw [slabAlloc, if_pos hne] at halloc
    exact absurd halloc (by simp)
  exact ⟨region, t, data, _, i, hregion, ht,
    ⟨h.buff, h.allocType, Function.update_self .., slabAlloc_ok h.ok halloc⟩,
    lt_of_lt_of_le hi (min_le_left _ _), Function.update_self .., rfl, Nat.le_of_eq hsize⟩

end Ask

/-- The slab in a buffer of the chain. -/
theorem RegionInv.slabAt {J : ℕ → Region → Prop} {blocks : List Extent}
    (h : RegionInv path inv J (SlabBuff b) k r st region chain blocks)
    (ht : t ∈ chain) (hdata : st.buffs t = some data) (hfits : SlabFits data.size b) :
    ∃ header, SlabAt b t st data header := by
  obtain ⟨e, data', -, -, -, hdata', -, hQ⟩ := h.buffs t ht
  obtain rfl := Option.some.inj (hdata.symm.trans hdata')
  obtain ⟨header, hcell, hok⟩ := hQ.inUse hfits
  exact ⟨header, hdata, hQ.allocType, hcell, hok⟩

/-- The slab that a growth has attached answers the next request. -/
theorem RegionKept.slabAttached {J : ℕ → Region → Prop}
    (h : RegionKept path inv J (SlabBuff b) k r st chain) (hattached : SlabAttached r st) :
    ∃ region t data header, st.regions r = some region ∧ region.dataTail = some t ∧
      SlabAt b t st data header ∧ SlabSearchEnds header := by
  obtain ⟨region, t, data, raw, header, hregion, ht, hdata, hinit, hcell, -, -, hblocks⟩ :=
    hattached
  obtain ⟨region', blocks, h⟩ := h
  obtain rfl := Option.some.inj (h.record.symm.trans hregion)
  obtain ⟨e, data', -, -, -, hdata', -, hQ⟩ :=
    h.buffs t (h.linked.tail_mem ht)
  obtain rfl := Option.some.inj (hdata.symm.trans hdata')
  obtain ⟨hok, hbits, -⟩ := slabInit_ok hinit
  rw [hQ.blockSize] at hok
  exact ⟨region', t, data, header, hregion, ht, ⟨hdata, hQ.allocType, hcell, hok⟩,
    Or.inr ⟨0, Nat.two_pow_pos 32, hbits 0 hblocks⟩⟩

section Serve

variable (htop : top ≤ 2 ^ 52) (hops : ops .slab = slabOps)
  (hparent : SoundParent ops path top limit inv)
  (hpos : 0 < b) (hb : b < 2 ^ 28)
include htop hops hparent hpos hb

omit htop hops hparent hb in
/-- The body of `shalloc_malloc(region, block_size)`. -/
theorem shallocMalloc_slab : shallocMalloc ops (r :: path) b st =
    shallocServe ops (shallocMalloc ops path) (slabAsk ops b) r b (st.log (.request r b)) :=
  if_neg (Nat.pos_iff_ne_zero.mp hpos)

omit htop hops hparent in
/-- A request that the tail has refused returns NULL if the region may not grow, or its parent
has no block for it. -/
theorem RegionKept.slabNone {J : ℕ → Region → Prop}
    {Q : Extent → Buff → List Extent → AllocState ρ → Prop}
    (h : RegionKept path inv J Q k r st1 chain) (hregion : st1.regions r = some region)
    (hrefuses : TailRefuses (slabAsk ops b) r (st.log (.request r b)) st1)
    (hnone : IsFixed region ∨
      ∃ st2, shallocMalloc ops path (slabRequest region b) st1 = some (none, st2)) :
    ∃ st2, shallocMalloc ops (r :: path) b st = some (none, st2) := by
  obtain ⟨hpos', -⟩ := shallocBuffAllocSize_bounds hpos (by omega)
  rw [shallocMalloc_slab hpos]
  by_cases hfixed : IsFixed region
  · exact ⟨st1, hrefuses.serve_failed (shallocRegionGrow_fixed hpos' hregion hfixed) (by decide)⟩
  · obtain ⟨st2, hmalloc⟩ := hnone.resolve_left hfixed
    obtain ⟨region', blocks, h⟩ := h
    obtain rfl := Option.some.inj (h.record.symm.trans hregion)
    obtain ⟨P, hP⟩ := shallocMalloc_path hmalloc
    exact ⟨st2, hrefuses.serve_failed (shallocRegionGrow_refused hpos' hregion hfixed
      (h.parent_eq.trans hP) hmalloc) (by decide)⟩

/-- A request that the tail has refused goes to a new slab otherwise. -/
theorem RegionKept.slabNew {d : ℕ} {st2 : Store (AllocState ρ)}
    (h : RegionKept path inv (SlabDefault b) (SlabBuff b) k r st1 chain)
    (hregion : st1.regions r = some region)
    (hrefuses : TailRefuses (slabAsk ops b) r (st.log (.request r b)) st1)
    (hfree : ¬ IsFixed region) (hbelow : AsksBelow limit r (shallocBuffAllocSize b) st1)
    (hmalloc : shallocMalloc ops path (slabRequest region b) st1 = some (some d, st2))
    (hfits : NewSlabFits region d (shallocBuffAllocSize b)) :
    ∃ region' t data header st3, st3.regions r = some region' ∧ region'.dataTail = some t ∧
      SlabAt b t st3 data header ∧ SlabSearchEnds header ∧
      shallocMalloc ops (r :: path) b st = slabAsk ops b t st3 := by
  obtain ⟨hpos', hsize⟩ := shallocBuffAllocSize_bounds hpos (by omega)
  have hkept := h
  obtain ⟨region', blocks, h⟩ := h
  obtain rfl := Option.some.inj (h.record.symm.trans hregion)
  obtain ⟨st3, hgrow, hattached⟩ :=
    h.slabGrow hparent hops h.property.allocType hfree (hbelow _ h.record) hmalloc hpos' hfits
  have hkept3 := hkept.grow hparent (slabRule htop hops) hpos' hsize hbelow
    (shallocRegionGrow_cases hgrow)
  obtain ⟨region3, t, data, header, hregion3, ht3, hat, hends⟩ := hkept3.slabAttached hattached
  refine ⟨region3, t, data, header, st3, hregion3, ht3, hat, hends, ?_⟩
  rw [shallocMalloc_slab hpos]
  exact hrefuses.serve_grown hgrow hregion3 ht3

/-- A request that the tail has refused is served if the block size is a multiple of 8. -/
theorem RegionKept.slabServes (h : RegionKept path inv (SlabDefault b) (SlabBuff b) k r st1 chain)
    (hregion : st1.regions r = some region)
    (hrefuses : TailRefuses (slabAsk ops b) r (st.log (.request r b)) st1)
    (hbelow : AsksBelow limit r (shallocBuffAllocSize b) st1)
    (hgrown : ¬ IsFixed region → ∀ {d st2},
      shallocMalloc ops path (slabRequest region b) st1 = some (some d, st2) →
      NewSlabFits region d (shallocBuffAllocSize b))
    (hreturns : ¬ IsFixed region →
      ∃ p st2, shallocMalloc ops path (slabRequest region b) st1 = some (p, st2))
    (hdvd : 8 ∣ b) : SlabServes ops path b r st := by
  have hnull : (∃ st2, shallocMalloc ops (r :: path) b st = some (none, st2)) →
      SlabServes ops path b r st := by
    rintro ⟨st2, hnone⟩
    exact ⟨none, st2, hnone, fun q hq => absurd hq (by simp)⟩
  by_cases hfixed : IsFixed region
  · exact hnull (h.slabNone hpos hb hregion hrefuses (Or.inl hfixed))
  · obtain ⟨p, st2, hmalloc⟩ := hreturns hfixed
    cases p with
    | none => exact hnull (h.slabNone hpos hb hregion hrefuses (Or.inr ⟨st2, hmalloc⟩))
    | some d =>
      obtain ⟨region', t, data, header, st3, hregion3, ht3, hat, hends, heq⟩ :=
        h.slabNew htop hops hparent hpos hb hregion hrefuses hfixed hbelow hmalloc
          (hgrown hfixed hmalloc)
      obtain ⟨q, st4, hask⟩ := (hat.ask_iff hops hb).mpr ⟨hdvd, hends⟩
      refine ⟨q, st4, heq.trans hask, fun p hp => ?_⟩
      obtain rfl := Option.mem_def.mp hp
      exact hat.ask_block hops hregion3 ht3 hask

omit htop hops hparent hb in
/-- A request comes back only if the parent does when it is asked. -/
theorem SlabServes.parentReturns (h : SlabServes ops path b r st) :
    ParentReturns ops path b r st := by
  obtain ⟨p, st', hcall, -⟩ := h
  intro region st1 hregion hfree hrefuses
  rw [shallocMalloc_slab hpos] at hcall
  obtain ⟨ret, st2, hgrow⟩ := hrefuses.grows hcall
  exact (shallocRegionGrow_cases hgrow).asked (hrefuses.slab_regions.trans hregion) hfree

/-- The first request of a region without a buffer. -/
theorem RegionKept.slabServes_empty
    (h : RegionKept path inv (SlabDefault b) (SlabBuff b) k r (st.log (.request r b)) chain)
    (hregion : st.regions r = some region) (ht : region.dataTail = none)
    (hbelow : AsksBelow limit r (shallocBuffAllocSize b) st)
    (haccepted : SlabAccepted ops path b r st) (hreturns : ParentReturns ops path b r st) :
    SlabServes ops path b r st ↔ 8 ∣ b ∨ NoSlab ops path b r st := by
  have hrefuses : TailRefuses (slabAsk ops b) r (st.log (.request r b)) (st.log (.request r b)) :=
    .empty hregion ht
  have hfree : ¬ IsFixed region := by
    rintro ⟨hsome, -⟩
    rw [ht] at hsome
    exact absurd hsome (by simp)
  constructor
  · rintro ⟨p, st', hcall, -⟩
    obtain ⟨q, st2, hmalloc⟩ := hreturns region _ hregion hfree hrefuses
    cases q with
    | none => exact Or.inr ⟨region, st2, hregion, ht, hmalloc⟩
    | some d =>
      obtain ⟨-, t, data, header, st3, -, -, hat, -, heq⟩ :=
        h.slabNew htop hops hparent hpos hb hregion hrefuses hfree (hbelow.log _) hmalloc
          (haccepted.grown hregion hfree hrefuses hmalloc)
      exact Or.inl ((hat.ask_iff hops hb).mp ⟨p, st', heq.symm.trans hcall⟩).1
  · rintro (hdvd | ⟨region', st2, hregion', -, hmalloc⟩)
    · exact h.slabServes htop hops hparent hpos hb hregion hrefuses (hbelow.log _)
        (fun hfree => haccepted.grown hregion hfree hrefuses)
        (fun hfree => hreturns region _ hregion hfree hrefuses) hdvd
    · obtain rfl := Option.some.inj (hregion.symm.trans hregion')
      obtain ⟨st3, hnone⟩ := h.slabNone hpos hb hregion hrefuses (Or.inr ⟨st2, hmalloc⟩)
      exact ⟨none, st3, hnone, fun q hq => absurd hq (by simp)⟩

/-- A request of a region with a slab in its tail. -/
theorem RegionKept.slabServes_tail
    (h : RegionKept path inv (SlabDefault b) (SlabBuff b) k r (st.log (.request r b)) chain)
    (hregion : (st.log (.request r b)).regions r = some region) (ht : region.dataTail = some t)
    (hat : SlabAt b t (st.log (.request r b)) data header)
    (hbelow : AsksBelow limit r (shallocBuffAllocSize b) st)
    (haccepted : SlabAccepted ops path b r st) (hreturns : ParentReturns ops path b r st) :
    SlabServes ops path b r st ↔ 8 ∣ b ∧ SlabSearchEnds header := by
  rw [← hat.ask_iff hops hb]
  constructor
  · rintro ⟨p, st', hcall, -⟩
    rw [shallocMalloc_slab hpos] at hcall
    cases hask : slabAsk ops b t (st.log (.request r b)) with
    | none =>
      rw [shallocServe_stuck hregion ht hask] at hcall
      exact absurd hcall (by simp)
    | some answer => exact ⟨_, _, rfl⟩
  · rintro ⟨p, st1, hask⟩
    cases p with
    | some q =>
      refine ⟨some q, st1, ?_, fun p hp => ?_⟩
      · rw [shallocMalloc_slab hpos]
        exact shallocServe_served hregion ht hask
      · obtain rfl := Option.some.inj hp
        exact hat.ask_block hops hregion ht hask
    | none =>
      have hrefuses : TailRefuses (slabAsk ops b) r (st.log (.request r b)) st1 :=
        .refused hregion ht hask
      have hsame : st1.regions r = st.regions r := hrefuses.slab_regions
      have hregion1 : st1.regions r = some region := hsame.trans hregion
      have h1 := h.opMalloc hparent (slabRule htop hops) hpos
        (lt_trans hb (by decide)) hregion ht hask
      have hdvd := ((hat.ask_iff hops hb).mp ⟨none, st1, hask⟩).1
      exact h1.slabServes htop hops hparent hpos hb hregion1 hrefuses (hbelow.congr hsame)
        (fun hfree => haccepted.grown hregion hfree hrefuses)
        (fun hfree => hreturns region _ hregion hfree hrefuses) hdvd

end Serve

/-- A region whose tail does not refuse the next request asks no other buffer for it. -/
theorem slabAccepted_tail (hregion : st.regions r = some region) (ht : region.dataTail = some t)
    (hdata : st.buffs t = some data) (hfits : SlabFits data.size b)
    (hask : ∀ st1, slabAsk ops b t (st.log (.request r b)) ≠ some (none, st1)) :
    SlabAccepted ops path b r st ∧ ParentReturns ops path b r st := by
  have hnot : ∀ {st1}, ¬ TailRefuses (slabAsk ops b) r (st.log (.request r b)) st1 := by
    intro st1 hrefuses
    exact hask st1 (hrefuses.asked hregion ht)
  refine ⟨⟨?_, fun _ _ hrefuses _ => absurd hrefuses hnot⟩,
    fun _ _ _ _ hrefuses => absurd hrefuses hnot⟩
  intro region' t' data' hregion' ht' hdata'
  obtain rfl := Option.some.inj (hregion.symm.trans hregion')
  obtain rfl := Option.some.inj (ht.symm.trans ht')
  obtain rfl := Option.some.inj (hdata.symm.trans hdata')
  exact hfits

/-- The first request of a region without a buffer, for which its parent has one. -/
theorem slabAccepted_empty {d : ℕ} (hregion : st.regions r = some region)
    (ht : region.dataTail = none)
    (hmalloc : shallocMalloc ops path (slabRequest region b) (st.log (.request r b)) =
      some (some d, st1))
    (hfits : NewSlabFits region d (shallocBuffAllocSize b)) :
    SlabAccepted ops path b r st ∧ ParentReturns ops path b r st ∧ TailSearchEnds r st := by
  have hsame : ∀ {st2}, TailRefuses (slabAsk ops b) r (st.log (.request r b)) st2 →
      st2 = st.log (.request r b) := by
    intro st2 hrefuses
    cases hrefuses with
    | empty => rfl
    | refused hregion' ht' =>
      obtain rfl := Option.some.inj (hregion.symm.trans hregion')
      exact absurd (ht.symm.trans ht') (by simp)
  refine ⟨⟨?_, ?_⟩, ?_, ?_⟩
  · intro region' t' data' hregion' ht'
    obtain rfl := Option.some.inj (hregion.symm.trans hregion')
    exact absurd (ht.symm.trans ht') (by simp)
  · intro region' d' st2 st3 hregion' _ hrefuses hmalloc'
    obtain rfl := Option.some.inj (hregion.symm.trans hregion')
    obtain rfl := hsame hrefuses
    obtain rfl := Option.some.inj (Prod.mk.inj (Option.some.inj (hmalloc.symm.trans hmalloc'))).1
    exact hfits
  · intro region' st2 hregion' _ hrefuses
    obtain rfl := Option.some.inj (hregion.symm.trans hregion')
    obtain rfl := hsame hrefuses
    exact ⟨some d, st1, hmalloc⟩
  · intro region' t' _ _ hregion' ht'
    obtain rfl := Option.some.inj (hregion.symm.trans hregion')
    exact absurd (ht.symm.trans ht') (by simp)

/-- A new region of slabs in a heap of 64 KiB: its address, its tail, the start and the size of
the tail, the blocks of the slab in it, and its answer to the first request. -/
def slabHeap (b : ℕ) : Option (List (Option ℕ)) :=
  (shallocRegionCreate heapOps [4096] 1 0 b 0 .slab heapStore).map fun a =>
    [a.1, (a.2.regions 72408).bind Region.dataTail, (a.2.buffs 57560).map Buff.start,
      (a.2.buffs 57560).map Buff.size,
      match a.2.cells 57624 with
        | .slab header => some header.numBlocks
        | _ => none,
      (slabAsk heapOps b 57560 (a.2.log (.request 72408 b))).map fun answer => answer.1.getD 0]

/-- What `slabHeap` says of the new region. -/
theorem slabHeap_state {n : ℕ} {answer : Option ℕ}
    (hheap : slabHeap b =
      some [some 72408, some 57560, some 57624, some 4096, some n, answer])
    (hdefault : SlabDefault b 0 (shallocGetRegion [4096] 0 b 0 .slab)) (hfits : SlabFits 4096 b)
    (hn : n < 2 ^ 32) (hanswer : answer ≠ some 0) :
    ∃ st region, OwnSizeRun heapOps [4096] (2 ^ 64)
        (HeapIssued (PlacedAfter 216) 4096 4112 heapRegion heapBuff) b 72408 st [] ∧
      SlabAccepted heapOps [4096] b 72408 st ∧ ParentReturns heapOps [4096] b 72408 st ∧
      TailSearchEnds 72408 st ∧ st.regions 72408 = some region ∧ region.dataTail = some 57560 ∧
      (slabAsk heapOps b 57560 (st.log (.request 72408 b))).map (fun a => a.1.getD 0) = answer := by
  obtain ⟨⟨p, st⟩, hcreate, hlist⟩ := Option.map_eq_some_iff.mp hheap
  simp only [List.cons.injEq, and_true] at hlist
  obtain ⟨rfl, htail, hstart, hsize, hblocks, hask⟩ := hlist
  obtain ⟨region, hregion, ht⟩ := Option.bind_eq_some_iff.mp htail
  obtain ⟨data, hdata, hstart⟩ := Option.map_eq_some_iff.mp hstart
  rw [hdata, Option.map_some, Option.some.injEq] at hsize
  obtain ⟨haccepted, hreturns⟩ : SlabAccepted heapOps [4096] b 72408 st ∧
      ParentReturns heapOps [4096] b 72408 st := by
    refine slabAccepted_tail hregion ht hdata (hsize ▸ hfits) fun st1 hnone => ?_
    rw [hnone] at hask
    exact hanswer hask.symm
  refine ⟨st, region, .create heapStore_issued hdefault (by decide) (Word.wrap_lt _ _) hcreate,
    haccepted, hreturns,
    fun region' t data' header hregion' ht' hdata' hcell => ?_, hregion, ht, hask⟩
  obtain rfl := Option.some.inj (hregion.symm.trans hregion')
  obtain rfl := Option.some.inj (ht.symm.trans ht')
  obtain rfl := Option.some.inj (hdata.symm.trans hdata')
  rw [hstart] at hcell
  rw [hcell, Option.some.injEq] at hblocks
  exact Or.inl (hblocks ▸ hn)

end Shalloc
