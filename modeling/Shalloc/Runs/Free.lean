import Shalloc.Region.Rule

/-!
# Frees reach the allocator that issued the pointer

`shalloc_free` finds the buffer of a pointer by one test of its address against the tail
buffer. Below a sound parent, and over allocators that issue blocks inside their own buffer
only, the test is right in every run in which callers free what they hold.

## Main definitions

- `IssuesInside`, `PlacesInside` — allocators that issue blocks inside their own buffer
- `HeldCall`, `HeldRun` — the runs, with the pointers that callers hold
- `FreeReaches` — what `shalloc_free` does with a pointer

## Main results

- `insideRule` — the buffers of the region stay inside their blocks of the parent
- `heldRun_freeReaches` — every free in every run reaches the right allocator
-/

namespace Shalloc

variable {α : Type} {ops : BuffAllocType → BuffOp α} {st st' : Store α} {path : List ℕ}
  {top limit k r p : ℕ} {inv : List Extent → Store α → Prop} {type : BuffAllocType}
  {rep : Buff → List Extent → α → Prop} {chain held : List ℕ}

/-- An allocator that issues blocks inside its own buffer only, for the buffers below `top`:
`rep data live a` says that in state `a` the blocks of the buffer in use are `live`. -/
structure IssuesInside (op : BuffOp α) (top : ℕ) (rep : Buff → List Extent → α → Prop) :
    Prop where
  inside : ∀ {data live a}, rep data live a → ∀ e ∈ live,
    Extent.Within e ⟨data.start, data.size⟩ ∧ 0 < e.len
  next : ∀ {data live a} (link : Option ℕ), rep data live a → rep { data with next := link } live a
  created : ∀ {data a ret a'}, shallocBuffMinSize ≤ data.size → data.start + data.size ≤ top →
    op.create data a = some (ret, a') → 0 ≤ ret → rep data [] a'
  malloc : ∀ {data live a n p a'}, rep data live a → 0 < n → n < 2 ^ 48 →
    op.malloc data n a = some (p, a') → rep data (p.elim live fun q => ⟨q, n⟩ :: live) a'
  free : ∀ {data live a e a'}, rep data live a → e ∈ live → op.free data e.ptr a = some a' →
    rep data (releaseBlock e.ptr live) a'

/-- The same with the sizes of the blocks left open: their first bytes lie in the buffer. -/
structure PlacesInside (op : BuffOp α) (top : ℕ) (rep : Buff → List Extent → α → Prop) :
    Prop where
  inside : ∀ {data live a}, rep data live a → ∀ e ∈ live,
    data.start ≤ e.ptr ∧ e.ptr < data.start + data.size
  next : ∀ {data live a} (link : Option ℕ), rep data live a → rep { data with next := link } live a
  created : ∀ {data a ret a'}, shallocBuffMinSize ≤ data.size → data.start + data.size ≤ top →
    op.create data a = some (ret, a') → 0 ≤ ret → rep data [] a'
  malloc : ∀ {data live a n p a'}, rep data live a → 0 < n → n < 2 ^ 48 →
    op.malloc data n a = some (p, a') → rep data (p.elim live fun q => ⟨q, n⟩ :: live) a'
  free : ∀ {data live a e a'}, rep data live a → e ∈ live → op.free data e.ptr a = some a' →
    rep data (releaseBlock e.ptr live) a'

theorem IssuesInside.places {op : BuffOp α} (h : IssuesInside op top rep) :
    PlacesInside op top rep where
  inside hrep e he := by
    obtain ⟨⟨h1, h2⟩, hpos⟩ := h.inside hrep e he
    simp only at h1 h2
    exact ⟨h1, by omega⟩
  next := h.next
  created := h.created
  malloc := h.malloc
  free := h.free

/-- The type and the size of the buffers that the region adds. -/
structure DefaultFits (type : BuffAllocType) (_growths : ℕ) (region : Region) : Prop where
  allocType : region.defaultData.allocType = type
  lower : shallocBuffMinSize ≤ region.defaultData.size
  upper : sizeofBuff + region.defaultData.size ≤ 2 ^ 63

/-- A buffer inside its block `e` of the parent, with its own blocks inside of it. -/
structure BuffInside (type : BuffAllocType) (top : ℕ) (rep : Buff → List Extent → α → Prop)
    (e : Extent) (data : Buff) (live : List Extent) (a : α) : Prop where
  allocType : data.allocType = type
  lower : shallocBuffMinSize ≤ data.size
  block : sizeofBuff + data.size ≤ e.len
  top_le : data.start + data.size ≤ top
  end_eq : data.endAddr + 1 = data.start + data.size
  rep : rep data live a

/-- The pointer is the start of a block in use. -/
def InUse (live : List Extent) (p : ℕ) : Prop := ∃ e ∈ live, e.ptr = p

/-- The size that the next growth sets, while the address space is larger than it. -/
theorem DefaultFits.grownFits {region : Region} (h : DefaultFits type k region) :
    GrownFits region := by
  have hlower := h.lower
  have hupper := h.upper
  refine ⟨?_, ?_⟩
  all_goals
    unfold Region.grownSize sizeofBuff at *
    split
    · rw [Word.wrap_of_lt (by omega)]
      omega
    · omega

/-- The descriptor of a new buffer, if its block lies below `top`. -/
theorem DefaultFits.cloneBuff {region : Region} {d size : ℕ} (h : DefaultFits type k region)
    (htop : top ≤ 2 ^ 63) (hroom : d + (sizeofBuff + region.buffSize size) ≤ top) :
    let data := region.cloneBuff d (region.buffSize size)
    data.start = d + sizeofBuff ∧ data.size = region.buffSize size ∧
      shallocBuffMinSize ≤ data.size ∧ data.endAddr + 1 = data.start + data.size := by
  have hlower : shallocBuffMinSize ≤ region.buffSize size :=
    le_trans h.grownFits.lower (le_buffSize region size).1
  have hstart : Word.wrap 64 (d + sizeofBuff) = d + sizeofBuff := Word.wrap_of_lt (by omega)
  have hend : Word.wrap 64 (d + sizeofBuff + region.buffSize size) =
      d + sizeofBuff + region.buffSize size := Word.wrap_of_lt (by omega)
  have hmin : 0 < shallocBuffMinSize := by decide
  simp only [Region.cloneBuff, shallocCloneBuff, shallocGetBuff, hstart, Nat.not_lt.mpr hlower,
    and_false, if_false, hend, true_and]
  refine ⟨hlower, ?_⟩
  rw [Word.sub_of_le (by omega) (by omega)]
  omega

/-- The rule for buffers inside their blocks of the parent whose allocator keeps `rep`. -/
theorem buffRule (htop : top ≤ 2 ^ 63) {legit : List Extent → ℕ → Prop}
    (hnext : ∀ {data live a} (link : Option ℕ), rep data live a →
      rep { data with next := link } live a)
    (hcreated : ∀ {data a ret a'}, shallocBuffMinSize ≤ data.size →
      data.start + data.size ≤ top →
      (ops type).create data a = some (ret, a') → 0 ≤ ret → rep data [] a')
    (hmalloc : ∀ {data live a n p a'}, rep data live a → 0 < n → n < 2 ^ 48 →
      (ops type).malloc data n a = some (p, a') →
      rep data (p.elim live fun q => ⟨q, n⟩ :: live) a')
    (hfree : ∀ {data live a p a'}, rep data live a → legit live p →
      (ops type).free data p a = some a' → rep data (releaseBlock p live) a') :
    RegionRule ops top (DefaultFits type) (BuffInside type top rep) legit where
  top_le := le_trans htop (by decide)
  link h := ⟨h.allocType, h.lower, h.upper⟩
  room h hsize := (h.grownFits.buffSize (by unfold sizeofBuff; omega)).2
  grown := by
    intro k region size d h _ _ hroom
    have hle := (le_buffSize region size).1
    exact ⟨h.allocType, h.grownFits.lower, by simp only [Region.setDefaultSize]; omega⟩
  created := by
    intro k region size d a ret a' h _ _ hroom hcreate hret
    obtain ⟨hstart, hsize, hlower, hend⟩ := h.cloneBuff htop hroom
    rw [h.allocType] at hcreate
    have hfits : (region.cloneBuff d (region.buffSize size)).start +
        (region.cloneBuff d (region.buffSize size)).size ≤ top := by omega
    exact
      { allocType := (region.cloneBuff_allocType d _).trans h.allocType
        lower := hlower
        block := by rw [hsize]
        top_le := hfits
        end_eq := hend
        rep := hcreated hlower hfits hcreate hret }
  next link h := ⟨h.allocType, h.lower, h.block, h.top_le, h.end_eq, hnext link h.rep⟩
  malloc h hpos hn hcall := ⟨h.allocType, h.lower, h.block, h.top_le, h.end_eq,
    hmalloc h.rep hpos hn (h.allocType ▸ hcall)⟩
  free h hlegit hcall := ⟨h.allocType, h.lower, h.block, h.top_le, h.end_eq,
    hfree h.rep hlegit (h.allocType ▸ hcall)⟩
  renew h hdestroy hcreate hret := ⟨h.allocType, h.lower, h.block, h.top_le, h.end_eq,
    hcreated h.lower h.top_le (h.allocType ▸ hcreate) hret⟩

/-- The rule for allocators that issue blocks inside their own buffer. -/
theorem insideRule (htop : top ≤ 2 ^ 63) (hop : PlacesInside (ops type) top rep) :
    RegionRule ops top (DefaultFits type) (BuffInside type top rep) InUse := by
  refine buffRule htop hop.next hop.created hop.malloc ?_
  rintro data live a _ a' h ⟨e, he, rfl⟩ hfree
  exact hop.free h he hfree

/-- The pointers that callers hold after `shalloc_orealloc` has returned `p`. -/
def heldAfterOrealloc (held : List ℕ) (ptr p : Option ℕ) (size oldSize : ℕ) : List ℕ :=
  match ptr with
  | none => p.toList ++ held
  | some q =>
    if size = 0 then held.filter (· ≠ q)
    else if size ≤ oldSize then held
    else match p with
      | none => held
      | some q' => (q' :: held).filter (· ≠ q)

/-- A call on region `r` by callers that hold the pointers `held` and free no others, with
the pointers that they hold after it. -/
inductive HeldCall (ops : BuffAllocType → BuffOp α) (path : List ℕ) (limit r : ℕ) (st : Store α)
    (held : List ℕ) : Store α → List ℕ → Prop
  | malloc {n : ℕ} {p : Option ℕ} {st' : Store α} : n < 2 ^ 48 →
      AsksBelow limit r (shallocBuffAllocSize n) st →
      shallocMalloc ops (r :: path) n st = some (p, st') →
      HeldCall ops path limit r st held st' (p.toList ++ held)
  | calloc {nmemb size : ℕ} {p : Option ℕ} {st' : Store α} : nmemb * size < 2 ^ 48 →
      AsksBelow limit r (shallocBuffAllocSize (nmemb * size)) st →
      shallocCalloc ops (r :: path) nmemb size st = some (p, st') →
      HeldCall ops path limit r st held st' (p.toList ++ held)
  | orealloc {ptr p : Option ℕ} {size oldSize : ℕ} {st' : Store α} : size < 2 ^ 48 →
      AsksBelow limit r (shallocBuffAllocSize size) st →
      (∀ q ∈ ptr, size = 0 ∨ oldSize < size → q ∈ held) →
      shallocOrealloc ops (r :: path) ptr size oldSize st = some (p, st') →
      HeldCall ops path limit r st held st' (heldAfterOrealloc held ptr p size oldSize)
  | free {p : ℕ} {st' : Store α} : p ∈ held → shallocFree ops r p st = some st' →
      HeldCall ops path limit r st held st' (held.filter (· ≠ p))
  | reset {fuel : ℕ} {st' : Store α} : shallocRegionReset ops fuel r st = some st' →
      HeldCall ops path limit r st held st' []

/-- Calls on a region of the given type since `shalloc_region_create` has returned it. -/
inductive HeldRun (ops : BuffAllocType → BuffOp α) (path : List ℕ) (limit : ℕ)
    (inv : List Extent → Store α → Prop) (type : BuffAllocType) (r : ℕ) :
    Store α → List ℕ → Prop
  | create {initSize buffSize blockSize flags : ℕ} {given : BuffAllocType} {st st' : Store α} :
      inv [] st → initSize < 2 ^ 48 → buffSize < 2 ^ 48 →
      (shallocGetRegion path buffSize blockSize flags given).defaultData.allocType = type →
      (shallocGetRegion path buffSize blockSize flags given).request initSize < limit →
      shallocRegionCreate ops path initSize buffSize blockSize flags given st =
        some (some r, st') →
      HeldRun ops path limit inv type r st' []
  | step {st st' : Store α} {held held' : List ℕ} : HeldRun ops path limit inv type r st held →
      HeldCall ops path limit r st held st' held' → HeldRun ops path limit inv type r st' held'

/-- What `shalloc_free` does with `p` in a region with the chain `chain`: the pointer is in
use in a buffer, and the call hands it to the allocator of that buffer if that is the tail,
and does nothing at all otherwise. -/
structure FreeReaches (ops : BuffAllocType → BuffOp α) (r : ℕ) (st : Store α) (chain : List ℕ)
    (p : ℕ) : Prop where
  issued : ∃ d ∈ chain, InUse (liveBlocks d st.trace) p
  reaches : ∀ d ∈ chain, InUse (liveBlocks d st.trace) p →
    shallocFree ops r p st =
      if chain.getLast? = some d then (st.log (.release r p)).opFree ops d p
      else some (st.log (.release r p))

/-- The invariant of a run: the pointers that callers hold are in use in the chain. -/
structure HeldKept (path : List ℕ) (inv : List Extent → Store α → Prop) (type : BuffAllocType)
    (top : ℕ) (rep : Buff → List Extent → α → Prop) (k r : ℕ) (st : Store α) (chain held : List ℕ) :
    Prop where
  kept : RegionKept path inv (DefaultFits type) (BuffInside type top rep) k r st chain
  held : ∀ p ∈ held, ∃ d ∈ chain, InUse (liveBlocks d st.trace) p

section Inside

variable (hparent : SoundParent ops path top limit inv) (hop : PlacesInside (ops type) top rep)
  (h : RegionKept path inv (DefaultFits type) (BuffInside type top rep) k r st chain)
include hop h

/-- A block in use passes the address test of its own buffer, -/
theorem RegionKept.isBuffAddr {t : ℕ} {data : Buff} (ht : t ∈ chain)
    (hdata : st.buffs t = some data) (hp : InUse (liveBlocks t st.trace) p) :
    shallocIsBuffAddr data p := by
  obtain ⟨region, blocks, h⟩ := h
  obtain ⟨e, data', -, -, -, hdata', -, hQ⟩ := h.buffs t ht
  obtain rfl := Option.some.inj (hdata.symm.trans hdata')
  obtain ⟨b, hb, rfl⟩ := hp
  obtain ⟨h1, h2⟩ := hop.inside hQ.rep b hb
  have hend := hQ.end_eq
  exact ⟨h1, by omega⟩

include hparent

/-- and of no other buffer of the chain. -/
theorem RegionKept.eq_of_isBuffAddr {d t : ℕ} {data : Buff} (hd : d ∈ chain)
    (hp : InUse (liveBlocks d st.trace) p) (ht : t ∈ chain) (hdata : st.buffs t = some data)
    (haddr : shallocIsBuffAddr data p) : d = t := by
  obtain ⟨region, blocks, h⟩ := h
  obtain ⟨e, data', he, hptr, -, hdata', hstart, hQ⟩ := h.buffs t ht
  obtain rfl := Option.some.inj (hdata.symm.trans hdata')
  obtain ⟨e', data'', he', hptr', -, hdata'', hstart', hQ'⟩ := h.buffs d hd
  obtain ⟨b, hb, rfl⟩ := hp
  obtain ⟨h1, h2⟩ := hop.inside hQ'.rep b hb
  obtain ⟨h3, h4⟩ := haddr
  have hblock := hQ.block
  have hblock' := hQ'.block
  have hend := hQ.end_eq
  -- the block is in both blocks of the parent, so they are one
  have heq := hparent.eq_of_shared h.parent he he' (a := b.ptr) ⟨by omega, by omega⟩
    ⟨by omega, by omega⟩
  rw [← hptr, ← hptr', heq]

/-- The address test finds the buffer of a pointer that is in use. -/
theorem RegionKept.freeReaches (hp : ∃ d ∈ chain, InUse (liveBlocks d st.trace) p) :
    FreeReaches ops r st chain p := by
  refine ⟨hp, fun d hd huse => ?_⟩
  have hkept := h
  obtain ⟨region, blocks, h⟩ := h
  have htail := h.linked.tail
  cases ht : chain.getLast? with
  | none =>
    rw [List.getLast?_eq_none_iff.mp ht] at hd
    exact absurd hd List.not_mem_nil
  | some t =>
    have htmem := List.mem_of_getLast? ht
    obtain ⟨_, data, -, -, -, hdata, -, -⟩ := h.buffs t htmem
    rw [ht] at htail
    simp only [shallocFree, h.record, bind, Option.bind_some, htail, Store.log_buffs, hdata,
      Option.some.injEq]
    by_cases heq : d = t
    · subst heq
      rw [if_pos (hkept.isBuffAddr hop htmem hdata huse), if_pos rfl]
    · have hnot : ¬ shallocIsBuffAddr data p := fun haddr =>
        heq (hkept.eq_of_isBuffAddr hparent hop hd huse htmem hdata haddr)
      rw [if_neg hnot, if_neg fun hd => heq hd.symm]

/-- A pointer that is in use is legitimate in the tail, if the tail is asked. -/
theorem RegionKept.inUse_tail (hp : ∃ d ∈ chain, InUse (liveBlocks d st.trace) p) :
    ∀ region t data, st.regions r = some region → region.dataTail = some t →
      st.buffs t = some data → shallocIsBuffAddr data p → InUse (liveBlocks t st.trace) p := by
  intro region t data hregion ht hdata haddr
  obtain ⟨d, hd, huse⟩ := hp
  have hkept := h
  obtain ⟨region', blocks, h⟩ := h
  obtain rfl := Option.some.inj (h.record.symm.trans hregion)
  have htmem : t ∈ chain := h.linked.tail_mem ht
  rwa [hkept.eq_of_isBuffAddr hparent hop hd huse htmem hdata haddr] at huse

end Inside

/-- A free takes no other pointer out of use. -/
theorem FreeCases.inUse {q d : ℕ} (h : FreeCases ops r p st st')
    (huse : InUse (liveBlocks d st.trace) q) (hne : q ≠ p) : InUse (liveBlocks d st'.trace) q := by
  cases h with
  | ignored => exact huse
  | asked _ _ _ _ hfree =>
    obtain ⟨_, _, -, -, rfl⟩ := Store.opFree_eq_some.mp hfree
    obtain ⟨e, he, rfl⟩ := huse
    simp only [Store.log_trace, Store.setCell_trace, liveBlocks_free, liveBlocks_release]
    split
    · exact ⟨e, mem_releaseBlock.mpr ⟨he, hne⟩, rfl⟩
    · exact ⟨e, he, rfl⟩

/-- A request that leaves the chain in use adds the pointer that it returns, which is in use
in the tail, to those that callers hold. -/
theorem HeldKept.issued {k' n : ℕ} {q : Option ℕ} {new : List ℕ}
    (h : HeldKept path inv type top rep k r st chain held)
    (hkept : RegionKept path inv (DefaultFits type) (BuffInside type top rep) k' r st'
      (chain ++ new))
    (hissued : (∀ d ∈ chain, ∀ e ∈ liveBlocks d st.trace, e ∈ liveBlocks d st'.trace) ∧
      ∀ p ∈ q, ∃ region t, st'.regions r = some region ∧ region.dataTail = some t ∧
        ⟨p, n⟩ ∈ liveBlocks t st'.trace) :
    HeldKept path inv type top rep k' r st' (chain ++ new) (q.toList ++ held) := by
  refine ⟨hkept, fun p hp => ?_⟩
  cases List.mem_append.mp hp with
  | inl hp =>
    obtain ⟨region, t, hregion, ht, hmem⟩ := hissued.2 p (Option.mem_toList.mp hp)
    obtain ⟨region', blocks, hinv⟩ := hkept
    obtain rfl := Option.some.inj (hinv.record.symm.trans hregion)
    exact ⟨t, hinv.linked.tail_mem ht, _, hmem, rfl⟩
  | inr hp =>
    obtain ⟨d, hd, e, he, hptr⟩ := h.held p hp
    exact ⟨d, List.mem_append_left _ hd, e, hissued.1 d hd e he, hptr⟩

section Step

variable (htop : top ≤ 2 ^ 63) (hparent : SoundParent ops path top limit inv)
  (hop : PlacesInside (ops type) top rep)
include htop hparent hop

theorem HeldKept.malloc {n : ℕ} {q : Option ℕ}
    (h : HeldKept path inv type top rep k r st chain held)
    (hn : n < 2 ^ 48) (hbelow : AsksBelow limit r (shallocBuffAllocSize n) st)
    (hcall : shallocMalloc ops (r :: path) n st = some (q, st')) :
    ∃ k' chain', HeldKept path inv type top rep k' r st' chain' (q.toList ++ held) := by
  have rule := insideRule htop hop
  exact ⟨_, _, h.issued (h.kept.malloc hparent rule hn hbelow hcall)
    (h.kept.malloc_issued hparent rule hn hbelow hcall)⟩

theorem HeldKept.calloc {nmemb size : ℕ} {q : Option ℕ}
    (h : HeldKept path inv type top rep k r st chain held) (hn : nmemb * size < 2 ^ 48)
    (hbelow : AsksBelow limit r (shallocBuffAllocSize (nmemb * size)) st)
    (hcall : shallocCalloc ops (r :: path) nmemb size st = some (q, st')) :
    ∃ k' chain', HeldKept path inv type top rep k' r st' chain' (q.toList ++ held) := by
  have rule := insideRule htop hop
  exact ⟨_, _, h.issued (h.kept.calloc hparent rule hn hbelow hcall)
    (h.kept.calloc_issued hparent rule hn hbelow hcall)⟩

theorem HeldKept.free (h : HeldKept path inv type top rep k r st chain held) (hp : p ∈ held)
    (hcall : shallocFree ops r p st = some st') :
    HeldKept path inv type top rep k r st' chain (held.filter (· ≠ p)) where
  kept := h.kept.free hparent (insideRule htop hop)
    (h.kept.inUse_tail hparent hop (h.held p hp)) hcall
  held q hq := by
    obtain ⟨hmem, hne⟩ := List.mem_filter.mp hq
    obtain ⟨d, hd, huse⟩ := h.held q hmem
    exact ⟨d, hd, (shallocFree_cases hcall).inUse huse (by simpa using hne)⟩

omit htop hop in
/-- The copy in `shalloc_orealloc` changes nothing that the invariant is about. -/
theorem HeldKept.copy (h : HeldKept path inv type top rep k r st chain held) (dst src len : ℕ) :
    HeldKept path inv type top rep k r (st.log (.copy dst src len)) chain held :=
  ⟨h.kept.log hparent _ (by simp [Event.touches]), h.held⟩

theorem HeldKept.orealloc {ptr q : Option ℕ} {size oldSize : ℕ}
    (h : HeldKept path inv type top rep k r st chain held) (hn : size < 2 ^ 48)
    (hbelow : AsksBelow limit r (shallocBuffAllocSize size) st)
    (hptr : ∀ q ∈ ptr, size = 0 ∨ oldSize < size → q ∈ held)
    (hcall : shallocOrealloc ops (r :: path) ptr size oldSize st = some (q, st')) :
    ∃ k' chain', HeldKept path inv type top rep k' r st' chain'
      (heldAfterOrealloc held ptr q size oldSize) := by
  cases shallocOrealloc_cases hcall with
  | fresh hmalloc => exact h.malloc htop hparent hop hn hbelow hmalloc
  | freed hzero hfree =>
    rw [heldAfterOrealloc, if_pos hzero]
    exact ⟨_, _, h.free htop hparent hop (hptr _ rfl (Or.inl hzero)) hfree⟩
  | kept hpos hle =>
    rw [heldAfterOrealloc, if_neg (Nat.pos_iff_ne_zero.mp hpos), if_pos hle]
    exact ⟨_, _, h⟩
  | refused hlt hmalloc =>
    rw [heldAfterOrealloc, if_neg (by omega), if_neg (Nat.not_le_of_lt hlt)]
    exact h.malloc htop hparent hop hn hbelow hmalloc
  | moved hlt hmalloc hfree =>
    rw [heldAfterOrealloc, if_neg (by omega), if_neg (Nat.not_le_of_lt hlt)]
    obtain ⟨k', chain', h1⟩ := h.malloc htop hparent hop hn hbelow hmalloc
    exact ⟨k', chain', (h1.copy hparent ..).free htop hparent hop
      (List.mem_cons_of_mem _ (hptr _ rfl (Or.inr hlt))) hfree⟩

/-- Every call keeps the invariant. -/
theorem HeldCall.kept {P : ℕ} {held' : List ℕ} (hP : path.head? = some P)
    (hcall : HeldCall ops path limit r st held st' held')
    (h : HeldKept path inv type top rep k r st chain held) :
    ∃ k' chain', HeldKept path inv type top rep k' r st' chain' held' := by
  cases hcall with
  | malloc hn hbelow hcall => exact h.malloc htop hparent hop hn hbelow hcall
  | calloc hn hbelow hcall => exact h.calloc htop hparent hop hn hbelow hcall
  | orealloc hn hbelow hptr hcall => exact h.orealloc htop hparent hop hn hbelow hptr hcall
  | free hp hcall => exact ⟨_, _, h.free htop hparent hop hp hcall⟩
  | reset hcall =>
    exact ⟨_, _, h.kept.reset hparent hP (insideRule htop hop) hcall,
      fun _ hp => absurd hp List.not_mem_nil⟩

/-- Every run keeps the invariant. -/
theorem HeldRun.kept (run : HeldRun ops path limit inv type r st held) :
    (∃ P, path.head? = some P) ∧ ∃ k chain, HeldKept path inv type top rep k r st chain held := by
  induction run with
  | @create initSize buffSize blockSize flags given st0 _ h hinit hbuff htype hbelow hcall =>
    have hsize : (shallocGetRegion path buffSize blockSize flags given).defaultData.size < 2 ^ 48 :=
      shallocGetRegion_size hbuff
    have hfits : DefaultFits type 0 (shallocGetRegion path buffSize blockSize flags given) :=
      ⟨htype, shallocGetRegion_lower .., by unfold sizeofBuff; omega⟩
    exact ⟨shallocRegionCreate_path hcall, _, _,
      hparent.create h hfits (insideRule htop hop) (by omega) hbelow hcall,
      fun _ hp => absurd hp List.not_mem_nil⟩
  | step _ hcall ih =>
    obtain ⟨⟨P, hP⟩, k, chain, h⟩ := ih
    exact ⟨⟨P, hP⟩, hcall.kept htop hparent hop hP h⟩

end Step

section Reaches

variable (htop : top ≤ 2 ^ 63) (hparent : SoundParent ops path top limit inv)
  (hop : IssuesInside (ops type) top rep)
include htop hparent hop

/-- **Every free reaches the allocator that issued the pointer**, in every state of every
run, and after the request inside `shalloc_orealloc`. -/
theorem heldRun_freeReaches (run : HeldRun ops path limit inv type r st held) :
    ∃ region chain, st.regions r = some region ∧ Linked st region chain ∧
      (∀ p ∈ held, FreeReaches ops r st chain p) ∧
      ∀ {p q size oldSize st1}, p ∈ held → oldSize < size → size < 2 ^ 48 →
        AsksBelow limit r (shallocBuffAllocSize size) st →
        shallocMalloc ops (r :: path) size st = some (some q, st1) →
        ∃ region1 chain1, st1.regions r = some region1 ∧ Linked st1 region1 chain1 ∧
          FreeReaches ops r (st1.log (.copy q p oldSize)) chain1 p := by
  obtain ⟨-, k, chain, h⟩ := run.kept htop hparent hop.places
  obtain ⟨region, blocks, hinv⟩ := h.kept
  refine ⟨region, chain, hinv.record, hinv.linked,
    fun p hp => h.kept.freeReaches hparent hop.places (h.held p hp), ?_⟩
  intro p q size oldSize st1 hp hlt hsize hbelow hmalloc
  obtain ⟨k1, chain1, h1⟩ := h.malloc htop hparent hop.places hsize hbelow hmalloc
  obtain ⟨region1, blocks1, hinv1⟩ := h1.kept
  have h2 := h1.copy hparent q p oldSize
  exact ⟨region1, chain1, hinv1.record, hinv1.linked,
    h2.kept.freeReaches hparent hop.places (h2.held p (List.mem_cons_of_mem _ hp))⟩

end Reaches

section Nofree

variable {ρ : Type}

/-- A buffer of the no-free allocator: its blocks lie between the header and the free
pointer, at any alignment. -/
structure NofreeInside (data : Buff) (live : List Extent) (a : AllocState ρ) : Prop where
  small : data.start + data.size ≤ 2 ^ 63
  header : ∃ header, a = .nofree header ∧ NofreeOk data.start data.size header ∧
    NofreeIssuedBelow data.start live header
  pos : ∀ e ∈ live, 0 < e.len

/-- The no-free allocator issues blocks inside its own buffer only. -/
theorem OpsTable.nofree_issuesInside {ops : BuffAllocType → BuffOp (AllocState ρ)}
    (hops : OpsTable ops) (htop : top ≤ 2 ^ 63) :
    IssuesInside (ops .nofree) top (NofreeInside (ρ := ρ)) where
  inside := by
    intro data live a h e he
    obtain ⟨header, -, hok, hbelow⟩ := h.header
    obtain ⟨h1, h2⟩ := hbelow e he
    have hupper := hok.upper
    exact ⟨⟨by simp only; omega, by simp only; omega⟩, h.pos e he⟩
  next link h := ⟨h.small, h.header, h.pos⟩
  created := by
    intro data a ret a' _ hend hcreate hret
    simp only [hops.nofree, nofreeCreate, Option.some.injEq] at hcreate
    obtain ⟨hinit, rfl⟩ := Prod.mk.inj hcreate
    have hzero : (nofreeInit data.start data.size ⟨0, 0, 0⟩).1 = 0 := by
      rw [← hinit] at hret
      unfold nofreeInit at hret ⊢
      split at hret
      · exact absurd hret (by decide)
      · next hsize => rw [if_neg hsize]
    have hok := (nofreeInit_ok (by omega) (Prod.ext hzero rfl)).1
    refine ⟨le_trans hend htop, ⟨_, if_neg (by omega), hok, ?_⟩, ?_⟩
    · exact fun e he => absurd he List.not_mem_nil
    · exact fun e he => absurd he List.not_mem_nil
  malloc := by
    intro data live a n p a' h hpos hn hcall
    obtain ⟨header, rfl, hok, hbelow⟩ := h.header
    have hsmall := h.small
    have hupper := hok.upper
    have hround := nofreeRound_lt n
    simp only [hops.nofree, nofreeOpMalloc, bind, Option.bind_eq_some_iff, Prod.exists,
      Option.some.injEq, Prod.mk.injEq] at hcall
    obtain ⟨p', header', hmalloc, rfl, rfl⟩ := hcall
    obtain ⟨hok', hbelow'⟩ := nofree_call_inv hok hbelow (by omega) (by omega)
      (by unfold NofreeNoWrap; omega) hmalloc
    cases p' with
    | none => exact ⟨hsmall, ⟨_, rfl, hok', hbelow'⟩, h.pos⟩
    | some q =>
      refine ⟨hsmall, ⟨_, rfl, hok', hbelow'⟩, fun e he => ?_⟩
      cases List.mem_cons.mp he with
      | inl heq => rw [heq]; exact hpos
      | inr he => exact h.pos e he
  free := by
    intro data live a e a' h _ hfree
    rw [hops.nofree] at hfree
    obtain rfl := Option.some.inj hfree
    obtain ⟨header, rfl, hok, hbelow⟩ := h.header
    exact ⟨h.small, ⟨_, rfl, hok, fun e' he' => hbelow e' (mem_releaseBlock.mp he').1⟩,
      fun e' he' => h.pos e' (mem_releaseBlock.mp he').1⟩

end Nofree

/-- A region that has grown twice: the free of the first block, which is no block of the tail,
does nothing, and that of the second reaches the tail. -/
theorem heldRun_freeReaches_second :
    ∃ st st' chain chain', HeldRun heapOpsSizes [4096] (2 ^ 64)
        (HeapIssued (PlacedAfter 216) 4096 4112 heapRegion heapBuff) .nofree 72408 st
        [41264, 57648] ∧
      (∀ p ∈ [41264, 57648], FreeReaches heapOpsSizes 72408 st chain p) ∧
      shallocFree heapOpsSizes 72408 57648 st = some st' ∧
      HeldRun heapOpsSizes [4096] (2 ^ 64)
        (HeapIssued (PlacedAfter 216) 4096 4112 heapRegion heapBuff) .nofree 72408 st' [41264] ∧
      FreeReaches heapOpsSizes 72408 st' chain' 41264 := by
  obtain ⟨st1, st2, st3, st4, hcreate, hmalloc, hmalloc', hfree⟩ : ∃ st1 st2 st3 st4,
      shallocRegionCreate heapOpsSizes [4096] 0 0 0 0 .nofree heapStore = some (some 72408, st1) ∧
      shallocMalloc heapOpsSizes [72408, 4096] 100 st1 = some (some 57648, st2) ∧
      shallocMalloc heapOpsSizes [72408, 4096] 6000 st2 = some (some 41264, st3) ∧
      shallocFree heapOpsSizes 72408 57648 st3 = some st4 := ⟨_, _, _, _, rfl, rfl, rfl, rfl⟩
  have run : HeldRun heapOpsSizes [4096] (2 ^ 64)
      (HeapIssued (PlacedAfter 216) 4096 4112 heapRegion heapBuff) .nofree 72408 st3
      [41264, 57648] :=
    .step (.step (.create heapStore_issued (by decide) (by decide) rfl (Word.wrap_lt _ _) hcreate)
      (.malloc (by decide) (asksBelow_two_pow _ _ _) hmalloc))
      (.malloc (by decide) (asksBelow_two_pow _ _ _) hmalloc')
  have run' := run.step (.free (by decide) hfree)
  obtain ⟨-, chain, -, -, hreaches, -⟩ := heldRun_freeReaches (by decide)
    heapOpsSizes_soundParent ((shallocSpaceBuffOps_table _).nofree_issuesInside (by decide)) run
  obtain ⟨-, chain', -, -, hreaches', -⟩ := heldRun_freeReaches (by decide)
    heapOpsSizes_soundParent ((shallocSpaceBuffOps_table _).nofree_issuesInside (by decide)) run'
  exact ⟨st3, st4, chain, chain', run, hreaches, hfree, run', hreaches' 41264 List.mem_cons_self⟩

end Shalloc
