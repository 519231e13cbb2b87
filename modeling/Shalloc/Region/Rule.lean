import Shalloc.Region.Parent

/-!
# A rule for the calls on a region

What the calls on a region keep, given what the operations of its buffers keep: a property
`J` of the region's record that survives a growth, and a property `Q` of each buffer that
survives the operations on it. Under a sound parent the chain of the region stays intact,
and `J` and `Q` hold after every call.

## Main definitions

- `RegionRule` — what `J` and `Q` have to satisfy
- `RegionInv`, `RegionKept` — the invariant of the region
- `serveGrowths` — the growths of one request

## Main results

- `RegionInv.grow`, `RegionInv.reset` — the steps that change the chain
- `RegionKept.malloc`, `RegionKept.calloc`, `RegionKept.orealloc`, `RegionKept.free` — the calls
-/

namespace Shalloc

variable {α : Type} {ops : BuffAllocType → BuffOp α} {st st' : Store α} {path : List ℕ}
  {top limit k r : ℕ} {inv : List Extent → Store α → Prop} {J : ℕ → Region → Prop}
  {Q : Extent → Buff → List Extent → α → Prop} {legit : List Extent → ℕ → Prop}
  {region : Region} {chain : List ℕ} {blocks : List Extent}

/-- The rule: `J` after `k` growths, `Q` of the block, the descriptor, the blocks in use and
the allocator of a buffer, and the pointers that it is `legit` to free. -/
structure RegionRule (ops : BuffAllocType → BuffOp α) (top : ℕ) (J : ℕ → Region → Prop)
    (Q : Extent → Buff → List Extent → α → Prop) (legit : List Extent → ℕ → Prop) : Prop where
  top_le : top ≤ 2 ^ 64
  link : ∀ {k region head tail}, J k region →
    J k { region with dataHead := head, dataTail := tail }
  room : ∀ {k region size}, J k region → size < 2 ^ 52 →
    sizeofBuff + region.buffSize size < 2 ^ 64
  grown : ∀ {k region size d}, J k region → 0 < size → size < 2 ^ 52 →
    d + (sizeofBuff + region.buffSize size) ≤ top →
      J (k + 1) (region.setDefaultSize region.grownSize)
  created : ∀ {k region size d a ret a'}, J k region → 0 < size → size < 2 ^ 52 →
    d + (sizeofBuff + region.buffSize size) ≤ top →
    (ops region.defaultData.allocType).create (region.cloneBuff d (region.buffSize size)) a =
      some (ret, a') → 0 ≤ ret →
    Q ⟨d, sizeofBuff + region.buffSize size⟩ (region.cloneBuff d (region.buffSize size)) [] a'
  next : ∀ {e data live a} (link : Option ℕ), Q e data live a →
    Q e { data with next := link } live a
  malloc : ∀ {e data live a n p a'}, Q e data live a → 0 < n → n < 2 ^ 48 →
    (ops data.allocType).malloc data n a = some (p, a') →
    Q e data (p.elim live fun q => ⟨q, n⟩ :: live) a'
  free : ∀ {e data live a p a'}, Q e data live a → legit live p →
    (ops data.allocType).free data p a = some a' → Q e data (releaseBlock p live) a'
  renew : ∀ {e data live a ret a' a''}, Q e data live a →
    (ops data.allocType).destroy data a = some a' →
    (ops data.allocType).create data a' = some (ret, a'') → 0 ≤ ret → Q e data [] a''

/-- Region `r` after `k` growths, below the parent at the head of `path`: its record and its
buffers are in blocks of the parent, and every buffer of its chain satisfies `Q`. -/
structure RegionInv (path : List ℕ) (inv : List Extent → Store α → Prop) (J : ℕ → Region → Prop)
    (Q : Extent → Buff → List Extent → α → Prop) (k r : ℕ) (st : Store α) (region : Region)
    (chain : List ℕ) (blocks : List Extent) : Prop where
  parent : inv blocks st
  record : st.regions r = some region
  ancestors : region.ancestors = path
  property : J k region
  linked : Linked st region chain
  nodup : (r :: chain).Nodup
  fixed : hasFlag region.flags .nonResizable = true → chain.length ≤ 1
  home : ∃ e ∈ blocks, e.ptr = r ∧ sizeofRegion ≤ e.len
  buffs : ∀ d ∈ chain, ∃ e data, e ∈ blocks ∧ e.ptr = d ∧ sizeofBuff < e.len ∧
    st.buffs d = some data ∧ data.start = d + sizeofBuff ∧
    Q e data (liveBlocks d st.trace) (st.cells data.start)

/-- The properties may be exchanged for others that follow from them. -/
theorem RegionInv.imp {k' : ℕ} {J' : ℕ → Region → Prop}
    {Q' : Extent → Buff → List Extent → α → Prop}
    (h : RegionInv path inv J Q k r st region chain blocks) (hJ : J' k' region)
    (hQ : ∀ {e data live a}, Q e data live a → Q' e data live a) :
    RegionInv path inv J' Q' k' r st region chain blocks :=
  { h with
    property := hJ
    buffs := fun d hd => by
      obtain ⟨e, data, he, hptr, hlen, hdata, hstart, hbuff⟩ := h.buffs d hd
      exact ⟨e, data, he, hptr, hlen, hdata, hstart, hQ hbuff⟩ }

theorem RegionInv.parent_eq (h : RegionInv path inv J Q k r st region chain blocks) :
    region.parent = path.head? := by
  rw [Region.parent, h.ancestors]

/-- The invariant of a region with the chain `chain`. -/
def RegionKept (path : List ℕ) (inv : List Extent → Store α → Prop) (J : ℕ → Region → Prop)
    (Q : Extent → Buff → List Extent → α → Prop) (k r : ℕ) (st : Store α) (chain : List ℕ) : Prop :=
  ∃ region blocks, RegionInv path inv J Q k r st region chain blocks

/-- The buffer that a call has attached: the tail, if the region has grown. -/
def attachedBy (r growths : ℕ) (st : Store α) : List ℕ :=
  if growths = 0 then [] else ((st.regions r).bind Region.dataTail).toList

theorem RegionKept.attachedBy_eq {k' growths : ℕ} (h : RegionKept path inv J Q k r st chain)
    (h' : RegionKept path inv J Q k' r st' chain) :
    attachedBy r growths st = attachedBy r growths st' := by
  obtain ⟨region, blocks, h⟩ := h
  obtain ⟨region', blocks', h'⟩ := h'
  simp [attachedBy, h.record, h'.record, h.linked.tail, h'.linked.tail]

/-- A step that leaves the blocks of the region alone, and may add or take away others. -/
theorem RegionInv.agree {kept blocks' : List Extent} {inv' : List Extent → Store α → Prop}
    (h : RegionInv path inv J Q k r st region chain blocks) (hinv : inv' blocks' st')
    (hkept : ∀ e ∈ blocks, e.ptr ∈ r :: chain → e ∈ kept) (hsub : ∀ e ∈ kept, e ∈ blocks')
    (hagree : AgreeOn (Covers kept) st st') :
    RegionInv path inv' J Q k r st' region chain blocks' := by
  have hcovers : ∀ d ∈ chain, Covers kept d ∧ Covers kept (d + sizeofBuff) := by
    intro d hd
    obtain ⟨e, data, he, rfl, hlen, -, -, -⟩ := h.buffs d hd
    have he' := hkept e he (List.mem_cons_of_mem _ hd)
    exact ⟨⟨e, he', le_rfl, by omega⟩, ⟨e, he', by omega, by omega⟩⟩
  obtain ⟨home, hhome, hr, hrecordlen⟩ := h.home
  have hhome' : home ∈ kept := hkept home hhome (hr ▸ List.mem_cons_self)
  have hsize : 0 < sizeofRegion := by decide
  have hrecord : st'.regions r = st.regions r :=
    hagree.regions r ⟨home, hhome', by omega, by omega⟩
  exact
    { parent := hinv
      record := hrecord.trans h.record
      ancestors := h.ancestors
      property := h.property
      linked := ⟨h.linked.head.congr fun d hd => hagree.buffs d (hcovers d hd).1, h.linked.tail⟩
      nodup := h.nodup
      fixed := h.fixed
      home := ⟨home, hsub home hhome', hr, hrecordlen⟩
      buffs := fun d hd => by
        obtain ⟨e, data, he, hptr, hlen, hdata, hstart, hQ⟩ := h.buffs d hd
        obtain ⟨hcover, hcover'⟩ := hcovers d hd
        have he' := hsub e (hkept e he (hptr ▸ List.mem_cons_of_mem _ hd))
        refine ⟨e, data, he', hptr, hlen,
          (hagree.buffs d hcover).trans hdata, hstart, ?_⟩
        rw [hagree.live d hcover, hstart, hagree.cells _ hcover', ← hstart]
        exact hQ }

section Frame

variable (hparent : SoundParent ops path top limit inv)
include hparent

/-- A call that no buffer sees is noted. -/
theorem RegionInv.log (h : RegionInv path inv J Q k r st region chain blocks) (event : Event)
    (hevent : ∀ a, ¬ event.touches a) :
    RegionInv path inv J Q k r (st.log event) region chain blocks :=
  h.agree (hparent.own h.parent (.log _ st hevent)) (fun _ he _ => he) (fun _ he => he)
    (.log _ st hevent)

/-- The blocks of the region cover its record, its descriptors and the allocators of its
buffers. -/
theorem RegionInv.covers (h : RegionInv path inv J Q k r st region chain blocks) :
    Covers blocks r ∧ ∀ d ∈ chain, Covers blocks d ∧ Covers blocks (d + sizeofBuff) := by
  obtain ⟨home, hhome, hr, -⟩ := h.home
  refine ⟨hr ▸ hparent.covers_ptr h.parent hhome, fun d hd => ?_⟩
  obtain ⟨e, data, he, rfl, hlen, -, -, -⟩ := h.buffs d hd
  exact ⟨⟨e, he, le_rfl, by omega⟩, ⟨e, he, by omega, by omega⟩⟩

/-- A block that the parent has just issued starts neither at the record of the region nor at a
descriptor. -/
theorem RegionInv.not_mem_fresh {d n : ℕ} (h : RegionInv path inv J Q k r st region chain blocks)
    (hinv : inv (⟨d, n⟩ :: blocks) st') : d ∉ r :: chain := by
  intro hmem
  have hd : ∃ e ∈ blocks, e.ptr = d := by
    cases List.mem_cons.mp hmem with
    | inl heq =>
      obtain ⟨home, hhome, hr, -⟩ := h.home
      exact ⟨home, hhome, hr.trans heq.symm⟩
    | inr hmem =>
      obtain ⟨e, -, he, hptr, -⟩ := h.buffs d hmem
      exact ⟨e, he, hptr⟩
  obtain ⟨e, he, hptr⟩ := hd
  rw [← hparent.releaseBlock_fresh hinv] at he
  exact (mem_releaseBlock.mp he).2 hptr

/-- An operation on one buffer of the chain. -/
theorem RegionInv.setCell {d : ℕ} {data : Buff} {a : α} {event : Event}
    (h : RegionInv path inv J Q k r st region chain blocks) (hd : d ∈ chain)
    (hdata : st.buffs d = some data) (hevent : ∀ c, event.touches c → c = d)
    (hQ : ∀ e, Q e data (liveBlocks d st.trace) (st.cells data.start) →
      Q e data (liveBlocks d (event :: st.trace)) a) :
    RegionInv path inv J Q k r ((st.setCell data.start a).log event) region chain blocks := by
  have hstart : data.start = d + sizeofBuff := by
    obtain ⟨_, data', -, -, -, hdata', hstart, -⟩ := h.buffs d hd
    obtain rfl := Option.some.inj (hdata.symm.trans hdata')
    exact hstart
  have hown : AgreeOn (fun c => ¬ Covers blocks c) st ((st.setCell data.start a).log event) := by
    obtain ⟨hcover, hcover'⟩ := (h.covers hparent).2 d hd
    apply AgreeOn.of_setCell
    · exact fun hnot => hnot (hstart ▸ hcover')
    · exact fun c hc htouches => hc (hevent c htouches ▸ hcover)
  exact
    { parent := hparent.own h.parent hown
      record := h.record
      ancestors := h.ancestors
      property := h.property
      linked := ⟨h.linked.head, h.linked.tail⟩
      nodup := h.nodup
      fixed := h.fixed
      home := h.home
      buffs := fun c hc => by
        obtain ⟨e, data', he, hptr, hlen, hdata', hstart', hQ'⟩ := h.buffs c hc
        refine ⟨e, data', he, hptr, hlen, hdata', hstart', ?_⟩
        by_cases heq : c = d
        · subst heq
          obtain rfl := Option.some.inj (hdata.symm.trans hdata')
          simpa using hQ e hQ'
        · -- another buffer has its allocator elsewhere, and the event is none of its own
          have hne : data'.start ≠ data.start := by omega
          have hnot : ¬ event.touches c := fun htouches => heq (hevent c htouches)
          rw [Store.log_trace, Store.setCell_trace, liveBlocks_of_not_touches hnot,
            Store.log_cells, Store.setCell_cells, Function.update_of_ne hne]
          exact hQ' }

/-- The record of the region is written. -/
theorem RegionInv.setRegion {k' : ℕ} {R : Region}
    (h : RegionInv path inv J Q k r st region chain blocks)
    (hancestors : R.ancestors = region.ancestors) (hproperty : J k' R)
    (hflags : R.flags = region.flags) {chain' : List ℕ} (hlinked : Linked st R chain')
    (hsub : chain'.Sublist chain) :
    RegionInv path inv J Q k' r (st.setRegion r R) R chain' blocks where
  parent := hparent.own h.parent (.setRegion st (fun hnot => hnot (h.covers hparent).1) R)
  record := Function.update_self ..
  ancestors := hancestors.trans h.ancestors
  property := hproperty
  linked := ⟨hlinked.head, hlinked.tail⟩
  nodup := (List.cons_sublist_cons.mpr hsub).nodup h.nodup
  fixed hfixed := le_trans hsub.length_le (h.fixed (hflags ▸ hfixed))
  home := h.home
  buffs d hd := by simpa using h.buffs d (hsub.subset hd)

/-- A descriptor is written into a block that is not in the chain. -/
theorem RegionInv.setBuff_fresh {d : ℕ} (h : RegionInv path inv J Q k r st region chain blocks)
    (hcover : Covers blocks d) (hnot : d ∉ chain) (data : Buff) :
    RegionInv path inv J Q k r (st.setBuff d data) region chain blocks := by
  have hfresh : ∀ c ∈ chain, Function.update st.buffs d (some data) c = st.buffs c :=
    fun c hc => Function.update_of_ne (fun heq : c = d => hnot (heq ▸ hc)) _ _
  exact
    { parent := hparent.own h.parent (.setBuff st (fun hno => hno hcover) data)
      record := h.record
      ancestors := h.ancestors
      property := h.property
      linked := ⟨h.linked.head.congr hfresh, h.linked.tail⟩
      nodup := h.nodup
      fixed := h.fixed
      home := h.home
      buffs := fun c hc => by
        obtain ⟨e, data', he, hptr, hlen, hdata', hstart', hQ'⟩ := h.buffs c hc
        exact ⟨e, data', he, hptr, hlen, (hfresh c hc).trans hdata', hstart', by simpa using hQ'⟩ }

end Frame

/-- The descriptor of a new buffer has the type of the region. -/
@[simp] theorem Region.cloneBuff_allocType (region : Region) (d size : ℕ) :
    (region.cloneBuff d size).allocType = region.defaultData.allocType := by
  simp [Region.cloneBuff, shallocCloneBuff, shallocGetBuff]

theorem Region.cloneBuff_start (region : Region) {d size : ℕ} (h : d + sizeofBuff < 2 ^ 64) :
    (region.cloneBuff d size).start = d + sizeofBuff :=
  Word.wrap_of_lt h

/-- The size of the next buffer is no smaller than the least size, and fits 64 bits together
with the descriptor. -/
structure GrownFits (region : Region) : Prop where
  lower : shallocBuffMinSize ≤ region.grownSize
  upper : sizeofBuff + region.grownSize < 2 ^ 64

theorem le_buffSize (region : Region) (size : ℕ) :
    region.grownSize ≤ region.buffSize size ∧ size ≤ region.buffSize size := by
  unfold Region.buffSize
  split <;> omega

theorem buffSize_room {size : ℕ} (hgrown : sizeofBuff + region.grownSize < 2 ^ 64)
    (hsize : sizeofBuff + size < 2 ^ 64) : sizeofBuff + region.buffSize size < 2 ^ 64 := by
  unfold Region.buffSize
  split
  · exact hgrown
  · exact hsize

/-- A buffer for a request that fits 64 bits is no smaller than the least size, and fits. -/
theorem GrownFits.buffSize {size : ℕ} (h : GrownFits region) (hsize : sizeofBuff + size < 2 ^ 64) :
    shallocBuffMinSize ≤ region.buffSize size ∧ sizeofBuff + region.buffSize size < 2 ^ 64 :=
  ⟨le_trans h.lower (le_buffSize region size).1, buffSize_room h.upper hsize⟩

/-- The size after a growth, by a buffer in the lower half of the addresses, is the old one or
twice the old one. -/
theorem GrownFits.grown {size d : ℕ} (h : GrownFits region) (htop : top ≤ 2 ^ 63)
    (hroom : d + (sizeofBuff + region.buffSize size) ≤ top) :
    GrownFits (region.setDefaultSize region.grownSize) := by
  have hlower := h.lower
  have hle := (le_buffSize region size).1
  have hdescr : 0 < sizeofBuff := by decide
  have hdouble : Word.wrap 64 (region.grownSize * 2) = region.grownSize * 2 :=
    Word.wrap_of_lt (by omega)
  have hnext : (region.setDefaultSize region.grownSize).grownSize =
      if hasFlag region.flags .elastic then Word.wrap 64 (region.grownSize * 2)
      else region.grownSize := rfl
  rw [hdouble] at hnext
  refine ⟨?_, ?_⟩
  · rw [hnext]
    split <;> omega
  · rw [hnext]
    unfold sizeofBuff at *
    split <;> omega

theorem lt_buffSize (region : Region) {size : ℕ} (hsize : 0 < size) :
    0 < region.buffSize size :=
  lt_of_lt_of_le hsize (le_buffSize region size).2

/-- A buffer that a region has grown by is a block of the parent, so that it was not asked for
more than there is memory. -/
theorem RegionInv.grow_size {size : ℕ} {ret : ℤ} (hparent : SoundParent ops path top limit inv)
    (h : RegionInv path inv J Q k r st region chain blocks) (htop : top ≤ 2 ^ 52)
    (hroom : sizeofBuff + region.buffSize size < 2 ^ 64) (hbelow : region.request size < limit)
    (hgrow : GrowCases ops (shallocMalloc ops path) r size st ret st') (hret : 0 ≤ ret) :
    size < 2 ^ 52 := by
  cases hgrow with
  | fixed => exact absurd hret (by decide)
  | failed => exact absurd hret (by decide)
  | grown _ _ halloc =>
    cases halloc with
    | built hregion _ hmalloc =>
      obtain rfl := Option.some.inj (h.record.symm.trans hregion)
      obtain ⟨hinv, -⟩ := hparent.served h.parent hbelow hmalloc
      have hbounds := (hparent.bounds hinv _ List.mem_cons_self).2
      have hle := (le_buffSize region size).2
      have hdescr : 0 < sizeofBuff := by decide
      rw [Region.request, Word.wrap_of_lt hroom] at hbounds
      simp only at hbounds
      omega

section Grow

variable (hparent : SoundParent ops path top limit inv) (rule : RegionRule ops top J Q legit)
include hparent rule

/-- The parent issues a block for a new buffer: its descriptor is written, and the buffer is
set up. -/
theorem RegionInv.create {size d : ℕ} {ret : ℤ} {st1 st2 : Store α}
    (h : RegionInv path inv J Q k r st region chain blocks) (hpos : 0 < size)
    (hsize : size < 2 ^ 52) (hbelow : region.request size < limit)
    (hmalloc : shallocMalloc ops path (Word.wrap 64 (sizeofBuff + region.buffSize size)) st =
      some (some d, st1))
    (hcreate : (st1.setBuff d (region.cloneBuff d (region.buffSize size))).opCreate ops d =
      some (ret, st2)) :
    RegionInv path inv J Q k r st2 region chain (⟨d, sizeofBuff + region.buffSize size⟩ :: blocks) ∧
      d ∉ r :: chain ∧ d + (sizeofBuff + region.buffSize size) ≤ top ∧
      AgreeOn (Covers blocks) st st2 ∧
      ∃ data, st2.buffs d = some data ∧ data.start = d + sizeofBuff ∧
        (0 ≤ ret → Q ⟨d, sizeofBuff + region.buffSize size⟩ data (liveBlocks d st2.trace)
          (st2.cells data.start)) := by
  have hroom := rule.room h.property hsize
  have hbuff := lt_buffSize region hpos
  rw [Region.request, Word.wrap_of_lt hroom] at hbelow
  rw [Word.wrap_of_lt hroom] at hmalloc
  obtain ⟨hinv, hagree⟩ := hparent.served h.parent hbelow hmalloc
  have htop := (hparent.bounds hinv _ List.mem_cons_self).2
  have htop' := rule.top_le
  simp only at htop
  have hnot := h.not_mem_fresh hparent hinv
  have hstart : (region.cloneBuff d (region.buffSize size)).start = d + sizeofBuff :=
    region.cloneBuff_start (by omega)
  have hcovers : ∀ c, d ≤ c → c ≤ d + sizeofBuff →
      Covers (⟨d, sizeofBuff + region.buffSize size⟩ :: blocks) c ∧ ¬ Covers blocks c := by
    intro c hc hc'
    have hin : d ≤ c ∧ c < d + (sizeofBuff + region.buffSize size) := ⟨hc, by omega⟩
    exact ⟨⟨_, List.mem_cons_self, hin⟩, hparent.not_covers hinv hin⟩
  obtain ⟨hcover, hfresh⟩ := hcovers d le_rfl (by omega)
  obtain ⟨hcover', hfresh'⟩ := hcovers (d + sizeofBuff) (by omega) le_rfl
  have h1 := h.agree hinv (fun _ he _ => he) (fun _ he => List.mem_cons_of_mem _ he) hagree
  have h2 := h1.setBuff_fresh hparent hcover (fun hmem => hnot (List.mem_cons_of_mem _ hmem))
    (region.cloneBuff d (region.buffSize size))
  obtain ⟨data, a, hdata, hop, rfl⟩ := Store.opCreate_eq_some.mp hcreate
  have hdata' : (st1.setBuff d (region.cloneBuff d (region.buffSize size))).buffs d =
      some (region.cloneBuff d (region.buffSize size)) := Function.update_self ..
  obtain rfl := Option.some.inj (hdata'.symm.trans hdata)
  rw [Region.cloneBuff_allocType] at hop
  -- the operation writes in the new block only
  have hwrites : ∀ p : ℕ → Prop, ¬ p d → ¬ p (d + sizeofBuff) →
      AgreeOn p (st1.setBuff d (region.cloneBuff d (region.buffSize size)))
        (((st1.setBuff d (region.cloneBuff d (region.buffSize size))).setCell
          (region.cloneBuff d (region.buffSize size)).start a).log (.create d ret)) :=
    fun p hd hd' => .of_setCell (hstart.symm ▸ hd') fun c hc heq =>
      hd (by rwa [show d = c from heq])
  refine ⟨h2.agree (hparent.own h2.parent (hwrites _ (fun hno => hno hcover)
    fun hno => hno hcover')) (fun e he hmem => ?_) (fun _ he => List.mem_cons_of_mem _ he)
    (hwrites _ hfresh hfresh'), hnot, htop, ?_, _, hdata, hstart, fun hret => ?_⟩
  · cases List.mem_cons.mp he with
    | inl heq => exact absurd (show d ∈ r :: chain by rw [heq] at hmem; exact hmem) hnot
    | inr he => exact he
  · exact (hagree.trans (.setBuff st1 hfresh _)).trans (hwrites _ hfresh hfresh')
  · simpa using rule.created h.property hpos hsize htop hop hret

/-- A new buffer: the parent issues its block, and takes it back when the buffer cannot be
set up. -/
theorem RegionInv.allocBuff {size : ℕ} {d : Option ℕ}
    (h : RegionInv path inv J Q k r st region chain blocks) (hpos : 0 < size)
    (hsize : size < 2 ^ 52) (hbelow : region.request size < limit)
    (halloc : AllocBuffCases ops (shallocMalloc ops path) r size st d st') :
    AgreeOn (fun c => Covers blocks c ∧ c ≠ r) st st' ∧
    ((d = none ∧ RegionInv path inv J Q k r st' region chain blocks) ∨
      ∃ c e, d = some c ∧ RegionInv path inv J Q (k + 1) r st'
          (region.setDefaultSize region.grownSize) chain (e :: blocks) ∧
        c ∉ r :: chain ∧ e.ptr = c ∧ e.len = sizeofBuff + region.buffSize size ∧
        sizeofBuff < e.len ∧ ∃ data, st'.buffs c = some data ∧
          data.start = c + sizeofBuff ∧
          Q e data (liveBlocks c st'.trace) (st'.cells data.start)) := by
  have hrecord : ∀ {c st1 region1}, shallocMalloc ops path
      (Word.wrap 64 (sizeofBuff + region.buffSize size)) st = some (some c, st1) →
      st1.regions r = some region1 → region = region1 := by
    intro c st1 region1 hmalloc hregion1
    obtain ⟨hinv, hagree⟩ := hparent.served h.parent hbelow hmalloc
    rw [hagree.regions r (h.covers hparent).1, h.record] at hregion1
    exact Option.some.inj hregion1
  cases halloc with
  | refused hregion _ hmalloc =>
    obtain rfl := Option.some.inj (h.record.symm.trans hregion)
    obtain ⟨hinv, hagree⟩ := hparent.refused h.parent hbelow hmalloc
    exact ⟨hagree.mono fun _ hc => hc.1, Or.inl ⟨rfl, h.agree hinv (fun _ he _ => he)
      (fun _ he => he) hagree⟩⟩
  | createFailed hregion hq hmalloc hregion1 hcreate _ hfree =>
    obtain rfl := Option.some.inj (h.record.symm.trans hregion)
    obtain rfl := hrecord hmalloc hregion1
    obtain ⟨h2, hnot, -, hbefore, -⟩ := h.create hparent rule hpos hsize hbelow hmalloc hcreate
    have hq' := hq
    rw [Region.parent, h.ancestors] at hq'
    obtain ⟨hinv, hagree⟩ := hparent.freed h2.parent List.mem_cons_self hq' hfree
    have hblocks := hparent.releaseBlock_fresh h2.parent
    rw [hblocks] at hinv hagree
    refine ⟨(hbefore.trans hagree).mono fun _ hc => hc.1,
      Or.inl ⟨rfl, h2.agree hinv (fun e he hmem => ?_) (fun _ he => he) hagree⟩⟩
    rw [← hblocks]
    exact mem_releaseBlock.mpr ⟨he, fun heq => hnot (heq ▸ hmem)⟩
  | built hregion _ hmalloc hregion1 hcreate hret =>
    obtain rfl := Option.some.inj (h.record.symm.trans hregion)
    obtain rfl := hrecord hmalloc hregion1
    obtain ⟨h2, hnot, htop, hbefore, data, hdata, hstart, hQ⟩ :=
      h.create hparent rule hpos hsize hbelow hmalloc hcreate
    have hbuff := lt_buffSize region hpos
    have hlinked : Linked _ (region.setDefaultSize region.grownSize) chain :=
      ⟨h2.linked.head, h2.linked.tail⟩
    have h3 := h2.setRegion hparent (R := region.setDefaultSize region.grownSize) rfl
      (rule.grown h.property hpos hsize htop) rfl hlinked (List.Sublist.refl _)
    refine ⟨AgreeOn.trans (hbefore.mono fun _ hc => hc.1) (.setRegion _ (fun hno => hno.2 rfl) _),
      Or.inr ⟨_, _, rfl, h3, hnot, rfl, rfl, by simp only; omega, data, hdata, hstart, ?_⟩⟩
    simpa using hQ hret

/-- The new buffer joins the chain. -/
theorem RegionInv.attach {d : ℕ} {e : Extent} {data : Buff}
    (h : RegionInv path inv J Q k r st region chain blocks) (he : e ∈ blocks) (hptr : e.ptr = d)
    (hlen : sizeofBuff < e.len) (hnot : d ∉ r :: chain) (hdata : st.buffs d = some data)
    (hstart : data.start = d + sizeofBuff)
    (hQ : Q e data (liveBlocks d st.trace) (st.cells data.start))
    (hfixed : ¬ (region.dataTail.isSome ∧ hasFlag region.flags .nonResizable))
    (hattach : AttachCases r d st st') :
    ∃ head, RegionInv path inv J Q k r st' { region with dataHead := head, dataTail := some d }
      (chain ++ [d]) blocks := by
  have hchain : d ∉ chain := fun hmem => hnot (List.mem_cons_of_mem _ hmem)
  obtain ⟨⟨head, hregions, hlinked⟩, hnew, hlast, hframe, hcells, hlive⟩ :=
    hattach.attached h.record h.linked (List.nodup_cons.mp h.nodup).2 hchain
  obtain ⟨hcover, hcovers⟩ := h.covers hparent
  have hown : AgreeOn (fun c => ¬ Covers blocks c) st st' := by
    refine ⟨fun c hc => ?_, fun c hc => ?_, fun c _ => by rw [hcells], fun c _ => hlive c⟩
    · rw [hregions, Function.update_of_ne (fun heq : c = r => hc (heq ▸ hcover))]
    · refine hframe c (fun heq => hc ⟨e, he, by omega, by omega⟩) fun hmem => ?_
      exact hc (hcovers c (List.mem_of_getLast? hmem)).1
  refine ⟨head, hparent.own h.parent hown, by rw [hregions]; exact Function.update_self ..,
    h.ancestors, rule.link h.property, hlinked, ?_, fun hno => ?_, h.home, fun c hc => ?_⟩
  · rw [← List.cons_append]
    exact List.nodup_append'.mpr ⟨h.nodup, List.nodup_singleton d, by simpa using hnot⟩
  · -- a region that may not grow had no buffer
    have hnil : chain = [] := by
      rw [← List.getLast?_eq_none_iff, ← h.linked.tail]
      by_contra hsome
      exact hfixed ⟨Option.isSome_iff_ne_none.mpr hsome, hno⟩
    simp [hnil]
  · cases List.mem_append.mp hc with
    | inl hc =>
      obtain ⟨e', data', he', hptr', hlen', hdata', hstart', hQ'⟩ := h.buffs c hc
      by_cases htail : chain.getLast? = some c
      · refine ⟨e', _, he', hptr', hlen', hlast c data' htail hdata', hstart', ?_⟩
        rw [hlive, hcells]
        exact rule.next _ hQ'
      · refine ⟨e', data', he', hptr', hlen',
          (hframe c (fun heq => hchain (heq ▸ hc)) htail).trans hdata', hstart', ?_⟩
        rw [hlive, hcells]
        exact hQ'
    | inr hc =>
      obtain rfl := List.mem_singleton.mp hc
      refine ⟨e, _, he, hptr, hlen, hnew data hdata, hstart, ?_⟩
      rw [hlive, hcells]
      exact rule.next _ hQ

/-- `shalloc_region_grow` adds a buffer in a new block of the parent, if it returns 0. -/
theorem RegionInv.grow {size : ℕ} {ret : ℤ}
    (h : RegionInv path inv J Q k r st region chain blocks) (hpos : 0 < size)
    (hsize : size < 2 ^ 52) (hbelow : region.request size < limit)
    (hgrow : GrowCases ops (shallocMalloc ops path) r size st ret st') :
    (ret ≠ 0 ∧ RegionInv path inv J Q k r st' region chain blocks) ∨
      ret = 0 ∧ ∃ e region', region'.dataTail = some e.ptr ∧
        RegionInv path inv J Q (k + 1) r st' region' (chain ++ [e.ptr]) (e :: blocks) := by
  cases hgrow with
  | fixed => exact Or.inl ⟨by decide, h⟩
  | failed _ _ halloc =>
    obtain ⟨-, ⟨-, h'⟩ | ⟨c, -, hc, -⟩⟩ := h.allocBuff hparent rule hpos hsize hbelow halloc
    · exact Or.inl ⟨by decide, h'⟩
    · exact absurd hc (by simp)
  | @grown _ d _ _ hregion hfixed halloc hattach =>
    obtain rfl := Option.some.inj (h.record.symm.trans hregion)
    obtain ⟨-, ⟨hd, -⟩ | ⟨c, e, hd, h', hnot, rfl, -, hlen, data, hdata, hstart, hQ⟩⟩ :=
      h.allocBuff hparent rule hpos hsize hbelow halloc
    · exact absurd hd (by simp)
    · obtain rfl := Option.some.inj hd
      obtain ⟨head, h''⟩ := h'.attach hparent rule List.mem_cons_self rfl hlen hnot hdata hstart
        hQ hfixed hattach
      exact Or.inr ⟨rfl, e, _, rfl, h''⟩

/-- `shalloc_region_grow` keeps the invariant, and counts as a growth if it returns 0. -/
theorem RegionKept.grow {size : ℕ} {ret : ℤ} (h : RegionKept path inv J Q k r st chain)
    (hpos : 0 < size) (hsize : size < 2 ^ 52) (hbelow : AsksBelow limit r size st)
    (hgrow : GrowCases ops (shallocMalloc ops path) r size st ret st') :
    RegionKept path inv J Q (k + if ret = 0 then 1 else 0) r st'
      (chain ++ attachedBy r (if ret = 0 then 1 else 0) st') := by
  obtain ⟨region, blocks, h⟩ := h
  obtain ⟨hret, h'⟩ | ⟨rfl, e, region', ht, h'⟩ := h.grow hparent rule hpos hsize
    (hbelow region h.record) hgrow
  · simpa [attachedBy, hret] using ⟨region, blocks, h'⟩
  · have htail : attachedBy r 1 st' = [e.ptr] := by simp [attachedBy, h'.record, ht]
    simpa [htail] using ⟨_, _, h'⟩

/-- A growth writes to the record of the region and to the descriptors of its chain, and
leaves what else is in the blocks of the region alone. -/
theorem RegionInv.grow_agree {size : ℕ} {ret : ℤ}
    (h : RegionInv path inv J Q k r st region chain blocks) (hpos : 0 < size)
    (hsize : size < 2 ^ 52) (hbelow : region.request size < limit)
    (hgrow : GrowCases ops (shallocMalloc ops path) r size st ret st') :
    AgreeOn (fun c => Covers blocks c ∧ c ∉ r :: chain) st st' := by
  have hne : ∀ c, Covers blocks c ∧ c ∉ r :: chain → Covers blocks c ∧ c ≠ r :=
    fun c hc => ⟨hc.1, fun heq => hc.2 (heq ▸ List.mem_cons_self)⟩
  cases hgrow with
  | fixed => exact .refl _ st
  | failed _ _ halloc => exact (h.allocBuff hparent rule hpos hsize hbelow halloc).1.mono hne
  | @grown _ d st1 _ _ _ halloc hattach =>
    obtain ⟨hagree, ⟨hd, -⟩ | ⟨c, e, hd, h', -, hptr, -, -⟩⟩ :=
      h.allocBuff hparent rule hpos hsize hbelow halloc
    · exact absurd hd (by simp)
    obtain rfl := Option.some.inj hd
    refine (hagree.mono hne).trans ?_
    -- the new buffer is in none of the old blocks
    have hfresh : ¬ (Covers blocks d ∧ d ∉ r :: chain) := by
      have hbounds := hparent.bounds h'.parent e List.mem_cons_self
      exact fun hno => hparent.not_covers h'.parent (by omega) hno.1
    have hrecord : ¬ (Covers blocks r ∧ r ∉ r :: chain) := fun hno => hno.2 List.mem_cons_self
    cases hattach with
    | first => exact (AgreeOn.setRegion st1 hrecord _).trans (.setBuff _ hfresh _)
    | @last _ t _ _ hregion1 htail =>
      obtain rfl := Option.some.inj (h'.record.symm.trans hregion1)
      have ht : ¬ (Covers blocks t ∧ t ∉ r :: chain) :=
        fun hno => hno.2 (List.mem_cons_of_mem _ (h'.linked.tail_mem htail))
      exact ((AgreeOn.setBuff st1 ht _).trans (.setRegion _ hrecord _)).trans
        (.setBuff _ hfresh _)

/-- A growth writes to the links of the chain, and leaves its descriptors alone otherwise. -/
theorem RegionInv.grow_buffs {size : ℕ} {ret : ℤ}
    (h : RegionInv path inv J Q k r st region chain blocks) (hpos : 0 < size)
    (hsize : size < 2 ^ 52) (hbelow : region.request size < limit)
    (hgrow : GrowCases ops (shallocMalloc ops path) r size st ret st') :
    ∀ d ∈ chain, ∀ data, st.buffs d = some data →
      ∃ link, st'.buffs d = some { data with next := link } := by
  intro d hd data hdata
  have hcover : Covers blocks d ∧ d ≠ r :=
    ⟨((h.covers hparent).2 d hd).1, fun heq => (List.nodup_cons.mp h.nodup).1 (heq ▸ hd)⟩
  cases hgrow with
  | fixed => exact ⟨data.next, hdata⟩
  | failed _ _ halloc =>
    obtain ⟨hagree, -⟩ := h.allocBuff hparent rule hpos hsize hbelow halloc
    exact ⟨data.next, (hagree.buffs d hcover).trans hdata⟩
  | @grown _ c _ _ _ _ halloc hattach =>
    obtain ⟨hagree, ⟨hno, -⟩ | ⟨c', e, hc, h', hnot, -⟩⟩ :=
      h.allocBuff hparent rule hpos hsize hbelow halloc
    · exact absurd hno (by simp)
    obtain rfl : c = c' := Option.some.inj hc
    have hdata1 := (hagree.buffs d hcover).trans hdata
    have hchain : c ∉ chain := fun hmem => hnot (List.mem_cons_of_mem _ hmem)
    have hattached := hattach.attached h'.record h'.linked (List.nodup_cons.mp h'.nodup).2 hchain
    by_cases hlast : chain.getLast? = some d
    · exact ⟨some c, hattached.last d data hlast hdata1⟩
    · have hdc : d ≠ c := fun heq => hchain (heq ▸ hd)
      exact ⟨data.next, (hattached.frame d hdc hlast).trans hdata1⟩

omit hparent rule in
/-- A buffer that is attached changes no blocks in use. -/
theorem AttachCases.live {d : ℕ} (h : AttachCases r d st st') (c : ℕ) :
    liveBlocks c st'.trace = liveBlocks c st.trace := by
  cases h with
  | first => simp
  | last => simp

/-- A growth leaves the blocks in use of the buffers that are there alone. -/
theorem RegionKept.grow_live {size : ℕ} {ret : ℤ} (h : RegionKept path inv J Q k r st chain)
    (hpos : 0 < size) (hsize : size < 2 ^ 52) (hbelow : AsksBelow limit r size st)
    (hgrow : GrowCases ops (shallocMalloc ops path) r size st ret st') :
    ∀ d ∈ chain, liveBlocks d st'.trace = liveBlocks d st.trace := by
  obtain ⟨region, blocks, h⟩ := h
  intro d hd
  have hcover : Covers blocks d ∧ d ≠ r :=
    ⟨((h.covers hparent).2 d hd).1, fun heq => (List.nodup_cons.mp h.nodup).1 (heq ▸ hd)⟩
  cases hgrow with
  | fixed => rfl
  | failed _ _ halloc =>
    have hkept := (h.allocBuff hparent rule hpos hsize (hbelow region h.record) halloc).1
    exact hkept.live d hcover
  | grown _ _ halloc hattach =>
    have hkept := (h.allocBuff hparent rule hpos hsize (hbelow region h.record) halloc).1
    exact (hattach.live d).trans (hkept.live d hcover)

end Grow

section Growths

variable (ops : BuffAllocType → BuffOp α)
  (parentMalloc ask : ℕ → Store α → Option (Option ℕ × Store α))

/-- The answer of the tail buffer, or NULL without one. -/
def tailAnswer (r : ℕ) (st : Store α) : Option (Option ℕ × Store α) := do
  let region ← st.regions r
  match region.dataTail with
  | some tail => ask tail st
  | none => some (none, st)

/-- How often `shalloc_region_grow` returns 0 in `shallocServe`. -/
def serveGrowths (r size : ℕ) (st : Store α) : ℕ :=
  match tailAnswer ask r st with
  | some (none, st) =>
    match shallocRegionGrow ops parentMalloc r (shallocBuffAllocSize size) st with
    | some (ret, _) => if ret = 0 then 1 else 0
    | none => 0
  | _ => 0

/-- How often `shalloc_region_grow` returns 0 in `shalloc_malloc`. -/
def mallocGrowths : List ℕ → ℕ → Store α → ℕ
  | [], _, _ => 0
  | r :: ancestors, size, st =>
    if size = 0 then 0
    else serveGrowths ops (shallocMalloc ops ancestors) (fun tail st => st.opMalloc ops tail size)
      r size (st.log (.request r size))

/-- How often `shalloc_region_grow` returns 0 in `shalloc_calloc`. -/
def callocGrowths : List ℕ → ℕ → ℕ → Store α → ℕ
  | [], _, _, _ => 0
  | r :: ancestors, nmemb, size, st =>
    if Word.wrap 64 (nmemb * size) = 0 then 0
    else serveGrowths ops (shallocMalloc ops ancestors)
      (fun tail st => st.opCalloc ops tail nmemb size) r (Word.wrap 64 (nmemb * size))
      (st.log (.request r (Word.wrap 64 (nmemb * size))))

/-- How often `shalloc_region_grow` returns 0 in `shalloc_orealloc`. -/
def oreallocGrowths (path : List ℕ) (ptr : Option ℕ) (size oldSize : ℕ) (st : Store α) : ℕ :=
  match ptr with
  | none => mallocGrowths ops path size st
  | some _ => if size ≤ oldSize then 0 else mallocGrowths ops path size st

end Growths

/-- The parts of a call: the tail buffer answers, or the region grows and its new tail does. -/
theorem shallocServe_growths {parentMalloc ask : ℕ → Store α → Option (Option ℕ × Store α)}
    {size : ℕ} {p : Option ℕ} (h : shallocServe ops parentMalloc ask r size st = some (p, st')) :
    (∃ region t q, st.regions r = some region ∧ region.dataTail = some t ∧ p = some q ∧
        ask t st = some (some q, st') ∧ serveGrowths ops parentMalloc ask r size st = 0) ∨
      ∃ st1 st2 ret, TailRefuses ask r st st1 ∧
        GrowCases ops parentMalloc r (shallocBuffAllocSize size) st1 ret st2 ∧
        serveGrowths ops parentMalloc ask r size st = (if ret = 0 then 1 else 0) ∧
        ((ret ≠ 0 ∧ p = none ∧ st' = st2) ∨
          ret = 0 ∧ ∃ region t, st2.regions r = some region ∧ region.dataTail = some t ∧
            ask t st2 = some (p, st')) := by
  have hsplit : shallocServe ops parentMalloc ask r size st =
      (tailAnswer ask r st).bind fun a => match a.1 with
        | some p => some (some p, a.2)
        | none => (shallocRegionGrow ops parentMalloc r (shallocBuffAllocSize size) a.2).bind
            fun b => if b.1 = 0 then
              (b.2.regions r).bind fun region => region.dataTail.bind fun tail => ask tail b.2
            else some (none, b.2) := by
    simp only [shallocServe, tailAnswer, bind, Option.bind_assoc]
    congr 1
    funext region
    cases region.dataTail <;> rfl
  rw [hsplit] at h
  obtain ⟨⟨q, st1⟩, hanswer, h⟩ := Option.bind_eq_some_iff.mp h
  have htail := hanswer
  simp only [tailAnswer, bind, Option.bind_eq_some_iff] at htail
  obtain ⟨region, hregion, htail⟩ := htail
  cases q with
  | some q =>
    obtain ⟨rfl, rfl⟩ := Prod.mk.inj (Option.some.inj h)
    cases ht : region.dataTail with
    | none => simp [ht] at htail
    | some t =>
      rw [ht] at htail
      exact Or.inl ⟨region, t, q, hregion, ht, rfl, htail, by simp [serveGrowths, hanswer]⟩
  | none =>
    have hrefuses : TailRefuses ask r st st1 := by
      cases ht : region.dataTail with
      | none =>
        simp only [ht, Option.some.injEq, Prod.mk.injEq, true_and] at htail
        subst htail
        exact .empty hregion ht
      | some t =>
        rw [ht] at htail
        exact .refused hregion ht htail
    obtain ⟨⟨ret, st2⟩, hgrow, h⟩ := Option.bind_eq_some_iff.mp h
    refine Or.inr ⟨st1, st2, ret, hrefuses, shallocRegionGrow_cases hgrow,
      by simp [serveGrowths, hanswer, hgrow], ?_⟩
    by_cases hret : ret = 0
    · simp only [if_pos hret, Option.bind_eq_some_iff] at h
      obtain ⟨region2, hregion2, t, ht, hask⟩ := h
      exact Or.inr ⟨hret, region2, t, hregion2, ht, hask⟩
    · simp only [if_neg hret, Option.some.injEq, Prod.mk.injEq] at h
      exact Or.inl ⟨hret, h.1.symm, h.2.symm⟩

theorem Store.opMalloc_frame {t n : ℕ} {p : Option ℕ} (h : st.opMalloc ops t n = some (p, st')) :
    st'.regions = st.regions ∧ st'.buffs = st.buffs := by
  obtain ⟨_, _, -, -, rfl⟩ := Store.opMalloc_eq_some.mp h
  exact ⟨rfl, rfl⟩

theorem Store.opCalloc_frame {t nmemb size : ℕ} {p : Option ℕ}
    (h : st.opCalloc ops t nmemb size = some (p, st')) :
    st'.regions = st.regions ∧ st'.buffs = st.buffs := by
  obtain ⟨st1, hmalloc, rfl⟩ := Store.opCalloc_eq_some.mp h
  obtain ⟨hregions, hbuffs⟩ := Store.opMalloc_frame hmalloc
  cases p with
  | none => exact ⟨hregions, hbuffs⟩
  | some q => exact ⟨hregions, hbuffs⟩

/-- What the tail buffer does with a request for `n` bytes: it adds the block that it hands
out to the blocks in use, takes none back, and leaves the records alone. -/
structure Issues (ask : ℕ → Store α → Option (Option ℕ × Store α)) (n : ℕ) : Prop where
  regions : ∀ {t st st' p}, ask t st = some (p, st') → st'.regions = st.regions
  kept : ∀ {t st st' p}, ask t st = some (p, st') →
    ∀ d, ∀ e ∈ liveBlocks d st.trace, e ∈ liveBlocks d st'.trace
  issued : ∀ {t st st' q}, ask t st = some (some q, st') → ⟨q, n⟩ ∈ liveBlocks t st'.trace

theorem opMalloc_issues (ops : BuffAllocType → BuffOp α) (n : ℕ) :
    Issues (fun t st => st.opMalloc ops t n) n where
  regions hcall := (Store.opMalloc_frame hcall).1
  kept := by
    intro t st st' p hcall d e he
    obtain ⟨_, _, -, -, rfl⟩ := Store.opMalloc_eq_some.mp hcall
    cases p with
    | none => exact he
    | some q =>
      simp only [Store.log_trace, Store.setCell_trace, liveBlocks_malloc_some]
      split
      · exact List.mem_cons_of_mem _ he
      · exact he
  issued := by
    intro t st st' q hcall
    obtain ⟨_, _, -, -, rfl⟩ := Store.opMalloc_eq_some.mp hcall
    simp

theorem opCalloc_issues (ops : BuffAllocType → BuffOp α) (nmemb size : ℕ) :
    Issues (fun t st => st.opCalloc ops t nmemb size) (Word.wrap 64 (nmemb * size)) where
  regions hcall := (Store.opCalloc_frame hcall).1
  kept := by
    intro t st st' p hcall d e he
    obtain ⟨st1, hmalloc, rfl⟩ := Store.opCalloc_eq_some.mp hcall
    have he1 := (opMalloc_issues ops _).kept hmalloc d e he
    cases p with
    | none => exact he1
    | some q => exact he1
  issued := by
    intro t st st' q hcall
    obtain ⟨st1, hmalloc, rfl⟩ := Store.opCalloc_eq_some.mp hcall
    rw [Nat.mul_comm] at hmalloc
    have hmem := (opMalloc_issues ops _).issued hmalloc
    exact hmem

/-- A refusal of the tail buffer changes nothing of what the region asks for. -/
theorem AsksBelow.refused {ask : ℕ → Store α → Option (Option ℕ × Store α)} {size : ℕ}
    (h : AsksBelow limit r size st) (hrefuses : TailRefuses ask r st st')
    (hframe : ∀ {t st st' p}, ask t st = some (p, st') → st'.regions = st.regions) :
    AsksBelow limit r size st' := by
  cases hrefuses with
  | empty => exact h
  | refused _ _ hcall => exact h.congr (congrFun (hframe hcall) r)

section Calls

variable (hparent : SoundParent ops path top limit inv) (rule : RegionRule ops top J Q legit)
include hparent rule

/-- The tail buffer answers a request. -/
theorem RegionInv.opMalloc {t n : ℕ} {p : Option ℕ}
    (h : RegionInv path inv J Q k r st region chain blocks) (hpos : 0 < n) (hn : n < 2 ^ 48)
    (ht : region.dataTail = some t) (hcall : st.opMalloc ops t n = some (p, st')) :
    RegionInv path inv J Q k r st' region chain blocks := by
  have hd : t ∈ chain := h.linked.tail_mem ht
  obtain ⟨data, a, hdata, hop, rfl⟩ := Store.opMalloc_eq_some.mp hcall
  refine h.setCell hparent hd hdata ?_ fun e hQ => ?_
  · rintro c htouches
    cases p with
    | none => exact absurd htouches (by simp [Event.touches])
    | some q => exact (show t = c from htouches).symm
  · have hQ' := rule.malloc hQ hpos hn hop
    cases p <;> simpa using hQ'

theorem RegionKept.opMalloc {t n : ℕ} {p : Option ℕ} (h : RegionKept path inv J Q k r st chain)
    (hpos : 0 < n) (hn : n < 2 ^ 48) (hregion : st.regions r = some region)
    (ht : region.dataTail = some t) (hcall : st.opMalloc ops t n = some (p, st')) :
    RegionKept path inv J Q k r st' chain := by
  obtain ⟨region', blocks, h⟩ := h
  obtain rfl := Option.some.inj (h.record.symm.trans hregion)
  exact ⟨region', blocks, h.opMalloc hparent rule hpos hn ht hcall⟩

theorem RegionKept.opCalloc {t nmemb size : ℕ} {p : Option ℕ}
    (h : RegionKept path inv J Q k r st chain)
    (hpos : 0 < Word.wrap 64 (nmemb * size)) (hn : Word.wrap 64 (nmemb * size) < 2 ^ 48)
    (hregion : st.regions r = some region) (ht : region.dataTail = some t)
    (hcall : st.opCalloc ops t nmemb size = some (p, st')) :
    RegionKept path inv J Q k r st' chain := by
  obtain ⟨st1, hmalloc, rfl⟩ := Store.opCalloc_eq_some.mp hcall
  rw [Nat.mul_comm] at hmalloc
  have h1 := h.opMalloc hparent rule hpos hn hregion ht hmalloc
  cases p with
  | none => exact h1
  | some q =>
    obtain ⟨region', blocks, h1⟩ := h1
    exact ⟨region', blocks, h1.log hparent _ (by simp [Event.touches])⟩

/-- A request that goes to the tail buffer, and to the new tail after a growth. -/
theorem RegionKept.serve {ask : ℕ → Store α → Option (Option ℕ × Store α)} {n : ℕ} {p : Option ℕ}
    (h : RegionKept path inv J Q k r st chain) (hpos : 0 < n) (hn : n < 2 ^ 48)
    (hbelow : AsksBelow limit r (shallocBuffAllocSize n) st)
    (hframe : ∀ {t st st' p}, ask t st = some (p, st') → st'.regions = st.regions)
    (hask : ∀ {k chain st st' region t p}, RegionKept path inv J Q k r st chain →
      st.regions r = some region → region.dataTail = some t → ask t st = some (p, st') →
      RegionKept path inv J Q k r st' chain)
    (hserve : shallocServe ops (shallocMalloc ops path) ask r n st = some (p, st')) :
    RegionKept path inv J Q (k + serveGrowths ops (shallocMalloc ops path) ask r n st) r st'
      (chain ++ attachedBy r (serveGrowths ops (shallocMalloc ops path) ask r n st) st') := by
  obtain ⟨hpos', hsize⟩ := shallocBuffAllocSize_bounds hpos hn
  obtain ⟨region, t, q, hregion, ht, -, hcall, hcount⟩ |
      ⟨st1, st2, ret, hrefuses, hgrow, hcount, hend⟩ := shallocServe_growths hserve
  · have h' := hask h hregion ht hcall
    simpa [hcount, attachedBy] using h'
  · have h1 : RegionKept path inv J Q k r st1 chain := by
      cases hrefuses with
      | empty => exact h
      | refused hregion ht hcall => exact hask h hregion ht hcall
    have h2 := h1.grow hparent rule hpos' hsize (hbelow.refused hrefuses hframe) hgrow
    rw [hcount]
    obtain ⟨-, -, rfl⟩ | ⟨-, region, t, hregion, ht, hcall⟩ := hend
    · exact h2
    · have h3 := hask h2 hregion ht hcall
      rw [h2.attachedBy_eq h3] at h3
      exact h3

/-- A request leaves the blocks in use of the chain in use, and the block that it returns is
in use in the tail. -/
theorem RegionKept.serve_issued {ask : ℕ → Store α → Option (Option ℕ × Store α)} {n m : ℕ}
    {p : Option ℕ} (h : RegionKept path inv J Q k r st chain) (hpos : 0 < n) (hn : n < 2 ^ 48)
    (hbelow : AsksBelow limit r (shallocBuffAllocSize n) st)
    (hask : ∀ {k chain st st' region t p}, RegionKept path inv J Q k r st chain →
      st.regions r = some region → region.dataTail = some t → ask t st = some (p, st') →
      RegionKept path inv J Q k r st' chain)
    (hissues : Issues ask m)
    (hserve : shallocServe ops (shallocMalloc ops path) ask r n st = some (p, st')) :
    (∀ d ∈ chain, ∀ e ∈ liveBlocks d st.trace, e ∈ liveBlocks d st'.trace) ∧
      ∀ q ∈ p, ∃ region t, st'.regions r = some region ∧ region.dataTail = some t ∧
        ⟨q, m⟩ ∈ liveBlocks t st'.trace := by
  obtain ⟨hpos', hsize⟩ := shallocBuffAllocSize_bounds hpos hn
  obtain ⟨region, t, q, hregion, ht, rfl, hcall, -⟩ |
      ⟨st1, st2, ret, hrefuses, hgrow, -, hend⟩ := shallocServe_growths hserve
  · refine ⟨fun d _ => hissues.kept hcall d, fun q' hq' => ?_⟩
    obtain rfl := Option.some.inj hq'
    exact ⟨region, t, by rw [hissues.regions hcall]; exact hregion, ht, hissues.issued hcall⟩
  · have h1 : RegionKept path inv J Q k r st1 chain ∧
        ∀ d, ∀ e ∈ liveBlocks d st.trace, e ∈ liveBlocks d st1.trace := by
      cases hrefuses with
      | empty => exact ⟨h, fun _ _ he => he⟩
      | refused hregion ht hcall => exact ⟨hask h hregion ht hcall, hissues.kept hcall⟩
    have hlive : ∀ d ∈ chain, ∀ e ∈ liveBlocks d st.trace, e ∈ liveBlocks d st2.trace := by
      intro d hd e he
      rw [h1.1.grow_live hparent rule hpos' hsize (hbelow.refused hrefuses hissues.regions) hgrow
        d hd]
      exact h1.2 d e he
    obtain ⟨-, rfl, rfl⟩ | ⟨-, region, t, hregion, ht, hcall⟩ := hend
    · exact ⟨hlive, fun q hq => absurd hq (by simp)⟩
    · refine ⟨fun d hd e he => hissues.kept hcall d e (hlive d hd e he), fun q hq => ?_⟩
      obtain rfl := Option.mem_def.mp hq
      exact ⟨region, t, by rw [hissues.regions hcall]; exact hregion, ht, hissues.issued hcall⟩

omit rule in
theorem RegionKept.log (h : RegionKept path inv J Q k r st chain) (event : Event)
    (hevent : ∀ a, ¬ event.touches a) : RegionKept path inv J Q k r (st.log event) chain := by
  obtain ⟨region, blocks, h⟩ := h
  exact ⟨region, blocks, h.log hparent event hevent⟩

theorem RegionKept.malloc {n : ℕ} {p : Option ℕ} (h : RegionKept path inv J Q k r st chain)
    (hn : n < 2 ^ 48) (hbelow : AsksBelow limit r (shallocBuffAllocSize n) st)
    (hcall : shallocMalloc ops (r :: path) n st = some (p, st')) :
    RegionKept path inv J Q (k + mallocGrowths ops (r :: path) n st) r st'
      (chain ++ attachedBy r (mallocGrowths ops (r :: path) n st) st') := by
  have hlog := h.log hparent (.request r n) (by simp [Event.touches])
  simp only [shallocMalloc, mallocGrowths] at hcall ⊢
  by_cases hzero : n = 0
  · rw [if_pos hzero] at hcall ⊢
    rw [← (Prod.mk.inj (Option.some.inj hcall)).2]
    simpa [attachedBy] using hlog
  · rw [if_neg hzero] at hcall ⊢
    have hpos := Nat.pos_of_ne_zero hzero
    exact hlog.serve hparent rule hpos hn hbelow (opMalloc_issues ops n).regions
      (fun h hregion ht hcall => h.opMalloc hparent rule hpos hn hregion ht hcall) hcall

theorem RegionKept.malloc_issued {n : ℕ} {p : Option ℕ} (h : RegionKept path inv J Q k r st chain)
    (hn : n < 2 ^ 48) (hbelow : AsksBelow limit r (shallocBuffAllocSize n) st)
    (hcall : shallocMalloc ops (r :: path) n st = some (p, st')) :
    (∀ d ∈ chain, ∀ e ∈ liveBlocks d st.trace, e ∈ liveBlocks d st'.trace) ∧
      ∀ q ∈ p, ∃ region t, st'.regions r = some region ∧ region.dataTail = some t ∧
        ⟨q, n⟩ ∈ liveBlocks t st'.trace := by
  have hlog := h.log hparent (.request r n) (by simp [Event.touches])
  simp only [shallocMalloc] at hcall
  by_cases hzero : n = 0
  · rw [if_pos hzero] at hcall
    obtain ⟨rfl, rfl⟩ := Prod.mk.inj (Option.some.inj hcall)
    exact ⟨fun _ _ _ he => he, fun q hq => absurd hq (by simp)⟩
  · rw [if_neg hzero] at hcall
    have hpos := Nat.pos_of_ne_zero hzero
    exact hlog.serve_issued hparent rule hpos hn hbelow
      (fun h hregion ht hcall => h.opMalloc hparent rule hpos hn hregion ht hcall)
      (opMalloc_issues ops n) hcall

theorem RegionKept.calloc {nmemb size : ℕ} {p : Option ℕ} (h : RegionKept path inv J Q k r st chain)
    (hn : nmemb * size < 2 ^ 48)
    (hbelow : AsksBelow limit r (shallocBuffAllocSize (nmemb * size)) st)
    (hcall : shallocCalloc ops (r :: path) nmemb size st = some (p, st')) :
    RegionKept path inv J Q (k + callocGrowths ops (r :: path) nmemb size st) r st'
      (chain ++ attachedBy r (callocGrowths ops (r :: path) nmemb size st) st') := by
  have hwrap : Word.wrap 64 (nmemb * size) = nmemb * size := Word.wrap_of_lt (by omega)
  have hlog := h.log hparent (.request r (Word.wrap 64 (nmemb * size))) (by simp [Event.touches])
  simp only [shallocCalloc, callocGrowths] at hcall ⊢
  by_cases hzero : Word.wrap 64 (nmemb * size) = 0
  · rw [if_pos hzero] at hcall ⊢
    rw [← (Prod.mk.inj (Option.some.inj hcall)).2]
    simpa [attachedBy] using hlog
  · rw [if_neg hzero] at hcall ⊢
    have hpos := Nat.pos_of_ne_zero hzero
    rw [← hwrap] at hn hbelow
    exact hlog.serve hparent rule hpos hn hbelow (opCalloc_issues ops nmemb size).regions
      (fun h hregion ht hcall => h.opCalloc hparent rule hpos hn hregion ht hcall) hcall

theorem RegionKept.calloc_issued {nmemb size : ℕ} {p : Option ℕ}
    (h : RegionKept path inv J Q k r st chain) (hn : nmemb * size < 2 ^ 48)
    (hbelow : AsksBelow limit r (shallocBuffAllocSize (nmemb * size)) st)
    (hcall : shallocCalloc ops (r :: path) nmemb size st = some (p, st')) :
    (∀ d ∈ chain, ∀ e ∈ liveBlocks d st.trace, e ∈ liveBlocks d st'.trace) ∧
      ∀ q ∈ p, ∃ region t, st'.regions r = some region ∧ region.dataTail = some t ∧
        ⟨q, nmemb * size⟩ ∈ liveBlocks t st'.trace := by
  have hwrap : Word.wrap 64 (nmemb * size) = nmemb * size := Word.wrap_of_lt (by omega)
  have hlog := h.log hparent (.request r (Word.wrap 64 (nmemb * size))) (by simp [Event.touches])
  have hissues := opCalloc_issues ops nmemb size
  simp only [shallocCalloc] at hcall
  by_cases hzero : Word.wrap 64 (nmemb * size) = 0
  · rw [if_pos hzero] at hcall
    obtain ⟨rfl, rfl⟩ := Prod.mk.inj (Option.some.inj hcall)
    exact ⟨fun _ _ _ he => he, fun q hq => absurd hq (by simp)⟩
  · rw [if_neg hzero] at hcall
    have hpos := Nat.pos_of_ne_zero hzero
    rw [← hwrap] at hn hbelow ⊢
    exact hlog.serve_issued hparent rule hpos hn hbelow
      (fun h hregion ht hcall => h.opCalloc hparent rule hpos hn hregion ht hcall) hissues hcall

/-- `shalloc_free` of a pointer that is legitimate in the tail buffer, if that buffer is
asked at all. -/
theorem RegionKept.free {p : ℕ} (h : RegionKept path inv J Q k r st chain)
    (hlegit : ∀ region t data, st.regions r = some region → region.dataTail = some t →
      st.buffs t = some data → shallocIsBuffAddr data p → legit (liveBlocks t st.trace) p)
    (hcall : shallocFree ops r p st = some st') : RegionKept path inv J Q k r st' chain := by
  obtain ⟨region, blocks, hlog⟩ := h.log hparent (.release r p) (by simp [Event.touches])
  cases shallocFree_cases hcall with
  | ignored => exact ⟨region, blocks, hlog⟩
  | asked hregion ht hbuff haddr hfree =>
    obtain rfl := Option.some.inj (hlog.record.symm.trans hregion)
    have hd := hlog.linked.tail_mem ht
    obtain ⟨data, a, hdata, hop, rfl⟩ := Store.opFree_eq_some.mp hfree
    refine ⟨region, blocks, hlog.setCell hparent hd hdata ?_ fun e hQ => ?_⟩
    · exact fun c htouches => (show _ = c from htouches).symm
    · simpa using rule.free hQ (hlegit region _ _ hregion ht hbuff haddr) hop

/-- `shalloc_orealloc`, whose old pointer is legitimate to free. -/
theorem RegionKept.orealloc {ptr p : Option ℕ} {size oldSize : ℕ}
    (h : RegionKept path inv J Q k r st chain) (hn : size < 2 ^ 48)
    (hbelow : AsksBelow limit r (shallocBuffAllocSize size) st)
    (hlegit : ∀ q ∈ ptr, ∀ {k st1 chain}, RegionKept path inv J Q k r st1 chain →
      (st1 = st ∨ ∃ q' st2, shallocMalloc ops (r :: path) size st = some (some q', st2) ∧
        st1 = st2.log (.copy q' q oldSize)) →
      ∀ region t data, st1.regions r = some region → region.dataTail = some t →
        st1.buffs t = some data → shallocIsBuffAddr data q → legit (liveBlocks t st1.trace) q)
    (hcall : shallocOrealloc ops (r :: path) ptr size oldSize st = some (p, st')) :
    RegionKept path inv J Q (k + oreallocGrowths ops (r :: path) ptr size oldSize st) r st'
      (chain ++ attachedBy r (oreallocGrowths ops (r :: path) ptr size oldSize st) st') := by
  cases shallocOrealloc_cases hcall with
  | fresh hmalloc => exact h.malloc hparent rule hn hbelow hmalloc
  | freed hzero hfree =>
    rw [oreallocGrowths, if_pos (by omega)]
    simpa [attachedBy] using h.free hparent rule (hlegit _ rfl h (Or.inl rfl)) hfree
  | kept _ hle =>
    rw [oreallocGrowths, if_pos hle]
    simpa [attachedBy] using h
  | refused hlt hmalloc =>
    rw [oreallocGrowths, if_neg (Nat.not_le_of_lt hlt)]
    exact h.malloc hparent rule hn hbelow hmalloc
  | @moved q q' _ _ hlt hmalloc hfree =>
    rw [oreallocGrowths, if_neg (Nat.not_le_of_lt hlt)]
    have h1 := (h.malloc hparent rule hn hbelow hmalloc).log hparent (.copy q' q oldSize)
      (by simp [Event.touches])
    have h2 := h1.free hparent rule (hlegit _ rfl h1 (Or.inr ⟨_, _, hmalloc, rfl⟩)) hfree
    rwa [(h.malloc hparent rule hn hbelow hmalloc).attachedBy_eq h2] at h2

end Calls

section Reset

variable {P : ℕ} (hparent : SoundParent ops path top limit inv) (hP : path.head? = some P)
include hparent hP

/-- Freeing buffers of the region: their blocks go back to the parent, and the other blocks
are left alone. -/
theorem SoundParent.freeBuffs (hfree : region.parent = some P) (ds : List ℕ) :
    ∀ {st blocks}, inv blocks st → st.regions r = some region → ds.Nodup →
      (∀ d ∈ ds, ∃ e data, e ∈ blocks ∧ e.ptr = d ∧ sizeofBuff < e.len ∧
        st.buffs d = some data ∧ data.start = d + sizeofBuff) →
      shallocRegionFreeBuffs ops r ds st = some st' →
      st'.regions = st.regions ∧ st'.buffs = st.buffs ∧ ∃ kept, inv kept st' ∧
        (∀ e ∈ kept, e ∈ blocks) ∧ (∀ e ∈ blocks, e.ptr ∉ ds → e ∈ kept) ∧
        AgreeOn (Covers kept) st st' := by
  induction ds with
  | nil =>
    intro st blocks h _ _ _ hcall
    obtain rfl := Option.some.inj hcall
    exact ⟨rfl, rfl, blocks, h, fun _ he => he, fun _ he _ => he, .refl _ st⟩
  | cons d ds ih =>
    intro st blocks h hregion hnodup hds hcall
    obtain ⟨hnot, hrestNodup⟩ := List.nodup_cons.mp hnodup
    simp only [shallocRegionFreeBuffs, bind, Option.bind_eq_some_iff] at hcall
    obtain ⟨st2, hfreeBuff, hrest⟩ := hcall
    obtain ⟨e, data, he, rfl, hlen, hdata, hstart⟩ := hds d List.mem_cons_self
    obtain ⟨hregions2, hbuffs2⟩ := shallocRegionFreeBuff_frame hfreeBuff
    obtain ⟨st1, region', hdestroy, hregion', hend⟩ := shallocRegionFreeBuff_cases hfreeBuff
    obtain rfl := Option.some.inj (hregion.symm.trans hregion')
    obtain ⟨hnone, -⟩ | ⟨q, hq, hcall⟩ := hend
    · exact absurd (hfree.symm.trans hnone) (by simp)
    · obtain rfl := Option.some.inj (hfree.symm.trans hq)
      obtain ⟨data', a, hdata', -, rfl⟩ := Store.opDestroy_eq_some.mp hdestroy
      obtain rfl := Option.some.inj (hdata.symm.trans hdata')
      -- destroying the buffer writes in its own block
      have hin : ∀ c, (c = e.ptr ∨ c = data.start) → e.ptr ≤ c ∧ c < e.ptr + e.len := by
        rintro c (rfl | rfl) <;> omega
      have hothers : ∀ c, (c = e.ptr ∨ c = data.start) →
        ¬ Covers (releaseBlock e.ptr blocks) c := by
        rintro c hc ⟨e', he', hin'⟩
        obtain ⟨he', hne⟩ := mem_releaseBlock.mp he'
        exact hne (by rw [hparent.eq_of_shared h he' he hin' (hin c hc)])
      have hdestroyed : ∀ p : ℕ → Prop, (∀ c, (c = e.ptr ∨ c = data.start) → ¬ p c) →
          AgreeOn p st ((st.setCell data.start a).log (.destroy e.ptr)) :=
        fun p hp => .of_setCell (hp _ (Or.inr rfl)) fun c hc heq => hp c (Or.inl heq.symm) hc
      have h1 := hparent.own h (hdestroyed _ fun c hc hno => hno ⟨e, he, hin c hc⟩)
      obtain ⟨h2, hagree2⟩ := hparent.freed h1 he hP hcall
      obtain ⟨hregions, hbuffs, kept, hinv, hsub, hkept, hagree⟩ :=
        ih h2 (by rw [hregions2]; exact hregion) hrestNodup
          (fun c hc => by
            obtain ⟨e', data', he', hptr, hlen', hdata', hstart'⟩ :=
              hds c (List.mem_cons_of_mem _ hc)
            refine ⟨e', data', mem_releaseBlock.mpr ⟨he', fun heq => ?_⟩, hptr, hlen',
              by rw [hbuffs2]; exact hdata', hstart'⟩
            rw [hptr] at heq
            exact hnot (heq ▸ hc))
          hrest
      refine ⟨hregions.trans hregions2, hbuffs.trans hbuffs2, kept, hinv,
        fun e' he' => (mem_releaseBlock.mp (hsub e' he')).1, fun e' he' hmem => ?_, ?_⟩
      · have hne : e'.ptr ≠ e.ptr := fun heq => hmem (by rw [heq]; exact List.mem_cons_self)
        exact hkept e' (mem_releaseBlock.mpr ⟨he', hne⟩)
          fun hin => hmem (List.mem_cons_of_mem _ hin)
      · have hmono : ∀ c, Covers kept c → Covers (releaseBlock e.ptr blocks) c := by
          rintro c ⟨e', he', hin'⟩
          exact ⟨e', hsub e' he', hin'⟩
        exact (((hdestroyed _ hothers).trans hagree2).mono hmono).trans hagree

/-- The reset of a region keeps its first buffer, set up anew, if there is one. -/
theorem RegionKept.reset {fuel : ℕ} (rule : RegionRule ops top J Q legit)
    (h : RegionKept path inv J Q k r st chain)
    (hcall : shallocRegionReset ops fuel r st = some st') :
    RegionKept path inv J Q k r st' (chain.take 1) := by
  obtain ⟨region, blocks, h⟩ := h
  cases chain with
  | nil =>
    have hhead : region.dataHead = none := h.linked.head
    simp only [shallocRegionReset, regionBuffIter, h.record, hhead, Option.isSome_none,
      Option.bind_eq_bind, Option.bind_some, Bool.false_eq_true, if_false,
      Option.some.injEq] at hcall
    subst hcall
    exact ⟨region, blocks, h⟩
  | cons d bs =>
    obtain ⟨hr, hnodup⟩ := List.nodup_cons.mp h.nodup
    rw [shallocRegionReset_eq h.record h.linked hnodup] at hcall
    split at hcall
    · obtain ⟨st1, hfree, hreset⟩ := Option.bind_eq_some_iff.mp hcall
      have hsub : bs.dropLast.Sublist bs := List.dropLast_sublist bs
      have hq : region.parent = some P := by rw [Region.parent, h.ancestors, hP]
      obtain ⟨hregions, hbuffs, kept, hinv, -, hkept, hagree⟩ :=
        hparent.freeBuffs hP hq bs.dropLast h.parent h.record
          (hsub.nodup (List.nodup_cons.mp hnodup).2)
          (fun c hc => by
            obtain ⟨e, data, he, hptr, hlen, hdata, hstart, -⟩ :=
              h.buffs c (List.mem_cons_of_mem _ (hsub.subset hc))
            exact ⟨e, data, he, hptr, hlen, hdata, hstart⟩)
          hfree
      -- what is left is the record and the first buffer
      obtain ⟨hhead, data, hdata, -⟩ := h.linked.head
      obtain ⟨e, data', he, hptr, hlen, hdata', hstart, hQ⟩ := h.buffs d List.mem_cons_self
      obtain rfl := Option.some.inj (hdata.symm.trans hdata')
      obtain ⟨home, hhome, hhomeptr, hhomelen⟩ := h.home
      have hekept : e ∈ kept := hkept e he fun hmem =>
        (List.nodup_cons.mp hnodup).1 (hptr ▸ hsub.subset hmem)
      have hhomekept : home ∈ kept := hkept home hhome fun hmem =>
        hr (List.mem_cons_of_mem _ (hhomeptr ▸ hsub.subset hmem))
      have hcover : Covers kept d ∧ Covers kept data.start :=
        ⟨⟨e, hekept, by omega, by omega⟩, ⟨e, hekept, by omega, by omega⟩⟩
      have hcoverr : Covers kept r := hhomeptr ▸ hparent.covers_ptr hinv hhomekept
      have hQ1 : Q e data (liveBlocks d st1.trace) (st1.cells data.start) := by
        rw [hagree.live d hcover.1, hagree.cells _ hcover.2]
        exact hQ
      -- the first buffer is set up anew
      have hrecord1 : st1.regions r = some region := by rw [hregions]; exact h.record
      obtain ⟨st2, ret, st3, data3, hdestroy, hcreate, hnonneg, hdata3, rfl⟩ :=
        shallocRegionResetHead_made hrecord1 hhead hreset
      obtain ⟨data1, a1, hdata1, hop1, rfl⟩ := Store.opDestroy_eq_some.mp hdestroy
      rw [hbuffs, hdata] at hdata1
      obtain rfl := Option.some.inj hdata1
      obtain ⟨data2, a2, hdata2, hop2, rfl⟩ := Store.opCreate_eq_some.mp hcreate
      rw [Store.log_buffs, Store.setCell_buffs, hbuffs, hdata] at hdata2
      obtain rfl := Option.some.inj hdata2
      simp only [Store.log_buffs, Store.setCell_buffs, hbuffs, hdata, Option.some.injEq] at hdata3
      subst hdata3
      simp only [Store.log_cells, Store.setCell_cells, Function.update_self] at hop2
      have hnew := rule.next none (rule.renew hQ1 hop1 hop2 hnonneg)
      have hself : ∀ c, ¬ Covers kept c → ¬ d = c := fun c hc heq => hc (heq ▸ hcover.1)
      refine ⟨{ region with dataHead := some d, dataTail := some d }, kept, ?_, ?_,
        h.ancestors, rule.link h.property, ⟨⟨rfl, _, Function.update_self .., rfl⟩, rfl⟩, ?_,
        fun _ => le_rfl, ⟨home, hhomekept, hhomeptr, hhomelen⟩, fun c hc => ?_⟩
      · have hdestroyed : AgreeOn (fun c => ¬ Covers kept c) st1
            ((st1.setCell data.start a1).log (.destroy d)) :=
          .of_setCell (fun hno => hno hcover.2) hself
        refine hparent.own hinv (hdestroyed.trans (AgreeOn.trans ?_
          (.setRegion _ (fun hno => hno hcoverr) _)))
        refine AgreeOn.trans ?_ (.setBuff _ (fun hno => hno hcover.1) _)
        exact .of_setCell (fun hno => hno hcover.2) hself
      · simp [hregions]
      · exact List.nodup_cons.mpr ⟨fun hmem => hr (by
          rw [List.mem_singleton.mp hmem]
          exact List.mem_cons_self), List.nodup_singleton d⟩
      · obtain rfl := List.mem_singleton.mp hc
        exact ⟨e, _, hekept, hptr, hlen, Function.update_self .., hstart, by simpa using hnew⟩
    · exact absurd hcall (by simp)

end Reset

/-- The default size that `shalloc_get_region` sets: that of the caller, but no
smaller than the least size. -/
theorem shallocGetRegion_size {buffSize blockSize flags : ℕ} {type : BuffAllocType}
    (hsize : buffSize < 2 ^ 48) :
    (shallocGetRegion path buffSize blockSize flags type).defaultData.size < 2 ^ 48 := by
  simp only [shallocGetRegion, shallocGetBuff, shallocBuffMinSize, shallocRegionBuffSizeDefault,
    shallocPageSize]
  split <;> split <;> omega

theorem shallocGetRegion_lower (path : List ℕ) (buffSize blockSize flags : ℕ)
    (type : BuffAllocType) :
    shallocBuffMinSize ≤
      (shallocGetRegion path buffSize blockSize flags type).defaultData.size := by
  simp only [shallocGetRegion, shallocGetBuff]
  split <;> split <;> omega

section Create

variable {buffSize blockSize flags : ℕ} {type : BuffAllocType}
  (hparent : SoundParent ops path top limit inv) (h : inv blocks st)
  (hJ : J 0 (shallocGetRegion path buffSize blockSize flags type))
include hparent h hJ

/-- The record of a new region is its first block. -/
theorem SoundParent.create_record
    (hmalloc : shallocMalloc ops path sizeofRegion st = some (some r, st')) :
    RegionKept path inv J Q 0 r
      (st'.setRegion r (shallocGetRegion path buffSize blockSize flags type)) [] := by
  obtain ⟨hinv, -⟩ := hparent.served h hparent.room hmalloc
  have hcover := hparent.covers_ptr hinv List.mem_cons_self
  exact ⟨_, _,
    { parent := hparent.own hinv (.setRegion _ (fun hno => hno hcover) _)
      record := Function.update_self ..
      ancestors := rfl
      property := hJ
      linked := ⟨rfl, rfl⟩
      nodup := List.nodup_singleton r
      fixed := fun _ => Nat.zero_le _
      home := ⟨_, List.mem_cons_self, rfl, le_rfl⟩
      buffs := fun d hd => absurd hd List.not_mem_nil }⟩

/-- A region that `shalloc_region_create` returns satisfies the invariant. -/
theorem SoundParent.create {initSize : ℕ} (rule : RegionRule ops top J Q legit)
    (hinit : initSize < 2 ^ 52)
    (hbelow : (shallocGetRegion path buffSize blockSize flags type).request initSize < limit)
    (hcall : shallocRegionCreate ops path initSize buffSize blockSize flags type st =
      some (some r, st')) :
    RegionKept path inv J Q (if initSize = 0 then 0 else 1) r st'
      (attachedBy r (if initSize = 0 then 0 else 1) st') := by
  cases shallocRegionCreate_cases hcall with
  | empty hmalloc hzero => simpa [hzero, attachedBy] using hparent.create_record h hJ hmalloc
  | grown hmalloc hpos hgrow hret =>
    have hzero : initSize ≠ 0 := Nat.pos_iff_ne_zero.mp hpos
    have hkept := (hparent.create_record h hJ hmalloc).grow hparent rule hpos hinit
      (asksBelow_setRegion _ hbelow) hgrow
    cases hgrow with
    | fixed => exact absurd (by decide : (-1 : ℤ) < 0) hret
    | failed => exact absurd (by decide : (-1 : ℤ) < 0) hret
    | grown => simpa [hzero] using hkept

omit hJ in
theorem SoundParent.create_size {initSize : ℕ} (htop : top ≤ 2 ^ 52)
    (hroom : sizeofBuff +
      (shallocGetRegion path buffSize blockSize flags type).buffSize initSize < 2 ^ 64)
    (hbelow : (shallocGetRegion path buffSize blockSize flags type).request initSize < limit)
    (hcall : shallocRegionCreate ops path initSize buffSize blockSize flags type st =
      some (some r, st')) : initSize < 2 ^ 52 := by
  cases shallocRegionCreate_cases hcall with
  | empty _ hzero => omega
  | grown hmalloc _ hgrow hret =>
    obtain ⟨region, blocks', hnew⟩ : RegionKept path inv (fun _ _ => True) (fun _ _ _ _ => True) 0 r
        _ [] := hparent.create_record h trivial hmalloc
    have hrecord := hnew.record
    rw [Store.setRegion_regions, Function.update_self, Option.some.injEq] at hrecord
    exact hnew.grow_size hparent htop (hrecord ▸ hroom) (hrecord ▸ hbelow) hgrow
      (Int.not_lt.mp hret)

end Create

end Shalloc
