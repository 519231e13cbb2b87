import Shalloc.Mplite.Sound
import Shalloc.Runs.Free

/-!
# What a failed region creation leaves behind

`shalloc_region_create` obtains the record of the region from the parent, lets the region
grow by its first buffer, and destroys the region again if this fails. The record is given
back by `shalloc_free`, which acts on the tail of the parent only, and the request for the
buffer may have moved that tail.

## Main definitions

- `UsedRun` — calls on the parent, and writes of its users to their blocks
- `LiveIn` — the blocks of a region in use
- `CreateAsksBelow` — what the parent asks its own parent for in a creation
- `FirstBufferGrows` — the request for the first buffer moves the tail of the parent

## Main results

- `RegionKept.malloc_live`, `RegionKept.free_live` — what a call does to the blocks in use
- `shallocRegionCreate_leaves_iff` — when a failed creation leaves nothing behind
-/

namespace Shalloc

variable {α : Type} {ops : BuffAllocType → BuffOp α} {st st' : Store α} {path : List ℕ}
  {top limit k r n p : ℕ} {inv : List Extent → Store α → Prop} {type : BuffAllocType}
  {rep : Buff → List Extent → α → Prop} {chain held : List ℕ}

/-- In the creation of a region below it, region `r` asks its own parent for less than `limit`
bytes, for the record of the new region and for its first buffer. -/
structure CreateAsksBelow (ops : BuffAllocType → BuffOp α) (path : List ℕ)
    (limit r initSize buffSize blockSize flags : ℕ) (type : BuffAllocType) (st : Store α) :
    Prop where
  record : AsksBelow limit r (shallocBuffAllocSize sizeofRegion) st
  buffer : ∀ {c st1}, shallocMalloc ops (r :: path) sizeofRegion st = some (some c, st1) →
    AsksBelow limit r
      (shallocBuffAllocSize
        ((shallocGetRegion (r :: path) buffSize blockSize flags type).request initSize))
      (st1.setRegion c (shallocGetRegion (r :: path) buffSize blockSize flags type))

/-- No request is larger than a `size_t`. -/
theorem createAsksBelow_two_pow (r initSize buffSize blockSize flags : ℕ) (type : BuffAllocType)
    (st : Store α) :
    CreateAsksBelow ops path (2 ^ 64) r initSize buffSize blockSize flags type st :=
  ⟨asksBelow_two_pow _ _ _, fun _ => asksBelow_two_pow _ _ _⟩

/-- The parent obtains its own block for the record of a new region, and then grows when it is
asked for the first buffer of the region. -/
def FirstBufferGrows (ops : BuffAllocType → BuffOp α) (path : List ℕ)
    (initSize buffSize blockSize flags : ℕ) (type : BuffAllocType) (st : Store α) : Prop :=
  let region := shallocGetRegion path buffSize blockSize flags type
  hasFlag flags .heap = false ∧ 0 < initSize ∧
    ∃ c st1, shallocMalloc ops path sizeofRegion st = some (some c, st1) ∧
      mallocGrowths ops path (sizeofBuff + region.buffSize initSize) (st1.setRegion c region) ≠ 0

/-- A block of the buffers in `chain` that is in use. -/
def ChainLive (chain : List ℕ) (st : Store α) (e : Extent) : Prop :=
  ∃ d ∈ chain, e ∈ liveBlocks d st.trace

/-- A block of region `r` that is in use. -/
def LiveIn (r : ℕ) (st : Store α) (e : Extent) : Prop :=
  ∃ region chain, st.regions r = some region ∧ Linked st region chain ∧ ChainLive chain st e

/-- An address in the data of a buffer in `chain`, past the first byte. -/
def InData (chain : List ℕ) (st : Store α) (a : ℕ) : Prop :=
  ∃ d ∈ chain, ∃ data, st.buffs d = some data ∧ data.start < a ∧ a < data.start + data.size

/-- Calls on a region, and writes to the data of its buffers. -/
inductive UsedRun (ops : BuffAllocType → BuffOp α) (path : List ℕ) (limit : ℕ)
    (inv : List Extent → Store α → Prop) (type : BuffAllocType) (r : ℕ) :
    Store α → List ℕ → Prop
  | calls {st : Store α} {held : List ℕ} : HeldRun ops path limit inv type r st held →
      UsedRun ops path limit inv type r st held
  | call {st st' : Store α} {held held' : List ℕ} : UsedRun ops path limit inv type r st held →
      HeldCall ops path limit r st held st' held' → UsedRun ops path limit inv type r st' held'
  /-- Someone writes to the data of the buffers, and nowhere else. -/
  | write {st st' : Store α} {held chain : List ℕ} {region : Region} :
      UsedRun ops path limit inv type r st held → st.regions r = some region →
      Linked st region chain → AgreeOn (fun a => ¬ InData chain st a) st st' →
      UsedRun ops path limit inv type r st' held

/-- The blocks in use begin at different addresses past the start of the buffer, and those
smaller than `most` lie in the buffer. -/
structure PlacesApart (most : ℕ) (rep : Buff → List Extent → α → Prop) : Prop where
  after : ∀ {data live a}, rep data live a → ∀ e ∈ live, data.start < e.ptr
  within : ∀ {data live a}, rep data live a → ∀ e ∈ live, e.len < most →
    e.ptr + e.len ≤ data.start + data.size
  distinct : ∀ {data live a}, rep data live a → (live.map Extent.ptr).Nodup

/-- The blocks in use of the buffers in `chain'` are those that the buffers in `chain` had, with
the block at `q` added to the last buffer. -/
def ServedLive (n : ℕ) (q : Option ℕ) (chain chain' : List ℕ) (st st' : Store α) : Prop :=
  ∀ d ∈ chain', liveBlocks d st'.trace =
    (if chain'.getLast? = some d then q.toList.map fun q => ⟨q, n⟩ else []) ++
      if d ∈ chain then liveBlocks d st.trace else []

section Live

theorem RegionKept.liveIn_iff {J : ℕ → Region → Prop} {Q : Extent → Buff → List Extent → α → Prop}
    (h : RegionKept path inv J Q k r st chain) (e : Extent) :
    LiveIn r st e ↔ ChainLive chain st e := by
  obtain ⟨region, blocks, h⟩ := h
  constructor
  · rintro ⟨region', chain', hregion, hlinked, hlive⟩
    obtain rfl := Option.some.inj (h.record.symm.trans hregion)
    rwa [h.linked.head.unique hlinked.head]
  · exact fun hlive => ⟨region, chain, h.record, h.linked, hlive⟩

/-- The buffer that a region has grown by has no block in use. -/
theorem GrowCases.tail_live {parentMalloc : ℕ → Store α → Option (Option ℕ × Store α)}
    {size t : ℕ} {ret : ℤ} {region : Region} (h : GrowCases ops parentMalloc r size st ret st')
    (hret : ret = 0) (hregion : st'.regions r = some region) (ht : region.dataTail = some t) :
    liveBlocks t st'.trace = [] := by
  cases h with
  | fixed => exact absurd hret (by decide)
  | failed => exact absurd hret (by decide)
  | grown _ _ halloc hattach =>
    obtain rfl := hattach.tail hregion ht
    rw [hattach.live]
    cases halloc with
    | built _ _ _ _ hcreate _ =>
      obtain ⟨_, _, -, -, rfl⟩ := Store.opCreate_eq_some.mp hcreate
      simp

/-- A buffer that is asked adds the block that it hands out to those in use. -/
theorem Store.opMalloc_live {t : ℕ} {q : Option ℕ} (hcall : st.opMalloc ops t n = some (q, st'))
    (d : ℕ) : liveBlocks d st'.trace =
      (if t = d then q.toList.map fun q => ⟨q, n⟩ else []) ++ liveBlocks d st.trace := by
  obtain ⟨_, _, -, -, rfl⟩ := Store.opMalloc_eq_some.mp hcall
  cases q with
  | none => simp
  | some q =>
    by_cases heq : t = d
    · simp [heq]
    · simp [heq]

end Live

section Data

variable (hparent : SoundParent ops path top limit inv)
include hparent

/-- The data of a buffer lies in its block, after the descriptor and the first byte. -/
theorem RegionInv.inData {region : Region} {blocks : List Extent} {a : ℕ}
    (h : RegionInv path inv (DefaultFits type) (BuffInside type top rep) k r st region chain blocks)
    (ha : InData chain st a) :
    Covers blocks a ∧ a ≠ r ∧ ∀ d ∈ chain, a ≠ d ∧ a ≠ d + sizeofBuff := by
  obtain ⟨d, hd, data, hdata, hlo, hhi⟩ := ha
  obtain ⟨e, data', he, rfl, -, hdata', hstart, hQ⟩ := h.buffs d hd
  obtain rfl := Option.some.inj (hdata.symm.trans hdata')
  have hblock := hQ.block
  have hin : e.ptr ≤ a ∧ a < e.ptr + e.len := ⟨by omega, by omega⟩
  refine ⟨⟨e, he, hin⟩, ?_, fun c hc => ?_⟩
  · rintro rfl
    obtain ⟨home, hhome, hptr, -⟩ := h.home
    have hpos := (hparent.bounds h.parent home hhome).1
    have heq := hparent.eq_of_shared h.parent he hhome hin ⟨by omega, by omega⟩
    exact (List.nodup_cons.mp h.nodup).1 (by rwa [← hptr, ← heq])
  · -- an address at the start of another block would make the two blocks one
    obtain ⟨e', data', he', rfl, hlen', -, -, -⟩ := h.buffs c hc
    have hsame : a = e'.ptr ∨ a = e'.ptr + sizeofBuff → e = e' :=
      fun heq => hparent.eq_of_shared h.parent he he' hin ⟨by omega, by omega⟩
    constructor
    · intro heq
      obtain rfl := hsame (Or.inl heq)
      omega
    · intro heq
      obtain rfl := hsame (Or.inr heq)
      omega

/-- Writes to the data of the buffers change nothing that the invariant is about. -/
theorem RegionKept.written
    (h : RegionKept path inv (DefaultFits type) (BuffInside type top rep) k r st chain)
    (hagree : AgreeOn (fun a => ¬ InData chain st a) st st') :
    RegionKept path inv (DefaultFits type) (BuffInside type top rep) k r st' chain ∧
      ∀ d ∈ chain, st'.buffs d = st.buffs d ∧ liveBlocks d st'.trace = liveBlocks d st.trace := by
  obtain ⟨region, blocks, h⟩ := h
  have hr : ¬ InData chain st r := fun hin => (h.inData hparent hin).2.1 rfl
  have hd : ∀ d ∈ chain, ¬ InData chain st d :=
    fun d hd hin => ((h.inData hparent hin).2.2 d hd).1 rfl
  have hcell : ∀ d ∈ chain, ¬ InData chain st (d + sizeofBuff) :=
    fun d hd hin => ((h.inData hparent hin).2.2 d hd).2 rfl
  refine ⟨⟨region, blocks, ?_⟩, fun d hmem =>
    ⟨hagree.buffs d (hd d hmem), hagree.live d (hd d hmem)⟩⟩
  exact
    { parent := hparent.own h.parent (hagree.mono fun a hnot hin => hnot (h.inData hparent hin).1)
      record := (hagree.regions r hr).trans h.record
      ancestors := h.ancestors
      property := h.property
      linked := ⟨h.linked.head.congr fun d hmem => hagree.buffs d (hd d hmem), h.linked.tail⟩
      nodup := h.nodup
      fixed := h.fixed
      home := h.home
      buffs := fun d hmem => by
        obtain ⟨e, data, he, hptr, hlen, hdata, hstart, hQ⟩ := h.buffs d hmem
        refine ⟨e, data, he, hptr, hlen, (hagree.buffs d (hd d hmem)).trans hdata, hstart, ?_⟩
        rw [hagree.live d (hd d hmem), hstart, hagree.cells _ (hcell d hmem), ← hstart]
        exact hQ }

end Data

section Malloc

variable (htop : top ≤ 2 ^ 63) (hparent : SoundParent ops path top limit inv)
  (hop : PlacesInside (ops type) top rep)
  (h : RegionKept path inv (DefaultFits type) (BuffInside type top rep) k r st chain)
include htop hparent hop h

/-- **What a request does to the blocks in use.** The buffers that were there keep them, a
new one has none, and the block that is returned joins those of the tail. -/
theorem RegionKept.malloc_live {q : Option ℕ} (hn : n < 2 ^ 48)
    (hbelow : AsksBelow limit r (shallocBuffAllocSize n) st)
    (hcall : shallocMalloc ops (r :: path) n st = some (q, st')) :
    ServedLive n q chain
      (chain ++ attachedBy r (mallocGrowths ops (r :: path) n st) st') st st' := by
  have rule := insideRule htop hop
  have hlog := h.log hparent (.request r n) (by simp [Event.touches])
  simp only [shallocMalloc, mallocGrowths] at hcall ⊢
  by_cases hzero : n = 0
  · rw [if_pos hzero] at hcall ⊢
    obtain ⟨rfl, rfl⟩ := Prod.mk.inj (Option.some.inj hcall)
    intro d hd
    have hmem : d ∈ chain := by simpa [attachedBy] using hd
    simp [hmem]
  rw [if_neg hzero] at hcall ⊢
  have hpos := Nat.pos_of_ne_zero hzero
  obtain ⟨hpos', hsize⟩ := shallocBuffAllocSize_bounds hpos hn
  obtain ⟨region, t, q', hregion, ht, rfl, hserved, hcount⟩ |
      ⟨st1, st2, ret, hrefuses, hgrow, hcount, hend⟩ := shallocServe_growths hcall
  · intro d hd
    have hmem : d ∈ chain := by simpa [hcount, attachedBy] using hd
    obtain ⟨region', blocks, hlog⟩ := hlog
    obtain rfl := Option.some.inj (hlog.record.symm.trans hregion)
    rw [Store.opMalloc_live hserved d, hcount]
    simp [attachedBy, hmem, ← hlog.linked.tail, ht]
  · have h1 : RegionKept path inv (DefaultFits type) (BuffInside type top rep) k r st1 chain ∧
        ∀ d, liveBlocks d st1.trace = liveBlocks d st.trace := by
      cases hrefuses with
      | empty => exact ⟨hlog, fun _ => rfl⟩
      | refused hregion ht hrefused =>
        refine ⟨hlog.opMalloc hparent rule hpos hn hregion ht hrefused, fun d => ?_⟩
        simpa using Store.opMalloc_live hrefused d
    have hbelow1 : AsksBelow limit r (shallocBuffAllocSize n) st1 :=
      (hbelow.log _).refused hrefuses (opMalloc_issues ops n).regions
    have hold := h1.1.grow_live hparent rule hpos' hsize hbelow1 hgrow
    have h2 := h1.1.grow hparent rule hpos' hsize hbelow1 hgrow
    intro d hd
    rw [hcount] at hd ⊢
    obtain ⟨hret, rfl, rfl⟩ | ⟨rfl, region, t, hregion, ht, hserved⟩ := hend
    · have hmem : d ∈ chain := by simpa [hret, attachedBy] using hd
      simp [hmem, hold d hmem, h1.2 d]
    · have h3 := h2.opMalloc hparent rule hpos hn hregion ht hserved
      rw [← h2.attachedBy_eq h3] at hd ⊢
      have hnew : attachedBy r (if (0 : ℤ) = 0 then 1 else 0) st2 = [t] := by
        simp [attachedBy, hregion, ht]
      rw [hnew] at hd ⊢
      rw [Store.opMalloc_live hserved d, List.getLast?_append_of_ne_nil _ (by simp),
        List.getLast?_singleton]
      by_cases hmem : d ∈ chain
      · simp [hmem, hold d hmem, h1.2 d]
      · obtain rfl : d = t := by simpa [hmem] using hd
        simp [hmem, hgrow.tail_live rfl hregion ht]

/-- The address of the block that a request returns is the address of no block in use. -/
theorem RegionKept.malloc_fresh {most q : ℕ} (hapart : PlacesApart most rep) (hn : n < 2 ^ 48)
    (hbelow : AsksBelow limit r (shallocBuffAllocSize n) st)
    (hcall : shallocMalloc ops (r :: path) n st = some (some q, st')) {e : Extent}
    (he : ChainLive chain st e) : e.ptr ≠ q := by
  rintro rfl
  have rule := insideRule htop hop
  have hlive := h.malloc_live htop hparent hop hn hbelow hcall
  have hkept := h.malloc hparent rule hn hbelow hcall
  generalize mallocGrowths ops (r :: path) n st = growths at hlive hkept
  obtain ⟨d, hd, he⟩ := he
  have hd' : d ∈ chain ++ attachedBy r growths st' := List.mem_append_left _ hd
  obtain ⟨region, t, hregion, ht, hmem⟩ :=
    (h.malloc_issued hparent rule hn hbelow hcall).2 e.ptr rfl
  have hinv := hkept
  obtain ⟨region', blocks, hinv⟩ := hinv
  obtain rfl := Option.some.inj (hinv.record.symm.trans hregion)
  have ht' := hinv.linked.tail_mem ht
  have huse : InUse (liveBlocks d st'.trace) e.ptr := by
    refine ⟨e, ?_, rfl⟩
    rw [hlive d hd', if_pos hd]
    exact List.mem_append_right _ he
  -- the pointer is in use in one buffer only, and there only once
  obtain ⟨_, data, -, -, -, hdata, -, hQ⟩ := hinv.buffs t ht'
  have heq : d = t := hkept.eq_of_isBuffAddr hparent hop hd' huse ht' hdata
    (hkept.isBuffAddr hop ht' hdata ⟨_, hmem, rfl⟩)
  subst heq
  have hdistinct := hapart.distinct hQ.rep
  rw [hlive d hd', if_pos hd, if_pos (hinv.linked.tail.symm.trans ht)] at hdistinct
  simp only [Option.toList_some, List.map_cons, List.map_nil, List.singleton_append,
    List.nodup_cons] at hdistinct
  exact hdistinct.1 (List.mem_map_of_mem he)

/-- The blocks in use after a request are those before it, and the one that is returned. -/
theorem RegionKept.malloc_chainLive {q : Option ℕ} (hn : n < 2 ^ 48)
    (hbelow : AsksBelow limit r (shallocBuffAllocSize n) st)
    (hcall : shallocMalloc ops (r :: path) n st = some (q, st')) (e : Extent) :
    ChainLive (chain ++ attachedBy r (mallocGrowths ops (r :: path) n st) st') st' e ↔
      ChainLive chain st e ∨ ∃ p, q = some p ∧ e = ⟨p, n⟩ := by
  have rule := insideRule htop hop
  have hlive := h.malloc_live htop hparent hop hn hbelow hcall
  have hissued := (h.malloc_issued hparent rule hn hbelow hcall).2
  obtain ⟨region, blocks, hkept⟩ := h.malloc hparent rule hn hbelow hcall
  generalize mallocGrowths ops (r :: path) n st = growths at hlive hkept
  constructor
  · rintro ⟨d, hd, he⟩
    rw [hlive d hd] at he
    cases List.mem_append.mp he with
    | inl hnew =>
      split at hnew
      · cases q with
        | none => exact absurd hnew List.not_mem_nil
        | some p => exact Or.inr ⟨p, rfl, List.mem_singleton.mp hnew⟩
      · exact absurd hnew List.not_mem_nil
    | inr hold =>
      split at hold
      · next hmem => exact Or.inl ⟨d, hmem, hold⟩
      · exact absurd hold List.not_mem_nil
  · rintro (⟨d, hd, he⟩ | ⟨p, rfl, rfl⟩)
    · have hd' : d ∈ chain ++ attachedBy r growths st' := List.mem_append_left _ hd
      refine ⟨d, hd', ?_⟩
      rw [hlive d hd', if_pos hd]
      exact List.mem_append_right _ he
    · obtain ⟨region', t, hregion, ht, hmem⟩ := hissued p rfl
      obtain rfl := Option.some.inj (hkept.record.symm.trans hregion)
      exact ⟨t, hkept.linked.tail_mem ht, hmem⟩

/-- A request leaves the records in the data of the buffers alone. -/
theorem RegionKept.malloc_regions {q : Option ℕ} {a : ℕ} (ha : InData chain st a) (hn : n < 2 ^ 48)
    (hbelow : AsksBelow limit r (shallocBuffAllocSize n) st)
    (hcall : shallocMalloc ops (r :: path) n st = some (q, st')) :
    st'.regions a = st.regions a := by
  have rule := insideRule htop hop
  have hlog := h.log hparent (.request r n) (by simp [Event.touches])
  simp only [shallocMalloc] at hcall
  by_cases hzero : n = 0
  · rw [if_pos hzero] at hcall
    obtain ⟨rfl, rfl⟩ := Prod.mk.inj (Option.some.inj hcall)
    rfl
  rw [if_neg hzero] at hcall
  have hpos := Nat.pos_of_ne_zero hzero
  obtain ⟨hpos', hsize⟩ := shallocBuffAllocSize_bounds hpos hn
  obtain ⟨_, _, _, -, -, -, hserved, -⟩ | ⟨st1, st2, ret, hrefuses, hgrow, -, hend⟩ :=
    shallocServe_growths hcall
  · exact congrFun (Store.opMalloc_frame hserved).1 a
  · obtain ⟨h1, hregions, hbuffs⟩ :
        RegionKept path inv (DefaultFits type) (BuffInside type top rep) k r st1 chain ∧
          st1.regions = st.regions ∧ st1.buffs = st.buffs := by
      cases hrefuses with
      | empty => exact ⟨hlog, rfl, rfl⟩
      | refused hregion ht hrefused =>
        obtain ⟨hregions, hbuffs⟩ := Store.opMalloc_frame hrefused
        exact ⟨hlog.opMalloc hparent rule hpos hn hregion ht hrefused, hregions, hbuffs⟩
    obtain ⟨region, blocks, h1⟩ := h1
    obtain ⟨hcover, hne, hnot⟩ := h1.inData hparent (a := a) (by
      obtain ⟨d, hd, data, hdata, hin⟩ := ha
      exact ⟨d, hd, data, hbuffs.symm ▸ hdata, hin⟩)
    have hout : a ∉ r :: chain := by
      rintro (_ | ⟨_, hmem⟩)
      · exact hne rfl
      · exact (hnot a hmem).1 rfl
    have hbelow1 : AsksBelow limit r (shallocBuffAllocSize n) st1 :=
      (hbelow.log _).refused hrefuses (opMalloc_issues ops n).regions
    have hgrown := (h1.grow_agree hparent rule hpos' hsize (hbelow1 _ h1.record) hgrow).regions a
      ⟨hcover, hout⟩
    have hsame : st2.regions a = st.regions a := by rw [hgrown, hregions]
    obtain ⟨-, -, rfl⟩ | ⟨-, _, _, -, -, hserved⟩ := hend
    · exact hsame
    · rw [(Store.opMalloc_frame hserved).1]
      exact hsame

end Malloc

section Free

variable (hparent : SoundParent ops path top limit inv) (hop : PlacesInside (ops type) top rep)
  (h : RegionKept path inv (DefaultFits type) (BuffInside type top rep) k r st chain)
include hparent hop h

/-- **What a free does to the blocks in use.** It takes the block out of use if the buffer of
the block is the tail, and nothing at all otherwise. -/
theorem RegionKept.free_live {d : ℕ} (hd : d ∈ chain) (hp : InUse (liveBlocks d st.trace) p)
    (hcall : shallocFree ops r p st = some st') (e : Extent) :
    ChainLive chain st' e ↔ ChainLive chain st e ∧ (chain.getLast? = some d → e.ptr ≠ p) := by
  rw [(h.freeReaches hparent hop ⟨d, hd, hp⟩).reaches d hd hp] at hcall
  split at hcall
  · next hlast =>
    obtain ⟨_, _, -, -, rfl⟩ := Store.opFree_eq_some.mp hcall
    simp only [ChainLive, Store.log_trace, Store.setCell_trace, liveBlocks_free,
      liveBlocks_release, hlast, forall_const]
    constructor
    · rintro ⟨c, hc, he⟩
      split at he
      · next heq =>
        subst heq
        obtain ⟨he, hne⟩ := mem_releaseBlock.mp he
        exact ⟨⟨d, hd, he⟩, hne⟩
      · next hne =>
        refine ⟨⟨c, hc, he⟩, fun heq => hne ?_⟩
        obtain ⟨region, blocks, hinv⟩ := h
        obtain ⟨_, data, -, -, -, hdata, -, -⟩ := hinv.buffs d hd
        have hkept : RegionKept path inv (DefaultFits type)
          (BuffInside type top rep) k r st chain :=
          ⟨region, blocks, hinv⟩
        exact (hkept.eq_of_isBuffAddr hparent hop hc ⟨e, he, heq⟩ hd hdata
          (hkept.isBuffAddr hop hd hdata hp)).symm
    · rintro ⟨⟨c, hc, he⟩, hne⟩
      refine ⟨c, hc, ?_⟩
      split
      · next heq =>
        subst heq
        exact mem_releaseBlock.mpr ⟨he, hne⟩
      · exact he
  · next hlast =>
    obtain rfl := Option.some.inj hcall
    exact ⟨fun he => ⟨he, fun heq => absurd heq hlast⟩, fun he => he.1⟩

omit hparent in
/-- A block in use is in the data of the buffers. -/
theorem RegionKept.use_inData {most d : ℕ} {e : Extent} (hapart : PlacesApart most rep)
    (hd : d ∈ chain) (he : e ∈ liveBlocks d st.trace) :
    InData chain st e.ptr ∧ (e.len < most → ∀ a, e.ptr ≤ a → a < e.ptr + e.len →
      InData chain st a) := by
  obtain ⟨region, blocks, h⟩ := h
  obtain ⟨_, data, -, -, -, hdata, -, hQ⟩ := h.buffs d hd
  have hafter := hapart.after hQ.rep e he
  refine ⟨⟨d, hd, data, hdata, hafter, (hop.inside hQ.rep e he).2⟩, fun hlen a hlo hhi => ?_⟩
  have hwithin := hapart.within hQ.rep e he hlen
  exact ⟨d, hd, data, hdata, by omega, by omega⟩

end Free

section Run

variable (htop : top ≤ 2 ^ 63) (hparent : SoundParent ops path top limit inv)
  (hop : PlacesInside (ops type) top rep)
include htop hparent hop

/-- Every run with writes keeps the invariant. -/
theorem UsedRun.kept (run : UsedRun ops path limit inv type r st held) :
    (∃ P, path.head? = some P) ∧ ∃ k chain, HeldKept path inv type top rep k r st chain held := by
  induction run with
  | calls run => exact run.kept htop hparent hop
  | call _ hcall ih =>
    obtain ⟨⟨P, hP⟩, k, chain, h⟩ := ih
    exact ⟨⟨P, hP⟩, hcall.kept htop hparent hop hP h⟩
  | write _ hregion hlinked hagree ih =>
    obtain ⟨hP, k, chain', h⟩ := ih
    obtain ⟨region, blocks, hinv⟩ := h.kept
    obtain rfl := Option.some.inj (hinv.record.symm.trans hregion)
    obtain rfl := hinv.linked.head.unique hlinked.head
    obtain ⟨hkept, hsame⟩ := h.kept.written hparent hagree
    refine ⟨hP, k, chain', hkept, fun p hp => ?_⟩
    obtain ⟨d, hd, huse⟩ := h.held p hp
    exact ⟨d, hd, by rwa [(hsame d hd).2]⟩

end Run

section Create

variable {c t : ℕ} {child : Region}

/-- The record of a new region `c` is a block in use of the tail buffer `t` of its parent. -/
structure RecordIn (path : List ℕ) (inv : List Extent → Store α → Prop) (type : BuffAllocType)
    (top : ℕ) (rep : Buff → List Extent → α → Prop) (k r c t : ℕ) (child : Region) (st : Store α)
    (chain : List ℕ) : Prop where
  kept : RegionKept path inv (DefaultFits type) (BuffInside type top rep) k r st chain
  tail : chain.getLast? = some t
  use : ⟨c, sizeofRegion⟩ ∈ liveBlocks t st.trace
  record : st.regions c = some child

/-- The record of a new region after requests to the parent: it is in use in the buffer that it
was in, which is the tail of the parent unless the parent has grown. -/
structure RecordLeft (path : List ℕ) (inv : List Extent → Store α → Prop) (type : BuffAllocType)
    (top : ℕ) (rep : Buff → List Extent → α → Prop) (k r c t growths : ℕ) (child : Region)
    (st : Store α) (chain : List ℕ) : Prop where
  kept : RegionKept path inv (DefaultFits type) (BuffInside type top rep) k r st chain
  mem : t ∈ chain
  tail : chain.getLast? = some t ↔ growths = 0
  use : InUse (liveBlocks t st.trace) c
  record : st.regions c = some child

section Failed

variable {most : ℕ} (htop : top ≤ 2 ^ 63) (hparent : SoundParent ops path top limit inv)
  (hop : PlacesInside (ops type) top rep) (hapart : PlacesApart most rep)
include htop hparent hop hapart

/-- A request to the parent. -/
theorem RecordIn.asked {q : Option ℕ} (h : RecordIn path inv type top rep k r c t child st chain)
    (hn : n < 2 ^ 48) (hbelow : AsksBelow limit r (shallocBuffAllocSize n) st)
    (hcall : shallocMalloc ops (r :: path) n st = some (q, st')) :
    RecordLeft path inv type top rep (k + mallocGrowths ops (r :: path) n st) r c t
      (mallocGrowths ops (r :: path) n st) child st'
      (chain ++ attachedBy r (mallocGrowths ops (r :: path) n st) st') := by
  have rule := insideRule htop hop
  have hkept := h.kept.malloc hparent rule hn hbelow hcall
  have hissued := (h.kept.malloc_issued hparent rule hn hbelow hcall).1
  have hmem : t ∈ chain := List.mem_of_getLast? h.tail
  have hdata := (h.kept.use_inData hop hapart hmem h.use).1
  have hrecord := h.kept.malloc_regions htop hparent hop hdata hn hbelow hcall
  generalize mallocGrowths ops (r :: path) n st = growths at hkept
  refine ⟨hkept, List.mem_append_left _ hmem, ?_, ⟨_, hissued t hmem _ h.use, rfl⟩,
    hrecord.trans h.record⟩
  by_cases hzero : growths = 0
  · simp [hzero, attachedBy, h.tail]
  · -- the tail of a parent that has grown is new
    obtain ⟨region, blocks, hinv⟩ := hkept
    cases ht : region.dataTail with
    | none =>
      have hnil := List.getLast?_eq_none_iff.mp (hinv.linked.tail.symm.trans ht)
      rw [(List.append_eq_nil_iff.mp hnil).1] at hmem
      exact absurd hmem List.not_mem_nil
    | some t' =>
      have hnew : attachedBy r growths st' = [t'] := by
        simp [attachedBy, hzero, hinv.record, ht]
      have hnodup := (List.nodup_cons.mp hinv.nodup).2
      rw [hnew] at hnodup ⊢
      have hne : t' ≠ t := by
        rintro rfl
        exact (List.nodup_append'.mp hnodup).2.2 hmem List.mem_cons_self
      simpa [hzero] using hne

omit htop hop hapart in
/-- A write to the data of the parent that does not change the record. -/
theorem RecordLeft.written {growths : ℕ}
    (h : RecordLeft path inv type top rep k r c t growths child st chain)
    (hagree : AgreeOn (fun a => ¬ InData chain st a) st st')
    (hrecord : st'.regions c = st.regions c) :
    RecordLeft path inv type top rep k r c t growths child st' chain ∧
      ∀ e, ChainLive chain st' e ↔ ChainLive chain st e := by
  obtain ⟨hkept, hsame⟩ := h.kept.written hparent hagree
  refine ⟨⟨hkept, h.mem, h.tail, ?_, hrecord.trans h.record⟩, fun e => ?_⟩
  · rw [(hsame t h.mem).2]
    exact h.use
  · constructor
    · rintro ⟨d, hd, he⟩
      exact ⟨d, hd, (hsame d hd).2 ▸ he⟩
    · rintro ⟨d, hd, he⟩
      exact ⟨d, hd, (hsame d hd).2.symm ▸ he⟩

omit hapart in
/-- A block of the tail of the parent is freed. -/
theorem RecordLeft.freed {growths d : ℕ}
    (h : RecordLeft path inv type top rep k r c t growths child st chain) (hne : c ≠ p)
    (hd : chain.getLast? = some d) (hp : InUse (liveBlocks d st.trace) p)
    (hcall : shallocFree ops r p st = some st') :
    RecordLeft path inv type top rep k r c t growths child st' chain ∧
      ∀ e, ChainLive chain st' e ↔ ChainLive chain st e ∧ e.ptr ≠ p := by
  have hmem := List.mem_of_getLast? hd
  refine ⟨⟨?_, h.mem, h.tail, (shallocFree_cases hcall).inUse h.use hne, ?_⟩, fun e => ?_⟩
  · exact h.kept.free hparent (insideRule htop hop)
      (h.kept.inUse_tail hparent hop ⟨d, hmem, hp⟩) hcall
  · rw [(shallocFree_cases hcall).frame.1]
    exact h.record
  · rw [h.kept.free_live hparent hop hmem hp hcall e, hd]
    simp

/-- The request of a new region for its first buffer, up to the point where it has failed. -/
theorem RecordIn.grow_failed {size : ℕ} {ret : ℤ} (hmost : most ≤ 2 ^ 48)
    (h : RecordIn path inv type top rep k r c t child st chain)
    (hchild : child.ancestors = r :: path ∧ child.dataTail = none)
    (hsize : shallocBuffMinSize ≤ child.buffSize size ∧ sizeofBuff + child.buffSize size < most)
    (hbelow : AsksBelow limit r (shallocBuffAllocSize (sizeofBuff + child.buffSize size)) st)
    (hgrow : GrowCases ops (shallocMalloc ops (r :: path)) c size st ret st') (hret : ret < 0) :
    ∃ k' chain', RecordLeft path inv type top rep k' r c t
        (mallocGrowths ops (r :: path) (sizeofBuff + child.buffSize size) st) child st' chain' ∧
      ∀ e, ChainLive chain' st' e ↔ ChainLive chain st e := by
  have hn : sizeofBuff + child.buffSize size < 2 ^ 48 := by omega
  have hwrap : Word.wrap 64 (sizeofBuff + child.buffSize size) = sizeofBuff + child.buffSize size :=
    Word.wrap_of_lt (by omega)
  have hregion : ∀ {region}, st.regions c = some region → child = region :=
    fun heq => Option.some.inj (h.record.symm.trans heq)
  cases hgrow with
  | grown => exact absurd hret (by decide)
  | fixed hregion' ht =>
    obtain rfl := hregion hregion'
    exact absurd (hchild.2.symm.trans ht) (by simp)
  | failed _ _ halloc =>
    cases halloc with
    | refused hregion' _ hmalloc =>
      obtain rfl := hregion hregion'
      rw [hwrap] at hmalloc
      refine ⟨_, _, h.asked htop hparent hop hapart hn hbelow hmalloc, fun e => ?_⟩
      simpa using h.kept.malloc_chainLive htop hparent hop hn hbelow hmalloc e
    | @createFailed _ region1 parent d ret' st1 st2 _ hregion' hparent' hmalloc hregion1 hcreate _
        hfree =>
      obtain rfl := hregion hregion'
      obtain rfl : r = parent := by
        rw [Region.parent, hchild.1] at hparent'
        exact Option.some.inj hparent'
      rw [hwrap] at hmalloc
      have h1 := h.asked htop hparent hop hapart hn hbelow hmalloc
      have hlive1 := h.kept.malloc_chainLive htop hparent hop hn hbelow hmalloc
      have hfresh : ∀ {e}, ChainLive chain st e → e.ptr ≠ d :=
        h.kept.malloc_fresh htop hparent hop hapart hn hbelow hmalloc
      obtain ⟨region2, tail, hregion2, htail, hmem⟩ :=
        (h.kept.malloc_issued hparent (insideRule htop hop) hn hbelow hmalloc).2 d rfl
      generalize chain ++ attachedBy r _ st1 = chain1 at h1 hlive1
      -- the descriptor and the allocator of the buffer are in the block
      have hlast : chain1.getLast? = some tail := by
        obtain ⟨region, blocks, hinv⟩ := h1.kept
        obtain rfl := Option.some.inj (hinv.record.symm.trans hregion2)
        exact hinv.linked.tail.symm.trans htail
      have htailmem := List.mem_of_getLast? hlast
      have hdata := h1.kept.use_inData hop hapart htailmem hmem
      have hin : ∀ a, d ≤ a → a < d + (sizeofBuff + child.buffSize size) → InData chain1 st1 a :=
        hdata.2 hsize.2
      have hstart : (region1.cloneBuff d (child.buffSize size)).start = d + sizeofBuff := by
        obtain ⟨region, blocks, hinv⟩ := h1.kept
        obtain ⟨hcover, -⟩ := hinv.inData hparent (hin d le_rfl (by unfold sizeofBuff; omega))
        obtain ⟨e, he, -, hhi⟩ := hcover
        have hbound := (hparent.bounds hinv.parent e he).2
        exact region1.cloneBuff_start (by unfold sizeofBuff; omega)
      obtain ⟨data, a, hdata', -, rfl⟩ := Store.opCreate_eq_some.mp hcreate
      rw [Store.setBuff_buffs, Function.update_self, Option.some.injEq] at hdata'
      subst hdata'
      have hdesc : InData chain1 st1 d := hin d le_rfl (by unfold sizeofBuff; omega)
      have hcell : InData chain1 st1 (region1.cloneBuff d (child.buffSize size)).start := by
        have hpos : 0 < shallocBuffMinSize := by decide
        rw [hstart]
        exact hin _ (by omega) (by omega)
      have hwrites : AgreeOn (fun a => ¬ InData chain1 st1 a) st1
          (((st1.setBuff d (region1.cloneBuff d (child.buffSize size))).setCell
            (region1.cloneBuff d (child.buffSize size)).start a).log (.create d ret')) :=
        AgreeOn.trans (.setBuff st1 (not_not_intro hdesc) _)
          (.of_setCell (not_not_intro hcell) fun b hb heq => hb (heq ▸ hdesc))
      obtain ⟨h2, hlive2⟩ := h1.written hparent hwrites rfl
      -- and it goes back to the tail of the parent
      have huse : InUse (liveBlocks tail (Event.create d ret' :: Event.store d sizeofBuff ::
          st1.trace)) d := by
        have hne : ¬ d = tail := by
          obtain ⟨region, blocks, hinv⟩ := h1.kept
          exact ((hinv.inData hparent hdesc).2.2 tail htailmem).1
        refine ⟨⟨d, sizeofBuff + child.buffSize size⟩, ?_, rfl⟩
        simpa [hne] using hmem
      have hne : c ≠ d := hfresh ⟨t, List.mem_of_getLast? h.tail, h.use⟩
      obtain ⟨h3, hlive3⟩ := h2.freed htop hparent hop hne hlast huse hfree
      refine ⟨_, chain1, h3, fun e => ?_⟩
      rw [hlive3, hlive2, hlive1]
      constructor
      · rintro ⟨he | ⟨_, hd, rfl⟩, hptr⟩
        · exact he
        · exact absurd (Option.some.inj hd).symm hptr
      · exact fun he => ⟨Or.inl he, hfresh he⟩

/-- The record of a new region. -/
theorem RegionKept.recordIn {st1 : Store α}
    (h : RegionKept path inv (DefaultFits type) (BuffInside type top rep) k r st chain)
    (hbelow : AsksBelow limit r (shallocBuffAllocSize sizeofRegion) st)
    (hmalloc : shallocMalloc ops (r :: path) sizeofRegion st = some (some c, st1))
    (child : Region) :
    ∃ k' chain' t, RecordIn path inv type top rep k' r c t child (st1.setRegion c child) chain' ∧
      ∀ e, ChainLive chain' (st1.setRegion c child) e ↔
        ChainLive chain st e ∨ e = ⟨c, sizeofRegion⟩ := by
  have hn : sizeofRegion < 2 ^ 48 := by decide
  have rule := insideRule htop hop
  have hkept := h.malloc hparent rule hn hbelow hmalloc
  have hlive := h.malloc_chainLive htop hparent hop hn hbelow hmalloc
  obtain ⟨region, t, hregion, ht, hmem⟩ := (h.malloc_issued hparent rule hn hbelow hmalloc).2 c rfl
  generalize chain ++ attachedBy r _ st1 = chain1 at hkept hlive
  have hlast : chain1.getLast? = some t := by
    obtain ⟨region', blocks, hinv⟩ := hkept
    obtain rfl := Option.some.inj (hinv.record.symm.trans hregion)
    exact hinv.linked.tail.symm.trans ht
  have hdata := (hkept.use_inData hop hapart (List.mem_of_getLast? hlast) hmem).1
  obtain ⟨hkept', hsame⟩ := hkept.written hparent
    (AgreeOn.setRegion st1 (not_not_intro hdata) child)
  refine ⟨_, chain1, t, ⟨hkept', hlast, by simpa using hmem, Function.update_self ..⟩, fun e => ?_⟩
  have hsplit : ChainLive chain1 st1 e ↔ ChainLive chain st e ∨ e = ⟨c, sizeofRegion⟩ := by
    simpa using hlive e
  rw [← hsplit]
  simp [ChainLive]

end Failed

/-- The buffer that a new region asks for, by its initial and its default size. -/
theorem shallocGetRegion_buffSize {initSize buffSize blockSize flags : ℕ} {given : BuffAllocType}
    (hinit : initSize < 2 ^ 28) (hbuff : buffSize < 2 ^ 28) :
    shallocBuffMinSize ≤
        (shallocGetRegion path buffSize blockSize flags given).buffSize initSize ∧
      sizeofBuff + (shallocGetRegion path buffSize blockSize flags given).buffSize initSize <
        2 ^ 31 := by
  have hlower := shallocGetRegion_lower path buffSize blockSize flags given
  have hupper : (shallocGetRegion path buffSize blockSize flags given).defaultData.size ≤
      2 ^ 28 := by
    simp only [shallocGetRegion, shallocGetBuff, shallocBuffMinSize, shallocRegionBuffSizeDefault,
      shallocPageSize]
    split <;> split <;> omega
  generalize shallocGetRegion path buffSize blockSize flags given = region at hlower hupper
  have hgrown : shallocBuffMinSize ≤ region.grownSize ∧ region.grownSize ≤ 2 ^ 29 := by
    unfold Region.grownSize
    split
    · rw [Word.wrap_of_lt (by omega)]
      omega
    · omega
  unfold Region.buffSize sizeofBuff
  split <;> omega

section Leaves

variable (htop : top ≤ 2 ^ 63) (hparent : SoundParent ops path top limit inv)
  (hop : PlacesInside (ops type) top rep) (hapart : PlacesApart (2 ^ 31) rep)
include htop hparent hop hapart

/-- **What a failed creation leaves behind** in any state that satisfies the invariant. -/
theorem RegionKept.create_leaves_iff {initSize buffSize blockSize flags : ℕ} {given : BuffAllocType}
    (h : RegionKept path inv (DefaultFits type) (BuffInside type top rep) k r st chain)
    (hinit : initSize < 2 ^ 28) (hbuff : buffSize < 2 ^ 28)
    (hbelow : CreateAsksBelow ops path limit r initSize buffSize blockSize flags given st)
    (hcall : shallocRegionCreate ops (r :: path) initSize buffSize blockSize flags given st =
      some (none, st')) :
    (∀ e, LiveIn r st' e ↔ LiveIn r st e) ↔
      ¬ FirstBufferGrows ops (r :: path) initSize buffSize blockSize flags given st := by
  by_cases hheap : hasFlag flags .heap = true
  · obtain rfl : st = st' := by
      rw [shallocRegionCreate, if_pos hheap] at hcall
      exact (Prod.mk.inj (Option.some.inj hcall)).2
    refine ⟨fun _ hgrows => ?_, fun _ e => Iff.rfl⟩
    exact absurd (hheap.symm.trans hgrows.1) (by simp)
  have hn : sizeofRegion < 2 ^ 48 := by decide
  cases shallocRegionCreate_cases hcall with
  | heapFlag hflag => exact absurd hflag hheap
  | refused hmalloc =>
    refine ⟨fun _ hgrows => ?_, fun _ e => ?_⟩
    · obtain ⟨-, -, c, st1, hmalloc', -⟩ := hgrows
      exact absurd (hmalloc.symm.trans hmalloc') (by simp)
    · rw [(h.malloc hparent (insideRule htop hop) hn hbelow.record hmalloc).liveIn_iff,
        h.liveIn_iff]
      simpa using h.malloc_chainLive htop hparent hop hn hbelow.record hmalloc e
  | @notGrown c ret heap st1 st2 _ hmalloc hpos hgrow hret hdestroy =>
    obtain ⟨k1, chain1, t, hrecord, hlive1⟩ := h.recordIn htop hparent hop hapart hbelow.record
      hmalloc (shallocGetRegion (r :: path) buffSize blockSize flags given)
    have hsize := @shallocGetRegion_buffSize (r :: path) initSize buffSize blockSize flags given
      hinit hbuff
    have hbuffer := hbelow.buffer hmalloc
    rw [Region.request, Word.wrap_of_lt (lt_trans hsize.2 (by decide))] at hbuffer
    obtain ⟨k2, chain2, hleft, hlive2⟩ := hrecord.grow_failed htop hparent hop hapart (by decide)
      ⟨rfl, rfl⟩ hsize hbuffer hgrow hret
    -- the record is all that there is to destroy
    obtain ⟨region, hregion, -, ⟨hnone, -⟩ | ⟨P, hP, hfree⟩⟩ := shallocRegionDestroy_empty hdestroy
    · obtain rfl := Option.some.inj (hleft.record.symm.trans hregion)
      exact absurd hnone (by simp [Region.parent, shallocGetRegion])
    obtain rfl := Option.some.inj (hleft.record.symm.trans hregion)
    obtain rfl : r = P := Option.some.inj hP
    have hfinal := hleft.kept.free_live hparent hop hleft.mem hleft.use hfree
    have hfresh : ∀ {e}, ChainLive chain st e → e.ptr ≠ c :=
      h.malloc_fresh htop hparent hop hapart hn hbelow.record hmalloc
    have hkept := hleft.kept.free hparent (insideRule htop hop)
      (hleft.kept.inUse_tail hparent hop ⟨t, hleft.mem, hleft.use⟩) hfree
    simp only [hkept.liveIn_iff, h.liveIn_iff]
    have hgrows : FirstBufferGrows ops (r :: path) initSize buffSize blockSize flags given st ↔
        chain2.getLast? ≠ some t := by
      rw [ne_eq, hleft.tail]
      constructor
      · rintro ⟨-, -, c', st1', hmalloc', hgrows⟩
        obtain ⟨hc, rfl⟩ := Prod.mk.inj (Option.some.inj (hmalloc.symm.trans hmalloc'))
        obtain rfl := Option.some.inj hc
        exact hgrows
      · exact fun hgrows => ⟨by simpa using hheap, hpos, c, st1, hmalloc, hgrows⟩
    rw [hgrows, not_not]
    constructor
    · intro hsame
      by_contra hmoved
      have hrecord' : ChainLive chain2 st' ⟨c, sizeofRegion⟩ :=
        (hfinal _).mpr ⟨(hlive2 _).mpr ((hlive1 _).mpr (Or.inr rfl)), fun htail =>
          absurd htail hmoved⟩
      exact hfresh ((hsame _).mp hrecord') rfl
    · intro htail e
      rw [hfinal e, hlive2 e, hlive1 e]
      constructor
      · rintro ⟨he | rfl, hne⟩
        · exact he
        · exact absurd rfl (hne htail)
      · exact fun he => ⟨Or.inl he, fun _ => hfresh he⟩

end Leaves

end Create

section Mplite

variable {σ : Type} {ops : BuffAllocType → BuffOp (AllocState (Mplite ⊕ σ))}
  {st st' : Store (AllocState (Mplite ⊕ σ))}
  {inv : List Extent → Store (AllocState (Mplite ⊕ σ)) → Prop}

/-- A buffer of the buddy allocator: each block in use begins a chunk in use of its pool, and
one of less than 2 GiB lies in it. -/
structure MpliteInside (data : Buff) (live : List Extent) (a : AllocState (Mplite ⊕ σ)) : Prop where
  pool : ∃ handle tile, a = .other (.inl handle) ∧ MplitePlaced data handle ∧
    MplitePool tile none handle ∧ MpliteUses (· < 2 ^ 31) tile handle live
  distinct : (live.map Extent.ptr).Nodup

/-- The chunk of a block in use. -/
theorem MpliteInside.chunk {data : Buff} {live : List Extent} {a : AllocState (Mplite ⊕ σ)}
    {e : Extent} (h : MpliteInside data live a) (he : e ∈ live) :
    data.start < e.ptr ∧ e.ptr < data.start + data.size ∧
      (e.len < 2 ^ 31 → e.ptr + e.len ≤ data.start + data.size) := by
  obtain ⟨handle, tile, -, hplaced, hpool, huses⟩ := h.pool
  obtain ⟨i, l, hptr, hi, hlen⟩ := huses e he
  have htile := Buddy.liveLog_eq_some.mp hi
  have hfits := hplaced.fits
  have hwithin : ∀ len ≤ handle.szAtom * 2 ^ l, data.start + sizeofMplite ≤ e.ptr ∧
      e.ptr + len ≤ data.start + sizeofMplite + (data.size - sizeofMplite) := by
    intro len hle
    rw [hptr]
    exact hplaced.within hpool htile hle
  have hone : 1 ≤ handle.szAtom * 2 ^ l := Nat.mul_pos hplaced.atom_pos (Nat.two_pow_pos l)
  have hheader : 0 < sizeofMplite := by decide
  obtain ⟨hlo, hhi⟩ := hwithin 1 hone
  refine ⟨by omega, by omega, fun hsmall => ?_⟩
  obtain ⟨-, hhi'⟩ := hwithin e.len (hlen hsmall)
  omega

theorem mplite_placesApart : PlacesApart (2 ^ 31) (MpliteInside (σ := σ)) where
  after h _ he := (h.chunk he).1
  within h _ he hlen := (h.chunk he).2.2 hlen
  distinct h := h.distinct

/-- The buddy allocator issues blocks that begin in its own buffer. -/
theorem mplite_placesInside (htop : top ≤ 2 ^ 63) :
    PlacesInside (mpliteOps (σ := σ)) top MpliteInside where
  inside h e he := ⟨Nat.le_of_lt (h.chunk he).1, (h.chunk he).2.1⟩
  next link h := by
    obtain ⟨handle, tile, ha, hplaced, hpool, huses⟩ := h.pool
    exact ⟨⟨handle, tile, ha, ⟨hplaced.atom, hplaced.pool, hplaced.fits⟩, hpool, huses⟩, h.distinct⟩
  created := by
    intro data a ret a' _ hend hcreate hret
    obtain ⟨handle, rfl, hplaced, tile, hpool⟩ := mpliteCreate_pool (by omega) hcreate hret
    exact ⟨⟨handle, tile, rfl, hplaced, hpool, fun e he => absurd he List.not_mem_nil⟩,
      List.nodup_nil⟩
  malloc := by
    intro data live a n p a' h _ _ hcall
    obtain ⟨handle, tile, rfl, hplaced, hpool, huses⟩ := h.pool
    simp only [mpliteOps, mpliteOpMalloc, bind, Option.bind_eq_some_iff, Prod.exists,
      Option.some.injEq, Prod.mk.injEq] at hcall
    obtain ⟨p', handle', hmalloc, rfl, rfl⟩ := hcall
    unfold mpliteMalloc at hmalloc
    split at hmalloc
    · obtain ⟨rfl, rfl⟩ := Prod.mk.inj (Option.some.inj hmalloc)
      exact h
    cases p' with
    | none =>
      obtain ⟨hpool', huses'⟩ := huses.refused hpool hmalloc
      exact ⟨⟨handle', tile, rfl, hplaced.of_place (mpliteMallocUnsafe_place hmalloc), hpool',
        huses'⟩, h.distinct⟩
    | some q =>
      -- a size of less than 2 GiB is passed on as it is
      have hseen : n < 2 ^ 31 → n ≤ (toInt32 n).toNat := by
        intro hn
        unfold toInt32
        rw [Int.bmod_eq_of_le] <;> omega
      obtain ⟨hplace, i, l, tile', rfl, hpool', -, -, huses', hother⟩ :=
        huses.malloc hpool hseen hmalloc
      refine ⟨⟨handle', tile', rfl, hplaced.of_place hplace, hpool', huses'⟩, ?_⟩
      refine List.nodup_cons.mpr ⟨fun hmem => ?_, h.distinct⟩
      obtain ⟨e, he, hptr⟩ := List.mem_map.mp hmem
      obtain ⟨j, _, hptr', hne, -, -⟩ := hother e he
      rw [hptr'] at hptr
      exact hne (Nat.eq_of_mul_eq_mul_right hplaced.atom_pos (Nat.add_left_cancel hptr))
  free := by
    intro data live a e a' h he hcall
    obtain ⟨handle, tile, rfl, hplaced, hpool, huses⟩ := h.pool
    obtain ⟨handle', hfree, rfl⟩ := Option.map_eq_some_iff.mp hcall
    have hpos := (h.chunk he).1
    rw [mpliteFree, if_neg (by omega)] at hfree
    obtain ⟨hplace, tile', hpool', huses'⟩ := huses.free hpool hplaced.atom_pos he hfree
    exact ⟨⟨handle', tile', rfl, hplaced.of_place hplace, hpool', huses'⟩,
      (List.filter_sublist.map _).nodup h.distinct⟩

/-- **When a failed region creation leaves nothing behind.** In every state of every run of a
parent of type MPLITE under sound ancestors, a creation that returns NULL leaves the blocks in use
in the parent as they were iff the parent does not grow for the first buffer of the new region. -/
theorem shallocRegionCreate_leaves_iff {held : List ℕ} {initSize buffSize blockSize flags : ℕ}
    {given : BuffAllocType} (hops : ops .mplite = mpliteOps) (htop : top ≤ 2 ^ 63)
    (hparent : SoundParent ops path top limit inv)
    (run : UsedRun ops path limit inv .mplite r st held)
    (hinit : initSize < 2 ^ 28) (hbuff : buffSize < 2 ^ 28)
    (hbelow : CreateAsksBelow ops path limit r initSize buffSize blockSize flags given st)
    (hcall : shallocRegionCreate ops (r :: path) initSize buffSize blockSize flags given st =
      some (none, st')) :
    (∀ e, LiveIn r st' e ↔ LiveIn r st e) ↔
      ¬ FirstBufferGrows ops (r :: path) initSize buffSize blockSize flags given st := by
  have hop : PlacesInside (ops .mplite) top (MpliteInside (σ := σ)) := by
    rw [hops]
    exact mplite_placesInside htop
  obtain ⟨-, k, chain, h⟩ := run.kept htop hparent hop
  exact h.kept.create_leaves_iff htop hparent hop mplite_placesApart hinit hbuff hbelow hcall

end Mplite

section Heap

variable {ρ : Type}

/-- An allocator beside the buddy allocator. -/
def besideMplite (op : BuffOp ρ) : BuffOp (Mplite ⊕ ρ) where
  create buff
    | .inr a => do
      let (ret, a) ← op.create buff a
      some (ret, .inr a)
    | _ => none
  destroy buff
    | .inr a => (op.destroy buff a).map .inr
    | _ => none
  malloc buff size
    | .inr a => do
      let (p, a) ← op.malloc buff size a
      some (p, .inr a)
    | _ => none
  free buff ptr
    | .inr a => (op.free buff ptr a).map .inr
    | _ => none

/-- The representation of an allocator beside the buddy allocator. -/
def BesideRep (rep : Buff → List Extent → AllocState ρ → Prop) (buff : Buff) (blocks : List Extent)
    (a : AllocState (Mplite ⊕ ρ)) : Prop :=
  ∃ x, a = .other (.inr x) ∧ rep buff blocks (.other x)

/-- An allocator is as sound beside the buddy allocator as it is alone. -/
theorem besideMplite_sound {op : BuffOp ρ} {head limit : ℕ}
    {rep : Buff → List Extent → AllocState ρ → Prop} (h : SoundOp (otherOp op) head limit rep) :
    SoundOp (otherOp (besideMplite op)) head limit (BesideRep rep) where
  issued := by
    rintro buff blocks a ⟨x, rfl, hrep⟩
    exact h.issued hrep
  served := by
    rintro buff blocks a n p a' ⟨x, rfl, hrep⟩ hpos hn hcall
    simp only [otherOp, besideMplite, bind, Option.bind_eq_some_iff, Prod.exists, Option.some.injEq,
      Prod.mk.injEq] at hcall
    obtain ⟨_, _, ⟨_, y, hmalloc, rfl, rfl⟩, rfl, rfl⟩ := hcall
    have halone : (otherOp op).malloc buff n (.other x) = some (some p, .other y) := by
      simp [otherOp, hmalloc]
    obtain ⟨hrep', hapart⟩ := h.served hrep hpos hn halone
    exact ⟨⟨y, rfl, hrep'⟩, hapart⟩
  refused := by
    rintro buff blocks a n a' ⟨x, rfl, hrep⟩ hpos hn hcall
    simp only [otherOp, besideMplite, bind, Option.bind_eq_some_iff, Prod.exists, Option.some.injEq,
      Prod.mk.injEq] at hcall
    obtain ⟨_, _, ⟨_, y, hmalloc, rfl, rfl⟩, rfl, rfl⟩ := hcall
    have halone : (otherOp op).malloc buff n (.other x) = some (none, .other y) := by
      simp [otherOp, hmalloc]
    exact ⟨y, rfl, h.refused hrep hpos hn halone⟩
  freed := by
    rintro buff blocks a e a' ⟨x, rfl, hrep⟩ he hfree
    simp only [otherOp, besideMplite, Option.map_eq_some_iff] at hfree
    obtain ⟨_, ⟨y, hcall, rfl⟩, rfl⟩ := hfree
    have halone : (otherOp op).free buff e.ptr (.other x) = some (.other y) := by
      simp [otherOp, hcall]
    exact ⟨y, rfl, h.freed hrep he halone⟩

/-- Where the allocator of type SIMPLE puts the blocks of a region's record and of its first two
buffers in a fresh heap of 64 KiB. -/
def simpleOffset (n : ℕ) : ℕ := if n ≤ 96 then 72 else if n ≤ 4160 then 184 else 4360

/-- The buddy allocator beside the allocator of the heap. -/
def simpleHeapOps : BuffAllocType → BuffOp (AllocState (Mplite ⊕ List Extent)) :=
  shallocBuffOps fun _ => besideMplite (placedOp simpleOffset)

/-- The buffer of a heap of type SIMPLE. -/
def simpleHeapBuff : Buff := { heapBuff with allocType := .simple }

/-- The region of the heap. -/
def simpleHeapRegion : Region := { heapRegion with defaultData := simpleHeapBuff }

/-- The heap with no block in use. -/
def simpleHeapStore : Store (AllocState (Mplite ⊕ List Extent)) where
  regions r := if r = 4096 then some simpleHeapRegion else none
  buffs b := if b = 4112 then some simpleHeapBuff else none
  cells a := .other (if a = 8192 then .inr [] else .inl Mplite.raw)
  trace := []

/-- What the heap has issued. -/
def SimpleHeapIssued : List Extent → Store (AllocState (Mplite ⊕ List Extent)) → Prop :=
  HeapIssued (BesideRep (PlacedAfter 72)) 4096 4112 simpleHeapRegion simpleHeapBuff

theorem simpleHeap_soundParent :
    SoundParent simpleHeapOps [4096] (2 ^ 48) (2 ^ 64) SimpleHeapIssued :=
  heap_soundParent (besideMplite_sound (placedOp_sound_after (fun n => by
    unfold simpleOffset
    split
    · exact le_rfl
    · split <;> omega) (2 ^ 64))) (by decide) rfl (by decide)

theorem simpleHeapStore_issued : SimpleHeapIssued [] simpleHeapStore where
  above :=
    { layout := ⟨rfl, rfl, rfl, by decide, Or.inl (by decide), Or.inl (by decide)⟩
      region := rfl
      descr := rfl
      rep := ⟨[], rfl, ⟨rfl, fun _ he => absurd he List.not_mem_nil⟩,
        fun _ he => absurd he List.not_mem_nil⟩ }
  live _ he := absurd he List.not_mem_nil
  apart := List.Pairwise.nil

/-- A region of type MPLITE in the heap, and the creation of a region in it that fails. -/
structure FailedCreate (initSize growths : ℕ)
    (st st1 st' : Store (AllocState (Mplite ⊕ List Extent))) (region : Region) : Prop where
  created : shallocRegionCreate simpleHeapOps [4096] 0 0 0 0 .mplite simpleHeapStore =
    some (some 8264, st)
  record : st.regions 8264 = some region
  flags : region.flags = 0
  obtained : shallocMalloc simpleHeapOps [8264, 4096] sizeofRegion st = some (some 12240, st1)
  growths : mallocGrowths simpleHeapOps [8264, 4096]
    (sizeofBuff + (shallocGetRegion [8264, 4096] 1024 0 0 .nofree).buffSize initSize)
    (st1.setRegion 12240 (shallocGetRegion [8264, 4096] 1024 0 0 .nofree)) = growths
  failed : shallocRegionCreate simpleHeapOps [8264, 4096] initSize 1024 0 0 .nofree st =
    some (none, st')

/-- The same as one run. -/
def failedCreate (initSize : ℕ) : Option (Option ℕ × ℕ × Option ℕ × ℕ × Option ℕ) := do
  let (r, st) ← shallocRegionCreate simpleHeapOps [4096] 0 0 0 0 .mplite simpleHeapStore
  let region ← st.regions 8264
  let (c, st1) ← shallocMalloc simpleHeapOps [8264, 4096] sizeofRegion st
  let growths := mallocGrowths simpleHeapOps [8264, 4096]
    (sizeofBuff + (shallocGetRegion [8264, 4096] 1024 0 0 .nofree).buffSize initSize)
    (st1.setRegion 12240 (shallocGetRegion [8264, 4096] 1024 0 0 .nofree))
  let (failed, _) ← shallocRegionCreate simpleHeapOps [8264, 4096] initSize 1024 0 0 .nofree st
  some (r, region.flags, c, growths, failed)

theorem failedCreate_steps {initSize growths : ℕ}
    (h : failedCreate initSize = some (some 8264, 0, some 12240, growths, none)) :
    ∃ st st1 st' region, FailedCreate initSize growths st st1 st' region := by
  simp only [failedCreate, bind, Option.bind_eq_some_iff, Prod.exists, Option.some.injEq,
    Prod.mk.injEq] at h
  obtain ⟨_, st, hcreate, region, hregion, _, st1, hmalloc, _, st', hfailed, rfl, hflags, rfl,
    hgrowths, rfl⟩ := h
  exact ⟨st, st1, st', region, hcreate, hregion, hflags, hmalloc, hgrowths, hfailed⟩

theorem FailedCreate.run {initSize growths : ℕ}
    {st st1 st' : Store (AllocState (Mplite ⊕ List Extent))} {region : Region}
    (h : FailedCreate initSize growths st st1 st' region) :
    UsedRun simpleHeapOps [4096] (2 ^ 64) SimpleHeapIssued .mplite 8264 st [] :=
  .calls (.create simpleHeapStore_issued (by decide) (by decide) rfl (Word.wrap_lt _ _) h.created)

theorem FailedCreate.grows_iff {initSize growths : ℕ}
    {st st1 st' : Store (AllocState (Mplite ⊕ List Extent))} {region : Region}
    (h : FailedCreate initSize growths st st1 st' region) (hpos : 0 < initSize) :
    FirstBufferGrows simpleHeapOps [8264, 4096] initSize 1024 0 0 .nofree st ↔ growths ≠ 0 := by
  constructor
  · rintro ⟨-, -, c, st1', hmalloc, hgrowths⟩
    obtain ⟨hc, rfl⟩ := Prod.mk.inj (Option.some.inj (h.obtained.symm.trans hmalloc))
    obtain rfl := Option.some.inj hc
    rwa [h.growths] at hgrowths
  · exact fun hgrowths => ⟨by decide, hpos, 12240, st1, h.obtained, by rwa [h.growths]⟩

/-- A creation that fails because the heap is full leaves nothing behind. -/
theorem shallocRegionCreate_leaves_full :
    ∃ st st', UsedRun simpleHeapOps [4096] (2 ^ 64) SimpleHeapIssued .mplite 8264 st [] ∧
      shallocRegionCreate simpleHeapOps [8264, 4096] 100000 1024 0 0 .nofree st =
        some (none, st') ∧
      ∀ e, LiveIn 8264 st' e ↔ LiveIn 8264 st e := by
  obtain ⟨st, st1, st', region, h⟩ := failedCreate_steps
    (show failedCreate 100000 = some (some 8264, 0, some 12240, 0, none) by decide +kernel)
  refine ⟨st, st', h.run, h.failed, ?_⟩
  refine (shallocRegionCreate_leaves_iff rfl (by decide) simpleHeap_soundParent h.run (by decide)
    (by decide) (createAsksBelow_two_pow _ _ _ _ _ _ _) h.failed).mpr fun hgrows => ?_
  exact (h.grows_iff (by decide)).mp hgrows rfl

/-- A request of 2049 bytes for the first buffer makes the parent grow by a buffer that is too
small for it, and the record of the region stays behind. -/
theorem not_shallocRegionCreate_leaves :
    ¬ ∀ (held : List ℕ) (r initSize buffSize blockSize flags : ℕ) (given : BuffAllocType)
      (region : Region) (st st' : Store (AllocState (Mplite ⊕ List Extent))),
      UsedRun simpleHeapOps [4096] (2 ^ 64) SimpleHeapIssued .mplite r st held →
      st.regions r = some region → hasFlag region.flags .nonResizable = false →
      initSize < 2 ^ 28 → buffSize < 2 ^ 28 →
      shallocRegionCreate simpleHeapOps [r, 4096] initSize buffSize blockSize flags given st =
        some (none, st') →
      ∀ e, LiveIn r st' e ↔ LiveIn r st e := by
  intro hall
  obtain ⟨st, st1, st', region, h⟩ := failedCreate_steps
    (show failedCreate 1985 = some (some 8264, 0, some 12240, 1, none) by decide +kernel)
  have hsame := hall [] 8264 1985 1024 0 0 .nofree region st st' h.run h.record
    (by rw [h.flags]; decide) (by decide) (by decide) h.failed
  have hop : PlacesInside (simpleHeapOps .mplite) (2 ^ 48) MpliteInside :=
    mplite_placesInside (by decide)
  obtain ⟨-, k, chain, hkept⟩ := h.run.kept (by decide) simpleHeap_soundParent hop
  exact (hkept.kept.create_leaves_iff (by decide) simpleHeap_soundParent hop mplite_placesApart
    (by decide) (by decide) (createAsksBelow_two_pow _ _ _ _ _ _ _) h.failed).mp hsame
      ((h.grows_iff (by decide)).mpr (by decide))

end Heap

end Shalloc
