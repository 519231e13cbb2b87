import Shalloc.Region.Rule
import Shalloc.Space.Defs

/-!
# The chain of a region in every run

The chain of buffers of a region after any sequence of calls, for a region that was created
below a parent and for the region of a heap. The ghost state of a run is the number of
growths and the list of the buffers that are attached.

## Main definitions

- `RegionStart`, `ChainCall`, `ChainRun` — the runs
- `ChainFacts` — what holds of the chain and of the default size
- `GrowCall`, `GrowAsserts` — the calls of `shalloc_region_grow` and their asserts

## Main results

- `chainRun_facts` — the facts hold, and no assert fails, in every state of every run
-/

namespace Shalloc

variable {α : Type} {ops : BuffAllocType → BuffOp α} {st st' : Store α} {path : List ℕ}
  {top limit k r init : ℕ} {inv : List Extent → Store α → Prop} {region : Region}
  {attached : List ℕ}

/-- A region at its start: `init` is its default size, and it has grown `k` times. -/
inductive RegionStart (ops : BuffAllocType → BuffOp α) (path : List ℕ) (limit : ℕ)
    (inv : List Extent → Store α → Prop) : ℕ → ℕ → ℕ → Store α → List ℕ → Prop
  /-- `shalloc_region_create` has returned the region. -/
  | created {initSize buffSize blockSize flags : ℕ} {type : BuffAllocType} {r : ℕ}
      {st st' : Store α} : inv [] st → initSize < 2 ^ 48 → buffSize < 2 ^ 48 →
      (shallocGetRegion path buffSize blockSize flags type).request initSize < limit →
      shallocRegionCreate ops path initSize buffSize blockSize flags type st = some (some r, st') →
      RegionStart ops path limit inv
        (shallocGetRegion path buffSize blockSize flags type).defaultData.size
        (if initSize = 0 then 0 else 1) r st' (attachedBy r (if initSize = 0 then 0 else 1) st')
  /-- The region of a heap record that `shalloc_get_heap` has filled in at `self`. -/
  | heap {guardPages : Bool} {self addr size mmapFlags : ℕ} {type : BuffAllocType}
      {old heap : Heap} {st : Store α} : path = [] →
      shallocGetHeap guardPages self old addr size mmapFlags type = some heap →
      st.regions (self + heapRegionOffset) = some heap.region →
      st.buffs (self + heapRegionOffset + regionDataOffset) = some heap.region.defaultData →
      RegionStart ops path limit inv heap.region.defaultData.size 0 (self + heapRegionOffset) st
        [self + heapRegionOffset + regionDataOffset]

/-- A call on region `r`, with the growths in it and the buffers that are attached before and
after it. A reset detaches all buffers but the first. -/
inductive ChainCall (ops : BuffAllocType → BuffOp α) (path : List ℕ) (limit r : ℕ) (st : Store α)
    (attached : List ℕ) : ℕ → Store α → List ℕ → Prop
  | malloc {n : ℕ} {p : Option ℕ} {st' : Store α} : n < 2 ^ 48 →
      AsksBelow limit r (shallocBuffAllocSize n) st →
      shallocMalloc ops (r :: path) n st = some (p, st') →
      ChainCall ops path limit r st attached (mallocGrowths ops (r :: path) n st) st'
        (attached ++ attachedBy r (mallocGrowths ops (r :: path) n st) st')
  | calloc {nmemb size : ℕ} {p : Option ℕ} {st' : Store α} : nmemb * size < 2 ^ 48 →
      AsksBelow limit r (shallocBuffAllocSize (nmemb * size)) st →
      shallocCalloc ops (r :: path) nmemb size st = some (p, st') →
      ChainCall ops path limit r st attached (callocGrowths ops (r :: path) nmemb size st) st'
        (attached ++ attachedBy r (callocGrowths ops (r :: path) nmemb size st) st')
  | orealloc {ptr p : Option ℕ} {size oldSize : ℕ} {st' : Store α} : size < 2 ^ 48 →
      AsksBelow limit r (shallocBuffAllocSize size) st →
      shallocOrealloc ops (r :: path) ptr size oldSize st = some (p, st') →
      ChainCall ops path limit r st attached
        (oreallocGrowths ops (r :: path) ptr size oldSize st) st'
        (attached ++ attachedBy r (oreallocGrowths ops (r :: path) ptr size oldSize st) st')
  | free {p : ℕ} {st' : Store α} : shallocFree ops r p st = some st' →
      ChainCall ops path limit r st attached 0 st' attached
  | reset {fuel : ℕ} {st' : Store α} : shallocRegionReset ops fuel r st = some st' →
      ChainCall ops path limit r st attached 0 st' (attached.take 1)

/-- Calls on region `r` from its start. -/
inductive ChainRun (ops : BuffAllocType → BuffOp α) (path : List ℕ) (limit : ℕ)
    (inv : List Extent → Store α → Prop) (init r : ℕ) : ℕ → Store α → List ℕ → Prop
  | start {k : ℕ} {st : Store α} {attached : List ℕ} :
      RegionStart ops path limit inv init k r st attached →
        ChainRun ops path limit inv init r k st attached
  | step {k growths : ℕ} {st st' : Store α} {attached attached' : List ℕ} :
      ChainRun ops path limit inv init r k st attached →
      ChainCall ops path limit r st attached growths st' attached' →
      ChainRun ops path limit inv init r (k + growths) st' attached'

/-- The default size of a region after `k` growths. -/
def DefaultSizeAfter (init k : ℕ) (region : Region) : Prop :=
  region.defaultData.size =
    if hasFlag region.flags .elastic then Word.wrap 64 (init * 2 ^ k) else init

/-- The chain of region `r` and its default size. -/
structure ChainFacts (init k r : ℕ) (st : Store α) (attached : List ℕ) (region : Region) :
    Prop where
  record : st.regions r = some region
  headTail : region.dataHead = none ↔ region.dataTail = none
  /-- Following `next` from `data_head` visits the attached buffers, -/
  walk : ChainFrom st.buffs region.dataHead attached
  /-- each of them once, -/
  once : attached.Nodup
  /-- and ends at `data_tail`. -/
  ends : region.dataTail = attached.getLast?
  last : ∀ t, region.dataTail = some t → ∃ buff, st.buffs t = some buff ∧ buff.next = none
  fixed : hasFlag region.flags .nonResizable = true → attached.length ≤ 1
  size : DefaultSizeAfter init k region

/-- `shalloc_region_grow` is called for `size` bytes in state `st1`, in a request of region
`r` made in state `st`. -/
inductive GrowCall (ops : BuffAllocType → BuffOp α) (limit r : ℕ) (st : Store α) :
    ℕ → Store α → Prop
  | malloc {n : ℕ} {st1 : Store α} : 0 < n → n < 2 ^ 48 →
      AsksBelow limit r (shallocBuffAllocSize n) st →
      TailRefuses (fun t st => st.opMalloc ops t n) r (st.log (.request r n)) st1 →
      GrowCall ops limit r st (shallocBuffAllocSize n) st1
  | calloc {nmemb size : ℕ} {st1 : Store α} : 0 < nmemb * size → nmemb * size < 2 ^ 48 →
      AsksBelow limit r (shallocBuffAllocSize (nmemb * size)) st →
      TailRefuses (fun t st => st.opCalloc ops t nmemb size) r
        (st.log (.request r (Word.wrap 64 (nmemb * size)))) st1 →
      GrowCall ops limit r st (shallocBuffAllocSize (Word.wrap 64 (nmemb * size))) st1

/-- The asserts of `shalloc_region_grow` and of `shalloc_region_alloc_buff`, each where it is
evaluated: on `size`, on `region->parent` unless the call has returned before, and on
`data_head` once there is a new buffer. -/
structure GrowAsserts (ops : BuffAllocType → BuffOp α) (path : List ℕ) (r size : ℕ)
    (st : Store α) : Prop where
  pos : 0 < size
  parent : ∀ region, st.regions r = some region →
    ¬ (region.dataTail.isSome ∧ hasFlag region.flags .nonResizable) → region.parent.isSome
  head : ∀ region region1 d st1, st.regions r = some region →
    ¬ (region.dataTail.isSome ∧ hasFlag region.flags .nonResizable) →
    shallocRegionAllocBuff ops (shallocMalloc ops path) r size st = some (some d, st1) →
    st1.regions r = some region1 → region1.dataTail = none → region1.dataHead = none

/-- However often a size below `2 ^ 48` is doubled, with wrap-around, there is room for the
descriptor: after 16 doublings the low bits are clear. -/
theorem wrap_doubled_lt {c : ℕ} (hc : c < 2 ^ 48) (k : ℕ) :
    sizeofBuff + Word.wrap 64 (c * 2 ^ k) < 2 ^ 64 := by
  have hlt := Word.wrap_lt 64 (c * 2 ^ k)
  unfold sizeofBuff Word.wrap at *
  by_cases hk : k < 16
  · have hpow : 2 ^ k ≤ 2 ^ 15 := Nat.pow_le_pow_right (by decide) (by omega)
    have hmul : c * 2 ^ k ≤ 2 ^ 48 * 2 ^ 15 := Nat.mul_le_mul (by omega) hpow
    have hmod := Nat.mod_le (c * 2 ^ k) (2 ^ 64)
    omega
  · have hdvd : 2 ^ 16 ∣ c * 2 ^ k := (pow_dvd_pow 2 (by omega)).mul_left c
    obtain ⟨q, hq⟩ := (Nat.dvd_mod_iff (pow_dvd_pow 2 (by decide : 16 ≤ 64))).mpr hdvd
    omega

/-- The size that the next growth sets. -/
theorem DefaultSizeAfter.grownSize (h : DefaultSizeAfter init k region) :
    region.grownSize = if hasFlag region.flags .elastic then Word.wrap 64 (init * 2 ^ (k + 1))
      else init := by
  unfold DefaultSizeAfter at h
  unfold Region.grownSize
  rw [h]
  split
  · have hpow : init * 2 ^ (k + 1) = init * 2 ^ k * 2 := by rw [Nat.pow_succ 2 k, Nat.mul_assoc]
    simp only [Word.wrap, hpow, Nat.mod_mul_mod]
  · rfl

theorem DefaultSizeAfter.grow (h : DefaultSizeAfter init k region) :
    DefaultSizeAfter init (k + 1) (region.setDefaultSize region.grownSize) :=
  h.grownSize

/-- The size of a new buffer, with its descriptor, does not wrap. -/
theorem DefaultSizeAfter.room {size : ℕ} (h : DefaultSizeAfter init k region)
    (hinit : init < 2 ^ 48) (hsize : size < 2 ^ 52) :
    sizeofBuff + region.buffSize size < 2 ^ 64 := by
  have hgrown : sizeofBuff + region.grownSize < 2 ^ 64 := by
    rw [h.grownSize]
    split
    · exact wrap_doubled_lt hinit (k + 1)
    · unfold sizeofBuff
      omega
  exact buffSize_room hgrown (by unfold sizeofBuff; omega)

/-- The default size keeps to its formula, whatever the buffers do. -/
theorem defaultSize_rule (htop : top ≤ 2 ^ 64) (hinit : init < 2 ^ 48) :
    RegionRule ops top (DefaultSizeAfter init) (fun _ _ _ _ => True) fun _ _ => True where
  top_le := htop
  link h := h
  room h hsize := h.room hinit hsize
  grown h _ _ _ := h.grow
  created _ _ _ _ _ _ := trivial
  next _ h := h
  malloc h _ _ _ := h
  free h _ _ := h
  renew h _ _ _ := h

/-- What the links of a region and its size say about its chain. -/
theorem Linked.facts (hrecord : st.regions r = some region) (hlinked : Linked st region attached)
    (hnodup : attached.Nodup)
    (hfixed : hasFlag region.flags .nonResizable = true → attached.length ≤ 1)
    (hsize : DefaultSizeAfter init k region) : ChainFacts init k r st attached region where
  record := hrecord
  headTail := by
    cases attached with
    | nil => simp [show region.dataHead = none from hlinked.head, hlinked.tail]
    | cons b bs => simp [hlinked.head.1, hlinked.tail]
  walk := hlinked.head
  once := hnodup
  ends := hlinked.tail
  last t ht := hlinked.head.last (hlinked.tail.symm.trans ht)
  fixed := hfixed
  size := hsize

section Created

variable {P : ℕ} (hparent : SoundParent ops path top limit inv) (hP : path.head? = some P)
  (htop : top ≤ 2 ^ 64) (hinit : init < 2 ^ 48)
include hparent hP htop hinit

/-- The invariant of a region below a parent. -/
abbrev ChainKept (path : List ℕ) (inv : List Extent → Store α → Prop) (init k r : ℕ)
    (st : Store α) (attached : List ℕ) : Prop :=
  RegionKept path inv (DefaultSizeAfter init) (fun _ _ _ _ => True) k r st attached

theorem ChainCall.kept {growths : ℕ} {attached' : List ℕ}
    (hcall : ChainCall ops path limit r st attached growths st' attached')
    (h : ChainKept path inv init k r st attached) :
    ChainKept path inv init (k + growths) r st' attached' := by
  have rule : RegionRule ops top (DefaultSizeAfter init) (fun _ _ _ _ => True) fun _ _ => True :=
    defaultSize_rule htop hinit
  cases hcall with
  | malloc hn hbelow hcall => exact h.malloc hparent rule hn hbelow hcall
  | calloc hn hbelow hcall => exact h.calloc hparent rule hn hbelow hcall
  | orealloc hn hbelow hcall =>
    exact h.orealloc hparent rule hn hbelow (fun _ _ _ _ _ _ _ _ _ _ _ _ _ _ => trivial) hcall
  | free hcall => exact h.free hparent rule (fun _ _ _ _ _ _ _ => trivial) hcall
  | reset hcall => exact h.reset hparent hP rule hcall

/-- The asserts on the way of a growth. -/
theorem ChainKept.asserts {size : ℕ} (h : ChainKept path inv init k r st attached)
    (hpos : 0 < size) (hsize : size < 2 ^ 52) (hbelow : AsksBelow limit r size st) :
    GrowAsserts ops path r size st := by
  obtain ⟨region0, blocks, h⟩ := h
  refine ⟨hpos, fun region hregion _ => ?_,
    fun region region1 d st1 hregion _ halloc hregion1 htail => ?_⟩
  · obtain rfl := Option.some.inj (h.record.symm.trans hregion)
    rw [Region.parent, h.ancestors, hP]
    rfl
  · obtain ⟨-, ⟨hd, -⟩ | ⟨c, e, -, h', -⟩⟩ := h.allocBuff hparent (defaultSize_rule htop hinit)
      hpos hsize (hbelow _ h.record) (shallocRegionAllocBuff_cases halloc)
    · exact absurd hd (by simp)
    · obtain rfl := Option.some.inj (h'.record.symm.trans hregion1)
      have hnil : attached = [] := List.getLast?_eq_none_iff.mp (h'.linked.tail.symm.trans htail)
      subst hnil
      exact h'.linked.head

/-- The asserts on the way of a growth in a request. -/
theorem GrowCall.asserts {size : ℕ} {st1 : Store α} (hcall : GrowCall ops limit r st size st1)
    (h : ChainKept path inv init k r st attached) : GrowAsserts ops path r size st1 := by
  have rule : RegionRule ops top (DefaultSizeAfter init) (fun _ _ _ _ => True) fun _ _ => True :=
    defaultSize_rule htop hinit
  cases hcall with
  | @malloc n _ hpos hn hbelow hrefuses =>
    have hbelow' : AsksBelow limit r _ st1 :=
      (hbelow.log _).refused hrefuses (opMalloc_issues ops n).regions
    obtain ⟨hpos', hsize⟩ := shallocBuffAllocSize_bounds hpos hn
    have hlog := h.log hparent (.request r n) (by simp [Event.touches])
    cases hrefuses with
    | empty => exact ChainKept.asserts hparent hP htop hinit hlog hpos' hsize hbelow'
    | refused hregion ht hask =>
      exact ChainKept.asserts hparent hP htop hinit
        (hlog.opMalloc hparent rule hpos hn hregion ht hask) hpos' hsize hbelow'
  | @calloc nmemb size _ hpos hn hbelow hrefuses =>
    have hwrap : Word.wrap 64 (nmemb * size) = nmemb * size := Word.wrap_of_lt (by omega)
    rw [← hwrap] at hpos hn hbelow
    have hbelow' : AsksBelow limit r _ st1 :=
      (hbelow.log _).refused hrefuses (opCalloc_issues ops nmemb size).regions
    obtain ⟨hpos', hsize⟩ := shallocBuffAllocSize_bounds hpos hn
    have hlog := h.log hparent (.request r (Word.wrap 64 (nmemb * size))) (by simp [Event.touches])
    cases hrefuses with
    | empty => exact ChainKept.asserts hparent hP htop hinit hlog hpos' hsize hbelow'
    | refused hregion ht hask =>
      exact ChainKept.asserts hparent hP htop hinit
        (hlog.opCalloc hparent rule hpos hn hregion ht hask) hpos' hsize hbelow'

end Created

section Heap

/-- The region of a heap: it may not grow, it has no parent, and its one buffer is its own
`default_data`. -/
structure HeapKept (init r own : ℕ) (st : Store α) (region : Region) (data : Buff) : Prop where
  record : st.regions r = some region
  descr : st.buffs own = some data
  next : data.next = none
  head : region.dataHead = some own
  tail : region.dataTail = some own
  flags : region.flags = heapRegionFlags
  ancestors : region.ancestors = []
  size : region.defaultData.size = init

variable {own : ℕ} {data : Buff}

theorem HeapKept.linked (h : HeapKept init r own st region data) : Linked st region [own] :=
  ⟨⟨h.head, data, h.descr, h.next⟩, h.tail⟩

theorem HeapKept.congr (h : HeapKept init r own st region data)
    (hregions : st'.regions = st.regions) (hbuffs : st'.buffs = st.buffs) :
    HeapKept init r own st' region data where
  record := by rw [hregions]; exact h.record
  descr := by rw [hbuffs]; exact h.descr
  next := h.next
  head := h.head
  tail := h.tail
  flags := h.flags
  ancestors := h.ancestors
  size := h.size

theorem HeapKept.facts (h : HeapKept init r own st region data) (k : ℕ) :
    ChainFacts init k r st [own] region := by
  refine h.linked.facts h.record (List.nodup_singleton own) (fun _ => le_rfl) ?_
  rw [DefaultSizeAfter, h.flags, h.size]
  rfl

/-- A request leaves the records alone: `shalloc_region_grow` returns at once. -/
theorem HeapKept.serve {ask : ℕ → Store α → Option (Option ℕ × Store α)} {n : ℕ} {p : Option ℕ}
    {parentMalloc : ℕ → Store α → Option (Option ℕ × Store α)}
    (h : HeapKept init r own st region data)
    (hask : ∀ {st st' t p}, ask t st = some (p, st') →
      st'.regions = st.regions ∧ st'.buffs = st.buffs)
    (hserve : shallocServe ops parentMalloc ask r n st = some (p, st')) :
    serveGrowths ops parentMalloc ask r n st = 0 ∧ HeapKept init r own st' region data := by
  obtain ⟨_, t, q, -, -, -, hcall, hcount⟩ |
      ⟨st1, st2, ret, hrefuses, hgrow, hcount, hend⟩ := shallocServe_growths hserve
  · exact ⟨hcount, h.congr (hask hcall).1 (hask hcall).2⟩
  · have h1 : HeapKept init r own st1 region data := by
      cases hrefuses with
      | empty => exact h
      | refused _ _ hcall => exact h.congr (hask hcall).1 (hask hcall).2
    have hfixed : ∀ {region'}, st1.regions r = some region' →
        (region'.dataTail.isSome ∧ hasFlag region'.flags .nonResizable = true) := by
      intro region' hregion'
      obtain rfl := Option.some.inj (h1.record.symm.trans hregion')
      rw [h1.tail, h1.flags]
      exact ⟨rfl, rfl⟩
    cases hgrow with
    | fixed =>
      obtain ⟨-, -, rfl⟩ | ⟨hret, -⟩ := hend
      · exact ⟨hcount, h1⟩
      · exact absurd hret (by decide)
    | failed hregion' hfree => exact absurd (hfixed hregion') hfree
    | grown hregion' hfree => exact absurd (hfixed hregion') hfree

theorem HeapKept.malloc {n : ℕ} {p : Option ℕ} (h : HeapKept init r own st region data)
    (hcall : shallocMalloc ops [r] n st = some (p, st')) :
    mallocGrowths ops [r] n st = 0 ∧ HeapKept init r own st' region data := by
  have hlog : HeapKept init r own (st.log (.request r n)) region data := h.congr rfl rfl
  simp only [shallocMalloc, mallocGrowths] at hcall ⊢
  by_cases hzero : n = 0
  · rw [if_pos hzero] at hcall ⊢
    rw [← (Prod.mk.inj (Option.some.inj hcall)).2]
    exact ⟨rfl, hlog⟩
  · rw [if_neg hzero] at hcall ⊢
    exact hlog.serve Store.opMalloc_frame hcall

theorem HeapKept.calloc {nmemb size : ℕ} {p : Option ℕ} (h : HeapKept init r own st region data)
    (hcall : shallocCalloc ops [r] nmemb size st = some (p, st')) :
    callocGrowths ops [r] nmemb size st = 0 ∧ HeapKept init r own st' region data := by
  have hlog : HeapKept init r own (st.log (.request r (Word.wrap 64 (nmemb * size)))) region data :=
    h.congr rfl rfl
  simp only [shallocCalloc, callocGrowths] at hcall ⊢
  by_cases hzero : Word.wrap 64 (nmemb * size) = 0
  · rw [if_pos hzero] at hcall ⊢
    rw [← (Prod.mk.inj (Option.some.inj hcall)).2]
    exact ⟨rfl, hlog⟩
  · rw [if_neg hzero] at hcall ⊢
    exact hlog.serve Store.opCalloc_frame hcall

theorem HeapKept.free {p : ℕ} (h : HeapKept init r own st region data)
    (hcall : shallocFree ops r p st = some st') : HeapKept init r own st' region data :=
  h.congr (shallocFree_cases hcall).frame.1 (shallocFree_cases hcall).frame.2

theorem HeapKept.orealloc {ptr p : Option ℕ} {size oldSize : ℕ}
    (h : HeapKept init r own st region data)
    (hcall : shallocOrealloc ops [r] ptr size oldSize st = some (p, st')) :
    oreallocGrowths ops [r] ptr size oldSize st = 0 ∧ HeapKept init r own st' region data := by
  cases shallocOrealloc_cases hcall with
  | fresh hmalloc => exact h.malloc hmalloc
  | freed hzero hfree => exact ⟨by rw [oreallocGrowths, if_pos (by omega)], h.free hfree⟩
  | kept _ hle => exact ⟨by rw [oreallocGrowths, if_pos hle], h⟩
  | refused hlt hmalloc =>
    rw [oreallocGrowths, if_neg (Nat.not_le_of_lt hlt)]
    exact h.malloc hmalloc
  | @moved q q' st1 _ hlt hmalloc hfree =>
    rw [oreallocGrowths, if_neg (Nat.not_le_of_lt hlt)]
    obtain ⟨hcount, h1⟩ := h.malloc hmalloc
    have hlog : HeapKept init r own (st1.log (.copy q' q oldSize)) region data := h1.congr rfl rfl
    exact ⟨hcount, hlog.free hfree⟩

/-- A reset of a heap sets its buffer up anew. -/
theorem HeapKept.reset {fuel : ℕ} (h : HeapKept init r own st region data)
    (hcall : shallocRegionReset ops fuel r st = some st') :
    HeapKept init r own st' region data := by
  rw [shallocRegionReset_eq h.record h.linked (List.nodup_singleton own)] at hcall
  split at hcall
  · simp only [List.dropLast_nil, shallocRegionFreeBuffs, Option.bind_some] at hcall
    obtain ⟨st1, ret, st2, data', hdestroy, hcreate, -, hdata', rfl⟩ :=
      shallocRegionResetHead_made h.record h.head hcall
    obtain ⟨_, _, -, -, rfl⟩ := Store.opDestroy_eq_some.mp hdestroy
    obtain ⟨_, _, -, -, rfl⟩ := Store.opCreate_eq_some.mp hcreate
    obtain rfl := Option.some.inj (h.descr.symm.trans hdata')
    have hregion : ({ region with dataHead := some own, dataTail := some own } : Region) =
      region := by
      have htail : ({ region with dataTail := some own } : Region) = region := by rw [← h.tail]
      rw [← htail, ← h.head]
    have hlink : ({ data with next := Option.none } : Buff) = data := by rw [← h.next]
    exact
      { record := by rw [← hregion]; exact Function.update_self ..
        descr := by rw [← hlink]; exact Function.update_self ..
        next := h.next
        head := h.head
        tail := h.tail
        flags := h.flags
        ancestors := h.ancestors
        size := h.size }
  · exact absurd hcall (by simp)

/-- Every call on the region of a heap keeps the invariant, and is no growth. -/
theorem ChainCall.heapKept {growths : ℕ} {attached' : List ℕ}
    (hcall : ChainCall ops [] limit r st [own] growths st' attached')
    (h : HeapKept init r own st region data) :
    growths = 0 ∧ attached' = [own] ∧ HeapKept init r own st' region data := by
  cases hcall with
  | malloc _ _ hcall =>
    obtain ⟨hcount, h'⟩ := h.malloc hcall
    exact ⟨hcount, by simp [hcount, attachedBy], h'⟩
  | calloc _ _ hcall =>
    obtain ⟨hcount, h'⟩ := h.calloc hcall
    exact ⟨hcount, by simp [hcount, attachedBy], h'⟩
  | orealloc _ _ hcall =>
    obtain ⟨hcount, h'⟩ := h.orealloc hcall
    exact ⟨hcount, by simp [hcount, attachedBy], h'⟩
  | free hcall => exact ⟨rfl, rfl, h.free hcall⟩
  | reset hcall => exact ⟨rfl, rfl, h.reset hcall⟩

/-- On the way of a growth of a heap only the size is asserted. -/
theorem HeapKept.asserts {size : ℕ} (h : HeapKept init r own st region data) (hpos : 0 < size) :
    GrowAsserts ops [] r size st := by
  have hfixed : ∀ region', st.regions r = some region' →
      (region'.dataTail.isSome ∧ hasFlag region'.flags .nonResizable = true) := by
    intro region' hregion'
    obtain rfl := Option.some.inj (h.record.symm.trans hregion')
    rw [h.tail, h.flags]
    exact ⟨rfl, rfl⟩
  exact ⟨hpos, fun region' hregion' hfree => absurd (hfixed region' hregion') hfree,
    fun region' _ _ _ hregion' hfree => absurd (hfixed region' hregion') hfree⟩

theorem GrowCall.heapAsserts {size : ℕ} {st1 : Store α} (hcall : GrowCall ops limit r st size st1)
    (h : HeapKept init r own st region data) : GrowAsserts ops [] r size st1 := by
  cases hcall with
  | @malloc n _ hpos hn _ hrefuses =>
    have hpos' := (shallocBuffAllocSize_bounds hpos hn).1
    have hlog : HeapKept init r own (st.log (.request r n)) region data := h.congr rfl rfl
    cases hrefuses with
    | empty => exact hlog.asserts hpos'
    | refused _ _ hask =>
      obtain ⟨hregions, hbuffs⟩ := Store.opMalloc_frame hask
      exact (hlog.congr hregions hbuffs).asserts hpos'
  | @calloc nmemb size _ hpos hn _ hrefuses =>
    have hwrap : Word.wrap 64 (nmemb * size) = nmemb * size := Word.wrap_of_lt (by omega)
    rw [← hwrap] at hpos hn
    have hpos' := (shallocBuffAllocSize_bounds hpos hn).1
    have hlog : HeapKept init r own (st.log (.request r (Word.wrap 64 (nmemb * size)))) region
        data := h.congr rfl rfl
    cases hrefuses with
    | empty => exact hlog.asserts hpos'
    | refused _ _ hask =>
      obtain ⟨hregions, hbuffs⟩ := Store.opCalloc_frame hask
      exact (hlog.congr hregions hbuffs).asserts hpos'

end Heap

/-- The invariant of a run: that of a region below a parent, or that of a heap. -/
inductive ChainInv (path : List ℕ) (inv : List Extent → Store α → Prop) (init k r : ℕ)
    (st : Store α) (attached : List ℕ) : Prop
  | created {P : ℕ} : path.head? = some P → init < 2 ^ 48 →
      ChainKept path inv init k r st attached → ChainInv path inv init k r st attached
  | heap {own : ℕ} {region : Region} {data : Buff} : path = [] → attached = [own] →
      HeapKept init r own st region data → ChainInv path inv init k r st attached

theorem defaultSizeAfter_zero (hsize : region.defaultData.size < 2 ^ 48) :
    DefaultSizeAfter region.defaultData.size 0 region := by
  rw [DefaultSizeAfter, Nat.pow_zero, Nat.mul_one, Word.wrap_of_lt (by omega), ite_self]

section Run

variable (htop : top ≤ 2 ^ 64) (hparent : SoundParent ops path top limit inv)
include htop hparent

theorem RegionStart.chainInv (start : RegionStart ops path limit inv init k r st attached) :
    ChainInv path inv init k r st attached := by
  cases start with
  | @created initSize buffSize blockSize flags type _ st0 _ h hinit hbuff hbelow hcall =>
    have hsize : (shallocGetRegion path buffSize blockSize flags type).defaultData.size < 2 ^ 48 :=
      shallocGetRegion_size hbuff
    obtain ⟨P, hP⟩ := shallocRegionCreate_path hcall
    exact .created hP hsize
      (hparent.create h (defaultSizeAfter_zero hsize) (defaultSize_rule htop hsize) (by omega)
        hbelow hcall)
  | @heap guardPages self addr size mmapFlags type old heap _ hpath hheap hregion hbuff =>
    unfold shallocGetHeap at hheap
    split at hheap
    · exact absurd hheap (by simp)
    · obtain rfl := Option.some.inj hheap
      exact .heap hpath rfl ⟨hregion, hbuff, rfl, rfl, rfl, rfl, rfl, rfl⟩

theorem ChainCall.chainInv {growths : ℕ} {attached' : List ℕ}
    (hcall : ChainCall ops path limit r st attached growths st' attached')
    (h : ChainInv path inv init k r st attached) :
    ChainInv path inv init (k + growths) r st' attached' := by
  cases h with
  | created hP hinit h => exact .created hP hinit (hcall.kept hparent hP htop hinit h)
  | heap hpath hattached h =>
    subst hpath hattached
    obtain ⟨-, rfl, h'⟩ := hcall.heapKept h
    exact .heap rfl rfl h'

/-- The invariant holds in every run. -/
theorem ChainRun.chainInv (run : ChainRun ops path limit inv init r k st attached) :
    ChainInv path inv init k r st attached := by
  induction run with
  | start start => exact start.chainInv htop hparent
  | step _ hcall ih => exact hcall.chainInv htop hparent ih

end Run

theorem ChainInv.facts (h : ChainInv path inv init k r st attached) :
    ∃ region, ChainFacts init k r st attached region := by
  cases h with
  | created _ _ h =>
    obtain ⟨region, blocks, h⟩ := h
    exact ⟨region, h.linked.facts h.record (List.nodup_cons.mp h.nodup).2 h.fixed h.property⟩
  | heap _ hattached h =>
    subst hattached
    exact ⟨_, h.facts k⟩

end Shalloc
