import Shalloc.Runs.Free
import Shalloc.Runs.MpliteHeap
import Shalloc.Runs.SlabServe

/-!
# A reset is a restart

`shalloc_region_reset` closes the first buffer of a region and sets it up anew. The descriptor
fields that the allocator reads are as they were when the buffer was made, so that what the
allocator leaves answers every request in the same way as it did then, whatever has happened to
the region in between.

## Main definitions

- `Restartable` — allocators that can be closed and set up anew at any time
- `RestartRun` — the runs of a region, with what its first buffer was like when it was made

## Main results

- `OpsTable.nofree_restartable`, `OpsTable.slab_restartable` — the two allocators
- `shallocRegionReset_restarts` — a reset returns, and restarts the region
-/

namespace Shalloc

section Allocators

/-- An allocator that can be closed and set up anew at any time, in the buffers whose size and
block size are `accepted`: `ready data a` says that the buffer is in use, and `same` that two
states answer all requests in the same way. -/
structure Restartable {α : Type} (op : BuffOp α) (top : ℕ) (accepted : ℕ → ℕ → Prop)
    (ready : Buff → α → Prop) (same : α → α → Prop) : Prop where
  next : ∀ {data a} (link : Option ℕ), ready data a → ready { data with next := link } a
  create_next : ∀ {data a} (link : Option ℕ),
    op.create { data with next := link } a = op.create data a
  created : ∀ {data a ret a'}, shallocBuffMinSize ≤ data.size → data.start + data.size ≤ top →
    accepted data.size data.blockSize → op.create data a = some (ret, a') → 0 ≤ ret → ready data a'
  malloc : ∀ {data a n p a'}, ready data a → 0 < n → n < 2 ^ 48 →
    op.malloc data n a = some (p, a') → ready data a'
  free : ∀ {data a p a'}, ready data a → op.free data p a = some a' → ready data a'
  closed : ∀ {data a}, ready data a → ∃ a', op.destroy data a = some a'
  renewed : ∀ {data} a, shallocBuffMinSize ≤ data.size → accepted data.size data.blockSize →
    ∃ ret a', op.create data a = some (ret, a') ∧ 0 ≤ ret
  created_same : ∀ {data a b ret ret' a' b'}, accepted data.size data.blockSize →
    op.create data a = some (ret, a') → 0 ≤ ret → op.create data b = some (ret', b') → 0 ≤ ret' →
    same a' b'
  answers : ∀ {data n a b}, same a b →
    (op.malloc data n a = none ∧ op.malloc data n b = none) ∨
      ∃ p a' b', op.malloc data n a = some (p, a') ∧ op.malloc data n b = some (p, b') ∧ same a' b'
  zero : ∀ {data a b p b'}, same a b → op.malloc data 0 b ≠ some (some p, b')

variable {ρ : Type} {ops : BuffAllocType → BuffOp (AllocState ρ)} {top : ℕ}
  {header header' : SlabHeader}

/-- The no-free allocator. -/
theorem OpsTable.nofree_restartable (hops : OpsTable ops) (htop : top ≤ 2 ^ 63) :
    Restartable (ops .nofree) top (fun _ _ => True)
      (fun data a => ∃ live, NofreeInside data live a) Eq where
  next link := by
    rintro ⟨live, h⟩
    exact ⟨live, (hops.nofree_issuesInside htop).next link h⟩
  create_next _ := by
    rw [hops.nofree]
    rfl
  created hlower hfits _ hcreate hret :=
    ⟨[], (hops.nofree_issuesInside htop).created hlower hfits hcreate hret⟩
  malloc := by
    rintro data a n p a' ⟨live, h⟩ hpos hn hcall
    exact ⟨_, (hops.nofree_issuesInside htop).malloc h hpos hn hcall⟩
  free := by
    rintro data a p a' ⟨live, h⟩ hfree
    rw [hops.nofree] at hfree
    obtain rfl := Option.some.inj hfree
    exact ⟨live, h⟩
  closed := by
    rintro data a ⟨live, h⟩
    obtain ⟨header, rfl, hok, -⟩ := h.header
    rw [hops.nofree]
    exact ⟨_, congrArg (Option.map AllocState.nofree) (if_pos hok.check)⟩
  renewed := by
    intro data a hlower _
    have hsize : ¬ data.size ≤ sizeofNofreeHeader := by
      have hmin : sizeofNofreeHeader < shallocBuffMinSize := by decide
      omega
    have hinit : nofreeInit data.start data.size ⟨0, 0, 0⟩ = (0, _) := if_neg hsize
    exact ⟨0, _, by simp only [hops.nofree, nofreeCreate, hinit]; rfl, le_rfl⟩
  created_same := by
    intro data a b ret ret' a' b' _ hcreate hret hcreate' hret'
    rw [hops.nofree] at hcreate hcreate'
    obtain ⟨hinit, rfl⟩ := Prod.mk.inj (Option.some.inj hcreate)
    obtain ⟨hinit', rfl⟩ := Prod.mk.inj (Option.some.inj hcreate')
    rw [if_neg (by omega), if_neg (by omega)]
  answers := by
    rintro data n a _ rfl
    cases hcall : (ops .nofree).malloc data n a with
    | none => exact Or.inl ⟨rfl, rfl⟩
    | some answer => exact Or.inr ⟨_, _, _, rfl, rfl, rfl⟩
  zero := by
    rintro data a _ p b' rfl hcall
    cases a with
    | nofree header =>
      simp only [hops.nofree, nofreeOpMalloc, nofreeMalloc, nofreeAlloc, bind,
        Option.bind_eq_some_iff, Prod.exists, Option.some.injEq, Prod.mk.injEq] at hcall
      obtain ⟨q, header', halloc, rfl, -⟩ := hcall
      split at halloc
      · exact absurd halloc (by simp)
      · exact absurd (Prod.mk.inj (Option.some.inj halloc)).1 (by simp)
    | slab header => exact absurd hcall (by simp [hops.nofree, nofreeOpMalloc])
    | other a => exact absurd hcall (by simp [hops.nofree, nofreeOpMalloc])

/-- Two slabs in use that differ only past the bytes of the bitmap. -/
structure SameSlab (header header' : SlabHeader) : Prop where
  blockSize : header'.blockSize = header.blockSize
  numBlocks : header'.numBlocks = header.numBlocks
  blocks : header'.blocks = header.blocks
  nextBlock : header'.nextBlock = header.nextBlock
  bits : ∀ b < header.numBlocks, header'.bits b = header.bits b
  pos : 0 < header.blockSize
  cursor : header.nextBlock < header.numBlocks

/-- The search reads the bytes of the bitmap only. -/
theorem SameSlab.findLoop (h : SameSlab header header') (fuel : ℕ) : ∀ {i nextBlock},
    nextBlock < header.numBlocks → slabFindFreeBlockLoop header' fuel i nextBlock =
      slabFindFreeBlockLoop header fuel i nextBlock := by
  induction fuel with
  | zero => exact fun _ => rfl
  | succ fuel ih =>
    intro i nextBlock hnext
    have hmod : Word.wrap 32 (nextBlock + 1) % header.numBlocks < header.numBlocks :=
      Nat.mod_lt _ (Nat.lt_of_le_of_lt (Nat.zero_le _) hnext)
    simp only [slabFindFreeBlockLoop, h.numBlocks, h.bits _ hnext, ih hmod]

/-- Equal headers answer a request in the same way. -/
theorem SameSlab.alloc (h : SameSlab header header') (size : ℕ) :
    (slabAlloc size header = none ∧ slabAlloc size header' = none) ∨
      ∃ p next next', slabAlloc size header = some (p, next) ∧
        slabAlloc size header' = some (p, next') ∧ SameSlab next next' := by
  have hfind : slabFindFreeBlock header' = slabFindFreeBlock header := by
    rw [slabFindFreeBlock, h.numBlocks, h.nextBlock]
    exact h.findLoop _ h.cursor
  have hpos : 0 < header.numBlocks := Nat.lt_of_le_of_lt (Nat.zero_le _) h.cursor
  unfold slabAlloc
  rw [hfind, h.blockSize]
  by_cases hsize : size ≠ header.blockSize
  · exact Or.inl ⟨if_pos hsize, if_pos hsize⟩
  rw [if_neg hsize, if_neg hsize]
  cases slabFindFreeBlock header with
  | none => exact Or.inl ⟨rfl, rfl⟩
  | some b =>
    right
    simp only [bind, Option.bind_some]
    by_cases hfull : b = uintMax
    · rw [if_pos hfull, if_pos hfull]
      exact ⟨none, header, header', rfl, rfl, h⟩
    · have haddress : slabBlockToAddress header' b = slabBlockToAddress header b := by
        rw [slabBlockToAddress, slabBlockToAddress, h.blocks, h.blockSize]
      rw [if_neg hfull, if_neg hfull, haddress, h.numBlocks]
      refine ⟨_, _, _, rfl, rfl, rfl, rfl, h.blocks, rfl, fun c hc => ?_, h.pos,
        Nat.mod_lt _ hpos⟩
      by_cases heq : c = b
      · simp [heq]
      · simp [heq, h.bits c hc]

/-- Setting up a slab clears all bytes of the bitmap, so that nothing of what was in memory
before can be told. -/
theorem slabInit_same {buff buffSize blockSize : ℕ} {raw raw' : SlabHeader}
    (h : slabInit buff buffSize blockSize raw = some (0, header))
    (h' : slabInit buff buffSize blockSize raw' = some (0, header')) : SameSlab header header' := by
  obtain ⟨hok, hbits, hnext, -⟩ := slabInit_ok h
  obtain ⟨hok', hbits', hnext', -⟩ := slabInit_ok h'
  have hnum : header'.numBlocks = header.numBlocks := hok'.numBlocks_eq.trans hok.numBlocks_eq.symm
  exact
    { blockSize := hok'.blockSize_eq.trans hok.blockSize_eq.symm
      numBlocks := hnum
      blocks := hok'.blocks_eq.trans hok.blocks_eq.symm
      nextBlock := hnext'.trans hnext.symm
      bits := fun b hb => (hbits' b (hnum.symm ▸ hb)).trans (hbits b hb).symm
      pos := hok.blockSize_pos
      cursor := hok.cursor }

/-- No call changes the magic values of a slab. -/
theorem slabAlloc_check {size : ℕ} {p : Option ℕ} (h : slabAlloc size header = some (p, header'))
    (hcheck : slabCheck header) : slabCheck header' := by
  unfold slabAlloc at h
  split at h
  · exact absurd h (by simp)
  simp only [bind, Option.bind_eq_some_iff] at h
  obtain ⟨b, -, h⟩ := h
  split at h
  · exact (Prod.mk.inj (Option.some.inj h)).2 ▸ hcheck
  · exact (Prod.mk.inj (Option.some.inj h)).2 ▸ hcheck

theorem slabFree_check {p : ℕ} (h : slabFree p header = some header') (hcheck : slabCheck header) :
    slabCheck header' := by
  simp only [slabFree] at h
  split at h
  · exact Option.some.inj h ▸ hcheck
  · exact absurd h (by simp)

/-- The slab allocator, in the buffers that `slab_init` accepts. -/
theorem OpsTable.slab_restartable (hops : OpsTable ops) (top : ℕ) :
    Restartable (ops .slab) top SlabFits
      (fun data a => ∃ header, a = .slab header ∧
        SlabOk data.start data.size data.blockSize header ∧ slabCheck header)
      (fun a b => ∃ header header', a = .slab header ∧ b = .slab header' ∧
        SameSlab header header') where
  next _ h := h
  create_next _ := by
    rw [hops.slab]
    rfl
  created := by
    intro data a ret a' _ _ hfits hcreate _
    rw [hops.slab] at hcreate
    obtain ⟨raw, header, hinit, hcreate'⟩ := slabCreate_fits a hfits
    obtain ⟨-, rfl⟩ := Prod.mk.inj (Option.some.inj (hcreate.symm.trans hcreate'))
    exact ⟨header, rfl, (slabInit_ok hinit).1, slabInit_check hinit⟩
  malloc := by
    rintro data a n p a' ⟨header, rfl, hok, hcheck⟩ _ _ hcall
    rw [hops.slab] at hcall
    obtain ⟨⟨q, header'⟩, halloc, hres⟩ := Option.bind_eq_some_iff.mp hcall
    obtain ⟨-, rfl⟩ := Prod.mk.inj (Option.some.inj hres)
    exact ⟨header', rfl, slabAlloc_ok hok halloc, slabAlloc_check halloc hcheck⟩
  free := by
    rintro data a p a' ⟨header, rfl, hok, hcheck⟩ hcall
    rw [hops.slab] at hcall
    obtain ⟨header', hfree, rfl⟩ := Option.map_eq_some_iff.mp hcall
    exact ⟨header', rfl, slabFree_ok hok hfree, slabFree_check hfree hcheck⟩
  closed := by
    rintro data a ⟨header, rfl, -, hcheck⟩
    rw [hops.slab]
    exact ⟨_, congrArg (Option.map AllocState.slab) (if_pos hcheck)⟩
  renewed := by
    intro data a _ hfits
    obtain ⟨raw, header, -, hcreate⟩ := slabCreate_fits a hfits
    rw [hops.slab]
    exact ⟨0, _, hcreate, le_rfl⟩
  created_same := by
    intro data a b ret ret' a' b' hfits hcreate _ hcreate' _
    rw [hops.slab] at hcreate hcreate'
    obtain ⟨raw, header, hinit, hsome⟩ := slabCreate_fits a hfits
    obtain ⟨raw', header', hinit', hsome'⟩ := slabCreate_fits b hfits
    obtain ⟨-, rfl⟩ := Prod.mk.inj (Option.some.inj (hcreate.symm.trans hsome))
    obtain ⟨-, rfl⟩ := Prod.mk.inj (Option.some.inj (hcreate'.symm.trans hsome'))
    exact ⟨header, header', rfl, rfl, slabInit_same hinit hinit'⟩
  answers := by
    rintro data n a b ⟨header, header', rfl, rfl, hsame⟩
    rcases hsame.alloc n with ⟨hnone, hnone'⟩ | ⟨p, next, next', hsome, hsome', hsame'⟩
    · left
      simp only [hops.slab, slabOpMalloc, hnone, hnone', bind, Option.bind_none, and_self]
    · refine Or.inr ⟨p, .slab next, .slab next', ?_, ?_, next, next', rfl, rfl, hsame'⟩
      · simp only [hops.slab, slabOpMalloc, hsome, bind, Option.bind_some]
      · simp only [hops.slab, slabOpMalloc, hsome', bind, Option.bind_some]
  zero := by
    rintro data a b p b' ⟨header, header', rfl, rfl, hsame⟩ hcall
    rw [hops.slab] at hcall
    obtain ⟨⟨q, next⟩, halloc, -⟩ := Option.bind_eq_some_iff.mp hcall
    have hne : 0 ≠ header'.blockSize := by
      rw [hsame.blockSize]
      exact Nat.ne_of_lt hsame.pos
    rw [slabAlloc, if_pos hne] at halloc
    exact absurd halloc (by simp)

end Allocators

section Runs

variable {α : Type} {ops : BuffAllocType → BuffOp α} {st st' : Store α} {path : List ℕ}
  {top limit k r n : ℕ} {inv : List Extent → Store α → Prop} {type : BuffAllocType}
  {rep : Buff → List Extent → α → Prop} {legit : List Extent → ℕ → Prop}
  {J : ℕ → Region → Prop} {Q : Extent → Buff → List Extent → α → Prop}
  {region : Region} {chain : List ℕ} {blocks : List Extent} {made : Option (Buff × α)}

/-- The first buffer of a region, and what its allocator keeps. -/
def headBuff (r : ℕ) (st : Store α) : Option (Buff × α) := do
  let region ← st.regions r
  let head ← region.dataHead
  let buff ← st.buffs head
  some (buff, st.cells buff.start)

/-- The first buffer of a region after the growth that a request for `n` bytes begins with if
there is no buffer. -/
def headGrown (ops : BuffAllocType → BuffOp α) (path : List ℕ) (r n : ℕ) (st : Store α) :
    Option (Buff × α) := do
  let (_, st) ← shallocRegionGrow ops (shallocMalloc ops path) r (shallocBuffAllocSize n)
    (st.log (.request r n))
  headBuff r st

/-- A region of the given type as it begins: `shalloc_region_create` has returned it, or it is
the region of a heap, whose one buffer has been set up. -/
inductive RegionBegins (ops : BuffAllocType → BuffOp α) (path : List ℕ) (limit : ℕ)
    (inv : List Extent → Store α → Prop) (top : ℕ) (type : BuffAllocType) (r : ℕ) :
    Store α → Prop
  | created {initSize buffSize blockSize flags : ℕ} {given : BuffAllocType} {blocks : List Extent}
      {st st' : Store α} : inv blocks st → initSize < 2 ^ 48 → buffSize < 2 ^ 48 →
      (shallocGetRegion path buffSize blockSize flags given).defaultData.allocType = type →
      (shallocGetRegion path buffSize blockSize flags given).request initSize < limit →
      shallocRegionCreate ops path initSize buffSize blockSize flags given st =
        some (some r, st') →
      RegionBegins ops path limit inv top type r st'
  | heap {region : Region} {b : ℕ} {data : Buff} {ret : ℤ} {st st' : Store α} : path = [] →
      st.regions r = some region → hasFlag region.flags .nonResizable = true →
      region.dataHead = some b → region.dataTail = some b → st.buffs b = some data →
      data.next = none → data.allocType = type → shallocBuffMinSize ≤ data.size →
      data.start + data.size ≤ top → Extent.Disjoint ⟨r, sizeofRegion⟩ ⟨data.start, data.size⟩ →
      Extent.Disjoint ⟨b, sizeofBuff⟩ ⟨data.start, data.size⟩ →
        st.opCreate ops b = some (ret, st') →
      0 ≤ ret → RegionBegins ops path limit inv top type r st'

/-- Requests, frees and growths of a region since it began, with its first buffer as it was just
after it was made. -/
inductive RestartRun (ops : BuffAllocType → BuffOp α) (path : List ℕ) (limit : ℕ)
    (inv : List Extent → Store α → Prop) (top : ℕ) (type : BuffAllocType) (r : ℕ) :
    Store α → Option (Buff × α) → Prop
  | begins {st : Store α} : RegionBegins ops path limit inv top type r st →
      RestartRun ops path limit inv top type r st (headBuff r st)
  | malloc {n : ℕ} {p : Option ℕ} {st st' : Store α} {made : Option (Buff × α)} :
      RestartRun ops path limit inv top type r st made → n < 2 ^ 48 →
      AsksBelow limit r (shallocBuffAllocSize n) st →
      shallocMalloc ops (r :: path) n st = some (p, st') →
      RestartRun ops path limit inv top type r st' (made.or (headGrown ops path r n st))
  | free {p : ℕ} {st st' : Store α} {made : Option (Buff × α)} :
      RestartRun ops path limit inv top type r st made → shallocFree ops r p st = some st' →
      RestartRun ops path limit inv top type r st' made
  | grow {size : ℕ} {ret : ℤ} {st st' : Store α} {made : Option (Buff × α)} :
      RestartRun ops path limit inv top type r st made → size < 2 ^ 48 →
      AsksBelow limit r size st →
      shallocRegionGrow ops (shallocMalloc ops path) r size st = some (ret, st') →
      RestartRun ops path limit inv top type r st' (made.or (headBuff r st'))

/-- The pointers that a buffer returns for a sequence of requests, if it serves them all. -/
def buffServes (op : BuffOp α) (buff : Buff) : List ℕ → α → Option (List ℕ)
  | [], _ => some []
  | n :: ns, a => do
    let (p, a) ← op.malloc buff n a
    let p ← p
    let ps ← buffServes op buff ns a
    some (p :: ps)

/-- The pointers that `shalloc_malloc` returns for a sequence of requests, if none is NULL. -/
def regionServes (ops : BuffAllocType → BuffOp α) (path : List ℕ) :
    List ℕ → Store α → Option (List ℕ)
  | [], _ => some []
  | n :: ns, st => do
    let (p, st) ← shallocMalloc ops path n st
    let p ← p
    let ps ← regionServes ops path ns st
    some (p :: ps)

/-- The length of the header that the allocator checks before it is closed. -/
def BuffAllocType.headerSize : BuffAllocType → ℕ
  | .nofree => sizeofNofreeHeader
  | .slab => sizeofSlabHeader
  | _ => 0

theorem BuffAllocType.headerSize_le (type : BuffAllocType) :
    type.headerSize ≤ shallocBuffMinSize := by
  cases type <;> decide

/-- The header of a buffer. -/
def Buff.header (data : Buff) : Extent := ⟨data.start, data.allocType.headerSize⟩

/-- Memory can hold the record of the region, the descriptors of its buffers and the headers in
them: a header shares no byte with any of the others. -/
structure HeadersApart (r : ℕ) (st : Store α) (chain : List ℕ) : Prop where
  record : ∀ d ∈ chain, ∀ data, st.buffs d = some data →
    Extent.Disjoint ⟨r, sizeofRegion⟩ data.header
  descr : ∀ c ∈ chain, ∀ d ∈ chain, ∀ data, st.buffs d = some data →
    Extent.Disjoint ⟨c, sizeofBuff⟩ data.header
  header : ∀ c ∈ chain, ∀ d ∈ chain, c ≠ d → ∀ data data', st.buffs c = some data →
    st.buffs d = some data' → Extent.Disjoint data.header data'.header

theorem HeadersApart.of_buffs (h : HeadersApart r st chain) (hbuffs : st'.buffs = st.buffs) :
    HeadersApart r st' chain := by
  refine ⟨?_, ?_, ?_⟩ <;> rw [hbuffs]
  · exact h.record
  · exact h.descr
  · exact h.header

/-- The buffers are in blocks of a sound parent, each past its descriptor. -/
theorem RegionInv.headersApart (hparent : SoundParent ops path top limit inv)
    (h : RegionInv path inv (DefaultFits type) (BuffInside type top rep) k r st region chain
      blocks) :
    HeadersApart r st chain := by
  have hin : ∀ d ∈ chain, ∀ data, st.buffs d = some data → ∃ e ∈ blocks, e.ptr = d ∧
      sizeofBuff < e.len ∧ d + sizeofBuff = data.header.ptr ∧ Extent.Within data.header e := by
    intro d hd data hdata
    obtain ⟨e, data', he, rfl, hlen, hdata', hstart, hQ⟩ := h.buffs d hd
    obtain rfl := Option.some.inj (hdata.symm.trans hdata')
    have hle : data.header.len ≤ shallocBuffMinSize := data.allocType.headerSize_le
    have hptr : data.header.ptr = e.ptr + sizeofBuff := hstart
    have hlower := hQ.lower
    have hblock := hQ.block
    exact ⟨e, he, rfl, hlen, hptr.symm, by omega, by omega⟩
  have hapart : ∀ e ∈ blocks, ∀ e' ∈ blocks, e.ptr ≠ e'.ptr → Extent.Disjoint e e' :=
    fun e he e' he' hne => (hparent.apart h.parent).forall he he' fun heq => hne (heq ▸ rfl)
  refine ⟨fun d hd data hdata => ?_, fun c hc d hd data hdata => ?_,
    fun c hc d hd hne data data' hdata hdata' => ?_⟩
  · obtain ⟨e, he, rfl, -, -, hheader⟩ := hin d hd data hdata
    obtain ⟨home, hhome, rfl, hrlen⟩ := h.home
    have hne : home.ptr ≠ e.ptr := fun heq => (List.nodup_cons.mp h.nodup).1 (by rwa [heq])
    exact (hapart home hhome e he hne).mono ⟨le_rfl, Nat.add_le_add_left hrlen _⟩ hheader
  · obtain ⟨e, he, rfl, -, hptr, hheader⟩ := hin d hd data hdata
    by_cases hsame : c = e.ptr
    · -- the header follows the descriptor
      exact Or.inl (by simp only; omega)
    · obtain ⟨e', _, he', rfl, hlen', -⟩ := h.buffs c hc
      exact (hapart e' he' e he hsame).mono ⟨le_rfl, Nat.add_le_add_left hlen'.le _⟩ hheader
  · obtain ⟨e, he, rfl, -, -, hheader⟩ := hin c hc data hdata
    obtain ⟨e', he', rfl, -, -, hheader'⟩ := hin d hd data' hdata'
    exact (hapart e he e' he' hne).mono hheader hheader'

/-- The first buffer of the chain has the descriptor that it was made with, but for the link. -/
inductive HeadMade (ops : BuffAllocType → BuffOp α) (st : Store α) :
    List ℕ → Option (Buff × α) → Prop
  | empty : HeadMade ops st [] none
  | made {head : ℕ} {rest : List ℕ} {data : Buff} {link : Option ℕ} {a b : α} {ret : ℤ} :
      st.buffs head = some { data with next := link } → data.next = none →
      (ops data.allocType).create data b = some (ret, a) → 0 ≤ ret →
      HeadMade ops st (head :: rest) (some (data, a))

/-- Writes to the links change nothing else. -/
theorem HeadMade.relinked (h : HeadMade ops st chain made) (hne : chain ≠ []) {new : List ℕ}
    (hbuffs : ∀ d ∈ chain, ∀ data, st.buffs d = some data →
      ∃ link, st'.buffs d = some { data with next := link }) :
    HeadMade ops st' (chain ++ new) made := by
  cases h with
  | empty => exact absurd rfl hne
  | made hbuff hnext hcreate hret =>
    obtain ⟨link, hlink⟩ := hbuffs _ List.mem_cons_self _ hbuff
    exact .made hlink hnext hcreate hret

theorem HeadMade.of_buffs (h : HeadMade ops st chain made) (hbuffs : st'.buffs = st.buffs) :
    HeadMade ops st' chain made := by
  cases h with
  | empty => exact .empty
  | made hbuff hnext hcreate hret => exact .made (by rw [hbuffs]; exact hbuff) hnext hcreate hret

theorem HeadMade.eq_none (h : HeadMade ops st chain made) : made = none ↔ chain = [] := by
  cases h <;> simp

/-- The invariant of a run. -/
structure RestartKept (ops : BuffAllocType → BuffOp α) (path : List ℕ)
    (inv : List Extent → Store α → Prop) (J : ℕ → Region → Prop)
    (Q : Extent → Buff → List Extent → α → Prop) (k r : ℕ) (st : Store α) (chain : List ℕ)
    (made : Option (Buff × α)) : Prop where
  kept : RegionKept path inv J Q k r st chain
  head : HeadMade ops st chain made

section Keep

variable (hparent : SoundParent ops path top limit inv) (rule : RegionRule ops top J Q legit)
include hparent rule

/-- A growth keeps the first buffer, or makes it. -/
theorem RestartKept.grow {size : ℕ} {ret : ℤ} (h : RestartKept ops path inv J Q k r st chain made)
    (hpos : 0 < size) (hsize : size < 2 ^ 52) (hbelow : AsksBelow limit r size st)
    (hgrow : GrowCases ops (shallocMalloc ops path) r size st ret st') :
    ∃ k' chain', RestartKept ops path inv J Q k' r st' chain' (made.or (headBuff r st')) := by
  have hkept := h.kept.grow hparent rule hpos hsize hbelow hgrow
  refine ⟨_, _, hkept, ?_⟩
  cases chain with
  | cons head rest =>
    obtain ⟨region, blocks, hinv⟩ := h.kept
    obtain ⟨x, rfl⟩ : ∃ x, made = some x :=
      Option.ne_none_iff_exists'.mp fun hno => absurd (h.head.eq_none.mp hno) (by simp)
    exact h.head.relinked (by simp) (hinv.grow_buffs hparent rule hpos hsize
      (hbelow _ hinv.record) hgrow)
  | nil =>
    obtain rfl := h.head.eq_none.mpr rfl
    obtain ⟨region, blocks, hinv⟩ := h.kept
    obtain ⟨region', blocks', hinv'⟩ := hkept
    rw [List.nil_append] at hinv' ⊢
    by_cases hret : ret = 0
    · obtain ⟨d, st1, region1, ret', a, -, -, hmade, hcreate, ⟨region2, hregion2, htail⟩, hbuff,
        hcell⟩ := hgrow.attached hret hinv.record
      have hchain : attachedBy r (if ret = 0 then 1 else 0) st' = [d] := by
        simp [attachedBy, hret, hregion2, htail]
      rw [hchain] at hinv' ⊢
      have hhead : headBuff r st' = some (region1.cloneBuff d (region.buffSize size), a) := by
        have hfirst : region'.dataHead = some d := hinv'.linked.head.1
        simp only [headBuff, hinv'.record, hfirst, hbuff, bind, Option.bind_some]
        exact congrArg some (Prod.ext rfl hcell)
      rw [hhead]
      exact .made hbuff rfl hcreate hmade
    · have hchain : attachedBy r (if ret = 0 then 1 else 0) st' = [] := by simp [attachedBy, hret]
      rw [hchain] at hinv' ⊢
      have hhead : headBuff r st' = none := by
        have hfirst : region'.dataHead = none := hinv'.linked.head
        simp only [headBuff, hinv'.record, hfirst, bind, Option.bind_some, Option.bind_none]
      rw [hhead]
      exact .empty

omit rule in
theorem RestartKept.log (h : RestartKept ops path inv J Q k r st chain made) (event : Event)
    (hevent : ∀ a, ¬ event.touches a) :
    RestartKept ops path inv J Q k r (st.log event) chain made :=
  ⟨h.kept.log hparent event hevent, h.head.of_buffs rfl⟩

/-- An answer of the tail keeps the descriptors. -/
theorem RestartKept.opMalloc {t : ℕ} {p : Option ℕ}
    (h : RestartKept ops path inv J Q k r st chain made) (hpos : 0 < n) (hn : n < 2 ^ 48)
    (hregion : st.regions r = some region) (ht : region.dataTail = some t)
    (hcall : st.opMalloc ops t n = some (p, st')) :
    RestartKept ops path inv J Q k r st' chain made :=
  ⟨h.kept.opMalloc hparent rule hpos hn hregion ht hcall,
    h.head.of_buffs (Store.opMalloc_frame hcall).2⟩

/-- The first request makes the first buffer. -/
theorem RestartKept.malloc_first {p : Option ℕ} (h : RestartKept ops path inv J Q k r st [] made)
    (hpos : 0 < n) (hn : n < 2 ^ 48) (hbelow : AsksBelow limit r (shallocBuffAllocSize n) st)
    (hcall : shallocMalloc ops (r :: path) n st = some (p, st')) :
    ∃ k' chain', RestartKept ops path inv J Q k' r st' chain'
      (made.or (headGrown ops path r n st)) := by
  obtain ⟨hpos', hsize⟩ := shallocBuffAllocSize_bounds hpos hn
  have hlog := h.log hparent (.request r n) (by simp [Event.touches])
  obtain ⟨region, blocks, hinv⟩ := h.kept
  have hrefuses : TailRefuses (fun t st => st.opMalloc ops t n) r (st.log (.request r n))
      (st.log (.request r n)) := .empty hinv.record hinv.linked.tail
  rw [shallocMalloc, if_neg (Nat.pos_iff_ne_zero.mp hpos), hrefuses.serve] at hcall
  obtain ⟨⟨ret, st2⟩, hgrow, hrest⟩ := Option.bind_eq_some_iff.mp hcall
  have hmade : headGrown ops path r n st = headBuff r st2 := by
    simp only [headGrown, hgrow, bind, Option.bind_some]
  rw [hmade]
  obtain ⟨k2, chain2, h2⟩ := hlog.grow hparent rule hpos' hsize (hbelow.log _)
    (shallocRegionGrow_cases hgrow)
  by_cases hret : ret = 0
  · simp only [if_pos hret, Option.bind_eq_some_iff] at hrest
    obtain ⟨region2, hregion2, t, ht, hask⟩ := hrest
    exact ⟨k2, chain2, h2.opMalloc hparent rule hpos hn hregion2 ht hask⟩
  · simp only [if_neg hret, Option.some.injEq, Prod.mk.injEq] at hrest
    exact ⟨k2, chain2, hrest.2 ▸ h2⟩

/-- A later request keeps it. -/
theorem RestartKept.malloc_later {p : Option ℕ} {x : Buff × α}
    (h : RestartKept ops path inv J Q k r st chain (some x)) (hpos : 0 < n) (hn : n < 2 ^ 48)
    (hbelow : AsksBelow limit r (shallocBuffAllocSize n) st)
    (hcall : shallocMalloc ops (r :: path) n st = some (p, st')) :
    ∃ k' chain', RestartKept ops path inv J Q k' r st' chain' (some x) := by
  obtain ⟨hpos', hsize⟩ := shallocBuffAllocSize_bounds hpos hn
  have hlog := h.log hparent (.request r n) (by simp [Event.touches])
  rw [shallocMalloc, if_neg (Nat.pos_iff_ne_zero.mp hpos)] at hcall
  obtain ⟨region, t, q, hregion, ht, -, hask, -⟩ | ⟨st1, st2, ret, hrefuses, hgrow, -, hend⟩ :=
    shallocServe_growths hcall
  · exact ⟨k, chain, hlog.opMalloc hparent rule hpos hn hregion ht hask⟩
  have h1 : RestartKept ops path inv J Q k r st1 chain (some x) := by
    cases hrefuses with
    | empty => exact hlog
    | refused hregion ht hask => exact hlog.opMalloc hparent rule hpos hn hregion ht hask
  obtain ⟨k2, chain2, h2⟩ := h1.grow hparent rule hpos' hsize
    ((hbelow.log _).refused hrefuses (opMalloc_issues ops n).regions) hgrow
  obtain ⟨-, -, rfl⟩ | ⟨-, region2, t, hregion2, ht, hask⟩ := hend
  · exact ⟨k2, chain2, h2⟩
  · exact ⟨k2, chain2, h2.opMalloc hparent rule hpos hn hregion2 ht hask⟩

theorem RestartKept.malloc {p : Option ℕ} (h : RestartKept ops path inv J Q k r st chain made)
    (hn : n < 2 ^ 48) (hbelow : AsksBelow limit r (shallocBuffAllocSize n) st)
    (hcall : shallocMalloc ops (r :: path) n st = some (p, st')) :
    ∃ k' chain', RestartKept ops path inv J Q k' r st' chain'
      (made.or (headGrown ops path r n st)) := by
  rcases Nat.eq_zero_or_pos n with rfl | hpos
  · -- nothing is asked for
    have hmade : headGrown ops path r 0 st = none := rfl
    rw [shallocMalloc, if_pos rfl] at hcall
    obtain ⟨-, rfl⟩ := Prod.mk.inj (Option.some.inj hcall)
    rw [hmade, Option.or_none]
    exact ⟨k, chain, h.log hparent _ (by simp [Event.touches])⟩
  · cases chain with
    | nil => exact h.malloc_first hparent rule hpos hn hbelow hcall
    | cons head rest =>
      obtain ⟨x, rfl⟩ : ∃ x, made = some x :=
        Option.ne_none_iff_exists'.mp fun hno => absurd (h.head.eq_none.mp hno) (by simp)
      exact h.malloc_later hparent rule hpos hn hbelow hcall

end Keep

section Heap

variable {b : ℕ} {data : Buff} {ready : Buff → α → Prop}

/-- The region of a heap in a run. -/
structure RestartHeap (ops : BuffAllocType → BuffOp α) (type : BuffAllocType)
    (ready : Buff → α → Prop) (r b : ℕ) (st : Store α) (made : Option (Buff × α)) : Prop where
  region : ∃ region, st.regions r = some region ∧ hasFlag region.flags .nonResizable = true ∧
    region.dataHead = some b ∧ region.dataTail = some b
  buff : ∃ data, st.buffs b = some data ∧ data.next = none ∧ data.allocType = type ∧
    shallocBuffMinSize ≤ data.size ∧ ready data (st.cells data.start)
  head : HeadMade ops st [b] made
  apart : HeadersApart r st [b]

/-- An operation on the buffer. -/
theorem RestartHeap.setCell {a : α} (h : RestartHeap ops type ready r b st made) (event : Event)
    (hdata : st.buffs b = some data) (hready : ready data a) :
    RestartHeap ops type ready r b ((st.setCell data.start a).log event) made where
  region := h.region
  buff := by
    obtain ⟨data', hdata', hnext, htype, hlower, -⟩ := h.buff
    obtain rfl := Option.some.inj (hdata.symm.trans hdata')
    refine ⟨data, hdata, hnext, htype, hlower, ?_⟩
    rw [Store.log_cells, Store.setCell_cells, Function.update_self]
    exact hready
  head := h.head.of_buffs rfl
  apart := h.apart.of_buffs rfl

theorem RestartHeap.exists_made (h : RestartHeap ops type ready r b st made) : ∃ x, made = some x :=
  Option.ne_none_iff_exists'.mp fun hno => absurd (h.head.eq_none.mp hno) (by simp)

theorem RestartHeap.log (h : RestartHeap ops type ready r b st made) (event : Event) :
    RestartHeap ops type ready r b (st.log event) made :=
  ⟨h.region, h.buff, h.head.of_buffs rfl, h.apart.of_buffs rfl⟩

theorem RestartHeap.malloc {p : Option ℕ} (h : RestartHeap ops type ready r b st made)
    (hready : ∀ {data a n p a'}, ready data a → 0 < n → n < 2 ^ 48 →
      (ops type).malloc data n a = some (p, a') → ready data a')
    (hn : n < 2 ^ 48) (hcall : shallocMalloc ops [r] n st = some (p, st')) :
    RestartHeap ops type ready r b st' made := by
  obtain ⟨region, hregion, hfixed, -, htail⟩ := h.region
  obtain ⟨data, hdata, -, rfl, -, hin⟩ := h.buff
  obtain ⟨-, rfl⟩ | ⟨hpos, a, hop, rfl⟩ := shallocMalloc_fixed hregion htail hdata hfixed hcall
  · exact h.log _
  · exact (h.log _).setCell _ hdata (hready hin hpos hn hop)

theorem RestartHeap.free {p : ℕ} (h : RestartHeap ops type ready r b st made)
    (hready : ∀ {data a p a'}, ready data a → (ops type).free data p a = some a' → ready data a')
    (hcall : shallocFree ops r p st = some st') : RestartHeap ops type ready r b st' made := by
  cases shallocFree_cases hcall with
  | ignored => exact h.log _
  | asked hregion ht _ _ hfree =>
    obtain ⟨region, hregion', -, -, htail⟩ := h.region
    obtain rfl := Option.some.inj (hregion'.symm.trans hregion)
    obtain rfl := Option.some.inj (htail.symm.trans ht)
    obtain ⟨data, hdata, -, rfl, -, hin⟩ := h.buff
    obtain ⟨data', a, hdata', hop, rfl⟩ := Store.opFree_eq_some.mp hfree
    obtain rfl := Option.some.inj (hdata.symm.trans hdata')
    exact (h.log _).setCell _ hdata (hready hin hop)

theorem RestartHeap.grow {size : ℕ} {ret : ℤ} (h : RestartHeap ops type ready r b st made)
    {parentMalloc : ℕ → Store α → Option (Option ℕ × Store α)}
    (hgrow : GrowCases ops parentMalloc r size st ret st') :
    RestartHeap ops type ready r b st' made := by
  obtain ⟨region, hregion, hfixed, -, htail⟩ := h.region
  have hnot : ∀ {region'}, st.regions r = some region' →
      (region'.dataTail.isSome ∧ hasFlag region'.flags .nonResizable = true) := by
    intro region' hregion'
    obtain rfl := Option.some.inj (hregion.symm.trans hregion')
    exact ⟨by rw [htail]; rfl, hfixed⟩
  cases hgrow with
  | fixed => exact h
  | failed hregion' hfree => exact absurd (hnot hregion') hfree
  | grown hregion' hfree => exact absurd (hnot hregion') hfree

end Heap

section Reset

/-- After a reset the first buffer `d` is all of the chain, and has been set up anew. -/
structure ResetTo (ops : BuffAllocType → BuffOp α) (r d : ℕ) (region : Region) (data : Buff)
    (st : Store α) : Prop where
  region : st.regions r = some { region with dataTail := some d }
  buff : st.buffs d = some { data with next := none }
  made : ∃ b ret, (ops data.allocType).create data b = some (ret, st.cells data.start) ∧ 0 ≤ ret

/-- The end of a reset returns if the first buffer can be closed and set up anew. -/
theorem shallocRegionResetHead_returns {d : ℕ} {data : Buff} {b : α}
    (hregion : st.regions r = some region) (hhead : region.dataHead = some d)
    (hdata : st.buffs d = some data)
    (hclosed : (ops data.allocType).destroy data (st.cells data.start) = some b)
    (hrenewed : ∃ ret a, (ops data.allocType).create data b = some (ret, a) ∧ 0 ≤ ret) :
    ∃ st', shallocRegionResetHead ops r st = some st' ∧ ResetTo ops r d region data st' := by
  obtain ⟨ret, a, hcreate, hret⟩ := hrenewed
  have hop1 : st.opDestroy ops d = some ((st.setCell data.start b).log (.destroy d)) :=
    Store.opDestroy_eq_some.mpr ⟨data, b, hdata, hclosed, rfl⟩
  have hop2 : ((st.setCell data.start b).log (.destroy d)).opCreate ops d = some (ret,
      (((st.setCell data.start b).log (.destroy d)).setCell data.start a).log (.create d ret)) := by
    refine Store.opCreate_eq_some.mpr ⟨data, a, hdata, ?_, rfl⟩
    rw [Store.log_cells, Store.setCell_cells, Function.update_self]
    exact hcreate
  have hreset : shallocRegionResetHead ops r st = some
      ((((((st.setCell data.start b).log (.destroy d)).setCell data.start a).log
        (.create d ret)).setBuff d { data with next := none }).setRegion r
          { region with dataTail := some d }) := by
    simp only [shallocRegionResetHead, hregion, hhead, shallocBuffReset, hop1, hop2, bind,
      Option.bind_some, ge_iff_le, hret, if_true, Store.log_buffs, Store.setCell_buffs, hdata]
  refine ⟨_, hreset, Function.update_self .., Function.update_self .., b, ret, ?_, hret⟩
  have hcell : (((st.setCell data.start b).log (.destroy d)).setCell data.start a).cells
      data.start = a := Function.update_self ..
  exact hcreate.trans (congrArg some (Prod.ext rfl hcell.symm))

/-- The reset of the region of a heap. -/
theorem RestartHeap.reset_returns {b fuel : ℕ} {data : Buff} {ready : Buff → α → Prop}
    (h : RestartHeap ops type ready r b st made) (hdata : st.buffs b = some data)
    (hclosed : ready data (st.cells data.start) →
      ∃ a, (ops data.allocType).destroy data (st.cells data.start) = some a)
    (hrenewed : ∀ a, ∃ ret a', (ops data.allocType).create data a = some (ret, a') ∧ 0 ≤ ret)
    (hfuel : 1 < fuel) :
    ∃ region st', Linked st region [b] ∧ st.regions r = some region ∧
      shallocRegionReset ops fuel r st = some st' ∧ ResetTo ops r b region data st' := by
  obtain ⟨region, hregion, -, hhead, htail⟩ := h.region
  obtain ⟨data', hdata', hnext, -, -, hready⟩ := h.buff
  obtain rfl := Option.some.inj (hdata.symm.trans hdata')
  have hlinked : Linked st region [b] := ⟨⟨hhead, data, hdata, hnext⟩, htail⟩
  obtain ⟨a, hclose⟩ := hclosed hready
  obtain ⟨st', hend, hto⟩ := shallocRegionResetHead_returns hregion hhead hdata hclose (hrenewed a)
  refine ⟨region, st', hlinked, hregion, ?_, hto⟩
  rw [shallocRegionReset_eq hregion hlinked (List.nodup_singleton b)]
  exact (if_pos hfuel).trans hend

variable {P : ℕ} (hparent : SoundParent ops path top limit inv) (hP : path.head? = some P)
  (htakes : TakesBack ops path inv)
include hparent hP htakes

/-- Freeing buffers of the region returns if they can be closed. -/
theorem SoundParent.freeBuffs_returns (hfree : region.parent = some P) (ds : List ℕ) :
    ∀ {st blocks}, inv blocks st → st.regions r = some region → ds.Nodup →
      (∀ d ∈ ds, ∃ e data a, e ∈ blocks ∧ e.ptr = d ∧ sizeofBuff < e.len ∧
        st.buffs d = some data ∧ data.start = d + sizeofBuff ∧
        (ops data.allocType).destroy data (st.cells data.start) = some a) →
      ∃ st', shallocRegionFreeBuffs ops r ds st = some st' := by
  induction ds with
  | nil => exact fun _ _ _ _ => ⟨_, rfl⟩
  | cons d ds ih =>
    intro st blocks h hregion hnodup hds
    obtain ⟨hnot, hrest⟩ := List.nodup_cons.mp hnodup
    obtain ⟨e, data, a, he, rfl, hlen, hdata, hstart, hop⟩ := hds d List.mem_cons_self
    -- the first buffer is closed and given back
    have hdestroy : st.opDestroy ops e.ptr =
        some ((st.setCell data.start a).log (.destroy e.ptr)) :=
      Store.opDestroy_eq_some.mpr ⟨data, a, hdata, hop, rfl⟩
    have hown : inv blocks ((st.setCell data.start a).log (.destroy e.ptr)) := by
      refine hparent.own h (.of_setCell (fun hno => hno ⟨e, he, by omega, by omega⟩) ?_)
      exact fun c hc heq => hc ⟨e, he, Nat.le_of_eq heq, by rw [← show e.ptr = c from heq]; omega⟩
    obtain ⟨st2, hcall⟩ := htakes hown he hP
    have hfirst : shallocRegionFreeBuff ops r e.ptr st = some st2 := by
      simp only [shallocRegionFreeBuff, hdestroy, bind, Option.bind_some, Store.log_regions,
        Store.setCell_regions, hregion, hfree, hcall]
    have hone : shallocRegionFreeBuffs ops r [e.ptr] st = some st2 := by
      simp only [shallocRegionFreeBuffs, hfirst, bind, Option.bind_some]
    obtain ⟨hregions, hbuffs, kept, hinv, -, hkept, hagree⟩ :=
      hparent.freeBuffs hP hfree [e.ptr] h hregion (List.nodup_singleton _)
        (fun c hc => by
          obtain rfl := List.mem_singleton.mp hc
          exact ⟨e, data, he, rfl, hlen, hdata, hstart⟩) hone
    obtain ⟨st', hlast⟩ := ih hinv (by rw [hregions]; exact hregion) hrest fun c hc => by
      obtain ⟨e', data', a', he', hptr', hlen', hdata', hstart', hop'⟩ :=
        hds c (List.mem_cons_of_mem _ hc)
      have hmem : e' ∈ kept := hkept e' he' fun hin =>
        hnot (by rw [← List.mem_singleton.mp hin, hptr']; exact hc)
      have hcover : Covers kept data'.start := ⟨e', hmem, by omega, by omega⟩
      exact ⟨e', data', a', hmem, hptr', hlen', by rw [hbuffs]; exact hdata', hstart',
        by rw [hagree.cells _ hcover]; exact hop'⟩
    exact ⟨st', by simp only [shallocRegionFreeBuffs, hfirst, bind, Option.bind_some, hlast]⟩

/-- The reset of a region returns if its buffers can be closed and the first one can be set up
anew, which then is all of its chain. -/
theorem RegionInv.reset_returns {d fuel : ℕ} {bs : List ℕ} {data : Buff}
    (h : RegionInv path inv J Q k r st region (d :: bs) blocks) (hdata : st.buffs d = some data)
    (hclosed : ∀ c ∈ d :: bs, ∀ data, st.buffs c = some data →
      ∃ a, (ops data.allocType).destroy data (st.cells data.start) = some a)
    (hrenewed : ∀ a, ∃ ret a', (ops data.allocType).create data a = some (ret, a') ∧ 0 ≤ ret)
    (hfuel : (d :: bs).length < fuel) :
    ∃ st', shallocRegionReset ops fuel r st = some st' ∧ ResetTo ops r d region data st' := by
  obtain ⟨hr, hnodup⟩ := List.nodup_cons.mp h.nodup
  have hsub : bs.dropLast.Sublist bs := List.dropLast_sublist bs
  have hq : region.parent = some P := by rw [Region.parent, h.ancestors, hP]
  have hds : ∀ c ∈ bs.dropLast, ∃ e data a, e ∈ blocks ∧ e.ptr = c ∧ sizeofBuff < e.len ∧
      st.buffs c = some data ∧ data.start = c + sizeofBuff ∧
      (ops data.allocType).destroy data (st.cells data.start) = some a := by
    intro c hc
    have hmem := List.mem_cons_of_mem d (hsub.subset hc)
    obtain ⟨e, data, he, hptr, hlen, hdata, hstart, -⟩ := h.buffs c hmem
    obtain ⟨a, hop⟩ := hclosed c hmem data hdata
    exact ⟨e, data, a, he, hptr, hlen, hdata, hstart, hop⟩
  obtain ⟨st1, hfree⟩ := hparent.freeBuffs_returns hP htakes hq bs.dropLast h.parent h.record
    (hsub.nodup (List.nodup_cons.mp hnodup).2) hds
  obtain ⟨hregions, hbuffs, kept, -, -, hkept, hagree⟩ :=
    hparent.freeBuffs hP hq bs.dropLast h.parent h.record
      (hsub.nodup (List.nodup_cons.mp hnodup).2) (fun c hc => by
        obtain ⟨e, data, -, he, hptr, hlen, hdata, hstart, -⟩ := hds c hc
        exact ⟨e, data, he, hptr, hlen, hdata, hstart⟩) hfree
  -- the allocator of the first buffer is as it was
  obtain ⟨e, data', he, hptr, hlen, hdata', hstart, -⟩ := h.buffs d List.mem_cons_self
  obtain rfl := Option.some.inj (hdata.symm.trans hdata')
  have hekept : e ∈ kept := hkept e he fun hmem =>
    (List.nodup_cons.mp hnodup).1 (hptr ▸ hsub.subset hmem)
  have hcell : st1.cells data.start = st.cells data.start :=
    hagree.cells _ ⟨e, hekept, by omega, by omega⟩
  obtain ⟨b, hdestroy⟩ := hclosed d List.mem_cons_self data hdata
  obtain ⟨st', hend, hto⟩ := shallocRegionResetHead_returns (by rw [hregions]; exact h.record)
    h.linked.head.1 (by rw [hbuffs]; exact hdata) (by rw [hcell]; exact hdestroy) (hrenewed b)
  refine ⟨st', ?_, hto⟩
  rw [shallocRegionReset_eq h.record h.linked hnodup, if_pos hfuel, hfree, Option.bind_some, hend]

end Reset

section Serve

variable {accepted : ℕ → ℕ → Prop} {ready : Buff → α → Prop} {same : α → α → Prop}

/-- The rule for buffers that are in use if their sizes are accepted. -/
theorem Restartable.rule (htop : top ≤ 2 ^ 63)
    (hop : Restartable (ops type) top accepted ready same) :
    RegionRule ops top (DefaultFits type) (BuffInside type top fun data _ a =>
      accepted data.size data.blockSize → ready data a) fun _ _ => True :=
  buffRule htop (fun link h haccepted => hop.next link (h haccepted))
    (fun hlower hfits hcreate hret haccepted => hop.created hlower hfits haccepted hcreate hret)
    (fun h hpos hn hcall haccepted => hop.malloc (h haccepted) hpos hn hcall)
    fun h _ hfree haccepted => hop.free (h haccepted) hfree

/-- Every run keeps the invariant, of a region that `shalloc_region_create` has returned or of
that of a heap. -/
theorem RestartRun.kept (htop : top ≤ 2 ^ 63) (hparent : SoundParent ops path top limit inv)
    (hop : Restartable (ops type) top accepted ready same)
    (run : RestartRun ops path limit inv top type r st made) :
    ((∃ P, path.head? = some P) ∧ ∃ k chain, RestartKept ops path inv (DefaultFits type)
        (BuffInside type top fun data _ a => accepted data.size data.blockSize → ready data a) k r
        st chain made) ∨
      path = [] ∧ ∃ b, RestartHeap ops type
        (fun data a => accepted data.size data.blockSize → ready data a) r b st made := by
  have rule := hop.rule htop
  induction run with
  | begins hbegins =>
    cases hbegins with
    | @created initSize buffSize blockSize flags given blocks st0 _ h hinit hbuff htype hbelow
        hcall =>
      refine Or.inl ⟨shallocRegionCreate_path hcall, ?_⟩
      have hsize : (shallocGetRegion path buffSize blockSize flags given).defaultData.size <
          2 ^ 48 := shallocGetRegion_size hbuff
      have hfits : DefaultFits type 0 (shallocGetRegion path buffSize blockSize flags given) :=
        ⟨htype, shallocGetRegion_lower .., by unfold sizeofBuff; omega⟩
      have hrecord : ∀ {r' st'}, shallocMalloc ops path sizeofRegion st0 = some (some r', st') →
          RestartKept ops path inv (DefaultFits type) (BuffInside type top fun data _ a =>
            accepted data.size data.blockSize → ready data a) 0 r'
            (st'.setRegion r' (shallocGetRegion path buffSize blockSize flags given)) [] none :=
        fun hmalloc => ⟨hparent.create_record h hfits hmalloc, .empty⟩
      cases shallocRegionCreate_cases hcall with
      | @empty _ st2 hmalloc =>
        have hhead : headBuff r (st2.setRegion r
            (shallocGetRegion path buffSize blockSize flags given)) = none := by
          simp [headBuff, shallocGetRegion]
        rw [hhead]
        exact ⟨0, [], hrecord hmalloc⟩
      | grown hmalloc hpos hgrow =>
        exact (hrecord hmalloc).grow hparent rule hpos (by omega)
          (asksBelow_setRegion _ hbelow) hgrow
    | @heap region b data ret st0 _ hpath hregion hfixed hhead htail hdata hnext htype hlower hupper
        hrecord hdescr hcreate hret =>
      obtain ⟨data', a, hdata', hop', rfl⟩ := Store.opCreate_eq_some.mp hcreate
      obtain rfl := Option.some.inj (hdata.symm.trans hdata')
      have hfirst : headBuff r ((st0.setCell data.start a).log (.create b ret)) =
          some (data, a) := by
        simp [headBuff, hregion, hhead, hdata]
      rw [hfirst]
      refine Or.inr ⟨hpath, b, ⟨region, hregion, hfixed, hhead, htail⟩,
        ⟨data, hdata, hnext, htype, hlower, fun haccepted => ?_⟩, ?_, ?_⟩
      · rw [Store.log_cells, Store.setCell_cells, Function.update_self]
        rw [htype] at hop'
        exact hop.created hlower hupper haccepted hop' hret
      · have hlink : ({ data with next := none } : Buff) = data := by rw [← hnext]
        exact .made (by rw [hlink]; exact hdata) hnext hop' hret
      · -- the header is at the start of the buffer, which lies apart from record and descriptor
        have hin : Extent.Within data.header ⟨data.start, data.size⟩ :=
          ⟨le_rfl, Nat.add_le_add_left (le_trans data.allocType.headerSize_le hlower) _⟩
        have heq : ∀ d ∈ [b], ∀ data', st0.buffs d = some data' → data' = data := by
          rintro d hd data' hother
          obtain rfl := List.mem_singleton.mp hd
          exact Option.some.inj (hother.symm.trans hdata)
        refine ⟨fun d hd data' hdata' => ?_, fun c hc d hd data' hdata' => ?_,
          fun c hc d hd hne => ?_⟩
        · obtain rfl := heq d hd data' hdata'
          exact hrecord.mono ⟨le_rfl, le_rfl⟩ hin
        · obtain rfl := heq d hd data' hdata'
          obtain rfl := List.mem_singleton.mp hc
          exact hdescr.mono ⟨le_rfl, le_rfl⟩ hin
        · exact absurd ((List.mem_singleton.mp hc).trans (List.mem_singleton.mp hd).symm) hne
  | malloc _ hn hbelow hcall ih =>
    rcases ih with ⟨hP, k, chain, h⟩ | ⟨rfl, b, h⟩
    · exact Or.inl ⟨hP, h.malloc hparent rule hn hbelow hcall⟩
    · obtain ⟨x, rfl⟩ := h.exists_made
      exact Or.inr ⟨rfl, b, h.malloc (fun h hpos hn hcall haccepted =>
        hop.malloc (h haccepted) hpos hn hcall) hn hcall⟩
  | free _ hcall ih =>
    rcases ih with ⟨hP, k, chain, h⟩ | ⟨hpath, b, h⟩
    · exact Or.inl ⟨hP, k, chain,
        h.kept.free hparent rule (fun _ _ _ _ _ _ _ => trivial) hcall,
        h.head.of_buffs (shallocFree_cases hcall).frame.2⟩
    · exact Or.inr ⟨hpath, b, h.free (fun h hcall haccepted => hop.free (h haccepted) hcall) hcall⟩
  | grow _ hsize hbelow hcall ih =>
    have hcases := shallocRegionGrow_cases hcall
    have hpos : 0 < _ := Nat.pos_of_ne_zero fun hzero => by
      rw [shallocRegionGrow, if_pos hzero] at hcall
      exact absurd hcall (by simp)
    rcases ih with ⟨hP, k, chain, h⟩ | ⟨hpath, b, h⟩
    · exact Or.inl ⟨hP, h.grow hparent rule hpos (by omega) hbelow hcases⟩
    · obtain ⟨x, rfl⟩ := h.exists_made
      exact Or.inr ⟨hpath, b, h.grow hcases⟩

/-- States that answer in the same way answer a sequence of requests in the same way. -/
theorem Restartable.buffServes_eq {op : BuffOp α}
    (hop : Restartable op top accepted ready same) (data : Buff) (ns : List ℕ) :
    ∀ {a b}, same a b → buffServes op data ns a = buffServes op data ns b := by
  induction ns with
  | nil => exact fun _ => rfl
  | cons n ns ih =>
    intro a b h
    have hanswers : (op.malloc data n a = none ∧ op.malloc data n b = none) ∨
        ∃ p a' b', op.malloc data n a = some (p, a') ∧ op.malloc data n b = some (p, b') ∧
          same a' b' := hop.answers h
    rcases hanswers with ⟨ha, hb⟩ | ⟨p, a', b', ha, hb, h'⟩
    · simp only [buffServes, ha, hb, bind, Option.bind_none]
    · simp only [buffServes, ha, hb, bind, Option.bind_some, ih h']

/-- Requests that the tail serves one after the other are served by the region. -/
theorem Restartable.regionServes_eq {t : ℕ} {data : Buff}
    (hop : Restartable (ops data.allocType) top accepted ready same) (ht : region.dataTail = some t)
    (ns : List ℕ) : ∀ {st ps b}, st.regions r = some region → st.buffs t = some data →
      same b (st.cells data.start) →
      buffServes (ops data.allocType) data ns (st.cells data.start) = some ps →
      regionServes ops (r :: path) ns st = some ps := by
  induction ns with
  | nil => exact fun _ _ _ hserves => hserves
  | cons n ns ih =>
    intro st ps b hregion hdata hsame hserves
    simp only [buffServes, bind, Option.bind_eq_some_iff, Prod.exists, Option.some.injEq] at hserves
    obtain ⟨p, a, hmalloc, q, rfl, qs, hrest, rfl⟩ := hserves
    have hn : n ≠ 0 := by
      rintro rfl
      exact hop.zero hsame hmalloc
    have hask : (st.log (.request r n)).opMalloc ops t n =
        some (some q, ((st.log (.request r n)).setCell data.start a).log (.malloc t n (some q))) :=
      Store.opMalloc_eq_some.mpr ⟨data, a, hdata, hmalloc, rfl⟩
    have hcall : shallocMalloc ops (r :: path) n st =
        some (some q, ((st.log (.request r n)).setCell data.start a).log (.malloc t n (some q))) :=
      (if_neg hn).trans (shallocServe_served hregion ht hask)
    have hcell : (((st.log (.request r n)).setCell data.start a).log
        (.malloc t n (some q))).cells data.start = a := Function.update_self ..
    have hsame' : ∃ b', same b' a := by
      rcases hop.answers hsame with ⟨-, hnone⟩ | ⟨p, b', a', -, ha', h'⟩
      · exact absurd (hmalloc.symm.trans hnone) (by simp)
      · obtain ⟨-, rfl⟩ := Prod.mk.inj (Option.some.inj (hmalloc.symm.trans ha'))
        exact ⟨b', h'⟩
    obtain ⟨b', hb'⟩ := hsame'
    have hrest' : regionServes ops (r :: path) ns (((st.log (.request r n)).setCell data.start
        a).log (.malloc t n (some q))) = some qs :=
      ih hregion hdata (hcell.symm ▸ hb') (hcell.symm ▸ hrest)
    simp only [regionServes, hcall, hrest', bind, Option.bind_some]

/-- The reset returns, and the region answers all requests that its first buffer can serve in the
same way as that buffer did just after it was made. -/
def Restarts (ops : BuffAllocType → BuffOp α) (path : List ℕ) (r fuel : ℕ)
    (made : Option (Buff × α)) (st : Store α) : Prop :=
  ∃ st', shallocRegionReset ops fuel r st = some st' ∧ ∀ data a, made = some (data, a) →
    ∃ a', headBuff r st' = some (data, a') ∧ ∀ ns,
      buffServes (ops data.allocType) data ns a' = buffServes (ops data.allocType) data ns a ∧
      ∀ ps, buffServes (ops data.allocType) data ns a = some ps →
        regionServes ops (r :: path) ns st' = some ps

/-- What a reset leaves behind answers as the buffer did just after it was made. -/
theorem Restartable.restarts {d fuel : ℕ} {data : Buff} {link : Option ℕ} {a b : α} {ret : ℤ}
    (hop : Restartable (ops data.allocType) top accepted ready same)
    (haccepted : accepted data.size data.blockSize) (hhead : region.dataHead = some d)
    (hnext : data.next = none) (hcreate : (ops data.allocType).create data b = some (ret, a))
    (hret : 0 ≤ ret) (hreset : shallocRegionReset ops fuel r st = some st')
    (hto : ResetTo ops r d region { data with next := link } st') :
    Restarts ops path r fuel (some (data, a)) st := by
  obtain ⟨b', ret', hcreate', hret'⟩ := hto.made
  have hdata : st'.buffs d = some data := by
    rw [hto.buff, ← hnext]
  rw [hop.create_next] at hcreate'
  have hfirst : headBuff r st' = some (data, st'.cells data.start) := by
    simp only [headBuff, hto.region, hhead, hdata, bind, Option.bind_some]
  refine ⟨st', hreset, fun data' a0 hmade => ?_⟩
  obtain ⟨rfl, rfl⟩ := Prod.mk.inj (Option.some.inj hmade)
  have hserves : ∀ ns, buffServes (ops data.allocType) data ns (st'.cells data.start) =
      buffServes (ops data.allocType) data ns a := fun ns =>
    hop.buffServes_eq data ns (hop.created_same haccepted hcreate' hret' hcreate hret)
  refine ⟨_, hfirst, fun ns => ⟨hserves ns, fun ps hps => ?_⟩⟩
  rw [← hserves ns] at hps
  exact hop.regionServes_eq rfl ns hto.region hdata
    (hop.created_same haccepted hcreate hret hcreate' hret') hps

/-- A reset in any state of any run, if the sizes of all buffers are accepted. -/
theorem RestartRun.restarts (htop : top ≤ 2 ^ 63) (hparent : SoundParent ops path top limit inv)
    (htakes : TakesBack ops path inv) (hop : Restartable (ops type) top accepted ready same)
    (run : RestartRun ops path limit inv top type r st made) :
    ∃ region chain, st.regions r = some region ∧ Linked st region chain ∧
      (made = none ↔ chain = []) ∧ HeadersApart r st chain ∧
      ((∀ d ∈ chain, ∀ data, st.buffs d = some data → accepted data.size data.blockSize) →
        ∀ fuel, chain.length < fuel → Restarts ops path r fuel made st) := by
  rcases run.kept htop hparent hop with ⟨⟨P, hP⟩, k, chain, hkept⟩ | ⟨-, b, h⟩
  · obtain ⟨region, blocks, h⟩ := hkept.kept
    refine ⟨region, chain, h.record, h.linked, hkept.head.eq_none, h.headersApart hparent,
      fun haccepted fuel hfuel => ?_⟩
    cases hkept.head with
    | empty =>
      have hhead : region.dataHead = none := h.linked.head
      refine ⟨st, ?_, fun data a hno => absurd hno (by simp)⟩
      simp [shallocRegionReset, regionBuffIter, h.record, hhead]
    | @made d rest data link a b ret hbuff hnext hcreate hret =>
      have hQ : ∀ c ∈ d :: rest, ∀ data, st.buffs c = some data → data.allocType = type ∧
          shallocBuffMinSize ≤ data.size ∧ ready data (st.cells data.start) := by
        intro c hc data' hdata'
        obtain ⟨e, data'', -, -, -, hdata'', -, hQ⟩ := h.buffs c hc
        obtain rfl := Option.some.inj (hdata'.symm.trans hdata'')
        exact ⟨hQ.allocType, hQ.lower, hQ.rep (haccepted c hc _ hdata')⟩
      obtain ⟨htype, hlower, -⟩ := hQ d List.mem_cons_self _ hbuff
      have haccept : accepted data.size data.blockSize :=
        haccepted d List.mem_cons_self { data with next := link } hbuff
      obtain rfl : data.allocType = type := htype
      obtain ⟨st', hreset, hto⟩ := h.reset_returns hparent hP htakes hbuff
        (fun c hc data' hdata' => by
          obtain ⟨htype, -, hready⟩ := hQ c hc data' hdata'
          rw [htype]
          exact hop.closed hready)
        (fun b => hop.renewed b hlower haccept) hfuel
      exact hop.restarts haccept h.linked.head.1 hnext hcreate hret hreset hto
  · obtain ⟨region, hregion, -, hhead, htail⟩ := h.region
    obtain ⟨data, hdata, hnext, htype, hlower, hready⟩ := h.buff
    have hlinked : Linked st region [b] := ⟨⟨hhead, data, hdata, hnext⟩, htail⟩
    refine ⟨region, [b], hregion, hlinked, h.head.eq_none, h.apart, fun haccepted fuel hfuel => ?_⟩
    have haccept := haccepted b (List.mem_singleton_self b) data hdata
    obtain rfl := htype
    obtain ⟨region', st', -, hregion', hreset, hto⟩ := h.reset_returns hdata
      (fun hready => hop.closed (hready haccept)) (fun a => hop.renewed a hlower haccept) hfuel
    obtain rfl := Option.some.inj (hregion.symm.trans hregion')
    cases h.head with
    | @made _ _ data' link a b' ret hbuff hnext' hcreate hret =>
      obtain rfl := Option.some.inj (hdata.symm.trans hbuff)
      have hop' : Restartable (ops data'.allocType) top accepted ready same := hop
      exact hop'.restarts haccept hhead hnext' hcreate hret hreset hto

end Serve

end Runs

/-- What a region owes to those who reset it: memory holds all that the reset checks, so that it
returns, and then all requests that the first buffer can serve get the pointers that they would
have got just after that buffer was made. In a region of type SLAB, this is about buffers that
`slab_init` accepts. -/
def ResetRestarts {α : Type} (ops : BuffAllocType → BuffOp α) (path : List ℕ) (type : BuffAllocType)
    (r : ℕ) (made : Option (Buff × α)) (st : Store α) : Prop :=
  ∃ region chain, st.regions r = some region ∧ Linked st region chain ∧
    (made = none ↔ chain = []) ∧
    ((type = .slab → ∀ d ∈ chain, ∀ data, st.buffs d = some data →
        ∃ raw header, slabInit data.start data.size data.blockSize raw = some (0, header)) →
      HeadersApart r st chain ∧
        ∀ fuel, chain.length < fuel → Restarts ops path r fuel made st)

/-- What region `r` asks its parent for to serve `n` bytes. -/
def regionAsks {α : Type} (r n : ℕ) (st : Store α) : Option ℕ :=
  (st.regions r).map fun region => region.request (shallocBuffAllocSize n)

/-- The first and the last buffer of a region, and the header of the first one. -/
def regionEnds {α : Type} (r : ℕ) (st : Store α) : Option (ℕ × ℕ × Extent) := do
  let region ← st.regions r
  let head ← region.dataHead
  let tail ← region.dataTail
  let data ← st.buffs head
  some (head, tail, data.header)

/-- A region of type NOFREE in a heap of type MPLITE serves three requests for `n` bytes, and asks
the heap for `m` bytes to grow. -/
structure ThreeRequests (n m head tail : ℕ) (header : Extent)
    (st0 st1 st2 st3 st4 : Store (AllocState (Mplite ⊕ Unit))) : Prop where
  heap : mpliteHeapStore.opCreate mpliteHeapOps 4112 = some (0, st0)
  created : shallocRegionCreate mpliteHeapOps [4096] 0 0 0 0 .nofree st0 = some (some 72408, st1)
  first : ∃ p, shallocMalloc mpliteHeapOps [72408, 4096] n st1 = some (p, st2)
  second : ∃ p, shallocMalloc mpliteHeapOps [72408, 4096] n st2 = some (p, st3)
  third : ∃ p, shallocMalloc mpliteHeapOps [72408, 4096] n st3 = some (p, st4)
  asks : ∀ st ∈ [st1, st2, st3], regionAsks 72408 n st = some m
  ends : regionEnds 72408 st4 = some (head, tail, header)

/-- The same as one run. -/
def threeRequests (n : ℕ) :
    Option (ℤ × List (Option ℕ) × Option (ℕ × ℕ × Extent)) := do
  let (made, st0) ← mpliteHeapStore.opCreate mpliteHeapOps 4112
  let (r, st1) ← shallocRegionCreate mpliteHeapOps [4096] 0 0 0 0 .nofree st0
  let (_, st2) ← shallocMalloc mpliteHeapOps [72408, 4096] n st1
  let (_, st3) ← shallocMalloc mpliteHeapOps [72408, 4096] n st2
  let (_, st4) ← shallocMalloc mpliteHeapOps [72408, 4096] n st3
  some (made, r :: [st1, st2, st3].map (regionAsks 72408 n), regionEnds 72408 st4)

theorem threeRequests_steps {n m head tail : ℕ} {header : Extent}
    (h : threeRequests n =
      some (0, [some 72408, some m, some m, some m], some (head, tail, header))) :
    ∃ st0 st1 st2 st3 st4, ThreeRequests n m head tail header st0 st1 st2 st3 st4 := by
  simp only [threeRequests, bind, Option.bind_eq_some_iff, Prod.exists] at h
  obtain ⟨_, st0, hheap, _, st1, hcreated, _, st2, hfirst, _, st3, hsecond, _, st4, hthird, hres⟩ :=
    h
  simp only [Option.some.injEq, Prod.mk.injEq, List.map_cons, List.map_nil, List.cons.injEq,
    and_true] at hres
  obtain ⟨rfl, ⟨rfl, h1, h2, h3⟩, hends⟩ := hres
  refine ⟨st0, st1, st2, st3, st4, hheap, hcreated, ⟨_, hfirst⟩, ⟨_, hsecond⟩, ⟨_, hthird⟩, ?_,
    hends⟩
  simp [h1, h2, h3]

theorem ThreeRequests.run {n m head tail limit top : ℕ} {header : Extent}
    {inv : List Extent → Store (AllocState (Mplite ⊕ Unit)) → Prop}
    {st0 st1 st2 st3 st4 : Store (AllocState (Mplite ⊕ Unit))}
    (h : ThreeRequests n m head tail header st0 st1 st2 st3 st4) (hinv : inv [] st0)
    (hn : n < 2 ^ 48) (hm : m < limit)
    (hfirst : (shallocGetRegion [4096] 0 0 0 .nofree).request 0 < limit) :
    ∃ made, RestartRun mpliteHeapOps [4096] limit inv top .nofree 72408 st4 made := by
  have hbelow : ∀ st ∈ [st1, st2, st3], AsksBelow limit 72408 (shallocBuffAllocSize n) st := by
    intro st hst region hregion
    have hrequest := h.asks st hst
    rw [regionAsks, hregion, Option.map_some, Option.some.injEq] at hrequest
    rwa [hrequest]
  obtain ⟨_, hcall1⟩ := h.first
  obtain ⟨_, hcall2⟩ := h.second
  obtain ⟨_, hcall3⟩ := h.third
  have run1 : RestartRun mpliteHeapOps [4096] limit inv top .nofree 72408 st1 _ :=
    .begins (.created hinv (by decide) (by decide) rfl hfirst h.created)
  have run2 := run1.malloc hn (hbelow _ (by simp)) hcall1
  have run3 := run2.malloc hn (hbelow _ (by simp)) hcall2
  exact ⟨_, run3.malloc hn (hbelow _ (by simp)) hcall3⟩

end Shalloc
