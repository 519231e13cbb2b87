import Mathlib.Data.List.Forall2
import Shalloc.Mplite.Run
import Shalloc.Mplite.Sound
import Shalloc.Region.Bytes

/-!
# A heap of the buddy allocator as a parent

The buddy allocator is sound for requests below 2 GiB, and takes back every block: a block in use
is the first part of a chunk that is in use. So a heap with this allocator is a parent for
requests below 2 GiB. A larger one is passed on as an `int`, and may be served by a block that is
too small.

## Main definitions

- `MpliteServes` — the blocks of a buffer are the first parts of the chunks in use

## Main results

- `mpliteServes_sound`, `mpliteServes_free` — the allocator is sound, and its frees return
- `mpliteHeap_fullParent` — the heap is a parent
-/

namespace Shalloc

variable {σ : Type} {buff : Buff} {blocks live : List Extent} {a a' : AllocState (Mplite ⊕ σ)}
  {e : Extent} {n : ℕ}

section Parts

/-- A block that is handed out for a request is the first part of a chunk. -/
structure FirstPart (e chunk : Extent) : Prop where
  ptr : e.ptr = chunk.ptr
  le : e.len ≤ chunk.len
  pos : 0 < e.len

theorem FirstPart.disjoint {chunk e' chunk' : Extent} (h : FirstPart e chunk)
    (h' : FirstPart e' chunk') (hapart : Extent.Disjoint chunk chunk') : Extent.Disjoint e e' := by
  have hptr := h.ptr
  have hle := h.le
  have hptr' := h'.ptr
  have hle' := h'.le
  rcases hapart with hd | hd
  · exact Or.inl (by omega)
  · exact Or.inr (by omega)

theorem exists_chunk (h : List.Forall₂ FirstPart blocks live) (he : e ∈ blocks) :
    ∃ chunk ∈ live, FirstPart e chunk := by
  induction h with
  | nil => exact absurd he List.not_mem_nil
  | cons hpart _ ih =>
    rcases List.mem_cons.mp he with rfl | he
    · exact ⟨_, List.mem_cons_self, hpart⟩
    · obtain ⟨chunk, hmem, hchunk⟩ := ih he
      exact ⟨chunk, List.mem_cons_of_mem _ hmem, hchunk⟩

theorem firstParts_release (h : List.Forall₂ FirstPart blocks live) (p : ℕ) :
    List.Forall₂ FirstPart (releaseBlock p blocks) (releaseBlock p live) :=
  List.rel_filter (fun e chunk hpart => by simp [hpart.ptr]) h

end Parts

/-- The blocks of `buff` in use are the first parts of the chunks in use of its pool. -/
structure MpliteServes (buff : Buff) (blocks : List Extent) (a : AllocState (Mplite ⊕ σ)) :
    Prop where
  aligned : 8 ∣ buff.start
  pool : ∃ n handle live, a = .other (.inl handle) ∧
    sizeofMplite + mpliteMinAlloc * n ≤ buff.size ∧
    MpliteOk (buff.start + sizeofMplite) n handle live ∧ List.Forall₂ FirstPart blocks live

section Sound

/-- A block lies in the buffer past the handle. -/
theorem MpliteServes.issued (h : MpliteServes buff blocks a) (he : e ∈ blocks) :
    Extent.Within e ⟨buff.start + sizeofMplite, buff.size - sizeofMplite⟩ ∧ 8 ∣ e.ptr ∧
      0 < e.len := by
  obtain ⟨n, handle, live, rfl, hfits, hok, hparts⟩ := h.pool
  obtain ⟨chunk, hchunk, hpart⟩ := exists_chunk hparts he
  obtain ⟨⟨hlo, hhi⟩, c, hc⟩ := hok.within hchunk
  obtain ⟨b, hb⟩ := h.aligned
  have hptr := hpart.ptr
  have hle := hpart.le
  unfold mpliteMinAlloc sizeofMplite at *
  simp only at hlo hhi
  exact ⟨⟨by simp only; omega, by simp only; omega⟩, by omega, hpart.pos⟩

/-- A request for less than 2 GiB. -/
theorem MpliteServes.malloc {p : Option ℕ} (h : MpliteServes buff blocks a) (hpos : 0 < n)
    (hn : n < 2 ^ 31) (hcall : mpliteOpMalloc buff n a = some (p, a')) :
    MpliteServes buff (p.elim blocks fun p => ⟨p, n⟩ :: blocks) a' ∧
      ∀ q ∈ p, ∀ e ∈ blocks, Extent.Disjoint ⟨q, n⟩ e := by
  obtain ⟨m, handle, live, rfl, hfits, hok, hparts⟩ := h.pool
  obtain ⟨p', handle', hmalloc, hok', -, -⟩ := hok.malloc n
  simp only [mpliteOpMalloc, toInt32_natCast hn, hmalloc, bind, Option.bind_some, Option.some.injEq,
    Prod.mk.injEq] at hcall
  obtain ⟨rfl, rfl⟩ := hcall
  rw [Int.toNat_natCast] at hok'
  cases p' with
  | none => exact ⟨⟨h.aligned, m, handle', live, rfl, hfits, hok', hparts⟩, by simp⟩
  | some q =>
    have hnew : FirstPart ⟨q, n⟩ ⟨q, mpliteFullSz n⟩ := ⟨rfl, le_mpliteFullSz n, hpos⟩
    refine ⟨⟨h.aligned, m, handle', _, rfl, hfits, hok', hparts.cons hnew⟩, ?_⟩
    intro q' hq e he
    obtain rfl := Option.some.inj hq
    obtain ⟨chunk, hchunk, hpart⟩ := exists_chunk hparts he
    exact hnew.disjoint hpart ((List.pairwise_cons.mp hok'.apart).1 chunk hchunk)

/-- A free of a block returns. -/
theorem MpliteServes.free (h : MpliteServes buff blocks a) (he : e ∈ blocks) :
    ∃ a', mpliteOpFree buff e.ptr a = some a' ∧
      MpliteServes buff (releaseBlock e.ptr blocks) a' := by
  obtain ⟨m, handle, live, rfl, hfits, hok, hparts⟩ := h.pool
  obtain ⟨chunk, hchunk, hpart⟩ := exists_chunk hparts he
  obtain ⟨handle', hfree, hok', -⟩ := hok.free hchunk
  rw [← hpart.ptr] at hfree hok'
  refine ⟨.other (.inl handle'), ?_, h.aligned, m, handle', _, rfl, hfits, hok',
    firstParts_release hparts e.ptr⟩
  simp [mpliteOpFree, hfree]

theorem mpliteServes_sound :
    SoundOp (mpliteOps (σ := σ)) sizeofMplite (2 ^ 31) MpliteServes where
  issued h e he := h.issued he
  served h hpos hn hcall := by
    obtain ⟨h', hapart⟩ := h.malloc hpos hn hcall
    exact ⟨h', hapart _ rfl⟩
  refused h hpos hn hcall := (h.malloc hpos hn hcall).1
  freed h he hcall := by
    obtain ⟨a'', hfree, h'⟩ := h.free he
    obtain rfl := Option.some.inj (hfree.symm.trans hcall)
    exact h'

theorem mpliteServes_free (h : MpliteServes buff blocks a) (he : e ∈ blocks) :
    ∃ a', (mpliteOps (σ := σ)).free buff e.ptr a = some a' := by
  obtain ⟨a', hfree, -⟩ := h.free he
  exact ⟨a', hfree⟩

/-- A buffer that has been set up serves. -/
theorem mpliteCreate_serves {ret : ℤ} (haligned : 8 ∣ buff.start)
    (hsmall : buff.start + buff.size < 2 ^ 64) (h : mpliteCreate buff a = some (ret, a'))
    (hret : 0 ≤ ret) : MpliteServes buff [] a' := by
  unfold mpliteCreate at h
  split at h
  · obtain ⟨rfl, -⟩ := Prod.mk.inj (Option.some.inj h)
    exact absurd hret (by decide)
  next hsize =>
  simp only [bind, Option.bind_eq_some_iff, Prod.exists, Option.some.injEq, Prod.mk.injEq] at h
  obtain ⟨made, handle, hinit, rfl, rfl⟩ := h
  obtain rfl : made = 0 := by
    by_contra hne
    rw [if_neg hne] at hret
    exact absurd hret (by decide)
  rw [Word.wrap_of_lt (by omega)] at hinit
  have hpos := (mpliteInit_pool (toInt32_lt _) hinit).1
  exact ⟨haligned, _, handle, [], if_pos rfl, mpliteNumBlocks_fits hpos (toInt32_le _),
    MpliteOk.init (toInt32_lt _) hinit, .nil⟩

end Sound

section Heap

variable {ops : BuffAllocType → BuffOp (AllocState (Mplite ⊕ σ))} {top P b : ℕ} {parent : Region}

/-- **A heap of the buddy allocator is a parent**, for requests below 2 GiB. -/
theorem mpliteHeap_fullParent (hops : ops .mplite = mpliteOps) (htype : buff.allocType = .mplite)
    (hfixed : hasFlag parent.flags .nonResizable = true) (htop : buff.start + buff.size ≤ top) :
    FullParent ops [P] top (2 ^ 31) (HeapIssued MpliteServes P b parent buff) := by
  have hop : ops buff.allocType = mpliteOps := by rw [htype, hops]
  have hsound : SoundOp (ops buff.allocType) sizeofMplite (2 ^ 31) MpliteServes := by
    rw [hop]
    exact mpliteServes_sound
  have hhead : 0 < sizeofMplite := by decide
  have hlimit : sizeofRegion < 2 ^ 31 := by decide
  exact
    { sound := heap_soundParent_below hsound hhead hfixed hlimit htop
      bytes := heap_bytesParent hsound hhead hfixed hlimit fun hno => absurd (htype.symm.trans hno)
        (by decide)
      takesBack := heap_takesBack hsound fun {live a e} hserves he => by
        rw [hop]
        exact mpliteServes_free hserves he }

/-- A heap has issued nothing when its buffer has just been set up. -/
theorem mpliteHeap_created {st0 st : Store (AllocState (Mplite ⊕ σ))}
    (hops : ops .mplite = mpliteOps)
    (hlayout : OneBuffRegion P b parent buff) (htype : buff.allocType = .mplite)
    (haligned : 8 ∣ buff.start) (hregion : st0.regions P = some parent)
    (hdescr : st0.buffs b = some buff) (hcreate : st0.opCreate ops b = some (0, st)) :
    HeapIssued MpliteServes P b parent buff [] st := by
  obtain ⟨data, a, hdata, hop, rfl⟩ := Store.opCreate_eq_some.mp hcreate
  obtain rfl : buff = data := Option.some.inj (hdescr.symm.trans hdata)
  rw [htype, hops] at hop
  have hserves : MpliteServes buff [] a :=
    mpliteCreate_serves haligned (lt_trans hlayout.small (by decide)) hop le_rfl
  refine ⟨⟨hlayout, hregion, hdescr, ?_⟩, fun _ he => absurd he List.not_mem_nil,
    List.Pairwise.nil⟩
  simpa using hserves

/-- What the heap of 64 KiB has issued. -/
abbrev MpliteHeapIssued : List Extent → Store (AllocState (Mplite ⊕ Unit)) → Prop :=
  HeapIssued MpliteServes 4096 4112 heapRegion heapBuff

theorem mpliteHeap_parent : FullParent mpliteHeapOps [4096] 73728 (2 ^ 31) MpliteHeapIssued :=
  mpliteHeap_fullParent rfl rfl rfl (by decide)

/-- The heap has been set up. -/
theorem mpliteHeap_issued {st : Store (AllocState (Mplite ⊕ Unit))}
    (hcreate : mpliteHeapStore.opCreate mpliteHeapOps 4112 = some (0, st)) :
    MpliteHeapIssued [] st :=
  mpliteHeap_created rfl heapStore_oneBuff.layout rfl (by decide) rfl rfl hcreate

end Heap

end Shalloc
