import Shalloc.Bump
import Shalloc.Mplite.Returns

/-!
# Runs on a pool of the buddy allocator

A run sets the pool up and then makes requests, frees and resizes blocks in use and writes to
them, in any order. A block in use is the whole chunk that was handed out for it, and the chunks
in use are all that the handle knows of: no call fails, no call writes to a block in use, and the
counters of the handle are those of the blocks. Since free chunks are joined with their buddies
at once, a request is refused only if no aligned run of free atoms is long enough.

## Main definitions

- `MpliteRun` — calls on a pool, and writes to its blocks in use
- `MpliteOk` — the form of the pool

## Main results

- `mpliteRun_safe` — calls return, and blocks lie apart
- `mpliteRun_refused` — which requests are refused
- `mpliteRun_realloc` — what a resize does
- `mpliteRun_counts` — the counters and the size that is reported
-/

namespace Shalloc

open Buddy

/-- The chunk of `2 ^ k` atoms that begins at atom `i`. -/
def mpliteBlock (buf i k : ℕ) : Extent := ⟨buf + i * mpliteMinAlloc, mpliteMinAlloc * 2 ^ k⟩

/-- The size of the chunk for a request. -/
def mpliteFullSz (nByte : ℕ) : ℕ := mpliteMinAlloc * 2 ^ mpliteLogsize nByte

/-- Calls on a pool of `bufSize` bytes at `buf`, with the blocks in use after them. -/
inductive MpliteRun (buf : ℕ) (bufSize : ℤ) : Mplite → List Extent → Prop
  | init {addr : ℕ} {raw handle : Mplite} :
      bufSize < 2 ^ 31 → mpliteInit addr buf bufSize mpliteMinAlloc raw = some (0, handle) →
      MpliteRun buf bufSize handle []
  | malloc {handle handle' : Mplite} {live : List Extent} {nBytes : ℤ} {p : Option ℕ} :
      MpliteRun buf bufSize handle live → mpliteMalloc nBytes handle = some (p, handle') →
      MpliteRun buf bufSize handle'
        (p.elim live fun q => ⟨q, mpliteFullSz nBytes.toNat⟩ :: live)
  | free {handle handle' : Mplite} {live : List Extent} {e : Extent} :
      MpliteRun buf bufSize handle live → e ∈ live → mpliteFree e.ptr handle = some handle' →
      MpliteRun buf bufSize handle' (releaseBlock e.ptr live)
  /-- A block that is large enough stays in use as it is. -/
  | realloc {handle handle' : Mplite} {live : List Extent} {e : Extent} {nBytes : ℤ}
      {p : Option ℕ} :
      MpliteRun buf bufSize handle live → e ∈ live →
      mpliteRealloc e.ptr nBytes handle = some (p, handle') →
      MpliteRun buf bufSize handle' (p.elim live fun q =>
        if q = e.ptr then live else ⟨q, mpliteFullSz nBytes.toNat⟩ :: releaseBlock e.ptr live)
  /-- The blocks in use are written, and nothing else. -/
  | write {handle : Mplite} {live : List Extent} {links : ℕ → MpliteLink} :
      MpliteRun buf bufSize handle live →
      (∀ i, (∀ e ∈ live, ¬ Extent.Within (mpliteBlock buf i 0) e) → links i = handle.links i) →
      MpliteRun buf bufSize { handle with links := links } live

/-- The contents of the block stay as they are. -/
def SameAtoms (buf : ℕ) (e : Extent) (handle handle' : Mplite) : Prop :=
  ∀ i, Extent.Within (mpliteBlock buf i 0) e → handle'.links i = handle.links i

/-- The contents of the block are those of the block at `q` now. -/
def AtomsMoved (buf : ℕ) (e : Extent) (q : ℕ) (handle handle' : Mplite) : Prop :=
  ∀ i j x, e.ptr = buf + i * mpliteMinAlloc → q = buf + j * mpliteMinAlloc →
    Extent.Within (mpliteBlock buf (i + x) 0) e → handle'.links (j + x) = handle.links (i + x)

/-- The blocks in use are the chunks in use. -/
structure MpliteBlocks (tile : ℕ → Option Tile) (buf : ℕ) (live : List Extent) : Prop where
  nodup : live.Nodup
  mem : ∀ {e}, e ∈ live ↔ ∃ i k, liveLog tile i = some k ∧ e = mpliteBlock buf i k

/-- The pool has `n` blocks at `buf`, free chunks are joined, and the blocks in use are the
chunks in use and are counted. -/
structure MpliteOk (buf n : ℕ) (handle : Mplite) (live : List Extent) : Prop where
  pos : 0 < buf
  place : handle.place = (mpliteMinAlloc, n, buf)
  small : 65 * n < 2 ^ 31
  chunks : ∃ tile, MplitePool tile none handle ∧ MpliteNeat tile handle ∧
    MpliteBlocks tile buf live
  count : handle.currentCount = live.length
  out : handle.currentOut = Extent.total live

variable {buf n k i : ℕ} {tile : ℕ → Option Tile} {live : List Extent} {e : Extent}
  {handle handle' : Mplite}

section Blocks

/-- A chunk lies in the pool. -/
theorem mpliteBlock_within (h : i + 2 ^ k ≤ n) :
    Extent.Within (mpliteBlock buf i k) ⟨buf, mpliteMinAlloc * n⟩ := by
  unfold Extent.Within mpliteBlock mpliteMinAlloc
  simp only
  omega

/-- The block of a request is large enough. -/
theorem le_mpliteFullSz (nByte : ℕ) : nByte ≤ mpliteFullSz nByte := le_mpliteLogsize.mpr le_rfl

theorem mpliteBlock_inj {j l : ℕ} (h : mpliteBlock buf i k = mpliteBlock buf j l) : i = j := by
  have hptr := congrArg Extent.ptr h
  unfold mpliteBlock mpliteMinAlloc at hptr
  simp only at hptr
  omega

/-- Chunks that lie apart, in atoms and in bytes. -/
theorem mpliteBlock_disjoint {j l : ℕ} :
    Extent.Disjoint (mpliteBlock buf i k) (mpliteBlock buf j l) ↔
      i + 2 ^ k ≤ j ∨ j + 2 ^ l ≤ i := by
  unfold Extent.Disjoint mpliteBlock mpliteMinAlloc
  simp only
  omega

/-- An atom of a chunk. -/
theorem mpliteBlock_atom {j : ℕ} :
    Extent.Within (mpliteBlock buf j 0) (mpliteBlock buf i k) ↔ i ≤ j ∧ j < i + 2 ^ k := by
  unfold Extent.Within mpliteBlock mpliteMinAlloc
  simp only [Nat.pow_zero]
  omega

theorem MpliteBlocks.within (h : MpliteBlocks tile buf live) (htiled : Tiled n tile)
    (he : e ∈ live) : Extent.Within e ⟨buf, mpliteMinAlloc * n⟩ := by
  obtain ⟨i, k, hi, rfl⟩ := h.mem.mp he
  have hwithin : i + 2 ^ k ≤ n := htiled.within (liveLog_eq_some.mp hi)
  exact mpliteBlock_within hwithin

theorem MpliteBlocks.apart (h : MpliteBlocks tile buf live) (htiled : Tiled n tile) :
    live.Pairwise Extent.Disjoint := by
  refine h.nodup.imp_of_mem fun {e e'} he he' hne => ?_
  obtain ⟨i, k, hi, rfl⟩ := h.mem.mp he
  obtain ⟨j, l, hj, rfl⟩ := h.mem.mp he'
  rw [mpliteBlock_disjoint]
  rcases Nat.lt_trichotomy i j with hlt | rfl | hgt
  · exact Or.inl (htiled.apart (liveLog_eq_some.mp hi) (liveLog_eq_some.mp hj) hlt)
  · obtain rfl := Option.some.inj (hi.symm.trans hj)
    exact absurd rfl hne
  · exact Or.inr (htiled.apart (liveLog_eq_some.mp hj) (liveLog_eq_some.mp hi) hgt)

theorem MpliteBlocks.pos (h : MpliteBlocks tile buf live) (he : e ∈ live) : 64 ≤ e.len := by
  obtain ⟨i, k, -, rfl⟩ := h.mem.mp he
  have hpos := Nat.two_pow_pos k
  unfold mpliteBlock mpliteMinAlloc
  simp only
  omega

/-- The blocks in use are no more than the pool. -/
theorem MpliteBlocks.total_le (h : MpliteBlocks tile buf live) (htiled : Tiled n tile) :
    Extent.total live ≤ mpliteMinAlloc * n :=
  Extent.total_le_of_within (h.apart htiled) fun _ he => h.within htiled he

/-- A chunk that is taken into use. -/
theorem MpliteBlocks.take {tile' : ℕ → Option Tile} (h : MpliteBlocks tile buf live)
    (hnone : liveLog tile i = none)
    (hlive : liveLog tile' = Function.update (liveLog tile) i (some k)) :
    MpliteBlocks tile' buf (mpliteBlock buf i k :: live) := by
  have hnew : mpliteBlock buf i k ∉ live := fun hmem => by
    obtain ⟨j, l, hj, heq⟩ := h.mem.mp hmem
    obtain rfl := mpliteBlock_inj heq
    exact absurd (hj.symm.trans hnone) (by simp)
  refine ⟨List.nodup_cons.mpr ⟨hnew, h.nodup⟩, fun {e} => ?_⟩
  rw [List.mem_cons, h.mem, hlive]
  constructor
  · rintro (rfl | ⟨j, l, hj, rfl⟩)
    · exact ⟨i, k, Function.update_self .., rfl⟩
    · have hne : j ≠ i := fun heq => absurd ((heq ▸ hj).symm.trans hnone) (by simp)
      exact ⟨j, l, by rw [Function.update_of_ne hne]; exact hj, rfl⟩
  · rintro ⟨j, l, hj, rfl⟩
    by_cases heq : j = i
    · subst heq
      rw [Function.update_self, Option.some.injEq] at hj
      exact Or.inl (by rw [hj])
    · rw [Function.update_of_ne heq] at hj
      exact Or.inr ⟨j, l, hj, rfl⟩

/-- A chunk that is taken out of use. -/
theorem MpliteBlocks.drop {tile' : ℕ → Option Tile} (h : MpliteBlocks tile buf live)
    (hlive : liveLog tile' = Function.update (liveLog tile) i none) :
    MpliteBlocks tile' buf (releaseBlock (mpliteBlock buf i k).ptr live) := by
  have hsame : ∀ {j l}, (mpliteBlock buf j l).ptr = (mpliteBlock buf i k).ptr ↔ j = i := by
    intro j l
    unfold mpliteBlock mpliteMinAlloc
    simp only
    omega
  refine ⟨h.nodup.filter _, fun {e} => ?_⟩
  rw [mem_releaseBlock, h.mem, hlive]
  constructor
  · rintro ⟨⟨j, l, hj, rfl⟩, hne⟩
    refine ⟨j, l, ?_, rfl⟩
    rw [Function.update_of_ne fun heq => hne (hsame.mpr heq)]
    exact hj
  · rintro ⟨j, l, hj, rfl⟩
    have hne : j ≠ i := by
      rintro rfl
      rw [Function.update_self] at hj
      exact absurd hj (by simp)
    rw [Function.update_of_ne hne] at hj
    exact ⟨⟨j, l, hj, rfl⟩, fun heq => hne (hsame.mp heq)⟩

/-- **Room for a chunk.** There is a free chunk of a size or a larger one iff some place for a
chunk of that size overlaps no block in use. -/
theorem MpliteBlocks.room_iff (h : MpliteBlocks tile buf live) (htiled : Tiled n tile)
    (hmerged : Merged (freeLog tile)) (k : ℕ) :
    (∃ i l, freeLog tile i = some l ∧ k ≤ l) ↔
      ∃ a, 2 ^ k ∣ a ∧ a + 2 ^ k ≤ n ∧ ∀ e ∈ live, Extent.Disjoint e (mpliteBlock buf a k) := by
  constructor
  · rintro ⟨i, l, hi, hkl⟩
    have hi' := freeLog_eq_some.mp hi
    have hpow : 2 ^ k ≤ 2 ^ l := Nat.pow_le_pow_right (by decide) hkl
    have hwithin : i + 2 ^ l ≤ n := htiled.within hi'
    have hdvd : 2 ^ l ∣ i := htiled.aligned hi'
    refine ⟨i, Nat.dvd_trans (Nat.pow_dvd_pow 2 hkl) hdvd, by omega, fun e he => ?_⟩
    obtain ⟨j, m, hj, rfl⟩ := h.mem.mp he
    have hj' := liveLog_eq_some.mp hj
    rw [mpliteBlock_disjoint]
    rcases Nat.lt_trichotomy i j with hlt | rfl | hgt
    · have hapart : i + 2 ^ l ≤ j := htiled.apart hi' hj' hlt
      omega
    · exact absurd (hi'.symm.trans hj') (by simp)
    · exact Or.inl (htiled.apart hj' hi' hgt)
  · rintro ⟨a, hdvd, hroom, hapart⟩
    obtain ⟨i, l, hi, hkl, -⟩ := htiled.free_of_run hmerged k hdvd hroom fun {i t} hi hlt hlt' => by
      -- a chunk in use would overlap the place
      by_contra hused
      have hlive : liveLog tile i = some t.log := by
        rw [liveLog_eq_some, hi, ← Bool.eq_false_iff.mpr hused]
      have hdisjoint := hapart _ (h.mem.mpr ⟨i, t.log, hlive, rfl⟩)
      rw [mpliteBlock_disjoint] at hdisjoint
      omega
    exact ⟨i, l, hi, hkl⟩

/-- The data of a block in use are the data of a chunk in use, -/
theorem MpliteBlocks.chunkData (h : MpliteBlocks tile buf live) (he : e ∈ live) {j : ℕ}
    (hj : Extent.Within (mpliteBlock buf j 0) e) : ChunkData tile none j := by
  obtain ⟨i, k, hi, rfl⟩ := h.mem.mp he
  obtain ⟨hle, hlt⟩ := mpliteBlock_atom.mp hj
  exact ⟨i, k, by simp, hi, hle, hlt⟩

/-- and of a chunk other than the one that is freed, if its block is. -/
theorem MpliteBlocks.chunkData_release (h : MpliteBlocks tile buf live)
    (he : e ∈ releaseBlock (mpliteBlock buf i k).ptr live) {j : ℕ}
    (hj : Extent.Within (mpliteBlock buf j 0) e) : ChunkData tile (some i) j := by
  obtain ⟨hmem, hne⟩ := mem_releaseBlock.mp he
  obtain ⟨c, l, hc, rfl⟩ := h.mem.mp hmem
  obtain ⟨hle, hlt⟩ := mpliteBlock_atom.mp hj
  refine ⟨c, l, fun heq => hne ?_, hc, hle, hlt⟩
  rw [Option.some.inj heq]
  rfl

/-- The blocks in use are the one that is freed and the others. -/
theorem MpliteBlocks.perm (h : MpliteBlocks tile buf live) (htiled : Tiled n tile) (he : e ∈ live) :
    live.Perm (e :: releaseBlock e.ptr live) := by
  have hperm := List.perm_cons_erase he
  have hpos : ∀ e ∈ live, 0 < e.len := fun e he => Nat.lt_of_lt_of_le (by decide) (h.pos he)
  exact hperm.trans ((release_perm hperm (h.apart htiled) hpos).symm.cons e)

end Blocks

section Steps

theorem MpliteOk.szAtom (h : MpliteOk buf n handle live) : handle.szAtom = 64 :=
  congrArg Prod.fst h.place

theorem MpliteOk.nBlock (h : MpliteOk buf n handle live) : handle.nBlock = n :=
  congrArg (fun place => place.2.1) h.place

theorem MpliteOk.zPool (h : MpliteOk buf n handle live) : handle.zPool = buf :=
  congrArg (fun place => place.2.2) h.place

theorem MpliteOk.within (h : MpliteOk buf n handle live) (he : e ∈ live) :
    Extent.Within e ⟨buf, mpliteMinAlloc * n⟩ ∧ mpliteMinAlloc ∣ e.ptr - buf := by
  obtain ⟨tile, hpool, -, hblocks⟩ := h.chunks
  refine ⟨hblocks.within (h.nBlock ▸ hpool.tiled) he, ?_⟩
  obtain ⟨i, k, -, rfl⟩ := hblocks.mem.mp he
  exact ⟨i, by rw [mpliteBlock, Nat.add_sub_cancel_left, Nat.mul_comm]⟩

theorem MpliteOk.ptr_ne (h : MpliteOk buf n handle live) (he : e ∈ live) : e.ptr ≠ 0 := by
  have hlo := (h.within he).1.1
  have hbuf := h.pos
  simp only at hlo
  omega

theorem MpliteOk.apart (h : MpliteOk buf n handle live) : live.Pairwise Extent.Disjoint := by
  obtain ⟨tile, hpool, -, hblocks⟩ := h.chunks
  exact hblocks.apart hpool.tiled

theorem MpliteOk.pos_len (h : MpliteOk buf n handle live) (he : e ∈ live) : 0 < e.len := by
  obtain ⟨tile, -, -, hblocks⟩ := h.chunks
  exact Nat.lt_of_lt_of_le (by decide) (hblocks.pos he)

/-- No place for a chunk of `2 ^ k` atoms is apart from all blocks in use. -/
def MpliteNoRoom (buf n : ℕ) (live : List Extent) (k : ℕ) : Prop :=
  ∀ a, 2 ^ k ∣ a → a + 2 ^ k ≤ n → ∃ e ∈ live, ¬ Extent.Disjoint e (mpliteBlock buf a k)

/-- A request returns, and what it returns joins the blocks in use. It is refused if it is too
large or there is no room. -/
theorem MpliteOk.mallocUnsafe (h : MpliteOk buf n handle live) {m : ℕ} (hm : 0 < m) :
    ∃ p handle', mpliteMallocUnsafe m handle = some (p, handle') ∧
      MpliteOk buf n handle' (p.elim live fun q => ⟨q, mpliteFullSz m⟩ :: live) ∧
      (∀ e ∈ live, SameAtoms buf e handle handle') ∧
      (p = none ↔ mpliteMaxAllocSize < m ∨ MpliteNoRoom buf n live (mpliteLogsize m)) := by
  obtain ⟨tile, hpool, hneat, hblocks⟩ := h.chunks
  have htiled : Tiled n tile := h.nBlock ▸ hpool.tiled
  have hroom := hblocks.room_iff htiled hneat.merged (mpliteLogsize m)
  rcases hpool.malloc_eq hneat h.szAtom hm with ⟨hrefused, hcall⟩ | ⟨⟨hmax, hfree⟩, i, aiFreelist,
    links, aCtrl, hcall⟩
  · refine ⟨none, _, hcall, ⟨h.pos, h.place, h.small, ⟨tile, hpool.congr rfl rfl rfl,
      ⟨hneat.merged, hneat.full⟩, hblocks⟩, h.count, h.out⟩, fun e he i hi => rfl, ?_⟩
    simp only [true_iff]
    refine hrefused.imp_right fun hall a hdvd hle => ?_
    by_contra hno
    push Not at hno
    obtain ⟨i, l, hi, hl⟩ := hroom.mpr ⟨a, hdvd, hle, hno⟩
    exact absurd (hall i l hi) (Nat.not_lt.mpr hl)
  · obtain ⟨hplace, ⟨hnone, -⟩ | ⟨i', k, tile', hp, -, hpool', hdead, hlive, hneat', hdata,
      hfull⟩⟩ := hpool.malloc hcall
    · exact absurd hnone (by simp)
    have hlog : mpliteLogsize m ≤ 24 := le_mpliteLogsize.mp hmax
    have hsize := mpliteFullSzLoop_eq m 32 0 (Nat.zero_le _) (by omega)
    rw [Nat.pow_zero, Nat.mul_one, ← h.szAtom, hfull, Option.some.injEq, Prod.mk.injEq] at hsize
    obtain ⟨-, rfl⟩ := hsize
    obtain rfl : i = i' := by
      have hptr := Option.some.inj hp
      rw [h.szAtom] at hptr
      omega
    have hblocks' := hblocks.take hdead hlive
    have hnBlock' : handle.nBlock = n := h.nBlock
    have htotal := hblocks'.total_le (hnBlock' ▸ hpool'.tiled)
    have hlength := Extent.length_le_total fun e he =>
      Nat.lt_of_lt_of_le (by decide : 0 < 64) (hblocks'.pos he)
    have hblock : (⟨handle.zPool + i * handle.szAtom, mpliteFullSz m⟩ : Extent) =
        mpliteBlock buf i (mpliteLogsize m) := by
      rw [h.zPool, h.szAtom]
      rfl
    have hsmall := h.small
    have hlen : (mpliteBlock buf i (mpliteLogsize m)).len = 64 * 2 ^ mpliteLogsize m := rfl
    have hatom : mpliteMinAlloc = 64 := rfl
    rw [Extent.total_cons, hlen, hatom] at htotal
    rw [Extent.total_cons, List.length_cons, hlen] at hlength
    refine ⟨some _, _, hcall, ?_, fun e he j hj => hdata j (hblocks.chunkData he hj), ?_⟩
    · -- the pool is too small for the counters to overflow
      simp only [Option.elim_some, hblock]
      refine ⟨h.pos, hplace.trans h.place, h.small, ⟨tile', hpool', hneat' hneat, hblocks'⟩, ?_, ?_⟩
      · show Word.wrap 32 (handle.currentCount + 1) = _
        rw [h.count, Word.wrap_of_lt (by omega), List.length_cons]
      · show Word.wrap 32 (handle.currentOut + handle.szAtom * 2 ^ mpliteLogsize m) = _
        rw [h.out, h.szAtom, Word.wrap_of_lt (by omega), Extent.total_cons, Nat.add_comm]
        rfl
    · simp only [reduceCtorEq, false_iff, not_or, MpliteNoRoom]
      refine ⟨Nat.not_lt.mpr hmax, fun hall => ?_⟩
      obtain ⟨a, hdvd, hle, happart⟩ := hroom.mp hfree
      obtain ⟨e, he, hno⟩ := hall a hdvd hle
      exact hno (happart e he)

theorem MpliteOk.malloc (h : MpliteOk buf n handle live) (nBytes : ℤ) :
    ∃ p handle', mpliteMalloc nBytes handle = some (p, handle') ∧
      MpliteOk buf n handle' (p.elim live fun q => ⟨q, mpliteFullSz nBytes.toNat⟩ :: live) ∧
      (∀ e ∈ live, SameAtoms buf e handle handle') ∧
      (p = none ↔ nBytes ≤ 0 ∨ mpliteMaxAllocSize < nBytes ∨
        MpliteNoRoom buf n live (mpliteLogsize nBytes.toNat)) := by
  by_cases hpos : nBytes ≤ 0
  · exact ⟨none, handle, if_pos hpos, h, fun _ _ _ _ => rfl, by simp [hpos]⟩
  · obtain ⟨p, handle', hcall, hok, hkept, hrefused⟩ :=
      h.mallocUnsafe (m := nBytes.toNat) (by omega)
    have hcast : (mpliteMaxAllocSize : ℤ) < nBytes ↔ mpliteMaxAllocSize < nBytes.toNat := by omega
    refine ⟨p, handle', (if_neg hpos).trans hcall, hok, hkept, ?_⟩
    rw [hcast, hrefused, or_iff_right hpos]

/-- A block in use can be freed, and the others stay in use. -/
theorem MpliteOk.freeUnsafe (h : MpliteOk buf n handle live) (he : e ∈ live) :
    ∃ handle', mpliteFreeUnsafe e.ptr handle = some handle' ∧
      MpliteOk buf n handle' (releaseBlock e.ptr live) ∧
      ∀ e' ∈ releaseBlock e.ptr live, SameAtoms buf e' handle handle' := by
  obtain ⟨tile, hpool, hneat, hblocks⟩ := h.chunks
  have htiled : Tiled n tile := h.nBlock ▸ hpool.tiled
  have hpos : ∀ e' ∈ releaseBlock e.ptr live, 0 < e'.len := fun e' he' =>
    Nat.lt_of_lt_of_le (by decide) (hblocks.pos (mem_releaseBlock.mp he').1)
  have hperm := hblocks.perm htiled he
  have htotal := hblocks.total_le htiled
  -- the block that is freed is counted, and the counters are both zero if it is the last one
  have hlength := hperm.length_eq
  have hsum := Extent.total_perm hperm
  have hrest := Extent.length_le_total hpos
  have hempty : (releaseBlock e.ptr live).length = 0 → Extent.total (releaseBlock e.ptr live) = 0 :=
    fun hzero => by rw [List.length_eq_zero_iff.mp hzero, Extent.total_nil]
  rw [List.length_cons] at hlength
  rw [Extent.total_cons] at hsum
  obtain ⟨i, k, hi, rfl⟩ := hblocks.mem.mp he
  have hptr : (mpliteBlock buf i k).ptr = handle.zPool + i * handle.szAtom := by
    rw [h.zPool, h.szAtom]
    rfl
  have hout : Word.wrap 32 (2 ^ k * handle.szAtom) = (mpliteBlock buf i k).len := by
    have hlen : (mpliteBlock buf i k).len = 2 ^ k * 64 := Nat.mul_comm ..
    have hsmall := h.small
    have hatom : mpliteMinAlloc = 64 := rfl
    rw [hatom] at htotal
    rw [h.szAtom, hlen, Word.wrap_of_lt (by omega)]
  have hcount := h.count
  have hcurrent := h.out
  obtain ⟨aiFreelist, links, aCtrl, hcall⟩ := hpool.free_eq (by rw [h.szAtom]; decide) hi
    (by omega) (by rw [hout]; omega) (by rw [hout]; omega)
  obtain ⟨hplace, tile', hpool', hlive, hneat', hdata⟩ :=
    hpool.free (by rw [h.szAtom]; decide) hi hcall
  refine ⟨_, by rw [hptr]; exact hcall, ⟨h.pos, hplace.trans h.place, h.small, ⟨tile', hpool',
    hneat' hneat, hblocks.drop hlive⟩, ?_, ?_⟩, fun e' he' j hj =>
    hdata j (hblocks.chunkData_release he' hj)⟩
  · show handle.currentCount - 1 = _
    omega
  · show handle.currentOut - Word.wrap 32 (2 ^ k * handle.szAtom) = _
    rw [hout]
    omega

/-- Writes to the blocks in use touch no list. -/
theorem MpliteOk.write (h : MpliteOk buf n handle live) (links : ℕ → MpliteLink)
    (heq : ∀ i, (∀ e ∈ live, ¬ Extent.Within (mpliteBlock buf i 0) e) → links i = handle.links i) :
    MpliteOk buf n { handle with links := links } live := by
  obtain ⟨tile, hpool, hneat, hblocks⟩ := h.chunks
  have hon : ∀ {i k}, freeLog tile i = some k → links i = handle.links i := fun hi =>
    heq _ fun e he hwithin => hpool.not_data_of_on hi (hblocks.chunkData he hwithin)
  have hsame : ∀ {i k}, freeLog tile i = some k →
      (handle.relink handle.aiFreelist links).lists.next i = handle.lists.next i ∧
        (handle.relink handle.aiFreelist links).lists.prev i = handle.lists.prev i := fun hi =>
    ⟨congrArg (fun link : MpliteLink => mpliteIndex link.next) (hon hi),
      congrArg (fun link : MpliteLink => mpliteIndex link.prev) (hon hi)⟩
  refine ⟨h.pos, h.place, h.small, ⟨tile, ⟨hpool.tiled, hpool.small, ?_, hpool.ctrl⟩,
    ⟨hneat.merged, ?_⟩, hblocks⟩, h.count, h.out⟩
  · exact hpool.lists.congr rfl hsame
  · exact hneat.full.congr hpool.lists rfl fun hi => (hsame hi).1

theorem toInt32_natCast {m : ℕ} (h : m < 2 ^ 31) : toInt32 (m : ℤ) = m := by
  rw [toInt32, Int.bmod_eq_of_le] <;> omega

/-- The size that is reported is that of the chunk. -/
theorem MpliteOk.size (h : MpliteOk buf n handle live) (he : e ∈ live) :
    mpliteSize e.ptr handle = some (e.len : ℤ) := by
  obtain ⟨tile, hpool, -, hblocks⟩ := h.chunks
  obtain ⟨i, k, hi, rfl⟩ := hblocks.mem.mp he
  have hi' := liveLog_eq_some.mp hi
  have hpos := Nat.two_pow_pos k
  have hwithin : i + 2 ^ k ≤ n := h.nBlock ▸ hpool.tiled.within hi'
  have hsmall := h.small
  have hbyte : handle.aCtrl i &&& mpliteCtrlLogsize = k := by
    have hctrl : handle.aCtrl i = k := hpool.ctrl hi' (by simp)
    rw [hctrl]
    exact (mpliteCtrl_live (hpool.log_le hi')).1
  have hptr : (mpliteBlock buf i k).ptr = buf + i * 64 := rfl
  have hlen : (mpliteBlock buf i k).len = 64 * 2 ^ k := rfl
  have hne : buf + i * 64 ≠ 0 := by
    have hbuf := h.pos
    omega
  have hindex : toInt32 ((((buf + i * 64 : ℕ) : ℤ) - (buf : ℤ)).tdiv ((64 : ℕ) : ℤ)) = i := by
    have hoffset : ((buf + i * 64 : ℕ) : ℤ) - (buf : ℤ) = (i : ℤ) * ((64 : ℕ) : ℤ) := by
      push_cast
      ring
    rw [hoffset, Int.mul_tdiv_cancel _ (by decide), toInt32_natCast (by omega)]
  have hvalue : toInt32 (((64 : ℕ) : ℤ) * 2 ^ k) = ((64 * 2 ^ k : ℕ) : ℤ) := by
    have hcast : ((64 : ℕ) : ℤ) * 2 ^ k = ((64 * 2 ^ k : ℕ) : ℤ) := by push_cast; rfl
    rw [hcast, toInt32_natCast (by omega)]
  rw [hptr, hlen, mpliteSize, if_neg hne, h.zPool, h.szAtom, h.nBlock]
  simp only [hindex, Int.toNat_natCast, hbyte, hvalue]
  rw [if_pos (by omega)]

/-- The atoms of a chunk are copied to another one. -/
theorem MpliteOk.memcpy (h : MpliteOk buf n handle live) (i j k l : ℕ) :
    mpliteMemcpy (mpliteBlock buf j l).ptr (mpliteBlock buf i k).ptr (mpliteBlock buf i k).len
        handle =
      { handle with links := fun c =>
          if j ≤ c ∧ c < j + 2 ^ k then handle.links (i + (c - j)) else handle.links c } := by
  have hatoms : ∀ c, (buf + c * 64 - buf) / 64 = c := fun c => by omega
  have hlen : 64 * 2 ^ k / 64 = 2 ^ k := Nat.mul_div_cancel_left _ (by decide)
  unfold mpliteMemcpy mpliteBlock mpliteMinAlloc
  simp only [h.zPool, h.szAtom, hatoms, hlen]

/-- What a resize of a block in use does: it is refused unless the size is a power of two. -/
theorem MpliteOk.realloc_eq (h : MpliteOk buf n handle live) (he : e ∈ live) (nBytes : ℤ) :
    mpliteRealloc e.ptr nBytes handle =
      if nBytes.toNat.isPowerOfTwo then
        if nBytes ≤ e.len then some (some e.ptr, handle)
        else do
          let (p, handle) ← mpliteMallocUnsafe nBytes.toNat handle
          match p with
          | none => some (none, handle)
          | some p => do
            let handle ← mpliteFreeUnsafe e.ptr (mpliteMemcpy p e.ptr e.len handle)
            some (some p, handle)
      else some (none, handle) := by
  have hne := h.ptr_ne he
  have hrefused : (e.ptr = 0 ∨ nBytes ≤ 0 ∨ nBytes.toNat &&& (nBytes.toNat - 1) ≠ 0) ↔
      ¬ nBytes.toNat.isPowerOfTwo := by
    have hzero : nBytes ≤ 0 ↔ nBytes.toNat = 0 := by omega
    rw [← Nat.ne_zero_and_sub_one_eq_zero_iff_isPowerOfTwo, hzero]
    tauto
  by_cases hpow : nBytes.toNat.isPowerOfTwo
  · rw [mpliteRealloc, if_neg (fun hbad => hrefused.mp hbad hpow), if_pos hpow, h.size he]
    rfl
  · rw [mpliteRealloc, if_pos (hrefused.mpr hpow), if_neg hpow]

/-- The contents of a block in use move to a new block, and the block is freed. -/
theorem MpliteOk.move {q len : ℕ} (h : MpliteOk buf n handle (⟨q, len⟩ :: live)) (he : e ∈ live)
    (hlen : e.len ≤ len) : ∃ handle',
      mpliteFreeUnsafe e.ptr (mpliteMemcpy q e.ptr e.len handle) = some handle' ∧
      MpliteOk buf n handle' (⟨q, len⟩ :: releaseBlock e.ptr live) ∧
      (∀ e' ∈ releaseBlock e.ptr live, SameAtoms buf e' handle handle') ∧
      AtomsMoved buf e q handle handle' := by
  obtain ⟨tile, hpool, -, hblocks⟩ := h.chunks
  have hapart := (List.pairwise_cons.mp (hblocks.apart hpool.tiled)).1
  obtain ⟨j, l, hj, hnew⟩ := hblocks.mem.mp List.mem_cons_self
  obtain ⟨i, k, hi, rfl⟩ := hblocks.mem.mp (List.mem_cons_of_mem _ he)
  obtain ⟨rfl, rfl⟩ : q = (mpliteBlock buf j l).ptr ∧ len = (mpliteBlock buf j l).len :=
    ⟨congrArg Extent.ptr hnew, congrArg Extent.len hnew⟩
  have hpow : 2 ^ k ≤ 2 ^ l := by
    unfold mpliteBlock mpliteMinAlloc at hlen
    simp only at hlen
    omega
  have hne : (mpliteBlock buf j l).ptr ≠ (mpliteBlock buf i k).ptr := by
    have hpos := Nat.two_pow_pos k
    have hdisjoint := mpliteBlock_disjoint.mp (hapart _ he)
    have hpos' := Nat.two_pow_pos l
    unfold mpliteBlock mpliteMinAlloc
    simp only
    omega
  have hrelease : releaseBlock (mpliteBlock buf i k).ptr (mpliteBlock buf j l :: live) =
      mpliteBlock buf j l :: releaseBlock (mpliteBlock buf i k).ptr live :=
    List.filter_cons_of_pos (by simpa using hne)
  -- the copy is a write to the new block
  have hcopied := h.write
    (fun c => if j ≤ c ∧ c < j + 2 ^ k then handle.links (i + (c - j)) else handle.links c)
    fun c hc => if_neg fun hin => hc _ List.mem_cons_self (mpliteBlock_atom.mpr (by omega))
  obtain ⟨handle', hfree, hok, hkept⟩ := hcopied.freeUnsafe (List.mem_cons_of_mem _ he)
  rw [hrelease] at hok hkept
  refine ⟨handle', by rw [h.memcpy]; exact hfree, hok, fun e' he' c hc => ?_, ?_⟩
  · refine (hkept e' (List.mem_cons_of_mem _ he') c hc).trans (if_neg fun hin => ?_)
    obtain ⟨i', k', -, rfl⟩ := hblocks.mem.mp (List.mem_cons_of_mem _ (mem_releaseBlock.mp he').1)
    have hdisjoint := mpliteBlock_disjoint.mp (hapart _ (mem_releaseBlock.mp he').1)
    have hc := mpliteBlock_atom.mp hc
    omega
  · intro i' j' x hi' hj' hx
    obtain rfl : i' = i := by
      unfold mpliteBlock at hi'
      simp only [mpliteMinAlloc] at hi'
      omega
    obtain rfl : j' = j := by
      unfold mpliteBlock at hj'
      simp only [mpliteMinAlloc] at hj'
      omega
    have hx := mpliteBlock_atom.mp hx
    have hmoved := hkept _ List.mem_cons_self (j' + x) (mpliteBlock_atom.mpr (by omega))
    rw [hmoved]
    simp only
    rw [if_pos (by omega), Nat.add_sub_cancel_left]

/-- A block in use can be resized: it stays, or its contents move to a new block. -/
theorem MpliteOk.realloc (h : MpliteOk buf n handle live) (he : e ∈ live) (nBytes : ℤ) :
    ∃ p handle', mpliteRealloc e.ptr nBytes handle = some (p, handle') ∧
      MpliteOk buf n handle' (p.elim live fun q =>
        if q = e.ptr then live else ⟨q, mpliteFullSz nBytes.toNat⟩ :: releaseBlock e.ptr live) ∧
      (∀ e' ∈ releaseBlock e.ptr live, SameAtoms buf e' handle handle') ∧
      (p = none → SameAtoms buf e handle handle') ∧
      (p = none ↔ ¬ nBytes.toNat.isPowerOfTwo ∨ e.len < nBytes ∧
        (mpliteMaxAllocSize < nBytes ∨ MpliteNoRoom buf n live (mpliteLogsize nBytes.toNat))) ∧
      (p = some e.ptr ↔ nBytes.toNat.isPowerOfTwo ∧ nBytes ≤ e.len) ∧
      ∀ q, p = some q → AtomsMoved buf e q handle handle' ∧ (q ≠ e.ptr →
        ∀ e' ∈ live, Extent.Disjoint ⟨q, mpliteFullSz nBytes.toNat⟩ e') := by
  rw [h.realloc_eq he]
  by_cases hpow : nBytes.toNat.isPowerOfTwo
  swap
  · rw [if_neg hpow]
    exact ⟨none, handle, rfl, h, fun _ _ _ _ => rfl, fun _ _ _ => rfl, by simp [hpow],
      by simp [hpow], fun q hq => absurd hq (by simp)⟩
  rw [if_pos hpow]
  by_cases hfits : nBytes ≤ e.len
  · -- the block is large enough
    rw [if_pos hfits]
    refine ⟨some e.ptr, handle, rfl, ?_, fun _ _ _ _ => rfl, fun _ _ _ => rfl,
      ?_, by simp [hpow, hfits], fun q hq => ?_⟩
    · rw [Option.elim_some, if_pos rfl]
      exact h
    · simp [hpow, Int.not_lt.mpr hfits]
    · obtain rfl := Option.some.inj hq
      refine ⟨fun i j x hi hj _ => ?_, fun hne => absurd rfl hne⟩
      obtain rfl : i = j := by
        unfold mpliteMinAlloc at hi hj
        omega
      rfl
  rw [if_neg hfits]
  have hpos : 0 < nBytes.toNat := by omega
  obtain ⟨p, handle1, hmalloc, hok1, hkept1, hrefused⟩ := h.mallocUnsafe hpos
  have hcast : (mpliteMaxAllocSize : ℤ) < nBytes ↔ mpliteMaxAllocSize < nBytes.toNat := by omega
  simp only [bind, hmalloc, Option.bind_some]
  cases p with
  | none =>
    refine ⟨none, handle1, rfl, hok1, fun e' he' => hkept1 e' (mem_releaseBlock.mp he').1,
      fun _ => hkept1 e he, ?_, by simp [hfits], fun q hq => absurd hq (by simp)⟩
    have hroom := hrefused.mp rfl
    rw [hcast]
    simp only [true_iff]
    exact Or.inr ⟨Int.not_le.mp hfits, hroom⟩
  | some q =>
    have hlen : e.len ≤ mpliteFullSz nBytes.toNat := by
      have hle := le_mpliteFullSz nBytes.toNat
      omega
    obtain ⟨handle', hfree, hok, hkept, hmoved⟩ := hok1.move he hlen
    have hapart := (List.pairwise_cons.mp hok1.apart).1
    have hne : q ≠ e.ptr := by
      have hdisjoint := hapart e he
      have hpos := h.pos_len he
      unfold Extent.Disjoint at hdisjoint
      simp only at hdisjoint
      omega
    refine ⟨some q, handle', by simp [hfree], ?_, fun e' he' i hi => ?_, by simp, ?_, ?_,
      fun q' hq => ?_⟩
    · rw [Option.elim_some, if_neg hne]
      exact hok
    · exact (hkept e' he' i hi).trans (hkept1 e' (mem_releaseBlock.mp he').1 i hi)
    · rw [hcast]
      have hroom : ¬ (mpliteMaxAllocSize < nBytes.toNat ∨
          MpliteNoRoom buf n live (mpliteLogsize nBytes.toNat)) := fun hno =>
        absurd (hrefused.mpr hno) (by simp)
      refine iff_of_false (by simp) ?_
      rintro (hno | ⟨-, hno⟩)
      · exact hno hpow
      · exact hroom hno
    · simp [hfits, hne]
    · obtain rfl := Option.some.inj hq
      refine ⟨fun i j x hi hj hx => ?_, fun _ => hapart⟩
      exact (hmoved i j x hi hj hx).trans (hkept1 e he _ hx)

/-- A pool that was just set up has no block in use. -/
theorem MpliteOk.init {addr : ℕ} {bufSize : ℤ} {raw : Mplite} (hlt : bufSize < 2 ^ 31)
    (h : mpliteInit addr buf bufSize mpliteMinAlloc raw = some (0, handle)) :
    MpliteOk buf (mpliteNumBlocks bufSize) handle [] := by
  obtain ⟨hpos, hplace, tile, hpool, hlive, hneat⟩ := mpliteInit_neat hlt h
  obtain ⟨hbuf, hcount, hout⟩ := mpliteInit_counts h
  refine ⟨hbuf, hplace, ?_, ⟨tile, hpool, hneat, List.nodup_nil, fun {e} => ?_⟩, hcount, hout⟩
  · unfold mpliteNumBlocks
    omega
  · rw [hlive]
    simp

/-- A free of a block in use takes the chunk out of use. -/
theorem MpliteOk.free (h : MpliteOk buf n handle live) (he : e ∈ live) :
    ∃ handle', mpliteFree e.ptr handle = some handle' ∧
      MpliteOk buf n handle' (releaseBlock e.ptr live) ∧
      ∀ e' ∈ releaseBlock e.ptr live, SameAtoms buf e' handle handle' := by
  rw [mpliteFree, if_neg (h.ptr_ne he)]
  exact h.freeUnsafe he

end Steps

section Results

variable {bufSize : ℤ}

/-- **The invariant**: the pool keeps its form along every run. -/
theorem MpliteRun.ok (hrun : MpliteRun buf bufSize handle live) :
    MpliteOk buf (mpliteNumBlocks bufSize) handle live := by
  induction hrun with
  | init hlt hinit => exact MpliteOk.init hlt hinit
  | @malloc handle handle' live nBytes p _ hcall ih =>
    obtain ⟨p1, handle1, hcall1, hok, -⟩ := ih.malloc nBytes
    obtain ⟨rfl, rfl⟩ := Prod.mk.inj (Option.some.inj (hcall1.symm.trans hcall))
    exact hok
  | free _ he hcall ih =>
    obtain ⟨handle1, hcall1, hok, -⟩ := ih.free he
    obtain rfl := Option.some.inj (hcall1.symm.trans hcall)
    exact hok
  | @realloc handle handle' live e nBytes p _ he hcall ih =>
    obtain ⟨p1, handle1, hcall1, hok, -⟩ := ih.realloc he nBytes
    obtain ⟨rfl, rfl⟩ := Prod.mk.inj (Option.some.inj (hcall1.symm.trans hcall))
    exact hok
  | write _ heq ih => exact ih.write _ heq

/-- A run that takes ten bytes of a pool of four atoms. -/
theorem mpliteRun_four : ∃ handle, MpliteRun 1000 260 handle [⟨1000, 64⟩] := by
  have hcall : ((mpliteInit 1 1000 260 mpliteMinAlloc Mplite.raw).bind fun x =>
      (mpliteMalloc 10 x.2).map fun y => (x.1, y.1)) = some (0, some 1000) := by decide
  obtain ⟨⟨ret, handle0⟩, hinit, hrest⟩ := Option.bind_eq_some_iff.mp hcall
  obtain ⟨⟨p, handle⟩, hmalloc, heq⟩ := Option.map_eq_some_iff.mp hrest
  obtain ⟨rfl, rfl⟩ := Prod.mk.inj heq
  exact ⟨handle, .malloc (.init (by decide) hinit) hmalloc⟩

/-- **No call fails, and blocks in use lie apart.** In every state that a run reaches, the blocks
in use are chunks of the pool, which lie apart. Every further request returns, and a block that
it returns is large enough, in the pool and apart from all blocks in use. Every block in use can
be freed. No call changes the contents of the blocks in use. -/
theorem mpliteRun_safe (hrun : MpliteRun buf bufSize handle live) :
    (∀ e ∈ live, Extent.Within e ⟨buf, mpliteMinAlloc * mpliteNumBlocks bufSize⟩ ∧
        mpliteMinAlloc ∣ e.ptr - buf) ∧
      live.Pairwise Extent.Disjoint ∧
      (∀ nBytes, ∃ p handle', mpliteMalloc nBytes handle = some (p, handle') ∧
        (∀ e ∈ live, SameAtoms buf e handle handle') ∧
        ∀ q, p = some q → nBytes ≤ mpliteFullSz nBytes.toNat ∧
          Extent.Within ⟨q, mpliteFullSz nBytes.toNat⟩
            ⟨buf, mpliteMinAlloc * mpliteNumBlocks bufSize⟩ ∧ mpliteMinAlloc ∣ q - buf ∧
          ∀ e ∈ live, Extent.Disjoint ⟨q, mpliteFullSz nBytes.toNat⟩ e) ∧
      ∀ e ∈ live, ∃ handle', mpliteFree e.ptr handle = some handle' ∧
        ∀ e' ∈ releaseBlock e.ptr live, SameAtoms buf e' handle handle' := by
  have hok := hrun.ok
  refine ⟨fun e he => hok.within he, hok.apart, fun nBytes => ?_, fun e he => ?_⟩
  · obtain ⟨p, handle', hcall, hok', hkept, -⟩ := hok.malloc nBytes
    refine ⟨p, handle', hcall, hkept, fun q hq => ?_⟩
    subst hq
    obtain ⟨hwithin, hdvd⟩ := hok'.within List.mem_cons_self
    have hle := le_mpliteFullSz nBytes.toNat
    exact ⟨by omega, hwithin, hdvd, (List.pairwise_cons.mp hok'.apart).1⟩
  · obtain ⟨handle', hcall, -, hkept⟩ := hok.free he
    exact ⟨handle', hcall, hkept⟩

/-- With one block in use in a pool of four atoms, a request and the free return. -/
theorem mpliteRun_safe_four : ∃ handle, MpliteRun 1000 260 handle [⟨1000, 64⟩] ∧
    (∃ p handle', mpliteMalloc 100 handle = some (p, handle')) ∧
    ∃ handle', mpliteFree 1000 handle = some handle' := by
  obtain ⟨handle, hrun⟩ := mpliteRun_four
  obtain ⟨-, -, hmalloc, hfree⟩ := mpliteRun_safe hrun
  obtain ⟨p, handle', hcall, -⟩ := hmalloc 100
  obtain ⟨handle'', hcall', -⟩ := hfree ⟨1000, 64⟩ (by decide)
  exact ⟨handle, hrun, ⟨p, handle', hcall⟩, handle'', hcall'⟩

/-- **Which requests are refused.** In every state that a run reaches, a request is refused if
and only if its size is not positive or more than the largest size, or each place for a chunk of
its size overlaps a block in use. -/
theorem mpliteRun_refused (hrun : MpliteRun buf bufSize handle live) (nBytes : ℤ) :
    ∃ p handle', mpliteMalloc nBytes handle = some (p, handle') ∧
      (p = none ↔ nBytes ≤ 0 ∨ mpliteMaxAllocSize < nBytes ∨
        MpliteNoRoom buf (mpliteNumBlocks bufSize) live (mpliteLogsize nBytes.toNat)) := by
  obtain ⟨p, handle', hcall, -, -, hrefused⟩ := hrun.ok.malloc nBytes
  exact ⟨p, handle', hcall, hrefused⟩

/-- A pool of four atoms with the first one in use refuses a request for all of them. -/
theorem mpliteRun_refused_four : ∃ handle handle', MpliteRun 1000 260 handle [⟨1000, 64⟩] ∧
    mpliteMalloc 256 handle = some (none, handle') := by
  obtain ⟨handle, hrun⟩ := mpliteRun_four
  obtain ⟨p, handle', hcall, hrefused⟩ := mpliteRun_refused hrun 256
  obtain rfl := hrefused.mpr (Or.inr (Or.inr fun a hdvd hle => ⟨⟨1000, 64⟩, by simp, by
    have hlog : mpliteLogsize (256 : ℤ).toNat = 2 := by decide
    have hblocks : mpliteNumBlocks 260 = 4 := by decide
    rw [hlog] at hle ⊢
    rw [hblocks] at hle
    obtain rfl : a = 0 := by omega
    decide⟩))
  exact ⟨handle, handle', hrun, hcall⟩

/-- **Nothing is lost**: once every block has been freed again, a request of no more than the
largest size is served if and only if the pool has as many atoms as its size is rounded up to. -/
theorem mpliteRun_emptied (hrun : MpliteRun buf bufSize handle []) {nBytes : ℤ} (hpos : 0 < nBytes)
    (hmax : nBytes ≤ mpliteMaxAllocSize) :
    ∃ p handle', mpliteMalloc nBytes handle = some (p, handle') ∧
      (p.isSome ↔ 2 ^ mpliteLogsize nBytes.toNat ≤ mpliteNumBlocks bufSize) := by
  obtain ⟨p, handle', hcall, -, -, hrefused⟩ := hrun.ok.malloc nBytes
  refine ⟨p, handle', hcall, ?_⟩
  rw [← Option.ne_none_iff_isSome, ne_eq, hrefused, or_iff_right (Int.not_le.mpr hpos),
    or_iff_right (Int.not_lt.mpr hmax)]
  constructor
  · intro hroom
    by_contra hsmall
    exact hroom fun a _ hle => absurd hle (by omega)
  · intro hle hroom
    obtain ⟨e, he, -⟩ := hroom 0 (Nat.dvd_zero _) (by rwa [Nat.zero_add])
    exact absurd he List.not_mem_nil

/-- A pool of four atoms serves a request for all of them again after one was taken and freed. -/
theorem mpliteRun_emptied_four : ∃ handle p handle', MpliteRun 1000 260 handle [] ∧
    mpliteMalloc 256 handle = some (some p, handle') := by
  obtain ⟨handle0, hrun0⟩ := mpliteRun_four
  obtain ⟨handle, hfree, -⟩ := hrun0.ok.free (e := ⟨1000, 64⟩) (by decide)
  have hrun : MpliteRun 1000 260 handle [] := .free hrun0 (by decide) hfree
  obtain ⟨p, handle', hcall, hserved⟩ := mpliteRun_emptied hrun (by decide : (0 : ℤ) < 256)
    (by decide)
  obtain ⟨q, rfl⟩ := Option.isSome_iff_exists.mp (hserved.mpr (by decide))
  exact ⟨handle, q, handle', hrun, hcall⟩

/-- **What a resize does.** In every state that a run reaches, a resize of a block in use
returns. It is refused if and only if the size is no power of two, or is more than the block has
and a request for it would be refused; and the block is left then. The block stays where it is if
and only if it is large enough. Otherwise its contents move to a new block, which lies apart from
all blocks in use. The contents of the others do not change. -/
theorem mpliteRun_realloc (hrun : MpliteRun buf bufSize handle live) (he : e ∈ live) (nBytes : ℤ) :
    ∃ p handle', mpliteRealloc e.ptr nBytes handle = some (p, handle') ∧
      (∀ e' ∈ releaseBlock e.ptr live, SameAtoms buf e' handle handle') ∧
      (p = none → SameAtoms buf e handle handle') ∧
      (p = none ↔ ¬ nBytes.toNat.isPowerOfTwo ∨ e.len < nBytes ∧ (mpliteMaxAllocSize < nBytes ∨
        MpliteNoRoom buf (mpliteNumBlocks bufSize) live (mpliteLogsize nBytes.toNat))) ∧
      (p = some e.ptr ↔ nBytes.toNat.isPowerOfTwo ∧ nBytes ≤ e.len) ∧
      ∀ q, p = some q → AtomsMoved buf e q handle handle' ∧ (q ≠ e.ptr →
        nBytes ≤ mpliteFullSz nBytes.toNat ∧ Extent.Within ⟨q, mpliteFullSz nBytes.toNat⟩
          ⟨buf, mpliteMinAlloc * mpliteNumBlocks bufSize⟩ ∧
        ∀ e' ∈ live, Extent.Disjoint ⟨q, mpliteFullSz nBytes.toNat⟩ e') := by
  obtain ⟨p, handle', hcall, hok, hkept, hleft, hrefused, hstays, hmoved⟩ :=
    hrun.ok.realloc he nBytes
  refine ⟨p, handle', hcall, hkept, hleft, hrefused, hstays, fun q hq =>
    ⟨(hmoved q hq).1, fun hne => ⟨?_, ?_, (hmoved q hq).2 hne⟩⟩⟩
  · have hle := le_mpliteFullSz nBytes.toNat
    omega
  · subst hq
    rw [Option.elim_some, if_neg hne] at hok
    exact (hok.within List.mem_cons_self).1

/-- One atom is resized to two. -/
theorem mpliteRun_realloc_four : ∃ handle p handle', MpliteRun 1000 260 handle [⟨1000, 64⟩] ∧
    mpliteRealloc 1000 128 handle = some (p, handle') := by
  obtain ⟨handle, hrun⟩ := mpliteRun_four
  obtain ⟨p, handle', hcall, -⟩ := mpliteRun_realloc hrun (e := ⟨1000, 64⟩) (by decide) 128
  exact ⟨handle, p, handle', hrun, hcall⟩

/-- **The counters** of the handle are the number of the blocks in use and their size together,
in every state that a run reaches, and the size that is reported for a block is that of the
whole chunk, which is the one that a request is rounded up to. -/
theorem mpliteRun_counts (hrun : MpliteRun buf bufSize handle live) :
    handle.currentCount = live.length ∧ handle.currentOut = Extent.total live ∧
      handle.currentOut ≤ mpliteMinAlloc * mpliteNumBlocks bufSize ∧
      (∀ e ∈ live, mpliteSize e.ptr handle = some (e.len : ℤ)) ∧
      ∀ n : ℕ, n ≤ mpliteMaxAllocSize → mpliteRoundup n handle = some (mpliteFullSz n) := by
  have hok := hrun.ok
  refine ⟨hok.count, hok.out, ?_, fun e he => hok.size he, fun n hn => ?_⟩
  · rw [hok.out]
    exact Extent.total_le_of_within hok.apart fun e he => (hok.within he).1
  · have hlog : mpliteLogsize n ≤ 24 := le_mpliteLogsize.mp hn
    have hloop := mpliteFullSzLoop_eq n 32 0 (Nat.zero_le _) (by omega)
    rw [Nat.pow_zero, Nat.mul_one, ← hok.szAtom] at hloop
    rw [mpliteRoundup, if_neg (by omega), Int.toNat_natCast, hloop]
    exact congrArg some (congrArg (· * 2 ^ mpliteLogsize n) hok.szAtom)

theorem mpliteRun_counts_four : ∃ handle, MpliteRun 1000 260 handle [⟨1000, 64⟩] ∧
    handle.currentCount = 1 ∧ handle.currentOut = 64 ∧ mpliteSize 1000 handle = some 64 := by
  obtain ⟨handle, hrun⟩ := mpliteRun_four
  obtain ⟨hcount, hout, -, hsize, -⟩ := mpliteRun_counts hrun
  exact ⟨handle, hrun, hcount, hout, hsize ⟨1000, 64⟩ (by decide)⟩

end Results

end Shalloc
