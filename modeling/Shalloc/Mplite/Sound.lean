import Shalloc.Mplite.Pool
import Shalloc.Runs.Mplite

/-!
# The buddy allocator is sound

The blocks that an MPLITE buffer has handed out and not taken back are chunks in use of its
pool, so that they lie in the buffer past the handle, apart from each other. A free joins its
chunk with free buddies, and the control bytes tell whether one of them is a lower one.

## Main definitions

- `MpliteRep` — the blocks of a buffer in use are chunks in use of its pool
- `mpliteJoinsLower` — the chunk would be joined with a lower buddy

## Main results

- `mplite_sound` — the operations of an MPLITE buffer are sound
- `mpliteMerge_lt_iff` — where the loop that joins chunks ends
-/

namespace Shalloc

open Buddy

variable {σ : Type} {i k n : ℕ} {handle handle' : Mplite} {tile : ℕ → Option Tile}

section Rep

/-- The pool of a buffer follows its handle. -/
structure MplitePlaced (buff : Buff) (handle : Mplite) : Prop where
  atom : handle.szAtom = 64
  pool : handle.zPool = buff.start + sizeofMplite
  fits : sizeofMplite + 64 * handle.nBlock ≤ buff.size

/-- Each of the blocks begins a chunk in use, which holds all of it if it is one of the sizes
`fits`. -/
def MpliteUses (fits : ℕ → Prop) (tile : ℕ → Option Tile) (handle : Mplite)
    (blocks : List Extent) : Prop :=
  ∀ e ∈ blocks, ∃ i k, e.ptr = handle.zPool + i * handle.szAtom ∧ liveLog tile i = some k ∧
    (fits e.len → e.len ≤ handle.szAtom * 2 ^ k)

/-- The blocks of `buff` in use are `blocks`. They lie in the buffer past the handle, and as
long as the handle is set up, each is the first part of a chunk in use. -/
structure MpliteRep (buff : Buff) (blocks : List Extent) (a : AllocState (Mplite ⊕ σ)) :
    Prop where
  aligned : 8 ∣ buff.start
  issued : ∀ e ∈ blocks,
    Extent.Within e ⟨buff.start + sizeofMplite, buff.size - sizeofMplite⟩ ∧ 8 ∣ e.ptr ∧ 0 < e.len
  pool : ∀ {handle}, a = .other (.inl handle) → 0 < handle.nBlock → MplitePlaced buff handle ∧
    ∃ tile, MplitePool tile none handle ∧ MpliteUses (fun _ => True) tile handle blocks

theorem MplitePlaced.of_place {buff : Buff} (h : MplitePlaced buff handle)
    (hplace : handle'.place = handle.place) : MplitePlaced buff handle' := by
  simp only [Mplite.place, Prod.mk.injEq] at hplace
  obtain ⟨hatom, hblock, hpool⟩ := hplace
  exact ⟨hatom.trans h.atom, hpool.trans h.pool, by rw [hblock]; exact h.fits⟩

theorem MplitePlaced.atom_pos {buff : Buff} (h : MplitePlaced buff handle) : 0 < handle.szAtom := by
  rw [h.atom]
  decide

/-- A chunk lies in the buffer, past the handle. -/
theorem MplitePlaced.within {buff : Buff} {t : Tile} (h : MplitePlaced buff handle)
    (hpool : MplitePool tile none handle) (hi : tile i = some t) {len : ℕ}
    (hlen : len ≤ handle.szAtom * 2 ^ t.log) :
    Extent.Within ⟨handle.zPool + i * handle.szAtom, len⟩
      ⟨buff.start + sizeofMplite, buff.size - sizeofMplite⟩ := by
  have hwithin : i + 2 ^ t.log ≤ handle.nBlock := hpool.tiled.within hi
  have hfits := h.fits
  rw [h.atom, h.pool] at *
  exact ⟨by simp only; omega, by simp only; omega⟩

/-- A size is never seen larger than it is. -/
theorem toInt32_le (n : ℕ) : toInt32 n ≤ n := by
  unfold toInt32
  rw [Int.bmod_def]
  split <;> omega

/-- The atoms of a pool fit the buffer. -/
theorem mpliteNumBlocks_fits {size : ℕ} {bufSize : ℤ} (hpos : 0 < bufSize)
    (hle : bufSize ≤ (size - sizeofMplite : ℕ)) :
    sizeofMplite + 64 * mpliteNumBlocks bufSize ≤ size := by
  unfold mpliteNumBlocks
  omega

/-- `_mplite_create` sets up the pool of a buffer, with no chunk in use. -/
theorem mpliteCreate_pool {buff : Buff} {a a' : AllocState (Mplite ⊕ σ)} {ret : ℤ}
    (hsmall : buff.start + buff.size < 2 ^ 64) (h : mpliteCreate buff a = some (ret, a'))
    (hret : 0 ≤ ret) : ∃ handle, a' = .other (.inl handle) ∧ MplitePlaced buff handle ∧
      ∃ tile, MplitePool tile none handle := by
  unfold mpliteCreate at h
  split at h
  · obtain ⟨rfl, -⟩ := Prod.mk.inj (Option.some.inj h)
    exact absurd hret (by decide)
  next hsize =>
  simp only [bind, Option.bind_eq_some_iff, Prod.exists, Option.some.injEq, Prod.mk.injEq] at h
  obtain ⟨made, handle, hinit, rfl, rfl⟩ := h
  obtain rfl : made = 0 := by
    by_contra hne
    rw [if_neg hne] at hret
    exact absurd hret (by decide)
  obtain ⟨hpos, hplace, tile, hpool, -⟩ := mpliteInit_pool (toInt32_lt _) hinit
  have hwrap : Word.wrap 64 (buff.start + sizeofMplite) = buff.start + sizeofMplite :=
    Word.wrap_of_lt (by omega)
  have hseen := toInt32_le (buff.size - sizeofMplite)
  simp only [Mplite.place, Prod.mk.injEq] at hplace
  obtain ⟨hatom, hblock, hzPool⟩ := hplace
  refine ⟨handle, if_pos rfl, ⟨hatom, hzPool.trans hwrap, ?_⟩, tile, hpool⟩
  rw [hblock]
  exact mpliteNumBlocks_fits hpos hseen

/-- A buffer that was just set up has no block in use. -/
theorem mpliteCreate_rep {buff : Buff} {a a' : AllocState (Mplite ⊕ σ)} {ret : ℤ}
    (haligned : 8 ∣ buff.start) (hsmall : buff.start + buff.size < 2 ^ 64)
    (h : mpliteCreate buff a = some (ret, a')) (hret : 0 ≤ ret) : MpliteRep buff [] a' := by
  obtain ⟨handle, rfl, hplaced, tile, hpool⟩ := mpliteCreate_pool hsmall h hret
  refine ⟨haligned, fun e he => absurd he List.not_mem_nil, fun hhandle _ => ?_⟩
  obtain rfl := Sum.inl.inj (AllocState.other.inj hhandle)
  exact ⟨hplaced, tile, hpool, fun e he => absurd he List.not_mem_nil⟩

end Rep

section Uses

variable {blocks : List Extent} {fits : ℕ → Prop}

/-- **A block that a pool hands out** is a chunk that was not in use. -/
theorem MpliteUses.malloc {p m : ℕ} (h : MpliteUses fits tile handle blocks)
    (hpool : MplitePool tile none handle) (hfits : fits m → m ≤ n)
    (hcall : mpliteMallocUnsafe n handle = some (some p, handle')) :
    handle'.place = handle.place ∧ ∃ i k tile', p = handle.zPool + i * handle.szAtom ∧
      MplitePool tile' none handle' ∧ tile' i = some ⟨k, false⟩ ∧ n ≤ handle.szAtom * 2 ^ k ∧
      MpliteUses fits tile' handle' (⟨p, m⟩ :: blocks) ∧
      ∀ e ∈ blocks, ∃ j l, e.ptr = handle.zPool + j * handle.szAtom ∧ j ≠ i ∧
        tile' j = some ⟨l, false⟩ ∧ (fits e.len → e.len ≤ handle.szAtom * 2 ^ l) := by
  obtain ⟨hplace, ⟨hnone, -⟩ | ⟨i, k, tile', hp, hsize, hpool', hdead, hlive, -⟩⟩ :=
    hpool.malloc hcall
  · exact absurd hnone (by simp)
  obtain rfl := Option.some.inj hp
  have hi : tile' i = some ⟨k, false⟩ := by
    rw [← liveLog_eq_some, hlive, Function.update_self]
  -- the other chunks stay in use
  have hother : ∀ e ∈ blocks, ∃ j l, e.ptr = handle.zPool + j * handle.szAtom ∧ j ≠ i ∧
      tile' j = some ⟨l, false⟩ ∧ (fits e.len → e.len ≤ handle.szAtom * 2 ^ l) := by
    intro e he
    obtain ⟨j, l, hptr, hj, hlen⟩ := h e he
    have hne : j ≠ i := by
      rintro rfl
      exact absurd (hj.symm.trans hdead) (by simp)
    refine ⟨j, l, hptr, hne, ?_, hlen⟩
    rw [← liveLog_eq_some, hlive, Function.update_of_ne hne]
    exact hj
  refine ⟨hplace, i, k, tile', rfl, hpool', hi, hsize, fun e he => ?_, hother⟩
  simp only [Mplite.place, Prod.mk.injEq] at hplace
  rw [hplace.1, hplace.2.2]
  cases List.mem_cons.mp he with
  | inl heq =>
    rw [heq]
    exact ⟨i, k, rfl, liveLog_eq_some.mpr hi, fun hm => Nat.le_trans (hfits hm) hsize⟩
  | inr he =>
    obtain ⟨j, l, hptr, -, hj, hlen⟩ := hother e he
    exact ⟨j, l, hptr, liveLog_eq_some.mpr hj, hlen⟩

/-- A pool that refuses a request keeps its chunks. -/
theorem MpliteUses.refused (h : MpliteUses fits tile handle blocks)
    (hpool : MplitePool tile none handle)
    (hcall : mpliteMallocUnsafe n handle = some (none, handle')) :
    MplitePool tile none handle' ∧ MpliteUses fits tile handle' blocks := by
  obtain ⟨hplace, ⟨-, hpool'⟩ | ⟨i, k, tile', hp, -⟩⟩ := hpool.malloc hcall
  swap
  · exact absurd hp (by simp)
  simp only [Mplite.place, Prod.mk.injEq] at hplace
  refine ⟨hpool', ?_⟩
  rw [MpliteUses, hplace.1, hplace.2.2]
  exact h

/-- **A free** takes the chunk of a block out of use. -/
theorem MpliteUses.free {e : Extent} (h : MpliteUses fits tile handle blocks)
    (hpool : MplitePool tile none handle) (hatom : 0 < handle.szAtom) (he : e ∈ blocks)
    (hcall : mpliteFreeUnsafe e.ptr handle = some handle') :
    handle'.place = handle.place ∧ ∃ tile', MplitePool tile' none handle' ∧
      MpliteUses fits tile' handle' (releaseBlock e.ptr blocks) := by
  obtain ⟨i, k, hptr, hi, -⟩ := h e he
  rw [hptr] at hcall
  obtain ⟨hplace, tile', hpool', hlive, -⟩ := hpool.free hatom hi hcall
  refine ⟨hplace, tile', hpool', fun e' he' => ?_⟩
  obtain ⟨hmem, hne⟩ := mem_releaseBlock.mp he'
  obtain ⟨j, l, hptr', hj, hlen⟩ := h e' hmem
  simp only [Mplite.place, Prod.mk.injEq] at hplace
  rw [hplace.1, hplace.2.2]
  refine ⟨j, l, hptr', ?_, hlen⟩
  rw [hlive, Function.update_of_ne (fun heq => hne (by rw [hptr', hptr, heq]))]
  exact hj

end Uses

section Sound

variable {buff : Buff} {blocks : List Extent} {a a' : AllocState (Mplite ⊕ σ)}

/-- What a request for less than 2 GiB does to a buffer. -/
theorem mpliteOpMalloc_cases {p : Option ℕ} (hpos : 0 < n) (hn : n < 2 ^ 31)
    (h : mpliteOpMalloc buff n a = some (p, a')) :
    ∃ handle handle', a = .other (.inl handle) ∧ a' = .other (.inl handle') ∧
      mpliteMallocUnsafe n handle = some (p, handle') := by
  cases a with
  | other s =>
    cases s with
    | inl handle =>
      simp only [mpliteOpMalloc, bind, Option.bind_eq_some_iff, Prod.exists, Option.some.injEq,
        Prod.mk.injEq] at h
      obtain ⟨_, handle', hmalloc, rfl, rfl⟩ := h
      have hint : toInt32 n = n := by
        unfold toInt32
        rw [Int.bmod_eq_of_le] <;> omega
      rw [hint, mpliteMalloc, if_neg (by omega), Int.toNat_natCast] at hmalloc
      exact ⟨handle, handle', rfl, rfl, hmalloc⟩
    | inr s => exact absurd h (by simp [mpliteOpMalloc])
  | _ => exact absurd h (by simp [mpliteOpMalloc])

/-- A handle with no blocks serves no request, -/
theorem mpliteMallocUnsafe_nBlock {p : ℕ}
    (h : mpliteMallocUnsafe n handle = some (some p, handle')) : 0 < handle.nBlock := by
  obtain ⟨maxRequest, ⟨hnone, -⟩ | ⟨k, iBin, i, handle1, handle2, -, -, -, -, -, hunlink, -, -⟩⟩ :=
    mpliteMallocUnsafe_cases h
  · exact absurd hnone (by simp)
  · unfold mpliteUnlinkFirst at hunlink
    split at hunlink
    · simp only [bind, Option.bind_eq_some_iff, Option.some.injEq, Prod.mk.injEq] at hunlink
      obtain ⟨y, -, _, htake, -, -⟩ := hunlink
      unfold mpliteUnlink at htake
      split at htake
      · next hin => exact Nat.lt_of_le_of_lt (Nat.zero_le _) hin.1
      · exact absurd htake (by simp)
    · exact absurd hunlink (by simp)

/-- and no free. -/
theorem mpliteFreeUnsafe_nBlock {p : ℕ} (h : mpliteFreeUnsafe p handle = some handle') :
    0 < handle.nBlock := by
  unfold mpliteFreeUnsafe at h
  simp only at h
  split at h
  · next hin => omega
  · exact absurd h (by simp)

/-- A block that a buffer hands out lies apart from the others. -/
theorem MpliteRep.served {p : ℕ} (h : MpliteRep buff blocks a) (hpos : 0 < n) (hn : n < 2 ^ 31)
    (hcall : mpliteOpMalloc buff n a = some (some p, a')) :
    MpliteRep buff (⟨p, n⟩ :: blocks) a' ∧ ∀ e ∈ blocks, Extent.Disjoint ⟨p, n⟩ e := by
  obtain ⟨handle, handle', rfl, rfl, hmalloc⟩ := mpliteOpMalloc_cases hpos hn hcall
  obtain ⟨hplaced, tile, hpool, huses⟩ := h.pool rfl (mpliteMallocUnsafe_nBlock hmalloc)
  obtain ⟨hplace, i, k, tile', rfl, hpool', hi, hsize, huses', hother⟩ :=
    huses.malloc hpool (fun _ => le_rfl) hmalloc
  have hplaced' := hplaced.of_place hplace
  have hsame := hplace
  simp only [Mplite.place, Prod.mk.injEq] at hsame
  obtain ⟨hatom, -, hzPool⟩ := hsame
  have hwithin := hplaced'.within hpool' hi (hatom ▸ hsize)
  rw [hatom, hzPool] at hwithin
  refine ⟨⟨h.aligned, fun e he => ?_, fun hhandle _ => ?_⟩, fun e he => ?_⟩
  · cases List.mem_cons.mp he with
    | inl heq =>
      have haligned := h.aligned
      rw [heq]
      refine ⟨hwithin, ?_, hpos⟩
      rw [hplaced.atom, hplaced.pool]
      unfold sizeofMplite
      simp only
      omega
    | inr he => exact h.issued e he
  · obtain rfl := Sum.inl.inj (AllocState.other.inj hhandle)
    exact ⟨hplaced', tile', hpool', huses'⟩
  · obtain ⟨j, l, hptr, hne, hj, hlen⟩ := hother e he
    have hlen := hlen trivial
    rw [hplaced.atom] at *
    simp only [Extent.Disjoint, hptr]
    rcases Nat.lt_or_gt_of_ne hne with hlt | hgt
    · have hapart : j + 2 ^ l ≤ i := hpool'.tiled.apart hj hi hlt
      omega
    · have hapart : i + 2 ^ k ≤ j := hpool'.tiled.apart hi hj hgt
      omega

/-- A buffer that refuses a request keeps its blocks. -/
theorem MpliteRep.refused (h : MpliteRep buff blocks a) (hpos : 0 < n) (hn : n < 2 ^ 31)
    (hcall : mpliteOpMalloc buff n a = some (none, a')) : MpliteRep buff blocks a' := by
  obtain ⟨handle, handle', rfl, rfl, hmalloc⟩ := mpliteOpMalloc_cases hpos hn hcall
  refine ⟨h.aligned, h.issued, fun hhandle hblock => ?_⟩
  obtain rfl := Sum.inl.inj (AllocState.other.inj hhandle)
  have hplace : handle'.place = handle.place := mpliteMallocUnsafe_place hmalloc
  have hsame : handle'.nBlock = handle.nBlock := congrArg (fun place => place.2.1) hplace
  obtain ⟨hplaced, tile, hpool, huses⟩ := h.pool rfl (hsame ▸ hblock)
  exact ⟨hplaced.of_place hplace, tile, huses.refused hpool hmalloc⟩

/-- What the free of a block does to a buffer. -/
theorem MpliteRep.opFree {e : Extent} (h : MpliteRep buff blocks a) (he : e ∈ blocks)
    (hcall : mpliteOpFree buff e.ptr a = some a') :
    ∃ handle handle', a = .other (.inl handle) ∧ a' = .other (.inl handle') ∧
      0 < handle.nBlock ∧ mpliteFreeUnsafe e.ptr handle = some handle' := by
  cases a with
  | other s =>
    cases s with
    | inl handle =>
      obtain ⟨handle', hfree, rfl⟩ := Option.map_eq_some_iff.mp hcall
      have hlo := (h.issued e he).1.1
      rw [mpliteFree, if_neg (by simp only [sizeofMplite] at hlo; omega)] at hfree
      exact ⟨handle, handle', rfl, rfl, mpliteFreeUnsafe_nBlock hfree, hfree⟩
    | inr s => exact absurd hcall (by simp [mpliteOpFree])
  | _ => exact absurd hcall (by simp [mpliteOpFree])

/-- A free takes a block out of use. -/
theorem MpliteRep.freed {e : Extent} (h : MpliteRep buff blocks a) (he : e ∈ blocks)
    (hcall : mpliteOpFree buff e.ptr a = some a') :
    MpliteRep buff (releaseBlock e.ptr blocks) a' := by
  obtain ⟨handle, handle', rfl, rfl, hblock, hfree⟩ := h.opFree he hcall
  obtain ⟨hplaced, tile, hpool, huses⟩ := h.pool rfl hblock
  obtain ⟨hplace, tile', hpool', huses'⟩ := huses.free hpool hplaced.atom_pos he hfree
  refine ⟨h.aligned, fun e' he' => h.issued e' (mem_releaseBlock.mp he').1, fun hhandle _ => ?_⟩
  obtain rfl := Sum.inl.inj (AllocState.other.inj hhandle)
  exact ⟨hplaced.of_place hplace, tile', hpool', huses'⟩

/-- **The buddy allocator is sound.** -/
theorem mplite_sound : SoundOp (mpliteOps (σ := σ)) sizeofMplite (2 ^ 31) MpliteRep where
  issued h := h.issued
  served h hpos hn hcall := h.served hpos hn hcall
  refused h hpos hn hcall := h.refused hpos hn hcall
  freed h he hcall := h.freed he hcall

end Sound

section Joins

/-- A free chunk of log `k` at `i` would be joined with a lower buddy: its buddy is free and
the lower one, or it is free and the chunk of both would be joined with a lower buddy. -/
def mpliteJoinsLower (handle : Mplite) (i : ℕ) : ℕ → ℕ → Prop
  | 0, _ => False
  | fuel + 1, k =>
    (k < mpliteLogmax ∧ buddy i k + 2 ^ k ≤ handle.nBlock ∧
      handle.aCtrl (buddy i k) = mpliteCtrlFree ||| k) ∧
      (buddy i k < i ∨ mpliteJoinsLower handle i fuel (k + 1))

instance (handle : Mplite) (i : ℕ) : ∀ fuel k, Decidable (mpliteJoinsLower handle i fuel k)
  | 0, _ => inferInstanceAs (Decidable False)
  | fuel + 1, k =>
    have := instDecidableMpliteJoinsLower handle i fuel (k + 1)
    inferInstanceAs (Decidable (_ ∧ _))

/-- Only the control bytes outside of the chunk tell what it would be joined with. -/
theorem mpliteJoinsLower_congr (hblock : handle'.nBlock = handle.nBlock) (fuel : ℕ) :
    ∀ {k : ℕ}, (∀ x, x < i ∨ i + 2 ^ k ≤ x → handle'.aCtrl x = handle.aCtrl x) →
      (mpliteJoinsLower handle' i fuel k ↔ mpliteJoinsLower handle i fuel k) := by
  induction fuel with
  | zero => exact fun _ => Iff.rfl
  | succ fuel ih =>
    intro k hctrl
    have hpow : 2 ^ k ≤ 2 ^ (k + 1) := Nat.pow_le_pow_right (by decide) (Nat.le_succ k)
    have hnext := ih (k := k + 1) fun x hx => hctrl x (hx.imp_right fun hle => by omega)
    rw [mpliteJoinsLower, mpliteJoinsLower, hblock, hctrl _ (buddy_outside le_rfl i), hnext]

/-- **Where the loop ends.** The chunk that the loop ends with begins below the first one iff
that one is joined with a lower buddy. -/
theorem mpliteMerge_lt_iff (fuel : ℕ) : ∀ {i k c l : ℕ} {handle : Mplite},
    mpliteMerge fuel i k handle = some (c, l, handle') →
      c ≤ i ∧ (c < i ↔ mpliteJoinsLower handle i fuel k) := by
  induction fuel with
  | zero =>
    intro i k c l handle h
    rw [mpliteMerge] at h
    obtain rfl := (Prod.mk.inj (Option.some.inj h)).1
    exact ⟨le_rfl, fun hlt => absurd hlt (Nat.lt_irrefl _), fun hjoins => hjoins.elim⟩
  | succ fuel ih =>
    intro i k c l handle h
    rw [mpliteMerge_succ] at h
    rw [mpliteJoinsLower]
    split at h
    · next hjoin =>
      obtain ⟨handle1, hunlink, hrest⟩ := Option.bind_eq_some_iff.mp h
      obtain ⟨aiFreelist, links, rfl, -⟩ := mpliteUnlink_lists hunlink
      have hpow : 2 ^ (k + 1) = 2 ^ k + 2 ^ k := by rw [Nat.pow_succ, Nat.mul_two]
      split at hrest
      · next hlower =>
        have hle := (ih hrest).1
        exact ⟨by omega, fun _ => ⟨hjoin, Or.inl hlower⟩, fun _ => by omega⟩
      · next hupper =>
        -- joining with the upper half writes two control bytes inside of the new chunk
        obtain ⟨hle, hiff⟩ := ih hrest
        have hpos := Nat.two_pow_pos k
        have hbuddy : buddy i k = i + 2 ^ k := by
          unfold buddy at hupper ⊢
          split
          · next hbit =>
            have hge := Nat.ge_two_pow_of_testBit hbit
            rw [if_pos hbit] at hupper
            omega
          · rfl
        have hsame : mpliteJoinsLower (((handle.relink aiFreelist links).setCtrl i
            (mpliteCtrlFree ||| (k + 1))).setCtrl (buddy i k) 0) i fuel (k + 1) ↔
            mpliteJoinsLower handle i fuel (k + 1) := by
          refine mpliteJoinsLower_congr ?_ fuel fun x hx => ?_
          · rfl
          · have hself : x ≠ i := by omega
            have hother : x ≠ buddy i k := by omega
            exact (Function.update_of_ne hother _ _).trans (Function.update_of_ne hself _ _)
        refine ⟨hle, hiff.trans (hsame.trans ⟨fun hjoins => ⟨hjoin, Or.inr hjoins⟩, fun hjoins =>
          hjoins.2.resolve_left hupper⟩)⟩
    · next hnot =>
      obtain rfl := (Prod.mk.inj (Option.some.inj h)).1
      exact ⟨le_rfl, fun hlt => absurd hlt (Nat.lt_irrefl _), fun hjoins => absurd hjoins.1 hnot⟩

/-- **What a free leaves in a block.** A chunk that is joined with a lower buddy is inside of
the chunk that is linked, and any other is the first part of it. -/
theorem MplitePool.free_link (h : MplitePool tile none handle) (hatom : 0 < handle.szAtom)
    (hlive : liveLog tile i = some k)
    (hcall : mpliteFreeUnsafe (handle.zPool + i * handle.szAtom) handle = some handle') :
    (mpliteJoinsLower handle i (mpliteLogmax + 1) k ∧ handle'.aCtrl i = 0) ∨
      (¬ mpliteJoinsLower handle i (mpliteLogmax + 1) k ∧
        handle'.aCtrl i &&& mpliteCtrlFree ≠ 0 ∧ (handle'.links i).prev = -1) := by
  obtain ⟨handle1, c, l, handle2, h1, hctrl1, hkeep, hplace1, hmerge, hlink, -⟩ :=
    h.freeing hatom hlive hcall
  have hi := liveLog_eq_some.mp hlive
  obtain ⟨hctrl2, -, hwhere, tile2, h2, hc, -⟩ := h1.merge _ hi hctrl1 hmerge
  obtain ⟨-, aiFreelist, links, rfl, hlinks⟩ := h2.link hc hctrl2 hlink
  have hjoins := (mpliteMerge_lt_iff _ hmerge).2.trans
    (mpliteJoinsLower_congr (congrArg (fun place => place.2.1) hplace1) _ hkeep)
  rcases hwhere with rfl | ⟨hlt, hzero⟩
  · refine Or.inr ⟨fun hlower => Nat.lt_irrefl _ (hjoins.mpr hlower), ?_, ?_⟩
    · show handle2.aCtrl _ &&& mpliteCtrlFree ≠ 0
      rw [hctrl2]
      exact (mpliteCtrl_free (h2.log_le hc)).2
    · exact congrArg MpliteLink.prev hlinks
  · exact Or.inl ⟨hjoins.mp hlt, hzero⟩

end Joins

end Shalloc
