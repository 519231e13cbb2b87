import Mathlib.Data.Finset.Card
import Mathlib.Data.Finset.Range
import Shalloc.Mplite.Pool

/-!
# The buddy allocator returns

In a handle that represents a buddy system, no assertion of the allocator fails and every list
of free chunks ends. So each call returns, and what it does to the chunks and to the counters can
be said without assuming that it does.

## Main results

- `MplitePool.malloc_eq` — what a request does
- `MplitePool.free_eq` — what a free does
-/

namespace Shalloc

open Buddy

variable {i k n : ℕ} {handle handle' : Mplite} {tile : ℕ → Option Tile} {hand : Option ℕ}

section Lists

theorem mpliteLink_returns (hi : i < handle.nBlock) (hk : k ≤ mpliteLogmax)
    (hctrl : handle.aCtrl i &&& mpliteCtrlLogsize = k)
    (hhead : ∀ {x}, handle.lists.head k = some x → x < handle.nBlock) :
    ∃ handle', mpliteLink i k handle = some handle' := by
  rw [mpliteLink, if_pos ⟨hi, hk, hctrl⟩]
  by_cases hx : 0 ≤ handle.aiFreelist k
  · have hlt := hhead (mpliteIndex_of_nonneg hx)
    simp only [if_pos hx]
    rw [if_pos (by show handle.aiFreelist k < handle.nBlock; omega)]
    exact ⟨_, rfl⟩
  · simp only [if_neg hx]
    exact ⟨_, rfl⟩

theorem mpliteUnlink_returns (hi : i < handle.nBlock) (hk : k ≤ mpliteLogmax)
    (hctrl : handle.aCtrl i &&& mpliteCtrlLogsize = k) :
    ∃ handle', mpliteUnlink i k handle = some handle' := by
  rw [mpliteUnlink, if_pos ⟨hi, hk, hctrl⟩]
  exact ⟨_, rfl⟩

/-- The search along a list ends where the list does. -/
theorem mpliteUnlinkFirstLoop_returns (l : List ℕ) : ∀ {fuel : ℕ} {x iFirst : ℤ},
    Links.Path handle.lists.next (mpliteIndex x) l → l.length < fuel →
    ∃ y, mpliteUnlinkFirstLoop handle fuel x iFirst = some y := by
  induction l with
  | nil =>
    intro fuel x iFirst hpath hfuel
    obtain ⟨fuel, rfl⟩ := Nat.exists_eq_succ_of_ne_zero (Nat.ne_of_gt hfuel)
    have hneg : ¬ 0 < x := fun hpos => by
      have hnone : mpliteIndex x = none := hpath
      rw [mpliteIndex_of_nonneg (Int.le_of_lt hpos)] at hnone
      exact absurd hnone (by simp)
    exact ⟨iFirst, if_neg hneg⟩
  | cons a l ih =>
    intro fuel x iFirst hpath hfuel
    obtain ⟨fuel, rfl⟩ := Nat.exists_eq_succ_of_ne_zero (Nat.ne_of_gt (Nat.zero_lt_of_lt hfuel))
    rw [mpliteUnlinkFirstLoop]
    by_cases hpos : 0 < x
    · rw [if_pos hpos]
      obtain rfl : x.toNat = a :=
        Option.some.inj ((mpliteIndex_of_nonneg (Int.le_of_lt hpos)).symm.trans hpath.1)
      exact ih hpath.2 (Nat.lt_of_succ_lt_succ hfuel)
    · rw [if_neg hpos]
      exact ⟨iFirst, rfl⟩

end Lists

section Pool

theorem MplitePool.lt_nBlock (h : MplitePool tile hand handle) {t : Tile} (hi : tile i = some t) :
    i < handle.nBlock := by
  have hwithin := h.tiled.within hi
  have hpos := Nat.two_pow_pos t.log
  omega

/-- What is on a list is a chunk of the pool. -/
theorem MplitePool.on_lt (h : MplitePool tile hand handle) (hi : freeLog tile i = some k) :
    i < handle.nBlock := h.lt_nBlock (freeLog_eq_some.mp hi)

/-- The control byte of a chunk on a list. -/
theorem MplitePool.ctrl_on (h : MplitePool tile hand handle) (hi : freeLog tile i = some k)
    (hne : some i ≠ hand) : handle.aCtrl i &&& mpliteCtrlLogsize = k := by
  have htile := freeLog_eq_some.mp hi
  have hk : k ≤ mpliteLogmax := h.log_le htile
  rw [h.ctrl htile hne, if_pos rfl]
  exact (mpliteCtrl_free hk).1

/-- The chunk in hand can be put on a list. -/
theorem MplitePool.link_returns (h : MplitePool tile (some i) handle) (hi : i < handle.nBlock)
    (hk : k ≤ mpliteLogmax) (hctrl : handle.aCtrl i &&& mpliteCtrlLogsize = k) :
    ∃ handle', mpliteLink i k handle = some handle' :=
  mpliteLink_returns hi hk hctrl fun hhead => h.on_lt (h.lists.head hhead).1

/-- A list that is not empty has a first chunk. -/
theorem MplitePool.unlinkFirst_returns (h : MplitePool tile none handle)
    (hfull : handle.lists.Full (freeLog tile)) (hk : k ≤ mpliteLogmax)
    (hhead : 0 ≤ handle.aiFreelist k) :
    ∃ i handle', mpliteUnlinkFirst k handle = some (i, handle') := by
  have hindex : handle.lists.head k = some (handle.aiFreelist k).toNat :=
    mpliteIndex_of_nonneg hhead
  have hfirst : freeLog tile (handle.aiFreelist k).toNat = some k := (h.lists.head hindex).1
  -- the list has no more chunks than the pool has blocks
  obtain ⟨l, hpath, hnodup, -⟩ := hfull k
  have hon := h.lists.path_on (fun j hj => (h.lists.head hj).1) hpath
  have hlen : l.length ≤ handle.nBlock := by
    have hsub : l.toFinset ⊆ Finset.range handle.nBlock := fun j hj =>
      Finset.mem_range.mpr (h.on_lt (hon j (List.mem_toFinset.mp hj)))
    have hcard := Finset.card_le_card hsub
    rwa [List.toFinset_card_of_nodup hnodup, Finset.card_range] at hcard
  obtain ⟨y, hloop⟩ : ∃ y, mpliteUnlinkFirstLoop handle (handle.nBlock + 2) (handle.aiFreelist k)
      (handle.aiFreelist k) = some y := mpliteUnlinkFirstLoop_returns l hpath (by omega)
  obtain ⟨hpos, hy⟩ := mpliteUnlinkFirstLoop_on h.lists _ (fun _ => hfirst) hhead hfirst hloop
  obtain ⟨handle', hunlink⟩ := mpliteUnlink_returns (h.on_lt hy) hk (h.ctrl_on hy (by simp))
  refine ⟨y.toNat, handle', ?_⟩
  rw [mpliteUnlinkFirst, if_pos ⟨hk, hhead⟩]
  simp only [bind, hloop, Option.bind_some, hunlink]

/-- The chunk in hand can be split. -/
theorem MplitePool.splits_returns (k iBin : ℕ) : ∀ {handle : Mplite} {tile : ℕ → Option Tile},
    MplitePool tile (some i) handle → tile i = some ⟨iBin, false⟩ →
    ∃ handle', mpliteSplit i k iBin handle = some handle' := by
  induction iBin with
  | zero => exact fun _ _ => ⟨_, rfl⟩
  | succ iBin ih =>
    intro handle tile h hi
    have hpos := Nat.two_pow_pos iBin
    rw [mpliteSplit]
    by_cases hsplit : k < iBin + 1
    · have hwithin : i + 2 ^ (iBin + 1) ≤ handle.nBlock := h.tiled.within hi
      have hlog : iBin + 1 ≤ mpliteLogmax := h.log_le hi
      rw [Nat.pow_succ] at hwithin
      have hroom : i + 2 ^ iBin <
          (handle.setCtrl (i + 2 ^ iBin) (mpliteCtrlFree ||| iBin)).nBlock := by
        show i + 2 ^ iBin < handle.nBlock
        omega
      have hctrl :
          (handle.setCtrl (i + 2 ^ iBin) (mpliteCtrlFree ||| iBin)).aCtrl (i + 2 ^ iBin) &&&
            mpliteCtrlLogsize = iBin := by
        show Function.update handle.aCtrl (i + 2 ^ iBin) (mpliteCtrlFree ||| iBin)
          (i + 2 ^ iBin) &&& mpliteCtrlLogsize = iBin
        rw [Function.update_self]
        exact (mpliteCtrl_free (by omega)).1
      obtain ⟨handle1, hlink⟩ := mpliteLink_returns hroom (by omega) hctrl
        fun hhead => h.on_lt (h.lists.head hhead).1
      obtain ⟨h1, -, -⟩ := h.split hi hlink
      simp only [if_pos hsplit, bind, hlink, Option.bind_some]
      exact ih h1 (by rw [Function.update_of_ne (by omega), Function.update_self])
    · rw [if_neg hsplit]
      exact ⟨handle, rfl⟩

end Pool

section Forms

/-- The handle with other lists and control bytes. -/
def Mplite.rechunk (handle : Mplite) (aiFreelist : ℕ → ℤ) (links : ℕ → MpliteLink)
    (aCtrl : ℕ → ℕ) : Mplite :=
  { handle with aiFreelist := aiFreelist, links := links, aCtrl := aCtrl }

/-- Splitting changes the lists and the control bytes only, -/
theorem mpliteSplit_form (iBin : ℕ) : ∀ {handle : Mplite},
    mpliteSplit i k iBin handle = some handle' →
    ∃ aiFreelist links aCtrl, handle' = handle.rechunk aiFreelist links aCtrl := by
  induction iBin with
  | zero =>
    intro handle h
    obtain rfl := Option.some.inj h
    exact ⟨_, _, _, rfl⟩
  | succ iBin ih =>
    intro handle h
    rw [mpliteSplit] at h
    split at h
    · simp only [bind, Option.bind_eq_some_iff] at h
      obtain ⟨_, hlink, hrest⟩ := h
      obtain ⟨_, _, rfl, -⟩ := mpliteLink_lists hlink
      obtain ⟨_, _, _, rfl⟩ := ih hrest
      exact ⟨_, _, _, rfl⟩
    · obtain rfl := Option.some.inj h
      exact ⟨_, _, _, rfl⟩

/-- and so does joining. -/
theorem mpliteMerge_form (fuel : ℕ) : ∀ {i k c l : ℕ} {handle : Mplite},
    mpliteMerge fuel i k handle = some (c, l, handle') →
    ∃ aiFreelist links aCtrl, handle' = handle.rechunk aiFreelist links aCtrl := by
  induction fuel with
  | zero =>
    intro i k c l handle h
    rw [mpliteMerge] at h
    obtain rfl := (Prod.mk.inj (Prod.mk.inj (Option.some.inj h)).2).2
    exact ⟨_, _, _, rfl⟩
  | succ fuel ih =>
    intro i k c l handle h
    rw [mpliteMerge_succ] at h
    split at h
    · obtain ⟨_, hunlink, hrest⟩ := Option.bind_eq_some_iff.mp h
      obtain ⟨_, _, rfl, -⟩ := mpliteUnlink_lists hunlink
      split at hrest
      all_goals
        obtain ⟨_, _, _, rfl⟩ := ih hrest
        exact ⟨_, _, _, rfl⟩
    · obtain rfl := (Prod.mk.inj (Prod.mk.inj (Option.some.inj h)).2).2
      exact ⟨_, _, _, rfl⟩

/-- So does carving the pool. -/
theorem mpliteInitLoop_form (ii : ℕ) : ∀ {iOffset : ℕ} {handle : Mplite},
    mpliteInitLoop ii iOffset handle = some handle' →
    ∃ aiFreelist links aCtrl, handle' = handle.rechunk aiFreelist links aCtrl := by
  induction ii with
  | zero =>
    intro iOffset handle h
    obtain rfl := Option.some.inj h
    exact ⟨_, _, _, rfl⟩
  | succ ii ih =>
    intro iOffset handle h
    rw [mpliteInitLoop] at h
    simp only [bind] at h
    split at h
    · simp only [Option.bind_eq_some_iff, Option.some.injEq, exists_eq_left'] at h
      obtain ⟨_, hlink, hrest⟩ := h
      obtain ⟨_, _, rfl, -⟩ := mpliteLink_lists hlink
      split at hrest
      · obtain ⟨_, _, _, rfl⟩ := ih hrest
        exact ⟨_, _, _, rfl⟩
      · exact absurd hrest (by simp)
    · simp only [Option.bind_some] at h
      split at h
      · exact ih h
      · exact absurd h (by simp)

/-- A pool that was just set up is at an address, and its counters are zero. -/
theorem mpliteInit_counts {addr buf : ℕ} {bufSize minAlloc : ℤ}
    (h : mpliteInit addr buf bufSize minAlloc handle = some (0, handle')) :
    0 < buf ∧ handle'.currentCount = 0 ∧ handle'.currentOut = 0 := by
  unfold mpliteInit at h
  split at h
  · exact absurd (congrArg Prod.fst (Option.some.inj h)) (by simp)
  · next hgood =>
    simp only [bind, Option.bind_eq_some_iff, Option.some.injEq, Prod.mk.injEq, true_and] at h
    obtain ⟨_, hloop, rfl⟩ := h
    obtain ⟨_, _, _, rfl⟩ := mpliteInitLoop_form _ hloop
    exact ⟨by omega, rfl, rfl⟩

end Forms

section Malloc

/-- **What a request does.** It is refused if it is too large or no free chunk is large enough. -/
theorem MplitePool.malloc_eq (h : MplitePool tile none handle) (hneat : MpliteNeat tile handle)
    (hatom : handle.szAtom = 64) (hpos : 0 < n) :
    ((mpliteMaxAllocSize < n ∨ ∀ i l, freeLog tile i = some l → l < mpliteLogsize n) ∧
        mpliteMallocUnsafe n handle =
          some (none, { handle with maxRequest := max handle.maxRequest n })) ∨
      ((n ≤ mpliteMaxAllocSize ∧ ∃ i l, freeLog tile i = some l ∧ mpliteLogsize n ≤ l) ∧
        ∃ i aiFreelist links aCtrl, mpliteMallocUnsafe n handle =
          some (some (handle.zPool + i * handle.szAtom),
            mpliteCount (handle.szAtom * 2 ^ mpliteLogsize n) n
              (Mplite.rechunk { handle with maxRequest := max handle.maxRequest n }
                aiFreelist links aCtrl))) := by
  have hrequest : (if n > handle.maxRequest then { handle with maxRequest := n } else handle) =
      { handle with maxRequest := max handle.maxRequest n } := by
    split
    · next hgt => rw [max_eq_right (Nat.le_of_lt hgt)]
    · next hle => rw [max_eq_left (Nat.le_of_not_lt hle)]
  rw [mpliteMallocUnsafe, if_neg (Nat.pos_iff_ne_zero.mp hpos)]
  simp only [hrequest]
  by_cases hmax : n > mpliteMaxAllocSize
  · rw [if_pos hmax]
    exact Or.inl ⟨Or.inl hmax, rfl⟩
  have hlog : mpliteLogsize n ≤ 24 := le_mpliteLogsize.mp (Nat.le_of_not_lt hmax)
  have hfull := mpliteFullSzLoop_eq n 32 0 (Nat.zero_le _) (by omega)
  rw [Nat.pow_zero, Nat.mul_one, ← hatom] at hfull
  have h0 : MplitePool tile none { handle with maxRequest := max handle.maxRequest n } :=
    h.congr rfl rfl rfl
  obtain ⟨hbefore, hle, hfound⟩ := mpliteFindBin_spec
    { handle with maxRequest := max handle.maxRequest n } (mpliteLogmax + 1) (mpliteLogsize n)
    (by omega)
  rw [if_neg hmax]
  simp only [bind, hfull, Option.bind_some]
  generalize mpliteFindBin { handle with maxRequest := max handle.maxRequest n } (mpliteLogmax + 1)
    (mpliteLogsize n) = iBin at *
  by_cases hnone : iBin > mpliteLogmax
  · -- the lists of large chunks are empty
    rw [if_pos hnone]
    refine Or.inl ⟨Or.inr fun i l hi => ?_, rfl⟩
    by_contra hge
    have hl : l ≤ mpliteLogmax := h.log_le (freeLog_eq_some.mp hi)
    have hempty : handle.lists.head l = none :=
      mpliteIndex_of_neg (hbefore l (Nat.le_of_not_lt hge) (by omega))
    obtain ⟨p, hpath, -, hall⟩ := hneat.full l
    rw [hempty] at hpath
    cases p with
    | nil => exact absurd (hall i hi) List.not_mem_nil
    | cons a p => exact absurd hpath.1 (by simp)
  · -- the chunk is taken off its list and split
    rw [if_neg hnone]
    have hk : iBin ≤ mpliteLogmax := Nat.le_of_not_lt hnone
    obtain ⟨i, handle1, hunlink⟩ := h0.unlinkFirst_returns hneat.full hk (hfound hk)
    obtain ⟨hon, _, _, rfl, hlists⟩ := mpliteUnlinkFirst_lists h0.lists hunlink
    obtain ⟨handle2, hsplit⟩ := (h0.unlinked hon hlists).splits_returns (mpliteLogsize n) iBin
      (Function.update_self ..)
    obtain ⟨_, _, _, rfl⟩ := mpliteSplit_form iBin hsplit
    refine Or.inr ⟨⟨Nat.le_of_not_lt hmax, i, iBin, hon, hle⟩, i, ?_⟩
    simp only [hunlink, Option.bind_some, hsplit]
    exact ⟨_, _, _, rfl⟩

end Malloc

section Free

/-- One round of the loop that joins the chunk in hand with its buddies. -/
theorem MplitePool.merge_step (h : MplitePool tile (some i) handle)
    (hi : tile i = some ⟨k, false⟩) (hk : k < mpliteLogmax)
    (hroom : buddy i k + 2 ^ k ≤ handle.nBlock)
    (hbyte : handle.aCtrl (buddy i k) = mpliteCtrlFree ||| k) :
    ∃ c tile' handle', (∀ fuel, mpliteMerge (fuel + 1) i k handle =
        mpliteMerge fuel c (k + 1) handle') ∧
      MplitePool tile' (some c) handle' ∧ tile' c = some ⟨k + 1, false⟩ ∧
      handle'.aCtrl c = mpliteCtrlFree ||| (k + 1) := by
  have hpos := Nat.two_pow_pos k
  have hb := h.buddy_free hi hroom hbyte
  have hne : buddy i k ≠ i := buddy_ne i k
  obtain ⟨handle1, hunlink⟩ := mpliteUnlink_returns (h.on_lt hb) (Nat.le_of_lt hk)
    (h.ctrl_on hb fun heq => hne (Option.some.inj heq))
  have hround : ∀ fuel, mpliteMerge (fuel + 1) i k handle =
      if buddy i k < i then
        mpliteMerge fuel (buddy i k) (k + 1)
          ((handle1.setCtrl (buddy i k) (mpliteCtrlFree ||| (k + 1))).setCtrl i 0)
      else
        mpliteMerge fuel i (k + 1)
          ((handle1.setCtrl i (mpliteCtrlFree ||| (k + 1))).setCtrl (buddy i k) 0) := by
    intro fuel
    rw [mpliteMerge_succ, if_pos ⟨hk, hroom, hbyte⟩, hunlink, Option.bind_some]
  obtain ⟨aiFreelist, links, rfl, hlists⟩ := mpliteUnlink_lists hunlink
  rcases buddy_cases (h.tiled.aligned hi) with ⟨hdvd, heq⟩ | ⟨hdvd, heq⟩
  · simp only at hdvd heq
    refine ⟨buddy i k, _, _, fun fuel => (hround fuel).trans (if_pos (by omega)),
      h.join (mpliteCtrlFree ||| (k + 1)) hi hb (Or.inr ⟨rfl, rfl⟩) heq hdvd hlists, ?_, ?_⟩
    · rw [Function.update_of_ne hne, Function.update_self]
    · exact (Function.update_of_ne hne _ _).trans (Function.update_self ..)
  · simp only at hdvd heq
    refine ⟨i, _, _, fun fuel => (hround fuel).trans (if_neg (by omega)),
      h.join (mpliteCtrlFree ||| (k + 1)) hi hb (Or.inl ⟨rfl, rfl⟩) heq hdvd hlists, ?_, ?_⟩
    · rw [Function.update_of_ne hne.symm, Function.update_self]
    · exact (Function.update_of_ne hne.symm _ _).trans (Function.update_self ..)

/-- The loop returns, and its chunk can be put on a list. -/
theorem MplitePool.merge_returns (fuel : ℕ) : ∀ {i k : ℕ} {handle : Mplite}
    {tile : ℕ → Option Tile}, MplitePool tile (some i) handle → tile i = some ⟨k, false⟩ →
    handle.aCtrl i = mpliteCtrlFree ||| k →
    ∃ c l handle1 handle', mpliteMerge fuel i k handle = some (c, l, handle1) ∧
      mpliteLink c l handle1 = some handle' := by
  -- a chunk in hand with its control byte can be linked
  have hlink : ∀ {i k : ℕ} {handle : Mplite} {tile : ℕ → Option Tile},
      MplitePool tile (some i) handle → tile i = some ⟨k, false⟩ →
      handle.aCtrl i = mpliteCtrlFree ||| k → ∃ handle', mpliteLink i k handle = some handle' := by
    intro i k handle tile h hi hctrl
    have hk : k ≤ mpliteLogmax := h.log_le hi
    exact h.link_returns (h.lt_nBlock hi) hk (hctrl ▸ (mpliteCtrl_free hk).1)
  induction fuel with
  | zero =>
    intro i k handle tile h hi hctrl
    obtain ⟨handle', hlinked⟩ := hlink h hi hctrl
    exact ⟨i, k, handle, handle', rfl, hlinked⟩
  | succ fuel ih =>
    intro i k handle tile h hi hctrl
    by_cases hjoin : k < mpliteLogmax ∧ buddy i k + 2 ^ k ≤ handle.nBlock ∧
        handle.aCtrl (buddy i k) = mpliteCtrlFree ||| k
    · obtain ⟨c, tile', handle1, hround, h1, hc, hctrl1⟩ :=
        h.merge_step hi hjoin.1 hjoin.2.1 hjoin.2.2
      rw [hround]
      exact ih h1 hc hctrl1
    · obtain ⟨handle', hlinked⟩ := hlink h hi hctrl
      refine ⟨i, k, handle, handle', ?_, hlinked⟩
      rw [mpliteMerge_succ, if_neg hjoin]

/-- A chunk may be taken in hand, and control bytes of its blocks be written. -/
theorem MplitePool.takeHand (h : MplitePool tile none handle) (i : ℕ) :
    MplitePool tile (some i) handle :=
  ⟨h.tiled, h.small, h.lists, fun hj _ => h.ctrl hj (by simp)⟩

theorem MplitePool.setCtrl_inside {t : Tile} {j : ℕ} (h : MplitePool tile (some i) handle)
    (hi : tile i = some t) (hj : i ≤ j ∧ j < i + 2 ^ t.log) (ctrl : ℕ) :
    MplitePool tile (some i) (handle.setCtrl j ctrl) where
  tiled := h.tiled
  small := h.small
  lists := h.lists
  ctrl {c s} hc hne := by
    have hother : c ≠ j := by
      rintro rfl
      exact hne (congrArg some (h.tiled.eq_of_mem hi hc hj).symm)
    exact (Function.update_of_ne hother _ _).trans (h.ctrl hc hne)

/-- **What a free does.** -/
theorem MplitePool.free_eq (h : MplitePool tile none handle) (hatom : 0 < handle.szAtom)
    (hlive : liveLog tile i = some k) (hcount : 0 < handle.currentCount)
    (hout : Word.wrap 32 (2 ^ k * handle.szAtom) ≤ handle.currentOut)
    (hboth : 0 < handle.currentOut - Word.wrap 32 (2 ^ k * handle.szAtom) ↔
      0 < handle.currentCount - 1) :
    ∃ aiFreelist links aCtrl, mpliteFreeUnsafe (handle.zPool + i * handle.szAtom) handle =
      some (Mplite.rechunk
        { handle with
          currentCount := handle.currentCount - 1
          currentOut := handle.currentOut - Word.wrap 32 (2 ^ k * handle.szAtom) }
        aiFreelist links aCtrl) := by
  have hi := liveLog_eq_some.mp hlive
  have hpos := Nat.two_pow_pos k
  have hwithin : i + 2 ^ k ≤ handle.nBlock := h.tiled.within hi
  have hsmall := h.small
  have hk : k ≤ mpliteLogmax := h.log_le hi
  have hoffset : ((handle.zPool + i * handle.szAtom : ℕ) : ℤ) - handle.zPool =
      (i : ℤ) * handle.szAtom := by
    push_cast
    ring
  have hindex : toInt32 ((i * handle.szAtom : ℤ).tdiv handle.szAtom) = i := by
    rw [Int.mul_tdiv_cancel _ (by omega), toInt32, Int.bmod_eq_of_le] <;> omega
  have hbyte : handle.aCtrl i = k := h.ctrl hi (by simp)
  have hlast : i ≤ i + 2 ^ k - 1 ∧ i + 2 ^ k - 1 < i + 2 ^ k := by
    clear hbyte hindex hoffset
    omega
  have hself : i ≤ i ∧ i < i + 2 ^ k := ⟨le_rfl, Nat.lt_add_of_pos_right hpos⟩
  have hfirst : 0 ≤ (i : ℤ) ∧ (i : ℤ) < handle.nBlock := by
    clear hbyte hindex hoffset
    omega
  have hroom : i + 2 ^ k - 1 < handle.nBlock := by
    clear hbyte hindex hoffset
    omega
  simp only [mpliteFreeUnsafe, hoffset, hindex, Int.toNat_natCast, hbyte, (mpliteCtrl_live hk).1]
  rw [if_pos ⟨hfirst.1, hfirst.2, Int.mul_tmod_left _ _, (mpliteCtrl_live hk).2⟩,
    if_pos ⟨hroom, hcount, hout, hboth⟩]
  -- the loop begins with the chunk in hand
  have hrest : ∀ handle1, MplitePool tile (some i) handle1 →
      handle1.aCtrl i = mpliteCtrlFree ||| k → ∃ aiFreelist links aCtrl,
        ((mpliteMerge (mpliteLogmax + 1) i k handle1).bind fun x => mpliteLink x.1 x.2.1 x.2.2) =
          some (handle1.rechunk aiFreelist links aCtrl) := by
    intro handle1 h1 hctrl1
    obtain ⟨c, l, handle2, handle', hmerge, hlink⟩ := h1.merge_returns (mpliteLogmax + 1) hi hctrl1
    obtain ⟨_, _, _, rfl⟩ := mpliteMerge_form _ hmerge
    obtain ⟨_, _, rfl, -⟩ := mpliteLink_lists hlink
    rw [hmerge]
    exact ⟨_, _, _, hlink⟩
  have h1 := ((h.takeHand i).setCtrl_inside hi hself (k ||| mpliteCtrlFree)).setCtrl_inside hi hlast
    ((handle.setCtrl i (k ||| mpliteCtrlFree)).aCtrl (i + 2 ^ k - 1) ||| mpliteCtrlFree)
  have h2 := h1.setCtrl_inside hi hself (mpliteCtrlFree ||| k)
  exact hrest _ (h2.congr rfl rfl rfl) (Function.update_self ..)

end Free

end Shalloc
