import Mathlib.Tactic.IntervalCases
import Mathlib.Tactic.Ring
import Shalloc.Buddy
import Shalloc.Links
import Shalloc.Mplite.Fresh

/-!
# The pool of the buddy allocator

The handle represents a buddy system: the chunks tile the blocks of the pool, the lists of
free chunks are in order, and the control byte of each chunk tells its size and whether it is
free. The control bytes of the other blocks may hold anything, since an allocation or a free
looks at the byte of a block only where a chunk begins.

## Main definitions

- `Mplite.lists` — the lists of free chunks
- `MplitePool` — the handle represents a tiling of its blocks

## Main results

- `mpliteInit_pool`, `MplitePool.malloc`, `MplitePool.free` — the operations on the tiling
-/

namespace Shalloc

open Buddy

variable {i k n : ℕ} {handle handle' : Mplite} {tile : ℕ → Option Tile} {hand : Option ℕ}

section Ctrl

/-- The control byte of a free chunk tells its size and that it is free; -/
theorem mpliteCtrl_free (hk : k ≤ mpliteLogmax) :
    (mpliteCtrlFree ||| k) &&& mpliteCtrlLogsize = k ∧
      (mpliteCtrlFree ||| k) &&& mpliteCtrlFree ≠ 0 := by
  unfold mpliteLogmax at hk
  interval_cases k <;> decide

/-- that of a chunk in use tells its size. -/
theorem mpliteCtrl_live (hk : k ≤ mpliteLogmax) :
    k &&& mpliteCtrlLogsize = k ∧ k &&& mpliteCtrlFree = 0 := by
  unfold mpliteLogmax at hk
  interval_cases k <;> decide

theorem mpliteCtrl_comm (k : ℕ) : k ||| mpliteCtrlFree = mpliteCtrlFree ||| k := Nat.or_comm ..

end Ctrl

section Lists

/-- The chunk that a link leads to. -/
def mpliteIndex (x : ℤ) : Option ℕ := if x < 0 then none else some x.toNat

@[simp] theorem mpliteIndex_natCast (i : ℕ) : mpliteIndex i = some i := by
  simp [mpliteIndex]

theorem mpliteIndex_of_neg {x : ℤ} (h : x < 0) : mpliteIndex x = none := if_pos h

theorem mpliteIndex_of_nonneg {x : ℤ} (h : 0 ≤ x) : mpliteIndex x = some x.toNat :=
  if_neg (Int.not_lt.mpr h)

/-- The lists of free chunks, which are kept in the chunks. -/
def Mplite.lists (handle : Mplite) : Links ℕ ℕ where
  head k := mpliteIndex (handle.aiFreelist k)
  next i := mpliteIndex (handle.links i).next
  prev i := mpliteIndex (handle.links i).prev

/-- Where the pool is: what no operation changes. -/
def Mplite.place (handle : Mplite) : ℕ × ℕ × ℕ := (handle.szAtom, handle.nBlock, handle.zPool)

/-- The handle with other lists. -/
def Mplite.relink (handle : Mplite) (aiFreelist : ℕ → ℤ) (links : ℕ → MpliteLink) : Mplite :=
  { handle with aiFreelist := aiFreelist, links := links }

/-- The lists after an entry of `aiFreelist` was written, -/
theorem Mplite.lists_setFreelist (handle : Mplite) (k : ℕ) (x : ℤ) :
    (handle.setFreelist k x).lists =
      { handle.lists with head := Function.update handle.lists.head k (mpliteIndex x) } := by
  apply Links.ext
  · funext j
    by_cases hj : j = k
    · simp [Mplite.lists, Mplite.setFreelist, hj]
    · simp [Mplite.lists, Mplite.setFreelist, hj]
  · rfl
  · rfl

/-- and after a link was. -/
theorem Mplite.lists_setLink (handle : Mplite) (i : ℕ) (link : MpliteLink) :
    (handle.setLink i link).lists =
      { handle.lists with
        next := Function.update handle.lists.next i (mpliteIndex link.next)
        prev := Function.update handle.lists.prev i (mpliteIndex link.prev) } := by
  apply Links.ext
  · rfl
  all_goals
    funext j
    by_cases hj : j = i
    · simp [Mplite.lists, Mplite.setLink, hj]
    · simp [Mplite.lists, Mplite.setLink, hj]

theorem Mplite.lists_setPrev (handle : Mplite) (i : ℕ) (x : ℤ) :
    (handle.setLink i { handle.links i with prev := x }).lists =
      { handle.lists with prev := Function.update handle.lists.prev i (mpliteIndex x) } := by
  rw [Mplite.lists_setLink]
  exact Links.ext rfl (Function.update_eq_self i _) rfl

theorem Mplite.lists_setNext (handle : Mplite) (i : ℕ) (x : ℤ) :
    (handle.setLink i { handle.links i with next := x }).lists =
      { handle.lists with next := Function.update handle.lists.next i (mpliteIndex x) } := by
  rw [Mplite.lists_setLink]
  exact Links.ext rfl rfl (Function.update_eq_self i _)

/-- `mplite_link` puts a chunk in front of a list. -/
theorem mpliteLink_lists (h : mpliteLink i k handle = some handle') :
    ∃ aiFreelist links, handle' = handle.relink aiFreelist links ∧
      handle'.lists = handle.lists.push i k ∧
      (handle.lists.head k ≠ some i → links i = ⟨handle.aiFreelist k, -1⟩) := by
  unfold mpliteLink at h
  split at h
  · have hneg : mpliteIndex (-1) = none := mpliteIndex_of_neg (by decide)
    by_cases hx : 0 ≤ handle.aiFreelist k
    · have hhead : mpliteIndex (handle.aiFreelist k) = some (handle.aiFreelist k).toNat :=
        mpliteIndex_of_nonneg hx
      have hhead' : handle.lists.head k = some (handle.aiFreelist k).toNat := hhead
      simp only [if_pos hx] at h
      split at h
      · obtain rfl := Option.some.inj h
        refine ⟨_, _, rfl, ?_, fun hne => ?_⟩
        · rw [Mplite.lists_setFreelist, Mplite.lists_setPrev, Mplite.lists_setLink]
          simp only [Links.push, hhead', Links.setAt_some, mpliteIndex_natCast, hhead, hneg]
        · have hother : i ≠ (handle.aiFreelist k).toNat := fun heq => hne (by rw [hhead', ← heq])
          exact (Function.update_of_ne hother _ _).trans (Function.update_self ..)
      · exact absurd h (by simp)
    · have hhead : mpliteIndex (handle.aiFreelist k) = none := mpliteIndex_of_neg (Int.not_le.mp hx)
      have hhead' : handle.lists.head k = none := hhead
      simp only [if_neg hx] at h
      obtain rfl := Option.some.inj h
      refine ⟨_, _, rfl, ?_, fun _ => Function.update_self ..⟩
      rw [Mplite.lists_setFreelist, Mplite.lists_setLink]
      simp only [Links.push, hhead', Links.setAt_none, mpliteIndex_natCast, hhead, hneg]
  · exact absurd h (by simp)

/-- `mplite_unlink` takes a chunk off a list. -/
theorem mpliteUnlink_lists (h : mpliteUnlink i k handle = some handle') :
    ∃ aiFreelist links, handle' = handle.relink aiFreelist links ∧
      handle'.lists = handle.lists.remove i k := by
  unfold mpliteUnlink at h
  split at h
  · -- the previous chunk, or the head of the list, passes over the chunk
    obtain ⟨handle1, hbefore, aiFreelist1, links1, rfl, hlists1⟩ : ∃ handle1,
        (if (handle.links i).prev < 0 then handle.setFreelist k (handle.links i).next
          else handle.setLink (handle.links i).prev.toNat
            { handle.links (handle.links i).prev.toNat with next := (handle.links i).next }) =
          handle1 ∧ ∃ aiFreelist links, handle1 = handle.relink aiFreelist links ∧
        handle1.lists =
          { handle.lists.remove i k with prev := handle.lists.prev } := by
      refine ⟨_, rfl, ?_⟩
      by_cases hprev : (handle.links i).prev < 0
      · have hnone : handle.lists.prev i = none := mpliteIndex_of_neg hprev
        rw [if_pos hprev]
        refine ⟨_, _, rfl, ?_⟩
        rw [Mplite.lists_setFreelist]
        simp only [Links.remove, hnone, Option.isNone_none, if_true, Links.setAt_none]
        rfl
      · have hsome : handle.lists.prev i = some (handle.links i).prev.toNat :=
          mpliteIndex_of_nonneg (Int.not_lt.mp hprev)
        rw [if_neg hprev]
        refine ⟨_, _, rfl, ?_⟩
        rw [Mplite.lists_setNext]
        simp only [Links.remove, hsome, Option.isNone_some, Bool.false_eq_true, if_false,
          Links.setAt_some]
        rfl
    simp only [hbefore, Option.some.injEq] at h
    subst h
    -- and the next chunk passes over it the other way
    by_cases hnext : 0 ≤ (handle.links i).next
    · have hsome : handle.lists.next i = some (handle.links i).next.toNat :=
        mpliteIndex_of_nonneg hnext
      rw [if_pos hnext]
      refine ⟨_, _, rfl, ?_⟩
      rw [Mplite.lists_setPrev, hlists1]
      simp only [Links.remove, hsome, Links.setAt_some]
      rfl
    · have hnone : handle.lists.next i = none := mpliteIndex_of_neg (Int.not_le.mp hnext)
      rw [if_neg hnext]
      refine ⟨_, _, rfl, ?_⟩
      rw [hlists1]
      simp only [Links.remove, hnone, Links.setAt_none]
  · exact absurd h (by simp)

/-- The search along a list ends at a chunk of the list. -/
theorem mpliteUnlinkFirstLoop_on {on : ℕ → Option ℕ} (hlists : handle.lists.Ok on) (fuel : ℕ) :
    ∀ {x iFirst y : ℤ}, (0 ≤ x → on x.toNat = some k) → 0 ≤ iFirst → on iFirst.toNat = some k →
      mpliteUnlinkFirstLoop handle fuel x iFirst = some y → 0 ≤ y ∧ on y.toNat = some k := by
  induction fuel with
  | zero => exact fun _ _ _ h => absurd h (by simp [mpliteUnlinkFirstLoop])
  | succ fuel ih =>
    intro x iFirst y hx hpos hfirst h
    rw [mpliteUnlinkFirstLoop] at h
    split at h
    · next hlt =>
      refine ih (fun hnext => ?_) ?_ ?_ h
      · exact (hlists.next (hx hlt.le) (mpliteIndex_of_nonneg hnext)).1
      · split <;> omega
      · split
        · exact hx hlt.le
        · exact hfirst
    · obtain rfl := Option.some.inj h
      exact ⟨hpos, hfirst⟩

/-- `mplite_unlink_first` takes some chunk off the list. -/
theorem mpliteUnlinkFirst_lists {on : ℕ → Option ℕ} (hlists : handle.lists.Ok on)
    (h : mpliteUnlinkFirst k handle = some (i, handle')) :
    on i = some k ∧ ∃ aiFreelist links, handle' = handle.relink aiFreelist links ∧
      handle'.lists = handle.lists.remove i k := by
  unfold mpliteUnlinkFirst at h
  split at h
  · next hhead =>
    simp only [bind, Option.bind_eq_some_iff, Option.some.injEq, Prod.mk.injEq] at h
    obtain ⟨y, hloop, handle1, hunlink, rfl, rfl⟩ := h
    have hfirst : on (handle.aiFreelist k).toNat = some k :=
      (hlists.head (mpliteIndex_of_nonneg hhead.2)).1
    exact ⟨(mpliteUnlinkFirstLoop_on hlists _ (fun _ => hfirst) hhead.2 hfirst hloop).2,
      mpliteUnlink_lists hunlink⟩
  · exact absurd h (by simp)

/-- A link of a chunk that `mplite_link` does not touch. -/
theorem mpliteLink_links (h : mpliteLink i k handle = some handle') {j : ℕ} (hj : j ≠ i)
    (hhead : handle.lists.head k ≠ some j) : handle'.links j = handle.links j := by
  unfold mpliteLink at h
  split at h
  · by_cases hx : 0 ≤ handle.aiFreelist k
    · have hne : j ≠ (handle.aiFreelist k).toNat := fun heq =>
        hhead (heq ▸ mpliteIndex_of_nonneg hx)
      simp only [if_pos hx] at h
      split at h
      · obtain rfl := Option.some.inj h
        exact (Function.update_of_ne hne _ _).trans (Function.update_of_ne hj _ _)
      · exact absurd h (by simp)
    · simp only [if_neg hx] at h
      obtain rfl := Option.some.inj h
      exact Function.update_of_ne hj _ _
  · exact absurd h (by simp)

/-- A link of a chunk that `mplite_unlink` does not touch. -/
theorem mpliteUnlink_links (h : mpliteUnlink i k handle = some handle') {j : ℕ}
    (hprev : handle.lists.prev i ≠ some j) (hnext : handle.lists.next i ≠ some j) :
    handle'.links j = handle.links j := by
  unfold mpliteUnlink at h
  split at h
  · have hbefore : (if (handle.links i).prev < 0 then handle.setFreelist k (handle.links i).next
        else handle.setLink (handle.links i).prev.toNat
          { handle.links (handle.links i).prev.toNat with next := (handle.links i).next }).links j =
        handle.links j := by
      split
      · rfl
      · next hneg =>
        have hne : j ≠ (handle.links i).prev.toNat := fun heq =>
          hprev (heq ▸ mpliteIndex_of_nonneg (Int.not_lt.mp hneg))
        exact Function.update_of_ne hne _ _
    simp only [Option.some.injEq] at h
    subst h
    split
    · next hpos =>
      have hne : j ≠ (handle.links i).next.toNat := fun heq =>
        hnext (heq ▸ mpliteIndex_of_nonneg hpos)
      exact (Function.update_of_ne hne _ _).trans hbefore
    · exact hbefore
  · exact absurd h (by simp)

/-- A link that is not on a list is not touched. -/
theorem mpliteUnlinkFirst_links {on : ℕ → Option ℕ} (hlists : handle.lists.Ok on)
    (h : mpliteUnlinkFirst k handle = some (i, handle')) (j : ℕ) (hj : on j = none) :
    handle'.links j = handle.links j := by
  have hi := (mpliteUnlinkFirst_lists hlists h).1
  unfold mpliteUnlinkFirst at h
  split at h
  · simp only [bind, Option.bind_eq_some_iff, Option.some.injEq, Prod.mk.injEq] at h
    obtain ⟨y, -, handle1, hunlink, rfl, rfl⟩ := h
    refine mpliteUnlink_links hunlink (fun hprev => ?_) fun hnext => ?_
    · exact absurd ((hlists.prev hi hprev).1.symm.trans hj) (by simp)
    · exact absurd ((hlists.next hi hnext).1.symm.trans hj) (by simp)
  · exact absurd h (by simp)

end Lists

/-- The handle represents the tiling of its blocks: the lists hold the free chunks, and the
control bytes are right. The byte of the chunk `hand` is still to be written. -/
structure MplitePool (tile : ℕ → Option Tile) (hand : Option ℕ) (handle : Mplite) : Prop where
  tiled : Tiled handle.nBlock tile
  small : handle.nBlock < 2 ^ 31
  lists : handle.lists.Ok (freeLog tile)
  ctrl : ∀ {i t}, tile i = some t → some i ≠ hand →
    handle.aCtrl i = if t.free then mpliteCtrlFree ||| t.log else t.log

/-- Free chunks are joined, and each is led to from the head of its list. -/
structure MpliteNeat (tile : ℕ → Option Tile) (handle : Mplite) : Prop where
  merged : Merged (freeLog tile)
  full : handle.lists.Full (freeLog tile)

/-- The block is part of a chunk in use other than the one in hand. -/
def ChunkData (tile : ℕ → Option Tile) (hand : Option ℕ) (j : ℕ) : Prop :=
  ∃ i k, some i ≠ hand ∧ liveLog tile i = some k ∧ i ≤ j ∧ j < i + 2 ^ k

section Steps

/-- A chunk has at most `MPLITE_LOGMAX` as its log. -/
theorem MplitePool.log_le (h : MplitePool tile hand handle) {t : Tile} (hi : tile i = some t) :
    t.log ≤ mpliteLogmax :=
  Nat.le_of_lt_succ (h.tiled.log_lt hi h.small)

/-- No data are in a chunk that is free or in hand. -/
theorem MplitePool.not_data (h : MplitePool tile hand handle) {t : Tile} (hi : tile i = some t)
    (hfree : t.free = true ∨ hand = some i) {j : ℕ} (hj : i ≤ j ∧ j < i + 2 ^ t.log) :
    ¬ ChunkData tile hand j := by
  rintro ⟨c, l, hc, hlive, hcj⟩
  have hc' := liveLog_eq_some.mp hlive
  obtain rfl := h.tiled.eq_of_shared hi hc' hj hcj
  obtain rfl := Option.some.inj (hi.symm.trans hc')
  rcases hfree with hfree | rfl
  · exact absurd hfree (by simp)
  · exact hc rfl

/-- No data are on a list. -/
theorem MplitePool.not_data_of_on (h : MplitePool tile hand handle)
    (hi : freeLog tile i = some k) : ¬ ChunkData tile hand i :=
  h.not_data (freeLog_eq_some.mp hi) (Or.inl rfl)
    ⟨le_rfl, Nat.lt_add_of_pos_right (Nat.two_pow_pos _)⟩

/-- The same chunks are in use, but for the ones in hand. -/
theorem ChunkData.congr {tile' : ℕ → Option Tile} {hand' : Option ℕ} {j : ℕ}
    (h : ChunkData tile hand j)
    (heq : ∀ c, some c ≠ hand → liveLog tile c ≠ none →
      some c ≠ hand' ∧ liveLog tile' c = liveLog tile c) :
    ChunkData tile' hand' j := by
  obtain ⟨c, l, hc, hlive, hcj⟩ := h
  obtain ⟨hc', hsame⟩ := heq c hc (by simp [hlive])
  exact ⟨c, l, hc', hsame.trans hlive, hcj⟩

/-- A chunk is put on a list, and its buddy is on none. -/
theorem MpliteNeat.push {tile' : ℕ → Option Tile} (h : MpliteNeat tile handle)
    (hpool : MplitePool tile hand handle) (hnone : freeLog tile i = none) (hdvd : 2 ^ k ∣ i)
    (hbuddy : freeLog tile (buddy i k) ≠ some k)
    (hlists : handle'.lists = handle.lists.push i k)
    (hfree : freeLog tile' = Function.update (freeLog tile) i (some k)) :
    MpliteNeat tile' handle' := by
  refine ⟨?_, ?_⟩
  · rw [hfree]
    exact h.merged.give (fun hj => hpool.tiled.aligned (freeLog_eq_some.mp hj)) hdvd hbuddy
  · rw [hfree, hlists]
    exact h.full.push hpool.lists hnone

/-- A chunk is taken off its list. -/
theorem MpliteNeat.remove {tile' : ℕ → Option Tile} (h : MpliteNeat tile handle)
    (hpool : MplitePool tile hand handle) (hi : freeLog tile i = some k)
    (hlists : handle'.lists = handle.lists.remove i k)
    (hfree : freeLog tile' = Function.update (freeLog tile) i none) : MpliteNeat tile' handle' := by
  refine ⟨?_, ?_⟩
  · rw [hfree]
    exact h.merged.take i
  · rw [hfree, hlists]
    exact h.full.remove hpool.lists hi

/-- The pool is in these parts of the handle. -/
theorem MplitePool.congr (h : MplitePool tile hand handle) (hblock : handle'.nBlock = handle.nBlock)
    (hlists : handle'.lists = handle.lists) (hctrl : handle'.aCtrl = handle.aCtrl) :
    MplitePool tile hand handle' where
  tiled := hblock ▸ h.tiled
  small := hblock ▸ h.small
  lists := hlists ▸ h.lists
  ctrl hi hne := hctrl ▸ h.ctrl hi hne

/-- The control byte of a chunk that is not free, written anew. -/
theorem MplitePool.setCtrl (h : MplitePool tile (some i) handle) (ctrl : ℕ) :
    MplitePool tile (some i) (handle.setCtrl i ctrl) where
  tiled := h.tiled
  small := h.small
  lists := h.lists
  ctrl hj hne := by
    have hother : _ ≠ i := fun heq => hne (congrArg some heq)
    exact (Function.update_of_ne hother _ _).trans (h.ctrl hj hne)

/-- A chunk in hand is handed over again when its control byte is written. -/
theorem MplitePool.give (h : MplitePool tile (some i) handle) (hi : tile i = some ⟨k, false⟩)
    (hctrl : handle.aCtrl i = k) : MplitePool tile none handle where
  tiled := h.tiled
  small := h.small
  lists := h.lists
  ctrl {j t} hj _ := by
    by_cases heq : j = i
    · subst heq
      obtain rfl := Option.some.inj (hi.symm.trans hj)
      exact hctrl
    · exact h.ctrl hj fun hsome => heq (Option.some.inj hsome)

/-- Linking the chunk in hand. -/
theorem MplitePool.link (h : MplitePool tile (some i) handle) (hi : tile i = some ⟨k, false⟩)
    (hctrl : handle.aCtrl i = mpliteCtrlFree ||| k) (hlink : mpliteLink i k handle = some handle') :
    MplitePool (Function.update tile i (some ⟨k, true⟩)) none handle' ∧
      ∃ aiFreelist links, handle' = handle.relink aiFreelist links ∧
        links i = ⟨handle.aiFreelist k, -1⟩ := by
  obtain ⟨aiFreelist, links, rfl, hlists, hself⟩ := mpliteLink_lists hlink
  have hnone : freeLog tile i = none := by simp [freeLog, hi, Tile.freeLog]
  have hhead : handle.lists.head k ≠ some i := fun heq =>
    absurd ((h.lists.head heq).1.symm.trans hnone) (by simp)
  refine ⟨⟨h.tiled.mark hi, h.small, ?_, ?_⟩, aiFreelist, links, rfl, hself hhead⟩
  · rw [hlists, freeLog_update]
    exact h.lists.push hnone
  · intro j t hj _
    by_cases heq : j = i
    · subst heq
      rw [Function.update_self, Option.some.injEq] at hj
      subst hj
      exact hctrl
    · rw [Function.update_of_ne heq] at hj
      exact h.ctrl hj fun hsome => heq (Option.some.inj hsome)

/-- A free chunk that was taken off its list. -/
theorem MplitePool.unlinked (h : MplitePool tile none handle) (hi : freeLog tile i = some k)
    {aiFreelist : ℕ → ℤ} {links : ℕ → MpliteLink}
    (hlists : (handle.relink aiFreelist links).lists = handle.lists.remove i k) :
    MplitePool (Function.update tile i (some ⟨k, false⟩)) (some i)
      (handle.relink aiFreelist links) where
  tiled := h.tiled.mark (freeLog_eq_some.mp hi)
  small := h.small
  lists := by
    rw [hlists, freeLog_update]
    exact h.lists.remove hi
  ctrl {j t} hj hne := by
    have hother : j ≠ i := fun heq => hne (congrArg some heq)
    rw [Function.update_of_ne hother] at hj
    exact h.ctrl hj (by simp)

/-- Splitting the chunk in hand: the upper half becomes free. -/
theorem MplitePool.split (h : MplitePool tile (some i) handle)
    (hi : tile i = some ⟨k + 1, false⟩)
    (hlink : mpliteLink (i + 2 ^ k) k (handle.setCtrl (i + 2 ^ k) (mpliteCtrlFree ||| k)) =
      some handle') :
    MplitePool (Function.update (Function.update tile i (some ⟨k, false⟩)) (i + 2 ^ k)
        (some ⟨k, true⟩)) (some i) handle' ∧ tile (i + 2 ^ k) = none ∧
      handle'.place = handle.place := by
  have hpos := Nat.two_pow_pos k
  have hpow : 2 ^ (k + 1) = 2 ^ k + 2 ^ k := by rw [Nat.pow_succ, Nat.mul_two]
  obtain ⟨aiFreelist, links, rfl, hlists, -⟩ := mpliteLink_lists hlink
  have hinside : tile (i + 2 ^ k) = none := by
    cases hj : tile (i + 2 ^ k) with
    | none => rfl
    | some t =>
      have heq := h.tiled.eq_of_mem hi hj ⟨by omega, by simp only; omega⟩
      omega
  have hnone : freeLog tile i = none := by simp [freeLog, hi, Tile.freeLog]
  have hfree : freeLog (Function.update (Function.update tile i (some ⟨k, false⟩)) (i + 2 ^ k)
      (some ⟨k, true⟩)) = Function.update (freeLog tile) (i + 2 ^ k) (some k) := by
    have hhand : (some (Tile.mk k false)).bind Tile.freeLog = none := rfl
    rw [freeLog_update, freeLog_update, hhand, ← hnone, Function.update_eq_self]
    rfl
  refine ⟨⟨h.tiled.split hi, h.small, ?_, ?_⟩, hinside, rfl⟩
  · rw [hlists, hfree]
    exact h.lists.push (freeLog_of_none hinside)
  · intro j t hj hne
    have hother : j ≠ i := fun heq => hne (congrArg some heq)
    by_cases heq : j = i + 2 ^ k
    · subst heq
      rw [Function.update_self, Option.some.injEq] at hj
      subst hj
      exact Function.update_self ..
    · rw [Function.update_of_ne heq, Function.update_of_ne hother] at hj
      exact (Function.update_of_ne heq _ _).trans (h.ctrl hj hne)

/-- Joining the chunk in hand with its buddy `j`, which was taken off its list. -/
theorem MplitePool.join {j lower upper : ℕ} (h : MplitePool tile (some i) handle) (ctrl : ℕ)
    (hi : tile i = some ⟨k, false⟩) (hj : freeLog tile j = some k)
    (hpair : (lower = i ∧ upper = j) ∨ (lower = j ∧ upper = i)) (hupper : upper = lower + 2 ^ k)
    (hdvd : 2 ^ (k + 1) ∣ lower) {aiFreelist : ℕ → ℤ} {links : ℕ → MpliteLink}
    (hlists : (handle.relink aiFreelist links).lists = handle.lists.remove j k) :
    MplitePool (Function.update (Function.update tile lower (some ⟨k + 1, false⟩)) upper none)
      (some lower)
      (((handle.relink aiFreelist links).setCtrl lower ctrl).setCtrl upper 0) := by
  have hpos := Nat.two_pow_pos k
  have hj' := freeLog_eq_some.mp hj
  have hnone : freeLog tile i = none := by simp [freeLog, hi, Tile.freeLog]
  have hne : lower ≠ upper := by omega
  have hremoved : handle.lists.remove j k |>.Ok (Function.update (freeLog tile) j none) :=
    h.lists.remove hj
  -- the chunk in hand is on no list, so that only the buddy leaves one
  have hfree : Function.update (Function.update (freeLog tile) lower none) upper none =
      Function.update (freeLog tile) j none := by
    rcases hpair with ⟨rfl, rfl⟩ | ⟨rfl, rfl⟩
    · have hsame : Function.update (freeLog tile) lower none = freeLog tile :=
        Function.update_eq_self_iff.mpr hnone.symm
      rw [hsame]
    · apply Function.update_eq_self_iff.mpr
      rw [Function.update_of_ne hne.symm, hnone]
  refine ⟨?_, h.small, ?_, fun {c t} hc hother => ?_⟩
  · subst hupper
    rcases hpair with ⟨rfl, heq⟩ | ⟨rfl, heq⟩
    · exact h.tiled.join hi (heq ▸ hj') hdvd
    · exact h.tiled.join hj' (heq ▸ hi) hdvd
  · rw [freeLog_update, freeLog_update]
    exact (hfree ▸ hlists ▸ hremoved :)
  · have hlower : c ≠ lower := fun heq => hother (congrArg some heq)
    have hnot : c ≠ upper := by
      rintro rfl
      rw [Function.update_self] at hc
      exact absurd hc (by simp)
    rw [Function.update_of_ne hnot, Function.update_of_ne hlower] at hc
    refine ((Function.update_of_ne hnot _ _).trans (Function.update_of_ne hlower _ _)).trans ?_
    refine h.ctrl hc fun heq => ?_
    obtain rfl := Option.some.inj heq
    omega

end Steps

section Place

theorem mpliteLink_place (h : mpliteLink i k handle = some handle') :
    handle'.place = handle.place := by
  obtain ⟨_, _, rfl, -⟩ := mpliteLink_lists h
  rfl

theorem mpliteUnlink_place (h : mpliteUnlink i k handle = some handle') :
    handle'.place = handle.place := by
  obtain ⟨_, _, rfl, -⟩ := mpliteUnlink_lists h
  rfl

theorem mpliteUnlinkFirst_place (h : mpliteUnlinkFirst k handle = some (i, handle')) :
    handle'.place = handle.place := by
  unfold mpliteUnlinkFirst at h
  split at h
  · simp only [bind, Option.bind_eq_some_iff, Option.some.injEq, Prod.mk.injEq] at h
    obtain ⟨_, -, _, hunlink, -, rfl⟩ := h
    exact mpliteUnlink_place hunlink
  · exact absurd h (by simp)

theorem mpliteSplit_place {iBin : ℕ} : ∀ {handle : Mplite},
    mpliteSplit i k iBin handle = some handle' → handle'.place = handle.place := by
  induction iBin with
  | zero =>
    intro handle h
    rw [Option.some.inj h]
  | succ iBin ih =>
    intro handle h
    rw [mpliteSplit] at h
    split at h
    · simp only [bind, Option.bind_eq_some_iff] at h
      obtain ⟨handle1, hlink, hrest⟩ := h
      have hlinked := mpliteLink_place hlink
      exact (ih hrest).trans hlinked
    · rw [Option.some.inj h]

/-- One round of the loop that joins a chunk with its buddies. -/
theorem mpliteMerge_succ (fuel i k : ℕ) (handle : Mplite) :
    mpliteMerge (fuel + 1) i k handle =
      if k < mpliteLogmax ∧ buddy i k + 2 ^ k ≤ handle.nBlock ∧
          handle.aCtrl (buddy i k) = mpliteCtrlFree ||| k then
        (mpliteUnlink (buddy i k) k handle).bind fun handle =>
          if buddy i k < i then
            mpliteMerge fuel (buddy i k) (k + 1)
              ((handle.setCtrl (buddy i k) (mpliteCtrlFree ||| (k + 1))).setCtrl i 0)
          else
            mpliteMerge fuel i (k + 1)
              ((handle.setCtrl i (mpliteCtrlFree ||| (k + 1))).setCtrl (buddy i k) 0)
      else some (i, k, handle) := rfl

theorem mpliteMerge_place (fuel : ℕ) : ∀ {i k c l : ℕ} {handle : Mplite},
    mpliteMerge fuel i k handle = some (c, l, handle') → handle'.place = handle.place := by
  induction fuel with
  | zero =>
    intro i k c l handle h
    rw [mpliteMerge] at h
    rw [(Prod.mk.inj (Prod.mk.inj (Option.some.inj h)).2).2]
  | succ fuel ih =>
    intro i k c l handle h
    rw [mpliteMerge_succ] at h
    split at h
    · obtain ⟨handle1, hunlink, hrest⟩ := Option.bind_eq_some_iff.mp h
      have hunlinked := mpliteUnlink_place hunlink
      split at hrest
      · exact (ih hrest).trans hunlinked
      · exact (ih hrest).trans hunlinked
    · rw [(Prod.mk.inj (Prod.mk.inj (Option.some.inj h)).2).2]

end Place

section Init

/-- The loop of `mplite_init`: the chunks before the offset are free, and at most one chunk of
each smaller size fits after it. -/
theorem mpliteInitLoop_pool (ii : ℕ) : ∀ {iOffset : ℕ} {handle : Mplite} {tile : ℕ → Option Tile},
    ii ≤ mpliteLogmax + 1 → Tiled iOffset tile → 2 ^ ii ∣ iOffset → iOffset ≤ handle.nBlock →
    handle.nBlock < iOffset + 2 ^ ii → handle.nBlock < 2 ^ 31 → handle.lists.Ok (freeLog tile) →
    (∀ {i t}, tile i = some t → t.free = true ∧ handle.aCtrl i = mpliteCtrlFree ||| t.log) →
    mpliteInitLoop ii iOffset handle = some handle' →
    handle'.place = handle.place ∧ ∃ tile', MplitePool tile' none handle' ∧
      (liveLog tile' = fun _ => none) ∧
      (MpliteNeat tile handle → (∀ {i t}, tile i = some t → ii ≤ t.log) →
        MpliteNeat tile' handle') := by
  induction ii with
  | zero =>
    intro iOffset handle tile _ htiled _ hle hlt hsmall hlists hctrl h
    rw [mpliteInitLoop] at h
    obtain rfl := Option.some.inj h
    obtain rfl : iOffset = handle.nBlock := by omega
    refine ⟨rfl, tile, ⟨htiled, hsmall, hlists, fun hi _ => ?_⟩, funext fun i => ?_,
      fun hneat _ => hneat⟩
    · obtain ⟨hfree, hbyte⟩ := hctrl hi
      rw [hbyte, if_pos hfree]
    · cases hi : tile i with
      | none => exact liveLog_of_none hi
      | some t => simp [liveLog, hi, Tile.liveLog, (hctrl hi).1]
  | succ ii ih =>
    intro iOffset handle tile hmax htiled hdvd hle hlt hsmall hlists hctrl h
    have hpos := Nat.two_pow_pos ii
    have hpow : 2 ^ (ii + 1) = 2 ^ ii + 2 ^ ii := by rw [Nat.pow_succ, Nat.mul_two]
    have hdvd' : 2 ^ ii ∣ iOffset := Nat.dvd_trans (Nat.pow_dvd_pow 2 (Nat.le_succ ii)) hdvd
    rw [mpliteInitLoop] at h
    simp only [bind] at h
    split at h
    · next hroom =>
      -- a free chunk is carved off
      simp only [Option.bind_eq_some_iff, Option.some.injEq, exists_eq_left'] at h
      obtain ⟨_, hlink, h⟩ := h
      obtain ⟨aiFreelist, links, rfl, hlists1, -⟩ := mpliteLink_lists hlink
      have hnew : tile iOffset = none := by
        cases hi : tile iOffset with
        | none => rfl
        | some t =>
          have hwithin := htiled.within hi
          have := Nat.two_pow_pos t.log
          omega
      split at h
      · next hassert =>
        have hlists' : ((handle.setCtrl iOffset (ii ||| mpliteCtrlFree)).relink aiFreelist
            links).lists.Ok (freeLog (Function.update tile iOffset (some ⟨ii, true⟩))) := by
          rw [hlists1, freeLog_update]
          exact hlists.push (freeLog_of_none hnew)
        obtain ⟨hplace, tile', hpool, hlive, hneat'⟩ := ih (by omega) (htiled.extend hdvd')
          (Nat.dvd_add hdvd' (Nat.dvd_refl _))
          (by exact hroom) (by exact hassert) (by exact hsmall) hlists' (fun {i t} hi => by
            by_cases heq : i = iOffset
            · subst heq
              rw [Function.update_self, Option.some.injEq] at hi
              subst hi
              exact ⟨rfl, (Function.update_self ..).trans (mpliteCtrl_comm ii)⟩
            · rw [Function.update_of_ne heq] at hi
              exact ⟨(hctrl hi).1, (Function.update_of_ne heq _ _).trans (hctrl hi).2⟩) h
        refine ⟨hplace, tile', hpool, hlive, fun hneat hlarge => hneat' ⟨?_, ?_⟩
          fun {i t} hi => ?_⟩
        · -- the chunks before are larger
          rw [freeLog_update]
          refine hneat.merged.give (fun hj => htiled.aligned (freeLog_eq_some.mp hj)) hdvd'
            fun hbuddy => ?_
          have hle' := hlarge (freeLog_eq_some.mp hbuddy)
          simp only at hle'
          omega
        · rw [hlists1, freeLog_update]
          exact hneat.full.push hlists (freeLog_of_none hnew)
        · by_cases heq : i = iOffset
          · subst heq
            rw [Function.update_self, Option.some.injEq] at hi
            exact hi ▸ le_rfl
          · rw [Function.update_of_ne heq] at hi
            exact Nat.le_of_succ_le (hlarge hi)
      · exact absurd h (by simp)
    · simp only [Option.bind_some] at h
      split at h
      · next hassert =>
        obtain ⟨hplace, tile', hpool, hlive, hneat'⟩ :=
          ih (by omega) htiled hdvd' hle hassert hsmall hlists hctrl h
        exact ⟨hplace, tile', hpool, hlive, fun hneat hlarge =>
          hneat' hneat fun hi => Nat.le_of_succ_le (hlarge hi)⟩
      · exact absurd h (by simp)

/-- **`mplite_init`** leaves a pool with no chunk in use. -/
theorem mpliteInit_neat {addr buf : ℕ} {bufSize : ℤ} (hlt : bufSize < 2 ^ 31)
    (h : mpliteInit addr buf bufSize mpliteMinAlloc handle = some (0, handle')) :
    0 < bufSize ∧ handle'.place = (64, mpliteNumBlocks bufSize, buf) ∧
      ∃ tile, MplitePool tile none handle' ∧ (liveLog tile = fun _ => none) ∧
        MpliteNeat tile handle' := by
  unfold mpliteInit at h
  split at h
  · exact absurd (congrArg Prod.fst (Option.some.inj h)) (by simp)
  · next hgood =>
    have hatom : mpliteAtomLoop 3 (2 ^ mpliteLogarithm (mpliteMinAlloc : ℕ)) = 64 := by decide
    have hsmall : mpliteNumBlocks bufSize < 2 ^ 31 := by
      unfold mpliteNumBlocks
      omega
    simp only [bind, Option.bind_eq_some_iff, Option.some.injEq, Prod.mk.injEq, true_and,
      hatom] at h
    obtain ⟨_, hloop, rfl⟩ := h
    obtain ⟨hplace, tile, hpool, hlive, hneat⟩ := mpliteInitLoop_pool (mpliteLogmax + 1) le_rfl
      Tiled.empty (Nat.dvd_zero _)
      (Nat.zero_le _) (by rw [Nat.zero_add]; exact hsmall) (by exact hsmall) (Links.Ok.empty _ _)
      (fun hi => absurd hi (by simp)) hloop
    exact ⟨by omega, hplace, tile, hpool, hlive, hneat
      ⟨fun i k hi => absurd hi (by simp [freeLog]), Links.Full.empty _ _⟩
      fun hi => absurd hi (by simp)⟩

theorem mpliteInit_pool {addr buf : ℕ} {bufSize : ℤ} (hlt : bufSize < 2 ^ 31)
    (h : mpliteInit addr buf bufSize mpliteMinAlloc handle = some (0, handle')) :
    0 < bufSize ∧ handle'.place = (64, mpliteNumBlocks bufSize, buf) ∧
      ∃ tile, MplitePool tile none handle' ∧ liveLog tile = fun _ => none := by
  obtain ⟨hpos, hplace, tile, hpool, hlive, -⟩ := mpliteInit_neat hlt h
  exact ⟨hpos, hplace, tile, hpool, hlive⟩

end Init

section Malloc

/-- The loop that rounds a request up ends at a size that is large enough. -/
theorem mpliteFullSzLoop_le (fuel : ℕ) : ∀ {size k iFullSz iLogsize : ℕ},
    mpliteFullSzLoop n fuel size k = some (iFullSz, iLogsize) →
      n ≤ iFullSz ∧ k ≤ iLogsize ∧ iFullSz * 2 ^ k = size * 2 ^ iLogsize := by
  induction fuel with
  | zero => exact fun h => absurd h (by simp [mpliteFullSzLoop])
  | succ fuel ih =>
    intro size k iFullSz iLogsize h
    rw [mpliteFullSzLoop] at h
    split at h
    · obtain ⟨hle, hlog, hsize⟩ := ih h
      refine ⟨hle, by omega, ?_⟩
      rw [Nat.pow_succ, ← Nat.mul_assoc, Nat.mul_right_comm size] at hsize
      exact Nat.eq_of_mul_eq_mul_right (by decide) hsize
    · obtain ⟨rfl, rfl⟩ := Prod.mk.inj (Option.some.inj h)
      exact ⟨by omega, le_rfl, rfl⟩

/-- What a request does that returns. -/
theorem mpliteMallocUnsafe_cases {p : Option ℕ}
    (h : mpliteMallocUnsafe n handle = some (p, handle')) :
    ∃ maxRequest, (p = none ∧ handle' = { handle with maxRequest := maxRequest }) ∨
      ∃ k iBin i handle1 handle2, p = some (handle.zPool + i * handle.szAtom) ∧
        n ≤ mpliteMaxAllocSize ∧
        mpliteFullSzLoop n 32 handle.szAtom 0 = some (handle.szAtom * 2 ^ k, k) ∧
        k ≤ iBin ∧ iBin ≤ mpliteLogmax ∧
        mpliteUnlinkFirst iBin { handle with maxRequest := maxRequest } = some (i, handle1) ∧
        mpliteSplit i k iBin handle1 = some handle2 ∧
        handle' = mpliteCount (handle.szAtom * 2 ^ k) n (handle2.setCtrl i k) := by
  unfold mpliteMallocUnsafe at h
  split at h
  · exact absurd h (by simp)
  · obtain ⟨maxRequest, hrequest⟩ : ∃ maxRequest,
        (if n > handle.maxRequest then { handle with maxRequest := n } else handle) =
          { handle with maxRequest := maxRequest } := by
      split
      · exact ⟨n, rfl⟩
      · exact ⟨handle.maxRequest, rfl⟩
    simp only [hrequest] at h
    refine ⟨maxRequest, ?_⟩
    split at h
    · obtain ⟨rfl, rfl⟩ := Prod.mk.inj (Option.some.inj h)
      exact Or.inl ⟨rfl, rfl⟩
    · next hmax =>
      simp only [bind, Option.bind_eq_some_iff, Prod.exists] at h
      obtain ⟨iFullSz, k, hfull, h⟩ := h
      obtain ⟨-, -, hsize⟩ := mpliteFullSzLoop_le 32 hfull
      rw [Nat.pow_zero, Nat.mul_one] at hsize
      subst hsize
      split at h
      · obtain ⟨rfl, rfl⟩ := Prod.mk.inj (Option.some.inj h)
        exact Or.inl ⟨rfl, rfl⟩
      · next hbin =>
        simp only [Option.bind_eq_some_iff, Prod.exists, Option.some.injEq, Prod.mk.injEq] at h
        obtain ⟨i, handle1, hunlink, handle2, hsplit, rfl, rfl⟩ := h
        have hunlinked := mpliteUnlinkFirst_place hunlink
        have hplace : handle2.place = handle.place := (mpliteSplit_place hsplit).trans hunlinked
        obtain ⟨hatom, hpool⟩ : handle2.szAtom = handle.szAtom ∧ handle2.zPool = handle.zPool :=
          ⟨congrArg Prod.fst hplace, congrArg (fun place => place.2.2) hplace⟩
        have hfirst := (mpliteFindBin_spec { handle with maxRequest := maxRequest }
          (mpliteLogmax + 1) k (by omega)).2.1
        refine Or.inr ⟨k, _, i, handle1, handle2, ?_, Nat.le_of_not_lt hmax, hfull, hfirst,
          Nat.le_of_not_lt hbin, hunlink, hsplit, rfl⟩
        simp only [mpliteCount, Mplite.setCtrl, hatom, hpool]

/-- A request leaves the pool where it is. -/
theorem mpliteMallocUnsafe_place {p : Option ℕ}
    (h : mpliteMallocUnsafe n handle = some (p, handle')) : handle'.place = handle.place := by
  obtain ⟨maxRequest, ⟨-, rfl⟩ | ⟨k, iBin, i, handle1, handle2, -, -, -, -, -, hunlink, hsplit,
    rfl⟩⟩ := mpliteMallocUnsafe_cases h
  · rfl
  · have hunlinked := mpliteUnlinkFirst_place hunlink
    exact (mpliteSplit_place hsplit).trans hunlinked

/-- Splitting the chunk in hand down to size `k`. -/
theorem MplitePool.splits (iBin : ℕ) : ∀ {handle : Mplite} {tile : ℕ → Option Tile},
    MplitePool tile (some i) handle → tile i = some ⟨iBin, false⟩ → k ≤ iBin →
    mpliteSplit i k iBin handle = some handle' →
    ∃ tile', MplitePool tile' (some i) handle' ∧ tile' i = some ⟨k, false⟩ ∧
      liveLog tile' = Function.update (liveLog tile) i (some k) ∧
      (MpliteNeat tile handle → MpliteNeat tile' handle') ∧
      ∀ j, ChunkData tile (some i) j → handle'.links j = handle.links j := by
  induction iBin with
  | zero =>
    intro handle tile h hi hle hsplit
    obtain rfl := Nat.le_zero.mp hle
    rw [mpliteSplit] at hsplit
    obtain rfl := Option.some.inj hsplit
    have hlive : liveLog tile i = some 0 := liveLog_eq_some.mpr hi
    exact ⟨tile, h, hi, (Function.update_eq_self_iff.mpr hlive.symm).symm, id, fun _ _ => rfl⟩
  | succ iBin ih =>
    intro handle tile h hi hle hsplit
    rw [mpliteSplit] at hsplit
    split at hsplit
    · next hlt =>
      simp only [bind, Option.bind_eq_some_iff] at hsplit
      obtain ⟨handle1, hlink, hrest⟩ := hsplit
      have hpos := Nat.two_pow_pos iBin
      obtain ⟨h1, hinside, -⟩ := h.split hi hlink
      obtain ⟨tile', h', hi', hlive', hneat', hdata'⟩ := ih h1
        (by rw [Function.update_of_ne (by omega), Function.update_self]) (by omega) hrest
      refine ⟨tile', h', hi', ?_, fun hneat => hneat' ?_, fun j hj => ?_⟩
      rotate_left
      · -- the buddy of the upper half is in hand
        obtain ⟨_, _, -, hlists, -⟩ := mpliteLink_lists hlink
        have hdvd : 2 ^ (iBin + 1) ∣ i := h.tiled.aligned hi
        have hnone : freeLog tile i = none := by simp [freeLog, hi, Tile.freeLog]
        refine hneat.push h (freeLog_of_none hinside) ?_ ?_ hlists ?_
        · exact Nat.dvd_add (Nat.dvd_trans (Nat.pow_dvd_pow 2 (Nat.le_succ iBin)) hdvd)
            (Nat.dvd_refl _)
        · rw [buddy_upper hdvd, hnone]
          simp
        · have hhand : (some (Tile.mk iBin false)).bind Tile.freeLog = none := rfl
          rw [freeLog_update, freeLog_update, hhand, ← hnone, Function.update_eq_self]
          rfl
      · refine (hdata' j (hj.congr fun c hc hlive => ⟨hc, ?_⟩)).trans ?_
        · have hne : c ≠ i := fun heq => hc (congrArg some heq)
          have hother : c ≠ i + 2 ^ iBin := fun heq => hlive (heq ▸ liveLog_of_none hinside)
          rw [liveLog_update, liveLog_update, Function.update_of_ne hother,
            Function.update_of_ne hne]
        · refine mpliteLink_links hlink (fun heq => ?_) fun hhead => ?_
          · exact h.not_data hi (Or.inr rfl) (by simp only; rw [Nat.pow_succ]; omega) hj
          · exact h.not_data_of_on (h.lists.head hhead).1 hj
      -- the upper half was no chunk before, and is free now
      have hupper : Function.update (liveLog tile) (i + 2 ^ iBin) none = liveLog tile :=
        Function.update_eq_self_iff.mpr (liveLog_of_none hinside).symm
      calc liveLog tile'
          = Function.update (Function.update (Function.update (liveLog tile) i (some iBin))
              (i + 2 ^ iBin) none) i (some k) := by rw [hlive', liveLog_update, liveLog_update]; rfl
        _ = Function.update (Function.update (Function.update (liveLog tile) (i + 2 ^ iBin) none)
              i (some iBin)) i (some k) := by
              rw [Function.update_comm (show i ≠ i + 2 ^ iBin by omega)]
        _ = Function.update (liveLog tile) i (some k) := by rw [hupper, Function.update_idem]
    · next hnot =>
      obtain rfl := Option.some.inj hsplit
      obtain rfl : k = iBin + 1 := by omega
      exact ⟨tile, h, hi, (Function.update_eq_self_iff.mpr (liveLog_eq_some.mpr hi).symm).symm, id,
        fun _ _ => rfl⟩

/-- **`mplite_malloc_unsafe`** takes a chunk into use that is large enough, or leaves the
pool as it is. -/
theorem MplitePool.malloc {p : Option ℕ} (h : MplitePool tile none handle)
    (hcall : mpliteMallocUnsafe n handle = some (p, handle')) :
    handle'.place = handle.place ∧
      ((p = none ∧ MplitePool tile none handle') ∨
        ∃ i k tile', p = some (handle.zPool + i * handle.szAtom) ∧ n ≤ handle.szAtom * 2 ^ k ∧
          MplitePool tile' none handle' ∧ liveLog tile i = none ∧
          liveLog tile' = Function.update (liveLog tile) i (some k) ∧
          (MpliteNeat tile handle → MpliteNeat tile' handle') ∧
          (∀ j, ChunkData tile none j → handle'.links j = handle.links j) ∧
          mpliteFullSzLoop n 32 handle.szAtom 0 = some (handle.szAtom * 2 ^ k, k)) := by
  refine ⟨mpliteMallocUnsafe_place hcall, ?_⟩
  obtain ⟨maxRequest, ⟨rfl, rfl⟩ | ⟨k, iBin, i, handle1, handle2, rfl, -, hfull, hbin, -, hunlink,
    hsplit, rfl⟩⟩ := mpliteMallocUnsafe_cases hcall
  · exact Or.inl ⟨rfl, h.congr rfl rfl rfl⟩
  · have h0 : MplitePool tile none { handle with maxRequest := maxRequest } := h.congr rfl rfl rfl
    have hunlinked := mpliteUnlinkFirst_links h0.lists hunlink
    obtain ⟨hfree, aiFreelist, links, rfl, hlists⟩ := mpliteUnlinkFirst_lists h0.lists hunlink
    have h1 := h0.unlinked hfree hlists
    obtain ⟨tile', h2, hi', hlive', hneat', hdata'⟩ :=
      h1.splits iBin (Function.update_self ..) hbin hsplit
    have hnone : liveLog tile i = none := by simp [liveLog, freeLog_eq_some.mp hfree, Tile.liveLog]
    refine Or.inr ⟨i, k, tile', rfl, (mpliteFullSzLoop_le 32 hfull).1, ?_, hnone, ?_,
      fun hneat => ?_, fun j hj => ?_, hfull⟩
    · exact ((h2.setCtrl k).give hi' (Function.update_self ..)).congr rfl rfl rfl
    · rw [hlive', liveLog_update, Function.update_idem]
    · have hneat2 := hneat' (hneat.remove h hfree hlists (by rw [freeLog_update]; rfl))
      exact ⟨hneat2.merged, hneat2.full⟩
    · have hon : freeLog tile j = none := by
        by_contra hne
        obtain ⟨l, hl⟩ := Option.ne_none_iff_exists'.mp hne
        exact h.not_data_of_on hl hj
      refine (hdata' j (hj.congr fun c _ hlive => ?_)).trans (hunlinked j hon)
      have hne : c ≠ i := fun heq => hlive (heq ▸ hnone)
      exact ⟨fun heq => hne (Option.some.inj heq), by
        rw [liveLog_update, Function.update_of_ne hne]⟩

end Malloc

section Free

/-- A control byte at the place of a buddy that tells of a free chunk of its size is right. -/
theorem MplitePool.buddy_free (h : MplitePool tile (some i) handle) (hi : tile i = some ⟨k, false⟩)
    (hroom : buddy i k + 2 ^ k ≤ handle.nBlock)
    (hctrl : handle.aCtrl (buddy i k) = mpliteCtrlFree ||| k) :
    freeLog tile (buddy i k) = some k := by
  have hpos := Nat.two_pow_pos k
  obtain ⟨⟨l, f⟩, hj, -⟩ := h.tiled.buddy_tile hi (by simp only; omega)
  have hbyte := h.ctrl hj fun heq => buddy_ne i k (Option.some.inj heq)
  have hk : k ≤ mpliteLogmax := h.log_le hi
  have hl : l ≤ mpliteLogmax := h.log_le hj
  rw [hctrl] at hbyte
  cases f with
  | false =>
    -- the byte of a chunk in use does not have the bit
    rw [if_neg (by simp)] at hbyte
    exact absurd (hbyte ▸ (mpliteCtrl_live hl).2) (mpliteCtrl_free hk).2
  | true =>
    rw [if_pos rfl] at hbyte
    have hlog : l = k := by
      rw [← (mpliteCtrl_free hl).1, ← (mpliteCtrl_free hk).1, hbyte]
    exact freeLog_eq_some.mpr (hlog ▸ hj)

/-- The buddy that is joined is on no list any more. -/
theorem freeLog_join {b lower upper : ℕ} (hi : freeLog tile i = none)
    (hpair : (lower = i ∧ upper = b) ∨ (lower = b ∧ upper = i)) :
    freeLog (Function.update (Function.update tile lower (some ⟨k, false⟩)) upper none) =
      Function.update (freeLog tile) b none := by
  have hsame : Function.update (freeLog tile) i none = freeLog tile :=
    Function.update_eq_self_iff.mpr hi.symm
  have hhand : (some (Tile.mk k false)).bind Tile.freeLog = none := rfl
  rw [freeLog_update, freeLog_update, hhand]
  rcases hpair with ⟨rfl, rfl⟩ | ⟨rfl, rfl⟩
  · rw [hsame]
    rfl
  · by_cases heq : lower = upper
    · rw [heq, Function.update_idem]
      rfl
    · rw [Function.update_comm heq]
      show Function.update (Function.update (freeLog tile) upper none) lower none = _
      rw [hsame]

/-- The data of the others stay when the chunk in hand is joined with its buddy. -/
theorem ChunkData.join {j b lower upper : ℕ} (h : ChunkData tile (some i) j)
    (hb : liveLog tile b = none) (hlower : lower = i ∨ lower = b) (hupper : upper = i ∨ upper = b) :
    ChunkData (Function.update (Function.update tile lower (some ⟨k, false⟩)) upper none)
      (some lower) j := by
  refine h.congr fun c hc hlive => ?_
  have hother : ∀ {x}, x = i ∨ x = b → c ≠ x := by
    rintro x (rfl | rfl) rfl
    · exact hc rfl
    · exact hlive hb
  refine ⟨fun heq => hother hlower (Option.some.inj heq), ?_⟩
  rw [liveLog_update, liveLog_update, Function.update_of_ne (hother hupper),
    Function.update_of_ne (hother hlower)]

/-- Joining the chunk in hand with its buddies: where it ends, and which control bytes stay. -/
theorem MplitePool.merge (fuel : ℕ) : ∀ {i k c l : ℕ} {handle : Mplite} {tile : ℕ → Option Tile},
    MplitePool tile (some i) handle → tile i = some ⟨k, false⟩ →
    handle.aCtrl i = mpliteCtrlFree ||| k → mpliteMerge fuel i k handle = some (c, l, handle') →
    handle'.aCtrl c = mpliteCtrlFree ||| l ∧
      (∀ x, i < x → x < i + 2 ^ k → handle'.aCtrl x = handle.aCtrl x) ∧
      (c = i ∨ (c < i ∧ handle'.aCtrl i = 0)) ∧
      ∃ tile', MplitePool tile' (some c) handle' ∧ tile' c = some ⟨l, false⟩ ∧
        Function.update (liveLog tile') c none = Function.update (liveLog tile) i none ∧
        (mpliteLogmax < k + fuel → freeLog tile' (buddy c l) ≠ some l) ∧
        (MpliteNeat tile handle → MpliteNeat tile' handle') ∧
        ∀ j, ChunkData tile (some i) j → handle'.links j = handle.links j := by
  induction fuel with
  | zero =>
    intro i k c l handle tile h hi hctrl hmerge
    rw [mpliteMerge] at hmerge
    obtain ⟨rfl, heq⟩ := Prod.mk.inj (Option.some.inj hmerge)
    obtain ⟨rfl, rfl⟩ := Prod.mk.inj heq
    refine ⟨hctrl, fun _ _ _ => rfl, Or.inl rfl, tile, h, hi, rfl, fun hfuel => ?_, id,
      fun _ _ => rfl⟩
    have hlog := h.log_le hi
    simp only at hlog
    omega
  | succ fuel ih =>
    intro i k c l handle tile h hi hctrl hmerge
    have hpos := Nat.two_pow_pos k
    have hpow : 2 ^ (k + 1) = 2 ^ k + 2 ^ k := by rw [Nat.pow_succ, Nat.mul_two]
    rw [mpliteMerge_succ] at hmerge
    split at hmerge
    · next hjoin =>
      obtain ⟨-, hroom, hbyte⟩ := hjoin
      obtain ⟨handle1, hunlink, hrest⟩ := Option.bind_eq_some_iff.mp hmerge
      have hj := h.buddy_free hi hroom hbyte
      have hunlinked : ∀ j, ChunkData tile (some i) j → handle1.links j = handle.links j := by
        intro x hx
        refine mpliteUnlink_links hunlink (fun hprev => ?_) fun hnext => ?_
        · exact h.not_data_of_on (h.lists.prev hj hprev).1 hx
        · exact h.not_data_of_on (h.lists.next hj hnext).1 hx
      obtain ⟨aiFreelist, links, rfl, hlists⟩ := mpliteUnlink_lists hunlink
      have hfree : freeLog tile i = none := by simp [freeLog, hi, Tile.freeLog]
      have hdead : liveLog tile (buddy i k) = none := by
        simp [liveLog, freeLog_eq_some.mp hj, Tile.liveLog]
      have hsame : Function.update (liveLog tile) (buddy i k) none = liveLog tile :=
        Function.update_eq_self_iff.mpr hdead.symm
      rcases buddy_cases (h.tiled.aligned hi) with ⟨hdvd, heq⟩ | ⟨hdvd, heq⟩
      · -- the buddy is the lower half, and the chunk is no chunk any more
        simp only at hdvd heq
        have hne : buddy i k ≠ i := buddy_ne i k
        have hlt : buddy i k < i := by omega
        rw [if_pos hlt] at hrest
        have h1 := h.join (mpliteCtrlFree ||| (k + 1)) hi hj (Or.inr ⟨rfl, rfl⟩) heq hdvd
          hlists
        obtain ⟨hend, hkeep, hwhere, tile', h', hc, hlive, hstop, hneat, hdata⟩ := ih h1
          (by rw [Function.update_of_ne hne, Function.update_self])
          ((Function.update_of_ne hne _ _).trans (Function.update_self ..)) hrest
        have hzero : handle'.aCtrl i = 0 :=
          (hkeep i hlt (by omega)).trans (Function.update_self ..)
        refine ⟨hend, fun x hx hx' => ?_, Or.inr ⟨by omega, hzero⟩, tile', h', hc, ?_,
          fun hfuel => hstop (by omega),
          fun hn => hneat (hn.remove h hj hlists (freeLog_join hfree (Or.inr ⟨rfl, rfl⟩))),
          fun j hj => (hdata j (hj.join hdead (Or.inr rfl) (Or.inl rfl))).trans (hunlinked j hj)⟩
        · refine (hkeep x (by omega) (by omega)).trans ?_
          exact (Function.update_of_ne (by omega) _ _).trans (Function.update_of_ne (by omega) _ _)
        · rw [hlive, liveLog_update, liveLog_update, Function.update_comm hne.symm,
            Function.update_idem, hsame]
          rfl
      · -- the buddy is the upper half
        simp only at hdvd heq
        have hne : i ≠ buddy i k := (buddy_ne i k).symm
        rw [if_neg (by omega)] at hrest
        have h1 := h.join (mpliteCtrlFree ||| (k + 1)) hi hj (Or.inl ⟨rfl, rfl⟩) heq hdvd
          hlists
        obtain ⟨hend, hkeep, hwhere, tile', h', hc, hlive, hstop, hneat, hdata⟩ := ih h1
          (by rw [Function.update_of_ne hne, Function.update_self])
          ((Function.update_of_ne hne _ _).trans (Function.update_self ..)) hrest
        refine ⟨hend, fun x hx hx' => ?_, hwhere, tile', h', hc, ?_,
          fun hfuel => hstop (by omega),
          fun hn => hneat (hn.remove h hj hlists (freeLog_join hfree (Or.inl ⟨rfl, rfl⟩))),
          fun j hj => (hdata j (hj.join hdead (Or.inl rfl) (Or.inr rfl))).trans (hunlinked j hj)⟩
        · refine (hkeep x hx (by omega)).trans ?_
          exact (Function.update_of_ne (by omega) _ _).trans (Function.update_of_ne (by omega) _ _)
        · rw [hlive, liveLog_update, liveLog_update, Function.update_comm hne,
            Function.update_idem]
          exact congrArg (fun f => Function.update f i none) hsame
    · next hstop =>
      obtain ⟨rfl, heq⟩ := Prod.mk.inj (Option.some.inj hmerge)
      obtain ⟨rfl, rfl⟩ := Prod.mk.inj heq
      refine ⟨hctrl, fun _ _ _ => rfl, Or.inl rfl, tile, h, hi, rfl, fun _ hbuddy => hstop ?_, id,
        fun _ _ => rfl⟩
      -- a free buddy would have been joined
      have hb := freeLog_eq_some.mp hbuddy
      have hroom : buddy i k + 2 ^ k ≤ handle.nBlock := h.tiled.within hb
      have hroom' : i + 2 ^ k ≤ handle.nBlock := h.tiled.within hi
      refine ⟨?_, hroom, h.ctrl hb fun heq => buddy_ne i k (Option.some.inj heq)⟩
      have hsmall := h.small
      have hlt : 2 ^ (k + 1) < 2 ^ 31 := by
        rw [Nat.pow_succ]
        rcases buddy_cases (h.tiled.aligned hi) with ⟨-, heq⟩ | ⟨-, heq⟩ <;> simp only at heq <;>
          omega
      exact Nat.lt_of_succ_lt_succ ((Nat.pow_lt_pow_iff_right (by decide)).mp hlt)

/-- What a free does that returns. -/
theorem mpliteFreeUnsafe_cases (hatom : 0 < handle.szAtom) (hi : i < 2 ^ 31)
    (h : mpliteFreeUnsafe (handle.zPool + i * handle.szAtom) handle = some handle') :
    ∃ handle1 c l handle2, i < handle.nBlock ∧
      handle1.aCtrl i = mpliteCtrlFree ||| (handle.aCtrl i &&& mpliteCtrlLogsize) ∧
      (∀ x, x ≠ i → x ≠ i + 2 ^ (handle.aCtrl i &&& mpliteCtrlLogsize) - 1 →
        handle1.aCtrl x = handle.aCtrl x) ∧
      handle1.place = handle.place ∧ handle1.lists = handle.lists ∧
      mpliteMerge (mpliteLogmax + 1) i (handle.aCtrl i &&& mpliteCtrlLogsize) handle1 =
        some (c, l, handle2) ∧ mpliteLink c l handle2 = some handle' ∧
      handle1 = { handle with
        aCtrl := handle1.aCtrl
        currentCount := handle.currentCount - 1
        currentOut := handle.currentOut -
          Word.wrap 32 (2 ^ (handle.aCtrl i &&& mpliteCtrlLogsize) * handle.szAtom) } := by
  have hoffset : ((handle.zPool + i * handle.szAtom : ℕ) : ℤ) - handle.zPool =
      (i : ℤ) * handle.szAtom := by
    push_cast
    ring
  have hindex : toInt32 ((i * handle.szAtom : ℤ).tdiv handle.szAtom) = i := by
    rw [Int.mul_tdiv_cancel _ (by omega), toInt32, Int.bmod_eq_of_le] <;> omega
  unfold mpliteFreeUnsafe at h
  simp only [hoffset, hindex, Int.toNat_natCast] at h
  split at h
  · next hcheck =>
    split at h
    · simp only [bind, Option.bind_eq_some_iff, Prod.exists] at h
      obtain ⟨c, l, handle2, hmerge, hlink⟩ := h
      refine ⟨_, c, l, handle2, by omega, ?_, fun x hx hx' => ?_, ?_, ?_, hmerge, hlink, rfl⟩
      · exact Function.update_self ..
      · refine (Function.update_of_ne hx _ _).trans ?_
        exact (Function.update_of_ne hx' _ _).trans (Function.update_of_ne hx _ _)
      · rfl
      · rfl
    · exact absurd h (by simp)
  · exact absurd h (by simp)

/-- The chunk of a live block when the loop that joins it begins. -/
theorem MplitePool.freeing (h : MplitePool tile none handle) (hatom : 0 < handle.szAtom)
    (hlive : liveLog tile i = some k)
    (hcall : mpliteFreeUnsafe (handle.zPool + i * handle.szAtom) handle = some handle') :
    ∃ handle1 c l handle2, MplitePool tile (some i) handle1 ∧
      handle1.aCtrl i = mpliteCtrlFree ||| k ∧
      (∀ x, x < i ∨ i + 2 ^ k ≤ x → handle1.aCtrl x = handle.aCtrl x) ∧
      handle1.place = handle.place ∧
      mpliteMerge (mpliteLogmax + 1) i k handle1 = some (c, l, handle2) ∧
      mpliteLink c l handle2 = some handle' ∧
      handle1 = { handle with
        aCtrl := handle1.aCtrl
        currentCount := handle.currentCount - 1
        currentOut := handle.currentOut - Word.wrap 32 (2 ^ k * handle.szAtom) } := by
  have hi := liveLog_eq_some.mp hlive
  have hpos := Nat.two_pow_pos k
  have hwithin : i + 2 ^ k ≤ handle.nBlock := h.tiled.within hi
  have hsmall := h.small
  obtain ⟨handle1, c, l, handle2, -, hctrl1, hctrl, hplace1, hlists1, hmerge, hlink, hcounts⟩ :=
    mpliteFreeUnsafe_cases hatom (by omega) hcall
  have hbyte : handle.aCtrl i = k := h.ctrl hi (by simp)
  rw [hbyte, (mpliteCtrl_live (h.log_le hi)).1] at hctrl1 hctrl hmerge hcounts
  have hblock1 : handle1.nBlock = handle.nBlock := congrArg (fun place => place.2.1) hplace1
  refine ⟨handle1, c, l, handle2, ?_, hctrl1, fun x hx => hctrl x (by omega) (by simp only; omega),
    hplace1, hmerge, hlink, hcounts⟩
  -- the last block of the chunk is inside of it, or is the chunk
  refine ⟨hblock1 ▸ h.tiled, hblock1 ▸ h.small, hlists1 ▸ h.lists, fun {j t} hj hne => ?_⟩
  have hother : j ≠ i := fun heq => hne (congrArg some heq)
  have hlast : j ≠ i + 2 ^ k - 1 := fun heq =>
    hother (h.tiled.eq_of_mem hi hj ⟨by omega, by simp only; omega⟩).symm
  rw [hctrl j hother hlast]
  exact h.ctrl hj (by simp)

/-- **`mplite_free_unsafe`** takes a chunk out of use. -/
theorem MplitePool.free (h : MplitePool tile none handle) (hatom : 0 < handle.szAtom)
    (hlive : liveLog tile i = some k)
    (hcall : mpliteFreeUnsafe (handle.zPool + i * handle.szAtom) handle = some handle') :
    handle'.place = handle.place ∧ ∃ tile', MplitePool tile' none handle' ∧
      liveLog tile' = Function.update (liveLog tile) i none ∧
      (MpliteNeat tile handle → MpliteNeat tile' handle') ∧
      ∀ j, ChunkData tile (some i) j → handle'.links j = handle.links j := by
  obtain ⟨handle1, c, l, handle2, h1, hctrl1, -, hplace1, hmerge, hlink, hcounts⟩ :=
    h.freeing hatom hlive hcall
  obtain ⟨hctrl2, -, -, tile2, h2, hc, hlive2, hstop, hneat, hdata⟩ :=
    h1.merge _ (liveLog_eq_some.mp hlive) hctrl1 hmerge
  obtain ⟨h', -⟩ := h2.link hc hctrl2 hlink
  have hplace2 := (mpliteMerge_place _ hmerge).trans hplace1
  refine ⟨(mpliteLink_place hlink).trans hplace2, _, h', ?_, fun hn => ?_, fun j hj => ?_⟩
  · rw [liveLog_update]
    exact hlive2
  · have hdvd : 2 ^ l ∣ c := h2.tiled.aligned hc
    have hn1 : MpliteNeat tile handle1 := ⟨hn.merged, by rw [hcounts]; exact hn.full⟩
    obtain ⟨_, _, -, hlists, -⟩ := mpliteLink_lists hlink
    refine (hneat hn1).push h2 ?_ hdvd (hstop (by omega)) hlists (by rw [freeLog_update]; rfl)
    simp [freeLog, hc, Tile.freeLog]
  · -- the data are not in the chunk that is linked
    have hj2 : ChunkData tile2 (some c) j := by
      refine hj.congr fun d hd hlived => ?_
      have hother : d ≠ i := fun heq => hd (congrArg some heq)
      have hsame := congrFun hlive2 d
      rw [Function.update_of_ne hother] at hsame
      by_cases heq : d = c
      · rw [heq, Function.update_self] at hsame
        exact absurd (heq ▸ hsame.symm) hlived
      · rw [Function.update_of_ne heq] at hsame
        exact ⟨fun h => heq (Option.some.inj h), hsame⟩
    have hlinked : handle'.links j = handle2.links j := by
      refine mpliteLink_links hlink (fun heq => ?_) fun hhead =>
        h2.not_data_of_on (h2.lists.head hhead).1 hj2
      exact h2.not_data hc (Or.inr rfl) ⟨le_rfl, Nat.lt_add_of_pos_right (Nat.two_pow_pos _)⟩
        (heq ▸ hj2)
    rw [hlinked, hdata j hj, hcounts]

end Free

end Shalloc
