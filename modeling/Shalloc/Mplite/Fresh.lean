import Mathlib.Data.Nat.Log
import Mathlib.Tactic.IntervalCases
import Shalloc.Mplite.Defs

/-!
# A pool that was just set up

`mplite_init` carves one free chunk off the pool for each bit of the number of blocks, from
the highest bit down. A first request is served from the chunk of the least bit that is large
enough, if there is one, and then every `assert` on the way holds.

## Main definitions

- `mpliteChunk` — where the chunk of a bit begins
- `MpliteCarved`, `MpliteFresh` — the pool during and after `mplite_init`
- `mpliteLogsize` — the size that a request is rounded up to, as a power of two of atoms

## Main results

- `mpliteInit_fresh` — `mplite_init` leaves a fresh pool
- `MpliteFresh.malloc` — the first request is served iff its size in atoms is no more than
  the number of blocks
-/

namespace Shalloc

variable {n ii i k : ℕ} {handle : Mplite}

section Chunks

/-- The first block of the chunk of bit `ii`, in a pool of `n` blocks: the bits of `n` above
that bit. -/
def mpliteChunk (n ii : ℕ) : ℕ := n / 2 ^ (ii + 1) * 2 ^ (ii + 1)

/-- The chunk of a bit begins where the one of the next higher bit ends. -/
theorem mpliteChunk_succ (n ii : ℕ) :
    mpliteChunk n ii = mpliteChunk n (ii + 1) + if n.testBit (ii + 1) then 2 ^ (ii + 1) else 0 := by
  have hdiv : n / 2 ^ (ii + 1) = 2 * (n / 2 ^ (ii + 1 + 1)) + n / 2 ^ (ii + 1) % 2 := by
    rw [Nat.pow_succ 2 (ii + 1), ← Nat.div_div_eq_div_mul]
    exact (Nat.div_add_mod _ 2).symm
  have hbit : n.testBit (ii + 1) = decide (n / 2 ^ (ii + 1) % 2 = 1) :=
    Nat.testBit_eq_decide_div_mod_eq
  have hpow : 2 ^ (ii + 1 + 1) = 2 * 2 ^ (ii + 1) := by rw [Nat.pow_succ 2 (ii + 1), Nat.mul_comm]
  unfold mpliteChunk
  rw [hdiv, Nat.add_mul, hbit, hpow]
  congr 1
  · rw [Nat.mul_assoc, Nat.mul_left_comm]
  · rcases Nat.mod_two_eq_zero_or_one (n / 2 ^ (ii + 1)) with hzero | hone
    · simp [hzero]
    · simp [hone]

/-- The blocks that are left when the higher bits have their chunks. -/
theorem mpliteChunk_add_mod (n ii : ℕ) : mpliteChunk n ii + n % 2 ^ (ii + 1) = n := by
  unfold mpliteChunk
  rw [Nat.mul_comm]
  exact Nat.div_add_mod n _

/-- A chunk fits in what is left iff its bit is set. -/
theorem mpliteChunk_add_le (n ii : ℕ) : mpliteChunk n ii + 2 ^ ii ≤ n ↔ n.testBit ii = true := by
  have hsplit := mpliteChunk_add_mod n ii
  have hlt : n % 2 ^ (ii + 1) < 2 ^ (ii + 1) := Nat.mod_lt _ (Nat.two_pow_pos _)
  have hbit : (n % 2 ^ (ii + 1)).testBit ii = n.testBit ii := by simp
  rw [← hbit]
  constructor
  · exact fun h => Nat.testBit_of_two_pow_le_and_two_pow_add_one_gt (by omega) hlt
  · intro h
    have hge := Nat.ge_two_pow_of_testBit h
    omega

/-- The chunks of lower bits begin past the end of those of higher ones. -/
theorem mpliteChunk_apart {j : ℕ} (hlt : ii < j) (hbit : n.testBit j = true) :
    mpliteChunk n j + 2 ^ j ≤ mpliteChunk n ii := by
  induction j with
  | zero => exact absurd hlt (Nat.not_lt_zero _)
  | succ j ih =>
    have hstep := mpliteChunk_succ n j
    rw [if_pos hbit] at hstep
    rw [← hstep]
    -- between the two bits the chunks only move up
    clear hstep ih hbit
    have hle : ii ≤ j := Nat.le_of_lt_succ hlt
    clear hlt
    induction j, hle using Nat.le_induction with
    | base => exact le_rfl
    | succ j _ ih =>
      have hstep := mpliteChunk_succ n j
      omega

end Chunks

section Lists

/-- The control bytes of a free chunk tell its size. -/
theorem mpliteCtrl_land (h : ii ≤ mpliteLogmax) :
    (ii ||| mpliteCtrlFree) &&& mpliteCtrlLogsize = ii ∧
      (mpliteCtrlFree ||| ii) &&& mpliteCtrlLogsize = ii := by
  unfold mpliteLogmax at h
  interval_cases ii <;> decide

/-- Linking a chunk into an empty list. -/
theorem mpliteLink_empty (handle : Mplite) (hi : i < handle.nBlock) (hii : ii ≤ mpliteLogmax)
    (hctrl : handle.aCtrl i &&& mpliteCtrlLogsize = ii) (hempty : handle.aiFreelist ii = -1) :
    mpliteLink i ii handle = some ((handle.setLink i ⟨-1, -1⟩).setFreelist ii i) := by
  unfold mpliteLink
  rw [if_pos ⟨hi, hii, hctrl⟩]
  simp only [hempty]
  rfl

end Lists

section Init

/-- The pool when `mplite_init` has carved off the chunks of the bits from `ii` on: each is
alone on the list of its size, and the other lists are empty. -/
structure MpliteCarved (n ii : ℕ) (handle : Mplite) : Prop where
  nBlock : handle.nBlock = n
  freelist : ∀ j, j ≤ mpliteLogmax →
    handle.aiFreelist j = if ii ≤ j ∧ n.testBit j = true then (mpliteChunk n j : ℤ) else -1
  chunk : ∀ j, j ≤ mpliteLogmax → ii ≤ j → n.testBit j = true →
    handle.links (mpliteChunk n j) = ⟨-1, -1⟩ ∧
      handle.aCtrl (mpliteChunk n j) &&& mpliteCtrlLogsize = j

/-- One round of the loop, for a bit that is not set, -/
theorem MpliteCarved.skip (h : MpliteCarved n (ii + 1) handle) (hbit : n.testBit ii = false) :
    MpliteCarved n ii handle where
  nBlock := h.nBlock
  freelist j hj := by
    rw [h.freelist j hj]
    by_cases heq : j = ii
    · subst heq
      simp [hbit]
    · have hiff : ii + 1 ≤ j ↔ ii ≤ j := by omega
      simp only [hiff]
  chunk j hj hle hset := by
    refine h.chunk j hj (Nat.lt_of_le_of_ne hle ?_) hset
    rintro rfl
    exact absurd (hbit.symm.trans hset) (by simp)

/-- and for one that is. -/
theorem MpliteCarved.carve (h : MpliteCarved n (ii + 1) handle) (hii : ii ≤ mpliteLogmax)
    (hbit : n.testBit ii = true) :
    ∃ handle', mpliteLink (mpliteChunk n ii) ii
        (handle.setCtrl (mpliteChunk n ii) (ii ||| mpliteCtrlFree)) = some handle' ∧
      MpliteCarved n ii handle' ∧ handle'.szAtom = handle.szAtom ∧
        handle'.zPool = handle.zPool := by
  have hfit := (mpliteChunk_add_le n ii).mpr hbit
  have hpos := Nat.two_pow_pos ii
  have hempty : handle.aiFreelist ii = -1 := by
    rw [h.freelist ii hii, if_neg (by omega)]
  have hlink := mpliteLink_empty (handle.setCtrl (mpliteChunk n ii) (ii ||| mpliteCtrlFree))
    (i := mpliteChunk n ii) (show _ < handle.nBlock by rw [h.nBlock]; omega) hii
    (by simp only [Mplite.setCtrl, Function.update_self]; exact (mpliteCtrl_land hii).1) hempty
  refine ⟨_, hlink, ?_, rfl, rfl⟩
  -- the chunks of the higher bits begin elsewhere
  have hne : ∀ j, ii < j → n.testBit j = true → mpliteChunk n j ≠ mpliteChunk n ii := by
    intro j hlt hset heq
    have hapart := mpliteChunk_apart hlt hset
    have hpow := Nat.two_pow_pos j
    omega
  exact
    { nBlock := h.nBlock
      freelist := fun j hj => by
        simp only [Mplite.setFreelist, Mplite.setLink, Mplite.setCtrl]
        by_cases heq : j = ii
        · subst heq
          rw [Function.update_self, if_pos ⟨le_rfl, hbit⟩]
        · have hiff : ii + 1 ≤ j ↔ ii ≤ j := by omega
          rw [Function.update_of_ne heq, h.freelist j hj]
          simp only [hiff]
      chunk := fun j hj hle hset => by
        simp only [Mplite.setFreelist, Mplite.setLink, Mplite.setCtrl]
        cases Nat.eq_or_lt_of_le hle with
        | inl heq =>
          subst heq
          rw [Function.update_self, Function.update_self]
          exact ⟨rfl, (mpliteCtrl_land hj).1⟩
        | inr hlt =>
          rw [Function.update_of_ne (hne j hlt hset), Function.update_of_ne (hne j hlt hset)]
          exact h.chunk j hj hlt hset }

/-- The loop of `mplite_init` from bit `ii` down. -/
theorem mpliteInitLoop_spec (n ii : ℕ) : ∀ (handle : Mplite), ii ≤ mpliteLogmax + 1 →
    MpliteCarved n ii handle →
    ∃ handle', mpliteInitLoop ii (n / 2 ^ ii * 2 ^ ii) handle = some handle' ∧
      MpliteCarved n 0 handle' ∧ handle'.szAtom = handle.szAtom ∧ handle'.zPool = handle.zPool := by
  induction ii with
  | zero => exact fun handle _ h => ⟨handle, rfl, h, rfl, rfl⟩
  | succ ii ih =>
    intro handle hle h
    have hstart : n / 2 ^ (ii + 1) * 2 ^ (ii + 1) = mpliteChunk n ii := rfl
    have hend : n / 2 ^ ii * 2 ^ ii =
        mpliteChunk n ii + if n.testBit ii then 2 ^ ii else 0 := by
      cases ii with
      | zero =>
        have hsplit := mpliteChunk_add_mod n 0
        have hbit : n.testBit 0 = decide (n % 2 = 1) := Nat.testBit_zero ..
        rw [hbit]
        simp only [Nat.pow_zero, Nat.div_one, Nat.mul_one, decide_eq_true_eq]
        split <;> omega
      | succ ii => exact mpliteChunk_succ n ii
    have hlast : handle.nBlock < (n / 2 ^ ii * 2 ^ ii) + 2 ^ ii := by
      rw [h.nBlock, Nat.mul_comm]
      have hmod := Nat.div_add_mod n (2 ^ ii)
      have hlt := Nat.mod_lt n (Nat.two_pow_pos ii)
      omega
    rw [hstart]
    simp only [mpliteInitLoop, bind, h.nBlock, mpliteChunk_add_le]
    by_cases hbit : n.testBit ii = true
    · obtain ⟨handle1, hlink, h1, hatom, hpool⟩ := h.carve (by omega) hbit
      obtain ⟨handle2, hloop, h2, hatom2, hpool2⟩ := ih handle1 (by omega) h1
      rw [if_pos hbit] at hend
      refine ⟨handle2, ?_, h2, hatom2.trans hatom, hpool2.trans hpool⟩
      rw [if_pos hbit, hlink]
      simp only [Option.bind_some, h1.nBlock]
      rw [← hend, if_pos (h.nBlock ▸ hlast)]
      exact hloop
    · have hclear : n.testBit ii = false := by simpa using hbit
      obtain ⟨handle2, hloop, h2, hatom2, hpool2⟩ := ih handle (by omega) (h.skip hclear)
      rw [if_neg hbit, Nat.add_zero] at hend
      refine ⟨handle2, ?_, h2, hatom2, hpool2⟩
      rw [if_neg hbit]
      simp only [Option.bind_some, h.nBlock]
      rw [← hend, if_pos (h.nBlock ▸ hlast)]
      exact hloop

/-- A pool of `n` blocks that was just set up. -/
structure MpliteFresh (n : ℕ) (handle : Mplite) : Prop where
  atom : handle.szAtom = mpliteMinAlloc
  small : n < 2 ^ 31
  carved : MpliteCarved n 0 handle

/-- How many blocks there are in `bufSize` bytes: an atom and a control byte for each. -/
def mpliteNumBlocks (bufSize : ℤ) : ℕ := (bufSize / 65).toNat

/-- **`mplite_init`** refuses a NULL pointer and a size that is not positive; otherwise it
returns 0 with a fresh pool. -/
theorem mpliteInit_fresh {addr buf : ℕ} {bufSize : ℤ} (hlt : bufSize < 2 ^ 31) :
    ((addr = 0 ∨ buf = 0 ∨ bufSize ≤ 0) ∧
        mpliteInit addr buf bufSize mpliteMinAlloc handle = some (-1, handle)) ∨
      (0 < addr ∧ 0 < bufSize ∧ ∃ handle',
        mpliteInit addr buf bufSize mpliteMinAlloc handle = some (0, handle') ∧
          MpliteFresh (mpliteNumBlocks bufSize) handle') := by
  by_cases hbad : addr = 0 ∨ buf = 0 ∨ bufSize ≤ 0
  · refine Or.inl ⟨hbad, ?_⟩
    rw [mpliteInit, if_pos]
    tauto
  · refine Or.inr ⟨by omega, by omega, ?_⟩
    have hatom : mpliteAtomLoop 3 (2 ^ mpliteLogarithm (mpliteMinAlloc : ℕ)) = 64 := by decide
    have hsmall : mpliteNumBlocks bufSize < 2 ^ 31 := by
      unfold mpliteNumBlocks
      omega
    have hzero : mpliteNumBlocks bufSize / 2 ^ (mpliteLogmax + 1) * 2 ^ (mpliteLogmax + 1) = 0 := by
      rw [Nat.div_eq_of_lt (by exact hsmall), Nat.zero_mul]
    have hgood : ¬ (addr = 0 ∨ buf = 0 ∨ bufSize ≤ 0 ∨ ((mpliteMinAlloc : ℕ) : ℤ) ≤ 0) := by
      have hpos : ¬ ((mpliteMinAlloc : ℕ) : ℤ) ≤ 0 := by decide
      tauto
    simp only [mpliteInit, if_neg hgood, hatom, bind]
    have hloop := mpliteInitLoop_spec (mpliteNumBlocks bufSize) (mpliteLogmax + 1)
      { szAtom := 64, nBlock := mpliteNumBlocks bufSize, zPool := buf, nAlloc := 0, totalAlloc := 0
        totalExcess := 0, currentOut := 0, currentCount := 0, maxOut := 0, maxCount := 0
        maxRequest := 0, aiFreelist := fun _ => -1, aCtrl := handle.aCtrl, links := handle.links }
      le_rfl ⟨rfl, fun j hj => by rw [if_neg (by omega)], fun j hj hle _ => by omega⟩
    obtain ⟨handle', hloop, hcarved, hatom', -⟩ := hloop
    rw [hzero] at hloop
    refine ⟨handle', ?_, hatom', hsmall, hcarved⟩
    rw [show ((bufSize / (((64 : ℕ) : ℤ) + 1)).toNat) = mpliteNumBlocks bufSize from rfl, hloop]
    rfl

end Init

section Malloc

/-- The power of two of atoms that a request of `nByte` bytes is rounded up to. -/
def mpliteLogsize (nByte : ℕ) : ℕ := Nat.clog 2 ((nByte + 63) / 64)

theorem le_mpliteLogsize {nByte : ℕ} : nByte ≤ 64 * 2 ^ k ↔ mpliteLogsize nByte ≤ k := by
  rw [mpliteLogsize, Nat.clog_le_iff_le_pow (by decide)]
  omega

/-- The loop that rounds a request up. -/
theorem mpliteFullSzLoop_eq (nByte : ℕ) (fuel : ℕ) : ∀ k, k ≤ mpliteLogsize nByte →
    mpliteLogsize nByte < k + fuel →
    mpliteFullSzLoop nByte fuel (64 * 2 ^ k) k =
      some (64 * 2 ^ mpliteLogsize nByte, mpliteLogsize nByte) := by
  induction fuel with
  | zero => exact fun k hle hlt => absurd hlt (by omega)
  | succ fuel ih =>
    intro k hle hlt
    rw [mpliteFullSzLoop]
    by_cases hround : 64 * 2 ^ k < nByte
    · have hne : ¬ mpliteLogsize nByte ≤ k := fun h => absurd (le_mpliteLogsize.mpr h) (by omega)
      rw [if_pos hround, Nat.mul_assoc, ← Nat.pow_succ]
      exact ih (k + 1) (by omega) (by omega)
    · have heq : mpliteLogsize nByte = k :=
        le_antisymm (le_mpliteLogsize.mp (Nat.le_of_not_lt hround)) hle
      rw [if_neg hround, heq]

/-- The loop that looks for a list with a free chunk stops at the first one, or past all. -/
theorem mpliteFindBin_spec (handle : Mplite) (fuel : ℕ) : ∀ k,
    mpliteLogmax < k + fuel →
    (∀ j, k ≤ j → j < mpliteFindBin handle fuel k → handle.aiFreelist j < 0) ∧
      k ≤ mpliteFindBin handle fuel k ∧
      (mpliteFindBin handle fuel k ≤ mpliteLogmax →
        0 ≤ handle.aiFreelist (mpliteFindBin handle fuel k)) := by
  induction fuel with
  | zero =>
    intro k hfuel
    exact ⟨fun j hle hlt => absurd hlt (Nat.not_lt.mpr hle), le_rfl,
      fun hle => absurd hle (Nat.not_le.mpr hfuel)⟩
  | succ fuel ih =>
    intro k hfuel
    rw [mpliteFindBin]
    by_cases hnext : handle.aiFreelist k < 0 ∧ k ≤ mpliteLogmax
    · rw [if_pos hnext]
      obtain ⟨hbefore, hle, hfound⟩ := ih (k + 1) (by omega)
      refine ⟨fun j hkj hj => ?_, by omega, hfound⟩
      cases Nat.eq_or_lt_of_le hkj with
      | inl heq => rw [← heq]; exact hnext.1
      | inr hlt => exact hbefore j hlt hj
    · rw [if_neg hnext]
      exact ⟨fun j hle hlt => absurd hlt (Nat.not_lt.mpr hle), le_rfl, fun hle => by
        by_contra hneg
        exact hnext ⟨by omega, hle⟩⟩

/-- Splitting a chunk down to size `k`, with the lists between empty. -/
theorem mpliteSplit_spec (i k : ℕ) (iBin : ℕ) : ∀ (handle : Mplite), iBin ≤ mpliteLogmax →
    (∀ j, k ≤ j → j < iBin → handle.aiFreelist j = -1) → i + 2 ^ iBin ≤ handle.nBlock →
    ∃ handle', mpliteSplit i k iBin handle = some handle' := by
  induction iBin with
  | zero => exact fun handle _ _ _ => ⟨handle, rfl⟩
  | succ iBin ih =>
    intro handle hmax hempty hroom
    rw [mpliteSplit]
    by_cases hsplit : k < iBin + 1
    · have hpow : 2 ^ (iBin + 1) = 2 * 2 ^ iBin := by rw [Nat.pow_succ, Nat.mul_comm]
      have hpos := Nat.two_pow_pos iBin
      have hlink := mpliteLink_empty
        (handle.setCtrl (i + 2 ^ iBin) (mpliteCtrlFree ||| iBin)) (i := i + 2 ^ iBin)
        (show _ < handle.nBlock by omega) (show iBin ≤ mpliteLogmax by omega)
        (by simp only [Mplite.setCtrl, Function.update_self]; exact (mpliteCtrl_land (by omega)).2)
        (hempty iBin (by omega) (by omega))
      simp only [if_pos hsplit, bind, hlink, Option.bind_some]
      refine ih _ (by omega) (fun j hkj hj => ?_) (show _ ≤ handle.nBlock by omega)
      simp only [Mplite.setFreelist, Mplite.setLink, Mplite.setCtrl]
      rw [Function.update_of_ne (by omega)]
      exact hempty j hkj (by omega)
    · rw [if_neg hsplit]
      exact ⟨handle, rfl⟩

/-- Taking the only chunk off a list. -/
theorem MpliteCarved.unlinkFirst (h : MpliteCarved n 0 handle) (hii : ii ≤ mpliteLogmax)
    (hbit : n.testBit ii = true) :
    mpliteUnlinkFirst ii handle = some (mpliteChunk n ii, handle.setFreelist ii (-1)) := by
  have hfit := (mpliteChunk_add_le n ii).mpr hbit
  have hpos := Nat.two_pow_pos ii
  have hhead : handle.aiFreelist ii = (mpliteChunk n ii : ℤ) := by
    rw [h.freelist ii hii, if_pos ⟨Nat.zero_le _, hbit⟩]
  obtain ⟨hlink, hctrl⟩ := h.chunk ii hii (Nat.zero_le _) hbit
  have hloop : mpliteUnlinkFirstLoop handle (handle.nBlock + 2) (mpliteChunk n ii)
      (mpliteChunk n ii) = some (mpliteChunk n ii : ℤ) := by
    rw [mpliteUnlinkFirstLoop]
    split
    · simp [hlink, mpliteUnlinkFirstLoop]
    · rfl
  have hunlink : mpliteUnlink (mpliteChunk n ii) ii handle = some (handle.setFreelist ii (-1)) := by
    unfold mpliteUnlink
    rw [if_pos ⟨by rw [h.nBlock]; omega, hii, hctrl⟩, hlink]
    rfl
  have hnonneg : ii ≤ mpliteLogmax ∧ 0 ≤ handle.aiFreelist ii := ⟨hii, by rw [hhead]; omega⟩
  rw [mpliteUnlinkFirst, if_pos hnonneg]
  simp only [bind, hhead, hloop, Option.bind_some, Int.toNat_natCast, hunlink]

/-- **The first request of a fresh pool** returns, and is served iff its size in atoms is no
more than the number of blocks. -/
theorem MpliteFresh.malloc (h : MpliteFresh n handle) {nByte : ℕ} (hpos : 0 < nByte)
    (hmax : nByte ≤ mpliteMaxAllocSize) :
    ∃ p handle', mpliteMalloc nByte handle = some (p, handle') ∧
      (p.isSome ↔ 2 ^ mpliteLogsize nByte ≤ n) := by
  have hlog : mpliteLogsize nByte ≤ 24 := by
    apply le_mpliteLogsize.mp
    exact hmax
  -- the statistics of the request are no part of what makes up the pool
  obtain ⟨handle1, hrequest, hcarved, hatom⟩ : ∃ handle1,
      (if nByte > handle.maxRequest then { handle with maxRequest := nByte } else handle) =
        handle1 ∧ MpliteCarved n 0 handle1 ∧ handle1.szAtom = 64 := by
    refine ⟨_, rfl, ?_⟩
    split
    · exact ⟨⟨h.carved.nBlock, h.carved.freelist, h.carved.chunk⟩, h.atom⟩
    · exact ⟨h.carved, h.atom⟩
  have hfull : mpliteFullSzLoop nByte 32 handle1.szAtom 0 =
      some (64 * 2 ^ mpliteLogsize nByte, mpliteLogsize nByte) := by
    rw [hatom]
    exact mpliteFullSzLoop_eq nByte 32 0 (Nat.zero_le _) (by omega)
  obtain ⟨hbefore, hle, hfound⟩ := mpliteFindBin_spec handle1 (mpliteLogmax + 1)
    (mpliteLogsize nByte) (by omega)
  have hbits : ∀ j, j ≤ mpliteLogmax → (0 ≤ handle1.aiFreelist j ↔ n.testBit j = true) := by
    intro j hj
    rw [hcarved.freelist j hj]
    by_cases hbit : n.testBit j = true
    · simp [hbit]
    · simp [hbit]
  have hcall : mpliteMalloc nByte handle = mpliteMallocUnsafe nByte handle := by
    rw [mpliteMalloc, if_neg (by omega), Int.toNat_natCast]
  rw [hcall]
  simp only [mpliteMallocUnsafe, if_neg (Nat.pos_iff_ne_zero.mp hpos), hrequest,
    if_neg (Nat.not_lt.mpr hmax), bind, hfull, Option.bind_some]
  generalize mpliteFindBin handle1 (mpliteLogmax + 1) (mpliteLogsize nByte) = iBin at *
  by_cases hnone : iBin > mpliteLogmax
  · -- no list has a chunk that is large enough
    rw [if_pos hnone]
    refine ⟨none, handle1, rfl, ?_⟩
    simp only [Option.isSome_none, Bool.false_eq_true, false_iff, Nat.not_le]
    apply Nat.lt_pow_two_of_testBit
    intro j hj
    by_cases hmaxj : j ≤ mpliteLogmax
    · have hneg := hbefore j hj (by omega)
      by_contra hbit
      have hset : n.testBit j = true := by simpa using hbit
      have := (hbits j hmaxj).mpr hset
      omega
    · refine Nat.testBit_lt_two_pow (lt_of_lt_of_le h.small ?_)
      exact Nat.pow_le_pow_right (by decide) (by unfold mpliteLogmax at hmaxj; omega)
  · -- the chunk is taken off its list and split
    rw [if_neg hnone]
    have hii : iBin ≤ mpliteLogmax := Nat.le_of_not_lt hnone
    have hbit := (hbits iBin hii).mp (hfound hii)
    have hfit := (mpliteChunk_add_le n iBin).mpr hbit
    simp only [hcarved.unlinkFirst hii hbit, Option.bind_some]
    obtain ⟨handle2, hsplit⟩ := mpliteSplit_spec (mpliteChunk n iBin) (mpliteLogsize nByte) iBin
      (handle1.setFreelist iBin (-1)) hii (fun j hkj hj => by
        simp only [Mplite.setFreelist]
        rw [Function.update_of_ne (by omega), hcarved.freelist j (by omega), if_neg]
        intro hset
        have hneg := hbefore j hkj hj
        have := (hbits j (by omega)).mpr hset.2
        omega)
      (show _ ≤ handle1.nBlock by rw [hcarved.nBlock]; exact hfit)
    rw [hsplit]
    refine ⟨_, _, rfl, ?_⟩
    simp only [Option.isSome_some, true_iff]
    have hpow : 2 ^ mpliteLogsize nByte ≤ 2 ^ iBin := Nat.pow_le_pow_right (by decide) hle
    omega

end Malloc

end Shalloc
