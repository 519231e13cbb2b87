import Mathlib.Tactic.Linarith
import Shalloc.Slab.Defs

/-!
# Layout of a slab

Where `slab_init` puts the blocks of a slab, which of them `slab_alloc` can hand out,
and whether the last of them still lies in the buffer. The number of blocks is taken
from the size of the buffer less one `long`, while the header and the padding in front
of the blocks are left out of it, so the answer depends on the three arguments.

## Main definitions

- `slabNumBlocks`, `slabBlocksStart`, `slabBlocksEnd` — the layout as a function of
  the arguments of `slab_init`
- `SlabRun` — the headers that a sequence of calls leads to
- `SlabInBounds` — every block handed out lies in the buffer, past the bitmap
-/

namespace Shalloc

/-- The number of blocks of a slab. -/
def slabNumBlocks (buffSize blockSize : ℕ) : ℕ :=
  Word.sub 64 buffSize sizeofLong / Word.wrap 64 (slabRoundBlockSize blockSize + 1)

/-- The address of the first block of a slab. -/
def slabBlocksStart (buff buffSize blockSize : ℕ) : ℕ :=
  slabAlignBlocks (buff + sizeofSlabHeader + slabNumBlocks buffSize blockSize)

/-- The end of the last block whose index fits an `unsigned` other than `UINT_MAX`,
the value kept for "no block". -/
def slabBlocksEnd (buff buffSize blockSize : ℕ) : ℕ :=
  slabBlocksStart buff buffSize blockSize +
    min (slabNumBlocks buffSize blockSize) uintMax * slabRoundBlockSize blockSize

theorem slabRoundBlockSize_lt (blockSize : ℕ) : slabRoundBlockSize blockSize < 2 ^ 64 :=
  Word.wrap_lt 64 _

theorem eight_dvd_slabRoundBlockSize (blockSize : ℕ) : 8 ∣ slabRoundBlockSize blockSize := by
  unfold slabRoundBlockSize Word.wrap sizeofLong
  split <;> omega

/-- Rounding leaves a block size alone iff it is a multiple of 8. -/
theorem slabRoundBlockSize_eq_iff {blockSize : ℕ} (h : blockSize < 2 ^ 64 - 8) :
    blockSize = slabRoundBlockSize blockSize ↔ 8 ∣ blockSize := by
  unfold slabRoundBlockSize sizeofLong
  rw [Word.wrap_of_lt (by split <;> omega)]
  split <;> omega

theorem wrap_slabRoundBlockSize_succ (blockSize : ℕ) :
    Word.wrap 64 (slabRoundBlockSize blockSize + 1) = slabRoundBlockSize blockSize + 1 := by
  have hlt := slabRoundBlockSize_lt blockSize
  have hdvd := eight_dvd_slabRoundBlockSize blockSize
  exact Word.wrap_of_lt (by omega)

/-- The blocks of a slab, with a byte of the bitmap for each, fit the quotient's dividend. -/
theorem slabNumBlocks_mul_le (buffSize blockSize : ℕ) :
    slabNumBlocks buffSize blockSize * (slabRoundBlockSize blockSize + 1) ≤
      Word.sub 64 buffSize sizeofLong := by
  unfold slabNumBlocks
  rw [wrap_slabRoundBlockSize_succ]
  exact Nat.div_mul_le_self _ _

/-- The offset of a block, and that of the end of the last one, fit 64 bits. -/
theorem slab_offset_lt {buffSize blockSize b : ℕ} (hb : b ≤ slabNumBlocks buffSize blockSize) :
    b * slabRoundBlockSize blockSize < 2 ^ 64 := by
  calc b * slabRoundBlockSize blockSize
      ≤ slabNumBlocks buffSize blockSize * (slabRoundBlockSize blockSize + 1) :=
        Nat.mul_le_mul hb (Nat.le_succ _)
    _ ≤ Word.sub 64 buffSize sizeofLong := slabNumBlocks_mul_le _ _
    _ < 2 ^ 64 := Nat.mod_lt _ (by decide)

theorem le_slabAlignBlocks (blocks : ℕ) : blocks ≤ slabAlignBlocks blocks := by
  unfold slabAlignBlocks; split <;> omega

theorem eight_dvd_slabAlignBlocks (blocks : ℕ) : 8 ∣ slabAlignBlocks blocks := by
  unfold slabAlignBlocks sizeofLong; split <;> omega

/-- A header of a slab in use: what `slab_init` wrote and no later call changes, and a
cursor within the bitmap. -/
structure SlabOk (buff buffSize blockSize : ℕ) (header : SlabHeader) : Prop where
  blockSize_eq : header.blockSize = slabRoundBlockSize blockSize
  numBlocks_eq : header.numBlocks = slabNumBlocks buffSize blockSize
  blocks_eq : header.blocks = slabBlocksStart buff buffSize blockSize
  blockSize_pos : 0 < header.blockSize
  numBlocks_pos : 0 < header.numBlocks
  cursor : header.nextBlock < header.numBlocks
  cursor_unsigned : header.nextBlock < 2 ^ 32

section Calls

variable {buff buffSize blockSize size : ℕ} {header header' : SlabHeader}

/-- `slab_init` returns 0 only on a slab it has laid out, with every byte of the bitmap
clear and the sizes accepted by its test. -/
theorem slabInit_ok {raw : SlabHeader}
    (h : slabInit buff buffSize blockSize raw = some (0, header)) :
    SlabOk buff buffSize blockSize header ∧ (∀ b < header.numBlocks, header.bits b = 0) ∧
      header.nextBlock = 0 ∧
      Word.wrap 64 (sizeofSlabHeader + Word.wrap 64 (slabRoundBlockSize blockSize * 2) +
        sizeofLong) < buffSize := by
  unfold slabInit at h
  simp only at h
  split at h
  · simp at h
  · next hsize =>
    split at h
    · simp at h
    · next hpos =>
      split at h
      · simp at h
      · next hblocks =>
        simp only [Option.some.injEq, Prod.mk.injEq, true_and] at h
        subst h
        refine ⟨⟨rfl, rfl, rfl, ?_, Decidable.not_not.mp hblocks, Decidable.not_not.mp hblocks,
          Nat.two_pow_pos 32⟩, ?_, rfl, Nat.lt_of_not_le hsize⟩
        · exact Nat.pos_of_ne_zero fun h0 => hpos (Or.inl (Nat.le_of_eq h0))
        · intro b hb
          exact if_pos hb

/-- The sizes that `slab_init` accepts: they pass its two tests and its assert. -/
def SlabFits (buffSize blockSize : ℕ) : Prop :=
  Word.wrap 64 (sizeofSlabHeader + Word.wrap 64 (slabRoundBlockSize blockSize * 2) + sizeofLong) <
      buffSize ∧
    0 < slabRoundBlockSize blockSize ∧ 0 < slabNumBlocks buffSize blockSize

instance (buffSize blockSize : ℕ) : Decidable (SlabFits buffSize blockSize) :=
  inferInstanceAs (Decidable (_ ∧ _ ∧ _))

/-- `slab_init` returns 0 on the sizes that it accepts, and on no others. -/
theorem slabInit_zero_iff (buff : ℕ) (raw : SlabHeader) :
    (∃ header, slabInit buff buffSize blockSize raw = some (0, header)) ↔
      SlabFits buffSize blockSize := by
  constructor
  · rintro ⟨header, h⟩
    obtain ⟨hok, -, -, hsize⟩ := slabInit_ok h
    refine ⟨hsize, ?_, ?_⟩
    · rw [← hok.blockSize_eq]
      exact hok.blockSize_pos
    · rw [← hok.numBlocks_eq]
      exact hok.numBlocks_pos
  · rintro ⟨hsize, hround, hblocks⟩
    have hzero : ¬ (slabRoundBlockSize blockSize ≤ 0 ∨ buffSize ≤ 0) := by omega
    simp only [slabInit, if_neg (Nat.not_le.mpr hsize), if_neg hzero]
    exact ⟨_, if_neg fun hno => hno hblocks⟩

/-- The magic values of a slab that was set up. -/
theorem slabInit_check {raw : SlabHeader}
    (h : slabInit buff buffSize blockSize raw = some (0, header)) : slabCheck header := by
  unfold slabInit at h
  simp only at h
  split at h
  · simp at h
  split at h
  · simp at h
  split at h
  · simp at h
  · simp only [Option.some.injEq, Prod.mk.injEq, true_and] at h
    subst h
    exact ⟨(by decide : magicValue ≠ 0), rfl⟩

/-- The search returns a free block of the bitmap, or the value for "no block". -/
theorem slabFindFreeBlockLoop_sound (fuel : ℕ) : ∀ i nextBlock b,
    nextBlock < header.numBlocks → nextBlock < 2 ^ 32 →
    slabFindFreeBlockLoop header fuel i nextBlock = some b →
    b = uintMax ∨ (b < header.numBlocks ∧ b < 2 ^ 32 ∧ header.bits b = 0) := by
  induction fuel with
  | zero => intro i nextBlock b _ _ h; simp [slabFindFreeBlockLoop] at h
  | succ fuel ih =>
    intro i nextBlock b hlt h32 h
    have hpos : 0 < header.numBlocks := by omega
    have hmod : Word.wrap 32 (nextBlock + 1) % header.numBlocks < header.numBlocks :=
      Nat.mod_lt _ hpos
    have hmod32 : Word.wrap 32 (nextBlock + 1) % header.numBlocks < 2 ^ 32 :=
      lt_of_le_of_lt (Nat.mod_le _ _) (Word.wrap_lt 32 _)
    simp only [slabFindFreeBlockLoop] at h
    split at h
    · split at h
      · next hfree =>
        obtain rfl := Option.some.inj h
        exact Or.inr ⟨hlt, h32, hfree⟩
      · exact ih _ _ _ hmod hmod32 h
    · exact Or.inl (Option.some.inj h).symm

/-- What a successful `slab_alloc` does: it takes a free block whose index is not the
value for "no block". -/
theorem slabAlloc_some {p : ℕ} (hok : SlabOk buff buffSize blockSize header)
    (h : slabAlloc size header = some (some p, header')) :
    ∃ b, b < min header.numBlocks uintMax ∧ header.bits b = 0 ∧
      p = header.blocks + b * header.blockSize ∧
      header' = { header with
        bits := Function.update header.bits b 1
        nextBlock := (b + 1) % header.numBlocks } := by
  unfold slabAlloc at h
  split at h
  · simp at h
  · cases hfind : slabFindFreeBlock header with
    | none => simp [hfind] at h
    | some b =>
      have hsound := slabFindFreeBlockLoop_sound _ _ _ _ hok.cursor hok.cursor_unsigned hfind
      simp only [hfind, Option.bind_eq_bind, Option.bind_some] at h
      split at h
      · simp at h
      · next hb =>
        obtain ⟨hp, hheader⟩ := Prod.mk.inj (Option.some.inj h)
        obtain ⟨hlt, h32, hfree⟩ := hsound.resolve_left hb
        have hlt32 : b < uintMax := by unfold uintMax at hb ⊢; omega
        have hoff : b * header.blockSize < 2 ^ 64 := by
          rw [hok.blockSize_eq]
          exact slab_offset_lt (by rw [← hok.numBlocks_eq]; omega)
        refine ⟨b, lt_min hlt hlt32, hfree, ?_, ?_⟩
        · rw [← Option.some.inj hp, slabBlockToAddress, Word.wrap_of_lt hoff]
        · have hb1 : Word.wrap 32 (b + 1) = b + 1 :=
            Word.wrap_of_lt (by unfold uintMax at hlt32; omega)
          rw [← hheader, hb1]

/-- `slab_alloc` leaves the layout alone. -/
theorem slabAlloc_ok {ptr : Option ℕ} (hok : SlabOk buff buffSize blockSize header)
    (h : slabAlloc size header = some (ptr, header')) :
    SlabOk buff buffSize blockSize header' := by
  cases ptr with
  | none =>
    unfold slabAlloc at h
    split at h
    · simp at h
    · cases hfind : slabFindFreeBlock header with
      | none => simp [hfind] at h
      | some b =>
        simp only [hfind, Option.bind_eq_bind, Option.bind_some] at h
        split at h
        · obtain ⟨-, rfl⟩ := Prod.mk.inj (Option.some.inj h)
          exact hok
        · simp at h
  | some p =>
    obtain ⟨b, hb, -, -, rfl⟩ := slabAlloc_some hok h
    have hb32 := lt_of_lt_of_le hb (min_le_right _ _)
    refine ⟨hok.blockSize_eq, hok.numBlocks_eq, hok.blocks_eq, hok.blockSize_pos,
    hok.numBlocks_pos, ?_, ?_⟩
    · exact Nat.mod_lt _ hok.numBlocks_pos
    · refine lt_of_le_of_lt (Nat.mod_le _ _) ?_
      unfold uintMax at hb32
      omega

/-- `slab_free` leaves the layout alone. -/
theorem slabFree_ok {ptr : ℕ} (hok : SlabOk buff buffSize blockSize header)
    (h : slabFree ptr header = some header') : SlabOk buff buffSize blockSize header' := by
  unfold slabFree at h
  simp only at h
  split at h
  · obtain rfl := Option.some.inj h
    exact ⟨hok.blockSize_eq, hok.numBlocks_eq, hok.blocks_eq, hok.blockSize_pos, hok.numBlocks_pos,
      hok.cursor, hok.cursor_unsigned⟩
  · simp at h

end Calls

/-- The headers that `slab_init` returning 0 and any `slab_alloc` and `slab_free` calls
after it lead to. -/
inductive SlabRun (buff buffSize blockSize : ℕ) : SlabHeader → Prop
  | init {raw header : SlabHeader} : slabInit buff buffSize blockSize raw = some (0, header) →
      SlabRun buff buffSize blockSize header
  | alloc {header header' : SlabHeader} {size : ℕ} {ptr : Option ℕ} :
      SlabRun buff buffSize blockSize header → slabAlloc size header = some (ptr, header') →
      SlabRun buff buffSize blockSize header'
  | free {header header' : SlabHeader} {ptr : ℕ} :
      SlabRun buff buffSize blockSize header → slabFree ptr header = some header' →
      SlabRun buff buffSize blockSize header'

/-- Every block handed out in any run starts past the header and the bitmap and ends
within the buffer. -/
def SlabInBounds (buff buffSize blockSize : ℕ) : Prop :=
  ∀ header, SlabRun buff buffSize blockSize header → ∀ size p header',
    slabAlloc size header = some (some p, header') →
    buff + sizeofSlabHeader + header.numBlocks ≤ p ∧ p + header.blockSize ≤ buff + buffSize

section Run

variable {buff buffSize blockSize : ℕ} {header : SlabHeader}

theorem slab_run_ok (run : SlabRun buff buffSize blockSize header) :
    SlabOk buff buffSize blockSize header := by
  induction run with
  | init h => exact (slabInit_ok h).1
  | alloc _ h ih => exact slabAlloc_ok ih h
  | free _ h ih => exact slabFree_ok ih h

/-- Allocating on a slab whose cursor stands on a free block takes that block. -/
theorem slabAlloc_at_cursor (hok : SlabOk buff buffSize blockSize header)
    (hfree : header.bits header.nextBlock = 0) (hcursor : header.nextBlock ≠ uintMax) :
    slabAlloc header.blockSize header =
      some (some (slabBlockToAddress header header.nextBlock),
        { header with
          bits := Function.update header.bits header.nextBlock 1
          nextBlock := Word.wrap 32 (header.nextBlock + 1) % header.numBlocks }) := by
  have hfind : slabFindFreeBlock header = some header.nextBlock := by
    simp [slabFindFreeBlock, slabFindFreeBlockLoop, hok.numBlocks_pos, hfree]
  simp [slabAlloc, hfind, hcursor]

/-- The slab can be filled from its first block on: after `n` allocations the first `n`
blocks are taken and the cursor stands on the next one. -/
theorem slab_fill {raw header₀ : SlabHeader}
    (h : slabInit buff buffSize blockSize raw = some (0, header₀)) (n : ℕ)
    (hn : n < min (slabNumBlocks buffSize blockSize) uintMax) :
    ∃ header, SlabRun buff buffSize blockSize header ∧ header.nextBlock = n ∧
      ∀ b, n ≤ b → b < header.numBlocks → header.bits b = 0 := by
  induction n with
  | zero =>
    obtain ⟨-, hbits, hcursor, -⟩ := slabInit_ok h
    exact ⟨header₀, .init h, hcursor, fun b _ => hbits b⟩
  | succ n ih =>
    obtain ⟨header, run, hcursor, hbits⟩ := ih (by omega)
    have hok := slab_run_ok run
    have hlt : n + 1 < header.numBlocks := by rw [hok.numBlocks_eq]; omega
    have huint : n + 1 < uintMax := lt_of_lt_of_le hn (min_le_right _ _)
    have halloc := slabAlloc_at_cursor hok (by rw [hcursor]; exact hbits n le_rfl (by omega))
      (by omega)
    refine ⟨_, .alloc run halloc, ?_, ?_⟩
    · have hwrap : Word.wrap 32 (n + 1) = n + 1 :=
        Word.wrap_of_lt (by unfold uintMax at huint; omega)
      simp only [hcursor, hwrap, Nat.mod_eq_of_lt hlt]
    · intro b hb hbn
      simp only [hcursor]
      rw [Function.update_of_ne (by omega)]
      exact hbits b (by omega) hbn

/-- The last block that can be handed out is handed out in some run, so it lies in the
buffer if every block does. -/
theorem slabBlocksEnd_le_of_inBounds {raw : SlabHeader}
    (h : slabInit buff buffSize blockSize raw = some (0, header))
    (hin : SlabInBounds buff buffSize blockSize) :
    slabBlocksEnd buff buffSize blockSize ≤ buff + buffSize := by
  have hok := (slabInit_ok h).1
  have hpos : 0 < min (slabNumBlocks buffSize blockSize) uintMax :=
    lt_min (hok.numBlocks_eq ▸ hok.numBlocks_pos) (by decide)
  -- fill the slab up to the last block, then ask for that one
  set last := min (slabNumBlocks buffSize blockSize) uintMax - 1 with hlast
  obtain ⟨header, run, hcursor, hbits⟩ := slab_fill h last (by omega)
  have hok := slab_run_ok run
  have hlt : last < header.numBlocks := by rw [hok.numBlocks_eq]; omega
  have halloc := slabAlloc_at_cursor hok (by rw [hcursor]; exact hbits last le_rfl hlt)
    (by omega)
  obtain ⟨-, hend⟩ := hin header run _ _ _ halloc
  have hoff : last * slabRoundBlockSize blockSize < 2 ^ 64 :=
    slab_offset_lt (by rw [← hok.numBlocks_eq]; omega)
  rw [slabBlockToAddress, hcursor, hok.blockSize_eq, Word.wrap_of_lt hoff, hok.blocks_eq] at hend
  have hsucc : min (slabNumBlocks buffSize blockSize) uintMax = last + 1 := by omega
  unfold slabBlocksEnd
  rw [hsucc, Nat.add_mul, Nat.one_mul]
  omega

/-- Every block handed out lies in the buffer if the last one that can be does. -/
theorem slab_inBounds_of_blocksEnd_le
    (hend : slabBlocksEnd buff buffSize blockSize ≤ buff + buffSize) :
    SlabInBounds buff buffSize blockSize := by
  intro header run size p header' halloc
  have hok := slab_run_ok run
  obtain ⟨b, hb, -, rfl, -⟩ := slabAlloc_some hok halloc
  rw [hok.numBlocks_eq] at hb
  have hmul : (b + 1) * slabRoundBlockSize blockSize ≤
      min (slabNumBlocks buffSize blockSize) uintMax * slabRoundBlockSize blockSize :=
    Nat.mul_le_mul_right _ hb
  have halign := le_slabAlignBlocks
    (buff + sizeofSlabHeader + slabNumBlocks buffSize blockSize)
  rw [Nat.add_mul, Nat.one_mul] at hmul
  unfold slabBlocksEnd slabBlocksStart at hend
  rw [hok.numBlocks_eq, hok.blocks_eq, hok.blockSize_eq, slabBlocksStart]
  omega

/-- **Slab blocks and the buffer.** On a slab that `slab_init` accepted, every block ever
handed out lies in the buffer exactly when the last block that can be handed out does. -/
theorem slab_inBounds_iff {raw : SlabHeader}
    (h : slabInit buff buffSize blockSize raw = some (0, header)) :
    SlabInBounds buff buffSize blockSize ↔
      slabBlocksEnd buff buffSize blockSize ≤ buff + buffSize :=
  ⟨slabBlocksEnd_le_of_inBounds h, slab_inBounds_of_blocksEnd_le⟩

/-- Memory before `slab_init`. -/
def slabRaw : SlabHeader where
  magicStart := 0
  blockSize := 0
  numBlocks := 0
  bitmap := 0
  blocks := 0
  nextBlock := 0
  magicEnd := 0
  bits := fun _ => 0

/-- Two blocks of 512 bytes fit a buffer of 1104 bytes at 4096. -/
theorem slab_inBounds_two_blocks : SlabInBounds 4096 1104 512 := by
  have hinit : ∃ header, slabInit 4096 1104 512 slabRaw = some (0, header) := ⟨_, rfl⟩
  obtain ⟨header, hinit⟩ := hinit
  exact (slab_inBounds_iff hinit).mpr (by decide)

/-- A buffer of 1024 bytes at 4096 takes 112 blocks of 8 bytes, the last of which ends
32 bytes past the buffer. -/
theorem slab_not_inBounds :
    ¬ ∀ (buff buffSize blockSize : ℕ) (raw header : SlabHeader),
      slabInit buff buffSize blockSize raw = some (0, header) →
      SlabInBounds buff buffSize blockSize := by
  intro h
  have hinit : ∃ header, slabInit 4096 1024 8 slabRaw = some (0, header) := ⟨_, rfl⟩
  obtain ⟨header, hinit⟩ := hinit
  exact absurd (slabBlocksEnd_le_of_inBounds hinit (h _ _ _ _ _ hinit)) (by decide)

end Run

end Shalloc
