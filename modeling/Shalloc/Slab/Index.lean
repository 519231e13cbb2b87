import Shalloc.Slab.Layout

/-!
# Block indices and addresses

`slab_address_to_block` keeps the offset of an address in an `unsigned`, while the offset of
a block is a `size_t`. The two conversions are inverse as long as offsets fit 32 bits; the
offset of any other address is taken modulo `2 ^ 32` first, and may then be that of a block.

## Main definitions

- `SlabAliased` — the offset of the address is, modulo `2 ^ 32`, that of a block

## Main results

- `slab_index_iff` — when an index comes back, and when an address is told to be no block
-/

namespace Shalloc

variable {buff buffSize blockSize addr b : ℕ} {raw header : SlabHeader}

/-- The low 32 bits of the offset of an address are the offset of a block. -/
def SlabAliased (header : SlabHeader) (addr : ℕ) : Prop :=
  header.blocks ≤ addr ∧
    ∃ b < header.numBlocks, Word.wrap 32 (addr - header.blocks) = b * header.blockSize

section Index

/-- An address is told to be a block iff its truncated offset is that of a block. -/
theorem slabAddressToBlock_eq_iff (hsize : 8 ≤ header.blockSize) :
    slabAddressToBlock header addr ≠ uintMax ↔ SlabAliased header addr := by
  have hpos : 0 < header.blockSize := by omega
  unfold slabAddressToBlock SlabAliased
  by_cases hlo : addr < header.blocks
  · simp only [if_pos hlo]
    exact ⟨fun hne => absurd rfl hne, fun h => absurd h.1 (Nat.not_le.mpr hlo)⟩
  have hle : header.blocks ≤ addr := Nat.le_of_not_lt hlo
  simp only [if_neg hlo]
  generalize hoff : Word.wrap 32 (addr - header.blocks) = off
  have hoff32 : off < 2 ^ 32 := hoff ▸ Word.wrap_lt 32 _
  constructor
  · intro hne
    by_cases hrem : off % header.blockSize > 0
    · exact absurd (if_pos hrem) hne
    rw [if_neg hrem] at hne
    by_cases hrange : off / header.blockSize ≥ header.numBlocks
    · exact absurd (if_pos hrange) hne
    have hdvd : header.blockSize ∣ off := Nat.dvd_of_mod_eq_zero (by omega)
    exact ⟨hle, off / header.blockSize, Nat.lt_of_not_le hrange, (Nat.div_mul_cancel hdvd).symm⟩
  · rintro ⟨-, b, hb, rfl⟩
    have hrem : ¬ b * header.blockSize % header.blockSize > 0 := by simp
    have hdiv : b * header.blockSize / header.blockSize = b := Nat.mul_div_cancel b hpos
    rw [if_neg hrem, hdiv, if_neg (Nat.not_le.mpr hb)]
    -- a block has 8 bytes or more, so that its index is far from the largest one
    have hmul : b * 8 ≤ b * header.blockSize := Nat.mul_le_mul_left b hsize
    unfold uintMax
    omega

/-- The index of a block comes back iff its offset fits 32 bits. -/
theorem slabAddressToBlock_blockToAddress (hok : SlabOk buff buffSize blockSize header)
    (hsize : 8 ≤ header.blockSize) (hb : b < min header.numBlocks uintMax) :
    slabAddressToBlock header (slabBlockToAddress header b) = b ↔
      b * header.blockSize < 2 ^ 32 := by
  have hnum : b < header.numBlocks := lt_of_lt_of_le hb (min_le_left _ _)
  have huint : b < uintMax := lt_of_lt_of_le hb (min_le_right _ _)
  have hoff : b * header.blockSize < 2 ^ 64 := by
    rw [hok.blockSize_eq]
    exact slab_offset_lt (by rw [← hok.numBlocks_eq]; omega)
  have haddr : slabBlockToAddress header b = header.blocks + b * header.blockSize := by
    rw [slabBlockToAddress, Word.wrap_of_lt hoff]
  have hsub : header.blocks + b * header.blockSize - header.blocks = b * header.blockSize := by
    omega
  rw [haddr]
  unfold slabAddressToBlock
  rw [if_neg (by omega), hsub]
  constructor
  · intro hback
    by_contra hlarge
    dsimp only at hback
    split at hback
    · omega
    split at hback
    · omega
    -- the truncated offset is smaller than that of the block
    have hle : Word.wrap 32 (b * header.blockSize) / header.blockSize * header.blockSize ≤
        Word.wrap 32 (b * header.blockSize) := Nat.div_mul_le_self _ _
    have hlt := Word.wrap_lt 32 (b * header.blockSize)
    rw [hback] at hle
    omega
  · intro hsmall
    have hdiv : b * header.blockSize / header.blockSize = b := Nat.mul_div_cancel b (by omega)
    rw [Word.wrap_of_lt hsmall, if_neg (by simp)]
    simp only [hdiv]
    exact if_neg (Nat.not_le.mpr hnum)

/-- The blocks of a slab in use have at least 8 bytes. -/
theorem SlabOk.eight_le (hok : SlabOk buff buffSize blockSize header) : 8 ≤ header.blockSize := by
  have hpos := hok.blockSize_pos
  have hdvd := eight_dvd_slabRoundBlockSize blockSize
  rw [hok.blockSize_eq] at hpos ⊢
  omega

/-- **Indices and addresses.** On a slab that `slab_init` accepted, the index of a block comes
back from its address iff its offset fits 32 bits, and an address that is no block is told to
be none iff its offset is not that of a block modulo `2 ^ 32` either. -/
theorem slab_index_iff (h : slabInit buff buffSize blockSize raw = some (0, header)) :
    (∀ b < min header.numBlocks uintMax,
        (slabAddressToBlock header (slabBlockToAddress header b) = b ↔
          b * header.blockSize < 2 ^ 32)) ∧
      ∀ addr, (∀ b < header.numBlocks, addr ≠ header.blocks + b * header.blockSize) →
        (slabAddressToBlock header addr = uintMax ↔ ¬ SlabAliased header addr) := by
  have hok := (slabInit_ok h).1
  have hsize := hok.eight_le
  refine ⟨fun b hb => slabAddressToBlock_blockToAddress hok hsize hb, fun addr _ => ?_⟩
  rw [← slabAddressToBlock_eq_iff hsize, not_not]

/-- On a slab of two blocks of 512 bytes, both indices come back, and the address between the
two is no block. -/
theorem slab_index_two_blocks : ∃ header, slabInit 4096 1104 512 slabRaw = some (0, header) ∧
    (∀ b < 2, slabAddressToBlock header (slabBlockToAddress header b) = b) ∧
    slabAddressToBlock header (header.blocks + 256) = uintMax := by
  obtain ⟨header, hinit⟩ : ∃ header, slabInit 4096 1104 512 slabRaw = some (0, header) := ⟨_, rfl⟩
  have hok := (slabInit_ok hinit).1
  have hnum : header.numBlocks = 2 := hok.numBlocks_eq.trans (by decide)
  have hsize : header.blockSize = 512 := hok.blockSize_eq.trans (by decide)
  obtain ⟨hback, hnone⟩ := slab_index_iff hinit
  refine ⟨header, hinit, fun b hb => ?_, ?_⟩
  · refine (hback b (by rw [hnum]; exact hb)).mpr ?_
    rw [hsize]
    omega
  · refine (hnone _ fun b hb => ?_).mpr ?_
    · rw [hsize]
      omega
    · rintro ⟨-, b, hb, hoff⟩
      rw [Nat.add_sub_cancel_left, hsize, Word.wrap_of_lt (by decide)] at hoff
      omega

/-- In a buffer of 8 GiB with blocks of a page, the block at an offset of 4 GiB is taken for
the first one. -/
theorem slab_not_index :
    ¬ ∀ (buff buffSize blockSize : ℕ) (raw header : SlabHeader),
      buffSize < 2 ^ 64 → blockSize < 2 ^ 64 →
      slabInit buff buffSize blockSize raw = some (0, header) →
      (∀ b < min header.numBlocks uintMax,
        slabAddressToBlock header (slabBlockToAddress header b) = b) ∧
      ∀ addr, (∀ b < header.numBlocks, addr ≠ header.blocks + b * header.blockSize) →
        slabAddressToBlock header addr = uintMax := by
  intro h
  obtain ⟨header, hinit⟩ : ∃ header, slabInit 4096 (2 ^ 33) 4096 slabRaw = some (0, header) :=
    ⟨_, rfl⟩
  have hok := (slabInit_ok hinit).1
  have hnum : header.numBlocks = 2096640 := hok.numBlocks_eq.trans (by decide)
  have hsize : header.blockSize = 4096 := hok.blockSize_eq.trans (by decide)
  have hlt : 2 ^ 20 < min header.numBlocks uintMax := by
    rw [hnum]
    decide
  have hback := (h 4096 (2 ^ 33) 4096 slabRaw header (by decide) (by decide) hinit).1 (2 ^ 20) hlt
  have hsmall := (slabAddressToBlock_blockToAddress hok hok.eight_le hlt).mp hback
  rw [hsize] at hsmall
  exact absurd hsmall (by decide)

end Index

end Shalloc
