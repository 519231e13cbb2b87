import Mathlib.Logic.Function.Basic
import Shalloc.Nofree.Defs

/-!
# The slab allocator

Model of `buffer_slab/slab.c`: a header at the start of the buffer, a byte per block
after it, and the blocks, all of one size, after that. `size_t` is a 64-bit word and
`unsigned` a 32-bit word; an address inside an object is exact, since a pointer that
wraps is undefined.
-/

namespace Shalloc

/-- `sizeof(slab_header_t)`. -/
def sizeofSlabHeader : ℕ := 48

/-- `UINT_MAX`. -/
def uintMax : ℕ := 2 ^ 32 - 1

/-- `slab_header_t`, with the bytes that `bitmap` points to in `bits`. -/
structure SlabHeader where
  magicStart : ℕ
  blockSize : ℕ
  numBlocks : ℕ
  bitmap : ℕ
  blocks : ℕ
  nextBlock : ℕ
  magicEnd : ℕ
  bits : ℕ → ℕ

/-- The assert of `slab_check`. -/
def slabCheck (header : SlabHeader) : Prop :=
  header.magicStart ≠ 0 ∧ header.magicStart = header.magicEnd

instance (header : SlabHeader) : Decidable (slabCheck header) :=
  inferInstanceAs (Decidable (_ ∧ _))

/-- `slab_address_to_block`: the offset is kept in an `unsigned`. -/
def slabAddressToBlock (header : SlabHeader) (addr : ℕ) : ℕ :=
  if addr < header.blocks then uintMax
  else
    let block := Word.wrap 32 (addr - header.blocks)
    if block % header.blockSize > 0 then uintMax
    else
      let block := block / header.blockSize
      if block ≥ header.numBlocks then uintMax else block

/-- `slab_block_to_address`. -/
def slabBlockToAddress (header : SlabHeader) (block : ℕ) : ℕ :=
  header.blocks + Word.wrap 64 (block * header.blockSize)

/-- The search loop of `slab_find_free_block`, with its counter and its cursor. The
fuel only bounds the recursion: `none` means that the loop goes on. -/
def slabFindFreeBlockLoop (header : SlabHeader) : ℕ → ℕ → ℕ → Option ℕ
  | 0, _, _ => none
  | fuel + 1, i, nextBlock =>
    if i < header.numBlocks then
      if header.bits nextBlock = 0 then some nextBlock
      else slabFindFreeBlockLoop header fuel (Word.wrap 32 (i + 1))
        (Word.wrap 32 (nextBlock + 1) % header.numBlocks)
    else some uintMax

/-- `slab_find_free_block`. A run of more than `num_blocks` rounds has come back to a
counter it had before, so it never ends. -/
def slabFindFreeBlock (header : SlabHeader) : Option ℕ :=
  slabFindFreeBlockLoop header (header.numBlocks + 1) 0 header.nextBlock

/-- The block size that `slab_init` works with: rounded up to `sizeof(long)`. -/
def slabRoundBlockSize (blockSize : ℕ) : ℕ :=
  Word.wrap 64 (blockSize +
    if blockSize % sizeofLong ≠ 0 then sizeofLong - blockSize % sizeofLong else 0)

/-- The start of the blocks: the end of the bitmap, moved up to `sizeof(long)`. -/
def slabAlignBlocks (blocks : ℕ) : ℕ :=
  if blocks % sizeofLong > 0 then blocks + (sizeofLong - blocks % sizeofLong) else blocks

/-- `slab_init`: the return value and the header left at the start of the buffer. -/
def slabInit (buff buffSize blockSize : ℕ) (header : SlabHeader) : Option (ℤ × SlabHeader) :=
  let blockSize := slabRoundBlockSize blockSize
  if buffSize ≤ Word.wrap 64 (sizeofSlabHeader + Word.wrap 64 (blockSize * 2) + sizeofLong) then
    some (-1, header)
  else if blockSize ≤ 0 ∨ buffSize ≤ 0 then some (-2, header)
  else
    let numBlocks := Word.sub 64 buffSize sizeofLong / Word.wrap 64 (blockSize + 1)
    if ¬ numBlocks > 0 then none
    else
      let bitmap := buff + sizeofSlabHeader
      some (0, { magicStart := magicValue
                 blockSize := blockSize
                 numBlocks := numBlocks
                 bitmap := bitmap
                 blocks := slabAlignBlocks (bitmap + numBlocks)
                 nextBlock := 0
                 magicEnd := magicValue
                 bits := fun b => if b < numBlocks then 0 else header.bits b })

/-- `slab_close`: check the header and clear it. -/
def slabClose (header : SlabHeader) : Option SlabHeader :=
  if slabCheck header then
    some { magicStart := 0, blockSize := 0, numBlocks := 0, bitmap := 0, blocks := 0,
           nextBlock := 0, magicEnd := 0, bits := header.bits }
  else none

/-- `slab_alloc`: the returned pointer and the header after the call. `none` is the
failed assert on the size, or a search that does not end. -/
def slabAlloc (size : ℕ) (header : SlabHeader) : Option (Option ℕ × SlabHeader) :=
  if size ≠ header.blockSize then none
  else do
    let b ← slabFindFreeBlock header
    if b = uintMax then some (none, header)
    else some (some (slabBlockToAddress header b),
      { header with
        bits := Function.update header.bits b 1
        nextBlock := Word.wrap 32 (b + 1) % header.numBlocks })

/-- `slab_free`: the two asserts, then the byte of the block is cleared. -/
def slabFree (ptr : ℕ) (header : SlabHeader) : Option SlabHeader :=
  let b := slabAddressToBlock header ptr
  if b ≠ uintMax ∧ header.bits b = 1 then
    some { header with bits := Function.update header.bits b 0 }
  else none

end Shalloc
