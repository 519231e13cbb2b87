import Shalloc.Word

/-!
# The no-free allocator

Model of `buffer_nofree/nofree.c` and of its adapter
`shalloc/interface/buffer_nofree.c`: a header at the start of the buffer keeps the
address of the next free byte, and an allocation moves it up. `size_t` and pointers
are 64-bit words, so the round-up, the bump and its undoing all wrap.

Addresses are natural numbers, a pointer that may be NULL is an `Option ℕ`, and the
outer `none` of a function stands for a failed `assert`.
-/

namespace Shalloc

/-- `sizeof(long)`. -/
def sizeofLong : ℕ := 8

/-- `sizeof(nofree_header_t)`: an `int`, a pointer and an `int`, padded to 8 bytes. -/
def sizeofNofreeHeader : ℕ := 24

/-- The value that the headers of the no-free and slab allocators carry in both
magic fields. -/
def magicValue : ℕ := 0xdeadbeef

/-- `nofree_header_t`. -/
structure NofreeHeader where
  magicStart : ℕ
  next : ℕ
  magicEnd : ℕ
deriving DecidableEq, Repr

/-- The two asserts of `nofree_check`. -/
def nofreeCheck (header : NofreeHeader) : Prop :=
  header.magicStart ≠ 0 ∧ header.magicStart = header.magicEnd ∧ header.next ≠ 0

instance (header : NofreeHeader) : Decidable (nofreeCheck header) :=
  inferInstanceAs (Decidable (_ ∧ _ ∧ _))

/-- `nofree_align_up`. -/
def nofreeAlignUp (size align : ℕ) : ℕ := Word.alignUp 64 size align

/-- `nofree_init`: the return value and the header left at the start of the buffer. -/
def nofreeInit (buff buffSize : ℕ) (header : NofreeHeader) : ℤ × NofreeHeader :=
  if buffSize ≤ sizeofNofreeHeader then
    (-1, header)
  else
    (0, { magicStart := magicValue
          next := Word.wrap 64 (buff + nofreeAlignUp sizeofNofreeHeader sizeofLong)
          magicEnd := magicValue })

/-- `nofree_close`: check the header and clear it. -/
def nofreeClose (header : NofreeHeader) : Option NofreeHeader :=
  if nofreeCheck header then some { magicStart := 0, next := 0, magicEnd := 0 } else none

/-- `nofree_alloc`: the returned pointer and the header after the call. -/
def nofreeAlloc (buff buffSize size align : ℕ) (header : NofreeHeader) :
    Option (Option ℕ × NofreeHeader) :=
  if ¬ nofreeCheck header then none
  else if size = 0 then some (none, header)
  else
    let size := if align ≠ 0 then nofreeAlignUp size align else size
    let ptr := header.next
    let next := Word.wrap 64 (header.next + size)
    -- the bump comes first, the bounds test looks at the moved pointer
    if next > Word.wrap 64 (buff + buffSize) ∨ next < buff then
      some (none, { header with next := Word.sub 64 next size })
    else
      some (some ptr, { header with next := next })

/-- `_nofree_malloc`: the allocation with alignment `sizeof(long)`. -/
def nofreeMalloc (buff buffSize size : ℕ) (header : NofreeHeader) :
    Option (Option ℕ × NofreeHeader) :=
  nofreeAlloc buff buffSize size sizeofLong header

end Shalloc
