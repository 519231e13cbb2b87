import Shalloc.Region.Defs

/-!
# The simple allocator

Model of `buffer_simple/memmgr.c` and `shalloc/interface/buffer_simple.c`. The control header
is at the start of the buffer and the pool follows it. Each block begins with a header of one
quantum; the free blocks and the block of size 0 in the control header form a circular list
sorted by address.

The headers are a function of their address. A loop over the list is given more rounds than a
list of blocks in the pool can take, and `none` stands for a loop that would go on.

## Main definitions

- `MemHeader`, `Memmgr` — the header of a block and the control header
- `memmgrInit`, `memmgrAlloc`, `memmgrFree` — the allocator
- `simpleOp` — its entry in the table of buffer operations
-/

namespace Shalloc

/-- `sizeof(mem_header_t)`, one quantum. -/
def sizeofMemHeader : ℕ := 16

/-- `sizeof(buff_header_t)`. -/
def sizeofBuffHeader : ℕ := 40

/-- `MIN_POOL_ALLOC_QUANTAS`. -/
def minPoolAllocQuantas : ℕ := 8

/-- `mem_header_t`: the next free block, and the size of the block in quantas. -/
structure MemHeader where
  next : ℕ
  size : ℕ
deriving DecidableEq, Repr

/-- `buff_header_t`, with the headers of all blocks. `base` is the header at the start of the
buffer. -/
structure Memmgr where
  freep : ℕ
  pool : ℕ
  poolFreePos : ℕ
  headers : ℕ → MemHeader

namespace Memmgr

/-- Write the header at `p`. -/
def setHeader (mgr : Memmgr) (p : ℕ) (header : MemHeader) : Memmgr :=
  { mgr with headers := Function.update mgr.headers p header }

/-- `p->s.next = next`. -/
def setNext (mgr : Memmgr) (p next : ℕ) : Memmgr :=
  mgr.setHeader p { mgr.headers p with next := next }

/-- `p->s.size = size`. -/
def setSize (mgr : Memmgr) (p size : ℕ) : Memmgr :=
  mgr.setHeader p { mgr.headers p with size := size }

/-- `p + p->s.size`, the end of the block. -/
def blockEnd (mgr : Memmgr) (p : ℕ) : ℕ := p + (mgr.headers p).size * sizeofMemHeader

end Memmgr

/-- `memmgr_init`. -/
def memmgrInit (buff : ℕ) (mgr : Memmgr) : Memmgr :=
  { freep := 0
    pool := buff + sizeofBuffHeader
    poolFreePos := 0
    headers := Function.update mgr.headers buff ⟨0, 0⟩ }

/-- The loop of `memmgr_free` that looks for the place of `block` in the list. -/
def memmgrFreeLoop (block : ℕ) (mgr : Memmgr) : ℕ → ℕ → Option ℕ
  | 0, _ => none
  | fuel + 1, p =>
    let next := (mgr.headers p).next
    if block > p ∧ block < next then some p
    else if p ≥ next ∧ (block > p ∨ block < next) then some p
    else memmgrFreeLoop block mgr fuel next

/-- More blocks than fit a pool of `buffSize` bytes, and `base`. -/
def memmgrRounds (buffSize : ℕ) : ℕ := buffSize / sizeofMemHeader + 2

/-- `memmgr_free` tries to combine the block with its higher neighbor, the one after `p`. -/
def memmgrJoinHigher (block p : ℕ) (mgr : Memmgr) : Memmgr :=
  let next := (mgr.headers p).next
  if mgr.blockEnd block = next then
    mgr.setHeader block
      ⟨(mgr.headers next).next, Word.wrap 64 ((mgr.headers block).size + (mgr.headers next).size)⟩
  else mgr.setNext block next

/-- `memmgr_free` tries to combine the block with its lower neighbor `p`. -/
def memmgrJoinLower (block p : ℕ) (mgr : Memmgr) : Memmgr :=
  if mgr.blockEnd p = block then
    mgr.setHeader p
      ⟨(mgr.headers block).next, Word.wrap 64 ((mgr.headers p).size + (mgr.headers block).size)⟩
  else mgr.setNext p block

/-- `memmgr_free`. -/
def memmgrFree (buffSize ap : ℕ) (mgr : Memmgr) : Option Memmgr := do
  let block := ap - sizeofMemHeader
  let p ← memmgrFreeLoop block mgr (memmgrRounds buffSize) mgr.freep
  some { memmgrJoinLower block p (memmgrJoinHigher block p mgr) with freep := p }

/-- `get_mem_from_pool`: the new `freep`, or 0 if the pool is used up. -/
def getMemFromPool (buffSize nquantas : ℕ) (mgr : Memmgr) : Option (ℕ × Memmgr) :=
  let nquantas := if nquantas < minPoolAllocQuantas then minPoolAllocQuantas else nquantas
  let totalReqSize := Word.wrap 64 (nquantas * sizeofMemHeader)
  if Word.wrap 64 (mgr.poolFreePos + totalReqSize) ≤ buffSize then do
    let h := mgr.pool + mgr.poolFreePos
    let mgr ← memmgrFree buffSize (h + sizeofMemHeader) (mgr.setSize h nquantas)
    let mgr := { mgr with poolFreePos := Word.wrap 64 (mgr.poolFreePos + totalReqSize) }
    some (mgr.freep, mgr)
  else some (0, mgr)

/-- A block that is large enough is taken off the list, or its tail is cut off. -/
def memmgrTake (nquantas prevp p : ℕ) (mgr : Memmgr) : ℕ × Memmgr :=
  if (mgr.headers p).size = nquantas then
    (p, { mgr.setNext prevp (mgr.headers p).next with freep := prevp })
  else
    let rest := (mgr.headers p).size - nquantas
    let tail := p + rest * sizeofMemHeader
    (tail, { (mgr.setSize p rest).setSize tail nquantas with freep := prevp })

/-- The loop of `memmgr_alloc`. -/
def memmgrAllocLoop (buffSize nquantas : ℕ) : ℕ → ℕ → ℕ → Memmgr → Option (Option ℕ × Memmgr)
  | 0, _, _, _ => none
  | fuel + 1, prevp, p, mgr =>
    if (mgr.headers p).size ≥ nquantas then
      let (p, mgr) := memmgrTake nquantas prevp p mgr
      some (some (p + sizeofMemHeader), mgr)
    else if p = mgr.freep then do
      let (p, mgr) ← getMemFromPool buffSize nquantas mgr
      if p = 0 then some (none, mgr)
      else memmgrAllocLoop buffSize nquantas fuel p (mgr.headers p).next mgr
    else memmgrAllocLoop buffSize nquantas fuel p (mgr.headers p).next mgr

/-- The quantas for a request: the bytes rounded up, and the header. -/
def memmgrQuantas (nbytes : ℕ) : ℕ :=
  Word.wrap 64 (nbytes + sizeofMemHeader - 1) / sizeofMemHeader + 1

/-- The first call of `memmgr_alloc` makes a list of `base` alone. -/
def memmgrStart (buff : ℕ) (mgr : Memmgr) : Memmgr :=
  if mgr.freep = 0 then { mgr.setHeader buff ⟨buff, 0⟩ with freep := buff } else mgr

/-- `memmgr_alloc`. The list is searched, and searched once more after the pool has added a
block to it. -/
def memmgrAlloc (buff buffSize nbytes : ℕ) (mgr : Memmgr) : Option (Option ℕ × Memmgr) :=
  let mgr := memmgrStart buff mgr
  memmgrAllocLoop buffSize (memmgrQuantas nbytes) (2 * memmgrRounds buffSize) mgr.freep
    (mgr.headers mgr.freep).next mgr

/-- The entry of the table for the simple allocator: `_simple_create`, `_simple_malloc`,
`_simple_free` and `gen_empty_destroy`. -/
def simpleOp : BuffOp Memmgr where
  create buff mgr := some (0, memmgrInit buff.start mgr)
  destroy _ mgr := some mgr
  malloc buff size mgr := memmgrAlloc buff.start buff.size size mgr
  free buff ptr mgr := memmgrFree buff.size ptr mgr

end Shalloc
