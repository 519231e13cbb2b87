import Shalloc.Region.Allocator

/-!
# The buddy allocator

Model of `mplite/mplite.c`, with `include/mplite/mplite.h` and the interface in
`shalloc/interface/mplite.c`. A pool of `szAtom`-sized blocks is cut into chunks of powers of
two; one control byte for each block tells the size of a chunk and whether it is free, and
the free chunks of each size are on a list that is kept in the chunks themselves.

The handle keeps the contents of the control bytes and of the list links along with its own
fields. Its lock is left out, since the interface passes none. An `int` is a natural number
where the source asserts that it is not negative. The outer `none` of a function stands for a
failed `assert`, or for a list of free chunks that does not end.

## Main definitions

- `Mplite` — the handle
- `mpliteInit`, `mpliteMalloc`, `mpliteFree`, `mpliteRealloc` — the allocator
- `mpliteOps`, `shallocBuffOps` — the table of buffer operations with its entry
-/

namespace Shalloc

/-- `MPLITE_CTRL_LOGSIZE`. -/
def mpliteCtrlLogsize : ℕ := 0x1f

/-- `MPLITE_CTRL_FREE`. -/
def mpliteCtrlFree : ℕ := 0x20

/-- `MPLITE_LOGMAX`. -/
def mpliteLogmax : ℕ := 30

/-- `MPLITE_MAX_ALLOC_SIZE`. -/
def mpliteMaxAllocSize : ℕ := 0x40000000

/-- `sizeof(mplite_link_t)`. -/
def sizeofMpliteLink : ℕ := 8

/-- `sizeof(mplite_t)`. -/
def sizeofMplite : ℕ := 216

/-- `MPLITE_MIN_ALLOC`. -/
def mpliteMinAlloc : ℕ := 64

/-- The value that an `int` takes of an integer. -/
def toInt32 (n : ℤ) : ℤ := n.bmod (2 ^ 32)

/-- `mplite_link_t`: the indices of the next and the previous free chunk, or `-1`. -/
structure MpliteLink where
  next : ℤ
  prev : ℤ
deriving DecidableEq, Repr

/-- `mplite_t`, with the control bytes and the links of the chunks. -/
structure Mplite where
  szAtom : ℕ
  nBlock : ℕ
  zPool : ℕ
  nAlloc : ℕ
  totalAlloc : ℕ
  totalExcess : ℕ
  currentOut : ℕ
  currentCount : ℕ
  maxOut : ℕ
  maxCount : ℕ
  maxRequest : ℕ
  aiFreelist : ℕ → ℤ
  aCtrl : ℕ → ℕ
  links : ℕ → MpliteLink

namespace Mplite

/-- Write an entry of `aiFreelist`. -/
def setFreelist (handle : Mplite) (iLogsize : ℕ) (i : ℤ) : Mplite :=
  { handle with aiFreelist := Function.update handle.aiFreelist iLogsize i }

/-- Write a control byte. -/
def setCtrl (handle : Mplite) (i ctrl : ℕ) : Mplite :=
  { handle with aCtrl := Function.update handle.aCtrl i ctrl }

/-- Write the link of a chunk. -/
def setLink (handle : Mplite) (i : ℕ) (link : MpliteLink) : Mplite :=
  { handle with links := Function.update handle.links i link }

end Mplite

/-- The loop of `mplite_logarithm`. An `int` has no more than 31 powers of two. -/
def mpliteLogarithmLoop (iValue : ℤ) : ℕ → ℕ → ℕ
  | 0, iLog => iLog
  | fuel + 1, iLog => if 2 ^ iLog < iValue then mpliteLogarithmLoop iValue fuel (iLog + 1) else iLog

/-- `mplite_logarithm`. -/
def mpliteLogarithm (iValue : ℤ) : ℕ := mpliteLogarithmLoop iValue 31 0

/-- `mplite_link`. -/
def mpliteLink (i iLogsize : ℕ) (handle : Mplite) : Option Mplite :=
  if i < handle.nBlock ∧ iLogsize ≤ mpliteLogmax ∧
      handle.aCtrl i &&& mpliteCtrlLogsize = iLogsize then
    let x := handle.aiFreelist iLogsize
    let handle := handle.setLink i ⟨x, -1⟩
    if 0 ≤ x then
      if x < handle.nBlock then
        some
          ((handle.setLink x.toNat { handle.links x.toNat with prev := i }).setFreelist iLogsize i)
      else none
    else some (handle.setFreelist iLogsize i)
  else none

/-- `mplite_unlink`. -/
def mpliteUnlink (i iLogsize : ℕ) (handle : Mplite) : Option Mplite :=
  if i < handle.nBlock ∧ iLogsize ≤ mpliteLogmax ∧
      handle.aCtrl i &&& mpliteCtrlLogsize = iLogsize then
    let ⟨next, prev⟩ := handle.links i
    let handle :=
      if prev < 0 then handle.setFreelist iLogsize next
      else handle.setLink prev.toNat { handle.links prev.toNat with next := next }
    some (if 0 ≤ next then
      handle.setLink next.toNat { handle.links next.toNat with prev := prev } else handle)
  else none

/-- The loop of `mplite_unlink_first`: the least index on the list, which ends at an index
that is not positive. -/
def mpliteUnlinkFirstLoop (handle : Mplite) : ℕ → ℤ → ℤ → Option ℤ
  | 0, _, _ => none
  | fuel + 1, i, iFirst =>
    if 0 < i then
      mpliteUnlinkFirstLoop handle fuel (handle.links i.toNat).next
        (if i < iFirst then i else iFirst)
    else some iFirst

/-- `mplite_unlink_first`. No list has more chunks than the pool has blocks. -/
def mpliteUnlinkFirst (iLogsize : ℕ) (handle : Mplite) : Option (ℕ × Mplite) :=
  if iLogsize ≤ mpliteLogmax ∧ 0 ≤ handle.aiFreelist iLogsize then do
    let i := handle.aiFreelist iLogsize
    let iFirst ← mpliteUnlinkFirstLoop handle (handle.nBlock + 2) i i
    let handle ← mpliteUnlink iFirst.toNat iLogsize handle
    some (iFirst.toNat, handle)
  else none

/-- The loop of `mplite_init` over the powers of two, from the largest down: a chunk is
carved off the pool for each that fits. -/
def mpliteInitLoop : ℕ → ℕ → Mplite → Option Mplite
  | 0, _, handle => some handle
  | ii + 1, iOffset, handle => do
    let nAlloc := 2 ^ ii
    let (iOffset, handle) ←
      if iOffset + nAlloc ≤ handle.nBlock then do
        let handle ← mpliteLink iOffset ii (handle.setCtrl iOffset (ii ||| mpliteCtrlFree))
        some (iOffset + nAlloc, handle)
      else some (iOffset, handle)
    if handle.nBlock < iOffset + nAlloc then mpliteInitLoop ii iOffset handle else none

/-- The loop of `mplite_init` that makes an atom as large as a link. -/
def mpliteAtomLoop : ℕ → ℕ → ℕ
  | 0, szAtom => szAtom
  | fuel + 1, szAtom =>
    if szAtom < sizeofMpliteLink then mpliteAtomLoop fuel (szAtom * 2) else szAtom

/-- `mplite_init` with no lock: the return value and the handle. -/
def mpliteInit (addr buf : ℕ) (bufSize minAlloc : ℤ) (handle : Mplite) : Option (ℤ × Mplite) :=
  if addr = 0 ∨ buf = 0 ∨ bufSize ≤ 0 ∨ minAlloc ≤ 0 then some (-1, handle)
  else do
    let szAtom := mpliteAtomLoop 3 (2 ^ mpliteLogarithm minAlloc)
    let handle ← mpliteInitLoop (mpliteLogmax + 1) 0
      { szAtom := szAtom
        nBlock := (bufSize / (szAtom + 1)).toNat
        zPool := buf
        nAlloc := 0, totalAlloc := 0, totalExcess := 0, currentOut := 0, currentCount := 0
        maxOut := 0, maxCount := 0, maxRequest := 0
        aiFreelist := fun _ => -1
        aCtrl := handle.aCtrl
        links := handle.links }
    some (0, handle)

/-- The loop of `mplite_malloc_unsafe` that rounds a request up: the chunk size and its log. -/
def mpliteFullSzLoop (nByte : ℕ) : ℕ → ℕ → ℕ → Option (ℕ × ℕ)
  | 0, _, _ => none
  | fuel + 1, iFullSz, iLogsize =>
    if iFullSz < nByte then mpliteFullSzLoop nByte fuel (iFullSz * 2) (iLogsize + 1)
    else some (iFullSz, iLogsize)

/-- The loop of `mplite_malloc_unsafe` that looks for a list with a free chunk. -/
def mpliteFindBin (handle : Mplite) : ℕ → ℕ → ℕ
  | 0, iBin => iBin
  | fuel + 1, iBin =>
    if handle.aiFreelist iBin < 0 ∧ iBin ≤ mpliteLogmax then mpliteFindBin handle fuel (iBin + 1)
    else iBin

/-- The loop of `mplite_malloc_unsafe` that splits a chunk of log `iBin` down to `iLogsize`. -/
def mpliteSplit (i iLogsize : ℕ) : ℕ → Mplite → Option Mplite
  | 0, handle => some handle
  | iBin + 1, handle =>
    if iLogsize < iBin + 1 then do
      let newSize := 2 ^ iBin
      let handle ← mpliteLink (i + newSize) iBin
        (handle.setCtrl (i + newSize) (mpliteCtrlFree ||| iBin))
      mpliteSplit i iLogsize iBin handle
    else some handle

/-- The statistics of `mplite_malloc_unsafe`. -/
def mpliteCount (iFullSz nByte : ℕ) (handle : Mplite) : Mplite :=
  let currentCount := Word.wrap 32 (handle.currentCount + 1)
  let currentOut := Word.wrap 32 (handle.currentOut + iFullSz)
  { handle with
    nAlloc := Word.wrap 64 (handle.nAlloc + 1)
    totalAlloc := Word.wrap 64 (handle.totalAlloc + iFullSz)
    totalExcess := Word.wrap 64 (handle.totalExcess + (iFullSz - nByte))
    currentCount := currentCount
    currentOut := currentOut
    maxCount := if handle.maxCount < currentCount then currentCount else handle.maxCount
    maxOut := if handle.maxOut < currentOut then currentOut else handle.maxOut }

/-- `mplite_malloc_unsafe`. -/
def mpliteMallocUnsafe (nByte : ℕ) (handle : Mplite) : Option (Option ℕ × Mplite) :=
  if nByte = 0 then none
  else
    let handle :=
      if nByte > handle.maxRequest then { handle with maxRequest := nByte } else handle
    if nByte > mpliteMaxAllocSize then some (none, handle)
    else do
      let (iFullSz, iLogsize) ← mpliteFullSzLoop nByte 32 handle.szAtom 0
      -- past the last list, the array ends and the second test stops the loop
      let iBin := mpliteFindBin handle (mpliteLogmax + 1) iLogsize
      if iBin > mpliteLogmax then some (none, handle)
      else do
        let (i, handle) ← mpliteUnlinkFirst iBin handle
        let handle ← mpliteSplit i iLogsize iBin handle
        let handle := mpliteCount iFullSz nByte (handle.setCtrl i iLogsize)
        some (some (handle.zPool + i * handle.szAtom), handle)

/-- `mplite_malloc`. -/
def mpliteMalloc (nBytes : ℤ) (handle : Mplite) : Option (Option ℕ × Mplite) :=
  if nBytes ≤ 0 then some (none, handle) else mpliteMallocUnsafe nBytes.toNat handle

/-- The loop of `mplite_free_unsafe` that joins a free chunk with its buddy, with the chunk
that it ends with. -/
def mpliteMerge : ℕ → ℕ → ℕ → Mplite → Option (ℕ × ℕ × Mplite)
  | 0, iBlock, iLogsize, handle => some (iBlock, iLogsize, handle)
  | fuel + 1, iBlock, iLogsize, handle =>
    let size := 2 ^ iLogsize
    let iBuddy := if iBlock.testBit iLogsize then iBlock - size else iBlock + size
    if iLogsize < mpliteLogmax ∧ iBuddy + size ≤ handle.nBlock ∧
        handle.aCtrl iBuddy = mpliteCtrlFree ||| iLogsize then do
      let handle ← mpliteUnlink iBuddy iLogsize handle
      let iLogsize := iLogsize + 1
      if iBuddy < iBlock then
        mpliteMerge fuel iBuddy iLogsize
          ((handle.setCtrl iBuddy (mpliteCtrlFree ||| iLogsize)).setCtrl iBlock 0)
      else
        mpliteMerge fuel iBlock iLogsize
          ((handle.setCtrl iBlock (mpliteCtrlFree ||| iLogsize)).setCtrl iBuddy 0)
    else some (iBlock, iLogsize, handle)

/-- `mplite_free_unsafe`. -/
def mpliteFreeUnsafe (pOld : ℕ) (handle : Mplite) : Option Mplite :=
  let offset : ℤ := (pOld : ℤ) - handle.zPool
  let iBlock := toInt32 (offset.tdiv handle.szAtom)
  if 0 ≤ iBlock ∧ iBlock < handle.nBlock ∧ offset.tmod handle.szAtom = 0 ∧
      handle.aCtrl iBlock.toNat &&& mpliteCtrlFree = 0 then
    let iBlock := iBlock.toNat
    let iLogsize := handle.aCtrl iBlock &&& mpliteCtrlLogsize
    let size := 2 ^ iLogsize
    let out := Word.wrap 32 (size * handle.szAtom)
    if iBlock + size - 1 < handle.nBlock ∧ 0 < handle.currentCount ∧ out ≤ handle.currentOut ∧
        (0 < handle.currentOut - out ↔ 0 < handle.currentCount - 1) then do
      let handle := handle.setCtrl iBlock (handle.aCtrl iBlock ||| mpliteCtrlFree)
      let handle := handle.setCtrl (iBlock + size - 1)
        (handle.aCtrl (iBlock + size - 1) ||| mpliteCtrlFree)
      let handle := { handle with
        currentCount := handle.currentCount - 1
        currentOut := handle.currentOut - out }
      let (iBlock, iLogsize, handle) ← mpliteMerge (mpliteLogmax + 1) iBlock iLogsize
        (handle.setCtrl iBlock (mpliteCtrlFree ||| iLogsize))
      mpliteLink iBlock iLogsize handle
    else none
  else none

/-- `mplite_free`. -/
def mpliteFree (pPrior : ℕ) (handle : Mplite) : Option Mplite :=
  if pPrior = 0 then some handle else mpliteFreeUnsafe pPrior handle

/-- `mplite_size`. -/
def mpliteSize (p : ℕ) (handle : Mplite) : Option ℤ :=
  if p = 0 then some 0
  else
    let i := toInt32 (((p : ℤ) - handle.zPool).tdiv handle.szAtom)
    if 0 ≤ i ∧ i < handle.nBlock then
      some (toInt32 (handle.szAtom * 2 ^ (handle.aCtrl i.toNat &&& mpliteCtrlLogsize)))
    else none

/-- `memcpy` of whole atoms, from the one at `src` to the one at `dst`. Of the contents of the
atoms, these are the links. -/
def mpliteMemcpy (dst src n : ℕ) (handle : Mplite) : Mplite :=
  let iDst := (dst - handle.zPool) / handle.szAtom
  let iSrc := (src - handle.zPool) / handle.szAtom
  { handle with links := fun i =>
      if iDst ≤ i ∧ i < iDst + n / handle.szAtom then handle.links (iSrc + (i - iDst))
      else handle.links i }

/-- `mplite_realloc`. -/
def mpliteRealloc (pPrior : ℕ) (nBytes : ℤ) (handle : Mplite) : Option (Option ℕ × Mplite) :=
  if pPrior = 0 ∨ nBytes ≤ 0 ∨ nBytes.toNat &&& (nBytes.toNat - 1) ≠ 0 then some (none, handle)
  else do
    let nOld ← mpliteSize pPrior handle
    if nBytes ≤ nOld then some (some pPrior, handle)
    else do
      let (p, handle) ← mpliteMallocUnsafe nBytes.toNat handle
      match p with
      | none => some (none, handle)
      | some p => do
        let handle ← mpliteFreeUnsafe pPrior (mpliteMemcpy p pPrior nOld.toNat handle)
        some (some p, handle)

/-- `mplite_roundup`. -/
def mpliteRoundup (n : ℤ) (handle : Mplite) : Option ℕ :=
  if n > mpliteMaxAllocSize then some 0
  else (mpliteFullSzLoop n.toNat 32 handle.szAtom 0).map Prod.fst

section Interface

variable {σ : Type}

/-- The memory of a pool that was never set up. -/
def Mplite.raw : Mplite where
  szAtom := 0
  nBlock := 0
  zPool := 0
  nAlloc := 0
  totalAlloc := 0
  totalExcess := 0
  currentOut := 0
  currentCount := 0
  maxOut := 0
  maxCount := 0
  maxRequest := 0
  aiFreelist := fun _ => 0
  aCtrl := fun _ => 0
  links := fun _ => ⟨0, 0⟩

/-- `_mplite_create`. -/
def mpliteCreate (buff : Buff) (a : AllocState (Mplite ⊕ σ)) :
    Option (ℤ × AllocState (Mplite ⊕ σ)) :=
  if buff.size ≤ sizeofMplite then some (-1, a)
  else do
    let raw :=
      match a with
      | .other (.inl handle) => handle
      | _ => Mplite.raw
    let (ret, handle) ← mpliteInit buff.start (Word.wrap 64 (buff.start + sizeofMplite))
      (toInt32 ((buff.size - sizeofMplite : ℕ))) mpliteMinAlloc raw
    some (if ret = 0 then 0 else -1, if ret = 0 then .other (.inl handle) else a)

/-- `_mplite_malloc`. -/
def mpliteOpMalloc (_buff : Buff) (size : ℕ) (a : AllocState (Mplite ⊕ σ)) :
    Option (Option ℕ × AllocState (Mplite ⊕ σ)) :=
  match a with
  | .other (.inl handle) => do
    let (p, handle) ← mpliteMalloc (toInt32 size) handle
    some (p, .other (.inl handle))
  | _ => none

/-- `_mplite_free`. -/
def mpliteOpFree (_buff : Buff) (ptr : ℕ) (a : AllocState (Mplite ⊕ σ)) :
    Option (AllocState (Mplite ⊕ σ)) :=
  match a with
  | .other (.inl handle) => (mpliteFree ptr handle).map fun handle => .other (.inl handle)
  | _ => none

/-- The entry of the table for the buddy allocator, with `gen_empty_destroy`. -/
def mpliteOps : BuffOp (AllocState (Mplite ⊕ σ)) where
  create := mpliteCreate
  destroy _ a := some a
  malloc := mpliteOpMalloc
  free := mpliteOpFree

/-- `shalloc_space_buff_ops` with the buddy allocator. -/
def shallocBuffOps (other : BuffAllocType → BuffOp (Mplite ⊕ σ)) :
    BuffAllocType → BuffOp (AllocState (Mplite ⊕ σ))
  | .mplite => mpliteOps
  | type => shallocSpaceBuffOps other type

theorem shallocBuffOps_table (other : BuffAllocType → BuffOp (Mplite ⊕ σ)) :
    OpsTable (shallocBuffOps other) :=
  ⟨rfl, rfl⟩

end Interface

end Shalloc
