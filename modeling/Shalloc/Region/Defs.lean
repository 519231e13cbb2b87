import Mathlib.Logic.Function.Basic
import Shalloc.Round
import Shalloc.Slab.Defs

/-!
# Buffers and regions

Model of `shalloc/buffer.c`, `shalloc/region.c` and the definitions they use from
`include/shalloc/shalloc.h`. The store keeps the region records, the buffer
descriptors and, at the start of each buffer, the state of the allocator that runs
the buffer. The table of buffer operations is a parameter, so the region layer is the
same over any allocators.

A region keeps its `parent` together with the parent's own ancestors, up to the heap;
`shalloc_malloc` recurses along that list, and an empty rest of it is a NULL `parent`.
The outer `none` of a function stands for a failed `assert` or a NULL dereference.

The trace is a record of the calls made, newest first. No function reads it.

## Main definitions

- `Buff`, `Region`, `BuffOp`, `Store` — the data
- `shallocMalloc`, `shallocFree`, `shallocCalloc`, `shallocOrealloc` — the allocator
- `shallocRegionCreate`, `shallocRegionReset`, `shallocRegionDestroy` — the regions
-/

namespace Shalloc

/-- `SHALLOC_PAGE_SIZE`. -/
def shallocPageSize : ℕ := 0x1000

/-- `SHALLOC_BUFF_MIN_SIZE`. -/
def shallocBuffMinSize : ℕ := shallocPageSize / 4

/-- `SHALLOC_REGION_BUFF_SIZE_DEFAULT`. -/
def shallocRegionBuffSizeDefault : ℕ := shallocPageSize

/-- `sizeof(shalloc_buff_t)`. -/
def sizeofBuff : ℕ := 64

/-- `sizeof(shalloc_region_t)`. -/
def sizeofRegion : ℕ := 96

/-- The precision of a `double`. -/
def doubleBits : ℕ := 53

/-- The `double` that the constant `2.1` stands for, in units of `2 ^ -51`. -/
def doubleTwoPointOne : ℕ := 0x10CCCCCCCCCCCD

/-- `SHALLOC_BUFF_ALLOC_SIZE`: the size and its product with `2.1` are rounded to `double`, and
the product is truncated. What `size_t` cannot hold is converted to 0 on x86-64. -/
def shallocBuffAllocSize (size : ℕ) : ℕ :=
  let product := Round.toBits doubleBits (doubleTwoPointOne * Round.toBits doubleBits size)
  if product / 2 ^ 51 < 2 ^ 64 then product / 2 ^ 51 else 0

/-- `enum shalloc_flags`. -/
inductive ShallocFlag
  | heap
  | nonResizable
  | elastic
deriving DecidableEq, Repr

/-- `flags & SHALLOC_FLAG(F)`. -/
def hasFlag (flags : ℕ) : ShallocFlag → Bool
  | .heap => flags.testBit 0
  | .nonResizable => flags.testBit 1
  | .elastic => flags.testBit 2

/-- `enum shalloc_buff_alloc_type`. -/
inductive BuffAllocType
  | none
  | buffer
  | simple
  | mplite
  | nofree
  | slab
deriving DecidableEq, Repr

/-- `shalloc_buff_t`. The operations of a buffer are the entry of the table for its
type, which is what `op` points to. -/
structure Buff where
  start : ℕ
  endAddr : ℕ
  size : ℕ
  unusedSize : ℕ
  blockSize : ℕ
  next : Option ℕ
  allocType : BuffAllocType
deriving DecidableEq, Repr

/-- `shalloc_buff_op_t`, acting on the allocator state kept at the start of the buffer.
Every entry of the table has `gen_memset_calloc` for its `calloc`. -/
structure BuffOp (α : Type) where
  create : Buff → α → Option (ℤ × α)
  destroy : Buff → α → Option α
  malloc : Buff → ℕ → α → Option (Option ℕ × α)
  free : Buff → ℕ → α → Option α

/-- `SHALLOC_IS_BUFF_ADDR`. -/
def shallocIsBuffAddr (buff : Buff) (addr : ℕ) : Prop := buff.start ≤ addr ∧ addr ≤ buff.endAddr

instance (buff : Buff) (addr : ℕ) : Decidable (shallocIsBuffAddr buff addr) :=
  inferInstanceAs (Decidable (_ ∧ _))

/-- `shalloc_get_buff`. A NULL start keeps a small size as it is. -/
def shallocGetBuff (start size blockSize : ℕ) (type defaultType : BuffAllocType) : Buff :=
  let size := if start ≠ 0 ∧ size < shallocBuffMinSize then shallocBuffMinSize else size
  { start := start
    endAddr := Word.sub 64 (Word.wrap 64 (start + size)) 1
    size := size
    unusedSize := size
    blockSize := blockSize
    next := none
    allocType := if type = .none then defaultType else type }

/-- `shalloc_clone_buff`. -/
def shallocCloneBuff (start size : ℕ) (fromBuff : Buff) : Buff :=
  shallocGetBuff start size fromBuff.blockSize fromBuff.allocType fromBuff.allocType

/-- `shalloc_region_t`, with `parent` followed by the parent's own ancestors. -/
structure Region where
  dataHead : Option ℕ
  dataTail : Option ℕ
  defaultData : Buff
  flags : ℕ
  ancestors : List ℕ
deriving DecidableEq, Repr

/-- `region->parent`. -/
def Region.parent (region : Region) : Option ℕ := region.ancestors.head?

/-- `shalloc_get_region`: the default buffer starts at `(void*)-1`. -/
def shallocGetRegion (ancestors : List ℕ) (buffSize blockSize flags : ℕ) (type : BuffAllocType) :
    Region :=
  let buffSize := if buffSize = 0 then shallocRegionBuffSizeDefault else buffSize
  { dataHead := none
    dataTail := none
    defaultData := shallocGetBuff (2 ^ 64 - 1) buffSize blockSize type .nofree
    flags := flags
    ancestors := ancestors }

/-- A call that the region layer makes or receives, or a write to memory. -/
inductive Event
  /-- `shalloc_malloc(region, size)`. -/
  | request (region size : ℕ)
  /-- `shalloc_free(region, ptr)`. -/
  | release (region ptr : ℕ)
  /-- `op->create(buff)` with its return value. -/
  | create (buff : ℕ) (ret : ℤ)
  /-- `op->destroy(buff)`. -/
  | destroy (buff : ℕ)
  /-- `op->malloc(buff, size)` with its result. -/
  | malloc (buff size : ℕ) (ptr : Option ℕ)
  /-- `op->free(buff, ptr)`. -/
  | free (buff ptr : ℕ)
  /-- A write to a record of the region layer. -/
  | store (ptr len : ℕ)
  /-- `memset(ptr, 0, len)`. -/
  | zero (ptr len : ℕ)
  /-- `memcpy(dst, src, len)`. -/
  | copy (dst src len : ℕ)
deriving DecidableEq, Repr

/-- The memory that the region layer works on. -/
structure Store (α : Type) where
  regions : ℕ → Option Region
  buffs : ℕ → Option Buff
  cells : ℕ → α
  trace : List Event

namespace Store

variable {α : Type}

/-- Note a call in the trace. -/
def log (st : Store α) (event : Event) : Store α := { st with trace := event :: st.trace }

/-- Write a buffer descriptor. -/
def setBuff (st : Store α) (ptr : ℕ) (buff : Buff) : Store α :=
  { st with buffs := Function.update st.buffs ptr (some buff) }.log (.store ptr sizeofBuff)

/-- Write a region record. -/
def setRegion (st : Store α) (ptr : ℕ) (region : Region) : Store α :=
  { st with regions := Function.update st.regions ptr (some region) }.log
    (.store ptr sizeofRegion)

/-- Write the allocator state at the start of a buffer. -/
def setCell (st : Store α) (start : ℕ) (a : α) : Store α :=
  { st with cells := Function.update st.cells start a }

/-- `buff->op->create(buff)`. -/
def opCreate (ops : BuffAllocType → BuffOp α) (ptr : ℕ) (st : Store α) :
    Option (ℤ × Store α) := do
  let buff ← st.buffs ptr
  let (ret, a) ← (ops buff.allocType).create buff (st.cells buff.start)
  some (ret, (st.setCell buff.start a).log (.create ptr ret))

/-- `buff->op->destroy(buff)`. -/
def opDestroy (ops : BuffAllocType → BuffOp α) (ptr : ℕ) (st : Store α) : Option (Store α) := do
  let buff ← st.buffs ptr
  let a ← (ops buff.allocType).destroy buff (st.cells buff.start)
  some ((st.setCell buff.start a).log (.destroy ptr))

/-- `buff->op->malloc(buff, size)`. -/
def opMalloc (ops : BuffAllocType → BuffOp α) (ptr size : ℕ) (st : Store α) :
    Option (Option ℕ × Store α) := do
  let buff ← st.buffs ptr
  let (p, a) ← (ops buff.allocType).malloc buff size (st.cells buff.start)
  some (p, (st.setCell buff.start a).log (.malloc ptr size p))

/-- `buff->op->free(buff, p)`. -/
def opFree (ops : BuffAllocType → BuffOp α) (ptr p : ℕ) (st : Store α) : Option (Store α) := do
  let buff ← st.buffs ptr
  let a ← (ops buff.allocType).free buff p (st.cells buff.start)
  some ((st.setCell buff.start a).log (.free ptr p))

/-- `buff->op->calloc(buff, nmemb, size)`, that is `gen_memset_calloc`. -/
def opCalloc (ops : BuffAllocType → BuffOp α) (ptr nmemb size : ℕ) (st : Store α) :
    Option (Option ℕ × Store α) := do
  let (p, st) ← st.opMalloc ops ptr (Word.wrap 64 (size * nmemb))
  match p with
  | some p => some (some p, st.log (.zero p (Word.wrap 64 (size * nmemb))))
  | none => some (none, st)

end Store

section Region

variable {α : Type} (ops : BuffAllocType → BuffOp α)

/-- `shalloc_free` of a pointer that is not NULL: only the tail buffer is asked. -/
def shallocFree (r ptr : ℕ) (st : Store α) : Option (Store α) := do
  let region ← st.regions r
  let st := st.log (.release r ptr)
  match region.dataTail with
  | none => some st
  | some tail =>
    let buff ← st.buffs tail
    if shallocIsBuffAddr buff ptr then st.opFree ops tail ptr else some st

/-- `shalloc_region_alloc_buff`, given what `shalloc_malloc` does on the parent. -/
def shallocRegionAllocBuff (parentMalloc : ℕ → Store α → Option (Option ℕ × Store α))
    (r size : ℕ) (st : Store α) : Option (Option ℕ × Store α) := do
  let region ← st.regions r
  let defaultDataSize :=
    if hasFlag region.flags .elastic then Word.wrap 64 (region.defaultData.size * 2)
    else region.defaultData.size
  let size := if defaultDataSize > size then defaultDataSize else size
  let parent ← region.parent
  let (data, st) ← parentMalloc (Word.wrap 64 (sizeofBuff + size)) st
  match data with
  | none => some (none, st)
  | some data =>
    let region ← st.regions r
    let st := st.setBuff data
      (shallocCloneBuff (Word.wrap 64 (data + sizeofBuff)) size region.defaultData)
    let (ret, st) ← st.opCreate ops data
    if ret < 0 then
      let st ← shallocFree ops parent data st
      some (none, st)
    else
      let region ← st.regions r
      let st := st.setRegion r
        { region with defaultData := { region.defaultData with size := defaultDataSize } }
      some (some data, st)

/-- The end of `shalloc_region_grow`: the buffer becomes the tail of the chain. -/
def shallocRegionAttach (r buff : ℕ) (st : Store α) : Option (Store α) := do
  let region ← st.regions r
  let st ← match region.dataTail with
    | none =>
      if region.dataHead.isSome then none
      else some (st.setRegion r { region with dataHead := some buff, dataTail := some buff })
    | some tail => do
      let tailBuff ← st.buffs tail
      let st := st.setBuff tail { tailBuff with next := some buff }
      some (st.setRegion r { region with dataTail := some buff })
  let data ← st.buffs buff
  some (st.setBuff buff { data with next := none })

/-- `shalloc_region_grow`. -/
def shallocRegionGrow (parentMalloc : ℕ → Store α → Option (Option ℕ × Store α))
    (r size : ℕ) (st : Store α) : Option (ℤ × Store α) :=
  if size = 0 then none
  else do
    let region ← st.regions r
    if region.dataTail.isSome ∧ hasFlag region.flags .nonResizable then some (-1, st)
    else do
      let (buff, st) ← shallocRegionAllocBuff ops parentMalloc r size st
      match buff with
      | none => some (-1, st)
      | some buff =>
        let st ← shallocRegionAttach r buff st
        some (0, st)

/-- The common body of `shalloc_malloc` and `shalloc_calloc`: ask the tail buffer, and
if it refuses, grow by `SHALLOC_BUFF_ALLOC_SIZE(size)` and ask the new tail. -/
def shallocServe (parentMalloc : ℕ → Store α → Option (Option ℕ × Store α))
    (ask : ℕ → Store α → Option (Option ℕ × Store α)) (r size : ℕ) (st : Store α) :
    Option (Option ℕ × Store α) := do
  let region ← st.regions r
  let (ptr, st) ← match region.dataTail with
    | some tail => ask tail st
    | none => some (none, st)
  match ptr with
  | some p => some (some p, st)
  | none =>
    let (ret, st) ← shallocRegionGrow ops parentMalloc r (shallocBuffAllocSize size) st
    if ret = 0 then do
      let region ← st.regions r
      let tail ← region.dataTail
      ask tail st
    else some (none, st)

/-- `shalloc_malloc` on the region at the head of the list, whose ancestors follow. -/
def shallocMalloc : List ℕ → ℕ → Store α → Option (Option ℕ × Store α)
  | [], _, _ => none
  | r :: ancestors, size, st =>
    let st := st.log (.request r size)
    if size = 0 then some (none, st)
    else shallocServe ops (shallocMalloc ancestors) (fun tail st => st.opMalloc ops tail size)
      r size st

/-- `shalloc_calloc` on the region at the head of the list. -/
def shallocCalloc : List ℕ → ℕ → ℕ → Store α → Option (Option ℕ × Store α)
  | [], _, _, _ => none
  | r :: ancestors, nmemb, size, st =>
    let totSize := Word.wrap 64 (nmemb * size)
    let st := st.log (.request r totSize)
    if totSize = 0 then some (none, st)
    else shallocServe ops (shallocMalloc ops ancestors)
      (fun tail st => st.opCalloc ops tail nmemb size) r totSize st

/-- `shalloc_orealloc` on the region at the head of the list. -/
def shallocOrealloc (path : List ℕ) (ptr : Option ℕ) (size oldSize : ℕ) (st : Store α) :
    Option (Option ℕ × Store α) := do
  let r ← path.head?
  match ptr with
  | none => shallocMalloc ops path size st
  | some ptr =>
    if size = 0 then do
      let st ← shallocFree ops r ptr st
      some (none, st)
    else if size ≤ oldSize then some (some ptr, st)
    else do
      let (newPtr, st) ← shallocMalloc ops path size st
      match newPtr with
      | none => some (none, st)
      | some newPtr =>
        let st := st.log (.copy newPtr ptr oldSize)
        let st ← shallocFree ops r ptr st
        some (some newPtr, st)

/-- `shalloc_region_free_buff`. -/
def shallocRegionFreeBuff (r data : ℕ) (st : Store α) : Option (Store α) := do
  let st ← st.opDestroy ops data
  let region ← st.regions r
  match region.parent with
  | some parent => shallocFree ops parent data st
  | none => some st

/-- `shalloc_buff_reset`. -/
def shallocBuffReset (buff : ℕ) (st : Store α) : Option (Store α) := do
  let st ← st.opDestroy ops buff
  let (ret, st) ← st.opCreate ops buff
  if ret ≥ 0 then some st else none

end Region

section Iter

variable {α : Type}

/-- The loop condition of `SHALLOC_REGION_BUFF_ITER`: `!(CURR) || (CURR)->next`. -/
def regionBuffIterMore (curr : Option ℕ) (st : Store α) : Option Bool :=
  match curr with
  | none => some true
  | some curr => do
    let buff ← st.buffs curr
    some buff.next.isSome

/-- The step of the loop: `!(CURR) ? (R)->data_head : (CURR)->next`. -/
def regionBuffIterNext (r : ℕ) (curr : Option ℕ) (st : Store α) : Option (Option ℕ) :=
  match curr with
  | none => do
    let region ← st.regions r
    some region.dataHead
  | some curr => do
    let buff ← st.buffs curr
    some buff.next

/-- The loop of `SHALLOC_REGION_BUFF_ITER`, with the final values of PREV and CURR.
`none` also when the fuel runs out before the loop ends. -/
def regionBuffIterLoop (r : ℕ) (body : Option ℕ → Option ℕ → Store α → Option (Store α)) :
    ℕ → Option ℕ → Option ℕ → Store α → Option (Option ℕ × Option ℕ × Store α)
  | 0, _, _, _ => none
  | fuel + 1, prev, curr, st => do
    if ← regionBuffIterMore curr st then
      let next ← regionBuffIterNext r curr st
      let st ← body curr next st
      regionBuffIterLoop r body fuel curr next st
    else some (prev, curr, st)

/-- `SHALLOC_REGION_BUFF_ITER`. -/
def regionBuffIter (fuel r : ℕ) (body : Option ℕ → Option ℕ → Store α → Option (Store α))
    (st : Store α) : Option (Option ℕ × Option ℕ × Store α) := do
  let region ← st.regions r
  if region.dataHead.isSome then regionBuffIterLoop r body fuel none none st
  else some (none, none, st)

variable (ops : BuffAllocType → BuffOp α)

/-- The body of the loop in `shalloc_region_reset`. -/
def shallocRegionResetBody (r : ℕ) (prev _curr : Option ℕ) (st : Store α) :
    Option (Store α) := do
  let region ← st.regions r
  match prev with
  | some p => if prev ≠ region.dataHead then shallocRegionFreeBuff ops r p st else some st
  | none => some st

/-- `shalloc_region_reset`. -/
def shallocRegionReset (fuel r : ℕ) (st : Store α) : Option (Store α) := do
  let (_, _, st) ← regionBuffIter fuel r (shallocRegionResetBody ops r) st
  let region ← st.regions r
  match region.dataHead with
  | none => some st
  | some head =>
    let st ← shallocBuffReset ops head st
    let buff ← st.buffs head
    let st := st.setBuff head { buff with next := none }
    some (st.setRegion r { region with dataTail := some head })

/-- `shalloc_region_destroy`. The region of a heap is handed on to
`shalloc_heap_destroy`: it is returned along with the store. -/
def shallocRegionDestroy (fuel r : ℕ) (st : Store α) : Option (Option ℕ × Store α) := do
  let st ← shallocRegionReset ops fuel r st
  let region ← st.regions r
  let st ← match region.parent with
    | some parent => shallocFree ops parent r st
    | none => some st
  let region ← st.regions r
  some (if hasFlag region.flags .heap then some r else none, st)

/-- `shalloc_region_create` under the region at the head of the list. -/
def shallocRegionCreate (path : List ℕ) (initSize buffSize blockSize flags : ℕ)
    (type : BuffAllocType) (st : Store α) : Option (Option ℕ × Store α) :=
  if hasFlag flags .heap then some (none, st)
  else do
    let (region, st) ← shallocMalloc ops path sizeofRegion st
    match region with
    | none => some (none, st)
    | some r =>
      let st := st.setRegion r (shallocGetRegion path buffSize blockSize flags type)
      if initSize > 0 then do
        let (ret, st) ← shallocRegionGrow ops (shallocMalloc ops path) r initSize st
        if ret < 0 then do
          -- the chain is still empty, so the reset in here does not enter its loop
          let (_, st) ← shallocRegionDestroy ops 0 r st
          some (none, st)
        else some (some r, st)
      else some (some r, st)

end Iter

/-- `region` followed by its ancestors. -/
def Store.path {α : Type} (st : Store α) (r : ℕ) : List ℕ :=
  match st.regions r with
  | some region => r :: region.ancestors
  | none => [r]

end Shalloc
