import Shalloc.Region.Defs

/-!
# Heaps and the shadow space

Model of `shalloc/heap.c`, `shalloc/shalloc.c` and the definitions they use from
`include/shalloc/shalloc.h`. A process has its own space record, private heap and memory;
the control page with the list of inherited heaps, and the contents of the shared segments,
belong to all the processes attached to it.

Every system call that fails trips an `assert`, so a call is only noted in a list, newest
first, with its effect on the memory of the process. As in the region layer, the outer
`none` of a function stands for a failed `assert` or an access to memory that is not there.

The guard pages, the table of buffer operations, the contents of fresh memory, and what a
free of the private heap leaves in the first word of the freed block are parameters.

## Main definitions

- `Heap`, `Magic`, `Space`, `Machine` — the data
- `shallocHeapCreate`, `shallocHeapDestroy` — the heaps
- `shallocHeapRegionDestroy` — `shalloc_region_destroy` on the region of a heap
- `shallocSpaceInit` — the start of a process, with or without an inherited control page
-/

namespace Shalloc

/-- `SHALLOC_PRIVATE_HEAP_SIZE`. -/
def shallocPrivateHeapSize : ℕ := shallocPageSize

/-- `SHALLOC_BASE_ADDR`. -/
def shallocBaseAddr : ℕ := 0x80000000

/-- `SHALLOC_BASE_SIZE`, up to `SHALLOC_LAST_ADDR`. -/
def shallocBaseSize : ℕ := 0x40000000

/-- `MAP_ANONYMOUS|MAP_PRIVATE`. -/
def mapAnonymousPrivate : ℕ := 0x22

/-- `MAP_FIXED`. -/
def mapFixed : ℕ := 0x10

/-- `SHALLOC_DEFAULT_MMAP_FLAGS`. -/
def shallocDefaultMmapFlags : ℕ := mapAnonymousPrivate

/-- `PROT_NONE`. -/
def protNone : ℕ := 0

/-- `PROT_READ|PROT_WRITE`. -/
def protReadWrite : ℕ := 3

/-- `SHALLOC_MAX_INHERIT_HEAPS`. -/
def shallocMaxInheritHeaps : ℤ := 10

/-- `mmap_flags & SHALLOC_MAP_INHERIT`. -/
def mapInherit (mmapFlags : ℕ) : Bool := mmapFlags.testBit 11

/-- `sizeof(shalloc_heap_t)`. -/
def sizeofHeap : ℕ := 168

/-- `sizeof(shalloc_space_t)`. -/
def sizeofSpace : ℕ := 408

/-- The offset of `region` in a heap record. -/
def heapRegionOffset : ℕ := 64

/-- The offset of `default_data` in a region record. -/
def regionDataOffset : ℕ := 16

/-- The offset of `heap_list` in the control page. -/
def heapListOffset : ℕ := 56

/-- `shalloc_heap_t`. -/
structure Heap where
  base : Buff
  region : Region
  inheritId : ℤ
  mmapFlags : ℕ
deriving DecidableEq, Repr

/-- The record in memory that is all zeros. -/
def Heap.zero : Heap where
  base := shallocGetBuff 0 0 0 .none .none
  region := { dataHead := none, dataTail := none, flags := 0, ancestors := [],
              defaultData := shallocGetBuff 0 0 0 .none .none }
  inheritId := 0
  mmapFlags := 0

/-- A pointer to a heap record: an entry of `heap_list`, or an address of the process. -/
inductive HeapPtr
  | slot (i : ℕ)
  | priv (addr : ℕ)
deriving DecidableEq, Repr

/-- `shalloc_magic_t`, the control page. -/
structure Magic where
  inheritId : ℤ
  numHeaps : ℤ
  heapList : ℕ → Heap

/-- `shalloc_space_t`. -/
structure Space where
  base : Buff
  data : Buff
  magicControlPage : ℕ
  magicInheritPage : ℕ
  numHeaps : ℕ
  hasNoninheritHeaps : Bool
  mmapFlags : ℕ
  privHeap : ℕ

/-- A call to the memory manager of the system. -/
inductive SysCall
  | mmap (addr size prot flags : ℕ)
  | munmap (addr size : ℕ)
  | shmget (size : ℕ) (id : ℤ)
  | shmat (id : ℤ) (addr : ℕ)
  | shmdt (addr : ℕ)
  /-- `shmctl(id, IPC_RMID, NULL)`. -/
  | shmctl (id : ℤ)
deriving DecidableEq, Repr

/-- What the attached processes share: the control page, and the allocator state at the
start of each shared segment. -/
structure Shared (α : Type) where
  magic : Magic
  segs : ℤ → α
  nextId : ℤ

/-- One process: `shalloc_space`, the memory that the region layer works on, the heap
records outside the control page, and the system calls made. -/
structure Process (α : Type) where
  space : Space
  store : Store α
  heaps : ℕ → Heap
  calls : List SysCall

/-- A process with what it shares. -/
structure Machine (α : Type) where
  shared : Shared α
  proc : Process α

/-- What the heap layer is built over. -/
structure SpaceConfig (α : Type) where
  /-- `shalloc_space_buff_ops`. -/
  ops : BuffAllocType → BuffOp α
  /-- `SHALLOC_USE_GUARD_PAGES`. -/
  guardPages : Bool
  /-- The contents of pages that were just mapped. -/
  blank : α
  /-- The first word of a block that the private heap took back, from the state of its
  allocator, the address of the block and the word that was there. -/
  freedWord : α → ℕ → ℕ → ℕ

namespace Machine

variable {α : Type}

/-- The record that a heap pointer refers to. -/
def heap (m : Machine α) : HeapPtr → Heap
  | .slot i => m.shared.magic.heapList i
  | .priv addr => m.proc.heaps addr

/-- The address of the record that a heap pointer refers to. -/
def heapAddr (m : Machine α) : HeapPtr → ℕ
  | .slot i => m.proc.space.magicControlPage + heapListOffset + sizeofHeap * i
  | .priv addr => addr

/-- Write a heap record. -/
def setHeap (m : Machine α) : HeapPtr → Heap → Machine α
  | .slot i, heap =>
    { m with shared := { m.shared with magic := { m.shared.magic with
      heapList := Function.update m.shared.magic.heapList i heap } } }
  | .priv addr, heap =>
    { m with proc := { m.proc with heaps := Function.update m.proc.heaps addr heap } }

/-- Write `num_heaps` of the control page. -/
def setNumHeaps (m : Machine α) (numHeaps : ℤ) : Machine α :=
  { m with shared := { m.shared with magic := { m.shared.magic with numHeaps := numHeaps } } }

/-- Write `shalloc_space`. -/
def setSpace (m : Machine α) (space : Space) : Machine α :=
  { m with proc := { m.proc with space := space } }

/-- Note a system call. -/
def log (m : Machine α) (call : SysCall) : Machine α :=
  { m with proc := { m.proc with calls := call :: m.proc.calls } }

/-- `shmget(IPC_PRIVATE, size, SHM_R | SHM_W)`: a fresh segment. -/
def shmget (m : Machine α) (blank : α) (size : ℕ) : ℤ × Machine α :=
  let id := m.shared.nextId
  (id, { m with shared := { m.shared with
    segs := Function.update m.shared.segs id blank, nextId := id + 1 } }.log (.shmget size id))

/-- `shalloc_map_fixed_pages`: the pages are replaced by fresh ones. -/
def mapFixedPages (m : Machine α) (blank : α) (addr size prot mmapFlags : ℕ) : Machine α :=
  { m with proc := { m.proc with store := { m.proc.store with
    cells := fun a => if addr ≤ a ∧ a < addr + size then blank else m.proc.store.cells a } } }.log
    (.mmap addr size prot (mmapFlags ||| mapFixed))

/-- The allocator state at the start of a heap, in its segment or in the memory of the
process. A heap with a segment that was let go has no memory. -/
def heapCell (m : Machine α) (heap : Heap) : Option α :=
  if mapInherit heap.mmapFlags then
    if heap.inheritId = -1 then none else some (m.shared.segs heap.inheritId)
  else some (m.proc.store.cells heap.region.defaultData.start)

/-- The memory after a call of the region layer on the region of a heap. -/
def putStore (m : Machine α) (heap : Heap) (st : Store α) : Machine α :=
  let cell := st.cells heap.region.defaultData.start
  let segs := if mapInherit heap.mmapFlags then
      Function.update m.shared.segs heap.inheritId cell
    else m.shared.segs
  { shared := { m.shared with segs := segs }
    proc := { m.proc with store := st } }

/-- The memory that the region layer works on, with the region of a heap and its data buffer
put where it looks for them. Both are parts of the heap record. -/
def regionStore (m : Machine α) (ptr : HeapPtr) (cell : α) : Store α :=
  let heap := m.heap ptr
  let r := m.heapAddr ptr + heapRegionOffset
  { m.proc.store with
    regions := Function.update m.proc.store.regions r (some heap.region)
    buffs := Function.update m.proc.store.buffs (r + regionDataOffset)
      (some heap.region.defaultData)
    cells := Function.update m.proc.store.cells heap.region.defaultData.start cell }

/-- A call of the region layer on `shalloc_heap_to_region(heap)`. The region and its data
buffer are read back into the heap record after it. -/
def withRegion {β : Type} (m : Machine α) (ptr : HeapPtr)
    (f : ℕ → Store α → Option (β × Store α)) : Option (β × Machine α) := do
  let heap := m.heap ptr
  let r := m.heapAddr ptr + heapRegionOffset
  let cell ← m.heapCell heap
  let (res, st) ← f r (m.regionStore ptr cell)
  let region ← st.regions r
  let data ← st.buffs (r + regionDataOffset)
  some (res, (m.putStore heap st).setHeap ptr
    { heap with region := { region with defaultData := data } })

end Machine

/-- `shalloc_heap_to_buff`. The region of a heap never grows, so that its tail buffer is its
own `default_data`. -/
def shallocHeapToBuff (heap : Heap) : Option Buff :=
  heap.region.dataTail.map fun _ => heap.region.defaultData

/-- The size of a heap in whole pages, at least one. -/
def shallocHeapPages (size : ℕ) : ℕ :=
  if size % shallocPageSize > 0 then
    let size := size / shallocPageSize * shallocPageSize
    if size = 0 then size + shallocPageSize else size
  else size

/-- `data_size` in `shalloc_get_heap`: a large heap makes room for its guard page. -/
def shallocHeapDataSize (guardPages : Bool) (size : ℕ) : ℕ :=
  if guardPages ∧ size > 100 * shallocPageSize then size - shallocPageSize else size

/-- `base_size` in `shalloc_get_heap`. -/
def shallocHeapBaseSize (guardPages : Bool) (size : ℕ) : ℕ :=
  if guardPages then shallocHeapDataSize guardPages size + shallocPageSize
  else shallocHeapDataSize guardPages size

/-- The flags of the region of a heap, `SHALLOC_FLAG(HEAP)|SHALLOC_FLAG(NON_RESIZABLE)`. -/
def heapRegionFlags : ℕ := 3

/-- `shalloc_get_heap` on the record at the address `self`. -/
def shallocGetHeap (guardPages : Bool) (self : ℕ) (heap : Heap) (addr size mmapFlags : ℕ)
    (type : BuffAllocType) : Option Heap :=
  if size = 0 then none
  else
    let size := shallocHeapPages size
    let dataSize := shallocHeapDataSize guardPages size
    let buff := self + heapRegionOffset + regionDataOffset
    some { heap with
      base := shallocGetBuff addr (shallocHeapBaseSize guardPages size) 0 .none .none
      region := { shallocGetRegion [] dataSize 0 heapRegionFlags .mplite with
        dataHead := some buff
        dataTail := some buff
        defaultData := shallocGetBuff addr dataSize 0 type .mplite }
      mmapFlags := mmapFlags }

/-- `shalloc_space_new_heap`. -/
def shallocSpaceNewHeap (heap : Heap) (space : Space) : Option Space :=
  if mapInherit heap.mmapFlags ∧ space.hasNoninheritHeaps then none
  else if space.data.unusedSize ≥ heap.base.size then
    some { space with
      data := { space.data with unusedSize := space.data.unusedSize - heap.base.size }
      numHeaps := space.numHeaps + 1
      hasNoninheritHeaps := space.hasNoninheritHeaps || !mapInherit heap.mmapFlags }
  else none

section Heap

variable {α : Type} (cfg : SpaceConfig α)

/-- The first half of `shalloc_map_heap`: the data range. -/
def shallocMapHeapData (ptr : HeapPtr) (data : Buff) (m : Machine α) : Bool × Machine α :=
  let heap := m.heap ptr
  if mapInherit heap.mmapFlags then
    if heap.inheritId = -1 then
      let (id, m) := m.shmget cfg.blank data.size
      let m := m.log (.shmat id data.start)
      let m := m.setHeap ptr { heap with inheritId := id }
      (true, m.log (.shmctl id))
    else (true, m.log (.shmat heap.inheritId data.start))
  else if heap.mmapFlags ≠ shallocDefaultMmapFlags then
    (true, m.mapFixedPages cfg.blank data.start data.size protReadWrite heap.mmapFlags)
  else (false, m)

/-- `shalloc_map_heap`. -/
def shallocMapHeap (ptr : HeapPtr) (m : Machine α) : Option (Bool × Machine α) := do
  let data ← shallocHeapToBuff (m.heap ptr)
  let (remapped, m) := shallocMapHeapData cfg ptr data m
  if (m.heap ptr).base.size > data.size then
    some (true, m.mapFixedPages cfg.blank (Word.wrap 64 (data.start + data.size)) shallocPageSize
      protNone mapAnonymousPrivate)
  else some (remapped, m)

/-- `shalloc_free(shalloc_heap_to_region(shalloc_space->priv_heap), heap)`. -/
def shallocPrivFree (ptr : HeapPtr) (m : Machine α) : Option (Machine α) := do
  let addr := m.heapAddr ptr
  let priv := HeapPtr.priv m.proc.space.privHeap
  let (_, m) ← m.withRegion priv fun r st => (shallocFree cfg.ops r addr st).map fun st => ((), st)
  let cell ← m.heapCell (m.heap priv)
  let heap := m.heap ptr
  some (m.setHeap ptr
    { heap with base := { heap.base with start := cfg.freedWord cell addr heap.base.start } })

/-- `shmdt`, `shmctl` with `IPC_RMID`, and `inherit_id = -1`. -/
def shallocHeapDetach (ptr : HeapPtr) (data : Buff) (m : Machine α) : Machine α :=
  let heap := m.heap ptr
  let m := m.log (.shmdt data.start)
  let m := m.log (.shmctl heap.inheritId)
  m.setHeap ptr { heap with inheritId := -1 }

/-- `shalloc_heap_destroy`. -/
def shallocHeapDestroy (ptr : HeapPtr) (m : Machine α) : Option (Machine α) := do
  let heap := m.heap ptr
  let data ← shallocHeapToBuff heap
  let m ← if mapInherit heap.mmapFlags then
      let m := if heap.inheritId ≠ -1 then shallocHeapDetach ptr data m else m
      some (m.setNumHeaps (m.shared.magic.numHeaps - 1))
    else shallocPrivFree cfg ptr m
  let heap := m.heap ptr
  some (m.log (.munmap heap.base.start heap.base.size))

/-- `shalloc_region_destroy` on the region of a heap. -/
def shallocHeapRegionDestroy (ptr : HeapPtr) (m : Machine α) : Option (Machine α) := do
  let (heapRegion, m) ← m.withRegion ptr (shallocRegionDestroy cfg.ops 2)
  match heapRegion with
  | some _ => shallocHeapDestroy cfg ptr m
  | none => some m

/-- The first part of `shalloc_heap_create`: a record for the heap, in the control page or
in the private heap. An index below 0 is out of bounds. -/
def shallocHeapAlloc (mmapFlags : ℕ) (m : Machine α) : Option (HeapPtr × Machine α) :=
  if mapInherit mmapFlags then
    let numHeaps := m.shared.magic.numHeaps
    if 0 ≤ numHeaps ∧ numHeaps < shallocMaxInheritHeaps then
      let ptr := HeapPtr.slot numHeaps.toNat
      let m := m.setHeap ptr { m.heap ptr with inheritId := -1 }
      some (ptr, m.setNumHeaps (numHeaps + 1))
    else none
  else do
    let (addr, m) ← m.withRegion (.priv m.proc.space.privHeap) fun r st =>
      shallocMalloc cfg.ops [r] sizeofHeap st
    let addr ← addr
    some (.priv addr, m)

/-- The record is given back when `shalloc_heap_create` returns NULL. -/
def shallocHeapUnalloc (ptr : HeapPtr) (mmapFlags : ℕ) (m : Machine α) : Option (Machine α) :=
  if mapInherit mmapFlags then some (m.setNumHeaps (m.shared.magic.numHeaps - 1))
  else shallocPrivFree cfg ptr m

/-- The address of the next heap. -/
def shallocSpaceNextAddr (space : Space) : ℕ :=
  Word.sub 64 (Word.wrap 64 (space.data.start + space.data.size)) space.data.unusedSize

/-- What `shalloc_heap_create` does after a failed `data->op->create(data)`. -/
def shallocHeapUnmap (ptr : HeapPtr) (mmapFlags : ℕ) (remapped : Bool) (m : Machine α) :
    Option (Machine α) := do
  let data ← shallocHeapToBuff (m.heap ptr)
  if remapped then
    let m := if mapInherit mmapFlags then shallocHeapDetach ptr data m else m
    some (m.mapFixedPages cfg.blank data.start data.size protReadWrite shallocDefaultMmapFlags)
  else some m

/-- `data->op->create(data)` on the data buffer of a heap. -/
def shallocHeapOpCreate (ptr : HeapPtr) (m : Machine α) : Option (ℤ × Machine α) :=
  m.withRegion ptr fun r st => st.opCreate cfg.ops (r + regionDataOffset)

/-- The second part of `shalloc_heap_create`, on the record `ptr`: the heap is placed, and
mapped and set up if it fits. -/
def shallocHeapPlace (ptr : HeapPtr) (size mmapFlags : ℕ) (type : BuffAllocType) (m : Machine α) :
    Option (Option HeapPtr × Machine α) := do
  let space := m.proc.space
  let addr := shallocSpaceNextAddr space
  if addr > space.data.endAddr then none
  else do
    let heap ← shallocGetHeap cfg.guardPages (m.heapAddr ptr) (m.heap ptr) addr size mmapFlags type
    let m := m.setHeap ptr heap
    if Word.wrap 64 (addr + heap.base.size) > Word.wrap 64 (space.data.endAddr + 1) then do
      let m ← shallocHeapUnalloc cfg ptr mmapFlags m
      some (none, m)
    else do
      let (remapped, m) ← shallocMapHeap cfg ptr m
      let (ret, m) ← shallocHeapOpCreate cfg ptr m
      if ret < 0 then do
        let m ← shallocHeapUnmap cfg ptr mmapFlags remapped m
        let m ← shallocHeapUnalloc cfg ptr mmapFlags m
        some (none, m)
      else do
        let space ← shallocSpaceNewHeap (m.heap ptr) m.proc.space
        some (some ptr, m.setSpace space)

/-- `shalloc_heap_create`. -/
def shallocHeapCreate (size mmapFlags : ℕ) (type : BuffAllocType) (m : Machine α) :
    Option (Option HeapPtr × Machine α) := do
  let (ptr, m) ← shallocHeapAlloc cfg mmapFlags m
  shallocHeapPlace cfg ptr size mmapFlags type m

end Heap

section Init

variable {α : Type} (cfg : SpaceConfig α)

/-- The control page before it is written, in memory that is all zeros. -/
def Shared.zero (blank : α) : Shared α where
  magic := { inheritId := 0, numHeaps := 0, heapList := fun _ => Heap.zero }
  segs _ := blank
  nextId := 1

/-- A process before `shalloc_space_init`; `shalloc_space` is not there yet. -/
def Process.boot (blank : α) : Process α where
  space := { base := shallocGetBuff 0 0 0 .none .none, data := shallocGetBuff 0 0 0 .none .none,
             magicControlPage := 0, magicInheritPage := 0, numHeaps := 0,
             hasNoninheritHeaps := false, mmapFlags := 0, privHeap := 0 }
  store := { regions := fun _ => none, buffs := fun _ => none, cells := fun _ => blank,
             trace := [] }
  heaps _ := Heap.zero
  calls := []

/-- The reservation of the shadow space, with its first guard page. -/
def shallocSpaceReserve (m : Machine α) : ℕ × Machine α :=
  let m := m.mapFixedPages cfg.blank shallocBaseAddr shallocBaseSize protReadWrite
    shallocDefaultMmapFlags
  if cfg.guardPages then
    (shallocBaseAddr + shallocPageSize,
      m.mapFixedPages cfg.blank shallocBaseAddr shallocPageSize protNone mapAnonymousPrivate)
  else (shallocBaseAddr, m)

/-- The private heap, built in the local record at `stack` and copied into its own memory. -/
def shallocSpacePrivHeap (stack addr : ℕ) (m : Machine α) : Option (ℕ × Machine α) := do
  let heap := HeapPtr.priv stack
  let got ← shallocGetHeap cfg.guardPages stack (m.heap heap) addr shallocPrivateHeapSize
    mapAnonymousPrivate .none
  let m := m.setHeap heap got
  let (_, m) ← shallocMapHeap cfg heap m
  let (ret, m) ← shallocHeapOpCreate cfg heap m
  if ret ≠ 0 then none
  else do
    let (priv, m) ← m.withRegion heap fun r st => shallocMalloc cfg.ops [r] sizeofHeap st
    let priv ← priv
    let buff := priv + heapRegionOffset + regionDataOffset
    let copy := m.heap heap
    some (priv, m.setHeap (.priv priv)
      { copy with region := { copy.region with dataHead := some buff, dataTail := some buff } })

/-- The loop that attaches the inherited heaps. -/
def shallocSpaceAttach : List Heap → Machine α → Option (Machine α)
  | [], m => some m
  | heap :: heaps, m => do
    let data ← shallocHeapToBuff heap
    shallocSpaceAttach heaps (m.log (.shmat heap.inheritId data.start))

/-- `heap_list[0..num_heaps)`. -/
def Magic.listed (magic : Magic) : List Heap :=
  (List.range magic.numHeaps.toNat).map magic.heapList

/-- The control page at `addr`: a fresh segment, or the one named by the environment. -/
def shallocSpaceMagic (inherited : Bool) (addr : ℕ) (m : Machine α) : Option (Machine α) :=
  if inherited then
    shallocSpaceAttach m.shared.magic.listed (m.log (.shmat m.shared.magic.inheritId addr))
  else
    let (id, m) := m.shmget cfg.blank (2 * shallocPageSize)
    let m := m.log (.shmat id addr)
    let m := m.log (.shmctl id)
    some { m with shared := { m.shared with magic := { m.shared.magic with
      inheritId := id, numHeaps := 0 } } }

/-- The space record, with the control page at `addr`. -/
def shallocSpaceRecord (addr privHeap : ℕ) : Space :=
  let base := shallocGetBuff shallocBaseAddr shallocBaseSize 0 .none .none
  let start := addr + 2 * shallocPageSize
  { base := base
    data := shallocGetBuff start (base.endAddr - start + 1) 0 .none .none
    magicControlPage := addr
    magicInheritPage := addr + shallocPageSize
    numHeaps := 0
    hasNoninheritHeaps := false
    mmapFlags := shallocDefaultMmapFlags
    privHeap := privHeap }

/-- `shalloc_space_init`. The environment names an inherited control page or none; `stack`
is the address of the local heap record. -/
def shallocSpaceInit (stack : ℕ) (inherited : Option (Shared α)) : Option (Machine α) := do
  let m : Machine α := ⟨inherited.getD (Shared.zero cfg.blank), Process.boot cfg.blank⟩
  let (addr, m) := shallocSpaceReserve cfg m
  let (privHeap, m) ← shallocSpacePrivHeap cfg stack addr m
  let addr := addr + (m.heap (.priv privHeap)).base.size
  let m ← shallocSpaceMagic cfg inherited.isSome addr m
  let (record, m) ← m.withRegion (.priv privHeap) fun r st =>
    shallocMalloc cfg.ops [r] sizeofSpace st
  let _ ← record
  let space ← m.shared.magic.listed.foldlM (fun space heap => shallocSpaceNewHeap heap space)
    (shallocSpaceRecord addr privHeap)
  some (m.setSpace space)

end Init

end Shalloc
