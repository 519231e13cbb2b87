import Shalloc.Tiny.Defs

/-!
# The allocator of pools with pages

Model of `antithread/alloc/alloc.c` for the pools that are not small. A pool is divided into large
pages, and a large page may be broken up into small ones. A page holds elements of one size, and
a bitmap in its header tells which of them are in use. For each of the sizes, which are four for
every power of two, there is a list of pages with room and a list of full pages; pages that are
not in use are on two more lists. What is larger than the largest of these sizes takes several
pages in a row.

The pool is its header, with the headers of the pages under their numbers and those of the huge
allocations under their places. A page number counts small pages, and places in the pool are
offsets. `none` stands for an assertion that fails, for `abort`, for a bitmap that is read past
its end, and for a list that does not end.

## Main definitions

- `Pool` — the headers
- `bucketToSize`, `sizeToBucket` — the sizes
- `allocInit`, `allocGet`, `allocFree`, `allocSize` — the allocator
- `allocCheck` — the check of a pool
-/

namespace Shalloc

/-- `MIN_USEFUL_SIZE`, the size from which a pool has pages. -/
def minUsefulSize : ℕ := (256 <<< 5) * 128

namespace Pages

/-- `MAX_LARGE_PAGES`. -/
def maxLargePages : ℕ := 256

/-- `BITS_FROM_SMALL_TO_LARGE_PAGE`. -/
def bitsFromSmallToLargePage : ℕ := 5

/-- `MAX_SMALL_PAGES`. -/
def maxSmallPages : ℕ := maxLargePages <<< bitsFromSmallToLargePage

/-- `INTER_BUCKET_SPACE`. -/
def interBucketSpace : ℕ := 4

/-- `SMALL_PAGES_PER_LARGE_PAGE`. -/
def smallPagesPerLargePage : ℕ := 1 <<< bitsFromSmallToLargePage

/-- `MAX_PAGE_OBJECT_ORDER`. -/
def maxPageObjectOrder : ℕ := 3

/-- `BITS_PER_LONG`. -/
def bitsPerLong : ℕ := 64

/-- `sizeof(struct header)`, with the state of one bucket. -/
def sizeofHeader : ℕ := 56

/-- `sizeof(struct bucket_state)`. -/
def sizeofBucketState : ℕ := 8

/-- `sizeof(struct page_header)`, with one word of `used`. -/
def sizeofPageHeader : ℕ := 16

/-- `sizeof(struct huge_alloc)`. -/
def sizeofHugeAlloc : ℕ := 32

/-- `ALIGNOF(struct huge_alloc)`. -/
def alignofHugeAlloc : ℕ := 8

/-- `struct bucket_state`. -/
structure BucketState where
  elementsPerPage : ℕ
  pageList : ℕ
  fullList : ℕ
deriving DecidableEq, Repr

/-- `struct huge_alloc`. -/
structure HugeAlloc where
  next : ℕ
  prev : ℕ
  off : ℕ
  len : ℕ
deriving DecidableEq, Repr

/-- `struct page_header`. -/
structure PageHeader where
  next : ℕ
  prev : ℕ
  elementsUsed : ℕ
  bucket : ℕ
  used : ℕ → Bool

/-- `struct header`, with the other headers in the pool. -/
structure Pool where
  pagesize : ℕ → Bool
  smallFreeList : ℕ
  largeFreeList : ℕ
  huge : ℕ
  bs : ℕ → BucketState
  page : ℕ → PageHeader
  hugeAlloc : ℕ → HugeAlloc

/-- The lists of pages: the unused small or large ones, and those of a bucket that have room or
are full. -/
inductive PageList
  | free (large : Bool)
  | bucket (full : Bool) (b : ℕ)
deriving DecidableEq, Repr

namespace Pool

/-- The head of a list. -/
def list (head : Pool) : PageList → ℕ
  | .free false => head.smallFreeList
  | .free true => head.largeFreeList
  | .bucket false b => (head.bs b).pageList
  | .bucket true b => (head.bs b).fullList

/-- Write the head of a list. -/
def setList (head : Pool) (list : PageList) (pgnum : ℕ) : Pool :=
  match list with
  | .free false => { head with smallFreeList := pgnum }
  | .free true => { head with largeFreeList := pgnum }
  | .bucket false b =>
    { head with bs := Function.update head.bs b { head.bs b with pageList := pgnum } }
  | .bucket true b =>
    { head with bs := Function.update head.bs b { head.bs b with fullList := pgnum } }

/-- Write the header of a page. -/
def setPage (head : Pool) (pgnum : ℕ) (ph : PageHeader) : Pool :=
  { head with page := Function.update head.page pgnum ph }

/-- Write the header of a huge allocation. -/
def setHuge (head : Pool) (offset : ℕ) (ha : HugeAlloc) : Pool :=
  { head with hugeAlloc := Function.update head.hugeAlloc offset ha }

end Pool

section Sizes

/-- `bucket_to_size`. The part of a power of two is shifted as an `unsigned int`. -/
def bucketToSize (bucket : ℕ) : ℕ :=
  let base := 1 <<< (bucket / interBucketSpace)
  base + Word.wrap 32 ((bucket % interBucketSpace) <<< (bucket / interBucketSpace)) /
    interBucketSpace

/-- `size_to_bucket`. -/
def sizeToBucket (size : ℕ) : ℕ :=
  let base := Tiny.afls (size / 2)
  let overshoot := Word.sub 64 size (1 <<< base)
  base * interBucketSpace +
    (Word.wrap 64 (overshoot * interBucketSpace + (1 <<< base) - 1)) >>> base

/-- `small_page_bits`. -/
def smallPageBits (poolsize : ℕ) : ℕ := Tiny.afls (poolsize / maxSmallPages - 1)

/-- `lp_bits`. -/
def largePageBits (poolsize : ℕ) : ℕ := smallPageBits poolsize + bitsFromSmallToLargePage

/-- `used_size`. -/
def usedSize (numElements : ℕ) : ℕ := Tiny.alignUp numElements bitsPerLong / 8

/-- `page_header_size`. -/
def pageHeaderSize (alignBits numElements : ℕ) : ℕ :=
  Tiny.alignUp (sizeofPageHeader - 8 + usedSize numElements) (1 <<< alignBits)

/-- The loop of `elements_per_page`. -/
def elementsPerPageLoop (alignBits esize psize : ℕ) : ℕ → ℕ
  | 0 => 0
  | num + 1 =>
    if psize < pageHeaderSize alignBits (num + 1) + esize * (num + 1) then
      elementsPerPageLoop alignBits esize psize num
    else num + 1

/-- `elements_per_page`. -/
def elementsPerPage (alignBits esize psize : ℕ) : ℕ :=
  let overhead := Tiny.alignUp sizeofPageHeader (1 <<< alignBits)
  elementsPerPageLoop alignBits esize psize (Word.sub 64 psize overhead / esize)

/-- `large_page_bucket`. -/
def largePageBucket (bucket spBits : ℕ) : Bool :=
  decide ((1 <<< spBits) >>> maxPageObjectOrder < bucketToSize bucket)

/-- `max_bucket`. -/
def maxBucket (lpBits : ℕ) : ℕ := (lpBits - maxPageObjectOrder) * interBucketSpace

/-- `header_size`. -/
def headerSize (lpBits : ℕ) : ℕ := sizeofHeader + sizeofBucketState * (maxBucket lpBits - 1)

end Sizes

section Lists

/-- `add_to_list`, of the page `pgnum`. -/
def addToList (list : PageList) (pgnum : ℕ) (head : Pool) : Option Pool := do
  let h := head.list list
  let offset := Word.wrap 16 pgnum
  let head := head.setPage pgnum { head.page pgnum with next := h }
  let head ←
    if h ≠ 0 then
      if (head.page h).prev = 0 then some (head.setPage h { head.page h with prev := offset })
      else none
    else some head
  let head := head.setList list offset
  some (head.setPage pgnum { head.page pgnum with prev := 0 })

/-- `del_from_list`. -/
def delFromList (list : PageList) (pgnum : ℕ) (head : Pool) : Pool :=
  let ph := head.page pgnum
  let head :=
    if ph.prev = 0 then head.setList list ph.next
    else head.setPage ph.prev { head.page ph.prev with next := ph.next }
  if ph.next ≠ 0 then head.setPage ph.next { head.page ph.next with prev := ph.prev } else head

/-- `pop_from_list`. -/
def popFromList (list : PageList) (head : Pool) : ℕ × Pool :=
  let h := head.list list
  if h ≠ 0 then
    let next := (head.page h).next
    let head := head.setList list next
    (h, if next ≠ 0 then head.setPage next { head.page next with prev := 0 } else head)
  else (h, head)

/-- `add_to_huge_list`. -/
def addToHugeList (offset : ℕ) (head : Pool) : Option Pool := do
  let h := head.huge
  let head := head.setHuge offset { head.hugeAlloc offset with next := h }
  let head ←
    if h ≠ 0 then
      if (head.hugeAlloc h).prev = 0 then
        some (head.setHuge h { head.hugeAlloc h with prev := offset })
      else none
    else some head
  let head := { head with huge := offset }
  some (head.setHuge offset { head.hugeAlloc offset with prev := 0 })

/-- `del_from_huge`. -/
def delFromHuge (offset : ℕ) (head : Pool) : Pool :=
  let ha := head.hugeAlloc offset
  let head :=
    if ha.prev = 0 then { head with huge := ha.next }
    else head.setHuge ha.prev { head.hugeAlloc ha.prev with next := ha.next }
  if ha.next ≠ 0 then head.setHuge ha.next { head.hugeAlloc ha.next with prev := ha.prev } else head

/-- `clear_bit`. -/
def clearBit (bitmap : ℕ → Bool) (off : ℕ) : ℕ → Bool := Function.update bitmap off false

/-- `set_bit`. -/
def setBit (bitmap : ℕ → Bool) (off : ℕ) : ℕ → Bool := Function.update bitmap off true

/-- `find_free_bit`, in a bitmap of `n` bits after the first `i`. -/
def findFreeBit (bitmap : ℕ → Bool) : ℕ → ℕ → Option ℕ
  | 0, _ => none
  | n + 1, i => if bitmap i then findFreeBit bitmap n (i + 1) else some i

end Lists

section Pages

variable (poolsize : ℕ)

/-- An unused page is put on its list. -/
def freePage (large : Bool) (pgnum : ℕ) (head : Pool) : Option Pool :=
  addToList (.free large) pgnum (head.setPage pgnum { head.page pgnum with elementsUsed := 0 })

/-- The `n` small pages from `i` on are put on the list of unused ones. -/
def addSmallPages : ℕ → ℕ → Pool → Option Pool
  | 0, _, head => some head
  | n + 1, i, head => do
    let head ← freePage false i head
    addSmallPages n (i + 1) head

/-- The loop of `alloc_init` over the large pages. -/
def addLargePages : ℕ → ℕ → Pool → Option Pool
  | 0, _, _ => none
  | fuel + 1, i, head =>
    if (i <<< smallPageBits poolsize) + (1 <<< largePageBits poolsize) ≤ poolsize then
      if i < maxSmallPages then do
        let head ← freePage true i head
        addLargePages fuel (i + smallPagesPerLargePage) head
      else none
    else some head

/-- `alloc_init`. The header has no states of further buckets. -/
def allocInit (head : Pool) : Option Pool := do
  let spBits := smallPageBits poolsize
  let lpBits := largePageBits poolsize
  let numBuckets := maxBucket lpBits
  let head : Pool :=
    { head with
      pagesize := fun _ => true
      smallFreeList := 0
      largeFreeList := 0
      huge := 0
      bs := fun i =>
        if i < numBuckets then
          let pagesize := if largePageBucket i spBits then 1 <<< lpBits else 1 <<< spBits
          ⟨elementsPerPage (i / interBucketSpace) (bucketToSize i) pagesize, 0, 0⟩
        else ⟨0, 0, 0⟩ }
  if headerSize lpBits < 1 <<< lpBits then do
    let head := { head with pagesize := clearBit head.pagesize 0 }
    let first := Tiny.alignUp (headerSize lpBits) (1 <<< spBits) >>> spBits
    let head ← addSmallPages (smallPagesPerLargePage - first) first head
    addLargePages poolsize (maxLargePages + 1) smallPagesPerLargePage head
  else none

/-- The `n` small pages from `i` on are taken off the list of unused ones. -/
def delSmallPages : ℕ → ℕ → Pool → Pool
  | 0, _, head => head
  | n + 1, i, head => delSmallPages n (i + 1) (delFromList (.free false) i head)

/-- `all_empty`. -/
def allEmpty (pgnum : ℕ) (head : Pool) : Bool :=
  (List.range smallPagesPerLargePage).all fun i => (head.page (pgnum + i)).elementsUsed = 0

/-- The loop of `recombine_small_pages`. -/
def recombineLoop : ℕ → ℕ → Pool → Option Pool
  | 0, _, _ => none
  | fuel + 1, i, head =>
    if i < (poolsize >>> largePageBits poolsize) <<< bitsFromSmallToLargePage then
      if head.pagesize (i / smallPagesPerLargePage) then
        recombineLoop fuel (i + smallPagesPerLargePage) head
      else if allEmpty i head then do
        let head :=
          { head with pagesize := setBit head.pagesize (i / smallPagesPerLargePage) }
        let head ← addToList (.free true) i (delSmallPages smallPagesPerLargePage i head)
        recombineLoop fuel (i + smallPagesPerLargePage) head
      else recombineLoop fuel (i + smallPagesPerLargePage) head
    else some head

/-- `recombine_small_pages`. -/
def recombineSmallPages (head : Pool) : Option Pool :=
  recombineLoop poolsize (poolsize >>> largePageBits poolsize + 1) smallPagesPerLargePage head

/-- `get_large_page`. -/
def getLargePage (head : Pool) : Option (ℕ × Pool) := do
  let (page, head) := popFromList (.free true) head
  if page ≠ 0 then some (page, head)
  else do
    let head ← recombineSmallPages poolsize head
    some (popFromList (.free true) head)

/-- `break_up_large_page`. -/
def breakUpLargePage (lpage : ℕ) (head : Pool) : Option (ℕ × Pool) := do
  let head :=
    { head with pagesize := clearBit head.pagesize (lpage >>> bitsFromSmallToLargePage) }
  let head ← addSmallPages (smallPagesPerLargePage - 1) (lpage + 1) head
  some (lpage, head)

/-- `get_small_page`. -/
def getSmallPage (head : Pool) : Option (ℕ × Pool) := do
  let (ret, head) := popFromList (.free false) head
  if ret ≠ 0 then some (ret, head)
  else do
    let (ret, head) ← getLargePage poolsize head
    if ret ≠ 0 then breakUpLargePage ret head else some (ret, head)

/-- The part of `alloc_get` for a bucket that finds a page with room, 0 if there is none. -/
def bucketPage (bucket : ℕ) (head : Pool) : Option (ℕ × Pool) :=
  if (head.bs bucket).pageList = 0 then do
    let (page, head) ←
      if largePageBucket bucket (smallPageBits poolsize) then getLargePage poolsize head
      else getSmallPage poolsize head
    let head := head.setList (.bucket false bucket) page
    if page = 0 then some (0, head)
    else
      let ph := head.page page
      some (page, head.setPage page
        { ph with
          bucket := Word.wrap 7 bucket
          elementsUsed := 0
          next := 0
          used := fun i =>
            if i < usedSize (head.bs bucket).elementsPerPage * 8 then false else ph.used i })
  else some ((head.bs bucket).pageList, head)

/-- The part of `alloc_get` for a bucket. -/
def bucketGet (bucket : ℕ) (head : Pool) : Option (Option ℕ × Pool) := do
  let (page, head) ← bucketPage poolsize bucket head
  if page = 0 then some (none, head)
  else do
    let n := (head.bs bucket).elementsPerPage
    let ph := head.page page
    let i ← findFreeBit ph.used (usedSize n * 8) 0
    let head := head.setPage page
      { ph with used := setBit ph.used i, elementsUsed := Word.wrap 25 (ph.elementsUsed + 1) }
    let head ←
      if (head.page page).elementsUsed = n then
        addToList (.bucket true bucket) page (delFromList (.bucket false bucket) page head)
      else some head
    some (some ((page <<< smallPageBits poolsize) +
      pageHeaderSize ((head.page page).bucket / interBucketSpace) n + i * bucketToSize bucket),
      head)

/-- The page of a place, and whether it is a large one. -/
def pageOf (offset : ℕ) (head : Pool) : Bool × ℕ :=
  let pgnum := offset >>> smallPageBits poolsize
  if head.pagesize (pgnum >>> bitsFromSmallToLargePage) then
    (true, pgnum &&& Word.lnot 64 (smallPagesPerLargePage - 1))
  else (false, pgnum)

/-- The part of `alloc_free` for an element of a page. -/
def elementFree (offset : ℕ) (head : Pool) : Option Pool := do
  let (large, pgnum) := pageOf poolsize offset head
  let bucket := (head.page pgnum).bucket
  let n := (head.bs bucket).elementsPerPage
  let pgoffset := Word.sub 64 (Word.sub 64 offset (pgnum <<< smallPageBits poolsize))
    (pageHeaderSize (bucket / interBucketSpace) n)
  let head ←
    if (head.page pgnum).elementsUsed = n then
      addToList (.bucket false bucket) pgnum (delFromList (.bucket true bucket) pgnum head)
    else some head
  let i := pgoffset / bucketToSize bucket
  let ph := head.page pgnum
  let head := head.setPage pgnum
    { ph with used := clearBit ph.used i, elementsUsed := Word.sub 25 ph.elementsUsed 1 }
  if (head.page pgnum).elementsUsed = 0 then
    addToList (.free large) pgnum (delFromList (.bucket false bucket) pgnum head)
  else some head

/-- `huge_allocated`. The structures of the huge allocations take space in the pool. -/
def hugeAllocated (offset : ℕ) (head : Pool) : ℕ → ℕ → Option Bool
  | 0, _ => none
  | fuel + 1, i =>
    if i = 0 then some false
    else
      let ha := head.hugeAlloc i
      if ha.off ≤ offset ∧ offset < ha.off + ha.len then some true
      else hugeAllocated offset head fuel ha.next

/-- The search of `huge_alloc` for small pages in a row: the last one, and how many. The bitmap has
`MAX_LARGE_PAGES` bits. -/
def hugeSmallLoop (size align : ℕ) (head : Pool) : ℕ → ℕ → ℕ → Option (Option (ℕ × ℕ))
  | 0, _, _ => none
  | fuel + 1, i, num =>
    let off := i <<< smallPageBits poolsize
    if off < poolsize then
      if maxLargePages ≤ i >>> bitsFromSmallToLargePage then none
      else if head.pagesize (i >>> bitsFromSmallToLargePage) then
        hugeSmallLoop size align head fuel (i + smallPagesPerLargePage) num
      else if num = 0 ∧ off % align ≠ 0 then hugeSmallLoop size align head fuel (i + 1) num
      else do
        if ← hugeAllocated off head poolsize head.huge then
          hugeSmallLoop size align head fuel (i + 1) 0
        else if (head.page i).elementsUsed ≠ 0 then hugeSmallLoop size align head fuel (i + 1) 0
        else if size ≤ (num + 1) <<< smallPageBits poolsize then some (some (i, num + 1))
        else hugeSmallLoop size align head fuel (i + 1) (num + 1)
    else some none

/-- The search for large pages in a row. -/
def hugeLargeLoop (size align : ℕ) (head : Pool) : ℕ → ℕ → ℕ → Option (Option (ℕ × ℕ))
  | 0, _, _ => none
  | fuel + 1, i, num =>
    let off := i <<< largePageBits poolsize
    if off < poolsize then
      if maxLargePages ≤ i then none
      else if !head.pagesize i then hugeLargeLoop size align head fuel (i + 1) num
      else if num = 0 ∧ off % align ≠ 0 then hugeLargeLoop size align head fuel (i + 1) num
      else do
        if ← hugeAllocated off head poolsize head.huge then
          hugeLargeLoop size align head fuel (i + 1) 0
        else if (head.page (i <<< bitsFromSmallToLargePage)).elementsUsed ≠ 0 then
          hugeLargeLoop size align head fuel (i + 1) 0
        else if size ≤ (num + 1) <<< largePageBits poolsize then some (some (i, num + 1))
        else hugeLargeLoop size align head fuel (i + 1) (num + 1)
    else some none

/-- The pages that were found are taken off their list, the last one first. Page `i` of that size
is the small page `i <<< shift`. -/
def delFoundPages (list : PageList) (shift : ℕ) : ℕ → ℕ → Pool → Pool
  | 0, _, head => head
  | n + 1, i, head => delFoundPages list shift n (i - 1) (delFromList list (i <<< shift) head)

/-- What follows the label `done` of `huge_alloc`, with the two steps before it. -/
def hugeDone (ha : ℕ) (large : Bool) (i num : ℕ) (head : Pool) : Option (Option ℕ × Pool) := do
  let bits := if large then largePageBits poolsize else smallPageBits poolsize
  let head :=
    delFoundPages (.free large) (if large then bitsFromSmallToLargePage else 0) num i head
  let off := (i - num + 1) <<< bits
  let head := head.setHuge ha { head.hugeAlloc ha with off := off, len := num <<< bits }
  let head ← addToHugeList ha head
  some (some off, head)

/-- `huge_alloc`. Its own structure is served by a bucket, and so is never huge. -/
def hugeAlloc (size align : ℕ) (head : Pool) : Option (Option ℕ × Pool) := do
  let (ha, head) ← bucketGet poolsize
    (sizeToBucket (Tiny.alignUp sizeofHugeAlloc alignofHugeAlloc)) head
  match ha with
  | none => some (none, head)
  | some ha =>
    let spBits := smallPageBits poolsize
    let lpBits := largePageBits poolsize
    let first := (headerSize lpBits + (1 <<< spBits) - 1) >>> spBits
    match ← hugeSmallLoop poolsize size align head (poolsize + 1) first 0 with
    | some (i, num) => hugeDone poolsize ha false i num head
    | none =>
      let head ← recombineSmallPages poolsize head
      let first := (headerSize lpBits + (1 <<< lpBits) - 1) >>> lpBits
      match ← hugeLargeLoop poolsize size align head (poolsize + 1) first 0 with
      | some (i, num) => hugeDone poolsize ha true i num head
      | none =>
        let head ← elementFree poolsize ha head
        some (none, head)

/-- The search of `huge_free` and `huge_size` for the structure of a place. -/
def hugeFind (offset : ℕ) (head : Pool) : ℕ → ℕ → Option ℕ
  | 0, _ => none
  | fuel + 1, i =>
    if i = 0 then none
    else if offset = (head.hugeAlloc i).off then some i
    else hugeFind offset head fuel (head.hugeAlloc i).next

/-- The loops of `huge_free`. -/
def addFoundPages (large : Bool) (stop : ℕ) : ℕ → ℕ → Pool → Option Pool
  | 0, _, _ => none
  | fuel + 1, off, head =>
    if off < stop then do
      let bits := if large then largePageBits poolsize else smallPageBits poolsize
      let head ← addToList (.free large) (off >>> smallPageBits poolsize) head
      addFoundPages large stop fuel (off + 1 <<< bits) head
    else some head

/-- `huge_free`. -/
def hugeFree (offset : ℕ) (head : Pool) : Option Pool := do
  let i ← hugeFind offset head poolsize head.huge
  let ha := head.hugeAlloc i
  let pgnum := offset >>> smallPageBits poolsize
  let head ← addFoundPages poolsize (head.pagesize (pgnum >>> bitsFromSmallToLargePage))
    (ha.off + ha.len) (poolsize + 1) ha.off head
  elementFree poolsize i (delFromHuge i head)

/-- `huge_size`. -/
def hugeSize (offset : ℕ) (head : Pool) : Option ℕ := do
  let i ← hugeFind offset head poolsize head.huge
  some (head.hugeAlloc i).len

/-- The bucket that `alloc_get` takes for a request. -/
def bucketOf (size align : ℕ) : ℕ :=
  let size := Tiny.alignUp size align
  sizeToBucket (if size = 0 then 1 else size)

/-- `alloc_get`, which returns a place in the pool. -/
def allocGet (size align : ℕ) (head : Pool) : Option (Option ℕ × Pool) :=
  let bucket := bucketOf size align
  if maxBucket (largePageBits poolsize) ≤ bucket then
    let size := Tiny.alignUp size align
    hugeAlloc poolsize (if size = 0 then 1 else size) align head
  else bucketGet poolsize bucket head

/-- `alloc_free`. -/
def allocFree (free : ℕ) (head : Pool) : Option Pool :=
  if (pageOf poolsize free head).2 <<< smallPageBits poolsize = free then
    hugeFree poolsize free head
  else elementFree poolsize free head

/-- `alloc_size`. -/
def allocSize (p : ℕ) (head : Pool) : Option ℕ :=
  let (_, pgnum) := pageOf poolsize p head
  if pgnum <<< smallPageBits poolsize = p then hugeSize poolsize p head
  else some (bucketToSize (head.page pgnum).bucket)

end Pages

section Check

variable (poolsize : ℕ)

/-- `count_bits`. -/
def countBits (bitmap : ℕ → Bool) (limit : ℕ) : ℕ := (List.range limit).countP bitmap

/-- `out_of_bounds`. -/
def outOfBounds (pgnum spBits pagesize : ℕ) : Bool :=
  decide ((Word.wrap 64 (pgnum <<< spBits)) >>> spBits ≠ pgnum) ||
    decide (poolsize < Word.wrap 64 (pgnum <<< spBits)) ||
    decide (poolsize < Word.wrap 64 (pgnum <<< spBits) + pagesize)

/-- The loops of the check over a list of pages, with the bitmap of the pages that were seen. What
they test of the number of a page and of its header is given; a test that fails ends the check. -/
def checkList (pagesize : ℕ) (head : Pool) (place : ℕ → Bool) (ok : PageHeader → Bool) :
    ℕ → ℕ → ℕ → (ℕ → Bool) → Option (Option (ℕ → Bool))
  | 0, _, _, _ => none
  | fuel + 1, i, prev, pages =>
    if i = 0 then some (some pages)
    else if outOfBounds poolsize i (smallPageBits poolsize) pagesize then some none
    else if !place i then some none
    else
      let ph := head.page i
      if ph.prev ≠ prev then some none
      else if pages i then some none
      else if !ok ph then some none
      else checkList pagesize head place ok fuel ph.next i (setBit pages i)

/-- `check_bucket`. A full list has a page of the wrong size pass that lies on a boundary. -/
def checkBucket (bindex : ℕ) (head : Pool) (pages : ℕ → Bool) : Option (Option (ℕ → Bool)) :=
  let spBits := smallPageBits poolsize
  let lpBucket := largePageBucket bindex spBits
  let pagesize := 1 <<< (if lpBucket then largePageBits poolsize else spBits)
  let bs := head.bs bindex
  let taken (n : ℕ) := pageHeaderSize (bindex / interBucketSpace) n + bucketToSize bindex * n
  let large (i : ℕ) := head.pagesize (i >>> bitsFromSmallToLargePage)
  if pagesize < taken bs.elementsPerPage then some none
  else if taken (bs.elementsPerPage + 1) ≤ pagesize then some none
  else do
    match ← checkList poolsize pagesize head
        (fun i => large i == lpBucket && !(lpBucket && decide (i % smallPagesPerLargePage ≠ 0)))
        (fun ph => decide (ph.elementsUsed ≠ 0) && decide (ph.elementsUsed < bs.elementsPerPage) &&
          decide (ph.elementsUsed = countBits ph.used bs.elementsPerPage) &&
          decide (ph.bucket = bindex))
        (maxSmallPages + 1) bs.pageList 0 pages with
    | none => some none
    | some pages =>
      checkList poolsize pagesize head
        (fun i => !(large i != lpBucket && lpBucket && decide (i % smallPagesPerLargePage ≠ 0)))
        (fun ph => decide (ph.elementsUsed = bs.elementsPerPage) &&
          decide (ph.elementsUsed = countBits ph.used bs.elementsPerPage) &&
          decide (ph.bucket = bindex))
        (maxSmallPages + 1) bs.fullList 0 pages

/-- The loop of `alloc_check` over the buckets from `i` on. -/
def checkBuckets (head : Pool) : ℕ → ℕ → (ℕ → Bool) → Option (Option (ℕ → Bool))
  | 0, _, pages => some (some pages)
  | n + 1, i, pages => do
    match ← checkBucket poolsize i head pages with
    | none => some none
    | some pages => checkBuckets head n (i + 1) pages

/-- The loop of `alloc_check` over the small pages of a huge allocation. -/
def checkHugePages (stop : ℕ) : ℕ → ℕ → (ℕ → Bool) → Option (Option (ℕ → Bool))
  | 0, _, _ => none
  | fuel + 1, j, pages =>
    if j < stop then
      if pages (j >>> smallPageBits poolsize) then some none
      else checkHugePages stop fuel (j + 1 <<< smallPageBits poolsize)
        (setBit pages (j >>> smallPageBits poolsize))
    else some (some pages)

/-- The loop of `alloc_check` over the huge allocations. -/
def checkHuge (head : Pool) : ℕ → ℕ → ℕ → (ℕ → Bool) → Option (Option (ℕ → Bool))
  | 0, _, _, _ => none
  | fuel + 1, i, prev, pages =>
    if i = 0 then some (some pages)
    else if poolsize ≤ i ∨ poolsize < Word.wrap 64 (i + sizeofHugeAlloc) then some none
    else
      let ha := head.hugeAlloc i
      if poolsize < ha.off ∨ poolsize < Word.wrap 64 (ha.off + ha.len) then some none
      else
        let pgbits :=
          if head.pagesize (ha.off >>> largePageBits poolsize) then largePageBits poolsize
          else smallPageBits poolsize
        if ha.off % (1 <<< pgbits) ≠ 0 ∨ ha.len % (1 <<< pgbits) ≠ 0 ∨ ha.prev ≠ prev then some none
        else do
          match ← checkHugePages poolsize (ha.off + ha.len) (poolsize + 1) ha.off pages with
          | none => some none
          | some pages => checkHuge head fuel ha.next i pages

/-- The last loop of `alloc_check`. The bitmap has `MAX_SMALL_PAGES` bits. -/
def checkAccounted (head : Pool) (pages : ℕ → Bool) : ℕ → ℕ → Option Bool
  | 0, _ => none
  | fuel + 1, i =>
    if i < poolsize >>> smallPageBits poolsize then
      if maxSmallPages ≤ i then none
      else if !pages i then some false
      else if head.pagesize (i >>> bitsFromSmallToLargePage) then
        checkAccounted head pages fuel (i + smallPagesPerLargePage)
      else checkAccounted head pages fuel (i + 1)
    else some true

/-- `alloc_check`. -/
def allocCheck (head : Pool) : Option Bool := do
  let spBits := smallPageBits poolsize
  let lpBits := largePageBits poolsize
  let large (i : ℕ) := head.pagesize (i >>> bitsFromSmallToLargePage)
  -- a small page has the number `i` that the loop over the header has shifted down
  let pages := fun i => decide (i <<< spBits < headerSize lpBits)
  match ← checkList poolsize (1 <<< spBits) head (fun i => !large i) (fun _ => true)
      (maxSmallPages + 1) head.smallFreeList 0 pages with
  | none => some false
  | some pages =>
    match ← checkList poolsize (1 <<< lpBits) head
        (fun i => large i && decide (i % smallPagesPerLargePage = 0)) (fun _ => true)
        (maxSmallPages + 1) head.largeFreeList 0 pages with
    | none => some false
    | some pages =>
      match ← checkBuckets poolsize head (maxBucket lpBits) 0 pages with
      | none => some false
      | some pages =>
        match ← checkHuge poolsize head (poolsize + 1) head.huge 0 pages with
        | none => some false
        | some pages => checkAccounted poolsize head pages (maxSmallPages + 2) 0

end Check

end Pages

end Shalloc
