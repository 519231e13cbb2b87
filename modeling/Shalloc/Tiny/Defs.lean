import Mathlib.Logic.Function.Basic
import Shalloc.Word

/-!
# The allocator of small pools

Model of `antithread/alloc/tiny.c`, which serves the pools that are too small for pages. The
pool begins with an array of places of freed blocks, three bytes each, and blocks follow it up
to its end. A block begins with a header of one or more bytes, which holds the length of the
block and can be read from both ends.

The pool is a function from offsets to bytes, and places in it are offsets. `none` stands for
an assertion that fails, for a shift by more than the width of the type, for a step below the
start of the pool, and for a loop that would go on.

## Main definitions

- `encode`, `decode` — the header of a block
- `tinyAllocInit`, `tinyAllocGet`, `tinyAllocFree`, `tinyAllocSize` — the allocator
- `tinyAllocCheck` — the check of a pool
-/

namespace Shalloc.Tiny

/-- The bytes of a pool. -/
abbrev Pool := ℕ → UInt8

/-- `MIN_BLOCK_SIZE`: one byte header, one byte data. -/
def minBlockSize : ℕ := 2

/-- `TERM_BIT`: bit 7 of the first and the last byte of a header. -/
def termBit : ℕ := 0x80

/-- `SINGLE_BYTE`: bit 6 of a header of one byte. -/
def singleByte : ℕ := 0x40

/-- `FREE_BIT`: bit 5 of the first byte. -/
def freeBit : ℕ := 0x20

/-- `MAX_FREE_CACHED_SIZE`. -/
def maxFreeCachedSize : ℕ := 256

/-- The byte that is stored for an integer. -/
abbrev byte (n : ℕ) : UInt8 := UInt8.ofNat n

/-- `memset(pool + start, c, n)`. -/
def memset (pool : Pool) (start : ℕ) (c : UInt8) (n : ℕ) : Pool := fun a =>
  if start ≤ a ∧ a < start + n then c else pool a

theorem memset_inside {pool : Pool} {start n a : ℕ} {c : UInt8} (h1 : start ≤ a)
    (h2 : a < start + n) : memset pool start c n a = c := if_pos ⟨h1, h2⟩

theorem memset_outside {pool : Pool} {start n a : ℕ} {c : UInt8}
    (h : a < start ∨ start + n ≤ a) : memset pool start c n a = pool a :=
  if_neg fun ha => by omega

/-- `~(align - 1)`. -/
def alignMask (align : ℕ) : ℕ := Word.lnot 64 (Word.sub 64 align 1)

/-- `align_up`. -/
def alignUp (x align : ℕ) : ℕ := Word.wrap 64 (x + align - 1) &&& alignMask align

/-- `afls`, the place of the last bit that is set, counted from 1. -/
def afls (val : ℕ) : ℕ := if val = 0 then 0 else Nat.log2 val + 1

/-- `encode_length`. -/
def encodeLength (val : ℕ) : ℕ :=
  let bits := afls val
  if bits ≤ 5 then 1 else 2 + (bits - 5) / 7

/-- The loop of `encode_len_with_header`. -/
def encodeLenLoop (len : ℕ) : ℕ → ℕ → Option ℕ
  | 0, _ => none
  | fuel + 1, hdrlen =>
    let next := encodeLength (Word.wrap 64 (len + hdrlen - minBlockSize))
    if next ≠ hdrlen then encodeLenLoop len fuel next else some hdrlen

/-- `encode_len_with_header`. A header has at most ten bytes. -/
def encodeLenWithHeader (len : ℕ) : Option ℕ :=
  if len = 0 then none else encodeLenLoop len 11 1

/-- The bytes after the first one: seven bits of `len` in each, and at most six in the last. -/
def encodeLoop (arr : ℕ) : ℕ → ℕ → ℕ → Pool → Option (ℕ × Pool)
  | 0, _, _, _ => none
  | fuel + 1, len, hdrlen, pool =>
    if 1 <<< 6 ≤ len then
      encodeLoop arr fuel (len >>> 7) (hdrlen + 1)
        (Function.update pool (arr + hdrlen) (byte (len &&& 0x7f)))
    else some (hdrlen + 1, Function.update pool (arr + hdrlen) (byte (len ||| termBit)))

/-- `encode`: the number of bytes of the header, which begins at `arr`. -/
def encode (len : ℕ) (free : Bool) (arr : ℕ) (pool : Pool) : Option (ℕ × Pool) :=
  if len < minBlockSize then none
  else
    let len := len - minBlockSize
    let first := termBit ||| (if free then freeBit else 0) ||| (len &&& 0x1f)
    let len := len >>> 5
    if len = 0 then some (1, Function.update pool arr (byte (first ||| singleByte)))
    else encodeLoop arr 9 len 1 (Function.update pool arr (byte first))

/-- What `decode` returns. -/
structure Header where
  hdrlen : ℕ
  len : ℕ
  free : Bool
deriving DecidableEq, Repr

/-- The bytes after the first one. The tenth would be shifted by more than 63. -/
def decodeLoop (pool : Pool) (arr : ℕ) : ℕ → ℕ → ℕ → ℕ → Option (ℕ × ℕ)
  | 0, _, _, _ => none
  | fuel + 1, hdrlen, bits, len =>
    let c := (pool (arr + hdrlen)).toNat
    if c &&& termBit = 0 then
      decodeLoop pool arr fuel (hdrlen + 1) (bits + 7)
        (len ||| Word.wrap 64 ((c &&& 0x7f) <<< bits))
    else some (hdrlen + 1, len ||| Word.wrap 64 ((c &&& 0x3f) <<< bits))

/-- `decode`, of the header that begins at `arr`. -/
def decode (pool : Pool) (arr : ℕ) : Option Header :=
  let first := (pool arr).toNat
  let free := decide (first &&& freeBit ≠ 0)
  let len := first &&& 0x1f
  if first &&& singleByte ≠ 0 then some ⟨1, Word.wrap 64 (len + minBlockSize), free⟩
  else (decodeLoop pool arr 9 1 5 len).map fun a => ⟨a.1, Word.wrap 64 (a.2 + minBlockSize), free⟩

/-- `free_array_size`. -/
def freeArraySize (poolsize : ℕ) : ℕ := poolsize / 1024

/-- `free_array_off`. -/
def freeArrayOff (size : ℕ) : ℕ :=
  let off := if size ≤ 4 then size - 1 else if size ≤ 16 then size / 2 + 1 else size / 4 + 5
  off * 3

/-- The place that an entry of the free array holds, 0 in an empty one. -/
def freeEntry (arr : Pool) (i : ℕ) : ℕ :=
  (arr i).toNat <<< 16 ||| (arr (i + 1)).toNat <<< 8 ||| (arr (i + 2)).toNat

/-- `tiny_alloc_init`. -/
def tinyAllocInit (poolsize : ℕ) (pool : Pool) : Option Pool :=
  let arrsize := freeArraySize poolsize
  if poolsize < minBlockSize then some pool
  else (encode (poolsize - arrsize) true arrsize (memset pool 0 0 arrsize)).map Prod.snd

/-- The loop of `try_coalesce`. -/
def tryCoalesceLoop (poolsize : ℕ) :
    ℕ → ℕ → ℕ → ℕ → Bool → Bool → Pool → Option (Bool × Pool)
  | 0, _, _, _, _, _, _ => none
  | fuel + 1, off, prevOff, prevLen, prevFree, coalesced, pool => do
    let ⟨_, len, free⟩ ← decode pool off
    if free && prevFree then
      let (_, pool) ← encode (prevLen + len) true prevOff pool
      if off + len < poolsize then
        tryCoalesceLoop poolsize fuel (off + len) prevOff (prevLen + len) prevFree true pool
      else some (true, pool)
    else if off + len < poolsize then
      tryCoalesceLoop poolsize fuel (off + len) off len free coalesced pool
    else some (coalesced, pool)

/-- `try_coalesce`. A block has two bytes or more, so that the pool has less blocks than bytes. -/
def tryCoalesce (poolsize : ℕ) (pool : Pool) : Option (Bool × Pool) := do
  let (coalesced, pool) ←
    tryCoalesceLoop poolsize poolsize (freeArraySize poolsize) 0 0 false false pool
  some (coalesced, if coalesced then memset pool 0 0 (freeArraySize poolsize) else pool)

/-- `long_enough`. -/
def longEnough (offset len size align : ℕ) : Option Bool := do
  let hdrlen ← encodeLenWithHeader len
  some (decide (Word.wrap 64 (alignUp (offset + hdrlen) align + size) ≤ offset + len))

/-- The loop of `add_to_free_array`. -/
def addToFreeArrayLoop (poolsize off : ℕ) : ℕ → ℕ → Pool → Option Pool
  | 0, _, _ => none
  | fuel + 1, faOff, arr =>
    if faOff + 3 < freeArraySize poolsize then
      if arr faOff = 0 ∧ arr (faOff + 1) = 0 ∧ arr (faOff + 2) = 0 then
        let arr := Function.update arr faOff (byte (off >>> 16))
        let arr := Function.update arr (faOff + 1) (byte (off >>> 8))
        some (Function.update arr (faOff + 2) (byte off))
      else addToFreeArrayLoop poolsize off fuel (faOff + freeArrayOff maxFreeCachedSize) arr
    else some arr

/-- `add_to_free_array`. -/
def addToFreeArray (poolsize size off : ℕ) (arr : Pool) : Option Pool :=
  if maxFreeCachedSize ≤ size then some arr
  else addToFreeArrayLoop poolsize off (freeArraySize poolsize + 1) (freeArrayOff size) arr

section Get

variable (poolsize size align : ℕ)

/-- The inner loop of the search in the free array: the entry, and the block that it holds the
place of. -/
def bucketSearch (arr : Pool) : ℕ → ℕ → Option (Option (ℕ × ℕ × ℕ))
  | 0, _ => none
  | fuel + 1, faOff =>
    if faOff + 3 < freeArraySize poolsize then
      let off := freeEntry arr faOff
      if off = 0 then bucketSearch arr fuel (faOff + freeArrayOff maxFreeCachedSize)
      else do
        let ⟨_, len, _⟩ ← decode arr off
        if ← longEnough off len size align then some (some (faOff, off, len))
        else bucketSearch arr fuel (faOff + freeArrayOff maxFreeCachedSize)
    else some none

/-- The search in the free array, from the bucket of the right size up. -/
def freeArraySearch (arr : Pool) : ℕ → ℕ → Option (Option (ℕ × ℕ × ℕ))
  | 0, _ => none
  | fuel + 1, freeBucket =>
    if freeBucket < freeArrayOff maxFreeCachedSize then do
      match ← bucketSearch poolsize size align arr (freeArraySize poolsize + 1) freeBucket with
      | some found => some (some found)
      | none => freeArraySearch arr fuel (freeBucket + 3)
    else some none

/-- The walk through all blocks from `off`, which fills the free array if they have been
coalesced. -/
def walk (coalesced : Bool) : ℕ → ℕ → Pool → Option (Option (ℕ × ℕ) × Pool)
  | 0, _, _ => none
  | fuel + 1, off, arr => do
    let ⟨_, len, free⟩ ← decode arr off
    let fits ← if free then longEnough off len size align else some false
    if fits then some (some (off, len), arr)
    else
      let arr ← if free && coalesced then addToFreeArray poolsize len off arr else some arr
      if off + len = poolsize then some (none, arr)
      else walk coalesced fuel (off + len) arr

/-- The free block that a request is served from. -/
def findFree (arr : Pool) : Option (Option (ℕ × ℕ) × Pool) := do
  match ← freeArraySearch poolsize size align arr (freeArrayOff maxFreeCachedSize + 1)
      (freeArrayOff size) with
  | some (faOff, off, len) => some (some (off, len), memset arr faOff 0 3)
  | none =>
    let (found, arr) ← walk poolsize size align false poolsize (freeArraySize poolsize) arr
    match found with
    | some block => some (some block, arr)
    | none =>
      let (coalesced, arr) ← tryCoalesce poolsize arr
      if coalesced then walk poolsize size align true poolsize (freeArraySize poolsize) arr
      else some (none, arr)

/-- What follows the label `found`: the far end of the block is taken. -/
def takeFarEnd (off len : ℕ) (arr : Pool) : Option (ℕ × Pool) := do
  let actual := Word.sub 64 (off + len) size &&& alignMask align
  let hdrlen ← encodeLenWithHeader (Word.sub 64 (off + len) actual)
  let hdr := Word.sub 64 actual hdrlen
  let front := Word.sub 64 hdr off
  let (hdr, arr) ←
    if minBlockSize ≤ front then do
      let (_, arr) ← encode front true off arr
      let arr ← addToFreeArray poolsize front off arr
      some (hdr, arr)
    else some (off, arr)
  let arr := memset arr hdr 0 (Word.sub 64 actual hdr)
  let (_, arr) ← encode (Word.sub 64 (off + len) hdr) false hdr arr
  some (actual, arr)

/-- `tiny_alloc_get`, which returns a place in the pool. -/
def tinyAllocGet (arr : Pool) : Option (Option ℕ × Pool) :=
  if poolsize < minBlockSize then some (none, arr)
  else do
    let size := if size = 0 then 1 else size
    let (found, arr) ← findFree poolsize size align arr
    match found with
    | none => some (none, arr)
    | some (off, len) =>
      let (actual, arr) ← takeFarEnd poolsize size align off len arr
      some (some actual, arr)

end Get

/-- The walk of `to_hdr` to the last byte of a header. -/
def hdrEnd (pool : Pool) : ℕ → Option ℕ
  | 0 => none
  | p + 1 => if pool p = 0 then hdrEnd pool p else some p

/-- The walk of `to_hdr` to the first byte. -/
def hdrStart (pool : Pool) : ℕ → Option ℕ
  | 0 => none
  | p + 1 => if (pool p).toNat &&& termBit = 0 then hdrStart pool p else some p

/-- `to_hdr`. -/
def toHdr (pool : Pool) (p : ℕ) : Option ℕ := do
  let hdr ← hdrEnd pool p
  if (pool hdr).toNat &&& termBit = 0 then none
  else if (pool hdr).toNat &&& singleByte = 0 then hdrStart pool hdr
  else some hdr

/-- `tiny_alloc_free`. -/
def tinyAllocFree (poolsize freep : ℕ) (arr : Pool) : Option Pool :=
  if poolsize < minBlockSize then some arr
  else do
    let hdr ← toHdr arr freep
    let ⟨_, len, free⟩ ← decode arr hdr
    if free then none
    else
      addToFreeArray poolsize len hdr
        (Function.update arr hdr (byte ((arr hdr).toNat ||| freeBit)))

/-- `tiny_alloc_size`. -/
def tinyAllocSize (p : ℕ) (pool : Pool) : Option ℕ := do
  let hdr ← toHdr pool p
  let ⟨hdrlen, len, _⟩ ← decode pool hdr
  some (Word.sub 64 len hdrlen)

section Check

variable (poolsize : ℕ) (arr : Pool)

/-- The loop of `check_decode`. -/
def checkDecodeLoop (off : ℕ) : ℕ → ℕ → Bool
  | 0, _ => false
  | n + 1, i =>
    if (arr (off + i)).toNat &&& termBit ≠ 0 then true else checkDecodeLoop off n (i + 1)

/-- `check_decode`. -/
def checkDecode (off len : ℕ) : Bool :=
  if len = 0 then false
  else if (arr off).toNat &&& termBit = 0 then false
  else if (arr off).toNat &&& singleByte ≠ 0 then true
  else checkDecodeLoop arr off (len - 1) 1

/-- The first loop of `tiny_alloc_check`, which gathers the free array. -/
def checkGather : ℕ → ℕ → List ℕ → Option (Option (List ℕ))
  | 0, _, _ => none
  | fuel + 1, i, freearr =>
    if i + 3 < freeArraySize poolsize then
      let off := freeEntry arr i
      if off = 0 then checkGather fuel (i + 3) freearr
      else if poolsize ≤ off then some none
      else checkGather fuel (i + 3) (freearr ++ [off])
    else some (some freearr)

/-- The second loop, over the blocks: the entries that are not found. -/
def checkBlocks : ℕ → ℕ → List ℕ → Option (Option (List ℕ))
  | 0, _, _ => none
  | fuel + 1, off, freearr =>
    if off < poolsize then
      if checkDecode arr off (poolsize - off) = false then some none
      else do
        let ⟨hdrlen, len, free⟩ ← decode arr off
        if poolsize < Word.wrap 64 (off + len) then some none
        else if hdrlen ≠ encodeLength (Word.sub 64 len minBlockSize) then some none
        else if off ∈ freearr ∧ free = false then some none
        else checkBlocks fuel (Word.wrap 64 (off + len)) (freearr.erase off)
    else some (some freearr)

/-- Whether `i` is an entry of the bucket that `faOff` is an entry of. -/
def checkBucket (i : ℕ) : ℕ → ℕ → Option Bool
  | 0, _ => none
  | fuel + 1, faOff =>
    if faOff + 3 < freeArraySize poolsize then
      if faOff = i then some true
      else checkBucket i fuel (faOff + freeArrayOff maxFreeCachedSize)
    else some (decide (faOff = i))

/-- The last loop, over the sizes of the blocks in the free array. -/
def checkSizes : ℕ → ℕ → Option Bool
  | 0, _ => none
  | fuel + 1, i =>
    if i + 3 < freeArraySize poolsize then
      let off := freeEntry arr i
      if off = 0 then checkSizes fuel (i + 3)
      else do
        let ⟨_, len, _⟩ ← decode arr off
        if maxFreeCachedSize ≤ len then some false
        else if ← checkBucket poolsize i (freeArraySize poolsize + 1) (freeArrayOff len) then
          checkSizes fuel (i + 3)
        else some false
    else some true

/-- `tiny_alloc_check`. -/
def tinyAllocCheck : Option Bool :=
  if poolsize < minBlockSize then some true
  else do
    match ← checkGather poolsize arr (freeArraySize poolsize + 1) 0 [] with
    | none => some false
    | some freearr =>
      match ← checkBlocks poolsize arr (poolsize + 1) (freeArraySize poolsize) freearr with
      | none => some false
      | some freearr =>
        if freearr ≠ [] then some false
        else checkSizes poolsize arr (freeArraySize poolsize + 1) 0

end Check

end Shalloc.Tiny
