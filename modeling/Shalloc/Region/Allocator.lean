import Shalloc.Nofree.Exact
import Shalloc.Region.Defs

/-!
# Allocators under the region layer

The table of buffer operations, and what the region layer relies on in them. A buffer
allocator is sound for a representation predicate that ties its state to the list of
blocks it has in use; the no-free allocator is sound in this sense.

## Main definitions

- `AllocState`, `shallocSpaceBuffOps` — the table of `buffer.c`
- `OpsTable` — any table with the modelled allocators in their places
- `liveBlocks` — the blocks of a buffer in use, read off the trace
- `SoundOp` — soundness of the operations of one allocator
- `NofreeRep` — the representation predicate of the no-free allocator
-/

namespace Shalloc

/-- What an allocator keeps at the start of its buffer. The allocators that are not
modelled keep a state of type `ρ`. -/
inductive AllocState (ρ : Type)
  | nofree (header : NofreeHeader)
  | slab (header : SlabHeader)
  | other (a : ρ)

section Table

variable {ρ : Type}

/-- `_nofree_create`. The header is read by no branch of `nofree_init` that succeeds. -/
def nofreeCreate (buff : Buff) (a : AllocState ρ) : Option (ℤ × AllocState ρ) :=
  let (ret, header) := nofreeInit buff.start buff.size ⟨0, 0, 0⟩
  some (ret, if ret < 0 then a else .nofree header)

/-- `_nofree_destroy`. -/
def nofreeDestroy (buff : Buff) (a : AllocState ρ) : Option (AllocState ρ) :=
  match buff, a with
  | _, .nofree header => (nofreeClose header).map .nofree
  | _, _ => none

/-- `_nofree_malloc`. -/
def nofreeOpMalloc (buff : Buff) (size : ℕ) (a : AllocState ρ) :
    Option (Option ℕ × AllocState ρ) :=
  match a with
  | .nofree header => do
    let (p, header) ← nofreeMalloc buff.start buff.size size header
    some (p, .nofree header)
  | _ => none

/-- `_slab_create`, which does not look at what `slab_init` returns. -/
def slabCreate (buff : Buff) (a : AllocState ρ) : Option (ℤ × AllocState ρ) := do
  let raw : SlabHeader :=
    match a with
    | .slab header => header
    | _ => { magicStart := 0, blockSize := 0, numBlocks := 0, bitmap := 0, blocks := 0,
             nextBlock := 0, magicEnd := 0, bits := fun _ => 0 }
  let (ret, header) ← slabInit buff.start buff.size buff.blockSize raw
  some (0, if ret < 0 then a else .slab header)

/-- `_slab_destroy`. -/
def slabDestroy (_buff : Buff) (a : AllocState ρ) : Option (AllocState ρ) :=
  match a with
  | .slab header => (slabClose header).map .slab
  | _ => none

/-- `_slab_malloc`. -/
def slabOpMalloc (_buff : Buff) (size : ℕ) (a : AllocState ρ) :
    Option (Option ℕ × AllocState ρ) :=
  match a with
  | .slab header => do
    let (p, header) ← slabAlloc size header
    some (p, .slab header)
  | _ => none

/-- `_slab_free`. -/
def slabOpFree (_buff : Buff) (ptr : ℕ) (a : AllocState ρ) : Option (AllocState ρ) :=
  match a with
  | .slab header => (slabFree ptr header).map .slab
  | _ => none

/-- The operations of an allocator that is not modelled. -/
def otherOp (op : BuffOp ρ) : BuffOp (AllocState ρ) where
  create buff
    | .other a => do
      let (ret, a) ← op.create buff a
      some (ret, .other a)
    | _ => none
  destroy buff
    | .other a => (op.destroy buff a).map .other
    | _ => none
  malloc buff size
    | .other a => do
      let (p, a) ← op.malloc buff size a
      some (p, .other a)
    | _ => none
  free buff ptr
    | .other a => (op.free buff ptr a).map .other
    | _ => none

/-- `shalloc_space_buff_ops`. The entry for no type holds NULL pointers. -/
def shallocSpaceBuffOps (other : BuffAllocType → BuffOp ρ) : BuffAllocType → BuffOp (AllocState ρ)
  | .none => ⟨fun _ _ => none, fun _ _ => none, fun _ _ _ => none, fun _ _ _ => none⟩
  | .nofree => ⟨nofreeCreate, nofreeDestroy, nofreeOpMalloc, fun _ _ a => some a⟩
  | .slab => ⟨slabCreate, slabDestroy, slabOpMalloc, slabOpFree⟩
  | type => otherOp (other type)

/-- A table of operations with the no-free and the slab allocator in their places. -/
structure OpsTable (ops : BuffAllocType → BuffOp (AllocState ρ)) : Prop where
  nofree : ops .nofree = ⟨nofreeCreate, nofreeDestroy, nofreeOpMalloc, fun _ _ a => some a⟩
  slab : ops .slab = ⟨slabCreate, slabDestroy, slabOpMalloc, slabOpFree⟩

theorem shallocSpaceBuffOps_table (other : BuffAllocType → BuffOp ρ) :
    OpsTable (shallocSpaceBuffOps other) :=
  ⟨rfl, rfl⟩

end Table

/-- The size that a region is asked for. -/
def Event.requested : Event → ℕ
  | .request _ n => n
  | _ => 0

/-- Taking a block out of the blocks in use. -/
def releaseBlock (p : ℕ) (blocks : List Extent) : List Extent :=
  blocks.filter fun e => e.ptr ≠ p

@[simp] theorem mem_releaseBlock {p : ℕ} {blocks : List Extent} {e : Extent} :
    e ∈ releaseBlock p blocks ↔ e ∈ blocks ∧ e.ptr ≠ p := by
  simp [releaseBlock]

/-- A block that is taken back right after it was issued. -/
theorem releaseBlock_issued {a n : ℕ} {blocks : List Extent} (h : ∀ e ∈ blocks, e.ptr ≠ a) :
    releaseBlock a (⟨a, n⟩ :: blocks) = blocks := by
  unfold releaseBlock
  rw [List.filter_cons_of_neg (by simp), List.filter_eq_self.mpr (by simpa using h)]

/-- The others are left when a block is released. -/
theorem release_perm {live live' : List Extent} {e : Extent} (hperm : live.Perm (e :: live'))
    (hapart : live.Pairwise Extent.Disjoint) (hpos : ∀ e ∈ live, 0 < e.len) :
    (releaseBlock e.ptr live).Perm live' := by
  have hhead := (List.pairwise_cons.mp (hperm.pairwise hapart Extent.Disjoint.symm)).1
  refine (hperm.filter _).trans (List.Perm.of_eq ?_)
  rw [List.filter_cons_of_neg (by simp)]
  refine List.filter_eq_self.mpr fun e' he' => ?_
  have hpos' := hpos e' (hperm.mem_iff.mpr (List.mem_cons_of_mem _ he'))
  have hpose := hpos e (hperm.mem_iff.mpr List.mem_cons_self)
  simp only [ne_eq, decide_not, Bool.not_eq_true', decide_eq_false_iff_not]
  intro heq
  rcases hhead e' he' with h | h <;> omega

/-- The blocks of a buffer that its allocator has handed out and not taken back. -/
def liveBlocks (b : ℕ) : List Event → List Extent
  | [] => []
  | event :: trace =>
    match event with
    | .malloc b' n (some p) =>
      if b' = b then ⟨p, n⟩ :: liveBlocks b trace else liveBlocks b trace
    | .free b' p => if b' = b then releaseBlock p (liveBlocks b trace) else liveBlocks b trace
    | .create b' _ => if b' = b then [] else liveBlocks b trace
    | .destroy b' => if b' = b then [] else liveBlocks b trace
    | _ => liveBlocks b trace

section LiveBlocks

variable (b : ℕ) (trace : List Event)

@[simp] theorem liveBlocks_malloc_some (b' n p : ℕ) :
    liveBlocks b (.malloc b' n (some p) :: trace) =
      if b' = b then ⟨p, n⟩ :: liveBlocks b trace else liveBlocks b trace := rfl

@[simp] theorem liveBlocks_malloc_none (b' n : ℕ) :
    liveBlocks b (.malloc b' n none :: trace) = liveBlocks b trace := rfl

@[simp] theorem liveBlocks_free (b' p : ℕ) :
    liveBlocks b (.free b' p :: trace) =
      if b' = b then releaseBlock p (liveBlocks b trace) else liveBlocks b trace := rfl

@[simp] theorem liveBlocks_create (b' : ℕ) (ret : ℤ) :
    liveBlocks b (.create b' ret :: trace) = if b' = b then [] else liveBlocks b trace := rfl

@[simp] theorem liveBlocks_destroy (b' : ℕ) :
    liveBlocks b (.destroy b' :: trace) = if b' = b then [] else liveBlocks b trace := rfl

@[simp] theorem liveBlocks_request (r n : ℕ) :
    liveBlocks b (.request r n :: trace) = liveBlocks b trace := rfl

@[simp] theorem liveBlocks_release (r p : ℕ) :
    liveBlocks b (.release r p :: trace) = liveBlocks b trace := rfl

@[simp] theorem liveBlocks_store (p n : ℕ) :
    liveBlocks b (.store p n :: trace) = liveBlocks b trace := rfl

@[simp] theorem liveBlocks_zero (p n : ℕ) :
    liveBlocks b (.zero p n :: trace) = liveBlocks b trace := rfl

@[simp] theorem liveBlocks_copy (p q n : ℕ) :
    liveBlocks b (.copy p q n :: trace) = liveBlocks b trace := rfl

end LiveBlocks

/-- The operations keep a representation: `rep buff blocks a` says that in state `a`
the blocks of `buff` in use are `blocks`. They are aligned, not empty and lie in the
buffer past its first `head` bytes; a request for less than `limit` bytes that is served
adds a block apart from the others, and a free takes the block out. -/
structure SoundOp {α : Type} (op : BuffOp α) (head limit : ℕ)
    (rep : Buff → List Extent → α → Prop) : Prop where
  issued : ∀ {buff blocks a}, rep buff blocks a → ∀ e ∈ blocks,
    Extent.Within e ⟨buff.start + head, buff.size - head⟩ ∧ 8 ∣ e.ptr ∧ 0 < e.len
  served : ∀ {buff blocks a n p a'}, rep buff blocks a → 0 < n → n < limit →
    op.malloc buff n a = some (some p, a') →
    rep buff (⟨p, n⟩ :: blocks) a' ∧ ∀ e ∈ blocks, Extent.Disjoint ⟨p, n⟩ e
  refused : ∀ {buff blocks a n a'}, rep buff blocks a → 0 < n → n < limit →
    op.malloc buff n a = some (none, a') → rep buff blocks a'
  freed : ∀ {buff blocks a e a'}, rep buff blocks a → e ∈ blocks →
    op.free buff e.ptr a = some a' → rep buff (releaseBlock e.ptr blocks) a'

/-- What is known of the place of the blocks past the first bytes may be left out. -/
theorem SoundOp.headless {α : Type} {op : BuffOp α} {head limit : ℕ}
    {rep : Buff → List Extent → α → Prop} (h : SoundOp op head limit rep) :
    SoundOp op 0 limit rep where
  issued hrep e he := by
    obtain ⟨⟨h1, h2⟩, halign, hpos⟩ := h.issued hrep e he
    simp only at h1 h2
    exact ⟨⟨by simp only; omega, by simp only; omega⟩, halign, hpos⟩
  served := h.served
  refused := h.refused
  freed := h.freed

/-- Only smaller requests may be asked for. -/
theorem SoundOp.below {α : Type} {op : BuffOp α} {head limit limit' : ℕ}
    {rep : Buff → List Extent → α → Prop} (h : SoundOp op head limit rep) (hle : limit' ≤ limit) :
    SoundOp op head limit' rep where
  issued := h.issued
  served hrep hpos hn := h.served hrep hpos (Nat.lt_of_lt_of_le hn hle)
  refused hrep hpos hn := h.refused hrep hpos (Nat.lt_of_lt_of_le hn hle)
  freed := h.freed

/-- A buffer of the no-free allocator, in memory below `2 ^ 48`: the header is in use, and
the blocks lie between the header and the free pointer. -/
structure NofreeRep {ρ : Type} (buff : Buff) (blocks : List Extent) (a : AllocState ρ) : Prop where
  aligned : 8 ∣ buff.start
  small : buff.start + buff.size < 2 ^ 48
  header : ∃ header, a = .nofree header ∧ NofreeOk buff.start buff.size header ∧
    8 ∣ header.next ∧ NofreeIssuedBelow buff.start blocks header
  issued : ∀ e ∈ blocks, 8 ∣ e.ptr ∧ 0 < e.len

section Nofree

variable {ρ : Type} {buff : Buff} {blocks : List Extent} {a a' : AllocState ρ} {n : ℕ}

/-- The chain link of a buffer is of no concern to its allocator. -/
theorem NofreeRep.next (h : NofreeRep buff blocks a) (link : Option ℕ) :
    NofreeRep { buff with next := link } blocks a :=
  ⟨h.aligned, h.small, h.header, h.issued⟩

theorem NofreeRep.release (h : NofreeRep buff blocks a) (p : ℕ) :
    NofreeRep buff (releaseBlock p blocks) a := by
  obtain ⟨header, ha, hok, hnext, hbelow⟩ := h.header
  refine ⟨h.aligned, h.small, ⟨header, ha, hok, hnext, ?_⟩, ?_⟩
  · exact fun e he => hbelow e (mem_releaseBlock.mp he).1
  · exact fun e he => h.issued e (mem_releaseBlock.mp he).1

/-- A buffer that has room for the header is set up with no block in use. -/
theorem nofreeCreate_rep (halign : 8 ∣ buff.start) (hsmall : buff.start + buff.size < 2 ^ 48)
    (hsize : sizeofNofreeHeader < buff.size) :
    ∃ header, nofreeCreate buff a = some (0, .nofree header) ∧
      header.next = buff.start + sizeofNofreeHeader ∧
      NofreeRep buff [] (AllocState.nofree header : AllocState ρ) := by
  obtain ⟨header, hinit⟩ : ∃ header, nofreeInit buff.start buff.size ⟨0, 0, 0⟩ = (0, header) := by
    rw [nofreeInit, if_neg (by omega)]
    exact ⟨_, rfl⟩
  obtain ⟨hok, hnext⟩ := nofreeInit_ok (by omega) hinit
  refine ⟨header, ?_, hnext, halign, hsmall, ⟨header, rfl, hok, ?_, by simp [NofreeIssuedBelow]⟩,
    by simp⟩
  · simp [nofreeCreate, hinit]
  · rw [hnext]
    exact Nat.dvd_add halign (by decide)

/-- One request to a buffer in use: served at the free pointer if it fits, and refused
with the state unchanged otherwise. -/
theorem NofreeRep.malloc (h : NofreeRep buff blocks a) (hpos : 0 < n) (hlimit : n < 2 ^ 62) :
    ∃ header, a = .nofree header ∧
      ((header.next + nofreeRound n ≤ buff.start + buff.size ∧
          nofreeOpMalloc buff n a = some (some header.next,
            .nofree { header with next := header.next + nofreeRound n })) ∨
        (buff.start + buff.size < header.next + nofreeRound n ∧
          nofreeOpMalloc buff n a = some (none, a))) := by
  obtain ⟨header, rfl, hok, -, -⟩ := h.header
  have hsmall := h.small
  have hupper := hok.upper
  have hround := nofreeRound_lt n
  have hcall := nofreeMalloc_of_noWrap hok (by omega) hpos (by omega)
    (by unfold NofreeNoWrap; omega)
  refine ⟨header, rfl, ?_⟩
  by_cases hfit : header.next + nofreeRound n ≤ buff.start + buff.size
  · rw [if_pos hfit] at hcall
    exact Or.inl ⟨hfit, by simp [nofreeOpMalloc, hcall]⟩
  · rw [if_neg hfit] at hcall
    exact Or.inr ⟨by omega, by simp [nofreeOpMalloc, hcall]⟩

/-- The block at the free pointer joins the blocks in use, which all end before it. -/
theorem NofreeRep.issue {header : NofreeHeader}
    (h : NofreeRep buff blocks (AllocState.nofree header : AllocState ρ)) (hpos : 0 < n)
    (hfit : header.next + nofreeRound n ≤ buff.start + buff.size) :
    NofreeRep buff (⟨header.next, n⟩ :: blocks)
        (AllocState.nofree { header with next := header.next + nofreeRound n } : AllocState ρ) ∧
      ∀ e ∈ blocks, Extent.Disjoint ⟨header.next, n⟩ e := by
  obtain ⟨header', heq, hok, hnext, hbelow⟩ := h.header
  obtain rfl := AllocState.nofree.inj heq
  have hle := le_nofreeRound n
  have hlower := hok.lower
  refine ⟨⟨h.aligned, h.small, ⟨_, rfl, ⟨hok.magicStart, hok.magicEnd, ?_, hfit⟩, ?_, ?_⟩, ?_⟩, ?_⟩
  · exact Nat.le_trans hlower (Nat.le_add_right _ _)
  · exact Nat.dvd_add hnext (eight_dvd_nofreeRound n)
  · intro e he
    cases List.mem_cons.mp he with
    | inl heq => subst heq; exact ⟨hlower, Nat.add_le_add_left hle _⟩
    | inr he =>
      obtain ⟨h1, h2⟩ := hbelow e he
      exact ⟨h1, Nat.le_trans h2 (Nat.le_add_right _ _)⟩
  · intro e he
    cases List.mem_cons.mp he with
    | inl heq => subst heq; exact ⟨hnext, hpos⟩
    | inr he => exact h.issued e he
  · exact fun e he => Or.inr (hbelow e he).2

/-- The no-free allocator is sound: it keeps its header below the blocks, and its free
does nothing. -/
theorem nofree_soundOp (other : BuffAllocType → BuffOp ρ) :
    SoundOp (shallocSpaceBuffOps other .nofree) sizeofNofreeHeader (2 ^ 62)
      (NofreeRep (ρ := ρ)) where
  issued h e he := by
    obtain ⟨header, -, hok, -, hbelow⟩ := h.header
    obtain ⟨h1, h2⟩ := hbelow e he
    have hupper := hok.upper
    exact ⟨⟨h1, by simp only; omega⟩, h.issued e he⟩
  served := by
    intro buff blocks a n p a' h hpos hlimit hcall
    obtain ⟨header, rfl, ⟨hfit, hmalloc⟩ | ⟨-, hmalloc⟩⟩ := h.malloc hpos hlimit
    · obtain ⟨hp, rfl⟩ := Prod.mk.inj (Option.some.inj (hcall.symm.trans hmalloc))
      obtain rfl := Option.some.inj hp
      exact h.issue hpos hfit
    · exact absurd (hcall.symm.trans hmalloc) (by simp)
  refused := by
    intro buff blocks a n a' h hpos hlimit hcall
    obtain ⟨header, rfl, ⟨-, hmalloc⟩ | ⟨-, hmalloc⟩⟩ := h.malloc hpos hlimit
    · exact absurd (hcall.symm.trans hmalloc) (by simp)
    · obtain ⟨-, rfl⟩ := Prod.mk.inj (Option.some.inj (hcall.symm.trans hmalloc))
      exact h
  freed h _ hfree := by
    obtain rfl := Option.some.inj hfree
    exact h.release _

end Nofree

end Shalloc
