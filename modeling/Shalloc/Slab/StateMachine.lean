import Mathlib.Data.Finset.Card
import Mathlib.Data.Finset.Image
import Shalloc.Slab.Layout

/-!
# The slab allocator as a state machine

The abstract slab is the set of blocks that are taken. `SlabRep` ties the bytes of the
bitmap and the cursor to the set of live addresses; `slab_init` establishes it, and
`slab_alloc` and `slab_free` of a live pointer keep it while adding or removing one
address. The contract of a slab below 4 GiB is read off it.

## Main definitions

- `SlabRep` — the bitmap holds exactly the live addresses
- `SlabLiveRun` — the live addresses and the header that a sequence of calls leads to
- `SlabContract` — what `slab_alloc` and `slab_free` do in a state
-/

namespace Shalloc

/-- The search from `nextBlock` on, counting from `i`, stops at the first free block of
the rest of the round, and fails when there is none. -/
theorem slabFindFreeBlockLoop_eq {header : SlabHeader} (hnb : header.numBlocks < 2 ^ 32)
    (fuel : ℕ) : ∀ i nextBlock, i ≤ header.numBlocks → header.numBlocks < i + fuel →
    nextBlock < header.numBlocks →
    (∃ k, i + k < header.numBlocks ∧ header.bits ((nextBlock + k) % header.numBlocks) = 0 ∧
      slabFindFreeBlockLoop header fuel i nextBlock =
        some ((nextBlock + k) % header.numBlocks)) ∨
    ((∀ k, i + k < header.numBlocks →
        header.bits ((nextBlock + k) % header.numBlocks) ≠ 0) ∧
      slabFindFreeBlockLoop header fuel i nextBlock = some uintMax) := by
  induction fuel with
  | zero => intro i nextBlock hi hfuel _; omega
  | succ fuel ih =>
    intro i nextBlock hi hfuel hnext
    have hself : nextBlock % header.numBlocks = nextBlock := Nat.mod_eq_of_lt hnext
    by_cases hlt : i < header.numBlocks
    · by_cases hfree : header.bits nextBlock = 0
      · refine Or.inl ⟨0, hlt, by simpa [hself] using hfree, ?_⟩
        simp [slabFindFreeBlockLoop, hlt, hfree, hself]
      · have hi1 : Word.wrap 32 (i + 1) = i + 1 := Word.wrap_of_lt (by omega)
        have hn1 : Word.wrap 32 (nextBlock + 1) = nextBlock + 1 := Word.wrap_of_lt (by omega)
        have hstep : slabFindFreeBlockLoop header (fuel + 1) i nextBlock =
            slabFindFreeBlockLoop header fuel (i + 1) ((nextBlock + 1) % header.numBlocks) := by
          simp [slabFindFreeBlockLoop, hlt, hfree, hi1, hn1]
        have hshift : ∀ k, ((nextBlock + 1) % header.numBlocks + k) % header.numBlocks =
            (nextBlock + (k + 1)) % header.numBlocks := by
          intro k; rw [Nat.mod_add_mod]; congr 1; omega
        rw [hstep]
        rcases ih (i + 1) _ hlt (by omega) (Nat.mod_lt _ (by omega)) with
          ⟨k, hk, hbit, hres⟩ | ⟨hall, hres⟩
        · exact Or.inl ⟨k + 1, by omega, by rwa [← hshift], by rw [hres, hshift]⟩
        · refine Or.inr ⟨fun k hk => ?_, hres⟩
          cases k with
          | zero => simpa [hself] using hfree
          | succ k => rw [← hshift]; exact hall k (by omega)
    · refine Or.inr ⟨fun k hk => by omega, ?_⟩
      simp [slabFindFreeBlockLoop, hlt]

/-- The round of the search visits every block. -/
theorem exists_round_step {n next b : ℕ} (hnext : next < n) (hb : b < n) :
    ∃ k < n, (next + k) % n = b := by
  by_cases h : next ≤ b
  · exact ⟨b - next, by omega, by rw [Nat.add_sub_cancel' h, Nat.mod_eq_of_lt hb]⟩
  · refine ⟨b + n - next, by omega, ?_⟩
    have hsum : next + (b + n - next) = b + n := by omega
    rw [hsum, Nat.add_mod_right, Nat.mod_eq_of_lt hb]

/-- The search finds a free block, or every block is taken. -/
theorem slabFindFreeBlock_eq {header : SlabHeader} (hnb : header.numBlocks < 2 ^ 32)
    (hcursor : header.nextBlock < header.numBlocks) :
    (∃ b < header.numBlocks, header.bits b = 0 ∧ slabFindFreeBlock header = some b) ∨
    ((∀ b < header.numBlocks, header.bits b ≠ 0) ∧
      slabFindFreeBlock header = some uintMax) := by
  have hpos : 0 < header.numBlocks := by omega
  rcases slabFindFreeBlockLoop_eq hnb (header.numBlocks + 1) 0 header.nextBlock (Nat.zero_le _)
    (by omega) hcursor with ⟨k, -, hbit, hres⟩ | ⟨hall, hres⟩
  · exact Or.inl ⟨_, Nat.mod_lt _ hpos, hbit, hres⟩
  · refine Or.inr ⟨fun b hb => ?_, hres⟩
    obtain ⟨k, hk, rfl⟩ := exists_round_step hcursor hb
    exact hall k (by omega)

/-- The search of a slab ends: its counter, an `unsigned`, can reach the number of blocks, or
there is a free block among those that its cursor visits. -/
def SlabSearchEnds (header : SlabHeader) : Prop :=
  header.numBlocks < 2 ^ 32 ∨ ∃ b < 2 ^ 32, header.bits b = 0

/-- With `2 ^ 32` blocks or more the counter never reaches their number. The search goes round
the first `2 ^ 32` of them. -/
theorem slabFindFreeBlockLoop_large {header : SlabHeader} (hnb : 2 ^ 32 ≤ header.numBlocks)
    (fuel : ℕ) : ∀ i nextBlock, i < 2 ^ 32 → nextBlock < 2 ^ 32 →
    ((∃ b, slabFindFreeBlockLoop header fuel i nextBlock = some b) ↔
      ∃ k < fuel, header.bits ((nextBlock + k) % 2 ^ 32) = 0) := by
  induction fuel with
  | zero => intro i nextBlock _ _; simp [slabFindFreeBlockLoop]
  | succ fuel ih =>
    intro i nextBlock hi hnext
    have hlt : i < header.numBlocks := lt_of_lt_of_le hi hnb
    have hself : nextBlock % 2 ^ 32 = nextBlock := Nat.mod_eq_of_lt hnext
    by_cases hfree : header.bits nextBlock = 0
    · refine ⟨fun _ => ⟨0, Nat.succ_pos _, ?_⟩, fun _ => ⟨nextBlock, ?_⟩⟩
      · rw [Nat.add_zero, hself]
        exact hfree
      · simp [slabFindFreeBlockLoop, hlt, hfree]
    · have hn1 : Word.wrap 32 (nextBlock + 1) % header.numBlocks = (nextBlock + 1) % 2 ^ 32 :=
        Nat.mod_eq_of_lt (lt_of_lt_of_le (Word.wrap_lt 32 _) hnb)
      have hstep : slabFindFreeBlockLoop header (fuel + 1) i nextBlock =
          slabFindFreeBlockLoop header fuel (Word.wrap 32 (i + 1)) ((nextBlock + 1) % 2 ^ 32) := by
        simp only [slabFindFreeBlockLoop, hlt, hfree, if_true, if_false, hn1]
      have hshift : ∀ k, ((nextBlock + 1) % 2 ^ 32 + k) % 2 ^ 32 =
          (nextBlock + (k + 1)) % 2 ^ 32 := by
        intro k; rw [Nat.mod_add_mod]; congr 1; omega
      rw [hstep, ih _ _ (Word.wrap_lt 32 _) (Nat.mod_lt _ (Nat.two_pow_pos 32))]
      simp only [hshift]
      constructor
      · rintro ⟨k, hk, hbit⟩
        exact ⟨k + 1, Nat.succ_lt_succ hk, hbit⟩
      · rintro ⟨k, hk, hbit⟩
        cases k with
        | zero =>
          rw [Nat.add_zero, hself] at hbit
          exact absurd hbit hfree
        | succ k => exact ⟨k, Nat.lt_of_succ_lt_succ hk, hbit⟩

/-- When the search of a slab in use ends. -/
theorem slabFindFreeBlock_ends_iff {header : SlabHeader}
    (hcursor : header.nextBlock < header.numBlocks) (hunsigned : header.nextBlock < 2 ^ 32) :
    (∃ b, slabFindFreeBlock header = some b) ↔ SlabSearchEnds header := by
  by_cases hnb : header.numBlocks < 2 ^ 32
  · refine ⟨fun _ => Or.inl hnb, fun _ => ?_⟩
    rcases slabFindFreeBlock_eq hnb hcursor with ⟨b, -, -, hfind⟩ | ⟨-, hfind⟩
    · exact ⟨b, hfind⟩
    · exact ⟨uintMax, hfind⟩
  · have hlarge : 2 ^ 32 ≤ header.numBlocks := Nat.le_of_not_lt hnb
    rw [slabFindFreeBlock,
      slabFindFreeBlockLoop_large hlarge _ _ _ (Nat.two_pow_pos 32) hunsigned]
    constructor
    · rintro ⟨k, -, hbit⟩
      exact Or.inr ⟨_, Nat.mod_lt _ (Nat.two_pow_pos 32), hbit⟩
    · rintro (hlt | ⟨b, hb, hbit⟩)
      · exact absurd hlt hnb
      · obtain ⟨k, hk, rfl⟩ := exists_round_step hunsigned hb
        exact ⟨k, by omega, hbit⟩

/-- `slab_alloc` returns iff it is asked for the block size of the header and its search
ends. -/
theorem slabAlloc_returns_iff {buff buffSize blockSize size : ℕ} {header : SlabHeader}
    (hok : SlabOk buff buffSize blockSize header) :
    (∃ ptr header', slabAlloc size header = some (ptr, header')) ↔
      size = header.blockSize ∧ SlabSearchEnds header := by
  rw [← slabFindFreeBlock_ends_iff hok.cursor hok.cursor_unsigned, slabAlloc]
  by_cases hsize : size = header.blockSize
  · rw [if_neg (not_not.mpr hsize)]
    cases hfind : slabFindFreeBlock header with
    | none => simp
    | some b =>
      refine ⟨fun _ => ⟨hsize, b, rfl⟩, fun _ => ?_⟩
      simp only [Option.bind_eq_bind, Option.bind_some]
      split
      · exact ⟨_, _, rfl⟩
      · exact ⟨_, _, rfl⟩
  · rw [if_pos hsize]
    simp [hsize]

/-- The address of a block, as a number. -/
def SlabHeader.address (header : SlabHeader) (b : ℕ) : ℕ := header.blocks + b * header.blockSize

/-- The blocks that the bitmap marks as taken. -/
def SlabHeader.taken (header : SlabHeader) : Finset ℕ :=
  (Finset.range header.numBlocks).filter fun b => header.bits b = 1

/-- A slab in use below 4 GiB whose bitmap holds exactly the live addresses. -/
structure SlabRep (buff buffSize blockSize : ℕ) (live : Finset ℕ) (header : SlabHeader) :
    Prop where
  ok : SlabOk buff buffSize blockSize header
  small : header.numBlocks * (header.blockSize + 1) < 2 ^ 32
  clean : ∀ b < header.numBlocks, header.bits b = 0 ∨ header.bits b = 1
  live_eq : live = header.taken.image header.address

section Rep

variable {buff buffSize blockSize : ℕ} {live : Finset ℕ} {header : SlabHeader}

theorem SlabHeader.mem_taken {b : ℕ} :
    b ∈ header.taken ↔ b < header.numBlocks ∧ header.bits b = 1 := by
  simp [SlabHeader.taken]

theorem SlabRep.mem_live (h : SlabRep buff buffSize blockSize live header) {p : ℕ} :
    p ∈ live ↔ ∃ b < header.numBlocks, header.bits b = 1 ∧ p = header.address b := by
  rw [h.live_eq, Finset.mem_image]
  constructor
  · rintro ⟨b, hb, rfl⟩
    obtain ⟨hb, hbit⟩ := SlabHeader.mem_taken.mp hb
    exact ⟨b, hb, hbit, rfl⟩
  · rintro ⟨b, hb, hbit, rfl⟩
    exact ⟨b, SlabHeader.mem_taken.mpr ⟨hb, hbit⟩, rfl⟩

theorem SlabRep.numBlocks_lt (h : SlabRep buff buffSize blockSize live header) :
    header.numBlocks < uintMax := by
  have hsmall := h.small
  have hpos := h.ok.blockSize_pos
  have hmul : header.numBlocks * 2 ≤ header.numBlocks * (header.blockSize + 1) :=
    Nat.mul_le_mul_left _ (by omega)
  unfold uintMax
  omega

/-- Offsets of blocks, the end of the last one included, fit an `unsigned`. -/
theorem SlabRep.offset_lt (h : SlabRep buff buffSize blockSize live header) {b : ℕ}
    (hb : b ≤ header.numBlocks) : b * header.blockSize < 2 ^ 32 :=
  lt_of_le_of_lt (Nat.mul_le_mul hb (Nat.le_succ _)) h.small

theorem SlabRep.blockToAddress (h : SlabRep buff buffSize blockSize live header) {b : ℕ}
    (hb : b < header.numBlocks) : slabBlockToAddress header b = header.address b := by
  have hoff := h.offset_lt (Nat.le_of_lt hb)
  rw [slabBlockToAddress, Word.wrap_of_lt (lt_trans hoff (by decide)), SlabHeader.address]

theorem SlabRep.address_injective (h : SlabRep buff buffSize blockSize live header) :
    Function.Injective header.address := by
  intro b c hbc
  exact Nat.eq_of_mul_eq_mul_right h.ok.blockSize_pos (Nat.add_left_cancel hbc)

/-- Conversion to an index inverts the address of a block. -/
theorem SlabRep.addressToBlock_address (h : SlabRep buff buffSize blockSize live header) {b : ℕ}
    (hb : b < header.numBlocks) : slabAddressToBlock header (header.address b) = b := by
  have hpos := h.ok.blockSize_pos
  have hoff := h.offset_lt (Nat.le_of_lt hb)
  have hsub : header.address b - header.blocks = b * header.blockSize := by
    simp [SlabHeader.address]
  have hge : ¬ header.address b < header.blocks := by simp [SlabHeader.address]
  simp [slabAddressToBlock, hge, hsub, Word.wrap_of_lt hoff, Nat.mul_div_cancel _ hpos,
    Nat.not_le.mpr hb]

/-- Conversion of an address in the 4 GiB from the buffer on gives an index only for the
address of that block. -/
theorem SlabRep.addressToBlock_eq (h : SlabRep buff buffSize blockSize live header) {ptr : ℕ}
    (hptr : ptr < buff + 2 ^ 32) (hne : slabAddressToBlock header ptr ≠ uintMax) :
    slabAddressToBlock header ptr < header.numBlocks ∧
      ptr = header.address (slabAddressToBlock header ptr) := by
  have hblocks : buff ≤ header.blocks := by
    have := le_slabAlignBlocks (buff + sizeofSlabHeader + slabNumBlocks buffSize blockSize)
    rw [h.ok.blocks_eq, slabBlocksStart]
    omega
  have hwrap : ∀ _ : ¬ ptr < header.blocks,
      Word.wrap 32 (ptr - header.blocks) = ptr - header.blocks :=
    fun hge => Word.wrap_of_lt (by omega)
  unfold slabAddressToBlock at hne ⊢
  by_cases hlt : ptr < header.blocks
  · simp [hlt] at hne
  · simp only [hlt, if_false, hwrap hlt] at hne ⊢
    by_cases hmod : (ptr - header.blocks) % header.blockSize > 0
    · simp [hmod] at hne
    · simp only [hmod, if_false] at hne ⊢
      by_cases hge : (ptr - header.blocks) / header.blockSize ≥ header.numBlocks
      · simp [hge] at hne
      · simp only [hge, if_false]
        have hdvd : (ptr - header.blocks) / header.blockSize * header.blockSize =
            ptr - header.blocks := Nat.div_mul_cancel (Nat.dvd_of_mod_eq_zero (by omega))
        refine ⟨Nat.lt_of_not_le hge, ?_⟩
        rw [SlabHeader.address, hdvd]
        omega

/-- `slab_init` starts a slab below 4 GiB with no block live. -/
theorem slabInit_rep {raw : SlabHeader} (hsize : buffSize < 2 ^ 32)
    (h : slabInit buff buffSize blockSize raw = some (0, header)) :
    SlabRep buff buffSize blockSize ∅ header := by
  obtain ⟨hok, hbits, -, htest⟩ := slabInit_ok h
  have hdvd := eight_dvd_slabRoundBlockSize blockSize
  have hmul := slabNumBlocks_mul_le buffSize blockSize
  have hlong : sizeofLong < buffSize := by
    unfold Word.wrap sizeofSlabHeader sizeofLong at htest
    unfold sizeofLong
    omega
  rw [Word.sub_of_le (Nat.le_of_lt hlong) (lt_trans hsize (by decide)), ← hok.numBlocks_eq,
    ← hok.blockSize_eq] at hmul
  refine ⟨hok, by omega, fun b hb => Or.inl (hbits b hb), ?_⟩
  have htaken : header.taken = ∅ := by
    refine Finset.filter_eq_empty_iff.mpr fun b hb => ?_
    rw [hbits b (Finset.mem_range.mp hb)]
    decide
  rw [htaken, Finset.image_empty]

/-- `slab_alloc` either takes a free block, whose address becomes live, or finds every
block taken. -/
theorem SlabRep.alloc (h : SlabRep buff buffSize blockSize live header) :
    (∃ b < header.numBlocks, header.bits b = 0 ∧
      slabAlloc header.blockSize header = some (some (header.address b),
        { header with
          bits := Function.update header.bits b 1
          nextBlock := (b + 1) % header.numBlocks })) ∨
    ((∀ b < header.numBlocks, header.bits b = 1) ∧
      slabAlloc header.blockSize header = some (none, header)) := by
  have hnb := h.numBlocks_lt
  rcases slabFindFreeBlock_eq (by unfold uintMax at hnb; omega) h.ok.cursor with
    ⟨b, hb, hbit, hfind⟩ | ⟨hall, hfind⟩
  · have hne : b ≠ uintMax := by omega
    have hsucc : Word.wrap 32 (b + 1) = b + 1 :=
      Word.wrap_of_lt (by unfold uintMax at hnb; omega)
    refine Or.inl ⟨b, hb, hbit, ?_⟩
    simp [slabAlloc, hfind, hne, hsucc, h.blockToAddress hb]
  · refine Or.inr ⟨fun b hb => (h.clean b hb).resolve_left (hall b hb), ?_⟩
    simp [slabAlloc, hfind]

/-- Setting one byte of the bitmap keeps the representation, for the live set changed
accordingly. -/
theorem SlabRep.update (h : SlabRep buff buffSize blockSize live header) {b v cursor : ℕ}
    {live' : Finset ℕ} (hv : v = 0 ∨ v = 1) (hcursor : cursor < header.numBlocks)
    (hlive : ∀ p, p ∈ live' ↔
      ∃ c < header.numBlocks, Function.update header.bits b v c = 1 ∧ p = header.address c) :
    SlabRep buff buffSize blockSize live'
      { header with bits := Function.update header.bits b v, nextBlock := cursor } := by
  have hnb := h.numBlocks_lt
  refine ⟨⟨h.ok.blockSize_eq, h.ok.numBlocks_eq, h.ok.blocks_eq, h.ok.blockSize_pos,
    h.ok.numBlocks_pos, hcursor, by unfold uintMax at hnb; simp only; omega⟩, h.small, ?_, ?_⟩
  · intro c hc
    by_cases hcb : c = b
    · subst hcb; simpa using hv
    · simpa [Function.update_of_ne hcb] using h.clean c hc
  · ext p
    rw [hlive p, Finset.mem_image]
    constructor
    · rintro ⟨c, hc, hbit, rfl⟩
      exact ⟨c, SlabHeader.mem_taken.mpr ⟨hc, hbit⟩, rfl⟩
    · rintro ⟨c, hc, rfl⟩
      obtain ⟨hc, hbit⟩ := SlabHeader.mem_taken.mp hc
      exact ⟨c, hc, hbit, rfl⟩

/-- An allocation keeps the representation: the returned address becomes live. -/
theorem SlabRep.alloc_rep (h : SlabRep buff buffSize blockSize live header) {ptr : Option ℕ}
    {header' : SlabHeader} (halloc : slabAlloc header.blockSize header = some (ptr, header')) :
    SlabRep buff buffSize blockSize (ptr.elim live (insert · live)) header' := by
  rcases h.alloc with ⟨b, hb, -, hres⟩ | ⟨-, hres⟩
  · obtain ⟨rfl, rfl⟩ := Prod.mk.inj (Option.some.inj (halloc.symm.trans hres))
    refine h.update (Or.inr rfl) (Nat.mod_lt _ h.ok.numBlocks_pos) fun p => ?_
    simp only [Option.elim, Finset.mem_insert, h.mem_live]
    constructor
    · rintro (rfl | ⟨c, hc, hbit, rfl⟩)
      · exact ⟨b, hb, by simp, rfl⟩
      · refine ⟨c, hc, ?_, rfl⟩
        by_cases hcb : c = b
        · simp [hcb]
        · rwa [Function.update_of_ne hcb]
    · rintro ⟨c, hc, hbit, rfl⟩
      by_cases hcb : c = b
      · exact Or.inl (by rw [hcb])
      · rw [Function.update_of_ne hcb] at hbit
        exact Or.inr ⟨c, hc, hbit, rfl⟩
  · obtain ⟨rfl, rfl⟩ := Prod.mk.inj (Option.some.inj (halloc.symm.trans hres))
    exact h

/-- Freeing a live pointer clears the byte of its block. -/
theorem SlabRep.free (h : SlabRep buff buffSize blockSize live header) {p : ℕ} (hp : p ∈ live) :
    ∃ b < header.numBlocks, p = header.address b ∧
      slabFree p header = some { header with bits := Function.update header.bits b 0 } := by
  obtain ⟨b, hb, hbit, rfl⟩ := h.mem_live.mp hp
  have hnb := h.numBlocks_lt
  have hne : b ≠ uintMax := by omega
  refine ⟨b, hb, rfl, ?_⟩
  simp [slabFree, h.addressToBlock_address hb, hne, hbit]

/-- Freeing a live pointer keeps the representation: the pointer is no longer live. -/
theorem SlabRep.free_rep (h : SlabRep buff buffSize blockSize live header) {p : ℕ}
    {header' : SlabHeader} (hp : p ∈ live) (hfree : slabFree p header = some header') :
    SlabRep buff buffSize blockSize (live.erase p) header' := by
  obtain ⟨b, hb, rfl, hres⟩ := h.free hp
  obtain rfl := Option.some.inj (hfree.symm.trans hres)
  refine h.update (Or.inl rfl) h.ok.cursor fun p => ?_
  rw [Finset.mem_erase, h.mem_live]
  constructor
  · rintro ⟨hne, c, hc, hbit, rfl⟩
    refine ⟨c, hc, ?_, rfl⟩
    rwa [Function.update_of_ne (fun hcb => hne (by rw [hcb]))]
  · rintro ⟨c, hc, hbit, rfl⟩
    have hcb : c ≠ b := by
      rintro rfl
      simp at hbit
    rw [Function.update_of_ne hcb] at hbit
    exact ⟨fun heq => hcb (h.address_injective heq), c, hc, hbit, rfl⟩

end Rep

/-- The live addresses and the header that `slab_init` returning 0, and any
`slab_alloc(header->block_size)` and `slab_free` of live pointers after it, lead to. -/
inductive SlabLiveRun (buff buffSize blockSize : ℕ) : Finset ℕ → SlabHeader → Prop
  | init {raw header : SlabHeader} : slabInit buff buffSize blockSize raw = some (0, header) →
      SlabLiveRun buff buffSize blockSize ∅ header
  | alloc {live : Finset ℕ} {header header' : SlabHeader} {ptr : Option ℕ} :
      SlabLiveRun buff buffSize blockSize live header →
      slabAlloc header.blockSize header = some (ptr, header') →
      SlabLiveRun buff buffSize blockSize (ptr.elim live (insert · live)) header'
  | free {live : Finset ℕ} {header header' : SlabHeader} {p : ℕ} :
      SlabLiveRun buff buffSize blockSize live header → p ∈ live →
      slabFree p header = some header' →
      SlabLiveRun buff buffSize blockSize (live.erase p) header'

/-- What the two calls of the slab do in a state with the given live addresses. -/
structure SlabContract (buff : ℕ) (live : Finset ℕ) (header : SlabHeader) : Prop where
  /-- Allocation returns, with NULL exactly when all blocks are live, and otherwise with
  the address of a block that is not. -/
  alloc : ∃ ptr header', slabAlloc header.blockSize header = some (ptr, header') ∧
    (ptr = none ↔ live.card = header.numBlocks) ∧
    ∀ p, ptr = some p → p ∉ live ∧ ∃ b < header.numBlocks, p = slabBlockToAddress header b
  aligned : ∀ p ∈ live, 8 ∣ p
  apart : ∀ p ∈ live, ∀ q ∈ live, p ≠ q →
    p + header.blockSize ≤ q ∨ q + header.blockSize ≤ p
  /-- Freeing a live address clears the byte of its block and no other. -/
  free_live : ∀ p ∈ live, ∃ header', slabFree p header = some header' ∧
    ∀ b < header.numBlocks,
      header'.bits b = if slabBlockToAddress header b = p then 0 else header.bits b
  /-- Both asserts of `slab_free` pass on the live addresses only. -/
  free_iff : ∀ ptr, buff ≤ ptr → ptr < buff + 2 ^ 32 →
    ((slabFree ptr header).isSome ↔ ptr ∈ live)

section Contract

variable {buff buffSize blockSize : ℕ} {live : Finset ℕ} {header : SlabHeader}

theorem SlabRep.card_eq_iff (h : SlabRep buff buffSize blockSize live header) :
    live.card = header.numBlocks ↔ ∀ b < header.numBlocks, header.bits b = 1 := by
  have hcard : live.card = header.taken.card := by
    rw [h.live_eq]; exact Finset.card_image_of_injective _ h.address_injective
  have hsub : header.taken ⊆ Finset.range header.numBlocks := Finset.filter_subset _ _
  rw [hcard]
  constructor
  · intro heq b hb
    have hall : header.taken = Finset.range header.numBlocks :=
      Finset.eq_of_subset_of_card_le hsub (by rw [heq, Finset.card_range])
    exact (SlabHeader.mem_taken.mp (hall ▸ Finset.mem_range.mpr hb)).2
  · intro hall
    rw [SlabHeader.taken, Finset.filter_true_of_mem fun b hb => hall b (Finset.mem_range.mp hb),
      Finset.card_range]

/-- Addresses of distinct blocks are at least a block apart. -/
theorem SlabHeader.address_apart {b c : ℕ} (hne : b ≠ c) :
    header.address b + header.blockSize ≤ header.address c ∨
      header.address c + header.blockSize ≤ header.address b := by
  have hmul : ∀ {i j : ℕ}, i < j → i * header.blockSize + header.blockSize ≤
    j * header.blockSize := by
    intro i j hij
    calc i * header.blockSize + header.blockSize = (i + 1) * header.blockSize := by
          rw [Nat.add_mul, Nat.one_mul]
      _ ≤ j * header.blockSize := Nat.mul_le_mul_right _ hij
  unfold SlabHeader.address
  rcases Nat.lt_or_gt_of_ne hne with hlt | hlt
  · have := hmul hlt; omega
  · have := hmul hlt; omega

theorem SlabRep.eight_dvd_address (h : SlabRep buff buffSize blockSize live header) (b : ℕ) :
    8 ∣ header.address b := by
  unfold SlabHeader.address
  refine Nat.dvd_add ?_ (Dvd.dvd.mul_left ?_ b)
  · rw [h.ok.blocks_eq]; exact eight_dvd_slabAlignBlocks _
  · rw [h.ok.blockSize_eq]; exact eight_dvd_slabRoundBlockSize _

/-- A slab whose bitmap holds exactly the live addresses meets the contract. -/
theorem SlabRep.contract (h : SlabRep buff buffSize blockSize live header) :
    SlabContract buff live header where
  alloc := by
    -- a clear bit is found iff fewer addresses are live than there are blocks
    rcases h.alloc with ⟨b, hb, hbit, hres⟩ | ⟨hall, hres⟩
    · refine ⟨_, _, hres, ?_, ?_⟩
      · rw [h.card_eq_iff]
        refine ⟨fun hnone => absurd hnone (by simp), fun hall => ?_⟩
        rw [hall b hb] at hbit
        exact absurd hbit (by decide)
      · rintro p hp
        obtain rfl := Option.some.inj hp
        refine ⟨fun hlive => ?_, b, hb, (h.blockToAddress hb).symm⟩
        obtain ⟨c, -, hc, heq⟩ := h.mem_live.mp hlive
        rw [← h.address_injective heq, hbit] at hc
        exact absurd hc (by decide)
    · exact ⟨_, _, hres, by rw [h.card_eq_iff]; exact ⟨fun _ => hall, fun _ => rfl⟩, by simp⟩
  aligned := by
    intro p hp
    obtain ⟨b, -, -, rfl⟩ := h.mem_live.mp hp
    exact h.eight_dvd_address b
  apart := by
    intro p hp q hq hne
    obtain ⟨b, -, -, rfl⟩ := h.mem_live.mp hp
    obtain ⟨c, -, -, rfl⟩ := h.mem_live.mp hq
    exact SlabHeader.address_apart fun hbc => hne (by rw [hbc])
  free_live := by
    intro p hp
    obtain ⟨b, hb, rfl, hres⟩ := h.free hp
    refine ⟨_, hres, fun c hc => ?_⟩
    rw [h.blockToAddress hc]
    by_cases hcb : c = b
    · simp [hcb]
    · have hne : header.address c ≠ header.address b := fun heq => hcb (h.address_injective heq)
      simp [Function.update_of_ne hcb, hne]
  free_iff := by
    intro ptr _ hptr
    constructor
    · intro hsome
      unfold slabFree at hsome
      by_cases hpass : slabAddressToBlock header ptr ≠ uintMax ∧
          header.bits (slabAddressToBlock header ptr) = 1
      · obtain ⟨hlt, heq⟩ := h.addressToBlock_eq hptr hpass.1
        exact h.mem_live.mpr ⟨_, hlt, hpass.2, heq⟩
      · simp [if_neg hpass] at hsome
    · intro hlive
      obtain ⟨b, -, -, hres⟩ := h.free hlive
      simp [hres]

/-- The representation holds throughout every run of a slab below 4 GiB. -/
theorem slabLiveRun_rep (hsize : buffSize < 2 ^ 32)
    (run : SlabLiveRun buff buffSize blockSize live header) :
    SlabRep buff buffSize blockSize live header := by
  induction run with
  | init h => exact slabInit_rep hsize h
  | alloc _ h ih => exact ih.alloc_rep h
  | free _ hp h ih => exact ih.free_rep hp h

/-- **The slab state machine.** In every state of every run of a slab below 4 GiB, the
calls of the slab meet their contract. -/
theorem slab_contract_of_run (hsize : buffSize < 2 ^ 32)
    (run : SlabLiveRun buff buffSize blockSize live header) :
    SlabContract buff live header :=
  (slabLiveRun_rep hsize run).contract

/-- A slab of two blocks of 512 bytes. Both are handed out, a third request gets NULL, and the
first block is freed. -/
theorem slab_contract_two_blocks : ∃ h0 h1 h2 h3 h4,
    slabInit 4096 1104 512 slabRaw = some (0, h0) ∧
    slabAlloc h0.blockSize h0 = some (some 4152, h1) ∧
    slabAlloc h1.blockSize h1 = some (some 4664, h2) ∧
    slabAlloc h2.blockSize h2 = some (none, h3) ∧ slabFree 4152 h3 = some h4 ∧
    SlabContract 4096 {4664} h4 := by
  have hcalls : ((slabInit 4096 1104 512 slabRaw).bind fun c0 =>
      (slabAlloc c0.2.blockSize c0.2).bind fun c1 => (slabAlloc c1.2.blockSize c1.2).bind fun c2 =>
      (slabAlloc c2.2.blockSize c2.2).bind fun c3 => (slabFree 4152 c3.2).map fun _ =>
        (c0.1, c1.1, c2.1, c3.1)) = some (0, some 4152, some 4664, none) := by decide +kernel
  simp only [Option.bind_eq_some_iff, Option.map_eq_some_iff, Prod.exists, Prod.mk.injEq] at hcalls
  obtain ⟨_, h0, hinit, _, h1, halloc1, _, h2, halloc2, _, h3, halloc3, h4, hfree, rfl, rfl, rfl,
    rfl⟩ := hcalls
  have run : SlabLiveRun 4096 1104 512 (({4664, 4152} : Finset ℕ).erase 4152) h4 :=
    .free (.alloc (.alloc (.alloc (.init hinit) halloc1) halloc2) halloc3) (by decide) hfree
  exact ⟨h0, h1, h2, h3, h4, hinit, halloc1, halloc2, halloc3, hfree,
    slab_contract_of_run (by decide) run⟩

end Contract

end Shalloc
