import Shalloc.Nofree.Exact

/-!
# The alignment of a no-free block

`nofree_alloc` rounds the size of a request up to `align`, and hands out the free pointer as it
is. So the address of a block was fixed by the calls before: it lies at the size of the header
and of the rounded blocks that were served, whatever alignment is asked for.

## Main definitions

- `NofreeAlignRun` — a sequence of `nofree_alloc` calls with alignments of their own
- `nofreeServedSize` — the bytes that the served calls took

## Main results

- `nofree_aligned_iff` — when a block is aligned as its call asked
-/

namespace Shalloc

variable {buff buffSize size align p : ℕ} {served : List (ℕ × ℕ)} {header header' : NofreeHeader}

/-- No alignment, or a power of two up to the page size. -/
def AlignArg (align : ℕ) : Prop := align = 0 ∨ ∃ k ≤ 12, align = 2 ^ k

/-- The bytes by which a served call moves the free pointer. -/
def nofreeStep (size align : ℕ) : ℕ := if align ≠ 0 then Word.roundUp size align else size

/-- The bytes that the served calls took, each given by its size and alignment. -/
def nofreeServedSize (served : List (ℕ × ℕ)) : ℕ :=
  (served.map fun call => nofreeStep call.1 call.2).sum

@[simp] theorem nofreeServedSize_cons (size align : ℕ) (served : List (ℕ × ℕ)) :
    nofreeServedSize ((size, align) :: served) =
      nofreeStep size align + nofreeServedSize served := by
  simp [nofreeServedSize]

/-- A sequence of `nofree_alloc` calls on a buffer set up by `nofree_init`, with the served
ones, newest first, and the header it leads to. -/
inductive NofreeAlignRun (buff buffSize : ℕ) : List (ℕ × ℕ) → NofreeHeader → Prop
  | init {raw header : NofreeHeader} : nofreeInit buff buffSize raw = (0, header) →
      NofreeAlignRun buff buffSize [] header
  | served {served : List (ℕ × ℕ)} {header header' : NofreeHeader} {size align p : ℕ} :
      NofreeAlignRun buff buffSize served header → size < 2 ^ 48 → AlignArg align →
      nofreeAlloc buff buffSize size align header = some (some p, header') →
      NofreeAlignRun buff buffSize ((size, align) :: served) header'
  | refused {served : List (ℕ × ℕ)} {header header' : NofreeHeader} {size align : ℕ} :
      NofreeAlignRun buff buffSize served header → size < 2 ^ 48 → AlignArg align →
      nofreeAlloc buff buffSize size align header = some (none, header') →
      NofreeAlignRun buff buffSize served header'

section Call

/-- Rounding a size below `2 ^ 48` up does not wrap. -/
theorem nofreeAlignUp_of_lt {k : ℕ} (hsize : size < 2 ^ 48) (hk : k ≤ 12) :
    nofreeAlignUp size (2 ^ k) = Word.roundUp size (2 ^ k) := by
  have hpow : 2 ^ k ≤ 2 ^ 12 := Nat.pow_le_pow_right (by decide) hk
  rw [nofreeAlignUp, Word.alignUp_two_pow, Word.wrap_of_lt (by omega)]
  rfl

/-- A call that is served hands out the free pointer and moves it by the rounded size. -/
theorem nofreeAlloc_served (hsize : size < 2 ^ 48) (halign : AlignArg align)
    (h : nofreeAlloc buff buffSize size align header = some (some p, header')) :
    p = header.next ∧ header'.next = Word.wrap 64 (header.next + nofreeStep size align) := by
  unfold nofreeAlloc at h
  split at h
  · exact absurd h (by simp)
  split at h
  · exact absurd h (by simp)
  have hstep : (if align ≠ 0 then nofreeAlignUp size align else size) = nofreeStep size align := by
    unfold nofreeStep
    obtain rfl | ⟨k, hk, rfl⟩ := halign
    · rfl
    · rw [nofreeAlignUp_of_lt hsize hk]
  simp only [hstep] at h
  split at h
  · exact absurd h (by simp)
  · obtain ⟨hp, rfl⟩ := Prod.mk.inj (Option.some.inj h)
    exact ⟨(Option.some.inj hp).symm, rfl⟩

end Call

section Run

/-- The free pointer lies behind the header and the served blocks, modulo `2 ^ 64`. -/
theorem NofreeAlignRun.next (run : NofreeAlignRun buff buffSize served header) :
    header.next = Word.wrap 64 (buff + sizeofNofreeHeader + nofreeServedSize served) := by
  induction run with
  | init h =>
    unfold nofreeInit at h
    split at h
    · exact absurd h (by simp)
    · obtain ⟨-, rfl⟩ := Prod.mk.inj h
      rfl
  | served _ hsize halign h ih =>
    obtain ⟨-, hnext⟩ := nofreeAlloc_served hsize halign h
    rw [hnext, ih, nofreeServedSize_cons, Word.wrap, Word.wrap, Nat.mod_add_mod, Nat.add_assoc]
    exact congrArg (fun n => (buff + sizeofNofreeHeader + n) % 2 ^ 64) (Nat.add_comm _ _)
  | refused _ hsize halign h ih =>
    rw [nofreeAlloc_refused h (by rw [ih]; exact Word.wrap_lt 64 _)]
    exact ih

/-- **The alignment of a block.** In any sequence of calls on a page-aligned buffer, the block
of a call is aligned as the call asked iff the bytes before it, that is, the header and the
blocks served so far, are a multiple of the alignment. -/
theorem nofree_aligned_iff (hpage : 4096 ∣ buff) (run : NofreeAlignRun buff buffSize served header)
    (hsize : size < 2 ^ 48) (halign : AlignArg align) (hpos : 0 < align)
    (h : nofreeAlloc buff buffSize size align header = some (some p, header')) :
    align ∣ p ↔ align ∣ sizeofNofreeHeader + nofreeServedSize served := by
  obtain ⟨k, hk, rfl⟩ := halign.resolve_left (Nat.pos_iff_ne_zero.mp hpos)
  obtain ⟨rfl, -⟩ := nofreeAlloc_served hsize (Or.inr ⟨k, hk, rfl⟩) h
  have hword : 2 ^ k ∣ 2 ^ 64 := Nat.pow_dvd_pow 2 (by omega)
  have hbuff : 2 ^ k ∣ buff := Nat.dvd_trans (Nat.pow_dvd_pow 2 hk) hpage
  rw [run.next, Word.wrap, Nat.dvd_mod_iff hword, Nat.add_assoc]
  exact Nat.dvd_add_right hbuff

/-- The header of a page that was just set up. -/
theorem nofreeAlign_fresh : NofreeAlignRun 4096 4096 [] ⟨magicValue, 4120, magicValue⟩ := by
  have hinit : nofreeInit 4096 4096 ⟨0, 0, 0⟩ = (0, ⟨magicValue, 4120, magicValue⟩) := by decide
  exact .init hinit

/-- The first block is aligned to 8 bytes if that is asked for. -/
theorem nofree_aligned_eight :
    nofreeAlloc 4096 4096 100 8 ⟨magicValue, 4120, magicValue⟩ =
      some (some 4120, ⟨magicValue, 4224, magicValue⟩) ∧ 8 ∣ 4120 := by
  have hcall : nofreeAlloc 4096 4096 100 8 ⟨magicValue, 4120, magicValue⟩ =
      some (some 4120, ⟨magicValue, 4224, magicValue⟩) := by decide
  exact ⟨hcall, (nofree_aligned_iff (by decide) nofreeAlign_fresh (by decide)
    (Or.inr ⟨3, by decide, rfl⟩) (by decide) hcall).mpr (by decide)⟩

/-- The first block is not aligned to 16 bytes: it lies behind a header of 24. -/
theorem nofree_not_aligned :
    ¬ ∀ (buff buffSize size align p : ℕ) (served : List (ℕ × ℕ)) (header header' : NofreeHeader),
      4096 ∣ buff → NofreeAlignRun buff buffSize served header → size < 2 ^ 48 → AlignArg align →
      0 < align → nofreeAlloc buff buffSize size align header = some (some p, header') →
      align ∣ p := by
  intro h
  have hcall : nofreeAlloc 4096 4096 100 16 ⟨magicValue, 4120, magicValue⟩ =
      some (some 4120, ⟨magicValue, 4232, magicValue⟩) := by decide
  exact absurd (h 4096 4096 100 16 4120 [] _ _ (by decide) nofreeAlign_fresh (by decide)
    (Or.inr ⟨4, by decide, rfl⟩) (by decide) hcall) (by decide)

end Run

end Shalloc
