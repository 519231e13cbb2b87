import Shalloc.Extent
import Shalloc.Nofree.Defs

/-!
# Exactness of the no-free allocator

What one `_nofree_malloc` call does in 64-bit arithmetic, and what a sequence of
calls hands out. The allocator tests the moved pointer against both ends of the
buffer but not against the pointer it started from, so a request whose rounded size
reaches around the address space is accepted and moves the pointer back. Every other
call is exact.

## Main definitions

- `NofreeOk` — the header invariant of an initialised buffer
- `NofreeRun` — the blocks and the header that a sequence of calls leads to
- `NofreeCallExact` — the contract of one call
- `NofreeNoWrap` — the request does not reach around the address space
-/

namespace Shalloc

/-- A request rounded up to the granularity of `_nofree_malloc`. -/
def nofreeRound (size : ℕ) : ℕ := Word.roundUp size sizeofLong

theorem nofreeRound_eq (size : ℕ) : nofreeRound size = (size + 7) / 8 * 8 := rfl

theorem le_nofreeRound (size : ℕ) : size ≤ nofreeRound size := by
  rw [nofreeRound_eq]; omega

theorem nofreeRound_lt (size : ℕ) : nofreeRound size < size + 8 := by
  rw [nofreeRound_eq]; omega

theorem eight_dvd_nofreeRound (size : ℕ) : 8 ∣ nofreeRound size :=
  ⟨(size + 7) / 8, by rw [nofreeRound_eq, Nat.mul_comm]⟩

/-- At 64 bits the round-up of the source is the mathematical one, reduced. -/
theorem nofreeAlignUp_eq {size : ℕ} (h : size < 2 ^ 64) :
    nofreeAlignUp size sizeofLong = nofreeRound size % 2 ^ 64 := by
  have hpow : sizeofLong = 2 ^ 3 := rfl
  rw [nofreeAlignUp, hpow, Word.alignUp_two_pow, Word.wrap, nofreeRound_eq]
  omega

/-- The header of a buffer in use: valid magic values, and the free pointer between
the header and the end of the buffer. -/
structure NofreeOk (buff buffSize : ℕ) (header : NofreeHeader) : Prop where
  magicStart : header.magicStart = magicValue
  magicEnd : header.magicEnd = magicValue
  lower : buff + sizeofNofreeHeader ≤ header.next
  upper : header.next ≤ buff + buffSize

/-- The rounded request, laid down at the free pointer, ends before it would come
around to the start of the buffer again. -/
def NofreeNoWrap (buff : ℕ) (header : NofreeHeader) (size : ℕ) : Prop :=
  nofreeRound size + (header.next - buff) < 2 ^ 64

instance (buff : ℕ) (header : NofreeHeader) (size : ℕ) :
    Decidable (NofreeNoWrap buff header size) :=
  inferInstanceAs (Decidable (_ < _))

section Call

variable {buff buffSize size : ℕ} {header : NofreeHeader}

theorem NofreeOk.check (h : NofreeOk buff buffSize header) : nofreeCheck header := by
  refine ⟨?_, ?_, ?_⟩
  · rw [h.magicStart]; decide
  · rw [h.magicStart, h.magicEnd]
  · have := h.lower
    unfold sizeofNofreeHeader at this
    omega

/-- A successful `nofree_init` leaves a header in use. -/
theorem nofreeInit_ok {raw : NofreeHeader} (hend : buff + buffSize < 2 ^ 64)
    (h : nofreeInit buff buffSize raw = (0, header)) :
    NofreeOk buff buffSize header ∧ header.next = buff + sizeofNofreeHeader := by
  unfold nofreeInit at h
  split at h
  · simp at h
  · next hsize =>
    have halign : nofreeAlignUp sizeofNofreeHeader sizeofLong = sizeofNofreeHeader := by decide
    have hnext : Word.wrap 64 (buff + nofreeAlignUp sizeofNofreeHeader sizeofLong) =
        buff + sizeofNofreeHeader := by
      rw [halign]; exact Word.wrap_of_lt (by omega)
    simp only [Prod.mk.injEq, true_and] at h
    subst h
    exact ⟨⟨rfl, rfl, hnext.ge, by simp only [hnext]; omega⟩, hnext⟩

/-- A request of zero bytes is answered with NULL. -/
theorem nofreeMalloc_zero (hok : NofreeOk buff buffSize header) :
    nofreeMalloc buff buffSize 0 header = some (none, header) := by
  simp [nofreeMalloc, nofreeAlloc, hok.check]

/-- A refusal moves the free pointer forth and back again, whatever the size. -/
theorem nofreeAlloc_refused {align : ℕ} {header' : NofreeHeader}
    (h : nofreeAlloc buff buffSize size align header = some (none, header'))
    (hnext : header.next < 2 ^ 64) : header' = header := by
  by_cases hcheck : nofreeCheck header
  · by_cases hzero : size = 0
    · simp only [nofreeAlloc, hcheck, not_true_eq_false, if_false, if_pos hzero, Option.some.injEq,
        Prod.mk.injEq, true_and] at h
      exact h.symm
    · simp only [nofreeAlloc, hcheck, not_true_eq_false, if_false, if_neg hzero] at h
      generalize (if align ≠ 0 then nofreeAlignUp size align else size) = step at h
      split at h
      · rw [Word.sub_wrap_add hnext] at h
        exact (Prod.mk.inj (Option.some.inj h)).2.symm
      · exact absurd (Prod.mk.inj (Option.some.inj h)).1 (by simp)
  · simp [nofreeAlloc, hcheck] at h

/-- One call on a header in use, with the wrapped sum as the source computes it. -/
theorem nofreeMalloc_eq (hok : NofreeOk buff buffSize header) (hend : buff + buffSize < 2 ^ 64)
    (hpos : 0 < size) (hsize : size < 2 ^ 64) :
    nofreeMalloc buff buffSize size header =
      let next := (header.next + nofreeRound size) % 2 ^ 64
      if next > buff + buffSize ∨ next < buff then some (none, header)
      else some (some header.next, { header with next := next }) := by
  have hnext : header.next < 2 ^ 64 := lt_of_le_of_lt hok.upper hend
  have hbump : Word.wrap 64 (header.next + nofreeAlignUp size sizeofLong) =
      (header.next + nofreeRound size) % 2 ^ 64 := by
    rw [nofreeAlignUp_eq hsize, Word.wrap, Nat.add_mod_mod]
  have hundo : Word.sub 64 ((header.next + nofreeRound size) % 2 ^ 64)
      (nofreeAlignUp size sizeofLong) = header.next := by
    rw [← hbump]; exact Word.sub_wrap_add hnext
  have halign : sizeofLong ≠ 0 := by decide
  simp only [nofreeMalloc, nofreeAlloc, hok.check, not_true_eq_false, if_false, halign,
    ne_eq, not_false_eq_true, if_true, hbump, hundo, Word.wrap_of_lt hend,
    Nat.pos_iff_ne_zero.mp hpos]

/-- Without wrap-around the call serves exactly the requests that fit. -/
theorem nofreeMalloc_of_noWrap (hok : NofreeOk buff buffSize header)
    (hend : buff + buffSize < 2 ^ 64) (hpos : 0 < size) (hsize : size < 2 ^ 64)
    (hwrap : NofreeNoWrap buff header size) :
    nofreeMalloc buff buffSize size header =
      if header.next + nofreeRound size ≤ buff + buffSize then
        some (some header.next, { header with next := header.next + nofreeRound size })
      else some (none, header) := by
  have hlower := hok.lower
  have hupper := hok.upper
  unfold NofreeNoWrap at hwrap
  rw [nofreeMalloc_eq hok hend hpos hsize]
  by_cases hfit : header.next + nofreeRound size ≤ buff + buffSize
  · have hmod : (header.next + nofreeRound size) % 2 ^ 64 = header.next + nofreeRound size :=
      Nat.mod_eq_of_lt (by omega)
    have htest : ¬ (header.next + nofreeRound size > buff + buffSize ∨
        header.next + nofreeRound size < buff) := by omega
    simp only [hmod, if_neg htest, if_pos hfit]
  · -- the sum is past the buffer; if it wraps, it lands below the buffer
    have htest : (header.next + nofreeRound size) % 2 ^ 64 > buff + buffSize ∨
        (header.next + nofreeRound size) % 2 ^ 64 < buff := by omega
    simp only [if_pos htest, if_neg hfit]

/-- With wrap-around the call is accepted and the free pointer moves back. -/
theorem nofreeMalloc_of_wrap (hok : NofreeOk buff buffSize header)
    (hend : buff + buffSize < 2 ^ 64) (hpos : 0 < size) (hsize : size < 2 ^ 64)
    (hwrap : ¬ NofreeNoWrap buff header size) :
    nofreeMalloc buff buffSize size header = some (some header.next,
      { header with next := header.next + nofreeRound size - 2 ^ 64 }) := by
  have hlower := hok.lower
  have hupper := hok.upper
  have hround := nofreeRound_eq size
  unfold NofreeNoWrap at hwrap
  have hmod : (header.next + nofreeRound size) % 2 ^ 64 =
      header.next + nofreeRound size - 2 ^ 64 := by omega
  have htest : ¬ (header.next + nofreeRound size - 2 ^ 64 > buff + buffSize ∨
      header.next + nofreeRound size - 2 ^ 64 < buff) := by omega
  rw [nofreeMalloc_eq hok hend hpos hsize]
  simp only [hmod, if_neg htest]

end Call

/-- The blocks handed out so far, after a call that returned `ptr` for `size` bytes. -/
def issue (ptr : Option ℕ) (size : ℕ) (issued : List Extent) : List Extent :=
  match ptr with
  | some p => ⟨p, size⟩ :: issued
  | none => issued

/-- A sequence of `_nofree_malloc` calls on a buffer set up by `nofree_init`, each of
which meets `meets`, with the blocks handed out and the header it leads to. -/
inductive NofreeRun (buff buffSize : ℕ) (meets : NofreeHeader → ℕ → Prop) :
    List Extent → NofreeHeader → Prop
  | init {raw header : NofreeHeader} : nofreeInit buff buffSize raw = (0, header) →
      NofreeRun buff buffSize meets [] header
  | call {issued : List Extent} {header header' : NofreeHeader} {size : ℕ} {ptr : Option ℕ} :
      NofreeRun buff buffSize meets issued header → size < 2 ^ 64 → meets header size →
      nofreeMalloc buff buffSize size header = some (ptr, header') →
      NofreeRun buff buffSize meets (issue ptr size issued) header'

/-- The contract of one call: it returns, it serves exactly the requests that fit, a
served block lies in the buffer and apart from all earlier ones, the free pointer
does not move back, and a refused request changes nothing. -/
def NofreeCallExact (buff buffSize : ℕ) (issued : List Extent) (header : NofreeHeader)
    (size : ℕ) : Prop :=
  ∃ ptr header', nofreeMalloc buff buffSize size header = some (ptr, header') ∧
    (0 < size → (ptr.isSome ↔ header.next + nofreeRound size ≤ buff + buffSize)) ∧
    (∀ p, ptr = some p → buff + sizeofNofreeHeader ≤ p ∧ p + size ≤ buff + buffSize ∧
      ∀ b ∈ issued, Extent.Disjoint ⟨p, size⟩ b) ∧
    header.next ≤ header'.next ∧
    (ptr = none → header' = header)

section Run

variable {buff buffSize size : ℕ} {issued : List Extent} {header : NofreeHeader}

/-- Every block handed out lies between the header and the free pointer. -/
def NofreeIssuedBelow (buff : ℕ) (issued : List Extent) (header : NofreeHeader) : Prop :=
  ∀ b ∈ issued, buff + sizeofNofreeHeader ≤ b.ptr ∧ b.ptr + b.len ≤ header.next

/-- One call without wrap-around keeps the header in use and the blocks below it. -/
theorem nofree_call_inv {header' : NofreeHeader} {ptr : Option ℕ}
    (hok : NofreeOk buff buffSize header) (hissued : NofreeIssuedBelow buff issued header)
    (hend : buff + buffSize < 2 ^ 64) (hsize : size < 2 ^ 64)
    (hwrap : NofreeNoWrap buff header size)
    (h : nofreeMalloc buff buffSize size header = some (ptr, header')) :
    NofreeOk buff buffSize header' ∧ NofreeIssuedBelow buff (issue ptr size issued) header' := by
  have hlower := hok.lower
  have hle := le_nofreeRound size
  rcases Nat.eq_zero_or_pos size with rfl | hpos
  · rw [nofreeMalloc_zero hok] at h
    obtain ⟨rfl, rfl⟩ := Prod.mk.inj (Option.some.inj h)
    exact ⟨hok, hissued⟩
  · rw [nofreeMalloc_of_noWrap hok hend hpos hsize hwrap] at h
    split at h
    · next hfit =>
      obtain ⟨rfl, rfl⟩ := Prod.mk.inj (Option.some.inj h)
      refine ⟨⟨hok.magicStart, hok.magicEnd, ?_, hfit⟩, ?_⟩
      · exact Nat.le_trans hlower (Nat.le_add_right _ _)
      · intro b hb
        rcases List.mem_cons.mp hb with rfl | hb
        · exact ⟨hlower, Nat.add_le_add_left hle _⟩
        · obtain ⟨h1, h2⟩ := hissued b hb
          exact ⟨h1, Nat.le_trans h2 (Nat.le_add_right _ _)⟩
    · obtain ⟨rfl, rfl⟩ := Prod.mk.inj (Option.some.inj h)
      exact ⟨hok, hissued⟩

/-- The invariant of a whole sequence of calls without wrap-around. -/
theorem nofree_run_inv (hend : buff + buffSize < 2 ^ 64)
    (run : NofreeRun buff buffSize (NofreeNoWrap buff) issued header) :
    NofreeOk buff buffSize header ∧ NofreeIssuedBelow buff issued header := by
  induction run with
  | init h => exact ⟨(nofreeInit_ok hend h).1, by simp [NofreeIssuedBelow]⟩
  | call _ hsize hwrap h ih => exact nofree_call_inv ih.1 ih.2 hend hsize hwrap h

/-- A call without wrap-around meets the contract. -/
theorem nofreeCallExact_of_noWrap (hok : NofreeOk buff buffSize header)
    (hissued : NofreeIssuedBelow buff issued header) (hend : buff + buffSize < 2 ^ 64)
    (hsize : size < 2 ^ 64) (hwrap : NofreeNoWrap buff header size) :
    NofreeCallExact buff buffSize issued header size := by
  have hlower := hok.lower
  have hle := le_nofreeRound size
  rcases Nat.eq_zero_or_pos size with rfl | hpos
  · exact ⟨none, header, nofreeMalloc_zero hok, by simp, by simp, le_rfl, fun _ => rfl⟩
  · have hcall := nofreeMalloc_of_noWrap hok hend hpos hsize hwrap
    by_cases hfit : header.next + nofreeRound size ≤ buff + buffSize
    · rw [if_pos hfit] at hcall
      refine ⟨_, _, hcall, fun _ => by simp [hfit], ?_, Nat.le_add_right _ _, by simp⟩
      rintro p hp
      obtain rfl := Option.some.inj hp
      refine ⟨hlower, by omega, fun b hb => Or.inr ?_⟩
      exact (hissued b hb).2
    · rw [if_neg hfit] at hcall
      exact ⟨_, _, hcall, fun _ => by simp [hfit], by simp, le_rfl, fun _ => rfl⟩

/-- A call that wraps breaks the contract: it is served although it does not fit. -/
theorem not_nofreeCallExact_of_wrap (hok : NofreeOk buff buffSize header)
    (hend : buff + buffSize < 2 ^ 64) (hsize : size < 2 ^ 64)
    (hwrap : ¬ NofreeNoWrap buff header size) :
    ¬ NofreeCallExact buff buffSize issued header size := by
  have hlower := hok.lower
  have hupper := hok.upper
  have hround := nofreeRound_eq size
  have hlong : 2 ^ 64 ≤ nofreeRound size + (header.next - buff) := Nat.le_of_not_lt hwrap
  have hpos : 0 < size := by omega
  rintro ⟨ptr, header', hcall, hserved, -⟩
  rw [nofreeMalloc_of_wrap hok hend hpos hsize hwrap] at hcall
  obtain ⟨rfl, -⟩ := Prod.mk.inj (Option.some.inj hcall)
  have hfit := (hserved hpos).mp rfl
  omega

/-- **Exactness of the no-free allocator.** After any sequence of calls none of which
wraps, the next call meets the contract exactly when it does not wrap either. -/
theorem nofree_callExact_iff (hend : buff + buffSize < 2 ^ 64)
    (run : NofreeRun buff buffSize (NofreeNoWrap buff) issued header) (hsize : size < 2 ^ 64) :
    NofreeCallExact buff buffSize issued header size ↔ NofreeNoWrap buff header size := by
  obtain ⟨hok, hissued⟩ := nofree_run_inv hend run
  constructor
  · intro hexact
    by_contra hwrap
    exact not_nofreeCallExact_of_wrap hok hend hsize hwrap hexact
  · exact nofreeCallExact_of_noWrap hok hissued hend hsize

/-- A fresh buffer of 1024 bytes serves a request for 100 bytes exactly. -/
theorem nofree_callExact_fresh :
    NofreeCallExact 4096 1024 [] ⟨magicValue, 4120, magicValue⟩ 100 := by
  have hinit : nofreeInit 4096 1024 ⟨0, 0, 0⟩ = (0, ⟨magicValue, 4120, magicValue⟩) := by decide
  exact (nofree_callExact_iff (by decide) (.init hinit) (by decide)).mpr (by decide)

/-- A request for `2 ^ 64 - 8` bytes on a fresh buffer is served, and the free pointer
moves back into the header. -/
theorem nofree_call_not_exact :
    ¬ ∀ (buff buffSize size : ℕ) (issued : List Extent) (header : NofreeHeader),
      buff + buffSize < 2 ^ 64 → NofreeRun buff buffSize (fun _ _ => True) issued header →
      size < 2 ^ 64 → NofreeCallExact buff buffSize issued header size := by
  intro h
  have hinit : nofreeInit 4096 1024 ⟨0, 0, 0⟩ = (0, ⟨magicValue, 4120, magicValue⟩) := by decide
  obtain ⟨ptr, header', hcall, -, -, hmono, -⟩ :=
    h 4096 1024 (2 ^ 64 - 8) [] _ (by decide) (.init hinit) (by decide)
  have hwrapped : nofreeMalloc 4096 1024 (2 ^ 64 - 8) ⟨magicValue, 4120, magicValue⟩ =
      some (some 4120, ⟨magicValue, 4112, magicValue⟩) := by decide
  rw [hwrapped] at hcall
  obtain ⟨-, rfl⟩ := Prod.mk.inj (Option.some.inj hcall)
  exact absurd hmono (by decide)

end Run

end Shalloc
