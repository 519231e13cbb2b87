import Shalloc.Tiny.Blocks

/-!
# The free array

The entries of the free array are the places of free blocks of less than `MAX_FREE_CACHED_SIZE`
bytes, no place twice, and each in the bucket of its block's length. The search tries every
entry that may hold a large enough block.

## Main definitions

- `IsEntry`, `InBucket`, `InArray` — the entries, their buckets, and the places in them
- `FreeArrayOk` — what the entries say

## Main results

- `addToFreeArray_eq` — a block is added
- `FreeArrayOk.remove` — an entry is emptied
- `freeArraySearch_eq` — the search finds a block if an entry holds one that fits
-/

namespace Shalloc.Tiny

/-- `i` is the first byte of an entry that is in use. -/
def IsEntry (poolsize i : ℕ) : Prop := 3 ∣ i ∧ i + 3 < freeArraySize poolsize

/-- The entries for the blocks of `len` bytes. -/
def InBucket (len i : ℕ) : Prop := ∃ j, i = freeArrayOff len + j * freeArrayOff maxFreeCachedSize

/-- The place is in the free array. -/
def InArray (poolsize : ℕ) (arr : Pool) (off : ℕ) : Prop :=
  off ≠ 0 ∧ ∃ i, IsEntry poolsize i ∧ freeEntry arr i = off

/-- Each entry is empty or holds the place of a free block in its bucket, and no place is held
twice. -/
structure FreeArrayOk (poolsize : ℕ) (blocks : List Block) (arr : Pool) : Prop where
  block : ∀ {i}, IsEntry poolsize i → freeEntry arr i ≠ 0 → ∃ b ∈ blocks, b.data = none ∧
    b.off = freeEntry arr i ∧ b.len < maxFreeCachedSize ∧ InBucket b.len i
  inj : ∀ {i j}, IsEntry poolsize i → IsEntry poolsize j → freeEntry arr i = freeEntry arr j →
    freeEntry arr i ≠ 0 → i = j

variable {poolsize size k fuel off len i j faOff : ℕ} {arr arr' : Pool} {b : Block}
  {blocks blocks' : List Block}

section Entries

theorem freeEntry_eq : freeEntry arr i =
    (arr i).toNat * 65536 + (arr (i + 1)).toNat * 256 + (arr (i + 2)).toNat := by
  have h1 := (arr (i + 1)).toNat_lt
  have h2 := (arr (i + 2)).toNat_lt
  rw [freeEntry, Nat.shiftLeft_eq, Nat.shiftLeft_eq, Nat.mul_comm _ (2 ^ 16),
    ← Nat.two_pow_add_eq_or_of_lt (by omega),
    show 2 ^ 16 * (arr i).toNat + (arr (i + 1)).toNat * 2 ^ 8 =
      2 ^ 8 * (256 * (arr i).toNat + (arr (i + 1)).toNat) by omega,
    ← Nat.two_pow_add_eq_or_of_lt (by omega)]
  omega

theorem freeEntry_congr (h : ∀ a, i ≤ a → a < i + 3 → arr' a = arr a) :
    freeEntry arr' i = freeEntry arr i := by
  unfold freeEntry
  rw [h i (by omega) (by omega), h (i + 1) (by omega) (by omega), h (i + 2) (by omega) (by omega)]

theorem freeEntry_eq_zero (h0 : arr i = 0) (h1 : arr (i + 1) = 0) (h2 : arr (i + 2) = 0) :
    freeEntry arr i = 0 := by
  rw [freeEntry_eq, h0, h1, h2]
  rfl

theorem freeArrayOff_mono (h : len ≤ size) : freeArrayOff len ≤ freeArrayOff size := by
  unfold freeArrayOff
  dsimp only
  split_ifs <;> omega

theorem three_dvd_freeArrayOff (len : ℕ) : 3 ∣ freeArrayOff len := Nat.dvd_mul_left 3 _

theorem freeArrayOff_max : freeArrayOff maxFreeCachedSize = 207 := rfl

theorem InBucket.three_dvd (h : InBucket len i) : 3 ∣ i := by
  obtain ⟨j, rfl⟩ := h
  exact Nat.dvd_add (three_dvd_freeArrayOff _)
    (Nat.dvd_mul_left_of_dvd (three_dvd_freeArrayOff _) j)

/-- Two entries are the same or have no byte in common. -/
theorem IsEntry.apart (hi : IsEntry poolsize i) (hj : IsEntry poolsize j) (hne : i ≠ j) :
    i + 3 ≤ j ∨ j + 3 ≤ i := by
  obtain ⟨⟨m, rfl⟩, -⟩ := hi
  obtain ⟨⟨n, rfl⟩, -⟩ := hj
  omega

/-- Only the bytes of the free array count, and only the blocks that are in it. -/
theorem FreeArrayOk.congr (h : FreeArrayOk poolsize blocks arr)
    (heq : ∀ a < freeArraySize poolsize, arr' a = arr a)
    (hblocks : ∀ b ∈ blocks, b.data = none → InArray poolsize arr b.off → b ∈ blocks') :
    FreeArrayOk poolsize blocks' arr' := by
  have hentry : ∀ {i}, IsEntry poolsize i → freeEntry arr' i = freeEntry arr i := by
    rintro i ⟨-, hi⟩
    exact freeEntry_congr fun a _ h2 => heq a (by omega)
  refine ⟨fun {i} hi hne => ?_, fun {i j} hi hj hij hne => ?_⟩
  · rw [hentry hi] at hne ⊢
    obtain ⟨b, hb, hdata, hoff, hrest⟩ := h.block hi hne
    exact ⟨b, hblocks b hb hdata ⟨hoff ▸ hne, i, hi, hoff.symm⟩, hdata, hoff, hrest⟩
  · rw [hentry hi] at hij hne
    rw [hentry hj] at hij
    exact h.inj hi hj hij hne

theorem InArray.congr (h : InArray poolsize arr off)
    (heq : ∀ a < freeArraySize poolsize, arr' a = arr a) : InArray poolsize arr' off := by
  obtain ⟨hne, i, hi, rfl⟩ := h
  exact ⟨hne, i, hi, freeEntry_congr fun a _ h2 => heq a (by have := hi.2; omega)⟩

/-- An array of zero bytes has no entry. -/
theorem not_inArray_of_zero (h : ∀ a < freeArraySize poolsize, arr a = 0) :
    ¬ InArray poolsize arr off := by
  rintro ⟨hne, i, ⟨-, hi⟩, rfl⟩
  exact hne (freeEntry_eq_zero (h _ (by omega)) (h _ (by omega)) (h _ (by omega)))

theorem FreeArrayOk.of_zero (h : ∀ a < freeArraySize poolsize, arr a = 0) :
    FreeArrayOk poolsize blocks arr := by
  refine ⟨fun {i} hi hne => ?_, fun {i j} hi _ _ hne => ?_⟩
  · exact absurd ⟨hne, i, hi, rfl⟩ (not_inArray_of_zero h)
  · exact absurd ⟨hne, i, hi, rfl⟩ (not_inArray_of_zero h)

/-- A place in the array is that of a free block. -/
theorem FreeArrayOk.of_inArray (h : FreeArrayOk poolsize blocks arr)
    (hoff : InArray poolsize arr off) : ∃ b ∈ blocks, b.data = none ∧ b.off = off := by
  obtain ⟨hne, i, hi, rfl⟩ := hoff
  obtain ⟨b, hb, hdata, heq, -⟩ := h.block hi hne
  exact ⟨b, hb, hdata, heq⟩

/-- An entry is emptied: its place is not in the array any more. -/
theorem FreeArrayOk.remove (h : FreeArrayOk poolsize blocks arr) (hi : IsEntry poolsize i)
    (hne : freeEntry arr i ≠ 0) : FreeArrayOk poolsize blocks (memset arr i 0 3) ∧
      ¬ InArray poolsize (memset arr i 0 3) (freeEntry arr i) := by
  have hsame : ∀ {j}, IsEntry poolsize j → j ≠ i →
      freeEntry (memset arr i 0 3) j = freeEntry arr j := by
    intro j hj hji
    have hapart := hj.apart hi hji
    exact freeEntry_congr fun a h1 h2 => memset_outside (by omega)
  have hempty : freeEntry (memset arr i 0 3) i = 0 :=
    freeEntry_eq_zero (memset_inside (by omega) (by omega)) (memset_inside (by omega) (by omega))
      (memset_inside (by omega) (by omega))
  have hother : ∀ {j}, freeEntry (memset arr i 0 3) j ≠ 0 → j ≠ i := by
    rintro j hj rfl
    exact hj hempty
  refine ⟨⟨fun {j} hj hjne => ?_, fun {j j'} hj hj' heq hjne => ?_⟩, ?_⟩
  · have hsamej := hsame hj (hother hjne)
    rw [hsamej] at hjne ⊢
    exact h.block hj hjne
  · have hsamej := hsame hj (hother hjne)
    have hsamej' := hsame hj' (hother fun h0 => hjne (heq.trans h0))
    rw [hsamej] at hjne
    rw [hsamej, hsamej'] at heq
    exact h.inj hj hj' heq hjne
  · rintro ⟨-, j, hj, heq⟩
    have hji : j ≠ i := hother fun h0 => hne (heq.symm.trans h0)
    rw [hsame hj hji] at heq
    exact hji (h.inj hj hi heq fun h0 => hne (heq.symm.trans h0))

end Entries

section Add

theorem freeEntry_update (hoff : off < 2 ^ 24) :
    freeEntry (Function.update (Function.update (Function.update arr i (byte (off >>> 16)))
      (i + 1) (byte (off >>> 8))) (i + 2) (byte off)) i = off := by
  have h2 : i + 1 ≠ i + 2 := by omega
  have h1 : i ≠ i + 1 := by omega
  have h0 : i ≠ i + 2 := by omega
  rw [freeEntry_eq, Function.update_self, Function.update_of_ne h2, Function.update_self,
    Function.update_of_ne h0, Function.update_of_ne h1, Function.update_self,
    UInt8.toNat_ofNat', UInt8.toNat_ofNat', UInt8.toNat_ofNat', Nat.shiftRight_eq_div_pow,
    Nat.shiftRight_eq_div_pow]
  omega

/-- A free block that is not in the array takes an empty entry. -/
theorem FreeArrayOk.add (h : FreeArrayOk poolsize blocks arr) (hi : IsEntry poolsize i)
    (hb : b ∈ blocks) (hdata : b.data = none) (hlen : b.len < maxFreeCachedSize)
    (hbucket : InBucket b.len i) (hout : ¬ InArray poolsize arr b.off)
    (hentry : freeEntry arr' i = b.off)
    (hsame : ∀ a, (a < i ∨ i + 3 ≤ a) → arr' a = arr a) :
    FreeArrayOk poolsize blocks arr' ∧
      ∀ o, InArray poolsize arr' o → InArray poolsize arr o ∨ o = b.off := by
  have hother : ∀ {j}, IsEntry poolsize j → j ≠ i → freeEntry arr' j = freeEntry arr j := by
    intro j hj hji
    have hapart := hj.apart hi hji
    exact freeEntry_congr fun a h1 h2 => hsame a (by omega)
  -- no other entry holds the place of the block
  have hnew : ∀ {j}, IsEntry poolsize j → j ≠ i → freeEntry arr' j = b.off →
      freeEntry arr' j = 0 := by
    intro j hj hji heq
    by_contra hne
    rw [hother hj hji] at heq hne
    exact hout ⟨heq ▸ hne, j, hj, heq⟩
  refine ⟨⟨fun {j} hj hjne => ?_, fun {j j'} hj hj' heq hjne => ?_⟩, ?_⟩
  · by_cases hji : j = i
    · subst hji
      exact ⟨b, hb, hdata, hentry.symm, hlen, hbucket⟩
    · have hj' := hother hj hji
      rw [hj'] at hjne ⊢
      exact h.block hj hjne
  · by_cases hji : j = i
    · by_contra hjj
      have hj'i : j' ≠ i := fun h' => hjj (hji.trans h'.symm)
      rw [hji, hentry] at heq
      rw [hji, hentry, heq, hnew hj' hj'i heq.symm] at hjne
      exact hjne rfl
    · by_cases hj'i : j' = i
      · rw [hj'i, hentry] at heq
        exact absurd (hnew hj hji heq) hjne
      · have h1 := hother hj hji
        have h2 := hother hj' hj'i
        rw [h1] at hjne
        rw [h1, h2] at heq
        exact h.inj hj hj' heq hjne
  · rintro o ⟨hne, j, hj, rfl⟩
    by_cases hji : j = i
    · exact Or.inr (hji ▸ hentry)
    · exact Or.inl ⟨hne, j, hj, (hother hj hji).symm⟩

/-- What adding a block does: its place may be in the array then, and no other one is new. -/
structure Added (poolsize : ℕ) (blocks : List Block) (off : ℕ) (arr arr' : Pool) : Prop where
  ok : FreeArrayOk poolsize blocks arr'
  frame : ∀ a, freeArraySize poolsize ≤ a → arr' a = arr a
  inArray : ∀ o, InArray poolsize arr' o → InArray poolsize arr o ∨ o = off

theorem Added.refl (h : FreeArrayOk poolsize blocks arr) : Added poolsize blocks off arr arr :=
  ⟨h, fun _ _ => rfl, fun _ => Or.inl⟩

theorem addToFreeArrayLoop_eq (h : FreeArrayOk poolsize blocks arr) (hb : b ∈ blocks)
    (hdata : b.data = none) (hlen : b.len < maxFreeCachedSize) (hoff : b.off < 2 ^ 24)
    (hout : ¬ InArray poolsize arr b.off) (hbucket : InBucket b.len faOff) (hpos : 0 < fuel)
    (hfuel : freeArraySize poolsize < faOff + fuel) :
    ∃ arr', addToFreeArrayLoop poolsize b.off fuel faOff arr = some arr' ∧
      Added poolsize blocks b.off arr arr' := by
  induction fuel generalizing faOff with
  | zero => omega
  | succ fuel ih =>
    rw [addToFreeArrayLoop]
    by_cases hfa : faOff + 3 < freeArraySize poolsize
    · rw [if_pos hfa]
      by_cases hzero : arr faOff = 0 ∧ arr (faOff + 1) = 0 ∧ arr (faOff + 2) = 0
      · rw [if_pos hzero]
        refine ⟨_, rfl, ?_⟩
        have hsame : ∀ a, (a < faOff ∨ faOff + 3 ≤ a) → Function.update (Function.update
            (Function.update arr faOff (byte (b.off >>> 16))) (faOff + 1) (byte (b.off >>> 8)))
            (faOff + 2) (byte b.off) a = arr a := by
          intro a ha
          rw [Function.update_of_ne (by omega), Function.update_of_ne (by omega),
            Function.update_of_ne (by omega)]
        obtain ⟨hok, hin⟩ := h.add ⟨hbucket.three_dvd, hfa⟩ hb hdata hlen hbucket hout
          (freeEntry_update hoff) hsame
        exact ⟨hok, fun a ha => hsame a (Or.inr (by omega)), hin⟩
      · rw [if_neg hzero]
        obtain ⟨j, rfl⟩ := hbucket
        rw [freeArrayOff_max] at hfa hfuel ⊢
        exact ih ⟨j + 1, by rw [freeArrayOff_max]; omega⟩ (by omega) (by omega)
    · rw [if_neg hfa]
      exact ⟨arr, rfl, .refl h⟩

/-- **`add_to_free_array`** takes an empty entry in the bucket of the block, if there is one. -/
theorem addToFreeArray_eq (h : FreeArrayOk poolsize blocks arr) (hb : b ∈ blocks)
    (hdata : b.data = none) (hoff : b.off < 2 ^ 24) (hout : ¬ InArray poolsize arr b.off) :
    ∃ arr', addToFreeArray poolsize b.len b.off arr = some arr' ∧
      Added poolsize blocks b.off arr arr' := by
  rw [addToFreeArray]
  by_cases hlen : maxFreeCachedSize ≤ b.len
  · rw [if_pos hlen]
    exact ⟨arr, rfl, .refl h⟩
  · rw [if_neg hlen]
    exact addToFreeArrayLoop_eq h hb hdata (Nat.lt_of_not_le hlen) hoff hout ⟨0, by simp⟩
      (Nat.succ_pos _) (by omega)

end Add

section Search

variable (harr : FreeArrayOk poolsize blocks arr) (hblocks : BlocksOk poolsize blocks arr)
  (hsmall : poolsize < 2 ^ 24) (hsize : size < 2 ^ 63) (hk : k < 64)
include harr hblocks hsmall hsize hk

/-- The search in a bucket finds a block, or no entry from here on holds one that fits. -/
theorem bucketSearch_eq (hdvd : 3 ∣ faOff) (hpos : 0 < fuel)
    (hfuel : freeArraySize poolsize < faOff + fuel) :
    (∃ i, ∃ b ∈ blocks, bucketSearch poolsize size (2 ^ k) arr fuel faOff =
        some (some (i, b.off, b.len)) ∧ IsEntry poolsize i ∧ freeEntry arr i = b.off ∧
        b.off ≠ 0 ∧ b.data = none ∧ b.Fits size k) ∨
      (bucketSearch poolsize size (2 ^ k) arr fuel faOff = some none ∧
        ∀ b ∈ blocks, b.off ≠ 0 → b.Fits size k →
          ∀ j, freeEntry arr (faOff + j * freeArrayOff maxFreeCachedSize) = b.off →
            ¬ IsEntry poolsize (faOff + j * freeArrayOff maxFreeCachedSize)) := by
  induction fuel generalizing faOff with
  | zero => omega
  | succ fuel ih =>
    rw [bucketSearch]
    dsimp only
    by_cases hfa : faOff + 3 < freeArraySize poolsize
    · have hentry : IsEntry poolsize faOff := ⟨hdvd, hfa⟩
      have hnext := @ih (faOff + freeArrayOff maxFreeCachedSize)
        (Nat.dvd_add hdvd (three_dvd_freeArrayOff _)) (by omega)
        (by rw [freeArrayOff_max]; omega)
      rw [if_pos hfa]
      -- the search goes on from the next entry if no block that fits is found here
      have hgoOn : (∀ b ∈ blocks, b.off ≠ 0 → b.Fits size k → freeEntry arr faOff ≠ b.off) →
          bucketSearch poolsize size (2 ^ k) arr fuel
              (faOff + freeArrayOff maxFreeCachedSize) = some none →
          ∀ b ∈ blocks, b.off ≠ 0 → b.Fits size k →
            ∀ j, freeEntry arr (faOff + j * freeArrayOff maxFreeCachedSize) = b.off →
              ¬ IsEntry poolsize (faOff + j * freeArrayOff maxFreeCachedSize) := by
        intro hhere hnone b hb hne hfits j hj
        cases j with
        | zero => exact absurd (by simpa using hj) (hhere b hb hne hfits)
        | succ j =>
          rcases hnext with ⟨i, b', -, hfound, -⟩ | ⟨-, hrest⟩
          · rw [hnone] at hfound
            cases hfound
          · rw [Nat.succ_mul, Nat.add_comm (j * _), ← Nat.add_assoc] at hj ⊢
            exact hrest b hb hne hfits j hj
      by_cases hzero : freeEntry arr faOff = 0
      · rw [if_pos hzero]
        rcases hnext with hfound | ⟨hnone, -⟩
        · exact Or.inl hfound
        · exact Or.inr ⟨hnone, hgoOn (fun b _ hne _ heq => hne (heq.symm.trans hzero)) hnone⟩
      · obtain ⟨b, hb, hdata, hoff, -⟩ := harr.block hentry hzero
        have hlt := hblocks.len_lt hsmall hb
        have hwithin := (hblocks.tiles.within hb).2
        rw [Block.extent_ptr, Block.extent_len] at hwithin
        rw [if_neg hzero, ← hoff, (hblocks.ok b hb).decode hlt]
        simp only [Option.bind_eq_bind, Option.bind_some]
        rw [longEnough_eq (hblocks.pos hb) (by omega) hsize hk, Option.bind_some]
        by_cases hfits : b.Fits size k
        · rw [decide_eq_true hfits, if_pos rfl]
          exact Or.inl ⟨faOff, b, hb, rfl, hentry, hoff.symm, hoff ▸ hzero, hdata, hfits⟩
        · rw [decide_eq_false hfits, if_neg Bool.false_ne_true]
          rcases hnext with hfound | ⟨hnone, -⟩
          · exact Or.inl hfound
          · refine Or.inr ⟨hnone, hgoOn (fun b' hb' _ hfits' heq => ?_) hnone⟩
            obtain rfl := hblocks.tiles.eq_of_ptr (fun x hx => hblocks.pos hx) hb hb'
              (hoff.trans heq)
            exact hfits hfits'
    · rw [if_neg hfa]
      refine Or.inr ⟨rfl, fun b _ _ _ j _ hentry => hfa ?_⟩
      have := hentry.2
      omega

/-- The search finds a block in a bucket from this one on, or none of these holds one that
fits. -/
theorem freeArraySearch_loop {freeBucket : ℕ} (hdvd : 3 ∣ freeBucket) (hpos : 0 < fuel)
    (hfuel : freeArrayOff maxFreeCachedSize < freeBucket + fuel) :
    (∃ i, ∃ b ∈ blocks, freeArraySearch poolsize size (2 ^ k) arr fuel freeBucket =
        some (some (i, b.off, b.len)) ∧ IsEntry poolsize i ∧ freeEntry arr i = b.off ∧
        b.off ≠ 0 ∧ b.data = none ∧ b.Fits size k) ∨
      (freeArraySearch poolsize size (2 ^ k) arr fuel freeBucket = some none ∧
        ∀ b ∈ blocks, b.off ≠ 0 → b.Fits size k → freeBucket ≤ freeArrayOff b.len →
          b.len < maxFreeCachedSize → ∀ i, InBucket b.len i → freeEntry arr i = b.off →
            ¬ IsEntry poolsize i) := by
  induction fuel generalizing freeBucket with
  | zero => omega
  | succ fuel ih =>
    rw [freeArraySearch]
    by_cases hmax : freeBucket < freeArrayOff maxFreeCachedSize
    · rw [if_pos hmax]
      rcases bucketSearch_eq harr hblocks hsmall hsize hk hdvd
        (Nat.succ_pos (freeArraySize poolsize)) (by omega) with ⟨i, b, hb, hfound, hrest⟩ |
        ⟨hnone, hbucket⟩
      · refine Or.inl ⟨i, b, hb, ?_, hrest⟩
        simp [hfound]
      · simp only [hnone, Option.bind_eq_bind, Option.bind_some]
        rcases @ih (freeBucket + 3) (Nat.dvd_add hdvd (dvd_refl 3)) (by omega)
          (by omega) with hfound | ⟨hnone', hlater⟩
        · exact Or.inl hfound
        · refine Or.inr ⟨hnone', fun b hb hne hfits hle hlen i hi hentry => ?_⟩
          rcases Nat.eq_or_lt_of_le hle with heq | hlt
          · obtain ⟨j, rfl⟩ := hi
            rw [← heq] at hentry ⊢
            exact hbucket b hb hne hfits j hentry
          · have hthree := three_dvd_freeArrayOff b.len
            exact hlater b hb hne hfits (by omega) hlen i hi hentry
    · rw [if_neg hmax]
      refine Or.inr ⟨rfl, fun b _ _ _ hle hlen => ?_⟩
      have hlast : freeArrayOff b.len ≤ freeArrayOff 255 :=
        freeArrayOff_mono (Nat.le_of_lt_succ hlen)
      have : freeArrayOff 255 = 204 := rfl
      rw [freeArrayOff_max] at hmax
      omega

/-- **The search in the free array** finds a block, or no block that fits is in the array. -/
theorem freeArraySearch_eq :
    (∃ i, ∃ b ∈ blocks, freeArraySearch poolsize size (2 ^ k) arr
        (freeArrayOff maxFreeCachedSize + 1) (freeArrayOff size) = some (some (i, b.off, b.len)) ∧
        IsEntry poolsize i ∧ freeEntry arr i = b.off ∧ b.off ≠ 0 ∧ b.data = none ∧
        b.Fits size k) ∨
      (freeArraySearch poolsize size (2 ^ k) arr (freeArrayOff maxFreeCachedSize + 1)
          (freeArrayOff size) = some none ∧
        ∀ b ∈ blocks, b.Fits size k → ¬ InArray poolsize arr b.off) := by
  rcases freeArraySearch_loop harr hblocks hsmall hsize hk (three_dvd_freeArrayOff size)
    (Nat.succ_pos (freeArrayOff maxFreeCachedSize)) (by omega) with hfound | ⟨hnone, hrest⟩
  · exact Or.inl hfound
  · refine Or.inr ⟨hnone, fun b hb hfits hin => ?_⟩
    obtain ⟨hne, i, hi, hentry⟩ := hin
    -- the entry is in the bucket of the block
    obtain ⟨b', hb', -, hoff, hlen, hbucket⟩ := harr.block hi (hentry ▸ hne)
    obtain rfl := hblocks.tiles.eq_of_ptr (fun x hx => hblocks.pos hx) hb' hb (hoff.trans hentry)
    have hroom := hfits.room
    exact hrest b' hb' hne hfits (freeArrayOff_mono (by omega)) hlen i hbucket hentry hi

end Search

end Shalloc.Tiny
