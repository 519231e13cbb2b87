import Shalloc.Region.Rule

/-!
# Arrays from `shalloc_calloc`

`shalloc_calloc` and `gen_memset_calloc` both multiply the number of elements by their size
modulo `2 ^ 64`. Up to the `memset`, `shalloc_calloc` is `shalloc_malloc` on that product.

## Main definitions

- `SoundMalloc` — a returned block has the bytes that were asked for
- `zeroBlock` — the `memset` after a request
- `Answered` — the calls that a request makes come back
- `CallocDelivers` — NULL or the whole array, zeroed, and what `shalloc_malloc` would have done

## Main results

- `shallocCalloc_eq` — the one is the other
- `answered_iff` — a request comes back iff they do
- `calloc_delivers_iff` — the array is delivered iff the request for what is left of the product
  comes back, and the product does not wrap or is refused
-/

namespace Shalloc

variable {α : Type} {ops : BuffAllocType → BuffOp α} {st st' : Store α} {path : List ℕ}
  {r n nmemb size : ℕ} {usable : Buff → α → ℕ → ℕ}

/-- Every block that the buffers return has the bytes that were asked for: `usable buff a p` is
the number of bytes of the block `p` in state `a` of the allocator of `buff`. -/
def SoundMalloc (ops : BuffAllocType → BuffOp α) (usable : Buff → α → ℕ → ℕ) : Prop :=
  ∀ type buff n a p a', 0 < n → n < 2 ^ 64 → (ops type).malloc buff n a = some (some p, a') →
    n ≤ usable buff a' p

/-- What `gen_memset_calloc` adds to the answer to a request for `n` bytes. -/
def zeroBlock (n : ℕ) : Option ℕ × Store α → Option ℕ × Store α
  | (some p, st) => (some p, st.log (.zero p n))
  | (none, st) => (none, st)

/-- Pointer `p` is a block of the tail with at least `n` bytes, and the last write to memory has
cleared at least `n` bytes from `p` on. -/
def ZeroedBlock (usable : Buff → α → ℕ → ℕ) (r n p : ℕ) (st : Store α) : Prop :=
  ∃ region t data len, st.regions r = some region ∧ region.dataTail = some t ∧
    st.buffs t = some data ∧ n ≤ usable data (st.cells data.start) p ∧
    st.trace.head? = some (.zero p len) ∧ n ≤ len

/-- The answer of buffer `t` to a request for `n` bytes. -/
def buffAsk (ops : BuffAllocType → BuffOp α) (n t : ℕ) (st : Store α) :
    Option (Option ℕ × Store α) := st.opMalloc ops t n

/-- A request for `n` bytes comes back. The tail buffer answers, if there is one. If it refuses,
`SHALLOC_BUFF_ALLOC_SIZE(n)` is not 0, so that `shalloc_region_grow` does not abort, the growth
comes back, and the new tail answers. -/
structure Answered (ops : BuffAllocType → BuffOp α) (path : List ℕ) (r n : ℕ) (st : Store α) :
    Prop where
  record : ∃ region, st.regions r = some region
  tail : ∀ {region t}, st.regions r = some region → region.dataTail = some t →
    ∃ a, buffAsk ops n t st = some a
  size : ∀ {st1}, TailRefuses (buffAsk ops n) r st st1 → n < hugeSize
  growth : ∀ {st1}, TailRefuses (buffAsk ops n) r st st1 →
    ∃ a, shallocRegionGrow ops (shallocMalloc ops path) r (shallocBuffAllocSize n) st1 = some a
  newTail : ∀ {st1 st2}, TailRefuses (buffAsk ops n) r st st1 →
    shallocRegionGrow ops (shallocMalloc ops path) r (shallocBuffAllocSize n) st1 =
      some (0, st2) →
    ∃ region t a, st2.regions r = some region ∧ region.dataTail = some t ∧
      buffAsk ops n t st2 = some a

/-- `shalloc_calloc` returns, with NULL or with a block of all of the `nmemb * size` bytes,
which are zero. If the product does not wrap, the pointer and the region are those of
`shalloc_malloc(region, nmemb * size)`. -/
structure CallocDelivers (ops : BuffAllocType → BuffOp α) (usable : Buff → α → ℕ → ℕ)
    (path : List ℕ) (r nmemb size : ℕ) (st : Store α) : Prop where
  returns : ∃ a, shallocCalloc ops (r :: path) nmemb size st = some a
  array : ∀ {p st'}, shallocCalloc ops (r :: path) nmemb size st = some (some p, st') →
    ZeroedBlock usable r (nmemb * size) p st'
  asMalloc : nmemb * size < 2 ^ 64 → shallocCalloc ops (r :: path) nmemb size st =
    (shallocMalloc ops (r :: path) (nmemb * size) st).map (zeroBlock (nmemb * size))

/-- `gen_memset_calloc` as a request followed by a `memset`. -/
theorem Store.opCalloc_eq (t : ℕ) (st : Store α) :
    st.opCalloc ops t nmemb size =
      (st.opMalloc ops t (Word.wrap 64 (nmemb * size))).map
        (zeroBlock (Word.wrap 64 (nmemb * size))) := by
  unfold Store.opCalloc
  rw [Nat.mul_comm size nmemb]
  cases st.opMalloc ops t (Word.wrap 64 (nmemb * size)) with
  | none => rfl
  | some a =>
    obtain ⟨p, st1⟩ := a
    cases p <;> rfl

/-- `shalloc_calloc` is `shalloc_malloc` on the product modulo `2 ^ 64`, and a `memset`. -/
theorem shallocCalloc_eq (path : List ℕ) (nmemb size : ℕ) (st : Store α) :
    shallocCalloc ops path nmemb size st =
      (shallocMalloc ops path (Word.wrap 64 (nmemb * size)) st).map
        (zeroBlock (Word.wrap 64 (nmemb * size))) := by
  cases path with
  | nil => rfl
  | cons r ancestors =>
    by_cases hzero : Word.wrap 64 (nmemb * size) = 0
    · rw [shallocCalloc, shallocMalloc, if_pos hzero, if_pos hzero]
      rfl
    · rw [shallocCalloc, shallocMalloc, if_neg hzero, if_neg hzero]
      apply shallocServe_map
      · exact fun t st => Store.opCalloc_eq t st
      · exact fun st => rfl
      · exact fun p st => rfl

/-- The block that a request returns is one of the tail, whose allocator has just issued it. -/
theorem shallocMalloc_tail {p : ℕ}
    (h : shallocMalloc ops (r :: path) n st = some (some p, st')) :
    0 < n ∧ ∃ region t data a, st'.regions r = some region ∧ region.dataTail = some t ∧
      st'.buffs t = some data ∧
      (ops data.allocType).malloc data n a = some (some p, st'.cells data.start) := by
  have hissued : ∀ {t : ℕ} {st1 : Store α} {region : Region}, st1.regions r = some region →
      region.dataTail = some t → st1.opMalloc ops t n = some (some p, st') →
      ∃ region t data a, st'.regions r = some region ∧ region.dataTail = some t ∧
        st'.buffs t = some data ∧
        (ops data.allocType).malloc data n a = some (some p, st'.cells data.start) := by
    intro t st1 region hregion ht hcall
    obtain ⟨data, a, hdata, hop, rfl⟩ := Store.opMalloc_eq_some.mp hcall
    refine ⟨region, t, data, st1.cells data.start, hregion, ht, hdata, ?_⟩
    rw [hop, Store.log_cells, Store.setCell_cells, Function.update_self]
  obtain ⟨-, hnone, -⟩ | ⟨hpos, hserve⟩ := shallocMalloc_cases h
  · exact absurd hnone (by simp)
  · refine ⟨hpos, ?_⟩
    cases hserve with
    | served hregion ht hcall => exact hissued hregion ht hcall
    | retried _ _ hregion ht hcall => exact hissued hregion ht hcall

/-- A request comes back iff the calls that it makes do. -/
theorem answered_iff (hpos : 0 < n) :
    (∃ a, shallocMalloc ops (r :: path) n st = some a) ↔
      Answered ops path r n (st.log (.request r n)) := by
  have hmalloc : shallocMalloc ops (r :: path) n st =
      shallocServe ops (shallocMalloc ops path) (buffAsk ops n) r n (st.log (.request r n)) :=
    if_neg (Nat.pos_iff_ne_zero.mp hpos)
  rw [hmalloc]
  generalize st.log (.request r n) = st0
  constructor
  · rintro ⟨a, hcall⟩
    have hgrows : ∀ {st1}, TailRefuses (buffAsk ops n) r st0 st1 → ∃ ret st2,
        shallocRegionGrow ops (shallocMalloc ops path) r (shallocBuffAllocSize n) st1 =
          some (ret, st2) := fun hrefuses => hrefuses.grows hcall
    refine ⟨?_, ?_, ?_, ?_, ?_⟩
    · obtain ⟨region, hregion, -⟩ := Option.bind_eq_some_iff.mp hcall
      exact ⟨region, hregion⟩
    · intro region t hregion ht
      cases hask : buffAsk ops n t st0 with
      | some answer => exact ⟨answer, rfl⟩
      | none =>
        rw [shallocServe_stuck hregion ht hask] at hcall
        exact absurd hcall (by simp)
    · intro st1 hrefuses
      obtain ⟨ret, st2, hgrow⟩ := hgrows hrefuses
      by_contra hhuge
      rw [(shallocBuffAllocSize_eq_zero_iff n).mpr (Or.inr (Nat.le_of_not_lt hhuge))] at hgrow
      exact absurd hgrow (by simp [shallocRegionGrow])
    · intro st1 hrefuses
      obtain ⟨ret, st2, hgrow⟩ := hgrows hrefuses
      exact ⟨_, hgrow⟩
    · intro st1 st2 hrefuses hgrow
      rw [hrefuses.serve, hgrow, Option.bind_some, if_pos rfl] at hcall
      obtain ⟨region, hregion, hcall⟩ := Option.bind_eq_some_iff.mp hcall
      obtain ⟨t, ht, hask⟩ := Option.bind_eq_some_iff.mp hcall
      exact ⟨region, t, a, hregion, ht, hask⟩
  · intro h
    have hrest : ∀ {st1}, TailRefuses (buffAsk ops n) r st0 st1 →
        ∃ a, shallocServe ops (shallocMalloc ops path) (buffAsk ops n) r n st0 = some a := by
      intro st1 hrefuses
      obtain ⟨⟨ret, st2⟩, hgrow⟩ := h.growth hrefuses
      by_cases hret : ret = 0
      · subst hret
        obtain ⟨region, t, a, hregion, ht, hask⟩ := h.newTail hrefuses hgrow
        exact ⟨a, (hrefuses.serve_grown hgrow hregion ht).trans hask⟩
      · exact ⟨_, hrefuses.serve_failed hgrow hret⟩
    obtain ⟨region, hregion⟩ := h.record
    cases ht : region.dataTail with
    | none => exact hrest (.empty hregion ht)
    | some t =>
      obtain ⟨⟨p, st1⟩, hask⟩ := h.tail hregion ht
      cases p with
      | some p => exact ⟨_, shallocServe_served hregion ht hask⟩
      | none => exact hrest (.refused hregion ht hask)

/-- The block of an array whose size does not wrap. -/
theorem SoundMalloc.zeroedBlock {p : ℕ} (hsound : SoundMalloc ops usable) (hn : n < 2 ^ 64)
    (h : shallocMalloc ops (r :: path) n st = some (some p, st')) :
    ZeroedBlock usable r n p (st'.log (.zero p n)) := by
  obtain ⟨hpos, region, t, data, a, hregion, ht, hdata, hop⟩ := shallocMalloc_tail h
  exact ⟨region, t, data, n, hregion, ht, hdata, hsound _ _ _ _ _ _ hpos hn hop, rfl, le_rfl⟩

/-- **Arrays.** Over a sound malloc, `shalloc_calloc` delivers iff the request for what is left
of the product of its arguments modulo `2 ^ 64` comes back (`shalloc_malloc` returns NULL at once
if nothing is left), and the product does not wrap or `shalloc_malloc` has no block for what is
left of it. -/
theorem calloc_delivers_iff (hsound : SoundMalloc ops usable) (path : List ℕ)
    (r nmemb size : ℕ) (st : Store α) :
    CallocDelivers ops usable path r nmemb size st ↔
      (Word.wrap 64 (nmemb * size) = 0 ∨ Answered ops path r (Word.wrap 64 (nmemb * size))
        (st.log (.request r (Word.wrap 64 (nmemb * size))))) ∧
      (nmemb * size < 2 ^ 64 ∨
        ∀ p st', shallocMalloc ops (r :: path) (Word.wrap 64 (nmemb * size)) st ≠
          some (some p, st')) := by
  have hcalloc : shallocCalloc ops (r :: path) nmemb size st =
      (shallocMalloc ops (r :: path) (Word.wrap 64 (nmemb * size)) st).map
        (zeroBlock (Word.wrap 64 (nmemb * size))) := shallocCalloc_eq (r :: path) nmemb size st
  have hreturns : (∃ a, shallocCalloc ops (r :: path) nmemb size st = some a) ↔
      (Word.wrap 64 (nmemb * size) = 0 ∨ Answered ops path r (Word.wrap 64 (nmemb * size))
        (st.log (.request r (Word.wrap 64 (nmemb * size))))) := by
    rw [hcalloc]
    rcases Nat.eq_zero_or_pos (Word.wrap 64 (nmemb * size)) with hzero | hpos
    · simp [hzero, shallocMalloc]
    · rw [← answered_iff hpos]
      simp only [Option.map_eq_some_iff, Nat.pos_iff_ne_zero.mp hpos, false_or]
      constructor
      · rintro ⟨_, a, hmalloc, -⟩
        exact ⟨a, hmalloc⟩
      · rintro ⟨a, hmalloc⟩
        exact ⟨_, a, hmalloc, rfl⟩
  constructor
  · intro hdelivers
    refine ⟨hreturns.mp hdelivers.returns, ?_⟩
    by_cases hwrap : nmemb * size < 2 ^ 64
    · exact Or.inl hwrap
    · -- the `memset` clears less than `2 ^ 64` bytes
      refine Or.inr fun p st' hmalloc => hwrap ?_
      rw [hmalloc] at hcalloc
      obtain ⟨-, -, -, len, -, -, -, -, hhead, hle⟩ := hdelivers.array hcalloc
      have hlen : Word.wrap 64 (nmemb * size) = len := by
        simpa using hhead
      exact lt_of_le_of_lt hle (hlen ▸ Word.wrap_lt 64 _)
  · rintro ⟨hanswered, hwrap | hrefused⟩
    · rw [Word.wrap_of_lt hwrap] at hcalloc
      refine ⟨hreturns.mpr hanswered, fun {p st'} hcall => ?_, fun _ => hcalloc⟩
      rw [hcall] at hcalloc
      obtain ⟨⟨q, st1⟩, hmalloc, heq⟩ := Option.map_eq_some_iff.mp hcalloc.symm
      cases q with
      | none => exact absurd (Prod.mk.inj heq).1 (by simp)
      | some q =>
        obtain ⟨hp, rfl⟩ := Prod.mk.inj heq
        obtain rfl := Option.some.inj hp
        exact hsound.zeroedBlock hwrap hmalloc
    · refine ⟨hreturns.mpr hanswered, fun {p st'} hcall => ?_, fun hwrap => ?_⟩
      · rw [hcall] at hcalloc
        obtain ⟨⟨q, st1⟩, hmalloc, heq⟩ := Option.map_eq_some_iff.mp hcalloc.symm
        cases q with
        | none => exact absurd (Prod.mk.inj heq).1 (by simp)
        | some q => exact absurd hmalloc (hrefused q st1)
      · rw [hcalloc, Word.wrap_of_lt hwrap]

/-- The table with the allocator of the heap for every type. -/
def placedOps : BuffAllocType → BuffOp (AllocState (List Extent)) :=
  fun _ => otherOp (placedOp mpliteOffset)

/-- The bytes of a block of `placedOp`. -/
def placedUsable (_buff : Buff) (a : AllocState (List Extent)) (p : ℕ) : ℕ :=
  match a with
  | .other live => ((live.find? fun e => e.ptr = p).map Extent.len).getD 0
  | _ => 0

theorem placedOps_sound : SoundMalloc placedOps placedUsable := by
  intro type buff n a p a' _ _ hcall
  cases a with
  | other live =>
    obtain ⟨⟨q, live'⟩, hplace, hres⟩ := Option.bind_eq_some_iff.mp hcall
    obtain ⟨rfl, rfl⟩ := Prod.mk.inj (Option.some.inj hres)
    simp only [placedOp] at hplace
    split at hplace
    · obtain ⟨hp, rfl⟩ := Prod.mk.inj (Option.some.inj hplace)
      obtain rfl := Option.some.inj hp
      simp [placedUsable]
    · exact absurd (Prod.mk.inj (Option.some.inj hplace)).1 (by simp)
  | _ => exact absurd hcall (by simp [placedOps, otherOp])

/-- Three elements of 40 bytes from a heap of 64 KiB. -/
theorem calloc_delivers_small : CallocDelivers placedOps placedUsable [] 4096 3 40 heapStore := by
  have hcall : ∃ a, shallocMalloc placedOps [4096] (Word.wrap 64 (3 * 40)) heapStore = some a :=
    ⟨_, rfl⟩
  exact (calloc_delivers_iff placedOps_sound [] 4096 3 40 heapStore).mpr
    ⟨Or.inr ((answered_iff (by decide)).mp hcall), Or.inl (by decide)⟩

/-- A product that does not wrap, but whose growth has size 0 in `shalloc_region_grow`. -/
example : shallocCalloc placedOps [4096] (2 ^ 32) (2 ^ 31) heapStore = none := by decide +kernel

/-- A product of 40 bytes more than `2 ^ 64` is served with a block of 40 bytes. -/
theorem not_calloc_delivers :
    ¬ ∀ nmemb size, nmemb < 2 ^ 64 → size < 2 ^ 64 →
      CallocDelivers placedOps placedUsable [] 4096 nmemb size heapStore := by
  intro h
  have hcall : (shallocCalloc placedOps [4096] (2 ^ 63 + 20) 2 heapStore).map (fun a =>
      (a.1, a.2.trace.head?)) = some (some 72408, some (.zero 72408 40)) := by decide +kernel
  obtain ⟨⟨p, st'⟩, hcall, heq⟩ := Option.map_eq_some_iff.mp hcall
  obtain ⟨rfl, hhead⟩ := Prod.mk.inj heq
  obtain ⟨-, -, -, len, -, -, -, -, hhead', hle⟩ :=
    (h (2 ^ 63 + 20) 2 (by decide) (by decide)).array hcall
  have hlen : 40 = len := by
    rw [hhead'] at hhead
    simpa using hhead.symm
  omega

end Shalloc
