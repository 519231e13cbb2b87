import Shalloc.Tiny.FreeArray

/-!
# The calls on a pool

What each function does to the blocks and to the free array. A block that is taken is split in
two or taken whole, and the data end up at its far end. No call writes to the data of a block
in use.

## Main definitions

- `PoolOk` — blocks that tile the pool, and a free array that tells the truth of them

## Main results

- `tinyAllocInit_eq`, `tinyAllocGet_eq`, `tinyAllocFree_eq` — the calls
-/

namespace Shalloc.Tiny

open Cells

/-- The pool, with the blocks in it. -/
structure PoolOk (poolsize : ℕ) (blocks : List Block) (arr : Pool) : Prop where
  tiles : BlocksOk poolsize blocks arr
  array : FreeArrayOk poolsize blocks arr
  nonempty : blocks ≠ []

variable {poolsize size k fuel off len p : ℕ} {arr arr' : Pool} {b : Block}
  {blocks l r : List Block} {coalesced : Bool} {e : Extent}

/-- Only the bytes behind the free array count. -/
theorem BlocksOk.congr (h : BlocksOk poolsize blocks arr)
    (heq : ∀ a, freeArraySize poolsize ≤ a → arr' a = arr a) : BlocksOk poolsize blocks arr' :=
  ⟨h.tiles, fun b hb => (h.ok b hb).congr fun a h1 _ _ =>
    heq a (Nat.le_trans (h.tiles.within hb).1 h1)⟩

section Walk

/-- One round of the walk. -/
theorem walk_succ (align : ℕ) : walk poolsize size align coalesced (fuel + 1) off arr =
    (decode arr off).bind fun header =>
      (if header.free then longEnough off header.len size align else some false).bind fun fits =>
        if fits then some (some (off, header.len), arr)
        else
          (if header.free && coalesced then addToFreeArray poolsize header.len off arr
            else some arr).bind fun arr =>
              if off + header.len = poolsize then some (none, arr)
              else walk poolsize size align coalesced fuel (off + header.len) arr := by
  rw [walk]
  simp only [Option.bind_eq_bind]
  congr 1
  funext header
  cases header.free <;> cases coalesced <;> simp

variable (hsmall : poolsize < 2 ^ 24) (hsize : size < 2 ^ 63) (hk : k < 64)
include hsmall hsize hk

/-- **The walk** finds the first block that serves the request. -/
theorem walk_eq (coalesced : Bool) (fuel : ℕ) (hblocks : BlocksOk poolsize blocks arr)
    (harr : FreeArrayOk poolsize blocks arr) (hsub : ∀ x ∈ l, x ∈ blocks)
    (htiles : Tiles Block.extent off poolsize l) (hne : l ≠ [])
    (hin : coalesced = true → ∀ o, InArray poolsize arr o → o < off) (hfuel : l.length ≤ fuel) :
    ∃ arr', walk poolsize size (2 ^ k) coalesced fuel off arr =
        some ((l.find? (Block.serves size k)).map fun b => (b.off, b.len), arr') ∧
      FreeArrayOk poolsize blocks arr' ∧
      (∀ a, freeArraySize poolsize ≤ a → arr' a = arr a) ∧
      (coalesced = false → arr' = arr) ∧
      (coalesced = true → ∀ b, l.find? (Block.serves size k) = some b →
        ¬ InArray poolsize arr' b.off) := by
  induction l generalizing off arr fuel with
  | nil => exact absurd rfl hne
  | cons b l ih =>
    obtain ⟨fuel, rfl⟩ : ∃ fuel', fuel = fuel' + 1 := ⟨fuel - 1, by
      rw [List.length_cons] at hfuel
      omega⟩
    obtain ⟨hoff, hl⟩ := htiles
    have hb := hsub b List.mem_cons_self
    have hwithin := (hblocks.tiles.within hb).2
    rw [Block.extent_ptr] at hoff
    rw [Block.extent_len] at hl
    rw [Block.extent_ptr, Block.extent_len] at hwithin
    subst hoff
    have hserves : (if b.free = true then longEnough b.off b.len size (2 ^ k) else some false) =
        some (b.serves size k) := by
      rw [longEnough_eq (hblocks.pos hb) (by omega) hsize hk, Block.serves]
      cases b.free <;> rfl
    rw [walk_succ, (hblocks.ok b hb).decode (hblocks.len_lt hsmall hb), Option.bind_some]
    dsimp only
    rw [hserves, Option.bind_some, List.find?_cons]
    cases hfits : b.serves size k with
    | true =>
      refine ⟨arr, rfl, harr, fun _ _ => rfl, fun _ => rfl, fun hc b' hb' hin' => ?_⟩
      obtain rfl := Option.some.inj hb'
      exact Nat.lt_irrefl _ (hin hc _ hin')
    | false =>
      rw [if_neg Bool.false_ne_true]
      -- the free array is filled as the walk goes on
      obtain ⟨arr1, hadd, harr1, hframe1, hsame1, hin1⟩ : ∃ arr1,
          (if (b.free && coalesced) = true then addToFreeArray poolsize b.len b.off arr
            else some arr) = some arr1 ∧ FreeArrayOk poolsize blocks arr1 ∧
          (∀ a, freeArraySize poolsize ≤ a → arr1 a = arr a) ∧
          (coalesced = false → arr1 = arr) ∧
          (coalesced = true → ∀ o, InArray poolsize arr1 o → o < b.off + b.len) := by
        by_cases hboth : (b.free && coalesced) = true
        · rw [if_pos hboth]
          rw [Bool.and_eq_true, Block.free_iff] at hboth
          obtain ⟨arr1, hadd, hadded⟩ := addToFreeArray_eq harr hb hboth.1 (by omega)
            fun hmem => Nat.lt_irrefl _ (hin hboth.2 _ hmem)
          have hpos := hblocks.pos hb
          rw [Block.extent_len] at hpos
          refine ⟨arr1, hadd, hadded.ok, hadded.frame, ?_, fun hc o ho => ?_⟩
          · simp [hboth.2]
          · rcases hadded.inArray o ho with ho | rfl
            · exact Nat.lt_of_lt_of_le (hin hc o ho) (Nat.le_add_right _ _)
            · omega
        · rw [if_neg hboth]
          exact ⟨arr, rfl, harr, fun _ _ => rfl, fun _ => rfl, fun hc o ho =>
            Nat.lt_of_lt_of_le (hin hc o ho) (Nat.le_add_right _ _)⟩
      rw [hadd, Option.bind_some]
      cases l with
      | nil =>
        rw [if_pos (Tiles.tiles_nil.mp hl)]
        exact ⟨arr1, rfl, harr1, hframe1, hsame1, fun _ b' hb' => absurd hb' (by simp)⟩
      | cons c l =>
        have hc := (hblocks.pos (hsub c (by simp)))
        have hcle := (hl.within List.mem_cons_self).2
        have hcoff := hl.1
        rw [Block.extent_ptr] at hcoff
        rw [Block.extent_ptr, Block.extent_len] at hcle
        rw [Block.extent_len] at hc
        rw [if_neg (by omega)]
        obtain ⟨arr', hwalk, harr', hframe', hsame', hin'⟩ := ih fuel
          (hblocks.congr hframe1) harr1 (fun x hx => hsub x (List.mem_cons_of_mem _ hx)) hl
          (by simp) hin1 (by simpa using hfuel)
        exact ⟨arr', hwalk, harr', fun a ha => (hframe' a ha).trans (hframe1 a ha),
          fun hc => (hsame' hc).trans (hsame1 hc), hin'⟩

end Walk

section FindFree

/-- The blocks and the pool after the search for a free block. -/
structure FindFree (poolsize size k : ℕ) (blocks : List Block) (arr : Pool)
    (found : Option (ℕ × ℕ)) (blocks' : List Block) (arr' : Pool) : Prop where
  pool : PoolOk poolsize blocks' arr'
  live : liveData blocks' = liveData blocks
  frame : ∀ a, freeArraySize poolsize ≤ a →
    (∀ x ∈ blocks, x.data = none → a < x.off ∨ x.off + x.len ≤ a) → arr' a = arr a
  served : ∀ off len, found = some (off, len) → ∃ b ∈ blocks', b.off = off ∧ b.len = len ∧
    b.serves size k = true ∧ ¬ InArray poolsize arr' off
  refused : found = none ↔ ∀ b ∈ blocks ++ coalesce blocks, b.serves size k = false
  joined : found = none → blocks' = coalesce blocks

theorem liveData_coalesce : ∀ blocks : List Block, liveData (coalesce blocks) = liveData blocks
  | [] => rfl
  | b :: l => liveData_coalesceFrom l b

theorem coalesce_ne_nil : ∀ {blocks : List Block}, blocks ≠ [] → coalesce blocks ≠ []
  | [], h => absurd rfl h
  | b :: l, _ => by
    obtain ⟨c, m, hc, -⟩ := coalesceFrom_head l b
    rw [coalesce, hc]
    exact List.cons_ne_nil c m

/-- A search that ends at a block of the pool. -/
theorem FindFree.of_mem {blocks' : List Block} (hpool : PoolOk poolsize blocks' arr')
    (hblocks : blocks' = blocks ∨ blocks' = coalesce blocks)
    (hframe : ∀ a, freeArraySize poolsize ≤ a →
      (∀ x ∈ blocks, x.data = none → a < x.off ∨ x.off + x.len ≤ a) → arr' a = arr a)
    (hb : b ∈ blocks') (hserves : b.serves size k = true) (hout : ¬ InArray poolsize arr' b.off) :
    FindFree poolsize size k blocks arr (some (b.off, b.len)) blocks' arr' where
  pool := hpool
  live := by
    rcases hblocks with rfl | rfl
    · rfl
    · exact liveData_coalesce blocks
  frame := hframe
  served off len h := by
    obtain ⟨rfl, rfl⟩ := Prod.mk.inj (Option.some.inj h)
    exact ⟨b, hb, rfl, rfl, hserves, hout⟩
  refused := by
    refine ⟨fun h => absurd h (by simp), fun h => ?_⟩
    have hmem : b ∈ blocks ++ coalesce blocks := by
      rcases hblocks with rfl | rfl
      · exact List.mem_append_left _ hb
      · exact List.mem_append_right _ hb
    rw [h b hmem] at hserves
    exact absurd hserves Bool.false_ne_true
  joined h := absurd h (by simp)

/-- A search that ends at no block, in a pool whose blocks have been joined. -/
theorem FindFree.of_none (hpool : PoolOk poolsize (coalesce blocks) arr')
    (hframe : ∀ a, freeArraySize poolsize ≤ a →
      (∀ x ∈ blocks, x.data = none → a < x.off ∨ x.off + x.len ≤ a) → arr' a = arr a)
    (hnone : ∀ b ∈ blocks, b.serves size k = false)
    (hnone' : ∀ b ∈ coalesce blocks, b.serves size k = false) :
    FindFree poolsize size k blocks arr none (coalesce blocks) arr' where
  pool := hpool
  live := liveData_coalesce blocks
  frame := hframe
  served off len h := absurd h (by simp)
  refused := ⟨fun _ b hb => (List.mem_append.mp hb).elim (hnone b) (hnone' b), fun _ => rfl⟩
  joined _ := rfl

variable (hsmall : poolsize < 2 ^ 24) (hsize : size < 2 ^ 63) (hk : k < 64)
include hsmall hsize hk

/-- **The search for a free block**: in the free array, through the pool, and once more through
the pool with free blocks joined. -/
theorem findFree_eq (h : PoolOk poolsize blocks arr) :
    ∃ found blocks' arr', findFree poolsize size (2 ^ k) arr = some (found, arr') ∧
      FindFree poolsize size k blocks arr found blocks' arr' := by
  have hlength := h.tiles.length_le
  rcases freeArraySearch_eq h.array h.tiles hsmall hsize hk with
    ⟨i, b, hb, hsearch, hi, hentry, hne, hdata, hfits⟩ | ⟨hsearch, hout⟩
  · -- an entry of the free array
    obtain ⟨harr, hgone⟩ := h.array.remove hi (hentry ▸ hne)
    have hframe : ∀ a, freeArraySize poolsize ≤ a → memset arr i 0 3 a = arr a := fun a ha =>
      memset_outside (Or.inr (by have := hi.2; omega))
    refine ⟨_, blocks, memset arr i 0 3, ?_, .of_mem ⟨h.tiles.congr hframe, harr, h.nonempty⟩
      (Or.inl rfl) (fun a ha _ => hframe a ha) hb (Block.serves_iff.mpr ⟨hdata, hfits⟩)
      (hentry ▸ hgone)⟩
    simp [findFree, hsearch]
  · obtain ⟨arr1, hwalk, -, -, hsame, -⟩ := walk_eq hsmall hsize hk false poolsize
      h.tiles h.array (fun _ hx => hx) h.tiles.tiles h.nonempty
      (by simp) (by omega)
    obtain rfl := hsame rfl
    cases hfind : blocks.find? (Block.serves size k) with
    | some b =>
      -- a block of the pool
      have hserves := List.find?_some hfind
      have hb := List.mem_of_find?_eq_some hfind
      refine ⟨_, blocks, arr1, ?_, .of_mem h (Or.inl rfl) (fun _ _ _ => rfl) hb hserves
        (hout b hb (Block.serves_iff.mp hserves).2)⟩
      simp [findFree, hsearch, hwalk, hfind]
    | none =>
      have hnone : ∀ b ∈ blocks, b.serves size k = false := fun b hb =>
        Bool.eq_false_iff.mpr (List.find?_eq_none.mp hfind b hb)
      obtain ⟨merged, arr2, hcoalesce, htiles, hframe, hzero, hkeep⟩ :=
        tryCoalesce_eq h.tiles hsmall h.nonempty
      cases merged with
      | false =>
        obtain ⟨rfl, hblocks⟩ := hkeep rfl
        refine ⟨none, coalesce blocks, arr2, ?_,
          .of_none (hblocks.symm ▸ h) hframe hnone (hblocks.symm ▸ hnone)⟩
        simp [findFree, hsearch, hwalk, hfind, hcoalesce]
      | true =>
        -- the second walk, over the joined blocks
        have hempty : ∀ o, ¬ InArray poolsize arr2 o := fun o => not_inArray_of_zero (hzero rfl)
        have hlength' := htiles.length_le
        obtain ⟨arr3, hwalk', harr3, hframe3, -, hout3⟩ := walk_eq hsmall hsize hk true
          poolsize htiles
          (FreeArrayOk.of_zero (hzero rfl)) (fun _ hx => hx) htiles.tiles
          (coalesce_ne_nil h.nonempty) (fun _ o ho => absurd ho (hempty o)) (by omega)
        have hpool3 : PoolOk poolsize (coalesce blocks) arr3 :=
          ⟨htiles.congr hframe3, harr3, coalesce_ne_nil h.nonempty⟩
        have hframe' := fun a ha hx => (hframe3 a ha).trans (hframe a ha hx)
        cases hfind' : (coalesce blocks).find? (Block.serves size k) with
        | some b =>
          refine ⟨_, coalesce blocks, arr3, ?_, .of_mem hpool3 (Or.inr rfl) hframe'
            (List.mem_of_find?_eq_some hfind') (List.find?_some hfind') (hout3 rfl b hfind')⟩
          simp [findFree, hsearch, hwalk, hfind, hcoalesce, hwalk', hfind']
        | none =>
          refine ⟨none, coalesce blocks, arr3, ?_, .of_none hpool3 hframe' hnone fun b hb =>
            Bool.eq_false_iff.mpr (List.find?_eq_none.mp hfind' b hb)⟩
          simp [findFree, hsearch, hwalk, hfind, hcoalesce, hwalk', hfind']

end FindFree

section TakeFarEnd

/-- The place of the data at the far end of a block, and the header before them. -/
theorem Block.Fits.place (h : b.Fits size k) (hend : b.off + b.len < 2 ^ 24) (hpos : 0 < size)
    (hk : k < 64) : ∃ actual hdrlen,
      Word.sub 64 (b.off + b.len) size &&& alignMask (2 ^ k) = actual ∧
      encodeLenWithHeader (Word.sub 64 (b.off + b.len) actual) = some hdrlen ∧ 2 ^ k ∣ actual ∧
      actual + size ≤ b.off + b.len ∧ b.off + headerLen b.len ≤ actual ∧ hdrlen ≤ headerLen b.len ∧
      encodeLength (b.off + b.len - actual + hdrlen - minBlockSize) = hdrlen := by
  have hpow := Nat.two_pow_pos k
  have hstart : b.off + headerLen b.len ≤ Word.roundUp (b.off + headerLen b.len) (2 ^ k) :=
    Word.le_roundUp hpow
  obtain ⟨c, hc⟩ := Word.dvd_roundUp (b.off + headerLen b.len) (2 ^ k)
  unfold Block.Fits at h
  have hle : Word.roundUp (b.off + headerLen b.len) (2 ^ k) ≤
      (b.off + b.len - size) / 2 ^ k * 2 ^ k := by
    have hdiv : c ≤ (b.off + b.len - size) / 2 ^ k := by
      rw [Nat.le_div_iff_mul_le hpow, Nat.mul_comm]
      omega
    rw [hc, Nat.mul_comm]
    exact Nat.mul_le_mul_right _ hdiv
  have hactual := Nat.div_mul_le_self (b.off + b.len - size) (2 ^ k)
  have hmono : headerLen (b.off + b.len - (b.off + b.len - size) / 2 ^ k * 2 ^ k) ≤
      headerLen b.len := headerLen_mono (by omega) (by omega) (by omega)
  refine ⟨(b.off + b.len - size) / 2 ^ k * 2 ^ k, _, ?_, ?_, Nat.dvd_mul_left _ _, by omega,
    by omega, hmono, encodeLength_headerLen (by omega) (by omega)⟩
  · rw [Word.sub_of_le (by omega) (by omega), alignMask_two_pow hk,
      Word.land_lnot_two_pow (by omega)]
  · rw [Word.sub_of_le (by omega) (by omega)]
    exact encodeLenWithHeader_eq (by omega) (by omega)

/-- The blocks that a free block is split into: what is left in front, and the one with the
data. -/
structure TakeFarEnd (poolsize size k : ℕ) (b : Block) (l r : List Block) (arr : Pool)
    (actual : ℕ) (new : List Block) (arr' : Pool) : Prop where
  aligned : 2 ^ k ∣ actual
  pool : PoolOk poolsize (l ++ new ++ r) arr'
  live : liveData new = [⟨actual, size⟩]
  frame : ∀ a, freeArraySize poolsize ≤ a → (a < b.off ∨ b.off + b.len ≤ a) → arr' a = arr a

/-- Zero bytes and a header before the data. -/
theorem blockOk_used (arr : Pool) {hdr actual stop : ℕ} (hhdr : hdr ≤ actual)
    (hsize : actual + size ≤ stop) (hpos : 0 < size) (h2 : minBlockSize ≤ stop - hdr)
    (hbody : hdr + encodeLength (stop - hdr - minBlockSize) ≤ actual)
    (hone : actual ≤ hdr + encodeLength (stop - hdr - minBlockSize) + 1) :
    BlockOk (put (memset arr hdr 0 (actual - hdr)) hdr (headerBytes (stop - hdr) false))
      ⟨hdr, stop - hdr, some ⟨actual, size⟩⟩ := by
  refine ⟨h2, holds_put, fun e he => ?_⟩
  obtain rfl := Option.some.inj he
  refine ⟨hbody, hone, hpos, ?_, fun a h1 h2 => ?_⟩
  · simp only
    omega
  · rw [put_of_le (by rw [headerBytes_length]; exact h1)]
    exact memset_inside (Nat.le_trans (Nat.le_add_right _ _) h1) (by simp only at h2; omega)

/-- What lies outside the block is as before. -/
theorem used_frame (arr : Pool) {hdr actual stop a : ℕ} (hstop : actual ≤ stop)
    (hbody : hdr + encodeLength (stop - hdr - minBlockSize) ≤ actual)
    (ha : a < hdr ∨ stop ≤ a) :
    put (memset arr hdr 0 (actual - hdr)) hdr (headerBytes (stop - hdr) false) a = arr a := by
  rw [put_of_outside (by rw [headerBytes_length]; omega)]
  exact memset_outside (by omega)

/-- **`found`**: the data are placed at the far end of the block. -/
theorem takeFarEnd_eq (hsmall : poolsize < 2 ^ 24) (hk : k < 64) (hpos : 0 < size)
    (h : PoolOk poolsize (l ++ [b] ++ r) arr) (hserves : b.serves size k = true)
    (hout : ¬ InArray poolsize arr b.off) : ∃ actual new arr',
      takeFarEnd poolsize size (2 ^ k) b.off b.len arr = some (actual, arr') ∧
      TakeFarEnd poolsize size k b l r arr actual new arr' := by
  obtain ⟨hdata, hfits⟩ := Block.serves_iff.mp hserves
  have hb : b ∈ l ++ [b] ++ r := by simp
  obtain ⟨hlo, hhi⟩ := h.tiles.tiles.within hb
  rw [Block.extent_ptr] at hlo hhi
  rw [Block.extent_len] at hhi
  obtain ⟨actual, hdrlen, hactual, hhdrlen, haligned, hroom, hlongest, hmono, hfix⟩ :=
    hfits.place (by omega) hpos hk
  have hstart : b.off + hdrlen ≤ actual := by omega
  have hdrpos : 1 ≤ hdrlen := hfix ▸ encodeLength_pos
  -- the other blocks are not touched, and no free block is lost but this one
  have harray : ∀ {new : List Block} {arr1 : Pool}, (∀ a < freeArraySize poolsize, arr1 a = arr a) →
      FreeArrayOk poolsize (l ++ new ++ r) arr1 := by
    intro new arr1 heq
    refine h.array.congr heq fun x hx _ hin => ?_
    have hne : x ≠ b := by
      rintro rfl
      exact hout hin
    simp only [List.mem_append, List.mem_singleton] at hx ⊢
    tauto
  have hsub1 : Word.sub 64 actual hdrlen = actual - hdrlen := Word.sub_of_le (by omega) (by omega)
  have hsub2 : Word.sub 64 (actual - hdrlen) b.off = actual - hdrlen - b.off :=
    Word.sub_of_le (by omega) (by omega)
  rw [takeFarEnd]
  simp only [hactual, hhdrlen, hsub1, hsub2, Option.bind_eq_bind, Option.bind_some]
  by_cases hsplit : minBlockSize ≤ actual - hdrlen - b.off
  · -- a free block is left in front
    have hbody : actual - hdrlen + encodeLength (b.off + b.len - (actual - hdrlen) - minBlockSize) =
        actual := by
      rw [show b.off + b.len - (actual - hdrlen) = b.off + b.len - actual + hdrlen by omega, hfix]
      omega
    let front : Block := ⟨b.off, actual - hdrlen - b.off, none⟩
    let used : Block := ⟨actual - hdrlen, b.off + b.len - (actual - hdrlen), some ⟨actual, size⟩⟩
    let arr1 := put arr b.off (headerBytes (actual - hdrlen - b.off) true)
    have hfrontBody := body_lt (b := front) hsplit
    have hframe1 : ∀ a, (a < b.off ∨ actual - hdrlen ≤ a) → arr1 a = arr a := by
      intro a ha
      refine put_of_outside (ha.imp_right fun h => ?_)
      rw [headerBytes_length]
      simp only [Block.body, front] at hfrontBody
      omega
    have hnew : Tiles Block.extent b.off (b.off + b.len) [front, used] := by
      simp only [Tiles.tiles_cons, Tiles.tiles_nil, Block.extent_ptr, Block.extent_len, front, used,
        true_and]
      omega
    have harray1 : FreeArrayOk poolsize (l ++ [front, used] ++ r) arr1 :=
      harray fun a ha => hframe1 a (by omega)
    have hmem : front ∈ l ++ [front, used] ++ r := by simp
    obtain ⟨arr2, hadd, hadded⟩ := addToFreeArray_eq harray1 hmem rfl (by simp only [front]; omega)
      fun hin => hout (hin.congr fun a ha => (hframe1 a (by omega)).symm)
    let arr4 := put (memset arr2 (actual - hdrlen) 0 (actual - (actual - hdrlen)))
      (actual - hdrlen) (headerBytes (b.off + b.len - (actual - hdrlen)) false)
    have hframe4 : ∀ a, (a < actual - hdrlen ∨ b.off + b.len ≤ a) → arr4 a = arr2 a := fun a ha =>
      used_frame arr2 (by omega) (Nat.le_of_eq hbody) ha
    have hframe : ∀ a, freeArraySize poolsize ≤ a → (a < actual - hdrlen ∨ b.off + b.len ≤ a) →
        arr4 a = arr1 a := fun a ha hout => (hframe4 a hout).trans (hadded.frame a ha)
    have hfront : BlockOk arr4 front := by
      have hok : BlockOk arr1 front := ⟨hsplit, holds_put, fun e he => absurd he (by simp [front])⟩
      refine hok.congr fun a h1 h2 _ => hframe a (Nat.le_trans hlo h1) (Or.inl ?_)
      simp only [front] at h2
      omega
    have hused : BlockOk arr4 used := blockOk_used arr2 (by omega) hroom hpos
      (by unfold minBlockSize; omega) (Nat.le_of_eq hbody) (by omega)
    refine ⟨actual, [front, used], arr4, ?_, haligned, ⟨h.tiles.replace hnew ?_ ?_, ?_, by simp⟩,
      rfl, ?_⟩
    · have hsub3 : Word.sub 64 (b.off + b.len) (actual - hdrlen) =
          b.off + b.len - (actual - hdrlen) := Word.sub_of_le (by omega) (by omega)
      have hsub4 : Word.sub 64 actual (actual - hdrlen) = actual - (actual - hdrlen) :=
        Word.sub_of_le (by omega) (by omega)
      rw [if_pos hsplit, encode_eq hsplit (by omega), Option.bind_some]
      simp only [front] at hadd
      rw [hadd, Option.bind_some, hsub3, hsub4,
        encode_eq (by unfold minBlockSize; omega) (by omega)]
      rfl
    · intro x hx
      rcases List.mem_cons.mp hx with rfl | hx
      · exact hfront
      · exact List.mem_singleton.mp hx ▸ hused
    · exact fun a ha hout => (hframe a ha (by omega)).trans (hframe1 a (by omega))
    · exact hadded.ok.congr (fun a ha => hframe4 a (by omega)) fun x hx _ _ => hx
    · exact fun a ha hout => (hframe a ha (by omega)).trans (hframe1 a (by omega))
  · -- the block is taken whole
    have hlen2 := (h.tiles.ok b hb).two_le
    have hstop : b.off + b.len - b.off = b.len := Nat.add_sub_cancel_left _ _
    have hge : hdrlen ≤ encodeLength (b.len - minBlockSize) := by
      rw [← hfix]
      exact encodeLength_mono (by omega)
    have hbody : b.off + encodeLength (b.len - minBlockSize) ≤ actual := by
      have hle : encodeLength (b.len - minBlockSize) ≤ headerLen b.len :=
        encodeLength_le_headerLen (by omega) (by omega)
      omega
    let used : Block := ⟨b.off, b.len, some ⟨actual, size⟩⟩
    let arr1 := put (memset arr b.off 0 (actual - b.off)) b.off (headerBytes b.len false)
    have hframe : ∀ a, (a < b.off ∨ b.off + b.len ≤ a) → arr1 a = arr a := by
      intro a ha
      have hend : actual ≤ b.off + b.len := by omega
      have hused := used_frame arr hend (by rwa [hstop]) ha
      rwa [hstop] at hused
    have hused : BlockOk arr1 used := by
      have hle : b.off ≤ actual := by omega
      have hused := blockOk_used arr hle hroom hpos (by rwa [hstop]) (by rwa [hstop])
        (by rw [hstop]; unfold minBlockSize at hsplit; omega)
      rwa [hstop] at hused
    refine ⟨actual, [used], arr1, ?_, haligned, ⟨h.tiles.replace ?_ ?_ fun a _ => hframe a,
      harray fun a ha => hframe a (by omega), by simp⟩, rfl, fun a _ => hframe a⟩
    · have hsub3 : Word.sub 64 (b.off + b.len) b.off = b.len := by
        rw [Word.sub_of_le (by omega) (by omega), hstop]
      have hsub4 : Word.sub 64 actual b.off = actual - b.off := Word.sub_of_le (by omega) (by omega)
      rw [if_neg hsplit, hsub3, hsub4, encode_eq hlen2 (by omega)]
      rfl
    · exact ⟨rfl, rfl⟩
    · exact fun x hx => List.mem_singleton.mp hx ▸ hused

end TakeFarEnd

section Calls

/-- The bytes of the data are the same in both pools. -/
def SameData (e : Extent) (arr arr' : Pool) : Prop :=
  ∀ a, e.ptr ≤ a → a < e.ptr + e.len → arr' a = arr a

/-- The bytes that a request is served with: at least one. -/
def askedSize (size : ℕ) : ℕ := if size = 0 then 1 else size

theorem askedSize_pos (size : ℕ) : 0 < askedSize size := by
  unfold askedSize
  split <;> omega

/-- Data lie behind the free array and outside the free blocks. -/
theorem BlocksOk.live_outside (h : BlocksOk poolsize blocks arr) {x : Block} {a : ℕ}
    (he : e ∈ liveData blocks) (hx : x ∈ blocks) (hdata : x.data = none) (h1 : e.ptr ≤ a)
    (h2 : a < e.ptr + e.len) : a < x.off ∨ x.off + x.len ≤ a := by
  obtain ⟨b, hb, hbdata⟩ := List.mem_filterMap.mp he
  obtain ⟨hbody, -, -, hend, -⟩ := (h.ok b hb).data e hbdata
  unfold Block.body at hbody
  rcases h.tiles.eq_or_apart hb hx with rfl | hapart
  · rw [hbdata] at hdata
    cases hdata
  · simp only [Extent.Disjoint, Block.extent_ptr, Block.extent_len] at hapart
    omega

theorem liveData_append (l r : List Block) : liveData (l ++ r) = liveData l ++ liveData r :=
  List.filterMap_append

/-- A pool has room for two bytes at least. -/
theorem PoolOk.two_le (h : PoolOk poolsize blocks arr) : minBlockSize ≤ poolsize := by
  have := h.tiles.length_le
  have := List.length_pos_iff.mpr h.nonempty
  unfold minBlockSize
  omega

/-- **`tiny_alloc_init`** makes one free block. -/
theorem tinyAllocInit_eq (hsmall : poolsize < 2 ^ 24) (h2 : minBlockSize ≤ poolsize) (pool : Pool) :
    ∃ arr, tinyAllocInit poolsize pool = some arr ∧ PoolOk poolsize
      [⟨freeArraySize poolsize, poolsize - freeArraySize poolsize, none⟩] arr := by
  have hroom : freeArraySize poolsize + minBlockSize ≤ poolsize := by
    unfold minBlockSize at h2 ⊢
    unfold freeArraySize
    omega
  have h2' : minBlockSize ≤ poolsize - freeArraySize poolsize := by omega
  rw [tinyAllocInit, if_neg (Nat.not_lt_of_le h2), encode_eq h2' (by omega)]
  refine ⟨_, rfl, ⟨⟨rfl, ?_⟩, fun b hb => ?_⟩, FreeArrayOk.of_zero fun a ha => ?_, by simp⟩
  · simp only [Tiles.tiles_nil, Block.extent_len]
    omega
  · obtain rfl := List.mem_singleton.mp hb
    exact ⟨h2', holds_put, fun e he => absurd he (by simp)⟩
  · exact (put_of_lt ha).trans (memset_inside (Nat.zero_le a) (by omega))

/-- What a request leaves behind. -/
structure TinyGet (poolsize n k : ℕ) (blocks : List Block) (arr : Pool) (p : Option ℕ)
    (blocks' : List Block) (arr' : Pool) : Prop where
  pool : PoolOk poolsize blocks' arr'
  kept : ∀ e ∈ liveData blocks, SameData e arr arr'
  served : ∀ q, p = some q →
    2 ^ k ∣ q ∧ (liveData blocks').Perm (⟨q, askedSize n⟩ :: liveData blocks)
  refused : p = none ↔ ∀ b ∈ blocks ++ coalesce blocks, b.serves (askedSize n) k = false
  joined : p = none → blocks' = coalesce blocks

/-- **`tiny_alloc_get`**: the request is served by a new block with data, or refused because no
free block is large enough, joined or not. -/
theorem tinyAllocGet_eq {n : ℕ} (hsmall : poolsize < 2 ^ 24) (hn : n < 2 ^ 63) (hk : k < 64)
    (h : PoolOk poolsize blocks arr) : ∃ p blocks' arr',
      tinyAllocGet poolsize n (2 ^ k) arr = some (p, arr') ∧
      TinyGet poolsize n k blocks arr p blocks' arr' := by
  have hsize : askedSize n < 2 ^ 63 := by
    unfold askedSize
    split <;> omega
  obtain ⟨found, blocks1, arr1, hfind, hfound⟩ := findFree_eq hsmall hsize hk h
  have hkept1 : ∀ e ∈ liveData blocks, SameData e arr arr1 := by
    intro e he a h1 h2
    have := (h.tiles.live_within he).1
    exact hfound.frame a (by omega) fun x hx hdata => h.tiles.live_outside he hx hdata h1 h2
  have hcall : tinyAllocGet poolsize n (2 ^ k) arr = found.elim (some (none, arr1)) fun block =>
      (takeFarEnd poolsize (askedSize n) (2 ^ k) block.1 block.2 arr1).map
        fun a => (some a.1, a.2) := by
    rw [tinyAllocGet, if_neg (Nat.not_lt_of_le h.two_le)]
    simp only [Option.bind_eq_bind]
    rw [show (if n = 0 then 1 else n) = askedSize n from rfl, hfind, Option.bind_some]
    rcases found with _ | ⟨off, len⟩
    · rfl
    · simp only [Option.elim_some]
      cases takeFarEnd poolsize (askedSize n) (2 ^ k) off len arr1 <;> rfl
  rcases found with _ | ⟨off, len⟩
  · exact ⟨none, blocks1, arr1, hcall, hfound.pool, hkept1, fun q hq => absurd hq (by simp),
      ⟨fun _ => hfound.refused.mp rfl, fun _ => rfl⟩, fun _ => hfound.joined rfl⟩
  · obtain ⟨b, hb, rfl, rfl, hserves, hout⟩ := hfound.served off len rfl
    obtain ⟨l, r, hsplit⟩ := List.append_of_mem hb
    rw [← List.singleton_append, ← List.append_assoc] at hsplit
    subst hsplit
    obtain ⟨actual, new, arr2, htake, htaken⟩ :=
      takeFarEnd_eq hsmall hk (askedSize_pos n) hfound.pool hserves hout
    have hdata := (Block.serves_iff.mp hserves).1
    refine ⟨some actual, l ++ new ++ r, arr2, ?_, htaken.pool, ?_, ?_, ?_,
      fun hno => absurd hno (by simp)⟩
    · rw [hcall, Option.elim_some, htake]
      rfl
    · intro e he a h1 h2
      have hlow := (h.tiles.live_within he).1
      rw [← hfound.live] at he
      have hapart := hfound.pool.tiles.live_outside he hb hdata h1 h2
      exact (htaken.frame a (by omega) hapart).trans (hkept1 e (hfound.live ▸ he) a h1 h2)
    · rintro q hq
      obtain rfl := Option.some.inj hq
      refine ⟨htaken.aligned, ?_⟩
      have hlive := hfound.live
      have hfree : liveData [b] = [] := by simp [liveData, hdata]
      rw [liveData_append, liveData_append, hfree, List.append_nil] at hlive
      rw [← hlive, liveData_append, liveData_append, htaken.live, List.append_assoc]
      exact List.perm_middle
    · exact ⟨fun hno => absurd hno (by simp), fun hall =>
        absurd (hfound.refused.mpr hall) (by simp)⟩

/-- The block with some data, and the others. -/
theorem exists_block (he : e ∈ liveData blocks) :
    ∃ l b r, blocks = l ++ [b] ++ r ∧ b.data = some e := by
  obtain ⟨b, hb, hdata⟩ := List.mem_filterMap.mp he
  obtain ⟨l, r, rfl⟩ := List.append_of_mem hb
  exact ⟨l, b, r, by simp, hdata⟩

/-- `to_hdr` finds the header of the block that the data are in. -/
theorem BlocksOk.toHdr (h : BlocksOk poolsize blocks arr) (hb : b ∈ blocks)
    (hdata : b.data = some e) : toHdr arr e.ptr = some b.off := by
  obtain ⟨hbody, -, -, -, hzero⟩ := (h.ok b hb).data e hdata
  exact toHdr_of_holds (h.ok b hb).header hbody hzero

/-- **`tiny_alloc_free`** makes the block free again. -/
theorem tinyAllocFree_eq (hsmall : poolsize < 2 ^ 24) (h : PoolOk poolsize blocks arr)
    (he : e ∈ liveData blocks) : ∃ blocks' arr',
      tinyAllocFree poolsize e.ptr arr = some arr' ∧ PoolOk poolsize blocks' arr' ∧
      (liveData blocks).Perm (e :: liveData blocks') ∧
      ∀ e' ∈ liveData blocks', SameData e' arr arr' := by
  obtain ⟨l, b, r, rfl, hdata⟩ := exists_block he
  have hb : b ∈ l ++ [b] ++ r := by simp
  have hok := h.tiles.ok b hb
  obtain ⟨hlo, hhi⟩ := h.tiles.tiles.within hb
  rw [Block.extent_ptr] at hlo hhi
  rw [Block.extent_len] at hhi
  have hused : b.free = false := by simp [Block.free, hdata]
  let b' : Block := ⟨b.off, b.len, none⟩
  let arr1 := Function.update arr b.off (byte ((arr b.off).toNat ||| freeBit))
  have hframe1 : ∀ a, a ≠ b.off → arr1 a = arr a := fun a ha => Function.update_of_ne ha _ _
  have hb' : BlockOk arr1 b' :=
    ⟨hok.two_le, holds_setFree (hused ▸ hok.header), fun e he => absurd he (by simp [b'])⟩
  have hpos := h.tiles.pos hb
  rw [Block.extent_len] at hpos
  have htiles : BlocksOk poolsize (l ++ [b'] ++ r) arr1 :=
    h.tiles.replace ⟨rfl, rfl⟩ (fun x hx => List.mem_singleton.mp hx ▸ hb')
      fun a _ ha => hframe1 a (by omega)
  -- a block in use is not in the free array
  have hout : ¬ InArray poolsize arr b.off := by
    intro hin
    obtain ⟨x, hx, hxdata, hoff⟩ := h.array.of_inArray hin
    obtain rfl := h.tiles.tiles.eq_of_ptr (fun x hx => h.tiles.pos hx) hx hb hoff
    rw [hxdata] at hdata
    cases hdata
  have harr1 : FreeArrayOk poolsize (l ++ [b'] ++ r) arr1 := by
    refine h.array.congr (fun a ha => hframe1 a (by omega)) fun x hx hxdata _ => ?_
    have hne : x ≠ b := by
      rintro rfl
      rw [hxdata] at hdata
      cases hdata
    simp only [List.mem_append, List.mem_singleton] at hx ⊢
    tauto
  obtain ⟨arr2, hadd, hadded⟩ := addToFreeArray_eq harr1 (b := b') (by simp) rfl
    (by simp only [b']; omega) fun hin => hout (hin.congr fun a ha => (hframe1 a (by omega)).symm)
  have hpool : PoolOk poolsize (l ++ [b'] ++ r) arr2 :=
    ⟨htiles.congr hadded.frame, hadded.ok, by simp⟩
  refine ⟨_, arr2, ?_, hpool, ?_, fun e' he' a h1 h2 => ?_⟩
  · rw [tinyAllocFree, if_neg (Nat.not_lt_of_le h.two_le), h.tiles.toHdr hb hdata]
    simp only [Option.bind_eq_bind, Option.bind_some]
    rw [hok.decode (h.tiles.len_lt hsmall hb), hused, Option.bind_some,
      if_neg Bool.false_ne_true]
    exact hadd
  · have hlive : liveData [b] = [e] := by simp [liveData, hdata]
    have hlive' : liveData [b'] = [] := rfl
    rw [liveData_append, liveData_append, liveData_append, liveData_append, hlive, hlive',
      List.append_nil, List.append_assoc]
    exact List.perm_middle
  · have hlow := (hpool.tiles.live_within he').1
    have hapart := htiles.live_outside (x := b') he' (by simp) rfl h1 h2
    simp only [b'] at hapart
    exact (hadded.frame a (by omega)).trans (hframe1 a (by omega))

/-- **`tiny_alloc_size`** counts from the end of the header, which the data may be one byte
behind. -/
theorem tinyAllocSize_eq (hsmall : poolsize < 2 ^ 24) (h : BlocksOk poolsize blocks arr)
    (hb : b ∈ blocks) (hdata : b.data = some e) :
    tinyAllocSize e.ptr arr = some (b.off + b.len - b.body) := by
  have hbody := body_lt (h.ok b hb).two_le
  have hlt := h.len_lt hsmall hb
  unfold Block.body at hbody ⊢
  rw [tinyAllocSize, h.toHdr hb hdata]
  simp only [Option.bind_eq_bind, Option.bind_some]
  rw [(h.ok b hb).decode hlt, Option.bind_some]
  dsimp only
  rw [Word.sub_of_le (by omega) (by omega)]
  exact congrArg some (by omega)

end Calls

end Shalloc.Tiny
