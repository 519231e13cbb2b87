import Shalloc.Tiles
import Shalloc.Tiny.Header

/-!
# The blocks of a pool

The blocks tile the pool behind the free array. Each begins with its header, and a block in use
holds data somewhere behind the header, with zero bytes between the two. A free block serves a
request if the data fit behind the longest header that the block may need.

## Main definitions

- `Block`, `BlockOk`, `BlocksOk` — the blocks, and what the bytes of the pool say of them
- `Block.Fits` — `long_enough`
- `coalesce` — free blocks that lie side by side are joined

## Main results

- `longEnough_eq` — what the test computes
- `BlocksOk.replace` — one block gives way to others
- `tryCoalesce_eq` — `try_coalesce` joins the free blocks
-/

namespace Shalloc.Tiny

open Cells

/-- A block of the pool: free, or in use for the data in a part of it. -/
structure Block where
  off : ℕ
  len : ℕ
  data : Option Extent
deriving DecidableEq, Repr

namespace Block

/-- The bytes of the block. -/
def extent (b : Block) : Extent := ⟨b.off, b.len⟩

/-- No data are kept in the block. -/
def free (b : Block) : Bool := b.data.isNone

/-- The place behind the header. -/
def body (b : Block) : ℕ := b.off + encodeLength (b.len - minBlockSize)

/-- `size` bytes at a multiple of `2 ^ k` fit behind the header. -/
def Fits (size k : ℕ) (b : Block) : Prop :=
  Word.roundUp (b.off + headerLen b.len) (2 ^ k) + size ≤ b.off + b.len

instance (size k : ℕ) (b : Block) : Decidable (b.Fits size k) := inferInstanceAs (Decidable (_ ≤ _))

/-- The block is free and large enough. -/
def serves (size k : ℕ) (b : Block) : Bool := b.free && decide (b.Fits size k)

@[simp] theorem extent_ptr (b : Block) : b.extent.ptr = b.off := rfl

@[simp] theorem extent_len (b : Block) : b.extent.len = b.len := rfl

theorem free_iff {b : Block} : b.free = true ↔ b.data = none := Option.isNone_iff_eq_none

theorem serves_iff {size k : ℕ} {b : Block} :
    b.serves size k = true ↔ b.data = none ∧ b.Fits size k := by
  rw [serves, Bool.and_eq_true, free_iff, decide_eq_true_iff]

end Block

/-- The data that the blocks hold. -/
def liveData (blocks : List Block) : List Extent := blocks.filterMap Block.data

/-- The bytes of a block: its header, and zero bytes from there to the data. At most one byte
is lost before the data. -/
structure BlockOk (arr : Pool) (b : Block) : Prop where
  two_le : minBlockSize ≤ b.len
  header : Holds arr b.off (headerBytes b.len b.free)
  data : ∀ e, b.data = some e → b.body ≤ e.ptr ∧ e.ptr ≤ b.body + 1 ∧ 0 < e.len ∧
    e.ptr + e.len ≤ b.off + b.len ∧ ∀ a, b.body ≤ a → a < e.ptr → arr a = 0

/-- The blocks tile the pool behind the free array. -/
structure BlocksOk (poolsize : ℕ) (blocks : List Block) (arr : Pool) : Prop where
  tiles : Tiles Block.extent (freeArraySize poolsize) poolsize blocks
  ok : ∀ b ∈ blocks, BlockOk arr b

variable {poolsize size k fuel off len : ℕ} {arr arr' : Pool} {b prev x : Block}
  {blocks l r new : List Block} {coalesced : Bool}

section Block

theorem BlockOk.decode (h : BlockOk arr b) (hlen : b.len < 2 ^ 24) :
    decode arr b.off = some ⟨encodeLength (b.len - minBlockSize), b.len, b.free⟩ :=
  decode_of_holds h.header h.two_le (by omega)

/-- A block has at least one byte behind its header. -/
theorem body_lt (h : minBlockSize ≤ b.len) : b.body < b.off + b.len := by
  have := encodeLength_le_succ (b.len - minBlockSize)
  unfold minBlockSize at h this
  unfold Block.body minBlockSize
  omega

/-- The data are of no concern. -/
theorem BlockOk.congr (h : BlockOk arr b)
    (heq : ∀ a, b.off ≤ a → a < b.off + b.len → (∀ e, b.data = some e → a < e.ptr) →
      arr' a = arr a) : BlockOk arr' b := by
  have hbody := body_lt h.two_le
  unfold Block.body at hbody
  refine ⟨h.two_le, h.header.congr fun a h1 h2 => ?_, fun e he => ?_⟩
  · rw [headerBytes_length] at h2
    refine heq a h1 (by omega) fun e he => Nat.lt_of_lt_of_le h2 (h.data e he).1
  · obtain ⟨h1, h2, h3, h4, hzero⟩ := h.data e he
    refine ⟨h1, h2, h3, h4, fun a ha1 ha2 => ?_⟩
    rw [heq a (Nat.le_trans (Nat.le_add_right _ _) ha1) (by omega), hzero a ha1 ha2]
    intro e' he'
    obtain rfl := Option.some.inj (he.symm.trans he')
    exact ha2

end Block

section Blocks

theorem BlocksOk.len_lt (h : BlocksOk poolsize blocks arr) (hsmall : poolsize < 2 ^ 24)
    (hb : b ∈ blocks) : b.len < 2 ^ 24 := by
  have := (h.tiles.within hb).2
  rw [Block.extent_ptr, Block.extent_len] at this
  omega

theorem BlocksOk.pos (h : BlocksOk poolsize blocks arr) (hb : b ∈ blocks) : 0 < b.extent.len :=
  Nat.lt_of_lt_of_le (by decide) (h.ok b hb).two_le

theorem BlocksOk.length_le (h : BlocksOk poolsize blocks arr) :
    blocks.length * 2 ≤ poolsize - freeArraySize poolsize :=
  h.tiles.length_mul_le fun b hb => (h.ok b hb).two_le

/-- The data lie in the pool behind the free array. -/
theorem BlocksOk.live_within (h : BlocksOk poolsize blocks arr) {e : Extent}
    (he : e ∈ liveData blocks) :
    freeArraySize poolsize < e.ptr ∧ e.ptr + e.len ≤ poolsize ∧ 0 < e.len := by
  obtain ⟨b, hb, hdata⟩ := List.mem_filterMap.mp he
  obtain ⟨h1, -, hpos, h2, -⟩ := (h.ok b hb).data e hdata
  obtain ⟨hlo, hhi⟩ := h.tiles.within hb
  have := encodeLength_pos (v := b.len - minBlockSize)
  rw [Block.extent_ptr] at hlo hhi
  rw [Block.extent_len] at hhi
  unfold Block.body at h1
  exact ⟨by omega, by omega, hpos⟩

/-- The data of the blocks lie apart. -/
theorem BlocksOk.live_pairwise (h : BlocksOk poolsize blocks arr) :
    (liveData blocks).Pairwise Extent.Disjoint := by
  refine List.Pairwise.filterMap Block.data ?_
    (List.Pairwise.and_mem.mp h.tiles.pairwise)
  rintro b b' ⟨hb, hb', hle⟩ e he e' he'
  obtain ⟨h1, -, -, h2, -⟩ := (h.ok b hb).data e he
  obtain ⟨h3, -, -, -, -⟩ := (h.ok b' hb').data e' he'
  rw [Block.extent_ptr, Block.extent_len, Block.extent_ptr] at hle
  unfold Block.body at h3
  exact Or.inl (by omega)

/-- One block gives way to others in its place. -/
theorem BlocksOk.replace (h : BlocksOk poolsize (l ++ [b] ++ r) arr)
    (hnew : Tiles Block.extent b.off (b.off + b.len) new) (hok : ∀ x ∈ new, BlockOk arr' x)
    (heq : ∀ a, freeArraySize poolsize ≤ a → (a < b.off ∨ b.off + b.len ≤ a) → arr' a = arr a) :
    BlocksOk poolsize (l ++ new ++ r) arr' := by
  have hb : b ∈ l ++ [b] ++ r := by simp
  refine ⟨h.tiles.replace fun mid mid' htiles => ?_, fun x hx => ?_⟩
  · obtain ⟨rfl, rfl⟩ := htiles
    exact hnew
  · have hx : (x ∈ l ∨ x ∈ r) ∨ x ∈ new := by
      simp only [List.mem_append] at hx
      tauto
    rcases hx with hold | hx
    · have hapart := h.tiles.apart_middle hold
      have hmem : x ∈ l ++ [b] ++ r := by
        simp only [List.mem_append]
        tauto
      refine (h.ok x hmem).congr fun a h1 h2 _ => heq a ?_ ?_
      · exact Nat.le_trans (h.tiles.within hmem).1 h1
      · simp only [Extent.Disjoint, Block.extent_ptr, Block.extent_len] at hapart
        omega
    · exact hok x hx

end Blocks

section Fits

theorem alignMask_two_pow (hk : k < 64) : alignMask (2 ^ k) = Word.lnot 64 (2 ^ k - 1) := by
  rw [alignMask, Word.sub_of_le Nat.one_le_two_pow (Nat.pow_lt_pow_right (by decide) hk)]

theorem alignUp_two_pow {x : ℕ} (hk : k < 64) (hx : x < 2 ^ 63) :
    alignUp x (2 ^ k) = Word.roundUp x (2 ^ k) := by
  have hpow : 2 ^ k ≤ 2 ^ 63 := Nat.pow_le_pow_right (by decide) (Nat.le_of_lt_succ hk)
  rw [alignUp, alignMask_two_pow hk, Word.land_lnot_two_pow (Word.wrap_lt _ _),
    Word.wrap_of_lt (by omega), Word.roundUp]

/-- **`long_enough`** asks whether the data fit behind the longest header. -/
theorem longEnough_eq (hpos : 0 < b.len) (hend : b.off + b.len < 2 ^ 24) (hsize : size < 2 ^ 63)
    (hk : k < 64) : longEnough b.off b.len size (2 ^ k) = some (decide (b.Fits size k)) := by
  have hheader := headerLen_le hpos (by omega)
  have hle : Word.roundUp (b.off + headerLen b.len) (2 ^ k) ≤ 2 ^ 63 :=
    Word.roundUp_le (Nat.two_pow_pos k) (Nat.pow_dvd_pow 2 (Nat.le_of_lt_succ hk)) (by omega)
  rw [longEnough, encodeLenWithHeader_eq hpos (by omega)]
  simp only [Option.bind_eq_bind, Option.bind_some]
  rw [alignUp_two_pow hk (by omega), Word.wrap_of_lt (by omega)]
  rfl

/-- There is room for the header and the data. -/
theorem Block.Fits.room (h : b.Fits size k) : headerLen b.len + size ≤ b.len := by
  have := Word.le_roundUp (n := b.off + headerLen b.len) (Nat.two_pow_pos k)
  unfold Block.Fits at h
  omega

end Fits

section Coalesce

/-- Free blocks side by side are joined, from the block `prev` on. -/
def coalesceFrom (prev : Block) : List Block → List Block
  | [] => [prev]
  | b :: l =>
    if b.free && prev.free then coalesceFrom ⟨prev.off, prev.len + b.len, none⟩ l
    else prev :: coalesceFrom b l

/-- The blocks that `try_coalesce` leaves. -/
def coalesce : List Block → List Block
  | [] => []
  | b :: l => coalesceFrom b l

theorem liveData_coalesceFrom : ∀ (l : List Block) (prev : Block),
    liveData (coalesceFrom prev l) = liveData (prev :: l)
  | [], prev => rfl
  | b :: l, prev => by
    rw [coalesceFrom]
    split
    · next h =>
      rw [Bool.and_eq_true, Block.free_iff, Block.free_iff] at h
      rw [liveData_coalesceFrom l]
      simp [liveData, h.1, h.2]
    · have ih := liveData_coalesceFrom l b
      unfold liveData at ih ⊢
      rw [List.filterMap_cons, ih, ← List.filterMap_cons]

theorem tiles_coalesceFrom : ∀ {l : List Block} {prev : Block} {hi : ℕ},
    Tiles Block.extent prev.off hi (prev :: l) →
    Tiles Block.extent prev.off hi (coalesceFrom prev l)
  | [], _, _, h => h
  | b :: l, prev, hi, h => by
    obtain ⟨-, hb, hl⟩ := h
    rw [coalesceFrom]
    split
    · have hjoined : Tiles Block.extent prev.off hi
          ((⟨prev.off, prev.len + b.len, none⟩ : Block) :: l) :=
        ⟨rfl, by simpa only [Block.extent_len, Nat.add_assoc] using hl⟩
      exact tiles_coalesceFrom hjoined
    · refine ⟨rfl, ?_⟩
      rw [Block.extent_ptr] at hb
      rw [← hb] at hl ⊢
      exact tiles_coalesceFrom ⟨rfl, hl⟩

theorem coalesceFrom_head : ∀ (l : List Block) (prev : Block), ∃ b m,
    coalesceFrom prev l = b :: m ∧ b.free = prev.free
  | [], prev => ⟨prev, [], rfl, rfl⟩
  | b :: l, prev => by
    rw [coalesceFrom]
    split
    · next h =>
      obtain ⟨c, m, hc, hfree⟩ := coalesceFrom_head l ⟨prev.off, prev.len + b.len, none⟩
      rw [Bool.and_eq_true] at h
      exact ⟨c, m, hc, hfree.trans h.2.symm⟩
    · exact ⟨prev, _, rfl, rfl⟩

/-- No two free blocks are left side by side. -/
theorem isChain_coalesceFrom : ∀ (l : List Block) (prev : Block),
    (coalesceFrom prev l).IsChain fun x y => ¬ (y.free && x.free) = true
  | [], prev => List.IsChain.singleton prev
  | b :: l, prev => by
    rw [coalesceFrom]
    split
    · exact isChain_coalesceFrom l _
    · next h =>
      obtain ⟨c, m, hc, hfree⟩ := coalesceFrom_head l b
      have ih := isChain_coalesceFrom l b
      rw [hc] at ih ⊢
      refine List.IsChain.cons_cons ?_ ih
      rwa [hfree]

/-- A pool without data is joined to one block. -/
theorem coalesceFrom_free : ∀ {l : List Block} {prev : Block} {hi : ℕ},
    Tiles Block.extent prev.off hi (prev :: l) → liveData (prev :: l) = [] →
    coalesceFrom prev l = [⟨prev.off, hi - prev.off, none⟩]
  | [], prev, hi, htiles, hlive => by
    obtain ⟨-, rfl⟩ := htiles
    have hdata : prev.data = none := by
      cases h : prev.data with
      | none => rfl
      | some e => simp [liveData, h] at hlive
    rw [coalesceFrom, Block.extent_len, Nat.add_sub_cancel_left, ← hdata]
  | b :: l, prev, hi, ⟨_, hb, hl⟩, hlive => by
    have hnone : prev.data = none ∧ b.data = none ∧ liveData l = [] := by
      simp only [liveData, List.filterMap_eq_nil_iff, List.mem_cons] at hlive ⊢
      exact ⟨hlive prev (Or.inl rfl), hlive b (Or.inr (Or.inl rfl)),
        fun x hx => hlive x (Or.inr (Or.inr hx))⟩
    obtain ⟨hprev, hbfree, hlfree⟩ := hnone
    have hboth : (b.free && prev.free) = true := by
      rw [Bool.and_eq_true, Block.free_iff, Block.free_iff]
      exact ⟨hbfree, hprev⟩
    rw [coalesceFrom, if_pos hboth]
    have hjoined : Tiles Block.extent prev.off hi
        ((⟨prev.off, prev.len + b.len, none⟩ : Block) :: l) :=
      ⟨rfl, by simpa only [Block.extent_len, Nat.add_assoc] using hl⟩
    exact coalesceFrom_free hjoined (by simpa [liveData] using hlfree)

/-- What is left of the blocks and of the bytes when free blocks have been joined: only the
bytes of free blocks change, and nothing changes if no two of them lie side by side. -/
structure Joined (blocks joined : List Block) (merged : Bool) (arr arr' : Pool) : Prop where
  ok : ∀ x ∈ joined, BlockOk arr' x
  frame : ∀ a, (∀ x ∈ blocks, x.data = none → a < x.off ∨ x.off + x.len ≤ a) → arr' a = arr a
  same : merged = false → arr' = arr ∧ joined = blocks

/-- The header of two free blocks together is written at the first one. -/
theorem encode_joined (htiles : Tiles Block.extent prev.off poolsize (prev :: b :: l))
    (hok : ∀ x ∈ prev :: b :: l, BlockOk arr x) (hsmall : poolsize < 2 ^ 24) :
    ∃ arr', encode (prev.len + b.len) true prev.off arr =
        some (encodeLength (prev.len + b.len - minBlockSize), arr') ∧
      (∀ x ∈ ⟨prev.off, prev.len + b.len, none⟩ :: l, BlockOk arr' x) ∧
      ∀ a, (a < prev.off ∨ b.off + b.len ≤ a) → arr' a = arr a := by
  obtain ⟨-, hb, hl⟩ := htiles
  rw [Block.extent_ptr, Block.extent_len] at hb
  have hprev2 := (hok prev List.mem_cons_self).two_le
  have hle := hl.le
  rw [Block.extent_len, Block.extent_len] at hle hl
  have h2 : minBlockSize ≤ prev.len + b.len := Nat.le_trans hprev2 (Nat.le_add_right _ _)
  have hbody := body_lt (b := ⟨prev.off, prev.len + b.len, none⟩) h2
  have hframe : ∀ a, (a < prev.off ∨ b.off + b.len ≤ a) →
      put arr prev.off (headerBytes (prev.len + b.len) true) a = arr a := by
    refine fun a ha => put_of_outside (ha.imp_right fun h => ?_)
    rw [headerBytes_length]
    simp only [Block.body] at hbody
    omega
  refine ⟨_, encode_eq h2 (by omega), fun x hx => ?_, hframe⟩
  rcases List.mem_cons.mp hx with rfl | hx
  · exact ⟨h2, holds_put, fun e he => absurd he (by simp)⟩
  · refine (hok x (by simp [hx])).congr fun a h1 _ _ => hframe a (Or.inr ?_)
    have := (hl.within hx).1
    rw [Block.extent_ptr] at this
    omega

/-- Outside two free blocks is outside both together. -/
theorem outside_both {a : ℕ} (hb : b.off = prev.off + prev.len)
    (hboth : (b.free && prev.free) = true)
    (ha : ∀ x ∈ prev :: b :: l, x.data = none → a < x.off ∨ x.off + x.len ≤ a) :
    a < prev.off ∨ b.off + b.len ≤ a := by
  rw [Bool.and_eq_true, Block.free_iff, Block.free_iff] at hboth
  have h1 := ha prev (by simp) hboth.2
  have h2 := ha b (by simp) hboth.1
  omega

/-- The loop joins the free blocks from the last one that it has seen on. -/
theorem tryCoalesceLoop_eq : ∀ {l : List Block} {prev b : Block} {arr : Pool} (fuel : ℕ)
    (coalesced : Bool), poolsize < 2 ^ 24 →
    Tiles Block.extent prev.off poolsize (prev :: b :: l) →
    (∀ x ∈ prev :: b :: l, BlockOk arr x) → l.length < fuel →
    ∃ merged arr', tryCoalesceLoop poolsize fuel b.off prev.off prev.len prev.free coalesced arr =
        some (coalesced || merged, arr') ∧
      Joined (prev :: b :: l) (coalesceFrom prev (b :: l)) merged arr arr' := by
  intro l
  induction l with
  | nil =>
    intro prev b arr fuel coalesced hsmall htiles hok hfuel
    obtain ⟨fuel, rfl⟩ := Nat.exists_eq_add_of_lt hfuel
    have hends := htiles
    simp only [Tiles.tiles_cons, Tiles.tiles_nil, Block.extent_ptr, Block.extent_len] at hends
    rw [tryCoalesceLoop, (hok b (by simp)).decode (by omega), coalesceFrom]
    simp only [Option.bind_eq_bind, Option.bind_some]
    by_cases hboth : (b.free && prev.free) = true
    · obtain ⟨arr', hencode, hok', hframe⟩ := encode_joined htiles hok hsmall
      rw [if_pos hboth, if_pos hboth, hencode]
      refine ⟨true, arr', ?_, hok', fun a ha => hframe a ?_, fun h => absurd h (by decide)⟩
      · rw [Option.bind_some, if_neg (by omega), Bool.or_true]
      · exact outside_both hends.2.1 hboth ha
    · rw [if_neg hboth, if_neg hboth, if_neg (by omega)]
      exact ⟨false, arr, by rw [Bool.or_false], hok, fun a _ => rfl, fun _ => ⟨rfl, rfl⟩⟩
  | cons c l ih =>
    intro prev b arr fuel coalesced hsmall htiles hok hfuel
    obtain ⟨fuel, rfl⟩ := Nat.exists_eq_add_of_lt hfuel
    have hends := htiles
    simp only [Tiles.tiles_cons, Block.extent_ptr, Block.extent_len] at hends
    obtain ⟨-, hb, hc, hl⟩ := hends
    have hle := hl.le
    have hc2 := (hok c (by simp)).two_le
    unfold minBlockSize at hc2
    have hoff : b.off + b.len = c.off := by omega
    rw [tryCoalesceLoop, (hok b (by simp)).decode (by omega), coalesceFrom]
    simp only [Option.bind_eq_bind, Option.bind_some]
    by_cases hboth : (b.free && prev.free) = true
    · -- the blocks are joined, and the loop goes on from the larger one
      obtain ⟨arr1, hencode, hok1, hframe1⟩ := encode_joined htiles hok hsmall
      have htiles1 : Tiles Block.extent prev.off poolsize
          (⟨prev.off, prev.len + b.len, none⟩ :: c :: l) := by
        refine ⟨rfl, ?_, ?_⟩
        · change c.off = prev.off + (prev.len + b.len)
          omega
        · simpa only [Block.extent_len, Nat.add_assoc] using hl
      have hprev : prev.free = true := by
        rw [Bool.and_eq_true] at hboth
        exact hboth.2
      obtain ⟨merged, arr', hloop, hjoined⟩ := ih (l.length + 1 + fuel) true hsmall
        htiles1 hok1 (by omega)
      refine ⟨true, arr', ?_, ?_, fun a ha => ?_, fun h => absurd h (by decide)⟩
      · rw [if_pos hboth, hencode, Option.bind_some, if_pos (by omega), hoff]
        rw [Bool.true_or] at hloop
        rw [Bool.or_true, hprev]
        exact hloop
      · rw [if_pos hboth]
        exact hjoined.ok
      · refine (hjoined.frame a fun x hx hdata => ?_).trans
          (hframe1 a (outside_both hb hboth ha))
        rcases List.mem_cons.mp hx with rfl | hx
        · have := outside_both hb hboth ha
          simp only
          omega
        · exact ha x (by simp only [List.mem_cons] at hx ⊢; tauto) hdata
    · -- the block is the last one seen
      have htiles1 : Tiles Block.extent b.off poolsize (b :: c :: l) :=
        ⟨rfl, by simpa using hoff.symm, by simpa only [Block.extent_len, ← hb] using hl⟩
      obtain ⟨merged, arr', hloop, hjoined⟩ := ih (l.length + 1 + fuel) coalesced hsmall htiles1
        (fun x hx => hok x (by simp [hx])) (by omega)
      refine ⟨merged, arr', ?_, ?_, fun a ha => ?_, fun h => ?_⟩
      · rw [if_neg hboth, if_pos (by omega), hoff]
        exact hloop
      · rw [if_neg hboth]
        intro x hx
        rcases List.mem_cons.mp hx with rfl | hx
        · -- the later blocks lie behind
          refine (hok x List.mem_cons_self).congr fun a _ h2 _ => hjoined.frame a fun y hy _ => ?_
          have hle := (htiles.2.within hy).1
          simp only [Block.extent_ptr, Block.extent_len] at hle
          exact Or.inl (by omega)
        · exact hjoined.ok x hx
      · exact hjoined.frame a fun x hx => ha x (List.mem_cons_of_mem _ hx)
      · obtain ⟨harr, hsame⟩ := hjoined.same h
        rw [if_neg hboth, hsame]
        exact ⟨harr, rfl⟩

/-- **`try_coalesce`** joins the free blocks that lie side by side, and then empties the free
array. -/
theorem tryCoalesce_eq (h : BlocksOk poolsize blocks arr) (hsmall : poolsize < 2 ^ 24)
    (hne : blocks ≠ []) : ∃ merged arr', tryCoalesce poolsize arr = some (merged, arr') ∧
      BlocksOk poolsize (coalesce blocks) arr' ∧
      (∀ a, freeArraySize poolsize ≤ a →
        (∀ x ∈ blocks, x.data = none → a < x.off ∨ x.off + x.len ≤ a) → arr' a = arr a) ∧
      (merged = true → ∀ a < freeArraySize poolsize, arr' a = 0) ∧
      (merged = false → arr' = arr ∧ coalesce blocks = blocks) := by
  obtain ⟨b, l, rfl⟩ := List.exists_cons_of_ne_nil hne
  have hlength := h.length_le
  obtain ⟨hb, hl⟩ := h.tiles
  rw [Block.extent_ptr] at hb
  have hok := h.ok b List.mem_cons_self
  have hlen := h.len_lt hsmall List.mem_cons_self
  rw [List.length_cons] at hlength
  -- the first block is only looked at
  have hloop : ∃ merged arr1, tryCoalesceLoop poolsize poolsize (freeArraySize poolsize) 0 0 false
      false arr = some (merged, arr1) ∧ Joined (b :: l) (coalesceFrom b l) merged arr arr1 := by
    obtain ⟨fuel, hfuel⟩ : ∃ fuel, poolsize = fuel + 1 := ⟨poolsize - 1, by omega⟩
    have hstep : tryCoalesceLoop poolsize (fuel + 1) (freeArraySize poolsize) 0 0 false false arr =
        if b.off + b.len < poolsize then
          tryCoalesceLoop poolsize fuel (b.off + b.len) b.off b.len b.free false arr
        else some (false, arr) := by
      rw [tryCoalesceLoop, ← hb, hok.decode hlen]
      simp only [Option.bind_eq_bind, Option.bind_some, Bool.and_false, Bool.false_eq_true,
        if_false]
    cases l with
    | nil =>
      rw [Tiles.tiles_nil, Block.extent_len, ← hb] at hl
      refine ⟨false, arr, ?_, h.ok, fun a _ => rfl, fun _ => ⟨rfl, rfl⟩⟩
      nth_rewrite 2 [hfuel]
      rw [hstep, if_neg (by omega)]
    | cons c l =>
      have hlt := (hl.within List.mem_cons_self).2
      have hpos := (h.ok c (by simp)).two_le
      have hc := hl.1
      rw [Block.extent_ptr] at hc
      rw [Block.extent_ptr, Block.extent_len] at hlt
      rw [Block.extent_len] at hc
      unfold minBlockSize at hpos
      rw [List.length_cons] at hlength
      have htiles : Tiles Block.extent b.off poolsize (b :: c :: l) := hb ▸ h.tiles
      obtain ⟨merged, arr1, hrun, hjoined⟩ :=
        tryCoalesceLoop_eq fuel false hsmall htiles h.ok (by omega)
      refine ⟨merged, arr1, ?_, hjoined⟩
      nth_rewrite 2 [hfuel]
      rw [hstep, if_pos (by omega), hb, ← hc]
      rwa [hb, Bool.false_or] at hrun
  obtain ⟨merged, arr1, hrun, hjoined⟩ := hloop
  have htiles : Tiles Block.extent (freeArraySize poolsize) poolsize (coalesceFrom b l) :=
    hb ▸ tiles_coalesceFrom (hb.symm ▸ h.tiles)
  rw [tryCoalesce, hrun]
  simp only [Option.bind_eq_bind, Option.bind_some]
  have hframe : ∀ a, freeArraySize poolsize ≤ a → (if merged then
      memset arr1 0 0 (freeArraySize poolsize) else arr1) a = arr1 a := by
    intro a ha
    split
    · exact memset_outside (Or.inr (by omega))
    · rfl
  refine ⟨merged, _, rfl, ⟨htiles, fun x hx => ?_⟩, fun a ha hout => ?_, fun hm a ha => ?_,
    fun hm => ?_⟩
  · refine (hjoined.ok x hx).congr fun a h1 _ _ => hframe a ?_
    exact Nat.le_trans (htiles.within hx).1 h1
  · exact (hframe a ha).trans (hjoined.frame a hout)
  · rw [if_pos hm]
    exact memset_inside (Nat.zero_le a) (by omega)
  · rw [if_neg (by simp [hm])]
    exact hjoined.same hm

end Coalesce

end Shalloc.Tiny
