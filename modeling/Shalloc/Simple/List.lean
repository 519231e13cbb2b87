import Mathlib.Data.Set.Insert
import Shalloc.Circular
import Shalloc.Simple.Defs

/-!
# The free list of the simple allocator

The pool is cut into blocks that lie apart. Some of them are on the circular list, in the order
of their addresses; the others are in use. This module follows the list through the steps of the
allocator: a block is linked in, joined with the next one, taken off or split, and the pool adds
a block at its end.

## Main definitions

- `MemmgrBlocks` — the blocks between two addresses, on the list or in use

## Main results

- `MemmgrBlocks.freed` — `memmgr_free` puts a block on the list
- `MemmgrBlocks.take` — a block that is large enough is taken off the list, or split
-/

namespace Shalloc

open Circular

variable {mgr mgr' : Memmgr} {base lo hi p x : ℕ} {free : List ℕ} {owned : Set ℕ}

/-- The successor of a block. -/
def Memmgr.next (mgr : Memmgr) (a : ℕ) : ℕ := (mgr.headers a).next

/-- The size of a block in quantas. -/
def Memmgr.size (mgr : Memmgr) (a : ℕ) : ℕ := (mgr.headers a).size

@[simp] theorem Memmgr.next_setNext (mgr : Memmgr) (p q : ℕ) :
    (mgr.setNext p q).next = Function.update mgr.next p q := by
  funext a
  by_cases heq : a = p
  · subst heq
    simp [Memmgr.next, Memmgr.setNext, Memmgr.setHeader]
  · simp [Memmgr.next, Memmgr.setNext, Memmgr.setHeader, heq]

@[simp] theorem Memmgr.size_setNext (mgr : Memmgr) (p q : ℕ) :
    (mgr.setNext p q).size = mgr.size := by
  funext a
  by_cases heq : a = p
  · subst heq
    simp [Memmgr.size, Memmgr.setNext, Memmgr.setHeader]
  · simp [Memmgr.size, Memmgr.setNext, Memmgr.setHeader, heq]

@[simp] theorem Memmgr.next_setSize (mgr : Memmgr) (p n : ℕ) :
    (mgr.setSize p n).next = mgr.next := by
  funext a
  by_cases heq : a = p
  · subst heq
    simp [Memmgr.next, Memmgr.setSize, Memmgr.setHeader]
  · simp [Memmgr.next, Memmgr.setSize, Memmgr.setHeader, heq]

@[simp] theorem Memmgr.size_setSize (mgr : Memmgr) (p n : ℕ) :
    (mgr.setSize p n).size = Function.update mgr.size p n := by
  funext a
  by_cases heq : a = p
  · subst heq
    simp [Memmgr.size, Memmgr.setSize, Memmgr.setHeader]
  · simp [Memmgr.size, Memmgr.setSize, Memmgr.setHeader, heq]

theorem Memmgr.blockEnd_eq (mgr : Memmgr) (a : ℕ) :
    mgr.blockEnd a = a + mgr.size a * sizeofMemHeader := rfl

/-- The blocks between `lo` and `hi`: those in `free` are on the list that begins with `base`,
in this order, and those in `owned` are not. -/
structure MemmgrBlocks (base lo hi : ℕ) (free : List ℕ) (owned : Set ℕ) (mgr : Memmgr) : Prop where
  visits : Visits mgr.next base free
  sorted : (base :: free).Pairwise (· < ·)
  empty : mgr.size base = 0
  room : base + sizeofMemHeader ≤ lo
  fresh : ∀ a ∈ free, a ∉ owned
  pos : ∀ a, a ∈ free ∨ a ∈ owned → 0 < mgr.size a
  within : ∀ a, a ∈ free ∨ a ∈ owned → lo ≤ a ∧ mgr.blockEnd a ≤ hi
  apart : ∀ a c, a ∈ free ∨ a ∈ owned → c ∈ free ∨ c ∈ owned → a < c → mgr.blockEnd a ≤ c

namespace MemmgrBlocks

/-- Only the headers of the blocks matter. -/
theorem congr (h : MemmgrBlocks base lo hi free owned mgr)
    (hfree : ∀ a ∈ base :: free, mgr'.headers a = mgr.headers a)
    (howned : ∀ a ∈ owned, mgr'.size a = mgr.size a) : MemmgrBlocks base lo hi free owned mgr' := by
  have hsize : ∀ a, a ∈ free ∨ a ∈ owned → mgr'.size a = mgr.size a := by
    rintro a (ha | ha)
    · exact congrArg MemHeader.size (hfree a (List.mem_cons_of_mem _ ha))
    · exact howned a ha
  have hend : ∀ a, a ∈ free ∨ a ∈ owned → mgr'.blockEnd a = mgr.blockEnd a := by
    intro a ha
    rw [Memmgr.blockEnd_eq, Memmgr.blockEnd_eq, hsize a ha]
  exact
    { visits := h.visits.congr fun a ha => congrArg MemHeader.next (hfree a ha)
      sorted := h.sorted
      empty := (congrArg MemHeader.size (hfree base List.mem_cons_self)).trans h.empty
      room := h.room
      fresh := h.fresh
      pos := fun a ha => by rw [hsize a ha]; exact h.pos a ha
      within := fun a ha => by rw [hend a ha]; exact h.within a ha
      apart := fun a c ha hc hlt => by rw [hend a ha]; exact h.apart a c ha hc hlt }

theorem base_lt (h : MemmgrBlocks base lo hi free owned mgr) {a : ℕ} (ha : a ∈ free ∨ a ∈ owned) :
    base < a := by
  have hlo := (h.within a ha).1
  have hroom := h.room
  unfold sizeofMemHeader at hroom
  omega

theorem nodup (h : MemmgrBlocks base lo hi free owned mgr) : (base :: free).Nodup :=
  h.sorted.imp fun hlt => Nat.ne_of_lt hlt

/-- A block in use is not on the list. -/
theorem not_mem (h : MemmgrBlocks base lo hi free owned mgr) (hx : x ∈ owned) :
    x ∉ base :: free := by
  intro hmem
  cases List.mem_cons.mp hmem with
  | inl heq => exact absurd (h.base_lt (Or.inr hx)) (by rw [heq]; exact Nat.lt_irrefl _)
  | inr hmem => exact h.fresh x hmem hx

/-- No header lies in a block in use, behind the header of that block. -/
theorem header_apart (h : MemmgrBlocks base lo hi free owned mgr) {a : ℕ}
    (ha : a ∈ base :: free ∨ a ∈ owned) (hx : x ∈ owned) :
    a + sizeofMemHeader ≤ x + sizeofMemHeader ∨ mgr.blockEnd x ≤ a := by
  rcases Nat.lt_or_ge x a with hlt | hle
  · refine Or.inr (h.apart x a (Or.inr hx) (ha.imp_left fun hmem => ?_) hlt)
    refine (List.mem_cons.mp hmem).resolve_left fun heq => ?_
    exact absurd (h.base_lt (Or.inr hx)) (by omega)
  · exact Or.inl (Nat.add_le_add_right hle _)

/-- The list has at most as many blocks as there are quantas. -/
theorem length_le (h : MemmgrBlocks base lo hi free owned mgr) (hle : lo ≤ hi) :
    free.length * sizeofMemHeader ≤ hi - lo := by
  have hfree : ∀ a ∈ free, lo ≤ a ∧ a + sizeofMemHeader ≤ hi ∧ ∀ c ∈ free, a < c →
      a + sizeofMemHeader ≤ c := by
    intro a ha
    have hpos := h.pos a (Or.inl ha)
    have hone : sizeofMemHeader ≤ mgr.size a * sizeofMemHeader := Nat.le_mul_of_pos_left _ hpos
    obtain ⟨hlo, hhi⟩ := h.within a (Or.inl ha)
    rw [Memmgr.blockEnd_eq] at hhi
    refine ⟨hlo, by omega, fun c hc hlt => ?_⟩
    have hapart := h.apart a c (Or.inl ha) (Or.inl hc) hlt
    rw [Memmgr.blockEnd_eq] at hapart
    omega
  have hsorted := (List.pairwise_cons.mp h.sorted).2
  clear h
  induction free generalizing lo with
  | nil => simp
  | cons a free ih =>
    obtain ⟨hgt, hrest⟩ := List.pairwise_cons.mp hsorted
    obtain ⟨hlo, hhi, hstep⟩ := hfree a List.mem_cons_self
    have hlater : ∀ c ∈ free, a + sizeofMemHeader ≤ c ∧ c + sizeofMemHeader ≤ hi ∧
        ∀ d ∈ free, c < d → c + sizeofMemHeader ≤ d := by
      intro c hc
      obtain ⟨-, hhi', hstep'⟩ := hfree c (List.mem_cons_of_mem _ hc)
      exact ⟨hstep c (List.mem_cons_of_mem _ hc) (hgt c hc), hhi',
        fun d hd => hstep' d (List.mem_cons_of_mem _ hd)⟩
    have hih : free.length * sizeofMemHeader ≤ hi - (a + sizeofMemHeader) :=
      ih (by omega) hlater hrest
    rw [List.length_cons, Nat.succ_mul]
    omega

section Steps

variable {pre post : List ℕ}

/-- A block is linked in after `p`. -/
theorem linkAfter (h : MemmgrBlocks base lo hi free owned mgr) (hx : x ∈ owned)
    (hsplit : base :: free = pre ++ p :: post) (hlt : p < x) (hgt : ∀ a ∈ post, x < a) :
    ∃ free', base :: free' = pre ++ p :: x :: post ∧
      MemmgrBlocks base lo hi free' (owned \ {x}) ((mgr.setNext x (mgr.next p)).setNext p x) := by
  obtain ⟨free', hl'⟩ := exists_tail hsplit (x :: post)
  have hmem : ∀ a, a ∈ free' ↔ a = x ∨ a ∈ free := by
    intro a
    rw [(perm_insert hsplit hl').mem_iff, List.mem_cons]
  have hsub : ∀ a, a ∈ free' ∨ a ∈ owned \ {x} → a ∈ free ∨ a ∈ owned := by
    rintro a (ha | ha)
    · rcases (hmem a).mp ha with rfl | ha
      · exact Or.inr hx
      · exact Or.inl ha
    · exact Or.inr ha.1
  have hend : ((mgr.setNext x (mgr.next p)).setNext p x).blockEnd = mgr.blockEnd := by
    funext a
    simp [Memmgr.blockEnd_eq]
  refine ⟨free', hl', ?_, ?_, ?_, h.room, ?_, ?_, ?_, ?_⟩
  · have hne : x ≠ p := Nat.ne_of_gt hlt
    refine h.visits.insert h.nodup hsplit hl' (fun a ha hap => ?_) ?_ ?_
    · have hax : a ≠ x := fun heq => h.not_mem hx (heq ▸ ha)
      simp [hap, hax]
    · simp
    · simp [hne]
  · have hsorted := h.sorted
    rw [hsplit] at hsorted
    rw [hl']
    obtain ⟨hpre, hpost, hapart⟩ := List.pairwise_append.mp hsorted
    obtain ⟨hp, hrest⟩ := List.pairwise_cons.mp hpost
    refine List.pairwise_append.mpr ⟨hpre, ?_, fun a ha c hc => ?_⟩
    · refine List.pairwise_cons.mpr ⟨fun c hc => ?_, List.pairwise_cons.mpr ⟨hgt, hrest⟩⟩
      cases List.mem_cons.mp hc with
      | inl heq => rwa [heq]
      | inr hc => exact hp c hc
    · have hap : a < p := hapart a ha p List.mem_cons_self
      rcases List.mem_cons.mp hc with rfl | hc
      · exact hap
      · rcases List.mem_cons.mp hc with rfl | hc
        · exact lt_trans hap hlt
        · exact hapart a ha c (List.mem_cons_of_mem _ hc)
  · simpa using h.empty
  · intro a ha hmem'
    rcases (hmem a).mp ha with rfl | ha
    · exact hmem'.2 rfl
    · exact h.fresh a ha hmem'.1
  · intro a ha
    simpa using h.pos a (hsub a ha)
  · intro a ha
    rw [hend]
    exact h.within a (hsub a ha)
  · intro a c ha hc hlt'
    rw [hend]
    exact h.apart a c (hsub a ha) (hsub c hc) hlt'

/-- The block after `p` is linked out: the list that is left. -/
theorem unlink (h : MemmgrBlocks base lo hi free owned mgr)
    (hsplit : base :: free = pre ++ p :: x :: post) :
    ∃ free', base :: free' = pre ++ p :: post ∧
      Visits (mgr.setNext p (mgr.next x)).next base free' ∧ (base :: free').Pairwise (· < ·) ∧
      (∀ a, a ∈ free ↔ a = x ∨ a ∈ free') ∧ x ∉ free' := by
  obtain ⟨free', hl'⟩ := exists_tail hsplit post
  have hperm := perm_insert hl' hsplit
  have hnodup : (x :: free').Nodup := hperm.nodup (List.nodup_cons.mp h.nodup).2
  refine ⟨free', hl', ?_, ?_, fun a => ?_, (List.nodup_cons.mp hnodup).1⟩
  · refine h.visits.remove h.nodup hsplit hl' (fun a _ hap => ?_) ?_
    · simp [hap]
    · simp
  · have hsorted := h.sorted
    rw [hsplit] at hsorted
    rw [hl']
    refine hsorted.sublist ?_
    exact List.Sublist.append (List.Sublist.refl _) ((List.sublist_cons_self _ _).cons_cons _)
  · rw [hperm.mem_iff, List.mem_cons]

/-- A block on the list is joined with the next one, which begins where it ends. -/
theorem join (h : MemmgrBlocks base lo hi free owned mgr)
    (hsplit : base :: free = pre ++ p :: x :: post) (hend : mgr.blockEnd p = x) :
    ∃ free', base :: free' = pre ++ p :: post ∧
      MemmgrBlocks base lo hi free' owned
        ((mgr.setNext p (mgr.next x)).setSize p (mgr.size p + mgr.size x)) := by
  obtain ⟨free', hl', hvisits, hsorted, hmem, hx⟩ := h.unlink hsplit
  have hxfree : x ∈ free := (hmem x).mpr (Or.inl rfl)
  have hsub : ∀ a, a ∈ free' ∨ a ∈ owned → a ∈ free ∨ a ∈ owned :=
    fun a ha => ha.imp_left fun ha => (hmem a).mpr (Or.inr ha)
  have hxpos := h.pos x (Or.inl hxfree)
  -- the first block is no neighbour, since its end is its own address
  have hpfree : p ∈ free := by
    have hp : p ∈ base :: free := by rw [hsplit]; simp
    refine (List.mem_cons.mp hp).resolve_left fun heq => ?_
    rw [heq, Memmgr.blockEnd_eq, h.empty] at hend
    exact absurd (h.base_lt (Or.inl hxfree)) (by omega)
  have hpx : p ≠ x := by
    have hppos := h.pos p (Or.inl hpfree)
    rw [Memmgr.blockEnd_eq] at hend
    unfold sizeofMemHeader at hend
    omega
  have hpbase : base ≠ p := Nat.ne_of_lt (h.base_lt (Or.inl hpfree))
  have hnotx : ∀ a, a ∈ free' ∨ a ∈ owned → a ≠ x := by
    rintro a (ha | ha) rfl
    · exact hx ha
    · exact h.fresh a hxfree ha
  have hendp : ((mgr.setNext p (mgr.next x)).setSize p (mgr.size p + mgr.size x)).blockEnd p =
      mgr.blockEnd x := by
    rw [Memmgr.blockEnd_eq, Memmgr.blockEnd_eq, ← hend, Memmgr.blockEnd_eq]
    simp only [Memmgr.size_setSize, Function.update_self]
    rw [Nat.add_mul, Nat.add_assoc, ← Memmgr.blockEnd_eq, hend]
  have hendother : ∀ a, a ≠ p →
      ((mgr.setNext p (mgr.next x)).setSize p (mgr.size p + mgr.size x)).blockEnd a =
        mgr.blockEnd a := by
    intro a ha
    simp [Memmgr.blockEnd_eq, ha]
  refine ⟨free', hl', ?_, hsorted, ?_, h.room, ?_, ?_, ?_, ?_⟩
  · simpa using hvisits
  · simpa [hpbase] using h.empty
  · exact fun a ha => h.fresh a ((hmem a).mpr (Or.inr ha))
  · intro a ha
    have hpos := h.pos a (hsub a ha)
    by_cases heq : a = p
    · subst heq
      simp only [Memmgr.size_setSize, Function.update_self]
      omega
    · simpa [heq] using hpos
  · intro a ha
    obtain ⟨hlo, hhi⟩ := h.within a (hsub a ha)
    refine ⟨hlo, ?_⟩
    by_cases heq : a = p
    · rw [heq, hendp]
      exact (h.within x (Or.inl hxfree)).2
    · rw [hendother a heq]
      exact hhi
  · intro a c ha hc hlt
    have hapart := h.apart a c (hsub a ha) (hsub c hc) hlt
    by_cases heq : a = p
    · rw [heq, hendp]
      rw [heq, hend] at hapart
      exact h.apart x c (Or.inl hxfree) (hsub c hc) (lt_of_le_of_ne hapart (hnotx c hc).symm)
    · rw [hendother a heq]
      exact hapart

end Steps

section Free

theorem freeLoop_succ (fuel p : ℕ) : memmgrFreeLoop x mgr (fuel + 1) p =
    if IsPlace mgr.next x p then some p else memmgrFreeLoop x mgr fuel (mgr.next p) := by
  rw [memmgrFreeLoop]
  by_cases hin : p < x ∧ x < mgr.next p
  · have hplace : IsPlace mgr.next x p := Or.inl hin
    rw [if_pos hplace]
    exact if_pos hin
  · by_cases hout : mgr.next p ≤ p ∧ (p < x ∨ x < mgr.next p)
    · have hplace : IsPlace mgr.next x p := Or.inr hout
      rw [if_pos hplace]
      exact (if_neg hin).trans (if_pos hout)
    · have hplace : ¬ IsPlace mgr.next x p := fun h => Or.elim h hin hout
      rw [if_neg hplace]
      exact (if_neg hin).trans (if_neg hout)

/-- The loop of `memmgr_free` ends at a place of the block. -/
theorem freeLoop_place : ∀ {k fuel p : ℕ}, IsPlace mgr.next x (mgr.next^[k] p) → k < fuel →
    ∃ j, IsPlace mgr.next x (mgr.next^[j] p) ∧
      memmgrFreeLoop x mgr fuel p = some (mgr.next^[j] p) := by
  intro k
  induction k with
  | zero =>
    intro fuel p hplace hfuel
    obtain ⟨fuel, rfl⟩ : ∃ rest, fuel = rest + 1 := ⟨fuel - 1, by omega⟩
    exact ⟨0, hplace, by rw [freeLoop_succ]; exact if_pos hplace⟩
  | succ k ih =>
    intro fuel p hplace hfuel
    obtain ⟨fuel, rfl⟩ : ∃ rest, fuel = rest + 1 := ⟨fuel - 1, by omega⟩
    rw [freeLoop_succ]
    by_cases hhere : IsPlace mgr.next x p
    · exact ⟨0, hhere, if_pos hhere⟩
    · have hplace' : IsPlace mgr.next x (mgr.next^[k] (mgr.next p)) := hplace
      obtain ⟨j, hj, hloop⟩ := ih hplace' (Nat.lt_of_succ_lt_succ hfuel)
      exact ⟨j + 1, hj, (if_neg hhere).trans hloop⟩

theorem iterate_mem (h : MemmgrBlocks base lo hi free owned mgr) (hp : p ∈ base :: free) :
    ∀ k, mgr.next^[k] p ∈ base :: free := by
  intro k
  induction k generalizing p with
  | zero => exact hp
  | succ k ih => exact ih (h.visits.next_mem hp)

/-- No block has more quantas than there are between the two addresses. -/
theorem size_le (h : MemmgrBlocks base lo hi free owned mgr) {a : ℕ} (ha : a ∈ free ∨ a ∈ owned) :
    mgr.size a * sizeofMemHeader ≤ hi - lo := by
  obtain ⟨hlo, hhi⟩ := h.within a ha
  rw [Memmgr.blockEnd_eq] at hhi
  omega

/-- The block is linked in after `p`, and joined with the next one if that begins where it
ends. -/
theorem joinHigher {pre post : List ℕ} (h : MemmgrBlocks base lo hi free owned mgr) (hx : x ∈ owned)
    (hsplit : base :: free = pre ++ p :: post) (hlt : p < x) (hgt : ∀ a ∈ post, x < a)
    (hword : hi - lo < 2 ^ 64) :
    ∃ free' post', base :: free' = pre ++ p :: x :: post' ∧
      MemmgrBlocks base lo hi free' (owned \ {x}) ((memmgrJoinHigher x p mgr).setNext p x) ∧
      mgr.size x ≤ (memmgrJoinHigher x p mgr).size x ∧
      ∀ a, a ≠ x → (memmgrJoinHigher x p mgr).headers a = mgr.headers a := by
  obtain ⟨free1, hl1, h1⟩ := h.linkAfter hx hsplit hlt hgt
  have hpx : p ≠ x := Nat.ne_of_lt hlt
  have hnext : mgr.next p = post.headD base := h.visits.next_eq hsplit
  have hothers : ∀ (header : MemHeader) (a : ℕ), a ≠ x →
      (mgr.setHeader x header).headers a = mgr.headers a :=
    fun _ a ha => Function.update_of_ne ha _ _
  by_cases hend : mgr.blockEnd x = mgr.next p
  swap
  · have hjoin : memmgrJoinHigher x p mgr = mgr.setNext x (mgr.next p) := if_neg hend
    rw [hjoin]
    exact ⟨free1, post, hl1, h1, by simp, hothers _⟩
  cases post with
  | nil =>
    -- the first block of the list lies before all others
    have hxbase := h.base_lt (Or.inr hx)
    rw [hnext, Memmgr.blockEnd_eq] at hend
    exact absurd hend (by simp only [List.headD_nil]; omega)
  | cons q post =>
    obtain rfl : mgr.next p = q := hnext
    set q := mgr.next p with hq
    have hqx : q ≠ x := Nat.ne_of_gt (hgt q List.mem_cons_self)
    have hqp : q ≠ p := Nat.ne_of_gt (lt_trans hlt (hgt q List.mem_cons_self))
    have hl1' : base :: free1 = (pre ++ [p]) ++ x :: q :: post := by simpa using hl1
    have hend1 : ((mgr.setNext x q).setNext p x).blockEnd x = q := by
      rw [← hend]
      simp [Memmgr.blockEnd_eq]
    obtain ⟨free2, hl2, h2⟩ := h1.join hl1' hend1
    have hsum : mgr.size x + mgr.size q < 2 ^ 64 := by
      have hqfree : q ∈ free := by
        have hmem : q ∈ base :: free := by rw [hsplit]; simp
        refine (List.mem_cons.mp hmem).resolve_left fun heq => ?_
        exact absurd (lt_trans (h.base_lt (Or.inr hx)) (hgt q List.mem_cons_self)) (by omega)
      have hsizex := h.size_le (Or.inr hx)
      have hsizeq := h.size_le (Or.inl hqfree)
      unfold sizeofMemHeader at hsizex hsizeq
      omega
    have hjoin : memmgrJoinHigher x p mgr =
        mgr.setHeader x ⟨mgr.next q, mgr.size x + mgr.size q⟩ := by
      rw [← Word.wrap_of_lt hsum]
      exact if_pos hend
    rw [hjoin]
    have hheaders : ∀ a, ((mgr.setHeader x ⟨mgr.next q, mgr.size x + mgr.size q⟩).setNext p
        x).headers a = ((((mgr.setNext x q).setNext p x).setNext x (((mgr.setNext x q).setNext p
        x).next q)).setSize x (((mgr.setNext x q).setNext p x).size x +
        ((mgr.setNext x q).setNext p x).size q)).headers a := by
      intro a
      by_cases hap : a = p
      · subst hap
        simp [Memmgr.setSize, Memmgr.setNext, Memmgr.setHeader, hpx]
      · by_cases hax : a = x
        · subst hax
          simp [Memmgr.setSize, Memmgr.setNext, Memmgr.setHeader, Memmgr.next, Memmgr.size,
            hpx.symm, hqx, hqp]
        · simp [Memmgr.setSize, Memmgr.setNext, Memmgr.setHeader, hap, hax]
    refine ⟨free2, post, by simpa using hl2, h2.congr (fun a _ => hheaders a)
      (fun a _ => congrArg MemHeader.size (hheaders a)), ?_, hothers _⟩
    simp [Memmgr.size, Memmgr.setHeader]

/-- The block is joined with the one before it if it begins where that ends. -/
theorem joinLower {pre post : List ℕ}
    (h : MemmgrBlocks base lo hi free owned (mgr.setNext p x))
    (hsplit : base :: free = pre ++ p :: x :: post) (hlt : p < x) (hword : hi - lo < 2 ^ 64) :
    ∃ free', p ∈ base :: free' ∧ MemmgrBlocks base lo hi free' owned (memmgrJoinLower x p mgr) ∧
      (∃ c ∈ free', mgr.size x ≤ (memmgrJoinLower x p mgr).size c) ∧
      ∀ a, a ≠ p → (memmgrJoinLower x p mgr).headers a = mgr.headers a := by
  have hothers : ∀ (header : MemHeader) (a : ℕ), a ≠ p →
      (mgr.setHeader p header).headers a = mgr.headers a :=
    fun _ a ha => Function.update_of_ne ha _ _
  have hmem : ∀ a, base < a → a = p ∨ a = x → a ∈ free := by
    intro a hbase ha
    have hin : a ∈ base :: free := by rw [hsplit]; rcases ha with rfl | rfl <;> simp
    exact (List.mem_cons.mp hin).resolve_left (Nat.ne_of_gt hbase)
  have hple : base ≤ p := by
    have hin : p ∈ base :: free := by rw [hsplit]; simp
    cases List.mem_cons.mp hin with
    | inl heq => rw [heq]
    | inr hin => exact Nat.le_of_lt (h.base_lt (Or.inl hin))
  have hx := hmem x (Nat.lt_of_le_of_lt hple hlt) (Or.inr rfl)
  by_cases hend : mgr.blockEnd p = x
  swap
  · have hjoin : memmgrJoinLower x p mgr = mgr.setNext p x := if_neg hend
    rw [hjoin]
    exact ⟨free, by rw [hsplit]; simp, h, ⟨x, hx, by simp⟩, hothers _⟩
  have hend1 : (mgr.setNext p x).blockEnd p = x := by
    rw [← hend]
    simp [Memmgr.blockEnd_eq]
  obtain ⟨free', hl', h'⟩ := h.join hsplit hend1
  have hpbase : base ≠ p := by
    rintro rfl
    have hempty := h.empty
    rw [Memmgr.blockEnd_eq, hempty] at hend1
    omega
  have hp := hmem p (by omega) (Or.inl rfl)
  have hsum : mgr.size p + mgr.size x < 2 ^ 64 := by
    have hsizep := h.size_le (Or.inl hp)
    have hsizex := h.size_le (Or.inl hx)
    simp only [Memmgr.size_setNext] at hsizep hsizex
    unfold sizeofMemHeader at hsizep hsizex
    omega
  have hjoin : memmgrJoinLower x p mgr =
      mgr.setHeader p ⟨mgr.next x, mgr.size p + mgr.size x⟩ := by
    rw [← Word.wrap_of_lt hsum]
    exact if_pos hend
  have hxp : x ≠ p := Nat.ne_of_gt hlt
  have hheaders : ∀ a, (mgr.setHeader p ⟨mgr.next x, mgr.size p + mgr.size x⟩).headers a =
      (((mgr.setNext p x).setNext p ((mgr.setNext p x).next x)).setSize p
        ((mgr.setNext p x).size p + (mgr.setNext p x).size x)).headers a := by
    intro a
    by_cases hap : a = p
    · subst hap
      simp [Memmgr.setSize, Memmgr.setNext, Memmgr.setHeader, Memmgr.next, Memmgr.size, hxp]
    · simp [Memmgr.setSize, Memmgr.setNext, Memmgr.setHeader, hap]
  rw [hjoin]
  have hpmem : p ∈ base :: free' := by rw [hl']; simp
  refine ⟨free', hpmem, h'.congr (fun a _ => hheaders a)
    (fun a _ => congrArg MemHeader.size (hheaders a)), ⟨p, ?_, ?_⟩, hothers _⟩
  · exact (List.mem_cons.mp hpmem).resolve_left hpbase.symm
  · simp [Memmgr.size, Memmgr.setHeader]

/-- **`memmgr_free`** returns, and puts the block on the list, joined with its neighbours. -/
theorem freed {buffSize : ℕ} (h : MemmgrBlocks base lo hi free owned mgr) (hx : x ∈ owned)
    (hfreep : mgr.freep ∈ base :: free) (hle : lo ≤ hi) (hfit : hi - lo ≤ buffSize)
    (hword : buffSize < 2 ^ 64) :
    ∃ mgr' free', memmgrFree buffSize (x + sizeofMemHeader) mgr = some mgr' ∧
      MemmgrBlocks base lo hi free' (owned \ {x}) mgr' ∧ mgr'.freep ∈ base :: free' ∧
      mgr'.pool = mgr.pool ∧ mgr'.poolFreePos = mgr.poolFreePos ∧
      (∀ a ∈ owned \ {x}, mgr'.size a = mgr.size a) ∧ ∃ c ∈ free', mgr.size x ≤ mgr'.size c := by
  have hxbase := h.base_lt (Or.inr hx)
  -- the place of the block
  obtain ⟨p, hp, hplace, hloop⟩ : ∃ p ∈ base :: free, IsPlace mgr.next x p ∧
      memmgrFreeLoop x mgr (memmgrRounds buffSize) mgr.freep = some p := by
    obtain ⟨q, hq, hplace⟩ := h.visits.exists_place h.sorted hxbase (h.not_mem hx)
    obtain ⟨k, hk, rfl⟩ := h.visits.exists_iterate hfreep hq
    have hlength := h.length_le hle
    have hrounds : k < memmgrRounds buffSize := by
      unfold memmgrRounds sizeofMemHeader at *
      omega
    obtain ⟨j, hj, hloop⟩ := freeLoop_place hplace hrounds
    exact ⟨_, h.iterate_mem hfreep j, hj, hloop⟩
  obtain ⟨pre, post, hsplit, hlt, hgt⟩ := h.visits.place h.sorted hxbase hp hplace
  obtain ⟨free1, post1, hl1, h1, hsize1, hsame1⟩ := h.joinHigher hx hsplit hlt hgt (by omega)
  obtain ⟨free2, hp2, h2, ⟨c, hc, hsize2⟩, hsame2⟩ := h1.joinLower hl1 hlt (by omega)
  have h3 : MemmgrBlocks base lo hi free2 (owned \ {x})
      { memmgrJoinLower x p (memmgrJoinHigher x p mgr) with freep := p } :=
    h2.congr (fun _ _ => rfl) fun _ _ => rfl
  refine ⟨_, free2, ?_, h3, hp2, ?_, ?_, fun a ha => ?_, c, hc, le_trans hsize1 hsize2⟩
  · simp only [memmgrFree, Nat.add_sub_cancel, hloop, bind, Option.bind_some]
  · simp only [memmgrJoinLower, memmgrJoinHigher]
    split <;> split <;> rfl
  · simp only [memmgrJoinLower, memmgrJoinHigher]
    split <;> split <;> rfl
  · have hap : a ≠ p := fun heq => h.not_mem ha.1 (heq ▸ hp)
    exact congrArg MemHeader.size ((hsame2 a hap).trans (hsame1 a ha.2))

end Free

section Take

variable {nquantas : ℕ}

/-- A block of the right size is taken off the list. -/
theorem takeExact (h : MemmgrBlocks base lo hi free owned mgr) (hp : p ∈ base :: free)
    (hx : mgr.next p = x) (hsize : 0 < mgr.size x) :
    ∃ free', p ∈ base :: free' ∧
      MemmgrBlocks base lo hi free' (insert x owned) (mgr.setNext p (mgr.next x)) := by
  obtain ⟨pre, rest, hsplit⟩ := List.append_of_mem hp
  have hnext := h.visits.next_eq hsplit
  rw [hx] at hnext
  cases rest with
  | nil =>
    obtain rfl : x = base := hnext
    exact absurd h.empty (Nat.ne_of_gt hsize)
  | cons x' post =>
    obtain rfl : x = x' := hnext
    obtain ⟨free', hl', hvisits, hsorted, hmem, hnot⟩ := h.unlink hsplit
    have hsub : ∀ a, a ∈ free' ∨ a ∈ insert x owned → a ∈ free ∨ a ∈ owned := by
      rintro a (ha | rfl | ha)
      · exact Or.inl ((hmem a).mpr (Or.inr ha))
      · exact Or.inl ((hmem a).mpr (Or.inl rfl))
      · exact Or.inr ha
    have hend : (mgr.setNext p (mgr.next x)).blockEnd = mgr.blockEnd := by
      funext a
      simp [Memmgr.blockEnd_eq]
    refine ⟨free', by rw [hl']; simp, hvisits, hsorted, by simpa using h.empty, h.room, ?_,
      fun a ha => ?_, fun a ha => ?_, fun a c ha hc hlt => ?_⟩
    · rintro a ha (rfl | hmem')
      · exact hnot ha
      · exact h.fresh a ((hmem a).mpr (Or.inr ha)) hmem'
    · simpa using h.pos a (hsub a ha)
    · rw [hend]
      exact h.within a (hsub a ha)
    · rw [hend]
      exact h.apart a c (hsub a ha) (hsub c hc) hlt

/-- The tail of a block on the list is cut off. -/
theorem takeTail {rest : ℕ} (h : MemmgrBlocks base lo hi free owned mgr) (hx : x ∈ free)
    (hrest : 0 < rest) (hpos : 0 < nquantas) (hsize : mgr.size x = rest + nquantas) :
    MemmgrBlocks base lo hi free (insert (x + rest * sizeofMemHeader) owned)
      ((mgr.setSize x rest).setSize (x + rest * sizeofMemHeader) nquantas) := by
  set tail := x + rest * sizeofMemHeader with htail
  have hxtail : x < tail := by
    have hquanta : 0 < rest * sizeofMemHeader := Nat.mul_pos hrest (by decide)
    omega
  have htailend : tail + nquantas * sizeofMemHeader = mgr.blockEnd x := by
    rw [Memmgr.blockEnd_eq, hsize, Nat.add_mul]
    omega
  have hlttail : tail < mgr.blockEnd x := by
    have hquanta : 0 < nquantas * sizeofMemHeader := Nat.mul_pos hpos (by decide)
    omega
  -- no other block begins inside of the one that is cut
  have hnot : ∀ a, a ∈ free ∨ a ∈ owned → a ≠ tail := by
    rintro a ha rfl
    exact absurd (h.apart x tail (Or.inl hx) ha hxtail) (Nat.not_le_of_lt hlttail)
  have hbase := h.base_lt (Or.inl hx)
  have hxne : x ≠ tail := Nat.ne_of_lt hxtail
  have hend : ∀ a, ((mgr.setSize x rest).setSize tail nquantas).blockEnd a =
      if a = tail then mgr.blockEnd x else if a = x then tail else mgr.blockEnd a := by
    intro a
    rw [Memmgr.blockEnd_eq ((mgr.setSize x rest).setSize tail nquantas)]
    by_cases hat : a = tail
    · rw [if_pos hat, hat, Memmgr.size_setSize, Function.update_self, htailend]
    · rw [if_neg hat, Memmgr.size_setSize, Function.update_of_ne hat, Memmgr.size_setSize]
      by_cases hax : a = x
      · rw [if_pos hax, hax, Function.update_self]
      · rw [if_neg hax, Function.update_of_ne hax, Memmgr.blockEnd_eq]
  refine ⟨?_, h.sorted, ?_, h.room, ?_, ?_, ?_, ?_⟩
  · simpa using h.visits
  · have hne : base ≠ tail := by omega
    have hne' : base ≠ x := Nat.ne_of_lt hbase
    simpa [hne, hne'] using h.empty
  · rintro a ha (rfl | hmem)
    · exact hnot _ (Or.inl ha) rfl
    · exact h.fresh a ha hmem
  · intro a ha
    by_cases hat : a = tail
    · simp [hat, hpos]
    · by_cases hax : a = x
      · simp [hax, hxne, hrest]
      · have hold : a ∈ free ∨ a ∈ owned := ha.imp_right fun hmem => hmem.resolve_left hat
        simpa [hat, hax] using h.pos a hold
  · intro a ha
    obtain ⟨hlo, hhi⟩ := h.within x (Or.inl hx)
    rw [hend]
    by_cases hat : a = tail
    · rw [if_pos hat, hat]
      exact ⟨by omega, hhi⟩
    · rw [if_neg hat]
      have hold : a ∈ free ∨ a ∈ owned := ha.imp_right fun hmem => hmem.resolve_left hat
      by_cases hax : a = x
      · rw [if_pos hax, hax]
        exact ⟨hlo, by omega⟩
      · rw [if_neg hax]
        exact h.within a hold
  · intro a c ha hc hlt
    rw [hend]
    have hold : ∀ d, d ≠ tail → d ∈ free ∨ d ∈ insert tail owned → d ∈ free ∨ d ∈ owned :=
      fun d hdt hd => hd.imp_right fun hmem => hmem.resolve_left hdt
    by_cases hat : a = tail
    · -- what lies after the tail lay after the block
      have hct : c ≠ tail := by omega
      rw [if_pos hat]
      exact h.apart x c (Or.inl hx) (hold c hct hc) (by omega)
    · rw [if_neg hat]
      by_cases hax : a = x
      · rw [if_pos hax]
        by_cases hct : c = tail
        · omega
        · have hapart := h.apart x c (Or.inl hx) (hold c hct hc) (by omega)
          omega
      · rw [if_neg hax]
        by_cases hct : c = tail
        · have hapart := h.apart a x (hold a hat ha) (Or.inl hx)
          by_cases hlt' : a < x
          · have := hapart hlt'
            omega
          · -- a block that begins in the one that is cut
            have hinside := h.apart x a (Or.inl hx) (hold a hat ha) (by omega)
            omega
        · exact h.apart a c (hold a hat ha) (hold c hct hc) hlt

/-- **A block that is large enough** is taken off the list, or cut. -/
theorem take (h : MemmgrBlocks base lo hi free owned mgr) (hp : p ∈ base :: free)
    (hx : mgr.next p = x) (hpos : 0 < nquantas) (hsize : nquantas ≤ mgr.size x) :
    ∃ c mgr' free', memmgrTake nquantas p x mgr = (c, mgr') ∧ c ∉ owned ∧
      MemmgrBlocks base lo hi free' (insert c owned) mgr' ∧ mgr'.size c = nquantas ∧
      mgr'.freep = p ∧ p ∈ base :: free' ∧ mgr'.pool = mgr.pool ∧
      mgr'.poolFreePos = mgr.poolFreePos ∧ ∀ a ∈ owned, mgr'.size a = mgr.size a := by
  have hxfree : x ∈ free := by
    refine (List.mem_cons.mp (hx ▸ h.visits.next_mem hp)).resolve_left fun heq => ?_
    rw [heq, h.empty] at hsize
    omega
  by_cases hexact : mgr.size x = nquantas
  · obtain ⟨free', hp', h'⟩ := h.takeExact hp hx (by omega)
    refine ⟨x, { mgr.setNext p (mgr.next x) with freep := p }, free', if_pos hexact,
      h.fresh x hxfree, h'.congr (fun _ _ => rfl) (fun _ _ => rfl), ?_, rfl, hp', rfl, rfl,
      fun a _ => ?_⟩
    · exact (congrFun (mgr.size_setNext p (mgr.next x)) x).trans hexact
    · exact congrFun (mgr.size_setNext p (mgr.next x)) a
  · obtain ⟨rest, hrest⟩ := Nat.exists_eq_add_of_le' hsize
    have hrestpos : 0 < rest := by omega
    have h' := h.takeTail hxfree hrestpos hpos hrest
    have hsub : mgr.size x - nquantas = rest := by omega
    have htake : memmgrTake nquantas p x mgr = (x + rest * sizeofMemHeader,
        { (mgr.setSize x rest).setSize (x + rest * sizeofMemHeader) nquantas with
          freep := p }) := by
      rw [← hsub]
      exact if_neg hexact
    have hfresh : x + rest * sizeofMemHeader ∉ owned := by
      intro hmem
      have hquanta : 0 < rest * sizeofMemHeader := Nat.mul_pos hrestpos (by decide)
      have hapart := h.apart x _ (Or.inl hxfree) (Or.inr hmem) (by omega)
      rw [Memmgr.blockEnd_eq, hrest, Nat.add_mul] at hapart
      have hquanta' : 0 < nquantas * sizeofMemHeader := Nat.mul_pos hpos (by decide)
      omega
    refine ⟨_, _, free, htake, hfresh, h'.congr (fun _ _ => rfl) (fun _ _ => rfl), ?_, rfl, hp, rfl,
      rfl, fun a ha => ?_⟩
    · show ((mgr.setSize x rest).setSize (x + rest * sizeofMemHeader) nquantas).size _ = nquantas
      simp
    · have hat : a ≠ x + rest * sizeofMemHeader := fun heq => hfresh (heq ▸ ha)
      have hax : a ≠ x := fun heq => h.fresh x hxfree (heq ▸ ha)
      show ((mgr.setSize x rest).setSize (x + rest * sizeofMemHeader) nquantas).size a = mgr.size a
      simp [hat, hax]

end Take

end MemmgrBlocks

end Shalloc
