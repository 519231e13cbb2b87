import Mathlib.Data.List.Chain
import Mathlib.Logic.Function.Basic
import Mathlib.Logic.Function.Iterate
import Mathlib.Order.Lattice

/-!
# Circular lists

A function `next` that visits the elements of a list one after the other and then comes back to
the first one. Following `next` from any element leads to every other, elements can be linked in
and out, and in a list that is sorted there is one place for a new element.

## Main definitions

- `Circular.Visits` — the list that `next` goes through

## Main results

- `Circular.Visits.exists_iterate` — every element is reached in one round
- `Circular.Visits.insert`, `Circular.Visits.remove` — linking in and out
- `Circular.Visits.place` — the place of a new element in a sorted list
-/

namespace Circular

variable {α : Type} {next next' : α → α} {b p q x y : α} {l pre post : List α}

/-- Following `next` from `b` visits the elements of `l` in order and comes back to `b`. -/
def Visits (next : α → α) (b : α) (l : List α) : Prop :=
  List.IsChain (fun x y => next x = y) (b :: l ++ [b])

/-- The links of all elements but the last make a chain. -/
theorem isChain_congr {s : List α} {z : α} (hsame : ∀ a ∈ s, next' a = next a) :
    List.IsChain (fun x y => next' x = y) (s ++ [z]) ↔
      List.IsChain (fun x y => next x = y) (s ++ [z]) := by
  induction s with
  | nil => simp
  | cons a s ih =>
    have hrest := ih fun c hc => hsame c (List.mem_cons_of_mem _ hc)
    cases s with
    | nil => simp [hsame a List.mem_cons_self]
    | cons c s =>
      simp only [List.cons_append, List.isChain_cons_cons] at hrest ⊢
      rw [hrest, hsame a List.mem_cons_self]

theorem Visits.congr (h : Visits next b l) (hsame : ∀ a ∈ b :: l, next' a = next a) :
    Visits next' b l :=
  (isChain_congr hsame).mpr h

/-- The list in two parts. -/
theorem Visits.split_iff (hsplit : b :: l = pre ++ x :: post) : Visits next b l ↔
    List.IsChain (fun x y => next x = y) (pre ++ [x]) ∧
      List.IsChain (fun x y => next x = y) (x :: (post ++ [b])) := by
  have heq : b :: l ++ [b] = pre ++ x :: (post ++ [b]) := by simp [hsplit]
  rw [Visits, heq, List.isChain_split]

/-- One element that leads back to itself. -/
theorem visits_nil (h : next b = b) : Visits next b [] := by
  simpa [Visits] using h

section Reach

/-- The elements of a chain are the iterates of the first one. -/
theorem iterate_of_isChain : ∀ {s : List α} {a : α} {i : ℕ} (hi : i < (a :: s).length),
    List.IsChain (fun x y => next x = y) (a :: s) → next^[i] a = (a :: s)[i] := by
  intro s
  induction s with
  | nil =>
    intro a i hi _
    obtain rfl : i = 0 := by simpa using hi
    rfl
  | cons c s ih =>
    intro a i hi h
    obtain ⟨hstep, hrest⟩ := List.isChain_cons_cons.mp h
    cases i with
    | zero => rfl
    | succ i =>
      rw [Function.iterate_succ_apply, hstep]
      exact ih (by simpa using hi) hrest

/-- Every element is reached from every other in one round. -/
theorem Visits.exists_iterate (h : Visits next b l) (hx : x ∈ b :: l) (hy : y ∈ b :: l) :
    ∃ k ≤ l.length, next^[k] x = y := by
  obtain ⟨pre, post, hsplit⟩ := List.append_of_mem hx
  have hlen : l.length = pre.length + post.length := by
    have hlen := congrArg List.length hsplit
    simp only [List.length_cons, List.length_append] at hlen
    omega
  have hchain := ((Visits.split_iff hsplit).mp h).2
  rw [hsplit] at hy
  cases List.mem_append.mp hy with
  | inr hy =>
    -- further on in the list
    obtain ⟨i, hi, rfl⟩ := List.getElem_of_mem hy
    have hi' : i < (x :: (post ++ [b])).length := by simp at hi ⊢; omega
    refine ⟨i, by simp at hi; omega, ?_⟩
    rw [iterate_of_isChain hi' hchain]
    simp only [← List.cons_append]
    exact List.getElem_append_left hi
  | inl hy =>
    -- past the first element
    obtain ⟨i, hi, rfl⟩ := List.getElem_of_mem hy
    have hback : next^[post.length + 1] x = b := by
      rw [iterate_of_isChain (i := post.length + 1) (by simp) hchain]
      simp
    refine ⟨i + (post.length + 1), by omega, ?_⟩
    rw [Function.iterate_add_apply, hback]
    have hi' : i < (b :: (l ++ [b])).length := by simp; omega
    rw [iterate_of_isChain hi' h]
    have hbl : i < (b :: l).length := by simp; omega
    have hleft : (b :: (l ++ [b]))[i] = (b :: l)[i] := by
      simp only [← List.cons_append]
      exact List.getElem_append_left hbl
    rw [hleft]
    simp only [hsplit]
    exact List.getElem_append_left hi

/-- The successor of an element. -/
theorem Visits.next_eq (h : Visits next b l) (hsplit : b :: l = pre ++ x :: post) :
    next x = post.headD b := by
  have hchain := ((Visits.split_iff hsplit).mp h).2
  cases post with
  | nil => exact (List.isChain_cons_cons.mp hchain).1
  | cons c post => exact (List.isChain_cons_cons.mp hchain).1

theorem Visits.next_mem (h : Visits next b l) (hx : x ∈ b :: l) : next x ∈ b :: l := by
  obtain ⟨pre, post, hsplit⟩ := List.append_of_mem hx
  rw [h.next_eq hsplit, hsplit]
  cases post with
  | nil =>
    cases pre with
    | nil => simp [(List.cons.inj hsplit).1]
    | cons c pre => simp [(List.cons.inj hsplit).1]
  | cons c post => simp

end Reach

section Links

/-- The element after `p` in a list that begins with `b` is not the first one, so that the list
without it, or with another one there, begins with `b` too. -/
theorem exists_tail (hsplit : b :: l = pre ++ p :: post) (post' : List α) :
    ∃ l', b :: l' = pre ++ p :: post' := by
  cases pre with
  | nil => exact ⟨post', by simp [(List.cons.inj hsplit).1]⟩
  | cons c pre => exact ⟨pre ++ p :: post', by simp [(List.cons.inj hsplit).1]⟩

/-- The list with another element after `p`. -/
theorem perm_insert (hsplit : b :: l = pre ++ p :: post) {l' : List α}
    (hl' : b :: l' = pre ++ p :: x :: post) : l'.Perm (x :: l) := by
  have hperm : (b :: l').Perm (x :: b :: l) := by
    have hmiddle : ((pre ++ [p]) ++ x :: post).Perm (x :: ((pre ++ [p]) ++ post)) :=
      List.perm_middle
    rw [hl', hsplit]
    simpa using hmiddle
  exact (hperm.trans (List.Perm.swap ..)).cons_inv

/-- A new element is linked in after `p`. -/
theorem Visits.insert (h : Visits next b l) (hnodup : (b :: l).Nodup)
    (hsplit : b :: l = pre ++ p :: post) {l' : List α} (hl' : b :: l' = pre ++ p :: x :: post)
    (hsame : ∀ a ∈ b :: l, a ≠ p → next' a = next a) (hp : next' p = x) (hnext : next' x = next p) :
    Visits next' b l' := by
  obtain ⟨hpre, hpost⟩ := (Visits.split_iff hsplit).mp h
  rw [hsplit] at hnodup hsame
  obtain ⟨-, hnodup', hapart⟩ := List.nodup_append.mp hnodup
  have hprep : ∀ a ∈ pre, next' a = next a :=
    fun a ha => hsame a (List.mem_append_left _ ha) (hapart a ha p List.mem_cons_self)
  have hpostp : ∀ a ∈ post, next' a = next a := fun a ha =>
    hsame a (List.mem_append_right _ (List.mem_cons_of_mem _ ha))
      fun heq => (List.nodup_cons.mp hnodup').1 (heq ▸ ha)
  refine (Visits.split_iff hl').mpr ⟨(isChain_congr hprep).mpr hpre, ?_⟩
  refine List.isChain_cons_cons.mpr ⟨hp, ?_⟩
  cases post with
  | nil =>
    obtain ⟨hstep, -⟩ := List.isChain_cons_cons.mp hpost
    simpa using hnext.trans hstep
  | cons q post =>
    obtain ⟨hstep, hrest⟩ := List.isChain_cons_cons.mp hpost
    exact List.isChain_cons_cons.mpr ⟨hnext.trans hstep, (isChain_congr hpostp).mpr hrest⟩

/-- The element after `p` is linked out. -/
theorem Visits.remove (h : Visits next b l) (hnodup : (b :: l).Nodup)
    (hsplit : b :: l = pre ++ p :: x :: post) {l' : List α} (hl' : b :: l' = pre ++ p :: post)
    (hsame : ∀ a ∈ b :: l', a ≠ p → next' a = next a) (hp : next' p = next x) :
    Visits next' b l' := by
  obtain ⟨hpre, hpost⟩ := (Visits.split_iff hsplit).mp h
  rw [hsplit] at hnodup
  rw [hl'] at hsame
  obtain ⟨-, hnodup', hapart⟩ := List.nodup_append.mp hnodup
  have hprep : ∀ a ∈ pre, next' a = next a :=
    fun a ha => hsame a (List.mem_append_left _ ha) (hapart a ha p List.mem_cons_self)
  have hpostp : ∀ a ∈ post, next' a = next a := fun a ha =>
    hsame a (List.mem_append_right _ (List.mem_cons_of_mem _ ha))
      fun heq => (List.nodup_cons.mp hnodup').1 (List.mem_cons_of_mem _ (heq ▸ ha))
  refine (Visits.split_iff hl').mpr ⟨(isChain_congr hprep).mpr hpre, ?_⟩
  obtain ⟨-, hpost⟩ := List.isChain_cons_cons.mp hpost
  cases post with
  | nil =>
    obtain ⟨hstep, -⟩ := List.isChain_cons_cons.mp hpost
    simpa using hp.trans hstep
  | cons q post =>
    obtain ⟨hstep, hrest⟩ := List.isChain_cons_cons.mp hpost
    exact List.isChain_cons_cons.mpr ⟨hp.trans hstep, (isChain_congr hpostp).mpr hrest⟩

end Links

section Sorted

variable {α : Type} [LinearOrder α] {next : α → α} {b p x : α} {l : List α}

/-- `p` is where a new element `x` goes: it lies between `p` and the next element, or `p` is the
last element and `x` lies outside of the list. -/
def IsPlace (next : α → α) (x p : α) : Prop :=
  (p < x ∧ x < next p) ∨ (next p ≤ p ∧ (p < x ∨ x < next p))

instance (next : α → α) (x p : α) : Decidable (IsPlace next x p) :=
  inferInstanceAs (Decidable (_ ∨ _))

/-- The place of an element above the first one splits the list. -/
theorem Visits.place (h : Visits next b l) (hsorted : (b :: l).Pairwise (· < ·)) (hb : b < x)
    (hp : p ∈ b :: l) (hplace : IsPlace next x p) :
    ∃ pre post, b :: l = pre ++ p :: post ∧ p < x ∧ ∀ a ∈ post, x < a := by
  obtain ⟨pre, post, hsplit⟩ := List.append_of_mem hp
  have hnext := h.next_eq hsplit
  rw [hsplit] at hsorted
  obtain ⟨-, hpost, -⟩ := List.pairwise_append.mp hsorted
  obtain ⟨hgt, hrest⟩ := List.pairwise_cons.mp hpost
  refine ⟨pre, post, hsplit, ?_⟩
  cases post with
  | nil =>
    have hnext : next p = b := hnext
    rcases hplace with ⟨hlt, -⟩ | ⟨-, hlt | hlt⟩
    · exact ⟨hlt, fun a ha => absurd ha List.not_mem_nil⟩
    · exact ⟨hlt, fun a ha => absurd ha List.not_mem_nil⟩
    · exact absurd (hnext ▸ hlt) (not_lt_of_gt hb)
  | cons c post =>
    have hnext : next p = c := hnext
    have hpc : p < c := hgt c List.mem_cons_self
    rcases hplace with ⟨hlt, hlt'⟩ | ⟨hle, -⟩
    · refine ⟨hlt, fun a ha => ?_⟩
      rw [hnext] at hlt'
      cases List.mem_cons.mp ha with
      | inl heq => rwa [heq]
      | inr ha => exact lt_trans hlt' ((List.pairwise_cons.mp hrest).1 a ha)
    · exact absurd (hnext ▸ hle) (not_le_of_gt hpc)

/-- An element above the first one that is not in the list has a place. -/
theorem Visits.exists_place (h : Visits next b l) (hsorted : (b :: l).Pairwise (· < ·))
    (hb : b < x) (hx : x ∉ b :: l) : ∃ p ∈ b :: l, IsPlace next x p := by
  obtain ⟨pre, p, post, hsplit, hlt, hgt⟩ : ∃ pre p post, b :: l = pre ++ p :: post ∧ p < x ∧
      ∀ a ∈ post, x < a := by
    clear h
    induction l generalizing b with
    | nil => exact ⟨[], b, [], rfl, hb, fun a ha => absurd ha List.not_mem_nil⟩
    | cons c l ih =>
      obtain ⟨hfirst, hrest⟩ := List.pairwise_cons.mp hsorted
      rcases lt_trichotomy c x with hc | rfl | hc
      · obtain ⟨pre, p, post, hsplit, hlt, hgt⟩ :=
          ih hrest hc fun hmem => hx (List.mem_cons_of_mem _ hmem)
        exact ⟨b :: pre, p, post, by rw [hsplit]; rfl, hlt, hgt⟩
      · exact absurd (List.mem_cons_of_mem _ List.mem_cons_self) hx
      · refine ⟨[], b, c :: l, rfl, hb, fun a ha => ?_⟩
        cases List.mem_cons.mp ha with
        | inl heq => rwa [heq]
        | inr ha => exact lt_trans hc ((List.pairwise_cons.mp hrest).1 a ha)
  refine ⟨p, by rw [hsplit]; simp, ?_⟩
  have hnext := h.next_eq hsplit
  cases post with
  | nil =>
    have hnext : next p = b := hnext
    refine Or.inr ⟨?_, Or.inl hlt⟩
    rw [hnext]
    have hp : p ∈ b :: l := by rw [hsplit]; simp
    cases List.mem_cons.mp hp with
    | inl heq => rw [heq]
    | inr hp => exact le_of_lt ((List.pairwise_cons.mp hsorted).1 p hp)
  | cons c post =>
    have hnext : next p = c := hnext
    exact Or.inl ⟨hlt, hnext ▸ hgt c List.mem_cons_self⟩

end Sorted

end Circular
