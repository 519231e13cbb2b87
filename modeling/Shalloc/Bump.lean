import Mathlib.Data.List.TakeDrop
import Mathlib.Data.List.Pairwise
import Mathlib.Logic.Function.Basic
import Mathlib.Order.Interval.Finset.Nat
import Shalloc.Extent

/-!
# Bump placement

Extents laid out by pointers that only move up. A list of extents, oldest first, is
stacked if each one begins at or after the end of the one before it, and back to back if it
leaves no gap. Several parties may append to one list, each with a pointer of its own; the
list stays free of overlaps exactly as long as every party places its extents at the end
of the list.

## Main definitions

- `Extent.Stacked`, `Extent.BackToBack` — lists of extents, with and without gaps
- `Bump`, `Bump.Run` — parties that place extents in one list

## Main results

- `Extent.Stacked.past_iff` — the lengths add up to the end of the list iff there is no gap
- `Bump.Run.pairwise_iff` — when the list of several parties is free of overlaps
-/

namespace Extent

/-- The lengths of the extents together. -/
def total : List Extent → ℕ
  | [] => 0
  | e :: es => e.len + total es

@[simp] theorem total_nil : total [] = 0 := rfl

@[simp] theorem total_cons (e : Extent) (es : List Extent) : total (e :: es) = e.len + total es :=
  rfl

@[simp] theorem total_append (es es' : List Extent) :
    total (es ++ es') = total es + total es' := by
  induction es with
  | nil => simp
  | cons e es ih => simp [ih, Nat.add_assoc]

theorem total_perm {es es' : List Extent} (h : es.Perm es') : total es = total es' := by
  induction h with
  | nil => rfl
  | cons e _ ih => rw [total_cons, total_cons, ih]
  | swap e e' es => rw [total_cons, total_cons, total_cons, total_cons, Nat.add_left_comm]
  | trans _ _ ih ih' => exact ih.trans ih'

theorem length_le_total {es : List Extent} (h : ∀ e ∈ es, 0 < e.len) : es.length ≤ total es := by
  induction es with
  | nil => exact le_rfl
  | cons e es ih =>
    have hpos := h e List.mem_cons_self
    have hrest := ih fun e' he' => h e' (List.mem_cons_of_mem _ he')
    rw [List.length_cons, total_cons]
    omega

/-- The addresses of extents that lie apart are as many as the lengths together. -/
theorem exists_card_eq_total {es : List Extent} (h : es.Pairwise Disjoint) :
    ∃ s : Finset ℕ, s.card = total es ∧
      ∀ a, a ∈ s ↔ ∃ e ∈ es, e.ptr ≤ a ∧ a < e.ptr + e.len := by
  induction es with
  | nil => exact ⟨∅, rfl, fun a => by simp⟩
  | cons e es ih =>
    obtain ⟨hhead, hrest⟩ := List.pairwise_cons.mp h
    obtain ⟨s, hcard, hmem⟩ := ih hrest
    refine ⟨Finset.Ico e.ptr (e.ptr + e.len) ∪ s, ?_, fun a => ?_⟩
    · have hunion := Finset.card_union_of_disjoint (s := Finset.Ico e.ptr (e.ptr + e.len)) (t := s)
        (Finset.disjoint_left.mpr fun a ha has => by
          obtain ⟨e', he', hle, hlt⟩ := (hmem a).mp has
          rw [Finset.mem_Ico] at ha
          rcases hhead e' he' with h | h <;> omega)
      rw [hunion, Nat.card_Ico, hcard, total_cons, Nat.add_sub_cancel_left]
    · rw [Finset.mem_union, Finset.mem_Ico, hmem]
      simp

/-- Extents that lie apart within another one are no longer than it. -/
theorem total_le_of_within {es : List Extent} {r : Extent} (h : es.Pairwise Disjoint)
    (hin : ∀ e ∈ es, Within e r) : total es ≤ r.len := by
  obtain ⟨s, hcard, hmem⟩ := exists_card_eq_total h
  have hsub : s ⊆ Finset.Ico r.ptr (r.ptr + r.len) := fun a ha => by
    obtain ⟨e, he, hle, hlt⟩ := (hmem a).mp ha
    obtain ⟨h1, h2⟩ := hin e he
    rw [Finset.mem_Ico]
    omega
  have hle := Finset.card_le_card hsub
  rwa [hcard, Nat.card_Ico, Nat.add_sub_cancel_left] at hle

/-- Non-empty extents from `lo` up to `hi`, each at or after the end of the one before. -/
def Stacked (lo : ℕ) : List Extent → ℕ → Prop
  | [], hi => lo ≤ hi
  | e :: es, hi => lo ≤ e.ptr ∧ 0 < e.len ∧ Stacked (e.ptr + e.len) es hi

/-- Non-empty extents from `lo` on, with no gap. -/
def BackToBack (lo : ℕ) : List Extent → Prop
  | [] => True
  | e :: es => e.ptr = lo ∧ 0 < e.len ∧ BackToBack (lo + e.len) es

section Stacked

variable {lo hi : ℕ} {es : List Extent} {e : Extent}

theorem Stacked.le (h : Stacked lo es hi) : lo ≤ hi := by
  induction es generalizing lo with
  | nil => exact h
  | cons e es ih =>
    obtain ⟨hlo, -, hrest⟩ := h
    have := ih hrest
    omega

theorem Stacked.mono {hi' : ℕ} (h : Stacked lo es hi) (hle : hi ≤ hi') : Stacked lo es hi' := by
  induction es generalizing lo with
  | nil => exact Nat.le_trans h hle
  | cons e es ih => exact ⟨h.1, h.2.1, ih h.2.2⟩

theorem Stacked.within (h : Stacked lo es hi) :
    ∀ e ∈ es, lo ≤ e.ptr ∧ 0 < e.len ∧ e.ptr + e.len ≤ hi := by
  induction es generalizing lo with
  | nil => exact fun e he => absurd he List.not_mem_nil
  | cons d es ih =>
    obtain ⟨hlo, hpos, hrest⟩ := h
    intro e he
    cases List.mem_cons.mp he with
    | inl heq => subst heq; exact ⟨hlo, hpos, hrest.le⟩
    | inr he =>
      obtain ⟨h1, h2, h3⟩ := ih hrest e he
      exact ⟨by omega, h2, h3⟩

/-- Stacked extents lie pairwise apart. -/
theorem Stacked.pairwise (h : Stacked lo es hi) : es.Pairwise Disjoint := by
  induction es generalizing lo with
  | nil => exact List.Pairwise.nil
  | cons d es ih =>
    refine List.Pairwise.cons (fun e he => ?_) (ih h.2.2)
    exact Or.inl (h.2.2.within e he).1

/-- A new extent at or after the end of the list goes on top. -/
theorem Stacked.concat (h : Stacked lo es hi) (hhi : hi ≤ e.ptr) (hpos : 0 < e.len) :
    Stacked lo (es ++ [e]) (e.ptr + e.len) := by
  induction es generalizing lo with
  | nil => exact ⟨Nat.le_trans h hhi, hpos, le_rfl⟩
  | cons d es ih => exact ⟨h.1, h.2.1, ih h.2.2⟩

theorem Stacked.take (h : Stacked lo es hi) (n : ℕ) : Stacked lo (es.take n) hi := by
  induction es generalizing lo n with
  | nil => simpa using h
  | cons d es ih =>
    cases n with
    | zero => exact h.le
    | succ n => exact ⟨h.1, h.2.1, ih h.2.2 n⟩

/-- The last of some stacked extents ends at or after the first one's start plus all
their lengths. -/
theorem Stacked.exists_le_end (h : Stacked lo (e :: es) hi) :
    ∃ d ∈ e :: es, e.ptr + total (e :: es) ≤ d.ptr + d.len := by
  induction es generalizing lo e with
  | nil => exact ⟨e, List.mem_cons_self, by simp⟩
  | cons d es ih =>
    obtain ⟨c, hc, hle⟩ := ih h.2.2
    have hd := h.2.2.1
    exact ⟨c, List.mem_cons_of_mem _ hc, by simp only [total_cons] at hle ⊢; omega⟩

theorem BackToBack.stacked (h : BackToBack lo es) : Stacked lo es (lo + total es) := by
  induction es generalizing lo with
  | nil => exact le_rfl
  | cons e es ih =>
    obtain ⟨rfl, hpos, hrest⟩ := h
    refine ⟨le_rfl, hpos, ?_⟩
    rw [total_cons, ← Nat.add_assoc]
    exact ih hrest

theorem BackToBack.concat (h : BackToBack lo es) {n : ℕ} (hpos : 0 < n) :
    BackToBack lo (es ++ [⟨lo + total es, n⟩]) := by
  induction es generalizing lo with
  | nil => exact ⟨rfl, hpos, trivial⟩
  | cons e es ih =>
    obtain ⟨hptr, hlen, hrest⟩ := h
    refine ⟨hptr, hlen, ?_⟩
    rw [total_cons, ← Nat.add_assoc]
    exact ih hrest

/-- Every address up to the end of the list belongs to one of its extents. -/
theorem BackToBack.covers (h : BackToBack lo es) {a : ℕ} (hlo : lo ≤ a)
    (hhi : a < lo + total es) : ∃ e ∈ es, e.ptr ≤ a ∧ a < e.ptr + e.len := by
  induction es generalizing lo with
  | nil => exact absurd hhi (by simpa using hlo)
  | cons e es ih =>
    obtain ⟨rfl, -, hrest⟩ := h
    by_cases ha : a < e.ptr + e.len
    · exact ⟨e, List.mem_cons_self, hlo, ha⟩
    · obtain ⟨d, hd, hcover⟩ := ih hrest (by omega) (by rw [total_cons] at hhi; omega)
      exact ⟨d, List.mem_cons_of_mem _ hd, hcover⟩

/-- **The lengths of stacked extents add up past their ends exactly if there is no gap.** -/
theorem Stacked.past_iff (h : Stacked lo es hi) :
    (∀ e ∈ es, e.ptr + e.len ≤ lo + total es) ↔ BackToBack lo es := by
  constructor
  · intro hpast
    induction es generalizing lo with
    | nil => trivial
    | cons e es ih =>
      obtain ⟨d, hd, hle⟩ := h.exists_le_end
      have hd' := hpast d hd
      have hptr : e.ptr = lo := Nat.le_antisymm (by omega) h.1
      subst hptr
      refine ⟨rfl, h.2.1, ih h.2.2 fun c hc => ?_⟩
      have hc' := hpast c (List.mem_cons_of_mem _ hc)
      rwa [total_cons, ← Nat.add_assoc] at hc'
  · exact fun hback e he => (hback.stacked.within e he).2.2

end Stacked

end Extent

/-- Parties of type `ι`, each with a pointer to where it places its next extent, and the
extents that they have placed, oldest first. -/
structure Bump (ι : Type*) where
  next : ι → ℕ
  placed : List Extent

namespace Bump

variable {ι : Type*} [DecidableEq ι] {lo : ℕ} {s s' : Bump ι}

/-- Party `i` places an extent of length `n` and moves its own pointer past it. -/
def place (s : Bump ι) (i : ι) (n : ℕ) : Bump ι where
  next := Function.update s.next i (s.next i + n)
  placed := s.placed ++ [⟨s.next i, n⟩]

/-- The pointer of party `i` accounts for all the extents placed from `lo` on. -/
def UpToDate (lo : ℕ) (s : Bump ι) (i : ι) : Prop := s.next i = lo + Extent.total s.placed

/-- A run, with the states in which an extent was placed, and by whom, latest first. -/
inductive Run (s : Bump ι) : List (Bump ι × ι) → Bump ι → Prop
  | refl : Run s [] s
  | place {past s' i n} : Run s past s' → 0 < n → Run s ((s', i) :: past) (s'.place i n)

/-- What every run keeps: no pointer is past the lengths of all extents together. -/
def Bounded (lo : ℕ) (s : Bump ι) : Prop :=
  ∀ i, lo ≤ s.next i ∧ s.next i ≤ lo + Extent.total s.placed

theorem Bounded.place (h : Bounded lo s) (i : ι) (n : ℕ) : Bounded lo (s.place i n) := by
  intro j
  obtain ⟨h1, h2⟩ := h j
  have htotal : Extent.total (s.place i n).placed = Extent.total s.placed + n := by
    simp [Bump.place]
  have hnext : (s.place i n).next j = if j = i then s.next i + n else s.next j :=
    Function.update_apply ..
  rw [htotal, hnext]
  split
  · next heq => subst heq; omega
  · omega

theorem Run.bounded {past : List (Bump ι × ι)} (hrun : Run s past s') (h : Bounded lo s) :
    Bounded lo s' := by
  induction hrun with
  | refl => exact h
  | place _ _ ih => exact ih.place _ _

/-- As long as every party places its extents at the end of the list, there is no gap. -/
theorem Run.backToBack {past : List (Bump ι × ι)} (hrun : Run s past s')
    (h : Extent.BackToBack lo s.placed) (hdate : ∀ e ∈ past, UpToDate lo e.1 e.2) :
    Extent.BackToBack lo s'.placed := by
  induction hrun with
  | refl => exact h
  | @place past s' i n _ hpos ih =>
    have hback := ih fun e he => hdate e (List.mem_cons_of_mem _ he)
    have hi : s'.next i = lo + Extent.total s'.placed := hdate _ List.mem_cons_self
    simp only [Bump.place, hi]
    exact hback.concat hpos

/-- **Free of overlaps.** The extents that the parties place in a list without gaps lie
pairwise apart iff each of them was placed by a party whose pointer accounts for all the
extents in the list. -/
theorem Run.pairwise_iff {past : List (Bump ι × ι)} (hrun : Run s past s')
    (hback : Extent.BackToBack lo s.placed) (hbounded : Bounded lo s) :
    s'.placed.Pairwise Extent.Disjoint ↔ ∀ e ∈ past, UpToDate lo e.1 e.2 := by
  refine ⟨fun hapart => ?_, fun hdate => (hrun.backToBack hback hdate).stacked.pairwise⟩
  induction hrun with
  | refl => exact fun e he => absurd he List.not_mem_nil
  | @place past s' i n hrun hpos ih =>
    obtain ⟨hbefore, -, hnew⟩ := List.pairwise_append.mp hapart
    have hdate := ih hbefore
    intro e he
    cases List.mem_cons.mp he with
    | inr he => exact hdate e he
    | inl heq =>
      subst heq
      obtain ⟨hlo, hhi⟩ := hrun.bounded hbounded i
      by_contra hne
      -- the pointer lies inside an extent of the list, and so does the new extent's start
      obtain ⟨d, hd, hstart, hend⟩ := (hrun.backToBack hback hdate).covers hlo
        (Nat.lt_of_le_of_ne hhi hne)
      cases hnew d hd ⟨s'.next i, n⟩ (List.mem_singleton.mpr rfl) with
      | inl h => exact absurd h (by simp only; omega)
      | inr h => exact absurd h (by simp only; omega)

end Bump
