import Mathlib.Data.List.Basic
import Shalloc.Extent

/-!
# Tilings by a list

Extents one after another, from one address to another, with none between them. A list in
which an extent is replaced by others that tile it is a tiling again.

## Main definitions

- `Tiles` — the extents of a list tile the addresses from `lo` to `hi`

## Main results

- `Tiles.replace` — a tile cut into smaller ones, or tiles joined to a larger one
- `Tiles.eq_of_ptr` — a tile is known by its place
-/

/-- The extents of the list lie one after another, from `lo` to `hi`. -/
def Tiles {α : Type*} (ext : α → Extent) : ℕ → ℕ → List α → Prop
  | lo, hi, [] => lo = hi
  | lo, hi, x :: l => (ext x).ptr = lo ∧ Tiles ext (lo + (ext x).len) hi l

namespace Tiles

variable {α : Type*} {ext : α → Extent} {lo hi k : ℕ} {x y : α} {l l' m m' : List α}

@[simp] theorem tiles_nil : Tiles ext lo hi [] ↔ lo = hi := Iff.rfl

@[simp] theorem tiles_cons : Tiles ext lo hi (x :: l) ↔
    (ext x).ptr = lo ∧ Tiles ext (lo + (ext x).len) hi l := Iff.rfl

theorem tiles_append :
    Tiles ext lo hi (l ++ l') ↔ ∃ mid, Tiles ext lo mid l ∧ Tiles ext mid hi l' := by
  induction l generalizing lo with
  | nil => simp
  | cons x l ih => simp [ih, and_assoc]

theorem le (h : Tiles ext lo hi l) : lo ≤ hi := by
  induction l generalizing lo with
  | nil => exact Nat.le_of_eq h
  | cons x l ih => exact Nat.le_trans (Nat.le_add_right _ _) (ih h.2)

/-- Every tile lies between the ends. -/
theorem within (h : Tiles ext lo hi l) (hx : x ∈ l) :
    lo ≤ (ext x).ptr ∧ (ext x).ptr + (ext x).len ≤ hi := by
  induction l generalizing lo with
  | nil => cases hx
  | cons y l ih =>
    obtain ⟨rfl, hl⟩ := h
    rcases List.mem_cons.mp hx with rfl | hx
    · exact ⟨le_rfl, hl.le⟩
    · obtain ⟨h1, h2⟩ := ih hl hx
      exact ⟨Nat.le_trans (Nat.le_add_right _ _) h1, h2⟩

/-- A tile lies behind those before it in the list. -/
theorem pairwise (h : Tiles ext lo hi l) :
    l.Pairwise fun x y => (ext x).ptr + (ext x).len ≤ (ext y).ptr := by
  induction l generalizing lo with
  | nil => exact List.Pairwise.nil
  | cons x l ih =>
    obtain ⟨rfl, hl⟩ := h
    exact List.Pairwise.cons (fun y hy => (hl.within hy).1) (ih hl)

/-- Two tiles are the same or lie apart. -/
theorem eq_or_apart (h : Tiles ext lo hi l) (hx : x ∈ l) (hy : y ∈ l) :
    x = y ∨ (ext x).Disjoint (ext y) := by
  induction l generalizing lo with
  | nil => cases hx
  | cons z l ih =>
    obtain ⟨rfl, hl⟩ := h
    rcases List.mem_cons.mp hx with rfl | hxl
    · rcases List.mem_cons.mp hy with rfl | hyl
      · exact Or.inl rfl
      · exact Or.inr (Or.inl (hl.within hyl).1)
    · rcases List.mem_cons.mp hy with rfl | hyl
      · exact Or.inr (Or.inr (hl.within hxl).1)
      · exact ih hl hxl hyl

/-- A tile is known by its place, if no tile is empty. -/
theorem eq_of_ptr (h : Tiles ext lo hi l) (hpos : ∀ x ∈ l, 0 < (ext x).len) (hx : x ∈ l)
    (hy : y ∈ l) (heq : (ext x).ptr = (ext y).ptr) : x = y := by
  have hx0 := hpos x hx
  have hy0 := hpos y hy
  rcases h.eq_or_apart hx hy with hsame | hapart
  · exact hsame
  · rcases hapart with hlt | hlt <;> omega

/-- A tile lies apart from those before it and behind it. -/
theorem apart_middle (h : Tiles ext lo hi (l ++ [x] ++ l')) (hy : y ∈ l ∨ y ∈ l') :
    (ext x).Disjoint (ext y) := by
  have hpw := h.pairwise
  rw [List.append_assoc, List.singleton_append, List.pairwise_append, List.pairwise_cons] at hpw
  rcases hy with hy | hy
  · exact Or.inr (hpw.2.2 y hy x List.mem_cons_self)
  · exact Or.inl (hpw.2.1.1 y hy)

/-- Tiles in the middle are replaced by others from the same place to the same place. -/
theorem replace (h : Tiles ext lo hi (l ++ m ++ l'))
    (hm : ∀ mid mid', Tiles ext mid mid' m → Tiles ext mid mid' m') :
    Tiles ext lo hi (l ++ m' ++ l') := by
  rw [tiles_append] at h ⊢
  obtain ⟨mid', h, hl'⟩ := h
  rw [tiles_append] at h
  obtain ⟨mid, hl, hmid⟩ := h
  exact ⟨mid', tiles_append.mpr ⟨mid, hl, hm mid mid' hmid⟩, hl'⟩

/-- Tiles of `k` cells or more are not more than their cells allow. -/
theorem length_mul_le (h : Tiles ext lo hi l) (hk : ∀ x ∈ l, k ≤ (ext x).len) :
    l.length * k ≤ hi - lo := by
  induction l generalizing lo with
  | nil => simp
  | cons x l ih =>
    obtain ⟨rfl, hl⟩ := h
    have hx := hk x List.mem_cons_self
    have hrest := ih hl fun y hy => hk y (List.mem_cons_of_mem _ hy)
    have hle := hl.le
    rw [List.length_cons, Nat.succ_mul]
    omega

end Tiles
