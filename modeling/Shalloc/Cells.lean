import Mathlib.Logic.Function.Basic
import Mathlib.Tactic.Common

/-!
# Lists in memory

A memory is a function from addresses to cells. These are the memories that hold a list in
consecutive cells, and the memory after a list is written.

## Main definitions

- `Cells.Holds` — the cells from an address on hold a list
- `Cells.put` — the list is written there
-/

namespace Cells

variable {α : Type*} {mem mem' : ℕ → α} {p a : ℕ} {l : List α}

/-- The cells from `p` on hold the list. -/
def Holds (mem : ℕ → α) (p : ℕ) : List α → Prop
  | [] => True
  | x :: l => mem p = x ∧ Holds mem (p + 1) l

/-- Write the list to the cells from `p` on. -/
def put (mem : ℕ → α) (p : ℕ) : List α → ℕ → α
  | [] => mem
  | x :: l => put (Function.update mem p x) (p + 1) l

@[simp] theorem holds_nil : Holds mem p [] := trivial

@[simp] theorem holds_cons {x : α} : Holds mem p (x :: l) ↔ mem p = x ∧ Holds mem (p + 1) l :=
  Iff.rfl

@[simp] theorem put_nil : put mem p [] = mem := rfl

@[simp] theorem put_cons {x : α} :
    put mem p (x :: l) = put (Function.update mem p x) (p + 1) l := rfl

/-- Only the cells of the list count. -/
theorem Holds.congr (h : Holds mem p l) (heq : ∀ a, p ≤ a → a < p + l.length → mem' a = mem a) :
    Holds mem' p l := by
  induction l generalizing p with
  | nil => trivial
  | cons x l ih =>
    obtain ⟨hx, hl⟩ := h
    rw [List.length_cons] at heq
    exact ⟨(heq p (Nat.le_refl p) (by omega)).trans hx,
      ih hl fun a h1 h2 => heq a (by omega) (by omega)⟩

theorem put_of_lt (ha : a < p) : put mem p l a = mem a := by
  induction l generalizing mem p with
  | nil => rfl
  | cons x l ih =>
    rw [put_cons, ih (by omega), Function.update_of_ne (by omega)]

theorem put_of_le (ha : p + l.length ≤ a) : put mem p l a = mem a := by
  induction l generalizing mem p with
  | nil => rfl
  | cons x l ih =>
    rw [List.length_cons] at ha
    rw [put_cons, ih (by omega), Function.update_of_ne (by omega)]

/-- The cells outside the list are as before. -/
theorem put_of_outside (ha : a < p ∨ p + l.length ≤ a) : put mem p l a = mem a :=
  ha.elim put_of_lt put_of_le

theorem holds_put : Holds (put mem p l) p l := by
  induction l generalizing mem p with
  | nil => trivial
  | cons x l ih =>
    refine ⟨?_, ih⟩
    rw [put_cons, put_of_lt (Nat.lt_succ_self p), Function.update_self]

end Cells
