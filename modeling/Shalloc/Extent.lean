import Mathlib.Tactic.Common
import Mathlib.Data.Nat.Basic
import Mathlib.Order.Basic

/-!
# Extents of memory

Half-open address ranges `[ptr, ptr + len)`, when two of them lie apart, and when one
lies within another.

## Main definitions

- `Extent.Disjoint`, `Extent.Within` — the two relations on extents
-/

/-- The address range `[ptr, ptr + len)`. -/
structure Extent where
  ptr : ℕ
  len : ℕ
deriving DecidableEq, Repr

namespace Extent

/-- One extent ends before the other begins. -/
def Disjoint (a b : Extent) : Prop := a.ptr + a.len ≤ b.ptr ∨ b.ptr + b.len ≤ a.ptr

/-- Every address of `a` is an address of `b`. -/
def Within (a b : Extent) : Prop := b.ptr ≤ a.ptr ∧ a.ptr + a.len ≤ b.ptr + b.len

instance (a b : Extent) : Decidable (a.Disjoint b) := inferInstanceAs (Decidable (_ ∨ _))

instance (a b : Extent) : Decidable (a.Within b) := inferInstanceAs (Decidable (_ ∧ _))

theorem Disjoint.symm {a b : Extent} (h : a.Disjoint b) : b.Disjoint a := Or.symm h

instance : Std.Symm Disjoint := ⟨fun _ _ h => h.symm⟩

theorem Within.refl (a : Extent) : a.Within a := ⟨le_rfl, le_rfl⟩

theorem Within.trans {a b c : Extent} (h : a.Within b) (h' : b.Within c) : a.Within c :=
  ⟨le_trans h'.1 h.1, le_trans h.2 h'.2⟩

/-- Parts of extents that lie apart lie apart. -/
theorem Disjoint.mono {a a' b b' : Extent} (h : a.Disjoint b) (ha : a'.Within a)
    (hb : b'.Within b) : a'.Disjoint b' := by
  obtain ⟨ha1, ha2⟩ := ha
  obtain ⟨hb1, hb2⟩ := hb
  rcases h with h | h
  · exact Or.inl (by omega)
  · exact Or.inr (by omega)

theorem Disjoint.mono_left {a a' b : Extent} (h : a.Disjoint b) (ha : a'.Within a) :
    a'.Disjoint b :=
  h.mono ha (Within.refl b)

theorem Disjoint.mono_right {a b b' : Extent} (h : a.Disjoint b) (hb : b'.Within b) :
    a.Disjoint b' :=
  h.mono (Within.refl a) hb

/-- A non-empty extent does not lie apart from one that contains it. -/
theorem Within.not_disjoint {a b : Extent} (h : a.Within b) (ha : 0 < a.len) :
    ¬ a.Disjoint b := by
  obtain ⟨h1, h2⟩ := h
  rintro (h | h) <;> omega

end Extent
