import Shalloc.Extent

/-!
# Nested extents

Items are laid out in nodes, and every node but one is carried by an item that is laid
out in another node. If the items of each single node lie apart, then any two items of
the whole nest lie apart, unless one of them carries a node that contains the other.

## Main definitions

- `Nest` — nodes, items, and which item carries which node

## Main results

- `Nest.area_disjoint` — nodes of one depth lie apart
- `Nest.disjoint_or_within` — any two items lie apart or are nested
-/

/-- Nodes of type `ν` and items of type `ι` laid out in them. The node of depth 0 is
carried by no item. -/
structure Nest (ν ι : Type*) where
  node : ν → Prop
  depth : ν → ℕ
  area : ν → Extent
  place : ι → ν → Prop
  ext : ι → Extent
  carrier : ν → ι
  node_of_place : ∀ {i n}, place i n → node n
  within : ∀ {i n}, place i n → (ext i).Within (area n)
  apart : ∀ {i j n}, place i n → place j n → i ≠ j → (ext i).Disjoint (ext j)
  root_unique : ∀ {n m}, node n → node m → depth n = 0 → depth m = 0 → n = m
  carried : ∀ {n}, node n → depth n ≠ 0 → ∃ m, place (carrier n) m ∧ depth n = depth m + 1
  area_within : ∀ {n}, node n → depth n ≠ 0 → (area n).Within (ext (carrier n))
  carrier_injective : Function.Injective carrier

namespace Nest

variable {ν ι : Type*} (N : Nest ν ι)

/-- A node that is carried lies within the area of the node that its carrier is in. -/
theorem area_within_area {n m : ν} (hn : N.node n) (hdepth : N.depth n ≠ 0)
    (hplace : N.place (N.carrier n) m) : (N.area n).Within (N.area m) :=
  (N.area_within hn hdepth).trans (N.within hplace)

/-- A node lies within a node of every smaller depth. -/
theorem exists_ancestor (d : ℕ) : ∀ {n k}, N.node n → N.depth n = k + d →
    ∃ m, N.node m ∧ N.depth m = k ∧ (N.area n).Within (N.area m) := by
  induction d with
  | zero => exact fun {n k} hn hd => ⟨n, hn, hd, Extent.Within.refl _⟩
  | succ d ih =>
    intro n k hn hd
    obtain ⟨m, hplace, hdepth⟩ := N.carried hn (by omega)
    obtain ⟨a, ha, hda, hwithin⟩ := ih (N.node_of_place hplace) (by omega : N.depth m = k + d)
    exact ⟨a, ha, hda, (N.area_within_area hn (by omega) hplace).trans hwithin⟩

/-- Distinct nodes of one depth lie apart. -/
theorem area_disjoint (d : ℕ) : ∀ {n m}, N.node n → N.node m → N.depth n = d →
    N.depth m = d → n ≠ m → (N.area n).Disjoint (N.area m) := by
  induction d with
  | zero => exact fun {n m} hn hm hdn hdm hne => absurd (N.root_unique hn hm hdn hdm) hne
  | succ d ih =>
    intro n m hn hm hdn hdm hne
    obtain ⟨pn, hpn, hdpn⟩ := N.carried hn (by omega)
    obtain ⟨pm, hpm, hdpm⟩ := N.carried hm (by omega)
    by_cases hp : pn = pm
    · subst hp
      have hcarrier := N.apart hpn hpm fun heq => hne (N.carrier_injective heq)
      exact hcarrier.mono (N.area_within hn (by omega)) (N.area_within hm (by omega))
    · have harea := ih (N.node_of_place hpn) (N.node_of_place hpm) (by omega) (by omega) hp
      exact harea.mono (N.area_within_area hn (by omega) hpn) (N.area_within_area hm (by omega) hpm)

/-- An item in a node, against an item of a deeper node or of the same depth. -/
theorem disjoint_or_within_of_le {i j : ι} {n m : ν} (hi : N.place i n) (hj : N.place j m)
    (hle : N.depth n ≤ N.depth m) (hne : i ≠ j) :
    (N.ext i).Disjoint (N.ext j) ∨
      ∃ c, N.node c ∧ i = N.carrier c ∧ (N.ext j).Within (N.area c) := by
  have hn := N.node_of_place hi
  have hm := N.node_of_place hj
  rcases Nat.eq_or_lt_of_le hle with heq | hlt
  · by_cases hnm : n = m
    · subst hnm
      exact Or.inl (N.apart hi hj hne)
    · exact Or.inl ((N.area_disjoint _ hn hm rfl heq.symm hnm).mono (N.within hi) (N.within hj))
  · -- the ancestor of `m` just below the depth of `n` is carried beside `i` or by `i`
    obtain ⟨c, hc, hdc, hmc⟩ := N.exists_ancestor (N.depth m - (N.depth n + 1)) hm
      (by omega : N.depth m = (N.depth n + 1) + (N.depth m - (N.depth n + 1)))
    have hjc : (N.ext j).Within (N.area c) := (N.within hj).trans hmc
    obtain ⟨p, hp, hdp⟩ := N.carried hc (by omega)
    by_cases hcarrier : i = N.carrier c
    · exact Or.inr ⟨c, hc, hcarrier, hjc⟩
    · refine Or.inl ?_
      have hjcarrier : (N.ext j).Within (N.ext (N.carrier c)) :=
        hjc.trans (N.area_within hc (by omega))
      by_cases hpn : n = p
      · subst hpn
        exact (N.apart hi hp hcarrier).mono_right hjcarrier
      · have harea := N.area_disjoint _ hn (N.node_of_place hp) rfl (by omega) hpn
        exact harea.mono (N.within hi) (hjcarrier.trans (N.within hp))

/-- **Nesting.** Distinct items lie apart, or one of them carries a node that contains
the other. -/
theorem disjoint_or_within {i j : ι} {n m : ν} (hi : N.place i n) (hj : N.place j m)
    (hne : i ≠ j) :
    (N.ext i).Disjoint (N.ext j) ∨
      (∃ c, N.node c ∧ i = N.carrier c ∧ (N.ext j).Within (N.area c)) ∨
      ∃ c, N.node c ∧ j = N.carrier c ∧ (N.ext i).Within (N.area c) := by
  rcases Nat.le_total (N.depth n) (N.depth m) with hle | hle
  · rcases N.disjoint_or_within_of_le hi hj hle hne with h | h
    · exact Or.inl h
    · exact Or.inr (Or.inl h)
  · rcases N.disjoint_or_within_of_le hj hi hle hne.symm with h | h
    · exact Or.inl h.symm
    · exact Or.inr (Or.inr h)

/-- Every item lies within the node of depth 0. -/
theorem within_root {i : ι} {n : ν} (hi : N.place i n) :
    ∃ m, N.node m ∧ N.depth m = 0 ∧ (N.ext i).Within (N.area m) := by
  obtain ⟨m, hm, hdepth, hwithin⟩ := N.exists_ancestor (N.depth n) (N.node_of_place hi)
    (Nat.zero_add _).symm
  exact ⟨m, hm, hdepth, (N.within hi).trans hwithin⟩

end Nest
