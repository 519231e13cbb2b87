import Mathlib.Data.Nat.Bitwise
import Mathlib.Logic.Function.Basic
import Mathlib.Tactic.Common

/-!
# Buddy systems

A segment of `n` cells is cut into tiles whose lengths are powers of two and which begin at a
multiple of their length. The buddy of a tile is the other half of the next larger tile that
it is in. If no cell is left over, the tile at the place of a buddy is never larger than
the buddy, so that a tile of the same size there is the buddy itself.

## Main definitions

- `Buddy.Tile` — the size of a tile, and whether it is free
- `Buddy.Tiled` — the tiles cover the first `n` cells and do not overlap
- `Buddy.buddy` — the place of the buddy
- `Buddy.freeLog`, `Buddy.liveLog` — the free tiles and the tiles in use
- `Buddy.Merged` — no tile is free together with its buddy

## Main results

- `Tiled.buddy_tile` — what lies at the place of a buddy
- `Tiled.extend`, `Tiled.split`, `Tiled.join` — the steps of a buddy system
- `Tiled.free_of_run` — merged tiles are as large as they can be
-/

namespace Buddy

/-- A tile of `2 ^ log` cells. -/
structure Tile where
  log : ℕ
  free : Bool
deriving DecidableEq, Repr

variable {n i j k l : ℕ} {f f' g : Bool} {s t : Tile} {tile : ℕ → Option Tile}

/-- The tiles, given by their first cells, cover the cells below `n`. -/
structure Tiled (n : ℕ) (tile : ℕ → Option Tile) : Prop where
  aligned : ∀ {i t}, tile i = some t → 2 ^ t.log ∣ i
  within : ∀ {i t}, tile i = some t → i + 2 ^ t.log ≤ n
  apart : ∀ {i j s t}, tile i = some s → tile j = some t → i < j → i + 2 ^ s.log ≤ j
  covers : ∀ {x}, x < n → ∃ i t, tile i = some t ∧ i ≤ x ∧ x < i + 2 ^ t.log

/-- The place of the buddy of a tile of `2 ^ k` cells. -/
def buddy (i k : ℕ) : ℕ := if i.testBit k then i - 2 ^ k else i + 2 ^ k

/-- A tile is the upper half of the next larger one, or the lower half. -/
theorem buddy_cases (h : 2 ^ k ∣ i) :
    (2 ^ (k + 1) ∣ buddy i k ∧ i = buddy i k + 2 ^ k) ∨
      (2 ^ (k + 1) ∣ i ∧ buddy i k = i + 2 ^ k) := by
  obtain ⟨m, rfl⟩ := h
  have hpos := Nat.two_pow_pos k
  have hbit : (2 ^ k * m).testBit k = decide (m % 2 = 1) := by
    rw [Nat.testBit_eq_decide_div_mod_eq, Nat.mul_div_cancel_left m hpos]
  have hdiv := Nat.div_add_mod m 2
  rcases Nat.mod_two_eq_zero_or_one m with heven | hodd
  · refine Or.inr ⟨?_, by simp [buddy, hbit, heven]⟩
    rw [Nat.pow_succ]
    exact Nat.mul_dvd_mul_left _ (Nat.dvd_of_mod_eq_zero heven)
  · have hlower : 2 ^ k * m = 2 ^ k * (2 * (m / 2)) + 2 ^ k := by
      rw [← Nat.mul_succ]
      exact congrArg _ (by omega)
    have hbuddy : buddy (2 ^ k * m) k = 2 ^ k * (2 * (m / 2)) := by
      simp only [buddy, hbit, hodd, decide_true, if_true]
      omega
    refine Or.inl ⟨?_, by rw [hbuddy]; exact hlower⟩
    rw [hbuddy, Nat.pow_succ]
    exact Nat.mul_dvd_mul_left _ (Nat.dvd_mul_right 2 _)

/-- A buddy lies before the tile, or after the end of any smaller one. -/
theorem buddy_outside {j k : ℕ} (hk : k ≤ j) (i : ℕ) : buddy i j < i ∨ i + 2 ^ k ≤ buddy i j := by
  have hpos := Nat.two_pow_pos j
  have hpow : 2 ^ k ≤ 2 ^ j := Nat.pow_le_pow_right (by decide) hk
  unfold buddy
  split
  · next hbit =>
    have hle := Nat.ge_two_pow_of_testBit hbit
    omega
  · omega

theorem buddy_ne (i k : ℕ) : buddy i k ≠ i := by
  have hpos := Nat.two_pow_pos k
  rcases buddy_outside (le_refl k) i with hlt | hle <;> omega

/-- The buddy of a lower half, -/
theorem buddy_lower (h : 2 ^ (k + 1) ∣ i) : buddy i k = i + 2 ^ k := by
  have hpos := Nat.two_pow_pos k
  rcases buddy_cases (Nat.dvd_trans (Nat.pow_dvd_pow 2 (Nat.le_succ k)) h) with
    ⟨hdvd, heq⟩ | ⟨-, heq⟩
  · -- two multiples of a size are not half that size apart
    rw [heq] at h
    have hle := Nat.le_of_dvd hpos ((Nat.dvd_add_right hdvd).mp h)
    rw [Nat.pow_succ] at hle
    omega
  · exact heq

/-- and that of the upper half. -/
theorem buddy_upper (h : 2 ^ (k + 1) ∣ i) : buddy (i + 2 ^ k) k = i := by
  have hpos := Nat.two_pow_pos k
  have hdvd : 2 ^ k ∣ i := Nat.dvd_trans (Nat.pow_dvd_pow 2 (Nat.le_succ k)) h
  rcases buddy_cases (Nat.dvd_add hdvd (Nat.dvd_refl _)) with ⟨-, heq⟩ | ⟨hdvd', -⟩
  · omega
  · have hle := Nat.le_of_dvd hpos ((Nat.dvd_add_right h).mp hdvd')
    rw [Nat.pow_succ] at hle
    omega

/-- The buddy of the buddy is the tile. -/
theorem buddy_buddy (h : 2 ^ k ∣ i) : buddy (buddy i k) k = i := by
  rcases buddy_cases h with ⟨hdvd, heq⟩ | ⟨hdvd, heq⟩
  · rw [buddy_lower hdvd, ← heq]
  · rw [heq, buddy_upper hdvd]

/-- A multiple of `k` that lies before the next multiple of `k` after `j`. -/
theorem le_of_lt_add (hi : k ∣ i) (hj : k ∣ j) (h : i < j + k) : i ≤ j := by
  obtain ⟨a, rfl⟩ := hi
  obtain ⟨b, rfl⟩ := hj
  rw [← Nat.mul_succ] at h
  exact Nat.mul_le_mul_left k (Nat.le_of_lt_succ (Nat.lt_of_mul_lt_mul_left h))

/-- The log of a tile that is free. -/
def Tile.freeLog (t : Tile) : Option ℕ := if t.free then some t.log else none

/-- The log of a tile that is in use. -/
def Tile.liveLog (t : Tile) : Option ℕ := if t.free then none else some t.log

/-- The free tiles. -/
def freeLog (tile : ℕ → Option Tile) (i : ℕ) : Option ℕ := (tile i).bind Tile.freeLog

/-- The tiles in use. -/
def liveLog (tile : ℕ → Option Tile) (i : ℕ) : Option ℕ := (tile i).bind Tile.liveLog

theorem freeLog_eq_some : freeLog tile i = some k ↔ tile i = some ⟨k, true⟩ := by
  unfold freeLog Tile.freeLog
  rcases tile i with - | ⟨l, - | -⟩ <;> simp

theorem liveLog_eq_some : liveLog tile i = some k ↔ tile i = some ⟨k, false⟩ := by
  unfold liveLog Tile.liveLog
  rcases tile i with - | ⟨l, - | -⟩ <;> simp

theorem freeLog_of_none (h : tile i = none) : freeLog tile i = none := by simp [freeLog, h]

theorem liveLog_of_none (h : tile i = none) : liveLog tile i = none := by simp [liveLog, h]

@[simp] theorem freeLog_update (tile : ℕ → Option Tile) (i : ℕ) (t : Option Tile) :
    freeLog (Function.update tile i t) =
      Function.update (freeLog tile) i (t.bind Tile.freeLog) := by
  funext j
  unfold freeLog
  by_cases hj : j = i
  · simp [hj]
  · simp [hj]

@[simp] theorem liveLog_update (tile : ℕ → Option Tile) (i : ℕ) (t : Option Tile) :
    liveLog (Function.update tile i t) =
      Function.update (liveLog tile) i (t.bind Tile.liveLog) := by
  funext j
  unfold liveLog
  by_cases hj : j = i
  · simp [hj]
  · simp [hj]

theorem Tiled.empty : Tiled 0 fun _ => none where
  aligned h := absurd h (by simp)
  within h := absurd h (by simp)
  apart h := absurd h (by simp)
  covers h := absurd h (by omega)

/-- The log of a tile is bounded by that of the number of cells. -/
theorem Tiled.log_lt (h : Tiled n tile) (hi : tile i = some t) (hn : n < 2 ^ k) : t.log < k := by
  have hwithin := h.within hi
  exact (Nat.pow_lt_pow_iff_right (by decide)).mp (by omega : 2 ^ t.log < 2 ^ k)

/-- Two tiles that share a cell are one. -/
theorem Tiled.eq_of_shared (h : Tiled n tile) (hi : tile i = some s) (hj : tile j = some t) {x : ℕ}
    (hx : i ≤ x ∧ x < i + 2 ^ s.log) (hx' : j ≤ x ∧ x < j + 2 ^ t.log) : i = j := by
  rcases Nat.lt_trichotomy i j with hlt | heq | hgt
  · have := h.apart hi hj hlt
    omega
  · exact heq
  · have := h.apart hj hi hgt
    omega

/-- The tile that begins at a cell of another one is that tile. -/
theorem Tiled.eq_of_mem (h : Tiled n tile) (hi : tile i = some s) (hj : tile j = some t)
    (hx : i ≤ j ∧ j < i + 2 ^ s.log) : i = j :=
  h.eq_of_shared hi hj hx ⟨le_rfl, Nat.lt_add_of_pos_right (Nat.two_pow_pos _)⟩

/-- **The place of a buddy.** A tile begins there, and it is no larger than the buddy. -/
theorem Tiled.buddy_tile (h : Tiled n tile) (hi : tile i = some t) (hn : buddy i t.log < n) :
    ∃ s, tile (buddy i t.log) = some s ∧ s.log ≤ t.log := by
  obtain ⟨c, s, hc, hle, hlt⟩ := h.covers hn
  have hcdvd := h.aligned hc
  have hidvd := h.aligned hi
  have hpos := Nat.two_pow_pos t.log
  have hpow : 2 ^ (t.log + 1) = 2 ^ t.log + 2 ^ t.log := by rw [Nat.pow_succ, Nat.mul_two]
  by_cases hlog : s.log ≤ t.log
  · -- a small tile that covers the place begins there
    have hdvd : 2 ^ t.log ∣ buddy i t.log := by
      rcases buddy_cases hidvd with ⟨hlower, -⟩ | ⟨-, heq⟩
      · exact Nat.dvd_trans (Nat.pow_dvd_pow 2 (Nat.le_succ _)) hlower
      · rw [heq]
        exact Nat.dvd_add hidvd (Nat.dvd_refl _)
    have hback := le_of_lt_add (Nat.dvd_trans (Nat.pow_dvd_pow 2 hlog) hdvd) hcdvd hlt
    obtain rfl : c = buddy i t.log := by omega
    exact ⟨s, hc, hlog⟩
  · -- a larger one would contain both halves
    exfalso
    have hsize : 2 ^ (t.log + 1) ∣ 2 ^ s.log := Nat.pow_dvd_pow 2 (by omega)
    have hc' : 2 ^ (t.log + 1) ∣ c := Nat.dvd_trans hsize hcdvd
    have hshared : c ≤ i ∧ i < c + 2 ^ s.log := by
      rcases buddy_cases hidvd with ⟨hlower, heq⟩ | ⟨hlower, heq⟩
      · have hup : buddy i t.log + 2 ^ (t.log + 1) ≤ c + 2 ^ s.log :=
          le_of_lt_add (Nat.dvd_add hlower (Nat.dvd_refl _)) (Nat.dvd_add hc' hsize) (by omega)
        omega
      · have hdown : c ≤ i := le_of_lt_add hc' hlower (by omega)
        have hup : i + 2 ^ (t.log + 1) ≤ c + 2 ^ s.log :=
          le_of_lt_add (Nat.dvd_add hlower (Nat.dvd_refl _)) (Nat.dvd_add hc' hsize) (by omega)
        omega
    obtain rfl := h.eq_of_mem hc hi hshared
    obtain rfl := Option.some.inj (hc.symm.trans hi)
    omega

/-- Marking a tile as free or in use. -/
theorem Tiled.mark (h : Tiled n tile) (hi : tile i = some ⟨k, f⟩) :
    Tiled n (Function.update tile i (some ⟨k, g⟩)) := by
  -- the sizes stay as they are
  have hold : ∀ {c s}, Function.update tile i (some ⟨k, g⟩) c = some s →
      ∃ s', tile c = some s' ∧ s'.log = s.log := by
    intro c s hc
    by_cases heq : c = i
    · subst heq
      rw [Function.update_self, Option.some.injEq] at hc
      exact ⟨_, hi, by rw [← hc]⟩
    · rw [Function.update_of_ne heq] at hc
      exact ⟨s, hc, rfl⟩
  exact
    { aligned := fun hc => by
        obtain ⟨s', hs', heq⟩ := hold hc
        exact heq ▸ h.aligned hs'
      within := fun hc => by
        obtain ⟨s', hs', heq⟩ := hold hc
        exact heq ▸ h.within hs'
      apart := fun hc hd hlt => by
        obtain ⟨s', hs', heq⟩ := hold hc
        obtain ⟨t', ht', -⟩ := hold hd
        exact heq ▸ h.apart hs' ht' hlt
      covers := fun {x} hx => by
        obtain ⟨c, s, hc, hcover⟩ := h.covers hx
        by_cases heq : c = i
        · subst heq
          obtain rfl := Option.some.inj (hi.symm.trans hc)
          exact ⟨c, _, Function.update_self .., hcover⟩
        · exact ⟨c, s, by rw [Function.update_of_ne heq]; exact hc, hcover⟩ }

/-- A tile after the last one. -/
theorem Tiled.extend (h : Tiled n tile) (hn : 2 ^ k ∣ n) :
    Tiled (n + 2 ^ k) (Function.update tile n (some ⟨k, f⟩)) := by
  have hpos := Nat.two_pow_pos k
  have hnew : ∀ {c s}, Function.update tile n (some ⟨k, f⟩) c = some s →
      (c = n ∧ s.log = k) ∨ (c < n ∧ tile c = some s) := by
    intro c s hc
    by_cases heq : c = n
    · subst heq
      rw [Function.update_self, Option.some.injEq] at hc
      exact Or.inl ⟨rfl, by rw [← hc]⟩
    · rw [Function.update_of_ne heq] at hc
      have hwithin := h.within hc
      have := Nat.two_pow_pos s.log
      exact Or.inr ⟨by omega, hc⟩
  refine ⟨fun hc => ?_, fun hc => ?_, fun hc hd hlt => ?_, fun {x} hx => ?_⟩
  · rcases hnew hc with ⟨rfl, hlog⟩ | ⟨-, hc⟩
    · rw [hlog]
      exact hn
    · exact h.aligned hc
  · rcases hnew hc with ⟨rfl, hlog⟩ | ⟨-, hc⟩
    · rw [hlog]
    · exact le_trans (h.within hc) (Nat.le_add_right _ _)
  · rcases hnew hc with ⟨rfl, -⟩ | ⟨-, hold⟩
    · rcases hnew hd with ⟨rfl, -⟩ | ⟨hlt', -⟩ <;> omega
    · rcases hnew hd with ⟨rfl, -⟩ | ⟨-, hold'⟩
      · exact h.within hold
      · exact h.apart hold hold' hlt
  · by_cases hlt : x < n
    · obtain ⟨c, s, hc, hcover⟩ := h.covers hlt
      have hwithin := h.within hc
      have := Nat.two_pow_pos s.log
      exact ⟨c, s, by rw [Function.update_of_ne (by omega)]; exact hc, hcover⟩
    · exact ⟨n, _, Function.update_self .., by omega, by simpa using hx⟩

/-- Cutting a tile in two halves. -/
theorem Tiled.split (h : Tiled n tile) (hi : tile i = some ⟨k + 1, f⟩) :
    Tiled n (Function.update (Function.update tile i (some ⟨k, f⟩)) (i + 2 ^ k) (some ⟨k, g⟩)) := by
  have hpos := Nat.two_pow_pos k
  have hpow : 2 ^ (k + 1) = 2 ^ k + 2 ^ k := by rw [Nat.pow_succ, Nat.mul_two]
  have hdvd : 2 ^ (k + 1) ∣ i := h.aligned hi
  have hdvd' : 2 ^ k ∣ i := Nat.dvd_trans (Nat.pow_dvd_pow 2 (Nat.le_succ k)) hdvd
  have hend : i + 2 ^ (k + 1) ≤ n := h.within hi
  -- a tile is one of the halves, or an old tile apart from both
  have hcases : ∀ {c s}, Function.update (Function.update tile i (some ⟨k, f⟩)) (i + 2 ^ k)
      (some ⟨k, g⟩) c = some s →
      (s.log = k ∧ (c = i ∨ c = i + 2 ^ k)) ∨
        (tile c = some s ∧ (c + 2 ^ s.log ≤ i ∨ i + 2 ^ (k + 1) ≤ c)) := by
    intro c s hc
    by_cases hupper : c = i + 2 ^ k
    · subst hupper
      rw [Function.update_self, Option.some.injEq] at hc
      exact Or.inl ⟨by rw [← hc], Or.inr rfl⟩
    · rw [Function.update_of_ne hupper] at hc
      by_cases hlower : c = i
      · subst hlower
        rw [Function.update_self, Option.some.injEq] at hc
        exact Or.inl ⟨by rw [← hc], Or.inl rfl⟩
      · rw [Function.update_of_ne hlower] at hc
        refine Or.inr ⟨hc, ?_⟩
        rcases Nat.lt_or_gt_of_ne hlower with hlt | hgt
        · exact Or.inl (h.apart hc hi hlt)
        · exact Or.inr (h.apart hi hc hgt)
  refine ⟨fun hc => ?_, fun hc => ?_, fun {_ _ _ t} hc hd hlt => ?_, fun {x} hx => ?_⟩
  · rcases hcases hc with ⟨hlog, rfl | rfl⟩ | ⟨hc, -⟩
    · exact hlog ▸ hdvd'
    · rw [hlog]
      exact Nat.dvd_add hdvd' (Nat.dvd_refl _)
    · exact h.aligned hc
  · rcases hcases hc with ⟨hlog, rfl | rfl⟩ | ⟨hc, -⟩
    · rw [hlog]
      omega
    · rw [hlog]
      omega
    · exact h.within hc
  · rcases hcases hc with ⟨hlog, hplace⟩ | ⟨hc, happart⟩
    · rw [hlog]
      rcases hcases hd with ⟨-, hplace'⟩ | ⟨hd, happart'⟩
      · omega
      · have := Nat.two_pow_pos t.log
        omega
    · rcases hcases hd with ⟨-, hplace'⟩ | ⟨hd, -⟩
      · omega
      · exact h.apart hc hd hlt
  · obtain ⟨c, s, hc, hle, hlt⟩ := h.covers hx
    by_cases hlower : c = i
    · subst hlower
      obtain rfl := Option.some.inj (hi.symm.trans hc)
      by_cases hhalf : x < c + 2 ^ k
      · refine ⟨c, ⟨k, f⟩, ?_, hle, hhalf⟩
        rw [Function.update_of_ne (by omega), Function.update_self]
      · exact ⟨c + 2 ^ k, _, Function.update_self .., by omega, by simp only at hlt ⊢; omega⟩
    · have hupper : c ≠ i + 2 ^ k := by
        rintro rfl
        exact hlower (h.eq_of_mem hi hc ⟨by omega, by simp only; omega⟩).symm
      exact ⟨c, s, by rw [Function.update_of_ne hupper, Function.update_of_ne hlower]; exact hc,
        hle, hlt⟩

/-- Joining two halves. -/
theorem Tiled.join (h : Tiled n tile) (hi : tile i = some ⟨k, f⟩)
    (hj : tile (i + 2 ^ k) = some ⟨k, f'⟩) (hdvd : 2 ^ (k + 1) ∣ i) :
    Tiled n (Function.update (Function.update tile i (some ⟨k + 1, g⟩)) (i + 2 ^ k) none) := by
  have hpos := Nat.two_pow_pos k
  have hpow : 2 ^ (k + 1) = 2 ^ k + 2 ^ k := by rw [Nat.pow_succ, Nat.mul_two]
  have hend : i + 2 ^ k + 2 ^ k ≤ n := h.within hj
  -- a tile is the whole, or an old tile apart from it
  have hcases : ∀ {c s}, Function.update (Function.update tile i (some ⟨k + 1, g⟩)) (i + 2 ^ k)
      none c = some s →
      (s.log = k + 1 ∧ c = i) ∨
        (tile c = some s ∧ c ≠ i ∧ (c + 2 ^ s.log ≤ i ∨ i + 2 ^ (k + 1) ≤ c)) := by
    intro c s hc
    by_cases hupper : c = i + 2 ^ k
    · subst hupper
      rw [Function.update_self] at hc
      exact absurd hc (by simp)
    · rw [Function.update_of_ne hupper] at hc
      by_cases hlower : c = i
      · subst hlower
        rw [Function.update_self, Option.some.injEq] at hc
        exact Or.inl ⟨by rw [← hc], rfl⟩
      · rw [Function.update_of_ne hlower] at hc
        refine Or.inr ⟨hc, hlower, ?_⟩
        rcases Nat.lt_or_gt_of_ne hlower with hlt | hgt
        · exact Or.inl (h.apart hc hi hlt)
        · have hafter : i + 2 ^ k ≤ c := h.apart hi hc hgt
          have hafter' : i + 2 ^ k + 2 ^ k ≤ c := h.apart hj hc (by omega)
          exact Or.inr (by omega)
  refine ⟨fun hc => ?_, fun hc => ?_, fun {_ _ _ t} hc hd hlt => ?_, fun {x} hx => ?_⟩
  · rcases hcases hc with ⟨hlog, rfl⟩ | ⟨hc, -⟩
    · exact hlog ▸ hdvd
    · exact h.aligned hc
  · rcases hcases hc with ⟨hlog, rfl⟩ | ⟨hc, -⟩
    · rw [hlog]
      omega
    · exact h.within hc
  · rcases hcases hc with ⟨hlog, rfl⟩ | ⟨hc, -, happart⟩
    · rw [hlog]
      rcases hcases hd with ⟨-, rfl⟩ | ⟨hold, -, happart'⟩
      · omega
      · have := Nat.two_pow_pos t.log
        omega
    · rcases hcases hd with ⟨-, rfl⟩ | ⟨hd, -, -⟩
      · omega
      · exact h.apart hc hd hlt
  · obtain ⟨c, s, hc, hle, hlt⟩ := h.covers hx
    by_cases hwhole : c = i ∨ c = i + 2 ^ k
    · have hlog : s.log = k := by
        rcases hwhole with rfl | rfl
        · exact congrArg Tile.log (Option.some.inj (hc.symm.trans hi))
        · exact congrArg Tile.log (Option.some.inj (hc.symm.trans hj))
      rw [hlog] at hlt
      refine ⟨i, _, by rw [Function.update_of_ne (by omega), Function.update_self], ?_, ?_⟩
      · omega
      · simp only
        omega
    · obtain ⟨hlower, hupper⟩ := not_or.mp hwhole
      exact ⟨c, s, by rw [Function.update_of_ne hupper, Function.update_of_ne hlower]; exact hc,
        hle, hlt⟩

/-- No tile is free together with its buddy. -/
def Merged (on : ℕ → Option ℕ) : Prop := ∀ i k, on i = some k → on (buddy i k) ≠ some k

/-- Fewer free tiles are merged. -/
theorem Merged.mono {on on' : ℕ → Option ℕ} (h : Merged on)
    (hle : ∀ {i k}, on' i = some k → on i = some k) : Merged on' :=
  fun i k hi hbuddy => h i k (hle hi) (hle hbuddy)

/-- A tile that leaves the free ones. -/
theorem Merged.take {on : ℕ → Option ℕ} (h : Merged on) (i : ℕ) :
    Merged (Function.update on i none) := by
  apply h.mono
  intro j k hj
  by_cases heq : j = i
  · rw [heq, Function.update_self] at hj
    exact absurd hj (by simp)
  · rwa [Function.update_of_ne heq] at hj

/-- A tile that becomes free while its buddy is not. -/
theorem Merged.give {on : ℕ → Option ℕ} (h : Merged on)
    (haligned : ∀ {j l}, on j = some l → 2 ^ l ∣ j) (hi : 2 ^ k ∣ i)
    (hbuddy : on (buddy i k) ≠ some k) : Merged (Function.update on i (some k)) := by
  intro j l hj hjb
  by_cases heq : j = i
  · subst heq
    rw [Function.update_self, Option.some.injEq] at hj
    subst hj
    rw [Function.update_of_ne (buddy_ne j k)] at hjb
    exact hbuddy hjb
  · rw [Function.update_of_ne heq] at hj
    by_cases hback : buddy j l = i
    · rw [hback, Function.update_self, Option.some.injEq] at hjb
      subst hjb
      rw [← hback, buddy_buddy (haligned hj)] at hbuddy
      exact hbuddy hj
    · rw [Function.update_of_ne hback] at hjb
      exact h j l hj hjb

/-- **Merged tiles are as large as they can be.** An aligned run of free cells lies within one
free tile. -/
theorem Tiled.free_of_run (h : Tiled n tile) (hmerged : Merged (freeLog tile)) (k : ℕ) :
    ∀ {a : ℕ}, 2 ^ k ∣ a → a + 2 ^ k ≤ n →
      (∀ {i t}, tile i = some t → i < a + 2 ^ k → a < i + 2 ^ t.log → t.free = true) →
      ∃ i l, freeLog tile i = some l ∧ k ≤ l ∧ i ≤ a ∧ a < i + 2 ^ l := by
  induction k with
  | zero =>
    intro a _ hroom hfree
    obtain ⟨i, ⟨l, f⟩, hi, hle, hlt⟩ := h.covers (by omega : a < n)
    obtain rfl : f = true := hfree hi (by omega) hlt
    exact ⟨i, l, freeLog_eq_some.mpr hi, Nat.zero_le l, hle, hlt⟩
  | succ k ih =>
    intro a hdvd hroom hfree
    have hpos := Nat.two_pow_pos k
    have hpow : 2 ^ (k + 1) = 2 ^ k + 2 ^ k := by rw [Nat.pow_succ, Nat.mul_two]
    have hdvd' : 2 ^ k ∣ a := Nat.dvd_trans (Nat.pow_dvd_pow 2 (Nat.le_succ k)) hdvd
    obtain ⟨i, l, hi, hkl, hle, hlt⟩ := ih hdvd' (by omega) fun hj h1 h2 => hfree hj (by omega) h2
    obtain ⟨j, m, hj, hkm, hle', hlt'⟩ := ih (a := a + 2 ^ k)
      (Nat.dvd_add hdvd' (Nat.dvd_refl _)) (by omega) fun hj h1 h2 => hfree hj (by omega) (by omega)
    rcases Nat.lt_or_ge k l with hlarge | hsmall
    · exact ⟨i, l, hi, hlarge, hle, hlt⟩
    · -- both halves are tiles, which are free buddies
      exfalso
      obtain rfl : l = k := Nat.le_antisymm hsmall hkl
      have hi' := freeLog_eq_some.mp hi
      have hj' := freeLog_eq_some.mp hj
      obtain rfl : i = a := by
        have := le_of_lt_add hdvd' (h.aligned hi') hlt
        omega
      have hbuddy : buddy i l = i + 2 ^ l := buddy_lower hdvd
      obtain ⟨s, hs, hslog⟩ := h.buddy_tile hi' (by simp only [hbuddy]; omega)
      simp only [hbuddy] at hs
      obtain rfl := h.eq_of_mem hj' hs ⟨hle', hlt'⟩
      obtain rfl := Option.some.inj (hj'.symm.trans hs)
      obtain rfl : m = l := Nat.le_antisymm hslog hkm
      exact hmerged _ _ hi (hbuddy ▸ hj)

end Buddy
