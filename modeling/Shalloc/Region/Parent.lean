import Mathlib.Data.List.Pairwise
import Shalloc.Region.Ledger
import Shalloc.Region.Release

/-!
# The parent as a party of its own

A region obtains its record and its buffers from its parent with `shalloc_malloc`, and
gives buffers back with `shalloc_free`. This module says what the two owe each other: the
parent issues blocks that lie apart and leaves the contents of the issued blocks alone, and
the region writes within the blocks it was issued.

## Main definitions

- `Covers` — the addresses of a list of blocks
- `AgreeOn` — two stores are the same at some addresses
- `SoundParent` — the contract, for an invariant of the parent
- `TakesBack` — a parent whose frees return

## Main results

- `heap_soundParent` — a heap with a sound allocator meets the contract
-/

namespace Shalloc

variable {α : Type} {ops : BuffAllocType → BuffOp α} {st st' : Store α}

/-- Address `a` lies in one of the blocks. -/
def Covers (blocks : List Extent) (a : ℕ) : Prop :=
  ∃ e ∈ blocks, e.ptr ≤ a ∧ a < e.ptr + e.len

theorem Covers.cons {blocks : List Extent} {a : ℕ} (h : Covers blocks a) (e : Extent) :
    Covers (e :: blocks) a := by
  obtain ⟨e', he', ha⟩ := h
  exact ⟨e', List.mem_cons_of_mem _ he', ha⟩

/-- The stores hold the same records, descriptors and allocators at the addresses of `p`, and
the buffers there have the same blocks in use. -/
structure AgreeOn (p : ℕ → Prop) (st st' : Store α) : Prop where
  regions : ∀ a, p a → st'.regions a = st.regions a
  buffs : ∀ a, p a → st'.buffs a = st.buffs a
  cells : ∀ a, p a → st'.cells a = st.cells a
  live : ∀ a, p a → liveBlocks a st'.trace = liveBlocks a st.trace

section AgreeOn

variable {p q : ℕ → Prop} {b d n : ℕ} {data : Buff}

theorem AgreeOn.refl (p : ℕ → Prop) (st : Store α) : AgreeOn p st st :=
  ⟨fun _ _ => rfl, fun _ _ => rfl, fun _ _ => rfl, fun _ _ => rfl⟩

theorem AgreeOn.trans {st'' : Store α} (h : AgreeOn p st st') (h' : AgreeOn p st' st'') :
    AgreeOn p st st'' where
  regions a ha := (h'.regions a ha).trans (h.regions a ha)
  buffs a ha := (h'.buffs a ha).trans (h.buffs a ha)
  cells a ha := (h'.cells a ha).trans (h.cells a ha)
  live a ha := (h'.live a ha).trans (h.live a ha)

theorem AgreeOn.mono (h : AgreeOn p st st') (hsub : ∀ a, q a → p a) : AgreeOn q st st' where
  regions a ha := h.regions a (hsub a ha)
  buffs a ha := h.buffs a (hsub a ha)
  cells a ha := h.cells a (hsub a ha)
  live a ha := h.live a (hsub a ha)

theorem AgreeOn.log (p : ℕ → Prop) (st : Store α) {event : Event}
    (hevent : ∀ a, ¬ event.touches a) : AgreeOn p st (st.log event) where
  regions _ _ := rfl
  buffs _ _ := rfl
  cells _ _ := rfl
  live a _ := liveBlocks_of_not_touches (hevent a)

theorem AgreeOn.setBuff (st : Store α) (hd : ¬ p d) (data : Buff) :
    AgreeOn p st (st.setBuff d data) where
  regions _ _ := rfl
  buffs a ha := Function.update_of_ne (fun heq : a = d => hd (heq ▸ ha)) _ _
  cells _ _ := rfl
  live a _ := by simp

theorem AgreeOn.setRegion (st : Store α) (hd : ¬ p d) (region : Region) :
    AgreeOn p st (st.setRegion d region) where
  regions a ha := Function.update_of_ne (fun heq : a = d => hd (heq ▸ ha)) _ _
  buffs _ _ := rfl
  cells _ _ := rfl
  live a _ := by simp

/-- A call of `op` on buffer `d` changes the allocator at the start of its data and the
blocks in use of `d`. -/
theorem AgreeOn.of_setCell {event : Event} {a : α} (hstart : ¬ p data.start)
    (hevent : ∀ b, p b → ¬ event.touches b) :
    AgreeOn p st ((st.setCell data.start a).log event) where
  regions _ _ := rfl
  buffs _ _ := rfl
  cells b hb := Function.update_of_ne (fun heq : b = data.start => hstart (heq ▸ hb)) _ _
  live b hb := liveBlocks_of_not_touches (hevent b hb)

end AgreeOn

/-- What a region asks its parent for to grow by `size`. -/
def Region.request (region : Region) (size : ℕ) : ℕ :=
  Word.wrap 64 (sizeofBuff + region.buffSize size)

/-- Region `r` asks its parent for less than `limit` bytes to grow by `size`. -/
def AsksBelow (limit r size : ℕ) (st : Store α) : Prop :=
  ∀ region, st.regions r = some region → region.request size < limit

instance (limit r size : ℕ) (st : Store α) : Decidable (AsksBelow limit r size st) :=
  inferInstanceAs (Decidable (∀ region ∈ st.regions r, region.request size < limit))

/-- No request is larger than a `size_t`. -/
theorem asksBelow_two_pow (r size : ℕ) (st : Store α) : AsksBelow (2 ^ 64) r size st :=
  fun _ _ => Word.wrap_lt _ _

theorem AsksBelow.congr {limit r size : ℕ} (h : AsksBelow limit r size st)
    (hregions : st'.regions r = st.regions r) : AsksBelow limit r size st' :=
  fun region hregion => h region (hregions.symm.trans hregion)

theorem AsksBelow.log {limit r size : ℕ} (h : AsksBelow limit r size st) (event : Event) :
    AsksBelow limit r size (st.log event) :=
  h.congr rfl

/-- A region whose record has just been written. -/
theorem asksBelow_setRegion {limit r size : ℕ} {region : Region} (st : Store α)
    (h : region.request size < limit) : AsksBelow limit r size (st.setRegion r region) := by
  intro region' hregion'
  obtain rfl : region = region' := by simpa using hregion'
  exact h

/-- The parent at the head of `path` issues blocks of memory below `top`, for requests below
`limit`. Its invariant, for the blocks that are in use, says that they lie apart, and depends on
nothing in them; calls on the parent keep the invariant and the contents of the blocks. -/
structure SoundParent (ops : BuffAllocType → BuffOp α) (path : List ℕ) (top limit : ℕ)
    (inv : List Extent → Store α → Prop) : Prop where
  room : sizeofRegion < limit
  apart : ∀ {blocks st}, inv blocks st → blocks.Pairwise Extent.Disjoint
  bounds : ∀ {blocks st}, inv blocks st → ∀ e ∈ blocks, 0 < e.len ∧ e.ptr + e.len ≤ top
  own : ∀ {blocks st st'}, inv blocks st → AgreeOn (fun a => ¬ Covers blocks a) st st' →
    inv blocks st'
  served : ∀ {blocks st st' n p}, inv blocks st → n < limit →
    shallocMalloc ops path n st = some (some p, st') →
    inv (⟨p, n⟩ :: blocks) st' ∧ AgreeOn (Covers blocks) st st'
  refused : ∀ {blocks st st' n}, inv blocks st → n < limit →
    shallocMalloc ops path n st = some (none, st') →
    inv blocks st' ∧ AgreeOn (Covers blocks) st st'
  freed : ∀ {blocks st st' e parent}, inv blocks st → e ∈ blocks → path.head? = some parent →
    shallocFree ops parent e.ptr st = some st' →
    inv (releaseBlock e.ptr blocks) st' ∧ AgreeOn (Covers (releaseBlock e.ptr blocks)) st st'

/-- The parent takes back every block that it has issued: the free fails no assert. -/
def TakesBack (ops : BuffAllocType → BuffOp α) (path : List ℕ)
    (inv : List Extent → Store α → Prop) : Prop :=
  ∀ {blocks st e P}, inv blocks st → e ∈ blocks → path.head? = some P →
    ∃ st', shallocFree ops P e.ptr st = some st'

section SoundParent

variable {path : List ℕ} {top limit : ℕ} {inv : List Extent → Store α → Prop} {blocks : List Extent}

/-- A block starts at its own address. -/
theorem SoundParent.covers_ptr (hparent : SoundParent ops path top limit inv) (h : inv blocks st)
    {e : Extent} (he : e ∈ blocks) : Covers blocks e.ptr := by
  have hpos := (hparent.bounds h e he).1
  exact ⟨e, he, le_rfl, by omega⟩

/-- Different blocks share no address. -/
theorem SoundParent.eq_of_shared (hparent : SoundParent ops path top limit inv) (h : inv blocks st)
    {e e' : Extent} (he : e ∈ blocks) (he' : e' ∈ blocks) {a : ℕ}
    (ha : e.ptr ≤ a ∧ a < e.ptr + e.len) (ha' : e'.ptr ≤ a ∧ a < e'.ptr + e'.len) : e = e' := by
  by_contra hne
  have hapart : Extent.Disjoint e e' := (hparent.apart h).forall he he' hne
  rcases hapart with hd | hd <;> omega

/-- The addresses of a block that has just been issued are in no other block. -/
theorem SoundParent.not_covers (hparent : SoundParent ops path top limit inv) {e : Extent}
    (h : inv (e :: blocks) st) {a : ℕ} (ha : e.ptr ≤ a ∧ a < e.ptr + e.len) :
    ¬ Covers blocks a := by
  rintro ⟨e', he', ha'⟩
  rcases (List.pairwise_cons.mp (hparent.apart h)).1 e' he' with hd | hd <;> omega

/-- A block that has just been issued starts where no other does. -/
theorem SoundParent.releaseBlock_fresh (hparent : SoundParent ops path top limit inv) {d n : ℕ}
    (h : inv (⟨d, n⟩ :: blocks) st) : releaseBlock d (⟨d, n⟩ :: blocks) = blocks := by
  have hne : ∀ e ∈ blocks, e.ptr ≠ d := by
    rintro e he rfl
    have hnew := (hparent.bounds h _ List.mem_cons_self).1
    have hold := (hparent.bounds h e (List.mem_cons_of_mem _ he)).1
    have hcover : Covers blocks e.ptr := ⟨e, he, le_rfl, by omega⟩
    exact hparent.not_covers h ⟨le_rfl, Nat.lt_add_of_pos_right hnew⟩ hcover
  simp only [releaseBlock, ne_eq, not_true_eq_false, decide_false, Bool.false_eq_true,
    not_false_eq_true, List.filter_cons_of_neg]
  exact List.filter_eq_self.mpr fun e he => by simpa using hne e he

end SoundParent

section Heap

variable {head limit P b : ℕ} {parent : Region} {buff : Buff} {rep : Buff → List Extent → α → Prop}

/-- The blocks are in use in the one buffer of the region `P`. -/
structure HeapIssued (rep : Buff → List Extent → α → Prop) (P b : ℕ) (parent : Region)
    (buff : Buff) (blocks : List Extent) (st : Store α) : Prop where
  above : OneBuff rep P b parent buff st
  live : ∀ e ∈ blocks, e ∈ liveBlocks b st.trace
  apart : blocks.Pairwise Extent.Disjoint

/-- A region without an ancestor, with a buffer that it may not add to, answers a request
from that buffer or refuses it. -/
theorem shallocMalloc_fixed {n : ℕ} {p : Option ℕ} (hregion : st.regions P = some parent)
    (htail : parent.dataTail = some b) (hdescr : st.buffs b = some buff)
    (hfixed : hasFlag parent.flags .nonResizable = true)
    (hcall : shallocMalloc ops [P] n st = some (p, st')) :
    (p = none ∧ st' = st.log (.request P n)) ∨
      (0 < n ∧ ∃ a, (ops buff.allocType).malloc buff n (st.cells buff.start) = some (p, a) ∧
        st' = ((st.log (.request P n)).setCell buff.start a).log (.malloc b n p)) := by
  have hask : ∀ {t region q st1}, st.regions P = some region → region.dataTail = some t →
      (st.log (.request P n)).opMalloc ops t n = some (q, st1) →
      ∃ a, (ops buff.allocType).malloc buff n (st.cells buff.start) = some (q, a) ∧
        st1 = ((st.log (.request P n)).setCell buff.start a).log (.malloc b n q) := by
    intro t region q st1 hregion1 ht hmalloc
    obtain rfl := Option.some.inj (hregion1.symm.trans hregion)
    obtain rfl := Option.some.inj (ht.symm.trans htail)
    obtain ⟨buff', a, hbuff', hop, rfl⟩ := Store.opMalloc_eq_some.mp hmalloc
    obtain rfl := Option.some.inj (hdescr.symm.trans hbuff')
    exact ⟨a, hop, rfl⟩
  obtain ⟨-, rfl, rfl⟩ | ⟨hpos, hserve⟩ := shallocMalloc_cases hcall
  · exact Or.inl ⟨rfl, rfl⟩
  · refine Or.inr ⟨hpos, ?_⟩
    -- growing fails before anything is asked for
    have hgrow : ∀ {st1 st2 ret}, GrowCases ops (shallocMalloc ops []) P
        (shallocBuffAllocSize n) st1 ret st2 → st1.regions P = some parent →
        ret ≠ 0 ∧ st2 = st1 := by
      intro st1 st2 ret hgrow hregion1
      have hnot : ∀ {region}, st1.regions P = some region →
          (region.dataTail.isSome ∧ hasFlag region.flags .nonResizable = true) := by
        intro region hregion
        obtain rfl := Option.some.inj (hregion.symm.trans hregion1)
        exact ⟨by rw [htail]; rfl, hfixed⟩
      cases hgrow with
      | fixed => exact ⟨by decide, rfl⟩
      | failed hregion hfree => exact absurd (hnot hregion) hfree
      | grown hregion hfree => exact absurd (hnot hregion) hfree
    cases hserve with
    | served hregion ht hmalloc => exact hask hregion ht hmalloc
    | notGrown hrefuses hgrown hret =>
      obtain ⟨a, hop, rfl⟩ := hask hregion htail (hrefuses.asked hregion htail)
      obtain ⟨-, rfl⟩ := hgrow hgrown hregion
      exact ⟨a, hop, rfl⟩
    | retried hrefuses hgrown _ _ _ =>
      obtain ⟨a, hop, rfl⟩ := hask hregion htail (hrefuses.asked hregion htail)
      exact absurd rfl (hgrow hgrown hregion).1

/-- A free of an address in the one buffer of a region. -/
theorem shallocFree_tail {p : ℕ} {a : α} (hregion : st.regions P = some parent)
    (htail : parent.dataTail = some b) (hdescr : st.buffs b = some buff)
    (haddr : shallocIsBuffAddr buff p)
    (hfree : (ops buff.allocType).free buff p (st.cells buff.start) = some a) :
    shallocFree ops P p st =
      some (((st.log (.release P p)).setCell buff.start a).log (.free b p)) := by
  have hop : (st.log (.release P p)).opFree ops b p =
      some (((st.log (.release P p)).setCell buff.start a).log (.free b p)) :=
    Store.opFree_eq_some.mpr ⟨buff, a, hdescr, hfree, rfl⟩
  have hbuffs : (st.log (.release P p)).buffs b = some buff := hdescr
  simp only [shallocFree, bind, hregion, Option.bind_some, htail, hbuffs, if_pos haddr, hop]

/-- The addresses that the heap itself uses are in no block that it has issued. -/
theorem HeapIssued.own_addresses (hsound : SoundOp (ops buff.allocType) head limit rep)
    (hhead : 0 < head) {blocks : List Extent} (h : HeapIssued rep P b parent buff blocks st) :
    ¬ Covers blocks P ∧ ¬ Covers blocks b ∧ ¬ Covers blocks buff.start := by
  have hin : ∀ e ∈ blocks, buff.start < e.ptr ∧ e.ptr + e.len ≤ buff.start + buff.size := by
    intro e he
    obtain ⟨⟨h1, h2⟩, -, hpos⟩ := hsound.issued h.above.rep e (h.live e he)
    simp only at h1 h2
    exact ⟨by omega, by omega⟩
  have hrecord := h.above.layout.record
  have hdescr := h.above.layout.descr
  refine ⟨?_, ?_, ?_⟩
  all_goals
    rintro ⟨e, he, h1, h2⟩
    have hbounds := hin e he
    omega

/-- **A heap is a sound parent**: a region without ancestors that keeps its one buffer, and
whose allocator is sound and keeps its state before the blocks. -/
theorem heap_soundParent (hsound : SoundOp (ops buff.allocType) head limit rep)
    (hhead : 0 < head) (hfixed : hasFlag parent.flags .nonResizable = true)
    (hlimit : sizeofRegion < limit) :
    SoundParent ops [P] (2 ^ 48) limit (HeapIssued rep P b parent buff) where
  room := hlimit
  apart h := h.apart
  bounds := by
    intro blocks st h e he
    obtain ⟨⟨h1, h2⟩, -, hpos⟩ := hsound.issued h.above.rep e (h.live e he)
    have hsmall := h.above.layout.small
    simp only at h1 h2
    exact ⟨hpos, by omega⟩
  own := by
    intro blocks st st' h hagree
    obtain ⟨hP, hb, hstart⟩ := h.own_addresses hsound hhead
    exact ⟨h.above.of_same (hagree.regions P hP) (hagree.buffs b hb) (hagree.cells _ hstart)
      (hagree.live b hb), by rw [hagree.live b hb]; exact h.live, h.apart⟩
  served := by
    intro blocks st st' n p h hn hcall
    obtain ⟨-, hb, hstart⟩ := h.own_addresses hsound hhead
    obtain ⟨hp, -⟩ | ⟨hpos, a, hop, rfl⟩ :=
      shallocMalloc_fixed h.above.region h.above.layout.tail h.above.descr hfixed hcall
    · exact absurd hp (by simp)
    · obtain ⟨hrep, hapart⟩ := hsound.served h.above.rep hpos hn hop
      refine ⟨⟨⟨h.above.layout, h.above.region, h.above.descr, by simpa using hrep⟩, ?_, ?_⟩, ?_⟩
      · intro e he
        simp only [Store.log_trace, Store.setCell_trace, liveBlocks_malloc_some, if_true,
          liveBlocks_request]
        cases List.mem_cons.mp he with
        | inl heq => rw [heq]; exact List.mem_cons_self
        | inr he => exact List.mem_cons_of_mem _ (h.live e he)
      · exact List.pairwise_cons.mpr ⟨fun e he => hapart e (h.live e he), h.apart⟩
      · exact (AgreeOn.log _ st (by simp [Event.touches])).trans
          (.of_setCell hstart fun c hc heq => hb (by rw [show b = c from heq]; exact hc))
  refused := by
    intro blocks st st' n h hn hcall
    obtain ⟨-, hb, hstart⟩ := h.own_addresses hsound hhead
    obtain ⟨-, rfl⟩ | ⟨hpos, a, hop, rfl⟩ :=
      shallocMalloc_fixed h.above.region h.above.layout.tail h.above.descr hfixed hcall
    · exact ⟨⟨h.above.of_same rfl rfl rfl rfl, h.live, h.apart⟩,
        .log _ st (by simp [Event.touches])⟩
    · have hrep := hsound.refused h.above.rep hpos hn hop
      refine ⟨⟨⟨h.above.layout, h.above.region, h.above.descr, by simpa using hrep⟩, h.live,
        h.apart⟩, ?_⟩
      exact (AgreeOn.log _ st (by simp [Event.touches])).trans
        (.of_setCell hstart fun _ _ hno => hno)
  freed := by
    intro blocks st st' e P' h he hP' hcall
    obtain rfl : P = P' := Option.some.inj hP'
    obtain ⟨-, hb, hstart⟩ := h.own_addresses hsound hhead
    have hsub : ∀ a, Covers (releaseBlock e.ptr blocks) a → Covers blocks a := by
      rintro a ⟨e', he', ha⟩
      exact ⟨e', (mem_releaseBlock.mp he').1, ha⟩
    obtain ⟨⟨h1, h2⟩, -, hpos⟩ := hsound.issued h.above.rep e (h.live e he)
    have hend := h.above.layout.end_eq
    simp only at h1 h2
    have haddr : shallocIsBuffAddr buff e.ptr := ⟨by omega, by omega⟩
    cases shallocFree_cases hcall with
    | ignored hregion hnot =>
      obtain rfl := Option.some.inj (hregion.symm.trans h.above.region)
      exact absurd haddr (hnot b buff h.above.layout.tail h.above.descr)
    | asked hregion ht _ _ hfree =>
      obtain rfl := Option.some.inj (hregion.symm.trans h.above.region)
      obtain rfl := Option.some.inj (ht.symm.trans h.above.layout.tail)
      obtain ⟨buff', a, hbuff', hop, rfl⟩ := Store.opFree_eq_some.mp hfree
      obtain rfl := Option.some.inj (h.above.descr.symm.trans hbuff')
      have hrep := hsound.freed h.above.rep (h.live e he) hop
      refine ⟨⟨⟨h.above.layout, h.above.region, h.above.descr, by simpa using hrep⟩, ?_, ?_⟩, ?_⟩
      · intro e' he'
        obtain ⟨he', hne⟩ := mem_releaseBlock.mp he'
        simpa using ⟨h.live e' he', hne⟩
      · exact h.apart.sublist List.filter_sublist
      · refine AgreeOn.mono ?_ hsub
        exact (AgreeOn.log _ st (by simp [Event.touches])).trans
          (.of_setCell hstart fun c hc heq => hb (by rw [show _ = c from heq]; exact hc))

/-- The blocks of a heap end where its buffer does. -/
theorem heap_soundParent_below {top : ℕ}
    (hsound : SoundOp (ops buff.allocType) head limit rep)
    (hhead : 0 < head) (hfixed : hasFlag parent.flags .nonResizable = true)
    (hlimit : sizeofRegion < limit) (htop : buff.start + buff.size ≤ top) :
    SoundParent ops [P] top limit (HeapIssued rep P b parent buff) :=
  { heap_soundParent hsound hhead hfixed hlimit with
    bounds := by
      intro blocks st h e he
      obtain ⟨⟨h1, h2⟩, -, hpos⟩ := hsound.issued h.above.rep e (h.live e he)
      simp only at h1 h2
      exact ⟨hpos, by omega⟩ }

/-- A heap whose allocator takes back every block takes back every block. -/
theorem heap_takesBack (hsound : SoundOp (ops buff.allocType) head limit rep)
    (hfree : ∀ {live a e}, rep buff live a → e ∈ live →
      ∃ a', (ops buff.allocType).free buff e.ptr a = some a') :
    TakesBack ops [P] (HeapIssued rep P b parent buff) := by
  intro blocks st e P' h he hP'
  obtain rfl : P = P' := Option.some.inj hP'
  obtain ⟨a', hop⟩ := hfree h.above.rep (h.live e he)
  obtain ⟨⟨h1, h2⟩, -, hpos⟩ := hsound.issued h.above.rep e (h.live e he)
  have hend := h.above.layout.end_eq
  simp only at h1 h2
  exact ⟨_, shallocFree_tail h.above.region h.above.layout.tail h.above.descr
    ⟨by omega, by omega⟩ hop⟩

end Heap

/-- The blocks of `placedOp` begin past the first `head` bytes. -/
def PlacedAfter (head : ℕ) (buff : Buff) (blocks : List Extent)
    (a : AllocState (List Extent)) : Prop :=
  PlacedRep buff blocks a ∧ ∀ e ∈ blocks, buff.start + head ≤ e.ptr

theorem placedOp_sound_after {offset : ℕ → ℕ} {head : ℕ} (hoffset : ∀ n, head ≤ offset n)
    (limit : ℕ) : SoundOp (otherOp (placedOp offset)) head limit (PlacedAfter head) where
  issued h e he := by
    obtain ⟨⟨hstart, hend⟩, halign, hpos⟩ := (placedOp_sound offset limit).issued h.1 e he
    have hafter := h.2 e he
    simp only at hstart hend
    exact ⟨⟨by simp only; omega, by simp only; omega⟩, halign, hpos⟩
  served := by
    intro buff blocks a n p a' h hpos hlimit hcall
    obtain ⟨hrep, hapart⟩ := (placedOp_sound offset limit).served h.1 hpos hlimit hcall
    refine ⟨⟨hrep, fun e he => ?_⟩, hapart⟩
    cases List.mem_cons.mp he with
    | inr he => exact h.2 e he
    | inl heq =>
      obtain ⟨rfl, -⟩ := h.1
      simp only [otherOp, placedOp, bind, Option.bind_eq_some_iff, Prod.exists] at hcall
      obtain ⟨p', live, hplace, hres⟩ := hcall
      obtain ⟨rfl, -⟩ := Prod.mk.inj (Option.some.inj hres)
      split at hplace
      · obtain rfl := Option.some.inj (Prod.mk.inj (Option.some.inj hplace)).1
        rw [heq]
        exact Nat.add_le_add_left (hoffset n) _
      · exact absurd (Prod.mk.inj (Option.some.inj hplace)).1 (by simp)
  refused h hpos hlimit hcall := ⟨(placedOp_sound offset limit).refused h.1 hpos hlimit hcall, h.2⟩
  freed h he hfree := ⟨(placedOp_sound offset limit).freed h.1 he hfree,
    fun e' he' => h.2 e' (mem_releaseBlock.mp he').1⟩

/-- The heap of 64 KiB is a sound parent. -/
theorem heapRegion_soundParent :
    SoundParent heapOps [4096] (2 ^ 48) (2 ^ 64)
      (HeapIssued (PlacedAfter 216) 4096 4112 heapRegion heapBuff) :=
  heap_soundParent (placedOp_sound_after (fun _ => Nat.le_add_right _ _) (2 ^ 64)) (by decide) rfl
    (by decide)

/-- Where the allocator of type MPLITE puts the record of a region and the blocks after it in a
fresh heap of 64 KiB, if they are of different sizes: the record splits the chunk of 4 atoms,
a block of up to 64 bytes splits the rest of that chunk, and larger ones take the chunks of 128,
256 and 512 atoms. -/
def mpliteOffsetSizes (n : ℕ) : ℕ :=
  216 + 64 * if n ≤ 64 then 1002 else if n ≤ 128 then 1000 else if n ≤ 8192 then 768
    else if n ≤ 16384 then 512 else 0

/-- The allocators with that heap allocator. -/
def heapOpsSizes : BuffAllocType → BuffOp (AllocState (List Extent)) :=
  shallocSpaceBuffOps fun _ => placedOp mpliteOffsetSizes

theorem heapOpsSizes_soundParent :
    SoundParent heapOpsSizes [4096] (2 ^ 48) (2 ^ 64)
      (HeapIssued (PlacedAfter 216) 4096 4112 heapRegion heapBuff) :=
  heap_soundParent (placedOp_sound_after (fun _ => Nat.le_add_right _ _) (2 ^ 64)) (by decide) rfl
    (by decide)

theorem heapStore_issued :
    HeapIssued (PlacedAfter 216) 4096 4112 heapRegion heapBuff [] heapStore where
  above := ⟨heapStore_oneBuff.layout, rfl, rfl, heapStore_oneBuff.rep,
    fun _ he => absurd he List.not_mem_nil⟩
  live _ he := absurd he List.not_mem_nil
  apart := List.Pairwise.nil

end Shalloc
