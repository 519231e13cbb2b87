import Shalloc.Runs.Create

/-!
# Regions that share their parent

The parent of a region issues blocks to others as well, who ask for them, write to them and
give them back between the calls on the region. For the region this is a parent that keeps
some blocks for itself.

## Main definitions

- `Beside` — the invariant of a parent that has issued some blocks to others
- `SharedRun` — the runs of a region and of the others who use its parent

## Main results

- `SoundParent.beside` — such a parent is sound if the parent is
- `SharedRun.kept` — the invariant of the region in every run
-/

namespace Shalloc

variable {α : Type} {ops : BuffAllocType → BuffOp α} {st st' : Store α} {path : List ℕ}
  {top limit k r n p : ℕ} {inv : List Extent → Store α → Prop} {type : BuffAllocType}
  {rep : Buff → List Extent → α → Prop} {chain held : List ℕ} {blocks others all : List Extent}

/-- The parent has issued the blocks `others` besides those that its user knows of. -/
def Beside (others : List Extent) (inv : List Extent → Store α → Prop) (blocks : List Extent)
    (st : Store α) : Prop :=
  ∃ all, inv all st ∧ all.Perm (blocks ++ others)

section Beside

/-- The addresses of all blocks. -/
theorem covers_perm (hperm : all.Perm (blocks ++ others)) {a : ℕ} :
    Covers all a ↔ Covers blocks a ∨ Covers others a := by
  simp only [Covers, hperm.mem_iff, List.mem_append, or_and_right, exists_or]

variable (hparent : SoundParent ops path top limit inv)
include hparent

theorem SoundParent.beside_apart (h : inv all st) (hperm : all.Perm (blocks ++ others)) :
    (blocks ++ others).Pairwise Extent.Disjoint :=
  (hperm.pairwise_iff fun hd => hd.symm).mp (hparent.apart h)

/-- The blocks of the others lie apart from those of the user. -/
theorem SoundParent.beside_not_covers (h : Beside others inv blocks st) {a : ℕ}
    (ha : Covers others a) : ¬ Covers blocks a := by
  rintro ⟨e, he, hin⟩
  obtain ⟨e', he', hin'⟩ := ha
  obtain ⟨all, hall, hperm⟩ := h
  have hapart := (List.pairwise_append.mp (hparent.beside_apart hall hperm)).2.2 e he e' he'
  rcases hapart with hd | hd <;> omega

/-- What one party gives back, the other does not have. -/
theorem SoundParent.beside_release (h : inv all st) (hperm : all.Perm (blocks ++ others))
    {e : Extent} :
    (e ∈ blocks → releaseBlock e.ptr others = others) ∧
      (e ∈ others → releaseBlock e.ptr blocks = blocks) := by
  have hapart := (List.pairwise_append.mp (hparent.beside_apart h hperm)).2.2
  have hpos : ∀ e ∈ blocks ++ others, 0 < e.len :=
    fun e he => (hparent.bounds h e (hperm.mem_iff.mpr he)).1
  have hne : ∀ e ∈ blocks, ∀ e' ∈ others, e.ptr ≠ e'.ptr := by
    intro e he e' he' heq
    have hlen := hpos e (List.mem_append_left _ he)
    have hlen' := hpos e' (List.mem_append_right _ he')
    rcases hapart e he e' he' with hd | hd <;> omega
  refine ⟨fun he => List.filter_eq_self.mpr fun e' he' => ?_,
    fun he => List.filter_eq_self.mpr fun e' he' => ?_⟩
  · simpa using (hne e he e' he').symm
  · simpa using hne e' he' e he

omit hparent in
theorem releaseBlock_perm (hperm : all.Perm (blocks ++ others)) (p : ℕ) :
    (releaseBlock p all).Perm (releaseBlock p blocks ++ releaseBlock p others) := by
  rw [releaseBlock, releaseBlock, releaseBlock, ← List.filter_append]
  exact hperm.filter _

/-- A parent that keeps some blocks for others is as sound as it was. -/
theorem SoundParent.beside (others : List Extent) :
    SoundParent ops path top limit (Beside others inv) where
  room := hparent.room
  apart := by
    rintro blocks st ⟨all, hall, hperm⟩
    exact (List.pairwise_append.mp (hparent.beside_apart hall hperm)).1
  bounds := by
    rintro blocks st ⟨all, hall, hperm⟩ e he
    exact hparent.bounds hall e (hperm.mem_iff.mpr (List.mem_append_left _ he))
  own := by
    rintro blocks st st' ⟨all, hall, hperm⟩ hagree
    exact ⟨all, hparent.own hall (hagree.mono fun a hnot hin =>
      hnot ((covers_perm hperm).mpr (Or.inl hin))), hperm⟩
  served := by
    rintro blocks st st' n p ⟨all, hall, hperm⟩ hn hcall
    obtain ⟨hinv, hagree⟩ := hparent.served hall hn hcall
    exact ⟨⟨_, hinv, hperm.cons _⟩, hagree.mono fun _ ha => (covers_perm hperm).mpr (Or.inl ha)⟩
  refused := by
    rintro blocks st st' n ⟨all, hall, hperm⟩ hn hcall
    obtain ⟨hinv, hagree⟩ := hparent.refused hall hn hcall
    exact ⟨⟨_, hinv, hperm⟩, hagree.mono fun _ ha => (covers_perm hperm).mpr (Or.inl ha)⟩
  freed := by
    rintro blocks st st' e P ⟨all, hall, hperm⟩ he hP hcall
    obtain ⟨hinv, hagree⟩ :=
      hparent.freed hall (hperm.mem_iff.mpr (List.mem_append_left _ he)) hP hcall
    have hperm' := releaseBlock_perm hperm e.ptr
    rw [(hparent.beside_release hall hperm).1 he] at hperm'
    exact ⟨⟨_, hinv, hperm'⟩, hagree.mono fun _ ha => (covers_perm hperm').mpr (Or.inl ha)⟩

end Beside

/-- Calls on a region and growths of it, writes to the data of its buffers, and what others do
who have the blocks `others` of the parent: they ask for blocks, give them back, and write to
them. The parent is asked for less than `limit` bytes at a time. -/
inductive SharedRun (ops : BuffAllocType → BuffOp α) (path : List ℕ) (limit : ℕ)
    (inv : List Extent → Store α → Prop) (type : BuffAllocType) (r : ℕ) :
    Store α → List ℕ → List Extent → Prop
  | create {initSize buffSize blockSize flags : ℕ} {given : BuffAllocType} {st st' : Store α}
      {others : List Extent} : inv others st → initSize < 2 ^ 48 → buffSize < 2 ^ 48 →
      (shallocGetRegion path buffSize blockSize flags given).defaultData.allocType = type →
      (shallocGetRegion path buffSize blockSize flags given).request initSize < limit →
      shallocRegionCreate ops path initSize buffSize blockSize flags given st =
        some (some r, st') →
      SharedRun ops path limit inv type r st' [] others
  | call {st st' : Store α} {held held' : List ℕ} {others : List Extent} :
      SharedRun ops path limit inv type r st held others →
        HeldCall ops path limit r st held st' held' →
      SharedRun ops path limit inv type r st' held' others
  | grow {st st' : Store α} {held : List ℕ} {others : List Extent} {size : ℕ} {ret : ℤ} :
      SharedRun ops path limit inv type r st held others → size < 2 ^ 48 →
      AsksBelow limit r size st →
      shallocRegionGrow ops (shallocMalloc ops path) r size st = some (ret, st') →
      SharedRun ops path limit inv type r st' held others
  | write {st st' : Store α} {held chain : List ℕ} {others : List Extent} {region : Region} :
      SharedRun ops path limit inv type r st held others → st.regions r = some region →
      Linked st region chain → AgreeOn (fun a => ¬ InData chain st a) st st' →
      SharedRun ops path limit inv type r st' held others
  | otherMalloc {st st' : Store α} {held : List ℕ} {others : List Extent} {n : ℕ} {p : Option ℕ} :
      SharedRun ops path limit inv type r st held others → n < limit →
      shallocMalloc ops path n st = some (p, st') →
      SharedRun ops path limit inv type r st' held (p.elim others fun p => ⟨p, n⟩ :: others)
  | otherFree {st st' : Store α} {held : List ℕ} {others : List Extent} {e : Extent} {P : ℕ} :
      SharedRun ops path limit inv type r st held others → e ∈ others → path.head? = some P →
      shallocFree ops P e.ptr st = some st' →
      SharedRun ops path limit inv type r st' held (releaseBlock e.ptr others)
  | otherWrite {st st' : Store α} {held : List ℕ} {others : List Extent} :
      SharedRun ops path limit inv type r st held others →
        AgreeOn (fun a => ¬ Covers others a) st st' →
      SharedRun ops path limit inv type r st' held others

section Run

variable (htop : top ≤ 2 ^ 63) (hparent : SoundParent ops path top limit inv)
  (hop : PlacesInside (ops type) top rep)
include htop hparent hop

/-- A growth takes nothing out of use. -/
theorem HeldKept.grow {size : ℕ} {ret : ℤ} (h : HeldKept path inv type top rep k r st chain held)
    (hn : size < 2 ^ 48) (hbelow : AsksBelow limit r size st)
    (hgrow : shallocRegionGrow ops (shallocMalloc ops path) r size st = some (ret, st')) :
    ∃ k' chain', HeldKept path inv type top rep k' r st' chain' held := by
  have rule := insideRule htop hop
  have hpos : 0 < size := by
    by_contra hzero
    obtain rfl : size = 0 := by omega
    simp [shallocRegionGrow] at hgrow
  have hcases := shallocRegionGrow_cases hgrow
  have hlive := h.kept.grow_live hparent rule hpos (by omega) hbelow hcases
  refine ⟨_, _, h.kept.grow hparent rule hpos (by omega) hbelow hcases, fun p hp => ?_⟩
  obtain ⟨d, hd, huse⟩ := h.held p hp
  exact ⟨d, List.mem_append_left _ hd, by rwa [hlive d hd]⟩

omit htop hop in
/-- A step of the others leaves the blocks of the region in use. -/
theorem HeldKept.beside {others' : List Extent}
    (h : HeldKept path (Beside others inv) type top rep k r st chain held)
    (hstep : ∀ blocks, Beside others inv blocks st →
      Beside others' inv blocks st' ∧ AgreeOn (Covers blocks) st st') :
    HeldKept path (Beside others' inv) type top rep k r st' chain held := by
  obtain ⟨region, blocks, hinv⟩ := h.kept
  obtain ⟨hinv', hagree⟩ := hstep blocks hinv.parent
  refine ⟨⟨region, blocks, hinv.agree hinv' (fun _ he _ => he) (fun _ he => he) hagree⟩,
    fun p hp => ?_⟩
  obtain ⟨d, hd, huse⟩ := h.held p hp
  have hcover := ((hinv.covers (hparent.beside others)).2 d hd).1
  exact ⟨d, hd, by rwa [hagree.live d hcover]⟩

/-- Every run keeps the invariant of the region, whatever the others do. -/
theorem SharedRun.kept (run : SharedRun ops path limit inv type r st held others) :
    (∃ P, path.head? = some P) ∧
      ∃ k chain, HeldKept path (Beside others inv) type top rep k r st chain held := by
  induction run with
  | @create _ _ _ _ _ _ _ others h hinit hbuff htype hbelow hcall =>
    have hrun : HeldRun ops path limit (Beside others inv) type r _ [] :=
      .create ⟨others, h, List.Perm.refl _⟩ hinit hbuff htype hbelow hcall
    exact hrun.kept htop (hparent.beside others) hop
  | @call _ _ _ _ others _ hcall ih =>
    obtain ⟨⟨P, hP⟩, k, chain, h⟩ := ih
    exact ⟨⟨P, hP⟩, hcall.kept htop (hparent.beside others) hop hP h⟩
  | @grow _ _ _ others _ _ _ hn hbelow hgrow ih =>
    obtain ⟨hP, k, chain, h⟩ := ih
    exact ⟨hP, h.grow htop (hparent.beside others) hop hn hbelow hgrow⟩
  | @write _ _ _ chain others region _ hregion hlinked hagree ih =>
    obtain ⟨hP, k, chain', h⟩ := ih
    obtain ⟨region', blocks, hinv⟩ := h.kept
    obtain rfl := Option.some.inj (hinv.record.symm.trans hregion)
    obtain rfl := hinv.linked.head.unique hlinked.head
    obtain ⟨hkept, hsame⟩ := h.kept.written (hparent.beside others) hagree
    refine ⟨hP, k, chain', hkept, fun p hp => ?_⟩
    obtain ⟨d, hd, huse⟩ := h.held p hp
    exact ⟨d, hd, by rwa [(hsame d hd).2]⟩
  | @otherMalloc _ _ _ others n p _ hn hcall ih =>
    obtain ⟨hP, k, chain, h⟩ := ih
    refine ⟨hP, k, chain, h.beside hparent ?_⟩
    rintro blocks ⟨all, hall, hperm⟩
    have hsub : ∀ a, Covers blocks a → Covers all a :=
      fun _ ha => (covers_perm hperm).mpr (Or.inl ha)
    cases p with
    | none =>
      obtain ⟨hinv, hagree⟩ := hparent.refused hall hn hcall
      exact ⟨⟨all, hinv, hperm⟩, hagree.mono hsub⟩
    | some p =>
      obtain ⟨hinv, hagree⟩ := hparent.served hall hn hcall
      exact ⟨⟨_, hinv, (hperm.cons _).trans List.perm_middle.symm⟩, hagree.mono hsub⟩
  | @otherFree _ _ _ others e P _ he hP' hcall ih =>
    obtain ⟨hP, k, chain, h⟩ := ih
    refine ⟨hP, k, chain, h.beside hparent ?_⟩
    rintro blocks ⟨all, hall, hperm⟩
    obtain ⟨hinv, hagree⟩ :=
      hparent.freed hall (hperm.mem_iff.mpr (List.mem_append_right _ he)) hP' hcall
    have hperm' := releaseBlock_perm hperm e.ptr
    rw [(hparent.beside_release hall hperm).2 he] at hperm'
    exact ⟨⟨_, hinv, hperm'⟩, hagree.mono fun _ ha => (covers_perm hperm').mpr (Or.inl ha)⟩
  | @otherWrite _ _ _ others _ hagree ih =>
    obtain ⟨hP, k, chain, h⟩ := ih
    refine ⟨hP, k, chain, h.beside hparent ?_⟩
    intro blocks hblocks
    refine ⟨?_, hagree.mono fun a ha hin => hparent.beside_not_covers hblocks hin ha⟩
    obtain ⟨all, hall, hperm⟩ := hblocks
    exact ⟨all, hparent.own hall (hagree.mono fun a hnot hin =>
      hnot ((covers_perm hperm).mpr (Or.inr hin))), hperm⟩

/-- A request puts the block that it returns in use. -/
theorem SharedRun.malloc_live {q : ℕ} (run : SharedRun ops path limit inv type r st held others)
    (hn : n < 2 ^ 48) (hbelow : AsksBelow limit r (shallocBuffAllocSize n) st)
    (hcall : shallocMalloc ops (r :: path) n st = some (some q, st')) :
    LiveIn r st' ⟨q, n⟩ := by
  obtain ⟨-, k, chain, h⟩ := run.kept htop hparent hop
  have hsound := hparent.beside others
  have hkept := h.kept.malloc hsound (insideRule htop hop) hn hbelow hcall
  have hlive := h.kept.malloc_chainLive htop hsound hop hn hbelow hcall ⟨q, n⟩
  exact (hkept.liveIn_iff _).mpr (hlive.mpr (Or.inr ⟨q, rfl, rfl⟩))

end Run

end Shalloc
