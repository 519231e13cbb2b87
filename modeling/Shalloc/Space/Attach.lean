import Shalloc.Space.Inherit

/-!
# Two processes on one control page

A parent creates inherited heaps and starts a child that attaches to its control page. Both
go on creating heaps: the list of heaps is shared, and each process keeps the offset of its
own space. The list and the two offsets are an instance of bump placement, with the two
processes as its parties.

## Main definitions

- `Duo`, `DuoRun` — the two processes and the interleavings of their calls
- `Duo.Accounts` — the offset of a process accounts for all the listed heaps
- `Duo.bump` — the abstraction to bump placement

## Main results

- `DuoRun.bump` — every interleaving is a run of bump placement
- `attach_disjoint_iff` — when the listed heaps lie pairwise apart
-/

namespace Shalloc

variable {α : Type} {cfg : SpaceConfig α} {m m' : Machine α} {t : Tracked α}

open Machine

section Duo

/-- The two processes. -/
inductive Party
  | parent
  | child
deriving DecidableEq

/-- Two processes attached to one control page. -/
structure Duo (α : Type) where
  shared : Shared α
  procs : Party → Process α

/-- One of the processes with what it shares. -/
def Duo.machine (d : Duo α) (who : Party) : Machine α := ⟨d.shared, d.procs who⟩

/-- The two processes after a call of one of them. -/
def Duo.put (d : Duo α) (who : Party) (m : Machine α) : Duo α :=
  ⟨m.shared, Function.update d.procs who m.proc⟩

/-- A parent and the child that has just attached to its control page. -/
def Duo.attach (parent child : Machine α) : Duo α where
  shared := child.shared
  procs
    | .parent => parent.proc
    | .child => child.proc

/-- The ranges of the heaps in `heap_list[0..num_heaps)`. -/
def Duo.listedRanges (d : Duo α) : List Extent := d.shared.magic.listed.map Heap.range

/-- The offset of a process accounts for all the listed heaps. -/
def Duo.Accounts (d : Duo α) (who : Party) : Prop :=
  (d.procs who).space.offset = Extent.total d.listedRanges

/-- An interleaving of whole calls of `shalloc_heap_create` for inherited heaps. Of the calls
that return a heap it keeps who made them and the state they were made in, latest first. -/
inductive DuoRun (cfg : SpaceConfig α) (d0 : Duo α) : List (Duo α × Party) → Duo α → Prop
  | refl : DuoRun cfg d0 [] d0
  | created {past d who size mmapFlags type ptr m'} : DuoRun cfg d0 past d →
      mapInherit mmapFlags = true →
      shallocHeapCreate cfg size mmapFlags type (d.machine who) = some (some ptr, m') →
      DuoRun cfg d0 ((d, who) :: past) (d.put who m')
  | refused {past d who size mmapFlags type m'} : DuoRun cfg d0 past d →
      mapInherit mmapFlags = true →
      shallocHeapCreate cfg size mmapFlags type (d.machine who) = some (none, m') →
      DuoRun cfg d0 past (d.put who m')

end Duo

section Simulation

variable {d d0 : Duo α} {who : Party} {ptr : HeapPtr} {start : ℕ}

/-- The spaces of both processes begin at one address. -/
def DuoOk (start : ℕ) (d : Duo α) : Prop :=
  ∀ who, SpaceOk (d.procs who).space ∧ (d.procs who).space.data.start = start

/-- Each process places its heaps at its offset, and the list is shared. -/
def Duo.bump (start : ℕ) (d : Duo α) : Bump Party where
  next who := start + (d.procs who).space.offset
  placed := d.listedRanges

theorem Duo.upToDate_bump : Bump.UpToDate start (d.bump start) who ↔ d.Accounts who :=
  Nat.add_left_cancel_iff

theorem DuoOk.put (h : DuoOk start d) (hok : SpaceOk m'.proc.space)
    (hstart : m'.proc.space.data.start = start) : DuoOk start (d.put who m') := by
  intro who'
  by_cases hwho : who' = who
  · subst hwho
    simp only [Duo.put, Function.update_self]
    exact ⟨hok, hstart⟩
  · simp only [Duo.put, Function.update_of_ne hwho]
    exact h who'

/-- A heap that a process creates is placed at its offset, past which the offset moves. -/
theorem DuoOk.created {size mmapFlags : ℕ} {type : BuffAllocType} (h : DuoOk start d)
    (hinherit : mapInherit mmapFlags = true)
    (hcreated : HeapCreated cfg size mmapFlags type (d.machine who) m' ptr) :
    DuoOk start (d.put who m') ∧
      ∃ n, 0 < n ∧ (d.put who m').bump start = (d.bump start).place who n := by
  obtain ⟨hok, hstart⟩ := h who
  obtain ⟨hshape, hok', hsame, hoffset⟩ := hcreated.place hok
  refine ⟨h.put hok' (hsame.start.trans hstart), (m'.heap ptr).base.size, hshape.pages.2, ?_⟩
  have hrange : (m'.heap ptr).range =
      ⟨start + (d.procs who).space.offset, (m'.heap ptr).base.size⟩ := by
    rw [Heap.range, hshape.start, ← hstart]
    rfl
  have hplaced : (d.put who m').listedRanges = d.listedRanges ++
      [⟨start + (d.procs who).space.offset, (m'.heap ptr).base.size⟩] := by
    rw [← hrange]
    exact hcreated.listedRanges hinherit
  have hnext : ((d.put who m').bump start).next =
      ((d.bump start).place who (m'.heap ptr).base.size).next := by
    funext who'
    by_cases hwho : who' = who
    · subst hwho
      simp only [Duo.bump, Duo.put, Bump.place, Function.update_self]
      rw [hoffset, ← Nat.add_assoc]
      rfl
    · simp only [Duo.bump, Duo.put, Bump.place, Function.update_of_ne hwho]
  calc (d.put who m').bump start
      = ⟨((d.put who m').bump start).next, (d.put who m').listedRanges⟩ := rfl
    _ = (d.bump start).place who (m'.heap ptr).base.size := by rw [hnext, hplaced]; rfl

/-- A call that returns NULL leaves the list and the offsets alone. -/
theorem DuoOk.refused {mmapFlags : ℕ} (h : DuoOk start d)
    (hrefused : HeapNotCreated mmapFlags (d.machine who) m' ptr) :
    DuoOk start (d.put who m') ∧ (d.put who m').bump start = d.bump start := by
  have hspace : m'.proc.space = (d.procs who).space := hrefused.keeps.space
  refine ⟨h.put (hspace ▸ (h who).1) (hspace ▸ (h who).2), ?_⟩
  have hplaced : (d.put who m').listedRanges = d.listedRanges :=
    listedRanges_congr hrefused.entries
  have hnext : ((d.put who m').bump start).next = (d.bump start).next := by
    funext who'
    by_cases hwho : who' = who
    · subst hwho
      simp only [Duo.bump, Duo.put, Function.update_self, hspace]
    · simp only [Duo.bump, Duo.put, Function.update_of_ne hwho]
  calc (d.put who m').bump start
      = ⟨((d.put who m').bump start).next, (d.put who m').listedRanges⟩ := rfl
    _ = d.bump start := by rw [hnext, hplaced]; rfl

/-- **Simulation.** Every interleaving is a run of bump placement. -/
theorem DuoRun.bump {past : List (Duo α × Party)} (hrun : DuoRun cfg d0 past d)
    (h : DuoOk start d0) :
    DuoOk start d ∧ Bump.Run (d0.bump start) (past.map fun e => (e.1.bump start, e.2))
      (d.bump start) := by
  induction hrun with
  | refl => exact ⟨h, .refl⟩
  | created _ hinherit hcall ih =>
    obtain ⟨hok, hbump⟩ := ih
    have hcreated := shallocHeapCreate_created hcall
    obtain ⟨hok', n, hpos, hplace⟩ := hok.created hinherit hcreated
    rw [hplace]
    exact ⟨hok', hbump.place hpos⟩
  | refused _ _ hcall ih =>
    obtain ⟨hok, hbump⟩ := ih
    obtain ⟨ptr, hrefused⟩ := shallocHeapCreate_refused hcall
    obtain ⟨hok', hsame⟩ := hok.refused hrefused
    rw [hsame]
    exact ⟨hok', hbump⟩

end Simulation

section Attach

variable {d : Duo α}

/-- A call that creates an inherited heap. -/
def HeapOp.createsInherited : HeapOp → Prop
  | .create _ mmapFlags _ => mapInherit mmapFlags = true
  | .destroy _ => False

/-- A process that only creates inherited heaps lists all the heaps it has ever created. -/
theorem HeapRun.listedRanges_eq {stack : ℕ} (hinit : shallocSpaceInit cfg stack none = some m)
    {past : List (Tracked α × HeapOp)} (hrun : HeapRun cfg m.tracked past t)
    (hcreates : ∀ e ∈ past, e.2.createsInherited) :
    t.machine.listedRanges = t.ever.map Heap.range := by
  induction hrun with
  | refl => exact (shallocSpaceInit_fresh hinit).1
  | @step past t1 op t2 hrun hstep ih =>
    have ih := ih fun e he => hcreates e (List.mem_cons_of_mem _ he)
    have hop := hcreates _ List.mem_cons_self
    cases hstep with
    | created hcall =>
      have hcreated := shallocHeapCreate_created hcall
      rw [hcreated.listedRanges hop, ih, List.map_append]
      rfl
    | refused hcall =>
      obtain ⟨ptr, hrefused⟩ := shallocHeapCreate_refused hcall
      exact (listedRanges_congr hrefused.entries).trans ih
    | destroyed _ _ => exact absurd hop id

/-- **Two attached processes.** In every interleaving of the calls of a parent and a child,
the listed heaps lie pairwise apart iff every call that returns a heap is made by a process
whose own offset accounts for all the heaps listed at that time. -/
theorem attach_disjoint_iff {stack stack' : ℕ} (hinit : shallocSpaceInit cfg stack none = some m)
    {past : List (Tracked α × HeapOp)} (hrun : HeapRun cfg m.tracked past t)
    (hcreates : ∀ e ∈ past, e.2.createsInherited)
    (hattach : shallocSpaceInit cfg stack' (some t.machine.shared) = some m')
    {calls : List (Duo α × Party)} (hduo : DuoRun cfg (.attach t.machine m') calls d) :
    d.listedRanges.Pairwise Extent.Disjoint ↔ ∀ e ∈ calls, e.1.Accounts e.2 := by
  have hstart : Started cfg m := .fresh hinit
  have hparent := hstart.placement.run hrun
  have hchild : SpaceOk m'.proc.space := (Started.exec hstart hrun hattach).placement.ok
  obtain ⟨-, hbegin, hzero⟩ := shallocSpaceInit_fresh hinit
  obtain ⟨hsame, hbegin', hoffset'⟩ := hstart.exec_space hrun hattach
  have hlisted := hrun.listedRanges_eq hinit hcreates
  have hbegin0 : t.machine.proc.space.data.start = m.proc.space.data.start := hparent.same.start
  have hback := hparent.backToBack
  have hoffset := hparent.offset
  rw [hzero, ← hlisted, Nat.add_zero] at hback
  rw [hzero, ← hlisted, Nat.zero_add] at hoffset
  have hok : DuoOk m.proc.space.data.start (.attach t.machine m') := by
    intro who
    cases who with
    | parent => exact ⟨hparent.ok, hbegin0⟩
    | child => exact ⟨hchild, hbegin'.trans hbegin.symm⟩
  -- right after the attach both offsets are the sum of the sizes of the listed heaps
  have hplaced : (Duo.attach t.machine m').listedRanges = t.machine.listedRanges := hsame
  have hbounded : Bump.Bounded m.proc.space.data.start
      ((Duo.attach t.machine m').bump m.proc.space.data.start) := by
    intro who
    refine ⟨Nat.le_add_right _ _, Nat.add_le_add_left (Nat.le_of_eq ?_) _⟩
    show ((Duo.attach t.machine m').procs who).space.offset =
      Extent.total (Duo.attach t.machine m').listedRanges
    rw [hplaced]
    cases who with
    | parent => exact hoffset
    | child => exact hoffset'
  have hback0 : Extent.BackToBack m.proc.space.data.start
      ((Duo.attach t.machine m').bump m.proc.space.data.start).placed := by
    show Extent.BackToBack _ (Duo.attach t.machine m').listedRanges
    rw [hplaced]
    exact hback
  have hiff := (hduo.bump hok).2.pairwise_iff hback0 hbounded
  rw [List.forall_mem_map] at hiff
  exact hiff.trans (forall₂_congr fun e _ => Duo.upToDate_bump)

/-- A heap of the parent, and after the attach one of the child. -/
theorem attach_disjoint_child : ∃ m m1 m2 m3,
    shallocSpaceInit spaceConfig 0x7fff0000 none = some m ∧
    shallocHeapCreate spaceConfig 1 0x822 .none m = some (some (.slot 0), m1) ∧
    shallocSpaceInit spaceConfig 0x7fff0000 (some m1.shared) = some m2 ∧
    shallocHeapCreate spaceConfig 1 0x822 .none m2 = some (some (.slot 1), m3) ∧
    m3.listedRanges.Pairwise Extent.Disjoint := by
  have hcalls : (do
      let m ← shallocSpaceInit spaceConfig 0x7fff0000 none
      let (p1, m1) ← shallocHeapCreate spaceConfig 1 0x822 .none m
      let m2 ← shallocSpaceInit spaceConfig 0x7fff0000 (some m1.shared)
      let (p2, m3) ← shallocHeapCreate spaceConfig 1 0x822 .none m2
      some (p1, p2, m2.proc.space.offset, Extent.total m2.listedRanges)) =
        some (some (.slot 0), some (.slot 1), 0x2000, 0x2000) := by
    decide +kernel
  simp only [bind, Option.bind_eq_some_iff, Prod.exists, Option.some.injEq, Prod.mk.injEq] at hcalls
  obtain ⟨m, hinit, _, m1, hfirst, m2, hattach, _, m3, hsecond, rfl, rfl, hoffset, htotal⟩ := hcalls
  have hstep : HeapStep spaceConfig m.tracked (.create 1 0x822 .none)
      ⟨m1, m.entries ++ [(.slot 0, m1.heap (.slot 0))], [m1.heap (.slot 0)]⟩ := .created hfirst
  have hduo : DuoRun spaceConfig (.attach m1 m2) [(.attach m1 m2, .child)]
      ((Duo.attach m1 m2).put .child m3) := .created .refl (by decide) hsecond
  have hiff := attach_disjoint_iff hinit (.step .refl hstep) (by
    rintro e he
    rw [List.mem_singleton.mp he]
    exact (by decide : mapInherit 0x822 = true)) hattach hduo
  refine ⟨m, m1, m2, m3, hinit, hfirst, hattach, hsecond, hiff.mpr fun e he => ?_⟩
  rw [List.mem_singleton.mp he]
  exact hoffset.trans htotal.symm

/-- After the attach both processes create a heap, and both place it after the one that was
listed before. -/
theorem attach_overlap :
    ¬ ∀ (cfg : SpaceConfig (AllocState (List Extent))) (stack stack' : ℕ)
      (m m' : Machine (AllocState (List Extent)))
      (past : List (Tracked (AllocState (List Extent)) × HeapOp))
      (t : Tracked (AllocState (List Extent)))
      (calls : List (Duo (AllocState (List Extent)) × Party))
      (d : Duo (AllocState (List Extent))),
      shallocSpaceInit cfg stack none = some m → HeapRun cfg m.tracked past t →
      (∀ e ∈ past, e.2.createsInherited) →
      shallocSpaceInit cfg stack' (some t.machine.shared) = some m' →
      DuoRun cfg (.attach t.machine m') calls d → d.listedRanges.Pairwise Extent.Disjoint := by
  intro h
  have hcalls : (do
      let m ← shallocSpaceInit spaceConfig 0x7fff0000 none
      let (p1, m1) ← shallocHeapCreate spaceConfig 1 0x822 .none m
      let m2 ← shallocSpaceInit spaceConfig 0x7fff0000 (some m1.shared)
      let (p2, m3) ← shallocHeapCreate spaceConfig 1 0x822 .none ⟨m2.shared, m1.proc⟩
      let (p3, m4) ← shallocHeapCreate spaceConfig 1 0x822 .none ⟨m3.shared, m2.proc⟩
      some (p1, p2, p3, m4.listedRanges)) =
        some (some (.slot 0), some (.slot 1), some (.slot 2),
          [⟨0x80005000, 0x2000⟩, ⟨0x80007000, 0x2000⟩, ⟨0x80007000, 0x2000⟩]) := by
    decide +kernel
  simp only [bind, Option.bind_eq_some_iff, Prod.exists, Option.some.injEq, Prod.mk.injEq] at hcalls
  obtain ⟨m, hinit, _, m1, hfirst, m2, hattach, _, m3, hsecond, _, m4, hthird,
    rfl, rfl, rfl, hranges⟩ := hcalls
  have hstep : HeapStep spaceConfig m.tracked (.create 1 0x822 .none)
      ⟨m1, m.entries ++ [(.slot 0, m1.heap (.slot 0))], [m1.heap (.slot 0)]⟩ := .created hfirst
  have hparent : DuoRun spaceConfig (.attach m1 m2) [(.attach m1 m2, .parent)]
      ((Duo.attach m1 m2).put .parent m3) := .created .refl (by decide) hsecond
  have hduo : DuoRun spaceConfig (.attach m1 m2) _
      (((Duo.attach m1 m2).put .parent m3).put .child m4) :=
    .created hparent (by decide) hthird
  have hapart := h _ _ _ _ _ _ _ _ _ hinit (.step .refl hstep) (by
    rintro e he
    rw [List.mem_singleton.mp he]
    exact (by decide : mapInherit 0x822 = true)) hattach hduo
  have hlisted : (((Duo.attach m1 m2).put .parent m3).put .child m4).listedRanges =
      [⟨0x80005000, 0x2000⟩, ⟨0x80007000, 0x2000⟩, ⟨0x80007000, 0x2000⟩] := hranges
  rw [hlisted] at hapart
  exact absurd hapart (by decide)

end Attach

end Shalloc
