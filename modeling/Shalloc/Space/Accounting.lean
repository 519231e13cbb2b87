import Shalloc.Space.Registry

/-!
# The accounting of the space

`shalloc_space_new_heap` counts a new heap in `num_heaps` and takes its pages off
`unused_size`. Nothing gives either of them back, so that the two agree with the live heaps
as long as no heap has been destroyed, and no longer.

## Main definitions

- `SpaceAccounts` — the counters of the space agree with the live heaps
- `NewestDestroyed` — the destroyed heaps are the most recently created ones

## Main results

- `numHeaps_eq` — `num_heaps` counts the live heaps and the destructions
- `spaceAccounts_iff` — the counters agree iff no heap has been destroyed
-/

namespace Shalloc

variable {α : Type} {cfg : SpaceConfig α} {m m' : Machine α} {ptr : HeapPtr}
  {t t' : Tracked α} {past : List (Tracked α × HeapOp)}

open Machine

/-- A call destroys a heap. -/
def HeapOp.destroys : HeapOp → Bool
  | .create .. => false
  | .destroy _ => true

/-- How many heaps the calls have destroyed. -/
def destructions (past : List (Tracked α × HeapOp)) : ℕ := past.countP fun e => e.2.destroys

/-- The heaps that are gone were created after all those that are live, in a process that
started as `m`. -/
def NewestDestroyed (m : Machine α) (t : Tracked α) : Prop :=
  t.live.map Prod.snd <+: m.entries.map Prod.snd ++ t.ever

/-- The counters of the space agree with the live heaps: `num_heaps` with their number, and
what is not unused with their sizes, whenever the newest heaps are those that are gone. -/
structure SpaceAccounts (m : Machine α) (t : Tracked α) : Prop where
  numHeaps : t.machine.proc.space.numHeaps = t.live.length
  used : NewestDestroyed m t →
    t.machine.proc.space.data.size - t.machine.proc.space.data.unusedSize =
    (t.live.map fun e => e.2.base.size).sum

/-- A heap that is accounted for counts as one. -/
theorem shallocSpaceNewHeap_numHeaps {heap : Heap} {space space' : Space}
    (h : shallocSpaceNewHeap heap space = some space') :
    space'.numHeaps = space.numHeaps + 1 := by
  unfold shallocSpaceNewHeap at h
  split at h
  · exact absurd h (by simp)
  split at h
  · rw [← Option.some.inj h]
  · exact absurd h (by simp)

theorem newHeaps_numHeaps {heaps : List Heap} : ∀ {space space' : Space},
    heaps.foldlM (fun space heap => shallocSpaceNewHeap heap space) space = some space' →
    space'.numHeaps = space.numHeaps + heaps.length := by
  induction heaps with
  | nil =>
    intro space space' h
    rw [← Option.some.inj h]
    rfl
  | cons heap heaps ih =>
    intro space space' h
    simp only [List.foldlM_cons, bind, Option.bind_eq_some_iff] at h
    obtain ⟨space1, hnew, hrest⟩ := h
    rw [ih hrest, shallocSpaceNewHeap_numHeaps hnew, List.length_cons]
    omega

/-- A process starts with the heaps of its control page accounted for. -/
theorem Started.accounts (h : Started cfg m) :
    m.proc.space.numHeaps = m.entries.length ∧
      m.proc.space.offset = Extent.total (m.shared.magic.listed.map Heap.range) := by
  have hlisted := h.placement.listed.listed
  obtain ⟨privHeap, hfold⟩ : ∃ privHeap, m.shared.magic.listed.foldlM
      (fun space heap => shallocSpaceNewHeap heap space)
      (shallocSpaceRecord (controlAddr cfg.guardPages) privHeap) = some m.proc.space := by
    cases h with
    | fresh hinit => exact (shallocSpaceInit_cases hinit).2
    | exec _ _ hinit => exact (shallocSpaceInit_cases hinit).2
  obtain ⟨hok, hzero⟩ := shallocSpaceRecord_ok cfg.guardPages privHeap
  constructor
  · rw [newHeaps_numHeaps hfold, listed_eq, entries_eq]
    simp [firstEntries, shallocSpaceRecord]
  · rw [(hok.newHeaps hlisted hfold).2.2, hzero, Nat.zero_add]
    rfl

/-- The number of heaps after a call. -/
theorem HeapStep.numHeaps {op : HeapOp} (h : HeapStep cfg t op t')
    (hcount : t.machine.proc.space.numHeaps = t.live.length + destructions past) :
    t'.machine.proc.space.numHeaps = t'.live.length + destructions ((t, op) :: past) := by
  cases h with
  | created hcall =>
    have hcreated := shallocHeapCreate_created hcall
    rw [shallocSpaceNewHeap_numHeaps hcreated.space, hcount]
    simp [destructions, HeapOp.destroys]
    omega
  | refused hcall =>
    obtain ⟨ptr, hrefused⟩ := shallocHeapCreate_refused hcall
    simp only [hrefused.keeps.space, hcount]
    simp [destructions, HeapOp.destroys]
  | destroyed hmem hcall =>
    obtain ⟨⟨d, -, hkeeps⟩, -⟩ := shallocHeapRegionDestroy_keeps hcall
    have hpos := List.length_pos_of_mem hmem
    simp only [hkeeps.space, hcount, List.length_erase_of_mem hmem]
    simp [destructions, HeapOp.destroys]
    omega

/-- `num_heaps` counts the live heaps and the destructions. -/
theorem numHeaps_eq (hstart : Started cfg m) (hrun : HeapRun cfg m.tracked past t) :
    t.machine.proc.space.numHeaps = t.live.length + destructions past := by
  induction hrun with
  | refl => exact hstart.accounts.1
  | step _ hstep ih => exact hstep.numHeaps ih

/-- Without a destruction the live heaps are the first ones and all that were created. -/
theorem HeapRun.live_eq (hrun : HeapRun cfg m.tracked past t)
    (hnone : ∀ e ∈ past, e.2.destroys = false) :
    t.live.map Prod.snd = m.entries.map Prod.snd ++ t.ever := by
  induction hrun with
  | refl => exact (List.append_nil _).symm
  | step _ hstep ih =>
    have ih := ih fun e he => hnone e (List.mem_cons_of_mem _ he)
    cases hstep with
    | created => simp [ih]
    | refused => exact ih
    | destroyed => exact absurd (hnone _ List.mem_cons_self) (by simp [HeapOp.destroys])

/-- What is not unused is the size of the heaps of the control page that the process started
with, and of all that it has created. -/
theorem HeapRun.used_eq (hstart : Started cfg m) (hrun : HeapRun cfg m.tracked past t) :
    t.machine.proc.space.data.size - t.machine.proc.space.data.unusedSize =
      Extent.total ((m.entries.map Prod.snd ++ t.ever).map Heap.range) := by
  have hplace := (hstart.placement.run hrun).offset
  rw [hstart.accounts.2, listed_eq] at hplace
  rw [List.map_append, Extent.total_append, ← Space.offset, hplace, entries_eq]
  simp [firstEntries, Function.comp_def]

theorem total_range (heaps : List Heap) :
    Extent.total (heaps.map Heap.range) = (heaps.map fun heap => heap.base.size).sum := by
  induction heaps with
  | nil => rfl
  | cons heap heaps ih =>
    rw [List.map_cons, Extent.total_cons, ih, List.map_cons, List.sum_cons]
    rfl

/-- **The accounting of the space.** In every state of every run the counters agree with the
live heaps iff the run has destroyed no heap. -/
theorem spaceAccounts_iff (hstart : Started cfg m) (hrun : HeapRun cfg m.tracked past t) :
    SpaceAccounts m t ↔ ∀ e ∈ past, e.2.destroys = false := by
  have hcount := numHeaps_eq hstart hrun
  constructor
  · intro h e he
    have hzero : destructions past = 0 := by
      rw [h.numHeaps] at hcount
      omega
    simpa using List.countP_eq_zero.mp hzero e he
  · intro hnone
    have hzero : destructions past = 0 :=
      List.countP_eq_zero.mpr fun e he => by simp [hnone e he]
    refine ⟨by rw [hcount, hzero, Nat.add_zero], fun _ => ?_⟩
    rw [hrun.used_eq hstart, ← hrun.live_eq hnone, total_range, List.map_map]
    rfl

/-- One heap, created: the counters agree with it. -/
theorem spaceAccounts_created : ∃ m m1,
    shallocSpaceInit spaceConfig 0x7fff0000 none = some m ∧
    shallocHeapCreate spaceConfig 1 0x822 .none m = some (some (.slot 0), m1) ∧
    SpaceAccounts m ⟨m1, m.entries ++ [(.slot 0, m1.heap (.slot 0))], [m1.heap (.slot 0)]⟩ := by
  obtain ⟨m, m1, hinit, hcreate⟩ : ∃ m m1,
      shallocSpaceInit spaceConfig 0x7fff0000 none = some m ∧
      shallocHeapCreate spaceConfig 1 0x822 .none m = some (some (.slot 0), m1) :=
    ⟨_, _, rfl, rfl⟩
  refine ⟨m, m1, hinit, hcreate, ?_⟩
  apply (spaceAccounts_iff (.fresh hinit) (.step .refl (.created hcreate))).mpr
  intro e he
  rw [List.mem_singleton.mp he]
  rfl

/-- One heap, created and destroyed: it is still counted. -/
theorem not_spaceAccounts :
    ¬ ∀ (cfg : SpaceConfig (AllocState (List Extent))) (m : Machine (AllocState (List Extent)))
      (past : List (Tracked (AllocState (List Extent)) × HeapOp))
      (t : Tracked (AllocState (List Extent))),
      Started cfg m → HeapRun cfg m.tracked past t → SpaceAccounts m t := by
  intro h
  obtain ⟨m, m1, m2, hinit, hcreate, hdestroy, hempty, hnum⟩ : ∃ m m1 m2,
      shallocSpaceInit spaceConfig 0x7fff0000 none = some m ∧
      shallocHeapCreate spaceConfig 1 0x822 .none m = some (some (.slot 0), m1) ∧
      shallocHeapRegionDestroy spaceConfig (.slot 0) m1 = some m2 ∧
      m.entries = [] ∧ m2.proc.space.numHeaps = 1 := ⟨_, _, _, rfl, rfl, rfl, rfl, rfl⟩
  have haccounts := (h _ _ _ _ (.fresh hinit) (.step (.step .refl (.created hcreate)) (.destroyed
    (List.mem_append_right _ List.mem_cons_self) hdestroy))).numHeaps
  simp [tracked, hempty, hnum] at haccounts

end Shalloc
