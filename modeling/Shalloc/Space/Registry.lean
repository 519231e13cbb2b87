import Mathlib.Data.List.Perm.Basic
import Shalloc.Space.Placement

/-!
# The registry of inherited heaps

The control page lists the inherited heaps in `heap_list[0..num_heaps)`. A new heap takes
the entry at `num_heaps`; the destruction of a heap only counts `num_heaps` down. The list
holds the live heaps as long as each heap destroyed is the one in the last entry.

## Main definitions

- `Registered` — the live records of the control page are those of inherited heaps
- `RegistryExact` — the list holds exactly the live heaps
- `DestroysLast` — the heap that a call destroys is in the last entry of the list

## Main results

- `registry_exact_iff` — when the list holds exactly the live heaps throughout a run
-/

namespace Shalloc

variable {α : Type} {cfg : SpaceConfig α} {m m' : Machine α} {ptr : HeapPtr}

open Machine

section Entries

/-- The first `n` entries of the list. -/
def Machine.firstEntries (m : Machine α) (n : ℕ) : List (HeapPtr × Heap) :=
  (List.range n).map fun i => (.slot i, m.heap (.slot i))

theorem entries_eq (m : Machine α) :
    m.entries = m.firstEntries m.shared.magic.numHeaps.toNat := rfl

theorem firstEntries_succ (m : Machine α) (n : ℕ) :
    m.firstEntries (n + 1) = m.firstEntries n ++ [(.slot n, m.heap (.slot n))] := by
  simp [firstEntries, List.range_succ]

theorem mem_firstEntries {n : ℕ} {e : HeapPtr × Heap} :
    e ∈ m.firstEntries n ↔ ∃ i < n, e = (.slot i, m.heap (.slot i)) := by
  simp only [firstEntries, List.mem_map, List.mem_range, eq_comm]

theorem firstEntries_congr {n : ℕ} (h : ∀ i < n, m'.heap (.slot i) = m.heap (.slot i)) :
    m'.firstEntries n = m.firstEntries n := by
  apply List.map_congr_left
  intro i hi
  rw [h i (List.mem_range.mp hi)]

/-- A new inherited heap takes the next entry. -/
theorem HeapCreated.entries {size mmapFlags : ℕ} {type : BuffAllocType}
    (h : HeapCreated cfg size mmapFlags type m m' ptr) (hinherit : mapInherit mmapFlags = true) :
    ptr = .slot m.shared.magic.numHeaps.toNat ∧ m'.entries = m.entries ++ [(ptr, m'.heap ptr)] := by
  have hnew := h.isNew
  have hnum := h.numHeaps
  rw [NewRecord, if_pos hinherit] at hnew
  rw [listedBy, if_pos hinherit] at hnum
  obtain ⟨hnonneg, -, rfl⟩ := hnew
  refine ⟨rfl, ?_⟩
  have hsucc : (m.shared.magic.numHeaps + 1).toNat = m.shared.magic.numHeaps.toNat + 1 := by omega
  rw [entries_eq, hnum, hsucc, firstEntries_succ, entries_eq]
  rw [firstEntries_congr fun i hi => h.slots i fun heq => by have := HeapPtr.slot.inj heq; omega]

/-- A heap in the private heap takes no entry. -/
theorem HeapCreated.entries_priv {size mmapFlags : ℕ} {type : BuffAllocType}
    (h : HeapCreated cfg size mmapFlags type m m' ptr) (hpriv : mapInherit mmapFlags = false) :
    m'.entries = m.entries := by
  have hnew := h.isNew
  have hnum := h.numHeaps
  rw [NewRecord, if_neg (by simp [hpriv])] at hnew
  rw [listedBy, if_neg (by simp [hpriv]), Int.add_zero] at hnum
  obtain ⟨addr, rfl⟩ := hnew
  rw [entries_eq, hnum, entries_eq]
  exact firstEntries_congr fun i _ => h.slots i (by simp)

/-- A call that returns NULL leaves the list alone. -/
theorem HeapNotCreated.entries {mmapFlags : ℕ} (h : HeapNotCreated mmapFlags m m' ptr) :
    m'.entries = m.entries := by
  have hnew := h.isNew
  rw [entries_eq, h.keeps.numHeaps, Int.add_zero, entries_eq]
  refine firstEntries_congr fun i hi => h.keeps.slots i ?_
  rw [NewRecord] at hnew
  split at hnew
  · intro heq
    have := HeapPtr.slot.inj (heq.trans hnew.2.2)
    omega
  · obtain ⟨addr, rfl⟩ := hnew
    simp

end Entries

section Registered

variable {t t' : Tracked α}

/-- The entries of the list, and the records of the control page that live pointers refer
to, are those of inherited heaps. -/
structure Registered (t : Tracked α) : Prop where
  listed : ∀ e ∈ t.machine.entries, SlotRecord e.2
  live : ∀ i heap, (.slot i, heap) ∈ t.live → SlotRecord (t.machine.heap (.slot i))

theorem Registered.tracked (h : ∀ e ∈ m.entries, SlotRecord e.2) : Registered m.tracked where
  listed := h
  live i heap hmem := by
    have hslot := h _ hmem
    obtain ⟨j, -, heq⟩ := mem_firstEntries.mp hmem
    obtain ⟨hij, rfl⟩ := Prod.mk.inj heq
    rw [hij]
    exact hslot

theorem Registered.created {size mmapFlags : ℕ} {type : BuffAllocType} {ever : List Heap}
    (h : Registered t) (hcreated : HeapCreated cfg size mmapFlags type t.machine m' ptr) :
    Registered ⟨m', t.live ++ [(ptr, m'.heap ptr)], ever⟩ := by
  cases hinherit : mapInherit mmapFlags with
  | true =>
    have hslot := hcreated.slotRecord hinherit
    refine ⟨?_, fun i heap hmem => ?_⟩
    · rw [(hcreated.entries hinherit).2]
      intro e he
      cases List.mem_append.mp he with
      | inl hold => exact h.listed e hold
      | inr hnew =>
        rw [List.mem_singleton.mp hnew]
        exact hslot
    · by_cases hptr : HeapPtr.slot i = ptr
      · simp only [hptr]
        exact hslot
      · simp only [hcreated.slots i hptr]
        cases List.mem_append.mp hmem with
        | inl hold => exact h.live i heap hold
        | inr hnew => exact absurd (Prod.mk.inj (List.mem_singleton.mp hnew)).1 hptr
  | false =>
    have hnew := hcreated.isNew
    rw [NewRecord, if_neg (by simp [hinherit])] at hnew
    obtain ⟨addr, rfl⟩ := hnew
    refine ⟨?_, fun i heap hmem => ?_⟩
    · rw [hcreated.entries_priv hinherit]
      exact h.listed
    · simp only [hcreated.slots i (by simp)]
      cases List.mem_append.mp hmem with
      | inl hold => exact h.live i heap hold
      | inr hnew => exact absurd (Prod.mk.inj (List.mem_singleton.mp hnew)).1 (by simp)

theorem Registered.refused {mmapFlags : ℕ} (h : Registered t)
    (hrefused : HeapNotCreated mmapFlags t.machine m' ptr) :
    Registered { t with machine := m' } := by
  refine ⟨?_, fun i heap hmem => ?_⟩
  · rw [hrefused.entries]
    exact h.listed
  · by_cases hptr : HeapPtr.slot i = ptr
    · have hinherit : mapInherit mmapFlags = true := by
        by_contra hpriv
        have hnew := hrefused.isNew
        rw [NewRecord, if_neg hpriv] at hnew
        obtain ⟨addr, rfl⟩ := hnew
        exact absurd hptr (by simp)
      simp only [hptr]
      exact hrefused.slot hinherit
    · simp only [hrefused.keeps.slots i hptr]
      exact h.live i heap hmem

theorem Registered.destroyed {heap : Heap} {live : List (HeapPtr × Heap)} (h : Registered t)
    (hmem : (ptr, heap) ∈ t.live) (hlive : ∀ e ∈ live, e ∈ t.live)
    (hdestroy : shallocHeapRegionDestroy cfg ptr t.machine = some m') :
    Registered { t with machine := m', live := live } := by
  obtain ⟨⟨d, hd, hkeeps⟩, -⟩ := shallocHeapRegionDestroy_keeps hdestroy
  have hslots : ∀ i, SlotRecord (t.machine.heap (.slot i)) → SlotRecord (m'.heap (.slot i)) := by
    intro i hslot
    by_cases hptr : HeapPtr.slot i = ptr
    · subst hptr
      exact hslot.of_sameHeap (shallocHeapRegionDestroy_slot hdestroy hslot).2
    · rwa [hkeeps.slots i hptr]
  refine ⟨fun e he => ?_, fun i heap' hmem' => hslots i (h.live i heap' (hlive _ hmem'))⟩
  obtain ⟨i, hi, rfl⟩ := mem_firstEntries.mp he
  rw [hkeeps.numHeaps] at hi
  exact hslots i (h.listed (.slot i, t.machine.heap (.slot i))
    (mem_firstEntries.mpr ⟨i, by omega, rfl⟩))

theorem Registered.step {op : HeapOp} (h : Registered t) (hstep : HeapStep cfg t op t') :
    Registered t' := by
  cases hstep with
  | created hcall =>
    have hcreated := shallocHeapCreate_created hcall
    exact h.created hcreated
  | refused hcall =>
    obtain ⟨ptr, hrefused⟩ := shallocHeapCreate_refused hcall
    exact h.refused hrefused
  | destroyed hmem hcall => exact h.destroyed hmem (fun _ he => List.mem_of_mem_erase he) hcall

theorem Registered.run {past : List (Tracked α × HeapOp)} (h : Registered t)
    (hrun : HeapRun cfg t past t') : Registered t' := by
  induction hrun with
  | refl => exact h
  | step _ hstep ih => exact ih.step hstep

/-- The list that a process starts with is empty or inherited. -/
theorem shallocSpaceInit_entries {stack : ℕ} {inherited : Option (Shared α)}
    (h : shallocSpaceInit cfg stack inherited = some m) :
    (inherited = none ∧ m.entries = []) ∨
      ∃ shared, inherited = some shared ∧ ∀ proc, m.entries = Machine.entries ⟨shared, proc⟩ := by
  obtain ⟨⟨shared, rfl, hnum, hslots⟩ | ⟨rfl, hzero⟩, -⟩ := shallocSpaceInit_cases h
  · refine Or.inr ⟨shared, rfl, fun proc => ?_⟩
    rw [entries_eq, hnum]
    exact firstEntries_congr fun i _ => hslots i
  · refine Or.inl ⟨rfl, ?_⟩
    rw [entries_eq, hzero]
    rfl

theorem Started.registered (h : Started cfg m) : Registered m.tracked := by
  induction h with
  | fresh hinit =>
    refine .tracked fun e he => ?_
    obtain ⟨-, hnil⟩ | ⟨shared, hshared, -⟩ := shallocSpaceInit_entries hinit
    · exact absurd (hnil ▸ he) List.not_mem_nil
    · exact absurd hshared (by simp)
  | @exec _ _ _ _ t _ hrun hinit ih =>
    refine .tracked fun e he => ?_
    obtain ⟨hnone, -⟩ | ⟨shared, hshared, hentries⟩ := shallocSpaceInit_entries hinit
    · exact absurd hnone (by simp)
    · obtain rfl := Option.some.inj hshared
      exact (ih.run hrun).listed e (hentries t.machine.proc ▸ he)

end Registered

section Exact

variable {t t' : Tracked α}

/-- The list holds exactly the live heaps, once each, as their creators left them. -/
def RegistryExact (t : Tracked α) : Prop := t.live.Perm t.machine.entries

/-- The record that `shalloc_heap_create` starts to write is not one of a live heap. -/
def WritesFree (cfg : SpaceConfig α) (e : Tracked α × HeapOp) : Prop :=
  ∀ size mmapFlags type, e.2 = .create size mmapFlags type → ∀ ptr m',
    shallocHeapAlloc cfg mmapFlags e.1.machine = some (ptr, m') → ∀ p ∈ e.1.live, p.1 ≠ ptr

/-- A heap that is created is an inherited one. -/
def HeapOp.inherits : HeapOp → Prop
  | .create _ mmapFlags _ => mapInherit mmapFlags = true
  | .destroy _ => True

/-- A heap that is destroyed is the one in the last entry of the list. -/
def DestroysLast (e : Tracked α × HeapOp) : Prop :=
  ∀ ptr, e.2 = .destroy ptr → ptr = .slot (e.1.machine.shared.magic.numHeaps.toNat - 1)

/-- While the list is exact, a new inherited heap gets a free entry. -/
theorem RegistryExact.writesFree (h : RegistryExact t) {op : HeapOp} (hop : op.inherits) :
    WritesFree cfg (t, op) := by
  rintro size mmapFlags type rfl ptr m' halloc p hp
  have hinherit : mapInherit mmapFlags = true := hop
  have hnew := (shallocHeapAlloc_keeps halloc).1
  rw [NewRecord, if_pos hinherit] at hnew
  obtain ⟨i, hi, rfl⟩ := mem_firstEntries.mp (h.mem_iff.mp hp)
  rw [hnew.2.2]
  intro heq
  have heq : i = t.machine.shared.magic.numHeaps.toNat := HeapPtr.slot.inj heq
  omega

/-- The destruction of a live heap, while the list is exact: the entry it took was among
the first, and the list is the one before without its last entry. -/
theorem RegistryExact.destroyed {heap : Heap} (h : RegistryExact t) (hreg : Registered t)
    (hmem : (ptr, heap) ∈ t.live)
    (hdestroy : shallocHeapRegionDestroy cfg ptr t.machine = some m') :
    ∃ j n, ptr = .slot j ∧ j ≤ n ∧ t.machine.shared.magic.numHeaps.toNat = n + 1 ∧
      m'.shared.magic.numHeaps.toNat = n ∧ heap = t.machine.heap (.slot j) ∧
      ∀ i, i ≠ j → m'.heap (.slot i) = t.machine.heap (.slot i) := by
  obtain ⟨j, hj, heq⟩ := mem_firstEntries.mp (h.mem_iff.mp hmem)
  obtain ⟨rfl, rfl⟩ := Prod.mk.inj heq
  obtain ⟨hkeeps, -⟩ := shallocHeapRegionDestroy_slot hdestroy (hreg.live j _ hmem)
  have hnum := hkeeps.numHeaps
  refine ⟨j, t.machine.shared.magic.numHeaps.toNat - 1, rfl, by omega, by omega, by omega, rfl,
    fun i hi => hkeeps.slots i fun heq => hi (HeapPtr.slot.inj heq)⟩

/-- The list stays exact when the heap in its last entry is destroyed. -/
theorem RegistryExact.destroyed_last {heap : Heap} (h : RegistryExact t) (hreg : Registered t)
    (hmem : (ptr, heap) ∈ t.live)
    (hlast : ptr = .slot (t.machine.shared.magic.numHeaps.toNat - 1))
    (hdestroy : shallocHeapRegionDestroy cfg ptr t.machine = some m') :
    RegistryExact { t with machine := m', live := t.live.erase (ptr, heap) } := by
  obtain ⟨j, n, rfl, -, hnum, hnum', rfl, hslots⟩ := h.destroyed hreg hmem hdestroy
  obtain rfl : j = n := by have := HeapPtr.slot.inj hlast; omega
  have hentries : t.machine.entries =
      m'.entries ++ [(.slot j, t.machine.heap (.slot j))] := by
    rw [entries_eq, entries_eq, hnum, hnum', firstEntries_succ]
    rw [firstEntries_congr fun i hi => hslots i (Nat.ne_of_lt hi)]
  have hperm : t.live.Perm ((.slot j, t.machine.heap (.slot j)) :: m'.entries) := by
    have hexact : t.live.Perm t.machine.entries := h
    rw [hentries] at hexact
    exact hexact.trans (List.perm_append_singleton _ _)
  have herase := hperm.erase (HeapPtr.slot j, t.machine.heap (.slot j))
  rwa [List.erase_cons_head] at herase

/-- The list is no longer exact when another heap is destroyed. -/
theorem RegistryExact.last_of_destroyed {heap : Heap} (h : RegistryExact t) (hreg : Registered t)
    (hmem : (ptr, heap) ∈ t.live)
    (hdestroy : shallocHeapRegionDestroy cfg ptr t.machine = some m')
    (hafter : RegistryExact { t with machine := m', live := t.live.erase (ptr, heap) }) :
    ptr = .slot (t.machine.shared.magic.numHeaps.toNat - 1) := by
  obtain ⟨j, n, rfl, hj, hnum, hnum', rfl, -⟩ := h.destroyed hreg hmem hdestroy
  rw [hnum, Nat.add_sub_cancel]
  by_contra hne
  -- the heap in the last entry is still live, but it is off the list
  have hlast : (HeapPtr.slot n, t.machine.heap (.slot n)) ∈ t.live := by
    refine h.mem_iff.mpr (mem_firstEntries.mpr ⟨n, by omega, rfl⟩)
  have hother : (HeapPtr.slot n, t.machine.heap (.slot n)) ≠
      (.slot j, t.machine.heap (.slot j)) := fun heq => hne (Prod.mk.inj heq).1.symm
  have hstill := (List.mem_erase_of_ne hother).mpr hlast
  obtain ⟨i, hi, heq⟩ := mem_firstEntries.mp (hafter.mem_iff.mp hstill)
  have := HeapPtr.slot.inj (Prod.mk.inj heq).1
  simp only [hnum'] at hi
  omega

theorem RegistryExact.step {op : HeapOp} (h : RegistryExact t) (hreg : Registered t)
    (hop : op.inherits) (hlast : DestroysLast (t, op)) (hstep : HeapStep cfg t op t') :
    RegistryExact t' := by
  cases hstep with
  | created hcall =>
    have hcreated := shallocHeapCreate_created hcall
    simp only [RegistryExact, (hcreated.entries hop).2]
    exact List.Perm.append_right _ h
  | refused hcall =>
    obtain ⟨ptr, hrefused⟩ := shallocHeapCreate_refused hcall
    simp only [RegistryExact, hrefused.entries]
    exact h
  | destroyed hmem hcall => exact h.destroyed_last hreg hmem (hlast _ rfl) hcall

/-- **The registry.** Throughout a run that creates and destroys inherited heaps the list
holds exactly the live ones, and no new heap gets the entry of a live one, iff every heap
that is destroyed is the one in the last entry. -/
theorem registry_exact_iff (hstart : Started cfg m) {past : List (Tracked α × HeapOp)}
    (hrun : HeapRun cfg m.tracked past t) (hinherit : ∀ e ∈ past, e.2.inherits) :
    (RegistryExact t ∧ ∀ e ∈ past, RegistryExact e.1 ∧ WritesFree cfg e) ↔
      ∀ e ∈ past, DestroysLast e := by
  induction hrun with
  | refl => exact ⟨fun _ e he => absurd he List.not_mem_nil,
      fun _ => ⟨List.Perm.refl _, fun e he => absurd he List.not_mem_nil⟩⟩
  | @step past t1 op t2 hrun hstep ih =>
    have ih := ih fun e he => hinherit e (List.mem_cons_of_mem _ he)
    have hop := hinherit _ List.mem_cons_self
    have hreg := hstart.registered.run hrun
    constructor
    · rintro ⟨hexact2, hpast⟩ e he
      have hexact1 := (hpast _ List.mem_cons_self).1
      cases List.mem_cons.mp he with
      | inr he =>
        exact ih.mp ⟨hexact1, fun e he => hpast e (List.mem_cons_of_mem _ he)⟩ e he
      | inl heq =>
        subst heq
        rintro ptr rfl
        cases hstep with
        | destroyed hmem hcall => exact hexact1.last_of_destroyed hreg hmem hcall hexact2
    · intro hlast
      obtain ⟨hexact1, hpast⟩ := ih.mpr fun e he => hlast e (List.mem_cons_of_mem _ he)
      refine ⟨hexact1.step hreg hop (hlast _ List.mem_cons_self) hstep, fun e he => ?_⟩
      cases List.mem_cons.mp he with
      | inl heq =>
        subst heq
        exact ⟨hexact1, hexact1.writesFree hop⟩
      | inr he => exact hpast e he

/-- One inherited heap, created and destroyed: the list is exact before and after. -/
theorem registry_exact_one : ∃ m m1 m2,
    shallocSpaceInit spaceConfig 0x7fff0000 none = some m ∧
    shallocHeapCreate spaceConfig 1 0x822 .none m = some (some (.slot 0), m1) ∧
    shallocHeapRegionDestroy spaceConfig (.slot 0) m1 = some m2 ∧
    RegistryExact ⟨m1, m.entries ++ [(.slot 0, m1.heap (.slot 0))], [m1.heap (.slot 0)]⟩ ∧
    RegistryExact ⟨m2, (m.entries ++ [(HeapPtr.slot 0, m1.heap (.slot 0))]).erase
      (HeapPtr.slot 0, m1.heap (.slot 0)), [m1.heap (.slot 0)]⟩ := by
  obtain ⟨m, m1, m2, hinit, hcreate, hdestroy, hnum⟩ : ∃ m m1 m2,
      shallocSpaceInit spaceConfig 0x7fff0000 none = some m ∧
      shallocHeapCreate spaceConfig 1 0x822 .none m = some (some (.slot 0), m1) ∧
      shallocHeapRegionDestroy spaceConfig (.slot 0) m1 = some m2 ∧
      m1.shared.magic.numHeaps = 1 := ⟨_, _, _, rfl, rfl, rfl, rfl⟩
  have hstep : HeapStep spaceConfig m.tracked (.create 1 0x822 .none)
      ⟨m1, m.entries ++ [(.slot 0, m1.heap (.slot 0))], [m1.heap (.slot 0)]⟩ := .created hcreate
  have hrun := HeapRun.step (.step .refl hstep) (.destroyed
    (List.mem_append_right _ List.mem_cons_self) hdestroy)
  obtain ⟨hexact, hpast⟩ := (registry_exact_iff (.fresh hinit) hrun (by
    simp only [List.mem_cons, List.not_mem_nil, or_false]
    rintro e (rfl | rfl)
    · trivial
    · exact (by decide : mapInherit 0x822 = true))).mpr (by
    simp only [List.mem_cons, List.not_mem_nil, or_false]
    rintro e (rfl | rfl) ptr hptr
    · obtain rfl := HeapOp.destroy.inj hptr
      simp only [hnum]
      rfl
    · exact absurd hptr (by simp))
  exact ⟨m, m1, m2, hinit, hcreate, hdestroy, (hpast _ List.mem_cons_self).1, hexact⟩

/-- Two inherited heaps, of which the first is destroyed: the second is off the list. -/
theorem registry_not_exact :
    ¬ ∀ (cfg : SpaceConfig (AllocState (List Extent))) (m : Machine (AllocState (List Extent)))
      (past : List (Tracked (AllocState (List Extent)) × HeapOp))
      (t : Tracked (AllocState (List Extent))),
      Started cfg m → HeapRun cfg m.tracked past t → (∀ e ∈ past, e.2.inherits) →
      RegistryExact t ∧ ∀ e ∈ past, RegistryExact e.1 ∧ WritesFree cfg e := by
  intro h
  obtain ⟨m, m1, m2, m3, hinit, hfirst, hsecond, hdestroy, hnum⟩ : ∃ m m1 m2 m3,
      shallocSpaceInit spaceConfig 0x7fff0000 none = some m ∧
      shallocHeapCreate spaceConfig 1 0x822 .none m = some (some (.slot 0), m1) ∧
      shallocHeapCreate spaceConfig 1 0x822 .none m1 = some (some (.slot 1), m2) ∧
      shallocHeapRegionDestroy spaceConfig (.slot 0) m2 = some m3 ∧
      m3.shared.magic.numHeaps = 1 := ⟨_, _, _, _, rfl, rfl, rfl, rfl, rfl⟩
  have hstep1 : HeapStep spaceConfig m.tracked (.create 1 0x822 .none)
      ⟨m1, m.entries ++ [(.slot 0, m1.heap (.slot 0))], [m1.heap (.slot 0)]⟩ := .created hfirst
  have hrun := HeapRun.step (.step (.step .refl hstep1) (.created hsecond)) (.destroyed
    (List.mem_append_left _ (List.mem_append_right _ List.mem_cons_self)) hdestroy)
  obtain ⟨hexact, -⟩ := h _ _ _ _ (.fresh hinit) hrun (by
    simp only [List.mem_cons, List.not_mem_nil, or_false]
    rintro e (rfl | rfl | rfl)
    · trivial
    · exact (by decide : mapInherit 0x822 = true)
    · exact (by decide : mapInherit 0x822 = true))
  have hother : (HeapPtr.slot 1, m2.heap (.slot 1)) ≠ (.slot 0, m1.heap (.slot 0)) :=
    fun heq => absurd (Prod.mk.inj heq).1 (by decide)
  have hlive := (List.mem_erase_of_ne hother).mpr
    (List.mem_append_right (m.entries ++ [(.slot 0, m1.heap (.slot 0))])
      (List.mem_singleton.mpr rfl))
  obtain ⟨i, hi, heq⟩ := mem_firstEntries.mp (hexact.mem_iff.mp hlive)
  have hi1 : 1 = i := HeapPtr.slot.inj (Prod.mk.inj heq).1
  simp only [hnum] at hi
  omega

end Exact

end Shalloc
