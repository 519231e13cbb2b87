import Shalloc.Region.Chain

/-!
# The loop of `shalloc_region_reset`

`SHALLOC_REGION_BUFF_ITER` walks the chain of a region with a pointer to the previous
buffer, and `shalloc_region_reset` frees that one unless it is the first of the chain. The
loop ends after one round for each buffer; the last buffer is never the previous one.

## Main results

- `shallocRegionReset_eq` — the reset of a region with a chain, as a list of calls
-/

namespace Shalloc

variable {α : Type} {ops : BuffAllocType → BuffOp α} {st st' : Store α} {r : ℕ} {region : Region}

/-- Freeing the buffers of a list, in order. -/
def shallocRegionFreeBuffs (ops : BuffAllocType → BuffOp α) (r : ℕ) :
    List ℕ → Store α → Option (Store α)
  | [], st => some st
  | d :: ds, st => do
    let st ← shallocRegionFreeBuff ops r d st
    shallocRegionFreeBuffs ops r ds st

/-- The end of `shalloc_region_reset`, after the loop: the first buffer of the chain is
set up anew. -/
def shallocRegionResetHead (ops : BuffAllocType → BuffOp α) (r : ℕ) (st : Store α) :
    Option (Store α) := do
  let region ← st.regions r
  match region.dataHead with
  | none => some st
  | some head =>
    let st ← shallocBuffReset ops head st
    let buff ← st.buffs head
    let st := st.setBuff head { buff with next := none }
    some (st.setRegion r { region with dataTail := some head })

/-- What the end of a reset does with a first buffer. -/
theorem shallocRegionResetHead_made {head : ℕ} (hregion : st.regions r = some region)
    (hhead : region.dataHead = some head) (h : shallocRegionResetHead ops r st = some st') :
    ∃ st1 ret st2 buff, st.opDestroy ops head = some st1 ∧ st1.opCreate ops head = some (ret, st2) ∧
      0 ≤ ret ∧ st2.buffs head = some buff ∧
      st' = (st2.setBuff head { buff with next := none }).setRegion r
        { region with dataHead := some head, dataTail := some head } := by
  simp only [shallocRegionResetHead, hregion, hhead, shallocBuffReset, bind, Option.bind_some,
    Option.bind_eq_some_iff, Option.some.injEq, Prod.exists] at h
  obtain ⟨st3, ⟨st1, hdestroy, ret, st2, hcreate, hret⟩, buff, hbuff, rfl⟩ := h
  split at hret
  · next hnonneg =>
    obtain rfl := Option.some.inj hret
    exact ⟨st1, ret, st2, buff, hdestroy, hcreate, hnonneg, hbuff, rfl⟩
  · exact absurd hret (by simp)

theorem shallocRegionReset_split (fuel : ℕ) :
    shallocRegionReset ops fuel r st =
      ((regionBuffIter fuel r (shallocRegionResetBody ops r) st).map fun res => res.2.2).bind
        (shallocRegionResetHead ops r) := by
  simp only [shallocRegionReset, Option.bind_eq_bind, Option.bind_map, Function.comp_def]
  rfl

/-- `shalloc_free` writes no record and no descriptor. -/
theorem FreeCases.frame {p : ℕ} (h : FreeCases ops r p st st') :
    st'.regions = st.regions ∧ st'.buffs = st.buffs := by
  cases h with
  | ignored => exact ⟨rfl, rfl⟩
  | asked _ _ _ _ hfree =>
    obtain ⟨buff, a, -, -, rfl⟩ := Store.opFree_eq_some.mp hfree
    exact ⟨rfl, rfl⟩

/-- The two calls of `shalloc_region_free_buff`. -/
theorem shallocRegionFreeBuff_cases {d : ℕ} (h : shallocRegionFreeBuff ops r d st = some st') :
    ∃ st1 region, st.opDestroy ops d = some st1 ∧ st.regions r = some region ∧
      ((region.parent = none ∧ st' = st1) ∨
        ∃ parent, region.parent = some parent ∧ shallocFree ops parent d st1 = some st') := by
  simp only [shallocRegionFreeBuff, bind, Option.bind_eq_some_iff] at h
  obtain ⟨st1, hdestroy, region, hregion, h⟩ := h
  have hsame : st1.regions = st.regions := by
    obtain ⟨buff, a, -, -, rfl⟩ := Store.opDestroy_eq_some.mp hdestroy
    rfl
  rw [hsame] at hregion
  refine ⟨st1, region, hdestroy, hregion, ?_⟩
  cases hparent : region.parent with
  | none =>
    rw [hparent] at h
    exact Or.inl ⟨rfl, (Option.some.inj h).symm⟩
  | some parent =>
    rw [hparent] at h
    exact Or.inr ⟨parent, rfl, h⟩

theorem shallocRegionFreeBuff_frame {d : ℕ} (h : shallocRegionFreeBuff ops r d st = some st') :
    st'.regions = st.regions ∧ st'.buffs = st.buffs := by
  obtain ⟨st1, _, hdestroy, -, hfree⟩ := shallocRegionFreeBuff_cases h
  obtain ⟨_, _, -, -, rfl⟩ := Store.opDestroy_eq_some.mp hdestroy
  cases hfree with
  | inl hnone => rw [hnone.2]; exact ⟨rfl, rfl⟩
  | inr hsome =>
    obtain ⟨parent, -, hfree⟩ := hsome
    exact (shallocFree_cases hfree).frame

/-- The loop from the buffer `curr` on, with `rest` after it and the first buffer of the
chain behind it: every buffer but the last is freed. -/
theorem regionBuffIterLoop_eq {head : ℕ} (hhead : region.dataHead = some head) (rest : List ℕ) :
    ∀ {fuel prev curr st}, st.regions r = some region →
      ChainFrom st.buffs (some curr) (curr :: rest) → head ∉ curr :: rest →
      (regionBuffIterLoop r (shallocRegionResetBody ops r) fuel prev (some curr) st).map
          (fun res => res.2.2) =
        if rest.length < fuel then shallocRegionFreeBuffs ops r (curr :: rest).dropLast st
        else none := by
  induction rest with
  | nil =>
    rintro fuel prev curr st hregion ⟨-, buff, hbuff, hnext⟩ _
    cases fuel with
    | zero => rfl
    | succ fuel =>
      simp [regionBuffIterLoop, regionBuffIterMore, hbuff, show buff.next = none from hnext,
        shallocRegionFreeBuffs]
  | cons c rest ih =>
    rintro fuel prev curr st hregion ⟨-, buff, hbuff, hchain⟩ hnot
    have hnext : buff.next = some c := hchain.1
    cases fuel with
    | zero => rfl
    | succ fuel =>
      have hne : some curr ≠ region.dataHead := by
        rw [hhead]
        intro heq
        exact hnot (by rw [Option.some.inj heq]; exact List.mem_cons_self)
      have hbody : shallocRegionResetBody ops r (some curr) (some c) st =
          shallocRegionFreeBuff ops r curr st := by
        simp [shallocRegionResetBody, hregion, hne]
      simp only [regionBuffIterLoop, regionBuffIterMore, regionBuffIterNext, hbuff, hnext,
        Option.isSome_some, Option.bind_eq_bind, Option.bind_some, if_true, hbody,
        List.length_cons, Nat.succ_lt_succ_iff, List.dropLast_cons_cons, shallocRegionFreeBuffs]
      cases hfree : shallocRegionFreeBuff ops r curr st with
      | none => simp
      | some st1 =>
        obtain ⟨hregions, hbuffs⟩ := shallocRegionFreeBuff_frame hfree
        rw [Option.bind_some, Option.bind_some]
        refine ih (by rw [hregions]; exact hregion) (by rw [hbuffs, ← hnext]; exact hchain) ?_
        exact fun hmem => hnot (List.mem_cons_of_mem _ hmem)

/-- **The reset of a region with a chain.** Given more rounds than buffers, the loop frees
the buffers between the first and the last; then the first is set up anew, and becomes the
only one. -/
theorem shallocRegionReset_eq {fuel head : ℕ} {bs : List ℕ} (hregion : st.regions r = some region)
    (hlinked : Linked st region (head :: bs)) (hnodup : (head :: bs).Nodup) :
    shallocRegionReset ops fuel r st =
      if (head :: bs).length < fuel then
        (shallocRegionFreeBuffs ops r bs.dropLast st).bind (shallocRegionResetHead ops r)
      else none := by
  obtain ⟨hhead, buff, hbuff, hchain⟩ := hlinked.head
  have hloop : (regionBuffIter fuel r (shallocRegionResetBody ops r) st).map
      (fun res => res.2.2) =
        if (head :: bs).length < fuel then shallocRegionFreeBuffs ops r bs.dropLast st
        else none := by
    -- the first round moves to the first buffer
    cases fuel with
    | zero => simp [regionBuffIter, hregion, hhead, regionBuffIterLoop]
    | succ fuel =>
      simp only [regionBuffIter, hregion, hhead, Option.isSome_some, if_true, regionBuffIterLoop,
        regionBuffIterMore, regionBuffIterNext, shallocRegionResetBody, Option.bind_eq_bind,
        Option.bind_some]
      cases fuel with
      | zero => simp [regionBuffIterLoop]
      | succ fuel =>
        cases bs with
        | nil =>
          simp [regionBuffIterLoop, regionBuffIterMore, hbuff, show buff.next = none from hchain,
            shallocRegionFreeBuffs]
        | cons c bs =>
          have hnext : buff.next = some c := hchain.1
          have hbody : shallocRegionResetBody ops r (some head) (some c) st = some st := by
            simp [shallocRegionResetBody, hregion, hhead]
          simp only [regionBuffIterLoop, regionBuffIterMore, regionBuffIterNext, hbuff, hnext,
            hbody, Option.isSome_some, Option.bind_eq_bind, Option.bind_some, if_true]
          rw [regionBuffIterLoop_eq hhead bs hregion (by rw [← hnext]; exact hchain)
            (List.nodup_cons.mp hnodup).1]
          simp
  rw [shallocRegionReset_split, hloop]
  split <;> rfl

section Iter

variable {body : Option ℕ → Option ℕ → Store α → Option (Store α)} {R : Store α → Store α → Prop}

theorem regionBuffIterLoop_rel (hrefl : ∀ st, R st st)
    (htrans : ∀ st1 st2 st3, R st1 st2 → R st2 st3 → R st1 st3)
    (hbody : ∀ prev curr st st', body prev curr st = some st' → R st st') (fuel : ℕ) :
    ∀ {prev curr st res}, regionBuffIterLoop r body fuel prev curr st = some res →
      R st res.2.2 := by
  induction fuel with
  | zero => exact fun h => absurd h (by simp [regionBuffIterLoop])
  | succ fuel ih =>
    intro prev curr st res h
    simp only [regionBuffIterLoop, bind, Option.bind_eq_some_iff] at h
    obtain ⟨more, -, h⟩ := h
    cases more with
    | false =>
      rw [← Option.some.inj h]
      exact hrefl _
    | true =>
      simp only [if_true, Option.bind_eq_some_iff] at h
      obtain ⟨next, -, st1, hfirst, hloop⟩ := h
      exact htrans _ _ _ (hbody _ _ _ _ hfirst) (ih hloop)

/-- What every round of the loop keeps, the loop keeps. -/
theorem regionBuffIter_rel (hrefl : ∀ st, R st st)
    (htrans : ∀ st1 st2 st3, R st1 st2 → R st2 st3 → R st1 st3)
    (hbody : ∀ prev curr st st', body prev curr st = some st' → R st st') {fuel : ℕ}
    {res : Option ℕ × Option ℕ × Store α} (h : regionBuffIter fuel r body st = some res) :
    R st res.2.2 := by
  simp only [regionBuffIter, bind, Option.bind_eq_some_iff] at h
  obtain ⟨region, -, h⟩ := h
  by_cases hhead : region.dataHead.isSome
  · rw [if_pos hhead] at h
    exact regionBuffIterLoop_rel hrefl htrans hbody _ h
  · rw [if_neg hhead] at h
    rw [← Option.some.inj h]
    exact hrefl _

end Iter

section Extends

theorem shallocRegionResetBody_extends {prev curr : Option ℕ}
    (h : shallocRegionResetBody ops r prev curr st = some st') :
    st.Extends st' ∧ st'.regions = st.regions := by
  simp only [shallocRegionResetBody, bind, Option.bind_eq_some_iff] at h
  obtain ⟨region, -, h⟩ := h
  cases prev with
  | none => rw [Option.some.inj h]; exact ⟨.refl _, rfl⟩
  | some p =>
    by_cases hne : some p ≠ region.dataHead
    · simp only [if_pos hne] at h
      refine ⟨?_, (shallocRegionFreeBuff_frame h).1⟩
      obtain ⟨st1, _, hdestroy, -, hfree⟩ := shallocRegionFreeBuff_cases h
      obtain ⟨_, _, -, -, rfl⟩ := Store.opDestroy_eq_some.mp hdestroy
      cases hfree with
      | inl hnone => rw [hnone.2]; exact List.suffix_cons _ _
      | inr hsome =>
        obtain ⟨parent, -, hfree⟩ := hsome
        exact List.IsSuffix.trans (List.suffix_cons _ _) (shallocFree_cases hfree).extends
    · simp only [if_neg hne] at h
      rw [Option.some.inj h]
      exact ⟨.refl _, rfl⟩

theorem shallocRegionResetLoop_extends {fuel : ℕ} {res : Option ℕ × Option ℕ × Store α}
    (h : regionBuffIter fuel r (shallocRegionResetBody ops r) st = some res) :
    st.Extends res.2.2 ∧ res.2.2.regions = st.regions :=
  regionBuffIter_rel (R := fun st st' => st.Extends st' ∧ st'.regions = st.regions)
    (fun st => ⟨.refl st, rfl⟩)
    (fun _ _ _ h12 h23 => ⟨h12.1.trans h23.1, h23.2.trans h12.2⟩)
    (fun _ _ _ _ hbody => shallocRegionResetBody_extends hbody) h

theorem shallocRegionResetHead_extends (h : shallocRegionResetHead ops r st = some st') :
    st.Extends st' := by
  have hreset := h
  simp only [shallocRegionResetHead, bind, Option.bind_eq_some_iff] at h
  obtain ⟨region, hregion, h⟩ := h
  cases hhead : region.dataHead with
  | none =>
    rw [hhead] at h
    rw [Option.some.inj h]
    exact .refl _
  | some head =>
    obtain ⟨st1, ret, st2, buff, hdestroy, hcreate, -, -, rfl⟩ :=
      shallocRegionResetHead_made hregion hhead hreset
    obtain ⟨_, _, -, -, rfl⟩ := Store.opDestroy_eq_some.mp hdestroy
    have hext : st.Extends st2 :=
      List.IsSuffix.trans (List.suffix_cons _ _) (Store.extends_opCreate hcreate)
    exact (hext.trans (Store.extends_setBuff _ _ _)).trans (Store.extends_setRegion _ _ _)

theorem shallocRegionReset_extends {fuel : ℕ} (h : shallocRegionReset ops fuel r st = some st') :
    st.Extends st' := by
  rw [shallocRegionReset_split] at h
  obtain ⟨st1, hmap, hreset⟩ := Option.bind_eq_some_iff.mp h
  obtain ⟨res, hiter, rfl⟩ := Option.map_eq_some_iff.mp hmap
  exact (shallocRegionResetLoop_extends hiter).1.trans (shallocRegionResetHead_extends hreset)

theorem shallocRegionDestroy_extends {fuel : ℕ} {heap : Option ℕ}
    (h : shallocRegionDestroy ops fuel r st = some (heap, st')) : st.Extends st' := by
  simp only [shallocRegionDestroy, bind, Option.bind_eq_some_iff] at h
  obtain ⟨st1, hreset, region, -, h⟩ := h
  refine (shallocRegionReset_extends hreset).trans ?_
  cases hparent : region.parent with
  | none =>
    simp only [hparent, Option.bind_some, Option.bind_eq_some_iff, Option.some.injEq,
      Prod.mk.injEq] at h
    obtain ⟨_, -, -, rfl⟩ := h
    exact .refl _
  | some parent =>
    simp only [hparent, Option.bind_eq_some_iff, Option.some.injEq, Prod.mk.injEq] at h
    obtain ⟨st2, hfree, _, -, -, rfl⟩ := h
    exact (shallocFree_cases hfree).extends

end Extends

section Flags

/-- A reset moves the tail of a region, and leaves the rest of its record alone. -/
theorem shallocRegionReset_region {fuel : ℕ} (hregion : st.regions r = some region)
    (h : shallocRegionReset ops fuel r st = some st') :
    ∃ tail, st'.regions r = some { region with dataTail := tail } := by
  rw [shallocRegionReset_split] at h
  obtain ⟨st1, hmap, hreset⟩ := Option.bind_eq_some_iff.mp h
  obtain ⟨res, hiter, rfl⟩ := Option.map_eq_some_iff.mp hmap
  have hsame := (shallocRegionResetLoop_extends hiter).2
  simp only [shallocRegionResetHead, hsame, hregion, bind, Option.bind_some] at hreset
  cases hhead : region.dataHead with
  | none =>
    rw [hhead] at hreset
    exact ⟨region.dataTail, by rw [← Option.some.inj hreset, hsame, hregion, ← hhead]⟩
  | some head =>
    simp only [hhead, Option.bind_eq_some_iff, Option.some.injEq] at hreset
    obtain ⟨st2, -, buff, -, rfl⟩ := hreset
    exact ⟨some head, by simp⟩

/-- The region of a heap is handed on, and keeps its flags. -/
theorem shallocRegionDestroy_region {fuel : ℕ} {heap : Option ℕ}
    (hregion : st.regions r = some region)
    (h : shallocRegionDestroy ops fuel r st = some (heap, st')) :
    heap = (if hasFlag region.flags .heap then some r else none) ∧
      ∃ tail, st'.regions r = some { region with dataTail := tail } := by
  simp only [shallocRegionDestroy, bind, Option.bind_eq_some_iff] at h
  obtain ⟨st1, hreset, region1, hregion1, h⟩ := h
  obtain ⟨tail, htail⟩ := shallocRegionReset_region hregion hreset
  obtain rfl := Option.some.inj (hregion1.symm.trans htail)
  cases hparent : region.parent with
  | none =>
    have hnone : ({ region with dataTail := tail } : Region).parent = none := hparent
    simp only [hnone, Option.bind_some, Option.bind_eq_some_iff, Option.some.injEq,
      Prod.mk.injEq] at h
    obtain ⟨region2, hregion2, hheap, rfl⟩ := h
    obtain rfl := Option.some.inj (hregion2.symm.trans htail)
    exact ⟨hheap.symm, tail, htail⟩
  | some parent =>
    have hsome : ({ region with dataTail := tail } : Region).parent = some parent := hparent
    simp only [hsome, Option.bind_eq_some_iff, Option.some.injEq, Prod.mk.injEq] at h
    obtain ⟨st2, hfree, region2, hregion2, hheap, rfl⟩ := h
    rw [(shallocFree_cases hfree).frame.1] at hregion2 ⊢
    obtain rfl := Option.some.inj (hregion2.symm.trans htail)
    exact ⟨hheap.symm, tail, htail⟩

/-- With two rounds, the loop of `shalloc_region_reset` frees no buffer. -/
theorem regionBuffIter_two {res : Option ℕ × Option ℕ × Store α}
    (h : regionBuffIter 2 r (shallocRegionResetBody ops r) st = some res) : res.2.2 = st := by
  simp only [regionBuffIter, bind, Option.bind_eq_some_iff] at h
  obtain ⟨region, hregion, h⟩ := h
  split at h
  · simp only [regionBuffIterLoop, regionBuffIterMore, regionBuffIterNext, shallocRegionResetBody,
      hregion, bind, Option.bind_some, if_true] at h
    cases hhead : region.dataHead with
    | none => simp [hhead] at h
    | some d =>
      simp only [hhead, Option.bind_eq_some_iff] at h
      obtain ⟨more, -, h⟩ := h
      split at h
      · simp at h
      · rw [← Option.some.inj h]
  · rw [← Option.some.inj h]

/-- **The destruction of the region of a heap.** It sets up the one buffer anew, and touches no
other memory. -/
theorem shallocRegionDestroy_heap {d : ℕ} {buff : Buff} {handed : Option ℕ}
    (hregion : st.regions r = some region) (hparent : region.parent = none)
    (hhead : ∀ b, region.dataHead = some b → b = d) (hbuff : st.buffs d = some buff)
    (h : shallocRegionDestroy ops 2 r st = some (handed, st')) :
    (∀ a, a ≠ buff.start → st'.cells a = st.cells a) ∧
      (∀ b, b ≠ d → liveBlocks b st'.trace = liveBlocks b st.trace) ∧
      ∃ buff', st'.buffs d = some buff' ∧ buff'.start = buff.start := by
  simp only [shallocRegionDestroy, bind, Option.bind_eq_some_iff] at h
  obtain ⟨st1, hreset, region1, hregion1, h⟩ := h
  obtain ⟨tail, htail⟩ := shallocRegionReset_region hregion hreset
  obtain rfl := Option.some.inj (hregion1.symm.trans htail)
  have hnone : ({ region with dataTail := tail } : Region).parent = none := hparent
  simp only [hnone, Option.bind_some, Option.bind_eq_some_iff, Option.some.injEq,
    Prod.mk.injEq] at h
  obtain ⟨-, -, -, rfl⟩ := h
  rw [shallocRegionReset_split] at hreset
  obtain ⟨st0, hmap, hreset⟩ := Option.bind_eq_some_iff.mp hreset
  obtain ⟨res, hiter, rfl⟩ := Option.map_eq_some_iff.mp hmap
  rw [regionBuffIter_two hiter] at hreset
  cases hfirst : region.dataHead with
  | none =>
    simp only [shallocRegionResetHead, hregion, hfirst, bind, Option.bind_some,
      Option.some.injEq] at hreset
    subst hreset
    exact ⟨fun _ _ => rfl, fun _ _ => rfl, buff, hbuff, rfl⟩
  | some b =>
    obtain rfl := hhead b hfirst
    obtain ⟨st2, ret, st3, buff', hdestroy, hcreate, -, hbuff', rfl⟩ :=
      shallocRegionResetHead_made hregion hfirst hreset
    obtain ⟨buff1, a1, hbuff1, -, rfl⟩ := Store.opDestroy_eq_some.mp hdestroy
    obtain ⟨buff2, a2, hbuff2, -, rfl⟩ := Store.opCreate_eq_some.mp hcreate
    obtain rfl := Option.some.inj (hbuff.symm.trans hbuff1)
    obtain rfl : buff = buff2 := Option.some.inj (hbuff.symm.trans hbuff2)
    obtain rfl : buff = buff' := Option.some.inj (hbuff.symm.trans hbuff')
    refine ⟨fun a ha => ?_, fun c hc => ?_, _, Function.update_self .., rfl⟩
    · exact (Function.update_of_ne ha _ _).trans (Function.update_of_ne ha _ _)
    · exact (if_neg (Ne.symm hc)).trans (if_neg (Ne.symm hc))

end Flags

end Shalloc
