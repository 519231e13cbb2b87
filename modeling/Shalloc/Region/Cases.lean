import Shalloc.Region.AllocSize

/-!
# What the region layer can do

For every function of the region layer, the ways in which a call can end, as a relation
with one constructor a way, and the theorem that a call that returns ends in one of them.
Proofs about the region layer go by cases on these relations.

## Main definitions

- `FreeCases`, `AllocBuffCases`, `AttachCases`, `GrowCases`, `ServeCases` — the ways in
  which a call ends
- `Store.Extends` — the calls made so far are kept in the trace
-/

namespace Shalloc

variable {α : Type} {ops : BuffAllocType → BuffOp α} {st st' : Store α}

namespace Store

@[simp] theorem log_regions (event : Event) : (st.log event).regions = st.regions := rfl

@[simp] theorem log_buffs (event : Event) : (st.log event).buffs = st.buffs := rfl

@[simp] theorem log_cells (event : Event) : (st.log event).cells = st.cells := rfl

@[simp] theorem log_trace (event : Event) : (st.log event).trace = event :: st.trace := rfl

@[simp] theorem setBuff_regions (b : ℕ) (buff : Buff) :
    (st.setBuff b buff).regions = st.regions := rfl

@[simp] theorem setBuff_buffs (b : ℕ) (buff : Buff) :
    (st.setBuff b buff).buffs = Function.update st.buffs b (some buff) := rfl

@[simp] theorem setBuff_cells (b : ℕ) (buff : Buff) : (st.setBuff b buff).cells = st.cells := rfl

@[simp] theorem setBuff_trace (b : ℕ) (buff : Buff) :
    (st.setBuff b buff).trace = .store b sizeofBuff :: st.trace := rfl

@[simp] theorem setRegion_regions (r : ℕ) (region : Region) :
    (st.setRegion r region).regions = Function.update st.regions r (some region) := rfl

@[simp] theorem setRegion_buffs (r : ℕ) (region : Region) :
    (st.setRegion r region).buffs = st.buffs := rfl

@[simp] theorem setRegion_cells (r : ℕ) (region : Region) :
    (st.setRegion r region).cells = st.cells := rfl

@[simp] theorem setRegion_trace (r : ℕ) (region : Region) :
    (st.setRegion r region).trace = .store r sizeofRegion :: st.trace := rfl

@[simp] theorem setCell_regions (start : ℕ) (a : α) :
    (st.setCell start a).regions = st.regions := rfl

@[simp] theorem setCell_buffs (start : ℕ) (a : α) : (st.setCell start a).buffs = st.buffs := rfl

@[simp] theorem setCell_cells (start : ℕ) (a : α) :
    (st.setCell start a).cells = Function.update st.cells start a := rfl

@[simp] theorem setCell_trace (start : ℕ) (a : α) : (st.setCell start a).trace = st.trace := rfl

/-- `st'` comes after `st`: its trace goes on from the trace of `st`. -/
def Extends (st st' : Store α) : Prop := st.trace <:+ st'.trace

theorem Extends.refl (st : Store α) : st.Extends st := List.suffix_rfl

theorem Extends.trans {st'' : Store α} (h : st.Extends st') (h' : st'.Extends st'') :
    st.Extends st'' :=
  List.IsSuffix.trans h h'

theorem extends_log (st : Store α) (event : Event) : st.Extends (st.log event) :=
  List.suffix_cons _ _

theorem extends_setBuff (st : Store α) (b : ℕ) (buff : Buff) : st.Extends (st.setBuff b buff) :=
  List.suffix_cons _ _

theorem extends_setRegion (st : Store α) (r : ℕ) (region : Region) :
    st.Extends (st.setRegion r region) :=
  List.suffix_cons _ _

section Ops

variable {b n : ℕ}

theorem opCreate_eq_some {ret : ℤ} :
    st.opCreate ops b = some (ret, st') ↔ ∃ buff a, st.buffs b = some buff ∧
      (ops buff.allocType).create buff (st.cells buff.start) = some (ret, a) ∧
      (st.setCell buff.start a).log (.create b ret) = st' := by
  simp only [opCreate, bind, Option.bind_eq_some_iff, Prod.exists, Option.some.injEq,
    Prod.mk.injEq]
  constructor
  · rintro ⟨buff, hbuff, ret', a, hcreate, rfl, rfl⟩
    exact ⟨buff, a, hbuff, hcreate, rfl⟩
  · rintro ⟨buff, a, hbuff, hcreate, rfl⟩
    exact ⟨buff, hbuff, ret, a, hcreate, rfl, rfl⟩

theorem opDestroy_eq_some :
    st.opDestroy ops b = some st' ↔ ∃ buff a, st.buffs b = some buff ∧
      (ops buff.allocType).destroy buff (st.cells buff.start) = some a ∧
      (st.setCell buff.start a).log (.destroy b) = st' := by
  simp only [opDestroy, bind, Option.bind_eq_some_iff, Option.some.injEq]
  constructor
  · rintro ⟨buff, hbuff, a, hdestroy, rfl⟩
    exact ⟨buff, a, hbuff, hdestroy, rfl⟩
  · rintro ⟨buff, a, hbuff, hdestroy, rfl⟩
    exact ⟨buff, hbuff, a, hdestroy, rfl⟩

theorem opMalloc_eq_some {p : Option ℕ} :
    st.opMalloc ops b n = some (p, st') ↔ ∃ buff a, st.buffs b = some buff ∧
      (ops buff.allocType).malloc buff n (st.cells buff.start) = some (p, a) ∧
      (st.setCell buff.start a).log (.malloc b n p) = st' := by
  simp only [opMalloc, bind, Option.bind_eq_some_iff, Prod.exists, Option.some.injEq,
    Prod.mk.injEq]
  constructor
  · rintro ⟨buff, hbuff, p', a, hmalloc, rfl, rfl⟩
    exact ⟨buff, a, hbuff, hmalloc, rfl⟩
  · rintro ⟨buff, a, hbuff, hmalloc, rfl⟩
    exact ⟨buff, hbuff, p, a, hmalloc, rfl, rfl⟩

theorem opFree_eq_some {p : ℕ} :
    st.opFree ops b p = some st' ↔ ∃ buff a, st.buffs b = some buff ∧
      (ops buff.allocType).free buff p (st.cells buff.start) = some a ∧
      (st.setCell buff.start a).log (.free b p) = st' := by
  simp only [opFree, bind, Option.bind_eq_some_iff, Option.some.injEq]
  constructor
  · rintro ⟨buff, hbuff, a, hfree, rfl⟩
    exact ⟨buff, a, hbuff, hfree, rfl⟩
  · rintro ⟨buff, a, hbuff, hfree, rfl⟩
    exact ⟨buff, hbuff, a, hfree, rfl⟩

/-- `calloc` of a buffer is its `malloc` followed by a `memset` of the block. -/
theorem opCalloc_eq_some {nmemb size : ℕ} {p : Option ℕ} :
    st.opCalloc ops b nmemb size = some (p, st') ↔
      ∃ st1, st.opMalloc ops b (Word.wrap 64 (size * nmemb)) = some (p, st1) ∧
        st' = p.elim st1 fun q => st1.log (.zero q (Word.wrap 64 (size * nmemb))) := by
  simp only [opCalloc, bind, Option.bind_eq_some_iff, Prod.exists]
  constructor
  · rintro ⟨p', st1, hmalloc, hres⟩
    cases p' with
    | none => obtain ⟨rfl, rfl⟩ := Prod.mk.inj (Option.some.inj hres); exact ⟨_, hmalloc, rfl⟩
    | some q => obtain ⟨rfl, rfl⟩ := Prod.mk.inj (Option.some.inj hres); exact ⟨_, hmalloc, rfl⟩
  · rintro ⟨st1, hmalloc, rfl⟩
    refine ⟨p, st1, hmalloc, ?_⟩
    cases p <;> rfl

end Ops

end Store

/-- The ways in which `shalloc_free` ends. -/
inductive FreeCases (ops : BuffAllocType → BuffOp α) (r p : ℕ) (st : Store α) : Store α → Prop
  /-- The region has no tail buffer, or the pointer is not in it. -/
  | ignored {region : Region} : st.regions r = some region →
      (∀ t buff, region.dataTail = some t → st.buffs t = some buff → ¬ shallocIsBuffAddr buff p) →
      FreeCases ops r p st (st.log (.release r p))
  /-- The tail buffer is asked. -/
  | asked {region : Region} {t : ℕ} {buff : Buff} {st' : Store α} :
      st.regions r = some region → region.dataTail = some t → st.buffs t = some buff →
      shallocIsBuffAddr buff p → (st.log (.release r p)).opFree ops t p = some st' →
      FreeCases ops r p st st'

theorem shallocFree_cases {r p : ℕ} (h : shallocFree ops r p st = some st') :
    FreeCases ops r p st st' := by
  simp only [shallocFree, bind, Option.bind_eq_some_iff] at h
  obtain ⟨region, hregion, h⟩ := h
  cases htail : region.dataTail with
  | none =>
    simp only [htail, Option.some.injEq] at h
    subst h
    exact .ignored hregion (by simp [htail])
  | some t =>
    simp only [htail, Store.log_buffs, Option.bind_eq_some_iff] at h
    obtain ⟨buff, hbuff, h⟩ := h
    by_cases haddr : shallocIsBuffAddr buff p
    · rw [if_pos haddr] at h
      exact .asked hregion htail hbuff haddr h
    · rw [if_neg haddr, Option.some.injEq] at h
      subst h
      refine .ignored hregion fun t' buff' ht' hbuff' => ?_
      obtain rfl := Option.some.inj (htail.symm.trans ht')
      obtain rfl := Option.some.inj (hbuff.symm.trans hbuff')
      exact haddr

/-- `default_data.size` after the doubling of an ELASTIC region. -/
def Region.grownSize (region : Region) : ℕ :=
  if hasFlag region.flags .elastic then Word.wrap 64 (region.defaultData.size * 2)
  else region.defaultData.size

/-- The size of the buffer that `shalloc_region_alloc_buff` asks for. -/
def Region.buffSize (region : Region) (size : ℕ) : ℕ :=
  if region.grownSize > size then region.grownSize else size

/-- The descriptor that `shalloc_region_alloc_buff` writes at the start of a block. -/
def Region.cloneBuff (region : Region) (d size : ℕ) : Buff :=
  shallocCloneBuff (Word.wrap 64 (d + sizeofBuff)) size region.defaultData

/-- The record of a region whose next buffer is as large as `size`. -/
def Region.setDefaultSize (region : Region) (size : ℕ) : Region :=
  { region with defaultData := { region.defaultData with size := size } }

/-- The ways in which `shalloc_region_alloc_buff` ends. -/
inductive AllocBuffCases (ops : BuffAllocType → BuffOp α)
    (parentMalloc : ℕ → Store α → Option (Option ℕ × Store α)) (r size : ℕ) (st : Store α) :
    Option ℕ → Store α → Prop
  | refused {region : Region} {parent : ℕ} {st1 : Store α} : st.regions r = some region →
      region.parent = some parent →
      parentMalloc (Word.wrap 64 (sizeofBuff + region.buffSize size)) st = some (none, st1) →
      AllocBuffCases ops parentMalloc r size st none st1
  | createFailed {region region1 : Region} {parent d : ℕ} {ret : ℤ} {st1 st2 st3 : Store α} :
      st.regions r = some region → region.parent = some parent →
      parentMalloc (Word.wrap 64 (sizeofBuff + region.buffSize size)) st = some (some d, st1) →
      st1.regions r = some region1 →
      (st1.setBuff d (region1.cloneBuff d (region.buffSize size))).opCreate ops d =
        some (ret, st2) →
      ret < 0 → shallocFree ops parent d st2 = some st3 →
      AllocBuffCases ops parentMalloc r size st none st3
  | built {region region1 : Region} {parent d : ℕ} {ret : ℤ} {st1 st2 : Store α} :
      st.regions r = some region → region.parent = some parent →
      parentMalloc (Word.wrap 64 (sizeofBuff + region.buffSize size)) st = some (some d, st1) →
      st1.regions r = some region1 →
      (st1.setBuff d (region1.cloneBuff d (region.buffSize size))).opCreate ops d =
        some (ret, st2) →
      0 ≤ ret →
      AllocBuffCases ops parentMalloc r size st (some d)
        (st2.setRegion r (region1.setDefaultSize region.grownSize))

theorem shallocRegionAllocBuff_cases
    {parentMalloc : ℕ → Store α → Option (Option ℕ × Store α)} {r size : ℕ} {d : Option ℕ}
    (h : shallocRegionAllocBuff ops parentMalloc r size st = some (d, st')) :
    AllocBuffCases ops parentMalloc r size st d st' := by
  simp only [shallocRegionAllocBuff, bind, Option.bind_eq_some_iff, Prod.exists] at h
  obtain ⟨region, hregion, parent, hparent, data, st1, hmalloc, h⟩ := h
  cases data with
  | none =>
    obtain ⟨rfl, rfl⟩ := Prod.mk.inj (Option.some.inj h)
    exact .refused hregion hparent hmalloc
  | some q =>
    simp only [Option.bind_eq_some_iff, Prod.exists] at h
    obtain ⟨region1, hregion1, ret, st2, hcreate, h⟩ := h
    by_cases hret : ret < 0
    · simp only [if_pos hret, Option.bind_eq_some_iff, Option.some.injEq, Prod.mk.injEq] at h
      obtain ⟨st3, hfree, rfl, rfl⟩ := h
      exact .createFailed hregion hparent hmalloc hregion1 hcreate hret hfree
    · simp only [if_neg hret, Option.bind_eq_some_iff, Option.some.injEq, Prod.mk.injEq] at h
      obtain ⟨region2, hregion2, rfl, rfl⟩ := h
      have hsame : st2.regions = st1.regions := by
        obtain ⟨buff, a, -, -, rfl⟩ := Store.opCreate_eq_some.mp hcreate
        rfl
      obtain rfl := Option.some.inj (hregion1.symm.trans (hsame ▸ hregion2))
      exact .built hregion hparent hmalloc hregion1 hcreate (by omega)

/-- The ways in which the new buffer `d` joins the chain of the region. -/
inductive AttachCases (r d : ℕ) (st : Store α) : Store α → Prop
  | first {region : Region} {data : Buff} : st.regions r = some region →
      region.dataTail = none → region.dataHead = none → st.buffs d = some data →
      AttachCases r d st
        ((st.setRegion r { region with dataHead := some d, dataTail := some d }).setBuff d
          { data with next := none })
  | last {region : Region} {t : ℕ} {tailBuff data : Buff} : st.regions r = some region →
      region.dataTail = some t → st.buffs t = some tailBuff →
      (st.setBuff t { tailBuff with next := some d }).buffs d = some data →
      AttachCases r d st
        (((st.setBuff t { tailBuff with next := some d }).setRegion r
          { region with dataTail := some d }).setBuff d { data with next := none })

theorem shallocRegionAttach_cases {r d : ℕ} (h : shallocRegionAttach r d st = some st') :
    AttachCases r d st st' := by
  simp only [shallocRegionAttach, bind, Option.bind_eq_some_iff] at h
  obtain ⟨region, hregion, h⟩ := h
  cases htail : region.dataTail with
  | none =>
    cases hhead : region.dataHead with
    | none =>
      simp only [htail, hhead, Option.isSome_none, Bool.false_eq_true, if_false,
        Option.bind_some, Option.bind_eq_some_iff, Option.some.injEq] at h
      obtain ⟨data, hdata, rfl⟩ := h
      exact .first hregion htail hhead hdata
    | some _ => simp [htail, hhead] at h
  | some t =>
    simp only [htail, Option.bind_some, Option.bind_eq_some_iff, Option.some.injEq] at h
    obtain ⟨tailBuff, htailBuff, data, hdata, rfl⟩ := h
    exact .last hregion htail htailBuff hdata

/-- The ways in which `shalloc_region_grow` ends. -/
inductive GrowCases (ops : BuffAllocType → BuffOp α)
    (parentMalloc : ℕ → Store α → Option (Option ℕ × Store α)) (r size : ℕ) (st : Store α) :
    ℤ → Store α → Prop
  /-- A NON_RESIZABLE region has its buffer. -/
  | fixed {region : Region} {t : ℕ} : st.regions r = some region → region.dataTail = some t →
      hasFlag region.flags .nonResizable = true →
      GrowCases ops parentMalloc r size st (-1) st
  | failed {region : Region} {st1 : Store α} : st.regions r = some region →
      ¬ (region.dataTail.isSome ∧ hasFlag region.flags .nonResizable) →
      AllocBuffCases ops parentMalloc r size st none st1 →
      GrowCases ops parentMalloc r size st (-1) st1
  | grown {region : Region} {d : ℕ} {st1 st2 : Store α} : st.regions r = some region →
      ¬ (region.dataTail.isSome ∧ hasFlag region.flags .nonResizable) →
      AllocBuffCases ops parentMalloc r size st (some d) st1 → AttachCases r d st1 st2 →
      GrowCases ops parentMalloc r size st 0 st2

theorem shallocRegionGrow_cases {parentMalloc : ℕ → Store α → Option (Option ℕ × Store α)}
    {r size : ℕ} {ret : ℤ} (h : shallocRegionGrow ops parentMalloc r size st = some (ret, st')) :
    GrowCases ops parentMalloc r size st ret st' := by
  by_cases hsize : size = 0
  · simp [shallocRegionGrow, hsize] at h
  · simp only [shallocRegionGrow, if_neg hsize, bind, Option.bind_eq_some_iff] at h
    obtain ⟨region, hregion, h⟩ := h
    by_cases hfixed : region.dataTail.isSome ∧ hasFlag region.flags .nonResizable
    · obtain ⟨t, ht⟩ := Option.isSome_iff_exists.mp hfixed.1
      rw [if_pos hfixed] at h
      obtain ⟨rfl, rfl⟩ := Prod.mk.inj (Option.some.inj h)
      exact .fixed hregion ht hfixed.2
    · simp only [if_neg hfixed, Option.bind_eq_some_iff, Prod.exists] at h
      obtain ⟨d, st1, halloc, h⟩ := h
      have hcases := shallocRegionAllocBuff_cases halloc
      cases d with
      | none =>
        obtain ⟨rfl, rfl⟩ := Prod.mk.inj (Option.some.inj h)
        exact .failed hregion hfixed hcases
      | some d =>
        simp only [Option.bind_eq_some_iff, Option.some.injEq, Prod.mk.injEq] at h
        obtain ⟨st2, hattach, rfl, rfl⟩ := h
        exact .grown hregion hfixed hcases (shallocRegionAttach_cases hattach)

/-- The tail buffer of the region refuses the request, or there is none. -/
inductive TailRefuses (ask : ℕ → Store α → Option (Option ℕ × Store α)) (r : ℕ) (st : Store α) :
    Store α → Prop
  | empty {region : Region} : st.regions r = some region → region.dataTail = none →
      TailRefuses ask r st st
  | refused {region : Region} {t : ℕ} {st1 : Store α} : st.regions r = some region →
      region.dataTail = some t → ask t st = some (none, st1) → TailRefuses ask r st st1

/-- A region with a tail buffer has asked it. -/
theorem TailRefuses.asked {ask : ℕ → Store α → Option (Option ℕ × Store α)} {r t : ℕ}
    {st1 : Store α} {region : Region} (h : TailRefuses ask r st st1)
    (hregion : st.regions r = some region) (ht : region.dataTail = some t) :
    ask t st = some (none, st1) := by
  cases h with
  | empty hregion' hnone =>
    obtain rfl := Option.some.inj (hregion.symm.trans hregion')
    exact absurd (hnone.symm.trans ht) (by simp)
  | refused hregion' ht' hask =>
    obtain rfl := Option.some.inj (hregion.symm.trans hregion')
    obtain rfl := Option.some.inj (ht.symm.trans ht')
    exact hask

/-- The ways in which the common body of `shalloc_malloc` and `shalloc_calloc` ends. -/
inductive ServeCases (ops : BuffAllocType → BuffOp α)
    (parentMalloc ask : ℕ → Store α → Option (Option ℕ × Store α)) (r size : ℕ) (st : Store α) :
    Option ℕ → Store α → Prop
  | served {region : Region} {t p : ℕ} {st1 : Store α} : st.regions r = some region →
      region.dataTail = some t → ask t st = some (some p, st1) →
      ServeCases ops parentMalloc ask r size st (some p) st1
  | notGrown {ret : ℤ} {st1 st2 : Store α} : TailRefuses ask r st st1 →
      GrowCases ops parentMalloc r (shallocBuffAllocSize size) st1 ret st2 → ret ≠ 0 →
      ServeCases ops parentMalloc ask r size st none st2
  | retried {region : Region} {t : ℕ} {p : Option ℕ} {st1 st2 st3 : Store α} :
      TailRefuses ask r st st1 →
      GrowCases ops parentMalloc r (shallocBuffAllocSize size) st1 0 st2 →
      st2.regions r = some region → region.dataTail = some t → ask t st2 = some (p, st3) →
      ServeCases ops parentMalloc ask r size st p st3

theorem shallocServe_cases {parentMalloc ask : ℕ → Store α → Option (Option ℕ × Store α)}
    {r size : ℕ} {p : Option ℕ} (h : shallocServe ops parentMalloc ask r size st = some (p, st')) :
    ServeCases ops parentMalloc ask r size st p st' := by
  simp only [shallocServe, bind, Option.bind_eq_some_iff] at h
  obtain ⟨region, hregion, h⟩ := h
  have hgrown : ∀ {st1}, TailRefuses ask r st st1 →
      ((shallocRegionGrow ops parentMalloc r (shallocBuffAllocSize size) st1).bind fun a =>
        if a.1 = 0 then
          (a.2.regions r).bind fun region => region.dataTail.bind fun tail => ask tail a.2
        else some (none, a.2)) = some (p, st') →
      ServeCases ops parentMalloc ask r size st p st' := by
    intro st1 hrefuses h
    simp only [Option.bind_eq_some_iff, Prod.exists] at h
    obtain ⟨ret, st2, hgrow, h⟩ := h
    have hcases := shallocRegionGrow_cases hgrow
    by_cases hret : ret = 0
    · subst hret
      simp only [if_true, Option.bind_eq_some_iff] at h
      obtain ⟨region2, hregion2, t, ht, hretry⟩ := h
      exact .retried hrefuses hcases hregion2 ht hretry
    · rw [if_neg hret] at h
      obtain ⟨rfl, rfl⟩ := Prod.mk.inj (Option.some.inj h)
      exact .notGrown hrefuses hcases hret
  cases htail : region.dataTail with
  | none =>
    rw [htail] at h
    exact hgrown (.empty hregion htail) h
  | some t =>
    simp only [htail, Option.bind_eq_some_iff, Prod.exists] at h
    obtain ⟨ptr, st1, hask, h⟩ := h
    cases ptr with
    | some q =>
      obtain ⟨rfl, rfl⟩ := Prod.mk.inj (Option.some.inj h)
      exact .served hregion htail hask
    | none =>
      exact hgrown (.refused hregion htail hask) (by simpa [Option.bind_eq_some_iff] using h)

section Serve

variable {parentMalloc ask : ℕ → Store α → Option (Option ℕ × Store α)} {region : Region}
  {r t size : ℕ} {st1 st2 : Store α}

/-- The tail buffer serves the request. -/
theorem shallocServe_served {p : ℕ} (hregion : st.regions r = some region)
    (ht : region.dataTail = some t) (hask : ask t st = some (some p, st1)) :
    shallocServe ops parentMalloc ask r size st = some (some p, st1) := by
  simp only [shallocServe, bind, hregion, ht, hask, Option.bind_some]

/-- The request does not return if the tail buffer does not answer. -/
theorem shallocServe_stuck (hregion : st.regions r = some region)
    (ht : region.dataTail = some t) (hask : ask t st = none) :
    shallocServe ops parentMalloc ask r size st = none := by
  simp only [shallocServe, bind, hregion, ht, hask, Option.bind_some, Option.bind_none]

/-- The rest of a request that the tail buffer has refused. -/
theorem TailRefuses.serve (h : TailRefuses ask r st st1) :
    shallocServe ops parentMalloc ask r size st =
      (shallocRegionGrow ops parentMalloc r (shallocBuffAllocSize size) st1).bind fun a =>
        if a.1 = 0 then
          (a.2.regions r).bind fun region => region.dataTail.bind fun tail => ask tail a.2
        else some (none, a.2) := by
  cases h with
  | empty hregion ht => simp only [shallocServe, bind, hregion, ht, Option.bind_some]
  | refused hregion ht hask => simp only [shallocServe, bind, hregion, ht, hask, Option.bind_some]

/-- The request fails with the growth. -/
theorem TailRefuses.serve_failed {ret : ℤ} (h : TailRefuses ask r st st1)
    (hgrow : shallocRegionGrow ops parentMalloc r (shallocBuffAllocSize size) st1 = some (ret, st2))
    (hret : ret ≠ 0) : shallocServe ops parentMalloc ask r size st = some (none, st2) := by
  rw [h.serve, hgrow, Option.bind_some, if_neg hret]

/-- The new tail answers after a growth. -/
theorem TailRefuses.serve_grown (h : TailRefuses ask r st st1)
    (hgrow : shallocRegionGrow ops parentMalloc r (shallocBuffAllocSize size) st1 = some (0, st2))
    (hregion : st2.regions r = some region) (ht : region.dataTail = some t) :
    shallocServe ops parentMalloc ask r size st = ask t st2 := by
  rw [h.serve, hgrow, Option.bind_some, if_pos rfl, hregion, Option.bind_some, ht, Option.bind_some]

/-- A request that the tail buffer has refused comes back only if the growth does. -/
theorem TailRefuses.grows {a : Option ℕ × Store α} (h : TailRefuses ask r st st1)
    (hserve : shallocServe ops parentMalloc ask r size st = some a) :
    ∃ ret st2,
      shallocRegionGrow ops parentMalloc r (shallocBuffAllocSize size) st1 = some (ret, st2) := by
  rw [h.serve] at hserve
  obtain ⟨⟨ret, st2⟩, hgrow, -⟩ := Option.bind_eq_some_iff.mp hserve
  exact ⟨ret, st2, hgrow⟩

/-- A growth that comes back has asked the parent, unless the region keeps its one buffer. -/
theorem GrowCases.asked {ret : ℤ} (h : GrowCases ops parentMalloc r size st ret st')
    (hregion : st.regions r = some region)
    (hfree : ¬ (region.dataTail.isSome ∧ hasFlag region.flags .nonResizable)) :
    ∃ d st1, parentMalloc (Word.wrap 64 (sizeofBuff + region.buffSize size)) st =
      some (d, st1) := by
  have halloc : ∀ {d st1}, AllocBuffCases ops parentMalloc r size st d st1 →
      ∃ d st1, parentMalloc (Word.wrap 64 (sizeofBuff + region.buffSize size)) st =
        some (d, st1) := by
    intro d st1 halloc
    cases halloc with
    | refused hregion' _ hmalloc | createFailed hregion' _ hmalloc | built hregion' _ hmalloc =>
      obtain rfl := Option.some.inj (hregion.symm.trans hregion')
      exact ⟨_, _, hmalloc⟩
  cases h with
  | fixed hregion' ht hfixed =>
    obtain rfl := Option.some.inj (hregion.symm.trans hregion')
    exact absurd ⟨by rw [ht]; rfl, hfixed⟩ hfree
  | failed _ _ h => exact halloc h
  | grown _ _ h => exact halloc h

/-- A request answered by another operation of the buffers: `f` may add to what the first one
leaves behind, but neither changes its answer nor touches a refusal. -/
theorem shallocServe_map {ask' : ℕ → Store α → Option (Option ℕ × Store α)}
    {f : Option ℕ × Store α → Option ℕ × Store α} (hask : ∀ t st, ask' t st = (ask t st).map f)
    (hnone : ∀ st, f (none, st) = (none, st)) (hsome : ∀ p st, (f (some p, st)).1 = some p) :
    shallocServe ops parentMalloc ask' r size st =
      (shallocServe ops parentMalloc ask r size st).map f := by
  have hrest : ∀ {st1}, TailRefuses ask r st st1 → TailRefuses ask' r st st1 →
      shallocServe ops parentMalloc ask' r size st =
        (shallocServe ops parentMalloc ask r size st).map f := by
    intro st1 hrefuses hrefuses'
    rw [hrefuses.serve, hrefuses'.serve]
    cases shallocRegionGrow ops parentMalloc r (shallocBuffAllocSize size) st1 with
    | none => rfl
    | some a =>
      simp only [Option.bind_some]
      by_cases hret : a.1 = 0
      · simp only [if_pos hret, hask, Option.map_bind]
        apply congrArg
        funext region
        show _ = (region.dataTail.bind fun tail => ask tail a.2).map f
        rw [Option.map_bind]
        rfl
      · simp only [if_neg hret, Option.map_some, hnone]
  cases hregion : st.regions r with
  | none => simp [shallocServe, hregion]
  | some region =>
    cases ht : region.dataTail with
    | none => exact hrest (.empty hregion ht) (.empty hregion ht)
    | some t =>
      have hanswer := hask t st
      cases hcall : ask t st with
      | none =>
        rw [hcall] at hanswer
        rw [shallocServe_stuck hregion ht hcall, shallocServe_stuck hregion ht hanswer]
        rfl
      | some a =>
        obtain ⟨q, st1⟩ := a
        rw [hcall, Option.map_some] at hanswer
        cases q with
        | none =>
          rw [hnone] at hanswer
          exact hrest (.refused hregion ht hcall) (.refused hregion ht hanswer)
        | some p =>
          have hpair : f (some p, st1) = (some p, (f (some p, st1)).2) := Prod.ext (hsome p st1) rfl
          rw [hpair] at hanswer
          rw [shallocServe_served hregion ht hcall, shallocServe_served hregion ht hanswer,
            Option.map_some, hpair]

/-- A NON_RESIZABLE region that has its buffer does not grow. -/
theorem shallocRegionGrow_fixed (hpos : 0 < size) (hregion : st.regions r = some region)
    (hfixed : region.dataTail.isSome ∧ hasFlag region.flags .nonResizable) :
    shallocRegionGrow ops parentMalloc r size st = some (-1, st) := by
  simp only [shallocRegionGrow, if_neg (Nat.pos_iff_ne_zero.mp hpos), bind, hregion,
    Option.bind_some, if_pos hfixed]

/-- A growth fails if the parent has no block for the buffer. -/
theorem shallocRegionGrow_refused {parent : ℕ} (hpos : 0 < size)
    (hregion : st.regions r = some region)
    (hfree : ¬ (region.dataTail.isSome ∧ hasFlag region.flags .nonResizable))
    (hparent : region.parent = some parent)
    (hmalloc : parentMalloc (Word.wrap 64 (sizeofBuff + region.buffSize size)) st =
      some (none, st1)) :
    shallocRegionGrow ops parentMalloc r size st = some (-1, st1) := by
  have halloc : shallocRegionAllocBuff ops parentMalloc r size st = some (none, st1) :=
    Option.bind_eq_some_iff.mpr ⟨region, hregion, Option.bind_eq_some_iff.mpr ⟨parent, hparent,
      Option.bind_eq_some_iff.mpr ⟨_, hmalloc, rfl⟩⟩⟩
  simp only [shallocRegionGrow, if_neg (Nat.pos_iff_ne_zero.mp hpos), bind, hregion,
    Option.bind_some, if_neg hfree, halloc]

end Serve

/-- A request goes to a region. -/
theorem shallocMalloc_path {path : List ℕ} {n : ℕ} {a : Option ℕ × Store α}
    (h : shallocMalloc ops path n st = some a) : ∃ P, path.head? = some P := by
  cases path with
  | nil => exact absurd h (by simp [shallocMalloc])
  | cons P _ => exact ⟨P, rfl⟩

/-- A call of `shalloc_malloc` on the region at the head of the path. -/
theorem shallocMalloc_cases {r n : ℕ} {ancestors : List ℕ} {p : Option ℕ}
    (h : shallocMalloc ops (r :: ancestors) n st = some (p, st')) :
    (n = 0 ∧ p = none ∧ st' = st.log (.request r n)) ∨
      (0 < n ∧ ServeCases ops (shallocMalloc ops ancestors) (fun t st => st.opMalloc ops t n)
        r n (st.log (.request r n)) p st') := by
  cases Nat.eq_zero_or_pos n with
  | inl hzero =>
    simp only [shallocMalloc, if_pos hzero] at h
    obtain ⟨rfl, rfl⟩ := Prod.mk.inj (Option.some.inj h)
    exact Or.inl ⟨hzero, rfl, rfl⟩
  | inr hpos =>
    rw [shallocMalloc, if_neg (Nat.pos_iff_ne_zero.mp hpos)] at h
    exact Or.inr ⟨hpos, shallocServe_cases h⟩

/-- A call of `shalloc_calloc` on the region at the head of the path. -/
theorem shallocCalloc_cases {r nmemb size : ℕ} {ancestors : List ℕ} {p : Option ℕ}
    (h : shallocCalloc ops (r :: ancestors) nmemb size st = some (p, st')) :
    (Word.wrap 64 (nmemb * size) = 0 ∧ p = none ∧
        st' = st.log (.request r (Word.wrap 64 (nmemb * size)))) ∨
      (0 < Word.wrap 64 (nmemb * size) ∧
        ServeCases ops (shallocMalloc ops ancestors) (fun t st => st.opCalloc ops t nmemb size)
          r (Word.wrap 64 (nmemb * size)) (st.log (.request r (Word.wrap 64 (nmemb * size))))
          p st') := by
  cases Nat.eq_zero_or_pos (Word.wrap 64 (nmemb * size)) with
  | inl hzero =>
    simp only [shallocCalloc, if_pos hzero] at h
    obtain ⟨rfl, rfl⟩ := Prod.mk.inj (Option.some.inj h)
    exact Or.inl ⟨hzero, rfl, rfl⟩
  | inr hpos =>
    rw [shallocCalloc, if_neg (Nat.pos_iff_ne_zero.mp hpos)] at h
    exact Or.inr ⟨hpos, shallocServe_cases h⟩

/-- Destroying a region without buffers only frees its record. -/
theorem shallocRegionDestroy_empty {r : ℕ} {heap : Option ℕ}
    (h : shallocRegionDestroy ops 0 r st = some (heap, st')) :
    ∃ region, st.regions r = some region ∧ region.dataHead = none ∧
      ((region.parent = none ∧ st' = st) ∨
        ∃ parent, region.parent = some parent ∧ shallocFree ops parent r st = some st') := by
  simp only [shallocRegionDestroy, shallocRegionReset, regionBuffIter, bind,
    Option.bind_eq_some_iff, Prod.exists] at h
  obtain ⟨st1, ⟨prev, curr, st2, ⟨region, hregion, hiter⟩, region2, hregion2, hreset⟩,
    region1, hregion1, h⟩ := h
  cases hhead : region.dataHead with
  | some d => simp [hhead, regionBuffIterLoop] at hiter
  | none =>
    simp only [hhead, Option.isSome_none, Bool.false_eq_true, if_false, Option.some.injEq,
      Prod.mk.injEq] at hiter
    obtain ⟨-, -, rfl⟩ := hiter
    obtain rfl := Option.some.inj (hregion.symm.trans hregion2)
    simp only [hhead, Option.some.injEq] at hreset
    subst hreset
    obtain rfl := Option.some.inj (hregion.symm.trans hregion1)
    refine ⟨region, hregion, hhead, ?_⟩
    cases hparent : region.parent with
    | none =>
      simp only [hparent, Option.bind_some, Option.bind_eq_some_iff, Option.some.injEq,
        Prod.mk.injEq] at h
      obtain ⟨_, -, -, rfl⟩ := h
      exact Or.inl ⟨rfl, rfl⟩
    | some parent =>
      simp only [hparent, Option.bind_eq_some_iff, Option.some.injEq, Prod.mk.injEq] at h
      obtain ⟨st3, hfree, _, -, -, rfl⟩ := h
      exact Or.inr ⟨parent, rfl, hfree⟩

/-- The ways in which `shalloc_region_create` under the region at the head of the path
ends. -/
inductive CreateCases (ops : BuffAllocType → BuffOp α) (path : List ℕ)
    (initSize buffSize blockSize flags : ℕ) (type : BuffAllocType) (st : Store α) :
    Option ℕ → Store α → Prop
  | heapFlag : hasFlag flags .heap = true →
      CreateCases ops path initSize buffSize blockSize flags type st none st
  | refused {st1 : Store α} : shallocMalloc ops path sizeofRegion st = some (none, st1) →
      CreateCases ops path initSize buffSize blockSize flags type st none st1
  | empty {r : ℕ} {st1 : Store α} : shallocMalloc ops path sizeofRegion st = some (some r, st1) →
      initSize = 0 →
      CreateCases ops path initSize buffSize blockSize flags type st (some r)
        (st1.setRegion r (shallocGetRegion path buffSize blockSize flags type))
  | notGrown {r : ℕ} {ret : ℤ} {heap : Option ℕ} {st1 st2 st3 : Store α} :
      shallocMalloc ops path sizeofRegion st = some (some r, st1) → 0 < initSize →
      GrowCases ops (shallocMalloc ops path) r initSize
        (st1.setRegion r (shallocGetRegion path buffSize blockSize flags type)) ret st2 →
      ret < 0 → shallocRegionDestroy ops 0 r st2 = some (heap, st3) →
      CreateCases ops path initSize buffSize blockSize flags type st none st3
  | grown {r : ℕ} {ret : ℤ} {st1 st2 : Store α} :
      shallocMalloc ops path sizeofRegion st = some (some r, st1) → 0 < initSize →
      GrowCases ops (shallocMalloc ops path) r initSize
        (st1.setRegion r (shallocGetRegion path buffSize blockSize flags type)) ret st2 →
      ¬ ret < 0 →
      CreateCases ops path initSize buffSize blockSize flags type st (some r) st2

theorem shallocRegionCreate_cases {path : List ℕ} {initSize buffSize blockSize flags : ℕ}
    {type : BuffAllocType} {c : Option ℕ}
    (h : shallocRegionCreate ops path initSize buffSize blockSize flags type st =
      some (c, st')) :
    CreateCases ops path initSize buffSize blockSize flags type st c st' := by
  by_cases hheap : hasFlag flags .heap = true
  · rw [shallocRegionCreate, if_pos hheap] at h
    obtain ⟨rfl, rfl⟩ := Prod.mk.inj (Option.some.inj h)
    exact .heapFlag hheap
  · simp only [shallocRegionCreate, if_neg hheap, bind, Option.bind_eq_some_iff,
      Prod.exists] at h
    obtain ⟨region, st1, hmalloc, h⟩ := h
    cases region with
    | none =>
      obtain ⟨rfl, rfl⟩ := Prod.mk.inj (Option.some.inj h)
      exact .refused hmalloc
    | some r =>
      by_cases hinit : initSize > 0
      · simp only [if_pos hinit, Option.bind_eq_some_iff, Prod.exists] at h
        obtain ⟨ret, st2, hgrow, h⟩ := h
        have hcases := shallocRegionGrow_cases hgrow
        by_cases hret : ret < 0
        · simp only [if_pos hret, Option.bind_eq_some_iff, Prod.exists, Option.some.injEq,
            Prod.mk.injEq] at h
          obtain ⟨heap, st3, hdestroy, rfl, rfl⟩ := h
          exact .notGrown hmalloc hinit hcases hret hdestroy
        · simp only [if_neg hret] at h
          obtain ⟨rfl, rfl⟩ := Prod.mk.inj (Option.some.inj h)
          exact .grown hmalloc hinit hcases hret
      · simp only [if_neg hinit] at h
        obtain ⟨rfl, rfl⟩ := Prod.mk.inj (Option.some.inj h)
        exact .empty hmalloc (Nat.eq_zero_of_not_pos hinit)

/-- A region is created below another. -/
theorem shallocRegionCreate_path {path : List ℕ} {r initSize buffSize blockSize flags : ℕ}
    {type : BuffAllocType}
    (h : shallocRegionCreate ops path initSize buffSize blockSize flags type st =
      some (some r, st')) : ∃ P, path.head? = some P := by
  cases shallocRegionCreate_cases h with
  | empty hmalloc => exact shallocMalloc_path hmalloc
  | grown hmalloc => exact shallocMalloc_path hmalloc

/-- The ways in which `shalloc_orealloc` on the region at the head of the path ends. -/
inductive OreallocCases (ops : BuffAllocType → BuffOp α) (r : ℕ) (ancestors : List ℕ)
    (size oldSize : ℕ) (st : Store α) : Option ℕ → Option ℕ → Store α → Prop
  | fresh {p : Option ℕ} {st1 : Store α} :
      shallocMalloc ops (r :: ancestors) size st = some (p, st1) →
      OreallocCases ops r ancestors size oldSize st none p st1
  | freed {q : ℕ} {st1 : Store α} : size = 0 → shallocFree ops r q st = some st1 →
      OreallocCases ops r ancestors size oldSize st (some q) none st1
  | kept {q : ℕ} : 0 < size → size ≤ oldSize →
      OreallocCases ops r ancestors size oldSize st (some q) (some q) st
  | refused {q : ℕ} {st1 : Store α} : oldSize < size →
      shallocMalloc ops (r :: ancestors) size st = some (none, st1) →
      OreallocCases ops r ancestors size oldSize st (some q) none st1
  | moved {q p : ℕ} {st1 st2 : Store α} : oldSize < size →
      shallocMalloc ops (r :: ancestors) size st = some (some p, st1) →
      shallocFree ops r q (st1.log (.copy p q oldSize)) = some st2 →
      OreallocCases ops r ancestors size oldSize st (some q) (some p) st2

theorem shallocOrealloc_cases {r size oldSize : ℕ} {ancestors : List ℕ} {ptr p : Option ℕ}
    (h : shallocOrealloc ops (r :: ancestors) ptr size oldSize st = some (p, st')) :
    OreallocCases ops r ancestors size oldSize st ptr p st' := by
  simp only [shallocOrealloc, List.head?_cons, bind, Option.bind_some] at h
  cases ptr with
  | none => exact .fresh h
  | some q =>
    by_cases hzero : size = 0
    · simp only [if_pos hzero, Option.bind_eq_some_iff, Option.some.injEq, Prod.mk.injEq] at h
      obtain ⟨st1, hfree, rfl, rfl⟩ := h
      exact .freed hzero hfree
    · by_cases hle : size ≤ oldSize
      · simp only [if_neg hzero, if_pos hle] at h
        obtain ⟨rfl, rfl⟩ := Prod.mk.inj (Option.some.inj h)
        exact .kept (Nat.pos_of_ne_zero hzero) hle
      · simp only [if_neg hzero, if_neg hle, Option.bind_eq_some_iff, Prod.exists] at h
        obtain ⟨newPtr, st1, hmalloc, h⟩ := h
        cases newPtr with
        | none =>
          obtain ⟨rfl, rfl⟩ := Prod.mk.inj (Option.some.inj h)
          exact .refused (Nat.lt_of_not_le hle) hmalloc
        | some p =>
          simp only [Option.bind_eq_some_iff, Option.some.injEq, Prod.mk.injEq] at h
          obtain ⟨st2, hfree, rfl, rfl⟩ := h
          exact .moved (Nat.lt_of_not_le hle) hmalloc hfree

section Extends

variable {b n r : ℕ}

theorem Store.extends_opMalloc {p : Option ℕ} (h : st.opMalloc ops b n = some (p, st')) :
    st.Extends st' := by
  obtain ⟨buff, a, -, -, rfl⟩ := Store.opMalloc_eq_some.mp h
  exact List.suffix_cons _ _

theorem Store.extends_opFree {p : ℕ} (h : st.opFree ops b p = some st') : st.Extends st' := by
  obtain ⟨buff, a, -, -, rfl⟩ := Store.opFree_eq_some.mp h
  exact List.suffix_cons _ _

theorem Store.extends_opCreate {ret : ℤ} (h : st.opCreate ops b = some (ret, st')) :
    st.Extends st' := by
  obtain ⟨buff, a, -, -, rfl⟩ := Store.opCreate_eq_some.mp h
  exact List.suffix_cons _ _

theorem Store.extends_opCalloc {nmemb size : ℕ} {p : Option ℕ}
    (h : st.opCalloc ops b nmemb size = some (p, st')) : st.Extends st' := by
  obtain ⟨st1, hmalloc, rfl⟩ := Store.opCalloc_eq_some.mp h
  cases p with
  | none => exact Store.extends_opMalloc hmalloc
  | some q => exact (Store.extends_opMalloc hmalloc).trans (Store.extends_log _ _)

theorem FreeCases.extends {p : ℕ} (h : FreeCases ops r p st st') : st.Extends st' := by
  cases h with
  | ignored => exact Store.extends_log _ _
  | asked _ _ _ _ hfree => exact (Store.extends_log _ _).trans (Store.extends_opFree hfree)

theorem AttachCases.extends {d : ℕ} (h : AttachCases r d st st') : st.Extends st' := by
  cases h with
  | first => exact (Store.extends_setRegion _ _ _).trans (Store.extends_setBuff _ _ _)
  | last =>
    exact ((Store.extends_setBuff _ _ _).trans (Store.extends_setRegion _ _ _)).trans
      (Store.extends_setBuff _ _ _)

variable {parentMalloc ask : ℕ → Store α → Option (Option ℕ × Store α)}

theorem extends_destroy_empty {heap : Option ℕ}
    (h : shallocRegionDestroy ops 0 r st = some (heap, st')) : st.Extends st' := by
  obtain ⟨-, -, -, ⟨-, rfl⟩ | ⟨parent, -, hfree⟩⟩ := shallocRegionDestroy_empty h
  · exact .refl _
  · exact (shallocFree_cases hfree).extends

/-- A function that answers a request goes on from the trace it finds. -/
def AnswerExtends (answer : ℕ → Store α → Option (Option ℕ × Store α)) : Prop :=
  ∀ {m st st' p}, answer m st = some (p, st') → Store.Extends st st'

theorem AllocBuffCases.extends (hparent : AnswerExtends parentMalloc) {size : ℕ} {d : Option ℕ}
    (h : AllocBuffCases ops parentMalloc r size st d st') : st.Extends st' := by
  have hcreate : ∀ {st1 st2 : Store α} {d : ℕ} {buff : Buff} {ret : ℤ}, st.Extends st1 →
      (st1.setBuff d buff).opCreate ops d = some (ret, st2) → st.Extends st2 :=
    fun h1 h2 => (h1.trans (Store.extends_setBuff _ _ _)).trans (Store.extends_opCreate h2)
  cases h with
  | refused _ _ hmalloc => exact hparent hmalloc
  | createFailed _ _ hmalloc _ hop _ hfree =>
    exact (hcreate (hparent hmalloc) hop).trans (shallocFree_cases hfree).extends
  | built _ _ hmalloc _ hop =>
    exact (hcreate (hparent hmalloc) hop).trans (Store.extends_setRegion _ _ _)

theorem GrowCases.extends (hparent : AnswerExtends parentMalloc) {size : ℕ} {ret : ℤ}
    (h : GrowCases ops parentMalloc r size st ret st') : st.Extends st' := by
  cases h with
  | fixed => exact .refl _
  | failed _ _ halloc => exact halloc.extends hparent
  | grown _ _ halloc hattach => exact (halloc.extends hparent).trans hattach.extends

theorem TailRefuses.extends (hask : AnswerExtends ask) (h : TailRefuses ask r st st') :
    st.Extends st' := by
  cases h with
  | empty => exact .refl _
  | refused _ _ h => exact hask h

theorem ServeCases.extends (hparent : AnswerExtends parentMalloc) (hask : AnswerExtends ask)
    {size : ℕ} {p : Option ℕ} (h : ServeCases ops parentMalloc ask r size st p st') :
    st.Extends st' := by
  cases h with
  | served _ _ h => exact hask h
  | notGrown hrefuses hgrow => exact (hrefuses.extends hask).trans (hgrow.extends hparent)
  | retried hrefuses hgrow _ _ h =>
    exact ((hrefuses.extends hask).trans (hgrow.extends hparent)).trans (hask h)

/-- `shalloc_malloc` goes on from the trace it finds, at any depth. -/
theorem shallocMalloc_extends (path : List ℕ) : AnswerExtends (shallocMalloc ops path) := by
  induction path with
  | nil => exact fun h => by simp [shallocMalloc] at h
  | cons r ancestors ih =>
    intro n st st' p h
    obtain ⟨-, -, rfl⟩ | ⟨-, hserve⟩ := shallocMalloc_cases h
    · exact Store.extends_log _ _
    · exact (Store.extends_log _ _).trans (hserve.extends ih Store.extends_opMalloc)

/-- A call is noted before anything else. -/
theorem shallocMalloc_request {ancestors : List ℕ} {p : Option ℕ}
    (h : shallocMalloc ops (r :: ancestors) n st = some (p, st')) :
    (st.log (.request r n)).Extends st' := by
  obtain ⟨-, -, rfl⟩ | ⟨-, hserve⟩ := shallocMalloc_cases h
  · exact .refl _
  · exact hserve.extends (shallocMalloc_extends _) Store.extends_opMalloc

theorem shallocCalloc_extends {path : List ℕ} {nmemb size : ℕ} {p : Option ℕ}
    (h : shallocCalloc ops path nmemb size st = some (p, st')) : st.Extends st' := by
  cases path with
  | nil => simp [shallocCalloc] at h
  | cons r ancestors =>
    obtain ⟨-, -, rfl⟩ | ⟨-, hserve⟩ := shallocCalloc_cases h
    · exact Store.extends_log _ _
    · exact (Store.extends_log _ _).trans
        (hserve.extends (shallocMalloc_extends _) Store.extends_opCalloc)

theorem shallocOrealloc_extends {path : List ℕ} {ptr p : Option ℕ} {size oldSize : ℕ}
    (h : shallocOrealloc ops path ptr size oldSize st = some (p, st')) : st.Extends st' := by
  cases path with
  | nil => simp [shallocOrealloc] at h
  | cons r ancestors =>
    cases shallocOrealloc_cases h with
    | fresh hmalloc => exact shallocMalloc_extends _ hmalloc
    | freed _ hfree => exact (shallocFree_cases hfree).extends
    | kept => exact .refl _
    | refused _ hmalloc => exact shallocMalloc_extends _ hmalloc
    | moved _ hmalloc hfree =>
      exact ((shallocMalloc_extends _ hmalloc).trans (Store.extends_log _ _)).trans
        (shallocFree_cases hfree).extends

theorem CreateCases.extends {path : List ℕ} {initSize buffSize blockSize flags : ℕ}
    {type : BuffAllocType} {c : Option ℕ}
    (h : CreateCases ops path initSize buffSize blockSize flags type st c st') :
    st.Extends st' := by
  cases h with
  | heapFlag => exact .refl _
  | refused hmalloc => exact shallocMalloc_extends _ hmalloc
  | empty hmalloc => exact (shallocMalloc_extends _ hmalloc).trans (Store.extends_setRegion _ _ _)
  | notGrown hmalloc _ hgrow _ hdestroy =>
    exact (((shallocMalloc_extends _ hmalloc).trans (Store.extends_setRegion _ _ _)).trans
      (hgrow.extends (shallocMalloc_extends _))).trans (extends_destroy_empty hdestroy)
  | grown hmalloc _ hgrow =>
    exact ((shallocMalloc_extends _ hmalloc).trans (Store.extends_setRegion _ _ _)).trans
      (hgrow.extends (shallocMalloc_extends _))

end Extends

end Shalloc
