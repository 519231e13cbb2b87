import Shalloc.Region.Ledger
import Shalloc.Region.Reset

/-!
# What a region gives back when it is destroyed

A region below a parent with one buffer obtains its record and its buffers from the
parent. A reset frees the buffers between the first and the last one, and destroying the
region frees its record as well. The first buffer is never given back.

## Main definitions

- `RegionOwns` — the record and the buffers of the region are blocks of the ledger
- `RegionCall`, `RegionRun` — the calls on the region

## Main results

- `RegionRun.owns` — every run keeps the invariant
- `region_givesBack_iff` — everything is given back exactly when there is no buffer
-/

namespace Shalloc

variable {α : Type} {ops : BuffAllocType → BuffOp α} {limit head P b r : ℕ} {parent : Region}
  {buff : Buff} {rep : Buff → List Extent → α → Prop} {trace0 : List Event} {st st' : Store α}
  {region : Region} {chain mine : List ℕ}

/-- Region `r` below the parent `P`: its record and its buffers are blocks of the ledger
of the parent's buffer. -/
structure RegionOwns (rep : Buff → List Extent → α → Prop) (P b : ℕ) (parent : Region)
    (buff : Buff) (trace0 : List Event) (r : ℕ) (st : Store α) (region : Region)
    (chain mine : List ℕ) : Prop where
  above : OneBuff rep P b parent buff st
  ledger : Ledger b trace0 st.trace mine
  record : st.regions r = some region
  ancestors : region.ancestors = P :: parent.ancestors
  linked : Linked st region chain
  nodup : (r :: chain).Nodup
  owned : ∀ d ∈ r :: chain, d ∈ mine
  start : ∀ d ∈ chain, ∃ data, st.buffs d = some data ∧ data.start = d + sizeofBuff

/-- The invariant of a region, for some chain: while it has no buffer, it owns its record
only. -/
def Owns (rep : Buff → List Extent → α → Prop) (P b : ℕ) (parent : Region) (buff : Buff)
    (trace0 : List Event) (r : ℕ) (st : Store α) : Prop :=
  ∃ region chain mine, RegionOwns rep P b parent buff trace0 r st region chain mine ∧
    (chain = [] → mine = [r])

/-- A step on the child's side: records, descriptors and the allocator at `start` stay, and
no event concerns buffer `b`. -/
structure ChildStep (b start : ℕ) (st st' : Store α) : Prop where
  regions : st'.regions = st.regions
  buffs : st'.buffs = st.buffs
  cell : st'.cells start = st.cells start
  new : ∃ new, st'.trace = new ++ st.trace ∧ ∀ event ∈ new, ¬ event.touches b

section ChildStep

variable {start d n : ℕ} {data : Buff}

theorem ChildStep.of_log {event : Event} (hevent : ¬ event.touches b) :
    ChildStep b start st (st.log event) :=
  ⟨rfl, rfl, rfl, [event], rfl, by simpa using hevent⟩

theorem ChildStep.trans {st'' : Store α} (h : ChildStep b start st st')
    (h' : ChildStep b start st' st'') : ChildStep b start st st'' := by
  obtain ⟨new, htrace, hnew⟩ := h.new
  obtain ⟨new', htrace', hnew'⟩ := h'.new
  refine ⟨h'.regions.trans h.regions, h'.buffs.trans h.buffs, h'.cell.trans h.cell, new' ++ new,
    by rw [htrace', htrace, List.append_assoc], fun event hevent => ?_⟩
  cases List.mem_append.mp hevent with
  | inl hevent => exact hnew' event hevent
  | inr hevent => exact hnew event hevent

/-- An operation of a buffer writes the allocator at the start of its own data. -/
theorem ChildStep.of_setCell {event : Event} {a : α} (hstart : data.start ≠ start)
    (hevent : ¬ event.touches b) :
    ChildStep b start st ((st.setCell data.start a).log event) :=
  ⟨rfl, rfl, Function.update_of_ne hstart.symm _ _, [event], rfl, by simpa using hevent⟩

variable (hdata : st.buffs d = some data) (hstart : data.start ≠ start) (hd : d ≠ b)
include hdata hstart hd

theorem ChildStep.opMalloc {p : Option ℕ} (h : st.opMalloc ops d n = some (p, st')) :
    ChildStep b start st st' := by
  obtain ⟨data', a, hdata', -, rfl⟩ := Store.opMalloc_eq_some.mp h
  obtain rfl := Option.some.inj (hdata.symm.trans hdata')
  cases p with
  | none => exact .of_setCell hstart fun hno => hno
  | some q => exact .of_setCell hstart hd

theorem ChildStep.opCalloc {nmemb size : ℕ} {p : Option ℕ}
    (h : st.opCalloc ops d nmemb size = some (p, st')) : ChildStep b start st st' := by
  obtain ⟨st1, hmalloc, rfl⟩ := Store.opCalloc_eq_some.mp h
  have hstep := ChildStep.opMalloc hdata hstart hd hmalloc
  cases p with
  | none => exact hstep
  | some q => exact hstep.trans (.of_log fun hno => hno)

theorem ChildStep.opFree {p : ℕ} (h : st.opFree ops d p = some st') :
    ChildStep b start st st' := by
  obtain ⟨data', a, hdata', -, rfl⟩ := Store.opFree_eq_some.mp h
  obtain rfl := Option.some.inj (hdata.symm.trans hdata')
  exact .of_setCell hstart hd

theorem ChildStep.opCreate {ret : ℤ} (h : st.opCreate ops d = some (ret, st')) :
    ChildStep b start st st' := by
  obtain ⟨data', a, hdata', -, rfl⟩ := Store.opCreate_eq_some.mp h
  obtain rfl := Option.some.inj (hdata.symm.trans hdata')
  exact .of_setCell hstart hd

theorem ChildStep.opDestroy (h : st.opDestroy ops d = some st') : ChildStep b start st st' := by
  obtain ⟨data', a, hdata', -, rfl⟩ := Store.opDestroy_eq_some.mp h
  obtain rfl := Option.some.inj (hdata.symm.trans hdata')
  exact .of_setCell hstart hd

end ChildStep

/-- The ledger and the parent are of no concern to a step on the child's side. -/
theorem ChildStep.above (hstep : ChildStep b buff.start st st')
    (h : OneBuff rep P b parent buff st) (hledger : Ledger b trace0 st.trace mine) :
    OneBuff rep P b parent buff st' ∧ Ledger b trace0 st'.trace mine := by
  obtain ⟨new, htrace, hnew⟩ := hstep.new
  have hlive : liveBlocks b st'.trace = liveBlocks b st.trace := by
    rw [htrace]
    clear htrace
    induction new with
    | nil => rfl
    | cons event new ih =>
      rw [List.cons_append, liveBlocks_of_not_touches (hnew event List.mem_cons_self)]
      exact ih fun e he => hnew e (List.mem_cons_of_mem _ he)
  refine ⟨h.of_same (by rw [hstep.regions]) (by rw [hstep.buffs]) hstep.cell hlive, ?_⟩
  rw [htrace]
  exact hledger.of_new hnew

section Owns

theorem RegionOwns.childStep
    (h : RegionOwns rep P b parent buff trace0 r st region chain mine)
    (hstep : ChildStep b buff.start st st') :
    RegionOwns rep P b parent buff trace0 r st' region chain mine := by
  obtain ⟨habove, hledger⟩ := hstep.above h.above h.ledger
  exact
    { above := habove
      ledger := hledger
      record := by rw [hstep.regions]; exact h.record
      ancestors := h.ancestors
      linked := ⟨by rw [hstep.buffs]; exact h.linked.head, h.linked.tail⟩
      nodup := h.nodup
      owned := h.owned
      start := by rw [hstep.buffs]; exact h.start }

/-- A call on the parent changes the ledger only. -/
theorem RegionOwns.parentStep
    (h : RegionOwns rep P b parent buff trace0 r st region chain mine) {mine' : List ℕ}
    (hsame : SameBut buff.start st st') (habove : OneBuff rep P b parent buff st')
    (hledger : Ledger b trace0 st'.trace mine') (howned : ∀ d ∈ r :: chain, d ∈ mine') :
    RegionOwns rep P b parent buff trace0 r st' region chain mine' where
  above := habove
  ledger := hledger
  record := by rw [hsame.regions]; exact h.record
  ancestors := h.ancestors
  linked := ⟨by rw [hsame.buffs]; exact h.linked.head, h.linked.tail⟩
  nodup := h.nodup
  owned := howned
  start := by rw [hsame.buffs]; exact h.start

theorem RegionOwns.path (h : RegionOwns rep P b parent buff trace0 r st region chain mine) :
    st.path r = r :: P :: parent.ancestors := by
  simp [Store.path, h.record, h.ancestors]

theorem RegionOwns.parent_eq (h : RegionOwns rep P b parent buff trace0 r st region chain mine) :
    region.parent = some P := by
  simp [Region.parent, h.ancestors]

variable (hsound : SoundOp (ops buff.allocType) head limit rep)
include hsound

/-- A block of the ledger is no record or descriptor of the parent, and a buffer in it does
not start where the parent's does. -/
theorem OneBuff.apart (h : OneBuff rep P b parent buff st)
    (hledger : Ledger b trace0 st.trace mine) {d : ℕ} (hd : d ∈ mine) :
    d ≠ P ∧ d ≠ b ∧ d + sizeofBuff ≠ buff.start ∧
      Word.wrap 64 (d + sizeofBuff) = d + sizeofBuff := by
  obtain ⟨h1, h2⟩ := h.mem_area hsound hledger hd
  have hrecord := h.layout.record
  have hdescr := h.layout.descr
  have hsmall := h.layout.small
  simp only [sizeofBuff]
  refine ⟨by omega, by omega, by omega, Word.wrap_of_lt (by omega)⟩

/-- The tail buffer of the region: its allocator is not that of the parent. -/
theorem RegionOwns.tail_apart (h : RegionOwns rep P b parent buff trace0 r st region chain mine)
    {d : ℕ} (hd : d ∈ chain) :
    ∃ data, st.buffs d = some data ∧ data.start ≠ buff.start ∧ d ≠ b := by
  obtain ⟨data, hdata, hstart⟩ := h.start d hd
  obtain ⟨-, hb, hne, -⟩ := h.above.apart hsound h.ledger (h.owned d (List.mem_cons_of_mem _ hd))
  exact ⟨data, hdata, by rw [hstart]; exact hne, hb⟩

theorem RegionOwns.setRegion
    (h : RegionOwns rep P b parent buff trace0 r st region chain mine) {region' : Region}
    (hancestors : region'.ancestors = region.ancestors) {chain' : List ℕ}
    (hlinked : Linked st region' chain') (hsub : chain'.Sublist chain) :
    RegionOwns rep P b parent buff trace0 r (st.setRegion r region') region' chain' mine := by
  have hr := h.above.apart hsound h.ledger (h.owned r List.mem_cons_self)
  have hmem : ∀ {d}, d ∈ chain' → d ∈ chain := fun hd => hsub.subset hd
  exact
    { above := h.above.of_same (Function.update_of_ne hr.1.symm _ _) rfl rfl rfl
      ledger := h.ledger.of_not_touches _ (fun hno => hno)
      record := Function.update_self ..
      ancestors := hancestors.trans h.ancestors
      linked := ⟨hlinked.head, hlinked.tail⟩
      nodup := (List.cons_sublist_cons.mpr hsub).nodup h.nodup
      owned := fun d hd => h.owned d (by
        cases List.mem_cons.mp hd with
        | inl heq => rw [heq]; exact List.mem_cons_self
        | inr hd => exact List.mem_cons_of_mem _ (hmem hd))
      start := fun d hd => h.start d (hmem hd) }

/-- A descriptor is written into a block that is not in the chain yet. -/
theorem RegionOwns.setBuff_fresh
    (h : RegionOwns rep P b parent buff trace0 r st region chain mine) {d : ℕ} (hd : d ∈ mine)
    (hnot : d ∉ chain) (data : Buff) :
    RegionOwns rep P b parent buff trace0 r (st.setBuff d data) region chain mine := by
  have hfresh : ∀ c ∈ chain, Function.update st.buffs d (some data) c = st.buffs c :=
    fun c hc => Function.update_of_ne (fun heq : c = d => hnot (heq ▸ hc)) _ _
  exact
    { above := h.above.of_same rfl
        (Function.update_of_ne (h.above.apart hsound h.ledger hd).2.1.symm _ _) rfl rfl
      ledger := h.ledger.of_not_touches _ (fun hno => hno)
      record := h.record
      ancestors := h.ancestors
      linked := ⟨h.linked.head.congr hfresh, h.linked.tail⟩
      nodup := h.nodup
      owned := h.owned
      start := fun c hc => by
        rw [Store.setBuff_buffs, hfresh c hc]
        exact h.start c hc }

/-- The new buffer joins the chain. -/
theorem RegionOwns.attach
    (h : RegionOwns rep P b parent buff trace0 r st region chain mine) {d : ℕ} {data : Buff}
    (hd : d ∈ mine) (hnot : d ∉ r :: chain) (hdata : st.buffs d = some data)
    (hstart : data.start = d + sizeofBuff) (hattach : AttachCases r d st st') :
    ∃ region', RegionOwns rep P b parent buff trace0 r st' region' (chain ++ [d]) mine := by
  have hchain : d ∉ chain := fun hmem => hnot (List.mem_cons_of_mem _ hmem)
  have hatt := hattach.attached h.record h.linked (List.nodup_cons.mp h.nodup).2 hchain
  obtain ⟨head', hregions, hlinked⟩ := hatt.region
  obtain ⟨new, htrace, hnew⟩ := hattach.trace
  have hr := h.above.apart hsound h.ledger (h.owned r List.mem_cons_self)
  have hb : b ∉ chain := fun hmem =>
    (h.above.apart hsound h.ledger (h.owned b (List.mem_cons_of_mem _ hmem))).2.1 rfl
  refine ⟨{ region with dataHead := head', dataTail := some d }, ?_, ?_,
    by rw [hregions]; exact Function.update_self .., h.ancestors, hlinked, ?_, ?_, ?_⟩
  · -- neither the record nor a descriptor that is written is the parent's
    refine h.above.of_same (by rw [hregions, Function.update_of_ne hr.1.symm]) ?_
      (by rw [hatt.cells]) (hatt.live b)
    exact hatt.frame b (h.above.apart hsound h.ledger hd).2.1.symm
      fun hlast => hb (List.mem_of_getLast? hlast)
  · rw [htrace]
    refine h.ledger.of_new fun event hevent => ?_
    obtain ⟨p, len, rfl⟩ := hnew event hevent
    exact fun hno => hno
  · rw [← List.cons_append]
    refine List.nodup_append'.mpr ⟨h.nodup, List.nodup_singleton d, ?_⟩
    simpa [List.disjoint_singleton] using hnot
  · intro c hc
    rw [← List.cons_append] at hc
    cases List.mem_append.mp hc with
    | inl hc => exact h.owned c hc
    | inr hc => rw [List.mem_singleton.mp hc]; exact hd
  · intro c hc
    cases List.mem_append.mp hc with
    | inl hc =>
      obtain ⟨data', hdata', hstart'⟩ := h.start c hc
      by_cases hlast : chain.getLast? = some c
      · exact ⟨_, hatt.last c data' hlast hdata', hstart'⟩
      · exact ⟨data', (hatt.frame c (fun heq => hchain (heq ▸ hc)) hlast).trans hdata', hstart'⟩
    | inr hc =>
      rw [List.mem_singleton.mp hc]
      exact ⟨_, hatt.data data hdata, hstart⟩

/-- A new buffer of the region: the parent issues its block, and takes it back when the
buffer cannot be set up. -/
theorem RegionOwns.allocBuff {size : ℕ} {d : Option ℕ}
    (h : RegionOwns rep P b parent buff trace0 r st region chain mine)
    (halloc : AllocBuffCases ops (shallocMalloc ops (P :: parent.ancestors)) r size st d st')
    (hcalm : Calm P limit parent st.trace st'.trace) :
    ∃ region', RegionOwns rep P b parent buff trace0 r st' region' chain (d.toList ++ mine) ∧
      ∀ c ∈ d, c ∉ r :: chain ∧
        ∃ data, st'.buffs c = some data ∧ data.start = c + sizeofBuff := by
  -- the parent issues a block that is none of the region's, and its descriptor is written
  have hissued : ∀ {m c st1 data}, shallocMalloc ops (P :: parent.ancestors) m st =
      some (some c, st1) → Calm P limit parent st.trace st1.trace →
      RegionOwns rep P b parent buff trace0 r (st1.setBuff c data) region chain (c :: mine) ∧
        c ∉ r :: chain := by
    intro m c st1 data hmalloc hcalm1
    obtain ⟨habove, hsame, hledger⟩ := h.above.malloc hsound h.ledger hmalloc hcalm1
    have hnot : c ∉ r :: chain := fun hmem =>
      (List.nodup_cons.mp hledger.nodup).1 (h.owned c hmem)
    have h1 := h.parentStep hsame habove hledger fun e he => List.mem_cons_of_mem _ (h.owned e he)
    exact ⟨h1.setBuff_fresh hsound List.mem_cons_self
      (fun hmem => hnot (List.mem_cons_of_mem _ hmem)) data, hnot⟩
  have hcreated : ∀ {c n : ℕ} {ret : ℤ} {region1 : Region} {st1 st2 : Store α},
      RegionOwns rep P b parent buff trace0 r (st1.setBuff c (Region.cloneBuff region1 c n))
        region chain (c :: mine) →
      (st1.setBuff c (Region.cloneBuff region1 c n)).opCreate ops c = some (ret, st2) →
      RegionOwns rep P b parent buff trace0 r st2 region chain (c :: mine) ∧
        ∃ data, st2.buffs c = some data ∧ data.start = c + sizeofBuff := by
    intro c n ret region1 st1 st2 h1 hcreate
    obtain ⟨-, hb, hne, hwrap⟩ := h1.above.apart hsound h1.ledger List.mem_cons_self
    have hstart : (Region.cloneBuff region1 c n).start = c + sizeofBuff := hwrap
    have hstep : ChildStep b buff.start _ st2 :=
      .opCreate (Function.update_self ..) (by rw [hstart]; exact hne) hb hcreate
    refine ⟨h1.childStep hstep, Region.cloneBuff region1 c n, ?_, hstart⟩
    rw [hstep.buffs]
    exact Function.update_self ..
  cases halloc with
  | refused _ _ hmalloc =>
    obtain ⟨habove, hsame, hledger⟩ := h.above.malloc hsound h.ledger hmalloc hcalm
    exact ⟨region, h.parentStep hsame habove hledger h.owned, by simp⟩
  | createFailed hregion hq hmalloc hregion1 hcreate hret hfree =>
    obtain rfl := Option.some.inj (h.record.symm.trans hregion)
    obtain rfl := Option.some.inj (h.parent_eq.symm.trans hq)
    have hext := ((Store.extends_setBuff _ _ _).trans (Store.extends_opCreate hcreate)).trans
      (shallocFree_cases hfree).extends
    obtain ⟨h1, -⟩ := hissued hmalloc (hcalm.left hext)
    obtain ⟨h2, -⟩ := hcreated h1 hcreate
    obtain ⟨habove, hsame, hledger⟩ := h2.above.free hsound h2.ledger List.mem_cons_self hfree
    rw [List.erase_cons_head] at hledger
    exact ⟨region, h2.parentStep hsame habove hledger h.owned, by simp⟩
  | built hregion hq hmalloc hregion1 hcreate hret =>
    obtain rfl := Option.some.inj (h.record.symm.trans hregion)
    have hext := (Store.extends_setBuff _ _ _).trans (Store.extends_opCreate hcreate)
    obtain ⟨h1, hnot⟩ := hissued hmalloc
      ((hcalm.left (Store.extends_setRegion _ _ _)).left hext)
    obtain ⟨h2, data, hdata, hstart⟩ := hcreated h1 hcreate
    obtain rfl := Option.some.inj (h1.record.symm.trans hregion1)
    have hlinked : Linked _ (region.setDefaultSize region.grownSize) chain :=
      ⟨h2.linked.head, h2.linked.tail⟩
    have hancestors : (region.setDefaultSize region.grownSize).ancestors = region.ancestors := rfl
    refine ⟨_, h2.setRegion hsound hancestors hlinked (List.Sublist.refl _), fun e he => ?_⟩
    obtain rfl := Option.some.inj he
    exact ⟨hnot, data, hdata, hstart⟩

/-- `shalloc_region_grow` keeps the invariant. -/
theorem Owns.grow {size : ℕ} {ret : ℤ} (h : Owns rep P b parent buff trace0 r st)
    (hgrow : GrowCases ops (shallocMalloc ops (P :: parent.ancestors)) r size st ret st')
    (hcalm : Calm P limit parent st.trace st'.trace) :
    Owns rep P b parent buff trace0 r st' := by
  obtain ⟨region, chain, mine, h, hempty⟩ := h
  cases hgrow with
  | fixed => exact ⟨region, chain, mine, h, hempty⟩
  | failed _ _ halloc =>
    obtain ⟨region', h', -⟩ := h.allocBuff hsound halloc hcalm
    exact ⟨region', chain, mine, h', hempty⟩
  | @grown _ d _ _ _ _ halloc hattach =>
    obtain ⟨region', h', hnew⟩ := h.allocBuff hsound halloc (hcalm.left hattach.extends)
    obtain ⟨hnot, data, hdata, hstart⟩ := hnew d rfl
    obtain ⟨region'', h''⟩ := h'.attach hsound List.mem_cons_self hnot hdata hstart hattach
    exact ⟨region'', chain ++ [d], d :: mine, h'', fun hnil => absurd hnil (by simp)⟩

/-- Asking a buffer of the region is a step on the child's side. -/
def AskSteps (b start : ℕ) (ask : ℕ → Store α → Option (Option ℕ × Store α)) : Prop :=
  AnswerExtends ask ∧ ∀ {st st' t p data}, st.buffs t = some data → data.start ≠ start → t ≠ b →
    ask t st = some (p, st') → ChildStep b start st st'

theorem Owns.ask {ask : ℕ → Store α → Option (Option ℕ × Store α)} {t : ℕ} {p : Option ℕ}
    (h : Owns rep P b parent buff trace0 r st) (hask : AskSteps b buff.start ask) {region : Region}
    (hregion : st.regions r = some region) (ht : region.dataTail = some t)
    (hcall : ask t st = some (p, st')) : Owns rep P b parent buff trace0 r st' := by
  obtain ⟨region', chain, mine, h, hempty⟩ := h
  obtain rfl := Option.some.inj (h.record.symm.trans hregion)
  obtain ⟨data, hdata, hstart, hb⟩ :=
    h.tail_apart hsound (h.linked.tail_mem ht)
  exact ⟨_, chain, mine, h.childStep (hask.2 hdata hstart hb hcall), hempty⟩

/-- The common body of `shalloc_malloc` and `shalloc_calloc` keeps the invariant. -/
theorem Owns.serve {ask : ℕ → Store α → Option (Option ℕ × Store α)} {size : ℕ} {p : Option ℕ}
    (h : Owns rep P b parent buff trace0 r st) (hask : AskSteps b buff.start ask)
    (hserve : ServeCases ops (shallocMalloc ops (P :: parent.ancestors)) ask r size st p st')
    (hcalm : Calm P limit parent st.trace st'.trace) :
    Owns rep P b parent buff trace0 r st' := by
  have hrefused : ∀ {st1}, TailRefuses ask r st st1 → Owns rep P b parent buff trace0 r st1 := by
    intro st1 hrefuses
    cases hrefuses with
    | empty => exact h
    | refused hregion ht hcall => exact h.ask hsound hask hregion ht hcall
  cases hserve with
  | served hregion ht hcall => exact h.ask hsound hask hregion ht hcall
  | notGrown hrefuses hgrow =>
    exact (hrefused hrefuses).grow hsound hgrow (hcalm.right (hrefuses.extends hask.1))
  | retried hrefuses hgrow hregion ht hcall =>
    have hcalm1 := hcalm.right (hrefuses.extends hask.1)
    exact ((hrefused hrefuses).grow hsound hgrow (hcalm1.left (hask.1 hcall))).ask hsound hask
      hregion ht hcall

omit hsound in
theorem Owns.log (h : Owns rep P b parent buff trace0 r st) (event : Event)
    (hevent : ¬ event.touches b) : Owns rep P b parent buff trace0 r (st.log event) := by
  obtain ⟨region, chain, mine, h, hempty⟩ := h
  exact ⟨region, chain, mine, h.childStep (.of_log hevent), hempty⟩

theorem Owns.malloc {n : ℕ} {p : Option ℕ} (h : Owns rep P b parent buff trace0 r st)
    (hcall : shallocMalloc ops (r :: P :: parent.ancestors) n st = some (p, st'))
    (hcalm : Calm P limit parent st.trace st'.trace) :
    Owns rep P b parent buff trace0 r st' := by
  have hlog := h.log (.request r n) (fun hno => hno)
  obtain ⟨-, -, rfl⟩ | ⟨-, hserve⟩ := shallocMalloc_cases hcall
  · exact hlog
  · exact hlog.serve hsound ⟨Store.extends_opMalloc,
      fun hdata hstart hb h => .opMalloc hdata hstart hb h⟩ hserve
      (hcalm.right (Store.extends_log _ _))

theorem Owns.calloc {nmemb size : ℕ} {p : Option ℕ} (h : Owns rep P b parent buff trace0 r st)
    (hcall : shallocCalloc ops (r :: P :: parent.ancestors) nmemb size st = some (p, st'))
    (hcalm : Calm P limit parent st.trace st'.trace) :
    Owns rep P b parent buff trace0 r st' := by
  have hlog := h.log (.request r (Word.wrap 64 (nmemb * size))) (fun hno => hno)
  obtain ⟨-, -, rfl⟩ | ⟨-, hserve⟩ := shallocCalloc_cases hcall
  · exact hlog
  · exact hlog.serve hsound ⟨Store.extends_opCalloc,
      fun hdata hstart hb h => .opCalloc hdata hstart hb h⟩ hserve
      (hcalm.right (Store.extends_log _ _))

/-- `shalloc_free` on the region asks at most its tail buffer, whatever the pointer. -/
theorem Owns.free {p : ℕ} (h : Owns rep P b parent buff trace0 r st)
    (hcall : shallocFree ops r p st = some st') : Owns rep P b parent buff trace0 r st' := by
  have hlog := h.log (.release r p) (fun hno => hno)
  cases shallocFree_cases hcall with
  | ignored => exact hlog
  | asked hregion ht _ _ hfree =>
    obtain ⟨region', chain, mine, h', hempty⟩ := hlog
    obtain rfl := Option.some.inj (h'.record.symm.trans hregion)
    obtain ⟨data, hdata, hstart, hb⟩ :=
      h'.tail_apart hsound (h'.linked.tail_mem ht)
    exact ⟨_, chain, mine, h'.childStep (.opFree hdata hstart hb hfree), hempty⟩

theorem Owns.orealloc {ptr p : Option ℕ} {size oldSize : ℕ}
    (h : Owns rep P b parent buff trace0 r st)
    (hcall : shallocOrealloc ops (r :: P :: parent.ancestors) ptr size oldSize st = some (p, st'))
    (hcalm : Calm P limit parent st.trace st'.trace) :
    Owns rep P b parent buff trace0 r st' := by
  cases shallocOrealloc_cases hcall with
  | fresh hmalloc => exact h.malloc hsound hmalloc hcalm
  | freed _ hfree => exact h.free hsound hfree
  | kept => exact h
  | refused _ hmalloc => exact h.malloc hsound hmalloc hcalm
  | moved _ hmalloc hfree =>
    have hext := (Store.extends_log _ _).trans (shallocFree_cases hfree).extends
    have h1 := h.malloc hsound hmalloc (hcalm.left hext)
    exact (h1.log (.copy _ _ _) (fun hno => hno)).free hsound hfree

/-- Freeing buffers of the region, given as blocks of the ledger: each leaves the ledger,
and nothing else does. -/
theorem OneBuff.freeBuffs (hparent : region.parent = some P) (ds : List ℕ) :
    ∀ {st mine}, OneBuff rep P b parent buff st → Ledger b trace0 st.trace mine →
      st.regions r = some region → ds.Nodup →
      (∀ d ∈ ds, d ∈ mine ∧ ∃ data, st.buffs d = some data ∧ data.start = d + sizeofBuff) →
      shallocRegionFreeBuffs ops r ds st = some st' →
      st'.regions = st.regions ∧ st'.buffs = st.buffs ∧ OneBuff rep P b parent buff st' ∧
        ∃ mine', Ledger b trace0 st'.trace mine' ∧ ∀ c ∈ mine, c ∉ ds → c ∈ mine' := by
  induction ds with
  | nil =>
    intro st mine h hledger _ _ _ hcall
    obtain rfl := Option.some.inj hcall
    exact ⟨rfl, rfl, h, mine, hledger, fun c hc _ => hc⟩
  | cons d ds ih =>
    intro st mine h hledger hregion hnodup hds hcall
    obtain ⟨hnot, hnodup⟩ := List.nodup_cons.mp hnodup
    simp only [shallocRegionFreeBuffs, bind, Option.bind_eq_some_iff] at hcall
    obtain ⟨st2, hfree, hrest⟩ := hcall
    obtain ⟨hd, data, hdata, hstart⟩ := hds d List.mem_cons_self
    obtain ⟨-, hb, hne, -⟩ := h.apart hsound hledger hd
    obtain ⟨st1, region', hdestroy, hregion', hfree⟩ := shallocRegionFreeBuff_cases hfree
    obtain rfl := Option.some.inj (hregion.symm.trans hregion')
    have hstep : ChildStep b buff.start st st1 :=
      .opDestroy hdata (by rw [hstart]; exact hne) hb hdestroy
    obtain ⟨h1, hledger1⟩ := hstep.above h hledger
    obtain ⟨hnone, -⟩ | ⟨q, hq, hfree⟩ := hfree
    · exact absurd (hparent.symm.trans hnone) (by simp)
    · -- the block of `d` goes back to the parent, and `d` leaves the ledger
      obtain rfl := Option.some.inj (hparent.symm.trans hq)
      obtain ⟨h2, hsame, hledger2⟩ := h1.free hsound hledger1 hd hfree
      have hregions : st2.regions = st.regions := hsame.regions.trans hstep.regions
      have hbuffs : st2.buffs = st.buffs := hsame.buffs.trans hstep.buffs
      obtain ⟨hregions', hbuffs', h', mine', hledger', hkept⟩ :=
        ih h2 hledger2 (by rw [hregions]; exact hregion) hnodup
          (fun e he => by
            obtain ⟨hmem, hdata⟩ := hds e (List.mem_cons_of_mem _ he)
            have hed : e ≠ d := fun heq => hnot (heq ▸ he)
            exact ⟨(List.mem_erase_of_ne hed).mpr hmem, by rw [hbuffs]; exact hdata⟩)
          hrest
      refine ⟨hregions'.trans hregions, hbuffs'.trans hbuffs, h', mine', hledger',
        fun c hc hcd => ?_⟩
      have hne : c ≠ d := fun heq => hcd (heq ▸ List.mem_cons_self)
      exact hkept c ((List.mem_erase_of_ne hne).mpr hc) fun hmem =>
        hcd (List.mem_cons_of_mem _ hmem)

/-- The reset of a region keeps the invariant, and the first buffer if there is one. -/
theorem RegionOwns.reset {fuel : ℕ}
    (h : RegionOwns rep P b parent buff trace0 r st region chain mine)
    (hempty : chain = [] → mine = [r]) (hcall : shallocRegionReset ops fuel r st = some st') :
    ∃ region' mine', RegionOwns rep P b parent buff trace0 r st' region' chain.head?.toList mine' ∧
      (chain = [] → mine' = [r]) := by
  cases chain with
  | nil =>
    have hhead : region.dataHead = none := h.linked.head
    simp only [shallocRegionReset, regionBuffIter, h.record, hhead, Option.isSome_none,
      Option.bind_eq_bind, Option.bind_some, Bool.false_eq_true, if_false,
      Option.some.injEq] at hcall
    subst hcall
    exact ⟨region, mine, h, hempty⟩
  | cons d bs =>
    obtain ⟨hr, hnodup⟩ := List.nodup_cons.mp h.nodup
    rw [shallocRegionReset_eq h.record h.linked hnodup] at hcall
    split at hcall
    · obtain ⟨st1, hfree, hreset⟩ := Option.bind_eq_some_iff.mp hcall
      have hsub : bs.dropLast.Sublist bs := List.dropLast_sublist bs
      obtain ⟨hregions, hbuffs, habove, mine', hledger, hkept⟩ :=
        h.above.freeBuffs hsound h.parent_eq bs.dropLast h.ledger h.record
          (hsub.nodup (List.nodup_cons.mp hnodup).2)
          (fun e he => by
            have hmem : e ∈ d :: bs := List.mem_cons_of_mem _ (hsub.subset he)
            exact ⟨h.owned e (List.mem_cons_of_mem _ hmem), h.start e hmem⟩)
          hfree
      obtain ⟨hhead, data, hdata, -⟩ := h.linked.head
      obtain ⟨data', hdata', hstart⟩ := h.start d List.mem_cons_self
      obtain rfl := Option.some.inj (hdata.symm.trans hdata')
      have hdmine : d ∈ mine' :=
        hkept d (h.owned d (List.mem_cons_of_mem _ List.mem_cons_self))
          fun hmem => (List.nodup_cons.mp hnodup).1 (hsub.subset hmem)
      have hrmine : r ∈ mine' := hkept r (h.owned r List.mem_cons_self)
        fun hmem => hr (List.mem_cons_of_mem _ (hsub.subset hmem))
      -- the first buffer is set up anew
      have hrecord1 : st1.regions r = some region := by rw [hregions]; exact h.record
      obtain ⟨st2, ret, st3', data3, hdestroy, hcreate, -, hdata3, rfl⟩ :=
        shallocRegionResetHead_made hrecord1 hhead hreset
      obtain ⟨-, hb, hne, -⟩ := habove.apart hsound hledger hdmine
      have hstep1 : ChildStep b buff.start st1 st2 :=
        .opDestroy (by rw [hbuffs]; exact hdata) (by rw [hstart]; exact hne) hb hdestroy
      have hstep : ChildStep b buff.start st1 st3' := hstep1.trans
        (.opCreate (by rw [hstep1.buffs, hbuffs]; exact hdata)
          (by rw [hstart]; exact hne) hb hcreate)
      rw [hstep.buffs, hbuffs, hdata] at hdata3
      obtain rfl := Option.some.inj hdata3
      obtain ⟨habove', hledger'⟩ := hstep.above habove hledger
      obtain ⟨hP, -⟩ := habove.apart hsound hledger hrmine
      refine ⟨{ region with dataHead := some d, dataTail := some d }, mine', ?_,
        fun hnil => absurd hnil (by simp)⟩
      exact
        { above := habove'.of_same (Function.update_of_ne hP.symm _ _)
            (Function.update_of_ne hb.symm _ _) rfl rfl
          ledger := (hledger'.of_not_touches (.store d sizeofBuff)
            (fun hno => hno)).of_not_touches (.store r sizeofRegion) (fun hno => hno)
          record := Function.update_self ..
          ancestors := h.ancestors
          linked := ⟨⟨rfl, _, Function.update_self .., rfl⟩, rfl⟩
          nodup := List.nodup_cons.mpr ⟨fun hmem => hr (by
            rw [List.mem_singleton.mp hmem]
            exact List.mem_cons_self), List.nodup_singleton d⟩
          owned := fun e he => by
            cases List.mem_cons.mp he with
            | inl heq => rw [heq]; exact hrmine
            | inr he => rw [List.mem_singleton.mp he]; exact hdmine
          start := fun e he => by
            rw [List.mem_singleton.mp he]
            exact ⟨_, Function.update_self .., hstart⟩ }
    · exact absurd hcall (by simp)

/-- After the region is destroyed the ledger is empty exactly when it had no buffer. -/
theorem Owns.destroy {fuel : ℕ} {heap : Option ℕ} (h : Owns rep P b parent buff trace0 r st)
    (hcall : shallocRegionDestroy ops fuel r st = some (heap, st')) :
    ∃ region mine, st.regions r = some region ∧ Ledger b trace0 st'.trace mine ∧
      (mine = [] ↔ region.dataHead = none) := by
  obtain ⟨region, chain, mine, h, hempty⟩ := h
  simp only [shallocRegionDestroy, bind, Option.bind_eq_some_iff] at hcall
  obtain ⟨st1, hreset, region1, hregion1, hcall⟩ := hcall
  obtain ⟨region', mine', h', hempty'⟩ := h.reset hsound hempty hreset
  obtain rfl := Option.some.inj (h'.record.symm.trans hregion1)
  simp only [h'.parent_eq, Option.bind_eq_some_iff, Option.some.injEq, Prod.mk.injEq] at hcall
  obtain ⟨st2, hfree, -, -, -, rfl⟩ := hcall
  obtain ⟨-, -, hledger⟩ := h'.above.free hsound h'.ledger (h'.owned r List.mem_cons_self) hfree
  refine ⟨region, mine'.erase r, h.record, hledger, ?_⟩
  cases chain with
  | nil =>
    rw [hempty' rfl]
    simpa using (show region.dataHead = none from h.linked.head)
  | cons d bs =>
    -- the first buffer stays in the ledger
    have hd : d ∈ mine'.erase r := by
      refine (List.mem_erase_of_ne ?_).mpr
        (h'.owned d (List.mem_cons_of_mem _ (by simp [List.head?])))
      rintro rfl
      exact (List.nodup_cons.mp h.nodup).1 List.mem_cons_self
    constructor
    · intro hnil
      rw [hnil] at hd
      exact absurd hd List.not_mem_nil
    · intro hnone
      exact absurd (h.linked.head.1.symm.trans hnone) (by simp)

/-- A region that `shalloc_region_create` returns owns its record, and the buffer it was
created with. -/
theorem OneBuff.create {initSize buffSize blockSize flags : ℕ} {type : BuffAllocType}
    (h : OneBuff rep P b parent buff st)
    (hcall : shallocRegionCreate ops (P :: parent.ancestors) initSize buffSize blockSize flags type
      st = some (some r, st')) (hcalm : Calm P limit parent st.trace st'.trace) :
    Owns rep P b parent buff st.trace r st' := by
  -- the record is the first block of the ledger
  have hrecord : ∀ {st1}, shallocMalloc ops (P :: parent.ancestors) sizeofRegion st =
      some (some r, st1) → Calm P limit parent st.trace st1.trace →
      Owns rep P b parent buff st.trace r (st1.setRegion r
        (shallocGetRegion (P :: parent.ancestors) buffSize blockSize flags type)) := by
    intro st1 hmalloc hcalm1
    obtain ⟨habove, -, hledger⟩ := h.malloc hsound (.start b st.trace) hmalloc hcalm1
    obtain ⟨hP, -⟩ := habove.apart hsound hledger List.mem_cons_self
    refine ⟨shallocGetRegion (P :: parent.ancestors) buffSize blockSize flags type, [], [r], ?_,
      fun _ => rfl⟩
    exact
      { above := habove.of_same (Function.update_of_ne hP.symm _ _) rfl rfl rfl
        ledger := hledger.of_not_touches (.store r sizeofRegion) (fun hno => hno)
        record := Function.update_self ..
        ancestors := rfl
        linked := ⟨rfl, rfl⟩
        nodup := List.nodup_singleton r
        owned := fun d hd => hd
        start := fun d hd => absurd hd List.not_mem_nil }
  cases shallocRegionCreate_cases hcall with
  | empty hmalloc => exact hrecord hmalloc (hcalm.left (Store.extends_setRegion _ _ _))
  | grown hmalloc _ hgrow =>
    have hext := hgrow.extends (shallocMalloc_extends _)
    exact (hrecord hmalloc ((hcalm.left hext).left (Store.extends_setRegion _ _ _))).grow hsound
      hgrow (hcalm.right ((shallocMalloc_extends _ hmalloc).trans (Store.extends_setRegion _ _ _)))

end Owns

/-- One call on region `r`. Pointers and old sizes are whatever the caller passes. -/
inductive RegionCall (ops : BuffAllocType → BuffOp α) (r : ℕ) (st : Store α) : Store α → Prop
  | malloc {n : ℕ} {p : Option ℕ} {st' : Store α} :
      shallocMalloc ops (st.path r) n st = some (p, st') → RegionCall ops r st st'
  | calloc {nmemb size : ℕ} {p : Option ℕ} {st' : Store α} :
      shallocCalloc ops (st.path r) nmemb size st = some (p, st') → RegionCall ops r st st'
  | orealloc {ptr p : Option ℕ} {size oldSize : ℕ} {st' : Store α} :
      shallocOrealloc ops (st.path r) ptr size oldSize st = some (p, st') → RegionCall ops r st st'
  | free {p : ℕ} {st' : Store α} : shallocFree ops r p st = some st' → RegionCall ops r st st'
  | reset {fuel : ℕ} {st' : Store α} : shallocRegionReset ops fuel r st = some st' →
      RegionCall ops r st st'

/-- Calls on region `r`, one after another. -/
inductive RegionRun (ops : BuffAllocType → BuffOp α) (r : ℕ) (st : Store α) : Store α → Prop
  | refl : RegionRun ops r st st
  | step {st' st'' : Store α} : RegionRun ops r st st' → RegionCall ops r st' st'' →
      RegionRun ops r st st''

theorem RegionCall.extends (h : RegionCall ops r st st') : st.Extends st' := by
  cases h with
  | malloc hcall => exact shallocMalloc_extends _ hcall
  | calloc hcall => exact shallocCalloc_extends hcall
  | orealloc hcall => exact shallocOrealloc_extends hcall
  | free hcall => exact (shallocFree_cases hcall).extends
  | reset hcall => exact shallocRegionReset_extends hcall

theorem RegionRun.extends (run : RegionRun ops r st st') : st.Extends st' := by
  induction run with
  | refl => exact .refl _
  | step _ hcall ih => exact ih.trans hcall.extends

section Run

variable (hsound : SoundOp (ops buff.allocType) head limit rep)
include hsound

/-- Every call on the region keeps the invariant. -/
theorem RegionCall.owns (hcall : RegionCall ops r st st')
    (h : Owns rep P b parent buff trace0 r st) (hcalm : Calm P limit parent st.trace st'.trace) :
    Owns rep P b parent buff trace0 r st' := by
  have hpath : st.path r = r :: P :: parent.ancestors := by
    obtain ⟨region, chain, mine, h, -⟩ := h
    exact h.path
  cases hcall with
  | malloc hcall => rw [hpath] at hcall; exact h.malloc hsound hcall hcalm
  | calloc hcall => rw [hpath] at hcall; exact h.calloc hsound hcall hcalm
  | orealloc hcall => rw [hpath] at hcall; exact h.orealloc hsound hcall hcalm
  | free hcall => exact h.free hsound hcall
  | reset hcall =>
    obtain ⟨region, chain, mine, h, hempty⟩ := h
    obtain ⟨region', mine', h', hempty'⟩ := h.reset hsound hempty hcall
    refine ⟨region', _, mine', h', fun hnil => hempty' ?_⟩
    cases chain with
    | nil => rfl
    | cons d bs => exact absurd hnil (by simp)

/-- Every run of calls on the region keeps the invariant. -/
theorem RegionRun.owns (run : RegionRun ops r st st') (h : Owns rep P b parent buff trace0 r st)
    (hcalm : Calm P limit parent st.trace st'.trace) :
    Owns rep P b parent buff trace0 r st' := by
  induction run with
  | refl => exact h
  | step hrun hcall ih =>
    exact hcall.owns hsound (ih (hcalm.left hcall.extends)) (hcalm.right hrun.extends)

end Run

/-- **What a destroyed region gives back.** Below a parent that keeps its one buffer and
whose allocator is sound, a region that is created, used in any way and destroyed has given
back everything exactly when it has no buffer at the moment it is destroyed. -/
theorem region_givesBack_iff {st1 st2 st3 : Store α} {fuel : ℕ} {heap : Option ℕ}
    {initSize buffSize blockSize flags : ℕ} {type : BuffAllocType}
    (hsound : SoundOp (ops buff.allocType) head limit rep)
    (hparent : OneBuff rep P b parent buff st)
    (hcreate : shallocRegionCreate ops (st.path P) initSize buffSize blockSize flags type st =
      some (some r, st1))
    (hrun : RegionRun ops r st1 st2)
    (hdestroy : shallocRegionDestroy ops fuel r st2 = some (heap, st3))
    (hcalm : Calm P limit parent st.trace st3.trace) :
    GivesBack b st.trace st3.trace ↔
      ∃ region, st2.regions r = some region ∧ region.dataHead = none := by
  have hpath : st.path P = P :: parent.ancestors := by simp [Store.path, hparent.region]
  rw [hpath] at hcreate
  have hcalm2 := hcalm.left (shallocRegionDestroy_extends hdestroy)
  have hext1 := (shallocRegionCreate_cases hcreate).extends
  have h1 := hparent.create hsound hcreate (hcalm2.left hrun.extends)
  have h2 := hrun.owns hsound h1 (hcalm2.right hext1)
  obtain ⟨region, mine, hregion, hledger, hmine⟩ := h2.destroy hsound hdestroy
  rw [hledger.givesBack_iff, hmine]
  constructor
  · exact fun hnone => ⟨region, hregion, hnone⟩
  · rintro ⟨region', hregion', hnone⟩
    obtain rfl := Option.some.inj (hregion.symm.trans hregion')
    exact hnone

/-- An allocator that puts a block at an offset that only depends on its size, if no block
in use is in the way, and that takes every block back. -/
def placedOp (offset : ℕ → ℕ) : BuffOp (List Extent) where
  create _ _ := some (0, [])
  destroy _ live := some live
  malloc buff n live :=
    if 8 ∣ buff.start + offset n ∧ offset n + n ≤ buff.size ∧
        ∀ e ∈ live, Extent.Disjoint ⟨buff.start + offset n, n⟩ e then
      some (some (buff.start + offset n), ⟨buff.start + offset n, n⟩ :: live)
    else some (none, live)
  free _ p live := some (releaseBlock p live)

/-- The state of `placedOp` is the list of the blocks in use. -/
def PlacedRep (buff : Buff) (blocks : List Extent) (a : AllocState (List Extent)) : Prop :=
  a = .other blocks ∧
    ∀ e ∈ blocks, Extent.Within e ⟨buff.start, buff.size⟩ ∧ 8 ∣ e.ptr ∧ 0 < e.len

theorem placedOp_sound (offset : ℕ → ℕ) (limit : ℕ) :
    SoundOp (otherOp (placedOp offset)) 0 limit PlacedRep where
  issued h e he := by
    obtain ⟨hwithin, halign, hpos⟩ := h.2 e he
    exact ⟨by simpa using hwithin, halign, hpos⟩
  served := by
    rintro buff blocks a n p a' ⟨rfl, hblocks⟩ hpos - hcall
    simp only [otherOp, placedOp, bind, Option.bind_eq_some_iff, Prod.exists] at hcall
    obtain ⟨p', live, hplace, hcall⟩ := hcall
    obtain ⟨rfl, rfl⟩ := Prod.mk.inj (Option.some.inj hcall)
    split at hplace
    · next hfree =>
      obtain ⟨halign, hfit, hapart⟩ := hfree
      obtain ⟨hp, rfl⟩ := Prod.mk.inj (Option.some.inj hplace)
      obtain rfl := Option.some.inj hp
      refine ⟨⟨rfl, fun e he => ?_⟩, hapart⟩
      cases List.mem_cons.mp he with
      | inl heq =>
        rw [heq]
        exact ⟨⟨Nat.le_add_right _ _, by simp only; omega⟩, halign, hpos⟩
      | inr he => exact hblocks e he
    · exact absurd (Prod.mk.inj (Option.some.inj hplace)).1 (by simp)
  refused := by
    rintro buff blocks a n a' ⟨rfl, hblocks⟩ - - hcall
    simp only [otherOp, placedOp, bind, Option.bind_eq_some_iff, Prod.exists] at hcall
    obtain ⟨p', live, hplace, hcall⟩ := hcall
    obtain ⟨rfl, rfl⟩ := Prod.mk.inj (Option.some.inj hcall)
    split at hplace
    · exact absurd (Prod.mk.inj (Option.some.inj hplace)).1 (by simp)
    · obtain ⟨-, rfl⟩ := Prod.mk.inj (Option.some.inj hplace)
      exact ⟨rfl, hblocks⟩
  freed := by
    rintro buff blocks a e a' ⟨rfl, hblocks⟩ - hcall
    simp only [otherOp, placedOp, Option.map_some, Option.some.injEq] at hcall
    exact ⟨hcall.symm, fun e' he' => hblocks e' (mem_releaseBlock.mp he').1⟩

/-- Where the allocator of type MPLITE puts the first blocks in a fresh heap of 64 KiB: its
216 bytes are followed by 1004 atoms of 64 bytes, in chunks of 512, 256, 128, 64, 32, 8 and
4 atoms. A block of up to 128 bytes is split off the last chunk, and one of more than 4096
and up to 8192 bytes takes the chunk of 128 atoms. -/
def mpliteOffset (n : ℕ) : ℕ := 216 + 64 * if n ≤ 128 then 1000 else 768

/-- The allocators with that heap allocator. -/
def heapOps : BuffAllocType → BuffOp (AllocState (List Extent)) :=
  shallocSpaceBuffOps fun _ => placedOp mpliteOffset

/-- The buffer of a heap of 64 KiB at address 8192. -/
def heapBuff : Buff := ⟨8192, 73727, 65536, 65536, 0, none, .mplite⟩

/-- The region of the heap, whose record is at address 4096. -/
def heapRegion : Region where
  dataHead := some 4112
  dataTail := some 4112
  defaultData := heapBuff
  flags := 3
  ancestors := []

/-- The heap with no block in use. -/
def heapStore : Store (AllocState (List Extent)) where
  regions r := if r = 4096 then some heapRegion else none
  buffs b := if b = 4112 then some heapBuff else none
  cells _ := .other []
  trace := []

theorem heapStore_oneBuff : OneBuff PlacedRep 4096 4112 heapRegion heapBuff heapStore where
  layout := ⟨rfl, rfl, rfl, by decide, Or.inl (by decide), Or.inl (by decide)⟩
  region := rfl
  descr := rfl
  rep := ⟨rfl, fun _ he => absurd he List.not_mem_nil⟩

/-- A heap has no parent to ask. -/
theorem heapRegion_calm {trace : List Event} (h : ∀ event ∈ trace, event.requested < 2 ^ 64) :
    Calm 4096 (2 ^ 64) heapRegion [] trace := by
  rintro new rfl event hevent
  refine ⟨fun m heq => ?_, fun q m hq => absurd hq (by simp [heapRegion, Region.parent])⟩
  have hlt := h event (List.mem_append_left _ hevent)
  rw [heq] at hlt
  exact hlt

/-- A region whose one request is refused, and which has a pointer freed and is reset, gives its
record back. -/
theorem region_givesBack_record : ∃ st1 st2 st3 st4 st5,
    shallocRegionCreate heapOps (heapStore.path 4096) 0 0 0 0 .nofree heapStore =
      some (some 72408, st1) ∧
    shallocMalloc heapOps (st1.path 72408) 40000 st1 = some (none, st2) ∧
    shallocFree heapOps 72408 72416 st2 = some st3 ∧
    shallocRegionReset heapOps 1 72408 st3 = some st4 ∧
    shallocRegionDestroy heapOps 1 72408 st4 = some (none, st5) ∧
    GivesBack 4112 heapStore.trace st5.trace := by
  have hcalls : (do
      let (r, st1) ← shallocRegionCreate heapOps (heapStore.path 4096) 0 0 0 0 .nofree heapStore
      let (p, st2) ← shallocMalloc heapOps (st1.path 72408) 40000 st1
      let st3 ← shallocFree heapOps 72408 72416 st2
      let st4 ← shallocRegionReset heapOps 1 72408 st3
      let (heap, st5) ← shallocRegionDestroy heapOps 1 72408 st4
      let head ← (st4.regions 72408).map Region.dataHead
      some ((r, p, heap), head, decide (∀ event ∈ st5.trace, event.requested < 2 ^ 64))) =
      some ((some 72408, none, none), none, true) := by decide +kernel
  simp only [bind, Option.bind_eq_some_iff, Option.map_eq_some_iff, Prod.exists,
    Option.some.injEq, Prod.mk.injEq, decide_eq_true_eq] at hcalls
  obtain ⟨_, st1, hcreate, _, st2, hmalloc, st3, hfree, st4, hreset, _, st5, hdestroy, head,
    ⟨region, hregion, hhead⟩, ⟨rfl, rfl, rfl⟩, rfl, hsmall⟩ := hcalls
  have run : RegionRun heapOps 72408 st1 st4 :=
    ((RegionRun.refl.step (.malloc hmalloc)).step (.free hfree)).step (.reset hreset)
  exact ⟨st1, st2, st3, st4, st5, hcreate, hmalloc, hfree, hreset, hdestroy,
    (region_givesBack_iff (placedOp_sound mpliteOffset (2 ^ 64)) heapStore_oneBuff hcreate run
      hdestroy (heapRegion_calm hsmall)).mpr ⟨region, hregion, hhead⟩⟩

/-- A region created with a buffer and destroyed at once: the buffer stays in use. -/
theorem region_not_givesBack :
    ¬ ∀ (ops : BuffAllocType → BuffOp (AllocState (List Extent)))
      (rep : Buff → List Extent → AllocState (List Extent) → Prop) (parent : Region) (buff : Buff)
      (head limit P b r fuel initSize buffSize blockSize flags : ℕ) (type : BuffAllocType)
      (heap : Option ℕ) (st st1 st2 st3 : Store (AllocState (List Extent))),
      SoundOp (ops buff.allocType) head limit rep → OneBuff rep P b parent buff st →
      shallocRegionCreate ops (st.path P) initSize buffSize blockSize flags type st =
        some (some r, st1) →
      RegionRun ops r st1 st2 → shallocRegionDestroy ops fuel r st2 = some (heap, st3) →
      Calm P limit parent st.trace st3.trace → GivesBack b st.trace st3.trace := by
  intro h
  obtain ⟨st1, st3, hcreate, hdestroy, hsmall, hlive⟩ : ∃ st1 st3,
      shallocRegionCreate heapOps (heapStore.path 4096) 1 0 0 0 .nofree heapStore =
        some (some 72408, st1) ∧
      shallocRegionDestroy heapOps 2 72408 st1 = some (none, st3) ∧
      (∀ event ∈ st3.trace, event.requested < 2 ^ 64) ∧
      liveBlocks 4112 st3.trace = [⟨57560, 4160⟩] := ⟨_, _, rfl, rfl, by decide, by decide⟩
  have hback := h heapOps PlacedRep heapRegion heapBuff 0 (2 ^ 64) 4096 4112 72408 2 1 0 0 0 .nofree
    none heapStore st1 st1 st3 (placedOp_sound mpliteOffset (2 ^ 64)) heapStore_oneBuff hcreate
    .refl hdestroy (heapRegion_calm hsmall)
  have hmem := (hback.1 ⟨57560, 4160⟩).mp (by rw [hlive]; exact List.mem_cons_self)
  exact absurd hmem List.not_mem_nil

end Shalloc
