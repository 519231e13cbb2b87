import Shalloc.Region.Allocator
import Shalloc.Region.Cases

/-!
# Chains of buffers

The buffers of a region as the list that `next` threads from `data_head`, and how
`shalloc_region_grow` extends it.

## Main definitions

- `ChainFrom` — the list of descriptors that a pointer leads to
- `Linked` — the chain and the tail of a region
-/

namespace Shalloc

/-- Following `next` from a pointer visits the descriptors of the list and ends in NULL. -/
def ChainFrom (buffs : ℕ → Option Buff) : Option ℕ → List ℕ → Prop
  | head, [] => head = none
  | head, b :: bs => head = some b ∧ ∃ buff, buffs b = some buff ∧ ChainFrom buffs buff.next bs

section ChainFrom

variable {buffs buffs' : ℕ → Option Buff} {bs : List ℕ}

/-- A chain only depends on its own descriptors. -/
theorem ChainFrom.congr (hsame : ∀ b ∈ bs, buffs' b = buffs b) :
    ∀ {head}, ChainFrom buffs head bs → ChainFrom buffs' head bs := by
  induction bs with
  | nil => exact fun h => h
  | cons b bs ih =>
    rintro head ⟨hhead, buff, hbuff, hrest⟩
    refine ⟨hhead, buff, ?_, ih (fun c hc => hsame c (List.mem_cons_of_mem _ hc)) hrest⟩
    rw [hsame b List.mem_cons_self, hbuff]

theorem ChainFrom.exists_buff : ∀ {head}, ChainFrom buffs head bs →
    ∀ b ∈ bs, ∃ buff, buffs b = some buff := by
  induction bs with
  | nil => exact fun _ b hb => absurd hb (by simp)
  | cons c bs ih =>
    rintro head ⟨-, buff, hbuff, hrest⟩ b hb
    cases List.mem_cons.mp hb with
    | inl heq => subst heq; exact ⟨buff, hbuff⟩
    | inr hb => exact ih hrest b hb

/-- A pointer leads to one list only. -/
theorem ChainFrom.unique : ∀ {head bs'}, ChainFrom buffs head bs → ChainFrom buffs head bs' →
    bs = bs' := by
  induction bs with
  | nil =>
    rintro head (_ | ⟨c, bs'⟩) h h'
    · rfl
    · exact absurd (h.symm.trans h'.1) (by simp)
  | cons b bs ih =>
    rintro head (_ | ⟨c, bs'⟩) ⟨hhead, buff, hbuff, hrest⟩ h'
    · exact absurd (hhead.symm.trans h') (by simp)
    · obtain ⟨hhead', buff', hbuff', hrest'⟩ := h'
      obtain rfl := Option.some.inj (hhead.symm.trans hhead')
      obtain rfl := Option.some.inj (hbuff.symm.trans hbuff')
      rw [ih hrest hrest']

/-- The last descriptor of a chain has no successor. -/
theorem ChainFrom.last {t : ℕ} : ∀ {head}, ChainFrom buffs head bs → bs.getLast? = some t →
    ∃ buff, buffs t = some buff ∧ buff.next = none := by
  induction bs with
  | nil => exact fun _ hlast => absurd hlast (by simp)
  | cons b bs ih =>
    rintro head ⟨-, buff, hbuff, hrest⟩ hlast
    cases bs with
    | nil =>
      obtain rfl : b = t := by simpa using hlast
      exact ⟨buff, hbuff, hrest⟩
    | cons c bs => exact ih hrest (by simpa using hlast)

/-- The chain of one descriptor. -/
theorem chainFrom_singleton {d : ℕ} {data : Buff} (hdata : buffs d = some data)
    (hnext : data.next = none) : ChainFrom buffs (some d) [d] :=
  ⟨rfl, data, hdata, hnext⟩

/-- Linking a new descriptor after the last one extends the chain by it. -/
theorem ChainFrom.snoc {t d : ℕ} {data : Buff} (hnew : buffs' d = some data)
    (hnext : data.next = none)
    (htail : ∀ buff, buffs t = some buff → buffs' t = some { buff with next := some d }) :
    ∀ {head}, bs.Nodup → (∀ b ∈ bs, b ≠ t → buffs' b = buffs b) → bs.getLast? = some t →
      ChainFrom buffs head bs → ChainFrom buffs' head (bs ++ [d]) := by
  induction bs with
  | nil => exact fun _ _ hlast => absurd hlast (by simp)
  | cons b bs ih =>
    rintro head hnodup hsame hlast ⟨hhead, buff, hbuff, hrest⟩
    cases bs with
    | nil =>
      obtain rfl : b = t := by simpa using hlast
      exact ⟨hhead, _, htail buff hbuff, chainFrom_singleton hnew hnext⟩
    | cons c bs =>
      have hlast' : (c :: bs).getLast? = some t := by simpa using hlast
      have hne : b ≠ t := by
        rintro rfl
        exact (List.nodup_cons.mp hnodup).1 (List.mem_of_getLast? hlast')
      refine ⟨hhead, buff, ?_, ih (List.nodup_cons.mp hnodup).2
        (fun x hx => hsame x (List.mem_cons_of_mem _ hx)) hlast' hrest⟩
      rw [hsame b List.mem_cons_self hne, hbuff]

end ChainFrom

/-- The chain of a region runs from its head, and its tail is the last descriptor. -/
structure Linked {α : Type} (st : Store α) (region : Region) (bs : List ℕ) : Prop where
  head : ChainFrom st.buffs region.dataHead bs
  tail : region.dataTail = bs.getLast?

theorem Linked.head_mem {α : Type} {st : Store α} {region : Region} {bs : List ℕ} {d : ℕ}
    (h : Linked st region bs) (hd : region.dataHead = some d) : d ∈ bs := by
  have hhead := h.head
  rw [hd] at hhead
  cases bs with
  | nil => exact absurd hhead (by simp [ChainFrom])
  | cons b bs =>
    obtain rfl := Option.some.inj hhead.1
    exact List.mem_cons_self

theorem Linked.tail_mem {α : Type} {st : Store α} {region : Region} {bs : List ℕ} {t : ℕ}
    (h : Linked st region bs) (ht : region.dataTail = some t) : t ∈ bs :=
  List.mem_of_getLast? (h.tail.symm.trans ht)

section Attach

variable {α : Type} {st st' : Store α} {r d : ℕ} {region : Region} {bs : List ℕ}

/-- What `shalloc_region_grow` writes when it attaches a buffer to a region with chain
`bs`: the record of the region, the last descriptor and the new one. -/
structure Attached (r d : ℕ) (region : Region) (bs : List ℕ) (st st' : Store α) : Prop where
  region : ∃ head, st'.regions = Function.update st.regions r
    (some { region with dataHead := head, dataTail := some d }) ∧
    Linked st' { region with dataHead := head, dataTail := some d } (bs ++ [d])
  data : ∀ data, st.buffs d = some data → st'.buffs d = some { data with next := none }
  last : ∀ t buff, bs.getLast? = some t → st.buffs t = some buff →
    st'.buffs t = some { buff with next := some d }
  frame : ∀ b, b ≠ d → bs.getLast? ≠ some b → st'.buffs b = st.buffs b
  cells : st'.cells = st.cells
  live : ∀ b, liveBlocks b st'.trace = liveBlocks b st.trace

/-- Attaching a buffer only writes records. -/
theorem AttachCases.trace (h : AttachCases r d st st') :
    ∃ new, st'.trace = new ++ st.trace ∧ ∀ event ∈ new, ∃ p len, event = .store p len := by
  cases h with
  | first => exact ⟨[.store d sizeofBuff, .store r sizeofRegion], rfl, by simp⟩
  | @last region t =>
    exact ⟨[.store d sizeofBuff, .store r sizeofRegion, .store t sizeofBuff], rfl, by simp⟩

/-- The buffer that a region has grown by is its tail. -/
theorem AttachCases.tail {t : ℕ} (h : AttachCases r d st st')
    (hregion : st'.regions r = some region) (htail : region.dataTail = some t) : t = d := by
  cases h with
  | first =>
    simp only [Store.setBuff_regions, Store.setRegion_regions, Function.update_self] at hregion
    obtain rfl := Option.some.inj hregion
    exact (Option.some.inj htail).symm
  | last =>
    simp only [Store.setBuff_regions, Store.setRegion_regions, Function.update_self] at hregion
    obtain rfl := Option.some.inj hregion
    exact (Option.some.inj htail).symm

/-- The new buffer is the tail, with its descriptor as it was but for the link, and no
allocator is called. -/
theorem AttachCases.buff {data : Buff} (h : AttachCases r d st st')
    (hdata : st.buffs d = some data) :
    (∃ region, st'.regions r = some region ∧ region.dataTail = some d) ∧
      st'.buffs d = some { data with next := none } ∧ st'.cells = st.cells := by
  cases h with
  | first _ _ _ hdata' =>
    obtain rfl := Option.some.inj (hdata.symm.trans hdata')
    exact ⟨⟨_, Function.update_self .., rfl⟩, Function.update_self .., rfl⟩
  | @last region t tailBuff data' _ _ htail hdata' =>
    refine ⟨⟨_, Function.update_self .., rfl⟩, ?_, rfl⟩
    have hnext : ({ data' with next := none } : Buff) = { data with next := none } := by
      by_cases heq : d = t
      · subst heq
        obtain rfl := Option.some.inj (hdata.symm.trans htail)
        rw [Store.setBuff_buffs, Function.update_self] at hdata'
        rw [← Option.some.inj hdata']
      · rw [Store.setBuff_buffs, Function.update_of_ne heq] at hdata'
        rw [Option.some.inj (hdata.symm.trans hdata')]
    rw [← hnext]
    exact Function.update_self ..

/-- A buffer with a descriptor can be attached to a chain. -/
theorem shallocRegionAttach_returns {data : Buff} (hregion : st.regions r = some region)
    (hlinked : Linked st region bs) (hdata : st.buffs d = some data) :
    ∃ st', shallocRegionAttach r d st = some st' := by
  cases htail : region.dataTail with
  | none =>
    have hnil : bs = [] := List.getLast?_eq_none_iff.mp (hlinked.tail.symm.trans htail)
    have hhead : region.dataHead = none := by
      have hchain := hlinked.head
      rw [hnil] at hchain
      exact hchain
    simp [shallocRegionAttach, hregion, htail, hhead, hdata]
  | some t =>
    obtain ⟨tailBuff, htailBuff⟩ := hlinked.head.exists_buff t (hlinked.tail_mem htail)
    by_cases heq : d = t
    · simp [shallocRegionAttach, hregion, htail, htailBuff, heq]
    · simp [shallocRegionAttach, hregion, htail, htailBuff, Function.update_of_ne heq, hdata]

/-- A growth that succeeds: the parent issues a block, a descriptor is written at its start, the
allocator of the new buffer is set up, and the buffer becomes the tail. -/
theorem GrowCases.attached {ops : BuffAllocType → BuffOp α}
    {parentMalloc : ℕ → Store α → Option (Option ℕ × Store α)} {size : ℕ} {ret : ℤ}
    (h : GrowCases ops parentMalloc r size st ret st') (hret : ret = 0)
    (hregion : st.regions r = some region) :
    ∃ d st1 region1 made a,
      parentMalloc (Word.wrap 64 (sizeofBuff + region.buffSize size)) st = some (some d, st1) ∧
      st1.regions r = some region1 ∧ 0 ≤ made ∧
      (ops (region1.cloneBuff d (region.buffSize size)).allocType).create
        (region1.cloneBuff d (region.buffSize size))
        (st1.cells (region1.cloneBuff d (region.buffSize size)).start) = some (made, a) ∧
      (∃ region', st'.regions r = some region' ∧ region'.dataTail = some d) ∧
      st'.buffs d = some { region1.cloneBuff d (region.buffSize size) with next := none } ∧
      st'.cells (region1.cloneBuff d (region.buffSize size)).start = a := by
  cases h with
  | fixed => exact absurd hret (by decide)
  | failed => exact absurd hret (by decide)
  | @grown _ d _ _ hregion' _ halloc hattach =>
    cases halloc with
    | built hregion'' _ hmalloc hregion1 hcreate hmade =>
      obtain rfl := Option.some.inj (hregion.symm.trans hregion'')
      obtain ⟨data, a, hdata, hop, rfl⟩ := Store.opCreate_eq_some.mp hcreate
      obtain ⟨htail, hbuff, hcells⟩ := hattach.buff hdata
      rw [Store.setBuff_buffs, Function.update_self, Option.some.injEq] at hdata
      subst hdata
      refine ⟨d, _, _, _, a, hmalloc, hregion1, hmade, hop, htail, hbuff, ?_⟩
      rw [hcells]
      exact Function.update_self ..

/-- A growth returns 0 if the parent issues a block and the allocator of the new buffer is set
up. -/
theorem shallocRegionGrow_returns {ops : BuffAllocType → BuffOp α}
    {parentMalloc : ℕ → Store α → Option (Option ℕ × Store α)} {size P : ℕ} {made : ℤ}
    {st1 st2 : Store α} (hpos : 0 < size) (hregion : st.regions r = some region)
    (hfree : ¬ (region.dataTail.isSome ∧ hasFlag region.flags .nonResizable))
    (hparent : region.parent = some P)
    (hmalloc : parentMalloc (Word.wrap 64 (sizeofBuff + region.buffSize size)) st =
      some (some d, st1))
    (hregion1 : st1.regions r = some region) (hlinked : Linked st1 region bs) (hd : d ∉ bs)
    (hcreate : (st1.setBuff d (region.cloneBuff d (region.buffSize size))).opCreate ops d =
      some (made, st2)) (hmade : 0 ≤ made) :
    ∃ st', shallocRegionGrow ops parentMalloc r size st = some (0, st') := by
  obtain ⟨data, a, hdata, -, rfl⟩ := Store.opCreate_eq_some.mp hcreate
  generalize hst2 : ((st1.setBuff d (region.cloneBuff d (region.buffSize size))).setCell data.start
    a).log (.create d made) = st2 at hcreate
  have hregion2 : st2.regions r = some region := by
    rw [← hst2]
    exact hregion1
  have halloc : shallocRegionAllocBuff ops parentMalloc r size st =
      some (some d, st2.setRegion r (region.setDefaultSize region.grownSize)) := by
    refine Option.bind_eq_some_iff.mpr ⟨region, hregion, Option.bind_eq_some_iff.mpr ⟨P, hparent,
      Option.bind_eq_some_iff.mpr ⟨(some d, st1), hmalloc, ?_⟩⟩⟩
    refine Option.bind_eq_some_iff.mpr ⟨region, hregion1,
      Option.bind_eq_some_iff.mpr ⟨(made, st2), hcreate, ?_⟩⟩
    exact (if_neg (Int.not_lt.mpr hmade)).trans
      (Option.bind_eq_some_iff.mpr ⟨region, hregion2, rfl⟩)
  have hlinked3 : Linked (st2.setRegion r (region.setDefaultSize region.grownSize))
      (region.setDefaultSize region.grownSize) bs := by
    refine ⟨hlinked.head.congr fun b hb => ?_, hlinked.tail⟩
    have hne : b ≠ d := fun heq => hd (heq ▸ hb)
    rw [← hst2]
    exact Function.update_of_ne hne _ _
  have hdata3 : (st2.setRegion r (region.setDefaultSize region.grownSize)).buffs d = some data := by
    rw [← hst2]
    exact hdata
  obtain ⟨st3, hattach⟩ := shallocRegionAttach_returns (Function.update_self ..) hlinked3 hdata3
  exact ⟨st3, (if_neg (Nat.pos_iff_ne_zero.mp hpos)).trans (Option.bind_eq_some_iff.mpr
    ⟨region, hregion, (if_neg hfree).trans (Option.bind_eq_some_iff.mpr
      ⟨(some d, _), halloc, Option.bind_eq_some_iff.mpr ⟨st3, hattach, rfl⟩⟩)⟩)⟩

theorem AttachCases.attached (h : AttachCases r d st st') (hregion : st.regions r = some region)
    (hlinked : Linked st region bs) (hnodup : bs.Nodup) (hd : d ∉ bs) :
    Attached r d region bs st st' := by
  cases h with
  | @first region' data hregion' htail hhead hdata =>
    obtain rfl := Option.some.inj (hregion.symm.trans hregion')
    -- without a tail the chain is empty, and the new buffer is all of it
    obtain rfl : bs = [] := List.getLast?_eq_none_iff.mp (hlinked.tail.symm.trans htail)
    have hnew : ∀ data', st.buffs d = some data' → data' = data :=
      fun data' h => Option.some.inj (h.symm.trans hdata)
    refine ⟨⟨some d, rfl, ⟨?_, rfl⟩⟩, ?_, by simp, ?_, rfl, fun b => by simp⟩
    · exact chainFrom_singleton (Function.update_self ..) rfl
    · intro data' hdata'
      obtain rfl := hnew data' hdata'
      simp
    · intro b hb _
      simp [Function.update_of_ne hb]
  | @last region' t tailBuff data hregion' htail htailBuff hdata =>
    obtain rfl := Option.some.inj (hregion.symm.trans hregion')
    -- the tail gains a link to the new buffer, and the rest of the chain stays
    have hlast : bs.getLast? = some t := hlinked.tail.symm.trans htail
    have htd : t ≠ d := fun heq => hd (heq ▸ List.mem_of_getLast? hlast)
    have hdata' : st.buffs d = some data := by
      simpa [Function.update_of_ne htd.symm] using hdata
    have htail' : ∀ buff, st.buffs t = some buff →
        Function.update (Function.update st.buffs t (some { tailBuff with next := some d })) d
          (some { data with next := none }) t = some { buff with next := some d } := by
      intro buff hbuff
      obtain rfl := Option.some.inj (htailBuff.symm.trans hbuff)
      simp [Function.update_of_ne htd]
    refine ⟨⟨region.dataHead, rfl, ⟨?_, by simp⟩⟩, ?_, ?_, ?_, rfl, fun b => by simp⟩
    · refine ChainFrom.snoc (Function.update_self ..) rfl htail' hnodup ?_ hlast hlinked.head
      intro b hb hbt
      have hbd : b ≠ d := fun heq => hd (heq ▸ hb)
      simp [Function.update_of_ne hbd, Function.update_of_ne hbt]
    · intro data' h
      obtain rfl := Option.some.inj (hdata'.symm.trans h)
      simp
    · intro t' buff ht' hbuff
      obtain rfl := Option.some.inj (hlast.symm.trans ht')
      exact htail' buff hbuff
    · intro b hb hbt
      have hbt : b ≠ t := fun heq => hbt (heq ▸ hlast)
      simp [Function.update_of_ne hb, Function.update_of_ne hbt]

end Attach

end Shalloc
