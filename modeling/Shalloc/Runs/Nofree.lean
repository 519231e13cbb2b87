import Shalloc.Region.Bytes
import Shalloc.Runs.Shared

/-!
# Regions of the no-free type and their bytes

A region of the no-free type over a sound parent, beside others who use that parent. A request
may obtain a buffer from the parent, which may grow in its turn, write descriptors, the record
of the region and the header of a buffer. All of this happens away from the blocks in use.

## Main definitions

- `NofreeApart` — a buffer of the no-free allocator with its blocks apart
- `NofreeInv` — the invariant of such a region
- `UsedAt` — the addresses of the blocks of callers and of others

## Main results

- `NofreeInv.malloc_keeps`, `NofreeInv.free_keeps` — what the calls do to the blocks in use
- `NofreeInv.grow_leaves`, `NofreeInv.malloc_leaves`, `NofreeInv.free_leaves` — a call leaves
  the bytes of the blocks in use as they are
-/

namespace Shalloc

section Nofree

variable {ρ : Type} {data : Buff} {live : List Extent} {a : AllocState ρ} {top : ℕ}

/-- A buffer of the no-free allocator, with its blocks in use apart. -/
structure NofreeApart (data : Buff) (live : List Extent) (a : AllocState ρ) : Prop where
  inside : NofreeInside data live a
  apart : live.Pairwise Extent.Disjoint

/-- The blocks lie between the header and the end of the buffer. -/
theorem NofreeApart.bounds (h : NofreeApart data live a) {e : Extent} (he : e ∈ live) :
    data.start + sizeofNofreeHeader ≤ e.ptr ∧ e.ptr + e.len ≤ data.start + data.size := by
  obtain ⟨header, -, hok, hbelow⟩ := h.inside.header
  obtain ⟨h1, h2⟩ := hbelow e he
  exact ⟨h1, le_trans h2 hok.upper⟩

/-- The no-free allocator issues blocks that lie apart. -/
theorem OpsTable.nofree_issuesApart {ops : BuffAllocType → BuffOp (AllocState ρ)}
    (hops : OpsTable ops) (htop : top ≤ 2 ^ 63) :
    IssuesInside (ops .nofree) top (NofreeApart (ρ := ρ)) where
  inside h := (hops.nofree_issuesInside htop).inside h.inside
  next link h := ⟨(hops.nofree_issuesInside htop).next link h.inside, h.apart⟩
  created hlower hend hcreate hret :=
    ⟨(hops.nofree_issuesInside htop).created hlower hend hcreate hret, List.Pairwise.nil⟩
  malloc := by
    intro data live a n p a' h hpos hn hcall
    refine ⟨(hops.nofree_issuesInside htop).malloc h.inside hpos hn hcall, ?_⟩
    obtain ⟨header, rfl, hok, hbelow⟩ := h.inside.header
    have hsmall := h.inside.small
    have hupper := hok.upper
    have hround := nofreeRound_lt n
    simp only [hops.nofree, nofreeOpMalloc, bind, Option.bind_eq_some_iff, Prod.exists,
      Option.some.injEq, Prod.mk.injEq] at hcall
    obtain ⟨p, header', hmalloc, rfl, rfl⟩ := hcall
    rw [nofreeMalloc_of_noWrap hok (by omega) hpos (by omega) (by unfold NofreeNoWrap; omega)]
      at hmalloc
    split at hmalloc
    · obtain ⟨rfl, -⟩ := Prod.mk.inj (Option.some.inj hmalloc)
      exact List.pairwise_cons.mpr ⟨fun e he => Or.inr (hbelow e he).2, h.apart⟩
    · obtain ⟨rfl, -⟩ := Prod.mk.inj (Option.some.inj hmalloc)
      exact h.apart
  free h he hfree :=
    ⟨(hops.nofree_issuesInside htop).free h.inside he hfree, h.apart.sublist List.filter_sublist⟩

/-- The blocks in use begin at different addresses. -/
theorem nofree_placesApart (most : ℕ) : PlacesApart most (NofreeApart (ρ := ρ)) where
  after h e he := by
    have hheader : 0 < sizeofNofreeHeader := by decide
    have hbounds := (h.bounds he).1
    omega
  within h e he _ := (h.bounds he).2
  distinct h := by
    refine List.pairwise_map.mpr (h.apart.imp_of_mem fun {e e'} he he' hapart heq => ?_)
    have hpos := h.inside.pos e he
    have hpos' := h.inside.pos e' he'
    rcases hapart with hd | hd <;> omega

/-- A buffer with room for the header is set up. -/
theorem nofreeCreate_succeeds {a' : AllocState ρ} {ret : ℤ} (hsize : sizeofNofreeHeader < data.size)
    (hcreate : nofreeCreate data a = some (ret, a')) : ret = 0 := by
  obtain ⟨rfl, -⟩ := Prod.mk.inj (Option.some.inj hcreate)
  show (nofreeInit data.start data.size ⟨0, 0, 0⟩).1 = 0
  rw [nofreeInit, if_neg (by omega)]

end Nofree

/-- An address in a block that is in use in `chain`, or in a block of the parent that others
have. -/
def UsedAt {α : Type} (chain : List ℕ) (others : List Extent) (st : Store α) (a : ℕ) : Prop :=
  (∃ e, ChainLive chain st e ∧ e.ptr ≤ a ∧ a < e.ptr + e.len) ∨ Covers others a

theorem UsedAt.mono {α : Type} {st st' : Store α} {chain chain' : List ℕ} {others : List Extent}
    (hsub : ∀ e, ChainLive chain st e → ChainLive chain' st' e) {a : ℕ}
    (h : UsedAt chain others st a) : UsedAt chain' others st' a := by
  rcases h with ⟨e, he, hin⟩ | hcover
  · exact Or.inl ⟨e, hsub e he, hin⟩
  · exact Or.inr hcover

/-- The bytes of a block in use, -/
theorem UsedAt.live {α : Type} {st : Store α} {chain : List ℕ} {others : List Extent} {e : Extent}
    (he : ChainLive chain st e) {i : ℕ} (hi : i < e.len) : UsedAt chain others st (e.ptr + i) :=
  Or.inl ⟨e, he, Nat.le_add_right _ _, Nat.add_lt_add_left hi _⟩

/-- and of a block of the others. -/
theorem UsedAt.other {α : Type} {st : Store α} {chain : List ℕ} {others : List Extent} {e : Extent}
    (he : e ∈ others) {i : ℕ} (hi : i < e.len) : UsedAt chain others st (e.ptr + i) :=
  Or.inr ⟨e, he, Nat.le_add_right _ _, Nat.add_lt_add_left hi _⟩

section Region

variable {ρ : Type} {ops : BuffAllocType → BuffOp (AllocState ρ)} {path : List ℕ}
  {top limit k r n p : ℕ}
  {inv : List Extent → Store (AllocState ρ) → Prop} {st st' : Store (AllocState ρ)}
  {region : Region} {chain : List ℕ} {blocks others : List Extent}

/-- The invariant of a no-free region beside others. -/
abbrev NofreeInv (path : List ℕ) (top : ℕ) (inv : List Extent → Store (AllocState ρ) → Prop)
    (others : List Extent) (k r : ℕ) (st : Store (AllocState ρ)) (region : Region)
    (chain : List ℕ) (blocks : List Extent) : Prop :=
  RegionInv path (Beside others inv) (DefaultFits .nofree) (BuffInside .nofree top NofreeApart)
    k r st region chain blocks

/-- A block in use lies in the block of its buffer, past the descriptor and the header. -/
theorem NofreeInv.live_bounds (h : NofreeInv path top inv others k r st region chain blocks)
    {e : Extent} {d : ℕ} (hd : d ∈ chain) (he : e ∈ liveBlocks d st.trace) :
    ∃ e' ∈ blocks, e'.ptr = d ∧ d + (sizeofBuff + sizeofNofreeHeader) ≤ e.ptr ∧
      e.ptr + e.len ≤ d + e'.len := by
  obtain ⟨e', data, he', rfl, -, -, hstart, hQ⟩ := h.buffs d hd
  obtain ⟨h1, h2⟩ := hQ.rep.bounds he
  have hblock := hQ.block
  exact ⟨e', he', rfl, by omega, by omega⟩

/-- The addresses in use are in the blocks of the parent. -/
theorem NofreeInv.used_covers (h : NofreeInv path top inv others k r st region chain blocks)
    {a : ℕ} (ha : UsedAt chain others st a) : Covers blocks a ∨ Covers others a := by
  rcases ha with ⟨e, ⟨d, hd, he⟩, hin⟩ | hcover
  · obtain ⟨b, hb, rfl, h1, h2⟩ := NofreeInv.live_bounds h hd he
    exact Or.inl ⟨b, hb, by omega, by omega⟩
  · exact Or.inr hcover

variable (hparent : SoundParent ops path top limit inv)
include hparent

/-- Two blocks in use of different buffers lie apart. -/
theorem NofreeInv.live_apart (h : NofreeInv path top inv others k r st region chain blocks)
    {e e' : Extent} {d d' : ℕ} (hd : d ∈ chain) (he : e ∈ liveBlocks d st.trace) (hd' : d' ∈ chain)
    (he' : e' ∈ liveBlocks d' st.trace) (hne : d ≠ d') : Extent.Disjoint e e' := by
  obtain ⟨b, hb, rfl, h1, h2⟩ := NofreeInv.live_bounds h hd he
  obtain ⟨b', hb', rfl, h1', h2'⟩ := NofreeInv.live_bounds h hd' he'
  have hapart : Extent.Disjoint b b' := ((hparent.beside others).apart h.parent).forall hb hb'
    fun heq => hne (congrArg Extent.ptr heq)
  exact hapart.mono ⟨by omega, by omega⟩ ⟨by omega, by omega⟩

/-- The addresses in use are in neither the record of the region, nor the descriptor or the
header of a buffer. -/
theorem NofreeInv.used_outside (h : NofreeInv path top inv others k r st region chain blocks)
    {a : ℕ} (ha : UsedAt chain others st a) :
    ¬ (r ≤ a ∧ a < r + sizeofRegion) ∧
      ∀ d ∈ chain, ¬ (d ≤ a ∧ a < d + (sizeofBuff + sizeofNofreeHeader)) := by
  have hsound := hparent.beside others
  obtain ⟨home, hhome, hr, hlen⟩ := h.home
  have hroom : ∀ d ∈ chain, ∃ b ∈ blocks, b.ptr = d ∧ sizeofBuff + sizeofNofreeHeader ≤ b.len := by
    intro d hd
    obtain ⟨b, data, hb, rfl, -, -, -, hQ⟩ := h.buffs d hd
    have hlower := hQ.lower
    have hblock := hQ.block
    have hmin : sizeofNofreeHeader ≤ shallocBuffMinSize := by decide
    exact ⟨b, hb, rfl, by omega⟩
  rcases ha with ⟨e, ⟨c, hc, he⟩, hin⟩ | hcover
  · -- an address in the block of another buffer would make the two blocks one
    obtain ⟨b, hb, rfl, h1, h2⟩ := NofreeInv.live_bounds h hc he
    refine ⟨fun hno => ?_, fun d hd hno => ?_⟩
    · have heq := hsound.eq_of_shared h.parent hb hhome (a := a) ⟨by omega, by omega⟩
        ⟨by omega, by omega⟩
      exact (List.nodup_cons.mp h.nodup).1 (by rwa [← hr, ← heq])
    · obtain ⟨b', hb', rfl, hlen'⟩ := hroom d hd
      obtain rfl := hsound.eq_of_shared h.parent hb hb' (a := a) ⟨by omega, by omega⟩
        ⟨by omega, by omega⟩
      omega
  · have hnot := hparent.beside_not_covers h.parent hcover
    refine ⟨fun hno => hnot ⟨home, hhome, by omega, by omega⟩, fun d hd hno => ?_⟩
    obtain ⟨b, hb, rfl, hlen'⟩ := hroom d hd
    exact hnot ⟨b, hb, by omega, by omega⟩

/-- An operation on a buffer of the chain writes to its header. The descriptor at the end of the
call is that of the buffer, up to its link. -/
theorem NofreeInv.not_writes (h : NofreeInv path top inv others k r st region chain blocks)
    {desc : ℕ → Option Buff} {d a : ℕ} {live live' : List Extent} (hd : d ∈ chain)
    (hdesc : ∀ data, st.buffs d = some data → ∃ link, desc d = some { data with next := link })
    (ha : UsedAt chain others st a) :
    ¬ ∀ data, desc d = some data → data.writes live live' a := by
  intro hwrites
  obtain ⟨e, data, -, rfl, -, hdata, hstart, hQ⟩ := h.buffs d hd
  obtain ⟨link, hlink⟩ := hdesc data hdata
  have hheader := hwrites _ hlink
  simp only [Buff.writes, hQ.allocType] at hheader
  exact (NofreeInv.used_outside hparent h ha).2 _ hd ⟨by omega, by omega⟩

/-- The tail buffer answers a request. -/
theorem NofreeInv.opMalloc_leaves (h : NofreeInv path top inv others k r st region chain blocks)
    {desc : ℕ → Option Buff} {d n : ℕ} {q : Option ℕ} (hd : d ∈ chain)
    (hdesc : ∀ data, st.buffs d = some data → ∃ link, desc d = some { data with next := link })
    (hcall : st.opMalloc ops d n = some (q, st')) :
    Leaves desc (UsedAt chain others st) st st' := by
  obtain ⟨_, _, -, -, rfl⟩ := Store.opMalloc_eq_some.mp hcall
  exact .event rfl fun a ha => NofreeInv.not_writes hparent h hd hdesc ha

/-- `shalloc_free` writes to no block that is in use before it. -/
theorem NofreeInv.free_leaves (h : NofreeInv path top inv others k r st region chain blocks)
    (hcall : shallocFree ops r p st = some st') :
    Leaves st'.buffs (UsedAt chain others st) st st' := by
  have hlog : Leaves st'.buffs (UsedAt chain others st) st (st.log (.release r p)) :=
    .event rfl fun _ _ hno => hno
  cases shallocFree_cases hcall with
  | ignored => exact hlog
  | asked hregion ht _ _ hfree =>
    obtain rfl := Option.some.inj (h.record.symm.trans hregion)
    obtain ⟨_, _, -, -, rfl⟩ := Store.opFree_eq_some.mp hfree
    refine hlog.trans (.event rfl fun a ha => ?_)
    exact NofreeInv.not_writes hparent h (h.linked.tail_mem ht) (fun data hdata => ⟨_, hdata⟩) ha

omit hparent in
/-- A buffer that joins the chain: the record of the region and two descriptors are written. -/
theorem AttachCases.leaves {desc : ℕ → Option Buff} {used : ℕ → Prop} {d : ℕ}
    (hattach : AttachCases r d st st') (hrecord : ∀ a, used a → ¬ (r ≤ a ∧ a < r + sizeofRegion))
    (hd : ∀ a, used a → ¬ (d ≤ a ∧ a < d + sizeofBuff))
    (htail : ∀ region t, st.regions r = some region → region.dataTail = some t →
      ∀ a, used a → ¬ (t ≤ a ∧ a < t + sizeofBuff)) : Leaves desc used st st' := by
  cases hattach with
  | first => exact (Leaves.setRegion st _ hrecord).trans (.setBuff _ _ hd)
  | last hregion ht =>
    exact ((Leaves.setBuff st _ (htail _ _ hregion ht)).trans (.setRegion _ _ hrecord)).trans
      (.setBuff _ _ hd)

/-- A buffer in a new block of the parent: its descriptor and its header are written there. -/
theorem BytesParent.create_leaves (hbytes : BytesParent ops path limit inv)
    {all : List Extent} {desc : ℕ → Option Buff} {st1 : Store (AllocState ρ)} {d m : ℕ} {ret : ℤ}
    {clone : Buff} (hall : inv all st) (hm : m < limit)
    (hroom : sizeofBuff + sizeofNofreeHeader ≤ m)
    (hmalloc : shallocMalloc ops path m st = some (some d, st1))
    (hcreate : (st1.setBuff d clone).opCreate ops d = some (ret, st'))
    (hdesc : ∀ a, ¬ Covers (⟨d, m⟩ :: all) a → desc a = st1.buffs a)
    (hnew : ∃ data, desc d = some data ∧ data.allocType = .nofree ∧
      data.start = d + sizeofBuff) :
    Leaves desc (Covers all) st st' := by
  obtain ⟨hinv, -⟩ := hparent.served hall hm hmalloc
  have hout : ∀ a, Covers all a → ¬ (d ≤ a ∧ a < d + m) :=
    fun a ha hin => hparent.not_covers hinv hin ha
  obtain ⟨_, _, -, -, rfl⟩ := Store.opCreate_eq_some.mp hcreate
  refine ((hbytes.asked hall hm hmalloc hdesc).trans (.setBuff st1 clone fun a ha hin => ?_)).trans
    (.event rfl fun a ha hwrites => ?_)
  · exact hout a ha ⟨hin.1, by omega⟩
  · obtain ⟨data, hdata, htype, hstart⟩ := hnew
    have hheader := hwrites data hdata
    simp only [Buff.writes, htype] at hheader
    exact hout a ha ⟨by omega, by omega⟩

/-- The parent has issued a block for a new buffer: what the region sets up there. -/
theorem NofreeInv.clone (hops : OpsTable ops) (htop : top ≤ 2 ^ 63)
    (h : NofreeInv path top inv others k r st region chain blocks) {st1 : Store (AllocState ρ)}
    {region1 : Region} {size d : ℕ} (hsize : size < 2 ^ 52)
    (hbelow : region.request size < limit)
    (hmalloc : shallocMalloc ops path
      (Word.wrap 64 (sizeofBuff + region.buffSize size)) st = some (some d, st1))
    (hregion1 : st1.regions r = some region1) :
    region = region1 ∧ sizeofBuff + region.buffSize size < 2 ^ 64 ∧
      (region.cloneBuff d (region.buffSize size)).start = d + sizeofBuff ∧
      (region.cloneBuff d (region.buffSize size)).size = region.buffSize size ∧
      sizeofNofreeHeader < region.buffSize size := by
  have rule := insideRule htop (hops.nofree_issuesApart htop).places
  have hroom := rule.room h.property hsize
  rw [Region.request, Word.wrap_of_lt hroom] at hbelow
  rw [Word.wrap_of_lt hroom] at hmalloc
  have hsound := hparent.beside others
  obtain ⟨hinv, hagree⟩ := hsound.served h.parent hbelow hmalloc
  have hbounds := (hsound.bounds hinv _ List.mem_cons_self).2
  obtain ⟨hstart, hbuff, hlower, -⟩ := h.property.cloneBuff htop hbounds
  rw [hagree.regions r (h.covers hsound).1, h.record] at hregion1
  have hmin : sizeofNofreeHeader < shallocBuffMinSize := by decide
  exact ⟨Option.some.inj hregion1, hroom, hstart, hbuff, by omega⟩

/-- The descriptors `desc` are those of the store for the buffers of the region and for what is
in no block of its parent. -/
def Describes (path : List ℕ) (top : ℕ) (inv : List Extent → Store (AllocState ρ) → Prop)
    (others : List Extent) (r : ℕ) (st : Store (AllocState ρ)) (desc : ℕ → Option Buff) : Prop :=
  ∀ {k region chain blocks}, NofreeInv path top inv others k r st region chain blocks →
    ∀ a, (a ∈ chain ∨ ¬ Covers blocks a ∧ ¬ Covers others a) → desc a = st.buffs a

omit hparent in
theorem describes_self (st : Store (AllocState ρ)) :
    Describes path top inv others r st st.buffs :=
  fun _ _ _ => rfl

/-- **A growth leaves the bytes of the blocks in use as they are**, whatever the ancestors do for
it. -/
theorem NofreeInv.grow_leaves (hops : OpsTable ops) (htop : top ≤ 2 ^ 63)
    (hbytes : BytesParent ops path limit inv)
    (h : NofreeInv path top inv others k r st region chain blocks) {size : ℕ} {ret : ℤ}
    (hpos : 0 < size) (hsize : size < 2 ^ 52) (hbelow : region.request size < limit)
    (hgrow : GrowCases ops (shallocMalloc ops path)
      r size st ret st') {desc : ℕ → Option Buff}
    (hdesc : Describes path top inv others r st' desc) :
    Leaves desc (UsedAt chain others st) st st' := by
  obtain ⟨all, hall, hperm⟩ := id h.parent
  have hused : ∀ a, UsedAt chain others st a → Covers all a :=
    fun a ha => (covers_perm hperm).mpr (NofreeInv.used_covers h ha)
  have rule := insideRule htop (hops.nofree_issuesApart htop).places
  have hsound := hparent.beside others
  cases hgrow with
  | fixed => exact .refl _ _ _
  | failed _ _ halloc =>
    obtain ⟨-, ⟨-, h'⟩ | ⟨_, _, hno, -⟩⟩ := h.allocBuff hsound rule hpos hsize hbelow halloc
    swap
    · exact absurd hno (by simp)
    cases halloc with
    | refused hregion _ hmalloc =>
      obtain rfl := Option.some.inj (h.record.symm.trans hregion)
      refine (hbytes.asked hall hbelow hmalloc fun a ha => hdesc h' a (Or.inr ?_)).mono hused
      exact not_or.mp fun hno => ha ((covers_perm hperm).mpr hno)
    | createFailed hregion _ hmalloc hregion1 hcreate hret _ =>
      -- the buffer is large enough for its header
      obtain rfl := Option.some.inj (h.record.symm.trans hregion)
      obtain ⟨rfl, -, -, hbuff, hlarge⟩ :=
        NofreeInv.clone hparent hops htop h hsize hbelow hmalloc hregion1
      obtain ⟨data, a, hdata, hop, -⟩ := Store.opCreate_eq_some.mp hcreate
      rw [Store.setBuff_buffs, Function.update_self] at hdata
      obtain rfl := Option.some.inj hdata
      rw [Region.cloneBuff_allocType, h.property.allocType, hops.nofree] at hop
      have hzero := nofreeCreate_succeeds (hbuff.symm ▸ hlarge) hop
      omega
  | @grown _ d st1 _ hregion hfixed halloc hattach =>
    obtain rfl := Option.some.inj (h.record.symm.trans hregion)
    obtain ⟨-, ⟨hno, -⟩ | ⟨c, e, hc, h', hnot, hptr, hlen, hin, data', hdata', hstart', hQ⟩⟩ :=
      h.allocBuff hsound rule hpos hsize hbelow halloc
    · exact absurd hno (by simp)
    obtain rfl := Option.some.inj hc
    obtain rfl : e = ⟨d, sizeofBuff + region.buffSize size⟩ := by
      rw [← hptr, ← hlen]
    have hchain : d ∉ chain := fun hmem => hnot (List.mem_cons_of_mem _ hmem)
    have hattached := hattach.attached h'.record h'.linked (List.nodup_cons.mp h'.nodup).2 hchain
    obtain ⟨_, hfinal⟩ := h'.attach hsound rule List.mem_cons_self rfl hin hnot hdata' hstart' hQ
      hfixed hattach
    cases halloc with
    | @built _ _ _ _ _ st1 st2 hregion' _ hmalloc hregion1 hcreate hret =>
      obtain rfl := Option.some.inj (hregion.symm.trans hregion')
      obtain ⟨rfl, hroom, hstart, hbuff, hlarge⟩ :=
        NofreeInv.clone hparent hops htop h hsize hbelow hmalloc hregion1
      rw [Region.request, Word.wrap_of_lt hroom] at hbelow
      rw [Word.wrap_of_lt hroom] at hmalloc
      obtain ⟨hinv, -⟩ := hparent.served hall hbelow hmalloc
      have hbuffs : st2.buffs = Function.update st1.buffs d
          (some (region.cloneBuff d (region.buffSize size))) := by
        obtain ⟨_, _, -, -, rfl⟩ := Store.opCreate_eq_some.mp hcreate
        rfl
      have hdata : st2.buffs d = some (region.cloneBuff d (region.buffSize size)) := by
        rw [hbuffs, Function.update_self]
      have htype : (region.cloneBuff d (region.buffSize size)).allocType = .nofree := by
        rw [Region.cloneBuff_allocType, h.property.allocType]
      -- afterwards the descriptors change in the new block and in the blocks of the chain only
      have hframe : ∀ a, ¬ Covers (⟨d, sizeofBuff + region.buffSize size⟩ :: all) a →
          desc a = st1.buffs a := by
        intro a ha
        have hcover : Covers (⟨d, sizeofBuff + region.buffSize size⟩ :: all) d :=
          hparent.covers_ptr hinv List.mem_cons_self
        have hda : a ≠ d := fun heq => ha (heq ▸ hcover)
        have hlast : chain.getLast? ≠ some a := fun hmem => ha <| Covers.cons
          ((covers_perm hperm).mpr (Or.inl ((h.covers hsound).2 a (List.mem_of_getLast? hmem)).1)) _
        have hout : ¬ Covers (⟨d, sizeofBuff + region.buffSize size⟩ :: blocks) a ∧
            ¬ Covers others a := by
          refine not_or.mp fun hno => ha ?_
          exact (covers_perm (hperm.cons ⟨d, sizeofBuff + region.buffSize size⟩)).mpr hno
        rw [hdesc hfinal a (Or.inr hout), hattached.frame a hda hlast, Store.setRegion_buffs,
          hbuffs, Function.update_of_ne hda]
      have hnew : desc d = some { region.cloneBuff d (region.buffSize size) with next := none } :=
        (hdesc hfinal d (Or.inl (by simp))).trans (hattached.data _ hdata)
      have hcreated := hbytes.create_leaves hparent hall hbelow (by omega) hmalloc hcreate hframe
        ⟨_, hnew, htype, hstart⟩
      refine ((hcreated.mono hused).trans (.setRegion _ _ fun a ha =>
        (NofreeInv.used_outside hparent h ha).1)).trans (hattach.leaves
          (fun a ha => (NofreeInv.used_outside hparent h ha).1) (fun a ha hin => ?_) ?_)
      · exact hparent.not_covers hinv ⟨hin.1, by simp only; omega⟩ (hused a ha)
      · intro region2 t hregion2 ht a ha hin
        obtain rfl := Option.some.inj (h'.record.symm.trans hregion2)
        exact (NofreeInv.used_outside hparent h ha).2 t (h'.linked.tail_mem ht) ⟨hin.1, by omega⟩

/-- The tail buffer refuses a request: the blocks in use are the same afterwards. -/
theorem NofreeInv.refuses (hops : OpsTable ops) (htop : top ≤ 2 ^ 63)
    (h : NofreeInv path top inv others k r st region chain blocks) (hpos : 0 < n) (hn : n < 2 ^ 48)
    (hrefuses : TailRefuses (fun t st => st.opMalloc ops t n) r st st') :
    NofreeInv path top inv others k r st' region chain blocks ∧
      (∀ d, liveBlocks d st'.trace = liveBlocks d st.trace) ∧
      ∀ desc : ℕ → Option Buff, (∀ d ∈ chain, ∀ data, st'.buffs d = some data →
        ∃ link, desc d = some { data with next := link }) →
          Leaves desc (UsedAt chain others st) st st' := by
  cases hrefuses with
  | empty => exact ⟨h, fun _ => rfl, fun _ _ => .refl _ _ st⟩
  | refused hregion ht hrefused =>
    obtain rfl := Option.some.inj (h.record.symm.trans hregion)
    have hd := h.linked.tail_mem ht
    refine ⟨h.opMalloc (hparent.beside others)
      (insideRule htop (hops.nofree_issuesApart htop).places) hpos hn ht hrefused,
      fun d => by simpa using Store.opMalloc_live hrefused d, fun desc hdesc => ?_⟩
    rw [(Store.opMalloc_frame hrefused).2] at hdesc
    exact NofreeInv.opMalloc_leaves hparent h hd (hdesc _ hd) hrefused

/-- An answer of the tail changes no descriptor. -/
theorem Describes.of_opMalloc (hops : OpsTable ops) (htop : top ≤ 2 ^ 63) {desc : ℕ → Option Buff}
    {t : ℕ} {q : Option ℕ} (hpos : 0 < n) (hn : n < 2 ^ 48) (hregion : st.regions r = some region)
    (ht : region.dataTail = some t)
    (hcall : st.opMalloc ops t n = some (q, st'))
    (hdesc : Describes path top inv others r st' desc) :
    Describes path top inv others r st desc := by
  intro k region' chain blocks h a ha
  obtain rfl := Option.some.inj (hregion.symm.trans h.record)
  have h' := h.opMalloc (hparent.beside others)
    (insideRule htop (hops.nofree_issuesApart htop).places) hpos hn ht hcall
  rw [hdesc h' a ha, (Store.opMalloc_frame hcall).2]

/-- **A request leaves the bytes of the blocks in use as they are.** -/
theorem NofreeInv.malloc_leaves (hops : OpsTable ops) (htop : top ≤ 2 ^ 63)
    (hbytes : BytesParent ops path limit inv)
    (h : NofreeInv path top inv others k r st region chain blocks) {q : Option ℕ} (hn : n < 2 ^ 48)
    (hbelow : AsksBelow limit r (shallocBuffAllocSize n) st)
    (hcall : shallocMalloc ops (r :: path) n st = some (q, st'))
    {desc : ℕ → Option Buff} (hdesc : Describes path top inv others r st' desc) :
    Leaves desc (UsedAt chain others st) st st' := by
  have rule := insideRule htop (hops.nofree_issuesApart htop).places
  have hsound := hparent.beside others
  have hlog := h.log hsound (.request r n) (by simp [Event.touches])
  have hstart : Leaves desc (UsedAt chain others st) st (st.log (.request r n)) :=
    .event rfl fun _ _ hno => hno
  have hsize' : region.request (shallocBuffAllocSize n) < limit := hbelow _ h.record
  obtain ⟨-, -, rfl⟩ | ⟨hpos, hserve⟩ := shallocMalloc_cases hcall
  · exact hstart
  obtain ⟨hpos', hsize⟩ := shallocBuffAllocSize_bounds hpos hn
  refine hstart.trans ?_
  cases hserve with
  | served hregion ht hask =>
    obtain rfl := Option.some.inj (hlog.record.symm.trans hregion)
    have hd := hlog.linked.tail_mem ht
    have h' := hlog.opMalloc hsound rule hpos hn ht hask
    refine NofreeInv.opMalloc_leaves hparent hlog hd (fun data hdata => ⟨data.next, ?_⟩) hask
    rw [hdesc h' _ (Or.inl hd), (Store.opMalloc_frame hask).2]
    exact hdata
  | notGrown hrefuses hgrow hret =>
    obtain ⟨h1, hlive, hleaves⟩ := NofreeInv.refuses hparent hops htop hlog hpos hn hrefuses
    have hgrown := NofreeInv.grow_leaves hparent hops htop hbytes h1 hpos' hsize hsize' hgrow hdesc
    obtain ⟨-, h2⟩ | ⟨hno, -⟩ := h1.grow hsound rule hpos' hsize hsize' hgrow
    · refine (hleaves _ fun d hd data hdata => ?_).trans
        (hgrown.mono fun a ha => ha.mono (by simp [ChainLive, hlive]))
      rw [hdesc h2 d (Or.inl hd)]
      exact h1.grow_buffs hsound rule hpos' hsize hsize' hgrow d hd data hdata
    · exact absurd hno hret
  | @retried _ t _ st1 st2 _ hrefuses hgrow hregion ht hask =>
    obtain ⟨h1, hlive, hleaves⟩ := NofreeInv.refuses hparent hops htop hlog hpos hn hrefuses
    obtain ⟨hno, -⟩ | ⟨-, e, region', -, h2⟩ := h1.grow hsound rule hpos' hsize hsize' hgrow
    · exact absurd rfl hno
    obtain rfl := Option.some.inj (h2.record.symm.trans hregion)
    have hdesc2 : Describes path top inv others r st2 desc :=
      Describes.of_opMalloc hparent hops htop hpos hn hregion ht hask hdesc
    have hsame : ∀ d ∈ chain ++ [e.ptr], desc d = st2.buffs d :=
      fun d hd => hdesc2 h2 d (Or.inl hd)
    have hgrown := NofreeInv.grow_leaves hparent hops htop hbytes h1 hpos' hsize hsize' hgrow hdesc2
    have hasked := NofreeInv.opMalloc_leaves hparent h2 (h2.linked.tail_mem ht)
      (fun data hdata => ⟨data.next, (hsame t (h2.linked.tail_mem ht)).trans hdata⟩) hask
    have hkept : RegionKept _ _ _ _ _ _ st1 chain := ⟨_, _, h1⟩
    have hbelow1 : AsksBelow limit r (shallocBuffAllocSize n) st1 :=
      (hbelow.log _).refused hrefuses (opMalloc_issues _ n).regions
    have hold := hkept.grow_live hsound rule hpos' hsize hbelow1 hgrow
    refine ((hleaves _ fun d hd data hdata => ?_).trans
      (hgrown.mono fun a ha => ha.mono (by simp [ChainLive, hlive]))).trans
      (hasked.mono fun a ha => ha.mono ?_)
    · rw [hsame d (List.mem_append_left _ hd)]
      exact h1.grow_buffs hsound rule hpos' hsize hsize' hgrow d hd data hdata
    · rintro e' ⟨d, hd, he'⟩
      refine ⟨d, List.mem_append_left _ hd, ?_⟩
      rw [hold d hd, hlive d]
      exact he'

/-- Two blocks of the region in use lie apart. -/
theorem NofreeInv.chainLive_apart (h : NofreeInv path top inv others k r st region chain blocks)
    {e e' : Extent} (he : ChainLive chain st e) (he' : ChainLive chain st e') (hne : e ≠ e') :
    Extent.Disjoint e e' := by
  obtain ⟨d, hd, he⟩ := he
  obtain ⟨d', hd', he'⟩ := he'
  by_cases hsame : d = d'
  · obtain rfl := hsame
    obtain ⟨_, _, -, -, -, -, -, hQ⟩ := h.buffs d hd
    exact hQ.rep.apart.forall he he' hne
  · exact NofreeInv.live_apart hparent h hd he hd' he' hsame

/-- What a free does to a region: the other blocks stay in use, and all bytes are left. -/
theorem NofreeInv.free_keeps (hops : OpsTable ops) (htop : top ≤ 2 ^ 63)
    (h : NofreeInv path top inv others k r st region chain blocks)
    (hlive : ChainLive chain st ⟨p, n⟩)
    (hcall : shallocFree ops r p st = some st') :
    (∀ e, ChainLive chain st e → e ≠ ⟨p, n⟩ → LiveIn r st' e) ∧ st'.buffs = st.buffs ∧
      Leaves st'.buffs (UsedAt chain others st) st st' := by
  have hsound := hparent.beside others
  have hop := (hops.nofree_issuesApart htop).places
  have hkept : RegionKept path (Beside others inv) (DefaultFits .nofree)
      (BuffInside .nofree top NofreeApart) k r st chain := ⟨region, blocks, h⟩
  obtain ⟨d, hd, hmem⟩ := hlive
  have huse : InUse (liveBlocks d st.trace) p := ⟨_, hmem, rfl⟩
  have hkept' := hkept.free hsound (insideRule htop hop)
    (hkept.inUse_tail hsound hop ⟨d, hd, huse⟩) hcall
  refine ⟨fun e he hne => (hkept'.liveIn_iff e).mpr ?_, ?_, NofreeInv.free_leaves hparent h hcall⟩
  · refine (hkept.free_live hsound hop hd huse hcall e).mpr ⟨he, fun _ heq => ?_⟩
    -- another block in use would lie apart
    have hpos : ∀ e, ChainLive chain st e → 0 < e.len := by
      rintro e ⟨c, hc, he⟩
      obtain ⟨_, _, -, -, -, -, -, hQ⟩ := h.buffs c hc
      exact hQ.rep.inside.pos e he
    have hlen := hpos e he
    have hlen' := hpos ⟨p, n⟩ ⟨d, hd, hmem⟩
    rcases NofreeInv.chainLive_apart hparent h he ⟨d, hd, hmem⟩ hne with ha | ha
    · simp only at ha
      omega
    · simp only at ha hlen'
      omega
  · cases shallocFree_cases hcall with
    | ignored => rfl
    | asked _ _ _ _ hfree =>
      obtain ⟨_, _, -, -, rfl⟩ := Store.opFree_eq_some.mp hfree
      rfl

/-- What a request does to a region: its blocks stay in use, and the block that it returns lies
apart from them and from those of the others. -/
theorem NofreeInv.malloc_keeps (hops : OpsTable ops) (htop : top ≤ 2 ^ 63)
    (h : NofreeInv path top inv others k r st region chain blocks) {q : Option ℕ} (hn : n < 2 ^ 48)
    (hbelow : AsksBelow limit r (shallocBuffAllocSize n) st)
    (hcall : shallocMalloc ops (r :: path) n st = some (q, st')) :
    ∃ k' region' chain' blocks', NofreeInv path top inv others k' r st' region' chain' blocks' ∧
      (∀ e, ChainLive chain st e → ChainLive chain' st' e) ∧
      ∀ q' ∈ q, ChainLive chain' st' ⟨q', n⟩ ∧
        (∀ e, ChainLive chain st e → Extent.Disjoint ⟨q', n⟩ e) ∧
        ∀ a, UsedAt chain others st a → ¬ (q' ≤ a ∧ a < q' + n) := by
  have hsound := hparent.beside others
  have hop := (hops.nofree_issuesApart htop).places
  have hkept : RegionKept path (Beside others inv) (DefaultFits .nofree)
      (BuffInside .nofree top NofreeApart) k r st chain := ⟨region, blocks, h⟩
  have hlive := hkept.malloc_chainLive htop hsound hop hn hbelow hcall
  obtain ⟨region', blocks', h'⟩ := hkept.malloc hsound (insideRule htop hop) hn hbelow hcall
  refine ⟨_, region', _, blocks', h', fun e he => (hlive e).mpr (Or.inl he), ?_⟩
  rintro q' rfl
  have hnew := (hlive ⟨q', n⟩).mpr (Or.inr ⟨q', rfl, rfl⟩)
  have hapart : ∀ e, ChainLive chain st e → Extent.Disjoint ⟨q', n⟩ e := by
    intro e he
    refine NofreeInv.chainLive_apart hparent h' hnew ((hlive e).mpr (Or.inl he)) fun heq => ?_
    exact hkept.malloc_fresh htop hsound hop (nofree_placesApart 0) hn hbelow hcall he (heq ▸ rfl)
  refine ⟨hnew, hapart, ?_⟩
  rintro a (⟨e, he, hin⟩ | hcover) hno
  · rcases hapart e he with ha | ha
    · simp only at ha
      omega
    · simp only at ha
      omega
  · obtain ⟨d, hd, hmem⟩ := hnew
    obtain ⟨b, hb, rfl, h1, h2⟩ := NofreeInv.live_bounds h' hd hmem
    simp only at h1 h2
    exact hparent.beside_not_covers h'.parent hcover ⟨b, hb, by omega, by omega⟩

end Region

end Shalloc
