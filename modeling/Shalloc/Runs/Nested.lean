import Shalloc.Runs.Nofree

/-!
# Regions as parents

A region of the no-free type, below a parent that serves requests up to some size, is a parent
in its turn, for requests up to a third of that size: to serve `n` bytes it asks for a descriptor
and `21 * n / 10` bytes at most, or for a buffer of its default size. So regions may be stacked on
each other, and each of them may grow while a request is passed down.

## Main definitions

- `Modest` — a region whose buffers of default size are not too large for its parent
- `NofreeIssued` — what a region of the no-free type has issued
- `FullParent` — all that a parent owes
- `TowerIssued` — what the first of a stack of regions has issued

## Main results

- `FullParent.nofree` — a region over a parent is a parent
- `FullParent.tower` — the first of a stack of regions over a parent is a parent
-/

namespace Shalloc

section Modest

variable {α : Type} {ops : BuffAllocType → BuffOp α} {top limit n : ℕ} {region : Region}

/-- What the region asks its parent for to grow by its default size is below `limit`. It stays
so: if the size doubles with each buffer, the memory of the parent is a bound on it. -/
structure Modest (top limit : ℕ) (region : Region) : Prop where
  below : sizeofBuff + region.grownSize < limit
  doubled : hasFlag region.flags .elastic = true → 2 * top ≤ limit

/-- A region stays modest if it grows. -/
theorem Modest.grown {size d : ℕ} (h : Modest top limit region)
    (hroom : d + (sizeofBuff + region.buffSize size) ≤ top) :
    Modest top limit (region.setDefaultSize region.grownSize) := by
  have hle := (le_buffSize region size).1
  have hnext : (region.setDefaultSize region.grownSize).grownSize =
      if hasFlag region.flags .elastic then Word.wrap 64 (region.grownSize * 2)
      else region.grownSize := rfl
  have hwrap : Word.wrap 64 (region.grownSize * 2) ≤ region.grownSize * 2 := Nat.mod_le _ _
  refine ⟨?_, h.doubled⟩
  rw [hnext]
  split
  · next helastic =>
    have hdouble := h.doubled helastic
    unfold sizeofBuff at *
    omega
  · exact h.below

theorem modestRule (htop : top ≤ 2 ^ 64) (hlimit : limit ≤ 2 ^ 64) :
    RegionRule ops top (fun _ => Modest top limit) (fun _ _ _ _ => True) fun _ _ => True where
  top_le := htop
  link h := ⟨h.below, h.doubled⟩
  room h hsize := buffSize_room (lt_of_lt_of_le h.below hlimit) (by unfold sizeofBuff; omega)
  grown h _ _ hroom := h.grown hroom
  created _ _ _ _ _ _ := trivial
  next _ _ := trivial
  malloc _ _ _ _ := trivial
  free _ _ _ := trivial
  renew _ _ _ _ := trivial

/-- A modest region asks for a little more than twice what it has to serve. -/
theorem Modest.request_lt (h : Modest top limit region) (hn : n < 2 ^ 48)
    (hfits : sizeofBuff + 21 * n / 10 < limit) :
    region.request (shallocBuffAllocSize n) < limit := by
  refine lt_of_le_of_lt (Nat.mod_le _ _) ?_
  rw [shallocBuffAllocSize_eq hn]
  unfold Region.buffSize
  split
  · exact h.below
  · exact hfits

/-- If the parent serves requests below `limit`, a region may serve those below `limit'`. -/
structure Third (limit limit' : ℕ) : Prop where
  record : sizeofRegion < limit'
  third : 3 * limit' ≤ limit
  small : limit ≤ 2 ^ 49

end Modest

section Agree

variable {ρ : Type} {ops : BuffAllocType → BuffOp (AllocState ρ)} {path : List ℕ}
  {top limit k r n p : ℕ} {inv : List Extent → Store (AllocState ρ) → Prop}
  {st st' : Store (AllocState ρ)} {region : Region} {chain : List ℕ} {held others : List Extent}

theorem UsedAt.of_nil {a : ℕ} (h : UsedAt chain [] st a) : UsedAt chain others st a := by
  rcases h with hlive | ⟨e, he, -⟩
  · exact Or.inl hlive
  · exact absurd he List.not_mem_nil

variable (hparent : SoundParent ops path top limit inv)
include hparent

/-- The blocks of the region in use lie in its buffers, past the descriptors. -/
theorem NofreeInv.used_own (h : NofreeInv path top inv others k r st region chain held) {a : ℕ}
    (ha : UsedAt chain [] st a) : Covers held a ∧ a ∉ r :: chain := by
  obtain ⟨hrecord, hdescr⟩ := NofreeInv.used_outside hparent h ha.of_nil
  refine ⟨?_, fun hmem => ?_⟩
  · rcases ha with ⟨e, ⟨d, hd, he⟩, hin⟩ | ⟨_, he, -⟩
    · obtain ⟨b, hb, rfl, h1, h2⟩ := NofreeInv.live_bounds h hd he
      exact ⟨b, hb, by omega, by omega⟩
    · exact absurd he List.not_mem_nil
  · rcases List.mem_cons.mp hmem with rfl | hd
    · exact hrecord ⟨le_rfl, Nat.lt_add_of_pos_right (by decide)⟩
    · exact hdescr a hd ⟨le_rfl, Nat.lt_add_of_pos_right (by decide)⟩

/-- An operation on a buffer of the chain changes what is at its descriptor and its header. -/
theorem NofreeInv.setCell_agree (h : NofreeInv path top inv others k r st region chain held)
    {d : ℕ} {data : Buff} {a : AllocState ρ} {event : Event} (hd : d ∈ chain)
    (hdata : st.buffs d = some data) (hevent : ∀ c, event.touches c → c = d) :
    AgreeOn (UsedAt chain [] st) st ((st.setCell data.start a).log event) := by
  obtain ⟨_, data', -, -, -, hdata', hstart, -⟩ := h.buffs d hd
  obtain rfl := Option.some.inj (hdata.symm.trans hdata')
  have hout : ∀ c, UsedAt chain [] st c → ¬ (d ≤ c ∧ c < d + (sizeofBuff + sizeofNofreeHeader)) :=
    fun c hc => (NofreeInv.used_outside hparent h hc.of_nil).2 d hd
  have hheader : 0 < sizeofNofreeHeader := by decide
  refine .of_setCell (fun hno => hout _ hno ⟨by omega, by omega⟩) fun c hc htouches => ?_
  obtain rfl := hevent c htouches
  exact hout c hc ⟨le_rfl, by omega⟩

theorem NofreeInv.opMalloc_agree (h : NofreeInv path top inv others k r st region chain held)
    {d : ℕ} {q : Option ℕ} (hd : d ∈ chain) (hcall : st.opMalloc ops d n = some (q, st')) :
    AgreeOn (UsedAt chain [] st) st st' := by
  obtain ⟨data, a, hdata, -, rfl⟩ := Store.opMalloc_eq_some.mp hcall
  refine NofreeInv.setCell_agree hparent h hd hdata fun c htouches => ?_
  cases q with
  | none => exact absurd htouches id
  | some q => exact (show d = c from htouches).symm

theorem NofreeInv.refuses_agree (h : NofreeInv path top inv others k r st region chain held)
    (hrefuses : TailRefuses (fun t st => st.opMalloc ops t n) r st st') :
    AgreeOn (UsedAt chain [] st) st st' := by
  cases hrefuses with
  | empty => exact .refl _ st
  | refused hregion ht hrefused =>
    obtain rfl := Option.some.inj (h.record.symm.trans hregion)
    exact NofreeInv.opMalloc_agree hparent h (h.linked.tail_mem ht) hrefused

/-- **A request leaves what is in the blocks in use as it is**, whatever the ancestors do for
it. -/
theorem NofreeInv.malloc_agree (hops : OpsTable ops) (htop : top ≤ 2 ^ 63)
    (h : NofreeInv path top inv others k r st region chain held) {q : Option ℕ} (hn : n < 2 ^ 48)
    (hbelow : AsksBelow limit r (shallocBuffAllocSize n) st)
    (hcall : shallocMalloc ops (r :: path) n st = some (q, st')) :
    AgreeOn (UsedAt chain [] st) st st' := by
  have rule := insideRule htop (hops.nofree_issuesApart htop).places
  have hsound := hparent.beside others
  have hlog := h.log hsound (.request r n) (by simp [Event.touches])
  have hlogged : AgreeOn (UsedAt chain [] st) st (st.log (.request r n)) :=
    .log _ st (by simp [Event.touches])
  refine hlogged.trans ?_
  obtain ⟨-, -, rfl⟩ | ⟨hpos, hserve⟩ := shallocMalloc_cases hcall
  · exact .refl _ _
  obtain ⟨hpos', hsize⟩ := shallocBuffAllocSize_bounds hpos hn
  cases hserve with
  | served hregion ht hask =>
    obtain rfl := Option.some.inj (hlog.record.symm.trans hregion)
    exact NofreeInv.opMalloc_agree hparent hlog (hlog.linked.tail_mem ht) hask
  | notGrown hrefuses hgrow hret =>
    obtain ⟨h1, hlive, -⟩ := NofreeInv.refuses hparent hops htop hlog hpos hn hrefuses
    have hagree := h1.grow_agree hsound rule hpos' hsize (hbelow _ h.record) hgrow
    refine (NofreeInv.refuses_agree hparent hlog hrefuses).trans (hagree.mono fun a ha => ?_)
    exact NofreeInv.used_own hparent h1 (ha.mono (by simp [ChainLive, hlive]))
  | @retried _ t _ st1 st2 _ hrefuses hgrow hregion ht hask =>
    obtain ⟨h1, hlive, -⟩ := NofreeInv.refuses hparent hops htop hlog hpos hn hrefuses
    have hagree := h1.grow_agree hsound rule hpos' hsize (hbelow _ h.record) hgrow
    obtain ⟨hno, -⟩ | ⟨-, e, region', -, h2⟩ :=
      h1.grow hsound rule hpos' hsize (hbelow _ h.record) hgrow
    · exact absurd rfl hno
    obtain rfl := Option.some.inj (h2.record.symm.trans hregion)
    have hasked := NofreeInv.opMalloc_agree hparent h2 (h2.linked.tail_mem ht) hask
    have hkept : RegionKept _ _ _ _ _ _ st1 chain := ⟨_, _, h1⟩
    have hbelow1 : AsksBelow limit r (shallocBuffAllocSize n) st1 :=
      (hbelow.log _).refused hrefuses (opMalloc_issues _ n).regions
    have hold := hkept.grow_live hsound rule hpos' hsize hbelow1 hgrow
    refine ((NofreeInv.refuses_agree hparent hlog hrefuses).trans
      (hagree.mono fun a ha => ?_)).trans
      (hasked.mono fun a ha => ha.mono ?_)
    · exact NofreeInv.used_own hparent h1 (ha.mono (by simp [ChainLive, hlive]))
    · rintro e' ⟨d, hd, he'⟩
      refine ⟨d, List.mem_append_left _ hd, ?_⟩
      rw [hold d hd, hlive d]
      exact he'

theorem NofreeInv.free_agree (h : NofreeInv path top inv others k r st region chain held)
    (hcall : shallocFree ops r p st = some st') : AgreeOn (UsedAt chain [] st) st st' := by
  have hlog := h.log (hparent.beside others) (.release r p) (by simp [Event.touches])
  have hlogged : AgreeOn (UsedAt chain [] st) st (st.log (.release r p)) :=
    .log _ st (by simp [Event.touches])
  refine hlogged.trans ?_
  cases shallocFree_cases hcall with
  | ignored => exact .refl _ _
  | asked hregion ht _ _ hfree =>
    obtain rfl := Option.some.inj (h.record.symm.trans hregion)
    obtain ⟨data, a, hdata, -, rfl⟩ := Store.opFree_eq_some.mp hfree
    exact NofreeInv.setCell_agree hparent hlog (h.linked.tail_mem ht) hdata
      fun c htouches => (show _ = c from htouches).symm

end Agree

section Nofree

variable {ρ : Type} {ops : BuffAllocType → BuffOp (AllocState ρ)} {path : List ℕ}
  {top limit limit' k r n : ℕ} {inv : List Extent → Store (AllocState ρ) → Prop}
  {st st' : Store (AllocState ρ)} {region : Region} {chain : List ℕ}
  {held others blocks : List Extent} {e : Extent}

/-- The blocks are in use in a region of the no-free type, which holds blocks of its own parent
beside others. -/
structure NofreeHolds (path : List ℕ) (top limit : ℕ)
    (inv : List Extent → Store (AllocState ρ) → Prop) (others : List Extent) (k r : ℕ)
    (st : Store (AllocState ρ)) (region : Region) (chain : List ℕ) (held blocks : List Extent) :
    Prop where
  kept : NofreeInv path top inv others k r st region chain held
  modest : Modest top limit region
  live : ∀ e ∈ blocks, ChainLive chain st e
  apart : blocks.Pairwise Extent.Disjoint

/-- What a region of the no-free type has issued. -/
def NofreeIssued (path : List ℕ) (top limit : ℕ)
    (inv : List Extent → Store (AllocState ρ) → Prop) (r : ℕ) (blocks : List Extent)
    (st : Store (AllocState ρ)) : Prop :=
  ∃ others k region chain held,
    NofreeHolds path top limit inv others k r st region chain held blocks

theorem NofreeHolds.used (h : NofreeHolds path top limit inv others k r st region chain held blocks)
    {a : ℕ} (ha : Covers blocks a) : UsedAt chain [] st a := by
  obtain ⟨e, he, hin⟩ := ha
  exact Or.inl ⟨e, h.live e he, hin⟩

theorem NofreeHolds.asksBelow
    (h : NofreeHolds path top limit inv others k r st region chain held blocks)
    (hthird : Third limit limit') (hn : n < limit') :
    n < 2 ^ 48 ∧ AsksBelow limit r (shallocBuffAllocSize n) st := by
  have hrecord := hthird.record
  have hle := hthird.third
  have hsmall := hthird.small
  have hn48 : n < 2 ^ 48 := by omega
  refine ⟨hn48, fun region' hregion' => ?_⟩
  obtain rfl := Option.some.inj (h.kept.record.symm.trans hregion')
  refine h.modest.request_lt hn48 ?_
  unfold sizeofRegion sizeofBuff at *
  omega

/-- A block lies in the memory of the parent. -/
theorem NofreeHolds.bounds
    (h : NofreeHolds path top limit inv others k r st region chain held blocks) (he : e ∈ blocks) :
    0 < e.len ∧ e.ptr + e.len ≤ top := by
  obtain ⟨d, hd, hmem⟩ := h.live e he
  obtain ⟨_, data, -, -, -, -, -, hQ⟩ := h.kept.buffs d hd
  exact ⟨hQ.rep.inside.pos e hmem, le_trans (hQ.rep.bounds hmem).2 hQ.top_le⟩

/-- What is written to the blocks is written to the data of the buffers. -/
theorem NofreeHolds.inData (hops : OpsTable ops) (htop : top ≤ 2 ^ 63)
    (h : NofreeHolds path top limit inv others k r st region chain held blocks) {a : ℕ}
    (ha : Covers blocks a) : InData chain st a := by
  obtain ⟨e, he, hlo, hhi⟩ := ha
  obtain ⟨d, hd, hmem⟩ := h.live e he
  have hkept : RegionKept path (Beside others inv) (DefaultFits .nofree)
      (BuffInside .nofree top NofreeApart) k r st chain := ⟨region, held, h.kept⟩
  exact (hkept.use_inData (hops.nofree_issuesApart htop).places (nofree_placesApart (e.len + 1)) hd
    hmem).2 (Nat.lt_succ_self _) a hlo hhi

variable (hparent : SoundParent ops path top limit inv) (hops : OpsTable ops)
  (htop : top ≤ 2 ^ 63)
include hparent hops htop

/-- The owners of the blocks write to them. -/
theorem NofreeHolds.written
    (h : NofreeHolds path top limit inv others k r st region chain held blocks)
    (hagree : AgreeOn (fun a => ¬ Covers blocks a) st st') :
    ∃ held', NofreeHolds path top limit inv others k r st' region chain held' blocks := by
  have hsound := hparent.beside others
  have hkept : RegionKept path (Beside others inv) (DefaultFits .nofree)
      (BuffInside .nofree top NofreeApart) k r st chain := ⟨region, held, h.kept⟩
  have hdata : AgreeOn (fun a => ¬ InData chain st a) st st' :=
    hagree.mono fun a ha hcover => ha (h.inData hops htop hcover)
  obtain ⟨⟨region', held', h'⟩, hsame⟩ := hkept.written hsound hdata
  -- the record of the region is in no buffer
  have hrecord : st'.regions r = st.regions r :=
    hdata.regions r fun hin => (h.kept.inData hsound hin).2.1 rfl
  obtain rfl : region = region' :=
    Option.some.inj (h.kept.record.symm.trans (hrecord.symm.trans h'.record))
  refine ⟨held', h', h.modest, fun e he => ?_, h.apart⟩
  obtain ⟨d, hd, hmem⟩ := h.live e he
  exact ⟨d, hd, by rwa [(hsame d hd).2]⟩

/-- A request to the region. -/
theorem NofreeHolds.malloc (hthird : Third limit limit')
    (h : NofreeHolds path top limit inv others k r st region chain held blocks) {q : Option ℕ}
    (hn : n < limit') (hcall : shallocMalloc ops (r :: path) n st = some (q, st')) :
    ∃ k' region' chain' held', NofreeHolds path top limit inv others k' r st' region' chain' held'
        (q.elim blocks fun p => ⟨p, n⟩ :: blocks) ∧
      AgreeOn (Covers blocks) st st' := by
  obtain ⟨hn48, hbelow⟩ := h.asksBelow hthird hn
  obtain ⟨k', region', chain', held', h', hstays, hnew⟩ :=
    NofreeInv.malloc_keeps hparent hops htop h.kept hn48 hbelow hcall
  have hmodest : Modest top limit region' := by
    have hkept : RegionKept path (Beside others inv) (fun _ => Modest top limit)
        (fun _ _ _ _ => True) k r st chain :=
      ⟨region, held, h.kept.imp h.modest fun _ => trivial⟩
    have hsmall := hthird.small
    obtain ⟨region'', _, h''⟩ := hkept.malloc (hparent.beside others)
      (modestRule (by omega) (by omega)) hn48 hbelow hcall
    obtain rfl := Option.some.inj (h'.record.symm.trans h''.record)
    exact h''.property
  refine ⟨k', region', chain', held', ⟨h', hmodest, ?_, ?_⟩,
    (NofreeInv.malloc_agree hparent hops htop h.kept hn48 hbelow hcall).mono fun a => h.used⟩
  · intro e he
    cases q with
    | none => exact hstays e (h.live e he)
    | some p =>
      rcases List.mem_cons.mp he with rfl | he
      · exact (hnew p rfl).1
      · exact hstays e (h.live e he)
  · cases q with
    | none => exact h.apart
    | some p =>
      exact List.pairwise_cons.mpr ⟨fun e he => (hnew p rfl).2.1 e (h.live e he), h.apart⟩

/-- A free of a block. -/
theorem NofreeHolds.free (hthird : Third limit limit')
    (h : NofreeHolds path top limit inv others k r st region chain held blocks) (he : e ∈ blocks)
    (hcall : shallocFree ops r e.ptr st = some st') :
    ∃ region' held', NofreeHolds path top limit inv others k r st' region' chain held'
        (releaseBlock e.ptr blocks) ∧
      AgreeOn (Covers (releaseBlock e.ptr blocks)) st st' := by
  have hsound := hparent.beside others
  have hop := (hops.nofree_issuesApart htop).places
  have hkept : RegionKept path (Beside others inv) (DefaultFits .nofree)
      (BuffInside .nofree top NofreeApart) k r st chain := ⟨region, held, h.kept⟩
  obtain ⟨d, hd, hmem⟩ := h.live e he
  have hkept' := hkept.free hsound (insideRule htop hop)
    (hkept.inUse_tail hsound hop ⟨d, hd, e, hmem, rfl⟩) hcall
  obtain ⟨hothers, -, -⟩ := NofreeInv.free_keeps hparent hops htop h.kept ⟨d, hd, hmem⟩ hcall
  have hsub : ∀ a, Covers (releaseBlock e.ptr blocks) a → Covers blocks a := by
    rintro a ⟨e', he', hin⟩
    exact ⟨e', (mem_releaseBlock.mp he').1, hin⟩
  have hmodest : ∀ region', st'.regions r = some region' → Modest top limit region' := by
    have hkept : RegionKept path (Beside others inv) (fun _ => Modest top limit)
        (fun _ _ _ _ => True) k r st chain :=
      ⟨region, held, h.kept.imp h.modest fun _ => trivial⟩
    have hsmall := hthird.small
    intro region' hregion'
    obtain ⟨region'', _, h''⟩ := hkept.free hsound (modestRule (by omega) (by omega))
      (fun _ _ _ _ _ _ _ => trivial) hcall
    obtain rfl := Option.some.inj (hregion'.symm.trans h''.record)
    exact h''.property
  have hiff := hkept'.liveIn_iff
  obtain ⟨region', held', h'⟩ := hkept'
  refine ⟨region', held', ⟨h', hmodest _ h'.record, fun e' he' => ?_,
    h.apart.sublist List.filter_sublist⟩,
    (NofreeInv.free_agree hparent h.kept hcall).mono fun a ha => h.used (hsub a ha)⟩
  obtain ⟨he', hne⟩ := mem_releaseBlock.mp he'
  exact (hiff e').mp (hothers e' (h.live e' he') fun heq => hne (heq ▸ rfl))

/-- **A region of the no-free type over a sound parent is a sound parent.** -/
theorem nofree_soundParent (hthird : Third limit limit') :
    SoundParent ops (r :: path) top limit' (NofreeIssued path top limit inv r) where
  room := hthird.record
  apart := by
    rintro blocks st ⟨_, _, _, _, _, h⟩
    exact h.apart
  bounds := by
    rintro blocks st ⟨_, _, _, _, _, h⟩ e he
    exact h.bounds he
  own := by
    rintro blocks st st' ⟨others, k, region, chain, held, h⟩ hagree
    obtain ⟨held', h'⟩ := h.written hparent hops htop hagree
    exact ⟨others, k, region, chain, held', h'⟩
  served := by
    rintro blocks st st' n p ⟨others, k, region, chain, held, h⟩ hn hcall
    obtain ⟨k', region', chain', held', h', hagree⟩ := h.malloc hparent hops htop hthird hn hcall
    exact ⟨⟨others, k', region', chain', held', h'⟩, hagree⟩
  refused := by
    rintro blocks st st' n ⟨others, k, region, chain, held, h⟩ hn hcall
    obtain ⟨k', region', chain', held', h', hagree⟩ := h.malloc hparent hops htop hthird hn hcall
    exact ⟨⟨others, k', region', chain', held', h'⟩, hagree⟩
  freed := by
    rintro blocks st st' e parent ⟨others, k, region, chain, held, h⟩ he hparent' hcall
    obtain rfl : r = parent := Option.some.inj hparent'
    obtain ⟨region', held', h', hagree⟩ := h.free hparent hops htop hthird he hcall
    exact ⟨⟨others, k, region', chain, held', h'⟩, hagree⟩

/-- It leaves the bytes of its blocks as they are, even if it grows. -/
theorem nofree_bytesParent (hthird : Third limit limit') (hbytes : BytesParent ops path limit inv) :
    BytesParent ops (r :: path) limit' (NofreeIssued path top limit inv r) where
  asked := by
    rintro blocks st st' n q desc ⟨others, k, region, chain, held, h⟩ hn hcall hdesc
    obtain ⟨hn48, hbelow⟩ := h.asksBelow hthird hn
    obtain ⟨k', region', chain', held', h', -⟩ := h.malloc hparent hops htop hthird hn hcall
    suffices hdescribes : Describes path top inv others r st' desc from
      (NofreeInv.malloc_leaves hparent hops htop hbytes h.kept hn48 hbelow hcall hdescribes).mono
        fun a ha => (h.used ha).of_nil
    -- the blocks hold no descriptor of the region, and lie in the blocks of its parent
    intro k'' region'' chain'' held'' h'' a ha
    refine hdesc a fun hcover => ?_
    obtain rfl := Option.some.inj (h'.kept.record.symm.trans h''.record)
    obtain rfl := h'.kept.linked.head.unique h''.linked.head
    have hused : UsedAt chain' others st' a := (h'.used hcover).of_nil
    rcases ha with hmem | ⟨hnot, hnot'⟩
    · exact (NofreeInv.used_outside hparent h'' hused).2 a hmem
        ⟨le_rfl, Nat.lt_add_of_pos_right (by decide)⟩
    · exact (NofreeInv.used_covers h'' hused).elim hnot hnot'

/-- It takes back its blocks, in that it does nothing with them. -/
theorem nofree_takesBack : TakesBack ops (r :: path) (NofreeIssued path top limit inv r) := by
  rintro blocks st e parent ⟨others, k, region, chain, held, h⟩ he hparent'
  obtain rfl : r = parent := Option.some.inj hparent'
  obtain ⟨d, hd, hmem⟩ := h.live e he
  have huse : InUse (liveBlocks d st.trace) e.ptr := ⟨e, hmem, rfl⟩
  have hkept : RegionKept path (Beside others inv) (DefaultFits .nofree)
      (BuffInside .nofree top NofreeApart) k r st chain := ⟨region, held, h.kept⟩
  have hreaches := (hkept.freeReaches (hparent.beside others)
    (hops.nofree_issuesApart htop).places ⟨d, hd, huse⟩).reaches d hd huse
  rw [hreaches]
  split
  · obtain ⟨_, data, -, -, -, hdata, -, hQ⟩ := h.kept.buffs d hd
    refine ⟨_, Store.opFree_eq_some.mpr ⟨data, st.cells data.start, hdata, ?_, rfl⟩⟩
    rw [hQ.allocType, hops.nofree]
    rfl
  · exact ⟨_, rfl⟩

omit hparent in
/-- **A region of the no-free type over a parent is a parent.** -/
theorem FullParent.nofree (hthird : Third limit limit') (h : FullParent ops path top limit inv) :
    FullParent ops (r :: path) top limit' (NofreeIssued path top limit inv r) where
  sound := nofree_soundParent h.sound hops htop hthird
  bytes := nofree_bytesParent h.sound hops htop hthird h.bytes
  takesBack := nofree_takesBack h.sound hops htop

/-- A region that has just been made has issued nothing. -/
theorem NofreeIssued.create {initSize buffSize blockSize flags : ℕ} {given : BuffAllocType}
    (h : inv others st) (hinit : initSize < 2 ^ 48) (hbuff : buffSize < 2 ^ 48)
    (htype : (shallocGetRegion path buffSize blockSize flags given).defaultData.allocType = .nofree)
    (hmodest : Modest top limit (shallocGetRegion path buffSize blockSize flags given))
    (hlimit : limit ≤ 2 ^ 64)
    (hbelow : (shallocGetRegion path buffSize blockSize flags given).request initSize < limit)
    (hcall : shallocRegionCreate ops path initSize buffSize blockSize flags given st =
      some (some r, st')) : NofreeIssued path top limit inv r [] st' := by
  have hsound := hparent.beside others
  obtain ⟨-, k, chain, hheld⟩ := (SharedRun.create h hinit hbuff htype hbelow hcall).kept htop
    hparent (hops.nofree_issuesApart htop).places
  obtain ⟨region, held, h'⟩ := hheld.kept
  have hmade : Beside others inv [] st := ⟨others, h, by simp⟩
  obtain ⟨region'', _, h''⟩ := hsound.create hmade (J := fun _ => Modest top limit) hmodest
    (modestRule (by omega) hlimit) (by omega) hbelow hcall
  obtain rfl := Option.some.inj (h'.record.symm.trans h''.record)
  exact ⟨others, k, region, chain, held, h', h''.property, fun _ he => absurd he List.not_mem_nil,
    List.Pairwise.nil⟩

end Nofree

section Tower

variable {ρ : Type} {ops : BuffAllocType → BuffOp (AllocState ρ)} {path : List ℕ} {top limit : ℕ}
  {inv : List Extent → Store (AllocState ρ) → Prop}

/-- What the first of the regions `rs` has issued. Each of them is of the no-free type, and the
parent of the one before it. -/
def TowerIssued (path : List ℕ) (top limit : ℕ) (inv : List Extent → Store (AllocState ρ) → Prop) :
    List ℕ → List Extent → Store (AllocState ρ) → Prop
  | [] => inv
  | r :: rs => NofreeIssued (rs ++ path) top (limit / 3 ^ rs.length)
      (TowerIssued path top limit inv rs) r

/-- **The first of a stack of regions over a parent is a parent**, for requests that are smaller
by a factor of three for every region. -/
theorem FullParent.tower (hops : OpsTable ops) (htop : top ≤ 2 ^ 63) (hsmall : limit ≤ 2 ^ 49)
    (h : FullParent ops path top limit inv) (rs : List ℕ)
    (hlimit : sizeofRegion < limit / 3 ^ rs.length) :
    FullParent ops (rs ++ path) top (limit / 3 ^ rs.length)
      (TowerIssued path top limit inv rs) := by
  induction rs with
  | nil => simpa [TowerIssued] using h
  | cons r rs ih =>
    rw [List.length_cons, Nat.pow_succ, ← Nat.div_div_eq_div_mul] at hlimit ⊢
    have hle : limit / 3 ^ rs.length ≤ limit := Nat.div_le_self _ _
    have hthird : Third (limit / 3 ^ rs.length) (limit / 3 ^ rs.length / 3) :=
      ⟨hlimit, Nat.mul_div_le _ _, le_trans hle hsmall⟩
    exact (ih (lt_of_lt_of_le hlimit (Nat.div_le_self _ _))).nofree hops htop hthird

end Tower

end Shalloc
