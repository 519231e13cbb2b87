import Shalloc.Region.Tree

/-!
# A refused request leaves the tree as it was

`shalloc_malloc` on a region of the tree walks up to the heap and grows one region after
the other on its way back. Either every level that has grown serves its request from the
new buffer, or the request stops before any region has changed, at the heap or at a
NON_RESIZABLE region.

## Main definitions

- `Unchanged` — records, descriptors and no-free headers are the same
- `RetriesServed` — no buffer refuses once a buffer has been created
- `AtomicCall` — what a call may do

## Main results

- `region_malloc_atomic` — every call on a region of the tree is atomic
-/

namespace Shalloc

variable {ρ : Type} {other : BuffAllocType → BuffOp ρ} {heapType : BuffAllocType}
  {heapRep : Buff → List Extent → AllocState ρ → Prop}
  {st st' st'' : Store (AllocState ρ)} {F : Forest}

/-- The region records, the buffer descriptors and the no-free headers are the same. -/
structure Unchanged (st st' : Store (AllocState ρ)) : Prop where
  regions : st'.regions = st.regions
  buffs : st'.buffs = st.buffs
  headers : ∀ start header, st.cells start = .nofree header → header.next < 2 ^ 64 →
    st'.cells start = .nofree header

theorem Unchanged.refl (st : Store (AllocState ρ)) : Unchanged st st :=
  ⟨rfl, rfl, fun _ _ hcell _ => hcell⟩

theorem Unchanged.trans (h : Unchanged st st') (h' : Unchanged st' st'') : Unchanged st st'' :=
  ⟨h'.regions.trans h.regions, h'.buffs.trans h.buffs, fun start header hcell hnext =>
    h'.headers start header (h.headers start header hcell hnext) hnext⟩

theorem Unchanged.log (st : Store (AllocState ρ)) (event : Event) :
    Unchanged st (st.log event) :=
  ⟨rfl, rfl, fun _ _ hcell _ => hcell⟩

/-- `_nofree_malloc` refuses without a change, whatever the size. -/
theorem nofreeOpMalloc_refused {buff : Buff} {n : ℕ} {header : NofreeHeader} {a : AllocState ρ}
    (h : nofreeOpMalloc buff n (.nofree header) = some (none, a)) (hnext : header.next < 2 ^ 64) :
    a = .nofree header := by
  simp only [nofreeOpMalloc, bind, Option.bind_eq_some_iff, Prod.exists] at h
  obtain ⟨p, header', halloc, h⟩ := h
  obtain ⟨rfl, rfl⟩ := Prod.mk.inj (Option.some.inj h)
  rw [nofreeAlloc_refused halloc hnext]

/-- A buffer that refuses a request keeps its no-free header. -/
theorem unchanged_of_refused {b n : ℕ}
    (h : st.opMalloc (shallocSpaceBuffOps other) b n = some (none, st')) : Unchanged st st' := by
  obtain ⟨buff, a, -, hcall, rfl⟩ := Store.opMalloc_eq_some.mp h
  refine ⟨rfl, rfl, fun start header hcell hnext => ?_⟩
  show Function.update st.cells buff.start a start = _
  by_cases hstart : start = buff.start
  · subst hstart
    rw [hcell] at hcall
    rw [Function.update_self]
    -- the operations of every other type do not run on a no-free header
    cases htype : buff.allocType with
    | nofree => exact nofreeOpMalloc_refused (by rw [htype] at hcall; exact hcall) hnext
    | none => rw [htype] at hcall; exact absurd hcall (by simp [shallocSpaceBuffOps])
    | slab => rw [htype] at hcall; exact absurd hcall (by simp [shallocSpaceBuffOps, slabOpMalloc])
    | buffer => rw [htype] at hcall; exact absurd hcall (by simp [shallocSpaceBuffOps, otherOp])
    | simple => rw [htype] at hcall; exact absurd hcall (by simp [shallocSpaceBuffOps, otherOp])
    | mplite => rw [htype] at hcall; exact absurd hcall (by simp [shallocSpaceBuffOps, otherOp])
  · rw [Function.update_of_ne hstart]
    exact hcell

section Events

variable {new later earlier : List Event}

/-- No buffer is created. -/
def NoCreate (new : List Event) : Prop := ∀ b ret, Event.create b ret ∉ new

/-- No buffer refuses a request. -/
def NoRefusal (new : List Event) : Prop := ∀ b n, Event.malloc b n none ∉ new

/-- Every buffer that is created serves a request, and no buffer refuses a request after
a buffer has been created. The newest event comes first. -/
structure RetriesServed (new : List Event) : Prop where
  served : ∀ b ret, Event.create b ret ∈ new → ∃ n p, Event.malloc b n (some p) ∈ new
  noRefusal : new.Pairwise fun later earlier => ∀ b ret c n, earlier = Event.create b ret →
    later ≠ Event.malloc c n none

theorem RetriesServed.of_noCreate (h : NoCreate new) : RetriesServed new where
  served b ret hmem := absurd hmem (h b ret)
  noRefusal := List.pairwise_of_forall_mem_list fun _ _ _ hmem b ret _ _ heq _ =>
    h b ret (heq ▸ hmem)

/-- A part without refusals may follow any part. -/
theorem RetriesServed.append_of_noRefusal (h : RetriesServed earlier) (hlater : NoRefusal later)
    (hserved : ∀ b ret, Event.create b ret ∈ later → ∃ n p, Event.malloc b n (some p) ∈ later) :
    RetriesServed (later ++ earlier) where
  served b ret hmem := by
    cases List.mem_append.mp hmem with
    | inl hmem =>
      obtain ⟨n, p, hmem⟩ := hserved b ret hmem
      exact ⟨n, p, List.mem_append_left _ hmem⟩
    | inr hmem =>
      obtain ⟨n, p, hmem⟩ := h.served b ret hmem
      exact ⟨n, p, List.mem_append_right _ hmem⟩
  noRefusal := List.pairwise_append.mpr
    ⟨List.pairwise_of_forall_mem_list fun x hx _ _ _ _ c n _ heq => hlater c n (heq ▸ hx),
      h.noRefusal, fun x hx _ _ _ _ c n _ heq => hlater c n (heq ▸ hx)⟩

/-- Any part may follow a part in which no buffer is created. -/
theorem RetriesServed.append_noCreate (h : RetriesServed later) (hearlier : NoCreate earlier) :
    RetriesServed (later ++ earlier) where
  served b ret hmem := by
    obtain ⟨n, p, hmem⟩ := h.served b ret ((List.mem_append.mp hmem).resolve_right
      (hearlier b ret))
    exact ⟨n, p, List.mem_append_left _ hmem⟩
  noRefusal := List.pairwise_append.mpr
    ⟨h.noRefusal, (RetriesServed.of_noCreate hearlier).noRefusal,
      fun _ _ _ hy b ret _ _ heq _ => hearlier b ret (heq ▸ hy)⟩

end Events

/-- The buffer of the heap refused the request that reached it. -/
def HeapRefused (root : ℕ) (st : Store (AllocState ρ)) (new : List Event) : Prop :=
  ∃ region b n, st.regions root = some region ∧ region.dataTail = some b ∧
    Event.request root n ∈ new ∧ Event.malloc b n none ∈ new

/-- A region below the heap that is NON_RESIZABLE and has a buffer. -/
def FixedBelow (root : ℕ) (st : Store (AllocState ρ)) (c : ℕ) : Prop :=
  c ≠ root ∧ ∃ region, st.regions c = some region ∧ region.dataTail.isSome ∧
    hasFlag region.flags .nonResizable = true

/-- What a call of `shalloc_malloc` along `path`, with result `p` and the events `new`, may
do to a tree under the heap at `root`. -/
structure AtomicCall (root : ℕ) (path : List ℕ) (st st' : Store (AllocState ρ)) (p : Option ℕ)
    (new : List Event) : Prop where
  trace : st'.trace = new ++ st.trace
  retried : RetriesServed new
  unchanged : p = none → Unchanged st st' ∧ NoCreate new
  reason : p = none → HeapRefused root st new ∨ ∃ c ∈ path, FixedBelow root st c

/-- What a region needs of its parent for its own calls to be atomic. -/
def ParentAtomic (heapType : BuffAllocType)
    (heapRep : Buff → List Extent → AllocState ρ → Prop) (F : Forest) (r : ℕ)
    (parentMalloc : ℕ → Store (AllocState ρ) → Option (Option ℕ × Store (AllocState ρ))) : Prop :=
  ∀ q, (F.ancestors r).head? = some q → ∀ {st st' m p}, Sim heapType heapRep st F → 0 < m →
    parentMalloc m st = some (p, st') → Bounded st'.trace →
    ∃ new, AtomicCall F.root (F.ancestors r) st st' p new

/-- The tail buffer refuses, or there is none: nothing has changed so far. -/
theorem TailRefuses.unchanged {r n : ℕ}
    (h : TailRefuses (fun t st => st.opMalloc (shallocSpaceBuffOps other) t n) r st st') :
    Unchanged st st' ∧ ∃ new, st'.trace = new ++ st.trace ∧ NoCreate new ∧
      ∀ region t, st.regions r = some region → region.dataTail = some t →
        Event.malloc t n none ∈ new := by
  cases h with
  | empty hregion htail =>
    refine ⟨.refl _, [], rfl, by simp [NoCreate], fun region' t hregion' ht => ?_⟩
    obtain rfl := Option.some.inj (hregion.symm.trans hregion')
    exact absurd (htail.symm.trans ht) (by simp)
  | @refused region t _ hregion htail hcall =>
    refine ⟨unchanged_of_refused hcall, [.malloc t n none], ?_, by simp [NoCreate],
      fun region' t' hregion' ht' => ?_⟩
    · obtain ⟨buff, a, -, -, rfl⟩ := Store.opMalloc_eq_some.mp hcall
      rfl
    · obtain rfl := Option.some.inj (hregion.symm.trans hregion')
      obtain rfl := Option.some.inj (htail.symm.trans ht')
      exact List.mem_cons_self

variable {r n : ℕ} {p : Option ℕ}
  {parentMalloc : ℕ → Store (AllocState ρ) → Option (Option ℕ × Store (AllocState ρ))}

/-- A region that cannot grow: the heap has refused, or the region is NON_RESIZABLE. -/
theorem TailRefuses.atomic {root : ℕ} {ancestors : List ℕ}
    (hrefuses : TailRefuses (fun t st => st.opMalloc (shallocSpaceBuffOps other) t n) r
      (st.log (.request r n)) st') {region : Region} {t : ℕ}
    (hregion : st'.regions r = some region) (htail : region.dataTail = some t)
    (hfixed : hasFlag region.flags .nonResizable = true) :
    ∃ new, AtomicCall root (r :: ancestors) st st' none new := by
  obtain ⟨hsame, new, htrace, hcreate, hmem⟩ := hrefuses.unchanged
  rw [hsame.regions] at hregion
  have hnew : NoCreate (new ++ [.request r n]) := by
    intro b ret hmem
    exact hcreate b ret ((List.mem_append.mp hmem).resolve_right (by simp))
  refine ⟨new ++ [.request r n], by simp [htrace], .of_noCreate hnew,
    fun _ => ⟨(Unchanged.log _ _).trans hsame, hnew⟩, fun _ => ?_⟩
  by_cases hroot : r = root
  · subst hroot
    exact Or.inl ⟨region, t, n, hregion, htail, by simp,
      List.mem_append_left _ (hmem region t hregion htail)⟩
  · exact Or.inr ⟨r, List.mem_cons_self, hroot, region, hregion, by simp [htail], hfixed⟩

/-- The parent has refused: its reason is that of the region. -/
theorem AtomicCall.of_parent {root : ℕ} {ancestors : List ℕ} {st1 : Store (AllocState ρ)}
    {parentNew : List Event}
    (h : AtomicCall root ancestors st1 st' none parentNew)
    (hrefuses : TailRefuses (fun t st => st.opMalloc (shallocSpaceBuffOps other) t n) r
      (st.log (.request r n)) st1) :
    ∃ new, AtomicCall root (r :: ancestors) st st' none new := by
  obtain ⟨hsame, tailNew, htrace, hcreate, -⟩ := hrefuses.unchanged
  obtain ⟨hsame', hcreate'⟩ := h.unchanged rfl
  have hnew : NoCreate (parentNew ++ (tailNew ++ [.request r n])) := by
    intro b ret hmem
    cases List.mem_append.mp hmem with
    | inl hmem => exact hcreate' b ret hmem
    | inr hmem => exact hcreate b ret ((List.mem_append.mp hmem).resolve_right (by simp))
  refine ⟨_, by simp [h.trace, htrace], .of_noCreate hnew,
    fun _ => ⟨((Unchanged.log _ _).trans hsame).trans hsame', hnew⟩, fun _ => ?_⟩
  have hregions : st1.regions = st.regions := hsame.regions
  cases h.reason rfl with
  | inl hheap =>
    obtain ⟨region, b, m, hregion, htail, hrequest, hmalloc⟩ := hheap
    rw [hregions] at hregion
    exact Or.inl ⟨region, b, m, hregion, htail, List.mem_append_left _ hrequest,
      List.mem_append_left _ hmalloc⟩
  | inr hfixed =>
    obtain ⟨c, hc, hne, region, hregion, hfixed⟩ := hfixed
    rw [hregions] at hregion
    exact Or.inr ⟨c, List.mem_cons_of_mem _ hc, hne, region, hregion, hfixed⟩

/-- The parent has served, and the region serves from its new buffer. -/
theorem AtomicCall.of_grown {root t d q : ℕ} {ret : ℤ} {ancestors : List ℕ}
    {st1 st2 st3 st4 : Store (AllocState ρ)} {parentNew : List Event} {buff : Buff}
    {region : Region} (h : AtomicCall root ancestors st1 st2 (some d) parentNew)
    (hrefuses : TailRefuses (fun t st => st.opMalloc (shallocSpaceBuffOps other) t n) r
      (st.log (.request r n)) st1)
    (hcreate : (st2.setBuff d buff).opCreate (shallocSpaceBuffOps other) d = some (ret, st3))
    (hattach : AttachCases r d (st3.setRegion r region) st4)
    {region4 : Region} (hregion : st4.regions r = some region4) (htail : region4.dataTail = some t)
    (hmalloc : st4.opMalloc (shallocSpaceBuffOps other) t n = some (some q, st')) :
    ∃ new, AtomicCall root (r :: ancestors) st st' (some q) new := by
  obtain rfl := hattach.tail hregion htail
  obtain ⟨-, tailNew, htrace, hnone, -⟩ := hrefuses.unchanged
  obtain ⟨stores, hstores, honly⟩ := hattach.trace
  obtain ⟨_, _, -, -, rfl⟩ := Store.opCreate_eq_some.mp hcreate
  obtain ⟨_, _, -, -, rfl⟩ := Store.opMalloc_eq_some.mp hmalloc
  -- what follows the call of the parent holds one creation and one request, which is served
  let later := .malloc t n (some q) :: (stores ++ [.store r sizeofRegion, .create t ret,
    .store t sizeofBuff])
  have hlater : NoRefusal later := by
    intro b m hmem
    simp only [later, List.mem_cons, List.mem_append, Event.malloc.injEq, reduceCtorEq, and_false,
      or_false, false_or, List.not_mem_nil] at hmem
    obtain ⟨p, len, heq⟩ := honly _ hmem
    exact absurd heq (by simp)
  have hserved : ∀ b ret', Event.create b ret' ∈ later →
      ∃ m p, Event.malloc b m (some p) ∈ later := by
    intro b ret' hmem
    simp only [later, List.mem_cons, List.mem_append, Event.create.injEq, reduceCtorEq, false_or,
      or_false, List.not_mem_nil] at hmem
    cases hmem with
    | inl hmem =>
      obtain ⟨p, len, heq⟩ := honly _ hmem
      exact absurd heq (by simp)
    | inr heq =>
      rw [heq.1]
      exact ⟨n, q, List.mem_cons_self⟩
  have hearlier : NoCreate (tailNew ++ [.request r n]) := by
    intro b ret' hmem
    exact hnone b ret' ((List.mem_append.mp hmem).resolve_right (by simp))
  exact ⟨later ++ (parentNew ++ (tailNew ++ [.request r n])),
    by simp [later, hstores, h.trace, htrace],
    (h.retried.append_noCreate hearlier).append_of_noRefusal hlater hserved,
    fun heq => absurd heq (by simp), fun heq => absurd heq (by simp)⟩

section Sim

variable (hheap : SoundOp (shallocSpaceBuffOps other heapType) 0 (2 ^ 62) heapRep)
include hheap

/-- A call on a region is atomic if the calls on its parent are. -/
theorem Sim.serve_atomic (hs : Sim heapType heapRep st F) (hr : r ∈ F.regions)
    (hparent : ParentAnswers heapType heapRep F r parentMalloc)
    (hatomic : ParentAtomic heapType heapRep F r parentMalloc) (hpos : 0 < n) (hn : n < 2 ^ 62)
    (h : ServeCases (shallocSpaceBuffOps other) parentMalloc
      (fun t st => st.opMalloc (shallocSpaceBuffOps other) t n) r n (st.log (.request r n)) p st')
    (hbound : Bounded st'.trace) :
    ∃ new, AtomicCall F.root (r :: F.ancestors r) st st' p new := by
  have hsize := shallocBuffAllocSize_lt hn
  have hask := askAnswers_opMalloc hheap (r := r) hpos hn
  have hlog : Sim heapType heapRep (st.log (.request r n)) F :=
    hs.log fun b => liveBlocks_request _ _ _ _
  cases h with
  | @served region t q _ hregion ht hcall =>
    obtain ⟨_, _, -, -, rfl⟩ := Store.opMalloc_eq_some.mp hcall
    exact ⟨[.malloc t n (some q), .request r n], rfl, .of_noCreate (by simp [NoCreate]),
      fun heq => absurd heq (by simp), fun heq => absurd heq (by simp)⟩
  | notGrown hrefuses hgrow hret =>
    have hs1 := hrefuses.sim hlog hr hask
    cases hgrow with
    | fixed hregion ht hfixed => exact hrefuses.atomic hregion ht hfixed
    | failed hregion hfixed halloc =>
      -- only the parent can have refused, and its call changed nothing
      obtain ⟨hroot, hrep⟩ := hs1.parent_of_not_fixed hr hregion hfixed
      obtain ⟨q, hq, hmalloc⟩ :=
        hs1.alloc_refused hr hregion hrep hroot hparent hsize halloc hbound
      rw [hrep.request_eq hroot hsize] at hmalloc
      obtain ⟨parentNew, hcall⟩ := hatomic q (by rw [← hrep.ancestors]; exact hq) hs1
        (Nat.add_pos_left (by decide) _) hmalloc hbound
      exact hcall.of_parent hrefuses
    | grown => exact absurd rfl hret
  | @retried region t p st1 st4 _ hrefuses hgrow hregion ht hcall =>
    -- the request after the growth is served, so that the growth is not in vain
    have hs1 := hrefuses.sim hlog hr hask
    have hbound4 := hbound.of_extends (Store.extends_opMalloc hcall)
    obtain ⟨q, st5, hserved⟩ :=
      hs1.grow_retry hr hparent hpos hn hgrow hbound4 hregion ht
    obtain ⟨rfl, rfl⟩ := Prod.mk.inj (Option.some.inj (hserved.symm.trans hcall))
    cases hgrow with
    | grown hregion1 hfixed halloc hattach =>
      obtain ⟨hroot, hrep⟩ := hs1.parent_of_not_fixed hr hregion1 hfixed
      cases halloc with
      | built hregion2 hparent2 hmalloc _ hcreate =>
        obtain rfl := Option.some.inj (hregion1.symm.trans hregion2)
        have hbound2 := ((hbound4.of_extends hattach.extends).of_extends
          (Store.extends_setRegion _ _ _)).of_extends (Store.extends_opCreate hcreate)
        rw [hrep.request_eq hroot hsize] at hmalloc
        obtain ⟨parentNew, hparentCall⟩ := hatomic _ (by rw [← hrep.ancestors]; exact hparent2) hs1
          (Nat.add_pos_left (by decide) _) hmalloc
            (hbound2.of_extends (Store.extends_setBuff _ _ _))
        exact hparentCall.of_grown hrefuses hcreate hattach hregion ht hserved

/-- `shalloc_malloc` is atomic, by induction on the path to the root. -/
theorem Sim.malloc_atomic (path : List ℕ) : ∀ {st st' F r n p}, Sim heapType heapRep st F →
    r ∈ F.regions → path = r :: F.ancestors r → 0 < n →
    shallocMalloc (shallocSpaceBuffOps other) path n st = some (p, st') → Bounded st'.trace →
    ∃ new, AtomicCall F.root path st st' p new := by
  induction path with
  | nil => exact fun _ _ hpath => absurd hpath (by simp)
  | cons c ancestors ih =>
    intro st st' F r n p hs hr hpath hpos h hbound
    obtain ⟨rfl, rfl⟩ := List.cons.inj hpath
    have hn := (Sim.malloc hheap _ hs hr rfl h hbound).1
    obtain ⟨hzero, -, -⟩ | ⟨-, hserve⟩ := shallocMalloc_cases h
    · exact absurd hzero (Nat.pos_iff_ne_zero.mp hpos)
    · refine hs.serve_atomic hheap hr (hs.parentAnswers hheap hr) ?_ hpos hn hserve hbound
      intro q hq st1 st2 m p1 hs1 hm hmalloc hbound1
      obtain ⟨hq', heq⟩ := hs.ok.parent_eq hr hq
      exact ih hs1 hq' heq hm hmalloc hbound1

end Sim

/-- **Atomicity of allocation.** In a tree of no-free regions under a heap with a sound
allocator, a request either is served at every level that has grown for it, or changes no
region at all, in which case the heap has refused or a NON_RESIZABLE region on the path
has its buffer. -/
theorem region_malloc_atomic {w : TreeWorld ρ}
    (hheap : SoundOp (shallocSpaceBuffOps other heapType) 0 (2 ^ 62) heapRep)
    (run : TreeReach other heapType heapRep w) (hr : r ∈ w.regions) (hpos : 0 < n)
    (hcall : shallocMalloc (shallocSpaceBuffOps other) (w.st.path r) n w.st = some (p, st'))
    (hbound : Bounded st'.trace) :
    ∃ new, AtomicCall w.root (w.st.path r) w.st st' p new := by
  obtain ⟨F, hinv⟩ := run.inv hheap (hbound.of_extends (shallocMalloc_extends _ hcall))
  rw [← hinv.regions] at hr
  have hpath := hinv.path hr
  rw [hpath] at hcall ⊢
  rw [← hinv.root]
  exact Sim.malloc_atomic hheap _ hinv.sim hr rfl hpos hcall hbound

/-- A region under a heap of 64 KiB, and a request that the heap refuses. -/
theorem region_malloc_atomic_refused :
    ∃ (st st' : Store (AllocState Unit)) (new : List Event),
      st.path 8216 = [8216, 4096] ∧
      shallocMalloc (shallocSpaceBuffOps noOther) [8216, 4096] 100000 st = some (none, st') ∧
      AtomicCall 4096 [8216, 4096] st st' none new := by
  obtain ⟨st, st', hcreate, hmalloc, hbound⟩ : ∃ st st',
      shallocRegionCreate (shallocSpaceBuffOps noOther) (nofreeHeap.st.path 4096) 0 0 0 0 .nofree
        nofreeHeap.st = some (some 8216, st) ∧
      shallocMalloc (shallocSpaceBuffOps noOther) (st.path 8216) 100000 st = some (none, st') ∧
      Bounded st'.trace := ⟨_, _, rfl, rfl, by decide⟩
  let w : TreeWorld Unit := { nofreeHeap with st := st, regions := [8216, 4096] }
  have run : TreeReach noOther .nofree NofreeRep w := (TreeReach.start nofreeHeap_start).step
    (.create List.mem_cons_self (by decide) (by decide) (Or.inr rfl) (by decide) hcreate)
  have hpath : st.path 8216 = [8216, 4096] := by
    obtain ⟨-, rfl⟩ := Prod.mk.inj (Option.some.inj hcreate)
    rfl
  obtain ⟨new, hatomic⟩ := region_malloc_atomic (nofree_soundOp noOther).headless run
    (List.mem_cons_self : 8216 ∈ w.regions) (by decide) hmalloc hbound
  rw [hpath] at hmalloc
  refine ⟨st, st', new, hpath, hmalloc, ?_⟩
  rw [← hpath]
  exact hatomic

end Shalloc
