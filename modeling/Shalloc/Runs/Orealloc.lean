import Shalloc.Runs.MpliteHeap
import Shalloc.Runs.Nested

/-!
# What `shalloc_orealloc` does to the bytes

A region of the no-free type over a sound parent. The call may obtain a buffer from the
parent, which may grow in its turn, copy, and free. The bytes of the old block arrive in the
new one and no other block changes.

## Main definitions

- `OreallocKeeps` — what the call does to the bytes of the blocks

## Main results

- `shallocOrealloc_keeps` — what `shalloc_orealloc` does to the bytes, in every run
-/

namespace Shalloc

section Region

variable {ρ : Type} {ops : BuffAllocType → BuffOp (AllocState ρ)} {path : List ℕ}
  {top limit k r n p : ℕ}
  {inv : List Extent → Store (AllocState ρ) → Prop} {st st' : Store (AllocState ρ)}
  {region : Region} {chain : List ℕ} {blocks others : List Extent}

variable (hparent : SoundParent ops path top limit inv)
include hparent

/-- The request, the copy and the free of a block that moves. -/
theorem NofreeInv.move_keeps (hops : OpsTable ops) (htop : top ≤ 2 ^ 63)
    (hbytes : BytesParent ops path limit inv)
    (h : NofreeInv path top inv others k r st region chain blocks)
    (hlive : ChainLive chain st ⟨p, n⟩) {size oldSize q : ℕ} {st1 : Store (AllocState ρ)}
    (hold : oldSize ≤ n) (hlt : oldSize < size) (hsize : size < 2 ^ 48)
    (hbelow : AsksBelow limit r (shallocBuffAllocSize size) st)
    (hmalloc : shallocMalloc ops (r :: path) size st = some (some q, st1))
    (hfree : shallocFree ops r p (st1.log (.copy q p oldSize)) = some st')
    {mem mem' : ℕ → UInt8} (hmem : BytesAfter st'.buffs st.trace mem st'.trace mem') :
    LiveIn r st' ⟨q, size⟩ ∧ (∀ e, ChainLive chain st e → e ≠ ⟨p, n⟩ → LiveIn r st' e) ∧
      (∀ a, UsedAt chain others st a → mem' a = mem a) ∧
      ∀ i < oldSize, mem' (q + i) = mem (p + i) := by
  obtain ⟨k', region', chain', blocks', h', hstays, hnew⟩ :=
    NofreeInv.malloc_keeps hparent hops htop h hsize hbelow hmalloc
  obtain ⟨hq, hapart, hout⟩ := hnew q rfl
  have h2 := h'.log (hparent.beside others) (.copy q p oldSize) (by simp [Event.touches])
  obtain ⟨hstays2, hbuffs, hleaves2⟩ :=
    NofreeInv.free_keeps hparent hops htop h2 (hstays _ hlive) hfree
  have hleaves1 : Leaves st'.buffs (UsedAt chain others st) st st1 := by
    rw [hbuffs]
    exact NofreeInv.malloc_leaves hparent hops htop hbytes h hsize hbelow hmalloc (describes_self _)
  have hcopy : st1.Extends (st1.log (.copy q p oldSize)) := Store.extends_log _ _
  -- the bytes after the request, after the copy, and after the free
  obtain ⟨mem1, hmem1, hrest⟩ := hmem.split hleaves1.later (hcopy.trans hleaves2.later)
  obtain ⟨mem2, hmem2, hmem3⟩ := hrest.split hcopy hleaves2.later
  have hsame1 := hleaves1.bytes hmem1
  have hsame3 := hleaves2.bytes hmem3
  refine ⟨hstays2 _ hq fun heq => ?_, fun e he => hstays2 e (hstays e he), fun a ha => ?_,
    fun i hi => ?_⟩
  · -- the old block is not returned again
    obtain ⟨rfl, rfl⟩ := Extent.mk.inj heq
    have hpos : 0 < size := Nat.zero_lt_of_lt hlt
    exact hout _ (UsedAt.live hlive hpos) ⟨le_rfl, Nat.lt_add_of_pos_right hpos⟩
  · have hframe : mem2 a = mem1 a := hmem2.single.frame a fun hno =>
      hout a ha ⟨hno.1, lt_of_lt_of_le hno.2 (by omega)⟩
    rw [hsame3 a (ha.mono hstays), hframe, hsame1 a ha]
  · have hdisjoint : Extent.Disjoint ⟨q, oldSize⟩ ⟨p, oldSize⟩ :=
      (hapart _ hlive).mono ⟨le_rfl, by simp only; omega⟩ ⟨le_rfl, by simp only; omega⟩
    have hused : UsedAt chain' others (st1.log (.copy q p oldSize)) (q + i) :=
      UsedAt.live hq (lt_trans hi hlt)
    have hold' : UsedAt chain others st (p + i) := UsedAt.live hlive (lt_of_lt_of_le hi hold)
    rw [hsame3 _ hused, hmem2.single.copy _ _ _ rfl hdisjoint i hi, hsame1 _ hold']

end Region

/-- What `shalloc_orealloc` of the block of `n` bytes at `p` does to the bytes, if it returns `q`:
the contents of the block are at `q`, or still at `p` after a refusal, and every other block of
the region, in whichever buffer, and of the others on the parent has its old bytes. -/
structure OreallocKeeps {α : Type} (r p n size oldSize : ℕ) (q : Option ℕ) (others : List Extent)
    (st st' : Store α) (mem mem' : ℕ → UInt8) : Prop where
  served : ∀ q' ∈ q, ∃ m, size ≤ m ∧ LiveIn r st' ⟨q', m⟩ ∧
    ∀ i < min oldSize size, mem' (q' + i) = mem (p + i)
  refused : q = none → 0 < size → LiveIn r st' ⟨p, n⟩ ∧ ∀ i < n, mem' (p + i) = mem (p + i)
  live : ∀ e, LiveIn r st e → e ≠ ⟨p, n⟩ →
    LiveIn r st' e ∧ ∀ i < e.len, mem' (e.ptr + i) = mem (e.ptr + i)
  others : ∀ e ∈ others, ∀ i < e.len, mem' (e.ptr + i) = mem (e.ptr + i)

section Orealloc

variable {ρ : Type} {ops : BuffAllocType → BuffOp (AllocState ρ)} {path : List ℕ}
  {top limit r n p : ℕ}
  {inv : List Extent → Store (AllocState ρ) → Prop} {st st' : Store (AllocState ρ)}
  {held : List ℕ} {others : List Extent}

/-- No byte in use has changed: what remains to be said is which blocks are in use. -/
theorem OreallocKeeps.of_used {chain : List ℕ} {size oldSize : ℕ} {q : Option ℕ}
    {mem mem' : ℕ → UInt8} (hiff : ∀ e, LiveIn r st e ↔ ChainLive chain st e)
    (hlive : LiveIn r st ⟨p, n⟩) (hsame : ∀ a, UsedAt chain others st a → mem' a = mem a)
    (hserved : ∀ q' ∈ q, ∃ m, size ≤ m ∧ LiveIn r st' ⟨q', m⟩ ∧
      ∀ i < min oldSize size, mem' (q' + i) = mem (p + i))
    (hrefused : q = none → 0 < size → LiveIn r st' ⟨p, n⟩)
    (hstays : ∀ e, ChainLive chain st e → e ≠ ⟨p, n⟩ → LiveIn r st' e) :
    OreallocKeeps r p n size oldSize q others st st' mem mem' where
  served := hserved
  refused hq hpos := ⟨hrefused hq hpos, fun _ hi => hsame _ (.live ((hiff _).mp hlive) hi)⟩
  live e he hne := ⟨hstays e ((hiff e).mp he) hne, fun _ hi => hsame _ (.live ((hiff e).mp he) hi)⟩
  others _ he _ hi := hsame _ (.other he hi)

/-- **`shalloc_orealloc` preserves data and other blocks**, in every run of a no-free region over a
sound parent, whether or not the region and its ancestors grow. -/
theorem shallocOrealloc_keeps (hops : OpsTable ops) (htop : top ≤ 2 ^ 63)
    (hparent : SoundParent ops path top limit inv)
    (hbytes : BytesParent ops path limit inv)
    (run : SharedRun ops path limit inv .nofree r st held others)
    (hlive : LiveIn r st ⟨p, n⟩) {size oldSize : ℕ} {q : Option ℕ} (hold : oldSize ≤ n)
    (hsize : size < 2 ^ 48) (hbelow : AsksBelow limit r (shallocBuffAllocSize size) st)
    (hcall : shallocOrealloc ops (r :: path) (some p) size oldSize st =
      some (q, st'))
    {mem mem' : ℕ → UInt8} (hmem : BytesAfter st'.buffs st.trace mem st'.trace mem') :
    OreallocKeeps r p n size oldSize q others st st' mem mem' := by
  obtain ⟨-, k, chain, hheld⟩ :=
    run.kept htop hparent (hops.nofree_issuesApart htop).places
  have hiff := hheld.kept.liveIn_iff
  have hchain : ChainLive chain st ⟨p, n⟩ := (hiff _).mp hlive
  obtain ⟨region, blocks, h⟩ := hheld.kept
  cases shallocOrealloc_cases hcall with
  | freed hzero hfree =>
    obtain ⟨hstays, -, hleaves⟩ := NofreeInv.free_keeps hparent hops htop h hchain hfree
    refine .of_used hiff hlive (hleaves.bytes hmem) ?_ ?_ hstays
    · exact fun q' hq' => absurd hq' (by simp)
    · exact fun _ hpos => absurd hzero (Nat.pos_iff_ne_zero.mp hpos)
  | kept hpos hle =>
    have hsame : ∀ a, mem' a = mem a := fun a => by rw [hmem.eq]
    refine .of_used hiff hlive (fun a _ => hsame a) ?_ ?_ fun e he _ => (hiff e).mpr he
    · rintro q' ⟨rfl⟩
      exact ⟨n, le_trans hle hold, hlive, fun _ _ => hsame _⟩
    · exact fun hno => absurd hno (by simp)
  | refused hlt hmalloc =>
    obtain ⟨k', region', chain', blocks', h', hstays, -⟩ :=
      NofreeInv.malloc_keeps hparent hops htop h hsize hbelow hmalloc
    have hkept' : RegionKept _ _ _ _ k' r st' chain' := ⟨region', blocks', h'⟩
    have hall : ∀ e, ChainLive chain st e → LiveIn r st' e :=
      fun e he => (hkept'.liveIn_iff e).mpr (hstays e he)
    refine .of_used hiff hlive
      ((NofreeInv.malloc_leaves hparent hops htop hbytes h hsize hbelow hmalloc
        (describes_self _)).bytes hmem) ?_ ?_ ?_
    · exact fun q' hq' => absurd hq' (by simp)
    · exact fun _ _ => hall _ hchain
    · exact fun e he _ => hall e he
  | moved hlt hmalloc hfree =>
    obtain ⟨hnew, hstays, hsame, hdata⟩ :=
      NofreeInv.move_keeps hparent hops htop hbytes h hchain hold hlt hsize hbelow hmalloc hfree
        hmem
    refine .of_used hiff hlive hsame ?_ ?_ hstays
    · rintro _ ⟨rfl⟩
      exact ⟨size, le_rfl, hnew, fun i hi => hdata i (lt_of_lt_of_le hi (min_le_left _ _))⟩
    · exact fun hno => absurd hno (by simp)

end Orealloc

/-- The tail buffer of a region. -/
def tailOf {α : Type} (r : ℕ) (st : Store α) : Option ℕ := (st.regions r).bind Region.dataTail

/-- A region on a region on the heap, someone beside it on that region, and a block that moves. -/
structure NestedMove (st0 st1 st2 st3 st4 st5 : Store (AllocState (Mplite ⊕ Unit)))
    (region region' : Region) : Prop where
  heap : mpliteHeapStore.opCreate mpliteHeapOps 4112 = some (0, st0)
  parent : shallocRegionCreate mpliteHeapOps [4096] 0 0 0 0 .nofree st0 = some (some 72408, st1)
  created : shallocRegionCreate mpliteHeapOps [72408, 4096] 1 1024 0 0 .nofree st1 =
    some (some 57648, st2)
  other : shallocMalloc mpliteHeapOps [72408, 4096] 50 st2 = some (some 58832, st3)
  before : st3.regions 57648 = some region
  served : shallocMalloc mpliteHeapOps [57648, 72408, 4096] 100 st3 = some (some 57832, st4)
  after : st4.regions 57648 = some region'
  moved : shallocOrealloc mpliteHeapOps [57648, 72408, 4096] (some 57832) 6000 100 st4 =
    some (some 8584, st5)
  asks : region.request (shallocBuffAllocSize 100) = 1088 ∧
    region'.request (shallocBuffAllocSize 6000) = 12664
  tail : tailOf 57648 st4 = some 57744 ∧ tailOf 57648 st5 = some 8496
  parentTail : tailOf 72408 st4 = some 57560 ∧ tailOf 72408 st5 = some 8408

/-- The same as one run. -/
def nestedMove : Option (ℤ × List (Option ℕ) × List ℕ × List (Option ℕ)) := do
  let (made, st0) ← mpliteHeapStore.opCreate mpliteHeapOps 4112
  let (r, st1) ← shallocRegionCreate mpliteHeapOps [4096] 0 0 0 0 .nofree st0
  let (s, st2) ← shallocRegionCreate mpliteHeapOps [72408, 4096] 1 1024 0 0 .nofree st1
  let (o, st3) ← shallocMalloc mpliteHeapOps [72408, 4096] 50 st2
  let region ← st3.regions 57648
  let (p, st4) ← shallocMalloc mpliteHeapOps [57648, 72408, 4096] 100 st3
  let region' ← st4.regions 57648
  let (q, st5) ← shallocOrealloc mpliteHeapOps [57648, 72408, 4096] (some 57832) 6000 100 st4
  some (made, [r, s, o, p, q], [region.request (shallocBuffAllocSize 100),
    region'.request (shallocBuffAllocSize 6000)],
    [tailOf 57648 st4, tailOf 57648 st5, tailOf 72408 st4, tailOf 72408 st5])

theorem nestedMove_steps :
    ∃ st0 st1 st2 st3 st4 st5 region region',
      NestedMove st0 st1 st2 st3 st4 st5 region region' := by
  have hrun : nestedMove = some (0, [some 72408, some 57648, some 58832, some 57832, some 8584],
      [1088, 12664], [some 57744, some 8496, some 57560, some 8408]) := by decide +kernel
  simp only [nestedMove, bind, Option.bind_eq_some_iff, Prod.exists, Option.some.injEq,
    Prod.mk.injEq, List.cons.injEq] at hrun
  obtain ⟨_, st0, hheap, _, st1, hparent, _, st2, hcreated, _, st3, hother, region, hbefore, _, st4,
    hserved, region', hafter, _, st5, hmoved, rfl, ⟨rfl, rfl, rfl, rfl, rfl, -⟩, ⟨h1, h2, -⟩, h3,
      h4, h5, h6, -⟩ := hrun
  exact ⟨st0, st1, st2, st3, st4, st5, region, region', hheap, hparent, hcreated, hother, hbefore,
    hserved, hafter, hmoved, ⟨h1, h2⟩, ⟨h3, h4⟩, ⟨h5, h6⟩⟩

/-- What the region in the middle has issued. -/
abbrev MiddleIssued : List Extent → Store (AllocState (Mplite ⊕ Unit)) → Prop :=
  NofreeIssued [4096] 73728 (2 ^ 31) MpliteHeapIssued 72408

theorem middle_parent :
    FullParent mpliteHeapOps [72408, 4096] 73728 (2 ^ 31 / 3) MiddleIssued :=
  mpliteHeap_parent.nofree (shallocBuffOps_table _) (by decide) ⟨by decide, by decide, by decide⟩

/-- Both the region and the one below it grow, for a block that moves. -/
theorem shallocOrealloc_keeps_grown : ∃ st st' mem',
    SharedRun mpliteHeapOps [72408, 4096] (2 ^ 31 / 3) MiddleIssued .nofree 57648 st [57832]
      [⟨58832, 50⟩] ∧
    tailOf 57648 st ≠ tailOf 57648 st' ∧ tailOf 72408 st ≠ tailOf 72408 st' ∧
    shallocOrealloc mpliteHeapOps [57648, 72408, 4096] (some 57832) 6000 100 st =
      some (some 8584, st') ∧
    BytesAfter st'.buffs st.trace UInt8.ofNat st'.trace mem' ∧
    OreallocKeeps 57648 57832 100 6000 100 (some 8584) [⟨58832, 50⟩] st st' UInt8.ofNat mem' := by
  obtain ⟨st0, st1, st2, st3, st4, st5, region, region', h⟩ := nestedMove_steps
  have hops : OpsTable mpliteHeapOps := shallocBuffOps_table _
  have hissued : MiddleIssued [] st1 := NofreeIssued.create mpliteHeap_parent.sound hops (by decide)
    (mpliteHeap_issued h.heap) (by decide) (by decide) rfl
    ⟨by decide, fun helastic => absurd helastic (by decide)⟩ (by decide) (by decide) h.parent
  have hfirst : SharedRun mpliteHeapOps [72408, 4096] (2 ^ 31 / 3) MiddleIssued .nofree 57648 st3 []
      [⟨58832, 50⟩] :=
    (SharedRun.create hissued (by decide) (by decide) rfl (by decide) h.created).otherMalloc
      (by decide) h.other
  have hbefore : AsksBelow (2 ^ 31 / 3) 57648 (shallocBuffAllocSize 100) st3 := by
    intro record hrecord
    obtain rfl := Option.some.inj (h.before.symm.trans hrecord)
    rw [h.asks.1]
    decide
  have hafter : AsksBelow (2 ^ 31 / 3) 57648 (shallocBuffAllocSize 6000) st4 := by
    intro record hrecord
    obtain rfl := Option.some.inj (h.after.symm.trans hrecord)
    rw [h.asks.2]
    decide
  have run := hfirst.call (.malloc (by decide) hbefore h.served)
  have hlive : LiveIn 57648 st4 ⟨57832, 100⟩ := hfirst.malloc_live (by decide)
    middle_parent.sound (hops.nofree_issuesApart (by decide)).places (by decide) hbefore h.served
  obtain ⟨mem', hmem⟩ := exists_bytesAfter st5.buffs UInt8.ofNat (shallocOrealloc_extends h.moved)
  refine ⟨st4, st5, mem', run, ?_, ?_, h.moved, hmem, shallocOrealloc_keeps hops (by decide)
    middle_parent.sound middle_parent.bytes run hlive le_rfl (by decide) hafter h.moved hmem⟩
  · rw [h.tail.1, h.tail.2]
    decide
  · rw [h.parentTail.1, h.parentTail.2]
    decide

end Shalloc
