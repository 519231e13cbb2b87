import Shalloc.Region.Rule

/-!
# What a reset releases

`shalloc_region_reset` is meant to destroy and give back every buffer of the chain but the
first, which it sets up anew. Its loop stops on the last buffer without a look at it, so that
the last buffer is neither destroyed nor given back.

## Main definitions

- `ResetReleases` — every buffer but the first is released, once

## Main results

- `shallocRegionReset_counts` — the calls that a reset makes
- `regionReset_releases_iff` — a reset releases what it should iff the chain is one buffer
-/

namespace Shalloc

variable {α : Type} {ops : BuffAllocType → BuffOp α} {st st' : Store α} {r head fuel : ℕ}
  {region : Region} {bs : List ℕ}

/-- The reset of a region with the chain `head :: bs` releases `bs`: it destroys each of these
buffers once and passes it to the parent once, and it sets up the first buffer anew, keeps it
and makes it the whole chain. -/
structure ResetReleases (r : ℕ) (region : Region) (head : ℕ) (bs : List ℕ) (st st' : Store α) :
    Prop where
  destroyed : ∀ b ∈ bs, st'.trace.count (.destroy b) = st.trace.count (.destroy b) + 1
  freed : ∀ P, region.parent = some P → ∀ b ∈ bs,
    st'.trace.count (.release P b) = st.trace.count (.release P b) + 1
  renewed : st'.trace.count (.destroy head) = st.trace.count (.destroy head) + 1 ∧
    ∃ ret : ℤ, 0 ≤ ret ∧
      st'.trace.count (.create head ret) = st.trace.count (.create head ret) + 1
  kept : ∀ P, region.parent = some P →
    st'.trace.count (.release P head) = st.trace.count (.release P head)
  linked : ∃ region', st'.regions r = some region' ∧ region'.dataHead = some head ∧
    region'.dataTail = some head ∧ ∃ buff, st'.buffs head = some buff ∧ buff.next = none

/-- A free in the parent is noted once, and destroys and creates nothing. -/
theorem FreeCases.count {P p : ℕ} (h : FreeCases ops P p st st') :
    (∀ d, st'.trace.count (.destroy d) = st.trace.count (.destroy d)) ∧
      (∀ d ret, st'.trace.count (.create d ret) = st.trace.count (.create d ret)) ∧
      ∀ Q d, st'.trace.count (.release Q d) =
        st.trace.count (.release Q d) + [(P, p)].count (Q, d) := by
  have hrelease : ∀ Q d, (Event.release P p :: st.trace).count (.release Q d) =
      st.trace.count (.release Q d) + [(P, p)].count (Q, d) := by
    intro Q d
    simp [List.count_cons]
  cases h with
  | ignored => exact ⟨fun d => by simp, fun d ret => by simp, hrelease⟩
  | asked _ _ _ _ hfree =>
    obtain ⟨_, _, -, -, rfl⟩ := Store.opFree_eq_some.mp hfree
    refine ⟨fun d => by simp, fun d ret => by simp, fun Q d => ?_⟩
    rw [← hrelease Q d]
    simp

/-- Freeing the buffers of a list destroys each of them, and passes it to the parent, as often
as it is on the list. -/
theorem shallocRegionFreeBuffs_counts (ds : List ℕ) : ∀ {st : Store α},
    st.regions r = some region → shallocRegionFreeBuffs ops r ds st = some st' →
    st'.regions = st.regions ∧
      (∀ d, st'.trace.count (.destroy d) = st.trace.count (.destroy d) + ds.count d) ∧
      (∀ d ret, st'.trace.count (.create d ret) = st.trace.count (.create d ret)) ∧
      ∀ P, region.parent = some P → ∀ d,
        st'.trace.count (.release P d) = st.trace.count (.release P d) + ds.count d := by
  induction ds with
  | nil =>
    intro st _ h
    obtain rfl := Option.some.inj h
    exact ⟨rfl, fun _ => rfl, fun _ _ => rfl, fun _ _ _ => rfl⟩
  | cons b ds ih =>
    intro st hregion h
    simp only [shallocRegionFreeBuffs, bind, Option.bind_eq_some_iff] at h
    obtain ⟨st2, hfirst, hrest⟩ := h
    have hregions := (shallocRegionFreeBuff_frame hfirst).1
    obtain ⟨hsame, hdestroy, hcreate, hrelease⟩ := ih (by rw [hregions]; exact hregion) hrest
    obtain ⟨st1, region', hop, hregion', hfree⟩ := shallocRegionFreeBuff_cases hfirst
    obtain rfl := Option.some.inj (hregion.symm.trans hregion')
    obtain ⟨_, _, -, -, rfl⟩ := Store.opDestroy_eq_some.mp hop
    obtain ⟨hnone, rfl⟩ | ⟨P, hP, hcall⟩ := hfree
    · refine ⟨hsame.trans hregions, fun d => ?_, fun d ret => ?_,
        fun P hP => absurd (hnone.symm.trans hP) (by simp)⟩
      · rw [hdestroy d]
        simp [List.count_cons]
        omega
      · rw [hcreate d ret]
        simp
    · obtain ⟨hdestroy1, hcreate1, hrelease1⟩ := (shallocFree_cases hcall).count
      refine ⟨hsame.trans hregions, fun d => ?_, fun d ret => ?_, fun Q hQ d => ?_⟩
      · rw [hdestroy d, hdestroy1 d]
        simp [List.count_cons]
        omega
      · rw [hcreate d ret, hcreate1 d ret]
        simp
      · obtain rfl := Option.some.inj (hP.symm.trans hQ)
        rw [hrelease P hP d, hrelease1 P d]
        simp [List.count_cons]
        omega

/-- The end of a reset sets up the first buffer anew, and makes it the whole chain. -/
theorem shallocRegionResetHead_counts (hregion : st.regions r = some region)
    (hhead : region.dataHead = some head) (h : shallocRegionResetHead ops r st = some st') :
    (∀ d, st'.trace.count (.destroy d) = st.trace.count (.destroy d) + [head].count d) ∧
      (∃ ret : ℤ, 0 ≤ ret ∧
        st'.trace.count (.create head ret) = st.trace.count (.create head ret) + 1) ∧
      (∀ P d, st'.trace.count (.release P d) = st.trace.count (.release P d)) ∧
      ∃ region', st'.regions r = some region' ∧ region'.dataHead = some head ∧
        region'.dataTail = some head ∧ ∃ buff, st'.buffs head = some buff ∧ buff.next = none := by
  obtain ⟨st1, ret, st2, buff, hdestroy, hcreate, hnonneg, -, rfl⟩ :=
    shallocRegionResetHead_made hregion hhead h
  obtain ⟨_, _, -, -, rfl⟩ := Store.opDestroy_eq_some.mp hdestroy
  obtain ⟨_, _, -, -, rfl⟩ := Store.opCreate_eq_some.mp hcreate
  refine ⟨fun d => ?_, ⟨ret, hnonneg, ?_⟩, fun P d => ?_, _, Function.update_self .., rfl, rfl,
    _, Function.update_self .., rfl⟩
  · simp [List.count_cons]
  · simp
  · simp

/-- **The calls of a reset.** It destroys the first buffer and all others but the last, and
passes all but the first and the last to the parent. -/
theorem shallocRegionReset_counts (hregion : st.regions r = some region)
    (hlinked : Linked st region (head :: bs)) (hnodup : (head :: bs).Nodup)
    (h : shallocRegionReset ops fuel r st = some st') :
    (∀ d, st'.trace.count (.destroy d) =
        st.trace.count (.destroy d) + (head :: bs.dropLast).count d) ∧
      (∀ P, region.parent = some P → ∀ d, st'.trace.count (.release P d) =
        st.trace.count (.release P d) + bs.dropLast.count d) ∧
      (∃ ret : ℤ, 0 ≤ ret ∧
        st'.trace.count (.create head ret) = st.trace.count (.create head ret) + 1) ∧
      ∃ region', st'.regions r = some region' ∧ region'.dataHead = some head ∧
        region'.dataTail = some head ∧ ∃ buff, st'.buffs head = some buff ∧ buff.next = none := by
  rw [shallocRegionReset_eq hregion hlinked hnodup] at h
  split at h
  · obtain ⟨st1, hfree, hreset⟩ := Option.bind_eq_some_iff.mp h
    obtain ⟨hsame, hdestroy, hcreate, hrelease⟩ := shallocRegionFreeBuffs_counts _ hregion hfree
    obtain ⟨hdestroy', ⟨ret, hnonneg, hcreate'⟩, hrelease', hlinked'⟩ :=
      shallocRegionResetHead_counts (by rw [hsame]; exact hregion) hlinked.head.1 hreset
    refine ⟨fun d => ?_, fun P hP d => ?_, ⟨ret, hnonneg, ?_⟩, hlinked'⟩
    · rw [hdestroy' d, hdestroy d, List.count_cons, List.count_cons, List.count_nil]
      omega
    · rw [hrelease' P d, hrelease P hP d]
    · rw [hcreate', hcreate]
  · exact absurd h (by simp)

/-- **What a reset releases.** The loop ends after as many rounds as the chain has buffers;
and a reset of a region with a chain of buffers that returns has released every buffer but
the first iff there was no other. -/
theorem regionReset_releases_iff (hregion : st.regions r = some region)
    (hlinked : Linked st region (head :: bs)) (hnodup : (head :: bs).Nodup) :
    (∀ fuel, (head :: bs).length < fuel → shallocRegionReset ops fuel r st =
        shallocRegionReset ops ((head :: bs).length + 1) r st) ∧
      ∀ {fuel st'}, shallocRegionReset ops fuel r st = some st' →
        (ResetReleases r region head bs st st' ↔ bs = []) := by
  refine ⟨fun fuel hfuel => ?_, fun {fuel st'} h => ?_⟩
  · rw [shallocRegionReset_eq hregion hlinked hnodup, shallocRegionReset_eq hregion hlinked hnodup,
      if_pos hfuel, if_pos (Nat.lt_succ_self _)]
  obtain ⟨hdestroy, hrelease, hcreate, hlinked'⟩ :=
    shallocRegionReset_counts hregion hlinked hnodup h
  constructor
  · intro hreleases
    by_contra hne
    -- the last buffer is not among those that the reset destroys
    have hlast := List.getLast_mem hne
    have hsplit := List.dropLast_append_getLast hne
    have hnot : bs.getLast hne ∉ head :: bs.dropLast := by
      rw [← hsplit, ← List.cons_append] at hnodup
      obtain ⟨-, -, hapart⟩ := List.nodup_append.mp hnodup
      exact fun hmem => hapart _ hmem _ List.mem_cons_self rfl
    have hcount := hdestroy (bs.getLast hne)
    rw [hreleases.destroyed _ hlast, List.count_eq_zero.mpr hnot] at hcount
    omega
  · rintro rfl
    exact
      { destroyed := fun b hb => absurd hb List.not_mem_nil
        freed := fun _ _ b hb => absurd hb List.not_mem_nil
        renewed := ⟨by rw [hdestroy head]; simp, hcreate⟩
        kept := fun P hP => by rw [hrelease P hP head]; rfl
        linked := hlinked' }

/-- Where the allocator of type MPLITE puts the first blocks in a fresh heap of 64 KiB, with
the block of more than 8192 and up to 16384 bytes, which takes the chunk of 256 atoms. -/
def mpliteOffsetLarge (n : ℕ) : ℕ :=
  216 + 64 * if n ≤ 128 then 1000 else if n ≤ 8192 then 768 else 512

/-- The allocators with that heap allocator. -/
def heapOpsLarge : BuffAllocType → BuffOp (AllocState (List Extent)) :=
  shallocSpaceBuffOps fun _ => placedOp mpliteOffsetLarge

/-- A region with one buffer releases what it should. -/
theorem regionReset_releases_one : ∃ st1 st2 region,
    shallocRegionCreate heapOpsLarge [4096] 1 0 0 0 .nofree heapStore = some (some 72408, st1) ∧
    shallocRegionReset heapOpsLarge 2 72408 st1 = some st2 ∧
    st1.regions 72408 = some region ∧ ResetReleases 72408 region 57560 [] st1 st2 := by
  obtain ⟨st1, st2, hcreate, hreset, hrecord, hdescr⟩ : ∃ st1 st2,
      shallocRegionCreate heapOpsLarge [4096] 1 0 0 0 .nofree heapStore = some (some 72408, st1) ∧
      shallocRegionReset heapOpsLarge 2 72408 st1 = some st2 ∧
      (st1.regions 72408).map (fun region => (region.dataHead, region.dataTail)) =
        some (some 57560, some 57560) ∧
      (st1.buffs 57560).map Buff.next = some none := ⟨_, _, rfl, rfl, rfl, rfl⟩
  obtain ⟨region, hregion, hends⟩ := Option.map_eq_some_iff.mp hrecord
  obtain ⟨buff, hbuff, hnext⟩ := Option.map_eq_some_iff.mp hdescr
  obtain ⟨hhead, htail⟩ := Prod.mk.inj hends
  have hlinked : Linked st1 region [57560] := ⟨⟨hhead, buff, hbuff, hnext⟩, htail⟩
  exact ⟨st1, st2, region, hcreate, hreset, hregion,
    ((regionReset_releases_iff hregion hlinked (List.nodup_singleton _)).2 hreset).mpr rfl⟩

/-- A region that has grown once: its second buffer is not destroyed. -/
theorem regionReset_not_releases :
    ¬ ∀ (ops : BuffAllocType → BuffOp (AllocState (List Extent)))
      (st st' : Store (AllocState (List Extent))) (r head fuel : ℕ) (region : Region)
      (bs : List ℕ), st.regions r = some region → Linked st region (head :: bs) →
      (head :: bs).Nodup → shallocRegionReset ops fuel r st = some st' →
      ResetReleases r region head bs st st' := by
  intro h
  obtain ⟨st1, st2, st3, region, first, last, -, -, hreset, hregion, hfirst, hlast, hhead, htail,
      hnext, hend, hcount, hcount'⟩ : ∃ st1 st2 st3 region first last,
      shallocRegionCreate heapOpsLarge [4096] 1 0 0 0 .nofree heapStore = some (some 72408, st1) ∧
      shallocMalloc heapOpsLarge [72408, 4096] 5000 st1 = some (some 41264, st2) ∧
      shallocRegionReset heapOpsLarge 3 72408 st2 = some st3 ∧
      st2.regions 72408 = some region ∧ st2.buffs 57560 = some first ∧
      st2.buffs 41176 = some last ∧
      region.dataHead = some 57560 ∧ region.dataTail = some 41176 ∧ first.next = some 41176 ∧
      last.next = none ∧ st2.trace.count (.destroy 41176) = 0 ∧
      st3.trace.count (.destroy 41176) = 0 :=
    ⟨_, _, _, _, _, _, rfl, rfl, rfl, rfl, rfl, rfl, rfl, rfl, rfl, rfl, by decide, by decide⟩
  have hlinked : Linked st2 region [57560, 41176] :=
    ⟨⟨hhead, first, hfirst, hnext, last, hlast, hend⟩, htail⟩
  have hreleases := h _ _ _ _ _ _ _ _ hregion hlinked (by decide) hreset
  have hone := hreleases.destroyed 41176 List.mem_cons_self
  omega

end Shalloc
