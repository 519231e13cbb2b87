import Shalloc.Region.Allocator
import Shalloc.Region.Forest

/-!
# Steps of a forest

What the calls of the region layer do to a forest of regions: a buffer issues a block to
a caller, a caller gives a block up, a block that a caller holds becomes the record of a
new region or a new buffer of a region. Every step keeps the invariant.

## Main definitions

- `Forest.issue`, `Forest.drop`, `Forest.release`, `Forest.adopt`, `Forest.abandon`,
  `Forest.attach`
-/

namespace Shalloc

namespace Forest

variable {F : Forest}

section Fresh

variable (h : F.Ok)
include h

/-- A buffer below the root shares neither its descriptor nor its start with another. -/
theorem Ok.node_ne_below {n m : ℕ × ℕ} (hn : F.Node n) (hm : F.Node m) (hne : n ≠ m)
    (hroot : m.1 ≠ F.root) : n.2 ≠ m.2 ∧ (F.area n.2).ptr ≠ (F.area m.2).ptr := by
  have hdescr := descr_mem_objects hm hroot
  have hobj : Object.descr m.1 m.2 ≠ .descr n.1 n.2 := by
    intro heq
    obtain ⟨h1, h2⟩ := Object.descr.inj heq
    exact hne (Prod.ext h1.symm h2.symm)
  have hdisj : n.2 ≠ m.2 := by
    have hapart := h.descr_disjoint hn hdescr hobj (by simp)
    intro heq
    simp only [objectExt, Extent.Disjoint, sizeofBuff] at hapart
    omega
  have hptr := (h.area_eq m hm hroot).1
  refine ⟨hdisj, ?_⟩
  by_cases hn' : n.1 = F.root
  · have hwithin := (h.within_root_area hn hn' hdescr (by simp)).1
    simp only [objectExt] at hwithin
    unfold sizeofBuff at hptr
    omega
  · have hptr' := (h.area_eq n hn hn').1
    omega

/-- Distinct buffers have distinct descriptors and start at distinct addresses. -/
theorem Ok.node_ne {n m : ℕ × ℕ} (hn : F.Node n) (hm : F.Node m) (hne : n ≠ m) :
    n.2 ≠ m.2 ∧ (F.area n.2).ptr ≠ (F.area m.2).ptr := by
  by_cases hm' : m.1 = F.root
  · by_cases hn' : n.1 = F.root
    · obtain ⟨rb, hchain, -⟩ := h.chain_root
      have hnb := hn.2
      have hmb := hm.2
      rw [hn', hchain, List.mem_singleton] at hnb
      rw [hm', hchain, List.mem_singleton] at hmb
      exact absurd (Prod.ext (hn'.trans hm'.symm) (hnb.trans hmb.symm)) hne
    · obtain ⟨h1, h2⟩ := h.node_ne_below hm hn hne.symm hn'
      exact ⟨h1.symm, h2.symm⟩
  · exact h.node_ne_below hn hm hne hm'

/-- A block that a caller holds is no descriptor, and does not lie just before the data of
a buffer. -/
theorem Ok.held_ne_node {r : ℕ} {e : Extent} (he : (r, e) ∈ F.held) {n : ℕ × ℕ}
    (hn : F.Node n) : e.ptr ≠ n.2 ∧ e.ptr + sizeofBuff ≠ (F.area n.2).ptr := by
  have hpos := h.held_pos he
  have hobj := held_mem_objects he
  have hne : e.ptr ≠ n.2 := by
    have hapart := h.descr_disjoint hn hobj (by simp) (by simp)
    simp only [objectExt, Extent.Disjoint, sizeofBuff] at hapart
    omega
  refine ⟨hne, ?_⟩
  by_cases hroot : n.1 = F.root
  · have hwithin := (h.within_root_area hn hroot hobj (by simp)).1
    simp only [objectExt] at hwithin
    unfold sizeofBuff
    omega
  · have hptr := (h.area_eq n hn hroot).1
    omega

/-- A block that a caller holds is no region record. -/
theorem Ok.held_ne_record {r c : ℕ} {e : Extent} (he : (r, e) ∈ F.held) (hc : c ∈ F.regions) :
    e.ptr ≠ c := by
  have hpos := h.held_pos he
  have hapart := h.object_disjoint (held_mem_objects he) (record_mem_objects hc) (by simp)
  simp only [objectExt, Extent.Disjoint, sizeofRegion] at hapart
  omega

end Fresh

/-- Buffer `b` of region `r` issues a block to a caller. -/
def issue (F : Forest) (r b : ℕ) (e : Extent) : Forest :=
  { F with
    live := Function.update F.live b (e :: F.live b)
    held := (r, e) :: F.held }

/-- A caller gives a block up, and the allocator keeps it in use. -/
def drop (F : Forest) (r : ℕ) (e : Extent) : Forest := { F with held := F.held.erase (r, e) }

/-- A caller gives a block up, and buffer `b` takes it back. -/
def release (F : Forest) (r b : ℕ) (e : Extent) : Forest :=
  { F with
    live := Function.update F.live b (releaseBlock e.ptr (F.live b))
    held := F.held.erase (r, e) }

/-- A block held in region `p` becomes the record of a new child region. -/
def adopt (F : Forest) (p c : ℕ) : Forest :=
  { F with
    regions := c :: F.regions
    ancestors := Function.update F.ancestors c (p :: F.ancestors p)
    chain := Function.update F.chain c []
    held := F.held.erase (p, ⟨c, sizeofRegion⟩) }

/-- The record of a region without buffers becomes a block held in its parent `p`. -/
def abandon (F : Forest) (p c : ℕ) : Forest :=
  { F with
    regions := F.regions.erase c
    held := (p, ⟨c, sizeofRegion⟩) :: F.held }

/-- A block held in region `p` becomes the new last buffer of the child region `r`. -/
def attach (F : Forest) (p r d len : ℕ) : Forest :=
  { F with
    chain := Function.update F.chain r (F.chain r ++ [d])
    area := Function.update F.area d ⟨d + sizeofBuff, len⟩
    live := Function.update F.live d []
    held := F.held.erase (p, ⟨d, sizeofBuff + len⟩) }

/-- A new region has no buffer yet. -/
theorem node_adopt {p c : ℕ} (hc : c ∉ F.regions) {n : ℕ × ℕ} :
    (F.adopt p c).Node n ↔ F.Node n := by
  obtain ⟨r, b⟩ := n
  by_cases hrc : r = c
  · subst hrc
    simp [Forest.adopt, Node, hc]
  · simp [Forest.adopt, Node, hrc]

/-- The buffers after an attachment are those before and the new one. -/
theorem node_attach {p r d len : ℕ} (hr : r ∈ F.regions) {n : ℕ × ℕ} :
    (F.attach p r d len).Node n ↔ F.Node n ∨ n = (r, d) := by
  obtain ⟨c, b⟩ := n
  by_cases hc : c = r
  · subst hc
    simp [Forest.attach, Node, hr]
  · simp [Forest.attach, Node, hc]

section Steps

/-- Uses of a later forest that stand for distinct uses of the earlier one, with the same
blocks, lie apart. -/
theorem Ok.apart_of_retag (h : F.Ok) {F' : Forest} (tag : Use → Use)
    (htag : ∀ u, F'.Live u → F.Live (tag u) ∧ F'.owner u = F.owner (tag u) ∧
      F'.ext u = F.ext (tag u))
    (hinj : ∀ u v, F'.Live u → F'.Live v → tag u = tag v → u = v) :
    ∀ u v, F'.Live u → F'.Live v → F'.owner u = F'.owner v → u ≠ v →
      (F'.ext u).Disjoint (F'.ext v) := by
  intro u v hu hv howner hne
  obtain ⟨hu', hou, heu⟩ := htag u hu
  obtain ⟨hv', hov, hev⟩ := htag v hv
  rw [heu, hev]
  exact h.apart _ _ hu' hv' (by rw [← hou, ← hov, howner]) fun heq => hne (hinj u v hu hv heq)

/-- The use `a` of a later forest stands for the use `b` of the earlier one. -/
def retag (a b u : Use) : Use := if u = a then b else u

@[simp] theorem retag_self (a b : Use) : retag a b a = b := if_pos rfl

theorem retag_of_ne {a b u : Use} (hu : u ≠ a) : retag a b u = u := if_neg hu

/-- If the use it stands for is gone, it is told apart from all others. -/
theorem retag_injective {live : Use → Prop} {a b : Use} (hgone : ¬ live b) :
    ∀ u v, live u → live v → retag a b u = retag a b v → u = v := by
  intro u v hu hv heq
  by_cases hua : u = a <;> by_cases hva : v = a
  · rw [hua, hva]
  · rw [hua, retag_self, retag_of_ne hva] at heq
    exact absurd (heq ▸ hv) hgone
  · rw [hva, retag_self, retag_of_ne hua] at heq
    exact absurd (heq ▸ hu) hgone
  · rwa [retag_of_ne hua, retag_of_ne hva] at heq

/-- A caller that gives a block up leaves the forest in order. -/
theorem Ok.drop (h : F.Ok) (r : ℕ) (e : Extent) : (F.drop r e).Ok := by
  have hlive : ∀ u, (F.drop r e).Live u → F.Live u := by
    rintro (⟨r', e'⟩ | c | ⟨c, b⟩) hu
    · exact List.mem_of_mem_erase hu
    · exact hu
    · exact hu
  exact
    { root_mem := h.root_mem
      ancestors_root := h.ancestors_root
      ancestors_eq := h.ancestors_eq
      chain_root := h.chain_root
      area_eq := h.area_eq
      live_within := h.live_within
      live_header := h.live_header
      placed := fun u hu => by
        obtain ⟨n, hn⟩ := h.placed u (hlive u hu)
        exact ⟨n, hu, hn.owner, hn.node, hn.mem⟩
      apart := h.apart_of_retag id (fun u hu => ⟨hlive u hu, rfl, rfl⟩) fun _ _ _ _ heq => heq
      regions_nodup := h.regions_nodup
      chain_nodup := h.chain_nodup
      held_nodup := h.held_nodup.erase _ }

/-- A buffer issues an aligned block apart from the blocks it has in use. -/
theorem Ok.issue (h : F.Ok) {r b : ℕ} (hnode : F.Node (r, b)) {e : Extent}
    (hwithin : e.Within (F.area b)) (halign : 8 ∣ e.ptr) (hpos : 0 < e.len)
    (hheader : r ≠ F.root → (F.area b).ptr + sizeofNofreeHeader ≤ e.ptr)
    (hapart : ∀ e' ∈ F.live b, e.Disjoint e') : (F.issue r b e).Ok := by
  have hbuff : ∀ {n}, F.Node n → n.2 = b → n = (r, b) := by
    intro n hn hb
    by_contra hne
    exact (h.node_ne hn hnode hne).1 hb
  -- the new block lies apart from every use of the region, in this buffer or another
  have hnew : ∀ u, F.Live u → F.owner u = some r → e.Disjoint (F.ext u) := by
    intro u hu howner
    obtain ⟨⟨r', b'⟩, hplaced⟩ := h.placed u hu
    obtain rfl : r = r' := by
      have := hplaced.owner
      rw [howner] at this
      exact Option.some.inj this
    by_cases hb : b' = b
    · subst hb
      exact hapart _ hplaced.mem
    · have hne : ((r, b) : ℕ × ℕ) ≠ (r, b') := fun heq => hb (Prod.mk.inj heq).2.symm
      have harea := h.nest.area_disjoint _ hnode hplaced.node rfl rfl hne
      exact harea.mono hwithin (h.live_within _ hplaced.node _ hplaced.mem).1
  have hfresh : (r, e) ∉ F.held := by
    intro he
    exact (Extent.Within.refl e).not_disjoint hpos (hnew (.held r e) he rfl)
  have hlive : ∀ u, (F.issue r b e).Live u → F.Live u ∨ u = .held r e := by
    rintro (⟨r', e'⟩ | c | ⟨c, b'⟩) hu
    · cases List.mem_cons.mp hu with
      | inl heq => obtain ⟨rfl, rfl⟩ := Prod.mk.inj heq; exact Or.inr rfl
      | inr hu => exact Or.inl hu
    · exact Or.inl hu
    · exact Or.inl hu
  -- in the buffer that issues it, the new block is the only one more
  have hmem : ∀ n e', F.Node n → e' ∈ (F.issue r b e).live n.2 →
      e' ∈ F.live n.2 ∨ (n = (r, b) ∧ e' = e) := by
    intro n e' hn he'
    by_cases hb : n.2 = b
    · simp only [Forest.issue, hb, Function.update_self, List.mem_cons] at he'
      rw [hb]
      exact he'.symm.imp_right fun heq => ⟨hbuff hn hb, heq⟩
    · simp only [Forest.issue, Function.update_of_ne hb] at he'
      exact Or.inl he'
  exact
    { root_mem := h.root_mem
      ancestors_root := h.ancestors_root
      ancestors_eq := h.ancestors_eq
      chain_root := h.chain_root
      area_eq := h.area_eq
      live_within := fun n hn e' he' => by
        cases hmem n e' hn he' with
        | inl hold => exact h.live_within n hn e' hold
        | inr hnew => obtain ⟨rfl, rfl⟩ := hnew; exact ⟨hwithin, halign, hpos⟩
      live_header := fun n hn hroot e' he' => by
        cases hmem n e' hn he' with
        | inl hold => exact h.live_header n hn hroot e' hold
        | inr hnew => obtain ⟨rfl, rfl⟩ := hnew; exact hheader hroot
      placed := fun u hu => by
        cases hlive u hu with
        | inl hold =>
          obtain ⟨n, hn⟩ := h.placed u hold
          refine ⟨n, hu, hn.owner, hn.node, ?_⟩
          show F.ext u ∈ Function.update F.live b (e :: F.live b) n.2
          by_cases hb : n.2 = b
          · rw [hb, Function.update_self]
            exact List.mem_cons_of_mem e (hb ▸ hn.mem)
          · rw [Function.update_of_ne hb]
            exact hn.mem
        | inr hnew =>
          subst hnew
          exact ⟨(r, b), hu, rfl, hnode, by simp [Forest.issue, ext]⟩
      apart := fun u v hu hv howner hne => by
        cases hlive u hu with
        | inl hu' =>
          cases hlive v hv with
          | inl hv' => exact h.apart u v hu' hv' howner hne
          | inr hv' => subst hv'; exact (hnew u hu' howner).symm
        | inr hu' =>
          subst hu'
          cases hlive v hv with
          | inl hv' => exact hnew v hv' howner.symm
          | inr hv' => exact absurd hv'.symm hne
      regions_nodup := h.regions_nodup
      chain_nodup := h.chain_nodup
      held_nodup := List.nodup_cons.mpr ⟨hfresh, h.held_nodup⟩ }

/-- A buffer takes back a block that a caller gives up, and no other. -/
theorem Ok.release (h : F.Ok) {r b : ℕ} (hnode : F.Node (r, b)) {e : Extent}
    (he : (r, e) ∈ F.held) : (F.release r b e).Ok := by
  have hlive : ∀ u, (F.release r b e).Live u → F.Live u ∧ u ≠ .held r e := by
    rintro (⟨r', e'⟩ | c | ⟨c, b'⟩) hu
    · obtain ⟨hne, hmem⟩ := h.held_nodup.mem_erase_iff.mp hu
      exact ⟨hmem, fun heq => hne (by obtain ⟨rfl, rfl⟩ := Use.held.inj heq; rfl)⟩
    · exact ⟨hu, by simp⟩
    · exact ⟨hu, by simp⟩
  have hmem : ∀ (n : ℕ × ℕ) (e' : Extent), e' ∈ (F.release r b e).live n.2 →
      e' ∈ F.live n.2 := by
    intro n e' he'
    by_cases hb : n.2 = b
    · simp only [Forest.release, hb, Function.update_self, mem_releaseBlock] at he'
      exact hb ▸ he'.1
    · simpa only [Forest.release, Function.update_of_ne hb] using he'
  exact
    { root_mem := h.root_mem
      ancestors_root := h.ancestors_root
      ancestors_eq := h.ancestors_eq
      chain_root := h.chain_root
      area_eq := h.area_eq
      live_within := fun n hn e' he' => h.live_within n hn e' (hmem n e' he')
      live_header := fun n hn hroot e' he' => h.live_header n hn hroot e' (hmem n e' he')
      placed := fun u hu => by
        obtain ⟨hu', hne⟩ := hlive u hu
        obtain ⟨n, hn⟩ := h.placed u hu'
        refine ⟨n, hu, hn.owner, hn.node, ?_⟩
        show F.ext u ∈ Function.update F.live b (releaseBlock e.ptr (F.live b)) n.2
        by_cases hb : n.2 = b
        · -- a use in the same buffer is another block of the same region
          have hnr : n = (r, b) := by
            by_contra hnb
            exact (h.node_ne hn.node hnode hnb).1 hb
          have howner : F.owner u = F.owner (.held r e) := by rw [hn.owner, hnr]; rfl
          have hapart := h.apart u (.held r e) hu' he howner hne
          have hpos := (h.live_within n hn.node _ hn.mem).2.2
          have hepos := h.held_pos he
          rw [hb, Function.update_self, mem_releaseBlock]
          refine ⟨hb ▸ hn.mem, fun heq => ?_⟩
          simp only [Extent.Disjoint, ext] at hapart heq hpos
          omega
        · rw [Function.update_of_ne hb]
          exact hn.mem
      apart := h.apart_of_retag id (fun u hu => ⟨(hlive u hu).1, rfl, rfl⟩) fun _ _ _ _ heq => heq
      regions_nodup := h.regions_nodup
      chain_nodup := h.chain_nodup
      held_nodup := h.held_nodup.erase _ }

/-- A block that a caller holds becomes the record of a new region. -/
theorem Ok.adopt (h : F.Ok) {p c : ℕ} (he : (p, ⟨c, sizeofRegion⟩) ∈ F.held) :
    (F.adopt p c).Ok := by
  have hne : ∀ r ∈ F.regions, r ≠ c := fun r hr => (h.held_ne_record he hr).symm
  have hp : p ∈ F.regions := by
    obtain ⟨n, hn⟩ := h.placed (.held p ⟨c, sizeofRegion⟩) he
    obtain rfl := Option.some.inj hn.owner
    exact hn.node.1
  have hancestors : ∀ r ∈ F.regions, (F.adopt p c).ancestors r = F.ancestors r :=
    fun r hr => Function.update_of_ne (hne r hr) _ _
  have hchain : ∀ r ∈ F.regions, (F.adopt p c).chain r = F.chain r :=
    fun r hr => Function.update_of_ne (hne r hr) _ _
  have hnode : ∀ n, (F.adopt p c).Node n ↔ F.Node n := fun n =>
    node_adopt fun hc => hne c hc rfl
  -- the record of the new region takes the place of the block that the caller held
  have htag : ∀ u, (F.adopt p c).Live u →
      F.Live (retag (.record c) (.held p ⟨c, sizeofRegion⟩) u) ∧
      (F.adopt p c).owner u = F.owner (retag (.record c) (.held p ⟨c, sizeofRegion⟩) u) ∧
      (F.adopt p c).ext u = F.ext (retag (.record c) (.held p ⟨c, sizeofRegion⟩) u) := by
    rintro (⟨r, e⟩ | r | ⟨r, b⟩) hu
    · exact ⟨List.mem_of_mem_erase hu, rfl, rfl⟩
    · by_cases hrc : r = c
      · subst hrc
        rw [retag_self]
        exact ⟨he, by simp [Forest.adopt, owner], rfl⟩
      · have hr := (List.mem_cons.mp hu.1).resolve_left hrc
        rw [retag_of_ne fun heq => hrc (Use.record.inj heq)]
        exact ⟨⟨hr, hu.2⟩, by simp [owner, hancestors r hr], rfl⟩
    · have hr := (hnode (r, b)).mp ⟨hu.1, hu.2.2⟩
      rw [retag_of_ne (by simp)]
      exact ⟨⟨hr.1, hu.2.1, hr.2⟩, by simp [owner, hancestors r hr.1], rfl⟩
  exact
    { root_mem := List.mem_cons_of_mem _ h.root_mem
      ancestors_root := (hancestors _ h.root_mem).trans h.ancestors_root
      ancestors_eq := fun r hr hroot => by
        cases List.mem_cons.mp hr with
        | inl heq =>
          subst heq
          refine ⟨p, List.mem_cons_of_mem _ hp, ?_⟩
          rw [hancestors p hp]
          exact Function.update_self ..
        | inr hr =>
          obtain ⟨q, hq, heq⟩ := h.ancestors_eq r hr hroot
          exact ⟨q, List.mem_cons_of_mem _ hq, by rw [hancestors r hr, hancestors q hq, heq]⟩
      chain_root := by
        obtain ⟨b, hb, hrest⟩ := h.chain_root
        exact ⟨b, (hchain _ h.root_mem).trans hb, hrest⟩
      area_eq := fun n hn => h.area_eq n ((hnode n).mp hn)
      live_within := fun n hn => h.live_within n ((hnode n).mp hn)
      live_header := fun n hn => h.live_header n ((hnode n).mp hn)
      placed := fun u hu => by
        obtain ⟨hlive, howner, hext⟩ := htag u hu
        obtain ⟨n, hn⟩ := h.placed _ hlive
        exact ⟨n, hu, howner.trans hn.owner, (hnode n).mpr hn.node, hext ▸ hn.mem⟩
      apart := h.apart_of_retag _ htag (retag_injective h.held_nodup.not_mem_erase)
      regions_nodup := List.nodup_cons.mpr ⟨fun hc => hne c hc rfl, h.regions_nodup⟩
      chain_nodup := fun r hr => by
        cases List.mem_cons.mp hr with
        | inl heq => subst heq; simp [Forest.adopt]
        | inr hr => rw [hchain r hr]; exact h.chain_nodup r hr
      held_nodup := h.held_nodup.erase _ }

/-- A region without buffers has no uses, and its record is a block of its parent. -/
theorem Ok.abandon (h : F.Ok) {p c : ℕ} (hc : c ∈ F.regions)
    (hparent : (F.ancestors c).head? = some p) (hchain : F.chain c = []) :
    (F.abandon p c).Ok := by
  have hroot : c ≠ F.root := by
    rintro rfl
    simp [h.ancestors_root] at hparent
  have hrecord : F.Live (.record c) := ⟨hc, hroot⟩
  -- without a buffer there is nowhere a use of the region could lie
  have howner : ∀ u, F.Live u → F.owner u ≠ some c := by
    intro u hu heq
    obtain ⟨n, hn⟩ := h.placed u hu
    have hnc : n.1 = c := Option.some.inj (hn.owner.symm.trans heq)
    have hb := hn.node.2
    rw [hnc, hchain] at hb
    exact absurd hb (by simp)
  have herase : ∀ {r}, r ∈ F.regions.erase c ↔ r ≠ c ∧ r ∈ F.regions :=
    h.regions_nodup.mem_erase_iff
  have hnode : ∀ n, (F.abandon p c).Node n ↔ F.Node n := by
    rintro ⟨r, b⟩
    constructor
    · rintro ⟨hr, hb⟩
      exact ⟨(herase.mp hr).2, hb⟩
    · rintro ⟨hr, hb⟩
      refine ⟨herase.mpr ⟨?_, hr⟩, hb⟩
      rintro rfl
      simp only [hchain] at hb
      exact absurd hb (by simp)
  have hheld : ∀ e, (p, e) ∈ F.held → (F.ext (.record c)).Disjoint e := fun e he =>
    h.apart (.record c) (.held p e) hrecord he hparent (by simp)
  have hfresh : (p, (⟨c, sizeofRegion⟩ : Extent)) ∉ F.held := fun he =>
    (Extent.Within.refl _).not_disjoint (by decide : 0 < sizeofRegion) (hheld _ he)
  -- the block that the caller holds takes the place of the record of the region
  have htag : ∀ u, (F.abandon p c).Live u →
      F.Live (retag (.held p ⟨c, sizeofRegion⟩) (.record c) u) ∧
      (F.abandon p c).owner u = F.owner (retag (.held p ⟨c, sizeofRegion⟩) (.record c) u) ∧
      (F.abandon p c).ext u = F.ext (retag (.held p ⟨c, sizeofRegion⟩) (.record c) u) := by
    rintro (⟨r, e⟩ | r | ⟨r, b⟩) hu
    · by_cases hnew : (Use.held r e) = .held p ⟨c, sizeofRegion⟩
      · obtain ⟨rfl, rfl⟩ := Use.held.inj hnew
        rw [retag_self]
        exact ⟨hrecord, hparent.symm, rfl⟩
      · rw [retag_of_ne hnew]
        refine ⟨(List.mem_cons.mp hu).resolve_left fun heq => hnew ?_, rfl, rfl⟩
        obtain ⟨rfl, rfl⟩ := Prod.mk.inj heq
        rfl
    · exact ⟨⟨(herase.mp hu.1).2, hu.2⟩, rfl, rfl⟩
    · exact ⟨⟨(herase.mp hu.1).2, hu.2⟩, rfl, rfl⟩
  have hgone : ¬ (F.abandon p c).Live (.record c) := fun hu => (herase.mp hu.1).1 rfl
  exact
    { root_mem := herase.mpr ⟨hroot.symm, h.root_mem⟩
      ancestors_root := h.ancestors_root
      ancestors_eq := fun r hr hne => by
        have hr' := (herase.mp hr).2
        obtain ⟨q, hq, heq⟩ := h.ancestors_eq r hr' hne
        refine ⟨q, herase.mpr ⟨?_, hq⟩, heq⟩
        -- a child of the region would have its record there
        rintro rfl
        exact howner (.record r) ⟨hr', hne⟩ (by simp [owner, heq])
      chain_root := h.chain_root
      area_eq := fun n hn => h.area_eq n ((hnode n).mp hn)
      live_within := fun n hn => h.live_within n ((hnode n).mp hn)
      live_header := fun n hn => h.live_header n ((hnode n).mp hn)
      placed := fun u hu => by
        obtain ⟨hlive, howner', hext⟩ := htag u hu
        obtain ⟨n, hn⟩ := h.placed _ hlive
        exact ⟨n, hu, howner'.trans hn.owner, (hnode n).mpr hn.node, hext ▸ hn.mem⟩
      apart := h.apart_of_retag _ htag (retag_injective hgone)
      regions_nodup := h.regions_nodup.erase _
      chain_nodup := fun r hr => h.chain_nodup r (herase.mp hr).2
      held_nodup := List.nodup_cons.mpr ⟨hfresh, h.held_nodup⟩ }

/-- A block that a caller holds becomes the last buffer of a child region. -/
theorem Ok.attach (h : F.Ok) {p r d len : ℕ} (he : (p, ⟨d, sizeofBuff + len⟩) ∈ F.held)
    (hr : r ∈ F.regions) (hparent : (F.ancestors r).head? = some p)
    (hlen : sizeofNofreeHeader ≤ len) : (F.attach p r d len).Ok := by
  have hroot : r ≠ F.root := by
    rintro rfl
    simp [h.ancestors_root] at hparent
  have hne : ∀ n, F.Node n → n.2 ≠ d := fun n hn => (h.held_ne_node he hn).1.symm
  have harea : ∀ n, F.Node n → (F.attach p r d len).area n.2 = F.area n.2 :=
    fun n hn => Function.update_of_ne (hne n hn) _ _
  have hlive : ∀ n, F.Node n → (F.attach p r d len).live n.2 = F.live n.2 :=
    fun n hn => Function.update_of_ne (hne n hn) _ _
  have hlive' : (F.attach p r d len).live d = [] := Function.update_self ..
  have harea' : (F.attach p r d len).area d = ⟨d + sizeofBuff, len⟩ := Function.update_self ..
  -- the record of the new buffer takes the place of the block that the caller held
  have htag : ∀ u, (F.attach p r d len).Live u →
      F.Live (retag (.buff r d) (.held p ⟨d, sizeofBuff + len⟩) u) ∧
      (F.attach p r d len).owner u =
        F.owner (retag (.buff r d) (.held p ⟨d, sizeofBuff + len⟩) u) ∧
      (F.attach p r d len).ext u = F.ext (retag (.buff r d) (.held p ⟨d, sizeofBuff + len⟩) u) := by
    rintro (⟨c, e⟩ | c | ⟨c, b⟩) hu
    · exact ⟨List.mem_of_mem_erase hu, rfl, rfl⟩
    · exact ⟨hu, rfl, rfl⟩
    · by_cases hcb : (Use.buff c b) = .buff r d
      · obtain ⟨rfl, rfl⟩ := Use.buff.inj hcb
        rw [retag_self]
        exact ⟨he, hparent, by simp [ext, harea']⟩
      · rw [retag_of_ne hcb]
        have hold : F.Node (c, b) := by
          refine ((node_attach hr).mp ⟨hu.1, hu.2.2⟩).resolve_right fun heq => hcb ?_
          obtain ⟨rfl, rfl⟩ := Prod.mk.inj heq
          rfl
        exact ⟨⟨hold.1, hu.2.1, hold.2⟩, rfl, by simp [ext, harea (c, b) hold]⟩
  exact
    { root_mem := h.root_mem
      ancestors_root := h.ancestors_root
      ancestors_eq := h.ancestors_eq
      chain_root := by
        obtain ⟨b, hb, hrecord, hapart⟩ := h.chain_root
        have hrb : F.Node (F.root, b) := ⟨h.root_mem, by simp [hb]⟩
        refine ⟨b, ?_, hrecord, ?_⟩
        · show Function.update F.chain r _ F.root = [b]
          rw [Function.update_of_ne hroot.symm, hb]
        · rw [harea _ hrb]
          exact hapart
      area_eq := fun n hn hnroot => by
        cases (node_attach hr).mp hn with
        | inl hold => rw [harea n hold]; exact h.area_eq n hold hnroot
        | inr hnew => subst hnew; rw [harea']; exact ⟨rfl, hlen⟩
      live_within := fun n hn e he' => by
        cases (node_attach hr).mp hn with
        | inl hold => rw [hlive n hold] at he'; rw [harea n hold]; exact h.live_within n hold e he'
        | inr hnew => subst hnew; rw [hlive'] at he'; simp at he'
      live_header := fun n hn hnroot e he' => by
        cases (node_attach hr).mp hn with
        | inl hold =>
          rw [hlive n hold] at he'
          rw [harea n hold]
          exact h.live_header n hold hnroot e he'
        | inr hnew => subst hnew; rw [hlive'] at he'; simp at he'
      placed := fun u hu => by
        obtain ⟨hu', howner, hext⟩ := htag u hu
        obtain ⟨n, hn⟩ := h.placed _ hu'
        refine ⟨n, hu, howner.trans hn.owner, (node_attach hr).mpr (Or.inl hn.node), ?_⟩
        rw [hlive n hn.node, hext]
        exact hn.mem
      apart := h.apart_of_retag _ htag (retag_injective h.held_nodup.not_mem_erase)
      regions_nodup := h.regions_nodup
      chain_nodup := fun c hc => by
        by_cases hcr : c = r
        · subst hcr
          show (Function.update F.chain c (F.chain c ++ [d]) c).Nodup
          rw [Function.update_self]
          refine (h.chain_nodup c hc).append (List.nodup_singleton d) ?_
          rintro b hb hbd
          exact hne (c, b) ⟨hc, hb⟩ (List.mem_singleton.mp hbd)
        · show (Function.update F.chain r (F.chain r ++ [d]) c).Nodup
          rw [Function.update_of_ne hcr]
          exact h.chain_nodup c hc
      held_nodup := h.held_nodup.erase _ }

end Steps

end Forest

end Shalloc
