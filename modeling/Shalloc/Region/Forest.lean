import Mathlib.Data.List.Nodup
import Shalloc.Nest
import Shalloc.Nofree.Defs
import Shalloc.Region.Defs

/-!
# The forest of regions

The abstract model of a tree of regions under a heap: which buffers a region has, which
blocks of a buffer are in use, and what they are used for. A block is held by a caller,
or it is the record of a child region, or it carries a buffer of a child region. The
invariant only speaks of blocks of one region at a time; that all objects of the tree lie
apart follows from it, since the buffers of the tree are nested.

## Main definitions

- `Forest`, `Forest.Use` — regions, buffers, blocks and what they are used for
- `Forest.Ok` — the invariant
- `Forest.Ok.nest` — the buffers of the tree and what lies in them as a nest
- `Forest.objects` — what lies in the memory of the tree

## Main results

- `Forest.Ok.objects_pairwise` — the objects of the tree lie pairwise apart
-/

namespace Shalloc

/-- Regions by the address of their record, buffers by the address of their descriptor.
`ancestors` is the path from the parent of a region to the root. -/
structure Forest where
  root : ℕ
  regions : List ℕ
  ancestors : ℕ → List ℕ
  chain : ℕ → List ℕ
  area : ℕ → Extent
  live : ℕ → List Extent
  held : List (ℕ × Extent)

namespace Forest

/-- What a block of a region is used for. -/
inductive Use
  /-- The block is held by a caller. -/
  | held (r : ℕ) (e : Extent)
  /-- The block is the record of region `r`. -/
  | record (r : ℕ)
  /-- The block is buffer `b` of region `r`, descriptor and data. -/
  | buff (r b : ℕ)
deriving DecidableEq

variable (F : Forest)

/-- The block of a use. -/
def ext : Use → Extent
  | .held _ e => e
  | .record r => ⟨r, sizeofRegion⟩
  | .buff _ b => ⟨b, sizeofBuff + (F.area b).len⟩

/-- The region that the block of a use was allocated from. -/
def owner : Use → Option ℕ
  | .held r _ => some r
  | .record r => (F.ancestors r).head?
  | .buff r _ => (F.ancestors r).head?

/-- The uses of the forest. The record and the buffer of the root are outside. -/
def Live : Use → Prop
  | .held r e => (r, e) ∈ F.held
  | .record r => r ∈ F.regions ∧ r ≠ F.root
  | .buff r b => r ∈ F.regions ∧ r ≠ F.root ∧ b ∈ F.chain r

/-- Buffer `n.2` of region `n.1`. -/
def Node (n : ℕ × ℕ) : Prop := n.1 ∈ F.regions ∧ n.2 ∈ F.chain n.1

/-- The use is a block in use of the buffer. -/
structure Placed (u : Use) (n : ℕ × ℕ) : Prop where
  live : F.Live u
  owner : F.owner u = some n.1
  node : F.Node n
  mem : F.ext u ∈ F.live n.2

/-- The invariant of a forest. -/
structure Ok : Prop where
  root_mem : F.root ∈ F.regions
  ancestors_root : F.ancestors F.root = []
  ancestors_eq : ∀ r ∈ F.regions, r ≠ F.root → ∃ p ∈ F.regions, F.ancestors r = p :: F.ancestors p
  chain_root : ∃ b, F.chain F.root = [b] ∧
    Extent.Within ⟨b, sizeofBuff⟩ ⟨F.root, sizeofRegion⟩ ∧
    Extent.Disjoint ⟨F.root, sizeofRegion⟩ (F.area b)
  area_eq : ∀ n, F.Node n → n.1 ≠ F.root →
    (F.area n.2).ptr = n.2 + sizeofBuff ∧ sizeofNofreeHeader ≤ (F.area n.2).len
  live_within : ∀ n, F.Node n → ∀ e ∈ F.live n.2, e.Within (F.area n.2) ∧ 8 ∣ e.ptr ∧ 0 < e.len
  live_header : ∀ n, F.Node n → n.1 ≠ F.root → ∀ e ∈ F.live n.2,
    (F.area n.2).ptr + sizeofNofreeHeader ≤ e.ptr
  placed : ∀ u, F.Live u → ∃ n, F.Placed u n
  apart : ∀ u v, F.Live u → F.Live v → F.owner u = F.owner v → u ≠ v →
    (F.ext u).Disjoint (F.ext v)
  regions_nodup : F.regions.Nodup
  chain_nodup : ∀ r ∈ F.regions, (F.chain r).Nodup
  held_nodup : F.held.Nodup

variable {F}

section Ok

variable (h : F.Ok)
include h

theorem Ok.ne_root_of_ancestors {r : ℕ} (hne : F.ancestors r ≠ []) : r ≠ F.root := by
  rintro rfl
  exact hne h.ancestors_root

theorem Ok.eq_root_of_ancestors {r : ℕ} (hr : r ∈ F.regions) (hnil : F.ancestors r = []) :
    r = F.root := by
  by_contra hne
  obtain ⟨p, -, hp⟩ := h.ancestors_eq r hr hne
  simp [hnil] at hp

/-- The path of a region goes through its parent. -/
theorem Ok.parent_eq {r p : ℕ} (hr : r ∈ F.regions) (hp : (F.ancestors r).head? = some p) :
    p ∈ F.regions ∧ F.ancestors r = p :: F.ancestors p := by
  have hroot : r ≠ F.root := by
    rintro rfl
    simp [h.ancestors_root] at hp
  obtain ⟨q, hq, heq⟩ := h.ancestors_eq r hr hroot
  obtain rfl : q = p := by simpa [heq] using hp
  exact ⟨hq, heq⟩

/-- The nest of the forest: its nodes are the buffers, its items the uses of blocks and
the headers of the buffers below the root. -/
def Ok.nest : Nest (ℕ × ℕ) (Use ⊕ (ℕ × ℕ)) where
  node := F.Node
  depth n := (F.ancestors n.1).length
  area n := F.area n.2
  place
    | .inl u, n => F.Placed u n
    | .inr m, n => m = n ∧ F.Node n ∧ n.1 ≠ F.root
  ext
    | .inl u => F.ext u
    | .inr m => ⟨(F.area m.2).ptr, sizeofNofreeHeader⟩
  carrier n := .inl (.buff n.1 n.2)
  node_of_place := by
    rintro (u | m) n hplace
    · exact hplace.node
    · exact hplace.2.1
  within := by
    rintro (u | m) n hplace
    · exact (h.live_within n hplace.node _ hplace.mem).1
    · obtain ⟨rfl, hnode, hne⟩ := hplace
      exact ⟨le_rfl, Nat.add_le_add_left (h.area_eq m hnode hne).2 _⟩
  apart := by
    have hheader : ∀ u n, F.Placed u n → n.1 ≠ F.root →
        (F.ext u).Disjoint ⟨(F.area n.2).ptr, sizeofNofreeHeader⟩ :=
      fun u n hu hne => Or.inr (h.live_header n hu.node hne _ hu.mem)
    -- two uses of a block, a use and a header, or the one header of the buffer
    rintro (u | m) (v | m') n hi hj hne
    · exact h.apart u v hi.live hj.live (hi.owner.trans hj.owner.symm)
        fun heq => hne (by rw [heq])
    · obtain ⟨rfl, -, hroot⟩ := hj
      exact hheader u m' hi hroot
    · obtain ⟨rfl, -, hroot⟩ := hi
      exact (hheader v m hj hroot).symm
    · exact absurd (by rw [hi.1, hj.1]) hne
  root_unique := by
    rintro ⟨r, b⟩ ⟨r', b'⟩ ⟨hr, hb⟩ ⟨hr', hb'⟩ hdepth hdepth'
    obtain rfl := h.eq_root_of_ancestors hr (List.length_eq_zero_iff.mp hdepth)
    obtain rfl := h.eq_root_of_ancestors hr' (List.length_eq_zero_iff.mp hdepth')
    obtain ⟨rb, hchain, -⟩ := h.chain_root
    simp only [hchain, List.mem_singleton] at hb hb'
    rw [hb, hb']
  carried := by
    rintro ⟨r, b⟩ ⟨hr, hb⟩ hdepth
    have hne : r ≠ F.root := h.ne_root_of_ancestors fun hnil => hdepth (by simp [hnil])
    -- the descriptor of a buffer lies in a buffer of the parent, one level up
    obtain ⟨p, hp, heq⟩ := h.ancestors_eq r hr hne
    obtain ⟨m, hplaced⟩ := h.placed (.buff r b) ⟨hr, hne, hb⟩
    have hm : m.1 = p := by
      have := hplaced.owner
      simp only [owner, heq, List.head?_cons, Option.some.injEq] at this
      exact this.symm
    exact ⟨m, hplaced, by simp [heq, hm]⟩
  area_within := by
    rintro ⟨r, b⟩ hnode hdepth
    have hne : r ≠ F.root := h.ne_root_of_ancestors fun hnil => hdepth (by simp [hnil])
    obtain ⟨hptr, -⟩ := h.area_eq (r, b) hnode hne
    simp only at hptr
    constructor <;> simp only [ext, hptr] <;> omega
  carrier_injective := by
    rintro ⟨r, b⟩ ⟨r', b'⟩ heq
    simpa using heq

end Ok

/-! ### Objects -/

/-- What lies in the memory of the tree: the blocks held by callers, the records of the
regions, and the descriptors and headers of the buffers below the root. -/
inductive Object
  | held (r : ℕ) (e : Extent)
  | record (r : ℕ)
  | descr (r b : ℕ)
  | header (r b : ℕ)

/-- The extent of an object. -/
def objectExt (F : Forest) : Object → Extent
  | .held _ e => e
  | .record r => ⟨r, sizeofRegion⟩
  | .descr _ b => ⟨b, sizeofBuff⟩
  | .header _ b => ⟨(F.area b).ptr, sizeofNofreeHeader⟩

/-- The regions below the root. -/
def below (F : Forest) : List ℕ := F.regions.filter (· ≠ F.root)

/-- All objects of the tree. -/
def objects (F : Forest) : List Object :=
  F.held.map (fun x => .held x.1 x.2) ++
    (F.regions.map .record ++
      ((F.below.flatMap fun r => (F.chain r).map (.descr r)) ++
        F.below.flatMap fun r => (F.chain r).map (.header r)))

/-- The item of the nest that an object belongs to. -/
def Object.item : Object → Use ⊕ (ℕ × ℕ)
  | .held r e => .inl (.held r e)
  | .record r => .inl (.record r)
  | .descr r b => .inl (.buff r b)
  | .header r b => .inr (r, b)

theorem Object.item_injective : Function.Injective Object.item := by
  intro o o' heq
  cases o <;> cases o' <;> simp_all [Object.item]

theorem mem_below {r : ℕ} : r ∈ F.below ↔ r ∈ F.regions ∧ r ≠ F.root := by
  simp [below]

theorem held_mem_objects {r : ℕ} {e : Extent} (he : (r, e) ∈ F.held) :
    Object.held r e ∈ F.objects :=
  List.mem_append.mpr (Or.inl (List.mem_map.mpr ⟨(r, e), he, rfl⟩))

theorem record_mem_objects {r : ℕ} (hr : r ∈ F.regions) : Object.record r ∈ F.objects := by
  simp [objects, hr]

theorem descr_mem_objects {n : ℕ × ℕ} (hn : F.Node n) (hr : n.1 ≠ F.root) :
    Object.descr n.1 n.2 ∈ F.objects := by
  simp only [objects, List.mem_append, List.mem_map, List.mem_flatMap]
  exact Or.inr (Or.inr (Or.inl ⟨n.1, mem_below.mpr ⟨hn.1, hr⟩, n.2, hn.2, rfl⟩))

section Objects

variable (h : F.Ok)
include h

/-- An object other than the record of the root belongs to an item of the nest, and one
that belongs to the carrier of a buffer lies outside the data of the buffer. -/
theorem Ok.item_of_mem_objects {o : Object} (ho : o ∈ F.objects) (hne : o ≠ .record F.root) :
    (∃ n, h.nest.place o.item n) ∧ (F.objectExt o).Within (h.nest.ext o.item) ∧
      ∀ c, F.Node c → o.item = h.nest.carrier c → (F.objectExt o).Disjoint (F.area c.2) := by
  have hbuff : ∀ r b, r ∈ F.below → b ∈ F.chain r → F.Node (r, b) ∧ r ≠ F.root :=
    fun r b hr hb => ⟨⟨(mem_below.mp hr).1, hb⟩, (mem_below.mp hr).2⟩
  simp only [objects, List.mem_append, List.mem_map, List.mem_flatMap] at ho
  obtain ⟨⟨r, e⟩, hmem, rfl⟩ | ⟨r, hr, rfl⟩ | ⟨r, hr, b, hb, rfl⟩ | ⟨r, hr, b, hb, rfl⟩ := ho
  · obtain ⟨n, hn⟩ := h.placed (.held r e) hmem
    exact ⟨⟨n, hn⟩, Extent.Within.refl _, fun c _ heq => by simp [Object.item, nest] at heq⟩
  · have hroot : r ≠ F.root := fun heq => hne (by rw [heq])
    obtain ⟨n, hn⟩ := h.placed (.record r) ⟨hr, hroot⟩
    exact ⟨⟨n, hn⟩, Extent.Within.refl _, fun c _ heq => by simp [Object.item, nest] at heq⟩
  · obtain ⟨hnode, hroot⟩ := hbuff r b hr hb
    obtain ⟨n, hn⟩ := h.placed (.buff r b) ⟨hnode.1, hroot, hb⟩
    obtain ⟨hptr, -⟩ := h.area_eq (r, b) hnode hroot
    refine ⟨⟨n, hn⟩, ⟨le_rfl, by simp [objectExt, Object.item, nest, ext]⟩, ?_⟩
    rintro ⟨r', b'⟩ - heq
    simp only [Object.item, nest, Sum.inl.injEq, Use.buff.injEq] at heq
    obtain ⟨rfl, rfl⟩ := heq
    exact Or.inl hptr.ge
  · obtain ⟨hnode, hroot⟩ := hbuff r b hr hb
    exact ⟨⟨(r, b), rfl, hnode, hroot⟩, Extent.Within.refl _,
      fun c _ heq => by simp [Object.item, nest] at heq⟩

/-- Everything in the tree lies apart from the record of the root. -/
theorem Ok.disjoint_record_root {o : Object} (ho : o ∈ F.objects) (hne : o ≠ .record F.root) :
    Extent.Disjoint ⟨F.root, sizeofRegion⟩ (F.objectExt o) := by
  obtain ⟨⟨n, hplace⟩, hwithin, -⟩ := h.item_of_mem_objects ho hne
  obtain ⟨⟨r, b⟩, ⟨hr, hb⟩, hdepth, harea⟩ := h.nest.within_root hplace
  obtain rfl := h.eq_root_of_ancestors hr (List.length_eq_zero_iff.mp hdepth)
  obtain ⟨rb, hchain, -, hapart⟩ := h.chain_root
  simp only [hchain, List.mem_singleton] at hb
  subst hb
  exact hapart.mono_right (hwithin.trans harea)

theorem Ok.object_disjoint {o o' : Object} (ho : o ∈ F.objects) (ho' : o' ∈ F.objects)
    (hne : o ≠ o') : (F.objectExt o).Disjoint (F.objectExt o') := by
  by_cases hroot : o = .record F.root
  · subst hroot
    exact h.disjoint_record_root ho' hne.symm
  by_cases hroot' : o' = .record F.root
  · subst hroot'
    exact (h.disjoint_record_root ho hne).symm
  -- two items of the nest: apart, or one lies in the data of the buffer that the other carries
  obtain ⟨⟨n, hplace⟩, hwithin, hcarrier⟩ := h.item_of_mem_objects ho hroot
  obtain ⟨⟨n', hplace'⟩, hwithin', hcarrier'⟩ := h.item_of_mem_objects ho' hroot'
  obtain hdisj | ⟨c, hc, heq, hin⟩ | ⟨c, hc, heq, hin⟩ :=
    h.nest.disjoint_or_within hplace hplace' fun heq => hne (Object.item_injective heq)
  · exact hdisj.mono hwithin hwithin'
  · exact (hcarrier c hc heq).mono_right (hwithin'.trans hin)
  · exact ((hcarrier' c hc heq).mono_right (hwithin.trans hin)).symm

theorem Ok.objects_nodup : F.objects.Nodup := by
  have hbelow : F.below.Nodup := h.regions_nodup.filter _
  have hflat : ∀ f : ℕ → ℕ → Object, (∀ {r b r' b'}, f r b = f r' b' → r = r' ∧ b = b') →
      (F.below.flatMap fun r => (F.chain r).map (f r)).Nodup := by
    intro f hf
    refine List.nodup_flatMap.mpr ⟨fun r hr => ?_, hbelow.imp fun {r r'} hne => ?_⟩
    · exact (h.chain_nodup r (mem_below.mp hr).1).map fun b b' heq => (hf heq).2
    · intro o ho ho'
      obtain ⟨b, -, rfl⟩ := List.mem_map.mp ho
      obtain ⟨b', -, heq⟩ := List.mem_map.mp ho'
      exact hne (hf heq).1.symm
  refine List.Nodup.append (h.held_nodup.map ?_) (List.Nodup.append (h.regions_nodup.map ?_)
    (List.Nodup.append (hflat .descr ?_) (hflat .header ?_) ?_) ?_) ?_
  · rintro ⟨r, e⟩ ⟨r', e'⟩ heq
    simpa using heq
  · exact fun r r' heq => by simpa using heq
  · exact fun {_ _ _ _} heq => by simpa using heq
  · exact fun {_ _ _ _} heq => by simpa using heq
  -- objects of two kinds differ by their constructors
  all_goals
    intro o ho ho'
    simp only [List.mem_append, List.mem_map, List.mem_flatMap] at ho ho'
    grind

/-- **The objects of a forest lie pairwise apart.** -/
theorem Ok.objects_pairwise :
    F.objects.Pairwise fun o o' => (F.objectExt o).Disjoint (F.objectExt o') :=
  h.objects_nodup.pairwise_of_forall_ne fun _ ho _ ho' hne => h.object_disjoint ho ho' hne

/-- A held block is not empty and lies apart from every other object. -/
theorem Ok.held_pos {r : ℕ} {e : Extent} (he : (r, e) ∈ F.held) : 0 < e.len := by
  obtain ⟨n, hn⟩ := h.placed (.held r e) he
  exact (h.live_within n hn.node _ hn.mem).2.2

/-- A descriptor of a buffer, the one of the root included, is no place of a block below
the root. -/
theorem Ok.descr_disjoint {n : ℕ × ℕ} (hn : F.Node n) {o : Object} (ho : o ∈ F.objects)
    (hne : o ≠ .descr n.1 n.2) (hroot : o ≠ .record F.root) :
    Extent.Disjoint ⟨n.2, sizeofBuff⟩ (F.objectExt o) := by
  obtain ⟨r, b⟩ := n
  by_cases hr : r = F.root
  · subst hr
    obtain ⟨rb, hchain, hrecord, -⟩ := h.chain_root
    obtain ⟨-, hb⟩ := hn
    simp only [hchain, List.mem_singleton] at hb
    subst hb
    exact (h.disjoint_record_root ho hroot).mono_left hrecord
  · exact h.object_disjoint (descr_mem_objects hn hr) ho hne.symm

/-- Every object but the record of the root lies in the buffer of the root. -/
theorem Ok.within_root_area {n : ℕ × ℕ} (hn : F.Node n) (hr : n.1 = F.root) {o : Object}
    (ho : o ∈ F.objects) (hroot : o ≠ .record F.root) :
    (F.objectExt o).Within (F.area n.2) := by
  obtain ⟨⟨m, hplace⟩, hwithin, -⟩ := h.item_of_mem_objects ho hroot
  obtain ⟨m', hm', hdepth, harea⟩ := h.nest.within_root hplace
  have hzero : h.nest.depth n = 0 := by simp [nest, hr, h.ancestors_root]
  obtain rfl := h.nest.root_unique hm' hn hdepth hzero
  exact hwithin.trans harea

end Objects

end Forest

end Shalloc
