import Shalloc.Runs.Free

/-!
# Writes of users

Between two calls of an allocator the blocks in use of its buffer belong to their users: callers
write to them, `shalloc_calloc` clears them, `shalloc_orealloc` copies to them, and the regions
above have their records, descriptors and buffers in them. Here each call comes after a write to
the blocks in use, of which nothing else is known. An allocator whose form no such write breaks
is sound, and issues blocks inside its buffer, as it does without them.

## Main definitions

- `Users` — what is written before each call
- `usedOp` — an allocator whose buffer is written to before each call
- `Embeds` — an allocator in a table whose cells have states of other allocators too

## Main results

- `SoundOp.used`, `IssuesInside.used` — users do not break an allocator
- `SoundOp.embed`, `IssuesInside.embed` — nor does its place in a table
-/

namespace Shalloc

variable {α σ : Type} {op : BuffOp σ} {op' : BuffOp α} {ι : σ → α} {head limit top : ℕ}
  {rep : Buff → List Extent → σ → Prop}

section Users

/-- What users write before the call with the number `i`, given the blocks in use and the memory.
It is one of the writes that `writes` allows. -/
structure Users (writes : Buff → List Extent → σ → σ → Prop) where
  write : ℕ → Buff → List Extent → σ → σ
  written : ∀ i buff live a, writes buff live a (write i buff live a)

/-- The memory of a buffer with the blocks in use, and the number of calls so far. -/
structure UsedState (σ : Type) where
  memory : σ
  live : List Extent
  calls : ℕ

variable {writes : Buff → List Extent → σ → σ → Prop}

/-- The memory that the next call finds. -/
def Users.memory (users : Users writes) (buff : Buff) (a : UsedState σ) : σ :=
  users.write a.calls buff a.live a.memory

/-- The operations of `op`, each on the memory that users leave. -/
def usedOp (users : Users writes) (op : BuffOp σ) : BuffOp (UsedState σ) where
  create buff a := (op.create buff (users.memory buff a)).map fun c => (c.1, ⟨c.2, [], a.calls + 1⟩)
  destroy buff a := (op.destroy buff (users.memory buff a)).map fun m => ⟨m, [], a.calls + 1⟩
  malloc buff n a := (op.malloc buff n (users.memory buff a)).map fun c =>
    (c.1, ⟨c.2, c.1.elim a.live fun p => ⟨p, n⟩ :: a.live, a.calls + 1⟩)
  free buff p a := (op.free buff p (users.memory buff a)).map fun m =>
    ⟨m, releaseBlock p a.live, a.calls + 1⟩

/-- The memory has its form, with the blocks in use that are noted. -/
structure UsedRep (rep : Buff → List Extent → σ → Prop) (buff : Buff) (live : List Extent)
    (a : UsedState σ) : Prop where
  noted : a.live = live
  memory : rep buff live a.memory

/-- No write that is allowed breaks the form. -/
def Withstands (rep : Buff → List Extent → σ → Prop) (writes : Buff → List Extent → σ → σ → Prop) :
    Prop :=
  ∀ ⦃buff live a a'⦄, rep buff live a → writes buff live a a' → rep buff live a'

variable {users : Users writes} (hwrites : Withstands rep writes)
include hwrites

/-- The form is still there when the next call is made. -/
theorem UsedRep.next {buff : Buff} {live : List Extent} {a : UsedState σ}
    (h : UsedRep rep buff live a) : rep buff live (users.memory buff a) := by
  refine hwrites h.memory ?_
  rw [← h.noted]
  exact users.written a.calls buff a.live a.memory

/-- **Users do not break a sound allocator.** -/
theorem SoundOp.used (hop : SoundOp op head limit rep) :
    SoundOp (usedOp users op) head limit (UsedRep rep) where
  issued h := hop.issued h.memory
  served := by
    intro buff blocks a n p a' h hpos hn hcall
    obtain ⟨⟨q, m⟩, hmalloc, heq⟩ := Option.map_eq_some_iff.mp hcall
    obtain ⟨rfl, rfl⟩ := Prod.mk.inj heq
    obtain ⟨hrep, hapart⟩ := hop.served (h.next hwrites) hpos hn hmalloc
    have hnoted : (⟨p, n⟩ : Extent) :: a.live = ⟨p, n⟩ :: blocks := congrArg (⟨p, n⟩ :: ·) h.noted
    exact ⟨⟨hnoted, hrep⟩, hapart⟩
  refused := by
    intro buff blocks a n a' h hpos hn hcall
    obtain ⟨⟨q, m⟩, hmalloc, heq⟩ := Option.map_eq_some_iff.mp hcall
    obtain ⟨rfl, rfl⟩ := Prod.mk.inj heq
    exact ⟨h.noted, hop.refused (h.next hwrites) hpos hn hmalloc⟩
  freed := by
    intro buff blocks a e a' h he hcall
    obtain ⟨m, hfree, rfl⟩ := Option.map_eq_some_iff.mp hcall
    exact ⟨congrArg (releaseBlock e.ptr) h.noted, hop.freed (h.next hwrites) he hfree⟩

/-- **Users do not make an allocator leave its buffer.** -/
theorem IssuesInside.used (hop : IssuesInside op top rep) :
    IssuesInside (usedOp users op) top (UsedRep rep) where
  inside h := hop.inside h.memory
  next link h := ⟨h.noted, hop.next link h.memory⟩
  created := by
    intro data a ret a' hmin htop hcall hret
    obtain ⟨⟨q, m⟩, hcreate, heq⟩ := Option.map_eq_some_iff.mp hcall
    obtain ⟨rfl, rfl⟩ := Prod.mk.inj heq
    exact ⟨rfl, hop.created hmin htop hcreate hret⟩
  malloc := by
    intro data live a n p a' h hpos hn hcall
    obtain ⟨⟨q, m⟩, hmalloc, heq⟩ := Option.map_eq_some_iff.mp hcall
    obtain ⟨rfl, rfl⟩ := Prod.mk.inj heq
    refine ⟨?_, hop.malloc (h.next hwrites) hpos hn hmalloc⟩
    cases q with
    | none => exact h.noted
    | some q => exact congrArg (⟨q, n⟩ :: ·) h.noted
  free := by
    intro data live a e a' h he hcall
    obtain ⟨m, hfree, rfl⟩ := Option.map_eq_some_iff.mp hcall
    exact ⟨congrArg (releaseBlock e.ptr) h.noted, hop.free (h.next hwrites) he hfree⟩

end Users

section Embeds

/-- The operations of `op` as an entry of a table: they work on the states that `ι` gives, and do
on them what `op` does. -/
structure Embeds (ι : σ → α) (op : BuffOp σ) (op' : BuffOp α) : Prop where
  create : ∀ {buff a ret a'}, op'.create buff a = some (ret, a') →
    ∃ s s', op.create buff s = some (ret, s') ∧ a' = ι s'
  malloc : ∀ {buff n s p a'}, op'.malloc buff n (ι s) = some (p, a') →
    ∃ s', op.malloc buff n s = some (p, s') ∧ a' = ι s'
  free : ∀ {buff p s a'}, op'.free buff p (ι s) = some a' →
    ∃ s', op.free buff p s = some s' ∧ a' = ι s'

/-- The state is one that `ι` gives. -/
def EmbedRep (ι : σ → α) (rep : Buff → List Extent → σ → Prop) (buff : Buff)
    (live : List Extent) (a : α) : Prop :=
  ∃ s, a = ι s ∧ rep buff live s

theorem otherOp_embeds (op : BuffOp σ) : Embeds AllocState.other op (otherOp op) where
  create := by
    intro buff a ret a' hcall
    cases a with
    | other s =>
      obtain ⟨⟨q, s'⟩, hcreate, heq⟩ := Option.bind_eq_some_iff.mp hcall
      obtain ⟨rfl, rfl⟩ := Prod.mk.inj (Option.some.inj heq)
      exact ⟨s, s', hcreate, rfl⟩
    | _ => exact absurd hcall (by simp [otherOp])
  malloc := by
    intro buff n s p a' hcall
    obtain ⟨⟨q, s'⟩, hmalloc, heq⟩ := Option.bind_eq_some_iff.mp hcall
    obtain ⟨rfl, rfl⟩ := Prod.mk.inj (Option.some.inj heq)
    exact ⟨s', hmalloc, rfl⟩
  free := by
    intro buff p s a' hcall
    obtain ⟨s', hfree, rfl⟩ := Option.map_eq_some_iff.mp hcall
    exact ⟨s', hfree, rfl⟩

/-- An entry of an entry. -/
theorem Embeds.trans {β : Type} {κ : α → β} {op'' : BuffOp β} (h : Embeds ι op op')
    (h' : Embeds κ op' op'') : Embeds (κ ∘ ι) op op'' where
  create := by
    intro buff a ret a' hcall
    obtain ⟨b, b', hinner, rfl⟩ := h'.create hcall
    obtain ⟨s, s', hcreate, rfl⟩ := h.create hinner
    exact ⟨s, s', hcreate, rfl⟩
  malloc := by
    intro buff n s p a' hcall
    obtain ⟨b', hinner, rfl⟩ := h'.malloc hcall
    obtain ⟨s', hmalloc, rfl⟩ := h.malloc hinner
    exact ⟨s', hmalloc, rfl⟩
  free := by
    intro buff p s a' hcall
    obtain ⟨b', hinner, rfl⟩ := h'.free hcall
    obtain ⟨s', hfree, rfl⟩ := h.free hinner
    exact ⟨s', hfree, rfl⟩

theorem SoundOp.embed (hop : SoundOp op head limit rep) (hι : Embeds ι op op') :
    SoundOp op' head limit (EmbedRep ι rep) where
  issued := by
    rintro buff blocks a ⟨s, rfl, h⟩
    exact hop.issued h
  served := by
    rintro buff blocks a n p a' ⟨s, rfl, h⟩ hpos hn hcall
    obtain ⟨s', hmalloc, rfl⟩ := hι.malloc hcall
    obtain ⟨hrep, hapart⟩ := hop.served h hpos hn hmalloc
    exact ⟨⟨s', rfl, hrep⟩, hapart⟩
  refused := by
    rintro buff blocks a n a' ⟨s, rfl, h⟩ hpos hn hcall
    obtain ⟨s', hmalloc, rfl⟩ := hι.malloc hcall
    exact ⟨s', rfl, hop.refused h hpos hn hmalloc⟩
  freed := by
    rintro buff blocks a e a' ⟨s, rfl, h⟩ he hcall
    obtain ⟨s', hfree, rfl⟩ := hι.free hcall
    exact ⟨s', rfl, hop.freed h he hfree⟩

theorem IssuesInside.embed (hop : IssuesInside op top rep) (hι : Embeds ι op op') :
    IssuesInside op' top (EmbedRep ι rep) where
  inside := by
    rintro data live a ⟨s, rfl, h⟩
    exact hop.inside h
  next := by
    rintro data live a link ⟨s, rfl, h⟩
    exact ⟨s, rfl, hop.next link h⟩
  created := by
    intro data a ret a' hmin htop hcall hret
    obtain ⟨s, s', hcreate, rfl⟩ := hι.create hcall
    exact ⟨s', rfl, hop.created hmin htop hcreate hret⟩
  malloc := by
    rintro data live a n p a' ⟨s, rfl, h⟩ hpos hn hcall
    obtain ⟨s', hmalloc, rfl⟩ := hι.malloc hcall
    exact ⟨s', rfl, hop.malloc h hpos hn hmalloc⟩
  free := by
    rintro data live a e a' ⟨s, rfl, h⟩ he hcall
    obtain ⟨s', hfree, rfl⟩ := hι.free hcall
    exact ⟨s', rfl, hop.free h he hfree⟩

end Embeds

end Shalloc
