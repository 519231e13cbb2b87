import Shalloc.Region.Parent

/-!
# The bytes of memory

The store has records and allocators in the place of the bytes that hold them. Here the bytes
are put back: every event of the trace writes to some addresses and to no others. A record is
written where it is, a `memcpy` at its destination, and an operation of an allocator in the
memory that the allocator keeps for itself.

## Main definitions

- `Event.writes`, `Event.Bytes` — what an event may write, and what it does to the bytes
- `BytesAfter` — the bytes after the events of a call
- `Leaves` — a call that leaves the bytes at some addresses as they are
- `BytesParent` — what a parent owes the bytes of the blocks that it has issued
- `FullParent` — all that a parent owes

## Main results

- `BytesAfter.split` — the bytes in the middle of a call
- `heap_bytesParent` — a heap leaves the bytes of its blocks as they are
-/

namespace Shalloc

section Events

/-- Where an operation on the buffer `data` may write. The no-free allocator writes to its
header. The others may write to all memory of the buffer that is not in a block in use, both
before and after the operation. -/
def Buff.writes (data : Buff) (live live' : List Extent) (a : ℕ) : Prop :=
  match data.allocType with
  | .nofree => data.start ≤ a ∧ a < data.start + sizeofNofreeHeader
  | _ => (data.start ≤ a ∧ a < data.start + data.size) ∧
      ∀ e ∈ live, e ∈ live' → ¬ (e.ptr ≤ a ∧ a < e.ptr + e.len)

/-- The bytes of a block that stays in use are not written. -/
theorem Buff.not_writes {data : Buff} {live live' : List Extent} {e : Extent} {a : ℕ}
    (hheader : data.allocType = .nofree → data.start + sizeofNofreeHeader ≤ e.ptr)
    (he : e ∈ live) (he' : e ∈ live') (ha : e.ptr ≤ a ∧ a < e.ptr + e.len) :
    ¬ data.writes live live' a := by
  intro hwrites
  unfold Buff.writes at hwrites
  split at hwrites
  · next htype =>
    have hle := hheader htype
    omega
  · exact hwrites.2 e he he' ha

/-- Where an event after the trace `trace` may write. A call writes where a buffer is and who
runs it before any operation on it and not afterwards, so that the descriptors `desc` at the end
of the call serve for all operations in it. -/
def Event.writes (desc : ℕ → Option Buff) (trace : List Event) (event : Event) (a : ℕ) : Prop :=
  match event with
  | .request _ _ | .release _ _ => False
  | .create b _ | .destroy b | .malloc b _ _ | .free b _ => ∀ data, desc b = some data →
      data.writes (liveBlocks b trace) (liveBlocks b (event :: trace)) a
  | .store ptr len | .zero ptr len | .copy ptr _ len => ptr ≤ a ∧ a < ptr + len

/-- What an event does to the bytes of memory. A `memcpy` is defined if source and destination
lie apart. -/
structure Event.Bytes (desc : ℕ → Option Buff) (trace : List Event) (event : Event)
    (mem mem' : ℕ → UInt8) : Prop where
  frame : ∀ a, ¬ event.writes desc trace a → mem' a = mem a
  zero : ∀ ptr len, event = .zero ptr len → ∀ i < len, mem' (ptr + i) = 0
  copy : ∀ dst src len, event = .copy dst src len → Extent.Disjoint ⟨dst, len⟩ ⟨src, len⟩ →
    ∀ i < len, mem' (dst + i) = mem (src + i)

/-- The bytes of memory after the events that have been added to the trace `old`. -/
inductive BytesAfter (desc : ℕ → Option Buff) (old : List Event) (mem : ℕ → UInt8) :
    List Event → (ℕ → UInt8) → Prop
  | refl : BytesAfter desc old mem old mem
  | step {event : Event} {trace : List Event} {mem' mem'' : ℕ → UInt8} :
      BytesAfter desc old mem trace mem' → event.Bytes desc trace mem' mem'' →
      BytesAfter desc old mem (event :: trace) mem''

variable {desc : ℕ → Option Buff} {old mid new : List Event} {mem mem' : ℕ → UInt8}

theorem BytesAfter.suffix (h : BytesAfter desc old mem new mem') : old <:+ new := by
  induction h with
  | refl => exact List.suffix_rfl
  | step _ _ ih => exact ih.trans (List.suffix_cons _ _)

/-- No event, no change. -/
theorem BytesAfter.eq (h : BytesAfter desc old mem old mem') : mem' = mem := by
  cases h with
  | refl => rfl
  | step h _ =>
    have hlength := h.suffix.length_le
    rw [List.length_cons] at hlength
    omega

/-- A call that adds one event. -/
theorem BytesAfter.single {event : Event} (h : BytesAfter desc old mem (event :: old) mem') :
    event.Bytes desc old mem mem' := by
  have hne : ∀ {trace : List Event}, trace = event :: old → trace ≠ old := by
    rintro _ rfl hno
    have hlength := congrArg List.length hno
    rw [List.length_cons] at hlength
    omega
  generalize hnew : event :: old = new at h
  cases h with
  | refl => exact absurd rfl (hne hnew.symm)
  | step h hevent =>
    obtain ⟨rfl, rfl⟩ := List.cons.inj hnew
    rw [h.eq] at hevent
    exact hevent

/-- The bytes in the middle of a call. -/
theorem BytesAfter.split (h : BytesAfter desc old mem new mem') (hold : old <:+ mid)
    (hnew : mid <:+ new) :
    ∃ mem1, BytesAfter desc old mem mid mem1 ∧ BytesAfter desc mid mem1 new mem' := by
  induction h with
  | refl =>
    obtain rfl := hold.eq_of_length (le_antisymm hold.length_le hnew.length_le)
    exact ⟨mem, .refl, .refl⟩
  | @step event trace _ _ h hevent ih =>
    rcases List.suffix_cons_iff.mp hnew with rfl | hnew
    · exact ⟨_, .step h hevent, .refl⟩
    · obtain ⟨mem1, h1, h2⟩ := ih hnew
      exact ⟨mem1, h1, .step h2 hevent⟩

/-- There are bytes after any event: copied or zeroed ones where the event says so, and the old
ones elsewhere. -/
theorem Event.exists_bytes (desc : ℕ → Option Buff) (trace : List Event) (event : Event)
    (mem : ℕ → UInt8) : ∃ mem', event.Bytes desc trace mem mem' := by
  cases event with
  | zero ptr len =>
    refine ⟨fun a => if ptr ≤ a ∧ a < ptr + len then 0 else mem a, fun a ha => if_neg ha, ?_,
      fun _ _ _ h => absurd h (by simp)⟩
    rintro _ _ ⟨rfl, rfl⟩ i hi
    exact if_pos ⟨Nat.le_add_right _ _, Nat.add_lt_add_left hi _⟩
  | copy dst src len =>
    refine ⟨fun a => if dst ≤ a ∧ a < dst + len then mem (src + (a - dst)) else mem a,
      fun a ha => if_neg ha, fun _ _ h => absurd h (by simp), ?_⟩
    rintro _ _ _ ⟨rfl, rfl, rfl⟩ - i hi
    simp only [Nat.le_add_right, Nat.add_lt_add_left hi, and_self, if_true, Nat.add_sub_cancel_left]
  | _ => exact ⟨mem, fun _ _ => rfl, fun _ _ h => absurd h (by simp),
      fun _ _ _ h => absurd h (by simp)⟩

/-- There are bytes after any call. -/
theorem exists_bytesAfter (desc : ℕ → Option Buff) (mem : ℕ → UInt8) (h : old <:+ new) :
    ∃ mem', BytesAfter desc old mem new mem' := by
  obtain ⟨added, rfl⟩ := h
  induction added with
  | nil => exact ⟨mem, .refl⟩
  | cons event added ih =>
    obtain ⟨mem1, h1⟩ := ih
    obtain ⟨mem2, h2⟩ := event.exists_bytes desc (added ++ old) mem1
    exact ⟨mem2, .step h1 h2⟩

end Events

section Leaves

variable {α : Type} {st st' st'' : Store α} {desc : ℕ → Option Buff} {p q : ℕ → Prop}

/-- What happens between the two stores leaves the bytes at the addresses of `p` as they are. -/
structure Leaves (desc : ℕ → Option Buff) (p : ℕ → Prop) (st st' : Store α) : Prop where
  later : st.Extends st'
  bytes : ∀ {mem mem'}, BytesAfter desc st.trace mem st'.trace mem' → ∀ a, p a → mem' a = mem a

theorem Leaves.of_trace (h : st'.trace = st.trace) : Leaves desc p st st' where
  later := ⟨[], h.symm⟩
  bytes := by
    intro mem mem' hbytes a _
    rw [h] at hbytes
    rw [hbytes.eq]

theorem Leaves.refl (desc : ℕ → Option Buff) (p : ℕ → Prop) (st : Store α) :
    Leaves desc p st st :=
  .of_trace rfl

theorem Leaves.trans (h : Leaves desc p st st') (h' : Leaves desc p st' st'') :
    Leaves desc p st st'' where
  later := h.later.trans h'.later
  bytes := by
    intro mem mem'' hbytes a ha
    obtain ⟨mem', h1, h2⟩ := hbytes.split h.later h'.later
    exact (h'.bytes h2 a ha).trans (h.bytes h1 a ha)

theorem Leaves.mono (h : Leaves desc p st st') (hsub : ∀ a, q a → p a) : Leaves desc q st st' :=
  ⟨h.later, fun hbytes a ha => h.bytes hbytes a (hsub a ha)⟩

/-- One event that writes elsewhere. -/
theorem Leaves.event {event : Event} (htrace : st'.trace = event :: st.trace)
    (hwrites : ∀ a, p a → ¬ event.writes desc st.trace a) : Leaves desc p st st' where
  later := by
    rw [Store.Extends, htrace]
    exact List.suffix_cons _ _
  bytes := by
    intro mem mem' hbytes a ha
    rw [htrace] at hbytes
    exact hbytes.single.frame a (hwrites a ha)

theorem Leaves.setBuff (st : Store α) {d : ℕ} (data : Buff)
    (hd : ∀ a, p a → ¬ (d ≤ a ∧ a < d + sizeofBuff)) : Leaves desc p st (st.setBuff d data) :=
  .event rfl hd

theorem Leaves.setRegion (st : Store α) {r : ℕ} (region : Region)
    (hr : ∀ a, p a → ¬ (r ≤ a ∧ a < r + sizeofRegion)) :
    Leaves desc p st (st.setRegion r region) :=
  .event rfl hr

end Leaves

/-- The parent at the head of `path` serves a request below `limit`, or refuses it, and leaves the
bytes of the blocks that it has issued as they are. The descriptors in those blocks are not its
own. -/
structure BytesParent {α : Type} (ops : BuffAllocType → BuffOp α) (path : List ℕ) (limit : ℕ)
    (inv : List Extent → Store α → Prop) : Prop where
  asked : ∀ {blocks st st' n p desc}, inv blocks st → n < limit →
    shallocMalloc ops path n st = some (p, st') →
    (∀ a, ¬ Covers (p.elim blocks fun p => ⟨p, n⟩ :: blocks) a → desc a = st'.buffs a) →
    Leaves desc (Covers blocks) st st'

/-- All that a parent owes to those who have its blocks. -/
structure FullParent {α : Type} (ops : BuffAllocType → BuffOp α) (path : List ℕ) (top limit : ℕ)
    (inv : List Extent → Store α → Prop) : Prop where
  sound : SoundParent ops path top limit inv
  bytes : BytesParent ops path limit inv
  takesBack : TakesBack ops path inv

section Heap

variable {α : Type} {ops : BuffAllocType → BuffOp α} {head limit P b : ℕ} {parent : Region}
  {buff : Buff} {rep : Buff → List Extent → α → Prop}

/-- A request to the buffer of a heap leaves the bytes of the blocks in use alone. -/
theorem HeapIssued.not_writes {blocks : List Extent} {st : Store α} {trace : List Event}
    {desc : ℕ → Option Buff} {a : ℕ} (hsound : SoundOp (ops buff.allocType) head limit rep)
    (htype : buff.allocType = .nofree → sizeofNofreeHeader ≤ head)
    (h : HeapIssued rep P b parent buff blocks st) (hdesc : desc b = some buff)
    (hkept : ∀ e ∈ blocks, e ∈ liveBlocks b trace) (ha : Covers blocks a) :
    ¬ ∀ data, desc b = some data →
      data.writes (liveBlocks b st.trace) (liveBlocks b trace) a := by
  intro hwrites
  obtain ⟨e, he, hin⟩ := ha
  have hlive := h.live e he
  refine Buff.not_writes (fun hnofree => ?_) hlive (hkept e he) hin (hwrites buff hdesc)
  obtain ⟨⟨hstart, -⟩, -, -⟩ := hsound.issued h.above.rep e hlive
  have hle := htype hnofree
  simp only at hstart
  omega

/-- **A heap leaves the bytes of its blocks as they are**: it writes to the memory of its buffer
that is in no block. -/
theorem heap_bytesParent (hsound : SoundOp (ops buff.allocType) head limit rep)
    (hhead : 0 < head) (hfixed : hasFlag parent.flags .nonResizable = true)
    (hlimit : sizeofRegion < limit)
    (htype : buff.allocType = .nofree → sizeofNofreeHeader ≤ head) :
    BytesParent ops [P] limit (HeapIssued rep P b parent buff) where
  asked := by
    intro blocks st st' n p desc h hn hcall hdesc
    have hparent : SoundParent ops [P] (2 ^ 48) limit (HeapIssued rep P b parent buff) :=
      heap_soundParent hsound hhead hfixed hlimit
    have hlog : Leaves desc (Covers blocks) st (st.log (.request P n)) :=
      .event rfl fun _ _ hno => hno
    have h' : HeapIssued rep P b parent buff blocks (st.log (.request P n)) :=
      ⟨h.above.of_same rfl rfl rfl rfl, h.live, h.apart⟩
    obtain ⟨-, rfl⟩ | ⟨-, a, -, hst'⟩ :=
      shallocMalloc_fixed h.above.region h.above.layout.tail h.above.descr hfixed hcall
    · exact hlog
    · -- the descriptor of the heap is in no block
      have hb : desc b = some buff := by
        have hnot : ¬ Covers (p.elim blocks fun p => ⟨p, n⟩ :: blocks) b := by
          cases p with
          | none => exact ((hparent.refused h hn hcall).1.own_addresses hsound hhead).2.1
          | some q => exact ((hparent.served h hn hcall).1.own_addresses hsound hhead).2.1
        rw [hdesc b hnot, hst']
        exact h.above.descr
      have htrace : st'.trace = .malloc b n p :: (st.log (.request P n)).trace := by
        rw [hst']
        rfl
      refine hlog.trans (.event htrace fun a ha => ?_)
      refine h'.not_writes hsound htype hb (fun e he => ?_) ha
      cases p with
      | none => exact h.live e he
      | some q =>
        rw [liveBlocks_malloc_some, if_pos rfl]
        exact List.mem_cons_of_mem _ (h.live e he)

end Heap

end Shalloc
