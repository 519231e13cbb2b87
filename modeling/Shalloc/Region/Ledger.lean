import Mathlib.Data.List.Nodup
import Shalloc.Region.Allocator
import Shalloc.Region.Chain

/-!
# A parent with one buffer, and its ledger

The blocks in use of a buffer are counted against those that were in use at an earlier
moment: the ledger lists the addresses of the blocks issued since then and not taken back.
A parent region that keeps its one buffer issues a block or refuses, and takes back a
block of the ledger, without any other effect on the store.

## Main definitions

- `Ledger` — the blocks issued since an earlier moment and still in use
- `GivesBack` — everything issued since then has been taken back, once
- `OneBuff` — the parent and its buffer

## Main results

- `Ledger.givesBack_iff` — everything is given back exactly when the ledger is empty
- `OneBuff.malloc`, `OneBuff.free` — the calls on the parent
-/

namespace Shalloc

/-- The event changes the blocks in use of buffer `b`. -/
def Event.touches (b : ℕ) : Event → Prop
  | .malloc b' _ (some _) => b' = b
  | .free b' _ => b' = b
  | .create b' _ => b' = b
  | .destroy b' => b' = b
  | _ => False

/-- How often buffer `b` has issued a block at address `p`. -/
def issuedAt (b p : ℕ) : List Event → ℕ
  | [] => 0
  | .malloc b' _ (some q) :: trace => issuedAt b p trace + if b' = b ∧ q = p then 1 else 0
  | _ :: trace => issuedAt b p trace

/-- How often buffer `b` has taken back the block at address `p`. -/
def freedAt (b p : ℕ) : List Event → ℕ
  | [] => 0
  | .free b' q :: trace => freedAt b p trace + if b' = b ∧ q = p then 1 else 0
  | _ :: trace => freedAt b p trace

section Touches

variable {b : ℕ} {event : Event} {trace : List Event}

theorem liveBlocks_of_not_touches (h : ¬ event.touches b) :
    liveBlocks b (event :: trace) = liveBlocks b trace := by
  cases event with
  | malloc b' n p =>
    cases p with
    | none => rfl
    | some q => exact if_neg h
  | free b' p => exact if_neg h
  | create b' ret => exact if_neg h
  | destroy b' => exact if_neg h
  | _ => rfl

theorem issuedAt_of_not_touches (h : ¬ event.touches b) (p : ℕ) :
    issuedAt b p (event :: trace) = issuedAt b p trace := by
  cases event with
  | malloc b' n q =>
    cases q with
    | none => rfl
    | some q =>
      have hne : ¬ b' = b := h
      simp [issuedAt, hne]
  | _ => rfl

theorem freedAt_of_not_touches (h : ¬ event.touches b) (p : ℕ) :
    freedAt b p (event :: trace) = freedAt b p trace := by
  cases event with
  | free b' q =>
    have hne : ¬ b' = b := h
    simp [freedAt, hne]
  | _ => rfl

end Touches

/-- The blocks of buffer `b` at the addresses `mine` have been issued since `trace0`, and
are in use along with those that were in use then. -/
structure Ledger (b : ℕ) (trace0 trace : List Event) (mine : List ℕ) : Prop where
  balance : ∃ new, trace = new ++ trace0 ∧
    ∀ p, issuedAt b p new = freedAt b p new + mine.count p
  nodup : mine.Nodup
  before : ∀ e ∈ liveBlocks b trace0, e ∈ liveBlocks b trace ∧ e.ptr ∉ mine
  live : ∀ e ∈ liveBlocks b trace, e ∈ liveBlocks b trace0 ∨ e.ptr ∈ mine
  held : ∀ p ∈ mine, ∃ e ∈ liveBlocks b trace, e.ptr = p

/-- The blocks in use are those of `trace0` again, and each address issued since then has
been freed as often as it was issued. -/
def GivesBack (b : ℕ) (trace0 trace : List Event) : Prop :=
  (∀ e, e ∈ liveBlocks b trace ↔ e ∈ liveBlocks b trace0) ∧
    ∃ new, trace = new ++ trace0 ∧ ∀ p, issuedAt b p new = freedAt b p new

section Ledger

variable {b p n : ℕ} {trace0 trace : List Event} {mine : List ℕ}

theorem Ledger.start (b : ℕ) (trace0 : List Event) : Ledger b trace0 trace0 [] where
  balance := ⟨[], rfl, fun _ => rfl⟩
  nodup := List.nodup_nil
  before _ he := ⟨he, List.not_mem_nil⟩
  live _ he := Or.inl he
  held _ hp := absurd hp List.not_mem_nil

theorem Ledger.of_not_touches (h : Ledger b trace0 trace mine) (event : Event)
    (hevent : ¬ event.touches b) : Ledger b trace0 (event :: trace) mine where
  balance := by
    obtain ⟨new, rfl, hcount⟩ := h.balance
    refine ⟨event :: new, rfl, fun p => ?_⟩
    rw [issuedAt_of_not_touches hevent, freedAt_of_not_touches hevent, hcount]
  nodup := h.nodup
  before := by rw [liveBlocks_of_not_touches hevent]; exact h.before
  live := by rw [liveBlocks_of_not_touches hevent]; exact h.live
  held := by rw [liveBlocks_of_not_touches hevent]; exact h.held

theorem Ledger.of_new (h : Ledger b trace0 trace mine) {new : List Event}
    (hnew : ∀ event ∈ new, ¬ event.touches b) : Ledger b trace0 (new ++ trace) mine := by
  induction new with
  | nil => exact h
  | cons event new ih =>
    exact (ih fun e he => hnew e (List.mem_cons_of_mem _ he)).of_not_touches event
      (hnew event List.mem_cons_self)

/-- A block at an address that is not in use enters the ledger. -/
theorem Ledger.malloc (h : Ledger b trace0 trace mine)
    (hfresh : ∀ e ∈ liveBlocks b trace, e.ptr ≠ p) :
    Ledger b trace0 (.malloc b n (some p) :: trace) (p :: mine) where
  balance := by
    obtain ⟨new, rfl, hcount⟩ := h.balance
    refine ⟨_ :: new, rfl, fun q => ?_⟩
    have hq := hcount q
    by_cases hpq : p = q
    · simp only [issuedAt, freedAt, hpq, and_self, if_true, List.count_cons_self]
      omega
    · simp only [issuedAt, freedAt, hpq, and_false, if_false, List.count_cons_of_ne hpq]
      omega
  nodup := by
    refine List.nodup_cons.mpr ⟨fun hmem => ?_, h.nodup⟩
    obtain ⟨e, he, heq⟩ := h.held p hmem
    exact hfresh e he heq
  before e he := by
    obtain ⟨hlive, hne⟩ := h.before e he
    rw [liveBlocks_malloc_some, if_pos rfl]
    refine ⟨List.mem_cons_of_mem _ hlive, fun hmem => ?_⟩
    cases List.mem_cons.mp hmem with
    | inl heq => exact hfresh e hlive heq
    | inr hmem => exact hne hmem
  live e he := by
    rw [liveBlocks_malloc_some, if_pos rfl] at he
    cases List.mem_cons.mp he with
    | inl heq => exact Or.inr (by rw [heq]; exact List.mem_cons_self)
    | inr he => exact (h.live e he).imp_right (List.mem_cons_of_mem _)
  held q hq := by
    rw [liveBlocks_malloc_some, if_pos rfl]
    cases List.mem_cons.mp hq with
    | inl heq => exact ⟨_, List.mem_cons_self, heq.symm⟩
    | inr hq =>
      obtain ⟨e, he, heq⟩ := h.held q hq
      exact ⟨e, List.mem_cons_of_mem _ he, heq⟩

/-- A block of the ledger is taken back. -/
theorem Ledger.free (h : Ledger b trace0 trace mine) (hp : p ∈ mine) :
    Ledger b trace0 (.free b p :: trace) (mine.erase p) where
  balance := by
    obtain ⟨new, rfl, hcount⟩ := h.balance
    refine ⟨_ :: new, rfl, fun q => ?_⟩
    have hq := hcount q
    by_cases hpq : p = q
    · subst hpq
      have hpos := List.count_pos_iff.mpr hp
      simp only [issuedAt, freedAt, and_self, if_true, List.count_erase_self]
      omega
    · simp only [issuedAt, freedAt, hpq, and_false, if_false,
        List.count_erase_of_ne (Ne.symm hpq)]
      omega
  nodup := h.nodup.erase p
  before e he := by
    obtain ⟨hlive, hne⟩ := h.before e he
    rw [liveBlocks_free, if_pos rfl, mem_releaseBlock]
    exact ⟨⟨hlive, fun heq => hne (heq ▸ hp)⟩, fun hmem => hne (List.mem_of_mem_erase hmem)⟩
  live e he := by
    rw [liveBlocks_free, if_pos rfl, mem_releaseBlock] at he
    exact (h.live e he.1).imp_right fun hmem => (List.mem_erase_of_ne he.2).mpr hmem
  held q hq := by
    obtain ⟨hne, hq⟩ := (h.nodup.mem_erase_iff).mp hq
    obtain ⟨e, he, heq⟩ := h.held q hq
    rw [liveBlocks_free, if_pos rfl]
    exact ⟨e, mem_releaseBlock.mpr ⟨he, by rw [heq]; exact hne⟩, heq⟩

/-- **The balance of the ledger.** Everything has been given back exactly when no block is
left in the ledger. -/
theorem Ledger.givesBack_iff (h : Ledger b trace0 trace mine) :
    GivesBack b trace0 trace ↔ mine = [] := by
  constructor
  · rintro ⟨hsame, -⟩
    refine List.eq_nil_iff_forall_not_mem.mpr fun p hp => ?_
    obtain ⟨e, he, rfl⟩ := h.held p hp
    exact (h.before e ((hsame e).mp he)).2 hp
  · rintro rfl
    refine ⟨fun e => ⟨fun he => ?_, fun he => (h.before e he).1⟩, ?_⟩
    · exact (h.live e he).resolve_right List.not_mem_nil
    · obtain ⟨new, htrace, hcount⟩ := h.balance
      exact ⟨new, htrace, fun p => by simpa using hcount p⟩

end Ledger

/-- No request of the parent `P` is too large for its allocator, and the parent makes none
of its own: it keeps its one buffer. -/
def Calm (P limit : ℕ) (parent : Region) (trace0 trace : List Event) : Prop :=
  ∀ new, trace = new ++ trace0 → ∀ event ∈ new,
    (∀ m, event = .request P m → m < limit) ∧
      ∀ q m, parent.parent = some q → event ≠ .request q m

section Calm

variable {P limit : ℕ} {parent : Region} {trace0 trace1 trace2 : List Event}

theorem Calm.left (h : Calm P limit parent trace0 trace2) (h12 : trace1 <:+ trace2) :
    Calm P limit parent trace0 trace1 := by
  obtain ⟨later, rfl⟩ := h12
  rintro new rfl event hevent
  exact h (later ++ new) (by simp) event (List.mem_append_right _ hevent)

theorem Calm.right (h : Calm P limit parent trace0 trace2) (h01 : trace0 <:+ trace1) :
    Calm P limit parent trace1 trace2 := by
  obtain ⟨earlier, rfl⟩ := h01
  rintro new rfl event hevent
  exact h (new ++ earlier) (by simp) event (List.mem_append_left _ hevent)

theorem Calm.of_cons {event : Event} (h : Calm P limit parent trace0 trace1)
    (hcons : event :: trace0 <:+ trace1) :
    (∀ m, event = .request P m → m < limit) ∧
      ∀ q m, parent.parent = some q → event ≠ .request q m := by
  obtain ⟨later, rfl⟩ := hcons
  exact h (later ++ [event]) (by simp) event (by simp)

end Calm

/-- The region `P` has the one buffer `b`, whose data does not hold the region's own record
or the descriptor of the buffer. -/
structure OneBuffRegion (P b : ℕ) (parent : Region) (buff : Buff) : Prop where
  head : parent.dataHead = some b
  tail : parent.dataTail = some b
  end_eq : buff.endAddr + 1 = buff.start + buff.size
  small : buff.start + buff.size < 2 ^ 48
  record : P < buff.start ∨ buff.start + buff.size ≤ P
  descr : b < buff.start ∨ buff.start + buff.size ≤ b

/-- The region `P` with its one buffer, whose allocator represents the blocks in use. -/
structure OneBuff {α : Type} (rep : Buff → List Extent → α → Prop) (P b : ℕ) (parent : Region)
    (buff : Buff) (st : Store α) : Prop where
  layout : OneBuffRegion P b parent buff
  region : st.regions P = some parent
  descr : st.buffs b = some buff
  rep : rep buff (liveBlocks b st.trace) (st.cells buff.start)

section OneBuff

variable {α : Type} {ops : BuffAllocType → BuffOp α} {limit P b n : ℕ} {parent : Region}
  {buff : Buff} {rep : Buff → List Extent → α → Prop} {st st' : Store α} {p : Option ℕ}

/-- The two stores have the same records, descriptors and, but at `start`, allocators. -/
structure SameBut (start : ℕ) (st st' : Store α) : Prop where
  regions : st'.regions = st.regions
  buffs : st'.buffs = st.buffs
  cells : ∀ s, s ≠ start → st'.cells s = st.cells s

/-- A change that leaves the record of the parent and its buffer alone. -/
theorem OneBuff.of_same (h : OneBuff rep P b parent buff st)
    (hregion : st'.regions P = st.regions P) (hbuff : st'.buffs b = st.buffs b)
    (hcell : st'.cells buff.start = st.cells buff.start)
    (hlive : liveBlocks b st'.trace = liveBlocks b st.trace) : OneBuff rep P b parent buff st' where
  layout := h.layout
  region := by rw [hregion]; exact h.region
  descr := by rw [hbuff]; exact h.descr
  rep := by rw [hlive, hcell]; exact h.rep

/-- A region that asks for a new buffer makes a request of its parent. -/
theorem AllocBuffCases.asks {r size : ℕ} {region : Region} {d : Option ℕ}
    (hregion : st.regions r = some region)
    (h : AllocBuffCases ops (shallocMalloc ops region.ancestors) r size st d st') :
    ∃ q m, region.parent = some q ∧ (st.log (.request q m)).Extends st' := by
  have hasks : ∀ {m q st1}, region.parent = some q → ∀ {d : Option ℕ},
      shallocMalloc ops region.ancestors m st = some (d, st1) →
      (st.log (.request q m)).Extends st1 := by
    intro m q st1 hq d hmalloc
    obtain ⟨rest, hrest⟩ := List.head?_eq_some_iff.mp hq
    rw [hrest] at hmalloc
    exact shallocMalloc_request hmalloc
  cases h with
  | refused hregion' hq hmalloc =>
    obtain rfl := Option.some.inj (hregion.symm.trans hregion')
    exact ⟨_, _, hq, hasks hq hmalloc⟩
  | createFailed hregion' hq hmalloc _ hcreate _ hfree =>
    obtain rfl := Option.some.inj (hregion.symm.trans hregion')
    exact ⟨_, _, hq, (((hasks hq hmalloc).trans (Store.extends_setBuff _ _ _)).trans
      (Store.extends_opCreate hcreate)).trans (shallocFree_cases hfree).extends⟩
  | built hregion' hq hmalloc _ hcreate =>
    obtain rfl := Option.some.inj (hregion.symm.trans hregion')
    exact ⟨_, _, hq, (((hasks hq hmalloc).trans (Store.extends_setBuff _ _ _)).trans
      (Store.extends_opCreate hcreate)).trans (Store.extends_setRegion _ _ _)⟩

/-- The blocks of the ledger lie in the buffer. -/
theorem OneBuff.mem_area {head : ℕ} {trace0 : List Event} {mine : List ℕ} {d : ℕ}
    (hsound : SoundOp (ops buff.allocType) head limit rep) (h : OneBuff rep P b parent buff st)
    (hledger : Ledger b trace0 st.trace mine) (hd : d ∈ mine) :
    buff.start ≤ d ∧ d < buff.start + buff.size := by
  obtain ⟨e, he, rfl⟩ := hledger.held d hd
  obtain ⟨⟨h1, h2⟩, -, hpos⟩ := hsound.issued h.rep e he
  simp only at h1 h2
  omega

/-- A request to the parent's buffer: a block enters the ledger, or nothing does. -/
theorem OneBuff.opMalloc {head : ℕ} {trace0 : List Event} {mine : List ℕ}
    (hsound : SoundOp (ops buff.allocType) head limit rep) (h : OneBuff rep P b parent buff st)
    (hledger : Ledger b trace0 st.trace mine) (hpos : 0 < n) (hlimit : n < limit)
    (hcall : st.opMalloc ops b n = some (p, st')) :
    OneBuff rep P b parent buff st' ∧ SameBut buff.start st st' ∧
      Ledger b trace0 st'.trace (p.toList ++ mine) := by
  obtain ⟨buff', a, hbuff', hmalloc, rfl⟩ := Store.opMalloc_eq_some.mp hcall
  obtain rfl := Option.some.inj (h.descr.symm.trans hbuff')
  have hsame : SameBut buff.start st ((st.setCell buff.start a).log (.malloc b n p)) :=
    ⟨rfl, rfl, fun s hs => Function.update_of_ne hs _ _⟩
  cases p with
  | none =>
    refine ⟨⟨h.layout, h.region, h.descr, ?_⟩, hsame, hledger.of_not_touches _ (fun hno => hno)⟩
    simpa using hsound.refused h.rep hpos hlimit hmalloc
  | some d =>
    obtain ⟨hrep, hapart⟩ := hsound.served h.rep hpos hlimit hmalloc
    refine ⟨⟨h.layout, h.region, h.descr, by simpa using hrep⟩, hsame, hledger.malloc ?_⟩
    -- the new block is apart from every block in use, and neither is empty
    rintro e he rfl
    have hdisj := hapart e he
    have hlen := (hsound.issued h.rep e he).2.2
    simp only [Extent.Disjoint] at hdisj
    omega

/-- `shalloc_malloc` on the parent. -/
theorem OneBuff.malloc {head : ℕ} {trace0 : List Event} {mine : List ℕ}
    (hsound : SoundOp (ops buff.allocType) head limit rep) (h : OneBuff rep P b parent buff st)
    (hledger : Ledger b trace0 st.trace mine)
    (hcall : shallocMalloc ops (P :: parent.ancestors) n st = some (p, st'))
    (hcalm : Calm P limit parent st.trace st'.trace) :
    OneBuff rep P b parent buff st' ∧ SameBut buff.start st st' ∧
      Ledger b trace0 st'.trace (p.toList ++ mine) := by
  have hlog : OneBuff rep P b parent buff (st.log (.request P n)) :=
    h.of_same rfl rfl rfl rfl
  have hledger' : Ledger b trace0 (st.log (.request P n)).trace mine :=
    hledger.of_not_touches _ (fun hno => hno)
  have hlimit : n < limit := (hcalm.of_cons (shallocMalloc_request hcall)).1 n rfl
  have htail : ∀ {st1 region t}, OneBuff rep P b parent buff st1 → st1.regions P = some region →
      region.dataTail = some t → region = parent ∧ t = b := by
    intro st1 region t h1 hregion ht
    obtain rfl := Option.some.inj (hregion.symm.trans h1.region)
    exact ⟨rfl, Option.some.inj (ht.symm.trans h1.layout.tail)⟩
  -- the parent does not come to ask its own parent
  have hasks : ∀ {st1 st2 region size d}, (st.log (.request P n)).Extends st1 →
      st1.regions P = some parent → st1.regions P = some region →
      AllocBuffCases ops (shallocMalloc ops parent.ancestors) P size st1 d st2 →
      ¬ st2.Extends st' := by
    intro st1 st2 region size d hext hregion _ halloc hext2
    obtain ⟨q, m, hq, hrequest⟩ := halloc.asks hregion
    have hcalm1 := hcalm.right ((Store.extends_log _ _).trans hext)
    exact (hcalm1.of_cons (hrequest.trans hext2)).2 q m hq rfl
  obtain ⟨-, rfl, rfl⟩ | ⟨hpos, hserve⟩ := shallocMalloc_cases hcall
  · exact ⟨hlog, ⟨rfl, rfl, fun _ _ => rfl⟩, hledger'⟩
  · cases hserve with
    | served hregion ht hmalloc =>
      obtain ⟨-, rfl⟩ := htail hlog hregion ht
      obtain ⟨h1, hsame, hledger1⟩ := hlog.opMalloc hsound hledger' hpos hlimit hmalloc
      exact ⟨h1, ⟨hsame.regions, hsame.buffs, hsame.cells⟩, hledger1⟩
    | notGrown hrefuses hgrow hret =>
      have hmalloc := hrefuses.asked hlog.region h.layout.tail
      obtain ⟨h1, hsame, hledger1⟩ := hlog.opMalloc hsound hledger' hpos hlimit hmalloc
      cases hgrow with
      | fixed => exact ⟨h1, ⟨hsame.regions, hsame.buffs, hsame.cells⟩, hledger1⟩
      | failed hregion1 _ halloc =>
        exact absurd (.refl _) (hasks (Store.extends_opMalloc hmalloc) h1.region hregion1 halloc)
      | grown => exact absurd rfl hret
    | retried hrefuses hgrow _ _ hretry =>
      have hmalloc := hrefuses.asked hlog.region h.layout.tail
      obtain ⟨h1, -, -⟩ := hlog.opMalloc hsound hledger' hpos hlimit hmalloc
      cases hgrow with
      | grown hregion1 _ halloc hattach =>
        exact absurd (hattach.extends.trans (Store.extends_opMalloc hretry))
          (hasks (Store.extends_opMalloc hmalloc) h1.region hregion1 halloc)

/-- `shalloc_free` of a block of the ledger on the parent. -/
theorem OneBuff.free {head : ℕ} {trace0 : List Event} {mine : List ℕ} {d : ℕ}
    (hsound : SoundOp (ops buff.allocType) head limit rep) (h : OneBuff rep P b parent buff st)
    (hledger : Ledger b trace0 st.trace mine) (hd : d ∈ mine)
    (hcall : shallocFree ops P d st = some st') :
    OneBuff rep P b parent buff st' ∧ SameBut buff.start st st' ∧
      Ledger b trace0 st'.trace (mine.erase d) := by
  have haddr : shallocIsBuffAddr buff d := by
    have harea := h.mem_area hsound hledger hd
    have hend := h.layout.end_eq
    exact ⟨harea.1, by omega⟩
  cases shallocFree_cases hcall with
  | ignored hregion hnot =>
    obtain rfl := Option.some.inj (hregion.symm.trans h.region)
    exact absurd haddr (hnot b buff h.layout.tail h.descr)
  | asked hregion ht _ _ hfree =>
    obtain rfl := Option.some.inj (hregion.symm.trans h.region)
    obtain rfl := Option.some.inj (ht.symm.trans h.layout.tail)
    obtain ⟨buff', a, hbuff', hop, rfl⟩ := Store.opFree_eq_some.mp hfree
    obtain rfl := Option.some.inj (h.descr.symm.trans hbuff')
    obtain ⟨e, he, rfl⟩ := hledger.held d hd
    refine ⟨⟨h.layout, h.region, h.descr, ?_⟩, ⟨rfl, rfl, fun s hs => Function.update_of_ne hs _ _⟩,
      (hledger.of_not_touches (.release P e.ptr) (fun hno => hno)).free hd⟩
    simpa using hsound.freed h.rep he hop

end OneBuff

end Shalloc
