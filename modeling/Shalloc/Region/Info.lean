import Shalloc.Mplite.Defs
import Shalloc.Region.Chain

/-!
# The buffers of a region, one after the other

`SHALLOC_REGION_BUFF_ITER` runs a piece of code for every buffer of a region. Its loop starts
with a NULL pointer, which stands for no buffer yet, and looks at `next` before it moves, so
that it ends on the last buffer; in a region without a buffer the pointer stays NULL.

## Main definitions

- `regionBuffIterIn` — the macro in code with variables of any type
- `visits` — the buffers of a chain in order, each with the one before it
- `shallocRegionGetInfo` — `shalloc_region_get_info`

## Main results

- `regionBuffIterIn_eq` — the macro runs its body for the buffers of the chain in order
- `shallocRegionGetInfo_reports` — what `shalloc_region_get_info` reports of a chain
-/

namespace Shalloc

variable {α σ : Type}

section Iter

/-- The loop of `SHALLOC_REGION_BUFF_ITER`, in code whose variables and memory are `s`, with
the final values of PREV and CURR. `none` also when the fuel runs out before the loop ends. -/
def regionBuffIterLoopIn (mem : σ → Store α) (r : ℕ) (body : Option ℕ → Option ℕ → σ → Option σ) :
    ℕ → Option ℕ → Option ℕ → σ → Option (Option ℕ × Option ℕ × σ)
  | 0, _, _, _ => none
  | fuel + 1, prev, curr, s => do
    if ← regionBuffIterMore curr (mem s) then
      let next ← regionBuffIterNext r curr (mem s)
      let s ← body curr next s
      regionBuffIterLoopIn mem r body fuel curr next s
    else some (prev, curr, s)

/-- `SHALLOC_REGION_BUFF_ITER` in code whose variables and memory are `s`. -/
def regionBuffIterIn (mem : σ → Store α) (fuel r : ℕ)
    (body : Option ℕ → Option ℕ → σ → Option σ) (s : σ) : Option (Option ℕ × Option ℕ × σ) := do
  let region ← (mem s).regions r
  if region.dataHead.isSome then regionBuffIterLoopIn mem r body fuel none none s
  else some (none, none, s)

/-- The macro in code without variables of its own is the one that `shalloc_region_reset`
uses. -/
theorem regionBuffIter_eq_in (fuel r : ℕ) (body : Option ℕ → Option ℕ → Store α → Option (Store α))
    (st : Store α) : regionBuffIter fuel r body st = regionBuffIterIn id fuel r body st := by
  have hloop : ∀ {prev curr st}, regionBuffIterLoop r body fuel prev curr st =
      regionBuffIterLoopIn id r body fuel prev curr st := by
    induction fuel with
    | zero => exact rfl
    | succ fuel ih =>
      intro prev curr st
      simp only [regionBuffIterLoop, regionBuffIterLoopIn, ih, id]
  simp only [regionBuffIter, regionBuffIterIn, hloop, id]

/-- The buffers of a chain in order, each with the buffer before it; `prev` is before the
first. -/
def visits : Option ℕ → List ℕ → List (Option ℕ × ℕ)
  | _, [] => []
  | prev, b :: bs => (prev, b) :: visits (some b) bs

/-- The body is run for one buffer after the other. -/
def runVisits (body : Option ℕ → Option ℕ → σ → Option σ) (vs : List (Option ℕ × ℕ)) (s : σ) :
    Option σ :=
  vs.foldlM (fun s v => body v.1 (some v.2) s) s

/-- The chain of region `r` is `bs`. -/
def ChainIn (mem : σ → Store α) (r : ℕ) (bs : List ℕ) (s : σ) : Prop :=
  ∃ region, (mem s).regions r = some region ∧ ChainFrom (mem s).buffs region.dataHead bs

/-- A body that leaves the chain `bs` of region `r` as it is. -/
def KeepsChain (mem : σ → Store α) (r : ℕ) (bs : List ℕ)
    (body : Option ℕ → Option ℕ → σ → Option σ) : Prop :=
  ∀ prev curr s s', ChainIn mem r bs s → body prev curr s = some s' → ChainIn mem r bs s'

/-- The part of a chain after a buffer is what its `next` leads to. -/
theorem ChainFrom.after {buffs : ℕ → Option Buff} {b : ℕ} {rest : List ℕ} (done : List ℕ) :
    ∀ {head}, ChainFrom buffs head (done ++ b :: rest) →
      ∃ buff, buffs b = some buff ∧ ChainFrom buffs buff.next rest := by
  induction done with
  | nil =>
    rintro head ⟨-, buff, hbuff, hrest⟩
    exact ⟨buff, hbuff, hrest⟩
  | cons c done ih =>
    rintro head ⟨-, _, -, hrest⟩
    exact ih hrest

variable {mem : σ → Store α} {r : ℕ} {body : Option ℕ → Option ℕ → σ → Option σ} {bs : List ℕ}

/-- The loop from the buffer `curr` of the chain on, with `rest` after it: the body is run for
the buffers of `rest`, and the last of them is the current one at the end. -/
theorem regionBuffIterLoopIn_eq (hbody : KeepsChain mem r bs body) (rest : List ℕ) :
    ∀ {done : List ℕ} {prev : Option ℕ} {curr fuel : ℕ} {s : σ}, bs = done ++ curr :: rest →
      ChainIn mem r bs s → rest.length < fuel →
      regionBuffIterLoopIn mem r body fuel prev (some curr) s =
        (runVisits body (visits (some curr) rest) s).map fun s' =>
          ((curr :: rest).dropLast.getLast?.or prev, (curr :: rest).getLast?, s') := by
  induction rest with
  | nil =>
    intro done prev curr fuel s hbs hchain hfuel
    obtain ⟨fuel, rfl⟩ := Nat.exists_eq_succ_of_ne_zero (Nat.pos_iff_ne_zero.mp hfuel)
    obtain ⟨region, -, hfrom⟩ := hchain
    rw [hbs] at hfrom
    obtain ⟨buff, hbuff, hnext⟩ := hfrom.after done
    have hlast : buff.next = none := hnext
    simp [regionBuffIterLoopIn, regionBuffIterMore, hbuff, hlast, visits, runVisits]
  | cons c rest ih =>
    intro done prev curr fuel s hbs hchain hfuel
    obtain ⟨fuel, rfl⟩ := Nat.exists_eq_succ_of_ne_zero (Nat.ne_of_gt (Nat.zero_lt_of_lt hfuel))
    have hin := hchain
    obtain ⟨region, -, hfrom⟩ := hchain
    rw [hbs] at hfrom
    obtain ⟨buff, hbuff, hrest⟩ := hfrom.after done
    have hnext : buff.next = some c := hrest.1
    have hvisits : runVisits body (visits (some curr) (c :: rest)) s =
        (body (some curr) (some c) s).bind fun s => runVisits body (visits (some c) rest) s := rfl
    simp only [regionBuffIterLoopIn, regionBuffIterMore, regionBuffIterNext, hbuff, hnext,
      Option.isSome_some, Option.bind_eq_bind, Option.bind_some, if_true, hvisits]
    cases hrun : body (some curr) (some c) s with
    | none => rfl
    | some s1 =>
      have hbs' : bs = (done ++ [curr]) ++ c :: rest := by rw [hbs]; simp
      rw [Option.bind_some, Option.bind_some, ih hbs' (hbody _ _ _ _ hin hrun)
        (Nat.lt_of_succ_lt_succ hfuel)]
      have hprev : (c :: rest).dropLast.getLast?.or (some curr) =
          (curr :: c :: rest).dropLast.getLast?.or prev := by
        rw [List.dropLast_cons_cons, List.getLast?_cons]
        cases (c :: rest).dropLast.getLast? <;> rfl
      rw [hprev, List.getLast?_cons_cons]

/-- **The macro enumerates the chain**, of whatever length: given more rounds than buffers, its
body is run once for every buffer, in order and with the buffer before it, and it ends at the
tail. -/
theorem regionBuffIterIn_eq {region : Region} {fuel : ℕ} {s : σ}
    (hregion : (mem s).regions r = some region) (hlinked : Linked (mem s) region bs)
    (hbody : KeepsChain mem r bs body) (hfuel : bs.length < fuel) :
    regionBuffIterIn mem fuel r body s =
      (runVisits body (visits none bs) s).map fun s' =>
        (bs.dropLast.getLast?, region.dataTail, s') := by
  cases bs with
  | nil =>
    have hhead : region.dataHead = none := hlinked.head
    have htail : region.dataTail = none := hlinked.tail
    simp [regionBuffIterIn, hregion, hhead, htail, visits, runVisits]
  | cons b bs =>
    obtain ⟨fuel, rfl⟩ := Nat.exists_eq_succ_of_ne_zero (Nat.ne_of_gt (Nat.zero_lt_of_lt hfuel))
    have hhead : region.dataHead = some b := hlinked.head.1
    have hvisits : runVisits body (visits none (b :: bs)) s =
        (body none (some b) s).bind fun s => runVisits body (visits (some b) bs) s := rfl
    -- the first round moves from NULL to the first buffer
    simp only [regionBuffIterIn, regionBuffIterLoopIn, regionBuffIterMore, regionBuffIterNext,
      hregion, hhead, Option.isSome_some, Option.bind_eq_bind, Option.bind_some, if_true, hvisits]
    cases hrun : body none (some b) s with
    | none => rfl
    | some s1 =>
      have hchain := hbody _ _ _ _ ⟨region, hregion, hlinked.head⟩ hrun
      have hbs : b :: bs = [] ++ b :: bs := rfl
      rw [Option.bind_some, Option.bind_some, hlinked.tail,
        regionBuffIterLoopIn_eq hbody bs hbs hchain (Nat.lt_of_succ_lt_succ hfuel)]
      simp

end Iter

section Info

/-- `shalloc_region_info_t`. -/
structure RegionInfo where
  numBuffs : ℤ
  totBuffSize : ℕ
  lastBuffSize : ℕ
deriving DecidableEq, Repr

/-- The body of the loop in `shalloc_region_get_info`. -/
def shallocRegionGetInfoBody (st : Store α) (_prev curr : Option ℕ) (info : RegionInfo) :
    Option RegionInfo := do
  let curr ← curr
  let buff ← st.buffs curr
  some { info with
    totBuffSize := Word.wrap 64 (info.totBuffSize + buff.size)
    numBuffs := toInt32 (info.numBuffs + 1) }

/-- `shalloc_region_get_info`. -/
def shallocRegionGetInfo (fuel r : ℕ) (st : Store α) : Option RegionInfo := do
  let (_, curr, info) ←
    regionBuffIterIn (fun _ => st) fuel r (shallocRegionGetInfoBody st) ⟨0, 0, 0⟩
  match curr with
  | some curr =>
    let buff ← st.buffs curr
    some { info with lastBuffSize := buff.size }
  | none => some info

/-- What is reported of a region with the chain `bs`: the number of the buffers, as an `int`, the
sum of their sizes, modulo `2 ^ 64`, and the size of the tail. -/
structure InfoReports (st : Store α) (region : Region) (bs : List ℕ) (info : RegionInfo) :
    Prop where
  numBuffs : info.numBuffs = toInt32 bs.length
  totBuffSize : ∃ datas : List Buff, bs.map st.buffs = datas.map some ∧
    info.totBuffSize = Word.wrap 64 (datas.map Buff.size).sum
  lastBuffSize : ∀ t data, region.dataTail = some t → st.buffs t = some data →
    info.lastBuffSize = data.size
  noBuff : region.dataTail = none → info.lastBuffSize = 0

variable {st : Store α}

/-- The descriptors of a chain. -/
theorem ChainFrom.descriptors {buffs : ℕ → Option Buff} {bs : List ℕ} : ∀ {head},
    ChainFrom buffs head bs → ∃ datas : List Buff, bs.map buffs = datas.map some := by
  induction bs with
  | nil => exact fun _ => ⟨[], rfl⟩
  | cons b bs ih =>
    rintro head ⟨-, buff, hbuff, hrest⟩
    obtain ⟨datas, hdatas⟩ := ih hrest
    exact ⟨buff :: datas, by rw [List.map_cons, List.map_cons, hbuff, hdatas]⟩

/-- What the body has counted and added up after the buffers `bs`. -/
theorem runVisits_getInfo (bs : List ℕ) : ∀ {prev : Option ℕ} {datas : List Buff} {count : ℤ}
    {total last : ℕ}, bs.map st.buffs = datas.map some →
    runVisits (shallocRegionGetInfoBody st) (visits prev bs)
        ⟨toInt32 count, Word.wrap 64 total, last⟩ =
      some ⟨toInt32 (count + bs.length), Word.wrap 64 (total + (datas.map Buff.size).sum),
        last⟩ := by
  induction bs with
  | nil =>
    intro prev datas count total last hdatas
    obtain rfl : datas = [] := by simpa using hdatas
    simp [visits, runVisits]
  | cons b bs ih =>
    intro prev datas count total last hdatas
    cases datas with
    | nil => exact absurd hdatas (by simp)
    | cons data datas =>
      simp only [List.map_cons, List.cons.injEq] at hdatas
      obtain ⟨hdata, hrest⟩ := hdatas
      have hcount : toInt32 (toInt32 count + 1) = toInt32 (count + 1) := Int.bmod_add_bmod
      have htotal : Word.wrap 64 (Word.wrap 64 total + data.size) =
          Word.wrap 64 (total + data.size) := Nat.mod_add_mod ..
      have hrun : runVisits (shallocRegionGetInfoBody st) (visits prev (b :: bs))
            ⟨toInt32 count, Word.wrap 64 total, last⟩ =
          runVisits (shallocRegionGetInfoBody st) (visits (some b) bs)
            ⟨toInt32 (count + 1), Word.wrap 64 (total + data.size), last⟩ := by
        simp only [runVisits, visits, List.foldlM_cons, shallocRegionGetInfoBody, hdata, hcount,
          htotal, Option.bind_eq_bind, Option.bind_some]
      rw [hrun, ih hrest]
      have hlength : count + 1 + (bs.length : ℤ) = count + ((b :: bs).length : ℤ) := by
        rw [List.length_cons]
        omega
      rw [hlength, List.map_cons, List.sum_cons, Nat.add_assoc]

/-- **What `shalloc_region_get_info` reports** of a region, whatever the length of its chain. -/
theorem shallocRegionGetInfo_reports {region : Region} {bs : List ℕ} {fuel r : ℕ}
    (hregion : st.regions r = some region) (hlinked : Linked st region bs)
    (hfuel : bs.length < fuel) :
    ∃ info, shallocRegionGetInfo fuel r st = some info ∧ InfoReports st region bs info := by
  obtain ⟨datas, hdatas⟩ := hlinked.head.descriptors
  -- the body writes to the caller's record only
  have hkeeps : KeepsChain (fun _ : RegionInfo => st) r bs (shallocRegionGetInfoBody st) :=
    fun _ _ _ _ hchain _ => hchain
  have hloop : regionBuffIterIn (fun _ => st) fuel r (shallocRegionGetInfoBody st) ⟨0, 0, 0⟩ =
      some (bs.dropLast.getLast?, region.dataTail,
        ⟨toInt32 bs.length, Word.wrap 64 (datas.map Buff.size).sum, 0⟩) := by
    rw [regionBuffIterIn_eq hregion hlinked hkeeps hfuel]
    have hrun : runVisits (shallocRegionGetInfoBody st) (visits none bs)
          ⟨toInt32 0, Word.wrap 64 0, 0⟩ =
        some ⟨toInt32 (0 + bs.length), Word.wrap 64 (0 + (datas.map Buff.size).sum), 0⟩ :=
      runVisits_getInfo bs hdatas
    rw [Int.zero_add, Nat.zero_add] at hrun
    exact congrArg _ hrun
  cases htail : region.dataTail with
  | none =>
    have hinfo : shallocRegionGetInfo fuel r st =
        some ⟨toInt32 bs.length, Word.wrap 64 (datas.map Buff.size).sum, 0⟩ := by
      simp only [shallocRegionGetInfo, hloop, htail, Option.bind_eq_bind, Option.bind_some]
    refine ⟨⟨toInt32 bs.length, Word.wrap 64 (datas.map Buff.size).sum, 0⟩, hinfo, ?_⟩
    exact
      { numBuffs := by dsimp only
        totBuffSize := ⟨datas, hdatas, rfl⟩
        lastBuffSize := fun t _ ht => absurd (htail.symm.trans ht) (by simp)
        noBuff := fun _ => rfl }
  | some t =>
    obtain ⟨data, hdata⟩ := hlinked.head.exists_buff t (hlinked.tail_mem htail)
    have hinfo : shallocRegionGetInfo fuel r st =
        some ⟨toInt32 bs.length, Word.wrap 64 (datas.map Buff.size).sum, data.size⟩ := by
      simp only [shallocRegionGetInfo, hloop, htail, hdata, Option.bind_eq_bind, Option.bind_some]
    refine ⟨⟨toInt32 bs.length, Word.wrap 64 (datas.map Buff.size).sum, data.size⟩, hinfo, ?_⟩
    exact
      { numBuffs := by dsimp only
        totBuffSize := ⟨datas, hdatas, rfl⟩
        lastBuffSize := fun t' data' ht' hdata' => by
          obtain rfl := Option.some.inj (htail.symm.trans ht')
          rw [Option.some.inj (hdata.symm.trans hdata')]
        noBuff := fun hno => absurd (htail.symm.trans hno) (by simp) }

end Info

end Shalloc
