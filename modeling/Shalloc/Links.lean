import Mathlib.Data.List.Basic
import Mathlib.Logic.Function.Basic
import Mathlib.Tactic.Common

/-!
# Doubly linked lists kept in their nodes

Several lists over one set of nodes, each node on at most one list. A node has a link to the
next and to the previous node, and each list has a head. What a node and its neighbours say of
each other is enough to put a node in front of a list and to take any node off its list. It does
not say that a node can be reached from the head of its list, which is kept as well.

## Main definitions

- `Links` — the heads and the links
- `Links.Ok` — a node and its neighbours agree
- `Links.push`, `Links.remove` — the two operations
- `Links.Path` — the nodes that links lead over
- `Links.Full` — the heads lead to all nodes of their lists

## Main results

- `Links.Ok.push`, `Links.Ok.remove` — the operations keep the links in order
- `Links.Full.push`, `Links.Full.remove` — they keep all nodes within reach
-/

/-- The heads of the lists, and the links of the nodes. -/
@[ext] structure Links (κ ι : Type) where
  head : κ → Option ι
  next : ι → Option ι
  prev : ι → Option ι

namespace Links

variable {κ ι : Type} {links : Links κ ι} {on : ι → Option κ} {i j : ι} {k : κ}

/-- The links are in order, for the nodes that are on list `k` if `on` is `some k`. -/
structure Ok (links : Links κ ι) (on : ι → Option κ) : Prop where
  head : ∀ {k i}, links.head k = some i → on i = some k ∧ links.prev i = none
  next : ∀ {k i j}, on i = some k → links.next i = some j → on j = some k ∧ links.prev j = some i
  prev : ∀ {k i j}, on i = some k → links.prev i = some j → on j = some k ∧ links.next j = some i
  first : ∀ {k i}, on i = some k → links.prev i = none → links.head k = some i

/-- No node, no list. -/
theorem Ok.empty (next prev : ι → Option ι) :
    Ok (κ := κ) ⟨fun _ => none, next, prev⟩ fun _ => none where
  head h := absurd h (by simp)
  next h := absurd h (by simp)
  prev h := absurd h (by simp)
  first h := absurd h (by simp)

/-- The order of the links is in the heads and in the links of the nodes on a list. -/
theorem Ok.congr {links' : Links κ ι} (h : Ok links on) (hhead : links'.head = links.head)
    (heq : ∀ {i k}, on i = some k → links'.next i = links.next i ∧ links'.prev i = links.prev i) :
    Ok links' on where
  head {k i} hi := by
    rw [hhead] at hi
    obtain ⟨hon, hprev⟩ := h.head hi
    exact ⟨hon, (heq hon).2.trans hprev⟩
  next {k i j} hi hj := by
    rw [(heq hi).1] at hj
    obtain ⟨hon, hprev⟩ := h.next hi hj
    exact ⟨hon, (heq hon).2.trans hprev⟩
  prev {k i j} hi hj := by
    rw [(heq hi).2] at hj
    obtain ⟨hon, hnext⟩ := h.prev hi hj
    exact ⟨hon, (heq hon).1.trans hnext⟩
  first {k i} hi hnone := by
    rw [(heq hi).2] at hnone
    rw [hhead]
    exact h.first hi hnone

section Path

variable {next next' : ι → Option ι} {first : Option ι} {l : List ι}

/-- The links lead from `first` over the nodes of the list to the end. -/
def Path (next : ι → Option ι) : Option ι → List ι → Prop
  | first, [] => first = none
  | first, i :: l => first = some i ∧ Path next (next i) l

theorem Path.congr (h : Path next first l) (heq : ∀ i ∈ l, next' i = next i) :
    Path next' first l := by
  induction l generalizing first with
  | nil => exact h
  | cons i l ih =>
    refine ⟨h.1, ?_⟩
    rw [heq i List.mem_cons_self]
    exact ih h.2 fun j hj => heq j (List.mem_cons_of_mem _ hj)

end Path

variable [DecidableEq κ] [DecidableEq ι]

/-- Set a link of a node, if there is one. -/
def setAt (f : ι → Option ι) (i : Option ι) (j : Option ι) : ι → Option ι :=
  match i with
  | some i => Function.update f i j
  | none => f

@[simp] theorem setAt_none (f : ι → Option ι) (j : Option ι) : setAt f none j = f := rfl

@[simp] theorem setAt_some (f : ι → Option ι) (i : ι) (j : Option ι) :
    setAt f (some i) j = Function.update f i j := rfl

/-- Put node `i` in front of list `k`. -/
def push (links : Links κ ι) (i : ι) (k : κ) : Links κ ι where
  head := Function.update links.head k (some i)
  next := Function.update links.next i (links.head k)
  prev := setAt (Function.update links.prev i none) (links.head k) (some i)

/-- Take node `i` off list `k`. -/
def remove (links : Links κ ι) (i : ι) (k : κ) : Links κ ι where
  head := if (links.prev i).isNone then Function.update links.head k (links.next i) else links.head
  next := setAt links.next (links.prev i) (links.next i)
  prev := setAt links.prev (links.next i) (links.prev i)

/-- A node that is on no list may be put on one. -/
theorem Ok.push (h : Ok links on) (hi : on i = none) :
    Ok (links.push i k) (Function.update on i (some k)) := by
  -- no list and no node leads to a node that is on no list
  have hhead : ∀ {k' j}, links.head k' = some j → j ≠ i := by
    rintro k' j hj rfl
    exact absurd ((h.head hj).1.symm.trans hi) (by simp)
  have hnext : ∀ {k' j c}, on j = some k' → links.next j = some c → c ≠ i := by
    rintro k' j c hj hc rfl
    exact absurd ((h.next hj hc).1.symm.trans hi) (by simp)
  have hprev : ∀ {k' j c}, on j = some k' → links.prev j = some c → c ≠ i := by
    rintro k' j c hj hc rfl
    exact absurd ((h.prev hj hc).1.symm.trans hi) (by simp)
  have hon : ∀ {c k'}, Function.update on i (some k) c = some k' →
      (c = i ∧ k' = k) ∨ (c ≠ i ∧ on c = some k') := by
    intro c k' hc
    by_cases heq : c = i
    · subst heq
      exact Or.inl ⟨rfl, by simpa using hc.symm⟩
    · exact Or.inr ⟨heq, by simpa [heq] using hc⟩
  -- the links of the other nodes
  have hnext' : ∀ {c}, c ≠ i → (links.push i k).next c = links.next c :=
    fun hc => Function.update_of_ne hc _ _
  have hprev' : ∀ {c}, c ≠ i →
      (links.push i k).prev c = if links.head k = some c then some i else links.prev c := by
    intro c hc
    unfold Links.push
    cases hfirst : links.head k with
    | none => simp [hc]
    | some x =>
      by_cases heq : c = x
      · simp [heq]
      · simp [heq, hc, Ne.symm heq]
  have hself : (links.push i k).prev i = none := by
    unfold Links.push
    cases hfirst : links.head k with
    | none => simp
    | some x => simp [(hhead hfirst).symm]
  have hselfNext : (links.push i k).next i = links.head k := Function.update_self ..
  refine ⟨fun {k' c} hc => ?_, fun {k' c d} hc hd => ?_, fun {k' c d} hc hd => ?_,
    fun {k' c} hc hd => ?_⟩
  · by_cases hk : k' = k
    · subst hk
      obtain rfl : i = c := by simpa [Links.push] using hc
      exact ⟨Function.update_self .., hself⟩
    · have hold : links.head k' = some c := by simpa [Links.push, hk] using hc
      have hne := hhead hold
      obtain ⟨hcon, hcprev⟩ := h.head hold
      have hother : links.head k ≠ some c := fun hfirst =>
        hk (Option.some.inj (hcon.symm.trans (h.head hfirst).1))
      exact ⟨by simpa [hne] using hcon, by rw [hprev' hne, if_neg hother, hcprev]⟩
  · rcases hon hc with ⟨rfl, rfl⟩ | ⟨hne, hcon⟩
    · rw [hselfNext] at hd
      have hdne := hhead hd
      exact ⟨by simpa [hdne] using (h.head hd).1, by rw [hprev' hdne, if_pos hd]⟩
    · rw [hnext' hne] at hd
      have hdne := hnext hcon hd
      obtain ⟨hdon, hdprev⟩ := h.next hcon hd
      have hother : links.head k ≠ some d := fun hfirst =>
        absurd ((h.head hfirst).2.symm.trans hdprev) (by simp)
      exact ⟨by simpa [hdne] using hdon, by rw [hprev' hdne, if_neg hother, hdprev]⟩
  · rcases hon hc with ⟨rfl, rfl⟩ | ⟨hne, hcon⟩
    · exact absurd (hself.symm.trans hd) (by simp)
    · rw [hprev' hne] at hd
      split at hd
      · next hfirst =>
        obtain rfl := Option.some.inj hd
        obtain rfl := Option.some.inj ((h.head hfirst).1.symm.trans hcon)
        exact ⟨Function.update_self .., hselfNext.trans hfirst⟩
      · have hdne := hprev hcon hd
        obtain ⟨hdon, hdnext⟩ := h.prev hcon hd
        exact ⟨by simpa [hdne] using hdon, by rw [hnext' hdne, hdnext]⟩
  · rcases hon hc with ⟨rfl, rfl⟩ | ⟨hne, hcon⟩
    · exact Function.update_self ..
    · rw [hprev' hne] at hd
      split at hd
      · exact absurd hd (by simp)
      · next hother =>
        have hold := h.first hcon hd
        have hk : k' ≠ k := fun heq => hother (heq ▸ hold)
        simpa [Links.push, hk] using hold

/-- After a node is taken off, its neighbours lead past it: the head does, -/
theorem Ok.remove_head (h : Ok links on) (hi : on i = some k) (k' : κ) :
    (links.remove i k).head k' =
      if links.head k' = some i then links.next i else links.head k' := by
  unfold Links.remove
  by_cases hfirst : links.head k' = some i
  · obtain ⟨hon', hprev⟩ := h.head hfirst
    obtain rfl := Option.some.inj (hi.symm.trans hon')
    simp [hprev, hfirst]
  · rw [if_neg hfirst]
    cases hprev : links.prev i with
    | some c => simp
    | none =>
      have hk : k' ≠ k := fun heq => hfirst (heq ▸ h.first hi hprev)
      simp [hk]

/-- and so does the node before. -/
theorem Ok.remove_next (h : Ok links on) (hi : on i = some k) {c : ι} {k' : κ}
    (hc : on c = some k') : (links.remove i k).next c =
      if links.next c = some i then links.next i else links.next c := by
  unfold Links.remove
  by_cases hto : links.next c = some i
  · have hprev := (h.next hc hto).2
    simp [hprev, hto]
  · rw [if_neg hto]
    cases hprev : links.prev i with
    | none => simp
    | some d =>
      have hne : c ≠ d := fun heq => hto (heq ▸ (h.prev hi hprev).2)
      simp [hne]

/-- A node may be taken off the list that it is on. -/
theorem Ok.remove (h : Ok links on) (hi : on i = some k) :
    Ok (links.remove i k) (Function.update on i none) := by
  have hon : ∀ {c k'}, Function.update on i none c = some k' → c ≠ i ∧ on c = some k' := by
    intro c k' hc
    by_cases heq : c = i
    · subst heq
      exact absurd hc (by simp)
    · exact ⟨heq, by simpa [heq] using hc⟩
  have hhead := fun {k'} => h.remove_head hi k'
  have hnext := fun {c k'} (hc : on c = some k') => h.remove_next hi hc
  have hprev : ∀ {c k'}, on c = some k' → (links.remove i k).prev c =
      if links.prev c = some i then links.prev i else links.prev c := by
    intro c k' hc
    unfold Links.remove
    by_cases hto : links.prev c = some i
    · have hnext := (h.prev hc hto).2
      simp [hnext, hto]
    · rw [if_neg hto]
      cases hnext : links.next i with
      | none => simp
      | some d =>
        have hne : c ≠ d := fun heq => hto (heq ▸ (h.next hi hnext).2)
        simp [hne]
  refine ⟨fun {k' c} hc => ?_, fun {k' c d} hc hd => ?_, fun {k' c d} hc hd => ?_,
    fun {k' c} hc hd => ?_⟩
  · rw [hhead] at hc
    split at hc
    · next hfirst =>
      obtain ⟨hon', hnone⟩ := h.head hfirst
      obtain ⟨hcon, hback⟩ := h.next hon' hc
      have hne : c ≠ i := by
        rintro rfl
        exact absurd (hback.symm.trans hnone) (by simp)
      exact ⟨by simpa [hne] using hcon, by rw [hprev hcon, if_pos hback, hnone]⟩
    · next hfirst =>
      obtain ⟨hcon, hnone⟩ := h.head hc
      have hne : c ≠ i := fun heq => hfirst (heq ▸ hc)
      exact ⟨by simpa [hne] using hcon, by rw [hprev hcon, hnone]; simp⟩
  · obtain ⟨hne, hcon⟩ := hon hc
    rw [hnext hcon] at hd
    split at hd
    · next hto =>
      obtain ⟨hion, hback⟩ := h.next hcon hto
      obtain ⟨hdon, hdback⟩ := h.next hion hd
      have hdne : d ≠ i := by
        rintro rfl
        exact hne (Option.some.inj (hback.symm.trans hdback))
      exact ⟨by simpa [hdne] using hdon, by rw [hprev hdon, if_pos hdback, hback]⟩
    · next hto =>
      obtain ⟨hdon, hdback⟩ := h.next hcon hd
      have hdne : d ≠ i := fun heq => hto (heq ▸ hd)
      refine ⟨by simpa [hdne] using hdon, ?_⟩
      rw [hprev hdon, hdback, if_neg fun heq => hne (Option.some.inj heq)]
  · obtain ⟨hne, hcon⟩ := hon hc
    rw [hprev hcon] at hd
    split at hd
    · next hto =>
      obtain ⟨hion, hback⟩ := h.prev hcon hto
      obtain ⟨hdon, hdback⟩ := h.prev hion hd
      have hdne : d ≠ i := by
        rintro rfl
        exact hne (Option.some.inj (hback.symm.trans hdback))
      exact ⟨by simpa [hdne] using hdon, by rw [hnext hdon, if_pos hdback, hback]⟩
    · next hto =>
      obtain ⟨hdon, hdback⟩ := h.prev hcon hd
      have hdne : d ≠ i := fun heq => hto (heq ▸ hd)
      refine ⟨by simpa [hdne] using hdon, ?_⟩
      rw [hnext hdon, hdback, if_neg fun heq => hne (Option.some.inj heq)]
  · obtain ⟨hne, hcon⟩ := hon hc
    rw [hprev hcon] at hd
    rw [hhead]
    split at hd
    · next hto =>
      obtain ⟨hion, hback⟩ := h.prev hcon hto
      rw [if_pos (h.first hion hd), hback]
    · have hfirst := h.first hcon hd
      rw [hfirst, if_neg fun heq => hne (Option.some.inj heq)]

section Full

/-- Every node that is on a list is led to from its head, and once. -/
def Full (links : Links κ ι) (on : ι → Option κ) : Prop :=
  ∀ k, ∃ l, Path links.next (links.head k) l ∧ l.Nodup ∧ ∀ i, on i = some k → i ∈ l

omit [DecidableEq κ] [DecidableEq ι] in
/-- The nodes that a head leads to are on its list. -/
theorem Ok.path_on (h : Ok links on) {l : List ι} : ∀ {first : Option ι},
    (∀ i, first = some i → on i = some k) → Path links.next first l → ∀ i ∈ l, on i = some k := by
  induction l with
  | nil => exact fun _ _ i hi => absurd hi List.not_mem_nil
  | cons a l ih =>
    rintro _ hfirst ⟨rfl, hrest⟩ i hi
    have ha := hfirst a rfl
    rcases List.mem_cons.mp hi with rfl | hi
    · exact ha
    · exact ih (fun j hj => (h.next ha hj).1) hrest i hi

omit [DecidableEq κ] [DecidableEq ι] in
theorem Full.empty (next prev : ι → Option ι) :
    Full (κ := κ) ⟨fun _ => none, next, prev⟩ fun _ => none :=
  fun _ => ⟨[], rfl, List.nodup_nil, fun _ h => absurd h (by simp)⟩

omit [DecidableEq κ] [DecidableEq ι] in
theorem Full.congr {links' : Links κ ι} (h : Full links on) (hok : Ok links on)
    (hhead : links'.head = links.head)
    (heq : ∀ {i k}, on i = some k → links'.next i = links.next i) : Full links' on := by
  intro k
  obtain ⟨l, hpath, hnodup, hall⟩ := h k
  refine ⟨l, ?_, hnodup, hall⟩
  rw [hhead]
  exact hpath.congr fun i hi => heq (hok.path_on (fun j hj => (hok.head hj).1) hpath i hi)

theorem Full.push (h : Full links on) (hok : Ok links on) (hi : on i = none) :
    Full (links.push i k) (Function.update on i (some k)) := by
  intro k'
  obtain ⟨l, hpath, hnodup, hall⟩ := h k'
  have hmem := hok.path_on (fun j hj => (hok.head hj).1) hpath
  have hnot : i ∉ l := fun hil => absurd ((hmem i hil).symm.trans hi) (by simp)
  have hrest : Path (links.push i k).next (links.head k') l :=
    hpath.congr fun j hj => by
      have hne : j ≠ i := fun heq => hnot (heq ▸ hj)
      exact Function.update_of_ne hne _ _
  by_cases heq : k' = k
  · subst heq
    refine ⟨i :: l, ⟨Function.update_self .., ?_⟩, List.nodup_cons.mpr ⟨hnot, hnodup⟩,
      fun j hj => ?_⟩
    · have hnext : (links.push i k').next i = links.head k' := Function.update_self ..
      rwa [hnext]
    · by_cases hji : j = i
      · exact hji ▸ List.mem_cons_self
      · rw [Function.update_of_ne hji] at hj
        exact List.mem_cons_of_mem _ (hall j hj)
  · have hhead : (links.push i k).head k' = links.head k' := Function.update_of_ne heq _ _
    refine ⟨l, hhead ▸ hrest, hnodup, fun j hj => ?_⟩
    by_cases hji : j = i
    · rw [hji, Function.update_self] at hj
      exact absurd (Option.some.inj hj).symm heq
    · rw [Function.update_of_ne hji] at hj
      exact hall j hj

omit [DecidableEq κ] in
/-- The path that leads past a node. -/
theorem Path.filter {next : ι → Option ι} {first : Option ι} {l : List ι} (h : Path next first l)
    (i : ι) : Path (fun c => if next c = some i then next i else next c)
      (if first = some i then next i else first) (l.filter (· ≠ i)) := by
  induction l generalizing first with
  | nil =>
    obtain rfl : first = none := h
    rfl
  | cons a l ih =>
    obtain ⟨rfl, hrest⟩ := h
    have hrest := ih hrest
    by_cases heq : a = i
    · subst heq
      rw [List.filter_cons_of_neg (by simp), if_pos rfl]
      rwa [ite_self] at hrest
    · rw [List.filter_cons_of_pos (by simpa using heq), if_neg (by simpa using heq)]
      exact ⟨rfl, hrest⟩

theorem Full.remove (h : Full links on) (hok : Ok links on) (hi : on i = some k) :
    Full (links.remove i k) (Function.update on i none) := by
  intro k'
  obtain ⟨l, hpath, hnodup, hall⟩ := h k'
  have hmem := hok.path_on (fun j hj => (hok.head hj).1) hpath
  refine ⟨l.filter (· ≠ i), ?_, hnodup.filter _, fun j hj => ?_⟩
  · rw [hok.remove_head hi]
    refine (hpath.filter i).congr fun j hj => ?_
    exact hok.remove_next hi (hmem j (List.mem_of_mem_filter hj))
  · by_cases hji : j = i
    · rw [hji, Function.update_self] at hj
      exact absurd hj (by simp)
    · rw [Function.update_of_ne hji] at hj
      exact List.mem_filter.mpr ⟨hall j hj, by simpa using hji⟩

end Full

end Links
