import Shalloc.Pages.Pool

/-!
# The search for a page

A bucket without a page that has room is given an unused one. A small page is split off a large
one if none is left, and if no large page is left the groups whose small pages are all unused are
put together again. All of this leaves the pages in use alone, and it fails only if each page
that would do is in use.

## Main definitions

- `Kept` — the pages in use are left alone
- `Found` — a page that was found

## Main results

- `recombineSmallPages_eq` — groups are put together
- `getLargePage_eq`, `getSmallPage_eq` — an unused page is found, if there is one
-/

namespace Shalloc.Pages

variable {poolsize b g i n p q hole : ℕ} {f large : Bool} {l : PageList}
  {on on' on'' : ℕ → Option PageList} {head head' head'' : Pool}

/-- The pages in use, with what lies in them, are left alone. -/
structure Kept (on on' : ℕ → Option PageList) (head head' : Pool) : Prop where
  on_iff : ∀ {p f b}, on' p = some (.bucket f b) ↔ on p = some (.bucket f b)
  pagesize : ∀ {p f b}, on p = some (.bucket f b) →
    head'.pagesize (p / 32) = head.pagesize (p / 32)
  data : ∀ {p f b}, on p = some (.bucket f b) → head'.data p = head.data p
  inner : ∀ {p q f b}, on p = some (.bucket f b) → head.pagesize (p / 32) = true → q ≠ p →
    q / 32 = p / 32 → head'.page q = head.page q

theorem Kept.refl (on : ℕ → Option PageList) (head : Pool) : Kept on on head head :=
  ⟨Iff.rfl, fun _ => rfl, fun _ => rfl, fun _ _ _ _ => rfl⟩

theorem Kept.trans (h : Kept on on' head head') (h' : Kept on' on'' head' head'') :
    Kept on on'' head head'' where
  on_iff := h'.on_iff.trans h.on_iff
  pagesize hp := (h'.pagesize (h.on_iff.mpr hp)).trans (h.pagesize hp)
  data hp := (h'.data (h.on_iff.mpr hp)).trans (h.data hp)
  inner hp hlarge hne hq :=
    (h'.inner (h.on_iff.mpr hp) ((h.pagesize hp).trans hlarge) hne hq).trans
      (h.inner hp hlarge hne hq)

/-- There is a page in use in the group. -/
def GroupUsed (on : ℕ → Option PageList) (g : ℕ) : Prop :=
  ∃ p f b, p / 32 = g ∧ on p = some (.bucket f b)

theorem Kept.groupUsed_iff (h : Kept on on' head head') : GroupUsed on' g ↔ GroupUsed on g :=
  exists_congr fun _ => exists_congr fun _ => exists_congr fun _ => and_congr_right' h.on_iff

section Pages

theorem PoolOk.page_of (h : PoolOk poolsize hole on head) (hp : on p = some l) (hne : p ≠ hole) :
    IsPage poolsize head.pagesize p := (h.page hp hne).1

/-- The header of the pool lies before the pages. -/
theorem PoolOk.ne_zero (h : PoolOk poolsize hole on head) (hfit : PagesFit poolsize)
    (hp : IsPage poolsize head.pagesize p) : p ≠ 0 := by
  rintro rfl
  have hle := hp.small h.first
  have hpos := hfit.firstPage.1
  omega

/-- Nothing in a large page but its front is listed. -/
theorem PoolOk.inner (h : PoolOk poolsize hole on head) (hp : p % 32 = 0)
    (hlarge : head.pagesize (p / 32) = true) (hq : q / 32 = p / 32) (hne : q ≠ p)
    (hhole : q ≠ hole) : on q = none := by
  cases hon : on q with
  | none => rfl
  | some l =>
    have hmod := (h.page_of hon hhole).large (hq ▸ hlarge)
    omega

/-- What is known of a page on the list of unused ones, -/
theorem PoolOk.free (h : PoolOk poolsize hole on head) (hp : on p = some (.free large))
    (hne : p ≠ hole) : head.pagesize (p / 32) = large ∧ (head.data p).elementsUsed = 0 := by
  obtain ⟨-, hlarge, hused⟩ := h.page hp hne
  exact ⟨hlarge.symm, hused⟩

/-- and of one in use. -/
theorem PoolOk.inUse (h : PoolOk poolsize hole on head) (hp : on p = some (.bucket f b))
    (hne : p ≠ hole) : PageInUse poolsize f b (head.pagesize (p / 32)) (head.data p) :=
  (h.page hp hne).2

/-- A page is unused, or in use. -/
theorem PoolOk.cases (h : PoolOk poolsize hole on head) (hp : IsPage poolsize head.pagesize p)
    (hne : p ≠ hole) :
    on p = some (.free (head.pagesize (p / 32))) ∨ ∃ f b, on p = some (.bucket f b) := by
  cases hon : on p with
  | none => exact absurd hon (h.all hp hne)
  | some l =>
    cases l with
    | free large =>
      refine Or.inl ?_
      rw [(h.free hon hne).1]
    | bucket f b => exact Or.inr ⟨f, b, rfl⟩

/-- The pages of a group behind the first one. -/
theorem isPage_of_group {pagesize : ℕ → Bool} (hfit : PagesFit poolsize) (hpos : 0 < p / 32)
    (hlt : p / 32 < largePages poolsize) (hlarge : pagesize (p / 32) = true → p % 32 = 0) :
    IsPage poolsize pagesize p := by
  obtain ⟨-, hfirst, -⟩ := hfit.firstPage
  exact ⟨hlt, hlarge, fun _ => by omega⟩

/-- A large page is not in the first group. -/
theorem PoolOk.group_pos (h : PoolOk poolsize hole on head)
    (hlarge : head.pagesize (p / 32) = true) : 0 < p / 32 := by
  refine Nat.pos_of_ne_zero fun heq => ?_
  rw [heq, h.first] at hlarge
  exact absurd hlarge (by simp)

end Pages

section Found

/-- A page of the pool that is on no list, if it is not 0. -/
structure Found (poolsize : ℕ) (large : Bool) (page : ℕ) (on on' : ℕ → Option PageList)
    (head head' : Pool) : Prop where
  ok : PoolOk poolsize page on' head'
  kept : Kept on on' head head'
  page : page ≠ 0 → IsPage poolsize head'.pagesize page ∧ head'.pagesize (page / 32) = large ∧
    on' page = none ∧ (head'.page page).prev = 0

/-- An unused page is taken off its list. -/
theorem PoolOk.pop (h : PoolOk poolsize 0 on head) (hfit : PagesFit poolsize) (large : Bool) :
    ((∀ p, on p ≠ some (.free large)) ∧ popFromList (.free large) head = (0, head)) ∨
      ∃ x on' head', on x = some (.free large) ∧ x ≠ 0 ∧
        popFromList (.free large) head = (x, head') ∧ Found poolsize large x on on' head head' := by
  obtain hnone | ⟨x, head', hx, hcall, hrel, hlisted, hprev, hpage⟩ :=
    h.listed.pop (.free large)
  · exact Or.inl hnone
  have hx0 := h.listed.ne_zero hx
  have hother : ∀ {p l}, Function.update on x none p = some l → p ≠ x ∧ on p = some l := by
    intro p l hp
    by_cases heq : p = x
    · rw [heq, Function.update_self] at hp
      exact absurd hp (by simp)
    · rw [Function.update_of_ne heq] at hp
      exact ⟨heq, hp⟩
  refine Or.inr ⟨x, Function.update on x none, head', hx, hx0, hcall, ?_, ?_, fun _ => ?_⟩
  · refine ⟨hlisted, fun {p l} hp _ => ?_, fun {p} hp hne => ?_, ?_, fun {b} hb => ?_, ?_⟩
    · rw [hrel.pagesize, hrel.data]
      have hold := (hother hp).2
      exact h.page hold (h.listed.ne_zero hold)
    · rw [Function.update_of_ne hne]
      rw [hrel.pagesize] at hp
      exact h.all hp (h.ne_zero hfit hp)
    · rw [hrel.pagesize]
      exact h.first
    · rw [hrel.elements]
      exact h.elements hb
    · rw [hrel.huge]
      exact h.huge
  · refine ⟨fun {p f b} => ⟨fun hp => (hother hp).2, fun hp => ?_⟩, fun _ => by rw [hrel.pagesize],
      fun _ => by rw [hrel.data], fun {p q f b} hp hlarge hne hq => hpage q ?_⟩
    · rw [Function.update_of_ne]
      · exact hp
      · rintro rfl
        exact absurd (hp.symm.trans hx) (by simp)
    · have hp0 := h.listed.ne_zero hp
      have hmod := (h.page_of hp hp0).large hlarge
      by_cases hq0 : q = 0
      · rw [hq0]
        exact h.listed.zero
      · exact h.inner hmod hlarge hq hne hq0
  · obtain ⟨hpages, -⟩ := h.free hx hx0
    rw [hrel.pagesize]
    exact ⟨h.page_of hx hx0, hpages, Function.update_self .., hprev⟩

/-- The pages of a group whose pages are all empty are all unused. -/
theorem PoolOk.allEmpty_iff (h : PoolOk poolsize 0 on head) (hfit : PagesFit poolsize)
    (hpos : 0 < g) (hlt : g < largePages poolsize) (hsmall : head.pagesize g = false) :
    (allEmpty (32 * g) head = true → ∀ q, Among (32 * g) 32 q → on q = some (.free false)) ∧
      (allEmpty (32 * g) head = false → GroupUsed on g) := by
  have hcases : ∀ q, Among (32 * g) 32 q →
      on q = some (.free false) ∧ (head.page q).elementsUsed = 0 ∨
        0 < (head.page q).elementsUsed ∧ ∃ f b, on q = some (.bucket f b) := by
    intro q hq
    have hgroup : q / 32 = g := by
      unfold Among at hq
      omega
    have hpage : IsPage poolsize head.pagesize q :=
      isPage_of_group hfit (by omega) (by omega) fun h1 => by simp [hgroup, hsmall] at h1
    have hq0 := h.ne_zero hfit hpage
    rcases h.cases hpage hq0 with hfree | ⟨f, b, hused⟩
    · rw [hgroup, hsmall] at hfree
      exact Or.inl ⟨hfree, (h.free hfree hq0).2⟩
    · exact Or.inr ⟨(h.inUse hused hq0).pos, f, b, hused⟩
  have hcall : allEmpty (32 * g) head = true ↔
      ∀ q, Among (32 * g) 32 q → (head.page q).elementsUsed = 0 := by
    unfold allEmpty
    rw [List.all_eq_true]
    constructor
    · intro hall q hq
      have hmem := hall (q - 32 * g) (List.mem_range.mpr (show q - 32 * g < 32 by
        unfold Among at hq
        omega))
      rw [Nat.add_sub_cancel' hq.1] at hmem
      exact of_decide_eq_true hmem
    · intro hall k hk
      have hk32 : k < 32 := List.mem_range.mp hk
      exact decide_eq_true (hall _ ⟨by omega, by omega⟩)
  constructor
  · intro hempty q hq
    rcases hcases q hq with ⟨hfree, -⟩ | ⟨hused, -⟩
    · exact hfree
    · exact absurd (hcall.mp hempty q hq) (Nat.ne_of_gt hused)
  · intro hempty
    have hnot : ¬ ∀ q, Among (32 * g) 32 q → (head.page q).elementsUsed = 0 := fun hall => by
      rw [hcall.mpr hall] at hempty
      exact absurd hempty (by simp)
    push Not at hnot
    obtain ⟨q, hq, hne⟩ := hnot
    rcases hcases q hq with ⟨-, hzero⟩ | ⟨-, f, b, hused⟩
    · exact absurd hzero hne
    · refine ⟨q, f, b, ?_, hused⟩
      unfold Among at hq
      omega

/-- A group of unused pages is put together. -/
theorem PoolOk.recombine (h : PoolOk poolsize 0 on head) (hfit : PagesFit poolsize)
    (hpos : 0 < g) (hlt : g < largePages poolsize)
    (hfree : ∀ q, Among (32 * g) 32 q → on q = some (.free false)) :
    ∃ head' on', addToList (.free true) (32 * g) (delSmallPages 32 (32 * g)
        { head with pagesize := setBit head.pagesize g }) = some head' ∧
      PoolOk poolsize 0 on' head' ∧ Kept on on' head head' ∧
      head'.pagesize = setBit head.pagesize g := by
  have hfew := hfit.largePages.2.1
  have hfront : Among (32 * g) 32 (32 * g) := ⟨le_rfl, by omega⟩
  have hgroup : ∀ {q}, Among (32 * g) 32 q ↔ q / 32 = g := fun {q} => by
    unfold Among
    omega
  -- the lists do not depend on the sizes of pages
  have hlisted : Listed on { head with pagesize := setBit head.pagesize g } :=
    h.listed.congr rfl fun _ => ⟨rfl, rfl⟩
  obtain ⟨hrel, hlisted1, hpage1⟩ := delSmallPages_eq hlisted hfree
  obtain ⟨head', hadd, hrel', hlisted', hpage'⟩ := hlisted1.add (if_pos hfront)
    (show 32 * g < 2 ^ 16 by omega) (by omega) (.free true)
  have hsizes : head'.pagesize = setBit head.pagesize g := by rw [hrel'.pagesize, hrel.pagesize]
  have hdata : head'.data = head.data := by
    rw [hrel'.data, hrel.data]
    rfl
  have hfrontOn : Function.update (fun q => if Among (32 * g) 32 q then none else on q) (32 * g)
      (some (PageList.free true)) (32 * g) = some (.free true) := Function.update_self ..
  have hbehind : ∀ {q}, q ≠ 32 * g → q / 32 = g →
      Function.update (fun q => if Among (32 * g) 32 q then none else on q) (32 * g)
        (some (PageList.free true)) q = none := fun hne hq => by
    rw [Function.update_of_ne hne]
    exact if_pos (hgroup.mpr hq)
  have helse : ∀ {q}, q / 32 ≠ g →
      Function.update (fun q => if Among (32 * g) 32 q then none else on q) (32 * g)
        (some (PageList.free true)) q = on q := fun {q} hq => by
    have hne : q ≠ 32 * g := by
      rintro rfl
      omega
    rw [Function.update_of_ne hne]
    exact if_neg (mt hgroup.mp hq)
  have hother : ∀ {k}, k ≠ g → head'.pagesize k = head.pagesize k := fun hne => by
    rw [hsizes]
    exact Function.update_of_ne hne _ _
  have hself : head'.pagesize g = true := by
    rw [hsizes]
    exact Function.update_self ..
  have hused : ∀ {p f b}, on p = some (.bucket f b) → p / 32 ≠ g := fun hp heq =>
    absurd (hp.symm.trans (hfree _ (hgroup.mpr heq))) (by simp)
  refine ⟨head', _, hadd, ⟨hlisted', fun {p l} hp hne => ?_, fun {p} hp hne => ?_, ?_,
    fun {b} hb => ?_, ?_⟩, ⟨fun {p f b} => ?_, fun {p f b} hp => hother (hused hp),
    fun {p f b} hp => congrFun hdata p, fun {p q f b} hp hlarge hqp hq => ?_⟩, hsizes⟩
  · by_cases hpg : p / 32 = g
    · by_cases hfp : p = 32 * g
      · subst hfp
        obtain rfl := Option.some.inj (hfrontOn.symm.trans hp)
        rw [hpg, hself, hdata]
        refine ⟨⟨by omega, fun _ => by omega, fun h0 => ?_⟩, rfl, (h.free (hfree _ hfront) hne).2⟩
        rw [hpg, hself] at h0
        exact absurd h0 (by simp)
      · exact absurd ((hbehind hfp hpg).symm.trans hp) (by simp)
    · rw [helse hpg] at hp
      obtain ⟨hpage, hok⟩ := h.page hp hne
      rw [hother hpg, hdata]
      exact ⟨⟨hpage.group, fun h1 => hpage.large ((hother hpg).symm.trans h1),
        fun h0 => hpage.small ((hother hpg).symm.trans h0)⟩, hok⟩
  · by_cases hpg : p / 32 = g
    · have hmod := hp.large (by rw [hpg]; exact hself)
      obtain rfl : p = 32 * g := by omega
      rw [hfrontOn]
      simp
    · rw [helse hpg]
      exact h.all ⟨hp.group, fun h1 => hp.large ((hother hpg).trans h1),
        fun h0 => hp.small ((hother hpg).trans h0)⟩ hne
  · rw [hother (Nat.ne_of_lt hpos)]
    exact h.first
  · rw [hrel'.elements, hrel.elements]
    exact h.elements hb
  · rw [hrel'.huge, hrel.huge]
    exact h.huge
  · by_cases hpg : p / 32 = g
    · by_cases hfp : p = 32 * g
      · rw [hfp, hfrontOn, hfree _ hfront]
        simp
      · rw [hbehind hfp hpg, hfree _ (hgroup.mpr hpg)]
        simp
    · rw [helse hpg]
  · have hp0 := h.listed.ne_zero hp
    have hpage := h.page_of hp hp0
    have hmod := hpage.large hlarge
    have hpg := hused hp
    have hq0 : q ≠ 0 := by
      have := h.group_pos hlarge
      omega
    have hnone := h.inner hmod hlarge hq hqp hq0
    have hqg : q / 32 ≠ g := by omega
    rw [hpage' q (by rintro rfl; omega) (by rw [if_neg (mt hgroup.mp hqg)]; exact hnone)]
    exact hpage1 q hnone

/-- **The groups whose pages are all unused** are put together. -/
theorem recombineLoop_eq (hfit : PagesFit poolsize) :
    ∀ {fuel g : ℕ} {on : ℕ → Option PageList} {head : Pool}, PoolOk poolsize 0 on head → 0 < g →
    g ≤ largePages poolsize → largePages poolsize < fuel + g →
    ∃ head' on', recombineLoop poolsize fuel (32 * g) head = some head' ∧
      PoolOk poolsize 0 on' head' ∧ Kept on on' head head' ∧
      (∀ k, head.pagesize k = true → head'.pagesize k = true) ∧
      ∀ k, g ≤ k → k < largePages poolsize → head'.pagesize k = true ∨ GroupUsed on k := by
  intro fuel
  induction fuel with
  | zero => exact fun _ _ hg hfuel => absurd hfuel (by omega)
  | succ fuel ih =>
    intro g on head h hpos hg hfuel
    have hbound : 32 * g < (poolsize >>> largePageBits poolsize) <<< bitsFromSmallToLargePage ↔
        g < largePages poolsize := by
      rw [Nat.shiftLeft_eq, largePages]
      show 32 * g < poolsize >>> largePageBits poolsize * 32 ↔ _
      omega
    have hgroup : 32 * g / smallPagesPerLargePage = g := Nat.mul_div_cancel_left g (by decide)
    rw [recombineLoop, hgroup]
    by_cases hlt : g < largePages poolsize
    · rw [if_pos (hbound.mpr hlt)]
      have hnext := @ih (g + 1)
      by_cases hlarge : head.pagesize g = true
      · rw [if_pos hlarge]
        obtain ⟨head', on', hcall, hok, hkept, hmono, hall⟩ :=
          hnext h (by omega) (by omega) (by omega)
        refine ⟨head', on', hcall, hok, hkept, hmono, fun k hk hkL => ?_⟩
        rcases Nat.eq_or_lt_of_le hk with rfl | hlt'
        · exact Or.inl (hmono _ hlarge)
        · exact hall k hlt' hkL
      · rw [if_neg hlarge]
        have hempty := h.allEmpty_iff hfit hpos hlt (by simpa using hlarge)
        by_cases hcase : allEmpty (32 * g) head = true
        · obtain ⟨head1, on1, hadd, hok1, hkept1, hsizes⟩ :=
            h.recombine hfit hpos hlt (hempty.1 hcase)
          obtain ⟨head', on', hcall, hok, hkept, hmono, hall⟩ :=
            hnext hok1 (by omega) (by omega) (by omega)
          have hset : ∀ k, head.pagesize k = true ∨ k = g → head1.pagesize k = true := by
            intro k hk
            rw [hsizes, setBit]
            by_cases heq : k = g
            · rw [heq, Function.update_self]
            · rw [Function.update_of_ne heq]
              exact hk.resolve_right heq
          refine ⟨head', on', ?_, hok, hkept1.trans hkept, fun k hk => hmono k (hset k (Or.inl hk)),
            fun k hk hkL => ?_⟩
          · rw [if_pos hcase]
            exact Option.bind_eq_some_iff.mpr ⟨head1, hadd, hcall⟩
          · rcases Nat.eq_or_lt_of_le hk with rfl | hlt'
            · exact Or.inl (hmono _ (hset _ (Or.inr rfl)))
            · exact (hall k hlt' hkL).imp_right hkept1.groupUsed_iff.mp
        · rw [if_neg hcase]
          obtain ⟨head', on', hcall, hok, hkept, hmono, hall⟩ :=
            hnext h (by omega) (by omega) (by omega)
          refine ⟨head', on', hcall, hok, hkept, hmono, fun k hk hkL => ?_⟩
          rcases Nat.eq_or_lt_of_le hk with rfl | hlt'
          · exact Or.inr (hempty.2 (by simpa using hcase))
          · exact hall k hlt' hkL
    · refine ⟨head, on, if_neg (mt hbound.mp hlt), h, Kept.refl on head, fun _ hk => hk,
        fun k hk hkL => ?_⟩
      omega

/-- The loop goes over all groups. -/
theorem recombineSmallPages_eq (h : PoolOk poolsize 0 on head) (hfit : PagesFit poolsize) :
    ∃ head' on', recombineSmallPages poolsize head = some head' ∧ PoolOk poolsize 0 on' head' ∧
      Kept on on' head head' ∧
      ∀ g, 0 < g → g < largePages poolsize → head'.pagesize g = true ∨ GroupUsed on g := by
  obtain ⟨hmany, -⟩ := hfit.largePages
  have hfuel : largePages poolsize < poolsize >>> largePageBits poolsize + 1 + 1 :=
    Nat.lt_succ_of_lt (Nat.lt_succ_self _)
  obtain ⟨head', on', hloop, hok, hkept, -, hall⟩ :=
    recombineLoop_eq hfit (g := 1) h (by decide) (by omega) hfuel
  exact ⟨head', on', hloop, hok, hkept, hall⟩

/-- **A large page** is found, unless each group has a page in use. -/
theorem getLargePage_eq (h : PoolOk poolsize 0 on head) (hfit : PagesFit poolsize) :
    ∃ page on' head', getLargePage poolsize head = some (page, head') ∧
      Found poolsize true page on on' head head' ∧
      (page = 0 ↔ ∀ g, 0 < g → g < largePages poolsize → GroupUsed on g) := by
  -- a group with a page in use has no unused large page
  have hused : ∀ {page on1 on2 head1 head2}, page ≠ 0 →
      Found poolsize true page on1 on2 head1 head2 →
      ∃ g, 0 < g ∧ g < largePages poolsize ∧ ¬ GroupUsed on1 g := by
    intro page on1 on2 head1 head2 hne hfound
    obtain ⟨hpage, hlarge, hnone, -⟩ := hfound.page hne
    refine ⟨page / 32, hfound.ok.group_pos hlarge, hpage.group, fun hg => ?_⟩
    obtain ⟨p, f, b, hpg, hp⟩ := hfound.kept.groupUsed_iff.mpr hg
    have hpne : p ≠ page := by
      rintro rfl
      exact absurd (hp.symm.trans hnone) (by simp)
    have hmod := (hfound.ok.page_of hp hpne).large (hpg ▸ hlarge)
    have hmod' := hpage.large hlarge
    omega
  obtain ⟨hmany, -⟩ := hfit.largePages
  unfold getLargePage
  obtain ⟨hnone, hcall⟩ | ⟨x, on', head', -, hx0, hcall, hfound⟩ := h.pop hfit true
  · obtain ⟨head1, on1, hrecombine, hok1, hkept1, hall⟩ := recombineSmallPages_eq h hfit
    simp only [hcall, hrecombine, ne_eq, not_true_eq_false, if_false, bind, Option.bind_some]
    obtain ⟨hnone1, hcall1⟩ | ⟨x, on', head', -, hx0, hcall1, hfound⟩ := hok1.pop hfit true
    · rw [hcall1]
      refine ⟨0, on1, head1, rfl, ⟨hok1, hkept1, fun h0 => absurd rfl h0⟩, ?_⟩
      simp only [true_iff]
      intro g hg hlt
      rcases hall g hg hlt with hlarge | hgroup
      · have hdiv : 32 * g / 32 = g := Nat.mul_div_cancel_left g (by decide)
        have hpage : IsPage poolsize head1.pagesize (32 * g) :=
          isPage_of_group hfit (by omega) (by omega) fun _ => by omega
        rcases hok1.cases hpage (by omega) with hfree | ⟨f, b, hp⟩
        · rw [hdiv, hlarge] at hfree
          exact absurd hfree (hnone1 _)
        · exact ⟨32 * g, f, b, hdiv, hkept1.on_iff.mp hp⟩
      · exact hgroup
    · rw [hcall1]
      obtain ⟨g, hg, hlt, hnot⟩ := hused hx0 hfound
      refine ⟨x, on', head', rfl, ⟨hfound.ok, hkept1.trans hfound.kept, hfound.page⟩, ?_⟩
      refine iff_of_false hx0 fun hgroups => hnot ?_
      exact hkept1.groupUsed_iff.mpr (hgroups g hg hlt)
  · simp only [hcall, ne_eq, hx0, not_false_eq_true, if_true]
    obtain ⟨g, hg, hlt, hnot⟩ := hused hx0 hfound
    exact ⟨x, on', head', rfl, hfound, iff_of_false hx0 fun hgroups => hnot (hgroups g hg hlt)⟩

/-- A large page that was taken off its list is broken up: the small pages behind the first one
are listed. -/
theorem Found.breakUp (h : Found poolsize true p on on' head head') (hfit : PagesFit poolsize)
    (hp0 : p ≠ 0) :
    ∃ on'' head'', breakUpLargePage p head' = some (p, head'') ∧
      Found poolsize false p on on'' head head'' := by
  obtain ⟨hok, hkept, hpage⟩ := h
  obtain ⟨hpage, hlarge, hnone, hprev⟩ := hpage hp0
  have hfew := hfit.largePages.2.1
  have hmod := hpage.large hlarge
  have hgroup := hpage.group
  have hrange : ∀ {q}, Among (p + 1) 31 q ↔ q / 32 = p / 32 ∧ q ≠ p := fun {q} => by
    unfold Among
    omega
  have hshift : p >>> bitsFromSmallToLargePage = p / 32 := Nat.shiftRight_eq_div_pow p 5
  have hinner : ∀ {q}, q / 32 = p / 32 → q ≠ p → on' q = none := fun hq hne =>
    hok.inner hmod hlarge hq hne hne
  have hlisted : Listed on' { head' with pagesize := clearBit head'.pagesize (p / 32) } :=
    hok.listed.congr rfl fun _ => ⟨rfl, rfl⟩
  obtain ⟨head'', hadd, hfreed⟩ := addSmallPages_eq (n := 31) (i := p + 1) hlisted
    (fun q hq => hinner (hrange.mp hq).1 (hrange.mp hq).2) (Nat.succ_pos p) (by omega)
  have hsizes : head''.pagesize = clearBit head'.pagesize (p / 32) := hfreed.pagesize
  have hself : head''.pagesize (p / 32) = false := by
    rw [hsizes]
    exact Function.update_self ..
  have hother : ∀ {k}, k ≠ p / 32 → head''.pagesize k = head'.pagesize k := fun hne => by
    rw [hsizes]
    exact Function.update_of_ne hne _ _
  have hpnot : ¬ Among (p + 1) 31 p := fun hq => (hrange.mp hq).2 rfl
  have hdata : ∀ {q}, q / 32 ≠ p / 32 → head''.data q = head'.data q := fun hq =>
    hfreed.data fun hq' => hq (hrange.mp hq').1
  have helse : ∀ {q}, q / 32 ≠ p / 32 →
      (if Among (p + 1) 31 q then some (.free false) else on' q) = on' q := fun hq =>
    if_neg fun hq' => hq (hrange.mp hq').1
  -- the pages in use are in other groups
  have hused : ∀ {q f b}, on' q = some (.bucket f b) → q ≠ p ∧ q / 32 ≠ p / 32 := by
    intro q f b hq
    have hne : q ≠ p := by
      rintro rfl
      exact absurd (hq.symm.trans hnone) (by simp)
    refine ⟨hne, fun heq => ?_⟩
    exact absurd (hq.symm.trans (hinner heq hne)) (by simp)
  have hbreak : Kept on' (fun q => if Among (p + 1) 31 q then some (.free false) else on' q)
      head' head'' := by
    refine ⟨fun {q f b} => ?_, fun hq => hother (hused hq).2, fun hq => hdata (hused hq).2,
      fun {q c f b} hq hqlarge hne hc => ?_⟩
    · by_cases hq : Among (p + 1) 31 q
      · obtain ⟨hqp, hne⟩ := hrange.mp hq
        simp only [hq, if_true, hinner hqp hne]
        simp
      · rw [if_neg hq]
    · obtain ⟨hqp, hqg⟩ := hused hq
      have hcg : c / 32 ≠ p / 32 := by omega
      have hcp : c ≠ p := by
        rintro rfl
        exact hcg rfl
      exact hfreed.page (fun hc' => hcg (hrange.mp hc').1)
        (hok.inner ((hok.page_of hq hqp).large hqlarge) hqlarge hc hne hcp)
  refine ⟨_, head'', ?_, ⟨⟨hfreed.listed, fun {q l} hq hne => ?_, fun {q} hq hne => ?_, ?_,
    fun {b} hb => ?_, ?_⟩, hkept.trans hbreak, fun _ => ⟨⟨hgroup, fun h1 => ?_, fun _ => ?_⟩,
    hself, ?_, ?_⟩⟩⟩
  · unfold breakUpLargePage
    rw [hshift]
    exact Option.bind_eq_some_iff.mpr ⟨head'', hadd, rfl⟩
  · by_cases hqg : q / 32 = p / 32
    · have hq' := hrange.mpr ⟨hqg, hne⟩
      obtain rfl : PageList.free false = l := by simpa [hq'] using hq
      rw [hqg, hself]
      have hpos := hok.group_pos hlarge
      refine ⟨isPage_of_group hfit (by omega) (by omega) fun h1 => ?_, rfl, hfreed.used hq'⟩
      rw [hqg, hself] at h1
      exact absurd h1 (by simp)
    · rw [helse hqg] at hq
      obtain ⟨hqpage, hqok⟩ := hok.page hq hne
      rw [hother hqg, hdata hqg]
      exact ⟨⟨hqpage.group, fun h1 => hqpage.large ((hother hqg).symm.trans h1),
        fun h0 => hqpage.small ((hother hqg).symm.trans h0)⟩, hqok⟩
  · by_cases hqg : q / 32 = p / 32
    · rw [if_pos (hrange.mpr ⟨hqg, hne⟩)]
      simp
    · rw [helse hqg]
      exact hok.all ⟨hq.group, fun h1 => hq.large ((hother hqg).trans h1),
        fun h0 => hq.small ((hother hqg).trans h0)⟩ hne
  · rw [hother (Nat.ne_of_lt (hok.group_pos hlarge))]
    exact hok.first
  · rw [hfreed.elements]
    exact hok.elements hb
  · rw [hfreed.huge]
    exact hok.huge
  · exact hmod
  · have hpos := hok.group_pos hlarge
    have hfirst := hfit.firstPage.2.1
    omega
  · rw [if_neg hpnot]
    exact hnone
  · rw [hfreed.page hpnot hnone]
    exact hprev

/-- A small page is in use, or is part of a large page that is. -/
def SmallTaken (on : ℕ → Option PageList) (pagesize : ℕ → Bool) (p : ℕ) : Prop :=
  ∃ q f b, on q = some (.bucket f b) ∧ q / 32 = p / 32 ∧ (q = p ∨ pagesize (p / 32) = true)

/-- **A small page** is found, unless all of them are in use. -/
theorem getSmallPage_eq (h : PoolOk poolsize 0 on head) (hfit : PagesFit poolsize) :
    ∃ page on' head', getSmallPage poolsize head = some (page, head') ∧
      Found poolsize false page on on' head head' ∧
      (page = 0 ↔ ∀ p, firstPage poolsize ≤ p → p / 32 < largePages poolsize →
        SmallTaken on head.pagesize p) := by
  unfold getSmallPage
  obtain ⟨hnone, hcall⟩ | ⟨x, on', head', hx, hx0, hcall, hfound⟩ := h.pop hfit false
  · obtain ⟨page, on', head', hlargeCall, hfound, hiff⟩ := getLargePage_eq h hfit
    simp only [hcall, hlargeCall, ne_eq, not_true_eq_false, if_false, bind, Option.bind_some]
    -- no small page is left in a group that was broken up
    have hgroups : page = 0 ↔ ∀ p, firstPage poolsize ≤ p → p / 32 < largePages poolsize →
        SmallTaken on head.pagesize p := by
      rw [hiff]
      constructor
      · intro hall p hp hlt
        by_cases hlarge : head.pagesize (p / 32) = true
        · obtain ⟨q, f, b, hq, hon⟩ := hall _ (h.group_pos hlarge) hlt
          exact ⟨q, f, b, hon, hq, Or.inr hlarge⟩
        · have hpage : IsPage poolsize head.pagesize p :=
            ⟨hlt, fun h1 => absurd h1 hlarge, fun _ => hp⟩
          rcases h.cases hpage (h.ne_zero hfit hpage) with hfree | ⟨f, b, hon⟩
          · rw [Bool.not_eq_true] at hlarge
            rw [hlarge] at hfree
            exact absurd hfree (hnone p)
          · exact ⟨p, f, b, hon, rfl, Or.inl rfl⟩
      · intro hall g hg hlt
        have hfirst := hfit.firstPage.2.1
        have hdiv : 32 * g / 32 = g := Nat.mul_div_cancel_left g (by decide)
        obtain ⟨q, f, b, hon, hq, -⟩ := hall (32 * g) (by omega) (hdiv.symm ▸ hlt)
        exact ⟨q, f, b, hq.trans hdiv, hon⟩
    by_cases hp0 : page = 0
    · subst hp0
      simp only [not_true_eq_false, if_false]
      exact ⟨0, on', head', rfl, ⟨hfound.ok, hfound.kept, fun h0 => absurd rfl h0⟩, hgroups⟩
    · obtain ⟨on'', head'', hbreak, hfound'⟩ := hfound.breakUp hfit hp0
      simp only [hp0, not_false_eq_true, if_true]
      exact ⟨page, on'', head'', hbreak, hfound', hgroups⟩
  · simp only [hcall, ne_eq, hx0, not_false_eq_true, if_true]
    refine ⟨x, on', head', rfl, hfound, iff_of_false hx0 fun hall => ?_⟩
    have hpage := h.page_of hx hx0
    obtain ⟨hsmall, -⟩ := h.free hx hx0
    obtain ⟨q, f, b, hon, -, heq | hlarge⟩ := hall x (hpage.small hsmall) hpage.group
    · rw [heq, hx] at hon
      exact absurd hon (by simp)
    · rw [hsmall] at hlarge
      exact absurd hlarge (by simp)

end Found

end Shalloc.Pages
