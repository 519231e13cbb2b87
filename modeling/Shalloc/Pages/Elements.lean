import Shalloc.Pages.Take

/-!
# The elements of pages

An element of a bucket is served from the first page of the bucket that has room, and the page is
moved to the list of full pages when all its elements are in use.

## Main definitions

- `InUse` — the elements in use
- `Spared` — the contents of the pages in use are left alone

## Main results

- `bucketPage_eq` — a page with room is found, if there is one
- `bucketGet_eq` — an element is served, if there is one
-/

namespace Shalloc.Pages

variable {poolsize b i j n p q hole : ℕ} {f large v : Bool} {l l' : PageList}
  {bitmap bitmap' : ℕ → Bool} {on on' on'' : ℕ → Option PageList} {head head' head'' : Pool}

section Bits

theorem countBits_succ (bitmap : ℕ → Bool) (n : ℕ) :
    countBits bitmap (n + 1) = countBits bitmap n + if bitmap n then 1 else 0 := by
  unfold countBits
  rw [List.range_succ, List.countP_append, List.countP_singleton]

theorem countBits_le (bitmap : ℕ → Bool) (n : ℕ) : countBits bitmap n ≤ n := by
  have hle := List.countP_le_length (p := bitmap) (l := List.range n)
  rwa [List.length_range] at hle

theorem countBits_congr (h : ∀ j < n, bitmap' j = bitmap j) :
    countBits bitmap' n = countBits bitmap n :=
  List.countP_congr fun j hj => by rw [h j (List.mem_range.mp hj)]

/-- A page without a bit set has no element in use, -/
theorem countBits_eq_zero : countBits bitmap n = 0 ↔ ∀ j < n, bitmap j = false := by
  unfold countBits
  rw [List.countP_eq_zero]
  simp

/-- and one with all of them set is full. -/
theorem countBits_eq_self : countBits bitmap n = n ↔ ∀ j < n, bitmap j = true := by
  have h := List.countP_eq_length (p := bitmap) (l := List.range n)
  rw [List.length_range] at h
  unfold countBits
  rw [h]
  simp

/-- One bit of a bitmap is written. -/
theorem countBits_update (bitmap : ℕ → Bool) (v : Bool) (hi : i < n) :
    countBits (Function.update bitmap i v) n + (if bitmap i then 1 else 0) =
      countBits bitmap n + if v then 1 else 0 := by
  induction n with
  | zero => exact absurd hi (Nat.not_lt_zero _)
  | succ n ih =>
    rw [countBits_succ, countBits_succ]
    rcases Nat.eq_or_lt_of_le (Nat.le_of_lt_succ hi) with rfl | hlt
    · have hsame : countBits (Function.update bitmap i v) i = countBits bitmap i :=
        countBits_congr fun j hj => Function.update_of_ne (Nat.ne_of_lt hj) _ _
      rw [hsame, Function.update_self]
      omega
    · rw [Function.update_of_ne (Nat.ne_of_gt hlt)]
      have := ih hlt
      omega

theorem countBits_setBit (hi : i < n) (hfree : bitmap i = false) :
    countBits (setBit bitmap i) n = countBits bitmap n + 1 := by
  have h := countBits_update bitmap true hi
  rw [hfree] at h
  exact h

theorem countBits_clearBit (hi : i < n) (hused : bitmap i = true) :
    countBits (clearBit bitmap i) n + 1 = countBits bitmap n := by
  have h := countBits_update bitmap false hi
  rw [hused] at h
  exact h

/-- A free bit is found, if there is one. -/
theorem findFreeBit_eq (hj : i ≤ j) (hlt : j < i + n) (hfree : bitmap j = false) :
    ∃ k, findFreeBit bitmap n i = some k ∧ k ≤ j ∧ bitmap k = false := by
  induction n generalizing i with
  | zero => omega
  | succ n ih =>
    rw [findFreeBit]
    by_cases hi : bitmap i = true
    · rw [if_pos hi]
      have hne : i ≠ j := by
        rintro rfl
        exact absurd (hi.symm.trans hfree) (by simp)
      exact ih (by omega) (by omega)
    · rw [if_neg hi]
      exact ⟨i, rfl, hj, by simpa using hi⟩

end Bits

section Move

/-- The form of a pool does not depend on the links. -/
theorem PoolOk.relinked (h : PoolOk poolsize hole on head) (hrel : Relinked head head')
    (hlisted : Listed on head') : PoolOk poolsize hole on head' where
  listed := hlisted
  page hp hne := by
    rw [hrel.pagesize, hrel.data]
    exact h.page hp hne
  all hp hne := by
    rw [hrel.pagesize] at hp
    exact h.all hp hne
  first := by
    rw [hrel.pagesize]
    exact h.first
  elements hb := by
    rw [hrel.elements]
    exact h.elements hb
  huge := by
    rw [hrel.huge]
    exact h.huge

/-- A page may be looked at apart from the others, -/
theorem PoolOk.open (h : PoolOk poolsize 0 on head) (hfit : PagesFit poolsize) (p : ℕ) :
    PoolOk poolsize p on head :=
  ⟨h.listed, fun hq _ => h.page hq (h.listed.ne_zero hq), fun hq _ => h.all hq (h.ne_zero hfit hq),
    h.first, h.elements, h.huge⟩

/-- and joins them again when it fits its list. -/
theorem PoolOk.close (h : PoolOk poolsize p on head) (hp : on p = some l)
    (hpage : IsPage poolsize head.pagesize p)
    (hok : PageOk poolsize (head.pagesize (p / 32)) (head.data p) l) :
    PoolOk poolsize 0 on head where
  listed := h.listed
  page {q l'} hq _ := by
    by_cases heq : q = p
    · subst heq
      obtain rfl := Option.some.inj (hp.symm.trans hq)
      exact ⟨hpage, hok⟩
    · exact h.page hq heq
  all {q} hq _ := by
    by_cases heq : q = p
    · rw [heq, hp]
      simp
    · exact h.all hq heq
  first := h.first
  elements := h.elements
  huge := h.huge

/-- The page is written, apart from its links. -/
theorem PoolOk.setPage (h : PoolOk poolsize p on head) {ph : PageHeader}
    (hnext : ph.next = (head.page p).next) (hprev : ph.prev = (head.page p).prev) :
    PoolOk poolsize p on (head.setPage p ph) := by
  have hlisted : Listed on (head.setPage p ph) := h.listed.congr rfl fun {q l} _ => by
    by_cases heq : q = p
    · simp [Pool.setPage, heq, hnext, hprev]
    · rw [Pool.setPage_page_of_ne _ heq]
      exact ⟨rfl, rfl⟩
  refine ⟨hlisted, fun {q l} hq hne => ?_, fun hq hne => h.all hq hne, h.first, h.elements, h.huge⟩
  rw [Pool.data, Pool.setPage_page_of_ne _ hne]
  exact h.page hq hne

/-- The page is moved to another list. -/
theorem PoolOk.move (h : PoolOk poolsize p on head) (hp : on p = some l) (hlt : p < 2 ^ 16)
    (l' : PageList) :
    ∃ head', addToList l' p (delFromList l p head) = some head' ∧ Relinked head head' ∧
      PoolOk poolsize p (Function.update on p (some l')) head' ∧
      ∀ q, q ≠ p → on q = none → head'.page q = head.page q := by
  obtain ⟨hrel, hlisted, hpage⟩ := h.listed.del hp
  obtain ⟨head', hcall, hrel', hlisted', hpage'⟩ :=
    hlisted.add (Function.update_self ..) hlt (h.listed.ne_zero hp) l'
  rw [Function.update_idem] at hlisted'
  have hmoved := hrel.trans hrel'
  have hother : ∀ {q}, q ≠ p → Function.update on p (some l') q = on q := fun hne =>
    Function.update_of_ne hne _ _
  refine ⟨head', hcall, hmoved, ⟨hlisted', fun {q l} hq hne => ?_, fun {q} hq hne => ?_, ?_,
    fun {b} hb => ?_, ?_⟩, fun q hne hq => ?_⟩
  · rw [hother hne] at hq
    rw [hmoved.pagesize, hmoved.data]
    exact h.page hq hne
  · rw [hother hne]
    rw [hmoved.pagesize] at hq
    exact h.all hq hne
  · rw [hmoved.pagesize]
    exact h.first
  · rw [hmoved.elements]
    exact h.elements hb
  · rw [hmoved.huge]
    exact h.huge
  · refine (hpage' q hne ?_).trans (hpage q hq)
    rw [Function.update_of_ne hne]
    exact hq

end Move

section Use

/-- Element `i` of page `p` is in use, for bucket `b`. -/
def InUse (poolsize : ℕ) (on : ℕ → Option PageList) (head : Pool) (p b i : ℕ) : Prop :=
  (∃ f, on p = some (.bucket f b)) ∧ i < elements poolsize b ∧ (head.page p).used i = true

theorem Kept.inUse_iff (h : Kept on on' head head') :
    InUse poolsize on' head' p b i ↔ InUse poolsize on head p b i := by
  have hon : (∃ f, on' p = some (.bucket f b)) ↔ ∃ f, on p = some (.bucket f b) :=
    exists_congr fun _ => h.on_iff
  unfold InUse
  rw [hon]
  refine and_congr_right fun ⟨f, hp⟩ => ?_
  rw [show (head'.page p).used = (head.page p).used from congrArg PageData.used (h.data hp)]

/-- The pages in use keep what lies behind their headers. -/
structure Spared (poolsize : ℕ) (on : ℕ → Option PageList) (head head' : Pool) : Prop where
  pagesize : ∀ {p f b}, on p = some (.bucket f b) →
    head'.pagesize (p / 32) = head.pagesize (p / 32)
  inner : ∀ {p q f b}, on p = some (.bucket f b) → head.pagesize (p / 32) = true → q ≠ p →
    q / 32 = p / 32 → head'.page q = head.page q
  used : ∀ {p f b j}, on p = some (.bucket f b) → usedSize (elements poolsize b) * 8 ≤ j →
    (head'.page p).used j = (head.page p).used j

theorem Spared.refl (poolsize : ℕ) (on : ℕ → Option PageList) (head : Pool) :
    Spared poolsize on head head := ⟨fun _ => rfl, fun _ _ _ _ => rfl, fun _ _ => rfl⟩

theorem Spared.trans (h : Spared poolsize on head head')
    (hon : ∀ {p f b}, on p = some (.bucket f b) → ∃ f', on' p = some (.bucket f' b))
    (h' : Spared poolsize on' head' head'') : Spared poolsize on head head'' where
  pagesize hp := by
    obtain ⟨f', hp'⟩ := hon hp
    exact (h'.pagesize hp').trans (h.pagesize hp)
  inner hp hlarge hne hq := by
    obtain ⟨f', hp'⟩ := hon hp
    exact (h'.inner hp' ((h.pagesize hp).trans hlarge) hne hq).trans (h.inner hp hlarge hne hq)
  used hp hj := by
    obtain ⟨f', hp'⟩ := hon hp
    exact (h'.used hp' hj).trans (h.used hp hj)

theorem Kept.spared (h : Kept on on' head head') (poolsize : ℕ) :
    Spared poolsize on head head' where
  pagesize := h.pagesize
  inner := h.inner
  used hp _ := congrFun (congrArg PageData.used (h.data hp)) _

/-- A page of which nothing but the links and the bitmap has changed, and other pages of which
nothing but the links has. -/
theorem PoolOk.spared (h : PoolOk poolsize p on head) (hpage : IsPage poolsize head.pagesize p)
    (hsizes : head'.pagesize = head.pagesize) (hdata : ∀ q, q ≠ p → head'.data q = head.data q)
    (hother : ∀ q, q ≠ p → on q = none → head'.page q = head.page q)
    (hself : ∀ {f b j}, on p = some (.bucket f b) → usedSize (Pages.elements poolsize b) * 8 ≤ j →
      (head'.page p).used j = (head.page p).used j) :
    Spared poolsize on head head' where
  pagesize _ := by rw [hsizes]
  inner {c q f b} hc hlarge hne hq := by
    have hmod : c % 32 = 0 := by
      by_cases heq : c = p
      · rw [heq] at hlarge ⊢
        exact hpage.large hlarge
      · exact (h.page_of hc heq).large hlarge
    have hqp : q ≠ p := by
      rintro rfl
      have := hpage.large (hq ▸ hlarge)
      omega
    exact hother q hqp (h.inner hmod hlarge hq hne hqp)
  used {c f b j} hc hj := by
    by_cases heq : c = p
    · rw [heq] at hc ⊢
      exact hself hc hj
    · exact congrFun (congrArg PageData.used (hdata c heq)) j

/-- The first page of its bucket, which has room. -/
structure HasRoom (poolsize b p : ℕ) (on : ℕ → Option PageList) (head : Pool) : Prop where
  ok : PoolOk poolsize p on head
  on : on p = some (.bucket false b)
  page : IsPage poolsize head.pagesize p
  large : head.pagesize (p / 32) = largePageBucket b (smallPageBits poolsize)
  bucket : (head.page p).bucket = b
  count : (head.page p).elementsUsed = countBits (head.page p).used (elements poolsize b)
  room : (head.page p).elementsUsed < elements poolsize b

/-- A page that was found is put on the list of a bucket that has no page with room. -/
theorem Found.enlist (h : Found poolsize (largePageBucket b (smallPageBits poolsize)) p on on' head
    head') (hp0 : p ≠ 0) (hfit : PagesFit poolsize) (hb : b < maxBucket (largePageBits poolsize))
    (hnone : ∀ q, on q ≠ some (.bucket false b)) :
    ∃ head'' on'', (head'.setList (.bucket false b) p).setPage p
        { head'.page p with
          bucket := Word.wrap 7 b
          elementsUsed := 0
          next := 0
          used := fun i =>
            if i < usedSize (elements poolsize b) * 8 then false else (head'.page p).used i } =
        head'' ∧ HasRoom poolsize b p on'' head'' ∧ Spared poolsize on head head'' ∧
      (∀ {q f c}, on q = some (.bucket f c) → on'' q = some (.bucket f c)) ∧
      ∀ q c i, InUse poolsize on'' head'' q c i ↔ InUse poolsize on head q c i := by
  obtain ⟨hpage, hlarge, hpnone, hprev⟩ := h.page hp0
  have hbits : elements poolsize b ≤ usedSize (elements poolsize b) * 8 :=
    le_usedSize (Nat.lt_trans (hfit.elements_lt hb) (by decide))
  have hwrap : Word.wrap 7 b = b :=
    Word.wrap_of_lt (Nat.lt_trans (hfit.bucket_le hb).2 (by decide))
  obtain ⟨head'', hhead''⟩ : ∃ head'', (head'.setList (.bucket false b) p).setPage p
      { head'.page p with
        bucket := Word.wrap 7 b
        elementsUsed := 0
        next := 0
        used := fun i =>
          if i < usedSize (elements poolsize b) * 8 then false else (head'.page p).used i } =
      head'' := ⟨_, rfl⟩
  -- the list of the bucket is still empty
  have hempty : head'.links.head (.bucket false b) = none := by
    cases hhead : head'.links.head (.bucket false b) with
    | none => rfl
    | some x => exact absurd (h.kept.on_iff.mp (h.ok.listed.ok.head hhead).1) (hnone x)
  have hlinks : head''.links = head'.links.push p (.bucket false b) := by
    rw [← hhead'', Pool.links_setPage, Pool.links_setList]
    simp only [Links.push, hempty, Links.setAt_none, pageIndex_of_ne hp0, hprev, pageIndex_zero]
  have hother : ∀ {q}, q ≠ p → head''.page q = head'.page q := fun hne => by
    rw [← hhead'', Pool.setPage_page_of_ne _ hne, Pool.page_setList]
  have hsizes : head''.pagesize = head'.pagesize := by
    rw [← hhead'']
    rfl
  have hself : head''.page p = { head'.page p with
      bucket := b
      elementsUsed := 0
      next := 0
      used := fun i =>
        if i < usedSize (elements poolsize b) * 8 then false else (head'.page p).used i } := by
    rw [← hhead'', Pool.setPage, hwrap]
    exact Function.update_self ..
  have hlisted : Listed (Function.update on' p (some (.bucket false b))) head'' := by
    refine ⟨?_, ?_, ?_⟩
    · rw [hlinks]
      exact h.ok.listed.ok.push hpnone
    · rw [hlinks]
      exact h.ok.listed.full.push h.ok.listed.ok hpnone
    · rw [Function.update_of_ne hp0.symm]
      exact h.ok.listed.zero
  have hon : ∀ {q}, q ≠ p → Function.update on' p (some (.bucket false b)) q = on' q := fun hne =>
    Function.update_of_ne hne _ _
  have hdata : ∀ {q}, q ≠ p → head''.data q = head'.data q := fun hne => by
    rw [Pool.data, hother hne]
    rfl
  have hclear : ∀ {i}, i < elements poolsize b → (head''.page p).used i = false := fun hi => by
    rw [hself]
    exact if_pos (Nat.lt_of_lt_of_le hi hbits)
  have hne : ∀ {q f c}, on' q = some (.bucket f c) → q ≠ p := by
    rintro q f c hq rfl
    exact absurd (hq.symm.trans hpnone) (by simp)
  refine ⟨head'', _, hhead'', ⟨⟨hlisted, fun {q l} hq hqp => ?_, fun {q} hq hqp => ?_, ?_,
    fun {c} hc => ?_, ?_⟩, Function.update_self .., ?_, ?_, ?_, ?_, ?_⟩, ?_,
    fun {q f c} hq => ?_, fun q c i => ?_⟩
  · rw [hon hqp] at hq
    rw [hsizes, hdata hqp]
    exact h.ok.page hq hqp
  · rw [hon hqp]
    rw [hsizes] at hq
    exact h.ok.all hq hqp
  · rw [hsizes]
    exact h.ok.first
  · rw [← h.ok.elements hc, ← hhead'']
    exact (Relinked.setList head' (.bucket false b) p).elements c
  · rw [← h.ok.huge, ← hhead'']
    rfl
  · rw [hsizes]
    exact hpage
  · rw [hsizes]
    exact hlarge
  · rw [hself]
  · rw [countBits_eq_zero.mpr fun j hj => hclear hj, hself]
  · rw [hself]
    exact (hfit.elements_spec hb).1
  · refine (h.kept.spared poolsize).trans (fun hq => ⟨_, h.kept.on_iff.mpr hq⟩)
      (h.ok.spared hpage hsizes (fun q hqp => hdata hqp) (fun q hqp _ => hother hqp) fun hp => ?_)
    exact absurd rfl (hne hp)
  · have hq' := h.kept.on_iff.mpr hq
    rw [hon (hne hq')]
    exact hq'
  · rw [← h.kept.inUse_iff]
    by_cases hqp : q = p
    · subst hqp
      apply iff_of_false
      · rintro ⟨⟨f, hq⟩, hi, hused⟩
        rw [Function.update_self, Option.some.injEq, PageList.bucket.injEq] at hq
        obtain ⟨-, rfl⟩ := hq
        exact absurd (hused.symm.trans (hclear hi)) (by simp)
      · rintro ⟨⟨f, hq⟩, -⟩
        exact hne hq rfl
    · unfold InUse
      rw [hon hqp, hother hqp]

/-- No page with room is left for a bucket, and no page can be taken for it. -/
def NoPage (poolsize b : ℕ) (on : ℕ → Option PageList) (pagesize : ℕ → Bool) : Prop :=
  (∀ q, on q ≠ some (.bucket false b)) ∧
    if largePageBucket b (smallPageBits poolsize) then
      ∀ g, 0 < g → g < largePages poolsize → GroupUsed on g
    else ∀ p, firstPage poolsize ≤ p → p / 32 < largePages poolsize → SmallTaken on pagesize p

/-- A bucket that has no page with room takes another one. -/
theorem bucketPage_of_empty (hempty : (head.bs b).pageList = 0)
    (hget : (if largePageBucket b (smallPageBits poolsize) then getLargePage poolsize head
      else getSmallPage poolsize head) = some (p, head')) :
    bucketPage poolsize b head =
      if p = 0 then some (0, head'.setList (.bucket false b) p)
      else some (p, (head'.setList (.bucket false b) p).setPage p
        { (head'.setList (.bucket false b) p).page p with
          bucket := Word.wrap 7 b
          elementsUsed := 0
          next := 0
          used := fun i =>
            if i < usedSize ((head'.setList (.bucket false b) p).bs b).elementsPerPage * 8 then
              false
            else ((head'.setList (.bucket false b) p).page p).used i }) := by
  unfold bucketPage
  rw [if_pos hempty]
  cases hlarge : largePageBucket b (smallPageBits poolsize) with
  | true =>
    rw [if_pos hlarge] at hget
    simp only [if_true, hget, bind, Option.bind_some]
  | false =>
    rw [if_neg (by simp [hlarge])] at hget
    simp only [Bool.false_eq_true, if_false, hget, bind, Option.bind_some]

/-- **A page with room** is found for a bucket, or there is none. -/
theorem bucketPage_eq (h : PoolOk poolsize 0 on head) (hfit : PagesFit poolsize)
    (hb : b < maxBucket (largePageBits poolsize)) :
    (NoPage poolsize b on head.pagesize ∧ ∃ on' head',
      bucketPage poolsize b head = some (0, head') ∧ PoolOk poolsize 0 on' head' ∧
      Kept on on' head head') ∨
    (¬ NoPage poolsize b on head.pagesize ∧ ∃ p on' head',
      bucketPage poolsize b head = some (p, head') ∧ HasRoom poolsize b p on' head' ∧
      Spared poolsize on head head' ∧
      (∀ {q f c}, on q = some (.bucket f c) → on' q = some (.bucket f c)) ∧
      ∀ q c i, InUse poolsize on' head' q c i ↔ InUse poolsize on head q c i) := by
  by_cases hempty : (head.bs b).pageList = 0
  · have hlist : ∀ q, on q ≠ some (.bucket false b) :=
      h.listed.none_of_head (pageIndex_eq_none.mpr hempty)
    obtain ⟨p, on', head', hget, hfound, hiff⟩ : ∃ p on' head',
        (if largePageBucket b (smallPageBits poolsize) then getLargePage poolsize head
          else getSmallPage poolsize head) = some (p, head') ∧
        Found poolsize (largePageBucket b (smallPageBits poolsize)) p on on' head head' ∧
        (p = 0 ↔ NoPage poolsize b on head.pagesize) := by
      unfold NoPage
      cases hlarge : largePageBucket b (smallPageBits poolsize) with
      | true =>
        obtain ⟨p, on', head', hcall, hfound, hiff⟩ := getLargePage_eq h hfit
        exact ⟨p, on', head', hcall, hfound, hiff.trans (by simp [hlist])⟩
      | false =>
        obtain ⟨p, on', head', hcall, hfound, hiff⟩ := getSmallPage_eq h hfit
        exact ⟨p, on', head', hcall, hfound, hiff.trans (by simp [hlist])⟩
    rw [bucketPage_of_empty hempty hget]
    by_cases hp0 : p = 0
    · subst hp0
      refine Or.inl ⟨hiff.mp rfl, on', head'.setList (.bucket false b) 0, if_pos rfl, ?_, ?_⟩
      · refine hfound.ok.relinked (Relinked.setList _ _ _) (hfound.ok.listed.congr ?_ fun _ => ?_)
        · funext l
          have hzero : head'.list (.bucket false b) = 0 := by
            by_contra hne
            obtain ⟨hx, -⟩ := hfound.ok.listed.ok.head (pageIndex_of_ne hne)
            exact hlist _ (hfound.kept.on_iff.mp hx)
          rw [Pool.list_setList, ← hzero, Function.update_eq_self]
        · rw [Pool.page_setList]
          exact ⟨rfl, rfl⟩
      · refine hfound.kept.trans ⟨Iff.rfl, fun _ => rfl, fun {p f b} _ => ?_,
          fun {p q f b} _ _ _ _ => ?_⟩
        · exact congrFun (Relinked.setList head' _ 0).data p
        · rw [Pool.page_setList]
    · refine Or.inr ⟨mt hiff.mpr hp0, ?_⟩
      obtain ⟨head'', on'', hhead'', hroom, hspared, hmono, hinUse⟩ :=
        hfound.enlist hp0 hfit hb hlist
      refine ⟨p, on'', head'', ?_, hroom, hspared, hmono, hinUse⟩
      rw [if_neg hp0, ← hhead'']
      have helements : ((head'.setList (.bucket false b) p).bs b).elementsPerPage =
          elements poolsize b := by
        rw [(Relinked.setList head' (.bucket false b) p).elements, hfound.ok.elements hb]
      simp only [helements, Pool.page_setList]
  · unfold bucketPage
    rw [if_neg hempty]
    obtain ⟨hx, -⟩ := h.listed.ok.head
      (show head.links.head (.bucket false b) = some (head.bs b).pageList from
        pageIndex_of_ne hempty)
    have hx0 := h.listed.ne_zero hx
    have hpage := h.page_of hx hx0
    have huse := h.inUse hx hx0
    refine Or.inr ⟨fun hno => hno.1 _ hx, _, on, head, rfl, ⟨h.open hfit _, hx, hpage, huse.large,
      huse.bucket, huse.count, ?_⟩, Spared.refl _ _ _, fun hq => hq, fun _ _ _ => Iff.rfl⟩
    have hle : (head.data (head.bs b).pageList).elementsUsed ≤ elements poolsize b := by
      rw [huse.count]
      exact countBits_le _ _
    exact Nat.lt_of_le_of_ne hle fun heq => absurd (huse.full.mp heq) (by simp)

/-- An element of a page with room is taken, and the page is moved if it is full then. -/
theorem HasRoom.take (h : HasRoom poolsize b p on head) (hfit : PagesFit poolsize)
    (hb : b < maxBucket (largePageBits poolsize)) (hproper : sizeToBucket (bucketToSize b) = b)
    (hi : i < elements poolsize b) (hfree : (head.page p).used i = false) (hhead' : head' =
      head.setPage p
        { head.page p with
          used := setBit (head.page p).used i
          elementsUsed := Word.wrap 25 ((head.page p).elementsUsed + 1) }) :
    ∃ head'' on', (if (head'.page p).elementsUsed = elements poolsize b then
        addToList (.bucket true b) p (delFromList (.bucket false b) p head')
      else some head') = some head'' ∧ PoolOk poolsize 0 on' head'' ∧
      Spared poolsize on head head'' ∧
      (head''.page p).bucket = b ∧
      ∀ q c j, InUse poolsize on' head'' q c j ↔
        InUse poolsize on head q c j ∨ (q = p ∧ c = b ∧ j = i) := by
  obtain ⟨hok, hon, hpage, hlarge, hbucket, hcount, hroom⟩ := h
  have hp16 : p < 2 ^ 16 := by
    have hgroup := hpage.group
    have hfew := hfit.largePages.2.1
    omega
  have hbits : elements poolsize b ≤ usedSize (elements poolsize b) * 8 :=
    le_usedSize (Nat.lt_trans (hfit.elements_lt hb) (by decide))
  have hwrap : Word.wrap 25 ((head.page p).elementsUsed + 1) = (head.page p).elementsUsed + 1 :=
    Word.wrap_of_lt (Nat.lt_of_le_of_lt hroom (hfit.elements_lt hb))
  have hself : head'.page p =
      { head.page p with
        used := setBit (head.page p).used i
        elementsUsed := (head.page p).elementsUsed + 1 } := by
    rw [hhead', hwrap]
    exact Function.update_self ..
  have hother : ∀ {q}, q ≠ p → head'.page q = head.page q := fun hne => by
    rw [hhead', Pool.setPage_page_of_ne _ hne]
  have hok' : PoolOk poolsize p on head' := by
    rw [hhead']
    exact hok.setPage rfl rfl
  have hsizes : head'.pagesize = head.pagesize := by
    rw [hhead']
    rfl
  have hcount' : (head'.data p).elementsUsed =
      countBits (head'.data p).used (elements poolsize b) := by
    show (head'.page p).elementsUsed = countBits (head'.page p).used _
    rw [hself, countBits_setBit hi hfree, hcount]
  -- what holds of the pool does not depend on the list that the page is on
  have hdone : ∀ {full head'' on'}, PoolOk poolsize p on' head'' → head''.data = head'.data →
      head''.pagesize = head'.pagesize → on' p = some (.bucket full b) →
      (∀ {q}, q ≠ p → on' q = on q) → (∀ q, q ≠ p → on q = none → head''.page q = head'.page q) →
      ((head'.page p).elementsUsed = elements poolsize b ↔ full = true) →
      PoolOk poolsize 0 on' head'' ∧ Spared poolsize on head head'' ∧ (head''.page p).bucket = b ∧
        ∀ q c j, InUse poolsize on' head'' q c j ↔
          InUse poolsize on head q c j ∨ (q = p ∧ c = b ∧ j = i) := by
    intro full head'' on' hok'' hdata hsizes' hp hq hframe hfull
    have hused : ∀ q, (head''.page q).used = (head'.page q).used := fun q =>
      congrArg PageData.used (congrFun hdata q)
    have hbucket' : (head'.page p).bucket = b := by
      rw [hself]
      exact hbucket
    refine ⟨hok''.close hp ?_ ⟨hb, hproper, ?_, ?_, ?_, ?_, ?_⟩, hok.spared hpage ?_ ?_ ?_ ?_, ?_,
      fun q c j => ?_⟩
    · rw [hsizes', hsizes]
      exact hpage
    · rw [hsizes', hsizes]
      exact hlarge
    · rw [hdata]
      exact hbucket'
    · rw [hdata]
      exact hcount'
    · rw [hdata]
      show 0 < (head'.page p).elementsUsed
      rw [hself]
      exact Nat.succ_pos _
    · rw [hdata]
      exact hfull
    · rw [hsizes', hsizes]
    · intro q hne
      rw [hdata, Pool.data, hother hne]
      rfl
    · intro q hne hnone
      rw [hframe q hne hnone, hother hne]
    · intro f c j hc hj
      obtain ⟨-, rfl⟩ := PageList.bucket.inj (Option.some.inj (hon.symm.trans hc))
      rw [hused, hself]
      exact Function.update_of_ne (by omega) _ _
    · exact (congrArg PageData.bucket (congrFun hdata p)).trans hbucket'
    · unfold InUse
      rw [hused]
      by_cases hqp : q = p
      · subst hqp
        rw [hp, hon, hself]
        simp only [Option.some.injEq, PageList.bucket.injEq, true_and, exists_and_right,
          exists_eq', setBit]
        by_cases hcb : b = c
        · subst hcb
          by_cases hji : j = i
          · subst hji
            simp [hi]
          · simp [hji]
        · simp [hcb, Ne.symm hcb]
      · rw [hq hqp, hother hqp]
        simp [hqp]
  by_cases hfull : (head'.page p).elementsUsed = elements poolsize b
  · rw [if_pos hfull]
    obtain ⟨head'', hcall, hrel, hok'', hframe⟩ := hok'.move hon hp16 (.bucket true b)
    exact ⟨head'', _, hcall, hdone hok'' hrel.data hrel.pagesize (Function.update_self ..)
      (fun hne => Function.update_of_ne hne _ _) hframe (iff_of_true hfull rfl)⟩
  · rw [if_neg hfull]
    exact ⟨head', on, rfl, hdone hok' rfl rfl hon (fun _ => rfl) (fun _ _ _ => rfl)
      (iff_of_false hfull (by simp))⟩

/-- The rest of a call that has found a page. -/
theorem bucketGet_of_page (hpage : bucketPage poolsize b head = some (p, head')) (hp0 : p ≠ 0)
    (hfind : findFreeBit (head'.page p).used (usedSize (head'.bs b).elementsPerPage * 8) 0 = some i)
    (htake : (if ((head'.setPage p
          { head'.page p with
            used := setBit (head'.page p).used i
            elementsUsed := Word.wrap 25 ((head'.page p).elementsUsed + 1) }).page p).elementsUsed =
          (head'.bs b).elementsPerPage then
        addToList (.bucket true b) p (delFromList (.bucket false b) p (head'.setPage p
          { head'.page p with
            used := setBit (head'.page p).used i
            elementsUsed := Word.wrap 25 ((head'.page p).elementsUsed + 1) }))
      else some (head'.setPage p
        { head'.page p with
          used := setBit (head'.page p).used i
          elementsUsed := Word.wrap 25 ((head'.page p).elementsUsed + 1) })) = some head'') :
    bucketGet poolsize b head = some (some ((p <<< smallPageBits poolsize) +
      pageHeaderSize ((head''.page p).bucket / interBucketSpace) (head'.bs b).elementsPerPage +
        i * bucketToSize b), head'') := by
  unfold bucketGet
  simp only [hpage, hp0, hfind, if_false, bind, Option.bind_some]
  split at htake
  · next hfull => rw [if_pos hfull, htake, Option.bind_some]
  · next hfull =>
    rw [if_neg hfull]
    obtain rfl := Option.some.inj htake
    rfl

/-- The place of element `i` of page `p`. -/
def placeAt (poolsize p b i : ℕ) : ℕ :=
  (p <<< smallPageBits poolsize) + elementsAt poolsize b + i * bucketToSize b

/-- **An element of a bucket** is served, or there is none left. -/
theorem bucketGet_eq (h : PoolOk poolsize 0 on head) (hfit : PagesFit poolsize)
    (hb : b < maxBucket (largePageBits poolsize)) (hproper : sizeToBucket (bucketToSize b) = b) :
    (NoPage poolsize b on head.pagesize ∧ ∃ on' head',
      bucketGet poolsize b head = some (none, head') ∧ PoolOk poolsize 0 on' head' ∧
      Kept on on' head head') ∨
    (¬ NoPage poolsize b on head.pagesize ∧ ∃ p i on' head',
      bucketGet poolsize b head = some (some (placeAt poolsize p b i), head') ∧
      PoolOk poolsize 0 on' head' ∧ Spared poolsize on head head' ∧ ¬ InUse poolsize on head p b i ∧
      ∀ q c j, InUse poolsize on' head' q c j ↔
        InUse poolsize on head q c j ∨ (q = p ∧ c = b ∧ j = i)) := by
  obtain ⟨hno, on', head', hpage, hok, hkept⟩ | ⟨hsome, p, on', head', hpage, hroom, hspared, hmono,
    hinUse⟩ := bucketPage_eq h hfit hb
  · refine Or.inl ⟨hno, on', head', ?_, hok, hkept⟩
    unfold bucketGet
    rw [hpage]
    rfl
  · have helements := hroom.ok.elements hb
    have hbits : elements poolsize b ≤ usedSize (elements poolsize b) * 8 :=
      le_usedSize (Nat.lt_trans (hfit.elements_lt hb) (by decide))
    -- since not all elements are in use, a free one is found
    obtain ⟨j, hj, hjfree⟩ : ∃ j < elements poolsize b, (head'.page p).used j = false := by
      by_contra hno
      push Not at hno
      have hall := countBits_eq_self.mpr fun j hj => by simpa using hno j hj
      exact absurd (hroom.count.trans hall) (Nat.ne_of_lt hroom.room)
    have hinside : j < 0 + usedSize (elements poolsize b) * 8 := by omega
    obtain ⟨i, hfind, hij, hfree⟩ := findFreeBit_eq (Nat.zero_le j) hinside hjfree
    have hi : i < elements poolsize b := Nat.lt_of_le_of_lt hij hj
    obtain ⟨head'', on'', htake, hok'', hspared', hbucket, hinUse'⟩ :=
      hroom.take hfit hb hproper hi hfree rfl
    refine Or.inr ⟨hsome, p, i, on'', head'', ?_, hok'', ?_, fun hused => ?_, fun q c j => ?_⟩
    · have hcall := bucketGet_of_page hpage (hroom.ok.ne_zero hfit hroom.page)
        (by rw [helements]; exact hfind) (by rw [helements]; exact htake)
      rw [hbucket, helements] at hcall
      exact hcall
    · exact hspared.trans (fun hq => ⟨_, hmono hq⟩) hspared'
    · exact absurd (((hinUse p b i).mpr hused).2.2.symm.trans hfree) (by simp)
    · rw [hinUse', hinUse]

end Use

end Shalloc.Pages
