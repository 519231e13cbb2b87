import Shalloc.Pages.Lists
import Shalloc.Pages.Sizes

/-!
# The pages of a pool

Behind the header a pool is divided into pages, which are as large as the bit of their group says.
Each page is on a list: an unused one on the list of its size, and one in use on the list of its
bucket that tells whether it has room. At most one page is on no list, the one that is taken for a
bucket in the middle of a call.

## Main definitions

- `IsPage` — the pages that the pool is divided into
- `PageOk` — a page fits the list that it is on
- `PoolOk` — the form of a pool
- `Kept` — what the search for a page leaves alone

## Main results

- `addSmallPages_eq`, `delSmallPages_eq` — several pages are listed, or taken off
- `allocInit_eq` — a pool that is set up has its form
-/

namespace Shalloc.Pages

variable {poolsize i n p q : ℕ} {l : PageList} {on on' on'' : ℕ → Option PageList}
  {head head' head'' : Pool}

section Listed

/-- The lists have the pages that are on them. -/
structure Listed (on : ℕ → Option PageList) (head : Pool) : Prop where
  ok : head.links.Ok on
  full : head.links.Full on
  zero : on 0 = none

theorem Listed.ne_zero (h : Listed on head) (hp : on p = some l) : p ≠ 0 := by
  rintro rfl
  exact absurd (hp.symm.trans h.zero) (by simp)

/-- A list without a first page has no page. -/
theorem Listed.none_of_head (h : Listed on head) (hnone : head.links.head l = none) :
    ∀ p, on p ≠ some l := by
  intro p hp
  obtain ⟨path, hpath, -, hall⟩ := h.full l
  rw [hnone] at hpath
  have hmem := hall p hp
  cases path with
  | nil => exact absurd hmem List.not_mem_nil
  | cons q path => exact absurd hpath.1 (by simp)

/-- A page that is on no list may be listed. -/
theorem Listed.add (h : Listed on head) (hnone : on p = none) (hlt : p < 2 ^ 16) (hne : p ≠ 0)
    (l : PageList) :
    ∃ head', addToList l p head = some head' ∧ Relinked head head' ∧
      Listed (Function.update on p (some l)) head' ∧
      ∀ q, q ≠ p → on q = none → head'.page q = head.page q := by
  have hhead : head.links.head l ≠ some p := fun heq =>
    absurd (hnone.symm.trans (h.ok.head heq).1) (by simp)
  obtain ⟨head', hcall, hrel, hlinks, hpage⟩ := addToList_eq hlt hne hhead
    fun heq => (h.ok.head heq).2
  refine ⟨head', hcall, hrel, ⟨?_, ?_, ?_⟩, fun q hq hq' => hpage q hq ?_⟩
  · rw [hlinks]
    exact h.ok.push hnone
  · rw [hlinks]
    exact h.full.push h.ok hnone
  · rw [Function.update_of_ne hne.symm]
    exact h.zero
  · exact fun heq => absurd (hq'.symm.trans (h.ok.head heq).1) (by simp)

/-- A page may be taken off its list, which leaves the links of the page itself as they are. -/
theorem Listed.del (h : Listed on head) (hp : on p = some l) :
    Relinked head (delFromList l p head) ∧
      Listed (Function.update on p none) (delFromList l p head) ∧
      ∀ q, on q = none → (delFromList l p head).page q = head.page q := by
  obtain ⟨hrel, hlinks, hpage⟩ := delFromList_eq l p head
  refine ⟨hrel, ⟨?_, ?_, ?_⟩, fun q hq => hpage q ?_ ?_⟩
  · rw [hlinks]
    exact h.ok.remove hp
  · rw [hlinks]
    exact h.full.remove h.ok hp
  · rw [Function.update_of_ne (h.ne_zero hp).symm]
    exact h.zero
  · exact fun heq => absurd (hq.symm.trans (h.ok.prev hp heq).1) (by simp)
  · exact fun heq => absurd (hq.symm.trans (h.ok.next hp heq).1) (by simp)

/-- The first page of a list is taken off, if there is one. -/
theorem Listed.pop (h : Listed on head) (l : PageList) :
    ((∀ p, on p ≠ some l) ∧ popFromList l head = (0, head)) ∨
      ∃ x head', on x = some l ∧ popFromList l head = (x, head') ∧ Relinked head head' ∧
        Listed (Function.update on x none) head' ∧ (head'.page x).prev = 0 ∧
        ∀ q, on q = none → head'.page q = head.page q := by
  obtain ⟨hnone, hcall⟩ | ⟨x, head', hfirst, hne, hcall, hrel, hlinks, hpage⟩ :=
    popFromList_eq (l := l) fun {x} heq => (h.ok.head heq).2
  · exact Or.inl ⟨h.none_of_head hnone, hcall⟩
  · obtain ⟨hx, hprev⟩ := h.ok.head hfirst
    have hself : head.links.next x ≠ some x := fun heq =>
      absurd ((h.ok.next hx heq).2.symm.trans hprev) (by simp)
    refine Or.inr ⟨x, head', hx, hcall, hrel, ⟨?_, ?_, ?_⟩, ?_, fun q hq => hpage q fun heq => ?_⟩
    · rw [hlinks]
      exact h.ok.remove hx
    · rw [hlinks]
      exact h.full.remove h.ok hx
    · rw [Function.update_of_ne hne.symm]
      exact h.zero
    · rw [hpage x hself]
      exact pageIndex_eq_none.mp hprev
    · exact absurd (hq.symm.trans (h.ok.next hx heq).1) (by simp)

/-- The lists are the same after a change of what is not on them. -/
theorem Listed.congr (h : Listed on head) (hlist : head'.list = head.list)
    (hpage : ∀ {q l}, on q = some l →
      (head'.page q).next = (head.page q).next ∧ (head'.page q).prev = (head.page q).prev) :
    Listed on head' := by
  have hhead : head'.links.head = head.links.head := by
    funext l
    exact congrArg pageIndex (congrFun hlist l)
  exact ⟨h.ok.congr hhead fun hq =>
      ⟨congrArg pageIndex (hpage hq).1, congrArg pageIndex (hpage hq).2⟩,
    h.full.congr h.ok hhead fun hq => congrArg pageIndex (hpage hq).1, h.zero⟩

end Listed

section Several

/-- The pages from `i` on to `i + n`. -/
def Among (i n q : ℕ) : Prop := i ≤ q ∧ q < i + n

instance (i n q : ℕ) : Decidable (Among i n q) := inferInstanceAs (Decidable (_ ∧ _))

theorem not_among_zero : ¬ Among i 0 q := fun h => by
  unfold Among at h
  omega

/-- The pages of `dom`, which were on no list, are listed as unused. -/
structure Freed (on : ℕ → Option PageList) (dom : ℕ → Prop) [DecidablePred dom] (large : Bool)
    (head head' : Pool) : Prop where
  listed : Listed (fun q => if dom q then some (.free large) else on q) head'
  pagesize : head'.pagesize = head.pagesize
  huge : head'.huge = head.huge
  elements : ∀ b, (head'.bs b).elementsPerPage = (head.bs b).elementsPerPage
  data : ∀ {q}, ¬ dom q → head'.data q = head.data q
  used : ∀ {q}, dom q → (head'.page q).elementsUsed = 0
  page : ∀ {q}, ¬ dom q → on q = none → head'.page q = head.page q

/-- No page is listed. -/
theorem Freed.refl {dom : ℕ → Prop} [DecidablePred dom] (h : Listed on head) (hnot : ∀ q, ¬ dom q)
    (large : Bool) : Freed on dom large head head where
  listed := by simpa only [hnot, if_false] using h
  pagesize := rfl
  huge := rfl
  elements _ := rfl
  data _ := rfl
  used hq := absurd hq (hnot _)
  page _ _ := rfl

/-- Some pages are listed, and then some others. -/
theorem Freed.trans {dom dom' dom'' : ℕ → Prop} [DecidablePred dom] [DecidablePred dom']
    [DecidablePred dom''] {large : Bool} (h : Freed on dom large head head')
    (h' : Freed (fun q => if dom q then some (.free large) else on q) dom' large head' head'')
    (hdom : ∀ q, dom'' q ↔ dom q ∨ dom' q) : Freed on dom'' large head head'' where
  listed := by
    have hon : (fun q => if dom'' q then some (.free large) else on q) =
        fun q => if dom' q then some (PageList.free large)
          else if dom q then some (.free large) else on q := by
      funext q
      have hq := hdom q
      by_cases hd : dom q
      · by_cases hd' : dom' q <;> simp [hq, hd, hd']
      · by_cases hd' : dom' q <;> simp [hq, hd, hd']
    rw [hon]
    exact h'.listed
  pagesize := h'.pagesize.trans h.pagesize
  huge := h'.huge.trans h.huge
  elements b := (h'.elements b).trans (h.elements b)
  data {q} hq := by
    rw [hdom, not_or] at hq
    exact (h'.data hq.2).trans (h.data hq.1)
  used {q} hq := by
    by_cases hd' : dom' q
    · exact h'.used hd'
    · have hd := ((hdom q).mp hq).resolve_right hd'
      exact (congrArg PageData.elementsUsed (h'.data hd')).trans (h.used hd)
  page {q} hq hnone := by
    rw [hdom, not_or] at hq
    refine (h'.page hq.2 ?_).trans (h.page hq.1 hnone)
    rw [if_neg hq.1]
    exact hnone

/-- An unused page is listed. -/
theorem freePage_eq (h : Listed on head) (hnone : on i = none) (hpos : 0 < i) (hlt : i < 2 ^ 16)
    (large : Bool) :
    ∃ head', freePage large i head = some head' ∧ Freed on (· = i) large head head' := by
  obtain ⟨cleared, hcleared⟩ : ∃ cleared,
      cleared = head.setPage i { head.page i with elementsUsed := 0 } := ⟨_, rfl⟩
  have hother : ∀ {q}, q ≠ i → cleared.page q = head.page q := fun hq => by
    rw [hcleared, Pool.setPage_page_of_ne _ hq]
  have hself : (cleared.page i).elementsUsed = 0 := by
    rw [hcleared]
    simp [Pool.setPage]
  have hlisted : Listed on cleared := h.congr (by rw [hcleared]; rfl) fun {q l} hq => by
    have hne : q ≠ i := fun heq => absurd ((heq ▸ hq).symm.trans hnone) (by simp)
    rw [hother hne]
    exact ⟨rfl, rfl⟩
  obtain ⟨head', hadd, hrel, hlisted', hpage⟩ :=
    hlisted.add hnone hlt (Nat.ne_of_gt hpos) (.free large)
  refine ⟨head', by rw [freePage, ← hcleared, hadd], ?_, ?_, ?_, fun b => ?_, fun {q} hq => ?_,
    fun {q} hq => ?_, fun {q} hq hq' => (hpage q hq hq').trans (hother hq)⟩
  · have hon : Function.update on i (some (.free large)) =
        fun q => if q = i then some (.free large) else on q := by
      funext q
      exact Function.update_apply on i _ q
    rwa [hon] at hlisted'
  · rw [hrel.pagesize, hcleared]
    rfl
  · rw [hrel.huge, hcleared]
    rfl
  · rw [hrel.elements, hcleared]
    rfl
  · rw [hrel.data, Pool.data, hother hq]
    rfl
  · rw [hq]
    exact (congrArg PageData.elementsUsed (congrFun hrel.data i)).trans hself

/-- The pages from `i` on to `i + n` are listed as unused. -/
theorem addSmallPages_eq : ∀ {n i : ℕ} {on : ℕ → Option PageList} {head : Pool}, Listed on head →
    (∀ q, Among i n q → on q = none) → 0 < i → i + n ≤ 2 ^ 16 →
    ∃ head', addSmallPages n i head = some head' ∧ Freed on (Among i n) false head head' := by
  intro n
  induction n with
  | zero =>
    intro i on head h _ _ _
    exact ⟨head, rfl, Freed.refl h (fun _ => not_among_zero) false⟩
  | succ n ih =>
    intro i on head h hnone hpos hlt
    have hi : Among i (n + 1) i := ⟨le_rfl, by omega⟩
    obtain ⟨head1, hadd, hfreed⟩ := freePage_eq h (hnone i hi) hpos (by omega) false
    obtain ⟨head', hrest, hfreed'⟩ := ih hfreed.listed (i := i + 1) (fun q hq => by
      rw [if_neg (Nat.ne_of_gt hq.1)]
      exact hnone q ⟨Nat.le_of_succ_le hq.1, by have := hq.2; omega⟩) (by omega) (by omega)
    refine ⟨head', ?_, hfreed.trans hfreed' fun q => ?_⟩
    · rw [addSmallPages, hadd]
      exact hrest
    · unfold Among
      omega

/-- The large pages from group `g` on. -/
def LargeFrom (poolsize g q : ℕ) : Prop := g ≤ q / 32 ∧ q / 32 < largePages poolsize ∧ q % 32 = 0

instance (poolsize g q : ℕ) : Decidable (LargeFrom poolsize g q) :=
  inferInstanceAs (Decidable (_ ∧ _ ∧ _))

/-- A large page lies in the pool. -/
theorem large_fits_iff (poolsize g : ℕ) :
    (32 * g) <<< smallPageBits poolsize + 1 <<< largePageBits poolsize ≤ poolsize ↔
      g < largePages poolsize := by
  have hsum : (32 * g) <<< smallPageBits poolsize + 1 <<< largePageBits poolsize =
      (g + 1) * 2 ^ largePageBits poolsize := by
    rw [largePageBits_eq, Nat.shiftLeft_eq, Nat.shiftLeft_eq, Nat.pow_add]
    ring
  rw [hsum, largePages, Nat.shiftRight_eq_div_pow, ← Nat.le_div_iff_mul_le (Nat.two_pow_pos _)]
  rfl

/-- The large pages from a group on are listed as unused. -/
theorem addLargePages_eq (hfit : largePages poolsize ≤ 256) :
    ∀ {fuel g : ℕ} {on : ℕ → Option PageList} {head : Pool}, Listed on head →
    (∀ q, LargeFrom poolsize g q → on q = none) → 0 < g → largePages poolsize - g < fuel →
    ∃ head', addLargePages poolsize fuel (32 * g) head = some head' ∧
      Freed on (LargeFrom poolsize g) true head head' := by
  intro fuel
  induction fuel with
  | zero => exact fun _ _ _ hfuel => absurd hfuel (Nat.not_lt_zero _)
  | succ fuel ih =>
    intro g on head h hnone hpos hfuel
    rw [addLargePages]
    by_cases hlt : g < largePages poolsize
    · have hself : LargeFrom poolsize g (32 * g) := by
        unfold LargeFrom
        omega
      have hmax : 32 * g < maxSmallPages := by
        have heq : maxSmallPages = 8192 := rfl
        omega
      obtain ⟨head1, hadd, hfreed⟩ := freePage_eq h (hnone _ hself) (by omega) (by omega) true
      obtain ⟨head', hrest, hfreed'⟩ := ih hfreed.listed (g := g + 1) (fun q hq => by
        have hne : q ≠ 32 * g := by
          have := hq.1
          omega
        rw [if_neg hne]
        exact hnone q ⟨Nat.le_of_succ_le hq.1, hq.2⟩) (by omega) (by omega)
      refine ⟨head', ?_, hfreed.trans hfreed' fun q => ?_⟩
      · rw [if_pos ((large_fits_iff poolsize g).mpr hlt), if_pos hmax, hadd]
        exact hrest
      · unfold LargeFrom
        omega
    · refine ⟨head, if_neg (mt (large_fits_iff poolsize g).mp hlt),
        Freed.refl h (fun q hq => ?_) true⟩
      unfold LargeFrom at hq
      omega

/-- The numbers of pages do not suffice for more large pages. -/
theorem addLargePages_none (hmany : 256 < largePages poolsize) :
    ∀ {fuel g : ℕ} {head : Pool}, g ≤ 256 → addLargePages poolsize fuel (32 * g) head = none := by
  intro fuel
  induction fuel with
  | zero => exact fun _ => rfl
  | succ fuel ih =>
    intro g head hg
    rw [addLargePages, if_pos ((large_fits_iff poolsize g).mpr (by omega))]
    have hmax : maxSmallPages = 8192 := rfl
    by_cases hlt : g < 256
    · rw [if_pos (by omega)]
      cases freePage true (32 * g) head with
      | none => rfl
      | some head => exact ih (show g + 1 ≤ 256 by omega)
    · rw [if_neg (by omega)]

/-- The pages from `i` on to `i + n`, which are unused, are taken off their list. -/
theorem delSmallPages_eq : ∀ {n i : ℕ} {on : ℕ → Option PageList} {head : Pool}, Listed on head →
    (∀ q, Among i n q → on q = some (.free false)) →
    Relinked head (delSmallPages n i head) ∧
      Listed (fun q => if Among i n q then none else on q) (delSmallPages n i head) ∧
      ∀ q, on q = none → (delSmallPages n i head).page q = head.page q := by
  intro n
  induction n with
  | zero =>
    intro i on head h _
    refine ⟨Relinked.refl head, ?_, fun _ _ => rfl⟩
    have hon : (fun q => if Among i 0 q then none else on q) = on :=
      funext fun _ => if_neg not_among_zero
    rwa [hon]
  | succ n ih =>
    intro i on head h hfree
    have hi : Among i (n + 1) i := ⟨le_rfl, by omega⟩
    obtain ⟨hrel, hlisted, hpage⟩ := h.del (hfree i hi)
    obtain ⟨hrel', hlisted', hpage'⟩ := ih hlisted (i := i + 1) fun q hq => by
      have hne : q ≠ i := Nat.ne_of_gt hq.1
      rw [Function.update_of_ne hne]
      exact hfree q ⟨Nat.le_of_succ_le hq.1, by have := hq.2; omega⟩
    refine ⟨hrel.trans hrel', ?_, fun q hq => ?_⟩
    · have hon : (fun q => if Among (i + 1) n q then none else Function.update on i none q) =
          fun q => if Among i (n + 1) q then none else on q := by
        funext q
        by_cases heq : q = i
        · subst heq
          rw [if_pos hi, Function.update_self, ite_self]
        · rw [Function.update_of_ne heq]
          congr 1
          unfold Among
          exact propext (by omega)
      rwa [hon] at hlisted'
    · have hne : q ≠ i := fun heq => absurd ((heq ▸ hq).symm.trans (hfree i hi)) (by simp)
      refine (hpage' q ?_).trans (hpage q hq)
      rw [Function.update_of_ne hne]
      exact hq

end Several

section Form

/-- The pages: a large one is in front of its group, and a small one lies behind the header. -/
structure IsPage (poolsize : ℕ) (pagesize : ℕ → Bool) (p : ℕ) : Prop where
  group : p / 32 < largePages poolsize
  large : pagesize (p / 32) = true → p % 32 = 0
  small : pagesize (p / 32) = false → firstPage poolsize ≤ p

/-- What a page of a bucket keeps: the elements in use are counted, and there is one. -/
structure PageInUse (poolsize : ℕ) (full : Bool) (b : ℕ) (large : Bool) (data : PageData) :
    Prop where
  bucket_lt : b < maxBucket (largePageBits poolsize)
  proper : sizeToBucket (bucketToSize b) = b
  large : large = largePageBucket b (smallPageBits poolsize)
  bucket : data.bucket = b
  count : data.elementsUsed = countBits data.used (elements poolsize b)
  pos : 0 < data.elementsUsed
  full : data.elementsUsed = elements poolsize b ↔ full = true

/-- What a page keeps fits the list that it is on. -/
def PageOk (poolsize : ℕ) (large : Bool) (data : PageData) : PageList → Prop
  | .free l => l = large ∧ data.elementsUsed = 0
  | .bucket full b => PageInUse poolsize full b large data

/-- Each page but one is on the list that it belongs to, and nothing else is. -/
structure PoolOk (poolsize hole : ℕ) (on : ℕ → Option PageList) (head : Pool) : Prop where
  listed : Listed on head
  page : ∀ {p l}, on p = some l → p ≠ hole →
    IsPage poolsize head.pagesize p ∧ PageOk poolsize (head.pagesize (p / 32)) (head.data p) l
  all : ∀ {p}, IsPage poolsize head.pagesize p → p ≠ hole → on p ≠ none
  first : head.pagesize 0 = false
  elements : ∀ {b}, b < maxBucket (largePageBits poolsize) →
    (head.bs b).elementsPerPage = elements poolsize b
  huge : head.huge = 0

/-- The lists of a pool that was set up. -/
def initLists (poolsize q : ℕ) : Option PageList :=
  if LargeFrom poolsize 1 q then some (.free true)
  else if Among (firstPage poolsize) (32 - firstPage poolsize) q then some (.free false)
  else none

theorem initLists_ne_bucket {f : Bool} {b : ℕ} : initLists poolsize q ≠ some (.bucket f b) := by
  unfold initLists
  split
  · simp
  · split <;> simp

/-- **A pool that is set up** has its form, and no page is in use. -/
theorem allocInit_eq (hfit : PagesFit poolsize) (head : Pool) :
    ∃ head', allocInit poolsize head = some head' ∧
      PoolOk poolsize 0 (initLists poolsize) head' := by
  obtain ⟨hfirst, hfirst3, hheader⟩ := hfit.firstPage
  obtain ⟨hmany, hfew, -, -⟩ := hfit.largePages
  have hsize : headerSize (largePageBits poolsize) < 1 <<< largePageBits poolsize := by
    have h3 := mt (hheader 3).mp (by omega)
    have hpos := Nat.two_pow_pos (smallPageBits poolsize)
    rw [Nat.shiftLeft_eq] at h3
    rw [largePageBits_eq, Nat.shiftLeft_eq, Nat.pow_add]
    rw [largePageBits_eq] at h3
    omega
  -- the state before the pages are listed
  obtain ⟨cleared, hcleared, hlist, hpagesize, hhuge, hbs⟩ : ∃ cleared : Pool,
      allocInit poolsize head = (do
        let head ← addSmallPages (32 - firstPage poolsize) (firstPage poolsize) cleared
        addLargePages poolsize (maxLargePages + 1) (32 * 1) head) ∧
      (∀ l, cleared.list l = 0) ∧ (cleared.pagesize = fun g => decide (g ≠ 0)) ∧
      cleared.huge = 0 ∧ ∀ b, b < maxBucket (largePageBits poolsize) →
        (cleared.bs b).elementsPerPage = elements poolsize b := by
    refine ⟨_, by rw [allocInit]; exact if_pos hsize, fun l => ?_, funext fun g => ?_, rfl,
      fun b hb => ?_⟩
    · match l with
      | .free false | .free true => rfl
      | .bucket false b | .bucket true b =>
        simp only [Pool.list]
        split <;> rfl
    · by_cases hg : g = 0
      · simp [clearBit, hg]
      · simp [clearBit, hg]
    · simp only [if_pos hb]
      unfold elements pageBits
      split <;> rfl
  have hempty : Listed (fun _ => none) cleared := by
    have hlinks : cleared.links = ⟨fun _ => none, cleared.links.next, cleared.links.prev⟩ :=
      Links.ext (funext fun l => pageIndex_eq_none.mpr (hlist l)) rfl rfl
    refine ⟨?_, ?_, rfl⟩
    · rw [hlinks]
      exact Links.Ok.empty _ _
    · rw [hlinks]
      exact Links.Full.empty _ _
  obtain ⟨head1, hsmall, hfreed⟩ := addSmallPages_eq (n := 32 - firstPage poolsize)
    (i := firstPage poolsize) hempty (fun _ _ => rfl) hfirst (by omega)
  have hfuel : largePages poolsize - 1 < maxLargePages + 1 :=
    Nat.lt_succ_of_le (Nat.le_trans (Nat.sub_le _ _) hfew)
  obtain ⟨head', hlarge, hfreed'⟩ := addLargePages_eq hfew hfreed.listed
    (fun q hq => if_neg fun hq' => by
      unfold Among at hq'
      unfold LargeFrom at hq
      omega) (by decide) hfuel
  have hpages : head'.pagesize = fun g => decide (g ≠ 0) := by
    rw [hfreed'.pagesize, hfreed.pagesize, hpagesize]
  refine ⟨head', by rw [hcleared, hsmall]; exact hlarge, hfreed'.listed, fun {p l} hp _ => ?_,
    fun {p} hp hne => ?_, by rw [hpages]; rfl, fun {b} hb => ?_, ?_⟩
  · rw [hpages]
    by_cases hl : LargeFrom poolsize 1 p
    · obtain rfl : PageList.free true = l := by simpa [initLists, hl] using hp
      obtain ⟨hg, hlt, hmod⟩ := hl
      have hg0 : decide (p / 32 ≠ 0) = true := decide_eq_true (by omega)
      exact ⟨⟨hlt, fun _ => hmod, fun h0 => absurd (h0.symm.trans hg0) (by simp)⟩, hg0.symm,
        hfreed'.used ⟨hg, hlt, hmod⟩⟩
    · by_cases hs : Among (firstPage poolsize) (32 - firstPage poolsize) p
      · obtain rfl : PageList.free false = l := by simpa [initLists, hl, hs] using hp
        have hg : p / 32 = 0 := by
          have := hs.2
          omega
        have hg0 : decide (p / 32 ≠ 0) = false := decide_eq_false (by omega)
        refine ⟨⟨by omega, fun h1 => absurd (h1.symm.trans hg0) (by simp), fun _ => hs.1⟩,
          hg0.symm, ?_⟩
        exact (congrArg PageData.elementsUsed (hfreed'.data hl)).trans (hfreed.used hs)
      · exact absurd hp (by simp [initLists, hl, hs])
  · rw [hpages] at hp
    unfold initLists
    by_cases hg : p / 32 = 0
    · have hs : Among (firstPage poolsize) (32 - firstPage poolsize) p := by
        refine ⟨hp.small (decide_eq_false (by omega)), by omega⟩
      rw [if_neg fun hl => by have := hl.1; omega, if_pos hs]
      simp
    · have hl : LargeFrom poolsize 1 p :=
        ⟨by omega, hp.group, hp.large (decide_eq_true hg)⟩
      rw [if_pos hl]
      simp
  · rw [hfreed'.elements, hfreed.elements]
    exact hbs b hb
  · rw [hfreed'.huge, hfreed.huge]
    exact hhuge

/-- A pool that has more large pages than there are numbers is not set up. -/
theorem allocInit_none (hmany : maxLargePages < largePages poolsize) (head : Pool) :
    allocInit poolsize head = none := by
  unfold allocInit
  simp only
  split
  · cases addSmallPages _ _ _ with
    | none => rfl
    | some head => exact addLargePages_none hmany (g := 1) (by decide)
  · rfl

end Form

end Shalloc.Pages
