import Shalloc.Links
import Shalloc.Pages.Defs

/-!
# The lists of pages

The lists of `alloc.c` are doubly linked lists kept in the headers of pages. Page 0 holds the
header of the pool and is on no list, so that its number ends a list.

## Main definitions

- `Pool.links` — the lists
- `Relinked` — what an operation on a list leaves alone

## Main results

- `addToList_eq`, `delFromList_eq`, `popFromList_eq` — the operations
-/

namespace Shalloc.Pages

variable {p q : ℕ} {l : PageList} {head head' head'' : Pool}

/-- The page that a number leads to. -/
def pageIndex (x : ℕ) : Option ℕ := if x = 0 then none else some x

@[simp] theorem pageIndex_zero : pageIndex 0 = none := rfl

theorem pageIndex_of_ne {x : ℕ} (h : x ≠ 0) : pageIndex x = some x := if_neg h

theorem pageIndex_eq_some {x y : ℕ} : pageIndex x = some y ↔ x = y ∧ y ≠ 0 := by
  unfold pageIndex
  split
  · next h =>
    subst h
    simp [eq_comm]
  · next h =>
    rw [Option.some.injEq]
    exact ⟨fun heq => ⟨heq, heq ▸ h⟩, fun heq => heq.1⟩

theorem pageIndex_eq_none {x : ℕ} : pageIndex x = none ↔ x = 0 := by simp [pageIndex]

/-- The header of a page without its links. -/
structure PageData where
  elementsUsed : ℕ
  bucket : ℕ
  used : ℕ → Bool

namespace Pool

/-- The lists of pages, which are kept in the headers. -/
def links (head : Pool) : Links PageList ℕ where
  head l := pageIndex (head.list l)
  next p := pageIndex (head.page p).next
  prev p := pageIndex (head.page p).prev

/-- What a page keeps apart from its links. -/
def data (head : Pool) (p : ℕ) : PageData :=
  ⟨(head.page p).elementsUsed, (head.page p).bucket, (head.page p).used⟩

theorem list_setList (head : Pool) (l l' : PageList) (x : ℕ) :
    (head.setList l x).list l' = Function.update head.list l x l' := by
  by_cases heq : l' = l
  · subst heq
    rw [Function.update_self]
    match l' with
    | .free false | .free true => rfl
    | .bucket false b | .bucket true b => simp [setList, list]
  · rw [Function.update_of_ne heq]
    match l, l' with
    | .free false, .free false | .free true, .free true => exact absurd rfl heq
    | .free false, .free true | .free true, .free false => rfl
    | .free false, .bucket false b | .free false, .bucket true b => rfl
    | .free true, .bucket false b | .free true, .bucket true b => rfl
    | .bucket false b, .free false | .bucket false b, .free true => rfl
    | .bucket true b, .free false | .bucket true b, .free true => rfl
    | .bucket false b, .bucket true b' | .bucket true b, .bucket false b' =>
      by_cases hb : b' = b
      · subst hb
        simp [setList, list]
      · simp [setList, list, hb]
    | .bucket false b, .bucket false b' | .bucket true b, .bucket true b' =>
      have hb : b' ≠ b := fun h => heq (h ▸ rfl)
      simp [setList, list, hb]

/-- The lists after the head of one was written, -/
theorem links_setList (head : Pool) (l : PageList) (x : ℕ) :
    (head.setList l x).links =
      { head.links with head := Function.update head.links.head l (pageIndex x) } := by
  have hpage : (head.setList l x).page = head.page := by
    match l with
    | .free false | .free true | .bucket false _ | .bucket true _ => rfl
  apply Links.ext
  · funext l'
    show pageIndex ((head.setList l x).list l') = Function.update head.links.head l (pageIndex x) l'
    rw [list_setList]
    by_cases heq : l' = l
    · rw [heq, Function.update_self, Function.update_self]
    · rw [Function.update_of_ne heq, Function.update_of_ne heq]
      rfl
  · funext p
    show pageIndex ((head.setList l x).page p).next = _
    rw [hpage]
    rfl
  · funext p
    show pageIndex ((head.setList l x).page p).prev = _
    rw [hpage]
    rfl

/-- and after the links of a page were. -/
theorem links_setPage (head : Pool) (p : ℕ) (ph : PageHeader) :
    (head.setPage p ph).links =
      { head.links with
        next := Function.update head.links.next p (pageIndex ph.next)
        prev := Function.update head.links.prev p (pageIndex ph.prev) } := by
  have hlist : (head.setPage p ph).list = head.list := by
    funext l
    match l with
    | .free false | .free true | .bucket false _ | .bucket true _ => rfl
  apply Links.ext
  · funext l
    show pageIndex ((head.setPage p ph).list l) = _
    rw [hlist]
    rfl
  all_goals
    funext q
    by_cases heq : q = p
    · simp [links, setPage, heq]
    · simp [links, setPage, heq]

theorem links_setNext (head : Pool) (p x : ℕ) :
    (head.setPage p { head.page p with next := x }).links =
      { head.links with next := Function.update head.links.next p (pageIndex x) } := by
  rw [links_setPage]
  exact Links.ext rfl rfl (Function.update_eq_self p _)

theorem links_setPrev (head : Pool) (p x : ℕ) :
    (head.setPage p { head.page p with prev := x }).links =
      { head.links with prev := Function.update head.links.prev p (pageIndex x) } := by
  rw [links_setPage]
  exact Links.ext rfl (Function.update_eq_self p _) rfl

theorem setPage_page_of_ne (head : Pool) {p q : ℕ} (h : q ≠ p) (ph : PageHeader) :
    (head.setPage p ph).page q = head.page q := Function.update_of_ne h _ _

@[simp] theorem page_setList (head : Pool) (l : PageList) (x : ℕ) :
    (head.setList l x).page = head.page := by
  match l with
  | .free false | .free true | .bucket false _ | .bucket true _ => rfl

end Pool

/-- Nothing but the lists has changed. -/
structure Relinked (head head' : Pool) : Prop where
  pagesize : head'.pagesize = head.pagesize
  huge : head'.huge = head.huge
  elements : ∀ b, (head'.bs b).elementsPerPage = (head.bs b).elementsPerPage
  data : head'.data = head.data
  hugeAlloc : head'.hugeAlloc = head.hugeAlloc

theorem Relinked.refl (head : Pool) : Relinked head head := ⟨rfl, rfl, fun _ => rfl, rfl, rfl⟩

theorem Relinked.trans (h : Relinked head head') (h' : Relinked head' head'') :
    Relinked head head'' :=
  ⟨h'.pagesize.trans h.pagesize, h'.huge.trans h.huge,
    fun b => (h'.elements b).trans (h.elements b), h'.data.trans h.data,
    h'.hugeAlloc.trans h.hugeAlloc⟩

theorem Relinked.setList (head : Pool) (l : PageList) (x : ℕ) :
    Relinked head (head.setList l x) := by
  match l with
  | .free false | .free true => exact ⟨rfl, rfl, fun _ => rfl, rfl, rfl⟩
  | .bucket false b | .bucket true b =>
    refine ⟨rfl, rfl, fun c => ?_, rfl, rfl⟩
    by_cases heq : c = b
    · simp [Pool.setList, heq]
    · simp [Pool.setList, heq]

theorem Relinked.setPage (head : Pool) (p : ℕ) {ph : PageHeader}
    (h : PageData.mk ph.elementsUsed ph.bucket ph.used = head.data p) :
    Relinked head (head.setPage p ph) := by
  refine ⟨rfl, rfl, fun _ => rfl, funext fun q => ?_, rfl⟩
  by_cases heq : q = p
  · subst heq
    simp only [Pool.data, Pool.setPage, Function.update_self] at h ⊢
    exact h
  · simp [Pool.data, Pool.setPage, heq]

theorem Relinked.setNext (head : Pool) (p x : ℕ) :
    Relinked head (head.setPage p { head.page p with next := x }) :=
  Relinked.setPage head p rfl

theorem Relinked.setPrev (head : Pool) (p x : ℕ) :
    Relinked head (head.setPage p { head.page p with prev := x }) :=
  Relinked.setPage head p rfl

/-- `add_to_list` puts a page in front of a list. -/
theorem addToList_eq (hlt : p < 2 ^ 16) (hne : p ≠ 0) (hhead : head.links.head l ≠ some p)
    (hprev : ∀ {x}, head.links.head l = some x → head.links.prev x = none) :
    ∃ head', addToList l p head = some head' ∧ Relinked head head' ∧
      head'.links = head.links.push p l ∧
      ∀ q, q ≠ p → head.links.head l ≠ some q → head'.page q = head.page q := by
  unfold addToList
  rw [Word.wrap_of_lt hlt]
  have hself : pageIndex p = some p := pageIndex_of_ne hne
  by_cases hempty : head.list l = 0
  · have hnone : head.links.head l = none := pageIndex_eq_none.mpr hempty
    simp only [hempty, ne_eq, not_true_eq_false, if_false, bind, Option.bind_some]
    refine ⟨_, rfl, ?_, ?_, fun q hq _ => ?_⟩
    · exact ((Relinked.setNext head p _).trans (Relinked.setList _ l p)).trans
        (Relinked.setPrev _ p 0)
    · rw [Pool.links_setPrev, Pool.links_setList, Pool.links_setNext]
      simp only [Links.push, hnone, Links.setAt_none, hself, pageIndex_zero]
    · rw [Pool.setPage_page_of_ne _ hq, Pool.page_setList, Pool.setPage_page_of_ne _ hq]
  · have hsome : head.links.head l = some (head.list l) := pageIndex_of_ne hempty
    have hother : head.list l ≠ p := fun heq => hhead (heq ▸ hsome)
    have hfirst : (head.page (head.list l)).prev = 0 := pageIndex_eq_none.mp (hprev hsome)
    have hkept : ((head.setPage p { head.page p with next := head.list l }).page
        (head.list l)).prev = 0 := by
      rw [Pool.setPage_page_of_ne _ hother]
      exact hfirst
    simp only [ne_eq, hempty, not_false_eq_true, if_true, if_pos hkept, bind, Option.bind_some]
    refine ⟨_, rfl, ?_, ?_, fun q hq hq' => ?_⟩
    · exact (((Relinked.setNext head p _).trans (Relinked.setPrev _ (head.list l) p)).trans
        (Relinked.setList _ l p)).trans (Relinked.setPrev _ p 0)
    · rw [Pool.links_setPrev, Pool.links_setList, Pool.links_setPrev, Pool.links_setNext]
      simp only [Links.push, hsome, Links.setAt_some, hself, pageIndex_zero]
      rw [Function.update_comm hother.symm, pageIndex_of_ne hempty]
    · have hqh : q ≠ head.list l := fun heq => hq' (heq ▸ hsome)
      rw [Pool.setPage_page_of_ne _ hq, Pool.page_setList, Pool.setPage_page_of_ne _ hqh,
        Pool.setPage_page_of_ne _ hq]

/-- `del_from_list` takes a page off its list. -/
theorem delFromList_eq (l : PageList) (p : ℕ) (head : Pool) :
    Relinked head (delFromList l p head) ∧ (delFromList l p head).links = head.links.remove p l ∧
      ∀ q, head.links.prev p ≠ some q → head.links.next p ≠ some q →
        (delFromList l p head).page q = head.page q := by
  -- the page before, or the head of the list, leads past the page
  obtain ⟨head1, hbefore, hrel1, hlinks1, hpage1⟩ : ∃ head1,
      (if (head.page p).prev = 0 then head.setList l (head.page p).next
        else head.setPage (head.page p).prev
          { head.page (head.page p).prev with next := (head.page p).next }) = head1 ∧
        Relinked head head1 ∧
        head1.links = { head.links.remove p l with prev := head.links.prev } ∧
        ∀ q, head.links.prev p ≠ some q → head1.page q = head.page q := by
    refine ⟨_, rfl, ?_⟩
    by_cases hprev : (head.page p).prev = 0
    · have hnone : head.links.prev p = none := pageIndex_eq_none.mpr hprev
      rw [if_pos hprev]
      refine ⟨Relinked.setList _ _ _, ?_, fun q _ => congrFun (Pool.page_setList _ _ _) q⟩
      rw [Pool.links_setList]
      simp only [Links.remove, hnone, Option.isNone_none, if_true, Links.setAt_none]
      rfl
    · have hsome : head.links.prev p = some (head.page p).prev := pageIndex_of_ne hprev
      rw [if_neg hprev]
      refine ⟨Relinked.setPage _ _ rfl, ?_, fun q hq => Function.update_of_ne ?_ _ _⟩
      · rw [Pool.links_setNext]
        simp only [Links.remove, hsome, Option.isNone_some, Bool.false_eq_true, if_false,
          Links.setAt_some]
        rfl
      · exact fun heq => hq (heq ▸ hsome)
  unfold delFromList
  simp only [hbefore]
  -- and the page after it leads past it the other way
  by_cases hnext : (head.page p).next = 0
  · have hnone : head.links.next p = none := pageIndex_eq_none.mpr hnext
    simp only [hnext, ne_eq, not_true_eq_false, if_false]
    refine ⟨hrel1, ?_, fun q hq _ => hpage1 q hq⟩
    rw [hlinks1]
    simp only [Links.remove, hnone, Links.setAt_none]
  · have hsome : head.links.next p = some (head.page p).next := pageIndex_of_ne hnext
    simp only [ne_eq, hnext, not_false_eq_true, if_true]
    refine ⟨hrel1.trans (Relinked.setPage _ _ rfl), ?_, fun q hq hq' => ?_⟩
    · rw [Pool.links_setPrev, hlinks1]
      simp only [Links.remove, hsome, Links.setAt_some]
      rfl
    · refine (Function.update_of_ne ?_ _ _).trans (hpage1 q hq)
      exact fun heq => hq' (heq ▸ hsome)

/-- `pop_from_list` takes the first page off a list, if there is one. -/
theorem popFromList_eq (hprev : ∀ {x}, head.links.head l = some x → head.links.prev x = none) :
    (head.links.head l = none ∧ popFromList l head = (0, head)) ∨
      ∃ x head', head.links.head l = some x ∧ x ≠ 0 ∧ popFromList l head = (x, head') ∧
        Relinked head head' ∧ head'.links = head.links.remove x l ∧
        ∀ q, head.links.next x ≠ some q → head'.page q = head.page q := by
  by_cases hempty : head.list l = 0
  · refine Or.inl ⟨pageIndex_eq_none.mpr hempty, ?_⟩
    simp [popFromList, hempty]
  · have hsome : head.links.head l = some (head.list l) := pageIndex_of_ne hempty
    have hfirst := hprev hsome
    refine Or.inr ⟨head.list l, (popFromList l head).2, hsome, hempty, ?_⟩
    have hremove : head.links.remove (head.list l) l =
        { head := Function.update head.links.head l (head.links.next (head.list l))
          next := head.links.next
          prev := Links.setAt head.links.prev (head.links.next (head.list l)) none } := by
      simp only [Links.remove, hfirst, Option.isNone_none, if_true, Links.setAt_none]
    rw [hremove]
    simp only [popFromList, ne_eq, hempty, not_false_eq_true, if_true, true_and]
    by_cases hnext : (head.page (head.list l)).next = 0
    · have hnone : head.links.next (head.list l) = none := pageIndex_eq_none.mpr hnext
      simp only [hnext, not_true_eq_false, if_false, hnone, Links.setAt_none]
      refine ⟨Relinked.setList _ _ _, ?_, fun q _ => congrFun (Pool.page_setList _ _ _) q⟩
      rw [Pool.links_setList]
      rfl
    · have hsome' : head.links.next (head.list l) = some (head.page (head.list l)).next :=
        pageIndex_of_ne hnext
      simp only [hnext, not_false_eq_true, if_true, hsome', Links.setAt_some]
      refine ⟨(Relinked.setList _ _ _).trans (Relinked.setPage _ _ rfl), ?_, fun q hq => ?_⟩
      · rw [Pool.links_setPrev, Pool.links_setList, pageIndex_of_ne hnext]
        rfl
      · refine (Function.update_of_ne ?_ _ _).trans (congrFun (Pool.page_setList _ _ _) q)
        exact fun heq => hq (congrArg some heq.symm)

end Shalloc.Pages
