import Shalloc.Tiny.Pool

/-!
# The check of a pool

`tiny_alloc_check` gathers the places in the free array, strikes out those that it meets on its
way through the blocks, and looks whether each is in the bucket of its block. It passes every
pool whose blocks and free array are as they should be.

## Main results

- `tinyAllocCheck_eq` — the check passes
-/

namespace Shalloc.Tiny

variable {poolsize fuel i off : ℕ} {arr : Pool} {blocks l : List Block} {freearr : List ℕ}

/-- The places in the free array, no place twice. -/
theorem checkGather_eq (fuel i : ℕ) (freearr : List ℕ) (h : PoolOk poolsize blocks arr)
    (hdvd : 3 ∣ i) (hpos : 0 < fuel) (hfuel : freeArraySize poolsize < i + fuel) :
    ∃ found, checkGather poolsize arr fuel i freearr = some (some (freearr ++ found)) ∧
      found.Nodup ∧
      ∀ o ∈ found, ∃ j, i ≤ j ∧ IsEntry poolsize j ∧ freeEntry arr j = o ∧ o ≠ 0 := by
  induction fuel generalizing i freearr with
  | zero => omega
  | succ fuel ih =>
    rw [checkGather]
    by_cases hi : i + 3 < freeArraySize poolsize
    · have hentry : IsEntry poolsize i := ⟨hdvd, hi⟩
      rw [if_pos hi]
      dsimp only
      by_cases hzero : freeEntry arr i = 0
      · obtain ⟨found, hgather, hnodup, hfound⟩ := ih (i + 3) freearr
          (Nat.dvd_add hdvd (dvd_refl 3)) (by omega) (by omega)
        refine ⟨found, (if_pos hzero).trans hgather, hnodup, fun o ho => ?_⟩
        obtain ⟨j, hj, hrest⟩ := hfound o ho
        exact ⟨j, by omega, hrest⟩
      · obtain ⟨b, hb, -, hoff, -⟩ := h.array.block hentry hzero
        have hwithin := (h.tiles.tiles.within hb).2
        have hbpos := h.tiles.pos hb
        rw [Block.extent_len] at hbpos
        rw [Block.extent_ptr, Block.extent_len] at hwithin
        obtain ⟨found, hgather, hnodup, hfound⟩ := ih (i + 3)
          (freearr ++ [freeEntry arr i]) (Nat.dvd_add hdvd (dvd_refl 3)) (by omega) (by omega)
        rw [if_neg hzero, if_neg (by omega), hgather, List.append_assoc, List.singleton_append]
        refine ⟨_, rfl, List.nodup_cons.mpr ⟨fun hmem => ?_, hnodup⟩, fun o ho => ?_⟩
        · obtain ⟨j, hij, hj, heq, -⟩ := hfound _ hmem
          have := h.array.inj hentry hj heq.symm hzero
          omega
        · rcases List.mem_cons.mp ho with rfl | ho
          · exact ⟨i, le_rfl, hentry, rfl, hzero⟩
          · obtain ⟨j, hj, hrest⟩ := hfound o ho
            exact ⟨j, by omega, hrest⟩
    · rw [if_neg hi]
      exact ⟨[], by rw [List.append_nil], List.nodup_nil, fun o ho => absurd ho (by simp)⟩

/-- All places are struck out on the way through the blocks. -/
theorem checkBlocks_eq (hsmall : poolsize < 2 ^ 24) (hok : ∀ b ∈ l, BlockOk arr b)
    (htiles : Tiles Block.extent off poolsize l) (hfuel : l.length < fuel)
    (hnodup : freearr.Nodup) (hplaces : ∀ o ∈ freearr, ∃ b ∈ l, b.data = none ∧ b.off = o) :
    checkBlocks poolsize arr fuel off freearr = some (some []) := by
  induction l generalizing off freearr fuel with
  | nil =>
    obtain ⟨fuel, rfl⟩ := Nat.exists_eq_add_of_lt hfuel
    have hempty : freearr = [] := List.eq_nil_iff_forall_not_mem.mpr fun o ho => by
      obtain ⟨b, hb, -⟩ := hplaces o ho
      cases hb
    rw [Tiles.tiles_nil] at htiles
    rw [checkBlocks, if_neg (by omega), hempty]
  | cons b l ih =>
    obtain ⟨fuel, rfl⟩ := Nat.exists_eq_add_of_lt hfuel
    obtain ⟨hoff, hl⟩ := htiles
    rw [Block.extent_ptr] at hoff
    rw [Block.extent_len] at hl
    subst hoff
    have hb := hok b List.mem_cons_self
    have hlen2 := hb.two_le
    have hbody := body_lt hlen2
    have hle := hl.le
    unfold minBlockSize at hlen2
    simp only [Block.body] at hbody
    have hcheck := checkDecode_of_holds (k := poolsize - b.off) hb.header (by omega)
    -- a place that is met is that of a free block
    have hmet : ¬ (b.off ∈ freearr ∧ b.free = false) := by
      rintro ⟨hmem, hused⟩
      obtain ⟨x, hx, hdata, hx'⟩ := hplaces _ hmem
      rcases List.mem_cons.mp hx with rfl | hx
      · rw [Block.free, hdata] at hused
        cases hused
      · have := (hl.within hx).1
        rw [Block.extent_ptr] at this
        omega
    rw [checkBlocks, if_pos (by omega), hcheck, if_neg (by decide),
      hb.decode (by omega)]
    simp only [Option.bind_eq_bind, Option.bind_some]
    rw [Word.wrap_of_lt (by omega), if_neg (by omega),
      Word.sub_of_le (by unfold minBlockSize; omega) (by omega), if_neg (not_not.mpr rfl),
      if_neg hmet]
    refine ih (fun x hx => hok x (List.mem_cons_of_mem _ hx)) hl
      (by simp only [List.length_cons]; omega) (hnodup.erase _) fun o ho => ?_
    obtain ⟨hne, ho⟩ := hnodup.mem_erase_iff.mp ho
    obtain ⟨x, hx, hdata, rfl⟩ := hplaces o ho
    rcases List.mem_cons.mp hx with rfl | hx
    · exact absurd rfl hne
    · exact ⟨x, hx, hdata, rfl⟩

/-- An entry is found in its bucket. -/
theorem checkBucket_eq {faOff j : ℕ} (hi : i + 3 < freeArraySize poolsize)
    (heq : i = faOff + j * freeArrayOff maxFreeCachedSize) (hfuel : j < fuel) :
    checkBucket poolsize i fuel faOff = some true := by
  induction j generalizing faOff fuel with
  | zero =>
    obtain ⟨fuel, rfl⟩ := Nat.exists_eq_add_of_lt hfuel
    rw [Nat.zero_mul, Nat.add_zero] at heq
    rw [checkBucket, if_pos (by omega), if_pos heq.symm]
  | succ j ih =>
    obtain ⟨fuel, rfl⟩ := Nat.exists_eq_add_of_lt hfuel
    have hstep : i = faOff + freeArrayOff maxFreeCachedSize +
        j * freeArrayOff maxFreeCachedSize := by
      rw [heq, Nat.succ_mul]
      omega
    rw [freeArrayOff_max] at hstep
    rw [checkBucket, if_pos (by omega), if_neg (by omega)]
    refine ih ?_ (by omega)
    rw [freeArrayOff_max]
    exact hstep

/-- Each block is in its bucket. -/
theorem checkSizes_eq (hsmall : poolsize < 2 ^ 24) (h : PoolOk poolsize blocks arr)
    (hdvd : 3 ∣ i) (hpos : 0 < fuel) (hfuel : freeArraySize poolsize < i + fuel) :
    checkSizes poolsize arr fuel i = some true := by
  induction fuel generalizing i with
  | zero => omega
  | succ fuel ih =>
    rw [checkSizes]
    by_cases hi : i + 3 < freeArraySize poolsize
    · have hnext := ih (i := i + 3) (Nat.dvd_add hdvd (dvd_refl 3)) (by omega) (by omega)
      rw [if_pos hi]
      dsimp only
      by_cases hzero : freeEntry arr i = 0
      · exact (if_pos hzero).trans hnext
      · obtain ⟨b, hb, -, hoff, hlen, j, hj⟩ := h.array.block ⟨hdvd, hi⟩ hzero
        have hbucket : checkBucket poolsize i (freeArraySize poolsize + 1) (freeArrayOff b.len) =
            some true := checkBucket_eq hi hj (by rw [freeArrayOff_max] at hj; omega)
        rw [if_neg hzero, ← hoff, (h.tiles.ok b hb).decode (h.tiles.len_lt hsmall hb)]
        simp only [Option.bind_eq_bind, Option.bind_some]
        rw [if_neg (Nat.not_le_of_lt hlen), hbucket, Option.bind_some, if_pos rfl]
        exact hnext
    · rw [if_neg hi]

/-- **`tiny_alloc_check`** passes. -/
theorem tinyAllocCheck_eq (hsmall : poolsize < 2 ^ 24) (h : PoolOk poolsize blocks arr) :
    tinyAllocCheck poolsize arr = some true := by
  have hlength := h.tiles.length_le
  obtain ⟨found, hgather, hnodup, hfound⟩ :=
    checkGather_eq (freeArraySize poolsize + 1) 0 [] h (dvd_zero 3) (by omega) (by omega)
  have hblocks : checkBlocks poolsize arr (poolsize + 1) (freeArraySize poolsize) found =
      some (some []) := by
    refine checkBlocks_eq hsmall h.tiles.ok h.tiles.tiles (by omega) hnodup fun o ho => ?_
    obtain ⟨j, -, hj, rfl, hne⟩ := hfound o ho
    exact h.array.of_inArray ⟨hne, j, hj, rfl⟩
  have hsizes : checkSizes poolsize arr (freeArraySize poolsize + 1) 0 = some true :=
    checkSizes_eq hsmall h (dvd_zero 3) (by omega) (by omega)
  rw [List.nil_append] at hgather
  rw [tinyAllocCheck, if_neg (Nat.not_lt_of_le h.two_le), hgather]
  simp only [Option.bind_eq_bind, Option.bind_some]
  rw [hblocks, Option.bind_some]
  simp only
  rw [if_neg (not_not.mpr rfl), hsizes]

end Shalloc.Tiny
