import Mathlib.Tactic.IntervalCases
import Shalloc.Cells
import Shalloc.Tiny.Defs

/-!
# The header of a block

The bytes that `encode` writes, as a list, and what is read from them: `decode` reads the header
from its first byte on, and `to_hdr` finds the first byte from behind, over the zero bytes that
may follow the header. The length in a header counts the header itself, and
`encode_len_with_header` finds the fixed point.

## Main definitions

- `headerBytes` — the bytes of a header
- `headerLen` — the length of the header of a block with room for `len` bytes

## Main results

- `encode_eq`, `decode_of_holds`, `toHdr_of_holds` — writing a header, and reading it
- `encodeLenWithHeader_eq`, `encodeLength_headerLen` — the fixed point
-/

namespace Shalloc.Tiny

open Cells

variable {v w k len len' hdrlen bits acc arr off p fuel : ℕ} {free : Bool} {pool : Pool}

section Length

theorem afls_le_iff : afls v ≤ k ↔ v < 2 ^ k := by
  unfold afls
  split
  · next h => simp [h]
  · next h => exact Nat.log2_lt h

theorem afls_mono (h : v ≤ w) : afls v ≤ afls w :=
  afls_le_iff.mpr (Nat.lt_of_le_of_lt h (afls_le_iff.mp le_rfl))

/-- A shift to the right drops bits. -/
theorem afls_shiftRight : afls (v >>> k) = afls v - k := by
  rw [Nat.shiftRight_eq_div_pow]
  refine Nat.le_antisymm (afls_le_iff.mpr ?_) (Nat.sub_le_iff_le_add.mpr (afls_le_iff.mpr ?_))
  · rw [Nat.div_lt_iff_lt_mul (Nat.two_pow_pos k), ← Nat.pow_add]
    refine Nat.lt_of_lt_of_le (afls_le_iff.mp (le_refl (afls v))) ?_
    exact Nat.pow_le_pow_right (by decide) (by omega)
  · have h := afls_le_iff.mp (le_refl (afls (v / 2 ^ k)))
    rwa [Nat.div_lt_iff_lt_mul (Nat.two_pow_pos k), ← Nat.pow_add] at h

theorem encodeLength_pos : 1 ≤ encodeLength v := by
  unfold encodeLength
  dsimp only
  split <;> omega

theorem encodeLength_mono (h : v ≤ w) : encodeLength v ≤ encodeLength w := by
  have := afls_mono h
  unfold encodeLength
  dsimp only
  split <;> split <;> omega

/-- A word has a header of at most ten bytes. -/
theorem encodeLength_le (h : v < 2 ^ 64) : encodeLength v ≤ 10 := by
  have := afls_le_iff.mpr h
  unfold encodeLength
  dsimp only
  split <;> omega

/-- A block has room for its header and one byte more. -/
theorem encodeLength_le_succ (v : ℕ) : encodeLength v ≤ v + 1 := by
  rcases Nat.lt_or_ge v 32 with h | h
  · have := afls_le_iff.mpr (show v < 2 ^ 5 from h)
    unfold encodeLength
    dsimp only
    rw [if_pos this]
    omega
  · have := afls_le_iff.mpr (Nat.lt_two_pow_self (n := v))
    unfold encodeLength
    dsimp only
    split <;> omega

end Length

section Bytes

/-- The bytes of a header after the first one. -/
def tailBytes (v : ℕ) : List UInt8 :=
  if 64 ≤ v then byte (v &&& 0x7f) :: tailBytes (v >>> 7) else [byte (v ||| termBit)]
termination_by v
decreasing_by
  rw [Nat.shiftRight_eq_div_pow]
  omega

/-- The first byte of a header. -/
def firstByte (len : ℕ) (free : Bool) : ℕ :=
  termBit ||| (if free then freeBit else 0) ||| (len &&& 0x1f)

/-- The bytes of the header of a block of `len` bytes. -/
def headerBytes (len : ℕ) (free : Bool) : List UInt8 :=
  if (len - minBlockSize) >>> 5 = 0 then
    [byte (firstByte (len - minBlockSize) free ||| singleByte)]
  else byte (firstByte (len - minBlockSize) free) :: tailBytes ((len - minBlockSize) >>> 5)

theorem tailBytes_of_le (h : 64 ≤ v) : tailBytes v = byte (v &&& 0x7f) :: tailBytes (v >>> 7) := by
  rw [tailBytes, if_pos h]

theorem tailBytes_of_lt (h : v < 64) : tailBytes v = [byte (v ||| termBit)] := by
  rw [tailBytes, if_neg (Nat.not_le_of_lt h)]

theorem tailBytes_length : (tailBytes v).length = 1 + (afls v) / 7 := by
  induction v using Nat.strongRecOn with
  | ind v ih =>
    rcases Nat.lt_or_ge v 64 with h | h
    · have := afls_le_iff.mpr (show v < 2 ^ 6 from h)
      rw [tailBytes_of_lt h, List.length_singleton]
      omega
    · have h7 : 7 ≤ afls v := Nat.lt_of_not_le fun hle => by
        have := afls_le_iff.mp hle
        omega
      have hlt : v >>> 7 < v := by
        rw [Nat.shiftRight_eq_div_pow]
        omega
      rw [tailBytes_of_le h, List.length_cons, ih _ hlt, afls_shiftRight]
      omega

theorem headerBytes_length (len : ℕ) (free : Bool) :
    (headerBytes len free).length = encodeLength (len - minBlockSize) := by
  have hiff := afls_le_iff (v := len - minBlockSize) (k := 5)
  have hzero : (len - minBlockSize) >>> 5 = 0 ↔ len - minBlockSize < 2 ^ 5 := by
    rw [Nat.shiftRight_eq_div_pow]
    omega
  unfold headerBytes encodeLength
  dsimp only
  by_cases h : (len - minBlockSize) >>> 5 = 0
  · rw [if_pos h, if_pos (hiff.mpr (hzero.mp h)), List.length_singleton]
  · rw [if_neg h, if_neg fun hle => h (hzero.mpr (hiff.mp hle)), List.length_cons,
      tailBytes_length, afls_shiftRight]
    omega

end Bytes

section Encode

theorem encodeLoop_eq (hfuel : (tailBytes v).length ≤ fuel) :
    encodeLoop arr fuel v hdrlen pool =
      some (hdrlen + (tailBytes v).length, put pool (arr + hdrlen) (tailBytes v)) := by
  induction fuel generalizing v hdrlen pool with
  | zero =>
    rw [tailBytes_length] at hfuel
    omega
  | succ fuel ih =>
    rw [encodeLoop, show (1 <<< 6 : ℕ) = 64 from rfl]
    rcases Nat.lt_or_ge v 64 with h | h
    · rw [if_neg (Nat.not_le_of_lt h), tailBytes_of_lt h]
      rfl
    · rw [tailBytes_of_le h, List.length_cons] at hfuel ⊢
      rw [if_pos h, ih (by omega), put_cons]
      exact congrArg some (Prod.ext (by simp only; omega) rfl)

/-- **`encode`** writes the bytes of the header. -/
theorem encode_eq (h2 : minBlockSize ≤ len) (hlen : len < 2 ^ 64) :
    encode len free arr pool =
      some (encodeLength (len - minBlockSize), put pool arr (headerBytes len free)) := by
  have hlength := headerBytes_length len free
  have hle := encodeLength_le (v := len - minBlockSize) (by omega)
  rw [encode, if_neg (Nat.not_lt_of_le h2), ← hlength]
  unfold headerBytes at hlength ⊢
  dsimp only
  by_cases h : (len - minBlockSize) >>> 5 = 0
  · rw [if_pos h, if_pos h]
    rfl
  · rw [if_neg h, List.length_cons] at hlength
    rw [if_neg h, if_neg h, encodeLoop_eq (by omega), List.length_cons, Nat.add_comm 1]
    rfl

end Encode

section Bits

theorem toNat_byte (h : k < 256) : (byte k).toNat = k := by
  rw [byte, UInt8.toNat_ofNat', Nat.mod_eq_of_lt h]

/-- A byte in the middle of a header. -/
theorem middle_bits : ∀ c < 128, c &&& termBit = 0 ∧ c &&& 0x7f = c := by decide +kernel

/-- The last byte of a header of more than one. -/
theorem last_bits : ∀ c < 64, c ||| termBit < 256 ∧ (c ||| termBit) &&& termBit ≠ 0 ∧
    (c ||| termBit) &&& singleByte = 0 ∧ (c ||| termBit) &&& 0x3f = c := by decide +kernel

/-- The first byte of a header of more than one. -/
theorem first_bits : ∀ c < 32, ∀ free : Bool, firstByte c free < 256 ∧
    firstByte c free &&& termBit ≠ 0 ∧ firstByte c free &&& singleByte = 0 ∧
    (firstByte c free &&& freeBit ≠ 0 ↔ free) ∧ firstByte c free &&& 0x1f = c ∧
    firstByte c free ||| freeBit = firstByte c true := by decide +kernel

/-- A header of one byte. -/
theorem single_bits : ∀ c < 32, ∀ free : Bool, firstByte c free ||| singleByte < 256 ∧
    (firstByte c free ||| singleByte) &&& termBit ≠ 0 ∧
    (firstByte c free ||| singleByte) &&& singleByte ≠ 0 ∧
    ((firstByte c free ||| singleByte) &&& freeBit ≠ 0 ↔ free) ∧
    (firstByte c free ||| singleByte) &&& 0x1f = c ∧
    firstByte c free ||| singleByte ||| freeBit = firstByte c true ||| singleByte := by
  decide +kernel

theorem firstByte_mod : firstByte (v % 32) free = firstByte v free := by
  have h (x : ℕ) : x &&& 0x1f = x % 32 := Nat.and_two_pow_sub_one_eq_mod x 5
  rw [firstByte, firstByte, h, h, Nat.mod_mod]

/-- Bits above those of `acc`. -/
theorem or_shiftLeft (hacc : acc < 2 ^ bits) (hv : v * 2 ^ bits < 2 ^ 64) :
    acc ||| Word.wrap 64 (v <<< bits) = acc + v * 2 ^ bits := by
  rw [Nat.shiftLeft_eq, Word.wrap_of_lt hv, Nat.or_comm, Nat.mul_comm,
    ← Nat.two_pow_add_eq_or_of_lt hacc, Nat.add_comm]

end Bits

section Decode

theorem decodeLoop_eq (h : Holds pool (arr + hdrlen) (tailBytes v))
    (hfuel : (tailBytes v).length ≤ fuel) (hacc : acc < 2 ^ bits) (hv : v * 2 ^ bits < 2 ^ 64) :
    decodeLoop pool arr fuel hdrlen bits acc =
      some (hdrlen + (tailBytes v).length, acc + v * 2 ^ bits) := by
  induction fuel generalizing v hdrlen bits acc with
  | zero =>
    rw [tailBytes_length] at hfuel
    omega
  | succ fuel ih =>
    rw [decodeLoop]
    rcases Nat.lt_or_ge v 64 with hlt | hge
    · obtain ⟨h256, hterm, -, hlow⟩ := last_bits v hlt
      rw [tailBytes_of_lt hlt] at h ⊢
      rw [h.1, toNat_byte h256, if_neg hterm, hlow, or_shiftLeft hacc hv]
      rfl
    · have hmod : v &&& 0x7f = v % 128 := Nat.and_two_pow_sub_one_eq_mod v 7
      obtain ⟨hterm, hlow⟩ := middle_bits (v % 128) (Nat.mod_lt v (by decide))
      have hsplit : v % 128 * 2 ^ bits + v >>> 7 * 2 ^ (bits + 7) = v * 2 ^ bits := by
        rw [Nat.shiftRight_eq_div_pow, Nat.pow_add, Nat.mul_comm (2 ^ bits), ← Nat.mul_assoc,
          ← Nat.add_mul, Nat.mod_add_div']
      have hpow : v % 128 * 2 ^ bits + 2 ^ bits ≤ 2 ^ (bits + 7) := by
        rw [← Nat.succ_mul, Nat.pow_add, Nat.mul_comm (2 ^ bits)]
        exact Nat.mul_le_mul_right _ (Nat.mod_lt v (by decide))
      rw [tailBytes_of_le hge] at h hfuel ⊢
      rw [List.length_cons] at hfuel ⊢
      rw [h.1, hmod, toNat_byte (by omega), if_pos hterm, hlow, or_shiftLeft hacc (by omega),
        ih h.2 (by omega) (by omega) (by omega)]
      exact congrArg some (Prod.ext (by simp only; omega) (by simp only; omega))

/-- **`decode`** reads the header back, whatever follows it. -/
theorem decode_of_holds (h : Holds pool arr (headerBytes len free)) (h2 : minBlockSize ≤ len)
    (hlen : len < 2 ^ 64) :
    decode pool arr = some ⟨encodeLength (len - minBlockSize), len, free⟩ := by
  have hlength := headerBytes_length len free
  have hle := encodeLength_le (v := len - minBlockSize) (by omega)
  have hlow : (len - minBlockSize) % 32 < 32 := Nat.mod_lt _ (by decide)
  rw [← hlength]
  rw [← hlength] at hle
  unfold headerBytes at h hle ⊢
  unfold decode
  dsimp only
  by_cases hzero : (len - minBlockSize) >>> 5 = 0
  · obtain ⟨h256, -, hsingle, hfree, hval, -⟩ := single_bits _ hlow free
    rw [firstByte_mod] at h256 hsingle hfree hval
    have hlt : len - minBlockSize < 32 := by
      rw [Nat.shiftRight_eq_div_pow] at hzero
      omega
    rw [if_pos hzero] at h ⊢
    rw [h.1, toNat_byte h256, if_pos hsingle, hval, Nat.mod_eq_of_lt hlt,
      Nat.sub_add_cancel h2, Word.wrap_of_lt hlen]
    simp [hfree]
  · obtain ⟨h256, -, hsingle, hfree, hval, -⟩ := first_bits _ hlow free
    rw [firstByte_mod] at h256 hsingle hfree hval
    have hsplit : (len - minBlockSize) % 32 + (len - minBlockSize) >>> 5 * 2 ^ 5 =
        len - minBlockSize := by
      rw [Nat.shiftRight_eq_div_pow]
      exact Nat.mod_add_div' (len - minBlockSize) 32
    rw [if_neg hzero] at h hle ⊢
    rw [List.length_cons] at hle ⊢
    rw [h.1, toNat_byte h256, if_neg (by simpa using hsingle), hval,
      decodeLoop_eq h.2 (by omega) hlow (by omega), Option.map_some, hsplit,
      Nat.sub_add_cancel h2, Word.wrap_of_lt hlen]
    simp [hfree, Nat.add_comm]

end Decode

section Behind

/-- The last byte of a header is the only one behind the first that has the bit. -/
theorem tail_term (h : Holds pool p (tailBytes v)) : ∃ n, (tailBytes v).length = n + 1 ∧
    (pool (p + n)).toNat &&& termBit ≠ 0 ∧ (pool (p + n)).toNat &&& singleByte = 0 ∧
    ∀ i < n, (pool (p + i)).toNat &&& termBit = 0 := by
  induction v using Nat.strongRecOn generalizing p with
  | ind v ih =>
    rcases Nat.lt_or_ge v 64 with hlt | hge
    · obtain ⟨h256, hterm, hsingle, -⟩ := last_bits v hlt
      rw [tailBytes_of_lt hlt] at h ⊢
      refine ⟨0, rfl, ?_, ?_, fun i hi => absurd hi (Nat.not_lt_zero i)⟩
      · rwa [Nat.add_zero, h.1, toNat_byte h256]
      · rwa [Nat.add_zero, h.1, toNat_byte h256]
    · have hdrop : v >>> 7 < v := by
        rw [Nat.shiftRight_eq_div_pow]
        omega
      have hmod : v &&& 0x7f = v % 128 := Nat.and_two_pow_sub_one_eq_mod v 7
      have hterm := (middle_bits (v % 128) (Nat.mod_lt v (by decide))).1
      rw [tailBytes_of_le hge] at h ⊢
      obtain ⟨n, hn, hlast, hsingle, hmiddle⟩ := ih _ hdrop h.2
      have hshift (i : ℕ) : p + 1 + i = p + (i + 1) := by omega
      rw [hshift] at hlast hsingle
      refine ⟨n + 1, by rw [List.length_cons, hn], hlast, hsingle, fun i hi => ?_⟩
      cases i with
      | zero => rw [Nat.add_zero, h.1, hmod, toNat_byte (by omega), hterm]
      | succ i =>
        rw [← hshift]
        exact hmiddle i (Nat.lt_of_succ_lt_succ hi)

/-- What a header looks like from outside: one byte, or a first and a last one with the bit and
none between them. -/
theorem header_term (h : Holds pool arr (headerBytes len free)) :
    (pool arr).toNat &&& termBit ≠ 0 ∧
      ((encodeLength (len - minBlockSize) = 1 ∧ (pool arr).toNat &&& singleByte ≠ 0) ∨
        ((pool arr).toNat &&& singleByte = 0 ∧
          ∃ last, arr < last ∧ last + 1 = arr + encodeLength (len - minBlockSize) ∧
            (pool last).toNat &&& termBit ≠ 0 ∧ (pool last).toNat &&& singleByte = 0 ∧
            ∀ a, arr < a → a < last → (pool a).toNat &&& termBit = 0)) := by
  have hlength := headerBytes_length len free
  have hlow : (len - minBlockSize) % 32 < 32 := Nat.mod_lt _ (by decide)
  rw [← hlength]
  unfold headerBytes at h ⊢
  by_cases hzero : (len - minBlockSize) >>> 5 = 0
  · obtain ⟨h256, hterm, hsingle, -⟩ := single_bits _ hlow free
    rw [firstByte_mod] at h256 hterm hsingle
    rw [if_pos hzero] at h ⊢
    rw [h.1, toNat_byte h256]
    exact ⟨hterm, Or.inl ⟨rfl, hsingle⟩⟩
  · obtain ⟨h256, hterm, hsingle, -⟩ := first_bits _ hlow free
    rw [firstByte_mod] at h256 hterm hsingle
    rw [if_neg hzero] at h ⊢
    obtain ⟨n, hn, hlast, hlastSingle, hmiddle⟩ := tail_term h.2
    rw [h.1, toNat_byte h256]
    refine ⟨hterm, Or.inr ⟨hsingle, arr + 1 + n, by omega, ?_, hlast, hlastSingle, ?_⟩⟩
    · rw [List.length_cons, hn]
      omega
    · intro a ha1 ha2
      have := hmiddle (a - (arr + 1)) (by omega)
      rwa [show arr + 1 + (a - (arr + 1)) = a by omega] at this

theorem hdrEnd_eq {q : ℕ} (hq : pool q ≠ 0) (hlt : q < p)
    (hzero : ∀ a, q < a → a < p → pool a = 0) : hdrEnd pool p = some q := by
  induction p with
  | zero => exact absurd hlt (Nat.not_lt_zero q)
  | succ p ih =>
    rw [hdrEnd]
    rcases Nat.eq_or_lt_of_le (Nat.le_of_lt_succ hlt) with rfl | hqp
    · exact if_neg hq
    · rw [if_pos (hzero p hqp (Nat.lt_succ_self p))]
      exact ih hqp fun a h1 h2 => hzero a h1 (Nat.lt_succ_of_lt h2)

theorem hdrStart_eq {q : ℕ} (hq : (pool q).toNat &&& termBit ≠ 0) (hlt : q < p)
    (hzero : ∀ a, q < a → a < p → (pool a).toNat &&& termBit = 0) : hdrStart pool p = some q := by
  induction p with
  | zero => exact absurd hlt (Nat.not_lt_zero q)
  | succ p ih =>
    rw [hdrStart]
    rcases Nat.eq_or_lt_of_le (Nat.le_of_lt_succ hlt) with rfl | hqp
    · exact if_neg hq
    · rw [if_pos (hzero p hqp (Nat.lt_succ_self p))]
      exact ih hqp fun a h1 h2 => hzero a h1 (Nat.lt_succ_of_lt h2)

theorem ne_zero_of_term {c : UInt8} (h : c.toNat &&& termBit ≠ 0) : c ≠ 0 := by
  rintro rfl
  exact h (Nat.zero_and _)

/-- **`to_hdr`** finds the header from any place behind it that only zero bytes lead to. -/
theorem toHdr_of_holds (h : Holds pool arr (headerBytes len free))
    (hp : arr + encodeLength (len - minBlockSize) ≤ p)
    (hzero : ∀ a, arr + encodeLength (len - minBlockSize) ≤ a → a < p → pool a = 0) :
    toHdr pool p = some arr := by
  obtain ⟨hterm, ⟨hone, hsingle⟩ | ⟨-, last, hlt, hlast, hterm', hsingle, hmiddle⟩⟩ :=
    header_term h
  · have hend := hdrEnd_eq (ne_zero_of_term hterm) (p := p) (by omega)
      fun a h1 h2 => hzero a (by omega) h2
    simp [toHdr, hend, hterm, hsingle]
  · have hend := hdrEnd_eq (ne_zero_of_term hterm') (p := p) (by omega)
      fun a h1 h2 => hzero a (by omega) h2
    have hstart := hdrStart_eq hterm hlt hmiddle
    simp [toHdr, hend, hterm', hsingle, hstart]

/-- A header in the pool passes the check. -/
theorem checkDecode_of_holds (h : Holds pool arr (headerBytes len free))
    (hp : encodeLength (len - minBlockSize) ≤ k) : checkDecode pool arr k = true := by
  have hloop : ∀ n i j, i ≤ j → j < i + n → (pool (arr + j)).toNat &&& termBit ≠ 0 →
      checkDecodeLoop pool arr n i = true := by
    intro n
    induction n with
    | zero => exact fun i j h1 h2 => absurd h2 (Nat.not_lt_of_le h1)
    | succ n ih =>
      intro i j h1 h2 hj
      rw [checkDecodeLoop]
      split
      · rfl
      · next hi =>
        refine ih (i + 1) j (Nat.lt_of_le_of_ne h1 ?_) (by omega) hj
        rintro rfl
        exact hi hj
  have hpos := encodeLength_pos (v := len - minBlockSize)
  obtain ⟨hterm, ⟨-, hsingle⟩ | ⟨hsingle, last, hlt, hlast, hterm', -, -⟩⟩ := header_term h
  · rw [checkDecode, if_neg (by omega), if_neg hterm, if_pos hsingle]
  · rw [checkDecode, if_neg (by omega), if_neg hterm, if_neg (by simpa using hsingle)]
    refine hloop _ _ (last - arr) (by omega) (by omega) ?_
    rwa [Nat.add_sub_cancel' (Nat.le_of_lt hlt)]

/-- Setting the bit in the first byte makes the header that of a free block. -/
theorem holds_setFree (h : Holds pool arr (headerBytes len false)) :
    Holds (Function.update pool arr (byte ((pool arr).toNat ||| freeBit))) arr
      (headerBytes len true) := by
  have hlow : (len - minBlockSize) % 32 < 32 := Nat.mod_lt _ (by decide)
  unfold headerBytes at h ⊢
  by_cases hzero : (len - minBlockSize) >>> 5 = 0
  · obtain ⟨h256, -, -, -, -, hfree⟩ := single_bits _ hlow false
    rw [firstByte_mod, firstByte_mod] at hfree
    rw [firstByte_mod] at h256
    rw [if_pos hzero] at h ⊢
    rw [h.1, toNat_byte h256, hfree]
    exact ⟨Function.update_self .., trivial⟩
  · obtain ⟨h256, -, -, -, -, hfree⟩ := first_bits _ hlow false
    rw [firstByte_mod, firstByte_mod] at hfree
    rw [firstByte_mod] at h256
    rw [if_neg hzero] at h ⊢
    rw [h.1, toNat_byte h256, hfree]
    exact ⟨Function.update_self .., h.2.congr fun a h1 _ => Function.update_of_ne (by omega) _ _⟩

end Behind

section FixedPoint

/-- The least fixed point above `hdrlen`, reached from below. -/
theorem encodeLenLoop_spec (fuel hdrlen : ℕ) (hlen : len < 2 ^ 63) (hpos : 1 ≤ hdrlen)
    (h10 : hdrlen ≤ 10) (hle : hdrlen ≤ encodeLength (len + hdrlen - minBlockSize))
    (hfuel : 11 ≤ fuel + hdrlen) :
    ∃ r, encodeLenLoop len fuel hdrlen = some r ∧ encodeLength (len + r - minBlockSize) = r ∧
      hdrlen ≤ r ∧ ∀ x, hdrlen ≤ x → encodeLength (len + x - minBlockSize) ≤ x → r ≤ x := by
  induction fuel generalizing hdrlen with
  | zero => omega
  | succ fuel ih =>
    rw [encodeLenLoop, Word.wrap_of_lt (show len + hdrlen - minBlockSize < 2 ^ 64 by omega)]
    by_cases heq : encodeLength (len + hdrlen - minBlockSize) = hdrlen
    · exact ⟨hdrlen, if_neg (not_not.mpr heq), heq, le_rfl, fun x hx _ => hx⟩
    · have hbound := encodeLength_le (v := len + hdrlen - minBlockSize) (by omega)
      obtain ⟨r, hr, hfix, hge, hleast⟩ := ih _ (Nat.le_trans hpos hle) hbound
        (encodeLength_mono (by omega)) (by omega)
      refine ⟨r, (if_pos heq).trans hr, hfix, Nat.le_trans hle hge, fun x hx hpre => ?_⟩
      exact hleast x (Nat.le_trans (encodeLength_mono (by omega)) hpre) hpre

/-- The length of the header of a block with room for `len` bytes. -/
def headerLen (len : ℕ) : ℕ := (encodeLenWithHeader len).getD 0

theorem headerLen_spec (hpos : 0 < len) (hlen : len < 2 ^ 63) :
    encodeLenWithHeader len = some (headerLen len) ∧
      encodeLength (len + headerLen len - minBlockSize) = headerLen len ∧ 1 ≤ headerLen len ∧
      ∀ x, 1 ≤ x → encodeLength (len + x - minBlockSize) ≤ x → headerLen len ≤ x := by
  obtain ⟨r, hr, hspec⟩ := encodeLenLoop_spec 11 1 hlen le_rfl (by decide) encodeLength_pos
    (by decide)
  have heq : encodeLenWithHeader len = some r := by
    rw [encodeLenWithHeader, if_neg (Nat.ne_of_gt hpos), hr]
  have hr' : headerLen len = r := by rw [headerLen, heq, Option.getD_some]
  rw [hr']
  exact ⟨heq, hspec⟩

theorem encodeLenWithHeader_eq (hpos : 0 < len) (hlen : len < 2 ^ 63) :
    encodeLenWithHeader len = some (headerLen len) := (headerLen_spec hpos hlen).1

/-- The header counts itself. -/
theorem encodeLength_headerLen (hpos : 0 < len) (hlen : len < 2 ^ 63) :
    encodeLength (len + headerLen len - minBlockSize) = headerLen len :=
  (headerLen_spec hpos hlen).2.1

theorem headerLen_mono (hpos : 0 < len) (hle : len ≤ len') (hlen : len' < 2 ^ 63) :
    headerLen len ≤ headerLen len' := by
  obtain ⟨-, hfix, hpos', -⟩ := headerLen_spec (Nat.lt_of_lt_of_le hpos hle) hlen
  refine (headerLen_spec hpos (Nat.lt_of_le_of_lt hle hlen)).2.2.2 _ hpos' ?_
  exact Nat.le_trans (encodeLength_mono (by omega)) (Nat.le_of_eq hfix)

theorem headerLen_le (hpos : 0 < len) (hlen : len < 2 ^ 63) : headerLen len ≤ 10 :=
  (headerLen_spec hpos hlen).2.2.2 10 (by decide) (encodeLength_le (by omega))

/-- The header of a block is not longer than that of one with as much room. -/
theorem encodeLength_le_headerLen (hpos : 0 < len) (hlen : len < 2 ^ 63) :
    encodeLength (len - minBlockSize) ≤ headerLen len := by
  rw [← encodeLength_headerLen hpos hlen]
  exact encodeLength_mono (by omega)

end FixedPoint

/-- **A header can be read from both ends.** What `encode` writes at `arr` is read back by
`decode`, whatever the bytes outside it are or become, and `to_hdr` gets back to `arr` from every
place behind it over zero bytes. -/
theorem header_readable (len : ℕ) (free : Bool) (arr : ℕ) (pool : Pool)
    (h2 : minBlockSize ≤ len) (hlen : len < 2 ^ 64) :
    ∃ hdrlen pool', encode len free arr pool = some (hdrlen, pool') ∧
      (∀ a, (a < arr ∨ arr + hdrlen ≤ a) → pool' a = pool a) ∧
      ∀ mem : Pool, (∀ a, arr ≤ a → a < arr + hdrlen → mem a = pool' a) →
        decode mem arr = some ⟨hdrlen, len, free⟩ ∧
        ∀ p, arr + hdrlen ≤ p → (∀ a, arr + hdrlen ≤ a → a < p → mem a = 0) →
          toHdr mem p = some arr := by
  have hlength := headerBytes_length len free
  refine ⟨_, _, encode_eq h2 hlen, fun a ha => put_of_outside (by rwa [hlength]),
    fun mem hmem => ?_⟩
  have hholds : Holds mem arr (headerBytes len free) :=
    holds_put.congr fun a h1 h3 => hmem a h1 (by rwa [hlength] at h3)
  exact ⟨decode_of_holds hholds h2 hlen, fun p hp hzero => toHdr_of_holds hholds hp hzero⟩

/-- The header of a free block of 40 bytes takes two. -/
theorem header_readable_forty : ∃ pool', encode 40 true 7 (fun _ => 0) = some (2, pool') ∧
    decode pool' 7 = some ⟨2, 40, true⟩ ∧ toHdr pool' 9 = some 7 := by
  obtain ⟨hdrlen, pool', hencode, -, hread⟩ :=
    header_readable 40 true 7 (fun _ => 0) (by decide) (by decide)
  obtain ⟨hdecode, hback⟩ := hread pool' fun _ _ _ => rfl
  obtain rfl : hdrlen = 2 := by
    have hfst : (encode 40 true 7 fun _ => 0).map Prod.fst = some 2 := by decide
    rw [hencode] at hfst
    exact Option.some.inj hfst
  exact ⟨pool', hencode, hdecode, hback 9 le_rfl fun a h1 h2 => by omega⟩

end Shalloc.Tiny
