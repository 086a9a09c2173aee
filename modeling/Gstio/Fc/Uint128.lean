import Gstio.Lib.MachineInt

/-!
# fc: `uint128` (`uint128.hpp`, `uint128.cpp`)

`fc::uint128` holds a number below `2^128` in two words, `hi` and `lo`. Its shifts `<<=` and `>>=` clear both words
for a shift of `128` or more, move one word into the other for a shift of `64` or more, and shift the two words
by what is left, carrying the bits that cross from one word to the other through a mask.

* `Uint128.shiftLeft_toNat`: `<<=` by `n` is `x * 2^n` modulo `2^128`;
* `Uint128.shiftRight_toNat`: `>>=` by `n` is `x / 2^n`.
-/

namespace Gstio.Fc

/-- `fc::uint128`. -/
structure Uint128 where
  hi : UInt64
  lo : UInt64
  deriving DecidableEq, Repr

namespace Uint128

/-- `explicit operator unsigned __int128()`: `hi << 64 | lo`. -/
def toNat (x : Uint128) : Nat := (x.hi.toNat <<< 64) ||| x.lo.toNat

/-- The two words as one bit vector. -/
def toBitVec (x : Uint128) : BitVec 128 := x.hi.toBitVec ++ x.lo.toBitVec

/-- The shift by `0 < n < 64` of `operator<<=`: `hi <<= n; mask = ~(uint64_t(-1) >> n);
hi |= (lo & mask) >> (64 - n); lo <<= n`, skipped for `n = 0`. -/
def shiftLeftWords (hi lo : UInt64) (n : Nat) : Uint128 :=
  if n ≠ 0 then
    let mask : UInt64 := ~~~((-1 : UInt64) >>> n.toUInt64)
    ⟨(hi <<< n.toUInt64) ||| ((lo &&& mask) >>> (64 - n).toUInt64), lo <<< n.toUInt64⟩
  else ⟨hi, lo⟩

/-- `uint128::operator<<=`, by a shift whose value is `rhs`. -/
def shiftLeft (x : Uint128) (rhs : Nat) : Uint128 :=
  if rhs ≥ 128 then ⟨0, 0⟩
  else if rhs ≥ 64 then shiftLeftWords x.lo 0 (rhs - 64)
  else shiftLeftWords x.hi x.lo rhs

/-- The shift by `0 < n < 64` of `operator>>=`: `lo >>= n; mask = ~(uint64_t(-1) << n);
lo |= (hi & mask) << (64 - n); hi >>= n`, skipped for `n = 0`. -/
def shiftRightWords (hi lo : UInt64) (n : Nat) : Uint128 :=
  if n ≠ 0 then
    let mask : UInt64 := ~~~((-1 : UInt64) <<< n.toUInt64)
    ⟨hi >>> n.toUInt64, (lo >>> n.toUInt64) ||| ((hi &&& mask) <<< (64 - n).toUInt64)⟩
  else ⟨hi, lo⟩

/-- `uint128::operator>>=`, by a shift whose value is `rhs`. -/
def shiftRight (x : Uint128) (rhs : Nat) : Uint128 :=
  if rhs ≥ 128 then ⟨0, 0⟩
  else if rhs ≥ 64 then shiftRightWords 0 x.hi (rhs - 64)
  else shiftRightWords x.hi x.lo rhs

theorem toNat_eq (x : Uint128) : x.toNat = x.hi.toNat * 2 ^ 64 + x.lo.toNat := by
  rw [toNat, ← Nat.shiftLeft_add_eq_or_of_lt x.lo.toNat_lt, Nat.shiftLeft_eq]

theorem toNat_toBitVec (x : Uint128) : x.toBitVec.toNat = x.toNat := by
  rw [toBitVec, BitVec.toNat_append_eq, toNat_eq, UInt64.toNat_toBitVec, UInt64.toNat_toBitVec]

/-- A shift amount below `64`, as the shifts of `UInt64` read it. -/
theorem toNat_toBitVec_mod {n : Nat} (h : n < 64) : (n.toUInt64.toBitVec % 64).toNat = n := by
  rw [BitVec.toNat_umod, UInt64.toNat_toBitVec]
  simp
  omega

theorem neg_one_toBitVec : -(1 : UInt64).toBitVec = BitVec.allOnes 64 := by decide

theorem shiftLeftWords_toBitVec (hi lo : UInt64) {n : Nat} (hn : n < 64) :
    (shiftLeftWords hi lo n).toBitVec = (hi.toBitVec ++ lo.toBitVec) <<< n := by
  unfold shiftLeftWords
  split
  · rename_i hn0
    simp only [toBitVec, UInt64.toBitVec_or, UInt64.toBitVec_shiftLeft, UInt64.toBitVec_shiftRight,
      UInt64.toBitVec_and, UInt64.toBitVec_not, UInt64.toBitVec_neg, BitVec.shiftLeft_eq', BitVec.ushiftRight_eq',
      toNat_toBitVec_mod hn, toNat_toBitVec_mod (n := 64 - n) (by omega)]
    ext i hi
    simp only [BitVec.getElem_append, BitVec.getElem_or, BitVec.getElem_shiftLeft, BitVec.getElem_ushiftRight,
      BitVec.getLsbD_and, BitVec.getLsbD_not, BitVec.getLsbD_ushiftRight, neg_one_toBitVec,
      BitVec.getLsbD_allOnes]
    -- bit `i` of the low word comes from bit `i - n` of `lo`; of the high word, from `hi` or from the top of `lo`
    by_cases h64 : i < 64
    · rw [dif_pos h64, dif_pos (by omega)]
    · rw [dif_neg h64]
      by_cases hcarry : i - 64 < n
      · rw [dif_pos (by omega), BitVec.getLsbD_eq_getElem (by omega)]
        simp [hcarry, show ¬ i < n by omega, show 64 - n + (i - 64) = i - n by omega, show i - n < 64 by omega,
          show 64 ≤ n + (i - n) by omega]
      · rw [dif_neg (by omega)]
        simp [hcarry, show ¬ i < n by omega, show ¬ 64 - n + (i - 64) < 64 by omega,
          show i - 64 - n = i - n - 64 by omega]
  · rename_i hn0
    simp [toBitVec, show n = 0 by omega]

theorem shiftLeft_toBitVec (x : Uint128) (rhs : Nat) : (x.shiftLeft rhs).toBitVec = x.toBitVec <<< rhs := by
  unfold shiftLeft
  by_cases h128 : rhs ≥ 128
  · rw [if_pos h128, BitVec.shiftLeft_eq_zero h128]
    rfl
  · rw [if_neg h128]
    by_cases h64 : rhs ≥ 64
    · rw [if_pos h64, shiftLeftWords_toBitVec _ _ (by omega), toBitVec, BitVec.append_shiftLeft_of_le _ _ h64]
      rfl
    · rw [if_neg h64, shiftLeftWords_toBitVec _ _ (by omega)]
      rfl

/-- **`<<=` is the shift of the number**, modulo `2^128`. -/
theorem shiftLeft_toNat (x : Uint128) (rhs : Nat) : (x.shiftLeft rhs).toNat = x.toNat * 2 ^ rhs % 2 ^ 128 := by
  rw [← toNat_toBitVec, shiftLeft_toBitVec, BitVec.toNat_shiftLeft, toNat_toBitVec, Nat.shiftLeft_eq]

theorem shiftRightWords_toBitVec (hi lo : UInt64) {n : Nat} (hn : n < 64) :
    (shiftRightWords hi lo n).toBitVec = (hi.toBitVec ++ lo.toBitVec) >>> n := by
  unfold shiftRightWords
  split
  · rename_i hn0
    simp only [toBitVec, UInt64.toBitVec_or, UInt64.toBitVec_shiftLeft, UInt64.toBitVec_shiftRight,
      UInt64.toBitVec_and, UInt64.toBitVec_not, UInt64.toBitVec_neg, BitVec.shiftLeft_eq', BitVec.ushiftRight_eq',
      toNat_toBitVec_mod hn, toNat_toBitVec_mod (n := 64 - n) (by omega)]
    ext i hi
    simp only [BitVec.getElem_append, BitVec.getElem_or, BitVec.getElem_shiftLeft, BitVec.getElem_ushiftRight,
      BitVec.getElem_and, BitVec.getElem_not, neg_one_toBitVec, BitVec.getElem_allOnes, BitVec.getLsbD_append]
    -- bit `i` of the high word comes from bit `i + n` of `hi`; of the low word, from `lo` or from the bottom of `hi`
    by_cases h64 : i < 64
    · rw [dif_pos h64]
      by_cases hlow : n + i < 64
      · simp [hlow, show i < 64 - n by omega]
      · rw [if_neg hlow, BitVec.getLsbD_of_ge lo.toBitVec (n + i) (by omega),
          BitVec.getLsbD_eq_getElem (by omega)]
        simp [show ¬ i < 64 - n by omega, show i - (64 - n) = n + i - 64 by omega, show n + i - 64 < n by omega]
    · rw [dif_neg h64, if_neg (by omega), show n + (i - 64) = n + i - 64 by omega]
  · rename_i hn0
    simp [toBitVec, show n = 0 by omega]

theorem shiftRight_toBitVec (x : Uint128) (rhs : Nat) : (x.shiftRight rhs).toBitVec = x.toBitVec >>> rhs := by
  unfold shiftRight
  by_cases h128 : rhs ≥ 128
  · rw [if_pos h128, BitVec.ushiftRight_eq_zero h128]
    rfl
  · rw [if_neg h128]
    by_cases h64 : rhs ≥ 64
    · rw [if_pos h64, shiftRightWords_toBitVec _ _ (by omega), toBitVec, BitVec.append_ushiftRight_of_le _ _ h64]
      rfl
    · rw [if_neg h64, shiftRightWords_toBitVec _ _ (by omega)]
      rfl

/-- **`>>=` is the shift of the number.** -/
theorem shiftRight_toNat (x : Uint128) (rhs : Nat) : (x.shiftRight rhs).toNat = x.toNat / 2 ^ rhs := by
  rw [← toNat_toBitVec, shiftRight_toBitVec, BitVec.toNat_ushiftRight, toNat_toBitVec, Nat.shiftRight_eq_div_pow]

end Uint128

end Gstio.Fc
