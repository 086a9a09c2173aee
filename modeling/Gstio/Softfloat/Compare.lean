import Mathlib
import Gstio.Lib.SignMagnitude

/-!
# softfloat: `f64_lt` and `f128_lt`

Berkeley softfloat (release 3) compares two floating-point values on their bit patterns: `false` when either is a
NaN, else by the signs and the bits (`f64_lt.c`, `f128_lt.c`, with the macros of `internals.h` and
`softfloat_lt128` of `primitives.h`). These are the comparators of the secondary indices `idx_double` and
`idx_long_double`. A `float128_t` is two 64-bit words, `v64` above `v0`.

* `f64Lt_iff_rank_lt`, `f128Lt_iff_rank_lt`: on values that are not NaN each comparison is the order of the
  sign-magnitude ranks of the bits (`SignMagnitude`), in which `-0` and `+0` have one rank.
-/

namespace Gstio.Softfloat

open SignMagnitude

/-! ## `float64_t` -/

/-- `signF64UI`: bit 63. -/
def signF64UI (a : UInt64) : Bool := a >>> 63 != 0

/-- `isNaNF64UI`: the exponent all ones and a fraction other than zero. -/
def isNaNF64UI (a : UInt64) : Bool := (~~~a &&& 0x7FF0000000000000) == 0 && (a &&& 0x000FFFFFFFFFFFFF) != 0

/-- `f64_lt`; the invalid flag it raises on a NaN is not modelled. -/
def f64Lt (uiA uiB : UInt64) : Bool :=
  if isNaNF64UI uiA || isNaNF64UI uiB then false
  else
    let signA := signF64UI uiA
    let signB := signF64UI uiB
    if signA != signB then signA && ((uiA ||| uiB) &&& 0x7FFFFFFFFFFFFFFF) != 0
    else uiA != uiB && (signA ^^ decide (uiA < uiB))

/-! ## `float128_t` -/

/-- `float128_t` as the union `ui128_f128` reads it. -/
structure Float128 where
  v64 : UInt64
  v0 : UInt64
  deriving DecidableEq, Repr

namespace Float128

/-- The 128 bits as a number. -/
def toNat (a : Float128) : Nat := a.v64.toNat * 2 ^ 64 + a.v0.toNat

/-- The low 128 bits of a number. -/
def ofNat (n : Nat) : Float128 := ⟨UInt64.ofNat (n / 2 ^ 64), UInt64.ofNat n⟩

end Float128

/-- `signF128UI64`: bit 63 of the high word. -/
def signF128UI64 (a64 : UInt64) : Bool := a64 >>> 63 != 0

/-- `isNaNF128UI`: the exponent all ones and a fraction other than zero. -/
def isNaNF128UI (a64 a0 : UInt64) : Bool :=
  (~~~a64 &&& 0x7FFF000000000000) == 0 && (a0 != 0 || (a64 &&& 0x0000FFFFFFFFFFFF) != 0)

/-- `softfloat_lt128`: the 128-bit numbers compared word by word. -/
def softfloatLt128 (a64 a0 b64 b0 : UInt64) : Bool := a64 < b64 || (a64 == b64 && a0 < b0)

/-- `f128_lt`; the invalid flag it raises on a NaN is not modelled. -/
def f128Lt (a b : Float128) : Bool :=
  if isNaNF128UI a.v64 a.v0 || isNaNF128UI b.v64 b.v0 then false
  else
    let signA := signF128UI64 a.v64
    let signB := signF128UI64 b.v64
    if signA != signB then signA && (((a.v64 ||| b.v64) &&& 0x7FFFFFFFFFFFFFFF) ||| a.v0 ||| b.v0) != 0
    else (a.v64 != b.v64 || a.v0 != b.v0) && (signA ^^ softfloatLt128 a.v64 a.v0 b.v64 b.v0)

/-! ## The words as numbers -/

theorem bne_eq_toNat_bne (a b : UInt64) : (a != b) = (a.toNat != b.toNat) := by
  rw [Bool.eq_iff_iff, bne_iff_ne, bne_iff_ne, ne_eq, ne_eq, UInt64.toNat_inj]

theorem toNat_shiftRight_63 (a : UInt64) : (a >>> 63).toNat = a.toNat / 2 ^ 63 := by
  simp [UInt64.toNat_shiftRight, Nat.shiftRight_eq_div_pow]

/-- The sign of a word is bit 63 of its number. -/
theorem shiftRight_63_ne_zero (a : UInt64) : (a >>> 63 != 0) = (a.toNat / 2 ^ 63 % 2 == 1) := by
  have hq : a.toNat / 2 ^ 63 < 2 := Nat.div_lt_of_lt_mul (by have := a.toNat_lt; omega)
  rw [bne_eq_toNat_bne, toNat_shiftRight_63, UInt64.toNat_zero]
  generalize a.toNat / 2 ^ 63 = q at hq ⊢
  rcases (by omega : q = 0 ∨ q = 1) with rfl | rfl <;> rfl

theorem toNat_and_mask_63 (a : UInt64) : (a &&& 0x7FFFFFFFFFFFFFFF).toNat = a.toNat % 2 ^ 63 := by
  rw [UInt64.toNat_and, show (0x7FFFFFFFFFFFFFFF : UInt64).toNat = 2 ^ 63 - 1 from rfl,
    Nat.and_two_pow_sub_one_eq_mod]

/-- The magnitude test of the comparisons: the bits of `a | b` below the sign are zero exactly when those of `a`
and of `b` are. -/
theorem or_and_mask_ne_zero (a b : UInt64) :
    ((a ||| b) &&& 0x7FFFFFFFFFFFFFFF != 0) = (a.toNat % 2 ^ 63 != 0 || b.toNat % 2 ^ 63 != 0) := by
  rw [bne_eq_toNat_bne, toNat_and_mask_63, UInt64.toNat_or, Nat.or_mod_two_pow, UInt64.toNat_zero]
  cases h : a.toNat % 2 ^ 63 != 0 <;> cases h' : b.toNat % 2 ^ 63 != 0 <;> simp_all [Nat.or_eq_zero_iff]

theorem decide_lt_eq (a b : UInt64) : decide (a < b) = decide (a.toNat < b.toNat) :=
  decide_eq_decide.mpr UInt64.lt_iff_toNat_lt

/-! ## `f64_lt` is the order of the ranks -/

theorem signF64UI_eq (a : UInt64) : signF64UI a = sign 63 a.toNat := shiftRight_63_ne_zero a

theorem toNat_lt_two_pow_64 (a : UInt64) : a.toNat < 2 ^ (63 + 1) := a.toNat_lt

/-- On values that are not NaN, `f64_lt` is the sign-magnitude comparison of the bits. -/
theorem f64Lt_eq_lt {a b : UInt64} (ha : isNaNF64UI a = false) (hb : isNaNF64UI b = false) :
    f64Lt a b = SignMagnitude.lt 63 a.toNat b.toNat := by
  simp only [f64Lt, ha, hb, Bool.or_false, Bool.false_eq_true, if_false, signF64UI_eq, or_and_mask_ne_zero]
  simp only [bne_eq_toNat_bne, decide_lt_eq, SignMagnitude.lt, magnitude]

/-- **`f64_lt` orders the values that are not NaN by the ranks of their bits.** -/
theorem f64Lt_iff_rank_lt {a b : UInt64} (ha : isNaNF64UI a = false) (hb : isNaNF64UI b = false) :
    f64Lt a b = true ↔ rank 63 a.toNat < rank 63 b.toNat := by
  rw [f64Lt_eq_lt ha hb]
  exact lt_iff_rank_lt (toNat_lt_two_pow_64 a) (toNat_lt_two_pow_64 b)

/-! ## `f128_lt` is the order of the ranks -/

namespace Float128

theorem toNat_lt (a : Float128) : a.toNat < 2 ^ (127 + 1) := by
  have h64 := a.v64.toNat_lt
  have h0 := a.v0.toNat_lt
  unfold toNat
  omega

theorem toNat_div (a : Float128) : a.toNat / 2 ^ 64 = a.v64.toNat := by
  unfold toNat
  have h0 := a.v0.toNat_lt
  omega

theorem toNat_mod (a : Float128) : a.toNat % 2 ^ 64 = a.v0.toNat := by
  unfold toNat
  have h0 := a.v0.toNat_lt
  omega

/-- Two values of one number are one value. -/
theorem toNat_inj {a b : Float128} : a.toNat = b.toNat ↔ a = b := by
  constructor
  · intro h
    have h64 : a.v64 = b.v64 := UInt64.toNat_inj.mp (by rw [← toNat_div, h, toNat_div])
    have h0 : a.v0 = b.v0 := UInt64.toNat_inj.mp (by rw [← toNat_mod, h, toNat_mod])
    cases a
    cases b
    simp_all
  · rintro rfl
    rfl

end Float128

/-- The sign of a `float128_t` is bit 127 of its number. -/
theorem signF128UI64_eq (a : Float128) : signF128UI64 a.v64 = sign 127 a.toNat := by
  have hdiv : a.toNat / 2 ^ 127 = a.v64.toNat / 2 ^ 63 := by
    rw [show (2 : Nat) ^ 127 = 2 ^ 64 * 2 ^ 63 by norm_num, ← Nat.div_div_eq_div_mul, a.toNat_div]
  rw [signF128UI64, shiftRight_63_ne_zero, sign, hdiv]

/-- The magnitude of a `float128_t`: bits of the high word below the sign, over the low word. -/
theorem magnitude_127 (a : Float128) : magnitude 127 a.toNat = a.v64.toNat % 2 ^ 63 * 2 ^ 64 + a.v0.toNat := by
  have h0 := a.v0.toNat_lt
  unfold magnitude Float128.toNat
  omega

theorem magnitude_127_ne_zero (a : Float128) :
    (magnitude 127 a.toNat != 0) = (a.v64.toNat % 2 ^ 63 != 0 || a.v0.toNat != 0) := by
  rw [magnitude_127]
  cases h : a.v64.toNat % 2 ^ 63 != 0 <;> cases h' : a.v0.toNat != 0 <;> simp_all

/-- The magnitude test of `f128_lt`. -/
theorem or_and_mask_or_ne_zero (a b : Float128) :
    (((a.v64 ||| b.v64) &&& 0x7FFFFFFFFFFFFFFF) ||| a.v0 ||| b.v0 != 0) =
      (magnitude 127 a.toNat != 0 || magnitude 127 b.toNat != 0) := by
  rw [bne_eq_toNat_bne, UInt64.toNat_or, UInt64.toNat_or, toNat_and_mask_63, UInt64.toNat_or,
    Nat.or_mod_two_pow, UInt64.toNat_zero, magnitude_127_ne_zero, magnitude_127_ne_zero]
  cases h₁ : a.v64.toNat % 2 ^ 63 != 0 <;> cases h₂ : b.v64.toNat % 2 ^ 63 != 0 <;>
    cases h₃ : a.v0.toNat != 0 <;> cases h₄ : b.v0.toNat != 0 <;> simp_all [Nat.or_eq_zero_iff]

theorem words_bne (a b : Float128) : (a.v64 != b.v64 || a.v0 != b.v0) = (a.toNat != b.toNat) := by
  have h : a.toNat ≠ b.toNat ↔ a.v64 ≠ b.v64 ∨ a.v0 ≠ b.v0 := by
    rw [ne_eq, Float128.toNat_inj]
    obtain ⟨a64, a0⟩ := a
    obtain ⟨b64, b0⟩ := b
    simp only [Float128.mk.injEq]
    tauto
  rw [Bool.eq_iff_iff, Bool.or_eq_true, bne_iff_ne, bne_iff_ne, bne_iff_ne, h]

/-- Numbers of two words compare by the high words, then the low ones. -/
theorem two_words_lt_iff {x₁ x₀ y₁ y₀ : Nat} (hx : x₀ < 2 ^ 64) (hy : y₀ < 2 ^ 64) :
    x₁ * 2 ^ 64 + x₀ < y₁ * 2 ^ 64 + y₀ ↔ x₁ < y₁ ∨ x₁ = y₁ ∧ x₀ < y₀ := by
  constructor
  · intro h
    rcases Nat.lt_trichotomy x₁ y₁ with h₁ | rfl | h₁
    · exact .inl h₁
    · exact .inr ⟨rfl, by omega⟩
    · -- a higher high word outweighs any low word
      have := Nat.mul_le_mul_right (2 ^ 64) (Nat.succ_le_of_lt h₁)
      rw [Nat.succ_mul] at this
      omega
  · rintro (h₁ | ⟨rfl, h₀⟩)
    · have := Nat.mul_le_mul_right (2 ^ 64) (Nat.succ_le_of_lt h₁)
      rw [Nat.succ_mul] at this
      omega
    · omega

/-- `softfloat_lt128` compares the numbers of the two words. -/
theorem softfloatLt128_eq (a b : Float128) :
    softfloatLt128 a.v64 a.v0 b.v64 b.v0 = decide (a.toNat < b.toNat) := by
  rw [softfloatLt128, Bool.eq_iff_iff, Bool.or_eq_true, Bool.and_eq_true, beq_iff_eq, decide_eq_true_eq,
    decide_eq_true_eq, decide_eq_true_eq, Float128.toNat, Float128.toNat,
    two_words_lt_iff a.v0.toNat_lt b.v0.toNat_lt, UInt64.lt_iff_toNat_lt, UInt64.lt_iff_toNat_lt, ← UInt64.toNat_inj]

/-- On values that are not NaN, `f128_lt` is the sign-magnitude comparison of the bits. -/
theorem f128Lt_eq_lt {a b : Float128} (ha : isNaNF128UI a.v64 a.v0 = false) (hb : isNaNF128UI b.v64 b.v0 = false) :
    f128Lt a b = SignMagnitude.lt 127 a.toNat b.toNat := by
  simp only [f128Lt, ha, hb, Bool.or_false, Bool.false_eq_true, if_false, signF128UI64_eq, or_and_mask_or_ne_zero,
    words_bne, softfloatLt128_eq, SignMagnitude.lt]

/-- **`f128_lt` orders the values that are not NaN by the ranks of their bits.** -/
theorem f128Lt_iff_rank_lt {a b : Float128} (ha : isNaNF128UI a.v64 a.v0 = false)
    (hb : isNaNF128UI b.v64 b.v0 = false) : f128Lt a b = true ↔ rank 127 a.toNat < rank 127 b.toNat := by
  rw [f128Lt_eq_lt ha hb]
  exact lt_iff_rank_lt a.toNat_lt b.toNat_lt

end Gstio.Softfloat
