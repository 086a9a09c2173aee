import Mathlib

/-!
# Machine integers: two words, and the signed arithmetic of C++

A number of `2w` bits held in two words of `w` bits is the append `hi ++ lo` of their bit vectors: its value is
`hi * 2^w + lo` (`BitVec.toNat_append_eq`), and a shift by `w` or more moves the low word into the high one
(`BitVec.append_shiftLeft_of_le`, `BitVec.append_ushiftRight_of_le`).

`CppInt` gives the arithmetic of a signed integer type of `w` bits as C++17 defines it, with `none` for undefined
behaviour: a shift by `w` or more, a left shift of a negative value or one whose result the unsigned type cannot hold,
a product out of range, and a quotient out of range or by zero (`[expr.shift]`, `[expr.mul]`, `[expr]/4`).
The conversions C++17 leaves to the implementation are those of GCC and Clang: modulo `2^w`, and an arithmetic
right shift of a negative value.
-/

namespace BitVec

variable {w : Nat}

theorem toNat_append_eq (x y : BitVec w) : (x ++ y).toNat = x.toNat * 2 ^ w + y.toNat := by
  rw [toNat_append, ← Nat.shiftLeft_add_eq_or_of_lt y.isLt, Nat.shiftLeft_eq]

/-- Shifting two words left by `w` or more shifts the low word, moved to the high one. -/
theorem append_shiftLeft_of_le (x y : BitVec w) {s : Nat} (hs : w ≤ s) :
    (x ++ y) <<< s = (y ++ 0#w) <<< (s - w) := by
  ext i hi
  simp only [getElem_shiftLeft, getElem_append]
  by_cases hlt : i < s
  · -- below the shift both sides are zero: the right one reads the zero word
    have hzero : i - (s - w) < w := by omega
    simp [hlt, hzero]
  · have hi' : ¬ i < s - w := by omega
    simp only [hlt, hi', decide_false, Bool.not_false, Bool.true_and]
    by_cases hlow : i - s < w
    · rw [dif_pos hlow, dif_neg (by omega)]
      simp [show i - (s - w) - w = i - s by omega]
    · omega

/-- Shifting two words right by `w` or more shifts the high word, moved to the low one. -/
theorem append_ushiftRight_of_le (x y : BitVec w) {s : Nat} (hs : w ≤ s) :
    (x ++ y) >>> s = (0#w ++ x) >>> (s - w) := by
  ext i hi
  simp only [getElem_ushiftRight, getLsbD_append]
  by_cases hlow : s + i < w
  · omega
  · by_cases hlow' : s - w + i < w
    · simp [hlow, hlow', show s + i - w = s - w + i by omega]
    · simp [hlow, hlow', getLsbD_of_ge x (s + i - w) (by omega)]

end BitVec

namespace CppInt

variable (w : Nat)

/-- The values of the signed type. -/
def InRange (x : Int) : Prop := -(2 ^ (w - 1) : Int) ≤ x ∧ x < 2 ^ (w - 1)

instance (x : Int) : Decidable (InRange w x) := inferInstanceAs (Decidable (_ ∧ _))

/-- A value converted to the signed type: modulo `2^w`, into the range. -/
def toSigned (x : Int) : Int := x.bmod (2 ^ w)

/-- The bits of a value of the signed type, as the unsigned type holds them. -/
def toUnsigned (x : Int) : Nat := (x % (2 ^ w : Nat)).toNat

/-- `x << s`: undefined for a shift of `w` or more and for a negative `x`; otherwise the product `2^s * x`, which the
unsigned type must hold, converted to the signed type. (The power stands first: a product with a numeral on the
right unfolds one unit at a time when it is checked by definition.) -/
def shiftLeft (x : Int) (s : Nat) : Option Int :=
  if w ≤ s ∨ x < 0 ∨ (2 ^ w : Int) ≤ 2 ^ s * x then none else some (toSigned w (2 ^ s * x))

/-- `x >> s`: undefined for a shift of `w` or more; otherwise `x / 2^s` rounded down. -/
def shiftRight (x : Int) (s : Nat) : Option Int := if w ≤ s then none else some (x / 2 ^ s)

/-- `x | y`, on the bits. -/
def or (x : Int) (y : Int) : Int := toSigned w (toUnsigned w x ||| toUnsigned w y : Nat)

/-- `x * y`: undefined when the product is out of range. -/
def mul (x y : Int) : Option Int := if InRange w (x * y) then some (x * y) else none

/-- `x / y`, rounded toward zero: undefined for `y = 0` and for a quotient out of range. -/
def div (x y : Int) : Option Int := if y = 0 ∨ ¬ InRange w (x.tdiv y) then none else some (x.tdiv y)

/-- `x % y`, with the sign of `x`: undefined where `x / y` is. -/
def rem (x y : Int) : Option Int := if y = 0 ∨ ¬ InRange w (x.tdiv y) then none else some (x.tmod y)

variable {w}

theorem toUnsigned_toSigned (x : Int) : toUnsigned w (toSigned w x) = (x % (2 ^ w : Nat)).toNat := by
  rw [toUnsigned, toSigned, Int.bmod_emod]

theorem toUnsigned_natCast {n : Nat} (h : n < 2 ^ w) : toUnsigned w n = n := by
  rw [toUnsigned, ← Int.natCast_emod, Int.toNat_natCast, Nat.mod_eq_of_lt h]

theorem shiftLeft_of_fits {x : Int} {s : Nat} (hs : s < w) (hx : 0 ≤ x) (hfit : 2 ^ s * x < 2 ^ w) :
    shiftLeft w x s = some (toSigned w (2 ^ s * x)) := by
  rw [shiftLeft, if_neg (by omega)]

theorem shiftRight_eq_none_iff {x : Int} {s : Nat} : shiftRight w x s = none ↔ w ≤ s := by
  unfold shiftRight
  split <;> simp_all

theorem shiftRight_of_lt {x : Int} {s : Nat} (hs : s < w) : shiftRight w x s = some (x / 2 ^ s) := by
  rw [shiftRight, if_neg (by omega)]

/-- Or-ing a value below `2^k` into a value whose low `k` bits are clear adds it. -/
theorem or_shifted {h l k : Nat} (hk : k ≤ w) (hl : l < 2 ^ k) (hfit : 2 ^ k * h < 2 ^ w) :
    or w (toSigned w (2 ^ k * (h : Int))) l = toSigned w (2 ^ k * (h : Int) + l) := by
  -- both `2^k * h` and `2^w` are multiples of `2^k`, so there is room for `l` below `2^w`
  have hpow : 2 ^ w = 2 ^ k * 2 ^ (w - k) := by rw [← Nat.pow_add, Nat.add_sub_cancel' hk]
  have hh : h < 2 ^ (w - k) := by
    rw [hpow] at hfit
    exact Nat.lt_of_mul_lt_mul_left hfit
  have hsum : 2 ^ k * h + l < 2 ^ w := by
    have hle : 2 ^ k * (h + 1) ≤ 2 ^ w := by
      rw [hpow]
      exact Nat.mul_le_mul_left _ hh
    rw [Nat.mul_add, Nat.mul_one] at hle
    omega
  have hcast : 2 ^ k * (h : Int) = ((2 ^ k * h : Nat) : Int) := by push_cast; rfl
  have hcast' : 2 ^ k * (h : Int) + l = ((2 ^ k * h + l : Nat) : Int) := by push_cast; rfl
  rw [or, hcast', hcast, toUnsigned_toSigned, ← Int.natCast_emod, Int.toNat_natCast, Nat.mod_eq_of_lt hfit,
    toUnsigned_natCast (lt_of_le_of_lt (Nat.le_add_left l _) hsum), Nat.mul_comm, ← Nat.shiftLeft_eq,
    ← Nat.shiftLeft_add_eq_or_of_lt hl, Nat.shiftLeft_eq, Nat.mul_comm]

end CppInt
