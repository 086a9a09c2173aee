import Mathlib

/-!
# Sign-magnitude numbers and their order

A number of `w + 1` bits read as a sign bit (bit `w`) over a magnitude of `w` bits, as an IEEE 754 bit pattern is.
Its rank is the magnitude, negated under the sign; both zeros rank `0`.

`lt` is the comparison of two such numbers on their bits the way software floating point compares values that are
not NaN: when the signs differ the negative one is less unless both are zeros; when they agree the bits compare as
numbers, the other way round for negatives. It is the order of the ranks (`lt_iff_rank_lt`), so a strict weak order
whose classes are the numbers of one rank: the two zeros form one class, every other rank one number.
-/

namespace SignMagnitude

/-- The sign bit. -/
def sign (w a : Nat) : Bool := a / 2 ^ w % 2 == 1

/-- The magnitude: the bits below the sign. -/
def magnitude (w a : Nat) : Nat := a % 2 ^ w

/-- The rank: the magnitude, negated under the sign. -/
def rank (w a : Nat) : Int := if sign w a then -(magnitude w a : Int) else magnitude w a

/-- The comparison on the bits. -/
def lt (w a b : Nat) : Bool :=
  if sign w a != sign w b then sign w a && (magnitude w a != 0 || magnitude w b != 0)
  else a != b && (sign w a ^^ decide (a < b))

variable {w a b : Nat}

theorem magnitude_lt (w a : Nat) : magnitude w a < 2 ^ w := Nat.mod_lt _ (Nat.two_pow_pos w)

/-- A number of `w + 1` bits is its magnitude, with `2 ^ w` added under the sign. -/
theorem eq_sign_magnitude (ha : a < 2 ^ (w + 1)) :
    (sign w a = false ∧ a = magnitude w a) ∨ (sign w a = true ∧ a = 2 ^ w + magnitude w a) := by
  have hdiv : a / 2 ^ w < 2 := Nat.div_lt_of_lt_mul (by rw [Nat.pow_succ] at ha; linarith)
  have hsplit := Nat.div_add_mod a (2 ^ w)
  unfold sign magnitude
  generalize a / 2 ^ w = q at hdiv hsplit ⊢
  rcases (by omega : q = 0 ∨ q = 1) with rfl | rfl
  · exact .inl ⟨rfl, by omega⟩
  · exact .inr ⟨rfl, by omega⟩

/-- **The comparison on the bits is the order of the ranks.** -/
theorem lt_iff_rank_lt (ha : a < 2 ^ (w + 1)) (hb : b < 2 ^ (w + 1)) : lt w a b = true ↔ rank w a < rank w b := by
  have hma := magnitude_lt w a
  have hmb := magnitude_lt w b
  -- four cases of the two signs; in each the bits are the magnitudes, `2 ^ w` added to the negative ones
  rcases eq_sign_magnitude ha with ⟨hsa, hA⟩ | ⟨hsa, hA⟩ <;>
    rcases eq_sign_magnitude hb with ⟨hsb, hB⟩ | ⟨hsb, hB⟩ <;>
    simp only [lt, rank, hsa, hsb, bne_self_eq_false, Bool.false_eq_true, if_false, if_true, Bool.true_and,
      Bool.false_and, Bool.and_eq_true, bne_iff_ne, ne_eq, Bool.or_eq_true, Bool.false_xor, Bool.true_xor,
      Bool.not_eq_true', decide_eq_true_eq, decide_eq_false_iff_not, Bool.bne_false, Bool.bne_true,
      Bool.not_false, false_iff] <;>
    generalize magnitude w a = ma at * <;> generalize magnitude w b = mb at * <;> generalize 2 ^ w = P at * <;>
    omega

end SignMagnitude
