import Mathlib

/-!
# LEB128

The bytes of a natural number seven bits at a time, least significant first, with the high bit set on every byte
but the last (`bytes`), and the value a list of such bytes denotes (`value`).

* `value_bytes`: the bytes denote the number;
* `lt_two_pow_length`, `two_pow_le_of_one_lt_length`: `n` has `max 1 ⌈bitlength n / 7⌉` bytes;
* `or_two_pow_seven`, `and_two_pow_seven_eq_zero_iff`: setting the high bit of a seven-bit byte adds `128`, and
  a byte has it exactly when it is `128` or more.
-/

namespace Leb128

/-- The bytes of `n`. -/
def bytes (n : Nat) : List Nat :=
  if n < 128 then [n] else (n % 128 + 128) :: bytes (n / 128)
termination_by n
decreasing_by omega

/-- The number the bytes denote: the low seven bits of each, least significant first. -/
def value : List Nat → Nat
  | [] => 0
  | b :: bs => b % 128 + 128 * value bs

variable {n : Nat}

theorem bytes_of_lt (h : n < 128) : bytes n = [n] := by
  rw [bytes, if_pos h]

theorem bytes_of_ge (h : 128 ≤ n) : bytes n = (n % 128 + 128) :: bytes (n / 128) := by
  rw [bytes, if_neg (by omega)]

theorem value_bytes (n : Nat) : value (bytes n) = n := by
  induction n using Nat.strong_induction_on with
  | _ n ih =>
    by_cases h : n < 128
    · rw [bytes_of_lt h, value, value]
      omega
    · rw [bytes_of_ge (by omega), value, ih (n / 128) (by omega)]
      omega

theorem length_bytes_pos (n : Nat) : 0 < (bytes n).length := by
  rw [bytes]
  split <;> simp

theorem lt_two_pow_length (n : Nat) : n < 2 ^ (7 * (bytes n).length) := by
  induction n using Nat.strong_induction_on with
  | _ n ih =>
    by_cases h : n < 128
    · rw [bytes_of_lt h]
      simpa using h
    · have hrec := ih (n / 128) (by omega)
      rw [bytes_of_ge (by omega), List.length_cons, Nat.mul_succ, Nat.pow_add]
      omega

theorem two_pow_le_of_one_lt_length (h : 1 < (bytes n).length) : 2 ^ (7 * ((bytes n).length - 1)) ≤ n := by
  induction n using Nat.strong_induction_on with
  | _ n ih =>
    by_cases hn : n < 128
    · rw [bytes_of_lt hn] at h
      simp at h
    · rw [bytes_of_ge (by omega), List.length_cons] at h ⊢
      rw [Nat.add_sub_cancel]
      by_cases h1 : (bytes (n / 128)).length = 1
      · rw [h1]
        omega
      · have hrec := ih (n / 128) (by omega) (by have := length_bytes_pos (n / 128); omega)
        have hsplit : 7 * (bytes (n / 128)).length = 7 * ((bytes (n / 128)).length - 1) + 7 := by
          have := length_bytes_pos (n / 128)
          omega
        rw [hsplit, Nat.pow_add]
        omega

/-- A number below `2^(7k)` has at most `k` bytes. -/
theorem length_bytes_le {k : Nat} (hk : 1 ≤ k) (h : n < 2 ^ (7 * k)) : (bytes n).length ≤ k := by
  by_contra hlt
  have hle := two_pow_le_of_one_lt_length (n := n) (by omega)
  have hmono : 2 ^ (7 * k) ≤ 2 ^ (7 * ((bytes n).length - 1)) := Nat.pow_le_pow_right (by decide) (by omega)
  omega

theorem or_two_pow_seven {b : Nat} (hb : b < 128) : b ||| 128 = b + 128 :=
  Nat.or_two_pow_eq_add_of_lt (n := 7) hb

theorem and_two_pow_seven_eq_zero_iff {b : Nat} (h : b < 256) : b &&& 128 = 0 ↔ b < 128 := by
  rw [show (128 : Nat) = 2 ^ 7 from rfl, Nat.and_two_pow, Nat.testBit_eq_decide_div_mod_eq]
  simp
  omega

end Leb128
