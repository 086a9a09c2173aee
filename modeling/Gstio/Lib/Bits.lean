import Mathlib

/-!
# Smearing the bits of a number

Or-ing a number with itself shifted right by `1, 2, 4, …, 2^(t-1)` copies each set bit into the `2^t - 1`
positions below it (`testBit_orShifts_doublings`). When the number has fewer than `2^t` bits this sets every bit
below the highest one, giving `2^(log2 x + 1) - 1` (`orShifts_doublings_eq`): the classic first half of rounding
up to a power of two. `clog_two_eq` relates the result to `Nat.clog 2`, and `two_mul_dvd_succ_iff`,
`not_two_mul_dvd_succ` say how the low bits of a counter carry into the next one.
-/

namespace Nat

/-- `x`, or-ed with itself shifted right by each of `shifts` in turn. -/
def orShifts (x : Nat) (shifts : List Nat) : Nat := shifts.foldl (fun y s => y ||| y >>> s) x

/-- The shifts `1, 2, 4, …, 2^(t-1)`. -/
def doublings (t : Nat) : List Nat := (List.range t).map (2 ^ ·)

theorem testBit_or_shiftRight (x s i : Nat) : (x ||| x >>> s).testBit i = (x.testBit i || x.testBit (s + i)) := by
  rw [testBit_or, testBit_shiftRight]

theorem orShifts_append_singleton (x : Nat) (shifts : List Nat) (s : Nat) :
    x.orShifts (shifts ++ [s]) = x.orShifts shifts ||| x.orShifts shifts >>> s := by
  simp [orShifts, List.foldl_append]

/-- After `t` doublings, bit `i` is set when one of the bits `i, …, i + 2^t - 1` of `x` was. -/
theorem testBit_orShifts_doublings (x : Nat) :
    ∀ t i, (x.orShifts (doublings t)).testBit i = true ↔ ∃ j, i ≤ j ∧ j < i + 2 ^ t ∧ x.testBit j = true
  | 0, i => by
    simp only [doublings, List.range_zero, List.map_nil, orShifts, List.foldl_nil, Nat.pow_zero]
    constructor
    · intro h
      exact ⟨i, Nat.le_refl i, by omega, h⟩
    · rintro ⟨j, hij, hji, hj⟩
      rwa [show i = j by omega]
  | t + 1, i => by
    rw [doublings, List.range_succ, List.map_append, List.map_singleton, ← doublings,
      orShifts_append_singleton, testBit_or_shiftRight, Bool.or_eq_true, testBit_orShifts_doublings x t i,
      testBit_orShifts_doublings x t (2 ^ t + i), Nat.pow_succ]
    constructor
    · rintro (⟨j, hij, hji, hj⟩ | ⟨j, hij, hji, hj⟩)
      · exact ⟨j, hij, by omega, hj⟩
      · exact ⟨j, by omega, by omega, hj⟩
    · rintro ⟨j, hij, hji, hj⟩
      by_cases hlow : j < i + 2 ^ t
      · exact .inl ⟨j, hij, hlow, hj⟩
      · exact .inr ⟨j, by omega, by omega, hj⟩

/-- Every set bit of `x` is at most `log2 x`. -/
theorem le_log2_of_testBit {x j : Nat} (hj : x.testBit j = true) : j ≤ x.log2 := by
  by_contra hlt
  have hlt' : x < 2 ^ j := Nat.lt_of_lt_of_le lt_log2_self (Nat.pow_le_pow_right (by omega) (by omega))
  rw [testBit_lt_two_pow hlt'] at hj
  cases hj

/-- With fewer than `2^t` bits, the doublings set exactly the bits up to the highest one. -/
theorem orShifts_doublings_eq {x t : Nat} (hx : x ≠ 0) (hbits : x < 2 ^ 2 ^ t) :
    x.orShifts (doublings t) = 2 ^ (x.log2 + 1) - 1 := by
  have htop : x.log2 < 2 ^ t := (log2_lt hx).mpr hbits
  refine eq_of_testBit_eq fun i => ?_
  rw [testBit_two_pow_sub_one, Bool.eq_iff_iff, testBit_orShifts_doublings, decide_eq_true_iff]
  constructor
  · rintro ⟨j, hij, -, hj⟩
    have := le_log2_of_testBit hj
    omega
  · intro hi
    exact ⟨x.log2, by omega, by omega, testBit_log2 hx⟩

/-- `⌈log₂ v⌉` is one more than the position of the highest bit of `v - 1`. -/
theorem clog_two_eq {v : Nat} (hv : 2 ≤ v) : Nat.clog 2 v = (v - 1).log2 + 1 := by
  have hne : v - 1 ≠ 0 := by omega
  apply Nat.le_antisymm
  · rw [Nat.clog_le_iff_le_pow (by omega)]
    have := lt_log2_self (n := v - 1)
    omega
  · rw [Nat.succ_le_iff, Nat.lt_clog_iff_pow_lt (by omega)]
    have := log2_self_le hne
    omega

/-- With an odd quotient `m / p`, `2p` divides `m + 1` exactly when `p` does. -/
theorem two_mul_dvd_succ_iff {m p : Nat} (hp : 0 < p) (hq : m / p % 2 = 1) : 2 * p ∣ m + 1 ↔ p ∣ m + 1 := by
  constructor
  · exact Nat.dvd_trans (Nat.dvd_mul_left p 2)
  · intro h
    have hdiv := Nat.succ_div_of_dvd h
    obtain ⟨c, hc⟩ := h
    have hcq : c = m / p + 1 := by rw [← hdiv, hc, Nat.mul_div_cancel_left c hp]
    refine ⟨c / 2, ?_⟩
    rw [hc, Nat.mul_comm 2 p, Nat.mul_assoc, Nat.mul_div_cancel' (Nat.dvd_of_mod_eq_zero (by omega))]

/-- With an even quotient `m / p`, `2p` does not divide `m + 1`. -/
theorem not_two_mul_dvd_succ {m p : Nat} (hp : 0 < p) (hq : m / p % 2 = 0) : ¬ 2 * p ∣ m + 1 := by
  intro h
  have hdiv := Nat.succ_div_of_dvd (Nat.dvd_trans (Nat.dvd_mul_left p 2) h)
  obtain ⟨c, hc⟩ := h
  have hc2 : (m + 1) / p = 2 * c := by
    rw [hc, Nat.mul_comm 2 p, Nat.mul_assoc, Nat.mul_div_cancel_left _ hp]
  omega

end Nat
