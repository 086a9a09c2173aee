import Mathlib

/-!
# Decaying sums

A moving average over a window of `W` periods, kept as a sum scaled by `P`: when `δ ≥ 1` periods have passed, the
sum keeps the share `(W - δ) / W` of what it held (nothing once a whole window has passed), and an input `u` adds
`u * P / W`, rounded up. With inputs of at most `M`, the sum stays at most `M * P + W - 1`, and the average it gives,
the sum over `P` rounded up, at most `M + 1`.

* `decayed`, `contribution`: the two parts of a period's sum;
* `decayed_add_contribution_le`: one period keeps the bound;
* `ceil_div_le`: the average under the bound.
-/

namespace DecayingSum

/-- What a sum `v` keeps after `δ` periods of a window of `W`: `v * (W - δ) / W`, or nothing after a whole window. -/
def decayed (W δ v : Nat) : Nat := if δ < W then v * (W - δ) / W else 0

/-- The share of an input `u` at scale `P` in a window of `W` periods, rounded up. -/
def contribution (P W u : Nat) : Nat := (u * P + W - 1) / W

variable {P W M δ v u : Nat}

theorem decayed_mul_le (hδ : 1 ≤ δ) : decayed W δ v * W ≤ v * (W - 1) := by
  unfold decayed
  split
  · calc v * (W - δ) / W * W ≤ v * (W - δ) := Nat.div_mul_le_self _ _
      _ ≤ v * (W - 1) := Nat.mul_le_mul_left v (by omega)
  · simp

theorem decayed_le : decayed W δ v ≤ v := by
  unfold decayed
  split
  · exact Nat.div_le_of_le_mul (Nat.mul_le_mul_left v (Nat.sub_le W δ) |>.trans (Nat.mul_comm v W).le)
  · exact Nat.zero_le v

theorem contribution_mul_le : contribution P W u * W ≤ u * P + W - 1 :=
  Nat.div_mul_le_self _ _

/-- **A period keeps the bound.** A sum of at most `M * P + W - 1`, decayed by at least one period, with the
contribution of an input of at most `M`, is again at most `M * P + W - 1`. -/
theorem decayed_add_contribution_le (hW : 0 < W) (hδ : 1 ≤ δ) (hv : v ≤ M * P + W - 1) (hu : u ≤ M) :
    decayed W δ v + contribution P W u ≤ M * P + W - 1 := by
  have h₁ := decayed_mul_le (W := W) (v := v) hδ
  have h₂ := contribution_mul_le (P := P) (W := W) (u := u)
  have h₃ : u * P ≤ M * P := Nat.mul_le_mul_right P hu
  -- the share kept is at most `(W - 1) / W` of the bound, the contribution at most `1 / W` of it
  have h₄ : v * (W - 1) ≤ (M * P + W - 1) * (W - 1) := Nat.mul_le_mul_right _ hv
  apply Nat.le_of_mul_le_mul_right _ hW
  calc (decayed W δ v + contribution P W u) * W
      = decayed W δ v * W + contribution P W u * W := Nat.add_mul _ _ _
    _ ≤ (M * P + W - 1) * (W - 1) + (M * P + W - 1) := by omega
    _ = (M * P + W - 1) * W := by
      rw [← Nat.mul_add_one]
      congr 1
      omega

/-- **The average stays below the bound plus one.** A sum of at most `M * P + W - 1` with `W ≤ P`, divided by `P`
and rounded up, is at most `M + 1`. -/
theorem ceil_div_le (hW : W ≤ P) (hv : v ≤ M * P + W - 1) : (v + P - 1) / P ≤ M + 1 := by
  rcases Nat.eq_zero_or_pos P with rfl | hP
  · simp
  · rw [Nat.div_le_iff_le_mul_add_pred hP, Nat.mul_add_one, Nat.mul_comm P M]
    omega

end DecayingSum
