import Mathlib

/-!
# The levels of a binary hash tree

A level of a balanced binary hash tree is built from the one below by combining adjacent pairs with `h`; an odd
last element is combined with itself. `levels h j l` is the `j`-th level above the leaves `l`.

* `getElem?_level`, `getElem?_levels_succ`: the node `i` of a level is `h` of the nodes `2i` and `2i + 1` below
  it, or of `2i` with itself when there is no `2i + 1`;
* `length_levels`: `n ≥ 1` leaves give `(n - 1) / 2^j + 1` nodes at level `j`;
* `levels_take`, `getElem?_levels_take`: a node over a complete block of leaves depends on those leaves only, so
  appending leaves does not change it.
-/

namespace PairLevels

variable {α : Type} (h : α → α → α)

/-- One level up: adjacent pairs combined, an odd last element combined with itself. -/
def level : List α → List α
  | a :: b :: rest => h a b :: level rest
  | [a] => [h a a]
  | [] => []

/-- The `j`-th level above `l`. -/
def levels (j : Nat) (l : List α) : List α := (level h)^[j] l

variable {h}

@[simp] theorem levels_zero (l : List α) : levels h 0 l = l := rfl

theorem levels_succ (j : Nat) (l : List α) : levels h (j + 1) l = level h (levels h j l) :=
  Function.iterate_succ_apply' (level h) j l

theorem levels_succ' (j : Nat) (l : List α) : levels h (j + 1) l = levels h j (level h l) :=
  Function.iterate_succ_apply (level h) j l

theorem getElem?_level : ∀ (l : List α) (i : Nat),
    (level h l)[i]? = l[2 * i]?.map fun a => h a (l[2 * i + 1]?.getD a)
  | a :: b :: rest, 0 => rfl
  | a :: b :: rest, i + 1 => by
    rw [level, List.getElem?_cons_succ, getElem?_level rest i,
      show 2 * (i + 1) = 2 * i + 1 + 1 by omega, show 2 * i + 1 + 1 + 1 = 2 * i + 1 + 1 + 1 from rfl]
    rfl
  | [a], 0 => rfl
  | [a], i + 1 => by simp [level]
  | [], i => by simp [level]

theorem getElem?_levels_succ (j : Nat) (l : List α) (i : Nat) :
    (levels h (j + 1) l)[i]? = (levels h j l)[2 * i]?.map fun a => h a ((levels h j l)[2 * i + 1]?.getD a) := by
  rw [levels_succ, getElem?_level]

theorem length_level : ∀ l : List α, (level h l).length = (l.length + 1) / 2
  | a :: b :: rest => by
    rw [level, List.length_cons, length_level rest]
    simp only [List.length_cons]
    omega
  | [a] => by simp [level]
  | [] => by simp [level]

/-- `n ≥ 1` leaves give `(n - 1) / 2^j + 1` nodes at level `j`. -/
theorem length_levels {l : List α} (hl : l ≠ []) :
    ∀ j, (levels h j l).length = (l.length - 1) / 2 ^ j + 1
  | 0 => by
    have := List.length_pos_iff.mpr hl
    simp only [levels_zero, Nat.pow_zero, Nat.div_one]
    omega
  | j + 1 => by
    rw [levels_succ, length_level, length_levels hl j, Nat.pow_succ, ← Nat.div_div_eq_div_mul]
    omega

theorem length_levels_append_singleton (l : List α) (a : α) (j : Nat) :
    (levels h j (l ++ [a])).length = l.length / 2 ^ j + 1 := by
  rw [length_levels (by simp), List.length_append, List.length_singleton, Nat.add_sub_cancel]

theorem level_take : ∀ (l : List α) (k : Nat), level h (l.take (2 * k)) = (level h l).take k
  | _, 0 => by simp [level]
  | a :: b :: rest, k + 1 => by
    rw [show 2 * (k + 1) = 2 * k + 1 + 1 by omega, List.take_succ_cons, List.take_succ_cons, level, level,
      List.take_succ_cons, level_take rest k]
  | [a], k + 1 => by
    rw [show 2 * (k + 1) = 2 * k + 1 + 1 by omega, List.take_succ_cons, List.take_nil, level]
    simp
  | [], k + 1 => by simp [level]

/-- The first `k` nodes of level `j` are the level over the first `k * 2^j` leaves. -/
theorem levels_take (l : List α) : ∀ j k, levels h j (l.take (k * 2 ^ j)) = (levels h j l).take k
  | 0, k => by simp
  | j + 1, k => by
    rw [levels_succ, levels_succ, Nat.pow_succ, Nat.mul_comm (2 ^ j) 2, ← Nat.mul_assoc, Nat.mul_comm k 2,
      levels_take l j (2 * k), level_take]

/-- A node over a complete block within the first `m` leaves is the same in the tree over those `m` leaves. -/
theorem getElem?_levels_take {l : List α} {j i m : Nat} (hi : (i + 1) * 2 ^ j ≤ m) :
    (levels h j (l.take m))[i]? = (levels h j l)[i]? := by
  have hprefix : (l.take m).take ((i + 1) * 2 ^ j) = l.take ((i + 1) * 2 ^ j) := by
    rw [List.take_take, Nat.min_eq_left hi]
  rw [← List.getElem?_take_of_lt (Nat.lt_succ_self i), ← levels_take, hprefix, levels_take,
    List.getElem?_take_of_lt (Nat.lt_succ_self i)]

end PairLevels
