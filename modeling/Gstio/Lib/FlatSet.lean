import Mathlib

/-!
# Sorted sets in a vector (`flat_set`)

A `flat_set` keeps its elements sorted and unique in a vector. An iterator into it is a position, modelled here by the
suffix of the elements from there on: `std::lower_bound(first, last, x)` from the position `l` is `lowerBound l x`,
what is left after the elements below `x`.

* `mem_lowerBound_iff`: the lower bound keeps exactly the elements not below `x`;
* `mem_iff_of_lowerBound_eq_cons`: an element is in a sorted range exactly when its lower bound starts with it;
* `head?_le`, `le_getLast?`: the first and the last element bound the others.
-/

/-- A `flat_set`: its elements, in increasing order. -/
structure FlatSet (α : Type) [LT α] where
  toList : List α
  sorted : toList.Pairwise (· < ·)

namespace FlatSet

variable {α : Type} [LinearOrder α]

/-- `std::lower_bound` from the position `l`: the first position whose element is not below `x`. -/
def lowerBound (l : List α) (x : α) : List α := l.dropWhile (· < x)

/-- `std::set_difference` of two sorted ranges. -/
def setDifference (l r : List α) : List α := l.filter (· ∉ r)

/-- `std::set_intersection` of two sorted ranges. -/
def setIntersection (l r : List α) : List α := l.filter (· ∈ r)

variable {l : List α} {x y : α}

theorem lowerBound_suffix (l : List α) (x : α) : lowerBound l x <:+ l := List.dropWhile_suffix _

theorem mem_lowerBound_iff (hs : l.Pairwise (· < ·)) : y ∈ lowerBound l x ↔ y ∈ l ∧ x ≤ y := by
  induction l with
  | nil => simp [lowerBound]
  | cons a l ih =>
    obtain ⟨ha, hl⟩ := List.pairwise_cons.mp hs
    rw [lowerBound, List.dropWhile_cons]
    by_cases hax : a < x
    · -- `a` is skipped: it is below `x`
      rw [if_pos (decide_eq_true hax), ← lowerBound, ih hl, List.mem_cons]
      constructor
      · exact fun ⟨hy, hxy⟩ => ⟨.inr hy, hxy⟩
      · rintro ⟨rfl | hy, hxy⟩
        · exact absurd hax (not_lt.mpr hxy)
        · exact ⟨hy, hxy⟩
    · -- the lower bound is `a`, and every later element is above it
      rw [if_neg (by simpa using hax), List.mem_cons]
      have hxa : x ≤ a := not_lt.mp hax
      constructor
      · rintro (rfl | hy)
        · exact ⟨.inl rfl, hxa⟩
        · exact ⟨.inr hy, le_of_lt (lt_of_le_of_lt hxa (ha y hy))⟩
      · exact fun ⟨hy, _⟩ => hy

theorem lowerBound_eq_nil_iff (hs : l.Pairwise (· < ·)) : lowerBound l x = [] ↔ ∀ y ∈ l, y < x := by
  rw [List.eq_nil_iff_forall_not_mem]
  simp only [mem_lowerBound_iff hs, not_and, not_le]

/-- A sorted range holds `x` exactly when its lower bound at `x` starts with `x`. -/
theorem mem_iff_of_lowerBound_eq_cons {b : α} {rest : List α} (hs : l.Pairwise (· < ·))
    (hb : lowerBound l x = b :: rest) : x ∈ l ↔ b = x := by
  have hbl : b ∈ lowerBound l x := hb ▸ List.mem_cons_self
  have hsorted : (b :: rest).Pairwise (· < ·) := hb ▸ hs.sublist (lowerBound_suffix l x).sublist
  constructor
  · intro hx
    -- `x` is not below itself, so the lower bound holds it; nothing after `b` is below `b`
    have hx' : x ∈ b :: rest := hb ▸ (mem_lowerBound_iff hs).mpr ⟨hx, le_refl x⟩
    rcases List.mem_cons.mp hx' with rfl | hrest
    · rfl
    · have hbx : b < x := (List.pairwise_cons.mp hsorted).1 x hrest
      exact absurd ((mem_lowerBound_iff hs).mp hbl).2 (not_le.mpr hbx)
  · rintro rfl
    exact ((mem_lowerBound_iff hs).mp hbl).1

/-- Past the element at a lower bound are the elements of the sorted range above it. -/
theorem mem_tail_iff_of_lowerBound_eq_cons {b : α} {rest : List α} (hs : l.Pairwise (· < ·))
    (hb : lowerBound l x = b :: rest) (hy : b < y) : y ∈ rest ↔ y ∈ l := by
  have hxb : x ≤ b := ((mem_lowerBound_iff hs).mp (hb ▸ List.mem_cons_self)).2
  constructor
  · intro hy'
    exact (lowerBound_suffix l x).subset (hb ▸ List.mem_cons_of_mem b hy')
  · intro hy'
    have hlb : y ∈ b :: rest := hb ▸ (mem_lowerBound_iff hs).mpr ⟨hy', le_of_lt (lt_of_le_of_lt hxb hy)⟩
    rcases List.mem_cons.mp hlb with rfl | hrest
    · exact absurd hy (lt_irrefl _)
    · exact hrest

theorem head?_le (hs : l.Pairwise (· < ·)) (hx : l.head? = some x) (hy : y ∈ l) : x ≤ y := by
  cases l with
  | nil => cases hx
  | cons a l =>
    cases hx
    rcases List.mem_cons.mp hy with rfl | hy
    · exact le_refl _
    · exact le_of_lt ((List.pairwise_cons.mp hs).1 y hy)

theorem le_getLast? (hs : l.Pairwise (· < ·)) (hx : l.getLast? = some x) (hy : y ∈ l) : y ≤ x := by
  obtain ⟨ys, rfl⟩ := List.getLast?_eq_some_iff.mp hx
  rcases List.mem_append.mp hy with hy | hy
  · exact le_of_lt ((List.pairwise_append.mp hs).2.2 y hy x List.mem_cons_self)
  · rw [List.mem_singleton.mp hy]

end FlatSet
