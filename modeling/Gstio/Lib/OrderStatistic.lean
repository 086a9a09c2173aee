import Mathlib

/-!
# Order statistics by counting

For a total preorder `r`, the element at index `k` of a sorted list is above `x` exactly when at most `k` elements
of the list are not above `x` (`rel_getElem_iff_countP`). A sort keeps the counts, so the `k`-th smallest element
of any list is read off counts over the list itself (`rel_getElem_insertionSort_iff`), and it does not go down
when the list changes so that no more elements lie below it (`rel_getElem_insertionSort_of_countP_le`): the
argument for a quantile of values that only ever rise.
-/

namespace List

variable {α : Type} {r : α → α → Prop} [DecidableRel r] [Std.Total r] [IsTrans α r]

omit [DecidableRel r] [IsTrans α r] in
theorem rel_refl_of_total (a : α) : r a a := (total_of r a a).elim id id

omit [DecidableRel r] [IsTrans α r] in
/-- A sorted list is ordered by index. -/
theorem Pairwise.rel_getElem_of_le {s : List α} (hs : s.Pairwise r) {i j : Nat} (hij : i ≤ j) (hi : i < s.length)
    (hj : j < s.length) : r s[i] s[j] := by
  rcases Nat.lt_or_eq_of_le hij with hlt | rfl
  · exact List.pairwise_iff_getElem.mp hs i j hi hj hlt
  · exact rel_refl_of_total _

/-- In a sorted list, the element at `k` is above `x` exactly when at most `k` elements are not. -/
theorem rel_getElem_iff_countP {s : List α} (hs : s.Pairwise r) {k : Nat} (hk : k < s.length) (x : α) :
    r x s[k] ↔ s.countP (fun y => ¬ r x y) ≤ k := by
  constructor
  · intro hx
    -- from `k` on every element is above `s[k]`, hence above `x`
    have hdrop : (s.drop k).countP (fun y => ¬ r x y) = 0 := by
      rw [List.countP_eq_zero]
      intro y hy
      obtain ⟨j, hj, rfl⟩ := List.getElem_of_mem hy
      rw [List.getElem_drop, decide_eq_true_eq, not_not]
      rw [List.length_drop] at hj
      exact trans_of r hx (hs.rel_getElem_of_le (Nat.le_add_right k j) hk (by omega))
    have hsplit : s.countP (fun y => ¬ r x y) =
        (s.take k).countP (fun y => ¬ r x y) + (s.drop k).countP (fun y => ¬ r x y) := by
      rw [← List.countP_append, List.take_append_drop]
    rw [hsplit, hdrop, Nat.add_zero]
    exact List.countP_le_length.trans (List.length_take_le k s)
  · intro hc
    by_contra hx
    -- up to `k` every element is below `s[k]`, hence not above `x`
    have htake : (s.take (k + 1)).countP (fun y => ¬ r x y) = k + 1 := by
      rw [List.countP_eq_length.mpr, List.length_take, Nat.min_eq_left hk]
      intro y hy
      obtain ⟨j, hj, rfl⟩ := List.getElem_of_mem hy
      rw [List.length_take] at hj
      rw [List.getElem_take, decide_eq_true_eq]
      exact fun hxj => hx (trans_of r hxj (hs.rel_getElem_of_le (by omega) (by omega) hk))
    have hsub : (s.take (k + 1)).countP (fun y => ¬ r x y) ≤ s.countP (fun y => ¬ r x y) :=
      (List.take_sublist (k + 1) s).countP_le
    omega

/-- The `k`-th smallest element of `l` is above `x` exactly when at most `k` elements of `l` are not. -/
theorem rel_getElem_insertionSort_iff (l : List α) {k : Nat} (hk : k < (l.insertionSort r).length) (x : α) :
    r x (l.insertionSort r)[k] ↔ l.countP (fun y => ¬ r x y) ≤ k := by
  rw [rel_getElem_iff_countP (pairwise_insertionSort r l), (perm_insertionSort r l).countP_eq]

/-- **Monotonicity.** The `k`-th smallest element of `l` is below the `k'`-th smallest of `l'` for `k ≤ k'`, when
`l'` has no more elements than `l` that are not above it. -/
theorem rel_getElem_insertionSort_of_countP_le {l l' : List α} {k k' : Nat} (hk : k < (l.insertionSort r).length)
    (hk' : k' < (l'.insertionSort r).length) (hkk : k ≤ k')
    (hcount : l'.countP (fun y => ¬ r (l.insertionSort r)[k] y) ≤ l.countP (fun y => ¬ r (l.insertionSort r)[k] y)) :
    r (l.insertionSort r)[k] (l'.insertionSort r)[k'] := by
  have hself := (rel_getElem_insertionSort_iff l hk _).mp (rel_refl_of_total _)
  exact (rel_getElem_insertionSort_iff l' hk' _).mpr (by omega)

end List
