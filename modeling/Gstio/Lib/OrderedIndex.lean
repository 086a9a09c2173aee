import Mathlib

/-!
# Ordered non-unique indices

A sequence ordered by a key, with ties in the order the index keeps them: an insert goes after the elements of
equal key (`List.orderedInsert` with the strict order of the keys), and a modify leaves the element where it is when
it still sorts between its neighbours and otherwise takes it out and inserts it again (`modify`).

* `Sorted.orderedInsert_lt`, `Sorted.modify`: both keep the sequence sorted;
* `perm_modify`: a modify replaces the element by its new value;
* `Sorted.le_of_mem_head`: the first element has the least key.
-/

namespace OrderedIndex

variable {α β : Type} [LinearOrder β] (key : α → β)

/-- The sequence is sorted by key. -/
def Sorted (l : List α) : Prop := l.Pairwise (fun a b => key a ≤ key b)

/-- The element between `pre` and `post` modified to `v`. -/
def modify (pre post : List α) (v : α) : List α :=
  if (pre.getLast?.all fun y => !decide (key v < key y)) && (post.head?.all fun z => !decide (key z < key v)) then
    pre ++ v :: post
  else
    (pre ++ post).orderedInsert (fun a b => key a < key b) v

variable {key}

theorem Sorted.sublist {l l' : List α} (h : Sorted key l) (hs : l'.Sublist l) : Sorted key l' :=
  List.Pairwise.sublist hs h

/-- An insert after the elements of equal key keeps the sequence sorted. -/
theorem Sorted.orderedInsert_lt (x : α) : ∀ {l : List α}, Sorted key l →
    Sorted key (l.orderedInsert (fun a b => key a < key b) x)
  | [], _ => List.pairwise_singleton _ x
  | y :: l, h => by
    have hy := List.pairwise_cons.mp h
    rw [List.orderedInsert_cons]
    split
    · rename_i hxy
      refine List.pairwise_cons.mpr ⟨fun z hz => ?_, h⟩
      rcases List.mem_cons.mp hz with rfl | hz
      · exact le_of_lt hxy
      · exact (le_of_lt hxy).trans (hy.1 z hz)
    · rename_i hxy
      refine List.pairwise_cons.mpr ⟨fun z hz => ?_, Sorted.orderedInsert_lt x hy.2⟩
      rcases List.mem_cons.mp ((List.perm_orderedInsert _ x l).subset hz) with rfl | hz
      · exact le_of_not_gt hxy
      · exact hy.1 z hz

/-- In a sorted sequence every element is at most the last. -/
theorem Sorted.le_getLast : ∀ {l : List α}, Sorted key l → ∀ {a y : α}, a ∈ l → l.getLast? = some y → key a ≤ key y
  | [], _, _, _, ha, _ => absurd ha List.not_mem_nil
  | [b], _, a, y, ha, hy => by
    rw [List.mem_singleton.mp ha]
    simp only [List.getLast?_singleton, Option.some.injEq] at hy
    rw [hy]
  | b :: c :: l, h, a, y, ha, hy => by
    have hb := List.pairwise_cons.mp h
    rw [List.getLast?_cons_cons] at hy
    have hy' : y ∈ c :: l := List.mem_of_getLast? hy
    rcases List.mem_cons.mp ha with rfl | ha
    · exact hb.1 y hy'
    · exact Sorted.le_getLast hb.2 ha hy

/-- The first element has the least key. -/
theorem Sorted.le_of_mem_head {a : α} {l : List α} (h : Sorted key (a :: l)) {b : α} (hb : b ∈ a :: l) :
    key a ≤ key b := by
  rcases List.mem_cons.mp hb with rfl | hb
  · exact le_refl _
  · exact (List.pairwise_cons.mp h).1 b hb

/-- A modify keeps the sequence sorted. -/
theorem Sorted.modify {pre post : List α} {x : α} (h : Sorted key (pre ++ x :: post)) (v : α) :
    Sorted key (OrderedIndex.modify key pre post v) := by
  have hrest : Sorted key (pre ++ post) := h.sublist (List.Sublist.append_left (List.sublist_cons_self x post) pre)
  unfold OrderedIndex.modify
  split
  · rename_i hin
    simp only [Bool.and_eq_true, Option.all_eq_true, Bool.not_eq_eq_eq_not, Bool.not_true,
      decide_eq_false_iff_not, not_lt] at hin
    obtain ⟨hprev, hnext⟩ := hin
    have hpre : Sorted key pre := h.sublist (List.sublist_append_left _ _)
    have hpost : Sorted key (x :: post) := h.sublist (List.sublist_append_right _ _)
    refine List.pairwise_append.mpr ⟨hpre, List.pairwise_cons.mpr ⟨fun z hz => ?_, ?_⟩, fun a ha b hb => ?_⟩
    · -- the next element is the least of `post`
      cases post with
      | nil => exact absurd hz List.not_mem_nil
      | cons z' post =>
        have hz' : Sorted key (z' :: post) := (List.pairwise_cons.mp hpost).2
        exact (hnext z' rfl).trans (hz'.le_of_mem_head hz)
    · exact (List.pairwise_cons.mp hpost).2
    · -- the previous element is the greatest of `pre`
      obtain ⟨y, hy⟩ := Option.isSome_iff_exists.mp (List.getLast?_isSome.mpr (List.ne_nil_of_mem ha))
      have hay := hpre.le_getLast ha hy
      rcases List.mem_cons.mp hb with rfl | hb
      · exact hay.trans (hprev y hy)
      · exact (List.pairwise_append.mp h).2.2 a ha b (List.mem_cons_of_mem x hb)
  · exact hrest.orderedInsert_lt v

/-- A modify replaces the element by its new value. -/
theorem perm_modify (pre post : List α) (v : α) : (OrderedIndex.modify key pre post v).Perm (v :: (pre ++ post)) := by
  unfold OrderedIndex.modify
  split
  · exact List.perm_middle
  · exact List.perm_orderedInsert _ v _

end OrderedIndex
