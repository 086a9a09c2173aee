import Mathlib

/-!
# Cursors of an ordered unique index

An index with unique keys, ordered by them (`ordered_unique` of `boost::multi_index`), is read through cursors:
`lower_bound` and `upper_bound` put one on the first element past a bound, `++` and `--` move it to the element of
next greater or next smaller key. Over the elements as a list `l` and their keys `key : α → β`, these are the least
or the greatest element among those that a predicate admits:

* `first key p l`: the element of least key that satisfies `p`, `none` when no element does (the end); with `p`
  "not below `k`" it is `lower_bound(k)`, with "above the key of `a`" it is the element after `a` (`next`);
* `last key p l`: the element of greatest key that satisfies `p` (`--` from the first element that does not);
* `first_spec`, `first_eq_of_spec`, `first_eq_none_iff` and their `last` forms: what they return, and that with
  unique keys only that element does;
* `walk_spec`: following `next` from `first key p l` as long as `q` holds, where `q` holds on an initial segment
  of the elements that `p` admits, visits exactly those elements of the segment, in increasing order.
-/

namespace OrderedCursor

variable {α β : Type} [LinearOrder β] (key : α → β)

/-- The element of least key among those of `l` that satisfy `p`. -/
def first (p : α → Bool) (l : List α) : Option α := (l.filter p).argmin key

/-- The element of greatest key among those of `l` that satisfy `p`. -/
def last (p : α → Bool) (l : List α) : Option α := (l.filter p).argmax key

/-- The element after `a`: the least key above that of `a`. -/
def next (l : List α) (a : α) : Option α := first key (fun b => decide (key a < key b)) l

/-- The element before `a`: the greatest key below that of `a`. -/
def prev (l : List α) (a : α) : Option α := last key (fun b => decide (key b < key a)) l

/-- Follow `next` from `o` as long as `q` holds, at most `n` steps. -/
def walk (q : α → Bool) (l : List α) : Nat → Option α → List α
  | 0, _ => []
  | _ + 1, none => []
  | n + 1, some a => if q a then a :: walk q l n (next key l a) else []

variable {key} {p q : α → Bool} {l : List α} {a : α}

/-! ## What `first` and `last` return -/

theorem first_spec (h : first key p l = some a) : a ∈ l ∧ p a = true ∧ ∀ b ∈ l, p b = true → key a ≤ key b := by
  have hm : a ∈ l.filter p := List.argmin_mem h
  refine ⟨(List.mem_filter.mp hm).1, (List.mem_filter.mp hm).2, fun b hb hpb => ?_⟩
  exact List.le_of_mem_argmin (List.mem_filter.mpr ⟨hb, hpb⟩) h

theorem first_eq_none_iff : first key p l = none ↔ ∀ b ∈ l, p b = false := by
  simp [first, List.argmin_eq_none, List.filter_eq_nil_iff]

theorem last_spec (h : last key p l = some a) : a ∈ l ∧ p a = true ∧ ∀ b ∈ l, p b = true → key b ≤ key a := by
  have hm : a ∈ l.filter p := List.argmax_mem h
  refine ⟨(List.mem_filter.mp hm).1, (List.mem_filter.mp hm).2, fun b hb hpb => ?_⟩
  exact le_of_not_gt (List.not_lt_of_mem_argmax (List.mem_filter.mpr ⟨hb, hpb⟩) h)

theorem last_eq_none_iff : last key p l = none ↔ ∀ b ∈ l, p b = false := by
  simp [last, List.argmax_eq_none, List.filter_eq_nil_iff]

omit [LinearOrder β] in
/-- With unique keys, two elements of `l` with the same key are the same. -/
theorem eq_of_key_eq (hk : (l.map key).Nodup) {b c : α} (hb : b ∈ l) (hc : c ∈ l) (h : key b = key c) : b = c :=
  List.inj_on_of_nodup_map hk hb hc h

/-- With unique keys, the element of least key that `p` admits is the one `first` returns. -/
theorem first_eq_of_spec (hk : (l.map key).Nodup) (ha : a ∈ l) (hpa : p a = true)
    (hleast : ∀ b ∈ l, p b = true → key a ≤ key b) : first key p l = some a := by
  cases h : first key p l with
  | none => exact absurd hpa (by rw [first_eq_none_iff.mp h a ha]; decide)
  | some a' =>
    obtain ⟨ha', hpa', hleast'⟩ := first_spec h
    have heq : key a' = key a := le_antisymm (hleast' a ha hpa) (hleast a' ha' hpa')
    rw [eq_of_key_eq hk ha' ha heq]

/-- With unique keys, the element of greatest key that `p` admits is the one `last` returns. -/
theorem last_eq_of_spec (hk : (l.map key).Nodup) (ha : a ∈ l) (hpa : p a = true)
    (hgreatest : ∀ b ∈ l, p b = true → key b ≤ key a) : last key p l = some a := by
  cases h : last key p l with
  | none => exact absurd hpa (by rw [last_eq_none_iff.mp h a ha]; decide)
  | some a' =>
    obtain ⟨ha', hpa', hgreatest'⟩ := last_spec h
    have heq : key a' = key a := le_antisymm (hgreatest a' ha' hpa') (hgreatest' a ha hpa)
    rw [eq_of_key_eq hk ha' ha heq]

/-! ## Next and previous -/

/-- The element before the one after `a` is `a`. -/
theorem prev_next (hk : (l.map key).Nodup) (ha : a ∈ l) {b : α} (hb : next key l a = some b) :
    prev key l b = some a := by
  obtain ⟨hbl, hab, hleast⟩ := first_spec hb
  have hab' : key a < key b := of_decide_eq_true hab
  refine last_eq_of_spec hk ha (decide_eq_true hab') fun c hc hcb => ?_
  -- an element strictly between `a` and `b` would have been the one after `a`
  by_contra hca
  have := hleast c hc (decide_eq_true (lt_of_not_ge hca))
  exact absurd (of_decide_eq_true hcb) (not_lt_of_ge this)

/-! ## Walks -/

/-- The elements admitted above `a` are fewer than those admitted from `a` on. -/
theorem length_filter_next_lt (hp : ∀ b ∈ l, ∀ c ∈ l, p b = true → key b ≤ key c → p c = true) (ha : a ∈ l)
    (hpa : p a = true) : (l.filter fun b => decide (key a < key b)).length < (l.filter p).length := by
  have hsub : (l.filter fun b => decide (key a < key b)) = (l.filter p).filter fun b => decide (key a < key b) := by
    rw [List.filter_filter]
    refine List.filter_congr fun b hb => ?_
    by_cases hab : key a < key b
    · simp [hab, hp a ha b hb hpa (le_of_lt hab)]
    · simp [hab]
  rw [hsub, List.length_filter_lt_length_iff_exists]
  exact ⟨a, List.mem_filter.mpr ⟨ha, hpa⟩, by simp⟩

/-- The elements from `b` on are among those above `a`, for `a` below `b`. -/
theorem length_filter_le_of_lt {a b : α} (h : key a < key b) :
    (l.filter fun c => decide (key b ≤ key c)).length ≤ (l.filter fun c => decide (key a < key c)).length :=
  (List.monotone_filter_right l fun c hc => by
    simp only [decide_eq_true_eq] at hc ⊢
    exact lt_of_lt_of_le h hc).length_le

/-- A walk stops at once where `q` fails. -/
theorem walk_eq_nil {n : Nat} {o : Option α} (h : ∀ b, o = some b → q b = false) : walk key q l n o = [] := by
  cases n with
  | zero => rfl
  | succ n =>
    cases o with
    | none => rfl
    | some b => simp [walk, h b rfl]

/-- **A walk visits an initial segment in order.** From the first element that `p` admits, `p` closed upwards,
following `next` while `q` holds visits exactly the elements that satisfy both, in increasing order of key, when
`q` holds on an initial segment of what `p` admits and the walk may take a step for each of them. -/
theorem walk_spec (hk : (l.map key).Nodup) :
    ∀ {n : Nat} {p : α → Bool}, (∀ b ∈ l, ∀ c ∈ l, p b = true → key b ≤ key c → p c = true) →
      (∀ b ∈ l, ∀ c ∈ l, p b = true → key b ≤ key c → q c = true → q b = true) → (l.filter p).length ≤ n →
      (walk key q l n (first key p l)).Pairwise (fun b c => key b < key c) ∧
        ∀ b, b ∈ walk key q l n (first key p l) ↔ b ∈ l ∧ p b = true ∧ q b = true
  | 0, p, _, _, hn => by
    -- no element is admitted, and the walk is empty
    have hnil : l.filter p = [] := List.eq_nil_of_length_eq_zero (Nat.le_zero.mp hn)
    refine ⟨List.Pairwise.nil, fun b => ?_⟩
    simp only [walk, List.not_mem_nil, false_iff, not_and]
    intro hb hpb
    exact absurd (List.mem_filter.mpr ⟨hb, hpb⟩) (by rw [hnil]; exact List.not_mem_nil)
  | n + 1, p, hp, hq, hn => by
    cases hf : first key p l with
    | none =>
      have hnone := first_eq_none_iff.mp hf
      refine ⟨List.Pairwise.nil, fun b => ?_⟩
      simp only [walk, List.not_mem_nil, false_iff, not_and]
      intro hb hpb
      exact absurd hpb (by rw [hnone b hb]; decide)
    | some a =>
      obtain ⟨ha, hpa, hleast⟩ := first_spec hf
      by_cases hqa : q a = true
      · -- the walk takes `a` and goes on from the next element, with `p` now "above `a`"
        have hlt := length_filter_next_lt hp ha hpa
        obtain ⟨hsorted, hmem⟩ := walk_spec hk (n := n) (p := fun b => decide (key a < key b))
          (fun b _ c _ hb hbc => decide_eq_true (lt_of_lt_of_le (of_decide_eq_true hb) hbc))
          (fun b hb c hc hab hbc hqc => hq b hb c hc (hp a ha b hb hpa (le_of_lt (of_decide_eq_true hab))) hbc hqc)
          (by omega)
        simp only [walk, hqa, if_true, next]
        refine ⟨List.pairwise_cons.mpr ⟨fun c hc => of_decide_eq_true ((hmem c).mp hc).2.1, hsorted⟩, fun b => ?_⟩
        rw [List.mem_cons, hmem]
        constructor
        · rintro (rfl | ⟨hb, hab, hqb⟩)
          · exact ⟨ha, hpa, hqa⟩
          · exact ⟨hb, hp a ha b hb hpa (le_of_lt (of_decide_eq_true hab)), hqb⟩
        · rintro ⟨hb, hpb, hqb⟩
          rcases lt_or_eq_of_le (hleast b hb hpb) with hab | hab
          · exact .inr ⟨hb, decide_eq_true hab, hqb⟩
          · exact .inl (eq_of_key_eq hk hb ha hab.symm)
      · -- `q` fails at the first admitted element, so it fails at every admitted one
        simp only [walk, hqa, Bool.false_eq_true, if_false]
        refine ⟨List.Pairwise.nil, fun b => ?_⟩
        simp only [List.not_mem_nil, false_iff, not_and]
        intro hb hpb hqb
        exact hqa (hq a ha b hb hpa (hleast b hb hpb) hqb)

end OrderedCursor
