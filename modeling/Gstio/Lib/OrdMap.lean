import Mathlib

/-!
# Ordered finite maps

An `OrdMap K V` is a list of entries with strictly increasing keys, the shape of an ordered associative
container (a red-black tree map, or a set when `V = Unit`) once its iteration order is all that matters. Insertion
has emplace semantics: an existing entry is kept.

* `find?_insert`, `find?_erase`, `find?_set`: lookups through the updates;
* `ext`: a map is determined by its lookups;
* `sumBy_insert`, `sumBy_erase`, `sumBy_set`, `sumBy_set_erase`, `sumBy_le_sumBy`: a sum over the entries through the updates, and its
  monotonicity;
* `foldl_at`: a fold over the entries of per-key updates acts at each key by that key's entry alone, the
  induction rule for loops that walk a map.
-/

/-- A finite map as the list of its entries in increasing key order. -/
structure OrdMap (K : Type) [LinearOrder K] (V : Type) where
  entries : List (K × V)
  sorted : entries.Pairwise (fun a b => a.1 < b.1)

namespace OrdMap

variable {K V : Type} [LinearOrder K]

instance [DecidableEq V] : DecidableEq (OrdMap K V) := fun m₁ m₂ =>
  decidable_of_iff (m₁.entries = m₂.entries) (by cases m₁; cases m₂; simp)

/-- The empty map. -/
def empty : OrdMap K V := ⟨[], List.Pairwise.nil⟩

/-- The value at `k`. -/
def find? (m : OrdMap K V) (k : K) : Option V := m.entries.lookup k

/-- Whether `k` has an entry. -/
def contains (m : OrdMap K V) (k : K) : Bool := (m.find? k).isSome

/-- Insert `(k, v)` at its place unless `k` already has an entry. -/
def insertEntry (k : K) (v : V) : List (K × V) → List (K × V)
  | [] => [(k, v)]
  | e :: es => if k < e.1 then (k, v) :: e :: es else if k = e.1 then e :: es else e :: insertEntry k v es

theorem mem_insertEntry {k : K} {v : V} {e : K × V} :
    ∀ {l : List (K × V)}, e ∈ insertEntry k v l → e = (k, v) ∨ e ∈ l
  | [], h => by simpa [insertEntry] using h
  | a :: l, h => by
    rw [insertEntry] at h
    split_ifs at h
    · exact List.mem_cons.mp h
    · exact .inr h
    · rcases List.mem_cons.mp h with rfl | h
      · exact .inr List.mem_cons_self
      · rcases mem_insertEntry h with h | h
        · exact .inl h
        · exact .inr (List.mem_cons_of_mem _ h)

theorem pairwise_insertEntry (k : K) (v : V) :
    ∀ {l : List (K × V)}, l.Pairwise (fun a b => a.1 < b.1) →
      (insertEntry k v l).Pairwise (fun a b => a.1 < b.1)
  | [], _ => List.pairwise_singleton _ _
  | a :: l, h => by
    rw [insertEntry]
    obtain ⟨ha, hl⟩ := List.pairwise_cons.mp h
    split_ifs with hlt heq
    · refine List.Pairwise.cons (fun b hb => ?_) h
      rcases List.mem_cons.mp hb with rfl | hb
      · exact hlt
      · exact hlt.trans (ha b hb)
    · exact h
    · refine List.Pairwise.cons (fun b hb => ?_) (pairwise_insertEntry k v hl)
      rcases mem_insertEntry hb with rfl | hb
      · exact lt_of_le_of_ne (not_lt.mp hlt) (Ne.symm heq)
      · exact ha b hb

/-- A key below every key of the list has no entry. -/
theorem lookup_eq_none_of_lt {k : K} {l : List (K × V)} (h : ∀ e ∈ l, k < e.1) : l.lookup k = none := by
  induction l with
  | nil => rfl
  | cons e l ih =>
    have hne : (k == e.1) = false := beq_false_of_ne (ne_of_lt (h e List.mem_cons_self))
    rw [List.lookup_cons, hne]
    exact ih fun e' he' => h e' (List.mem_cons_of_mem _ he')

theorem lookup_insertEntry (k x : K) (v : V) :
    ∀ {l : List (K × V)}, l.Pairwise (fun a b => a.1 < b.1) →
      (insertEntry k v l).lookup x = (l.lookup x).or (if x = k then some v else none)
  | [], _ => by
    by_cases hx : x = k
    · simp [insertEntry, hx]
    · simp [insertEntry, List.lookup_cons, hx, beq_false_of_ne hx]
  | (a, w) :: l, h => by
    obtain ⟨ha, hl⟩ := List.pairwise_cons.mp h
    by_cases hlt : k < a
    · -- `k` goes first: it is below every key of the list
      rw [insertEntry, if_pos hlt]
      by_cases hx : x = k
      · subst hx
        have hnone : ((a, w) :: l).lookup x = none := lookup_eq_none_of_lt fun e he =>
          (List.mem_cons.mp he).elim (fun h => h ▸ hlt) (fun he => hlt.trans (ha e he))
        simp [hnone]
      · simp [List.lookup_cons, hx, beq_false_of_ne hx]
    · by_cases heq : k = a
      · -- `k` has an entry: nothing changes
        subst heq
        rw [insertEntry, if_neg hlt, if_pos rfl]
        by_cases hx : x = k <;> simp [List.lookup_cons, hx]
      · rw [insertEntry, if_neg hlt, if_neg heq, List.lookup_cons, List.lookup_cons, lookup_insertEntry k x v hl]
        by_cases hxa : x = a
        · simp [hxa]
        · simp [beq_false_of_ne hxa]

/-- Emplace `(k, v)`: unchanged when `k` already has an entry. -/
def insert (m : OrdMap K V) (k : K) (v : V) : OrdMap K V :=
  ⟨insertEntry k v m.entries, pairwise_insertEntry k v m.sorted⟩

/-- Remove the entry of `k`. -/
def erase (m : OrdMap K V) (k : K) : OrdMap K V :=
  ⟨m.entries.filter (fun e => e.1 ≠ k), m.sorted.filter _⟩

/-- Insert `(k, v)`, replacing the entry of `k`: an assignment through `operator[]`. -/
def set (m : OrdMap K V) (k : K) (v : V) : OrdMap K V := (m.erase k).insert k v

/-! ## Lookups -/

@[simp] theorem find?_empty (k : K) : (empty : OrdMap K V).find? k = none := rfl

@[simp] theorem find?_insert (m : OrdMap K V) (k x : K) (v : V) :
    (m.insert k v).find? x = (m.find? x).or (if x = k then some v else none) :=
  lookup_insertEntry k x v m.sorted

theorem lookup_filter_ne (k x : K) : ∀ l : List (K × V),
    (l.filter (fun e => e.1 ≠ k)).lookup x = if x = k then none else l.lookup x
  | [] => by simp
  | (b, w) :: l => by
    by_cases hbk : b = k
    · subst hbk
      rw [List.filter_cons_of_neg (by simp), lookup_filter_ne b x l]
      by_cases hx : x = b
      · simp [hx]
      · rw [if_neg hx, if_neg hx, List.lookup_cons, beq_false_of_ne hx]
    · rw [List.filter_cons_of_pos (by simpa using hbk), List.lookup_cons, List.lookup_cons,
        lookup_filter_ne k x l]
      by_cases hxb : x = b
      · subst hxb
        simp [hbk]
      · simp [beq_false_of_ne hxb]

@[simp] theorem find?_erase (m : OrdMap K V) (k x : K) :
    (m.erase k).find? x = if x = k then none else m.find? x :=
  lookup_filter_ne k x m.entries

@[simp] theorem find?_set (m : OrdMap K V) (k x : K) (v : V) :
    (m.set k v).find? x = if x = k then some v else m.find? x := by
  by_cases hx : x = k <;> simp [set, hx]

/-- A key keeps its entry under `insert`; the inserted key gets one only when it had none. -/
theorem find?_insert_eq_some {m : OrdMap K V} {k x : K} {v w : V} :
    (m.insert k v).find? x = some w ↔ m.find? x = some w ∨ m.find? x = none ∧ x = k ∧ v = w := by
  rw [find?_insert]
  cases hx : m.find? x with
  | some u => simp
  | none => by_cases hxk : x = k <;> simp [hxk]

@[simp] theorem contains_insert (m : OrdMap K V) (k x : K) (v : V) :
    (m.insert k v).contains x = (m.contains x || decide (x = k)) := by
  by_cases hx : x = k <;> simp [contains, hx]

@[simp] theorem contains_erase (m : OrdMap K V) (k x : K) :
    (m.erase k).contains x = if x = k then false else m.contains x := by
  by_cases hx : x = k <;> simp [contains, hx]

theorem nodup_keys (m : OrdMap K V) : (m.entries.map Prod.fst).Nodup :=
  List.pairwise_map.mpr (m.sorted.imp ne_of_lt)

theorem mem_entries_iff (m : OrdMap K V) (k : K) (v : V) : (k, v) ∈ m.entries ↔ m.find? k = some v := by
  have hnd := List.nodup_iff_pairwise_ne.mp (nodup_keys m)
  rw [find?, List.lookup_eq_some_iff]
  constructor
  · intro h
    obtain ⟨l₁, l₂, hl⟩ := List.append_of_mem h
    refine ⟨l₁, l₂, hl, fun p hp => ?_⟩
    rw [hl, List.map_append, List.map_cons] at hnd
    have := List.pairwise_append.mp hnd
    exact bne_iff_ne.mpr (Ne.symm (this.2.2 p.1 (List.mem_map_of_mem hp) k List.mem_cons_self))
  · rintro ⟨l₁, l₂, hl, -⟩
    rw [hl]
    exact List.mem_append_right _ List.mem_cons_self

/-- **Extensionality.** A map is determined by its lookups. -/
theorem ext {m₁ m₂ : OrdMap K V} (h : ∀ k, m₁.find? k = m₂.find? k) : m₁ = m₂ := by
  have hmem : ∀ e, e ∈ m₁.entries ↔ e ∈ m₂.entries := fun ⟨k, v⟩ => by
    rw [mem_entries_iff, mem_entries_iff, h]
  have hnd : ∀ m : OrdMap K V, m.entries.Nodup := fun m =>
    m.sorted.imp fun hlt heq => ne_of_lt hlt (congrArg Prod.fst heq)
  have heq : m₁.entries = m₂.entries :=
    List.Perm.eq_of_pairwise (fun a b _ _ hab hba => absurd (hab.trans hba) (lt_irrefl _)) m₁.sorted m₂.sorted
      ((List.perm_ext_iff_of_nodup (hnd m₁) (hnd m₂)).mpr hmem)
  cases m₁
  cases m₂
  cases heq
  rfl

/-! ## Sums over a map -/

theorem perm_insertEntry (k : K) (v : V) :
    ∀ {l : List (K × V)}, (∀ e ∈ l, e.1 ≠ k) → (insertEntry k v l).Perm ((k, v) :: l)
  | [], _ => List.Perm.refl _
  | e :: l, h => by
    rw [insertEntry]
    split_ifs with hlt heq
    · exact List.Perm.refl _
    · exact absurd heq.symm (h e List.mem_cons_self)
    · exact ((perm_insertEntry k v fun e' he' => h e' (List.mem_cons_of_mem _ he')).cons e).trans
        (List.Perm.swap _ _ _)

/-- Inserting at a key without an entry adds the entry. -/
theorem perm_insert {m : OrdMap K V} {k : K} (h : m.find? k = none) (v : V) :
    (m.insert k v).entries.Perm ((k, v) :: m.entries) :=
  perm_insertEntry k v fun e he hk => by
    have hfound : m.find? e.1 = some e.2 := (mem_entries_iff m e.1 e.2).mp he
    rw [hk, h] at hfound
    simp at hfound

/-- Assigning a key puts its entry in place of the old one, if any. -/
theorem perm_set (m : OrdMap K V) (k : K) (v : V) : (m.set k v).entries.Perm ((k, v) :: (m.erase k).entries) :=
  perm_insert (by simp) v

theorem erase_sublist (m : OrdMap K V) (k : K) : (m.erase k).entries.Sublist m.entries := List.filter_sublist

/-- Erasing a key with an entry takes that entry out. -/
theorem perm_erase {m : OrdMap K V} {k : K} {v : V} (h : m.find? k = some v) :
    m.entries.Perm ((k, v) :: (m.erase k).entries) := by
  have hnd : ∀ m : OrdMap K V, m.entries.Nodup := fun m =>
    m.sorted.imp fun hlt heq => ne_of_lt hlt (congrArg Prod.fst heq)
  have hfresh : (k, v) ∉ (m.erase k).entries := fun hm => by
    rw [mem_entries_iff, find?_erase, if_pos rfl] at hm
    simp at hm
  refine (List.perm_ext_iff_of_nodup (hnd m) (List.nodup_cons.mpr ⟨hfresh, hnd _⟩)).mpr fun ⟨x, w⟩ => ?_
  rw [List.mem_cons, mem_entries_iff, mem_entries_iff, find?_erase]
  by_cases hx : x = k
  · subst hx
    simp [h, eq_comm]
  · simp [hx]

/-- Erasing a key takes out at most one entry. -/
theorem length_le_length_erase_add_one (m : OrdMap K V) (k : K) :
    m.entries.length ≤ (m.erase k).entries.length + 1 := by
  cases h : m.find? k with
  | some v => exact Nat.le_of_eq ((perm_erase h).length_eq.trans List.length_cons)
  | none =>
    have hkeep : (m.erase k).entries = m.entries := List.filter_eq_self.mpr fun e he => by
      have hfound : m.find? e.1 = some e.2 := (mem_entries_iff m e.1 e.2).mp he
      refine decide_eq_true fun hek => ?_
      rw [hek, h] at hfound
      cases hfound
    rw [hkeep]
    exact Nat.le_succ _

/-- The sum of `g` over the entries. -/
def sumBy (g : K → V → Nat) (m : OrdMap K V) : Nat := (m.entries.map fun e => g e.1 e.2).sum

theorem sumBy_insert (g : K → V → Nat) {m : OrdMap K V} {k : K} (h : m.find? k = none) (v : V) :
    (m.insert k v).sumBy g = g k v + m.sumBy g := by
  unfold sumBy
  rw [((perm_insert h v).map _).sum_nat, List.map_cons, List.sum_cons]

theorem sumBy_erase (g : K → V → Nat) {m : OrdMap K V} {k : K} {v : V} (h : m.find? k = some v) :
    m.sumBy g = g k v + (m.erase k).sumBy g := by
  unfold sumBy
  rw [((perm_erase h).map _).sum_nat, List.map_cons, List.sum_cons]

/-- Setting the value of a key with an entry moves the sum by the difference. -/
theorem sumBy_set (g : K → V → Nat) {m : OrdMap K V} {k : K} {v : V} (h : m.find? k = some v) (w : V) :
    ((m.erase k).insert k w).sumBy g + g k v = m.sumBy g + g k w := by
  have herase := sumBy_erase g h
  have hinsert := sumBy_insert g (show (m.erase k).find? k = none by simp) w
  omega

/-- Setting one key and then erasing another. -/
theorem sumBy_set_erase (g : K → V → Nat) {m : OrdMap K V} {k j : K} {v u : V} (hk : m.find? k = some v)
    (hj : m.find? j = some u) (hne : k ≠ j) (w : V) :
    (((m.erase k).insert k w).erase j).sumBy g + g k v + g j u = m.sumBy g + g k w := by
  have hset := sumBy_set g hk w
  have hj' : ((m.erase k).insert k w).find? j = some u := by simp [hne.symm, hj]
  have herase := sumBy_erase g hj'
  omega

@[simp] theorem sumBy_empty (g : K → V → Nat) : (empty : OrdMap K V).sumBy g = 0 := rfl

theorem sumBy_le_sumBy {g g' : K → V → Nat} (h : ∀ k v, g k v ≤ g' k v) (m : OrdMap K V) :
    m.sumBy g ≤ m.sumBy g' := by
  unfold sumBy
  induction m.entries with
  | nil => exact Nat.le_refl 0
  | cons e l ih =>
    rw [List.map_cons, List.map_cons, List.sum_cons, List.sum_cons]
    exact Nat.add_le_add (h e.1 e.2) ih

theorem sumBy_eq_zero_iff {g : K → V → Nat} {m : OrdMap K V} :
    m.sumBy g = 0 ↔ ∀ k v, m.find? k = some v → g k v = 0 := by
  simp only [sumBy, List.sum_eq_zero_iff_forall_eq_nat, List.mem_map, Prod.exists, ← mem_entries_iff]
  constructor
  · intro h k v hkv
    exact h _ ⟨k, v, hkv, rfl⟩
  · rintro h _ ⟨k, v, hkv, rfl⟩
    exact h k v hkv

/-! ## Loops over a map -/

theorem lookup_foldl_at {α β : Type} (view : α → K → β) (f : α → K × V → α) (g : K → V → β → β)
    (hf : ∀ a e y, view (f a e) y = if y = e.1 then g e.1 e.2 (view a y) else view a y) (y : K) :
    ∀ (l : List (K × V)) (a : α), l.Pairwise (fun a b => a.1 < b.1) →
      view (l.foldl f a) y = ((l.lookup y).map fun v => g y v (view a y)).getD (view a y)
  | [], _, _ => rfl
  | e :: l, a, h => by
    obtain ⟨he, hl⟩ := List.pairwise_cons.mp h
    rw [List.foldl_cons, lookup_foldl_at view f g hf y l (f a e) hl, hf, List.lookup_cons]
    by_cases hy : y = e.1
    · -- `e` is the only entry of `y`: the rest of the fold leaves it alone
      have hnone : l.lookup y = none := lookup_eq_none_of_lt fun e' he' => hy ▸ he e' he'
      subst hy
      simp [hnone]
    · have hb : (y == e.1) = false := beq_false_of_ne hy
      simp [hy, hb]

/-- **Loop rule.** A fold of per-key updates over the entries of a map acts at each key `y` by the entry of `y`
alone, or not at all. -/
theorem foldl_at {α β : Type} (view : α → K → β) (f : α → K × V → α) (g : K → V → β → β)
    (hf : ∀ a e y, view (f a e) y = if y = e.1 then g e.1 e.2 (view a y) else view a y)
    (m : OrdMap K V) (a : α) (y : K) :
    view (m.entries.foldl f a) y = ((m.find? y).map fun v => g y v (view a y)).getD (view a y) :=
  lookup_foldl_at view f g hf y m.entries a m.sorted

end OrdMap
