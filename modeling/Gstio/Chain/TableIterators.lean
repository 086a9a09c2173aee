import Mathlib
import Gstio.Chain.ApplyContext
import Gstio.Chain.IteratorCache
import Gstio.Lib.OrderedCursor
import Gstio.Softfloat.Compare

/-!
# Iterating over contract tables

The rows of all contract tables share one index per object type, ordered by table first: `by_scope_primary`
orders `key_value_object`s by `(t_id, primary_key)`, `by_secondary` orders the objects of a secondary index by
`(t_id, secondary_key, primary_key)`, the secondary keys by the comparator of their kind (`f64_lt` and `f128_lt`
for the floating-point ones). A contract reads them through iterators of the `iterator_cache`: the `find`,
`lowerbound` and `upperbound` calls put a cursor on a row of the table or on the table's end iterator, `next` and
`previous` move it. All of them are one computation over the index, whatever the object and the order (`boundAt`,
`findAt`, `nextAt`, `previousAt`), which `db_lowerbound_i64` and the members of `generic_index` apply to their own
index and bound.

* `nextAt_of_get`, `previousAt_of_get`: one step from the iterator of a row;
* `walkAt_walk`, `boundAt_walk`: a contract's loop of `next` calls from a row, or from a bound, is the walk of
  `OrderedCursor` over the index, and ends on the table's end iterator;
* `previousAt_nextAt`: `previous` takes back what `next` did;
* `runReads_consistent`: every run of reads from the cache of a new `apply_context` keeps the cache consistent
  with the index;
* `lowerbound_next_walk`, `previous_next_i64`, `previous_end_i64`, `upperbound_i64_spec`: the `db_*_i64` calls;
* `SecondaryKind.keyLess_iff`: on keys that are not NaN, the comparator of each kind is the order of the keys'
  places (`keyRank`), the sign-magnitude rank of the bits for a floating-point key;
* `lowerbound_next_secondary_walk`: the same walk over a secondary index, in the order of `by_secondary`.
-/

namespace Gstio.Chain

open Chainbase OrderedCursor

/-! ## Cursors over one index -/

section Cursor

variable {V β : Type} [LinearOrder β] (objs : OrdMap Nat V) (tId : V → Nat) (key : Nat × V → β)

/-- The object behind a pointer of the cache. -/
def objectAt (id : Nat) : Except CacheError V :=
  match objs.find? id with
  | some v => .ok v
  | none => .error (.undefinedBehavior "the cache points to an object that is gone")

/-- A cursor of table `tab` on the first object of the index that `p` admits (`lower_bound`, `upper_bound`), or
the table's end iterator when there is none or it belongs to a later table. -/
def boundAt (c : IteratorCache) (tab : Nat) (p : Nat × V → Bool) : Int × IteratorCache :=
  let (ei, c) := c.cacheTable tab
  match (first key p objs.entries).filter (fun o => decide (tId o.2 = tab)) with
  | some o => c.add o.1
  | none => (ei, c)

/-- A cursor of table `tab` on the object of key `k`, or the table's end iterator (`find`). -/
def findAt (c : IteratorCache) (tab : Nat) (k : β) : Int × IteratorCache :=
  let (ei, c) := c.cacheTable tab
  match first key (fun o => decide (key o = k)) objs.entries with
  | some o => c.add o.1
  | none => (ei, c)

/-- `++` from an iterator: the next object of the index, or the end iterator of the object's table when the next
object is in a later table or there is none. An end iterator goes to `-1`. -/
def nextAt (c : IteratorCache) (iterator : Int) : Except CacheError (Int × IteratorCache) :=
  if iterator < -1 then .ok (-1, c) else do
    let id ← c.get iterator
    let obj ← objectAt objs id
    match (next key objs.entries (id, obj)).filter (fun o => decide (tId o.2 = tId obj)) with
    | some o => pure (c.add o.1)
    | none => do
      let ei ← c.getEndIteratorByTableId (tId obj)
      pure (ei, c)

/-- `--` from an iterator: the previous object of the index when it is in the same table, `-1` otherwise; from a
table's end iterator, the last object of the table (`upper_bound` of the table, then `--`). -/
def previousAt (c : IteratorCache) (iterator : Int) : Except CacheError (Int × IteratorCache) :=
  if iterator < -1 then do
    let tab ← c.findTableByEndIterator iterator
    match tab with
    | none => .error (.invalidTableIterator "not a valid end iterator")
    | some tab =>
      match (last key (fun o => decide (tId o.2 ≤ tab)) objs.entries).filter (fun o => decide (tId o.2 = tab)) with
      | some o => pure (c.add o.1)
      | none => pure (-1, c)
  else do
    let id ← c.get iterator
    let obj ← objectAt objs id
    match (prev key objs.entries (id, obj)).filter (fun o => decide (tId o.2 = tId obj)) with
    | some o => pure (c.add o.1)
    | none => pure (-1, c)

/-- A contract's loop over a table: read the object an iterator names, then step with `++`, until an end
iterator comes back; at most `fuel` rows. -/
def walkAt : Nat → IteratorCache → Int → Except CacheError (List (Nat × V) × Int × IteratorCache)
  | 0, c, it => .ok ([], it, c)
  | fuel + 1, c, it =>
    if it < 0 then .ok ([], it, c) else do
      let id ← c.get it
      let obj ← objectAt objs id
      let (it', c') ← nextAt objs tId key c it
      let (rows, e, c'') ← walkAt fuel c' it'
      pure ((id, obj) :: rows, e, c'')

/-- What the cache of an index keeps true: its two directions agree, and every object it names is in the index,
with its table cached. -/
structure Consistent (c : IteratorCache) : Prop where
  wellFormed : c.WellFormed
  named : ∀ (i id : Nat), c.iteratorToObject[i]? = some (some id) →
    ∃ v, objs.find? id = some v ∧ (c.tableCache.find? (tId v)).isSome

variable {objs tId key} {c : IteratorCache}

theorem objectAt_of_find {id : Nat} {v : V} (h : objs.find? id = some v) : objectAt objs id = .ok v := by
  simp [objectAt, h]

theorem objectAt_of_mem {o : Nat × V} (h : o ∈ objs.entries) : objectAt objs o.1 = .ok o.2 :=
  objectAt_of_find ((OrdMap.mem_entries_iff _ _ _).mp h)

theorem consistent_empty : Consistent objs tId IteratorCache.empty :=
  ⟨IteratorCache.wellFormed_empty, fun i id h => by simp [IteratorCache.empty] at h⟩

/-- The object an iterator names is in the index, with its table cached. -/
theorem Consistent.get (hc : Consistent objs tId c) {it : Int} {id : Nat} (h : c.get it = .ok id) :
    ∃ v, objs.find? id = some v ∧ ∃ ei, c.tableCache.find? (tId v) = some ei := by
  obtain ⟨v, hv, hei⟩ := hc.named _ id (IteratorCache.get_eq_ok.mp h).2
  exact ⟨v, hv, Option.isSome_iff_exists.mp hei⟩

theorem Consistent.add (hc : Consistent objs tId c) {o : Nat × V} (h : o ∈ objs.entries)
    (hei : (c.tableCache.find? (tId o.2)).isSome) : Consistent objs tId (c.add o.1).2 := by
  refine ⟨hc.wellFormed.add o.1, fun i id hi => ?_⟩
  rw [IteratorCache.tableCache_add]
  -- the object `add` names, or one the cache named before
  have hlive : (c.add o.1).2.Live fun id => ∃ v, objs.find? id = some v ∧ (c.tableCache.find? (tId v)).isSome :=
    IteratorCache.Live.add (fun i id hi => hc.named i id hi) ⟨o.2, (OrdMap.mem_entries_iff _ _ _).mp h, hei⟩
  exact hlive i id hi

theorem Consistent.cacheTable (hc : Consistent objs tId c) (t : Nat) : Consistent objs tId (c.cacheTable t).2 := by
  refine ⟨hc.wellFormed.cacheTable t, fun i id hi => ?_⟩
  rw [IteratorCache.iteratorToObject_cacheTable] at hi
  obtain ⟨v, hv, hei⟩ := hc.named i id hi
  obtain ⟨ei, hei⟩ := Option.isSome_iff_exists.mp hei
  exact ⟨v, hv, by rw [IteratorCache.find_cacheTable_of_find hei]; rfl⟩

theorem boundAt_eq (tab : Nat) (p : Nat × V → Bool) :
    boundAt objs tId key c tab p = match (first key p objs.entries).filter (fun o => decide (tId o.2 = tab)) with
      | some o => (c.cacheTable tab).2.add o.1
      | none => ((c.cacheTable tab).1, (c.cacheTable tab).2) := rfl

theorem findAt_eq (tab : Nat) (k : β) :
    findAt objs key c tab k = match first key (fun o => decide (key o = k)) objs.entries with
      | some o => (c.cacheTable tab).2.add o.1
      | none => ((c.cacheTable tab).1, (c.cacheTable tab).2) := rfl

theorem walkAt_of_neg {it : Int} (h : it < 0) : ∀ n, walkAt objs tId key n c it = .ok ([], it, c)
  | 0 => rfl
  | n + 1 => by simp [walkAt, h]

/-! ### One step -/

/-- `++` from the iterator of a row of a cached table. -/
theorem nextAt_of_get {it : Int} {id : Nat} {obj : V} {ei : Int} (hget : c.get it = .ok id)
    (hobj : objs.find? id = some obj) (hei : c.tableCache.find? (tId obj) = some ei) :
    nextAt objs tId key c it = .ok (match (next key objs.entries (id, obj)).filter
        (fun o => decide (tId o.2 = tId obj)) with
      | some o => c.add o.1
      | none => (ei, c)) := by
  have hnn := (IteratorCache.get_eq_ok.mp hget).1
  simp only [nextAt, show ¬ it < -1 by omega, if_false, hget, objectAt_of_find hobj, bind, Except.bind]
  split
  · rfl
  · simp [IteratorCache.getEndIteratorByTableId_of_find hei, pure, Except.pure]

/-- `--` from the iterator of a row. -/
theorem previousAt_of_get {it : Int} {id : Nat} {obj : V} (hget : c.get it = .ok id)
    (hobj : objs.find? id = some obj) :
    previousAt objs tId key c it = .ok (match (prev key objs.entries (id, obj)).filter
        (fun o => decide (tId o.2 = tId obj)) with
      | some o => c.add o.1
      | none => (-1, c)) := by
  have hnn := (IteratorCache.get_eq_ok.mp hget).1
  simp only [previousAt, show ¬ it < -1 by omega, if_false, hget, objectAt_of_find hobj, bind, Except.bind]
  split <;> rfl

/-- `--` from the end iterator of a cached table. -/
theorem previousAt_of_end (hw : c.WellFormed) {tab : Nat} {ei : Int} (hei : c.tableCache.find? tab = some ei) :
    previousAt objs tId key c ei = .ok (match (last key (fun o => decide (tId o.2 ≤ tab)) objs.entries).filter
        (fun o => decide (tId o.2 = tab)) with
      | some o => c.add o.1
      | none => (-1, c)) := by
  simp only [previousAt, hw.lt_of_find hei, if_true, hw.findTableByEndIterator_of_find hei, bind, Except.bind]
  split <;> rfl

/-! ### Walks -/

/-- In an index ordered by table first, a key at most another has a table at most the other's. -/
theorem tId_le_of_key_le (htab : ∀ x y : Nat × V, tId x.2 < tId y.2 → key x < key y) {x y : Nat × V}
    (h : key x ≤ key y) : tId x.2 ≤ tId y.2 :=
  le_of_not_gt fun hlt => absurd h (not_le.mpr (htab y x hlt))


/-- **The loop of a contract refines the walk of the index.** From the iterator of a row `a` of table `tab`, a loop
with a step for every row from `a` on returns the rows that the walk of `OrderedCursor` visits, and ends on the
table's end iterator. -/
theorem walkAt_walk {tab : Nat} {ei : Int} :
    ∀ (n : Nat) (c : IteratorCache) (it : Int) (a : Nat × V), Consistent objs tId c →
      c.tableCache.find? tab = some ei → a ∈ objs.entries → tId a.2 = tab → c.get it = .ok a.1 →
      (objs.entries.filter fun b => decide (key a ≤ key b)).length ≤ n →
      ∃ c', walkAt objs tId key n c it =
          .ok (walk key (fun b => decide (tId b.2 = tab)) objs.entries n (some a), ei, c') ∧
        Consistent objs tId c' ∧ c'.tableCache = c.tableCache
  | 0, c, it, a, _, _, ha, _, _, hn => by
    -- the row itself is counted
    have : 0 < (objs.entries.filter fun b => decide (key a ≤ key b)).length :=
      List.length_pos_of_mem (List.mem_filter.mpr ⟨ha, by simp⟩)
    omega
  | n + 1, c, it, a, hc, hei, ha, hta, hget, hn => by
    have hnn := (IteratorCache.get_eq_ok.mp hget).1
    have hstep := @nextAt_of_get V β _ objs tId key c it a.1 a.2 ei hget ((OrdMap.mem_entries_iff _ _ _).mp ha)
      (hta ▸ hei)
    have hq : decide (tId a.2 = tab) = true := decide_eq_true hta
    simp only [walkAt, show ¬ it < 0 by omega, if_false, hget, objectAt_of_mem ha, hstep, bind, Except.bind]
    simp only [walk, hq, if_true]
    -- the step goes to the next row of the table, or to the end iterator
    cases hnext : (next key objs.entries a).filter (fun o => decide (tId o.2 = tId a.2)) with
    | some b =>
      obtain ⟨hb, hbt⟩ := Option.filter_eq_some_iff.mp hnext
      obtain ⟨hbm, hab, -⟩ := first_spec hb
      have hbt' : tId b.2 = tab := (of_decide_eq_true hbt).trans hta
      have hcount : (objs.entries.filter fun c => decide (key b ≤ key c)).length ≤ n := by
        have h₁ := length_filter_le_of_lt (l := objs.entries) (of_decide_eq_true hab)
        have h₂ := length_filter_next_lt (p := fun c => decide (key a ≤ key c))
          (fun x _ y _ hx hxy => decide_eq_true (le_trans (of_decide_eq_true hx) hxy)) ha (by simp)
        omega
      obtain ⟨c', hrun, hc', htc⟩ := walkAt_walk n (c.add b.1).2 (c.add b.1).1 b
        (hc.add hbm (by rw [hbt', hei]; rfl)) (by rw [IteratorCache.tableCache_add]; exact hei) hbm hbt'
        (IteratorCache.get_add hc.wellFormed b.1) hcount
      refine ⟨c', ?_, hc', by rw [htc, IteratorCache.tableCache_add]⟩
      simp only [hrun, hb]
      rfl
    | none =>
      refine ⟨c, ?_, hc, rfl⟩
      have hend := @walkAt_of_neg V β _ objs tId key c ei (lt_trans (hc.wellFormed.lt_of_find hei) (by decide)) n
      have hnil : walk key (fun b => decide (tId b.2 = tab)) objs.entries n (next key objs.entries a) = [] := by
        refine walk_eq_nil fun b hb => ?_
        have := Option.filter_eq_none_iff.mp hnext b hb
        simpa [hta] using this
      simp only [hend, hnil]
      rfl

/-- **A loop from a bound.** From the cursor that a bound `p` gives in table `tab`, a loop with a step for every
object of the index returns the walk of `OrderedCursor` from the first object `p` admits, and ends on the table's
end iterator. -/
theorem boundAt_walk {c : IteratorCache} (hc : Consistent objs tId c) (tab : Nat) (p : Nat × V → Bool)
    {n : Nat} (hn : objs.entries.length ≤ n) :
    ∃ c', walkAt objs tId key n (boundAt objs tId key c tab p).2 (boundAt objs tId key c tab p).1 =
        .ok (walk key (fun b => decide (tId b.2 = tab)) objs.entries n (first key p objs.entries),
          (c.cacheTable tab).1, c') ∧
      Consistent objs tId c' ∧ c'.tableCache.find? tab = some (c.cacheTable tab).1 := by
  have hc₁ := hc.cacheTable tab
  have hei := IteratorCache.find_cacheTable (c := c) tab
  rw [boundAt_eq]
  cases hf : (first key p objs.entries).filter (fun o => decide (tId o.2 = tab)) with
  | some a =>
    obtain ⟨ha, hta⟩ := Option.filter_eq_some_iff.mp hf
    have ham := (first_spec ha).1
    have hcount : (objs.entries.filter fun b => decide (key a ≤ key b)).length ≤ n :=
      le_trans (List.length_filter_le _ _) hn
    have hat : tId a.2 = tab := of_decide_eq_true hta
    obtain ⟨c', hrun, hc', htc⟩ := walkAt_walk n ((c.cacheTable tab).2.add a.1).2
      ((c.cacheTable tab).2.add a.1).1 a (hc₁.add ham (by rw [hat, hei]; rfl))
      (by rw [IteratorCache.tableCache_add]; exact hei) ham hat (IteratorCache.get_add hc₁.wellFormed a.1) hcount
    refine ⟨c', ?_, hc', by rw [htc, IteratorCache.tableCache_add]; exact hei⟩
    simp only [hrun, ha]
  | none =>
    refine ⟨(c.cacheTable tab).2, ?_, hc₁, hei⟩
    have hnil : walk key (fun b => decide (tId b.2 = tab)) objs.entries n (first key p objs.entries) = [] := by
      refine walk_eq_nil fun b hb => ?_
      have := Option.filter_eq_none_iff.mp hf b hb
      simpa using this
    rw [hnil]
    exact walkAt_of_neg (hc₁.wellFormed.lt_of_find hei |>.trans (by decide)) n

/-- **A loop from a bound walks the table in order.** In an index with unique keys ordered by table first, from a
consistent cache, let `p` be a bound closed upwards that admits no object of a table before `tab`. A loop from the
cursor `p` gives in table `tab`, with a step for each object, returns exactly the objects of table `tab` that `p`
admits, in increasing order of key, and ends on the table's end iterator. -/
theorem boundAt_table_walk (hkeys : (objs.entries.map key).Nodup)
    (htab : ∀ x y : Nat × V, tId x.2 < tId y.2 → key x < key y) {c : IteratorCache} (hc : Consistent objs tId c)
    (tab : Nat) {p : Nat × V → Bool}
    (hup : ∀ b ∈ objs.entries, ∀ d ∈ objs.entries, p b = true → key b ≤ key d → p d = true)
    (hfrom : ∀ b, p b = true → tab ≤ tId b.2) :
    ∃ rows c', walkAt objs tId key objs.entries.length (boundAt objs tId key c tab p).2
        (boundAt objs tId key c tab p).1 = .ok (rows, (c.cacheTable tab).1, c') ∧
      c'.tableCache.find? tab = some (c.cacheTable tab).1 ∧ rows.Pairwise (fun a b => key a < key b) ∧
      ∀ o, o ∈ rows ↔ o ∈ objs.entries ∧ tId o.2 = tab ∧ p o = true := by
  obtain ⟨c', hrun, -, hei⟩ := @boundAt_walk V β _ objs tId key c hc tab p objs.entries.length (le_refl _)
  -- the objects of the table that `p` admits are an initial segment of what `p` admits
  have hseg : ∀ b ∈ objs.entries, ∀ d ∈ objs.entries, p b = true → key b ≤ key d →
      decide (tId d.2 = tab) = true → decide (tId b.2 = tab) = true := fun b _ d _ hb hbd hd => by
    have h₁ := hfrom b hb
    have h₂ := tId_le_of_key_le htab hbd
    simp only [decide_eq_true_eq] at hd ⊢
    omega
  obtain ⟨hsorted, hmem⟩ := walk_spec hkeys (q := fun b => decide (tId b.2 = tab)) (n := objs.entries.length)
    hup hseg (List.length_filter_le _ _)
  refine ⟨_, c', hrun, hei, hsorted, fun o => ?_⟩
  rw [hmem, decide_eq_true_eq]
  tauto

/-! ### Back and forth -/

/-- **`--` takes back `++`.** In an index with unique keys ordered by table first, from the iterator of a row,
`previous` of what `next` returns is the iterator of the row again, and the cache stays as `next` left it. -/
theorem previousAt_nextAt (hkeys : (objs.entries.map key).Nodup)
    (htab : ∀ x y : Nat × V, tId x.2 < tId y.2 → key x < key y) (hc : Consistent objs tId c) {it : Int} {id : Nat}
    (hget : c.get it = .ok id) :
    ∃ it' c', nextAt objs tId key c it = .ok (it', c') ∧ previousAt objs tId key c' it' = .ok (it, c') := by
  obtain ⟨obj, hobj, ei, hei⟩ := hc.get hget
  have hw := hc.wellFormed
  have hmem : (id, obj) ∈ objs.entries := (OrdMap.mem_entries_iff _ _ _).mpr hobj
  rw [nextAt_of_get hget hobj hei]
  cases hnext : (next key objs.entries (id, obj)).filter (fun o => decide (tId o.2 = tId obj)) with
  | some b =>
    -- `++` went to the next row of the table, and `--` comes back to the row
    obtain ⟨hb, hbt⟩ := Option.filter_eq_some_iff.mp hnext
    have hbm := (first_spec hb).1
    refine ⟨(c.add b.1).1, (c.add b.1).2, rfl, ?_⟩
    have hback : (prev key objs.entries b).filter (fun o => decide (tId o.2 = tId b.2)) = some (id, obj) := by
      rw [prev_next hkeys hmem hb, Option.filter_some, if_pos (decide_eq_true (of_decide_eq_true hbt).symm)]
    rw [previousAt_of_get (IteratorCache.get_add hw b.1) ((OrdMap.mem_entries_iff _ _ _).mp hbm), hback]
    exact congrArg Except.ok ((hw.add b.1).add_of_get (IteratorCache.get_add_of_get hget b.1))
  | none =>
    -- `++` went to the end iterator, and the row is the last of its table
    refine ⟨ei, c, rfl, ?_⟩
    have hlast : last key (fun o => decide (tId o.2 ≤ tId obj)) objs.entries = some (id, obj) := by
      refine last_eq_of_spec hkeys hmem (by simp) fun b hb hbt => le_of_not_gt fun hlt => ?_
      obtain ⟨b', hb'⟩ : ∃ b', next key objs.entries (id, obj) = some b' := by
        cases h : next key objs.entries (id, obj) with
        | none => exact absurd (first_eq_none_iff.mp h b hb) (by simp [hlt])
        | some b' => exact ⟨b', rfl⟩
      obtain ⟨-, hab', hleast⟩ := first_spec hb'
      have h₁ := tId_le_of_key_le htab (le_of_lt (of_decide_eq_true hab'))
      have h₂ := tId_le_of_key_le htab (hleast b hb (decide_eq_true hlt))
      have h₃ := Option.filter_eq_none_iff.mp hnext b' hb'
      simp only [decide_eq_true_eq] at h₃ hbt
      exact h₃ (le_antisymm (le_trans h₂ hbt) h₁)
    rw [previousAt_of_end hw hei, hlast, Option.filter_some, if_pos (decide_eq_true rfl)]
    exact congrArg Except.ok (hw.add_of_get hget)

/-! ### Every read keeps the cache consistent -/

theorem Consistent.boundAt (hc : Consistent objs tId c) (tab : Nat) (p : Nat × V → Bool) :
    Consistent objs tId (boundAt objs tId key c tab p).2 := by
  have hc₁ := hc.cacheTable tab
  rw [boundAt_eq]
  cases hf : (first key p objs.entries).filter (fun o => decide (tId o.2 = tab)) with
  | some o =>
    obtain ⟨ho, hot⟩ := Option.filter_eq_some_iff.mp hf
    exact hc₁.add (first_spec ho).1 (by rw [of_decide_eq_true hot, IteratorCache.find_cacheTable]; rfl)
  | none => exact hc₁

/-- `find` keeps the cache consistent when only rows of the table have the key it looks for. -/
theorem Consistent.findAt (hc : Consistent objs tId c) {tab : Nat} {k : β}
    (hk : ∀ o ∈ objs.entries, key o = k → tId o.2 = tab) : Consistent objs tId (findAt objs key c tab k).2 := by
  have hc₁ := hc.cacheTable tab
  rw [findAt_eq]
  cases hf : first key (fun o => decide (key o = k)) objs.entries with
  | some o =>
    obtain ⟨hom, hok, -⟩ := first_spec hf
    exact hc₁.add hom (by rw [hk o hom (of_decide_eq_true hok), IteratorCache.find_cacheTable]; rfl)
  | none => exact hc₁

/-- A read that hands out the iterator of a row leaves the cache of `add`. -/
theorem snd_eq_of_pure_add {o : Nat} {it' : Int} {c' : IteratorCache}
    (h : (pure (c.add o) : Except CacheError (Int × IteratorCache)) = .ok (it', c')) : c' = (c.add o).2 := by
  simp only [pure, Except.pure, Except.ok.injEq] at h
  rw [h]

theorem Consistent.nextAt (hc : Consistent objs tId c) {it it' : Int} {c' : IteratorCache}
    (h : nextAt objs tId key c it = .ok (it', c')) : Consistent objs tId c' := by
  by_cases hneg : it < -1
  · simp only [Gstio.Chain.nextAt, hneg, if_true, Except.ok.injEq, Prod.mk.injEq] at h
    exact h.2 ▸ hc
  · cases hget : c.get it with
    | error e =>
      simp [Gstio.Chain.nextAt, hneg, hget, bind, Except.bind] at h
    | ok id =>
      obtain ⟨obj, hobj, ei, hei⟩ := hc.get hget
      rw [nextAt_of_get hget hobj hei] at h
      split at h
      · rename_i o ho
        obtain ⟨ho, hot⟩ := Option.filter_eq_some_iff.mp ho
        rw [show c' = (c.add o.1).2 from (congrArg Prod.snd (Except.ok.inj h)).symm]
        exact hc.add (first_spec ho).1 (by rw [of_decide_eq_true hot, hei]; rfl)
      · rw [show c' = c from (congrArg Prod.snd (Except.ok.inj h)).symm]
        exact hc

theorem Consistent.previousAt (hc : Consistent objs tId c) {it it' : Int} {c' : IteratorCache}
    (h : previousAt objs tId key c it = .ok (it', c')) : Consistent objs tId c' := by
  by_cases hneg : it < -1
  · -- from an end iterator, the last row of its table
    simp only [Gstio.Chain.previousAt, hneg, if_true, bind, Except.bind] at h
    cases htab : c.findTableByEndIterator it with
    | error e => rw [htab] at h; cases h
    | ok tab =>
      rw [htab] at h
      cases tab with
      | none => cases h
      | some t =>
        have hcached := hc.wellFormed.find_of_findTableByEndIterator htab
        simp only at h
        split at h
        · rename_i o ho
          obtain ⟨ho, hot⟩ := Option.filter_eq_some_iff.mp ho
          rw [snd_eq_of_pure_add h]
          exact hc.add (last_spec ho).1 (by rw [of_decide_eq_true hot]; exact hcached)
        · simp only [pure, Except.pure, Except.ok.injEq, Prod.mk.injEq] at h
          exact h.2 ▸ hc
  · cases hget : c.get it with
    | error e =>
      simp [Gstio.Chain.previousAt, hneg, hget, bind, Except.bind] at h
    | ok id =>
      obtain ⟨obj, hobj, ei, hei⟩ := hc.get hget
      rw [previousAt_of_get hget hobj] at h
      split at h
      · rename_i o ho
        obtain ⟨ho, hot⟩ := Option.filter_eq_some_iff.mp ho
        rw [show c' = (c.add o.1).2 from (congrArg Prod.snd (Except.ok.inj h)).symm]
        exact hc.add (last_spec ho).1 (by rw [of_decide_eq_true hot, hei]; rfl)
      · rw [show c' = c from (congrArg Prod.snd (Except.ok.inj h)).symm]
        exact hc

end Cursor


/-! ## The key-value index: `db_*_i64` -/

/-- `by_scope_primary`: the table, then the primary key. -/
def kvKey (o : Nat × KeyValueObject) : Lex (Nat × Nat) := toLex (o.2.tId, o.2.primaryKey.toNat)

namespace ApplyState

variable (s : ApplyState) (c : IteratorCache)

/-- `db_find_i64`. -/
def dbFindI64 (code scope table : Name) (id : UInt64) : Int × IteratorCache :=
  match s.findTable code scope table with
  | none => (-1, c)
  | some (tab, _) => findAt s.keyValues.indices kvKey c tab (toLex (tab, id.toNat))

/-- `db_lowerbound_i64`: the first row of the table whose primary key is not below `id`. -/
def dbLowerboundI64 (code scope table : Name) (id : UInt64) : Int × IteratorCache :=
  match s.findTable code scope table with
  | none => (-1, c)
  | some (tab, _) => boundAt s.keyValues.indices (·.tId) kvKey c tab fun o => decide (toLex (tab, id.toNat) ≤ kvKey o)

/-- `db_upperbound_i64`: the first row of the table whose primary key is above `id`. -/
def dbUpperboundI64 (code scope table : Name) (id : UInt64) : Int × IteratorCache :=
  match s.findTable code scope table with
  | none => (-1, c)
  | some (tab, _) => boundAt s.keyValues.indices (·.tId) kvKey c tab fun o => decide (toLex (tab, id.toNat) < kvKey o)

/-- `db_end_i64`. -/
def dbEndI64 (code scope table : Name) : Int × IteratorCache :=
  match s.findTable code scope table with
  | none => (-1, c)
  | some (tab, _) => c.cacheTable tab

/-- `db_next_i64`. -/
def dbNextI64 (iterator : Int) : Except CacheError (Int × IteratorCache) :=
  nextAt s.keyValues.indices (·.tId) kvKey c iterator

/-- `db_previous_i64`. -/
def dbPreviousI64 (iterator : Int) : Except CacheError (Int × IteratorCache) :=
  previousAt s.keyValues.indices (·.tId) kvKey c iterator

/-- `db_get_i64`: the size of the value for an empty buffer, else the bytes that fit. -/
def dbGetI64 (iterator : Int) (bufferSize : Nat) : Except CacheError (Nat × List UInt8) := do
  let id ← c.get iterator
  let obj ← objectAt s.keyValues.indices id
  if bufferSize = 0 then pure (obj.value.length, [])
  else
    let copySize := min bufferSize obj.value.length
    pure (copySize, obj.value.take copySize)

/-- A contract's loop over a table with `db_get_i64` and `db_next_i64`. -/
def walkI64 (fuel : Nat) (it : Int) : Except CacheError (List (Nat × KeyValueObject) × Int × IteratorCache) :=
  walkAt s.keyValues.indices (·.tId) kvKey fuel c it

end ApplyState

/-! ### The order of `by_scope_primary` -/

theorem kvKey_lt_of_tId_lt {x y : Nat × KeyValueObject} (h : x.2.tId < y.2.tId) : kvKey x < kvKey y :=
  Prod.Lex.toLex_lt_toLex.mpr (.inl h)

/-- Within a table, the order of `by_scope_primary` is that of the primary keys. -/
theorem kvKey_lt_iff {x y : Nat × KeyValueObject} (h : x.2.tId = y.2.tId) :
    kvKey x < kvKey y ↔ x.2.primaryKey < y.2.primaryKey := by
  rw [kvKey, kvKey, Prod.Lex.toLex_lt_toLex, UInt64.lt_iff_toNat_lt]
  simp [h]

/-- The bound `(tab, k)` admits the rows of table `tab` from primary key `k` on, and rows of later tables. -/
theorem toLex_le_kvKey_iff {tab : Nat} {k : UInt64} {o : Nat × KeyValueObject} :
    toLex (tab, k.toNat) ≤ kvKey o ↔ tab < o.2.tId ∨ tab = o.2.tId ∧ k ≤ o.2.primaryKey := by
  rw [kvKey, Prod.Lex.toLex_le_toLex, UInt64.le_iff_toNat_le]

theorem toLex_lt_kvKey_iff {tab : Nat} {k : UInt64} {o : Nat × KeyValueObject} :
    toLex (tab, k.toNat) < kvKey o ↔ tab < o.2.tId ∨ tab = o.2.tId ∧ k < o.2.primaryKey := by
  rw [kvKey, Prod.Lex.toLex_lt_toLex, UInt64.lt_iff_toNat_lt]

/-- No two rows share a key of `by_scope_primary`. -/
theorem nodup_kvKey {idx : OrdMap Nat KeyValueObject} (hu : UniqueKeys keyValueIndex idx) :
    (idx.entries.map kvKey).Nodup := by
  have hnd : idx.entries.Nodup := (OrdMap.nodup_keys idx).of_map Prod.fst
  refine List.Nodup.map_on (fun x hx y hy hxy => ?_) hnd
  have hx' := (OrdMap.mem_entries_iff _ _ _).mp hx
  have hy' := (OrdMap.mem_entries_iff _ _ _).mp hy
  have hkey : x.2.tId = y.2.tId ∧ x.2.primaryKey = y.2.primaryKey := by
    simp only [kvKey, toLex_inj, Prod.mk.injEq] at hxy
    exact ⟨hxy.1, UInt64.toNat_inj.mp hxy.2⟩
  by_cases hid : x.1 = y.1
  · -- one id has one value
    rw [hid, hy'] at hx'
    exact Prod.ext hid (Option.some.inj hx').symm
  · exact absurd (by rw [hkey.1, hkey.2]) (hu x.1 y.1 x.2 y.2 hx' hy' hid _ List.mem_cons_self)

/-- Rows of distinct keys of `by_scope_primary` have unique keys: the converse of `nodup_kvKey`. -/
theorem uniqueKeys_of_nodup_kvKey {idx : OrdMap Nat KeyValueObject} (h : (idx.entries.map kvKey).Nodup) :
    UniqueKeys keyValueIndex idx := by
  intro x y vx vy hx hy hxy k hk heq
  rw [keyValueIndex, List.mem_singleton] at hk
  subst hk
  have hkv : kvKey (x, vx) = kvKey (y, vy) := by
    simp only [Prod.mk.injEq] at heq
    rw [kvKey, kvKey, heq.1, heq.2]
  exact hxy (congrArg Prod.fst (List.inj_on_of_nodup_map h ((OrdMap.mem_entries_iff _ _ _).mpr hx)
    ((OrdMap.mem_entries_iff _ _ _).mpr hy) hkv))

/-- Two tables of `alice`: `accounts` (table `0`, rows of primary keys `1`, `5` and `9`) and `stat` (table `1`, a
row of primary key `2`), their rows stored interleaved, and over `accounts` a secondary index of keys `7`, `7`
and `3`. -/
def twoTables : ApplyState where
  tables := ⟨[], 0, 2, (OrdMap.empty.insert 0 ⟨N "alice", N "alice", N "accounts", N "alice", 3⟩).insert 1
    ⟨N "alice", N "alice", N "stat", N "alice", 1⟩⟩
  keyValues := ⟨[], 0, 4, (((OrdMap.empty.insert 0 ⟨0, 5, N "alice", [5]⟩).insert 1 ⟨1, 2, N "alice", [2]⟩).insert 2
    ⟨0, 1, N "alice", [1]⟩).insert 3 ⟨0, 9, N "alice", [9]⟩⟩
  secondaries _ := ⟨[], 0, 3, ((OrdMap.empty.insert 0 ⟨0, 5, N "alice", 7⟩).insert 1 ⟨0, 1, N "alice", 7⟩).insert 2
    ⟨0, 9, N "alice", 3⟩⟩
  generated := .init
  rl := .init
  validateRamUsage := .empty
  accountRamDeltas := .empty
  accountGstGas := .empty

/-! ### Runs of reads -/

/-- A call of a contract that reads the key-value index. -/
inductive TableRead
  | findI64 (code scope table : Name) (id : UInt64)
  | lowerboundI64 (code scope table : Name) (id : UInt64)
  | upperboundI64 (code scope table : Name) (id : UInt64)
  | endI64 (code scope table : Name)
  | nextI64 (iterator : Int)
  | previousI64 (iterator : Int)
  | getI64 (iterator : Int) (bufferSize : Nat)
  deriving DecidableEq, Repr

/-- The cache a read leaves. -/
def TableRead.apply (s : ApplyState) : TableRead → IteratorCache → Except CacheError IteratorCache
  | .findI64 code scope table id, c => .ok (s.dbFindI64 c code scope table id).2
  | .lowerboundI64 code scope table id, c => .ok (s.dbLowerboundI64 c code scope table id).2
  | .upperboundI64 code scope table id, c => .ok (s.dbUpperboundI64 c code scope table id).2
  | .endI64 code scope table, c => .ok (s.dbEndI64 c code scope table).2
  | .nextI64 iterator, c => Prod.snd <$> s.dbNextI64 c iterator
  | .previousI64 iterator, c => Prod.snd <$> s.dbPreviousI64 c iterator
  | .getI64 iterator bufferSize, c => (fun _ => c) <$> s.dbGetI64 c iterator bufferSize

/-- Reads one after the other, up to the first that throws. -/
def runReads (s : ApplyState) (reads : List TableRead) (c : IteratorCache) : Except CacheError IteratorCache :=
  reads.foldlM (fun c r => r.apply s c) c

namespace ApplyState

variable {s : ApplyState} {c c' : IteratorCache}

/-- Only rows of table `tab` have a key of `by_scope_primary` in that table. -/
theorem tId_of_kvKey_eq {tab : Nat} {id : UInt64} {o : Nat × KeyValueObject} (h : kvKey o = toLex (tab, id.toNat)) :
    o.2.tId = tab := by
  simp only [kvKey, toLex_inj, Prod.mk.injEq] at h
  exact h.1

theorem consistent_dbEndI64 (hc : Consistent s.keyValues.indices (·.tId) c) (code scope table : Name) :
    Consistent s.keyValues.indices (·.tId) (s.dbEndI64 c code scope table).2 := by
  unfold dbEndI64
  split
  · exact hc
  · exact hc.cacheTable _

/-- Every read keeps the cache of the key-value index consistent. -/
theorem TableRead.apply_consistent {r : TableRead} (hc : Consistent s.keyValues.indices (·.tId) c)
    (h : r.apply s c = .ok c') : Consistent s.keyValues.indices (·.tId) c' := by
  cases r with
  | findI64 code scope table id =>
    cases h
    unfold dbFindI64
    split
    · exact hc
    · exact hc.findAt fun o _ ho => tId_of_kvKey_eq ho
  | lowerboundI64 code scope table id =>
    cases h
    unfold dbLowerboundI64
    split
    · exact hc
    · exact hc.boundAt _ _
  | upperboundI64 code scope table id =>
    cases h
    unfold dbUpperboundI64
    split
    · exact hc
    · exact hc.boundAt _ _
  | endI64 code scope table =>
    cases h
    exact consistent_dbEndI64 hc code scope table
  | nextI64 iterator =>
    obtain ⟨⟨it', c''⟩, hn, rfl⟩ := Except.map_eq_ok.mp h
    exact hc.nextAt hn
  | previousI64 iterator =>
    obtain ⟨⟨it', c''⟩, hp, rfl⟩ := Except.map_eq_ok.mp h
    exact hc.previousAt hp
  | getI64 iterator bufferSize =>
    obtain ⟨-, -, rfl⟩ := Except.map_eq_ok.mp h
    exact hc

/-- **Reads keep the iterator cache consistent.** From the cache of a new `apply_context`, every run of the
key-value reads that returns leaves a cache whose iterators and rows correspond one to one, every row iterator
naming a row of the database, every end iterator a cached table, and every named row's table cached. -/
theorem runReads_consistent {reads : List TableRead} (h : runReads s reads IteratorCache.empty = .ok c') :
    Consistent s.keyValues.indices (·.tId) c' := by
  -- induction on the reads, from any consistent cache
  have key : ∀ (reads : List TableRead) (c : IteratorCache), Consistent s.keyValues.indices (·.tId) c →
      runReads s reads c = .ok c' → Consistent s.keyValues.indices (·.tId) c' := by
    intro reads
    induction reads with
    | nil =>
      intro c hc h
      cases h
      exact hc
    | cons r rs ih =>
      intro c hc h
      simp only [runReads, List.foldlM_cons, bind, Except.bind_eq_ok] at h
      obtain ⟨c₁, h₁, h₂⟩ := h
      exact ih c₁ (TableRead.apply_consistent hc h₁) h₂
  exact key reads _ consistent_empty h

/-- A loop over `accounts` from its first row above `2`, a step back, and a read of the row. -/
theorem runReads_consistent_loop :
    ∃ c', runReads twoTables [.lowerboundI64 (N "alice") (N "alice") (N "accounts") 2, .nextI64 0, .previousI64 1,
        .getI64 0 8] IteratorCache.empty = .ok c' ∧ Consistent twoTables.keyValues.indices (·.tId) c' := by
  obtain ⟨c', h⟩ : ∃ c', runReads twoTables [.lowerboundI64 (N "alice") (N "alice") (N "accounts") 2, .nextI64 0,
      .previousI64 1, .getI64 0 8] IteratorCache.empty = .ok c' := ⟨_, rfl⟩
  exact ⟨c', h, runReads_consistent h⟩

end ApplyState

/-! ### Walking a table -/

namespace ApplyState

variable {s : ApplyState} {c : IteratorCache}

/-- **`db_lowerbound_i64` and `db_next_i64` walk a table in order.** In a database whose rows have unique keys,
from a cache that is consistent with it, a contract that positions an iterator with `db_lowerbound_i64` on an
existing table and then reads each row and calls `db_next_i64` until an end iterator comes back reads exactly the
rows of that table whose primary key is at least `k`, in increasing order of primary key, and stops at the end
iterator that `db_end_i64` gives for the table. -/
theorem lowerbound_next_walk (hu : UniqueKeys keyValueIndex s.keyValues.indices)
    (hc : Consistent s.keyValues.indices (·.tId) c) {code scope table : Name} {tab : Nat} {t : TableIdObject}
    (ht : s.findTable code scope table = some (tab, t)) (k : UInt64) :
    ∃ rows c', s.walkI64 (s.dbLowerboundI64 c code scope table k).2 s.keyValues.indices.entries.length
        (s.dbLowerboundI64 c code scope table k).1 = .ok (rows, (s.dbEndI64 c' code scope table).1, c') ∧
      rows.Pairwise (fun a b => a.2.primaryKey < b.2.primaryKey) ∧
      ∀ id o, (id, o) ∈ rows ↔ s.keyValues.indices.find? id = some o ∧ o.tId = tab ∧ k ≤ o.primaryKey := by
  obtain ⟨rows, c', hrun, hei, hsorted, hmem⟩ := boundAt_table_walk (nodup_kvKey hu)
    (fun _ _ h => kvKey_lt_of_tId_lt h) hc tab (p := fun o => decide (toLex (tab, k.toNat) ≤ kvKey o))
    (fun b _ d _ hb hbd => decide_eq_true (le_trans (of_decide_eq_true hb) hbd))
    (fun b hb => by rcases toLex_le_kvKey_iff.mp (of_decide_eq_true hb) with h | ⟨h, -⟩ <;> omega)
  refine ⟨rows, c', ?_, ?_, fun id o => ?_⟩
  · simp only [dbLowerboundI64, dbEndI64, ht, walkI64]
    rw [hrun, IteratorCache.cacheTable_of_find hei]
  · -- within one table the order of `by_scope_primary` is that of the primary keys
    refine hsorted.imp_of_mem fun ha hb hab => ?_
    exact (kvKey_lt_iff (((hmem _).mp ha).2.1.trans ((hmem _).mp hb).2.1.symm)).mp hab
  · rw [hmem, OrdMap.mem_entries_iff, decide_eq_true_eq, toLex_le_kvKey_iff]
    constructor
    · rintro ⟨hfind, rfl, h | ⟨-, hk⟩⟩
      · exact absurd h (lt_irrefl _)
      · exact ⟨hfind, rfl, hk⟩
    · rintro ⟨hfind, rfl, hk⟩
      exact ⟨hfind, rfl, .inr ⟨rfl, hk⟩⟩

theorem lowerbound_next_walk_accounts :
    ∃ rows c', twoTables.walkI64 (twoTables.dbLowerboundI64 .empty (N "alice") (N "alice") (N "accounts") 2).2
        twoTables.keyValues.indices.entries.length
        (twoTables.dbLowerboundI64 .empty (N "alice") (N "alice") (N "accounts") 2).1 =
          .ok (rows, (twoTables.dbEndI64 c' (N "alice") (N "alice") (N "accounts")).1, c') ∧
      rows.Pairwise (fun a b => a.2.primaryKey < b.2.primaryKey) ∧
      ∀ id o, (id, o) ∈ rows ↔ twoTables.keyValues.indices.find? id = some o ∧ o.tId = 0 ∧ 2 ≤ o.primaryKey :=
  lowerbound_next_walk (uniqueKeys_of_nodup_kvKey (by decide)) consistent_empty rfl 2

/-- **`db_previous_i64` takes back `db_next_i64`.** In a database whose rows have unique keys, from a consistent
cache, for the iterator of any row: `db_previous_i64` of the iterator that `db_next_i64` returns, the next row's or
the table's end iterator, is the iterator of the row again. -/
theorem previous_next_i64 (hu : UniqueKeys keyValueIndex s.keyValues.indices)
    (hc : Consistent s.keyValues.indices (·.tId) c) {it : Int} {id : Nat} (hget : c.get it = .ok id) :
    ∃ it' c', s.dbNextI64 c it = .ok (it', c') ∧ s.dbPreviousI64 c' it' = .ok (it, c') :=
  previousAt_nextAt (nodup_kvKey hu) (fun _ _ h => kvKey_lt_of_tId_lt h) hc hget

theorem previous_next_i64_accounts :
    ∃ it' c', twoTables.dbNextI64 (twoTables.dbFindI64 .empty (N "alice") (N "alice") (N "accounts") 5).2 0 =
        .ok (it', c') ∧ twoTables.dbPreviousI64 c' it' = .ok (0, c') :=
  previous_next_i64 (uniqueKeys_of_nodup_kvKey (by decide))
    (TableRead.apply_consistent consistent_empty (r := .findI64 (N "alice") (N "alice") (N "accounts") 5) rfl) rfl

/-- **`db_previous_i64` of the end iterator is the last row.** From a consistent cache, `db_previous_i64` of the
end iterator `db_end_i64` gives for an existing table is the iterator of the table's row with the greatest primary
key, or `-1` when the table has no row. -/
theorem previous_end_i64 (hc : Consistent s.keyValues.indices (·.tId) c) {code scope table : Name} {tab : Nat}
    {t : TableIdObject} (ht : s.findTable code scope table = some (tab, t)) :
    ∃ it c', s.dbPreviousI64 (s.dbEndI64 c code scope table).2 (s.dbEndI64 c code scope table).1 = .ok (it, c') ∧
      ((∀ id o, s.keyValues.indices.find? id = some o → o.tId ≠ tab) ∧ it = -1 ∨
        ∃ id o, c'.get it = .ok id ∧ s.keyValues.indices.find? id = some o ∧ o.tId = tab ∧
          ∀ id' o', s.keyValues.indices.find? id' = some o' → o'.tId = tab → o'.primaryKey ≤ o.primaryKey) := by
  have hw₁ := (hc.cacheTable tab).wellFormed
  simp only [dbEndI64, ht, dbPreviousI64]
  rw [previousAt_of_end hw₁ (IteratorCache.find_cacheTable tab)]
  cases hl : (last kvKey (fun o => decide (o.2.tId ≤ tab)) s.keyValues.indices.entries).filter
      (fun o => decide (o.2.tId = tab)) with
  | some o =>
    -- the greatest key up to the table is the table's greatest row
    obtain ⟨ho, hot⟩ := Option.filter_eq_some_iff.mp hl
    obtain ⟨hom, -, hgreatest⟩ := last_spec ho
    have hot' : o.2.tId = tab := of_decide_eq_true hot
    refine ⟨_, _, rfl, .inr ⟨o.1, o.2, IteratorCache.get_add hw₁ o.1, (OrdMap.mem_entries_iff _ _ _).mp hom, hot',
      fun id' o' h' ht' => ?_⟩⟩
    have hle := hgreatest (id', o') ((OrdMap.mem_entries_iff _ _ _).mpr h') (by simp [ht'])
    rcases lt_or_eq_of_le hle with hlt | heq
    · exact UInt64.le_of_lt ((kvKey_lt_iff (ht'.trans hot'.symm)).mp hlt)
    · simp only [kvKey, toLex_inj, Prod.mk.injEq] at heq
      exact UInt64.le_of_eq (UInt64.toNat_inj.mp heq.2)
  | none =>
    -- no row up to the table is in it, so the table has none
    refine ⟨_, _, rfl, .inl ⟨fun id o h hot => ?_, rfl⟩⟩
    have hm : (id, o) ∈ s.keyValues.indices.entries := (OrdMap.mem_entries_iff _ _ _).mpr h
    cases hl' : last kvKey (fun o => decide (o.2.tId ≤ tab)) s.keyValues.indices.entries with
    | none => exact absurd (last_eq_none_iff.mp hl' _ hm) (by simp [hot])
    | some o' =>
      obtain ⟨-, ho't, hgreatest⟩ := last_spec hl'
      have h₁ := @tId_le_of_key_le KeyValueObject _ _ (fun o => o.tId) kvKey (fun _ _ h => kvKey_lt_of_tId_lt h) _ _
        (hgreatest _ hm (by simp [hot]))
      have h₂ := Option.filter_eq_none_iff.mp hl o' hl'
      simp only [decide_eq_true_eq] at h₂ ho't h₁
      exact h₂ (le_antisymm ho't (hot ▸ h₁))

theorem previous_end_i64_accounts :
    ∃ it c', twoTables.dbPreviousI64 (twoTables.dbEndI64 .empty (N "alice") (N "alice") (N "accounts")).2
        (twoTables.dbEndI64 .empty (N "alice") (N "alice") (N "accounts")).1 = .ok (it, c') ∧
      ((∀ id o, twoTables.keyValues.indices.find? id = some o → o.tId ≠ 0) ∧ it = -1 ∨
        ∃ id o, c'.get it = .ok id ∧ twoTables.keyValues.indices.find? id = some o ∧ o.tId = 0 ∧
          ∀ id' o', twoTables.keyValues.indices.find? id' = some o' → o'.tId = 0 → o'.primaryKey ≤ o.primaryKey) :=
  previous_end_i64 consistent_empty rfl

/-- **`db_upperbound_i64` finds the first row above a key.** From a consistent cache, on an existing table,
`db_upperbound_i64` returns the iterator of the table's row with the least primary key above `k`, or the table's end
iterator when no row's key is above `k`. -/
theorem upperbound_i64_spec (hc : Consistent s.keyValues.indices (·.tId) c) {code scope table : Name} {tab : Nat} {t : TableIdObject}
    (ht : s.findTable code scope table = some (tab, t)) (k : UInt64) :
    (∃ id o, (s.dbUpperboundI64 c code scope table k).2.get (s.dbUpperboundI64 c code scope table k).1 = .ok id ∧
        s.keyValues.indices.find? id = some o ∧ o.tId = tab ∧ k < o.primaryKey ∧
        ∀ id' o', s.keyValues.indices.find? id' = some o' → o'.tId = tab → k < o'.primaryKey →
          o.primaryKey ≤ o'.primaryKey) ∨
      (s.dbUpperboundI64 c code scope table k).1 = (s.dbEndI64 c code scope table).1 ∧
        ∀ id o, s.keyValues.indices.find? id = some o → o.tId = tab → o.primaryKey ≤ k := by
  have hw₁ := (hc.cacheTable tab).wellFormed
  simp only [dbUpperboundI64, dbEndI64, ht, boundAt_eq]
  cases hf : (first kvKey (fun o => decide (toLex (tab, k.toNat) < kvKey o)) s.keyValues.indices.entries).filter
      (fun o => decide (o.2.tId = tab)) with
  | some o =>
    obtain ⟨ho, hot⟩ := Option.filter_eq_some_iff.mp hf
    obtain ⟨hom, hok, hleast⟩ := first_spec ho
    have hot' : o.2.tId = tab := of_decide_eq_true hot
    have hk : k < o.2.primaryKey := by
      rcases toLex_lt_kvKey_iff.mp (of_decide_eq_true hok) with h | ⟨-, h⟩
      · exact absurd h (by omega)
      · exact h
    refine .inl ⟨o.1, o.2, IteratorCache.get_add hw₁ o.1, (OrdMap.mem_entries_iff _ _ _).mp hom, hot', hk,
      fun id' o' h' ht' hk' => ?_⟩
    have hle := hleast (id', o') ((OrdMap.mem_entries_iff _ _ _).mpr h')
      (decide_eq_true (toLex_lt_kvKey_iff.mpr (.inr ⟨ht'.symm, hk'⟩)))
    rcases lt_or_eq_of_le hle with hlt | heq
    · exact UInt64.le_of_lt ((kvKey_lt_iff (hot'.trans ht'.symm)).mp hlt)
    · simp only [kvKey, toLex_inj, Prod.mk.injEq] at heq
      exact UInt64.le_of_eq (UInt64.toNat_inj.mp heq.2)
  | none =>
    -- the first key above the bound is in a later table, or there is none
    refine .inr ⟨rfl, fun id o h hot => UInt64.not_lt.mp fun hk => ?_⟩
    have hm : (id, o) ∈ s.keyValues.indices.entries := (OrdMap.mem_entries_iff _ _ _).mpr h
    have hadm : decide (toLex (tab, k.toNat) < kvKey (id, o)) = true :=
      decide_eq_true (toLex_lt_kvKey_iff.mpr (.inr ⟨hot.symm, hk⟩))
    cases hf' : first kvKey (fun o => decide (toLex (tab, k.toNat) < kvKey o)) s.keyValues.indices.entries with
    | none => exact absurd (first_eq_none_iff.mp hf' _ hm) (by simp [hadm])
    | some o' =>
      obtain ⟨-, ho'k, hleast⟩ := first_spec hf'
      have h₁ := @tId_le_of_key_le KeyValueObject _ _ (fun o => o.tId) kvKey (fun _ _ h => kvKey_lt_of_tId_lt h) _ _
        (hleast _ hm hadm)
      have h₂ : tab ≤ o'.2.tId := by
        rcases toLex_lt_kvKey_iff.mp (of_decide_eq_true ho'k) with h | ⟨h, -⟩ <;> omega
      have h₃ := Option.filter_eq_none_iff.mp hf o' hf'
      simp only [decide_eq_true_eq] at h₃ h₁
      exact h₃ (le_antisymm (hot ▸ h₁) h₂)

theorem upperbound_i64_spec_accounts :
    (∃ id o, (twoTables.dbUpperboundI64 .empty (N "alice") (N "alice") (N "accounts") 5).2.get
          (twoTables.dbUpperboundI64 .empty (N "alice") (N "alice") (N "accounts") 5).1 = .ok id ∧
        twoTables.keyValues.indices.find? id = some o ∧ o.tId = 0 ∧ 5 < o.primaryKey ∧
        ∀ id' o', twoTables.keyValues.indices.find? id' = some o' → o'.tId = 0 → 5 < o'.primaryKey →
          o.primaryKey ≤ o'.primaryKey) ∨
      (twoTables.dbUpperboundI64 .empty (N "alice") (N "alice") (N "accounts") 5).1 =
          (twoTables.dbEndI64 .empty (N "alice") (N "alice") (N "accounts")).1 ∧
        ∀ id o, twoTables.keyValues.indices.find? id = some o → o.tId = 0 → o.primaryKey ≤ 5 :=
  upperbound_i64_spec consistent_empty rfl 5

end ApplyState

/-! ## The secondary indices: `generic_index` -/

namespace SecondaryKind

open Softfloat

/-- The comparator of the kind's key in `by_secondary`, on the key's bits: `std::less` of the integer keys,
`soft_double_less` (`f64_lt`) and `soft_long_double_less` (`f128_lt`) of the floating-point ones. -/
def keyLess : SecondaryKind → Nat → Nat → Bool
  | indexDouble, a, b => f64Lt (UInt64.ofNat a) (UInt64.ofNat b)
  | indexLongDouble, a, b => f128Lt (Float128.ofNat a) (Float128.ofNat b)
  | _, a, b => decide (a < b)

/-- A key that the comparator of its kind reads as a NaN (`isNaNF64UI`, `isNaNF128UI`). The wasm interface refuses
such a key before it reaches the index; no integer key is one. -/
def isNaN : SecondaryKind → Nat → Bool
  | indexDouble, a => isNaNF64UI (UInt64.ofNat a)
  | indexLongDouble, a => isNaNF128UI (Float128.ofNat a).v64 (Float128.ofNat a).v0
  | _, _ => false

/-- The place of a key in the order of its kind: the key itself, or the sign-magnitude rank of a floating-point
key's bits, where `-0` and `+0` have one place. -/
def keyRank : SecondaryKind → Nat → Int
  | indexDouble, a => SignMagnitude.rank 63 (UInt64.ofNat a).toNat
  | indexLongDouble, a => SignMagnitude.rank 127 (Float128.ofNat a).toNat
  | _, a => a

/-- **The comparator of each kind is the order of the places** of the keys that are not NaN. -/
theorem keyLess_iff (kind : SecondaryKind) {a b : Nat} (ha : kind.isNaN a = false) (hb : kind.isNaN b = false) :
    kind.keyLess a b = true ↔ kind.keyRank a < kind.keyRank b := by
  cases kind with
  | index64 | index128 | index256 => simp [keyLess, keyRank]
  | indexDouble => exact f64Lt_iff_rank_lt ha hb
  | indexLongDouble => exact f128Lt_iff_rank_lt ha hb

/-- `-1.0` is below `1.0`, whose bits are below its own, and `-0.0` and `+0.0` are equivalent. -/
example : SecondaryKind.indexDouble.keyLess 0xBFF0000000000000 0x3FF0000000000000 = true ∧
    SecondaryKind.indexDouble.keyLess 0x8000000000000000 0 = false ∧
    SecondaryKind.indexDouble.keyLess 0 0x8000000000000000 = false := by
  decide

/-- The comparison of `by_secondary` on the partial key `(t_id, secondary)` of `lower_bound` and `upper_bound`:
`std::less` of the tables, then the kind's comparator. -/
def prefixLess (kind : SecondaryKind) (x y : Nat × Nat) : Bool :=
  decide (x.1 < y.1) || (x.1 == y.1 && kind.keyLess x.2 y.2)

theorem prefixLess_iff (kind : SecondaryKind) {x y : Nat × Nat} (hx : kind.isNaN x.2 = false)
    (hy : kind.isNaN y.2 = false) :
    kind.prefixLess x y = true ↔ toLex (x.1, kind.keyRank x.2) < toLex (y.1, kind.keyRank y.2) := by
  rw [prefixLess, Prod.Lex.toLex_lt_toLex, ← kind.keyLess_iff hx hy]
  simp only [Bool.or_eq_true, decide_eq_true_eq, Bool.and_eq_true, beq_iff_eq]

/-- Not below a partial key: a later table, or the same one with a key the comparator does not put below. -/
theorem not_prefixLess_iff (kind : SecondaryKind) {x y : Nat × Nat} :
    (!kind.prefixLess x y) = true ↔ y.1 ≤ x.1 ∧ (x.1 ≠ y.1 ∨ kind.keyLess x.2 y.2 = false) := by
  simp only [prefixLess, Bool.not_or, Bool.and_eq_true, Bool.not_eq_true', decide_eq_false_iff_not, not_lt,
    Bool.and_eq_false_iff, beq_eq_false_iff_ne]

end SecondaryKind

/-- `by_secondary`: the table, the key's place in the order of its kind, then the primary key. A NaN key, which the
index never holds, is placed by the rank of its bits; the source's comparator orders no such key. -/
def bySecondary (kind : SecondaryKind) (o : Nat × SecondaryObject) : Lex (Nat × Lex (Int × Nat)) :=
  toLex (o.2.tId, toLex (kind.keyRank o.2.secondaryKey, o.2.primaryKey.toNat))

/-- `by_primary`: the table, then the primary key. -/
def byPrimary (o : Nat × SecondaryObject) : Lex (Nat × Nat) := toLex (o.2.tId, o.2.primaryKey.toNat)

namespace ApplyState

variable (s : ApplyState) (kind : SecondaryKind) (c : IteratorCache)

/-- `generic_index::find_secondary`: the first object of the table whose key the comparator holds equivalent to
`secondary`, by the partial key `(t_id, secondary)`. -/
def idxFindSecondary (code scope table : Name) (secondary : Nat) : Int × IteratorCache :=
  match s.findTable code scope table with
  | none => (-1, c)
  | some (tab, _) => boundAt (s.secondaries kind).indices (·.tId) (bySecondary kind) c tab
      fun o => decide (o.2.tId = tab) && !kind.keyLess o.2.secondaryKey secondary &&
        !kind.keyLess secondary o.2.secondaryKey

/-- `generic_index::lowerbound_secondary`: `lower_bound` of the partial key `(t_id, secondary)`, the first object
not below it. -/
def idxLowerboundSecondary (code scope table : Name) (secondary : Nat) : Int × IteratorCache :=
  match s.findTable code scope table with
  | none => (-1, c)
  | some (tab, _) => boundAt (s.secondaries kind).indices (·.tId) (bySecondary kind) c tab
      fun o => !kind.prefixLess (o.2.tId, o.2.secondaryKey) (tab, secondary)

/-- `generic_index::upperbound_secondary`: `upper_bound` of the partial key `(t_id, secondary)`, the first object
above it. -/
def idxUpperboundSecondary (code scope table : Name) (secondary : Nat) : Int × IteratorCache :=
  match s.findTable code scope table with
  | none => (-1, c)
  | some (tab, _) => boundAt (s.secondaries kind).indices (·.tId) (bySecondary kind) c tab
      fun o => kind.prefixLess (tab, secondary) (o.2.tId, o.2.secondaryKey)

/-- `generic_index::end_secondary`. -/
def idxEndSecondary (code scope table : Name) : Int × IteratorCache :=
  match s.findTable code scope table with
  | none => (-1, c)
  | some (tab, _) => c.cacheTable tab

/-- `generic_index::next_secondary`. -/
def idxNextSecondary (iterator : Int) : Except CacheError (Int × IteratorCache) :=
  nextAt (s.secondaries kind).indices (·.tId) (bySecondary kind) c iterator

/-- `generic_index::previous_secondary`. -/
def idxPreviousSecondary (iterator : Int) : Except CacheError (Int × IteratorCache) :=
  previousAt (s.secondaries kind).indices (·.tId) (bySecondary kind) c iterator

/-- `generic_index::find_primary`. -/
def idxFindPrimary (code scope table : Name) (primary : UInt64) : Int × IteratorCache :=
  match s.findTable code scope table with
  | none => (-1, c)
  | some (tab, _) => findAt (s.secondaries kind).indices byPrimary c tab (toLex (tab, primary.toNat))

/-- `generic_index::lowerbound_primary`. -/
def idxLowerboundPrimary (code scope table : Name) (primary : UInt64) : Int × IteratorCache :=
  match s.findTable code scope table with
  | none => (-1, c)
  | some (tab, _) => boundAt (s.secondaries kind).indices (·.tId) byPrimary c tab
      fun o => decide (toLex (tab, primary.toNat) ≤ byPrimary o)

/-- `generic_index::upperbound_primary`. -/
def idxUpperboundPrimary (code scope table : Name) (primary : UInt64) : Int × IteratorCache :=
  match s.findTable code scope table with
  | none => (-1, c)
  | some (tab, _) => boundAt (s.secondaries kind).indices (·.tId) byPrimary c tab
      fun o => decide (toLex (tab, primary.toNat) < byPrimary o)

/-- `generic_index::next_primary`. -/
def idxNextPrimary (iterator : Int) : Except CacheError (Int × IteratorCache) :=
  nextAt (s.secondaries kind).indices (·.tId) byPrimary c iterator

/-- `generic_index::previous_primary`. -/
def idxPreviousPrimary (iterator : Int) : Except CacheError (Int × IteratorCache) :=
  previousAt (s.secondaries kind).indices (·.tId) byPrimary c iterator

/-- A contract's loop over a secondary index with `next_secondary`. -/
def walkSecondary (fuel : Nat) (it : Int) :
    Except CacheError (List (Nat × SecondaryObject) × Int × IteratorCache) :=
  walkAt (s.secondaries kind).indices (·.tId) (bySecondary kind) fuel c it

end ApplyState

/-! ### The order of `by_secondary` -/

section Order

variable {kind : SecondaryKind}

theorem bySecondary_lt_of_tId_lt {x y : Nat × SecondaryObject} (h : x.2.tId < y.2.tId) :
    bySecondary kind x < bySecondary kind y :=
  Prod.Lex.toLex_lt_toLex.mpr (.inl h)

/-- Within a table, `by_secondary` orders keys that are not NaN by the kind's comparator, and keys it holds
equivalent by primary key. -/
theorem bySecondary_lt_iff {x y : Nat × SecondaryObject} (h : x.2.tId = y.2.tId)
    (hx : kind.isNaN x.2.secondaryKey = false) (hy : kind.isNaN y.2.secondaryKey = false) :
    bySecondary kind x < bySecondary kind y ↔ kind.keyLess x.2.secondaryKey y.2.secondaryKey = true ∨
      kind.keyLess x.2.secondaryKey y.2.secondaryKey = false ∧ kind.keyLess y.2.secondaryKey x.2.secondaryKey = false ∧
        x.2.primaryKey < y.2.primaryKey := by
  rw [bySecondary, bySecondary, Prod.Lex.toLex_lt_toLex, Prod.Lex.toLex_lt_toLex, UInt64.lt_iff_toNat_lt,
    ← Bool.not_eq_true, ← Bool.not_eq_true, kind.keyLess_iff hx hy, kind.keyLess_iff hy hx, h]
  simp only [lt_irrefl, false_or, true_and]
  omega

/-- The partial key of an object, in the order of places, is at most that of any object after it. -/
theorem prefix_le_of_bySecondary_le {x y : Nat × SecondaryObject} (h : bySecondary kind x ≤ bySecondary kind y) :
    toLex (x.2.tId, kind.keyRank x.2.secondaryKey) ≤ toLex (y.2.tId, kind.keyRank y.2.secondaryKey) := by
  rw [bySecondary, bySecondary, Prod.Lex.toLex_le_toLex, Prod.Lex.toLex_le_toLex] at h
  rw [Prod.Lex.toLex_le_toLex]
  rcases h with h | ⟨h₁, h | ⟨h₂, -⟩⟩
  · exact .inl h
  · exact .inr ⟨h₁, le_of_lt h⟩
  · exact .inr ⟨h₁, le_of_eq h₂⟩

/-- No two objects of a secondary index share a key of `by_secondary`: it ends in the table and primary key, which
`by_primary` keeps unique. -/
theorem nodup_bySecondary {idx : OrdMap Nat SecondaryObject} (hu : UniqueKeys secondaryIndex idx) :
    (idx.entries.map (bySecondary kind)).Nodup := by
  have hnd : idx.entries.Nodup := (OrdMap.nodup_keys idx).of_map Prod.fst
  refine List.Nodup.map_on (fun x hx y hy hxy => ?_) hnd
  have hx' := (OrdMap.mem_entries_iff _ _ _).mp hx
  have hy' := (OrdMap.mem_entries_iff _ _ _).mp hy
  have hkey : x.2.tId = y.2.tId ∧ x.2.primaryKey = y.2.primaryKey := by
    simp only [bySecondary, toLex_inj, Prod.mk.injEq] at hxy
    exact ⟨hxy.1, UInt64.toNat_inj.mp hxy.2.2⟩
  by_cases hid : x.1 = y.1
  · rw [hid, hy'] at hx'
    exact Prod.ext hid (Option.some.inj hx').symm
  · exact absurd (by rw [hkey.1, hkey.2]) (hu x.1 y.1 x.2 y.2 hx' hy' hid _ List.mem_cons_self)

end Order

/-- Objects of distinct keys of `by_primary` have unique keys: `by_secondary` ends in the table and primary key. -/
theorem uniqueKeys_of_nodup_byPrimary {idx : OrdMap Nat SecondaryObject} (h : (idx.entries.map byPrimary).Nodup) :
    UniqueKeys secondaryIndex idx := by
  intro x y vx vy hx hy hxy k hk heq
  -- equal keys of either index give the same table and primary key
  have hkey : vx.tId = vy.tId ∧ vx.primaryKey = vy.primaryKey := by
    simp only [secondaryIndex, List.mem_cons, List.not_mem_nil, or_false] at hk
    rcases hk with rfl | rfl
    · simpa using heq
    · simp only [Sum.inr.injEq, Prod.mk.injEq] at heq
      exact ⟨heq.1, heq.2.2⟩
  have hkv : byPrimary (x, vx) = byPrimary (y, vy) := by rw [byPrimary, byPrimary, hkey.1, hkey.2]
  exact hxy (congrArg Prod.fst (List.inj_on_of_nodup_map h ((OrdMap.mem_entries_iff _ _ _).mpr hx)
    ((OrdMap.mem_entries_iff _ _ _).mpr hy) hkv))

namespace ApplyState

variable {s : ApplyState} {kind : SecondaryKind} {c : IteratorCache}

/-- **`lowerbound_secondary` and `next_secondary` walk a table in order.** In a secondary index whose objects have
unique keys and no NaN key, from a cache consistent with it, a contract that positions an iterator with
`lowerbound_secondary` on an existing table, for a `secondary` that is not NaN, and steps with `next_secondary`
until an end iterator reads exactly the objects of that table whose key the comparator does not put below
`secondary`. They come in the comparator's order, keys it holds equivalent by primary key, and the walk stops at
the end iterator `end_secondary` gives. -/
theorem lowerbound_next_secondary_walk (hu : UniqueKeys secondaryIndex (s.secondaries kind).indices)
    (hnan : ∀ o ∈ (s.secondaries kind).indices.entries, kind.isNaN o.2.secondaryKey = false)
    (hc : Consistent (s.secondaries kind).indices (·.tId) c) {code scope table : Name} {tab : Nat}
    {t : TableIdObject} (ht : s.findTable code scope table = some (tab, t)) {secondary : Nat}
    (hsec : kind.isNaN secondary = false) :
    ∃ rows c', s.walkSecondary kind (s.idxLowerboundSecondary kind c code scope table secondary).2
        (s.secondaries kind).indices.entries.length (s.idxLowerboundSecondary kind c code scope table secondary).1 =
          .ok (rows, (s.idxEndSecondary c' code scope table).1, c') ∧
      rows.Pairwise (fun a b => kind.keyLess a.2.secondaryKey b.2.secondaryKey = true ∨
        kind.keyLess a.2.secondaryKey b.2.secondaryKey = false ∧
          kind.keyLess b.2.secondaryKey a.2.secondaryKey = false ∧ a.2.primaryKey < b.2.primaryKey) ∧
      ∀ id o, (id, o) ∈ rows ↔ (s.secondaries kind).indices.find? id = some o ∧ o.tId = tab ∧
        kind.keyLess o.secondaryKey secondary = false := by
  -- on the objects of the index, `lower_bound`'s test is a bound in the order of places
  have hlower : ∀ o ∈ (s.secondaries kind).indices.entries,
      (!kind.prefixLess (o.2.tId, o.2.secondaryKey) (tab, secondary)) = true ↔
        toLex (tab, kind.keyRank secondary) ≤ toLex (o.2.tId, kind.keyRank o.2.secondaryKey) := fun o ho => by
    rw [Bool.not_eq_true', ← Bool.not_eq_true, kind.prefixLess_iff (hnan o ho) hsec, not_lt]
  obtain ⟨rows, c', hrun, hei, hsorted, hmem⟩ := boundAt_table_walk (nodup_bySecondary hu)
    (fun _ _ h => bySecondary_lt_of_tId_lt h) hc tab
    (p := fun o => !kind.prefixLess (o.2.tId, o.2.secondaryKey) (tab, secondary))
    (fun b hb d hd hpb hbd => (hlower d hd).mpr (le_trans ((hlower b hb).mp hpb) (prefix_le_of_bySecondary_le hbd)))
    (fun _ hb => (kind.not_prefixLess_iff.mp hb).1)
  have hrow : ∀ o ∈ rows, o ∈ (s.secondaries kind).indices.entries ∧ o.2.tId = tab := fun o ho =>
    ⟨((hmem o).mp ho).1, ((hmem o).mp ho).2.1⟩
  refine ⟨rows, c', ?_, ?_, fun id o => ?_⟩
  · simp only [idxLowerboundSecondary, idxEndSecondary, ht, walkSecondary]
    rw [hrun, IteratorCache.cacheTable_of_find hei]
  · refine hsorted.imp_of_mem fun ha hb hab => ?_
    obtain ⟨ha', hta⟩ := hrow _ ha
    obtain ⟨hb', htb⟩ := hrow _ hb
    exact (bySecondary_lt_iff (hta.trans htb.symm) (hnan _ ha') (hnan _ hb')).mp hab
  · -- within the table the test is the comparator's on the keys
    rw [hmem, OrdMap.mem_entries_iff, kind.not_prefixLess_iff]
    constructor
    · rintro ⟨hfind, rfl, -, h | h⟩
      · exact absurd rfl h
      · exact ⟨hfind, rfl, h⟩
    · rintro ⟨hfind, rfl, hk⟩
      exact ⟨hfind, rfl, le_rfl, .inr hk⟩

/-- Over the keys `7`, `7` and `3` read as doubles, small positive numbers, `lowerbound_secondary` of `-1.0` (bits
`0xBFF0000000000000`, above theirs) starts the walk at the first row: `f64_lt` puts every positive number above a
negative one. -/
theorem lowerbound_next_secondary_walk_accounts :
    ∃ rows c', twoTables.walkSecondary .indexDouble
        (twoTables.idxLowerboundSecondary .indexDouble .empty (N "alice") (N "alice") (N "accounts")
          0xBFF0000000000000).2
        (twoTables.secondaries .indexDouble).indices.entries.length
        (twoTables.idxLowerboundSecondary .indexDouble .empty (N "alice") (N "alice") (N "accounts")
          0xBFF0000000000000).1 =
          .ok (rows, (twoTables.idxEndSecondary c' (N "alice") (N "alice") (N "accounts")).1, c') ∧
      rows.Pairwise (fun a b => SecondaryKind.indexDouble.keyLess a.2.secondaryKey b.2.secondaryKey = true ∨
        SecondaryKind.indexDouble.keyLess a.2.secondaryKey b.2.secondaryKey = false ∧
          SecondaryKind.indexDouble.keyLess b.2.secondaryKey a.2.secondaryKey = false ∧
            a.2.primaryKey < b.2.primaryKey) ∧
      ∀ id o, (id, o) ∈ rows ↔ (twoTables.secondaries .indexDouble).indices.find? id = some o ∧ o.tId = 0 ∧
        SecondaryKind.indexDouble.keyLess o.secondaryKey 0xBFF0000000000000 = false :=
  lowerbound_next_secondary_walk (uniqueKeys_of_nodup_byPrimary (by decide)) (by decide) consistent_empty rfl
    (by decide)

end ApplyState

end Gstio.Chain
