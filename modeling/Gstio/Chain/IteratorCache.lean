import Mathlib
import Gstio.Lib.OrdMap
import Gstio.Lib.Rollback

/-!
# The iterator cache of `apply_context`

A contract names rows by small integers. `iterator_cache` hands them out: `add` gives an object the next free
iterator, or the one it already has; `cache_table` gives a table its end iterator, `-2`, `-3`, … in the order the
tables are first met; `-1` stands for no table. The cache keeps pointers: an object is its id here, a table its id.

* `WellFormed`: the iterators of objects and the objects of iterators are inverse, and so are the end iterators
  and the cached tables; `WellFormed.add`, `WellFormed.cacheTable` and `WellFormed.remove` keep it;
* `get_add`, `add_of_find`, `cacheTable_of_find`, `findTableByEndIterator_of_find`: an iterator `add` returns names
  the object, an object keeps its iterator, a table its end iterator, and an end iterator names its table;
* `Live`: every object the cache names satisfies a predicate, such as being in the database.
-/

namespace Gstio.Chain

/-- The exceptions of the cache. -/
inductive CacheError
  /-- `invalid_table_iterator` -/
  | invalidTableIterator (msg : String)
  /-- `table_operation_not_permitted` -/
  | tableOperationNotPermitted (msg : String)
  /-- `table_not_in_cache` -/
  | tableNotInCache (msg : String)
  /-- An object the cache points to is gone: the source reads freed memory. -/
  | undefinedBehavior (what : String)
  deriving DecidableEq, Repr

/-- `iterator_cache<T>`: `_table_cache` with the end iterator of each table, `_end_iterator_to_table`,
`_iterator_to_object` (`none` for a pointer reset by `remove`) and `_object_to_iterator`. -/
structure IteratorCache where
  tableCache : OrdMap Nat Int
  endIteratorToTable : List Nat
  iteratorToObject : List (Option Nat)
  objectToIterator : OrdMap Nat Nat
  deriving DecidableEq

namespace IteratorCache

/-- The cache of a new `apply_context`. -/
def empty : IteratorCache := ⟨.empty, [], [], .empty⟩

/-- `index_to_end_iterator`. -/
def indexToEndIterator (indx : Nat) : Int := -((indx : Int) + 2)

/-- `end_iterator_to_index`. -/
def endIteratorToIndex (ei : Int) : Nat := (-ei - 2).toNat

variable (c : IteratorCache)

/-- `cache_table`: the end iterator of the table, given it when the table is first met. -/
def cacheTable (tid : Nat) : Int × IteratorCache :=
  match c.tableCache.find? tid with
  | some ei => (ei, c)
  | none =>
    let ei := indexToEndIterator c.endIteratorToTable.length
    (ei, { c with endIteratorToTable := c.endIteratorToTable ++ [tid], tableCache := c.tableCache.insert tid ei })

/-- `get_table`: the table, which must be cached. -/
def getTable (i : Nat) : Except CacheError Nat :=
  match c.tableCache.find? i with
  | some _ => .ok i
  | none => .error (.tableNotInCache "an invariant was broken, table should be in cache")

/-- `get_end_iterator_by_table_id`. -/
def getEndIteratorByTableId (i : Nat) : Except CacheError Int :=
  match c.tableCache.find? i with
  | some ei => .ok ei
  | none => .error (.tableNotInCache "an invariant was broken, table should be in cache")

/-- `find_table_by_end_iterator`: `none` for the null pointer of an index past the cached tables. -/
def findTableByEndIterator (ei : Int) : Except CacheError (Option Nat) := do
  Except.assert (decide (ei < -1)) (.invalidTableIterator "not an end iterator")
  pure c.endIteratorToTable[endIteratorToIndex ei]?

/-- The checks that `get` and `remove` make of an iterator. -/
def checkIterator (iterator : Int) (endMsg : String) : Except CacheError Unit := do
  Except.assert (iterator != -1) (.invalidTableIterator "invalid iterator")
  Except.assert (decide (iterator ≥ 0)) (.tableOperationNotPermitted endMsg)
  Except.assert (decide (iterator.toNat < c.iteratorToObject.length)) (.invalidTableIterator "iterator out of range")

/-- `get`: the object of an iterator. -/
def get (iterator : Int) : Except CacheError Nat := do
  c.checkIterator iterator "dereference of end iterator"
  match c.iteratorToObject[iterator.toNat]? with
  | some (some o) => pure o
  | _ => .error (.tableOperationNotPermitted "dereference of deleted object")

/-- `remove`: forget the object of an iterator; the iterator is not handed out again. -/
def remove (iterator : Int) : Except CacheError IteratorCache := do
  c.checkIterator iterator "cannot call remove on end iterators"
  match c.iteratorToObject[iterator.toNat]? with
  | some (some o) =>
    pure { c with
      iteratorToObject := c.iteratorToObject.set iterator.toNat none
      objectToIterator := c.objectToIterator.erase o }
  | _ => pure c

/-- `add`: the iterator of an object, the next free one when it has none yet. -/
def add (o : Nat) : Int × IteratorCache :=
  match c.objectToIterator.find? o with
  | some i => (i, c)
  | none =>
    (c.iteratorToObject.length, { c with
      iteratorToObject := c.iteratorToObject ++ [some o]
      objectToIterator := c.objectToIterator.insert o c.iteratorToObject.length })

/-! ## The invariant -/

/-- The two directions of the cache agree. -/
structure WellFormed : Prop where
  /-- An object's iterator names it, and an iterator that names an object is that object's. -/
  objects : ∀ o i, c.objectToIterator.find? o = some i ↔ c.iteratorToObject[i]? = some (some o)
  /-- A cached table's end iterator is the one of its place among the cached tables. -/
  tables : ∀ t ei, c.tableCache.find? t = some ei ↔
    ∃ i, c.endIteratorToTable[i]? = some t ∧ ei = indexToEndIterator i
  /-- A table is cached once. -/
  nodup : c.endIteratorToTable.Nodup

/-- Every object the cache names satisfies `live`. -/
def Live (live : Nat → Prop) : Prop := ∀ (i o : Nat), c.iteratorToObject[i]? = some (some o) → live o

variable {c}

theorem wellFormed_empty : empty.WellFormed where
  objects o i := by simp [empty]
  tables t ei := by simp [empty]
  nodup := List.nodup_nil

theorem live_empty (live : Nat → Prop) : empty.Live live := fun i o h => by simp [empty] at h

theorem indexToEndIterator_lt (i : Nat) : indexToEndIterator i < -1 := by
  unfold indexToEndIterator
  omega

theorem endIteratorToIndex_indexToEndIterator (i : Nat) : endIteratorToIndex (indexToEndIterator i) = i := by
  unfold endIteratorToIndex indexToEndIterator
  omega

/-! ## `get` -/

theorem checkIterator_eq_ok {it : Int} {m : String} {u : Unit} :
    c.checkIterator it m = .ok u ↔ 0 ≤ it ∧ it.toNat < c.iteratorToObject.length := by
  simp only [checkIterator, bind, Except.bind_eq_ok, Except.assert_eq_ok, bne_iff_ne, ne_eq, decide_eq_true_eq,
    exists_const]
  constructor
  · rintro ⟨-, hnn, hlt⟩
    exact ⟨hnn, hlt⟩
  · rintro ⟨hnn, hlt⟩
    exact ⟨by omega, hnn, hlt⟩

theorem get_eq_ok {it : Int} {o : Nat} :
    c.get it = .ok o ↔ 0 ≤ it ∧ c.iteratorToObject[it.toNat]? = some (some o) := by
  simp only [get, bind, Except.bind_eq_ok, checkIterator_eq_ok, exists_const]
  constructor
  · rintro ⟨⟨hnn, -⟩, h⟩
    refine ⟨hnn, ?_⟩
    split at h
    · rename_i heq
      cases h
      exact heq
    · cases h
  · rintro ⟨hnn, hi⟩
    exact ⟨⟨hnn, (List.getElem?_eq_some_iff.mp hi).1⟩, by rw [hi]; rfl⟩

/-- An iterator `get` accepts is its object's iterator. -/
theorem WellFormed.find_of_get (hw : c.WellFormed) {it : Int} {o : Nat} (h : c.get it = .ok o) :
    c.objectToIterator.find? o = some it.toNat :=
  (hw.objects o _).mpr (get_eq_ok.mp h).2

theorem Live.get {live : Nat → Prop} (hl : c.Live live) {it : Int} {o : Nat} (h : c.get it = .ok o) : live o :=
  hl _ o (get_eq_ok.mp h).2

/-! ## `add` -/

theorem add_of_find {o i : Nat} (h : c.objectToIterator.find? o = some i) : c.add o = ((i : Int), c) := by
  simp [add, h]

theorem add_of_find_none {o : Nat} (h : c.objectToIterator.find? o = none) :
    c.add o = ((c.iteratorToObject.length : Int), { c with
      iteratorToObject := c.iteratorToObject ++ [some o]
      objectToIterator := c.objectToIterator.insert o c.iteratorToObject.length }) := by
  simp [add, h]

@[simp] theorem tableCache_add (o : Nat) : (c.add o).2.tableCache = c.tableCache := by
  unfold add
  split <;> rfl

@[simp] theorem endIteratorToTable_add (o : Nat) : (c.add o).2.endIteratorToTable = c.endIteratorToTable := by
  unfold add
  split <;> rfl

theorem add_nonneg (o : Nat) : 0 ≤ (c.add o).1 := by
  unfold add
  split <;> simp

/-- `add` of the object of an iterator returns that iterator. -/
theorem WellFormed.add_of_get (hw : c.WellFormed) {it : Int} {o : Nat} (h : c.get it = .ok o) : c.add o = (it, c) := by
  rw [add_of_find (hw.find_of_get h), Int.toNat_of_nonneg (get_eq_ok.mp h).1]

theorem WellFormed.add (hw : c.WellFormed) (o : Nat) : (c.add o).2.WellFormed := by
  cases h : c.objectToIterator.find? o with
  | some i => rwa [add_of_find h]
  | none =>
    rw [add_of_find_none h]
    refine ⟨fun o' i => ?_, hw.tables, hw.nodup⟩
    show (c.objectToIterator.insert o c.iteratorToObject.length).find? o' = some i ↔
      (c.iteratorToObject ++ [some o])[i]? = some (some o')
    rw [OrdMap.find?_insert_eq_some]
    -- the new iterator is the length of the old vector, past every old iterator
    rcases lt_trichotomy i c.iteratorToObject.length with hi | rfl | hi
    · rw [List.getElem?_append_left hi, ← hw.objects o' i]
      exact ⟨fun h' => h'.elim id fun h'' => absurd h''.2.2 (Nat.ne_of_gt hi), .inl⟩
    · have hfree : c.objectToIterator.find? o' ≠ some c.iteratorToObject.length := fun h' => by
        rw [hw.objects, List.getElem?_eq_none (le_refl _)] at h'
        cases h'
      rw [List.getElem?_append_right (le_refl _), Nat.sub_self, List.getElem?_cons_zero]
      constructor
      · rintro (h' | ⟨-, rfl, -⟩)
        · exact absurd h' hfree
        · rfl
      · intro heq
        obtain rfl : o = o' := Option.some.inj (Option.some.inj heq)
        exact .inr ⟨h, rfl, rfl⟩
    · have hfree : c.objectToIterator.find? o' ≠ some i := fun h' => by
        rw [hw.objects, List.getElem?_eq_none (le_of_lt hi)] at h'
        cases h'
      rw [List.getElem?_eq_none (by simp only [List.length_append, List.length_singleton]; omega)]
      constructor
      · rintro (h' | ⟨-, -, h'⟩)
        · exact absurd h' hfree
        · exact absurd h' (Nat.ne_of_lt hi)
      · intro h'
        cases h'

/-- The iterator `add` returns names the object. -/
theorem get_add (hw : c.WellFormed) (o : Nat) : (c.add o).2.get (c.add o).1 = .ok o := by
  refine get_eq_ok.mpr ⟨add_nonneg o, ?_⟩
  cases h : c.objectToIterator.find? o with
  | some i =>
    rw [add_of_find h]
    exact (hw.objects o i).mp h
  | none =>
    rw [add_of_find_none h]
    simp

/-- `add` keeps what the other iterators name. -/
theorem get_add_of_get {it : Int} {o : Nat} (h : c.get it = .ok o) (o' : Nat) : (c.add o').2.get it = .ok o := by
  obtain ⟨hnn, hi⟩ := get_eq_ok.mp h
  refine get_eq_ok.mpr ⟨hnn, ?_⟩
  cases h' : c.objectToIterator.find? o' with
  | some i => rwa [add_of_find h']
  | none =>
    rw [add_of_find_none h']
    exact (List.getElem?_append_left (List.getElem?_eq_some_iff.mp hi).1).trans hi

theorem Live.add {live : Nat → Prop} (hl : c.Live live) {o : Nat} (ho : live o) : (c.add o).2.Live live := by
  cases h : c.objectToIterator.find? o with
  | some i => rwa [add_of_find h]
  | none =>
    rw [add_of_find_none h]
    intro i o' hi
    change (c.iteratorToObject ++ [some o])[i]? = some (some o') at hi
    rcases Nat.lt_or_ge i c.iteratorToObject.length with hlt | hge
    · rw [List.getElem?_append_left hlt] at hi
      exact hl i o' hi
    · rw [List.getElem?_append_right hge] at hi
      obtain ⟨hlt, heq⟩ := List.getElem?_eq_some_iff.mp hi
      simp only [List.getElem_singleton, Option.some.injEq] at heq
      exact heq ▸ ho

/-! ## `cache_table` -/

theorem cacheTable_of_find {t : Nat} {ei : Int} (h : c.tableCache.find? t = some ei) : c.cacheTable t = (ei, c) := by
  simp [cacheTable, h]

theorem cacheTable_of_find_none {t : Nat} (h : c.tableCache.find? t = none) :
    c.cacheTable t = (indexToEndIterator c.endIteratorToTable.length, { c with
      endIteratorToTable := c.endIteratorToTable ++ [t]
      tableCache := c.tableCache.insert t (indexToEndIterator c.endIteratorToTable.length) }) := by
  simp [cacheTable, h]

@[simp] theorem iteratorToObject_cacheTable (t : Nat) :
    (c.cacheTable t).2.iteratorToObject = c.iteratorToObject := by
  unfold cacheTable
  split <;> rfl

@[simp] theorem objectToIterator_cacheTable (t : Nat) :
    (c.cacheTable t).2.objectToIterator = c.objectToIterator := by
  unfold cacheTable
  split <;> rfl

/-- After `cache_table` the table is cached with the end iterator it returned. -/
theorem find_cacheTable (t : Nat) : (c.cacheTable t).2.tableCache.find? t = some (c.cacheTable t).1 := by
  cases h : c.tableCache.find? t with
  | some ei => rw [cacheTable_of_find h]; exact h
  | none => rw [cacheTable_of_find_none h]; simp [h]

/-- A cached table stays cached with its end iterator. -/
theorem find_cacheTable_of_find {t u : Nat} {ei : Int} (h : c.tableCache.find? u = some ei) :
    (c.cacheTable t).2.tableCache.find? u = some ei := by
  cases ht : c.tableCache.find? t with
  | some _ => rwa [cacheTable_of_find ht]
  | none => rw [cacheTable_of_find_none ht]; simp [h]

theorem WellFormed.cacheTable (hw : c.WellFormed) (t : Nat) : (c.cacheTable t).2.WellFormed := by
  cases h : c.tableCache.find? t with
  | some ei => rwa [cacheTable_of_find h]
  | none =>
    rw [cacheTable_of_find_none h]
    -- the table was in no place, and takes the next one
    have hnot : t ∉ c.endIteratorToTable := fun hm => by
      obtain ⟨i, hi⟩ := List.getElem?_of_mem hm
      have := (hw.tables t _).mpr ⟨i, hi, rfl⟩
      rw [h] at this
      cases this
    refine ⟨hw.objects, fun t' ei => ?_, List.nodup_append.mpr ⟨hw.nodup, List.nodup_singleton t, ?_⟩⟩
    · show (c.tableCache.insert t _).find? t' = some ei ↔
        ∃ i, (c.endIteratorToTable ++ [t])[i]? = some t' ∧ ei = indexToEndIterator i
      rw [OrdMap.find?_insert_eq_some, hw.tables t' ei]
      constructor
      · rintro (⟨i, hi, rfl⟩ | ⟨-, rfl, rfl⟩)
        · exact ⟨i, by rw [List.getElem?_append_left (List.getElem?_eq_some_iff.mp hi).1]; exact hi, rfl⟩
        · exact ⟨c.endIteratorToTable.length, by simp, rfl⟩
      · rintro ⟨i, hi, rfl⟩
        rcases Nat.lt_or_ge i c.endIteratorToTable.length with hlt | hge
        · rw [List.getElem?_append_left hlt] at hi
          exact .inl ⟨i, hi, rfl⟩
        · rw [List.getElem?_append_right hge] at hi
          obtain ⟨hlt, heq⟩ := List.getElem?_eq_some_iff.mp hi
          simp only [List.length_singleton] at hlt
          simp only [List.getElem_singleton] at heq
          subst heq
          obtain rfl : i = c.endIteratorToTable.length := by omega
          exact .inr ⟨h, rfl, rfl⟩
    · intro a ha b hb
      rw [List.mem_singleton] at hb
      subst hb
      exact fun hab => hnot (hab ▸ ha)

theorem Live.cacheTable {live : Nat → Prop} (hl : c.Live live) (t : Nat) : (c.cacheTable t).2.Live live := by
  intro i o hi
  rw [iteratorToObject_cacheTable] at hi
  exact hl i o hi

/-- A cached table's end iterator is below `-1`. -/
theorem WellFormed.lt_of_find (hw : c.WellFormed) {t : Nat} {ei : Int} (h : c.tableCache.find? t = some ei) :
    ei < -1 := by
  obtain ⟨i, -, rfl⟩ := (hw.tables t ei).mp h
  exact indexToEndIterator_lt i

theorem getEndIteratorByTableId_of_find {t : Nat} {ei : Int} (h : c.tableCache.find? t = some ei) :
    c.getEndIteratorByTableId t = .ok ei := by
  simp [getEndIteratorByTableId, h]

/-- The end iterator of a cached table names the table. -/
theorem WellFormed.findTableByEndIterator_of_find (hw : c.WellFormed) {t : Nat} {ei : Int}
    (h : c.tableCache.find? t = some ei) : c.findTableByEndIterator ei = .ok (some t) := by
  obtain ⟨i, hi, rfl⟩ := (hw.tables t _).mp h
  have hlt : decide (indexToEndIterator i < -1) = true := decide_eq_true (indexToEndIterator_lt i)
  simp only [findTableByEndIterator, Except.assert, hlt, if_true, endIteratorToIndex_indexToEndIterator, hi, bind,
    Except.bind, pure, Except.pure]

/-- A table an end iterator names is cached. -/
theorem WellFormed.find_of_findTableByEndIterator (hw : c.WellFormed) {ei : Int} {t : Nat}
    (h : c.findTableByEndIterator ei = .ok (some t)) : (c.tableCache.find? t).isSome := by
  simp only [findTableByEndIterator, bind, Except.bind_eq_ok, Except.assert_eq_ok, decide_eq_true_eq, pure,
    Except.pure, Except.ok.injEq, exists_const] at h
  rw [(hw.tables t _).mpr ⟨_, h.2, rfl⟩]
  rfl

/-! ## `remove` -/

theorem remove_eq_ok {it : Int} {c' : IteratorCache} (h : c.remove it = .ok c') :
    (∃ o, c.iteratorToObject[it.toNat]? = some (some o) ∧
      c' = { c with
        iteratorToObject := c.iteratorToObject.set it.toNat none
        objectToIterator := c.objectToIterator.erase o }) ∨ c' = c := by
  simp only [remove, bind, Except.bind_eq_ok] at h
  obtain ⟨-, -, h⟩ := h
  split at h
  · rename_i o ho
    cases h
    exact .inl ⟨o, ho, rfl⟩
  · cases h
    exact .inr rfl

theorem WellFormed.remove (hw : c.WellFormed) {it : Int} {c' : IteratorCache} (h : c.remove it = .ok c') :
    c'.WellFormed := by
  rcases remove_eq_ok h with ⟨o, ho, rfl⟩ | rfl
  · refine ⟨fun o' i => ?_, hw.tables, hw.nodup⟩
    show (c.objectToIterator.erase o).find? o' = some i ↔ (c.iteratorToObject.set it.toNat none)[i]? = some (some o')
    rw [OrdMap.find?_erase, List.getElem?_set]
    have hlt : it.toNat < c.iteratorToObject.length := (List.getElem?_eq_some_iff.mp ho).1
    -- the iterator loses its object, and the object its iterator
    by_cases hi : it.toNat = i
    · subst hi
      rw [if_pos rfl, if_pos hlt]
      by_cases ho' : o' = o
      · simp [ho']
      · rw [if_neg ho', hw.objects o' it.toNat, ho]
        simp [Ne.symm ho']
    · rw [if_neg hi]
      by_cases ho' : o' = o
      · subst ho'
        rw [if_pos rfl]
        constructor
        · intro h'
          cases h'
        · intro hi'
          have h₁ := (hw.objects o' _).mpr hi'
          rw [(hw.objects o' _).mpr ho] at h₁
          exact absurd (Option.some.inj h₁) hi
      · rw [if_neg ho', hw.objects o' i]
  · exact hw

theorem Live.remove {live : Nat → Prop} (hl : c.Live live) {it : Int} {c' : IteratorCache} (h : c.remove it = .ok c') :
    c'.Live live := by
  rcases remove_eq_ok h with ⟨o, -, rfl⟩ | rfl
  · intro i o' hi
    change (c.iteratorToObject.set it.toNat none)[i]? = some (some o') at hi
    rw [List.getElem?_set] at hi
    split_ifs at hi
    · cases hi
    · exact hl i o' hi
  · exact hl

end IteratorCache

end Gstio.Chain
