import Gstio.Chainbase.UndoStack

/-!
# Unique keys

A `generic_index` refuses an `emplace` or a `modify` that would give two objects the same unique key. So no two
of its objects ever share one (`UniqueKeys`, kept by `UniqueKeys.emplace`, `UniqueKeys.modify`,
`UniqueKeys.remove`), and a `modify` that leaves an object's keys as they were always goes through
(`modify_eq_none_of_keys`).
-/

namespace Gstio.Chainbase

variable {V K : Type} [DecidableEq K] (keys : List (Nat × V → K))

/-- No two objects share a unique key. -/
def UniqueKeys (idx : OrdMap Nat V) : Prop :=
  ∀ x y vx vy, idx.find? x = some vx → idx.find? y = some vy → x ≠ y → ∀ k ∈ keys, k (x, vx) ≠ k (y, vy)

variable {keys}

theorem collides_eq_false_iff {idx : OrdMap Nat V} {id : Nat} {v : V} :
    collides keys idx id v = false ↔
      ∀ y vy, idx.find? y = some vy → y ≠ id → ∀ k ∈ keys, k (y, vy) ≠ k (id, v) := by
  simp only [collides, List.any_eq_false, Bool.and_eq_true, bne_iff_ne, List.any_eq_true, beq_iff_eq, not_and,
    not_exists, Prod.forall, OrdMap.mem_entries_iff]

theorem collides_eq_false_of_emplace {s : GenericIndex V} {v : V} (h : (s.emplace keys v).2 = none) :
    collides keys s.indices s.nextId v = false := by
  cases hc : collides keys s.indices s.nextId v with
  | false => rfl
  | true => simp [GenericIndex.emplace, emplaceObject, hc] at h

theorem collides_eq_false_of_modify {s : GenericIndex V} {id : Nat} {m : V → V} (h : (s.modify keys id m).2 = none) :
    ∃ v, s.indices.find? id = some v ∧ collides keys s.indices id (m v) = false := by
  obtain ⟨v, hv, -⟩ := GenericIndex.modify_ok keys h
  refine ⟨v, hv, ?_⟩
  cases hc : collides keys s.indices id (m v) with
  | false => rfl
  | true => simp [GenericIndex.modify, hv, modifyObject, hc] at h

/-- A map that gives `id` the value `v` and keeps every other entry keeps the keys unique when no other object
has a key of `(id, v)`. -/
theorem UniqueKeys.set {idx idx' : OrdMap Nat V} {id : Nat} {v : V} (hu : UniqueKeys keys idx)
    (hc : collides keys idx id v = false) (hset : ∀ x w, idx'.find? x = some w → x = id ∧ w = v ∨ x ≠ id ∧ idx.find? x = some w) :
    UniqueKeys keys idx' := by
  have hfree := collides_eq_false_iff.mp hc
  intro x y vx vy hx hy hne k hk
  rcases hset x vx hx with ⟨rfl, rfl⟩ | ⟨hxid, hx'⟩ <;> rcases hset y vy hy with ⟨rfl, rfl⟩ | ⟨hyid, hy'⟩
  · exact absurd rfl hne
  · exact fun heq => hfree y vy hy' hyid k hk heq.symm
  · exact hfree x vx hx' hxid k hk
  · exact hu x y vx vy hx' hy' hne k hk

theorem UniqueKeys.emplace {s : GenericIndex V} {v : V} (hu : UniqueKeys keys s.indices)
    (h : (s.emplace keys v).2 = none) : UniqueKeys keys (s.emplace keys v).1.indices := by
  obtain ⟨hfresh, heq⟩ := GenericIndex.emplace_ok keys h
  rw [heq, GenericIndex.indices_onHead]
  refine hu.set (collides_eq_false_of_emplace h) fun x w hx => ?_
  rcases OrdMap.find?_insert_eq_some.mp hx with hx | ⟨-, rfl, rfl⟩
  · refine .inr ⟨fun e => ?_, hx⟩
    rw [e, hfresh] at hx
    simp at hx
  · exact .inl ⟨rfl, rfl⟩

theorem UniqueKeys.modify {s : GenericIndex V} {id : Nat} {m : V → V} (hu : UniqueKeys keys s.indices)
    (h : (s.modify keys id m).2 = none) : UniqueKeys keys (s.modify keys id m).1.indices := by
  obtain ⟨v, hv, heq⟩ := GenericIndex.modify_ok keys h
  obtain ⟨v', hv', hc⟩ := collides_eq_false_of_modify h
  rw [hv, Option.some_inj] at hv'
  subst hv'
  rw [heq]
  refine hu.set hc fun x w hx => ?_
  by_cases hxid : x = id
  · subst hxid
    simp at hx
    exact .inl ⟨rfl, hx.symm⟩
  · simp [hxid] at hx
    exact .inr ⟨hxid, hx⟩

omit [DecidableEq K] in
theorem UniqueKeys.remove {s : GenericIndex V} {id : Nat} (hu : UniqueKeys keys s.indices)
    (h : (s.remove id).2 = none) : UniqueKeys keys (s.remove id).1.indices := by
  obtain ⟨v, -, heq⟩ := GenericIndex.remove_ok h
  rw [heq]
  intro x y vx vy hx hy
  by_cases hxid : x = id
  · simp [hxid] at hx
  · by_cases hyid : y = id
    · simp [hyid] at hy
    · simp only [OrdMap.find?_erase, hxid, hyid, if_false] at hx hy
      exact hu x y vx vy hx hy

/-- A `modify` that leaves the object's keys as they were does not throw. -/
theorem modify_eq_none_of_keys {s : GenericIndex V} {id : Nat} {v : V} {m : V → V} (hu : UniqueKeys keys s.indices)
    (hv : s.indices.find? id = some v) (hk : ∀ k ∈ keys, k (id, m v) = k (id, v)) :
    (s.modify keys id m).2 = none := by
  have hc : collides keys s.indices id (m v) = false := by
    refine collides_eq_false_iff.mpr fun y vy hy hne k hkey => ?_
    rw [hk k hkey]
    exact hu y id vy v hy hv hne k hkey
  simp [GenericIndex.modify, hv, modifyObject, hc]

end Gstio.Chainbase
