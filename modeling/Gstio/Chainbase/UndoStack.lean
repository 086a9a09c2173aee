import Gstio.Chainbase.GenericIndex
import Gstio.Lib.KeyDiff

/-!
# The undo stack refines a stack of snapshots

What a `generic_index` is for: every open session remembers the objects (and `_next_id`) at its start, `undo`
goes back to the last of them, `squash` forgets it, `commit` forgets the first ones. The index keeps no
snapshots; it keeps one `undo_state` of differences per session.

* `Refines s snaps`: each `undo_state` on the stack is, id by id, exactly the `Change` from the snapshot of its
  session to the snapshot of the next session (to the current objects for the top state), and ids are handed out
  upwards (`Fresh`);
* every member function that returns without throwing keeps `Refines` (`Refines.emplace`, `Refines.modify`,
  `Refines.remove`, `Refines.startUndoSession`, `Refines.undo`, `Refines.squash`, `Refines.commit`), hence every
  run does (`Refines.run`);
* an `undo` that does not throw restores the snapshot exactly (`undo_restores`), and when `squash` then `undo`
  and two `undo`s both go through they leave the same index (`undo_squash_eq_undo_undo`).

Whether `undo` goes through is another matter: it restores old values before it erases new objects, so a unique
key taken over during the session makes it throw.
-/

namespace Gstio.Chainbase

variable {V K : Type} [DecidableEq K] (keys : List (Nat × V → K))

/-! ## What an undo state records about one id -/

namespace UndoState

/-- The record of `x`: its value before the session if modified, whether it is new, its value if removed. -/
def change (u : UndoState V) (x : Nat) : Change V :=
  ⟨u.oldValues.find? x, u.newIds.contains x, u.removedValues.find? x⟩

@[simp] theorem change_empty (n : Nat) (r : Int) (x : Nat) : (empty n r : UndoState V).change x = .nop := rfl

theorem change_onModify (u : UndoState V) (id : Nat) (v : V) (x : Nat) :
    (u.onModify id v).change x = if x = id then (u.change x).modify v else u.change x := by
  unfold onModify
  by_cases hx : x = id
  · subst hx
    rw [if_pos rfl]
    split_ifs with hn ho <;> simp_all [change, Change.modify, OrdMap.contains]
  · rw [if_neg hx]
    split_ifs <;> simp [change, hx]

theorem change_onRemove (u : UndoState V) (id : Nat) (v : V) (x : Nat) :
    (u.onRemove id v).change x = if x = id then (u.change x).remove v else u.change x := by
  unfold onRemove
  by_cases hx : x = id
  · subst hx
    rw [if_pos rfl]
    split
    · rename_i hn
      simp [change, Change.remove, hn]
    · rename_i hn
      split
      · rename_i old hold
        simp [change, Change.remove, hn, hold]
      · rename_i hold
        split_ifs with hr
        · -- already removed: the first value stays
          obtain ⟨r, hr⟩ := Option.isSome_iff_exists.mp hr
          simp [change, Change.remove, hn, hold, hr]
        · simp [change, Change.remove, hn, hold]
  · rw [if_neg hx]
    split
    · simp [change, hx]
    · split
      · simp [change, hx]
      · split_ifs <;> simp [change, hx]

theorem change_onCreate (u : UndoState V) (id x : Nat) :
    (u.onCreate id).change x = if x = id then (u.change x).create else u.change x := by
  by_cases hx : x = id <;> simp [onCreate, change, Change.create, OrdMap.contains, hx]

/-! The loops of `squash` record the top state's changes into the state below as the `on_*` handlers would. -/

theorem change_squashOldValue (u : UndoState V) (item : Nat × V) (x : Nat) :
    (u.squashOldValue item).change x = if x = item.1 then (u.change x).modify item.2 else u.change x := by
  have h : u.squashOldValue item = u.onModify item.1 item.2 := rfl
  rw [h, change_onModify]

theorem change_squashNewId (u : UndoState V) (item : Nat × Unit) (x : Nat) :
    (u.squashNewId item).change x = if x = item.1 then (u.change x).create else u.change x :=
  change_onCreate u item.1 x

/-- `squash` asserts where `on_remove` checks `removed_values` first; with emplace semantics the two agree. -/
theorem squashRemovedValue_eq_onRemove (u : UndoState V) (item : Nat × V) :
    u.squashRemovedValue item = u.onRemove item.1 item.2 := by
  unfold squashRemovedValue onRemove
  split
  · rfl
  · split
    · rfl
    · split_ifs with hr
      · -- `removed_values` has the id: `emplace` keeps its entry
        obtain ⟨r, hr⟩ := Option.isSome_iff_exists.mp hr
        congr 1
        apply OrdMap.ext
        intro y
        by_cases hy : y = item.1
        · subst hy
          simp [hr]
        · simp [hy]
      · rfl

theorem change_squashRemovedValue (u : UndoState V) (item : Nat × V) (x : Nat) :
    (u.squashRemovedValue item).change x = if x = item.1 then (u.change x).remove item.2 else u.change x := by
  rw [squashRemovedValue_eq_onRemove, change_onRemove]

theorem getD_map_const {α : Type} (o : Option Unit) (a b : α) : (o.map fun _ => a).getD b = if o.isSome then a else b := by
  cases o <;> rfl

/-- **Squash, one id at a time.** The merged state records the merge of the two records. -/
theorem change_merge (prev state : UndoState V) (x : Nat) :
    (prev.merge state).change x = (prev.change x).merge (state.change x) := by
  unfold merge
  rw [OrdMap.foldl_at change squashRemovedValue (fun _ v c => c.remove v) (fun a e y => change_squashRemovedValue a e y),
    OrdMap.foldl_at change squashNewId (fun _ _ c => c.create) (fun a e y => change_squashNewId a e y),
    OrdMap.foldl_at change squashOldValue (fun _ v c => c.modify v) (fun a e y => change_squashOldValue a e y),
    getD_map_const]
  rfl

theorem oldNextId_foldl {α : Type} (f : UndoState V → α → UndoState V) (hf : ∀ u a, (f u a).oldNextId = u.oldNextId) :
    ∀ (l : List α) (u : UndoState V), (l.foldl f u).oldNextId = u.oldNextId
  | [], _ => rfl
  | a :: l, u => by rw [List.foldl_cons, oldNextId_foldl f hf l, hf]

theorem oldNextId_merge (prev state : UndoState V) : (prev.merge state).oldNextId = prev.oldNextId := by
  have h₁ : ∀ (u : UndoState V) (e : Nat × V), (u.squashOldValue e).oldNextId = u.oldNextId := by
    intro u e
    unfold squashOldValue
    split_ifs <;> rfl
  have h₃ : ∀ (u : UndoState V) (e : Nat × V), (u.squashRemovedValue e).oldNextId = u.oldNextId := by
    intro u e
    unfold squashRemovedValue
    split
    · rfl
    · split <;> rfl
  unfold merge
  rw [oldNextId_foldl _ h₃, oldNextId_foldl squashNewId (fun _ _ => rfl), oldNextId_foldl _ h₁]

end UndoState

/-! ## Member functions that return -/

namespace GenericIndex

@[simp] theorem indices_onHead (s : GenericIndex V) (f : UndoState V → UndoState V) :
    (s.onHead f).indices = s.indices := by
  unfold onHead
  split <;> rfl

@[simp] theorem nextId_onHead (s : GenericIndex V) (f : UndoState V → UndoState V) :
    (s.onHead f).nextId = s.nextId := by
  unfold onHead
  split <;> rfl

theorem stack_onHead (s : GenericIndex V) (f : UndoState V → UndoState V) :
    (s.onHead f).stack = match s.stack with | [] => [] | u :: us => f u :: us := by
  unfold onHead
  split <;> simp_all

/-- An `emplace` that returns added the object under `_next_id`, which was free. -/
theorem emplace_ok {s : GenericIndex V} {v : V} (h : (s.emplace keys v).2 = none) :
    s.indices.find? s.nextId = none ∧
      (s.emplace keys v).1 = ({ s with indices := s.indices.insert s.nextId v, nextId := s.nextId + 1 } :
        GenericIndex V).onHead (·.onCreate s.nextId) := by
  cases he : emplaceObject keys s.indices s.nextId v with
  | none => simp [emplace, he] at h
  | some idx =>
    unfold emplaceObject at he
    split_ifs at he with hc
    cases he
    simp only [Bool.or_eq_true, not_or, Bool.not_eq_true] at hc
    refine ⟨by simpa [OrdMap.contains] using hc.1, ?_⟩
    simp [emplace, emplaceObject, hc]

/-- A `modify` that returns recorded the value before and set the new one. -/
theorem modify_ok {s : GenericIndex V} {id : Nat} {m : V → V} (h : (s.modify keys id m).2 = none) :
    ∃ v, s.indices.find? id = some v ∧
      (s.modify keys id m).1 = { s.onHead (·.onModify id v) with indices := (s.indices.erase id).insert id (m v) } := by
  cases hf : s.indices.find? id with
  | none => simp [modify, hf] at h
  | some v =>
    refine ⟨v, rfl, ?_⟩
    by_cases hc : collides keys s.indices id (m v) = true
    · simp [modify, hf, modifyObject, hc] at h
    · simp [modify, hf, modifyObject, hc]

/-- A `remove` that returns recorded the value and erased the object. -/
theorem remove_ok {s : GenericIndex V} {id : Nat} (h : (s.remove id).2 = none) :
    ∃ v, s.indices.find? id = some v ∧
      (s.remove id).1 = { s.onHead (·.onRemove id v) with indices := s.indices.erase id } := by
  cases hf : s.indices.find? id with
  | none => simp [remove, hf] at h
  | some v => exact ⟨v, rfl, by simp [remove, hf]⟩

theorem find?_modify_self {s : GenericIndex V} {id : Nat} {v : V} {m : V → V}
    (hv : s.indices.find? id = some v) (h : (s.modify keys id m).2 = none) :
    (s.modify keys id m).1.indices.find? id = some (m v) := by
  obtain ⟨v', hv', heq⟩ := modify_ok keys h
  rw [hv, Option.some_inj] at hv'
  subst hv'
  rw [heq]
  simp

theorem find?_modify_ne {s : GenericIndex V} {id x : Nat} {m : V → V} (h : (s.modify keys id m).2 = none)
    (hx : x ≠ id) : (s.modify keys id m).1.indices.find? x = s.indices.find? x := by
  obtain ⟨v, -, heq⟩ := modify_ok keys h
  rw [heq]
  simp [hx]

theorem find?_emplace {s : GenericIndex V} {v : V} (h : (s.emplace keys v).2 = none) (x : Nat) :
    (s.emplace keys v).1.indices.find? x = if x = s.nextId then some v else s.indices.find? x := by
  obtain ⟨hfresh, heq⟩ := emplace_ok keys h
  rw [heq, indices_onHead, OrdMap.find?_insert]
  by_cases hx : x = s.nextId
  · simp [hx, hfresh]
  · simp [hx]

theorem find?_remove {s : GenericIndex V} {id : Nat} (h : (s.remove id).2 = none) (x : Nat) :
    (s.remove id).1.indices.find? x = if x = id then none else s.indices.find? x := by
  obtain ⟨v, -, heq⟩ := remove_ok h
  rw [heq]
  by_cases hx : x = id <;> simp [hx]

/-! ### Sums over the objects -/

theorem sumBy_emplace (g : Nat → V → Nat) {s : GenericIndex V} {v : V} (h : (s.emplace keys v).2 = none) :
    (s.emplace keys v).1.indices.sumBy g = g s.nextId v + s.indices.sumBy g := by
  obtain ⟨hfresh, heq⟩ := emplace_ok keys h
  rw [heq, indices_onHead]
  exact OrdMap.sumBy_insert g hfresh v

theorem sumBy_modify (g : Nat → V → Nat) {s : GenericIndex V} {id : Nat} {v : V} {m : V → V}
    (hv : s.indices.find? id = some v) (h : (s.modify keys id m).2 = none) :
    (s.modify keys id m).1.indices.sumBy g + g id v = s.indices.sumBy g + g id (m v) := by
  obtain ⟨v', hv', heq⟩ := modify_ok keys h
  rw [hv, Option.some_inj] at hv'
  subst hv'
  rw [heq]
  exact OrdMap.sumBy_set g hv (m v)

theorem sumBy_remove (g : Nat → V → Nat) {s : GenericIndex V} {id : Nat} {v : V}
    (hv : s.indices.find? id = some v) (h : (s.remove id).2 = none) :
    s.indices.sumBy g = g id v + (s.remove id).1.indices.sumBy g := by
  obtain ⟨v', -, heq⟩ := remove_ok h
  rw [heq]
  exact OrdMap.sumBy_erase g hv

end GenericIndex

/-- The first loop of `undo`, when it goes through, sets every recorded id to its old value. -/
theorem restoreOldValues_ok :
    ∀ {idx : OrdMap Nat V} {l : List (Nat × V)}, l.Pairwise (fun a b => a.1 < b.1) →
      (restoreOldValues keys idx l).2 = none →
        ∀ x, (restoreOldValues keys idx l).1.find? x = (l.lookup x).or (idx.find? x)
  | _, [], _, _, x => by simp [restoreOldValues]
  | idx, (id, v) :: rest, hs, h, x => by
    obtain ⟨hid, hrest⟩ := List.pairwise_cons.mp hs
    cases hf : idx.find? id with
    | none => simp [restoreOldValues, hf] at h
    | some w =>
      by_cases hc : collides keys idx id v = true
      · simp [restoreOldValues, hf, modifyObject, hc] at h
      · have hc' : collides keys idx id v = false := by simpa using hc
        simp only [restoreOldValues, hf, modifyObject, hc', Bool.false_eq_true, if_false, if_true] at h ⊢
        rw [restoreOldValues_ok hrest h x]
        by_cases hx : x = id
        · subst hx
          have hnone : rest.lookup x = none := OrdMap.lookup_eq_none_of_lt hid
          simp [hnone]
        · simp [List.lookup_cons, beq_false_of_ne hx, hx]

/-- The second loop of `undo` erases the new ids. -/
theorem find?_eraseNewIds (idx : OrdMap Nat V) (ids : OrdMap Nat Unit) (x : Nat) :
    (eraseNewIds idx ids.entries).find? x = if ids.contains x then none else idx.find? x := by
  unfold eraseNewIds
  rw [OrdMap.foldl_at (fun idx y => idx.find? y) (fun idx e => idx.erase e.1) (fun _ _ _ => none)
    (fun a e y => OrdMap.find?_erase a e.1 y) ids idx x, UndoState.getD_map_const]
  rfl

/-- The third loop of `undo`, when it goes through, puts back every removed object. -/
theorem restoreRemovedValues_ok :
    ∀ {idx : OrdMap Nat V} {l : List (Nat × V)}, (restoreRemovedValues keys idx l).2 = none →
      ∀ x, (restoreRemovedValues keys idx l).1.find? x = (idx.find? x).or (l.lookup x)
  | _, [], _, x => by simp [restoreRemovedValues]
  | idx, (id, v) :: rest, h, x => by
    cases he : emplaceObject keys idx id v with
    | none => simp [restoreRemovedValues, he] at h
    | some idx' =>
      simp only [restoreRemovedValues, he] at h ⊢
      have hidx : idx' = idx.insert id v := by
        unfold emplaceObject at he
        split_ifs at he
        exact (Option.some.inj he).symm
      rw [restoreRemovedValues_ok h x, hidx, OrdMap.find?_insert, List.lookup_cons]
      by_cases hx : x = id
      · subst hx
        cases idx.find? x <;> simp
      · simp [hx, beq_false_of_ne hx]

namespace GenericIndex

/-- An `undo` that returns popped the top state, restored `_next_id`, and undid the top state's record at every
id. -/
theorem undo_ok {s : GenericIndex V} {u : UndoState V} {us : List (UndoState V)} (hs : s.stack = u :: us)
    (h : (s.undo keys).2 = none) :
    (s.undo keys).1.stack = us ∧ (s.undo keys).1.revision = s.revision - 1 ∧
      (s.undo keys).1.nextId = u.oldNextId ∧ ∀ x, (s.undo keys).1.indices.find? x = (u.change x).restore (s.indices.find? x) := by
  have h₁ : (restoreOldValues keys s.indices u.oldValues.entries).2 = none := by
    cases he : (restoreOldValues keys s.indices u.oldValues.entries).2 with
    | none => rfl
    | some e => simp [undo, hs, he] at h
  have h₃ : (restoreRemovedValues keys (eraseNewIds (restoreOldValues keys s.indices u.oldValues.entries).1
      u.newIds.entries) u.removedValues.entries).2 = none := by
    cases he : (restoreRemovedValues keys (eraseNewIds (restoreOldValues keys s.indices u.oldValues.entries).1
      u.newIds.entries) u.removedValues.entries).2 with
    | none => rfl
    | some e => simp [undo, hs, h₁, he] at h
  simp only [undo, hs, h₁, h₃]
  refine ⟨trivial, trivial, trivial, fun x => ?_⟩
  rw [restoreRemovedValues_ok keys h₃ x, find?_eraseNewIds, restoreOldValues_ok keys u.oldValues.sorted h₁ x]
  rfl

end GenericIndex

/-! ## Snapshots -/

/-- What a session remembers at its start: the objects and `_next_id`. -/
structure Snapshot (V : Type) where
  objects : OrdMap Nat V
  nextId : Nat

/-- Each undo state records, id by id, the change from the snapshot of its session to the objects above it (the
next snapshot, or `cur` for the top state), and its `old_next_id` is the snapshot's. -/
def StackDescribes : List (UndoState V) → List (Snapshot V) → OrdMap Nat V → Prop
  | [], [], _ => True
  | u :: us, S :: Ss, cur =>
    (∀ x, (u.change x).Describes (S.objects.find? x) (cur.find? x)) ∧ u.oldNextId = S.nextId ∧
      StackDescribes us Ss S.objects
  | _, _, _ => False

/-- Every object has an id below `n`. -/
def Below (m : OrdMap Nat V) (n : Nat) : Prop := ∀ x, m.find? x ≠ none → x < n

/-- Ids are handed out upwards: every state's objects are below its `_next_id`, next ids grow up the stack, and
an object that a snapshot lacks but the state above it has was created after the snapshot. -/
def Fresh : List (Snapshot V) → OrdMap Nat V → Nat → Prop
  | [], cur, n => Below cur n
  | S :: Ss, cur, n =>
    Below cur n ∧ S.nextId ≤ n ∧ (∀ x, cur.find? x ≠ none → S.objects.find? x = none → S.nextId ≤ x) ∧
      Fresh Ss S.objects S.nextId

/-- **The refinement relation** between a `generic_index` and the snapshots of its open sessions, the last one
first. -/
structure Refines (s : GenericIndex V) (snaps : List (Snapshot V)) : Prop where
  describes : StackDescribes s.stack snaps s.indices
  fresh : Fresh snaps s.indices s.nextId

theorem Fresh.below : ∀ {Ss : List (Snapshot V)} {cur : OrdMap Nat V} {n : Nat}, Fresh Ss cur n → Below cur n
  | [], _, _, h => h
  | _ :: _, _, _, h => h.1

/-- An object created under the next id keeps ids handed out upwards. -/
theorem Fresh.insert {Ss : List (Snapshot V)} {cur : OrdMap Nat V} {n : Nat} (h : Fresh Ss cur n) (v : V) :
    Fresh Ss (cur.insert n v) (n + 1) := by
  have hb : Below (cur.insert n v) (n + 1) := by
    intro x hx
    by_cases hxn : x = n
    · omega
    · have := h.below x (by simpa [hxn] using hx)
      omega
  cases Ss with
  | nil => exact hb
  | cons S Ss =>
    obtain ⟨-, hle, hnew, hrest⟩ := h
    refine ⟨hb, by omega, fun x hx hS => ?_, hrest⟩
    by_cases hxn : x = n
    · omega
    · exact hnew x (by simpa [hxn] using hx) hS

/-- Objects that were already there keep ids handed out upwards. -/
theorem Fresh.mono {Ss : List (Snapshot V)} {cur cur' : OrdMap Nat V} {n : Nat} (h : Fresh Ss cur n)
    (hsub : ∀ x, cur'.find? x ≠ none → cur.find? x ≠ none) : Fresh Ss cur' n := by
  cases Ss with
  | nil => exact fun x hx => h x (hsub x hx)
  | cons S Ss =>
    obtain ⟨hb, hle, hnew, hrest⟩ := h
    exact ⟨fun x hx => hb x (hsub x hx), hle, fun x hx hS => hnew x (hsub x hx) hS, hrest⟩

/-- A snapshot below a state has no object at the state's next id. -/
theorem Fresh.find?_snapshot {S : Snapshot V} {Ss : List (Snapshot V)} {cur : OrdMap Nat V} {n : Nat}
    (h : Fresh (S :: Ss) cur n) : S.objects.find? n = none := by
  by_contra hne
  have := h.2.2.2.below n hne
  have := h.2.1
  omega

namespace Refines

variable {s : GenericIndex V} {snaps : List (Snapshot V)}

/-- A fresh index, or any index with no open session whose ids are below `_next_id`. -/
theorem init (hs : s.stack = []) (hb : Below s.indices s.nextId) : Refines s [] where
  describes := by rw [hs]; trivial
  fresh := hb

/-- **Step rule for the updates of the current objects.** A call that changes the head state by `f` and the
objects to `s'.indices` keeps the stack exact when the new head is exact against the snapshot of its session. -/
theorem of_head (h : Refines s snaps) {s' : GenericIndex V} (f : UndoState V → UndoState V)
    (hstack : s'.stack = (s.onHead f).stack) (hnext : ∀ u, (f u).oldNextId = u.oldNextId)
    (hhead : ∀ (u : UndoState V) (S : Snapshot V), S.objects.find? s.nextId = none →
      (∀ x, (u.change x).Describes (S.objects.find? x) (s.indices.find? x)) →
        ∀ x, ((f u).change x).Describes (S.objects.find? x) (s'.indices.find? x))
    (hfresh : Fresh snaps s'.indices s'.nextId) : Refines s' snaps := by
  refine ⟨?_, hfresh⟩
  have hd := h.describes
  rw [hstack, GenericIndex.stack_onHead]
  cases hs : s.stack with
  | nil =>
    rw [hs] at hd
    cases snaps with
    | nil => trivial
    | cons S Ss => exact absurd hd id
  | cons u us =>
    rw [hs] at hd
    cases snaps with
    | nil => exact absurd hd id
    | cons S Ss =>
      obtain ⟨hu, hn, hrest⟩ := hd
      exact ⟨hhead u S h.fresh.find?_snapshot hu, (hnext u).trans hn, hrest⟩

theorem emplace (h : Refines s snaps) {v : V} (hok : (s.emplace keys v).2 = none) :
    Refines (s.emplace keys v).1 snaps := by
  obtain ⟨hfree, heq⟩ := GenericIndex.emplace_ok keys hok
  rw [heq]
  refine h.of_head (·.onCreate s.nextId) (by simp [GenericIndex.stack_onHead]) (fun _ => rfl) ?_ ?_
  · intro u S hS hu x
    rw [UndoState.change_onCreate, GenericIndex.indices_onHead]
    by_cases hx : x = s.nextId
    · subst hx
      have hnop := hu s.nextId
      rw [hS, hfree] at hnop
      simpa [hS, hfree] using Change.describes_create hnop v
    · simpa [hx] using hu x
  · simpa using h.fresh.insert v

theorem modify (h : Refines s snaps) {id : Nat} {m : V → V} (hok : (s.modify keys id m).2 = none) :
    Refines (s.modify keys id m).1 snaps := by
  obtain ⟨v, hv, heq⟩ := GenericIndex.modify_ok keys hok
  rw [heq]
  refine h.of_head (·.onModify id v) rfl (fun u => by unfold UndoState.onModify; split_ifs <;> rfl) ?_ ?_
  · intro u S _ hu x
    rw [UndoState.change_onModify]
    by_cases hx : x = id
    · subst hx
      have hux := hu x
      rw [hv] at hux
      simpa using Change.describes_modify hux (m v)
    · simpa [hx] using hu x
  · have hsub : ∀ x, ((s.indices.erase id).insert id (m v)).find? x ≠ none → s.indices.find? x ≠ none := by
      intro x hx
      by_cases hxi : x = id
      · simp [hxi, hv]
      · simpa [hxi] using hx
    simpa using h.fresh.mono hsub

theorem remove (h : Refines s snaps) {id : Nat} (hok : (s.remove id).2 = none) : Refines (s.remove id).1 snaps := by
  obtain ⟨v, hv, heq⟩ := GenericIndex.remove_ok hok
  rw [heq]
  refine h.of_head (·.onRemove id v) rfl (fun u => by unfold UndoState.onRemove; split <;> (try split) <;> (try split_ifs) <;> rfl) ?_ ?_
  · intro u S _ hu x
    rw [UndoState.change_onRemove]
    by_cases hx : x = id
    · subst hx
      have hux := hu x
      rw [hv] at hux
      simpa using Change.describes_remove hux
    · simpa [hx] using hu x
  · have hsub : ∀ x, (s.indices.erase id).find? x ≠ none → s.indices.find? x ≠ none := by
      intro x hx
      by_cases hxi : x = id
      · simp [hxi] at hx
      · simpa [hxi] using hx
    simpa using h.fresh.mono hsub

theorem startUndoSession (h : Refines s snaps) :
    Refines s.startUndoSession (⟨s.indices, s.nextId⟩ :: snaps) where
  describes := ⟨fun x => by simpa [GenericIndex.startUndoSession] using Change.describes_nop (s.indices.find? x),
    rfl, h.describes⟩
  fresh := ⟨h.fresh.below, le_rfl, fun _ hx hS => absurd hS hx, h.fresh⟩

end Refines

namespace Refines

variable {s : GenericIndex V} {snaps : List (Snapshot V)}

/-- **Undo restores.** An `undo` that does not throw gives back exactly the objects and `_next_id` of the start of
the last session, and forgets its snapshot. -/
theorem undo {S : Snapshot V} {Ss : List (Snapshot V)} (h : Refines s (S :: Ss)) (hok : (s.undo keys).2 = none) :
    (s.undo keys).1.indices = S.objects ∧ (s.undo keys).1.nextId = S.nextId ∧ Refines (s.undo keys).1 Ss := by
  have hd := h.describes
  cases hs : s.stack with
  | nil =>
    rw [hs] at hd
    exact absurd hd id
  | cons u us =>
    rw [hs] at hd
    obtain ⟨hu, hn, hrest⟩ := hd
    obtain ⟨hstack, -, hnext, hfind⟩ := GenericIndex.undo_ok keys hs hok
    have hidx : (s.undo keys).1.indices = S.objects :=
      OrdMap.ext fun x => by rw [hfind, Change.restore_of_describes (hu x)]
    refine ⟨hidx, hnext.trans hn, ⟨by rw [hstack, hidx]; exact hrest, ?_⟩⟩
    rw [hidx, hnext, hn]
    exact h.fresh.2.2.2

/-- **Squash forgets the last snapshot.** The merged state is exact from the snapshot below: an object removed in
one session and present again after the next would need its id handed out twice. -/
theorem squash {S₁ S₀ : Snapshot V} {Ss : List (Snapshot V)} (h : Refines s (S₁ :: S₀ :: Ss)) :
    Refines s.squash (S₀ :: Ss) := by
  have hd := h.describes
  obtain ⟨hb, hle₁, hnew₁, hb₁, hle₀, hnew₀, hrest₀⟩ := h.fresh
  cases hs : s.stack with
  | nil =>
    rw [hs] at hd
    exact absurd hd id
  | cons u₁ us =>
    cases us with
    | nil =>
      rw [hs] at hd
      exact absurd hd.2.2 id
    | cons u₀ us =>
      rw [hs] at hd
      obtain ⟨hu₁, -, hu₀, hn₀, hrest⟩ := hd
      have hsq : s.squash = { s with stack := u₀.merge u₁ :: us, revision := s.revision - 1 } := by
        simp [GenericIndex.squash, hs]
      rw [hsq]
      refine ⟨⟨fun x => ?_, (UndoState.oldNextId_merge u₀ u₁).trans hn₀, hrest⟩, ⟨hb, hle₀.trans hle₁, fun x hx hS => ?_, hrest₀⟩⟩
      · rw [UndoState.change_merge]
        refine Change.describes_merge (hu₀ x) (hu₁ x) fun h₀ h₂ h₁ => ?_
        have hlt := hrest₀.below x h₀
        have hge := hnew₁ x h₂ (by simpa using h₁)
        omega
      · by_cases h₁ : S₁.objects.find? x = none
        · have := hnew₁ x hx h₁
          omega
        · exact hnew₀ x h₁ hS

/-- Squashing the only session forgets it. -/
theorem squash_last {S : Snapshot V} (h : Refines s [S]) : Refines s.squash [] := by
  have hd := h.describes
  cases hs : s.stack with
  | nil =>
    rw [hs] at hd
    exact absurd hd id
  | cons u us =>
    cases us with
    | nil =>
      have hsq : s.squash = { s with stack := [], revision := s.revision - 1 } := by simp [GenericIndex.squash, hs]
      rw [hsq]
      exact ⟨trivial, h.fresh.below⟩
    | cons u₀ us =>
      rw [hs] at hd
      exact absurd hd.2.2 id

theorem stackDescribes_take : ∀ (k : Nat) {us : List (UndoState V)} {Ss : List (Snapshot V)} {cur : OrdMap Nat V},
    StackDescribes us Ss cur → StackDescribes (us.take k) (Ss.take k) cur
  | 0, _, _, _, _ => by simp [StackDescribes]
  | _ + 1, [], [], _, _ => trivial
  | k + 1, _ :: _, _ :: _, _, ⟨hu, hn, hrest⟩ => ⟨hu, hn, stackDescribes_take k hrest⟩

theorem fresh_take : ∀ (k : Nat) {Ss : List (Snapshot V)} {cur : OrdMap Nat V} {n : Nat},
    Fresh Ss cur n → Fresh (Ss.take k) cur n
  | 0, _, _, _, h => h.below
  | _ + 1, [], _, _, h => h
  | k + 1, _ :: _, _, _, ⟨hb, hle, hnew, hrest⟩ => ⟨hb, hle, hnew, fresh_take k hrest⟩

theorem stackDescribes_length : ∀ {us : List (UndoState V)} {Ss : List (Snapshot V)} {cur : OrdMap Nat V},
    StackDescribes us Ss cur → us.length = Ss.length
  | [], [], _, _ => rfl
  | _ :: _, _ :: _, _, ⟨_, _, hrest⟩ => by simp [stackDescribes_length hrest]

/-- **Commit forgets the first snapshots.** -/
theorem commit (h : Refines s snaps) (revision : Int) :
    Refines (s.commit revision) (snaps.take (s.commit revision).stack.length) := by
  -- the states kept are a prefix of the stack read from its back
  have hpre : (s.commit revision).stack <+: s.stack := by
    have := (List.dropWhile_suffix (fun u : UndoState V => decide (u.revision ≤ revision)) (l := s.stack.reverse))
    rw [← List.reverse_prefix, List.reverse_reverse] at this
    exact this
  have htake := List.prefix_iff_eq_take.mp hpre
  refine ⟨?_, fresh_take _ h.fresh⟩
  have hd := stackDescribes_take (s.commit revision).stack.length h.describes
  rw [← htake] at hd
  exact hd

end Refines

/-! ## Runs -/

/-- A call of a member function of `generic_index`. -/
inductive Op (V : Type)
  | emplace (v : V)
  | modify (id : Nat) (m : V → V)
  | remove (id : Nat)
  | startUndoSession
  | undo
  | squash
  | commit (revision : Int)

namespace GenericIndex

/-- One call. -/
def apply (s : GenericIndex V) : Op V → GenericIndex V × Option IndexError
  | .emplace v => s.emplace keys v
  | .modify id m => s.modify keys id m
  | .remove id => s.remove id
  | .startUndoSession => (s.startUndoSession, none)
  | .undo => s.undo keys
  | .squash => (s.squash, none)
  | .commit revision => (s.commit revision, none)

/-- Calls one after another, until one throws. -/
def run (s : GenericIndex V) : List (Op V) → GenericIndex V × Option IndexError
  | [] => (s, none)
  | op :: ops =>
    match s.apply keys op with
    | (s', none) => s'.run ops
    | (s', some e) => (s', some e)

end GenericIndex

namespace Refines

variable {s : GenericIndex V} {snaps : List (Snapshot V)}

/-- **Step lemma.** Every call that returns keeps the index a refinement of some stack of snapshots. -/
theorem apply (h : Refines s snaps) (op : Op V) (hok : (s.apply keys op).2 = none) :
    ∃ snaps', Refines (s.apply keys op).1 snaps' := by
  cases op with
  | emplace v => exact ⟨snaps, h.emplace keys hok⟩
  | modify id m => exact ⟨snaps, h.modify keys hok⟩
  | remove id => exact ⟨snaps, h.remove hok⟩
  | startUndoSession => exact ⟨_, h.startUndoSession⟩
  | undo =>
    cases snaps with
    | nil =>
      -- no session: `undo` returns at once
      have hs : s.stack = [] := by
        have := stackDescribes_length h.describes
        simpa using this
      have hu : s.undo keys = (s, none) := by simp [GenericIndex.undo, hs]
      exact ⟨[], by simpa [GenericIndex.apply, hu] using h⟩
    | cons S Ss => exact ⟨Ss, (h.undo keys hok).2.2⟩
  | squash =>
    match snaps, h with
    | [], h =>
      have hs : s.stack = [] := by simpa using stackDescribes_length h.describes
      exact ⟨[], by simpa [GenericIndex.apply, GenericIndex.squash, hs] using h⟩
    | [_], h => exact ⟨[], h.squash_last⟩
    | _ :: _ :: _, h => exact ⟨_, h.squash⟩
  | commit revision => exact ⟨_, h.commit revision⟩

/-- **Run lemma.** A run of calls that all return keeps the index a refinement of some stack of snapshots. -/
theorem run : ∀ {s : GenericIndex V} {snaps : List (Snapshot V)} (ops : List (Op V)), Refines s snaps →
    (s.run keys ops).2 = none → ∃ snaps', Refines (s.run keys ops).1 snaps'
  | _, snaps, [], h, _ => ⟨snaps, h⟩
  | s, _, op :: ops, h, hok => by
    unfold GenericIndex.run at hok ⊢
    cases hop : s.apply keys op with
    | mk s' e =>
      cases e with
      | some e => simp [hop] at hok
      | none =>
        simp only [hop] at hok ⊢
        obtain ⟨snaps', h'⟩ := h.apply keys op (by rw [hop])
        rw [hop] at h'
        exact run ops h' hok

end Refines

namespace GenericIndex

theorem ext {a b : GenericIndex V} (hs : a.stack = b.stack) (hr : a.revision = b.revision) (hn : a.nextId = b.nextId)
    (hi : a.indices = b.indices) : a = b := by
  cases a
  cases b
  simp_all

end GenericIndex

/-- **Reachable indexes.** From a fresh index, every run of calls that all return leaves each undo state the exact
difference between the snapshots of consecutive sessions. -/
theorem init_run_refines (ops : List (Op V)) (hok : ((GenericIndex.init : GenericIndex V).run keys ops).2 = none) :
    ∃ snaps, Refines ((GenericIndex.init : GenericIndex V).run keys ops).1 snaps :=
  Refines.run keys ops (Refines.init rfl fun _ hx => absurd rfl hx) hok

/-- **Squash then undo is two undos**, whenever the three undos go through. -/
theorem undo_squash_eq_undo_undo {s : GenericIndex V} {S₁ S₀ : Snapshot V} {Ss : List (Snapshot V)}
    (h : Refines s (S₁ :: S₀ :: Ss)) (hsq : (s.squash.undo keys).2 = none) (hu : (s.undo keys).2 = none)
    (huu : ((s.undo keys).1.undo keys).2 = none) : (s.squash.undo keys).1 = ((s.undo keys).1.undo keys).1 := by
  obtain ⟨hi₁, hn₁, -⟩ := h.squash.undo keys hsq
  obtain ⟨-, -, h'⟩ := h.undo keys hu
  obtain ⟨hi₂, hn₂, -⟩ := h'.undo keys huu
  -- the stacks and revisions: the squashed state and the top state go, the rest stays
  have hd := h.describes
  cases hs : s.stack with
  | nil =>
    rw [hs] at hd
    exact absurd hd id
  | cons u₁ us =>
    cases us with
    | nil =>
      rw [hs] at hd
      exact absurd hd.2.2 id
    | cons u₀ us =>
      have hsq' : s.squash.stack = u₀.merge u₁ :: us := by simp [GenericIndex.squash, hs]
      obtain ⟨hst₁, hrev₁, -, -⟩ := GenericIndex.undo_ok keys hsq' hsq
      obtain ⟨hstu, hrevu, -, -⟩ := GenericIndex.undo_ok keys hs hu
      obtain ⟨hstuu, hrevuu, -, -⟩ := GenericIndex.undo_ok keys hstu huu
      have hrsq : s.squash.revision = s.revision - 1 := by simp [GenericIndex.squash, hs]
      exact GenericIndex.ext (hst₁.trans hstuu.symm) (by rw [hrev₁, hrevuu, hrevu, hrsq]) (hn₁.trans hn₂.symm)
        (hi₁.trans hi₂.symm)

end Gstio.Chainbase
