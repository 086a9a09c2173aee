import Mathlib
import Gstio.Lib.OrdMap

/-!
# `chainbase::generic_index`

A `generic_index` holds the objects of one table (`_indices`, a `multi_index_container` with the id as primary
key and some unique secondary keys), the next id to hand out, and a stack of `undo_state`s, one per open undo
session. Every `emplace`, `modify` and `remove` first records in the top `undo_state` what `undo` needs
(`on_create`, `on_modify`, `on_remove`); `undo` replays the top state backwards, `squash` merges the top two
states, `commit` forgets the oldest ones.

An object is an id with a value `V`; the unique secondary indices are the key functions `keys`, each over the
whole object. The stack is read from its back: the head of `stack` is `_stack.back()`. A member function returns
the index it leaves behind, with the exception it threw, if any: boost's `modify` erases an object that no longer
fits its unique indices, so a failed call can change the index.
-/

namespace Gstio.Chainbase

/-- The exceptions of `generic_index`. -/
inductive IndexError
  /-- `"could not insert object, most likely a uniqueness constraint was violated"` -/
  | couldNotInsert
  /-- `"Could not modify object, most likely a uniqueness constraint was violated"` -/
  | couldNotModify
  /-- `"Could not restore object, most likely a uniqueness constraint was violated"` -/
  | couldNotRestore
  /-- `"unknown key"` (`std::out_of_range`): a `get` of an object that is not there. -/
  | keyNotFound
  deriving DecidableEq, Repr

/-- `undo_state`: the values of modified objects before the session, the values of removed ones, the ids
created in it, and `_next_id` when it started. -/
structure UndoState (V : Type) where
  oldValues : OrdMap Nat V
  removedValues : OrdMap Nat V
  newIds : OrdMap Nat Unit
  oldNextId : Nat
  revision : Int
  deriving DecidableEq

/-- `generic_index`. -/
structure GenericIndex (V : Type) where
  stack : List (UndoState V)
  revision : Int
  nextId : Nat
  indices : OrdMap Nat V
  deriving DecidableEq

variable {V K : Type} [DecidableEq K] (keys : List (Nat × V → K))

/-! ## The container -/

/-- Another object than `id` has a unique key of `(id, v)`. -/
def collides (idx : OrdMap Nat V) (id : Nat) (v : V) : Bool :=
  idx.entries.any fun o => o.1 != id && keys.any fun k => k o == k (id, v)

/-- `_indices.emplace`: fails when the id or a unique key is taken. -/
def emplaceObject (idx : OrdMap Nat V) (id : Nat) (v : V) : Option (OrdMap Nat V) :=
  if idx.contains id || collides keys idx id v then none else some (idx.insert id v)

/-- `_indices.modify`: the object takes the value `v`; when that collides, boost erases the object and the call
returns `false`. -/
def modifyObject (idx : OrdMap Nat V) (id : Nat) (v : V) : Bool × OrdMap Nat V :=
  if collides keys idx id v then (false, idx.erase id) else (true, (idx.erase id).insert id v)

/-! ## Recording changes -/

namespace UndoState

/-- The `undo_state` a session starts with. -/
def empty (nextId : Nat) (revision : Int) : UndoState V := ⟨.empty, .empty, .empty, nextId, revision⟩

/-- `on_modify` on the head: an object created or already modified in the session keeps its record. -/
def onModify (u : UndoState V) (id : Nat) (v : V) : UndoState V :=
  if u.newIds.contains id then u
  else if u.oldValues.contains id then u
  else { u with oldValues := u.oldValues.insert id v }

/-- `on_remove` on the head: an object created in the session is forgotten, a modified one moves its old value to
`removed_values`. -/
def onRemove (u : UndoState V) (id : Nat) (v : V) : UndoState V :=
  if u.newIds.contains id then { u with newIds := u.newIds.erase id }
  else match u.oldValues.find? id with
    | some old => { u with removedValues := u.removedValues.insert id old, oldValues := u.oldValues.erase id }
    | none => if u.removedValues.contains id then u else { u with removedValues := u.removedValues.insert id v }

/-- `on_create` on the head. -/
def onCreate (u : UndoState V) (id : Nat) : UndoState V := { u with newIds := u.newIds.insert id () }

end UndoState

/-- Apply a recording to the head of the stack, when a session is open (`enabled()`). -/
def GenericIndex.onHead (s : GenericIndex V) (f : UndoState V → UndoState V) : GenericIndex V :=
  match s.stack with
  | [] => s
  | head :: rest => { s with stack := f head :: rest }

/-! ## Member functions -/

namespace GenericIndex

/-- `emplace`: the object gets the id `_next_id`. -/
def emplace (s : GenericIndex V) (v : V) : GenericIndex V × Option IndexError :=
  match emplaceObject keys s.indices s.nextId v with
  | none => (s, some .couldNotInsert)
  | some idx => (({ s with indices := idx, nextId := s.nextId + 1 } : GenericIndex V).onHead (·.onCreate s.nextId), none)

/-- `modify`: `on_modify` records the value before `m`. -/
def modify (s : GenericIndex V) (id : Nat) (m : V → V) : GenericIndex V × Option IndexError :=
  match s.indices.find? id with
  | none => (s, some .keyNotFound)
  | some v =>
    let r := modifyObject keys s.indices id (m v)
    ({ s.onHead (·.onModify id v) with indices := r.2 }, if r.1 then none else some .couldNotModify)

/-- `remove`. -/
def remove (s : GenericIndex V) (id : Nat) : GenericIndex V × Option IndexError :=
  match s.indices.find? id with
  | none => (s, some .keyNotFound)
  | some v => ({ s.onHead (·.onRemove id v) with indices := s.indices.erase id }, none)

/-- `generic_index(allocator)`: no object and no session. -/
def init : GenericIndex V := ⟨[], 0, 0, .empty⟩

/-- `start_undo_session(true)`. -/
def startUndoSession (s : GenericIndex V) : GenericIndex V :=
  { s with stack := UndoState.empty s.nextId (s.revision + 1) :: s.stack, revision := s.revision + 1 }

end GenericIndex

/-- The first loop of `undo`: every modified object takes back its old value. An id that is not there leaves
boost's `modify` on `end()`, undefined; it is taken as a failed modify. -/
def restoreOldValues (idx : OrdMap Nat V) : List (Nat × V) → OrdMap Nat V × Option IndexError
  | [] => (idx, none)
  | (id, v) :: rest =>
    match idx.find? id with
    | none => (idx, some .couldNotModify)
    | some _ =>
      let r := modifyObject keys idx id v
      if r.1 then restoreOldValues r.2 rest else (r.2, some .couldNotModify)

/-- The second loop of `undo`: the objects created in the session are erased. -/
def eraseNewIds (idx : OrdMap Nat V) (ids : List (Nat × Unit)) : OrdMap Nat V :=
  ids.foldl (fun idx e => idx.erase e.1) idx

/-- The third loop of `undo`: the removed objects are put back. -/
def restoreRemovedValues (idx : OrdMap Nat V) : List (Nat × V) → OrdMap Nat V × Option IndexError
  | [] => (idx, none)
  | (id, v) :: rest =>
    match emplaceObject keys idx id v with
    | none => (idx, some .couldNotRestore)
    | some idx' => restoreRemovedValues idx' rest

namespace GenericIndex

/-- `undo`: old values first, then the new ids, then the removed objects; the state is popped only when all
three loops went through. -/
def undo (s : GenericIndex V) : GenericIndex V × Option IndexError :=
  match s.stack with
  | [] => (s, none)
  | head :: rest =>
    let r₁ := restoreOldValues keys s.indices head.oldValues.entries
    match r₁.2 with
    | some e => ({ s with indices := r₁.1 }, some e)
    | none =>
      let r₃ := restoreRemovedValues keys (eraseNewIds r₁.1 head.newIds.entries) head.removedValues.entries
      match r₃.2 with
      | some e => ({ s with indices := r₃.1, nextId := head.oldNextId }, some e)
      | none => ({ s with stack := rest, revision := s.revision - 1, indices := r₃.1, nextId := head.oldNextId }, none)

/-- A table whose objects are their own unique key. -/
def byValue : List (Nat × Nat → Nat) := [fun o => o.2]

/-- One object, id `0`, holding the unique key `1`. -/
def keyedIndex : GenericIndex Nat := ⟨[], 0, 1, OrdMap.empty.insert 0 1⟩

/-- In a session, object `0` moves to key `2` and a new object takes key `1`; both calls return. `undo` then
gives `0` back its key `1` while the new object still holds it: boost refuses, erases object `0`, and `undo`
throws. -/
theorem undo_throws_on_moved_key :
    (keyedIndex.startUndoSession.modify byValue 0 fun _ => 2).2 = none ∧
      ((keyedIndex.startUndoSession.modify byValue 0 fun _ => 2).1.emplace byValue 1).2 = none ∧
      (((keyedIndex.startUndoSession.modify byValue 0 fun _ => 2).1.emplace byValue 1).1.undo byValue).2 =
        some .couldNotModify ∧
      (((keyedIndex.startUndoSession.modify byValue 0 fun _ => 2).1.emplace byValue 1).1.undo
        byValue).1.indices.find? 0 = none := by
  decide

end GenericIndex

/-! ## Squash -/

namespace UndoState

/-- The loop of `squash` over the top state's `old_values`: `new+upd` and `upd+upd` keep the first record,
`nop+upd` takes the second. -/
def squashOldValue (prev : UndoState V) (item : Nat × V) : UndoState V :=
  if prev.newIds.contains item.1 then prev
  else if prev.oldValues.contains item.1 then prev
  else { prev with oldValues := prev.oldValues.insert item.1 item.2 }

/-- The loop of `squash` over the top state's `new_ids`. -/
def squashNewId (prev : UndoState V) (item : Nat × Unit) : UndoState V :=
  { prev with newIds := prev.newIds.insert item.1 () }

/-- The loop of `squash` over the top state's `removed_values`: `new+del` is a `nop`, `upd(was=X)+del` is
`del(was=X)`, `nop+del` takes the second. -/
def squashRemovedValue (prev : UndoState V) (item : Nat × V) : UndoState V :=
  if prev.newIds.contains item.1 then { prev with newIds := prev.newIds.erase item.1 }
  else match prev.oldValues.find? item.1 with
    | some old => { prev with removedValues := prev.removedValues.insert item.1 old,
                              oldValues := prev.oldValues.erase item.1 }
    | none => { prev with removedValues := prev.removedValues.insert item.1 item.2 }

/-- `prev_state` after the three loops of `squash` over `state`. -/
def merge (prev state : UndoState V) : UndoState V :=
  state.removedValues.entries.foldl squashRemovedValue
    (state.newIds.entries.foldl squashNewId (state.oldValues.entries.foldl squashOldValue prev))

end UndoState

namespace GenericIndex

/-- `squash`: with one state it is dropped, otherwise the top state is merged into the one below. -/
def squash (s : GenericIndex V) : GenericIndex V :=
  match s.stack with
  | [] => s
  | [_] => { s with stack := [], revision := s.revision - 1 }
  | state :: prev :: rest => { s with stack := prev.merge state :: rest, revision := s.revision - 1 }

/-- The same calls in two sessions: two `undo`s give the index back, but after `squash` the single `undo` meets
the moved key and throws. -/
theorem squash_undo_throws_where_undos_return :
    (keyedIndex.startUndoSession.modify byValue 0 fun _ => 2).2 = none ∧
      ((keyedIndex.startUndoSession.modify byValue 0 fun _ => 2).1.startUndoSession.emplace byValue 1).2 = none ∧
      (((keyedIndex.startUndoSession.modify byValue 0 fun _ => 2).1.startUndoSession.emplace byValue
        1).1.squash.undo byValue).2 = some .couldNotModify ∧
      (((keyedIndex.startUndoSession.modify byValue 0 fun _ => 2).1.startUndoSession.emplace byValue
        1).1.undo byValue).2 = none ∧
      ((((keyedIndex.startUndoSession.modify byValue 0 fun _ => 2).1.startUndoSession.emplace byValue
        1).1.undo byValue).1.undo byValue).2 = none ∧
      ((((keyedIndex.startUndoSession.modify byValue 0 fun _ => 2).1.startUndoSession.emplace byValue
        1).1.undo byValue).1.undo byValue).1.indices = keyedIndex.indices := by
  decide

/-- `commit(revision)`: the states from the front of the deque up to `revision` are dropped. -/
def commit (s : GenericIndex V) (revision : Int) : GenericIndex V :=
  { s with stack := (s.stack.reverse.dropWhile fun u => decide (u.revision ≤ revision)).reverse }

end GenericIndex

end Gstio.Chainbase
