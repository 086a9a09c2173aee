import Gstio.Chainbase.UndoStack

/-!
# Undo sessions

`chainbase::database` runs `start_undo_session`, `undo` and `squash` on every index at once, so above the indexes
the database is a current state with the states at the start of its open sessions, the last one first (`Db`):
`undo` goes back to the last start, `squash` forgets it. `Refines.simulates_*` connect this to one
`generic_index`: when its calls return, they act on the snapshots as `Db` says.

A `database::session` (and the controller's `maybe_session`) only remembers whether it still applies. Its
`squash`, `undo` and destructor act on the top of the stack, whichever session opened it: `Session.squash`,
`Session.undo`, `Session.release`.
-/

namespace Gstio.Chainbase

/-- The database as its sessions see it: the current state, and the states at the start of the open sessions,
the last one first. -/
structure Db (σ : Type) where
  current : σ
  snapshots : List σ
  deriving DecidableEq

namespace Db

variable {σ : Type}

/-- `start_undo_session(true)`. -/
def startUndoSession (db : Db σ) : Db σ := ⟨db.current, db.current :: db.snapshots⟩

/-- `undo`: back to the start of the last session; nothing without a session. -/
def undo (db : Db σ) : Db σ :=
  match db.snapshots with
  | [] => db
  | S :: Ss => ⟨S, Ss⟩

/-- `squash`: the last session's changes become the previous one's. -/
def squash (db : Db σ) : Db σ :=
  match db.snapshots with
  | [] => db
  | _ :: Ss => ⟨db.current, Ss⟩

/-- A change of the current state. -/
def update (db : Db σ) (f : σ → σ) : Db σ := { db with current := f db.current }

@[simp] theorem undo_startUndoSession (db : Db σ) : db.startUndoSession.undo = db := rfl

@[simp] theorem squash_startUndoSession (db : Db σ) : db.startUndoSession.squash = db := rfl

@[simp] theorem undo_update_startUndoSession (db : Db σ) (f : σ → σ) :
    (db.startUndoSession.update f).undo = db := rfl

@[simp] theorem squash_update_startUndoSession (db : Db σ) (f : σ → σ) :
    (db.startUndoSession.update f).squash = db.update f := rfl

@[simp] theorem update_update (db : Db σ) (f g : σ → σ) : (db.update f).update g = db.update (g ∘ f) := rfl

end Db

/-- `database::session`: whether it still applies. -/
structure Session where
  apply : Bool

namespace Session

variable {σ : Type}

/-- `session::squash`: squash the top of the stack if the session still applies. -/
def squash (h : Session) (db : Db σ) : Db σ × Session := (if h.apply then db.squash else db, ⟨false⟩)

/-- `session::undo`. -/
def undo (h : Session) (db : Db σ) : Db σ × Session := (if h.apply then db.undo else db, ⟨false⟩)

/-- `~session`: undo the top of the stack if the session still applies. -/
def release (h : Session) (db : Db σ) : Db σ := if h.apply then db.undo else db

@[simp] theorem release_done (db : Db σ) : (⟨false⟩ : Session).release db = db := rfl

@[simp] theorem squash_open (db : Db σ) : (⟨true⟩ : Session).squash db = (db.squash, ⟨false⟩) := rfl

@[simp] theorem undo_open (db : Db σ) : (⟨true⟩ : Session).undo db = (db.undo, ⟨false⟩) := rfl

@[simp] theorem release_open (db : Db σ) : (⟨true⟩ : Session).release db = db.undo := rfl

end Session

/-! ## One index simulates `Db` -/

section Simulation

variable {V K : Type} [DecidableEq K] (keys : List (Nat × V → K))

/-- A `generic_index` with the snapshots of its sessions, as a `Db` of objects and next ids. -/
def GenericIndex.view (s : GenericIndex V) (snaps : List (Snapshot V)) : Db (OrdMap Nat V × Nat) :=
  ⟨(s.indices, s.nextId), snaps.map fun S => (S.objects, S.nextId)⟩

theorem Refines.simulates_startUndoSession {s : GenericIndex V} {snaps : List (Snapshot V)} (h : Refines s snaps) :
    Refines s.startUndoSession (⟨s.indices, s.nextId⟩ :: snaps) ∧
      s.startUndoSession.view (⟨s.indices, s.nextId⟩ :: snaps) = (s.view snaps).startUndoSession :=
  ⟨h.startUndoSession, rfl⟩

theorem Refines.simulates_undo {s : GenericIndex V} {S : Snapshot V} {Ss : List (Snapshot V)}
    (h : Refines s (S :: Ss)) (hok : (s.undo keys).2 = none) :
    Refines (s.undo keys).1 Ss ∧ (s.undo keys).1.view Ss = (s.view (S :: Ss)).undo := by
  obtain ⟨hi, hn, h'⟩ := h.undo keys hok
  refine ⟨h', ?_⟩
  simp [GenericIndex.view, Db.undo, hi, hn]

theorem Refines.simulates_squash {s : GenericIndex V} {S₁ S₀ : Snapshot V} {Ss : List (Snapshot V)}
    (h : Refines s (S₁ :: S₀ :: Ss)) :
    Refines s.squash (S₀ :: Ss) ∧ s.squash.view (S₀ :: Ss) = (s.view (S₁ :: S₀ :: Ss)).squash := by
  refine ⟨h.squash, ?_⟩
  -- `squash` leaves the objects and the next id alone
  have hd := h.describes
  cases hs : s.stack with
  | nil =>
    rw [hs] at hd
    exact absurd hd id
  | cons u us =>
    cases us with
    | nil =>
      rw [hs] at hd
      exact absurd hd.2.2 id
    | cons u₀ us => simp [GenericIndex.view, GenericIndex.squash, Db.squash, hs]

end Simulation

end Gstio.Chainbase
