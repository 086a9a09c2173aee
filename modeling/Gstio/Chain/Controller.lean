import Gstio.Chainbase.Session
import Gstio.Chain.Authority

/-!
# Retiring transactions: `controller_impl::push_scheduled_transaction` and `push_transaction`

The controller runs every transaction in undo sessions of the database (`Db`): `push_scheduled_transaction` opens
`undo_session` (a `maybe_session`) before it removes the generated transaction, and the `transaction_context` it
builds opens one more in its constructor; `apply_onerror` builds a `transaction_context` of its own. A session's
`squash` and `undo`, and its destructor, act on whatever session is on top (`Session`).

What the transaction does inside its sessions is a parameter (`ScheduledRun`, `InputRun`): the state it leaves
and the exception it throws, if any. `scheduledEffect` states what the sessions are for: the removal of the
generated transaction, then the outcome's changes, or no change at all for a subjective failure.

* `pushScheduledTransaction_eq_effect`: on every path but the expired one the database ends as `scheduledEffect`
  says, with the sessions of the caller as they were;
* `pushScheduledTransaction_expired`: an expired transaction gets its receipt, but the database ends as it was:
  `undo_session.squash()` squashes the session of `trx_context`, whose destructor then undoes the removal.
* `pushTransaction_eq`: `push_transaction` keeps its session discipline.
-/

namespace Gstio.Chain

open Gstio.Chainbase

/-- `transaction_receipt_header::status_enum`. -/
inductive ReceiptStatus
  | executed
  | softFail
  | hardFail
  | delayed
  | expired
  deriving DecidableEq, Repr

/-- The fields of `generated_transaction` that `push_scheduled_transaction` reads. -/
structure GeneratedTransaction where
  sender : Name
  delayUntil : Int
  expiration : Int
  deriving DecidableEq, Repr

variable {σ E : Type}

/-- What happens to the database while a scheduled transaction is retired, below the sessions. -/
structure ScheduledRun (σ E : Type) where
  /-- `remove_scheduled_transaction(gto)`: the object goes, its payer's RAM usage drops. -/
  removeScheduled : σ → σ
  /-- `init_for_deferred_trx`, `exec`, `finalize`: the state they leave, and what they throw. -/
  exec : σ → σ × Option E
  /-- The `onerror` action of `apply_onerror` and its `finalize`. -/
  onerror : σ → σ × Option E
  /-- The billing of a hard failure: `update_account_usage`, `add_transaction_usage`. -/
  billHardFail : σ → σ
  /-- `failure_is_subjective`. -/
  failureIsSubjective : E → Bool
  /-- `scheduled_failure_is_subjective`. -/
  scheduledFailureIsSubjective : E → Bool
  /-- `transaction_exception`: `"this transaction isn't ready"`. -/
  notReady : E

/-- The subjectivity test of `push_scheduled_transaction`: an explicitly billed transaction uses
`failure_is_subjective`. -/
def ScheduledRun.subjective (x : ScheduledRun σ E) (explicitBilledCpuTime : Bool) (e : E) : Bool :=
  if explicitBilledCpuTime then x.failureIsSubjective e else x.scheduledFailureIsSubjective e

/-- The last part of `push_scheduled_transaction`: an objective failure is billed, gets a `hard_fail` receipt and
squashes `undo_session`; a subjective one leaves it to the destructor. -/
def hardFailOrLeave (x : ScheduledRun σ E) (explicitBilledCpuTime : Bool) (e : E) (db : Db σ) (us : Session) :
    Db σ × Session × List ReceiptStatus :=
  if !x.subjective explicitBilledCpuTime e then
    let r := us.squash (db.update x.billHardFail)
    (r.1, r.2, [.hardFail])
  else (db, us, [])

/-- `controller_impl::push_scheduled_transaction`, with `skip_db_sessions()` false. Returns the database, the
receipts pushed to the pending block, and the exception it rethrows. -/
def pushScheduledTransaction (x : ScheduledRun σ E) (explicitBilledCpuTime : Bool) (gtrx : GeneratedTransaction)
    (pendingBlockTime : Int) (db : Db σ) : Db σ × List ReceiptStatus × Option E :=
  -- `maybe_session undo_session(db)`, then `remove_scheduled_transaction(gto)`
  let us : Session := ⟨true⟩
  let db₁ := db.startUndoSession.update x.removeScheduled
  if pendingBlockTime < gtrx.delayUntil then
    -- `"this transaction isn't ready"`: unwinding destroys `undo_session`
    (us.release db₁, [], some x.notReady)
  else
    -- `transaction_context trx_context(...)` opens a session in its constructor
    let tc : Session := ⟨true⟩
    let db₂ := db₁.startUndoSession
    if gtrx.expiration < pendingBlockTime then
      let r := us.squash db₂
      -- return: `~trx_context`, then `~undo_session`
      (r.2.release (tc.release r.1), [.expired], none)
    else
      let ex := x.exec db₂.current
      match ex.2 with
      | none =>
        let r₁ := tc.squash { db₂ with current := ex.1 }
        let r₂ := us.squash r₁.1
        (r₂.2.release (r₁.2.release r₂.1), [.executed], none)
      | some e =>
        let r₁ := tc.undo { db₂ with current := ex.1 }
        if gtrx.sender ≠ emptyName ∧ !x.failureIsSubjective e then
          -- `apply_onerror` builds a `transaction_context` of its own
          let tc₂ : Session := ⟨true⟩
          let db₃ := r₁.1.startUndoSession
          let er := x.onerror db₃.current
          match er.2 with
          | none =>
            let r₂ := tc₂.squash { db₃ with current := er.1 }
            let r₃ := us.squash (r₂.2.release r₂.1)
            (r₃.2.release (r₁.2.release r₃.1), [.softFail], none)
          | some e₂ =>
            let r₃ := hardFailOrLeave x explicitBilledCpuTime e₂ (tc₂.release { db₃ with current := er.1 }) us
            (r₃.2.1.release (r₁.2.release r₃.1), r₃.2.2, none)
        else
          let r₃ := hardFailOrLeave x explicitBilledCpuTime e r₁.1 us
          (r₃.2.1.release (r₁.2.release r₃.1), r₃.2.2, none)

/-- **What the sessions are for.** The removal of the generated transaction and the outcome's own changes, or no
change for a subjective failure or a transaction that is not ready. -/
def scheduledEffect (x : ScheduledRun σ E) (explicitBilledCpuTime : Bool) (gtrx : GeneratedTransaction)
    (pendingBlockTime : Int) (s : σ) : σ × List ReceiptStatus × Option E :=
  if pendingBlockTime < gtrx.delayUntil then (s, [], some x.notReady)
  else
    let s₁ := x.removeScheduled s
    -- a failure is billed on the state after the removal, or leaves nothing
    let fail (e : E) : σ × List ReceiptStatus × Option E :=
      if !x.subjective explicitBilledCpuTime e then (x.billHardFail s₁, [.hardFail], none) else (s, [], none)
    if gtrx.expiration < pendingBlockTime then (s₁, [.expired], none)
    else
      match (x.exec s₁).2 with
      | none => ((x.exec s₁).1, [.executed], none)
      | some e =>
        if gtrx.sender ≠ emptyName ∧ !x.failureIsSubjective e then
          match (x.onerror s₁).2 with
          | none => ((x.onerror s₁).1, [.softFail], none)
          | some e₂ => fail e₂
        else fail e

/-! ## The session discipline -/

section Discipline

variable (x : ScheduledRun σ E) (explicitBilledCpuTime : Bool)

/-- The failure logic on the state after `trx_context.undo()`: billing squashes `undo_session`, a subjective
failure leaves it to its destructor, which undoes everything. -/
theorem hardFailOrLeave_release (e : E) (db : Db σ) :
    let r := hardFailOrLeave x explicitBilledCpuTime e ⟨x.removeScheduled db.current, db.current :: db.snapshots⟩
      ⟨true⟩
    let f : σ × List ReceiptStatus × Option E := if !x.subjective explicitBilledCpuTime e then
      (x.billHardFail (x.removeScheduled db.current), [.hardFail], none) else (db.current, [], none)
    (r.2.1.release r.1, r.2.2, (none : Option E)) = (⟨f.1, db.snapshots⟩, f.2) := by
  simp only [hardFailOrLeave]
  split <;> rfl

/-- **Every path but the expired one keeps the session discipline**: the database ends as `scheduledEffect` says,
and the caller's sessions are as they were. -/
theorem pushScheduledTransaction_eq_effect (gtrx : GeneratedTransaction) (pendingBlockTime : Int) (db : Db σ)
    (h : pendingBlockTime < gtrx.delayUntil ∨ ¬ gtrx.expiration < pendingBlockTime) :
    pushScheduledTransaction x explicitBilledCpuTime gtrx pendingBlockTime db =
      (⟨(scheduledEffect x explicitBilledCpuTime gtrx pendingBlockTime db.current).1, db.snapshots⟩,
        (scheduledEffect x explicitBilledCpuTime gtrx pendingBlockTime db.current).2) := by
  unfold pushScheduledTransaction scheduledEffect
  by_cases hd : pendingBlockTime < gtrx.delayUntil
  · simp only [hd, if_true]
    rfl
  · have he : ¬ gtrx.expiration < pendingBlockTime := h.resolve_left hd
    simp only [hd, he, if_false]
    cases hx : (x.exec (x.removeScheduled db.current)).2 with
    | none =>
      simp only [Db.startUndoSession, Db.update] at hx ⊢
      simp [hx, Db.squash]
    | some e =>
      simp only [Db.startUndoSession, Db.update] at hx ⊢
      simp only [hx, Session.undo_open, Session.squash_open, Session.release_done, Session.release_open, Db.undo,
        Db.squash]
      by_cases hs : gtrx.sender ≠ emptyName ∧ (!x.failureIsSubjective e) = true
      · simp only [if_pos hs]
        cases (x.onerror (x.removeScheduled db.current)).2 with
        | none =>
          simp
        | some e₂ =>
          dsimp only
          exact hardFailOrLeave_release x explicitBilledCpuTime e₂ db
      · simp only [if_neg hs]
        exact hardFailOrLeave_release x explicitBilledCpuTime e db

/-- **The expired path.** The receipt is pushed, but `undo_session.squash()` squashes the session that
`trx_context` opened, and the destructor of `trx_context` then undoes the merged session: the database ends as it
was, the generated transaction still in it. -/
theorem pushScheduledTransaction_expired (gtrx : GeneratedTransaction) (pendingBlockTime : Int) (db : Db σ)
    (hready : gtrx.delayUntil ≤ pendingBlockTime) (hexp : gtrx.expiration < pendingBlockTime) :
    pushScheduledTransaction x explicitBilledCpuTime gtrx pendingBlockTime db = (db, [.expired], none) := by
  unfold pushScheduledTransaction
  simp only [not_lt.mpr hready, if_false, hexp, if_true]
  rfl

end Discipline

/-- A database of the ids of the generated transactions and the payer's RAM usage, where
`remove_scheduled_transaction` removes transaction `7`, packed in 40 bytes: `billable_size_v` (272) plus 40 bytes
are released. -/
def expiringRun : ScheduledRun (List Nat × Int) Unit :=
  ⟨fun s => (s.1.erase 7, s.2 - (272 + 40)), fun s => (s, none), fun s => (s, none), id, fun _ => false,
    fun _ => false, ()⟩

/-- Generated transaction `7`, of a payer with 1000 bytes of RAM usage and packed in 40 bytes, expired at time 5
and retired at time 10. The `expired` receipt is pushed and the database is left as it was, where the sessions
should leave the transaction removed and the payer's usage down by `billable_size_v` (272) plus 40. -/
theorem pushScheduledTransaction_keeps_expired :
    pushScheduledTransaction expiringRun false ⟨N "alice", 0, 5⟩ 10 ⟨([7], 1000), []⟩ =
        (⟨([7], 1000), []⟩, [.expired], none) ∧
      scheduledEffect expiringRun false ⟨N "alice", 0, 5⟩ 10 ([7], 1000) = (([], 688), [.expired], none) := by
  decide

/-! ## `push_transaction` -/

/-- What happens to the database while an input transaction is applied, below its session: `init_for_input_trx`
(or `init_for_implicit_trx`), `check_authorization`, `exec` and `finalize`. -/
structure InputRun (σ E : Type) where
  exec : σ → σ × Option E

/-- `controller_impl::push_transaction`, with `skip_db_sessions()` false. The session of `trx_context` is undone
after a success when the block is being built outside `SPECULATIVE` read mode (`undoAfterApply`), squashed
otherwise, and undone by the destructor after a failure. Returns the database, the receipts pushed to the pending
block, and the exception recorded in the trace. -/
def pushTransaction (x : InputRun σ E) (implicit delayZero undoAfterApply : Bool) (db : Db σ) :
    Db σ × List ReceiptStatus × Option E :=
  let tc : Session := ⟨true⟩
  let db₁ := db.startUndoSession
  let ex := x.exec db₁.current
  match ex.2 with
  | none =>
    -- an implicit transaction gets a receipt in its trace only
    let receipts : List ReceiptStatus := if implicit then [] else [if delayZero then .executed else .delayed]
    let r := if undoAfterApply then tc.undo { db₁ with current := ex.1 } else tc.squash { db₁ with current := ex.1 }
    (r.2.release r.1, receipts, none)
  | some e => (tc.release { db₁ with current := ex.1 }, [], some e)

/-- **`push_transaction` keeps the session discipline**: its session is the innermost one whenever it is squashed
or undone, so the transaction's changes stay exactly when it succeeds and is squashed, and the caller's sessions
are as they were. -/
theorem pushTransaction_eq (x : InputRun σ E) (implicit delayZero undoAfterApply : Bool) (db : Db σ) :
    (pushTransaction x implicit delayZero undoAfterApply db).1 =
      if (x.exec db.current).2 = none ∧ undoAfterApply = false then ⟨(x.exec db.current).1, db.snapshots⟩
      else db := by
  unfold pushTransaction
  cases hx : (x.exec db.current).2 with
  | none =>
    cases undoAfterApply
    · simp [Db.startUndoSession, Db.squash, hx]
    · simp [Db.startUndoSession, Db.undo, hx]
  | some e => simp [Db.startUndoSession, Db.undo, hx]

end Gstio.Chain
