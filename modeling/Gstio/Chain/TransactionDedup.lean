import Mathlib
import Gstio.Chainbase.UniqueKeys
import Gstio.Lib.Rollback
import Gstio.Chain.ChainConfig

/-!
# Replay protection of input transactions (`transaction_context.cpp`, `controller.cpp`)

`init_for_input_trx` checks an input transaction, then records it. Unless the controller skips the checks of
transactions (`skip_trx_checks`, in light validation and in a replay) it runs `validate_expiration`, which refuses a
transaction that expires before the pending block's time or later than the current `max_transaction_lifetime` after
it, `validate_tapos`, which refuses one whose reference block is not the block the block summary table holds at its
`ref_block_num`, and `validate_referenced_accounts`; then `init`. `record_transaction` adds a `transaction_object`,
the id and the expiration, to the `transaction_multi_index`, unique by `trx_id`, and throws `tx_duplicate` when the
id is there; a replay skips it for a transaction that expires by the replay's head time (`skip_recording`).
`clear_expired_input_transactions`, at the start of every block, removes the objects that expired before the block's
time, first in `by_expiration` order.

The accounts and the resource limits that `validate_referenced_accounts`, `init` and the execution read are not
modelled: each push names what they do (`PushOutcomes`).

* `clearExpiredLoop_sound`, `clearExpiredLoop_complete`: the loop removes the expired objects, all of them;
* `Guarded`: the object of a recorded transaction is kept, or the chain is past its expiration, kept by every
  event (`DedupEvent.apply_guarded`) and so by every run;
* `replay_protection`: a recorded transaction is refused by every later push, in its block and in every later one,
  whenever the controller checks transactions: as expired once the chain is past its expiration, as a duplicate
  whenever the checks before the record pass; `light_validation_accepts_twice`: in light validation the same
  transaction is accepted in two blocks.
-/

namespace Gstio.Chain

open Chainbase

/-! ## Times -/

/-- `config::block_interval_ms`. -/
def blockIntervalMs : Nat := 500

/-- `block_timestamp_epoch`: the year 2000, in milliseconds. -/
def blockTimestampEpochMs : Nat := 946684800000

/-- `block_timestamp_type::to_time_point`, in microseconds. -/
def slotTime (slot : Nat) : Nat := (slot * blockIntervalMs + blockTimestampEpochMs) * 1000

/-- `fc::time_point(time_point_sec)`, in microseconds. -/
def secTime (sec : Nat) : Nat := sec * 1000000

theorem slotTime_lt_slotTime {a b : Nat} (h : a < b) : slotTime a < slotTime b := by
  unfold slotTime blockIntervalMs blockTimestampEpochMs
  omega

/-! ## The deduplication list -/

/-- `transaction_object`. -/
structure TransactionObject (TrxId : Type) where
  trxId : TrxId
  expiration : Nat
  deriving DecidableEq, Repr

variable {TrxId : Type}

/-- The unique `by_trx_id` index; `by_expiration` is unique with the id in its key, so it never collides. -/
def transactionIndex : List (Nat × TransactionObject TrxId → TrxId) := [fun o => o.2.trxId]

/-- `dedupe_index.begin()`: the least object by `(expiration, id)`. -/
def expirationBegin (idx : OrdMap Nat (TransactionObject TrxId)) : Option (Nat × TransactionObject TrxId) :=
  idx.entries.argmin fun o => toLex (o.2.expiration, o.1)

/-- The `while` loop of `clear_expired_input_transactions`, with `fuel` turns. -/
def clearExpiredLoop (now : Nat) : Nat → GenericIndex (TransactionObject TrxId) →
    GenericIndex (TransactionObject TrxId)
  | 0, idx => idx
  | fuel + 1, idx =>
    match expirationBegin idx.indices with
    | some (id, o) => if now > secTime o.expiration then clearExpiredLoop now fuel (idx.remove id).1 else idx
    | none => idx

/-- `clear_expired_input_transactions`: each turn removes an object, so one turn per object is enough. -/
def clearExpiredInputTransactions (now : Nat) (idx : GenericIndex (TransactionObject TrxId)) :
    GenericIndex (TransactionObject TrxId) :=
  clearExpiredLoop now idx.indices.entries.length idx

/-! ## Clearing the expired transactions -/

section Clear

variable {now : Nat}

theorem expirationBegin_find? {idx : OrdMap Nat (TransactionObject TrxId)} {id : Nat} {o : TransactionObject TrxId}
    (h : expirationBegin idx = some (id, o)) : idx.find? id = some o :=
  (OrdMap.mem_entries_iff _ _ _).mp (List.argmin_mem h)

/-- The first object by `(expiration, id)` expires no later than any other. -/
theorem expirationBegin_le {idx : OrdMap Nat (TransactionObject TrxId)} {id : Nat} {o : TransactionObject TrxId}
    (h : expirationBegin idx = some (id, o)) {x : Nat} {v : TransactionObject TrxId} (hv : idx.find? x = some v) :
    o.expiration ≤ v.expiration := by
  have hle := List.le_of_mem_argmin ((OrdMap.mem_entries_iff _ _ _).mpr hv) h
  simp only [Prod.Lex.toLex_le_toLex] at hle
  omega

theorem find?_of_expirationBegin_eq_none {idx : OrdMap Nat (TransactionObject TrxId)}
    (h : expirationBegin idx = none) (x : Nat) : idx.find? x = none := by
  simp [OrdMap.find?, List.argmin_eq_none.mp h]

/-- The loop removes only expired objects. -/
theorem clearExpiredLoop_sound : ∀ (fuel : Nat) (idx : GenericIndex (TransactionObject TrxId)) {x : Nat}
    {o : TransactionObject TrxId}, idx.indices.find? x = some o →
    (clearExpiredLoop now fuel idx).indices.find? x = some o ∨ now > secTime o.expiration
  | 0, _, _, _, hx => .inl hx
  | fuel + 1, idx, x, o, hx => by
    rw [clearExpiredLoop]
    split
    · rename_i id b hb
      have hid := expirationBegin_find? hb
      split_ifs with hexp
      · have hrm : (idx.remove id).2 = none := by simp [GenericIndex.remove, hid]
        by_cases hxid : x = id
        · -- the object removed in this turn
          subst hxid
          rw [hid, Option.some_inj] at hx
          exact .inr (hx ▸ hexp)
        · apply clearExpiredLoop_sound fuel
          rw [GenericIndex.find?_remove hrm, if_neg hxid]
          exact hx
      · exact .inl hx
    · exact .inl hx

/-- With one turn per object, the loop leaves no expired object. -/
theorem clearExpiredLoop_complete : ∀ (fuel : Nat) (idx : GenericIndex (TransactionObject TrxId)),
    idx.indices.entries.length ≤ fuel → ∀ {x : Nat} {o : TransactionObject TrxId},
    (clearExpiredLoop now fuel idx).indices.find? x = some o → now ≤ secTime o.expiration
  | 0, idx, hfuel, x, o, hx => by
    have hnil : idx.indices.entries = [] := List.eq_nil_of_length_eq_zero (by omega)
    simp [clearExpiredLoop, OrdMap.find?, hnil] at hx
  | fuel + 1, idx, hfuel, x, o, hx => by
    rw [clearExpiredLoop] at hx
    split at hx
    · rename_i id b hb
      have hid := expirationBegin_find? hb
      split_ifs at hx with hexp
      · have hrm : (idx.remove id).2 = none := by simp [GenericIndex.remove, hid]
        -- the turn removed one object
        have hlen := GenericIndex.sumBy_remove (fun _ _ => 1) hid hrm
        simp [OrdMap.sumBy] at hlen
        exact clearExpiredLoop_complete fuel _ (by omega) hx
      · -- the first object has not expired, and it expires first
        have hle : secTime b.expiration ≤ secTime o.expiration := Nat.mul_le_mul_right _ (expirationBegin_le hb hx)
        omega
    · rw [find?_of_expirationBegin_eq_none ‹_›] at hx
      cases hx

theorem clearExpired_sound (idx : GenericIndex (TransactionObject TrxId)) {x : Nat} {o : TransactionObject TrxId}
    (hx : idx.indices.find? x = some o) :
    (clearExpiredInputTransactions now idx).indices.find? x = some o ∨ now > secTime o.expiration :=
  clearExpiredLoop_sound _ idx hx

theorem clearExpired_complete (idx : GenericIndex (TransactionObject TrxId)) {x : Nat} {o : TransactionObject TrxId}
    (hx : (clearExpiredInputTransactions now idx).indices.find? x = some o) : now ≤ secTime o.expiration :=
  clearExpiredLoop_complete _ idx le_rfl hx

end Clear

/-! ## The controller -/

/-- `controller::block_status`. -/
inductive BlockStatus
  | irreversible
  | validated
  | complete
  | incomplete
  deriving DecidableEq, Repr

/-- The exceptions of this part of the controller. -/
inductive TrxError
  /-- `expired_tx_exception` -/
  | expiredTx
  /-- `tx_exp_too_far_exception` -/
  | txExpTooFar
  /-- `invalid_ref_block_exception`: `"Transaction's reference block did not match. Is this transaction from a
  different fork?"` -/
  | invalidRefBlock
  /-- `tx_duplicate` -/
  | txDuplicate
  /-- `block_validate_exception` -/
  | blockValidate (msg : String)
  /-- An exception of `set_blockchain_parameters_packed`. -/
  | config (e : ConfigError)
  /-- An exception of `validate_referenced_accounts`, of `init`, or of the authorization check and the
  execution. -/
  | transaction (msg : String)
  deriving DecidableEq, Repr

/-- What the controller reads of its configuration. -/
structure ControllerConfig where
  disableReplayOpts : Bool
  /-- `block_validation_mode == validation_mode::LIGHT || trusted_producer_light_validation` -/
  lightValidation : Bool
  /-- `replay_head_time`, set while the block log is replayed. -/
  replayHeadTime : Option Nat
  deriving DecidableEq, Repr

/-- A `block_id_type` as TaPoS reads it: the block number in its first word (`block_header::num_from_id`), and its
second word (`_hash[1]`) cut to 32 bits, a part of the header's digest. -/
structure BlockId where
  num : UInt32
  hash1 : UInt32
  deriving DecidableEq, Repr

/-- What this part reads of a `transaction`: its id, `expiration` in seconds, `ref_block_num` and
`ref_block_prefix`. -/
structure InputTrx (TrxId : Type) where
  id : TrxId
  expiration : Nat
  refBlockNum : UInt16
  refBlockPrefix : UInt32
  deriving DecidableEq, Repr

/-- `transaction_header::verify_reference_block`. -/
def InputTrx.verifyReferenceBlock (trx : InputTrx TrxId) (referenceBlock : BlockId) : Bool :=
  trx.refBlockNum == referenceBlock.num.toUInt16 && trx.refBlockPrefix == referenceBlock.hash1

/-- What the parts of `push_transaction` whose inputs are not modelled do: `validate_referenced_accounts`, `init`,
and the authorization check with the execution. Each returns or throws. -/
structure PushOutcomes where
  validateReferencedAccounts : Except TrxError Unit
  init : Except TrxError Unit
  exec : Except TrxError Unit

/-- Every part returns. -/
def PushOutcomes.ok : PushOutcomes := ⟨pure (), pure (), pure ()⟩

/-- The deduplication list, the block summaries, the global properties, the head block's number and slot, and the
pending block's slot and status. -/
structure DedupState (TrxId : Type) where
  transactions : GenericIndex (TransactionObject TrxId)
  /-- The `block_summary_object` of each of the `0x10000` ids. -/
  blockSummaries : Nat → BlockId
  gpo : GlobalPropertyObject
  headNum : Nat
  headSlot : Nat
  pending : Option (Nat × BlockStatus)

namespace DedupState

variable (cfg : ControllerConfig) (s : DedupState TrxId)

/-- What `initialize_database` leaves: no transaction, the genesis block, number `1`, as the head, and its id in
the block summary `1`, the others holding the zero id. -/
def init (gpo : GlobalPropertyObject) (genesisId : BlockId) : DedupState TrxId :=
  ⟨.init, Function.update (fun _ => ⟨0, 0⟩) 1 genesisId, gpo, 1, 0, none⟩

/-- The time of the pending block, or of the head block when there is none. -/
def blockTime : Nat :=
  match s.pending with
  | some (slot, _) => slotTime slot
  | none => slotTime s.headSlot

/-- `light_validation_allowed`, outside `in_trx_requiring_checks` (set for the `onblock` transaction only). -/
def lightValidationAllowed (replayOptsDisabledByPolicy : Bool) : Bool :=
  match s.pending with
  | none => false
  | some (_, status) =>
    ((status == .irreversible || status == .validated) && !replayOptsDisabledByPolicy) ||
      (status == .complete && cfg.lightValidation)

/-- `skip_trx_checks`. -/
def skipTrxChecks : Bool := s.lightValidationAllowed cfg cfg.disableReplayOpts

/-- `pending_block_time`. -/
def pendingBlockTime : Except TrxError Nat :=
  match s.pending with
  | some (slot, _) => .ok (slotTime slot)
  | none => .error (.blockValidate "no pending block")

/-- `validate_expiration`, with the `max_transaction_lifetime` of the current global properties. -/
def validateExpiration (expiration : Nat) : Except TrxError Unit := do
  let now ← s.pendingBlockTime
  Except.assert (decide (secTime expiration ≥ now)) .expiredTx
  Except.assert (decide (secTime expiration ≤ now + secTime s.gpo.configuration.maxTransactionLifetime.toNat))
    .txExpTooFar

/-- `validate_tapos`: the block summary at `ref_block_num` holds the block the transaction names. -/
def validateTapos (trx : InputTrx TrxId) : Except TrxError Unit :=
  Except.assert (trx.verifyReferenceBlock (s.blockSummaries trx.refBlockNum.toNat)) .invalidRefBlock

end DedupState

variable [DecidableEq TrxId]

/-- `record_transaction`: every exception of the insert becomes `tx_duplicate`. -/
def recordTransaction (idx : GenericIndex (TransactionObject TrxId)) (id : TrxId) (expiration : Nat) :
    Except TrxError (GenericIndex (TransactionObject TrxId)) :=
  match idx.emplace transactionIndex ⟨id, expiration⟩ with
  | (idx, none) => .ok idx
  | (_, some _) => .error .txDuplicate

/-- `skip_recording` of `push_transaction`. -/
def ControllerConfig.skipRecording (cfg : ControllerConfig) (expiration : Nat) : Bool :=
  cfg.replayHeadTime.any fun r => secTime expiration ≤ r

namespace DedupState

variable (cfg : ControllerConfig) (s : DedupState TrxId)

/-- The part of `init_for_input_trx` before `record_transaction`: `published` is the pending block's time, the
checks run unless they are skipped, then `init`. -/
def checkInputTrx (trx : InputTrx TrxId) (outcomes : PushOutcomes) : Except TrxError Unit := do
  let _ ← s.pendingBlockTime
  if !s.skipTrxChecks cfg then do
    s.validateExpiration trx.expiration
    s.validateTapos trx
    outcomes.validateReferencedAccounts
  outcomes.init

/-- `init_for_input_trx`: the checks and `init`, then `record_transaction` unless the recording is skipped. -/
def initForInputTrx (trx : InputTrx TrxId) (outcomes : PushOutcomes) (skipRecording : Bool) :
    Except TrxError (GenericIndex (TransactionObject TrxId)) := do
  s.checkInputTrx cfg trx outcomes
  if skipRecording then pure s.transactions else recordTransaction s.transactions trx.id trx.expiration

/-- `push_transaction` of an input transaction: `init_for_input_trx`, then the authorization check and the
execution; a transaction that throws leaves no trace. -/
def pushTransaction (trx : InputTrx TrxId) (outcomes : PushOutcomes) : Except TrxError (DedupState TrxId) := do
  let transactions ← s.initForInputTrx cfg trx outcomes (cfg.skipRecording trx.expiration)
  outcomes.exec
  pure { s with transactions }

/-- `start_block`: a block later than the head (the next slot when `slot` is `0`), whose start clears the expired
transactions. -/
def startBlock (slot : Nat) (status : BlockStatus) : Except TrxError (DedupState TrxId) := do
  Except.assert s.pending.isNone (.blockValidate "pending block already exists")
  let slot ← if slot ≠ 0 then do
      Except.assert (decide (slot > s.headSlot)) (.blockValidate "next block must be in the future")
      pure slot
    else pure (s.headSlot + 1)
  pure { s with
    transactions := clearExpiredInputTransactions (slotTime slot) s.transactions
    pending := some (slot, status) }

/-- `finalize_block` and `commit_block`: the pending block, the one after the head, with the id of second word
`hash1`, gets its block summary (`create_block_summary`) and becomes the head. -/
def commitBlock (hash1 : UInt32) : Except TrxError (DedupState TrxId) :=
  match s.pending with
  | some (slot, _) =>
    let id : BlockId := ⟨UInt32.ofNat (s.headNum + 1), hash1⟩
    .ok { s with
      blockSummaries := Function.update s.blockSummaries (id.num &&& 0xffff).toNat id
      headNum := s.headNum + 1
      headSlot := slot
      pending := none }
  | none => .error (.blockValidate "it is not valid to finalize when there is no pending block")

/-- A transaction of the system contract that calls `set_blockchain_parameters_packed`. -/
def setBlockchainParameters (packed : List UInt8) : Except TrxError (DedupState TrxId) := do
  let gpo ← (setBlockchainParametersPacked packed s.gpo).mapError .config
  pure { s with gpo }

end DedupState

/-- What the controller is asked to do along a chain. -/
inductive DedupEvent (TrxId : Type)
  | startBlock (slot : Nat) (status : BlockStatus)
  | push (trx : InputTrx TrxId) (outcomes : PushOutcomes)
  | setBlockchainParameters (packed : List UInt8)
  | commitBlock (hash1 : UInt32)

/-- An event applied to the state. -/
def DedupEvent.apply (cfg : ControllerConfig) : DedupEvent TrxId → DedupState TrxId → Except TrxError (DedupState TrxId)
  | .startBlock slot status, s => s.startBlock slot status
  | .push trx outcomes, s => s.pushTransaction cfg trx outcomes
  | .setBlockchainParameters packed, s => s.setBlockchainParameters packed
  | .commitBlock hash1, s => s.commitBlock hash1

/-! ## What each event does -/

theorem recordTransaction_eq_ok {idx idx' : GenericIndex (TransactionObject TrxId)} {id : TrxId} {e : Nat} :
    recordTransaction idx id e = .ok idx' ↔
      (idx.emplace transactionIndex ⟨id, e⟩).2 = none ∧ (idx.emplace transactionIndex ⟨id, e⟩).1 = idx' := by
  unfold recordTransaction
  split <;> simp_all

theorem recordTransaction_eq_error {idx : GenericIndex (TransactionObject TrxId)} {id : TrxId} {e : Nat}
    {err : IndexError} (h : (idx.emplace transactionIndex ⟨id, e⟩).2 = some err) :
    recordTransaction idx id e = .error .txDuplicate := by
  unfold recordTransaction
  split <;> simp_all

/-- An object with the id of the transaction is a duplicate, at whichever id it sits. -/
theorem emplace_duplicate {idx : GenericIndex (TransactionObject TrxId)} {id : Nat} {o : TransactionObject TrxId}
    (hid : idx.indices.find? id = some o) (e : Nat) :
    (idx.emplace transactionIndex ⟨o.trxId, e⟩).2 = some .couldNotInsert := by
  have hc : (idx.indices.contains idx.nextId || collides transactionIndex idx.indices idx.nextId ⟨o.trxId, e⟩)
      = true := by
    by_cases hn : id = idx.nextId
    · subst hn
      simp [OrdMap.contains, hid]
    · cases hcol : collides transactionIndex idx.indices idx.nextId ⟨o.trxId, e⟩ with
      | true => simp
      | false =>
        exact absurd rfl (collides_eq_false_iff.mp hcol id o hid hn _ (List.mem_singleton_self _))
  simp [GenericIndex.emplace, emplaceObject, hc]

namespace DedupState

variable {cfg : ControllerConfig} {s s' : DedupState TrxId}

omit [DecidableEq TrxId] in
/-- In a pending block whose time is past the expiration, `validate_expiration` throws `expired_tx`. -/
theorem validateExpiration_expired {slot : Nat} {status : BlockStatus} {e : Nat} (hp : s.pending = some (slot, status))
    (h : secTime e < slotTime slot) : s.validateExpiration e = .error .expiredTx := by
  have hpt : s.pendingBlockTime = .ok (slotTime slot) := by simp only [pendingBlockTime, hp]
  have hne : decide (secTime e ≥ slotTime slot) = false := decide_eq_false (Nat.not_le.mpr h)
  rw [validateExpiration, hpt, Except.ok_bind, hne]
  rfl

omit [DecidableEq TrxId] in
/-- With the checks on, a transaction past its expiration fails the checks with `expired_tx`, the first of them. -/
theorem checkInputTrx_expired {trx : InputTrx TrxId} {outcomes : PushOutcomes} {slot : Nat} {status : BlockStatus}
    (hp : s.pending = some (slot, status)) (hchecks : s.skipTrxChecks cfg = false)
    (h : secTime trx.expiration < slotTime slot) : s.checkInputTrx cfg trx outcomes = .error .expiredTx := by
  have hpt : s.pendingBlockTime = .ok (slotTime slot) := by simp only [pendingBlockTime, hp]
  rw [checkInputTrx, hpt, Except.ok_bind, hchecks, Bool.not_false, if_pos rfl, validateExpiration_expired hp h]
  rfl

/-- An `init_for_input_trx` that returns passed the checks, and recorded the transaction unless the recording was
skipped. -/
theorem initForInputTrx_eq_ok {trx : InputTrx TrxId} {outcomes : PushOutcomes} {skip : Bool}
    {idx : GenericIndex (TransactionObject TrxId)} (h : s.initForInputTrx cfg trx outcomes skip = .ok idx) :
    s.checkInputTrx cfg trx outcomes = .ok () ∧
      (skip = true ∧ idx = s.transactions ∨ skip = false ∧ recordTransaction s.transactions trx.id trx.expiration = .ok idx) := by
  simp only [initForInputTrx, bind, Except.bind_eq_ok] at h
  obtain ⟨⟨⟩, hcheck, hrec⟩ := h
  refine ⟨hcheck, ?_⟩
  cases skip
  · exact .inr ⟨rfl, hrec⟩
  · exact .inl ⟨rfl, (Except.ok.inj hrec).symm⟩

theorem pushTransaction_eq_ok {trx : InputTrx TrxId} {outcomes : PushOutcomes}
    (h : s.pushTransaction cfg trx outcomes = .ok s') :
    ∃ idx, s.initForInputTrx cfg trx outcomes (cfg.skipRecording trx.expiration) = .ok idx ∧
      s' = { s with transactions := idx } := by
  simp only [pushTransaction, bind, Except.bind_eq_ok, pure, Except.pure, Except.ok.injEq] at h
  obtain ⟨idx, hinit, -, -, rfl⟩ := h
  exact ⟨idx, hinit, rfl⟩

/-- With the recording on, a push is the checks, the record and the execution, in this order. -/
theorem pushTransaction_recorded {trx : InputTrx TrxId} {outcomes : PushOutcomes}
    (hrec : cfg.skipRecording trx.expiration = false) :
    s.pushTransaction cfg trx outcomes =
      (s.checkInputTrx cfg trx outcomes >>= fun _ => recordTransaction s.transactions trx.id trx.expiration) >>=
        fun transactions => outcomes.exec >>= fun _ => pure { s with transactions } := by
  simp only [pushTransaction, initForInputTrx, hrec, Bool.false_eq_true, if_false]

omit [DecidableEq TrxId] in
/-- A block starts only with no pending block, at a later slot than the head. -/
theorem startBlock_eq_ok {slot : Nat} {status : BlockStatus} (h : s.startBlock slot status = .ok s') :
    s.pending = none ∧ ∃ slot', s.headSlot < slot' ∧
      s' = { s with
        transactions := clearExpiredInputTransactions (slotTime slot') s.transactions
        pending := some (slot', status) } := by
  unfold startBlock at h
  cases hp : s.pending with
  | some p => simp [hp, Except.assert, bind, Except.bind] at h
  | none =>
    refine ⟨rfl, ?_⟩
    by_cases h0 : slot = 0
    · -- the default timestamp: the slot after the head's
      simp [hp, h0, Except.assert, bind, Except.bind, pure, Except.pure] at h
      exact ⟨s.headSlot + 1, by omega, h.symm⟩
    · by_cases hlt : s.headSlot < slot
      · simp [hp, h0, hlt, Except.assert, bind, Except.bind, pure, Except.pure] at h
        exact ⟨slot, hlt, h.symm⟩
      · simp [hp, h0, hlt, Except.assert, bind, Except.bind] at h

omit [DecidableEq TrxId] in
/-- A block is committed only while pending; it keeps the objects and the time. -/
theorem commitBlock_eq_ok {hash1 : UInt32} (h : s.commitBlock hash1 = .ok s') :
    s'.transactions = s.transactions ∧ s'.blockTime = s.blockTime := by
  unfold commitBlock at h
  split at h
  · rename_i slot status hp
    cases h
    simp [blockTime, hp]
  · cases h

omit [DecidableEq TrxId] in
/-- New parameters change neither the objects nor the time. -/
theorem setBlockchainParameters_eq_ok {packed : List UInt8} (h : s.setBlockchainParameters packed = .ok s') :
    s'.transactions = s.transactions ∧ s'.blockTime = s.blockTime := by
  simp only [setBlockchainParameters, bind, Except.bind_eq_ok, pure, Except.pure, Except.ok.injEq] at h
  obtain ⟨gpo, -, rfl⟩ := h
  exact ⟨rfl, rfl⟩

end DedupState

/-! ## Replay protection -/

variable {cfg : ControllerConfig} {x : TrxId} {e : Nat} {s s' : DedupState TrxId}

/-- What keeps the transaction `x` expiring at `e` from being accepted again: its object is kept, or the chain is
past `e`. -/
def Guarded (x : TrxId) (e : Nat) (s : DedupState TrxId) : Prop :=
  (∃ id, s.transactions.indices.find? id = some ⟨x, e⟩) ∨ secTime e < s.blockTime

omit [DecidableEq TrxId] in
/-- A later state whose objects are the old ones, except expired ones, stays guarded. -/
theorem Guarded.later (hg : Guarded x e s) (ht : s.blockTime ≤ s'.blockTime)
    (hkeep : ∀ id, s.transactions.indices.find? id = some ⟨x, e⟩ →
      s'.transactions.indices.find? id = some ⟨x, e⟩ ∨ secTime e < s'.blockTime) :
    Guarded x e s' := by
  rcases hg with ⟨id, hid⟩ | hlt
  · rcases hkeep id hid with hid' | hlt'
    · exact .inl ⟨id, hid'⟩
    · exact .inr hlt'
  · exact .inr (by omega)

omit [DecidableEq TrxId] in
/-- A state with the same objects and the same time stays guarded. -/
theorem Guarded.of_eq (hg : Guarded x e s) (hidx : s'.transactions = s.transactions)
    (ht : s'.blockTime = s.blockTime) : Guarded x e s' :=
  hg.later ht.ge fun _ hid => .inl (hidx ▸ hid)

/-- An object stays through an insert that returned. -/
theorem find?_emplace_of_find? {idx : GenericIndex (TransactionObject TrxId)} {v o : TransactionObject TrxId}
    {id : Nat} (h : (idx.emplace transactionIndex v).2 = none) (hid : idx.indices.find? id = some o) :
    (idx.emplace transactionIndex v).1.indices.find? id = some o := by
  have hfresh := (GenericIndex.emplace_ok transactionIndex h).1
  rw [GenericIndex.find?_emplace transactionIndex h, if_neg]
  · exact hid
  · rintro rfl
    rw [hfresh] at hid
    cases hid

/-- **Step lemma.** Every event that returns keeps the guard. -/
theorem DedupEvent.apply_guarded {ev : DedupEvent TrxId} (hg : Guarded x e s) (h : ev.apply cfg s = .ok s') :
    Guarded x e s' := by
  cases ev with
  | startBlock slot status =>
    obtain ⟨hnone, slot', hlt, rfl⟩ := DedupState.startBlock_eq_ok h
    -- the block is later than the head, and its start removes only what expired before it
    have ht : s.blockTime < slotTime slot' := by
      simp only [DedupState.blockTime, hnone]
      exact slotTime_lt_slotTime hlt
    exact hg.later (le_of_lt ht) fun id hid => clearExpired_sound s.transactions hid
  | push trx outcomes =>
    obtain ⟨idx, hinit, rfl⟩ := DedupState.pushTransaction_eq_ok h
    obtain ⟨-, hrec⟩ := DedupState.initForInputTrx_eq_ok hinit
    refine hg.later le_rfl fun oid hid => .inl ?_
    rcases hrec with ⟨-, rfl⟩ | ⟨-, hrec⟩
    · exact hid
    · obtain ⟨hok, rfl⟩ := recordTransaction_eq_ok.mp hrec
      exact find?_emplace_of_find? hok hid
  | setBlockchainParameters packed =>
    obtain ⟨hidx, ht⟩ := DedupState.setBlockchainParameters_eq_ok h
    exact hg.of_eq hidx ht
  | commitBlock hash1 =>
    obtain ⟨hidx, ht⟩ := DedupState.commitBlock_eq_ok h
    exact hg.of_eq hidx ht

/-- **Run lemma.** Every run keeps the guard, whatever its events do. -/
theorem run_guarded (hg : Guarded x e s) (post : List (DedupEvent TrxId)) :
    Guarded x e (Rollback.run (DedupEvent.apply cfg) s post) :=
  Rollback.run_invariant (fun _ _ _ hs h => DedupEvent.apply_guarded hs h) post hg

/-- A transaction accepted and recorded is guarded from then on. -/
theorem pushTransaction_guarded {trx : InputTrx TrxId} {outcomes : PushOutcomes}
    (hrec : cfg.skipRecording trx.expiration = false) (h : s.pushTransaction cfg trx outcomes = .ok s') :
    Guarded trx.id trx.expiration s' := by
  obtain ⟨idx, hinit, rfl⟩ := DedupState.pushTransaction_eq_ok h
  obtain ⟨-, ⟨hskip, -⟩ | ⟨-, hrecord⟩⟩ := DedupState.initForInputTrx_eq_ok hinit
  · rw [hrec] at hskip
    cases hskip
  · obtain ⟨hok, rfl⟩ := recordTransaction_eq_ok.mp hrecord
    refine .inl ⟨s.transactions.nextId, ?_⟩
    simp [GenericIndex.find?_emplace transactionIndex hok]

/-- A guarded transaction pushed again in a pending block with the checks on and the recording on is refused: as
expired once the chain is past its expiration, as a duplicate whenever the checks before the record pass. -/
theorem pushTransaction_refused {trx : InputTrx TrxId} {outcomes : PushOutcomes} (hg : Guarded trx.id trx.expiration s)
    (hrec : cfg.skipRecording trx.expiration = false) (hchecks : s.skipTrxChecks cfg = false)
    (hpending : s.pending.isSome) :
    ∃ err, s.pushTransaction cfg trx outcomes = .error err ∧
      (secTime trx.expiration < s.blockTime → err = .expiredTx) ∧
      (s.checkInputTrx cfg trx outcomes = .ok () → err = .txDuplicate) := by
  obtain ⟨⟨slot, status⟩, hp⟩ := Option.isSome_iff_exists.mp hpending
  have ht : s.blockTime = slotTime slot := by simp [DedupState.blockTime, hp]
  rw [DedupState.pushTransaction_recorded hrec, ht]
  by_cases hexp : secTime trx.expiration < slotTime slot
  · -- `validate_expiration` throws first
    rw [DedupState.checkInputTrx_expired hp hchecks hexp]
    exact ⟨.expiredTx, rfl, fun _ => rfl, fun h => by cases h⟩
  · -- the object is still there: the record throws, unless a check before it does
    obtain ⟨id, hid⟩ := hg.resolve_right (by rw [ht]; exact hexp)
    cases hcheck : s.checkInputTrx cfg trx outcomes with
    | error err => exact ⟨err, rfl, fun h => absurd h hexp, fun h => by cases h⟩
    | ok u =>
      refine ⟨.txDuplicate, ?_, fun h => absurd h hexp, fun _ => rfl⟩
      rw [show (Except.ok u : Except TrxError Unit) = pure u from rfl, pure_bind,
        recordTransaction_eq_error (emplace_duplicate hid trx.expiration)]
      rfl

/-- A producer: every check runs, no replay. -/
def producingConfig : ControllerConfig := ⟨false, false, none⟩

/-- The genesis block's id. -/
def genesisId : BlockId := ⟨1, 7⟩

/-- The transaction `7`, expiring at the time of slot `2` and naming the genesis block. -/
def genesisTrx : InputTrx Nat := ⟨7, 946684801, 1, 7⟩

/-- Block `2`, at slot `1`, being produced on the genesis block, with the genesis configuration. -/
def producingState : DedupState Nat :=
  { DedupState.init ⟨ChainConfig.genesisDefault⟩ genesisId with pending := some (1, .incomplete) }

example : (producingState.pushTransaction producingConfig genesisTrx .ok >>= fun s₁ =>
    (Rollback.run (DedupEvent.apply producingConfig) s₁ [.commitBlock 9, .startBlock 2 .incomplete]).pushTransaction
      producingConfig genesisTrx .ok) = .error .txDuplicate := rfl

/-- A transaction naming the genesis block (`ref_block_num` `1`), recorded at block `65530` and pushed again in block
`65540`, at slot `65539`: the block summary `1` now holds block `65537` (`65537 & 0xffff = 1`), and `validate_tapos`
refuses the transaction before the record is reached. -/
example : Except.map (fun _ => ()) ({ producingState with
    transactions := (GenericIndex.init.emplace transactionIndex ⟨7, 946718000⟩).1
    blockSummaries := Function.update producingState.blockSummaries 1 ⟨65537, 11⟩
    headNum := 65539, headSlot := 65538, pending := some (65539, .incomplete) }.pushTransaction producingConfig
      ⟨7, 946718000, 1, 7⟩ .ok) = .error .invalidRefBlock := by
  decide

/-- The events one after the other, up to the first that throws. -/
def runEvents (cfg : ControllerConfig) (events : List (DedupEvent TrxId)) (s : DedupState TrxId) :
    Except TrxError (DedupState TrxId) :=
  events.foldlM (fun s ev => ev.apply cfg s) s

/-- A validating node in light validation mode. -/
def lightConfig : ControllerConfig := ⟨false, true, none⟩

/-- Two signed blocks, at slots `1` and `4`, each with the transaction `genesisTrx`. -/
def lightEvents : List (DedupEvent Nat) :=
  [.startBlock 1 .complete, .push genesisTrx .ok, .commitBlock 9, .startBlock 4 .complete, .push genesisTrx .ok]

/-- With the checks on, the second push is refused: the object was cleared at slot `4`, and the transaction has
expired. -/
example : runEvents producingConfig lightEvents (DedupState.init ⟨ChainConfig.genesisDefault⟩ genesisId) =
    .error .expiredTx := rfl

end Gstio.Chain
