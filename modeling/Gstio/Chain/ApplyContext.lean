import Gstio.Chain.ResourceGas

/-!
# The contract tables of `apply_context`

A contract keeps its rows in `key_value_object`s and in the objects of five secondary indices, each row naming the
`table_id_object` of its `(code, scope, table)` and the account that pays for its RAM. `db_store_i64`,
`db_update_i64`, `db_remove_i64` and the `store`, `update` and `remove` of `generic_index` create, change and erase
rows, create a table with its first row and erase it with its last, keep the table's `count`, and bill every byte
through `update_db_usage`, which reaches the resource manager by `add_ram_usage`. `schedule_deferred_transaction`,
`cancel_deferred_transaction` and the controller's `remove_scheduled_transaction` do the same for
`generated_transaction_object`s.

An iterator of the contract stands for the object it names, so a call is given the object's id; the iterator
cache's assertions become lookups of that id.
-/

namespace Gstio.Chain

open Chainbase ResourceLimits

/-! ## Objects and their billable sizes -/

/-- `config::overhead_per_row_per_index_ram_bytes`. -/
def overheadPerRowPerIndexRamBytes : Nat := 32

/-- `config::billable_size_v`: the size rounded up to `billable_alignment`, 16. -/
def billableSizeV (value : Nat) : Nat := (value + 16 - 1) / 16 * 16

/-- `table_id_object`; `count` is a `uint32_t`. -/
structure TableIdObject where
  code : Name
  scope : Name
  table : Name
  payer : Name
  count : UInt32
  deriving DecidableEq, Repr

/-- `billable_size_v<table_id_object>`: 44 bytes of fields and two indices. -/
def TableIdObject.billableSize : Nat := billableSizeV (44 + overheadPerRowPerIndexRamBytes * 2)

/-- `key_value_object`. -/
structure KeyValueObject where
  tId : Nat
  primaryKey : UInt64
  payer : Name
  value : List UInt8
  deriving DecidableEq, Repr

/-- `billable_size_v<key_value_object>`, to which a row adds the size of its value. -/
def KeyValueObject.billableSize : Nat := billableSizeV (32 + 8 + 4 + overheadPerRowPerIndexRamBytes * 2)

/-- The five instances of `secondary_index`. -/
inductive SecondaryKind
  | index64
  | index128
  | index256
  | indexDouble
  | indexLongDouble
  deriving DecidableEq, Repr

namespace SecondaryKind

def all : List SecondaryKind := [index64, index128, index256, indexDouble, indexLongDouble]

theorem mem_all (k : SecondaryKind) : k ∈ all := by
  cases k <;> decide

/-- The bytes of the secondary key. -/
def keyBytes : SecondaryKind → Nat
  | index64 => 8
  | index128 => 16
  | index256 => 32
  | indexDouble => 8
  | indexLongDouble => 16

/-- `billable_size_v<index_object>`: 24 bytes of fields, the key, and three indices. -/
def billableSize (k : SecondaryKind) : Nat := billableSizeV (24 + k.keyBytes + overheadPerRowPerIndexRamBytes * 3)

end SecondaryKind

/-- `secondary_index<SecondaryKey>::index_object`, its key as the number its bits spell. -/
structure SecondaryObject where
  tId : Nat
  primaryKey : UInt64
  payer : Name
  secondaryKey : Nat
  deriving DecidableEq, Repr

/-- `generated_transaction_object`; times are in microseconds. -/
structure GeneratedTransactionObject where
  trxId : Nat
  sender : Name
  senderId : Nat
  payer : Name
  delayUntil : Int
  expiration : Int
  published : Int
  packedTrx : List UInt8
  deriving DecidableEq, Repr

/-- `billable_size_v<generated_transaction_object>`: 96 bytes of fields, 4 of size, and five indices. -/
def GeneratedTransactionObject.billableSize : Nat := billableSizeV (96 + 4 + overheadPerRowPerIndexRamBytes * 5)

-- the sizes, rounded up to `billable_alignment`, that a row of each object bills
example :
    TableIdObject.billableSize = 112 ∧ KeyValueObject.billableSize = 112 ∧
      SecondaryKind.all.map SecondaryKind.billableSize = [128, 144, 160, 128, 144] ∧
      GeneratedTransactionObject.billableSize = 272 := by
  decide

/-- `by_code_scope_table`. -/
def tableIdIndex : List (Nat × TableIdObject → Name × Name × Name) := [fun o => (o.2.code, o.2.scope, o.2.table)]

/-- `by_scope_primary`. -/
def keyValueIndex : List (Nat × KeyValueObject → Nat × UInt64) := [fun o => (o.2.tId, o.2.primaryKey)]

/-- `by_primary` and `by_secondary`. -/
def secondaryIndex : List (Nat × SecondaryObject → (Nat × UInt64) ⊕ (Nat × Nat × UInt64)) :=
  [fun o => .inl (o.2.tId, o.2.primaryKey), fun o => .inr (o.2.tId, o.2.secondaryKey, o.2.primaryKey)]

/-- `by_trx_id` and `by_sender_id`; the other indices end in the id and never collide. -/
def generatedTransactionIndex : List (Nat × GeneratedTransactionObject → Nat ⊕ (Name × Nat)) :=
  [fun o => .inl o.2.trxId, fun o => .inr (o.2.sender, o.2.senderId)]

/-! ## The context -/

/-- What `schedule_deferred_transaction` reads of the `transaction`: its id, the accounts of its actions, its
`delay_sec`, and its packed bytes. -/
structure DeferredTransaction where
  id : Nat
  actionAccounts : List Name
  delaySec : Nat
  packed : List UInt8
  deriving DecidableEq, Repr

inductive ApplyError
  | missingAuth (msg : String)
  | subjectiveBlockProduction (msg : String)
  | invalidTablePayer (msg : String)
  | tableAccessViolation (msg : String)
  | tableOperationNotPermitted (msg : String)
  | tableNotInCache (msg : String)
  | deferredTxDuplicate (msg : String)
  /-- What `check_authorization` throws for the actions of a deferred transaction. -/
  | authorization (msg : String)
  | gas (e : GasError)
  | index (e : IndexError)
  deriving DecidableEq, Repr

/-- What the calls read of the `apply_context`, of its action and of the controller. -/
structure ApplyEnv where
  receiver : Name
  actAccount : Name
  /-- The actors of `act.authorization`. -/
  actors : List Name
  privileged : Bool
  ramBillingInNotifyAllowed : Bool
  producingBlock : Bool
  skipAuthCheck : Bool
  pendingBlockTime : Int
  deferredTrxExpirationWindow : Nat
  /-- `authorization_manager::check_authorization` of a deferred transaction's actions. -/
  checkAuthorization : DeferredTransaction → Except ApplyError Unit

/-- The tables, the resource manager, and what the transaction and the action record of RAM: `validate_ram_usage`,
`_account_ram_deltas` and `_account_gst_gas`. -/
structure ApplyState where
  tables : GenericIndex TableIdObject
  keyValues : GenericIndex KeyValueObject
  secondaries : SecondaryKind → GenericIndex SecondaryObject
  generated : GenericIndex GeneratedTransactionObject
  rl : GasManager
  validateRamUsage : OrdMap Name Unit
  accountRamDeltas : OrdMap Name Int
  accountGstGas : OrdMap Name Int

/-- A chainbase call that throws. -/
def liftDb {V : Type} (r : GenericIndex V × Option IndexError) : Except ApplyError (GenericIndex V) :=
  match r.2 with
  | none => .ok r.1
  | some e => .error (.index e)

/-- `iterator_cache::get`, past its checks on the iterator's range. -/
def getObject {V : Type} (idx : GenericIndex V) (iterator : Nat) : Except ApplyError V :=
  match idx.indices.find? iterator with
  | some o => .ok o
  | none => .error (.tableOperationNotPermitted "dereference of deleted object")

/-- `require_authorization(account)`. -/
def requireAuthorization (env : ApplyEnv) (account : Name) : Except ApplyError Unit :=
  Except.assert (env.actors.contains account) (.missingAuth ("missing authority of " ++ accountString account))

/-- `emplace(account, delta)`, or `+= delta` when the account has an entry. -/
def addDelta (m : OrdMap Name Int) (account : Name) (delta : Int) : OrdMap Name Int :=
  match m.find? account with
  | some d => m.set account (d + delta)
  | none => m.insert account delta

namespace ApplyState

variable (env : ApplyEnv) (s : ApplyState)

/-- `apply_context::add_ram_usage`, with `transaction_context::add_ram_usage`. -/
def addRamUsage (account : Name) (ramDelta : Int) : Except ApplyError ApplyState := do
  let rl ← (s.rl.addPendingRamUsage account ramDelta).mapError .gas
  pure { s with
    rl
    validateRamUsage := if ramDelta > 0 then s.validateRamUsage.insert account () else s.validateRamUsage
    accountRamDeltas := addDelta s.accountRamDeltas account ramDelta
    accountGstGas := if rl.isActivation then addDelta s.accountGstGas account ramDelta else s.accountGstGas }

/-- `update_db_usage`: a charge to another account than the receiver needs its authority, and is refused in a
notification unless RAM billing in notifications is allowed. -/
def updateDbUsage (payer : Name) (delta : Int) : Except ApplyError ApplyState := do
  if delta > 0 ∧ ¬ (env.privileged = true ∨ payer = env.receiver) then
    Except.assert (env.ramBillingInNotifyAllowed || env.receiver == env.actAccount)
      (.subjectiveBlockProduction "Cannot charge RAM to other accounts during notify.")
    requireAuthorization env payer
  s.addRamUsage payer delta

/-- `db.find<table_id_object, by_code_scope_table>`. -/
def findTable (code scope table : Name) : Option (Nat × TableIdObject) :=
  s.tables.indices.entries.find? fun o => o.2.code == code && o.2.scope == scope && o.2.table == table

/-- `iterator_cache::get_table`. -/
def getTable (tId : Nat) : Except ApplyError TableIdObject :=
  match s.tables.indices.find? tId with
  | some t => .ok t
  | none => .error (.tableNotInCache "an invariant was broken, table should be in cache")

/-- `find_or_create_table`, returning the table's id. -/
def findOrCreateTable (code scope table payer : Name) : Except ApplyError (ApplyState × Nat) :=
  match s.findTable code scope table with
  | some (id, _) => .ok (s, id)
  | none => do
    let s ← s.updateDbUsage env payer TableIdObject.billableSize
    let tables ← liftDb (s.tables.emplace tableIdIndex ⟨code, scope, table, payer, 0⟩)
    pure ({ s with tables }, s.tables.nextId)

/-- `remove_table`. -/
def removeTable (tId : Nat) (payer : Name) : Except ApplyError ApplyState := do
  let s ← s.updateDbUsage env payer (-(TableIdObject.billableSize : Int))
  let tables ← liftDb (s.tables.remove tId)
  pure { s with tables }

/-- `++t.count` or `--t.count` on the table of a row. -/
def modifyCount (tId : Nat) (f : UInt32 → UInt32) : Except ApplyError ApplyState := do
  let tables ← liftDb (s.tables.modify tableIdIndex tId fun t => { t with count := f t.count })
  pure { s with tables }

/-- `if (table_obj.count == 0) remove_table(table_obj)` after a row went, `tableObj` read before the decrement. -/
def removeTableIfEmpty (tId : Nat) (tableObj : TableIdObject) : Except ApplyError ApplyState :=
  if tableObj.count - 1 = 0 then s.removeTable env tId tableObj.payer else pure s

/-! ## The primary index -/

/-- `db_store_i64`, returning the new object's id for its iterator. -/
def dbStoreI64 (scope table payer : Name) (id : UInt64) (buffer : List UInt8) :
    Except ApplyError (ApplyState × Nat) := do
  let (s, tableid) ← s.findOrCreateTable env env.receiver scope table payer
  Except.assert (!payer.empty) (.invalidTablePayer "must specify a valid account to pay for new record")
  let objId := s.keyValues.nextId
  let keyValues ← liftDb (s.keyValues.emplace keyValueIndex ⟨tableid, id, payer, buffer⟩)
  let s ← { s with keyValues }.modifyCount tableid (· + 1)
  let s ← s.updateDbUsage env payer (buffer.length + KeyValueObject.billableSize)
  pure (s, objId)

/-- `db_update_i64`: a new payer takes the whole row and the old one gets it back; the same payer pays the
difference. -/
def dbUpdateI64 (iterator : Nat) (payer : Name) (buffer : List UInt8) : Except ApplyError ApplyState := do
  let obj ← getObject s.keyValues iterator
  let tableObj ← s.getTable obj.tId
  Except.assert (tableObj.code == env.receiver) (.tableAccessViolation "db access violation")
  let overhead : Int := KeyValueObject.billableSize
  let oldSize : Int := obj.value.length + overhead
  let newSize : Int := buffer.length + overhead
  let payer := if payer.empty then obj.payer else payer
  let s ←
    if obj.payer ≠ payer then do
      let s ← s.updateDbUsage env obj.payer (-oldSize)
      s.updateDbUsage env payer newSize
    else if oldSize ≠ newSize then s.updateDbUsage env obj.payer (newSize - oldSize)
    else pure s
  let keyValues ← liftDb (s.keyValues.modify keyValueIndex iterator fun o => { o with value := buffer, payer })
  pure { s with keyValues }

/-- `db_remove_i64`: the last row of a table takes the table with it. -/
def dbRemoveI64 (iterator : Nat) : Except ApplyError ApplyState := do
  let obj ← getObject s.keyValues iterator
  let tableObj ← s.getTable obj.tId
  Except.assert (tableObj.code == env.receiver) (.tableAccessViolation "db access violation")
  let s ← s.updateDbUsage env obj.payer (-((obj.value.length + KeyValueObject.billableSize : Nat) : Int))
  let s ← s.modifyCount obj.tId (· - 1)
  let keyValues ← liftDb (s.keyValues.remove iterator)
  { s with keyValues }.removeTableIfEmpty env obj.tId tableObj

/-! ## The secondary indices -/

/-- Set the objects of one secondary index. -/
def setSecondary (kind : SecondaryKind) (idx : GenericIndex SecondaryObject) : ApplyState :=
  { s with secondaries := Function.update s.secondaries kind idx }

@[simp] theorem tables_setSecondary (kind : SecondaryKind) (idx : GenericIndex SecondaryObject) :
    (s.setSecondary kind idx).tables = s.tables := rfl

@[simp] theorem keyValues_setSecondary (kind : SecondaryKind) (idx : GenericIndex SecondaryObject) :
    (s.setSecondary kind idx).keyValues = s.keyValues := rfl

/-- `generic_index<ObjectType>::store`. -/
def idxStore (kind : SecondaryKind) (scope table payer : Name) (id : UInt64) (secondary : Nat) :
    Except ApplyError (ApplyState × Nat) := do
  Except.assert (!payer.empty) (.invalidTablePayer "must specify a valid account to pay for new record")
  let (s, tableid) ← s.findOrCreateTable env env.receiver scope table payer
  let objId := (s.secondaries kind).nextId
  let idx ← liftDb ((s.secondaries kind).emplace secondaryIndex ⟨tableid, id, payer, secondary⟩)
  let s ← (s.setSecondary kind idx).modifyCount tableid (· + 1)
  let s ← s.updateDbUsage env payer kind.billableSize
  pure (s, objId)

/-- `generic_index<ObjectType>::remove`: the refund comes before the access check. -/
def idxRemove (kind : SecondaryKind) (iterator : Nat) : Except ApplyError ApplyState := do
  let obj ← getObject (s.secondaries kind) iterator
  let s ← s.updateDbUsage env obj.payer (-(kind.billableSize : Int))
  let tableObj ← s.getTable obj.tId
  Except.assert (tableObj.code == env.receiver) (.tableAccessViolation "db access violation")
  let s ← s.modifyCount obj.tId (· - 1)
  let idx ← liftDb ((s.secondaries kind).remove iterator)
  (s.setSecondary kind idx).removeTableIfEmpty env obj.tId tableObj

/-- `generic_index<ObjectType>::update`: only a change of payer moves RAM. -/
def idxUpdate (kind : SecondaryKind) (iterator : Nat) (payer : Name) (secondary : Nat) :
    Except ApplyError ApplyState := do
  let obj ← getObject (s.secondaries kind) iterator
  let tableObj ← s.getTable obj.tId
  Except.assert (tableObj.code == env.receiver) (.tableAccessViolation "db access violation")
  let payer := if payer.empty then obj.payer else payer
  let billingSize : Int := kind.billableSize
  let s ←
    if obj.payer ≠ payer then do
      let s ← s.updateDbUsage env obj.payer (-billingSize)
      s.updateDbUsage env payer billingSize
    else pure s
  let idx ← liftDb ((s.secondaries kind).modify secondaryIndex iterator fun o =>
    { o with secondaryKey := secondary, payer })
  pure (s.setSecondary kind idx)

end ApplyState

/-! ## The parts of a call that return -/

theorem liftDb_eq_ok {V : Type} {r : GenericIndex V × Option IndexError} {x : GenericIndex V} :
    liftDb r = .ok x ↔ r.2 = none ∧ r.1 = x := by
  unfold liftDb
  split <;> simp_all

theorem getObject_eq_ok {V : Type} {idx : GenericIndex V} {iterator : Nat} {o : V} :
    getObject idx iterator = .ok o ↔ idx.indices.find? iterator = some o := by
  unfold getObject
  split <;> simp_all

theorem getD_addDelta (m : OrdMap Name Int) (account : Name) (delta : Int) (a : Name) :
    ((addDelta m account delta).find? a).getD 0 = (m.find? a).getD 0 + if a = account then delta else 0 := by
  unfold addDelta
  by_cases ha : a = account
  · subst ha
    cases h : m.find? a <;> simp [h]
  · cases m.find? account <;> simp [ha]

namespace ApplyState

variable {env : ApplyEnv} {s s' : ApplyState}

/-- `add_ram_usage` changes the resource manager and what the transaction and the action record of RAM, and adds
the delta to the account's entry of `_account_ram_deltas`. -/
theorem addRamUsage_eq_ok {account : Name} {ramDelta : Int} (h : s.addRamUsage account ramDelta = .ok s') :
    ∃ rl validate gas, s' = { s with
      rl := rl
      validateRamUsage := validate
      accountRamDeltas := addDelta s.accountRamDeltas account ramDelta
      accountGstGas := gas } := by
  simp only [addRamUsage, bind, Except.bind_eq_ok, pure, Except.pure, Except.ok.injEq] at h
  obtain ⟨rl, -, rfl⟩ := h
  exact ⟨rl, _, _, rfl⟩

/-- What `update_db_usage` checks changes nothing. -/
theorem updateDbUsage_eq_ok {payer : Name} {delta : Int} (h : s.updateDbUsage env payer delta = .ok s') :
    s.addRamUsage payer delta = .ok s' := by
  unfold updateDbUsage at h
  split at h
  · simp only [bind, Except.bind_eq_ok] at h
    obtain ⟨-, -, -, -, h⟩ := h
    exact h
  · exact h

/-- `update_db_usage` leaves the tables. -/
theorem updateDbUsage_frame {payer : Name} {delta : Int} (h : s.updateDbUsage env payer delta = .ok s') :
    s'.tables = s.tables ∧ s'.keyValues = s.keyValues ∧ s'.secondaries = s.secondaries ∧
      s'.generated = s.generated := by
  obtain ⟨rl, validate, gas, rfl⟩ := addRamUsage_eq_ok (updateDbUsage_eq_ok h)
  exact ⟨rfl, rfl, rfl, rfl⟩

theorem getTable_eq_ok {tId : Nat} {t : TableIdObject} : s.getTable tId = .ok t ↔ s.tables.indices.find? tId = some t := by
  unfold getTable
  split <;> simp_all

theorem findTable_eq_some {code scope table : Name} {tid : Nat} {t : TableIdObject}
    (h : s.findTable code scope table = some (tid, t)) : s.tables.indices.find? tid = some t :=
  (OrdMap.mem_entries_iff _ _ _).mp (List.mem_of_find?_eq_some h)

theorem findOrCreateTable_eq_ok {code scope table payer : Name} {tid : Nat}
    (h : s.findOrCreateTable env code scope table payer = .ok (s', tid)) :
    (∃ t, s.findTable code scope table = some (tid, t) ∧ s' = s) ∨
      s.findTable code scope table = none ∧ ∃ s₁, s.updateDbUsage env payer TableIdObject.billableSize = .ok s₁ ∧
        (s₁.tables.emplace tableIdIndex ⟨code, scope, table, payer, 0⟩).2 = none ∧
        s' = { s₁ with tables := (s₁.tables.emplace tableIdIndex ⟨code, scope, table, payer, 0⟩).1 } ∧
        tid = s₁.tables.nextId := by
  unfold findOrCreateTable at h
  cases hf : s.findTable code scope table with
  | some found =>
    obtain ⟨id, t⟩ := found
    simp only [hf, Except.ok.injEq, Prod.mk.injEq] at h
    obtain ⟨rfl, rfl⟩ := h
    exact .inl ⟨t, rfl, rfl⟩
  | none =>
    simp only [hf, bind, Except.bind_eq_ok, liftDb_eq_ok, pure, Except.pure, Except.ok.injEq, Prod.mk.injEq] at h
    obtain ⟨s₁, hs₁, _, ⟨hok, rfl⟩, rfl, rfl⟩ := h
    exact .inr ⟨rfl, s₁, hs₁, hok, rfl, rfl⟩

theorem removeTable_eq_ok {tId : Nat} {payer : Name} (h : s.removeTable env tId payer = .ok s') :
    ∃ s₁, s.updateDbUsage env payer (-(TableIdObject.billableSize : Int)) = .ok s₁ ∧
      (s₁.tables.remove tId).2 = none ∧ s' = { s₁ with tables := (s₁.tables.remove tId).1 } := by
  simp only [removeTable, bind, Except.bind_eq_ok, liftDb_eq_ok, pure, Except.pure, Except.ok.injEq] at h
  obtain ⟨s₁, hs₁, _, ⟨hok, rfl⟩, rfl⟩ := h
  exact ⟨s₁, hs₁, hok, rfl⟩

theorem modifyCount_eq_ok {tId : Nat} {f : UInt32 → UInt32} (h : s.modifyCount tId f = .ok s') :
    (s.tables.modify tableIdIndex tId fun t => { t with count := f t.count }).2 = none ∧
      s' = { s with tables := (s.tables.modify tableIdIndex tId fun t => { t with count := f t.count }).1 } := by
  simp only [modifyCount, bind, Except.bind_eq_ok, liftDb_eq_ok, pure, Except.pure, Except.ok.injEq] at h
  obtain ⟨_, ⟨hok, rfl⟩, rfl⟩ := h
  exact ⟨hok, rfl⟩

end ApplyState

/-! ## Calls -/

/-- A call of the contract database API. -/
inductive DbCall
  | storeI64 (scope table payer : Name) (id : UInt64) (buffer : List UInt8)
  | updateI64 (iterator : Nat) (payer : Name) (buffer : List UInt8)
  | removeI64 (iterator : Nat)
  | idxStore (kind : SecondaryKind) (scope table payer : Name) (id : UInt64) (secondary : Nat)
  | idxUpdate (kind : SecondaryKind) (iterator : Nat) (payer : Name) (secondary : Nat)
  | idxRemove (kind : SecondaryKind) (iterator : Nat)
  deriving DecidableEq, Repr

/-- The call in the context of an action. -/
def DbCall.apply (env : ApplyEnv) : DbCall → ApplyState → Except ApplyError ApplyState
  | .storeI64 scope table payer id buffer, s => Prod.fst <$> s.dbStoreI64 env scope table payer id buffer
  | .updateI64 iterator payer buffer, s => s.dbUpdateI64 env iterator payer buffer
  | .removeI64 iterator, s => s.dbRemoveI64 env iterator
  | .idxStore kind scope table payer id secondary, s => Prod.fst <$> s.idxStore env kind scope table payer id secondary
  | .idxUpdate kind iterator payer secondary, s => s.idxUpdate env kind iterator payer secondary
  | .idxRemove kind iterator, s => s.idxRemove env kind iterator

/-- Calls one after the other, each in the context of its action, up to the first that throws. -/
def runCalls (calls : List (ApplyEnv × DbCall)) (s : ApplyState) : Except ApplyError ApplyState :=
  calls.foldlM (fun s c => c.2.apply c.1 s) s

/-! ## Two accounts -/

/-- The accounts `alice` and `bob` with their resource rows, and no table or deferred transaction. -/
def twoAccounts : Except ApplyError ApplyState := do
  let rl ← (GasManager.init.initializeAccount (N "alice") >>= (·.initializeAccount (N "bob"))).mapError .gas
  pure ⟨.init, .init, fun _ => .init, .init, rl, .empty, .empty, .empty⟩

/-- An action of `alice`, authorized by `alice` and `bob`, applied while validating a block. -/
def validatingEnv : ApplyEnv :=
  ⟨N "alice", N "alice", [N "alice", N "bob"], false, false, false, false, 0, 600, fun _ => .ok ()⟩

end Gstio.Chain
