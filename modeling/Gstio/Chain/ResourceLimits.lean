import Mathlib
import Gstio.Chainbase.UniqueKeys
import Gstio.Chain.Name
import Gstio.Lib.Rollback

/-!
# Resource limits: `resource_limits_manager`

Every account has a `resource_limits_object` with its RAM quota and its NET and CPU weights, `-1` standing for
unlimited; `resource_limits_state_object` holds the totals of the weights. A change of limits does not take
effect at once: `set_account_limits` writes it into a pending copy of the account's row, and
`process_account_limit_updates`, at the next block, folds each pending row into the committed one, moves the
totals by the difference and removes the pending row.

Each call has one spec lemma: `updateStateAndValue_eq` and `updateTotals_spec` for the arithmetic of the totals,
`initializeAccount_eq_ok`, `findOrCreatePendingLimits_eq_ok` and `setAccountLimits_eq_ok` for what a returning call
did to the table. The `while` loop of `process_account_limit_updates` is `processLoop`, given one pass per row.
-/

namespace Gstio.Chain.ResourceLimits

open Chainbase

/-- `resource_limits_object`. -/
structure ResourceLimitsObject where
  owner : Name
  pending : Bool
  netWeight : Int
  cpuWeight : Int
  ramBytes : Int
  deriving DecidableEq, Repr

/-- `resource_limits_state_object`: the totals of the committed limits. Its usage averages and virtual limits
are not read by the limit updates. -/
structure ResourceLimitsStateObject where
  totalNetWeight : Nat
  totalCpuWeight : Nat
  totalRamBytes : Nat
  deriving DecidableEq, Repr

/-- The tables of `resource_limits_manager` that the limit updates touch. -/
structure ResourceLimitsManager where
  limits : GenericIndex ResourceLimitsObject
  state : ResourceLimitsStateObject
  deriving DecidableEq

/-- `resource_limits_index`: unique by `(pending, owner)`. -/
def resourceLimitsIndex : List (Nat × ResourceLimitsObject → Bool × Name) := [fun o => (o.2.pending, o.2.owner)]

/-- The exceptions of the limit updates. -/
inductive ResourceLimitsError
  /-- `rate_limiting_state_inconsistent`: `"underflow when reverting old value to ${which}"` -/
  | underflow (which : String)
  /-- `rate_limiting_state_inconsistent`: `"overflow when applying new value to ${which}"` -/
  | overflow (which : String)
  /-- An exception of the table. -/
  | index (e : IndexError)
  deriving DecidableEq, Repr

/-- `UINT64_MAX`. -/
def uint64Max : Nat := 2 ^ 64 - 1

/-- A table call, throwing its exception. -/
def liftTable (r : GenericIndex ResourceLimitsObject × Option IndexError) :
    Except ResourceLimitsError (GenericIndex ResourceLimitsObject) :=
  match r.2 with
  | none => .ok r.1
  | some e => .error (.index e)

theorem liftTable_eq_ok {r : GenericIndex ResourceLimitsObject × Option IndexError}
    {s : GenericIndex ResourceLimitsObject} : liftTable r = .ok s ↔ r.2 = none ∧ r.1 = s := by
  unfold liftTable
  split <;> simp_all

theorem liftTable_of_none {r : GenericIndex ResourceLimitsObject × Option IndexError} (h : r.2 = none) :
    liftTable r = .ok r.1 :=
  liftTable_eq_ok.mpr ⟨h, rfl⟩

/-! ## The calls -/

/-- `_db.find<resource_limits_object, by_owner>(boost::make_tuple(pending, owner))`. -/
def findLimits (idx : OrdMap Nat ResourceLimitsObject) (pending : Bool) (owner : Name) :
    Option (Nat × ResourceLimitsObject) :=
  idx.entries.find? fun o => o.2.pending == pending && o.2.owner == owner

/-- `_db.get<resource_limits_object, by_owner>(boost::make_tuple(pending, owner))`. -/
def getLimits (idx : OrdMap Nat ResourceLimitsObject) (pending : Bool) (owner : Name) :
    Except ResourceLimitsError (Nat × ResourceLimitsObject) :=
  match findLimits idx pending owner with
  | some o => .ok o
  | none => .error (.index .keyNotFound)

/-- A `resource_limits_object` of `owner` with the defaults of its declaration. -/
def newLimits (owner : Name) : ResourceLimitsObject :=
  { owner, pending := false, netWeight := -1, cpuWeight := -1, ramBytes := -1 }

/-- `initialize_account`. The `resource_usage_object` it also creates is not modelled. -/
def initializeAccount (rl : ResourceLimitsManager) (account : Name) :
    Except ResourceLimitsError ResourceLimitsManager := do
  let limits ← liftTable (rl.limits.emplace resourceLimitsIndex (newLimits account))
  pure { rl with limits }

/-- `find_or_create_pending_limits` of `set_account_limits`: the account's pending row, else a pending copy of
its committed row. Returns the table with the row's id and value. -/
def findOrCreatePendingLimits (limits : GenericIndex ResourceLimitsObject) (account : Name) :
    Except ResourceLimitsError (GenericIndex ResourceLimitsObject × Nat × ResourceLimitsObject) :=
  match findLimits limits.indices true account with
  | some p => pure (limits, p)
  | none => do
    let l ← getLimits limits.indices false account
    let pendingLimits : ResourceLimitsObject :=
      { owner := l.2.owner, pending := true, netWeight := l.2.netWeight, cpuWeight := l.2.cpuWeight,
        ramBytes := l.2.ramBytes }
    let limits' ← liftTable (limits.emplace resourceLimitsIndex pendingLimits)
    pure (limits', limits.nextId, pendingLimits)

/-- `set_account_limits`: the limits go into the pending row; the flag says whether the RAM quota went down. -/
def setAccountLimits (rl : ResourceLimitsManager) (account : Name) (ramBytes netWeight cpuWeight : Int) :
    Except ResourceLimitsError (ResourceLimitsManager × Bool) := do
  let (limits, id, p) ← findOrCreatePendingLimits rl.limits account
  let decreasedLimit := decide (ramBytes ≥ 0) && (decide (p.ramBytes < 0) || decide (ramBytes < p.ramBytes))
  let limits ← liftTable (limits.modify resourceLimitsIndex id fun pendingLimits =>
    { pendingLimits with ramBytes, netWeight, cpuWeight })
  pure ({ rl with limits }, decreasedLimit)

/-- The first `if` of `update_state_and_value`: a positive old value leaves the total. -/
def revertValue (total : Nat) (value : Int) (debugWhich : String) : Except ResourceLimitsError Nat :=
  if value > 0 then
    if total ≥ value.toNat then .ok (total - value.toNat) else .error (.underflow debugWhich)
  else .ok total

/-- The second `if` of `update_state_and_value`: a positive pending value joins the total. -/
def applyValue (total : Nat) (pendingValue : Int) (debugWhich : String) : Except ResourceLimitsError Nat :=
  if pendingValue > 0 then
    if uint64Max - total ≥ pendingValue.toNat then .ok (total + pendingValue.toNat)
    else .error (.overflow debugWhich)
  else .ok total

/-- `update_state_and_value`, returning the new total; the caller sets the value. -/
def updateStateAndValue (total : Nat) (value pendingValue : Int) (debugWhich : String) :
    Except ResourceLimitsError Nat := do
  let total ← revertValue total value debugWhich
  applyValue total pendingValue debugWhich

/-- The three calls of `update_state_and_value` in the `modify` of the committed row `rlo`. -/
def updateTotals (rso : ResourceLimitsStateObject) (rlo pending : ResourceLimitsObject) :
    Except ResourceLimitsError ResourceLimitsStateObject := do
  let totalRamBytes ← updateStateAndValue rso.totalRamBytes rlo.ramBytes pending.ramBytes "ram_bytes"
  let totalCpuWeight ← updateStateAndValue rso.totalCpuWeight rlo.cpuWeight pending.cpuWeight "cpu_weight"
  let totalNetWeight ← updateStateAndValue rso.totalNetWeight rlo.netWeight pending.netWeight "net_weight"
  pure { totalNetWeight, totalCpuWeight, totalRamBytes }

/-- The values the three calls of `update_state_and_value` give the committed row `rlo` (`value = pending_value`). -/
def commitPending (pending rlo : ResourceLimitsObject) : ResourceLimitsObject :=
  { rlo with ramBytes := pending.ramBytes, cpuWeight := pending.cpuWeight, netWeight := pending.netWeight }

/-- One pass of the loop of `process_account_limit_updates` over the pending row `(pendingId, pending)`: the
committed row of its owner takes its values, the totals move, the pending row goes. -/
def processPending (rl : ResourceLimitsManager) (pendingId : Nat) (pending : ResourceLimitsObject) :
    Except ResourceLimitsError ResourceLimitsManager := do
  let (actualId, actualEntry) ← getLimits rl.limits.indices false pending.owner
  let state ← updateTotals rl.state actualEntry pending
  let limits ← liftTable (rl.limits.modify resourceLimitsIndex actualId (commitPending pending))
  let limits ← liftTable (limits.remove pendingId)
  pure ⟨limits, state⟩

/-- `by_owner_index.lower_bound(boost::make_tuple(true))` when it is a pending row: in the `(pending, owner)`
order the committed rows come first, and the pending row of the least owner is met first. -/
def firstPending (idx : OrdMap Nat ResourceLimitsObject) : Option (Nat × ResourceLimitsObject) :=
  (idx.entries.filter fun o => o.2.pending).argmin fun o => o.2.owner.value.toNat

/-- The `while` loop of `process_account_limit_updates`, for at most `fuel` passes. -/
def processLoop (rl : ResourceLimitsManager) : Nat → Except ResourceLimitsError ResourceLimitsManager
  | 0 => pure rl
  | fuel + 1 =>
    match firstPending rl.limits.indices with
    | none => pure rl
    | some (id, pending) => do
      let rl ← processPending rl id pending
      processLoop rl fuel

/-- `process_account_limit_updates`: each pass removes a row, so one pass per row is enough. -/
def processAccountLimitUpdates (rl : ResourceLimitsManager) : Except ResourceLimitsError ResourceLimitsManager :=
  processLoop rl rl.limits.indices.entries.length

/-- The calls that change the limit tables. -/
inductive ResourceAction
  | initializeAccount (account : Name)
  | setAccountLimits (account : Name) (ramBytes netWeight cpuWeight : Int)
  | processAccountLimitUpdates
  deriving DecidableEq, Repr

/-- One call. -/
def ResourceAction.apply : ResourceAction → ResourceLimitsManager → Except ResourceLimitsError ResourceLimitsManager
  | .initializeAccount account, rl => ResourceLimits.initializeAccount rl account
  | .setAccountLimits account ramBytes netWeight cpuWeight, rl =>
    (ResourceLimits.setAccountLimits rl account ramBytes netWeight cpuWeight).map (·.1)
  | .processAccountLimitUpdates, rl => ResourceLimits.processAccountLimitUpdates rl

/-- The tables after `resource_limits_manager::initialize_database`: no row, and zero totals. -/
def ResourceLimitsManager.init : ResourceLimitsManager := ⟨.init, ⟨0, 0, 0⟩⟩

/-- A state that the calls reach from `initialize_database`, each call in a session of its own. -/
def Reachable (rl : ResourceLimitsManager) : Prop := ∃ as, rl = Rollback.run ResourceAction.apply .init as

/-! ## The three limits as one -/

/-- The limits of a row, named by the `debug_which` of `update_state_and_value`. -/
inductive Resource
  | netWeight
  | cpuWeight
  | ramBytes
  deriving DecidableEq, Repr

namespace Resource

/-- The `debug_which` text. -/
def which : Resource → String
  | netWeight => "net_weight"
  | cpuWeight => "cpu_weight"
  | ramBytes => "ram_bytes"

/-- The row's value. -/
def limit : Resource → ResourceLimitsObject → Int
  | netWeight => (·.netWeight)
  | cpuWeight => (·.cpuWeight)
  | ramBytes => (·.ramBytes)

/-- The total. -/
def total : Resource → ResourceLimitsStateObject → Nat
  | netWeight => (·.totalNetWeight)
  | cpuWeight => (·.totalCpuWeight)
  | ramBytes => (·.totalRamBytes)

theorem forall_iff {P : Resource → Prop} : (∀ r, P r) ↔ P netWeight ∧ P cpuWeight ∧ P ramBytes := by
  constructor
  · intro h
    exact ⟨h _, h _, h _⟩
  · rintro ⟨h₁, h₂, h₃⟩ (_ | _ | _) <;> assumption

theorem exists_iff {P : Resource → Prop} : (∃ r, P r) ↔ P netWeight ∨ P cpuWeight ∨ P ramBytes := by
  constructor
  · rintro ⟨(_ | _ | _), h⟩ <;> simp_all
  · rintro (h | h | h) <;> exact ⟨_, h⟩

end Resource

/-! ## Lookups -/

theorem findLimits_eq_some {idx : OrdMap Nat ResourceLimitsObject} {pending : Bool} {owner : Name} {id : Nat}
    {o : ResourceLimitsObject} (h : findLimits idx pending owner = some (id, o)) :
    idx.find? id = some o ∧ o.pending = pending ∧ o.owner = owner := by
  have ho := List.find?_some h
  simp only [Bool.and_eq_true, beq_iff_eq] at ho
  exact ⟨(idx.mem_entries_iff id o).mp (List.mem_of_find?_eq_some h), ho⟩

/-- A row of the right kind and owner is found. -/
theorem findLimits_of_find? {idx : OrdMap Nat ResourceLimitsObject} {x : Nat} {c : ResourceLimitsObject}
    (hx : idx.find? x = some c) : ∃ id o, findLimits idx c.pending c.owner = some (id, o) := by
  cases h : findLimits idx c.pending c.owner with
  | some e => exact ⟨e.1, e.2, rfl⟩
  | none =>
    have hc := List.find?_eq_none.mp h (x, c) ((idx.mem_entries_iff x c).mpr hx)
    simp at hc

theorem getLimits_eq_ok {idx : OrdMap Nat ResourceLimitsObject} {pending : Bool} {owner : Name} {id : Nat}
    {o : ResourceLimitsObject} (h : getLimits idx pending owner = .ok (id, o)) :
    idx.find? id = some o ∧ o.pending = pending ∧ o.owner = owner := by
  unfold getLimits at h
  split at h
  · rename_i e he
    cases h
    exact findLimits_eq_some he
  · cases h

theorem firstPending_eq_some {idx : OrdMap Nat ResourceLimitsObject} {id : Nat} {p : ResourceLimitsObject}
    (h : firstPending idx = some (id, p)) : idx.find? id = some p ∧ p.pending = true := by
  have hmem := List.mem_filter.mp (List.argmin_mem h)
  exact ⟨(idx.mem_entries_iff id p).mp hmem.1, hmem.2⟩

theorem firstPending_eq_none {idx : OrdMap Nat ResourceLimitsObject} (h : firstPending idx = none)
    {id : Nat} {p : ResourceLimitsObject} (hp : idx.find? id = some p) : p.pending = false := by
  rw [firstPending, List.argmin_eq_none, List.filter_eq_nil_iff] at h
  simpa using h (id, p) ((idx.mem_entries_iff id p).mpr hp)

/-! ## `update_state_and_value` -/

/-- Within the range of a `uint64_t` total that holds the old value, `update_state_and_value` moves the total by
the difference, or throws its overflow. -/
theorem updateStateAndValue_eq {total : Nat} {value : Int} (hv : value.toNat ≤ total) (ht : total ≤ uint64Max)
    (pendingValue : Int) (debugWhich : String) :
    updateStateAndValue total value pendingValue debugWhich =
      if total - value.toNat + pendingValue.toNat ≤ uint64Max then .ok (total - value.toNat + pendingValue.toNat)
      else .error (.overflow debugWhich) := by
  have hrevert : revertValue total value debugWhich = .ok (total - value.toNat) := by
    unfold revertValue
    split_ifs <;> first | rfl | omega | (congr 1; omega)
  show (revertValue total value debugWhich).bind (fun t => applyValue t pendingValue debugWhich) = _
  rw [hrevert]
  show applyValue (total - value.toNat) pendingValue debugWhich = _
  unfold applyValue
  split_ifs <;> first | rfl | omega | (congr 1; omega)

namespace Resource

@[simp] theorem limit_commitPending (r : Resource) (pending rlo : ResourceLimitsObject) :
    r.limit (commitPending pending rlo) = r.limit pending := by
  cases r <;> rfl

end Resource

@[simp] theorem pending_commitPending (pending rlo : ResourceLimitsObject) :
    (commitPending pending rlo).pending = rlo.pending := rfl

@[simp] theorem owner_commitPending (pending rlo : ResourceLimitsObject) :
    (commitPending pending rlo).owner = rlo.owner := rfl

/-- The body of the `modify`: when the old values are within the totals, it returns exactly when every new total
fits a `uint64_t`, with those totals, and otherwise throws the overflow of one of them. -/
theorem updateTotals_spec {rso : ResourceLimitsStateObject} {rlo pending : ResourceLimitsObject}
    (hv : ∀ r : Resource, (r.limit rlo).toNat ≤ r.total rso) (ht : ∀ r : Resource, r.total rso ≤ uint64Max) :
    (∀ rso', updateTotals rso rlo pending = .ok rso' ↔
      ∀ r : Resource, r.total rso - (r.limit rlo).toNat + (r.limit pending).toNat ≤ uint64Max ∧
        r.total rso' = r.total rso - (r.limit rlo).toNat + (r.limit pending).toNat) ∧
    ∀ e, updateTotals rso rlo pending = .error e → ∃ r : Resource, e = .overflow r.which := by
  obtain ⟨hn, hc, hr⟩ := Resource.forall_iff.mp hv
  obtain ⟨hn', hc', hr'⟩ := Resource.forall_iff.mp ht
  simp only [Resource.limit, Resource.total] at hr hc hn hr' hc' hn'
  unfold updateTotals
  rw [updateStateAndValue_eq hr hr', updateStateAndValue_eq hc hc', updateStateAndValue_eq hn hn']
  simp only [Resource.forall_iff, Resource.exists_iff, Resource.limit, Resource.total, Resource.which]
  refine ⟨fun rso' => ?_, fun e he => ?_⟩
  · obtain ⟨n, c, r⟩ := rso'
    split_ifs <;> simp_all [bind, Except.bind, pure, Except.pure, eq_comm]
  · split_ifs at he <;> simp_all [bind, Except.bind, pure, Except.pure, eq_comm]

/-! ## The calls that return -/

theorem initializeAccount_eq_ok {rl rl' : ResourceLimitsManager} {account : Name}
    (h : initializeAccount rl account = .ok rl') :
    (rl.limits.emplace resourceLimitsIndex (newLimits account)).2 = none ∧
      rl' = { rl with limits := (rl.limits.emplace resourceLimitsIndex (newLimits account)).1 } := by
  simp only [initializeAccount, bind, Except.bind_eq_ok, liftTable_eq_ok, pure, Except.pure, Except.ok.injEq] at h
  obtain ⟨_, ⟨hok, rfl⟩, rfl⟩ := h
  exact ⟨hok, rfl⟩

theorem findOrCreatePendingLimits_eq_ok {limits limits' : GenericIndex ResourceLimitsObject} {account : Name}
    {id : Nat} {p : ResourceLimitsObject} (h : findOrCreatePendingLimits limits account = .ok (limits', id, p)) :
    findLimits limits.indices true account = some (id, p) ∧ limits' = limits ∨
      findLimits limits.indices true account = none ∧ ∃ cid c, getLimits limits.indices false account = .ok (cid, c) ∧
        p = { owner := c.owner, pending := true, netWeight := c.netWeight, cpuWeight := c.cpuWeight,
              ramBytes := c.ramBytes } ∧
        id = limits.nextId ∧ (limits.emplace resourceLimitsIndex p).2 = none ∧
        limits' = (limits.emplace resourceLimitsIndex p).1 := by
  unfold findOrCreatePendingLimits at h
  cases hf : findLimits limits.indices true account with
  | some q =>
    simp only [hf, pure, Except.pure, Except.ok.injEq, Prod.mk.injEq] at h
    obtain ⟨rfl, rfl⟩ := h
    exact .inl ⟨rfl, rfl⟩
  | none =>
    simp only [hf, bind, Except.bind_eq_ok, liftTable_eq_ok, pure, Except.pure, Except.ok.injEq,
      Prod.mk.injEq] at h
    obtain ⟨⟨cid, c⟩, hget, _, ⟨hok, rfl⟩, rfl, rfl, rfl⟩ := h
    exact .inr ⟨rfl, cid, c, hget, rfl, rfl, hok, rfl⟩

theorem setAccountLimits_eq_ok {rl rl' : ResourceLimitsManager} {account : Name} {ramBytes netWeight cpuWeight : Int}
    {decreasedLimit : Bool} (h : setAccountLimits rl account ramBytes netWeight cpuWeight = .ok (rl', decreasedLimit)) :
    ∃ limits id p, findOrCreatePendingLimits rl.limits account = .ok (limits, id, p) ∧
      (limits.modify resourceLimitsIndex id fun pendingLimits =>
        { pendingLimits with ramBytes, netWeight, cpuWeight }).2 = none ∧
      rl' = { rl with limits := (limits.modify resourceLimitsIndex id fun pendingLimits =>
        { pendingLimits with ramBytes, netWeight, cpuWeight }).1 } := by
  simp only [setAccountLimits, bind, Except.bind_eq_ok, liftTable_eq_ok, pure, Except.pure, Except.ok.injEq,
    Prod.mk.injEq] at h
  obtain ⟨⟨limits, id, p⟩, hfind, h⟩ := h
  obtain ⟨_, ⟨hok, rfl⟩, rfl, -⟩ := h
  exact ⟨limits, id, p, hfind, hok, rfl⟩

end Gstio.Chain.ResourceLimits
