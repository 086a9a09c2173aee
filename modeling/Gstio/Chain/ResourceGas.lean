import Gstio.Chain.ResourceLimits
import Gstio.Chain.AuthorizationManager

/-!
# RAM usage and gas: the `resource_gst_object` tables of `resource_limits_manager`

Every account has a `resource_usage_object` whose `ram_usage` moves with every RAM delta
(`add_pending_ram_usage`). Once gas is switched on (`set_gas_limits`, read by `is_activation`), the delta also moves
the `gst_usage` of the account's `resource_gst_object`, whose `gst_bytes` is the gas bought
(`set_gst_limits`, reached through the intrinsic `set_resource_limits2`). At the end of a transaction
`verify_account_ram_usage` checks the accounts whose RAM grew, and `newaccount` and `transfer` actions charge 100
gas each (`verify_account_gst_usage`).

Both gas fields are `uint64_t` and the setter takes an `int64_t`: `set_resource_limits2` admits `-1`, which the
setter stores as `2^64 - 1` (`gas_limit_of_minus_one`).
-/

namespace Gstio.Chain.ResourceLimits

open Chainbase

/-- `resource_usage_object`, with the field the RAM accounting moves. -/
structure ResourceUsageObject where
  owner : Name
  ramUsage : Nat
  deriving DecidableEq, Repr

/-- `resource_gst_object`: the gas an account bought and the gas it used, both `uint64_t`. -/
structure ResourceGstObject where
  owner : Name
  pending : Bool
  gstBytes : Nat
  gstUsage : Nat
  deriving DecidableEq, Repr

/-- `resource_activation_gst_object`: whether gas is charged. -/
structure ResourceActivationGstObject where
  owner : Name
  pending : Bool
  isActivation : Bool
  deriving DecidableEq, Repr

/-- The tables of `resource_limits_manager` that RAM and gas touch. -/
structure GasManager where
  limits : GenericIndex ResourceLimitsObject
  usage : GenericIndex ResourceUsageObject
  gst : GenericIndex ResourceGstObject
  activation : GenericIndex ResourceActivationGstObject

/-- `resource_usage_index`: unique by owner. -/
def resourceUsageIndex : List (Nat × ResourceUsageObject → Name) := [fun o => o.2.owner]

/-- `resource_gst_index`: unique by `(pending, owner)`. -/
def resourceGstIndex : List (Nat × ResourceGstObject → Bool × Name) := [fun o => (o.2.pending, o.2.owner)]

/-- `resource_activation_gst_index`: unique by `(pending, owner)`. -/
def resourceActivationGstIndex : List (Nat × ResourceActivationGstObject → Bool × Name) :=
  [fun o => (o.2.pending, o.2.owner)]

/-- The exceptions of the RAM and gas calls. -/
inductive GasError
  | transaction (msg : String)
  | ramUsageExceeded (msg : String)
  | gstioAssertMessage (msg : String)
  | wasmExecution (msg : String)
  | index (e : IndexError)
  deriving DecidableEq, Repr

/-- A table call, throwing its exception. -/
def liftGas {V : Type} (r : GenericIndex V × Option IndexError) : Except GasError (GenericIndex V) :=
  match r.2 with
  | none => .ok r.1
  | some e => .error (.index e)

/-- `static_cast<uint64_t>` of an `int64_t`. -/
def toUint64 (x : Int) : Nat := (x % 2 ^ 64).toNat

/-- `a - b` in `uint64_t`. -/
def subUint64 (a b : Nat) : Nat := (a + 2 ^ 64 - b) % 2 ^ 64

/-- `static_cast<int64_t>` of a `uint64_t`. -/
def toInt64 (n : Nat) : Int := if n < 2 ^ 63 then n else n - 2 ^ 64

/-- The name of an account as `${account}` prints it. -/
def accountString (n : Name) : String := String.ofList n.toString

/-- `gstio.gas`, the account that sells gas. -/
def gasAccountName : Name := N "gstio.gas"

/-! ## Lookups -/

/-- `_db.get<resource_usage_object, by_owner>(owner)`. -/
def getUsage (idx : OrdMap Nat ResourceUsageObject) (owner : Name) : Except GasError (Nat × ResourceUsageObject) :=
  match idx.entries.find? fun o => o.2.owner == owner with
  | some o => .ok o
  | none => .error (.index .keyNotFound)

/-- `_db.find<resource_gst_object, by_owner>(boost::make_tuple(pending, owner))`. -/
def findGst (idx : OrdMap Nat ResourceGstObject) (pending : Bool) (owner : Name) : Option (Nat × ResourceGstObject) :=
  idx.entries.find? fun o => o.2.pending == pending && o.2.owner == owner

/-- `_db.find<resource_activation_gst_object, by_owner>(boost::make_tuple(pending, owner))`. -/
def findActivation (idx : OrdMap Nat ResourceActivationGstObject) (pending : Bool) (owner : Name) :
    Option (Nat × ResourceActivationGstObject) :=
  idx.entries.find? fun o => o.2.pending == pending && o.2.owner == owner

namespace GasManager

variable (m : GasManager)

/-- `is_activation`: the switch row of `gstio` exists and is on. -/
def isActivation : Bool :=
  match findActivation m.activation.indices true systemAccountName with
  | some (_, a) => a.isActivation
  | none => false

/-- The gas part of `add_pending_ram_usage`: the account's gas row takes the delta, not going below zero, and is
created on the account's first delta. -/
def addPendingGstUsage (account : Name) (ramDelta : Int) : Except GasError GasManager :=
  match findGst m.gst.indices true account with
  | some (id, _) => do
    let gst ← liftGas (m.gst.modify resourceGstIndex id fun limits =>
      if toInt64 limits.gstUsage + ramDelta < 0 then { limits with gstUsage := 0 }
      else { limits with gstUsage := (limits.gstUsage + toUint64 ramDelta) % 2 ^ 64 })
    pure { m with gst }
  | none => do
    let gst ← liftGas (m.gst.emplace resourceGstIndex
      ⟨account, true, 0, if ramDelta < 0 then 0 else toUint64 ramDelta⟩)
    pure { m with gst }

/-- `add_pending_ram_usage`: the account's `ram_usage` takes the delta, which may neither overflow nor underflow a
`uint64_t`; with gas on, its gas usage too. -/
def addPendingRamUsage (account : Name) (ramDelta : Int) : Except GasError GasManager :=
  if ramDelta = 0 then .ok m
  else do
    let (id, u) ← getUsage m.usage.indices account
    Except.assert (ramDelta ≤ 0 || decide (uint64Max - u.ramUsage ≥ toUint64 ramDelta))
      (.transaction "Ram usage delta would overflow UINT64_MAX")
    Except.assert (ramDelta ≥ 0 || decide (u.ramUsage ≥ toUint64 (-ramDelta)))
      (.transaction "Ram usage delta would underflow UINT64_MAX")
    let usage ← liftGas (m.usage.modify resourceUsageIndex id fun u =>
      { u with ramUsage := (u.ramUsage + toUint64 ramDelta) % 2 ^ 64 })
    let m : GasManager := { m with usage }
    if m.isActivation then m.addPendingGstUsage account ramDelta else pure m

/-- `get_account_limits`, the RAM quota: the pending row if there is one, else the committed row. -/
def getAccountRamBytes (account : Name) : Except GasError Int :=
  match findLimits m.limits.indices true account with
  | some (_, p) => .ok p.ramBytes
  | none =>
    match findLimits m.limits.indices false account with
    | some (_, l) => .ok l.ramBytes
    | none => .error (.index .keyNotFound)

/-- `verify_account_ram_usage`: the RAM usage within the quota, and with gas on, the gas usage within the gas
bought, except for `gstio` and `gstio.gas`; an account with no gas row fails unless it is `gstio.gas`. -/
def verifyAccountRamUsage (account : Name) : Except GasError Unit := do
  let ramBytes ← m.getAccountRamBytes account
  let (_, usage) ← getUsage m.usage.indices account
  if ramBytes ≥ 0 then
    Except.assert (decide (usage.ramUsage ≤ toUint64 ramBytes))
      (.ramUsageExceeded ("account " ++ accountString account ++ " has insufficient ram; needs " ++
        toString usage.ramUsage ++ " bytes has " ++ toString ramBytes ++ " bytes"))
  if m.isActivation then
    match findGst m.gst.indices true account with
    | some (_, g) =>
      if g.owner ≠ gasAccountName ∧ g.owner ≠ systemAccountName then
        Except.assert (decide (g.gstUsage ≤ g.gstBytes))
          (.gstioAssertMessage ("account " ++ accountString account ++ " has insufficient gas; needs " ++
            toString g.gstUsage ++ " gas has " ++ toString g.gstBytes ++ " gas"))
    | none =>
      Except.assert (account == gasAccountName)
        (.gstioAssertMessage ("用户" ++ accountString account ++ "请兑换gas再进行此操作"))

/-- `verify_account_gst_usage`: the charge of 100 gas for a `newaccount` or a `transfer`, in `uint64_t`. -/
def verifyAccountGstUsage (account : Name) : Except GasError GasManager :=
  match findGst m.gst.indices true account with
  | none => .error (.gstioAssertMessage ("用户" ++ accountString account ++ "请兑换gas再进行此操作"))
  | some (id, g) => do
    Except.assert (decide (g.gstBytes ≥ (g.gstUsage + 100) % 2 ^ 64))
      (.gstioAssertMessage ("用户 " ++ accountString account ++ " gas不足; 需要 100 gas 剩余 " ++
        toString (toInt64 (subUint64 g.gstBytes g.gstUsage)) ++ " gas"))
    let gst ← liftGas (m.gst.modify resourceGstIndex id fun limits =>
      { limits with gstUsage := (limits.gstUsage + 100) % 2 ^ 64 })
    pure { m with gst }

/-- `set_gst_limits`: the account's gas row, created with the new value if there is none, takes the value as a
`uint64_t`. Selling below the usage is refused, the comparisons being made in `uint64_t`. The flag says whether the
limit went down. -/
def setGstLimits (account : Name) (gstBytes : Int) : Except GasError (GasManager × Bool) := do
  let (gst, id, limits) ← match findGst m.gst.indices true account with
    | some (id, g) => pure (m.gst, id, g)
    | none => do
      let g : ResourceGstObject := ⟨account, true, toUint64 gstBytes, 0⟩
      let gst ← liftGas (m.gst.emplace resourceGstIndex g)
      pure (gst, m.gst.nextId, g)
  if limits.gstBytes > toUint64 gstBytes then
    Except.assert (decide (toUint64 gstBytes ≥ limits.gstUsage))
      (.gstioAssertMessage ("用户 " ++ accountString account ++ " gas不足; 当前剩余 " ++
        toString (subUint64 limits.gstBytes limits.gstUsage) ++ " gas 已用 " ++
        toString limits.gstUsage ++ " gas"))
  let decreasedLimit := decide (gstBytes ≥ 0) && decide (toUint64 gstBytes < limits.gstBytes)
  let gst ← liftGas (gst.modify resourceGstIndex id fun l => { l with gstBytes := toUint64 gstBytes })
  pure ({ m with gst }, decreasedLimit)

/-- `set_gas_limits`: the first call creates the switch of `gstio`, on whatever the flag; later calls set it. -/
def setGasLimits (flag : Bool) : Except GasError GasManager :=
  match findActivation m.activation.indices true systemAccountName with
  | none => do
    let activation ← liftGas (m.activation.emplace resourceActivationGstIndex ⟨systemAccountName, true, true⟩)
    pure { m with activation }
  | some (id, _) => do
    let activation ← liftGas (m.activation.modify resourceActivationGstIndex id fun g => { g with isActivation := flag })
    pure { m with activation }

/-- `initialize_account`: a limits row with the declaration's defaults and a usage row. -/
def initializeAccount (account : Name) : Except GasError GasManager := do
  let limits ← liftGas (m.limits.emplace resourceLimitsIndex (newLimits account))
  let usage ← liftGas (m.usage.emplace resourceUsageIndex ⟨account, 0⟩)
  pure { m with limits, usage }

end GasManager

/-! ## Transactions -/

/-- What a transaction does to the RAM and gas tables. -/
inductive GasCall
  /-- `transaction_context::add_ram_usage`: the delta, and the account kept for the final check if it grew. -/
  | addRamUsage (account : Name) (ramDelta : Int)
  /-- `consume_gst_usage`, from `gst_usage` for a `newaccount` or a `transfer`. -/
  | consumeGstUsage (account : Name)
  /-- The intrinsic `set_resource_limits2`. -/
  | setResourceLimits2 (account : Name) (bytes : Int)
  /-- The intrinsic `set_gas_limits`; its `int64_t` flag becomes a `bool`. -/
  | setGasLimits (flag : Int)
  /-- `newaccount`: `initialize_account`. -/
  | initializeAccount (account : Name)
  deriving DecidableEq, Repr

/-- One call, with the set `validate_ram_usage` of the transaction. -/
def GasCall.apply : GasCall → GasManager × OrdMap Name Unit → Except GasError (GasManager × OrdMap Name Unit)
  | .addRamUsage account ramDelta, (m, validate) => do
    let m ← m.addPendingRamUsage account ramDelta
    pure (m, if ramDelta > 0 then validate.insert account () else validate)
  | .consumeGstUsage account, (m, validate) => do
    let m ← m.verifyAccountGstUsage account
    pure (m, validate)
  | .setResourceLimits2 account bytes, (m, validate) => do
    Except.assert (bytes ≥ -1) (.wasmExecution "invalid value for gas resource limit expected [-1,INT64_MAX]")
    let (m, _) ← m.setGstLimits account bytes
    pure (m, validate)
  | .setGasLimits flag, (m, validate) => do
    let m ← m.setGasLimits (flag ≠ 0)
    pure (m, validate)
  | .initializeAccount account, (m, validate) => do
    let m ← m.initializeAccount account
    pure (m, validate)

/-- A transaction: its calls, then `finalize`, which checks every account in `validate_ram_usage`. -/
def transaction (calls : List GasCall) (m : GasManager) : Except GasError GasManager := do
  let (m, validate) ← calls.foldlM (fun acc c => c.apply acc) (m, .empty)
  validate.entries.forM fun a => m.verifyAccountRamUsage a.1
  pure m

/-- The tables before any row. -/
def GasManager.init : GasManager := ⟨.init, .init, .init, .init⟩

/-! ## The gas limit `-1` -/

theorem toUint64_minus_one : toUint64 (-1) = 2 ^ 64 - 1 := rfl

/-- For an account that already has a gas row, `set_gst_limits` at `-1` skips the selling check whatever the row
holds and stores `2^64 - 1`, reporting no decrease. -/
theorem setGstLimits_minus_one {m : GasManager} {account : Name} {id : Nat} {g : ResourceGstObject}
    (hg : findGst m.gst.indices true account = some (id, g)) (hb : g.gstBytes < 2 ^ 64) :
    m.setGstLimits account (-1) =
      (liftGas (m.gst.modify resourceGstIndex id fun l => { l with gstBytes := 2 ^ 64 - 1 })).map
        fun gst => ({ m with gst }, false) := by
  have hskip : ¬ g.gstBytes > 2 ^ 64 - 1 := by omega
  have hneg : decide ((-1 : Int) ≥ 0) = false := rfl
  simp only [GasManager.setGstLimits, hg, toUint64_minus_one, pure_bind, hskip, if_false, hneg, Bool.false_and]
  cases liftGas (m.gst.modify resourceGstIndex id fun l => { l with gstBytes := 2 ^ 64 - 1 }) <;> rfl

/-- From the empty tables, a transaction that switches gas on and then sets the gas of `alice` to `-1` succeeds and
leaves `alice`, an ordinary account, with a gas limit above `INT64_MAX` while gas is on. -/
theorem gas_limit_of_minus_one :
    ∃ m, transaction [.setGasLimits 1, .setResourceLimits2 (N "alice") (-1)] GasManager.init = .ok m ∧
      m.isActivation = true ∧
      ∃ id g, findGst m.gst.indices true (N "alice") = some (id, g) ∧ g.owner ≠ systemAccountName ∧
        g.owner ≠ gasAccountName ∧ 2 ^ 63 - 1 < g.gstBytes := by
  obtain ⟨m, hm⟩ : ∃ m, transaction [.setGasLimits 1, .setResourceLimits2 (N "alice") (-1)] GasManager.init = .ok m :=
    ⟨_, rfl⟩
  have hrun : (transaction [.setGasLimits 1, .setResourceLimits2 (N "alice") (-1)] GasManager.init).toOption.map
      (fun m => (m.isActivation, findGst m.gst.indices true (N "alice"))) =
      some (true, some (0, ⟨N "alice", true, 2 ^ 64 - 1, 0⟩)) := by decide
  simp only [hm, Except.toOption, Option.map_some, Option.some.injEq, Prod.mk.injEq] at hrun
  exact ⟨m, hm, hrun.1, 0, _, hrun.2, by decide, by decide, by decide⟩

end Gstio.Chain.ResourceLimits
