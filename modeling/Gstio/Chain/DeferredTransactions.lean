import Gstio.Chain.ApplyContext

/-!
# Deferred transactions and their RAM

`schedule_deferred_transaction` stores a `generated_transaction_object` and bills its payer for
`billable_size_v<generated_transaction_object>` and the packed transaction; `cancel_deferred_transaction` and the
controller's `remove_scheduled_transaction` give that back. An object of the same sender and `sender_id` is
replaced in place, which production refuses but validation of a block does: the new payer is billed and the old one
is not refunded, and the object keeps the `trx_id` of the transaction it replaced (`replace_keeps_old_charge`).
-/

namespace Gstio.Chain

open Chainbase ResourceLimits

namespace ApplyState

variable (env : ApplyEnv) (s : ApplyState)

/-! ## Deferred transactions -/

/-- `db.find<generated_transaction_object, by_sender_id>`. -/
def findGenerated (sender : Name) (senderId : Nat) : Option (Nat × GeneratedTransactionObject) :=
  s.generated.indices.entries.find? fun o => o.2.sender == sender && o.2.senderId == senderId

/-- The authorization part of `schedule_deferred_transaction`. A failure of `check_authorization` for a
transaction whose actions all go to the receiver is let through, except when producing a block. -/
def checkDeferredAuthorization (payer : Name) (trx : DeferredTransaction) : Except ApplyError Unit := do
  if !env.skipAuthCheck && !env.privileged then
    if payer ≠ env.receiver then requireAuthorization env payer
    match env.checkAuthorization trx with
    | .ok () => pure ()
    | .error e =>
      if !trx.actionAccounts.all (· == env.receiver) then .error e
      else if env.producingBlock then
        .error (.subjectiveBlockProduction
          "Authorization failure with sent deferred transaction consisting only of actions to self")

/-- `schedule_deferred_transaction`. An object of the same sender and `sender_id` is replaced, outside block
production, in place: it keeps its `trx_id`, and its payer is not refunded. -/
def scheduleDeferredTransaction (senderId : Nat) (payer : Name) (trx : DeferredTransaction)
    (replaceExisting : Bool) : Except ApplyError ApplyState := do
  checkDeferredAuthorization env payer trx
  let published := env.pendingBlockTime
  let delayUntil := published + trx.delaySec * 1000000
  let expiration := delayUntil + env.deferredTrxExpirationWindow * 1000000
  let generated ← match s.findGenerated env.receiver senderId with
    | some (id, _) => do
      Except.assert replaceExisting
        (.deferredTxDuplicate "deferred transaction with the same sender_id and payer already exists")
      Except.assert (!env.producingBlock)
        (.subjectiveBlockProduction "Replacing a deferred transaction is temporarily disabled.")
      liftDb (s.generated.modify generatedTransactionIndex id fun gtx =>
        { gtx with sender := env.receiver, senderId, payer, published, delayUntil, expiration, packedTrx := trx.packed })
    | none =>
      liftDb (s.generated.emplace generatedTransactionIndex
        ⟨trx.id, env.receiver, senderId, payer, delayUntil, expiration, published, trx.packed⟩)
  Except.assert (env.ramBillingInNotifyAllowed || env.receiver == env.actAccount || env.receiver == payer ||
      env.privileged) (.subjectiveBlockProduction "Cannot charge RAM to other accounts during notify.")
  { s with generated }.addRamUsage payer (GeneratedTransactionObject.billableSize + trx.packed.length)

/-- `cancel_deferred_transaction`: the payer gets the object's RAM back. -/
def cancelDeferredTransaction (senderId : Nat) (sender : Name) : Except ApplyError (ApplyState × Bool) :=
  match s.findGenerated sender senderId with
  | some (id, gto) => do
    let s ← s.addRamUsage gto.payer (-((GeneratedTransactionObject.billableSize + gto.packedTrx.length : Nat) : Int))
    let generated ← liftDb (s.generated.remove id)
    pure ({ s with generated }, true)
  | none => .ok (s, false)

/-- `controller_impl::remove_scheduled_transaction`, outside any action: straight to the resource manager. -/
def removeScheduledTransaction (id : Nat) : Except ApplyError ApplyState := do
  let gto ← getObject s.generated id
  let rl ← (s.rl.addPendingRamUsage gto.payer
    (-((GeneratedTransactionObject.billableSize + gto.packedTrx.length : Nat) : Int))).mapError .gas
  let generated ← liftDb (s.generated.remove id)
  pure { s with rl, generated }

end ApplyState

/-- The RAM the generated transactions of `payer` hold: their billable size and packed bytes. -/
def generatedRamOf (s : ApplyState) (payer : Name) : Nat :=
  s.generated.indices.sumBy fun _ g =>
    if g.payer = payer then GeneratedTransactionObject.billableSize + g.packedTrx.length else 0

/-- A call that stores or retires a generated transaction. -/
inductive DeferredCall
  | schedule (senderId : Nat) (payer : Name) (trx : DeferredTransaction) (replaceExisting : Bool)
  | cancel (senderId : Nat) (sender : Name)
  /-- By the controller, for the object of that id. -/
  | removeScheduled (id : Nat)
  deriving DecidableEq, Repr

def DeferredCall.apply (env : ApplyEnv) : DeferredCall → ApplyState → Except ApplyError ApplyState
  | .schedule senderId payer trx replaceExisting, s => s.scheduleDeferredTransaction env senderId payer trx replaceExisting
  | .cancel senderId sender, s => Prod.fst <$> s.cancelDeferredTransaction senderId sender
  | .removeScheduled id, s => s.removeScheduledTransaction id

/-- Calls one after the other, up to the first that throws. -/
def runDeferred (calls : List (ApplyEnv × DeferredCall)) (s : ApplyState) : Except ApplyError ApplyState :=
  calls.foldlM (fun s c => c.2.apply c.1 s) s

/-! ## Replacing a deferred transaction -/

/-- Two transactions of 10 and 20 packed bytes. -/
def firstDeferred : DeferredTransaction := ⟨1, [N "alice"], 0, List.replicate 10 0⟩

def secondDeferred : DeferredTransaction := ⟨2, [N "alice"], 0, List.replicate 20 0⟩

/-- `alice` schedules `firstDeferred` under `sender_id` 1 paid by herself, then replaces it by `secondDeferred`
paid by `bob`. -/
def replaceCalls : List (ApplyEnv × DeferredCall) :=
  [(validatingEnv, .schedule 1 (N "alice") firstDeferred false), (validatingEnv, .schedule 1 (N "bob") secondDeferred true)]

/-- After the replacement `alice` is still billed 272 + 10 bytes although no generated transaction is paid by her,
and the object of `(alice, 1)` holds the packed `secondDeferred` under the id of `firstDeferred`. -/
theorem replace_keeps_old_charge :
    ∃ s₀ s, twoAccounts = .ok s₀ ∧ runDeferred replaceCalls s₀ = .ok s ∧
      (getUsage s.rl.usage.indices (N "alice")).toOption.map (·.2.ramUsage) = some 282 ∧
      generatedRamOf s (N "alice") = 0 ∧
      ∃ id g, s.findGenerated (N "alice") 1 = some (id, g) ∧ g.payer = N "bob" ∧ g.packedTrx = secondDeferred.packed ∧
        g.trxId = firstDeferred.id ∧ g.trxId ≠ secondDeferred.id := by
  obtain ⟨s₀, s, h₀, hs⟩ : ∃ s₀ s, twoAccounts = .ok s₀ ∧ runDeferred replaceCalls s₀ = .ok s := ⟨_, _, rfl, rfl⟩
  have hrun : ((twoAccounts >>= runDeferred replaceCalls).toOption.map fun s =>
      ((getUsage s.rl.usage.indices (N "alice")).toOption.map (·.2.ramUsage), generatedRamOf s (N "alice"),
        s.findGenerated (N "alice") 1)) =
      some (some 282, 0, some (0, ⟨1, N "alice", 1, N "bob", 0, 600000000, 0, secondDeferred.packed⟩)) := by
    decide
  rw [h₀] at hrun
  simp only [bind, Except.bind, hs, Except.toOption, Option.map_some, Option.some.injEq, Prod.mk.injEq] at hrun
  obtain ⟨husage, hgen, hfind⟩ := hrun
  exact ⟨s₀, s, h₀, hs, husage, hgen, 0, _, hfind, rfl, rfl, rfl, by decide⟩

end Gstio.Chain
