import Gstio.Chain.Name

/-!
# Permission levels and authorities: `action.hpp`, `authority.hpp`

An `authority` is a threshold over weighted keys, weighted permission levels of other accounts (`accounts`) and
weighted delays (`waits`). Keys are of any type `Key` with decidable equality (and an order, for `validate`), as
the checker only compares them.

`validate` is the well-formedness test that `newaccount` and `updateauth` apply to every authority they store.
-/

namespace Gstio.Chain

/-- `N(X)`: the name spelled by `X`. -/
def N (s : String) : Name := ⟨stringToName s.toList⟩

/-- `config::owner_name`. -/
def ownerName : Name := N "owner"

/-- `config::active_name`. -/
def activeName : Name := N "active"

/-- `config::gstio_any_name`. -/
def gstioAnyName : Name := N "gstio.any"

/-- `config::gstio_code_name`. -/
def gstioCodeName : Name := N "gstio.code"

/-- The empty name, `name()`. -/
def emptyName : Name := ⟨0⟩

/-- `permission_level`. -/
structure PermissionLevel where
  actor : Name
  permission : Name
  deriving DecidableEq, Repr

/-- `operator<` on `permission_level`: by actor, then by permission. -/
def PermissionLevel.lt (a b : PermissionLevel) : Bool :=
  a.actor.value < b.actor.value || (a.actor.value == b.actor.value && a.permission.value < b.permission.value)

/-- `permission_level_weight`; `weight_type` is `uint16_t`. -/
structure PermissionLevelWeight where
  permission : PermissionLevel
  weight : Nat
  deriving DecidableEq, Repr

/-- `key_weight`. -/
structure KeyWeight (Key : Type) where
  key : Key
  weight : Nat
  deriving DecidableEq, Repr

/-- `wait_weight`. -/
structure WaitWeight where
  waitSec : Nat
  weight : Nat
  deriving DecidableEq, Repr

/-- `authority`; `threshold` is `uint32_t`. -/
structure Authority (Key : Type) where
  threshold : Nat
  keys : List (KeyWeight Key)
  accounts : List PermissionLevelWeight
  waits : List WaitWeight
  deriving DecidableEq, Repr

/-- `fc::seconds(s)` in microseconds. -/
def seconds (s : Nat) : Int := s * 1000000

section Validate

variable {Key : Type} [LT Key] [DecidableRel (α := Key) (· < ·)]

/-- The three loops of `validate` each compare an entry with the one before it (`prev`). -/
def sortedBy {α : Type} (ok : α → α → Bool) : List α → Bool
  | a :: b :: rest => ok a b && sortedBy ok (b :: rest)
  | _ => true

/-- `validate(authority)`: at most `2^16` entries, a positive threshold, keys strictly increasing, accounts
strictly increasing, waits strictly increasing from a positive delay, and enough total weight. The total is
a `uint32_t`. -/
def validate (auth : Authority Key) : Bool :=
  if auth.keys.length + auth.accounts.length + auth.waits.length > 2 ^ 16 then false
  else if auth.threshold = 0 then false
  else if !sortedBy (fun a b => decide (a.key < b.key)) auth.keys then false
  else if !sortedBy (fun a b => a.permission.lt b.permission) auth.accounts then false
  else if (auth.waits.head?.map (·.waitSec == 0)).getD false then false
  else if !sortedBy (fun a b => decide (a.waitSec < b.waitSec)) auth.waits then false
  else
    decide (auth.threshold ≤ (((auth.keys.map (·.weight)).sum + (auth.accounts.map (·.weight)).sum +
      (auth.waits.map (·.weight)).sum) % 2 ^ 32))

end Validate

end Gstio.Chain
