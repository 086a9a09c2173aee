import Gstio.Chain.AuthorizationManager
import Gstio.Lib.Rollback

/-!
# The native authority actions: `gstio_contract.cpp`

`newaccount`, `updateauth`, `deleteauth`, `linkauth` and `unlinkauth`, each with its checks in the source's
order and its exception texts (`ContractError`). A handler reads the action's declared authorizations and the
chain's `max_transaction_delay` from its `apply_context` (`ApplyContext`), and the key blacklist it checks the keys of
an authority against while a block is produced.

A handler that throws leaves its tables half updated; the transaction's undo session takes them back. So a chain
of actions runs with `Rollback.run`, each action on the state the last returning one left (`AuthAction.apply`).
-/

namespace Gstio.Chain

open Chainbase

/-- What a handler reads of its `apply_context`: the action's declared authorizations and
`max_transaction_delay`; and, for the key blacklist, the transaction's `enforce_whiteblacklist`, whether the
controller is producing a block (`is_producing_block`) and the controller's `key_blacklist`. -/
structure ApplyContext (Key : Type) where
  authorization : List PermissionLevel
  maxTransactionDelay : Nat
  enforceWhiteblacklist : Bool
  producingBlock : Bool
  keyBlacklist : List Key
  deriving DecidableEq, Repr

/-- `apply_context::require_authorization(account)`. -/
def ApplyContext.requireAuthorization {Key : Type} (ctx : ApplyContext Key) (account : Name) :
    Except (ContractError Key) Unit :=
  gstAssert (ctx.authorization.any fun a => a.actor == account) (.missingAuth account)

/-- `newaccount`. -/
structure Newaccount (Key : Type) where
  creator : Name
  name : Name
  owner : Authority Key
  active : Authority Key
  deriving DecidableEq, Repr

/-- `updateauth`. -/
structure Updateauth (Key : Type) where
  account : Name
  permission : Name
  parent : Name
  auth : Authority Key
  deriving DecidableEq, Repr

/-- `deleteauth`. -/
structure Deleteauth where
  account : Name
  permission : Name
  deriving DecidableEq, Repr

/-- `linkauth`. -/
structure Linkauth where
  account : Name
  code : Name
  type : Name
  requirement : Name
  deriving DecidableEq, Repr

/-- `unlinkauth`. -/
structure Unlinkauth where
  account : Name
  code : Name
  type : Name
  deriving DecidableEq, Repr

/-- `name.to_string().find("gstio.") == 0`. -/
def startsWithGstio (n : Name) : Bool := "gstio.".toList.isPrefixOf n.toString

variable {Key : Type}

/-- The loop of `validate_authority_precondition` over `auth.accounts`: every account an authority names exists,
and so does every permission it names other than `owner`, `active` and the virtual `gstio.code`. Only
`permission_query_exception` is caught. -/
def validateAuthorityPreconditionLoop (s : AuthState Key) : List PermissionLevelWeight → Except (ContractError Key) Unit
  | [] => pure ()
  | a :: rest => do
    gstAssert (findAccount s a.permission.actor).isSome (.accountDoesNotExist a.permission.actor)
    if a.permission.permission == ownerName || a.permission.permission == activeName then pure ()
    else if a.permission.permission == gstioCodeName then pure ()
    else
      match getPermission s a.permission with
      | .ok _ => pure ()
      | .error (.permissionQuery _) => throw (.permissionDoesNotExist a.permission)
      | .error e => throw e
    validateAuthorityPreconditionLoop s rest

/-- The `parent_id` of `updateauth`: `0` for `owner`, else the id of the account's permission named `parent`. -/
def updateauthParentId (s : AuthState Key) (update : Updateauth Key) : Except (ContractError Key) Nat :=
  if update.permission == ownerName then pure 0
  else do
    let parent ← getPermission s ⟨update.account, update.parent⟩
    pure parent.1

theorem updateauthParentId_eq_ok {s : AuthState Key} {update : Updateauth Key} {parentId : Nat}
    (h : updateauthParentId s update = .ok parentId) :
    update.permission = ownerName ∧ parentId = 0 ∨
      update.permission ≠ ownerName ∧ ∃ p, getPermission s ⟨update.account, update.parent⟩ = .ok (parentId, p) := by
  unfold updateauthParentId at h
  by_cases ho : update.permission = ownerName
  · simp only [ho, beq_self_eq_true, if_true, pure, Except.pure, Except.ok.injEq] at h
    exact .inl ⟨ho, h.symm⟩
  · simp only [ho, beq_iff_eq, if_false, bind, Except.bind_eq_ok, pure, Except.pure, Except.ok.injEq] at h
    obtain ⟨⟨id, p⟩, hget, rfl⟩ := h
    exact .inr ⟨ho, p, hget⟩

section Actions

variable [LT Key] [DecidableRel (α := Key) (· < ·)]

/-- `controller::check_key_list`: with a non-empty `key_blacklist`, a key it holds is refused. The blacklist is a
`flat_set`, whose `find` finds an element neither less nor greater than `key`. -/
def checkKeyList (keyBlacklist : List Key) (key : Key) : Except (ContractError Key) Unit :=
  if keyBlacklist.length > 0 then
    gstAssert (!keyBlacklist.any fun k => !decide (k < key) && !decide (key < k)) (.keyBlacklisted key)
  else pure ()

/-- `validate_authority_precondition`: the accounts of `auth`, then, when the transaction enforces the white and
black lists and a block is being produced, each of its keys against the key blacklist. -/
def validateAuthorityPrecondition (ctx : ApplyContext Key) (s : AuthState Key) (auth : Authority Key) :
    Except (ContractError Key) Unit := do
  validateAuthorityPreconditionLoop s auth.accounts
  if ctx.enforceWhiteblacklist && ctx.producingBlock then
    auth.keys.forM fun p => checkKeyList ctx.keyBlacklist p.key

/-- The precondition holds when the accounts of the authority pass and, while the lists are enforced in a block being
produced, each of its keys passes `check_key_list`. -/
theorem validateAuthorityPrecondition_eq_ok {ctx : ApplyContext Key} {s : AuthState Key} {auth : Authority Key}
    {u : Unit} : validateAuthorityPrecondition ctx s auth = .ok u ↔
      validateAuthorityPreconditionLoop s auth.accounts = .ok () ∧
        ((ctx.enforceWhiteblacklist && ctx.producingBlock) = true →
          ∀ p ∈ auth.keys, checkKeyList ctx.keyBlacklist p.key = .ok ()) := by
  unfold validateAuthorityPrecondition
  cases u
  cases hloop : validateAuthorityPreconditionLoop s auth.accounts with
  | error e => simp [bind, Except.bind]
  | ok v =>
    rw [Except.ok_bind]
    -- the keys are read only while the lists are enforced in a block being produced
    cases hk : ctx.enforceWhiteblacklist && ctx.producingBlock
    · simp [pure, Except.pure]
    · simp only [if_true, Except.forM_eq_ok, true_and, forall_const]

/-- `apply_gstio_newaccount`. -/
def applyGstioNewaccount (ctx : ApplyContext Key) (create : Newaccount Key) (s : AuthState Key) :
    Except (ContractError Key) (AuthState Key) := do
  ctx.requireAuthorization create.creator
  gstAssert (validate create.owner) .invalidOwnerAuthority
  gstAssert (validate create.active) .invalidActiveAuthority
  gstAssert (!create.name.empty) .emptyAccountName
  gstAssert (decide (create.name.toString.length ≤ 12)) .accountNameTooLong
  let creator ← getAccount s create.creator
  gstAssert (creator.privileged || !startsWithGstio create.name) .reservedAccountName
  gstAssert (findAccount s create.name).isNone (.accountNameExists create.name)
  let accounts ← liftIndex (s.accounts.emplace accountIndex ⟨create.name, false⟩)
  let s := { s with accounts }
  validateAuthorityPrecondition ctx s create.owner
  validateAuthorityPrecondition ctx s create.active
  let (s, ownerId) ← createPermission s create.name ownerName 0 create.owner
  let (s, _) ← createPermission s create.name activeName ownerId create.active
  pure s

theorem applyGstioNewaccount_eq_ok {ctx : ApplyContext Key} {create : Newaccount Key} {s s' : AuthState Key}
    (h : applyGstioNewaccount ctx create s = .ok s') :
    create.name ≠ emptyName ∧ ∃ s₀ s₁ ownerId activeId, s₀.permissions = s.permissions ∧
      createPermission s₀ create.name ownerName 0 create.owner = .ok (s₁, ownerId) ∧
      createPermission s₁ create.name activeName ownerId create.active = .ok (s', activeId) := by
  simp only [applyGstioNewaccount, bind, Except.bind_eq_ok, gstAssert_eq_ok, Bool.not_eq_true',
    Name.empty_eq_false_iff, pure, Except.pure, Except.ok.injEq, exists_const] at h
  obtain ⟨-, -, -, -, hname, -, -, -, -, -, accounts, -, -, -, -, -, ⟨s₁, ownerId⟩, h₁, ⟨s₂, activeId⟩, h₂, rfl⟩ := h
  exact ⟨hname, ⟨accounts, s.permissions, s.links⟩, s₁, ownerId, activeId, rfl, h₁, h₂⟩

/-- `apply_gstio_updateauth`: an existing permission gets the new authority under the same parent, a new one is
created under the account's permission named `parent` (under `0` for `owner`). -/
def applyGstioUpdateauth (ctx : ApplyContext Key) (update : Updateauth Key) (s : AuthState Key) :
    Except (ContractError Key) (AuthState Key) := do
  ctx.requireAuthorization update.account
  gstAssert (!update.permission.empty) .emptyAuthorityName
  gstAssert (!startsWithGstio update.permission) .reservedPermissionName
  gstAssert (update.permission != update.parent) .ownParent
  let _ ← getAccount s update.account
  gstAssert (validate update.auth) .invalidAuthority
  gstAssert (update.permission != activeName || update.parent == ownerName) .activeParentNotOwner
  gstAssert (update.permission != ownerName || update.parent.empty) .ownerParentNotEmpty
  gstAssert (update.permission == ownerName || !update.parent.empty) .emptyParent
  gstAssert ((update.auth.waits.getLast?.map fun w => decide (w.waitSec ≤ ctx.maxTransactionDelay)).getD true)
    (.delayTooLong ctx.maxTransactionDelay)
  validateAuthorityPrecondition ctx s update.auth
  let permission ← findPermission s ⟨update.account, update.permission⟩
  let parentId ← updateauthParentId s update
  match permission with
  | some (id, po) =>
    gstAssert (parentId == po.parent) .changingParent
    modifyPermission s id update.auth
  | none =>
    let (s, _) ← createPermission s update.account update.permission parentId update.auth
    pure s

theorem applyGstioUpdateauth_eq_ok {ctx : ApplyContext Key} {update : Updateauth Key} {s s' : AuthState Key}
    (h : applyGstioUpdateauth ctx update s = .ok s') :
    (update.permission = activeName → update.parent = ownerName) ∧ ∃ parentId,
      updateauthParentId s update = .ok parentId ∧
      ((∃ id po, findByOwner s.permissions.indices update.account update.permission = some (id, po) ∧
          modifyPermission s id update.auth = .ok s') ∨
        (findByOwner s.permissions.indices update.account update.permission = none ∧ update.account ≠ emptyName ∧
          ∃ id, createPermission s update.account update.permission parentId update.auth = .ok (s', id))) := by
  simp only [applyGstioUpdateauth, bind, Except.bind_eq_ok, gstAssert_eq_ok, pure, Except.pure, exists_const] at h
  obtain ⟨-, -, -, -, -, -, -, -, hactive, -, -, -, -, -, permission, hfind, parentId, hparent, h⟩ := h
  obtain ⟨hacct, -, rfl⟩ := findPermission_eq_ok hfind
  refine ⟨fun ha => by simpa [ha] using hactive, parentId, hparent, ?_⟩
  cases hp : findByOwner s.permissions.indices update.account update.permission with
  | some e =>
    obtain ⟨id, po⟩ := e
    simp only [hp, Except.bind_eq_ok, gstAssert_eq_ok, exists_const] at h
    exact .inl ⟨id, po, rfl, h.2⟩
  | none =>
    simp only [hp, Except.bind_eq_ok, Except.ok.injEq] at h
    obtain ⟨⟨s₁, id⟩, hc, rfl⟩ := h
    exact .inr ⟨rfl, hacct, id, hc⟩

end Actions

/-- Under a linear order the blacklist's equivalence is equality: `check_key_list` refuses exactly the keys the
blacklist holds. -/
theorem checkKeyList_eq_ok_iff [LinearOrder Key] {keyBlacklist : List Key} {key : Key} {u : Unit} :
    checkKeyList keyBlacklist key = .ok u ↔ key ∉ keyBlacklist := by
  unfold checkKeyList
  split
  · simp only [gstAssert_eq_ok, Bool.not_eq_true', List.any_eq_false, Bool.and_eq_true, Bool.not_eq_true',
      decide_eq_false_iff_not, not_lt, not_and]
    constructor
    · intro h hk
      exact h key hk le_rfl le_rfl
    · intro h k hk hle hge
      exact h (le_antisymm hge hle ▸ hk)
  · -- an empty blacklist is not searched
    rename_i h
    simp only [gt_iff_lt, List.length_pos_iff, ne_eq, not_not] at h
    subst h
    simp [pure, Except.pure]

/-- `(code, message_type)` of `a` comes before that of `b`. -/
def linkBefore (a b : PermissionLinkObject) : Bool :=
  a.code.value < b.code.value || (a.code.value == b.code.value && a.messageType.value < b.messageType.value)

/-- The first link of `account` to `permission` in `by_permission_name` order, the `range.first` of
`deleteauth`. -/
def firstLinkTo (L : OrdMap Nat PermissionLinkObject) (account permission : Name) : Option PermissionLinkObject :=
  ((L.entries.map (·.2)).filter fun l => l.account == account && l.requiredPermission == permission).foldl
    (fun first l =>
      match first with
      | none => some l
      | some m => if linkBefore l m then some l else some m) none

/-- The check of `deleteauth` for links to the permission. -/
def checkUnlinked (L : OrdMap Nat PermissionLinkObject) (account permission : Name) : Except (ContractError Key) Unit :=
  match firstLinkTo L account permission with
  | some l => .error (.deleteLinked l.code l.messageType)
  | none => .ok ()

/-- `apply_gstio_deleteauth`: a linked permission stays, and `remove_permission` keeps a parent. -/
def applyGstioDeleteauth (ctx : ApplyContext Key) (remove : Deleteauth) (s : AuthState Key) :
    Except (ContractError Key) (AuthState Key) := do
  ctx.requireAuthorization remove.account
  gstAssert (remove.permission != activeName) .deleteActive
  gstAssert (remove.permission != ownerName) .deleteOwner
  checkUnlinked s.links.indices remove.account remove.permission
  let permission ← getPermission s ⟨remove.account, remove.permission⟩
  removePermission s permission.1

theorem applyGstioDeleteauth_eq_ok {ctx : ApplyContext Key} {remove : Deleteauth} {s s' : AuthState Key}
    (h : applyGstioDeleteauth ctx remove s = .ok s') :
    ∃ id p, getPermission s ⟨remove.account, remove.permission⟩ = .ok (id, p) ∧ removePermission s id = .ok s' := by
  simp only [applyGstioDeleteauth, bind, Except.bind_eq_ok, gstAssert_eq_ok, exists_const] at h
  obtain ⟨-, -, -, -, -, -, ⟨id, p⟩, hget, hrem⟩ := h
  exact ⟨id, p, hget, hrem⟩

/-- `db.find<permission_object, by_name>`: a permission of that name, of any account. -/
def findByName (P : OrdMap Nat (PermissionObject Key)) (name : Name) : Option (Nat × PermissionObject Key) :=
  P.entries.find? fun o => o.2.name == name

/-- `apply_gstio_linkauth`: the requirement is looked up by name alone, over every account's permissions. -/
def applyGstioLinkauth (ctx : ApplyContext Key) (requirement : Linkauth) (s : AuthState Key) :
    Except (ContractError Key) (AuthState Key) := do
  gstAssert (!requirement.requirement.empty) .emptyRequirement
  ctx.requireAuthorization requirement.account
  gstAssert (findAccount s requirement.account).isSome (.accountQuery requirement.account)
  gstAssert (findAccount s requirement.code).isSome (.codeQuery requirement.code)
  gstAssert (requirement.requirement == gstioAnyName ||
      (findByName s.permissions.indices requirement.requirement).isSome)
    (.requirementQuery requirement.requirement)
  match findLink s.links.indices requirement.account requirement.code requirement.type with
  | some (id, link) =>
    gstAssert (link.requiredPermission != requirement.requirement) .sameRequirement
    let links ← liftIndex (s.links.modify permissionLinkIndex id fun l =>
      { l with requiredPermission := requirement.requirement })
    pure { s with links }
  | none =>
    let links ← liftIndex (s.links.emplace permissionLinkIndex
      ⟨requirement.account, requirement.code, requirement.type, requirement.requirement⟩)
    pure { s with links }

theorem applyGstioLinkauth_permissions {ctx : ApplyContext Key} {requirement : Linkauth} {s s' : AuthState Key}
    (h : applyGstioLinkauth ctx requirement s = .ok s') : s'.permissions = s.permissions := by
  simp only [applyGstioLinkauth, bind, Except.bind_eq_ok, gstAssert_eq_ok, exists_const] at h
  obtain ⟨-, -, -, -, -, -, h⟩ := h
  split at h
  · simp only [Except.bind_eq_ok, gstAssert_eq_ok, pure, Except.pure, Except.ok.injEq, exists_const] at h
    obtain ⟨-, -, -, rfl⟩ := h
    rfl
  · simp only [Except.bind_eq_ok, pure, Except.pure, Except.ok.injEq] at h
    obtain ⟨-, -, rfl⟩ := h
    rfl

/-- An authority of one key of weight `1`. -/
def singleKeyAuthority (key : Nat) : Authority Nat := ⟨1, [⟨key, 1⟩], [], []⟩

/-- `gstio` creates `alice`; `alice` links `gstio::transfer` to `prod.major`, a permission only `gstio.prods`
has. Both actions return; the link stands, `alice` has no `prod.major`, `lookup_minimum_permission` names it,
and `get_permission` cannot find it. -/
theorem linkauth_links_foreign_permission :
    ((initializeDatabase 1 >>= applyGstioNewaccount ⟨[⟨systemAccountName, activeName⟩], 0, false, false, []⟩
        ⟨systemAccountName, N "alice", singleKeyAuthority 2, singleKeyAuthority 2⟩) >>=
      applyGstioLinkauth ⟨[⟨N "alice", activeName⟩], 0, false, false, []⟩
        ⟨N "alice", systemAccountName, N "transfer", majorityProducersPermissionName⟩).toOption.any
      (fun s => (findLink s.links.indices (N "alice") systemAccountName (N "transfer")).map (·.2.requiredPermission) ==
          some majorityProducersPermissionName &&
        (findByOwner s.permissions.indices (N "alice") majorityProducersPermissionName).isNone &&
        (lookupMinimumPermission s (N "alice") systemAccountName (N "transfer")).toOption ==
          some (some majorityProducersPermissionName) &&
        (getPermission s ⟨N "alice", majorityProducersPermissionName⟩).toOption.isNone) = true := by
  decide

/-- `apply_gstio_unlinkauth`. -/
def applyGstioUnlinkauth (ctx : ApplyContext Key) (unlink : Unlinkauth) (s : AuthState Key) :
    Except (ContractError Key) (AuthState Key) := do
  ctx.requireAuthorization unlink.account
  match findLink s.links.indices unlink.account unlink.code unlink.type with
  | none => throw .noLink
  | some (id, _) =>
    let links ← liftIndex (s.links.remove id)
    pure { s with links }

theorem applyGstioUnlinkauth_permissions {ctx : ApplyContext Key} {unlink : Unlinkauth} {s s' : AuthState Key}
    (h : applyGstioUnlinkauth ctx unlink s = .ok s') : s'.permissions = s.permissions := by
  simp only [applyGstioUnlinkauth, bind, Except.bind_eq_ok] at h
  obtain ⟨-, -, h⟩ := h
  split at h
  · simp [throw, throwThe, MonadExceptOf.throw] at h
  · simp only [Except.bind_eq_ok, pure, Except.pure, Except.ok.injEq] at h
    obtain ⟨-, -, rfl⟩ := h
    rfl

/-- The native authority actions, each with the context it runs in. -/
inductive AuthAction (Key : Type)
  | newaccount (ctx : ApplyContext Key) (create : Newaccount Key)
  | updateauth (ctx : ApplyContext Key) (update : Updateauth Key)
  | deleteauth (ctx : ApplyContext Key) (remove : Deleteauth)
  | linkauth (ctx : ApplyContext Key) (requirement : Linkauth)
  | unlinkauth (ctx : ApplyContext Key) (unlink : Unlinkauth)

/-- Dispatch an action to its handler. -/
def AuthAction.apply [LT Key] [DecidableRel (α := Key) (· < ·)] :
    AuthAction Key → AuthState Key → Except (ContractError Key) (AuthState Key)
  | .newaccount ctx create => applyGstioNewaccount ctx create
  | .updateauth ctx update => applyGstioUpdateauth ctx update
  | .deleteauth ctx remove => applyGstioDeleteauth ctx remove
  | .linkauth ctx requirement => applyGstioLinkauth ctx requirement
  | .unlinkauth ctx unlink => applyGstioUnlinkauth ctx unlink

end Gstio.Chain
