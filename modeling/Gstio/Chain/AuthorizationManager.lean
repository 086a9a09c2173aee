import Gstio.Chainbase.UndoStack
import Gstio.Chain.Authority
import Gstio.Lib.Rollback

/-!
# The authority tables: `authorization_manager`

Accounts and their authorities live in three `chainbase` tables: `account_object` (unique by name),
`permission_object` (unique by `(parent, id)`, by `(owner, name)` and by `(name, id)`) and
`permission_link_object` (unique by `(account, code, message_type)` and by
`(account, required_permission, code, message_type)`). Each is a `GenericIndex` whose unique secondary indices
are key functions.

Over them: `create_permission`, `modify_permission`, `remove_permission`, `find_permission`, `get_permission`,
`lookup_linked_permission`, `lookup_minimum_permission`, `permission_object::satisfies`, and the part of
`controller::initialize_database` that builds these tables: the reserved permission `0` and the native accounts.
-/

namespace Gstio.Chain

open Chainbase

/-- `config::system_account_name`. -/
def systemAccountName : Name := N "gstio"

/-- `config::null_account_name`. -/
def nullAccountName : Name := N "gstio.null"

/-- `config::producers_account_name`. -/
def producersAccountName : Name := N "gstio.prods"

/-- `config::majority_producers_permission_name`. -/
def majorityProducersPermissionName : Name := N "prod.major"

/-- `config::minority_producers_permission_name`. -/
def minorityProducersPermissionName : Name := N "prod.minor"

/-- `account_object`: the fields the authority actions read. -/
structure AccountObject where
  name : Name
  privileged : Bool
  deriving DecidableEq, Repr

/-- `permission_object`, without its usage id and its time stamp. -/
structure PermissionObject (Key : Type) where
  parent : Nat
  owner : Name
  name : Name
  auth : Authority Key
  deriving DecidableEq, Repr

/-- `permission_link_object`. -/
structure PermissionLinkObject where
  account : Name
  code : Name
  messageType : Name
  requiredPermission : Name
  deriving DecidableEq, Repr

/-- The unique secondary keys of `permission_index`. -/
inductive PermissionKey
  | byParent (parent id : Nat)
  | byOwner (owner name : Name)
  | byName (name : Name) (id : Nat)
  deriving DecidableEq

/-- The unique secondary keys of `permission_link_index`. -/
inductive LinkKey
  | byActionName (account code messageType : Name)
  | byPermissionName (account requiredPermission code messageType : Name)
  deriving DecidableEq

/-- `account_index`: by name. -/
def accountIndex : List (Nat × AccountObject → Name) := [fun o => o.2.name]

/-- `permission_index`: by `(parent, id)`, by `(owner, name)`, by `(name, id)`. -/
def permissionIndex {Key : Type} : List (Nat × PermissionObject Key → PermissionKey) :=
  [fun o => .byParent o.2.parent o.1, fun o => .byOwner o.2.owner o.2.name, fun o => .byName o.2.name o.1]

/-- `permission_link_index`. -/
def permissionLinkIndex : List (Nat × PermissionLinkObject → LinkKey) :=
  [fun o => .byActionName o.2.account o.2.code o.2.messageType,
    fun o => .byPermissionName o.2.account o.2.requiredPermission o.2.code o.2.messageType]

/-- The tables the authority actions read and write. -/
structure AuthState (Key : Type) where
  accounts : GenericIndex AccountObject
  permissions : GenericIndex (PermissionObject Key)
  links : GenericIndex PermissionLinkObject
  deriving DecidableEq

/-- The exceptions of the authority code, with their texts. -/
inductive ContractError (Key : Type)
  /-- `missing_auth_exception`: `"missing authority of ${account}"` -/
  | missingAuth (account : Name)
  /-- `"Invalid owner authority"` -/
  | invalidOwnerAuthority
  /-- `"Invalid active authority"` -/
  | invalidActiveAuthority
  /-- `"account name cannot be empty"` -/
  | emptyAccountName
  /-- `"account names can only be 12 chars long"` -/
  | accountNameTooLong
  /-- `"only privileged accounts can have names that start with 'gstio.'"` -/
  | reservedAccountName
  /-- `account_name_exists_exception`: `"Cannot create account named ${name}, as that name is already taken"` -/
  | accountNameExists (name : Name)
  /-- `"account '${account}' does not exist"` -/
  | accountDoesNotExist (account : Name)
  /-- `"permission '${perm}' does not exist"` -/
  | permissionDoesNotExist (perm : PermissionLevel)
  /-- `"Cannot create authority with empty name"` -/
  | emptyAuthorityName
  /-- `"Permission names that start with 'gstio.' are reserved"` -/
  | reservedPermissionName
  /-- `"Cannot set an authority as its own parent"` -/
  | ownParent
  /-- `"Invalid authority: ${auth}"` -/
  | invalidAuthority
  /-- `"Cannot change active authority's parent from owner"` -/
  | activeParentNotOwner
  /-- `"Cannot change owner authority's parent"` -/
  | ownerParentNotEmpty
  /-- `"Only owner permission can have empty parent"` -/
  | emptyParent
  /-- `"Cannot set delay longer than max_transacton_delay, which is ${max_delay} seconds"` -/
  | delayTooLong (maxDelay : Nat)
  /-- `invalid_permission`: `"Invalid permission"` -/
  | invalidPermission
  /-- `permission_query_exception`: `"Failed to retrieve permission: ${level}"` -/
  | permissionQuery (level : PermissionLevel)
  /-- `"Changing parent authority is not currently supported"` -/
  | changingParent
  /-- `"Cannot delete active authority"` -/
  | deleteActive
  /-- `"Cannot delete owner authority"` -/
  | deleteOwner
  /-- `"Cannot delete a linked authority. Unlink the authority first. This authority is linked to
  ${code}::${type}."` -/
  | deleteLinked (code type : Name)
  /-- `"Cannot remove a permission which has children. Remove the children first."` -/
  | hasChildren
  /-- `"Required permission cannot be empty"` -/
  | emptyRequirement
  /-- `account_query_exception`: `"Failed to retrieve account: ${account}"` -/
  | accountQuery (account : Name)
  /-- `account_query_exception`: `"Failed to retrieve code for account: ${account}"` -/
  | codeQuery (account : Name)
  /-- `permission_query_exception`: `"Failed to retrieve permission: ${permission}"` -/
  | requirementQuery (permission : Name)
  /-- `"Attempting to update required authority, but new requirement is same as old"` -/
  | sameRequirement
  /-- `"Attempting to unlink authority, but no link found"` -/
  | noLink
  /-- `unlinkable_min_permission_action`: `"cannot call lookup_minimum_permission on native actions that are not
  allowed to be linked to minimum permissions"` -/
  | unlinkableMinPermissionAction
  /-- `key_blacklist_exception`: `"public key '${key}' is on the key blacklist"` -/
  | keyBlacklisted (key : Key)
  /-- An exception of a table. -/
  | index (e : IndexError)
  deriving DecidableEq, Repr

variable {Key : Type}

/-- `GST_ASSERT(cond, ..., msg)`. -/
def gstAssert (cond : Bool) (e : ContractError Key) : Except (ContractError Key) Unit :=
  if cond then .ok () else .error e

/-- A table call, throwing its exception. -/
def liftIndex {V : Type} (r : GenericIndex V × Option IndexError) : Except (ContractError Key) (GenericIndex V) :=
  match r.2 with
  | none => .ok r.1
  | some e => .error (.index e)

@[simp] theorem gstAssert_eq_ok {c : Bool} {e : ContractError Key} {u : Unit} : gstAssert c e = .ok u ↔ c = true := by
  cases c <;> simp [gstAssert]

theorem liftIndex_eq_ok {V : Type} {r : GenericIndex V × Option IndexError} {s : GenericIndex V} :
    @liftIndex Key V r = .ok s ↔ r.2 = none ∧ r.1 = s := by
  unfold liftIndex
  split <;> simp_all

theorem Name.empty_eq_false_iff {n : Name} : n.empty = false ↔ n ≠ emptyName := by
  obtain ⟨v⟩ := n
  simp [Name.empty, emptyName]

/-! ## Lookups -/

/-- `db.find<account_object, by_name>`. -/
def findAccount (s : AuthState Key) (name : Name) : Option AccountObject :=
  (s.accounts.indices.entries.find? fun o => o.2.name == name).map (·.2)

/-- `db.get<account_object, by_name>`. -/
def getAccount (s : AuthState Key) (name : Name) : Except (ContractError Key) AccountObject :=
  match findAccount s name with
  | some a => .ok a
  | none => .error (.index .keyNotFound)

/-- `_db.find<permission_object, by_owner>`. -/
def findByOwner (P : OrdMap Nat (PermissionObject Key)) (owner name : Name) : Option (Nat × PermissionObject Key) :=
  P.entries.find? fun o => o.2.owner == owner && o.2.name == name

theorem findByOwner_eq_some {P : OrdMap Nat (PermissionObject Key)} {owner name : Name} {id : Nat}
    {p : PermissionObject Key} (h : findByOwner P owner name = some (id, p)) :
    P.find? id = some p ∧ p.owner = owner ∧ p.name = name := by
  have hp := List.find?_some h
  simp only [Bool.and_eq_true, beq_iff_eq] at hp
  exact ⟨(P.mem_entries_iff id p).mp (List.mem_of_find?_eq_some h), hp⟩

/-- `find_permission`. -/
def findPermission (s : AuthState Key) (level : PermissionLevel) :
    Except (ContractError Key) (Option (Nat × PermissionObject Key)) := do
  gstAssert (!level.actor.empty && !level.permission.empty) .invalidPermission
  pure (findByOwner s.permissions.indices level.actor level.permission)

theorem findPermission_eq_ok {s : AuthState Key} {level : PermissionLevel} {r : Option (Nat × PermissionObject Key)}
    (h : findPermission s level = .ok r) :
    level.actor ≠ emptyName ∧ level.permission ≠ emptyName ∧
      r = findByOwner s.permissions.indices level.actor level.permission := by
  simp only [findPermission, bind, Except.bind_eq_ok, gstAssert_eq_ok, Bool.and_eq_true, Bool.not_eq_true',
    Name.empty_eq_false_iff, pure, Except.pure, Except.ok.injEq] at h
  obtain ⟨_, ⟨h1, h2⟩, rfl⟩ := h
  exact ⟨h1, h2, rfl⟩

/-- `get_permission`: a missing permission is the `std::out_of_range` of `get`, rethrown as
`permission_query_exception`. -/
def getPermission (s : AuthState Key) (level : PermissionLevel) : Except (ContractError Key) (Nat × PermissionObject Key) := do
  match ← findPermission s level with
  | some p => pure p
  | none => throw (.permissionQuery level)

theorem getPermission_eq_ok {s : AuthState Key} {level : PermissionLevel} {id : Nat} {p : PermissionObject Key}
    (h : getPermission s level = .ok (id, p)) :
    level.actor ≠ emptyName ∧ s.permissions.indices.find? id = some p ∧ p.owner = level.actor ∧
      p.name = level.permission := by
  simp only [getPermission, bind, Except.bind_eq_ok] at h
  obtain ⟨r, hr, h⟩ := h
  obtain ⟨ha, -, rfl⟩ := findPermission_eq_ok hr
  cases hf : findByOwner s.permissions.indices level.actor level.permission with
  | none => simp [hf, throw, throwThe, MonadExceptOf.throw] at h
  | some q =>
    simp only [hf, pure, Except.pure, Except.ok.injEq] at h
    subst h
    exact ⟨ha, findByOwner_eq_some hf⟩

/-- `_db.find<permission_link_object, by_action_name>`. -/
def findLink (L : OrdMap Nat PermissionLinkObject) (account code messageType : Name) :
    Option (Nat × PermissionLinkObject) :=
  L.entries.find? fun o => o.2.account == account && o.2.code == code && o.2.messageType == messageType

/-- `lookup_linked_permission`: the link of the action, else the link of the whole contract (an empty
`message_type`). -/
def lookupLinkedPermission (s : AuthState Key) (authorizerAccount scope actName : Name) : Option Name :=
  match findLink s.links.indices authorizerAccount scope actName with
  | some l => some l.2.requiredPermission
  | none => (findLink s.links.indices authorizerAccount scope emptyName).map (·.2.requiredPermission)

/-- `lookup_minimum_permission`: `active` without a link, nothing for a link to `gstio.any`. -/
def lookupMinimumPermission (s : AuthState Key) (authorizerAccount scope actName : Name) :
    Except (ContractError Key) (Option Name) := do
  if scope == systemAccountName then
    gstAssert (!([N "updateauth", N "deleteauth", N "linkauth", N "unlinkauth", N "canceldelay"].contains actName))
      .unlinkableMinPermissionAction
  match lookupLinkedPermission s authorizerAccount scope actName with
  | none => pure (some activeName)
  | some p => if p == gstioAnyName then pure none else pure (some p)

/-! ## Updates -/

/-- `create_permission`: the new permission takes the next id, which is returned. -/
def createPermission (s : AuthState Key) (account name : Name) (parent : Nat) (auth : Authority Key) :
    Except (ContractError Key) (AuthState Key × Nat) := do
  let permissions ← liftIndex (s.permissions.emplace permissionIndex ⟨parent, account, name, auth⟩)
  pure ({ s with permissions }, s.permissions.nextId)

theorem createPermission_eq_ok {s s' : AuthState Key} {account name : Name} {parent : Nat} {auth : Authority Key}
    {id : Nat} (h : createPermission s account name parent auth = .ok (s', id)) :
    id = s.permissions.nextId ∧ s.permissions.indices.find? id = none ∧
      s'.permissions.indices = s.permissions.indices.insert id ⟨parent, account, name, auth⟩ ∧
      s'.permissions.nextId = id + 1 := by
  simp only [createPermission, bind, Except.bind_eq_ok, liftIndex_eq_ok, pure, Except.pure, Except.ok.injEq,
    Prod.mk.injEq] at h
  obtain ⟨_, ⟨hok, rfl⟩, rfl, rfl⟩ := h
  obtain ⟨hnone, heq⟩ := GenericIndex.emplace_ok permissionIndex hok
  simp [heq, hnone]

/-- `modify_permission`. -/
def modifyPermission (s : AuthState Key) (id : Nat) (auth : Authority Key) : Except (ContractError Key) (AuthState Key) := do
  let permissions ← liftIndex (s.permissions.modify permissionIndex id fun po => { po with auth })
  pure { s with permissions }

theorem modifyPermission_eq_ok {s s' : AuthState Key} {id : Nat} {auth : Authority Key}
    (h : modifyPermission s id auth = .ok s') :
    ∃ p, s.permissions.indices.find? id = some p ∧
      s'.permissions.indices = (s.permissions.indices.erase id).insert id { p with auth } ∧
      s'.permissions.nextId = s.permissions.nextId := by
  simp only [modifyPermission, bind, Except.bind_eq_ok, liftIndex_eq_ok, pure, Except.pure, Except.ok.injEq] at h
  obtain ⟨_, ⟨hok, rfl⟩, rfl⟩ := h
  obtain ⟨p, hp, heq⟩ := GenericIndex.modify_ok permissionIndex hok
  exact ⟨p, hp, by simp [heq]⟩

/-- `remove_permission`: a permission that is the parent of another stays. -/
def removePermission (s : AuthState Key) (id : Nat) : Except (ContractError Key) (AuthState Key) := do
  gstAssert (!s.permissions.indices.entries.any fun o => o.2.parent == id) .hasChildren
  let permissions ← liftIndex (s.permissions.remove id)
  pure { s with permissions }

theorem removePermission_eq_ok {s s' : AuthState Key} {id : Nat} (h : removePermission s id = .ok s') :
    (∀ x p, s.permissions.indices.find? x = some p → p.parent ≠ id) ∧ s.permissions.indices.find? id ≠ none ∧
      s'.permissions.indices = s.permissions.indices.erase id ∧ s'.permissions.nextId = s.permissions.nextId := by
  simp only [removePermission, bind, Except.bind_eq_ok, gstAssert_eq_ok, liftIndex_eq_ok, pure, Except.pure,
    Except.ok.injEq, Bool.not_eq_true', List.any_eq_false, beq_iff_eq] at h
  obtain ⟨_, hchild, _, ⟨hok, rfl⟩, rfl⟩ := h
  obtain ⟨p, hp, heq⟩ := GenericIndex.remove_ok hok
  refine ⟨fun x q hq => hchild (x, q) ((s.permissions.indices.mem_entries_iff x q).mpr hq), by simp [hp], ?_⟩
  simp [heq]

/-! ## `permission_object::satisfies` -/

/-- The walk of `satisfies` up from the object `parent`: `none` when it dereferences a missing id (`*find` at
`end()`) or runs out of `fuel`. -/
def satisfiesLoop (P : OrdMap Nat (PermissionObject Key)) (id : Nat) :
    Nat → Option (PermissionObject Key) → Option Bool
  | _, none => none
  | 0, some _ => none
  | fuel + 1, some parent =>
    if id = parent.parent then some true
    else if parent.parent = 0 then some false
    else satisfiesLoop P id fuel (P.find? parent.parent)

/-- `this.satisfies(other, permission_index)`, for objects given with their ids. -/
def satisfies (this other : Nat × PermissionObject Key) (P : OrdMap Nat (PermissionObject Key)) (fuel : Nat) :
    Option Bool :=
  if this.2.owner ≠ other.2.owner then some false
  else if this.1 = other.1 ∨ this.1 = other.2.parent then some true
  else satisfiesLoop P this.1 fuel (P.find? other.2.parent)

/-! ## Genesis -/

/-- `authorization_manager::initialize_database`: the reserved permission `0`, a default object. -/
def AuthState.initializeDatabase : Except (ContractError Key) (AuthState Key) := do
  let permissions ← liftIndex (GenericIndex.init.emplace permissionIndex ⟨0, emptyName, emptyName, ⟨0, [], [], []⟩⟩)
  pure ⟨GenericIndex.init, permissions, GenericIndex.init⟩

/-- `controller::create_native_account`: the account, its `owner` permission under `0` and its `active`
permission under `owner`. -/
def createNativeAccount (s : AuthState Key) (name : Name) (owner active : Authority Key) (isPrivileged : Bool) :
    Except (ContractError Key) (AuthState Key) := do
  let accounts ← liftIndex (s.accounts.emplace accountIndex ⟨name, isPrivileged⟩)
  let (s, ownerId) ← createPermission { s with accounts } name ownerName 0 owner
  let (s, _) ← createPermission s name activeName ownerId active
  pure s

/-- The authority tables after `controller::initialize_database`: `gstio` with the initial key, `gstio.null`, and
`gstio.prods` with its `prod.major` and `prod.minor` permissions. -/
def initializeDatabase (initialKey : Key) : Except (ContractError Key) (AuthState Key) := do
  let s ← AuthState.initializeDatabase
  let systemAuth : Authority Key := ⟨1, [⟨initialKey, 1⟩], [], []⟩
  let s ← createNativeAccount s systemAccountName systemAuth systemAuth true
  let emptyAuthority : Authority Key := ⟨1, [], [], []⟩
  let activeProducersAuthority : Authority Key := ⟨1, [], [⟨⟨systemAccountName, activeName⟩, 1⟩], []⟩
  let s ← createNativeAccount s nullAccountName emptyAuthority emptyAuthority false
  let s ← createNativeAccount s producersAccountName emptyAuthority activeProducersAuthority false
  let activePermission ← getPermission s ⟨producersAccountName, activeName⟩
  let (s, majorityId) ← createPermission s producersAccountName majorityProducersPermissionName activePermission.1
    activeProducersAuthority
  let (s, _) ← createPermission s producersAccountName minorityProducersPermissionName majorityId
    activeProducersAuthority
  pure s

end Gstio.Chain
