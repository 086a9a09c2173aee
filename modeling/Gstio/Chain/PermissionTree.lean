import Gstio.Chain.GstioContract
import Gstio.Lib.ParentForest

/-!
# The permission tree

Every permission but the reserved `0` hangs under a parent of its own account, with a smaller id; an account's
`owner` permission hangs under `0` and its `active` permission under the `owner` one (`PermissionTree`). The
tables after `initialize_database` have this shape, and every action that returns keeps it, so every run does
(`Reachable.permissionTree`). In such a table the parent map is a forest (`ParentForest`): the chain of parents of
a permission has no repetition and ends at `0`, and the walk of `permission_object::satisfies` stops and decides
whether one permission is an ancestor-or-self of the other (`PermissionTree.satisfies_iff`).
-/

namespace Gstio.Chain

open Chainbase ParentForest

variable {Key : Type}

/-- The invariant of a permission table `P` whose next id is `nextId`. -/
structure PermissionTree (P : OrdMap Nat (PermissionObject Key)) (nextId : Nat) : Prop where
  below : Below P nextId
  reserved : ∃ r, P.find? 0 = some r ∧ r.parent = 0 ∧ r.owner = emptyName ∧ r.name = emptyName
  owned : ∀ id p, P.find? id = some p → id ≠ 0 → p.owner ≠ emptyName
  parent_lt : ∀ id p, P.find? id = some p → id ≠ 0 → p.parent < id
  parent_owner : ∀ id p, P.find? id = some p → p.parent ≠ 0 → ∃ q, P.find? p.parent = some q ∧ q.owner = p.owner
  owner_parent : ∀ id p, P.find? id = some p → id ≠ 0 → p.name = ownerName → p.parent = 0
  active_parent : ∀ id p, P.find? id = some p → id ≠ 0 → p.name = activeName →
    ∃ q, P.find? p.parent = some q ∧ q.name = ownerName ∧ q.owner = p.owner

/-- The parent map of a permission table: the reserved `0`, and an id without an object, have none. -/
def permissionParent (P : OrdMap Nat (PermissionObject Key)) (x : Nat) : Option Nat :=
  if x = 0 then none else (P.find? x).map (·.parent)

theorem permissionParent_of_find? {P : OrdMap Nat (PermissionObject Key)} {x : Nat} {p : PermissionObject Key}
    (hx : P.find? x = some p) (hx0 : x ≠ 0) : permissionParent P x = some p.parent := by
  simp [permissionParent, hx0, hx]

@[simp] theorem permissionParent_zero (P : OrdMap Nat (PermissionObject Key)) : permissionParent P 0 = none := rfl

namespace PermissionTree

variable {P : OrdMap Nat (PermissionObject Key)} {n : Nat}

theorem pos (h : PermissionTree P n) : 0 < n := by
  obtain ⟨r, hr, -⟩ := h.reserved
  exact h.below 0 (by simp [hr])

/-- What a new permission needs: an owner, a parent of the same owner (or none, `0`), `0` as the parent of an
`owner` permission and an `owner` permission as the parent of an `active` one. -/
structure Fits (P : OrdMap Nat (PermissionObject Key)) (v : PermissionObject Key) : Prop where
  owned : v.owner ≠ emptyName
  parent_owner : v.parent ≠ 0 → ∃ q, P.find? v.parent = some q ∧ q.owner = v.owner
  owner_parent : v.name = ownerName → v.parent = 0
  active_parent : v.name = activeName → ∃ q, P.find? v.parent = some q ∧ q.name = ownerName ∧ q.owner = v.owner

theorem insert (h : PermissionTree P n) {v : PermissionObject Key} (hv : Fits P v) :
    PermissionTree (P.insert n v) (n + 1) := by
  have hn : P.find? n = none := by
    by_contra hne
    exact Nat.lt_irrefl n (h.below n hne)
  have hn0 : n ≠ 0 := Nat.pos_iff_ne_zero.mp h.pos
  -- an object of the old table keeps its lookup
  have hold : ∀ {x q}, P.find? x = some q → (P.insert n v).find? x = some q := fun hq => by simp [hq]
  have hcases : ∀ {x p}, (P.insert n v).find? x = some p → P.find? x = some p ∨ x = n ∧ p = v := by
    intro x p hx
    rcases OrdMap.find?_insert_eq_some.mp hx with hx | ⟨-, rfl, rfl⟩
    · exact .inl hx
    · exact .inr ⟨rfl, rfl⟩
  have hparent_lt : v.parent < n := by
    by_cases hp : v.parent = 0
    · rw [hp]; exact h.pos
    · obtain ⟨q, hq, -⟩ := hv.parent_owner hp
      exact h.below _ (by simp [hq])
  constructor
  · intro x hx
    cases hxv : (P.insert n v).find? x with
    | none => exact absurd hxv hx
    | some p =>
      rcases hcases hxv with hx | ⟨rfl, -⟩
      · exact Nat.lt_succ_of_lt (h.below x (by simp [hx]))
      · exact Nat.lt_succ_self _
  · obtain ⟨r, hr, hr'⟩ := h.reserved
    exact ⟨r, hold hr, hr'⟩
  · intro x p hx hx0
    rcases hcases hx with hx | ⟨-, rfl⟩
    · exact h.owned x p hx hx0
    · exact hv.owned
  · intro x p hx hx0
    rcases hcases hx with hx | ⟨rfl, rfl⟩
    · exact h.parent_lt x p hx hx0
    · exact hparent_lt
  · intro x p hx hp
    rcases hcases hx with hx | ⟨-, rfl⟩
    · obtain ⟨q, hq, hq'⟩ := h.parent_owner x p hx hp
      exact ⟨q, hold hq, hq'⟩
    · obtain ⟨q, hq, hq'⟩ := hv.parent_owner hp
      exact ⟨q, hold hq, hq'⟩
  · intro x p hx hx0 hname
    rcases hcases hx with hx | ⟨-, rfl⟩
    · exact h.owner_parent x p hx hx0 hname
    · exact hv.owner_parent hname
  · intro x p hx hx0 hname
    rcases hcases hx with hx | ⟨-, rfl⟩
    · obtain ⟨q, hq, hq'⟩ := h.active_parent x p hx hx0 hname
      exact ⟨q, hold hq, hq'⟩
    · obtain ⟨q, hq, hq'⟩ := hv.active_parent hname
      exact ⟨q, hold hq, hq'⟩

/-- A new authority for an existing permission keeps its parent, owner and name. -/
theorem setAuth (h : PermissionTree P n) {id : Nat} {p : PermissionObject Key} (hp : P.find? id = some p)
    (auth : Authority Key) : PermissionTree ((P.erase id).insert id { p with auth }) n := by
  -- every id holds an object of the same parent, owner and name as before
  have hfind : ∀ x, ((P.erase id).insert id { p with auth }).find? x =
      (P.find? x).map fun q => if x = id then { q with auth } else q := by
    intro x
    by_cases hx : x = id
    · subst hx; simp [hp]
    · simp [hx]
  have hto : ∀ {x q}, P.find? x = some q → ∃ q', ((P.erase id).insert id { p with auth }).find? x = some q' ∧
      q'.parent = q.parent ∧ q'.owner = q.owner ∧ q'.name = q.name := by
    intro x q hq
    refine ⟨if x = id then { q with auth } else q, by simp [hfind, hq], ?_⟩
    split <;> simp
  have hfrom : ∀ {x q'}, ((P.erase id).insert id { p with auth }).find? x = some q' → ∃ q, P.find? x = some q ∧
      q'.parent = q.parent ∧ q'.owner = q.owner ∧ q'.name = q.name := by
    intro x q' hq'
    rw [hfind, Option.map_eq_some_iff] at hq'
    obtain ⟨q, hq, rfl⟩ := hq'
    refine ⟨q, hq, ?_⟩
    split <;> simp
  constructor
  · intro x hx
    cases hq' : ((P.erase id).insert id { p with auth }).find? x with
    | none => exact absurd hq' hx
    | some q' =>
      obtain ⟨q, hq, -⟩ := hfrom hq'
      exact h.below x (by simp [hq])
  · obtain ⟨r, hr, hr1, hr2, hr3⟩ := h.reserved
    obtain ⟨r', hr', e1, e2, e3⟩ := hto hr
    exact ⟨r', hr', e1.trans hr1, e2.trans hr2, e3.trans hr3⟩
  · intro x q' hx hx0
    obtain ⟨q, hq, -, e2, -⟩ := hfrom hx
    rw [e2]; exact h.owned x q hq hx0
  · intro x q' hx hx0
    obtain ⟨q, hq, e1, -⟩ := hfrom hx
    rw [e1]; exact h.parent_lt x q hq hx0
  · intro x q' hx hp0
    obtain ⟨q, hq, e1, e2, -⟩ := hfrom hx
    obtain ⟨r, hr, hr'⟩ := h.parent_owner x q hq (e1 ▸ hp0)
    obtain ⟨r', hr'', f1, f2, -⟩ := hto hr
    exact ⟨r', e1 ▸ hr'', by rw [f2, hr', e2]⟩
  · intro x q' hx hx0 hname
    obtain ⟨q, hq, e1, -, e3⟩ := hfrom hx
    rw [e1]; exact h.owner_parent x q hq hx0 (e3 ▸ hname)
  · intro x q' hx hx0 hname
    obtain ⟨q, hq, e1, e2, e3⟩ := hfrom hx
    obtain ⟨r, hr, hr1, hr2⟩ := h.active_parent x q hq hx0 (e3 ▸ hname)
    obtain ⟨r', hr'', -, f2, f3⟩ := hto hr
    exact ⟨r', e1 ▸ hr'', f3.trans hr1, by rw [f2, hr2, e2]⟩

/-- Removing a permission other than `0` that is no one's parent. -/
theorem erase (h : PermissionTree P n) {id : Nat} (hid : id ≠ 0)
    (hchild : ∀ x p, P.find? x = some p → p.parent ≠ id) : PermissionTree (P.erase id) n := by
  have hfrom : ∀ {x q}, (P.erase id).find? x = some q → x ≠ id ∧ P.find? x = some q := by
    intro x q hq
    by_cases hx : x = id
    · simp [hx] at hq
    · simpa [hx] using hq
  -- the parent of a remaining object is not the removed one
  have hkeep : ∀ {x q}, P.find? x = some q → (P.erase id).find? q.parent = P.find? q.parent := by
    intro x q hq
    simp [hchild x q hq]
  constructor
  · intro x hx
    cases hq : (P.erase id).find? x with
    | none => exact absurd hq hx
    | some q => exact h.below x (by simp [(hfrom hq).2])
  · obtain ⟨r, hr, hr'⟩ := h.reserved
    exact ⟨r, by simp [Ne.symm hid, hr], hr'⟩
  · intro x q hx hx0
    exact h.owned x q (hfrom hx).2 hx0
  · intro x q hx hx0
    exact h.parent_lt x q (hfrom hx).2 hx0
  · intro x q hx hp
    rw [hkeep (hfrom hx).2]
    exact h.parent_owner x q (hfrom hx).2 hp
  · intro x q hx hx0 hname
    exact h.owner_parent x q (hfrom hx).2 hx0 hname
  · intro x q hx hx0 hname
    rw [hkeep (hfrom hx).2]
    exact h.active_parent x q (hfrom hx).2 hx0 hname

/-! ## Each action keeps the tree -/

/-- `create_permission` of a fitting object keeps the tree and stores the object under the returned id. -/
theorem create {s s' : AuthState Key} {account name : Name} {parent id : Nat} {auth : Authority Key}
    (h : PermissionTree s.permissions.indices s.permissions.nextId)
    (hv : Fits s.permissions.indices ⟨parent, account, name, auth⟩)
    (hc : createPermission s account name parent auth = .ok (s', id)) :
    PermissionTree s'.permissions.indices s'.permissions.nextId ∧
      s'.permissions.indices.find? id = some ⟨parent, account, name, auth⟩ := by
  obtain ⟨rfl, hnone, hP, hn⟩ := createPermission_eq_ok hc
  rw [hP, hn]
  exact ⟨h.insert hv, by simp [hnone]⟩

/-- An account's `owner` permission under `0`, then its `active` permission under the `owner` one. -/
theorem createAccount {s s₁ s₂ : AuthState Key} {name : Name} {owner active : Authority Key} {ownerId activeId : Nat}
    (h : PermissionTree s.permissions.indices s.permissions.nextId) (hname : name ≠ emptyName)
    (h₁ : createPermission s name ownerName 0 owner = .ok (s₁, ownerId))
    (h₂ : createPermission s₁ name activeName ownerId active = .ok (s₂, activeId)) :
    PermissionTree s₂.permissions.indices s₂.permissions.nextId := by
  have hne : ownerName ≠ activeName := by decide
  obtain ⟨h₁', hfind⟩ := h.create ⟨hname, fun h0 => absurd rfl h0, fun _ => rfl, fun ha => absurd ha hne⟩ h₁
  exact (h₁'.create ⟨hname, fun _ => ⟨_, hfind, rfl⟩, fun ho => absurd ho.symm hne, fun _ => ⟨_, hfind, rfl, rfl⟩⟩
    h₂).1

/-- `deleteauth` removes a permission of the account, so not `0`, that is no one's parent. -/
theorem deleteauth {s s' : AuthState Key} {ctx : ApplyContext Key} {remove : Deleteauth}
    (h : PermissionTree s.permissions.indices s.permissions.nextId)
    (hok : applyGstioDeleteauth ctx remove s = .ok s') : PermissionTree s'.permissions.indices s'.permissions.nextId := by
  obtain ⟨id, p, hget, hrem⟩ := applyGstioDeleteauth_eq_ok hok
  obtain ⟨hacct, hfind, howner, -⟩ := getPermission_eq_ok hget
  obtain ⟨hchild, -, hP, hn⟩ := removePermission_eq_ok hrem
  have hid : id ≠ 0 := by
    rintro rfl
    obtain ⟨r, hr, -, hr0, -⟩ := h.reserved
    rw [hr, Option.some_inj] at hfind
    exact hacct (howner ▸ hfind ▸ hr0)
  rw [hP, hn]
  exact h.erase hid hchild

section Actions

variable [LT Key] [DecidableRel (α := Key) (· < ·)] {s s' : AuthState Key} {ctx : ApplyContext Key}

theorem newaccount {create : Newaccount Key} (h : PermissionTree s.permissions.indices s.permissions.nextId)
    (hok : applyGstioNewaccount ctx create s = .ok s') : PermissionTree s'.permissions.indices s'.permissions.nextId := by
  obtain ⟨hname, s₀, s₁, ownerId, activeId, hs₀, h₁, h₂⟩ := applyGstioNewaccount_eq_ok hok
  rw [← hs₀] at h
  exact h.createAccount hname h₁ h₂

/-- `updateauth` sets the authority of an existing permission, or creates one under a parent of the same account
(under `0` for `owner`, under `owner` for `active`). -/
theorem updateauth {update : Updateauth Key} (h : PermissionTree s.permissions.indices s.permissions.nextId)
    (hok : applyGstioUpdateauth ctx update s = .ok s') : PermissionTree s'.permissions.indices s'.permissions.nextId := by
  obtain ⟨hactive, parentId, hparent, ⟨id, po, -, hmod⟩ | ⟨-, hacct, id, hc⟩⟩ := applyGstioUpdateauth_eq_ok hok
  · obtain ⟨p, hp, hP, hn⟩ := modifyPermission_eq_ok hmod
    rw [hP, hn]
    exact h.setAuth hp update.auth
  · have hne : ownerName ≠ activeName := by decide
    refine (h.create ⟨hacct, ?_, ?_, ?_⟩ hc).1
    all_goals rcases updateauthParentId_eq_ok hparent with ⟨ho, rfl⟩ | ⟨ho, pp, hget⟩
    · exact fun h0 => absurd rfl h0
    · obtain ⟨-, hfind, howner, -⟩ := getPermission_eq_ok hget
      exact fun _ => ⟨pp, hfind, howner⟩
    · exact fun _ => rfl
    · exact fun ho' => absurd ho' ho
    · exact fun ha => absurd (ho.symm.trans ha) hne
    · obtain ⟨-, hfind, howner, hpname⟩ := getPermission_eq_ok hget
      exact fun ha => ⟨pp, hfind, hpname.trans (hactive ha), howner⟩

theorem apply {a : AuthAction Key} (h : PermissionTree s.permissions.indices s.permissions.nextId)
    (hok : a.apply s = .ok s') : PermissionTree s'.permissions.indices s'.permissions.nextId := by
  cases a with
  | newaccount ctx create => exact h.newaccount hok
  | updateauth ctx update => exact h.updateauth hok
  | deleteauth ctx remove => exact h.deleteauth hok
  | linkauth ctx requirement =>
    rw [applyGstioLinkauth_permissions hok]
    exact h
  | unlinkauth ctx unlink =>
    rw [applyGstioUnlinkauth_permissions hok]
    exact h

end Actions

/-! ## Genesis and runs -/

/-- `authorization_manager::initialize_database`: the reserved permission alone. -/
theorem of_authInitializeDatabase {s : AuthState Key} (h : AuthState.initializeDatabase = .ok s) :
    PermissionTree s.permissions.indices s.permissions.nextId := by
  simp only [AuthState.initializeDatabase, bind, Except.bind_eq_ok, liftIndex_eq_ok, pure, Except.pure,
    Except.ok.injEq] at h
  obtain ⟨permissions, ⟨hok, rfl⟩, rfl⟩ := h
  obtain ⟨-, heq⟩ := GenericIndex.emplace_ok permissionIndex hok
  rw [heq]
  simp only [GenericIndex.indices_onHead, GenericIndex.nextId_onHead, GenericIndex.init]
  -- the only object is the reserved one, under id `0`
  have hone : ∀ {x p}, (OrdMap.empty.insert 0 (⟨0, emptyName, emptyName, ⟨0, [], [], []⟩⟩ : PermissionObject Key)).find? x =
      some p → x = 0 ∧ p = ⟨0, emptyName, emptyName, ⟨0, [], [], []⟩⟩ := by
    intro x p hx
    by_cases hx0 : x = 0
    · simp [hx0] at hx
      exact ⟨hx0, hx.symm⟩
    · simp [hx0] at hx
  refine ⟨?_, ⟨⟨0, emptyName, emptyName, ⟨0, [], [], []⟩⟩, by simp, rfl, rfl, rfl⟩, ?_, ?_, ?_, ?_, ?_⟩
  · intro x hx
    cases hq : (OrdMap.empty.insert 0 (⟨0, emptyName, emptyName, ⟨0, [], [], []⟩⟩ : PermissionObject Key)).find? x with
    | none => exact absurd hq hx
    | some q =>
      rw [(hone hq).1]
      exact Nat.zero_lt_one
  all_goals intro x p hx
  all_goals obtain ⟨rfl, rfl⟩ := hone hx
  all_goals intro hx0
  all_goals exact absurd rfl hx0

/-- `create_native_account` of a named account. -/
theorem of_createNativeAccount {s s' : AuthState Key} {name : Name} {owner active : Authority Key}
    {isPrivileged : Bool} (h : PermissionTree s.permissions.indices s.permissions.nextId) (hname : name ≠ emptyName)
    (hc : createNativeAccount s name owner active isPrivileged = .ok s') :
    PermissionTree s'.permissions.indices s'.permissions.nextId := by
  simp only [createNativeAccount, bind, Except.bind_eq_ok, pure, Except.pure, Except.ok.injEq] at hc
  obtain ⟨accounts, -, ⟨s₁, ownerId⟩, h₁, ⟨s₂, activeId⟩, h₂, rfl⟩ := hc
  exact createAccount (s := ⟨accounts, s.permissions, s.links⟩) h hname h₁ h₂

/-- The tables `controller::initialize_database` builds: the reserved permission, three native accounts, and
`prod.major` under `gstio.prods@active`, `prod.minor` under `prod.major`. -/
theorem of_initializeDatabase {initialKey : Key} {s : AuthState Key} (h : initializeDatabase initialKey = .ok s) :
    PermissionTree s.permissions.indices s.permissions.nextId := by
  simp only [initializeDatabase, bind, Except.bind_eq_ok, pure, Except.pure, Except.ok.injEq] at h
  obtain ⟨s₀, h₀, s₁, h₁, s₂, h₂, s₃, h₃, ⟨activeId, activePermission⟩, hget, ⟨s₄, majorityId⟩, h₄,
    ⟨s₅, minorityId⟩, h₅, rfl⟩ := h
  have t₃ := (((of_authInitializeDatabase h₀).of_createNativeAccount (by decide) h₁).of_createNativeAccount
    (by decide) h₂).of_createNativeAccount (by decide) h₃
  obtain ⟨-, hfind, howner, -⟩ := getPermission_eq_ok hget
  have hprods : producersAccountName ≠ emptyName := by decide
  have hmajor : majorityProducersPermissionName ≠ ownerName ∧ majorityProducersPermissionName ≠ activeName := by
    decide
  have hminor : minorityProducersPermissionName ≠ ownerName ∧ minorityProducersPermissionName ≠ activeName := by
    decide
  obtain ⟨t₄, hfound⟩ := t₃.create ⟨hprods, fun _ => ⟨activePermission, hfind, howner⟩,
    fun ho => absurd ho hmajor.1, fun ha => absurd ha hmajor.2⟩ h₄
  exact (t₄.create ⟨hprods, fun _ => ⟨_, hfound, rfl⟩, fun ho => absurd ho hminor.1,
    fun ha => absurd ha hminor.2⟩ h₅).1

/-- **Run lemma.** Actions that return keep the tree, and actions that throw are rolled back. -/
theorem run [LT Key] [DecidableRel (α := Key) (· < ·)] {s : AuthState Key}
    (h : PermissionTree s.permissions.indices s.permissions.nextId) (as : List (AuthAction Key)) :
    PermissionTree (Rollback.run AuthAction.apply s as).permissions.indices
      (Rollback.run AuthAction.apply s as).permissions.nextId :=
  Rollback.run_invariant (I := fun s => PermissionTree s.permissions.indices s.permissions.nextId)
    (fun _ _ _ hs hok => hs.apply hok) as h

/-! ## The forest and the walk of `satisfies` -/

/-- Ids decrease from a permission to its parent. -/
theorem ranked (h : PermissionTree P n) : Ranked (permissionParent P) fun x => x := by
  intro a b hb
  by_cases hb0 : b = 0
  · simp [hb0] at hb
  · simp only [permissionParent, hb0, if_false, Option.map_eq_some_iff] at hb
    obtain ⟨p, hp, rfl⟩ := hb
    exact h.parent_lt b p hp hb0

/-- Every parent, `0` included, holds an object. -/
theorem find?_parent (h : PermissionTree P n) {x : Nat} {p : PermissionObject Key} (hx : P.find? x = some p) :
    ∃ q, P.find? p.parent = some q := by
  by_cases hp0 : p.parent = 0
  · obtain ⟨r, hr, -⟩ := h.reserved
    exact ⟨r, hp0 ▸ hr⟩
  · obtain ⟨q, hq, -⟩ := h.parent_owner x p hx hp0
    exact ⟨q, hq⟩

theorem closed (h : PermissionTree P n) :
    ∀ a b, permissionParent P b = some a → P.find? b ≠ none → P.find? a ≠ none := by
  intro a b hab _
  by_cases hb0 : b = 0
  · simp [hb0] at hab
  · simp only [permissionParent, hb0, if_false, Option.map_eq_some_iff] at hab
    obtain ⟨p, hp, rfl⟩ := hab
    obtain ⟨q, hq⟩ := h.find?_parent hp
    simp [hq]

/-- **Parent chains.** From a permission the parents run through distinct ids, all of them objects, down to
`0`. -/
theorem chain_spec (h : PermissionTree P n) {x : Nat} {p : PermissionObject Key} (hx : P.find? x = some p) :
    (chain (permissionParent P) x x).Nodup ∧ (chain (permissionParent P) x x).getLast? = some 0 ∧
      ∀ y ∈ chain (permissionParent P) x x, P.find? y ≠ none := by
  have hpresent : ∀ y ∈ chain (permissionParent P) x x, P.find? y ≠ none := fun y hy =>
    present_of_ancestorOrSelf h.closed (ancestorOrSelf_of_mem_chain hy) (by simp [hx])
  refine ⟨chain_nodup h.ranked x x, ?_, hpresent⟩
  obtain ⟨r, hr, hroot⟩ := par_getLast_chain h.ranked (Nat.le_refl x)
  rw [hr]
  -- the root of the chain holds an object, and only `0` does without a parent
  by_contra hr0
  have hne : r ≠ 0 := fun e => hr0 (congrArg some e)
  cases hq : P.find? r with
  | none => exact hpresent r (List.mem_of_getLast? hr) hq
  | some q => simp [permissionParent_of_find? hq hne] at hroot

/-- One round of the walk from the object `px` at `x`: it finds `thisId` among the ancestors-or-self of
`px.parent`. The fuel must exceed `x`. -/
theorem satisfiesLoop_eq (h : PermissionTree P n) {thisId : Nat} (hthis : thisId ≠ 0) :
    ∀ (fuel x : Nat) (px : PermissionObject Key), P.find? x = some px → x < fuel →
      ∃ b, satisfiesLoop P thisId fuel (some px) = some b ∧
        (b = true ↔ AncestorOrSelf (permissionParent P) thisId px.parent)
  | 0, x, _, _, hlt => absurd hlt (Nat.not_lt_zero x)
  | fuel + 1, x, px, hx, hlt => by
    by_cases hy : thisId = px.parent
    · refine ⟨true, by simp [satisfiesLoop, hy], ?_⟩
      simp only [true_iff]
      exact hy ▸ ancestorOrSelf_refl thisId
    · by_cases hy0 : px.parent = 0
      · refine ⟨false, by simp [satisfiesLoop, hthis, hy0], ?_⟩
        rw [hy0, ancestorOrSelf_of_root (permissionParent_zero P)]
        simp [hthis]
      · -- the walk goes on at the parent, a smaller id holding an object
        have hx0 : x ≠ 0 := by
          rintro rfl
          obtain ⟨r, hr, hr0, -⟩ := h.reserved
          rw [hx, Option.some_inj] at hr
          exact hy0 (hr ▸ hr0)
        obtain ⟨q, hq, -⟩ := h.parent_owner x px hx hy0
        have hlt' : px.parent < fuel := by
          have := h.parent_lt x px hx hx0
          omega
        obtain ⟨b, hb, hiff⟩ := satisfiesLoop_eq h hthis fuel px.parent q hq hlt'
        refine ⟨b, by simp [satisfiesLoop, hy, hy0, hq, hb], ?_⟩
        rw [hiff, ancestorOrSelf_iff_of_ne hy (permissionParent_of_find? hq hy0)]

/-- Only the reserved permission has no owner. -/
theorem eq_zero_iff_owner (h : PermissionTree P n) {x : Nat} {p : PermissionObject Key} (hx : P.find? x = some p) :
    x = 0 ↔ p.owner = emptyName := by
  constructor
  · rintro rfl
    obtain ⟨r, hr, -, hr0, -⟩ := h.reserved
    rw [hx, Option.some_inj] at hr
    exact hr ▸ hr0
  · intro ho
    by_contra hx0
    exact h.owned x p hx hx0 ho

/-- **`satisfies`.** With fuel at least the id of `other`, the walk stops, and `this` satisfies `other` iff they
have the same owner and `this` is an ancestor-or-self of `other`. -/
theorem satisfies_iff (h : PermissionTree P n) {thisId otherId fuel : Nat} {this other : PermissionObject Key}
    (hthis : P.find? thisId = some this) (hother : P.find? otherId = some other) (hfuel : otherId ≤ fuel) :
    ∃ b, satisfies (thisId, this) (otherId, other) P fuel = some b ∧
      (b = true ↔ this.owner = other.owner ∧ AncestorOrSelf (permissionParent P) thisId otherId) := by
  by_cases howner : this.owner = other.owner
  swap
  · exact ⟨false, by simp [satisfies, howner], by simp [howner]⟩
  have hzero : thisId = 0 ↔ otherId = 0 := by
    rw [h.eq_zero_iff_owner hthis, h.eq_zero_iff_owner hother, howner]
  by_cases hdirect : thisId = otherId ∨ thisId = other.parent
  · refine ⟨true, by simp [satisfies, howner, hdirect], ?_⟩
    simp only [true_iff]
    refine ⟨howner, ?_⟩
    rcases hdirect with rfl | hpar
    · exact ancestorOrSelf_refl thisId
    · by_cases ho0 : otherId = 0
      · -- the reserved permission is its own parent
        rw [hzero.mpr ho0, ho0]
        exact ancestorOrSelf_refl 0
      · exact ancestorOrSelf_iff.mpr (.inr ⟨other.parent, permissionParent_of_find? hother ho0,
          hpar ▸ ancestorOrSelf_refl thisId⟩)
  · rw [not_or] at hdirect
    have ho0 : otherId ≠ 0 := fun ho => hdirect.1 (by rw [hzero.mpr ho, ho])
    have ht0 : thisId ≠ 0 := fun ht => ho0 (hzero.mp ht)
    obtain ⟨q, hq⟩ := h.find?_parent hother
    have hlt : other.parent < fuel := Nat.lt_of_lt_of_le (h.parent_lt otherId other hother ho0) hfuel
    obtain ⟨b, hb, hiff⟩ := h.satisfiesLoop_eq ht0 fuel other.parent q hq hlt
    refine ⟨b, by simp [satisfies, howner, hdirect.1, hdirect.2, hq, hb], ?_⟩
    rw [hiff, ancestorOrSelf_iff_of_ne hdirect.1 (permissionParent_of_find? hother ho0)]
    by_cases hp0 : other.parent = 0
    · -- the walk starts at the reserved permission, whose parent is `0` again
      obtain ⟨r, hr, hr0, -⟩ := h.reserved
      rw [hp0, hr, Option.some_inj] at hq
      rw [← hq, hr0, hp0]
      simp [howner]
    · rw [ancestorOrSelf_iff_of_ne hdirect.2 (permissionParent_of_find? hq hp0)]
      simp [howner]

end PermissionTree

section Reachable

variable [LT Key] [DecidableRel (α := Key) (· < ·)]

/-- The authority tables after `initialize_database` with `initialKey` and then any actions, each returning or
rolled back. -/
def Reachable (initialKey : Key) (s : AuthState Key) : Prop :=
  ∃ s₀ as, (initializeDatabase initialKey).toOption = some s₀ ∧ s = Rollback.run AuthAction.apply s₀ as

theorem Reachable.permissionTree {initialKey : Key} {s : AuthState Key} (h : Reachable initialKey s) :
    PermissionTree s.permissions.indices s.permissions.nextId := by
  obtain ⟨s₀, as, h₀, rfl⟩ := h
  exact (PermissionTree.of_initializeDatabase (Except.toOption_eq_some.mp h₀)).run as

end Reachable

/-- `gstio` creates `alice`, and `alice` adds a permission `trade` under `active`. -/
def aliceTables : AuthState Nat :=
  Rollback.run AuthAction.apply ((initializeDatabase 1).toOption.getD ⟨.init, .init, .init⟩)
    [.newaccount ⟨[⟨systemAccountName, activeName⟩], 0, false, false, []⟩
      ⟨systemAccountName, N "alice", singleKeyAuthority 2, singleKeyAuthority 2⟩,
    .updateauth ⟨[⟨N "alice", activeName⟩], 0, false, false, []⟩ ⟨N "alice", N "trade", activeName, singleKeyAuthority 3⟩]

end Gstio.Chain
