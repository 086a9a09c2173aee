import Mathlib
import Gstio.Chain.Authority

/-!
# The authority checker: `authority_checker.hpp`

`satisfied(level)` asks a `weight_tally_visitor` at depth 0 for the weight of `permission_level_weight{level, 1}`.
For an account entry the visitor looks the level up in a cache (`permissionStatusInCache`, with the wildcard
`(actor, "")`), and otherwise, below the depth limit, marks it `being_evaluated`, evaluates the authority of the
level (`satisfiedAuthority`) and records the verdict. An authority is evaluated by visiting its waits, keys and
accounts in the order of the `meta_permission_set` (`metaPermissions`) until the tally reaches the threshold; a
failed authority gives back the keys it marked used (`keyReverter`).

The recursion is on `fuel = recursion_depth_limit - recursion_depth`: the visitor of a call may evaluate account
permissions only while its fuel is positive (`subEvaluator`).

`get_required_keys` runs one checker over every declared authorization of a transaction and returns the keys
it marked used (`getRequiredKeys`).
-/

namespace Gstio.Chain

variable {Key : Type} [DecidableEq Key]

/-! ## The meta permission set -/

/-- `meta_permission`, the `static_variant<permission_level_weight, key_weight, wait_weight>`. -/
inductive MetaPermission (Key : Type)
  | level (p : PermissionLevelWeight)
  | key (k : KeyWeight Key)
  | wait (w : WaitWeight)
  deriving DecidableEq, Repr

namespace MetaPermission

/-- `get_weight_visitor`. -/
def weight : MetaPermission Key → Nat
  | level p => p.weight
  | key k => k.weight
  | wait w => w.weight

/-- `static_variant::which`. -/
def which : MetaPermission Key → Nat
  | level _ => 0
  | key _ => 1
  | wait _ => 2

/-- `a` may stand before `b` in the `meta_permission_set`: `meta_permission_comparator` orders by descending
`(weight, which)`, and a multiset keeps equivalent elements in their order of insertion. -/
def precedes (a b : MetaPermission Key) : Bool :=
  b.weight < a.weight || (b.weight == a.weight && b.which ≤ a.which)

end MetaPermission

/-- The `meta_permission_set` of an authority: its waits, keys and accounts, inserted in this order and sorted
by `meta_permission_comparator` (a stable insertion sort). -/
def metaPermissions (auth : Authority Key) : List (MetaPermission Key) :=
  List.insertionSort (fun a b => a.precedes b = true)
    (auth.waits.map .wait ++ auth.keys.map .key ++ auth.accounts.map .level)

/-! ## The checker -/

/-- The fields of `authority_checker` that `satisfied` reads. `permissionToAuthority` is `none` where the
functor throws `permission_query_exception`. -/
structure AuthorityChecker (Key : Type) where
  permissionToAuthority : PermissionLevel → Option (Authority Key)
  recursionDepthLimit : Nat
  providedKeys : List Key
  providedPermissions : List PermissionLevel
  providedDelay : Int

/-- `make_auth_checker`. -/
def makeAuthChecker (pta : PermissionLevel → Option (Authority Key)) (recursionDepthLimit : Nat)
    (providedKeys : List Key) (providedPermissions : List PermissionLevel) (providedDelay : Int) :
    AuthorityChecker Key :=
  ⟨pta, recursionDepthLimit, providedKeys, providedPermissions, providedDelay⟩

/-- `permission_cache_status`. -/
inductive CacheStatus
  | beingEvaluated
  | permissionUnsatisfied
  | permissionSatisfied
  deriving DecidableEq, Repr

/-- `permission_cache_type`, a `map<permission_level, permission_cache_status>`. -/
abbrev PermissionCache := PermissionLevel → Option CacheStatus

/-- What an evaluation changes: the cache, and the checker's `_used_keys`. -/
structure CheckState where
  cache : PermissionCache
  usedKeys : List Bool

/-- An evaluator of authorities: `satisfied(authority, cached_permissions, depth)` at some depth. -/
abbrev Evaluator (Key : Type) := Authority Key → CheckState → Bool × CheckState

/-- `total_weight += weight` on a `uint32_t`. -/
def addWeight (total weight : Nat) : Nat := (total + weight) % 2 ^ 32

/-- `permission_status_in_cache`: the level itself, else the wildcard `(actor, "")`. -/
def permissionStatusInCache (cache : PermissionCache) (level : PermissionLevel) : Option CacheStatus :=
  (cache level).or (cache ⟨level.actor, emptyName⟩)

/-- `initialize_permission_cache`: every provided permission is satisfied. -/
def initializePermissionCache (ck : AuthorityChecker Key) : PermissionCache :=
  fun q => if q ∈ ck.providedPermissions then some .permissionSatisfied else none

/-- `weight_tally_visitor::operator()(const wait_weight&)`. -/
def visitWait (ck : AuthorityChecker Key) (total : Nat) (w : WaitWeight) : Nat :=
  if seconds w.waitSec ≤ ck.providedDelay then addWeight total w.weight else total

/-- `weight_tally_visitor::operator()(const key_weight&)`: the first provided key equal to the key is marked. -/
def visitKey (ck : AuthorityChecker Key) (total : Nat) (k : KeyWeight Key) (used : List Bool) :
    Nat × List Bool :=
  match ck.providedKeys.idxOf? k.key with
  | some i => (addWeight total k.weight, used.set i true)
  | none => (total, used)

/-- `weight_tally_visitor::operator()(const permission_level_weight&)`, with `sub` the evaluator of the next depth
when `recursion_depth < recursion_depth_limit`. -/
def visitLevel (ck : AuthorityChecker Key) (sub : Option (Evaluator Key)) (pw : PermissionLevelWeight)
    (total : Nat) (st : CheckState) : Nat × CheckState :=
  match permissionStatusInCache st.cache pw.permission with
  | none =>
    match sub with
    | none => (total, st)
    | some eval =>
      match ck.permissionToAuthority pw.permission with
      -- the permission does not exist: continue without it
      | none => (total, st)
      | some auth =>
        let r := eval auth { st with cache := Function.update st.cache pw.permission (some .beingEvaluated) }
        if r.1 then
          (addWeight total pw.weight,
            { r.2 with cache := Function.update r.2.cache pw.permission (some .permissionSatisfied) })
        else (total, { r.2 with cache := Function.update r.2.cache pw.permission (some .permissionUnsatisfied) })
  | some .permissionSatisfied => (addWeight total pw.weight, st)
  | some _ => (total, st)

/-- `permission.visit(visitor)`. -/
def visit (ck : AuthorityChecker Key) (sub : Option (Evaluator Key)) :
    MetaPermission Key → Nat → CheckState → Nat × CheckState
  | .wait w, total, st => (visitWait ck total w, st)
  | .key k, total, st => ((visitKey ck total k st.usedKeys).1, { st with usedKeys := (visitKey ck total k st.usedKeys).2 })
  | .level p, total, st => visitLevel ck sub p total st

/-- The loop of `satisfied(authority, cached_permissions, depth)`: visit until the tally reaches the threshold. -/
def tally (ck : AuthorityChecker Key) (sub : Option (Evaluator Key)) (threshold : Nat) :
    List (MetaPermission Key) → Nat → CheckState → Bool × CheckState
  | [], _, st => (false, st)
  | p :: ps, total, st =>
    let r := visit ck sub p total st
    if threshold ≤ r.1 then (true, r.2) else tally ck sub threshold ps r.1 r.2

/-- The `KeyReverter`: a failed authority gives back the keys it marked used. -/
def keyReverter (saved : List Bool) : Bool × CheckState → Bool × CheckState
  | (true, st) => (true, st)
  | (false, st) => (false, { st with usedKeys := saved })

/-- `satisfied(authority, cached_permissions, depth)`, at `fuel = recursion_depth_limit - depth`. -/
def satisfiedAuthority (ck : AuthorityChecker Key) : Nat → Evaluator Key
  | 0, auth, st => keyReverter st.usedKeys (tally ck none auth.threshold (metaPermissions auth) 0 st)
  | f + 1, auth, st =>
    keyReverter st.usedKeys (tally ck (some (satisfiedAuthority ck f)) auth.threshold (metaPermissions auth) 0 st)

/-- The evaluator a visitor with `fuel` may call. -/
def subEvaluator (ck : AuthorityChecker Key) : Nat → Option (Evaluator Key)
  | 0 => none
  | f + 1 => some (satisfiedAuthority ck f)

theorem satisfiedAuthority_eq (ck : AuthorityChecker Key) (f : Nat) (auth : Authority Key) (st : CheckState) :
    satisfiedAuthority ck f auth st =
      keyReverter st.usedKeys (tally ck (subEvaluator ck f) auth.threshold (metaPermissions auth) 0 st) := by
  cases f <;> rfl

/-- `authority_checker::satisfied(const permission_level&)`: a fresh cache, and the visitor at depth 0 on
`permission_level_weight{permission, 1}`. Returns the verdict and the new `_used_keys`. -/
def satisfied (ck : AuthorityChecker Key) (level : PermissionLevel) (usedKeys : List Bool) : Bool × List Bool :=
  let r := visitLevel ck (subEvaluator ck ck.recursionDepthLimit) ⟨level, 1⟩ 0 ⟨initializePermissionCache ck, usedKeys⟩
  (decide (0 < r.1), r.2.usedKeys)

/-- `used_keys()`: the provided keys marked used (a sorted set, as the provided keys are). -/
def usedKeys (ck : AuthorityChecker Key) (used : List Bool) : List Key :=
  (ck.providedKeys.zip used).filterMap fun p => if p.2 then some p.1 else none

/-- `all_keys_used()`. -/
def allKeysUsed (used : List Bool) : Bool := used.all id

/-! ## Required keys -/

/-- The part of an `action` that authorization reads. -/
structure Action where
  authorization : List PermissionLevel

/-- The part of a `transaction` that authorization reads. -/
structure Transaction where
  actions : List Action

/-- The error of `get_required_keys`. -/
inductive AuthorizationError
  /-- `unsatisfied_authorization`: `"transaction declares authority '${auth}', but does not have signatures for it."` -/
  | unsatisfiedAuthorization (auth : PermissionLevel)
  deriving DecidableEq, Repr

/-- `authorization_manager::get_permission(level).auth`: the functor `check_authorization` and `get_required_keys`
give the checker. A level with an empty actor or permission is an `invalid_permission`, rethrown as a
`permission_query_exception`; so is a level with no permission object. -/
def getPermissionAuthority (db : PermissionLevel → Option (Authority Key)) (level : PermissionLevel) :
    Option (Authority Key) :=
  if level.actor.empty || level.permission.empty then none else db level

/-- The loop of `get_required_keys`: every declared authorization must be satisfied, in order, by one checker. -/
def requireAll (ck : AuthorityChecker Key) : List PermissionLevel → List Bool → Except AuthorizationError (List Bool)
  | [], used => .ok used
  | a :: as, used =>
    if (satisfied ck a used).1 then requireAll ck as (satisfied ck a used).2 else .error (.unsatisfiedAuthorization a)

/-- `authorization_manager::get_required_keys`: no provided permissions, and the keys the checker used. -/
def getRequiredKeys (db : PermissionLevel → Option (Authority Key)) (maxAuthorityDepth : Nat) (trx : Transaction)
    (candidateKeys : List Key) (providedDelay : Int) : Except AuthorizationError (List Key) :=
  let ck := makeAuthChecker (getPermissionAuthority db) maxAuthorityDepth candidateKeys [] providedDelay
  (requireAll ck (trx.actions.flatMap (·.authorization)) (List.replicate candidateKeys.length false)).map (usedKeys ck)

/-- `alice@active` delegates to `bob@active` and `carol@active`; `bob@active` needs key `2` and `dave@active`,
`carol@active` only `dave@active`, and `dave@active` is key `1`. -/
def sharedDelegation : PermissionLevel → Option (Authority Nat) := fun q =>
  if q = ⟨N "alice", activeName⟩ then
    some ⟨1, [], [⟨⟨N "bob", activeName⟩, 1⟩, ⟨⟨N "carol", activeName⟩, 1⟩], []⟩
  else if q = ⟨N "bob", activeName⟩ then some ⟨2, [⟨2, 1⟩], [⟨⟨N "dave", activeName⟩, 1⟩], []⟩
  else if q = ⟨N "carol", activeName⟩ then some ⟨1, [], [⟨⟨N "dave", activeName⟩, 1⟩], []⟩
  else if q = ⟨N "dave", activeName⟩ then some ⟨1, [⟨1, 1⟩], [], []⟩
  else none

/-- With key `1` offered, `bob@active` is evaluated first: it caches `dave@active` as satisfied, fails, and its
`KeyReverter` unmarks key `1`; `carol@active` then succeeds through the cached `dave@active`. The required keys
come back empty, and no key at all does not satisfy `alice@active`. -/
theorem getRequiredKeys_drops_cached_key :
    getRequiredKeys sharedDelegation 6 ⟨[⟨[⟨N "alice", activeName⟩]⟩]⟩ [1] 0 = .ok [] ∧
      (satisfied (makeAuthChecker (getPermissionAuthority sharedDelegation) 6 [] [] 0) ⟨N "alice", activeName⟩
        []).1 = false := by
  decide

/-! ## What a verdict means -/

section Semantics

open Classical in
/-- The weight an authority collects from its keys in `K`, its waits within the delay `d` and its accounts whose
level is in `S`. -/
noncomputable def grantedWeight (K : List Key) (d : Int) (S : Set PermissionLevel) (a : Authority Key) : Nat :=
  (a.keys.map fun k => if k.key ∈ K then k.weight else 0).sum +
    (a.waits.map fun w => if seconds w.waitSec ≤ d then w.weight else 0).sum +
    (a.accounts.map fun e => if e.permission ∈ S then e.weight else 0).sum

theorem grantedWeight_mono {K : List Key} {d : Int} {S T : Set PermissionLevel} (h : S ⊆ T) (a : Authority Key) :
    grantedWeight K d S a ≤ grantedWeight K d T a := by
  unfold grantedWeight
  refine Nat.add_le_add_left (List.sum_le_sum fun e _ => ?_) _
  split_ifs with hS hT
  · exact le_rfl
  · exact absurd (h hS) hT
  · exact Nat.zero_le _
  · exact le_rfl

variable (db : PermissionLevel → Option (Authority Key)) (K : List Key) (P : List PermissionLevel) (d : Int)

/-- One round of satisfaction: a provided level, a level whose wildcard `(actor, "")` is provided, or a level
whose authority in `db` collects its threshold when the levels in `S` are satisfied. -/
noncomputable def satStep : Set PermissionLevel →o Set PermissionLevel where
  toFun S := {q | q ∈ P ∨ ⟨q.actor, emptyName⟩ ∈ P ∨ ∃ a, db q = some a ∧ a.threshold ≤ grantedWeight K d S a}
  monotone' S T hST q hq := by
    rcases hq with h | h | ⟨a, ha, hw⟩
    · exact .inl h
    · exact .inr (.inl h)
    · exact .inr (.inr ⟨a, ha, hw.trans (grantedWeight_mono hST a)⟩)

/-- **The satisfied levels**: the least fixpoint of `satStep`, so every member has a finite justification. -/
noncomputable def Sat : Set PermissionLevel := OrderHom.lfp (satStep db K P d)

variable {db K P d}

theorem mem_sat {q : PermissionLevel} (h : q ∈ satStep db K P d (Sat db K P d)) : q ∈ Sat db K P d := by
  rw [Sat, ← OrderHom.map_lfp]
  exact h

end Semantics

/-! ## Soundness -/

section Soundness

/-- The levels the checker's provided keys, permissions and delay satisfy over `db`. -/
noncomputable def AuthorityChecker.sat (ck : AuthorityChecker Key) (db : PermissionLevel → Option (Authority Key)) :
    Set PermissionLevel :=
  Sat db ck.providedKeys ck.providedPermissions ck.providedDelay

/-- The checker reads `db` the way `get_permission` does: what it finds is in `db`, and it finds no wildcard. -/
structure AuthorityChecker.ReadsDb (ck : AuthorityChecker Key) (db : PermissionLevel → Option (Authority Key)) :
    Prop where
  found : ∀ q a, ck.permissionToAuthority q = some a → db q = some a
  noWildcard : ∀ x, ck.permissionToAuthority ⟨x, emptyName⟩ = none

omit [DecidableEq Key] in
theorem getPermissionAuthority_readsDb (db : PermissionLevel → Option (Authority Key)) (L : Nat) (K : List Key)
    (P : List PermissionLevel) (d : Int) :
    (makeAuthChecker (getPermissionAuthority db) L K P d).ReadsDb (getPermissionAuthority db) where
  found _ _ h := h
  noWildcard x := by simp [makeAuthChecker, getPermissionAuthority, emptyName, Name.empty]

variable {ck : AuthorityChecker Key} {db : PermissionLevel → Option (Authority Key)}

/-- Every level the cache holds as satisfied is in `S`, and a wildcard held as satisfied was provided. -/
def CacheSound (ck : AuthorityChecker Key) (S : Set PermissionLevel) (cache : PermissionCache) : Prop :=
  ∀ q, cache q = some .permissionSatisfied → q ∈ S ∧ (q.permission = emptyName → q ∈ ck.providedPermissions)

/-- An evaluator that keeps the cache sound and whose every `true` is justified by `S`. -/
def SoundEval (ck : AuthorityChecker Key) (S : Set PermissionLevel) (eval : Evaluator Key) : Prop :=
  ∀ a st, CacheSound ck S st.cache →
    CacheSound ck S (eval a st).2.cache ∧
      ((eval a st).1 = true → a.threshold ≤ grantedWeight ck.providedKeys ck.providedDelay S a)

theorem cacheSound_initialize : CacheSound ck (ck.sat db) (initializePermissionCache ck) := by
  intro q hq
  simp only [initializePermissionCache] at hq
  split_ifs at hq with hP
  exact ⟨mem_sat (.inl hP), fun _ => hP⟩

omit [DecidableEq Key] in
theorem cacheSound_update_of_ne {S : Set PermissionLevel} {cache : PermissionCache} (hc : CacheSound ck S cache)
    (q : PermissionLevel) {s : CacheStatus} (hs : s ≠ .permissionSatisfied) :
    CacheSound ck S (Function.update cache q (some s)) := by
  intro q' hq'
  by_cases h : q' = q
  · subst h
    simp only [Function.update_self, Option.some.injEq] at hq'
    exact absurd hq' hs
  · rw [Function.update_of_ne h] at hq'
    exact hc q' hq'

omit [DecidableEq Key] in
theorem cacheSound_update_satisfied {S : Set PermissionLevel} {cache : PermissionCache} (hc : CacheSound ck S cache)
    {q : PermissionLevel} (hq : q ∈ S) (hne : q.permission ≠ emptyName) :
    CacheSound ck S (Function.update cache q (some .permissionSatisfied)) := by
  intro q' hq'
  by_cases h : q' = q
  · subst h
    exact ⟨hq, fun he => absurd he hne⟩
  · rw [Function.update_of_ne h] at hq'
    exact hc q' hq'

/-- A level the cache lookup finds satisfied, itself or through its wildcard, is satisfied. -/
theorem mem_sat_of_lookup {cache : PermissionCache} (hc : CacheSound ck (ck.sat db) cache) {q : PermissionLevel}
    (h : permissionStatusInCache cache q = some .permissionSatisfied) : q ∈ ck.sat db := by
  unfold permissionStatusInCache at h
  cases hq : cache q with
  | some s =>
    rw [hq, Option.some_or] at h
    rw [h] at hq
    exact (hc q hq).1
  | none =>
    rw [hq, Option.none_or] at h
    exact mem_sat (.inr (.inl ((hc _ h).2 rfl)))

theorem addWeight_le (total weight : Nat) : addWeight total weight ≤ total + weight := Nat.mod_le _ _

omit [DecidableEq Key] in
@[simp] theorem keyReverter_fst (saved : List Bool) (r : Bool × CheckState) : (keyReverter saved r).1 = r.1 := by
  obtain ⟨b, st⟩ := r
  cases b <;> rfl

omit [DecidableEq Key] in
@[simp] theorem keyReverter_cache (saved : List Bool) (r : Bool × CheckState) :
    (keyReverter saved r).2.cache = r.2.cache := by
  obtain ⟨b, st⟩ := r
  cases b <;> rfl

open Classical in
/-- The weight a meta permission can contribute when the levels in `S` are satisfied. -/
noncomputable def MetaPermission.grant (K : List Key) (d : Int) (S : Set PermissionLevel) : MetaPermission Key → Nat
  | .level p => if p.permission ∈ S then p.weight else 0
  | .key k => if k.key ∈ K then k.weight else 0
  | .wait w => if seconds w.waitSec ≤ d then w.weight else 0

/-- Sorting does not change what the meta permissions of an authority can contribute. -/
theorem sum_grant_metaPermissions (K : List Key) (d : Int) (S : Set PermissionLevel) (a : Authority Key) :
    ((metaPermissions a).map (MetaPermission.grant K d S)).sum = grantedWeight K d S a := by
  classical
  rw [metaPermissions, ((List.perm_insertionSort _ _).map _).sum_eq]
  simp only [List.map_append, List.sum_append, List.map_map, grantedWeight]
  have hw : (MetaPermission.grant K d S ∘ MetaPermission.wait) =
      fun w => if seconds w.waitSec ≤ d then w.weight else 0 := rfl
  have hk : (MetaPermission.grant K d S ∘ MetaPermission.key) = fun k => if k.key ∈ K then k.weight else 0 := rfl
  have hl : (MetaPermission.grant K d S ∘ MetaPermission.level) =
      fun e => if e.permission ∈ S then e.weight else 0 := rfl
  rw [hw, hk, hl]
  omega

/-- Every evaluator a visitor may call is sound. -/
def SubSound (ck : AuthorityChecker Key) (S : Set PermissionLevel) (sub : Option (Evaluator Key)) : Prop :=
  ∀ eval, sub = some eval → SoundEval ck S eval

/-- **Step lemma for an account entry.** The visitor keeps the cache sound and adds at most what the entry
can contribute: a level it counts is satisfied, whether it was found in the cache or just evaluated. -/
theorem visitLevel_sound (hdb : ck.ReadsDb db) {sub : Option (Evaluator Key)} (hsub : SubSound ck (ck.sat db) sub)
    (pw : PermissionLevelWeight) (total : Nat) {st : CheckState} (hc : CacheSound ck (ck.sat db) st.cache) :
    CacheSound ck (ck.sat db) (visitLevel ck sub pw total st).2.cache ∧
      (visitLevel ck sub pw total st).1 ≤
        total + (MetaPermission.level pw).grant ck.providedKeys ck.providedDelay (ck.sat db) := by
  unfold visitLevel
  split
  · split
    · exact ⟨hc, Nat.le_add_right _ _⟩
    · rename_i eval
      split
      · exact ⟨hc, Nat.le_add_right _ _⟩
      · rename_i auth hauth
        -- the sub-evaluation starts from the cache with the level marked `being_evaluated`
        have hmark := cacheSound_update_of_ne hc pw.permission (s := .beingEvaluated) (by decide)
        obtain ⟨hc', hthr⟩ :=
          hsub eval rfl auth { st with cache := Function.update st.cache pw.permission (some .beingEvaluated) } hmark
        dsimp only
        split
        · rename_i hr
          have hq : pw.permission ∈ ck.sat db := mem_sat (.inr (.inr ⟨auth, hdb.found _ _ hauth, hthr hr⟩))
          -- a level with an authority is no wildcard
          have hne : pw.permission.permission ≠ emptyName := by
            intro he
            have hnone := hdb.noWildcard pw.permission.actor
            rw [← he] at hnone
            rw [hnone] at hauth
            cases hauth
          refine ⟨cacheSound_update_satisfied hc' hq hne, ?_⟩
          simpa [MetaPermission.grant, hq] using addWeight_le total pw.weight
        · exact ⟨cacheSound_update_of_ne hc' _ (by decide), Nat.le_add_right _ _⟩
  · rename_i h
    have hq := mem_sat_of_lookup hc h
    exact ⟨hc, by simpa [MetaPermission.grant, hq] using addWeight_le total pw.weight⟩
  · exact ⟨hc, Nat.le_add_right _ _⟩

/-- **Step lemma of the tally.** -/
theorem visit_sound (hdb : ck.ReadsDb db) {sub : Option (Evaluator Key)} (hsub : SubSound ck (ck.sat db) sub)
    (p : MetaPermission Key) (total : Nat) {st : CheckState} (hc : CacheSound ck (ck.sat db) st.cache) :
    CacheSound ck (ck.sat db) (visit ck sub p total st).2.cache ∧
      (visit ck sub p total st).1 ≤ total + p.grant ck.providedKeys ck.providedDelay (ck.sat db) := by
  cases p with
  | level pw => exact visitLevel_sound hdb hsub pw total hc
  | key k =>
    refine ⟨hc, ?_⟩
    simp only [visit, visitKey]
    split
    · rename_i i hi
      have hk : k.key ∈ ck.providedKeys := by
        by_contra hn
        rw [List.idxOf?_eq_none_iff.mpr hn] at hi
        cases hi
      simpa [MetaPermission.grant, hk] using addWeight_le total k.weight
    · exact Nat.le_add_right _ _
  | wait w =>
    refine ⟨hc, ?_⟩
    simp only [visit, visitWait]
    split
    · rename_i hw
      simpa [MetaPermission.grant, hw] using addWeight_le total w.weight
    · exact Nat.le_add_right _ _

/-- **Run lemma of the tally**, by induction on the meta permissions left: a tally that reaches the threshold
reaches it with weight its entries can contribute. -/
theorem tally_sound (hdb : ck.ReadsDb db) {sub : Option (Evaluator Key)} (hsub : SubSound ck (ck.sat db) sub)
    (threshold : Nat) :
    ∀ (ps : List (MetaPermission Key)) (total : Nat) (st : CheckState), CacheSound ck (ck.sat db) st.cache →
      CacheSound ck (ck.sat db) (tally ck sub threshold ps total st).2.cache ∧
        ((tally ck sub threshold ps total st).1 = true →
          threshold ≤ total + (ps.map (MetaPermission.grant ck.providedKeys ck.providedDelay (ck.sat db))).sum)
  | [], _, _, hc => ⟨hc, by simp [tally]⟩
  | p :: ps, total, st, hc => by
    obtain ⟨hc', hle⟩ := visit_sound hdb hsub p total hc
    simp only [tally, List.map_cons, List.sum_cons]
    split
    · exact ⟨hc', fun _ => by omega⟩
    · obtain ⟨hc'', hrest⟩ := tally_sound hdb hsub threshold ps _ _ hc'
      exact ⟨hc'', fun ht => by have := hrest ht; omega⟩

/-- Every evaluator of the recursion is sound, by induction on the fuel. -/
theorem subEvaluator_sound (hdb : ck.ReadsDb db) : ∀ f, SubSound ck (ck.sat db) (subEvaluator ck f)
  | 0, _, h => nomatch h
  | f + 1, eval, h => by
    cases h
    intro auth st hc
    obtain ⟨hc', hthr⟩ :=
      tally_sound hdb (subEvaluator_sound hdb f) auth.threshold (metaPermissions auth) 0 st hc
    rw [satisfiedAuthority_eq, keyReverter_cache, keyReverter_fst]
    refine ⟨hc', fun ht => ?_⟩
    simpa [sum_grant_metaPermissions] using hthr ht

/-- **Soundness of `satisfied`.** -/
theorem satisfied_sound (hdb : ck.ReadsDb db) (level : PermissionLevel) (used : List Bool)
    (h : (satisfied ck level used).1 = true) : level ∈ ck.sat db := by
  have hc : CacheSound ck (ck.sat db) (CheckState.mk (initializePermissionCache ck) used).cache :=
    cacheSound_initialize
  obtain ⟨-, hle⟩ := visitLevel_sound hdb (subEvaluator_sound hdb ck.recursionDepthLimit) ⟨level, 1⟩ 0 hc
  simp only [satisfied, decide_eq_true_eq] at h
  by_contra hn
  simp only [MetaPermission.grant, hn, if_false] at hle
  omega

/-- **Authority soundness** of the checker that `check_authorization` and `get_required_keys` build: a level it
satisfies has a finite justification from the provided keys, permissions and delay, whatever the depth limit. -/
theorem satisfied_mem_sat (db : PermissionLevel → Option (Authority Key)) (L : Nat) (K : List Key)
    (P : List PermissionLevel) (d : Int) (level : PermissionLevel) (used : List Bool)
    (h : (satisfied (makeAuthChecker (getPermissionAuthority db) L K P d) level used).1 = true) :
    level ∈ Sat (getPermissionAuthority db) K P d :=
  satisfied_sound (getPermissionAuthority_readsDb db L K P d) level used h

theorem sharedDelegation_alice_sat :
    (satisfied (makeAuthChecker (getPermissionAuthority sharedDelegation) 6 [1] [] 0) ⟨N "alice", activeName⟩
        [false]).1 = true ∧
      ⟨N "alice", activeName⟩ ∈ Sat (getPermissionAuthority sharedDelegation) [1] [] 0 :=
  ⟨by decide, satisfied_mem_sat sharedDelegation 6 [1] [] 0 ⟨N "alice", activeName⟩ [false] (by decide)⟩

end Soundness

/-! ## The uncached, depth-bounded reading -/

section Depth

/-- The weight an authority collects from its keys in `K`, its waits within the delay `d`, and its accounts whose
level `sat` holds. -/
def collectedWeight (K : List Key) (d : Int) (sat : PermissionLevel → Bool) (a : Authority Key) : Nat :=
  (a.keys.map fun k => if k.key ∈ K then k.weight else 0).sum +
    (a.waits.map fun w => if seconds w.waitSec ≤ d then w.weight else 0).sum +
    (a.accounts.map fun e => if sat e.permission then e.weight else 0).sum

/-- The verdict without a cache, at `fuel = recursion_depth_limit - depth`: a level is satisfied when it or its
wildcard `(actor, "")` is provided, or, with fuel left, when its authority collects its threshold from its keys, its
waits and its accounts satisfied with one fuel less. -/
def satDepth (db : PermissionLevel → Option (Authority Key)) (K : List Key) (P : List PermissionLevel) (d : Int) :
    Nat → PermissionLevel → Bool
  | 0, q => decide (q ∈ P ∨ ⟨q.actor, emptyName⟩ ∈ P)
  | f + 1, q => decide (q ∈ P ∨ ⟨q.actor, emptyName⟩ ∈ P) ||
      match db q with
      | some a => decide (a.threshold ≤ collectedWeight K d (satDepth db K P d f) a)
      | none => false

theorem collectedWeight_le_grantedWeight {K : List Key} {d : Int} {sat : PermissionLevel → Bool}
    {S : Set PermissionLevel} (h : ∀ q, sat q = true → q ∈ S) (a : Authority Key) :
    collectedWeight K d sat a ≤ grantedWeight K d S a := by
  classical
  unfold collectedWeight grantedWeight
  refine Nat.add_le_add_left (List.sum_le_sum fun e _ => ?_) _
  by_cases hs : sat e.permission = true
  · simp [hs, h _ hs]
  · simp [hs]

/-- The depth-bounded verdict is sound too: what it satisfies has a finite justification. -/
theorem satDepth_sound {db : PermissionLevel → Option (Authority Key)} {K : List Key} {P : List PermissionLevel}
    {d : Int} : ∀ (f : Nat) (q : PermissionLevel), satDepth db K P d f q = true → q ∈ Sat db K P d
  | 0, q, h => by
    simp only [satDepth, decide_eq_true_eq] at h
    exact mem_sat (h.elim .inl (.inr ∘ .inl))
  | f + 1, q, h => by
    simp only [satDepth, Bool.or_eq_true, decide_eq_true_eq] at h
    rcases h with hP | h
    · exact mem_sat (hP.elim .inl (.inr ∘ .inl))
    · split at h
      · rename_i a ha
        rw [decide_eq_true_eq] at h
        exact mem_sat (.inr (.inr ⟨a, ha, h.trans (collectedWeight_le_grantedWeight (satDepth_sound f) a)⟩))
      · cases h

/-- `alice@active` takes `bob@active` with weight `wBob` or `carol@active` with weight `wCarol`; `bob@active` takes
`carol@active`, which takes `dave@active`, which is key `1`. -/
def reachOrder (wBob wCarol : Nat) : PermissionLevel → Option (Authority Nat) := fun q =>
  if q = ⟨N "alice", activeName⟩ then
    some ⟨1, [], [⟨⟨N "bob", activeName⟩, wBob⟩, ⟨⟨N "carol", activeName⟩, wCarol⟩], []⟩
  else if q = ⟨N "bob", activeName⟩ then some ⟨1, [], [⟨⟨N "carol", activeName⟩, 1⟩], []⟩
  else if q = ⟨N "carol", activeName⟩ then some ⟨1, [], [⟨⟨N "dave", activeName⟩, 1⟩], []⟩
  else if q = ⟨N "dave", activeName⟩ then some ⟨1, [⟨1, 1⟩], [], []⟩
  else none

/-- `alice@active` needs `dave@active` (weight 2) and `bob@active`, which takes `dave@active`, which is key `1`. -/
def shallowReuse : PermissionLevel → Option (Authority Nat) := fun q =>
  if q = ⟨N "alice", activeName⟩ then
    some ⟨3, [], [⟨⟨N "dave", activeName⟩, 2⟩, ⟨⟨N "bob", activeName⟩, 1⟩], []⟩
  else if q = ⟨N "bob", activeName⟩ then some ⟨1, [], [⟨⟨N "dave", activeName⟩, 1⟩], []⟩
  else if q = ⟨N "dave", activeName⟩ then some ⟨1, [⟨1, 1⟩], [], []⟩
  else none

/-- **The cached verdict is not the depth-bounded one.** With the depth limit 3 and key `1`, `bob@active` comes first
when it weighs more: it reaches `carol@active` at depth 2, where `dave@active` lies past the limit, and caches it
unsatisfied, so `alice@active` fails; with `carol@active` first, it succeeds; without a cache it succeeds at depth 1
either way. With the limit 2, `dave@active` cached satisfied at depth 1 is reused at depth 2, past the limit, where
the uncached reading does not reach it. -/
theorem satisfied_depends_on_first_reach :
    (satisfied (makeAuthChecker (reachOrder 2 1) 3 [1] [] 0) ⟨N "alice", activeName⟩ [false]).1 = false ∧
      (satisfied (makeAuthChecker (reachOrder 1 2) 3 [1] [] 0) ⟨N "alice", activeName⟩ [false]).1 = true ∧
      satDepth (reachOrder 2 1) [1] [] 0 3 ⟨N "alice", activeName⟩ = true ∧
      (satisfied (makeAuthChecker shallowReuse 2 [1] [] 0) ⟨N "alice", activeName⟩ [false]).1 = true ∧
      satDepth shallowReuse [1] [] 0 2 ⟨N "alice", activeName⟩ = false := by
  decide

end Depth

end Gstio.Chain
