import Gstio.Chain.ResourceLimits
import Gstio.Chain.Authority

/-!
# The totals of the resource limits

`Consistent` is the invariant of the limit tables: the `(pending, owner)` keys are unique, every pending row has
a committed row of its owner, and each total of `resource_limits_state_object` is the sum of the committed values
(`max(0, v)` of each committed row) and fits a `uint64_t`.

* `Consistent.initializeAccount`, `Consistent.setAccountLimits`: the calls that add or change a row keep it;
* `processPending_spec`: one pass of `process_account_limit_updates` is the update of the totals, followed by a
  `modify` and a `remove` that cannot throw;
* `processLoop_error`, `processLoop_ok`, `processLoop_returns`: the loop throws nothing but an overflow, ends with
  no pending row, and returns when the values of all rows, pending or not, sum within a `uint64_t`;
* `Consistent.run`: every reachable state is consistent.
-/

namespace Gstio.Chain.ResourceLimits

open Chainbase

/-- The committed value of a row: `max(0, v)` for a committed row, nothing for a pending one. -/
def committedValue (r : Resource) (o : ResourceLimitsObject) : Nat := if o.pending then 0 else (r.limit o).toNat

/-- The sum of the committed values. -/
def committedSum (idx : OrdMap Nat ResourceLimitsObject) (r : Resource) : Nat :=
  idx.sumBy fun _ o => committedValue r o

/-- The sum of `max(0, v)` over all the rows, pending or not. -/
def limitSum (idx : OrdMap Nat ResourceLimitsObject) (r : Resource) : Nat := idx.sumBy fun _ o => (r.limit o).toNat

/-- The number of pending rows. -/
def pendingCount (idx : OrdMap Nat ResourceLimitsObject) : Nat := idx.sumBy fun _ o => if o.pending then 1 else 0

/-- A committed row of `owner`. -/
def Backed (idx : OrdMap Nat ResourceLimitsObject) (owner : Name) : Prop :=
  ∃ id c, idx.find? id = some c ∧ c.pending = false ∧ c.owner = owner

/-- The invariant of the limit tables. -/
structure Consistent (rl : ResourceLimitsManager) : Prop where
  unique : UniqueKeys resourceLimitsIndex rl.limits.indices
  backed : ∀ id p, rl.limits.indices.find? id = some p → p.pending = true → Backed rl.limits.indices p.owner
  total : ∀ r : Resource, r.total rl.state = committedSum rl.limits.indices r
  bounded : ∀ r : Resource, r.total rl.state ≤ uint64Max

/-! ## Sums -/

@[simp] theorem committedValue_of_pending {r : Resource} {o : ResourceLimitsObject} (h : o.pending = true) :
    committedValue r o = 0 := by
  simp [committedValue, h]

@[simp] theorem committedValue_of_committed {r : Resource} {o : ResourceLimitsObject} (h : o.pending = false) :
    committedValue r o = (r.limit o).toNat := by
  simp [committedValue, h]

theorem committedValue_le (r : Resource) (o : ResourceLimitsObject) : committedValue r o ≤ (r.limit o).toNat := by
  unfold committedValue
  split <;> omega

theorem committedSum_le_limitSum (idx : OrdMap Nat ResourceLimitsObject) (r : Resource) :
    committedSum idx r ≤ limitSum idx r :=
  OrdMap.sumBy_le_sumBy (fun _ o => committedValue_le r o) idx

/-- A committed row's value is part of the total. -/
theorem Consistent.limit_le_total {rl : ResourceLimitsManager} (h : Consistent rl) {id : Nat}
    {c : ResourceLimitsObject} (hc : rl.limits.indices.find? id = some c) (hcommitted : c.pending = false)
    (r : Resource) : (r.limit c).toNat ≤ r.total rl.state := by
  have hsum := OrdMap.sumBy_erase (fun _ o => committedValue r o) hc
  rw [h.total r, committedSum, hsum, committedValue_of_committed hcommitted]
  omega

theorem pendingCount_eq_zero_iff {idx : OrdMap Nat ResourceLimitsObject} :
    pendingCount idx = 0 ↔ ∀ id p, idx.find? id = some p → p.pending = false := by
  rw [pendingCount, OrdMap.sumBy_eq_zero_iff]
  refine forall_congr' fun id => forall_congr' fun p => imp_congr_right fun _ => ?_
  cases p.pending <;> simp

theorem pendingCount_le_length (idx : OrdMap Nat ResourceLimitsObject) : pendingCount idx ≤ idx.entries.length := by
  have hle : pendingCount idx ≤ idx.sumBy fun _ _ => 1 :=
    OrdMap.sumBy_le_sumBy (fun _ o => by split <;> omega) idx
  simpa [OrdMap.sumBy] using hle

/-! ## The calls that add or change a row -/

theorem Backed.insert {idx : OrdMap Nat ResourceLimitsObject} {owner : Name} (h : Backed idx owner)
    {k : Nat} (v : ResourceLimitsObject) : Backed (idx.insert k v) owner := by
  obtain ⟨id, c, hc, hpend, hown⟩ := h
  exact ⟨id, c, OrdMap.find?_insert_eq_some.mpr (.inl hc), hpend, hown⟩

/-- A fresh row without a committed value keeps the invariant, when it is backed if pending. -/
theorem Consistent.insert {rl : ResourceLimitsManager} (h : Consistent rl) {limits : GenericIndex ResourceLimitsObject}
    {k : Nat} {v : ResourceLimitsObject} (hfresh : rl.limits.indices.find? k = none)
    (hidx : limits.indices = rl.limits.indices.insert k v) (hunique : UniqueKeys resourceLimitsIndex limits.indices)
    (hzero : ∀ r, committedValue r v = 0) (hbacked : v.pending = true → Backed rl.limits.indices v.owner) :
    Consistent { rl with limits } := by
  refine ⟨hunique, fun id p hp hpend => ?_, fun r => ?_, h.bounded⟩
  · simp only [hidx] at hp ⊢
    rcases OrdMap.find?_insert_eq_some.mp hp with hp | ⟨-, -, rfl⟩
    · exact (h.backed id p hp hpend).insert v
    · exact (hbacked hpend).insert _
  · simp only [hidx, committedSum]
    rw [OrdMap.sumBy_insert _ hfresh, hzero r, Nat.zero_add]
    exact h.total r

theorem Consistent.initializeAccount {rl rl' : ResourceLimitsManager} (h : Consistent rl) {account : Name}
    (hok : initializeAccount rl account = .ok rl') : Consistent rl' := by
  obtain ⟨hem, rfl⟩ := initializeAccount_eq_ok hok
  obtain ⟨hfresh, heq⟩ := GenericIndex.emplace_ok resourceLimitsIndex hem
  refine h.insert hfresh (by rw [heq, GenericIndex.indices_onHead]) (h.unique.emplace hem) (fun r => ?_)
    (fun hpend => by cases hpend)
  cases r <;> rfl

theorem Consistent.findOrCreatePendingLimits {rl : ResourceLimitsManager} (h : Consistent rl) {account : Name}
    {limits : GenericIndex ResourceLimitsObject} {id : Nat} {p : ResourceLimitsObject}
    (hok : findOrCreatePendingLimits rl.limits account = .ok (limits, id, p)) :
    Consistent { rl with limits } ∧ limits.indices.find? id = some p ∧ p.pending = true := by
  rcases findOrCreatePendingLimits_eq_ok hok with ⟨hfind, rfl⟩ | ⟨-, cid, c, hget, hp, rfl, hem, rfl⟩
  · obtain ⟨hp, hpend, -⟩ := findLimits_eq_some hfind
    exact ⟨h, hp, hpend⟩
  · obtain ⟨hc, hcommitted, -⟩ := getLimits_eq_ok hget
    obtain ⟨hfresh, heq⟩ := GenericIndex.emplace_ok resourceLimitsIndex hem
    have hpend : p.pending = true := by rw [hp]
    have hidx : (rl.limits.emplace resourceLimitsIndex p).1.indices = rl.limits.indices.insert rl.limits.nextId p := by
      rw [heq, GenericIndex.indices_onHead]
    refine ⟨h.insert hfresh hidx (h.unique.emplace hem) (fun r => committedValue_of_pending hpend)
      (fun _ => ⟨cid, c, hc, hcommitted, by rw [hp]⟩), by simp [hidx, hfresh], hpend⟩

/-- A pending row that takes a new value, still pending and of the same owner, keeps the invariant. -/
theorem Consistent.setPending {rl : ResourceLimitsManager} (h : Consistent rl) {limits : GenericIndex ResourceLimitsObject}
    {id : Nat} {v w : ResourceLimitsObject} (hv : rl.limits.indices.find? id = some v) (hvpend : v.pending = true)
    (hidx : limits.indices = (rl.limits.indices.erase id).insert id w) (hwpend : w.pending = true)
    (hown : w.owner = v.owner) (hunique : UniqueKeys resourceLimitsIndex limits.indices) :
    Consistent { rl with limits } := by
  -- a committed row is not at `id`, so it stays
  have hkeep : ∀ {owner}, Backed rl.limits.indices owner → Backed limits.indices owner := by
    rintro owner ⟨y, c, hc, hcommitted, hcown⟩
    have hy : y ≠ id := by
      rintro rfl
      rw [hv, Option.some_inj] at hc
      rw [← hc, hvpend] at hcommitted
      cases hcommitted
    exact ⟨y, c, by simp [hidx, hy, hc], hcommitted, hcown⟩
  refine ⟨hunique, fun x p hp hpend => ?_, fun r => ?_, h.bounded⟩
  · simp only [hidx] at hp
    by_cases hx : x = id
    · subst hx
      simp at hp
      rw [← hp, hown]
      exact hkeep (h.backed x v hv hvpend)
    · simp [hx] at hp
      exact hkeep (h.backed x p hp hpend)
  · have hset := OrdMap.sumBy_set (fun _ o => committedValue r o) hv w
    simp only [committedSum, hidx]
    rw [h.total r, committedSum, committedValue_of_pending hvpend, committedValue_of_pending hwpend] at *
    omega

theorem Consistent.setAccountLimits {rl rl' : ResourceLimitsManager} (h : Consistent rl) {account : Name}
    {ramBytes netWeight cpuWeight : Int} {decreasedLimit : Bool}
    (hok : setAccountLimits rl account ramBytes netWeight cpuWeight = .ok (rl', decreasedLimit)) :
    Consistent rl' := by
  obtain ⟨limits, id, p, hfind, hmod, rfl⟩ := setAccountLimits_eq_ok hok
  obtain ⟨h₁, hp, hpend⟩ := h.findOrCreatePendingLimits hfind
  obtain ⟨v, hv, heq⟩ := GenericIndex.modify_ok resourceLimitsIndex hmod
  rw [hp, Option.some_inj] at hv
  subst hv
  have hidx : (limits.modify resourceLimitsIndex id fun pendingLimits =>
      { pendingLimits with ramBytes, netWeight, cpuWeight }).1.indices =
      (limits.indices.erase id).insert id { p with ramBytes, netWeight, cpuWeight } := by
    rw [heq]
  exact h₁.setPending hp hpend hidx hpend rfl (h₁.unique.modify hmod)

/-! ## One pass of the loop -/

section Pass

variable {idx idx' : OrdMap Nat ResourceLimitsObject} {aid id : Nat} {a p : ResourceLimitsObject}

/-- The pass moves the committed sum by the difference of the two rows' values. -/
theorem committedSum_pass (ha : idx.find? aid = some a) (hapend : a.pending = false) (hp : idx.find? id = some p)
    (hpend : p.pending = true) (hne : aid ≠ id)
    (hidx : idx' = ((idx.erase aid).insert aid (commitPending p a)).erase id) (r : Resource) :
    committedSum idx' r + (r.limit a).toNat = committedSum idx r + (r.limit p).toNat := by
  have hs := OrdMap.sumBy_set_erase (fun _ o => committedValue r o) ha hp hne (commitPending p a)
  rw [← hidx, committedValue_of_committed hapend, committedValue_of_pending hpend,
    committedValue_of_committed (by rw [pending_commitPending, hapend]), Resource.limit_commitPending] at hs
  exact hs

/-- The pass takes the old value of the committed row out of the sum over all rows. -/
theorem limitSum_pass (ha : idx.find? aid = some a) (hp : idx.find? id = some p) (hne : aid ≠ id)
    (hidx : idx' = ((idx.erase aid).insert aid (commitPending p a)).erase id) (r : Resource) :
    limitSum idx' r + (r.limit a).toNat = limitSum idx r := by
  have hs := OrdMap.sumBy_set_erase (fun _ o => (r.limit o).toNat) ha hp hne (commitPending p a)
  rw [← hidx, Resource.limit_commitPending] at hs
  unfold limitSum
  omega

/-- The pass removes one pending row. -/
theorem pendingCount_pass (ha : idx.find? aid = some a) (hp : idx.find? id = some p) (hpend : p.pending = true)
    (hne : aid ≠ id) (hidx : idx' = ((idx.erase aid).insert aid (commitPending p a)).erase id) :
    pendingCount idx' + 1 = pendingCount idx := by
  have hs := OrdMap.sumBy_set_erase (fun _ o => if o.pending then 1 else 0) ha hp hne (commitPending p a)
  rw [← hidx, pending_commitPending, hpend] at hs
  unfold pendingCount
  simp only [if_true] at hs
  omega

end Pass

/-- A pass over a pending row of a consistent state: the committed row of its owner is found, the `modify` and the
`remove` cannot throw, and what is left is the update of the totals. -/
theorem processPending_spec {rl : ResourceLimitsManager} (h : Consistent rl) {id : Nat} {p : ResourceLimitsObject}
    (hp : rl.limits.indices.find? id = some p) (hpend : p.pending = true) :
    ∃ aid a limits, rl.limits.indices.find? aid = some a ∧ a.pending = false ∧ aid ≠ id ∧
      UniqueKeys resourceLimitsIndex limits.indices ∧
      limits.indices = ((rl.limits.indices.erase aid).insert aid (commitPending p a)).erase id ∧
      processPending rl id p = (updateTotals rl.state a p).map fun state => ⟨limits, state⟩ := by
  obtain ⟨y, c, hy, hcommitted, hcown⟩ := h.backed id p hp hpend
  obtain ⟨aid, a, hfind⟩ := findLimits_of_find? hy
  rw [hcommitted, hcown] at hfind
  obtain ⟨ha, hapend, -⟩ := findLimits_eq_some hfind
  have hne : aid ≠ id := by
    rintro rfl
    rw [hp, Option.some_inj] at ha
    rw [← ha, hpend] at hapend
    cases hapend
  have hmod : (rl.limits.modify resourceLimitsIndex aid (commitPending p)).2 = none :=
    modify_eq_none_of_keys h.unique ha (by simp [resourceLimitsIndex])
  obtain ⟨a', ha', hmodeq⟩ := GenericIndex.modify_ok resourceLimitsIndex hmod
  rw [ha, Option.some_inj] at ha'
  subst ha'
  have hp₁ : (rl.limits.modify resourceLimitsIndex aid (commitPending p)).1.indices.find? id = some p := by
    simp [hmodeq, hne.symm, hp]
  have hrem : ((rl.limits.modify resourceLimitsIndex aid (commitPending p)).1.remove id).2 = none := by
    simp [GenericIndex.remove, hp₁]
  obtain ⟨p', -, hremeq⟩ := GenericIndex.remove_ok hrem
  refine ⟨aid, a, _, ha, hapend, hne, (h.unique.modify hmod).remove hrem, by rw [hremeq, hmodeq], ?_⟩
  unfold processPending
  simp only [getLimits, hfind, liftTable_of_none hmod, liftTable_of_none hrem, bind, Except.bind]
  cases updateTotals rl.state a p <;> rfl

/-- **Step lemma.** A pass that returns keeps the invariant, removes one pending row and does not raise the sum
over all rows. -/
theorem Consistent.processPending {rl rl' : ResourceLimitsManager} (h : Consistent rl) {id : Nat}
    {p : ResourceLimitsObject} (hp : rl.limits.indices.find? id = some p) (hpend : p.pending = true)
    (hok : processPending rl id p = .ok rl') :
    Consistent rl' ∧ pendingCount rl'.limits.indices + 1 = pendingCount rl.limits.indices ∧
      ∀ r, limitSum rl'.limits.indices r ≤ limitSum rl.limits.indices r := by
  obtain ⟨aid, a, limits, ha, hapend, hne, hunique, hidx, heq⟩ := processPending_spec h hp hpend
  rw [heq, Except.map_eq_ok] at hok
  obtain ⟨state, hstate, rfl⟩ := hok
  have htotals := ((updateTotals_spec (h.limit_le_total ha hapend) h.bounded).1 state).mp hstate
  -- a pending row of the new table is one of the old ones, backed by a committed row that is still there
  have hbacked : ∀ x q, limits.indices.find? x = some q → q.pending = true → Backed limits.indices q.owner := by
    intro x q hq hqpend
    have hx : x ≠ aid := by
      rintro rfl
      simp [hidx, hne] at hq
      rw [← hq, pending_commitPending, hapend] at hqpend
      cases hqpend
    have hxid : x ≠ id := by
      rintro rfl
      simp [hidx] at hq
    simp [hidx, hx, hxid] at hq
    obtain ⟨y, c, hc, hcommitted, hcown⟩ := h.backed x q hq hqpend
    have hyid : y ≠ id := by
      rintro rfl
      rw [hp, Option.some_inj] at hc
      rw [← hc, hpend] at hcommitted
      cases hcommitted
    by_cases hy : y = aid
    · subst hy
      rw [ha, Option.some_inj] at hc
      subst hc
      exact ⟨y, commitPending p a, by simp [hidx, hne], hcommitted, hcown⟩
    · exact ⟨y, c, by simp [hidx, hy, hyid, hc], hcommitted, hcown⟩
  refine ⟨⟨hunique, hbacked, fun r => ?_, fun r => ?_⟩, pendingCount_pass ha hp hpend hne hidx, fun r => ?_⟩ <;>
    dsimp only
  · have hsum := committedSum_pass ha hapend hp hpend hne hidx r
    have hle := h.limit_le_total ha hapend r
    rw [(htotals r).2]
    rw [h.total r] at hle ⊢
    omega
  · rw [(htotals r).2]
    exact (htotals r).1
  · have hsum := limitSum_pass ha hp hne hidx r
    omega

theorem processPending_error {rl : ResourceLimitsManager} (h : Consistent rl) {id : Nat} {p : ResourceLimitsObject}
    (hp : rl.limits.indices.find? id = some p) (hpend : p.pending = true) {e : ResourceLimitsError}
    (he : processPending rl id p = .error e) : ∃ r : Resource, e = .overflow r.which := by
  obtain ⟨aid, a, limits, ha, hapend, -, -, -, heq⟩ := processPending_spec h hp hpend
  rw [heq] at he
  cases hu : updateTotals rl.state a p with
  | ok state =>
    rw [hu] at he
    cases he
  | error e' =>
    rw [hu] at he
    cases he
    exact (updateTotals_spec (h.limit_le_total ha hapend) h.bounded).2 _ hu

/-- A pass returns when the values of all rows sum within a `uint64_t`: the new totals are then committed sums of
rows of the table, which are at most that sum. -/
theorem processPending_returns {rl : ResourceLimitsManager} (h : Consistent rl) {id : Nat} {p : ResourceLimitsObject}
    (hp : rl.limits.indices.find? id = some p) (hpend : p.pending = true)
    (hbound : ∀ r, limitSum rl.limits.indices r ≤ uint64Max) : ∃ rl', processPending rl id p = .ok rl' := by
  obtain ⟨aid, a, limits, ha, hapend, hne, -, hidx, heq⟩ := processPending_spec h hp hpend
  have hfits : ∀ r : Resource, r.total rl.state - (r.limit a).toNat + (r.limit p).toNat ≤ uint64Max := by
    intro r
    have hc := committedSum_pass ha hapend hp hpend hne hidx r
    have hl := limitSum_pass ha hp hne hidx r
    have hle := committedSum_le_limitSum limits.indices r
    have hin := h.limit_le_total ha hapend r
    have hb := hbound r
    rw [h.total r] at hin ⊢
    omega
  obtain ⟨state, hstate⟩ : ∃ state : ResourceLimitsStateObject,
      ∀ r : Resource, r.total state = r.total rl.state - (r.limit a).toNat + (r.limit p).toNat :=
    ⟨⟨_, _, _⟩, fun r => by cases r <;> rfl⟩
  have hok := ((updateTotals_spec (h.limit_le_total ha hapend) h.bounded).1 state).mpr fun r => ⟨hfits r, hstate r⟩
  exact ⟨_, by rw [heq, hok]; rfl⟩

/-! ## The loop -/

/-- The loop throws nothing but an overflow. -/
theorem processLoop_error {e : ResourceLimitsError} (fuel : Nat) :
    ∀ {rl : ResourceLimitsManager}, Consistent rl → processLoop rl fuel = .error e →
      ∃ r : Resource, e = .overflow r.which := by
  induction fuel with
  | zero =>
    intro rl _ he
    cases he
  | succ fuel ih =>
    intro rl h he
    unfold processLoop at he
    cases hf : firstPending rl.limits.indices with
    | none =>
      simp only [hf] at he
      cases he
    | some q =>
      obtain ⟨id, p⟩ := q
      obtain ⟨hp, hpend⟩ := firstPending_eq_some hf
      simp only [hf] at he
      cases hpp : processPending rl id p with
      | error e' =>
        rw [hpp] at he
        cases he
        exact processPending_error h hp hpend hpp
      | ok rl₁ =>
        rw [hpp] at he
        exact ih (h.processPending hp hpend hpp).1 he

/-- **Run lemma.** With a pass for each pending row, a loop that returns leaves a consistent state with no pending
row. -/
theorem processLoop_ok (fuel : Nat) :
    ∀ {rl rl' : ResourceLimitsManager}, Consistent rl → pendingCount rl.limits.indices ≤ fuel →
      processLoop rl fuel = .ok rl' → Consistent rl' ∧ pendingCount rl'.limits.indices = 0 := by
  induction fuel with
  | zero =>
    intro rl rl' h hcount hok
    cases hok
    exact ⟨h, by omega⟩
  | succ fuel ih =>
    intro rl rl' h hcount hok
    unfold processLoop at hok
    cases hf : firstPending rl.limits.indices with
    | none =>
      simp only [hf] at hok
      cases hok
      exact ⟨h, pendingCount_eq_zero_iff.mpr fun _ _ hp => firstPending_eq_none hf hp⟩
    | some q =>
      obtain ⟨id, p⟩ := q
      obtain ⟨hp, hpend⟩ := firstPending_eq_some hf
      simp only [hf] at hok
      cases hpp : processPending rl id p with
      | error e =>
        rw [hpp] at hok
        cases hok
      | ok rl₁ =>
        rw [hpp] at hok
        obtain ⟨h₁, hcount₁, -⟩ := h.processPending hp hpend hpp
        exact ih h₁ (by omega) hok

/-- The loop returns when the values of all rows, pending or not, sum within a `uint64_t`. -/
theorem processLoop_returns (fuel : Nat) :
    ∀ {rl : ResourceLimitsManager}, Consistent rl → (∀ r, limitSum rl.limits.indices r ≤ uint64Max) →
      ∃ rl', processLoop rl fuel = .ok rl' := by
  induction fuel with
  | zero =>
    intro rl _ _
    exact ⟨rl, rfl⟩
  | succ fuel ih =>
    intro rl h hbound
    unfold processLoop
    cases hf : firstPending rl.limits.indices with
    | none => exact ⟨rl, rfl⟩
    | some q =>
      obtain ⟨id, p⟩ := q
      obtain ⟨hp, hpend⟩ := firstPending_eq_some hf
      obtain ⟨rl₁, hpp⟩ := processPending_returns h hp hpend hbound
      obtain ⟨h₁, -, hle⟩ := h.processPending hp hpend hpp
      obtain ⟨rl', hloop⟩ := ih h₁ fun r => Nat.le_trans (hle r) (hbound r)
      refine ⟨rl', ?_⟩
      simp only [hpp]
      exact hloop

theorem Consistent.processAccountLimitUpdates {rl rl' : ResourceLimitsManager} (h : Consistent rl)
    (hok : processAccountLimitUpdates rl = .ok rl') : Consistent rl' ∧ pendingCount rl'.limits.indices = 0 :=
  processLoop_ok _ h (pendingCount_le_length _) hok

/-! ## Runs -/

theorem Consistent.apply {a : ResourceAction} {rl rl' : ResourceLimitsManager} (h : Consistent rl)
    (hok : a.apply rl = .ok rl') : Consistent rl' := by
  cases a with
  | initializeAccount account => exact h.initializeAccount hok
  | setAccountLimits account ramBytes netWeight cpuWeight =>
    obtain ⟨⟨rl₁, decreasedLimit⟩, hset, rfl⟩ := Except.map_eq_ok.mp hok
    exact h.setAccountLimits hset
  | processAccountLimitUpdates => exact (h.processAccountLimitUpdates hok).1

theorem consistent_init : Consistent ResourceLimitsManager.init where
  unique := fun x _ _ _ hx => by simp [ResourceLimitsManager.init, GenericIndex.init] at hx
  backed := fun x _ hx => by simp [ResourceLimitsManager.init, GenericIndex.init] at hx
  total := fun r => by cases r <;> rfl
  bounded := fun r => by cases r <;> simp [ResourceLimitsManager.init, Resource.total]

/-- **Invariant.** Every reachable state is consistent. -/
theorem Reachable.consistent {rl : ResourceLimitsManager} (hrl : Reachable rl) : Consistent rl := by
  obtain ⟨as, rfl⟩ := hrl
  exact Rollback.run_invariant (fun _ _ _ hs hok => Consistent.apply hs hok) as consistent_init

/-! ## Reachable states -/

/-- In a reachable state each total is the sum of the committed values and fits a `uint64_t`;
`process_account_limit_updates` throws nothing but an overflow, leaves no pending row when it returns, and returns
when the values of all rows, pending or not, sum within a `uint64_t`. -/
theorem reachable_limit_totals {rl : ResourceLimitsManager} (hrl : Reachable rl) :
    (∀ r : Resource, r.total rl.state = committedSum rl.limits.indices r ∧ r.total rl.state ≤ uint64Max) ∧
    (∀ e, processAccountLimitUpdates rl = .error e → ∃ r : Resource, e = .overflow r.which) ∧
    (∀ rl', processAccountLimitUpdates rl = .ok rl' →
      (∀ id p, rl'.limits.indices.find? id = some p → p.pending = false) ∧
      ∀ r : Resource, r.total rl'.state = committedSum rl'.limits.indices r) ∧
    ((∀ r : Resource, limitSum rl.limits.indices r ≤ uint64Max) →
      ∃ rl', processAccountLimitUpdates rl = .ok rl') := by
  have h := hrl.consistent
  refine ⟨fun r => ⟨h.total r, h.bounded r⟩, fun e he => processLoop_error _ h he, fun rl' hok => ?_,
    fun hbound => processLoop_returns _ h hbound⟩
  obtain ⟨h', hcount⟩ := h.processAccountLimitUpdates hok
  exact ⟨fun _ _ hp => pendingCount_eq_zero_iff.mp hcount _ _ hp, h'.total⟩

/-- An account whose limits are set once, before the block boundary. -/
def limitedAccount : ResourceLimitsManager :=
  Rollback.run ResourceAction.apply .init
    [.initializeAccount (N "alice"), .setAccountLimits (N "alice") 8192 100 100]

theorem reachable_limit_totals_limitedAccount :
    Reachable limitedAccount ∧
    (∀ r : Resource, r.total limitedAccount.state = committedSum limitedAccount.limits.indices r ∧
      r.total limitedAccount.state ≤ uint64Max) ∧
    (∀ e, processAccountLimitUpdates limitedAccount = .error e → ∃ r : Resource, e = .overflow r.which) ∧
    (∀ rl', processAccountLimitUpdates limitedAccount = .ok rl' →
      (∀ id p, rl'.limits.indices.find? id = some p → p.pending = false) ∧
      ∀ r : Resource, r.total rl'.state = committedSum rl'.limits.indices r) ∧
    ((∀ r : Resource, limitSum limitedAccount.limits.indices r ≤ uint64Max) →
      ∃ rl', processAccountLimitUpdates limitedAccount = .ok rl') :=
  have hreach : Reachable limitedAccount := ⟨_, rfl⟩
  ⟨hreach, reachable_limit_totals hreach⟩

/-- `INT64_MAX`, the largest weight `set_resource_limits` accepts. -/
def int64Max : Int := 2 ^ 63 - 1

/-- Three accounts whose CPU weights are set to `INT64_MAX`. -/
def heavyAccounts : List ResourceAction :=
  [.initializeAccount (N "alice"), .initializeAccount (N "bob"), .initializeAccount (N "carol"),
    .setAccountLimits (N "alice") (-1) (-1) int64Max, .setAccountLimits (N "bob") (-1) (-1) int64Max,
    .setAccountLimits (N "carol") (-1) (-1) int64Max]

/-- The overflow assertion fires in a reachable state: after two accounts the CPU total is `2^64 - 2`, and the
third weight does not fit. -/
theorem cpu_weight_total_overflows :
    ∃ rl, Reachable rl ∧ processAccountLimitUpdates rl = .error (.overflow "cpu_weight") :=
  ⟨_, ⟨heavyAccounts, rfl⟩, by decide⟩

end Gstio.Chain.ResourceLimits
