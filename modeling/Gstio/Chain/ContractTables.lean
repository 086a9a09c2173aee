import Mathlib
import Gstio.Chain.ApplyContext

/-!
# RAM billing and row counts of the contract tables

* Every call that returns passes to `add_ram_usage`, hence to `_account_ram_deltas`, exactly what the RAM held by
  each account's rows and tables moves by (`Billed`, kept by each call: `DbCall.apply_billed`; over runs:
  `ram_billing_exact`). A row's size is its billable size, plus its value for a `key_value_object`.
* A table's `count` is its number of rows, in the primary and the five secondary indices, and a table exists
  exactly while it has rows (`TablesCounted`, kept by each call: `DbCall.apply_counted`; over runs:
  `table_counts_exact`), as long as no table holds `2^32` rows: `count` is a `uint32_t`, and `2^32` stores into one
  table wrap it to `0` (`table_count_wraps`).
-/

namespace Gstio.Chain

open Chainbase ResourceLimits

/-! ## Sums by key over an index -/

section Sums

variable {V α K : Type} [DecidableEq α] [DecidableEq K] {keys : List (Nat × V → K)}

/-- The cost of the objects whose key is `x`. -/
def costAt (key : V → α) (cost : V → Nat) (idx : OrdMap Nat V) (x : α) : Nat :=
  idx.sumBy fun _ o => if key o = x then cost o else 0

/-- A move of `delta` at `k`, seen from `x`. -/
def moveAt (k : α) (delta : Int) (x : α) : Int := if k = x then delta else 0

theorem moveAt_neg (k : α) (delta : Int) (x : α) : moveAt k (-delta) x = -moveAt k delta x := by
  unfold moveAt
  split <;> simp

theorem moveAt_sub (k : α) (d e : Int) (x : α) : moveAt k (d - e) x = moveAt k d x - moveAt k e x := by
  unfold moveAt
  split <;> simp

theorem cast_ite_moveAt (k x : α) (n : Nat) : ((if k = x then n else 0 : Nat) : Int) = moveAt k n x := by
  unfold moveAt
  split <;> simp

variable (key : V → α) (cost : V → Nat) (x : α)

theorem costAt_emplace {s : GenericIndex V} {v : V} (h : (s.emplace keys v).2 = none) :
    (costAt key cost (s.emplace keys v).1.indices x : Int) = costAt key cost s.indices x + moveAt (key v) (cost v) x := by
  have := GenericIndex.sumBy_emplace keys (fun _ o => if key o = x then cost o else 0) h
  rw [← cast_ite_moveAt]
  simp only [costAt] at this ⊢
  omega

theorem costAt_modify {s : GenericIndex V} {id : Nat} {v : V} {m : V → V} (hv : s.indices.find? id = some v)
    (h : (s.modify keys id m).2 = none) :
    (costAt key cost (s.modify keys id m).1.indices x : Int) =
      costAt key cost s.indices x - moveAt (key v) (cost v) x + moveAt (key (m v)) (cost (m v)) x := by
  have := GenericIndex.sumBy_modify keys (fun _ o => if key o = x then cost o else 0) hv h
  rw [← cast_ite_moveAt, ← cast_ite_moveAt]
  simp only [costAt] at this ⊢
  omega

theorem costAt_remove {s : GenericIndex V} {id : Nat} {v : V} (hv : s.indices.find? id = some v)
    (h : (s.remove id).2 = none) :
    (costAt key cost (s.remove id).1.indices x : Int) = costAt key cost s.indices x - moveAt (key v) (cost v) x := by
  have := GenericIndex.sumBy_remove (fun _ o => if key o = x then cost o else 0) hv h
  rw [← cast_ite_moveAt]
  simp only [costAt] at this ⊢
  omega

/-- A `modify` that keeps an object's key and cost keeps every sum. -/
theorem costAt_modify_of_eq {s : GenericIndex V} {id : Nat} {m : V → V} (h : (s.modify keys id m).2 = none)
    (hkey : ∀ v, key (m v) = key v) (hcost : ∀ v, cost (m v) = cost v) :
    costAt key cost (s.modify keys id m).1.indices x = costAt key cost s.indices x := by
  obtain ⟨v, hv, -⟩ := GenericIndex.modify_ok keys h
  have := costAt_modify key cost x hv h
  rw [hkey, hcost] at this
  omega

end Sums

/-- A change of one secondary index moves the sum over the five by the change of that one. -/
theorem sum_update_secondaries (f : SecondaryKind → GenericIndex SecondaryObject) (kind : SecondaryKind)
    (idx : GenericIndex SecondaryObject) (g : SecondaryKind → GenericIndex SecondaryObject → Nat) :
    (SecondaryKind.all.map fun k => g k (Function.update f kind idx k)).sum + g kind (f kind) =
      (SecondaryKind.all.map fun k => g k (f k)).sum + g kind idx := by
  cases kind <;> simp [SecondaryKind.all, Function.update_apply] <;> omega

/-! ## The RAM held by an account -/

/-- The RAM of the tables, rows and secondary rows that `payer` pays for. -/
def ramOf (s : ApplyState) (payer : Name) : Nat :=
  costAt TableIdObject.payer (fun _ => TableIdObject.billableSize) s.tables.indices payer +
    costAt KeyValueObject.payer (fun o => o.value.length + KeyValueObject.billableSize) s.keyValues.indices payer +
    (SecondaryKind.all.map fun k =>
      costAt SecondaryObject.payer (fun _ => k.billableSize) (s.secondaries k).indices payer).sum

/-- The sum of the deltas passed to `add_ram_usage` for `payer`, as `_account_ram_deltas` keeps it. -/
def deltaOf (s : ApplyState) (payer : Name) : Int := (s.accountRamDeltas.find? payer).getD 0

/-- From `s` to `s'`, the deltas passed for each account are what its RAM moved by. -/
def Billed (s s' : ApplyState) : Prop := ∀ a, (ramOf s' a : Int) + deltaOf s a = ramOf s a + deltaOf s' a

theorem Billed.refl (s : ApplyState) : Billed s s := fun _ => rfl

theorem Billed.trans {s₁ s₂ s₃ : ApplyState} (h₁ : Billed s₁ s₂) (h₂ : Billed s₂ s₃) : Billed s₁ s₃ := by
  intro a
  have := h₁ a
  have := h₂ a
  omega

namespace ApplyState

variable {env : ApplyEnv} {s s' : ApplyState}

/-! ## The parts of a call -/

/-- `update_db_usage` moves only `_account_ram_deltas`, by the delta. -/
theorem updateDbUsage_moves {payer : Name} {delta : Int} (h : s.updateDbUsage env payer delta = .ok s') :
    ramOf s' = ramOf s ∧ ∀ a, deltaOf s' a = deltaOf s a + moveAt payer delta a := by
  obtain ⟨rl, validate, gas, rfl⟩ := addRamUsage_eq_ok (updateDbUsage_eq_ok h)
  refine ⟨rfl, fun a => ?_⟩
  rw [deltaOf, getD_addDelta, moveAt]
  simp only [eq_comm, deltaOf]

theorem findOrCreateTable_billed {code scope table payer : Name} {tid : Nat}
    (h : s.findOrCreateTable env code scope table payer = .ok (s', tid)) : Billed s s' := by
  rcases findOrCreateTable_eq_ok h with ⟨_, _, rfl⟩ | ⟨-, s₁, hs₁, hok, rfl, -⟩
  · exact Billed.refl _
  · obtain ⟨hram, hdelta⟩ := updateDbUsage_moves hs₁
    intro a
    have hd := hdelta a
    have hr := congrFun hram a
    have ht := costAt_emplace TableIdObject.payer (fun _ => TableIdObject.billableSize) a hok
    simp only [ramOf, deltaOf] at hd hr ht ⊢
    omega

theorem removeTable_billed {tId : Nat} {t : TableIdObject} {payer : Name} (ht : s.tables.indices.find? tId = some t)
    (hp : t.payer = payer) (h : s.removeTable env tId payer = .ok s') : Billed s s' := by
  obtain ⟨s₁, hs₁, hok, rfl⟩ := removeTable_eq_ok h
  obtain ⟨hram, hdelta⟩ := updateDbUsage_moves hs₁
  have ht₁ : s₁.tables.indices.find? tId = some t := by rw [(updateDbUsage_frame hs₁).1]; exact ht
  intro a
  have hd := hdelta a
  have hr := congrFun hram a
  have hc := costAt_remove TableIdObject.payer (fun _ => TableIdObject.billableSize) a ht₁ hok
  rw [hp, moveAt_neg] at *
  simp only [ramOf, deltaOf] at hd hr hc ⊢
  omega

theorem removeTableIfEmpty_billed {tId : Nat} {t : TableIdObject}
    (ht : s.tables.indices.find? tId = some { t with count := t.count - 1 })
    (h : s.removeTableIfEmpty env tId t = .ok s') : Billed s s' := by
  unfold removeTableIfEmpty at h
  split at h
  · exact removeTable_billed ht rfl h
  · simp only [pure, Except.pure, Except.ok.injEq] at h
    subst h
    exact Billed.refl _

/-! ## Each call -/

theorem dbStoreI64_billed {scope table payer : Name} {id : UInt64} {buffer : List UInt8} {oid : Nat}
    (h : s.dbStoreI64 env scope table payer id buffer = .ok (s', oid)) : Billed s s' := by
  simp only [dbStoreI64, bind, Except.bind_eq_ok, liftDb_eq_ok, pure, Except.pure, Except.ok.injEq,
    Prod.mk.injEq] at h
  obtain ⟨⟨s₁, tid⟩, hfind, -, -, _, ⟨hok, rfl⟩, s₂, hcount, s₃, hupd, rfl, -⟩ := h
  obtain ⟨hcnt, rfl⟩ := modifyCount_eq_ok hcount
  obtain ⟨hram, hdelta⟩ := updateDbUsage_moves hupd
  refine (findOrCreateTable_billed hfind).trans fun a => ?_
  have hd := hdelta a
  have hr := congrFun hram a
  have hrow := costAt_emplace KeyValueObject.payer (fun o => o.value.length + KeyValueObject.billableSize) a hok
  have htab := costAt_modify_of_eq TableIdObject.payer (fun _ => TableIdObject.billableSize) a hcnt
    (fun _ => rfl) (fun _ => rfl)
  simp only [ramOf, deltaOf, Nat.cast_add] at hd hr hrow htab ⊢
  omega

theorem dbRemoveI64_billed {iterator : Nat} (h : s.dbRemoveI64 env iterator = .ok s') : Billed s s' := by
  simp only [dbRemoveI64, bind, Except.bind_eq_ok, liftDb_eq_ok, getObject_eq_ok, getTable_eq_ok] at h
  obtain ⟨obj, hobj, t, ht, -, -, s₃, hupd, s₄, hcount, _, ⟨hok, rfl⟩, h⟩ := h
  obtain ⟨hcnt, rfl⟩ := modifyCount_eq_ok hcount
  obtain ⟨hram, hdelta⟩ := updateDbUsage_moves hupd
  obtain ⟨htables, hkv, -⟩ := updateDbUsage_frame hupd
  refine Billed.trans (fun a => ?_) (removeTableIfEmpty_billed ?_ h)
  · have hd := hdelta a
    have hr := congrFun hram a
    have hrow := costAt_remove KeyValueObject.payer (fun o => o.value.length + KeyValueObject.billableSize) a
      (hkv ▸ hobj) hok
    have htab := costAt_modify_of_eq TableIdObject.payer (fun _ => TableIdObject.billableSize) a hcnt
      (fun _ => rfl) (fun _ => rfl)
    rw [moveAt_neg] at hd
    simp only [ramOf, deltaOf, Nat.cast_add] at hd hr hrow htab ⊢
    omega
  · exact GenericIndex.find?_modify_self tableIdIndex (htables ▸ ht) hcnt

theorem dbUpdateI64_billed {iterator : Nat} {payer : Name} {buffer : List UInt8}
    (h : s.dbUpdateI64 env iterator payer buffer = .ok s') : Billed s s' := by
  simp only [dbUpdateI64, bind, Except.bind_eq_ok, getObject_eq_ok, getTable_eq_ok] at h
  obtain ⟨obj, hobj, t, -, -, -, h⟩ := h
  generalize (if payer.empty then obj.payer else payer) = p at h
  split_ifs at h with hpayer hsize <;>
    simp only [Except.bind_eq_ok, liftDb_eq_ok, pure, Except.pure, Except.ok.injEq] at h
  · -- a new payer: the old one is refunded the old row, the new one charged the new row
    obtain ⟨s₁, h₁, s₂, h₂, _, ⟨hok, rfl⟩, rfl⟩ := h
    obtain ⟨hram₁, hdelta₁⟩ := updateDbUsage_moves h₁
    obtain ⟨hram₂, hdelta₂⟩ := updateDbUsage_moves h₂
    have hobj₂ : s₂.keyValues.indices.find? iterator = some obj := by
      rw [(updateDbUsage_frame h₂).2.1, (updateDbUsage_frame h₁).2.1]
      exact hobj
    intro a
    have hd₁ := hdelta₁ a
    have hd₂ := hdelta₂ a
    have hr₁ := congrFun hram₁ a
    have hr₂ := congrFun hram₂ a
    have hrow := costAt_modify KeyValueObject.payer (fun o => o.value.length + KeyValueObject.billableSize) a
      hobj₂ hok
    rw [moveAt_neg] at hd₁
    simp only [ramOf, deltaOf, Nat.cast_add] at hd₁ hd₂ hr₁ hr₂ hrow ⊢
    omega
  · -- the same payer pays the difference
    obtain rfl : obj.payer = p := not_not.mp hpayer
    obtain ⟨s₁, h₁, _, ⟨hok, rfl⟩, rfl⟩ := h
    obtain ⟨hram₁, hdelta₁⟩ := updateDbUsage_moves h₁
    have hobj₁ : s₁.keyValues.indices.find? iterator = some obj := by
      rw [(updateDbUsage_frame h₁).2.1]
      exact hobj
    intro a
    have hd₁ := hdelta₁ a
    have hr₁ := congrFun hram₁ a
    have hrow := costAt_modify KeyValueObject.payer (fun o => o.value.length + KeyValueObject.billableSize) a
      hobj₁ hok
    rw [moveAt_sub] at hd₁
    simp only [ramOf, deltaOf, Nat.cast_add] at hd₁ hr₁ hrow ⊢
    omega
  · -- nothing to bill: the row keeps its payer and its size
    obtain rfl : obj.payer = p := not_not.mp hpayer
    have hlen : buffer.length = obj.value.length := by omega
    obtain ⟨_, rfl, _, ⟨hok, rfl⟩, rfl⟩ := h
    intro a
    have hrow := costAt_modify KeyValueObject.payer (fun o => o.value.length + KeyValueObject.billableSize) a
      hobj hok
    simp only [ramOf, deltaOf, hlen] at hrow ⊢
    omega

theorem idxStore_billed {kind : SecondaryKind} {scope table payer : Name} {id : UInt64} {secondary oid : Nat}
    (h : s.idxStore env kind scope table payer id secondary = .ok (s', oid)) : Billed s s' := by
  simp only [idxStore, bind, Except.bind_eq_ok, liftDb_eq_ok, pure, Except.pure, Except.ok.injEq,
    Prod.mk.injEq] at h
  obtain ⟨-, -, ⟨s₁, tid⟩, hfind, _, ⟨hok, rfl⟩, s₂, hcount, s₃, hupd, rfl, -⟩ := h
  obtain ⟨hcnt, rfl⟩ := modifyCount_eq_ok hcount
  obtain ⟨hram, hdelta⟩ := updateDbUsage_moves hupd
  refine (findOrCreateTable_billed hfind).trans fun a => ?_
  have hd := hdelta a
  have hr := congrFun hram a
  have hsec := costAt_emplace SecondaryObject.payer (fun _ => kind.billableSize) a hok
  have hsum := sum_update_secondaries s₁.secondaries kind
    ((s₁.secondaries kind).emplace secondaryIndex ⟨tid, id, payer, secondary⟩).1
    fun k i => costAt SecondaryObject.payer (fun _ => k.billableSize) i.indices a
  have htab := costAt_modify_of_eq TableIdObject.payer (fun _ => TableIdObject.billableSize) a hcnt
    (fun _ => rfl) (fun _ => rfl)
  simp only [ramOf, deltaOf, setSecondary] at hd hr hsec hsum htab ⊢
  omega

theorem idxRemove_billed {kind : SecondaryKind} {iterator : Nat} (h : s.idxRemove env kind iterator = .ok s') :
    Billed s s' := by
  simp only [idxRemove, bind, Except.bind_eq_ok, liftDb_eq_ok, getObject_eq_ok, getTable_eq_ok] at h
  obtain ⟨obj, hobj, s₁, hupd, t, ht, -, -, s₂, hcount, _, ⟨hok, rfl⟩, h⟩ := h
  obtain ⟨hcnt, rfl⟩ := modifyCount_eq_ok hcount
  obtain ⟨hram, hdelta⟩ := updateDbUsage_moves hupd
  obtain ⟨-, -, hsecs, -⟩ := updateDbUsage_frame hupd
  refine Billed.trans (fun a => ?_) (removeTableIfEmpty_billed ?_ h)
  · have hd := hdelta a
    have hr := congrFun hram a
    have hsec := costAt_remove SecondaryObject.payer (fun _ => kind.billableSize) a
      (show (s₁.secondaries kind).indices.find? iterator = some obj by rw [hsecs]; exact hobj) hok
    have hsum := sum_update_secondaries s₁.secondaries kind ((s₁.secondaries kind).remove iterator).1
      fun k i => costAt SecondaryObject.payer (fun _ => k.billableSize) i.indices a
    have htab := costAt_modify_of_eq TableIdObject.payer (fun _ => TableIdObject.billableSize) a hcnt
      (fun _ => rfl) (fun _ => rfl)
    rw [moveAt_neg] at hd
    simp only [ramOf, deltaOf, setSecondary] at hd hr hsec hsum htab ⊢
    omega
  · exact GenericIndex.find?_modify_self tableIdIndex ht hcnt

theorem idxUpdate_billed {kind : SecondaryKind} {iterator : Nat} {payer : Name} {secondary : Nat}
    (h : s.idxUpdate env kind iterator payer secondary = .ok s') : Billed s s' := by
  simp only [idxUpdate, bind, Except.bind_eq_ok, getObject_eq_ok, getTable_eq_ok] at h
  obtain ⟨obj, hobj, t, -, -, -, h⟩ := h
  generalize (if payer.empty then obj.payer else payer) = p at h
  split_ifs at h with hpayer <;>
    simp only [Except.bind_eq_ok, liftDb_eq_ok, pure, Except.pure, Except.ok.injEq] at h
  · -- a new payer: the old one is refunded, the new one charged
    obtain ⟨s₁, h₁, s₂, h₂, _, ⟨hok, rfl⟩, rfl⟩ := h
    obtain ⟨hram₁, hdelta₁⟩ := updateDbUsage_moves h₁
    obtain ⟨hram₂, hdelta₂⟩ := updateDbUsage_moves h₂
    have hobj₂ : (s₂.secondaries kind).indices.find? iterator = some obj := by
      rw [(updateDbUsage_frame h₂).2.2.1, (updateDbUsage_frame h₁).2.2.1]
      exact hobj
    intro a
    have hd₁ := hdelta₁ a
    have hd₂ := hdelta₂ a
    have hr₁ := congrFun hram₁ a
    have hr₂ := congrFun hram₂ a
    have hsec := costAt_modify SecondaryObject.payer (fun _ => kind.billableSize) a hobj₂ hok
    have hsum := sum_update_secondaries s₂.secondaries kind
      ((s₂.secondaries kind).modify secondaryIndex iterator fun o => { o with secondaryKey := secondary, payer := p }).1
      fun k i => costAt SecondaryObject.payer (fun _ => k.billableSize) i.indices a
    rw [moveAt_neg] at hd₁
    simp only [ramOf, deltaOf, setSecondary] at hd₁ hd₂ hr₁ hr₂ hsec hsum ⊢
    omega
  · -- the same payer: nothing moves
    obtain rfl : obj.payer = p := not_not.mp hpayer
    obtain ⟨_, rfl, _, ⟨hok, rfl⟩, rfl⟩ := h
    intro a
    have hsec := costAt_modify SecondaryObject.payer (fun _ => kind.billableSize) a hobj hok
    have hsum := sum_update_secondaries s.secondaries kind
      ((s.secondaries kind).modify secondaryIndex iterator fun o =>
        { o with secondaryKey := secondary, payer := obj.payer }).1
      fun k i => costAt SecondaryObject.payer (fun _ => k.billableSize) i.indices a
    simp only [ramOf, deltaOf, setSecondary] at hsec hsum ⊢
    omega

/-! ## Runs -/

theorem DbCall.apply_billed {c : DbCall} (h : c.apply env s = .ok s') : Billed s s' := by
  cases c with
  | storeI64 scope table payer id buffer =>
    obtain ⟨⟨s', oid⟩, hs, rfl⟩ := Except.map_eq_ok.mp h
    exact dbStoreI64_billed hs
  | updateI64 iterator payer buffer => exact dbUpdateI64_billed h
  | removeI64 iterator => exact dbRemoveI64_billed h
  | idxStore kind scope table payer id secondary =>
    obtain ⟨⟨s', oid⟩, hs, rfl⟩ := Except.map_eq_ok.mp h
    exact idxStore_billed hs
  | idxUpdate kind iterator payer secondary => exact idxUpdate_billed h
  | idxRemove kind iterator => exact idxRemove_billed h

end ApplyState

theorem runCalls_billed : ∀ {calls : List (ApplyEnv × DbCall)} {s s' : ApplyState},
    runCalls calls s = .ok s' → Billed s s'
  | [], s, s', h => by
    simp only [runCalls, List.foldlM_nil, pure, Except.pure, Except.ok.injEq] at h
    subst h
    exact Billed.refl s
  | (env, c) :: calls, s, s', h => by
    simp only [runCalls, List.foldlM_cons, bind, Except.bind_eq_ok] at h
    obtain ⟨s₁, h₁, h⟩ := h
    exact (ApplyState.DbCall.apply_billed h₁).trans (runCalls_billed h)

/-- Over every run of calls that all return, made by any receivers from any state, the deltas passed to
`update_db_usage` for each account add up to what the RAM of its rows and tables moved by. -/
theorem ram_billing_exact {calls : List (ApplyEnv × DbCall)} {s s' : ApplyState} (h : runCalls calls s = .ok s')
    (a : Name) : deltaOf s' a - deltaOf s a = (ramOf s' a : Int) - ramOf s a := by
  have := runCalls_billed h a
  omega

/-- `alice` stores two rows of 3 and 2 bytes, hands the first to `bob` with 5 bytes, adds a secondary row, and
removes the second row. -/
def billingCalls : List (ApplyEnv × DbCall) :=
  [(validatingEnv, .storeI64 (N "alice") (N "accounts") (N "alice") 1 [1, 2, 3]),
    (validatingEnv, .storeI64 (N "alice") (N "accounts") (N "alice") 2 [1, 2]),
    (validatingEnv, .updateI64 0 (N "bob") [1, 2, 3, 4, 5]),
    (validatingEnv, .idxStore .index64 (N "alice") (N "accounts") (N "alice") 1 7),
    (validatingEnv, .removeI64 1)]

theorem ram_billing_exact_bob :
    ∃ s₀ s, twoAccounts = .ok s₀ ∧ runCalls billingCalls s₀ = .ok s ∧
      deltaOf s (N "bob") - deltaOf s₀ (N "bob") = (ramOf s (N "bob") : Int) - ramOf s₀ (N "bob") := by
  obtain ⟨s₀, s, h₀, h⟩ : ∃ s₀ s, twoAccounts = .ok s₀ ∧ runCalls billingCalls s₀ = .ok s := ⟨_, _, rfl, rfl⟩
  exact ⟨s₀, s, h₀, h, ram_billing_exact h (N "bob")⟩

example : ((twoAccounts >>= runCalls billingCalls).toOption.map fun s =>
    (deltaOf s (N "bob"), ramOf s (N "bob"), deltaOf s (N "alice"), ramOf s (N "alice"))) =
      some (117, 117, 240, 240) := by
  decide

/-! ## Row counts -/

/-- The rows of the table `tid`, in the primary index and the five secondary ones. -/
def rowsOf (s : ApplyState) (tid : Nat) : Nat :=
  costAt KeyValueObject.tId (fun _ => 1) s.keyValues.indices tid +
    (SecondaryKind.all.map fun k => costAt SecondaryObject.tId (fun _ => 1) (s.secondaries k).indices tid).sum

/-- Every table counts its rows and has some, and every row has its table. -/
structure TablesCounted (s : ApplyState) : Prop where
  count_eq : ∀ tid t, s.tables.indices.find? tid = some t → t.count.toNat = rowsOf s tid
  count_pos : ∀ tid t, s.tables.indices.find? tid = some t → 0 < rowsOf s tid
  no_orphans : ∀ tid, s.tables.indices.find? tid = none → rowsOf s tid = 0

/-- What a store does to the tables: one row more in the table `tid`, found or created, whose count goes up. -/
def StoreEffect (s s' : ApplyState) : Prop :=
  ∃ tid t, (s.tables.indices.find? tid = some t ∨ s.tables.indices.find? tid = none ∧ t.count = 0) ∧
    s'.tables.indices.find? tid = some { t with count := t.count + 1 } ∧
    (∀ x, x ≠ tid → s'.tables.indices.find? x = s.tables.indices.find? x) ∧
    ∀ x, (rowsOf s' x : Int) = rowsOf s x + moveAt tid 1 x

/-- What a removal does: one row less in the table `tid`, which goes when its count reaches zero. -/
def RemoveEffect (s s' : ApplyState) : Prop :=
  ∃ tid t, s.tables.indices.find? tid = some t ∧ 0 < rowsOf s tid ∧
    s'.tables.indices.find? tid = (if t.count - 1 = 0 then none else some { t with count := t.count - 1 }) ∧
    (∀ x, x ≠ tid → s'.tables.indices.find? x = s.tables.indices.find? x) ∧
    ∀ x, (rowsOf s' x : Int) = rowsOf s x - moveAt tid 1 x

theorem rowsOf_frame {s s' : ApplyState} (hkv : s'.keyValues = s.keyValues) (hsec : s'.secondaries = s.secondaries) :
    rowsOf s' = rowsOf s := by
  funext x
  simp only [rowsOf, hkv, hsec]

/-- An object of a table counts for at least one row of it. -/
theorem one_le_costAt {V : Type} (key : V → Nat) {idx : OrdMap Nat V} {id : Nat} {v : V}
    (hv : idx.find? id = some v) : 1 ≤ costAt key (fun _ => 1) idx (key v) := by
  have := OrdMap.sumBy_erase (fun _ o => if key o = key v then 1 else 0) hv
  simp only [costAt, if_true] at this ⊢
  omega

/-- The `count` of a table below `2^32` rows, after one row more. -/
theorem toNat_count_succ {c : UInt32} (h : c.toNat + 1 < 2 ^ 32) : (c + 1).toNat = c.toNat + 1 := by
  rw [UInt32.toNat_add, UInt32.toNat_one, Nat.mod_eq_of_lt h]

theorem toNat_count_pred {c : UInt32} (h : 1 ≤ c.toNat) : (c - 1).toNat = c.toNat - 1 := by
  rw [UInt32.toNat_sub_of_le _ _ (by simpa [UInt32.le_iff_toNat_le] using h), UInt32.toNat_one]

/-- A change of a row that keeps its table keeps every count of rows. -/
theorem rowsOf_modify_row {s : ApplyState} {iterator : Nat} {m : KeyValueObject → KeyValueObject}
    (h : (s.keyValues.modify keyValueIndex iterator m).2 = none) (hm : ∀ o, (m o).tId = o.tId) :
    rowsOf { s with keyValues := (s.keyValues.modify keyValueIndex iterator m).1 } = rowsOf s := by
  funext x
  have := costAt_modify_of_eq KeyValueObject.tId (fun _ => 1) x h hm (fun _ => rfl)
  simp only [rowsOf, this]

theorem rowsOf_modify_secondary {s : ApplyState} {kind : SecondaryKind} {iterator : Nat}
    {m : SecondaryObject → SecondaryObject} (h : ((s.secondaries kind).modify secondaryIndex iterator m).2 = none)
    (hm : ∀ o, (m o).tId = o.tId) :
    rowsOf (s.setSecondary kind ((s.secondaries kind).modify secondaryIndex iterator m).1) = rowsOf s := by
  funext x
  have := costAt_modify_of_eq SecondaryObject.tId (fun _ => 1) x h hm (fun _ => rfl)
  have hsum := sum_update_secondaries s.secondaries kind ((s.secondaries kind).modify secondaryIndex iterator m).1
    fun k i => costAt SecondaryObject.tId (fun _ => 1) i.indices x
  simp only [rowsOf, ApplyState.setSecondary] at this hsum ⊢
  omega

namespace TablesCounted

variable {s s' : ApplyState}

theorem store (hc : TablesCounted s) (he : StoreEffect s s') (hb : ∀ x, rowsOf s' x < 2 ^ 32) :
    TablesCounted s' := by
  obtain ⟨tid, t, ht, ht', hother, hrows⟩ := he
  -- the count of `tid` before the store is its number of rows: a created table has none
  have hcount : t.count.toNat = rowsOf s tid := by
    rcases ht with ht | ⟨hnone, hzero⟩
    · exact hc.count_eq tid t ht
    · rw [hzero, hc.no_orphans tid hnone]
      rfl
  have hsucc : rowsOf s' tid = rowsOf s tid + 1 := by
    have := hrows tid
    simp only [moveAt, if_true] at this
    omega
  have hsame : ∀ x, x ≠ tid → rowsOf s' x = rowsOf s x := by
    intro x hx
    have := hrows x
    simp only [moveAt, Ne.symm hx, if_false] at this
    omega
  refine ⟨fun x u hu => ?_, fun x u hu => ?_, fun x hu => ?_⟩
  · by_cases hx : x = tid
    · subst hx
      rw [ht', Option.some_inj] at hu
      subst hu
      rw [toNat_count_succ (by have := hb x; omega), hcount, hsucc]
    · rw [hother x hx] at hu
      rw [hsame x hx, hc.count_eq x u hu]
  · by_cases hx : x = tid
    · rw [hx, hsucc]
      omega
    · rw [hother x hx] at hu
      rw [hsame x hx]
      exact hc.count_pos x u hu
  · by_cases hx : x = tid
    · rw [hx, ht'] at hu
      cases hu
    · rw [hother x hx] at hu
      rw [hsame x hx]
      exact hc.no_orphans x hu

theorem remove (hc : TablesCounted s) (he : RemoveEffect s s') : TablesCounted s' := by
  obtain ⟨tid, t, ht, hpos, ht', hother, hrows⟩ := he
  have hcount := hc.count_eq tid t ht
  have hpred : rowsOf s' tid = rowsOf s tid - 1 := by
    have := hrows tid
    simp only [moveAt, if_true] at this
    omega
  have hsame : ∀ x, x ≠ tid → rowsOf s' x = rowsOf s x := by
    intro x hx
    have := hrows x
    simp only [moveAt, Ne.symm hx, if_false] at this
    omega
  -- the decremented count is the new number of rows, so the table goes exactly when its last row does
  have hdec : (t.count - 1).toNat = rowsOf s' tid := by
    rw [toNat_count_pred (by omega), hcount, hpred]
  have hzero : t.count - 1 = 0 ↔ rowsOf s' tid = 0 := by
    rw [← hdec, ← UInt32.toNat_inj, UInt32.toNat_zero]
  refine ⟨fun x u hu => ?_, fun x u hu => ?_, fun x hu => ?_⟩
  · by_cases hx : x = tid
    · subst hx
      rw [ht'] at hu
      split at hu
      · cases hu
      · rw [Option.some_inj] at hu
        subst hu
        exact hdec
    · rw [hother x hx] at hu
      rw [hsame x hx, hc.count_eq x u hu]
  · by_cases hx : x = tid
    · subst hx
      rw [ht'] at hu
      split at hu
      · cases hu
      · rename_i hne
        exact Nat.pos_of_ne_zero fun h => hne (hzero.mpr h)
    · rw [hother x hx] at hu
      rw [hsame x hx]
      exact hc.count_pos x u hu
  · by_cases hx : x = tid
    · subst hx
      rw [ht'] at hu
      split at hu
      · rename_i heq
        exact hzero.mp heq
      · cases hu
    · rw [hother x hx] at hu
      rw [hsame x hx]
      exact hc.no_orphans x hu

theorem frame (hc : TablesCounted s) (ht : s'.tables = s.tables) (hrows : rowsOf s' = rowsOf s) :
    TablesCounted s' := by
  refine ⟨fun x u hu => ?_, fun x u hu => ?_, fun x hu => ?_⟩ <;> rw [ht] at hu <;> rw [hrows]
  · exact hc.count_eq x u hu
  · exact hc.count_pos x u hu
  · exact hc.no_orphans x hu

end TablesCounted

namespace ApplyState

variable {env : ApplyEnv} {s s' : ApplyState}

/-! ## What each call does to the tables -/

theorem findOrCreateTable_table {code scope table payer : Name} {tid : Nat}
    (h : s.findOrCreateTable env code scope table payer = .ok (s', tid)) :
    ∃ t, (s.tables.indices.find? tid = some t ∨ s.tables.indices.find? tid = none ∧ t.count = 0) ∧
      s'.tables.indices.find? tid = some t ∧ (∀ x, x ≠ tid → s'.tables.indices.find? x = s.tables.indices.find? x) ∧
      s'.keyValues = s.keyValues ∧ s'.secondaries = s.secondaries := by
  rcases findOrCreateTable_eq_ok h with ⟨t, hf, rfl⟩ | ⟨-, s₁, hs₁, hok, rfl, rfl⟩
  · have ht := findTable_eq_some hf
    exact ⟨t, .inl ht, ht, fun _ _ => rfl, rfl, rfl⟩
  · obtain ⟨ht, hkv, hsec, -⟩ := updateDbUsage_frame hs₁
    have hfind := GenericIndex.find?_emplace tableIdIndex hok
    have hfresh := (GenericIndex.emplace_ok tableIdIndex hok).1
    refine ⟨⟨code, scope, table, payer, 0⟩, .inr ⟨by rw [← ht]; exact hfresh, rfl⟩, ?_, fun x hx => ?_, hkv, hsec⟩
    · simp [hfind]
    · rw [hfind, if_neg hx, ht]

theorem removeTableIfEmpty_table {tId : Nat} {t : TableIdObject}
    (ht : s.tables.indices.find? tId = some { t with count := t.count - 1 })
    (h : s.removeTableIfEmpty env tId t = .ok s') :
    s'.keyValues = s.keyValues ∧ s'.secondaries = s.secondaries ∧
      s'.tables.indices.find? tId = (if t.count - 1 = 0 then none else some { t with count := t.count - 1 }) ∧
      ∀ x, x ≠ tId → s'.tables.indices.find? x = s.tables.indices.find? x := by
  unfold removeTableIfEmpty at h
  split at h
  · rename_i hzero
    obtain ⟨s₁, hs₁, hok, rfl⟩ := removeTable_eq_ok h
    obtain ⟨htables, hkv, hsec, -⟩ := updateDbUsage_frame hs₁
    have hfind := GenericIndex.find?_remove hok
    refine ⟨hkv, hsec, ?_, fun x hx => ?_⟩
    · simp [hfind, hzero]
    · rw [hfind, if_neg hx, htables]
  · rename_i hne
    simp only [pure, Except.pure, Except.ok.injEq] at h
    subst h
    exact ⟨rfl, rfl, by simp [ht, hne], fun _ _ => rfl⟩

theorem dbStoreI64_effect {scope table payer : Name} {id : UInt64} {buffer : List UInt8} {oid : Nat}
    (h : s.dbStoreI64 env scope table payer id buffer = .ok (s', oid)) : StoreEffect s s' := by
  simp only [dbStoreI64, bind, Except.bind_eq_ok, liftDb_eq_ok, pure, Except.pure, Except.ok.injEq,
    Prod.mk.injEq] at h
  obtain ⟨⟨s₁, tid⟩, hfind, -, -, _, ⟨hok, rfl⟩, s₂, hcount, s₃, hupd, rfl, -⟩ := h
  obtain ⟨hcnt, rfl⟩ := modifyCount_eq_ok hcount
  obtain ⟨t, ht, ht₁, hother, hkv, hsec⟩ := findOrCreateTable_table hfind
  obtain ⟨htables, hkv', hsec', -⟩ := updateDbUsage_frame hupd
  refine ⟨tid, t, ht, ?_, fun x hx => ?_, fun x => ?_⟩
  · rw [htables]
    exact GenericIndex.find?_modify_self tableIdIndex ht₁ hcnt
  · rw [htables, GenericIndex.find?_modify_ne tableIdIndex hcnt hx]
    exact hother x hx
  · have hrow := costAt_emplace KeyValueObject.tId (fun _ => 1) x hok
    simp only [rowsOf, hkv', hsec', hkv, hsec, Nat.cast_one] at hrow ⊢
    omega

theorem idxStore_effect {kind : SecondaryKind} {scope table payer : Name} {id : UInt64} {secondary oid : Nat}
    (h : s.idxStore env kind scope table payer id secondary = .ok (s', oid)) : StoreEffect s s' := by
  simp only [idxStore, bind, Except.bind_eq_ok, liftDb_eq_ok, pure, Except.pure, Except.ok.injEq,
    Prod.mk.injEq] at h
  obtain ⟨-, -, ⟨s₁, tid⟩, hfind, _, ⟨hok, rfl⟩, s₂, hcount, s₃, hupd, rfl, -⟩ := h
  obtain ⟨hcnt, rfl⟩ := modifyCount_eq_ok hcount
  obtain ⟨t, ht, ht₁, hother, hkv, hsec⟩ := findOrCreateTable_table hfind
  obtain ⟨htables, hkv', hsec', -⟩ := updateDbUsage_frame hupd
  refine ⟨tid, t, ht, ?_, fun x hx => ?_, fun x => ?_⟩
  · rw [htables]
    exact GenericIndex.find?_modify_self tableIdIndex ht₁ hcnt
  · rw [htables, GenericIndex.find?_modify_ne tableIdIndex hcnt hx]
    exact hother x hx
  · have hrow := costAt_emplace SecondaryObject.tId (fun _ => 1) x hok
    have hsum := sum_update_secondaries s₁.secondaries kind
      ((s₁.secondaries kind).emplace secondaryIndex ⟨tid, id, payer, secondary⟩).1
      fun k i => costAt SecondaryObject.tId (fun _ => 1) i.indices x
    simp only [rowsOf, hkv', hsec', setSecondary, hkv, hsec, Nat.cast_one] at hrow hsum ⊢
    omega

theorem dbRemoveI64_effect {iterator : Nat} (h : s.dbRemoveI64 env iterator = .ok s') : RemoveEffect s s' := by
  simp only [dbRemoveI64, bind, Except.bind_eq_ok, liftDb_eq_ok, getObject_eq_ok, getTable_eq_ok] at h
  obtain ⟨obj, hobj, t, ht, -, -, s₃, hupd, s₄, hcount, _, ⟨hok, rfl⟩, h⟩ := h
  obtain ⟨hcnt, rfl⟩ := modifyCount_eq_ok hcount
  obtain ⟨htables, hkv, hsec, -⟩ := updateDbUsage_frame hupd
  obtain ⟨hkv', hsec', hat, hother⟩ :=
    removeTableIfEmpty_table (GenericIndex.find?_modify_self tableIdIndex (htables ▸ ht) hcnt) h
  refine ⟨obj.tId, t, ht, ?_, hat, fun x hx => ?_, fun x => ?_⟩
  · have := one_le_costAt KeyValueObject.tId hobj
    simp only [rowsOf]
    omega
  · rw [hother x hx, GenericIndex.find?_modify_ne tableIdIndex hcnt hx, htables]
  · have hrow := costAt_remove KeyValueObject.tId (fun _ => 1) x (hkv ▸ hobj) hok
    simp only [rowsOf, hkv', hsec', hkv, hsec, Nat.cast_one] at hrow ⊢
    omega

theorem idxRemove_effect {kind : SecondaryKind} {iterator : Nat} (h : s.idxRemove env kind iterator = .ok s') :
    RemoveEffect s s' := by
  simp only [idxRemove, bind, Except.bind_eq_ok, liftDb_eq_ok, getObject_eq_ok, getTable_eq_ok] at h
  obtain ⟨obj, hobj, s₁, hupd, t, ht, -, -, s₂, hcount, _, ⟨hok, rfl⟩, h⟩ := h
  obtain ⟨hcnt, rfl⟩ := modifyCount_eq_ok hcount
  obtain ⟨htables, hkv, hsec, -⟩ := updateDbUsage_frame hupd
  obtain ⟨hkv', hsec', hat, hother⟩ :=
    removeTableIfEmpty_table (GenericIndex.find?_modify_self tableIdIndex ht hcnt) h
  rw [htables] at ht
  refine ⟨obj.tId, t, ht, ?_, hat, fun x hx => ?_, fun x => ?_⟩
  · have hone := one_le_costAt SecondaryObject.tId hobj
    have hle : costAt SecondaryObject.tId (fun _ => 1) (s.secondaries kind).indices obj.tId ≤
        (SecondaryKind.all.map fun k => costAt SecondaryObject.tId (fun _ => 1) (s.secondaries k).indices obj.tId).sum :=
      List.single_le_sum (fun _ _ => Nat.zero_le _) _ (List.mem_map_of_mem (SecondaryKind.mem_all kind))
    simp only [rowsOf]
    omega
  · rw [hother x hx, tables_setSecondary, GenericIndex.find?_modify_ne tableIdIndex hcnt hx, htables]
  · have hrow := costAt_remove SecondaryObject.tId (fun _ => 1) x
      (show (s₁.secondaries kind).indices.find? iterator = some obj by rw [hsec]; exact hobj) hok
    have hsum := sum_update_secondaries s₁.secondaries kind ((s₁.secondaries kind).remove iterator).1
      fun k i => costAt SecondaryObject.tId (fun _ => 1) i.indices x
    simp only [rowsOf, hkv', hsec', setSecondary, hkv, hsec, Nat.cast_one] at hrow hsum ⊢
    omega

theorem updateDbUsage_rows {payer : Name} {delta : Int} (h : s.updateDbUsage env payer delta = .ok s') :
    s'.tables = s.tables ∧ rowsOf s' = rowsOf s := by
  obtain ⟨ht, hkv, hsec, -⟩ := updateDbUsage_frame h
  exact ⟨ht, rowsOf_frame hkv hsec⟩

/-- An update changes neither a table nor a count of rows, whoever it bills. -/
theorem dbUpdateI64_rows {iterator : Nat} {payer : Name} {buffer : List UInt8}
    (h : s.dbUpdateI64 env iterator payer buffer = .ok s') : s'.tables = s.tables ∧ rowsOf s' = rowsOf s := by
  simp only [dbUpdateI64, bind, Except.bind_eq_ok, getObject_eq_ok, getTable_eq_ok] at h
  obtain ⟨obj, -, t, -, -, -, h⟩ := h
  generalize (if payer.empty then obj.payer else payer) = p at h
  split_ifs at h <;> simp only [Except.bind_eq_ok, liftDb_eq_ok, pure, Except.pure, Except.ok.injEq] at h
  · obtain ⟨s₁, h₁, s₂, h₂, _, ⟨hok, rfl⟩, rfl⟩ := h
    obtain ⟨ht₁, hr₁⟩ := updateDbUsage_rows h₁
    obtain ⟨ht₂, hr₂⟩ := updateDbUsage_rows h₂
    exact ⟨ht₂.trans ht₁, (rowsOf_modify_row hok fun _ => rfl).trans (hr₂.trans hr₁)⟩
  · obtain ⟨s₁, h₁, _, ⟨hok, rfl⟩, rfl⟩ := h
    obtain ⟨ht₁, hr₁⟩ := updateDbUsage_rows h₁
    exact ⟨ht₁, (rowsOf_modify_row hok fun _ => rfl).trans hr₁⟩
  · obtain ⟨_, rfl, _, ⟨hok, rfl⟩, rfl⟩ := h
    exact ⟨rfl, rowsOf_modify_row hok fun _ => rfl⟩

theorem idxUpdate_rows {kind : SecondaryKind} {iterator : Nat} {payer : Name} {secondary : Nat}
    (h : s.idxUpdate env kind iterator payer secondary = .ok s') : s'.tables = s.tables ∧ rowsOf s' = rowsOf s := by
  simp only [idxUpdate, bind, Except.bind_eq_ok, getObject_eq_ok, getTable_eq_ok] at h
  obtain ⟨obj, -, t, -, -, -, h⟩ := h
  generalize (if payer.empty then obj.payer else payer) = p at h
  split_ifs at h <;> simp only [Except.bind_eq_ok, liftDb_eq_ok, pure, Except.pure, Except.ok.injEq] at h
  · obtain ⟨s₁, h₁, s₂, h₂, _, ⟨hok, rfl⟩, rfl⟩ := h
    obtain ⟨ht₁, hr₁⟩ := updateDbUsage_rows h₁
    obtain ⟨ht₂, hr₂⟩ := updateDbUsage_rows h₂
    exact ⟨ht₂.trans ht₁, (rowsOf_modify_secondary hok fun _ => rfl).trans (hr₂.trans hr₁)⟩
  · obtain ⟨_, rfl, _, ⟨hok, rfl⟩, rfl⟩ := h
    exact ⟨rfl, rowsOf_modify_secondary hok fun _ => rfl⟩

/-- **Step lemma.** A call that returns, after which every table holds fewer than `2^32` rows, keeps the tables
counted. -/
theorem DbCall.apply_counted {c : DbCall} (hc : TablesCounted s) (h : c.apply env s = .ok s')
    (hb : ∀ x, rowsOf s' x < 2 ^ 32) : TablesCounted s' := by
  cases c with
  | storeI64 scope table payer id buffer =>
    obtain ⟨⟨s', oid⟩, hs, rfl⟩ := Except.map_eq_ok.mp h
    exact hc.store (dbStoreI64_effect hs) hb
  | updateI64 iterator payer buffer =>
    obtain ⟨ht, hr⟩ := dbUpdateI64_rows h
    exact hc.frame ht hr
  | removeI64 iterator => exact hc.remove (dbRemoveI64_effect h)
  | idxStore kind scope table payer id secondary =>
    obtain ⟨⟨s', oid⟩, hs, rfl⟩ := Except.map_eq_ok.mp h
    exact hc.store (idxStore_effect hs) hb
  | idxUpdate kind iterator payer secondary =>
    obtain ⟨ht, hr⟩ := idxUpdate_rows h
    exact hc.frame ht hr
  | idxRemove kind iterator => exact hc.remove (idxRemove_effect h)

/-- A call adds at most one row to a table. -/
theorem DbCall.apply_rows_le {c : DbCall} (h : c.apply env s = .ok s') (x : Nat) : rowsOf s' x ≤ rowsOf s x + 1 := by
  have hmove : ∀ tid : Nat, moveAt tid 1 x ≤ 1 := fun tid => by unfold moveAt; split <;> omega
  have hmove' : ∀ tid : Nat, 0 ≤ moveAt tid 1 x := fun tid => by unfold moveAt; split <;> omega
  have hstore : StoreEffect s s' → rowsOf s' x ≤ rowsOf s x + 1 := by
    rintro ⟨tid, -, -, -, -, hrows⟩
    have := hrows x
    have := hmove tid
    omega
  have hremove : RemoveEffect s s' → rowsOf s' x ≤ rowsOf s x + 1 := by
    rintro ⟨tid, -, -, -, -, -, hrows⟩
    have := hrows x
    have := hmove' tid
    omega
  cases c with
  | storeI64 scope table payer id buffer =>
    obtain ⟨⟨s', oid⟩, hs, rfl⟩ := Except.map_eq_ok.mp h
    exact hstore (dbStoreI64_effect hs)
  | updateI64 iterator payer buffer => exact (congrFun (dbUpdateI64_rows h).2 x).le.trans (Nat.le_succ _)
  | removeI64 iterator => exact hremove (dbRemoveI64_effect h)
  | idxStore kind scope table payer id secondary =>
    obtain ⟨⟨s', oid⟩, hs, rfl⟩ := Except.map_eq_ok.mp h
    exact hstore (idxStore_effect hs)
  | idxUpdate kind iterator payer secondary => exact (congrFun (idxUpdate_rows h).2 x).le.trans (Nat.le_succ _)
  | idxRemove kind iterator => exact hremove (idxRemove_effect h)

end ApplyState

/-! ## Runs -/

theorem runCalls_cons (env : ApplyEnv) (c : DbCall) (calls : List (ApplyEnv × DbCall)) (s : ApplyState) :
    runCalls ((env, c) :: calls) s = c.apply env s >>= runCalls calls := rfl

theorem runCalls_append (calls calls' : List (ApplyEnv × DbCall)) (s : ApplyState) :
    runCalls (calls ++ calls') s = runCalls calls s >>= runCalls calls' := by
  simp only [runCalls, List.foldlM_append]
  rfl

/-- After every prefix of the run, every table holds fewer than `2^32` rows. -/
def RowsBelow (calls : List (ApplyEnv × DbCall)) (s : ApplyState) : Prop :=
  ∀ n s', runCalls (calls.take n) s = .ok s' → ∀ x, rowsOf s' x < 2 ^ 32

/-- **Run lemma.** Runs that keep every table below `2^32` rows keep the tables counted. -/
theorem runCalls_counted : ∀ {calls : List (ApplyEnv × DbCall)} {s s' : ApplyState},
    TablesCounted s → runCalls calls s = .ok s' → RowsBelow calls s → TablesCounted s'
  | [], s, s', hc, h, _ => by
    simp only [runCalls, List.foldlM_nil, pure, Except.pure, Except.ok.injEq] at h
    exact h ▸ hc
  | (env, c) :: calls, s, s', hc, h, hb => by
    simp only [runCalls_cons, bind, Except.bind_eq_ok] at h
    obtain ⟨s₁, h₁, h⟩ := h
    have hfirst : runCalls (((env, c) :: calls).take 1) s = .ok s₁ := by
      simp only [List.take_succ_cons, List.take_zero, runCalls_cons, bind, Except.bind_eq_ok]
      exact ⟨s₁, h₁, rfl⟩
    have hrest : RowsBelow calls s₁ := by
      intro n s₂ hn
      apply hb (n + 1) s₂
      simp only [List.take_succ_cons, runCalls_cons, bind, Except.bind_eq_ok]
      exact ⟨s₁, h₁, hn⟩
    exact runCalls_counted (ApplyState.DbCall.apply_counted hc h₁ (hb 1 s₁ hfirst)) h hrest

theorem runCalls_rows_le : ∀ {calls : List (ApplyEnv × DbCall)} {s s' : ApplyState},
    runCalls calls s = .ok s' → ∀ x, rowsOf s' x ≤ rowsOf s x + calls.length
  | [], s, s', h, x => by
    simp only [runCalls, List.foldlM_nil, pure, Except.pure, Except.ok.injEq] at h
    subst h
    exact Nat.le_add_right _ _
  | (env, c) :: calls, s, s', h, x => by
    simp only [runCalls_cons, bind, Except.bind_eq_ok] at h
    obtain ⟨s₁, h₁, h⟩ := h
    have := ApplyState.DbCall.apply_rows_le h₁ x
    have := runCalls_rows_le h x
    simp only [List.length_cons]
    omega

/-- From tables with no rows, a run of fewer than `2^32` calls never fills a table. -/
theorem rowsBelow_of_length {calls : List (ApplyEnv × DbCall)} {s : ApplyState} (hs : ∀ x, rowsOf s x = 0)
    (hlen : calls.length < 2 ^ 32) : RowsBelow calls s := by
  intro n s' h x
  have hrows := runCalls_rows_le h x
  have htake := List.length_take_le' n calls
  rw [hs] at hrows
  omega

/-- In every state reached from no table and no row, by calls that all return and after each of which every table
holds fewer than `2^32` rows, every table's `count` is its number of rows, and a table exists exactly when it has
rows. -/
theorem table_counts_exact {calls : List (ApplyEnv × DbCall)} {s s' : ApplyState}
    (hs : ∀ x, s.tables.indices.find? x = none ∧ rowsOf s x = 0) (h : runCalls calls s = .ok s')
    (hb : RowsBelow calls s) (tid : Nat) :
    (∀ t, s'.tables.indices.find? tid = some t → t.count.toNat = rowsOf s' tid) ∧
      ((s'.tables.indices.find? tid).isSome ↔ 0 < rowsOf s' tid) := by
  have hc₀ : TablesCounted s :=
    ⟨fun x t hx => by simp [(hs x).1] at hx, fun x t hx => by simp [(hs x).1] at hx, fun x _ => (hs x).2⟩
  have hc := runCalls_counted hc₀ h hb
  refine ⟨fun t ht => hc.count_eq tid t ht, ?_⟩
  cases ht : s'.tables.indices.find? tid with
  | some t => simpa using hc.count_pos tid t ht
  | none => simp [hc.no_orphans tid ht]

theorem twoAccounts_eq : ∃ rl, twoAccounts = .ok ⟨.init, .init, fun _ => .init, .init, rl, .empty, .empty, .empty⟩ :=
  ⟨_, rfl⟩

theorem table_counts_exact_billing :
    ∃ s₀ s, twoAccounts = .ok s₀ ∧ runCalls billingCalls s₀ = .ok s ∧
      (∀ t, s.tables.indices.find? 0 = some t → t.count.toNat = rowsOf s 0) ∧
        ((s.tables.indices.find? 0).isSome ↔ 0 < rowsOf s 0) := by
  obtain ⟨rl, h₀⟩ := twoAccounts_eq
  obtain ⟨s, h⟩ : ∃ s, (twoAccounts >>= runCalls billingCalls) = .ok s := ⟨_, rfl⟩
  rw [h₀] at h
  have hs : ∀ x, (⟨.init, .init, fun _ => .init, .init, rl, .empty, .empty, .empty⟩ : ApplyState).tables.indices.find? x
      = none ∧ rowsOf ⟨.init, .init, fun _ => .init, .init, rl, .empty, .empty, .empty⟩ x = 0 := fun x =>
    ⟨rfl, by simp [rowsOf, costAt, GenericIndex.init, SecondaryKind.all]⟩
  exact ⟨_, s, h₀, h, table_counts_exact hs h (rowsBelow_of_length (fun x => (hs x).2) (by decide)) 0⟩

/-! ## A table of `2^32` rows -/

/-- `alice` stores `n` empty rows with the primary keys `0, …, n-1` in her table `accounts`. -/
def fillCalls (n : Nat) : List (ApplyEnv × DbCall) :=
  (List.range n).map fun i => (validatingEnv, .storeI64 (N "alice") (N "accounts") (N "alice") i.toUInt64 [])

/-- The state after `k` of those rows: one table, whose count is `k` as a `uint32_t`, `k` rows, and `alice`
billed for the table and the rows. -/
structure Filled (k : Nat) (s : ApplyState) : Prop where
  table : ∃ t, s.tables.indices.entries = [(0, t)] ∧ t.code = N "alice" ∧ t.scope = N "alice" ∧
    t.table = N "accounts" ∧ t.count.toNat = k % 2 ^ 32
  nextId : s.keyValues.nextId = k
  rows : ∀ i v, s.keyValues.indices.find? i = some v → i < k ∧ v.tId = 0 ∧ v.primaryKey = i.toUInt64
  rowsOf_eq : rowsOf s 0 = k
  usage : s.rl.usage.indices.entries = [(0, ⟨N "alice", 112 * (k + 1)⟩), (1, ⟨N "bob", 0⟩)]
  activation : s.rl.activation = GenericIndex.init

/-- Charging one row to `alice`, while gas is not activated, adds its `112` bytes to her usage. -/
theorem addPendingRamUsage_alice {m : GasManager} {u : Nat}
    (hu : m.usage.indices.entries = [(0, ⟨N "alice", u⟩), (1, ⟨N "bob", 0⟩)])
    (ha : m.activation = GenericIndex.init) (hfit : u + 112 ≤ uint64Max) :
    ∃ m', m.addPendingRamUsage (N "alice") 112 = .ok m' ∧
      m'.usage.indices.entries = [(0, ⟨N "alice", u + 112⟩), (1, ⟨N "bob", 0⟩)] ∧
      m'.activation = GenericIndex.init := by
  have hget : getUsage m.usage.indices (N "alice") = .ok (0, ⟨N "alice", u⟩) := by
    simp [getUsage, hu]
  have h112 : toUint64 112 = 112 := rfl
  have hfind : m.usage.indices.find? 0 = some ⟨N "alice", u⟩ := by
    simp [OrdMap.find?, hu]
  have hba : N "bob" ≠ N "alice" := by decide
  have hmod : (m.usage.modify resourceUsageIndex 0 fun u =>
      { u with ramUsage := (u.ramUsage + toUint64 112) % 2 ^ 64 }).2 = none := by
    simp [GenericIndex.modify, hfind, modifyObject, collides, resourceUsageIndex, hu, hba]
  have hoff : GasManager.isActivation { m with usage := (m.usage.modify resourceUsageIndex 0 fun u =>
      { u with ramUsage := (u.ramUsage + toUint64 112) % 2 ^ 64 }).1 } = false := by
    simp [GasManager.isActivation, findActivation, ha, GenericIndex.init, OrdMap.empty]
  refine ⟨{ m with usage := (m.usage.modify resourceUsageIndex 0 fun u =>
      { u with ramUsage := (u.ramUsage + toUint64 112) % 2 ^ 64 }).1 }, ?_, ?_, ha⟩
  · have hov : (decide ((112 : Int) ≤ 0) || decide (uint64Max - u ≥ toUint64 112)) = true := by
      rw [h112]
      simp only [decide_eq_true_eq, Bool.or_eq_true]
      omega
    have hun : (decide ((112 : Int) ≥ 0) || decide (u ≥ toUint64 (-112))) = true := by simp
    have hlift : liftGas (m.usage.modify resourceUsageIndex 0 fun u =>
        { u with ramUsage := (u.ramUsage + toUint64 112) % 2 ^ 64 }) =
        .ok (m.usage.modify resourceUsageIndex 0 fun u => { u with ramUsage := (u.ramUsage + toUint64 112) % 2 ^ 64 }).1 := by
      unfold liftGas
      rw [hmod]
    simp only [GasManager.addPendingRamUsage, hget, bind, Except.bind, hov, hun, Except.assert, if_true, hlift, hoff,
      Bool.false_eq_true, if_false]
    rfl
  · obtain ⟨v, hv, heq⟩ := GenericIndex.modify_ok resourceUsageIndex hmod
    rw [heq]
    rw [hfind, Option.some_inj] at hv
    subst hv
    simp [OrdMap.erase, OrdMap.insert, OrdMap.insertEntry, hu, h112]
    unfold uint64Max at hfit
    omega

/-- The row of primary key `i`. -/
def filledRow (i : Nat) : KeyValueObject := ⟨0, i.toUInt64, N "alice", []⟩

/-- One more row: the table is found, the row takes the next id, the count goes up modulo `2^32`. -/
theorem fill_step {k : Nat} {s : ApplyState} (hf : Filled k s) (hk : k < 2 ^ 32) :
    ∃ s', (DbCall.storeI64 (N "alice") (N "accounts") (N "alice") k.toUInt64 []).apply validatingEnv s = .ok s' ∧
      Filled (k + 1) s' := by
  obtain ⟨t, htab, hcode, hscope, htable, hcount⟩ := hf.table
  -- the table is found
  have hfind : s.findTable (N "alice") (N "alice") (N "accounts") = some (0, t) := by
    simp [ApplyState.findTable, htab, hcode, hscope, htable]
  -- the row takes a fresh id and a fresh primary key
  have hfresh : s.keyValues.indices.contains s.keyValues.nextId = false := by
    cases h : s.keyValues.indices.find? s.keyValues.nextId with
    | none => simp [OrdMap.contains, h]
    | some v => exact absurd (hf.rows _ v h).1 (by rw [hf.nextId]; exact Nat.lt_irrefl k)
  have hcoll : collides keyValueIndex s.keyValues.indices s.keyValues.nextId (filledRow k) = false := by
    refine collides_eq_false_iff.mpr fun y vy hy _ key hkey heq => ?_
    simp only [keyValueIndex, List.mem_singleton] at hkey
    subst hkey
    obtain ⟨hyk, -, hpk⟩ := hf.rows y vy hy
    have := congrArg (fun p => p.2.toNat) heq
    simp only [filledRow, hpk, Nat.toUInt64_eq] at this
    simp at this
    omega
  have hemp : (s.keyValues.emplace keyValueIndex (filledRow k)).2 = none := by
    simp [GenericIndex.emplace, emplaceObject, hfresh, hcoll]
  have hemp' : (s.keyValues.emplace keyValueIndex ⟨0, k.toUInt64, N "alice", []⟩).2 = none := hemp
  have htfind : s.tables.indices.find? 0 = some t := by simp [OrdMap.find?, htab]
  have hcnt : (s.tables.modify tableIdIndex 0 fun t => { t with count := t.count + 1 }).2 = none := by
    simp [GenericIndex.modify, htfind, modifyObject, collides, htab]
  obtain ⟨m', hm', hmu, hma⟩ := addPendingRamUsage_alice hf.usage hf.activation (by unfold uint64Max; omega)
  have hne : (N "alice").empty = false := by decide
  have h112 : ((([] : List UInt8).length : Int) + (KeyValueObject.billableSize : Int)) = 112 := by decide
  have hrecv : validatingEnv.receiver = N "alice" := rfl
  generalize hres : (DbCall.storeI64 (N "alice") (N "accounts") (N "alice") k.toUInt64 []).apply validatingEnv s = r
  simp only [DbCall.apply, ApplyState.dbStoreI64, ApplyState.findOrCreateTable, hrecv, hfind, hne, h112, bind,
    Except.bind, Bool.not_false, Except.assert, if_true, liftDb, hemp', ApplyState.modifyCount, hcnt, pure,
    Except.pure, ApplyState.updateDbUsage, ApplyState.addRamUsage, hm', Except.mapError, or_true, not_true,
    and_false, if_false, Functor.map, Except.map] at hres
  subst hres
  refine ⟨_, rfl, ⟨?_, ?_, ?_, ?_, ?_, hma⟩⟩
  · -- the table: one more row
    obtain ⟨v, hv, heq⟩ := GenericIndex.modify_ok tableIdIndex hcnt
    rw [htfind, Option.some_inj] at hv
    subst hv
    refine ⟨{ t with count := t.count + 1 }, ?_, hcode, hscope, htable, ?_⟩
    · rw [heq]
      simp [OrdMap.erase, OrdMap.insert, OrdMap.insertEntry, htab]
    · simp only [UInt32.toNat_add, UInt32.toNat_one, hcount]
      omega
  · -- the row took the next id
    rw [(GenericIndex.emplace_ok keyValueIndex hemp').2, GenericIndex.nextId_onHead, hf.nextId]
  · -- the rows: the old ones and the new one
    intro i v hv
    rw [GenericIndex.find?_emplace keyValueIndex hemp'] at hv
    split_ifs at hv with hi
    · simp only [Option.some.injEq] at hv
      subst hv
      rw [hf.nextId] at hi
      exact ⟨by omega, rfl, by rw [hi]⟩
    · obtain ⟨hik, htid, hpk⟩ := hf.rows i v hv
      exact ⟨by omega, htid, hpk⟩
  · have hrow := costAt_emplace KeyValueObject.tId (fun _ => 1) 0 hemp'
    have hk := hf.rowsOf_eq
    simp only [rowsOf] at hrow hk ⊢
    simp only [moveAt, if_true, Nat.cast_one] at hrow
    omega
  · rw [hmu]
    congr 4

theorem fillCalls_succ (k : Nat) :
    fillCalls (k + 1) =
      fillCalls k ++ [(validatingEnv, .storeI64 (N "alice") (N "accounts") (N "alice") k.toUInt64 [])] := by
  simp [fillCalls, List.range_succ]

/-- The first row creates the table. -/
theorem fill_one : ∃ s₀ s, twoAccounts = .ok s₀ ∧ runCalls (fillCalls 1) s₀ = .ok s ∧ Filled 1 s := by
  obtain ⟨s₀, s, h₀, h⟩ : ∃ s₀ s, twoAccounts = .ok s₀ ∧ runCalls (fillCalls 1) s₀ = .ok s := ⟨_, _, rfl, rfl⟩
  have hrun : (twoAccounts >>= runCalls (fillCalls 1)).toOption.map (fun s => (s.tables.indices.entries,
      s.keyValues.nextId, s.keyValues.indices.entries, rowsOf s 0)) =
      some ([(0, ⟨N "alice", N "alice", N "accounts", N "alice", 1⟩)], 1, [(0, filledRow 0)], 1) := by
    decide
  have hrl : (twoAccounts >>= runCalls (fillCalls 1)).toOption.map (fun s => (s.rl.usage.indices.entries,
      s.rl.activation)) = some ([(0, ⟨N "alice", 224⟩), (1, ⟨N "bob", 0⟩)], GenericIndex.init) := by
    decide
  simp only [h₀, bind, Except.bind, h, Except.toOption, Option.map_some, Option.some.injEq, Prod.mk.injEq] at hrun hrl
  obtain ⟨htab, hnext, hrows, hcount⟩ := hrun
  obtain ⟨husage, hact⟩ := hrl
  refine ⟨s₀, s, h₀, h, ⟨⟨_, htab, rfl, rfl, rfl, rfl⟩, hnext, fun i v hv => ?_, hcount, husage, hact⟩⟩
  simp only [OrdMap.find?, hrows, List.lookup_cons, List.lookup_nil] at hv
  split at hv
  · simp only [Option.some.injEq] at hv
    subst hv
    rename_i hi
    simp at hi
    subst hi
    exact ⟨by decide, rfl, rfl⟩
  · simp at hv

/-- Every count of rows up to `2^32` is reached, one store at a time. -/
theorem fill_reaches {s₀ : ApplyState} (h₀ : twoAccounts = .ok s₀) {k : Nat} (hk₁ : 1 ≤ k) (hk : k ≤ 2 ^ 32) :
    ∃ s, runCalls (fillCalls k) s₀ = .ok s ∧ Filled k s := by
  induction k, hk₁ using Nat.le_induction with
  | base =>
    obtain ⟨s₁, s, h₁, h, hf⟩ := fill_one
    rw [h₀, Except.ok.injEq] at h₁
    subst h₁
    exact ⟨s, h, hf⟩
  | succ k hk₁ ih =>
    obtain ⟨s, h, hf⟩ := ih (by omega)
    obtain ⟨s', h', hf'⟩ := fill_step hf (by omega)
    refine ⟨s', ?_, hf'⟩
    rw [fillCalls_succ, runCalls_append, h]
    simp only [bind, Except.bind, runCalls_cons, h']
    rfl

/-- After `2^32` rows in one table, its `count` has wrapped to `0`. -/
theorem table_count_wraps :
    ∃ s₀ s, twoAccounts = .ok s₀ ∧ runCalls (fillCalls (2 ^ 32)) s₀ = .ok s ∧
      ∃ t, s.tables.indices.find? 0 = some t ∧ t.count = 0 ∧ rowsOf s 0 = 2 ^ 32 := by
  obtain ⟨s₀, -, h₀, -⟩ := fill_one
  obtain ⟨s, h, hf⟩ := fill_reaches h₀ (by decide) le_rfl
  obtain ⟨t, htab, -, -, -, hcount⟩ := hf.table
  refine ⟨s₀, s, h₀, h, t, by simp [OrdMap.find?, htab], ?_, hf.rowsOf_eq⟩
  apply UInt32.toNat_inj.mp
  rw [hcount]
  rfl

end Gstio.Chain
