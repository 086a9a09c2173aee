import Mathlib
import Gstio.Chain.Merkle
import Gstio.Lib.Bits

/-!
# `incremental_merkle`

An `incremental_merkle_impl` keeps the count of leaves appended so far and the active nodes: the left siblings a
later append will hash with, and last the root. `append` walks up from the new leaf for `⌈log₂ n⌉` levels (from
`calcluate_max_depth`, itself from `next_power_of_2` and `clz_power_2`): at a left node it stores the node the
first time and hashes it with itself, at a right node it takes the next old active node as the left sibling.

* `calcluateMaxDepth_eq`: the depth is `⌈log₂ n⌉ + 1` for `1 ≤ n < 2^64`;
* `activeNodesOf`, `length_activeNodesOf`: what the active nodes of `n` digests should be, one per set bit of `n`
  below the root level and the root;
* `LoopState`, `LoopState.even`, `LoopState.odd`, `LoopState.run`: the invariant of the loop of `append`, kept
  level by level, and what the loop returns;
* `append_spec`, `appendAll_spec`: an append to a tree holding `activeNodesOf ds` returns the `merkle` of the new
  digests and holds `activeNodesOf` of them, reading only old active nodes that are there, as long as the count
  fits its `uint64_t`; at `2^64` digests the count wraps (`root_wraps_at_two_pow_64`).
-/

namespace Gstio.Chain

open PairLevels

/-- `detail::next_power_of_2`. -/
def nextPowerOf2 (value : UInt64) : UInt64 :=
  let value := value - 1
  let value := value ||| value >>> 1
  let value := value ||| value >>> 2
  let value := value ||| value >>> 4
  let value := value ||| value >>> 8
  let value := value ||| value >>> 16
  let value := value ||| value >>> 32
  value + 1

/-- `detail::clz_power_2`. On a power of two `2^k` it gives `k`. -/
def clzPower2 (value : UInt64) : Int :=
  let lz : Int := 64
  let lz := if value != 0 then lz - 1 else lz
  let lz := if value &&& 0x00000000FFFFFFFF != 0 then lz - 32 else lz
  let lz := if value &&& 0x0000FFFF0000FFFF != 0 then lz - 16 else lz
  let lz := if value &&& 0x00FF00FF00FF00FF != 0 then lz - 8 else lz
  let lz := if value &&& 0x0F0F0F0F0F0F0F0F != 0 then lz - 4 else lz
  let lz := if value &&& 0x3333333333333333 != 0 then lz - 2 else lz
  let lz := if value &&& 0x5555555555555555 != 0 then lz - 1 else lz
  lz

/-- `detail::calcluate_max_depth`. -/
def calcluateMaxDepth (nodeCount : UInt64) : Int :=
  if nodeCount = 0 then 0 else clzPower2 (nextPowerOf2 nodeCount) + 1

/-- `incremental_merkle_impl`: `_node_count` and `_active_nodes`. -/
structure IncrementalMerkle (D : Type) where
  nodeCount : UInt64
  activeNodes : List D
  deriving DecidableEq, Repr

/-- `incremental_merkle_impl()`: no leaf, no active node. -/
def IncrementalMerkle.empty {D : Type} : IncrementalMerkle D := ⟨0, []⟩

variable {D : Type} [Inhabited D] (hashPair : D → D → D)

/-- The `while` loop of `append`, with `currentDepth` turns left. It returns `top` and `updated_active_nodes`, or
`none` where it would dereference `active_iter` at the end of the old active nodes. -/
def appendLoop : (currentDepth : Nat) → (index : UInt64) → (top : D) → (isPartial : Bool) →
    (activeIter updatedActiveNodes : List D) → Option (D × List D)
  | 0, _, top, _, _, updatedActiveNodes => some (top, updatedActiveNodes)
  | currentDepth + 1, index, top, isPartial, activeIter, updatedActiveNodes =>
    if index &&& 1 = 0 then
      appendLoop currentDepth (index >>> 1) (hashPair top top) true activeIter
        (if !isPartial then updatedActiveNodes ++ [top] else updatedActiveNodes)
    else
      match activeIter with
      | [] => none
      | leftValue :: activeIter =>
        appendLoop currentDepth (index >>> 1) (hashPair leftValue top) isPartial activeIter
          (if isPartial then updatedActiveNodes ++ [leftValue] else updatedActiveNodes)

omit [Inhabited D] in
/-- A left node: hashed with itself, and stored when its subtree is complete. -/
theorem appendLoop_left {k : Nat} {index : UInt64} {top : D} {isPartial : Bool} {activeIter updated : List D}
    (hbit : index &&& 1 = 0) :
    appendLoop hashPair (k + 1) index top isPartial activeIter updated =
      appendLoop hashPair k (index >>> 1) (hashPair top top) true activeIter
        (if !isPartial then updated ++ [top] else updated) := by
  cases activeIter <;> rw [appendLoop, if_pos hbit]

omit [Inhabited D] in
/-- A right node: hashed with the next active node, kept when the subtree is incomplete. -/
theorem appendLoop_right {k : Nat} {index : UInt64} {top leftValue : D} {isPartial : Bool}
    {activeIter updated : List D} (hbit : ¬ index &&& 1 = 0) :
    appendLoop hashPair (k + 1) index top isPartial (leftValue :: activeIter) updated =
      appendLoop hashPair k (index >>> 1) (hashPair leftValue top) isPartial activeIter
        (if isPartial then updated ++ [leftValue] else updated) := by
  rw [appendLoop, if_neg hbit]

/-- `append`: the new tree, and the `_active_nodes.back()` it returns. The loop runs `max_depth - 1` times, none
when that is negative. -/
def append (m : IncrementalMerkle D) (digest : D) : Option (IncrementalMerkle D × D) := do
  let maxDepth := calcluateMaxDepth (m.nodeCount + 1)
  let (top, updatedActiveNodes) ←
    appendLoop hashPair (maxDepth - 1).toNat m.nodeCount digest false m.activeNodes []
  pure (⟨m.nodeCount + 1, updatedActiveNodes ++ [top]⟩, top)

/-- `get_root`: the last active node, `DigestType()` for no leaf; `none` for a `back()` of no active node. -/
def getRoot (m : IncrementalMerkle D) : Option D :=
  if m.nodeCount > 0 then m.activeNodes.getLast? else some default

/-- `append` of the digests in turn. -/
def appendAll (m : IncrementalMerkle D) : List D → Option (IncrementalMerkle D)
  | [] => some m
  | d :: ds => do
    let (m, _) ← append hashPair m d
    appendAll m ds

/-! ## What the active nodes hold -/

/-- The node `activeNodesOf` keeps for level `j`: the last complete node of the level, when the level has an odd
number of complete nodes. -/
def frontierEntry (ds : List D) (j : Nat) : Option D :=
  if ds.length / 2 ^ j % 2 = 1 then (levels hashPair j ds)[ds.length / 2 ^ j - 1]? else none

/-- The active nodes of a tree over `ds`: a node for each level below the root at which the count of complete
nodes is odd, the left sibling the next append needs there; then the root. -/
def activeNodesOf (ds : List D) : List D :=
  if ds = [] then [] else
    (List.range (Nat.clog 2 ds.length)).filterMap (frontierEntry hashPair ds) ++ [merkle hashPair ds]

/-- The active nodes of `ds` that an append has not read when it reaches level `ℓ`. -/
def activeNodesFrom (ds : List D) (ℓ : Nat) : List D :=
  (List.range' ℓ (Nat.clog 2 ds.length - ℓ)).filterMap (frontierEntry hashPair ds) ++
    if ℓ ≤ Nat.clog 2 ds.length then [merkle hashPair ds] else []

/-! ## The depth -/

theorem nextPowerOf2_toNat_eq (v : UInt64) :
    (nextPowerOf2 v).toNat = ((v - 1).toNat.orShifts (Nat.doublings 6) + 1) % 2 ^ 64 := by
  simp [nextPowerOf2, Nat.orShifts, Nat.doublings, List.range_succ, UInt64.toNat_add, UInt64.toNat_or,
    UInt64.toNat_shiftRight]

/-- `next_power_of_2` rounds a nonzero count up to a power of two, `0` for `2^64`. -/
theorem nextPowerOf2_toNat {v : UInt64} (hv : v ≠ 0) : (nextPowerOf2 v).toNat = 2 ^ Nat.clog 2 v.toNat % 2 ^ 64 := by
  have hpos : 1 ≤ v.toNat := by
    rcases Nat.eq_zero_or_pos v.toNat with h | h
    · exact absurd (UInt64.toNat_inj.mp (h.trans UInt64.toNat_zero.symm)) hv
    · exact h
  have hsub : (v - 1).toNat = v.toNat - 1 := UInt64.toNat_sub_of_le v 1 (UInt64.le_iff_toNat_le.mpr hpos)
  rw [nextPowerOf2_toNat_eq, hsub]
  rcases Nat.lt_or_ge v.toNat 2 with hone | htwo
  · rw [show v.toNat = 1 by omega, Nat.clog_one_right]
    simp [Nat.orShifts, Nat.doublings, List.range_succ]
  · have hne : v.toNat - 1 ≠ 0 := by omega
    have hbits : v.toNat - 1 < 2 ^ 2 ^ 6 := by
      have := UInt64.toNat_lt v
      omega
    rw [Nat.orShifts_doublings_eq hne hbits, Nat.clog_two_eq htwo, Nat.sub_add_cancel Nat.one_le_two_pow]

theorem clzPower2_two_pow : ∀ k : Fin 64, clzPower2 (UInt64.ofNat (2 ^ k.val)) = k.val := by decide

theorem clzPower2_zero : clzPower2 0 = 64 := by decide

/-- For `1 ≤ n < 2^64` the tree over `n` leaves has `⌈log₂ n⌉ + 1` levels. -/
theorem calcluateMaxDepth_eq {v : UInt64} (hv : v ≠ 0) : calcluateMaxDepth v = Nat.clog 2 v.toNat + 1 := by
  have hc : Nat.clog 2 v.toNat ≤ 64 :=
    (Nat.clog_le_iff_le_pow (by omega)).mpr (Nat.le_of_lt (UInt64.toNat_lt v))
  have heq : nextPowerOf2 v = UInt64.ofNat (2 ^ Nat.clog 2 v.toNat) :=
    UInt64.toNat_inj.mp (by rw [nextPowerOf2_toNat hv, UInt64.toNat_ofNat'])
  rw [calcluateMaxDepth, if_neg hv, heq]
  rcases Nat.lt_or_ge (Nat.clog 2 v.toNat) 64 with hlt | hge
  · rw [clzPower2_two_pow ⟨_, hlt⟩]
  · rw [show Nat.clog 2 v.toNat = 64 by omega, show UInt64.ofNat (2 ^ 64) = 0 by decide, clzPower2_zero]
    rfl

/-! ## The counter -/

theorem and_one_eq_zero_iff (x : UInt64) : x &&& 1 = 0 ↔ x.toNat % 2 = 0 := by
  rw [← UInt64.toNat_inj, UInt64.toNat_and, UInt64.toNat_one, Nat.and_one_is_mod, UInt64.toNat_zero]

theorem toNat_shiftRight_one (x : UInt64) : (x >>> 1).toNat = x.toNat / 2 := by
  rw [UInt64.toNat_shiftRight, UInt64.toNat_one, Nat.shiftRight_eq_div_pow]

/-! ## The unread active nodes -/

section ActiveNodes

variable {hashPair} {ds : List D} {ℓ : Nat}

omit [Inhabited D] in
/-- Level `j` has an active node exactly when bit `j` of the count is set. -/
theorem frontierEntry_isSome_iff : (frontierEntry hashPair ds ℓ).isSome ↔ ds.length.testBit ℓ = true := by
  rw [Nat.testBit_eq_decide_div_mod_eq, decide_eq_true_iff, frontierEntry]
  by_cases hodd : ds.length / 2 ^ ℓ % 2 = 1
  · have hp : 0 < 2 ^ ℓ := Nat.two_pow_pos ℓ
    have hne : ds ≠ [] := by
      rintro rfl
      simp at hodd
    -- the last complete node of the level is within it
    have hin : ds.length / 2 ^ ℓ - 1 < (levels hashPair ℓ ds).length := by
      rw [length_levels hne, Nat.lt_succ_iff, Nat.le_div_iff_mul_le hp, Nat.sub_mul, Nat.one_mul]
      have := Nat.div_mul_le_self ds.length (2 ^ ℓ)
      omega
    rw [if_pos hodd, List.getElem?_eq_getElem hin]
    simp [hodd]
  · rw [if_neg hodd]
    simp [hodd]

/-- A tree over `n ≥ 1` digests has one active node per set bit of `n` below `⌈log₂ n⌉`, and the root. -/
theorem length_activeNodesOf (hne : ds ≠ []) :
    (activeNodesOf hashPair ds).length = (List.range (Nat.clog 2 ds.length)).countP (ds.length.testBit ·) + 1 := by
  rw [activeNodesOf, if_neg hne, List.length_append, List.length_filterMap_eq_countP, List.length_singleton]
  exact congrArg (· + 1) (List.countP_congr fun j _ => frontierEntry_isSome_iff)

theorem activeNodesOf_eq_from (hne : ds ≠ []) : activeNodesOf hashPair ds = activeNodesFrom hashPair ds 0 := by
  rw [activeNodesOf, if_neg hne, activeNodesFrom, List.range_eq_range', Nat.sub_zero, if_pos (Nat.zero_le _)]

theorem activeNodesFrom_of_none (hℓ : ℓ < Nat.clog 2 ds.length) (h : frontierEntry hashPair ds ℓ = none) :
    activeNodesFrom hashPair ds ℓ = activeNodesFrom hashPair ds (ℓ + 1) := by
  rw [activeNodesFrom, activeNodesFrom, show Nat.clog 2 ds.length - ℓ = Nat.clog 2 ds.length - (ℓ + 1) + 1 by omega,
    List.range'_succ, List.filterMap_cons, h, if_pos (by omega), if_pos (by omega)]

theorem activeNodesFrom_of_some (hℓ : ℓ < Nat.clog 2 ds.length) {x : D} (h : frontierEntry hashPair ds ℓ = some x) :
    activeNodesFrom hashPair ds ℓ = x :: activeNodesFrom hashPair ds (ℓ + 1) := by
  rw [activeNodesFrom, activeNodesFrom, show Nat.clog 2 ds.length - ℓ = Nat.clog 2 ds.length - (ℓ + 1) + 1 by omega,
    List.range'_succ, List.filterMap_cons, h, if_pos (by omega), if_pos (by omega)]
  rfl

theorem activeNodesFrom_clog : activeNodesFrom hashPair ds (Nat.clog 2 ds.length) = [merkle hashPair ds] := by
  simp [activeNodesFrom]

theorem activeNodesFrom_clog_succ : activeNodesFrom hashPair ds (Nat.clog 2 ds.length + 1) = [] := by
  simp [activeNodesFrom]

variable (hashPair) in
/-- At a right node of level `ℓ` the next unread active node is the left sibling: the last complete node of the
level, or the old root when the old count is `2^ℓ`. -/
theorem activeNodesFrom_read {old : List D} {d : D} (hℓ : 2 ^ ℓ < old.length + 1)
    (hodd : old.length / 2 ^ ℓ % 2 = 1) :
    ∃ x, (levels hashPair ℓ (old ++ [d]))[old.length / 2 ^ ℓ - 1]? = some x ∧
      activeNodesFrom hashPair old ℓ = x :: activeNodesFrom hashPair old (ℓ + 1) := by
  have hp : 0 < 2 ^ ℓ := Nat.two_pow_pos ℓ
  have hq : 1 ≤ old.length / 2 ^ ℓ := (Nat.le_div_iff_mul_le hp).mpr (by omega)
  have hne : old ≠ [] := List.ne_nil_of_length_pos (by omega)
  -- the sibling's block lies within the old digests
  have hprefix : (levels hashPair ℓ old)[old.length / 2 ^ ℓ - 1]? =
      (levels hashPair ℓ (old ++ [d]))[old.length / 2 ^ ℓ - 1]? := by
    have hblock : (old.length / 2 ^ ℓ - 1 + 1) * 2 ^ ℓ ≤ old.length := by
      rw [Nat.sub_add_cancel hq]
      exact Nat.div_mul_le_self _ _
    rw [← getElem?_levels_take (l := old ++ [d]) hblock, List.take_left' rfl]
  have hlen := length_levels_append_singleton (h := hashPair) old d ℓ
  obtain ⟨x, hx⟩ : ∃ x, (levels hashPair ℓ (old ++ [d]))[old.length / 2 ^ ℓ - 1]? = some x :=
    ⟨_, List.getElem?_eq_getElem (by omega)⟩
  refine ⟨x, hx, ?_⟩
  by_cases hK : ℓ < Nat.clog 2 old.length
  · refine activeNodesFrom_of_some hK ?_
    rw [frontierEntry, if_pos hodd, hprefix, hx]
  · -- the old count is `2^ℓ`: the sibling is the old root, the last active node
    have hpow : old.length = 2 ^ ℓ := by
      have hle := Nat.le_pow_clog (by omega : 1 < 2) old.length
      have hmono := Nat.pow_le_pow_right (by omega : 0 < 2) (Nat.le_of_not_lt hK)
      omega
    have hK' : Nat.clog 2 old.length = ℓ := by rw [hpow, Nat.clog_pow 2 ℓ (by omega)]
    rw [← hK', activeNodesFrom_clog, activeNodesFrom_clog_succ, merkle_eq_levels hne, hK']
    rw [hpow, Nat.div_self hp, Nat.sub_self] at hprefix hx
    rw [← hprefix] at hx
    cases hL : levels hashPair ℓ old with
    | nil => simp [hL] at hx
    | cons a t =>
      rw [hL] at hx
      simp only [List.getElem?_cons_zero, Option.some.injEq] at hx
      rw [← hx]
      rfl

end ActiveNodes

/-! ## The loop of `append` -/

/-- The state of the loop of `append` after `ℓ` turns, appending `d` to a tree over `old`: the index of the node
at level `ℓ` on the path of the new leaf, that node, whether the subtree below it is incomplete, the unread old
active nodes and the new ones so far. -/
structure LoopState (old : List D) (d : D) (ℓ : Nat) (index : UInt64) (top : D) (isPartial : Bool)
    (activeIter updated : List D) : Prop where
  index_eq : index.toNat = old.length / 2 ^ ℓ
  top_eq : (levels hashPair ℓ (old ++ [d]))[old.length / 2 ^ ℓ]? = some top
  isPartial_eq : isPartial = !decide (2 ^ ℓ ∣ old.length + 1)
  activeIter_eq : old ≠ [] → activeIter = activeNodesFrom hashPair old ℓ
  updated_eq : updated = (List.range ℓ).filterMap (frontierEntry hashPair (old ++ [d]))

section Loop

variable {hashPair} {old : List D} {d : D} {ℓ : Nat} {index : UInt64} {top : D} {isPartial : Bool}
  {activeIter updated : List D}

omit [Inhabited D] in
theorem frontierEntry_append (ℓ : Nat) :
    frontierEntry hashPair (old ++ [d]) ℓ =
      if (old.length + 1) / 2 ^ ℓ % 2 = 1 then
        (levels hashPair ℓ (old ++ [d]))[(old.length + 1) / 2 ^ ℓ - 1]? else none := by
  rw [frontierEntry, List.length_append, List.length_singleton]

omit [Inhabited D] in
theorem filterMap_range_succ (f : Nat → Option D) (ℓ : Nat) :
    (List.range (ℓ + 1)).filterMap f = (List.range ℓ).filterMap f ++ (f ℓ).toList := by
  rw [List.range_succ, List.filterMap_append, List.filterMap_cons, List.filterMap_nil]
  cases f ℓ <;> rfl

theorem LoopState.index_shift (hs : LoopState hashPair old d ℓ index top isPartial activeIter updated) :
    (index >>> 1).toNat = old.length / 2 ^ (ℓ + 1) := by
  rw [toNat_shiftRight_one, hs.index_eq, Nat.div_div_eq_div_mul, Nat.pow_succ]

/-- At a left node the new tree has an active node at level `ℓ` exactly when the subtree is complete: the node
itself. -/
theorem LoopState.frontierEntry_even (hs : LoopState hashPair old d ℓ index top isPartial activeIter updated)
    (heven : old.length / 2 ^ ℓ % 2 = 0) :
    frontierEntry hashPair (old ++ [d]) ℓ = if 2 ^ ℓ ∣ old.length + 1 then some top else none := by
  rw [frontierEntry_append]
  by_cases hdvd : 2 ^ ℓ ∣ old.length + 1
  · rw [if_pos hdvd, Nat.succ_div_of_dvd hdvd, if_pos (show (old.length / 2 ^ ℓ + 1) % 2 = 1 by omega),
      Nat.add_sub_cancel, hs.top_eq]
  · rw [if_neg hdvd, Nat.succ_div_of_not_dvd hdvd, if_neg (show ¬ old.length / 2 ^ ℓ % 2 = 1 by omega)]

omit [Inhabited D] in
/-- At a right node the new tree has an active node at level `ℓ` exactly when the subtree is incomplete: the left
sibling. -/
theorem LoopState.frontierEntry_odd (hodd : old.length / 2 ^ ℓ % 2 = 1) {x : D}
    (hx : (levels hashPair ℓ (old ++ [d]))[old.length / 2 ^ ℓ - 1]? = some x) :
    frontierEntry hashPair (old ++ [d]) ℓ = if 2 ^ ℓ ∣ old.length + 1 then none else some x := by
  rw [frontierEntry_append]
  by_cases hdvd : 2 ^ ℓ ∣ old.length + 1
  · rw [if_pos hdvd, Nat.succ_div_of_dvd hdvd, if_neg (show ¬ (old.length / 2 ^ ℓ + 1) % 2 = 1 by omega)]
  · rw [if_neg hdvd, Nat.succ_div_of_not_dvd hdvd, if_pos hodd, hx]

/-- **Step lemma**, left node. Below the old root there is no old active node at this level. -/
theorem LoopState.even (hs : LoopState hashPair old d ℓ index top isPartial activeIter updated)
    (hℓ : 2 ^ ℓ < old.length + 1) (heven : old.length / 2 ^ ℓ % 2 = 0) :
    LoopState hashPair old d (ℓ + 1) (index >>> 1) (hashPair top top) true activeIter
      (if !isPartial then updated ++ [top] else updated) := by
  have hp : 0 < 2 ^ ℓ := Nat.two_pow_pos ℓ
  have hlen := length_levels_append_singleton (h := hashPair) old d ℓ
  refine ⟨hs.index_shift, ?_, ?_, fun hne => ?_, ?_⟩
  · rw [Nat.pow_succ, ← Nat.div_div_eq_div_mul, getElem?_levels_succ,
      show 2 * (old.length / 2 ^ ℓ / 2) = old.length / 2 ^ ℓ by omega, hs.top_eq,
      List.getElem?_eq_none (by omega)]
    rfl
  · rw [Nat.pow_succ, Nat.mul_comm, decide_eq_false (Nat.not_two_mul_dvd_succ hp heven)]
    rfl
  · -- the old count is not `2^ℓ`, so level `ℓ` is below the old root
    have hK : ℓ < Nat.clog 2 old.length := by
      rw [Nat.lt_clog_iff_pow_lt (by omega)]
      rcases Nat.lt_or_ge (2 ^ ℓ) old.length with h | h
      · exact h
      · rw [show old.length = 2 ^ ℓ by omega, Nat.div_self hp] at heven
        cases heven
    rw [hs.activeIter_eq hne, activeNodesFrom_of_none hK (by rw [frontierEntry, if_neg (by omega)])]
  · rw [hs.updated_eq, filterMap_range_succ, hs.frontierEntry_even heven, hs.isPartial_eq]
    by_cases hdvd : 2 ^ ℓ ∣ old.length + 1 <;> simp [hdvd]

/-- **Step lemma**, right node: the next old active node is there, and it is the left sibling. -/
theorem LoopState.odd (hs : LoopState hashPair old d ℓ index top isPartial activeIter updated)
    (hℓ : 2 ^ ℓ < old.length + 1) (hodd : old.length / 2 ^ ℓ % 2 = 1) :
    ∃ x rest, activeIter = x :: rest ∧
      LoopState hashPair old d (ℓ + 1) (index >>> 1) (hashPair x top) isPartial rest
        (if isPartial then updated ++ [x] else updated) := by
  have hp : 0 < 2 ^ ℓ := Nat.two_pow_pos ℓ
  have hq : 1 ≤ old.length / 2 ^ ℓ := (Nat.le_div_iff_mul_le hp).mpr (by omega)
  have hne : old ≠ [] := List.ne_nil_of_length_pos (by omega)
  obtain ⟨x, hx, hfrom⟩ := activeNodesFrom_read hashPair (d := d) hℓ hodd
  refine ⟨x, activeNodesFrom hashPair old (ℓ + 1), by rw [hs.activeIter_eq hne, hfrom],
    hs.index_shift, ?_, ?_, fun _ => rfl, ?_⟩
  · rw [Nat.pow_succ, ← Nat.div_div_eq_div_mul, getElem?_levels_succ,
      show 2 * (old.length / 2 ^ ℓ / 2) = old.length / 2 ^ ℓ - 1 by omega, hx,
      show old.length / 2 ^ ℓ - 1 + 1 = old.length / 2 ^ ℓ by omega, hs.top_eq]
    rfl
  · rw [hs.isPartial_eq, Nat.pow_succ, Nat.mul_comm]
    simp only [Nat.two_mul_dvd_succ_iff hp hodd]
  · rw [hs.updated_eq, filterMap_range_succ, LoopState.frontierEntry_odd hodd hx, hs.isPartial_eq]
    by_cases hdvd : 2 ^ ℓ ∣ old.length + 1 <;> simp [hdvd]

/-- **Run lemma.** From level `ℓ` the loop runs up to level `⌈log₂ n⌉` without reading past the old active
nodes, and returns the root and the new active nodes below it. -/
theorem LoopState.run : ∀ (k ℓ : Nat) {index : UInt64} {top : D} {isPartial : Bool} {activeIter updated : List D},
    LoopState hashPair old d ℓ index top isPartial activeIter updated → ℓ + k = Nat.clog 2 (old.length + 1) →
      appendLoop hashPair k index top isPartial activeIter updated =
        some (merkle hashPair (old ++ [d]),
          (List.range (Nat.clog 2 (old.length + 1))).filterMap (frontierEntry hashPair (old ++ [d])))
  | 0, ℓ, index, top, isPartial, activeIter, updated, hs, hk => by
    -- at the last level the node on the path of the new leaf is the root
    have hle := Nat.le_pow_clog (by omega : 1 < 2) (old.length + 1)
    rw [Nat.add_zero] at hk
    subst hk
    have hroot := hs.top_eq
    rw [Nat.div_eq_of_lt (by omega)] at hroot
    rw [appendLoop, hs.updated_eq, merkle_eq_levels (by simp), List.length_append, List.length_singleton]
    cases hL : levels hashPair (Nat.clog 2 (old.length + 1)) (old ++ [d]) with
    | nil => simp [hL] at hroot
    | cons a t =>
      rw [hL] at hroot
      simp only [List.getElem?_cons_zero, Option.some.injEq] at hroot
      rw [hroot]
      rfl
  | k + 1, ℓ, index, top, isPartial, activeIter, updated, hs, hk => by
    have hℓ : 2 ^ ℓ < old.length + 1 := (Nat.lt_clog_iff_pow_lt (by omega)).mp (by omega)
    rcases Nat.mod_two_eq_zero_or_one (old.length / 2 ^ ℓ) with heven | hodd
    · have hbit : index &&& 1 = 0 := by rw [and_one_eq_zero_iff, hs.index_eq, heven]
      rw [appendLoop_left hashPair hbit]
      exact LoopState.run k (ℓ + 1) (hs.even hℓ heven) (by omega)
    · obtain ⟨x, rest, rfl, hs'⟩ := hs.odd hℓ hodd
      have hbit : ¬ index &&& 1 = 0 := by rw [and_one_eq_zero_iff, hs.index_eq, hodd]; omega
      rw [appendLoop_right hashPair hbit]
      exact LoopState.run k (ℓ + 1) hs' (by omega)

end Loop

/-! ## Appending -/

section Append

variable {hashPair}

theorem toNat_add_one {v : UInt64} {n : Nat} (hv : v.toNat = n) (hfits : n + 1 < 2 ^ 64) :
    (v + 1).toNat = n + 1 := by
  rw [UInt64.toNat_add, hv, UInt64.toNat_one, Nat.mod_eq_of_lt hfits]

/-- The loop starts at the new leaf, at level `0`. -/
theorem loopState_start {m : IncrementalMerkle D} {old : List D} (d : D) (hcount : m.nodeCount.toNat = old.length)
    (hactive : m.activeNodes = activeNodesOf hashPair old) :
    LoopState hashPair old d 0 m.nodeCount d false m.activeNodes [] := by
  refine ⟨by rw [hcount, Nat.pow_zero, Nat.div_one], ?_, by simp, fun hne => ?_, rfl⟩
  · rw [Nat.pow_zero, Nat.div_one, levels_zero, List.getElem?_append_right (Nat.le_refl _), Nat.sub_self]
    rfl
  · rw [hactive, activeNodesOf_eq_from hne]

/-- **`append`.** On a tree holding the active nodes of `old`, with room in the count, `append d` runs the loop
for `⌈log₂ (n+1)⌉` levels, never reading past the old active nodes, returns the root of `old ++ [d]` and leaves
its active nodes. -/
theorem append_spec {m : IncrementalMerkle D} {old : List D} (d : D) (hcount : m.nodeCount.toNat = old.length)
    (hactive : m.activeNodes = activeNodesOf hashPair old) (hfits : old.length + 1 < 2 ^ 64) :
    append hashPair m d =
      some (⟨m.nodeCount + 1, activeNodesOf hashPair (old ++ [d])⟩, merkle hashPair (old ++ [d])) := by
  have hsucc := toNat_add_one hcount hfits
  have hne : m.nodeCount + 1 ≠ 0 := by
    intro h
    rw [h, UInt64.toNat_zero] at hsucc
    omega
  have hdepth : (calcluateMaxDepth (m.nodeCount + 1) - 1).toNat = Nat.clog 2 (old.length + 1) := by
    rw [calcluateMaxDepth_eq hne, hsucc]
    omega
  have hloop := (loopState_start d hcount hactive).run (Nat.clog 2 (old.length + 1)) 0 (Nat.zero_add _)
  have hnodes : activeNodesOf hashPair (old ++ [d]) =
      (List.range (Nat.clog 2 (old.length + 1))).filterMap (frontierEntry hashPair (old ++ [d])) ++
        [merkle hashPair (old ++ [d])] := by
    rw [activeNodesOf, if_neg (by simp), List.length_append, List.length_singleton]
  rw [append, hdepth, hloop, hnodes]
  rfl

omit [Inhabited D] in
theorem appendAll_append_singleton (d : D) :
    ∀ (m : IncrementalMerkle D) (ds : List D),
      appendAll hashPair m (ds ++ [d]) = (appendAll hashPair m ds).bind fun m => (append hashPair m d).map Prod.fst
  | m, [] => by
    simp only [List.nil_append, appendAll, Option.bind_some]
    cases append hashPair m d <;> rfl
  | m, e :: ds => by
    simp only [List.cons_append, appendAll]
    cases append hashPair m e with
    | none => rfl
    | some r => exact appendAll_append_singleton d r.1 ds

/-- **Run lemma.** Appending `n < 2^64` digests to the empty tree counts them and leaves their active nodes. -/
theorem appendAll_spec (ds : List D) (hn : ds.length < 2 ^ 64) :
    appendAll hashPair .empty ds = some ⟨UInt64.ofNat ds.length, activeNodesOf hashPair ds⟩ := by
  induction ds using List.reverseRecOn with
  | nil => rfl
  | append_singleton ds d ih =>
    rw [List.length_append, List.length_singleton] at hn
    have hcount : (UInt64.ofNat ds.length).toNat = ds.length := by
      rw [UInt64.toNat_ofNat', Nat.mod_eq_of_lt (by omega)]
    have hsucc : UInt64.ofNat ds.length + 1 = UInt64.ofNat (ds.length + 1) :=
      UInt64.toNat_inj.mp (by rw [toNat_add_one hcount hn, UInt64.toNat_ofNat', Nat.mod_eq_of_lt hn])
    rw [appendAll_append_singleton, ih (by omega), Option.bind_some,
      append_spec d hcount rfl hn, Option.map_some, List.length_append, List.length_singleton, ← hsucc]

end Append

/-! ## Agreement with `merkle` -/

omit [Inhabited D] in
theorem getElem?_zero_headD {l : List D} {x y : D} (h : l[0]? = some x) : l.headD y = x := by
  cases l with
  | nil => cases h
  | cons a t => simpa using h

theorem incremental_merkle_agrees (hashPair : D → D → D) (ds : List D) (hn : ds.length < 2 ^ 64) :
    ∃ m, appendAll hashPair .empty ds = some m ∧ getRoot m = some (merkle hashPair ds) ∧
      m.activeNodes = activeNodesOf hashPair ds ∧
      ∀ pre d, ds = pre ++ [d] →
        ∃ m', appendAll hashPair .empty pre = some m' ∧ append hashPair m' d = some (m, merkle hashPair ds) := by
  refine ⟨_, appendAll_spec ds hn, ?_, rfl, fun pre d hds => ?_⟩
  · -- the root is the last active node, or the zero digest for no digest
    rw [getRoot]
    dsimp only
    by_cases hnil : ds = []
    · subst hnil
      rfl
    · have hpos : UInt64.ofNat ds.length > 0 := by
        rw [GT.gt, UInt64.lt_iff_toNat_lt, UInt64.toNat_ofNat', Nat.mod_eq_of_lt hn, UInt64.toNat_zero]
        exact List.length_pos_iff.mpr hnil
      rw [if_pos hpos, activeNodesOf, if_neg hnil]
      simp
  · subst hds
    rw [List.length_append, List.length_singleton] at hn
    have hcount : (UInt64.ofNat pre.length).toNat = pre.length := by
      rw [UInt64.toNat_ofNat', Nat.mod_eq_of_lt (by omega)]
    have hsucc : UInt64.ofNat pre.length + 1 = UInt64.ofNat (pre ++ [d]).length :=
      UInt64.toNat_inj.mp (by
        rw [toNat_add_one hcount hn, UInt64.toNat_ofNat', List.length_append, List.length_singleton,
          Nat.mod_eq_of_lt hn])
    refine ⟨_, appendAll_spec pre (by omega), ?_⟩
    rw [append_spec d hcount rfl hn, hsucc]

theorem incremental_merkle_agrees_three :
    ([1, 2, 3] : List Nat).length < 2 ^ 64 ∧
      ∃ m, appendAll (fun a b => 3 * a + b) .empty [1, 2, 3] = some m ∧
        getRoot m = some (merkle (fun a b => 3 * a + b) [1, 2, 3]) ∧
        m.activeNodes = activeNodesOf (fun a b => 3 * a + b) [1, 2, 3] ∧
        ∀ pre d, [1, 2, 3] = pre ++ [d] →
          ∃ m', appendAll (fun a b => 3 * a + b) .empty pre = some m' ∧
            append (fun a b => 3 * a + b) m' d = some (m, merkle (fun a b => 3 * a + b) [1, 2, 3]) :=
  ⟨by decide, incremental_merkle_agrees _ _ (by decide)⟩


/-- At `2^64` digests `_node_count + 1` wraps to `0`: `calcluate_max_depth(0)` is `0`, the loop does not run and
the count is left at `0`, so the last append returns the digest itself and `get_root` the zero digest, while
`merkle` hashes. -/
theorem root_wraps_at_two_pow_64 :
    ∃ m, appendAll (fun _ _ => 1) .empty (List.replicate (2 ^ 64) 0) = some m ∧ m.nodeCount = 0 ∧
      getRoot m = some 0 ∧ merkle (fun _ _ => 1) (List.replicate (2 ^ 64) 0) = 1 ∧
      ∃ m', appendAll (fun _ _ => 1) .empty (List.replicate (2 ^ 64 - 1) 0) = some m' ∧
        append (fun _ _ => 1) m' 0 = some (m, 0) := by
  have hpre : (List.replicate (2 ^ 64 - 1) 0).length < 2 ^ 64 := by
    rw [List.length_replicate]
    omega
  have hsplit : List.replicate (2 ^ 64) 0 = List.replicate (2 ^ 64 - 1) 0 ++ [0] := by
    rw [← List.replicate_succ', Nat.sub_add_cancel Nat.one_le_two_pow]
  have hlast : append (fun _ _ => 1) ⟨UInt64.ofNat (2 ^ 64 - 1), activeNodesOf (fun _ _ => 1)
      (List.replicate (2 ^ 64 - 1) 0)⟩ 0 = some (⟨0, [0]⟩, 0) := by
    rw [append, show UInt64.ofNat (2 ^ 64 - 1) + 1 = 0 by decide]
    rfl
  have hne : List.replicate (2 ^ 64) (0 : Nat) ≠ [] :=
    List.ne_nil_of_length_pos (by rw [List.length_replicate]; omega)
  -- every node above the leaves is a hash
  have hmerkle : merkle (fun _ _ => 1) (List.replicate (2 ^ 64) 0) = 1 := by
    have hlen : (levels (fun _ _ => 1) 63 (List.replicate (2 ^ 64) 0)).length = 2 := by
      rw [length_levels hne, List.length_replicate, show (2 ^ 64 - 1) / 2 ^ 63 = 1 by omega]
    rw [merkle_eq_levels hne, List.length_replicate, Nat.clog_pow 2 64 (by omega)]
    apply getElem?_zero_headD
    rw [getElem?_levels_succ, List.getElem?_eq_getElem (by omega)]
    rfl
  refine ⟨⟨0, [0]⟩, ?_, rfl, rfl, hmerkle, _, appendAll_spec _ hpre, ?_⟩
  · rw [hsplit, appendAll_append_singleton, appendAll_spec _ hpre, List.length_replicate, Option.bind_some, hlast]
    rfl
  · rw [List.length_replicate, hlast]

end Gstio.Chain
