import Mathlib
import Gstio.Lib.Rollback
import Gstio.Lib.DecayingSum
import Gstio.Chain.ResourceLimits

/-!
# Block usage and elastic limits: `resource_limits_manager::process_block_usage`

Every transaction adds its CPU and NET usage to the pending usage of the block, which must stay within the block's
maximum (`add_transaction_usage`). At the end of a block, `process_block_usage` adds the pending usage to a moving
average over the last `periods` blocks (`usage_accumulator`, a sum scaled by `rate_limiting_precision`), and moves
the virtual limit that rate-limits the accounts: down by `contract_rate` when the average is above the target, up by
`expand_rate` otherwise, within `[max, max * max_multiplier]` (`update_elastic_limit`). The arithmetic is that of
`uint64_t`, with `impl::operator*` and `downgrade_cast` throwing where a result would not fit.

* `UsageAccumulator.add_of_lt`: a new period of the accumulator is the decaying sum of `DecayingSum`;
* `updateElasticLimit_eq_ok`: the new virtual limit, a product clamped to its bounds;
* `BlockInvariant`: what holds between blocks, kept by every transaction (`addBlockUsage_invariant`) and every
  block (`processBlockUsage_invariant`);
* `process_block_usage_never_throws`: on a chain whose block numbers increase, no block's processing throws.
-/

namespace Gstio.Chain.ResourceLimits

/-- `config::rate_limiting_precision`. -/
def rateLimitingPrecision : Nat := 1000 * 1000

/-- The exceptions of the usage accounting. -/
inductive UsageError
  /-- `rate_limiting_state_inconsistent` -/
  | rateLimitingStateInconsistent (msg : String)
  /-- `resource_limit_exception` -/
  | resourceLimitException (msg : String)
  /-- `block_resource_exhausted` -/
  | blockResourceExhausted (msg : String)
  /-- A division by zero, which the source leaves undefined. -/
  | undefinedBehavior (what : String)
  deriving DecidableEq, Repr

/-! ## The arithmetic of `impl` -/

/-- `impl::ratio<uint64_t>`. -/
structure Ratio where
  numerator : UInt64
  denominator : UInt64
  deriving DecidableEq, Repr

/-- `impl::integer_divide_ceil`. -/
def integerDivideCeil (num den : Nat) : Nat := num / den + if num % den > 0 then 1 else 0

/-- `impl::operator*(value, ratio)`: the product is taken in `uint64_t`, which it must fit. -/
def mulRatio (value : UInt64) (r : Ratio) : Except UsageError UInt64 := do
  Except.assert (r.numerator == 0 || decide (uint64Max / r.numerator.toNat ≥ value.toNat))
    (.rateLimitingStateInconsistent "Usage exceeds maximum value representable after extending for precision")
  if r.denominator = 0 then .error (.undefinedBehavior "division by a zero denominator") else
  pure (value * r.numerator / r.denominator)

/-- `impl::downgrade_cast<uint64_t>` of a `uint128_t`. -/
def downgradeCast (val : Nat) : Except UsageError UInt64 := do
  Except.assert (decide (val ≤ uint64Max)) (.rateLimitingStateInconsistent
    "Casting a higher bit integer value ${v} to a lower bit integer value which cannot contain the value, valid range is [${min}, ${max}]")
  pure (UInt64.ofNat val)

/-! ## The accumulator -/

/-- `exponential_moving_average_accumulator<rate_limiting_precision>`, `usage_accumulator`: the ordinal of the last
period, the average scaled by the precision, and the usage of the last period. -/
structure UsageAccumulator where
  lastOrdinal : UInt32
  valueEx : UInt64
  consumed : UInt64
  deriving DecidableEq, Repr

namespace UsageAccumulator

/-- The constructor: all zero. -/
def init : UsageAccumulator := ⟨0, 0, 0⟩

/-- `max_raw_value`. -/
def maxRawValue : Nat := uint64Max / rateLimitingPrecision

/-- `average()`: the scaled sum over the precision, rounded up. -/
def average (a : UsageAccumulator) : UInt64 := UInt64.ofNat (integerDivideCeil a.valueEx.toNat rateLimitingPrecision)

/-- The block of `add` for a new ordinal: the average decays by the periods passed, or is dropped after a whole
window, and `consumed` restarts from the average. -/
def advance (a : UsageAccumulator) (ordinal windowSize : UInt32) : Except UsageError UsageAccumulator := do
  Except.assert (decide (ordinal > a.lastOrdinal))
    (.resourceLimitException "new ordinal cannot be less than the previous ordinal")
  let valueEx ← if a.lastOrdinal.toNat + windowSize.toNat > ordinal.toNat then
      mulRatio a.valueEx ⟨windowSize.toUInt64 - (ordinal - a.lastOrdinal).toUInt64, windowSize.toUInt64⟩
    else pure 0
  let a := { a with valueEx := valueEx, lastOrdinal := ordinal }
  pure { a with consumed := a.average }

/-- `add(units, ordinal, window_size)`: the checks come before any change; a window of zero divides by zero. -/
def add (a : UsageAccumulator) (units : UInt64) (ordinal windowSize : UInt32) :
    Except UsageError UsageAccumulator := do
  Except.assert (decide (units.toNat ≤ maxRawValue))
    (.rateLimitingStateInconsistent "Usage exceeds maximum value representable after extending for precision")
  Except.assert (decide (uint64Max - a.consumed.toNat ≥ units.toNat))
    (.rateLimitingStateInconsistent "Overflow in tracked usage when adding usage!")
  if windowSize = 0 then .error (.undefinedBehavior "integer_divide_ceil by a zero window") else
  let valueExContrib ← downgradeCast (integerDivideCeil (units.toNat * rateLimitingPrecision) windowSize.toNat)
  Except.assert (decide (uint64Max - a.valueEx.toNat ≥ valueExContrib.toNat))
    (.rateLimitingStateInconsistent "Overflow in accumulated value when adding usage!")
  let a ← if a.lastOrdinal ≠ ordinal then a.advance ordinal windowSize else pure a
  pure { a with consumed := a.consumed + units, valueEx := a.valueEx + valueExContrib }

end UsageAccumulator

/-! ## Elastic limits -/

/-- `elastic_limit_parameters`. -/
structure ElasticLimitParameters where
  target : UInt64
  max : UInt64
  periods : UInt32
  maxMultiplier : UInt32
  contractRate : Ratio
  expandRate : Ratio
  deriving DecidableEq, Repr

/-- `elastic_limit_parameters::validate`. -/
def ElasticLimitParameters.validate (p : ElasticLimitParameters) : Except UsageError Unit := do
  Except.assert (decide (p.periods > 0))
    (.resourceLimitException "elastic limit parameter 'periods' cannot be zero")
  Except.assert (decide (p.contractRate.denominator > 0))
    (.resourceLimitException "elastic limit parameter 'contract_rate' is not a well-defined ratio")
  Except.assert (decide (p.expandRate.denominator > 0))
    (.resourceLimitException "elastic limit parameter 'expand_rate' is not a well-defined ratio")

/-- `update_elastic_limit`: contract above the target, expand otherwise, and keep within `max` and
`max * max_multiplier`, that product taken in `uint64_t`. -/
def updateElasticLimit (currentLimit averageUsage : UInt64) (params : ElasticLimitParameters) :
    Except UsageError UInt64 := do
  let result ← if averageUsage > params.target then mulRatio currentLimit params.contractRate
    else mulRatio currentLimit params.expandRate
  pure (min (max result params.max) (params.max * params.maxMultiplier.toUInt64))

/-! ## Configuration and state -/

/-- `config::block_interval_ms`. -/
def blockIntervalMs : Nat := 500

/-- `config::percent_100`. -/
def percent100 : Nat := 10000

/-- `config::percent_1`. -/
def percent1 : Nat := 100

/-- `config::block_cpu_usage_average_window_ms`. -/
def blockCpuUsageAverageWindowMs : Nat := 60 * 1000

/-- `config::block_size_average_window_ms`. -/
def blockSizeAverageWindowMs : Nat := 60 * 1000

/-- `config::account_cpu_usage_average_window_ms`. -/
def accountCpuUsageAverageWindowMs : Nat := 24 * 60 * 60 * 1000

/-- `config::account_net_usage_average_window_ms`. -/
def accountNetUsageAverageWindowMs : Nat := 24 * 60 * 60 * 1000

/-- `config::default_max_block_cpu_usage`. -/
def defaultMaxBlockCpuUsage : Nat := 200000

/-- `config::default_target_block_cpu_usage_pct`. -/
def defaultTargetBlockCpuUsagePct : Nat := 10 * percent1

/-- `config::default_max_block_net_usage`. -/
def defaultMaxBlockNetUsage : Nat := 1024 * 1024

/-- `config::default_target_block_net_usage_pct`. -/
def defaultTargetBlockNetUsagePct : Nat := 10 * percent1

/-- `GST_PERCENT(value, percentage)`. -/
def gstPercent (value percentage : Nat) : Nat := value * percentage / percent100

/-- `resource_limits_config_object`. -/
structure ResourceLimitsConfigObject where
  cpuLimitParameters : ElasticLimitParameters
  netLimitParameters : ElasticLimitParameters
  accountCpuUsageAverageWindow : UInt32
  accountNetUsageAverageWindow : UInt32
  deriving DecidableEq, Repr

/-- The defaults of `resource_limits_config_object`. -/
def ResourceLimitsConfigObject.default : ResourceLimitsConfigObject where
  cpuLimitParameters := ⟨UInt64.ofNat (gstPercent defaultMaxBlockCpuUsage defaultTargetBlockCpuUsagePct),
    UInt64.ofNat defaultMaxBlockCpuUsage, UInt32.ofNat (blockCpuUsageAverageWindowMs / blockIntervalMs), 1000,
    ⟨99, 100⟩, ⟨1000, 999⟩⟩
  netLimitParameters := ⟨UInt64.ofNat (gstPercent defaultMaxBlockNetUsage defaultTargetBlockNetUsagePct),
    UInt64.ofNat defaultMaxBlockNetUsage, UInt32.ofNat (blockSizeAverageWindowMs / blockIntervalMs), 1000,
    ⟨99, 100⟩, ⟨1000, 999⟩⟩
  accountCpuUsageAverageWindow := UInt32.ofNat (accountCpuUsageAverageWindowMs / blockIntervalMs)
  accountNetUsageAverageWindow := UInt32.ofNat (accountNetUsageAverageWindowMs / blockIntervalMs)

/-- The fields of `resource_limits_state_object` that the block accounting reads and writes; its totals are
`ResourceLimitsStateObject`. -/
structure BlockUsageState where
  averageBlockNetUsage : UsageAccumulator
  averageBlockCpuUsage : UsageAccumulator
  pendingNetUsage : UInt64
  pendingCpuUsage : UInt64
  virtualNetLimit : UInt64
  virtualCpuLimit : UInt64
  deriving DecidableEq, Repr

namespace BlockUsageState

/-- `update_virtual_cpu_limit`. -/
def updateVirtualCpuLimit (s : BlockUsageState) (cfg : ResourceLimitsConfigObject) :
    Except UsageError BlockUsageState := do
  let v ← updateElasticLimit s.virtualCpuLimit s.averageBlockCpuUsage.average cfg.cpuLimitParameters
  pure { s with virtualCpuLimit := v }

/-- `update_virtual_net_limit`. -/
def updateVirtualNetLimit (s : BlockUsageState) (cfg : ResourceLimitsConfigObject) :
    Except UsageError BlockUsageState := do
  let v ← updateElasticLimit s.virtualNetLimit s.averageBlockNetUsage.average cfg.netLimitParameters
  pure { s with virtualNetLimit := v }

end BlockUsageState

/-- The configuration and the state objects of the block accounting. -/
structure BlockResources where
  config : ResourceLimitsConfigObject
  state : BlockUsageState
  deriving DecidableEq, Repr

namespace BlockResources

/-- `initialize_database`: the default configuration, and the virtual limits at their floor, so that the chain
starts "congested". -/
def initializeDatabase : BlockResources :=
  let config := ResourceLimitsConfigObject.default
  ⟨config, ⟨.init, .init, 0, 0, config.netLimitParameters.max, config.cpuLimitParameters.max⟩⟩

/-- The block part of `add_transaction_usage`: the pending usage grows, in `uint64_t`, and must stay within the
block's maximum. -/
def addBlockUsage (r : BlockResources) (cpuUsage netUsage : UInt64) : Except UsageError BlockResources := do
  let s := { r.state with
    pendingCpuUsage := r.state.pendingCpuUsage + cpuUsage
    pendingNetUsage := r.state.pendingNetUsage + netUsage }
  Except.assert (decide (s.pendingCpuUsage ≤ r.config.cpuLimitParameters.max))
    (.blockResourceExhausted "Block has insufficient cpu resources")
  Except.assert (decide (s.pendingNetUsage ≤ r.config.netLimitParameters.max))
    (.blockResourceExhausted "Block has insufficient net resources")
  pure { r with state := s }

/-- `process_block_usage(block_num)`: for CPU, then NET, the pending usage goes into the average, the virtual limit
follows the average, and the pending usage restarts from zero. -/
def processBlockUsage (r : BlockResources) (blockNum : UInt32) : Except UsageError BlockResources := do
  let config := r.config
  let cpu ← r.state.averageBlockCpuUsage.add r.state.pendingCpuUsage blockNum config.cpuLimitParameters.periods
  let s ← { r.state with averageBlockCpuUsage := cpu }.updateVirtualCpuLimit config
  let s := { s with pendingCpuUsage := 0 }
  let net ← s.averageBlockNetUsage.add s.pendingNetUsage blockNum config.netLimitParameters.periods
  let s ← { s with averageBlockNetUsage := net }.updateVirtualNetLimit config
  pure { r with state := { s with pendingNetUsage := 0 } }

/-- `set_block_parameters`. -/
def setBlockParameters (r : BlockResources) (cpuLimitParameters netLimitParameters : ElasticLimitParameters) :
    Except UsageError BlockResources := do
  cpuLimitParameters.validate
  netLimitParameters.validate
  pure { r with config := { r.config with
    cpuLimitParameters := cpuLimitParameters
    netLimitParameters := netLimitParameters } }

/-- `get_block_cpu_limit`: what is left of the block's CPU. -/
def getBlockCpuLimit (r : BlockResources) : UInt64 := r.config.cpuLimitParameters.max - r.state.pendingCpuUsage

/-- `get_block_net_limit`: what is left of the block's NET. -/
def getBlockNetLimit (r : BlockResources) : UInt64 := r.config.netLimitParameters.max - r.state.pendingNetUsage

end BlockResources

/-! ## What each operation computes -/

theorem UInt64.toNat_min' (a b : UInt64) : (min a b).toNat = min a.toNat b.toNat := by
  by_cases h : a ≤ b
  · rw [show min a b = a from if_pos h, Nat.min_eq_left (UInt64.le_iff_toNat_le.mp h)]
  · rw [show min a b = b from if_neg h, Nat.min_eq_right (by rw [UInt64.le_iff_toNat_le] at h; omega)]

theorem UInt64.toNat_max' (a b : UInt64) : (max a b).toNat = max a.toNat b.toNat := by
  by_cases h : a ≤ b
  · rw [show max a b = b from if_pos h, Nat.max_eq_right (UInt64.le_iff_toNat_le.mp h)]
  · rw [show max a b = a from if_neg h, Nat.max_eq_left (by rw [UInt64.le_iff_toNat_le] at h; omega)]

theorem integerDivideCeil_eq {n d : Nat} (hd : 0 < d) : integerDivideCeil n d = (n + d - 1) / d := by
  have hn := Nat.div_add_mod n d
  have hr := Nat.mod_lt n hd
  unfold integerDivideCeil
  -- `n = d * q + r`: the quotient rounded up is `q + 1` when `r > 0`, and `q` when `r = 0`
  split
  · rename_i hpos
    symm
    apply Nat.div_eq_of_lt_le
    · rw [Nat.add_mul, Nat.one_mul, Nat.mul_comm]
      omega
    · rw [Nat.add_mul, Nat.add_mul, Nat.one_mul, Nat.mul_comm]
      omega
  · rename_i hzero
    symm
    apply Nat.div_eq_of_lt_le
    · rw [Nat.add_zero, Nat.mul_comm]
      omega
    · rw [Nat.add_zero, Nat.add_mul, Nat.one_mul, Nat.mul_comm]
      omega

theorem toNat_ofNat_of_le {n : Nat} (h : n ≤ uint64Max) : (UInt64.ofNat n).toNat = n := by
  rw [UInt64.toNat_ofNat', Nat.mod_eq_of_lt (by rw [uint64Max] at h; omega)]

theorem downgradeCast_eq_ok {val : Nat} (h : val ≤ uint64Max) : downgradeCast val = .ok (UInt64.ofNat val) := by
  simp [downgradeCast, Except.assert, h, bind, Except.bind, pure, Except.pure]

/-- `operator*` returns the product over the denominator when the product fits. -/
theorem mulRatio_eq_ok {value : UInt64} {r : Ratio} (hfit : value.toNat * r.numerator.toNat ≤ uint64Max)
    (hden : 0 < r.denominator.toNat) : ∃ v, mulRatio value r = .ok v ∧
      v.toNat = value.toNat * r.numerator.toNat / r.denominator.toNat := by
  have hcheck : (r.numerator == 0 || decide (uint64Max / r.numerator.toNat ≥ value.toNat)) = true := by
    by_cases h0 : r.numerator.toNat = 0
    · simp [UInt64.toNat_inj.mp (h0.trans UInt64.toNat_zero.symm)]
    · simp only [Bool.or_eq_true, decide_eq_true_eq]
      exact .inr ((Nat.le_div_iff_mul_le (Nat.pos_of_ne_zero h0)).mpr hfit)
  have hd : r.denominator ≠ 0 := fun h => by simp [h] at hden
  refine ⟨value * r.numerator / r.denominator, ?_, ?_⟩
  · simp [mulRatio, Except.assert, hcheck, hd, bind, Except.bind, pure, Except.pure]
  · rw [UInt64.toNat_div, UInt64.toNat_mul, Nat.mod_eq_of_lt (by rw [uint64Max] at hfit; omega)]

namespace UsageAccumulator

/-- The start of a new period: the scaled average keeps the share that `DecayingSum.decayed` keeps. -/
theorem advance_eq_ok {a : UsageAccumulator} {ordinal windowSize : UInt32} (hlt : a.lastOrdinal < ordinal)
    (hfit : a.valueEx.toNat * (windowSize.toNat - 1) ≤ uint64Max) :
    ∃ a', a.advance ordinal windowSize = .ok a' ∧ a'.lastOrdinal = ordinal ∧
      a'.valueEx.toNat = DecayingSum.decayed windowSize.toNat (ordinal.toNat - a.lastOrdinal.toNat) a.valueEx.toNat ∧
      a'.consumed = a'.average := by
  have hlt' : a.lastOrdinal.toNat < ordinal.toNat := UInt32.lt_iff_toNat_lt.mp hlt
  have hδ : (ordinal - a.lastOrdinal).toNat = ordinal.toNat - a.lastOrdinal.toNat :=
    UInt32.toNat_sub_of_le _ _ (UInt32.le_of_lt hlt)
  have hcheck : decide (ordinal > a.lastOrdinal) = true := decide_eq_true hlt
  by_cases hwin : a.lastOrdinal.toNat + windowSize.toNat > ordinal.toNat
  · -- within the window: the product with `window_size - delta` over `window_size`
    have hle : (ordinal - a.lastOrdinal).toUInt64 ≤ windowSize.toUInt64 := by
      rw [UInt64.le_iff_toNat_le, UInt32.toNat_toUInt64, UInt32.toNat_toUInt64, hδ]
      omega
    have hnum : (windowSize.toUInt64 - (ordinal - a.lastOrdinal).toUInt64).toNat =
        windowSize.toNat - (ordinal.toNat - a.lastOrdinal.toNat) := by
      rw [UInt64.toNat_sub_of_le _ _ hle, UInt32.toNat_toUInt64, UInt32.toNat_toUInt64, hδ]
    obtain ⟨v, hv, hvn⟩ := @mulRatio_eq_ok a.valueEx
      ⟨windowSize.toUInt64 - (ordinal - a.lastOrdinal).toUInt64, windowSize.toUInt64⟩
      (by rw [hnum]; exact le_trans (Nat.mul_le_mul_left _ (by omega)) hfit)
      (by simp only [UInt32.toNat_toUInt64]; omega)
    refine ⟨⟨ordinal, v, (⟨ordinal, v, a.consumed⟩ : UsageAccumulator).average⟩, ?_, rfl, ?_, rfl⟩
    · simp only [advance, Except.assert, hcheck, if_true, hwin, hv, bind, Except.bind, pure, Except.pure]
    · rw [hvn, hnum, UInt32.toNat_toUInt64, DecayingSum.decayed, if_pos (by omega)]
  · -- a whole window has passed: nothing is left
    refine ⟨⟨ordinal, 0, (⟨ordinal, 0, a.consumed⟩ : UsageAccumulator).average⟩, ?_, rfl, ?_, rfl⟩
    · simp only [advance, Except.assert, hcheck, if_true, hwin, if_false, bind, Except.bind, pure, Except.pure]
    · rw [DecayingSum.decayed, if_neg (by omega)]
      rfl

/-- The average of an accumulator, rounded up, never wraps. -/
theorem toNat_average (a : UsageAccumulator) :
    a.average.toNat = (a.valueEx.toNat + rateLimitingPrecision - 1) / rateLimitingPrecision := by
  have hv := a.valueEx.toNat_lt
  rw [average, integerDivideCeil_eq (by decide), toNat_ofNat_of_le]
  rw [rateLimitingPrecision, uint64Max]
  omega

/-- What `add` does for a new ordinal once its checks pass: the new period of `advance`, with `units` added to
`consumed` and the contribution to the scaled average. -/
theorem add_eq_of_advance {a a₁ : UsageAccumulator} {units c : UInt64} {ordinal windowSize : UInt32}
    (hunits : units.toNat ≤ maxRawValue) (hconsumed : uint64Max - a.consumed.toNat ≥ units.toNat)
    (hW : windowSize ≠ 0)
    (hc : downgradeCast (integerDivideCeil (units.toNat * rateLimitingPrecision) windowSize.toNat) = .ok c)
    (hfits : uint64Max - a.valueEx.toNat ≥ c.toNat) (hne : a.lastOrdinal ≠ ordinal)
    (hadv : a.advance ordinal windowSize = .ok a₁) :
    a.add units ordinal windowSize = .ok { a₁ with
      consumed := a₁.consumed + units
      valueEx := a₁.valueEx + c } := by
  -- rewriting in order keeps the kernel off the error branches that `simp` would carry along
  unfold add
  rw [decide_eq_true hunits, decide_eq_true hconsumed, if_neg hW, hc]
  dsimp only [bind, Except.bind]
  rw [decide_eq_true hfits, if_pos hne, hadv]
  rfl

/-- **A new period of `add` is a step of the decaying sum.** For an ordinal past the last one, when the checks of
`add` pass, the scaled average decays by the periods passed and gains `units * precision / window` rounded up, and
`consumed` restarts from the decayed average plus `units`. -/
theorem add_of_lt {a : UsageAccumulator} {units : UInt64} {ordinal windowSize : UInt32}
    (hlt : a.lastOrdinal < ordinal) (hW : 0 < windowSize.toNat) (hunits : units.toNat ≤ maxRawValue)
    (hconsumed : a.consumed.toNat + units.toNat ≤ uint64Max)
    (hsum : a.valueEx.toNat + DecayingSum.contribution rateLimitingPrecision windowSize.toNat units.toNat ≤ uint64Max)
    (hfit : a.valueEx.toNat * (windowSize.toNat - 1) ≤ uint64Max) :
    ∃ a', a.add units ordinal windowSize = .ok a' ∧ a'.lastOrdinal = ordinal ∧
      a'.valueEx.toNat = DecayingSum.decayed windowSize.toNat (ordinal.toNat - a.lastOrdinal.toNat) a.valueEx.toNat +
        DecayingSum.contribution rateLimitingPrecision windowSize.toNat units.toNat ∧
      a'.consumed.toNat = (DecayingSum.decayed windowSize.toNat (ordinal.toNat - a.lastOrdinal.toNat)
        a.valueEx.toNat + rateLimitingPrecision - 1) / rateLimitingPrecision + units.toNat := by
  obtain ⟨a₁, hadv, hord, hval, hcons⟩ := @advance_eq_ok a ordinal windowSize hlt hfit
  -- the share of the new usage, in `uint64_t`
  have hcontrib : integerDivideCeil (units.toNat * rateLimitingPrecision) windowSize.toNat =
      DecayingSum.contribution rateLimitingPrecision windowSize.toNat units.toNat := by
    rw [integerDivideCeil_eq hW, DecayingSum.contribution]
  have hcle : DecayingSum.contribution rateLimitingPrecision windowSize.toNat units.toNat ≤ uint64Max := by omega
  have hne : a.lastOrdinal ≠ ordinal := fun h => absurd hlt (by rw [h]; exact UInt32.lt_irrefl _)
  have hW0 : windowSize ≠ 0 := fun h => by simp [h] at hW
  have hdec := DecayingSum.decayed_le (W := windowSize.toNat) (δ := ordinal.toNat - a.lastOrdinal.toNat)
    (v := a.valueEx.toNat)
  refine ⟨{ a₁ with
      consumed := a₁.consumed + units
      valueEx := a₁.valueEx + UInt64.ofNat (DecayingSum.contribution rateLimitingPrecision windowSize.toNat
        units.toNat) }, ?_, hord, ?_, ?_⟩
  · refine add_eq_of_advance hunits (by omega) hW0 ?_ (by rw [toNat_ofNat_of_le hcle]; omega) hne hadv
    rw [hcontrib]
    exact downgradeCast_eq_ok hcle
  · rw [UInt64.toNat_add, toNat_ofNat_of_le hcle, hval, Nat.mod_eq_of_lt (by rw [uint64Max] at hsum; omega)]
  · -- `consumed` is the decayed average, far below the greatest `uint64_t`, plus `units`
    have havg := toNat_average a₁
    have hv₁ := a₁.valueEx.toNat_lt
    rw [hval] at havg
    rw [UInt64.toNat_add, hcons, havg, Nat.mod_eq_of_lt]
    rw [maxRawValue, uint64Max, rateLimitingPrecision] at hunits
    rw [hval] at hv₁
    rw [rateLimitingPrecision]
    omega

end UsageAccumulator

section Elastic

variable {current averageUsage : UInt64} {p : ElasticLimitParameters}

/-- `update_elastic_limit` is the product with the rate the average selects, clamped to `max` and
`max * max_multiplier`, when both products fit. -/
theorem updateElasticLimit_eq_ok (hc : current.toNat * p.contractRate.numerator.toNat ≤ uint64Max)
    (hcd : 0 < p.contractRate.denominator.toNat) (he : current.toNat * p.expandRate.numerator.toNat ≤ uint64Max)
    (hed : 0 < p.expandRate.denominator.toNat) (hcap : p.max.toNat * p.maxMultiplier.toNat ≤ uint64Max) :
    ∃ v, updateElasticLimit current averageUsage p = .ok v ∧
      v.toNat = min (max (if averageUsage > p.target
          then current.toNat * p.contractRate.numerator.toNat / p.contractRate.denominator.toNat
          else current.toNat * p.expandRate.numerator.toNat / p.expandRate.denominator.toNat) p.max.toNat)
        (p.max.toNat * p.maxMultiplier.toNat) := by
  have hcap' : (p.max * p.maxMultiplier.toUInt64).toNat = p.max.toNat * p.maxMultiplier.toNat := by
    rw [UInt64.toNat_mul, UInt32.toNat_toUInt64, Nat.mod_eq_of_lt (by rw [uint64Max] at hcap; omega)]
  by_cases ht : averageUsage > p.target
  · obtain ⟨w, hw, hwn⟩ := mulRatio_eq_ok hc hcd
    refine ⟨min (max w p.max) (p.max * p.maxMultiplier.toUInt64), by
      simp only [updateElasticLimit, if_pos ht, hw, bind, Except.bind, pure, Except.pure], ?_⟩
    rw [UInt64.toNat_min', UInt64.toNat_max', hwn, hcap', if_pos ht]
  · obtain ⟨w, hw, hwn⟩ := mulRatio_eq_ok he hed
    refine ⟨min (max w p.max) (p.max * p.maxMultiplier.toUInt64), by
      simp only [updateElasticLimit, if_neg ht, hw, bind, Except.bind, pure, Except.pure], ?_⟩
    rw [UInt64.toNat_min', UInt64.toNat_max', hwn, hcap', if_neg ht]

/-- A contract rate of at most one and an expand rate of at least one. -/
def RatesAroundOne (p : ElasticLimitParameters) : Prop :=
  p.contractRate.numerator ≤ p.contractRate.denominator ∧ p.expandRate.denominator ≤ p.expandRate.numerator

instance : DecidablePred RatesAroundOne := fun _ => inferInstanceAs (Decidable (_ ∧ _))

/-- A new virtual limit that moved the way the average asks: not up when the average is above the target, not down
otherwise. -/
def FollowsAverage (p : ElasticLimitParameters) (averageUsage old new : UInt64) : Prop :=
  (averageUsage > p.target → new ≤ old) ∧ (averageUsage ≤ p.target → old ≤ new)

instance (p : ElasticLimitParameters) (averageUsage old new : UInt64) :
    Decidable (FollowsAverage p averageUsage old new) :=
  inferInstanceAs (Decidable (_ ∧ _))

/-- Contracting a limit that is at least the floor, then clamping, does not raise it. -/
theorem clamp_contract_le {c n d m k : Nat} (hr : n ≤ d) (hm : m ≤ c) : min (max (c * n / d) m) k ≤ c := by
  have hdiv : c * n / d ≤ c := Nat.div_le_of_le_mul (by rw [Nat.mul_comm d c]; exact Nat.mul_le_mul_left c hr)
  exact le_trans (min_le_left _ _) (max_le hdiv hm)

/-- Expanding a limit that is at most the cap, then clamping, does not lower it. -/
theorem le_clamp_expand {c n d m k : Nat} (hd : 0 < d) (hr : d ≤ n) (hk : c ≤ k) : c ≤ min (max (c * n / d) m) k := by
  have hdiv : c ≤ c * n / d := (Nat.le_div_iff_mul_le hd).mpr (Nat.mul_le_mul_left c hr)
  exact le_min (le_trans hdiv (le_max_left _ _)) hk

end Elastic

/-! ## Between blocks -/

/-- Parameters under which the accounting of one resource cannot overflow: the checks of `validate`, a positive
multiplier, a window no longer than the precision, and room in `uint64_t` for the scaled average of full blocks over
a window and for the greatest virtual limit times either rate. -/
structure Sane (p : ElasticLimitParameters) : Prop where
  periods_pos : 0 < p.periods.toNat
  periods_le : p.periods.toNat ≤ rateLimitingPrecision
  multiplier_pos : 0 < p.maxMultiplier.toNat
  contract_pos : 0 < p.contractRate.denominator.toNat
  expand_pos : 0 < p.expandRate.denominator.toNat
  average_fits : (p.max.toNat * rateLimitingPrecision + p.periods.toNat) * (p.periods.toNat + 1) ≤ uint64Max
  cap_fits : p.max.toNat * p.maxMultiplier.toNat *
    (p.contractRate.numerator.toNat + p.expandRate.numerator.toNat + 1) ≤ uint64Max

/-- What holds of one resource between blocks: the pending usage within the block's maximum, the scaled average
within the bound of `DecayingSum`, `consumed` within the average plus a block, and the virtual limit within
`[max, max * max_multiplier]`. -/
structure Bounded (p : ElasticLimitParameters) (acc : UsageAccumulator) (pending virtual : UInt64) : Prop where
  pending_le : pending.toNat ≤ p.max.toNat
  valueEx_le : acc.valueEx.toNat ≤ p.max.toNat * rateLimitingPrecision + p.periods.toNat - 1
  consumed_le : acc.consumed.toNat ≤ 2 * p.max.toNat + 1
  max_le : p.max.toNat ≤ virtual.toNat
  le_cap : virtual.toNat ≤ p.max.toNat * p.maxMultiplier.toNat

section Bounded

variable {p : ElasticLimitParameters} {acc : UsageAccumulator} {pending virtual : UInt64}

/-- The checks of `add` pass for a block's pending usage. -/
theorem Bounded.add_checks (hs : Sane p) (hb : Bounded p acc pending virtual) :
    pending.toNat ≤ UsageAccumulator.maxRawValue ∧ acc.consumed.toNat + pending.toNat ≤ uint64Max ∧
      acc.valueEx.toNat + DecayingSum.contribution rateLimitingPrecision p.periods.toNat pending.toNat ≤ uint64Max ∧
      acc.valueEx.toNat * (p.periods.toNat - 1) ≤ uint64Max := by
  have hW := hs.periods_pos
  have hfits := hs.average_fits
  have hpend := hb.pending_le
  -- the scaled maximum `M * P` and the window `W` are the two atoms of every bound
  have hMP : pending.toNat * rateLimitingPrecision ≤ p.max.toNat * rateLimitingPrecision :=
    Nat.mul_le_mul_right _ hpend
  have hwide : (p.max.toNat * rateLimitingPrecision + p.periods.toNat) * 2 ≤ uint64Max :=
    le_trans (Nat.mul_le_mul_left _ (by omega)) hfits
  have hcontrib : DecayingSum.contribution rateLimitingPrecision p.periods.toNat pending.toNat ≤
      p.max.toNat * rateLimitingPrecision + p.periods.toNat := by
    have := DecayingSum.contribution_mul_le (P := rateLimitingPrecision) (W := p.periods.toNat) (u := pending.toNat)
    have : DecayingSum.contribution rateLimitingPrecision p.periods.toNat pending.toNat ≤
        DecayingSum.contribution rateLimitingPrecision p.periods.toNat pending.toNat * p.periods.toNat :=
      Nat.le_mul_of_pos_right _ hW
    omega
  refine ⟨?_, ?_, ?_, ?_⟩
  · rw [UsageAccumulator.maxRawValue, Nat.le_div_iff_mul_le (by decide)]
    rw [rateLimitingPrecision] at hMP hwide ⊢
    omega
  · have := hb.consumed_le
    rw [rateLimitingPrecision] at hwide
    omega
  · have := hb.valueEx_le
    omega
  · calc acc.valueEx.toNat * (p.periods.toNat - 1)
        ≤ (p.max.toNat * rateLimitingPrecision + p.periods.toNat) * (p.periods.toNat + 1) :=
          Nat.mul_le_mul (by have := hb.valueEx_le; omega) (by omega)
      _ ≤ uint64Max := hfits

/-- `update_elastic_limit` returns on a bounded virtual limit, whatever the average: the limit times either rate
fits. -/
theorem Bounded.updateElasticLimit_eq_ok (hs : Sane p) (hb : Bounded p acc pending virtual) (averageUsage : UInt64) :
    ∃ v, updateElasticLimit virtual averageUsage p = .ok v ∧
      v.toNat = min (max (if averageUsage > p.target
          then virtual.toNat * p.contractRate.numerator.toNat / p.contractRate.denominator.toNat
          else virtual.toNat * p.expandRate.numerator.toNat / p.expandRate.denominator.toNat) p.max.toNat)
        (p.max.toNat * p.maxMultiplier.toNat) := by
  have hcapc : virtual.toNat * p.contractRate.numerator.toNat ≤ uint64Max := by
    refine le_trans (Nat.mul_le_mul_right _ hb.le_cap) (le_trans (Nat.mul_le_mul_left _ ?_) hs.cap_fits)
    omega
  have hcape : virtual.toNat * p.expandRate.numerator.toNat ≤ uint64Max := by
    refine le_trans (Nat.mul_le_mul_right _ hb.le_cap) (le_trans (Nat.mul_le_mul_left _ ?_) hs.cap_fits)
    omega
  have hcap : p.max.toNat * p.maxMultiplier.toNat ≤ uint64Max :=
    le_trans (Nat.le_mul_of_pos_right _ (by omega)) hs.cap_fits
  exact ResourceLimits.updateElasticLimit_eq_ok hcapc hs.contract_pos hcape hs.expand_pos hcap

/-- With rates around one, the bounded virtual limit follows the average: the clamp to `[max, max *
max_multiplier]` never undoes the direction of the rate, since the old limit is inside it. -/
theorem Bounded.followsAverage (hs : Sane p) (hb : Bounded p acc pending virtual) (hr : RatesAroundOne p)
    {averageUsage v : UInt64} (hv : updateElasticLimit virtual averageUsage p = .ok v) :
    FollowsAverage p averageUsage virtual v := by
  obtain ⟨w, hw, hwn⟩ := hb.updateElasticLimit_eq_ok hs averageUsage
  obtain rfl : v = w := Except.ok.inj (hv.symm.trans hw)
  constructor
  · intro ht
    rw [if_pos ht] at hwn
    rw [UInt64.le_iff_toNat_le, hwn]
    exact clamp_contract_le (UInt64.le_iff_toNat_le.mp hr.1) hb.max_le
  · intro ht
    rw [if_neg (UInt64.not_lt.mpr ht)] at hwn
    rw [UInt64.le_iff_toNat_le, hwn]
    exact le_clamp_expand hs.expand_pos (UInt64.le_iff_toNat_le.mp hr.2) hb.le_cap

/-- **One resource at the end of a block.** From bounded usage and a block number past the accumulator's last
ordinal, `add` and `update_elastic_limit` return, and the resource is bounded again with no pending usage. -/
theorem Bounded.block (hs : Sane p) (hb : Bounded p acc pending virtual) {blockNum : UInt32}
    (hlt : acc.lastOrdinal < blockNum) :
    ∃ acc' v, acc.add pending blockNum p.periods = .ok acc' ∧ updateElasticLimit virtual acc'.average p = .ok v ∧
      acc'.lastOrdinal = blockNum ∧ Bounded p acc' 0 v := by
  obtain ⟨hunits, hconsumed, hsum, hfit⟩ := hb.add_checks hs
  obtain ⟨acc', hadd, hord, hval, hcons⟩ := UsageAccumulator.add_of_lt hlt hs.periods_pos hunits hconsumed hsum hfit
  obtain ⟨v, hv, hvn⟩ := hb.updateElasticLimit_eq_ok hs acc'.average
  have hlt' : acc.lastOrdinal.toNat < blockNum.toNat := UInt32.lt_iff_toNat_lt.mp hlt
  have hmaxle : p.max.toNat ≤ p.max.toNat * p.maxMultiplier.toNat := Nat.le_mul_of_pos_right _ hs.multiplier_pos
  -- the new average is a step of the decaying sum, and `consumed` its average plus the block
  have hstep := DecayingSum.decayed_add_contribution_le (P := rateLimitingPrecision) hs.periods_pos
    (by omega : 1 ≤ blockNum.toNat - acc.lastOrdinal.toNat) hb.valueEx_le hb.pending_le
  have hdecayed := le_trans (DecayingSum.decayed_le (W := p.periods.toNat)
    (δ := blockNum.toNat - acc.lastOrdinal.toNat)) hb.valueEx_le
  have havg := DecayingSum.ceil_div_le hs.periods_le hdecayed
  refine ⟨acc', v, hadd, hv, hord, ⟨by simp, by rw [hval]; exact hstep, ?_, ?_, ?_⟩⟩
  · rw [hcons]
    have := hb.pending_le
    omega
  · rw [hvn]
    exact le_min (le_max_right _ _) hmaxle
  · rw [hvn]
    exact min_le_right _ _

end Bounded

/-- What holds of the block accounting between blocks: sane parameters, both resources bounded, and one last
ordinal for both averages. -/
structure BlockInvariant (r : BlockResources) : Prop where
  cpu_sane : Sane r.config.cpuLimitParameters
  net_sane : Sane r.config.netLimitParameters
  cpu : Bounded r.config.cpuLimitParameters r.state.averageBlockCpuUsage r.state.pendingCpuUsage
    r.state.virtualCpuLimit
  net : Bounded r.config.netLimitParameters r.state.averageBlockNetUsage r.state.pendingNetUsage
    r.state.virtualNetLimit
  same_ordinal : r.state.averageBlockNetUsage.lastOrdinal = r.state.averageBlockCpuUsage.lastOrdinal

/-- The defaults are sane. -/
theorem sane_default : Sane ResourceLimitsConfigObject.default.cpuLimitParameters ∧
    Sane ResourceLimitsConfigObject.default.netLimitParameters :=
  ⟨⟨by decide, by decide, by decide, by decide, by decide, by decide, by decide⟩,
    ⟨by decide, by decide, by decide, by decide, by decide, by decide, by decide⟩⟩

/-- `initialize_database` starts with the invariant: empty averages and the virtual limits at the maximum. -/
theorem blockInvariant_initializeDatabase : BlockInvariant BlockResources.initializeDatabase :=
  ⟨sane_default.1, sane_default.2, ⟨by decide, by decide, by decide, le_refl _, by decide⟩,
    ⟨by decide, by decide, by decide, le_refl _, by decide⟩, rfl⟩

namespace BlockResources

variable {r r' : BlockResources}

/-- What a returning `addBlockUsage` checked and did. -/
theorem addBlockUsage_eq_ok {cpuUsage netUsage : UInt64} (h : r.addBlockUsage cpuUsage netUsage = .ok r') :
    r.state.pendingCpuUsage + cpuUsage ≤ r.config.cpuLimitParameters.max ∧
      r.state.pendingNetUsage + netUsage ≤ r.config.netLimitParameters.max ∧
      r' = { r with state := { r.state with
        pendingCpuUsage := r.state.pendingCpuUsage + cpuUsage
        pendingNetUsage := r.state.pendingNetUsage + netUsage } } := by
  by_cases hc : r.state.pendingCpuUsage + cpuUsage ≤ r.config.cpuLimitParameters.max
  · by_cases hn : r.state.pendingNetUsage + netUsage ≤ r.config.netLimitParameters.max
    · simp only [addBlockUsage, Except.assert, decide_eq_true hc, decide_eq_true hn, if_true, bind, Except.bind,
        pure, Except.pure, Except.ok.injEq] at h
      exact ⟨hc, hn, h.symm⟩
    · simp [addBlockUsage, Except.assert, hc, hn, bind, Except.bind] at h
  · simp [addBlockUsage, Except.assert, hc, bind, Except.bind] at h

/-- A transaction's usage that fits changes only the pending usage, within the maximum. -/
theorem addBlockUsage_invariant (hi : BlockInvariant r) {cpuUsage netUsage : UInt64}
    (h : r.addBlockUsage cpuUsage netUsage = .ok r') :
    BlockInvariant r' ∧ r'.state.averageBlockCpuUsage = r.state.averageBlockCpuUsage := by
  obtain ⟨hcpu, hnet, rfl⟩ := addBlockUsage_eq_ok h
  exact ⟨⟨hi.cpu_sane, hi.net_sane, { hi.cpu with pending_le := UInt64.le_iff_toNat_le.mp hcpu },
    { hi.net with pending_le := UInt64.le_iff_toNat_le.mp hnet }, hi.same_ordinal⟩, rfl⟩

/-- **A block's processing returns, and the invariant holds again.** From a state with the invariant, the block
number past the last ordinal of the averages, `process_block_usage` returns a state with the invariant, no
pending usage, and the block number as the last ordinal. -/
theorem processBlockUsage_invariant (hi : BlockInvariant r) {blockNum : UInt32}
    (hlt : r.state.averageBlockCpuUsage.lastOrdinal < blockNum) :
    ∃ r', r.processBlockUsage blockNum = .ok r' ∧ BlockInvariant r' ∧
      r'.state.averageBlockCpuUsage.lastOrdinal = blockNum := by
  obtain ⟨cpu, vcpu, hcpu, hvcpu, hcord, hcb⟩ := hi.cpu.block hi.cpu_sane hlt
  obtain ⟨net, vnet, hnet, hvnet, hnord, hnb⟩ := hi.net.block hi.net_sane (hi.same_ordinal ▸ hlt)
  refine ⟨⟨r.config, ⟨net, cpu, 0, 0, vnet, vcpu⟩⟩, ?_, ⟨hi.cpu_sane, hi.net_sane, hcb, hnb, ?_⟩, hcord⟩
  · simp only [processBlockUsage, BlockUsageState.updateVirtualCpuLimit, BlockUsageState.updateVirtualNetLimit,
      hcpu, hvcpu, hnet, hvnet, bind, Except.bind, pure, Except.pure]
  · exact hnord.trans hcord.symm

/-- **The virtual limits follow the averages.** From a state with the invariant, with a contract rate of at most
one and an expand rate of at least one for each resource, the block's processing does not raise a virtual limit
whose new average is above the target, and does not lower one whose new average is not. -/
theorem virtual_limits_follow_average (hi : BlockInvariant r) {blockNum : UInt32}
    (hlt : r.state.averageBlockCpuUsage.lastOrdinal < blockNum)
    (hcpu : RatesAroundOne r.config.cpuLimitParameters) (hnet : RatesAroundOne r.config.netLimitParameters) :
    ∃ r', r.processBlockUsage blockNum = .ok r' ∧
      FollowsAverage r.config.cpuLimitParameters r'.state.averageBlockCpuUsage.average r.state.virtualCpuLimit
        r'.state.virtualCpuLimit ∧
      FollowsAverage r.config.netLimitParameters r'.state.averageBlockNetUsage.average r.state.virtualNetLimit
        r'.state.virtualNetLimit := by
  obtain ⟨cpu, vcpu, hcpu', hvcpu, -, -⟩ := hi.cpu.block hi.cpu_sane hlt
  obtain ⟨net, vnet, hnet', hvnet, -, -⟩ := hi.net.block hi.net_sane (hi.same_ordinal ▸ hlt)
  refine ⟨⟨r.config, ⟨net, cpu, 0, 0, vnet, vcpu⟩⟩, ?_, hi.cpu.followsAverage hi.cpu_sane hcpu hvcpu,
    hi.net.followsAverage hi.net_sane hnet hvnet⟩
  simp only [processBlockUsage, BlockUsageState.updateVirtualCpuLimit, BlockUsageState.updateVirtualNetLimit,
    hcpu', hvcpu, hnet', hvnet, bind, Except.bind, pure, Except.pure]

theorem virtual_limits_follow_average_first_block :
    ∃ r', initializeDatabase.processBlockUsage 1 = .ok r' ∧
      FollowsAverage initializeDatabase.config.cpuLimitParameters r'.state.averageBlockCpuUsage.average
        initializeDatabase.state.virtualCpuLimit r'.state.virtualCpuLimit ∧
      FollowsAverage initializeDatabase.config.netLimitParameters r'.state.averageBlockNetUsage.average
        initializeDatabase.state.virtualNetLimit r'.state.virtualNetLimit :=
  virtual_limits_follow_average blockInvariant_initializeDatabase (by decide) (by decide) (by decide)

end BlockResources

/-! ## Runs of a chain -/

/-- What the block accounting sees of a chain: a transaction's usage, or the end of a block. -/
inductive BlockEvent
  | transaction (cpuUsage netUsage : UInt64)
  | block (blockNum : UInt32)
  deriving DecidableEq, Repr

/-- A chain's run: a transaction whose usage does not fit in the block is dropped with its undo session, and a block
whose processing throws stops the chain. -/
def runBlocks : BlockResources → List BlockEvent → Except UsageError BlockResources
  | r, [] => .ok r
  | r, .transaction cpuUsage netUsage :: es =>
    runBlocks (Rollback.step (fun (u : UInt64 × UInt64) r => r.addBlockUsage u.1 u.2) r (cpuUsage, netUsage)) es
  | r, .block blockNum :: es => do
    let r' ← r.processBlockUsage blockNum
    runBlocks r' es

/-- The block numbers of the events increase, from above `last`. -/
def ascendingFrom : Nat → List BlockEvent → Bool
  | _, [] => true
  | last, .transaction _ _ :: es => ascendingFrom last es
  | last, .block blockNum :: es => decide (last < blockNum.toNat) && ascendingFrom blockNum.toNat es

/-- Every run from a state with the invariant, with block numbers past the last ordinal, returns a state with the
invariant. -/
theorem runBlocks_invariant : ∀ (es : List BlockEvent) (r : BlockResources), BlockInvariant r →
    ascendingFrom r.state.averageBlockCpuUsage.lastOrdinal.toNat es = true →
    ∃ r', runBlocks r es = .ok r' ∧ BlockInvariant r'
  | [], r, hi, _ => ⟨r, rfl, hi⟩
  | .transaction cpuUsage netUsage :: es, r, hi, hasc => by
    -- the transaction is kept or dropped; either way the averages are those of `r`
    cases h : r.addBlockUsage cpuUsage netUsage with
    | ok r' =>
      obtain ⟨hi', hacc⟩ := BlockResources.addBlockUsage_invariant hi h
      have hstep : Rollback.step (fun (u : UInt64 × UInt64) r => r.addBlockUsage u.1 u.2) r (cpuUsage, netUsage) = r' :=
        Rollback.step_of_ok h
      rw [runBlocks, hstep]
      exact runBlocks_invariant es r' hi' (by rw [hacc]; exact hasc)
    | error e =>
      have hstep : Rollback.step (fun (u : UInt64 × UInt64) r => r.addBlockUsage u.1 u.2) r (cpuUsage, netUsage) = r :=
        Rollback.step_of_error h
      rw [runBlocks, hstep]
      exact runBlocks_invariant es r hi hasc
  | .block blockNum :: es, r, hi, hasc => by
    simp only [ascendingFrom, Bool.and_eq_true, decide_eq_true_eq] at hasc
    obtain ⟨r', hproc, hi', hord⟩ := BlockResources.processBlockUsage_invariant hi
      (UInt32.lt_iff_toNat_lt.mpr hasc.1)
    rw [runBlocks, hproc]
    exact runBlocks_invariant es r' hi' (by rw [hord]; exact hasc.2)

/-- **Processing a block never throws.** On a chain started by `initialize_database`, whatever the transactions
and with block numbers that increase, every block's `process_block_usage` returns. Between blocks the pending
usage stays within the block's maximum, the scaled averages within `max * rate_limiting_precision + periods - 1`,
and the virtual limits within `[max, max * max_multiplier]`. -/
theorem process_block_usage_never_throws {es : List BlockEvent} (h : ascendingFrom 0 es = true) :
    ∃ r, runBlocks BlockResources.initializeDatabase es = .ok r ∧ BlockInvariant r :=
  runBlocks_invariant es _ blockInvariant_initializeDatabase h

theorem process_block_usage_never_throws_two_blocks :
    ∃ r, runBlocks BlockResources.initializeDatabase
        [.transaction 150000 1000, .block 2, .transaction 300000 10, .transaction 20000 500, .block 3] = .ok r ∧
      BlockInvariant r :=
  process_block_usage_never_throws (by decide)

/- A full block is far below the target once averaged over 120 blocks, so the virtual CPU limit expands by
`1000 / 999`; the second transaction of the next block does not fit and is dropped. -/
example : (runBlocks BlockResources.initializeDatabase [.transaction 150000 1000, .block 2,
    .transaction 300000 10]).toOption.map (fun r => (r.state.virtualCpuLimit, r.state.pendingCpuUsage)) =
      some (200200, 0) := by
  decide

end Gstio.Chain.ResourceLimits
