import Mathlib
import Gstio.Lib.Rollback
import Gstio.Lib.ByteCodec
import Gstio.Fc.Raw
import Gstio.Chain.BlockUsage

/-!
# The chain configuration: `chain_config` and the blockchain parameters

The configuration the producers vote on (`chain_config`) is checked by `validate` and kept in the global properties.
It is written there twice: by the controller when it creates the chain from the genesis configuration, and by the
privileged intrinsic `set_blockchain_parameters_packed`, which reads a configuration from raw bytes; the intrinsic
`get_blockchain_parameters_packed` writes it back out.

* `ChainConfig.validate_eq_ok_iff`: `validate` accepts exactly the configurations of `ChainConfig.Valid`, bounds on
  the fields whose differences never wrap;
* `ChainConfig.canonical`: the raw reader of `chain_config` takes exactly the bytes its writer writes;
* `parameters_round_trip`: writing back the parameters read changes nothing, and the parameters read are the bytes of
  the last ones set;
* `genesis_eq_ignores_min_transaction_cpu_usage`: the comparison of genesis states does not see one field of the
  configuration, which its raw form, and so the chain id, does.
-/

namespace Gstio.Chain

open ResourceLimits (percent100 percent1 defaultMaxBlockNetUsage defaultTargetBlockNetUsagePct
  defaultMaxBlockCpuUsage defaultTargetBlockCpuUsagePct)

/-! ## Configuration constants -/

/-- `config::default_max_transaction_net_usage`. -/
def defaultMaxTransactionNetUsage : Nat := defaultMaxBlockNetUsage / 2

/-- `config::default_base_per_transaction_net_usage`. -/
def defaultBasePerTransactionNetUsage : Nat := 12

/-- `config::default_net_usage_leeway`. -/
def defaultNetUsageLeeway : Nat := 500

/-- `config::default_context_free_discount_net_usage_num`. -/
def defaultContextFreeDiscountNetUsageNum : Nat := 20

/-- `config::default_context_free_discount_net_usage_den`. -/
def defaultContextFreeDiscountNetUsageDen : Nat := 100

/-- `config::default_max_transaction_cpu_usage`. -/
def defaultMaxTransactionCpuUsage : Nat := 3 * defaultMaxBlockCpuUsage / 4

/-- `config::default_min_transaction_cpu_usage`. -/
def defaultMinTransactionCpuUsage : Nat := 100

/-- `config::default_max_trx_lifetime`. -/
def defaultMaxTrxLifetime : Nat := 60 * 60

/-- `config::default_deferred_trx_expiration_window`. -/
def defaultDeferredTrxExpirationWindow : Nat := 10 * 60

/-- `config::default_max_trx_delay`. -/
def defaultMaxTrxDelay : Nat := 45 * 24 * 3600

/-- `config::default_max_inline_action_size`. -/
def defaultMaxInlineActionSize : Nat := 4 * 1024

/-- `config::default_max_inline_action_depth`. -/
def defaultMaxInlineActionDepth : Nat := 4

/-- `config::default_max_auth_depth`. -/
def defaultMaxAuthDepth : Nat := 6

/-- `config::min_net_usage_delta_between_base_and_max_for_trx`. -/
def minNetUsageDeltaBetweenBaseAndMaxForTrx : Nat := 10 * 1024

/-! ## `chain_config` -/

/-- `chain_config`, its fields in the order of its `FC_REFLECT`. -/
structure ChainConfig where
  maxBlockNetUsage : UInt64
  targetBlockNetUsagePct : UInt32
  maxTransactionNetUsage : UInt32
  basePerTransactionNetUsage : UInt32
  netUsageLeeway : UInt32
  contextFreeDiscountNetUsageNum : UInt32
  contextFreeDiscountNetUsageDen : UInt32
  maxBlockCpuUsage : UInt32
  targetBlockCpuUsagePct : UInt32
  maxTransactionCpuUsage : UInt32
  minTransactionCpuUsage : UInt32
  maxTransactionLifetime : UInt32
  deferredTrxExpirationWindow : UInt32
  maxTransactionDelay : UInt32
  maxInlineActionSize : UInt32
  maxInlineActionDepth : UInt16
  maxAuthorityDepth : UInt16
  deriving DecidableEq, Repr

/-- The exceptions of this part: `action_validate_exception` from `validate`, and those of the raw reader. -/
inductive ConfigError where
  | actionValidateException (msg : String)
  | fc (e : Fc.FcException)
  deriving DecidableEq, Repr

namespace ChainConfig

/-- `genesis_state::initial_configuration`: the defaults of `config.hpp`. -/
def genesisDefault : ChainConfig where
  maxBlockNetUsage := UInt64.ofNat defaultMaxBlockNetUsage
  targetBlockNetUsagePct := UInt32.ofNat defaultTargetBlockNetUsagePct
  maxTransactionNetUsage := UInt32.ofNat defaultMaxTransactionNetUsage
  basePerTransactionNetUsage := UInt32.ofNat defaultBasePerTransactionNetUsage
  netUsageLeeway := UInt32.ofNat defaultNetUsageLeeway
  contextFreeDiscountNetUsageNum := UInt32.ofNat defaultContextFreeDiscountNetUsageNum
  contextFreeDiscountNetUsageDen := UInt32.ofNat defaultContextFreeDiscountNetUsageDen
  maxBlockCpuUsage := UInt32.ofNat defaultMaxBlockCpuUsage
  targetBlockCpuUsagePct := UInt32.ofNat defaultTargetBlockCpuUsagePct
  maxTransactionCpuUsage := UInt32.ofNat defaultMaxTransactionCpuUsage
  minTransactionCpuUsage := UInt32.ofNat defaultMinTransactionCpuUsage
  maxTransactionLifetime := UInt32.ofNat defaultMaxTrxLifetime
  deferredTrxExpirationWindow := UInt32.ofNat defaultDeferredTrxExpirationWindow
  maxTransactionDelay := UInt32.ofNat defaultMaxTrxDelay
  maxInlineActionSize := UInt32.ofNat defaultMaxInlineActionSize
  maxInlineActionDepth := UInt16.ofNat defaultMaxInlineActionDepth
  maxAuthorityDepth := UInt16.ofNat defaultMaxAuthDepth

/-- `chain_config::validate`. The two differences are of `uint32_t`. -/
def validate (c : ChainConfig) : Except ConfigError Unit := do
  Except.assert (decide (c.targetBlockNetUsagePct.toNat ≤ percent100))
    (.actionValidateException "target block net usage percentage cannot exceed 100%")
  Except.assert (decide (c.targetBlockNetUsagePct.toNat ≥ percent1 / 10))
    (.actionValidateException "target block net usage percentage must be at least 0.1%")
  Except.assert (decide (c.targetBlockCpuUsagePct.toNat ≤ percent100))
    (.actionValidateException "target block cpu usage percentage cannot exceed 100%")
  Except.assert (decide (c.targetBlockCpuUsagePct.toNat ≥ percent1 / 10))
    (.actionValidateException "target block cpu usage percentage must be at least 0.1%")
  Except.assert (decide (c.maxTransactionNetUsage.toNat < c.maxBlockNetUsage.toNat))
    (.actionValidateException "max transaction net usage must be less than max block net usage")
  Except.assert (decide (c.maxTransactionCpuUsage < c.maxBlockCpuUsage))
    (.actionValidateException "max transaction cpu usage must be less than max block cpu usage")
  Except.assert (decide (c.basePerTransactionNetUsage < c.maxTransactionNetUsage))
    (.actionValidateException "base net usage per transaction must be less than the max transaction net usage")
  Except.assert (decide ((c.maxTransactionNetUsage - c.basePerTransactionNetUsage).toNat ≥
      minNetUsageDeltaBetweenBaseAndMaxForTrx))
    (.actionValidateException
      "max transaction net usage must be at least ${delta} bytes larger than base net usage per transaction")
  Except.assert (decide (c.contextFreeDiscountNetUsageDen > 0))
    (.actionValidateException "net usage discount ratio for context free data cannot have a 0 denominator")
  Except.assert (decide (c.contextFreeDiscountNetUsageNum ≤ c.contextFreeDiscountNetUsageDen))
    (.actionValidateException "net usage discount ratio for context free data cannot exceed 1")
  Except.assert (decide (c.minTransactionCpuUsage ≤ c.maxTransactionCpuUsage))
    (.actionValidateException "min transaction cpu usage cannot exceed max transaction cpu usage")
  Except.assert (decide (c.maxTransactionCpuUsage < c.maxBlockCpuUsage - c.minTransactionCpuUsage))
    (.actionValidateException
      "max transaction cpu usage must be at less than the difference between the max block cpu usage and the min transaction cpu usage")
  Except.assert (decide (1 ≤ c.maxAuthorityDepth))
    (.actionValidateException "max authority depth should be at least 1")

/-- `operator==(const chain_config&, const chain_config&)`: the `std::tie` of both sides, which names
`max_transaction_cpu_usage` twice and `min_transaction_cpu_usage` not at all. -/
def eq (l r : ChainConfig) : Bool :=
  l.maxBlockNetUsage == r.maxBlockNetUsage &&
  l.targetBlockNetUsagePct == r.targetBlockNetUsagePct &&
  l.maxTransactionNetUsage == r.maxTransactionNetUsage &&
  l.basePerTransactionNetUsage == r.basePerTransactionNetUsage &&
  l.netUsageLeeway == r.netUsageLeeway &&
  l.contextFreeDiscountNetUsageNum == r.contextFreeDiscountNetUsageNum &&
  l.contextFreeDiscountNetUsageDen == r.contextFreeDiscountNetUsageDen &&
  l.maxBlockCpuUsage == r.maxBlockCpuUsage &&
  l.targetBlockCpuUsagePct == r.targetBlockCpuUsagePct &&
  l.maxTransactionCpuUsage == r.maxTransactionCpuUsage &&
  l.maxTransactionCpuUsage == r.maxTransactionCpuUsage &&
  l.maxTransactionLifetime == r.maxTransactionLifetime &&
  l.deferredTrxExpirationWindow == r.deferredTrxExpirationWindow &&
  l.maxTransactionDelay == r.maxTransactionDelay &&
  l.maxInlineActionSize == r.maxInlineActionSize &&
  l.maxInlineActionDepth == r.maxInlineActionDepth &&
  l.maxAuthorityDepth == r.maxAuthorityDepth

/-! ### The raw form -/

/-- The fields as `FC_REFLECT` lists them. -/
def fields (c : ChainConfig) : UInt64 × UInt32 × UInt32 × UInt32 × UInt32 × UInt32 × UInt32 × UInt32 × UInt32 ×
    UInt32 × UInt32 × UInt32 × UInt32 × UInt32 × UInt32 × UInt16 × UInt16 :=
  (c.maxBlockNetUsage, c.targetBlockNetUsagePct, c.maxTransactionNetUsage, c.basePerTransactionNetUsage,
    c.netUsageLeeway, c.contextFreeDiscountNetUsageNum, c.contextFreeDiscountNetUsageDen, c.maxBlockCpuUsage,
    c.targetBlockCpuUsagePct, c.maxTransactionCpuUsage, c.minTransactionCpuUsage, c.maxTransactionLifetime,
    c.deferredTrxExpirationWindow, c.maxTransactionDelay, c.maxInlineActionSize, c.maxInlineActionDepth,
    c.maxAuthorityDepth)

/-- The configuration of its fields in `FC_REFLECT` order. -/
def ofFields : UInt64 × UInt32 × UInt32 × UInt32 × UInt32 × UInt32 × UInt32 × UInt32 × UInt32 × UInt32 × UInt32 ×
    UInt32 × UInt32 × UInt32 × UInt32 × UInt16 × UInt16 → ChainConfig
  | (a, b, c, d, e, f, g, h, i, j, k, l, m, n, o, p, q) => ⟨a, b, c, d, e, f, g, h, i, j, k, l, m, n, o, p, q⟩

/-- `fc::raw::pack(s, const chain_config&)`: each field, little endian, in `FC_REFLECT` order. -/
def pack (c : ChainConfig) : List UInt8 :=
  Fc.uint64Codec.pack c.maxBlockNetUsage ++ Fc.uint32Codec.pack c.targetBlockNetUsagePct ++
    Fc.uint32Codec.pack c.maxTransactionNetUsage ++ Fc.uint32Codec.pack c.basePerTransactionNetUsage ++
    Fc.uint32Codec.pack c.netUsageLeeway ++ Fc.uint32Codec.pack c.contextFreeDiscountNetUsageNum ++
    Fc.uint32Codec.pack c.contextFreeDiscountNetUsageDen ++ Fc.uint32Codec.pack c.maxBlockCpuUsage ++
    Fc.uint32Codec.pack c.targetBlockCpuUsagePct ++ Fc.uint32Codec.pack c.maxTransactionCpuUsage ++
    Fc.uint32Codec.pack c.minTransactionCpuUsage ++ Fc.uint32Codec.pack c.maxTransactionLifetime ++
    Fc.uint32Codec.pack c.deferredTrxExpirationWindow ++ Fc.uint32Codec.pack c.maxTransactionDelay ++
    Fc.uint32Codec.pack c.maxInlineActionSize ++ Fc.uint16Codec.pack c.maxInlineActionDepth ++
    Fc.uint16Codec.pack c.maxAuthorityDepth

/-- `fc::raw::unpack(s, chain_config&)`: each field from the bytes the one before left, in `FC_REFLECT` order. -/
def unpack : List UInt8 → Except Fc.FcException (ChainConfig × List UInt8) :=
  ByteCodec.map ofFields <|
    ByteCodec.seq Fc.uint64Codec.unpack <| ByteCodec.seq Fc.uint32Codec.unpack <|
    ByteCodec.seq Fc.uint32Codec.unpack <| ByteCodec.seq Fc.uint32Codec.unpack <|
    ByteCodec.seq Fc.uint32Codec.unpack <| ByteCodec.seq Fc.uint32Codec.unpack <|
    ByteCodec.seq Fc.uint32Codec.unpack <| ByteCodec.seq Fc.uint32Codec.unpack <|
    ByteCodec.seq Fc.uint32Codec.unpack <| ByteCodec.seq Fc.uint32Codec.unpack <|
    ByteCodec.seq Fc.uint32Codec.unpack <| ByteCodec.seq Fc.uint32Codec.unpack <|
    ByteCodec.seq Fc.uint32Codec.unpack <| ByteCodec.seq Fc.uint32Codec.unpack <|
    ByteCodec.seq Fc.uint32Codec.unpack <| ByteCodec.seq Fc.uint16Codec.unpack Fc.uint16Codec.unpack

/-! ### What `validate` accepts -/

/-- What `validate` asks of a configuration, in numbers: the target percentages between 0.1% and 100%, a
transaction's net usage below the block's and at least `min_net_usage_delta_between_base_and_max_for_trx` above the
base, a discount ratio of at most one, a transaction's CPU usage plus the minimum below the block's, the minimum at
most the maximum, and an authority depth of at least one. -/
structure Valid (c : ChainConfig) : Prop where
  net_pct_le : c.targetBlockNetUsagePct.toNat ≤ percent100
  net_pct_ge : percent1 / 10 ≤ c.targetBlockNetUsagePct.toNat
  cpu_pct_le : c.targetBlockCpuUsagePct.toNat ≤ percent100
  cpu_pct_ge : percent1 / 10 ≤ c.targetBlockCpuUsagePct.toNat
  trx_net_lt : c.maxTransactionNetUsage.toNat < c.maxBlockNetUsage.toNat
  base_net_room : c.basePerTransactionNetUsage.toNat + minNetUsageDeltaBetweenBaseAndMaxForTrx ≤
    c.maxTransactionNetUsage.toNat
  discount_den_pos : 0 < c.contextFreeDiscountNetUsageDen.toNat
  discount_le : c.contextFreeDiscountNetUsageNum.toNat ≤ c.contextFreeDiscountNetUsageDen.toNat
  min_cpu_le : c.minTransactionCpuUsage.toNat ≤ c.maxTransactionCpuUsage.toNat
  trx_cpu_room : c.maxTransactionCpuUsage.toNat + c.minTransactionCpuUsage.toNat < c.maxBlockCpuUsage.toNat
  authority_depth_pos : 1 ≤ c.maxAuthorityDepth.toNat

/-- **`validate` accepts exactly the valid configurations.** Its two differences of `uint32_t` never wrap: each
comes after the checks that order its operands. -/
theorem validate_eq_ok_iff {c : ChainConfig} : c.validate = .ok () ↔ c.Valid := by
  simp only [validate, Except.assert_bind_eq_ok, Except.assert_eq_ok, decide_eq_true_eq, UInt32.lt_iff_toNat_lt,
    UInt32.le_iff_toNat_le, UInt16.le_iff_toNat_le, gt_iff_lt, ge_iff_le, UInt16.toNat_one, UInt32.toNat_zero]
  have hnet : c.basePerTransactionNetUsage.toNat ≤ c.maxTransactionNetUsage.toNat →
      (c.maxTransactionNetUsage - c.basePerTransactionNetUsage).toNat =
        c.maxTransactionNetUsage.toNat - c.basePerTransactionNetUsage.toNat :=
    fun h => UInt32.toNat_sub_of_le _ _ (UInt32.le_iff_toNat_le.mpr h)
  have hcpu : c.minTransactionCpuUsage.toNat ≤ c.maxBlockCpuUsage.toNat →
      (c.maxBlockCpuUsage - c.minTransactionCpuUsage).toNat =
        c.maxBlockCpuUsage.toNat - c.minTransactionCpuUsage.toNat :=
    fun h => UInt32.toNat_sub_of_le _ _ (UInt32.le_iff_toNat_le.mpr h)
  constructor
  · rintro ⟨h₁, h₂, h₃, h₄, h₅, h₆, h₇, h₈, h₉, h₁₀, h₁₁, h₁₂, h₁₃⟩
    rw [hnet (by omega)] at h₈
    rw [hcpu (by omega)] at h₁₂
    exact ⟨h₁, h₂, h₃, h₄, h₅, by omega, h₉, h₁₀, h₁₁, by omega, h₁₃⟩
  · intro hv
    have h₁ := hv.base_net_room
    have h₂ := hv.trx_cpu_room
    have hδ : 0 < minNetUsageDeltaBetweenBaseAndMaxForTrx := by decide
    rw [hnet (by omega), hcpu (by omega)]
    exact ⟨hv.net_pct_le, hv.net_pct_ge, hv.cpu_pct_le, hv.cpu_pct_ge, hv.trx_net_lt, by omega, by omega, by omega,
      hv.discount_den_pos, hv.discount_le, hv.min_cpu_le, by omega, hv.authority_depth_pos⟩

instance : DecidablePred Valid := fun _ => decidable_of_iff _ validate_eq_ok_iff

theorem valid_genesisDefault : genesisDefault.Valid := validate_eq_ok_iff.mp rfl

/-! ### The raw form is canonical -/

theorem ofFields_fields : ∀ c : ChainConfig, ofFields (fields c) = c
  | ⟨_, _, _, _, _, _, _, _, _, _, _, _, _, _, _, _, _⟩ => rfl

theorem fields_ofFields : ∀ p, fields (ofFields p) = p
  | (_, _, _, _, _, _, _, _, _, _, _, _, _, _, _, _, _) => rfl

/-- The raw reader of `chain_config` takes exactly the bytes its writer writes: the seventeen canonical field codecs
in sequence, through the fields. -/
theorem canonical : ByteCodec.Canonical pack unpack := by
  have h := (Fc.uint64Codec_canonical.seq <| Fc.uint32Codec_canonical.seq <| Fc.uint32Codec_canonical.seq <|
    Fc.uint32Codec_canonical.seq <| Fc.uint32Codec_canonical.seq <| Fc.uint32Codec_canonical.seq <|
    Fc.uint32Codec_canonical.seq <| Fc.uint32Codec_canonical.seq <| Fc.uint32Codec_canonical.seq <|
    Fc.uint32Codec_canonical.seq <| Fc.uint32Codec_canonical.seq <| Fc.uint32Codec_canonical.seq <|
    Fc.uint32Codec_canonical.seq <| Fc.uint32Codec_canonical.seq <| Fc.uint32Codec_canonical.seq <|
    Fc.uint16Codec_canonical.seq Fc.uint16Codec_canonical).map ofFields_fields fields_ofFields
  -- the composed writer is `pack` up to the grouping of its appends
  have hw : pack = fun c => _ := funext fun c => by simp only [pack, List.append_assoc]; rfl
  rw [hw]
  exact h

@[simp] theorem length_pack (c : ChainConfig) : c.pack.length = 68 := by
  simp [pack, Fc.uint64Codec, Fc.uint32Codec, Fc.uint16Codec, Fc.fixedCodec]

/-! ### Its comparison -/

/-- `operator==` is equality of everything but `min_transaction_cpu_usage`. -/
theorem eq_iff {l r : ChainConfig} :
    l.eq r = true ↔ { l with minTransactionCpuUsage := 0 } = { r with minTransactionCpuUsage := 0 } := by
  obtain ⟨_, _, _, _, _, _, _, _, _, _, _, _, _, _, _, _, _⟩ := l
  obtain ⟨_, _, _, _, _, _, _, _, _, _, _, _, _, _, _, _, _⟩ := r
  simp only [eq, Bool.and_eq_true, beq_iff_eq, mk.injEq, true_and, and_self, and_assoc]

end ChainConfig

/-! ## The global properties -/

/-- `global_property_object`, with the one field these functions use. -/
structure GlobalPropertyObject where
  configuration : ChainConfig
  deriving DecidableEq, Repr

/-- The part of `controller_impl::initialize_database` that creates the global properties: the genesis
configuration is validated, then stored. -/
def initializeGlobalProperties (initialConfiguration : ChainConfig) : Except ConfigError GlobalPropertyObject := do
  initialConfiguration.validate
  pure ⟨initialConfiguration⟩

/-- `get_blockchain_parameters_packed(packed_blockchain_parameters, buffer_size)`: the size of the packed
configuration, and what is written to the buffer. A buffer of size zero asks for the size only; one too small gets
nothing, and zero back. -/
def getBlockchainParametersPacked (gpo : GlobalPropertyObject) (bufferSize : Nat) : Nat × List UInt8 :=
  let s := gpo.configuration.pack.length
  if bufferSize = 0 then (s, [])
  else if s ≤ bufferSize then (s, gpo.configuration.pack)
  else (0, [])

/-- `set_blockchain_parameters_packed(packed_blockchain_parameters, datalen)`: a configuration read from the start of
the buffer, validated and stored. What follows it in the buffer is not read. -/
def setBlockchainParametersPacked (packed : List UInt8) (gpo : GlobalPropertyObject) :
    Except ConfigError GlobalPropertyObject := do
  let (cfg, _) ← (ChainConfig.unpack packed).mapError .fc
  cfg.validate
  pure { gpo with configuration := cfg }

/-! ## The parameters over a run -/

section Parameters

variable {gpo : GlobalPropertyObject}

theorem initializeGlobalProperties_eq_ok_iff {c : ChainConfig} :
    initializeGlobalProperties c = .ok gpo ↔ c.Valid ∧ gpo = ⟨c⟩ := by
  simp only [initializeGlobalProperties, ← ChainConfig.validate_eq_ok_iff]
  cases c.validate with
  | error e => simp [bind, Except.bind]
  | ok u => simp [bind, Except.bind, pure, Except.pure, eq_comm]

/-- What a returning `set_blockchain_parameters_packed` read and stored: a valid configuration whose bytes start
the buffer. -/
theorem setBlockchainParametersPacked_eq_ok_iff {b : List UInt8} {gpo' : GlobalPropertyObject} :
    setBlockchainParametersPacked b gpo = .ok gpo' ↔ ∃ c rest, b = c.pack ++ rest ∧ c.Valid ∧ gpo' = ⟨c⟩ := by
  constructor
  · intro h
    cases hu : ChainConfig.unpack b with
    | error e => simp [setBlockchainParametersPacked, hu, Except.mapError, bind, Except.bind] at h
    | ok p =>
      obtain ⟨c, rest⟩ := p
      cases hval : c.validate with
      | error e => simp [setBlockchainParametersPacked, hu, hval, Except.mapError, bind, Except.bind] at h
      | ok u =>
        simp only [setBlockchainParametersPacked, hu, hval, Except.mapError, bind, Except.bind, pure, Except.pure,
          Except.ok.injEq] at h
        exact ⟨c, rest, ChainConfig.canonical.eq_of_read hu, ChainConfig.validate_eq_ok_iff.mp hval, h.symm⟩
  · rintro ⟨c, rest, hb, hv, hg⟩
    -- rewriting: substituting the buffer is slow here
    rw [hb]
    cases hg
    simp only [setBlockchainParametersPacked, ChainConfig.canonical.read_write, ChainConfig.validate_eq_ok_iff.mpr hv,
      Except.mapError, bind, Except.bind, pure, Except.pure]

/-- A buffer that holds the packed configuration gets it. -/
theorem getBlockchainParametersPacked_of_le {n : Nat} (hn : 68 ≤ n) :
    getBlockchainParametersPacked gpo n = (68, gpo.configuration.pack) := by
  simp only [getBlockchainParametersPacked, ChainConfig.length_pack, if_neg (by omega : n ≠ 0), if_pos hn]

/-- **The parameters read back.** For a valid configuration and a buffer that holds its 68 bytes, setting what
`get_blockchain_parameters_packed` wrote leaves the global properties as they were; and after a
`set_blockchain_parameters_packed` that returned, `get_blockchain_parameters_packed` writes the 68 bytes the set read
from the start of its buffer. -/
theorem parameters_round_trip (hv : gpo.configuration.Valid) {n : Nat} (hn : 68 ≤ n) :
    setBlockchainParametersPacked (getBlockchainParametersPacked gpo n).2 gpo = .ok gpo ∧
      ∀ b gpo', setBlockchainParametersPacked b gpo = .ok gpo' →
        getBlockchainParametersPacked gpo' n = (68, b.take 68) := by
  refine ⟨?_, fun b gpo' h => ?_⟩
  · rw [getBlockchainParametersPacked_of_le hn]
    exact setBlockchainParametersPacked_eq_ok_iff.mpr ⟨gpo.configuration, [], (List.append_nil _).symm, hv, rfl⟩
  · obtain ⟨c, rest, hb, -, hg⟩ := setBlockchainParametersPacked_eq_ok_iff.mp h
    cases hg
    rw [getBlockchainParametersPacked_of_le hn, hb, List.take_left' (ChainConfig.length_pack c)]

theorem parameters_round_trip_genesis :
    setBlockchainParametersPacked (getBlockchainParametersPacked ⟨ChainConfig.genesisDefault⟩ 68).2
        ⟨ChainConfig.genesisDefault⟩ = .ok ⟨ChainConfig.genesisDefault⟩ ∧
      ∀ b gpo', setBlockchainParametersPacked b ⟨ChainConfig.genesisDefault⟩ = .ok gpo' →
        getBlockchainParametersPacked gpo' 68 = (68, b.take 68) :=
  parameters_round_trip ChainConfig.valid_genesisDefault (le_refl 68)

end Parameters

/-! ## The genesis state -/

/-- `genesis_state`, over the type of public keys. -/
structure GenesisState (Key : Type) where
  initialConfiguration : ChainConfig
  initialTimestamp : UInt64
  initialKey : Key

namespace GenesisState

variable {Key : Type}

/-- `operator==(const genesis_state&, const genesis_state&)`: the configurations by their `operator==`, then the
timestamps and keys. -/
def eq [DecidableEq Key] (l r : GenesisState Key) : Bool :=
  l.initialConfiguration.eq r.initialConfiguration && l.initialTimestamp == r.initialTimestamp &&
    decide (l.initialKey = r.initialKey)

/-- `fc::raw::pack(s, const genesis_state&)`, in `FC_REFLECT` order: the timestamp in microseconds as a `uint64_t`,
the key, the configuration. `compute_chain_id` is the hash of these bytes. -/
def pack (packKey : Key → List UInt8) (g : GenesisState Key) : List UInt8 :=
  Fc.uint64Codec.pack g.initialTimestamp ++ packKey g.initialKey ++ g.initialConfiguration.pack

end GenesisState

/-- **The genesis comparison does not see `min_transaction_cpu_usage`.** Changing only that field of a genesis state
gives one that `operator==` calls equal, as the check of `chain_plugin` against the genesis of `blocks.log` does,
while its raw form differs, and with it the bytes `compute_chain_id` hashes. -/
theorem genesis_eq_ignores_min_transaction_cpu_usage {Key : Type} [DecidableEq Key] (packKey : Key → List UInt8)
    (g : GenesisState Key) {m : UInt32} (hm : m ≠ g.initialConfiguration.minTransactionCpuUsage) :
    g.eq { g with initialConfiguration := { g.initialConfiguration with minTransactionCpuUsage := m } } = true ∧
      g.pack packKey ≠
        GenesisState.pack packKey
          { g with initialConfiguration := { g.initialConfiguration with minTransactionCpuUsage := m } } := by
  constructor
  · have hcfg : g.initialConfiguration.eq { g.initialConfiguration with minTransactionCpuUsage := m } = true :=
      ChainConfig.eq_iff.mpr rfl
    simp only [GenesisState.eq, hcfg, beq_self_eq_true, decide_true, Bool.and_true]
  · -- the same timestamp and key, so the configurations would pack alike, and the canonical writer is injective
    intro h
    have hcfg := ChainConfig.canonical.injective (List.append_cancel_left h)
    exact hm (congrArg ChainConfig.minTransactionCpuUsage hcfg).symm

theorem genesis_eq_ignores_min_transaction_cpu_usage_default :
    GenesisState.eq (⟨ChainConfig.genesisDefault, 0, ()⟩ : GenesisState Unit)
        ⟨{ ChainConfig.genesisDefault with minTransactionCpuUsage := 0 }, 0, ()⟩ = true ∧
      GenesisState.pack (fun _ => []) (⟨ChainConfig.genesisDefault, 0, ()⟩ : GenesisState Unit) ≠
        GenesisState.pack (fun _ => []) ⟨{ ChainConfig.genesisDefault with minTransactionCpuUsage := 0 }, 0, ()⟩ :=
  genesis_eq_ignores_min_transaction_cpu_usage (fun _ => []) ⟨ChainConfig.genesisDefault, 0, ()⟩ (by decide)

end Gstio.Chain
