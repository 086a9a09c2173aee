import Gstio.Chain.DposIrreversibility

/-!
# The confirmation counters of `block_header_state`

`confirm_count` holds one counter for each recent block, the newest last: `generate_next` appends the confirmations
the new block needs, two thirds of the schedule active before it and one, cut to `uint8_t` (and drops the oldest
counter once there are `maximum_tracked_dpos_confirmations`); `set_confirmed` decrements the counters of the head
block and the `confirmed` blocks before it, from the newest back, and stops at the first that reaches `0`: that
block becomes the proposed irreversible block, and its counter goes with every older one.

Along a run of `next` from a state with no counter (`Window`, kept by each step: `Window.next`):

* counter `i` belongs to the block `block_num - (size - 1 - i)`, made by the step that produced it, and is what that
  block needed minus the headers that confirmed it since; so it lies between `1` and what the block needed;
* every block with a counter is above the proposed irreversible block, which never goes down.

Both rest on two bounds the source does not check: the block numbers must not wrap, and the confirmations a block
needs must fit in `uint8_t`. `tracked_block_not_above_proposed` shows each failing.

* `setConfirmedLoop_cases`: what the loop of `set_confirmed` does to the counters;
* `confirm_count_window`: the invariant over every run.
-/

namespace Gstio.Chain.BlockHeaderState

variable {Key BlockId : Type}

/-! ## The loop of `set_confirmed` -/

/-- A counter reaches `0` when it is decremented from `1`. -/
theorem uint8_sub_one_eq_zero {e : UInt8} : e - 1 = 0 ↔ e = 1 := by grind

theorem toNat_uint8_sub_one {e : UInt8} (h : 0 < e.toNat) : (e - 1).toNat = e.toNat - 1 := by
  rw [UInt8.toNat_sub_of_le _ _ (UInt8.le_iff_toNat_le.mpr (by simp; omega))]
  simp

/-- The loop of `set_confirmed` from index `i` with `b` blocks left to confirm decrements the counters `i - b` to
`i - 1`, from the top, and stops at the first that reaches `0`: that block is proposed, and the counters from it
down are dropped. -/
theorem setConfirmedLoop_cases (s : BlockHeaderState Key BlockId) : ∀ i b, i ≤ s.confirmCount.length →
    ((∀ k, i - b ≤ k → k < i → s.confirmCount[k]? ≠ some 1) ∧
      setConfirmedLoop s i b =
        { s with confirmCount := s.confirmCount.mapIdx fun k e => if i - b ≤ k ∧ k < i then e - 1 else e }) ∨
    ∃ j, i - b ≤ j ∧ j < i ∧ s.confirmCount[j]? = some 1 ∧ (∀ k, j < k → k < i → s.confirmCount[k]? ≠ some 1) ∧
      setConfirmedLoop s i b =
        { s with
          dposProposedIrreversibleBlocknum := s.blockNum - UInt32.ofNat (s.confirmCount.length - 1 - j)
          confirmCount := (s.confirmCount.mapIdx fun k e => if k < i then e - 1 else e).drop (j + 1) }
  | 0, b, _ => by
    have hid : (s.confirmCount.mapIdx fun k e => if 0 - b ≤ k ∧ k < 0 then e - 1 else e) = s.confirmCount :=
      List.ext_getElem? fun k => by simp [List.getElem?_mapIdx]
    exact .inl ⟨fun k _ hk => absurd hk (Nat.not_lt_zero k), by rw [setConfirmedLoop, hid]⟩
  | i + 1, 0, _ => by
    have hid : (s.confirmCount.mapIdx fun k e => if i + 1 - 0 ≤ k ∧ k < i + 1 then e - 1 else e) = s.confirmCount := by
      apply List.ext_getElem?
      intro k
      have hf : (fun e : UInt8 => if i + 1 - 0 ≤ k ∧ k < i + 1 then e - 1 else e) = fun e => e := by
        funext e
        rw [if_neg (by omega)]
      rw [List.getElem?_mapIdx, hf, Option.map_id']
    exact .inl ⟨fun k h1 h2 => absurd h2 (by omega), by rw [setConfirmedLoop, hid]⟩
  | i + 1, b + 1, hi => by
    have hlen : (s.confirmCount.modify i (· - 1)).length = s.confirmCount.length := List.length_modify _ _ _
    obtain ⟨e, he⟩ : ∃ e, s.confirmCount[i]? = some e := Option.isSome_iff_exists.mp (by simp; omega)
    have hmod : ∀ k, (s.confirmCount.modify i (· - 1))[k]? = if k = i then some (e - 1) else s.confirmCount[k]? := by
      intro k
      rw [List.getElem?_modify]
      by_cases hk : k = i
      · simp [hk, he]
      · simp [hk, Ne.symm hk]
    rw [setConfirmedLoop]
    dsimp only
    by_cases hz : (s.confirmCount.modify i (· - 1)).getD i 0 = 0
    · -- the counter at `i` reaches `0`: its block is proposed
      rw [if_pos hz]
      rw [List.getD_eq_getElem?_getD, hmod, if_pos rfl, Option.getD_some, uint8_sub_one_eq_zero] at hz
      subst hz
      refine .inr ⟨i, by omega, by omega, he, fun k h1 h2 => absurd h2 (by omega), ?_⟩
      rw [hlen]
      congr 1
      -- both sides keep the counters above `i`, untouched
      apply List.ext_getElem?
      intro k
      simp only [List.getElem?_drop, List.getElem?_mapIdx, show ¬ i + 1 + k < i + 1 by omega, if_false,
        Option.map_id']
      split
      · rw [List.getElem?_nil, List.getElem?_eq_none (by omega)]
      · rw [List.getElem?_drop, hmod, if_neg (by omega)]
    · -- it does not: the loop goes on with the counter decremented
      rw [if_neg hz]
      rw [List.getD_eq_getElem?_getD, hmod, if_pos rfl, Option.getD_some] at hz
      have hne : s.confirmCount[i]? ≠ some 1 := fun h =>
        hz (uint8_sub_one_eq_zero.mpr (Option.some.inj (he.symm.trans h)))
      have hrec := setConfirmedLoop_cases { s with confirmCount := s.confirmCount.modify i (· - 1) } i b
        (by dsimp only; omega)
      dsimp only at hrec
      rw [hlen] at hrec
      rcases hrec with ⟨hnone, heq⟩ | ⟨j, hj1, hj2, hj3, hj4, heq⟩
      · refine .inl ⟨fun k h1 h2 => ?_, ?_⟩
        · by_cases hk : k = i
          · rwa [hk]
          · have := hnone k (by omega) (by omega)
            rwa [hmod, if_neg hk] at this
        · rw [heq]
          congr 1
          apply List.ext_getElem?
          intro k
          simp only [List.getElem?_mapIdx, hmod]
          by_cases hk : k = i
          · simp [hk, he]
          · rw [if_neg hk]
            congr 1
            funext e
            split_ifs <;> first | rfl | omega
      · refine .inr ⟨j, by omega, by omega, ?_, fun k h1 h2 => ?_, ?_⟩
        · rwa [hmod, if_neg (by omega)] at hj3
        · by_cases hk : k = i
          · rwa [hk]
          · have := hj4 k h1 (by omega)
            rwa [hmod, if_neg hk] at this
        · rw [heq]
          congr 1
          apply List.ext_getElem?
          intro k
          simp only [List.getElem?_drop, List.getElem?_mapIdx, hmod]
          by_cases hk : j + 1 + k = i
          · simp [hk, he]
          · rw [if_neg hk]
            congr 1
            funext e
            split_ifs <;> first | rfl | omega

/-! ## One step of `next` -/

section Step

variable [Inhabited Key] [Inhabited BlockId]

/-- The counters of the template: the old ones (the oldest dropped when they are at their maximum), then the new
block's, cut to `uint8_t`. -/
theorem generateNextFor_confirmCount (s : BlockHeaderState Key BlockId) (when : UInt32) (prokey : ProducerKey Key) :
    (s.generateNextFor when prokey).confirmCount =
      if s.confirmCount.length < maximumTrackedDposConfirmations then
        s.confirmCount ++ [(UInt32.ofNat (s.activeSchedule.producers.length * 2 / 3) + 1).toUInt8]
      else s.confirmCount.tail ++ [(UInt32.ofNat (s.activeSchedule.producers.length * 2 / 3) + 1).toUInt8] :=
  rfl

/-- The new counter holds what the block needs when that fits in `uint8_t`. -/
theorem toNat_requiredConfs {n : Nat} (h : n * 2 / 3 + 1 < 256) :
    (UInt32.ofNat (n * 2 / 3) + 1).toUInt8.toNat = n * 2 / 3 + 1 := by
  simp only [UInt32.toNat_toUInt8, UInt32.toNat_add, UInt32.toNat_ofNat', UInt32.reduceToNat]
  omega

variable [DecidableEq Key] [DecidableEq BlockId] (headerId : SignedBlockHeader Key BlockId → BlockId)
  {s s' : BlockHeaderState Key BlockId} {h : SignedBlockHeader Key BlockId} {skip : Bool}

/-- After `next` the block number, the counters and the proposed block are those `set_confirmed` leaves on the
template: neither a promotion nor a proposed schedule touches them. -/
theorem next_confirm (hn : s.next headerId h skip = .ok s') :
    ∃ prokey, s'.blockNum = s.blockNum + 1 ∧ s'.header.confirmed = h.confirmed ∧
      s'.confirmCount = ((s.generateNextFor h.timestamp prokey).setConfirmed h.confirmed).confirmCount ∧
      s'.dposProposedIrreversibleBlocknum =
        ((s.generateNextFor h.timestamp prokey).setConfirmed h.confirmed).dposProposedIrreversibleBlocknum := by
  obtain ⟨-, -, -, prokey, q, -, -, -, -, hnp, -, rfl⟩ := next_eq_ok headerId hn
  obtain ⟨p, cc, hsc, -⟩ := setConfirmed_eq (s.generateNextFor h.timestamp prokey) h.confirmed
  refine ⟨prokey, ?_⟩
  rw [hsc] at hnp ⊢
  rcases maybePromotePending_cases
      { s.generateNextFor h.timestamp prokey with
        header := { (s.generateNextFor h.timestamp prokey).header with confirmed := h.confirmed },
        dposProposedIrreversibleBlocknum := p, confirmCount := cc } with ⟨-, hpm⟩ | ⟨-, hpm⟩ <;>
    rw [hpm] at hnp <;>
    rcases hnp with ⟨-, rfl⟩ | ⟨np, -, -, hset⟩
  · exact ⟨rfl, rfl, rfl, rfl⟩
  · obtain ⟨-, -, rfl⟩ := setNewProducers_eq_ok hset
    exact ⟨rfl, rfl, rfl, rfl⟩
  · exact ⟨rfl, rfl, rfl, rfl⟩
  · obtain ⟨-, -, rfl⟩ := setNewProducers_eq_ok hset
    exact ⟨rfl, rfl, rfl, rfl⟩

end Step

/-! ## The counters along a run -/

section Run

variable (s : Nat → BlockHeaderState Key BlockId)

/-- The confirmations the block of step `k` needs: two thirds of the schedule active before it, and one. -/
def requiredConfs (k : Nat) : Nat := (s k).activeSchedule.producers.length * 2 / 3 + 1

/-- How many of the headers of steps `k` to `m - 1` confirm the block of step `k`: the header of step `j`, kept in
`s (j + 1)`, confirms its own block and the `confirmed` blocks before it. -/
def confirmations (m k : Nat) : Nat :=
  ((List.range' k (m - k)).filter fun j => j - k ≤ (s (j + 1)).header.confirmed.toNat).length

/-- What the counters after `m` steps from `s 0` say: counter `i` of `len` belongs to the block of step
`m - len + i`, and holds what that block needs less the headers that confirmed it; the proposed irreversible block
is below all those blocks. -/
structure Window (m : Nat) : Prop where
  blockNum_eq : (s m).blockNum.toNat = (s 0).blockNum.toNat + m
  length_le : (s m).confirmCount.length ≤ maximumTrackedDposConfirmations
  length_le_steps : (s m).confirmCount.length ≤ m
  proposed_le : (s m).dposProposedIrreversibleBlocknum.toNat ≤ (s 0).blockNum.toNat + m
  counter : ∀ i e, (s m).confirmCount[i]? = some e →
    e.toNat + confirmations s m (m - (s m).confirmCount.length + i) =
      requiredConfs s (m - (s m).confirmCount.length + i) ∧ 0 < e.toNat
  proposed_lt : ∀ i < (s m).confirmCount.length,
    (s m).dposProposedIrreversibleBlocknum.toNat < (s 0).blockNum.toNat + (m - (s m).confirmCount.length + i) + 1

variable {s}

theorem confirmations_self (m : Nat) : confirmations s m m = 0 := by
  simp [confirmations]

/-- The header of step `m` confirms the block of step `k` when it reaches back that far. -/
theorem confirmations_succ {m k : Nat} (hk : k ≤ m) :
    confirmations s (m + 1) k =
      confirmations s m k + if m - k ≤ (s (m + 1)).header.confirmed.toNat then 1 else 0 := by
  rw [confirmations, confirmations, show m + 1 - k = m - k + 1 by omega, List.range'_concat, List.filter_append,
    List.length_append, show k + 1 * (m - k) = m by omega, List.filter_singleton]
  split <;> rename_i hc <;> simp [hc]

theorem window_zero (hempty : (s 0).confirmCount = [])
    (hproposed : (s 0).dposProposedIrreversibleBlocknum ≤ (s 0).blockNum) : Window s 0 where
  blockNum_eq := rfl
  length_le := by simp [hempty]
  length_le_steps := by simp [hempty]
  proposed_le := UInt32.le_iff_toNat_le.mp hproposed
  counter := by simp [hempty]
  proposed_lt := by simp [hempty]

/-- A counter decremented by a header that confirms its block still holds what the block needs less its
confirmations, and stays above `0` unless it was `1`. -/
theorem counter_decrement {e : UInt8} {c r : Nat} (hv : e.toNat + c = r) (hpos : 0 < e.toNat) (h1 : e ≠ 1) :
    (e - 1).toNat + (c + 1) = r ∧ 0 < (e - 1).toNat := by
  have hne : e.toNat ≠ 1 := fun h => h1 (UInt8.toNat_inj.mp (h.trans UInt8.toNat_one.symm))
  rw [toNat_uint8_sub_one hpos]
  omega

section Template

variable [Inhabited Key] [Inhabited BlockId]

/-- The template's counters extend the window by the new block's: counter `i` of `len` belongs to the block of step
`m + 1 - len + i`. -/
theorem Window.template {m : Nat} {when : UInt32} {prokey : ProducerKey Key} {cc : List UInt8}
    (hw : Window s m) (hfit : requiredConfs s m < 256)
    (hcc : ((s m).generateNextFor when prokey).confirmCount = cc) :
    1 ≤ cc.length ∧ cc.length ≤ maximumTrackedDposConfirmations ∧ cc.length ≤ m + 1 ∧
      (∀ i e, cc[i]? = some e →
        e.toNat + confirmations s m (m + 1 - cc.length + i) = requiredConfs s (m + 1 - cc.length + i) ∧
          0 < e.toNat) ∧
      ∀ i < cc.length,
        (s m).dposProposedIrreversibleBlocknum.toNat < (s 0).blockNum.toNat + (m + 1 - cc.length + i) + 1 := by
  have hmax : maximumTrackedDposConfirmations = 1024 := rfl
  have hr := toNat_requiredConfs hfit
  rw [generateNextFor_confirmCount] at hcc
  -- the counters kept, `d` places down: all of them, or all but the oldest when there are as many as can be
  obtain ⟨keep, d, rfl, hlen, hroom, hget⟩ : ∃ keep d,
      keep ++ [(UInt32.ofNat ((s m).activeSchedule.producers.length * 2 / 3) + 1).toUInt8] = cc ∧
        keep.length + d = (s m).confirmCount.length ∧ keep.length < maximumTrackedDposConfirmations ∧
        ∀ i, keep[i]? = (s m).confirmCount[i + d]? := by
    split at hcc
    · exact ⟨_, 0, hcc, rfl, ‹_›, fun i => rfl⟩
    · have := hw.length_le
      exact ⟨_, 1, hcc, by rw [List.length_tail]; omega, by rw [List.length_tail]; omega,
        fun i => List.getElem?_tail⟩
  have hsteps := hw.length_le_steps
  have hlenT : (keep ++ [(UInt32.ofNat ((s m).activeSchedule.producers.length * 2 / 3) + 1).toUInt8]).length =
      keep.length + 1 := by simp
  rw [hlenT]
  refine ⟨by omega, by omega, by omega, fun i e he => ?_, fun i hi => ?_⟩
  · rcases Nat.lt_or_ge i keep.length with hi | hi
    · -- an old counter, of the same block as before
      rw [List.getElem?_append_left hi, hget] at he
      have := hw.counter (i + d) e he
      rwa [show m - (s m).confirmCount.length + (i + d) = m + 1 - (keep.length + 1) + i by omega] at this
    · -- the new counter, which no header has confirmed yet
      rw [List.getElem?_append_right hi] at he
      have hi' : i = keep.length := by
        have := List.getElem?_eq_some_iff.mp he
        simp at this
        omega
      rw [hi', Nat.sub_self, List.getElem?_cons_zero, Option.some.injEq] at he
      subst he
      rw [show m + 1 - (keep.length + 1) + i = m by omega, confirmations_self, hr]
      exact ⟨rfl, Nat.succ_pos _⟩
  · rcases Nat.lt_or_ge i keep.length with hi' | hi'
    · have := hw.proposed_lt (i + d) (by omega)
      rwa [show m - (s m).confirmCount.length + (i + d) = m + 1 - (keep.length + 1) + i by omega] at this
    · have := hw.proposed_le
      omega

end Template

section Step

variable [Inhabited Key] [Inhabited BlockId] [DecidableEq Key] [DecidableEq BlockId]
  (headerId : SignedBlockHeader Key BlockId → BlockId)

/-- **Step lemma.** A step keeps the window, and the proposed irreversible block does not go down. -/
theorem Window.next {m : Nat} {h : SignedBlockHeader Key BlockId} {skip : Bool} (hw : Window s m)
    (hn : (s m).next headerId h skip = .ok (s (m + 1)))
    (hwrap : (s 0).blockNum.toNat + m + 1 < 2 ^ 32) (hfit : requiredConfs s m < 256) :
    Window s (m + 1) ∧
      (s m).dposProposedIrreversibleBlocknum.toNat ≤ (s (m + 1)).dposProposedIrreversibleBlocknum.toNat := by
  obtain ⟨prokey, hbn, hconf, hcc, hprop⟩ := next_confirm headerId hn
  obtain ⟨hlen1, hlenmax, hlensteps, hT, hTp⟩ :=
    hw.template hfit (rfl : ((s m).generateNextFor h.timestamp prokey).confirmCount = _)
  have hbn' : (s (m + 1)).blockNum.toNat = (s 0).blockNum.toNat + (m + 1) := by
    rw [hbn, UInt32.toNat_add, hw.blockNum_eq, UInt32.toNat_one]
    omega
  -- `set_confirmed` runs its loop over all the counters of the template
  rw [setConfirmed] at hcc hprop
  dsimp only at hcc hprop
  rcases setConfirmedLoop_cases
      { (s m).generateNextFor h.timestamp prokey with
        header := { ((s m).generateNextFor h.timestamp prokey).header with confirmed := h.confirmed } }
      _ (h.confirmed.toNat + 1) (le_refl _) with ⟨hnone, heq⟩ | ⟨j, hj1, hj2, hj3, hj4, heq⟩
  · -- no counter reaches `0`: the counters the header reaches are decremented, and nothing is proposed
    rw [heq] at hcc hprop
    dsimp only at hcc hprop hnone
    have hlen' : (s (m + 1)).confirmCount.length = ((s m).generateNextFor h.timestamp prokey).confirmCount.length := by
      rw [hcc, List.length_mapIdx]
    refine ⟨⟨hbn', by omega, by omega, ?_, fun i e he => ?_, fun i hi => ?_⟩, by rw [hprop]; rfl⟩
    · rw [hprop]
      exact Nat.le_succ_of_le hw.proposed_le
    · rw [hcc, List.getElem?_mapIdx, Option.map_eq_some_iff] at he
      obtain ⟨e₀, he₀, rfl⟩ := he
      have hi : i < ((s m).generateNextFor h.timestamp prokey).confirmCount.length :=
        (List.getElem?_eq_some_iff.mp he₀).1
      obtain ⟨hv, hpos⟩ := hT i e₀ he₀
      rw [hlen', show m + 1 - _ + i = m + 1 - ((s m).generateNextFor h.timestamp prokey).confirmCount.length + i
        from rfl, confirmations_succ (by omega), hconf]
      split
      · rename_i hreach
        rw [if_pos (by omega)]
        exact counter_decrement hv hpos (fun h1 => hnone i hreach.1 hreach.2 (h1 ▸ he₀))
      · rename_i hreach
        rw [if_neg (by omega), Nat.add_zero]
        exact ⟨hv, hpos⟩
    · rw [hprop, hlen']
      exact hTp i (by omega)
  · -- the counter `j` reaches `0`: its block is proposed, and the counters above it stay, decremented
    rw [heq] at hcc hprop
    dsimp only at hcc hprop hj1 hj2 hj3 hj4
    have hlen' : (s (m + 1)).confirmCount.length =
        ((s m).generateNextFor h.timestamp prokey).confirmCount.length - (j + 1) := by
      rw [hcc, List.length_drop, List.length_mapIdx]
    -- the proposed block is the block of counter `j`, of step `m + 1 - len + j`
    have hp : (s (m + 1)).dposProposedIrreversibleBlocknum.toNat = (s 0).blockNum.toNat +
        (m + 1 - ((s m).generateNextFor h.timestamp prokey).confirmCount.length + j) + 1 := by
      have hsmall : ((s m).generateNextFor h.timestamp prokey).confirmCount.length - 1 - j < UInt32.size := by
        unfold UInt32.size
        omega
      have hTbn : ((s m).generateNextFor h.timestamp prokey).blockNum.toNat =
          (s 0).blockNum.toNat + (m + 1) := by
        rw [show ((s m).generateNextFor h.timestamp prokey).blockNum = (s m).blockNum + 1 from rfl, ← hbn, hbn']
      rw [hprop, UInt32.toNat_sub_of_le _ _ (UInt32.le_iff_toNat_le.mpr ?_), UInt32.toNat_ofNat_of_lt' hsmall, hTbn]
      · omega
      · rw [UInt32.toNat_ofNat_of_lt' hsmall, hTbn]
        omega
    refine ⟨⟨hbn', by omega, by omega, by omega, fun i e he => ?_, fun i hi => ?_⟩, ?_⟩
    · rw [hcc, List.getElem?_drop, List.getElem?_mapIdx, Option.map_eq_some_iff] at he
      obtain ⟨e₀, he₀, rfl⟩ := he
      have hi : j + 1 + i < ((s m).generateNextFor h.timestamp prokey).confirmCount.length :=
        (List.getElem?_eq_some_iff.mp he₀).1
      obtain ⟨hv, hpos⟩ := hT (j + 1 + i) e₀ he₀
      rw [if_pos hi, hlen', show m + 1 - (((s m).generateNextFor h.timestamp prokey).confirmCount.length -
        (j + 1)) + i = m + 1 - ((s m).generateNextFor h.timestamp prokey).confirmCount.length + (j + 1 + i)
        by omega, confirmations_succ (by omega), hconf, if_pos (by omega)]
      -- every counter above `j` is reached by the header and does not reach `0`
      exact counter_decrement hv hpos (fun h1 => hj4 (j + 1 + i) (by omega) hi (h1 ▸ he₀))
    · rw [hp, hlen']
      rw [hlen'] at hi
      omega
    · rw [hp]
      have := hTp j hj2
      omega

/-- **Run lemma.** Every state of a chain from a state with no counter keeps the window, while the block numbers do
not wrap and the confirmations each block needs fit in `uint8_t`. -/
theorem Window.chain {n : Nat} (hchain : IsChain headerId s n) (h0 : Window s 0)
    (hwrap : (s 0).blockNum.toNat + n < 2 ^ 32) (hfit : ∀ j < n, requiredConfs s j < 256) :
    ∀ m ≤ n, Window s m
  | 0, _ => h0
  | m + 1, hm => by
    obtain ⟨h, skip, hstep⟩ := hchain m (by omega)
    exact ((Window.chain hchain h0 hwrap hfit m (by omega)).next headerId hstep (by omega) (hfit m (by omega))).1

/-- The counters after `n` steps from a state with no counter: there are at most `maximum_tracked_dpos_confirmations`;
counter `i` belongs to the block `block_num - (size - 1 - i)`, made by step `n - size + i`, holds what that block
needs less the headers that confirmed it, so lies between `1` and what it needs, and that block is above the proposed
irreversible block; the proposed block never goes down. -/
theorem confirm_count_window {s : Nat → BlockHeaderState Key BlockId} {n : Nat} (hchain : IsChain headerId s n)
    (hempty : (s 0).confirmCount = [])
    (hproposed : (s 0).dposProposedIrreversibleBlocknum ≤ (s 0).blockNum)
    (hwrap : (s 0).blockNum.toNat + n < 2 ^ 32) (hfit : ∀ j < n, requiredConfs s j < 256) :
    (s n).confirmCount.length ≤ maximumTrackedDposConfirmations ∧
      (∀ i e, (s n).confirmCount[i]? = some e →
        (s (n - (s n).confirmCount.length + i + 1)).blockNum =
            (s n).blockNum - UInt32.ofNat ((s n).confirmCount.length - 1 - i) ∧
          e.toNat + confirmations s n (n - (s n).confirmCount.length + i) =
            requiredConfs s (n - (s n).confirmCount.length + i) ∧
          1 ≤ e.toNat ∧ e.toNat ≤ requiredConfs s (n - (s n).confirmCount.length + i) ∧
          (s n).dposProposedIrreversibleBlocknum < (s (n - (s n).confirmCount.length + i + 1)).blockNum) ∧
      ∀ j < n, (s j).dposProposedIrreversibleBlocknum ≤ (s (j + 1)).dposProposedIrreversibleBlocknum := by
  have hwin := Window.chain headerId hchain (window_zero hempty hproposed) hwrap hfit
  have hn := hwin n (le_refl n)
  refine ⟨hn.length_le, fun i e he => ?_, fun j hj => ?_⟩
  · have hi : i < (s n).confirmCount.length := (List.getElem?_eq_some_iff.mp he).1
    have hsteps := hn.length_le_steps
    -- the block of counter `i` is the block of the step that made it
    have hk := (hwin (n - (s n).confirmCount.length + i + 1) (by omega)).blockNum_eq
    have hsmall : (s n).confirmCount.length - 1 - i < UInt32.size := by
      unfold UInt32.size
      omega
    obtain ⟨hv, hpos⟩ := hn.counter i e he
    refine ⟨?_, hv, hpos, by omega, ?_⟩
    · apply UInt32.toNat_inj.mp
      rw [hk, UInt32.toNat_sub_of_le _ _ (UInt32.le_iff_toNat_le.mpr ?_), UInt32.toNat_ofNat_of_lt' hsmall,
        hn.blockNum_eq]
      · omega
      · rw [UInt32.toNat_ofNat_of_lt' hsmall, hn.blockNum_eq]
        omega
    · rw [UInt32.lt_iff_toNat_lt, hk]
      have := hn.proposed_lt i hi
      omega
  · obtain ⟨h, skip, hstep⟩ := hchain j hj
    exact UInt32.le_iff_toNat_le.mpr ((hwin j (by omega)).next headerId hstep (by omega) (hfit j hj)).2

end Step

end Run

theorem confirm_count_window_promotionChain :
    IsChain slotId promotionChain 10 ∧ (promotionChain 0).confirmCount = [] ∧
      (promotionChain 0).dposProposedIrreversibleBlocknum ≤ (promotionChain 0).blockNum ∧
      (promotionChain 0).blockNum.toNat + 10 < 2 ^ 32 ∧ (∀ j < 10, requiredConfs promotionChain j < 256) ∧
      (promotionChain 10).confirmCount.length ≤ maximumTrackedDposConfirmations ∧
      (∀ i e, (promotionChain 10).confirmCount[i]? = some e →
        (promotionChain (10 - (promotionChain 10).confirmCount.length + i + 1)).blockNum =
            (promotionChain 10).blockNum - UInt32.ofNat ((promotionChain 10).confirmCount.length - 1 - i) ∧
          e.toNat + confirmations promotionChain 10 (10 - (promotionChain 10).confirmCount.length + i) =
            requiredConfs promotionChain (10 - (promotionChain 10).confirmCount.length + i) ∧
          1 ≤ e.toNat ∧ e.toNat ≤ requiredConfs promotionChain (10 - (promotionChain 10).confirmCount.length + i) ∧
          (promotionChain 10).dposProposedIrreversibleBlocknum <
            (promotionChain (10 - (promotionChain 10).confirmCount.length + i + 1)).blockNum) ∧
      ∀ j < 10, (promotionChain j).dposProposedIrreversibleBlocknum ≤
        (promotionChain (j + 1)).dposProposedIrreversibleBlocknum :=
  ⟨isChain_promotionChain, rfl, by decide, by decide, by decide,
    confirm_count_window slotId isChain_promotionChain rfl (by decide) (by decide) (by decide)⟩

/-! ## Where the bounds fail

A run from a state at the last block number a `uint32_t` holds: the new block is block `0`, and its counter is not
above the proposed block. A schedule of `383` producers: its blocks need `256` confirmations, which `uint8_t` holds
as `0`, and `set_confirmed` decrements that to `255`. -/

/-- The state at block `2^32 - 1`, which it proposes as irreversible; `gstio` and `a` are scheduled. -/
def wrapState : BlockHeaderState Nat Nat :=
  { slotGenesis with
    blockNum := 0xFFFFFFFF
    dposProposedIrreversibleBlocknum := 0xFFFFFFFF
    activeSchedule := ⟨0, [⟨systemAccountName, 0⟩, ⟨N "a", 1⟩]⟩
    pendingSchedule := ⟨0, []⟩ }

/-- `wrapState`, then the block of `gstio` at slot `2`. -/
def wrapChain (i : Nat) : BlockHeaderState Nat Nat :=
  (wrapState :: nextAll slotId wrapState [signedHeader 2 systemAccountName 0 wrapState.id 0 none 0]).getD i wrapState

/-- A state whose schedule has `383` producers. -/
def crowdedState : BlockHeaderState Nat Nat :=
  { slotGenesis with
    activeSchedule := ⟨0, List.replicate 383 ⟨systemAccountName, 0⟩⟩
    pendingSchedule := ⟨0, []⟩ }

/-- `crowdedState`, then the block of `gstio` at slot `2`. -/
def crowdedChain (i : Nat) : BlockHeaderState Nat Nat :=
  (crowdedState :: nextAll slotId crowdedState [signedHeader 2 systemAccountName 0 crowdedState.id 0 none 0]).getD i
    crowdedState

set_option maxRecDepth 4000 in
theorem tracked_block_not_above_proposed :
    IsChain slotId wrapChain 1 ∧ (wrapChain 0).confirmCount = [] ∧
      (wrapChain 0).dposProposedIrreversibleBlocknum ≤ (wrapChain 0).blockNum ∧
      (wrapChain 1).confirmCount = [1] ∧
      ¬ (wrapChain 1).dposProposedIrreversibleBlocknum < (wrapChain 1).blockNum - UInt32.ofNat (1 - 1 - 0) ∧
      IsChain slotId crowdedChain 1 ∧ requiredConfs crowdedChain 0 = 256 ∧
      (crowdedState.generateNextFor 2 ⟨systemAccountName, 0⟩).confirmCount = [0] ∧
      (crowdedChain 1).confirmCount = [255] :=
  ⟨isChain_nextAll slotId wrapState wrapState _ (by decide), rfl, by decide, by decide, by decide,
    isChain_nextAll slotId crowdedState crowdedState _ (by decide), by decide, by decide, by decide⟩

end Gstio.Chain.BlockHeaderState
