import Mathlib
import Gstio.Chain.DposIrreversibility

/-!
# Double confirmations (`producer_double_confirm`)

`next` refuses a header whose producer has an entry in `producer_to_last_produced` that is not below
`block_num - confirmed`, so a producer never confirms again a block it confirmed with an earlier one. A step sets the
producer's entry to the new block number and, on a promotion, carries every other entry of the new schedule over
(`find?_lastProduced_next`): while a producer stays scheduled its entry is at least the number of its last block
(`lastProduced_chain`), and the ranges of two of its blocks are apart (`confirmation_ranges_disjoint`).

The check is made in `uint32`, where `block_num - confirmed` wraps when the header confirms more blocks than there
are. Early in a chain a producer then re-confirms its own block (`reconfirms_own_block`).
-/

namespace Gstio.Chain.BlockHeaderState

variable {Key BlockId : Type} [Inhabited Key] [Inhabited BlockId] [DecidableEq Key] [DecidableEq BlockId]
  (headerId : SignedBlockHeader Key BlockId → BlockId)

section Step

variable {s s' : BlockHeaderState Key BlockId} {h : SignedBlockHeader Key BlockId} {skip : Bool}

/-- A step records the block it makes as its producer's last. -/
theorem find?_lastProduced_next_producer (hn : s.next headerId h skip = .ok s') :
    s'.producerToLastProduced.find? h.producer = some (s.blockNum + 1) := by
  obtain ⟨-, prokey, p, cc, -, -, -, -, -, -, -, -, -, -, hprom⟩ := next_fields headerId hn
  rcases hprom with ⟨-, -, hlp, -⟩ | ⟨-, -, hlp, -⟩ <;> simp [hlp]

/-- **Step lemma.** An entry of a producer that the next state schedules is kept, or replaced by the new block
number when the producer made the block. -/
theorem find?_lastProduced_next (hn : s.next headerId h skip = .ok s') {p : Name} {v : UInt32}
    (hp : p ∈ s'.activeSchedule.producers.map (·.producerName)) (hv : s.producerToLastProduced.find? p = some v) :
    s'.producerToLastProduced.find? p = some (if p = h.producer then s.blockNum + 1 else v) := by
  obtain ⟨-, prokey, q, cc, -, -, -, -, -, -, -, -, -, -, hprom⟩ := next_fields headerId hn
  rcases hprom with ⟨-, -, hlp, -⟩ | ⟨-, -, hlp, hact⟩
  · rw [hlp, OrdMap.find?_set]
    split <;> simp_all
  · -- a promotion carries the entry over, since `p` is in the promoted schedule
    rw [hact] at hp
    rw [hlp, OrdMap.find?_set, find?_carryOver, if_pos hp, OrdMap.find?_set]
    split <;> simp_all

end Step

section Chain

variable {s : Nat → BlockHeaderState Key BlockId} {n : Nat} {initialSchedule : ProducerScheduleType Key}
  {initialTimestamp : UInt32}

/-- The state at `k` of a chain is block `k + 1`. -/
theorem blockNum_chain (hts : initialTimestamp ≠ 0) (h0 : s 0 = genesis headerId initialSchedule initialTimestamp)
    (hchain : IsChain headerId s n) : ∀ k ≤ n, (s k).blockNum.toNat = k + 1
  | 0, _ => by rw [h0]; rfl
  | k + 1, hk => by
    obtain ⟨h, skip, hstep⟩ := hchain k (by omega)
    have hinv := Irreversibility.chain headerId hts h0 hchain k (by omega)
    rw [(hinv.next headerId (one_le_toNat_of_ne_zero hts) hstep).2.1, blockNum_chain hts h0 hchain k (by omega)]

/-- **Run lemma.** From a block of `p` on, while `p` stays scheduled, its entry is at least that block's number. -/
theorem lastProduced_chain (hts : initialTimestamp ≠ 0) (h0 : s 0 = genesis headerId initialSchedule initialTimestamp)
    (hchain : IsChain headerId s n) {i : Nat} (hi : 0 < i)
    (hstay : ∀ k, i < k → k ≤ n → (s i).header.producer ∈ (s k).activeSchedule.producers.map (·.producerName)) :
    ∀ d, i + d ≤ n → ∃ v, (s (i + d)).producerToLastProduced.find? (s i).header.producer = some v ∧
      (s i).blockNum.toNat ≤ v.toNat
  | 0, hd => by
    -- block `i` was made by a step, which recorded it
    obtain ⟨h, skip, hstep⟩ := hchain (i - 1) (by omega)
    rw [Nat.sub_add_cancel hi] at hstep
    obtain ⟨-, prokey, q, cc, -, -, hbn, -, hprod, -⟩ := next_fields headerId hstep
    refine ⟨(s (i - 1)).blockNum + 1, ?_, ?_⟩
    · rw [Nat.add_zero, hprod]
      exact find?_lastProduced_next_producer headerId hstep
    · rw [← hbn]
  | d + 1, hd => by
    obtain ⟨v, hv, hle⟩ := lastProduced_chain hts h0 hchain hi hstay d (by omega)
    obtain ⟨h, skip, hstep⟩ := hchain (i + d) (by omega)
    have hbn := blockNum_chain headerId hts h0 hchain
    refine ⟨_, find?_lastProduced_next headerId hstep (hstay (i + d + 1) (by omega) (by omega)) hv, ?_⟩
    split
    · -- the new entry is the block just made, above block `i`
      obtain ⟨-, prokey, q, cc, -, -, hbn', -⟩ := next_fields headerId hstep
      rw [← hbn', hbn (i + d + 1) hd, hbn i (by omega)]
      omega
    · exact hle

theorem confirmation_ranges_disjoint (initialSchedule : ProducerScheduleType Key) (initialTimestamp : UInt32)
    (hts : initialTimestamp ≠ 0) (s : Nat → BlockHeaderState Key BlockId) (n : Nat)
    (h0 : s 0 = genesis headerId initialSchedule initialTimestamp) (hchain : IsChain headerId s n) (p : Name)
    (i j : Nat) (hi : 0 < i) (hij : i < j) (hjn : j ≤ n) (hpi : (s i).header.producer = p)
    (hpj : (s j).header.producer = p)
    (hstay : ∀ k, i ≤ k → k ≤ j → p ∈ (s k).activeSchedule.producers.map (·.producerName))
    (hconf : (s j).header.confirmed.toNat ≤ (s j).blockNum.toNat) :
    ((s i).blockNum.toNat : Int) < (s j).blockNum.toNat - (s j).header.confirmed.toNat := by
  -- the chain up to `j`, along which `p` stays scheduled after block `i`
  have hchain' : IsChain headerId s j := fun k hk => hchain k (by omega)
  have hstay' : ∀ k, i < k → k ≤ j → (s i).header.producer ∈ (s k).activeSchedule.producers.map (·.producerName) :=
    fun k hik hkj => hpi ▸ hstay k (by omega) hkj
  obtain ⟨v, hv, hle⟩ := lastProduced_chain headerId hts h0 hchain' hi hstay' (j - 1 - i) (by omega)
  rw [show i + (j - 1 - i) = j - 1 by omega, hpi] at hv
  -- the step to block `j` checked `p`'s entry against the confirmations of block `j`
  obtain ⟨h, skip, hstep⟩ := hchain' (j - 1) (by omega)
  rw [Nat.sub_add_cancel (by omega : 1 ≤ j)] at hstep
  obtain ⟨-, prokey, q, cc, -, hdc, hbn, -, hprod, hconfirmed, -⟩ := next_fields headerId hstep
  rw [hpj] at hprod
  rw [← hprod, ← hbn, ← hconfirmed] at hdc
  have hcheck := UInt32.lt_iff_toNat_lt.mp (hdc v hv)
  have hconf32 : (s j).header.confirmed.toUInt32 ≤ (s j).blockNum := by
    rw [UInt32.le_iff_toNat_le, UInt16.toNat_toUInt32]
    exact hconf
  rw [UInt32.toNat_sub_of_le _ _ hconf32, UInt16.toNat_toUInt32] at hcheck
  omega

end Chain

/-- Blocks 2 and 3 by `gstio`, the second confirming five blocks. -/
def reconfirmHeaders : List (SignedBlockHeader Nat Nat) :=
  [signedHeader 2 systemAccountName 0 1 0 none 0, signedHeader 3 systemAccountName 5 2 0 none 0]

/-- The states of blocks 1 to 3. -/
def reconfirmChain (i : Nat) : BlockHeaderState Nat Nat :=
  (slotGenesis :: nextAll slotId slotGenesis reconfirmHeaders).getD i slotGenesis

theorem isChain_reconfirmChain : IsChain slotId reconfirmChain 2 :=
  isChain_nextAll slotId slotGenesis slotGenesis reconfirmHeaders (by decide)

theorem confirmation_ranges_disjoint_promotionChain :
    (1 : UInt32) ≠ 0 ∧ promotionChain 0 = slotGenesis ∧ IsChain slotId promotionChain 10 ∧
      (0 < 4 ∧ 4 < 7 ∧ 7 ≤ 10) ∧ (promotionChain 4).header.producer = N "a" ∧
      (promotionChain 7).header.producer = N "a" ∧
      (∀ k, 4 ≤ k → k ≤ 7 → N "a" ∈ (promotionChain k).activeSchedule.producers.map (·.producerName)) ∧
      (promotionChain 7).header.confirmed.toNat ≤ (promotionChain 7).blockNum.toNat ∧
      ((promotionChain 4).blockNum.toNat : Int) <
        (promotionChain 7).blockNum.toNat - (promotionChain 7).header.confirmed.toNat := by
  have hstay : ∀ k, 4 ≤ k → k ≤ 7 → N "a" ∈ (promotionChain k).activeSchedule.producers.map (·.producerName) := by
    intro k hk4 hk7
    interval_cases k <;> decide
  exact ⟨by decide, rfl, isChain_promotionChain, by decide, by decide, by decide, hstay, by decide,
    confirmation_ranges_disjoint slotId (initialSchedule 0) 1 (by decide) promotionChain 10 rfl isChain_promotionChain
      (N "a") 4 7 (by decide) (by decide) (by decide) (by decide) (by decide) hstay (by decide)⟩

/-- With `confirmed = 5` at block 3 the check `2 < 3 - 5` passes in `uint32`: `gstio` confirms its block 2 again. -/
theorem reconfirms_own_block :
    ∃ s : Nat → BlockHeaderState Nat Nat, s 0 = genesis slotId (initialSchedule 0) 1 ∧ IsChain slotId s 2 ∧
      (s 1).header.producer = systemAccountName ∧ (s 2).header.producer = systemAccountName ∧
      (∀ k, 1 ≤ k → k ≤ 2 → systemAccountName ∈ (s k).activeSchedule.producers.map (·.producerName)) ∧
      ((s 2).blockNum.toNat : Int) - (s 2).header.confirmed.toNat ≤ (s 1).blockNum.toNat := by
  refine ⟨reconfirmChain, rfl, isChain_reconfirmChain, by decide, by decide, ?_, by decide⟩
  intro k hk1 hk2
  interval_cases k <;> decide

end Gstio.Chain.BlockHeaderState
