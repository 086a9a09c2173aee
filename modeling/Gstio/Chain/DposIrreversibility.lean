import Gstio.Chain.BlockHeaderState

/-!
# Irreversibility along a chain of block header states

A chain is a run of `next` from a genesis state. Along every chain from a genesis at a slot other than `0`
(`Irreversibility`, kept by every step: `Irreversibility.next`):

* the block number goes up by one at each step and never wraps, since the slots go up too;
* `dpos_irreversible_blocknum ≤ dpos_proposed_irreversible_blocknum ≤ block_num`, every implied irreversible block
  is below the proposed one, and there are no more confirmation counters than blocks after the proposed one;
* the proposed irreversible block never goes down, and the irreversible one never goes down except in the block
  after a promotion (`irreversible_le_next`).
-/

namespace Gstio.Chain.BlockHeaderState

variable {Key BlockId : Type}

/-- The step from `prev` to `cur` promoted the pending schedule: the guard of `maybe_promote_pending` held. -/
def Promoted (prev cur : BlockHeaderState Key BlockId) : Prop :=
  prev.pendingSchedule.producers.length ≠ 0 ∧ cur.dposIrreversibleBlocknum ≥ prev.pendingScheduleLibNum

/-- What every state of a chain from a genesis at slot `g` satisfies. -/
structure Irreversibility (g : Nat) (s : BlockHeaderState Key BlockId) : Prop where
  slot_bound : s.blockNum.toNat + g ≤ s.header.timestamp.toNat + 1
  irreversible_le_proposed : s.dposIrreversibleBlocknum ≤ s.dposProposedIrreversibleBlocknum
  proposed_le_blockNum : s.dposProposedIrreversibleBlocknum ≤ s.blockNum
  implied_le_proposed :
    ∀ p v, s.producerToLastImpliedIrb.find? p = some v → v ≤ s.dposProposedIrreversibleBlocknum
  confirmCount_le : s.confirmCount.length + s.dposProposedIrreversibleBlocknum.toNat ≤ s.blockNum.toNat

/-- Setting an entry to a number under the bound keeps every entry under it. -/
theorem find?_set_le {m : OrdMap Name UInt32} {k : Name} {w b : UInt32} (hm : ∀ p v, m.find? p = some v → v ≤ b)
    (hw : w ≤ b) : ∀ p v, (m.set k w).find? p = some v → v ≤ b := by
  intro p v hv
  rw [OrdMap.find?_set] at hv
  split at hv
  · cases hv
    exact hw
  · exact hm p v hv

/-- A promotion carries over entries under the bound, or gives a default under it. -/
theorem find?_carryOver_le {producers : List (ProducerKey Key)} {old : OrdMap Name UInt32} {dflt b : UInt32}
    (hold : ∀ p v, old.find? p = some v → v ≤ b) (hd : dflt ≤ b) :
    ∀ p v, (carryOver producers old dflt).find? p = some v → v ≤ b := by
  intro p v hv
  rw [find?_carryOver] at hv
  split at hv
  · cases hv
    cases ho : old.find? p with
    | none => exact hd
    | some u => exact hold p u ho
  · cases hv

variable [Inhabited Key] [Inhabited BlockId] [DecidableEq Key] [DecidableEq BlockId]
  (headerId : SignedBlockHeader Key BlockId → BlockId)

/-- `s 0, …, s n` is a chain: each state is `next` of the one before, for some header. -/
def IsChain (s : Nat → BlockHeaderState Key BlockId) (n : Nat) : Prop :=
  ∀ i < n, ∃ h skip, (s i).next headerId h skip = .ok (s (i + 1))

section Step

variable {s s' : BlockHeaderState Key BlockId} {h : SignedBlockHeader Key BlockId} {skip : Bool}

/-- **What a step does**, field by field: the template of the scheduled producer, the confirmations spent, and
the pending schedule promoted or not. -/
theorem next_fields (hn : s.next headerId h skip = .ok s') :
    s.header.timestamp < h.timestamp ∧
    ∃ prokey p cc, prokey.producerName = h.producer ∧
      (∀ v, s.producerToLastProduced.find? h.producer = some v → v < s.blockNum + 1 - h.confirmed.toUInt32) ∧
      s'.blockNum = s.blockNum + 1 ∧ s'.header.timestamp = h.timestamp ∧ s'.header.producer = h.producer ∧
      s'.header.confirmed = h.confirmed ∧
      s'.dposIrreversibleBlocknum = (s.generateNextFor h.timestamp prokey).calcDposLastIrreversible ∧
      s'.dposProposedIrreversibleBlocknum = p ∧ s'.confirmCount = cc ∧
      (p = s.dposProposedIrreversibleBlocknum ∧
          cc.length = (s.generateNextFor h.timestamp prokey).confirmCount.length ∨
        ∃ j < (s.generateNextFor h.timestamp prokey).confirmCount.length,
          p = s.blockNum + 1 - UInt32.ofNat ((s.generateNextFor h.timestamp prokey).confirmCount.length - 1 - j) ∧
          cc.length = (s.generateNextFor h.timestamp prokey).confirmCount.length - 1 - j) ∧
      (¬ Promoted s s' ∧
          s'.producerToLastImpliedIrb =
            s.producerToLastImpliedIrb.set h.producer s.dposProposedIrreversibleBlocknum ∧
          s'.producerToLastProduced = s.producerToLastProduced.set h.producer (s.blockNum + 1) ∧
          s'.activeSchedule = s.activeSchedule ∨
        Promoted s s' ∧
          s'.producerToLastImpliedIrb = carryOver s.pendingSchedule.producers
            (s.producerToLastImpliedIrb.set h.producer s.dposProposedIrreversibleBlocknum)
            s'.dposIrreversibleBlocknum ∧
          s'.producerToLastProduced = (carryOver s.pendingSchedule.producers
            (s.producerToLastProduced.set h.producer (s.blockNum + 1)) s'.dposIrreversibleBlocknum).set
              h.producer (s.blockNum + 1) ∧
          s'.activeSchedule = s.pendingSchedule) := by
  obtain ⟨-, hlt, -, prokey, q, -, hprod, -, hdc, hnp, -, rfl⟩ := next_eq_ok headerId hn
  obtain ⟨p, cc, hsc, hspec⟩ := setConfirmed_eq (s.generateNextFor h.timestamp prokey) h.confirmed
  refine ⟨hlt, prokey, p, cc, hprod, hdc, ?_⟩
  rw [← hprod]
  rw [hsc] at hnp
  -- promoted or not, and then with or without a proposed schedule, which touches neither field here
  rcases maybePromotePending_cases
      { s.generateNextFor h.timestamp prokey with
        header := { (s.generateNextFor h.timestamp prokey).header with confirmed := h.confirmed },
        dposProposedIrreversibleBlocknum := p, confirmCount := cc } with ⟨hg, hpm⟩ | ⟨hg, hpm⟩ <;>
    rw [hpm] at hnp <;>
    rcases hnp with ⟨-, rfl⟩ | ⟨np, -, -, hset⟩
  · exact ⟨rfl, rfl, rfl, rfl, rfl, rfl, rfl, hspec, .inl ⟨hg, rfl, rfl, rfl⟩⟩
  · obtain ⟨-, -, rfl⟩ := setNewProducers_eq_ok hset
    exact ⟨rfl, rfl, rfl, rfl, rfl, rfl, rfl, hspec, .inl ⟨hg, rfl, rfl, rfl⟩⟩
  · exact ⟨rfl, rfl, rfl, rfl, rfl, rfl, rfl, hspec, .inr ⟨hg, rfl, rfl, rfl⟩⟩
  · obtain ⟨-, -, rfl⟩ := setNewProducers_eq_ok hset
    exact ⟨rfl, rfl, rfl, rfl, rfl, rfl, rfl, hspec, .inr ⟨hg, rfl, rfl, rfl⟩⟩

omit [DecidableEq Key] [DecidableEq BlockId] in
/-- The template has one confirmation counter more, or as many when they are at their maximum. -/
theorem length_confirmCount_generateNextFor (s : BlockHeaderState Key BlockId) (when : UInt32)
    (prokey : ProducerKey Key) :
    (s.generateNextFor when prokey).confirmCount.length ≤ s.confirmCount.length + 1 := by
  simp only [generateNextFor]
  split <;> simp

variable {g : Nat}

/-- **Step lemma.** A step keeps the invariant, raises the block number by one and the proposed irreversible block
not at all or more, and gives an irreversible block at least the quantile of the implied blocks before it. -/
theorem Irreversibility.next (hg : 1 ≤ g) (hs : Irreversibility g s) (hn : s.next headerId h skip = .ok s') :
    Irreversibility g s' ∧ s'.blockNum.toNat = s.blockNum.toNat + 1 ∧
      s.dposProposedIrreversibleBlocknum ≤ s'.dposProposedIrreversibleBlocknum ∧
      s.calcDposLastIrreversible ≤ s'.dposIrreversibleBlocknum := by
  obtain ⟨hlt, prokey, p, cc, -, -, hbn, hts, -, -, hirb, hp, hcc, hspec, hprom⟩ := next_fields headerId hn
  have hslot := UInt32.lt_iff_toNat_lt.mp hlt
  have hmax := UInt32.toNat_lt h.timestamp
  have hbound := hs.slot_bound
  have hccle := hs.confirmCount_le
  have hpirb := UInt32.le_iff_toNat_le.mp hs.proposed_le_blockNum
  -- the block number does not wrap: the slots stay below `2^32` and go up with it
  have hbn' : s'.blockNum.toNat = s.blockNum.toNat + 1 := by
    rw [hbn, UInt32.toNat_add, UInt32.toNat_one, Nat.mod_eq_of_lt (by omega)]
  have hrlen := length_confirmCount_generateNextFor s h.timestamp prokey
  -- the proposed block stays, or becomes the block of a counter, after the old one
  have hp' : s.dposProposedIrreversibleBlocknum.toNat ≤ p.toNat ∧ p.toNat ≤ s.blockNum.toNat + 1 ∧
      cc.length + p.toNat ≤ s.blockNum.toNat + 1 := by
    rcases hspec with ⟨rfl, hlen⟩ | ⟨j, hj, rfl, hlen⟩
    · omega
    · have hsmall : (UInt32.ofNat ((s.generateNextFor h.timestamp prokey).confirmCount.length - 1 - j)).toNat =
          (s.generateNextFor h.timestamp prokey).confirmCount.length - 1 - j := by
        rw [UInt32.toNat_ofNat', Nat.mod_eq_of_lt (by omega)]
      have hnum : (s.blockNum + 1).toNat = s.blockNum.toNat + 1 := by rw [← hbn, hbn']
      rw [UInt32.toNat_sub_of_le _ _ (UInt32.le_iff_toNat_le.mpr (by omega)), hsmall, hnum]
      omega
  have hpp : s.dposProposedIrreversibleBlocknum ≤ p := UInt32.le_iff_toNat_le.mpr hp'.1
  -- the new irreversible block is a quantile of implied blocks all below the old proposed one
  have himplied : ∀ q v,
      (s.producerToLastImpliedIrb.set h.producer s.dposProposedIrreversibleBlocknum).find? q = some v →
        v ≤ s.dposProposedIrreversibleBlocknum :=
    find?_set_le hs.implied_le_proposed (UInt32.le_refl _)
  have hirble : s'.dposIrreversibleBlocknum ≤ s.dposProposedIrreversibleBlocknum := by
    rw [hirb]
    exact calcDposLastIrreversible_le (find?_set_le hs.implied_le_proposed (UInt32.le_refl _))
  refine ⟨⟨by rw [hbn', hts]; omega, ?_, ?_, ?_, ?_⟩, hbn', by rw [hp]; exact hpp, ?_⟩
  · rw [hp]
    exact UInt32.le_trans hirble hpp
  · rw [hp, UInt32.le_iff_toNat_le, hbn']
    exact hp'.2.1
  · rw [hp]
    intro q v hv
    refine UInt32.le_trans ?_ hpp
    rcases hprom with ⟨-, himp, -⟩ | ⟨-, himp, -⟩ <;> rw [himp] at hv
    · exact himplied q v hv
    · exact find?_carryOver_le himplied hirble q v hv
  · rw [hcc, hp, hbn']
    exact hp'.2.2
  · rw [hirb]
    exact calcDposLastIrreversible_le_set hs.implied_le_proposed rfl

/-- After a step that did not promote, the irreversible block is the quantile of the implied ones. -/
theorem irreversible_eq_calc_of_not_promoted (hn : s.next headerId h skip = .ok s') (hp : ¬ Promoted s s') :
    s'.dposIrreversibleBlocknum = s'.calcDposLastIrreversible := by
  obtain ⟨-, prokey, -, -, hprod, -, -, -, -, -, hirb, -, -, -, hprom⟩ := next_fields headerId hn
  rcases hprom with ⟨-, himp, -⟩ | ⟨hpr, -⟩
  · rw [hirb]
    refine calcDposLastIrreversible_congr ?_
    rw [himp, ← hprod]
    rfl
  · exact absurd hpr hp

end Step

/-! ## Chains from a genesis state -/

section Chain

variable {s : Nat → BlockHeaderState Key BlockId} {n : Nat}

/-- The states `next` gives along the headers `hs` from `s`, with signatures checked, while it returns. -/
def nextAll (s : BlockHeaderState Key BlockId) : List (SignedBlockHeader Key BlockId) → List (BlockHeaderState Key BlockId)
  | [] => []
  | h :: hs =>
    match s.next headerId h false with
    | .ok s' => s' :: nextAll s' hs
    | .error _ => []

/-- Headers that `next` accepts all the way make a chain. -/
theorem isChain_nextAll (s₀ d : BlockHeaderState Key BlockId) :
    ∀ hs : List (SignedBlockHeader Key BlockId), (nextAll headerId s₀ hs).length = hs.length →
      IsChain headerId (fun i => (s₀ :: nextAll headerId s₀ hs).getD i d) hs.length
  | [], _ => fun i hi => absurd hi (Nat.not_lt_zero i)
  | h :: hs, hlen => by
    unfold nextAll at hlen ⊢
    cases hn : s₀.next headerId h false with
    | error e => simp [hn] at hlen
    | ok s₁ =>
      simp only [hn, List.length_cons, Nat.add_right_cancel_iff] at hlen ⊢
      intro i hi
      cases i with
      | zero => exact ⟨h, false, hn⟩
      | succ i =>
        obtain ⟨h', skip, hstep⟩ := isChain_nextAll s₁ d hs hlen i (by omega)
        refine ⟨h', skip, ?_⟩
        simpa [List.getD_cons_succ, List.getD_eq_getElem?_getD] using hstep

omit [DecidableEq Key] [DecidableEq BlockId] in
theorem irreversibility_genesis (initialSchedule : ProducerScheduleType Key) (initialTimestamp : UInt32) :
    Irreversibility initialTimestamp.toNat (genesis headerId initialSchedule initialTimestamp) where
  slot_bound := by simp [BlockHeaderState.genesis]; omega
  irreversible_le_proposed := UInt32.le_refl _
  proposed_le_blockNum := UInt32.zero_le
  implied_le_proposed := by simp [BlockHeaderState.genesis]
  confirmCount_le := by simp [BlockHeaderState.genesis]

/-- A genesis slot other than `0` is at least `1`. -/
theorem one_le_toNat_of_ne_zero {t : UInt32} (ht : t ≠ 0) : 1 ≤ t.toNat := by
  rcases Nat.eq_zero_or_pos t.toNat with hz | hz
  · exact absurd (UInt32.toNat_inj.mp (hz.trans UInt32.toNat_zero.symm)) ht
  · exact hz

/-- **Run lemma.** Every state of a chain from a genesis at a slot other than `0` keeps the invariant. -/
theorem Irreversibility.chain {initialSchedule : ProducerScheduleType Key} {initialTimestamp : UInt32}
    (hts : initialTimestamp ≠ 0) (h0 : s 0 = genesis headerId initialSchedule initialTimestamp)
    (hchain : IsChain headerId s n) : ∀ i ≤ n, Irreversibility initialTimestamp.toNat (s i)
  | 0, _ => h0 ▸ irreversibility_genesis headerId initialSchedule initialTimestamp
  | i + 1, hi => by
    obtain ⟨h, skip, hstep⟩ := hchain i (by omega)
    exact ((Irreversibility.chain hts h0 hchain i (by omega)).next headerId (one_le_toNat_of_ne_zero hts) hstep).1

theorem dpos_irreversibility (initialSchedule : ProducerScheduleType Key) (initialTimestamp : UInt32)
    (hts : initialTimestamp ≠ 0) (s : Nat → BlockHeaderState Key BlockId) (n : Nat)
    (h0 : s 0 = genesis headerId initialSchedule initialTimestamp) (hchain : IsChain headerId s n) :
    ∀ i ≤ n, (s i).dposIrreversibleBlocknum ≤ (s i).dposProposedIrreversibleBlocknum ∧
      (s i).dposProposedIrreversibleBlocknum ≤ (s i).blockNum ∧
      (i < n → (s i).blockNum < (s (i + 1)).blockNum ∧
        (s i).dposProposedIrreversibleBlocknum ≤ (s (i + 1)).dposProposedIrreversibleBlocknum ∧
        (i = 0 ∨ ¬ Promoted (s (i - 1)) (s i) →
          (s i).dposIrreversibleBlocknum ≤ (s (i + 1)).dposIrreversibleBlocknum)) := by
  intro i hi
  have hinv := Irreversibility.chain headerId hts h0 hchain i hi
  refine ⟨hinv.irreversible_le_proposed, hinv.proposed_le_blockNum, fun hin => ?_⟩
  obtain ⟨h, skip, hstep⟩ := hchain i hin
  obtain ⟨-, hbn, hpirb, hcalc⟩ := hinv.next headerId (one_le_toNat_of_ne_zero hts) hstep
  refine ⟨UInt32.lt_iff_toNat_lt.mpr (by omega), hpirb, ?_⟩
  -- the irreversible block of a state not reached by a promotion is the quantile `next` starts from
  intro hcase
  cases i with
  | zero =>
    rw [h0]
    exact UInt32.zero_le
  | succ i =>
    have hnp : ¬ Promoted (s i) (s (i + 1)) := hcase.resolve_left (Nat.succ_ne_zero i)
    obtain ⟨h', skip', hprev⟩ := hchain i (by omega)
    rw [irreversible_eq_calc_of_not_promoted headerId hprev hnp]
    exact hcalc

end Chain

/-! ## A promotion that takes the irreversible block back

`gstio` alone, then `gstio, a, b, c` (scheduled from block 2 on), then `gstio, x`. Under the second schedule `a`, `b`
and `c` confirm each other's blocks, so their implied irreversible blocks rise to `5` while `gstio`'s stays at `4`.
The promotion at block 10 keeps `gstio` with its old value and gives `x` the irreversible block `5` of that block, so
the quantile over `{gstio : 4, x : 5}` at block 11 is `3`, the value `gstio` left at its last block. -/

/-- Block ids of the examples: the slot of the header. -/
def slotId (h : SignedBlockHeader Nat Nat) : Nat := h.timestamp.toNat

/-- A header of the examples, with no extensions and signed with `key`. -/
def signedHeader (slot : UInt32) (producer : Name) (confirmed : UInt16) (previous : Nat) (scheduleVersion : UInt32)
    (newProducers : Option (ProducerScheduleType Nat)) (key : Nat) : SignedBlockHeader Nat Nat :=
  ⟨slot, producer, confirmed, previous, scheduleVersion, newProducers, [], key⟩

/-- The genesis of the examples: slot `1`, `gstio` with key `0`. -/
def slotGenesis : BlockHeaderState Nat Nat := genesis slotId (initialSchedule 0) 1

/-- Blocks 2 to 11: producer `x` has key `4`, and `a`, `b`, `c` keys `1`, `2`, `3`. -/
def promotionHeaders : List (SignedBlockHeader Nat Nat) :=
  [signedHeader 2 systemAccountName 0 1 0 none 0,
   signedHeader 3 systemAccountName 0 2 0
     (some ⟨1, [⟨systemAccountName, 0⟩, ⟨N "a", 1⟩, ⟨N "b", 2⟩, ⟨N "c", 3⟩]⟩) 0,
   signedHeader 4 systemAccountName 0 3 0 none 0,
   signedHeader 12 (N "a") 0 4 1 (some ⟨2, [⟨systemAccountName, 0⟩, ⟨N "x", 4⟩]⟩) 1,
   signedHeader 24 (N "b") 1 12 1 none 2,
   signedHeader 36 (N "c") 2 24 1 none 3,
   signedHeader 60 (N "a") 2 36 1 none 1,
   signedHeader 72 (N "b") 2 60 1 none 2,
   signedHeader 84 (N "c") 2 72 1 none 3,
   signedHeader 108 (N "x") 0 84 2 none 4]

/-- The states of blocks 1 to 11. -/
def promotionChain (i : Nat) : BlockHeaderState Nat Nat :=
  (slotGenesis :: nextAll slotId slotGenesis promotionHeaders).getD i slotGenesis

theorem isChain_promotionChain : IsChain slotId promotionChain 10 :=
  isChain_nextAll slotId slotGenesis slotGenesis promotionHeaders (by decide)

theorem dpos_irreversibility_promotionChain : (1 : UInt32) ≠ 0 ∧ promotionChain 0 = slotGenesis ∧
    IsChain slotId promotionChain 10 ∧
    ∀ i ≤ 10, (promotionChain i).dposIrreversibleBlocknum ≤ (promotionChain i).dposProposedIrreversibleBlocknum ∧
      (promotionChain i).dposProposedIrreversibleBlocknum ≤ (promotionChain i).blockNum ∧
      (i < 10 → (promotionChain i).blockNum < (promotionChain (i + 1)).blockNum ∧
        (promotionChain i).dposProposedIrreversibleBlocknum ≤ (promotionChain (i + 1)).dposProposedIrreversibleBlocknum ∧
        (i = 0 ∨ ¬ Promoted (promotionChain (i - 1)) (promotionChain i) →
          (promotionChain i).dposIrreversibleBlocknum ≤ (promotionChain (i + 1)).dposIrreversibleBlocknum)) :=
  ⟨by decide, rfl, isChain_promotionChain,
    dpos_irreversibility slotId (initialSchedule 0) 1 (by decide) promotionChain 10 rfl isChain_promotionChain⟩

theorem irreversible_decreases_after_promotion :
    ∃ s : Nat → BlockHeaderState Nat Nat, s 0 = genesis slotId (initialSchedule 0) 1 ∧ IsChain slotId s 10 ∧
      Promoted (s 8) (s 9) ∧ (s 10).dposIrreversibleBlocknum < (s 9).dposIrreversibleBlocknum :=
  ⟨promotionChain, rfl, isChain_promotionChain, ⟨by decide, by decide⟩, by decide⟩

end Gstio.Chain.BlockHeaderState
