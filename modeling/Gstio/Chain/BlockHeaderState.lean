import Gstio.Chain.AuthorizationManager
import Gstio.Lib.OrdMap
import Gstio.Lib.OrderStatistic

/-!
# `block_header_state`

The state a block header leaves behind: the block number, the header, the two irreversibility numbers, the
active and the pending producer schedules, for each producer the last block it produced and the last
irreversible block it implied, and how many confirmations each recent block still needs. `next(h)` checks a
signed header against the state and returns the state after it:

* `generate_next` makes the template: the producer scheduled at the header's slot, the producer's implied
  irreversible block (the proposed one), `dpos_irreversible_blocknum` as the `(n-1)/3`-th smallest implied one,
  and a new confirmation counter;
* `set_confirmed` spends the header's confirmations from the newest block back, and proposes the first block
  that gets all it needs;
* `maybe_promote_pending` makes the pending schedule active once it is irreversible;
* `set_new_producers` proposes the header's schedule.

A block id is given by `headerId`, standing for `block_header::id()` (a hash of the header), and a signature by
the key `signee()` recovers from it. The merkle roots, `pending_schedule_hash`, `bft_irreversible_blocknum` and
the header confirmations are left out: nothing here reads them.

* `setConfirmed_eq`, `maybePromotePending_fst`, `setNewProducers_eq_ok`, `generateNext_eq_ok`: what each part of
  `next` changes;
* `next_eq_ok`: what a returning `next` checked and did.
-/

namespace Gstio.Chain

/-- `config::producer_repetitions`. -/
def producerRepetitions : Nat := 12

/-- `config::maximum_tracked_dpos_confirmations`. -/
def maximumTrackedDposConfirmations : Nat := 1024

/-- `producer_key`. -/
structure ProducerKey (Key : Type) where
  producerName : Name
  blockSigningKey : Key
  deriving DecidableEq, Repr

/-- `producer_schedule_type`. -/
structure ProducerScheduleType (Key : Type) where
  version : UInt32
  producers : List (ProducerKey Key)
  deriving DecidableEq, Repr

/-- `signed_block_header`: `timestamp` is the slot of its `block_timestamp`, and `producerSignature` the key that
`signee()` recovers from the signature. -/
structure SignedBlockHeader (Key BlockId : Type) where
  timestamp : UInt32
  producer : Name
  confirmed : UInt16
  previous : BlockId
  scheduleVersion : UInt32
  newProducers : Option (ProducerScheduleType Key)
  headerExtensions : List (UInt16 × List UInt8)
  producerSignature : Key
  deriving DecidableEq, Repr

/-- A default-constructed header: slot `0`, `confirmed = 1`. -/
instance {Key BlockId : Type} [Inhabited Key] [Inhabited BlockId] : Inhabited (SignedBlockHeader Key BlockId) :=
  ⟨{ timestamp := 0, producer := ⟨0⟩, confirmed := 1, previous := default, scheduleVersion := 0,
     newProducers := none, headerExtensions := [], producerSignature := default }⟩

/-- `block_header_state`. -/
structure BlockHeaderState (Key BlockId : Type) where
  id : BlockId
  blockNum : UInt32
  header : SignedBlockHeader Key BlockId
  dposProposedIrreversibleBlocknum : UInt32
  dposIrreversibleBlocknum : UInt32
  pendingScheduleLibNum : UInt32
  pendingSchedule : ProducerScheduleType Key
  activeSchedule : ProducerScheduleType Key
  producerToLastProduced : OrdMap Name UInt32
  producerToLastImpliedIrb : OrdMap Name UInt32
  blockSigningKey : Key
  confirmCount : List UInt8

/-- The exceptions of `next`, with their messages. -/
inductive BlockHeaderStateError
  /-- `block_validate_exception` -/
  | blockValidate (msg : String)
  /-- `unlinkable_block_exception` -/
  | unlinkableBlock (msg : String)
  /-- `wrong_producer` -/
  | wrongProducer (msg : String)
  /-- `producer_schedule_exception` -/
  | producerSchedule (msg : String)
  /-- `producer_double_confirm`: `"producer ${prod} double-confirming known range"` -/
  | producerDoubleConfirm (prod : Name)
  /-- `wrong_signing_key` -/
  | wrongSigningKey (msg : String)
  /-- `t.slot % 0` on an empty active schedule, undefined in the source. -/
  | emptySchedule
  deriving DecidableEq, Repr

namespace BlockHeaderState

variable {Key BlockId : Type}

/-- `get_scheduled_producer`; `none` on an empty schedule. -/
def getScheduledProducer (s : BlockHeaderState Key BlockId) (t : UInt32) : Option (ProducerKey Key) :=
  let index := t.toNat % (s.activeSchedule.producers.length * producerRepetitions)
  let index := index / producerRepetitions
  s.activeSchedule.producers[index]?

/-- `calc_dpos_last_irreversible`: the `(n-1)/3`-th smallest implied irreversible block, `0` for none. -/
def calcDposLastIrreversible (s : BlockHeaderState Key BlockId) : UInt32 :=
  let blocknums := s.producerToLastImpliedIrb.entries.map Prod.snd
  if blocknums.length = 0 then 0 else
    let blocknums := blocknums.insertionSort (· ≤ ·)
    blocknums.getD ((blocknums.length - 1) / 3) 0

section Next

variable [Inhabited Key] [Inhabited BlockId]

/-- The `result` of `generate_next` at slot `when` for the scheduled `prokey`. -/
def generateNextFor (s : BlockHeaderState Key BlockId) (when : UInt32) (prokey : ProducerKey Key) :
    BlockHeaderState Key BlockId :=
  let blockNum := s.blockNum + 1
  let requiredConfs : UInt32 := UInt32.ofNat (s.activeSchedule.producers.length * 2 / 3) + 1
  let result : BlockHeaderState Key BlockId :=
    { id := default
      blockNum
      header := { (default : SignedBlockHeader Key BlockId) with
        timestamp := when, previous := s.id, scheduleVersion := s.activeSchedule.version,
        producer := prokey.producerName }
      dposProposedIrreversibleBlocknum := s.dposProposedIrreversibleBlocknum
      dposIrreversibleBlocknum := 0
      pendingScheduleLibNum := s.pendingScheduleLibNum
      pendingSchedule := s.pendingSchedule
      activeSchedule := s.activeSchedule
      producerToLastProduced := s.producerToLastProduced.set prokey.producerName blockNum
      producerToLastImpliedIrb :=
        s.producerToLastImpliedIrb.set prokey.producerName s.dposProposedIrreversibleBlocknum
      blockSigningKey := prokey.blockSigningKey
      confirmCount :=
        if s.confirmCount.length < maximumTrackedDposConfirmations then s.confirmCount ++ [requiredConfs.toUInt8]
        else s.confirmCount.tail ++ [requiredConfs.toUInt8] }
  { result with dposIrreversibleBlocknum := result.calcDposLastIrreversible }

/-- `generate_next`: the template of the block at slot `when`, at the slot after the head for `0`. -/
def generateNext (s : BlockHeaderState Key BlockId) (when : UInt32) :
    Except BlockHeaderStateError (BlockHeaderState Key BlockId) := do
  let when ← if when ≠ 0 then do
      Except.assert (decide (s.header.timestamp < when)) (.blockValidate "next block must be in the future")
      pure when
    else pure (s.header.timestamp + 1)
  let some prokey := s.getScheduledProducer when | throw .emptySchedule
  pure (s.generateNextFor when prokey)

end Next

/-- The `while` loop of `set_confirmed`, at index `i` (for `i + 1` here) with `blocksToConfirm` left: the first
counter that reaches `0` proposes its block and drops itself and the older ones. -/
def setConfirmedLoop (s : BlockHeaderState Key BlockId) : (i blocksToConfirm : Nat) → BlockHeaderState Key BlockId
  | 0, _ => s
  | _ + 1, 0 => s
  | i + 1, blocksToConfirm + 1 =>
    let confirmCount := s.confirmCount.modify i (· - 1)
    if confirmCount.getD i 0 = 0 then
      let blockNumForI := s.blockNum - UInt32.ofNat (confirmCount.length - 1 - i)
      { s with
        dposProposedIrreversibleBlocknum := blockNumForI
        confirmCount := if i = confirmCount.length - 1 then [] else confirmCount.drop (i + 1) }
    else setConfirmedLoop { s with confirmCount } i blocksToConfirm

/-- `set_confirmed`: the head block and `numPrevBlocks` before it. -/
def setConfirmed (s : BlockHeaderState Key BlockId) (numPrevBlocks : UInt16) : BlockHeaderState Key BlockId :=
  let s := { s with header := { s.header with confirmed := numPrevBlocks } }
  setConfirmedLoop s s.confirmCount.length (numPrevBlocks.toNat + 1)

/-- The two loops of `maybe_promote_pending`: each producer of the new schedule keeps its entry of `old`, or
gets `dflt`. -/
def carryOver (producers : List (ProducerKey Key)) (old : OrdMap Name UInt32) (dflt : UInt32) :
    OrdMap Name UInt32 :=
  producers.foldl (fun m pro => m.set pro.producerName ((old.find? pro.producerName).getD dflt)) OrdMap.empty

/-- `maybe_promote_pending`, with whether it promoted. The moved-from pending schedule keeps its version and no
producer. -/
def maybePromotePending (s : BlockHeaderState Key BlockId) : BlockHeaderState Key BlockId × Bool :=
  if s.pendingSchedule.producers.length ≠ 0 ∧ s.dposIrreversibleBlocknum ≥ s.pendingScheduleLibNum then
    let activeSchedule := s.pendingSchedule
    let newProducerToLastProduced :=
      carryOver activeSchedule.producers s.producerToLastProduced s.dposIrreversibleBlocknum
    let newProducerToLastImpliedIrb :=
      carryOver activeSchedule.producers s.producerToLastImpliedIrb s.dposIrreversibleBlocknum
    ({ s with
      activeSchedule
      pendingSchedule := { s.pendingSchedule with producers := [] }
      producerToLastProduced := newProducerToLastProduced.set s.header.producer s.blockNum
      producerToLastImpliedIrb := newProducerToLastImpliedIrb }, true)
  else (s, false)

/-- `set_new_producers`. -/
def setNewProducers (s : BlockHeaderState Key BlockId) (pending : ProducerScheduleType Key) :
    Except BlockHeaderStateError (BlockHeaderState Key BlockId) := do
  Except.assert (pending.version == s.activeSchedule.version + 1)
    (.producerSchedule "wrong producer schedule version specified")
  Except.assert (s.pendingSchedule.producers.length == 0)
    (.producerSchedule "cannot set new pending producers until last pending is confirmed")
  pure { s with
    header := { s.header with newProducers := some pending }
    pendingSchedule := pending
    pendingScheduleLibNum := s.blockNum }

/-! ## What each part changes -/

section Spec

variable {s t : BlockHeaderState Key BlockId}

theorem calcDposLastIrreversible_congr (h : s.producerToLastImpliedIrb = t.producerToLastImpliedIrb) :
    s.calcDposLastIrreversible = t.calcDposLastIrreversible := by
  rw [calcDposLastIrreversible, calcDposLastIrreversible, h]

/-- The irreversible block is one of the implied ones, so it is below any bound on them. -/
theorem calcDposLastIrreversible_le {b : UInt32}
    (hb : ∀ p v, s.producerToLastImpliedIrb.find? p = some v → v ≤ b) : s.calcDposLastIrreversible ≤ b := by
  unfold calcDposLastIrreversible
  simp only [List.length_insertionSort]
  split
  · exact UInt32.zero_le
  · rename_i hne
    have hk : ((s.producerToLastImpliedIrb.entries.map Prod.snd).length - 1) / 3 <
        ((s.producerToLastImpliedIrb.entries.map Prod.snd).insertionSort (· ≤ ·)).length := by
      rw [List.length_insertionSort]
      omega
    rw [List.getD_eq_getElem?_getD, List.getElem?_eq_getElem hk, Option.getD_some]
    have hmem := (List.perm_insertionSort (· ≤ ·) _).subset (List.getElem_mem hk)
    obtain ⟨⟨p, v⟩, he, hv⟩ := List.mem_map.mp hmem
    rw [← hv]
    exact hb p v ((OrdMap.mem_entries_iff _ p v).mp he)

/-- **The irreversible block does not go down** when one implied block is set to a number above all of them. -/
theorem calcDposLastIrreversible_le_set {k : Name} {w : UInt32}
    (hw : ∀ p v, s.producerToLastImpliedIrb.find? p = some v → v ≤ w)
    (ht : t.producerToLastImpliedIrb = s.producerToLastImpliedIrb.set k w) :
    s.calcDposLastIrreversible ≤ t.calcDposLastIrreversible := by
  have hperm : ((s.producerToLastImpliedIrb.set k w).entries.map Prod.snd).Perm
      (w :: (s.producerToLastImpliedIrb.erase k).entries.map Prod.snd) :=
    (s.producerToLastImpliedIrb.perm_set k w).map Prod.snd
  have hsub : ((s.producerToLastImpliedIrb.erase k).entries.map Prod.snd).Sublist
      (s.producerToLastImpliedIrb.entries.map Prod.snd) :=
    (s.producerToLastImpliedIrb.erase_sublist k).map Prod.snd
  have hlen := s.producerToLastImpliedIrb.length_le_length_erase_add_one k
  have hlen' : ((s.producerToLastImpliedIrb.set k w).entries.map Prod.snd).length =
      (s.producerToLastImpliedIrb.erase k).entries.length + 1 := by
    rw [hperm.length_eq, List.length_cons, List.length_map]
  unfold calcDposLastIrreversible
  rw [ht]
  simp only [List.length_insertionSort]
  split
  · exact UInt32.zero_le
  · rename_i hne
    rw [List.length_map] at hne
    rw [if_neg (show ¬ ((s.producerToLastImpliedIrb.set k w).entries.map Prod.snd).length = 0 by omega)]
    have hk : ((s.producerToLastImpliedIrb.entries.map Prod.snd).length - 1) / 3 <
        ((s.producerToLastImpliedIrb.entries.map Prod.snd).insertionSort (· ≤ ·)).length := by
      rw [List.length_insertionSort, List.length_map]
      omega
    have hk' : (((s.producerToLastImpliedIrb.set k w).entries.map Prod.snd).length - 1) / 3 <
        (((s.producerToLastImpliedIrb.set k w).entries.map Prod.snd).insertionSort (· ≤ ·)).length := by
      rw [List.length_insertionSort, hlen']
      omega
    rw [List.getD_eq_getElem?_getD, List.getElem?_eq_getElem hk, Option.getD_some, List.getD_eq_getElem?_getD,
      List.getElem?_eq_getElem hk', Option.getD_some]
    apply List.rel_getElem_insertionSort_of_countP_le hk hk'
    · rw [hlen', List.length_map]
      omega
    · -- the new entry is above the old quantile, so only the untouched entries can lie below it
      have hmem := (List.perm_insertionSort (· ≤ ·) _).subset (List.getElem_mem hk)
      obtain ⟨⟨p, v⟩, he, hv⟩ := List.mem_map.mp hmem
      have hxw : v ≤ w := hw p v ((OrdMap.mem_entries_iff _ p v).mp he)
      rw [hperm.countP_eq, List.countP_cons, ← hv, if_neg (by simpa using hxw), Nat.add_zero]
      exact hsub.countP_le

/-- The loop of `set_confirmed` changes the proposed block and the counters only: either it proposes nothing,
or it proposes the block of a counter `j` and keeps the counters after `j`. -/
theorem setConfirmedLoop_eq (s : BlockHeaderState Key BlockId) : ∀ i b, i ≤ s.confirmCount.length →
    ∃ p cc, setConfirmedLoop s i b = { s with dposProposedIrreversibleBlocknum := p, confirmCount := cc } ∧
      (p = s.dposProposedIrreversibleBlocknum ∧ cc.length = s.confirmCount.length ∨
        ∃ j < i, p = s.blockNum - UInt32.ofNat (s.confirmCount.length - 1 - j) ∧
          cc.length = s.confirmCount.length - 1 - j)
  | 0, _, _ => ⟨_, _, rfl, .inl ⟨rfl, rfl⟩⟩
  | _ + 1, 0, _ => ⟨_, _, rfl, .inl ⟨rfl, rfl⟩⟩
  | i + 1, b + 1, hi => by
    have hlen : (s.confirmCount.modify i (· - 1)).length = s.confirmCount.length := List.length_modify _ _ _
    rw [setConfirmedLoop]
    dsimp only
    split
    · refine ⟨_, _, rfl, .inr ⟨i, Nat.lt_succ_self i, by rw [hlen], ?_⟩⟩
      split
      · rw [List.length_nil]
        omega
      · rw [List.length_drop, hlen]
        omega
    · obtain ⟨p, cc, heq, hspec⟩ :=
        setConfirmedLoop_eq { s with confirmCount := s.confirmCount.modify i (· - 1) } i b (by
          dsimp only
          omega)
      refine ⟨p, cc, heq, ?_⟩
      dsimp only at hspec
      rw [hlen] at hspec
      rcases hspec with ⟨rfl, hc⟩ | ⟨j, hj, rfl, hc⟩
      · exact .inl ⟨rfl, hc⟩
      · exact .inr ⟨j, by omega, rfl, hc⟩

/-- `set_confirmed` records the confirmations in the header and runs its loop over all the counters. -/
theorem setConfirmed_eq (s : BlockHeaderState Key BlockId) (n : UInt16) :
    ∃ p cc, s.setConfirmed n =
        { s with
          header := { s.header with confirmed := n }, dposProposedIrreversibleBlocknum := p, confirmCount := cc } ∧
      (p = s.dposProposedIrreversibleBlocknum ∧ cc.length = s.confirmCount.length ∨
        ∃ j < s.confirmCount.length, p = s.blockNum - UInt32.ofNat (s.confirmCount.length - 1 - j) ∧
          cc.length = s.confirmCount.length - 1 - j) :=
  setConfirmedLoop_eq _ _ _ (Nat.le_refl _)

theorem find?_foldl_set (g : Name → UInt32) (x : Name) :
    ∀ (producers : List (ProducerKey Key)) (acc : OrdMap Name UInt32),
      (producers.foldl (fun m pro => m.set pro.producerName (g pro.producerName)) acc).find? x =
        if x ∈ producers.map (·.producerName) then some (g x) else acc.find? x
  | [], acc => by simp
  | pro :: producers, acc => by
    rw [List.foldl_cons, find?_foldl_set g x producers, OrdMap.find?_set]
    by_cases hx : x = pro.producerName
    · subst hx
      simp
    · simp [hx]

/-- After a promotion a producer of the new schedule keeps its entry, or gets the default. -/
theorem find?_carryOver (producers : List (ProducerKey Key)) (old : OrdMap Name UInt32) (dflt : UInt32)
    (x : Name) : (carryOver producers old dflt).find? x =
      if x ∈ producers.map (·.producerName) then some ((old.find? x).getD dflt) else none :=
  find?_foldl_set (fun x => (old.find? x).getD dflt) x producers OrdMap.empty

/-- `maybe_promote_pending` either changes nothing, or promotes the pending schedule with the entries of its
producers carried over. -/
theorem maybePromotePending_cases (s : BlockHeaderState Key BlockId) :
    ¬ (s.pendingSchedule.producers.length ≠ 0 ∧ s.dposIrreversibleBlocknum ≥ s.pendingScheduleLibNum) ∧
        s.maybePromotePending = (s, false) ∨
      (s.pendingSchedule.producers.length ≠ 0 ∧ s.dposIrreversibleBlocknum ≥ s.pendingScheduleLibNum) ∧
        s.maybePromotePending =
          ({ s with
             activeSchedule := s.pendingSchedule
             pendingSchedule := { s.pendingSchedule with producers := [] }
             producerToLastProduced := (carryOver s.pendingSchedule.producers s.producerToLastProduced
               s.dposIrreversibleBlocknum).set s.header.producer s.blockNum
             producerToLastImpliedIrb :=
               carryOver s.pendingSchedule.producers s.producerToLastImpliedIrb s.dposIrreversibleBlocknum },
            true) := by
  by_cases hg : s.pendingSchedule.producers.length ≠ 0 ∧ s.dposIrreversibleBlocknum ≥ s.pendingScheduleLibNum
  · exact .inr ⟨hg, by rw [maybePromotePending, if_pos hg]⟩
  · exact .inl ⟨hg, by rw [maybePromotePending, if_neg hg]⟩

theorem setNewProducers_eq_ok {np : ProducerScheduleType Key} {q : BlockHeaderState Key BlockId}
    (h : s.setNewProducers np = .ok q) :
    np.version = s.activeSchedule.version + 1 ∧ s.pendingSchedule.producers = [] ∧
      q =
        { s with
          header := { s.header with newProducers := some np }, pendingSchedule := np,
          pendingScheduleLibNum := s.blockNum } := by
  simp only [setNewProducers, bind, Except.bind_eq_ok, Except.assert_eq_ok, beq_iff_eq, pure, Except.pure,
    Except.ok.injEq] at h
  obtain ⟨_, hv, _, hp, rfl⟩ := h
  exact ⟨hv, List.length_eq_zero_iff.mp hp, rfl⟩

end Spec

section GenerateSpec

variable [Inhabited Key] [Inhabited BlockId] {s : BlockHeaderState Key BlockId}

theorem generateNext_eq_ok {when : UInt32} {r : BlockHeaderState Key BlockId} (hw : when ≠ 0)
    (h : s.generateNext when = .ok r) :
    s.header.timestamp < when ∧ ∃ prokey, s.getScheduledProducer when = some prokey ∧ r = s.generateNextFor when prokey := by
  simp only [generateNext, if_pos hw, bind, Except.bind_eq_ok, Except.assert_eq_ok, decide_eq_true_eq, pure,
    Except.pure] at h
  obtain ⟨_, hlt, _, hwhen, h⟩ := h
  rw [Except.ok.injEq] at hwhen
  subst hwhen
  refine ⟨hlt, ?_⟩
  cases hp : s.getScheduledProducer when with
  | none => simp [hp, throw, throwThe, MonadExceptOf.throw] at h
  | some prokey =>
    simp only [hp, Except.ok.injEq] at h
    exact ⟨prokey, rfl, h.symm⟩

end GenerateSpec

variable [Inhabited Key] [Inhabited BlockId] [DecidableEq Key] [DecidableEq BlockId]
  (headerId : SignedBlockHeader Key BlockId → BlockId)

/-- The check of `next` that the producer does not confirm again a block it confirmed before: `result.block_num -
h.confirmed` in `uint32_t`. -/
def checkDoubleConfirm (s : BlockHeaderState Key BlockId) (h : SignedBlockHeader Key BlockId) (blockNum : UInt32) :
    Except BlockHeaderStateError Unit :=
  match s.producerToLastProduced.find? h.producer with
  | some lastProduced =>
    Except.assert (decide (lastProduced < blockNum - h.confirmed.toUInt32)) (.producerDoubleConfirm h.producer)
  | none => pure ()

/-- `if( h.new_producers )` in `next`. -/
def applyNewProducers (s : BlockHeaderState Key BlockId) (wasPendingPromoted : Bool) :
    Option (ProducerScheduleType Key) → Except BlockHeaderStateError (BlockHeaderState Key BlockId)
  | some newProducers => do
    Except.assert (!wasPendingPromoted) (.producerSchedule
      "cannot set pending producer schedule in the same block in which pending was promoted to active")
    s.setNewProducers newProducers
  | none => pure s

/-- `verify_signee`. -/
def verifySignee (s : BlockHeaderState Key BlockId) (signee : Key) : Except BlockHeaderStateError Unit :=
  Except.assert (decide (s.blockSigningKey = signee)) (.wrongSigningKey "block not signed by expected key")

/-- `next`: the state after the signed header `h`; its signature is checked unless `skipValidateSignee`. -/
def next (s : BlockHeaderState Key BlockId) (h : SignedBlockHeader Key BlockId) (skipValidateSignee : Bool) :
    Except BlockHeaderStateError (BlockHeaderState Key BlockId) := do
  Except.assert (h.timestamp != 0) (.blockValidate "")
  Except.assert (h.headerExtensions.length == 0) (.blockValidate "no supported extensions")
  Except.assert (decide (s.header.timestamp < h.timestamp)) (.blockValidate "block must be later in time")
  Except.assert (decide (h.previous = s.id)) (.unlinkableBlock "block must link to current state")
  let result ← s.generateNext h.timestamp
  Except.assert (decide (result.header.producer = h.producer)) (.wrongProducer "wrong producer specified")
  Except.assert (result.header.scheduleVersion == h.scheduleVersion)
    (.producerSchedule "schedule_version in signed block is corrupted")
  s.checkDoubleConfirm h result.blockNum
  let result := result.setConfirmed h.confirmed
  let promoted := result.maybePromotePending
  let result ← promoted.1.applyNewProducers promoted.2 h.newProducers
  let header := { result.header with producerSignature := h.producerSignature }
  let result := { result with header, id := headerId header }
  if !skipValidateSignee then
    result.verifySignee result.header.producerSignature
  pure result

/-- The genesis state of `controller_impl::initialize_fork_db`, for an initial schedule and a first slot. -/
def genesis (initialSchedule : ProducerScheduleType Key) (initialTimestamp : UInt32) : BlockHeaderState Key BlockId :=
  let header : SignedBlockHeader Key BlockId := { (default : SignedBlockHeader Key BlockId) with
    timestamp := initialTimestamp }
  { id := headerId header
    blockNum := 1
    header
    dposProposedIrreversibleBlocknum := 0
    dposIrreversibleBlocknum := 0
    pendingScheduleLibNum := 0
    pendingSchedule := initialSchedule
    activeSchedule := initialSchedule
    producerToLastProduced := OrdMap.empty
    producerToLastImpliedIrb := OrdMap.empty
    blockSigningKey := default
    confirmCount := [] }

/-- The `initial_schedule` of `initialize_fork_db`: `gstio` alone, with the genesis key. -/
def initialSchedule (initialKey : Key) : ProducerScheduleType Key := ⟨0, [⟨systemAccountName, initialKey⟩]⟩

section NextSpec

variable {s s' : BlockHeaderState Key BlockId} {h : SignedBlockHeader Key BlockId} {skip : Bool}

omit [Inhabited Key] [Inhabited BlockId] [DecidableEq Key] [DecidableEq BlockId] in
theorem checkDoubleConfirm_eq_ok {b : UInt32} {u : Unit} :
    s.checkDoubleConfirm h b = .ok u ↔
      ∀ v, s.producerToLastProduced.find? h.producer = some v → v < b - h.confirmed.toUInt32 := by
  unfold checkDoubleConfirm
  cases s.producerToLastProduced.find? h.producer <;> simp [pure, Except.pure]

omit [Inhabited Key] [Inhabited BlockId] [DecidableEq Key] [DecidableEq BlockId] in
theorem applyNewProducers_eq_ok {w : Bool} {np : Option (ProducerScheduleType Key)} {q : BlockHeaderState Key BlockId}
    (hq : s.applyNewProducers w np = .ok q) :
    np = none ∧ q = s ∨ ∃ n, np = some n ∧ w = false ∧ s.setNewProducers n = .ok q := by
  cases np with
  | none =>
    simp only [applyNewProducers, pure, Except.pure, Except.ok.injEq] at hq
    exact .inl ⟨rfl, hq.symm⟩
  | some n =>
    simp only [applyNewProducers, bind, Except.bind_eq_ok, Except.assert_eq_ok, Bool.not_eq_true'] at hq
    obtain ⟨_, hw, hq⟩ := hq
    exact .inr ⟨n, rfl, hw, hq⟩

/-- **Inversion of `next`.** A returning `next` checked the header against the state; its result is the template
of the producer scheduled at the header's slot, with the confirmations spent, the pending schedule maybe promoted
and the header's schedule maybe proposed, signed by the header's key. -/
theorem next_eq_ok (hn : s.next headerId h skip = .ok s') :
    h.timestamp ≠ 0 ∧ s.header.timestamp < h.timestamp ∧ h.previous = s.id ∧
      ∃ prokey q, s.getScheduledProducer h.timestamp = some prokey ∧ prokey.producerName = h.producer ∧
        s.activeSchedule.version = h.scheduleVersion ∧
        (∀ v, s.producerToLastProduced.find? h.producer = some v → v < s.blockNum + 1 - h.confirmed.toUInt32) ∧
        (h.newProducers = none ∧
            q = (((s.generateNextFor h.timestamp prokey).setConfirmed h.confirmed).maybePromotePending).1 ∨
          ∃ np, h.newProducers = some np ∧
            (((s.generateNextFor h.timestamp prokey).setConfirmed h.confirmed).maybePromotePending).2 = false ∧
            (((s.generateNextFor h.timestamp prokey).setConfirmed h.confirmed).maybePromotePending).1.setNewProducers
              np = .ok q) ∧
        (skip = false → q.blockSigningKey = h.producerSignature) ∧
        s' =
          { q with
            header := { q.header with producerSignature := h.producerSignature }
            id := headerId { q.header with producerSignature := h.producerSignature } } := by
  unfold next at hn
  simp only [bind, Except.bind_eq_ok, Except.assert_eq_ok, bne_iff_ne, ne_eq, decide_eq_true_eq, beq_iff_eq, pure,
    Except.pure] at hn
  obtain ⟨_, hts, _, -, _, hlt, _, hprev, r, hgen, _, hprod, _, hver, _, hdc, q, hnp, hfin⟩ := hn
  obtain ⟨-, prokey, hsched, rfl⟩ := generateNext_eq_ok hts hgen
  refine ⟨hts, hlt, hprev, prokey, q, hsched, hprod, hver, checkDoubleConfirm_eq_ok.mp hdc,
    applyNewProducers_eq_ok hnp, ?_⟩
  -- the signature check is the only branch left
  cases skip with
  | true =>
    simp only [Bool.not_true, Bool.false_eq_true, if_false, Except.ok.injEq] at hfin
    exact ⟨fun h => absurd h Bool.noConfusion, hfin.symm⟩
  | false =>
    simp only [Bool.not_false, if_true, verifySignee, Except.bind_eq_ok, Except.assert_eq_ok, decide_eq_true_eq,
      Except.ok.injEq] at hfin
    obtain ⟨_, hkey, hfin⟩ := hfin
    exact ⟨fun _ => hkey, hfin.symm⟩

end NextSpec

end BlockHeaderState

end Gstio.Chain
