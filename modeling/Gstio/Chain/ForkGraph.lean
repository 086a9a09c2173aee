import Mathlib
import Gstio.Chain.ForkIrreversibility
import Gstio.Lib.SubtreeRaise
import Gstio.Lib.ParentForest

/-!
# Walking the fork graph (`remove`, `set_bft_irreversible`, `fetch_branch_from`)

`remove(id)` erases `id` and every state built on it, breadth first, and then takes the head as the first state of
`by_lib_block_num`. The erasure is exact for every index with unique ids (`SubtreeErase`). The head is read without a
test: when the states built on `id` were all the states, `*begin()` dereferences the end of an empty index.

`set_bft_irreversible(id)` sets the `bft` block of `id` to its number and raises the states built on it, breadth
first, stopping at a child already high enough (`SubtreeRaise`). The stop is exact because the `bft` blocks do not
decrease down to a child; the result keeps that only when the block `id` was not above its own number.

* `libBegin_eq_ok`: the head `by_lib_block_num` gives is a greatest state under its key;
* `remove_erases_subtree`: what `remove` leaves, and when it reads the head of an empty index;
* `remove_root_undefined`: removing the root the controller sets at start;
* `reach_below_iff`: the states the raise reaches are those built on `id` below its number;
* `set_bft_irreversible_spec`: what `set_bft_irreversible` makes of each state, and that the order is kept;
* `set_bft_irreversible_breaks_monotone`: a block above its own number ends below its parent.

`fetch_branch_from(first, second)` walks the two blocks down to one number and then down together until their
previous ids agree (`ParentForest`, with the block number as the rank). The meeting point is the deepest common
ancestor when every state is numbered one above its parent, as `next` numbers it:

* `fetchBranchDown_eq`, `fetchBranchTogether_eq`: what the loops climb, and that the last keeps the common ancestors;
* `fetch_branch_from_meets`: the two parent chains, and that they end at the deepest common ancestor;
* `fetch_branch_from_skipped_number`: with a number skipped, both chains end at the common parent itself.
-/

namespace Gstio.Chain

namespace ForkDatabase

variable {Key BlockId : Type} [DecidableEq BlockId] {db : ForkDatabase Key BlockId}

omit [DecidableEq BlockId] in
/-- The head `*begin()` of `by_lib_block_num` is a greatest state under its key. -/
theorem libBegin_eq_ok {index : List (BlockState Key BlockId)} {h : BlockState Key BlockId}
    (hh : libBegin index = .ok h) : h ∈ index ∧ ∀ b ∈ index, byLibBlockNum b ≤ byLibBlockNum h := by
  unfold libBegin at hh
  split at hh
  · rename_i s hs
    cases hh
    exact ⟨List.argmax_mem hs, fun b hb => List.le_of_mem_argmax hb hs⟩
  · cases hh

omit [DecidableEq BlockId] in
theorem libBegin_of_ne_nil {index : List (BlockState Key BlockId)} (hne : index ≠ []) :
    ∃ h, libBegin index = .ok h := by
  unfold libBegin
  split
  · exact ⟨_, rfl⟩
  · rename_i hnone
    exact absurd (List.argmax_eq_none.mp hnone) hne

/-- **`remove`**: it leaves exactly the states not built on `id`, in their order, with a greatest of them under
`by_lib_block_num` as the head; when no state is left, it dereferences the end of the empty index. -/
theorem remove_erases_subtree (hk : IdsNodup db.index) (id : BlockId) :
    (∃ db', db.remove id = .ok db' ∧ db'.index ≠ [] ∧
        (∀ b, b ∈ db'.index ↔ b ∈ db.index ∧ ¬ BuiltOnId db.index id b) ∧ db'.index.Sublist db.index ∧
        ∃ h, db'.head = some h ∧ h ∈ db'.index ∧ ∀ b ∈ db'.index, byLibBlockNum b ≤ byLibBlockNum h) ∨
      ((∀ b ∈ db.index, BuiltOnId db.index id b) ∧
        db.remove id = .error (.undefinedBehavior "begin() of an empty by_lib_block_num index dereferenced")) := by
  have hmem : ∀ b, b ∈ SubtreeErase.eraseLoop (·.id) (·.header.previous) (db.index.length + 2) db.index [id] ↔
      b ∈ db.index ∧ ¬ BuiltOnId db.index id b :=
    SubtreeErase.mem_eraseLoop_single hk id (Nat.le_refl _)
  by_cases hne : SubtreeErase.eraseLoop (·.id) (·.header.previous) (db.index.length + 2) db.index [id] = []
  · refine .inr ⟨fun b hb => ?_, by simp only [remove, hne]; rfl⟩
    have hb' := (hmem b).not.mp (by rw [hne]; exact List.not_mem_nil)
    exact not_not.mp fun hn => hb' ⟨hb, hn⟩
  · obtain ⟨h, hh⟩ := libBegin_of_ne_nil hne
    have hrem : db.remove id = .ok
        ⟨SubtreeErase.eraseLoop (·.id) (·.header.previous) (db.index.length + 2) db.index [id], some h⟩ := by
      simp only [remove, hh]
      rfl
    exact .inl ⟨_, hrem, hne, hmem, SubtreeErase.eraseLoop_sublist _ _ _, h, rfl, libBegin_eq_ok hh⟩

theorem remove_erases_subtree_root :
    IdsNodup (empty.set BlockHeaderState.slotId slotRoot).1.index ∧
      ((∃ db', (empty.set BlockHeaderState.slotId slotRoot).1.remove slotRoot.id = .ok db' ∧ db'.index ≠ [] ∧
          (∀ b, b ∈ db'.index ↔ b ∈ (empty.set BlockHeaderState.slotId slotRoot).1.index ∧
            ¬ BuiltOnId (empty.set BlockHeaderState.slotId slotRoot).1.index slotRoot.id b) ∧
          db'.index.Sublist (empty.set BlockHeaderState.slotId slotRoot).1.index ∧
          ∃ h, db'.head = some h ∧ h ∈ db'.index ∧ ∀ b ∈ db'.index, byLibBlockNum b ≤ byLibBlockNum h) ∨
        ((∀ b ∈ (empty.set BlockHeaderState.slotId slotRoot).1.index,
            BuiltOnId (empty.set BlockHeaderState.slotId slotRoot).1.index slotRoot.id b) ∧
          (empty.set BlockHeaderState.slotId slotRoot).1.remove slotRoot.id =
            .error (.undefinedBehavior "begin() of an empty by_lib_block_num index dereferenced"))) := by
  have hk : IdsNodup (empty.set BlockHeaderState.slotId slotRoot).1.index := by
    rw [index_set_empty]
    exact List.nodup_singleton _
  exact ⟨hk, remove_erases_subtree hk slotRoot.id⟩

/-- The database as the controller starts it, with only the root: removing the root empties it, and `remove` then
reads the head of the empty `by_lib_block_num` index. -/
theorem remove_root_undefined :
    (empty.set BlockHeaderState.slotId slotRoot).1.index = [slotRoot] ∧
      (empty.set BlockHeaderState.slotId slotRoot).1.remove slotRoot.id =
        .error (.undefinedBehavior "begin() of an empty by_lib_block_num index dereferenced") :=
  ⟨index_set_empty BlockHeaderState.slotId slotRoot, rfl⟩

/-! ## `set_bft_irreversible` -/

/-- The first step of `set_bft_irreversible(id)`: the block `id` gets its own number as its `bft` irreversible block.
-/
def markOwnBft (id : BlockId) (s : BlockState Key BlockId) : BlockState Key BlockId :=
  if s.id = id then { s with bftIrreversibleBlocknum := s.blockNum } else s

/-- A state of a layer of `set_bft_irreversible` raised to the number `num` of the block. -/
def raiseBft (num : UInt32) (s : BlockState Key BlockId) : BlockState Key BlockId :=
  { s with bftIrreversibleBlocknum := num }

/-- `set_bft_irreversible(id)`: the block `id` gets its own number `num`, then layer after layer the children of the
last layer whose `bft` block lies below `num` are raised to it and make the next layer (`SubtreeRaise`). The model
takes the children of an id in the order of the index, where `by_prev` has its own order: that changes the order of
a layer, not what is raised. The head points at a state of the index and sees its change. The fuel is one layer per
state and one more, which is enough (`set_bft_irreversible_spec`). An id that is not in the index is dereferenced
at the end of `by_block_id`. -/
def setBftIrreversible (db : ForkDatabase Key BlockId) (id : BlockId) :
    Except ForkDatabaseError (ForkDatabase Key BlockId) :=
  match db.find id with
  | none => .error (.undefinedBehavior "set_bft_irreversible dereferences the end of by_block_id")
  | some b =>
    let index := db.index.map (markOwnBft id)
    let index := SubtreeRaise.loop (·.id) (·.header.previous) (·.bftIrreversibleBlocknum < b.blockNum)
      (raiseBft b.blockNum) (index.length + 1) index [id]
    .ok ⟨index, db.head.map fun h => (index.find? (·.id = h.id)).getD h⟩

/-- The `bft` irreversible block never decreases from a state to a child of it in the index. -/
def BftMonotone (index : List (BlockState Key BlockId)) : Prop :=
  ∀ c ∈ index, ∀ p ∈ index, p.id = c.header.previous → p.bftIrreversibleBlocknum ≤ c.bftIrreversibleBlocknum

instance (index : List (BlockState Key BlockId)) : Decidable (BftMonotone index) :=
  inferInstanceAs (Decidable (∀ c ∈ index, ∀ p ∈ index, p.id = c.header.previous →
    p.bftIrreversibleBlocknum ≤ c.bftIrreversibleBlocknum))

/-- What `set_bft_irreversible(id)` makes of a state `s` of `index`, `num` being the number of the block `id`: the
block `id` gets its own number, a state built on it the greater of its own and `num`, and any other is left as it is.
-/
def BftSet (index : List (BlockState Key BlockId)) (id : BlockId) (num : UInt32) (s s' : BlockState Key BlockId) :
    Prop :=
  (s.id = id → s' = { s with bftIrreversibleBlocknum := s.blockNum }) ∧
    (s.id ≠ id → BuiltOnId index id s → s' = { s with bftIrreversibleBlocknum := max s.bftIrreversibleBlocknum num }) ∧
    (¬ BuiltOnId index id s → s' = s)

omit [DecidableEq BlockId] in
theorem id_of_bftSet {index : List (BlockState Key BlockId)} {id : BlockId} {num : UInt32}
    {s s' : BlockState Key BlockId} (h : BftSet index id num s s') : s'.id = s.id ∧ s'.header = s.header := by
  by_cases hid : s.id = id
  · rw [h.1 hid]
    exact ⟨rfl, rfl⟩
  · by_cases hb : BuiltOnId index id s
    · rw [h.2.1 hid hb]
      exact ⟨rfl, rfl⟩
    · rw [h.2.2 hb]
      exact ⟨rfl, rfl⟩

section Bft

variable {id : BlockId} {b : BlockState Key BlockId}

theorem max_bft_of_le {a c : UInt32} (h : a ≤ c) : max a c = c := by
  rw [← UInt32.toNat_inj, UInt32.toNat_max]
  rw [UInt32.le_iff_toNat_le] at h
  omega

theorem max_bft_of_not_lt {a c : UInt32} (h : ¬ a < c) : max a c = a := by
  rw [← UInt32.toNat_inj, UInt32.toNat_max]
  rw [UInt32.lt_iff_toNat_lt] at h
  omega

/-- Below the number of the block `id`, after its first step, lie exactly the states other than `id` whose `bft`
block lay below it. -/
theorem mem_below_iff (hk : IdsNodup db.index) (hb : db.find id = some b) {a : BlockState Key BlockId} :
    a ∈ (db.index.map (markOwnBft id)).filter (·.bftIrreversibleBlocknum < b.blockNum) ↔
      a ∈ db.index ∧ a.id ≠ id ∧ a.bftIrreversibleBlocknum < b.blockNum := by
  obtain ⟨hbmem, hbid⟩ := find_eq_some hb
  simp only [List.mem_filter, List.mem_map, decide_eq_true_eq]
  constructor
  · rintro ⟨⟨s, hs, rfl⟩, hlt⟩
    by_cases hsid : s.id = id
    · -- the block `id` is at its own number, which is `num`
      have hsb : s = b := SubtreeErase.eq_of_key_eq hk hs hbmem (hsid.trans hbid.symm)
      subst hsb
      simp [markOwnBft, hsid] at hlt
    · simp only [markOwnBft, hsid, if_false] at hlt ⊢
      exact ⟨hs, hsid, hlt⟩
  · rintro ⟨ha, hid, hlt⟩
    exact ⟨⟨a, ha, by simp [markOwnBft, hid]⟩, hlt⟩

/-- Through the states below the number of the block `id`, what hangs from `id` is what is built on it with its `bft`
block below that number: the states between them lie lower still. -/
theorem reach_below_iff (hk : IdsNodup db.index) (hmono : BftMonotone db.index) (hb : db.find id = some b)
    {s : BlockState Key BlockId} (hsid : s.id ≠ id) :
    SubtreeErase.Reach (·.id) (·.header.previous)
        ((db.index.map (markOwnBft id)).filter (·.bftIrreversibleBlocknum < b.blockNum)) [id] s ↔
      BuiltOnId db.index id s ∧ s.bftIrreversibleBlocknum < b.blockNum := by
  constructor
  · intro h
    refine ⟨h.mono fun a ha => ((mem_below_iff hk hb).mp ha).1, ((mem_below_iff hk hb).mp h.mem).2.2⟩
  · rintro ⟨hbuilt, hlt⟩
    induction hbuilt with
    | root _ hq => exact absurd (List.mem_singleton.mp hq) hsid
    | orphan hs hq => exact .orphan ((mem_below_iff hk hb).mpr ⟨hs, hsid, hlt⟩) hq
    | step hs hc hsc ih =>
      rename_i s c
      have hs' := (mem_below_iff hk hb).mpr ⟨hs, hsid, hlt⟩
      by_cases hcid : c.id = id
      · exact .orphan hs' (by rw [hsc, hcid]; exact List.mem_singleton_self _)
      · -- the parent lies below the child, so below the number as well
        exact .step hs' (ih hcid (UInt32.lt_of_le_of_lt (hmono s hs c hc.mem hsc.symm) hlt)) hsc

/-- The states `set_bft_irreversible` leaves keep the `bft` block from decreasing down to a child. -/
theorem BftSet.monotone {index : List (BlockState Key BlockId)} {g : BlockState Key BlockId → BlockState Key BlockId}
    (hk : IdsNodup index) (hmono : BftMonotone index) (hbmem : b ∈ index) (hbid : b.id = id)
    (hbft : b.bftIrreversibleBlocknum ≤ b.blockNum) (hset : ∀ s ∈ index, BftSet index id b.blockNum s (g s)) :
    BftMonotone (index.map g) := by
  rintro _ hc' _ hp' hpc
  obtain ⟨c, hc, rfl⟩ := List.mem_map.mp hc'
  obtain ⟨p, hp, rfl⟩ := List.mem_map.mp hp'
  rw [(id_of_bftSet (hset p hp)).1, (id_of_bftSet (hset c hc)).2] at hpc
  have hpc' := hmono c hc p hp hpc
  rw [UInt32.le_iff_toNat_le] at hpc' hbft ⊢
  by_cases hcid : c.id = id
  · -- the block `id` itself, at its own number `num`
    have hcb : c = b := SubtreeErase.eq_of_key_eq hk hc hbmem (hcid.trans hbid.symm)
    subst hcb
    rw [(hset c hc).1 hcid]
    by_cases hpid : p.id = id
    · rw [SubtreeErase.eq_of_key_eq hk hp hc (hpid.trans hcid.symm), (hset c hc).1 hcid]
    · by_cases hpb : BuiltOnId index id p
      · rw [(hset p hp).2.1 hpid hpb]
        simp only [UInt32.toNat_max]
        omega
      · rw [(hset p hp).2.2 hpb]
        exact le_trans hpc' hbft
  · by_cases hcb : BuiltOnId index id c
    · rw [(hset c hc).2.1 hcid hcb]
      simp only [UInt32.toNat_max]
      by_cases hpid : p.id = id
      · rw [(hset p hp).1 hpid, SubtreeErase.eq_of_key_eq hk hp hbmem (hpid.trans hbid.symm)]
        exact le_max_right _ _
      · by_cases hpb : BuiltOnId index id p
        · rw [(hset p hp).2.1 hpid hpb]
          simp only [UInt32.toNat_max]
          omega
        · rw [(hset p hp).2.2 hpb]
          omega
    · -- a state not built on `id` has no parent built on it
      have hpb : ¬ BuiltOnId index id p := fun hpb => hcb (.step hc hpb hpc.symm)
      rw [(hset c hc).2.2 hcb, (hset p hp).2.2 hpb]
      exact hpc'

/-- The first step keeps the ids. -/
theorem idsNodup_map_markOwnBft {index : List (BlockState Key BlockId)} (hk : IdsNodup index) :
    IdsNodup (index.map (markOwnBft id)) := by
  have hmap : (index.map (markOwnBft id)).map (·.id) = index.map (·.id) := by
    rw [List.map_map]
    exact List.map_congr_left fun s _ => by by_cases h : s.id = id <;> simp [markOwnBft, h]
  unfold IdsNodup SubtreeErase.KeysNodup
  rw [hmap]
  exact hk

/-- Raising after the first step the states the raise reaches makes of each state what `BftSet` says: the block `id`
is not below its own number and stays, a state built on it is raised exactly when it lies below. -/
theorem bftSet_raised (hk : IdsNodup db.index) (hmono : BftMonotone db.index) (hb : db.find id = some b)
    {ks : List BlockId} (hks : ∀ s ∈ db.index, (markOwnBft id s).id ∈ ks ↔ SubtreeErase.Reach (·.id) (·.header.previous)
      ((db.index.map (markOwnBft id)).filter (·.bftIrreversibleBlocknum < b.blockNum)) [id] (markOwnBft id s)) :
    ∀ s ∈ db.index, BftSet db.index id b.blockNum s
      ((fun a => if a.id ∈ ks then raiseBft b.blockNum a else a) (markOwnBft id s)) := by
  intro s hs
  have hmem := hks s hs
  by_cases hsid : s.id = id
  · have hmark : (markOwnBft id s).id = id := by simp [markOwnBft, hsid]
    have hnot : (markOwnBft id s).id ∉ ks := fun h => ((mem_below_iff hk hb).mp (hmem.mp h).mem).2.1 hmark
    refine ⟨fun _ => ?_, fun h => absurd hsid h, fun h => ?_⟩
    · simp only [hnot, if_false]
      simp [markOwnBft, hsid]
    · exact absurd (.root hs (List.mem_singleton.mpr hsid)) h
  · have hms : markOwnBft id s = s := by simp [markOwnBft, hsid]
    rw [hms] at hmem ⊢
    rw [reach_below_iff hk hmono hb hsid] at hmem
    refine ⟨fun h => absurd h hsid, fun _ hbuilt => ?_, fun hbuilt => ?_⟩
    · by_cases hlt : s.bftIrreversibleBlocknum < b.blockNum
      · simp only [hmem.mpr ⟨hbuilt, hlt⟩, if_true, raiseBft, max_bft_of_le (UInt32.le_of_lt hlt)]
      · have hnot : s.id ∉ ks := fun h => hlt (hmem.mp h).2
        simp only [hnot, if_false, max_bft_of_not_lt hlt]
    · have hnot : s.id ∉ ks := fun h => hbuilt (hmem.mp h).1
      simp only [hnot, if_false]

/-- **`set_bft_irreversible`** over an index whose `bft` blocks do not decrease down to a child, for a block whose
`bft` block is at most its number: the block `id` gets its own number, every state built on it the greater of its
`bft` block and that number, every other state is left as it is, and the `bft` blocks still do not decrease down to a
child. -/
theorem set_bft_irreversible_spec (hk : IdsNodup db.index) (hmono : BftMonotone db.index)
    (hb : db.find id = some b) (hbft : b.bftIrreversibleBlocknum ≤ b.blockNum) :
    ∃ db', db.setBftIrreversible id = .ok db' ∧ List.Forall₂ (BftSet db.index id b.blockNum) db.index db'.index ∧
      BftMonotone db'.index := by
  obtain ⟨hbmem, hbid⟩ := find_eq_some hb
  have hk₁ : IdsNodup (db.index.map (markOwnBft id)) := idsNodup_map_markOwnBft hk
  -- the block `id` itself is not below its number, so the raise starts from its children
  have hx : ∀ a ∈ db.index.map (markOwnBft id), a.id = id → decide (a.bftIrreversibleBlocknum < b.blockNum) = false :=
    fun a ha haid => by
      by_contra hlt
      exact ((mem_below_iff hk hb).mp (List.mem_filter.mpr ⟨ha, Bool.not_eq_false _ ▸ hlt⟩)).2.1 haid
  have hbelow : ∀ s : BlockState Key BlockId, decide ((raiseBft b.blockNum s).bftIrreversibleBlocknum < b.blockNum) =
      false := by
    simp [raiseBft]
  have hfuel : [id] ≠ [] → ((db.index.map (markOwnBft id)).filter (·.bftIrreversibleBlocknum < b.blockNum)).length -
      ([] : List BlockId).length < (db.index.map (markOwnBft id)).length + 1 := fun _ => by
    have := List.length_filter_le (·.bftIrreversibleBlocknum < b.blockNum) (db.index.map (markOwnBft id))
    simp only [List.length_nil, Nat.sub_zero]
    omega
  obtain ⟨ks, hinv, hloop⟩ := @SubtreeRaise.loop_raisedBy _ _ _ (·.id) (·.header.previous)
    (fun s : BlockState Key BlockId => decide (s.bftIrreversibleBlocknum < b.blockNum)) (raiseBft b.blockNum) _ _
    (fun _ => rfl) (fun _ => rfl) hbelow hk₁ hx _ _ _ SubtreeRaise.Invariant.start hfuel
  rw [SubtreeRaise.raisedBy_nil] at hloop
  simp only [setBftIrreversible, hb, hloop, Except.ok.injEq, exists_eq_left']
  unfold SubtreeRaise.raisedBy
  rw [List.map_map]
  have hg := bftSet_raised hk hmono hb fun s hs => hinv.mem_iff hk₁ (List.mem_map_of_mem hs)
  exact ⟨List.forall₂_map_right_iff.mpr (List.forall₂_same.mpr hg), BftSet.monotone hk hmono hbmem hbid hbft hg⟩

end Bft

/-- The state numbered `num` with id `id` on the block `previous`, at `bft` block `bft`. -/
def bftBlock (id previous : Nat) (num bft : UInt32) : BlockState Nat Nat :=
  { slotRoot with id, blockNum := num, header := { slotRoot.header with previous }, bftIrreversibleBlocknum := bft }

theorem set_bft_irreversible_spec_chain :
    IdsNodup [bftBlock 1 0 1 0, bftBlock 2 1 2 0] ∧ BftMonotone [bftBlock 1 0 1 0, bftBlock 2 1 2 0] ∧
      (⟨[bftBlock 1 0 1 0, bftBlock 2 1 2 0], none⟩ : ForkDatabase Nat Nat).find 1 = some (bftBlock 1 0 1 0) ∧
      (bftBlock 1 0 1 0).bftIrreversibleBlocknum ≤ (bftBlock 1 0 1 0).blockNum ∧
      ∃ db', (⟨[bftBlock 1 0 1 0, bftBlock 2 1 2 0], none⟩ : ForkDatabase Nat Nat).setBftIrreversible 1 = .ok db' ∧
        List.Forall₂ (BftSet [bftBlock 1 0 1 0, bftBlock 2 1 2 0] 1 (bftBlock 1 0 1 0).blockNum)
          [bftBlock 1 0 1 0, bftBlock 2 1 2 0] db'.index ∧ BftMonotone db'.index := by
  have hk : IdsNodup [bftBlock 1 0 1 0, bftBlock 2 1 2 0] := by decide
  have hmono : BftMonotone [bftBlock 1 0 1 0, bftBlock 2 1 2 0] := by decide
  have hb : (⟨[bftBlock 1 0 1 0, bftBlock 2 1 2 0], none⟩ : ForkDatabase Nat Nat).find 1 = some (bftBlock 1 0 1 0) :=
    rfl
  have hbft : (bftBlock 1 0 1 0).bftIrreversibleBlocknum ≤ (bftBlock 1 0 1 0).blockNum := by decide
  exact ⟨hk, hmono, hb, hbft, set_bft_irreversible_spec hk hmono hb hbft⟩

/-- A block at `bft` block 5 above its number 2, on a parent at `bft` block 5: `set_bft_irreversible` brings the
block down to its own number, below its parent. -/
theorem set_bft_irreversible_breaks_monotone :
    BftMonotone [bftBlock 1 0 1 5, bftBlock 2 1 2 5] ∧
      ∃ db', (⟨[bftBlock 1 0 1 5, bftBlock 2 1 2 5], none⟩ : ForkDatabase Nat Nat).setBftIrreversible 2 = .ok db' ∧
        db'.index.map (·.bftIrreversibleBlocknum) = [5, 2] ∧ ¬ BftMonotone db'.index :=
  ⟨by decide, _, rfl, rfl, by decide⟩

/-! ## `fetch_branch_from` -/

/-- `get_block` of the previous id of a state: its parent in the index. -/
def parentIn (db : ForkDatabase Key BlockId) (s : BlockState Key BlockId) : Option (BlockState Key BlockId) :=
  db.find s.header.previous

/-- Every state of the index is numbered one above the state its previous id names, where that one is in the index.
-/
def NumbersFollowParents (index : List (BlockState Key BlockId)) : Prop :=
  ∀ c ∈ index, ∀ p ∈ index, p.id = c.header.previous → c.blockNum.toNat = p.blockNum.toNat + 1

instance (index : List (BlockState Key BlockId)) : Decidable (NumbersFollowParents index) :=
  inferInstanceAs (Decidable (∀ c ∈ index, ∀ p ∈ index, p.id = c.header.previous →
    c.blockNum.toNat = p.blockNum.toNat + 1))

/-- The first two loops of `fetch_branch_from`: while the state lies above `num`, push it and go to its parent. The
assertion that the parent exists formats the previous id of the null pointer it has just tested. -/
def fetchBranchDown (db : ForkDatabase Key BlockId) (num : UInt32) :
    Nat → BlockState Key BlockId → List (BlockState Key BlockId) →
      Except ForkDatabaseError (BlockState Key BlockId × List (BlockState Key BlockId))
  | 0, _, _ => .error (.undefinedBehavior "fetch_branch_from follows a cycle of previous ids")
  | fuel + 1, s, branch =>
    if num < s.blockNum then
      match db.find s.header.previous with
      | some p => fetchBranchDown db num fuel p (branch ++ [s])
      | none => .error (.undefinedBehavior "fetch_branch_from formats the previous id of a null block")
    else .ok (s, branch)

/-- The last loop of `fetch_branch_from`: while the two states name different previous ids, push both and go to
their parents. -/
def fetchBranchTogether (db : ForkDatabase Key BlockId) :
    Nat → BlockState Key BlockId → BlockState Key BlockId → List (BlockState Key BlockId) →
      List (BlockState Key BlockId) → Except ForkDatabaseError (BlockState Key BlockId × BlockState Key BlockId ×
        List (BlockState Key BlockId) × List (BlockState Key BlockId))
  | 0, _, _, _, _ => .error (.undefinedBehavior "fetch_branch_from follows a cycle of previous ids")
  | fuel + 1, f, s, first, second =>
    if f.header.previous ≠ s.header.previous then
      match db.find f.header.previous, db.find s.header.previous with
      | some f', some s' => fetchBranchTogether db fuel f' s' (first ++ [f]) (second ++ [s])
      | _, _ => .error (.undefinedBehavior "fetch_branch_from formats the previous id of a null block")
    else .ok (f, s, first, second)

/-- `fetch_branch_from(first, second)`: bring the higher of the two blocks down to the number of the other, then both
down together until their previous ids agree, and push the two states reached. `get_block` of a missing id is a null
pointer, whose number the loops read. Each loop is given one turn per state and one more: a walk of more turns
repeats a state, and the source then follows a cycle of previous ids. -/
def fetchBranchFrom (db : ForkDatabase Key BlockId) (first second : BlockId) :
    Except ForkDatabaseError (List (BlockState Key BlockId) × List (BlockState Key BlockId)) :=
  match db.find first, db.find second with
  | some f, some s => do
    let (f, firstBranch) ← db.fetchBranchDown s.blockNum (db.index.length + 1) f []
    let (s, secondBranch) ← db.fetchBranchDown f.blockNum (db.index.length + 1) s []
    let (f, s, firstBranch, secondBranch) ← db.fetchBranchTogether (db.index.length + 1) f s firstBranch secondBranch
    pure (firstBranch ++ [f], secondBranch ++ [s])
  | _, _ => .error (.undefinedBehavior "fetch_branch_from reads the number of a null block")

section Branch

open ParentForest

omit [DecidableEq BlockId] in
theorem gradedOn_parentIn [DecidableEq BlockId] (hnum : NumbersFollowParents db.index) :
    GradedOn (parentIn db) (· ∈ db.index) (·.blockNum.toNat) where
  closed _ _ hab _ := (find_eq_some hab).1
  succ_rank _ b hab hb := hnum b hb _ (find_eq_some hab).1 (find_eq_some hab).2

/-- **The walk down of `fetch_branch_from`.** Above an ancestor-or-self `c` numbered at most `num`, the walk climbs
from `s` to its ancestor-or-self at the lower of its number and `num`, pushing the states it passes. -/
theorem fetchBranchDown_eq (hg : GradedOn (parentIn db) (· ∈ db.index) (·.blockNum.toNat)) {num : UInt32}
    {c : BlockState Key BlockId} (hcn : c.blockNum.toNat ≤ num.toNat) :
    ∀ (fuel : Nat) (s : BlockState Key BlockId) (branch : List (BlockState Key BlockId)), s ∈ db.index →
      AncestorOrSelf (parentIn db) c s → s.blockNum.toNat - num.toNat < fuel →
      ∃ t seg, db.fetchBranchDown num fuel s branch = .ok (t, branch ++ seg) ∧ Climb (parentIn db) s seg t ∧
        t.blockNum.toNat = min s.blockNum.toNat num.toNat ∧ AncestorOrSelf (parentIn db) c t
  | 0, _, _, _, _, hf => absurd hf (Nat.not_lt_zero _)
  | fuel + 1, s, branch, hs, hcs, hf => by
    by_cases hlt : num < s.blockNum
    · rw [UInt32.lt_iff_toNat_lt] at hlt
      -- `c` lies below `s`, so the parent of `s` is in the index
      have hne : c ≠ s := by
        rintro rfl
        omega
      obtain ⟨p, hp, hcp⟩ := (ancestorOrSelf_iff.mp hcs).resolve_left hne
      have hr := hg.succ_rank _ _ hp hs
      obtain ⟨t, seg, heq, hclimb, hrank, hct⟩ :=
        fetchBranchDown_eq hg hcn fuel p (branch ++ [s]) (hg.closed _ _ hp hs) hcp (by omega)
      refine ⟨t, s :: seg, ?_, .up hp hclimb, by omega, hct⟩
      rw [fetchBranchDown, if_pos (UInt32.lt_iff_toNat_lt.mpr hlt)]
      simp only [parentIn] at hp
      simp only [hp, heq, List.append_assoc, List.singleton_append]
    · refine ⟨s, [], ?_, .here s, ?_, hcs⟩
      · rw [fetchBranchDown, if_neg hlt, List.append_nil]
      · rw [UInt32.lt_iff_toNat_lt] at hlt
        omega

/-- **The walk together of `fetch_branch_from`.** Two states at one number above a common ancestor-or-self climb
together until their previous ids agree; the pair they reach has their common ancestors-or-self, and is one state
only when no step was taken. -/
theorem fetchBranchTogether_eq (hk : IdsNodup db.index)
    (hg : GradedOn (parentIn db) (· ∈ db.index) (·.blockNum.toNat)) {c : BlockState Key BlockId} :
    ∀ (fuel : Nat) (f s : BlockState Key BlockId) (first second : List (BlockState Key BlockId)), f ∈ db.index →
      s ∈ db.index → f.blockNum.toNat = s.blockNum.toNat → AncestorOrSelf (parentIn db) c f →
      AncestorOrSelf (parentIn db) c s → f.blockNum.toNat - c.blockNum.toNat < fuel →
      ∃ f' s' segF segS, db.fetchBranchTogether fuel f s first second = .ok (f', s', first ++ segF, second ++ segS) ∧
        Climb (parentIn db) f segF f' ∧ Climb (parentIn db) s segS s' ∧ f'.header.previous = s'.header.previous ∧
        f'.blockNum.toNat = s'.blockNum.toNat ∧ (f' = s' → f' = f ∧ s' = s) ∧
        ∀ x, (AncestorOrSelf (parentIn db) x f ∧ AncestorOrSelf (parentIn db) x s) ↔
          (AncestorOrSelf (parentIn db) x f' ∧ AncestorOrSelf (parentIn db) x s')
  | 0, _, _, _, _, _, _, _, _, _, hfuel => absurd hfuel (Nat.not_lt_zero _)
  | fuel + 1, f, s, first, second, hf, hs, hr, hcf, hcs, hfuel => by
    by_cases hprev : f.header.previous ≠ s.header.previous
    · have hfs : f ≠ s := fun h => hprev (h ▸ rfl)
      obtain ⟨hcf', hcs'⟩ := hg.ne_of_common hf hs hfs hr hcf hcs
      obtain ⟨p, hp, hcp⟩ := (ancestorOrSelf_iff.mp hcf).resolve_left hcf'
      obtain ⟨q, hq, hcq⟩ := (ancestorOrSelf_iff.mp hcs).resolve_left hcs'
      have hrp := hg.succ_rank _ _ hp hf
      have hrq := hg.succ_rank _ _ hq hs
      have hrc := hg.rank_le hcp (hg.closed _ _ hp hf)
      obtain ⟨f', s', segF, segS, heq, hclf, hcls, hprev', hr', hsame, hcommon⟩ :=
        fetchBranchTogether_eq hk hg fuel p q (first ++ [f]) (second ++ [s]) (hg.closed _ _ hp hf)
          (hg.closed _ _ hq hs) (by omega) hcp hcq (by omega)
      refine ⟨f', s', f :: segF, s :: segS, ?_, .up hp hclf, .up hq hcls, hprev', hr', fun h => ?_, fun x => ?_⟩
      · rw [fetchBranchTogether, if_pos hprev]
        simp only [parentIn] at hp hq
        simp only [hp, hq, heq, List.append_assoc, List.singleton_append]
      · -- the parents have the two different previous ids
        obtain ⟨rfl, rfl⟩ := hsame h
        exact absurd ((find_eq_some hp).2.symm.trans (congrArg (·.id) h) |>.trans (find_eq_some hq).2) hprev
      · exact (hg.common_iff_parents hf hs hfs hr hp hq).trans (hcommon x)
    · refine ⟨f, s, [], [], ?_, .here f, .here s, not_not.mp hprev, hr, fun _ => ⟨rfl, rfl⟩, fun _ => Iff.rfl⟩
      rw [fetchBranchTogether, if_neg hprev, List.append_nil, List.append_nil]

/-- Two different states at one number with one previous id and a common ancestor-or-self: their parent is in the
index, the same for both, and their common ancestors-or-self are its ancestors-or-self. -/
theorem meet_of_previous_eq (hk : IdsNodup db.index) (hg : GradedOn (parentIn db) (· ∈ db.index) (·.blockNum.toNat))
    {f s c : BlockState Key BlockId} (hf : f ∈ db.index) (hs : s ∈ db.index) (hr : f.blockNum.toNat = s.blockNum.toNat)
    (hne : f ≠ s) (hprev : f.header.previous = s.header.previous) (hcf : AncestorOrSelf (parentIn db) c f)
    (hcs : AncestorOrSelf (parentIn db) c s) :
    ∃ p, parentIn db f = some p ∧ parentIn db s = some p ∧
      ∀ x, (AncestorOrSelf (parentIn db) x f ∧ AncestorOrSelf (parentIn db) x s) ↔ AncestorOrSelf (parentIn db) x p := by
  obtain ⟨hcf', hcs'⟩ := hg.ne_of_common hf hs hne hr hcf hcs
  obtain ⟨p, hp, -⟩ := (ancestorOrSelf_iff.mp hcf).resolve_left hcf'
  obtain ⟨q, hq, -⟩ := (ancestorOrSelf_iff.mp hcs).resolve_left hcs'
  -- the parents have one id, so they are one state
  have hpq : p = q := SubtreeErase.eq_of_key_eq hk (find_eq_some hp).1 (find_eq_some hq).1
    (by rw [(find_eq_some hp).2, (find_eq_some hq).2, hprev])
  subst hpq
  exact ⟨p, hp, hq, fun x => (hg.common_iff_parents hf hs hne hr hp hq).trans and_self_iff⟩

/-- **`fetch_branch_from`** of two blocks with a common ancestor-or-self, in an index with unique ids whose states are
numbered one above their parents: two parent chains from the two blocks, whose last states have one previous id. It
is the id of the deepest common ancestor-or-self `d` of the blocks; when one block is an ancestor-or-self of the
other, `d` is that block and both chains end at it. -/
theorem fetch_branch_from_meets (hk : IdsNodup db.index) (hnum : NumbersFollowParents db.index)
    {first second : BlockId} {a b c : BlockState Key BlockId} (ha : db.find first = some a)
    (hb : db.find second = some b) (hca : AncestorOrSelf (parentIn db) c a) (hcb : AncestorOrSelf (parentIn db) c b) :
    ∃ A B, db.fetchBranchFrom first second = .ok (A, B) ∧ A.head? = some a ∧ B.head? = some b ∧
      A.IsChain (fun x y => y.id = x.header.previous) ∧ B.IsChain (fun x y => y.id = x.header.previous) ∧
      ∃ fa fb d, A.getLast? = some fa ∧ B.getLast? = some fb ∧ fa.header.previous = fb.header.previous ∧
        d ∈ db.index ∧ DeepestCommonAncestor (parentIn db) d a b ∧
        ((d ≠ a ∧ d ≠ b ∧ fa.header.previous = d.id) ∨ ((d = a ∨ d = b) ∧ fa = d ∧ fb = d)) := by
  have hg := gradedOn_parentIn hnum
  obtain ⟨ha', -⟩ := find_eq_some ha
  obtain ⟨hb', -⟩ := find_eq_some hb
  have hrca := hg.rank_le hca ha'
  have hrcb := hg.rank_le hcb hb'
  have hla := hg.rank_sub_lt_length hca ha'
  have hlb := hg.rank_sub_lt_length hcb hb'
  -- the first loop brings `a` down to the number of `b`, the second `b` down to that of the state reached
  obtain ⟨f, segA, h₁, hclA, hrf, hcf⟩ :=
    fetchBranchDown_eq hg hrcb (db.index.length + 1) a [] ha' hca (by omega)
  have hf := hg.present_of_ancestorOrSelf hclA.ancestorOrSelf ha'
  obtain ⟨s, segB, h₂, hclB, hrs, hcs⟩ :=
    fetchBranchDown_eq hg (hg.rank_le hcf hf) (db.index.length + 1) b [] hb' hcb (by omega)
  have hs := hg.present_of_ancestorOrSelf hclB.ancestorOrSelf hb'
  have hlf := hg.rank_sub_lt_length hcf hf
  obtain ⟨f', s', segF, segS, h₃, hclF, hclS, hprev, hr', hsame, hcommon⟩ :=
    fetchBranchTogether_eq hk hg (db.index.length + 1) f s segA segB hf hs (by omega) hcf hcs (by omega)
  rw [List.nil_append] at h₁ h₂
  have hrun : db.fetchBranchFrom first second = .ok (segA ++ segF ++ [f'], segB ++ segS ++ [s']) := by
    simp only [fetchBranchFrom, ha, hb, h₁, bind, Except.bind, h₂, h₃]
    rfl
  -- the common ancestors-or-self of `a` and `b` are those of `f` and `s`, then of `f'` and `s'`
  have hab : ∀ x, (AncestorOrSelf (parentIn db) x a ∧ AncestorOrSelf (parentIn db) x b) ↔
      (AncestorOrSelf (parentIn db) x f' ∧ AncestorOrSelf (parentIn db) x s') := fun x =>
    (hg.common_iff_of_rank ha' hb' hclA.ancestorOrSelf hclB.ancestorOrSelf hrf (by omega)).trans (hcommon x)
  have hA := hclA.append hclF
  have hB := hclB.append hclS
  refine ⟨_, _, hrun, hA.head, hB.head, hA.isChain.imp fun _ _ h => (find_eq_some h).2,
    hB.isChain.imp fun _ _ h => (find_eq_some h).2, f', s', ?_⟩
  by_cases hfs : f' = s'
  · -- no step was taken together, and `f` is `s`: the lower of `a` and `b`
    obtain ⟨hff, hss⟩ := hsame hfs
    have hd : DeepestCommonAncestor (parentIn db) f' a b :=
      deepestCommonAncestor_of_iff fun x => (hab x).trans (by rw [← hfs, and_self_iff])
    refine ⟨f', by simp, by simp, hprev, hff ▸ hf, hd, .inr ⟨?_, rfl, hfs.symm⟩⟩
    by_cases hle : a.blockNum.toNat ≤ b.blockNum.toNat
    · exact .inl (hff ▸ hg.eq_of_rank_eq hclA.ancestorOrSelf (ancestorOrSelf_refl a) ha' (by omega))
    · rw [hfs, hss]
      exact .inr (hg.eq_of_rank_eq hclB.ancestorOrSelf (ancestorOrSelf_refl b) hb' (by omega))
  · have hf' := hg.present_of_ancestorOrSelf hclF.ancestorOrSelf hf
    have hs' := hg.present_of_ancestorOrSelf hclS.ancestorOrSelf hs
    obtain ⟨hcf', hcs'⟩ := (hab c).mp ⟨hca, hcb⟩
    obtain ⟨p, hp, -, hp'⟩ := meet_of_previous_eq hk hg hf' hs' hr' hfs hprev hcf' hcs'
    -- `p` lies below `f'` and `s'`, so below `a` and `b`
    have hrp := hg.succ_rank _ _ hp hf'
    have hrfa := hg.rank_le (hclF.ancestorOrSelf.trans hclA.ancestorOrSelf) ha'
    have hrsb := hg.rank_le (hclS.ancestorOrSelf.trans hclB.ancestorOrSelf) hb'
    refine ⟨p, by simp, by simp, hprev, (find_eq_some hp).1, deepestCommonAncestor_of_iff fun x => (hab x).trans (hp' x),
      .inl ⟨?_, ?_, (find_eq_some hp).2.symm⟩⟩
    · rintro rfl
      omega
    · rintro rfl
      omega

end Branch

/-- Blocks 2 and 3, both numbered 2, on block 1. -/
def siblingsDb : ForkDatabase Nat Nat := ⟨[bftBlock 1 0 1 0, bftBlock 2 1 2 0, bftBlock 3 1 2 0], none⟩

theorem fetch_branch_from_meets_siblings :
    IdsNodup siblingsDb.index ∧ NumbersFollowParents siblingsDb.index ∧
      siblingsDb.find 2 = some (bftBlock 2 1 2 0) ∧ siblingsDb.find 3 = some (bftBlock 3 1 2 0) ∧
      ParentForest.AncestorOrSelf (parentIn siblingsDb) (bftBlock 1 0 1 0) (bftBlock 2 1 2 0) ∧
      ParentForest.AncestorOrSelf (parentIn siblingsDb) (bftBlock 1 0 1 0) (bftBlock 3 1 2 0) ∧
      ∃ A B, siblingsDb.fetchBranchFrom 2 3 = .ok (A, B) ∧ A.head? = some (bftBlock 2 1 2 0) ∧
        B.head? = some (bftBlock 3 1 2 0) ∧ A.IsChain (fun x y => y.id = x.header.previous) ∧
        B.IsChain (fun x y => y.id = x.header.previous) ∧
        ∃ fa fb d, A.getLast? = some fa ∧ B.getLast? = some fb ∧ fa.header.previous = fb.header.previous ∧
          d ∈ siblingsDb.index ∧
          ParentForest.DeepestCommonAncestor (parentIn siblingsDb) d (bftBlock 2 1 2 0) (bftBlock 3 1 2 0) ∧
          ((d ≠ bftBlock 2 1 2 0 ∧ d ≠ bftBlock 3 1 2 0 ∧ fa.header.previous = d.id) ∨
            ((d = bftBlock 2 1 2 0 ∨ d = bftBlock 3 1 2 0) ∧ fa = d ∧ fb = d)) := by
  have hk : IdsNodup siblingsDb.index := by decide
  have hnum : NumbersFollowParents siblingsDb.index := by decide
  have ha : siblingsDb.find 2 = some (bftBlock 2 1 2 0) := rfl
  have hb : siblingsDb.find 3 = some (bftBlock 3 1 2 0) := rfl
  have hca : ParentForest.AncestorOrSelf (parentIn siblingsDb) (bftBlock 1 0 1 0) (bftBlock 2 1 2 0) :=
    Relation.ReflTransGen.single (show parentIn siblingsDb (bftBlock 2 1 2 0) = some (bftBlock 1 0 1 0) from rfl)
  have hcb : ParentForest.AncestorOrSelf (parentIn siblingsDb) (bftBlock 1 0 1 0) (bftBlock 3 1 2 0) :=
    Relation.ReflTransGen.single (show parentIn siblingsDb (bftBlock 3 1 2 0) = some (bftBlock 1 0 1 0) from rfl)
  exact ⟨hk, hnum, ha, hb, hca, hcb, fetch_branch_from_meets hk hnum ha hb hca hcb⟩

/-- Blocks numbered 3 and 2 on the block numbered 1: with numbers that skip, the first loop brings block 2 below the
number of block 3, and both branches end at their common parent itself, whose previous id is not its own. -/
theorem fetch_branch_from_skipped_number :
    ¬ NumbersFollowParents [bftBlock 1 0 1 0, bftBlock 2 1 3 0, bftBlock 3 1 2 0] ∧
      (⟨[bftBlock 1 0 1 0, bftBlock 2 1 3 0, bftBlock 3 1 2 0], none⟩ : ForkDatabase Nat Nat).fetchBranchFrom 2 3 =
        .ok ([bftBlock 2 1 3 0, bftBlock 1 0 1 0], [bftBlock 3 1 2 0, bftBlock 1 0 1 0]) ∧
      (bftBlock 1 0 1 0).header.previous ≠ (bftBlock 1 0 1 0).id :=
  ⟨by decide, rfl, by decide⟩

end ForkDatabase

end Gstio.Chain
