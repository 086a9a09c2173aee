import Mathlib
import Gstio.Chain.ForkDatabase
import Gstio.Chain.DposIrreversibility

/-!
# The irreversible blocks of the fork database

Between calls, every state of the index hangs from the last state emitted through `irreversible` (`Wf`): its parent
is in the index one block below it, or it is a child of that last state, or, before any emission, it is the root set
at start. Every state lies above the last emitted one, the ids are unique and the index is sorted.

A `prune` from `add` emits the first state, which hangs from the last emitted one since its parent cannot lie below
it (`Wf.prune`); `remove` takes states away together with what is built on them (`Wf.remove`); the flags that
`mark_in_current_chain` and `set_validity` change are not read (`Wf.of_shape`). So the emitted states form one chain
of parent links with rising block numbers (`irreversible_single_chain`).

The last loop of `prune` can read a state that its own `remove` erased (`prune_reads_erased_iterator`).
-/

namespace Gstio.Chain

namespace BlockHeaderState

variable {Key BlockId : Type} [Inhabited Key] [Inhabited BlockId] [DecidableEq Key] [DecidableEq BlockId]
  (headerId : SignedBlockHeader Key BlockId → BlockId) {s s' : BlockHeaderState Key BlockId}
  {h : SignedBlockHeader Key BlockId} {skip : Bool}

/-- A step builds on `s`: its header names `s` as the previous block. -/
theorem previous_next (hn : s.next headerId h skip = .ok s') : s'.header.previous = s.id := by
  obtain ⟨-, -, -, prokey, q, -, -, -, -, hnp, -, rfl⟩ := next_eq_ok headerId hn
  have hconf : ((s.generateNextFor h.timestamp prokey).setConfirmed h.confirmed).header.previous = s.id := by
    obtain ⟨p, cc, hsc, -⟩ := setConfirmed_eq (s.generateNextFor h.timestamp prokey) h.confirmed
    rw [hsc]
    rfl
  -- neither a promotion nor a proposed schedule touches the header's previous block
  have hprom :
      (((s.generateNextFor h.timestamp prokey).setConfirmed h.confirmed).maybePromotePending).1.header.previous =
        s.id := by
    rcases maybePromotePending_cases ((s.generateNextFor h.timestamp prokey).setConfirmed h.confirmed) with
      ⟨-, hpm⟩ | ⟨-, hpm⟩ <;> rw [hpm] <;> exact hconf
  rcases hnp with ⟨-, rfl⟩ | ⟨np, -, -, hset⟩
  · exact hprom
  · obtain ⟨-, -, rfl⟩ := setNewProducers_eq_ok hset
    exact hprom

end BlockHeaderState

namespace ForkDatabase

variable {Key BlockId : Type} [DecidableEq BlockId]

/-- `b` hangs in `index` from the last emitted state: its parent is in `index` one block below it, or it is a child
of the last emitted state, or nothing was emitted yet and it is the root. -/
def Hangs (rootId : BlockId) (index : List (BlockState Key BlockId)) (last : Option (BlockState Key BlockId))
    (b : BlockState Key BlockId) : Prop :=
  (∃ p ∈ index, p.id = b.header.previous ∧ b.blockNum.toNat = p.blockNum.toNat + 1) ∨
    (∃ e ∈ last, b.header.previous = e.id ∧ b.blockNum.toNat = e.blockNum.toNat + 1) ∨
    (last = none ∧ b.id = rootId)

/-- **The invariant of the fork database** between calls, with `last` the last state emitted. -/
structure Wf (rootId : BlockId) (db : ForkDatabase Key BlockId) (last : Option (BlockState Key BlockId)) : Prop where
  ids_nodup : IdsNodup db.index
  sorted : OrderedIndex.Sorted byBlockNum db.index
  above_last : ∀ e ∈ last, ∀ b ∈ db.index, e.blockNum.toNat < b.blockNum.toNat
  hangs : ∀ b ∈ db.index, Hangs rootId db.index last b

variable {rootId : BlockId} {db db' : ForkDatabase Key BlockId} {last : Option (BlockState Key BlockId)}

/-- The first state has no parent in the index: it is a child of the last emitted state, or the root. -/
theorem Wf.hangs_head {h : BlockState Key BlockId} {rest : List (BlockState Key BlockId)} (hw : Wf rootId db last)
    (hidx : db.index = h :: rest) :
    (∃ e ∈ last, h.header.previous = e.id ∧ h.blockNum.toNat = e.blockNum.toNat + 1) ∨
      (last = none ∧ h.id = rootId) := by
  rcases hw.hangs h (hidx ▸ List.mem_cons_self) with ⟨p, hp, -, hhp⟩ | hlast | hroot
  · -- a parent one block below the first state would lie below it
    have hle := blockNum_le_of_byBlockNum_le (OrderedIndex.Sorted.le_of_mem_head (hidx ▸ hw.sorted) (hidx ▸ hp))
    omega
  · exact .inl hlast
  · exact .inr hroot

/-- **Step lemma for `prune`.** Pruning the first state emits it, as a child of the last emitted state one block
above it, and keeps the invariant with it as the last. -/
theorem Wf.prune {h : BlockState Key BlockId} {rest : List (BlockState Key BlockId)}
    {out : List (BlockState Key BlockId)} (hw : Wf rootId db last) (hidx : db.index = h :: rest)
    (hp : db.pruneAt h = .ok (db', out)) :
    out = [h] ∧ Wf rootId db' (some h) ∧ ∀ e ∈ last, e.blockNum < h.blockNum ∧ h.header.previous = e.id := by
  obtain ⟨rfl, hsub, hcl, hgt⟩ := pruneAt_spec hidx hw.ids_nodup hw.sorted hp
  have hsub' : db'.index.Sublist db.index := hidx ▸ hsub.trans (List.sublist_cons_self h rest)
  have hhead := hw.hangs_head hidx
  refine ⟨rfl, ⟨hw.ids_nodup.sublist (hsub'.map _), hw.sorted.sublist hsub', ?_, fun b hb => ?_⟩, ?_⟩
  · rintro e he b hb
    cases he
    exact hgt b hb
  · have hbr := hsub.subset hb
    have hbh : h.blockNum.toNat ≤ b.blockNum.toNat :=
      blockNum_le_of_byBlockNum_le (OrderedIndex.Sorted.le_of_mem_head (hidx ▸ hw.sorted) (List.mem_cons_of_mem h hbr))
    rcases hw.hangs b (hidx ▸ List.mem_cons_of_mem h hbr) with ⟨p, hp, hpb, hnum⟩ | ⟨e, he, -, hnum⟩ | ⟨hnone, hroot⟩
    · -- the parent is the emitted state, or kept with `b`
      rw [hidx] at hp
      rcases List.mem_cons.mp hp with rfl | hp
      · exact .inr (.inl ⟨p, rfl, hpb.symm, hnum⟩)
      · exact .inl ⟨p, hcl b hb p hp hpb, hpb, hnum⟩
    · -- a child of the last emitted state lies at the number of the first state, which `prune` cleared
      have he' := hw.above_last e he h (hidx ▸ List.mem_cons_self)
      have := hgt b hb
      omega
    · -- before any emission the first state is the root, and no other state has its id
      rcases hhead with ⟨e, he, -⟩ | ⟨-, hhroot⟩
      · rw [hnone] at he
        cases he
      · have hnd := List.nodup_cons.mp (hidx ▸ hw.ids_nodup : IdsNodup (h :: rest))
        exact absurd (List.mem_map.mpr ⟨b, hbr, hroot.trans hhroot.symm⟩) hnd.1
  · intro e he
    rcases hhead with ⟨e', he', hprev, -⟩ | ⟨hnone, -⟩
    · rw [he] at he'
      cases he'
      exact ⟨UInt32.lt_iff_toNat_lt.mpr (hw.above_last e he h (hidx ▸ List.mem_cons_self)), hprev⟩
    · rw [hnone] at he
      cases he

/-- `n` is built on a state of the database, one block above it. -/
def BuiltOn (db : ForkDatabase Key BlockId) (n : BlockState Key BlockId) : Prop :=
  ∃ p ∈ db.index, p.id = n.header.previous ∧ n.blockNum.toNat = p.blockNum.toNat + 1

/-- Inserting a state built on a state of the database keeps the invariant. -/
theorem Wf.insert {n : BlockState Key BlockId} {index : List (BlockState Key BlockId)}
    {head : Option (BlockState Key BlockId)} (hw : Wf rootId db last) (hn : BuiltOn db n)
    (hi : insert db.index n = some index) : Wf rootId ⟨index, head⟩ last := by
  obtain ⟨hfresh, rfl⟩ := insert_eq_some hi
  obtain ⟨p, hp, hpn, hnum⟩ := hn
  have hmem : ∀ b, b ∈ db.index.orderedInsert (fun a b => byBlockNum a < byBlockNum b) n ↔ b = n ∨ b ∈ db.index :=
    fun _ => List.mem_orderedInsert _
  have hperm := List.perm_orderedInsert (fun a b => byBlockNum a < byBlockNum b) n db.index
  refine ⟨(hperm.map _).nodup_iff.mpr (List.nodup_cons.mpr ⟨hfresh, hw.ids_nodup⟩),
    hw.sorted.orderedInsert_lt n, fun e he b hb => ?_, fun b hb => ?_⟩
  · rcases (hmem b).mp hb with rfl | hb
    · have := hw.above_last e he p hp
      omega
    · exact hw.above_last e he b hb
  · rcases (hmem b).mp hb with rfl | hb
    · exact .inl ⟨p, (hmem p).mpr (.inr hp), hpn, hnum⟩
    · rcases hw.hangs b hb with ⟨q, hq, hqb⟩ | hrest
      · exact .inl ⟨q, (hmem q).mpr (.inr hq), hqb⟩
      · exact .inr hrest

/-- **Step lemma for `remove`.** What is built on a removed state goes with it. -/
theorem Wf.remove {id : BlockId} (hw : Wf rootId db last) (hr : db.remove id = .ok db') : Wf rootId db' last := by
  have hsub := index_remove_sublist hr
  have hcl := closed_remove hw.ids_nodup hr
  refine ⟨hw.ids_nodup.sublist (hsub.map _), hw.sorted.sublist hsub, fun e he b hb => hw.above_last e he b (hsub.subset hb),
    fun b hb => ?_⟩
  rcases hw.hangs b (hsub.subset hb) with ⟨p, hp, hpb, hnum⟩ | hrest
  · exact .inl ⟨p, hcl b hb p hp hpb, hpb, hnum⟩
  · exact .inr hrest

/-- The fields the invariant reads: the id, the previous block and the block number. -/
def shape (s : BlockState Key BlockId) : BlockId × BlockId × UInt32 := (s.id, s.header.previous, s.blockNum)

omit [DecidableEq BlockId] in
/-- A sorted index with the same shapes keeps the invariant. -/
theorem Wf.of_shape {index : List (BlockState Key BlockId)} {head : Option (BlockState Key BlockId)}
    (hw : Wf rootId db last) (hperm : (index.map shape).Perm (db.index.map shape))
    (hs : OrderedIndex.Sorted byBlockNum index) : Wf rootId ⟨index, head⟩ last := by
  -- every state of either index has one of the same shape in the other
  have hto : ∀ b ∈ index, ∃ a ∈ db.index, shape a = shape b := fun b hb =>
    List.mem_map.mp (hperm.subset (List.mem_map_of_mem hb))
  have hfrom : ∀ a ∈ db.index, ∃ b ∈ index, shape b = shape a := fun a ha =>
    List.mem_map.mp (hperm.symm.subset (List.mem_map_of_mem ha))
  have hids : index.map (·.id) = (index.map shape).map Prod.fst := by simp [shape]
  have hids' : db.index.map (·.id) = (db.index.map shape).map Prod.fst := by simp [shape]
  refine ⟨?_, hs, fun e he b hb => ?_, fun b hb => ?_⟩
  · show (index.map (·.id)).Nodup
    rw [hids]
    exact (hperm.map _).nodup_iff.mpr (hids' ▸ hw.ids_nodup)
  · obtain ⟨a, ha, hab⟩ := hto b hb
    simp only [shape, Prod.mk.injEq] at hab
    exact hab.2.2 ▸ hw.above_last e he a ha
  · obtain ⟨a, ha, hab⟩ := hto b hb
    simp only [shape, Prod.mk.injEq] at hab
    obtain ⟨hid, hprev, hnum⟩ := hab
    rcases hw.hangs a ha with ⟨p, hp, hpa, hpnum⟩ | ⟨e, he, hea, henum⟩ | ⟨hnone, hroot⟩
    · obtain ⟨p', hp', hpp⟩ := hfrom p hp
      simp only [shape, Prod.mk.injEq] at hpp
      exact .inl ⟨p', hp', hpp.1.trans (hpa.trans hprev), hnum ▸ hpp.2.2 ▸ hpnum⟩
    · exact .inr (.inl ⟨e, he, hprev ▸ hea, hnum ▸ henum⟩)
    · exact .inr (.inr ⟨hnone, hid ▸ hroot⟩)

/-- **Step lemma for `mark_in_current_chain`.** -/
theorem Wf.markInCurrentChain {h : BlockState Key BlockId} {flag : Bool} (hw : Wf rootId db last)
    (hm : db.markInCurrentChain h flag = .ok db') : Wf rootId db' last := by
  rcases markInCurrentChain_eq_ok hm with rfl | ⟨pre, x, post, hidx, hidx'⟩
  · exact hw
  · have hperm : (db'.index.map shape).Perm (db.index.map shape) := by
      rw [hidx', hidx]
      refine ((OrderedIndex.perm_modify pre post _).map shape).trans ?_
      -- the modified state has the shape of the old one
      rw [List.map_cons, show shape { x with inCurrentChain := flag } = shape x from rfl, ← List.map_cons]
      exact (List.perm_middle.map shape).symm
    exact hw.of_shape hperm (hidx' ▸ (hidx ▸ hw.sorted).modify _)

/-- **Step lemma for `set_validity`.** -/
theorem Wf.setValidity {h : BlockState Key BlockId} {valid : Bool} (hw : Wf rootId db last)
    (hv : db.setValidity h valid = .ok db') : Wf rootId db' last := by
  rcases setValidity_eq_ok hv with ⟨-, hr⟩ | ⟨-, hidx'⟩
  · exact hw.remove hr
  · have hshape : db'.index.map shape = db.index.map shape := by
      rw [hidx', List.map_map]
      congr 1
      funext s
      simp only [Function.comp_apply]
      split <;> rfl
    have hkey : db'.index.map byBlockNum = db.index.map byBlockNum := by
      rw [hidx', List.map_map]
      congr 1
      funext s
      simp only [Function.comp_apply]
      split <;> rfl
    refine hw.of_shape (hshape ▸ List.Perm.refl _) ?_
    have := List.pairwise_map.mpr hw.sorted
    rw [← hkey] at this
    exact List.pairwise_map.mp this

/-- **Step lemma for `add`.** Adding a state built on the database keeps the invariant and emits at most the oldest
state, a child of the last emitted one above it. -/
theorem Wf.add {n : BlockState Key BlockId} {skip : Bool} {out : List (BlockState Key BlockId)}
    (hw : Wf rootId db last) (hn : BuiltOn db n) (ha : db.add n skip = .ok (db', out)) :
    out.length ≤ 1 ∧ Wf rootId db' (out.getLast?.or last) ∧
      ∀ e ∈ out, ∀ l ∈ last, l.blockNum < e.blockNum ∧ e.header.previous = l.id := by
  obtain ⟨index, head, hins, -, hcases⟩ := add_eq_ok ha
  have hw' : Wf rootId ⟨index, some head⟩ last := hw.insert hn hins
  rcases hcases with ⟨rfl, rfl⟩ | ⟨oldest, hold, hp⟩
  · exact ⟨Nat.zero_le _, hw', fun _ he => absurd he List.not_mem_nil⟩
  · obtain ⟨rest, hidx⟩ : ∃ rest, index = oldest :: rest := by
      cases index with
      | nil => cases hold
      | cons x rest =>
        cases hold
        exact ⟨rest, rfl⟩
    obtain ⟨rfl, hw'', hchain⟩ := hw'.prune hidx hp
    refine ⟨Nat.le_refl _, hw'', fun e he => ?_⟩
    rw [List.mem_singleton.mp he]
    exact hchain

variable [Inhabited Key] [Inhabited BlockId] [DecidableEq Key] (headerId : SignedBlockHeader Key BlockId → BlockId)

/-- The state `next` builds on a state of the database lies one block above it, below `2^32`. -/
theorem builtOn_ofNext {prior n : BlockState Key BlockId} {b : SignedBlockHeader Key BlockId} {skip : Bool}
    (hf : db.find b.previous = some prior) (hn : BlockState.ofNext headerId prior b skip = .ok n)
    (hnum : prior.blockNum.toNat + 1 < 2 ^ 32) : BuiltOn db n := by
  simp only [BlockState.ofNext, bind, Except.bind_eq_ok, pure, Except.pure, Except.ok.injEq] at hn
  obtain ⟨s, hs, rfl⟩ := hn
  obtain ⟨hp, -⟩ := find_eq_some hf
  obtain ⟨-, -, -, -, -, -, hbn, -⟩ := BlockHeaderState.next_fields headerId hs
  refine ⟨prior, hp, (BlockHeaderState.previous_next headerId hs).symm, ?_⟩
  show s.blockNum.toNat = _
  rw [hbn, UInt32.toNat_add, UInt32.toNat_one, Nat.mod_eq_of_lt hnum]

/-- What the theorem asks of a call: an added state is built on a state of the database one block above it, and an
added block does not take the block number past `2^32 - 1`. -/
def Call.Admissible (db : ForkDatabase Key BlockId) : Call Key BlockId → Prop
  | .add n _ => BuiltOn db n
  | .addBlock b _ => ∀ p ∈ db.find b.previous, p.blockNum.toNat + 1 < 2 ^ 32
  | _ => True

instance (db : ForkDatabase Key BlockId) (c : Call Key BlockId) : Decidable (c.Admissible db) := by
  cases c <;> unfold Call.Admissible BuiltOn <;> infer_instance

/-- **Step lemma.** An admissible call that returns keeps the invariant and emits at most one state, a child of the
last emitted one above it. -/
theorem Wf.call {c : Call Key BlockId} {out : List (BlockState Key BlockId)} (hw : Wf rootId db last)
    (hc : c.Admissible db) (h : db.call headerId c = .ok (db', out)) :
    out.length ≤ 1 ∧ Wf rootId db' (out.getLast?.or last) ∧
      ∀ e ∈ out, ∀ l ∈ last, l.blockNum < e.blockNum ∧ e.header.previous = l.id := by
  -- the calls that emit nothing keep `last`
  have hquiet : ∀ {db'' : ForkDatabase Key BlockId}, Wf rootId db'' last → out = [] →
      out.length ≤ 1 ∧ Wf rootId db'' (out.getLast?.or last) ∧
        ∀ e ∈ out, ∀ l ∈ last, l.blockNum < e.blockNum ∧ e.header.previous = l.id := by
    rintro db'' hw'' rfl
    exact ⟨Nat.zero_le _, hw'', fun _ he => absurd he List.not_mem_nil⟩
  cases c with
  | add n skip => exact hw.add hc h
  | addBlock b skip =>
    obtain ⟨prior, n, hf, hn, ha⟩ := addBlock_eq_ok h
    exact hw.add (builtOn_ofNext headerId hf hn (hc prior hf)) ha
  | remove id =>
    obtain ⟨db₁, hr, he⟩ := Except.map_eq_ok.mp h
    cases he
    exact hquiet (hw.remove hr) rfl
  | markInCurrentChain s flag =>
    obtain ⟨db₁, hm, he⟩ := Except.map_eq_ok.mp h
    cases he
    exact hquiet (hw.markInCurrentChain hm) rfl
  | setValidity s valid =>
    obtain ⟨db₁, hv, he⟩ := Except.map_eq_ok.mp h
    cases he
    exact hquiet (hw.setValidity hv) rfl

/-- Admissible calls that return, from `db` to `db'`, with the states they emit in order. -/
inductive Run : ForkDatabase Key BlockId → ForkDatabase Key BlockId → List (BlockState Key BlockId) → Prop
  | refl (db : ForkDatabase Key BlockId) : Run db db []
  | tail {db₁ db₂ db₃ : ForkDatabase Key BlockId} {out₁ out₂ : List (BlockState Key BlockId)} (c : Call Key BlockId) :
      Run db₁ db₂ out₁ → c.Admissible db₂ → db₂.call headerId c = .ok (db₃, out₂) → Run db₁ db₃ (out₁ ++ out₂)

/-- **Run lemma.** Along a run the invariant holds with the last emitted state, and each emitted state is a child of
the one before, one block above it. -/
theorem Wf.run {db₀ : ForkDatabase Key BlockId} {out : List (BlockState Key BlockId)} (h0 : Wf rootId db₀ none)
    (hrun : Run headerId db₀ db out) :
    Wf rootId db out.getLast? ∧ out.IsChain (fun a b => a.blockNum < b.blockNum ∧ b.header.previous = a.id) := by
  induction hrun with
  | refl => exact ⟨h0, List.isChain_nil⟩
  | @tail _ _ out₁ out₂ c _ hc hcall ih =>
    obtain ⟨hw, hchain⟩ := ih
    obtain ⟨hlen, hw', hnew⟩ := hw.call headerId hc hcall
    -- a call emits nothing, or one state after the last
    cases out₂ with
    | nil => simpa using ⟨hw', hchain⟩
    | cons e t =>
      cases t with
      | cons _ _ => simp at hlen
      | nil =>
        refine ⟨by simpa using hw', List.isChain_append.mpr ⟨hchain, List.isChain_singleton e, ?_⟩⟩
        intro l hl e' he'
        cases he'
        exact hnew e List.mem_cons_self l hl

omit [Inhabited Key] [Inhabited BlockId] [DecidableEq Key] in
/-- After `set` of a root on an empty database, the root is the only state. -/
theorem index_set_empty (root : BlockState Key BlockId) : (empty.set headerId root).1.index = [root] := by
  have hins : insert ([] : List (BlockState Key BlockId)) root = some [root] := rfl
  simp only [set, empty, hins]
  split <;> [rfl; split <;> rfl]

omit [Inhabited Key] [Inhabited BlockId] [DecidableEq Key] in
theorem wf_set_empty (root : BlockState Key BlockId) : Wf root.id (empty.set headerId root).1 none := by
  have hidx := index_set_empty headerId root
  refine ⟨by simp [hidx, IdsNodup, SubtreeErase.KeysNodup], by simp [hidx, OrderedIndex.Sorted],
    fun e he => absurd he (Option.not_mem_none e), fun b hb => ?_⟩
  rw [hidx, List.mem_singleton] at hb
  exact .inr (.inr ⟨rfl, hb ▸ rfl⟩)

/-- **The emitted states form one chain.** Over every run of admissible calls from a root set on an empty database,
the states emitted through `irreversible` have strictly rising block numbers and each names the one before as its
previous block; every state left lies above all of them and hangs from the last one, so a state below or at an
emitted number went with everything built on it. -/
theorem irreversible_single_chain (root : BlockState Key BlockId) {db : ForkDatabase Key BlockId}
    {out : List (BlockState Key BlockId)} (hrun : Run headerId (empty.set headerId root).1 db out) :
    (out.map (·.blockNum)).Pairwise (· < ·) ∧ out.IsChain (fun a b => b.header.previous = a.id) ∧
      (∀ e ∈ out, ∀ b ∈ db.index, e.blockNum < b.blockNum) ∧
      ∀ b ∈ db.index, Hangs root.id db.index out.getLast? b := by
  obtain ⟨hw, hchain⟩ := (wf_set_empty headerId root).run headerId hrun
  have hlt : (out.map (·.blockNum)).Pairwise (· < ·) := by
    rw [← List.isChain_iff_pairwise, List.isChain_map]
    exact hchain.imp fun _ _ h => h.1
  refine ⟨hlt, hchain.imp fun _ _ h => h.2, fun e he b hb => ?_, hw.hangs⟩
  -- every emitted state is at most the last one, which lies below every state left
  obtain ⟨l, hl⟩ : ∃ l, out.getLast? = some l :=
    Option.isSome_iff_exists.mp (List.getLast?_isSome.mpr (List.ne_nil_of_mem he))
  have hlb : l.blockNum < b.blockNum := UInt32.lt_iff_toNat_lt.mpr (hw.above_last l hl b hb)
  obtain ⟨init, rfl⟩ := List.getLast?_eq_some_iff.mp hl
  rcases List.mem_append.mp he with he | he
  · rw [List.map_append, List.pairwise_append] at hlt
    exact UInt32.lt_trans (hlt.2.2 _ (List.mem_map_of_mem he) _ (by simp)) hlb
  · rw [List.mem_singleton.mp he]
    exact hlb

/-- A run that starts with a call. -/
theorem Run.head {db₁ db₂ db₃ : ForkDatabase Key BlockId} {out₁ out₂ : List (BlockState Key BlockId)}
    {c : Call Key BlockId} (hc : c.Admissible db₁) (hcall : db₁.call headerId c = .ok (db₂, out₁))
    (hrun : Run headerId db₂ db₃ out₂) : Run headerId db₁ db₃ (out₁ ++ out₂) := by
  induction hrun with
  | refl => simpa using Run.tail c (.refl db₁) hc hcall
  | tail c' _ hc' hcall' ih => simpa using ih.tail c' hc' hcall'

/-- The calls in order, while each is admissible and returns, with what they emit. -/
def runCalls (db : ForkDatabase Key BlockId) :
    List (Call Key BlockId) → Option (ForkDatabase Key BlockId × List (BlockState Key BlockId))
  | [] => some (db, [])
  | c :: cs =>
    if c.Admissible db then
      match db.call headerId c with
      | .ok (db', out) => (runCalls db' cs).map fun r => (r.1, out ++ r.2)
      | .error _ => none
    else none

theorem run_of_runCalls : ∀ {db db' : ForkDatabase Key BlockId} {cs : List (Call Key BlockId)}
    {out : List (BlockState Key BlockId)}, runCalls headerId db cs = some (db', out) → Run headerId db db' out
  | db, _, [], _, h => by
    cases h
    exact .refl db
  | db, _, c :: cs, _, h => by
    unfold runCalls at h
    split at h
    · rename_i hc
      split at h
      · rename_i db₁ out₁ hcall
        obtain ⟨⟨db₂, out₂⟩, hrest, he⟩ := Option.map_eq_some_iff.mp h
        cases he
        exact Run.head headerId hc hcall (run_of_runCalls hrest)
      · cases h
    · cases h

end ForkDatabase

/-! ## A fork in irreversible read mode

The root at slot 1, as the controller sets it: valid and in the current chain. Blocks 2 at slots 2 and 3 fork from it;
block 3 at slot 4 builds on the second, and its irreversible block 2 prunes the root. Block 3 at slot 5 builds on the
first. Nothing else is marked in the current chain, as when blocks are only added. -/

namespace ForkDatabase

open BlockHeaderState

/-- The root: the genesis state at slot 1. -/
def slotRoot : BlockState Nat Nat :=
  { toBlockHeaderState := slotGenesis, bftIrreversibleBlocknum := 0, validated := false, inCurrentChain := false }

/-- `gstio`'s block at `slot` on the block with id `previous`, confirming none. -/
def gstioBlock (slot : UInt32) (previous : Nat) : SignedBlockHeader Nat Nat :=
  signedHeader slot systemAccountName 0 previous 0 none 0

/-- The calls of the controller at start and for the first four blocks. -/
def forkCalls : List (Call Nat Nat) :=
  [.setValidity slotRoot true, .markInCurrentChain slotRoot true, .addBlock (gstioBlock 2 1) false,
   .addBlock (gstioBlock 3 1) false, .addBlock (gstioBlock 4 3) false, .addBlock (gstioBlock 5 2) false]

theorem irreversible_single_chain_forkCalls :
    ∃ db out, Run slotId (empty.set slotId slotRoot).1 db out ∧ out ≠ [] ∧
      (out.map (·.blockNum)).Pairwise (· < ·) ∧ out.IsChain (fun a b => b.header.previous = a.id) ∧
      (∀ e ∈ out, ∀ b ∈ db.index, e.blockNum < b.blockNum) ∧
      ∀ b ∈ db.index, Hangs slotRoot.id db.index out.getLast? b := by
  obtain ⟨⟨db, out⟩, hcalls⟩ : ∃ r, runCalls slotId (empty.set slotId slotRoot).1 forkCalls = some r := ⟨_, rfl⟩
  have hout : ((runCalls slotId (empty.set slotId slotRoot).1 forkCalls).map (·.2.length)) = some 1 := by decide
  rw [hcalls] at hout
  have hrun := run_of_runCalls slotId hcalls
  refine ⟨db, out, hrun, fun h => by simp [h] at hout, irreversible_single_chain slotId slotRoot hrun⟩

/-- The next block, at slot 6 on the block at slot 5, lifts the irreversible block to 3. `prune` emits the first
block 2 and erases it; its iterator then moves from the other block 2 to the first state at 3, the block at slot 4
built on it, which `remove` of that block 2 erases before the loop reads it again. -/
theorem prune_reads_erased_iterator :
    ∃ db out, Run slotId (empty.set slotId slotRoot).1 db out ∧
      (Call.addBlock (gstioBlock 6 5) false).Admissible db ∧
      db.call slotId (.addBlock (gstioBlock 6 5) false) =
        .error (.undefinedBehavior "prune reads an iterator whose state remove() erased") := by
  obtain ⟨⟨db, out⟩, hcalls⟩ : ∃ r, runCalls slotId (empty.set slotId slotRoot).1 forkCalls = some r := ⟨_, rfl⟩
  have hnext : (runCalls slotId (empty.set slotId slotRoot).1 forkCalls).map
      (fun r => (decide ((Call.addBlock (gstioBlock 6 5) false).Admissible r.1),
        r.1.call slotId (.addBlock (gstioBlock 6 5) false))) =
      some (true, .error (.undefinedBehavior "prune reads an iterator whose state remove() erased")) := rfl
  rw [hcalls, Option.map_some, Option.some.injEq, Prod.mk.injEq, decide_eq_true_eq] at hnext
  exact ⟨db, out, run_of_runCalls slotId hcalls, hnext⟩

end ForkDatabase

end Gstio.Chain
