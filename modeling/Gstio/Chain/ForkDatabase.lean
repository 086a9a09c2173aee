import Mathlib
import Gstio.Chain.BlockHeaderState
import Gstio.Lib.OrderedIndex
import Gstio.Lib.SubtreeErase

/-!
# The fork database (`fork_database.cpp`)

The `fork_multi_index_type` holds `block_state`s, unique by id. Its `by_block_num` index orders them by block number,
the states of the current chain first, ties kept in the order of the index (`OrderedIndex`); the model keeps the
states in that order. `by_lib_block_num` gives the head: the state with the greatest irreversible block, `bft`
irreversible block and block number. `by_prev` is searched only for the children of an id.

`add` inserts a state and, when the oldest state lies below the irreversible block of the head, `prune`s it: the
oldest state is emitted through `irreversible` and erased, and every other state at its number is `remove`d with
what is built on it. `remove` erases breadth first (`SubtreeErase`).

Two reads of the source are undefined: the head of an empty index, and the iterator of `prune`'s last loop, which is
moved on to the next state before `remove` runs and may point at a state that `remove` erases. The model returns
`undefinedBehavior` there.
-/

namespace Gstio.Chain

/-- `block_state`. Its `bft_irreversible_blocknum`, a field of `block_header_state` that only the fork database reads
and that `generate_next` copies from the previous state, is kept here. -/
structure BlockState (Key BlockId : Type) extends BlockHeaderState Key BlockId where
  bftIrreversibleBlocknum : UInt32
  validated : Bool
  inCurrentChain : Bool

/-- `block_state(prev, b, skip_validate_signee)`: `prev.next(b)`, not validated and not in the current chain. -/
def BlockState.ofNext {Key BlockId : Type} [Inhabited Key] [Inhabited BlockId] [DecidableEq Key]
    [DecidableEq BlockId] (headerId : SignedBlockHeader Key BlockId → BlockId) (prev : BlockState Key BlockId)
    (b : SignedBlockHeader Key BlockId) (skipValidateSignee : Bool) :
    Except BlockHeaderStateError (BlockState Key BlockId) := do
  let s ← prev.toBlockHeaderState.next headerId b skipValidateSignee
  pure { toBlockHeaderState := s, bftIrreversibleBlocknum := prev.bftIrreversibleBlocknum, validated := false,
         inCurrentChain := false }

/-- The exceptions of the fork database, with their messages. -/
inductive ForkDatabaseError
  /-- `fork_database_exception` -/
  | forkDatabase (msg : String)
  /-- `unlinkable_block_exception` -/
  | unlinkableBlock (msg : String)
  /-- `fork_db_block_not_found` -/
  | blockNotFound (msg : String)
  /-- An exception of `next`, in the constructor of `block_state`. -/
  | blockHeaderState (e : BlockHeaderStateError)
  /-- A read the source leaves undefined. -/
  | undefinedBehavior (what : String)
  deriving DecidableEq, Repr

/-- `fork_database_impl`: the states in the order of `by_block_num`, and the head. -/
structure ForkDatabase (Key BlockId : Type) where
  index : List (BlockState Key BlockId)
  head : Option (BlockState Key BlockId)

namespace ForkDatabase

variable {Key BlockId : Type} [DecidableEq BlockId]

/-- The key of `by_block_num`: the block number, then the states of the current chain. -/
def byBlockNum (s : BlockState Key BlockId) : Nat ×ₗ Bool := toLex (s.blockNum.toNat, !s.inCurrentChain)

/-- The key of `by_lib_block_num`, whose first state has the greatest. -/
def byLibBlockNum (s : BlockState Key BlockId) : Nat ×ₗ Nat ×ₗ Nat :=
  toLex (s.dposIrreversibleBlocknum.toNat, toLex (s.bftIrreversibleBlocknum.toNat, s.blockNum.toNat))

/-- A database with no state and no head. -/
def empty : ForkDatabase Key BlockId := ⟨[], none⟩

/-- `index.find(id)`. -/
def find (db : ForkDatabase Key BlockId) (id : BlockId) : Option (BlockState Key BlockId) :=
  db.index.find? (·.id = id)

/-- `index.insert(s)`: `none` when a state has the id already, else `s` after the states of its key. -/
def insert (index : List (BlockState Key BlockId)) (s : BlockState Key BlockId) :
    Option (List (BlockState Key BlockId)) :=
  if index.any (·.id = s.id) then none else some (index.orderedInsert (fun a b => byBlockNum a < byBlockNum b) s)

/-- `*index.get<by_lib_block_num>().begin()`. -/
def libBegin (index : List (BlockState Key BlockId)) : Except ForkDatabaseError (BlockState Key BlockId) :=
  match index.argmax byLibBlockNum with
  | some s => .ok s
  | none => .error (.undefinedBehavior "begin() of an empty by_lib_block_num index dereferenced")

/-- `set`: insert, check the id, then move the head up. The state is inserted even when an assertion fails. -/
def set (headerId : SignedBlockHeader Key BlockId → BlockId) (db : ForkDatabase Key BlockId)
    (s : BlockState Key BlockId) : ForkDatabase Key BlockId × Except ForkDatabaseError Unit :=
  let (index, inserted) := match insert db.index s with
    | some index => (index, true)
    | none => (db.index, false)
  if s.id ≠ headerId s.header then
    ({ db with index }, .error (.forkDatabase "block state id (${id}) is different from block state header id (${hid})"))
  else if !inserted then
    ({ db with index }, .error (.forkDatabase "unable to insert block state, duplicate state detected"))
  else
    let head := match db.head with
      | none => s
      | some h => if h.blockNum < s.blockNum then s else h
    (⟨index, some head⟩, .ok ())

/-- `remove`: erase `id` and every state built on it, breadth first, then take the head from `by_lib_block_num`.
The fuel is one turn of the queue loop per state and one more, which is enough (`mem_index_remove`). -/
def remove (db : ForkDatabase Key BlockId) (id : BlockId) : Except ForkDatabaseError (ForkDatabase Key BlockId) := do
  let index := SubtreeErase.eraseLoop (·.id) (·.header.previous) (db.index.length + 2) db.index [id]
  let head ← libBegin index
  pure ⟨index, some head⟩

/-- The last loop of `prune`, over the states at `num`, its iterator at the state `nitr` (`none`: the end). The
iterator is moved on before `remove` runs; when `remove` erases the state it points at, the next test reads a freed
node. -/
def pruneLoop : Nat → ForkDatabase Key BlockId → UInt32 → Option (BlockState Key BlockId) →
    Except ForkDatabaseError (ForkDatabase Key BlockId)
  | 0, db, _, _ => .ok db
  | _ + 1, db, _, none => .ok db
  | fuel + 1, db, num, some nitr =>
    match db.find nitr.id with
    | none => .error (.undefinedBehavior "prune reads an iterator whose state remove() erased")
    | some x =>
      if x.blockNum = num then do
        let next := (db.index.dropWhile (·.id ≠ x.id)).tail.head?
        let db ← db.remove x.id
        pruneLoop fuel db num next
      else .ok db

/-- `prune` past its first loop: emit `h` through `irreversible` and erase it, then remove the states at its number.
-/
def pruneAt (db : ForkDatabase Key BlockId) (h : BlockState Key BlockId) :
    Except ForkDatabaseError (ForkDatabase Key BlockId × List (BlockState Key BlockId)) := do
  let num := h.blockNum
  let (db, out) := match db.find h.id with
    | some s => ({ db with index := db.index.filter (·.id ≠ h.id) }, [s])
    | none => (db, [])
  let db ← pruneLoop (db.index.length + 1) db num (db.index.find? (·.blockNum ≥ num))
  pure (db, out)

/-- `prune`: while the first state of `by_block_num` lies below `h`, prune it first. The fuel is one turn per state
and one more. -/
def prune : Nat → ForkDatabase Key BlockId → BlockState Key BlockId →
    Except ForkDatabaseError (ForkDatabase Key BlockId × List (BlockState Key BlockId))
  | 0, db, _ => .ok (db, [])
  | fuel + 1, db, h =>
    match db.index.head? with
    | some b =>
      if b.blockNum < h.blockNum then do
        let (db, out₁) ← prune fuel db b
        let (db, out₂) ← prune fuel db h
        pure (db, out₁ ++ out₂)
      else pruneAt db h
    | none => pruneAt db h

/-- `add(block_state_ptr n, skip_validate_previous)`, with the states it emits. -/
def add (db : ForkDatabase Key BlockId) (n : BlockState Key BlockId) (skipValidatePrevious : Bool) :
    Except ForkDatabaseError (ForkDatabase Key BlockId × List (BlockState Key BlockId)) := do
  Except.assert db.head.isSome (.blockNotFound "no head block set")
  unless skipValidatePrevious do
    Except.assert (db.find n.header.previous).isSome (.unlinkableBlock "unlinkable block")
  let some index := insert db.index n | throw (.forkDatabase "duplicate block added?")
  let head ← libBegin index
  let db : ForkDatabase Key BlockId := ⟨index, some head⟩
  match index.head? with
  | some oldest =>
    if oldest.blockNum < head.dposIrreversibleBlocknum then prune (index.length + 1) db oldest else pure (db, [])
  | none => pure (db, [])

/-- `add(signed_block_ptr b, skip_validate_signee)`: the state built on the previous block, added unchecked. -/
def addBlock [Inhabited Key] [Inhabited BlockId] [DecidableEq Key]
    (headerId : SignedBlockHeader Key BlockId → BlockId) (db : ForkDatabase Key BlockId)
    (b : SignedBlockHeader Key BlockId) (skipValidateSignee : Bool) :
    Except ForkDatabaseError (ForkDatabase Key BlockId × List (BlockState Key BlockId)) := do
  Except.assert db.head.isSome (.blockNotFound "no head block set")
  Except.assert (db.find (headerId b)).isNone (.forkDatabase "we already know about this block")
  let some prior := db.find b.previous | throw (.unlinkableBlock "unlinkable block")
  let result ← (BlockState.ofNext headerId prior b skipValidateSignee).mapError .blockHeaderState
  db.add result true

/-- `set_validity`: an invalid state is removed with what is built on it, a valid one marked. -/
def setValidity (db : ForkDatabase Key BlockId) (h : BlockState Key BlockId) (valid : Bool) :
    Except ForkDatabaseError (ForkDatabase Key BlockId) :=
  if !valid then db.remove h.id
  else .ok { db with index := db.index.map fun s => if s.id = h.id then { s with validated := true } else s }

/-- `mark_in_current_chain`: a modify of the state, which `by_block_num` may move. The pointer `h` the controller
passes is the one the index holds, so its flag is the indexed state's; a pointer the index does not hold keeps its
own flag, and only a change of it reaches the lookup's failure. -/
def markInCurrentChain (db : ForkDatabase Key BlockId) (h : BlockState Key BlockId) (inCurrentChain : Bool) :
    Except ForkDatabaseError (ForkDatabase Key BlockId) :=
  match db.index.dropWhile (·.id ≠ h.id) with
  | [] =>
    if h.inCurrentChain = inCurrentChain then .ok db
    else .error (.blockNotFound "could not find block in fork database")
  | x :: post =>
    if x.inCurrentChain = inCurrentChain then .ok db
    else
      .ok { db with
        index := OrderedIndex.modify byBlockNum (db.index.takeWhile (·.id ≠ h.id)) post { x with inCurrentChain } }

/-- The calls the controller makes on the fork database once its root is set. -/
inductive Call (Key BlockId : Type) where
  | add (n : BlockState Key BlockId) (skipValidatePrevious : Bool)
  | addBlock (b : SignedBlockHeader Key BlockId) (skipValidateSignee : Bool)
  | remove (id : BlockId)
  | markInCurrentChain (h : BlockState Key BlockId) (inCurrentChain : Bool)
  | setValidity (h : BlockState Key BlockId) (valid : Bool)

/-- A call, with the states it emits through `irreversible`. -/
def call [Inhabited Key] [Inhabited BlockId] [DecidableEq Key] (headerId : SignedBlockHeader Key BlockId → BlockId)
    (db : ForkDatabase Key BlockId) :
    Call Key BlockId → Except ForkDatabaseError (ForkDatabase Key BlockId × List (BlockState Key BlockId))
  | .add n skipValidatePrevious => db.add n skipValidatePrevious
  | .addBlock b skipValidateSignee => db.addBlock headerId b skipValidateSignee
  | .remove id => (db.remove id).map (·, [])
  | .markInCurrentChain h inCurrentChain => (db.markInCurrentChain h inCurrentChain).map (·, [])
  | .setValidity h valid => (db.setValidity h valid).map (·, [])

/-! ## What each call does -/

section Spec

variable {db db' : ForkDatabase Key BlockId}

/-- The ids of the states are unique (`by_block_id` is a unique index). -/
abbrev IdsNodup (index : List (BlockState Key BlockId)) : Prop := SubtreeErase.KeysNodup (·.id) index

/-- `b` is built, through states of `index`, on the state with id `id` or is it. -/
abbrev BuiltOnId (index : List (BlockState Key BlockId)) (id : BlockId) (b : BlockState Key BlockId) : Prop :=
  SubtreeErase.Reach (·.id) (·.header.previous) index [id] b

/-- `index'` holds the parent in `index` of each of its states. -/
def Closed (index index' : List (BlockState Key BlockId)) : Prop :=
  ∀ b ∈ index', ∀ p ∈ index, p.id = b.header.previous → p ∈ index'

omit [DecidableEq BlockId] in
theorem Closed.refl (index : List (BlockState Key BlockId)) : Closed index index :=
  fun _ _ _ hp _ => hp

omit [DecidableEq BlockId] in
theorem Closed.trans {i₁ i₂ i₃ : List (BlockState Key BlockId)} (h₁₂ : Closed i₁ i₂) (h₂₃ : Closed i₂ i₃)
    (hs : i₃.Sublist i₂) : Closed i₁ i₃ :=
  fun b hb p hp hpb => h₂₃ b hb p (h₁₂ b (hs.subset hb) p hp hpb) hpb

theorem remove_eq_ok {id : BlockId} (h : db.remove id = .ok db') :
    db'.index = SubtreeErase.eraseLoop (·.id) (·.header.previous) (db.index.length + 2) db.index [id] := by
  simp only [remove, bind, Except.bind_eq_ok, pure, Except.pure, Except.ok.injEq] at h
  obtain ⟨_, -, rfl⟩ := h
  rfl

/-- `remove` keeps exactly the states not built on `id`. -/
theorem mem_index_remove (hk : IdsNodup db.index) {id : BlockId} (h : db.remove id = .ok db') (b : BlockState Key BlockId) :
    b ∈ db'.index ↔ b ∈ db.index ∧ ¬ BuiltOnId db.index id b := by
  rw [remove_eq_ok h]
  exact SubtreeErase.mem_eraseLoop_single hk id (Nat.le_refl _) b

theorem index_remove_sublist {id : BlockId} (h : db.remove id = .ok db') : db'.index.Sublist db.index := by
  rw [remove_eq_ok h]
  exact SubtreeErase.eraseLoop_sublist _ _ _

/-- What `remove` keeps holds the parents of what it keeps. -/
theorem closed_remove (hk : IdsNodup db.index) {id : BlockId} (h : db.remove id = .ok db') :
    Closed db.index db'.index := by
  intro b hb p hp hpb
  rw [mem_index_remove hk h] at hb ⊢
  refine ⟨hp, fun hreach => hb.2 ?_⟩
  exact .step hb.1 hreach hpb.symm

omit [DecidableEq BlockId] in
/-- A sublist that keeps the head of a list with no repeated id starts with it. -/
theorem head?_of_sublist {y : BlockState Key BlockId} {l l' : List (BlockState Key BlockId)}
    (hk : IdsNodup (y :: l)) (hs : l'.Sublist (y :: l)) (hy : y ∈ l') : l'.head? = some y := by
  rcases List.sublist_cons_iff.mp hs with hs | ⟨r, rfl, -⟩
  · exact absurd (List.mem_map_of_mem (hs.subset hy)) (List.nodup_cons.mp hk).1
  · rfl

omit [DecidableEq BlockId] in
theorem blockNum_le_of_byBlockNum_le {a b : BlockState Key BlockId} (h : byBlockNum a ≤ byBlockNum b) :
    a.blockNum.toNat ≤ b.blockNum.toNat := by
  rcases Prod.Lex.le_iff.mp h with h | ⟨h, -⟩
  · exact le_of_lt h
  · exact le_of_eq h

/-- The loop returns only while its iterator points at a state. -/
theorem exists_of_pruneLoop {fuel : Nat} {num : UInt32} {y : BlockState Key BlockId}
    (h : pruneLoop (fuel + 1) db num (some y) = .ok db') : ∃ y' ∈ db.index, y'.id = y.id := by
  simp only [pruneLoop, find] at h
  split at h
  · cases h
  · rename_i y' hy
    exact ⟨y', List.mem_of_find?_eq_some hy, by simpa using List.find?_some hy⟩

/-- **The last loop of `prune`.** Run from the first state, over a sorted index whose states lie at `num` or above,
it returns only after removing every state at `num`, and keeps the parents of what it keeps. -/
theorem pruneLoop_spec {num : UInt32} : ∀ {fuel : Nat} {db db' : ForkDatabase Key BlockId},
    IdsNodup db.index → OrderedIndex.Sorted byBlockNum db.index →
    (∀ b ∈ db.index, num.toNat ≤ b.blockNum.toNat) → db.index.length < fuel →
    pruneLoop fuel db num db.index.head? = .ok db' →
    db'.index.Sublist db.index ∧ Closed db.index db'.index ∧ ∀ b ∈ db'.index, num.toNat < b.blockNum.toNat
  | 0, _, _, _, _, _, hf, _ => absurd hf (Nat.not_lt_zero _)
  | fuel + 1, db, db', hk, hs, hge, hf, h => by
    cases hidx : db.index with
    | nil =>
      simp only [hidx, pruneLoop, List.head?_nil, Except.ok.injEq] at h
      subst h
      simp [hidx, Closed]
    | cons x rest =>
      have hfind : db.find x.id = some x := by simp [find, hidx]
      simp only [hidx, pruneLoop, List.head?_cons, hfind] at h
      split at h
      · -- `x` is at `num`: the iterator moves to the next state, `remove` erases `x` and what is built on it
        have hnext : ((x :: rest).dropWhile (·.id ≠ x.id)).tail.head? = rest.head? := by simp
        simp only [hnext, bind, Except.bind_eq_ok] at h
        obtain ⟨db₁, hrem, hloop⟩ := h
        have hsub₁ := index_remove_sublist hrem
        have hx₁ : x ∉ db₁.index := fun hx =>
          ((mem_index_remove hk hrem x).mp hx).2 (.root (hidx ▸ List.mem_cons_self) List.mem_cons_self)
        have hrest₁ : db₁.index.Sublist rest := by
          rw [hidx] at hsub₁
          rcases List.sublist_cons_iff.mp hsub₁ with hs' | ⟨r, hr, -⟩
          · exact hs'
          · exact absurd (hr ▸ List.mem_cons_self) hx₁
        have hkrest : IdsNodup rest := (List.nodup_cons.mp (hidx ▸ hk)).2
        -- the iterator still points at a state, which is then the first one
        have hhead : rest.head? = db₁.index.head? := by
          cases hr : rest with
          | nil =>
            rw [hr] at hrest₁
            rw [List.sublist_nil.mp hrest₁]
          | cons y rest' =>
            subst hr
            obtain ⟨fuel', rfl⟩ : ∃ f, fuel = f + 1 := ⟨fuel - 1, by simp [hidx] at hf; omega⟩
            rw [List.head?_cons] at hloop
            obtain ⟨y', hy', hid⟩ := exists_of_pruneLoop hloop
            have hyy : y' = y := SubtreeErase.eq_of_key_eq hkrest (hrest₁.subset hy') List.mem_cons_self hid
            subst hyy
            rw [List.head?_cons, head?_of_sublist hkrest hrest₁ hy']
        rw [hhead] at hloop
        obtain ⟨hsub, hcl, hgt⟩ := pruneLoop_spec (hk.sublist (hsub₁.map _)) (hs.sublist hsub₁)
          (fun b hb => hge b (hsub₁.subset hb))
          (lt_of_le_of_lt hrest₁.length_le (by simp [hidx] at hf; omega)) hloop
        rw [← hidx]
        exact ⟨hsub.trans hsub₁, (closed_remove hk hrem).trans hcl hsub, hgt⟩
      · -- the first state is above `num`, and so is every other
        rename_i hnum
        cases h
        rw [hidx]
        refine ⟨List.Sublist.refl _, Closed.refl _, fun b hb => ?_⟩
        have hxb := blockNum_le_of_byBlockNum_le (OrderedIndex.Sorted.le_of_mem_head (hidx ▸ hs) hb)
        have hxn : num.toNat ≤ x.blockNum.toNat := hge x (hidx ▸ List.mem_cons_self)
        have hne : x.blockNum.toNat ≠ num.toNat := fun e => hnum (UInt32.toNat_inj.mp e)
        omega

/-- `prune` past its first loop, from the first state: it emits that state and leaves only states above it, with the
parents each had among the states after it. -/
theorem pruneAt_spec {h : BlockState Key BlockId} {rest : List (BlockState Key BlockId)}
    {out : List (BlockState Key BlockId)} (hidx : db.index = h :: rest) (hk : IdsNodup db.index)
    (hs : OrderedIndex.Sorted byBlockNum db.index) (hp : db.pruneAt h = .ok (db', out)) :
    out = [h] ∧ db'.index.Sublist rest ∧ Closed rest db'.index ∧
      ∀ b ∈ db'.index, h.blockNum.toNat < b.blockNum.toNat := by
  rw [hidx] at hk hs
  have hfind : db.find h.id = some h := by simp [find, hidx]
  -- no state after `h` has its id, and none lies below it
  have hfilter : db.index.filter (·.id ≠ h.id) = rest := by
    rw [hidx, List.filter_cons_of_neg (by simp), List.filter_eq_self]
    intro b hb
    exact decide_eq_true fun (e : b.id = h.id) => (List.nodup_cons.mp hk).1 (List.mem_map.mpr ⟨b, hb, e⟩)
  have hge : ∀ b ∈ rest, h.blockNum.toNat ≤ b.blockNum.toNat := fun b hb =>
    blockNum_le_of_byBlockNum_le (hs.le_of_mem_head (List.mem_cons_of_mem h hb))
  have hlower : rest.find? (·.blockNum ≥ h.blockNum) = rest.head? := by
    cases rest with
    | nil => rfl
    | cons y rest =>
      rw [List.find?_cons_of_pos (by simpa [UInt32.le_iff_toNat_le] using hge y List.mem_cons_self)]
      rfl
  simp only [pruneAt, hfind, hfilter, hlower, bind, Except.bind_eq_ok, pure, Except.pure, Except.ok.injEq] at hp
  obtain ⟨db₁, hloop, rfl, rfl⟩ := hp
  -- the loop runs over the database without `h`
  have hrest : IdsNodup ({ db with index := rest } : ForkDatabase Key BlockId).index := (List.nodup_cons.mp hk).2
  obtain ⟨hsub, hcl, hgt⟩ := pruneLoop_spec hrest (List.pairwise_cons.mp hs).2 hge (Nat.lt_succ_self _) hloop
  exact ⟨rfl, hsub, hcl, hgt⟩

/-- From its first state, `prune` goes straight past its first loop. -/
theorem prune_of_head {h : BlockState Key BlockId} (hh : db.index.head? = some h) (fuel : Nat) :
    db.prune (fuel + 1) h = db.pruneAt h := by
  simp [prune, hh]

theorem insert_eq_some {index index' : List (BlockState Key BlockId)} {n : BlockState Key BlockId}
    (h : insert index n = some index') :
    n.id ∉ index.map (·.id) ∧ index' = index.orderedInsert (fun a b => byBlockNum a < byBlockNum b) n := by
  unfold insert at h
  split at h
  · cases h
  · rename_i hany
    cases h
    refine ⟨fun hn => hany ?_, rfl⟩
    obtain ⟨b, hb, hid⟩ := List.mem_map.mp hn
    exact List.any_eq_true.mpr ⟨b, hb, by simpa using hid⟩

/-- **What `add` does**: insert the state, take the head, and prune from the oldest state when it lies below the
head's irreversible block. -/
theorem add_eq_ok {n : BlockState Key BlockId} {skip : Bool} {out : List (BlockState Key BlockId)}
    (h : db.add n skip = .ok (db', out)) :
    ∃ index head, insert db.index n = some index ∧ libBegin index = .ok head ∧
      ((out = [] ∧ db' = ⟨index, some head⟩) ∨
        ∃ oldest, index.head? = some oldest ∧ (ForkDatabase.mk index (some head)).pruneAt oldest = .ok (db', out)) := by
  -- past the assertions, whether or not the previous block is looked up
  have hrest : (match insert db.index n with
      | some index => (libBegin index).bind fun head =>
        match index.head? with
        | some oldest =>
          if oldest.blockNum < head.dposIrreversibleBlocknum then
            prune (index.length + 1) (ForkDatabase.mk index (some head)) oldest
          else pure (ForkDatabase.mk index (some head), [])
        | none => pure (ForkDatabase.mk index (some head), [])
      | _ => throw (ForkDatabaseError.forkDatabase "duplicate block added?")) = .ok (db', out) := by
    cases skip <;> simp only [add, bind, Except.bind_eq_ok, Bool.false_eq_true, ↓reduceIte] at h <;>
      obtain ⟨_, -, h⟩ := h
    · obtain ⟨_, -, h⟩ := h
      exact h
    · exact h
  cases hins : insert db.index n with
  | none => simp [hins, throw, throwThe, MonadExceptOf.throw] at hrest
  | some index =>
    simp only [hins, Except.bind_eq_ok] at hrest
    obtain ⟨head, hhead, h⟩ := hrest
    refine ⟨index, head, rfl, hhead, ?_⟩
    cases hold : index.head? with
    | none =>
      simp only [hold, pure, Except.pure, Except.ok.injEq, Prod.mk.injEq] at h
      exact .inl ⟨h.2.symm, h.1.symm⟩
    | some oldest =>
      simp only [hold] at h
      split at h
      · exact .inr ⟨oldest, rfl, by rwa [prune_of_head hold] at h⟩
      · simp only [pure, Except.pure, Except.ok.injEq, Prod.mk.injEq] at h
        exact .inl ⟨h.2.symm, h.1.symm⟩

theorem find_eq_some {id : BlockId} {p : BlockState Key BlockId} (h : db.find id = some p) : p ∈ db.index ∧ p.id = id :=
  ⟨List.mem_of_find?_eq_some h, by simpa using List.find?_some h⟩

/-- `add` of a block adds the state `next` builds on its previous block. -/
theorem addBlock_eq_ok [Inhabited Key] [Inhabited BlockId] [DecidableEq Key]
    {headerId : SignedBlockHeader Key BlockId → BlockId} {b : SignedBlockHeader Key BlockId} {skip : Bool}
    {out : List (BlockState Key BlockId)} (h : db.addBlock headerId b skip = .ok (db', out)) :
    ∃ prior n, db.find b.previous = some prior ∧ BlockState.ofNext headerId prior b skip = .ok n ∧
      db.add n true = .ok (db', out) := by
  simp only [addBlock, bind, Except.bind_eq_ok] at h
  obtain ⟨-, -, -, -, h⟩ := h
  cases hf : db.find b.previous with
  | none => simp [hf, throw, throwThe, MonadExceptOf.throw] at h
  | some prior =>
    simp only [hf, Except.bind_eq_ok] at h
    obtain ⟨n, hn, h⟩ := h
    cases hon : BlockState.ofNext headerId prior b skip with
    | error e => simp [hon, Except.mapError] at hn
    | ok n' =>
      simp only [hon, Except.mapError, Except.ok.injEq] at hn
      subst hn
      exact ⟨prior, n', rfl, hon, h⟩

/-- `mark_in_current_chain` changes nothing, or modifies one state of the index. -/
theorem markInCurrentChain_eq_ok {h : BlockState Key BlockId} {flag : Bool}
    (hm : db.markInCurrentChain h flag = .ok db') :
    db' = db ∨ ∃ pre x post, db.index = pre ++ x :: post ∧
      db'.index = OrderedIndex.modify byBlockNum pre post { x with inCurrentChain := flag } := by
  unfold markInCurrentChain at hm
  split at hm
  · split at hm
    · exact .inl (Except.ok.inj hm).symm
    · cases hm
  · rename_i x post hdrop
    split at hm
    · exact .inl (Except.ok.inj hm).symm
    · cases hm
      refine .inr ⟨_, x, post, ?_, rfl⟩
      rw [← hdrop, List.takeWhile_append_dropWhile]

/-- `set_validity` removes an invalid state, or marks a valid one. -/
theorem setValidity_eq_ok {h : BlockState Key BlockId} {valid : Bool} (hv : db.setValidity h valid = .ok db') :
    (valid = false ∧ db.remove h.id = .ok db') ∨
      (valid = true ∧ db'.index = db.index.map fun s => if s.id = h.id then { s with validated := true } else s) := by
  unfold setValidity at hv
  cases valid with
  | false => exact .inl ⟨rfl, hv⟩
  | true =>
    cases hv
    exact .inr ⟨rfl, rfl⟩

end Spec

end ForkDatabase

end Gstio.Chain
