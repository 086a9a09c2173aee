import Mathlib

/-!
# Parent-pointer forests

A partial map `par : α → Option α` gives each node at most one parent. `AncestorOrSelf par a b` is the
reflexive-transitive closure of "`a` is the parent of `b`", and `chain par n a` lists the nodes met from `a`
by following at most `n` links.

The map is a forest when a rank strictly decreases from every node to its parent (`Ranked`):

* `ancestorOrSelf_iff`: `a` is an ancestor-or-self of `b` iff it is `b` or an ancestor-or-self of `b`'s
  parent, the unfolding a walk up the tree follows;
* `chain_nodup`, `par_getLast_chain`: the chain from `a` repeats no node, and with `rank a` links or more it
  ends at a root;
* `ancestorOrSelf_iff_of_ne`: past a node other than `a`, `a` is looked for among the ancestors of its parent;
* `present_of_ancestorOrSelf`: a set of nodes that holds the parent of each of its members holds every
  ancestor of them.

On a set of nodes where the rank falls by exactly one from a node to its parent (`GradedOn`), a walk from two nodes
down to one rank and then down together meets at their deepest common ancestor:

* `ancestorOrSelf_total`, `GradedOn.eq_of_rank_eq`: the ancestors of a node are ordered, one at each rank;
* `GradedOn.common_iff_of_rank`, `GradedOn.common_iff_parents`: the common ancestors of two nodes are those of their
  ancestors at the lower rank, and those of their parents when they are distinct at one rank;
* `Climb`: the nodes passed on the way up to an ancestor, linked child to parent.
-/

namespace ParentForest

variable {α : Type} (par : α → Option α)

/-- `a` is the parent of `b`. -/
def IsParent (a b : α) : Prop := par b = some a

/-- `a` is `b` or one of its ancestors. -/
def AncestorOrSelf (a b : α) : Prop := Relation.ReflTransGen (IsParent par) a b

/-- The nodes met from `a` by following at most `n` parent links, `a` first. -/
def chain : Nat → α → List α
  | 0, a => [a]
  | n + 1, a =>
    match par a with
    | none => [a]
    | some b => a :: chain n b

/-- Ranks strictly decrease from every node to its parent. -/
def Ranked (rank : α → Nat) : Prop := ∀ a b, par b = some a → rank a < rank b

/-- On the nodes `present` holds, which holds the parent of each of them, the rank falls by one from a node to its
parent. -/
structure GradedOn (present : α → Prop) (rank : α → Nat) : Prop where
  closed : ∀ a b, par b = some a → present b → present a
  succ_rank : ∀ a b, par b = some a → present b → rank b = rank a + 1

/-- `d` is an ancestor-or-self of both `a` and `b`, and every other one is an ancestor-or-self of `d`. -/
def DeepestCommonAncestor (d a b : α) : Prop :=
  AncestorOrSelf par d a ∧ AncestorOrSelf par d b ∧
    ∀ x, AncestorOrSelf par x a → AncestorOrSelf par x b → AncestorOrSelf par x d

/-- From `a`, following parents, the nodes of the list are passed, `a` first, before `t` is reached. -/
inductive Climb : α → List α → α → Prop
  | here (a : α) : Climb a [] a
  | up {a b t : α} {l : List α} : par a = some b → Climb b l t → Climb a (a :: l) t

variable {par}

theorem ancestorOrSelf_refl (a : α) : AncestorOrSelf par a a := Relation.ReflTransGen.refl

theorem ancestorOrSelf_iff {a b : α} :
    AncestorOrSelf par a b ↔ a = b ∨ ∃ c, par b = some c ∧ AncestorOrSelf par a c := by
  unfold AncestorOrSelf
  rw [Relation.ReflTransGen.cases_tail_iff]
  constructor
  · rintro (rfl | ⟨c, hac, hcb⟩)
    · exact .inl rfl
    · exact .inr ⟨c, hcb, hac⟩
  · rintro (rfl | ⟨c, hcb, hac⟩)
    · exact .inl rfl
    · exact .inr ⟨c, hac, hcb⟩

/-- A root has no ancestor but itself. -/
theorem ancestorOrSelf_of_root {a b : α} (h : par b = none) : AncestorOrSelf par a b ↔ a = b := by
  rw [ancestorOrSelf_iff]
  simp [h]

/-- Past a node other than `a`, the search for `a` goes on at the parent. -/
theorem ancestorOrSelf_iff_of_ne {a b c : α} (hne : a ≠ b) (hb : par b = some c) :
    AncestorOrSelf par a b ↔ AncestorOrSelf par a c := by
  rw [ancestorOrSelf_iff]
  constructor
  · rintro (heq | ⟨c', hc', hac⟩)
    · exact absurd heq hne
    · rw [hb, Option.some_inj] at hc'
      exact hc' ▸ hac
  · intro hac
    exact .inr ⟨c, hb, hac⟩

/-- A set that holds the parent of each of its members holds every ancestor of them. -/
theorem present_of_ancestorOrSelf {present : α → Prop} (hclosed : ∀ a b, par b = some a → present b → present a)
    {a b : α} (h : AncestorOrSelf par a b) (hb : present b) : present a := by
  induction h using Relation.ReflTransGen.head_induction_on with
  | refl => exact hb
  | head hac _ ih => exact hclosed _ _ hac ih

/-- The chain only meets ancestors. -/
theorem ancestorOrSelf_of_mem_chain : ∀ {n : Nat} {a x : α}, x ∈ chain par n a → AncestorOrSelf par x a
  | 0, a, x, hx => by
    rw [chain, List.mem_singleton] at hx
    subst hx
    exact ancestorOrSelf_refl x
  | n + 1, a, x, hx => by
    unfold chain at hx
    split at hx
    · rw [List.mem_singleton] at hx
      subst hx
      exact ancestorOrSelf_refl x
    · rename_i b hb
      rcases List.mem_cons.mp hx with rfl | hx
      · exact ancestorOrSelf_refl x
      · exact ancestorOrSelf_iff.mpr (.inr ⟨b, hb, ancestorOrSelf_of_mem_chain hx⟩)

/-- The ancestors of a node are totally ordered. -/
theorem ancestorOrSelf_total {x y a : α} (hx : AncestorOrSelf par x a) (hy : AncestorOrSelf par y a) :
    AncestorOrSelf par x y ∨ AncestorOrSelf par y x := by
  revert hy
  induction hx with
  | refl => exact fun hy => .inr hy
  | tail hxb hba ih =>
    intro hy
    rcases ancestorOrSelf_iff.mp hy with rfl | ⟨c, hc, hyc⟩
    · exact .inl (hxb.tail hba)
    · -- the parent of `a` is the node the path to `x` passes
      rw [IsParent, hc, Option.some_inj] at hba
      exact ih (hba ▸ hyc)

/-- A node whose ancestors-or-self are exactly the common ones of `a` and `b` is their deepest common one. -/
theorem deepestCommonAncestor_of_iff {d a b : α}
    (h : ∀ x, (AncestorOrSelf par x a ∧ AncestorOrSelf par x b) ↔ AncestorOrSelf par x d) :
    DeepestCommonAncestor par d a b := by
  obtain ⟨hda, hdb⟩ := (h d).mpr (ancestorOrSelf_refl d)
  exact ⟨hda, hdb, fun x hxa hxb => (h x).mp ⟨hxa, hxb⟩⟩

/-! ## Climbing to an ancestor -/

theorem Climb.append {a m t : α} {l l' : List α} (h : Climb par a l m) (h' : Climb par m l' t) :
    Climb par a (l ++ l') t := by
  induction h with
  | here => exact h'
  | up hb _ ih => exact .up hb (ih h')

theorem Climb.ancestorOrSelf {a t : α} {l : List α} (h : Climb par a l t) : AncestorOrSelf par t a := by
  induction h with
  | here => exact ancestorOrSelf_refl _
  | up hb _ ih => exact ih.tail hb

/-- The passed nodes and the one reached are linked child to parent. -/
theorem Climb.isChain {a t : α} {l : List α} (h : Climb par a l t) :
    (l ++ [t]).IsChain fun x y => par x = some y := by
  induction h with
  | here => exact List.isChain_singleton _
  | up hb h' ih =>
    cases h' with
    | here => exact List.isChain_pair.mpr hb
    | up hc _ => exact List.IsChain.cons_cons hb ih

theorem Climb.head {a t : α} {l : List α} (h : Climb par a l t) : (l ++ [t]).head? = some a := by
  cases h <;> rfl

section GradedOn

variable {present : α → Prop} {rank : α → Nat}

theorem GradedOn.present_of_ancestorOrSelf (h : GradedOn par present rank) {a b : α}
    (hab : AncestorOrSelf par a b) (hb : present b) : present a :=
  ParentForest.present_of_ancestorOrSelf h.closed hab hb

theorem GradedOn.eq_or_rank_lt (h : GradedOn par present rank) {a b : α} (hab : AncestorOrSelf par a b)
    (hb : present b) : a = b ∨ rank a < rank b := by
  revert hb
  induction hab with
  | refl => exact fun _ => .inl rfl
  | tail _ hcb ih =>
    intro hb
    have hr := h.succ_rank _ _ hcb hb
    rcases ih (h.closed _ _ hcb hb) with rfl | hlt
    · exact .inr (by omega)
    · exact .inr (by omega)

theorem GradedOn.rank_le (h : GradedOn par present rank) {a b : α} (hab : AncestorOrSelf par a b)
    (hb : present b) : rank a ≤ rank b := by
  rcases h.eq_or_rank_lt hab hb with rfl | hlt
  · exact Nat.le_refl _
  · exact Nat.le_of_lt hlt

/-- A node has one ancestor-or-self at each rank. -/
theorem GradedOn.eq_of_rank_eq (h : GradedOn par present rank) {x y a : α} (hx : AncestorOrSelf par x a)
    (hy : AncestorOrSelf par y a) (ha : present a) (hr : rank x = rank y) : x = y := by
  rcases ancestorOrSelf_total hx hy with hxy | hyx
  · rcases h.eq_or_rank_lt hxy (h.present_of_ancestorOrSelf hy ha) with heq | hlt
    · exact heq
    · omega
  · rcases h.eq_or_rank_lt hyx (h.present_of_ancestorOrSelf hx ha) with heq | hlt
    · exact heq.symm
    · omega

/-- Of two ancestors-or-self of a node, the one of lower rank is an ancestor-or-self of the other. -/
theorem GradedOn.ancestorOrSelf_of_rank_le (h : GradedOn par present rank) {x y a : α}
    (hx : AncestorOrSelf par x a) (hy : AncestorOrSelf par y a) (ha : present a) (hr : rank x ≤ rank y) :
    AncestorOrSelf par x y := by
  rcases ancestorOrSelf_total hx hy with hxy | hyx
  · exact hxy
  · rcases h.eq_or_rank_lt hyx (h.present_of_ancestorOrSelf hx ha) with rfl | hlt
    · exact ancestorOrSelf_refl _
    · omega

/-- A common ancestor-or-self of two distinct nodes of one rank is neither of them: it would be both. -/
theorem GradedOn.ne_of_common (h : GradedOn par present rank) {f s x : α} (hf : present f) (hs : present s)
    (hne : f ≠ s) (hr : rank f = rank s) (hxf : AncestorOrSelf par x f) (hxs : AncestorOrSelf par x s) :
    x ≠ f ∧ x ≠ s := by
  constructor
  · rintro rfl
    exact hne (h.eq_of_rank_eq hxs (ancestorOrSelf_refl s) hs hr)
  · rintro rfl
    exact hne (h.eq_of_rank_eq (ancestorOrSelf_refl f) hxf hf hr)

/-- Two distinct nodes of one rank have the common ancestors-or-self of their parents. -/
theorem GradedOn.common_iff_parents (h : GradedOn par present rank) {f s f' s' x : α} (hf : present f)
    (hs : present s) (hne : f ≠ s) (hr : rank f = rank s) (hpf : par f = some f') (hps : par s = some s') :
    (AncestorOrSelf par x f ∧ AncestorOrSelf par x s) ↔ (AncestorOrSelf par x f' ∧ AncestorOrSelf par x s') := by
  constructor
  · rintro ⟨hxf, hxs⟩
    obtain ⟨hxf', hxs'⟩ := h.ne_of_common hf hs hne hr hxf hxs
    exact ⟨(ancestorOrSelf_iff_of_ne hxf' hpf).mp hxf, (ancestorOrSelf_iff_of_ne hxs' hps).mp hxs⟩
  · rintro ⟨hxf, hxs⟩
    exact ⟨hxf.tail hpf, hxs.tail hps⟩

/-- The common ancestors-or-self of `a` and `b` are those of their ancestors-or-self at the lower of their ranks. -/
theorem GradedOn.common_iff_of_rank (h : GradedOn par present rank) {a b f s x : α} (ha : present a)
    (hb : present b) (hf : AncestorOrSelf par f a) (hs : AncestorOrSelf par s b) (hrf : rank f = min (rank a) (rank b))
    (hrs : rank s = min (rank a) (rank b)) :
    (AncestorOrSelf par x a ∧ AncestorOrSelf par x b) ↔ (AncestorOrSelf par x f ∧ AncestorOrSelf par x s) := by
  constructor
  · rintro ⟨hxa, hxb⟩
    have hra := h.rank_le hxa ha
    have hrb := h.rank_le hxb hb
    exact ⟨h.ancestorOrSelf_of_rank_le hxa hf ha (by omega), h.ancestorOrSelf_of_rank_le hxb hs hb (by omega)⟩
  · rintro ⟨hxf, hxs⟩
    exact ⟨hxf.trans hf, hxs.trans hs⟩

/-- The ancestors-or-self of `a` down to `c` are `rank a - rank c + 1` distinct nodes of `present`. -/
theorem GradedOn.exists_ancestors (h : GradedOn par present rank) {c a : α} (hca : AncestorOrSelf par c a)
    (ha : present a) :
    ∃ L : List α, L.Nodup ∧ (∀ x ∈ L, present x ∧ rank x ≤ rank a) ∧ L.length = rank a - rank c + 1 := by
  revert ha
  induction hca with
  | refl => exact fun ha => ⟨[c], List.nodup_singleton c, by simpa using ha, by simp⟩
  | tail hcb hba ih =>
    rename_i b a
    intro ha
    have hr := h.succ_rank _ _ hba ha
    have hcr := h.rank_le hcb (h.closed _ _ hba ha)
    obtain ⟨L, hnd, hL, hlen⟩ := ih (h.closed _ _ hba ha)
    -- `a` lies above every node of `L`
    have hnot : a ∉ L := fun hmem => by have := (hL a hmem).2; omega
    refine ⟨a :: L, List.nodup_cons.mpr ⟨hnot, hnd⟩, ?_, by simp only [List.length_cons]; omega⟩
    intro x hx
    rcases List.mem_cons.mp hx with rfl | hx
    · exact ⟨ha, Nat.le_refl _⟩
    · exact ⟨(hL x hx).1, by have := (hL x hx).2; omega⟩

/-- Below a node of a list, ranks reach down at most the length of the list. -/
theorem GradedOn.rank_sub_lt_length {l : List α} (h : GradedOn par (· ∈ l) rank) {c a : α}
    (hca : AncestorOrSelf par c a) (ha : a ∈ l) : rank a - rank c < l.length := by
  obtain ⟨L, hnd, hL, hlen⟩ := h.exists_ancestors hca ha
  have := hnd.length_le_of_subset fun x hx => (hL x hx).1
  omega

end GradedOn

section Ranked

variable {rank : α → Nat}

theorem rank_le_of_ancestorOrSelf (h : Ranked par rank) {a b : α} (hab : AncestorOrSelf par a b) :
    rank a ≤ rank b := by
  induction hab with
  | refl => exact Nat.le_refl _
  | tail _ hcb ih => exact Nat.le_trans ih (Nat.le_of_lt (h _ _ hcb))

/-- Along the chain the ranks strictly decrease. -/
theorem chain_pairwise (h : Ranked par rank) :
    ∀ (n : Nat) (a : α), (chain par n a).Pairwise fun x y => rank y < rank x
  | 0, a => List.pairwise_singleton _ a
  | n + 1, a => by
    unfold chain
    split
    · exact List.pairwise_singleton _ a
    · rename_i b hb
      refine List.pairwise_cons.mpr ⟨fun y hy => ?_, chain_pairwise h n b⟩
      exact Nat.lt_of_le_of_lt (rank_le_of_ancestorOrSelf h (ancestorOrSelf_of_mem_chain hy)) (h _ _ hb)

theorem chain_nodup (h : Ranked par rank) (n : Nat) (a : α) : (chain par n a).Nodup :=
  (chain_pairwise h n a).imp fun hlt heq => (Nat.ne_of_lt hlt) (congrArg rank heq).symm

/-- With at least `rank a` links the chain ends at a root. -/
theorem par_getLast_chain (h : Ranked par rank) :
    ∀ {n : Nat} {a : α}, rank a ≤ n → ∃ r, (chain par n a).getLast? = some r ∧ par r = none
  | 0, a, hn => by
    refine ⟨a, rfl, ?_⟩
    cases hp : par a with
    | none => rfl
    | some b =>
      have := h _ _ hp
      omega
  | n + 1, a, hn => by
    unfold chain
    split
    · rename_i hp
      exact ⟨a, rfl, hp⟩
    · rename_i b hb
      have hlt := h _ _ hb
      obtain ⟨r, hr, hroot⟩ := par_getLast_chain h (show rank b ≤ n by omega)
      refine ⟨r, ?_, hroot⟩
      rw [List.getLast?_cons, hr]
      rfl

end Ranked

end ParentForest
