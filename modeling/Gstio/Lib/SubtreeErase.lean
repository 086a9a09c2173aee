import Mathlib

/-!
# Erasing subtrees breadth first

Elements carry a key and the key of their parent. `eraseLoop` takes the first key of a queue, erases the element
with that key and queues the keys of the elements whose parent it was, until the queue is empty. `Reach l q b` says
that `b` hangs from a queued key: it has that key, its parent has it, or its parent is reached.

* `reach_step`: a turn of the loop keeps what is reached, for every element it does not erase;
* `Invariant.step`: after the first turn, every queued key is that of a present element whose parent is gone, so
  every later turn erases one element;
* `mem_eraseLoop_single`: run with enough fuel from one key, the loop keeps exactly the elements not reached
  from it, in their order (`eraseLoop_sublist`).
-/

namespace SubtreeErase

variable {α κ : Type} [DecidableEq κ] (key parentKey : α → κ)

/-- The queue loop: erase the element with the first key, queue the keys of its children. -/
def eraseLoop : Nat → List α → List κ → List α
  | 0, l, _ => l
  | _ + 1, l, [] => l
  | fuel + 1, l, x :: q =>
    let l' := l.filter (fun b => key b ≠ x)
    eraseLoop fuel l' (q ++ (l'.filter (fun b => parentKey b = x)).map key)

/-- `b`, an element of `l`, hangs from a key of `q`. -/
inductive Reach (l : List α) (q : List κ) : α → Prop
  | root {b : α} : b ∈ l → key b ∈ q → Reach l q b
  | orphan {b : α} : b ∈ l → parentKey b ∈ q → Reach l q b
  | step {b c : α} : b ∈ l → Reach l q c → parentKey b = key c → Reach l q b

/-- Keys are unique among the elements. -/
def KeysNodup (l : List α) : Prop := (l.map key).Nodup

instance (l : List α) : Decidable (KeysNodup key l) := inferInstanceAs (Decidable (l.map key).Nodup)

/-- The keys a turn queues: those of the children of `x` left after erasing it. -/
abbrev childKeys (l : List α) (x : κ) : List κ :=
  ((l.filter (fun b => key b ≠ x)).filter (fun b => parentKey b = x)).map key

/-- What the loop keeps after its first turn: unique keys, a queue without repeats of keys of present elements
whose parents are gone. -/
structure Invariant (l : List α) (q : List κ) : Prop where
  keys_nodup : KeysNodup key l
  queue_nodup : q.Nodup
  queued_present : ∀ k ∈ q, ∃ b ∈ l, key b = k
  parent_gone : ∀ b ∈ l, key b ∈ q → ∀ c ∈ l, key c ≠ parentKey b

variable {key parentKey}

omit [DecidableEq κ] in
theorem Reach.mem {l : List α} {q : List κ} {b : α} (h : Reach key parentKey l q b) : b ∈ l := by
  cases h with
  | root hb _ => exact hb
  | orphan hb _ => exact hb
  | step hb _ _ => exact hb

omit [DecidableEq κ] in
/-- What is reached through the elements of `l` is reached through those of any list that holds them. -/
theorem Reach.mono {l l' : List α} {q : List κ} (hl : ∀ b ∈ l, b ∈ l') {b : α} (h : Reach key parentKey l q b) :
    Reach key parentKey l' q b := by
  induction h with
  | root hb hq => exact .root (hl _ hb) hq
  | orphan hb hq => exact .orphan (hl _ hb) hq
  | step hb _ hbc ih => exact .step (hl _ hb) ih hbc

omit [DecidableEq κ] in
theorem not_reach_nil {l : List α} {b : α} : ¬ Reach key parentKey l [] b := by
  intro h
  induction h with
  | root _ hq => exact List.not_mem_nil hq
  | orphan _ hq => exact List.not_mem_nil hq
  | step _ _ _ ih => exact ih

theorem eraseLoop_sublist : ∀ (fuel : Nat) (l : List α) (q : List κ), List.Sublist (eraseLoop key parentKey fuel l q) l
  | 0, _, _ => List.Sublist.refl _
  | _ + 1, _, [] => List.Sublist.refl _
  | fuel + 1, _, _ :: _ => (eraseLoop_sublist fuel _ _).trans List.filter_sublist

section Step

variable {l : List α} {x : κ} {q : List κ}

omit [DecidableEq κ] in
theorem eq_of_key_eq (hl : KeysNodup key l) {b c : α} (hb : b ∈ l) (hc : c ∈ l) (h : key b = key c) : b = c :=
  List.inj_on_of_nodup_map hl hb hc h

theorem mem_childKeys {k : κ} :
    k ∈ childKeys key parentKey l x ↔ ∃ c ∈ l, parentKey c = x ∧ key c ≠ x ∧ key c = k := by
  simp [childKeys, and_assoc]

theorem mem_filter_key_ne {b : α} (hb : b ∈ l) (hbx : key b ≠ x) : b ∈ l.filter (fun b => key b ≠ x) :=
  List.mem_filter.mpr ⟨hb, by simpa using hbx⟩

/-- **Step lemma.** A turn keeps what is reached, for the elements it does not erase. -/
theorem reach_step (hl : KeysNodup key l) {b : α} (hbx : key b ≠ x) :
    Reach key parentKey (l.filter (fun b => key b ≠ x)) (q ++ childKeys key parentKey l x) b ↔
      Reach key parentKey l (x :: q) b := by
  constructor
  · intro h
    clear hbx
    induction h with
    | root hb hq =>
      have hb' := (List.mem_filter.mp hb).1
      rcases List.mem_append.mp hq with hq | hq
      · exact .root hb' (List.mem_cons_of_mem x hq)
      · -- a queued child key is the key of this very element
        obtain ⟨c, hc, hpc, -, hkc⟩ := (mem_childKeys).mp hq
        have hcb := eq_of_key_eq hl hc hb' hkc
        subst hcb
        exact .orphan hb' (by rw [hpc]; exact List.mem_cons_self)
    | orphan hb hq =>
      have hb' := (List.mem_filter.mp hb).1
      rcases List.mem_append.mp hq with hq | hq
      · exact .orphan hb' (List.mem_cons_of_mem x hq)
      · obtain ⟨c, hc, hpc, -, hkc⟩ := (mem_childKeys).mp hq
        exact .step hb' (.orphan hc (by rw [hpc]; exact List.mem_cons_self)) hkc.symm
    | step hb _ hbc ih => exact .step (List.mem_filter.mp hb).1 ih hbc
  · intro h
    induction h with
    -- the induction carries `key b ≠ x` along the parents
    | root hb hq =>
      exact .root (mem_filter_key_ne hb hbx) (List.mem_append_left _ ((List.mem_cons.mp hq).resolve_left hbx))
    | orphan hb hq =>
      have hb' := mem_filter_key_ne hb hbx
      rcases List.mem_cons.mp hq with hp | hq
      · -- a child of `x`: queued by this turn
        exact .root hb' (List.mem_append_right _ ((mem_childKeys).mpr ⟨_, hb, hp, hbx, rfl⟩))
      · exact .orphan hb' (List.mem_append_left _ hq)
    | step hb hc hbc ih =>
      rename_i c
      have hb' := mem_filter_key_ne hb hbx
      by_cases hcx : key c = x
      · exact .root hb' (List.mem_append_right _ ((mem_childKeys).mpr ⟨_, hb, hbc.trans hcx, hbx, rfl⟩))
      · exact .step hb' (ih hcx) hbc

end Step

omit [DecidableEq κ] in
theorem KeysNodup.filter {l : List α} (hl : KeysNodup key l) (p : α → Bool) : KeysNodup key (l.filter p) :=
  hl.sublist (List.filter_sublist.map key)

/-- After the first turn from any key the invariant holds. -/
theorem Invariant.first {l : List α} (hl : KeysNodup key l) (x : κ) :
    Invariant key parentKey (l.filter (fun b => key b ≠ x)) (childKeys key parentKey l x) where
  keys_nodup := hl.filter _
  queue_nodup := (hl.filter _).filter _
  queued_present k hk := by
    obtain ⟨c, hc, -, hcx, rfl⟩ := (mem_childKeys).mp hk
    exact ⟨c, List.mem_filter.mpr ⟨hc, by simpa using hcx⟩, rfl⟩
  parent_gone b hb hbq c hc := by
    -- a queued element is a child of `x`, and `x` is erased
    obtain ⟨b', hb', hpb, -, hkb⟩ := (mem_childKeys).mp hbq
    rw [← eq_of_key_eq hl hb' (List.mem_filter.mp hb).1 hkb, hpb]
    simpa using (List.mem_filter.mp hc).2

/-- A turn erases exactly the element with the key it takes, when that key is present. -/
theorem length_filter_key_ne : ∀ {l : List α}, KeysNodup key l → ∀ {b : α}, b ∈ l →
    (l.filter (fun c => key c ≠ key b)).length + 1 = l.length
  | [], _, _, hb => absurd hb List.not_mem_nil
  | c :: l, hl, b, hb => by
    have hc : key c ∉ l.map key := (List.nodup_cons.mp hl).1
    rcases List.mem_cons.mp hb with rfl | hb
    · -- the element itself goes, and no other has its key
      have hrest : l.filter (fun d => key d ≠ key b) = l :=
        List.filter_eq_self.mpr fun d hd => decide_eq_true fun e => hc (e ▸ List.mem_map_of_mem hd)
      rw [List.filter_cons_of_neg (by simp), hrest, List.length_cons]
    · have hcb : key c ≠ key b := fun e => hc (e ▸ List.mem_map_of_mem hb)
      rw [List.filter_cons_of_pos (by simpa using hcb), List.length_cons, List.length_cons,
        length_filter_key_ne (List.nodup_cons.mp hl).2 hb]

/-- **Step lemma** for the invariant: a later turn keeps it and erases one element. -/
theorem Invariant.step {l : List α} {x : κ} {q : List κ} (h : Invariant key parentKey l (x :: q)) :
    Invariant key parentKey (l.filter (fun b => key b ≠ x)) (q ++ childKeys key parentKey l x) ∧
      (l.filter (fun b => key b ≠ x)).length + 1 = l.length := by
  have hxq : x ∉ q := (List.nodup_cons.mp h.queue_nodup).1
  obtain ⟨d, hd, hdx⟩ := h.queued_present x List.mem_cons_self
  refine ⟨⟨h.keys_nodup.filter _, ?_, ?_, ?_⟩, hdx ▸ length_filter_key_ne h.keys_nodup hd⟩
  · refine (List.nodup_cons.mp h.queue_nodup).2.append ((h.keys_nodup.filter _).filter _) ?_
    -- a child of `x` is not queued yet: its parent `x` is still present
    intro k hkq hkc
    obtain ⟨c, hc, hpc, -, rfl⟩ := (mem_childKeys).mp hkc
    exact h.parent_gone c hc (List.mem_cons_of_mem x hkq) d hd (hdx.trans hpc.symm)
  · intro k hk
    rcases List.mem_append.mp hk with hk | hk
    · obtain ⟨b, hb, rfl⟩ := h.queued_present k (List.mem_cons_of_mem x hk)
      exact ⟨b, mem_filter_key_ne hb fun e => hxq (e ▸ hk), rfl⟩
    · obtain ⟨c, hc, -, hcx, rfl⟩ := (mem_childKeys).mp hk
      exact ⟨c, List.mem_filter.mpr ⟨hc, by simpa using hcx⟩, rfl⟩
  · intro b hb hbq c hc
    have hb' := (List.mem_filter.mp hb).1
    have hc' := (List.mem_filter.mp hc).1
    rcases List.mem_append.mp hbq with hbq | hbq
    · exact h.parent_gone b hb' (List.mem_cons_of_mem x hbq) c hc'
    · obtain ⟨b', hb'', hpb, -, hkb⟩ := (mem_childKeys).mp hbq
      rw [← eq_of_key_eq h.keys_nodup hb'' hb' hkb, hpb]
      simpa using (List.mem_filter.mp hc).2

/-- **Run lemma.** From the invariant, with fuel for every element, the loop keeps exactly what is not reached. -/
theorem mem_eraseLoop : ∀ {fuel : Nat} {l : List α} {q : List κ}, Invariant key parentKey l q →
    l.length + 1 ≤ fuel → ∀ b, b ∈ eraseLoop key parentKey fuel l q ↔ b ∈ l ∧ ¬ Reach key parentKey l q b
  | 0, _, _, _, hf => absurd hf (Nat.not_succ_le_zero _)
  | _ + 1, l, [], _, _ => fun b => by simp [eraseLoop, not_reach_nil]
  | fuel + 1, l, x :: q, h, hf => fun b => by
    obtain ⟨h', hlen⟩ := h.step
    rw [eraseLoop, mem_eraseLoop h' (by omega) b, List.mem_filter]
    by_cases hbx : key b = x
    · simp only [hbx, ne_eq, not_true_eq_false, decide_false, Bool.false_eq_true, and_false, false_and,
        false_iff, not_and, not_not]
      exact fun hb => .root hb (hbx ▸ List.mem_cons_self)
    · rw [reach_step h.keys_nodup hbx]
      simp [hbx]

/-- The loop from one key, with fuel for every element and one turn more, keeps exactly the elements not
reached from it. -/
theorem mem_eraseLoop_single {fuel : Nat} {l : List α} (hl : KeysNodup key l) (x : κ) (hf : l.length + 2 ≤ fuel)
    (b : α) : b ∈ eraseLoop key parentKey fuel l [x] ↔ b ∈ l ∧ ¬ Reach key parentKey l [x] b := by
  obtain ⟨fuel, rfl⟩ : ∃ f, fuel = f + 1 := ⟨fuel - 1, by omega⟩
  have hlen : (l.filter (fun b => key b ≠ x)).length ≤ l.length := List.length_filter_le _ _
  rw [eraseLoop, List.nil_append, mem_eraseLoop (Invariant.first hl x) (by omega) b, List.mem_filter]
  by_cases hbx : key b = x
  · simp only [hbx, ne_eq, not_true_eq_false, decide_false, Bool.false_eq_true, and_false, false_and,
      false_iff, not_and, not_not]
    exact fun hb => .root hb (hbx ▸ List.mem_cons_self)
  · rw [← List.nil_append (childKeys key parentKey l x), reach_step hl hbx]
    simp [hbx]

end SubtreeErase
