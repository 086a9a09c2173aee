import Mathlib
import Gstio.Lib.SubtreeErase

/-!
# Raising subtrees layer by layer

Elements carry a key and the key of their parent, and some are below a bound. From one key, `loop` takes layer
after layer of keys: for each key of a layer it raises the children of that key that are below the bound, and the
keys of what it raised make the next layer, until a layer is empty. A raised element keeps its keys and is no longer
below the bound.

With unique keys, and the element of the first key not below the bound, the loop raises exactly the elements that
hang from that key through elements below the bound (`SubtreeErase.Reach` over them). The state of the loop is
written `raisedBy ks l`, the elements with the keys `ks` raised.

* `raiseChildren_raisedBy`, `layer_raisedBy`: a key, and a layer, raise the children below the bound not raised yet;
* `Invariant.layer`: a layer keeps what is raised reached, and what is reached but not raised hanging from the next
  layer;
* `loop_raisedBy`: with fuel for every element below the bound and one turn more, the loop raises exactly what is
  reached.
-/

namespace SubtreeRaise

open SubtreeErase

variable {α κ : Type} [DecidableEq κ] (key parentKey : α → κ) (below : α → Bool) (raise : α → α)

/-- One key `x` of a layer: raise its children below the bound, and queue their keys. -/
def raiseChildren (l : List α) (x : κ) : List α × List κ :=
  (l.map fun a => if parentKey a = x ∧ below a then raise a else a,
    (l.filter fun a => parentKey a = x ∧ below a).map key)

/-- A layer: its keys in turn, with the keys they queue in that order. -/
def layer : List α → List κ → List α × List κ
  | l, [] => (l, [])
  | l, x :: q =>
    let r := raiseChildren key parentKey below raise l x
    let r' := layer r.1 q
    (r'.1, r.2 ++ r'.2)

/-- The loop over layers, until a layer is empty. -/
def loop : Nat → List α → List κ → List α
  | 0, l, _ => l
  | _ + 1, l, [] => l
  | fuel + 1, l, x :: q =>
    let r := layer key parentKey below raise l (x :: q)
    loop fuel r.1 r.2

/-- The elements of `l` with their keys in `ks` raised. -/
def raisedBy (ks : List κ) (l : List α) : List α := l.map fun a => if key a ∈ ks then raise a else a

@[simp] theorem raisedBy_nil (l : List α) : raisedBy key raise [] l = l := by simp [raisedBy]

/-- The keys of the children of `x` in `l` below the bound, not in `ks`. -/
def freshChildren (l : List α) (ks : List κ) (x : κ) : List κ :=
  (l.filter fun a => parentKey a = x ∧ below a ∧ key a ∉ ks).map key

variable {key parentKey below raise}

section Raise

variable (hkey : ∀ a, key (raise a) = key a) (hparent : ∀ a, parentKey (raise a) = parentKey a)
  (hbelow : ∀ a, below (raise a) = false) {l : List α}

include hkey hparent hbelow in
/-- **One key.** Over `raisedBy ks l`, a key raises the children below the bound whose keys are not in `ks`. -/
theorem raiseChildren_raisedBy (hl : KeysNodup key l) (ks : List κ) (x : κ) :
    raiseChildren key parentKey below raise (raisedBy key raise ks l) x =
      (raisedBy key raise (ks ++ freshChildren key parentKey below l ks x) l,
        freshChildren key parentKey below l ks x) := by
  unfold raiseChildren raisedBy freshChildren
  congr 1
  · rw [List.map_map]
    refine List.map_congr_left fun a ha => ?_
    by_cases hks : key a ∈ ks
    · simp [hks, hparent, hbelow]
    · -- a fresh child of `x` is `a` itself: keys are unique
      have hfresh : key a ∈ (l.filter fun b => parentKey b = x ∧ below b ∧ key b ∉ ks).map key ↔
          parentKey a = x ∧ below a := by
        constructor
        · intro hmem
          obtain ⟨b, hb, hkb⟩ := List.mem_map.mp hmem
          have hb' := List.mem_filter.mp hb
          rw [eq_of_key_eq hl hb'.1 ha hkb] at hb'
          obtain ⟨hpa, hba, -⟩ : parentKey a = x ∧ below a = true ∧ key a ∉ ks := by simpa using hb'.2
          exact ⟨hpa, hba⟩
        · intro hab
          exact List.mem_map.mpr ⟨a, List.mem_filter.mpr ⟨ha, by simpa [hks] using hab⟩, rfl⟩
      simp only [Function.comp_apply, hks, if_false, List.mem_append, false_or, hfresh]
  · rw [List.filter_map, List.map_map]
    congr 1
    · funext a
      by_cases hks : key a ∈ ks <;> simp [hks, hkey]
    · refine List.filter_congr fun a _ => ?_
      by_cases hks : key a ∈ ks <;> simp [hks, hparent, hbelow]

include hkey hparent hbelow in
/-- **A layer.** Over `raisedBy ks l`, a layer raises the children below the bound of its keys, not in `ks`, each
once. -/
theorem layer_raisedBy (hl : KeysNodup key l) :
    ∀ (q ks : List κ), ∃ u,
      layer key parentKey below raise (raisedBy key raise ks l) q = (raisedBy key raise (ks ++ u) l, u) ∧
      u.Nodup ∧ ∀ k, k ∈ u ↔ ∃ a ∈ l, below a ∧ key a ∉ ks ∧ parentKey a ∈ q ∧ key a = k
  | [], ks => ⟨[], by simp [layer]⟩
  | x :: q, ks => by
    obtain ⟨u, hu, hnd, hmem⟩ := layer_raisedBy hl q (ks ++ freshChildren key parentKey below l ks x)
    have hfresh : ∀ k, k ∈ freshChildren key parentKey below l ks x ↔
        ∃ a ∈ l, parentKey a = x ∧ below a ∧ key a ∉ ks ∧ key a = k := by
      intro k
      simp [freshChildren, and_assoc]
    refine ⟨freshChildren key parentKey below l ks x ++ u, ?_, ?_, fun k => ?_⟩
    · rw [layer, raiseChildren_raisedBy hkey hparent hbelow hl, hu, List.append_assoc]
    · refine List.nodup_append.mpr ⟨by unfold freshChildren; exact hl.filter _, hnd, fun k hk k' hk' hkk => ?_⟩
      obtain ⟨_, _, _, hnot, _, rfl⟩ := (hmem k').mp hk'
      exact hnot (List.mem_append_right _ (hkk ▸ hk))
    · rw [List.mem_append, hfresh, hmem]
      constructor
      · rintro (⟨a, ha, hpa, hba, hks, rfl⟩ | ⟨a, ha, hba, hks, hpa, rfl⟩)
        · exact ⟨a, ha, hba, hks, hpa ▸ List.mem_cons_self, rfl⟩
        · exact ⟨a, ha, hba, fun h => hks (List.mem_append_left _ h), List.mem_cons_of_mem x hpa, rfl⟩
      · rintro ⟨a, ha, hba, hks, hpa, rfl⟩
        by_cases hpx : parentKey a = x
        · exact .inl ⟨a, ha, hpx, hba, hks, rfl⟩
        · refine .inr ⟨a, ha, hba, fun h => ?_, (List.mem_cons.mp hpa).resolve_left hpx, rfl⟩
          rcases List.mem_append.mp h with h | h
          · exact hks h
          · obtain ⟨b, hb, hpb, -, -, hkb⟩ := (hfresh _).mp h
            exact hpx (eq_of_key_eq hl hb ha hkb ▸ hpb)

end Raise

section Loop

variable (key parentKey below) (l : List α) (x : κ)

/-- The state of the loop with the keys `ks` raised and the layer `q` next: what is raised hangs from `x` through
elements below the bound; the layer holds `x` or raised keys; what hangs from `x` and is not raised hangs from the
layer through elements below the bound not raised. -/
structure Invariant (ks q : List κ) : Prop where
  raised_nodup : ks.Nodup
  raised_reached : ∀ k ∈ ks, ∃ a ∈ l, below a ∧ key a = k ∧ Reach key parentKey (l.filter below) [x] a
  queued : ∀ k ∈ q, k = x ∨ k ∈ ks
  pending : ∀ a, Reach key parentKey (l.filter below) [x] a → key a ∉ ks →
    Reach key parentKey ((l.filter below).filter fun b => key b ∉ ks) q a

variable {key parentKey below l x}

theorem Invariant.start : Invariant key parentKey below l x [] [x] where
  raised_nodup := List.nodup_nil
  raised_reached _ hk := absurd hk List.not_mem_nil
  queued _ hk := .inl (List.mem_singleton.mp hk)
  pending a ha _ := by simpa using ha

/-- The raised keys are keys of distinct elements below the bound: no more of them than such elements. -/
theorem Invariant.length_le {ks q : List κ} (h : Invariant key parentKey below l x ks q) :
    ks.length ≤ (l.filter below).length := by
  have hsub : ks ⊆ (l.filter below).map key := fun k hk => by
    obtain ⟨a, ha, hba, hka, -⟩ := h.raised_reached k hk
    exact List.mem_map.mpr ⟨a, List.mem_filter.mpr ⟨ha, hba⟩, hka⟩
  simpa using (h.raised_nodup.subperm hsub).length_le

/-- **Step lemma.** A layer keeps the invariant, with the keys it raised as the next layer. -/
theorem Invariant.layer (hx : ∀ a ∈ l, key a = x → below a = false) {ks q u : List κ}
    (h : Invariant key parentKey below l x ks q) (hnd : u.Nodup)
    (hu : ∀ k, k ∈ u ↔ ∃ a ∈ l, below a ∧ key a ∉ ks ∧ parentKey a ∈ q ∧ key a = k) :
    Invariant key parentKey below l x (ks ++ u) u where
  raised_nodup := by
    refine List.nodup_append.mpr ⟨h.raised_nodup, hnd, fun k hk k' hk' hkk => ?_⟩
    obtain ⟨_, _, _, hnot, _, rfl⟩ := (hu k').mp hk'
    exact hnot (hkk ▸ hk)
  raised_reached k hk := by
    rcases List.mem_append.mp hk with hk | hk
    · exact h.raised_reached k hk
    · obtain ⟨a, ha, hba, -, hpa, rfl⟩ := (hu k).mp hk
      have haB : a ∈ l.filter below := List.mem_filter.mpr ⟨ha, hba⟩
      refine ⟨a, ha, hba, rfl, ?_⟩
      -- its parent is `x`, or a raised key
      rcases h.queued _ hpa with hpx | hpk
      · exact .orphan haB (hpx ▸ List.mem_singleton_self _)
      · obtain ⟨c, -, -, hkc, hc⟩ := h.raised_reached _ hpk
        exact .step haB hc hkc.symm
  queued k hk := .inr (List.mem_append_right _ hk)
  pending a ha hks := by
    have hnotks : key a ∉ ks := fun h' => hks (List.mem_append_left _ h')
    have hreach := h.pending a ha hnotks
    clear ha hnotks
    induction hreach with
    | root hb hq =>
      -- a queued key is `x`, whose element is not below the bound, or raised
      have hb' := List.mem_filter.mp (List.mem_filter.mp hb).1
      rcases h.queued _ hq with hbx | hbk
      · simp [hx _ hb'.1 hbx] at hb'
      · exact absurd (List.mem_append_left _ hbk) hks
    | orphan hb hq =>
      -- a child of the layer below the bound is raised by it
      have hb₁ := List.mem_filter.mp hb
      have hb₂ := List.mem_filter.mp hb₁.1
      exact absurd (List.mem_append_right _ ((hu _).mpr ⟨_, hb₂.1, hb₂.2, by simpa using hb₁.2, hq, rfl⟩)) hks
    | step hb hc hbc ih =>
      rename_i b c
      have hb₁ := List.mem_filter.mp hb
      have hbB : b ∈ (l.filter below).filter fun d => key d ∉ ks ++ u :=
        List.mem_filter.mpr ⟨hb₁.1, by simpa using hks⟩
      by_cases hcu : key c ∈ u
      · exact .orphan hbB (hbc ▸ hcu)
      · have hcks : key c ∉ ks := by simpa using (List.mem_filter.mp hc.mem).2
        exact .step hbB (ih fun h' => (List.mem_append.mp h').elim hcks hcu) hbc

variable (hkey : ∀ a, key (raise a) = key a) (hparent : ∀ a, parentKey (raise a) = parentKey a)
  (hbelow : ∀ a, below (raise a) = false)

include hkey hparent hbelow in
/-- **Run lemma.** From the invariant, with fuel for every element below the bound not raised and one turn more,
the loop ends on an empty layer, having raised exactly what hangs from `x`. -/
theorem loop_raisedBy (hl : KeysNodup key l) (hx : ∀ a ∈ l, key a = x → below a = false) :
    ∀ (fuel : Nat) {ks q : List κ}, Invariant key parentKey below l x ks q →
      (q ≠ [] → (l.filter below).length - ks.length < fuel) →
      ∃ ks', Invariant key parentKey below l x ks' [] ∧
        loop key parentKey below raise fuel (raisedBy key raise ks l) q = raisedBy key raise ks' l
  | _, _, [], h, _ => ⟨_, h, by cases ‹Nat› <;> rfl⟩
  | 0, _, _ :: _, _, hf => absurd (hf (List.cons_ne_nil _ _)) (Nat.not_lt_zero _)
  | fuel + 1, ks, y :: q, h, hf => by
    obtain ⟨u, hu, hnd, hmem⟩ := layer_raisedBy hkey hparent hbelow hl (y :: q) ks
    have h' := h.layer hx hnd hmem
    have hlen := h'.length_le
    rw [List.length_append] at hlen
    have hfuel : u ≠ [] → (l.filter below).length - (ks ++ u).length < fuel := by
      intro hne
      have := List.length_pos_iff.mpr hne
      have := hf (List.cons_ne_nil _ _)
      rw [List.length_append]
      omega
    obtain ⟨ks', hinv, hloop⟩ := loop_raisedBy hl hx fuel h' hfuel
    refine ⟨ks', hinv, ?_⟩
    rw [loop, hu]
    exact hloop

/-- With the layer empty, the raised keys are exactly those of the elements that hang from `x`. -/
theorem Invariant.mem_iff (hl : KeysNodup key l) {ks : List κ} (h : Invariant key parentKey below l x ks [])
    {a : α} (ha : a ∈ l) : key a ∈ ks ↔ Reach key parentKey (l.filter below) [x] a := by
  constructor
  · intro hk
    obtain ⟨b, hb, -, hkb, hreach⟩ := h.raised_reached _ hk
    rwa [eq_of_key_eq hl hb ha hkb] at hreach
  · intro hreach
    by_contra hk
    exact not_reach_nil (h.pending a hreach hk)

end Loop

end SubtreeRaise
