import Mathlib

/-!
# Change records of one key

An undo log keeps, for each key of a partial map `K → Option V`, a `Change`: the value the key had before the
changes were logged (`old`), whether the key was created since (`new`), or the value it had before it was removed
(`removed`). `Change.Describes c s₀ s₁` says that `c` is exactly the change from `s₀` to `s₁` at that key.

* `describes_modify`, `describes_create`, `describes_remove`: logging an update keeps the record exact;
* `restore_of_describes`: restoring an exact record gives the value before;
* `describes_merge`: merging two consecutive exact records is exact, unless the key was deleted and then created
  again, which a log that hands out fresh keys never sees.
-/

/-- The change of one key since a snapshot. -/
structure Change (V : Type) where
  old : Option V
  new : Bool
  removed : Option V
  deriving DecidableEq

namespace Change

variable {V : Type}

/-- No change. -/
def nop : Change V := ⟨none, false, none⟩

/-- Log an update of a key that holds `v`: its first value is kept. -/
def modify (c : Change V) (v : V) : Change V :=
  if c.new then c else if c.old.isSome then c else { c with old := some v }

/-- Log the removal of a key that holds `v`: a created key is forgotten, an updated one keeps its first value. -/
def remove (c : Change V) (v : V) : Change V :=
  if c.new then { c with new := false }
  else match c.old with
    | some o => { c with removed := c.removed.or (some o), old := none }
    | none => { c with removed := c.removed.or (some v) }

/-- Log the creation of the key. -/
def create (c : Change V) : Change V := { c with new := true }

/-- Log the changes of `b` after those of `a`: first its update, then its creation, then its removal. -/
def merge (a b : Change V) : Change V :=
  let a₁ := (b.old.map a.modify).getD a
  let a₂ := if b.new then a₁.create else a₁
  (b.removed.map a₂.remove).getD a₂

/-- Undo the change on the current value `cur`: the first value comes back, a created key goes, a removed key
comes back. -/
def restore (c : Change V) (cur : Option V) : Option V :=
  (if c.new then none else c.old.or cur).or c.removed

/-- `c` is exactly the change from `s₀` to `s₁`: a created key is `new`, a removed key keeps its first value in
`removed`, and a key present on both sides keeps its first value in `old` unless it is unchanged. -/
def Describes : Change V → Option V → Option V → Prop
  | c, none, none => c = nop
  | c, none, some _ => c = ⟨none, true, none⟩
  | c, some a, none => c = ⟨none, false, some a⟩
  | c, some a, some b => c.new = false ∧ c.removed = none ∧ (c.old = some a ∨ c.old = none ∧ a = b)

theorem describes_nop (s : Option V) : Describes nop s s := by
  cases s with
  | none => rfl
  | some a => exact ⟨rfl, rfl, .inr ⟨rfl, rfl⟩⟩

/-- Updating a key that holds `w` to `w'`. -/
theorem describes_modify {c : Change V} {s₀ : Option V} {w : V} (h : Describes c s₀ (some w)) (w' : V) :
    Describes (c.modify w) s₀ (some w') := by
  cases s₀ with
  | none =>
    cases h
    rfl
  | some a =>
    obtain ⟨hn, hr, ho | ⟨ho, rfl⟩⟩ := h
    · exact ⟨by simp [modify, hn, ho], by simp [modify, hn, ho, hr], .inl (by simp [modify, hn, ho])⟩
    · exact ⟨by simp [modify, hn, ho], by simp [modify, hn, ho, hr], .inl (by simp [modify, hn, ho])⟩

/-- Creating a key that was absent on both sides. -/
theorem describes_create {c : Change V} (h : Describes c none none) (w : V) : Describes c.create none (some w) := by
  cases h
  rfl

/-- Removing a key that holds `w`. -/
theorem describes_remove {c : Change V} {s₀ : Option V} {w : V} (h : Describes c s₀ (some w)) :
    Describes (c.remove w) s₀ none := by
  cases s₀ with
  | none =>
    cases h
    rfl
  | some a =>
    obtain ⟨hn, hr, ho | ⟨ho, rfl⟩⟩ := h
    · obtain ⟨o, n, r⟩ := c
      simp only at hn hr ho
      subst hn hr ho
      rfl
    · obtain ⟨o, n, r⟩ := c
      simp only at hn hr ho
      subst hn hr ho
      rfl

/-- **Restore.** Undoing an exact record gives back the value before. -/
theorem restore_of_describes {c : Change V} {s₀ s₁ : Option V} (h : Describes c s₀ s₁) : c.restore s₁ = s₀ := by
  cases s₀ with
  | none =>
    cases s₁ with
    | none => cases h; rfl
    | some b => cases h; rfl
  | some a =>
    cases s₁ with
    | none => cases h; rfl
    | some b =>
      obtain ⟨hn, hr, ho | ⟨ho, rfl⟩⟩ := h <;> simp [restore, hn, hr, ho]

/-- **Merge.** Two consecutive exact records merge into an exact record, when the key was not removed and then
created again. -/
theorem describes_merge {a b : Change V} {s₀ s₁ s₂ : Option V} (ha : Describes a s₀ s₁) (hb : Describes b s₁ s₂)
    (hfresh : s₀ ≠ none → s₂ ≠ none → s₁ ≠ none) : Describes (a.merge b) s₀ s₂ := by
  cases s₁ with
  | none =>
    cases s₂ with
    | none =>
      cases hb
      simpa [merge, nop] using ha
    | some w =>
      cases hb
      cases s₀ with
      | none =>
        cases ha
        rfl
      | some x => exact absurd rfl (hfresh (by simp) (by simp))
  | some w =>
    -- `b` starts from a present key: `a.modify`, `a.remove` or nothing
    cases s₂ with
    | none =>
      cases hb
      simpa [merge, create] using describes_remove ha
    | some w' =>
      obtain ⟨hn, hr, ho | ⟨ho, rfl⟩⟩ := hb
      · simpa [merge, hn, hr, ho] using describes_modify ha w'
      · simpa [merge, hn, hr, ho] using ha

end Change
