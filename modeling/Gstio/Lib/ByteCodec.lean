import Mathlib

/-!
# Canonical byte codecs

A writer `α → List UInt8` and a reader `List UInt8 → Except ε (α × List UInt8)`, which returns the value read and
the bytes left. The pair is canonical when the reader accepts exactly what the writer writes, followed by anything:
`read s = .ok (x, rest) ↔ s = write x ++ rest`. Then reading undoes writing, and a reader that returns has read the
bytes of its value and nothing else.

Canonical pairs compose: one value after another (`Canonical.seq`), and through a bijection (`Canonical.map`), which
is how a record is written and read field by field.
-/

namespace ByteCodec

variable {ε α β : Type}

/-- The reader accepts exactly the writer's bytes, followed by anything. -/
def Canonical (write : α → List UInt8) (read : List UInt8 → Except ε (α × List UInt8)) : Prop :=
  ∀ s x rest, read s = .ok (x, rest) ↔ s = write x ++ rest

/-- Read one value, then another from the bytes left. -/
def seq (ra : List UInt8 → Except ε (α × List UInt8)) (rb : List UInt8 → Except ε (β × List UInt8))
    (s : List UInt8) : Except ε ((α × β) × List UInt8) := do
  let (a, s) ← ra s
  let (b, s) ← rb s
  pure ((a, b), s)

/-- Read a value and convert it. -/
def map (f : α → β) (r : List UInt8 → Except ε (α × List UInt8)) (s : List UInt8) : Except ε (β × List UInt8) :=
  (r s).map fun p => (f p.1, p.2)

variable {w : α → List UInt8} {r : List UInt8 → Except ε (α × List UInt8)}

theorem Canonical.read_write (h : Canonical w r) (x : α) (rest : List UInt8) : r (w x ++ rest) = .ok (x, rest) :=
  (h _ _ _).mpr rfl

theorem Canonical.eq_of_read (h : Canonical w r) {s rest : List UInt8} {x : α} (hr : r s = .ok (x, rest)) :
    s = w x ++ rest :=
  (h _ _ _).mp hr

/-- A canonical writer never writes one value's bytes for another. -/
theorem Canonical.injective (h : Canonical w r) : Function.Injective w := by
  intro x y hxy
  have hx := h.read_write x []
  rw [hxy, h.read_write y []] at hx
  exact (Prod.mk.inj (Except.ok.inj hx)).1.symm

/-- **Sequencing.** Reading two canonical values one after the other is canonical for the two writes. -/
theorem Canonical.seq {wb : β → List UInt8} {rb : List UInt8 → Except ε (β × List UInt8)} (ha : Canonical w r)
    (hb : Canonical wb rb) : Canonical (fun p => w p.1 ++ wb p.2) (ByteCodec.seq r rb) := by
  rintro s ⟨a, b⟩ rest
  constructor
  · intro h
    -- the first reader returned, then the second, each on the bytes the one before left
    cases hs : r s with
    | error e => simp [ByteCodec.seq, hs, bind, Except.bind] at h
    | ok p₁ =>
      obtain ⟨a', s₁⟩ := p₁
      cases hs₁ : rb s₁ with
      | error e => simp [ByteCodec.seq, hs, hs₁, bind, Except.bind] at h
      | ok p₂ =>
        obtain ⟨b', s₂⟩ := p₂
        simp only [ByteCodec.seq, hs, hs₁, bind, Except.bind, pure, Except.pure, Except.ok.injEq, Prod.mk.injEq]
          at h
        obtain ⟨⟨rfl, rfl⟩, rfl⟩ := h
        rw [ha.eq_of_read hs, hb.eq_of_read hs₁, List.append_assoc]
  · rintro rfl
    simp only [ByteCodec.seq, List.append_assoc, ha.read_write, hb.read_write, bind, Except.bind, pure, Except.pure]

/-- **Conversion.** A canonical pair, converted through a bijection, is canonical. -/
theorem Canonical.map {f : α → β} {g : β → α} (h : Canonical w r) (hfg : ∀ y, f (g y) = y)
    (hgf : ∀ x, g (f x) = x) : Canonical (fun y => w (g y)) (ByteCodec.map f r) := by
  intro s y rest
  constructor
  · intro hr
    cases hs : r s with
    | error e => simp [ByteCodec.map, hs, Except.map] at hr
    | ok p =>
      obtain ⟨x, s₁⟩ := p
      simp only [ByteCodec.map, hs, Except.map, Except.ok.injEq, Prod.mk.injEq] at hr
      obtain ⟨rfl, rfl⟩ := hr
      show s = w (g (f x)) ++ s₁
      rw [h.eq_of_read hs, hgf]
  · rintro rfl
    simp only [ByteCodec.map, h.read_write, Except.map, hfg]

end ByteCodec
