import Mathlib

/-!
# Actions that apply or roll back

An action is a partial update `σ → Except ε σ`. A system that runs each action in an undo session of its own
keeps the state the action leaves when it returns, and goes back to the state before it when it throws:
`Rollback.step`, and `Rollback.run` over a list of actions.

* `Except.assert`: an assertion that throws;
* `Except.ok_bind`, `Except.error_bind`: a computation after a value or an exception;
* `Except.bind_eq_ok`, `Except.forM_eq_ok`, `Except.map_eq_ok`, `Except.toOption_eq_some`: how a computation in
  `Except` that returned splits into its parts;
* `Except.foldlM_invariant`: a fold of steps that each keep a property, or throw one error, returns a state with
  the property or throws that error;
* `Rollback.run_invariant`: a property that every returning action keeps holds after every run.
-/

namespace Except

variable {ε α β : Type}

/-- `GST_ASSERT(cond, e)`: throw `e` unless `cond` holds. -/
def assert (cond : Bool) (e : ε) : Except ε Unit := if cond then .ok () else .error e

@[simp] theorem assert_eq_ok {c : Bool} {e : ε} {u : Unit} : assert c e = .ok u ↔ c = true := by
  cases c <;> simp [assert]

/-- A computation after an assertion returns when the assertion holds and the rest returns. -/
theorem assert_bind_eq_ok {c : Bool} {e : ε} {f : Unit → Except ε β} {b : β} :
    (assert c e >>= f) = .ok b ↔ c = true ∧ f () = .ok b := by
  cases c <;> simp [assert, bind, Except.bind]

theorem ok_bind {a : α} {f : α → Except ε β} : (Except.ok a >>= f) = f a := rfl

theorem error_bind {e : ε} {f : α → Except ε β} : (Except.error e >>= f) = .error e := rfl

theorem bind_eq_ok {x : Except ε α} {f : α → Except ε β} {b : β} :
    x.bind f = .ok b ↔ ∃ a, x = .ok a ∧ f a = .ok b := by
  cases x <;> simp [Except.bind]

/-- A loop of checks returns when each check does. -/
theorem forM_eq_ok {xs : List α} {g : α → Except ε Unit} : xs.forM g = .ok () ↔ ∀ x ∈ xs, g x = .ok () := by
  induction xs with
  | nil => simp [pure, Except.pure]
  | cons x xs ih =>
    rw [List.forall_mem_cons, ← ih]
    show (g x >>= fun _ => xs.forM g) = .ok () ↔ _
    cases g x <;> simp [bind, Except.bind]

theorem map_eq_ok {x : Except ε α} {f : α → β} {b : β} : x.map f = .ok b ↔ ∃ a, x = .ok a ∧ f a = b := by
  cases x <;> simp [Except.map]

theorem toOption_eq_some {x : Except ε α} {a : α} : x.toOption = some a ↔ x = .ok a := by
  cases x <;> simp [Except.toOption]

/-- **Invariant rule for a fold.** When every step on a state with `I` and an element with `P` returns a state with
`I` or throws `e`, the fold over elements with `P` does too. -/
theorem foldlM_invariant {σ : Type} {f : σ → α → Except ε σ} {I : σ → Prop} {P : α → Prop} {e : ε}
    (hf : ∀ s a, I s → P a → (∃ s', f s a = .ok s' ∧ I s') ∨ f s a = .error e) :
    ∀ (as : List α) (s : σ), I s → (∀ a ∈ as, P a) →
      (∃ s', as.foldlM f s = .ok s' ∧ I s') ∨ as.foldlM f s = .error e
  | [], s, hs, _ => .inl ⟨s, rfl, hs⟩
  | a :: as, s, hs, hp => by
    rw [List.foldlM_cons]
    rcases hf s a hs (hp a List.mem_cons_self) with ⟨s', hs', hI⟩ | herr
    · rw [hs']
      exact foldlM_invariant hf as s' hI fun b hb => hp b (List.mem_cons_of_mem a hb)
    · rw [herr]
      exact .inr rfl

end Except

namespace Rollback

variable {α σ ε : Type} (act : α → σ → Except ε σ)

/-- Run `a` on `s`: its result when it returns, `s` when it throws. -/
def step (s : σ) (a : α) : σ :=
  match act a s with
  | .ok s' => s'
  | .error _ => s

/-- Run the actions one after the other, each in its own session. -/
def run (s : σ) (as : List α) : σ := as.foldl (step act) s

variable {act}

theorem step_of_ok {s s' : σ} {a : α} (h : act a s = .ok s') : step act s a = s' := by
  simp [step, h]

theorem step_of_error {s : σ} {a : α} {e : ε} (h : act a s = .error e) : step act s a = s := by
  simp [step, h]

@[simp] theorem run_nil (s : σ) : run act s [] = s := rfl

@[simp] theorem run_cons (s : σ) (a : α) (as : List α) : run act s (a :: as) = run act (step act s a) as := rfl

/-- **Invariant rule.** What every returning action keeps holds after every run. -/
theorem run_invariant {I : σ → Prop} (hact : ∀ a s s', I s → act a s = .ok s' → I s') :
    ∀ (as : List α) {s : σ}, I s → I (run act s as)
  | [], _, hs => hs
  | a :: as, s, hs => by
    rw [run_cons]
    apply run_invariant hact as
    cases h : act a s with
    | ok s' => rw [step_of_ok h]; exact hact a s s' hs h
    | error e => rw [step_of_error h]; exact hs

end Rollback
