import Mathlib

/-!
# Big-endian numerals in a mixed radix

A numeral is a list of digits read against a list of bases of the same length, most significant first:
`value (b :: bs) (d :: ds) = d * bs.prod + value bs ds`. `digits bs v` reads the digits of `v` back from the
most significant end.

* `value_digits`: `digits` inverts `value` below `bs.prod`, and `digits_fits` says its digits fit their bases;
* `value_lt_prod`: a numeral whose digits fit is below `bs.prod`;
* `value_lt_value_iff`: on numerals that fit, the numeric order is the lexicographic order of the digits.
-/

namespace Radix

/-- The value of the digits `ds` in the bases `bs`, most significant first. -/
def value : List Nat → List Nat → Nat
  | _ :: bs, d :: ds => d * bs.prod + value bs ds
  | _, _ => 0

/-- The digits of `v` in the bases `bs`, most significant first. -/
def digits : List Nat → Nat → List Nat
  | [], _ => []
  | b :: bs, v => v / bs.prod % b :: digits bs v

/-- Every digit is below its base. -/
def Fits (bs ds : List Nat) : Prop := List.Forall₂ (fun b d => d < b) bs ds

@[simp] theorem value_cons (b d : Nat) (bs ds : List Nat) : value (b :: bs) (d :: ds) = d * bs.prod + value bs ds :=
  rfl

@[simp] theorem length_digits (bs : List Nat) (v : Nat) : (digits bs v).length = bs.length := by
  induction bs with
  | nil => rfl
  | cons b bs ih => simp [digits, ih]

theorem value_digits_mod (bs : List Nat) (v : Nat) : value bs (digits bs v) = v % bs.prod := by
  induction bs with
  | nil => simp [value, Nat.mod_one]
  | cons b bs ih =>
    rw [digits, value, ih, List.prod_cons, Nat.mul_comm b, Nat.mod_mul]
    ring

/-- A numeral splits into a high and a low part. -/
theorem value_append {bs₁ ds : List Nat} (h : ds.length = bs₁.length) (bs₂ es : List Nat) :
    value (bs₁ ++ bs₂) (ds ++ es) = value bs₁ ds * bs₂.prod + value bs₂ es := by
  induction bs₁ generalizing ds with
  | nil =>
    rw [List.length_eq_zero_iff.mp h]
    simp [value]
  | cons b bs₁ ih =>
    obtain ⟨d, ds, rfl⟩ := List.exists_cons_of_length_eq_add_one h
    rw [List.cons_append, List.cons_append, value_cons, value_cons, ih (by simpa using h), List.prod_append]
    ring

theorem value_eq_zero {bs ds : List Nat} (h : ∀ d ∈ ds, d = 0) : value bs ds = 0 := by
  induction ds generalizing bs with
  | nil => cases bs <;> rfl
  | cons d ds ih =>
    cases bs with
    | nil => rfl
    | cons b bs =>
      rw [value_cons, h d List.mem_cons_self, ih fun d' hd => h d' (List.mem_cons_of_mem _ hd)]
      simp

/-- **Digits read back.** -/
theorem value_digits {bs : List Nat} {v : Nat} (h : v < bs.prod) : value bs (digits bs v) = v := by
  rw [value_digits_mod, Nat.mod_eq_of_lt h]

theorem digits_fits {bs : List Nat} (hb : ∀ b ∈ bs, 0 < b) (v : Nat) : Fits bs (digits bs v) := by
  induction bs with
  | nil => exact List.Forall₂.nil
  | cons b bs ih =>
    refine List.Forall₂.cons (Nat.mod_lt _ (hb b List.mem_cons_self)) (ih fun b' h => hb b' ?_)
    exact List.mem_cons_of_mem _ h

/-- A smaller leading digit wins whatever follows. -/
theorem mul_add_lt_of_lt {P d e x y : Nat} (hx : x < P) (h : d < e) : d * P + x < e * P + y :=
  calc d * P + x < d * P + P := by omega
    _ = (d + 1) * P := (Nat.succ_mul d P).symm
    _ ≤ e * P := Nat.mul_le_mul_right P h
    _ ≤ e * P + y := Nat.le_add_right _ _

theorem mul_add_lt_mul_add_iff {P d e x y : Nat} (hx : x < P) (hy : y < P) :
    d * P + x < e * P + y ↔ d < e ∨ d = e ∧ x < y := by
  constructor
  · intro h
    rcases lt_trichotomy d e with hde | rfl | hde
    · exact .inl hde
    · exact .inr ⟨rfl, by omega⟩
    · exact absurd h (Nat.lt_asymm (mul_add_lt_of_lt hy hde))
  · rintro (hde | ⟨rfl, hxy⟩)
    · exact mul_add_lt_of_lt hx hde
    · omega

theorem value_lt_prod {bs ds : List Nat} (h : Fits bs ds) : value bs ds < bs.prod := by
  induction h with
  | nil => simp [value]
  | @cons b d bs ds hd _ ih =>
    rw [value_cons, List.prod_cons]
    calc d * bs.prod + value bs ds < (b - 1) * bs.prod + bs.prod :=
          Nat.add_lt_add_of_le_of_lt (Nat.mul_le_mul_right _ (by omega)) ih
      _ = b * bs.prod := by rw [← Nat.succ_mul, Nat.succ_eq_add_one, Nat.sub_add_cancel (by omega)]

/-- **Numeric order is lexicographic order.** -/
theorem value_lt_value_iff {bs ds es : List Nat} (hd : Fits bs ds) (he : Fits bs es) :
    value bs ds < value bs es ↔ List.Lex (· < ·) ds es := by
  induction hd generalizing es with
  | nil =>
    cases he
    simp [value]
  | @cons b d bs ds _ hds ih =>
    cases he with
    | @cons _ e _ es _ hes =>
      rw [value_cons, value_cons, mul_add_lt_mul_add_iff (value_lt_prod hds) (value_lt_prod hes),
        List.cons_lex_cons_iff, ih hes]

end Radix
