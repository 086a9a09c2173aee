import Mathlib

/-!
# Decimal numerals as text

`Nat.toDigits 10` prints a number and `Nat.ofDigitChars 10 · 0` reads decimal digits back. This file adds what a
reader of printed numbers needs beyond the library's `Nat.ofDigitChars_ten_toDigits`:

* `ofDigitChars_lt_pow`: `k` digits read as less than `10 ^ k`;
* `toDigits_pow_add`: `10 ^ d + r` with `r < 10 ^ d` prints as `1` and the `d` digits of `r`, leading zeros kept,
  the way a fixed number of decimals is printed;
* `idxOf?_append_cons`: the first occurrence of a separator after a part without it.
-/

namespace DecimalText

theorem toNat_le_of_isDigit {c : Char} (h : c.isDigit = true) : 48 ≤ c.toNat ∧ c.toNat ≤ 57 :=
  Char.isDigit_iff_toNat.mp h

theorem toNat_ofNat_of_lt {n : Nat} (h : n < 256) : (Char.ofNat n).toNat = n := by
  have hv : n.isValidChar := Or.inl (by omega)
  simp [Char.ofNat, hv, Char.ofNatAux, Char.toNat]

theorem isDigit_of_mem_toDigits {c : Char} {n : Nat} (h : c ∈ Nat.toDigits 10 n) : c.isDigit = true :=
  Nat.isDigit_of_mem_toDigits (by decide) (by decide) h

/-- `k` digits read as a number below `10 ^ k`. -/
theorem ofDigitChars_lt_pow : ∀ {l : List Char}, (∀ c ∈ l, c.isDigit = true) →
    Nat.ofDigitChars 10 l 0 < 10 ^ l.length
  | [], _ => by simp
  | c :: cs, h => by
    have hc := toNat_le_of_isDigit (h c List.mem_cons_self)
    have ih := ofDigitChars_lt_pow fun x hx => h x (List.mem_cons_of_mem c hx)
    rw [Nat.ofDigitChars_cons, Nat.ofDigitChars_eq_ofDigitChars_zero, List.length_cons, Nat.pow_succ]
    -- the leading digit is at most 9, and the rest below `10 ^ cs.length`
    have hd : 10 * 0 + (c.toNat - '0'.toNat) ≤ 9 := by simp only [Char.reduceToNat]; omega
    calc 10 ^ cs.length * (10 * 0 + (c.toNat - '0'.toNat)) + Nat.ofDigitChars 10 cs 0
        < 10 ^ cs.length * (10 * 0 + (c.toNat - '0'.toNat)) + 10 ^ cs.length := by omega
      _ = 10 ^ cs.length * (10 * 0 + (c.toNat - '0'.toNat) + 1) := by ring
      _ ≤ 10 ^ cs.length * 10 := Nat.mul_le_mul_left _ (by omega)

/-- `10 ^ d + r` with `r < 10 ^ d` prints as `1` followed by the `d` digits of `r`, leading zeros kept. -/
theorem toDigits_pow_add {d r : Nat} (hr : r < 10 ^ d) :
    ∃ F, Nat.toDigits 10 (10 ^ d + r) = '1' :: F ∧ F.length = d ∧ (∀ c ∈ F, c.isDigit = true) ∧
      Nat.ofDigitChars 10 F 0 = r := by
  -- the numeral has `d + 1` digits
  have hlen : (Nat.toDigits 10 (10 ^ d + r)).length = d + 1 := by
    have hle := (Nat.length_toDigits_le_iff (by decide) (Nat.succ_pos d)).mpr
      (by rw [Nat.pow_succ]; omega : 10 ^ d + r < 10 ^ (d + 1))
    have hgt : ¬ (Nat.toDigits 10 (10 ^ d + r)).length ≤ d := by
      rcases Nat.eq_zero_or_pos d with rfl | hd
      · simp
      · rw [Nat.length_toDigits_le_iff (by decide) hd]
        omega
    omega
  obtain ⟨c, F, hcF⟩ := List.exists_cons_of_ne_nil (Nat.toDigits_ne_nil (n := 10 ^ d + r) (b := 10))
  have hF : F.length = d := by rw [hcF, List.length_cons] at hlen; omega
  have hdig : ∀ x ∈ F, x.isDigit = true := fun x hx => isDigit_of_mem_toDigits (hcF ▸ List.mem_cons_of_mem c hx)
  have hc := toNat_le_of_isDigit (isDigit_of_mem_toDigits (hcF ▸ List.mem_cons_self : c ∈ Nat.toDigits 10 _))
  have hval := Nat.ofDigitChars_ten_toDigits (n := 10 ^ d + r)
  rw [hcF, Nat.ofDigitChars_cons, Nat.ofDigitChars_eq_ofDigitChars_zero, hF] at hval
  have hlt := ofDigitChars_lt_pow hdig
  rw [hF] at hlt
  simp only [Char.reduceToNat, Nat.mul_zero, Nat.zero_add] at hval
  -- the leading digit is `1`: a greater one would exceed `10 ^ d + r`, a smaller one fall short
  have hone : c.toNat - 48 = 1 := by
    rcases Nat.lt_or_ge (c.toNat - 48) 1 with h0 | h1
    · have : c.toNat - 48 = 0 := by omega
      rw [this, Nat.mul_zero, Nat.zero_add] at hval
      omega
    · rcases Nat.lt_or_ge 1 (c.toNat - 48) with h2 | h2
      · have : 10 ^ d * 2 ≤ 10 ^ d * (c.toNat - 48) := Nat.mul_le_mul_left _ h2
        omega
      · omega
  refine ⟨F, ?_, hF, hdig, ?_⟩
  · rw [hcF, List.cons.injEq]
    exact ⟨Char.toNat_inj.mp (by simp only [Char.reduceToNat]; omega), rfl⟩
  · rw [hone, Nat.mul_one] at hval
    omega

theorem idxOf?_append_cons {a : Char} {l₁ l₂ : List Char} (h : a ∉ l₁) :
    (l₁ ++ a :: l₂).idxOf? a = some l₁.length := by
  induction l₁ with
  | nil => simp [List.idxOf?_cons]
  | cons x xs ih =>
    have hx : x ≠ a := fun hx => h (hx ▸ List.mem_cons_self)
    rw [List.cons_append, List.idxOf?_cons, if_neg (by simpa using hx),
      ih (fun hm => h (List.mem_cons_of_mem x hm))]
    rfl

end DecimalText
