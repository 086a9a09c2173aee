import Mathlib
import Gstio.Lib.Radix

/-!
# Names: the base-32 codec of `name.hpp` and `name.cpp`

A `name` is a `uint64_t` read as thirteen symbols, twelve of five bits from the top and a last one of four bits.
`string_to_name` packs the characters of a C string into the slots from the top (`stringToName`),
`name::operator string` unpacks them from the bottom and trims the trailing dots (`Name.toString`), and
`name::set` accepts a string only if it is at most 13 characters long and prints back as itself (`Name.set`).

* `toString_eq`: the printed name is the trimmed symbols of the digits of the value in the bases `nameBases`;
* `stringToName_toString`: every 64-bit value survives printing and re-encoding;
* `toString_lt_toString_iff`: printing is order preserving, from the numeric order to the lexicographic one.
-/

namespace Gstio.Chain

/-! ## C strings -/

/-- The terminator of a C string. -/
def nul : Char := Char.ofNat 0

/-- The characters of a C string: everything before the first terminator. -/
def cString (s : List Char) : List Char := s.takeWhile (· != nul)

/-- `strnlen(str, n)`. -/
def strnlen (s : List Char) (n : Nat) : Nat := min (cString s).length n

/-- `boost::algorithm::trim_right_if`: drop the trailing elements that satisfy `p`. -/
def trimRightIf {α : Type} (p : α → Bool) : List α → List α
  | [] => []
  | c :: cs => if (trimRightIf p cs).isEmpty ∧ p c then [] else c :: trimRightIf p cs

/-! ## The codec -/

/-- `char_to_symbol`: `a`–`z` to 6–31, `1`–`5` to 1–5, every other character to 0. -/
def charToSymbol (c : Char) : UInt64 :=
  if c ≥ 'a' ∧ c ≤ 'z' then (c.toNat - 'a'.toNat + 6).toUInt64
  else if c ≥ '1' ∧ c ≤ '5' then (c.toNat - '1'.toNat + 1).toUInt64
  else 0

/-- The first loop of `string_to_name`, at slot `i` with the rest `cs` of the string: each character goes to
its 5-bit slot from the top, until the terminator or slot 12. Returns the slot reached and the value. -/
def stringToNameLoop : List Char → Nat → UInt64 → Nat × UInt64
  | [], i, name => (i, name)
  | c :: cs, i, name =>
    if c ≠ nul ∧ i < 12 then
      stringToNameLoop cs (i + 1) (name ||| ((charToSymbol c &&& 0x1f) <<< (64 - 5 * (i + 1)).toUInt64))
    else (i, name)

/-- `string_to_name`: a thirteenth character goes to the low four bits. -/
def stringToName (str : List Char) : UInt64 :=
  let (i, name) := stringToNameLoop str 0 0
  if i = 12 then name ||| (charToSymbol (str.getD 12 nul) &&& 0x0F) else name

/-- `name`. -/
structure Name where
  value : UInt64
  deriving DecidableEq, Repr

namespace Name

/-- Names compare by their values, as `operator<` of `name` does. -/
instance : LinearOrder Name :=
  LinearOrder.lift' (fun n => n.value.toNat) fun a b h => by
    cases a
    cases b
    exact congrArg Name.mk (UInt64.toNat_inj.mp h)

/-- `name::empty`. -/
def empty (n : Name) : Bool := n.value == 0

/-- The `charmap` of `name::operator string`. -/
def charmap : List Char := ".12345abcdefghijklmnopqrstuvwxyz".toList

/-- Pass `i` of the loop of `name::operator string`: the low symbol of `tmp` (four bits on the first pass,
five after) goes to `str[12 - i]`. -/
def toStringStep (st : UInt64 × List Char) (i : Nat) : UInt64 × List Char :=
  (st.1 >>> (if i = 0 then 4 else 5),
    st.2.set (12 - i) (charmap.getD (st.1 &&& (if i = 0 then 0x0f else 0x1f)).toNat '.'))

/-- The loop of `name::operator string` after `k` passes, from `tmp = value` and thirteen dots. -/
def toStringLoop (v : UInt64) (k : Nat) : UInt64 × List Char :=
  (List.range k).foldl toStringStep (v, List.replicate 13 '.')

/-- `name::operator string` (`to_string`). -/
def toString (n : Name) : List Char := trimRightIf (· == '.') (toStringLoop n.value 13).2

/-- The errors of `name::set`. -/
inductive Error
  /-- `"Name is longer than 13 characters (${name}) "` -/
  | tooLong (name : List Char)
  /-- `"Name not properly normalized (name: ${name}, normalized: ${normalized}) "` -/
  | notNormalized (name normalized : List Char)
  deriving DecidableEq, Repr

/-- `name::set`: at most 13 characters, and the encoded name prints back as the string. -/
def set (str : List Char) : Except Error Name :=
  if strnlen str 14 ≤ 13 then
    if (Name.mk (stringToName str)).toString = cString str then .ok ⟨stringToName str⟩
    else .error (.notNormalized (cString str) (Name.mk (stringToName str)).toString)
  else .error (.tooLong (cString str))

example : (set "gstio.token".toList).map toString = .ok "gstio.token".toList := by decide

/-! ## The symbols of a value -/

/-- The bases of the thirteen symbols, most significant first: twelve of five bits and a last one of four. -/
def nameBases : List Nat := List.replicate 12 32 ++ [16]

/-- The character printed for a symbol. -/
def symbolChar (d : Nat) : Char := charmap.getD d '.'

theorem prod_nameBases : nameBases.prod = 2 ^ 64 := by decide

theorem nameBases_pos : ∀ b ∈ nameBases, 0 < b := by decide

/-- Pass `k` of the printing loop reads the base at position `12 - k`. -/
theorem drop_nameBases : ∀ k < 13, nameBases.drop (12 - k) = (if k = 0 then 16 else 32) :: nameBases.drop (13 - k) := by
  decide

theorem charToSymbol_symbolChar : ∀ d < 32, (charToSymbol (symbolChar d)).toNat = d := by decide

theorem charToSymbol_lt (c : Char) : (charToSymbol c).toNat < 32 := by
  unfold charToSymbol
  split_ifs with h₁ h₂
  · have hz : c.toNat ≤ 'z'.toNat := h₁.2
    have hlt : c.toNat - 'a'.toNat + 6 < 32 := by
      rw [show 'z'.toNat = 122 from rfl] at hz
      rw [show 'a'.toNat = 97 from rfl]
      omega
    rw [Nat.toUInt64_eq, UInt64.toNat_ofNat', Nat.mod_eq_of_lt (by omega)]
    exact hlt
  · have h5 : c.toNat ≤ '5'.toNat := h₂.2
    have hlt : c.toNat - '1'.toNat + 1 < 32 := by
      rw [show '5'.toNat = 53 from rfl] at h5
      rw [show '1'.toNat = 49 from rfl]
      omega
    rw [Nat.toUInt64_eq, UInt64.toNat_ofNat', Nat.mod_eq_of_lt (by omega)]
    exact hlt
  · decide

theorem charToSymbol_nul : charToSymbol nul = 0 := by decide

theorem symbolChar_ne_nul (d : Nat) : symbolChar d ≠ nul := by
  by_cases hd : d < 32
  · have hsmall : ∀ d < 32, symbolChar d ≠ nul := by decide
    exact hsmall d hd
  · -- past the table `getD` falls back to the dot
    have hlen : charmap.length ≤ d := by
      have : charmap.length = 32 := by decide
      omega
    rw [symbolChar, List.getD_eq_getElem?_getD, List.getElem?_eq_none hlen, Option.getD_none]
    decide

theorem symbolChar_eq_dot_iff : ∀ d < 32, symbolChar d = '.' ↔ d = 0 := by decide

theorem dot_le_symbolChar : ∀ d < 32, '.' ≤ symbolChar d := by decide

theorem symbolChar_lt_symbolChar : ∀ d < 32, ∀ e < 32, d < e → symbolChar d < symbolChar e := by decide

/-! ## Printing -/

theorem toStringStep_fst (t : UInt64) (s : List Char) (i : Nat) :
    (toStringStep (t, s) i).1.toNat = t.toNat / (if i = 0 then 16 else 32) := by
  by_cases hi : i = 0 <;> simp [toStringStep, hi, Nat.shiftRight_eq_div_pow]

theorem toStringStep_snd (t : UInt64) (s : List Char) (i : Nat) :
    (toStringStep (t, s) i).2 = s.set (12 - i) (symbolChar (t.toNat % (if i = 0 then 16 else 32))) := by
  by_cases hi : i = 0
  · simp only [toStringStep, hi, if_true, symbolChar, UInt64.toNat_and]
    rw [show (0x0f : UInt64).toNat = 2 ^ 4 - 1 from rfl, Nat.and_two_pow_sub_one_eq_mod]
  · simp only [toStringStep, hi, if_false, symbolChar, UInt64.toNat_and]
    rw [show (0x1f : UInt64).toNat = 2 ^ 5 - 1 from rfl, Nat.and_two_pow_sub_one_eq_mod]

theorem set_replicate_append {α : Type} (a b : α) (l : List α) (m : Nat) :
    (List.replicate (m + 1) a ++ l).set m b = List.replicate m a ++ b :: l := by
  induction m with
  | zero => rfl
  | succ m ih => rw [List.replicate_succ, List.cons_append, List.set_cons_succ, ih]; rfl

/-- After `k` passes, `tmp` holds what is left of the value and the last `k` characters are printed. -/
theorem toStringLoop_spec (v : UInt64) : ∀ k ≤ 13,
    (toStringLoop v k).1.toNat = v.toNat / (nameBases.drop (13 - k)).prod ∧
      (toStringLoop v k).2 =
        List.replicate (13 - k) '.' ++ (Radix.digits (nameBases.drop (13 - k)) v.toNat).map symbolChar
  | 0, _ => by simp [toStringLoop, show nameBases.drop 13 = [] from rfl, Radix.digits]
  | k + 1, hk => by
    obtain ⟨h₁, h₂⟩ := toStringLoop_spec v k (by omega)
    have hd := drop_nameBases k (by omega)
    have hb : (if k = 0 then 16 else 32) = 2 ^ (if k = 0 then 4 else 5) := by split <;> rfl
    have hst : toStringLoop v (k + 1) = toStringStep (toStringLoop v k) k := by
      simp [toStringLoop, List.range_succ, List.foldl_append]
    rw [hst, show toStringLoop v k = ((toStringLoop v k).1, (toStringLoop v k).2) from rfl,
      toStringStep_fst, toStringStep_snd, h₁, h₂, show 13 - (k + 1) = 12 - k by omega, hd]
    refine ⟨by rw [List.prod_cons, Nat.div_div_eq_div_mul, Nat.mul_comm], ?_⟩
    rw [show 13 - k = (12 - k) + 1 by omega, set_replicate_append]
    rfl

/-- **The printed name.** -/
theorem toString_eq (n : Name) :
    n.toString = trimRightIf (· == '.') ((Radix.digits nameBases n.value.toNat).map symbolChar) := by
  rw [toString, (toStringLoop_spec n.value 13 le_rfl).2]
  rfl

/-! ## Encoding -/

/-- The symbol of a character, as a number. -/
def symbolOf (c : Char) : Nat := (charToSymbol c).toNat

theorem take_nameBases_succ : ∀ i < 12, nameBases.take (i + 1) = nameBases.take i ++ [32] := by decide

theorem prod_drop_nameBases : ∀ i ≤ 12, (nameBases.drop i).prod = 2 ^ (64 - 5 * i) := by decide

/-- One slot of the loop of `string_to_name`: the bits below the filled slots are free, so the `or` adds. -/
theorem toNat_or_slot {name : UInt64} {V i : Nat} (hi : i < 12) (c : Char)
    (h : name.toNat = V * 2 ^ (64 - 5 * i)) :
    (name ||| ((charToSymbol c &&& 0x1f) <<< (64 - 5 * (i + 1)).toUInt64)).toNat =
      (V * 32 + symbolOf c) * 2 ^ (64 - 5 * (i + 1)) := by
  have hs := charToSymbol_lt c
  have hk : 64 - 5 * i = (64 - 5 * (i + 1)) + 5 := by omega
  have hsh : (64 - 5 * (i + 1)).toUInt64.toNat % 64 = 64 - 5 * (i + 1) := by
    have h₁ : 64 - 5 * (i + 1) < 2 ^ 64 := by omega
    rw [Nat.toUInt64_eq, UInt64.toNat_ofNat', Nat.mod_eq_of_lt h₁, Nat.mod_eq_of_lt (by omega)]
  have hand : (charToSymbol c &&& 0x1f).toNat = symbolOf c := by
    rw [UInt64.toNat_and, show (0x1f : UInt64).toNat = 2 ^ 5 - 1 from rfl, Nat.and_two_pow_sub_one_eq_mod,
      Nat.mod_eq_of_lt hs]
    rfl
  have hlow : symbolOf c * 2 ^ (64 - 5 * (i + 1)) < 2 ^ (64 - 5 * i) := by
    rw [hk, Nat.pow_add, Nat.mul_comm (2 ^ (64 - 5 * (i + 1)))]
    exact Nat.mul_lt_mul_of_pos_right hs (Nat.two_pow_pos _)
  have hfit : symbolOf c * 2 ^ (64 - 5 * (i + 1)) < 2 ^ 64 :=
    lt_of_lt_of_le hlow (Nat.pow_le_pow_right (by omega) (by omega))
  rw [UInt64.toNat_or, UInt64.toNat_shiftLeft, hand, hsh, Nat.shiftLeft_eq, Nat.mod_eq_of_lt hfit, h,
    Nat.mul_comm V, ← Nat.two_pow_add_eq_or_of_lt hlow, hk, Nat.pow_add]
  ring

/-- The loop of `string_to_name` from slot `i`, with the symbols `pre` already packed above the free bits. -/
theorem stringToNameLoop_spec : ∀ (cs : List Char) (i : Nat) (pre : List Nat) (name : UInt64),
    (∀ c ∈ cs, c ≠ nul) → pre.length = i → i ≤ 12 →
    name.toNat = Radix.value (nameBases.take i) pre * (nameBases.drop i).prod →
    (stringToNameLoop cs i name).1 = min (i + cs.length) 12 ∧
      (stringToNameLoop cs i name).2.toNat =
        Radix.value (nameBases.take (min (i + cs.length) 12)) (pre ++ (cs.take (12 - i)).map symbolOf) *
          (nameBases.drop (min (i + cs.length) 12)).prod
  | [], i, pre, name, _, _, hi, h => by
    refine ⟨by simp [stringToNameLoop, Nat.min_eq_left hi], ?_⟩
    simpa [stringToNameLoop, Nat.min_eq_left hi] using h
  | c :: cs, i, pre, name, hc, hpre, hi, h => by
    by_cases hlt : i < 12
    · have hcn : c ≠ nul := hc c List.mem_cons_self
      have hstep : (name ||| ((charToSymbol c &&& 0x1f) <<< (64 - 5 * (i + 1)).toUInt64)).toNat =
          Radix.value (nameBases.take (i + 1)) (pre ++ [symbolOf c]) * (nameBases.drop (i + 1)).prod := by
        rw [prod_drop_nameBases i hi] at h
        rw [toNat_or_slot hlt c h, take_nameBases_succ i hlt,
          Radix.value_append (by rw [List.length_take, hpre, show nameBases.length = 13 from rfl]; omega),
          prod_drop_nameBases (i + 1) hlt]
        simp [Radix.value]
      obtain ⟨h₁, h₂⟩ := stringToNameLoop_spec cs (i + 1) (pre ++ [symbolOf c]) _
        (fun c' h' => hc c' (List.mem_cons_of_mem _ h')) (by simp [hpre]) hlt hstep
      have hm : i + (c :: cs).length = i + 1 + cs.length := by simp; omega
      have htake : 12 - i = (12 - (i + 1)) + 1 := by omega
      rw [stringToNameLoop, if_pos ⟨hcn, hlt⟩, hm, htake, List.take_succ_cons, List.map_cons,
        List.append_cons pre]
      exact ⟨h₁, h₂⟩
    · have h12 : i = 12 := by omega
      subst h12
      simp only [stringToNameLoop, hlt, and_false, if_false, List.length_cons, Nat.sub_self, List.take_zero,
        List.map_nil, List.append_nil, show min (12 + (cs.length + 1)) 12 = 12 by omega, true_and]
      exact h

/-! ## Round trip -/

/-- What `trim_right_if` keeps is a prefix, and everything it drops satisfies `p`. -/
theorem trimRightIf_eq_take {α : Type} (p : α → Bool) : ∀ l : List α,
    ∃ k ≤ l.length, trimRightIf p l = l.take k ∧ ∀ j (hj : j < l.length), k ≤ j → p l[j] = true
  | [] => ⟨0, le_rfl, rfl, fun j hj => absurd hj (by simp)⟩
  | c :: cs => by
    obtain ⟨k, hk, ht, hp⟩ := trimRightIf_eq_take p cs
    by_cases h : (trimRightIf p cs).isEmpty ∧ p c
    · refine ⟨0, Nat.zero_le _, by simp [trimRightIf, h], ?_⟩
      have hall : ∀ j (hj : j < cs.length), p cs[j] = true := by
        rw [ht, List.isEmpty_iff, List.take_eq_nil_iff] at h
        rcases h.1 with rfl | rfl
        · exact fun j hj => hp j hj (Nat.zero_le _)
        · exact fun j hj => absurd hj (by simp)
      intro j hj _
      cases j with
      | zero => exact h.2
      | succ j => exact hall j (by simpa using hj)
    · refine ⟨k + 1, by simp; omega, by rw [trimRightIf, if_neg h, ht, List.take_succ_cons], ?_⟩
      intro j hj hkj
      obtain ⟨j, rfl⟩ : ∃ j', j = j' + 1 := ⟨j - 1, by omega⟩
      exact hp j (by simpa using hj) (by omega)

theorem length_of_fits {ds : List Nat} (h : Radix.Fits nameBases ds) : ds.length = 13 :=
  h.length_eq.symm

theorem lt_32_of_fits {ds : List Nat} (h : Radix.Fits nameBases ds) : ∀ d ∈ ds, d < 32 := by
  intro d hd
  obtain ⟨j, hj, rfl⟩ := List.getElem_of_mem hd
  have hb := List.forall₂_iff_get.mp h
  have hj' : j < nameBases.length := by rw [hb.1]; exact hj
  have hlt := hb.2 j hj' hj
  have hle : ∀ b ∈ nameBases, b ≤ 32 := by decide
  exact lt_of_lt_of_le hlt (hle _ (List.get_mem _ _))

/-- Re-encoding the symbols of `ds` before `k`, when the digits from `k` on are zero. -/
theorem stringToName_symbols {ds : List Nat} (hfit : Radix.Fits nameBases ds) {k : Nat} (hk : k ≤ 13)
    (hz : ∀ j (hj : j < ds.length), k ≤ j → ds[j] = 0) :
    (stringToName ((ds.map symbolChar).take k)).toNat = Radix.value nameBases ds := by
  have hlen := length_of_fits hfit
  have h32 := lt_32_of_fits hfit
  have hs : ∀ c ∈ (ds.map symbolChar).take k, c ≠ nul := by
    intro c hc
    obtain ⟨d, _, rfl⟩ := List.mem_map.mp (List.mem_of_mem_take hc)
    exact symbolChar_ne_nul d
  have hsym : (((ds.map symbolChar).take k).take (12 - 0)).map symbolOf = ds.take (min k 12) := by
    rw [List.take_take, List.map_take, List.map_map, Nat.sub_zero, Nat.min_comm 12]
    congr 1
    conv_rhs => rw [← List.map_id ds]
    exact List.map_congr_left fun d hd => charToSymbol_symbolChar d (h32 d hd)
  have hslen : ((ds.map symbolChar).take k).length = k := by simp [hlen]; omega
  obtain ⟨h₁, h₂⟩ := stringToNameLoop_spec ((ds.map symbolChar).take k) 0 [] 0 hs rfl (by omega)
    (by simp [Radix.value])
  rw [hslen, Nat.zero_add] at h₁ h₂
  rw [List.nil_append, hsym] at h₂
  have hlen12 : (ds.take (min k 12)).length = (nameBases.take (min k 12)).length := by simp [hlen]; rfl
  have hsplit := Radix.value_append hlen12 (nameBases.drop (min k 12)) (ds.drop (min k 12))
  rw [List.take_append_drop, List.take_append_drop] at hsplit
  unfold stringToName
  generalize stringToNameLoop ((ds.map symbolChar).take k) 0 0 = r at h₁ h₂
  obtain ⟨i, name⟩ := r
  simp only at h₁ h₂ ⊢
  subst h₁
  by_cases hk12 : k < 12
  · -- the string ends before slot 12: the low digits are the zeros after `k`
    have hzero : Radix.value (nameBases.drop (min k 12)) (ds.drop (min k 12)) = 0 := by
      refine Radix.value_eq_zero fun d hd => ?_
      obtain ⟨j, hj, rfl⟩ := List.getElem_of_mem hd
      rw [List.getElem_drop]
      exact hz _ (by simp at hj; omega) (by omega)
    rw [if_neg (by omega), h₂, hsplit, hzero, Nat.add_zero]
  · -- slot 12 is reached: the thirteenth character, or the terminator, fills the low four bits
    have hm : min k 12 = 12 := by omega
    rw [if_pos hm]
    rw [hm] at h₂ hsplit
    have h12 : ds.drop 12 = [ds[12]] := by
      rw [List.drop_eq_getElem_cons (by omega), List.drop_eq_nil_of_le (by omega)]
    have hlast : symbolOf (((ds.map symbolChar).take k).getD 12 nul) = ds[12] := by
      by_cases hk13 : k = 13
      · subst hk13
        rw [List.getD_eq_getElem?_getD, List.getElem?_eq_getElem (by simp [hlen]), Option.getD_some,
          List.getElem_take, List.getElem_map]
        exact charToSymbol_symbolChar _ (h32 _ (List.getElem_mem _))
      · rw [List.getD_eq_getElem?_getD, List.getElem?_eq_none (by simp [hlen]; omega), Option.getD_none,
          hz 12 (by omega) (by omega)]
        exact congrArg UInt64.toNat charToSymbol_nul
    have hlt16 : ds[12] < 2 ^ 4 := by
      have hb := List.forall₂_iff_get.mp hfit
      exact hb.2 12 (by decide) (by omega)
    have hand : (charToSymbol (((ds.map symbolChar).take k).getD 12 nul) &&& 0x0F).toNat = ds[12] := by
      rw [UInt64.toNat_and, show (0x0F : UInt64).toNat = 2 ^ 4 - 1 from rfl, Nat.and_two_pow_sub_one_eq_mod]
      exact (congrArg (· % 2 ^ 4) hlast).trans (Nat.mod_eq_of_lt hlt16)
    rw [UInt64.toNat_or, h₂, hand, hsplit, h12, show (nameBases.drop 12).prod = 2 ^ 4 from rfl,
      Nat.mul_comm _ (2 ^ 4), ← Nat.two_pow_add_eq_or_of_lt hlt16, show nameBases.drop 12 = [16] from rfl]
    simp [Radix.value]

/-- **Round trip.** Every 64-bit value survives printing and re-encoding. -/
theorem stringToName_toString (v : UInt64) : stringToName (Name.mk v).toString = v := by
  have hfit := Radix.digits_fits nameBases_pos v.toNat
  have h32 := lt_32_of_fits hfit
  obtain ⟨k, hk, ht, hp⟩ := trimRightIf_eq_take (· == '.') ((Radix.digits nameBases v.toNat).map symbolChar)
  rw [toString_eq, ht]
  apply UInt64.toNat_inj.mp
  rw [stringToName_symbols hfit (by simpa [show nameBases.length = 13 from rfl] using hk), Radix.value_digits (by rw [prod_nameBases]; exact v.toNat_lt)]
  intro j hj hkj
  have hdot := hp j (by simpa using hj) hkj
  simp only [List.getElem_map, beq_iff_eq] at hdot
  exact (symbolChar_eq_dot_iff _ (h32 _ (List.getElem_mem _))).mp hdot

/-! ## Order -/

theorem trimRightIf_cons_of_false {α : Type} {p : α → Bool} {c : α} (cs : List α) (h : p c = false) :
    trimRightIf p (c :: cs) = c :: trimRightIf p cs := by
  simp [trimRightIf, h]

theorem trimRightIf_cons_of_ne_nil {α : Type} {p : α → Bool} (c : α) {cs : List α} (h : trimRightIf p cs ≠ []) :
    trimRightIf p (c :: cs) = c :: trimRightIf p cs := by
  simp [trimRightIf, h]

theorem trimRightIf_cons_cases {α : Type} (p : α → Bool) (c : α) (cs : List α) :
    trimRightIf p (c :: cs) = [] ∨ trimRightIf p (c :: cs) = c :: trimRightIf p cs := by
  by_cases h : (trimRightIf p cs).isEmpty ∧ p c
  · exact .inl (by rw [trimRightIf.eq_2, if_pos h])
  · exact .inr (by rw [trimRightIf.eq_2, if_neg h])

/-- Trimming a least element off the right of two lists of the same length keeps their lexicographic order. -/
theorem lex_trimRightIf {α : Type} [Preorder α] [DecidableEq α] {m : α} {A B : List α}
    (hl : A.length = B.length) (hm : ∀ a ∈ A, m ≤ a) (h : List.Lex (· < ·) A B) :
    List.Lex (· < ·) (trimRightIf (· == m) A) (trimRightIf (· == m) B) := by
  induction h with
  | nil => exact absurd hl (by simp)
  | @rel a A b B hab =>
    have hb : (b == m) = false := by
      rw [beq_eq_false_iff_ne]
      rintro rfl
      exact lt_irrefl _ (lt_of_lt_of_le hab (hm a List.mem_cons_self))
    rw [trimRightIf_cons_of_false (p := (· == m)) B hb]
    rcases trimRightIf_cons_cases (· == m) a A with ha | ha <;> rw [ha]
    · exact List.Lex.nil
    · exact List.Lex.rel hab
  | @cons a A B h ih =>
    have ih' := ih (by simpa using hl) fun x hx => hm x (List.mem_cons_of_mem _ hx)
    have hne : trimRightIf (· == m) B ≠ [] := by
      rintro hB
      rw [hB] at ih'
      exact List.not_lex_nil ih'
    rw [trimRightIf_cons_of_ne_nil a hne]
    rcases trimRightIf_cons_cases (· == m) a A with ha | ha <;> rw [ha]
    · exact List.Lex.nil
    · exact List.Lex.cons ih'

theorem lex_map_symbolChar {ds es : List Nat} (h : List.Lex (· < ·) ds es) (hd : ∀ d ∈ ds, d < 32)
    (he : ∀ e ∈ es, e < 32) : List.Lex (· < ·) (ds.map symbolChar) (es.map symbolChar) := by
  induction h with
  | nil => exact List.Lex.nil
  | @rel d ds e es hde =>
    exact List.Lex.rel (symbolChar_lt_symbolChar d (hd d List.mem_cons_self) e (he e List.mem_cons_self) hde)
  | @cons d ds es _ ih =>
    exact List.Lex.cons (ih (fun x hx => hd x (List.mem_cons_of_mem _ hx)) fun x hx => he x (List.mem_cons_of_mem _ hx))

/-- Printing is strictly monotone. -/
theorem toString_lt_toString {a b : Name} (h : a.value < b.value) : a.toString < b.toString := by
  have hfa := Radix.digits_fits nameBases_pos a.value.toNat
  have hfb := Radix.digits_fits nameBases_pos b.value.toNat
  have hlex : List.Lex (· < ·) (Radix.digits nameBases a.value.toNat) (Radix.digits nameBases b.value.toNat) := by
    rw [← Radix.value_lt_value_iff hfa hfb, Radix.value_digits (by rw [prod_nameBases]; exact a.value.toNat_lt),
      Radix.value_digits (by rw [prod_nameBases]; exact b.value.toNat_lt)]
    exact UInt64.lt_iff_toNat_lt.mp h
  have hdot : ∀ c ∈ (Radix.digits nameBases a.value.toNat).map symbolChar, '.' ≤ c := by
    intro c hc
    obtain ⟨d, hd, rfl⟩ := List.mem_map.mp hc
    exact dot_le_symbolChar d (lt_32_of_fits hfa d hd)
  rw [toString_eq, toString_eq]
  have hlen : ((Radix.digits nameBases a.value.toNat).map symbolChar).length =
      ((Radix.digits nameBases b.value.toNat).map symbolChar).length := by simp
  exact lex_trimRightIf hlen hdot (lex_map_symbolChar hlex (lt_32_of_fits hfa) (lt_32_of_fits hfb))

/-- **Order.** The numeric order of names is the lexicographic order of their printed forms. -/
theorem toString_lt_toString_iff (a b : Name) : a.value < b.value ↔ a.toString < b.toString := by
  refine ⟨toString_lt_toString, fun h => ?_⟩
  rcases lt_trichotomy a.value.toNat b.value.toNat with hab | hab | hab
  · exact UInt64.lt_iff_toNat_lt.mpr hab
  · have : a = b := by cases a; cases b; simpa [UInt64.toNat_inj] using hab
    subst this
    exact absurd h (List.lt_irrefl _)
  · exact absurd (toString_lt_toString (UInt64.lt_iff_toNat_lt.mpr hab)) (List.lt_asymm h)

/-! ## The codec -/

/-- A string that `name::set` accepts is the printed form of the name it sets. -/
theorem toString_of_set_ok {s : List Char} {n : Name} (h : set s = .ok n) : n.toString = cString s := by
  unfold set at h
  split_ifs at h with h₁ h₂
  cases h
  exact h₂

/-- `string_to_name` inverts printing on every 64-bit value, a string accepted by `name::set` prints back as
itself, and the numeric order of names is the lexicographic order of their printed forms. -/
theorem name_codec_spec :
    (∀ v : UInt64, stringToName (Name.mk v).toString = v) ∧
      (∀ (s : List Char) (n : Name), set s = .ok n → n.toString = cString s) ∧
      ∀ a b : Name, a.value < b.value ↔ a.toString < b.toString :=
  ⟨stringToName_toString, fun _ _ => toString_of_set_ok, toString_lt_toString_iff⟩

end Name

end Gstio.Chain
