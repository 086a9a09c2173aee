import Mathlib
import Gstio.Fc.Raw
import Gstio.Chain.Name
import Gstio.Lib.Rollback
import Gstio.Lib.DecimalText

/-!
# Assets and their text: `asset.cpp`, `symbol.hpp`

A `symbol` packs its number of decimals in the low byte of a `uint64_t` and the characters of its name, one per
byte, above it. An `asset` is an `int64_t` amount of a symbol. `asset::to_string` prints the amount with the
decimals of its symbol and the name after a space, and `asset::from_string` reads such a text back: it splits at
the first space, takes the number of digits after the dot as the precision, and reads the two parts of the amount
with `fc::to_int64`.

A string is a list of characters, one per byte. `boost::lexical_cast<int64_t>` reads an optional sign and decimal
digits into the range of `int64_t` (`lexicalCastInt64`).

* `Symbol.fromString_toString`: `symbol::from_string` reads back what `symbol::to_string` prints, for every valid
  symbol;
* `asset_string_round_trip`: `asset::from_string` reads back what `asset::to_string` prints, for every valid asset
  whose symbol has a name. The example after it shows why the name is needed, and texts that `from_string` accepts
  though `to_string` never prints them.
-/

namespace Gstio.Chain

/-! ## fc strings -/

/-- `std::isspace` in the C locale. -/
def isSpace (c : Char) : Bool :=
  c == ' ' || c == '\t' || c == '\n' || c == Char.ofNat 11 || c == Char.ofNat 12 || c == '\r'

/-- `fc::trim`, `boost::algorithm::trim_copy`: drop the leading and the trailing spaces. -/
def trim (s : List Char) : List Char := trimRightIf isSpace (s.dropWhile isSpace)

/-- The sign `boost::lexical_cast` reads first (`true` for `-`), and what follows it. -/
def signAndDigits : List Char → Bool × List Char
  | '-' :: ds => (true, ds)
  | '+' :: ds => (false, ds)
  | ds => (false, ds)

/-- `boost::lexical_cast<int64_t>`: an optional sign, then at least one decimal digit, in the range of `int64_t`. -/
def lexicalCastInt64 (s : List Char) : Option Int :=
  let (neg, ds) := signAndDigits s
  if !ds.isEmpty && ds.all Char.isDigit then
    if neg then
      if Nat.ofDigitChars 10 ds 0 ≤ 2 ^ 63 then some (-(Nat.ofDigitChars 10 ds 0 : Int)) else none
    else if Nat.ofDigitChars 10 ds 0 < 2 ^ 63 then some (Nat.ofDigitChars 10 ds 0 : Int) else none
  else none

/-- `fc::to_int64`. -/
def toInt64 (s : List Char) : Except Fc.FcException Int :=
  match lexicalCastInt64 s with
  | some n => .ok n
  | none => .error (.parseError "Couldn't parse int64_t")

/-- `fc::to_string(int64_t)`, `boost::lexical_cast<std::string>`. -/
def int64ToString (n : Int) : List Char :=
  if n < 0 then '-' :: Nat.toDigits 10 n.natAbs else Nat.toDigits 10 n.toNat

/-! ## Errors and checked arithmetic -/

/-- The exceptions of the asset and symbol codecs. -/
inductive AssetError
  /-- `asset_type_exception` -/
  | assetType (msg : String)
  /-- `symbol_type_exception` -/
  | symbolType (msg : String)
  /-- An exception of `fc`: the `parse_error_exception` of `fc::to_int64`. -/
  | fc (e : Fc.FcException)
  /-- `fc::overflow_exception`, from `fc::safe` -/
  | overflow
  /-- `fc::underflow_exception`, from `fc::safe` -/
  | underflow
  /-- An operation the source leaves undefined. -/
  | undefinedBehavior (what : String)
  deriving DecidableEq, Repr

/-- The least `int64_t`. -/
def int64Min : Int := -2 ^ 63

/-- The greatest `int64_t`. -/
def int64Max : Int := 2 ^ 63 - 1

/-- `fc::safe<int64_t>::operator+`. -/
def safeAdd (a b : Int) : Except AssetError Int :=
  if b > 0 ∧ a > int64Max - b then .error .overflow
  else if b < 0 ∧ a < int64Min - b then .error .underflow
  else .ok (a + b)

/-- `fc::safe<int64_t>::operator*`, its checks with the truncating division of C++. -/
def safeMul (a b : Int) : Except AssetError Int :=
  if a > 0 then
    if b > 0 then (if a > int64Max.tdiv b then .error .overflow else .ok (a * b))
    else (if b < int64Min.tdiv a then .error .underflow else .ok (a * b))
  else
    if b > 0 then (if a < int64Min.tdiv b then .error .underflow else .ok (a * b))
    else (if a ≠ 0 ∧ b < int64Max.tdiv a then .error .overflow else .ok (a * b))

/-! ## Symbols -/

/-- `symbol`, its `m_value`. -/
structure Symbol where
  value : UInt64
  deriving DecidableEq, Repr

namespace Symbol

/-- `symbol::max_precision`. -/
def maxPrecision : Nat := 18

/-- `symbol::decimals`: the low byte. -/
def decimals (s : Symbol) : Nat := s.value.toNat % 256

/-- The loop of `symbol::name` with `fuel` turns: the bytes of `v`, lowest first, until what is left is zero. -/
def nameChars : Nat → Nat → List Char
  | 0, _ => []
  | fuel + 1, v => if v > 0 then Char.ofNat (v % 256) :: nameChars fuel (v / 256) else []

/-- `symbol::name`: the bytes above the decimals, seven at most. -/
def name (s : Symbol) : List Char := nameChars 7 (s.value.toNat / 256)

/-- `symbol::valid_name`: only upper case letters. -/
def validName (name : List Char) : Bool := name.all fun c => 'A' ≤ c && c ≤ 'Z'

/-- `symbol::valid`. -/
def valid (s : Symbol) : Bool := decide (s.decimals ≤ maxPrecision) && validName s.name

/-- `symbol::precision`: ten to the number of decimals. -/
def precision (s : Symbol) : Except AssetError Nat := do
  Except.assert (decide (s.decimals ≤ maxPrecision)) (.symbolType "precision ${p} should be <= 18")
  pure (10 ^ s.decimals)

/-- `symbol(uint64_t v)`: the constructor checks that the symbol is valid. -/
def ofValue (v : UInt64) : Except AssetError Symbol := do
  Except.assert (Symbol.mk v).valid (.symbolType "invalid symbol: ${name}")
  pure ⟨v⟩

/-- `symbol::to_string`, `symbol::operator string`: the decimals as a number, a comma and the name. -/
def toString (s : Symbol) : List Char := Nat.toDigits 10 s.decimals ++ ',' :: s.name

end Symbol

/-- The loop of `string_to_symbol(precision, str)` at character `i` with the value `acc` so far: every character
must be an upper case letter, shifted into byte `i + 1`. A shift by 64 bits or more is undefined. -/
def stringToSymbolLoop (precision : UInt8) : Nat → List Char → UInt64 → Except AssetError UInt64
  | _, [], acc => .ok (acc ||| precision.toUInt64)
  | i, c :: cs, acc =>
    if 'A' ≤ c ∧ c ≤ 'Z' then
      if 8 * (i + 1) < 64 then
        stringToSymbolLoop precision (i + 1) cs (acc ||| (c.toNat.toUInt64 <<< (8 * (i + 1)).toUInt64))
      else .error (.undefinedBehavior "string_to_symbol shifts a character by 64 bits")
    else .error (.symbolType "invalid character in symbol name")

/-- `string_to_symbol(precision, str)`. -/
def stringToSymbol (precision : UInt8) (str : List Char) : Except AssetError UInt64 :=
  stringToSymbolLoop precision 0 (cString str) 0

/-- `symbol::from_string`: the precision before the first comma, narrowed to `uint8_t`, and the name after it. -/
def Symbol.fromString (str : List Char) : Except AssetError Symbol := do
  let s := trim str
  Except.assert (!s.isEmpty) (.symbolType "creating symbol from empty string")
  match s.idxOf? ',' with
  | none => .error (.symbolType "missing comma in symbol")
  | some commaPos =>
    let p ← (toInt64 (s.take commaPos)).mapError .fc
    let p : UInt8 := (p % 256).toNat.toUInt8
    Except.assert (decide (p.toNat ≤ Symbol.maxPrecision)) (.symbolType "precision ${p} should be <= 18")
    let v ← stringToSymbol p (s.drop (commaPos + 1))
    Symbol.ofValue v

/-! ## Assets -/

/-- `asset`. -/
structure Asset where
  amount : Int
  sym : Symbol
  deriving DecidableEq, Repr

namespace Asset

/-- `asset::max_amount`. -/
def maxAmount : Int := 2 ^ 62 - 1

/-- `asset::is_amount_within_range`. -/
def isAmountWithinRange (a : Asset) : Bool := decide (-maxAmount ≤ a.amount ∧ a.amount ≤ maxAmount)

/-- `asset::is_valid`. -/
def isValid (a : Asset) : Bool := a.isAmountWithinRange && a.sym.valid

/-- `asset(a, id)`: the constructor checks the range of the amount and the symbol. -/
def make (amount : Int) (sym : Symbol) : Except AssetError Asset := do
  Except.assert (Asset.mk amount sym).isAmountWithinRange
    (.assetType "magnitude of asset amount must be less than 2^62")
  Except.assert sym.valid (.assetType "invalid symbol")
  pure ⟨amount, sym⟩

/-- `asset::to_string`: the sign, the whole units, the decimals after a dot when there are any (the digits of
`precision + fract` without their leading `1`), a space and the name. `std::abs` of the least `int64_t` is
undefined. -/
def toString (a : Asset) : Except AssetError (List Char) := do
  let sign : List Char := if a.amount < 0 then ['-'] else []
  if a.amount = int64Min then .error (.undefinedBehavior "std::abs of the least int64_t") else
  let absAmount := a.amount.natAbs
  let precision ← a.sym.precision
  let result := int64ToString (absAmount / precision)
  let result := if a.sym.decimals ≠ 0 then
      result ++ '.' :: (int64ToString (precision + absAmount % precision)).drop 1
    else result
  pure (sign ++ result ++ ' ' :: a.sym.name)

/-- `asset::from_string`: split at the first space; the precision is the number of characters after the dot; the
whole part and the fraction are read with `fc::to_int64`, the fraction negated when the text starts with `-`. -/
def fromString (str : List Char) : Except AssetError Asset := do
  let s := trim str
  match s.idxOf? ' ' with
  | none => .error (.assetType "Asset's amount and symbol should be separated with space")
  | some spacePos =>
    let symbolStr := trim (s.drop (spacePos + 1))
    let amountStr := s.take spacePos
    let dotPos := amountStr.idxOf? '.'
    Except.assert (dotPos != some (amountStr.length - 1)) (.assetType "Missing decimal fraction after decimal point")
    let precisionDigitStr := match dotPos with
      | some d => Nat.toDigits 10 (amountStr.length - d - 1)
      | none => ['0']
    let sym ← Symbol.fromString (precisionDigitStr ++ ',' :: symbolStr)
    let (intPart, fractPart) ← match dotPos with
      | some d => do
        let intPart ← (toInt64 (amountStr.take d)).mapError .fc
        let fractPart ← (toInt64 (amountStr.drop (d + 1))).mapError .fc
        let fractPart ← if amountStr.head? = some '-' then safeMul fractPart (-1) else pure fractPart
        pure (intPart, fractPart)
      | none => do
        let intPart ← (toInt64 amountStr).mapError .fc
        pure (intPart, 0)
    let precision ← sym.precision
    let amount ← safeMul intPart precision
    let amount ← safeAdd amount fractPart
    make amount sym

end Asset

/-! ## Reading back what is printed -/

section Text

open DecimalText

theorem toNat_le_of_isSpace {c : Char} (h : isSpace c = true) : c.toNat ≤ 32 := by
  simp only [isSpace, Bool.or_eq_true, beq_iff_eq] at h
  rcases h with (((((rfl | rfl) | rfl) | rfl) | rfl) | rfl) <;> decide

theorem isSpace_eq_false {c : Char} (h : 32 < c.toNat) : isSpace c = false :=
  Bool.eq_false_iff.mpr fun hs => absurd (toNat_le_of_isSpace hs) (by omega)

theorem toNat_of_letter {c : Char} (h₁ : 'A' ≤ c) (h₂ : c ≤ 'Z') : 65 ≤ c.toNat ∧ c.toNat ≤ 90 := by
  rw [Char.le_def, UInt32.le_iff_toNat_le] at h₁ h₂
  exact ⟨h₁, h₂⟩

theorem trimRightIf_eq_self {α : Type} {p : α → Bool} :
    ∀ {l : List α}, (∀ c ∈ l.getLast?, p c = false) → trimRightIf p l = l
  | [], _ => rfl
  | [c], h => by simp [trimRightIf, h c rfl]
  | c :: d :: cs, h => by
    have ih := trimRightIf_eq_self (l := d :: cs) (by simpa using h)
    rw [trimRightIf, ih]
    simp

/-- A text that neither starts nor ends with a space is its own trim. -/
theorem trim_eq_self {s : List Char} (hh : ∀ c ∈ s.head?, isSpace c = false)
    (hl : ∀ c ∈ s.getLast?, isSpace c = false) : trim s = s := by
  cases s with
  | nil => rfl
  | cons c cs =>
    rw [trim, List.dropWhile_cons_of_neg (by simp [hh c rfl])]
    exact trimRightIf_eq_self hl

theorem signAndDigits_of_isDigit {c : Char} (h : c.isDigit = true) (cs : List Char) :
    signAndDigits (c :: cs) = (false, c :: cs) := by
  have hc := toNat_le_of_isDigit h
  unfold signAndDigits
  split
  · rename_i heq
    simp only [List.cons.injEq] at heq
    rw [heq.1] at hc
    exact absurd hc (by decide)
  · rename_i heq
    simp only [List.cons.injEq] at heq
    rw [heq.1] at hc
    exact absurd hc (by decide)
  · rfl

/-- Decimal digits below `2 ^ 63` are read as their value. -/
theorem lexicalCastInt64_digits {ds : List Char} (hne : ds ≠ []) (hd : ∀ c ∈ ds, c.isDigit = true)
    (hv : Nat.ofDigitChars 10 ds 0 < 2 ^ 63) : lexicalCastInt64 ds = some (Nat.ofDigitChars 10 ds 0 : Int) := by
  obtain ⟨c, cs, rfl⟩ := List.exists_cons_of_ne_nil hne
  have hall : (c :: cs).all Char.isDigit = true := List.all_eq_true.mpr hd
  simp only [lexicalCastInt64, signAndDigits_of_isDigit (hd c List.mem_cons_self), List.isEmpty_cons, hall,
    Bool.not_false, Bool.and_self, if_true, Bool.false_eq_true, if_false, if_pos hv]

/-- A minus sign and decimal digits at most `2 ^ 63` are read as the negated value. -/
theorem lexicalCastInt64_minus {ds : List Char} (hne : ds ≠ []) (hd : ∀ c ∈ ds, c.isDigit = true)
    (hv : Nat.ofDigitChars 10 ds 0 ≤ 2 ^ 63) :
    lexicalCastInt64 ('-' :: ds) = some (-(Nat.ofDigitChars 10 ds 0 : Int)) := by
  have hall : ds.all Char.isDigit = true := List.all_eq_true.mpr hd
  have hemp : ds.isEmpty = false := List.isEmpty_eq_false_iff.mpr hne
  simp only [lexicalCastInt64, signAndDigits, hemp, hall, Bool.not_false, Bool.and_self, if_true, if_pos hv]

theorem lexicalCastInt64_toDigits {n : Nat} (h : n < 2 ^ 63) :
    lexicalCastInt64 (Nat.toDigits 10 n) = some (n : Int) := by
  have := lexicalCastInt64_digits Nat.toDigits_ne_nil (fun _ hc => isDigit_of_mem_toDigits hc)
    (by rwa [Nat.ofDigitChars_ten_toDigits])
  rwa [Nat.ofDigitChars_ten_toDigits] at this

/-- A multiple of `2 ^ s` and a number below it have disjoint bits. -/
theorem or_eq_add {x y s : Nat} (hx : x % 2 ^ s = 0) (hy : y < 2 ^ s) : x ||| y = x + y := by
  have hx' : x = (x / 2 ^ s) <<< s := by
    rw [Nat.shiftLeft_eq]
    exact (Nat.div_mul_cancel (Nat.dvd_of_mod_eq_zero hx)).symm
  rw [hx', ← Nat.shiftLeft_add_eq_or_of_lt hy]

theorem pow_256 (i : Nat) : 2 ^ (8 * i) = 256 ^ i := by
  rw [Nat.pow_mul]

theorem length_nameChars_le : ∀ (k w : Nat), (Symbol.nameChars k w).length ≤ k
  | 0, _ => Nat.le_refl 0
  | k + 1, w => by
    unfold Symbol.nameChars
    split
    · simpa using length_nameChars_le k (w / 256)
    · simp

/-- **The loop of `string_to_symbol` puts the bytes `symbol::name` read back where they were**: from byte `i + 1`
on, above the value `acc` built so far, and the precision in the low byte. -/
theorem stringToSymbolLoop_nameChars (p : UInt8) :
    ∀ (k i w : Nat) (acc : UInt64), (∀ c ∈ Symbol.nameChars k w, 'A' ≤ c ∧ c ≤ 'Z') → i + k ≤ 7 →
      w < 256 ^ k → acc.toNat % 256 = 0 → acc.toNat < 256 ^ (i + 1) →
      stringToSymbolLoop p i (Symbol.nameChars k w) acc =
        .ok (UInt64.ofNat (acc.toNat + w * 256 ^ (i + 1) + p.toNat))
  | 0, i, w, acc, _, hik, hw, hacc, hlt => by
    have hw0 : w = 0 := by simpa using hw
    subst hw0
    have hp := p.toNat_lt
    rw [Symbol.nameChars, stringToSymbolLoop]
    congr 1
    apply UInt64.toNat_inj.mp
    have hi : 256 ^ (i + 1) ≤ 256 ^ 8 := Nat.pow_le_pow_right (by decide) (by omega)
    rw [UInt64.toNat_or, UInt8.toNat_toUInt64, or_eq_add (s := 8) (by simpa using hacc) (by simpa using hp),
      UInt64.toNat_ofNat', Nat.zero_mul, Nat.add_zero, Nat.mod_eq_of_lt (by simp at hi ⊢; omega)]
  | k + 1, i, w, acc, hletters, hik, hw, hacc, hlt => by
    unfold Symbol.nameChars at hletters ⊢
    split
    · rename_i hwpos
      rw [if_pos hwpos] at hletters
      -- the byte `w % 256` goes to byte `i + 1`, and the loop goes on with the bytes above it
      have hc := hletters _ List.mem_cons_self
      have hcn : (Char.ofNat (w % 256)).toNat = w % 256 := DecimalText.toNat_ofNat_of_lt (Nat.mod_lt _ (by decide))
      have hshift : 8 * (i + 1) < 64 := by omega
      have hpow : 256 ^ (i + 1) * 256 ≤ 2 ^ 64 := by
        rw [← Nat.pow_succ, ← pow_256]
        exact Nat.pow_le_pow_right (by decide) (by omega)
      have hbyte : w % 256 * 256 ^ (i + 1) < 2 ^ 64 := by
        have := Nat.mod_lt w (show 256 > 0 by decide)
        calc w % 256 * 256 ^ (i + 1) < 256 * 256 ^ (i + 1) := Nat.mul_lt_mul_of_pos_right this (by positivity)
          _ ≤ 2 ^ 64 := by rw [Nat.mul_comm]; exact hpow
      have hacc' : (acc ||| ((Char.ofNat (w % 256)).toNat.toUInt64 <<< (8 * (i + 1)).toUInt64)).toNat =
          acc.toNat + w % 256 * 256 ^ (i + 1) := by
        rw [UInt64.toNat_or, UInt64.toNat_shiftLeft, hcn]
        simp only [Nat.toUInt64_eq, UInt64.toNat_ofNat', Nat.mod_eq_of_lt (show 8 * (i + 1) < 2 ^ 64 by omega),
          Nat.mod_eq_of_lt hshift, Nat.mod_eq_of_lt (show w % 256 < 2 ^ 64 by omega), Nat.shiftLeft_eq, pow_256,
          Nat.mod_eq_of_lt hbyte]
        rw [Nat.lor_comm, or_eq_add (s := 8 * (i + 1)) (by rw [pow_256]; exact Nat.mul_mod_left _ _)
          (by rw [pow_256]; exact hlt), Nat.add_comm]
      have hrest := stringToSymbolLoop_nameChars p k (i + 1) (w / 256)
        (acc ||| ((Char.ofNat (w % 256)).toNat.toUInt64 <<< (8 * (i + 1)).toUInt64))
        (fun c hc' => hletters c (List.mem_cons_of_mem _ hc')) (by omega)
        (by rw [Nat.pow_succ] at hw; omega)
        (by rw [hacc', Nat.pow_succ, ← Nat.mul_assoc, Nat.add_mul_mod_self_right]; exact hacc)
        (by rw [hacc', Nat.pow_succ 256 (i + 1)]; have := Nat.mod_lt w (show 256 > 0 by decide); nlinarith)
      rw [stringToSymbolLoop, if_pos hc, if_pos hshift, hrest, hacc']
      congr 2
      -- the byte and the bytes above it make `w` again
      have hw' := Nat.div_add_mod w 256
      rw [Nat.pow_succ 256 (i + 1)]
      nlinarith
    · rename_i hw0
      have hw0 : w = 0 := by omega
      subst hw0
      have := stringToSymbolLoop_nameChars p 0 i 0 acc (by simp [Symbol.nameChars]) (by omega) (by decide) hacc hlt
      simpa [Symbol.nameChars] using this

/-! ### Digits, signs and names in text -/

/-- A text of no character up to the space is its own trim. -/
theorem trim_eq_self_of_forall {s : List Char} (h : ∀ c ∈ s, 32 < c.toNat) : trim s = s :=
  trim_eq_self (fun c hc => isSpace_eq_false (h c (List.mem_of_mem_head? hc)))
    (fun c hc => isSpace_eq_false (h c (List.mem_of_mem_getLast? hc)))

theorem cString_eq_self {s : List Char} (h : nul ∉ s) : cString s = s := by
  rw [cString, List.takeWhile_eq_self_iff]
  intro c hc
  simp only [bne_iff_ne, ne_eq]
  exact fun e => h (e ▸ hc)

theorem drop_length_succ_append {α : Type} (l : List α) (a : α) (rest : List α) :
    (l ++ a :: rest).drop (l.length + 1) = rest := by
  rw [List.append_cons, List.drop_left' (by simp)]

theorem none_bne_some (n : Nat) : ((none : Option Nat) != some n) = true := rfl

theorem toInt64_toDigits {n : Nat} (h : n < 2 ^ 63) : toInt64 (Nat.toDigits 10 n) = .ok (n : Int) := by
  rw [toInt64, lexicalCastInt64_toDigits h]

/-- `fc::to_int64` reads a sign and the digits of a number of `int64_t`. -/
theorem toInt64_signed {q : Nat} (neg : Bool) (hq : q < 2 ^ 63) :
    toInt64 ((if neg then ['-'] else []) ++ Nat.toDigits 10 q) = .ok (if neg then -(q : Int) else q) := by
  cases neg with
  | false => exact toInt64_toDigits hq
  | true =>
    have h := @lexicalCastInt64_minus (Nat.toDigits 10 q) Nat.toDigits_ne_nil
      (fun _ hc => isDigit_of_mem_toDigits hc) (by rw [Nat.ofDigitChars_ten_toDigits]; omega)
    rw [Nat.ofDigitChars_ten_toDigits] at h
    simp [toInt64, h]

theorem int64ToString_natCast (n : Nat) : int64ToString n = Nat.toDigits 10 n := by
  simp [int64ToString]

/-- A text that starts with no space and ends in a name of letters is its own trim. -/
theorem trim_append_name {t name : List Char} (ht : ∀ c ∈ t, 32 < c.toNat) (hne : t ≠ [])
    (hname : ∀ c ∈ name, 'A' ≤ c ∧ c ≤ 'Z') (hn : name ≠ []) :
    trim (t ++ ' ' :: name) = t ++ ' ' :: name := by
  refine trim_eq_self (fun c hc => ?_) (fun c hc => ?_)
  · rw [List.head?_append_of_ne_nil _ hne] at hc
    exact isSpace_eq_false (ht c (List.mem_of_mem_head? hc))
  · rw [show t ++ ' ' :: name = (t ++ [' ']) ++ name by simp, List.getLast?_append_of_ne_nil _ hn] at hc
    have hc' := hname c (List.mem_of_mem_getLast? hc)
    exact isSpace_eq_false (by have := toNat_of_letter hc'.1 hc'.2; omega)

/-- The characters of a printed amount: the sign, digits and the dot. -/
theorem space_lt_of_amount {neg : Bool} {ds : List Char} (hds : ∀ c ∈ ds, c.isDigit = true ∨ c = '.') :
    ∀ c ∈ (if neg then ['-'] else []) ++ ds, 32 < c.toNat := by
  intro c hc
  rcases List.mem_append.mp hc with hs | hd
  · cases neg <;> simp_all
  · rcases hds c hd with h | rfl
    · have := toNat_le_of_isDigit h
      omega
    · decide

/-! ### Checked arithmetic within range -/

/-- `fc::safe` multiplies by a positive factor without a throw when the product is an `int64_t`. -/
theorem safeMul_of_pos {a b : Int} (hb : 0 < b) (hlo : int64Min ≤ a * b) (hhi : a * b ≤ int64Max) :
    safeMul a b = .ok (a * b) := by
  unfold safeMul
  by_cases ha : a > 0
  · rw [if_pos ha, if_pos hb, if_neg]
    rw [Int.tdiv_eq_ediv_of_nonneg (by decide), not_lt, Int.le_ediv_iff_mul_le hb]
    exact hhi
  · -- a product at least `-2^63` has `-a` at most `2^63 / b`
    have hneg : -a ≤ 2 ^ 63 / b := (Int.le_ediv_iff_mul_le hb).mpr (by rw [int64Min] at hlo; linarith [neg_mul a b])
    rw [if_neg ha, if_pos hb, if_neg]
    rw [int64Min, Int.neg_tdiv, Int.tdiv_eq_ediv_of_nonneg (by decide)]
    omega

/-- `fc::safe` negates a number of `int64_t` that is not negative without a throw. -/
theorem safeMul_neg_one {a : Int} (h₀ : 0 ≤ a) (h : a ≤ int64Max) : safeMul a (-1) = .ok (a * -1) := by
  unfold safeMul
  by_cases ha : a > 0
  · rw [if_pos ha, if_neg (by decide), if_neg]
    rw [int64Min, Int.neg_tdiv, Int.tdiv_eq_ediv_of_nonneg (by decide), not_lt]
    have : 2 ^ 63 / a ≥ 1 := (Int.le_ediv_iff_mul_le ha).mpr (by rw [int64Max] at h; omega)
    omega
  · have ha0 : a = 0 := by omega
    subst ha0
    decide

theorem safeAdd_of_range {a b : Int} (hlo : int64Min ≤ a + b) (hhi : a + b ≤ int64Max) :
    safeAdd a b = .ok (a + b) := by
  unfold safeAdd
  rw [if_neg (by omega), if_neg (by omega)]

/-! ### Symbols -/

theorem Symbol.letters_of_valid {s : Symbol} (hv : s.valid = true) : ∀ c ∈ s.name, 'A' ≤ c ∧ c ≤ 'Z' := by
  simp only [Symbol.valid, Symbol.validName, Bool.and_eq_true, decide_eq_true_eq, List.all_eq_true] at hv
  exact hv.2

theorem Symbol.decimals_le_of_valid {s : Symbol} (hv : s.valid = true) : s.decimals ≤ Symbol.maxPrecision := by
  simp only [Symbol.valid, Bool.and_eq_true, decide_eq_true_eq] at hv
  exact hv.1

theorem Symbol.precision_of_valid {s : Symbol} (hv : s.valid = true) : s.precision = .ok (10 ^ s.decimals) := by
  simp [Symbol.precision, Except.assert, Symbol.decimals_le_of_valid hv]

theorem Symbol.ofValue_of_valid {s : Symbol} (hv : s.valid = true) : Symbol.ofValue s.value = .ok s := by
  simp [Symbol.ofValue, Except.assert, hv]

/-- `string_to_symbol` of the name of a valid symbol and its decimals gives the symbol back. -/
theorem stringToSymbol_name {s : Symbol} (hv : s.valid = true) :
    stringToSymbol (UInt8.ofNat s.decimals) s.name = .ok s.value := by
  have hname := Symbol.letters_of_valid hv
  have hnul : nul ∉ s.name := fun h => absurd (toNat_of_letter (hname nul h).1 (hname nul h).2).1 (by decide)
  have hv64 := s.value.toNat_lt
  have hw : s.value.toNat / 256 < 256 ^ 7 := by omega
  rw [stringToSymbol, cString_eq_self hnul, Symbol.name,
    stringToSymbolLoop_nameChars _ 7 0 _ 0 hname (by omega) hw (by decide) (by decide)]
  congr 1
  apply UInt64.toNat_inj.mp
  have hd : (UInt8.ofNat s.decimals).toNat = s.value.toNat % 256 := by simp [Symbol.decimals]
  rw [UInt64.toNat_ofNat', hd, UInt64.toNat_zero, Nat.zero_add, Nat.zero_add, pow_one]
  omega

/-- **`symbol::from_string` reads back `symbol::to_string`.** -/
theorem Symbol.fromString_toString {s : Symbol} (hv : s.valid = true) : Symbol.fromString s.toString = .ok s := by
  have hdec : s.decimals ≤ 18 := Symbol.decimals_le_of_valid hv
  have hname := Symbol.letters_of_valid hv
  -- every character is a digit, the comma or a letter: none is a space
  have hchars : ∀ c ∈ s.toString, 32 < c.toNat := by
    intro c hc
    rcases List.mem_append.mp hc with hd | hc
    · have := toNat_le_of_isDigit (isDigit_of_mem_toDigits hd)
      omega
    · rcases List.mem_cons.mp hc with rfl | hn
      · decide
      · have := toNat_of_letter (hname c hn).1 (hname c hn).2
        omega
  have hcomma : ',' ∉ Nat.toDigits 10 s.decimals := fun h =>
    absurd (toNat_le_of_isDigit (isDigit_of_mem_toDigits h)).1 (by decide)
  have hp : (((s.decimals : Int) % 256).toNat).toUInt8 = UInt8.ofNat s.decimals := by
    rw [Int.emod_eq_of_lt (by omega) (by omega), Int.toNat_natCast]
  have hpd : (UInt8.ofNat s.decimals).toNat = s.decimals := by
    rw [UInt8.toNat_ofNat']
    omega
  simp only [Symbol.fromString, trim_eq_self_of_forall hchars]
  rw [Symbol.toString, idxOf?_append_cons hcomma]
  have hne : (Nat.toDigits 10 s.decimals ++ ',' :: s.name).isEmpty = false := by simp
  simp only [List.take_left', toInt64_toDigits (show s.decimals < 2 ^ 63 by omega), drop_length_succ_append,
    Except.mapError, hne,
    Bool.not_false, Except.assert, if_true, bind, Except.bind, hp, hpd,
    show decide (s.decimals ≤ Symbol.maxPrecision) = true from decide_eq_true hdec, stringToSymbol_name hv,
    Symbol.ofValue_of_valid hv]

/-! ### Assets -/

theorem Asset.isValid_iff {a : Asset} : a.isValid = true ↔
    (-Asset.maxAmount ≤ a.amount ∧ a.amount ≤ Asset.maxAmount) ∧ a.sym.valid = true := by
  simp [Asset.isValid, Asset.isAmountWithinRange]

theorem Asset.make_of_range {amount : Int} {sym : Symbol} (hlo : -Asset.maxAmount ≤ amount)
    (hhi : amount ≤ Asset.maxAmount) (hv : sym.valid = true) : Asset.make amount sym = .ok ⟨amount, sym⟩ := by
  simp [Asset.make, Asset.isAmountWithinRange, Except.assert, hlo, hhi, hv]
  rfl

/-- What `asset::to_string` prints for a valid asset. -/
theorem Asset.toString_of_valid {a : Asset} (hv : a.isValid = true) :
    a.toString = .ok ((if a.amount < 0 then ['-'] else []) ++
      (if a.sym.decimals ≠ 0 then Nat.toDigits 10 (a.amount.natAbs / 10 ^ a.sym.decimals) ++
          '.' :: (Nat.toDigits 10 (10 ^ a.sym.decimals + a.amount.natAbs % 10 ^ a.sym.decimals)).drop 1
        else Nat.toDigits 10 (a.amount.natAbs / 10 ^ a.sym.decimals)) ++ ' ' :: a.sym.name) := by
  obtain ⟨⟨hlo, -⟩, hsym⟩ := Asset.isValid_iff.mp hv
  have hmin : a.amount ≠ int64Min := by
    rw [int64Min]
    rw [Asset.maxAmount] at hlo
    omega
  -- the quotient and the remainder are taken on the magnitude, as numbers of `int64_t`
  simp only [Asset.toString, if_neg hmin, Symbol.precision_of_valid hsym, bind, Except.bind, pure, Except.pure,
    ← Int.natCast_div, ← Int.natCast_emod, ← Nat.cast_add, int64ToString_natCast]

/-- `asset::from_string` of an amount of a symbol without decimals: the sign, the digits, a space and the name. -/
theorem Asset.fromString_whole {sym : Symbol} (hv : sym.valid = true) (hn : sym.name ≠ []) (neg : Bool) {q : Nat}
    (hmax : q ≤ 2 ^ 62 - 1) (hd0 : sym.decimals = 0) :
    Asset.fromString ((if neg then ['-'] else []) ++ Nat.toDigits 10 q ++ ' ' :: sym.name) =
      .ok ⟨if neg then -(q : Int) else q, sym⟩ := by
  have hname := Symbol.letters_of_valid hv
  have hchars := @space_lt_of_amount neg _ (fun c hc => .inl (isDigit_of_mem_toDigits (n := q) hc))
  have hne : (if neg then ['-'] else []) ++ Nat.toDigits 10 q ≠ [] := by simp [Nat.toDigits_ne_nil]
  have hspace : ' ' ∉ (if neg then ['-'] else []) ++ Nat.toDigits 10 q := fun h => absurd (hchars _ h) (by decide)
  have hdot : '.' ∉ (if neg then ['-'] else []) ++ Nat.toDigits 10 q := by
    intro h
    rcases List.mem_append.mp h with hs | hd
    · cases neg <;> simp_all
    · exact absurd (toNat_le_of_isDigit (isDigit_of_mem_toDigits hd)).1 (by decide)
  have hsym : Symbol.fromString ('0' :: ',' :: sym.name) = .ok sym := by
    have := Symbol.fromString_toString hv
    rwa [Symbol.toString, hd0] at this
  have htrim : trim sym.name = sym.name := trim_eq_self_of_forall fun c hc => by
    have := toNat_of_letter (hname c hc).1 (hname c hc).2
    omega
  have hP : sym.precision = .ok 1 := by rw [Symbol.precision_of_valid hv, hd0]; rfl
  have hq : q < 2 ^ 63 := by omega
  rw [Asset.fromString, List.append_assoc, ← List.append_assoc, trim_append_name hchars hne hname hn,
    idxOf?_append_cons hspace]
  -- the amount read is the signed whole part, in the range of an asset
  have hx : -Asset.maxAmount ≤ (if neg then -(q : Int) else q) ∧
      (if neg then -(q : Int) else q) ≤ Asset.maxAmount := by
    cases neg <;> simp [Asset.maxAmount] <;> omega
  have hmul : safeMul (if neg then -(q : Int) else q) 1 = .ok (if neg then -(q : Int) else q) := by
    rw [safeMul_of_pos one_pos (by rw [int64Min, Int.mul_one]; rw [Asset.maxAmount] at hx; omega)
      (by rw [int64Max, Int.mul_one]; rw [Asset.maxAmount] at hx; omega), Int.mul_one]
  have hadd : safeAdd (if neg then -(q : Int) else q) 0 = .ok (if neg then -(q : Int) else q) := by
    rw [safeAdd_of_range (by rw [int64Min, Int.add_zero]; rw [Asset.maxAmount] at hx; omega)
      (by rw [int64Max, Int.add_zero]; rw [Asset.maxAmount] at hx; omega), Int.add_zero]
  simp only [drop_length_succ_append, List.take_left', List.idxOf?_eq_none_iff.mpr hdot, htrim,
    List.singleton_append, hsym,
    toInt64_signed neg hq, Except.mapError, hP, none_bne_some, Except.assert, if_true, bind, Except.bind, pure,
    Except.pure, Nat.cast_one, hmul, hadd, Asset.make_of_range hx.1 hx.2 hv]

/-- `asset::from_string` of an amount of a symbol with `d ≠ 0` decimals as `asset::to_string` prints it: the sign,
the whole units `q`, the dot, the `d` digits of `10 ^ d + r` after their leading `1`, a space and the name. -/
theorem Asset.fromString_fraction {sym : Symbol} (hv : sym.valid = true) (hn : sym.name ≠ []) (neg : Bool)
    {q r : Nat} (hd0 : sym.decimals ≠ 0) (hr : r < 10 ^ sym.decimals)
    (hmax : q * 10 ^ sym.decimals + r ≤ 2 ^ 62 - 1) :
    Asset.fromString ((if neg then ['-'] else []) ++
        (Nat.toDigits 10 q ++ '.' :: (Nat.toDigits 10 (10 ^ sym.decimals + r)).drop 1) ++ ' ' :: sym.name) =
      .ok ⟨if neg then -((q * 10 ^ sym.decimals + r : Nat) : Int) else (q * 10 ^ sym.decimals + r : Nat), sym⟩ := by
  have hname := Symbol.letters_of_valid hv
  obtain ⟨F, hF, hFlen, hFdig, hFval⟩ := toDigits_pow_add hr
  rw [hF, List.drop_one, List.tail_cons, ← List.append_assoc]
  -- the amount is the signed whole part, the dot and the `d` digits of the fraction
  have hwhole := @space_lt_of_amount neg _ (fun c hc => .inl (isDigit_of_mem_toDigits (n := q) hc))
  have hchars : ∀ c ∈ (if neg then ['-'] else []) ++ Nat.toDigits 10 q ++ '.' :: F, 32 < c.toNat := by
    intro c hc
    rcases List.mem_append.mp hc with hw | hf
    · exact hwhole c hw
    · rcases List.mem_cons.mp hf with rfl | hf
      · decide
      · have := toNat_le_of_isDigit (hFdig c hf)
        omega
  have hne : (if neg then ['-'] else []) ++ Nat.toDigits 10 q ++ '.' :: F ≠ [] := by simp
  have hspace : ' ' ∉ (if neg then ['-'] else []) ++ Nat.toDigits 10 q ++ '.' :: F :=
    fun h => absurd (hchars _ h) (by decide)
  have hdot : '.' ∉ (if neg then ['-'] else []) ++ Nat.toDigits 10 q := by
    intro h
    rcases List.mem_append.mp h with hs | hd
    · cases neg <;> simp_all
    · exact absurd (toNat_le_of_isDigit (isDigit_of_mem_toDigits hd)).1 (by decide)
  have htrim : trim sym.name = sym.name := trim_eq_self_of_forall fun c hc => by
    have := toNat_of_letter (hname c hc).1 (hname c hc).2
    omega
  -- where the text splits: at the space, then at the dot
  have hlen : ((if neg then ['-'] else []) ++ Nat.toDigits 10 q ++ '.' :: F).length =
      ((if neg then ['-'] else []) ++ Nat.toDigits 10 q).length + 1 + sym.decimals := by
    rw [List.length_append, List.length_cons, hFlen]
    omega
  have hassert : (some ((if neg then ['-'] else []) ++ Nat.toDigits 10 q).length !=
      some (((if neg then ['-'] else []) ++ Nat.toDigits 10 q ++ '.' :: F).length - 1)) = true := by
    rw [hlen, bne_iff_ne, ne_eq, Option.some.injEq]
    omega
  have hprec : ((if neg then ['-'] else []) ++ Nat.toDigits 10 q ++ '.' :: F).length -
      ((if neg then ['-'] else []) ++ Nat.toDigits 10 q).length - 1 = sym.decimals := by
    rw [hlen]
    omega
  have hsym : Symbol.fromString (Nat.toDigits 10 sym.decimals ++ ',' :: sym.name) = .ok sym :=
    Symbol.fromString_toString hv
  rw [Asset.fromString, trim_append_name hchars hne hname hn, idxOf?_append_cons hspace]
  -- the two numbers read, and the precision
  have hP : 0 < 10 ^ sym.decimals := by positivity
  have hq : q < 2 ^ 63 := by
    have := Nat.le_mul_of_pos_right q hP
    omega
  have hFr : toInt64 F = .ok (r : Int) := by
    rw [toInt64, ← hFval, lexicalCastInt64_digits (List.ne_nil_of_length_pos (by omega)) hFdig (by omega)]
  simp only [drop_length_succ_append, List.take_left', idxOf?_append_cons hdot, hassert, hprec, htrim, hsym,
    Except.assert, if_true, bind, Except.bind, pure, Except.pure, Except.mapError, toInt64_signed neg hq, hFr,
    Symbol.precision_of_valid hv]
  -- the amount and its parts are within the range of an asset
  have hrange : (q : Int) * ((10 ^ sym.decimals : Nat) : Int) + r < 2 ^ 62 := by
    have : ((q * 10 ^ sym.decimals + r : Nat) : Int) < 2 ^ 62 := by omega
    exact_mod_cast this
  have hnonneg : (0 : Int) ≤ (q : Int) * ((10 ^ sym.decimals : Nat) : Int) := by positivity
  cases neg with
  | false =>
    -- a digit comes first, not a minus sign
    have hhead : (Nat.toDigits 10 q ++ '.' :: F).head? ≠ some '-' := by
      rw [List.head?_append_of_ne_nil _ Nat.toDigits_ne_nil]
      intro h
      have := toNat_le_of_isDigit (isDigit_of_mem_toDigits (List.mem_of_mem_head? h))
      simp at this
    have hmul := safeMul_of_pos (a := q) (b := ((10 ^ sym.decimals : Nat) : Int)) (by omega)
      (by rw [int64Min]; omega) (by rw [int64Max]; omega)
    have hadd := safeAdd_of_range (a := (q : Int) * ((10 ^ sym.decimals : Nat) : Int)) (b := r)
      (by rw [int64Min]; omega) (by rw [int64Max]; omega)
    simp only [Bool.false_eq_true, if_false, List.nil_append, hhead, hmul, hadd, Nat.cast_add, Nat.cast_mul]
    exact Asset.make_of_range (by rw [Asset.maxAmount]; omega) (by rw [Asset.maxAmount]; omega) hv
  | true =>
    -- the minus sign comes first, and the fraction is negated
    have hmul := safeMul_of_pos (a := -(q : Int)) (b := ((10 ^ sym.decimals : Nat) : Int)) (by omega)
      (by rw [int64Min, Int.neg_mul]; omega) (by rw [int64Max, Int.neg_mul]; omega)
    have hneg := safeMul_neg_one (a := r) (by omega) (by rw [int64Max]; omega)
    have hadd := safeAdd_of_range (a := -(q : Int) * ((10 ^ sym.decimals : Nat) : Int)) (b := (r : Int) * -1)
      (by rw [int64Min, Int.neg_mul]; omega) (by rw [int64Max, Int.neg_mul]; omega)
    have hsum : -(q : Int) * ((10 ^ sym.decimals : Nat) : Int) + (r : Int) * -1 =
        -((q : Int) * ((10 ^ sym.decimals : Nat) : Int) + r) := by ring
    simp only [if_true, List.cons_append, List.head?_cons, hneg, hmul, hadd, hsum,
      Nat.cast_add, Nat.cast_mul]
    exact Asset.make_of_range (by rw [Asset.maxAmount]; omega) (by rw [Asset.maxAmount]; omega) hv

end Text

/-- **`asset::from_string` reads back `asset::to_string`.** A valid asset whose symbol has a name prints as a text
that `from_string` reads as the same asset. -/
theorem asset_string_round_trip {a : Asset} (hv : a.isValid = true) (hn : a.sym.name ≠ []) :
    ∃ str, a.toString = .ok str ∧ Asset.fromString str = .ok a := by
  obtain ⟨⟨hlo, hhi⟩, hsym⟩ := Asset.isValid_iff.mp hv
  rw [Asset.maxAmount] at hlo hhi
  refine ⟨_, Asset.toString_of_valid hv, ?_⟩
  have hP : 0 < 10 ^ a.sym.decimals := by positivity
  -- the whole units and the fraction make up the magnitude
  have hdiv := Nat.div_add_mod' a.amount.natAbs (10 ^ a.sym.decimals)
  -- and the magnitude with the sign is the amount
  have hsigned : (if a.amount < 0 then -(a.amount.natAbs : Int) else a.amount.natAbs) = a.amount := by
    split <;> omega
  by_cases hd0 : a.sym.decimals = 0
  · have h := Asset.fromString_whole hsym hn (decide (a.amount < 0)) (q := a.amount.natAbs / 10 ^ a.sym.decimals)
      (by rw [hd0, Nat.pow_zero, Nat.div_one]; omega) hd0
    simp only [decide_eq_true_eq] at h
    rw [if_neg (not_not.mpr hd0), h, hd0, Nat.pow_zero, Nat.div_one, hsigned]
  · have h := Asset.fromString_fraction hsym hn (decide (a.amount < 0)) hd0 (Nat.mod_lt _ hP)
      (by rw [hdiv]; omega)
    simp only [decide_eq_true_eq] at h
    rw [if_pos hd0, h, hdiv, hsigned]

theorem asset_string_round_trip_sys :
    ∃ str, (Asset.mk (-12345) ⟨0x53595304⟩).toString = .ok str ∧
      Asset.fromString str = .ok ⟨-12345, ⟨0x53595304⟩⟩ :=
  asset_string_round_trip (by decide) (by decide)

/- The name cannot be empty: a valid asset of the empty name prints as `"1 "`, which `from_string` trims to `"1"` and
rejects for want of a space. What `from_string` accepts is wider than what `to_string` prints: in `"1.-5 SYS"` the
fraction `-5` is read with its sign, giving 95 at precision 2, and with 260 digits after the dot the precision `260`
narrows to the `uint8_t` 4, so that `"1.000…0005 SYS"` reads as 1.0005. -/
example :
    (Asset.mk 1 ⟨0⟩).isValid = true ∧ (Asset.mk 1 ⟨0⟩).toString = .ok ['1', ' '] ∧
      Asset.fromString ['1', ' '] = .error (.assetType "Asset's amount and symbol should be separated with space") ∧
      Asset.fromString ['1', '.', '-', '5', ' ', 'S', 'Y', 'S'] = .ok ⟨95, ⟨0x53595302⟩⟩ ∧
      Asset.fromString ('1' :: '.' :: List.replicate 259 '0' ++ ['5', ' ', 'S', 'Y', 'S']) =
        .ok ⟨10005, ⟨0x53595304⟩⟩ := by
  decide +kernel

end Gstio.Chain
