import Gstio.Fc.Uint128

/-!
# The 128-bit compiler builtins of the WASM interface (`wasm_interface.cpp`, `compiler_builtins`)

A contract passes a 128-bit number as two 64-bit words, `low` and `high`. The shifts `__ashlti3`, `__lshlti3` and
`__lshrti3` go through `fc::uint128`; `__ashrti3` and the signed arithmetic build a native `__int128` as
`v = high; v <<= 64; v |= low` and use its operators, which C++ leaves undefined on some inputs; `__udivti3` and
`__umodti3` use `unsigned __int128`, where every operation is defined.

* `ashlti3_eq`, `lshrti3_eq`, `udivti3_eq`: the shifts through `fc::uint128` and the unsigned division are exact;
* `ashrti3_of_lt`, `signedDivision_eq`: the signed shift below `128` and the signed division are exact where
  defined;
* `ashrti3_undefined_iff`: `__ashrti3` reaches undefined behaviour exactly for a shift of `128` or more;
* `divti3_min_neg_one`, `multi3_overflow`: so do `__divti3` of `-2^127` by `-1` and `__multi3` of `2^64` by
  itself.
-/

namespace Gstio.Chain

open Gstio.Fc

/-- What a builtin does instead of returning: throw an `arithmetic_exception`, or reach undefined behaviour. -/
inductive BuiltinError where
  | arithmeticException (msg : String)
  | undefinedBehavior
  deriving DecidableEq, Repr

/-- An operation of C++: its result where it is defined. -/
def defined {α : Type} : Option α → Except BuiltinError α
  | some a => .ok a
  | none => .error .undefinedBehavior

/-- The number the words denote, read as unsigned. -/
def unsignedValue (low high : UInt64) : Nat := 2 ^ 64 * high.toNat + low.toNat

/-- The number the words denote, read as signed. -/
def signedValue (low high : UInt64) : Int := CppInt.toSigned 128 (unsignedValue low high)

/-- `__int128 v = high; v <<= 64; v |= low;` -/
def signedOfWords (low high : UInt64) : Except BuiltinError Int := do
  let v ← defined (CppInt.shiftLeft 128 high.toNat 64)
  pure (CppInt.or 128 v low.toNat)

/-- `unsigned __int128 v = high; v <<= 64; v |= low;`, modulo `2^128`. -/
def unsignedOfWords (low high : UInt64) : Nat := (2 ^ 64 * high.toNat % 2 ^ 128) ||| low.toNat

/-- `fc::uint128_t i(high, low); i <<= shift; ret = (unsigned __int128)i;` -/
def uint128ShiftLeft (low high : UInt64) (shift : UInt32) : Int :=
  CppInt.toSigned 128 ((Uint128.mk high low).shiftLeft shift.toNat).toNat

/-- `__ashlti3`. -/
def ashlti3 (low high : UInt64) (shift : UInt32) : Int := uint128ShiftLeft low high shift

/-- `__lshlti3`. -/
def lshlti3 (low high : UInt64) (shift : UInt32) : Int := uint128ShiftLeft low high shift

/-- `__lshrti3`: `fc::uint128_t i(high, low); i >>= shift; ret = (unsigned __int128)i;` -/
def lshrti3 (low high : UInt64) (shift : UInt32) : Int :=
  CppInt.toSigned 128 ((Uint128.mk high low).shiftRight shift.toNat).toNat

/-- `__ashrti3`: `ret = high; ret <<= 64; ret |= low; ret >>= shift;` on an `__int128`. -/
def ashrti3 (low high : UInt64) (shift : UInt32) : Except BuiltinError Int := do
  let ret ← signedOfWords low high
  defined (CppInt.shiftRight 128 ret shift.toNat)

/-- `__divti3` and `__modti3`: both operands as `__int128`, `GST_ASSERT(rhs != 0, arithmetic_exception,
"divide by zero")`, then `op`. -/
def signedDivision (op : Int → Int → Option Int) (la ha lb hb : UInt64) : Except BuiltinError Int := do
  let lhs ← signedOfWords la ha
  let rhs ← signedOfWords lb hb
  if rhs = 0 then throw (.arithmeticException "divide by zero")
  defined (op lhs rhs)

/-- `__divti3`. -/
def divti3 (la ha lb hb : UInt64) : Except BuiltinError Int := signedDivision (CppInt.div 128) la ha lb hb

/-- `__modti3`. -/
def modti3 (la ha lb hb : UInt64) : Except BuiltinError Int := signedDivision (CppInt.rem 128) la ha lb hb

/-- `__multi3`: both operands as `__int128`, and `lhs *= rhs`, with no check. -/
def multi3 (la ha lb hb : UInt64) : Except BuiltinError Int := do
  let lhs ← signedOfWords la ha
  let rhs ← signedOfWords lb hb
  defined (CppInt.mul 128 lhs rhs)

/-- `__udivti3` and `__umodti3`: both operands as `unsigned __int128`, the assertion, then `op`. -/
def unsignedDivision (op : Nat → Nat → Nat) (la ha lb hb : UInt64) : Except BuiltinError Nat := do
  let lhs := unsignedOfWords la ha
  let rhs := unsignedOfWords lb hb
  if rhs = 0 then throw (.arithmeticException "divide by zero")
  pure (op lhs rhs)

/-- `__udivti3`. -/
def udivti3 (la ha lb hb : UInt64) : Except BuiltinError Nat := unsignedDivision (· / ·) la ha lb hb

/-- `__umodti3`. -/
def umodti3 (la ha lb hb : UInt64) : Except BuiltinError Nat := unsignedDivision (· % ·) la ha lb hb

/-! ## The operands -/

theorem unsignedValue_eq_toNat (low high : UInt64) : unsignedValue low high = (Uint128.mk high low).toNat := by
  rw [Uint128.toNat_eq, unsignedValue, Nat.mul_comm]

theorem signedOfWords_eq (low high : UInt64) : signedOfWords low high = .ok (signedValue low high) := by
  have hhigh := high.toNat_lt
  have hfit : 2 ^ 64 * high.toNat < 2 ^ 128 := by omega
  have hshift := CppInt.shiftLeft_of_fits (w := 128) (s := 64) (by decide) (Int.natCast_nonneg high.toNat)
    (by exact_mod_cast hfit)
  unfold signedOfWords
  rw [hshift]
  simp only [defined, bind, Except.bind, pure, Except.pure]
  -- `high` shifted up by `64`, and `low` or-ed in below it
  rw [CppInt.or_shifted (by decide) low.toNat_lt hfit, signedValue, unsignedValue, Int.natCast_add,
    Int.natCast_mul, Int.natCast_pow, Nat.cast_ofNat]

theorem unsignedOfWords_eq (low high : UInt64) : unsignedOfWords low high = unsignedValue low high := by
  have hfit : 2 ^ 64 * high.toNat < 2 ^ 128 := by have := high.toNat_lt; omega
  rw [unsignedOfWords, Nat.mod_eq_of_lt hfit, Nat.mul_comm, ← Nat.shiftLeft_eq,
    ← Nat.shiftLeft_add_eq_or_of_lt low.toNat_lt, Nat.shiftLeft_eq, unsignedValue, Nat.mul_comm]

/-! ## The shifts -/

/-- `__ashlti3` and `__lshlti3` return the bits of `x * 2^shift` modulo `2^128`, so `0` for a shift of `128` or
more. -/
theorem ashlti3_eq (low high : UInt64) (shift : UInt32) :
    ashlti3 low high shift = CppInt.toSigned 128 (unsignedValue low high * 2 ^ shift.toNat % 2 ^ 128 : Nat) := by
  rw [ashlti3, uint128ShiftLeft, Uint128.shiftLeft_toNat, unsignedValue_eq_toNat]

/-- `__lshrti3` returns the bits of `x / 2^shift`. -/
theorem lshrti3_eq (low high : UInt64) (shift : UInt32) :
    lshrti3 low high shift = CppInt.toSigned 128 (unsignedValue low high / 2 ^ shift.toNat : Nat) := by
  rw [lshrti3, Uint128.shiftRight_toNat, unsignedValue_eq_toNat]

/-- Below `128`, `__ashrti3` shifts the signed number, rounding down. -/
theorem ashrti3_of_lt (low high : UInt64) {shift : UInt32} (h : shift.toNat < 128) :
    ashrti3 low high shift = .ok (signedValue low high / 2 ^ shift.toNat) := by
  unfold ashrti3
  rw [signedOfWords_eq]
  simp only [bind, Except.bind]
  rw [CppInt.shiftRight_of_lt h]
  rfl

/-- **`__ashrti3` reaches undefined behaviour exactly for a shift of `128` or more**: it shifts the native
`__int128` by the caller's amount, unchecked. -/
theorem ashrti3_undefined_iff (low high : UInt64) (shift : UInt32) :
    ashrti3 low high shift = .error .undefinedBehavior ↔ 128 ≤ shift.toNat := by
  unfold ashrti3
  rw [signedOfWords_eq]
  simp only [bind, Except.bind]
  cases h : CppInt.shiftRight 128 (signedValue low high) shift.toNat with
  | none => exact iff_of_true rfl (CppInt.shiftRight_eq_none_iff.mp h)
  | some v =>
    refine iff_of_false (fun h' => by cases h') (fun hs => ?_)
    rw [CppInt.shiftRight_eq_none_iff.mpr hs] at h
    cases h

/-! ## Division and product -/

/-- The signed division and remainder throw for a zero divisor and otherwise apply `op` to the signed numbers. -/
theorem signedDivision_eq (op : Int → Int → Option Int) (la ha lb hb : UInt64) :
    signedDivision op la ha lb hb =
      if signedValue lb hb = 0 then .error (.arithmeticException "divide by zero")
      else defined (op (signedValue la ha) (signedValue lb hb)) := by
  simp only [signedDivision, signedOfWords_eq, bind, Except.bind]
  split <;> rfl

/-- `__udivti3` and `__umodti3` throw exactly for a zero divisor and are otherwise exact. -/
theorem unsignedDivision_eq (op : Nat → Nat → Nat) (la ha lb hb : UInt64) :
    unsignedDivision op la ha lb hb =
      if unsignedValue lb hb = 0 then .error (.arithmeticException "divide by zero")
      else .ok (op (unsignedValue la ha) (unsignedValue lb hb)) := by
  simp only [unsignedDivision, unsignedOfWords_eq]
  split <;> rfl

theorem udivti3_eq (la ha lb hb : UInt64) :
    udivti3 la ha lb hb =
      if unsignedValue lb hb = 0 then .error (.arithmeticException "divide by zero")
      else .ok (unsignedValue la ha / unsignedValue lb hb) :=
  unsignedDivision_eq _ la ha lb hb

/-- `__divti3` of `-2^127` by `-1`: the quotient `2^127` is out of range, and the division undefined. -/
theorem divti3_min_neg_one :
    divti3 0 0x8000000000000000 0xFFFFFFFFFFFFFFFF 0xFFFFFFFFFFFFFFFF = .error .undefinedBehavior := by
  rw [divti3, signedDivision_eq]
  decide

/-- `__multi3` of `2^64` by itself: the product `2^128` is out of range, and the multiplication undefined. -/
theorem multi3_overflow : multi3 0 1 0 1 = .error .undefinedBehavior := by
  simp only [multi3, signedOfWords_eq, bind, Except.bind]
  decide

end Gstio.Chain
