import Mathlib
import Gstio.Lib.Leb128
import Gstio.Fc.Raw

/-!
# fc: `unsigned_int` and `signed_int` (`raw.hpp`, `varint.hpp`)

Both are written seven bits a byte, least significant first, the high bit set while more bytes follow (the LEB128
bytes of `Leb128`); `signed_int` first takes the zigzag form of its value. The reader of `unsigned_int` stops after
five bytes; the reader of `signed_int` has no bound and reads while the high bit is set, so that at its sixth byte
it shifts a `uint32_t` by 35, which C++ leaves undefined (`none`, as for the builtins of `CppInt`).

* `packUnsignedInt_bytes`, `unpackUnsignedInt_packUnsignedInt`: an `unsigned_int` is written as the LEB128 bytes
  of its value and read back from them, whatever follows;
* `unpackUnsignedInt_consumes_le`: the reader of `unsigned_int` takes at most five bytes of any stream;
* `unzigzag_zigzag`, `unpackSignedInt_packSignedInt`: the reverse zigzag undoes the zigzag, and a `signed_int`
  is read back from what is written;
* `unpackSignedInt_reads_past_five_bytes`: after five bytes with the high bit set, where the reader of
  `unsigned_int` stops, the reader of `signed_int` goes on to a shift that is undefined.
-/

namespace Gstio.Fc

/-! ## `signed_int` -/

/-- The zigzag form of `pack(s, const signed_int&)`: `(v.value<<1) ^ (v.value>>31)` as a `uint32_t`. -/
def zigzag (x : Int32) : UInt32 := ((x <<< 1) ^^^ (x >>> 31)).toUInt32

/-- `fc::raw::pack(s, const signed_int&)`: the loop of `unsigned_int` over the zigzag form, a `uint32_t`. -/
def packSignedInt (x : Int32) : List UInt8 := packUnsignedIntLoop 5 (zigzag x).toUInt64

/-- The loop of `fc::raw::unpack(s, signed_int&)`, with no bound on the bytes it reads; `none` where its behaviour
is undefined. -/
def unpackSignedIntLoop (shift : Nat) (v : UInt32) : List UInt8 → Option (Except FcException (UInt32 × List UInt8))
  | [] => some (.error (.outOfRange "get datastream"))
  | b :: s =>
    -- `uint32_t(...) << by` with `by` of 32 or more is undefined
    if 32 ≤ shift then none
    else
      let v := v ||| ((b.toUInt32 &&& 0x7f) <<< shift.toUInt32)
      if b &&& 0x80 ≠ 0 then unpackSignedIntLoop (shift + 7) v s else some (.ok (v, s))

/-- The reverse zigzag of `unpack(s, signed_int&)`: `(v>>1) ^ (~(v&1)+1ull)`, a `uint64_t` stored in the
`int32_t`. -/
def unzigzag (v : UInt32) : Int32 := ((v >>> 1).toUInt64 ^^^ ((~~~(v &&& 1)).toUInt64 + 1)).toUInt32.toInt32

/-- `fc::raw::unpack(s, signed_int&)`; `none` where its behaviour is undefined. -/
def unpackSignedInt (s : List UInt8) : Option (Except FcException (Int32 × List UInt8)) :=
  (unpackSignedIntLoop 0 0 s).map fun r => do
    let (v, s) ← r
    pure (unzigzag v, s)

/-- The zigzag form on bits: `x` shifted left by one, with every bit flipped when `x` is negative. -/
theorem zigzag_toBitVec (x : Int32) :
    (zigzag x).toBitVec = (x.toBitVec <<< 1) ^^^ x.toBitVec.sshiftRight 31 := rfl

theorem sshiftRight_31 (b : BitVec 32) : b.sshiftRight 31 = if b.msb then BitVec.allOnes 32 else 0#32 := by
  ext i hi
  rw [BitVec.getElem_sshiftRight]
  by_cases h0 : i = 0
  · subst h0
    cases hm : b.msb <;> simp [BitVec.msb_eq_getLsbD_last] at hm ⊢ <;> simp [hm]
  · rw [dif_neg (by omega)]
    cases hm : b.msb <;> simp only [if_true, if_false, Bool.false_eq_true, BitVec.getElem_allOnes,
      BitVec.getElem_zero]

/-- The low bit of the zigzag form is the sign. -/
theorem zigzag_and_one (x : Int32) : zigzag x &&& 1 = if x.toBitVec.msb then 1 else 0 := by
  apply UInt32.toBitVec_inj.mp
  rw [UInt32.toBitVec_and, zigzag_toBitVec, sshiftRight_31]
  -- bit `0` of `x <<< 1` is clear, so bit `0` is the sign and the others are cleared by the mask
  cases hm : x.toBitVec.msb <;> simp only [if_true, if_false, Bool.false_eq_true] <;> ext i hi <;>
    simp only [BitVec.getElem_and, BitVec.getElem_xor, BitVec.getElem_shiftLeft, BitVec.getElem_zero,
      BitVec.getElem_allOnes, UInt32.toBitVec_one, UInt32.toBitVec_zero, BitVec.getElem_one] <;>
    by_cases h0 : i = 0 <;> simp [h0]

/-- The reverse zigzag flips every bit of `v >>> 1` when the low bit of `v` is set: `~(v&1)+1` is `0` or
`2^32 - 1` in its low 32 bits. -/
theorem unzigzag_eq (v : UInt32) :
    unzigzag v = ((v >>> 1) ^^^ (if v &&& 1 = 0 then 0 else 0xFFFFFFFF)).toInt32 := by
  have hbit : v &&& 1 = 0 ∨ v &&& 1 = 1 := by
    have hlt : (v &&& 1).toNat < 2 := by
      rw [UInt32.toNat_and]
      exact lt_of_le_of_lt Nat.and_le_right (by decide)
    rcases (by omega : (v &&& 1).toNat = 0 ∨ (v &&& 1).toNat = 1) with h | h
    · exact Or.inl (UInt32.toNat_inj.mp h)
    · exact Or.inr (UInt32.toNat_inj.mp h)
  have hmask : ((~~~(v &&& 1)).toUInt64 + 1).toUInt32 = if v &&& 1 = 0 then 0 else 0xFFFFFFFF := by
    rcases hbit with h | h <;> rw [h] <;> decide
  rw [unzigzag, UInt64.toUInt32_xor, UInt32.toUInt32_toUInt64, hmask]

theorem unzigzag_zigzag (x : Int32) : unzigzag (zigzag x) = x := by
  rw [unzigzag_eq, zigzag_and_one]
  apply Int32.toBitVec_inj.mp
  have h1 : ((1 : UInt32).toBitVec % 32).toNat = 1 := by decide
  have hlast : x.toBitVec[31] = x.toBitVec.msb := by simp [BitVec.msb_eq_getLsbD_last]
  have hones : (0xFFFFFFFF : UInt32).toBitVec = BitVec.allOnes 32 := by decide
  -- bit `i` of the result is bit `i + 1` of `x <<< 1`, flipped twice when `x` is negative; bit `31` is the sign
  cases hm : x.toBitVec.msb <;>
    simp only [if_true, if_false, Bool.false_eq_true, UInt32.toBitVec_toInt32, UInt32.toBitVec_xor,
      UInt32.toBitVec_shiftRight, zigzag_toBitVec, sshiftRight_31, hm, hones,
      BitVec.ushiftRight_eq', show ((1 : UInt32) = 0) ↔ False by decide, UInt32.toBitVec_zero] <;> ext i hi <;>
    simp only [BitVec.getElem_xor, BitVec.getElem_zero, BitVec.getElem_allOnes, BitVec.getElem_ushiftRight,
      BitVec.getLsbD_xor, BitVec.getLsbD_shiftLeft, BitVec.getLsbD_zero, BitVec.getLsbD_allOnes, h1] <;>
    by_cases h31 : i = 31
  · subst h31
    simp [hlast, hm]
  · simp [show 1 + i < 32 by omega, BitVec.getLsbD_eq_getElem hi]
  · subst h31
    simp [hlast, hm]
  · simp [show 1 + i < 32 by omega, BitVec.getLsbD_eq_getElem hi]

/-! ## Writing -/

/-- The loop writes the LEB128 bytes of its value, given a byte of fuel for each. -/
theorem packUnsignedIntLoop_bytes : ∀ (fuel : Nat) (val : UInt64), (Leb128.bytes val.toNat).length ≤ fuel →
    (packUnsignedIntLoop fuel val).map UInt8.toNat = Leb128.bytes val.toNat
  | 0, val, h => absurd h (by have := Leb128.length_bytes_pos val.toNat; omega)
  | fuel + 1, val, h => by
    have hlow : (val.toUInt8 &&& 0x7f).toNat = val.toNat % 128 := by
      have : (127 : Nat) = 2 ^ 7 - 1 := rfl
      simp only [UInt8.toNat_and, UInt64.toNat_toUInt8, UInt8.reduceToNat, this, Nat.and_two_pow_sub_one_eq_mod]
      omega
    have hshift : (val >>> 7).toNat = val.toNat / 128 := by
      simp [UInt64.toNat_shiftRight, Nat.shiftRight_eq_div_pow]
    by_cases hv : val.toNat < 128
    · -- one byte, without the high bit
      have h0 : val >>> 7 = 0 := UInt64.toNat_inj.mp (by rw [hshift]; simp; omega)
      simp [packUnsignedIntLoop, h0, Leb128.bytes_of_lt hv, hlow]
      omega
    · -- a byte with the high bit, then the bytes of `val / 128`
      have hne : val >>> 7 ≠ 0 := fun h0 => by
        have := congrArg UInt64.toNat h0
        rw [hshift] at this
        simp at this
        omega
      have hpos : val >>> 7 > 0 := by
        show (0 : UInt64) < val >>> 7
        rw [UInt64.lt_iff_toNat_lt, hshift]
        simp
        omega
      rw [Leb128.bytes_of_ge (by omega), List.length_cons] at h
      have hrest := packUnsignedIntLoop_bytes fuel (val >>> 7) (by rw [hshift]; omega)
      rw [hshift] at hrest
      simp only [packUnsignedIntLoop, hpos, if_true, hne, ne_eq, not_false_eq_true, List.map_cons, hrest,
        Leb128.bytes_of_ge (Nat.le_of_not_lt hv)]
      congr 1
      rw [UInt8.toNat_or, hlow]
      exact Leb128.or_two_pow_seven (Nat.mod_lt _ (by decide))

/-- `unsigned_int` is written as the LEB128 bytes of its value. -/
theorem packUnsignedInt_bytes (x : UInt32) : (packUnsignedInt x).map UInt8.toNat = Leb128.bytes x.toNat :=
  packUnsignedIntLoop_bytes 5 x.toUInt64
    (Leb128.length_bytes_le (by decide) (lt_of_lt_of_le x.toNat_lt (by decide)))

/-! ## Reading -/

theorem and_high_bit_eq_zero_iff (b : UInt8) : b &&& 0x80 = 0 ↔ b.toNat < 128 := by
  rw [← UInt8.toNat_inj, UInt8.toNat_and]
  exact Leb128.and_two_pow_seven_eq_zero_iff b.toNat_lt

/-- One byte of a reader: its low seven bits go to bit `7k` of `v`. -/
theorem toNat_or_shiftLeft {v : UInt32} {b : UInt8} {k : Nat} (hk : k ≤ 4) (hv : v.toNat < 2 ^ (7 * k))
    (hfit : v.toNat + b.toNat % 128 * 2 ^ (7 * k) < 2 ^ 32) :
    (v ||| ((b.toUInt32 &&& 0x7f) <<< UInt32.ofNat (7 * k))).toNat = v.toNat + b.toNat % 128 * 2 ^ (7 * k) := by
  have hlow : (b.toUInt32 &&& 0x7f).toNat = b.toNat % 128 := by
    have : (127 : Nat) = 2 ^ 7 - 1 := rfl
    simp only [UInt32.toNat_and, UInt8.toNat_toUInt32, UInt32.reduceToNat, this, Nat.and_two_pow_sub_one_eq_mod]
  have hshift : ((b.toUInt32 &&& 0x7f) <<< UInt32.ofNat (7 * k)).toNat = b.toNat % 128 * 2 ^ (7 * k) := by
    rw [UInt32.toNat_shiftLeft, hlow, UInt32.toNat_ofNat', Nat.shiftLeft_eq]
    have h1 : 7 * k % 2 ^ 32 % 32 = 7 * k := by omega
    rw [h1, Nat.mod_eq_of_lt (by omega)]
  rw [UInt32.toNat_or, hshift, Nat.lor_comm, ← Nat.shiftLeft_eq, ← Nat.shiftLeft_add_eq_or_of_lt hv,
    Nat.shiftLeft_eq]
  omega

/-- The last byte of the LEB128 bytes of `n`, read at bit `7k`, adds `n` there. -/
theorem readByte_last {n k : Nat} {v : UInt32} {b : UInt8} (hb : b.toNat = n) (hn : n < 128) (hk : k ≤ 4)
    (hv : v.toNat < 2 ^ (7 * k)) (hfit : v.toNat + n * 2 ^ (7 * k) < 2 ^ 32) :
    (v ||| ((b.toUInt32 &&& 0x7f) <<< UInt32.ofNat (7 * k))) = UInt32.ofNat (v.toNat + n * 2 ^ (7 * k)) := by
  have hlow : b.toNat % 128 = n := by rw [hb, Nat.mod_eq_of_lt hn]
  have hbyte := toNat_or_shiftLeft (b := b) hk hv (by rw [hlow]; exact hfit)
  rw [← UInt32.toNat_inj, hbyte, UInt32.toNat_ofNat', hlow, Nat.mod_eq_of_lt hfit]

/-- A byte with the high bit, of the LEB128 bytes of `n` read at bit `7k`: it is not the fifth, and what is left
to read is `n / 128` at bit `7(k+1)`, below the value so far. -/
theorem readByte_more {n k : Nat} {v : UInt32} {b : UInt8} (hb : b.toNat = n % 128 + 128) (hn : 128 ≤ n)
    (hk : k ≤ 4) (hv : v.toNat < 2 ^ (7 * k)) (hfit : v.toNat + n * 2 ^ (7 * k) < 2 ^ 32) :
    k ≤ 3 ∧ (v ||| ((b.toUInt32 &&& 0x7f) <<< UInt32.ofNat (7 * k))).toNat < 2 ^ (7 * (k + 1)) ∧
      (v ||| ((b.toUInt32 &&& 0x7f) <<< UInt32.ofNat (7 * k))).toNat + n / 128 * 2 ^ (7 * (k + 1)) =
        v.toNat + n * 2 ^ (7 * k) := by
  -- the bit `7k` as a number, and the bytes of `n` split into the first and the others
  have hsplit : n * 2 ^ (7 * k) = n % 128 * 2 ^ (7 * k) + n / 128 * 2 ^ (7 * (k + 1)) := by
    rw [Nat.mul_succ, Nat.pow_add]
    conv_lhs => rw [← Nat.mod_add_div n 128]
    ring
  have hk3 : k ≤ 3 := by
    by_contra h4
    have hle : 128 * 2 ^ 28 ≤ n * 2 ^ (7 * k) := by
      rw [show 7 * k = 28 by omega]
      exact Nat.mul_le_mul_right _ hn
    omega
  have hlow : b.toNat % 128 = n % 128 := by omega
  have hbyte := toNat_or_shiftLeft (b := b) hk hv (by rw [hlow]; omega)
  have hm : n % 128 * 2 ^ (7 * k) ≤ 127 * 2 ^ (7 * k) := Nat.mul_le_mul_right _ (by omega)
  refine ⟨hk3, ?_, ?_⟩
  · rw [hbyte, hlow, Nat.mul_succ, Nat.pow_add]
    omega
  · rw [hbyte, hlow, hsplit, Nat.add_assoc]

/-- The fuel a reader has left at bit `7k`, and the shift it makes there. -/
theorem shift_add_seven {k : Nat} (hk3 : k ≤ 3) :
    UInt32.ofNat (7 * k) + 7 = UInt32.ofNat (7 * (k + 1)) ∧ UInt32.ofNat (7 * (k + 1)) < 32 := by
  have h32 : 7 * (k + 1) < 32 := by omega
  constructor
  · rw [← UInt32.toNat_inj]
    simp only [UInt32.toNat_add, UInt32.toNat_ofNat', UInt32.reduceToNat]
    omega
  · simp only [UInt32.lt_iff_toNat_lt, UInt32.toNat_ofNat', UInt32.reduceToNat,
      Nat.mod_eq_of_lt (lt_trans h32 (by decide : 32 < 2 ^ 32))]
    exact h32

theorem high_bit_of_toNat {b : UInt8} {n : Nat} (hb : b.toNat = n % 128 + 128) : b &&& 0x80 ≠ 0 := by
  rw [ne_eq, and_high_bit_eq_zero_iff, hb]
  omega

theorem no_high_bit_of_toNat {b : UInt8} {n : Nat} (hb : b.toNat = n) (hn : n < 128) : ¬ (b &&& 0x80 ≠ 0) := by
  rw [not_not, and_high_bit_eq_zero_iff, hb]
  exact hn

/-- The LEB128 bytes of a list of bytes are a first byte and the bytes of the rest: with the high bit and the
bytes of `n / 128`, or the last byte. -/
theorem map_toNat_eq_bytes {n : Nat} {bs : List UInt8} (hbs : bs.map UInt8.toNat = Leb128.bytes n) :
    ∃ b bs', bs = b :: bs' ∧
      ((n < 128 ∧ b.toNat = n ∧ bs' = []) ∨
        (128 ≤ n ∧ b.toNat = n % 128 + 128 ∧ bs'.map UInt8.toNat = Leb128.bytes (n / 128))) := by
  cases bs with
  | nil =>
    have := Leb128.length_bytes_pos n
    rw [← hbs] at this
    simp at this
  | cons b bs' =>
    refine ⟨b, bs', rfl, ?_⟩
    by_cases hn : n < 128
    · rw [Leb128.bytes_of_lt hn, List.map_cons, List.cons.injEq, List.map_eq_nil_iff] at hbs
      exact Or.inl ⟨hn, hbs⟩
    · rw [Leb128.bytes_of_ge (by omega), List.map_cons, List.cons.injEq] at hbs
      exact Or.inr ⟨by omega, hbs⟩

/-- The reader of `unsigned_int`, at bit `7k`, takes the LEB128 bytes of `n` and adds `n` at that bit. -/
theorem unpackUnsignedIntLoop_bytes (n : Nat) : ∀ (k : Nat) (v : UInt32) (bs rest : List UInt8),
    bs.map UInt8.toNat = Leb128.bytes n → k ≤ 4 → v.toNat < 2 ^ (7 * k) → v.toNat + n * 2 ^ (7 * k) < 2 ^ 32 →
    unpackUnsignedIntLoop (5 - k) (UInt32.ofNat (7 * k)) v (bs ++ rest) =
      .ok (UInt32.ofNat (v.toNat + n * 2 ^ (7 * k)), rest) := by
  induction n using Nat.strong_induction_on with
  | _ n ih =>
    intro k v bs rest hbs hk hv hfit
    obtain ⟨b, bs', rfl, ⟨hn, hb, rfl⟩ | ⟨hn, hb, hbs'⟩⟩ := map_toNat_eq_bytes hbs
    · -- the last byte
      rw [show 5 - k = (4 - k) + 1 by omega, unpackUnsignedIntLoop]
      simp only [List.cons_append, List.nil_append, get, bind, Except.bind, no_high_bit_of_toNat hb hn,
        false_and, if_false, readByte_last hb hn hk hv hfit]
    · -- a byte with the high bit, then the bytes of `n / 128` at bit `7(k+1)`
      obtain ⟨hk3, hv', hval⟩ := readByte_more hb hn hk hv hfit
      obtain ⟨hshift, h32⟩ := shift_add_seven hk3
      have hrec := ih (n / 128) (by omega) (k + 1) _ bs' rest hbs' (by omega) hv' (by omega)
      rw [show 5 - k = (4 - k) + 1 by omega, unpackUnsignedIntLoop]
      simp only [List.cons_append, get, bind, Except.bind, hshift]
      rw [if_pos ⟨high_bit_of_toNat hb, h32⟩, show 4 - k = 5 - (k + 1) by omega, hrec, hval]

/-- An `unsigned_int` is read back from its bytes, and the reader stops where they end. -/
theorem unpackUnsignedInt_packUnsignedInt (x : UInt32) (rest : List UInt8) :
    unpackUnsignedInt (packUnsignedInt x ++ rest) = .ok (x, rest) := by
  have h := unpackUnsignedIntLoop_bytes x.toNat 0 0 (packUnsignedInt x) rest (packUnsignedInt_bytes x)
    (by decide) (by decide) (by simpa using x.toNat_lt)
  simpa [unpackUnsignedInt] using h

/-- Each round of the reader takes one byte, and its fuel bounds the rounds. -/
theorem unpackUnsignedIntLoop_consumes : ∀ (fuel : Nat) (shift v : UInt32) (s : List UInt8) {v' : UInt32}
    {rest : List UInt8}, unpackUnsignedIntLoop fuel shift v s = .ok (v', rest) →
      ∃ read, s = read ++ rest ∧ read.length ≤ fuel
  | 0, _, _, s, _, _, h => by
    simp only [unpackUnsignedIntLoop, Except.ok.injEq, Prod.mk.injEq] at h
    exact ⟨[], by simp [h.2], by simp⟩
  | fuel + 1, shift, v, [], _, _, h => by simp [unpackUnsignedIntLoop, get, bind, Except.bind] at h
  | fuel + 1, shift, v, b :: s, _, _, h => by
    simp only [unpackUnsignedIntLoop, get, bind, Except.bind] at h
    split at h
    · -- the high bit: the rest of the value is read from `s` with one byte less of fuel
      obtain ⟨read, hs, hlen⟩ := unpackUnsignedIntLoop_consumes fuel _ _ s h
      exact ⟨b :: read, by rw [hs, List.cons_append], by simp [hlen]⟩
    · simp only [Except.ok.injEq, Prod.mk.injEq] at h
      exact ⟨[b], by simp [h.2], by simp⟩

/-- The reader of `unsigned_int` takes at most five bytes of any stream. -/
theorem unpackUnsignedInt_consumes_le {s rest : List UInt8} {v : UInt32} (h : unpackUnsignedInt s = .ok (v, rest)) :
    ∃ read, s = read ++ rest ∧ read.length ≤ 5 :=
  unpackUnsignedIntLoop_consumes 5 0 0 s h

/-- The reader of `signed_int`, at bit `7k`, takes the LEB128 bytes of `n` and adds `n` at that bit. -/
theorem unpackSignedIntLoop_bytes (n : Nat) : ∀ (k : Nat) (v : UInt32) (bs rest : List UInt8),
    bs.map UInt8.toNat = Leb128.bytes n → k ≤ 4 → v.toNat < 2 ^ (7 * k) → v.toNat + n * 2 ^ (7 * k) < 2 ^ 32 →
    unpackSignedIntLoop (7 * k) v (bs ++ rest) = some (.ok (UInt32.ofNat (v.toNat + n * 2 ^ (7 * k)), rest)) := by
  induction n using Nat.strong_induction_on with
  | _ n ih =>
    intro k v bs rest hbs hk hv hfit
    -- the shift of a byte of a value that fits is at most `28`
    have hshift : ¬ 32 ≤ 7 * k := by omega
    obtain ⟨b, bs', rfl, ⟨hn, hb, rfl⟩ | ⟨hn, hb, hbs'⟩⟩ := map_toNat_eq_bytes hbs
    · -- the last byte
      simp only [List.cons_append, List.nil_append, unpackSignedIntLoop, hshift, if_false, Nat.toUInt32_eq,
        no_high_bit_of_toNat hb hn, readByte_last hb hn hk hv hfit]
    · -- a byte with the high bit, then the bytes of `n / 128` at bit `7(k+1)`
      obtain ⟨hk3, hv', hval⟩ := readByte_more hb hn hk hv hfit
      have hrec := ih (n / 128) (by omega) (k + 1) _ bs' rest hbs' (by omega) hv' (by omega)
      simp only [List.cons_append, unpackSignedIntLoop, hshift, if_false, Nat.toUInt32_eq]
      rw [if_pos (high_bit_of_toNat hb), show 7 * k + 7 = 7 * (k + 1) by omega, hrec, hval]

/-- A `signed_int` is read back from its bytes, and the reader stops where they end. -/
theorem unpackSignedInt_packSignedInt (x : Int32) (rest : List UInt8) :
    unpackSignedInt (packSignedInt x ++ rest) = some (.ok (x, rest)) := by
  have h := unpackSignedIntLoop_bytes (zigzag x).toNat 0 0 (packSignedInt x) rest (packUnsignedInt_bytes (zigzag x))
    (by decide) (by decide) (by simpa using (zigzag x).toNat_lt)
  simp only [Nat.mul_zero, UInt32.toNat_zero, Nat.pow_zero, Nat.mul_one, Nat.zero_add, UInt32.ofNat_toNat] at h
  simp only [unpackSignedInt, h, Option.map_some, bind, Except.bind, pure, Except.pure, unzigzag_zigzag]

/-- The loop of the `signed_int` reader passes over bytes `0x80` without changing the value, while each of their
shifts is below `32`. -/
theorem unpackSignedIntLoop_replicate (bs : List UInt8) : ∀ (n shift : Nat) (v : UInt32),
    (∀ i < n, shift + 7 * i < 32) →
      unpackSignedIntLoop shift v (List.replicate n 0x80 ++ bs) = unpackSignedIntLoop (shift + 7 * n) v bs
  | 0, shift, v, _ => rfl
  | n + 1, shift, v, hn => by
    have h0 : ((0x80 : UInt8).toUInt32 &&& 0x7f) = 0 := by decide
    have hshift : ¬ 32 ≤ shift := by have := hn 0 (by omega); omega
    have hrec := unpackSignedIntLoop_replicate bs n (shift + 7) v fun i hi => by have := hn (i + 1) (by omega); omega
    simp only [List.replicate_succ, List.cons_append, unpackSignedIntLoop, hshift, if_false, h0,
      UInt32.zero_shiftLeft, UInt32.or_zero]
    rw [if_pos (by decide), hrec, show shift + 7 + 7 * n = shift + 7 * (n + 1) by omega]

/-- The reader of `signed_int` has no bound on its length. After five bytes `0x80`, where the reader of
`unsigned_int` stops and returns `0`, it reads a sixth byte, whatever it is, and shifts it by `35`: undefined. -/
theorem unpackSignedInt_reads_past_five_bytes (b : UInt8) (rest : List UInt8) :
    unpackSignedInt (List.replicate 5 0x80 ++ b :: rest) = none ∧
      unpackUnsignedInt (List.replicate 5 0x80 ++ b :: rest) = .ok (0, b :: rest) := by
  constructor
  · have h := unpackSignedIntLoop_replicate (b :: rest) 5 0 0 (fun i hi => by omega)
    -- the sixth byte is shifted by `7 * 5`
    simp only [unpackSignedInt, h, unpackSignedIntLoop, show 32 ≤ 0 + 7 * 5 by decide, if_true, Option.map_none]
  · rfl

end Gstio.Fc
