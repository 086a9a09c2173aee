import Mathlib
import Gstio.Lib.ByteCodec

/-!
# fc: variants and raw serialization

What the ABI serializer takes from the fc library: the dynamic value `fc::variant` (`Variant`) with its
conversions `as_uint64`, `as_int64`, `as_string` and `get_array`, the reading end of `fc::datastream` (`read`,
`get`), the raw form of `fc::unsigned_int` (`packUnsignedInt`, `unpackUnsignedInt`), and the raw and variant forms
of `std::vector<T>` and `fc::optional<T>` over a codec of `T` (`Codec`), which `pack_unpack<T>` bundles into the
functions the serializer calls (`PackUnpack`, `packUnpack`).

* `unpackUnsignedInt_overlong`: the reader also takes `0x80 0x00`, an overlong encoding of zero.
-/

namespace Gstio.Fc

/-- `fc::variant`, without its `double` and `blob` kinds. An object keeps its entries in order, duplicates
included. -/
inductive Variant where
  | null
  | int64 (i : Int64)
  | uint64 (n : UInt64)
  | bool (b : Bool)
  | string (s : String)
  | array (vs : List Variant)
  | object (kvs : List (String × Variant))
  deriving Inhabited

/-- The exceptions of fc that these functions throw. -/
inductive FcException where
  | outOfRange (msg : String)
  | assert (msg : String)
  | badCast (msg : String)
  | parseError (msg : String)
  | exception (msg : String)
  deriving DecidableEq, Repr

namespace Variant

/-- `variant::is_null`. -/
def isNull : Variant → Bool
  | .null => true
  | _ => false

/-- The name of the kind, as `get_type()` prints it. -/
def typeName : Variant → String
  | .null => "null_type"
  | .int64 _ => "int64_type"
  | .uint64 _ => "uint64_type"
  | .bool _ => "bool_type"
  | .string _ => "string_type"
  | .array _ => "array_type"
  | .object _ => "object_type"

/-- `variant::get_array`. -/
def getArray : Variant → Except FcException (List Variant)
  | .array vs => .ok vs
  | v => .error (.badCast ("Invalid cast from " ++ v.typeName ++ " to Array"))

end Variant

/-- The value of a run of decimal digits. -/
def decimalValue (ds : List Char) : Nat := ds.foldl (fun n d => 10 * n + (d.toNat - '0'.toNat)) 0

/-- A string as `boost::lexical_cast` reads an integer: an optional sign, then at least one decimal digit and
nothing else; the sign and the magnitude. -/
def signedDecimal : List Char → Option (Bool × Nat)
  | '-' :: ds => if ds ≠ [] ∧ ds.all Char.isDigit then some (true, decimalValue ds) else none
  | '+' :: ds => if ds ≠ [] ∧ ds.all Char.isDigit then some (false, decimalValue ds) else none
  | ds => if ds ≠ [] ∧ ds.all Char.isDigit then some (false, decimalValue ds) else none

/-- `fc::to_uint64`: a negative value wraps modulo `2^64`, as `lexical_cast` does for an unsigned type. -/
def toUint64 (s : String) : Except FcException UInt64 :=
  match signedDecimal s.toList with
  | some (neg, n) =>
    if n < 2 ^ 64 then .ok (if neg then 0 - UInt64.ofNat n else UInt64.ofNat n)
    else .error (.parseError "Couldn't parse uint64_t")
  | none => .error (.parseError "Couldn't parse uint64_t")

/-- `fc::to_int64`. -/
def toInt64 (s : String) : Except FcException Int64 :=
  match signedDecimal s.toList with
  | some (true, n) => if n ≤ 2 ^ 63 then .ok (Int64.ofInt (-n)) else .error (.parseError "Couldn't parse int64_t")
  | some (false, n) => if n < 2 ^ 63 then .ok (Int64.ofNat n) else .error (.parseError "Couldn't parse int64_t")
  | none => .error (.parseError "Couldn't parse int64_t")

namespace Variant

/-- `variant::as_uint64`. -/
def asUint64 : Variant → Except FcException UInt64
  | .string s => toUint64 s
  | .int64 i => .ok i.toUInt64
  | .uint64 n => .ok n
  | .bool b => .ok (if b then 1 else 0)
  | .null => .ok 0
  | v => .error (.badCast ("Invalid cast from " ++ v.typeName ++ " to uint64"))

/-- `variant::as_int64`. -/
def asInt64 : Variant → Except FcException Int64
  | .string s => toInt64 s
  | .int64 i => .ok i
  | .uint64 n => .ok n.toInt64
  | .bool b => .ok (if b then 1 else 0)
  | .null => .ok 0
  | v => .error (.badCast ("Invalid cast from " ++ v.typeName ++ " to int64"))

/-- `variant::as_string`. -/
def asString : Variant → Except FcException String
  | .string s => .ok s
  | .int64 i => .ok (toString i.toInt)
  | .uint64 n => .ok (toString n.toNat)
  | .bool b => .ok (if b then "true" else "false")
  | .null => .ok ""
  | v => .error (.badCast ("Invalid cast from " ++ v.typeName ++ " to string"))

end Variant

/-- `fc::from_hex` of one character. -/
def fromHexDigit (c : Char) : Except FcException UInt8 :=
  if '0' ≤ c ∧ c ≤ '9' then .ok (c.toNat - '0'.toNat).toUInt8
  else if 'a' ≤ c ∧ c ≤ 'f' then .ok (c.toNat - 'a'.toNat + 10).toUInt8
  else if 'A' ≤ c ∧ c ≤ 'F' then .ok (c.toNat - 'A'.toNat + 10).toUInt8
  else .error (.exception ("Invalid hex character '" ++ c.toString ++ "'"))

/-- `fc::from_hex` into `n` bytes: two characters a byte, the last byte from one if the string ends. -/
def fromHex : Nat → List Char → Except FcException (List UInt8)
  | 0, _ => .ok []
  | _, [] => .ok []
  | _ + 1, [c] => do
    let hi ← fromHexDigit c
    pure [hi <<< 4]
  | n + 1, c :: d :: cs => do
    let hi ← fromHexDigit c
    let lo ← fromHexDigit d
    let rest ← fromHex n cs
    pure ((hi <<< 4 ||| lo) :: rest)

/-- `var.as<bytes>()`: the hex digits of `as_string`, into half as many bytes as the string has. -/
def Variant.asBytes (v : Variant) : Except FcException (List UInt8) := do
  let str ← v.asString
  fromHex (str.utf8ByteSize / 2) str.toList

/-! ## Streams -/

/-- `datastream<const char*>::read` of `n` bytes; the stream is the list of the bytes not yet read. -/
def read (n : Nat) (s : List UInt8) : Except FcException (List UInt8 × List UInt8) :=
  if n ≤ s.length then .ok (s.take n, s.drop n) else .error (.outOfRange "read datastream")

/-- `datastream<const char*>::get`. -/
def get : List UInt8 → Except FcException (UInt8 × List UInt8)
  | [] => .error (.outOfRange "get datastream")
  | b :: s => .ok (b, s)

/-! ## `unsigned_int` -/

/-- The loop of `fc::raw::unpack(s, unsigned_int&)`: or in the low seven bits of each byte at `by`, while the high
bit is set and `by < 32` (here `shift`). The fuel is the five bytes that condition allows. -/
def unpackUnsignedIntLoop : Nat → UInt32 → UInt32 → List UInt8 → Except FcException (UInt32 × List UInt8)
  | 0, _, v, s => .ok (v, s)
  | fuel + 1, shift, v, s => do
    let (b, s) ← get s
    let v := v ||| ((b.toUInt32 &&& 0x7f) <<< shift)
    if b &&& 0x80 ≠ 0 ∧ shift + 7 < 32 then unpackUnsignedIntLoop fuel (shift + 7) v s else .ok (v, s)

/-- `fc::raw::unpack(s, unsigned_int&)`. -/
def unpackUnsignedInt (s : List UInt8) : Except FcException (UInt32 × List UInt8) :=
  unpackUnsignedIntLoop 5 0 0 s

/-- The loop of `fc::raw::pack(s, const unsigned_int&)`: seven bits a byte, the high bit set when more follow. -/
def packUnsignedIntLoop : Nat → UInt64 → List UInt8
  | 0, _ => []
  | fuel + 1, val =>
    let b := val.toUInt8 &&& 0x7f
    let val := val >>> 7
    let b := b ||| (if val > 0 then 0x80 else 0)
    b :: if val ≠ 0 then packUnsignedIntLoop fuel val else []

/-- `fc::raw::pack(s, const unsigned_int&)`; five bytes hold the 32 bits. -/
def packUnsignedInt (v : UInt32) : List UInt8 := packUnsignedIntLoop 5 v.toUInt64

/-- The reader takes `0x80 0x00`, an overlong encoding of zero, and so does not check that an encoding is the
shortest. -/
theorem unpackUnsignedInt_overlong (rest : List UInt8) : unpackUnsignedInt (0x80 :: 0x00 :: rest) = .ok (0, rest) :=
  rfl

/-! ## Codecs -/

/-- `MAX_NUM_ARRAY_ELEMENTS`. -/
def maxNumArrayElements : Nat := 1024 * 1024

/-- The raw form and the variant form of a type `T`, as `fc::raw::pack`, `fc::raw::unpack`, `to_variant` and
`from_variant` give them. -/
structure Codec (T : Type) where
  pack : T → List UInt8
  unpack : List UInt8 → Except FcException (T × List UInt8)
  toVariant : T → Variant
  fromVariant : Variant → Except FcException T

namespace Codec

variable {T : Type} (c : Codec T)

/-- The loop of `fc::raw::unpack(s, std::vector<T>&)`. -/
def unpackElements : Nat → List UInt8 → Except FcException (List T × List UInt8)
  | 0, s => .ok ([], s)
  | n + 1, s => do
    let (x, s) ← c.unpack s
    let (xs, s) ← unpackElements n s
    pure (x :: xs, s)

/-- `fc::raw::unpack(s, std::vector<T>&)`. -/
def unpackVector (s : List UInt8) : Except FcException (List T × List UInt8) := do
  let (size, s) ← unpackUnsignedInt s
  if size.toNat ≤ maxNumArrayElements then c.unpackElements size.toNat s
  else .error (.assert "size.value <= MAX_NUM_ARRAY_ELEMENTS")

/-- `fc::raw::pack(s, const std::vector<T>&)`. -/
def packVector (xs : List T) : Except FcException (List UInt8) :=
  if xs.length ≤ maxNumArrayElements then .ok (packUnsignedInt xs.length.toUInt32 ++ (xs.map c.pack).flatten)
  else .error (.assert "value.size() <= MAX_NUM_ARRAY_ELEMENTS")

/-- `from_variant(const variant&, std::vector<T>&)`. -/
def fromVariantVector (v : Variant) : Except FcException (List T) := do
  let vs ← v.getArray
  vs.mapM c.fromVariant

/-- `fc::raw::unpack(s, bool&)`. -/
def unpackBool (s : List UInt8) : Except FcException (Bool × List UInt8) := do
  let (b, s) ← get s
  if b &&& ~~~1 = 0 then pure (b ≠ 0, s) else .error (.assert "(b & ~1) == 0")

/-- `fc::raw::unpack(s, fc::optional<T>&)`. -/
def unpackOptional (s : List UInt8) : Except FcException (Option T × List UInt8) := do
  let (b, s) ← unpackBool s
  if b then
    let (x, s) ← c.unpack s
    pure (some x, s)
  else pure (none, s)

/-- `fc::raw::pack(s, const fc::optional<T>&)`. -/
def packOptional : Option T → List UInt8
  | none => [0]
  | some x => 1 :: c.pack x

/-- `from_variant(const variant&, fc::optional<T>&)`. -/
def fromVariantOptional (v : Variant) : Except FcException (Option T) :=
  if v.isNull then .ok none else some <$> c.fromVariant v

/-- `to_variant(const fc::optional<T>&, variant&)`. -/
def toVariantOptional : Option T → Variant
  | none => .null
  | some x => c.toVariant x

end Codec

/-- The pair of functions that the serializer keeps for a built-in type: read a value, or its vector, or its
optional, as a variant; and write one. -/
structure PackUnpack where
  unpack : List UInt8 → (isArray isOptional : Bool) → Except FcException (Variant × List UInt8)
  pack : Variant → (isArray isOptional : Bool) → Except FcException (List UInt8)

/-- `pack_unpack<T>()`. -/
def packUnpack {T : Type} (c : Codec T) : PackUnpack where
  unpack s isArray isOptional :=
    if isArray then (c.unpackVector s).map fun r => (.array (r.1.map c.toVariant), r.2)
    else if isOptional then (c.unpackOptional s).map fun r => (c.toVariantOptional r.1, r.2)
    else (c.unpack s).map fun r => (c.toVariant r.1, r.2)
  pack v isArray isOptional :=
    if isArray then do
      let xs ← c.fromVariantVector v
      c.packVector xs
    else if isOptional then do
      let x ← c.fromVariantOptional v
      pure (c.packOptional x)
    else do
      let x ← c.fromVariant v
      pure (c.pack x)

/-! ## The integer codecs -/

/-- The `width` bytes of `n`, least significant first. -/
def leBytes (width n : Nat) : List UInt8 := (List.range width).map fun i => (n / 256 ^ i).toUInt8

/-- The value of little-endian bytes. -/
def leValue (bs : List UInt8) : Nat := bs.foldr (fun b n => b.toNat + 256 * n) 0

theorem leBytes_succ (width n : Nat) : leBytes (width + 1) n = n.toUInt8 :: leBytes width (n / 256) := by
  rw [leBytes, List.range_succ_eq_map, List.map_cons, List.map_map, leBytes]
  congr 1
  · simp
  · apply List.map_congr_left
    intro i _
    simp [Nat.pow_succ', Nat.div_div_eq_div_mul]

@[simp] theorem length_leBytes (width n : Nat) : (leBytes width n).length = width := by
  simp [leBytes]

/-- The bytes denote the number, modulo `256^width`. -/
theorem leValue_leBytes (width n : Nat) : leValue (leBytes width n) = n % 256 ^ width := by
  induction width generalizing n with
  | zero => simp [leBytes, leValue, Nat.mod_one]
  | succ width ih =>
    -- the first byte is the low digit in base `256`, the rest the bytes of the quotient
    rw [leBytes_succ, leValue, List.foldr_cons, ← leValue, ih, Nat.toUInt8, UInt8.toNat_ofNat',
      show 256 ^ (width + 1) = 256 * 256 ^ width from Nat.pow_succ', Nat.mod_mul]

/-- A fixed-width integer: its bytes little endian, its variant through the given conversions. -/
def fixedCodec {T : Type} (width : Nat) (toNat : T → Nat) (ofNat : Nat → T) (toVariant : T → Variant)
    (fromVariant : Variant → Except FcException T) : Codec T where
  pack x := leBytes width (toNat x)
  unpack s := (read width s).map fun r => (ofNat (leValue r.1), r.2)
  toVariant := toVariant
  fromVariant := fromVariant

/-- A fixed-width integer reads back as itself when the conversions are inverse below `256 ^ width`. -/
theorem fixedCodec_unpack_pack {T : Type} {width : Nat} {toNat : T → Nat} {ofNat : Nat → T}
    {toVariant : T → Variant} {fromVariant : Variant → Except FcException T}
    (hof : ∀ x, ofNat (toNat x % 256 ^ width) = x) (x : T) (rest : List UInt8) :
    (fixedCodec width toNat ofNat toVariant fromVariant).unpack
      ((fixedCodec width toNat ofNat toVariant fromVariant).pack x ++ rest) = .ok (x, rest) := by
  have hlen : (leBytes width (toNat x)).length = width := length_leBytes width (toNat x)
  simp only [fixedCodec, read, List.length_append, hlen, Nat.le_add_right, if_true, List.take_left' hlen,
    List.drop_left' hlen, Except.map, leValue_leBytes, hof]

/-- The value of little-endian bytes is below `256` to their number. -/
theorem leValue_lt : ∀ bs : List UInt8, leValue bs < 256 ^ bs.length
  | [] => by simp [leValue]
  | b :: bs => by
    have ih := leValue_lt bs
    have hb := b.toNat_lt
    rw [leValue, List.foldr_cons, ← leValue, List.length_cons, Nat.pow_succ']
    omega

/-- Bytes are the little-endian bytes of their value. -/
theorem leBytes_leValue : ∀ bs : List UInt8, leBytes bs.length (leValue bs) = bs
  | [] => rfl
  | b :: bs => by
    have hb := b.toNat_lt
    rw [List.length_cons, leBytes_succ, leValue, List.foldr_cons, ← leValue]
    -- the low digit in base `256` is `b`, the quotient the value of the rest
    have hdiv : (b.toNat + 256 * leValue bs) / 256 = leValue bs := by omega
    rw [hdiv, leBytes_leValue bs]
    congr 1
    apply UInt8.toNat_inj.mp
    rw [Nat.toUInt8, UInt8.toNat_ofNat']
    omega

/-- **A fixed-width integer codec is canonical** when the conversions are inverse below `256 ^ width`: its reader
takes the `width` bytes of a value and nothing else. -/
theorem fixedCodec_canonical {T : Type} {width : Nat} {toNat : T → Nat} {ofNat : Nat → T}
    {toVariant : T → Variant} {fromVariant : Variant → Except FcException T}
    (hof : ∀ x, ofNat (toNat x % 256 ^ width) = x) (hto : ∀ n < 256 ^ width, toNat (ofNat n) = n) :
    ByteCodec.Canonical (fixedCodec width toNat ofNat toVariant fromVariant).pack
      (fixedCodec width toNat ofNat toVariant fromVariant).unpack := by
  intro s x rest
  constructor
  · intro h
    simp only [fixedCodec, read] at h
    by_cases hw : width ≤ s.length
    · rw [if_pos hw] at h
      simp only [Except.map, Except.ok.injEq, Prod.mk.injEq] at h
      obtain ⟨rfl, rfl⟩ := h
      have hlen : (s.take width).length = width := List.length_take_of_le hw
      have hbytes := leBytes_leValue (s.take width)
      have hval := leValue_lt (s.take width)
      rw [hlen] at hbytes hval
      show s = leBytes width (toNat (ofNat (leValue (s.take width)))) ++ s.drop width
      rw [hto _ hval, hbytes, List.take_append_drop]
    · rw [if_neg hw] at h
      cases h
  · rintro rfl
    exact fixedCodec_unpack_pack hof x rest

def uint8Codec : Codec UInt8 :=
  fixedCodec 1 UInt8.toNat UInt8.ofNat (fun x => .uint64 x.toUInt64) fun v => UInt64.toUInt8 <$> v.asUint64

theorem uint8Codec_unpack_pack (x : UInt8) (rest : List UInt8) :
    uint8Codec.unpack (uint8Codec.pack x ++ rest) = .ok (x, rest) :=
  fixedCodec_unpack_pack (fun x => by simp) x rest

def uint16Codec : Codec UInt16 :=
  fixedCodec 2 UInt16.toNat UInt16.ofNat (fun x => .uint64 x.toUInt64) fun v => UInt64.toUInt16 <$> v.asUint64

def uint32Codec : Codec UInt32 :=
  fixedCodec 4 UInt32.toNat UInt32.ofNat (fun x => .uint64 x.toUInt64) fun v => UInt64.toUInt32 <$> v.asUint64

def uint64Codec : Codec UInt64 :=
  fixedCodec 8 UInt64.toNat UInt64.ofNat .uint64 Variant.asUint64

theorem uint16Codec_canonical : ByteCodec.Canonical uint16Codec.pack uint16Codec.unpack :=
  fixedCodec_canonical (fun x => by simp) fun _ hn => UInt16.toNat_ofNat_of_lt' (by omega)

theorem uint32Codec_canonical : ByteCodec.Canonical uint32Codec.pack uint32Codec.unpack :=
  fixedCodec_canonical (fun x => by simp) fun _ hn => UInt32.toNat_ofNat_of_lt' (by omega)

theorem uint64Codec_canonical : ByteCodec.Canonical uint64Codec.pack uint64Codec.unpack :=
  fixedCodec_canonical (fun x => by simp) fun _ hn => UInt64.toNat_ofNat_of_lt' (by omega)

def int8Codec : Codec Int8 :=
  fixedCodec 1 (fun x => x.toUInt8.toNat) (fun n => (UInt8.ofNat n).toInt8) (fun x => .int64 x.toInt64)
    fun v => Int64.toInt8 <$> v.asInt64

def int16Codec : Codec Int16 :=
  fixedCodec 2 (fun x => x.toUInt16.toNat) (fun n => (UInt16.ofNat n).toInt16) (fun x => .int64 x.toInt64)
    fun v => Int64.toInt16 <$> v.asInt64

def int32Codec : Codec Int32 :=
  fixedCodec 4 (fun x => x.toUInt32.toNat) (fun n => (UInt32.ofNat n).toInt32) (fun x => .int64 x.toInt64)
    fun v => Int64.toInt32 <$> v.asInt64

def int64Codec : Codec Int64 :=
  fixedCodec 8 (fun x => x.toUInt64.toNat) (fun n => (UInt64.ofNat n).toInt64) .int64 Variant.asInt64

/-- `fc::unsigned_int`, whose variant is its value. -/
def unsignedIntCodec : Codec UInt32 where
  pack := packUnsignedInt
  unpack := unpackUnsignedInt
  toVariant x := .uint64 x.toUInt64
  fromVariant v := UInt64.toUInt32 <$> v.asUint64

end Gstio.Fc
