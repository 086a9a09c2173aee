import Gstio.Chain.AbiSerializer

/-!
# Where the two interpreters of the ABI serializer disagree

`binary_to_variant` and `variant_to_binary` dispatch on a resolved type in the same order (built-in, array, then
optional on the reading side only, variant, struct), but not with the same cases and checks:

* the reader has a case for an optional of a non-built-in type and the writer has none, so a value of `S?` for a
  struct `S` reads from `[0]` and no variant at all writes as `S?` (`optional_struct_round_trip_fails`);
* the reader refuses a struct that yields no field, which the writer writes as no bytes
  (`empty_struct_round_trip_fails`);
* the reader takes the size of an array in fc's overlong form `0x80 0x00`, which the writer writes as `0x00`
  (`overlong_array_round_trip_fails`).
-/

namespace Gstio.Chain

open Gstio.Fc

/-! ## Type names -/

@[simp] theorem isArray_append_optional (t : String) : isArray (t ++ "?") = false := by
  simp [isArray, endsWith, List.isSuffixOf, List.isPrefixOf, String.toList_append]

@[simp] theorem isOptional_append_optional (t : String) : isOptional (t ++ "?") = true := by
  simp [isOptional, endsWith, List.isSuffixOf, String.toList_append]

@[simp] theorem fundamentalType_append_optional (t : String) : fundamentalType (t ++ "?") = t := by
  simp [fundamentalType, String.toList_append]

theorem fundamentalType_of_not_suffixed {t : String} (ha : isArray t = false) (ho : isOptional t = false) :
    fundamentalType t = t := by
  simp [fundamentalType, ha, ho]

/-- An ABI with one struct, `point`, of two `int32` fields. -/
def pointAbi : AbiDef :=
  ⟨"gstio::abi/1.1", [], [⟨"point", "", [⟨"x", "int32"⟩, ⟨"y", "int32"⟩]⟩], [], [], [], []⟩

/-- The serializer `set_abi` makes of `pointAbi`. -/
def pointSerializer : AbiSerializer :=
  ⟨.empty, OrdMap.empty.set "point" ⟨"point", "", [⟨"x", "int32"⟩, ⟨"y", "int32"⟩]⟩, .empty, .empty, .empty, .empty,
    configureBuiltInTypes⟩

namespace AbiSerializer

variable (s : AbiSerializer) {room : Nat}

/-! ## The cases of the interpreters -/

theorem resolveType_of_find?_eq_none {t : String} (h : s.typedefs.find? t = none) : s.resolveType t = t := by
  simp [resolveType, h]

/-- A name that is neither built in nor a typedef is a type when it is a struct or a variant. -/
theorem isTypeAt_of_not_typedef {t : String} (hb : s.builtInTypes.find? (fundamentalType t) = none)
    (ht : s.typedefs.find? (fundamentalType t) = none) :
    s.isTypeAt (room + 1) t = .ok (s.structs.contains (fundamentalType t) || s.variants.contains (fundamentalType t)) := by
  simp [isTypeAt, OrdMap.contains, hb, ht]

/-- The reader on an optional of a type that is not built in: a presence byte, then the value if it is not zero. -/
theorem binaryToVariantAt_optional {type : String} {stream : List UInt8}
    (hb : s.builtInTypes.find? (fundamentalType (s.resolveType type)) = none)
    (ha : isArray (s.resolveType type) = false) (ho : isOptional (s.resolveType type) = true) :
    s.binaryToVariantAt (room + 1) type stream =
      match get stream with
      | .error _ => .error (.unpack "Unable to unpack presence flag of optional")
      | .ok (flag, stream) =>
        if flag ≠ 0 then s.binaryToVariantAt room (fundamentalType (s.resolveType type)) stream
        else .ok (.null, stream) := by
  rw [binaryToVariantAt]
  simp only [hb, ha, ho]
  rfl

/-- The reader on an array of a type that is not built in: the size, then that many values. -/
theorem binaryToVariantAt_array {type : String} {stream : List UInt8}
    (hb : s.builtInTypes.find? (fundamentalType (s.resolveType type)) = none)
    (ha : isArray (s.resolveType type) = true) :
    s.binaryToVariantAt (room + 1) type stream =
      match unpackUnsignedInt stream with
      | .error _ => .error (.unpack "Unable to unpack size of array")
      | .ok (size, stream) =>
        (binaryToArray (s.binaryToVariantAt room (fundamentalType (s.resolveType type))) size.toNat stream).map
          fun r => (.array r.1, r.2) := by
  rw [binaryToVariantAt]
  simp only [hb, ha]
  rfl

/-- The reader on a name that is neither built in, an array, an optional nor a variant: the fields of a struct, of
which there must be one. -/
theorem binaryToVariantAt_struct {type : String} {stream : List UInt8}
    (hb : s.builtInTypes.find? (fundamentalType (s.resolveType type)) = none)
    (ha : isArray (s.resolveType type) = false) (ho : isOptional (s.resolveType type) = false)
    (hv : s.variants.find? (s.resolveType type) = none) :
    s.binaryToVariantAt (room + 1) type stream =
      (do
        let (obj, stream) ← s.binaryToStructAt room (s.resolveType type) stream []
        if obj.isEmpty then throw (.unpack "Unable to unpack")
        pure (.object obj, stream)) := by
  rw [binaryToVariantAt]
  simp only [hb, ha, ho, hv]
  rfl

/-- The writer on a name that is neither built in, an array, a variant nor a struct: it has no case for it, an
optional included. -/
theorem variantToBinaryAt_unknown {allow : Bool} {type : String} {var : Variant} {ds : List UInt8}
    (hb : s.builtInTypes.find? (fundamentalType (s.resolveType type)) = none)
    (ha : isArray (s.resolveType type) = false) (hv : s.variants.find? (s.resolveType type) = none)
    (hs : s.structs.find? (s.resolveType type) = none) :
    s.variantToBinaryAt (room + 1) allow type var ds = .error (.invalidTypeInsideAbi ("Unknown type " ++ type)) := by
  rw [variantToBinaryAt]
  simp only [hb, ha, hv, hs]
  rfl

/-! ## Optionals of structs -/

section OptionalStruct

variable {S : String} (hbuiltin : s.builtInTypes.find? S = none) (htypedef : s.typedefs.find? S = none)
  (hstruct : s.structs.contains S = true) (hoptTypedef : s.typedefs.find? (S ++ "?") = none)

include hbuiltin htypedef hstruct in
theorem isTypeAt_optional_struct : s.isTypeAt (room + 1) (S ++ "?") = .ok true := by
  rw [isTypeAt_of_not_typedef s (by simpa using hbuiltin) (by simpa using htypedef)]
  simp [hstruct]

include hbuiltin hoptTypedef in
/-- `[0]` reads as an absent `S?`, for any `S` that is not built in. -/
theorem binaryToVariantAt_optional_absent (rest : List UInt8) :
    s.binaryToVariantAt (room + 1) (S ++ "?") (0 :: rest) = .ok (.null, rest) := by
  have hres := s.resolveType_of_find?_eq_none hoptTypedef
  rw [binaryToVariantAt_optional s (by simpa [hres] using hbuiltin) (by simp [hres]) (by simp [hres])]
  rfl

include hbuiltin hoptTypedef in
/-- Nothing writes as `S?` unless `S?` names a variant or a struct of its own. -/
theorem variantToBinaryAt_optional {allow : Bool} (var : Variant) (ds : List UInt8)
    (hvar : s.variants.find? (S ++ "?") = none) (hst : s.structs.find? (S ++ "?") = none) :
    s.variantToBinaryAt (room + 1) allow (S ++ "?") var ds =
      .error (.invalidTypeInsideAbi ("Unknown type " ++ (S ++ "?"))) := by
  have hres := s.resolveType_of_find?_eq_none hoptTypedef
  exact s.variantToBinaryAt_unknown (by simpa [hres] using hbuiltin) (by simp [hres]) (by rw [hres]; exact hvar)
    (by rw [hres]; exact hst)

end OptionalStruct

theorem optional_struct_round_trip_fails (s : AbiSerializer) (S : String) (hbuiltin : s.builtInTypes.find? S = none)
    (htypedef : s.typedefs.find? S = none) (hstruct : s.structs.contains S = true)
    (hoptTypedef : s.typedefs.find? (S ++ "?") = none) (hvar : s.variants.find? (S ++ "?") = none)
    (hst : s.structs.find? (S ++ "?") = none) :
    s.isType (S ++ "?") = .ok true ∧ s.binaryToVariantStream (S ++ "?") [0] = .ok (.null, []) ∧
      ∀ var, s.variantToBinary (S ++ "?") var = .error (.invalidTypeInsideAbi ("Unknown type " ++ (S ++ "?"))) := by
  refine ⟨s.isTypeAt_optional_struct hbuiltin htypedef hstruct,
    s.binaryToVariantAt_optional_absent hbuiltin hoptTypedef [], fun var => ?_⟩
  -- the writer first checks that `S?` is a type, which it is, and then has no case for it
  have hroom : maxRecursionDepth - 2 = 29 + 1 := rfl
  rw [variantToBinary, hroom, s.isTypeAt_optional_struct hbuiltin htypedef hstruct]
  exact s.variantToBinaryAt_optional hbuiltin hoptTypedef var [] hvar hst

theorem optional_struct_round_trip_fails_point :
    setAbi configureBuiltInTypes pointAbi = .ok pointSerializer ∧ pointSerializer.isType ("point" ++ "?") = .ok true ∧
      pointSerializer.binaryToVariantStream ("point" ++ "?") [0] = .ok (.null, []) ∧
      ∀ var, pointSerializer.variantToBinary ("point" ++ "?") var =
        .error (.invalidTypeInsideAbi ("Unknown type " ++ ("point" ++ "?"))) :=
  ⟨rfl, optional_struct_round_trip_fails pointSerializer "point" (by decide) (by decide) (by decide) (by decide)
    (by decide) (by decide)⟩

/-! ## Structs without fields -/

section EmptyStruct

variable {S : String} {st : StructDef} (hbuiltin : s.builtInTypes.find? S = none) (htypedef : s.typedefs.find? S = none)
  (ha : isArray S = false) (ho : isOptional S = false) (hvar : s.variants.find? S = none)
  (hst : s.structs.find? S = some st) (hbase : st.base = "") (hfields : st.fields = [])

include hbuiltin htypedef ha ho hvar hst hbase hfields in
/-- A struct with no base and no fields reads as no fields from any stream, which the reader refuses. -/
theorem binaryToVariantAt_empty_struct (stream : List UInt8) :
    s.binaryToVariantAt (room + 2) S stream = .error (.unpack "Unable to unpack") := by
  have hres := s.resolveType_of_find?_eq_none htypedef
  have hf := fundamentalType_of_not_suffixed ha ho
  rw [binaryToVariantAt_struct s (by rw [hres, hf]; exact hbuiltin) (by rw [hres]; exact ha) (by rw [hres]; exact ho)
    (by rw [hres]; exact hvar), hres]
  simp [binaryToStructAt, hst, hbase, hfields, binaryToFields]
  rfl

include hbuiltin htypedef ha ho hvar hst hbase hfields in
/-- The writer writes every object as no bytes for such a struct. -/
theorem variantToBinaryAt_empty_struct {allow : Bool} (vo : List (String × Variant)) (ds : List UInt8) :
    s.variantToBinaryAt (room + 1) allow S (.object vo) ds = .ok ds := by
  have hres := s.resolveType_of_find?_eq_none htypedef
  have hf := fundamentalType_of_not_suffixed ha ho
  rw [variantToBinaryAt]
  simp only [hres, hf, hbuiltin, ha, hvar, hst, hbase]
  simp [hfields, variantToFields, pure, Except.pure, bind, Except.bind]

include hbuiltin htypedef ha ho hst in
theorem isTypeAt_struct : s.isTypeAt (room + 1) S = .ok true := by
  have hf := fundamentalType_of_not_suffixed ha ho
  rw [isTypeAt_of_not_typedef s (by rw [hf]; exact hbuiltin) (by rw [hf]; exact htypedef), hf]
  simp [OrdMap.contains, hst]

end EmptyStruct

theorem empty_struct_round_trip_fails (s : AbiSerializer) (S : String) (st : StructDef)
    (hbuiltin : s.builtInTypes.find? S = none) (htypedef : s.typedefs.find? S = none) (ha : isArray S = false)
    (ho : isOptional S = false) (hvar : s.variants.find? S = none) (hst : s.structs.find? S = some st)
    (hbase : st.base = "") (hfields : st.fields = []) :
    s.isType S = .ok true ∧ (∀ vo, s.variantToBinary S (.object vo) = .ok []) ∧
      ∀ binary, s.binaryToVariant S binary = .error (.unpack "Unable to unpack") := by
  have hroom : maxRecursionDepth - 2 = 29 + 1 := rfl
  refine ⟨s.isTypeAt_struct hbuiltin htypedef ha ho hst, fun vo => ?_, fun binary => ?_⟩
  · rw [variantToBinary, hroom, s.isTypeAt_struct hbuiltin htypedef ha ho hst]
    exact s.variantToBinaryAt_empty_struct hbuiltin htypedef ha ho hvar hst hbase hfields vo []
  · have hroom' : maxRecursionDepth - 2 = 28 + 2 := rfl
    rw [binaryToVariant, binaryToVariantStream, hroom',
      s.binaryToVariantAt_empty_struct hbuiltin htypedef ha ho hvar hst hbase hfields]
    rfl

/-! ## Overlong array sizes -/

/-- An array of a type that is not built in reads as empty from the overlong size `0x80 0x00`, and the empty array
writes as `0x00`. -/
theorem overlong_array_round_trip_fails (s : AbiSerializer) (T : String)
    (hb : s.builtInTypes.find? (fundamentalType (s.resolveType T)) = none) (ha : isArray (s.resolveType T) = true)
    (room : Nat) (allow : Bool) (rest ds : List UInt8) :
    s.binaryToVariantAt (room + 1) T (0x80 :: 0x00 :: rest) = .ok (.array [], rest) ∧
      s.variantToBinaryAt (room + 1) allow T (.array []) ds = write ds [0] := by
  refine ⟨?_, ?_⟩
  · rw [binaryToVariantAt_array s hb ha, unpackUnsignedInt_overlong]
    rfl
  · rw [variantToBinaryAt]
    simp only [hb, ha, ite_true, Variant.getArray, Except.mapError]
    show (write ds [0] >>= fun ds => variantToArray _ [] ds) = write ds [0]
    cases write ds [0] <;> rfl

end AbiSerializer

end Gstio.Chain
