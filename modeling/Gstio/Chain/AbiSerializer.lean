import Gstio.Fc.Raw
import Gstio.Lib.OrdMap
import Gstio.Chain.Name

/-!
# The ABI serializer (`abi_serializer`)

`set_abi` loads an `abi_def` into maps and validates it; `binary_to_variant` and `variant_to_binary` are two
recursive interpreters over the type names of those maps: built-in types (read and written by `pack_unpack<T>`),
typedefs (`resolve_type`), arrays `T[]`, optionals `T?`, variants and structs with a base and binary-extension
fields `T$`.

Every recursive call enters a scope of the traversal context, which throws once 32 scopes are open; the interpreters
take the number of scopes still allowed (`room`) and recurse on it. The writer works in a buffer of 1 MiB and carries
the flag `allow_extensions` of its context; the reader carries the bytes not yet read.

The error messages keep their text and the name of the field or type they report, without the path of the context.
-/

namespace Gstio.Chain

open Gstio.Fc

/-! ## `abi_def` -/

/-- `field_def`. -/
structure FieldDef where
  name : String
  type : String

/-- `struct_def`. -/
structure StructDef where
  name : String
  base : String
  fields : List FieldDef

/-- `type_def`. -/
structure TypeDef where
  newTypeName : String
  type : String

/-- `variant_def`. -/
structure VariantDef where
  name : String
  types : List String

/-- `action_def`, with the fields `set_abi` reads. -/
structure ActionDef where
  name : Name
  type : String

/-- `table_def`, with the fields `set_abi` reads. -/
structure TableDef where
  name : Name
  type : String

/-- `error_message`. -/
structure ErrorMessage where
  errorCode : UInt64
  errorMsg : String

/-- `abi_def`, with the parts `set_abi` reads. -/
structure AbiDef where
  version : String
  types : List TypeDef
  structs : List StructDef
  actions : List ActionDef
  tables : List TableDef
  errorMessages : List ErrorMessage
  variants : List VariantDef

/-- The exceptions the serializer throws, by class. -/
inductive AbiException where
  | unsupportedAbiVersion (msg : String)
  | invalidTypeInsideAbi (msg : String)
  | duplicateAbiTypeDef (msg : String)
  | duplicateAbiStructDef (msg : String)
  | duplicateAbiActionDef (msg : String)
  | duplicateAbiTableDef (msg : String)
  | duplicateAbiErrMsgDef (msg : String)
  | duplicateAbiVariantDef (msg : String)
  | abiCircularDef (msg : String)
  | abiRecursionDepth (msg : String)
  | unpack (msg : String)
  | pack (msg : String)
  | abi (msg : String)
  | fc (e : FcException)
  deriving DecidableEq, Repr

/-! ## Type names -/

/-- `boost::algorithm::ends_with`. -/
def endsWith (type suffix : String) : Bool := suffix.toList.isSuffixOf type.toList

/-- `abi_serializer::is_array`. -/
def isArray (type : String) : Bool := endsWith type "[]"

/-- `abi_serializer::is_optional`. -/
def isOptional (type : String) : Bool := endsWith type "?"

/-- `abi_serializer::fundamental_type`: the element type of an array or an optional. -/
def fundamentalType (type : String) : String :=
  if isArray type then String.ofList (type.toList.take (type.toList.length - 2))
  else if isOptional type then String.ofList (type.toList.take (type.toList.length - 1))
  else type

/-- `abi_serializer::_remove_bin_extension`. -/
def removeBinExtension (type : String) : String :=
  if endsWith type "$" then String.ofList (type.toList.take (type.toList.length - 1)) else type

/-- `abi_serializer::max_recursion_depth`. -/
def maxRecursionDepth : Nat := 32

/-- What `enter_scope` throws past `max_recursion_depth`. -/
def recursionDepthError : AbiException :=
  .abiRecursionDepth ("recursive definition, max_recursion_depth " ++ toString maxRecursionDepth ++ " ")

/-- The size of the buffer `variant_to_binary` writes into. -/
def bufferSize : Nat := 1024 * 1024

/-- `datastream<char*>::write` into the buffer, which holds `ds`. -/
def write (ds bs : List UInt8) : Except AbiException (List UInt8) :=
  if ds.length + bs.length ≤ bufferSize then .ok (ds ++ bs) else .error (.fc (.outOfRange "write datastream"))

/-! ## The serializer -/

/-- The maps of an `abi_serializer`. -/
structure AbiSerializer where
  typedefs : OrdMap String String
  structs : OrdMap String StructDef
  actions : OrdMap Name String
  tables : OrdMap Name String
  errorMessages : OrdMap Nat String
  variants : OrdMap String VariantDef
  builtInTypes : OrdMap String PackUnpack

/-- `configure_built_in_types`, for the integer types. -/
def configureBuiltInTypes : OrdMap String PackUnpack :=
  [("bool", packUnpack uint8Codec), ("int8", packUnpack int8Codec), ("uint8", packUnpack uint8Codec),
    ("int16", packUnpack int16Codec), ("uint16", packUnpack uint16Codec), ("int32", packUnpack int32Codec),
    ("uint32", packUnpack uint32Codec), ("int64", packUnpack int64Codec), ("uint64", packUnpack uint64Codec),
    ("varuint32", packUnpack unsignedIntCodec)].foldl (fun m e => m.insert e.1 e.2) .empty

namespace AbiSerializer

/-- The loop of `resolve_type`, at most `i` more lookups from `t`. -/
def resolveLoop (typedefs : OrdMap String String) : Nat → String → Option String
  | 0, _ => none
  | i + 1, t =>
    match typedefs.find? t with
    | none => some t
    | some t' => resolveLoop typedefs i t'

/-- `abi_serializer::resolve_type`: follow the typedefs, at most as many steps as there are, and give the type back
if they run out. -/
def resolveType (s : AbiSerializer) (type : String) : String :=
  match s.typedefs.find? type with
  | none => type
  | some t => (resolveLoop s.typedefs s.typedefs.entries.length t).getD type

/-- `abi_serializer::_is_type`. -/
def isTypeAt (s : AbiSerializer) : Nat → String → Except AbiException Bool
  | 0, _ => .error recursionDepthError
  | room + 1, rtype =>
    let type := fundamentalType rtype
    if s.builtInTypes.contains type then .ok true
    else
      match s.typedefs.find? type with
      | some t => s.isTypeAt room t
      | none => .ok (s.structs.contains type || s.variants.contains type)

/-- `abi_serializer::is_type`, in a context of its own. -/
def isType (s : AbiSerializer) (type : String) : Except AbiException Bool := s.isTypeAt (maxRecursionDepth - 1) type

/-- `abi_serializer::get_struct`. -/
def getStruct (s : AbiSerializer) (type : String) : Except AbiException StructDef :=
  match s.structs.find? (s.resolveType type) with
  | some st => .ok st
  | none => .error (.invalidTypeInsideAbi ("Unknown struct " ++ type))

/-- A check of `validate` that `type` is a type, failing with `msg`. -/
def assertType (s : AbiSerializer) (type msg : String) : Except AbiException Unit := do
  if !(← s.isType type) then throw (.invalidTypeInsideAbi msg)

/-! ## `set_abi` and `validate` -/

/-- The first loop of `validate` from the typedef `first`: follow the chain from `t`, failing on a type seen
before. Each turn adds a new type, so there are at most as many turns as typedefs. -/
def typedefChainLoop (s : AbiSerializer) (first : String) : Nat → List String → String → Except AbiException Unit
  | 0, _, _ => .ok ()
  | fuel + 1, seen, t =>
    match s.typedefs.find? t with
    | none => .ok ()
    | some t' =>
      if t' ∈ seen then .error (.abiCircularDef ("Circular reference in type " ++ first))
      else s.typedefChainLoop first fuel (seen ++ [t']) t'

/-- The base loop of `validate` for the struct `name`: follow the bases, each of which must be a struct, failing on a
struct seen before. -/
def structBaseLoop (s : AbiSerializer) (name : String) : Nat → List String → StructDef → Except AbiException Unit
  | 0, _, _ => .ok ()
  | fuel + 1, seen, current =>
    if current.base = "" then .ok ()
    else do
      let base ← s.getStruct current.base
      if base.name ∈ seen then .error (.abiCircularDef ("Circular reference in struct " ++ name))
      else s.structBaseLoop name fuel (seen ++ [base.name]) base

/-- `abi_serializer::validate`. -/
def validate (s : AbiSerializer) : Except AbiException Unit := do
  s.typedefs.entries.forM fun t => s.typedefChainLoop t.1 (s.typedefs.entries.length + 1) [t.1, t.2] t.2
  s.typedefs.entries.forM fun t => s.assertType t.2 t.2
  s.structs.entries.forM fun e => do
    if e.2.base ≠ "" then s.structBaseLoop e.2.name (s.structs.entries.length + 1) [e.2.name] e.2
    e.2.fields.forM fun field => s.assertType (removeBinExtension field.type) field.type
  s.variants.entries.forM fun e => e.2.types.forM fun type => s.assertType type type
  s.actions.entries.forM fun a => s.assertType a.2 a.2
  s.tables.entries.forM fun t => s.assertType t.2 t.2

/-- One turn of the typedef loop of `set_abi`: the type must exist and the new name must not. -/
def addTypedef (s : AbiSerializer) (td : TypeDef) : Except AbiException AbiSerializer := do
  if !(← s.isType td.type) then throw (.invalidTypeInsideAbi ("invalid type " ++ td.type))
  if ← s.isType td.newTypeName then throw (.duplicateAbiTypeDef "type already exists")
  pure { s with typedefs := s.typedefs.set td.newTypeName td.type }

end AbiSerializer

open AbiSerializer in
/-- `abi_serializer::set_abi`, on a serializer whose built-in types are `builtInTypes`. The structs are loaded
first, so a typedef may name a struct but not a variant: the variants are loaded after the typedefs. -/
def setAbi (builtInTypes : OrdMap String PackUnpack) (abi : AbiDef) : Except AbiException AbiSerializer := do
  if !("gstio::abi/1.".toList.isPrefixOf abi.version.toList) then
    throw (.unsupportedAbiVersion "ABI has an unsupported version")
  let structs := abi.structs.foldl (fun m st => m.set st.name st) OrdMap.empty
  let s₀ : AbiSerializer := ⟨.empty, structs, .empty, .empty, .empty, .empty, builtInTypes⟩
  let s₁ ← abi.types.foldlM addTypedef s₀
  let s : AbiSerializer := { s₁ with
    actions := abi.actions.foldl (fun m a => m.set a.name a.type) OrdMap.empty
    tables := abi.tables.foldl (fun m t => m.set t.name t.type) OrdMap.empty
    errorMessages := abi.errorMessages.foldl (fun m e => m.set e.errorCode.toNat e.errorMsg) OrdMap.empty
    variants := abi.variants.foldl (fun m v => m.set v.name v) OrdMap.empty }
  if s.typedefs.entries.length ≠ abi.types.length then
    throw (.duplicateAbiTypeDef "duplicate type definition detected")
  if s.structs.entries.length ≠ abi.structs.length then
    throw (.duplicateAbiStructDef "duplicate struct definition detected")
  if s.actions.entries.length ≠ abi.actions.length then
    throw (.duplicateAbiActionDef "duplicate action definition detected")
  if s.tables.entries.length ≠ abi.tables.length then
    throw (.duplicateAbiTableDef "duplicate table definition detected")
  if s.errorMessages.entries.length ≠ abi.errorMessages.length then
    throw (.duplicateAbiErrMsgDef "duplicate error message definition detected")
  if s.variants.entries.length ≠ abi.variants.length then
    throw (.duplicateAbiVariantDef "duplicate variant definition detected")
  s.validate
  pure s

/-! ## `binary_to_variant` -/

/-- The field loop of `_binary_to_variant(type, stream, obj, ctx)`: a field is read while bytes remain; at the end
of the stream an extension field is skipped, and any other field is an error. `dec` reads a value of a type. -/
def binaryToFields (dec : String → List UInt8 → Except AbiException (Variant × List UInt8)) :
    List FieldDef → Bool → List UInt8 → List (String × Variant) →
      Except AbiException (List (String × Variant) × List UInt8)
  | [], _, stream, obj => .ok (obj, stream)
  | field :: fields, encounteredExtension, stream, obj =>
    let extension := endsWith field.type "$"
    let encounteredExtension := encounteredExtension || extension
    if stream.isEmpty then
      if extension then binaryToFields dec fields encounteredExtension stream obj
      else if encounteredExtension then
        .error (.abi ("Encountered field '" ++ field.name ++
          "' without binary extension designation while processing struct"))
      else .error (.unpack ("Stream unexpectedly ended; unable to unpack field '" ++ field.name ++ "' of struct"))
    else do
      let (v, stream) ← dec (if extension then removeBinExtension field.type else field.type) stream
      binaryToFields dec fields encounteredExtension stream (obj ++ [(field.name, v)])

/-- The element loop of the array case of `_binary_to_variant`: no element may be null. -/
def binaryToArray (dec : List UInt8 → Except AbiException (Variant × List UInt8)) :
    Nat → List UInt8 → Except AbiException (List Variant × List UInt8)
  | 0, stream => .ok ([], stream)
  | n + 1, stream => do
    let (v, stream) ← dec stream
    if v.isNull then throw (.unpack "Invalid packed array")
    let (vs, stream) ← binaryToArray dec n stream
    pure (v :: vs, stream)

/-- The class of a built-in type in the message of a failed read. -/
def builtInClass (rtype : String) : String :=
  if isArray rtype then "array of built-in" else if isOptional rtype then "optional of built-in" else "built-in"

namespace AbiSerializer

mutual

/-- `abi_serializer::_binary_to_variant(type, stream, ctx)`: a value of `type` from the front of `stream`, with
the bytes left. -/
def binaryToVariantAt (s : AbiSerializer) : Nat → String → List UInt8 → Except AbiException (Variant × List UInt8)
  | 0, _, _ => .error recursionDepthError
  | room + 1, type, stream =>
    let rtype := s.resolveType type
    let ftype := fundamentalType rtype
    match s.builtInTypes.find? ftype with
    | some bt =>
      match bt.unpack stream (isArray rtype) (isOptional rtype) with
      | .ok r => .ok r
      | .error _ => .error (.unpack ("Unable to unpack " ++ builtInClass rtype ++ " type '" ++ ftype ++ "'"))
    | none =>
      if isArray rtype then
        match unpackUnsignedInt stream with
        | .error _ => .error (.unpack "Unable to unpack size of array")
        | .ok (size, stream) =>
          (binaryToArray (s.binaryToVariantAt room ftype) size.toNat stream).map fun r => (.array r.1, r.2)
      else if isOptional rtype then
        match get stream with
        | .error _ => .error (.unpack "Unable to unpack presence flag of optional")
        | .ok (flag, stream) => if flag ≠ 0 then s.binaryToVariantAt room ftype stream else .ok (.null, stream)
      else
        match s.variants.find? rtype with
        | some vd =>
          match unpackUnsignedInt stream with
          | .error _ => .error (.unpack "Unable to unpack tag of variant")
          | .ok (select, stream) =>
            match vd.types[select.toNat]? with
            | some t => (s.binaryToVariantAt room t stream).map fun r => (.array [.string t, r.1], r.2)
            | none => .error (.unpack ("Unpacked invalid tag (" ++ toString select.toNat ++ ") for variant"))
        | none => do
          let (obj, stream) ← s.binaryToStructAt room rtype stream []
          if obj.isEmpty then throw (.unpack "Unable to unpack")
          pure (.object obj, stream)

/-- `abi_serializer::_binary_to_variant(type, stream, obj, ctx)`: the fields of the struct `type`, its base's
first, appended to `obj`. -/
def binaryToStructAt (s : AbiSerializer) : Nat → String → List UInt8 → List (String × Variant) →
    Except AbiException (List (String × Variant) × List UInt8)
  | 0, _, _, _ => .error recursionDepthError
  | room + 1, type, stream, obj =>
    match s.structs.find? type with
    | none => .error (.invalidTypeInsideAbi ("Unknown type " ++ type))
    | some st => do
      let (obj, stream) ←
        if st.base ≠ "" then s.binaryToStructAt room (s.resolveType st.base) stream obj else pure (obj, stream)
      binaryToFields (fun t stream => s.binaryToVariantAt room (s.resolveType t) stream) st.fields false stream obj

end

/-- `abi_serializer::binary_to_variant(type, binary)`, with the bytes it leaves unread: a fresh context, one scope
for the call on the bytes, and the call on the stream. -/
def binaryToVariantStream (s : AbiSerializer) (type : String) (binary : List UInt8) :
    Except AbiException (Variant × List UInt8) :=
  s.binaryToVariantAt (maxRecursionDepth - 2) type binary

/-- `abi_serializer::binary_to_variant(type, binary)`. -/
def binaryToVariant (s : AbiSerializer) (type : String) (binary : List UInt8) : Except AbiException Variant :=
  (s.binaryToVariantStream type binary).map Prod.fst

end AbiSerializer

/-! ## `variant_to_binary` -/

/-- The element loop of the array case of `_variant_to_binary`. -/
def variantToArray (enc : Variant → List UInt8 → Except AbiException (List UInt8)) :
    List Variant → List UInt8 → Except AbiException (List UInt8)
  | [], ds => .ok ds
  | v :: vs, ds => do
    let ds ← enc v ds
    variantToArray enc vs ds

/-- The field loop of the object case of a struct in `_variant_to_binary`: each field from the first entry of its
name; a missing extension field, when the context allows extensions, makes every later field missing too.
`enc t last v` writes `v` as `t`, `last` telling whether the field is the struct's last. -/
def variantToFields (enc : String → Bool → Variant → List UInt8 → Except AbiException (List UInt8))
    (extensionsAllowed : Bool) (vo : List (String × Variant)) :
    List FieldDef → Bool → List UInt8 → Except AbiException (List UInt8)
  | [], _, ds => .ok ds
  | field :: fields, disallowAdditionalFields, ds =>
    match vo.lookup field.name with
    | some v =>
      if disallowAdditionalFields then
        .error (.pack ("Unexpected field '" ++ field.name ++ "' found in input object while processing struct"))
      else do
        let ds ← enc (removeBinExtension field.type) fields.isEmpty v ds
        variantToFields enc extensionsAllowed vo fields disallowAdditionalFields ds
    | none =>
      if endsWith field.type "$" && extensionsAllowed then variantToFields enc extensionsAllowed vo fields true ds
      else if disallowAdditionalFields then
        .error (.abi ("Encountered field '" ++ field.name ++
          "' without binary extension designation while processing struct"))
      else .error (.pack ("Missing field '" ++ field.name ++ "' in input object while processing struct"))

/-- The field loop of the array case of a struct in `_variant_to_binary`: the fields from the elements in order;
when the elements run out, an extension field ends the struct if the context allows extensions. -/
def variantToArrayFields (enc : String → Bool → Variant → List UInt8 → Except AbiException (List UInt8))
    (extensionsAllowed : Bool) : List FieldDef → List Variant → List UInt8 → Except AbiException (List UInt8)
  | [], _, ds => .ok ds
  | field :: fields, v :: va, ds => do
    let ds ← enc (removeBinExtension field.type) fields.isEmpty v ds
    variantToArrayFields enc extensionsAllowed fields va ds
  | field :: _, [], ds =>
    if endsWith field.type "$" && extensionsAllowed then .ok ds
    else .error (.pack ("Early end to input array specifying the fields of struct; require input for field '" ++
      field.name ++ "'"))

namespace AbiSerializer

/-- `abi_serializer::_variant_to_binary(type, var, ds, ctx)`: `var` written as `type` after `ds`; `allow` is the
context's `allow_extensions`, which the base of a struct, the elements of an array and every field but a struct's
last turn off. -/
def variantToBinaryAt (s : AbiSerializer) :
    Nat → Bool → String → Variant → List UInt8 → Except AbiException (List UInt8)
  | 0, _, _, _, _ => .error recursionDepthError
  | room + 1, allow, type, var, ds =>
    let rtype := s.resolveType type
    match s.builtInTypes.find? (fundamentalType rtype) with
    | some bt => do
      let bs ← (bt.pack var (isArray rtype) (isOptional rtype)).mapError .fc
      write ds bs
    | none =>
      if isArray rtype then do
        let vars ← var.getArray.mapError .fc
        let ds ← write ds (packUnsignedInt vars.length.toUInt32)
        variantToArray (fun v ds => s.variantToBinaryAt room false (fundamentalType rtype) v ds) vars ds
      else
        match s.variants.find? rtype with
        | some vd =>
          match var with
          | .array [.string t, v] =>
            match vd.types.idxOf? t with
            | some i => do
              let ds ← write ds (packUnsignedInt i.toUInt32)
              s.variantToBinaryAt room allow t v ds
            | none => .error (.pack ("Specified type '" ++ t ++ "' in input array is not valid within the variant"))
          | .array [_, _] =>
            .error (.pack "Encountered non-string as first item of input array while processing variant")
          | _ => .error (.pack "Expected input to be an array of two items while processing variant")
        | none =>
          match s.structs.find? rtype with
          | some st =>
            match var with
            | .object vo => do
              let ds ← if st.base ≠ "" then s.variantToBinaryAt room false (s.resolveType st.base) var ds else pure ds
              variantToFields (fun t last v ds => s.variantToBinaryAt room (allow && last) t v ds) allow vo
                st.fields false ds
            | .array va =>
              if st.base ≠ "" then
                .error (.invalidTypeInsideAbi ("Using input array to specify the fields of the derived struct; " ++
                  "input arrays are currently only allowed for structs without a base"))
              else
                variantToArrayFields (fun t last v ds => s.variantToBinaryAt room (allow && last) t v ds) allow
                  st.fields va ds
            | _ => .error (.pack "Unexpected input encountered while processing struct")
          | none => .error (.invalidTypeInsideAbi ("Unknown type " ++ type))

/-- `abi_serializer::variant_to_binary(type, var)`: a fresh context and one scope, in which a name that is not a
type takes the variant as hex bytes, and a type is written into an empty buffer. -/
def variantToBinary (s : AbiSerializer) (type : String) (var : Variant) : Except AbiException (List UInt8) := do
  if !(← s.isTypeAt (maxRecursionDepth - 2) type) then var.asBytes.mapError .fc
  else s.variantToBinaryAt (maxRecursionDepth - 2) true type var []

end AbiSerializer

end Gstio.Chain
