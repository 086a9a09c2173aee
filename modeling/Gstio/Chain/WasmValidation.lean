import Mathlib
import Gstio.Lib.Rollback

/-!
# The nesting validator of `wasm_binary_validation` (`wasm_gstio_validation.hpp`)

`wasm_binary_validation::validate` decodes the code of every function of a module, in order, and lets the
validators of `op_constrainers` accept each operator. `nested_validator` keeps a counter `depth` in a static: it is
set to `0` when the validation is built and is not reset between functions. Every `block`, `loop`, `if` and `else`
adds one, an `end` takes one away while the counter is positive and adds one when it is `0`, and the validator
throws "Nested depth exceeded" when the counter reaches `1024`. It is disabled unless a block is being produced.

The depth a function's code reaches is `maxNesting`: the most structures open at once, where `block`, `loop` and
`if` open one, `end` closes one and `else` stays in its `if`.

* `validateCode_maxNesting`, `wasmBinaryValidation_rejects_deep`: the counter is never below the depth, so a module
  with a function that reaches depth `1024` is rejected with "Nested depth exceeded";
* `nested_validator_counts_else`: a function whose structures never nest, `if … else … end` a thousand times over,
  is rejected as well, since each `else` adds one that no `end` takes away.
-/

namespace Gstio.Chain

/-- The operators of a function's code, as the validators of `op_constrainers` tell them apart: the five that
`nested_validator` accepts, the loads and stores with the offset `large_offset_validator` checks, every other
operator of the whitelist, and the `error` operator the decoder returns for an opcode it does not know. -/
inductive WasmOp where
  | block
  | loop
  | if_
  | else_
  | end_
  | memory (offset : Nat)
  | other
  | error
  deriving DecidableEq, Repr

/-- `wasm_constraints::maximum_linear_memory`. -/
def maximumLinearMemory : Nat := 33 * 1024 * 1024

/-- The statics of `nested_validator`. -/
structure NestedValidator where
  disabled : Bool
  depth : UInt16
  deriving DecidableEq, Repr

/-- `nested_validator::init`, called by the constructor of `wasm_binary_validation`. -/
def NestedValidator.init (disable : Bool) : NestedValidator := ⟨disable, 0⟩

/-- `nested_validator::accept`. -/
def NestedValidator.accept (nv : NestedValidator) (op : WasmOp) : Except String NestedValidator :=
  if nv.disabled then .ok nv
  else if op = .end_ ∧ nv.depth > 0 then .ok { nv with depth := nv.depth - 1 }
  else
    let depth := nv.depth + 1
    if depth < 1024 then .ok { nv with depth } else .error "Nested depth exceeded"

/-- `op->visit(...)`: the `accept` of each validator of the operator's type in `op_constrainers`, in order. The
whitelist validator accepts everything and is left out. -/
def opVisit (nv : NestedValidator) : WasmOp → Except String NestedValidator
  | .block => nv.accept .block
  | .loop => nv.accept .loop
  | .if_ => nv.accept .if_
  | .else_ => nv.accept .else_
  | .end_ => nv.accept .end_
  | .memory offset =>
    if offset ≥ maximumLinearMemory then .error "Smart contract used an invalid large memory store/load offset"
    else .ok nv
  | .other => .ok nv
  | .error => .error "Error, blacklisted opcode ${op} "

/-- The loop of `validate` over the code of one function. -/
def validateCode (nv : NestedValidator) (code : List WasmOp) : Except String NestedValidator := code.foldlM opVisit nv

/-- The loop of `validate` over the functions of the module, with the one `nested_validator` for all of them. -/
def validateFunctions (nv : NestedValidator) (defs : List (List WasmOp)) : Except String NestedValidator :=
  defs.foldlM validateCode nv

/-- `wasm_binary_validation(control, mod).validate()`: the module validators (their verdict is `moduleChecks`), then
the code of every function, with `nested_validator` disabled unless a block is being produced. -/
def wasmBinaryValidation (moduleChecks : Except String Unit) (producing : Bool) (defs : List (List WasmOp)) :
    Except String Unit := do
  moduleChecks
  let _ ← validateFunctions (NestedValidator.init (!producing)) defs
  pure ()

/-! ## The depth of a function's code -/

/-- What an operator does to the number of open structures. -/
def WasmOp.nesting : WasmOp → Int
  | .block | .loop | .if_ => 1
  | .end_ => -1
  | _ => 0

/-- The most structures open at once in `code`, from `cur` open at its start. -/
def maxNesting (cur : Int) : List WasmOp → Int
  | [] => cur
  | op :: code => max cur (maxNesting (cur + op.nesting) code)

theorem le_maxNesting (cur : Int) (code : List WasmOp) : cur ≤ maxNesting cur code := by
  cases code with
  | nil => exact le_refl cur
  | cons op code => exact le_max_left _ _

/-- An operator the validators other than `nested_validator` let through. -/
def WasmOp.allowed : WasmOp → Bool
  | .memory offset => offset < maximumLinearMemory
  | .error => false
  | _ => true

/-! ## One operator -/

section Accept

variable {d : UInt16}

theorem accept_end_pos (h : 0 < d.toNat) : (⟨false, d⟩ : NestedValidator).accept .end_ = .ok ⟨false, d - 1⟩ := by
  have hpos : d > 0 := UInt16.lt_iff_toNat_lt.mpr h
  simp [NestedValidator.accept, hpos]

theorem accept_open {op : WasmOp} (h : ¬(op = .end_ ∧ 0 < d.toNat)) (hd : d.toNat + 1 < 1024) :
    (⟨false, d⟩ : NestedValidator).accept op = .ok ⟨false, d + 1⟩ := by
  have hnot : ¬(op = .end_ ∧ d > 0) := fun h' => h ⟨h'.1, UInt16.lt_iff_toNat_lt.mp h'.2⟩
  have hlt : d + 1 < 1024 := by
    rw [UInt16.lt_iff_toNat_lt, UInt16.toNat_add, UInt16.toNat_one, Nat.mod_eq_of_lt (by omega)]
    exact hd
  simp only [NestedValidator.accept, Bool.false_eq_true, if_false, hnot, hlt, if_true]

theorem accept_overflow {op : WasmOp} (h : ¬(op = .end_ ∧ 0 < d.toNat)) (hd : d.toNat + 1 = 1024) :
    (⟨false, d⟩ : NestedValidator).accept op = .error "Nested depth exceeded" := by
  have hnot : ¬(op = .end_ ∧ d > 0) := fun h' => h ⟨h'.1, UInt16.lt_iff_toNat_lt.mp h'.2⟩
  have hge : ¬(d + 1 < 1024) := by
    rw [UInt16.lt_iff_toNat_lt, UInt16.toNat_add, UInt16.toNat_one, Nat.mod_eq_of_lt (by omega)]
    exact fun hlt => absurd hlt (by simp; omega)
  simp only [NestedValidator.accept, Bool.false_eq_true, if_false, hnot, hge]

theorem uint16_toNat_sub_one (h : 0 < d.toNat) : (d - 1).toNat = d.toNat - 1 :=
  UInt16.toNat_sub_of_le _ _ (UInt16.le_iff_toNat_le.mpr h)

theorem uint16_toNat_ofNat_small {n : Nat} (h : n < 1024) : (UInt16.ofNat n).toNat = n :=
  UInt16.toNat_ofNat_of_lt' (Nat.lt_of_lt_of_le h (by decide))

theorem uint16_toNat_add_one (h : d.toNat < 1024) : (d + 1).toNat = d.toNat + 1 := by
  rw [UInt16.toNat_add, UInt16.toNat_one, Nat.mod_eq_of_lt (by omega)]

/-- **What one operator does to an enabled validator** below `1024`: it returns a validator below `1024` whose
counter has moved at least as far as the depth, or throws "Nested depth exceeded", or it is stopped by another
validator. -/
theorem opVisit_cases (op : WasmOp) (hd : d.toNat < 1024) :
    (∃ d', opVisit ⟨false, d⟩ op = .ok ⟨false, d'⟩ ∧ d'.toNat < 1024 ∧ (d.toNat : Int) + op.nesting ≤ d'.toNat) ∨
      opVisit ⟨false, d⟩ op = .error "Nested depth exceeded" ∨ op.allowed = false := by
  -- the five operators of `nested_validator` go through `accept`, the others leave the counter alone
  have hacc : ∀ op', op'.nesting ≤ 1 → (op' = .end_ → op'.nesting = -1) →
      (∃ d', (⟨false, d⟩ : NestedValidator).accept op' = .ok ⟨false, d'⟩ ∧ d'.toNat < 1024 ∧
        (d.toNat : Int) + op'.nesting ≤ d'.toNat) ∨
        (⟨false, d⟩ : NestedValidator).accept op' = .error "Nested depth exceeded" := by
    intro op' hle hend
    by_cases hpos : op' = .end_ ∧ 0 < d.toNat
    · obtain ⟨rfl, hpos⟩ := hpos
      refine .inl ⟨d - 1, accept_end_pos hpos, by rw [uint16_toNat_sub_one hpos]; omega, ?_⟩
      rw [uint16_toNat_sub_one hpos, hend rfl]
      omega
    · by_cases hfit : d.toNat + 1 < 1024
      · refine .inl ⟨d + 1, accept_open hpos hfit, by rw [uint16_toNat_add_one hd]; exact hfit, ?_⟩
        rw [uint16_toNat_add_one hd]
        omega
      · exact .inr (accept_overflow hpos (by omega))
  cases op with
  | block => exact (hacc .block (by decide) (by decide)).imp_right .inl
  | loop => exact (hacc .loop (by decide) (by decide)).imp_right .inl
  | if_ => exact (hacc .if_ (by decide) (by decide)).imp_right .inl
  | else_ => exact (hacc .else_ (by decide) (by decide)).imp_right .inl
  | end_ => exact (hacc .end_ (by decide) (by decide)).imp_right .inl
  | memory offset =>
    by_cases hoff : offset < maximumLinearMemory
    · exact .inl ⟨d, by simp [opVisit, hoff], hd, by simp [WasmOp.nesting]⟩
    · exact .inr (.inr (by simp [WasmOp.allowed, hoff]))
  | other => exact .inl ⟨d, rfl, hd, by simp [WasmOp.nesting]⟩
  | error => exact .inr (.inr rfl)

/-- An operator another validator stops throws, whatever `nested_validator` holds. -/
theorem opVisit_of_not_allowed (nv : NestedValidator) {op : WasmOp} (h : op.allowed = false) :
    ∃ e, opVisit nv op = .error e := by
  cases op with
  | memory offset =>
    have hge : offset ≥ maximumLinearMemory := by simpa [WasmOp.allowed] using h
    exact ⟨_, if_pos hge⟩
  | error => exact ⟨_, rfl⟩
  | _ => cases h

end Accept

/-! ## The counter bounds the depth -/

/-- **The counter is never below the depth.** When an enabled validator at `d`, below `1024`, accepts the code of a
function, the code never has `1024` structures open from `cur ≤ d` at its start. -/
theorem validateCode_maxNesting : ∀ (code : List WasmOp) (d : UInt16) (cur : Int) (nv' : NestedValidator),
    d.toNat < 1024 → cur ≤ d.toNat → validateCode ⟨false, d⟩ code = .ok nv' →
      maxNesting cur code < 1024 ∧ ∃ d', nv' = ⟨false, d'⟩ ∧ d'.toNat < 1024
  | [], d, cur, nv', hd, hcur, h => by
    simp only [validateCode, List.foldlM_nil, pure, Except.pure, Except.ok.injEq] at h
    subst h
    exact ⟨by simp only [maxNesting]; omega, d, rfl, hd⟩
  | op :: code, d, cur, nv', hd, hcur, h => by
    rw [validateCode, List.foldlM_cons] at h
    rcases opVisit_cases op hd with ⟨d', hop, hd', hmove⟩ | herr | hbad
    · -- the operator moves the counter at least as far as the depth
      rw [hop] at h
      obtain ⟨hmax, hrest⟩ := validateCode_maxNesting code d' (cur + op.nesting) nv' hd' (by omega : cur + op.nesting ≤ d'.toNat) h
      exact ⟨max_lt (by omega : cur < 1024) hmax, hrest⟩
    · rw [herr] at h
      cases h
    · obtain ⟨e, he⟩ := opVisit_of_not_allowed ⟨false, d⟩ hbad
      rw [he] at h
      cases h

/-- Every function of a module that an enabled validator accepts stays below depth `1024`. -/
theorem validateFunctions_maxNesting : ∀ (defs : List (List WasmOp)) (d : UInt16) (nv' : NestedValidator),
    d.toNat < 1024 → validateFunctions ⟨false, d⟩ defs = .ok nv' → ∀ code ∈ defs, maxNesting 0 code < 1024
  | [], _, _, _, _, code, hmem => absurd hmem List.not_mem_nil
  | code₀ :: defs, d, nv', hd, h, code, hmem => by
    rw [validateFunctions, List.foldlM_cons] at h
    cases hc : validateCode ⟨false, d⟩ code₀ with
    | error e => rw [hc] at h; cases h
    | ok nv =>
      rw [hc] at h
      obtain ⟨hmax, d', rfl, hd'⟩ := validateCode_maxNesting code₀ d 0 nv hd (by omega) hc
      rcases List.mem_cons.mp hmem with rfl | hmem
      · exact hmax
      · exact validateFunctions_maxNesting defs d' nv' hd' h code hmem

/-- With every operator let through by the other validators, an enabled validator below `1024` accepts the
functions or throws "Nested depth exceeded". -/
theorem validateFunctions_ok_or_nested (defs : List (List WasmOp)) (d : UInt16) (hd : d.toNat < 1024)
    (hallowed : ∀ code ∈ defs, ∀ op ∈ code, op.allowed = true) :
    (∃ nv', validateFunctions ⟨false, d⟩ defs = .ok nv') ∨
      validateFunctions ⟨false, d⟩ defs = .error "Nested depth exceeded" := by
  -- the invariant of both folds: an enabled validator below `1024`
  let I : NestedValidator → Prop := fun nv => ∃ d', nv = ⟨false, d'⟩ ∧ d'.toNat < 1024
  have hop : ∀ nv op, I nv → op.allowed = true →
      (∃ nv', opVisit nv op = .ok nv' ∧ I nv') ∨ opVisit nv op = .error "Nested depth exceeded" := by
    rintro nv op ⟨d', rfl, hd'⟩ hop
    rcases opVisit_cases op hd' with ⟨d'', hv, hd'', -⟩ | herr | hbad
    · exact .inl ⟨_, hv, d'', rfl, hd''⟩
    · exact .inr herr
    · rw [hop] at hbad
      cases hbad
  have hcode : ∀ nv code, I nv → (∀ op ∈ code, op.allowed = true) →
      (∃ nv', validateCode nv code = .ok nv' ∧ I nv') ∨ validateCode nv code = .error "Nested depth exceeded" :=
    fun nv code hnv hops => Except.foldlM_invariant hop code nv hnv hops
  rcases Except.foldlM_invariant hcode defs ⟨false, d⟩ ⟨d, rfl, hd⟩ hallowed with ⟨nv', h, -⟩ | h
  · exact .inl ⟨nv', h⟩
  · exact .inr h

/-- **A module with a function of depth `1024` is rejected** with "Nested depth exceeded", when the module validators
pass, a block is being produced and no other validator stops it first. -/
theorem wasmBinaryValidation_rejects_deep (defs : List (List WasmOp))
    (hallowed : ∀ code ∈ defs, ∀ op ∈ code, op.allowed = true) (hdeep : ∃ code ∈ defs, 1024 ≤ maxNesting 0 code) :
    wasmBinaryValidation (.ok ()) true defs = .error "Nested depth exceeded" := by
  have hinit : NestedValidator.init (!true) = ⟨false, 0⟩ := rfl
  rcases validateFunctions_ok_or_nested defs 0 (by decide) hallowed with ⟨nv', h⟩ | h
  · obtain ⟨code, hmem, hge⟩ := hdeep
    have := validateFunctions_maxNesting defs 0 nv' (by decide) h code hmem
    omega
  · simp only [wasmBinaryValidation, hinit, h, bind, Except.bind]

/-! ## Structures side by side -/

/-- `i32.const 0; if; else; end`: one `if` with an `else`, closed. -/
def ifElseGroup : List WasmOp := [.other, .if_, .else_, .end_]

/-- The code of a function made of `n` of them, one after the other, and the `end` of the function. -/
def ifElseBody (n : Nat) : List WasmOp := (List.replicate n ifElseGroup).flatten ++ [.end_]

/-- One `if … else … end` leaves one more on the counter than it found. -/
theorem validateCode_ifElseGroup (d : Nat) (hd : d + 2 < 1024) :
    validateCode ⟨false, UInt16.ofNat d⟩ ifElseGroup = .ok ⟨false, UInt16.ofNat (d + 1)⟩ := by
  have hd16 : (UInt16.ofNat d).toNat = d := uint16_toNat_ofNat_small (by omega)
  have hd1 : (UInt16.ofNat d + 1).toNat = d + 1 := by rw [uint16_toNat_add_one (by omega), hd16]
  have hd2 : (UInt16.ofNat d + 1 + 1).toNat = d + 2 := by rw [uint16_toNat_add_one (by omega), hd1]
  have hback : UInt16.ofNat d + 1 + 1 - 1 = UInt16.ofNat (d + 1) := by
    rw [← UInt16.toNat_inj, uint16_toNat_sub_one (by omega), hd2, uint16_toNat_ofNat_small (by omega)]
    omega
  simp only [validateCode, ifElseGroup, List.foldlM_cons, List.foldlM_nil, opVisit, bind, Except.bind,
    @accept_open (UInt16.ofNat d) .if_ (by simp) (by omega),
    @accept_open (UInt16.ofNat d + 1) .else_ (by simp) (by omega),
    accept_end_pos (d := UInt16.ofNat d + 1 + 1) (by omega), hback]
  rfl

theorem validateCode_ifElseGroups : ∀ (n d : Nat), d + n + 1 < 1024 →
    validateCode ⟨false, UInt16.ofNat d⟩ (List.replicate n ifElseGroup).flatten = .ok ⟨false, UInt16.ofNat (d + n)⟩
  | 0, d, _ => rfl
  | n + 1, d, h => by
    rw [List.replicate_succ, List.flatten_cons, validateCode, List.foldlM_append, ← validateCode,
      validateCode_ifElseGroup d (by omega)]
    show validateCode _ _ = _
    rw [validateCode_ifElseGroups n (d + 1) (by omega), Nat.add_right_comm, Nat.add_assoc]

/-- An `if … else … end` opens one structure and closes it. -/
theorem maxNesting_ifElseGroup (cur : Int) (rest : List WasmOp) :
    maxNesting cur (ifElseGroup ++ rest) = max (cur + 1) (maxNesting cur rest) := by
  simp only [ifElseGroup, List.cons_append, List.nil_append, maxNesting, WasmOp.nesting]
  rw [show cur + 0 + 1 + 0 + -1 = cur by omega]
  have := le_maxNesting cur rest
  omega

/-- `n` groups side by side open one structure at a time. -/
theorem maxNesting_ifElseGroups : ∀ (n : Nat) (cur : Int) (rest : List WasmOp),
    maxNesting cur ((List.replicate (n + 1) ifElseGroup).flatten ++ rest) = max (cur + 1) (maxNesting cur rest)
  | 0, cur, rest => by
    rw [List.replicate_succ, List.flatten_cons, List.replicate_zero, List.flatten_nil, List.append_nil,
      maxNesting_ifElseGroup]
  | n + 1, cur, rest => by
    rw [List.replicate_succ, List.flatten_cons, List.append_assoc, maxNesting_ifElseGroup,
      maxNesting_ifElseGroups n cur rest, ← max_assoc, max_self]

/-- The validator of a block producer rejects a function whose structures are never nested: `1023` of
`if … else … end` side by side, with at most one structure open at once, throw "Nested depth exceeded". -/
theorem nested_validator_counts_else :
    maxNesting 0 (ifElseBody 1023) = 1 ∧
      wasmBinaryValidation (.ok ()) true [ifElseBody 1023] = .error "Nested depth exceeded" := by
  constructor
  · rw [ifElseBody, maxNesting_ifElseGroups 1022 0 [.end_]]
    rfl
  · have hsplit : (List.replicate 1023 ifElseGroup).flatten = (List.replicate 1022 ifElseGroup).flatten ++
        ifElseGroup := by
      rw [show 1023 = 1022 + 1 from rfl, List.replicate_succ', List.flatten_append, List.flatten_singleton]
    have h1022 : validateCode ⟨false, 0⟩ (List.replicate 1022 ifElseGroup).flatten =
        .ok ⟨false, UInt16.ofNat 1022⟩ := validateCode_ifElseGroups 1022 0 (by decide)
    have hcode : validateCode ⟨false, 0⟩ (ifElseBody 1023) = .error "Nested depth exceeded" := by
      rw [ifElseBody, hsplit, validateCode, List.foldlM_append, List.foldlM_append, ← validateCode, h1022]
      rfl
    simp only [wasmBinaryValidation, validateFunctions, List.foldlM_cons, List.foldlM_nil]
    rw [show NestedValidator.init (!true) = ⟨false, 0⟩ from rfl, hcode]
    rfl

end Gstio.Chain
