import Sophis.ContractData
import Sophis.ExceptLoop

namespace Sophis

open ExceptLoop

/-!
# Deploy-time checks of WASM modules

`svm/runtime/src/validator.rs` walks the stream of sections that the third-party
parser yields. The parser is a parameter.
-/

/-- Why a module is refused. -/
inductive RuntimeError where
  | floatForbidden
  | threadsForbidden
  | memoryTooLarge (pages limit : UInt64)
  | memoryUnbounded
  | bytecodeTooLarge (size limit : Nat)
  | validationFailed (reason : String)
  | unknownHostImport (name : String)
  | capabilityNotDeclared (hostFn : String) (capability : Capability)
  deriving Repr, DecidableEq

def Capability.name : Capability → String
  | .readUtxo => "ReadUtxo"
  | .produceOutput => "ProduceOutput"
  | .verifyDilithium => "VerifyDilithium"
  | .readBlockHeight => "ReadBlockHeight"
  | .hashSha3 => "HashSha3"
  | .verifyRisc0Proof => "VerifyRisc0Proof"
  | .verifyPlonky3Proof => "VerifyPlonky3Proof"
  | .verifyDataAvailability => "VerifyDataAvailability"
  | .resolveAlt => "ResolveAlt"
  | .emitEvent => "EmitEvent"
  | .vrfRandomness => "VrfRandomness"

def RuntimeError.message : RuntimeError → String
  | .floatForbidden => "float instruction forbidden in contract bytecode"
  | .threadsForbidden => "WASM threads forbidden in contract bytecode"
  | .memoryTooLarge pages limit =>
    s!"memory declaration exceeds limit: {pages} pages (limit: {limit} pages / 16 MiB)"
  | .memoryUnbounded => "memory declaration has no maximum — unbounded memory forbidden"
  | .bytecodeTooLarge size limit => s!"bytecode exceeds maximum size: {size} bytes (limit: {limit})"
  | .validationFailed reason => s!"WASM validation failed: {reason}"
  | .unknownHostImport name =>
    "unknown host import in `env` namespace: `" ++ name ++
      "` (not registered in HOST_FN_CAPABILITY_MAP)"
  | .capabilityNotDeclared hostFn capability =>
    "contract imports host fn `" ++ hostFn ++ "` but manifest does not declare " ++ capability.name

/-- The types of values. -/
inductive WasmValueType where
  | i32
  | i64
  | f32
  | f64
  | v128
  | reference
  deriving Repr, DecidableEq

def WasmValueType.isFloat : WasmValueType → Bool
  | .f32 | .f64 => true
  | _ => false

/-- The type of an imported item. -/
inductive WasmTypeRef where
  | function
  | memory (shared : Bool)
  | global (content : WasmValueType) (shared : Bool)
  | table (shared : Bool)
  | tag
  deriving Repr, DecidableEq

/-- An import and its type. -/
structure WasmImport where
  module : String
  name : String
  type : WasmTypeRef
  deriving Repr, DecidableEq

/-- The limits of a memory. -/
structure WasmMemory where
  shared : Bool
  maximum : Option UInt64
  deriving Repr, DecidableEq

/-- An entry of the type, table, global, element or data section. The value
types are those of parameters, results and fields, or of the global. The
operators are those of its constant expressions. -/
structure WasmDeclaration where
  valueTypes : List WasmValueType
  shared : Bool
  operators : List (Except String String)

/-- One section of the parsed stream. Each element the third-party reader
yields may itself be a parse error, given by its text. A function body names
value types in its locals, its block types and its typed selects. -/
inductive WasmPayload where
  | codeSectionEntry (valueTypes : List WasmValueType)
    (operators : Except String (List (Except String String)))
  | declarations (items : List (Except String WasmDeclaration))
  | importSection (imports : List (Except String WasmImport))
  | memorySection (memories : List (Except String WasmMemory))
  | other

/-- The third-party parser. -/
structure WasmParser where
  parseAll : List UInt8 → List (Except String WasmPayload)

/-- Everything the node takes from other projects. -/
structure External extends Hashers, WasmParser

def maxMemoryPages : UInt64 := 256

/-- Operators rejected because they touch floating point values. -/
def floatOperators : List String :=
  ["F32Load", "F32Store", "F32Const", "F32Abs", "F32Neg", "F32Ceil",
    "F32Floor", "F32Trunc", "F32Nearest", "F32Sqrt", "F32Add", "F32Sub",
    "F32Mul", "F32Div", "F32Min", "F32Max", "F32Copysign", "F32Eq", "F32Ne",
    "F32Lt", "F32Gt", "F32Le", "F32Ge", "I32TruncF32S", "I32TruncF32U",
    "I32TruncF64S", "I32TruncF64U", "I64TruncF32S", "I64TruncF32U",
    "I64TruncF64S", "I64TruncF64U", "F32ConvertI32S", "F32ConvertI32U",
    "F32ConvertI64S", "F32ConvertI64U", "F32DemoteF64", "F64PromoteF32",
    "I32ReinterpretF32", "F32ReinterpretI32", "F64Load", "F64Store",
    "F64Const", "F64Abs", "F64Neg", "F64Ceil", "F64Floor", "F64Trunc",
    "F64Nearest", "F64Sqrt", "F64Add", "F64Sub", "F64Mul", "F64Div",
    "F64Min", "F64Max", "F64Copysign", "F64Eq", "F64Ne", "F64Lt", "F64Gt",
    "F64Le", "F64Ge", "F64ConvertI32S", "F64ConvertI32U", "F64ConvertI64S",
    "F64ConvertI64U", "I64ReinterpretF64", "F64ReinterpretI64", "F32x4Splat",
    "F32x4ExtractLane", "F32x4ReplaceLane", "F32x4Eq", "F32x4Ne", "F32x4Lt",
    "F32x4Gt", "F32x4Le", "F32x4Ge", "F32x4Abs", "F32x4Neg", "F32x4Sqrt",
    "F32x4Ceil", "F32x4Floor", "F32x4Trunc", "F32x4Nearest", "F32x4Add",
    "F32x4Sub", "F32x4Mul", "F32x4Div", "F32x4Min", "F32x4Max", "F32x4PMin",
    "F32x4PMax", "F32x4ConvertI32x4S", "F32x4ConvertI32x4U",
    "F32x4DemoteF64x2Zero", "F32x4RelaxedMadd", "F32x4RelaxedNmadd",
    "F32x4RelaxedMin", "F32x4RelaxedMax", "F64x2Splat", "F64x2ExtractLane",
    "F64x2ReplaceLane", "F64x2Eq", "F64x2Ne", "F64x2Lt", "F64x2Gt",
    "F64x2Le", "F64x2Ge", "F64x2Abs", "F64x2Neg", "F64x2Sqrt", "F64x2Ceil",
    "F64x2Floor", "F64x2Trunc", "F64x2Nearest", "F64x2Add", "F64x2Sub",
    "F64x2Mul", "F64x2Div", "F64x2Min", "F64x2Max", "F64x2PMin", "F64x2PMax",
    "F64x2ConvertLowI32x4S", "F64x2ConvertLowI32x4U", "F64x2PromoteLowF32x4",
    "F64x2RelaxedMadd", "F64x2RelaxedNmadd", "F64x2RelaxedMin",
    "F64x2RelaxedMax", "I32x4TruncSatF32x4S", "I32x4TruncSatF32x4U",
    "I32x4TruncSatF64x2SZero", "I32x4TruncSatF64x2UZero",
    "I32x4RelaxedTruncF32x4S", "I32x4RelaxedTruncF32x4U",
    "I32x4RelaxedTruncF64x2SZero", "I32x4RelaxedTruncF64x2UZero"]

/-- Operators rejected because they use shared memory. -/
def threadOperators : List String :=
  ["MemoryAtomicNotify", "MemoryAtomicWait32", "MemoryAtomicWait64",
    "I32AtomicLoad", "I64AtomicLoad", "I32AtomicLoad8U", "I32AtomicLoad16U",
    "I64AtomicLoad8U", "I64AtomicLoad16U", "I64AtomicLoad32U",
    "I32AtomicStore", "I64AtomicStore", "I32AtomicStore8",
    "I32AtomicStore16", "I64AtomicStore8", "I64AtomicStore16",
    "I64AtomicStore32", "I32AtomicRmwAdd", "I64AtomicRmwAdd"]

/-- Rejects one operator, given by its mnemonic. -/
def rejectFloatOrThread (operator : String) : Except RuntimeError Unit := do
  reject (operator ∈ floatOperators) .floatForbidden
  reject (operator ∈ threadOperators) .threadsForbidden

def checkMemory (memory : WasmMemory) : Except RuntimeError Unit := do
  reject (memory.shared = true) .threadsForbidden
  match memory.maximum with
  | none => .error .memoryUnbounded
  | some maxPages => reject (maxPages > maxMemoryPages) (.memoryTooLarge maxPages maxMemoryPages)

/-- What cannot be parsed is refused. -/
def parsedOr {α : Type} (item : Except String α) : Except RuntimeError α :=
  item.mapError .validationFailed

/-- The checks of one section. -/
def checkPayload : WasmPayload → Except RuntimeError Unit
  | .codeSectionEntry _ operators => do
    forEach (fun _ operator => do
      rejectFloatOrThread (← parsedOr operator)) (← parsedOr operators)
  | .importSection imports =>
    forEach (fun _ item => do
      reject ((← parsedOr item).type = .memory true) .threadsForbidden)
      imports
  | .memorySection memories => forEach (fun _ item => do checkMemory (← parsedOr item)) memories
  | .declarations _ | .other => .ok ()

/-- Checks the size and then every section of a module. -/
def validateBytecode (parser : WasmParser) (wasm : List UInt8)
    (maxSize : Nat) : Except RuntimeError Unit := do
  reject (wasm.length > maxSize) (.bytecodeTooLarge wasm.length maxSize)
  forEach (fun _ payload => do checkPayload (← parsedOr payload)) (parser.parseAll wasm)

/-- The host functions and the capability each one needs. -/
def hostFnCapabilityMap : List (String × Capability) := [("get_input_utxo", .readUtxo),
    ("get_output_utxo", .readUtxo),
    ("get_block_height", .readBlockHeight),
    ("verify_dilithium", .verifyDilithium),
    ("sha3_384", .hashSha3),
    ("verify_risc0_proof", .verifyRisc0Proof),
    ("verify_plonky3_proof", .verifyPlonky3Proof),
    ("sophis_emit_event", .emitEvent),
    ("sophis_vrf_random_at", .vrfRandomness),
    ("sophis_alt_lookup", .resolveAlt),
    ("sophis_verify_da", .verifyDataAvailability)]

def checkImport (requiredCapabilities : List Capability)
    (item : WasmImport) : Except RuntimeError Unit :=
  if item.module ≠ "env" ∨ item.type ≠ .function then
    .ok ()
  else
    match hostFnCapabilityMap.lookup item.name with
    | none => .error (.unknownHostImport item.name)
    | some needed =>
      reject (needed ∉ requiredCapabilities) (.capabilityNotDeclared item.name needed)

/-- Rejects modules that import undeclared or unknown host functions. -/
def validateImportsAgainstManifest (parser : WasmParser)
    (wasm : List UInt8) (requiredCapabilities : List Capability) :
    Except RuntimeError Unit :=
  forEach (fun _ payload => do
    match ← parsedOr payload with
    | .importSection imports =>
      forEach (fun _ item => do
        checkImport requiredCapabilities (← parsedOr item)) imports
    | _ => .ok ()) (parser.parseAll wasm)

/-- The parser names an operator after the values it works on. Floating point
values and vectors of them are spelled `F32` and `F64`, and what works on
memory, globals, tables or objects shared between threads is spelled `Atomic`
or `Shared`. -/
def NonDeterministic (operator : String) : Prop :=
  ∃ word ∈ ["F32", "F64", "Atomic", "Shared"], word.toList <:+: operator.toList

instance (operator : String) : Decidable (NonDeterministic operator) :=
  inferInstanceAs (Decidable (∃ word ∈ _, _))

/-- A non-deterministic operator that neither list has: the saturating
conversions, the fence, most atomic updates of memory, and every atomic access
to globals, tables and objects. -/
def Unlisted (operator : String) : Prop :=
  NonDeterministic operator ∧ operator ∉ floatOperators ∧ operator ∉ threadOperators

instance (operator : String) : Decidable (Unlisted operator) :=
  inferInstanceAs (Decidable (_ ∧ _ ∧ _))

def WasmDeclaration.Deterministic (declaration : WasmDeclaration) : Prop :=
  (∀ type ∈ declaration.valueTypes, type.isFloat = false) ∧ declaration.shared = false ∧
    ∀ operator, .ok operator ∈ declaration.operators → ¬ NonDeterministic operator

def WasmTypeRef.Deterministic : WasmTypeRef → Prop
  | .global content shared => content.isFloat = false ∧ shared = false
  | .memory shared | .table shared => shared = false
  | .function | .tag => True

/-- A section that brings in no floating point value and nothing shared between
threads. -/
def WasmPayload.Deterministic : WasmPayload → Prop
  | .codeSectionEntry valueTypes operators =>
    (∀ type ∈ valueTypes, type.isFloat = false) ∧
      ∀ parsed, operators = .ok parsed →
        ∀ operator, .ok operator ∈ parsed → ¬ NonDeterministic operator
  | .declarations items => ∀ item, .ok item ∈ items → item.Deterministic
  | .importSection imports => ∀ item, .ok item ∈ imports → item.type.Deterministic
  | .memorySection memories => ∀ memory, .ok memory ∈ memories → memory.shared = false
  | .other => True

/-- What the checks pass over brings in nothing of the kind: the value types of
bodies, the declarations, the imports other than memories, and the operators
that are on neither list. -/
def WasmPayload.Clear : WasmPayload → Prop
  | .codeSectionEntry valueTypes operators =>
    (∀ type ∈ valueTypes, type.isFloat = false) ∧
      ∀ parsed, operators = .ok parsed → ∀ operator, .ok operator ∈ parsed → ¬ Unlisted operator
  | .declarations items => ∀ item, .ok item ∈ items → item.Deterministic
  | .importSection imports => ∀ item, .ok item ∈ imports →
    (∀ shared, item.type ≠ .memory shared) → item.type.Deterministic
  | .memorySection _ | .other => True

theorem parsedOr_bind_eq_ok {α : Type} {item : Except String α}
    {next : α → Except RuntimeError Unit} :
    (parsedOr item >>= next) = .ok () ↔ ∃ value, item = .ok value ∧ next value = .ok () := by
  simp only [bind_eq_ok, parsedOr, mapError_eq_ok]

/-- A loop over parsed items that passes has passed each of them. -/
theorem passed_of_forEach {α : Type} {check : α → Except RuntimeError Unit}
    {items : List (Except String α)}
    (passed : forEach (fun _ item => do check (← parsedOr item)) items = .ok ())
    {value : α} (mem : .ok value ∈ items) : check value = .ok () := by
  have all := (forEach_eq_ok_iff_forall (fun _ _ => parsedOr_bind_eq_ok) items).mp passed
  obtain ⟨parsed, isParsed, passes⟩ := all _ mem
  cases isParsed
  exact passes

theorem not_nonDeterministic_iff {operator : String}
    (passed : rejectFloatOrThread operator = .ok ()) :
    ¬ NonDeterministic operator ↔ ¬ Unlisted operator := by
  simp only [rejectFloatOrThread, check_eq_ok, bind_eq_ok, reject_eq_ok] at passed
  exact not_congr ⟨fun named => ⟨named, passed⟩, And.left⟩

theorem deterministic_iff_clear {payload : WasmPayload} (passed : checkPayload payload = .ok ()) :
    payload.Deterministic ↔ payload.Clear := by
  cases payload with
  | codeSectionEntry valueTypes operators =>
    obtain ⟨parsed, isParsed, passed⟩ := parsedOr_bind_eq_ok.mp passed
    subst isParsed
    have operator_iff {operator : String} (mem : .ok operator ∈ parsed) :=
      not_nonDeterministic_iff (passed_of_forEach passed mem)
    refine and_congr_right fun _ => ⟨?_, ?_⟩
    · rintro none _ ⟨⟩ operator mem
      exact (operator_iff mem).mp (none _ rfl operator mem)
    · rintro none _ ⟨⟩ operator mem
      exact (operator_iff mem).mpr (none _ rfl operator mem)
  | declarations items => exact Iff.rfl
  | importSection imports =>
    refine ⟨fun all item mem _ => all item mem, fun clear item mem => ?_⟩
    have passes : reject (item.type = .memory true) RuntimeError.threadsForbidden = .ok () :=
      passed_of_forEach passed mem
    have unshared := reject_eq_ok.mp passes
    by_cases isMemory : ∃ shared, item.type = .memory shared
    · obtain ⟨shared, isMemory⟩ := isMemory
      rw [isMemory] at unshared ⊢
      exact Bool.eq_false_of_not_eq_true fun isShared => unshared (congrArg _ isShared)
    · exact clear item mem (not_exists.mp isMemory)
  | memorySection memories =>
    refine iff_of_true (fun memory mem => ?_) trivial
    have passes := passed_of_forEach passed mem
    simp only [checkMemory, check_eq_ok, bind_eq_ok, reject_eq_ok] at passes
    exact Bool.eq_false_of_not_eq_true passes.1
  | other => exact Iff.rfl

/-- An accepted module is free of floating point and of sharing exactly when
what the checks pass over is. -/
theorem validateBytecode_screens (parser : WasmParser) (wasm : List UInt8) (maxSize : Nat)
    (accepted : validateBytecode parser wasm maxSize = .ok ()) :
    (∀ payload, .ok payload ∈ parser.parseAll wasm → payload.Deterministic) ↔
      ∀ payload, .ok payload ∈ parser.parseAll wasm → payload.Clear := by
  simp only [validateBytecode, check_eq_ok, bind_eq_ok] at accepted
  have payload_iff {payload : WasmPayload} (mem : .ok payload ∈ parser.parseAll wasm) :=
    deterministic_iff_clear (passed_of_forEach accepted.2 mem)
  exact forall_congr' fun _ => forall_congr' payload_iff

/-- A parser that finds one function, without locals, with the given body. -/
def bodyParser (operators : List String) : WasmParser :=
  ⟨fun _ => [.ok (.codeSectionEntry [] (.ok (operators.map .ok)))]⟩

theorem addition_screened :
    (WasmPayload.codeSectionEntry [] (.ok [.ok "LocalGet", .ok "I32Add", .ok "End"])).Deterministic
    := by
  refine (validateBytecode_screens (bodyParser ["LocalGet", "I32Add", "End"]) [] 0 rfl).mpr ?_ _
    List.mem_cons_self
  rintro payload (_ | ⟨_, ⟨⟩⟩)
  refine ⟨by simp, ?_⟩
  rintro _ ⟨⟩ operator mem
  have plain : ∀ name ∈ ["LocalGet", "I32Add", "End"], ¬ Unlisted name := by decide +kernel
  exact plain operator (by simpa using mem)

/-- A body that converts its floating point argument is accepted, and so are
one that updates shared memory, one that reads a shared global, and a module
with a floating point global. -/
theorem conversion_accepted :
    (∀ body ∈ [["LocalGet", "I32TruncSatF32S", "End"],
        ["LocalGet", "LocalGet", "I32AtomicRmwSub", "End"], ["GlobalAtomicGet", "End"]],
      (∃ operator ∈ body, NonDeterministic operator) ∧
        validateBytecode (bodyParser body) [] 0 = .ok ()) ∧
    validateBytecode
      ⟨fun _ => [.ok (.declarations [.ok ⟨[.f32], false, [.ok "F32Const", .ok "End"]⟩])]⟩ [] 0 =
        .ok () := by
  decide +kernel

end Sophis
