import Sophis.OracleProgram
import Sophis.ScriptOpcodes
import Sophis.SignatureHash

namespace Sophis

open ByteCodec ExceptLoop OracleProgram

/-!
# The script engine

`TxScriptEngine` of `crypto/txscript/src/lib.rs`. Signature verification is
third-party code behind a shared cache, so the engine is a program that asks
for the verdict on a signature; who answers is decided by whoever runs it.
-/

/-- A question to the verifier. -/
structure SigCheck where
  key : List UInt8
  message : Hash
  signature : List UInt8
  deriving Repr, DecidableEq

/-- A computation that may fail and may ask for verdicts on signatures. -/
abbrev SigProgram (ε α : Type) := OracleProgram.Fallible SigCheck Bool ε α

/-- Scripts may fail and ask for signature checks. -/
abbrev EngineProgram (α : Type) := SigProgram TxScriptError α

def maxStackSize : Nat := 244

def maxScriptsSize : Nat := 10000

def maxScriptElementSize : Nat := 4096

def maxOpsPerScript : Nat := 201

/-- The highest script version the engine runs; outputs of a higher version
are taken as spendable by anyone. -/
def maxEngineScriptVersion : UInt16 := 0

def dilithium2VkSize : Nat := 1312

def dilithium2SigSize : Nat := 2420

/-- The state of an open conditional. -/
inductive OpCond where
  | false
  | true
  | skip
  deriving Repr, DecidableEq

def OpCond.negate : OpCond → OpCond
  | .true => .false
  | .false => .true
  | .skip => .skip

/-- Counts the signature checks an input may still make. -/
structure RuntimeSigOpCounter where
  limit : UInt8
  remaining : UInt8
  deriving Repr, DecidableEq

def RuntimeSigOpCounter.new (limit : UInt8) : RuntimeSigOpCounter := ⟨limit, limit⟩

def RuntimeSigOpCounter.consumeSigOp (counter : RuntimeSigOpCounter) :
    ScriptResult RuntimeSigOpCounter :=
  if counter.remaining = 0 then
    .error (.exceededSigOpLimit counter.limit)
  else
    .ok { counter with remaining := counter.remaining - 1 }

/-- Where a script comes from. -/
inductive ScriptSource where
  | txInput (populated : PopulatedTransaction)
    (index : Fin populated.tx.inputs.length) (entry : UtxoEntry)
  | standAloneScripts (scripts : List (List UInt8))

/-- The stacks and counters of the engine. -/
structure EngineState where
  dstack : Stack
  astack : Stack
  condStack : List OpCond
  numOps : Nat
  sigOps : RuntimeSigOpCounter
  deriving Repr, DecidableEq

namespace EngineState

def new (sigOpLimit : UInt8) : EngineState := ⟨[], [], [], 0, .new sigOpLimit⟩

def isExecuting (state : EngineState) : Bool := match state.condStack with
  | [] => true
  | cond :: _ => cond = .true

end EngineState

/-- Reads the condition of an `OpIf`: only the empty string and the byte one
are booleans. -/
def popCondition (whenOne whenEmpty : OpCond) (state : EngineState) :
    ScriptResult (OpCond × Stack) :=
  match state.dstack with
  | [] => .error .emptyStack
  | [] :: rest => .ok (whenEmpty, rest)
  | [1] :: rest => .ok (whenOne, rest)
  | _ :: _ => .error (.invalidState "expected boolean")

/-- `OpIf` and `OpNotIf`: a conditional inside a branch that does not run is
skipped as a whole. -/
def openConditional (whenOne whenEmpty : OpCond) (state : EngineState) : ScriptResult EngineState :=
  if state.isExecuting then do
    let (cond, rest) ← popCondition whenOne whenEmpty state
    return { state with dstack := rest, condStack := cond :: state.condStack }
  else
    .ok { state with condStack := .skip :: state.condStack }

def opIf : EngineState → ScriptResult EngineState := openConditional .true .false

def opNotIf : EngineState → ScriptResult EngineState := openConditional .false .true

def opElse (state : EngineState) : ScriptResult EngineState := match state.condStack with
  | [] => .error (.invalidState "condition stack empty")
  | cond :: rest => .ok { state with condStack := cond.negate :: rest }

def opEndIf (state : EngineState) : ScriptResult EngineState := match state.condStack with
  | [] => .error (.invalidState "condition stack empty")
  | _ :: rest => .ok { state with condStack := rest }

/-- The number a byte string of at most eight bytes stands for, or the error
of a longer one. -/
def popU64 (stack : Stack) : ScriptResult (UInt64 × Stack) := do
  let (items, rest) ← stack.popRaw 1
  let bytes := items.getD 0 []
  if bytes.length > 8 then
    .error (.numberTooBig
      s!"lockTime value represented as {debugHexBytes bytes} is longer then 8 bytes")
  else
    return (UInt64.ofNat (leValue bytes), rest)

def engineLockTimeThreshold : UInt64 := 500000000000

def maxTxInSequenceNum : UInt64 := 0xFFFFFFFFFFFFFFFF

def sequenceLockTimeDisabled : UInt64 := 0x8000000000000000

def sequenceLockTimeMask : UInt64 := 0x00000000FFFFFFFF

def opCheckLockTimeVerify (tx : Transaction) (input : TransactionInput)
    (stack : Stack) : ScriptResult Stack := do
  let (stackLockTime, rest) ← popU64 stack
  reject (¬((tx.lockTime < engineLockTimeThreshold ∧ stackLockTime < engineLockTimeThreshold) ∨
      (tx.lockTime ≥ engineLockTimeThreshold ∧ stackLockTime ≥ engineLockTimeThreshold)))
    (.unsatisfiedLockTime
      s!"mismatched locktime types -- tx locktime {tx.lockTime}, stack locktime {stackLockTime}")
  reject (stackLockTime > tx.lockTime) (.unsatisfiedLockTime
    s!"locktime requirement not satisfied -- locktime is greater than the transaction locktime: {stackLockTime} > {tx.lockTime}")
  reject (input.sequence = maxTxInSequenceNum)
    (.unsatisfiedLockTime "transaction input is finalized")
  return rest

def opCheckSequenceVerify (input : TransactionInput) (stack : Stack) : ScriptResult Stack := do
  let (stackSequence, rest) ← popU64 stack
  if stackSequence &&& sequenceLockTimeDisabled ≠ 0 then
    return rest
  else
    reject (input.sequence &&& sequenceLockTimeDisabled ≠ 0) (.unsatisfiedLockTime
      ("transaction sequence has sequence locktime disabled bit set: 0x" ++
        lowerHex input.sequence.toNat))
    let required := stackSequence &&& sequenceLockTimeMask
    let provided := input.sequence &&& sequenceLockTimeMask
    reject (required > provided) (.unsatisfiedLockTime
      s!"locktime requirement not satisfied -- locktime is greater than the transaction locktime: {required} > {provided}")
    return rest

/-- An amount pushed as a number must be an `i64`. -/
def pushAmount (amount : UInt64) (stack : Stack) : ScriptResult Stack :=
  if isI64 amount.toNat then
    stack.pushNumber amount.toNat
  else
    .error (.numberTooBig "out of range integral type conversion attempted")

/-- The version, high byte first, followed by the script. -/
def ScriptPublicKey.toBytes (spk : ScriptPublicKey) : List UInt8 :=
  (leBytes 2 spk.version.toNat).reverse ++ spk.script

/-- Pops a position and looks it up. -/
def popIndexed {α : Type} (items : List α) (error : Int → TxScriptError)
    (stack : Stack) : ScriptResult (α × Stack) := do
  let (index, rest) ← stack.popI32
  match if index < 0 then none else items[index.toNat]? with
  | some item => return (item, rest)
  | none => .error (error index)

/-- An opcode that looks at the spending transaction. -/
structure IntrospectionOpcode where
  name : String
  run : (populated : PopulatedTransaction) → Fin populated.tx.inputs.length → StackOpcode

/-- The introspection opcodes by their code. An output position out of range
is reported with the number of inputs, as the source does. -/
def introspectionOpcodes : List (UInt8 × IntrospectionOpcode) :=
  [(0xb3, ⟨"OpInputCount", fun populated _ stack => stack.pushNumber populated.tx.inputs.length⟩),
    (0xb4, ⟨"OpOutputCount", fun populated _ stack =>
      stack.pushNumber populated.tx.outputs.length⟩),
    (0xb9, ⟨"OpInputIndex", fun _ index stack => stack.pushNumber (index : Nat)⟩),
    (0xbe, ⟨"OpInputAmount", fun populated _ stack => do
      let (entry, rest) ← popIndexed populated.entries
        (.invalidInputIndex · populated.tx.inputs.length) stack
      pushAmount entry.amount rest⟩),
    (0xbf, ⟨"OpInputSpk", fun populated _ stack => do
      let (entry, rest) ← popIndexed populated.entries
        (.invalidInputIndex · populated.tx.inputs.length) stack
      return entry.scriptPublicKey.toBytes :: rest⟩),
    (0xc2, ⟨"OpOutputAmount", fun populated _ stack => do
      let (output, rest) ← popIndexed populated.tx.outputs
        (.invalidOutputIndex · populated.tx.inputs.length) stack
      pushAmount output.value rest⟩),
    (0xc3, ⟨"OpOutputSpk", fun populated _ stack => do
      let (output, rest) ← popIndexed populated.tx.outputs
        (.invalidOutputIndex · populated.tx.inputs.length) stack
      return output.scriptPublicKey.toBytes :: rest⟩)]

variable (hashers : Hashers) (source : ScriptSource)

/-- Checks a signature of the input that is being spent. Returns the verdict
with the counter of checks left. -/
def checkDilithiumSignature (counter : RuntimeSigOpCounter)
    (hashType : SigHashType) (key sig : List UInt8) :
    EngineProgram (Bool × RuntimeSigOpCounter) := do
  let counter ← ofResult counter.consumeSigOp
  match source with
  | .standAloneScripts _ => throw .notATransactionInput
  | .txInput populated index _ =>
    ofResult (reject (sig.length ≠ dilithium2SigSize) (.sigLength sig.length))
    ofResult (reject (key.length ≠ dilithium2VkSize) .pubKeyFormat)
    let valid ← consult {
      key
      message := calcSignatureHash hashers populated index hashType
      signature := sig
    }
    return (valid, counter)

/-- The signature carries its hash type as its last byte. -/
def opCheckSigDilithium (state : EngineState) : EngineProgram EngineState := do
  let (items, rest) ← ofResult (state.dstack.popRaw 2)
  let sig := items.getD 0 []
  match sig.getLast? with
  | none => return { state with dstack := rest.pushBool false }
  | some typ =>
    match SigHashType.fromU8 typ with
    | none => throw (.invalidSigHashType typ)
    | some hashType =>
      let (valid, sigOps) ← checkDilithiumSignature hashers source
        state.sigOps hashType (items.getD 1 []) sig.dropLast
      return { state with dstack := rest.pushBool valid, sigOps }

def multisigDisabled : TxScriptError :=
  .opcodeDisabled "multisig opcodes are disabled in Sophis (PQC-only; build multisig via contracts with Dilithium)"

def signatureOpcodeDisabled (name : String) : TxScriptError :=
  .opcodeDisabled (name ++ " in Sophis (PQC-only; use OP_CHECKSIG_DILITHIUM at 0xc4)")

def reservedCodes : List UInt8 :=
  [0x50, 0x62, 0x65, 0x66, 0x89, 0x8a, 0xb2, 0xb5, 0xb6, 0xb7, 0xb8, 0xba,
    0xbb, 0xbc, 0xbd, 0xc0, 0xc1]

/-- The opcodes that read or write more than the data stack, and those that
always fail. -/
def executeControl (opcode : OpCode) (state : EngineState) : ScriptResult EngineState :=
  let withStack (result : ScriptResult Stack) : ScriptResult EngineState :=
    result.map fun dstack => { state with dstack }
  match opcode.value with
  | 0x63 => opIf state
  | 0x64 => opNotIf state
  | 0x67 => opElse state
  | 0x68 => opEndIf state
  | 0x6a => .error .earlyReturn
  | 0x6b => do
    let (items, rest) ← state.dstack.popRaw 1
    return { state with
      dstack := rest, astack := items.getD 0 [] :: state.astack }
  | 0x6c =>
    match state.astack with
    | [] => .error .emptyStack
    | last :: rest => .ok { state with dstack := last :: state.dstack, astack := rest }
  | 0xa8 => do
    let (items, rest) ← state.dstack.popRaw 1
    return { state with
      dstack := (hashers.sha256 (items.getD 0 [])).bytes :: rest }
  | 0xaa => do
    let (items, rest) ← state.dstack.popRaw 1
    return { state with
      dstack := (hashers.blake2b (items.getD 0 [])).bytes :: rest }
  | 0xa9 => .error multisigDisabled
  | 0xab => .error (signatureOpcodeDisabled "opcode 0xab is reserved")
  | 0xac => .error (signatureOpcodeDisabled "OpCheckSig is disabled")
  | 0xad => .error (signatureOpcodeDisabled "OpCheckSigVerify is disabled")
  | 0xae => .error multisigDisabled
  | 0xaf => .error multisigDisabled
  | 0xb0 =>
    match source with
    | .txInput populated index _ =>
      withStack (opCheckLockTimeVerify populated.tx (populated.tx.inputs.get index) state.dstack)
    | .standAloneScripts _ =>
      .error (.invalidSource "LockTimeVerify only applies to transaction inputs")
  | 0xb1 =>
    match source with
    | .txInput populated index _ =>
      withStack (opCheckSequenceVerify (populated.tx.inputs.get index) state.dstack)
    | .standAloneScripts _ =>
      .error (.invalidSource "LockTimeVerify only applies to transaction inputs")
  | value =>
    match introspectionOpcodes.lookup value, source with
    | some introspection, .txInput populated index _ =>
      withStack (introspection.run populated index state.dstack)
    | some introspection, .standAloneScripts _ =>
      .error (.invalidSource (introspection.name ++ " only applies to transaction inputs"))
    | none, _ =>
      if value ∈ reservedCodes then
        .error (.opcodeReserved opcode.debug)
      else if opcode.isDisabled then
        .error (.opcodeDisabled opcode.debug)
      else
        .error (.invalidOpcode opcode.debug)

def OpCode.execute (opcode : OpCode) (state : EngineState) : EngineProgram EngineState :=
  let withStack (result : ScriptResult Stack) : EngineProgram EngineState :=
    ofResult (result.map fun dstack => { state with dstack })
  if opcode.value ≤ 0x4e then
    withStack (.ok (opcode.data :: state.dstack))
  else if opcode.value = 0x4f then
    withStack (state.dstack.pushNumber (-1))
  else if 0x51 ≤ opcode.value ∧ opcode.value ≤ 0x60 then
    withStack (state.dstack.pushNumber (opcode.value - 0x50).toNat)
  else if opcode.value = 0xc4 then
    opCheckSigDilithium hashers source state
  else
    match stackOpcodes.lookup opcode.value with
    | some stackOpcode => withStack (stackOpcode state.dstack)
    | none => ofResult (executeControl hashers source opcode state)

/-- Pushes are bounded in size, other opcodes in number. -/
def countOpcode (opcode : OpCode) (state : EngineState) : ScriptResult EngineState :=
  if opcode.isPushOpcode then
    if opcode.data.length > maxScriptElementSize then
      .error (.elementTooBig opcode.data.length maxScriptElementSize)
    else
      .ok state
  else if state.numOps + 1 > maxOpsPerScript then
    .error (.tooManyOperations maxOpsPerScript)
  else
    .ok { state with numOps := state.numOps + 1 }

/-- Counts the opcode, checks its push, and runs it unless it lies in a branch
that is not taken. -/
def executeOpcode (opcode : OpCode) (state : EngineState) : EngineProgram EngineState := do
  let state ← ofResult (countOpcode opcode state)
  if state.isExecuting || opcode.isConditional then
    if 0 < opcode.value ∧ opcode.value ≤ 0x4e then
      ofResult opcode.checkMinimalDataPush
    opcode.execute hashers source state
  else
    return state

/-- The checks made on every opcode before it is executed. -/
def checkOpcodeAllowed (verifyOnlyPush : Bool) (opcode : OpCode) : ScriptResult Unit := do
  reject opcode.isDisabled (.opcodeDisabled opcode.debug)
  reject opcode.alwaysIllegal (.opcodeReserved opcode.debug)
  reject (verifyOnlyPush && !opcode.isPushOpcode) .signatureScriptNotPushOnly

/-- The bound on the two stacks after every opcode. -/
def checkStackSize (state : EngineState) : ScriptResult EngineState :=
  let combined := state.astack.length + state.dstack.length
  if combined > maxStackSize then
    .error (.stackSizeExceeded combined maxStackSize)
  else
    .ok state

def executeOpcodes (verifyOnlyPush : Bool) :
    List (ScriptResult OpCode) → EngineState → EngineProgram EngineState
  | [], state => return state
  | parsed :: rest, state => do
    let opcode ← ofResult parsed
    ofResult (checkOpcodeAllowed verifyOnlyPush opcode)
    let state ← executeOpcode hashers source opcode state
    let state ← ofResult (checkStackSize state)
    executeOpcodes verifyOnlyPush rest state

/-- Runs one script. Conditionals must be closed, and the alternative stack
does not outlive the script. -/
def executeScript (script : List UInt8) (verifyOnlyPush : Bool)
    (state : EngineState) : EngineProgram EngineState := do
  let state ← executeOpcodes hashers source verifyOnlyPush (parseScript script) state
  ofResult (reject (state.condStack ≠ []) .errUnbalancedConditional)
  return { state with astack := [], numOps := 0 }

/-- An empty script is not run. -/
def executeUnlessEmpty (script : List UInt8) (verifyOnlyPush : Bool)
    (state : EngineState) : EngineProgram EngineState :=
  if script = [] then
    return state
  else
    executeScript hashers source script verifyOnlyPush state

/-- The scripts that are run together must not all be empty, and each is
bounded in size. -/
def checkScripts (scripts : List (List UInt8)) : ScriptResult Unit := do
  reject (scripts = []) .noScripts
  reject (scripts.all List.isEmpty) .evalFalse
  match scripts.find? (fun script => script.length > maxScriptsSize) with
  | some script => .error (.scriptSize script.length maxScriptsSize)
  | none => .ok ()

/-- The script hash form: `OpBlake2b`, a push of 32 bytes, `OpEqual`. -/
def isPayToScriptHash (script : List UInt8) : Bool :=
  script.length = 35 && byteAt script 0 = 0xaa && byteAt script 1 = 0x20 && byteAt script 34 = 0x87

/-- The top of the stack decides, and at the very end it must be alone. -/
def checkErrorCondition (finalScript : Bool) (state : EngineState) : ScriptResult EngineState := do
  reject (finalScript && 1 < state.dstack.length) (.cleanStack (state.dstack.length - 1))
  reject (finalScript && state.dstack.isEmpty) .emptyStack
  let (result, rest) ← state.dstack.popBool
  reject (!result) .evalFalse
  return { state with dstack := rest }

/-- Runs the redeem script that the signature script pushed last, on the stack
that the signature script left. -/
def executeRedeemScript (saved : Stack) (state : EngineState) : EngineProgram EngineState := do
  let state ← ofResult (checkErrorCondition false state)
  match saved with
  | [] => throw .emptyStack
  | script :: rest => executeScript hashers source script false { state with dstack := rest }

/-- Runs the two scripts of an input that the engine knows how to spend. -/
def executeInput (signatureScript script : List UInt8)
    (sigOpLimit : UInt8) : EngineProgram Unit := do
  ofResult (checkScripts [signatureScript, script])
  let signed ← executeUnlessEmpty hashers source signatureScript true (.new sigOpLimit)
  let locked ← executeUnlessEmpty hashers source script false signed
  let final ← if isPayToScriptHash script then
      executeRedeemScript hashers source signed.dstack locked
    else
      pure locked
  discard (ofResult (checkErrorCondition true final))

/-- Runs scripts that belong to no transaction. -/
def executeStandAlone (scripts : List (List UInt8)) : EngineProgram Unit := do
  ofResult (checkScripts scripts)
  let final ← scripts.foldlM (fun state script =>
      executeUnlessEmpty hashers source script false state)
    (EngineState.new 255)
  discard (ofResult (checkErrorCondition true final))

/-- Runs the engine on its scripts. An entry of an unknown version is
accepted without running anything. -/
def execute : EngineProgram Unit := match source with
  | .txInput populated index entry =>
    if entry.scriptPublicKey.version > maxEngineScriptVersion then
      return ()
    else
      let input := populated.tx.inputs.get index
      executeInput hashers source input.signatureScript
        entry.scriptPublicKey.script input.sigOpCount
  | .standAloneScripts scripts => executeStandAlone hashers source scripts

end Sophis
