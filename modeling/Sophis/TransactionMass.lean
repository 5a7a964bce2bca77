import Sophis.AddressLookupTable

namespace Sophis

open MachineWord

/-!
# Transaction mass

The compute, transient and storage masses of `consensus/core/src/mass`. Sizes
of in-memory data are natural numbers; amounts and products that the source
guards against overflow are 64-bit words.
-/

/-- The weights of mass. -/
structure MassCalculator where
  massPerTxByte : Nat
  massPerScriptPubKeyByte : Nat
  massPerSigOp : Nat
  storageMassParameter : UInt64
  deriving Repr, DecidableEq

def transientByteToMassFactor : Nat := 4

def baseAltCreationMass : Nat := 100000

def outpointEstimatedSerializedSize : Nat := 32 + 4

def transactionInputEstimatedSerializedSize (input : TransactionInput) : Nat :=
  outpointEstimatedSerializedSize + 8 + input.signatureScript.length + 8

def transactionOutputEstimatedSerializedSize (output : TransactionOutput) : Nat :=
  8 + 2 + 8 + output.scriptPublicKey.script.length

def transactionEstimatedSerializedSize (tx : Transaction) : Nat :=
  2 + 8 + (tx.inputs.map transactionInputEstimatedSerializedSize).sum +
    8 + (tx.outputs.map transactionOutputEstimatedSerializedSize).sum +
    8 + 20 + 8 + 32 + 8 + tx.payload.length

def altCreationMass (hashers : Hashers) (output : TransactionOutput) : Nat :=
  let script := output.scriptPublicKey.script
  if classifyAltScript script = some .creation then
    match parseAltCreationHeader hashers script with
    | .ok _ => baseAltCreationMass + (script.length - altHeaderLen)
    | .error _ => baseAltCreationMass
  else
    0

/-- The masses that need no unspent outputs: compute and transient. -/
def MassCalculator.calcNonContextualMasses (calculator : MassCalculator)
    (hashers : Hashers) (tx : Transaction) : Nat × Nat :=
  if tx.isCoinbase then
    (0, 0)
  else
    let size := transactionEstimatedSerializedSize tx
    let scriptPublicKeySize := (tx.outputs.map fun output =>
        2 + output.scriptPublicKey.script.length).sum
    let sigOps := (tx.inputs.map fun input => input.sigOpCount.toNat).sum
    let tables := (tx.outputs.map (altCreationMass hashers)).sum
    (size * calculator.massPerTxByte + scriptPublicKeySize * calculator.massPerScriptPubKeyByte +
        sigOps * calculator.massPerSigOp + tables,
      size * transientByteToMassFactor)

/-- The number of storage units an unspent output occupies. -/
def utxoPlurality (scriptPublicKey : ScriptPublicKey) : UInt64 :=
  UInt64.ofNat ((63 + scriptPublicKey.script.length + 99) / 100)

/-- What storage mass reads of an output. -/
structure UtxoCell where
  plurality : UInt64
  amount : UInt64
  deriving Repr, DecidableEq

def UtxoEntry.toCell (entry : UtxoEntry) : UtxoCell where
  plurality := utxoPlurality entry.scriptPublicKey
  amount := entry.amount

def TransactionOutput.toCell (output : TransactionOutput) : UtxoCell where
  plurality := utxoPlurality output.scriptPublicKey
  amount := output.value

/-- Carriers and table creations without value occupy no storage mass. -/
def isZeroValueProtocolOutput (output : TransactionOutput) : Bool := output.value = 0 &&
    (output.scriptPublicKey.version = scriptVersionCarrier ||
      classifyAltScript output.scriptPublicKey.script = some .creation)

def checkedDiv (dividend divisor : UInt64) : Option UInt64 :=
  if divisor = 0 then none else some (dividend / divisor)

/-- The harmonic term `C · p² / amount` of one cell. -/
def harmonicTerm (stormParam : UInt64) (cell : UtxoCell) : Option UInt64 := do
  let once ← checkedMul stormParam cell.plurality
  let twice ← checkedMul once cell.plurality
  checkedDiv twice cell.amount

def harmonicOuts (stormParam : UInt64) : UInt64 × UInt64 → List UtxoCell → Option (UInt64 × UInt64)
  | totals, [] => some totals
  | (plurality, harmonic), cell :: rest => do
    let term ← harmonicTerm stormParam cell
    let harmonic ← checkedAdd harmonic term
    harmonicOuts stormParam (plurality + cell.plurality, harmonic) rest

def saturatingMul (first second : UInt64) : UInt64 :=
  (checkedMul first second).getD (UInt64.ofNat (2 ^ 64 - 1))

def harmonicIns (stormParam : UInt64) : UInt64 → List UtxoCell → Option UInt64
  | total, [] => some total
  | total, cell :: rest => do
    let term ← harmonicTerm stormParam cell
    harmonicIns stormParam (saturatingAdd total term) rest

/-- Whether the inputs are charged by the harmonic formula. -/
def relaxedFormulaPath (outsPlurality : UInt64) (inputs : List UtxoCell) : Bool :=
  if outsPlurality = 1 then
    true
  else if inputs.length > 2 then
    false
  else
    let insPlurality := (inputs.map UtxoCell.plurality).sum
    insPlurality = 1 || (outsPlurality = 2 && insPlurality = 2)

/-- The storage mass of a transaction. The unchecked sum of input amounts is
the one arithmetic step that aborts on overflow. -/
def calcStorageMass (isCoinbase : Bool) (inputs outputs : List UtxoCell)
    (stormParam : UInt64) : Except (Failure Unit) UInt64 := do
  if isCoinbase then
    return 0
  let (outsPlurality, harmonicOuts) ← optional (harmonicOuts stormParam (0, 0) outputs)
  if relaxedFormulaPath outsPlurality inputs then
    let harmonicIns ← optional (harmonicIns stormParam 0 inputs)
    return saturatingSub harmonicOuts harmonicIns
  else
    let insPlurality := (inputs.map UtxoCell.plurality).sum
    let sumIns ← orPanic (checkedSum (inputs.map UtxoCell.amount))
    let meanIns ← optional (checkedDiv sumIns insPlurality)
    let share ← optional (checkedDiv stormParam meanIns)
    return saturatingSub harmonicOuts (saturatingMul insPlurality share)
where
  /-- An incomputable mass is reported, not aborted on. -/
  optional {α : Type} : Option α → Except (Failure Unit) α
    | some value => .ok value
    | none => .error (.raised ())

/-- The storage mass a transaction must commit to. -/
def MassCalculator.calcContextualMasses (calculator : MassCalculator)
    (populated : PopulatedTransaction) : Except (Failure Unit) UInt64 :=
  calcStorageMass populated.tx.isCoinbase (populated.entries.map UtxoEntry.toCell)
    ((populated.tx.outputs.filter fun output =>
      !isZeroValueProtocolOutput output).map TransactionOutput.toCell)
    calculator.storageMassParameter

end Sophis
