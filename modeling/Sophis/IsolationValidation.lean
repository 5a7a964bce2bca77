import Sophis.AddressLookupTable
import Sophis.DataCarrier
import Sophis.WasmModule

namespace Sophis

open ByteCodec ExceptLoop List MachineWord TransactionOutput

/-!
# Transaction validation in isolation

`validate_tx_in_isolation` and the checks it runs, in source order, followed
by what each of them guarantees about the outputs of a transaction.
-/

/-- The parameters of transaction checks. -/
structure TransactionValidator where
  maxTxInputs : Nat
  maxTxOutputs : Nat
  maxSignatureScriptLen : Nat
  maxScriptPublicKeyLen : Nat
  coinbasePayloadScriptPublicKeyMaxLen : UInt8
  coinbaseMaturity : UInt64
  ghostdagK : UInt16
  deriving Repr, DecidableEq

namespace TransactionOutput

def version (output : TransactionOutput) : UInt16 := output.scriptPublicKey.version

def script (output : TransactionOutput) : List UInt8 := output.scriptPublicKey.script

end TransactionOutput

def checkTransactionInputsCount (validator : TransactionValidator)
    (tx : Transaction) : TxResult Unit := do
  reject (tx.isCoinbase = false ∧ tx.inputs = []) .noTxInputs
  reject (tx.inputs.length > validator.maxTxInputs)
    (.tooManyInputs tx.inputs.length validator.maxTxInputs)

def checkTransactionSignatureScripts (validator : TransactionValidator)
    (tx : Transaction) : TxResult Unit :=
  match tx.inputs.findIdx? fun input =>
    input.signatureScript.length > validator.maxSignatureScriptLen with
  | some index => .error (.tooBigSignatureScript index validator.maxSignatureScriptLen)
  | none => .ok ()

def checkTransactionInputsInIsolation (validator : TransactionValidator)
    (tx : Transaction) : TxResult Unit := do
  checkTransactionInputsCount validator tx
  checkTransactionSignatureScripts validator tx

def checkDuplicateTransactionInputs (tx : Transaction) : TxResult Unit :=
  rejectDuplicates (fun _ => .txDuplicateInputs) (tx.inputs.map TransactionInput.previousOutpoint)

/-- The limit an over-long output list is reported with is the input limit, as
in the source. -/
def checkTransactionOutputsCount (validator : TransactionValidator)
    (tx : Transaction) : TxResult Unit :=
  if tx.isCoinbase then
    .ok ()
  else
    reject (tx.outputs.length > validator.maxTxOutputs)
      (.tooManyOutputs tx.outputs.length validator.maxTxInputs)

/-- An output that must respect the general script size limit and does not. -/
def hasTooBigScriptPublicKey (validator : TransactionValidator)
    (output : TransactionOutput) : Bool :=
  output.version ≠ scriptVersionContract && output.version ≠ scriptVersionToken &&
    output.version ≠ scriptVersionCarrier &&
    (classifyAltScript output.script).isNone &&
    output.script.length > validator.maxScriptPublicKeyLen

def checkTransactionScriptPublicKeys (validator : TransactionValidator)
    (tx : Transaction) : TxResult Unit :=
  match tx.outputs.findIdx? (hasTooBigScriptPublicKey validator) with
  | some index => .error (.tooBigScriptPublicKey index validator.maxScriptPublicKeyLen)
  | none => .ok ()

def checkTransactionOutputsInIsolation (validator : TransactionValidator)
    (tx : Transaction) : TxResult Unit := do
  checkTransactionOutputsCount validator tx
  checkTransactionScriptPublicKeys validator tx

/-- Carriers and lookup table scripts are forbidden in a coinbase, and its
scripts are short. -/
def checkCoinbaseOutput (validator : TransactionValidator)
    (index : Nat) (output : TransactionOutput) : TxResult Unit := do
  reject (output.version = scriptVersionCarrier) (.carrierInCoinbase index)
  reject ((classifyAltScript output.script).isSome = true) (.altInCoinbase index)
  reject (output.script.length > validator.coinbasePayloadScriptPublicKeyMaxLen.toNat)
    (.coinbaseScriptPublicKeyTooLong index)

def checkCoinbaseInIsolation (validator : TransactionValidator)
    (tx : Transaction) : TxResult Unit :=
  if tx.isCoinbase then do
    reject (tx.inputs ≠ []) (.coinbaseHasInputs tx.inputs.length)
    reject (tx.mass > 0) .coinbaseNonZeroMassCommitment
    let outputsLimit := validator.ghostdagK.toNat + 2
    reject (tx.outputs.length > outputsLimit)
      (.coinbaseTooManyOutputs tx.outputs.length outputsLimit)
    forEach (checkCoinbaseOutput validator) tx.outputs
  else
    .ok ()

/-- One iteration of the output value check. Carriers and table creations are
skipped; later checks force their value to zero. -/
def checkOutputValueRange (index : Nat) (total : UInt64)
    (output : TransactionOutput) : TxResult UInt64 :=
  if output.version = scriptVersionCarrier then
    .ok total
  else if classifyAltScript output.script = some .creation then
    .ok total
  else do
    reject (output.value = 0) (.txOutZero index)
    reject (output.value > maxSompi) (.txOutTooHigh index)
    match checkedAdd total output.value with
    | none => .error .outputsValueOverflow
    | some newTotal => do
      reject (newTotal > maxSompi) .totalTxOutTooHigh
      return newTotal

def checkTransactionOutputValueRanges (tx : Transaction) : TxResult Unit := do
  let _ ← foldEach checkOutputValueRange 0 tx.outputs

def checkCarrierOutput (index count : Nat) (output : TransactionOutput) : TxResult Nat :=
  if output.version ≠ scriptVersionCarrier then
    .ok count
  else do
    let _ ← (parseCarrierHeader output.script).mapError fun error =>
      .carrierMalformed index error.message
    reject (output.value ≠ 0) (.carrierNonZeroValue index output.value)
    return count + 1

def validateCarrierOutputs (tx : Transaction) : TxResult Unit := do
  let carrierCount ← foldEach checkCarrierOutput 0 tx.outputs
  reject (carrierCount > maxCarrierOutputsPerTx)
    (.tooManyCarrierOutputs carrierCount maxCarrierOutputsPerTx)

def checkAltOutput (external : External) (tx : Transaction)
    (index count : Nat) (output : TransactionOutput) : TxResult Nat :=
  match classifyAltScript output.script with
  | none => .ok count
  | some kind => do
    reject (tx.version < 1) (.altOutputInLegacyTx index)
    match kind with
    | .creation => do
      reject (output.value ≠ 0) (.altCreationNonZeroValue index output.value)
      let _ ← (parseAltCreationHeader external.toHashers output.script).mapError
          fun error => .altCreationMalformed index error.message
      return count + 1
    | .reference => do
      let _ ← (parseAltReference output.script).mapError fun error =>
        .altReferenceMalformed index error.message
      return count

def validateAltOutputsAndRefs (external : External) (tx : Transaction) : TxResult Unit := do
  let creationCount ← foldEach (checkAltOutput external tx) 0 tx.outputs
  reject (creationCount > maxAltCreationsPerTx)
    (.tooManyAltCreations creationCount maxAltCreationsPerTx)

def checkGas (tx : Transaction) : TxResult Unit := reject (tx.gas > 0) .txHasGas

def checkTransactionSubnetwork (tx : Transaction) : TxResult Unit :=
  reject (tx.isCoinbase = false ∧ tx.isNative = false) (.subnetworksDisabled tx.subnetworkId)

def checkTransactionVersion (tx : Transaction) : TxResult Unit :=
  reject (tx.version > maxTxVersion) (.unknownTxVersion tx.version)

variable (external : External)

/-- A native transaction with a payload and an output of the given
version. -/
def isDeploy (version : UInt16) (tx : Transaction) : Bool := tx.isNative && !tx.payload.isEmpty &&
    tx.outputs.any fun output => output.version = version

def isContractDeploy (tx : Transaction) : Bool := isDeploy scriptVersionContract tx

def isMintPolicyDeploy (tx : Transaction) : Bool := isDeploy scriptVersionToken tx

def checkDeployedContractOutput (wasm : List UInt8)
    (expectedId : ContractId) (index : Nat) (output : TransactionOutput) :
    TxResult Unit :=
  if output.version ≠ scriptVersionContract then
    .ok ()
  else do
    let contractData ← (ContractUtxoData.tryFromSlice output.script).mapError fun error =>
        .svmValidationFailed s!"output {index} malformed ContractUtxoData: {error.message}"
    reject (contractData.contractId ≠ expectedId) (.svmValidationFailed
      s!"output {index} contract_id mismatch: expected {hex expectedId.bytes}, got {hex contractData.contractId.bytes}")
    reject (contractData.manifest.upgradePolicy.isValid = false) (.svmValidationFailed
      s!"output {index} invalid upgrade policy: timelock must be >= {upgradeMinBlocks} blocks; multisig threshold must be 1..=keys.len() with at most 16 keys")
    (validateImportsAgainstManifest external.toWasmParser wasm
      contractData.manifest.requiredCapabilities).mapError fun error =>
        .svmValidationFailed s!"output {index} imports/manifest mismatch: {error.message}"

def validateContractDeploy (tx : Transaction) : TxResult Unit := do
  let payload ← (ContractDeployPayload.tryFromSlice tx.payload).mapError fun error =>
      .svmValidationFailed s!"invalid deploy payload: {error.message}"
  (validateBytecode external.toWasmParser payload.wasm maxBytecodeSize).mapError fun error =>
    .svmValidationFailed s!"invalid WASM: {error.message}"
  forEach (checkDeployedContractOutput external payload.wasm
    (external.wasmHash payload.wasm)) tx.outputs

/-- Decodes a token output and checks the length of its lock script. -/
def checkTokenLockScript (index : Nat) (tokenData : NativeTokenUtxoData) : TxResult Unit :=
  reject (tokenData.lockScript.length > maxTokenLockScriptLen) (.tokenUtxoMalformed index
    s!"lock_script {tokenData.lockScript.length} bytes exceeds max {maxTokenLockScriptLen}")

def checkDeployedTokenOutput (expectedId : TokenId) (index : Nat)
    (output : TransactionOutput) : TxResult Unit :=
  if output.version ≠ scriptVersionToken then
    .ok ()
  else do
    let tokenData ← (NativeTokenUtxoData.tryFromSlice output.script).mapError fun error =>
        .tokenUtxoMalformed index error.message
    reject (tokenData.tokenId ≠ expectedId) (.svmValidationFailed
      s!"output {index} token_id mismatch: expected {hex expectedId.bytes}, got {hex tokenData.tokenId.bytes}")
    checkTokenLockScript index tokenData

def validateMintPolicyDeploy (tx : Transaction) : TxResult Unit := do
  let payload ← (MintingPolicyPayload.tryFromSlice tx.payload).mapError fun error =>
      .svmValidationFailed s!"invalid mint policy payload: {error.message}"
  (validateBytecode external.toWasmParser payload.wasm maxBytecodeSize).mapError fun error =>
    .svmValidationFailed s!"invalid minting policy WASM: {error.message}"
  forEach (checkDeployedTokenOutput (external.mintPolicyHash payload.wasm)) tx.outputs

def checkTokenOutput (index : Nat) (output : TransactionOutput) : TxResult Unit :=
  if output.version ≠ scriptVersionToken then
    .ok ()
  else do
    let tokenData ← (NativeTokenUtxoData.tryFromSlice output.script).mapError fun error =>
        .tokenUtxoMalformed index error.message
    checkTokenLockScript index tokenData

def validateTokenOutputs (tx : Transaction) : TxResult Unit := forEach checkTokenOutput tx.outputs

def validateTxInIsolation (external : External)
    (validator : TransactionValidator) (tx : Transaction) :
    TxResult Unit := do
  checkTransactionInputsInIsolation validator tx
  checkTransactionOutputsInIsolation validator tx
  checkCoinbaseInIsolation validator tx
  checkTransactionOutputValueRanges tx
  checkDuplicateTransactionInputs tx
  checkGas tx
  checkTransactionSubnetwork tx
  checkTransactionVersion tx
  validateCarrierOutputs tx
  validateAltOutputsAndRefs external tx
  if isContractDeploy tx then
    validateContractDeploy external tx
  if isMintPolicyDeploy tx then
    validateMintPolicyDeploy external tx
  else
    validateTokenOutputs tx

section

/-- Outputs whose value the range check adds up. -/
def TransactionOutput.isCounted (output : TransactionOutput) : Bool :=
  output.version ≠ scriptVersionCarrier && classifyAltScript output.script ≠ some .creation

def countedValues (outputs : List TransactionOutput) : List UInt64 :=
  (outputs.filter TransactionOutput.isCounted).map TransactionOutput.value

variable {output : TransactionOutput}

theorem checkOutputValueRange_of_not_isCounted (skipped : output.isCounted = false) (index : Nat)
    (total : UInt64) : checkOutputValueRange index total output = .ok total := by
  unfold checkOutputValueRange
  by_cases carrier : output.version = scriptVersionCarrier
  · rw [if_pos carrier]
  · have creation : classifyAltScript output.script = some .creation := by
      simpa [isCounted, carrier] using skipped
    rw [if_neg carrier, if_pos creation]

theorem checkOutputValueRange_of_isCounted (counted : output.isCounted = true) (index : Nat)
    (total next : UInt64) :
    checkOutputValueRange index total output = .ok next ↔ output.value ≠ 0 ∧
      next.toNat = total.toNat + output.value.toNat ∧
      next ≤ maxSompi := by
  simp only [isCounted, ne_eq, decide_not,
    Bool.and_eq_true, Bool.not_eq_true', decide_eq_false_iff_not] at counted
  rw [checkOutputValueRange, if_neg counted.1, if_neg counted.2]
  simp only [bind_eq_ok, check_eq_ok, reject_eq_ok, gt_iff_lt, UInt64.not_lt]
  constructor
  · rintro ⟨pos, -, added⟩
    cases sum : checkedAdd total output.value with
    | none => simp [sum] at added
    | some newTotal =>
      simp only [sum, bind_eq_ok, check_eq_ok, reject_eq_ok, UInt64.not_lt] at added
      obtain ⟨bounded, ran⟩ := added
      cases ran
      exact ⟨pos, checkedAdd_eq_some_iff.mp sum, bounded⟩
  · rintro ⟨pos, exact, bounded⟩
    have valueBounded : output.value ≤ maxSompi := by
      rw [UInt64.le_iff_toNat_le] at bounded ⊢
      omega
    refine ⟨pos, valueBounded, ?_⟩
    rw [checkedAdd_eq_some_iff.mpr exact]
    simp only [bind_eq_ok, check_eq_ok, reject_eq_ok, UInt64.not_lt]
    exact ⟨bounded, rfl⟩

theorem foldEachFrom_checkOutputValueRange_eq_ok_iff (start : Nat) (total : UInt64)
    (totalBounded : total ≤ maxSompi) (outputs : List TransactionOutput) :
    (∃ final, foldEachFrom checkOutputValueRange start total outputs = .ok final) ↔
      (∀ output ∈ outputs, output.isCounted = true → output.value ≠ 0) ∧
        total.toNat + exactSum (countedValues outputs) ≤ maxSompi.toNat := by
  induction outputs generalizing start total with
  | nil => simpa [foldEachFrom, countedValues, UInt64.le_iff_toNat_le] using totalBounded
  | cons output rest ih =>
    simp only [foldEachFrom, bind_eq_ok]
    by_cases counted : output.isCounted = true
    · have values : countedValues (output :: rest) = output.value :: countedValues rest := by
        simp [countedValues, counted]
      simp only [checkOutputValueRange_of_isCounted counted, values,
        exactSum_cons, forall_mem_cons, counted, forall_const]
      constructor
      · rintro ⟨final, next, ⟨pos, exact, bounded⟩, ran⟩
        obtain ⟨restPositive, restBounded⟩ := (ih (start + 1) next bounded).mp ⟨final, ran⟩
        exact ⟨⟨pos, restPositive⟩, by omega⟩
      · rintro ⟨⟨pos, restPositive⟩, sumBounded⟩
        have nextFits : total.toNat + output.value.toNat < 2 ^ 64 := by
          have ceiling : maxSompi.toNat < 2 ^ 64 := maxSompi.toNat_lt
          omega
        have exact : (total + output.value).toNat = total.toNat + output.value.toNat := by
          rw [UInt64.toNat_add, Nat.mod_eq_of_lt nextFits]
        have bounded : total + output.value ≤ maxSompi := by
          rw [UInt64.le_iff_toNat_le, exact]
          omega
        obtain ⟨final, ran⟩ := (ih (start + 1) (total + output.value)
            bounded).mpr ⟨restPositive, by omega⟩
        exact ⟨final, total + output.value, ⟨pos, exact, bounded⟩, ran⟩
    · have skipped : output.isCounted = false := by simpa using counted
      have values : countedValues (output :: rest) = countedValues rest := by
        simp [countedValues, skipped]
      simp only [checkOutputValueRange_of_not_isCounted skipped, values, forall_mem_cons, skipped,
        Except.ok.injEq, exists_eq_left', Bool.false_eq_true, false_implies, true_and]
      exact ih (start + 1) total totalBounded

theorem checkTransactionOutputValueRanges_eq_ok_iff (tx : Transaction) :
    checkTransactionOutputValueRanges tx = .ok () ↔
      (∀ output ∈ tx.outputs, output.isCounted = true → output.value ≠ 0) ∧
        exactSum (countedValues tx.outputs) ≤ maxSompi.toNat := by
  have loop := foldEachFrom_checkOutputValueRange_eq_ok_iff 0 0 (by decide) tx.outputs
  simp only [UInt64.toNat_zero, Nat.zero_add] at loop
  rw [← loop, checkTransactionOutputValueRanges, bind_eq_ok]
  constructor
  · rintro ⟨final, ran, -⟩
    exact ⟨final, ran⟩
  · rintro ⟨final, ran⟩
    exact ⟨final, ran, rfl⟩

variable {tx : Transaction}

theorem carrier_value_eq_zero (accepted : validateCarrierOutputs tx = .ok ()) :
    ∀ output ∈ tx.outputs, output.version = scriptVersionCarrier → output.value = 0 := by
  rw [validateCarrierOutputs, bind_eq_ok] at accepted
  obtain ⟨carrierCount, counted, -⟩ := accepted
  refine forall_of_foldEach ?_ counted
  intro index count output next checked carrier
  rw [checkCarrierOutput, if_neg (not_not.mpr carrier)] at checked
  simp only [bind_eq_ok, check_eq_ok, reject_eq_ok, not_not] at checked
  obtain ⟨-, -, zero, -⟩ := checked
  exact zero

variable {external : External}

theorem altOutputs_of_accepted (accepted : validateAltOutputsAndRefs external tx = .ok ()) :
    ∀ output ∈ tx.outputs, (classifyAltScript output.script = some .creation → output.value = 0 ∧
        ∃ header, parseAltCreationHeader external.toHashers output.script = .ok header) ∧
      (classifyAltScript output.script = some .reference →
        output.script.length = altReferenceLen) := by
  rw [validateAltOutputsAndRefs, bind_eq_ok] at accepted
  obtain ⟨creationCount, counted, -⟩ := accepted
  refine forall_of_foldEach (fun index count output next checked => ⟨fun creation => ?_,
    fun reference => ?_⟩) counted
  · rw [checkAltOutput, creation] at checked
    simp only [bind_eq_ok, check_eq_ok, reject_eq_ok, mapError_eq_ok, not_not] at checked
    obtain ⟨-, zero, header, parsed, -⟩ := checked
    exact ⟨zero, header, parsed⟩
  · rw [checkAltOutput, reference] at checked
    simp only [bind_eq_ok, check_eq_ok, reject_eq_ok, mapError_eq_ok, parseAltReference,
      not_not] at checked
    obtain ⟨-, -, ⟨exact, -⟩, -⟩ := checked
    exact exact

theorem exactSum_countedValues (carriers : validateCarrierOutputs tx = .ok ())
    (tables : validateAltOutputsAndRefs external tx = .ok ()) :
    exactSum (countedValues tx.outputs) = exactSum (tx.outputs.map value) := by
  have zero : ∀ output ∈ tx.outputs, output.isCounted = false → output.value = 0 := by
    intro output mem skipped
    by_cases carrier : output.version = scriptVersionCarrier
    · exact carrier_value_eq_zero carriers output mem carrier
    · refine ((altOutputs_of_accepted tables output mem).1 ?_).1
      simpa [isCounted, carrier] using skipped
  generalize tx.outputs = outputs at zero
  induction outputs with
  | nil => rfl
  | cons output rest ih =>
    have tail := ih (forall_mem_cons.mp zero).2
    by_cases counted : output.isCounted = true
    · simpa [countedValues, counted] using tail
    · have skipped : output.isCounted = false := by simpa using counted
      have valueZero := zero output (by simp) skipped
      simpa [countedValues, skipped, valueZero] using tail

theorem exactSum_outputs_le_maxSompi {validator : TransactionValidator}
    (accepted : validateTxInIsolation external validator tx = .ok ()) :
    exactSum (tx.outputs.map value) ≤ maxSompi.toNat := by
  simp only [validateTxInIsolation, bind_eq_ok, check_eq_ok] at accepted
  obtain ⟨-, -, -, ranges, -, -, -, -, carriers, tables, -⟩ := accepted
  rw [← exactSum_countedValues carriers tables]
  exact ((checkTransactionOutputValueRanges_eq_ok_iff tx).mp ranges).2

end

/-- A token script holds well-formed token data with a short lock script;
other scripts are not looked at. -/
def ScriptPublicKey.tokenAccepted (spk : ScriptPublicKey) : Bool :=
  if spk.version ≠ scriptVersionToken then
    true
  else
    match NativeTokenUtxoData.tryFromSlice spk.script with
    | .error _ => false
    | .ok tokenData => tokenData.lockScript.length ≤ maxTokenLockScriptLen

theorem checkTokenOutput_eq_ok_iff (index : Nat) (output : TransactionOutput) :
    checkTokenOutput index output = .ok () ↔ output.scriptPublicKey.tokenAccepted = true := by
  unfold checkTokenOutput ScriptPublicKey.tokenAccepted
  change _ ↔ (if output.version ≠ scriptVersionToken then true else
    match NativeTokenUtxoData.tryFromSlice output.script with
    | .error _ => false
    | .ok tokenData => decide (tokenData.lockScript.length ≤ maxTokenLockScriptLen)) = true
  by_cases token : output.version ≠ scriptVersionToken
  · rw [if_pos token, if_pos token]
    simp
  · rw [if_neg token, if_neg token]
    cases NativeTokenUtxoData.tryFromSlice output.script with
    | error error => simp [Except.mapError]
    | ok tokenData => simp [Except.mapError, checkTokenLockScript]

/-- A coinbase output that passes every check of its own. -/
structure CoinbaseOutputAccepted (validator : TransactionValidator)
    (output : TransactionOutput) : Prop where
  notCarrier : output.version ≠ scriptVersionCarrier
  notAlt : classifyAltScript output.script = none
  short : output.script.length ≤ validator.coinbasePayloadScriptPublicKeyMaxLen.toNat
  withinLimit : hasTooBigScriptPublicKey validator output = false
  positive : output.value ≠ 0
  token : output.scriptPublicKey.tokenAccepted = true

private theorem checkTransactionScriptPublicKeys_eq_ok_iff (validator : TransactionValidator)
    (tx : Transaction) :
    checkTransactionScriptPublicKeys validator tx = .ok () ↔ ∀ output ∈ tx.outputs,
      hasTooBigScriptPublicKey validator output = false := by
  rw [← findIdx?_eq_none_iff, checkTransactionScriptPublicKeys]
  cases tx.outputs.findIdx? (hasTooBigScriptPublicKey validator) with
  | none => simp
  | some index => simp

variable {validator : TransactionValidator} {tx : Transaction}

private theorem checkCoinbaseInIsolation_eq_ok_iff (coinbase : tx.isCoinbase = true)
    (noInputs : tx.inputs = []) (noMass : tx.mass = 0) :
    checkCoinbaseInIsolation validator tx = .ok () ↔
      tx.outputs.length ≤ validator.ghostdagK.toNat + 2 ∧ ∀ output ∈ tx.outputs,
        output.version ≠ scriptVersionCarrier ∧ classifyAltScript output.script = none ∧
          output.script.length ≤ validator.coinbasePayloadScriptPublicKeyMaxLen.toNat := by
  have each : ∀ index (output : TransactionOutput),
      checkCoinbaseOutput validator index output = .ok () ↔ output.version ≠ scriptVersionCarrier ∧
        classifyAltScript output.script = none ∧
        output.script.length ≤ validator.coinbasePayloadScriptPublicKeyMaxLen.toNat := by
    intro index output
    simp only [checkCoinbaseOutput, bind_eq_ok, check_eq_ok, reject_eq_ok, Bool.not_eq_true,
      Option.isSome_eq_false_iff, Option.isNone_iff_eq_none, gt_iff_lt, Nat.not_lt, ne_eq]
  rw [checkCoinbaseInIsolation, if_pos coinbase]
  simp [bind_eq_ok, noInputs, noMass, forEach_eq_ok_iff_forall each]

private theorem protocolOutputs_accepted (external : External)
    (ordinary : ∀ output ∈ tx.outputs, output.version ≠ scriptVersionCarrier ∧
      classifyAltScript output.script = none) :
    validateCarrierOutputs tx = .ok () ∧ validateAltOutputsAndRefs external tx = .ok () := by
  have carriers : foldEach checkCarrierOutput 0 tx.outputs = .ok 0 := foldEachFrom_unchanged
      (fun index output mem => if_pos (ordinary output mem).1) 0
  have tables : foldEach (checkAltOutput external tx) 0 tx.outputs = .ok 0 := foldEachFrom_unchanged
      (fun index output mem => by
        rw [checkAltOutput, (ordinary output mem).2]) 0
  rw [validateCarrierOutputs, validateAltOutputsAndRefs, carriers, tables]
  exact ⟨rfl, rfl⟩

/-- The isolation rules of a coinbase that has the shape of a built one: a
bounded number of outputs, each acceptable on its own, and a bounded total. -/
theorem validateTxInIsolation_coinbase_eq_ok_iff {external : External}
    (coinbase : tx.isCoinbase = true) (noInputs : tx.inputs = []) (noMass : tx.mass = 0)
    (noGas : tx.gas = 0) (version : tx.version = txVersion) :
    validateTxInIsolation external validator tx = .ok () ↔
      tx.outputs.length ≤ validator.ghostdagK.toNat + 2 ∧ (∀ output ∈ tx.outputs,
          CoinbaseOutputAccepted validator output) ∧
        exactSum (tx.outputs.map value) ≤ maxSompi.toNat := by
  have notNative := Transaction.isNative_eq_false_of_isCoinbase coinbase
  have inputs : checkTransactionInputsInIsolation validator tx = .ok () := by
    simp [checkTransactionInputsInIsolation, checkTransactionInputsCount,
      checkTransactionSignatureScripts, coinbase, noInputs, bind_eq_ok]
  have outputsCount : checkTransactionOutputsCount validator tx = .ok () := if_pos coinbase
  have duplicates : checkDuplicateTransactionInputs tx = .ok () := by
    rw [checkDuplicateTransactionInputs, rejectDuplicates_eq_ok_iff]
    simp [noInputs]
  have gas : checkGas tx = .ok () := by simp [checkGas, noGas]
  have subnetwork : checkTransactionSubnetwork tx = .ok () := by
    simp [checkTransactionSubnetwork, coinbase]
  have known : checkTransactionVersion tx = .ok () := by
    simp only [checkTransactionVersion, version, reject_eq_ok]
    decide
  have noContract : isContractDeploy tx = false := by simp [isContractDeploy, isDeploy, notNative]
  have noPolicy : isMintPolicyDeploy tx = false := by simp [isMintPolicyDeploy, isDeploy, notNative]
  have tokens : validateTokenOutputs tx = .ok () ↔ ∀ output ∈ tx.outputs,
      output.scriptPublicKey.tokenAccepted = true :=
    forEach_eq_ok_iff_forall checkTokenOutput_eq_ok_iff tx.outputs
  have split : validateTxInIsolation external validator tx = .ok () ↔
      checkTransactionScriptPublicKeys validator tx = .ok () ∧
        checkCoinbaseInIsolation validator tx = .ok () ∧
        checkTransactionOutputValueRanges tx = .ok () ∧
        validateCarrierOutputs tx = .ok () ∧
        validateAltOutputsAndRefs external tx = .ok () ∧
        validateTokenOutputs tx = .ok () := by
    simp [validateTxInIsolation, checkTransactionOutputsInIsolation, bind_eq_ok, inputs,
      outputsCount, duplicates, gas, subnetwork, known, noContract, noPolicy]
  rw [split, checkTransactionScriptPublicKeys_eq_ok_iff,
    checkCoinbaseInIsolation_eq_ok_iff coinbase noInputs noMass,
    checkTransactionOutputValueRanges_eq_ok_iff, tokens]
  constructor
  · rintro ⟨limits, ⟨count, ordinary⟩, ⟨pos, bounded⟩, carriers, tables, tokenScripts⟩
    refine ⟨count, ?_, ?_⟩
    · intro output mem
      obtain ⟨notCarrier, notAlt, short⟩ := ordinary output mem
      have counted : output.isCounted = true := by
        simp [isCounted, notCarrier, notAlt]
      exact {
        notCarrier
        notAlt
        short
        withinLimit := limits output mem
        positive := pos output mem counted
        token := tokenScripts output mem
      }
    · rwa [← exactSum_countedValues carriers tables]
  · rintro ⟨count, accepted, bounded⟩
    have ordinary : ∀ output ∈ tx.outputs, output.version ≠ scriptVersionCarrier ∧
        classifyAltScript output.script = none :=
      fun output mem => ⟨(accepted output mem).notCarrier, (accepted output mem).notAlt⟩
    obtain ⟨carriers, tables⟩ := protocolOutputs_accepted external ordinary
    refine ⟨fun output mem => (accepted output mem).withinLimit, ⟨count, fun output mem =>
        ⟨(accepted output mem).notCarrier, (accepted output mem).notAlt,
          (accepted output mem).short⟩⟩,
      ⟨fun output mem _ => (accepted output mem).positive, ?_⟩,
      carriers, tables,
      fun output mem => (accepted output mem).token⟩
    rwa [exactSum_countedValues carriers tables]

variable {external : External} {validator : TransactionValidator} {tx : Transaction}

/-- What holds of an accepted transaction. -/
structure OrdinaryShape (validator : TransactionValidator) (tx : Transaction) : Prop where
  notCoinbase : tx.isCoinbase = false
  inputs_nonempty : tx.inputs ≠ []
  inputs_bounded : tx.inputs.length ≤ validator.maxTxInputs
  outputs_bounded : tx.outputs.length ≤ validator.maxTxOutputs
  inputs_distinct : (tx.inputs.map TransactionInput.previousOutpoint).Nodup

/-- What holds of an accepted coinbase. -/
structure CoinbaseShape (validator : TransactionValidator) (tx : Transaction) : Prop where
  isCoinbase : tx.isCoinbase = true
  noInputs : tx.inputs = []
  outputs_bounded : tx.outputs.length ≤ validator.ghostdagK.toNat + 2
  scripts_short : ∀ output ∈ tx.outputs, output.script.length ≤
    validator.coinbasePayloadScriptPublicKeyMaxLen.toNat

section

variable (isolated : validateTxInIsolation external validator tx = .ok ())
include isolated

theorem ordinaryShape_of_isolated (ordinary : tx.isCoinbase = false) :
    OrdinaryShape validator tx := by
  simp only [validateTxInIsolation, bind_eq_ok, check_eq_ok] at isolated
  obtain ⟨inputs, outputs, -, -, nodup, -⟩ := isolated
  simp only [checkTransactionInputsInIsolation, bind_eq_ok, check_eq_ok] at inputs
  have inputCount := inputs.1
  simp only [checkTransactionInputsCount, bind_eq_ok, check_eq_ok, reject_eq_ok] at inputCount
  simp only [checkTransactionOutputsInIsolation, bind_eq_ok, check_eq_ok] at outputs
  have outputCount := outputs.1
  rw [checkTransactionOutputsCount, if_neg (by simp [ordinary]), reject_eq_ok] at outputCount
  exact {
    notCoinbase := ordinary
    inputs_nonempty := fun empty => inputCount.1 ⟨ordinary, empty⟩
    inputs_bounded := Nat.not_lt.mp inputCount.2
    outputs_bounded := Nat.not_lt.mp outputCount
    inputs_distinct := (rejectDuplicates_eq_ok_iff _).mp nodup
  }

theorem coinbaseShape_of_isolated (coinbase : tx.isCoinbase = true) :
    CoinbaseShape validator tx := by
  simp only [validateTxInIsolation, bind_eq_ok, check_eq_ok] at isolated
  obtain ⟨-, -, checkedCoinbase, -⟩ := isolated
  rw [checkCoinbaseInIsolation, if_pos coinbase] at checkedCoinbase
  simp only [bind_eq_ok, check_eq_ok, reject_eq_ok, ne_eq, not_not] at checkedCoinbase
  obtain ⟨noInputs, -, bounded, outputs⟩ := checkedCoinbase
  refine {
    isCoinbase := coinbase
    noInputs
    outputs_bounded := Nat.not_lt.mp bounded
    scripts_short := ?_ }
  intro output mem
  obtain ⟨offset, got⟩ := mem_iff_getElem?.mp mem
  have ok := (forEachFrom_eq_ok_iff 0 tx.outputs).mp outputs offset output got
  simp only [checkCoinbaseOutput, bind_eq_ok, check_eq_ok, reject_eq_ok] at ok
  exact Nat.not_lt.mp ok.2.2

/-- The checks of protocol outputs that an accepted transaction has passed. -/
theorem protocolChecks_of_isolated :
    validateAltOutputsAndRefs external tx = .ok () ∧ (isContractDeploy tx = true →
        validateContractDeploy external tx = .ok ()) ∧
      (isMintPolicyDeploy tx = true → validateMintPolicyDeploy external tx = .ok ()) := by
  simp only [validateTxInIsolation, bind_eq_ok, check_eq_ok] at isolated
  obtain ⟨-, -, -, -, -, -, -, -, -, tables, deploys⟩ := isolated
  refine ⟨tables, ?_⟩
  by_cases contract : isContractDeploy tx = true
  · rw [if_pos contract, bind_eq_ok, check_eq_ok] at deploys
    refine ⟨fun _ => deploys.1, fun policy => ?_⟩
    rw [if_pos policy] at deploys
    exact deploys.2
  · rw [if_neg contract] at deploys
    refine ⟨fun deployed => (contract deployed).elim, fun policy => ?_⟩
    rwa [if_pos policy] at deploys

end

/-- What the checks establish about a deployed contract. -/
structure DeployedContract (external : External) (wasm : List UInt8)
    (data : ContractUtxoData) : Prop where
  identified : data.contractId = external.wasmHash wasm
  upgradeable : data.manifest.upgradePolicy.isValid = true
  declared : validateImportsAgainstManifest external.toWasmParser wasm
    data.manifest.requiredCapabilities = .ok ()

/-- The contract outputs of an accepted deployment name the deployed code. -/
theorem contractOutputs_of_deploy (passed : validateContractDeploy external tx = .ok ()) :
    ∃ payload, ContractDeployPayload.tryFromSlice tx.payload = .ok payload ∧
      validateBytecode external.toWasmParser payload.wasm maxBytecodeSize = .ok () ∧
      ∀ output ∈ tx.outputs, output.version = scriptVersionContract →
        ∃ data, ContractUtxoData.tryFromSlice output.script = .ok data ∧
          DeployedContract external payload.wasm data := by
  rw [validateContractDeploy, bind_eq_ok] at passed
  obtain ⟨payload, read, checked⟩ := passed
  rw [bind_eq_ok, check_eq_ok] at checked
  refine ⟨payload, mapError_eq_ok.mp read, mapError_eq_ok.mp checked.1, ?_⟩
  intro output mem contract
  obtain ⟨index, got⟩ := mem_iff_getElem?.mp mem
  have matched := (forEachFrom_eq_ok_iff 0 _).mp checked.2 index output got
  rw [checkDeployedContractOutput, if_neg (not_not.mpr contract), bind_eq_ok] at matched
  obtain ⟨data, decoded, checks⟩ := matched
  simp only [bind_eq_ok, check_eq_ok, reject_eq_ok, not_not,
    mapError_eq_ok, Bool.not_eq_false] at checks
  obtain ⟨identified, upgradeable, declared⟩ := checks
  exact ⟨data, mapError_eq_ok.mp decoded, ⟨identified, upgradeable, declared⟩⟩

/-- The token outputs of an accepted policy deployment name the deployed
policy. -/
theorem tokenOutputs_of_deploy (passed : validateMintPolicyDeploy external tx = .ok ()) :
    ∃ payload, MintingPolicyPayload.tryFromSlice tx.payload = .ok payload ∧
      ∀ output ∈ tx.outputs, output.version = scriptVersionToken →
        ∃ data, NativeTokenUtxoData.tryFromSlice output.script = .ok data ∧
          data.tokenId = external.mintPolicyHash payload.wasm := by
  rw [validateMintPolicyDeploy, bind_eq_ok] at passed
  obtain ⟨payload, read, checked⟩ := passed
  rw [bind_eq_ok, check_eq_ok] at checked
  refine ⟨payload, mapError_eq_ok.mp read, ?_⟩
  intro output mem token
  obtain ⟨index, got⟩ := mem_iff_getElem?.mp mem
  have matched := (forEachFrom_eq_ok_iff 0 _).mp checked.2 index output got
  rw [checkDeployedTokenOutput, if_neg (not_not.mpr token), bind_eq_ok] at matched
  obtain ⟨data, decoded, checks⟩ := matched
  rw [bind_eq_ok, check_eq_ok, reject_eq_ok, not_not] at checks
  exact ⟨data, mapError_eq_ok.mp decoded, checks.1⟩

end Sophis
