import Mathlib.Data.List.AList
import Sophis.ConsensusParams
import Sophis.ContractRuntime
import Sophis.ScriptEngine

namespace Sophis

open ByteCodec ExceptLoop MachineWord OracleProgram

/-!
# Validation against the unspent outputs

`tx_validation_in_utxo_context.rs`: the checks of a transaction whose inputs
have been looked up. Signature verdicts are asked for, as in the script
engine; contracts run through the executor of the validator.
-/

/-- A validator with all it needs to judge a populated transaction. -/
structure ContextualValidator extends TransactionValidator where
  hashers : Hashers
  massCalculator : MassCalculator
  svm : Option SvmContext

def Params.contextualValidator (params : Params) (hashers : Hashers)
    (svm : Option SvmContext) : ContextualValidator where
  toTransactionValidator := params.transactionValidator
  hashers := hashers
  massCalculator := params.massCalculator
  svm := svm

/-- Which checks are made. -/
inductive TxValidationFlags where
  | full
  | skipScriptChecks
  | skipMassCheck
  deriving Repr, DecidableEq

/-- What the source leaves to the runtime: how concurrent input checks
interleave, which of several failures is reported, and in which order a hash
set is walked. -/
structure Scheduling where
  turns : List Nat
  reported : Nat
  tokenOrder : List TokenId → List TokenId
  tokenOrder_perm : ∀ ids, (tokenOrder ids).Perm ids

/-- One check after the other, and sets in the order they are given. -/
def Scheduling.inOrder : Scheduling :=
  ⟨[], 0, id, List.Perm.refl⟩

/-- Results of checks that may abort. -/
abbrev CheckedResult (α : Type) := Except (Failure TxRuleError) α

/-- A coinbase output must be old enough to be spent. -/
def checkInputMaturity (coinbaseMaturity povDaaScore : UInt64) (index : Nat)
    (populatedInput : TransactionInput × UtxoEntry) :
    CheckedResult Unit :=
  let (input, entry) := populatedInput
  if entry.isCoinbase then do
    let matures ← orPanic (checkedAdd entry.blockDaaScore coinbaseMaturity)
    raising (reject (matures > povDaaScore) (.immatureCoinbaseSpend index input.previousOutpoint
      entry.blockDaaScore povDaaScore coinbaseMaturity))
  else
    .ok ()

def checkTransactionCoinbaseMaturity (validator : ContextualValidator)
    (populated : PopulatedTransaction) (povDaaScore : UInt64) :
    CheckedResult Unit :=
  forEach (checkInputMaturity validator.coinbaseMaturity povDaaScore) populated.populatedInputs

def addInputAmount (_ : Nat) (total : UInt64) (entry : UtxoEntry) : TxResult UInt64 :=
  match checkedAdd total entry.amount with
  | none => .error .inputAmountOverflow
  | some newTotal => do
    reject (newTotal > maxSompi) .inputAmountTooHigh
    return newTotal

def checkTransactionInputAmounts (populated : PopulatedTransaction) : TxResult UInt64 :=
  foldEach addInputAmount 0 populated.entries

/-- The outputs must not exceed the inputs. Their sum is not checked for
overflow, so an overflow aborts. -/
def checkTransactionOutputValues (tx : Transaction) (totalIn : UInt64) :
    CheckedResult UInt64 := do
  let totalOut ← orPanic (checkedSum (tx.outputs.map TransactionOutput.value))
  raising (reject (totalIn < totalOut) (.spendTooHigh totalOut totalIn))
  return totalOut

def checkMassCommitment (validator : ContextualValidator)
    (populated : PopulatedTransaction) : CheckedResult Unit := do
  let calculated ← (validator.massCalculator.calcContextualMasses populated).mapError
      fun failure =>
        match failure with
        | .raised () => .raised .massIncomputable
        | .panicked => .panicked
  raising (reject (populated.tx.mass ≠ calculated) (.wrongMass calculated populated.tx.mass))

/-- A word read as a signed number. -/
def asI64 (word : UInt64) : Int :=
  word.toInt64.toInt

/-- A signed result that must fit a word. -/
def checkedI64 (value : Int) : Option Int :=
  if -2 ^ 63 ≤ value ∧ value < 2 ^ 63 then some value else none

/-- A relative lock counts from the score of the entry that is spent. -/
def checkInputSequenceLock (povDaaScore : UInt64) (_ : Nat)
    (populatedInput : TransactionInput × UtxoEntry) :
    CheckedResult Unit :=
  let (input, entry) := populatedInput
  if input.sequence &&& sequenceLockTimeDisabled = sequenceLockTimeDisabled
  then
    .ok ()
  else do
    let relativeLock := asI64 (input.sequence &&& sequenceLockTimeMask)
    let expiry ← orPanic (checkedI64 (asI64 entry.blockDaaScore + relativeLock))
    let lockDaaScore ← orPanic (checkedI64 (expiry - 1))
    raising (reject (lockDaaScore ≥ asI64 povDaaScore) .sequenceLockConditionsAreNotMet)

def checkSequenceLock (populated : PopulatedTransaction)
    (povDaaScore : UInt64) : CheckedResult Unit :=
  forEach (checkInputSequenceLock povDaaScore) populated.populatedInputs

/-- A replacement in the mempool must pay more per unit of mass. -/
def checkFeerateThreshold (fee : UInt64) (massAndFeerateThreshold : Option (UInt64 × Float)) :
    CheckedResult Unit :=
  match massAndFeerateThreshold with
  | none => .ok ()
  | some (contextualMass, feerateThreshold) => do
    if contextualMass = 0 then
      throw .panicked
    raising (reject (fee.toFloat / contextualMass.toFloat ≤ feerateThreshold) .feerateTooLow)

/-- Whether the block that created a table is below the pruning point. -/
def SvmContext.belowHorizon (svm : SvmContext) (entry : AltEntry) : Bool :=
  let pruningPointDaaScore := do
    let pruningPoint ← (← svm.pruningPoint)
    let daaScore ← svm.headersDaaScore
    daaScore pruningPoint
  pruningPointDaaScore.any fun daaScore => entry.creatingDaaScore < daaScore

/-- Whether the validator takes a table as created on the selected chain: its
block is on the stored chain, among the blocks of the current batch, or below
the pruning point. -/
def SvmContext.createdOnChain (svm : SvmContext) (entry : AltEntry) : Bool :=
  match svm.selectedChainStore with
  | none => true
  | some chain =>
    (chain.getByHash entry.creatingBlockHash).isSome ||
      (svm.pendingChainBlocks.contains entry.creatingBlockHash ||
        svm.belowHorizon entry)

/-- A reference must name an existing table and an entry of it. -/
def checkAltReference (svm : SvmContext) (altStore : AltStore)
    (index : Nat) (output : TransactionOutput) : TxResult Unit :=
  if classifyAltScript output.script ≠ some .reference then
    .ok ()
  else do
    let reference ← (parseAltReference output.script).mapError
      fun error => .altReferenceMalformed index error.message
    let dangling := .altReferenceDanglingHandle index (hex reference.handle.bytes)
    match altStore reference.handle with
    | none => throw dangling
    | some entry => do
      reject (!svm.createdOnChain entry) dangling
      reject (entry.entryCount ≤ reference.index.toUInt16)
        (.altReferenceIndexOutOfRange index reference.index entry.entryCount)

/-- Checks every reference, unless the validator has no table store. -/
def checkAltReferences (svm : Option SvmContext) (tx : Transaction) : TxResult Unit :=
  match svm with
  | none => .ok ()
  | some svm =>
    match svm.altStore with
    | none => .ok ()
    | some altStore => forEach (checkAltReference svm altStore) tx.outputs

/-- The debug text of a byte array, with hexadecimal elements. -/
def debugHexList (bytes : List UInt8) : String :=
  let element (byte : UInt8) : String := String.ofList (Nat.toDigits 16 byte.toNat)
  "[" ++ ", ".intercalate (bytes.map element) ++ "]"

variable (hashers : Hashers)

/-- Runs deployed code, which must approve the transaction. -/
def requireApproval (svm : SvmContext) (populated : PopulatedTransaction)
    (povDaaScore : UInt64) (manifest : ContractManifest)
    (contractId : ContractId) (notDeployed : TxRuleError)
    (failed : String → TxRuleError) (rejected : TxRuleError) :
    TxResult Unit :=
  match svm.store contractId with
  | none => .error notDeployed
  | some wasm => do
    let valid ← (svm.runContract hashers populated povDaaScore manifest
      contractId wasm).mapError failed
    reject (!valid) rejected

/-- Deployed code was run and approved. -/
theorem requireApproval_eq_ok_iff {hashers : Hashers} {svm : SvmContext}
    {populated : PopulatedTransaction} {povDaaScore : UInt64} {manifest : ContractManifest}
    {contractId : ContractId} {notDeployed rejected : TxRuleError} {failed : String → TxRuleError} :
    requireApproval hashers svm populated povDaaScore manifest contractId
        notDeployed failed rejected = .ok () ↔
      ∃ wasm, svm.store contractId = some wasm ∧
        svm.runContract hashers populated povDaaScore manifest contractId wasm = .ok true := by
  rw [requireApproval]
  cases kept : svm.store contractId with
  | none => simp
  | some wasm => simp [bind_eq_ok]

def checkContractInput (svm : Option SvmContext)
    (populated : PopulatedTransaction) (entry : UtxoEntry)
    (povDaaScore : UInt64) : TxResult Unit :=
  match svm with
  | none => .error (.svmValidationFailed "sVM not initialised")
  | some svm => do
    let contractData ← (ContractUtxoData.tryFromSlice entry.scriptPublicKey.script).mapError
        fun error => .svmValidationFailed ("malformed contract UTXO: " ++ error.message)
    requireApproval hashers svm populated povDaaScore contractData.manifest contractData.contractId
      (.contractNotDeployed (debugHexList contractData.contractId.bytes)) .svmValidationFailed
      (.svmValidationFailed "contract rejected transaction")

/-- A transfer policy, when the token names one, must approve the spend. -/
def checkTransferPolicy (svm : Option SvmContext)
    (populated : PopulatedTransaction) (tokenData : NativeTokenUtxoData)
    (povDaaScore : UInt64) : TxResult Unit :=
  match tokenData.transferPolicyId with
  | none => .ok ()
  | some policyId =>
    let policy := hex policyId.bytes
    let token := hex tokenData.tokenId.bytes
    match svm with
    | none => .error (.transferPolicyNotDeployed policy)
    | some svm =>
      requireApproval hashers svm populated povDaaScore (policyManifest policyId) policyId
        (.transferPolicyNotDeployed policy) .transferPolicyRejected
        (.transferPolicyRejected s!"token {token} policy {policy} rejected spend")

def mapScriptErr (input : TransactionInput) (error : TxScriptError) :
    TxRuleError :=
  if input.signatureScript = [] then
    .signatureEmpty error
  else
    .signatureInvalid error

def runScriptEngine (populated : PopulatedTransaction)
    (index : Fin populated.tx.inputs.length) (entry : UtxoEntry) :
    SigProgram TxRuleError Unit :=
  mapFailure (mapScriptErr (populated.tx.inputs.get index))
    (execute hashers (.txInput populated index entry))

/-- The entry as which the lock script of a token is run. -/
def NativeTokenUtxoData.lockEntry (tokenData : NativeTokenUtxoData)
    (entry : UtxoEntry) : UtxoEntry :=
  { entry with scriptPublicKey := ⟨0, tokenData.lockScript⟩ }

/-- A token is spent under its lock script and its transfer policy. -/
def checkTokenUtxoSpend (svm : Option SvmContext) (populated : PopulatedTransaction)
    (index : Fin populated.tx.inputs.length) (entry : UtxoEntry)
    (povDaaScore : UInt64) : SigProgram TxRuleError Unit := do
  let tokenData ← ofResult ((NativeTokenUtxoData.tryFromSlice entry.scriptPublicKey.script).mapError
      fun error => .tokenUtxoMalformed index error.message)
  runScriptEngine hashers populated index (tokenData.lockEntry entry)
  ofResult (checkTransferPolicy hashers svm populated tokenData povDaaScore)

/-- The check of one input, by the version of the script it spends. -/
def checkInputScript (svm : Option SvmContext)
    (populated : PopulatedTransaction) (povDaaScore : UInt64)
    (index : Fin populated.tx.inputs.length) :
    SigProgram TxRuleError Unit :=
  let entry := (populated.populatedInput index).2
  if entry.scriptPublicKey.version = scriptVersionContract then
    ofResult (checkContractInput hashers svm populated entry povDaaScore)
  else if entry.scriptPublicKey.version = scriptVersionToken then
    checkTokenUtxoSpend hashers svm populated index entry povDaaScore
  else
    runScriptEngine hashers populated index entry

def inputScriptChecks (svm : Option SvmContext)
    (populated : PopulatedTransaction) (povDaaScore : UInt64) :
    List (SigProgram TxRuleError Unit) :=
  (List.finRange populated.tx.inputs.length).map
    (checkInputScript hashers svm populated povDaaScore)

def checkScriptsSequential (svm : Option SvmContext)
    (populated : PopulatedTransaction) (povDaaScore : UInt64) :
    SigProgram TxRuleError Unit :=
  runEach (inputScriptChecks hashers svm populated povDaaScore)

/-- The checks run to their end here; the source may cut some of them short
once one has failed, which changes no verdict. -/
def checkScriptsParIter (scheduling : Scheduling)
    (svm : Option SvmContext) (populated : PopulatedTransaction)
    (povDaaScore : UInt64) : SigProgram TxRuleError Unit :=
  runConcurrently scheduling.turns scheduling.reported
    (inputScriptChecks hashers svm populated povDaaScore)

def checkScriptsParallelismThreshold : Nat := 1

def checkScriptsWithSvm (scheduling : Scheduling) (svm : Option SvmContext)
    (populated : PopulatedTransaction) (povDaaScore : UInt64) :
    SigProgram TxRuleError Unit :=
  if populated.tx.inputs.length > checkScriptsParallelismThreshold then
    checkScriptsParIter hashers scheduling svm populated povDaaScore
  else
    checkScriptsSequential hashers svm populated povDaaScore

/-- Amounts by token. -/
abbrev TokenTotals := AList fun _ : TokenId => UInt64

def TokenTotals.amount (totals : TokenTotals) (tokenId : TokenId) : UInt64 :=
  (totals.lookup tokenId).getD 0

/-- Adds the amount of a script public key to the total of its token. -/
def addTokenAmount (side : String) (overflow : TxRuleError) (_ : Nat)
    (totals : TokenTotals) (spk : ScriptPublicKey) :
    TxResult TokenTotals :=
  if spk.version ≠ scriptVersionToken then
    .ok totals
  else do
    let data ← (NativeTokenUtxoData.tryFromSlice spk.script).mapError
      fun error => .svmValidationFailed ("malformed token " ++ side ++ " UTXO: " ++ error.message)
    match checkedAdd (totals.amount data.tokenId) data.tokenAmount with
    | none => throw overflow
    | some total => return totals.insert data.tokenId total

def inputTokens (populated : PopulatedTransaction) : TxResult TokenTotals :=
  foldEach (addTokenAmount "input" .inputAmountOverflow) ∅
    (populated.entries.map UtxoEntry.scriptPublicKey)

def outputTokens (tx : Transaction) : TxResult TokenTotals :=
  foldEach (addTokenAmount "output" .outputsValueOverflow) ∅
    (tx.outputs.map TransactionOutput.scriptPublicKey)

/-- A token whose inputs and outputs differ needs the approval of its minting
policy. -/
def checkTokenDelta (hashers : Hashers) (svm : Option SvmContext)
    (populated : PopulatedTransaction) (povDaaScore : UInt64)
    (inputs outputs : TokenTotals) (tokenId : TokenId) : TxResult Unit :=
  let inAmt := inputs.amount tokenId
  let outAmt := outputs.amount tokenId
  let token := hex tokenId.bytes
  if inAmt = outAmt then
    .ok ()
  else
    match svm with
    | none => .error (.mintingPolicyNotDeployed token)
    | some svm =>
      requireApproval hashers svm populated povDaaScore (policyManifest tokenId) tokenId
        (.mintingPolicyNotDeployed token) .mintingPolicyRejected
        (.mintingPolicyRejected s!"token {token}: input={inAmt} output={outAmt}")

def checkTokenConservation (hashers : Hashers) (scheduling : Scheduling)
    (svm : Option SvmContext) (populated : PopulatedTransaction)
    (povDaaScore : UInt64) : TxResult Unit := do
  let inputs ← inputTokens populated
  let outputs ← outputTokens populated.tx
  let allIds := (inputs.keys ++ outputs.keys).dedup
  forEach (fun _ => checkTokenDelta hashers svm populated povDaaScore inputs outputs)
    (scheduling.tokenOrder allIds)

/-- The checks that do not run scripts, and the fee. -/
def checkAmountsAndContext (validator : ContextualValidator)
    (populated : PopulatedTransaction) (povDaaScore : UInt64)
    (flags : TxValidationFlags)
    (massAndFeerateThreshold : Option (UInt64 × Float)) :
    CheckedResult UInt64 := do
  checkTransactionCoinbaseMaturity validator populated povDaaScore
  let totalIn ← raising (checkTransactionInputAmounts populated)
  let totalOut ← checkTransactionOutputValues populated.tx totalIn
  let fee := totalIn - totalOut
  (if flags ≠ .skipMassCheck then
    checkMassCommitment validator populated
  else
    .ok ())
  checkSequenceLock populated povDaaScore
  raising (checkAltReferences validator.svm populated.tx)
  checkFeerateThreshold fee massAndFeerateThreshold
  return fee

/-- The checks that run scripts, contracts and policies. -/
def checkScriptsAndTokens (validator : ContextualValidator)
    (scheduling : Scheduling) (populated : PopulatedTransaction)
    (povDaaScore : UInt64) : SigProgram (Failure TxRuleError) Unit := do
  mapFailure .raised (checkScriptsWithSvm validator.hashers scheduling
    validator.svm populated povDaaScore)
  ofResult (raising (checkTokenConservation validator.hashers scheduling
    validator.svm populated povDaaScore))

def validatePopulatedTransactionAndGetFee (validator : ContextualValidator)
    (scheduling : Scheduling) (populated : PopulatedTransaction)
    (povDaaScore : UInt64) (flags : TxValidationFlags)
    (massAndFeerateThreshold : Option (UInt64 × Float)) :
    SigProgram (Failure TxRuleError) UInt64 := do
  let fee ← ofResult (checkAmountsAndContext validator populated povDaaScore
    flags massAndFeerateThreshold)
  (match flags with
  | .full | .skipMassCheck => checkScriptsAndTokens validator scheduling populated povDaaScore
  | .skipScriptChecks => pure ())
  return fee

variable {populated : PopulatedTransaction}

theorem checkTransactionInputAmounts_sound {total : UInt64}
    (ran : checkTransactionInputAmounts populated = .ok total) :
    total.toNat = exactSum (populated.entries.map UtxoEntry.amount) ∧ total ≤ maxSompi := by
  -- The running total is exact for the entries seen so far.
  refine foldEach_invariant (fun processed sum =>
      sum.toNat = exactSum (processed.map UtxoEntry.amount) ∧ sum ≤ maxSompi)
    ?_ ⟨rfl, by decide⟩ ran
  intro index processed sum entry next exact step
  rw [addInputAmount] at step
  cases added : checkedAdd sum entry.amount with
  | none => simp [added] at step
  | some newTotal =>
    simp only [added, bind_eq_ok, check_eq_ok, reject_eq_ok] at step
    obtain ⟨bounded, eq⟩ := step
    cases eq
    rw [List.map_append, exactSum_append, checkedAdd_eq_some_iff.mp added, exact.1]
    exact ⟨by simp, UInt64.not_lt.mp bounded⟩

theorem checkTransactionOutputValues_sound {tx : Transaction} {totalIn totalOut : UInt64}
    (ran : checkTransactionOutputValues tx totalIn = .ok totalOut) :
    totalOut.toNat = exactSum (tx.outputs.map TransactionOutput.value) ∧ totalOut ≤ totalIn := by
  simp only [checkTransactionOutputValues, bind_eq_ok, check_eq_ok,
    orPanic_eq_ok, raising_eq_ok, reject_eq_ok] at ran
  obtain ⟨sum, summed, covered, eq⟩ := ran
  cases eq
  exact ⟨checkedSum_eq_some_iff.mp summed, UInt64.not_lt.mp covered⟩

variable {validator : ContextualValidator} {povDaaScore fee : UInt64} {flags : TxValidationFlags}
  {threshold : Option (UInt64 × Float)}

theorem checkAmountsAndContext_eq_ok
    (ran : checkAmountsAndContext validator populated povDaaScore flags threshold = .ok fee) :
    ∃ totalIn totalOut, checkTransactionInputAmounts populated = .ok totalIn ∧
      checkTransactionOutputValues populated.tx totalIn = .ok totalOut ∧
      checkAltReferences validator.svm populated.tx = .ok () ∧
      fee = totalIn - totalOut := by
  simp only [checkAmountsAndContext, bind_eq_ok, check_eq_ok, raising_eq_ok] at ran
  obtain ⟨-, totalIn, inputs, totalOut, outputs, -, -, references, -, eq⟩ := ran
  cases eq
  exact ⟨totalIn, totalOut, inputs, outputs, references, rfl⟩

theorem checkAmountsAndContext_of_validated {scheduling : Scheduling} (validated :
      (validatePopulatedTransactionAndGetFee validator scheduling populated
        povDaaScore flags threshold).run.MayReturn (.ok fee)) :
    checkAmountsAndContext validator populated povDaaScore flags threshold = .ok fee := by
  simp only [validatePopulatedTransactionAndGetFee, mayReturn_bind_ok_iff,
    mayReturn_ofResult_iff, mayReturn_pure_fallible_iff] at validated
  obtain ⟨charged, checked, -, -, eq⟩ := validated
  cases eq
  exact checked

/-- The balance of a transaction, over the natural numbers: nothing is created,
both sides stay below the ceiling, every sum over some of the words fits a
word, and the fee is what the outputs leave over. -/
structure PopulatedTransaction.Balanced (populated : PopulatedTransaction)
    (fee : UInt64) : Prop where
  outputs_le_inputs :
    exactSum (populated.tx.outputs.map TransactionOutput.value) ≤
      exactSum (populated.entries.map UtxoEntry.amount)
  inputs_le_maxSompi :
    exactSum (populated.entries.map UtxoEntry.amount) ≤ maxSompi.toNat
  outputs_le_maxSompi :
    exactSum (populated.tx.outputs.map TransactionOutput.value) ≤ maxSompi.toNat
  inputSums_fit : ∀ part, part.Sublist (populated.entries.map UtxoEntry.amount) →
    exactSum part < 2 ^ 64
  outputSums_fit : ∀ part, part.Sublist (populated.tx.outputs.map TransactionOutput.value) →
      exactSum part < 2 ^ 64
  fee_eq : fee.toNat =
    exactSum (populated.entries.map UtxoEntry.amount) -
      exactSum (populated.tx.outputs.map TransactionOutput.value)

private theorem exactSum_fits_of_le_maxSompi {values : List UInt64}
    (bounded : exactSum values ≤ maxSompi.toNat) {part : List UInt64}
    (sublist : part.Sublist values) : exactSum part < 2 ^ 64 :=
  calc exactSum part ≤ exactSum values := exactSum_le_of_sublist sublist
    _ ≤ maxSompi.toNat := bounded
    _ < 2 ^ 64 := by decide

/-- A transaction that passes both validators is balanced, with whatever flags
and whatever the signature checks answer. -/
theorem validated_transaction_balanced (external : External) (validator : ContextualValidator)
    (scheduling : Scheduling) (populated : PopulatedTransaction) (povDaaScore fee : UInt64)
    (flags : TxValidationFlags) (threshold : Option (UInt64 × Float))
    (isolated : validateTxInIsolation external validator.toTransactionValidator
      populated.tx = .ok ())
    (validated : (validatePopulatedTransactionAndGetFee validator scheduling populated
      povDaaScore flags threshold).run.MayReturn (.ok fee)) : populated.Balanced fee := by
  obtain ⟨totalIn, totalOut, inputs, outputs, -, rfl⟩ := checkAmountsAndContext_eq_ok
      (checkAmountsAndContext_of_validated validated)
  obtain ⟨inExact, inBounded⟩ := checkTransactionInputAmounts_sound inputs
  obtain ⟨outExact, covered⟩ := checkTransactionOutputValues_sound outputs
  -- The bound on the outputs comes from isolation, not from this sum.
  have outBounded := exactSum_outputs_le_maxSompi isolated
  have inNat : exactSum (populated.entries.map UtxoEntry.amount) ≤ maxSompi.toNat := by
    rw [← inExact]
    exact UInt64.le_iff_toNat_le.mp inBounded
  exact {
    outputs_le_inputs := by
      rw [← inExact, ← outExact]
      exact UInt64.le_iff_toNat_le.mp covered
    inputs_le_maxSompi := inNat
    outputs_le_maxSompi := outBounded
    inputSums_fit := fun _ => exactSum_fits_of_le_maxSompi inNat
    outputSums_fit := fun _ => exactSum_fits_of_le_maxSompi outBounded
    fee_eq := by rw [UInt64.toNat_sub_of_le _ _ covered, inExact, outExact]
  }

/-- A transaction without a signature script that moves ten thousand coins,
locked by the given script, to an output anyone can spend. -/
def unsignedSpend (spk : ScriptPublicKey) : PopulatedTransaction where
  tx := {
    version := txVersion
    inputs := [⟨⟨zeroHash, 0⟩, [], 0, 0⟩]
    outputs := [⟨999999999000, ⟨0, [0x51]⟩⟩]
    lockTime := 0
    subnetworkId := subnetworkIdNative
    gas := 0
    payload := []
    mass := 0 }
  entries := [⟨1000000000000, spk, 0, false⟩]
  length_entries := rfl

/-- Moving an output that only needs a true top of stack costs a fee of one
thousand, which is what the outputs leave over. -/
theorem unsignedSpend_balanced : (unsignedSpend ⟨0, [0x51]⟩).Balanced 1000 := by
  refine validated_transaction_balanced ⟨.zero, ⟨fun _ => []⟩⟩
    (mainnetParams.contextualValidator .zero none) .inOrder
    (unsignedSpend ⟨0, [0x51]⟩) 1 1000 .full none (by decide +kernel) ?_
  have evaluated : (validatePopulatedTransactionAndGetFee
        (mainnetParams.contextualValidator .zero none) .inOrder
        (unsignedSpend ⟨0, [0x51]⟩) 1 .full none).run.evaluate (fun _ => false) =
      .ok 1000 := by
    decide +kernel
  rw [← evaluated]
  exact mayReturn_evaluate _ _

end Sophis
