import Sophis.ConsensusParams
import Sophis.TransactionHashing

namespace Sophis

open ByteCodec ContractUtxoData Decoder ExceptLoop List

/-!
# How acceptance depends on contract and token identifiers

The borsh data of a contract output and of a token output start with the 32-byte
identifier, and so do their scripts. What does `validate_tx_in_isolation` answer
when it is replaced?
-/

variable {script : List UInt8}

theorem ContractUtxoData.tryFromSlice_replace {data : ContractUtxoData}
    (decoded : tryFromSlice script = .ok data) (id : ContractId) :
    tryFromSlice (id.bytes ++ script.drop 32) = .ok { data with contractId := id } := by
  let fields : Decoder (List UInt8 × ContractManifest) := do
    let datum ← byteVector
    let manifest ← ContractManifest.decoder
    return (datum, manifest)
  have layout : decoder = fixedBytes 32 >>= fun contractId =>
      (fun read => ⟨contractId, read.1, read.2⟩) <$> fields := by
    simp [decoder, fields]
  obtain ⟨kept, read, rfl, replaced⟩ := decodeAll_replace_leading layout decoded
  exact replaced id

theorem NativeTokenUtxoData.tryFromSlice_replace {data : NativeTokenUtxoData}
    (decoded : tryFromSlice script = .ok data) (id : TokenId) :
    tryFromSlice (id.bytes ++ script.drop 32) = .ok { data with tokenId := id } := by
  let fields : Decoder (UInt64 × List UInt8 × Option ContractId) := do
    let tokenAmount ← u64
    let lockScript ← byteVector
    let transferPolicyId ← option (fixedBytes 32)
    return (tokenAmount, lockScript, transferPolicyId)
  have layout : NativeTokenUtxoData.decoder = fixedBytes 32 >>= fun tokenId =>
      (fun read => ⟨tokenId, read.1, read.2.1, read.2.2⟩) <$> fields := by
    simp [NativeTokenUtxoData.decoder, fields]
  obtain ⟨kept, read, rfl, replaced⟩ := decodeAll_replace_leading layout decoded
  exact replaced id

/-- The outputs whose script holds a hash. -/
inductive TransactionOutput.HoldsIdentifier (output : TransactionOutput) : Prop where
  | contract
    (data : ContractUtxoData)
    (version : output.version = scriptVersionContract)
    (decoded : ContractUtxoData.tryFromSlice output.script = .ok data)
  | token
    (data : NativeTokenUtxoData)
    (version : output.version = scriptVersionToken)
    (decoded : NativeTokenUtxoData.tryFromSlice output.script = .ok data)

def TransactionOutput.withIdentifier (id : Hash)
    (output : TransactionOutput) : TransactionOutput where
  value := output.value
  scriptPublicKey := {
    version := output.version
    script := id.bytes ++ output.script.drop 32
  }

def Transaction.withIdentifier (tx : Transaction) (position : Nat) (id : Hash) : Transaction :=
  { tx with
    outputs := tx.outputs.modify position (TransactionOutput.withIdentifier id) }

/-- The kind of lookup table script that the first byte of an identifier
announces. -/
def altKindOf (id : Hash) : Option AltScriptKind := classifyAltScript id.bytes

/-- The identifier that a deployment payload gives to the outputs of a
version. -/
def deployedIdentifier (external : External) (version : UInt16)
    (payload : List UInt8) : Option Hash :=
  if version = scriptVersionContract then
    (ContractDeployPayload.tryFromSlice payload).toOption.map
      fun deployed => external.wasmHash deployed.wasm
  else
    (MintingPolicyPayload.tryFromSlice payload).toOption.map
      fun deployed => external.mintPolicyHash deployed.wasm

variable {output : TransactionOutput}

theorem classifyAltScript_withIdentifier (id : Hash) (output : TransactionOutput) :
    classifyAltScript (output.withIdentifier id).script = altKindOf id := by
  obtain ⟨bytes, size⟩ := id
  cases bytes with
  | nil => cases size
  | cons first rest => rfl

theorem length_script_withIdentifier (id : Hash) (output : TransactionOutput) :
    (output.withIdentifier id).script.length = 32 + (output.script.length - 32) := by
  change (id.bytes ++ output.script.drop 32).length = _
  rw [length_append, id.length_bytes, length_drop]

theorem TransactionOutput.HoldsIdentifier.notCarrier (holds : output.HoldsIdentifier) :
    output.version ≠ scriptVersionCarrier := by
  cases holds with
  | contract _ version _ | token _ version _ =>
    rw [version]
    decide

theorem hasTooBigScriptPublicKey_withIdentifier (validator : TransactionValidator)
    (holds : output.HoldsIdentifier) (id : Hash) :
    hasTooBigScriptPublicKey validator (output.withIdentifier id) = false := by
  have version : (output.withIdentifier id).version = output.version := rfl
  cases holds with
  | contract data contract read => simp [hasTooBigScriptPublicKey, version, contract]
  | token data token read => simp [hasTooBigScriptPublicKey, version, token]

theorem checkTokenOutput_withIdentifier (holds : output.HoldsIdentifier) (first second : Hash)
    (index : Nat) :
    checkTokenOutput index (output.withIdentifier first) =
      checkTokenOutput index (output.withIdentifier second) := by
  cases holds with
  | contract data contract read =>
    have skipped : ∀ id : Hash, (output.withIdentifier id).version ≠ scriptVersionToken := by
      intro id
      change output.version ≠ _
      rw [contract]
      decide
    rw [checkTokenOutput, checkTokenOutput, if_pos (skipped first), if_pos (skipped second)]
  | token data token read =>
    have checked : ∀ id : Hash, ¬ (output.withIdentifier id).version ≠ scriptVersionToken :=
      fun id => not_not.mpr token
    have replaced : ∀ id : Hash, NativeTokenUtxoData.tryFromSlice
          (output.withIdentifier id).script =
        .ok { data with tokenId := id } :=
      fun id => NativeTokenUtxoData.tryFromSlice_replace read id
    rw [checkTokenOutput, checkTokenOutput, if_neg (checked first),
      if_neg (checked second), replaced, replaced]
    rfl

theorem map_modify_eq {α β : Type} {items : List α} {position : Nat} {item : α}
    {replace replace' : α → α} {read : α → β} (found : items[position]? = some item)
    (eq : read (replace item) = read (replace' item)) :
    (items.modify position replace).map read = (items.modify position replace').map read := by
  obtain ⟨inside, rfl⟩ := List.getElem?_eq_some_iff.mp found
  rw [modify_eq_take_cons_drop inside, modify_eq_take_cons_drop inside, map_append, map_append,
    map_cons, map_cons, eq]

section

variable {external : External} {validator : TransactionValidator}
  {tx : Transaction} {position : Nat} {output : TransactionOutput}

theorem isDeploy_withIdentifier (found : tx.outputs[position]? = some output) (version : UInt16)
    (id : Hash) : isDeploy version (tx.withIdentifier position id) = isDeploy version tx := by
  have versions : (tx.withIdentifier position id).outputs.map TransactionOutput.version =
      tx.outputs.map TransactionOutput.version := by
    have replaced : (tx.withIdentifier position id).outputs.map TransactionOutput.version =
        (tx.outputs.modify position fun other => other).map TransactionOutput.version :=
      map_modify_eq found rfl
    rw [replaced]
    exact congrArg _ (modify_id _ _)
  have reads : ∀ outputs : List TransactionOutput,
      (outputs.any fun output => output.version = version) =
        (outputs.map TransactionOutput.version).any (· = version) := by
    intro outputs
    rw [List.any_map]
    rfl
  rw [isDeploy, isDeploy, reads, reads, versions]
  rfl

theorem not_isDeploy_of_mem (mem : output ∈ tx.outputs)
    (plain : isDeploy output.version tx = false) (version : UInt16) :
    isDeploy version tx = false := by
  have present : (tx.outputs.any fun other => other.version = output.version) = true :=
    List.any_eq_true.mpr ⟨output, mem, by simp⟩
  rw [isDeploy, present, Bool.and_true] at plain
  rw [isDeploy, plain, Bool.false_and]

section

variable {first second : Hash} (found : tx.outputs[position]? = some output)
  (holds : output.HoldsIdentifier)

include found holds

theorem checkTransactionOutputsInIsolation_withIdentifier :
    checkTransactionOutputsInIsolation validator (tx.withIdentifier position first) =
      checkTransactionOutputsInIsolation validator (tx.withIdentifier position second) := by
  have counts : ∀ id : Hash, (tx.withIdentifier position id).outputs.length = tx.outputs.length :=
    fun id => length_modify _ _ _
  have sizes : (tx.withIdentifier position first).outputs.map (hasTooBigScriptPublicKey validator) =
      (tx.withIdentifier position second).outputs.map (hasTooBigScriptPublicKey validator) := by
    refine map_modify_eq found ?_
    rw [hasTooBigScriptPublicKey_withIdentifier validator holds first,
      hasTooBigScriptPublicKey_withIdentifier validator holds second]
  have reads : ∀ outputs : List TransactionOutput,
      outputs.findIdx? (hasTooBigScriptPublicKey validator) =
        (outputs.map (hasTooBigScriptPublicKey validator)).findIdx? (fun tooBig => tooBig) := by
    intro outputs
    rw [findIdx?_map]
    rfl
  rw [checkTransactionOutputsInIsolation, checkTransactionOutputsInIsolation,
    checkTransactionOutputsCount, checkTransactionOutputsCount, counts, counts,
    checkTransactionScriptPublicKeys, checkTransactionScriptPublicKeys, reads, reads, sizes]
  rfl

theorem validateCarrierOutputs_withIdentifier :
    validateCarrierOutputs (tx.withIdentifier position first) =
      validateCarrierOutputs (tx.withIdentifier position second) := by
  have skipped : ∀ (id : Hash) index count,
      checkCarrierOutput index count (output.withIdentifier id) = .ok count :=
    fun id index count => if_pos holds.notCarrier
  have loops := foldEachFrom_modify found (fun index count => (skipped first index count).trans
      (skipped second index count).symm) 0 0
  simp only [validateCarrierOutputs, foldEach, Transaction.withIdentifier, loops]

end

section

variable {first second : Hash} (found : tx.outputs[position]? = some output)
  (firstOrdinary : altKindOf first = none)
  (secondOrdinary : altKindOf second = none)

include found firstOrdinary secondOrdinary

theorem checkCoinbaseInIsolation_withIdentifier :
    checkCoinbaseInIsolation validator (tx.withIdentifier position first) =
      checkCoinbaseInIsolation validator (tx.withIdentifier position second) := by
  have counts : ∀ id : Hash, (tx.withIdentifier position id).outputs.length = tx.outputs.length :=
    fun id => length_modify _ _ _
  have eq : ∀ index, checkCoinbaseOutput validator index (output.withIdentifier first) =
      checkCoinbaseOutput validator index (output.withIdentifier second) := by
    intro index
    simp only [checkCoinbaseOutput, classifyAltScript_withIdentifier,
      firstOrdinary, secondOrdinary, length_script_withIdentifier]
    rfl
  have loops := forEachFrom_modify found eq 0
  rw [checkCoinbaseInIsolation, checkCoinbaseInIsolation, counts, counts]
  simp only [forEach, Transaction.withIdentifier, loops]
  rfl

theorem checkTransactionOutputValueRanges_withIdentifier :
    checkTransactionOutputValueRanges (tx.withIdentifier position first) =
      checkTransactionOutputValueRanges (tx.withIdentifier position second) := by
  have eq : ∀ index total, checkOutputValueRange index total (output.withIdentifier first) =
      checkOutputValueRange index total (output.withIdentifier second) := by
    intro index total
    simp only [checkOutputValueRange, classifyAltScript_withIdentifier,
      firstOrdinary, secondOrdinary]
    rfl
  have loops := foldEachFrom_modify found eq 0 0
  simp only [checkTransactionOutputValueRanges, foldEach, Transaction.withIdentifier, loops]

theorem validateAltOutputsAndRefs_withIdentifier :
    validateAltOutputsAndRefs external (tx.withIdentifier position first) =
      validateAltOutputsAndRefs external (tx.withIdentifier position second) := by
  have eq : ∀ index count, checkAltOutput external tx index count (output.withIdentifier first) =
      checkAltOutput external tx index count (output.withIdentifier second) := by
    intro index count
    simp only [checkAltOutput, classifyAltScript_withIdentifier, firstOrdinary, secondOrdinary]
  have loops := foldEachFrom_modify found eq 0 0
  change (foldEachFrom (checkAltOutput external tx) 0 0 (tx.outputs.modify position _) >>= _) = _
  rw [loops]
  rfl

end

theorem validateTxInIsolation_withIdentifier (found : tx.outputs[position]? = some output)
    (holds : output.HoldsIdentifier) (plain : isDeploy output.version tx = false)
    {first second : Hash} (firstOrdinary : altKindOf first = none)
    (secondOrdinary : altKindOf second = none) :
    validateTxInIsolation external validator (tx.withIdentifier position first) =
      validateTxInIsolation external validator (tx.withIdentifier position second) := by
  have inputs : checkTransactionInputsInIsolation validator (tx.withIdentifier position first) =
      checkTransactionInputsInIsolation validator (tx.withIdentifier position second) :=
    rfl
  have noDeploy : ∀ version (id : Hash),
      isDeploy version (tx.withIdentifier position id) = false := by
    intro version id
    rw [isDeploy_withIdentifier found]
    exact not_isDeploy_of_mem (mem_of_getElem? found) plain version
  have scripts : checkTransactionOutputsInIsolation validator (tx.withIdentifier position first) =
      checkTransactionOutputsInIsolation validator (tx.withIdentifier position second) :=
    checkTransactionOutputsInIsolation_withIdentifier found holds
  have carriers : validateCarrierOutputs (tx.withIdentifier position first) =
      validateCarrierOutputs (tx.withIdentifier position second) :=
    validateCarrierOutputs_withIdentifier found holds
  have tokens : validateTokenOutputs (tx.withIdentifier position first) =
      validateTokenOutputs (tx.withIdentifier position second) :=
    forEachFrom_modify found (checkTokenOutput_withIdentifier holds first second) 0
  simp only [validateTxInIsolation, isContractDeploy, isMintPolicyDeploy, noDeploy, inputs, scripts,
    carriers, tokens, checkCoinbaseInIsolation_withIdentifier found firstOrdinary secondOrdinary,
    checkTransactionOutputValueRanges_withIdentifier found firstOrdinary secondOrdinary,
    validateAltOutputsAndRefs_withIdentifier found firstOrdinary secondOrdinary]
  rfl

variable {id : Hash} (found : tx.outputs[position]? = some output)
  (accepted : validateTxInIsolation external validator (tx.withIdentifier position id) = .ok ())

include found

theorem getElem?_withIdentifier :
    (tx.withIdentifier position id).outputs[position]? = some (output.withIdentifier id) := by
  change (tx.outputs.modify position _)[position]? = _
  rw [getElem?_modify, found]
  simp

include accepted

theorem deployedIdentifier_of_accepted (holds : output.HoldsIdentifier)
    (deploys : isDeploy output.version tx = true) :
    deployedIdentifier external output.version tx.payload = some id := by
  rw [← isDeploy_withIdentifier found output.version id] at deploys
  obtain ⟨-, contractDeploy, policyDeploy⟩ := protocolChecks_of_isolated accepted
  have here : output.withIdentifier id ∈ (tx.withIdentifier position id).outputs :=
    mem_of_getElem? (getElem?_withIdentifier found)
  cases holds with
  | contract data contract decoded =>
    rw [contract] at deploys
    obtain ⟨payload, read, -, outputs⟩ := contractOutputs_of_deploy (contractDeploy deploys)
    obtain ⟨kept, readBack, deployed⟩ := outputs _ here contract
    have replaced := readBack.symm.trans (tryFromSlice_replace decoded id)
    cases replaced
    have readPayload : ContractDeployPayload.tryFromSlice tx.payload = .ok payload := read
    rw [deployedIdentifier, if_pos contract, readPayload, show id = _ from deployed.identified]
    rfl
  | token data token decoded =>
    rw [token] at deploys
    obtain ⟨payload, read, outputs⟩ := tokenOutputs_of_deploy (policyDeploy deploys)
    obtain ⟨kept, readBack, deployed⟩ := outputs _ here token
    have replaced := readBack.symm.trans (NativeTokenUtxoData.tryFromSlice_replace decoded id)
    cases replaced
    have readPayload : MintingPolicyPayload.tryFromSlice tx.payload = .ok payload := read
    have notContract : output.version ≠ scriptVersionContract := by
      rw [token]
      decide
    rw [deployedIdentifier, if_neg notContract, readPayload, show id = _ from deployed]
    rfl

theorem altKindOf_ne_reference : altKindOf id ≠ some .reference := by
  intro reference
  have tooShort := (altOutputs_of_accepted (protocolChecks_of_isolated accepted).1 _
    (mem_of_getElem? (getElem?_withIdentifier found))).2
    (by rw [classifyAltScript_withIdentifier, reference])
  rw [length_script_withIdentifier, altReferenceLen] at tooShort
  omega

theorem creation_of_accepted (creation : altKindOf id = some .creation) :
    output.value = 0 ∧ ∃ header, parseAltCreationHeader external.toHashers
      (output.withIdentifier id).script = .ok header :=
  (altOutputs_of_accepted (protocolChecks_of_isolated accepted).1 _
    (mem_of_getElem? (getElem?_withIdentifier found))).1
    (by rw [classifyAltScript_withIdentifier, creation])

end

theorem TransactionOutput.HoldsIdentifier.withIdentifier {output : TransactionOutput}
    (holds : output.HoldsIdentifier) (id : Hash) : (output.withIdentifier id).HoldsIdentifier := by
  cases holds with
  | contract data version read =>
    exact .contract _ version (tryFromSlice_replace read id)
  | token data version read =>
    exact .token _ version (NativeTokenUtxoData.tryFromSlice_replace read id)

/-- How acceptance depends on the identifier of a contract or token output.
Outside deployments all identifiers that do not start with a lookup table byte
get the same answer. In a deployment only the identifier of the deployed code
can be accepted. An identifier that starts with the reference byte is never
accepted, and one that starts with the creation byte only where the whole
script is the creation of a table. -/
theorem identifier_acceptance (external : External) (validator : TransactionValidator)
    (tx : Transaction) (position : Nat) (output : TransactionOutput)
    (found : tx.outputs[position]? = some output) (holds : output.HoldsIdentifier) :
    (∀ id : Hash, (output.withIdentifier id).HoldsIdentifier) ∧
      (isDeploy output.version tx = false → ∀ first second : Hash,
        altKindOf first = none → altKindOf second = none →
          validateTxInIsolation external validator (tx.withIdentifier position first) =
            validateTxInIsolation external validator (tx.withIdentifier position second)) ∧
      ∀ id : Hash, validateTxInIsolation external validator
          (tx.withIdentifier position id) = .ok () →
        (isDeploy output.version tx = true →
          deployedIdentifier external output.version tx.payload = some id) ∧
        altKindOf id ≠ some .reference ∧
        (altKindOf id = some .creation → output.value = 0 ∧
          ∃ header, parseAltCreationHeader external.toHashers
            (output.withIdentifier id).script = .ok header) := by
  refine ⟨holds.withIdentifier, ?_, ?_⟩
  · intro plain first second firstOrdinary secondOrdinary
    exact validateTxInIsolation_withIdentifier found holds plain firstOrdinary secondOrdinary
  · intro id accepted
    exact ⟨deployedIdentifier_of_accepted found accepted holds,
      altKindOf_ne_reference found accepted, creation_of_accepted found accepted⟩

/-- Hashes of zero bytes and a parser that finds no sections. -/
def emptyExternal : External where
  toHashers := Hashers.zero
  parseAll _ := []

/-- A contract output without a datum, with an immutable manifest that
declares nothing. -/
def bareContractOutput : TransactionOutput where
  value := 1000
  scriptPublicKey := {
    version := scriptVersionContract
    script := List.replicate 73 0
  }

def contractPayment (payload : List UInt8) : Transaction where
  version := 0
  inputs := [{
    previousOutpoint := ⟨FixedBytes.replicate 32 7, 0⟩
    signatureScript := []
    sequence := 0
    sigOpCount := 0
  }]
  outputs := [bareContractOutput]
  lockTime := 0
  subnetworkId := subnetworkIdNative
  gas := 0
  payload
  mass := 0

/-- Two ordinary identifiers of the payment. -/
theorem contractPayment_same_verdict :
    validateTxInIsolation emptyExternal mainnetParams.transactionValidator
        ((contractPayment []).withIdentifier 0 (FixedBytes.replicate 32 0)) =
      validateTxInIsolation emptyExternal mainnetParams.transactionValidator
        ((contractPayment []).withIdentifier 0 (FixedBytes.replicate 32 9)) :=
  (identifier_acceptance emptyExternal mainnetParams.transactionValidator
    (contractPayment []) 0 bareContractOutput rfl
    (.contract ⟨zeroHash, [], ⟨zeroHash, .immutable, []⟩⟩ rfl (by decide +kernel))).2.1
      (by decide) _ _ (by decide) (by decide)

/-- The payment is accepted with the zero identifier and rejected with one
that starts with the reference byte. A deployment is accepted with the
identifier of its code and rejected with another one. -/
theorem identifier_changes_acceptance :
    validateTxInIsolation emptyExternal mainnetParams.transactionValidator
        ((contractPayment []).withIdentifier 0 (FixedBytes.replicate 32 0)) = .ok () ∧
      validateTxInIsolation emptyExternal mainnetParams.transactionValidator
          ((contractPayment []).withIdentifier 0 (FixedBytes.replicate 32 0xFD)) =
        .error (.altOutputInLegacyTx 0) ∧
      validateTxInIsolation emptyExternal mainnetParams.transactionValidator
        ((contractPayment [0, 0, 0, 0]).withIdentifier 0 (FixedBytes.replicate 32 0)) = .ok () ∧
      validateTxInIsolation emptyExternal mainnetParams.transactionValidator
        ((contractPayment [0, 0, 0, 0]).withIdentifier 0 (FixedBytes.replicate 32 9)) ≠ .ok () := by
  refine ⟨?_, ?_, ?_, ?_⟩
  · decide +kernel
  · decide +kernel
  · decide +kernel
  · decide +kernel

end Sophis
