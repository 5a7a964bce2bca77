import Sophis.ByteCodec
import Sophis.MachineWord

namespace Sophis

open ByteCodec

/-!
# Transactions, unspent outputs and rule errors

The data types of `consensus/core/src/tx.rs` with the constants and error
enumerations the validators use. The identifier of a transaction is a
function of its other fields and is computed in `TransactionHashing`; the
cached copy the source keeps next to them is not stored here.
-/

/-- Block and transaction hashes. -/
abbrev Hash := FixedBytes 32

/-- The hash by which outpoints name a transaction. -/
abbrev TransactionId := Hash

/-- SHA3-384 digests. -/
abbrev Sha3Digest := FixedBytes 48

/-- Nodes of hash trees. -/
abbrev MerkleHash := FixedBytes 48

/-- The hash functions the node uses. They are third-party code, so every
result is about an arbitrary choice of them. -/
structure Hashers where
  sha3 : List UInt8 → Sha3Digest
  wasmHash : List UInt8 → Hash
  mintPolicyHash : List UInt8 → Hash
  transactionIdHash : List UInt8 → Hash
  transactionHash : List UInt8 → Hash
  transactionSigningHash : List UInt8 → Hash
  merkleBranchHash : List UInt8 → MerkleHash
  sha256 : List UInt8 → FixedBytes 32
  blake2b : List UInt8 → FixedBytes 32

/-- The subnetwork of a transaction. -/
abbrev SubnetworkId := FixedBytes 20

namespace SubnetworkId

/-- The subnetwork whose first byte is given and whose other bytes are
zero. -/
def fromByte (byte : UInt8) : SubnetworkId where
  bytes := byte :: List.replicate 19 0
  length_bytes := rfl

end SubnetworkId

def subnetworkIdNative : SubnetworkId := SubnetworkId.fromByte 0

def subnetworkIdCoinbase : SubnetworkId := SubnetworkId.fromByte 1

def txVersion : UInt16 := 0

def maxTxVersion : UInt16 := 1

def scriptVersionStandard : UInt16 := 0

def scriptVersionContract : UInt16 := 1

def scriptVersionToken : UInt16 := 2

def bridgeVaultVersion : UInt16 := 3

def bridgeClaimVersion : UInt16 := 4

def scriptVersionCarrier : UInt16 := 5

/-- The latest allocated script version. -/
def maxScriptPublicKeyVersion : UInt16 := 5

/-- The number of base units in one coin. -/
def sompiPerSophis : UInt64 := 100000000

def maxSompi : UInt64 := 210000000 * sompiPerSophis

/-- A versioned locking script. -/
structure ScriptPublicKey where
  version : UInt16
  script : List UInt8
  deriving Repr, DecidableEq

/-- A position in the output list of a transaction. -/
structure TransactionOutpoint where
  transactionId : TransactionId
  index : UInt32
  deriving Repr, DecidableEq

/-- An output as it stands in the set of unspent outputs. -/
structure UtxoEntry where
  amount : UInt64
  scriptPublicKey : ScriptPublicKey
  blockDaaScore : UInt64
  isCoinbase : Bool
  deriving Repr, DecidableEq

/-- A spent outpoint and its signature script. -/
structure TransactionInput where
  previousOutpoint : TransactionOutpoint
  signatureScript : List UInt8
  sequence : UInt64
  sigOpCount : UInt8
  deriving Repr, DecidableEq

/-- An amount and its locking script. -/
structure TransactionOutput where
  value : UInt64
  scriptPublicKey : ScriptPublicKey
  deriving Repr, DecidableEq

/-- A transaction. `mass` is the committed storage mass. -/
structure Transaction where
  version : UInt16
  inputs : List TransactionInput
  outputs : List TransactionOutput
  lockTime : UInt64
  subnetworkId : SubnetworkId
  gas : UInt64
  payload : List UInt8
  mass : UInt64
  deriving Repr, DecidableEq

namespace Transaction

/-- A coinbase transaction is recognised by its subnetwork. -/
def isCoinbase (tx : Transaction) : Bool := tx.subnetworkId == subnetworkIdCoinbase

/-- An ordinary transaction is recognised by its subnetwork. -/
def isNative (tx : Transaction) : Bool := tx.subnetworkId == subnetworkIdNative

/-- No transaction is both a coinbase and native. -/
theorem isNative_eq_false_of_isCoinbase {tx : Transaction} (coinbase : tx.isCoinbase = true) :
    tx.isNative = false := by
  have identity : tx.subnetworkId = subnetworkIdCoinbase := by simpa [isCoinbase] using coinbase
  rw [isNative, identity]
  decide

end Transaction

/-- A transaction with the outputs it spends. -/
structure PopulatedTransaction where
  tx : Transaction
  entries : List UtxoEntry
  length_entries : entries.length = tx.inputs.length
  deriving Repr, DecidableEq

namespace PopulatedTransaction

def populatedInputs (populated : PopulatedTransaction) : List (TransactionInput × UtxoEntry) :=
  populated.tx.inputs.zip populated.entries

def populatedInput (populated : PopulatedTransaction) (index : Fin populated.tx.inputs.length) :
    TransactionInput × UtxoEntry :=
  (populated.tx.inputs.get index, populated.entries.get (index.cast populated.length_entries.symm))

@[simp] theorem populatedInputs_map_snd (populated : PopulatedTransaction) :
    populated.populatedInputs.map Prod.snd = populated.entries :=
  List.map_snd_zip (Nat.le_of_eq populated.length_entries)

end PopulatedTransaction

/-- Why a script fails. -/
inductive TxScriptError where
  | malformedPushSize (bytes : List UInt8)
  | malformedPush (required remaining : Nat)
  | invalidInputIndex (index : Int) (limit : Nat)
  | stackSizeExceeded (size limit : Nat)
  | invalidOpcode (description : String)
  | opcodeReserved (description : String)
  | opcodeDisabled (description : String)
  | emptyStack
  | cleanStack (remaining : Nat)
  | evalFalse
  | earlyReturn
  | verifyError
  | invalidState (description : String)
  | tooManyOperations (limit : Nat)
  | notATransactionInput
  | elementTooBig (size limit : Nat)
  | notMinimalData (description : String)
  | invalidSource (description : String)
  | unsatisfiedLockTime (description : String)
  | numberTooBig (description : String)
  | invalidSigHashType (byte : UInt8)
  | pubKeyFormat
  | sigLength (length : Nat)
  | noScripts
  | signatureScriptNotPushOnly
  | errUnbalancedConditional
  | invalidStackOperation (required available : Nat)
  | scriptSize (size limit : Nat)
  | invalidOutputIndex (index : Int) (limit : Nat)
  | numberTooLong (number : Int)
  | exceededSigOpLimit (limit : UInt8)
  deriving Repr, DecidableEq

/-- Why a transaction is refused. -/
inductive TxRuleError where
  | noTxInputs
  | txDuplicateInputs
  | txHasGas
  | unknownTxVersion (version : UInt16)
  | tooManyInputs (count limit : Nat)
  | tooManyOutputs (count limit : Nat)
  | tooBigSignatureScript (index limit : Nat)
  | tooBigScriptPublicKey (index limit : Nat)
  | notFinalized (index : Nat)
  | coinbaseHasInputs (count : Nat)
  | coinbaseTooManyOutputs (count limit : Nat)
  | coinbaseScriptPublicKeyTooLong (index : Nat)
  | coinbaseNonZeroMassCommitment
  | immatureCoinbaseSpend
    (index : Nat) (outpoint : TransactionOutpoint)
    (entryDaaScore povDaaScore coinbaseMaturity : UInt64)
  | inputAmountOverflow
  | inputAmountTooHigh
  | txOutZero (index : Nat)
  | txOutTooHigh (index : Nat)
  | outputsValueOverflow
  | totalTxOutTooHigh
  | spendTooHigh (totalOut totalIn : UInt64)
  | sequenceLockConditionsAreNotMet
  | missingTxOutpoints
  | signatureInvalid (error : TxScriptError)
  | signatureEmpty (error : TxScriptError)
  | massIncomputable
  | wrongMass (calculated committed : UInt64)
  | subnetworksDisabled (subnetwork : SubnetworkId)
  | feerateTooLow
  | contractNotDeployed (contract : String)
  | svmValidationFailed (reason : String)
  | tokenUtxoMalformed (index : Nat) (reason : String)
  | tokenConservationViolated (token : String) (inputs outputs : UInt64)
  | mintingPolicyNotDeployed (policy : String)
  | mintingPolicyRejected (reason : String)
  | transferPolicyNotDeployed (policy : String)
  | transferPolicyRejected (reason : String)
  | carrierMalformed (index : Nat) (reason : String)
  | carrierNonZeroValue (index : Nat) (value : UInt64)
  | tooManyCarrierOutputs (count limit : Nat)
  | carrierInCoinbase (index : Nat)
  | altCreationMalformed (index : Nat) (reason : String)
  | altCreationNonZeroValue (index : Nat) (value : UInt64)
  | altReferenceMalformed (index : Nat) (reason : String)
  | tooManyAltCreations (count limit : Nat)
  | altOutputInLegacyTx (index : Nat)
  | altInCoinbase (index : Nat)
  | altReferenceDanglingHandle (index : Nat) (handle : String)
  | altReferenceIndexOutOfRange (index : Nat) (entry : UInt8) (count : UInt16)
  deriving Repr, DecidableEq

/-- A value or a broken rule. -/
abbrev TxResult (α : Type) := Except TxRuleError α

end Sophis
