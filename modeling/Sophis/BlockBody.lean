import Sophis.Coinbase

namespace Sophis

open ExceptLoop Option

/-!
# Block bodies

Body validation in isolation and in context, as the body processor runs it
before a block may be merged by any other block.
-/

/-- The header fields the modelled rules read. -/
structure Header where
  hash : Hash
  directParents : List Hash
  hashMerkleRoot : MerkleHash
  daaScore : UInt64
  blueScore : UInt64
  deriving Repr, DecidableEq

/-- A header and its transactions, the coinbase first. -/
structure Block where
  header : Header
  transactions : List Transaction
  deriving Repr, DecidableEq

/-- Violations of the block rules. -/
inductive RuleError where
  | missingParents (missing : List Hash)
  | badMerkleRoot (declared calculated : MerkleHash)
  | noTransactions
  | firstTxNotCoinbase
  | multipleCoinbases (index : Nat)
  | badCoinbasePayload (error : CoinbaseError)
  | badCoinbasePayloadBlueScore (declared expected : UInt64)
  | txInIsolationValidationFailed (id : TransactionId) (error : TxRuleError)
  | exceedsComputeMassLimit (mass limit : Nat)
  | exceedsTransientMassLimit (mass limit : Nat)
  | exceedsStorageMassLimit (mass limit : Nat)
  | doubleSpendInSameBlock (outpoint : TransactionOutpoint)
  | chainedTransaction (outpoint : TransactionOutpoint)
  | txInContextFailed (id : TransactionId) (error : TxRuleError)
  | tooManyAltCreationsInBlock (count limit : Nat)
  | wrongSubsidy (expected declared : UInt64)
  | duplicateTransactions (id : TransactionId)
  | badCoinbaseTransaction
  | invalidTransactionsInUtxoContext (invalid total : Nat)
  deriving DecidableEq

/-- A value or a broken block rule. -/
abbrev BlockProcessResult (α : Type) := Except RuleError α

def Block.coinbase? (block : Block) : Option Transaction :=
  block.transactions.head?

def Block.spentOutpoints (block : Block) : List TransactionOutpoint :=
  block.transactions.flatMap fun tx => tx.inputs.map TransactionInput.previousOutpoint

def Transaction.createdOutpoints (hashers : Hashers) (tx : Transaction) :
    List TransactionOutpoint :=
  (List.range tx.outputs.length).map fun index =>
    { transactionId := tx.id hashers, index := UInt32.ofNat index }

def blockRewardData (params : Params) (fees : UInt64) (block : Block) :
    Option BlockRewardData := do
  let coinbase ← block.coinbase?
  match (CoinbaseManager.ofParams params).deserializeCoinbasePayload coinbase.payload with
  | .error _ => none
  | .ok data =>
    some {
      subsidy := data.subsidy
      totalFees := fees
      scriptPublicKey := data.minerData.scriptPublicKey
    }

variable (external : External) (params : Params)

def checkHasTransactions (block : Block) : BlockProcessResult Unit :=
  reject (block.transactions = []) .noTransactions

def checkHashMerkleRoot (block : Block) : BlockProcessResult Unit :=
  let calculated :=
    calcHashMerkleRoot external.toHashers block.transactions
  reject (calculated ≠ block.header.hashMerkleRoot)
    (.badMerkleRoot block.header.hashMerkleRoot calculated)

def checkOnlyOneCoinbase (block : Block) : BlockProcessResult Unit := do
  reject ((block.coinbase?.map Transaction.isCoinbase) ≠ some true) .firstTxNotCoinbase
  match block.transactions.tail.findIdx? Transaction.isCoinbase with
  | some index => .error (.multipleCoinbases index)
  | none => .ok ()

def checkTransactionsInIsolation (block : Block) : BlockProcessResult Unit :=
  forEach (fun _ tx =>
    (validateTxInIsolation external params.transactionValidator tx).mapError
      (.txInIsolationValidationFailed (tx.id external.toHashers)))
    block.transactions

/-- Adds within the 64-bit range. -/
def saturatingMassAdd (total mass : Nat) : Nat :=
  min (total + mass) (2 ^ 64 - 1)

/-- One iteration of the block mass check over the compute, transient and
storage totals. -/
def checkTransactionMass (_ : Nat) (totals : Nat × Nat × Nat)
    (tx : Transaction) : BlockProcessResult (Nat × Nat × Nat) := do
  let (computeMass, transientMass) :=
    params.massCalculator.calcNonContextualMasses external.toHashers tx
  let compute := saturatingMassAdd totals.1 computeMass
  let transient := saturatingMassAdd totals.2.1 transientMass
  let storage := saturatingMassAdd totals.2.2 tx.mass.toNat
  reject (compute > params.maxBlockMass) (.exceedsComputeMassLimit compute params.maxBlockMass)
  reject (transient > params.maxBlockMass)
    (.exceedsTransientMassLimit transient params.maxBlockMass)
  reject (storage > params.maxBlockMass) (.exceedsStorageMassLimit storage params.maxBlockMass)
  return (compute, transient, storage)

def checkBlockMass (block : Block) : BlockProcessResult (Nat × Nat × Nat) :=
  foldEach (checkTransactionMass external params) (0, 0, 0) block.transactions

def checkDuplicateTransactions (block : Block) : BlockProcessResult Unit :=
  rejectDuplicates .duplicateTransactions
    (block.transactions.map (Transaction.id external.toHashers))

def checkBlockDoubleSpends (block : Block) : BlockProcessResult Unit :=
  rejectDuplicates .doubleSpendInSameBlock block.spentOutpoints

def checkNoChainedTransactions (block : Block) : BlockProcessResult Unit :=
  let created :=
    block.transactions.flatMap (Transaction.createdOutpoints external.toHashers)
  forEach (fun _ outpoint =>
    reject (outpoint ∈ created) (.chainedTransaction outpoint))
    block.spentOutpoints

def validateBodyInIsolation (block : Block) :
    BlockProcessResult (Nat × Nat × Nat) := do
  checkHasTransactions block
  checkHashMerkleRoot external block
  checkOnlyOneCoinbase block
  checkTransactionsInIsolation external params block
  let mass ← checkBlockMass external params block
  checkDuplicateTransactions external block
  checkBlockDoubleSpends block
  checkNoChainedTransactions external block
  return mass

section

/-- What a body check reads of the rest of the node. -/
structure BodyContext where
  hasBlockBody : Hash → Bool
  pastMedianTime : BlockProcessResult UInt64

variable (external : External) (params : Params) (context : BodyContext)

def checkParentBodiesExist (block : Block) : BlockProcessResult Unit :=
  let missing := block.header.directParents.filter fun parent => !context.hasBlockBody parent
  reject (missing ≠ []) (.missingParents missing)

/-- The payload must declare the blue score of the block and the subsidy of
its score. Its script public key is not looked at. -/
def checkCoinbaseBlueScoreAndSubsidy (block : Block) :
    BlockProcessResult Unit := do
  let manager := CoinbaseManager.ofParams params
  let payload := (block.coinbase?.map Transaction.payload).getD []
  let data ← (manager.deserializeCoinbasePayload payload).mapError .badCoinbasePayload
  reject (data.blueScore ≠ block.header.blueScore)
    (.badCoinbasePayloadBlueScore data.blueScore block.header.blueScore)
  let expectedSubsidy := manager.calcBlockSubsidy block.header.daaScore
  reject (data.subsidy ≠ expectedSubsidy) (.wrongSubsidy expectedSubsidy data.subsidy)

def checkAltCreationPerBlockCap (block : Block) :
    BlockProcessResult Unit := do
  let creations :=
    (block.transactions.flatMap Transaction.outputs).filter fun output =>
      classifyAltScript output.script = some .creation
  reject (creations.length > maxAltCreationsPerBlock)
    (.tooManyAltCreationsInBlock (maxAltCreationsPerBlock + 1) maxAltCreationsPerBlock)

def lockTimeThreshold : UInt64 := 500000000000

/-- The bound a lock time is compared with: nothing, a score or a time. -/
def lockTimeBound (block : Block) (tx : Transaction) : BlockProcessResult (Option UInt64) :=
  if tx.lockTime = 0 then
    .ok none
  else if tx.lockTime < lockTimeThreshold then
    .ok (some block.header.daaScore)
  else
    some <$> context.pastMedianTime

/-- A transaction is final when its lock time has passed or all its inputs
opt out of it. -/
def checkTxIsFinalized (tx : Transaction) (bound : Option UInt64) : TxResult Unit :=
  match bound with
  | none => .ok ()
  | some bound =>
    if tx.lockTime < bound then
      .ok ()
    else
      forEach (fun index input =>
        reject (input.sequence ≠ 0xFFFFFFFFFFFFFFFF) (.notFinalized index)) tx.inputs

def checkBlockTransactionsInContext (block : Block) : BlockProcessResult Unit :=
  forEach (fun _ tx => do
    let bound ← lockTimeBound context block tx
    (checkTxIsFinalized tx bound).mapError
      (.txInContextFailed (tx.id external.toHashers))) block.transactions

def validateBodyInContext (block : Block) : BlockProcessResult Unit := do
  checkParentBodiesExist context block
  checkCoinbaseBlueScoreAndSubsidy params block
  checkAltCreationPerBlockCap block
  checkBlockTransactionsInContext external context block

def BodyAccepted (block : Block) : Prop :=
  (∃ mass, validateBodyInIsolation external params block = .ok mass) ∧
    validateBodyInContext external params context block = .ok ()

end

variable {external : External} {params : Params} {context : BodyContext}
  {block : Block}

theorem BodyAccepted.coinbase_payload (accepted : BodyAccepted external params context block) :
    ∃ coinbase data, block.coinbase? = some coinbase ∧ coinbase.isCoinbase = true ∧
      (CoinbaseManager.ofParams params).deserializeCoinbasePayload coinbase.payload = .ok data ∧
      data.blueScore = block.header.blueScore ∧
      data.subsidy = (CoinbaseManager.ofParams params).calcBlockSubsidy block.header.daaScore := by
  obtain ⟨⟨mass, isolated⟩, inContext⟩ := accepted
  simp only [validateBodyInIsolation, bind_eq_ok, check_eq_ok] at isolated
  obtain ⟨-, -, oneCoinbase, -⟩ := isolated
  simp only [checkOnlyOneCoinbase, bind_eq_ok, check_eq_ok,
    reject_eq_ok, not_not, map_eq_some_iff] at oneCoinbase
  obtain ⟨⟨coinbase, first, isCoinbase⟩, -⟩ := oneCoinbase
  simp only [validateBodyInContext, bind_eq_ok, check_eq_ok] at inContext
  obtain ⟨-, payloadChecked, -⟩ := inContext
  simp only [checkCoinbaseBlueScoreAndSubsidy, first, map_some, getD_some, bind_eq_ok,
    check_eq_ok, reject_eq_ok, not_not, mapError_eq_ok] at payloadChecked
  obtain ⟨data, parsed, blueScore, subsidy⟩ := payloadChecked
  exact ⟨coinbase, data, first, isCoinbase, parsed, blueScore, subsidy⟩

end Sophis
