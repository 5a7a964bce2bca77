import Sophis.UtxoDiff
import Sophis.UtxoValidation

namespace Sophis

open ByteCodec ExceptLoop FiniteLedger List MachineWord Option

/-!
# The state of a chain block

`calculate_utxo_state` and `verify_expected_utxo_state` of
`virtual_processor/utxo_validation.rs`: which transactions of a mergeset are
accepted, what they do to the unspent outputs and to the contract store, and
when a candidate may join the chain. The two commitments in the header and its
pruning point are not recomputed here; those checks can only reject more
candidates.
-/

/-- What a validation depends on besides the unspent outputs: the contract
side of the node, the choices of the runtime and the verdicts on signatures. -/
structure ValidationEnvironment where
  svm : Option SvmContext
  scheduling : Scheduling
  verify : SigCheck → Bool

/-- A populated transaction and its fee. -/
structure ValidatedTransaction where
  populated : PopulatedTransaction
  calculatedFee : UInt64
  deriving Repr, DecidableEq

def lookupEntries (view : UtxoView) : List TransactionInput → Option (List UtxoEntry)
  | [] => some []
  | input :: rest => do
    let entry ← view input.previousOutpoint
    let entries ← lookupEntries view rest
    return entry :: entries

variable {view : UtxoView} {inputs : List TransactionInput} {entries : List UtxoEntry}

theorem lookupEntries_eq_some_iff : lookupEntries view inputs = some entries ↔ List.Forall₂
    (fun input entry => view input.previousOutpoint = some entry)
    inputs entries := by
  induction inputs generalizing entries with
  | nil =>
    rw [lookupEntries, forall₂_nil_left_iff, Option.some.injEq]
    exact eq_comm
  | cons input rest ih =>
    rw [forall₂_cons_left_iff]
    constructor
    · intro got
      obtain ⟨entry, first, others⟩ := bind_eq_some_iff.mp got
      obtain ⟨tail, remaining, eq⟩ := bind_eq_some_iff.mp others
      cases eq
      exact ⟨entry, tail, first, ih.mp remaining, rfl⟩
    · rintro ⟨entry, tail, first, remaining, rfl⟩
      exact bind_eq_some_iff.mpr ⟨entry, first, bind_eq_some_iff.mpr ⟨tail, ih.mpr remaining, rfl⟩⟩

theorem length_of_lookupEntries (got : lookupEntries view inputs = some entries) :
    entries.length = inputs.length :=
  (lookupEntries_eq_some_iff.mp got).length_eq.symm

def populate (view : UtxoView) (tx : Transaction) : Option PopulatedTransaction :=
  match found : lookupEntries view tx.inputs with
  | none => none
  | some entries => some ⟨tx, entries, length_of_lookupEntries found⟩

variable {tx : Transaction} {populated : PopulatedTransaction}

theorem populate_eq_some_iff : populate view tx = some populated ↔ populated.tx = tx ∧
    lookupEntries view tx.inputs = some populated.entries := by
  rw [populate]
  split
  · next missing => simp [missing]
  · next entries got =>
    constructor
    · rintro eq
      cases eq
      exact ⟨rfl, got⟩
    · rintro ⟨rfl, looked⟩
      cases got.symm.trans looked
      rfl

/-- The spent entries of a populated transaction are in the view. -/
theorem view_of_mem_spentEntries (got : populate view tx = some populated)
    {entry : TransactionOutpoint × UtxoEntry} (mem : entry ∈ populated.spentEntries) :
    view entry.1 = some entry.2 := by
  obtain ⟨rfl, looked⟩ := populate_eq_some_iff.mp got
  obtain ⟨populatedInput, zipped, rfl⟩ := List.mem_map.mp mem
  exact (forall₂_iff_zip.mp (lookupEntries_eq_some_iff.mp looked)).2 zipped

/-- A view that knows more populates a transaction in the same way. -/
theorem populate_mono {larger : UtxoView}
    (extends_ : ∀ key entry, view key = some entry → larger key = some entry)
    (got : populate view tx = some populated) : populate larger tx = some populated := by
  obtain ⟨eq, looked⟩ := populate_eq_some_iff.mp got
  refine populate_eq_some_iff.mpr ⟨eq, lookupEntries_eq_some_iff.mpr ?_⟩
  exact (lookupEntries_eq_some_iff.mp looked).imp fun _ _ => extends_ _ _

section

variable (hashers : Hashers) (params : Params) (environment : ValidationEnvironment)

def validateTransactionInUtxoContext (tx : Transaction) (view : UtxoView)
    (povDaaScore : UInt64) (flags : TxValidationFlags) :
    CheckedResult ValidatedTransaction :=
  match populate view tx with
  | none => .error (.raised .missingTxOutpoints)
  | some populated => do
    let fee ← (validatePopulatedTransactionAndGetFee
      (params.contextualValidator hashers environment.svm) environment.scheduling populated
      povDaaScore flags none).run.evaluate environment.verify
    return ⟨populated, fee⟩

variable {tx : Transaction}

theorem validateTransactionInUtxoContext_eq_ok {hashers : Hashers} {params : Params}
    {environment : ValidationEnvironment} {view : UtxoView} {povDaaScore : UInt64}
    {flags : TxValidationFlags} {validated : ValidatedTransaction}
    (accepted : validateTransactionInUtxoContext hashers params environment tx view
      povDaaScore flags = .ok validated) :
    populate view tx = some validated.populated ∧ (validatePopulatedTransactionAndGetFee
        (params.contextualValidator hashers environment.svm)
        environment.scheduling validated.populated povDaaScore flags
        none).run.evaluate environment.verify =
      .ok validated.calculatedFee := by
  rw [validateTransactionInUtxoContext] at accepted
  cases got : populate view tx with
  | none =>
    rw [got] at accepted
    cases accepted
  | some populated =>
    rw [got] at accepted
    obtain ⟨fee, charged, eq⟩ := bind_eq_ok.mp accepted
    cases eq
    exact ⟨rfl, charged⟩

/-- Keeps the transactions that are valid against a view. All are judged
against the same view, so the order does not matter. -/
def keepValid (view : UtxoView) (povDaaScore : UInt64) (flags : TxValidationFlags) :
    List (Transaction × Nat) → Option (List (ValidatedTransaction × Nat))
  | [] => some []
  | (tx, index) :: rest =>
    match validateTransactionInUtxoContext hashers params environment tx view povDaaScore flags with
    | .error .panicked => none
    | .error (.raised _) => keepValid view povDaaScore flags rest
    | .ok validated => do
      let others ← keepValid view povDaaScore flags rest
      return (validated, index) :: others

/-- Validates the transactions of a block except its coinbase. -/
def validateTransactionsInParallel (txs : List Transaction)
    (view : UtxoView) (povDaaScore : UInt64) (flags : TxValidationFlags) :
    Option (List (ValidatedTransaction × Nat)) :=
  keepValid hashers params environment view povDaaScore flags txs.zipIdx.tail

variable {hashers : Hashers} {params : Params} {environment : ValidationEnvironment}
  {view : UtxoView} {povDaaScore : UInt64} {flags : TxValidationFlags}
  {items : List (Transaction × Nat)} {kept : List (ValidatedTransaction × Nat)}
  (computed : keepValid hashers params environment view povDaaScore flags items = some kept)
include computed

/-- What is kept was validated, and comes in the order of the block. -/
theorem keepValid_spec :
    (kept.map fun accepted => accepted.1.populated.tx).Sublist (items.map Prod.fst) ∧
      ∀ accepted ∈ kept, validateTransactionInUtxoContext hashers params environment
          accepted.1.populated.tx view povDaaScore flags =
        .ok accepted.1 := by
  induction items generalizing kept with
  | nil =>
    cases computed
    exact ⟨List.Sublist.refl _, fun _ mem => absurd mem (by simp)⟩
  | cons item rest ih =>
    obtain ⟨tx, index⟩ := item
    rw [keepValid] at computed
    cases outcome : validateTransactionInUtxoContext hashers params
      environment tx view povDaaScore flags with
    | error failure =>
      rw [outcome] at computed
      cases failure with
      | panicked => cases computed
      | raised error =>
        obtain ⟨ordered, valid⟩ := ih computed
        exact ⟨ordered.cons _, valid⟩
    | ok validated =>
      rw [outcome] at computed
      obtain ⟨others, ran, eq⟩ := bind_eq_some_iff.mp computed
      cases eq
      obtain ⟨ordered, valid⟩ := ih ran
      have own := (populate_eq_some_iff.mp (validateTransactionInUtxoContext_eq_ok outcome).1).1
      constructor
      · simpa [own] using ordered
      · intro accepted mem
        rcases mem_cons.mp mem with rfl | later
        · rwa [own]
        · exact valid accepted later

/-- When nothing is dropped, every transaction was validated. -/
theorem validated_of_keepValid_length (complete : items.length ≤ kept.length)
    (mem : tx ∈ items.map Prod.fst) :
    ∃ validated, validateTransactionInUtxoContext hashers params environment tx view
      povDaaScore flags = .ok validated := by
  obtain ⟨ordered, valid⟩ := keepValid_spec computed
  have all := ordered.eq_of_length_le (by simpa using complete)
  rw [← all] at mem
  obtain ⟨accepted, kept, rfl⟩ := List.mem_map.mp mem
  exact ⟨accepted.1, valid accepted kept⟩

end

variable (hashers : Hashers)

def processContractDeployIfNeeded (store : ContractStore) (tx : Transaction) : ContractStore :=
  if isContractDeploy tx then
    match ContractDeployPayload.tryFromSlice tx.payload with
    | .ok payload => store.deployIfAbsent (hashers.wasmHash payload.wasm) payload.wasm
    | .error _ => store
  else
    store

def processMintPolicyDeployIfNeeded (store : ContractStore) (tx : Transaction) : ContractStore :=
  if isMintPolicyDeploy tx then
    match MintingPolicyPayload.tryFromSlice tx.payload with
    | .ok payload => store.deployIfAbsent (hashers.mintPolicyHash payload.wasm) payload.wasm
    | .error _ => store
  else
    store

/-- Stores the code that an accepted transaction deploys. -/
def processDeploys (store : ContractStore) (tx : Transaction) : ContractStore :=
  processMintPolicyDeployIfNeeded hashers (processContractDeployIfNeeded hashers store tx) tx

/-- The environment after an accepted transaction: the store of the validator
is shared, so later validations see the new code. -/
def ValidationEnvironment.afterDeploys (environment : ValidationEnvironment)
    (tx : Transaction) : ValidationEnvironment :=
  { environment with
    svm := environment.svm.map fun svm =>
      { svm with store := processDeploys hashers svm.store tx } }

section

/-- What was accepted from one merged block, and in which environment. -/
structure MergedAcceptance where
  blockHash : Hash
  environment : ValidationEnvironment
  flags : TxValidationFlags
  transactions : List (ValidatedTransaction × Nat)

/-- What is calculated along the mergeset. -/
structure UtxoProcessingContext where
  environment : ValidationEnvironment
  mergesetDiff : UtxoDiff
  acceptance : List MergedAcceptance
  mergesetRewards : List (Hash × BlockRewardData)

/-- The transactions accepted from the mergeset, the coinbase of the selected
parent aside. -/
def UtxoProcessingContext.accepted (context : UtxoProcessingContext) : List ValidatedTransaction :=
  context.acceptance.flatMap fun merged => merged.transactions.map Prod.fst

def UtxoProcessingContext.reward (context : UtxoProcessingContext)
    (block : Hash) : Option BlockRewardData :=
  (context.mergesetRewards.find? fun reward => reward.1 = block).map Prod.snd

/-- A coinbase as it is applied: with no entries and no fee. -/
def ValidatedTransaction.newCoinbase (tx : Transaction) : Option ValidatedTransaction :=
  if noInputs : tx.isCoinbase = true ∧ tx.inputs = [] then
    some ⟨⟨tx, [], by simp [noInputs.2]⟩, 0⟩
  else
    none

variable (hashers : Hashers) (params : Params)

/-- Applies validated transactions one after the other. -/
def applyAll (povDaaScore : UInt64) : UtxoDiff → List ValidatedTransaction → Option UtxoDiff
  | diff, [] => some diff
  | diff, validated :: rest =>
    match diff.addTransaction hashers validated.populated povDaaScore with
    | .ok next => applyAll povDaaScore next rest
    | .error _ => none

/-- Accepts the validated transactions of one merged block. -/
def mergeValidated (povDaaScore : UInt64) (context : UtxoProcessingContext)
    (merged : Block × TxValidationFlags) (validated : List (ValidatedTransaction × Nat)) :
    Option UtxoProcessingContext := do
  let diff ← applyAll hashers povDaaScore context.mergesetDiff (validated.map Prod.fst)
  let fees ← checkedSum (validated.map fun accepted => accepted.1.calculatedFee)
  let reward ← blockRewardData params fees merged.1
  return {
    environment := validated.foldl (fun current accepted =>
        current.afterDeploys hashers accepted.1.populated.tx)
      context.environment
    mergesetDiff := diff
    acceptance := context.acceptance ++
      [⟨merged.1.header.hash, context.environment, merged.2, validated⟩]
    mergesetRewards := context.mergesetRewards ++ [(merged.1.header.hash, reward)] }

/-- Accepts from one merged block what is valid on top of the blocks before
it. -/
def mergeBlock (base : UtxoView) (povDaaScore : UInt64)
    (context : UtxoProcessingContext) (merged : Block × TxValidationFlags) :
    Option UtxoProcessingContext := do
  let validated ← validateTransactionsInParallel hashers params context.environment
    merged.1.transactions (context.mergesetDiff.compose base) povDaaScore merged.2
  mergeValidated hashers params povDaaScore context merged validated

/-- Computes the state of a block from that of its selected parent: the
coinbase of the selected parent, its transactions without script checks, and
the rest of the mergeset with all checks. -/
def calculateUtxoState (environment : ValidationEnvironment)
    (base : UtxoView) (povDaaScore : UInt64) (selectedParent : Block)
    (mergeset : List Block) : Option UtxoProcessingContext := do
  let coinbase ← selectedParent.coinbase?
  let validated ← ValidatedTransaction.newCoinbase coinbase
  let diff ← applyAll hashers povDaaScore .empty [validated]
  ((selectedParent, .skipScriptChecks) :: mergeset.map fun block => (block, .full)).foldlM
    (mergeBlock hashers params base povDaaScore) ⟨environment, diff, [], []⟩

/-- The coinbase must be the one that rewards the mergeset. -/
def verifyCoinbaseTransaction (coinbase : Transaction) (daaScore : UInt64) (ghostdag : GhostdagData)
    (rewards : Hash → Option BlockRewardData) (nonDaa : List Hash) :
    Except (Failure RuleError) Unit := do
  let manager := CoinbaseManager.ofParams params
  let data ← orPanic (manager.deserializeCoinbasePayload coinbase.payload).toOption
  let expected ← orPanic (manager.expectedCoinbaseTransaction daaScore
    data.minerData ghostdag rewards nonDaa).toOption
  reject (coinbase.hash hashers ≠ expected.tx.hash hashers) (.raised .badCoinbaseTransaction)

/-- Verifies a candidate against its own state: its coinbase and, with all
checks, every other transaction. -/
def verifyExpectedUtxoState (context : UtxoProcessingContext)
    (base : UtxoView) (block : Block) (ghostdag : GhostdagData)
    (nonDaa : List Hash) : Except (Failure RuleError) Unit := do
  let coinbase ← orPanic block.coinbase?
  verifyCoinbaseTransaction hashers params coinbase block.header.daaScore
    ghostdag context.reward nonDaa
  let validated ← orPanic (validateTransactionsInParallel hashers params context.environment
    block.transactions (context.mergesetDiff.compose base) block.header.daaScore .full)
  let total := block.transactions.length - 1
  reject (validated.length < total)
    (.raised (.invalidTransactionsInUtxoContext (total - validated.length) total))

end

/-- A block that may become the next chain block, with its place in the DAG and
the state of the node when it is judged. -/
structure ChainCandidate where
  block : Block
  ghostdag : GhostdagData
  mergeset : List Block
  nonDaa : List Hash
  environment : ValidationEnvironment

/-- The tip of the chain, its unspent outputs, and the environment in which the
transactions of the tip were verified. -/
structure ChainState where
  tip : Block
  utxo : UtxoSet
  verification : ValidationEnvironment

/-- Computes and verifies the state of a candidate on top of a chain. -/
def ChainState.extend (hashers : Hashers) (params : Params)
    (state : ChainState) (candidate : ChainCandidate) :
    Option (UtxoProcessingContext × ChainState) := do
  let context ← calculateUtxoState hashers params candidate.environment state.utxo.lookup
    candidate.block.header.daaScore state.tip candidate.mergeset
  (verifyExpectedUtxoState hashers params context state.utxo.lookup
    candidate.block candidate.ghostdag candidate.nonDaa).toOption
  return (context, ⟨candidate.block, state.utxo.withDiff context.mergesetDiff, context.environment⟩)

variable (external : External) (params : Params)

/-- A candidate with accepted bodies and GHOSTDAG data becomes the next chain
block. -/
structure JoinsChain (state : ChainState) (candidate : ChainCandidate)
    (context : UtxoProcessingContext) (next : ChainState) : Prop where
  bodies : ∀ block ∈ candidate.block :: candidate.mergeset,
    ∃ bodyContext, BodyAccepted external params bodyContext block
  selectedParent_blue : state.tip.header.hash ∈ candidate.ghostdag.mergesetBlues
  blueScore_eq : candidate.block.header.blueScore.toNat = state.tip.header.blueScore.toNat +
    candidate.ghostdag.mergesetBlues.length
  extended : state.extend external.toHashers params candidate = some (context, next)

def genesisCoinbase (payload : List UInt8) : Transaction where
  version := txVersion
  inputs := []
  outputs := []
  lockTime := 0
  subnetworkId := subnetworkIdCoinbase
  gas := 0
  payload := payload
  mass := 0

/-- The chains of verified blocks that start at a genesis block, with all
blocks they are made of. -/
inductive ChainRun : List Block → ChainState → Prop where
  | genesis (header : Header) (payload : List UInt8)
    (environment : ValidationEnvironment)
    (declared : u64At payload 0 = header.blueScore) :
    ChainRun [⟨header, [genesisCoinbase payload]⟩]
      ⟨⟨header, [genesisCoinbase payload]⟩, ∅, environment⟩
  | join {blocks : List Block} {state next : ChainState}
    {candidate : ChainCandidate} {context : UtxoProcessingContext} :
    ChainRun blocks state →
    JoinsChain external params state candidate context next →
    ChainRun (candidate.block :: candidate.mergeset ++ blocks) next

end Sophis
