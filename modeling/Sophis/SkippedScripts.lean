import Sophis.ContractExecutions
import Sophis.TokenSupply

namespace Sophis

open ByteCodec ExceptLoop FiniteLedger List Option OracleProgram

/-!
# Validation without scripts on top of a verified block

`calculate_utxo_state` takes the transactions of the selected parent without
running their scripts, because the selected parent was verified before. It was
verified at its own DAA score and with the stores of that moment.
-/

variable {external : External} {params : Params} {blocks : List Block}
  {state : ChainState} {history : List Transaction} {povDaaScore : UInt64}
  {view : UtxoView}

/-- The unspent outputs against which a block on top of the tip validates the
transactions of the tip: those of the tip and its coinbase. -/
def ChainState.childView (hashers : Hashers) (state : ChainState)
    (povDaaScore : UInt64) : Option UtxoView := do
  let coinbase ← state.tip.coinbase?
  let validated ← ValidatedTransaction.newCoinbase coinbase
  let diff ← applyAll hashers povDaaScore .empty [validated]
  return diff.compose state.utxo.lookup

theorem ChainRun.tip_payload (run : ChainRun external params blocks state) {tx : Transaction}
    (mem : tx ∈ state.tip.transactions.tail) {coinbase : Transaction}
    (first : state.tip.coinbase? = some coinbase) : 8 ≤ coinbase.payload.length := by
  cases run with
  | genesis header payload environment declared => exact absurd mem not_mem_nil
  | join prior joins =>
    obtain ⟨-, rfl, -⟩ := ChainState.extend_eq_some joins.extended
    obtain ⟨bodyContext, ok⟩ := joins.bodies _ mem_cons_self
    obtain ⟨other, data, isFirst, -, parsed, -⟩ := ok.coinbase_payload
    cases isFirst.symm.trans first
    exact (blueScore_of_deserialized parsed).1

theorem ChainInvariant.childView_extends {hashers : Hashers}
    (inv : ChainInvariant hashers params blocks state history) (fits : params.CountsFitWords)
    (free : hashers.CollisionFree (blocks.flatMap Block.transactions))
    (payload : ∀ coinbase, state.tip.coinbase? = some coinbase → 8 ≤ coinbase.payload.length)
    (onTop : state.childView hashers povDaaScore = some view) {outpoint : TransactionOutpoint}
    {entry : UtxoEntry} (present : state.utxo.lookup outpoint = some entry) :
    view outpoint = some entry := by
  simp only [ChainState.childView, bind_eq_bind, bind_eq_some_iff] at onTop
  obtain ⟨coinbase, first, validated, isNew, diff, ran, eq⟩ := onTop
  cases eq
  obtain ⟨shape, declared⟩ := inv.tip_shape.coinbase coinbase first
  have known : coinbase ∈ blocks.flatMap Block.transactions := mem_flatMap.mpr
      ⟨state.tip, inv.tip_mem, mem_of_mem_head? first⟩
  have fresh := inv.ledger.fresh_coinbase fits free inv.known known shape
    (payload coinbase first) (by rw [declared]; exact inv.below)
  obtain ⟨start, applies, coinbaseApplied, -⟩ :=
    inv.ledger.applyCoinbase fits shape fresh isNew povDaaScore
  cases ran.symm.trans applies
  exact coinbaseApplied.extends_base outpoint entry present

section

variable {hashers : Hashers} {params : Params} {blocks : List Block} {state : ChainState}
  {history : List Transaction} {environment : ValidationEnvironment} {povDaaScore : UInt64}
  {view : UtxoView} {tx : Transaction} {validated : ValidatedTransaction}

theorem validateTransactionInUtxoContext_eq_ok_iff {flags : TxValidationFlags} :
    validateTransactionInUtxoContext hashers params environment tx view
        povDaaScore flags = .ok validated ↔
      populate view tx = some validated.populated ∧ (validatePopulatedTransactionAndGetFee
          (params.contextualValidator hashers environment.svm)
          environment.scheduling validated.populated povDaaScore flags
          none).run.evaluate environment.verify =
        .ok validated.calculatedFee := by
  constructor
  · exact validateTransactionInUtxoContext_eq_ok
  · rintro ⟨got, passed⟩
    rw [validateTransactionInUtxoContext, got]
    exact bind_eq_ok.mpr ⟨validated.calculatedFee, passed, rfl⟩

variable (inv : ChainInvariant hashers params blocks state history)
  (larger : ∀ outpoint entry, state.utxo.lookup outpoint = some entry → view outpoint = some entry)
include inv larger

theorem ChainInvariant.tip_scripts {populated : PopulatedTransaction}
    (mem : populated.tx ∈ state.tip.transactions.tail)
    (got : populate view populated.tx = some populated) :
    populated.ScriptsPass hashers state.verification.verify ∧ ∀ run ∈ populated.svmRuns,
      run.Approved hashers state.verification.svm populated state.tip.header.daaScore := by
  obtain ⟨fee, passed⟩ := inv.judged_of_tip larger mem got
  exact ((validateFull_eq_ok_iff _ _ _ _).mp passed).2

theorem ChainInvariant.validateFull_iff
    (sameVerdicts : environment.verify = state.verification.verify)
    (mem : tx ∈ state.tip.transactions.tail) :
    validateTransactionInUtxoContext hashers params environment tx view
        povDaaScore .full = .ok validated ↔
      validateTransactionInUtxoContext hashers params environment tx view
          povDaaScore .skipScriptChecks = .ok validated ∧
        ∀ run ∈ validated.populated.svmRuns,
          run.Approved hashers environment.svm validated.populated povDaaScore := by
  rw [validateTransactionInUtxoContext_eq_ok_iff, validateTransactionInUtxoContext_eq_ok_iff,
    validateFull_eq_ok_iff, and_assoc]
  refine and_congr_right fun got => and_congr_right fun _ => ?_
  obtain ⟨rfl, -⟩ := populate_eq_some_iff.mp got
  obtain ⟨passes, -⟩ := inv.tip_scripts larger mem got
  rw [sameVerdicts]
  exact and_iff_right passes

end

/-- On top of a verified chain block, validating its transactions without
scripts accepts the same transactions as validating them fully exactly when no
execution that approved at the point of view of the block itself refuses at the
point of view on top of it. -/
theorem skippedScripts_sound_iff (external : External) (params : Params)
    (fits : params.CountsFitWords) (blocks : List Block) (state : ChainState)
    (run : ChainRun external params blocks state)
    (collisionFree : external.toHashers.CollisionFree (blocks.flatMap Block.transactions))
    (environment : ValidationEnvironment)
    (sameVerdicts : environment.verify = state.verification.verify) (povDaaScore : UInt64)
    (view : UtxoView) (onTop : state.childView external.toHashers povDaaScore = some view) :
    (∀ tx ∈ state.tip.transactions.tail, (∃ validated,
        validateTransactionInUtxoContext external.toHashers params
          environment tx view povDaaScore .skipScriptChecks = .ok validated) ↔
        ∃ validated, validateTransactionInUtxoContext external.toHashers params
          environment tx view povDaaScore .full = .ok validated) ↔
      ∀ tx ∈ state.tip.transactions.tail, ∀ validated,
        validateTransactionInUtxoContext external.toHashers params
            environment tx view povDaaScore .skipScriptChecks =
          .ok validated →
        ∀ svmRun ∈ validated.populated.svmRuns,
          svmRun.Approved external.toHashers state.verification.svm
              validated.populated state.tip.header.daaScore →
            svmRun.Approved external.toHashers environment.svm validated.populated povDaaScore := by
  obtain ⟨history, inv⟩ := run.invariant fits collisionFree
  have larger : ∀ tx ∈ state.tip.transactions.tail,
      ∀ outpoint entry, state.utxo.lookup outpoint = some entry → view outpoint = some entry :=
    fun tx mem outpoint entry present =>
      inv.childView_extends fits collisionFree
        (fun coinbase first => run.tip_payload mem first) onTop present
  constructor
  · intro agree tx mem validated skipped svmRun asked _
    obtain ⟨other, full⟩ := (agree tx mem).mp ⟨validated, skipped⟩
    obtain ⟨again, approved⟩ := (inv.validateFull_iff (larger tx mem) sameVerdicts mem).mp full
    cases skipped.symm.trans again
    exact approved svmRun asked
  · intro stable tx mem
    constructor
    · rintro ⟨validated, skipped⟩
      refine ⟨validated, (inv.validateFull_iff (larger tx mem)
        sameVerdicts mem).mpr ⟨skipped, fun svmRun asked => ?_⟩⟩
      have got := (validateTransactionInUtxoContext_eq_ok skipped).1
      obtain ⟨rfl, -⟩ := populate_eq_some_iff.mp got
      exact stable _ mem validated skipped svmRun asked
        ((inv.tip_scripts (larger _ mem) mem got).2 svmRun asked)
    · rintro ⟨validated, full⟩
      exact ⟨validated, ((inv.validateFull_iff (larger tx mem) sameVerdicts mem).mp full).1⟩

/-! A contract that approves up to a block height. The transaction that spends
it is verified at the last such height and taken without its scripts one block
later. -/

/-- The mainnet rules on a network without coinbase maturity. -/
def immediateParams : Params := { mainnetParams with coinbaseMaturity := 0 }

/-- A module whose `validate` compares the block height with 1312864. -/
def deadlineWasm : List UInt8 :=
  [0, 97, 115, 109, 1, 0, 0, 0, 1, 9, 2, 96, 0, 1, 126, 96, 0, 1, 127, 2, 24, 1, 3, 101, 110, 118,
    16, 103, 101, 116, 95, 98, 108, 111, 99, 107, 95, 104, 101, 105, 103, 104, 116, 0, 0, 3, 2, 1,
    1, 7, 12, 1, 8, 118, 97, 108, 105, 100, 97, 116, 101, 0, 1, 10, 12, 1, 10, 0, 16, 0, 66, 224,
    144, 208, 0, 88, 11]

/-- The identifier of the module and its sections as the parser yields
them. -/
def deadlineExternal : External where
  toHashers := { Hashers.zero with
    wasmHash := fun _ =>
      ⟨[53, 121, 54, 67, 235, 242, 186, 23, 112, 242, 142, 173, 222, 0, 212, 178, 243, 119, 83, 124,
        150, 65, 254, 87, 18, 201, 52, 228, 86, 126, 188, 129], rfl⟩
    transactionIdHash := fingerprint
    transactionHash := fingerprint }
  parseAll _ := [.ok .other,
    .ok (.declarations [.ok ⟨[.i64], false, []⟩, .ok ⟨[.i32], false, []⟩]),
    .ok (.importSection [.ok ⟨"env", "get_block_height", .function⟩]),
    .ok .other, .ok .other, .ok .other,
    .ok (.codeSectionEntry [] (.ok [.ok "Call", .ok "I64Const", .ok "I64LeU", .ok "End"])),
    .ok .other]

/-- What the module does when it is run. -/
def deadlineExecutor : ContractExecutor :=
  ⟨fun _ _ context _ => .ok (context.blockHeight ≤ 1312864)⟩

/-- An output of the contract, which may read the block height. -/
def deadlineContract : ScriptPublicKey where
  version := scriptVersionContract
  script := (deadlineExternal.wasmHash deadlineWasm).bytes ++ leBytes 4 0 ++
    (deadlineExternal.wasmHash deadlineWasm).bytes ++ [0] ++ leBytes 4 1 ++
    [3]

/-- A node with a contract side and nothing deployed. -/
def deadlineEnvironment : ValidationEnvironment where
  svm := some {
    executor := deadlineExecutor
    store := fun _ => none
    daStore := none
    lkgBlueScore := none
    altStore := none
    selectedChainStore := none
    headersDaaScore := none
    pruningPoint := none
    pendingChainBlocks := [] }
  scheduling := .inOrder
  verify := fun _ => false

def anyone : ScriptPublicKey := ⟨0, [0x51]⟩

/-- Moves the first output of a transaction to another one. -/
def moveFirst (source : Transaction) (output : TransactionOutput)
    (payload : List UInt8) (mass : UInt64) : Transaction where
  version := txVersion
  inputs := [⟨⟨source.id deadlineExternal.toHashers, 0⟩, [], 0, 0⟩]
  outputs := [output]
  lockTime := 0
  subnetworkId := subnetworkIdNative
  gas := 0
  payload
  mass

def deadlineBlock (blueScore : Nat) (parent : Hash) (transactions : List Transaction) : Block where
  header := {
    hash := FixedBytes.replicate 32 (UInt8.ofNat blueScore)
    directParents := [parent]
    hashMerkleRoot := calcHashMerkleRoot deadlineExternal.toHashers transactions
    daaScore := UInt64.ofNat (1312859 + blueScore)
    blueScore := UInt64.ofNat blueScore }
  transactions

def firstBlock : Block := deadlineBlock 1 genesisHeader.hash [minedCoinbase 1 anyone []]

def rewardCoinbase : Transaction := minedCoinbase 2 anyone [⟨37002785, anyone⟩]

def secondBlock : Block := deadlineBlock 2 firstBlock.header.hash [rewardCoinbase]

/-- Deploys the contract and locks the reward of the first block with it. -/
def deadlineDeployment : Transaction := moveFirst rewardCoinbase ⟨37000000, deadlineContract⟩
    (leBytes 4 deadlineWasm.length ++ deadlineWasm) 81084

def thirdBlock : Block := deadlineBlock 3 secondBlock.header.hash
    [minedCoinbase 3 anyone [⟨37002785, anyone⟩], deadlineDeployment]

def deadlineSpend : Transaction := moveFirst deadlineDeployment ⟨36999000, anyone⟩ [] 0

def fourthBlock : Block := deadlineBlock 4 thirdBlock.header.hash
    [minedCoinbase 4 anyone [⟨37005570, anyone⟩], deadlineSpend]

/-- The block after the deployment without the spend, and the spend one block
later. -/
def idleBlock : Block := deadlineBlock 4 thirdBlock.header.hash
    [minedCoinbase 4 anyone [⟨37005570, anyone⟩]]

def lateBlock : Block := deadlineBlock 5 idleBlock.header.hash
    [minedCoinbase 5 anyone [⟨37002785, anyone⟩], deadlineSpend]

/-- A block on top of a chain, with the contracts that the chain has deployed. -/
def deadlineCandidate (state : ChainState) (block : Block) : ChainCandidate :=
  let parent := state.tip.header.hash
  { block
    ghostdag := ⟨block.header.blueScore, parent, [parent], []⟩
    mergeset := []
    nonDaa := outsideWindow parent
    environment := state.verification }

def deadlineStep (state : ChainState) (block : Block) :
    Option (UtxoProcessingContext × ChainState) :=
  state.extend deadlineExternal.toHashers immediateParams (deadlineCandidate state block)

def deadlineGenesis : ChainState := ⟨⟨genesisHeader, [genesisCoinbase mainnetGenesisPayload]⟩, ∅,
    deadlineEnvironment⟩

theorem joinsChain_of_deadlineStep {state : ChainState}
    (joining : Joining deadlineExternal immediateParams deadlineStep state) :
    JoinsChain deadlineExternal immediateParams state
      (deadlineCandidate state joining.block)
      ((deadlineStep state joining.block).get joining.stepped).1
      ((deadlineStep state joining.block).get joining.stepped).2 where
  bodies := by
    exact forall_mem_singleton.mpr ⟨_, joining.accepted⟩
  selectedParent_blue := mem_singleton_self _
  blueScore_eq := joining.higher
  extended := (some_get joining.stepped).symm

def firstJoining : Joining deadlineExternal immediateParams deadlineStep deadlineGenesis where
  block := firstBlock
  accepted := ⟨⟨(0, 0, 0), by decide +kernel⟩, by decide +kernel⟩
  higher := by decide +kernel
  stepped := by decide +kernel

theorem firstBlock_steps : (deadlineStep deadlineGenesis firstBlock).isSome = true :=
  firstJoining.stepped

def firstState : ChainState := ((deadlineStep deadlineGenesis firstBlock).get firstBlock_steps).2

def secondJoining : Joining deadlineExternal immediateParams deadlineStep firstState where
  block := secondBlock
  accepted := ⟨⟨(0, 0, 0), by decide +kernel⟩, by decide +kernel⟩
  higher := by decide +kernel
  stepped := by decide +kernel

theorem secondBlock_steps : (deadlineStep firstState secondBlock).isSome = true :=
  secondJoining.stepped

def secondState : ChainState := ((deadlineStep firstState secondBlock).get secondBlock_steps).2

def thirdJoining : Joining deadlineExternal immediateParams deadlineStep secondState where
  block := thirdBlock
  accepted := ⟨⟨(1079, 1276, 81084), by decide +kernel⟩, by decide +kernel⟩
  higher := by decide +kernel
  stepped := by decide +kernel

theorem thirdBlock_steps : (deadlineStep secondState thirdBlock).isSome = true :=
  thirdJoining.stepped

def thirdState : ChainState := ((deadlineStep secondState thirdBlock).get thirdBlock_steps).2

def fourthJoining : Joining deadlineExternal immediateParams deadlineStep thirdState where
  block := fourthBlock
  accepted := ⟨⟨(195, 660, 0), by decide +kernel⟩, by decide +kernel⟩
  higher := by decide +kernel
  stepped := by decide +kernel

theorem fourthBlock_steps : (deadlineStep thirdState fourthBlock).isSome = true :=
  fourthJoining.stepped

def fourthState : ChainState := ((deadlineStep thirdState fourthBlock).get fourthBlock_steps).2

def idleJoining : Joining deadlineExternal immediateParams deadlineStep thirdState where
  block := idleBlock
  accepted := ⟨⟨(0, 0, 0), by decide +kernel⟩, by decide +kernel⟩
  higher := by decide +kernel
  stepped := by decide +kernel

theorem idleBlock_steps : (deadlineStep thirdState idleBlock).isSome = true :=
  idleJoining.stepped

def idleState : ChainState := ((deadlineStep thirdState idleBlock).get idleBlock_steps).2

def lateJoining : Joining deadlineExternal immediateParams deadlineStep idleState where
  block := lateBlock
  accepted := ⟨⟨(195, 660, 0), by decide +kernel⟩, by decide +kernel⟩
  higher := by decide +kernel
  stepped := by decide +kernel

theorem lateBlock_steps : (deadlineStep idleState lateBlock).isSome = true :=
  lateJoining.stepped

def lateState : ChainState := ((deadlineStep idleState lateBlock).get lateBlock_steps).2

theorem secondState_run : ChainRun deadlineExternal immediateParams
    [secondBlock, firstBlock, deadlineGenesis.tip] secondState :=
  .join (.join (.genesis genesisHeader mainnetGenesisPayload deadlineEnvironment
        (by decide +kernel))
      (joinsChain_of_deadlineStep firstJoining))
    (joinsChain_of_deadlineStep secondJoining)

theorem thirdState_run : ChainRun deadlineExternal immediateParams
    [thirdBlock, secondBlock, firstBlock, deadlineGenesis.tip]
    thirdState :=
  .join secondState_run (joinsChain_of_deadlineStep thirdJoining)

theorem fourthState_childView :
    (fourthState.childView deadlineExternal.toHashers 1312864).isSome = true := by
  decide +kernel

theorem lateState_childView :
    (lateState.childView deadlineExternal.toHashers 1312865).isSome = true := by
  decide +kernel

/-- The spend with the contract output that it spends. -/
def populatedSpend : PopulatedTransaction :=
  ⟨deadlineSpend, [⟨37000000, deadlineContract, 1312863, false⟩], rfl⟩

theorem fourthState_transactions : fourthState.tip.transactions.tail = [deadlineSpend] := by
  decide +kernel

theorem fourthState_context : fourthState.verification.svm.isSome = true := by
  decide +kernel

theorem fourthState_approves : ∀ run ∈ populatedSpend.svmRuns,
    let context := fourthState.verification.svm.get fourthState_context
    context.store run.contractId = some deadlineWasm ∧
      context.runContract deadlineExternal.toHashers populatedSpend 1312864 run.manifest
        run.contractId deadlineWasm = .ok true := by
  decide +kernel

/-- A spend that was verified with the fourth block runs the contract, which still
approves one block later: both validations agree on it. -/
theorem earlySpend_validations_agree : populatedSpend.svmRuns.length = 1 ∧
    ((∃ validated, validateTransactionInUtxoContext deadlineExternal.toHashers
        immediateParams fourthState.verification deadlineSpend
        ((fourthState.childView deadlineExternal.toHashers 1312864).get
          fourthState_childView) 1312864 .skipScriptChecks = .ok validated) ↔
      ∃ validated, validateTransactionInUtxoContext deadlineExternal.toHashers
        immediateParams fourthState.verification deadlineSpend
        ((fourthState.childView deadlineExternal.toHashers 1312864).get
          fourthState_childView) 1312864 .full = .ok validated) := by
  have run := ChainRun.join thirdState_run (joinsChain_of_deadlineStep fourthJoining)
  have agree := (skippedScripts_sound_iff deadlineExternal immediateParams ⟨by decide, by decide⟩ _
    fourthState run (by unfold Hashers.CollisionFree; decide +kernel)
    fourthState.verification rfl 1312864 _ (some_get fourthState_childView).symm).mpr
  rw [fourthState_transactions] at agree
  refine ⟨by decide +kernel, agree ?_ deadlineSpend (mem_singleton_self _)⟩
  intro tx mem validated skipped svmRun asked _
  cases mem_singleton.mp mem
  have known : validateTransactionInUtxoContext deadlineExternal.toHashers
      immediateParams fourthState.verification deadlineSpend
      ((fourthState.childView deadlineExternal.toHashers 1312864).get
        fourthState_childView) 1312864 .skipScriptChecks = .ok ⟨populatedSpend, 1000⟩ := by
    decide +kernel
  cases skipped.symm.trans known
  obtain ⟨deployed, ran⟩ := fourthState_approves svmRun asked
  exact ⟨_, (some_get fourthState_context).symm, deadlineWasm, deployed, ran⟩

/-- The spend of the contract was verified with the fifth block. One block
later it is taken without its scripts and rejected with them. -/
theorem deadlineSpend_validations_differ :
    ChainRun deadlineExternal immediateParams [lateBlock, idleBlock, thirdBlock, secondBlock,
        firstBlock, deadlineGenesis.tip] lateState ∧
      lateState.tip.transactions.tail = [deadlineSpend] ∧
      (∃ validated, validateTransactionInUtxoContext deadlineExternal.toHashers
        immediateParams lateState.verification deadlineSpend
        ((lateState.childView deadlineExternal.toHashers 1312865).get
          lateState_childView) 1312865 .skipScriptChecks = .ok validated) ∧
      validateTransactionInUtxoContext deadlineExternal.toHashers
          immediateParams lateState.verification deadlineSpend
          ((lateState.childView deadlineExternal.toHashers 1312865).get
            lateState_childView) 1312865 .full =
        .error (.raised (.svmValidationFailed "contract rejected transaction")) := by
  have run := ChainRun.join (.join thirdState_run (joinsChain_of_deadlineStep idleJoining))
    (joinsChain_of_deadlineStep lateJoining)
  refine ⟨run, ?_, ⟨⟨populatedSpend, 1000⟩, ?_⟩, ?_⟩
  · decide +kernel
  · decide +kernel
  · decide +kernel

end Sophis
