import Sophis.SkippedScripts

namespace Sophis

open ByteCodec ExceptLoop List Option

/-!
# Where contract outputs come from

The deploy checks look at the contract outputs of a transaction only when it
carries code. The outputs of every other transaction, and of a coinbase, enter
the UTXO set as they stand. The contract outputs of a chain are therefore well
formed as long as these transactions name contracts that the chain knows.
-/

variable {hashers : Hashers} {params : Params} {povDaaScore : UInt64} {diff next : UtxoDiff}

theorem covers_applyAll {validated : List ValidatedTransaction}
    (ran : applyAll hashers povDaaScore diff validated = some next) :
    diff.add.Covers (validated.flatMap (·.populated.tx.createdEntries hashers povDaaScore))
      next.add := by
  induction validated generalizing diff with
  | nil =>
    cases ran
    exact UtxoCollection.covers_self
  | cons first rest ih =>
    rw [applyAll] at ran
    cases step : diff.addTransaction hashers first.populated povDaaScore with
    | error failure =>
      rw [step] at ran
      cases ran
    | ok mid =>
      rw [step] at ran
      rw [flatMap_cons]
      exact (UtxoDiff.covers_addTransaction step).1.trans (ih ran)

/-- A calculation whose additions are the outputs of a coinbase and of the
accepted transactions, which come from the given blocks. -/
structure Explained (hashers : Hashers) (povDaaScore : UInt64)
    (coinbase : Transaction) (blocks : List Block)
    (context : UtxoProcessingContext) : Prop where
  added : ∀ outpoint entry, context.mergesetDiff.add.lookup outpoint = some entry →
    ∃ tx ∈ coinbase :: context.accepted.map (·.populated.tx),
      (outpoint, entry) ∈ tx.createdEntries hashers povDaaScore
  bodies : ∀ accepted ∈ context.accepted,
    ∃ block ∈ blocks, accepted.populated.tx ∈ block.transactions.tail

variable {view : UtxoView} {coinbase : Transaction} {blocks : List Block}
  {context : UtxoProcessingContext}

section

variable (explained : Explained hashers povDaaScore coinbase blocks context)
include explained

theorem Explained.mergeBlock {next : UtxoProcessingContext} {merged : Block × TxValidationFlags}
    (listed : merged.1 ∈ blocks)
    (step : Sophis.mergeBlock hashers params view povDaaScore context merged = some next) :
    Explained hashers povDaaScore coinbase blocks next := by
  simp only [Sophis.mergeBlock, mergeValidated, bind_eq_bind, bind_eq_some_iff] at step
  obtain ⟨validated, kept, diff, ran, fees, -, reward, -, eq⟩ := step
  cases eq
  have ordered := (keepValid_spec kept).1
  rw [zipIdx_tail_map_fst] at ordered
  have accepted_append : UtxoProcessingContext.accepted
        { environment := validated.foldl
            (fun current accepted => current.afterDeploys hashers accepted.1.populated.tx)
            context.environment
          mergesetDiff := diff
          acceptance := context.acceptance ++
            [⟨merged.1.header.hash, context.environment, merged.2, validated⟩]
          mergesetRewards := context.mergesetRewards ++ [(merged.1.header.hash, reward)] } =
      context.accepted ++ validated.map Prod.fst := by
    simp [UtxoProcessingContext.accepted]
  refine { added := ?_, bodies := ?_ }
  · intro outpoint entry got
    rw [accepted_append, map_append, ← cons_append]
    rcases covers_applyAll ran outpoint entry got with before | new
    · obtain ⟨tx, mem, created⟩ := explained.added outpoint entry before
      exact ⟨tx, mem_append_left _ mem, created⟩
    · obtain ⟨accepted, mem, created⟩ := List.mem_flatMap.mp new
      exact ⟨accepted.populated.tx, mem_append_right _ (List.mem_map_of_mem mem), created⟩
  · intro accepted mem
    rw [accepted_append] at mem
    rcases mem_append.mp mem with old | new
    · exact explained.bodies accepted old
    · obtain ⟨item, inValidated, rfl⟩ := List.mem_map.mp new
      refine ⟨merged.1, listed, ordered.subset ?_⟩
      exact List.mem_map_of_mem (f := fun item : ValidatedTransaction × Nat => item.1.populated.tx)
        inValidated

theorem Explained.mergeBlocks {next : UtxoProcessingContext}
    {merged : List (Block × TxValidationFlags)} (listed : ∀ item ∈ merged, item.1 ∈ blocks)
    (folded : merged.foldlM (Sophis.mergeBlock hashers params view povDaaScore) context =
      some next) :
    Explained hashers povDaaScore coinbase blocks next := by
  induction merged generalizing context with
  | nil =>
    cases folded
    exact explained
  | cons first rest ih =>
    rw [foldlM_cons, bind_eq_bind, bind_eq_some_iff] at folded
    obtain ⟨mid, step, ran⟩ := folded
    exact ih (explained.mergeBlock (listed first mem_cons_self) step)
      (forall_mem_cons.mp listed).2 ran

end

theorem explained_of_calculateUtxoState {environment : ValidationEnvironment}
    {selectedParent : Block} {mergeset : List Block}
    (ran : calculateUtxoState hashers params environment view povDaaScore
      selectedParent mergeset = some context) :
    ∃ coinbase, selectedParent.coinbase? = some coinbase ∧ coinbase.isCoinbase = true ∧
      Explained hashers povDaaScore coinbase (selectedParent :: mergeset) context := by
  simp only [calculateUtxoState, bind_eq_bind, bind_eq_some_iff] at ran
  obtain ⟨coinbase, first, validated, wrapped, start, applied, folded⟩ := ran
  have wraps := (newCoinbase_eq_some wrapped).1
  have isCoinbase : coinbase.isCoinbase = true := by
    unfold ValidatedTransaction.newCoinbase at wrapped
    split at wrapped
    · exact (‹_ ∧ _›).1
    · cases wrapped
  refine ⟨coinbase, first, isCoinbase, Explained.mergeBlocks ?_ ?_ folded⟩
  · refine { added := ?_, bodies := ?_ }
    · intro outpoint entry got
      rcases covers_applyAll applied outpoint entry got with before | new
      · cases before
      · obtain ⟨accepted, mem, created⟩ := List.mem_flatMap.mp new
        cases mem_singleton.mp mem
        exact ⟨coinbase, mem_cons_self, wraps ▸ created⟩
    · intro accepted mem
      cases mem
  · intro item mem
    rcases mem_cons.mp mem with rfl | inMergeset
    · exact mem_cons_self
    · obtain ⟨block, isMerged, rfl⟩ := List.mem_map.mp inMergeset
      exact mem_cons_of_mem _ isMerged

section

def Transaction.deployedContract? (hashers : Hashers) (tx : Transaction) : Option ContractId :=
  if isContractDeploy tx then
    (ContractDeployPayload.tryFromSlice tx.payload).toOption.map
      fun payload => hashers.wasmHash payload.wasm
  else
    none

def TransactionOutput.namedContract? (output : TransactionOutput) : Option ContractId :=
  (ContractUtxoData.tryFromSlice output.script).toOption.map ContractUtxoData.contractId

/-- The contract outputs of a transaction that deploys nothing name contracts
deployed by the given transactions. -/
def Transaction.KnownContracts (hashers : Hashers)
    (accepted : List Transaction) (tx : Transaction) : Prop :=
  isContractDeploy tx = false → ∀ output ∈ tx.outputs, output.version = scriptVersionContract →
    ∃ deploy ∈ accepted, ∃ id ∈ deploy.deployedContract? hashers, output.namedContract? = some id

instance (hashers : Hashers) (accepted : List Transaction)
    (tx : Transaction) : Decidable (tx.KnownContracts hashers accepted) :=
  inferInstanceAs (Decidable (_ → _))

/-- The transactions that a step applies: the coinbase of the old tip and what
is accepted from the mergeset. -/
def ChainState.applied (state : ChainState) (context : UtxoProcessingContext) : List Transaction :=
  state.tip.coinbase?.toList ++ context.accepted.map (·.populated.tx)

variable (external : External) (params : Params)

/-- The chains of verified blocks, with the transactions applied on them, on
which every transaction names known contracts. -/
inductive ContractRun : List Transaction → ChainState → Prop where
  | genesis (header : Header) (payload : List UInt8)
    (environment : ValidationEnvironment)
    (declared : u64At payload 0 = header.blueScore) :
    ContractRun [] ⟨⟨header, [genesisCoinbase payload]⟩, ∅, environment⟩
  | join {accepted : List Transaction} {state next : ChainState}
    {candidate : ChainCandidate} {context : UtxoProcessingContext} :
    ContractRun accepted state →
    JoinsChain external params state candidate context next →
    (∀ tx ∈ state.applied context, tx.KnownContracts external.toHashers
      (state.applied context ++ accepted)) →
    ContractRun (state.applied context ++ accepted) next

/-- A contract entry decodes and names a contract whose deployment is among
the given transactions and passed the deploy checks. -/
def UtxoEntry.WellFormedContract (accepted : List Transaction) (entry : UtxoEntry) : Prop :=
  entry.scriptPublicKey.version = scriptVersionContract → ∃ data,
    ContractUtxoData.tryFromSlice entry.scriptPublicKey.script = .ok data ∧ ∃ deploy ∈ accepted,
      deploy.deployedContract? external.toHashers = some data.contractId ∧
        validateContractDeploy external deploy = .ok ()

variable {external params} {accepted : List Transaction} {entry : UtxoEntry}

theorem UtxoEntry.WellFormedContract.mono {more : List Transaction}
    (wellFormed : entry.WellFormedContract external accepted) (included : accepted ⊆ more) :
    entry.WellFormedContract external more := by
  intro contract
  obtain ⟨data, read, deploy, mem, deployed⟩ := wellFormed contract
  exact ⟨data, read, deploy, included mem, deployed⟩

variable {hashers : Hashers} {tx : Transaction} {daaScore : UInt64} {outpoint : TransactionOutpoint}

theorem Transaction.output_of_mem_createdEntries
    (created : (outpoint, entry) ∈ tx.createdEntries hashers daaScore) :
    ∃ output ∈ tx.outputs, entry.scriptPublicKey = output.scriptPublicKey := by
  obtain ⟨⟨output, index⟩, mem, eq⟩ := List.mem_map.mp created
  cases eq
  exact ⟨output, fst_mem_of_mem_zipIdx mem, rfl⟩

theorem isContractDeploy_of_deployedContract? {id : ContractId}
    (deployed : tx.deployedContract? hashers = some id) : isContractDeploy tx = true := by
  unfold Transaction.deployedContract? at deployed
  split at deployed
  · assumption
  · cases deployed

theorem Transaction.KnownContracts.wellFormed
    (known : tx.KnownContracts external.toHashers accepted) (mem : tx ∈ accepted)
    (checked : ∀ deploy ∈ accepted, isContractDeploy deploy = true →
      validateContractDeploy external deploy = .ok ())
    (created : (outpoint, entry) ∈ tx.createdEntries external.toHashers daaScore) :
    entry.WellFormedContract external accepted := by
  obtain ⟨output, isOutput, eq⟩ := output_of_mem_createdEntries created
  intro contract
  rw [eq] at contract ⊢
  cases deploys : isContractDeploy tx with
  | true =>
    have passed := checked tx mem deploys
    obtain ⟨payload, read, -, outputs⟩ := contractOutputs_of_deploy passed
    obtain ⟨data, decoded, deployed⟩ := outputs output isOutput contract
    refine ⟨data, decoded, tx, mem, ?_, passed⟩
    rw [deployedContract?, if_pos deploys, read, deployed.identified]
    rfl
  | false =>
    obtain ⟨deploy, isAccepted, id, deployed, named⟩ := known deploys output isOutput contract
    rw [TransactionOutput.namedContract?, map_eq_some_iff] at named
    obtain ⟨data, decoded, rfl⟩ := named
    exact ⟨data, toOption_eq_some_iff.mp decoded, deploy, isAccepted,
      deployed, checked deploy isAccepted (isContractDeploy_of_deployedContract? deployed)⟩

/-- What holds of these chains besides the claim about their entries: the
transactions of the tip, and the accepted deployments, passed the checks in
isolation. -/
structure ContractInvariant (external : External) (params : Params)
    (accepted : List Transaction) (state : ChainState) : Prop where
  entries : ∀ outpoint entry, state.utxo.lookup outpoint = some entry →
    entry.WellFormedContract external accepted
  checked : ∀ deploy ∈ accepted, isContractDeploy deploy = true →
    validateContractDeploy external deploy = .ok ()
  tip_isolated : ∀ tx ∈ state.tip.transactions.tail,
    validateTxInIsolation external params.transactionValidator tx = .ok ()

theorem isContractDeploy_of_isCoinbase (coinbase : tx.isCoinbase = true) :
    isContractDeploy tx = false := by
  rw [isContractDeploy, isDeploy, Transaction.isNative_eq_false_of_isCoinbase coinbase]
  rfl

variable {state : ChainState}

theorem ContractInvariant.join {next : ChainState} {candidate : ChainCandidate}
    {context : UtxoProcessingContext} (invariant : ContractInvariant external params accepted state)
    (joins : JoinsChain external params state candidate context next)
    (known : ∀ tx ∈ state.applied context, tx.KnownContracts external.toHashers
      (state.applied context ++ accepted)) :
    ContractInvariant external params (state.applied context ++ accepted) next := by
  obtain ⟨ran, rfl, -⟩ := ChainState.extend_eq_some joins.extended
  obtain ⟨coinbase, first, isCoinbase, explained⟩ := explained_of_calculateUtxoState ran
  have applied_eq : state.applied context = coinbase :: context.accepted.map (·.populated.tx) := by
    rw [ChainState.applied, first]
    rfl
  have isolated : ∀ block ∈ candidate.block :: candidate.mergeset, ∀ tx ∈ block.transactions,
      validateTxInIsolation external params.transactionValidator tx = .ok () := by
    intro block mem
    obtain ⟨bodyContext, accepted⟩ := joins.bodies block mem
    exact accepted.isolated
  have checked : ∀ deploy ∈ state.applied context ++ accepted, isContractDeploy deploy = true →
      validateContractDeploy external deploy = .ok () := by
    intro deploy mem deploys
    rcases mem_append.mp mem with new | old
    · rw [applied_eq] at new
      rcases mem_cons.mp new with rfl | isAccepted
      · rw [isContractDeploy_of_isCoinbase isCoinbase] at deploys
        cases deploys
      · obtain ⟨item, inAccepted, rfl⟩ := List.mem_map.mp isAccepted
        obtain ⟨block, inBlocks, inBlock⟩ := explained.bodies item inAccepted
        have passed : validateTxInIsolation external
            params.transactionValidator item.populated.tx = .ok () := by
          rcases mem_cons.mp inBlocks with rfl | inMergeset
          · exact invariant.tip_isolated _ inBlock
          · exact isolated block (mem_cons_of_mem _ inMergeset) _
              (mem_of_mem_tail inBlock)
        exact (protocolChecks_of_isolated passed).2.1 deploys
    · exact invariant.checked deploy old deploys
  refine {
    entries := ?_
    checked
    tip_isolated := fun tx mem =>
      isolated candidate.block mem_cons_self tx (mem_of_mem_tail mem) }
  intro outpoint entry got
  rw [UtxoSet.lookup_withDiff, UtxoDiff.compose] at got
  cases added : context.mergesetDiff.add.lookup outpoint with
  | some new =>
    rw [added] at got
    cases got
    obtain ⟨tx, mem, created⟩ := explained.added outpoint entry added
    rw [← applied_eq] at mem
    exact (known tx mem).wellFormed (mem_append_left _ mem) checked created
  | none =>
    rw [added] at got
    dsimp only at got
    split at got
    · cases got
    · exact (invariant.entries outpoint entry got).mono (subset_append_right _ _)

theorem ContractRun.invariant (run : ContractRun external params accepted state) :
    ContractInvariant external params accepted state := by
  induction run with
  | genesis header payload environment declared =>
    exact {
      entries := fun _ _ got => nomatch got
      checked := fun _ mem => nomatch mem
      tip_isolated := fun _ mem => nomatch mem }
  | join _ joins known ih => exact ih.join joins known

/-- On every chain whose transactions name known contracts, every contract
entry is well formed. -/
theorem contractEntries_wellFormed (external : External) (params : Params)
    (accepted : List Transaction) (state : ChainState)
    (run : ContractRun external params accepted state) (outpoint : TransactionOutpoint)
    (entry : UtxoEntry) (unspent : state.utxo.lookup outpoint = some entry) :
    entry.WellFormedContract external accepted :=
  run.invariant.entries outpoint entry unspent

end

theorem contractRun_of_deadlineStep {accepted : List Transaction} {state : ChainState}
    (run : ContractRun deadlineExternal immediateParams accepted state)
    (joining : Joining deadlineExternal immediateParams deadlineStep state)
    (known : ∀ tx ∈ state.applied ((deadlineStep state joining.block).get joining.stepped).1,
      tx.KnownContracts deadlineExternal.toHashers (state.applied
        ((deadlineStep state joining.block).get joining.stepped).1 ++
        accepted)) :
    ContractRun deadlineExternal immediateParams (state.applied
        ((deadlineStep state joining.block).get joining.stepped).1 ++
        accepted)
      ((deadlineStep state joining.block).get joining.stepped).2 :=
  .join run (joinsChain_of_deadlineStep joining) known

/-- The output of the deployment is well formed. -/
theorem deploymentOutput_wellFormed : ∃ accepted,
    ContractRun deadlineExternal immediateParams accepted fourthState ∧ fourthState.utxo.lookup
          ⟨deadlineDeployment.id deadlineExternal.toHashers, 0⟩ =
        some ⟨37000000, deadlineContract, 1312863, false⟩ ∧
      UtxoEntry.WellFormedContract deadlineExternal accepted
        ⟨37000000, deadlineContract, 1312863, false⟩ := by
  have run := contractRun_of_deadlineStep (contractRun_of_deadlineStep (contractRun_of_deadlineStep
        (contractRun_of_deadlineStep
          (.genesis genesisHeader mainnetGenesisPayload deadlineEnvironment (by decide +kernel))
          firstJoining (by decide +kernel))
        secondJoining (by decide +kernel))
      thirdJoining (by decide +kernel))
    fourthJoining (by decide +kernel)
  have unspent : fourthState.utxo.lookup ⟨deadlineDeployment.id deadlineExternal.toHashers, 0⟩ =
      some ⟨37000000, deadlineContract, 1312863, false⟩ := by
    decide +kernel
  exact ⟨_, run, unspent, contractEntries_wellFormed deadlineExternal
    immediateParams _ fourthState run _ _ unspent⟩

/-- Pays to a contract output whose script is a single byte. -/
def malformedPayment : Transaction :=
  moveFirst rewardCoinbase ⟨37000000, ⟨scriptVersionContract, [0]⟩⟩ [] 3

def malformedBlock : Block :=
  deadlineBlock 3 secondBlock.header.hash
    [minedCoinbase 3 anyone [⟨37002785, anyone⟩], malformedPayment]

def acceptingBlock : Block :=
  deadlineBlock 4 malformedBlock.header.hash [minedCoinbase 4 anyone [⟨37005570, anyone⟩]]

def malformedJoining :
    Joining deadlineExternal immediateParams deadlineStep secondState where
  block := malformedBlock
  accepted := ⟨⟨(195, 660, 3), by decide +kernel⟩, by decide +kernel⟩
  higher := by decide +kernel
  stepped := by decide +kernel

theorem malformedBlock_steps : (deadlineStep secondState malformedBlock).isSome = true :=
  malformedJoining.stepped

def malformedState : ChainState :=
  ((deadlineStep secondState malformedBlock).get malformedBlock_steps).2

def acceptingJoining :
    Joining deadlineExternal immediateParams deadlineStep malformedState where
  block := acceptingBlock
  accepted := ⟨⟨(0, 0, 0), by decide +kernel⟩, by decide +kernel⟩
  higher := by decide +kernel
  stepped := by decide +kernel

theorem acceptingBlock_steps : (deadlineStep malformedState acceptingBlock).isSome = true :=
  acceptingJoining.stepped

def acceptingState : ChainState :=
  ((deadlineStep malformedState acceptingBlock).get acceptingBlock_steps).2

/-- The payment is no deployment, so nobody looks at its output, and the chain
holds an undecodable contract entry. -/
theorem malformedPayment_unspent : isContractDeploy malformedPayment = false ∧
    ChainRun deadlineExternal immediateParams
      [acceptingBlock, malformedBlock, secondBlock, firstBlock,
        deadlineGenesis.tip] acceptingState ∧
    acceptingState.utxo.lookup ⟨malformedPayment.id deadlineExternal.toHashers, 0⟩ =
      some ⟨37000000, ⟨scriptVersionContract, [0]⟩, 1312863, false⟩ ∧
    (ContractUtxoData.tryFromSlice [0]).toOption = none := by
  refine ⟨by decide +kernel, .join (.join secondState_run
    (joinsChain_of_deadlineStep malformedJoining))
    (joinsChain_of_deadlineStep acceptingJoining), by decide +kernel, by decide +kernel⟩

end Sophis
