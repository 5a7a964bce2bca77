import Sophis.UtxoState

namespace Sophis

open ExceptLoop FirstWriterStore List Option

/-!
# The history of a node

What a node keeps outside the blocks themselves: deployed code, lookup tables,
availability payloads, the selected chain and the virtual state. The virtual and
pruning processors change them step by step (`virtual_processor/processor.rs`,
`pruning_processor/processor.rs`), and a history is the list of these steps in
the order in which this node took them.
-/

/-- A block whose state is committed, with the scores of its header and the
transactions of its acceptance data. -/
structure ChainBlock where
  hash : Hash
  daaScore : UInt64
  blueScore : UInt64
  accepted : List Transaction
  deriving Repr, DecidableEq

variable (hashers : Hashers) (block : ChainBlock)

/-- The availability record of an output. Validation has already rejected
malformed carriers. -/
def carrierIndex? (output : TransactionOutput) : Option CarrierIndex :=
  if output.version ≠ scriptVersionCarrier then
    none
  else
    match parseCarrierHeader output.script with
    | .error _ => none
    | .ok header =>
      some {
        payloadId := hashers.sha3 output.script
        entry := {
          acceptingBlockHash := block.hash
          blueScore := block.blueScore
          fragmentIndex := header.fragmentIndex
          fragmentCount := header.fragmentCount
          bundleId := header.bundleId
        }
      }

def ChainBlock.carriers : List CarrierIndex := block.accepted.flatMap fun tx =>
    tx.outputs.filterMap (carrierIndex? hashers block)

/-- The table record of an output. A script with a valid header has entries
that can be read. -/
def altCreationIndex? (output : TransactionOutput) : Option AltCreationIndex :=
  if classifyAltScript output.script ≠ some .creation then
    none
  else
    match parseAltCreationHeader hashers output.script with
    | .error _ => none
    | .ok header => do
      let entries ← iterAltEntries output.script
      return {
        handle := header.handle
        entry := {
          handle := header.handle
          entries := entries.map fun view => ⟨view.spkVersion, view.spkScript⟩
          creatingBlockHash := block.hash
          creatingDaaScore := block.daaScore
        }
      }

/-- The tables that a chain block creates. Transactions of version zero have
none. -/
def ChainBlock.altCreations : List AltCreationIndex :=
  (block.accepted.filter fun tx => tx.version ≥ 1).flatMap fun tx =>
    tx.outputs.filterMap (altCreationIndex? hashers block)

/-- The stores of a node that contracts read. -/
structure Node where
  contracts : ContractStore
  altStore : AltStore
  daStore : DaStore
  selectedChain : SelectedChainStore
  pendingChainBlocks : List Hash
  pruningPoint : Hash
  virtualBlueScore : UInt64

def Node.initial (genesis : Hash) : Node where
  contracts := fun _ => none
  altStore := fun _ => none
  daStore := .empty
  selectedChain := .initWithPruningPoint genesis
  pendingChainBlocks := []
  pruningPoint := genesis
  virtualBlueScore := 0

/-- The steps of the processors that write to these stores. The state of a
candidate, or of virtual, is calculated before anything about it is verified;
it is committed once it is. -/
inductive NodeEvent where
  | calculateUtxoState (accepted : List Transaction)
  | commitUtxoState (block : ChainBlock)
  | commitVirtualState (path : ChainPath) (blueScore : UInt64)
  | advancePruningPoint (point : Hash)
  | pruneSelectedChain (retentionRoot : Hash)
  | pruneCarriers (block : Hash)
  deriving Repr, DecidableEq

/-- What a step does to the stores; a failed write of the selected chain
aborts. -/
def Node.step (hashers : Hashers) (node : Node) : NodeEvent → Option Node
  | .calculateUtxoState accepted =>
    some { node with
      contracts := accepted.foldl (processDeploys hashers) node.contracts }
  | .commitUtxoState block =>
    some { node with
      daStore := node.daStore.indexCarrierBatch block.hash (block.carriers hashers)
      altStore := node.altStore.indexAltCreations (block.altCreations hashers)
      pendingChainBlocks := block.hash :: node.pendingChainBlocks }
  | .commitVirtualState path blueScore => do
    let selectedChain ← node.selectedChain.applyChanges path
    return { node with
      selectedChain
      virtualBlueScore := blueScore
      pendingChainBlocks := [] }
  | .advancePruningPoint point => some { node with pruningPoint := point }
  | .pruneSelectedChain retentionRoot => do
    let selectedChain ← node.selectedChain.pruneBelowPoint retentionRoot
    return { node with selectedChain }
  | .pruneCarriers block => some { node with daStore := node.daStore.pruneBlockBatch block }

def Node.run (hashers : Hashers) (node : Node) (events : List NodeEvent) : Option Node :=
  events.foldlM (Node.step hashers) node

/-- The contract side of the validator of a node. Block scores come from the
header store, which is the same on every node that has the header. -/
def Node.svm (executor : ContractExecutor)
    (headersDaaScore : Hash → Option UInt64) (node : Node) : SvmContext where
  executor
  store := node.contracts
  daStore := some node.daStore
  lkgBlueScore := some node.virtualBlueScore
  altStore := some node.altStore
  selectedChainStore := some node.selectedChain
  headersDaaScore := some headersDaaScore
  pruningPoint := some (some node.pruningPoint)
  pendingChainBlocks := node.pendingChainBlocks

/-- Runs no code. -/
def idleExecutor : ContractExecutor := ⟨fun _ _ _ _ => .ok false⟩

section

variable (hashers : Hashers)

def Transaction.deploys (tx : Transaction) : List (ContractId × List UInt8) :=
  (if isContractDeploy tx then
    match ContractDeployPayload.tryFromSlice tx.payload with
    | .ok payload => [(hashers.wasmHash payload.wasm, payload.wasm)]
    | .error _ => []
  else
    []) ++
  (if isMintPolicyDeploy tx then
    match MintingPolicyPayload.tryFromSlice tx.payload with
    | .ok payload => [(hashers.mintPolicyHash payload.wasm, payload.wasm)]
    | .error _ => []
  else
    [])

def ChainBlock.altWrites (block : ChainBlock) : List (AltHandle × AltEntry) :=
  (block.altCreations hashers).map fun creation => (creation.handle, creation.entry)

/-- The transactions whose deployments a step stores. -/
def NodeEvent.calculated : NodeEvent → List Transaction
  | .calculateUtxoState accepted => accepted
  | _ => []

def NodeEvent.altWrites : NodeEvent → List (AltHandle × AltEntry)
  | .commitUtxoState block => block.altWrites hashers
  | _ => []

theorem processDeploys_eq (store : ContractStore) (tx : Transaction) :
    processDeploys hashers store tx = putAllIfAbsent store (tx.deploys hashers) := by
  rw [processDeploys, processMintPolicyDeployIfNeeded,
    processContractDeployIfNeeded, Transaction.deploys]
  cases isContractDeploy tx <;> cases isMintPolicyDeploy tx <;>
    cases ContractDeployPayload.tryFromSlice tx.payload <;>
    cases MintingPolicyPayload.tryFromSlice tx.payload <;> rfl

theorem foldl_processDeploys_eq (store : ContractStore) (txs : List Transaction) :
    txs.foldl (processDeploys hashers) store =
      putAllIfAbsent store (txs.flatMap (Transaction.deploys hashers)) := by
  induction txs generalizing store with
  | nil => rfl
  | cons tx rest ih =>
    rw [foldl_cons, ih, processDeploys_eq, flatMap_cons]
    exact foldl_append.symm

variable {hashers} {node next : Node} {event : NodeEvent}
  (stepped : node.step hashers event = some next)
include stepped

/-- A step changes the code store by what it deploys. -/
theorem Node.contracts_step : next.contracts = putAllIfAbsent node.contracts
    (event.calculated.flatMap (Transaction.deploys hashers)) := by
  cases event with
  | calculateUtxoState ok =>
    cases stepped
    exact foldl_processDeploys_eq hashers node.contracts ok
  | commitVirtualState _ _ | pruneSelectedChain _ =>
    obtain ⟨chain, -, eq⟩ := bind_eq_some_iff.mp stepped
    cases eq
    rfl
  | commitUtxoState _ | advancePruningPoint _ | pruneCarriers _ =>
    cases stepped
    rfl

/-- A step changes the table store by the tables it commits. -/
theorem Node.altStore_step :
    next.altStore = putAllIfAbsent node.altStore (event.altWrites hashers) := by
  cases event with
  | commitVirtualState _ _ | pruneSelectedChain _ =>
    obtain ⟨chain, -, eq⟩ := bind_eq_some_iff.mp stepped
    cases eq
    rfl
  | calculateUtxoState _ | commitUtxoState _ | advancePruningPoint _
  | pruneCarriers _ =>
    cases stepped
    rfl

end

variable {hashers : Hashers} {node : Node} {genesis : Hash} {events : List NodeEvent}

theorem Node.firstWritten_of_run {κ ν : Type} [DecidableEq κ] {read : Node → κ → Option ν}
    {writes : NodeEvent → List (κ × ν)} (initially : ∀ key, read (Node.initial genesis) key = none)
    (written : ∀ node event next, node.step hashers event = some next →
      read next = putAllIfAbsent (read node) (writes event))
    (ran : (Node.initial genesis).run hashers events = some node) (key : κ) :
    read node key = firstWritten (events.flatMap writes) key := by
  refine @foldlM_some_invariant_from _ _ _ _ _ _ (fun events node =>
      read node key = firstWritten (events.flatMap writes) key)
    ?_ [] (initially key) ran
  intro events node event next before stepped
  rw [written node event next stepped, putAllIfAbsent_apply, before,
    flatMap_append, flatMap_singleton]
  exact findSome?_append.symm

end Sophis
