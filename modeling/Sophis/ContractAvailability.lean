import Sophis.NodeHistory

namespace Sophis

open ByteCodec FirstWriterStore

/-!
# Which code a node has

Code is written to the contract store while the state of a candidate is
calculated, before the candidate is verified, and is never removed. So the
store after a history holds what any calculation of the history deployed,
whether or not its block ended up on the selected chain.
-/

def deployedIds (hashers : Hashers) (txs : List Transaction) : List ContractId :=
  (txs.flatMap (Transaction.deploys hashers)).map Prod.fst

/-- The transactions accepted by the calculations of a history, whatever became
of the blocks. -/
def calculatedTransactions (events : List NodeEvent) : List Transaction :=
  events.flatMap NodeEvent.calculated

theorem contracts_isSome_iff {hashers : Hashers} {genesis : Hash} {events : List NodeEvent}
    {node : Node} (ran : (Node.initial genesis).run hashers events = some node) (id : ContractId) :
    (node.contracts id).isSome = true ↔
      id ∈ deployedIds hashers (calculatedTransactions events) := by
  have kept : node.contracts id = firstWritten (events.flatMap fun event =>
      event.calculated.flatMap (Transaction.deploys hashers)) id :=
    Node.firstWritten_of_run (fun _ => rfl) (fun _ _ _ => Node.contracts_step) ran id
  rw [kept, firstWritten_isSome_iff, deployedIds, calculatedTransactions, List.flatMap_assoc]

/-- The lookups of a validator succeed exactly for the code deployed on the
selected chain if and only if the calculations of the node have deployed just
that code; and two nodes agree on all lookups if and only if their
calculations have deployed the same code. -/
theorem contractAvailability_iff (hashers : Hashers) (genesis : Hash)
    (events otherEvents : List NodeEvent) (node other : Node)
    (ran : (Node.initial genesis).run hashers events = some node)
    (otherRan : (Node.initial genesis).run hashers otherEvents = some other)
    (executor : ContractExecutor) (headersDaaScore : Hash → Option UInt64)
    (onChain : List Transaction) :
    ((∀ id, ((node.svm executor headersDaaScore).store id).isSome = true ↔
        id ∈ deployedIds hashers onChain) ↔
      ∀ id, id ∈ deployedIds hashers (calculatedTransactions events) ↔
        id ∈ deployedIds hashers onChain) ∧
    ((∀ id, ((node.svm executor headersDaaScore).store id).isSome = true ↔
        ((other.svm executor headersDaaScore).store id).isSome = true) ↔
      ∀ id, id ∈ deployedIds hashers (calculatedTransactions events) ↔
        id ∈ deployedIds hashers (calculatedTransactions otherEvents)) := by
  have own : ∀ id, ((node.svm executor headersDaaScore).store id).isSome = true ↔
      id ∈ deployedIds hashers (calculatedTransactions events) :=
    contracts_isSome_iff ran
  have others : ∀ id, ((other.svm executor headersDaaScore).store id).isSome = true ↔
      id ∈ deployedIds hashers (calculatedTransactions otherEvents) :=
    contracts_isSome_iff otherRan
  constructor
  · exact forall_congr' fun id => by rw [own id]
  · exact forall_congr' fun id => by rw [own id, others id]

/-! A candidate that never joins the chain deploys a contract. A node that
calculated its state accepts spends of the contract that every other node
rejects. -/

/-- A module that exports `validate`, which returns one. -/
def approvingWasm : List UInt8 :=
  [0, 97, 115, 109, 1, 0, 0, 0, 1, 5, 1, 96, 0, 1, 127, 3, 2, 1, 0, 7, 12, 1, 8, 118, 97, 108, 105,
    100, 97, 116, 101, 0, 0, 10, 6, 1, 4, 0, 65, 1, 11]

def deploymentExternal : External where
  toHashers := { Hashers.zero with
    wasmHash := fun _ =>
      ⟨[3, 38, 7, 249, 132, 251, 47, 74, 141, 178, 150, 34, 105, 204, 3, 211, 97, 78, 107, 200, 31,
        4, 185, 137, 120, 141, 244, 112, 58, 59, 107, 152], rfl⟩ }
  parseAll _ := [.ok .other, .ok (.declarations [.ok ⟨[.i32], false, []⟩]), .ok .other, .ok .other,
    .ok .other, .ok (.codeSectionEntry [] (.ok [.ok "I32Const", .ok "End"])), .ok .other]

/-- An output of the contract, with an empty datum and no capabilities. -/
def approvingContract : ScriptPublicKey where
  version := scriptVersionContract
  script := (deploymentExternal.wasmHash approvingWasm).bytes ++
    leBytes 4 0 ++ (deploymentExternal.wasmHash approvingWasm).bytes ++
    [0] ++ leBytes 4 0

def deployment : Transaction := { (unsignedSpend ⟨0, [0x51]⟩).tx with
    outputs := [⟨999999999000, approvingContract⟩]
    payload := leBytes 4 approvingWasm.length ++ approvingWasm }

def approvingExecutor : ContractExecutor := ⟨fun _ _ _ _ => .ok true⟩

/-- Whether the spend of the contract output passes after a history. -/
def contractSpendPasses (events : List NodeEvent) : Option Bool :=
  ((Node.initial zeroHash).run deploymentExternal.toHashers events).map fun node =>
    (checkContractInput deploymentExternal.toHashers
      (some (node.svm approvingExecutor fun _ => some 0)) (unsignedSpend approvingContract)
      ⟨1000000000000, approvingContract, 0, false⟩ 1).toOption.isSome

/-- A node whose only calculation is that of the chain block with the
deployment has the code of its chain. -/
theorem chain_deployment_available :
    ∃ node, (Node.initial zeroHash).run deploymentExternal.toHashers
        [.calculateUtxoState [deployment]] = some node ∧
      ∀ id, ((node.svm approvingExecutor fun _ => some 0).store id).isSome = true ↔
        id ∈ deployedIds deploymentExternal.toHashers [deployment] :=
  ⟨_, rfl, (contractAvailability_iff deploymentExternal.toHashers zeroHash
    [.calculateUtxoState [deployment]] [.calculateUtxoState [deployment]] _ _ rfl rfl
    approvingExecutor (fun _ => some 0) [deployment]).1.mpr fun _ => Iff.rfl⟩

/-- Both nodes have the same empty chain; one of them calculated a candidate
with the deployment. -/
theorem orphaned_deployment_available : validateTxInIsolation deploymentExternal
      mainnetParams.transactionValidator deployment = .ok () ∧
    contractSpendPasses [.calculateUtxoState []] = some false ∧
    contractSpendPasses [.calculateUtxoState [deployment]] = some true := by
  refine ⟨?_, ?_, ?_⟩ <;> decide +kernel

end Sophis
