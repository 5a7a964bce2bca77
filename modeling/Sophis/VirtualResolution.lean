import Sophis.SinkSearch

namespace Sophis

open ByteCodec ExceptLoop FiniteLedger List ParallelReduce ParentTree

/-!
# Resolving virtual

`resolve_virtual` of `virtual_processor/processor.rs`: it moves the difference
from the old sink to the new one, calculates virtual on top of it and writes the
accumulated difference to the virtual UTXO set.
-/

section

/-- Virtual as a block: its selected parent and mergeset, the DAA score of its
window, which may be missing, and what its calculation depends on. -/
structure VirtualBlock {external : External} {params : Params} {Node : Type}
    (dag : BlockDag external params Node) where
  selectedParent : Node
  mergeset : List Node
  root_not_merged : dag.root ∉ mergeset
  daaScore : Option UInt64
  environment : ValidationEnvironment
  cuts : Nat → Splitting

/-- The state of virtual. -/
structure VirtualState (Node : Type) where
  sink : Node
  utxoDiff : UtxoDiff
  multiset : MuHash

/-- The stores of the virtual processor. -/
structure ProcessorState (Node : Type) where
  stores : UtxoStores Node
  utxoSet : UtxoSet
  virtualState : VirtualState Node

/-- What a node knows when it resolves virtual: the tips, the finality point,
how it judges blocks, and how it picks virtual from the sink and the candidates
for further parents. -/
structure Resolution {external : External} {params : Params} {Node : Type}
    (dag : BlockDag external params Node) where
  tips : List Node
  finalityPoint : Node
  judging : Node → Judging
  pickVirtualParents : Node → List Node → VirtualBlock dag

variable (elementHash : List UInt8 → Hash) {external : External}
  {params : Params} {Node : Type} [DecidableEq Node]
  (dag : BlockDag external params Node) (relations : DagRelations Node)

/-- Calculates virtual on top of the sink and accumulates its difference. -/
def calculateVirtualState (utxoSet : UtxoSet) (virtualBlock : VirtualBlock dag)
    (multiset : MuHash) (accumulated : UtxoDiff) :
    Except (ResolvePanic Node) (VirtualState Node × UtxoDiff) := do
  let daaScore ← unwrapOr .unexpectedRule virtualBlock.daaScore
  let (context, multiset) ← unwrapOr .calculation
    (calculateUtxoStateWithMuhash elementHash external.toHashers params virtualBlock.environment
      (accumulated.compose utxoSet.lookup) daaScore (dag.block virtualBlock.selectedParent)
      (dag.blocks virtualBlock.mergeset) virtualBlock.cuts multiset)
  let accumulated ← (accumulateDiff accumulated context.mergesetDiff).mapError .relative
  return (⟨virtualBlock.selectedParent, context.mergesetDiff, multiset⟩, accumulated)

/-- How many multisets are kept below the finality point. -/
def safetyMargin : Nat := 100

/-- The chain block that many blocks below the finality point. The index of a
chain block is its height, and the first one is left alone. -/
def finalizedTarget (finalityPoint : Node) : Option Node :=
  if dag.height finalityPoint ≤ safetyMargin then
    none
  else
    (dag.chain finalityPoint)[safetyMargin]?

/-- Deletes the multiset of a block that can no longer be reorganised. -/
def pruneFinalizedMultiset (finalityPoint : Node) (stores : UtxoStores Node) : UtxoStores Node :=
  { stores with
    utxoMultisets :=
      match finalizedTarget dag finalityPoint with
      | none => stores.utxoMultisets
      | some target => Function.update stores.utxoMultisets target none }

def resolveVirtual (state : ProcessorState Node) (resolution : Resolution dag) :
    Except (ResolvePanic Node) (ProcessorState Node) := do
  let tips := resolution.tips.filter (relations.isDagAncestorOf resolution.finalityPoint)
  let (found, candidates) ← sinkSearchAlgorithm elementHash dag relations resolution.judging
    state.utxoSet resolution.finalityPoint (relations.searchBound tips + 1)
    ⟨state.virtualState.sink, state.virtualState.utxoDiff.asReversed, state.stores⟩ tips
  let virtualBlock := resolution.pickVirtualParents found.diffPoint candidates
  reject (virtualBlock.selectedParent ≠ found.diffPoint) .selectedParentMismatch
  let multiset ← unwrapOr (.relative (.missingMultiset found.diffPoint))
    (found.stores.utxoMultisets found.diffPoint)
  let (virtualState, accumulated) ← calculateVirtualState elementHash dag
    state.utxoSet virtualBlock multiset found.diff
  return {
    stores := pruneFinalizedMultiset dag resolution.finalityPoint found.stores
    utxoSet := state.utxoSet.withDiff accumulated
    virtualState }

/-- The state after `process_genesis`: the genesis is valid and virtual points
at it. -/
def BlockDag.genesisState : ProcessorState Node where
  stores := {
    statuses := fun node => some (if node = dag.root then .utxoValid else .utxoPendingVerification)
    utxoDiffs := fun node => if node = dag.root then some .empty else none
    utxoMultisets := fun node =>
      if node = dag.root then some MuHash.new else none }
  utxoSet := ∅
  virtualState := ⟨dag.root, .empty, MuHash.new⟩

end

variable {elementHash : List UInt8 → Hash} {external : External} {params : Params} {Node : Type}
  {dag : BlockDag external params Node} {relations : DagRelations Node}

section

variable [DecidableEq Node]

theorem resolveVirtual_ne_outOfFuel (state : ProcessorState Node) (resolution : Resolution dag) :
    resolveVirtual elementHash dag relations state resolution ≠ .error .outOfFuel := by
  intro failed
  rw [resolveVirtual, bind_eq_error] at failed
  rcases failed with searching | ⟨⟨got, candidates⟩, -, failed⟩
  · exact sinkSearchAlgorithm_ne_outOfFuel (Nat.lt_succ_self _) searching
  · simp only [calculateVirtualState, bind_eq_error, reject_eq_error,
      unwrapOr_eq_error, mapError_eq_error, pure, Except.pure, reduceCtorEq,
      and_false, exists_false, or_self] at failed

end

section

variable {stores : UtxoStores Node} {floor nextFloor finalityPoint : Node}

/-- A floor that stays above what is deleted below a finality point. -/
structure BlockDag.KeepsAbove (dag : BlockDag external params Node)
    (floor finalityPoint nextFloor : Node) : Prop where
  above : floor ∈ dag.chain nextFloor
  below : nextFloor ∈ dag.chain finalityPoint
  within : dag.height finalityPoint < dag.height nextFloor + safetyMargin

/-- What is deleted below a finality point is not above the next floor. -/
structure BlockDag.Spares (dag : BlockDag external params Node)
    (floor finalityPoint nextFloor : Node) : Prop where
  above : floor ∈ dag.chain nextFloor
  below : nextFloor ∈ dag.chain finalityPoint
  spared : ∀ target, finalizedTarget dag finalityPoint = some target → nextFloor ∉ dag.chain target

theorem BlockDag.KeepsAbove.spares (keeps : dag.KeepsAbove floor finalityPoint nextFloor) :
    dag.Spares floor finalityPoint nextFloor := by
  refine ⟨keeps.above, keeps.below, fun target got aboveFloor => ?_⟩
  have level : dag.height target + safetyMargin = dag.height finalityPoint := by
    rw [finalizedTarget] at got
    split at got
    · cases got
    · exact Tree.height_of_getElem?_chain got
  have lower := Tree.height_le_of_mem_chain aboveFloor
  have within := keeps.within
  omega

variable [DecidableEq Node]

theorem BlockDag.Spares.utxoMultisets_eq (spares : dag.Spares floor finalityPoint nextFloor)
    {node : Node} (aboveFloor : nextFloor ∈ dag.chain node) :
    (pruneFinalizedMultiset dag finalityPoint stores).utxoMultisets node =
      stores.utxoMultisets node := by
  rw [pruneFinalizedMultiset]
  cases got : finalizedTarget dag finalityPoint with
  | none => rfl
  | some target =>
    have ne : node ≠ target := by
      rintro rfl
      exact spares.spared node got aboveFloor
    exact Function.update_of_ne ne _ _

theorem UtxoStores.Consistent.pruneFinalizedMultiset
    (consistent : stores.Consistent elementHash dag floor)
    (spares : dag.Spares floor finalityPoint nextFloor) :
    (pruneFinalizedMultiset dag finalityPoint stores).Consistent elementHash dag nextFloor where
  status_known := consistent.status_known
  valid_iff := consistent.valid_iff
  root_diff := consistent.root_diff
  parent_valid := consistent.parent_valid
  verified := consistent.verified
  multiset_eq node aboveFloor valid := by
    rw [spares.utxoMultisets_eq aboveFloor]
    exact consistent.multiset_eq node (Tree.mem_chain_trans spares.above aboveFloor) valid

end

section

variable {floor : Node}

/-- A state whose virtual UTXO set is that of the sink with the stored
difference of virtual on top. -/
structure ProcessorState.Consistent (elementHash : List UInt8 → Hash)
    (dag : BlockDag external params Node) (floor : Node)
    (state : ProcessorState Node) : Prop where
  stores : state.stores.Consistent elementHash dag floor
  sink_valid : state.stores.Valid state.virtualState.sink
  sink_above : floor ∈ dag.chain state.virtualState.sink
  between : state.virtualState.utxoDiff.Between
    (dag.utxoOf state.stores state.virtualState.sink) state.utxoSet
  createdFrom : CreatedFrom external.toHashers dag.Known state.utxoSet
  multiset_eq : state.virtualState.multiset = commitment elementHash state.utxoSet

/-- The difference of virtual is what its calculation on the set of the sink
gives. -/
def ProcessorState.Calculated (dag : BlockDag external params Node)
    (state : ProcessorState Node) (virtualBlock : VirtualBlock dag) : Prop :=
  ∃ daaScore context, virtualBlock.selectedParent = state.virtualState.sink ∧
    virtualBlock.daaScore = some daaScore ∧
    calculateUtxoState external.toHashers params virtualBlock.environment
      (dag.utxoOf state.stores state.virtualState.sink).lookup daaScore
      (dag.block state.virtualState.sink) (dag.blocks virtualBlock.mergeset) = some context ∧
    context.mergesetDiff = state.virtualState.utxoDiff

variable [DecidableEq Node]

omit [DecidableEq Node] in
/-- A search starts at the sink of the committed state. -/
theorem ProcessorState.Consistent.located {state : ProcessorState Node}
    (consistent : state.Consistent elementHash dag floor) :
    Located elementHash dag floor state.utxoSet
      ⟨state.virtualState.sink, state.virtualState.utxoDiff.asReversed, state.stores⟩ where
  consistent := consistent.stores
  valid := consistent.sink_valid
  aboveFloor := consistent.sink_above
  between := consistent.between.asReversed

/-- Every resolve leads from a consistent state to one. -/
theorem ProcessorState.Consistent.resolveVirtual {state next : ProcessorState Node}
    (consistent : state.Consistent elementHash dag floor) (fits : params.CountsFitWords)
    (free : dag.CollisionFree) {resolution : Resolution dag} {nextFloor : Node}
    (spares : dag.Spares floor resolution.finalityPoint nextFloor)
    (resolved : Sophis.resolveVirtual elementHash dag relations state resolution = .ok next) :
    next.Consistent elementHash dag nextFloor ∧ ∃ candidates, next.Calculated dag
      (resolution.pickVirtualParents next.virtualState.sink candidates) := by
  simp only [Sophis.resolveVirtual, calculateVirtualState, bind_eq_ok, check_eq_ok,
    reject_eq_ok, not_not, unwrapOr_eq_ok, mapError_eq_ok] at resolved
  obtain ⟨⟨got, candidates⟩, searched, onSink, multiset, kept, ⟨virtualState, accumulated⟩,
    ⟨daaScore, hasScore, ⟨context, hashed⟩, withMuhash, total, accumulates, made⟩, eq⟩ := resolved
  cases made
  cases eq
  obtain ⟨located, final⟩ := consistent.located.sinkSearchAlgorithm fits free
    consistent.createdFrom (Tree.mem_chain_trans spares.above spares.below) searched
  generalize chosen : resolution.pickVirtualParents got.diffPoint candidates = virtualBlock
    at onSink hasScore withMuhash
  have view : got.diff.compose state.utxoSet.lookup = fun key =>
      (dag.utxoOf got.stores got.diffPoint).lookup key := by
    funext key
    rw [← UtxoSet.lookup_withDiff, located.between.withDiff_eq]
  cases (located.consistent.multiset_eq _ located.aboveFloor located.valid).symm.trans kept
  rw [view, onSink] at withMuhash
  have ran := calculateUtxoState_of_withMuhash withMuhash
  have exactly : CalculationExact elementHash dag _ virtualBlock.environment _ _ _ context :=
    (located.consistent.reaches located.valid).calculation fits
      free virtualBlock.root_not_merged ran
  cases withMuhash.symm.trans (exactly.commits virtualBlock.cuts)
  have sinkCreated := located.consistent.createdFrom fits free located.valid
  obtain ⟨composed, composes, composedExactly⟩ :=
    free.accumulateDiff fits consistent.createdFrom sinkCreated
      (exactly.createdFrom sinkCreated) located.between exactly.between
  cases composes.symm.trans accumulates
  have written := composedExactly.withDiff_eq
  rw [onSink, written]
  exact ⟨{
    stores := located.consistent.pruneFinalizedMultiset spares
    sink_valid := located.valid
    sink_above := Tree.mem_chain_trans spares.below final
    between := exactly.between
    createdFrom := exactly.createdFrom sinkCreated
    multiset_eq := rfl
  }, candidates, daaScore, context, by rwa [chosen], by rwa [chosen], by rwa [chosen], rfl⟩

theorem BlockDag.genesisState_valid_iff {node : Node} :
    dag.genesisState.stores.Valid node ↔ node = dag.root := by
  by_cases isRoot : node = dag.root
  · simp [UtxoStores.Valid, BlockDag.genesisState, isRoot]
  · simp [UtxoStores.Valid, BlockDag.genesisState, isRoot]

theorem BlockDag.genesisState_stores_consistent (elementHash : List UInt8 → Hash)
    (dag : BlockDag external params Node) :
    dag.genesisState.stores.Consistent elementHash dag dag.root := by
  have rootDiff : dag.genesisState.stores.utxoDiffs dag.root = some .empty := if_pos rfl
  have rootUtxo : dag.utxoOf dag.genesisState.stores dag.root = ∅ := by
    rw [BlockDag.utxoOf, dag.replay_root, rootDiff]
    rfl
  refine {
    status_known := fun _ => rfl
    valid_iff := fun node => ?_
    root_diff := rootDiff
    parent_valid := fun node ne valid => absurd (genesisState_valid_iff.mp valid) ne
    verified := fun node diff ne kept =>
      absurd (genesisState_valid_iff.mp (Option.isSome_of_eq_some kept)) ne
    multiset_eq := fun node _ valid => ?_ }
  · rw [genesisState_valid_iff]
    by_cases isRoot : node = dag.root
    · simp [BlockDag.genesisState, isRoot]
    · simp [BlockDag.genesisState, isRoot]
  · rw [genesisState_valid_iff.mp valid, rootUtxo]
    exact if_pos rfl

theorem BlockDag.genesisState_consistent (elementHash : List UInt8 → Hash)
    (dag : BlockDag external params Node) :
    dag.genesisState.Consistent elementHash dag dag.root := by
  have stores := dag.genesisState_stores_consistent elementHash
  exact {
    stores
    sink_valid := genesisState_valid_iff.mpr rfl
    sink_above := dag.self_mem_chain dag.root
    between := by
      change UtxoDiff.empty.Between (dag.utxoOf dag.genesisState.stores dag.root) ∅
      rw [stores.utxoOf_root]
      exact fun _ => rfl
    createdFrom := createdFrom_empty
    multiset_eq := rfl }

/-- Runs of resolves from the genesis on, with the block from which multisets
are kept. The finality point of a resolve is above that block; it may fall
behind the one before, but not by the safety margin. -/
inductive ResolveRun (elementHash : List UInt8 → Hash)
    (dag : BlockDag external params Node) (relations : DagRelations Node) :
    Node → ProcessorState Node → Prop where
  | genesis : ResolveRun elementHash dag relations dag.root dag.genesisState
  | resolve {floor nextFloor : Node} {state next : ProcessorState Node}
    {resolution : Resolution dag} :
    ResolveRun elementHash dag relations floor state →
    dag.KeepsAbove floor resolution.finalityPoint nextFloor →
    resolveVirtual elementHash dag relations state resolution = .ok next →
    ResolveRun elementHash dag relations nextFloor next

theorem ResolveRun.consistent {state : ProcessorState Node}
    (run : ResolveRun elementHash dag relations floor state) (fits : params.CountsFitWords)
    (free : dag.CollisionFree) : state.Consistent elementHash dag floor := by
  induction run with
  | genesis => exact dag.genesisState_consistent elementHash
  | resolve _ keeps resolved ih =>
    exact (ih.resolveVirtual fits free keeps.spares resolved).1

end

/-! Two chains on the first block of the contract chain: one with the
deployment, and a heavier block of another miner. -/

/-- A chain and a heavier rival. -/
inductive RivalNode where
  | genesis
  | first
  | second
  | third
  | rival
  deriving DecidableEq

/-- The second block as another miner would build it. -/
def rivalBlock : Block :=
  let block := deadlineBlock 2 firstBlock.header.hash [minedCoinbase 2 ⟨0, []⟩ [⟨37002785, anyone⟩]]
  { block with
    header := { block.header with hash := FixedBytes.replicate 32 9 } }

def RivalNode.parent : RivalNode → RivalNode
  | genesis => genesis
  | first => genesis
  | second => first
  | third => second
  | rival => first

def RivalNode.height : RivalNode → Nat
  | genesis => 0
  | first => 1
  | second => 2
  | third => 3
  | rival => 2

def RivalNode.block : RivalNode → Block
  | genesis => deadlineGenesis.tip
  | first => firstBlock
  | second => secondBlock
  | third => thirdBlock
  | rival => rivalBlock

theorem rivalBlock_accepted : BodyAccepted deadlineExternal immediateParams ⟨fun _ => true, .ok 0⟩
    rivalBlock :=
  ⟨⟨(0, 0, 0), by decide +kernel⟩, by decide +kernel⟩

theorem RivalNode.accepted {node : RivalNode} (ne : node ≠ .genesis) :
    BodyAccepted deadlineExternal immediateParams ⟨fun _ => true, .ok 0⟩ node.block := by
  cases node with
  | genesis => exact absurd rfl ne
  | first => exact firstJoining.accepted
  | second => exact secondJoining.accepted
  | third => exact thirdJoining.accepted
  | rival => exact rivalBlock_accepted

def rivalDag : BlockDag deadlineExternal immediateParams RivalNode where
  root := .genesis
  parent := RivalNode.parent
  height := RivalNode.height
  height_root := rfl
  height_parent node notRoot := by
    cases node with
    | genesis => exact absurd rfl notRoot
    | first | second | third | rival => rfl
  block := RivalNode.block
  ghostdag node :=
    ⟨node.block.header.blueScore, node.parent.block.header.hash,
      [node.parent.block.header.hash], []⟩
  mergeset _ := []
  nonDaa node := outsideWindow node.parent.block.header.hash
  genesis := ⟨mainnetGenesisPayload, ⟨0, 100000000, ⟨⟨0, [0]⟩, mainnetGenesisPayload.drop 20⟩⟩, rfl,
    by decide +kernel, rfl⟩
  bodies node notRoot := ⟨_, RivalNode.accepted notRoot⟩
  root_not_merged _ := not_mem_nil
  selectedParent_blue _ _ := mem_singleton_self _
  coloured_merged node _ hash coloured :=
    ⟨node.parent, mem_cons_self, (mem_singleton.mp coloured).symm⟩
  blueScore_eq node notRoot := by
    cases node with
    | genesis => exact absurd rfl notRoot
    | first | second | third | rival => decide +kernel
  scripts_fit node := by
    cases node with
    | genesis | first | second | third | rival => decide +kernel

theorem rivalDag_collisionFree : rivalDag.CollisionFree := by
  have listed : ∀ tx, rivalDag.Known tx →
      tx ∈ [RivalNode.genesis, .first, .second, .third, .rival].flatMap
        fun node => node.block.transactions := by
    rintro tx ⟨node, mem⟩
    refine mem_flatMap.mpr ⟨node, ?_, mem⟩
    cases node with
    | genesis | first | second | third | rival => decide
  have nodup : deadlineExternal.toHashers.CollisionFree
      ([RivalNode.genesis, .first, .second, .third, .rival].flatMap
        fun node => node.block.transactions) := by
    unfold Hashers.CollisionFree
    decide +kernel
  intro first second isFirst isSecond
  exact nodup first (listed first isFirst) second (listed second isSecond)

def rivalRelations : DagRelations RivalNode where
  parents node := if node = .genesis then [] else [node.parent]
  isDagAncestorOf lower node := lower ∈ rivalDag.chain node
  blueWork
    | .genesis => 0
    | .first => 1
    | .second => 2
    | .third => 3
    | .rival => 4
  filteringBlueWork _ := 0
  rank := RivalNode.height
  rank_parent node parent member := by
    cases node with
    | genesis => cases member
    | first | second | third | rival =>
      cases mem_singleton.mp member
      decide

/-- A node that sees some tips, finds the commitments of all headers right and
puts virtual on the sink alone. -/
def rivalResolution (tips : List RivalNode) : Resolution rivalDag where
  tips
  finalityPoint := .genesis
  judging _ := {
    environment := deadlineEnvironment
    cuts := fun _ => .whole
    utxoCommitmentMatches := fun _ => true
    acceptedIdMerkleRootMatches := fun _ => true
    pruningPointMatches := true }
  pickVirtualParents sink _ := {
    selectedParent := sink
    mergeset := []
    root_not_merged := not_mem_nil
    daaScore := some (sink.block.header.daaScore + 1)
    environment := deadlineEnvironment
    cuts := fun _ => .whole }

def rivalResolve (state : ProcessorState RivalNode) (tips : List RivalNode) :
    Except (ResolvePanic RivalNode) (ProcessorState RivalNode) :=
  resolveVirtual fingerprint rivalDag rivalRelations state (rivalResolution tips)

theorem rivalDag_resolves :
    ((rivalResolve rivalDag.genesisState [.third]).toOption.bind fun state =>
        (rivalResolve state [.third, .rival]).toOption.bind fun next =>
          (calculateUtxoStateRelatively fingerprint rivalDag
            (rivalResolution []).judging state.utxoSet state.stores
            state.virtualState.utxoDiff.asReversed state.virtualState.sink
            .rival).toOption.map fun final =>
              (state.virtualState.sink, next.virtualState.sink, final.diffPoint)) =
      some (.third, .rival, .rival) := by
  decide +kernel

end Sophis
